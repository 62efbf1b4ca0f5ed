import LosantDevice.Session.Cleanup

/-!
# A deletion that fails is tried again, but not for ever

When the cluster cannot be deleted, the job stores the error and the write brings the object back
to the controller. The delay that `runCleanup` asks for is dropped, so if the same error is stored
already, nothing changes and nothing is enqueued.
-/
namespace LosantDevice.Session
open Effect Kube Go Program

variable {lib : Externals} {env : Env rancherSession calls} {s : Server rancherSession}
  {b : RancherSession} {h : Past}

/-- The finalizer is gone, with its object or without. -/
def Removed (s : Server rancherSession) : Prop :=
  ∀ o, s.current = some o → rancherFinalizer ∉ o.metadata.finalizers

/-- The job ended in an error, asks to be run again, or has changed the stored object. -/
def Retried (s s' : Server rancherSession) : Except String Result → Prop
  | .error _ => True
  | .ok res => res.AsksAgain ∨ s'.log ≠ s.log

/-- Why a job that ended so is run again, if it asks for no delay. -/
def Ends (env : Env rancherSession calls) (s : Server rancherSession)
    (x : Past × Except String Result) : Prop :=
  Removed (env.server s x.1) ∨ (∃ err, x.2 = .error err) ∨ (env.server s x.1).log ≠ s.log

theorem Ends.retried {x : Past × Except String Result} (he : Ends env s x)
    (hr : ¬Removed (env.server s x.1)) : Retried s (env.server s x.1) x.2 := by
  obtain ⟨h,r⟩ := x
  rcases he with hrem | ⟨err,rfl⟩ | hlog
  · exact absurd hrem hr
  · trivial
  · cases r with
    | error err => trivial
    | ok res => exact .inr hlog

/-- What is in the log stays there. -/
theorem ends_moved (hm : s.log.length < (env.server s h).log.length)
    (p : M (Except String Result)) : Ends env s (run (env.strategy s) h p) := by
  refine .inr (.inr fun he => ?_)
  have hle := (env.log_suffix s (suffix_run (env.strategy s) h p)).length_le
  rw [he] at hle
  omega

/-- A call, whatever its answer. -/
theorem ends_call {e : interface.Call} {next : interface.Answer e → M (Except String Result)}
    (hf : ∀ r, env.strategy s h e = r → Ends env s (run (env.strategy s) (⟨e,r⟩::h) (next r))) :
    Ends env s (run (env.strategy s) h (.call e next)) := hf _ rfl

/-- A status write from the latest copy is refused, changes the object, or changes nothing. -/
theorem ends_updateStatus {o : RancherSession}
    {next : interface.Answer (.inl (.updateStatus o)) → M (Except String Result)}
    (hlog : (env.server s h).log = s.log) (hb : s.current = some b)
    (hv : o.metadata.resourceVersion = b.metadata.resourceVersion)
    (herr : ∀ err h', Ends env s (run (env.strategy s) h' (next (.error err))))
    (hsame : env.refuse h = none → o.status.Admitted → o.status.encode = b.status →
      (env.server s (⟨.inl (.updateStatus o),.ok b.metadata.resourceVersion⟩::h)).log = s.log →
      Ends env s (run (env.strategy s) (⟨.inl (.updateStatus o),.ok b.metadata.resourceVersion⟩::h)
        (next (.ok b.metadata.resourceVersion)))) :
    Ends env s (run (env.strategy s) h (.call (.inl (.updateStatus o)) next)) := by
  have hb' : (env.server s h).current = some b := by
    rw [Server.current,hlog]
    exact hb
  have hans : env.strategy s h (.inl (.updateStatus o)) =
    ((env.server s h).reply (X := calls) (env.refuse h) (.updateStatus o)).1 := rfl
  refine ends_call fun r hr => ?_
  subst hr
  rcases Server.reply_updateStatus (X := calls) hb' hv (env.refuse h) with
    ⟨err,hr⟩ | ⟨href,had,henc,hr⟩ | ⟨v,s',hr,hlt⟩
  · rw [hans,hr]
    exact herr err _
  · rw [hans,hr]
    exact hsame href had henc ((congrArg (fun x => x.2.log) hr).trans hlog)
  · refine ends_moved ?_ _
    rw [hlog] at hlt
    exact lt_of_lt_of_eq hlt (congrArg (fun x => x.2.log.length) hr).symm

/-! ## Jobs that are run again -/

theorem ends_error {err : String} : Ends env s (run (env.strategy s) h (pure (.error err))) :=
  .inr (.inl ⟨err,rfl⟩)

theorem ends_deleteNamespace {f : Except String Unit → M (Except String Result)}
    (hgone : ∀ r, Ends env s (run (env.strategy s)
      (⟨.inr (.deleteNamespace cattleSystemNamespace),r⟩::h) (f (.ok ()))))
    (hstays : ∀ err h', Ends env s (run (env.strategy s) h' (f (.error err)))) :
    Ends env s (run (env.strategy s) h (deleteNamespace cattleSystemNamespace >>= f)) := by
  refine ends_call ?_
  rintro (err | ⟨⟩) -
  · change Ends env s (run _ _ (Program.bind (if err.reason ≠ .notFound then _ else _) f))
    by_cases hne : err.reason = .notFound
    · rw [if_neg (not_not.mpr hne)]
      exact hgone _
    · rw [if_pos hne]
      exact hstays _ _
  · exact hgone _

theorem removeFinalizer_ends (hlog : (env.server s h).log = s.log) (hb : s.current = some b)
    (hheld : rancherFinalizer ∈ b.metadata.finalizers) :
    Ends env s (run (env.strategy s) h (removeFinalizer b)) := by
  refine ends_call ?_
  rintro (err | v) hr
  · exact ends_error
  · -- The list of finalizers changes.
    refine ends_moved ?_ _
    have hb' : (env.server s h).current = some b := by
      rw [Server.current,hlog]
      exact hb
    rw [← hlog]
    refine Server.length_lt_of_update (X := calls) hb' hr ?_
    intro heq
    rw [← heq] at hheld
    simp at hheld

theorem cleanNamespace_ends (hlog : (env.server s h).log = s.log) (hb : s.current = some b)
    (hphase : b.status.phase = .disconnecting) :
    Ends env s (run (env.strategy s) h (cleanNamespace b)) := by
  refine ends_deleteNamespace (fun r => ?_) (fun err h' => ends_error)
  refine ends_updateStatus hlog hb rfl (fun err h' => ends_error) (fun _ _ henc _ => ?_)
  -- The phase changes.
  have hp := congrArg RancherSessionStatus.phase henc
  rw [hphase] at hp
  cases hp

theorem cleanupWithoutClient_ends (hlog : (env.server s h).log = s.log) (hb : s.current = some b)
    (hheld : rancherFinalizer ∈ b.metadata.finalizers) :
    Ends env s (run (env.strategy s) h (cleanupWithoutClient b)) :=
  ends_deleteNamespace (fun _ => removeFinalizer_ends hlog hb hheld) (fun _ _ => ends_error)

/-! ## The jobs that are not -/

/-- The condition that `setAPIUnreachable` sets. -/
def unreachableCondition (b : RancherSession) (reason message : String) :
    Condition SessionCondition :=
  { type := .rancherAPIReachable, status := .false, observedGeneration := b.metadata.generation
    lastTransitionTime := zeroTime, reason, message }

/-- The status says already what `setAPIUnreachable` would store. -/
def Noted (b : RancherSession) (reason message : String) : Prop :=
  b.status.lastTransitionMessage = message ∧
    ∃ d, findStatusCondition b.status.conditions .rancherAPIReachable = some d ∧
      d.Same (unreachableCondition b reason message)

/-- One more reading of the clock. -/
def clockRead (env : Env rancherSession calls) (h : Past) : Past :=
  ⟨.inr (.now .transition),env.answer h (.now .transition)⟩::h

/-- One more attempt to delete the cluster, which fails. -/
def deleteFailed (b : RancherSession) (c : Rancher.HTTPClient) (err : Rancher.Error) (h : Past) :
    Past :=
  ⟨.inr (.rancher c (.deleteCluster b.status.rancherClusterID)),.error err⟩::h

theorem setAPIUnreachable_ends (hlog : (env.server s h).log = s.log) (hb : s.current = some b)
    (henc : b.status.encode = b.status) {reason message : String}
    (hns : env.refuse (clockRead env h) = none → ¬Noted b reason message) :
    Ends env s (run (env.strategy s) h (setAPIUnreachable lib b reason message)) := by
  refine ends_call fun t ht => ?_
  cases ht
  refine ends_updateStatus hlog hb rfl (fun _ _ => ends_error) (fun href _ hst _ => ?_)
  refine absurd ⟨?_,?_⟩ (hns href)
  · exact (congrArg RancherSessionStatus.lastTransitionMessage hst).symm
  · have hcs : b.status.conditions.map Condition.encode = b.status.conditions :=
      congrArg RancherSessionStatus.conditions henc
    exact (lib.conditions.encode_set_eq_iff _ _ (unreachableCondition b reason message) hcs).mp
      (congrArg RancherSessionStatus.conditions hst)

theorem cleanCluster_ends {rc : Option Rancher.HTTPClient} (hlog : (env.server s h).log = s.log)
    (hb : s.current = some b) (henc : b.status.encode = b.status)
    (hphase : b.status.phase = .disconnecting)
    (hns : ∀ c err, rc = some c → b.status.rancherClusterID ≠ "" →
      env.answer h (.rancher c (.deleteCluster b.status.rancherClusterID)) = .error err →
      env.refuse (clockRead env (deleteFailed b c err h)) = none →
      ¬Noted b "DeleteClusterFailed" err.text) :
    Ends env s (run (env.strategy s) h (cleanCluster lib rc b)) := by
  unfold cleanCluster
  split
  · rename_i hid
    cases rc with
    | none => exact ends_error
    | some c =>
      refine ends_call ?_
      rintro (err | ⟨⟩) hr
      · exact setAPIUnreachable_ends (h := deleteFailed b c err h) hlog hb henc
          (hns c err rfl hid hr)
      · exact cleanNamespace_ends hlog hb hphase
  · exact cleanNamespace_ends hlog hb hphase

/-- With the phase stored already, the object that is written is the copy. -/
theorem disconnecting_eq (hphase : b.status.phase = .disconnecting) :
    ({ b with status := { b.status with phase := .disconnecting } } : RancherSession) = b := by
  rw [← hphase]
  rfl

theorem stored_self (henc : b.status.encode = b.status) :
    Object.stored b b.metadata.resourceVersion = b := by
  have henc : rancherSession.encode b.status = b.status := henc
  simp only [Object.stored,henc]

/-- One more write of the phase, which changes nothing. -/
def phaseStored (b : RancherSession) (h : Past) : Past :=
  ⟨.inl (.updateStatus b),.ok b.metadata.resourceVersion⟩::h

theorem runCleanup_ends {rc : Option Rancher.HTTPClient} (hlog : (env.server s h).log = s.log)
    (hb : s.current = some b) (henc : b.status.encode = b.status)
    (hns : b.status.phase = .disconnecting → b.status.Admitted → env.refuse h = none →
      ∀ c err, rc = some c → b.status.rancherClusterID ≠ "" →
      env.answer (phaseStored b h) (.rancher c (.deleteCluster b.status.rancherClusterID)) =
        .error err →
      env.refuse (clockRead env (deleteFailed b c err (phaseStored b h))) = none →
      ¬Noted b "DeleteClusterFailed" err.text) :
    Ends env s (run (env.strategy s) h (runCleanup lib rc b)) := by
  refine ends_updateStatus hlog hb rfl (fun _ _ => ends_error) (fun href had hst hlog' => ?_)
  have hphase : b.status.phase = .disconnecting := (congrArg RancherSessionStatus.phase hst).symm
  have heq := disconnecting_eq hphase
  change Ends env s (run (env.strategy s) _ (cleanCluster lib rc (Object.stored
    { b with status := { b.status with phase := .disconnecting } } b.metadata.resourceVersion)))
  rw [heq] at hlog' ⊢
  rw [stored_self henc]
  exact cleanCluster_ends hlog' hb henc hphase (hns hphase had href)

theorem ends_dropped {p : M (Except String Result)} (hp : Ends env s (run (env.strategy s) h p)) :
    Ends env s (run (env.strategy s) h (do
      match ← p with
      | .error err => pure (.error err)
      | .ok _ => pure (.ok {}))) := by
  rw [run_bind]
  generalize run (env.strategy s) h p = x at hp ⊢
  obtain ⟨h',r⟩ := x
  cases r with
  | error err => exact ends_error
  | ok res =>
    rcases hp with hrem | ⟨err,herr⟩ | hlog
    · exact .inl hrem
    · cases herr
    · exact .inr (.inr hlog)

section stuck
variable (env : Env rancherSession calls) (b : RancherSession) (c : Rancher.HTTPClient)

/-- The calls of a job up to the Secret. -/
def afterSecret : Past :=
  [⟨.inr (.getSecret b.spec.credentialsSecretRef.namespacedName),
    env.answer [⟨.inl .get,.ok b⟩] (.getSecret b.spec.credentialsSecretRef.namespacedName)⟩,
    ⟨.inl .get,.ok b⟩]

/-- The job is on an object whose phase is stored, cannot delete the cluster, and the error is
noted already. -/
structure Stuck (lib : Externals) (err : Rancher.Error) : Prop where
  read : ∀ e, env.refuse [] = some e → e.reason = .notFound
  client : clientFrom lib (named b.spec.credentialsSecretRef (env.answer [⟨.inl .get,.ok b⟩]
    (.getSecret b.spec.credentialsSecretRef.namespacedName))) = .ok c
  phase : b.status.phase = .disconnecting
  admitted : b.status.Admitted
  accepted : env.refuse (afterSecret env b) = none
  id : b.status.rancherClusterID ≠ ""
  fails : env.answer (phaseStored b (afterSecret env b))
    (.rancher c (.deleteCluster b.status.rancherClusterID)) = .error err
  acceptedAgain :
    env.refuse (clockRead env (deleteFailed b c err (phaseStored b (afterSecret env b)))) = none
  noted : Noted b "DeleteClusterFailed" err.text

end stuck

theorem reconcile_ends (hb : s.current = some b) (henc : b.status.encode = b.status)
    (hcl : Closing b) (hns : ∀ c err, ¬Stuck env b c lib err) :
    Ends env s (run (env.strategy s) [] (reconcile lib)) := by
  by_cases hread : ∀ err, env.refuse [] = some err → err.reason = .notFound
  swap
  · simp only [not_forall] at hread
    obtain ⟨err,href,hne⟩ := hread
    refine ends_call fun r hr => ?_
    rw [env.strategy_get_error href hne] at hr
    cases hr
    change Ends env s (run _ _ (if err.reason = .notFound then _ else _))
    rw [if_neg hne]
    exact ends_error
  refine ends_call fun r hr => ?_
  rw [env.strategy_get_ok hb hread] at hr
  cases hr
  have hlog : (env.server s [⟨.inl .get,.ok b⟩]).log = s.log := env.log_get s _
  change Ends env s (run _ _ (if b.metadata.deletionTimestamp.isSome then _ else _))
  rw [if_pos hcl.deleting]
  change Ends env s (run _ _ (if rancherFinalizer ∉ b.metadata.finalizers then _ else _))
  rw [if_neg (not_not.mpr hcl.held)]
  refine ends_call fun r hr => ?_
  dsimp only [Bind.bind,Pure.pure,Program.bind]
  cases hc : clientFrom lib (named b.spec.credentialsSecretRef r) with
  | ok c =>
    refine ends_dropped (runCleanup_ends hlog hb henc ?_)
    rintro hphase had href _ err ⟨⟩ hid hfails hagain hnoted
    cases hr
    exact hns c err ⟨hread,hc,hphase,had,href,hid,hfails,hagain,hnoted⟩
  | error e =>
    change Ends env s (run _ _ (if e.nilPointer then _ else _))
    by_cases hnil : e.nilPointer = true
    · rw [if_pos hnil]
      exact ends_dropped (runCleanup_ends hlog hb henc (fun _ _ _ _ _ => nofun))
    · rw [if_neg hnil]
      exact cleanupWithoutClient_ends hlog hb hcl.held

/-- The copy is written back as it is. -/
theorem write_back (hlog : (env.server s h).log = s.log) (hb : s.current = some b)
    (henc : b.status.encode = b.status) (had : b.status.Admitted) (href : env.refuse h = none) :
    env.strategy s h (.inl (.updateStatus b)) = .ok b.metadata.resourceVersion ∧
      (env.server s (phaseStored b h)).log = s.log := by
  have hb' : (env.server s h).current = some b := by
    rw [Server.current,hlog]
    exact hb
  have hr : (env.server s h).reply (X := calls) (env.refuse h) (.updateStatus b) =
      (.ok b.metadata.resourceVersion,env.server s h) := by
    rw [href]
    exact Server.reply_unchanged (X := calls) hb' rfl had henc
  exact ⟨congrArg Prod.fst hr,(congrArg (fun x => x.2.log) hr).trans hlog⟩

/-- What is noted already is written back as it is. -/
theorem Noted.eq {reason message : String} (hn : Noted b reason message) (t : Time) :
    ({ withCondition lib t b .false reason message with
      status := { (withCondition lib t b .false reason message).status with
        lastTransitionMessage := message } } : RancherSession) = b := by
  obtain ⟨hmsg,d,hd,hsame⟩ := hn
  have hset : lib.conditions.set t b.status.conditions (unreachableCondition b reason message) =
      b.status.conditions := lib.conditions.set_same _ _ _ d hd hsame
  unfold withCondition
  unfold unreachableCondition at hset
  rw [hset,← hmsg]
  rfl

/-- The job as far as the client. -/
theorem run_client {c : Rancher.HTTPClient} {err : Rancher.Error} (hs : Stuck env b c lib err)
    (hb : s.current = some b) (hcl : Closing b) :
    run (env.strategy s) [] (reconcile lib) =
      run (env.strategy s) (afterSecret env b) (cleanupOnDeletion lib (some c) b) := by
  have hread : run (env.strategy s) [] (reconcile lib) =
      run (env.strategy s) [⟨.inl .get,.ok b⟩] (reconcileObject lib b) :=
    run_answer (env.strategy_get_ok hb hs.read)
  rw [hread]
  unfold reconcileObject handleDisconnect
  rw [if_pos hcl.deleting,if_neg (not_not.mpr hcl.held)]
  have hans : env.strategy s [⟨.inl .get,.ok b⟩]
      (.inr (.getSecret b.spec.credentialsSecretRef.namespacedName)) =
    env.answer [⟨.inl .get,.ok b⟩] (.getSecret b.spec.credentialsSecretRef.namespacedName) := rfl
  refine (run_answer hans).trans ?_
  dsimp only [Pure.pure,Program.bind]
  rw [hs.client]
  rfl

/-- The cleanup of a stuck job asks for a delay and has changed nothing. -/
theorem run_stuck {c : Rancher.HTTPClient} {err : Rancher.Error} (hs : Stuck env b c lib err)
    (hb : s.current = some b) (henc : b.status.encode = b.status) :
    ∃ h', run (env.strategy s) (afterSecret env b) (runCleanup lib (some c) b) =
        (h',.ok { requeueAfter := rancherErrorRequeueWait }) ∧ (env.server s h').log = s.log := by
  have hlog : (env.server s (afterSecret env b)).log = s.log := env.log_get s (.ok b)
  obtain ⟨hans,hlog₁⟩ := write_back hlog hb henc hs.admitted hs.accepted
  have hlog₂ : (env.server s (clockRead env (deleteFailed b c err
    (phaseStored b (afterSecret env b))))).log = s.log := hlog₁
  obtain ⟨hans',hlog₃⟩ := write_back hlog₂ hb henc hs.admitted hs.acceptedAgain
  have hfails : env.strategy s (phaseStored b (afterSecret env b))
    (.inr (.rancher c (.deleteCluster b.status.rancherClusterID))) = .error err := hs.fails
  refine ⟨_,?_,hlog₃⟩
  unfold runCleanup
  rw [disconnecting_eq hs.phase]
  refine (run_answer hans).trans ?_
  change run _ (phaseStored b (afterSecret env b))
    (cleanCluster lib (some c) (Object.stored b _)) = _
  rw [stored_self henc]
  unfold cleanCluster
  rw [if_pos hs.id]
  refine (run_answer hfails).trans ?_
  change run _ (clockRead env (deleteFailed b c err (phaseStored b (afterSecret env b))))
    (updateStatus _ >>= _) = _
  refine (congrArg (fun o => run (env.strategy s) _ (updateStatus o >>= _))
    (hs.noted.eq _)).trans ?_
  exact run_answer (s := env.strategy s) hans'

theorem stuck_ends {c : Rancher.HTTPClient} {err : Rancher.Error} (hs : Stuck env b c lib err)
    (hb : s.current = some b) (henc : b.status.encode = b.status) (hcl : Closing b) :
    ∃ h', run (env.strategy s) [] (reconcile lib) = (h',.ok {}) ∧
      (env.server s h').log = s.log := by
  obtain ⟨h',hrun,hlog⟩ := run_stuck hs hb henc
  refine ⟨h',?_,hlog⟩
  rw [run_client hs hb hcl]
  unfold cleanupOnDeletion
  rw [run_bind,hrun]
  rfl

/-- A reconcile of an object that is being deleted. -/
theorem failed_deletion_retried (lib : Externals)
    (σ : System rancherSession calls (Except String Result)) (hmain : σ.main = reconcile lib)
    (c : Config σ) (hc : σ.Reachable c) (b : RancherSession) (hb : c.server.current = some b)
    (hcl : Closing b) (env : Env rancherSession calls) :
    let x := run (env.strategy c.server) [] (reconcile lib)
    (¬Removed (env.server c.server x.1) → Retried c.server (env.server c.server x.1) x.2) ↔
      ∀ rc err, ¬Stuck env b rc lib err := by
  have henc : b.status.encode = b.status :=
    (traced hmain hc).server.encoded (Server.mem_of_current hb)
  dsimp only
  constructor
  · intro hret rc err hs
    obtain ⟨h',hrun,hlog⟩ := stuck_ends hs hb henc hcl
    rw [hrun] at hret
    have hrem : ¬Removed (env.server c.server h') := by
      intro hrem
      refine hrem b ?_ hcl.held
      rw [Server.current,hlog]
      exact hb
    rcases hret hrem with hasks | hne
    · exact absurd hasks (by decide)
    · exact hne hlog
  · intro hns hrem
    exact (reconcile_ends hb henc hcl hns).retried hrem

/-- Rancher answers every deletion with the same error. -/
def failing : Env rancherSession calls where
  refuse _ := none
  answer h e :=
    match e with
    | .rancher _ (.deleteCluster _) => .error { text := "rancher api: status 500" }
    | e => (working (4000*second : ℤ)).answer h e

/-- A connected session that a user has deleted. -/
def deleted : List (system .plain).Act := connect ++ [.markDeleted (10*second : ℤ)]

/-- The first reconcile after the deletion stores the error. -/
theorem failed_deletion_retried_first : ∃ c : Config (system .plain), (system .plain).Reachable c ∧
    ∃ b, c.server.current = some b ∧ Closing b ∧
      let x := run (failing.strategy c.server) [] (reconcile .plain)
      ¬Removed (failing.server c.server x.1) ∧
        Retried c.server (failing.server c.server x.1) x.2 := by
  obtain ⟨c,b,hc,hb,hp⟩ := System.exists_reachable (start_emptyWorld .plain) deleted
    (fun c b => decide (b.metadata.deletionTimestamp.isSome ∧
      rancherFinalizer ∈ b.metadata.finalizers ∧ b.status.phase = .connected ∧
      (failing.server c.server
        (run (failing.strategy c.server) [] (reconcile .plain)).1).current.any
        fun o => rancherFinalizer ∈ o.metadata.finalizers)) (by decide +kernel)
  obtain ⟨hdel,hheld,hphase,hrem⟩ := of_decide_eq_true hp
  have hrem : ¬Removed (failing.server c.server
      (run (failing.strategy c.server) [] (reconcile .plain)).1) := by
    intro hr
    obtain ⟨o,ho,hin⟩ := (Option.any_eq_true _ _).mp hrem
    exact hr o ho (of_decide_eq_true hin)
  refine ⟨c,hc,b,hb,⟨hdel,hheld⟩,hrem,?_⟩
  refine (failed_deletion_retried .plain (system .plain) rfl c hc b hb
    ⟨hdel,hheld⟩ failing).mpr ?_ hrem
  intro rc err hs
  rw [hs.phase] at hphase
  cases hphase

/-- The second one finds the error stored, returns an empty result and changes nothing. -/
theorem second_failure_not_retried : ∃ c : Config (system .plain), (system .plain).Reachable c ∧
    ∃ b, c.server.current = some b ∧ Closing b ∧
      let x := run (failing.strategy c.server) [] (reconcile .plain)
      ¬Removed (failing.server c.server x.1) ∧
        ¬Retried c.server (failing.server c.server x.1) x.2 := by
  obtain ⟨c,b,hc,hb,hp⟩ := System.exists_reachable (start_emptyWorld .plain)
    (deleted ++ [job .plain (4000*second : ℤ) deleteClusterFails (fun _ => none)])
    (fun c b => decide (b.metadata.deletionTimestamp.isSome ∧
      rancherFinalizer ∈ b.metadata.finalizers ∧
      (run (failing.strategy c.server) [] (reconcile .plain)).2 = .ok {} ∧
      (failing.server c.server (run (failing.strategy c.server) [] (reconcile .plain)).1).log =
        c.server.log)) (by decide +kernel)
  obtain ⟨hdel,hheld,hres,hlog⟩ := of_decide_eq_true hp
  refine ⟨c,hc,b,hb,⟨hdel,hheld⟩,?_,?_⟩
  · intro hrem
    refine hrem b ?_ hheld
    rw [Server.current,hlog]
    exact hb
  · rw [hres]
    rintro (hasks | hne)
    · exact absurd hasks (by decide)
    · exact hne hlog

end LosantDevice.Session
