import LosantDevice.Session.Status

/-!
# Sessions on which nothing more is done

`Reconcile` leaves a session alone once its phase is `Failed` or `Disconnected`. It looks at the
phase only after it has built the client, so a Secret that is lost later still turns a session that
was disconnected into one that has failed; and a session fails without being cleaned up.
-/
namespace LosantDevice.Session
open Effect Kube Go Program

variable {lib : Externals} {σ : System rancherSession calls (Except String Result)} {c d : Config σ}
  {h k : Past} {b o : RancherSession}

/-! ## Jobs that get a client -/

/-- A job that works on a copy with the property `p` and reads the Secret gets a client. -/
def GetsClient (lib : Externals) (p : RancherSession → Prop) (c d : Config σ) : Prop :=
  ∀ h b r, σ.Answered c d h (.getSecret b.spec.credentialsSecretRef.namespacedName) r →
    lastCopy h = some b → p b →
    ∃ rc, clientFrom lib (named b.spec.credentialsSecretRef r) = .ok rc

theorem Allowed.read_first (ha : Allowed lib h) (x : Except ApiError RancherSession) (l : Past)
    (hl : (⟨.inl .get,x⟩::l : Past) <:+ h) : l = [] := ha _ l hl

theorem not_unusable {P : Config σ → Config σ → Prop} {p : RancherSession → Prop} {e : NoClient}
    (hP : ∀ c d, P c d → GetsClient lib p c d) (hc : σ.ReachableBy P c)
    (ht : c.Traced (Permits lib)) (hh : h ∈ c.histories) (hk : k <:+ h) (hb : lastCopy k = some b)
    (ho : owned k = false) (hp : p b) : ¬Unusable lib k b e := by
  rintro ⟨r,hr,herr⟩
  obtain ⟨l₁,l,rfl⟩ := List.append_of_mem hr
  have hl := (List.suffix_append l₁ _).trans hk
  have hall : Allowed lib (l₁ ++ _::l) := fun ev m hm => ht.allowed hh (hm.trans hk)
  obtain ⟨hcopy,-⟩ := lastCopy_before hall.read_first hb ho (List.suffix_append l₁ _)
  have hok := System.ReachableBy.events (Q := fun (k : Past) (ev : Event interface) =>
    ∀ (b : RancherSession) r, ev =
      ⟨.inr (.getSecret b.spec.credentialsSecretRef.namespacedName),r⟩ →
    lastCopy k = some b → p b → ∃ rc, clientFrom lib (named b.spec.credentialsSecretRef r) = .ok rc)
      ?_ hc hh hl b r rfl
    hcopy hp
  · obtain ⟨rc,hrc⟩ := hok
    cases hrc.symm.trans herr
  · intro c d h e next r _ _ hpcd hj hj' b r' hev hcopy hp
    cases hev
    exact hP c d hpcd h b _ ⟨next,hj,hj'⟩ hcopy hp

/-! ## Disconnected sessions -/

/-- Disconnected and not being deleted. -/
structure Rests (b : RancherSession) : Prop where
  live : b.metadata.deletionTimestamp = none
  phase : b.status.phase = .disconnected

/-- A call that writes a status, goes to Rancher or deletes a namespace. -/
def acts : interface.Call → Bool
  | .inl (.updateStatus _) | .inr (.rancher _ _) | .inr (.deleteNamespace _) => true
  | _ => false

/-- Nothing happens to a session that rests. -/
structure Final (c : Config σ) : Prop where
  status : ∀ o l b, some o::l <:+ c.server.log → some b ∈ l → b.metadata.uid = o.metadata.uid →
    Rests b → o.metadata.deletionTimestamp = none → o.status = b.status
  calls : ∀ h e next o, c.job = some (h,.call e next) → c.server.current = some o → Rests o →
    acts e = false

/-- A job on a session that rests reads that it does, and gets a client. -/
structure Restful (lib : Externals) (c d : Config σ) : Prop where
  reads : ∀ b o, σ.Read c d b → c.server.current = some o → Rests o → b.status.phase = .disconnected
  client : GetsClient lib Rests c d

/-- The only status that is written from a copy at rest is that there is no client. -/
theorem StatusWrite.of_rests {t : RancherSessionStatus} (hw : StatusWrite lib k b t)
    (hb : Rests b) : ∃ e, Reading k b ∧ Unusable lib k b e := by
  have hconn : ¬Connecting k b := fun hc => by cases hb.phase.symm.trans hc.phase
  have hclean : ¬Cleaning k b := fun hc => by cases hb.phase.symm.trans hc.phase
  cases hw with
  | connecting _ _ hs =>
    rcases hs with hp | ⟨hp,-⟩
    · cases hb.phase.symm.trans hp
    · cases hb.phase.symm.trans hp
  | manifest _ hc => exact absurd hc hconn
  | connected _ _ _ hp => cases hb.phase.symm.trans hp.1
  | disconnecting _ hp =>
    rcases hp with ⟨-,hp⟩ | hcl
    · cases hb.phase.symm.trans hp
    · have hdel := hcl.deleting
      rw [hb.live] at hdel
      cases hdel
  | disconnected hc => exact absurd hc hclean
  | unreachable hs =>
    rcases hs with hc | hc | ⟨-,-,hp⟩
    · exact absurd hc hconn
    · exact absurd hc hclean
    · cases hb.phase.symm.trans hp
  | failed hc =>
    cases hc with
    | unusable hr _ hu => exact ⟨_,hr,hu⟩
    | timedOut _ _ hp => cases hb.phase.symm.trans hp
    | spoiled hc => exact absurd hc hconn

/-- Nor is any other call made that acts. -/
theorem Permits.idle {e : interface.Call} (hp : Permits lib k e)
    (hrests : ∀ b, lastCopy k = some b → Rests b)
    (hclient : ∀ b e, Reading k b → ¬Unusable lib k b e) : acts e = false := by
  have hconn : ∀ b, ¬Connecting k b := fun b hc => by
    cases (hrests b hc.copy).phase.symm.trans hc.phase
  have hclean : ∀ b, ¬Cleaning k b := fun b hc => by
    cases (hrests b hc.copy).phase.symm.trans hc.phase
  fun_cases acts e with
  | case1 o =>
    obtain ⟨b,hb,-,-,hw⟩ := hp
    obtain ⟨e,hr,hu⟩ := hw.of_rests (hrests b hb)
    exact absurd hu (hclient b e hr)
  | case2 rc m =>
    cases m with
    | findCluster | createCluster | getRegistrationToken =>
      obtain ⟨b,hc,-⟩ := hp
      exact absurd hc (hconn b)
    | getCluster =>
      obtain ⟨b,hr,-,hphase,-⟩ := hp
      cases (hrests b hr.copy).phase.symm.trans hphase
    | deleteCluster =>
      obtain ⟨b,hc,-⟩ := hp
      exact absurd hc (hclean b)
  | case3 =>
    obtain ⟨-,-,b,⟨hc,-⟩ | ⟨hr,-,e,hu⟩⟩ := hp
    · exact absurd hc (hclean b)
    · exact absurd hu (hclient b e hr)
  | case4 => rfl

theorem sound (hmain : σ.main = reconcile lib) (hc : σ.Reachable c) :
    c.Sound (Permits lib) Returns :=
  System.Reachable.sound Permits.disciplined (hmain ▸ reconcile_obeys lib) hc

/-- While the stored session rests, so does the copy of the running job. -/
def CopyRests (c : Config σ) : Prop :=
  ∀ h p o b, c.job = some (h,p) → c.server.current = some o → Rests o →
    lastCopy h = some b → Rests b

/-- A user does not bring a session to rest. -/
theorem Server.Edited.rests {s s' : Server rancherSession} (he : Server.Edited s s')
    (ho : s'.current = some o) (hr : Rests o) : ∃ b, s.current = some b ∧ Rests b := by
  cases he.current_cases with
  | created _ hcur hi =>
    obtain rfl := Option.some.inj (ho.symm.trans hcur)
    have hphase := hr.phase
    rw [hi] at hphase
    cases hphase
  | @changed b _ hlat hcur ha =>
    obtain rfl := Option.some.inj (ho.symm.trans hcur)
    refine ⟨b,hlat,?_,?_⟩
    · cases hd : b.metadata.deletionTimestamp with
      | none => rfl
      | some t =>
        have hdel := ha.deleting (by simp [hd])
        rw [hr.live] at hdel
        cases hdel
    · rw [← ha.status]
      exact hr.phase
  | removed _ _ hg => cases ho.symm.trans hg

/-- What is read of a session that rests is not being deleted. -/
theorem live_of_readable (ht : c.Traced (Permits lib)) (ho : c.server.current = some o)
    (hr : Rests o) {l : List (Option RancherSession)} (hl : c.server.Readable (some b::l)) :
    b.metadata.deletionTimestamp = none := by
  have hne : o.status ≠ rancherSession.initial := by
    intro hi
    have hphase := hr.phase
    rw [hi] at hphase
    cases hphase
  obtain ⟨b',l',hb',hu⟩ := ht.server.readable_uid ho hne hl
  cases hb'
  cases hd : b.metadata.deletionTimestamp with
  | none => rfl
  | some t =>
    have hdel := ht.current_deleting ho hl.1 hu (by simp [hd])
    rw [hr.live] at hdel
    cases hdel

theorem CopyRests.step (hs : c.Sound (Permits lib) Returns) (ht : c.Traced (Permits lib))
    (hj : CopyRests c) (hm : σ.Step c d) (hrest : Restful lib c d) : CopyRests d := by
  cases hm with
  | user he =>
    intro h p o b hjob ho hr hb
    obtain ⟨o',ho',hr'⟩ := Server.Edited.rests he ho hr
    exact hj h p o' b hjob ho' hr' hb
  | others => exact hj
  | start =>
    intro h p o b hjob _ _ hb
    cases hjob
    cases hb
  | @own s s' w past h e next r ha =>
    intro h' p o b hjob ho hr hb
    cases hjob
    cases e with
    | get =>
      cases r with
      | ok x =>
        cases hb
        obtain ⟨l,hl,rfl⟩ := ha
        exact ⟨live_of_readable ht ho hr hl,hrest.reads b o ⟨h,next,rfl,rfl⟩ ho hr⟩
      | error err => cases hb
    | update x =>
      cases r with
      | ok v => cases hb
      | error err =>
        cases (show s' = s from ha)
        exact hj h _ o b rfl ho hr hb
    | updateStatus x =>
      cases r with
      | ok v =>
        obtain ⟨b₀,l,-,hlog,-,-,⟨rfl,heq⟩ | ⟨rfl,-⟩⟩ := hs.updateStatus Permits.disciplined rfl ha
        · cases hb
          rw [heq]
          obtain rfl := Option.some.inj ((Server.current_eq_some.mpr ⟨l,hlog⟩).symm.trans ho)
          exact hr
        · cases hb
          obtain rfl := Option.some.inj (ho : some _ = _)
          exact hr
      | error err =>
        cases (show s' = s from ha)
        exact hj h _ o b rfl ho hr hb
  | @outside s w w' past h e next r ha =>
    intro h' p o b hjob ho hr hb
    cases hjob
    exact hj h _ o b rfl ho hr hb
  | finish | crash =>
    intro h p o b hjob
    cases hjob

theorem copyRests (hmain : σ.main = reconcile lib) (hc : σ.ReachableBy (Restful lib) c) :
    CopyRests c := by
  refine System.ReachableBy.invariant (J := fun c => c.Sound (Permits lib) Returns ∧
    c.Traced (Permits lib))
      (fun c hc => ⟨sound hmain hc.reachable,traced hmain hc.reachable⟩) ?_ ?_ hc
  · intro w hw h p o b hj
    cases hj
  · exact fun c d hJ hj hm hP => hj.step hJ.1 hJ.2 hm hP

/-- A state of a session that rests and is not deleted is followed by states of the same status. -/
theorem status_rests (hmain : σ.main = reconcile lib) (hc : σ.ReachableBy (Restful lib) c)
    {l : List (Option RancherSession)} (hl : some o::l <:+ c.server.log) (hb : some b ∈ l)
    (hu : b.metadata.uid = o.metadata.uid) (hr : Rests b)
    (hlive : o.metadata.deletionTimestamp = none) : o.status = b.status := by
  have ht := traced hmain hc.reachable
  have hP : o.metadata.deletionTimestamp.isSome ∨ o.status = b.status := by
    refine ht.inherits (P := fun o => o.metadata.deletionTimestamp.isSome ∨ o.status = b.status) ?_
      hl hb hu (.inr rfl)
    intro o x l hl hu hx
    cases ht.origin hl with
    | created hf _ => exact absurd hu.symm (hf x List.mem_cons_self)
    | user _ hst _ hd =>
      rcases hx with hdel | hst'
      · exact .inl (hd hdel)
      · exact .inr (hst.trans hst')
    | @status a _ _ h k v hh hk hcopy hm _ _ =>
      rcases hx with hdel | hst'
      · refine .inl ?_
        change a.metadata.deletionTimestamp.isSome
        rw [hm]
        exact hdel
      · cases hd : x.metadata.deletionTimestamp with
        | some t =>
          refine .inl ?_
          change a.metadata.deletionTimestamp.isSome
          rw [hm,hd]
          rfl
        | none =>
          obtain ⟨b',hb',-,-,hw⟩ := ht.allowed hh hk
          obtain rfl := Option.some.inj (hcopy.symm.trans hb')
          have hrest : Rests x := ⟨hd,by rw [hst']; exact hr.phase⟩
          obtain ⟨e,hread,hun⟩ := hw.of_rests hrest
          exact absurd hun (not_unusable (fun _ _ hP => hP.client) hc ht hh
            ((List.suffix_cons _ _).trans hk) hread.copy hread.fresh hrest)
    | object _ _ _ _ hkept =>
      rw [hkept o rfl]
      exact hx
  rcases hP with hdel | hst
  · rw [hlive] at hdel
    cases hdel
  · exact hst

/-- As long as its jobs get a client, a disconnected session stays as it is until it is deleted. -/
theorem disconnected_final (lib : Externals)
    (σ : System rancherSession calls (Except String Result)) (hmain : σ.main = reconcile lib)
    (c : Config σ) (hc : σ.ReachableBy (Restful lib) c) : Final c := by
  refine ⟨fun o l b => status_rests hmain hc,?_⟩
  intro h e next o hj ho hr
  have hrests : ∀ b, lastCopy h = some b → Rests b :=
    fun b => copyRests hmain hc h _ o b hj ho hr
  have hperm := ((sound hmain hc.reachable).obeys hj).1
  refine hperm.idle hrests fun b err hread => ?_
  exact not_unusable (fun _ _ hP => hP.client) hc (traced hmain hc.reachable)
    (Config.mem_histories hj) (List.suffix_refl _) hread.copy hread.fresh (hrests b hread.copy)

instance (b : RancherSession) : Decidable (Rests b) :=
  decidable_of_iff (b.metadata.deletionTimestamp = none ∧ b.status.phase = .disconnected)
    ⟨fun h => ⟨h.1,h.2⟩,fun h => ⟨h.live,h.phase⟩⟩

def hasClient (lib : Externals) (r : Except ApiError StoredSecret) (ref : SecretRef) : Bool :=
  (clientFrom lib (named ref r)).isOk

theorem client_of_hasClient {r : Except ApiError StoredSecret} {ref : SecretRef}
    (hok : hasClient lib r ref = true) : ∃ rc, clientFrom lib (named ref r) = .ok rc := by
  unfold hasClient at hok
  cases hclient : clientFrom lib (named ref r) with
  | ok rc => exact ⟨rc,rfl⟩
  | error e =>
    rw [hclient] at hok
    cases hok

/-- A Secret that was just read makes a client. -/
def clientTest (_ d : Config (system .plain)) : Bool :=
  d.job.all fun j => j.1.head?.all fun ev =>
    match ev with
    | ⟨.inr (.getSecret _),r⟩ => (lastCopy j.1).all fun b =>
      hasClient .plain r b.spec.credentialsSecretRef
    | _ => true

theorem getsClient_of_test {p : RancherSession → Prop} (c d : Config (system .plain))
    (ht : clientTest c d = true) : GetsClient .plain p c d := by
  rintro h b r ⟨next,-,hd⟩ hb -
  unfold clientTest at ht
  rw [hd] at ht
  have hok : (lastCopy h).all (fun b => hasClient .plain r b.spec.credentialsSecretRef) = true := ht
  rw [hb] at hok
  exact client_of_hasClient hok

/-- What was just read is what is stored. -/
def readTest (c d : Config (system .plain)) : Bool :=
  d.job.all fun j => j.1.head?.all fun ev =>
    match ev with
    | ⟨.inl .get,r⟩ =>
      match (r : Except ApiError RancherSession) with
      | .ok b => c.server.current = some b
      | .error _ => true
    | _ => true

theorem restful_of_test (c d : Config (system .plain))
    (ht : (clientTest c d && readTest c d) = true) : Restful .plain c d := by
  obtain ⟨hclient,hread⟩ := (Bool.and_eq_true _ _).mp ht
  refine ⟨?_,getsClient_of_test c d hclient⟩
  rintro b o ⟨h,next,-,hd⟩ ho hr
  unfold readTest at hread
  rw [hd] at hread
  have hcur : c.server.current = some b := of_decide_eq_true hread
  obtain rfl := Option.some.inj (ho.symm.trans hcur)
  exact hr.phase

/-- An expired session is reconciled once more. -/
theorem disconnected_final_expired : ∃ c : Config (system .plain),
    (system .plain).ReachableBy (Restful .plain) c ∧
    (∃ o, c.server.current = some o ∧ Rests o) ∧ Final c := by
  obtain ⟨c,hc,hp⟩ := System.exists_tested (fun c d => clientTest c d && readTest c d)
    (start_emptyWorld .plain)
    (expire ++ [job .plain (3700*second : ℤ) noFault (fun _ => none)])
    (fun c => c.server.current.any fun o => Rests o) (by decide +kernel)
  obtain ⟨o,ho,hp⟩ := (Option.any_eq_true _ _).mp hp
  have hc := hc.mono restful_of_test
  exact ⟨c,hc,⟨o,ho,of_decide_eq_true hp⟩,disconnected_final .plain (system .plain) rfl c hc⟩

/-- The Secret is gone. -/
def noSecret : (e : Call) → Option (calls.Answer e)
  | .getSecret _ => some (.error ⟨.notFound,"secrets not found"⟩)
  | _ => none

/-- Without its Secret the disconnected session fails. -/
theorem disconnected_session_fails : ∃ c : Config (system .plain), (system .plain).Reachable c ∧
    ¬Final c ∧ ∃ o b l, c.server.log = some o::some b::l ∧ o.metadata.uid = b.metadata.uid ∧
      Rests b ∧
      o.metadata.deletionTimestamp = none ∧ o.status.phase = .failed := by
  obtain ⟨c,o,b,l,hc,hlog,hp⟩ :=
    System.exists_lastTwo (σ := system .plain) (start_emptyWorld .plain)
    (expire ++ [job .plain (3700*second : ℤ) noSecret (fun _ => none)])
    (fun o b => o.metadata.uid = b.metadata.uid ∧ Rests b ∧ o.metadata.deletionTimestamp = none ∧
      o.status.phase = .failed) (by decide +kernel)
  obtain ⟨hu,hr,hlive,hfailed⟩ := of_decide_eq_true hp
  refine ⟨c,hc,?_,o,b,l,hlog,hu,hr,hlive,hfailed⟩
  intro hfinal
  have hsuf : some o::some b::l <:+ c.server.log := by rw [hlog]
  have hst := hfinal.status o _ b hsuf List.mem_cons_self hu.symm hr hlive
  rw [hst,hr.phase] at hfailed
  cases hfailed

/-! ## Sessions that have stopped -/

/-- Not being deleted, and nothing more is done. -/
structure Halted (o : RancherSession) : Prop where
  live : o.metadata.deletionTimestamp = none
  phase : o.status.phase = .failed ∨ o.status.phase = .disconnected

/-- A call of the controller has deleted the cluster. -/
def Deleted (c : Config σ) (id : String) : Prop :=
  ∃ h ∈ c.histories, ∃ rc : Rancher.HTTPClient,
    (⟨.inr (.rancher rc (.deleteCluster id)),.ok ()⟩ : Event interface) ∈ h

/-- The session has left neither its cluster nor anything of the manifest behind. -/
structure NothingLeft {lib : Externals} (c : Config (system lib)) (o : RancherSession) : Prop where
  cluster : o.status.rancherClusterID ≠ "" → (worldOf c).Exists o.status.rancherClusterID →
    Deleted c o.status.rancherClusterID
  manifest : (worldOf c).applied = false

/-- The connect sequence has begun and the cleanup has not ended. -/
def Engaged (b : RancherSession) : Prop :=
  b.status.phase = .connecting ∨ b.status.phase = .connected ∨ b.status.phase = .disconnecting

/-- Nothing makes a session fail once it is engaged. -/
structure Unfailing (lib : Externals) (c d : Config σ) : Prop where
  client : GetsClient lib Engaged c d
  manifest : ∀ h e r, σ.Answered c d h e r → (view h).adopted.isSome → ¬Spoils ⟨.inr e,r⟩
  agent :
    ∀ h (t : Time) b (u : Time), σ.Answered c d h (.now .agentTimeout) t → lastCopy h = some b →
    b.status.expiresAt = some u → (t : ℤ) ≤ u

/-- A session that fails was not engaged. -/
theorem Cause.not_engaged (hc : σ.ReachableBy (Unfailing lib) c) (ht : c.Traced (Permits lib))
    (hh : h ∈ c.histories) (hk : k <:+ h) (hcause : Cause lib k b) : Reading k b ∧ ¬Engaged b := by
  have hall : Allowed lib k := fun ev m hm => ht.allowed hh (hm.trans hk)
  cases hcause with
  | unusable hr _ hu =>
    exact ⟨hr,fun he => not_unusable (fun _ _ hP => hP.client) hc ht hh hk hr.copy hr.fresh he hu⟩
  | @timedOut t u hr _ _ hexp hclock hlate =>
    obtain ⟨l₁,l,rfl⟩ := List.append_of_mem hclock
    obtain ⟨hcopy,-⟩ := lastCopy_before hall.read_first hr.copy hr.fresh (List.suffix_append l₁ _)
    have hle := System.ReachableBy.events (Q := fun (k : Past) (ev : Event interface) =>
      ∀ (t : Time) b (u : Time), ev = ⟨.inr (.now .agentTimeout),t⟩ → lastCopy k = some b →
      b.status.expiresAt = some u → (t : ℤ) ≤ u) ?_ hc hh ((List.suffix_append l₁ _).trans hk) t b u
      rfl hcopy hexp
    · exact absurd hlate (not_lt.mpr hle)
    · intro c d h e next r _ _ hP hj hj' t b u hev hcopy hexp
      cases hev
      exact hP.agent h t b u ⟨next,hj,hj'⟩ hcopy hexp
  | spoiled _ _ htrouble =>
    obtain ⟨ev,m,hm,hadopted,hspoils⟩ := htrouble
    have hno := System.ReachableBy.events (Q := fun (k : Past) (ev : Event interface) =>
      (view k).adopted.isSome → ¬Spoils ev) ?_ hc hh (hm.trans hk) hadopted
    · exact absurd hspoils hno
    · intro c d h e next r _ _ hP hj hj' hadopted
      cases e with
      | inl e => exact id
      | inr e => exact hP.manifest h e r ⟨next,hj,hj'⟩ hadopted

/-! ### What is applied -/

/-- Only a call that applies something makes it so. -/
theorem World.answers_applied {w w' : World} {e : Call} {r : calls.Answer e}
    (ha : w.answers e r w') (happlied : w'.applied = true) :
    w.applied = true ∨ ∃ doc, e = .apply doc := by
  cases World.recorded ha with
  | kept _ _ _ happ => exact happ happlied
  | created | erased => exact .inl happlied

theorem World.Others.applied {w w' : World} (ho : World.Others w w') : w'.applied = w.applied := by
  cases ho <;> rfl

section applied
variable {c d : Config (system lib)}

/-- A job that has deleted the namespace applies nothing after it. -/
def Wiped (c : Config (system lib)) : Prop :=
  ∀ h p, c.job = some (h,p) → (view h).wiped = true → (worldOf c).applied = false

theorem Wiped.step (hs : c.Sound (Permits lib) Returns) (hw : Wiped c)
    (hm : (system lib).Step c d) : Wiped d := by
  cases hm with
  | user => exact hw
  | others ho =>
    intro h p hj hwiped
    exact ho.applied.trans (hw h p hj hwiped)
  | start =>
    intro h p hj hwiped
    cases hj
    cases hwiped
  | @own s s' w past h e next r ha =>
    intro h' p hj hwiped
    cases hj
    rcases wiped_cons hwiped with ⟨n,r',hev,-⟩ | hold
    · cases hev
    · exact hw h _ rfl hold
  | @outside s w w' past h e next r ha =>
    intro h' p hj hwiped
    cases hj
    have hperm := (hs.obeys rfl).1
    refine Bool.eq_false_iff.mpr fun happlied => ?_
    rcases wiped_cons hwiped with ⟨n,r',hev,hgone⟩ | hold
    · cases hev
      obtain ⟨rfl,hstays⟩ | ⟨rfl,-⟩ := ha
      · rw [hstays hperm.1] at hgone
        cases hgone
      · cases happlied
    · rcases World.answers_applied ha happlied with hbefore | ⟨doc,rfl⟩
      · cases hbefore.symm.trans (hw h _ rfl hold)
      · obtain ⟨⟨b,hc,-⟩,-⟩ := hperm
        rw [hc.clean.1] at hold
        cases hold
  | finish | crash =>
    intro h p hj
    cases hj

/-- What is applied belongs to a session that is engaged and held. -/
def Holding (c : Config (system lib)) : Prop :=
  (worldOf c).applied = true → ∃ o, c.server.current = some o ∧
    rancherFinalizer ∈ o.metadata.finalizers ∧ Engaged o

/-- A status that is written while something is applied leaves the session engaged. -/
theorem StatusWrite.engaged {t : RancherSessionStatus} (hw : StatusWrite lib k b t)
    (hb : Engaged b) (hwiped : (view k).wiped = false) (hcause : Cause lib k b → ¬Engaged b) :
    t.phase = .connecting ∨ t.phase = .connected ∨ t.phase = .disconnecting := by
  cases hw with
  | connecting => exact .inl rfl
  | manifest _ _ hp => exact .inl hp
  | connected _ _ _ _ hp => exact .inr (.inl hp)
  | disconnecting => exact .inr (.inr rfl)
  | disconnected _ hg => cases hwiped.symm.trans hg.1
  | unreachable _ hp =>
    rw [hp]
    exact hb
  | failed hc => exact absurd hb (hcause hc)

theorem Holding.own {s s' : Server rancherSession} {w : World} {past h e next r}
    (hs : Config.Sound (σ := system lib) (Permits lib) Returns
      ⟨s,w,past,some (h,.call (.inl e) next)⟩)
    (hw : Wiped (⟨s,w,past,some (h,.call (.inl e) next)⟩ : Config (system lib)))
    (hfail : ∀ b, Cause lib h b → ¬Engaged b)
    (hold : Holding (⟨s,w,past,some (h,.call (.inl e) next)⟩ : Config (system lib)))
    (ha : s.Answers (X := calls) e r s') :
    Holding (⟨s',w,past,some (⟨.inl e,r⟩::h,next r)⟩ : Config (system lib)) := by
  intro happlied
  obtain ⟨o,ho,hheld,heng⟩ := hold happlied
  have hwiped : (view h).wiped = false := by
    refine Bool.eq_false_iff.mpr fun hv => ?_
    cases happlied.symm.trans (hw h _ rfl hv)
  cases e with
  | get =>
    cases r with
    | ok x =>
      obtain ⟨l,-,rfl⟩ := ha
      exact ⟨o,ho,hheld,heng⟩
    | error err =>
      obtain ⟨n,-,-,rfl⟩ := Server.answers_get_error hs.server.seen_le ha
      exact ⟨o,ho,hheld,heng⟩
  | update x =>
    cases r with
    | error err =>
      cases (show s' = s from ha)
      exact ⟨o,ho,hheld,heng⟩
    | ok v =>
      obtain ⟨b,l,hb,hlog,hcases⟩ := hs.update Permits.disciplined rfl ha
      obtain rfl := Option.some.inj ((Server.current_eq_some.mpr ⟨l,hlog⟩).symm.trans ho)
      obtain ⟨b',hb',⟨-,-,hfree,-⟩ | hrel⟩ := (hs.obeys rfl).1
      · obtain rfl := Option.some.inj (hb.symm.trans hb')
        exact absurd hheld hfree
      · cases hwiped.symm.trans hrel.gone.1
  | updateStatus x =>
    cases r with
    | error err =>
      cases (show s' = s from ha)
      exact ⟨o,ho,hheld,heng⟩
    | ok v =>
      obtain ⟨b,l,hb,hlog,hmeta,-,hcases⟩ := hs.updateStatus Permits.disciplined rfl ha
      obtain rfl := Option.some.inj ((Server.current_eq_some.mpr ⟨l,hlog⟩).symm.trans ho)
      rcases hcases with ⟨rfl,-⟩ | ⟨rfl,-⟩
      · exact ⟨b,ho,hheld,heng⟩
      · obtain ⟨b',hb',-,-,hwrite⟩ := (hs.obeys rfl).1
        obtain rfl := Option.some.inj (hb.symm.trans hb')
        refine ⟨_,rfl,?_,hwrite.engaged heng hwiped (hfail b)⟩
        change rancherFinalizer ∈ x.metadata.finalizers
        rw [hmeta]
        exact hheld

theorem Holding.step (hs : c.Sound (Permits lib) Returns) (hown : c.Owns) (hw : Wiped c)
    (hfail : ∀ h p b, c.job = some (h,p) → Cause lib h b → ¬Engaged b)
    (hold : Holding c) (hm : (system lib).Step c d) : Holding d := by
  cases hm with
  | user he =>
    intro happlied
    obtain ⟨o,ho,hheld,heng⟩ := hold happlied
    cases he.current_cases with
    | created ha => cases ho.symm.trans ha
    | changed hlat hcur ha =>
      obtain rfl := Option.some.inj (ho.symm.trans hlat)
      refine ⟨_,hcur,?_,?_⟩
      · rw [ha.finalizers]
        exact hheld
      · unfold Engaged
        rw [ha.status]
        exact heng
    | removed hlat hfree =>
      obtain rfl := Option.some.inj (ho.symm.trans hlat)
      rw [hfree] at hheld
      cases hheld
  | others ho =>
    intro happlied
    exact hold (ho.applied.symm.trans happlied)
  | start | finish | crash => exact hold
  | own ha => exact hold.own hs hw (fun b => hfail _ _ b rfl) ha
  | @outside s w w' past h e next r ha =>
    intro happlied
    rcases World.answers_applied ha happlied with hbefore | ⟨doc,rfl⟩
    · exact hold hbefore
    · obtain ⟨⟨b,hc,-⟩,-⟩ := (hs.obeys rfl).1
      obtain ⟨o,ho,-,hfin,hst⟩ := hown h _ b rfl hc.owned hc.copy (List.ne_nil_of_mem hc.live.held)
      refine ⟨o,ho,?_,?_⟩
      · rw [hfin]
        exact hc.live.held
      · unfold Engaged
        rw [hst]
        exact .inl hc.phase

end applied

/-! ### The cluster -/

theorem Deleted.step {id : String} (hd : Deleted c id) (hs : σ.Step c d) : Deleted d id := by
  obtain ⟨h,hh,rc,hev⟩ := hd
  obtain ⟨h',hh',hsuf⟩ := hs.extends h hh
  exact ⟨h',hh',rc,hsuf.subset hev⟩

theorem StatusWrite.of_failed {t : RancherSessionStatus} (hw : StatusWrite lib k b t)
    (hp : t.phase = .failed) : Cause lib k b ∧ Kept k b t := by
  cases hw with
  | connecting | disconnecting | disconnected => cases hp
  | manifest _ _ h | connected _ _ _ _ h => cases h.symm.trans hp
  | unreachable hs hphase =>
    have hb := hphase.symm.trans hp
    rcases hs with hc | hc | ⟨-,-,hc⟩
    · cases hc.phase.symm.trans hb
    · cases hc.phase.symm.trans hb
    · cases hc.symm.trans hb
  | failed hc _ hk => exact ⟨hc,hk⟩

/-- The cluster that a stopped session names has been deleted. -/
def Accounted (c : Config σ) : Prop :=
  ∀ o, c.server.current = some o → o.status.phase = .failed ∨ o.status.phase = .disconnected →
    o.status.rancherClusterID = "" ∨ Deleted c o.status.rancherClusterID

theorem Accounted.step (hs : c.Sound (Permits lib) Returns) (ht : c.Traced (Permits lib))
    (hfail : ∀ h p b, c.job = some (h,p) → Cause lib h b → Reading h b ∧ ¬Engaged b)
    (hacc : Accounted c) (hm : σ.Step c d) : Accounted d := by
  intro o ho hp
  cases hs.successor Permits.disciplined hm ho with
  | created hi =>
    rw [hi] at hp
    exact absurd hp (by decide)
  | kept hlat _ hst =>
    rw [hst] at hp ⊢
    exact (hacc _ hlat hp).imp_right fun hd => hd.step hm
  | @written h a next b v hj hcopy hlat _ _ hstored hafter =>
    subst hstored
    obtain ⟨b',hb',-,-,hw⟩ := (hs.obeys hj).1
    obtain rfl := Option.some.inj (hcopy.symm.trans hb')
    change a.status.rancherClusterID = "" ∨ Deleted d a.status.rancherClusterID
    rcases (hp : a.status.phase = .failed ∨ a.status.phase = .disconnected) with hp | hp
    · obtain ⟨hcause,hkept⟩ := hw.of_failed hp
      obtain ⟨hread,hidle⟩ := hfail h _ b hj hcause
      have hid : a.status.rancherClusterID = b.status.rancherClusterID := by
        rw [hkept.id,hread.view]
        rfl
      rw [hid]
      cases hphase : b.status.phase with
      | unset =>
        rw [unset_initial ht (Server.mem_of_current hlat) hphase]
        exact .inl rfl
      | connecting => exact absurd (.inl hphase) hidle
      | connected => exact absurd (.inr (.inl hphase)) hidle
      | disconnecting => exact absurd (.inr (.inr hphase)) hidle
      | disconnected => exact (hacc b hlat (.inr hphase)).imp_right fun hd => hd.step hm
      | failed => exact (hacc b hlat (.inl hphase)).imp_right fun hd => hd.step hm
    · obtain ⟨hid,⟨r,l,hl,-,hcleared⟩,-⟩ := hw.of_disconnected hp
      rw [hid]
      by_cases hne : b.status.rancherClusterID = ""
      · exact .inl hne
      · obtain ⟨rc,hev⟩ := hcleared hne
        refine .inr ⟨_,Config.mem_histories hafter,rc,List.mem_cons_of_mem _ ?_⟩
        exact hl.subset (List.mem_cons_of_mem _ hev)

/-- Without failures, a session on which nothing more is done has left nothing behind. -/
theorem halted_leaves_nothing (lib : Externals) (c : Config (system lib))
    (hc : (system lib).ReachableBy (Unfailing lib) c) (o : RancherSession)
    (ho : c.server.current = some o) (hhalted : Halted o) : NothingLeft c o := by
  have hinv : Wiped c ∧ Holding c ∧ Accounted c := by
    refine System.ReachableBy.invariant (I := fun c => Wiped c ∧ Holding c ∧ Accounted c)
      (J := fun c => (system lib).ReachableBy (Unfailing lib) c) (fun c hc => hc) ?_ ?_ hc
    · intro w hw
      refine ⟨fun h p hj => ?_,fun happlied => ?_,fun o ho => ?_⟩
      · cases hj
      · cases hw.2.1.symm.trans happlied
      · cases ho
    · intro c d hJ ⟨hwiped,hholding,hacc⟩ hm _
      have hs : c.Sound (Permits lib) Returns := sound rfl hJ.reachable
      have ht : c.Traced (Permits lib) := traced rfl hJ.reachable
      have hfail : ∀ h p b, c.job = some (h,p) → Cause lib h b → Reading h b ∧ ¬Engaged b :=
        fun h p b hj hcause =>
          hcause.not_engaged hJ ht (Config.mem_histories hj) (List.suffix_refl _)
      exact ⟨hwiped.step hs hm,
        hholding.step hs (owns rfl hJ.reachable) hwiped
          (fun h p b hj hc => (hfail h p b hj hc).2) hm,
        hacc.step hs ht hfail hm⟩
  obtain ⟨-,hholding,hacc⟩ := hinv
  refine ⟨fun hne _ => (hacc o ho hhalted.phase).resolve_left hne,?_⟩
  refine Bool.eq_false_iff.mpr fun happlied => ?_
  obtain ⟨o',ho',-,heng⟩ := hholding happlied
  obtain rfl := Option.some.inj (ho.symm.trans ho')
  unfold Engaged at heng
  rcases hhalted.phase with hp | hp
  · rw [hp] at heng
    exact absurd heng (by decide)
  · rw [hp] at heng
    exact absurd heng (by decide)

/-- The session has not expired at time `t`. -/
def notExpired (t : Time) (b : RancherSession) : Bool :=
  b.status.expiresAt.all fun u => (t : ℤ) ≤ u

/-- The answer does not make a session fail. -/
def sparing (b : Option RancherSession) : Event interface → Bool
  | ⟨.inr (.getSecret _),r⟩ =>
    match (r : Except ApiError StoredSecret) with
    | .ok _ => true
    | .error _ => false
  | ⟨.inr (.fetchManifest _ _),r⟩ =>
    match (r : Fetched) with
    | .response status (.ok m) => status < 400 ∧ m.rest = none
    | _ => false
  | ⟨.inr (.apply _),r⟩ =>
    match (r : Except ApiError Unit) with
    | .ok _ => true
    | .error _ => false
  | ⟨.inr (.now .agentTimeout),t⟩ => b.all (notExpired t)
  | _ => true

theorem not_spoils_of_sparing {b : Option RancherSession} {ev : Event interface}
    (ht : sparing b ev = true) : ¬Spoils ev := by
  intro hs
  obtain ⟨ref,err,rfl⟩ | ⟨ca,url,r,rfl,hbad⟩ | ⟨d,err,rfl⟩ := spoils_cases hs
  · cases ht
  · match (r : Fetched) with
    | .response status (.ok m) =>
      obtain ⟨hlt,hrest⟩ := of_decide_eq_true ht
      rcases hbad status m rfl with hle | hne
      · omega
      · exact hne hrest
    | .response _ (.error _) | .unbuilt _ | .failed _ => cases ht
  · cases ht

def unfailingTest (c d : Config (system .plain)) : Bool :=
  clientTest c d && d.job.all fun j => j.1.head?.all (sparing (lastCopy j.1))

theorem unfailing_of_test (c d : Config (system .plain)) (ht : unfailingTest c d = true) :
    Unfailing .plain c d := by
  obtain ⟨hclient,ht⟩ := (Bool.and_eq_true _ _).mp ht
  refine ⟨getsClient_of_test c d hclient,?_,?_⟩
  · rintro h e r ⟨next,-,hd⟩ -
    rw [hd] at ht
    exact not_spoils_of_sparing ht
  · rintro h t b u ⟨next,-,hd⟩ hb hu
    rw [hd] at ht
    have hok : (lastCopy h).all (notExpired t) = true := ht
    rw [hb] at hok
    have hle : b.status.expiresAt.all (fun u => decide ((t : ℤ) ≤ u)) = true := hok
    rw [hu] at hle
    exact of_decide_eq_true hle

theorem halted_leaves_nothing_expired : ∃ c : Config (system .plain),
    (system .plain).ReachableBy (Unfailing .plain) c ∧
    ∃ o, c.server.current = some o ∧ Halted o ∧ o.status.rancherClusterID ≠ "" ∧
      NothingLeft c o := by
  obtain ⟨c,hc,hp⟩ := System.exists_tested unfailingTest (start_emptyWorld .plain) expire
    (fun c => c.server.current.any fun o : RancherSession =>
      decide (o.metadata.deletionTimestamp = none ∧ o.status.phase = .disconnected ∧
        o.status.rancherClusterID ≠ "")) (by decide +kernel)
  obtain ⟨o,ho,hp⟩ := (Option.any_eq_true _ _).mp hp
  obtain ⟨hlive,hphase,hid⟩ := of_decide_eq_true hp
  have hc := hc.mono unfailing_of_test
  have hhalted : Halted o := ⟨hlive,.inr hphase⟩
  exact ⟨c,hc,o,ho,hhalted,hid,halted_leaves_nothing .plain c hc o ho hhalted⟩

/-- A connected session whose Secret is lost has failed, with its cluster and its agent in place. -/
theorem failed_session_left_registered : ∃ c : Config (system .plain), (system .plain).Reachable c ∧
    ∃ o, c.server.current = some o ∧ Halted o ∧ ¬NothingLeft c o ∧
      (worldOf c).Exists o.status.rancherClusterID ∧ (worldOf c).applied = true ∧
      ¬Deleted c o.status.rancherClusterID := by
  obtain ⟨c,hc,hp⟩ := System.exists_config (start_emptyWorld .plain)
    (connect ++ [job .plain (100*second : ℤ) noSecret (fun _ => none)])
    (fun c => c.server.current.any (fun o : RancherSession =>
      decide (o.metadata.deletionTimestamp = none ∧ o.status.phase = .failed ∧
        (worldOf c).Exists o.status.rancherClusterID ∧
      (worldOf c).applied = true)) && c.histories.all fun h => h.all fun ev => !deletes ev.call)
    (by decide +kernel)
  obtain ⟨hcur,hhist⟩ := (Bool.and_eq_true _ _).mp hp
  obtain ⟨o,ho,hst⟩ := (Option.any_eq_true _ _).mp hcur
  obtain ⟨hlive,hphase,hexists,happlied⟩ := of_decide_eq_true hst
  refine ⟨c,hc,o,ho,⟨hlive,.inl hphase⟩,?_,hexists,happlied,?_⟩
  · intro hleft
    cases happlied.symm.trans hleft.manifest
  · rintro ⟨h,hh,rc,hev⟩
    cases List.all_eq_true.mp (List.all_eq_true.mp hhist h hh) _ hev

end LosantDevice.Session
