import LosantDevice.Kube.Unhindered
import LosantDevice.Session.Trace

/-!
# How the handlers of a session end

For each handler the ways in which a job ends in it: the last call, what is known of the calls
before it, and what is returned.
-/
namespace LosantDevice.Session
open Effect Kube Go Program

variable {lib : Externals} {c : Rancher.HTTPClient} {rc : Option Rancher.HTTPClient} {h : Past}
  {x rs : RancherSession} {Ψ : Past → Except String Result → Prop}

/-- Only the end is described. -/
abbrev EndsIn {α : Type} (Ψ : Past → α → Prop) (h : Past) (p : M α) : Prop :=
  Obeys (fun _ _ => True) Ψ h p

theorem EndsIn.imp {α : Type} {Ψ Ψ' : Past → α → Prop} {p : M α} (hp : EndsIn Ψ h p)
    (hΨ : ∀ h' a, Ψ h' a → Ψ' h' a) : EndsIn Ψ' h p := hp.mono (fun _ _ ht => ht) hΨ

/-- Since `h` the job has called the outside only. -/
inductive Since (h : Past) : Past → Prop
  | refl : Since h h
  | call {e r k} (before : Since h k) : Since h (⟨.inr e,r⟩::k)

/-- The status of a failure may be refused. -/
def Refusable (Ψ : Past → Except String Result → Prop) (h : Past) : Prop :=
  ∀ (t : Time) o (err : ApiError),
    Ψ (⟨.inl (.updateStatus o),.error err⟩::⟨.inr (.now .transition),t⟩::h) (.error err.text)

theorem setFailed_outcome {reason message : String} (hrefused : Refusable Ψ h)
    (hstored : ∀ (t : Time) o v, o.status.phase = .failed →
      Ψ (⟨.inl (.updateStatus o),.ok v⟩::⟨.inr (.now .transition),t⟩::h) (.ok {})) :
    EndsIn Ψ h (setFailed lib rs reason message) := by
  refine ⟨trivial,fun t => ⟨trivial,?_⟩⟩
  rintro (err | v)
  · exact hrefused t _ err
  · exact hstored t _ v rfl

theorem setAPIUnreachable_outcome {reason message : String} (hrefused : Refusable Ψ h)
    (hstored : ∀ (t : Time) o v, o.status.phase = rs.status.phase →
      o.status.lastTransitionMessage = message →
      Ψ (⟨.inl (.updateStatus o),.ok v⟩::⟨.inr (.now .transition),t⟩::h)
        (.ok { requeueAfter := rancherErrorRequeueWait })) :
    EndsIn Ψ h (setAPIUnreachable lib rs reason message) := by
  refine ⟨trivial,fun t => ⟨trivial,?_⟩⟩
  rintro (err | v)
  · exact hrefused t _ err
  · exact hstored t _ v rfl rfl

/-! ## Connecting -/

/-- Rancher has answered a request of `handleConnect` with an error. -/
inductive Denied : Event interface → Prop
  | findCluster {c name err} : Denied ⟨.inr (.rancher c (.findCluster name)),.error err⟩
  | createCluster {c name err} : Denied ⟨.inr (.rancher c (.createCluster name)),.error err⟩
  | getRegistrationToken {c id err} :
      Denied ⟨.inr (.rancher c (.getRegistrationToken id)),.error err⟩

/-- The manifest is given up because of an answer; the Secret it reads is that of the session. -/
def Spoiled (x : RancherSession) (h : Past) : Prop :=
  ∃ ev ∈ h, Spoils ev ∧ ∀ ref, ev.call = .inr (.getSecret ref) →
    ref = x.spec.credentialsSecretRef.namespacedName

inductive ConnectEnds (x : RancherSession) : Past → Except String Result → Prop
  | refused {o k} {err : ApiError} :
      ConnectEnds x (⟨.inl (.updateStatus o),.error err⟩::k) (.error err.text)
  | unreachable {o v k ev} (denied : Denied ev) (told : ev ∈ k) :
      ConnectEnds x (⟨.inl (.updateStatus o),.ok v⟩::k)
        (.ok { requeueAfter := rancherErrorRequeueWait })
  | failed {o v k} (phase : o.status.phase = .failed) (spoiled : Spoiled x k) :
      ConnectEnds x (⟨.inl (.updateStatus o),.ok v⟩::k) (.ok {})
  | recorded {o v k} {t : Time} (same : x.Same o) (phase : o.status.phase = .connecting)
      (applied : o.status.manifestApplied = true)
      (clock : (⟨.inr (.now .manifestApplied),t⟩ : Event interface) ∈ k)
      (expiresAt : o.status.expiresAt = some ((t : ℤ)+agentReadyTimeout : ℤ)) :
      ConnectEnds x (⟨.inl (.updateStatus o),.ok v⟩::k) (.ok { requeueAfter := agentPollInterval })

theorem ConnectEnds.refusable : Refusable (ConnectEnds x) h := fun _ _ _ => .refused

theorem Spoiled.cons {ev : Event interface} (hs : Spoiled x h) : Spoiled x (ev::h) := by
  obtain ⟨ev',hev',hs⟩ := hs
  exact ⟨ev',List.mem_cons_of_mem _ hev',hs⟩

/-- An error of `applyManifest` comes from an answer. -/
def Traceable (x : RancherSession) (h : Past) (r : Except String Unit) : Prop :=
  ∀ err, r = .error err → Spoiled x h

theorem traceable_error {ev : Event interface} {err : String} (hs : Spoils ev)
    (hread : ∀ ref, ev.call = .inr (.getSecret ref) →
      ref = x.spec.credentialsSecretRef.namespacedName) :
    Traceable x (ev::h) (.error err) := fun _ _ => ⟨ev,List.mem_cons_self,hs,hread⟩

theorem applyDocuments_outcome {rest : Option String} (ds : List Document)
    (hrest : rest ≠ none → Spoiled x h) : EndsIn (Traceable x) h (applyDocuments rest ds) := by
  induction ds generalizing h with
  | nil =>
    cases rest with
    | none => exact nofun
    | some err => exact fun _ _ => hrest (by simp)
  | cons d ds ih =>
    unfold applyDocuments
    refine .ite (ih hrest) ⟨trivial,?_⟩
    rintro (err | ⟨⟩)
    · exact traceable_error ⟨err,rfl⟩ nofun
    · exact ih fun hne => (hrest hne).cons

theorem applyManifest_outcome {url : String} (hspec : rs.spec = x.spec) :
    EndsIn (Traceable x) h (applyManifest rs url) := by
  refine ⟨trivial,?_⟩
  rintro (err | s)
  · refine traceable_error ⟨err,rfl⟩ ?_
    rintro _ ⟨⟩
    rw [hspec]
  · refine ⟨trivial,fun (r : Fetched) => ?_⟩
    cases r with
    | unbuilt err => exact traceable_error (fun _ _ => nofun) nofun
    | failed err => exact traceable_error (fun _ _ => nofun) nofun
    | response status body =>
      change EndsIn _ _ (if 400 ≤ status then _ else _)
      split
      · rename_i hstatus
        refine traceable_error ?_ nofun
        rintro _ m ⟨⟩
        exact .inl hstatus
      · cases body with
        | error err => exact traceable_error (fun _ _ => nofun) nofun
        | ok m =>
          refine applyDocuments_outcome m.documents fun hne => ⟨_,List.mem_cons_self,?_,nofun⟩
          rintro _ m' ⟨⟩
          exact .inr hne

theorem registerCluster_outcome {id : String} (hs : x.Same rs)
    (hp : rs.status.phase = .connecting) :
    EndsIn (ConnectEnds x) h (registerCluster lib c rs id) := by
  refine ⟨trivial,?_⟩
  rintro (err | url)
  · exact setAPIUnreachable_outcome ConnectEnds.refusable fun _ _ _ _ _ =>
      .unreachable .getRegistrationToken (List.mem_cons_of_mem _ List.mem_cons_self)
  · refine (applyManifest_outcome hs.spec).bind ?_
    rintro h' (err | ⟨⟩) hbad
    · exact setFailed_outcome ConnectEnds.refusable fun _ _ _ hphase =>
        .failed hphase (hbad err rfl).cons
    · refine ⟨trivial,fun (t : Time) => ⟨trivial,fun _ => ⟨trivial,?_⟩⟩⟩
      rintro (err | v)
      · exact .refused
      · exact .recorded ⟨hs.metadata,hs.spec⟩ hp rfl
          (List.mem_cons_of_mem _ List.mem_cons_self) rfl

theorem handleConnect_outcome : EndsIn (ConnectEnds x) h (handleConnect lib c x) := by
  refine ⟨trivial,?_⟩
  rintro (err | v)
  · exact .refused
  have hstored : x.Same (Object.stored (K := rancherSession) { x with status := { x.status with
      phase := .connecting } } v) := ⟨(x.same_refl.stored v).metadata,rfl⟩
  refine ⟨trivial,?_⟩
  rintro (err | _ | id)
  · exact setAPIUnreachable_outcome ConnectEnds.refusable fun _ _ _ _ _ =>
      .unreachable .findCluster (List.mem_cons_of_mem _ List.mem_cons_self)
  · refine ⟨trivial,?_⟩
    rintro (err | id)
    · exact setAPIUnreachable_outcome ConnectEnds.refusable fun _ _ _ _ _ =>
        .unreachable .createCluster (List.mem_cons_of_mem _ List.mem_cons_self)
    · exact registerCluster_outcome hstored rfl
  · exact registerCluster_outcome hstored rfl

/-! ## Polling -/

inductive PollEnds (x : RancherSession) (h : Past) : Past → Except String Result → Prop
  | refused {o k} {err : ApiError} (since : Since h k) :
      PollEnds x h (⟨.inl (.updateStatus o),.error err⟩::k) (.error err.text)
  | failed {o v k} {t expires : Time} (since : Since h k) (phase : o.status.phase = .failed)
      (expiry : x.status.expiresAt = some expires)
      (clock : (⟨.inr (.now .agentTimeout),t⟩ : Event interface) ∈ k) (late : expires < t) :
      PollEnds x h (⟨.inl (.updateStatus o),.ok v⟩::k) (.ok {})
  | unread {ref k} {err : ApiError} (since : Since h k) :
      PollEnds x h (⟨.inr (.getDeployment ref),.error err⟩::k) (.error err.text)
  | unready {ref k} {r : Except ApiError ℤ} (since : Since h k) (none : ∀ n, r = .ok n → n = 0) :
      PollEnds x h (⟨.inr (.getDeployment ref),r⟩::k) (.ok { requeueAfter := agentPollInterval })
  | connected {o v k} {t : Time} (since : Since h k) (same : x.Same o)
      (phase : o.status.phase = .connected)
      (clock : (⟨.inr (.now .connected),t⟩ : Event interface) ∈ k)
      (connectedAt : o.status.connectedAt = some t)
      (expiresAt : o.status.expiresAt =
        some ((t : ℤ)+wrapInt64 (x.spec.ttlSeconds*second) : ℤ)) :
      PollEnds x h (⟨.inl (.updateStatus o),.ok v⟩::k)
        (.ok { requeueAfter := wrapInt64 (x.spec.ttlSeconds*second) })

theorem checkAgent_outcome {h₀ : Past} (hs : Since h₀ h) :
    EndsIn (PollEnds x h₀) h (checkAgent lib x) := by
  refine ⟨trivial,?_⟩
  rintro (err | (n : ℤ))
  · exact .ite (.unready hs nofun) (.unread hs)
  · change EndsIn _ _ (if n = 0 then _ else _)
    split
    · rename_i hn
      refine .unready hs ?_
      rintro _ ⟨⟩
      exact hn
    · refine ⟨trivial,fun (t : Time) => ⟨trivial,fun _ => ⟨trivial,?_⟩⟩⟩
      rintro (err | v)
      · exact .refused hs.call.call.call
      · exact .connected hs.call.call.call ⟨⟨_,rfl⟩,rfl⟩ rfl
          (List.mem_cons_of_mem _ List.mem_cons_self) rfl rfl

theorem pollAgentReady_outcome : EndsIn (PollEnds x h) h (pollAgentReady lib x) := by
  unfold pollAgentReady
  split
  · exact checkAgent_outcome .refl
  · rename_i expires he
    refine ⟨trivial,fun (t : Time) => ?_⟩
    change EndsIn _ _ (if expires < t then _ else _)
    split
    · rename_i hlate
      exact setFailed_outcome (fun _ _ _ => .refused Since.refl.call.call) fun _ _ _ hphase =>
        .failed Since.refl.call.call hphase he (List.mem_cons_of_mem _ List.mem_cons_self) hlate
    · exact checkAgent_outcome Since.refl.call

/-! ## Cleaning up -/

/-- With a client or without one. -/
inductive CleanupEnds (rc : Option Rancher.HTTPClient) (x : RancherSession) :
    Past → Except String Result → Prop
  | refused {o k} {err : ApiError} :
      CleanupEnds rc x (⟨.inl (.updateStatus o),.error err⟩::k) (.error err.text)
  | unreleased {o k} {err : ApiError} :
      CleanupEnds rc x (⟨.inl (.update o),.error err⟩::k) (.error err.text)
  | nilPointer {k err} (client : rc = none) : CleanupEnds rc x k (.error err)
  | stays {n k r err} (stays : World.namespaceGone r = false) :
      CleanupEnds rc x (⟨.inr (.deleteNamespace n),r⟩::k) (.error err)
  | undeleted {o v k c} {err : Rancher.Error}
      (told : (⟨.inr (.rancher c (.deleteCluster x.status.rancherClusterID)),.error err⟩ :
        Event interface) ∈ k)
      (phase : o.status.phase = .disconnecting)
        (message : o.status.lastTransitionMessage = err.text) :
      CleanupEnds rc x (⟨.inl (.updateStatus o),.ok v⟩::k)
        (.ok { requeueAfter := rancherErrorRequeueWait })
  | disconnected {o v k} (live : x.metadata.deletionTimestamp = none) (same : x.Same o)
      (phase : o.status.phase = .disconnected) :
      CleanupEnds rc x (⟨.inl (.updateStatus o),.ok v⟩::k) (.ok {})
  | released {o v k b} (deleting : x.metadata.deletionTimestamp.isSome)
      (copy : lastCopy k = some b) (same : x.Same b)
      (finalizers : o.metadata.finalizers =
        x.metadata.finalizers.filter (· ≠ rancherFinalizer)) :
      CleanupEnds rc x (⟨.inl (.update o),.ok v⟩::k) (.ok {})

theorem removeFinalizer_outcome (hdel : x.metadata.deletionTimestamp.isSome)
    (hcopy : lastCopy h = some rs) (hs : x.Same rs) :
    EndsIn (CleanupEnds rc x) h (removeFinalizer rs) := by
  refine ⟨trivial,?_⟩
  rintro (err | v)
  · exact .unreleased
  · refine .released hdel hcopy hs ?_
    obtain ⟨n,hm⟩ := hs.metadata
    simp only [hm]

theorem cleanNamespace_outcome (hs : x.Same rs) :
    EndsIn (CleanupEnds rc x) h (cleanNamespace rs) := by
  refine obeys_deleteNamespace trivial (fun r _ => ?_) (fun r err hr => .stays hr)
  refine ⟨trivial,?_⟩
  rintro (err | v)
  · exact .refused
  have hsame : rs.metadata.deletionTimestamp = x.metadata.deletionTimestamp := by
    obtain ⟨n,hm⟩ := hs.metadata
    rw [hm]
  change EndsIn _ _ (if rs.metadata.deletionTimestamp.isSome then _ else _)
  rw [hsame]
  split
  · rename_i hdel
    exact removeFinalizer_outcome hdel rfl ⟨(hs.stored v).metadata,hs.spec⟩
  · rename_i hlive
    exact .disconnected (by simpa using hlive) ⟨hs.metadata,hs.spec⟩ rfl

theorem cleanCluster_outcome (hs : x.Same rs)
    (hid : rs.status.rancherClusterID = x.status.rancherClusterID)
    (hp : rs.status.phase = .disconnecting) :
    EndsIn (CleanupEnds rc x) h (cleanCluster lib rc rs) := by
  unfold cleanCluster
  split
  · cases rc with
    | none => exact .nilPointer rfl
    | some c =>
      refine ⟨trivial,?_⟩
      rintro (err | ⟨⟩)
      · refine setAPIUnreachable_outcome (fun _ _ _ => .refused) fun _ _ _ hphase hmsg => ?_
        refine .undeleted (c := c) ?_ (hphase.trans hp) hmsg
        rw [← hid]
        exact List.mem_cons_of_mem _ List.mem_cons_self
      · exact cleanNamespace_outcome hs
  · exact cleanNamespace_outcome hs

theorem runCleanup_outcome : EndsIn (CleanupEnds rc x) h (runCleanup lib rc x) := by
  refine ⟨trivial,?_⟩
  rintro (err | v)
  · exact .refused
  · exact cleanCluster_outcome ⟨(x.same_refl.stored v).metadata,rfl⟩ rfl rfl

/-! ## While it is connected -/

/-- The session was found not to have expired. -/
def Unexpired (b : RancherSession) (h : Past) : Prop :=
  ∀ expires, b.status.expiresAt = some expires →
    ∃ s : Time, (⟨.inr (.now .ttlCheck),s⟩ : Event interface) ∈ h ∧ s ≤ expires

/-- The recorded cluster, if there is one, was found. -/
def Found (b : RancherSession) (h : Past) : Prop :=
  b.status.rancherClusterID ≠ "" → ∃ c : Rancher.HTTPClient,
    (⟨.inr (.rancher c (.getCluster b.status.rancherClusterID)),.ok ()⟩ : Event interface) ∈ h

inductive ConnectedEnds (x : RancherSession) : Past → Except String Result → Prop
  | cleanup {c k r} (ended : CleanupEnds (some c) x k r) : ConnectedEnds x k r
  | refused {o k} {err : ApiError} :
      ConnectedEnds x (⟨.inl (.updateStatus o),.error err⟩::k) (.error err.text)
  | unreachable {o v k c} {err : Rancher.Error} (unexpired : Unexpired x k)
      (told : (⟨.inr (.rancher c (.getCluster x.status.rancherClusterID)),.error err⟩ :
        Event interface) ∈ k)
      (other : Rancher.Error.notFound err = false) :
      ConnectedEnds x (⟨.inl (.updateStatus o),.ok v⟩::k)
        (.ok { requeueAfter := rancherErrorRequeueWait })
  | unlimited {k} (unexpired : Unexpired x k) (found : Found x k)
      (expiry : x.status.expiresAt = none) : ConnectedEnds x k (.ok {})
  | left {k expires} {t : Time} (unexpired : Unexpired x k) (found : Found x k)
      (expiry : x.status.expiresAt = some expires) (left : (0 : ℤ) < timeUntil expires t) :
      ConnectedEnds x (⟨.inr (.now .ttlLeft),t⟩::k) (.ok { requeueAfter := timeUntil expires t })
  | ended {k expires} {t : Time} (unexpired : Unexpired x k) (found : Found x k)
      (expiry : x.status.expiresAt = some expires) (late : expires ≤ t) :
      ConnectedEnds x (⟨.inr (.now .ttlLeft),t⟩::k) (.ok {})

theorem Unexpired.cons {ev : Event interface} (hu : Unexpired x h) : Unexpired x (ev::h) := by
  intro expires he
  obtain ⟨s,hs,hle⟩ := hu expires he
  exact ⟨s,List.mem_cons_of_mem _ hs,hle⟩

theorem awaitExpiry_outcome (hu : Unexpired x h) (hf : Found x h) :
    EndsIn (ConnectedEnds x) h (awaitExpiry x) := by
  unfold awaitExpiry
  split
  · rename_i hnone
    exact .unlimited hu hf hnone
  · rename_i expires hsome
    refine ⟨trivial,fun (t : Time) => ?_⟩
    change EndsIn _ _ (if (0 : ℤ) < timeUntil expires t then _ else _)
    split
    · rename_i hleft
      exact .left hu hf hsome hleft
    · rename_i hleft
      exact .ended hu hf hsome (not_lt.mp fun hlt => hleft (timeUntil_pos.mpr hlt))

theorem checkCluster_outcome (hu : Unexpired x h) :
    EndsIn (ConnectedEnds x) h (checkCluster lib c x) := by
  unfold checkCluster
  split
  · refine ⟨trivial,?_⟩
    rintro (err | ⟨⟩)
    · change EndsIn _ _ (if Rancher.Error.notFound err then _ else _)
      split
      · exact runCleanup_outcome.imp fun _ _ => .cleanup
      · rename_i hother
        refine setAPIUnreachable_outcome (fun _ _ _ => .refused) fun _ _ _ _ _ => ?_
        exact .unreachable hu.cons.cons (List.mem_cons_of_mem _ List.mem_cons_self)
          (by simpa using hother)
    · exact awaitExpiry_outcome hu.cons fun _ => ⟨c,List.mem_cons_self⟩
  · rename_i hid
    exact awaitExpiry_outcome hu fun hne => absurd hne hid

theorem handleConnected_outcome : EndsIn (ConnectedEnds x) h (handleConnected lib c x) := by
  unfold handleConnected
  split
  · rename_i hnone
    refine checkCluster_outcome fun expires he => ?_
    rw [hnone] at he
    cases he
  · rename_i expires hsome
    refine ⟨trivial,fun (t : Time) => ?_⟩
    change EndsIn _ _ (if expires < t then _ else _)
    split
    · exact runCleanup_outcome.imp fun _ _ => .cleanup
    · rename_i hle
      refine checkCluster_outcome fun expires' he => ⟨t,List.mem_cons_self,?_⟩
      obtain rfl := Option.some.inj (hsome.symm.trans he)
      exact not_lt.mp hle

/-! ## `Reconcile` -/

/-- A cleanup on deletion that ends well may still have asked for a delay. -/
inductive DisconnectEnds (lib : Externals) (x : RancherSession) : Past → Except String Result → Prop
  | free {k} (free : rancherFinalizer ∉ x.metadata.finalizers) : DisconnectEnds lib x k (.ok {})
  | cleanup {rc k r r'} (held : rancherFinalizer ∈ x.metadata.finalizers)
      (client : rc = none → ∃ e, Unusable lib k x e) (ended : CleanupEnds rc x k r)
      (result : ∀ res, r' = .ok res → ∃ res', r = .ok res') : DisconnectEnds lib x k r'

inductive PhaseEnds (x : RancherSession) : Past → Except String Result → Prop
  | connect {k r} (start : Starts x.status) (ended : ConnectEnds x k r) : PhaseEnds x k r
  | poll {h k r} (phase : x.status.phase = .connecting) (applied : x.status.manifestApplied = true)
      (ended : PollEnds x h k r) : PhaseEnds x k r
  | connected {k r} (phase : x.status.phase = .connected) (ended : ConnectedEnds x k r) :
      PhaseEnds x k r
  | halted {k} (phase : x.status.phase = .failed ∨ x.status.phase = .disconnected ∨
      x.status.phase = .disconnecting) : PhaseEnds x k (.ok {})

inductive ReconcileEnds (lib : Externals) (x : RancherSession) : Past → Except String Result → Prop
  | disconnect {k r} (deleting : x.metadata.deletionTimestamp.isSome)
      (ended : DisconnectEnds lib x k r) : ReconcileEnds lib x k r
  | unattached {o k} {err : ApiError} :
      ReconcileEnds lib x (⟨.inl (.update o),.error err⟩::k) (.error err.text)
  | attached {o v k} (live : x.metadata.deletionTimestamp = none)
      (free : rancherFinalizer ∉ x.metadata.finalizers) (copy : lastCopy k = some x)
      (finalizers : o.metadata.finalizers = x.metadata.finalizers ++ [rancherFinalizer]) :
      ReconcileEnds lib x (⟨.inl (.update o),.ok v⟩::k) (.ok { requeue := true })
  | suspended {k} (live : x.metadata.deletionTimestamp = none)
      (held : rancherFinalizer ∈ x.metadata.finalizers) (suspended : x.spec.suspend = true) :
      ReconcileEnds lib x k (.ok {})
  | refused {o k} {err : ApiError} :
      ReconcileEnds lib x (⟨.inl (.updateStatus o),.error err⟩::k) (.error err.text)
  | unusable {o v k e} (live : Live x) (phase : o.status.phase = .failed)
      (secret : Unusable lib k x e) :
        ReconcileEnds lib x (⟨.inl (.updateStatus o),.ok v⟩::k) (.ok {})
  | phase {k r} (live : Live x) (ended : PhaseEnds x k r) : ReconcileEnds lib x k r

theorem handlePhase_outcome : EndsIn (PhaseEnds x) h (handlePhase lib c x) := by
  unfold handlePhase
  have hconnect : Starts x.status → EndsIn (PhaseEnds x) h (handleConnect lib c x) := fun hs =>
    handleConnect_outcome.imp fun _ _ => .connect hs
  split
  · rename_i hp
    exact hconnect (.inl hp)
  · rename_i hp
    split
    · rename_i happlied
      exact pollAgentReady_outcome.imp fun _ _ => .poll hp happlied
    · rename_i happlied
      exact hconnect (.inr ⟨hp,by simpa using happlied⟩)
  · rename_i hp
    exact handleConnected_outcome.imp fun _ _ => .connected hp
  · rename_i hp
    exact .halted (.inl hp)
  · rename_i hp
    exact .halted (.inr (.inl hp))
  · rename_i hp
    exact .halted (.inr (.inr hp))

theorem cleanupOnDeletion_outcome (hheld : rancherFinalizer ∈ x.metadata.finalizers)
    (hnone : rc = none → ∃ e, Unusable lib h x e) :
    EndsIn (DisconnectEnds lib x) h (cleanupOnDeletion lib rc x) := by
  refine (runCleanup_outcome.later (List.suffix_refl h)).bind ?_
  rintro h' r ⟨hended,hlater⟩
  have hclient : rc = none → ∃ e, Unusable lib h' x e := fun hrc =>
    (hnone hrc).imp fun _ hu => hu.later hlater
  cases r with
  | error err => exact .cleanup hheld hclient hended nofun
  | ok res => exact .cleanup hheld hclient hended fun _ _ => ⟨res,rfl⟩

theorem cleanupWithoutClient_outcome (hdel : x.metadata.deletionTimestamp.isSome)
    (hcopy : lastCopy h = some x) : EndsIn (CleanupEnds none x) h (cleanupWithoutClient x) :=
  obeys_deleteNamespace trivial (fun _ _ => removeFinalizer_outcome hdel hcopy x.same_refl)
    (fun _ _ hr => .stays hr)

theorem handleDisconnect_outcome (hdel : x.metadata.deletionTimestamp.isSome)
    (hcopy : lastCopy h = some x) : EndsIn (DisconnectEnds lib x) h (handleDisconnect lib x) := by
  unfold handleDisconnect
  split
  · rename_i hfree
    exact .free hfree
  rename_i hheld
  have hheld := not_not.mp hheld
  refine obeys_rancherClient trivial fun r => ?_
  cases hc : clientFrom lib (named x.spec.credentialsSecretRef r) with
  | ok c => exact cleanupOnDeletion_outcome hheld nofun
  | error e =>
    have hu : Unusable lib (⟨.inr (.getSecret x.spec.credentialsSecretRef.namespacedName),r⟩::h)
      x e := ⟨r,List.mem_cons_self,hc⟩
    refine .ite (cleanupOnDeletion_outcome hheld fun _ => ⟨e,hu⟩) ?_
    have hbare := cleanupWithoutClient_outcome
      (h := ⟨.inr (.getSecret x.spec.credentialsSecretRef.namespacedName),r⟩::h) hdel hcopy
    refine (hbare.later (List.suffix_refl _)).mono (fun _ _ ht => ht) ?_
    rintro h' r' ⟨hended,hlater⟩
    exact .cleanup hheld (fun _ => ⟨e,hu.later hlater⟩) hended fun res hr => ⟨res,hr⟩

theorem reconcileObject_outcome (hcopy : lastCopy h = some x) :
    EndsIn (ReconcileEnds lib x) h (reconcileObject lib x) := by
  unfold reconcileObject
  split
  · rename_i hdel
    exact (handleDisconnect_outcome hdel hcopy).imp fun _ _ => .disconnect hdel
  rename_i hdel
  have hlive : x.metadata.deletionTimestamp = none := by simpa using hdel
  split
  · rename_i hfree
    refine ⟨trivial,?_⟩
    rintro (err | v)
    · exact .unattached
    · exact .attached hlive hfree hcopy rfl
  rename_i hheld
  have hheld := not_not.mp hheld
  split
  · rename_i hsus
    exact .suspended hlive hheld hsus
  rename_i hsus
  have hl : Live x := ⟨hlive,hheld,by simpa using hsus⟩
  refine obeys_rancherClient trivial fun r => ?_
  cases hc : clientFrom lib (named x.spec.credentialsSecretRef r) with
  | error e =>
    exact setFailed_outcome (fun _ _ _ => .refused) fun _ _ _ hphase =>
      .unusable hl hphase ⟨r,List.mem_cons_of_mem _ List.mem_cons_self,hc⟩
  | ok c => exact handlePhase_outcome.imp fun _ _ => .phase hl

end LosantDevice.Session
