import LosantDevice.Session.World

/-!
# A cleanup that was cut short

The cleanup stores the phase `Disconnecting` before it deletes anything. The switch on the phase
has no case for it, so when the cleanup does not reach its end no later reconcile takes it up.
-/
namespace LosantDevice.Session
open Effect Kube Go Program

/-- A call that deletes a record or a namespace. -/
def deletes : interface.Call → Bool
  | .inr (.rancher _ (.deleteCluster _)) | .inr (.deleteNamespace _) => true
  | _ => false

/-- A status written with the phase `Disconnected`. -/
def disconnects : interface.Call → Bool
  | .inl (.updateStatus o) => o.status.phase = .disconnected
  | _ => false

/-- Neither of the two. -/
def Idle (e : interface.Call) : Prop := deletes e = false ∧ disconnects e = false

abbrev StaysIdle (h : History interface) (p : M (Except String Result)) : Prop :=
  Obeys (fun _ e => Idle e) (fun _ _ => True) h p

theorem setFailed_idle (lib : Externals) (rs : RancherSession) (reason message : String)
    (h : History interface) : StaysIdle h (setFailed lib rs reason message) := by
  refine ⟨⟨rfl,rfl⟩,fun t => ⟨⟨rfl,rfl⟩,?_⟩⟩
  rintro (err | v)
  · trivial
  · trivial

theorem reconcileObject_idle (lib : Externals) {b : RancherSession}
    (hphase : b.status.phase = .disconnecting) (hrunning : b.spec.suspend = false)
    (hlive : b.metadata.deletionTimestamp = none) (h : History interface) :
    StaysIdle h (reconcileObject lib b) := by
  have hdel : ¬b.metadata.deletionTimestamp.isSome := by simp [hlive]
  have hsus : ¬b.spec.suspend := by simp [hrunning]
  unfold reconcileObject
  rw [if_neg hdel]
  split
  · refine ⟨⟨rfl,rfl⟩,?_⟩
    rintro (err | v)
    · trivial
    · trivial
  · refine obeys_rancherClient ⟨rfl,rfl⟩ (fun r => ?_)
    cases clientFrom lib (named b.spec.credentialsSecretRef r) with
    | error e => exact setFailed_idle lib b _ _ _
    | ok c =>
      change StaysIdle _ (handlePhase lib c b)
      unfold handlePhase
      rw [hphase]
      trivial

theorem reconcile_idle (lib : Externals) {s : Strategy interface} {b : RancherSession}
    (hread : s [] (.inl .get) = .ok b ∨
      ∃ err : ApiError, err.reason ≠ .notFound ∧ s [] (.inl .get) = .error err)
    (hphase : b.status.phase = .disconnecting) (hrunning : b.spec.suspend = false)
    (hlive : b.metadata.deletionTimestamp = none) :
    ∀ e ∈ (run s [] (reconcile lib)).1, Idle e.call := by
  have hget : ∀ r : Except ApiError RancherSession,
      ∀ e ∈ ([⟨.inl .get,r⟩] : History interface), Idle e.call := by
    intro r e he
    rw [List.mem_singleton.mp he]
    exact ⟨rfl,rfl⟩
  change ∀ e ∈ (run s [⟨.inl .get,s [] (.inl .get)⟩] (_ : M _)).1, Idle e.call
  rcases hread with hread | ⟨err,herr,hread⟩
  · rw [hread]
    exact (reconcileObject_idle lib hphase hrunning hlive _).run_all s (hget _)
  · rw [hread]
    change ∀ e ∈ (run s _ (if err.reason = .notFound then _ else _)).1, Idle e.call
    rw [if_neg herr]
    exact hget _

def newSession : RancherSession where
  metadata :=
    { name := "edge", uid := 1, resourceVersion := 0, generation := 1, finalizers := []
      deletionTimestamp := none }
  spec := { credentialsSecretRef := ⟨"rancher","default"⟩ }
  status := {}

def noFault : (e : Call) → Option (calls.Answer e) := fun _ => none

def deleteClusterFails : (e : Call) → Option (calls.Answer e)
  | .rancher _ (.deleteCluster _) => some (.error { text := "rancher api: status 500" })
  | _ => none

/-- Held, registered and connected, each in one job. -/
def connect : List (system .plain).Act :=
  [.create newSession,job .plain 0 noFault (fun _ => none),job .plain 0 noFault (fun _ => none),
    job .plain 0 noFault (fun _ => none)]

/-- Rancher is empty. -/
def emptyWorld : World := ⟨[],[],[],false⟩

/-- Every call succeeds. -/
def working (t : Time) : Env rancherSession calls where
  refuse _ := none
  answer _
    | .now _ => t
    | .getSecret _ => .ok credentials
    | .rancher _ (.findCluster _) => .ok none
    | .rancher _ (.createCluster _) => .ok "c-1"
    | .rancher _ (.getRegistrationToken _) => .ok "https://rancher/import.yaml"
    | .rancher _ (.getCluster _) | .rancher _ (.deleteCluster _) => .ok ()
    | .fetchManifest _ _ => .response 200 (.ok { documents := [] })
    | .apply _ | .deleteNamespace _ => .ok ()
    | .getDeployment _ => .ok (1 : ℤ)

/-- Whatever the calls answer, the cluster and the namespace stay, and so does the phase. -/
theorem interrupted_cleanup_abandoned (lib : Externals) (env : Env rancherSession calls)
    (s : Server rancherSession) (b : RancherSession) (hb : s.current = some b)
    (hphase : b.status.phase = .disconnecting) (hrunning : b.spec.suspend = false)
    (hlive : b.metadata.deletionTimestamp = none) :
    (∀ e ∈ (run (env.strategy s) [] (reconcile lib)).1, deletes e.call = false) ∧
      ∀ o, (env.server s (run (env.strategy s) [] (reconcile lib)).1).current = some o →
        o.status.phase ≠ .disconnected := by
  have hidle := reconcile_idle lib (env.strategy_get hb) hphase hrunning hlive
  refine ⟨fun e he => (hidle e he).1,fun o ho => ?_⟩
  rcases env.status_written s ho with ⟨o₀,ho₀,hst⟩ | ⟨a,⟨r,ha⟩,hst⟩
  · obtain rfl := Option.some.inj (hb.symm.trans ho₀)
    rw [hst,hphase]
    decide
  · have hwrite := (hidle _ ha).2
    rw [hst]
    exact of_decide_eq_false hwrite

/-- A session left in the middle of its cleanup. -/
def stalled : RancherSession :=
  { newSession with
    metadata := { newSession.metadata with
      resourceVersion := 1, finalizers := [rancherFinalizer] }
    status := { phase := .disconnecting, rancherClusterID := "c-0", manifestApplied := true } }

theorem interrupted_cleanup_abandoned_stalled :
    let h := (run ((working 0).strategy ⟨[some stalled],0⟩) [] (reconcile .plain)).1
    (∀ e ∈ h, deletes e.call = false) ∧
      ∀ o, ((working 0).server ⟨[some stalled],0⟩ h).current = some o →
        o.status.phase ≠ .disconnected :=
  interrupted_cleanup_abandoned .plain (working 0) ⟨[some stalled],0⟩ stalled rfl rfl rfl rfl

/-- The history of a reconcile in which every call succeeds. -/
def workingRun (c : Config (system .plain)) (t : Time) : History interface :=
  (run ((working t).strategy c.server) [] (reconcile .plain)).1

def Abandoned (c : Config (system .plain)) (b : RancherSession) : Prop :=
  b.status.phase = .disconnecting ∧ b.spec.suspend = false ∧
    b.metadata.deletionTimestamp = none ∧ (worldOf c).Exists b.status.rancherClusterID ∧
    (∀ e ∈ workingRun c 0, deletes e.call = false) ∧
    ((working 0).server c.server (workingRun c 0)).current = some b

instance (c : Config (system .plain)) (b : RancherSession) : Decidable (Abandoned c b) := by
  unfold Abandoned
  infer_instance

/-- The session expires, its cluster cannot be deleted, and once Rancher works again nothing
happens. -/
theorem expired_session_abandoned :
    ∃ c b, (system .plain).Reachable c ∧ c.server.current = some b ∧ Abandoned c b := by
  obtain ⟨c,b,hc,hb,hp⟩ := System.exists_reachable (σ := system .plain) (w := emptyWorld)
    ⟨rfl,rfl,by simp [emptyWorld]⟩
    (connect ++ [job .plain (3601*second : ℤ) deleteClusterFails (fun _ => none)])
    (fun c b => decide (Abandoned c b)) rfl
  exact ⟨c,b,hc,hb,of_decide_eq_true hp⟩

end LosantDevice.Session
