import LosantDevice.Sync.Reconcile

/-!
# What a reconcile calls and returns

One statement about the whole of `Reconcile`: whatever the answers, each call it makes is one
`Permits` allows after the calls before it, and what it returns is as `Returns` says. The facts
about the statuses it writes, about its finalizer and about its requests are all read off this.
-/
namespace LosantDevice.Sync
open Effect Kube Go Monitor

abbrev Past := History interface

/-- What the calls of a job say about the fields it works on. The Secrets are those it has come to
know since it knows the cluster device. -/
structure View where
  cluster : Option String := none
  nodes : List (String × String) := []
  secrets : NamespacedName → Option (GoMap String) := fun _ => none
  waited : Bool := false
  scheduled : Option Time := none
  ended : Bool := false

def View.know (v : View) (ref : NamespacedName) (data : GoMap String) : View :=
  { v with secrets := Function.update v.secrets ref (some data) }

def observe : Event interface → View → View
  | ⟨.inl (.updateStatus o),r⟩,v =>
    match (r : Except ApiError ℕ) with
    | .ok _ => { v with ended := v.ended || decide (o.status.phase = .active) }
    | .error _ => v
  | ⟨.inr (.now .scheduleWait),_⟩,v => { v with waited := true }
  | ⟨.inr (.now .scheduleFrom),t⟩,v => { v with scheduled := some t }
  | ⟨.inr (.getSecret ref),r⟩,v =>
    match (r : Except ApiError StoredSecret) with
    | .ok s => v.know ref s.data
    | .error _ => v
  | ⟨.inr (.createSecret s),r⟩,v =>
    match (r : Except ApiError Unit) with
    | .ok _ => v.know s.namespacedName s.data
    | .error _ => v
  | ⟨.inr (.updateSecret s),r⟩,v =>
    match (r : Except ApiError Unit) with
    | .ok _ => v.know s.namespacedName s.data
    | .error _ => v
  | ⟨.inr (.losant _ (.ensureClusterDevice _)),r⟩,v =>
    match (r : Except Losant.Error String) with
    | .ok id => { v with cluster := some id, secrets := fun _ => none }
    | .error _ => v
  | ⟨.inr (.losant _ (.ensureNodeDevice _ n _)),r⟩,v =>
    match (r : Except Losant.Error String) with
    | .ok id => { v with nodes := (n,id)::v.nodes }
    | .error _ => v
  | _,v => v

def view : Past → View
  | [] => {}
  | ev::h => observe ev (view h)

/-- The devices of the nodes, from those recorded before. -/
def View.nodeDevices (v : View) (m : GoMap String) : GoMap String :=
  v.nodes.foldr (fun p m => m.insert p.1 p.2) m

/-- What a device stands for. -/
inductive Slot
  | cluster
  | node (n : String)
  deriving DecidableEq

/-- The event gives the job a device for the slot. -/
inductive Gives : Event interface → Slot → String → Prop
  | cluster {lc spec id} : Gives ⟨.inr (.losant lc (.ensureClusterDevice spec)),.ok id⟩ .cluster id
  | node {lc spec n gatewayID id} :
      Gives ⟨.inr (.losant lc (.ensureNodeDevice spec n gatewayID)),.ok id⟩ (.node n) id

/-- The readings of the clock, the last one first. -/
def readings : Past → List Time
  | [] => []
  | ⟨.inr (.now _),t⟩::h => t::readings h
  | _::h => readings h

def lastReading (h : Past) : Option Time := (readings h).head?

/-! ## The schedule -/

/-- The instant after `t` that the schedule of the spec names, if the schedule parses. -/
def nextAfter (lib : Externals) (spec : LosantSyncSpec) (t : Time) : Option Time :=
  if spec.cronSchedule ≠ "" then
    match lib.parseCron spec.cronSchedule with
    | .error _ => none
    | .ok next => some (next t)
  else (parseDuration spec.interval).map (fun d => ((t : ℤ)+d : ℤ))

/-- The schedule names an instant after `t`, and one that can be stored. For a cron expression that
no day satisfies, `Next` answers the zero time. -/
def Ticks (lib : Externals) (spec : LosantSyncSpec) (t : Time) : Prop :=
  ∃ next ∈ nextAfter lib spec t, Storable next

/-- The instant at which a job is to be resumed: the recorded one when it waits, otherwise the
one its schedule names after the reading it starts from. -/
def resumeAt (lib : Externals) (b : LosantSync) (v : View) : Option Time :=
  if v.waited then b.status.nextScheduledTime else v.scheduled.bind (nextAfter lib b.spec)

/-- That instant, if there is one, is later than the last reading of the clock. -/
def OnTime (lib : Externals) (b : LosantSync) (h : Past) : Prop :=
  ∀ t, resumeAt lib b (view h) = some t → ∀ u, lastReading h = some u → (u : ℤ) < t

section onTime
variable {lib : Externals} {b : LosantSync} {h : Past} {t u : Time} {v : View}

theorem resumeAt_unscheduled (hw : v.waited = false) (hs : v.scheduled = none) :
    resumeAt lib b v = none := by simp [resumeAt,hw,hs]

theorem resumeAt_scheduled (hw : v.waited = false) (hs : v.scheduled = some t) :
    resumeAt lib b v = nextAfter lib b.spec t := by simp [resumeAt,hw,hs]

theorem onTime_of_none (hr : resumeAt lib b (view h) = none) : OnTime lib b h := by
  intro t ht
  rw [hr] at ht
  cases ht

theorem onTime_iff (hr : resumeAt lib b (view h) = some t) (hu : lastReading h = some u) :
    OnTime lib b h ↔ (u : ℤ) < t := by
  constructor
  · exact fun ho => ho t hr u hu
  · intro hlt t' ht' u' hu'
    rw [hr] at ht'
    rw [hu] at hu'
    cases ht'
    cases hu'
    exact hlt

end onTime

def Returns (lib : Externals) (b : LosantSync) (h : Past) (r : Except String Result) : Prop :=
  b.metadata.deletionTimestamp = none → b.spec.suspend = false → ∀ res, r = .ok res →
    (res.AsksAgain ↔ OnTime lib b h)

/-! ## The calls -/

def credentialsRef (b : LosantSync) : NamespacedName :=
  ⟨b.spec.provisioningSecretRef.namespace_,geaCredentialsSecretName⟩

/-- The job works on a copy that is not being deleted and has the finalizer. -/
def Held (h : Past) (b : LosantSync) : Prop :=
  lastCopy h = some b ∧ b.metadata.deletionTimestamp = none ∧ finalizer ∈ b.metadata.finalizers

/-- The job works on a copy that is being deleted and still has the finalizer. -/
def Deleting (h : Past) (b : LosantSync) : Prop :=
  lastCopy h = some b ∧ b.metadata.deletionTimestamp.isSome ∧ finalizer ∈ b.metadata.finalizers

/-- A device the status records. -/
def Recorded (t : LosantSyncStatus) (id : String) : Prop :=
  (∃ n, t.nodeDevices.lookup n = some id) ∨ id = t.clusterDeviceID ∧ id ≠ ""

/-- The job was told that the device is gone. -/
def Deleted (h : Past) (app id : String) : Prop :=
  ∃ c : Losant.HTTPClient, (⟨.inr (.losant c (.deleteDevice app id)),.ok ()⟩ : Event interface) ∈ h

/-- The job created an access key and these are its data. -/
def KeyData (h : Past) (id : String) (data : GoMap String) : Prop :=
  ∃ (c : Losant.HTTPClient) (app name : String) (k : Losant.AccessKey),
    (⟨.inr (.losant c (.createDeviceAccessKey app id name)),.ok k⟩ : Event interface) ∈ h ∧
      data = credentialData id k

/-- The Secret is known to hold credentials for the cluster device. -/
def Provisioned (h : Past) (b : LosantSync) (id : String) : Prop :=
  (view h).cluster = some id ∧ ∃ data, (view h).secrets (credentialsRef b) = some data ∧
    (Complete data id ∨ KeyData h id data)

/-- What a sync has done to a status `t` since it was read with `b`. -/
structure Kept (h : Past) (b : LosantSync) (t : LosantSyncStatus) : Prop where
  cluster : t.clusterDeviceID = (view h).cluster.getD b.status.clusterDeviceID
  nodes : t.nodeDevices = (view h).nodeDevices b.status.nodeDevices
  boot : HasStatus b.status.conditions .geaBootstrapped .true →
    HasStatus t.conditions .geaBootstrapped .true
  booted : HasStatus t.conditions .geaBootstrapped .true →
    HasStatus b.status.conditions .geaBootstrapped .true ∨ Provisioned h b t.clusterDeviceID

/-- The gateway took the state of the cluster, and every node of the snapshot has a device. -/
def Reported (h : Past) (t : LosantSyncStatus) : Prop :=
  ∃ cluster nodes gc,
    (⟨.inr .healthSnapshot,(cluster,nodes)⟩ : Event interface) ∈ h ∧
    (⟨.inr (.reportState gc ⟨t.clusterDeviceID,clusterAttributes cluster⟩),.ok ()⟩ :
      Event interface) ∈ h ∧ ∀ n ∈ nodes, n ∈ t.nodeDevices

/-- The statuses a job may write from the copy `b`. -/
inductive StatusWrite (h : Past) (b : LosantSync) : LosantSyncStatus → Prop
  | suspended (asked : b.spec.suspend = true) :
      StatusWrite h b { b.status with phase := .suspended }
  | first (t : Time) (unset : b.status.phase = .unset) :
      StatusWrite h b { b.status with phase := .provisioning, nextScheduledTime := some t }
  | degraded {t} (phase : t.phase = .degraded) (kept : Kept h b t)
      (failed : HasStatus t.conditions .lastSyncSucceeded .false)
      (lastSync : t.lastSyncTime = b.status.lastSyncTime) : StatusWrite h b t
  | active {t} (phase : t.phase = .active) (kept : Kept h b t)
      (conditions : ∀ ty, ty ≠ .workflowDeployed → HasStatus t.conditions ty .true)
      (reported : Reported h t) : StatusWrite h b t

namespace StatusWrite
variable {h : Past} {b : LosantSync} {t : LosantSyncStatus}

theorem of_active (hw : StatusWrite h b t) (hp : t.phase = .active) :
    (∀ ty, ty ≠ .workflowDeployed → HasStatus t.conditions ty .true) ∧
      Reported h t := by
  cases hw with
  | suspended => cases hp
  | first => cases hp
  | degraded hd => rw [hd] at hp; cases hp
  | active _ _ hc hr => exact ⟨hc,hr⟩

theorem of_degraded (hw : StatusWrite h b t) (hp : t.phase = .degraded) :
    HasStatus t.conditions .lastSyncSucceeded .false := by
  cases hw with
  | suspended => cases hp
  | first => cases hp
  | degraded _ _ hf => exact hf
  | active ha => rw [ha] at hp; cases hp

theorem boot (hw : StatusWrite h b t) (hb : HasStatus b.status.conditions .geaBootstrapped .true) :
    HasStatus t.conditions .geaBootstrapped .true := by
  cases hw with
  | suspended | first => exact hb
  | degraded _ hk => exact hk.boot hb
  | active _ hk => exact hk.boot hb

theorem lastSync (hw : StatusWrite h b t) :
    t.lastSyncTime = b.status.lastSyncTime ∨ t.phase = .active := by
  cases hw with
  | suspended | first => exact .inl rfl
  | degraded _ _ _ hl => exact .inl hl
  | active hp => exact .inr hp

end StatusWrite

/-- The finalizer is added to a copy that is not being deleted. -/
def Attaches (b o : LosantSync) : Prop :=
  b.metadata.deletionTimestamp = none ∧ finalizer ∉ b.metadata.finalizers ∧
    o = { b with metadata := { b.metadata with
      finalizers := b.metadata.finalizers ++ [finalizer] } }

/-- The finalizer is removed once every recorded device is gone. -/
def Releases (h : Past) (b o : LosantSync) : Prop :=
  Deleting h b ∧ (∀ id, Recorded b.status id → Deleted h b.spec.applicationID id) ∧
    o = { b with metadata := { b.metadata with
      finalizers := b.metadata.finalizers.filter (· ≠ finalizer) } }

/-- The requests to Losant that change something there. -/
def Asks (h : Past) : Losant.Method → Prop
  | .ensureClusterDevice spec => ∃ b, Held h b ∧ spec = b.spec ∧ (view h).cluster = none
  | .ensureNodeDevice spec _ _ => ∃ b, Held h b ∧ spec = b.spec
  | .createDeviceAccessKey app id _ =>
    ∃ b, Held h b ∧ app = b.spec.applicationID ∧ (view h).cluster = some id
  | .deleteDevice app id => ∃ b, Deleting h b ∧ app = b.spec.applicationID ∧ Recorded b.status id
  | _ => True

/-- A Secret is created or rewritten only under the name of the credentials, with the data of a
new key for the cluster device or, when created, with empty ones. -/
def Stores (h : Past) (s : Secret) : Prop :=
  ∃ b, Held h b ∧ s.namespacedName = credentialsRef b ∧
    ∃ id, (view h).cluster = some id ∧ KeyData h id s.data

def Permits (h : Past) : interface.Call → Prop
  | .inr (.now _) => True
  | .inl .get => h = []
  | .inl (.update o) =>
    (view h).ended = false ∧ ∃ b, lastCopy h = some b ∧ (Attaches b o ∨ Releases h b o)
  | .inl (.updateStatus o) =>
    (view h).ended = false ∧ ∃ b, Held h b ∧ o.metadata = b.metadata ∧ o.spec = b.spec ∧
      StatusWrite h b o.status
  | .inr (.losant _ m) => (view h).ended = false ∧ Asks h m
  | .inr (.createSecret s) => (view h).ended = false ∧ (Stores h s ∨ s.data = placeholderData)
  | .inr (.updateSecret s) => (view h).ended = false ∧ Stores h s
  | .inr _ => (view h).ended = false

theorem Permits.disciplined (h : Past) (e : interface.Call) (hp : Permits h e) :
    Disciplined h e := by
  match e with
  | .inl .get => trivial
  | .inl (.update o) =>
    obtain ⟨-,b,hb,⟨-,-,rfl⟩ | ⟨-,-,rfl⟩⟩ := hp
    · exact ⟨b,hb,rfl,rfl⟩
    · exact ⟨b,hb,rfl,rfl⟩
  | .inl (.updateStatus o) =>
    obtain ⟨-,b,hb,hm,hs,-⟩ := hp
    exact ⟨b,hb.1,hm,hs⟩
  | .inr _ => trivial

/-! ## The copy in memory -/

/-- What holds of the object `ls` in memory while a sync is under way. -/
structure Mem (h : Past) (b ls : LosantSync) : Prop where
  held : Held h b
  running : b.spec.suspend = false
  metadata : ls.metadata = b.metadata
  spec : ls.spec = b.spec
  kept : Kept h b ls.status
  lastSync : ls.status.lastSyncTime = b.status.lastSyncTime
  waited : (view h).waited = false
  scheduled : (view h).scheduled = none
  ended : (view h).ended = false

variable {lib : Externals} {h : Past} {b ls : LosantSync}

theorem KeyData.later {h' : Past} {id : String} {data : GoMap String} (hk : KeyData h id data)
    (hs : h <:+ h') : KeyData h' id data := by
  obtain ⟨c,app,name,k,hm,hd⟩ := hk
  exact ⟨c,app,name,k,hs.subset hm,hd⟩

theorem Provisioned.later {h' : Past} {id : String} (hp : Provisioned h b id) (hs : h <:+ h')
    (hc : (view h').cluster = (view h).cluster) (hv : (view h').secrets = (view h).secrets) :
    Provisioned h' b id := by
  obtain ⟨hid,data,hd,hcomp | hk⟩ := hp
  · exact ⟨hc.trans hid,data,hv ▸ hd,.inl hcomp⟩
  · exact ⟨hc.trans hid,data,hv ▸ hd,.inr (hk.later hs)⟩

theorem Kept.later {h' : Past} {t : LosantSyncStatus} (hk : Kept h b t) (hs : h <:+ h')
    (hc : (view h').cluster = (view h).cluster) (hn : (view h').nodes = (view h).nodes)
    (hv : (view h').secrets = (view h).secrets) : Kept h' b t where
  cluster := hc ▸ hk.cluster
  nodes := by
    rw [hk.nodes]
    unfold View.nodeDevices
    rw [hn]
  boot := hk.boot
  booted ht := (hk.booted ht).imp id (fun hp => hp.later hs hc hv)

/-- A call that says nothing about the fields of the view. -/
theorem Mem.quiet (hm : Mem h b ls) {e : Event interface} (hc : lastCopy (e::h) = lastCopy h)
    (hv : view (e::h) = view h) : Mem (e::h) b ls where
  held := ⟨hc.trans hm.held.1,hm.held.2⟩
  running := hm.running
  metadata := hm.metadata
  spec := hm.spec
  kept := hm.kept.later (List.suffix_cons e h) (by rw [hv]) (by rw [hv]) (by rw [hv])
  lastSync := hm.lastSync
  waited := hv ▸ hm.waited
  scheduled := hv ▸ hm.scheduled
  ended := hv ▸ hm.ended

/-- Before the bootstrap is recorded the Secret may be read and written. -/
theorem Mem.know (hm : Mem h b ls) {e : Event interface} {ref : NamespacedName}
    {data : GoMap String} (hn : ¬HasStatus ls.status.conditions .geaBootstrapped .true)
    (hc : lastCopy (e::h) = lastCopy h) (hv : view (e::h) = (view h).know ref data) :
    Mem (e::h) b ls where
  held := ⟨hc.trans hm.held.1,hm.held.2⟩
  running := hm.running
  metadata := hm.metadata
  spec := hm.spec
  kept :=
    { cluster := by rw [hv]; exact hm.kept.cluster
      nodes := by rw [hv]; exact hm.kept.nodes
      boot := hm.kept.boot
      booted := fun ht => absurd ht hn }
  lastSync := hm.lastSync
  waited := by rw [hv]; exact hm.waited
  scheduled := by rw [hv]; exact hm.scheduled
  ended := by rw [hv]; exact hm.ended

theorem Mem.phase (hm : Mem h b ls) (p : LosantSyncPhase) :
    Mem h b { ls with status := { ls.status with phase := p } } :=
  ⟨hm.held,hm.running,hm.metadata,hm.spec,
    ⟨hm.kept.cluster,hm.kept.nodes,hm.kept.boot,hm.kept.booted⟩,
    hm.lastSync,hm.waited,hm.scheduled,hm.ended⟩

section condition
variable {t : Time} {ty ty' : SyncCondition} {v w : ConditionStatus} {reason message : String}

theorem hasStatus_withCondition :
    HasStatus (withCondition lib t ls ty v reason message).status.conditions ty v :=
  lib.conditions.hasStatus_set t ls.status.conditions _

theorem hasStatus_withCondition_of_ne (hne : ty' ≠ ty) :
    HasStatus (withCondition lib t ls ty v reason message).status.conditions ty' w ↔
      HasStatus ls.status.conditions ty' w :=
  lib.conditions.hasStatus_set_of_ne t ls.status.conditions _ hne

/-- Setting a condition keeps what is known, if it is right about the bootstrap. -/
theorem Kept.condition (hk : Kept h b ls.status)
    (hboot : HasStatus b.status.conditions .geaBootstrapped .true →
      HasStatus (withCondition lib t ls ty v reason message).status.conditions
        .geaBootstrapped .true)
    (hbooted : HasStatus (withCondition lib t ls ty v reason message).status.conditions
        .geaBootstrapped .true →
      HasStatus b.status.conditions .geaBootstrapped .true ∨
        Provisioned h b ls.status.clusterDeviceID) :
    Kept h b (withCondition lib t ls ty v reason message).status :=
  ⟨hk.cluster,hk.nodes,hboot,hbooted⟩

theorem Kept.condition_of_ne (hk : Kept h b ls.status) (hne : ty ≠ .geaBootstrapped) :
    Kept h b (withCondition lib t ls ty v reason message).status :=
  hk.condition (fun hb => (hasStatus_withCondition_of_ne hne.symm).mpr (hk.boot hb))
    (fun ht => hk.booted ((hasStatus_withCondition_of_ne hne.symm).mp ht))

theorem Mem.withKept (hm : Mem h b ls)
    (hk : Kept h b (withCondition lib t ls ty v reason message).status) :
    Mem (⟨.inr (.now .transition),t⟩::h) b (withCondition lib t ls ty v reason message) := by
  have hq : Mem (⟨.inr (.now .transition),t⟩::h) b ls := hm.quiet rfl rfl
  exact ⟨hq.held,hq.running,hq.metadata,hq.spec,hk.later (List.suffix_cons _ _) rfl rfl rfl,
    hq.lastSync,hq.waited,hq.scheduled,hq.ended⟩

theorem Mem.condition_of_ne (hm : Mem h b ls) (hne : ty ≠ .geaBootstrapped) :
    Mem (⟨.inr (.now .transition),t⟩::h) b (withCondition lib t ls ty v reason message) :=
  hm.withKept (hm.kept.condition_of_ne hne)

theorem Mem.condition_false (hm : Mem h b ls)
    (hty : ty = .geaBootstrapped → ¬HasStatus b.status.conditions .geaBootstrapped .true) :
    Mem (⟨.inr (.now .transition),t⟩::h) b (withCondition lib t ls ty .false reason message) := by
  by_cases he : ty = .geaBootstrapped
  · subst he
    refine hm.withKept (hm.kept.condition (fun hb => absurd hb (hty rfl)) (fun ht => ?_))
    exact absurd (ht.unique hasStatus_withCondition) (by decide)
  · exact hm.condition_of_ne he

theorem Mem.condition_bootstrapped (hm : Mem h b ls)
    (hp : Provisioned h b ls.status.clusterDeviceID) :
    Mem (⟨.inr (.now .transition),t⟩::h) b
      (withCondition lib t ls .geaBootstrapped .true reason message) :=
  hm.withKept (hm.kept.condition (fun _ => hasStatus_withCondition) (fun _ => .inr hp))

end condition

end LosantDevice.Sync
