import LosantDevice.Kube.Conditions
import LosantDevice.Monitor.Store

/-!
# The two custom resources

Their fields, the form in which a status is stored, and the statuses the definitions of the
resources admit. A time is stored with a resolution of one second. A zero time is written as null,
and the API server takes a null out again, so it is stored as no value.
-/
namespace LosantDevice
open Kube

structure SecretRef where
  name : String
  namespace_ : String
  deriving DecidableEq

def SecretRef.namespacedName (r : SecretRef) : NamespacedName := ⟨r.namespace_,r.name⟩

/-- What the API server keeps under the name of a Secret; the values are byte strings in the
source. -/
structure StoredSecret where
  resourceVersion : ℕ := 0
  data : GoMap String
  deriving DecidableEq

/-- A Secret in memory, with its name. -/
structure Secret extends StoredSecret where
  namespace_ : String
  name : String
  deriving DecidableEq

def Secret.namespacedName (s : Secret) : NamespacedName := ⟨s.namespace_,s.name⟩

/-- `secret.Data[key]`; a missing key reads as empty. -/
def valueOf (data : GoMap String) (key : String) : String := (data.lookup key).getD ""

/-- The functions of other packages the two controllers compute with: `%q` of the formatter, the
text of a duration that does not parse, a time in the format of RFC 3339, the cron parser with
what its schedules answer, the PEM reader, and the setter of conditions. -/
structure Externals where
  quote : String → String
  durationError : String → String
  rfc3339 : Time → String
  parseCron : String → Except String (Time → Time)
  appendCertsFromPEM : String → Bool
  conditions : ConditionSetter

/-- An instance that promises no more than it has to: no cron expression parses. -/
def Externals.plain : Externals where
  quote s := "\"" ++ s ++ "\""
  durationError s := "time: invalid duration \"" ++ s ++ "\""
  rfc3339 t := toString t
  parseCron _ := .error "unsupported"
  appendCertsFromPEM s := s ≠ ""
  conditions := .standard

/-- Every full hour. -/
def hourly (t : Time) : Time := (t/(3600*Go.second)+1)*(3600*Go.second)

/-- With two cron expressions: one of every full hour, and one of the thirtieth of February. -/
def Externals.cron : Externals := { Externals.plain with
  parseCron := fun s =>
    if s = "0 * * * *" then .ok hourly
    else if s = "0 0 30 2 *" then .ok fun _ => Go.zeroTime
    else .error "unsupported" }

/-- The stored form of a time: whole seconds. The zero time is sent as null, which the server
prunes, so nothing is stored for it; a time within its second is counted as zero here. -/
def storedTime (t : Option Time) : Option Time :=
  (t.map Go.truncateSecond).filter (· ≠ Go.zeroTime)

/-- The time is stored as a value. -/
def Storable (t : Time) : Prop := Go.truncateSecond t ≠ Go.zeroTime

instance : DecidablePred Storable := fun t => by
  unfold Storable
  infer_instance

theorem storedTime_some {t : Time} (h : Storable t) :
    storedTime (some t) = some (Go.truncateSecond t) := by
  simpa [storedTime,Option.filter,Storable] using h

theorem storedTime_eq_none {t : Time} (h : ¬Storable t) : storedTime (some t) = none := by
  simpa [storedTime,Option.filter,Storable] using h

theorem storedTime_eq_some {t : Option Time} {u : Time} (h : storedTime t = some u) :
    Go.truncateSecond u = u ∧ Storable u := by
  obtain ⟨ht,hu⟩ := Option.filter_eq_some_iff.mp h
  obtain ⟨s,-,rfl⟩ := Option.map_eq_some_iff.mp ht
  unfold Storable
  rw [Go.truncateSecond_truncateSecond]
  exact ⟨rfl,of_decide_eq_true hu⟩

theorem eq_of_mem_storedTime {t u : Time} (h : u ∈ storedTime (some t)) :
    u = Go.truncateSecond t := by
  obtain ⟨ht,-⟩ := Option.filter_eq_some_iff.mp h
  exact (Option.some.inj ht).symm

@[simp] theorem storedTime_storedTime (t : Option Time) :
    storedTime (storedTime t) = storedTime t := by
  cases h : storedTime t with
  | none => rfl
  | some u =>
    obtain ⟨hwhole,hs⟩ := storedTime_eq_some h
    rw [storedTime_some hs,hwhole]

theorem isSome_storedTime_iff {t : Option Time} :
    (storedTime t).isSome ↔ ∃ u ∈ t, Storable u := by
  cases t with
  | none => simp [storedTime]
  | some u =>
    by_cases hu : Storable u
    · simp [storedTime_some hu,hu]
    · simp [storedTime_eq_none hu,hu]

theorem isSome_storedTime {t : Option Time} (h : ∀ u ∈ t, Storable u) :
    (storedTime t).isSome = t.isSome := by
  cases t with
  | none => rfl
  | some u =>
    rw [storedTime_some (h u rfl)]
    rfl

structure WorkflowDeployment where
  flowID : String
  version : String
  deriving DecidableEq

structure ClusterTags where
  manager : String := ""
  uid : String := ""
  gps : String := ""
  deriving DecidableEq

structure GEASpec where
  serviceRef : String
  port : ℕ
  deploymentRef : String := ""
  deriving DecidableEq

structure LosantSyncSpec where
  applicationID : String
  provisioningSecretRef : SecretRef
  clusterName : String
  region : String
  rancherURL : String := ""
  cronSchedule : String := ""
  interval : String := ""
  gea : GEASpec
  deviceRecipeID : String := ""
  workflowDeployments : List WorkflowDeployment := []
  tags : ClusterTags := {}
  suspend : Bool := false
  deriving DecidableEq

/-- `unset` is the empty string of a status that was never written. -/
inductive LosantSyncPhase
  | unset
  | provisioning
  | active
  | degraded
  | suspended
  deriving DecidableEq, Repr

inductive SyncCondition
  | geaBootstrapped
  | devicesProvisioned
  | workflowDeployed
  | geaReachable
  | lastSyncSucceeded
  deriving DecidableEq, Repr

structure LosantSyncStatus where
  phase : LosantSyncPhase := .unset
  conditions : List (Condition SyncCondition) := []
  clusterDeviceID : String := ""
  nodeDevices : GoMap String := ∅
  lastSyncTime : Option Time := none
  nextScheduledTime : Option Time := none
  deriving DecidableEq

def LosantSyncStatus.encode (s : LosantSyncStatus) : LosantSyncStatus :=
  { s with
    conditions := s.conditions.map Condition.encode
    lastSyncTime := storedTime s.lastSyncTime
    nextScheduledTime := storedTime s.nextScheduledTime }

def LosantSyncStatus.Admitted (s : LosantSyncStatus) : Prop := ∀ c ∈ s.conditions, c.Admitted

instance : DecidablePred LosantSyncStatus.Admitted := fun s => by
  unfold LosantSyncStatus.Admitted
  infer_instance

/-- The kind of `LosantSync`. -/
def losantSync : Kind where
  Spec := LosantSyncSpec
  Status := LosantSyncStatus
  initial := {}
  encode := LosantSyncStatus.encode
  admits := LosantSyncStatus.Admitted
  encode_initial := rfl
  encode_encode t := by simp [LosantSyncStatus.encode,Function.comp_def]

abbrev LosantSync := losantSync.Object

structure RancherSessionSpec where
  credentialsSecretRef : SecretRef
  clusterDisplayName : String := ""
  ttlSeconds : ℤ := 3600
  suspend : Bool := false
  deriving DecidableEq

inductive RancherSessionPhase
  | unset
  | connecting
  | connected
  | disconnecting
  | disconnected
  | failed
  deriving DecidableEq, Repr

inductive SessionCondition
  | rancherAPIReachable
  deriving DecidableEq, Repr

structure RancherSessionStatus where
  phase : RancherSessionPhase := .unset
  rancherClusterID : String := ""
  manifestApplied : Bool := false
  connectedAt : Option Time := none
  expiresAt : Option Time := none
  conditions : List (Condition SessionCondition) := []
  lastTransitionMessage : String := ""
  deriving DecidableEq

def RancherSessionStatus.encode (s : RancherSessionStatus) : RancherSessionStatus :=
  { s with
    connectedAt := storedTime s.connectedAt
    expiresAt := storedTime s.expiresAt
    conditions := s.conditions.map Condition.encode }

/-- The times of a session are readings of the clock and such readings plus a `time.Duration`, so
none of them is the zero time; a status with one is left out here. -/
def RancherSessionStatus.Admitted (s : RancherSessionStatus) : Prop :=
  (∀ t ∈ s.connectedAt, Storable t) ∧ (∀ t ∈ s.expiresAt, Storable t) ∧
    ∀ c ∈ s.conditions, c.Admitted

instance : DecidablePred RancherSessionStatus.Admitted := fun s => by
  unfold RancherSessionStatus.Admitted
  infer_instance

/-- The kind of `RancherSession`. -/
def rancherSession : Kind where
  Spec := RancherSessionSpec
  Status := RancherSessionStatus
  initial := {}
  encode := RancherSessionStatus.encode
  admits := RancherSessionStatus.Admitted
  encode_initial := rfl
  encode_encode t := by simp [RancherSessionStatus.encode,Function.comp_def]

abbrev RancherSession := rancherSession.Object

end LosantDevice
