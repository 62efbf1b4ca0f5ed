import LosantDevice.Monitor.Score
import LosantDevice.Kube.Conditions

/-!
# The collectors

The functions of `internal/monitor` that read nodes, pods, volume claims, events and the CoreDNS
deployment, with the fields they read. A quantity is a float in the source; here it is a rational
number, and a resource that is not listed is zero.
-/
namespace LosantDevice.Monitor
open Kube Go

/-! ## Nodes -/

inductive NodeConditionType
  | ready
  | memoryPressure
  | diskPressure
  | pidPressure
  | other (name : String)
  deriving DecidableEq

structure NodeCondition where
  type : NodeConditionType
  status : ConditionStatus
  deriving DecidableEq

structure ResourceList where
  cpu : ℚ := 0
  memory : ℚ := 0
  deriving DecidableEq

structure Node where
  name : String
  conditions : List NodeCondition := []
  allocatable : ResourceList := {}
  capacity : ResourceList := {}
  deriving DecidableEq

/-- A proxy for the part of a resource that is requested. -/
def requestPct (allocatable capacity : ℚ) : ℚ :=
  if capacity = 0 then 0
  else
    let pct := (1-allocatable/capacity)*100
    if pct < 0 then 0 else pct

/-- The body of the loop over the conditions; a later condition of a type overrules an earlier. -/
def NodeHealth.withNodeCondition (h : NodeHealth) (cond : NodeCondition) : NodeHealth :=
  match cond.type with
  | .ready => { h with ready := cond.status = .true }
  | .memoryPressure => { h with memoryPressure := cond.status = .true }
  | .diskPressure => { h with diskPressure := cond.status = .true }
  | .pidPressure => { h with pidPressure := cond.status = .true }
  | .other _ => h

def collectNodeHealth (node : Node) : NodeHealth :=
  let h : NodeHealth :=
    { name := node.name, ready := false, memoryPressure := false, diskPressure := false
      pidPressure := false, cpuRequestPct := 0, memRequestPct := 0, podCount := 0
      notReadyPods := 0, crashLoopPods := 0, healthScore := 0, healthStatus := "" }
  let h := node.conditions.foldl NodeHealth.withNodeCondition h
  let h := { h with
    cpuRequestPct := requestPct node.allocatable.cpu node.capacity.cpu
    memRequestPct := requestPct node.allocatable.memory node.capacity.memory }
  { h with
    healthScore := computeNodeHealthScore h
    healthStatus := healthStatusFromScore (computeNodeHealthScore h) }

/-! ## Pods -/

inductive PodPhase
  | unset
  | pending
  | running
  | succeeded
  | failed
  | unknown
  deriving DecidableEq

/-- The reason for which a container waits, if it does. -/
structure ContainerStatus where
  waiting : Option String := none
  deriving DecidableEq

inductive PodConditionType
  | ready
  | other (name : String)
  deriving DecidableEq

structure PodCondition where
  type : PodConditionType
  status : ConditionStatus
  deriving DecidableEq

/-- A pod that is not scheduled has no node name. -/
structure Pod where
  nodeName : String := ""
  phase : PodPhase
  containerStatuses : List ContainerStatus := []
  conditions : List PodCondition := []
  deriving DecidableEq

def isCrashLooping (p : Pod) : Bool :=
  p.containerStatuses.any (fun cs => cs.waiting = some "CrashLoopBackOff")

def isPodReady (p : Pod) : Bool :=
  match p.conditions.find? (fun cond => cond.type = .ready) with
  | some cond => cond.status = .true
  | none => false

@[ext]
structure PodCounts where
  total : ℤ := 0
  running : ℤ := 0
  failed : ℤ := 0
  pending : ℤ := 0
  crashLoop : ℤ := 0
  notReady : ℤ := 0
  deriving DecidableEq

/-- What the loop over the pods does to the counts of the node and of the cluster alike. -/
def PodCounts.count (c : PodCounts) (p : Pod) : PodCounts :=
  let c := { c with total := c.total+1 }
  let c := match p.phase with
    | .running => { c with running := c.running+1 }
    | .failed => { c with failed := c.failed+1 }
    | .pending => { c with pending := c.pending+1 }
    | _ => c
  if isCrashLooping p then { c with crashLoop := c.crashLoop+1 } else c

/-- What it does to the counts of the node besides. -/
def PodCounts.countNotReady (c : PodCounts) (p : Pod) : PodCounts :=
  if !isPodReady p ∧ p.phase = .running then { c with notReady := c.notReady+1 } else c

/-- The body of the loop over the pods. -/
def collectPod (counts : GoMap PodCounts × PodCounts) (p : Pod) : GoMap PodCounts × PodCounts :=
  let nc := (counts.1.lookup p.nodeName).getD {}
  (counts.1.insert p.nodeName ((nc.count p).countNotReady p),counts.2.count p)

def collectPodCounts (pods : List Pod) : GoMap PodCounts × PodCounts :=
  pods.foldl collectPod (∅,{})

/-! ## Volume claims, events and CoreDNS -/

inductive ClaimPhase
  | unset
  | pending
  | bound
  | lost
  deriving DecidableEq

structure PersistentVolumeClaim where
  phase : ClaimPhase
  deriving DecidableEq

def countDegradedPVCs (pvcs : List PersistentVolumeClaim) : ℤ :=
  pvcs.foldl (fun count pvc => if pvc.phase ≠ .bound then count+1 else count) 0

theorem countDegradedPVCs_eq (pvcs : List PersistentVolumeClaim) :
    countDegradedPVCs pvcs = (pvcs.countP (fun pvc => pvc.phase ≠ .bound) : ℕ) := by
  unfold countDegradedPVCs
  rw [List.foldl_eq_countP (fun n => n) (fun b a => ?_)]
  · exact zero_add _
  · by_cases ha : a.phase = .bound <;> simp [ha]

inductive EventType
  | normal
  | warning
  | other (name : String)
  deriving DecidableEq

/-- An event of the core API; a time that is not set is the zero time. -/
structure CoreEvent where
  type : EventType
  lastTimestamp : Time := zeroTime
  eventTime : Time := zeroTime
  deriving DecidableEq

def warningWindow : Duration := 60*minute

/-- `CountRecentWarnings`, read when the clock shows `now`. -/
def countRecentWarnings (now : Time) (events : List CoreEvent) : ℤ :=
  let cutoff : ℤ := (now : ℤ)-warningWindow
  events.foldl (fun count ev =>
    if ev.type ≠ .warning then count
    else
      let ts : ℤ := if ev.lastTimestamp = zeroTime then ev.eventTime else ev.lastTimestamp
      if cutoff < ts then count+1 else count) 0

/-- The time that counts for an event. -/
def CoreEvent.lastSeen (ev : CoreEvent) : ℤ :=
  if ev.lastTimestamp = zeroTime then ev.eventTime else ev.lastTimestamp

def isRecentWarning (now : Time) (ev : CoreEvent) : Bool :=
  ev.type = .warning ∧ (now : ℤ)-warningWindow < ev.lastSeen

theorem countRecentWarnings_eq (now : Time) (events : List CoreEvent) :
    countRecentWarnings now events = (events.countP (isRecentWarning now) : ℕ) := by
  unfold countRecentWarnings
  dsimp only
  rw [List.foldl_eq_countP (fun n => n) (fun b a => ?_)]
  · exact zero_add _
  · change (if a.type ≠ .warning then b else
      if (now : ℤ)-warningWindow < a.lastSeen then b+1 else b) = _
    by_cases ha : a.type = .warning
    · by_cases hrecent : (now : ℤ)-warningWindow < a.lastSeen <;>
        simp [isRecentWarning,ha,hrecent]
    · simp [isRecentWarning,ha]

/-- Warnings drop out of the count with time, and none come in. -/
theorem countRecentWarnings_le {t t' : Time} (hle : t ≤ t') (events : List CoreEvent) :
    countRecentWarnings t' events ≤ countRecentWarnings t events := by
  rw [countRecentWarnings_eq,countRecentWarnings_eq]
  refine Int.ofNat_le.mpr (List.countP_mono_left fun ev _ hev => ?_)
  simp only [isRecentWarning,decide_eq_true_eq] at hev ⊢
  exact ⟨hev.1,lt_of_le_of_lt (sub_le_sub_right hle _) hev.2⟩

structure Deployment where
  availableReplicas : ℤ
  deriving DecidableEq

def isCoreDNSHealthy : Option Deployment → Bool
  | none => false
  | some deploy => 0 < deploy.availableReplicas

end LosantDevice.Monitor
