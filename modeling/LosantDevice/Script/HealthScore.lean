import Mathlib.Algebra.GroupWithZero.Nat
import LosantDevice.Monitor.Collect

/-!
# The debug script

`scripts/health-score.sh` on the state of a cluster, with `kubectl` answering. It prints a line for
each object, and in a cell of it the values of a path joined by commas. Names have no blanks in
them, so a cell is a field of `awk`; the reasons of waiting containers may be cut at a blank, and
the reason and the message of an event may have any number of words and lines. What the script
merely shows is left out but for the warnings: it pipes them into `head`, and under `pipefail` it
ends there if `head` is gone before all of them are written. No count is large enough for its
arithmetic to overflow.
-/
namespace LosantDevice.Script
open Kube Monitor

/-- A pod with what selects it. -/
structure PodObject extends Pod where
  namespace_ : String
  labels : GoMap String := ∅

/-- An event with what is shown of it. -/
structure EventObject extends CoreEvent where
  namespace_ : String := "default"
  reason : String := ""
  message : String := ""

/-- The objects of a cluster. There is one node of a name, and lists fit into memory. -/
structure ClusterState where
  nodes : List Node
  pods : List PodObject
  pvcs : List PersistentVolumeClaim
  events : List EventObject
  coreDNS : Option Deployment
  distinct : (nodes.map Node.name).Nodup
  fits : pods.length < 2^62 ∧ pvcs.length < 2^62 ∧ events.length < 2^62

/-! ## What `kubectl` and `awk` make of an object -/

def cell (values : List String) : String :=
  if values = [] then "<none>" else ",".intercalate values

/-- What separates the fields of a line; a vertical tab ends a cell too. -/
def isBlank (c : Char) : Bool := c = ' ' || c = '\t' || c = '\x0b'

def isBreak (c : Char) : Bool := c = '\n' || c = '\x0c'

/-- The field of `awk` in the last cell of a line. -/
def field (s : String) : String :=
  String.ofList ((s.toList.dropWhile isBlank).takeWhile (fun c => !isBlank c))

def statusText : ConditionStatus → String
  | .true => "True"
  | .false => "False"
  | .unknown => "Unknown"

/-- The statuses of the conditions of a type. -/
def statuses (ty : NodeConditionType) (x : Node) : List ConditionStatus :=
  (x.conditions.filter (fun cond => cond.type = ty)).map NodeCondition.status

def readyStatuses (p : Pod) : List ConditionStatus :=
  (p.conditions.filter (fun cond => cond.type = .ready)).map PodCondition.status

/-- An empty reason is not sent at all. -/
def reasons (p : Pod) : List String :=
  (p.containerStatuses.filterMap ContainerStatus.waiting).filter (· ≠ "")

def phaseValue : ClaimPhase → List String
  | .unset => []
  | .pending => ["Pending"]
  | .bound => ["Bound"]
  | .lost => ["Lost"]

/-! ## The warnings it shows -/

/-- A text that is not set is not sent. -/
def shown (s : String) : String := cell (if s = "" then [] else [s])

def typeText : EventType → String
  | .normal => "Normal"
  | .warning => "Warning"
  | .other name => shown name

/-- The cells of an event; its time is one word, and `awk` prints no word behind the message. -/
def EventObject.row (ev : EventObject) : String :=
  ev.namespace_ ++ " " ++ shown ev.reason ++ " " ++ shown ev.message ++ " <time> " ++
    typeText ev.type

def fields (line : List Char) : List String :=
  ((line.splitOnP isBlank).filter (· ≠ [])).map String.ofList

/-- What `awk` prints of a line: the type is the fifth field only if the message is one word. -/
def warnLine : List String → Option String
  | a::b::c::_::type::_ =>
    if type = "Warning" then some ("  " ++ a ++ " " ++ b ++ ": " ++ c) else none
  | _ => none

def EventObject.warnLines (ev : EventObject) : List String :=
  (ev.row.toList.splitOnP isBreak).filterMap fun line => warnLine (fields line)

/-! ## Counts -/

structure NodeCounts where
  nodeCount : ℤ := 0
  nodeNotReady : ℤ := 0
  memPressure : ℤ := 0
  diskPressure : ℤ := 0
  pidPressure : ℤ := 0

/-- The body of the loop over the lines of the nodes. -/
def NodeCounts.read (n : NodeCounts) (x : Node) : NodeCounts :=
  let column := fun ty => cell ((statuses ty x).map statusText)
  let n := { n with nodeCount := n.nodeCount+1 }
  let n := if column .ready ≠ "True" then { n with nodeNotReady := n.nodeNotReady+1 } else n
  let n := if column .memoryPressure = "True" then { n with memPressure := n.memPressure+1 } else n
  let n := if column .diskPressure = "True" then { n with diskPressure := n.diskPressure+1 } else n
  if column .pidPressure = "True" then { n with pidPressure := n.pidPressure+1 } else n

namespace ClusterState
variable (c : ClusterState)

def nodeCounts : NodeCounts := c.nodes.foldl NodeCounts.read {}

def crashLoopPods : ℤ :=
  (c.pods.filter fun p => field (cell (reasons p.toPod)) = "CrashLoopBackOff").length

def failedPods : ℤ := (c.pods.filter fun p => p.phase = .failed).length

-- The cutoff is computed and not used: every warning is counted.
def eventWarnings : ℤ := (c.events.filter fun ev => ev.type = .warning).length

def coreDNSPods : List PodObject :=
  c.pods.filter fun p => p.namespace_ = "kube-system" ∧ p.labels.lookup "k8s-app" = some "kube-dns"

def coreDNSHealthy : Bool :=
  if c.coreDNSPods = [] then false
  else
    let notReady := c.coreDNSPods.filter fun p =>
      cell ((readyStatuses p.toPod).map statusText) ≠ "True"
    if 0 < notReady.length then false else true

def degradedPVCs : ℤ := (c.pvcs.filter fun pvc => cell (phaseValue pvc.phase) ≠ "Bound").length

/-- `WARN_LIST`, line by line. -/
def warnList : List String := c.events.flatMap EventObject.warnLines

/-- The bytes that `echo` writes. -/
def warnBytes : ℕ := (c.warnList.map fun line => line.utf8ByteSize+1).sum

/-- The script ends at `echo "$WARN_LIST" | head -20`, when `head` has its lines and `echo` more to
write than the `pipe` bytes that it has got rid of by then. -/
def Cut (pipe : ℕ) : Prop := 20 < c.warnList.length ∧ pipe < c.warnBytes

instance (pipe : ℕ) : Decidable (c.Cut pipe) := by unfold Cut; infer_instance

/-- The score and the status. -/
def score : ℤ × String :=
  let n := c.nodeCounts
  let score :=
    if 0 < n.nodeCount then
      100-(n.nodeNotReady*20+n.memPressure*10+n.diskPressure*10+n.pidPressure*5).tdiv n.nodeCount
    else 100
  let score := score-atMost 20 (c.crashLoopPods*2)
  let score := score-atMost 10 c.failedPods
  let score := score-atMost 10 c.eventWarnings
  let score := score-(if c.coreDNSHealthy then 0 else 15)
  let score := score-atMost 10 c.degradedPVCs
  let score := if score < 0 then 0 else score
  let score := if 100 < score then 100 else score
  (score,if 80 ≤ score then "healthy" else if 50 ≤ score then "degraded" else "critical")

/-- What it prints at its end, if it comes to it. -/
def healthScore (pipe : ℕ) : Option (ℤ × String) := if c.Cut pipe then none else some c.score

end ClusterState
end LosantDevice.Script
