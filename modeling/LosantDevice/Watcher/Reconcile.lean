import LosantDevice.Effect.Program
import LosantDevice.Kube.Controller
import LosantDevice.Monitor.Collect

/-!
# The health watcher

`Reconcile` of `internal/controller/healthwatcher_controller.go` and the store of
`internal/monitor/store.go`. The watcher lists everything anew each time; the request that
triggers it is only logged. Logging is left out.
-/
namespace LosantDevice

namespace Monitor

structure HealthStore where
  cluster : ClusterHealth
  nodes : GoMap NodeHealth
  deriving DecidableEq

def newHealthStore : HealthStore := ⟨{},∅⟩

def HealthStore.update (_ : HealthStore) (cluster : ClusterHealth) (nodes : GoMap NodeHealth) :
    HealthStore := ⟨cluster,nodes⟩

def HealthStore.snapshot (s : HealthStore) : ClusterHealth × GoMap NodeHealth :=
  (s.cluster,s.nodes)

end Monitor

namespace Watcher
open Effect Kube Monitor

/-- The calls of the watcher. The order of a `range` over a map is an answer too. -/
inductive Call
  | listNodes
  | listPods
  | listPVCs
  | listEvents
  | getDeployment (ref : NamespacedName)
  | now
  | rangeNodes (m : GoMap NodeHealth)
  | update (cluster : ClusterHealth) (nodes : GoMap NodeHealth)

def interface : Interface where
  Call := Call
  Answer
    | .listNodes => Except ApiError (List Node)
    | .listPods => Except ApiError (List Pod)
    | .listPVCs => Except ApiError (List PersistentVolumeClaim)
    | .listEvents => Except ApiError (List CoreEvent)
    | .getDeployment _ => Except ApiError Deployment
    | .now => Time
    | .rangeNodes m => m.Order
    | .update _ _ => Unit

abbrev M := Program interface

def listNodes : M (Except ApiError (List Node)) := Program.perform (I := interface) .listNodes
def listPods : M (Except ApiError (List Pod)) := Program.perform (I := interface) .listPods
def listPVCs : M (Except ApiError (List PersistentVolumeClaim)) :=
  Program.perform (I := interface) .listPVCs
def listEvents : M (Except ApiError (List CoreEvent)) :=
  Program.perform (I := interface) .listEvents
def getDeployment (ref : NamespacedName) : M (Except ApiError Deployment) :=
  Program.perform (I := interface) (.getDeployment ref)
def now : M Time := Program.perform (I := interface) .now
def rangeNodes (m : GoMap NodeHealth) : M m.Order :=
  Program.perform (I := interface) (.rangeNodes m)
def update (cluster : ClusterHealth) (nodes : GoMap NodeHealth) : M Unit :=
  Program.perform (I := interface) (.update cluster nodes)

def coreDNSNamespace : String := "kube-system"
def coreDNSDeployment : String := "coredns"

/-- The health of a node with the counts of its pods merged in, if it has any. -/
def nodeHealth (perNodePods : GoMap PodCounts) (node : Node) : NodeHealth :=
  let nh := collectNodeHealth node
  match perNodePods.lookup node.name with
  | some pc =>
    let nh := { nh with
      podCount := pc.total, notReadyPods := pc.notReady, crashLoopPods := pc.crashLoop }
    let nh := { nh with healthScore := computeNodeHealthScore nh }
    { nh with healthStatus := healthStatusFromScore nh.healthScore }
  | none => nh

def buildNodes (perNodePods : GoMap PodCounts) : List Node → GoMap NodeHealth :=
  List.foldl (fun m node => m.insert node.name (nodeHealth perNodePods node)) ∅

/-- The loop that counts the nodes that are ready. -/
def countReady : List (Sigma fun _ : String => NodeHealth) → ℤ → ℤ
  | [],readyNodes => readyNodes
  | ⟨_,nh⟩::rest,readyNodes => countReady rest (if nh.ready then readyNodes+1 else readyNodes)

def reconcile : M (Except ApiError Result) := do
  match ← listNodes with
  | .error err => pure (.error err)
  | .ok nodeList =>
  match ← listPods with
  | .error err => pure (.error err)
  | .ok podList =>
  match ← listPVCs with
  | .error err => pure (.error err)
  | .ok pvcList =>
  match ← listEvents with
  | .error err => pure (.error err)
  | .ok eventList =>
    let coreDNS ← getDeployment ⟨coreDNSNamespace,coreDNSDeployment⟩
    let pods := collectPodCounts podList
    let nodeHealthMap := buildNodes pods.1 nodeList
    let order ← rangeNodes nodeHealthMap
    let readyNodes := countReady order.val 0
    let t ← now
    let cluster : ClusterHealth :=
      { totalNodes := nodeList.length, readyNodes, unhealthyNodes := nodeList.length-readyNodes
        totalPods := pods.2.total, runningPods := pods.2.running, failedPods := pods.2.failed
        pendingPods := pods.2.pending, crashLoopPods := pods.2.crashLoop
        degradedPVCs := countDegradedPVCs pvcList
        coreDNSHealthy := isCoreDNSHealthy coreDNS.toOption
        eventWarnings := countRecentWarnings t eventList }
    let order ← rangeNodes nodeHealthMap
    let cluster := { cluster with
      healthScore := computeClusterHealthScore cluster nodeHealthMap order }
    let cluster := { cluster with healthStatus := healthStatusFromScore cluster.healthScore }
    update cluster nodeHealthMap
    pure (.ok {})

end Watcher
end LosantDevice
