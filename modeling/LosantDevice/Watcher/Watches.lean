import LosantDevice.Kube.Queue
import LosantDevice.Watcher.Snapshot

/-!
# The watches of the health watcher

`SetupWithManager` of `internal/controller/healthwatcher_controller.go` with what it sets up: the
caches of the watched kinds, the handlers that are told of each change to them, the work queue and
the one worker that calls `Reconcile`. A cache has changed before the handler hears of it, and the
caches go on changing while a job reads them one after the other.
-/
namespace LosantDevice.Watcher
open Effect Kube Monitor

/-- What the caches hold. Of the deployments only one is ever read. -/
structure Caches where
  nodes : List Node := []
  pods : List Pod := []
  pvcs : List PersistentVolumeClaim := []
  events : List CoreEvent := []
  coreDNS : Option Deployment := none

/-- What a handler is told of: a change to a node, or to an object of another watched kind. -/
inductive Notice
  | node (name : String)
  | other

/-- Changes to the objects of one kind and the notice of it. A node's notice is of that node. -/
inductive Caches.Changes : Caches → Notice → Caches → Prop
  | node {c name nodes} (rest : ∀ x : Node, x.name ≠ name → (x ∈ nodes ↔ x ∈ c.nodes)) :
      Changes c (.node name) { c with nodes }
  | pods {c pods} : Changes c .other { c with pods }
  | pvcs {c pvcs} : Changes c .other { c with pvcs }
  | events {c events} : Changes c .other { c with events }
  | deployments {c coreDNS} : Changes c .other { c with coreDNS }

/-- The requests for a change to anything but a node, from the nodes as they are listed then. -/
def allNodesMapper : Except ApiError (List Node) → List String
  | .error _ => []
  | .ok nodes => nodes.map Node.name

/-- What a read of the deployment may give: it fails, or it is the one that is there. -/
def Caches.Gives (c : Caches) (r : Except ApiError Deployment) : Prop :=
  ∀ deploy, r = .ok deploy → c.coreDNS = some deploy

/-- The reads of a job go to the caches. A read may fail, but it does not give something else. -/
def Caches.Answers (c : Caches) (clock : Time) (store : HealthStore) :
    (e : Call) → interface.Answer e → HealthStore → Prop
  | .listNodes,(r : Except ApiError (List Node)),store' =>
    (∀ l, r = .ok l → l = c.nodes) ∧ store' = store
  | .listPods,(r : Except ApiError (List Pod)),store' => (∀ l, r = .ok l → l = c.pods) ∧
    store' = store
  | .listPVCs,(r : Except ApiError (List PersistentVolumeClaim)),store' =>
    (∀ l, r = .ok l → l = c.pvcs) ∧ store' = store
  | .listEvents,(r : Except ApiError (List CoreEvent)),store' =>
    (∀ l, r = .ok l → l = c.events) ∧ store' = store
  | .getDeployment _,(r : Except ApiError Deployment),store' => c.Gives r ∧ store' = store
  | .now,(t : Time),store' => t = clock ∧ store' = store
  | .rangeNodes _,_,store' => store' = store
  | .update cluster nodes,_,store' => store' = store.update cluster nodes

/-- The running job: the request it is for, the calls it has made and what it still has to do. -/
structure Job where
  request : String
  history : History interface
  rest : M (Except ApiError Result)

structure Manager where
  caches : Caches := {}
  notices : List Notice := []
  queue : Queue String := .empty
  job : Option Job := none
  store : HealthStore := newHealthStore
  clock : Time

/-- One step of the manager. The label has the requests that the mapper returns, if it is called. -/
inductive Step : Manager → Option (List String) → Manager → Prop
  | change {m caches n} (changed : m.caches.Changes n caches) :
      Step m none { m with caches, notices := m.notices ++ [n] }
  | node {m name rest} (told : m.notices = .node name::rest) :
      Step m none { m with notices := rest, queue := m.queue.add name }
  | other {m rest} {listed : Except ApiError (List Node)} (told : m.notices = .other::rest)
      (nodes : ∀ l, listed = .ok l → l = m.caches.nodes) :
      Step m (some (allNodesMapper listed))
        { m with notices := rest, queue := m.queue.addAll (allNodesMapper listed) }
  | take {m request queue} (idle : m.job = none) (got : m.queue.get = some (request,queue)) :
      Step m none { m with queue, job := some ⟨request,[],reconcile⟩ }
  | call {m request h e next r store} (running : m.job = some ⟨request,h,.call e next⟩)
      (answered : m.caches.Answers m.clock m.store e r store) :
      Step m none { m with store, job := some ⟨request,⟨e,r⟩::h,next r⟩ }
  | finish {m request h r} (running : m.job = some ⟨request,h,.done r⟩) :
      Step m none { m with queue := m.queue.finish request (asksAgain r), job := none }
  | fire {m request} (waiting : request ∈ m.queue.waiting) :
      Step m none { m with queue := m.queue.fire request }
  | tick {m clock} (later : m.clock ≤ clock) : Step m none { m with clock }

/-- Reachable from the start of the process with every call of the mapper finding some node. -/
inductive Reachable : Manager → Prop
  | init {clock} : Reachable { clock }
  | step {m l m'} (before : Reachable m) (moved : Step m l m') (mapped : l ≠ some []) : Reachable m'

/-- No change is on its way to a job. -/
structure Manager.Rests (m : Manager) : Prop where
  notices : m.notices = []
  job : m.job = none
  queue : ¬m.queue.Pending

/-- The inputs of a job that reads everything from these caches, given what it reads for CoreDNS
and the time. -/
def Caches.inputs (c : Caches) (coreDNS : Except ApiError Deployment) (now : Time) : Inputs where
  nodes := c.nodes
  pods := c.pods
  pvcs := c.pvcs
  events := c.events
  coreDNS := coreDNS
  now := now

/-- What a read of the deployment gives that does not fail without a reason. -/
def Caches.getDeployment (c : Caches) : Except ApiError Deployment :=
  match c.coreDNS with
  | some deploy => .ok deploy
  | none => .error ⟨.notFound,"deployments.apps \"coredns\" not found"⟩

end LosantDevice.Watcher
