import LosantDevice.Effect.Atomic
import LosantDevice.Go.RWMutex
import LosantDevice.Watcher.Reconcile

/-!
# The health store in shared memory

`internal/monitor/store.go` access by access. A map is a reference to entries that anybody who has
it may change: `Update` keeps the one it is given and `Snapshot` fills a new one, entry by entry.
Any number of goroutines call the two methods. In between, a goroutine makes maps and fills those
that are its own: those it has made and not handed to `Update`, and those `Snapshot` has returned
to it.
-/
namespace LosantDevice.Monitor.Shared
open Effect Go

abbrev Ref := ℕ

/-- The accesses to the store and to maps. The keys are those a `range` goes through, in its
order; each entry is read when it is its turn. -/
inductive Call
  | lock
  | unlock
  | rLock
  | rUnlock
  | setCluster (cluster : ClusterHealth)
  | getCluster
  | setNodes (nodes : Ref)
  | getNodes
  | make
  | length (m : Ref)
  | keys (m : Ref)
  | load (m : Ref) (k : String)
  | store (m : Ref) (k : String) (v : NodeHealth)

def interface : Interface where
  Call := Call
  Answer
    | .lock | .unlock | .rLock | .rUnlock => Unit
    | .setCluster _ | .setNodes _ | .store _ _ _ => Unit
    | .getCluster => ClusterHealth
    | .getNodes | .make => Ref
    | .length _ => ℕ
    | .keys _ => List String
    | .load _ _ => Option NodeHealth

abbrev M := Program interface

/-- What a method returns: nothing, or what `Snapshot` does. -/
abbrev Output := Option (ClusterHealth × Ref)

def access (e : Call) : M (interface.Answer e) := Program.perform (I := interface) e

def update (cluster : ClusterHealth) (nodes : Ref) : M Output := do
  access .lock
  access (.setCluster cluster)
  access (.setNodes nodes)
  access .unlock
  pure none

/-- The body of the `range` over the stored map. -/
def copyEntries (src dst : Ref) : List String → M Unit
  | [] => pure ()
  | k::ks => do
    match ← access (.load src k) with
    | some v => access (.store dst k v)
    | none => pure ()
    copyEntries src dst ks

/-- What `Snapshot` does once it has the lock; the results are there before it gives it back. -/
def readCopy : M Output := do
  let sized ← access .getNodes
  let _ ← access (.length sized)
  let nodes ← access .make
  let src ← access .getNodes
  let ks ← access (.keys src)
  copyEntries src nodes ks
  let cluster ← access .getCluster
  access .rUnlock
  pure (some (cluster,nodes))

def snapshot : M Output := do
  access .rLock
  readCopy

section memory
variable (ι : Type)

structure Memory where
  mu : RWMutex ι
  cluster : ClusterHealth
  nodes : Ref
  maps : Ref → GoMap NodeHealth
  /-- The maps below are in use. -/
  next : Ref

/-- `NewHealthStore`. -/
def newHealthStore : Memory ι where
  mu := .free
  cluster := {}
  nodes := 0
  maps _ := ∅
  next := 1

end memory

variable {ι : Type} [DecidableEq ι]

def Memory.setMap (w : Memory ι) (r : Ref) (m : GoMap NodeHealth) : Memory ι :=
  { w with maps := Function.update w.maps r m }

def Memory.alloc (w : Memory ι) : Memory ι := { w.setMap w.next ∅ with next := w.next+1 }

/-- One access of the goroutine `i`. A lock that is not free answers nothing. -/
def Memory.Serves (i : ι) (w : Memory ι) : (e : Call) → interface.Answer e → Memory ι → Prop
  | .lock,_,w' => ∃ mu, w.mu.lock i = some mu ∧ w' = { w with mu }
  | .unlock,_,w' => ∃ mu, w.mu.unlock i = some mu ∧ w' = { w with mu }
  | .rLock,_,w' => ∃ mu, w.mu.rLock i = some mu ∧ w' = { w with mu }
  | .rUnlock,_,w' => ∃ mu, w.mu.rUnlock i = some mu ∧ w' = { w with mu }
  | .setCluster cluster,_,w' => w' = { w with cluster }
  | .getCluster,(r : ClusterHealth),w' => r = w.cluster ∧ w' = w
  | .setNodes nodes,_,w' => w' = { w with nodes }
  | .getNodes,(r : Ref),w' => r = w.nodes ∧ w' = w
  | .make,(r : Ref),w' => r = w.next ∧ w' = w.alloc
  | .length m,(n : ℕ),w' => n = (w.maps m).entries.card ∧ w' = w
  | .keys m,(ks : List String),w' => ks.Nodup ∧ (∀ k, k ∈ ks ↔ k ∈ w.maps m) ∧ w' = w
  | .load m k,(v : Option NodeHealth),w' => v = (w.maps m).lookup k ∧ w' = w
  | .store m k v,_,w' => w' = w.setMap m ((w.maps m).insert k v)

/-! ## Goroutines -/

/-- A goroutine with the maps that are its own and the method it is in. -/
structure Goroutine where
  own : List Ref := []
  running : Option (M Output) := none

structure State (ι : Type) where
  memory : Memory ι
  goroutine : ι → Goroutine

def State.start (ι : Type) : State ι := ⟨newHealthStore ι,fun _ => {}⟩

def State.set (s : State ι) (i : ι) (w : Memory ι) (g : Goroutine) : State ι :=
  ⟨w,Function.update s.goroutine i g⟩

inductive Op
  | update (cluster : ClusterHealth) (nodes : GoMap NodeHealth)
  | snapshot

/-- The store as its callers are meant to see it. -/
def object : SequentialObject where
  State := HealthStore
  Op := Op
  Ret := Option (ClusterHealth × GoMap NodeHealth)
  init := Monitor.newHealthStore
  apply s
    | .update cluster nodes => (s.update cluster nodes,none)
    | .snapshot => (s,some s.snapshot)

abbrev Label (ι : Type) := Visible ι object.Op object.Ret

/-- The value behind what a method returns. -/
def Memory.value (w : Memory ι) : Output → object.Ret :=
  Option.map (fun x => (x.1,w.maps x.2))

/-- One step of a goroutine. A map that is handed to `Update` is not its own any more. -/
inductive Step : State ι → Option (Label ι) → State ι → Prop
  | make {s i} (idle : (s.goroutine i).running = none) :
      Step s none (s.set i s.memory.alloc
        { s.goroutine i with own := s.memory.next::(s.goroutine i).own })
  | fill {s i r k v} (idle : (s.goroutine i).running = none) (own : r ∈ (s.goroutine i).own) :
      Step s none (s.set i (s.memory.setMap r ((s.memory.maps r).insert k v)) (s.goroutine i))
  | callUpdate {s i cluster r} (idle : (s.goroutine i).running = none)
      (own : r ∈ (s.goroutine i).own) :
      Step s (some (.call i (.update cluster (s.memory.maps r))))
        (s.set i s.memory ⟨(s.goroutine i).own.filter (· ≠ r),some (update cluster r)⟩)
  | callSnapshot {s i} (idle : (s.goroutine i).running = none) :
      Step s (some (.call i .snapshot))
        (s.set i s.memory { s.goroutine i with running := some snapshot })
  | access {s i e next r w} (running : (s.goroutine i).running = some (.call e next))
      (served : s.memory.Serves i e r w) :
      Step s none (s.set i w { s.goroutine i with running := some (next r) })
  | ret {s i out} (running : (s.goroutine i).running = some (.done out)) :
      Step s (some (.ret i (s.memory.value out)))
        (s.set i s.memory ⟨(out.map Prod.snd).toList ++ (s.goroutine i).own,none⟩)

/-! ## Data races -/

inductive Location
  | cluster
  | nodes
  | map (r : Ref)
  deriving DecidableEq

/-- What an access touches, and whether it writes it. -/
def touched : Call → List (Location × Bool)
  | .lock | .unlock | .rLock | .rUnlock | .make => []
  | .setCluster _ => [(.cluster,true)]
  | .getCluster => [(.cluster,false)]
  | .setNodes _ => [(.nodes,true)]
  | .getNodes => [(.nodes,false)]
  | .length m | .keys m | .load m _ => [(.map m,false)]
  | .store m _ _ => [(.map m,true)]

/-- What a goroutine may touch next. Between calls it does as it likes with the maps of its own. -/
def Goroutine.Touches (g : Goroutine) (x : Location × Bool) : Prop :=
  match g.running with
  | none => ∃ r ∈ g.own, x.1 = .map r
  | some (.call e _) => x ∈ touched e
  | some (.done _) => False

/-- Two goroutines are about to touch one location and one of them writes it. -/
def State.Race (s : State ι) : Prop :=
  ∃ i j x write write', i ≠ j ∧ (s.goroutine i).Touches (x,write) ∧
    (s.goroutine j).Touches (x,write') ∧ (write || write') = true

end LosantDevice.Monitor.Shared
