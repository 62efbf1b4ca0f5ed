import Mathlib.Algebra.BigOperators.Ring.Finset
import LosantDevice.Monitor.Deductions
import LosantDevice.Watcher.Pods

/-!
# What the watcher stores

The counts of the collectors, loop by loop, and then the snapshot as a whole: it agrees with the
lists it was made from, its parts agree with each other, and it does not depend on the order of
the lists or of the ranges over the map.
-/
namespace LosantDevice.Watcher
open Effect Kube Monitor Program

/-- The elements counted key by key, over distinct keys. -/
theorem sum_countP {α β : Type} [DecidableEq β] (f : α → β) {keys : List β} (hk : keys.Nodup)
    (l : List α) : (keys.map (fun k => l.countP (fun a => f a = k))).sum =
      l.countP (fun a => f a ∈ keys) := by
  induction keys with
  | nil => simp
  | cons k keys ih =>
    obtain ⟨hnot,hk⟩ := List.nodup_cons.mp hk
    rw [List.map_cons,List.sum_cons,ih hk]
    clear ih
    induction l with
    | nil => rfl
    | cons a l ih =>
      simp only [List.countP_cons] at ih ⊢
      by_cases he : f a = k
      · subst he
        simp [hnot] at ih ⊢
        omega
      · simp [he] at ih ⊢
        omega

/-! ## Nodes -/

/-- The conditions of a node say nothing about its pods. -/
theorem foldl_withNodeCondition_counts (l : List NodeCondition) (h : NodeHealth) :
    (l.foldl NodeHealth.withNodeCondition h).podCount = h.podCount ∧
    (l.foldl NodeHealth.withNodeCondition h).notReadyPods = h.notReadyPods ∧
    (l.foldl NodeHealth.withNodeCondition h).crashLoopPods = h.crashLoopPods := by
  induction l generalizing h with
  | nil => exact ⟨rfl,rfl,rfl⟩
  | cons cond l ih =>
    obtain ⟨h1,h2,h3⟩ := ih (h.withNodeCondition cond)
    rw [List.foldl_cons,h1,h2,h3]
    unfold NodeHealth.withNodeCondition
    split <;> exact ⟨rfl,rfl,rfl⟩

section nodes
variable (perNodePods : GoMap PodCounts)

theorem nodeHealth_counts (x : Node) :
    (nodeHealth perNodePods x).podCount = ((perNodePods.lookup x.name).getD {}).total ∧
    (nodeHealth perNodePods x).notReadyPods = ((perNodePods.lookup x.name).getD {}).notReady ∧
    (nodeHealth perNodePods x).crashLoopPods = ((perNodePods.lookup x.name).getD {}).crashLoop := by
  unfold nodeHealth
  cases perNodePods.lookup x.name with
  | none => exact foldl_withNodeCondition_counts x.conditions _
  | some pc => exact ⟨rfl,rfl,rfl⟩

/-- The score does not depend on the pods, so a node without pods is scored right too. -/
theorem nodeHealth_scored (x : Node) :
    (nodeHealth perNodePods x).healthScore = computeNodeHealthScore (nodeHealth perNodePods x) ∧
    (nodeHealth perNodePods x).healthStatus =
      healthStatusFromScore (nodeHealth perNodePods x).healthScore := by
  unfold nodeHealth
  cases perNodePods.lookup x.name with
  | none => exact ⟨rfl,rfl⟩
  | some pc => exact ⟨rfl,rfl⟩

/-- The entry of a node in the map. -/
def entry (x : Node) : Sigma fun _ : String => NodeHealth := ⟨x.name,nodeHealth perNodePods x⟩

theorem entries_foldl_insert {l : List Node} (hl : (l.map Node.name).Nodup)
    (m : GoMap NodeHealth) (hm : ∀ x ∈ l, x.name ∉ m) :
    (l.foldl (fun m x => m.insert x.name (nodeHealth perNodePods x)) m).entries =
      (l.map (entry perNodePods) : Multiset (Sigma fun _ : String => NodeHealth))+m.entries := by
  induction l generalizing m with
  | nil => simp
  | cons x l ih =>
    obtain ⟨hnot,hl⟩ := List.nodup_cons.mp hl
    have hx := hm x List.mem_cons_self
    rw [List.foldl_cons,ih hl,Finmap.entries_insert_of_notMem hx]
    · simp [entry,← Multiset.cons_coe]
    · intro y hy hmem
      rcases Finmap.mem_insert.mp hmem with he | hmem
      · exact hnot (he ▸ List.mem_map_of_mem hy)
      · exact hm y (List.mem_cons_of_mem _ hy) hmem

/-- With distinct names the map has one entry for each node. -/
theorem entries_buildNodes {nodes : List Node} (hn : (nodes.map Node.name).Nodup) :
    (buildNodes perNodePods nodes).entries =
      (nodes.map (entry perNodePods) : Multiset (Sigma fun _ : String => NodeHealth)) := by
  have h := entries_foldl_insert perNodePods hn ∅ (fun _ _ => Finmap.notMem_empty)
  exact h.trans (Multiset.add_zero _)

theorem lookup_buildNodes {nodes : List Node} (hn : (nodes.map Node.name).Nodup) {n : String}
    {nh : NodeHealth} : (buildNodes perNodePods nodes).lookup n = some nh ↔
      ∃ x ∈ nodes, x.name = n ∧ nodeHealth perNodePods x = nh := by
  rw [Finmap.lookup_eq_some_iff,entries_buildNodes perNodePods hn]
  simp [entry]

theorem mem_buildNodes {nodes : List Node} (hn : (nodes.map Node.name).Nodup) {n : String} :
    n ∈ buildNodes perNodePods nodes ↔ n ∈ nodes.map Node.name := by
  rw [← Finmap.lookup_isSome,Option.isSome_iff_exists]
  simp [lookup_buildNodes perNodePods hn]

end nodes

theorem countReady_eq (l : List (Sigma fun _ : String => NodeHealth)) (r : ℤ) :
    countReady l r = r+(l.countP (fun p => p.2.ready) : ℕ) := by
  induction l generalizing r with
  | nil => simp [countReady]
  | cons p rest ih =>
    simp only [countReady,ih,List.countP_cons]
    cases p.2.ready with
    | false => simp
    | true =>
      simp only [if_true]
      simp only [Int.natCast_add,Int.natCast_one]
      omega

/-! ## The snapshot -/

/-- What the API answers to the reads of one call, and the time it is read at. -/
structure Reads where
  nodes : Except ApiError (List Node)
  pods : Except ApiError (List Pod)
  pvcs : Except ApiError (List PersistentVolumeClaim)
  events : Except ApiError (List CoreEvent)
  coreDNS : Except ApiError Deployment
  now : Time

namespace Reads
variable (r : Reads)

/-- The strategy answers the reads like this; the orders of the ranges are its own. -/
structure Given (s : Strategy interface) : Prop where
  nodes : ∀ h, s h .listNodes = r.nodes
  pods : ∀ h, s h .listPods = r.pods
  pvcs : ∀ h, s h .listPVCs = r.pvcs
  events : ∀ h, s h .listEvents = r.events
  coreDNS : ∀ h, s h (.getDeployment ⟨coreDNSNamespace,coreDNSDeployment⟩) = r.coreDNS
  now : ∀ h, s h .now = r.now

/-- Answers the reads like this, the ranges going in some order. -/
noncomputable def strategy : Strategy interface
  | _,.listNodes => r.nodes
  | _,.listPods => r.pods
  | _,.listPVCs => r.pvcs
  | _,.listEvents => r.events
  | _,.getDeployment _ => r.coreDNS
  | _,.now => r.now
  | _,.rangeNodes m => ⟨m.entries.toList,m.order_toList⟩
  | _,.update _ _ => ()

theorem given_strategy : r.Given r.strategy :=
  ⟨fun _ => rfl,fun _ => rfl,fun _ => rfl,fun _ => rfl,fun _ => rfl,fun _ => rfl⟩

end Reads

/-- What the watcher is given: the lists, what it gets for CoreDNS and the time. -/
structure Inputs where
  nodes : List Node
  pods : List Pod
  pvcs : List PersistentVolumeClaim
  events : List CoreEvent
  coreDNS : Except ApiError Deployment
  now : Time

namespace Inputs
variable (i : Inputs)

/-- The reads that give these inputs. -/
def reads : Reads where
  nodes := .ok i.nodes
  pods := .ok i.pods
  pvcs := .ok i.pvcs
  events := .ok i.events
  coreDNS := i.coreDNS
  now := i.now

/-- The strategy answers with these inputs. -/
def Given (s : Strategy interface) : Prop := i.reads.Given s

/-- The same inputs, listed in another order. -/
structure Permuted (i j : Inputs) : Prop where
  nodes : i.nodes.Perm j.nodes
  pods : i.pods.Perm j.pods
  pvcs : i.pvcs.Perm j.pvcs
  events : i.events.Perm j.events
  coreDNS : i.coreDNS = j.coreDNS
  now : i.now = j.now

def nodeMap : GoMap NodeHealth := buildNodes (collectPodCounts i.pods).1 i.nodes

/-- The cluster before it is scored. -/
def counted (order : i.nodeMap.Order) : ClusterHealth where
  totalNodes := i.nodes.length
  readyNodes := countReady order.val 0
  unhealthyNodes := i.nodes.length-countReady order.val 0
  totalPods := (collectPodCounts i.pods).2.total
  runningPods := (collectPodCounts i.pods).2.running
  failedPods := (collectPodCounts i.pods).2.failed
  pendingPods := (collectPodCounts i.pods).2.pending
  crashLoopPods := (collectPodCounts i.pods).2.crashLoop
  degradedPVCs := countDegradedPVCs i.pvcs
  coreDNSHealthy := isCoreDNSHealthy i.coreDNS.toOption
  eventWarnings := countRecentWarnings i.now i.events

def cluster (order order' : i.nodeMap.Order) : ClusterHealth :=
  let score := computeClusterHealthScore (i.counted order) i.nodeMap order'
  { i.counted order with healthScore := score, healthStatus := healthStatusFromScore score }

end Inputs

/-- What a watcher that has made the calls has stored last. -/
def stored : History interface → Option (ClusterHealth × GoMap NodeHealth)
  | [] => none
  | ⟨.update cluster nodes,_⟩::_ => some (cluster,nodes)
  | _::h => stored h

/-- Given its inputs the watcher stores a snapshot. -/
theorem stored_reconcile {i : Inputs} {s : Strategy interface} (hs : i.Given s) :
    ∃ order order', stored (run s [] reconcile).1 = some (i.cluster order order',i.nodeMap) := by
  have hnodes : run s [] reconcile = _ := run_answer (hs.nodes _)
  have hpods := hnodes.trans (run_answer (hs.pods _))
  have hpvcs := hpods.trans (run_answer (hs.pvcs _))
  have hevents := hpvcs.trans (run_answer (hs.events _))
  have hdns := hevents.trans (run_answer (hs.coreDNS _))
  have hrange := hdns.trans (run_answer rfl)
  have hnow := hrange.trans (run_answer (hs.now _))
  rw [hnow]
  exact ⟨_,_,rfl⟩

section counted
variable {i : Inputs} (order : i.nodeMap.Order)

/-- The counters that are scored. -/
theorem counted_eq : (i.counted order).crashLoopPods = (i.pods.countP isCrashLooping : ℕ) ∧
    (i.counted order).failedPods = (i.pods.countP (fun p => p.phase = .failed) : ℕ) ∧
    (i.counted order).eventWarnings = (i.events.countP (isRecentWarning i.now) : ℕ) ∧
    (i.counted order).degradedPVCs = (i.pvcs.countP (fun pvc => pvc.phase ≠ .bound) : ℕ) := by
  refine ⟨?_,collectPodCounts_failed i.pods,countRecentWarnings_eq i.now i.events,
    countDegradedPVCs_eq i.pvcs⟩
  rw [List.countP_eq_length_filter]
  exact (collectPodCounts_cluster i.pods).2.1

/-- The lists are no longer than lists in memory are. -/
structure Inputs.Fits (i : Inputs) : Prop where
  pods : i.pods.length < 2^62
  pvcs : i.pvcs.length < 2^62
  events : i.events.length < 2^62

theorem Inputs.Fits.inRange (hi : i.Fits) : (i.counted order).InRange := by
  obtain ⟨hcrash,hfailed,hwarnings,hpvcs⟩ := counted_eq order
  exact ⟨hcrash ▸ countP_inRange _ hi.pods,hfailed ▸ countP_inRange _ hi.pods,
    hwarnings ▸ countP_inRange _ hi.events,hpvcs ▸ countP_inRange _ hi.pvcs⟩

end counted

section consistent
variable {i : Inputs}

theorem readyNodes_eq (order : i.nodeMap.Order) :
    countReady order.val 0 = (i.nodeMap.entries.countP (fun p => p.2.ready = true) : ℕ) := by
  obtain ⟨l,hl⟩ := order
  change countReady l 0 = _
  rw [countReady_eq,← hl,Multiset.coe_countP]
  simp

/-- The parts of a snapshot agree with the lists and with each other. -/
structure Consistent (i : Inputs) (cluster : ClusterHealth) (m : GoMap NodeHealth) : Prop where
  keys : ∀ n, n ∈ m ↔ n ∈ i.nodes.map Node.name
  counts : ∀ n nh, m.lookup n = some nh →
    nh.podCount = (i.pods.countP (fun p => p.nodeName = n) : ℕ) ∧
    nh.notReadyPods = ((i.pods.filter isNotReady).countP (fun p => p.nodeName = n) : ℕ) ∧
    nh.crashLoopPods = ((i.pods.filter isCrashLooping).countP (fun p => p.nodeName = n) : ℕ)
  scores : ∀ n nh, m.lookup n = some nh → nh.healthScore = computeNodeHealthScore nh ∧
    nh.healthStatus = healthStatusFromScore nh.healthScore
  nodes : cluster.totalNodes = i.nodes.length ∧
    cluster.totalNodes = cluster.readyNodes+cluster.unhealthyNodes
  ready : cluster.readyNodes = (m.entries.countP (fun p => p.2.ready = true) : ℕ)
  pods : (m.entries.map (fun p => p.2.podCount)).sum ≤ cluster.totalPods ∧
    ((m.entries.map (fun p => p.2.podCount)).sum = cluster.totalPods ↔
      ∀ p ∈ i.pods, p.nodeName ∈ i.nodes.map Node.name)
  crashLoops : (m.entries.map (fun p => p.2.crashLoopPods)).sum ≤ cluster.crashLoopPods ∧
    ((m.entries.map (fun p => p.2.crashLoopPods)).sum = cluster.crashLoopPods ↔
      ∀ p ∈ i.pods, isCrashLooping p = true → p.nodeName ∈ i.nodes.map Node.name)
  phases : cluster.runningPods+cluster.failedPods+cluster.pendingPods ≤ cluster.totalPods

/-- A count kept for each node, added up over the nodes: the pods that are on a listed node. -/
theorem sum_entries_le (hn : (i.nodes.map Node.name).Nodup) (l : List Pod) {f : NodeHealth → ℤ}
    (hf : ∀ x, f (nodeHealth (collectPodCounts i.pods).1 x) =
      (l.countP (fun p => p.nodeName = x.name) : ℕ)) :
    (i.nodeMap.entries.map (fun p => f p.2)).sum ≤ l.length ∧
    ((i.nodeMap.entries.map (fun p => f p.2)).sum = l.length ↔
      ∀ p ∈ l, p.nodeName ∈ i.nodes.map Node.name) := by
  have hsum : (i.nodeMap.entries.map (fun p => f p.2)).sum =
      (l.countP (fun p => p.nodeName ∈ i.nodes.map Node.name) : ℕ) := by
    rw [Inputs.nodeMap,entries_buildNodes _ hn,Multiset.map_coe,Multiset.sum_coe,
      ← sum_countP Pod.nodeName hn l,Nat.cast_list_sum,List.map_map,List.map_map,List.map_map]
    exact congrArg List.sum (List.map_congr_left (fun x _ => hf x))
  rw [hsum]
  refine ⟨Int.ofNat_le.mpr List.countP_le_length,?_⟩
  rw [Int.natCast_inj,List.countP_eq_length]
  simp

theorem consistent (hn : (i.nodes.map Node.name).Nodup) (order order' : i.nodeMap.Order) :
    Consistent i (i.cluster order order') i.nodeMap := by
  have hnode := fun x : Node => collectPodCounts_node i.pods x.name
  have hmerged := nodeHealth_counts (collectPodCounts i.pods).1
  obtain ⟨htotal,hcrash,hphases⟩ := collectPodCounts_cluster i.pods
  constructor
  case keys => exact fun n => mem_buildNodes _ hn
  case counts =>
    intro n nh hnh
    obtain ⟨x,-,rfl,rfl⟩ := (lookup_buildNodes _ hn).mp hnh
    obtain ⟨h1,h2,h3⟩ := hmerged x
    rw [h1,h2,h3]
    exact hnode x
  case scores =>
    intro n nh hnh
    obtain ⟨x,-,rfl,rfl⟩ := (lookup_buildNodes _ hn).mp hnh
    exact nodeHealth_scored _ x
  case nodes =>
    refine ⟨rfl,?_⟩
    change (i.nodes.length : ℤ) = countReady order.val 0+(i.nodes.length-countReady order.val 0)
    omega
  case ready => exact readyNodes_eq order
  case pods =>
    change _ ≤ (collectPodCounts i.pods).2.total ∧ (_ = (collectPodCounts i.pods).2.total ↔ _)
    rw [htotal]
    exact sum_entries_le hn i.pods (fun x => (hmerged x).1.trans (hnode x).1)
  case crashLoops =>
    change _ ≤ (collectPodCounts i.pods).2.crashLoop ∧
      (_ = (collectPodCounts i.pods).2.crashLoop ↔ _)
    rw [hcrash]
    have hsum := sum_entries_le hn (i.pods.filter isCrashLooping)
      (fun x => (hmerged x).2.2.trans (hnode x).2.2)
    simpa [List.mem_filter] using hsum
  case phases =>
    change _ ≤ (collectPodCounts i.pods).2.total
    rw [htotal]
    exact hphases

end consistent

section permuted
variable {i j : Inputs}

theorem Inputs.Permuted.nodeMap_eq (hp : i.Permuted j) (hn : (i.nodes.map Node.name).Nodup) :
    i.nodeMap = j.nodeMap := by
  have hn' : (j.nodes.map Node.name).Nodup := (hp.nodes.map _).nodup_iff.mp hn
  apply Finmap.ext
  unfold Inputs.nodeMap
  rw [collectPodCounts_perm hp.pods,entries_buildNodes _ hn,entries_buildNodes _ hn']
  exact Multiset.coe_eq_coe.mpr (hp.nodes.map _)

theorem Inputs.Permuted.counted_eq (hp : i.Permuted j) (hn : (i.nodes.map Node.name).Nodup)
    (order : i.nodeMap.Order) (order' : j.nodeMap.Order) : i.counted order = j.counted order' := by
  unfold Inputs.counted
  rw [readyNodes_eq,readyNodes_eq,hp.nodeMap_eq hn,hp.nodes.length_eq,
    collectPodCounts_perm hp.pods,countDegradedPVCs_eq,countDegradedPVCs_eq,
    hp.pvcs.countP_eq,hp.coreDNS,hp.now,countRecentWarnings_eq,countRecentWarnings_eq,
    hp.events.countP_eq]

theorem Inputs.Permuted.cluster_eq (hp : i.Permuted j) (hn : (i.nodes.map Node.name).Nodup)
    (o₁ o₂ : i.nodeMap.Order) (o₃ o₄ : j.nodeMap.Order) : i.cluster o₁ o₂ = j.cluster o₃ o₄ := by
  have hc := hp.counted_eq hn o₁ o₃
  unfold Inputs.cluster
  rw [computeClusterHealthScore_congr hc (hp.nodeMap_eq hn) o₂ o₄,hc]

end permuted

/-- For all lists of nodes with distinct names, of pods, volume claims and events, whatever is
found of CoreDNS, and whatever the orders of the ranges over the map. -/
theorem snapshot_consistent (i : Inputs) (hn : (i.nodes.map Node.name).Nodup)
    (s : Strategy interface) (hs : i.Given s) :
    ∃ cluster m, stored (run s [] reconcile).1 = some (cluster,m) ∧ Consistent i cluster m ∧
      ∀ j t, i.Permuted j → j.Given t → stored (run t [] reconcile).1 = some (cluster,m) := by
  obtain ⟨o₁,o₂,hstored⟩ := stored_reconcile hs
  refine ⟨_,_,hstored,consistent hn o₁ o₂,?_⟩
  intro j t hp ht
  obtain ⟨o₃,o₄,hstored'⟩ := stored_reconcile ht
  rw [hstored',hp.cluster_eq hn o₁ o₂ o₃ o₄,hp.nodeMap_eq hn]

/-- Two nodes, a pod on each, one that is not scheduled and one on a node that is not listed. -/
def mixedPods : Inputs where
  nodes := [{ name := "n1", conditions := [⟨.ready,.true⟩] },{ name := "n2" }]
  pods := [{ nodeName := "n1", phase := .running },
    { nodeName := "n2", phase := .running, containerStatuses := [⟨some "CrashLoopBackOff"⟩] },
    { phase := .pending },{ nodeName := "n3", phase := .failed }]
  pvcs := [⟨.lost⟩]
  events := []
  coreDNS := .error ⟨.notFound,"deployments not found"⟩
  now := (0 : ℤ)

theorem snapshot_consistent_mixedPods : ∃ cluster m,
    stored (run mixedPods.reads.strategy [] reconcile).1 = some (cluster,m) ∧
      Consistent mixedPods cluster m ∧
      ∀ j t, mixedPods.Permuted j → j.Given t →
        stored (run t [] reconcile).1 = some (cluster,m) :=
  snapshot_consistent mixedPods (by decide) mixedPods.reads.strategy mixedPods.reads.given_strategy

/-! ## What every call stores -/

/-- The scores of a snapshot are those of its parts. -/
structure Scored (s : HealthStore) : Prop where
  score : ∀ order, s.cluster.healthScore = computeClusterHealthScore s.cluster s.nodes order
  status : s.cluster.healthStatus = healthStatusFromScore s.cluster.healthScore
  nodes : ∀ n nh, s.nodes.lookup n = some nh → nh.healthScore = computeNodeHealthScore nh ∧
    nh.healthStatus = healthStatusFromScore nh.healthScore

/-- A snapshot that is stored is scored. -/
def Stores : interface.Call → Prop
  | .update cluster nodes => Scored ⟨cluster,nodes⟩
  | _ => True

theorem lookup_foldl_insert {perNodePods : GoMap PodCounts} {l : List Node} {m : GoMap NodeHealth}
    {n : String} {nh : NodeHealth}
    (h : (l.foldl (fun m x => m.insert x.name (nodeHealth perNodePods x)) m).lookup n = some nh) :
    m.lookup n = some nh ∨ ∃ x ∈ l, nh = nodeHealth perNodePods x := by
  induction l generalizing m with
  | nil => exact .inl h
  | cons x l ih =>
    rcases ih h with hm | ⟨y,hy,rfl⟩
    · by_cases hn : n = x.name
      · subst hn
        rw [Finmap.lookup_insert] at hm
        exact .inr ⟨x,List.mem_cons_self,(Option.some.inj hm).symm⟩
      · rw [Finmap.lookup_insert_of_ne _ hn] at hm
        exact .inl hm
    · exact .inr ⟨y,List.mem_cons_of_mem _ hy,rfl⟩

theorem reconcile_stores (h : History interface) :
    Obeys (fun _ e => Stores e) (fun _ _ => True) h reconcile := by
  refine ⟨trivial,?_⟩
  rintro (err | (nodeList : List Node))
  · trivial
  refine ⟨trivial,?_⟩
  rintro (err | (podList : List Pod))
  · trivial
  refine ⟨trivial,?_⟩
  rintro (err | (pvcList : List PersistentVolumeClaim))
  · trivial
  refine ⟨trivial,?_⟩
  rintro (err | (eventList : List CoreEvent))
  · trivial
  refine ⟨trivial,fun coreDNS => ⟨trivial,fun order => ⟨trivial,fun t => ⟨trivial,fun order' =>
    ⟨⟨fun order'' => ?_,rfl,fun n nh hnh => ?_⟩,fun _ => trivial⟩⟩⟩⟩⟩
  · exact computeClusterHealthScore_congr rfl rfl order' order''
  · rcases lookup_foldl_insert hnh with hempty | ⟨x,-,rfl⟩
    · cases hempty
    · exact nodeHealth_scored _ x

end LosantDevice.Watcher
