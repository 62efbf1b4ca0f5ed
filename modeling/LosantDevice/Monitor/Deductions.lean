import Mathlib.Algebra.Order.Group.Int
import LosantDevice.Monitor.Score

/-!
# The score as a sum of deductions

With counters in range nothing wraps, and the score is what is left of 100 when the average over
the nodes and the deductions for the cluster are taken off, but no less than 0.
-/
namespace LosantDevice.Monitor
open Go

/-- The counters that are scored are as the collectors make them. -/
structure ClusterHealth.InRange (cluster : ClusterHealth) : Prop where
  crashLoopPods : 0 ≤ cluster.crashLoopPods ∧ cluster.crashLoopPods < 2^62
  failedPods : 0 ≤ cluster.failedPods ∧ cluster.failedPods < 2^62
  eventWarnings : 0 ≤ cluster.eventWarnings ∧ cluster.eventWarnings < 2^62
  degradedPVCs : 0 ≤ cluster.degradedPVCs ∧ cluster.degradedPVCs < 2^62

/-- What is counted in a list that is in memory is in range. -/
theorem countP_inRange {α : Type} (q : α → Bool) {l : List α} (hl : l.length < 2^62) :
    (0 : ℤ) ≤ (l.countP q : ℕ) ∧ ((l.countP q : ℕ) : ℤ) < 2^62 := by
  have hle := l.countP_le_length (p := q)
  omega

def clusterDeductions (cluster : ClusterHealth) : ℤ :=
  min (2*cluster.crashLoopPods) 20+min cluster.failedPods 10+min cluster.eventWarnings 10+
    min cluster.degradedPVCs 10+(if cluster.coreDNSHealthy then 0 else 15)

/-- The average over the nodes, rounded down. -/
def averageDeduction (nodes : GoMap NodeHealth) : ℤ :=
  nodes.total nodeDeduction/nodes.entries.card

/-! ## Nodes -/

theorem nodeDeduction_bounds (n : NodeHealth) : 0 ≤ nodeDeduction n ∧ nodeDeduction n ≤ 45 := by
  unfold nodeDeduction
  dsimp only
  split_ifs <;> decide

theorem nodeDeduction_flags (n : NodeHealth) : nodeDeduction n =
    (if n.ready then 0 else 20)+(if n.memoryPressure then 10 else 0)+
      (if n.diskPressure then 10 else 0)+(if n.pidPressure then 5 else 0) := by
  unfold nodeDeduction
  dsimp only
  split_ifs <;> rfl

/-- The two tables agree: no node loses so much that its score is cut off. -/
theorem nodeDeduction_eq (n : NodeHealth) : nodeDeduction n = 100-computeNodeHealthScore n := by
  unfold nodeDeduction computeNodeHealthScore
  dsimp only
  split_ifs <;> decide

theorem total_nodeDeduction_bounds (nodes : GoMap NodeHealth) :
    0 ≤ nodes.total nodeDeduction ∧ nodes.total nodeDeduction ≤ 45*nodes.entries.card := by
  constructor
  · refine Multiset.sum_nonneg (fun d hd => ?_)
    obtain ⟨p,-,rfl⟩ := Multiset.mem_map.mp hd
    exact (nodeDeduction_bounds p.2).1
  · have hle : ∀ d ∈ nodes.entries.map (fun p => nodeDeduction p.2), d ≤ 45 := by
      intro d hd
      obtain ⟨p,-,rfl⟩ := Multiset.mem_map.mp hd
      exact (nodeDeduction_bounds p.2).2
    have hsum := Multiset.sum_le_card_nsmul _ 45 hle
    rw [Multiset.card_map] at hsum
    simpa [Finmap.total,mul_comm] using hsum

theorem averageDeduction_bounds (nodes : GoMap NodeHealth) :
    0 ≤ averageDeduction nodes ∧ averageDeduction nodes ≤ 45 := by
  obtain ⟨hlo,hhi⟩ := total_nodeDeduction_bounds nodes
  refine ⟨Int.ediv_nonneg hlo (Int.natCast_nonneg _),?_⟩
  rcases Nat.eq_zero_or_pos nodes.entries.card with hempty | hpos
  · simp [averageDeduction,hempty]
  · exact Int.ediv_le_of_le_mul (Int.natCast_pos.mpr hpos) hhi

/-- Less to average, or more nodes to average over. -/
theorem averageDeduction_le {nodes nodes' : GoMap NodeHealth}
    (htotal : nodes'.total nodeDeduction ≤ nodes.total nodeDeduction)
    (hcard : nodes.entries.card ≤ nodes'.entries.card) :
    averageDeduction nodes' ≤ averageDeduction nodes := by
  obtain ⟨hlo,hhi⟩ := total_nodeDeduction_bounds nodes
  obtain ⟨hlo',-⟩ := total_nodeDeduction_bounds nodes'
  obtain ⟨havg',-⟩ := averageDeduction_bounds nodes'
  rcases Nat.eq_zero_or_pos nodes.entries.card with hempty | hpos
  · have hzero : nodes'.total nodeDeduction = 0 := by
      rw [hempty] at hhi
      omega
    simp [averageDeduction,hempty,hzero]
  · refine Int.le_ediv_of_mul_le (Int.natCast_pos.mpr hpos) ?_
    calc averageDeduction nodes'*nodes.entries.card
        ≤ averageDeduction nodes'*nodes'.entries.card :=
          Int.mul_le_mul_of_nonneg_left (Int.ofNat_le.mpr hcard) havg'
      _ ≤ nodes'.total nodeDeduction := Int.ediv_mul_le _ (by omega)
      _ ≤ nodes.total nodeDeduction := htotal

/-! ## The cluster -/

theorem atMost_eq_min (limit v : ℤ) : atMost limit v = min v limit := by
  unfold atMost
  split <;> omega

theorem capped_bounds {v l : ℤ} (hv : 0 ≤ v) (hl : 0 ≤ l) : 0 ≤ min v l ∧ min v l ≤ l :=
  ⟨le_min hv hl,min_le_right v l⟩

theorem wrapInt64_deduct {s d : ℤ} (hs : -100 ≤ s ∧ s ≤ 100) (hd : 0 ≤ d ∧ d ≤ 20) :
    wrapInt64 (s-d) = s-d := by
  have hmin : minDuration ≤ (-120 : ℤ) := by decide
  have hmax : (100 : ℤ) ≤ maxDuration := by decide
  exact wrapInt64_eq_self (Int.le_trans hmin (by omega)) (Int.le_trans (by omega) hmax)

section cluster
variable {cluster : ClusterHealth} {nodes : GoMap NodeHealth}

theorem nodes_deducted (order : nodes.Order) :
    (if 0 < order.val.length then
      100-(totalNodeDeductions order.val 0).tdiv order.val.length else 100) =
      100-averageDeduction nodes := by
  obtain ⟨hlo,-⟩ := total_nodeDeduction_bounds nodes
  rw [totalNodeDeductions_eq,zero_add,order.sum_map_eq,order.length_eq,
    Int.tdiv_eq_ediv_of_nonneg hlo]
  split
  · rfl
  · rename_i hempty
    have hcard : nodes.entries.card = 0 := by omega
    simp [averageDeduction,hcard]

/-- The score, whatever the order of the range. -/
theorem computeClusterHealthScore_eq (hc : cluster.InRange) (order : nodes.Order) :
    computeClusterHealthScore cluster nodes order =
      max 0 (100-averageDeduction nodes-clusterDeductions cluster) := by
  obtain ⟨hcrash,hfailed,hwarn,hpvc⟩ := hc
  have hdouble : wrapInt64 (cluster.crashLoopPods*2) = 2*cluster.crashLoopPods := by
    have hmin : minDuration ≤ (0 : ℤ) := by decide
    have hmax : (2^63-2 : ℤ) ≤ maxDuration := by decide
    rw [mul_comm]
    exact wrapInt64_eq_self (Int.le_trans hmin (by omega)) (Int.le_trans (by omega) hmax)
  have h₁ := capped_bounds (v := 2*cluster.crashLoopPods) (by omega) (l := 20) (by decide)
  have h₂ := capped_bounds hfailed.1 (l := 10) (by decide)
  have h₃ := capped_bounds hwarn.1 (l := 10) (by decide)
  have h₄ := capped_bounds hpvc.1 (l := 10) (by decide)
  unfold computeClusterHealthScore clusterDeductions
  dsimp only
  rw [nodes_deducted order,hdouble]
  simp only [atMost_eq_min]
  -- From here on each deduction is a number within its limit.
  generalize min (2*cluster.crashLoopPods) 20 = d₁ at *
  generalize min cluster.failedPods 10 = d₂ at *
  generalize min cluster.eventWarnings 10 = d₃ at *
  generalize min cluster.degradedPVCs 10 = d₄ at *
  obtain ⟨havg,havg'⟩ := averageDeduction_bounds nodes
  generalize averageDeduction nodes = avg at *
  rw [wrapInt64_deduct (d := d₁) (by omega) (by omega),
    wrapInt64_deduct (d := d₂) (by omega) (by omega),
    wrapInt64_deduct (d := d₃) (by omega) (by omega),
    wrapInt64_deduct (d := 15) (by omega) (by omega),
    wrapInt64_deduct (d := d₄) (by split <;> omega) (by omega)]
  unfold clamp
  split_ifs <;> omega

end cluster

/-- No counter of the cluster takes anything off its score. -/
structure ClusterHealth.Untroubled (cluster : ClusterHealth) : Prop where
  crashLoopPods : cluster.crashLoopPods = 0
  failedPods : cluster.failedPods = 0
  eventWarnings : cluster.eventWarnings = 0
  degradedPVCs : cluster.degradedPVCs = 0
  coreDNS : cluster.coreDNSHealthy = true

/-- For every map, every record with counters in range and every order of the range over the map.
The average over no nodes is 0, as a quotient by 0 is. -/
theorem score_of_node_scores (cluster : ClusterHealth) (hc : cluster.InRange)
    (nodes : GoMap NodeHealth) (order : nodes.Order) :
    (cluster.Untroubled → computeClusterHealthScore cluster nodes order =
      100-(nodes.entries.map (fun p => 100-computeNodeHealthScore p.2)).sum/nodes.entries.card) ∧
    computeClusterHealthScore cluster nodes order =
      max 0
        (100-(nodes.entries.map (fun p => 100-computeNodeHealthScore p.2)).sum/nodes.entries.card-
        min (2*cluster.crashLoopPods) 20-min cluster.failedPods 10-min cluster.eventWarnings 10-
        min cluster.degradedPVCs 10-(if cluster.coreDNSHealthy then 0 else 15)) ∧
    ∀ order' : nodes.Order, computeClusterHealthScore cluster nodes order' =
      computeClusterHealthScore cluster nodes order := by
  have hsum : (nodes.entries.map (fun p => 100-computeNodeHealthScore p.2)).sum =
      nodes.total nodeDeduction := by
    simp only [Finmap.total,nodeDeduction_eq]
  obtain ⟨-,havg⟩ := averageDeduction_bounds nodes
  have hscore := computeClusterHealthScore_eq hc order
  rw [hsum]
  change (_ → _ = 100-averageDeduction nodes) ∧ _ = max 0 (100-averageDeduction nodes-_-_-_-_-_) ∧ _
  refine ⟨fun hu => ?_,?_,fun order' => computeClusterHealthScore_congr rfl rfl order' order⟩
  · have hnone : clusterDeductions cluster = 0 := by
      unfold clusterDeductions
      simp [hu.crashLoopPods,hu.failedPods,hu.eventWarnings,hu.degradedPVCs,hu.coreDNS]
    rw [hscore,hnone]
    omega
  · rw [hscore,clusterDeductions]
    congr 1
    omega

/-- A node without pods. -/
def bareNode (name : String) (ready memoryPressure : Bool) : NodeHealth where
  name := name
  ready := ready
  memoryPressure := memoryPressure
  diskPressure := false
  pidPressure := false
  cpuRequestPct := 0
  memRequestPct := 0
  podCount := 0
  notReadyPods := 0
  crashLoopPods := 0
  healthScore := 0
  healthStatus := ""

/-- The example worked out in `docs/calculating-health.md`: one node of three is short of memory. -/
def threeNodes : List NodeHealth :=
  [bareNode "n1" true true,bareNode "n2" true false,bareNode "n3" true false]

def threeNodesMap : GoMap NodeHealth :=
  threeNodes.foldl (fun m n => m.insert n.name n) ∅

def threeNodesOrder : threeNodesMap.Order :=
  ⟨(threeNodes.map (fun n => ⟨n.name,n⟩)).reverse,by decide +kernel⟩

def someProblems : ClusterHealth :=
  { crashLoopPods := 3, eventWarnings := 8, coreDNSHealthy := true }

theorem someProblems_inRange : someProblems.InRange := by constructor <;> decide

theorem score_of_node_scores_threeNodes :
    computeClusterHealthScore someProblems threeNodesMap threeNodesOrder = 83 ∧
    computeClusterHealthScore someProblems threeNodesMap threeNodesOrder =
      max 0 (100-(threeNodesMap.entries.map (fun p => 100-computeNodeHealthScore p.2)).sum/
        threeNodesMap.entries.card-min (2*3) 20-min 0 10-min 8 10-min 0 10-0) :=
  ⟨by decide +kernel,
    (score_of_node_scores someProblems someProblems_inRange threeNodesMap threeNodesOrder).2.1⟩

/-! ## Snapshots compared -/

/-- The node may only lose `Ready` and gain pressure flags. -/
structure NodeHealth.Worsens (n n' : NodeHealth) : Prop where
  ready : n'.ready = true → n.ready = true
  memoryPressure : n.memoryPressure = true → n'.memoryPressure = true
  diskPressure : n.diskPressure = true → n'.diskPressure = true
  pidPressure : n.pidPressure = true → n'.pidPressure = true

/-- The second snapshot is over the same names and is nowhere better than the first. -/
structure Worsens (cluster : ClusterHealth) (nodes : GoMap NodeHealth) (cluster' : ClusterHealth)
    (nodes' : GoMap NodeHealth) : Prop where
  names : ∀ name, name ∈ nodes ↔ name ∈ nodes'
  nodes : ∀ name n n', nodes.lookup name = some n → nodes'.lookup name = some n' → n.Worsens n'
  crashLoopPods : cluster.crashLoopPods ≤ cluster'.crashLoopPods
  failedPods : cluster.failedPods ≤ cluster'.failedPods
  eventWarnings : cluster.eventWarnings ≤ cluster'.eventWarnings
  degradedPVCs : cluster.degradedPVCs ≤ cluster'.degradedPVCs
  coreDNS : cluster'.coreDNSHealthy = true → cluster.coreDNSHealthy = true

def BetterStatus (a b : String) : Prop :=
  a = "healthy" ∧ (b = "degraded" ∨ b = "critical") ∨ a = "degraded" ∧ b = "critical"

/-- A node that takes nothing off the score. -/
def NodeHealth.Sound (n : NodeHealth) : Prop :=
  n.ready = true ∧ n.memoryPressure = false ∧ n.diskPressure = false ∧ n.pidPressure = false

/-- What is taken off for a flag that is not set is taken off for every flag that is lost. -/
theorem unset_le {a b : Bool} (h : b = true → a = true) {d : ℤ} (hd : 0 ≤ d) :
    (if a then 0 else d) ≤ if b then 0 else d := by
  cases a <;> cases b <;> simp_all

theorem set_le {a b : Bool} (h : a = true → b = true) {d : ℤ} (hd : 0 ≤ d) :
    (if a then d else 0) ≤ if b then d else 0 := by
  cases a <;> cases b <;> simp_all

theorem NodeHealth.Worsens.nodeDeduction_le {n n' : NodeHealth} (h : n.Worsens n') :
    nodeDeduction n ≤ nodeDeduction n' := by
  have hr := unset_le h.ready (d := 20) (by decide)
  have hm := set_le h.memoryPressure (d := 10) (by decide)
  have hd := set_le h.diskPressure (d := 10) (by decide)
  have hp := set_le h.pidPressure (d := 5) (by decide)
  rw [nodeDeduction_flags,nodeDeduction_flags]
  omega

theorem not_betterStatus {score score' : ℤ} (h : score' ≤ score) :
    ¬BetterStatus (healthStatusFromScore score') (healthStatusFromScore score) := by
  unfold BetterStatus healthStatusFromScore
  split_ifs <;> first | decide | omega

section compared
variable {cluster cluster' : ClusterHealth} {nodes nodes' : GoMap NodeHealth}

theorem Worsens.clusterDeductions_le (h : Worsens cluster nodes cluster' nodes') :
    clusterDeductions cluster ≤ clusterDeductions cluster' := by
  obtain ⟨-,-,hcrash,hfailed,hwarn,hpvc,hdns⟩ := h
  have hdns' := unset_le hdns (d := 15) (by decide)
  have hcrash' :=
    min_le_min_right 20 (Int.mul_le_mul_of_nonneg_left hcrash (by decide : (0 : ℤ) ≤ 2))
  have hfailed' := min_le_min_right 10 hfailed
  have hwarn' := min_le_min_right 10 hwarn
  have hpvc' := min_le_min_right 10 hpvc
  exact add_le_add (add_le_add (add_le_add (add_le_add hcrash' hfailed') hwarn') hpvc') hdns'

theorem Worsens.averageDeduction_le (h : Worsens cluster nodes cluster' nodes') :
    averageDeduction nodes ≤ averageDeduction nodes' := by
  have hkeys : nodes'.keys = nodes.keys :=
    Finset.ext (fun k => by simpa only [Finmap.mem_keys] using (h.names k).symm)
  refine Monitor.averageDeduction_le ?_ ?_
  · exact Finmap.total_le_total h.names
      (fun k n n' hn hn' => (h.nodes k n n' hn hn').nodeDeduction_le)
  · rw [Finmap.card_entries,Finmap.card_entries,hkeys]

theorem averageDeduction_insert_le {n : NodeHealth} (hn : n.Sound) (nodes : GoMap NodeHealth)
    (name : String) :
    averageDeduction (nodes.insert name n) ≤ averageDeduction nodes := by
  have hnone : nodeDeduction n = 0 := by
    obtain ⟨hr,hm,hd,hp⟩ := hn
    simp [nodeDeduction,hr,hm,hd,hp]
  -- A node that had the name before is replaced, and what was taken off for it is not any more.
  have hold : 0 ≤ (nodes.lookup name).elim 0 nodeDeduction := by
    cases nodes.lookup name with
    | none => exact Int.le_refl 0
    | some old => exact (nodeDeduction_bounds old).1
  have htotal := Finmap.total_insert nodeDeduction nodes name n
  refine Monitor.averageDeduction_le (by omega) ?_
  rw [Finmap.card_entries,Finmap.card_entries,Finmap.keys_insert]
  exact Finset.card_le_card (Finset.insert_erase_subset name nodes.keys)

end compared

/-- For every record with counters in range, every map of nodes and every order of the ranges. -/
theorem score_bounded_and_monotone (cluster : ClusterHealth) (hc : cluster.InRange)
    (nodes : GoMap NodeHealth) (order : nodes.Order) :
    (0 ≤ computeClusterHealthScore cluster nodes order ∧
      computeClusterHealthScore cluster nodes order ≤ 100) ∧
    (∀ cluster' nodes' (order' : nodes'.Order), cluster'.InRange →
      Worsens cluster nodes cluster' nodes' →
      computeClusterHealthScore cluster' nodes' order' ≤
        computeClusterHealthScore cluster nodes order ∧
      ¬BetterStatus (healthStatusFromScore (computeClusterHealthScore cluster' nodes' order'))
        (healthStatusFromScore (computeClusterHealthScore cluster nodes order))) ∧
    ∀ name n, n.Sound → ∀ order' : GoMap.Order (nodes.insert name n),
      computeClusterHealthScore cluster nodes order ≤
        computeClusterHealthScore cluster (nodes.insert name n) order' := by
  refine ⟨computeClusterHealthScore_bounds cluster nodes order,?_,?_⟩
  · intro cluster' nodes' order' hc' hw
    have hle : computeClusterHealthScore cluster' nodes' order' ≤
        computeClusterHealthScore cluster nodes order := by
      have havg := hw.averageDeduction_le
      have hded := hw.clusterDeductions_le
      rw [computeClusterHealthScore_eq hc,computeClusterHealthScore_eq hc']
      omega
    exact ⟨hle,not_betterStatus hle⟩
  · intro name n hn order'
    have havg := averageDeduction_insert_le hn nodes name
    rw [computeClusterHealthScore_eq hc,computeClusterHealthScore_eq hc]
    omega

/-- The same nodes and cluster later: a node is lost and CoreDNS with it. -/
def fewerNodesMap : GoMap NodeHealth := threeNodesMap.insert "n2" (bareNode "n2" false false)

def fewerNodesOrder : fewerNodesMap.Order :=
  ⟨⟨"n2",bareNode "n2" false false⟩::
    ([bareNode "n3" true false,bareNode "n1" true true].map (fun n => ⟨n.name,n⟩)),
    by decide +kernel⟩

def moreProblems : ClusterHealth := { someProblems with degradedPVCs := 2, coreDNSHealthy := false }

theorem moreProblems_worsens : Worsens someProblems threeNodesMap moreProblems fewerNodesMap where
  names name := by
    have hmem : "n2" ∈ threeNodesMap := by decide +kernel
    rw [fewerNodesMap,Finmap.mem_insert]
    constructor
    · exact .inr
    · rintro (rfl | h)
      · exact hmem
      · exact h
  nodes name n n' hn hn' := by
    by_cases he : name = "n2"
    · subst he
      have hold : threeNodesMap.lookup "n2" = some (bareNode "n2" true false) := by decide +kernel
      rw [fewerNodesMap,Finmap.lookup_insert] at hn'
      obtain rfl := Option.some.inj (hold.symm.trans hn)
      obtain rfl := Option.some.inj hn'
      constructor <;> decide
    · rw [fewerNodesMap,Finmap.lookup_insert_of_ne _ he,hn] at hn'
      obtain rfl := Option.some.inj hn'
      exact ⟨id,id,id,id⟩
  crashLoopPods := Int.le_refl _
  failedPods := Int.le_refl _
  eventWarnings := Int.le_refl _
  degradedPVCs := by decide
  coreDNS := nofun

theorem score_bounded_and_monotone_threeNodes :
    (computeClusterHealthScore moreProblems fewerNodesMap fewerNodesOrder ≤
        computeClusterHealthScore someProblems threeNodesMap threeNodesOrder ∧
      ¬BetterStatus
        (healthStatusFromScore
          (computeClusterHealthScore moreProblems fewerNodesMap fewerNodesOrder))
        (healthStatusFromScore
          (computeClusterHealthScore someProblems threeNodesMap threeNodesOrder))) ∧
    ∀ order' : GoMap.Order (threeNodesMap.insert "n4" (bareNode "n4" true false)),
      computeClusterHealthScore someProblems threeNodesMap threeNodesOrder ≤
        computeClusterHealthScore someProblems _ order' :=
  have h := score_bounded_and_monotone someProblems someProblems_inRange threeNodesMap
    threeNodesOrder
  ⟨h.2.1 moreProblems fewerNodesMap fewerNodesOrder (by constructor <;> decide)
      moreProblems_worsens,
    h.2.2 "n4" (bareNode "n4" true false) ⟨rfl,rfl,rfl,rfl⟩⟩

end LosantDevice.Monitor
