import Mathlib.Data.List.TakeWhile
import Mathlib.Tactic.Ring
import LosantDevice.Script.HealthScore
import LosantDevice.Watcher.Snapshot

/-!
# The script and the watcher

Both score a cluster by one rule, and they differ in how they read its objects. On objects that
leave no room for two readings they agree, exactly if the script comes to its score at all.
-/
namespace LosantDevice.Script
open Effect Kube Monitor Program

/-! ## One rule -/

/-- How the objects of a cluster are read. -/
structure Reading where
  notReady : Node → Bool
  memoryPressure : Node → Bool
  diskPressure : Node → Bool
  pidPressure : Node → Bool
  crashLooping : Pod → Bool
  warns : CoreEvent → Bool
  resolves : ClusterState → Bool

namespace Reading
variable (rd : Reading)

def nodePoints (x : Node) : ℤ :=
  (if rd.notReady x then 20 else 0)+(if rd.memoryPressure x then 10 else 0)+
    (if rd.diskPressure x then 10 else 0)+(if rd.pidPressure x then 5 else 0)

/-- The points that a cluster loses. -/
def points (c : ClusterState) : ℤ :=
  let crashLoops : ℤ := c.pods.countP (fun p => rd.crashLooping p.toPod)
  let failed : ℤ := c.pods.countP (fun p => p.phase = .failed)
  let warnings : ℤ := c.events.countP (fun ev => rd.warns ev.toCoreEvent)
  let degraded : ℤ := c.pvcs.countP (fun pvc => pvc.phase ≠ .bound)
  (c.nodes.map rd.nodePoints).sum/c.nodes.length+min (2*crashLoops) 20+min failed 10+
    min warnings 10+min degraded 10+(if rd.resolves c then 0 else 15)

end Reading

theorem Reading.nodePoints_nonneg (rd : Reading) (x : Node) : 0 ≤ rd.nodePoints x := by
  unfold Reading.nodePoints
  split_ifs <;> decide

theorem Reading.sum_nonneg (rd : Reading) (nodes : List Node) :
    0 ≤ (nodes.map rd.nodePoints).sum := by
  induction nodes with
  | nil => exact le_rfl
  | cons x nodes ih => exact Int.add_nonneg (rd.nodePoints_nonneg x) ih

theorem Reading.points_nonneg (rd : Reading) (c : ClusterState) : 0 ≤ rd.points c := by
  have hnodes := Int.ediv_nonneg (rd.sum_nonneg c.nodes) (Int.natCast_nonneg c.nodes.length)
  unfold Reading.points
  dsimp only
  split
  · omega
  · omega

/-- What is left of 100, and what it is called. -/
def scored (points : ℤ) : ℤ × String :=
  (max 0 (100-points),healthStatusFromScore (max 0 (100-points)))

/-- As the script reads a cluster. -/
def printed : Reading where
  notReady x := statuses .ready x ≠ [.true]
  memoryPressure x := statuses .memoryPressure x = [.true]
  diskPressure x := statuses .diskPressure x = [.true]
  pidPressure x := statuses .pidPressure x = [.true]
  crashLooping p := field (cell (reasons p)) = "CrashLoopBackOff"
  warns ev := ev.type = .warning
  resolves c := c.coreDNSPods ≠ [] ∧ ∀ p ∈ c.coreDNSPods, readyStatuses p.toPod = [.true]

/-- As the watcher reads a cluster at a time. -/
def watched (now : Time) : Reading where
  notReady x := !(collectNodeHealth x).ready
  memoryPressure x := (collectNodeHealth x).memoryPressure
  diskPressure x := (collectNodeHealth x).diskPressure
  pidPressure x := (collectNodeHealth x).pidPressure
  crashLooping := isCrashLooping
  warns := isRecentWarning now
  resolves c := isCoreDNSHealthy c.coreDNS

/-! ## The script -/

/-- A cell shows a word exactly if that is the one value it has. -/
theorem cell_eq_iff {values : List String} {w : String} (hcomma : ',' ∉ w.toList)
    (hnone : w ≠ "<none>") : cell values = w ↔ values = [w] := by
  match values with
  | [] => simp [cell,hnone.symm]
  | [a] => simp [cell]
  | a::b::rest =>
    have hcell : cell (a::b::rest) = a ++ "," ++ ",".intercalate (b::rest) := by
      simp [cell,String.intercalate_cons_cons]
    simp only [hcell,List.cons.injEq,reduceCtorEq,and_false,iff_false]
    rintro rfl
    exact hcomma (by simp)

theorem cell_statuses {l : List ConditionStatus} :
    cell (l.map statusText) = "True" ↔ l = [.true] := by
  rw [cell_eq_iff (by decide) (by decide)]
  match l with
  | [] => simp
  | [st] => cases st <;> decide
  | _::_::_ => simp

theorem cell_phase {ph : ClaimPhase} : cell (phaseValue ph) = "Bound" ↔ ph = .bound := by
  rw [cell_eq_iff (by decide) (by decide)]
  cases ph <;> decide

/-- What the counts of the nodes come to. -/
def NodeCounts.weight (n : NodeCounts) : ℤ :=
  n.nodeNotReady*20+n.memPressure*10+n.diskPressure*10+n.pidPressure*5

/-- The counters move independently of each other. -/
theorem read_eq (n : NodeCounts) (x : Node) : n.read x =
    { nodeCount := n.nodeCount+1
      nodeNotReady := n.nodeNotReady+(if statuses .ready x ≠ [.true] then 1 else 0)
      memPressure := n.memPressure+(if statuses .memoryPressure x = [.true] then 1 else 0)
      diskPressure := n.diskPressure+(if statuses .diskPressure x = [.true] then 1 else 0)
      pidPressure := n.pidPressure+(if statuses .pidPressure x = [.true] then 1 else 0) } := by
  simp only [NodeCounts.read,ne_eq,cell_statuses]
  split_ifs <;> simp only [add_zero]

theorem weight_read (n : NodeCounts) (x : Node) :
    (n.read x).weight = n.weight+printed.nodePoints x := by
  simp only [read_eq,NodeCounts.weight,Reading.nodePoints,printed,decide_eq_true_eq,add_mul,ite_mul,
    one_mul,zero_mul]
  ring

theorem foldl_read (l : List Node) (n : NodeCounts) :
    (l.foldl NodeCounts.read n).nodeCount = n.nodeCount+l.length ∧
    (l.foldl NodeCounts.read n).weight = n.weight+(l.map printed.nodePoints).sum := by
  induction l generalizing n with
  | nil => simp
  | cons x l ih =>
    obtain ⟨hcount,hweight⟩ := ih (n.read x)
    rw [List.foldl_cons,hcount,hweight,weight_read,read_eq]
    simp only [List.length_cons,List.map_cons,List.sum_cons,Int.natCast_add,Int.natCast_one]
    omega

section script
variable (c : ClusterState)

theorem nodeScore_eq : (if 0 < c.nodeCounts.nodeCount then
      100-c.nodeCounts.weight.tdiv c.nodeCounts.nodeCount else 100) =
    100-(c.nodes.map printed.nodePoints).sum/c.nodes.length := by
  obtain ⟨hcount,hweight⟩ := foldl_read c.nodes {}
  have hcount : c.nodeCounts.nodeCount = c.nodes.length := hcount.trans (zero_add _)
  have hweight : c.nodeCounts.weight = (c.nodes.map printed.nodePoints).sum :=
    hweight.trans (zero_add _)
  rw [hcount,hweight,Int.tdiv_eq_ediv_of_nonneg (printed.sum_nonneg c.nodes)]
  split
  · rfl
  · rename_i hempty
    have hzero : c.nodes.length = 0 := by omega
    simp [hzero]

theorem coreDNSHealthy_eq : c.coreDNSHealthy = printed.resolves c := by
  unfold ClusterState.coreDNSHealthy
  by_cases hnone : c.coreDNSPods = []
  · simp [printed,hnone]
  · rw [if_neg hnone,Bool.eq_iff_iff]
    simp [printed,hnone,List.length_pos_iff_exists_mem,cell_statuses]

theorem crashLoopPods_eq :
    c.crashLoopPods = (c.pods.countP (fun p => printed.crashLooping p.toPod) : ℕ) := by
  simp only [ClusterState.crashLoopPods,printed,List.countP_eq_length_filter]

theorem failedPods_eq : c.failedPods = (c.pods.countP (fun p => p.phase = .failed) : ℕ) := by
  rw [List.countP_eq_length_filter]
  rfl

theorem eventWarnings_eq :
    c.eventWarnings = (c.events.countP (fun ev => printed.warns ev.toCoreEvent) : ℕ) := by
  rw [List.countP_eq_length_filter]
  rfl

theorem degradedPVCs_eq :
    c.degradedPVCs = (c.pvcs.countP (fun pvc => pvc.phase ≠ .bound) : ℕ) := by
  unfold ClusterState.degradedPVCs
  simp only [ne_eq,cell_phase,List.countP_eq_length_filter]

/-- The script scores by the rule. -/
theorem score_eq : c.score = scored (printed.points c) := by
  have hraw : (if 0 < c.nodeCounts.nodeCount then
      100-c.nodeCounts.weight.tdiv c.nodeCounts.nodeCount else 100)-atMost 20 (c.crashLoopPods*2)-
      atMost 10 c.failedPods-atMost 10 c.eventWarnings-(if c.coreDNSHealthy then 0 else 15)-
      atMost 10 c.degradedPVCs = 100-printed.points c := by
    simp only [nodeScore_eq,atMost_eq_min,crashLoopPods_eq,failedPods_eq,eventWarnings_eq,
      degradedPVCs_eq,coreDNSHealthy_eq,Reading.points]
    ring_nf
  have hnonneg := printed.points_nonneg c
  have hclamp : ∀ score : ℤ, score = 100-printed.points c →
      (if 100 < (if score < 0 then 0 else score) then 100 else if score < 0 then 0 else score) =
        max 0 (100-printed.points c) := by
    intro score hscore
    split <;> split <;> omega
  have hscore := hclamp _ hraw
  exact Prod.ext hscore (congrArg healthStatusFromScore hscore)

end script

/-! ## The watcher -/

/-- What the watcher lists and gets of the cluster at a time. -/
def ClusterState.inputs (c : ClusterState) (now : Time) : Watcher.Inputs where
  nodes := c.nodes
  pods := c.pods.map PodObject.toPod
  pvcs := c.pvcs
  events := c.events.map EventObject.toCoreEvent
  coreDNS :=
    match c.coreDNS with
    | some deploy => .ok deploy
    | none => .error ⟨.notFound,"deployments.apps \"coredns\" not found"⟩
  now := now

section watcher
variable (c : ClusterState) (now : Time)

theorem nodeDeduction_nodeHealth (perNodePods : GoMap PodCounts) (x : Node) :
    nodeDeduction (Watcher.nodeHealth perNodePods x) = (watched now).nodePoints x := by
  have hsame : nodeDeduction (Watcher.nodeHealth perNodePods x) =
      nodeDeduction (collectNodeHealth x) := by
    unfold Watcher.nodeHealth
    cases perNodePods.lookup x.name with
    | none => rfl
    | some pc => rfl
  rw [hsame,nodeDeduction_flags]
  change _ = (if !(collectNodeHealth x).ready then 20 else 0)+_+_+_
  cases (collectNodeHealth x).ready <;> rfl

theorem averageDeduction_eq : averageDeduction (c.inputs now).nodeMap =
    (c.nodes.map (watched now).nodePoints).sum/c.nodes.length := by
  have hentries := Watcher.entries_buildNodes (collectPodCounts (c.inputs now).pods).1 c.distinct
  change Finmap.entries (c.inputs now).nodeMap = _ at hentries
  unfold averageDeduction Finmap.total
  rw [hentries,Multiset.map_coe,Multiset.sum_coe,Multiset.coe_card,List.length_map,List.map_map]
  congr 2
  exact List.map_congr_left (fun x _ => nodeDeduction_nodeHealth now _ x)

theorem countP_map_toPod (q : Pod → Bool) :
    (c.inputs now).pods.countP q = c.pods.countP (fun p => q p.toPod) := List.countP_map

theorem countP_map_toCoreEvent (q : CoreEvent → Bool) :
    (c.inputs now).events.countP q = c.events.countP (fun ev => q ev.toCoreEvent) :=
  List.countP_map

section counted
variable {c now} (order : (c.inputs now).nodeMap.Order)

/-- The counters of the watcher are those of its reading. -/
theorem counted_watched :
    ((c.inputs now).counted order).crashLoopPods =
      (c.pods.countP (fun p => (watched now).crashLooping p.toPod) : ℕ) ∧
    ((c.inputs now).counted order).failedPods = (c.pods.countP (fun p => p.phase = .failed) : ℕ) ∧
    ((c.inputs now).counted order).eventWarnings =
      (c.events.countP (fun ev => (watched now).warns ev.toCoreEvent) : ℕ) ∧
    ((c.inputs now).counted order).degradedPVCs =
      (c.pvcs.countP (fun pvc => pvc.phase ≠ .bound) : ℕ) := by
  have hcounted := Watcher.counted_eq order
  rw [countP_map_toPod,countP_map_toPod,countP_map_toCoreEvent] at hcounted
  exact hcounted

theorem counted_coreDNSHealthy :
    ((c.inputs now).counted order).coreDNSHealthy = (watched now).resolves c := by
  change isCoreDNSHealthy (Except.toOption (match c.coreDNS with | some _ => _ | none => _)) =
    isCoreDNSHealthy c.coreDNS
  cases c.coreDNS with
  | none => rfl
  | some deploy => rfl

theorem counted_inRange : ((c.inputs now).counted order).InRange := by
  obtain ⟨hp,hv,he⟩ := c.fits
  exact Watcher.Inputs.Fits.inRange order
    ⟨(List.length_map _).trans_lt hp,hv,(List.length_map _).trans_lt he⟩

end counted

/-- The watcher scores by the rule. -/
theorem stored_score {s : Strategy Watcher.interface} (hs : (c.inputs now).Given s) :
    ∃ cluster nodes, Watcher.stored (run s [] Watcher.reconcile).1 = some (cluster,nodes) ∧
      (cluster.healthScore,cluster.healthStatus) = scored ((watched now).points c) := by
  obtain ⟨order,order',hstored⟩ := Watcher.stored_reconcile hs
  have hscore : ((c.inputs now).cluster order order').healthScore =
      max 0 (100-(watched now).points c) := by
    refine (computeClusterHealthScore_eq (counted_inRange order) order').trans ?_
    obtain ⟨hcrash,hfailed,hwarnings,hpvcs⟩ := counted_watched order
    rw [averageDeduction_eq,clusterDeductions,hcrash,hfailed,hwarnings,hpvcs,
      counted_coreDNSHealthy]
    refine congrArg (max 0) ?_
    simp only [Reading.points]
    ring
  exact ⟨_,_,hstored,Prod.ext hscore (congrArg healthStatusFromScore hscore)⟩

end watcher

/-! ## Where both read alike -/

theorem mem_cell {values : List String} {ch : Char} (h : ch ∈ (cell values).toList) :
    ch ∈ "<none>,".toList ∨ ∃ v ∈ values, ch ∈ v.toList := by
  by_cases hnone : values = []
  · rw [cell,if_pos hnone] at h
    exact .inl (List.mem_append_left [','] h)
  · rw [cell,if_neg hnone] at h
    clear hnone
    induction values with
    | nil => cases h
    | cons a rest ih =>
      cases rest with
      | nil => exact .inr ⟨a,List.mem_cons_self,by simpa using h⟩
      | cons b rest =>
        rw [String.intercalate_cons_cons] at h
        simp only [String.toList_append,List.mem_append] at h
        rcases h with (ha | hcomma) | hrest
        · exact .inr ⟨a,List.mem_cons_self,ha⟩
        · exact .inl (List.mem_append_right "<none>".toList hcomma)
        · refine (ih hrest).imp_right ?_
          rintro ⟨v,hv,hch⟩
          exact ⟨v,List.mem_cons_of_mem _ hv,hch⟩

theorem field_eq_self {t : String} (h : ∀ ch ∈ t.toList, isBlank ch = false) : field t = t := by
  have hdrop : t.toList.dropWhile isBlank = t.toList :=
    List.dropWhile_eq_self_iff.mpr (fun hl => by simp [h _ (List.getElem_mem hl)])
  have htake : t.toList.takeWhile (fun ch => !isBlank ch) = t.toList :=
    List.takeWhile_eq_self_iff.mpr (fun ch hch => by simp [h ch hch])
  rw [field,hdrop,htake,String.ofList_toList]

/-- What the script takes for granted: a node lists a condition once, a container that crash-loops
is the only one of its pod that waits, warnings are recent, and CoreDNS is available exactly if all
of its pods are ready. -/
structure Plain (c : ClusterState) (now : Time) : Prop where
  conditions : ∀ x ∈ c.nodes, ∀ ty, (statuses ty x).length ≤ 1
  words : ∀ p ∈ c.pods, ∀ r ∈ reasons p.toPod, ∀ ch ∈ r.toList, isBlank ch = false
  waiting : ∀ p ∈ c.pods, "CrashLoopBackOff" ∈ reasons p.toPod →
    reasons p.toPod = ["CrashLoopBackOff"]
  recent : ∀ ev ∈ c.events, ev.type = .warning → (now : ℤ)-warningWindow < ev.lastSeen
  coreDNS : isCoreDNSHealthy c.coreDNS = true ↔
    c.coreDNSPods ≠ [] ∧ ∀ p ∈ c.coreDNSPods, readyStatuses p.toPod = [.true]

/-- What a health says about a type of conditions. -/
def shows : NodeConditionType → NodeHealth → Bool
  | .ready,h => h.ready
  | .memoryPressure,h => h.memoryPressure
  | .diskPressure,h => h.diskPressure
  | .pidPressure,h => h.pidPressure
  | .other _,_ => false

section flags
variable {ty : NodeConditionType} (hty : ∀ name, ty ≠ .other name)
include hty

theorem shows_withNodeCondition (h : NodeHealth) (cond : NodeCondition) :
    shows ty (h.withNodeCondition cond) =
      if cond.type = ty then decide (cond.status = .true) else shows ty h := by
  unfold NodeHealth.withNodeCondition
  cases ty with
  | other name => exact absurd rfl (hty name)
  | ready | memoryPressure | diskPressure | pidPressure => split <;> simp_all [shows]

theorem shows_foldl (l : List NodeCondition) (h : NodeHealth) :
    shows ty (l.foldl NodeHealth.withNodeCondition h) =
      ((l.filter (fun cond => cond.type = ty)).map NodeCondition.status).foldl
        (fun _ st => decide (st = .true)) (shows ty h) := by
  induction l generalizing h with
  | nil => rfl
  | cons cond l ih =>
    rw [List.foldl_cons,ih,shows_withNodeCondition hty]
    by_cases htype : cond.type = ty
    · simp [htype]
    · simp [htype]

/-- The last condition of a type decides, so a single one does. -/
theorem shows_collectNodeHealth {x : Node} (hone : (statuses ty x).length ≤ 1) :
    shows ty (collectNodeHealth x) = decide (statuses ty x = [.true]) := by
  have hfold := shows_foldl hty x.conditions
    { name := x.name, ready := false, memoryPressure := false, diskPressure := false
      pidPressure := false, cpuRequestPct := 0, memRequestPct := 0, podCount := 0
      notReadyPods := 0, crashLoopPods := 0, healthScore := 0, healthStatus := "" }
  change _ = (statuses ty x).foldl _ _ at hfold
  have hlast : shows ty (collectNodeHealth x) =
      (statuses ty x).foldl (fun _ st => decide (st = .true)) false := by
    cases ty with
    | other name => exact absurd rfl (hty name)
    | ready | memoryPressure | diskPressure | pidPressure => exact hfold
  rw [hlast]
  match hl : statuses ty x with
  | [] => rfl
  | [st] => simp
  | _::_::_ =>
    rw [hl] at hone
    simp at hone

end flags

section plain
variable {c : ClusterState} {now : Time}

theorem Plain.nodePoints_eq (hc : Plain c now) {x : Node} (hx : x ∈ c.nodes) :
    printed.nodePoints x = (watched now).nodePoints x := by
  have hshows : ∀ ty, (∀ name, ty ≠ .other name) →
      shows ty (collectNodeHealth x) = decide (statuses ty x = [.true]) :=
    fun ty hty => shows_collectNodeHealth hty (hc.conditions x hx ty)
  have hready : (collectNodeHealth x).ready = _ := hshows .ready nofun
  have hmemory : (collectNodeHealth x).memoryPressure = _ := hshows .memoryPressure nofun
  have hdisk : (collectNodeHealth x).diskPressure = _ := hshows .diskPressure nofun
  have hpid : (collectNodeHealth x).pidPressure = _ := hshows .pidPressure nofun
  simp [Reading.nodePoints,printed,watched,hready,hmemory,hdisk,hpid]

theorem mem_reasons {p : Pod} : "CrashLoopBackOff" ∈ reasons p ↔ isCrashLooping p = true := by
  simp [reasons,isCrashLooping]

theorem Plain.crashLooping_eq (hc : Plain c now) {p : PodObject} (hp : p ∈ c.pods) :
    printed.crashLooping p.toPod = isCrashLooping p.toPod := by
  have hnone : ∀ ch ∈ "<none>,".toList, isBlank ch = false := by simp [isBlank]
  have hblank : ∀ ch ∈ (cell (reasons p.toPod)).toList, isBlank ch = false := by
    intro ch hch
    rcases mem_cell hch with hch | ⟨r,hr,hch⟩
    · exact hnone ch hch
    · exact hc.words p hp r hr ch hch
  rw [Bool.eq_iff_iff,← mem_reasons]
  simp only [printed,decide_eq_true_eq]
  rw [field_eq_self hblank,cell_eq_iff (by decide) (by decide)]
  constructor
  · intro h
    rw [h]
    exact List.mem_cons_self
  · exact hc.waiting p hp

/-- On such a cluster no object is read in two ways. -/
theorem Plain.points_eq (hc : Plain c now) : printed.points c = (watched now).points c := by
  have hnodes : c.nodes.map printed.nodePoints = c.nodes.map (watched now).nodePoints :=
    List.map_congr_left (fun x hx => hc.nodePoints_eq hx)
  have hcrash : c.pods.countP (fun p => printed.crashLooping p.toPod) =
      c.pods.countP (fun p => (watched now).crashLooping p.toPod) :=
    List.countP_congr (fun p hp => by rw [hc.crashLooping_eq hp]; rfl)
  have hwarns : c.events.countP (fun ev => printed.warns ev.toCoreEvent) =
      c.events.countP (fun ev => (watched now).warns ev.toCoreEvent) := by
    refine List.countP_congr (fun ev hev => ?_)
    simp only [printed,watched,isRecentWarning,decide_eq_true_eq]
    exact ⟨fun hw => ⟨hw,hc.recent ev hev hw⟩,And.left⟩
  have hdns : printed.resolves c = (watched now).resolves c := by
    rw [Bool.eq_iff_iff]
    simpa [printed,watched] using hc.coreDNS.symm
  simp only [Reading.points,hnodes,hcrash,hwarns,hdns]

end plain

/-! ## Agreement -/

/-- The watcher stores the score and the status that the script prints. -/
def Agrees (pipe : ℕ) (c : ClusterState) (s : Strategy Watcher.interface) : Prop :=
  ∃ cluster nodes, Watcher.stored (run s [] Watcher.reconcile).1 = some (cluster,nodes) ∧
    c.healthScore pipe = some (cluster.healthScore,cluster.healthStatus)

/-- For every cluster without an object that could be read in two ways, at every time, whatever the
orders of the ranges over the map and whatever the pipe takes. -/
theorem plain_agrees_iff (pipe : ℕ) (c : ClusterState) (now : Time)
    (s : Strategy Watcher.interface) (hs : (c.inputs now).Given s) (hc : Plain c now) :
    Agrees pipe c s ↔ ¬c.Cut pipe := by
  obtain ⟨cluster,nodes,hstored,hscore⟩ := stored_score c now hs
  have hsame : c.score = (cluster.healthScore,cluster.healthStatus) := by
    rw [hscore,score_eq,hc.points_eq]
  constructor
  · rintro ⟨cluster',nodes',-,hprinted⟩ hcut
    rw [ClusterState.healthScore,if_pos hcut] at hprinted
    cases hprinted
  · intro hcut
    exact ⟨cluster,nodes,hstored,by rw [ClusterState.healthScore,if_neg hcut,hsame]⟩

/-- A pod of CoreDNS. -/
def dnsPod (ready : ConditionStatus) : PodObject where
  phase := .running
  conditions := [⟨.ready,ready⟩]
  namespace_ := "kube-system"
  labels := (∅ : GoMap String).insert "k8s-app" "kube-dns"

/-- A pod whose containers wait for these reasons, or do not wait. -/
def waitingPod (waiting : List (Option String)) : PodObject where
  phase := .running
  containerStatuses := waiting.map fun r => ⟨r⟩
  namespace_ := "default"

def noon : Time := 12*60*Go.minute

/-- A node under pressure, a pod with one of two containers crash-looping, and a new warning. -/
def troubled : ClusterState where
  nodes := [{ name := "n1", conditions := [⟨.ready,.true⟩,⟨.memoryPressure,.true⟩] }]
  pods := [dnsPod .true,waitingPod [some "CrashLoopBackOff",none]]
  pvcs := [⟨.lost⟩]
  events := [{ type := .warning, lastTimestamp := noon, reason := "BackOff", message := "failed" }]
  coreDNS := some ⟨1⟩
  distinct := by decide
  fits := by decide

theorem troubled_plain : Plain troubled noon where
  conditions := by
    intro x hx ty
    obtain rfl := List.mem_singleton.mp hx
    cases ty <;> simp [statuses]
  words := by simp [troubled,reasons,dnsPod,waitingPod,isBlank]
  waiting := by simp [troubled,reasons,dnsPod,waitingPod]
  recent := by decide +kernel
  coreDNS := by decide +kernel

theorem plain_agrees_troubled : Plain troubled noon ∧
    troubled.healthScore 65536 = some (86,"healthy") ∧
    Agrees 65536 troubled (troubled.inputs noon).reads.strategy := by
  refine ⟨troubled_plain,by decide +kernel,?_⟩
  refine (plain_agrees_iff 65536 troubled noon _ (troubled.inputs noon).reads.given_strategy
    troubled_plain).mpr ?_
  decide +kernel

/-- A pod with both containers crash-looping, ten warnings from hours ago, and one of the two pods
of CoreDNS not ready. -/
def misread : ClusterState where
  nodes := [{ name := "n1", conditions := [⟨.ready,.true⟩] }]
  pods := [dnsPod .true,dnsPod .false,
    waitingPod [some "CrashLoopBackOff",some "CrashLoopBackOff"]]
  pvcs := []
  events := List.replicate 10 { type := .warning, lastTimestamp := 10*60*Go.minute }
  coreDNS := some ⟨1⟩
  distinct := by decide
  fits := by decide

def backOff : EventObject :=
  { type := .warning, lastTimestamp := noon, reason := "BackOff", message := "restarting" }

/-- Many warnings of one word. -/
def flooded : ClusterState where
  nodes := [{ name := "n1", conditions := [⟨.ready,.true⟩] }]
  pods := [dnsPod .true]
  pvcs := []
  events := List.replicate 4000 backOff
  coreDNS := some ⟨1⟩
  distinct := by decide
  fits := ⟨by decide,by decide,by rw [List.length_replicate]; decide⟩

theorem flooded_cut : flooded.Cut 65536 := by
  have hlines : backOff.warnLines = ["  default BackOff: restarting"] := by decide +kernel
  have hlist : flooded.warnList = List.replicate 4000 "  default BackOff: restarting" := by
    change (List.replicate 4000 backOff).flatMap EventObject.warnLines = _
    rw [List.flatMap_replicate,hlines,List.flatten_replicate_singleton]
  unfold ClusterState.Cut ClusterState.warnBytes
  rw [hlist,List.length_replicate,List.map_replicate,List.sum_replicate]
  decide +kernel

/-- The script reads a cluster as a worse one, and on another it comes to no score. -/
theorem script_disagrees :
    (misread.healthScore 65536 = some (75,"degraded") ∧ ∃ cluster nodes,
      Watcher.stored (run (misread.inputs noon).reads.strategy [] Watcher.reconcile).1 =
        some (cluster,nodes) ∧ (cluster.healthScore,cluster.healthStatus) = (98,"healthy")) ∧
    flooded.healthScore 65536 = none ∧ ∃ cluster nodes,
      Watcher.stored (run (flooded.inputs noon).reads.strategy [] Watcher.reconcile).1 =
        some (cluster,nodes) := by
  refine ⟨⟨by decide +kernel,?_⟩,if_pos flooded_cut,?_⟩
  · obtain ⟨cluster,nodes,hstored,hscore⟩ :=
      stored_score misread noon (misread.inputs noon).reads.given_strategy
    have hpoints : scored ((watched noon).points misread) = (98,"healthy") := by decide +kernel
    exact ⟨cluster,nodes,hstored,hscore.trans hpoints⟩
  · obtain ⟨cluster,nodes,hstored,-⟩ :=
      stored_score flooded noon (flooded.inputs noon).reads.given_strategy
    exact ⟨cluster,nodes,hstored⟩

end LosantDevice.Script
