import LosantDevice.Watcher.Reconcile

/-!
# The counts of the pods

The loop of `CollectPodCounts` keeps the counts of the cluster and those of each node at once. Both
are sums over the pods, of what a pod counts for.
-/
namespace LosantDevice.Watcher
open Kube Monitor

/-! ## One pod -/

instance : Zero PodCounts := ⟨{}⟩

instance : Add PodCounts :=
  ⟨fun c d => ⟨c.total+d.total,c.running+d.running,c.failed+d.failed,c.pending+d.pending,
    c.crashLoop+d.crashLoop,c.notReady+d.notReady⟩⟩

instance : AddCommMonoid PodCounts where
  nsmul := nsmulRec
  zero_add c := PodCounts.ext (zero_add _) (zero_add _) (zero_add _) (zero_add _) (zero_add _)
    (zero_add _)
  add_zero c := PodCounts.ext (add_zero _) (add_zero _) (add_zero _) (add_zero _) (add_zero _)
    (add_zero _)
  add_assoc c d e := PodCounts.ext (add_assoc _ _ _) (add_assoc _ _ _) (add_assoc _ _ _)
    (add_assoc _ _ _) (add_assoc _ _ _) (add_assoc _ _ _)
  add_comm c d := PodCounts.ext (add_comm _ _) (add_comm _ _) (add_comm _ _) (add_comm _ _)
    (add_comm _ _) (add_comm _ _)

section add
variable (c d : PodCounts)

@[simp] theorem add_total : (c+d).total = c.total+d.total := rfl
@[simp] theorem add_running : (c+d).running = c.running+d.running := rfl
@[simp] theorem add_failed : (c+d).failed = c.failed+d.failed := rfl
@[simp] theorem add_pending : (c+d).pending = c.pending+d.pending := rfl
@[simp] theorem add_crashLoop : (c+d).crashLoop = c.crashLoop+d.crashLoop := rfl
@[simp] theorem add_notReady : (c+d).notReady = c.notReady+d.notReady := rfl
@[simp] theorem zero_total : (0 : PodCounts).total = 0 := rfl
@[simp] theorem zero_running : (0 : PodCounts).running = 0 := rfl
@[simp] theorem zero_failed : (0 : PodCounts).failed = 0 := rfl
@[simp] theorem zero_pending : (0 : PodCounts).pending = 0 := rfl
@[simp] theorem zero_crashLoop : (0 : PodCounts).crashLoop = 0 := rfl
@[simp] theorem zero_notReady : (0 : PodCounts).notReady = 0 := rfl

end add

section counts
variable (c : PodCounts) (p : Pod)

@[simp] theorem count_total : (c.count p).total = c.total+1 := by
  unfold PodCounts.count
  split <;> split <;> rfl

@[simp] theorem count_running :
    (c.count p).running = c.running+(if p.phase = .running then 1 else 0 : ℕ) := by
  unfold PodCounts.count
  split <;> split <;> simp_all

@[simp] theorem count_failed :
    (c.count p).failed = c.failed+(if p.phase = .failed then 1 else 0 : ℕ) := by
  unfold PodCounts.count
  split <;> split <;> simp_all

@[simp] theorem count_pending :
    (c.count p).pending = c.pending+(if p.phase = .pending then 1 else 0 : ℕ) := by
  unfold PodCounts.count
  split <;> split <;> simp_all

@[simp] theorem count_crashLoop :
    (c.count p).crashLoop = c.crashLoop+(if isCrashLooping p then 1 else 0 : ℕ) := by
  unfold PodCounts.count
  split <;> split <;> simp

@[simp] theorem count_notReady : (c.count p).notReady = c.notReady := by
  unfold PodCounts.count
  split <;> split <;> rfl

theorem count_eq_add : c.count p = c+PodCounts.count 0 p := by
  ext <;> simp

/-- A pod has one phase, so it is counted under one at most. -/
theorem count_phases : (c.count p).running+(c.count p).failed+(c.count p).pending ≤
    c.running+c.failed+c.pending+1 := by
  rw [count_running,count_failed,count_pending]
  cases p.phase <;> simp <;> omega

/-- What the loop makes of a pod on its node. -/
def countOnNode : PodCounts := (c.count p).countNotReady p

/-- A pod that runs and is not ready. -/
def isNotReady (p : Pod) : Bool := !isPodReady p && p.phase = .running

/-- Only the pods that are not ready are counted on the node alone. -/
theorem countOnNode_eq : countOnNode c p = { c.count p with
    notReady := c.notReady+(if isNotReady p then 1 else 0 : ℕ) } := by
  unfold countOnNode PodCounts.countNotReady isNotReady
  split
  · rename_i h
    simp [h]
  · rename_i h
    have h : ¬(!isPodReady p && decide (p.phase = .running)) = true := by simpa using h
    ext <;> simp [h]

theorem countOnNode_eq_add : countOnNode c p = c+countOnNode 0 p := by
  rw [countOnNode_eq,countOnNode_eq]
  ext <;> simp

end counts

/-! ## The loop -/

section additive
variable {g : PodCounts → Pod → PodCounts} (hg : ∀ c p, g c p = c+g 0 p)
include hg

theorem right_comm_of_add (c : PodCounts) (p q : Pod) : g (g c p) q = g (g c q) p := by
  rw [hg (g c p) q,hg c p,hg (g c q) p,hg c q,add_right_comm]

/-- What is counted so far is added to what the rest counts for. -/
theorem foldl_eq_add (pods : List Pod) (c : PodCounts) : pods.foldl g c = c+pods.foldl g 0 := by
  induction pods generalizing c with
  | nil => exact (add_zero c).symm
  | cons p pods ih => rw [List.foldl_cons,List.foldl_cons,ih,ih (g 0 p),hg,add_assoc]

end additive

/-- The loop over the pods of one node. -/
theorem foldl_countOnNode (pods : List Pod) (c : PodCounts) :
    (pods.foldl countOnNode c).total = c.total+pods.length ∧
    (pods.foldl countOnNode c).notReady = c.notReady+pods.countP isNotReady ∧
    (pods.foldl countOnNode c).crashLoop = c.crashLoop+pods.countP isCrashLooping := by
  induction pods generalizing c with
  | nil => simp
  | cons p pods ih =>
    obtain ⟨h1,h2,h3⟩ := ih (countOnNode c p)
    rw [List.foldl_cons,h1,h2,h3,countOnNode_eq]
    simp only [count_total,count_crashLoop,List.length_cons,List.countP_cons]
    simp only [Int.natCast_add,Int.natCast_one]
    omega

/-- The loop over all pods, for the cluster. -/
theorem foldl_count (pods : List Pod) (c : PodCounts) :
    (pods.foldl PodCounts.count c).total = c.total+pods.length ∧
    (pods.foldl PodCounts.count c).crashLoop = c.crashLoop+pods.countP isCrashLooping ∧
    (pods.foldl PodCounts.count c).running+(pods.foldl PodCounts.count c).failed+
      (pods.foldl PodCounts.count c).pending ≤ c.running+c.failed+c.pending+pods.length := by
  induction pods generalizing c with
  | nil => simp
  | cons p pods ih =>
    obtain ⟨h1,h2,h3⟩ := ih (c.count p)
    have hp := count_phases c p
    rw [count_total] at h1
    rw [count_crashLoop] at h2
    simp only [List.foldl_cons,List.length_cons,List.countP_cons]
    simp only [Int.natCast_add,Int.natCast_one]
    omega

theorem foldl_collectPod_snd (pods : List Pod) (x : GoMap PodCounts × PodCounts) :
    (pods.foldl collectPod x).2 = pods.foldl PodCounts.count x.2 := by
  induction pods generalizing x with
  | nil => rfl
  | cons p pods ih => exact ih _

/-- The counts of a node are those of its own pods. -/
theorem lookup_foldl_collectPod (pods : List Pod) (x : GoMap PodCounts × PodCounts) (n : String) :
    ((pods.foldl collectPod x).1.lookup n).getD {} =
      (pods.filter (fun p => p.nodeName = n)).foldl countOnNode ((x.1.lookup n).getD {}) := by
  induction pods generalizing x with
  | nil => rfl
  | cons p pods ih =>
    rw [List.foldl_cons,ih]
    by_cases hn : p.nodeName = n
    · subst hn
      simp [collectPod,countOnNode,Finmap.lookup_insert]
    · simp [collectPod,hn,Finmap.lookup_insert_of_ne _ (Ne.symm hn)]

/-- The counts of the pods on a node, as `CollectPodCounts` returns them. -/
theorem collectPodCounts_node (pods : List Pod) (n : String) :
    (((collectPodCounts pods).1.lookup n).getD {}).total =
      (pods.countP (fun p => p.nodeName = n) : ℤ) ∧
    (((collectPodCounts pods).1.lookup n).getD {}).notReady =
      ((pods.filter isNotReady).countP (fun p => p.nodeName = n) : ℤ) ∧
    (((collectPodCounts pods).1.lookup n).getD {}).crashLoop =
      ((pods.filter isCrashLooping).countP (fun p => p.nodeName = n) : ℤ) := by
  have hfold := foldl_countOnNode (pods.filter (fun p => p.nodeName = n)) {}
  unfold collectPodCounts
  rw [lookup_foldl_collectPod]
  simpa [List.countP_filter,List.countP_eq_length_filter,List.filter_filter,Bool.and_comm]
    using hfold

theorem collectPod_comm (x : GoMap PodCounts × PodCounts) (p q : Pod) :
    collectPod (collectPod x p) q = collectPod (collectPod x q) p := by
  refine Prod.ext ?_ (right_comm_of_add count_eq_add x.2 p q)
  unfold collectPod
  dsimp only
  by_cases hn : p.nodeName = q.nodeName
  · rw [hn,Finmap.lookup_insert,Finmap.lookup_insert,Finmap.insert_insert,Finmap.insert_insert]
    exact congrArg (fun c => x.1.insert q.nodeName c) (right_comm_of_add countOnNode_eq_add _ p q)
  · rw [Finmap.lookup_insert_of_ne _ (Ne.symm hn),Finmap.lookup_insert_of_ne _ hn,
      Finmap.insert_insert_of_ne _ hn]

/-- The order of the pods does not matter. -/
theorem collectPodCounts_perm {pods pods' : List Pod} (hp : pods.Perm pods') :
    collectPodCounts pods = collectPodCounts pods' :=
  hp.foldl_eq' (fun p _ q _ x => collectPod_comm x p q) _

/-- The counts of the cluster. -/
theorem collectPodCounts_cluster (pods : List Pod) :
    (collectPodCounts pods).2.total = pods.length ∧
    (collectPodCounts pods).2.crashLoop = (pods.filter isCrashLooping).length ∧
    (collectPodCounts pods).2.running+(collectPodCounts pods).2.failed+
      (collectPodCounts pods).2.pending ≤ (pods.length : ℤ) := by
  have hfold := foldl_count pods {}
  unfold collectPodCounts
  rw [foldl_collectPod_snd,← List.countP_eq_length_filter]
  simpa using hfold

theorem collectPodCounts_failed (pods : List Pod) :
    (collectPodCounts pods).2.failed = (pods.countP (fun p => p.phase = .failed) : ℕ) := by
  unfold collectPodCounts
  rw [foldl_collectPod_snd,List.foldl_eq_countP PodCounts.failed (fun b a => ?_)]
  · exact zero_add _
  · simp

/-! ## The partition -/

/-- The counts that are kept for a node and for the cluster alike. -/
structure Agree (c d : PodCounts) : Prop where
  total : c.total = d.total
  running : c.running = d.running
  failed : c.failed = d.failed
  pending : c.pending = d.pending
  crashLoop : c.crashLoop = d.crashLoop

theorem Agree.count {c d : PodCounts} (h : Agree c d) (p : Pod) :
    Agree (countOnNode c p) (d.count p) := by
  rw [countOnNode_eq]
  constructor
  · simp [h.total]
  · simp [h.running]
  · simp [h.failed]
  · simp [h.pending]
  · simp [h.crashLoop]

theorem agree_zero : Agree 0 0 := ⟨rfl,rfl,rfl,rfl,rfl⟩

theorem Agree.foldl {c d : PodCounts} (h : Agree c d) (pods : List Pod) :
    Agree (pods.foldl countOnNode c) (pods.foldl PodCounts.count d) := by
  induction pods generalizing c d with
  | nil => exact h
  | cons p pods ih => exact ih (h.count p)

theorem mem_foldl_collectPod (pods : List Pod) (x : GoMap PodCounts × PodCounts) (n : String) :
    n ∈ (pods.foldl collectPod x).1 ↔ n ∈ x.1 ∨ ∃ p ∈ pods, p.nodeName = n := by
  induction pods generalizing x with
  | nil => simp
  | cons p pods ih =>
    have hstep : n ∈ (collectPod x p).1 ↔ n = p.nodeName ∨ n ∈ x.1 := Finmap.mem_insert
    rw [List.foldl_cons,ih,hstep,List.exists_mem_cons_iff,eq_comm (a := n),or_comm (a := _ = n),
      or_assoc]

/-- A count that a pod raises alike on its node and for the cluster: the nodes add up to it. -/
theorem total_foldl_collectPod (f : PodCounts →+ ℤ)
    (hf : ∀ p, f (countOnNode 0 p) = f (PodCounts.count 0 p)) (pods : List Pod)
    (x : GoMap PodCounts × PodCounts) (hx : x.1.total f = f x.2) :
    (pods.foldl collectPod x).1.total f = f (pods.foldl collectPod x).2 := by
  induction pods generalizing x with
  | nil => exact hx
  | cons p pods ih =>
    refine ih _ ?_
    have hold : (x.1.lookup p.nodeName).elim 0 f = f ((x.1.lookup p.nodeName).getD 0) := by
      cases x.1.lookup p.nodeName with
      | none => exact (map_zero f).symm
      | some c => rfl
    have hinsert := Finmap.total_insert f x.1 p.nodeName
      (countOnNode ((x.1.lookup p.nodeName).getD 0) p)
    rw [hold,countOnNode_eq_add,map_add,hf,hx] at hinsert
    change (x.1.insert p.nodeName (countOnNode ((x.1.lookup p.nodeName).getD 0) p)).total f =
      f (x.2.count p)
    rw [countOnNode_eq_add,count_eq_add,map_add]
    omega

/-- What Go reads from the map, zero counts at a name that is not in it. -/
def perNode (pods : List Pod) (n : String) : PodCounts :=
  ((collectPodCounts pods).1.lookup n).getD {}

/-- The status of the first condition of type `Ready`. -/
def firstReady (p : Pod) : Option ConditionStatus :=
  (p.conditions.find? (fun cond => cond.type = .ready)).map PodCondition.status

theorem isNotReady_iff (p : Pod) :
    isNotReady p = true ↔ p.phase = .running ∧ firstReady p ≠ some .true := by
  unfold isNotReady isPodReady firstReady
  cases p.conditions.find? (fun cond => cond.type = .ready) with
  | none => simp
  | some cond => simp [and_comm]

structure Partitioned (pods : List Pod) : Prop where
  keys : ∀ n, n ∈ (collectPodCounts pods).1 ↔ ∃ p ∈ pods, p.nodeName = n
  node : ∀ n, Agree (perNode pods n) (collectPodCounts (pods.filter (fun p => p.nodeName = n))).2
  total : (collectPodCounts pods).1.total PodCounts.total = (collectPodCounts pods).2.total
  running : (collectPodCounts pods).1.total PodCounts.running = (collectPodCounts pods).2.running
  failed : (collectPodCounts pods).1.total PodCounts.failed = (collectPodCounts pods).2.failed
  pending : (collectPodCounts pods).1.total PodCounts.pending = (collectPodCounts pods).2.pending
  crashLoop :
    (collectPodCounts pods).1.total PodCounts.crashLoop = (collectPodCounts pods).2.crashLoop
  notReady : ∀ n, (perNode pods n).notReady = (pods.countP (fun p =>
    p.nodeName = n ∧ p.phase = .running ∧ firstReady p ≠ some .true) : ℕ)
  perm : ∀ pods', pods.Perm pods' → collectPodCounts pods = collectPodCounts pods'
  append : ∀ pods', (collectPodCounts (pods++pods')).2 =
      (collectPodCounts pods).2+(collectPodCounts pods').2 ∧
    ∀ n, perNode (pods++pods') n = perNode pods n+perNode pods' n

section partitioned
variable (pods : List Pod)

theorem collectPodCounts_snd : (collectPodCounts pods).2 = pods.foldl PodCounts.count 0 :=
  foldl_collectPod_snd pods _

theorem perNode_eq (n : String) :
    perNode pods n = (pods.filter (fun p => p.nodeName = n)).foldl countOnNode 0 :=
  lookup_foldl_collectPod pods _ n

theorem total_collectPodCounts (f : PodCounts →+ ℤ)
    (hf : ∀ p, f (countOnNode 0 p) = f (PodCounts.count 0 p)) :
    (collectPodCounts pods).1.total f = f (collectPodCounts pods).2 :=
  total_foldl_collectPod f hf pods _ (map_zero f).symm

/-- For every list of pods. -/
theorem collectPodCounts_partitions : Partitioned pods where
  keys n := by
    have h := mem_foldl_collectPod pods (∅,{}) n
    rwa [or_iff_right Finmap.notMem_empty] at h
  node n := by
    rw [perNode_eq,collectPodCounts_snd]
    exact agree_zero.foldl _
  total := total_collectPodCounts pods ⟨⟨PodCounts.total,rfl⟩,fun _ _ => rfl⟩
    (fun p => (agree_zero.count p).total)
  running := total_collectPodCounts pods ⟨⟨PodCounts.running,rfl⟩,fun _ _ => rfl⟩
    (fun p => (agree_zero.count p).running)
  failed := total_collectPodCounts pods ⟨⟨PodCounts.failed,rfl⟩,fun _ _ => rfl⟩
    (fun p => (agree_zero.count p).failed)
  pending := total_collectPodCounts pods ⟨⟨PodCounts.pending,rfl⟩,fun _ _ => rfl⟩
    (fun p => (agree_zero.count p).pending)
  crashLoop := total_collectPodCounts pods ⟨⟨PodCounts.crashLoop,rfl⟩,fun _ _ => rfl⟩
    (fun p => (agree_zero.count p).crashLoop)
  notReady n := by
    obtain ⟨-,hnot,-⟩ := foldl_countOnNode (pods.filter (fun p => p.nodeName = n)) 0
    rw [perNode_eq,hnot,List.countP_filter,zero_notReady,zero_add]
    refine congrArg Nat.cast (List.countP_congr (fun p _ => ?_))
    simp [isNotReady_iff,and_comm]
  perm _ hp := collectPodCounts_perm hp
  append pods' := by
    refine ⟨?_,fun n => ?_⟩
    · rw [collectPodCounts_snd,collectPodCounts_snd,collectPodCounts_snd,List.foldl_append,
        foldl_eq_add count_eq_add]
    · rw [perNode_eq,perNode_eq,perNode_eq,List.filter_append,List.foldl_append,
        foldl_eq_add countOnNode_eq_add]

end partitioned
end LosantDevice.Watcher
