import LosantDevice.Monitor.Store
import LosantDevice.Go.Time

/-!
# Health scores

`internal/monitor/health_score.go`. The score of a cluster averages over a map, in the order a
`range` over it goes. What is computed from its counters is computed in 64 bits; no map is so
large that the sum over its nodes does not fit.
-/
namespace LosantDevice.Monitor
open Go

def clamp (v lo hi : ℤ) : ℤ := if v < lo then lo else if hi < v then hi else v

def healthStatusFromScore (score : ℤ) : String :=
  if 80 ≤ score then "healthy" else if 50 ≤ score then "degraded" else "critical"

def computeNodeHealthScore (n : NodeHealth) : ℤ :=
  let score := 100
  let score := if n.ready then score else score-20
  let score := if n.memoryPressure then score-10 else score
  let score := if n.diskPressure then score-10 else score
  let score := if n.pidPressure then score-5 else score
  clamp score 0 100

/-- The body of the loop over the nodes. -/
def nodeDeduction (n : NodeHealth) : ℤ :=
  let d := 0
  let d := if n.ready then d else d+20
  let d := if n.memoryPressure then d+10 else d
  let d := if n.diskPressure then d+10 else d
  if n.pidPressure then d+5 else d

def totalNodeDeductions : List (Sigma fun _ : String => NodeHealth) → ℤ → ℤ
  | [],total => total
  | ⟨_,n⟩::rest,total => totalNodeDeductions rest (total+nodeDeduction n)

/-- A deduction that is cut off at a limit. -/
def atMost (limit v : ℤ) : ℤ := if limit < v then limit else v

def computeClusterHealthScore (cluster : ClusterHealth) (nodes : GoMap NodeHealth)
    (order : nodes.Order) : ℤ :=
  let score : ℤ := 100
  let score :=
    if 0 < order.val.length then
      score-(totalNodeDeductions order.val 0).tdiv order.val.length
    else score
  let score := wrapInt64 (score-atMost 20 (wrapInt64 (cluster.crashLoopPods*2)))
  let score := wrapInt64 (score-atMost 10 cluster.failedPods)
  let score := wrapInt64 (score-atMost 10 cluster.eventWarnings)
  let score := if cluster.coreDNSHealthy then score else wrapInt64 (score-15)
  let score := wrapInt64 (score-atMost 10 cluster.degradedPVCs)
  clamp score 0 100

theorem clamp_bounds {v lo hi : ℤ} (h : lo ≤ hi) : lo ≤ clamp v lo hi ∧ clamp v lo hi ≤ hi := by
  unfold clamp
  split
  · omega
  · split
    · omega
    · omega

theorem computeClusterHealthScore_bounds (cluster : ClusterHealth) (nodes : GoMap NodeHealth)
    (order : nodes.Order) : 0 ≤ computeClusterHealthScore cluster nodes order ∧
      computeClusterHealthScore cluster nodes order ≤ 100 := clamp_bounds (by decide)

theorem totalNodeDeductions_eq (l : List (Sigma fun _ : String => NodeHealth)) (total : ℤ) :
    totalNodeDeductions l total = total+(l.map (fun p => nodeDeduction p.2)).sum := by
  induction l generalizing total with
  | nil => simp [totalNodeDeductions]
  | cons p rest ih =>
    simp only [totalNodeDeductions,ih,List.map_cons,List.sum_cons]
    omega

/-- The order of the range does not matter. -/
theorem computeClusterHealthScore_congr {cluster cluster' : ClusterHealth}
    {nodes nodes' : GoMap NodeHealth} (hc : cluster = cluster') (hn : nodes = nodes')
    (order : nodes.Order) (order' : nodes'.Order) :
    computeClusterHealthScore cluster nodes order =
      computeClusterHealthScore cluster' nodes' order' := by
  subst hc hn
  have hperm : order.val.Perm order'.val :=
    Multiset.coe_eq_coe.mp (order.property.trans order'.property.symm)
  have hsum : totalNodeDeductions order.val 0 = totalNodeDeductions order'.val 0 := by
    rw [totalNodeDeductions_eq,totalNodeDeductions_eq,(hperm.map _).sum_eq]
  unfold computeClusterHealthScore
  rw [hsum,hperm.length_eq]

end LosantDevice.Monitor
