import LosantDevice.Monitor.Deductions
import LosantDevice.Watcher.Snapshot

/-!
# Reads that fail

A list that fails stops the watcher before it stores anything. The read of the CoreDNS deployment
does not stop it: whatever the error, the deployment counts as one that is not there.
-/
namespace LosantDevice.Watcher
open Effect Kube Monitor Program

namespace Reads
variable (r : Reads)

/-- The four lists succeed and give these inputs. -/
def Listed (i : Inputs) : Prop := r = i.reads

/-- The deployment is read, or it is read that there is none. -/
def CoreDNSRead : Prop := ∀ err, r.coreDNS = .error err → err.reason = .notFound

end Reads

/-- The store after a call with this history. -/
def storeAfter (store : HealthStore) (h : History interface) : HealthStore :=
  match stored h with
  | none => store
  | some (cluster,nodes) => store.update cluster nodes

/-- A call that fails to read something changes nothing, and lowers no score. -/
structure FailsSafely (r : Reads) (s : Strategy interface) (store : HealthStore) : Prop where
  kept : storeAfter store (run s [] reconcile).1 = store ∨
    ∃ i, r.Listed i ∧ r.CoreDNSRead ∧ ∃ order order',
      storeAfter store (run s [] reconcile).1 = ⟨i.cluster order order',i.nodeMap⟩
  score : ¬(∃ i, r.Listed i ∧ r.CoreDNSRead) →
    store.cluster.healthScore ≤ (storeAfter store (run s [] reconcile).1).cluster.healthScore

section reads
variable {r : Reads} {s : Strategy interface}

theorem Reads.Listed.given {i : Inputs} (hi : r.Listed i) (hs : r.Given s) : i.Given s := by
  unfold Reads.Listed at hi
  subst hi
  exact hs

/-- The watcher stores a snapshot of what it has listed, or it stores nothing. -/
theorem stored_cases (hs : r.Given s) :
    stored (run s [] reconcile).1 = none ∧ (¬∃ i, r.Listed i) ∨
    ∃ i, r.Listed i ∧ ∃ order order',
      stored (run s [] reconcile).1 = some (i.cluster order order',i.nodeMap) := by
  have hnodes : run s [] reconcile = _ := run_answer (hs.nodes _)
  cases hn : r.nodes with
  | error err =>
    rw [hn] at hnodes
    refine .inl ⟨by rw [hnodes]; rfl,?_⟩
    rintro ⟨i,hi⟩
    cases hn.symm.trans (congrArg Reads.nodes hi)
  | ok nodes =>
  rw [hn] at hnodes
  have hpods := hnodes.trans (run_answer (hs.pods _))
  cases hp : r.pods with
  | error err =>
    rw [hp] at hpods
    refine .inl ⟨by rw [hpods]; rfl,?_⟩
    rintro ⟨i,hi⟩
    cases hp.symm.trans (congrArg Reads.pods hi)
  | ok pods =>
  rw [hp] at hpods
  have hpvcs := hpods.trans (run_answer (hs.pvcs _))
  cases hv : r.pvcs with
  | error err =>
    rw [hv] at hpvcs
    refine .inl ⟨by rw [hpvcs]; rfl,?_⟩
    rintro ⟨i,hi⟩
    cases hv.symm.trans (congrArg Reads.pvcs hi)
  | ok pvcs =>
  rw [hv] at hpvcs
  have hevents := hpvcs.trans (run_answer (hs.events _))
  cases he : r.events with
  | error err =>
    rw [he] at hevents
    refine .inl ⟨by rw [hevents]; rfl,?_⟩
    rintro ⟨i,hi⟩
    cases he.symm.trans (congrArg Reads.events hi)
  | ok events =>
    have hi : r.Listed ⟨nodes,pods,pvcs,events,r.coreDNS,r.now⟩ := by
      cases r
      cases hn
      cases hp
      cases hv
      cases he
      rfl
    exact .inr ⟨_,hi,stored_reconcile (hi.given hs)⟩

theorem storeAfter_none {h : History interface} (hh : stored h = none) (store : HealthStore) :
    storeAfter store h = store := by
  unfold storeAfter
  rw [hh]

theorem storeAfter_some {h : History interface} {cluster : ClusterHealth} {nodes : GoMap NodeHealth}
    (hh : stored h = some (cluster,nodes)) (store : HealthStore) :
    storeAfter store h = ⟨cluster,nodes⟩ := by
  unfold storeAfter
  rw [hh]
  rfl

end reads

/-- For all answers to the reads, whatever was stored before. -/
theorem fails_safely_iff (r : Reads) (s : Strategy interface) (hs : r.Given s) :
    (∀ store, FailsSafely r s store) ↔ ((∃ i, r.Listed i) → r.CoreDNSRead) := by
  rcases stored_cases hs with ⟨hnone,hnot⟩ | ⟨i,hi,order,order',hsome⟩
  · refine ⟨fun _ h => absurd h hnot,fun _ store => ⟨.inl (storeAfter_none hnone store),?_⟩⟩
    intro _
    rw [storeAfter_none hnone]
  · constructor
    · intro h _
      -- A store that differs from the snapshot is overwritten.
      let other : ClusterHealth :=
        { i.cluster order order' with totalNodes := (i.cluster order order').totalNodes+1 }
      rcases (h ⟨other,i.nodeMap⟩).kept with hsame | ⟨_,_,hread,_⟩
      · rw [storeAfter_some hsome] at hsame
        have htotal : (i.cluster order order').totalNodes = (i.cluster order order').totalNodes+1 :=
          congrArg (fun x => x.cluster.totalNodes) hsame
        omega
      · exact hread
    · intro h store
      have hread := h ⟨i,hi⟩
      refine ⟨.inr ⟨i,hi,hread,order,order',storeAfter_some hsome store⟩,fun hfail => ?_⟩
      exact absurd ⟨i,hi,hread⟩ hfail

/-- One node that is ready, nothing else, and CoreDNS as it is read. -/
def quiet (coreDNS : Except ApiError Deployment) : Inputs where
  nodes := [{ name := "n1", conditions := [⟨.ready,.true⟩] }]
  pods := []
  pvcs := []
  events := []
  coreDNS := coreDNS
  now := (0 : ℤ)

def quietReads (coreDNS : Except ApiError Deployment) : Reads := (quiet coreDNS).reads

/-- The store after such a call. -/
noncomputable def afterQuiet (coreDNS : Except ApiError Deployment) (store : HealthStore) :
    HealthStore :=
  storeAfter store (run (quietReads coreDNS).strategy [] reconcile).1

def available : Except ApiError Deployment := .ok ⟨2⟩
def timedOut : Except ApiError Deployment := .error ⟨.other,"etcdserver: request timed out"⟩

theorem score_afterQuiet (coreDNS : Except ApiError Deployment) (store : HealthStore) :
    (afterQuiet coreDNS store).cluster.healthScore =
      if isCoreDNSHealthy coreDNS.toOption then 100 else 85 := by
  obtain ⟨order,order',hstored⟩ :=
    stored_reconcile (quietReads coreDNS).given_strategy
  unfold afterQuiet
  rw [storeAfter_some hstored]
  change computeClusterHealthScore ((quiet coreDNS).counted order)
    (quiet coreDNS).nodeMap order' = _
  have hzero : (0 : ℤ) ≤ 0 ∧ (0 : ℤ) < 2^62 := by decide
  have hrange : ((quiet coreDNS).counted order).InRange := ⟨hzero,hzero,hzero,hzero⟩
  have haverage : averageDeduction (quiet coreDNS).nodeMap = 0 :=
    (by decide +kernel : averageDeduction (quiet (.ok ⟨2⟩)).nodeMap = 0)
  have hcluster : clusterDeductions ((quiet coreDNS).counted order) =
      if isCoreDNSHealthy coreDNS.toOption then 0 else 15 := zero_add _
  rw [computeClusterHealthScore_eq hrange,haverage,hcluster]
  split <;> rfl

/-- The deployment cannot be read after a call that read it: the score drops, and nothing in the
cluster has changed. -/
theorem timeout_lowers_score :
    (afterQuiet available newHealthStore).cluster.healthScore = 100 ∧
    (afterQuiet timedOut (afterQuiet available newHealthStore)).cluster.healthScore = 85 ∧
    ¬FailsSafely (quietReads timedOut) (quietReads timedOut).strategy
      (afterQuiet available newHealthStore) := by
  have hbefore := score_afterQuiet available newHealthStore
  have hafter := score_afterQuiet timedOut (afterQuiet available newHealthStore)
  refine ⟨hbefore,hafter,fun h => ?_⟩
  have hle : (afterQuiet available newHealthStore).cluster.healthScore ≤
      (afterQuiet timedOut (afterQuiet available newHealthStore)).cluster.healthScore := by
    refine h.score ?_
    rintro ⟨i,-,hread⟩
    exact nomatch hread _ rfl
  rw [hbefore,hafter] at hle
  exact absurd hle (by decide)

def absent : Except ApiError Deployment := .error ⟨.notFound,"deployments.apps not found"⟩

/-- A deployment that is not there is not a read that failed. -/
theorem fails_safely_absent : (quietReads absent).Listed (quiet absent) ∧
    ∀ store, FailsSafely (quietReads absent) (quietReads absent).strategy store := by
  refine ⟨rfl,?_⟩
  refine (fails_safely_iff (quietReads absent) _ (quietReads absent).given_strategy).mpr ?_
  intro _ err he
  cases he
  rfl

end LosantDevice.Watcher
