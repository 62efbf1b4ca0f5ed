import Mathlib.Algebra.Ring.Int.Defs
import Mathlib.Data.Rat.Defs
import LosantDevice.Go.Totals

/-!
# The health snapshot

What the health watcher computes and the sync controller reports. A percentage is a float in
the source; here it is a rational number.
-/
namespace LosantDevice

/-- A Go map with string keys. A nil map and an empty one are read and stored alike. -/
abbrev GoMap (β : Type) := Finmap (fun _ : String => β)

/-- An order in which a Go `range` may go through a map. -/
abbrev GoMap.Order {β : Type} (m : GoMap β) :=
  { l : List (Sigma fun _ : String => β) // (l : Multiset (Sigma fun _ : String => β)) = m.entries }

theorem GoMap.order_toList {β : Type} (m : GoMap β) :
    (m.entries.toList : Multiset (Sigma fun _ : String => β)) = m.entries := m.entries.coe_toList

theorem GoMap.order_nil {β : Type} {m : GoMap β} (hm : m = ∅) :
    (([] : List (Sigma fun _ : String => β)) : Multiset (Sigma fun _ : String => β)) =
      m.entries := by
  rw [hm]
  rfl

theorem GoMap.Order.mem_iff {β : Type} {m : GoMap β} (l : m.Order) {k : String} {v : β} :
    ⟨k,v⟩ ∈ l.val ↔ m.lookup k = some v := by
  obtain ⟨l,hl⟩ := l
  change ⟨k,v⟩ ∈ l ↔ _
  rw [Finmap.lookup_eq_some_iff,← hl,Multiset.mem_coe]

theorem GoMap.Order.nodup {β : Type} {m : GoMap β} (l : m.Order) : (l.val.map Sigma.fst).Nodup := by
  have hkeys := m.nodupKeys
  rw [← l.property] at hkeys
  exact Multiset.coe_nodupKeys.mp hkeys

theorem GoMap.Order.exists_of_mem {β : Type} {m : GoMap β} (l : m.Order) {n : String} (hn : n ∈ m) :
    ∃ v, ⟨n,v⟩ ∈ l.val := by
  obtain ⟨v,hv⟩ := Option.isSome_iff_exists.mp (Finmap.lookup_isSome.mpr hn)
  exact ⟨v,l.mem_iff.mpr hv⟩

theorem GoMap.Order.length_eq {β : Type} {m : GoMap β} (l : m.Order) :
    l.val.length = m.entries.card := by
  obtain ⟨l,hl⟩ := l
  change l.length = _
  rw [← hl,Multiset.coe_card]

theorem GoMap.Order.sum_map_eq {β : Type} {m : GoMap β} (l : m.Order) (f : β → ℤ) :
    (l.val.map (fun p => f p.2)).sum = m.total f := by
  obtain ⟨l,hl⟩ := l
  change (l.map _).sum = _
  rw [Finmap.total,← hl,Multiset.map_coe,Multiset.sum_coe]

namespace Monitor

structure NodeHealth where
  name : String
  ready : Bool
  memoryPressure : Bool
  diskPressure : Bool
  pidPressure : Bool
  cpuRequestPct : ℚ
  memRequestPct : ℚ
  podCount : ℤ
  notReadyPods : ℤ
  crashLoopPods : ℤ
  healthScore : ℤ
  healthStatus : String
  deriving DecidableEq

structure ClusterHealth where
  totalNodes : ℤ := 0
  readyNodes : ℤ := 0
  unhealthyNodes : ℤ := 0
  totalPods : ℤ := 0
  runningPods : ℤ := 0
  failedPods : ℤ := 0
  pendingPods : ℤ := 0
  crashLoopPods : ℤ := 0
  degradedPVCs : ℤ := 0
  coreDNSHealthy : Bool := false
  eventWarnings : ℤ := 0
  healthScore : ℤ := 0
  healthStatus : String := ""
  deriving DecidableEq

end Monitor
end LosantDevice
