import Mathlib.Data.Finmap
import Mathlib.Algebra.Order.BigOperators.Group.Finset

/-!
# Totals and counts

What a loop over a list counts, and what a loop over a map adds up, whatever the order it goes in.
-/

/-- A loop that adds one for some elements counts them. -/
theorem List.foldl_eq_countP {α β : Type*} (f : β → ℤ) {g : β → α → β} {q : α → Bool}
    (hg : ∀ b a, f (g b a) = f b+(if q a then 1 else 0 : ℕ)) (l : List α) (b : β) :
    f (l.foldl g b) = f b+(l.countP q : ℕ) := by
  induction l generalizing b with
  | nil => simp
  | cons a l ih =>
    rw [List.foldl_cons,ih,hg,List.countP_cons]
    omega

namespace Finmap

variable {κ β M : Type*}

theorem card_entries (m : Finmap (fun _ : κ => β)) : m.entries.card = m.keys.card :=
  (Multiset.card_map _ _).symm

section monoid
variable [AddCommMonoid M] (f : β → M)

/-- The values of a map under `f`, added up. -/
def total (m : Finmap (fun _ : κ => β)) : M := (m.entries.map (fun p => f p.2)).sum

variable [DecidableEq κ] (m : Finmap (fun _ : κ => β))

theorem total_eq_sum : m.total f = ∑ k ∈ m.keys, (m.lookup k).elim 0 f := by
  change _ = ((m.entries.map Sigma.fst).map (fun k => (m.lookup k).elim 0 f)).sum
  rw [Multiset.map_map]
  refine congrArg Multiset.sum (Multiset.map_congr rfl ?_)
  rintro ⟨k,b⟩ hp
  have hlook : m.lookup k = some b := lookup_eq_some_iff.mpr hp
  simp [hlook]

theorem keys_insert (k : κ) (b : β) :
    (m.insert k b).keys = Insert.insert k (m.keys.erase k) := by
  ext a
  by_cases ha : a = k
  · simp [mem_keys,mem_insert,ha]
  · simp [mem_keys,mem_insert,ha]

/-- The new value takes the place of the old one, if there was one. -/
theorem total_insert (k : κ) (b : β) :
    (m.insert k b).total f+(m.lookup k).elim 0 f = f b+m.total f := by
  have hrest :
    ∀ a ∈ m.keys.erase k, ((m.insert k b).lookup a).elim 0 f = (m.lookup a).elim 0 f := by
    intro a ha
    rw [lookup_insert_of_ne _ (Finset.ne_of_mem_erase ha)]
  rw [total_eq_sum,total_eq_sum,keys_insert,
    Finset.sum_insert (Finset.notMem_erase k m.keys),Finset.sum_congr rfl hrest,lookup_insert]
  by_cases hk : k ∈ m
  · rw [add_assoc,Finset.sum_erase_add _ _ (mem_keys.mpr hk)]
    rfl
  · rw [lookup_eq_none.mpr hk,Finset.erase_eq_of_notMem (mt mem_keys.mp hk)]
    simp

end monoid

/-- A total is no greater if the values are not, key by key. -/
theorem total_le_total [AddCommMonoid M] [PartialOrder M] [IsOrderedAddMonoid M] [DecidableEq κ]
    {f : β → M} {m m' : Finmap (fun _ : κ => β)} (hkeys : ∀ k, k ∈ m ↔ k ∈ m')
    (hle : ∀ k b b', m.lookup k = some b → m'.lookup k = some b' → f b ≤ f b') :
    m.total f ≤ m'.total f := by
  have he : m.keys = m'.keys := Finset.ext (fun k => by simpa only [mem_keys] using hkeys k)
  rw [total_eq_sum,total_eq_sum,he]
  refine Finset.sum_le_sum (fun k hk => ?_)
  have hm' : k ∈ m' := mem_keys.mp hk
  obtain ⟨b,hb⟩ := mem_iff.mp ((hkeys k).mpr hm')
  obtain ⟨b',hb'⟩ := mem_iff.mp hm'
  rw [hb,hb']
  exact hle k b b' hb hb'

end Finmap
