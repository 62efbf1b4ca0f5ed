import Mathlib.Data.List.Basic
import Mathlib.Logic.Relation

/-!
# Tables with issued ids

A table issues an id for every entry and never issues one twice. Entries are removed by leaving a
mark, so that an id keeps its place for ever; an entry may also be taken by others. Some of the
places are a caller's own: nobody else makes entries there.
-/
namespace Registry

@[ext]
structure Table (ι κ : Type) where
  entries : List (ι × κ) := []
  removed : List ι := []
  taken : List ι := []

namespace Table
variable {ι κ : Type} (t : Table ι κ)

def Present (i : ι) (k : κ) : Prop := (i,k) ∈ t.entries ∧ i ∉ t.removed

def Fresh (i : ι) : Prop := i ∉ t.removed ∧ ∀ k, (i,k) ∉ t.entries

def add (i : ι) (k : κ) : Table ι κ := { t with entries := (i,k)::t.entries }

def remove (i : ι) : Table ι κ := { t with removed := i::t.removed }

def take (i : ι) : Table ι κ := { t with removed := i::t.removed, taken := i::t.taken }

/-- What others do: they take any entry and make entries at places that are not the caller's. -/
inductive Moved (own : κ → Prop) : Table ι κ → Table ι κ → Prop
  | take {t : Table ι κ} {i : ι} {k : κ} (present : t.Present i k) : Moved own t (t.take i)
  | add {t : Table ι κ} {i : ι} {k : κ} (fresh : t.Fresh i) (foreign : ¬own k) :
      Moved own t (t.add i k)

/-- Every id has one place, and the caller's places have at most one entry each. -/
structure Sound (own : κ → Prop) (t : Table ι κ) : Prop where
  place {i k k'} : (i,k) ∈ t.entries → (i,k') ∈ t.entries → k = k'
  single {i j k} : own k → t.Present i k → t.Present j k → i = j
  taken {i} : i ∈ t.taken → i ∈ t.removed

/-- What becomes of a table while its caller makes entries at the places `K` only and removes
only the ids `D`. -/
structure Grows (own K : κ → Prop) (D : ι → Prop) (t t' : Table ι κ) : Prop where
  entries {i k} : (i,k) ∈ t.entries → (i,k) ∈ t'.entries
  news {i k} : own k → (i,k) ∈ t'.entries → (i,k) ∈ t.entries ∨ K k
  removed {i} : i ∈ t.removed → i ∈ t'.removed
  taken {i} : i ∈ t.taken → i ∈ t'.taken
  spared {i} : i ∈ t'.removed → i ∈ t.removed ∨ i ∈ t'.taken ∨ D i

/-- The id is the one of the place: it is there unless it was taken, and all others are gone. -/
structure Settled (i : ι) (k : κ) : Prop where
  entry : (i,k) ∈ t.entries
  kept : i ∈ t.removed → i ∈ t.taken
  rivals {j} : (j,k) ∈ t.entries → j ≠ i → j ∈ t.removed

variable {t} {t' u : Table ι κ} {own K : κ → Prop} {D : ι → Prop} {i : ι} {k : κ}

theorem Grows.refl (t : Table ι κ) : Grows own K D t t :=
  ⟨fun h => h,fun _ h => .inl h,fun h => h,fun h => h,fun h => .inl h⟩

theorem Grows.trans (h : Grows own K D t t') (h' : Grows own K D t' u) : Grows own K D t u where
  entries he := h'.entries (h.entries he)
  news ho he := by
    rcases h'.news ho he with he | hk
    · exact h.news ho he
    · exact .inr hk
  removed hr := h'.removed (h.removed hr)
  taken ht := h'.taken (h.taken ht)
  spared hr := by
    rcases h'.spared hr with hr | ht | hd
    · rcases h.spared hr with hr | ht | hd
      · exact .inl hr
      · exact .inr (.inl (h'.taken ht))
      · exact .inr (.inr hd)
    · exact .inr (.inl ht)
    · exact .inr (.inr hd)

theorem Grows.mono {K' : κ → Prop} {D' : ι → Prop} (h : Grows own K D t t')
    (hK : ∀ k, K k → K' k) (hD : ∀ i, D i → D' i) : Grows own K' D' t t' :=
  ⟨h.entries,fun ho he => (h.news ho he).imp id (hK _),h.removed,h.taken,
    fun hr => (h.spared hr).imp id (Or.imp id (hD _))⟩

theorem Moved.grows (h : Moved own t t') : Grows own K D t t' := by
  cases h with
  | take hp =>
    refine ⟨fun h => h,fun _ h => .inl h,List.mem_cons_of_mem _,List.mem_cons_of_mem _,?_⟩
    intro j hj
    rcases List.mem_cons.mp hj with rfl | hj
    · exact .inr (.inl List.mem_cons_self)
    · exact .inl hj
  | add hf hn =>
    refine ⟨List.mem_cons_of_mem _,?_,fun h => h,fun h => h,fun h => .inl h⟩
    intro j k' hk' he
    rcases List.mem_cons.mp he with he | he
    · cases he
      exact absurd hk' hn
    · exact .inl he

theorem grows_add (hk : K k) : Grows own K D t (t.add i k) := by
  refine ⟨List.mem_cons_of_mem _,?_,fun h => h,fun h => h,fun h => .inl h⟩
  intro j k' _ he
  rcases List.mem_cons.mp he with he | he
  · cases he
    exact .inr hk
  · exact .inl he

theorem grows_remove (hd : D i) : Grows own K D t (t.remove i) := by
  refine ⟨fun h => h,fun _ h => .inl h,List.mem_cons_of_mem _,fun h => h,?_⟩
  intro j hj
  rcases List.mem_cons.mp hj with rfl | hj
  · exact .inr (.inr hd)
  · exact .inl hj

theorem Present.before (hg : Grows own K D t t') (hp : t'.Present i k) (ho : own k) (hk : ¬K k) :
    t.Present i k := by
  refine ⟨(hg.news ho hp.1).resolve_right hk,?_⟩
  intro hr
  exact hp.2 (hg.removed hr)

theorem Sound.remove (hs : Sound own t) (i : ι) : Sound own (t.remove i) where
  place := hs.place
  single ho hi hj :=
    hs.single ho ⟨hi.1,fun hr => hi.2 (List.mem_cons_of_mem _ hr)⟩
      ⟨hj.1,fun hr => hj.2 (List.mem_cons_of_mem _ hr)⟩
  taken ht := List.mem_cons_of_mem _ (hs.taken ht)

theorem Sound.take (hs : Sound own t) (i : ι) : Sound own (t.take i) where
  place := (hs.remove i).place
  single := (hs.remove i).single
  taken ht := by
    rcases List.mem_cons.mp ht with rfl | ht
    · exact List.mem_cons_self
    · exact List.mem_cons_of_mem _ (hs.taken ht)

/-- A fresh id for a place that is not the caller's or has no entry. -/
theorem Sound.add (hs : Sound own t) (hf : t.Fresh i) (hfree : own k → ∀ j, ¬t.Present j k) :
    Sound own (t.add i k) where
  place {j a b} ha hb := by
    rcases List.mem_cons.mp ha with he | ha
    · cases he
      rcases List.mem_cons.mp hb with he | hb
      · cases he
        rfl
      · exact absurd hb (hf.2 b)
    · rcases List.mem_cons.mp hb with he | hb
      · cases he
        exact absurd ha (hf.2 a)
      · exact hs.place ha hb
  single {a b l} ho ha hb := by
    obtain ⟨ha,hra⟩ := ha
    obtain ⟨hb,hrb⟩ := hb
    rcases List.mem_cons.mp ha with he | ha
    · cases he
      rcases List.mem_cons.mp hb with he | hb
      · cases he
        rfl
      · exact absurd ⟨hb,hrb⟩ (hfree ho b)
    · rcases List.mem_cons.mp hb with he | hb
      · cases he
        exact absurd ⟨ha,hra⟩ (hfree ho a)
      · exact hs.single ho ⟨ha,hra⟩ ⟨hb,hrb⟩
  taken := hs.taken

theorem Sound.moved (hs : Sound own t) (hm : Moved own t t') : Sound own t' := by
  cases hm with
  | take hp => exact hs.take _
  | add hf hn => exact hs.add hf (fun ho => absurd ho hn)

/-- While others move, the table only grows and stays sound. -/
theorem Sound.others (hs : Sound own t) (hm : Relation.ReflTransGen (Moved own) t t') :
    Grows own K D t t' ∧ Sound own t' := by
  induction hm with
  | refl => exact ⟨.refl t,hs⟩
  | tail _ hm ih => exact ⟨ih.1.trans hm.grows,ih.2.moved hm⟩

theorem Settled.grows (hst : t.Settled i k) (hg : Grows own K D t t') (ho : own k) (hk : ¬K k)
    (hd : ¬D i) : t'.Settled i k where
  entry := hg.entries hst.entry
  kept hr := by
    rcases hg.spared hr with hr | ht | hi
    · exact hg.taken (hst.kept hr)
    · exact ht
    · exact absurd hi hd
  rivals hj hne := hg.removed (hst.rivals ((hg.news ho hj).resolve_right hk) hne)

/-- A present entry at one of the caller's places settles it. -/
theorem Sound.settled (hs : Sound own t) (ho : own k) (hp : t.Present i k) : t.Settled i k where
  entry := hp.1
  kept hr := absurd hr hp.2
  rivals hj hne := by
    by_contra hr
    exact hne (hs.single ho ⟨hj,hr⟩ hp)

end Table
end Registry
