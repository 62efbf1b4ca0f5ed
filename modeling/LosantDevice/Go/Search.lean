import LosantDevice.Go.Http

/-!
# Searching a text that was put together

A text that is put together of parts with separators between them contains a searched text without
the separators exactly if one of the parts does.
-/
namespace Go

theorem infix_append_cons {α : Type} {c : α} {sub a b : List α} (hc : c ∉ sub) :
    sub <:+: a ++ c::b ↔ sub <:+: a ∨ sub <:+: b := by
  constructor
  · intro h
    rcases List.infix_append_iff.mp h with h | h | ⟨l,l',rfl,hl,hl'⟩
    · exact .inl h
    · rcases List.infix_cons_iff.mp h with h | h
      · rcases List.prefix_cons_iff.mp h with rfl | ⟨t,rfl,-⟩
        · exact .inl List.nil_infix
        · exact absurd List.mem_cons_self hc
      · exact .inr h
    · rcases List.prefix_cons_iff.mp hl' with rfl | ⟨t,rfl,-⟩
      · exact .inl (by simpa using hl.isInfix)
      · exact absurd (List.mem_append_right _ List.mem_cons_self) hc
  · rintro (h | h)
    · exact h.trans (List.prefix_append _ _).isInfix
    · exact h.trans ((List.suffix_cons _ _).trans (List.suffix_append _ _)).isInfix

variable {sub : String}

/-- The parts `a` and `b` with the separator `c` between them. -/
theorem contains_separated {c : Char} (hc : c ∉ sub.toList) (a b : String) :
    contains (a ++ (String.singleton c ++ b)) sub = true ↔
      contains a sub = true ∨ contains b sub = true := by
  simp only [contains,decide_eq_true_eq,String.toList_append,String.toList_singleton]
  exact infix_append_cons hc

/-- A blank in front makes no difference to a search for something that does not begin with one. -/
theorem contains_blank {x : Char} {l : List Char} (hsub : sub.toList = x::l) (hx : x ≠ ' ')
    (b : String) :
    contains (" " ++ b) sub = true ↔ contains b sub = true := by
  simp only [contains,decide_eq_true_eq,String.toList_append,hsub]
  change _ <:+: ' '::b.toList ↔ _
  rw [List.infix_cons_iff,List.cons_prefix_cons]
  exact ⟨fun h => h.resolve_left (fun h => hx h.1),.inr⟩

/-- The texts of wrapped errors are put together with colons. -/
theorem contains_wrapped {x : Char} {l : List Char} (hsub : sub.toList = x::l) (hx : x ≠ ' ')
    (hc : ':' ∉ sub.toList) (a b : String) :
    contains (a ++ (": " ++ b)) sub = true ↔ contains a sub = true ∨ contains b sub = true := by
  change contains (a ++ ((String.singleton ':' ++ " ") ++ b)) sub = true ↔ _
  rw [String.append_assoc,contains_separated hc,contains_blank hsub hx]

/-- What is searched for has a character that does not occur. -/
theorem not_contains {x : Char} {s : String} (hx : x ∈ sub.toList) (hs : x ∉ s.toList) :
    ¬contains s sub = true := by
  intro h
  exact hs ((of_decide_eq_true h).subset hx)

theorem isDigit_of_mem_toString {n : ℕ} {x : Char} (hx : x ∈ (toString n).toList) : x.isDigit := by
  rw [Nat.toString_eq_repr,Nat.toList_repr] at hx
  exact Nat.isDigit_of_mem_toDigits (by decide) (by decide) hx

end Go
