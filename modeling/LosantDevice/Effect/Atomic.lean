import Mathlib.Logic.Function.Basic

/-!
# Objects whose operations take effect at once

A sequential object answers one operation at a time. Callers of the atomic object call it and
return from it at any time, and between the two the operation takes effect in one step that nobody
sees. A system is linearizable if whatever its callers see could have been seen of the atomic
object.
-/
namespace Effect

/-- Labelled steps from `s` to `s'`. The trace has the labels that can be seen, the latest first. -/
inductive Traces {S L : Type} (step : S → Option L → S → Prop) (s : S) : List L → S → Prop
  | refl : Traces step s [] s
  | tail {t s' l s''} (before : Traces step s t s') (moved : step s' l s'') :
      Traces step s (l.toList ++ t) s''

namespace Traces
variable {S A L : Type} {step : S → Option L → S → Prop} {astep : A → Option L → A → Prop}

theorem single {s s' : S} {l : Option L} (h : step s l s') : Traces step s l.toList s' := by
  have h' := Traces.refl.tail h
  rwa [List.append_nil] at h'

theorem trans {s s' s'' : S} {t u : List L} (h : Traces step s t s') (h' : Traces step s' u s'') :
    Traces step s (u ++ t) s'' := by
  induction h' with
  | refl => exact h
  | tail _ hm ih =>
    rw [List.append_assoc]
    exact ih.tail hm

/-- What one step can be answered with, a whole run can. -/
theorem simulate {R : S → A → Prop}
    (hstep : ∀ {s a l s'}, R s a → step s l s' → ∃ a', Traces astep a l.toList a' ∧ R s' a')
    {s s' : S} {a : A} {t : List L} (hR : R s a) (h : Traces step s t s') :
    ∃ a', Traces astep a t a' ∧ R s' a' := by
  induction h with
  | refl => exact ⟨a,.refl,hR⟩
  | tail _ hm ih =>
    obtain ⟨b,hb,hRb⟩ := ih
    obtain ⟨b',hb',hRb'⟩ := hstep hRb hm
    exact ⟨b',hb.trans hb',hRb'⟩

end Traces

structure SequentialObject where
  State : Type
  Op : Type
  Ret : Type
  init : State
  apply : State → Op → State × Ret

/-- What can be seen of the caller `i`. -/
inductive Visible (ι Op Ret : Type)
  | call (i : ι) (op : Op)
  | ret (i : ι) (r : Ret)

/-- How far a caller is: its operation has not taken effect yet, or it has and there is a result. -/
inductive Phase (Op Ret : Type)
  | idle
  | called (op : Op)
  | done (r : Ret)

namespace SequentialObject
variable (O : SequentialObject) {ι : Type} [DecidableEq ι]

/-- The atomic object with its callers. -/
structure Callers (ι : Type) where
  object : O.State
  phase : ι → Phase O.Op O.Ret

def Callers.start (ι : Type) : O.Callers ι := ⟨O.init,fun _ => .idle⟩

variable {O} in
def Callers.set (a : O.Callers ι) (i : ι) (p : Phase O.Op O.Ret) : O.Callers ι :=
  { a with phase := Function.update a.phase i p }

inductive AtomicStep : O.Callers ι → Option (Visible ι O.Op O.Ret) → O.Callers ι → Prop
  | call {a i op} (idle : a.phase i = .idle) :
      AtomicStep a (some (.call i op)) (a.set i (.called op))
  | effect {a i op} (called : a.phase i = .called op) :
      AtomicStep a none ⟨(O.apply a.object op).1,
        Function.update a.phase i (.done (O.apply a.object op).2)⟩
  | ret {a i r} (done : a.phase i = .done r) : AtomicStep a (some (.ret i r)) (a.set i .idle)

/-- The trace could have been seen of the atomic object. -/
def Explains (t : List (Visible ι O.Op O.Ret)) : Prop :=
  ∃ a, Traces O.AtomicStep (Callers.start O ι) t a

end SequentialObject
end Effect
