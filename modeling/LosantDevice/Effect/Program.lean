import Mathlib.Data.List.Basic
import Mathlib.Data.List.Infix
import Mathlib.Logic.Relation

/-!
# Programs that act on the outside only by calls

A program either ends with a value or makes one call and goes on with the answer.
Nothing is assumed of the answers, so a statement about every answer is a
statement about every outcome of the calls. Histories are lists of answered
calls with the latest first.
-/
namespace Effect

/-- The calls a program may make and the type of the answer to each. -/
structure Interface where
  Call : Type
  Answer : Call → Type

/-- One answered call. -/
structure Event (I : Interface) where
  call : I.Call
  answer : I.Answer call

abbrev History (I : Interface) := List (Event I)

/-- A finite-depth program; loops are recursions over the data they run through. -/
inductive Program (I : Interface) (α : Type) : Type
  | done (a : α)
  | call (e : I.Call) (next : I.Answer e → Program I α)

namespace Program
variable {I : Interface} {α β : Type}

def bind : Program I α → (α → Program I β) → Program I β
  | done a,f => f a
  | call e next,f => call e (fun r => (next r).bind f)

instance : Monad (Program I) where
  pure := done
  bind := bind

/-- Make a call and return its answer. -/
def perform (e : I.Call) : Program I (I.Answer e) := call e done

@[simp] theorem pure_eq_done (a : α) : (pure a : Program I α) = done a := rfl

/-- `Obeys Φ Ψ h p`: started after the history `h`, whatever the answers, `p` makes a
call only when `Φ` allows it after the history so far, and ends as `Ψ` says. -/
def Obeys (Φ : History I → I.Call → Prop) (Ψ : History I → α → Prop) :
    History I → Program I α → Prop
  | h,done a => Ψ h a
  | h,call e next => Φ h e ∧ ∀ r, Obeys Φ Ψ (⟨e,r⟩::h) (next r)

variable {Φ Φ' : History I → I.Call → Prop} {Ψ : History I → α → Prop} {h : History I}

theorem Obeys.mono {p : Program I α} {Ψ' : History I → α → Prop} (hp : Obeys Φ Ψ h p)
    (hΦ : ∀ h e, Φ h e → Φ' h e) (hΨ : ∀ h a, Ψ h a → Ψ' h a) : Obeys Φ' Ψ' h p := by
  induction p generalizing h with
  | done a => exact hΨ h a hp
  | call e next ih => exact ⟨hΦ h e hp.1,fun r => ih r (hp.2 r)⟩

/-- Two statements about one program hold together. -/
theorem Obeys.and {p : Program I α} {Ψ' : History I → α → Prop} (hp : Obeys Φ Ψ h p)
    (hp' : Obeys Φ' Ψ' h p) :
    Obeys (fun h e => Φ h e ∧ Φ' h e) (fun h a => Ψ h a ∧ Ψ' h a) h p := by
  induction p generalizing h with
  | done a => exact ⟨hp,hp'⟩
  | call e next ih => exact ⟨⟨hp.1,hp'.1⟩,fun r => ih r (hp.2 r) (hp'.2 r)⟩

/-- A program ends after the calls it was started after. -/
theorem Obeys.later {p : Program I α} {h₀ : History I} (hp : Obeys Φ Ψ h p) (hs : h₀ <:+ h) :
    Obeys Φ (fun h' a => Ψ h' a ∧ h₀ <:+ h') h p := by
  induction p generalizing h with
  | done a => exact ⟨hp,hs⟩
  | call e next ih => exact ⟨hp.1,fun r => ih r (hp.2 r) (hs.trans (List.suffix_cons _ h))⟩

/-- Nothing is asked of the calls or of the end. -/
theorem obeys_true (h : History I) (p : Program I α) :
    Obeys (fun _ _ => True) (fun _ _ => True) h p := by
  induction p generalizing h with
  | done a => trivial
  | call e next ih => exact ⟨trivial,fun r => ih r _⟩

theorem Obeys.ite {b : Prop} [Decidable b] {p q : Program I α} (hp : Obeys Φ Ψ h p)
    (hq : Obeys Φ Ψ h q) : Obeys Φ Ψ h (if b then p else q) := by
  split
  · exact hp
  · exact hq

/-- Sequencing: what the first part ends with is what the second part starts from. -/
theorem Obeys.bind {p : Program I α} {f : α → Program I β} {Ψ' : History I → β → Prop}
    (hp : Obeys Φ Ψ h p) (hf : ∀ h a, Ψ h a → Obeys Φ Ψ' h (f a)) :
    Obeys Φ Ψ' h (p >>= f) := by
  induction p generalizing h with
  | done a => exact hf h a hp
  | call e next ih => exact ⟨hp.1,fun r => ih r (hp.2 r)⟩

/-- The environment's answer to each call, as a function of everything before it. -/
abbrev Strategy (I : Interface) := History I → (e : I.Call) → I.Answer e

/-- Run a program to its end against a strategy. -/
def run (s : Strategy I) : History I → Program I α → History I × α
  | h,done a => (h,a)
  | h,call e next => run s (⟨e,s h e⟩::h) (next (s h e))

@[simp] theorem run_done (s : Strategy I) (a : α) : run s h (done a) = (h,a) := rfl

theorem run_answer {s : Strategy I} {e : I.Call} {next : I.Answer e → Program I α} {r : I.Answer e}
    (hr : s h e = r) : run s h (call e next) = run s (⟨e,r⟩::h) (next r) := by
  subst hr
  rfl

theorem run_bind (s : Strategy I) (p : Program I α) (f : α → Program I β) (h : History I) :
    run s h (p >>= f) = run s (run s h p).1 (f (run s h p).2) := by
  induction p generalizing h with
  | done a => rfl
  | call e next ih => exact ih _ _

theorem suffix_run (s : Strategy I) (h : History I) (p : Program I α) : h <:+ (run s h p).1 := by
  induction p generalizing h with
  | done a => exact List.suffix_refl h
  | call e next ih => exact (List.suffix_cons _ h).trans (ih _ _)

/-- A call that was made after a later history is one of the new ones. -/
theorem call_mem_of_suffix {x : Event I} {l h' : History I} (hh : h <:+ h')
    (hx : x::h' <:+ l ++ h) : x.call ∈ l.map Event.call := by
  obtain ⟨k,rfl⟩ := hh
  obtain ⟨a,ha⟩ := hx
  have hl : a ++ x::k = l := by
    apply List.append_cancel_right
    simpa using ha
  rw [← hl]
  simp

/-- What every run ends with. -/
theorem Obeys.ends {p : Program I α} (hp : Obeys Φ Ψ h p) (s : Strategy I) :
    Ψ (run s h p).1 (run s h p).2 := by
  induction p generalizing h with
  | done a => exact hp
  | call e next ih => exact ih _ (hp.2 _)

/-- What is true of every call a program may make is true of every call of a run. -/
theorem Obeys.run_all {p : Program I α} {P : I.Call → Prop} (hp : Obeys (fun _ e => P e) Ψ h p)
    (s : Strategy I) (hh : ∀ e ∈ h, P e.call) : ∀ e ∈ (run s h p).1, P e.call := by
  induction p generalizing h with
  | done a => exact hh
  | call e next ih =>
    refine ih _ (hp.2 _) ?_
    intro e' he'
    rcases List.mem_cons.mp he' with rfl | he'
    · exact hp.1
    · exact hh e' he'

/-- Every call of every run was allowed when it was made. -/
theorem Obeys.calls {p : Program I α} (hp : Obeys Φ Ψ h p) (s : Strategy I)
    {l : History I} {ev : Event I} (hl : ev::l <:+ (run s h p).1) (hlen : h.length ≤ l.length) :
    Φ l ev.call := by
  induction p generalizing h with
  | done a =>
    have hle := hl.length_le
    simp only [List.length_cons] at hle
    change l.length+1 ≤ h.length at hle
    omega
  | call e next ih =>
    obtain hlt | heq := Nat.lt_or_eq_of_le hlen
    · exact ih _ (hp.2 _) hl (Nat.succ_le_of_lt hlt)
    · have hs := List.suffix_or_suffix_of_suffix hl (suffix_run s (⟨e,s h e⟩::h) (next (s h e)))
      have he : ev::l = ⟨e,s h e⟩::h := by
        rcases hs with hs | hs
        · exact hs.eq_of_length (by simp [heq])
        · exact (hs.eq_of_length (by simp [heq])).symm
      obtain ⟨rfl,rfl⟩ := List.cons.inj he
      exact hp.1

/-- `Runs serve others p w a w'`: `p`, started in the world `w`, can end with `a` in `w'`
when `serve` answers its calls and the steps of `others` fall anywhere between them. -/
inductive Runs {W : Type} (serve : W → (e : I.Call) → I.Answer e → W → Prop)
    (others : W → W → Prop) : Program I α → W → α → W → Prop
  | done {a w} : Runs serve others (done a) w a w
  | others {p w w' a w''} (step : others w w') (rest : Runs serve others p w' a w'') :
      Runs serve others p w a w''
  | call {e next w r w' a w''} (answer : serve w e r w')
      (rest : Runs serve others (next r) w' a w'') : Runs serve others (call e next) w a w''

section runs
variable {W : Type} {serve : W → (e : I.Call) → I.Answer e → W → Prop} {others : W → W → Prop}
  {w w' : W} {a b : α}

theorem Runs.done_inv (h : Runs serve others (Program.done b) w a w') :
    a = b ∧ Relation.ReflTransGen others w w' := by
  generalize hp : (Program.done b : Program I α) = p at h
  induction h with
  | done =>
    cases hp
    exact ⟨rfl,.refl⟩
  | others hs _ ih =>
    obtain ⟨ha,hr⟩ := ih hp
    exact ⟨ha,hr.head hs⟩
  | call => cases hp

/-- The others first, then the call, then the rest. -/
theorem Runs.call_inv {e : I.Call} {next : I.Answer e → Program I α}
    (h : Runs serve others (Program.call e next) w a w') : ∃ w₁ r w₂,
      Relation.ReflTransGen others w w₁ ∧ serve w₁ e r w₂ ∧ Runs serve others (next r) w₂ a w' := by
  generalize hp : (Program.call e next : Program I α) = p at h
  induction h with
  | done => cases hp
  | others hs _ ih =>
    obtain ⟨w₁,r,w₂,hr,hserve,hrest⟩ := ih hp
    exact ⟨w₁,r,w₂,hr.head hs,hserve,hrest⟩
  | call hserve hrest =>
    cases hp
    exact ⟨_,_,_,.refl,hserve,hrest⟩

/-- When nobody else acts, a program that has ended leaves the world as it is. -/
theorem Runs.done_alone (h : Runs serve (fun _ _ => False) (Program.done b) w a w') :
    a = b ∧ w' = w := by
  obtain ⟨ha,hs⟩ := h.done_inv
  cases hs with
  | refl => exact ⟨ha,rfl⟩
  | tail _ hs => exact hs.elim

/-- When nobody else acts, the call comes first. -/
theorem Runs.call_alone {e : I.Call} {next : I.Answer e → Program I α}
    (h : Runs serve (fun _ _ => False) (Program.call e next) w a w') : ∃ r w₁,
      serve w e r w₁ ∧ Runs serve (fun _ _ => False) (next r) w₁ a w' := by
  obtain ⟨w₁,r,w₂,hs,hserve,hrest⟩ := h.call_inv
  cases hs with
  | refl => exact ⟨r,w₂,hserve,hrest⟩
  | tail _ hs => exact hs.elim

/-- The others may move before a run. -/
theorem Runs.after {p : Program I α} {w₁ : W} (hs : Relation.ReflTransGen others w w₁)
    (h : Runs serve others p w₁ a w') : Runs serve others p w a w' := by
  induction hs using Relation.ReflTransGen.head_induction_on with
  | refl => exact h
  | head hs _ ih => exact .others hs ih

theorem Runs.mono {serve' : W → (e : I.Call) → I.Answer e → W → Prop} {p : Program I α}
    (h : Runs serve others p w a w') (hserve : ∀ {w e r w'}, serve w e r w' → serve' w e r w') :
    Runs serve' others p w a w' := by
  induction h with
  | done => exact .done
  | others hs _ ih => exact .others hs ih
  | call ha _ ih => exact .call (hserve ha) ih

/-- A run is one of a coarser world, in which some steps of the others may not be seen. -/
theorem Runs.image {V : Type} {serve' : V → (e : I.Call) → I.Answer e → V → Prop}
    {others' : V → V → Prop} {p : Program I α} (f : W → V)
    (hothers : ∀ {w w'}, others w w' → f w' = f w ∨ others' (f w) (f w'))
    (hserve : ∀ {w e r w'}, serve w e r w' → serve' (f w) e r (f w'))
    (h : Runs serve others p w a w') : Runs serve' others' p (f w) a (f w') := by
  induction h with
  | done => exact .done
  | others hs _ ih =>
    rcases hothers hs with heq | hs
    · rw [← heq]
      exact ih
    · exact .others hs ih
  | call ha _ ih => exact .call (hserve ha) ih

theorem Runs.bind {p : Program I β} {f : β → Program I α} {b : β} {w₁ : W}
    (hp : Runs serve others p w b w₁) (hf : Runs serve others (f b) w₁ a w') :
    Runs serve others (p >>= f) w a w' := by
  induction hp with
  | done => exact hf
  | others hs _ ih => exact .others hs (ih hf)
  | call ha _ ih => exact .call ha (ih hf)

/-- A run of two parts is a run of the first and then one of the second. -/
theorem Runs.bind_inv {p : Program I β} {f : β → Program I α}
    (h : Runs serve others (p >>= f) w a w') : ∃ b w₁,
      Runs serve others p w b w₁ ∧ Runs serve others (f b) w₁ a w' := by
  induction p generalizing w with
  | done b => exact ⟨b,w,.done,h⟩
  | call e next ih =>
    obtain ⟨w₁,r,w₂,hs,hserve,hrest⟩ := h.call_inv
    obtain ⟨b,w₃,hp,hf⟩ := ih r hrest
    exact ⟨b,w₃,.after hs (.call hserve hp),hf⟩

/-- A relation that every step of a run respects relates its two ends. -/
theorem Runs.relates {R : W → W → Prop} {P : I.Call → Prop} {h : History I} {p : Program I α}
    (hrefl : ∀ w, R w w) (htrans : ∀ {u v w}, R u v → R v w → R u w)
    (hothers : ∀ {u v}, others u v → R u v)
    (hserve : ∀ {u v} {e : I.Call} {r}, P e → serve u e r v → R u v)
    (hp : Obeys (fun _ e => P e) (fun _ _ => True) h p) (hr : Runs serve others p w a w') :
    R w w' := by
  induction hr generalizing h with
  | done => exact hrefl _
  | others hs _ ih => exact htrans (hothers hs) (ih hp)
  | call ha _ ih => exact htrans (hserve hp.1 ha) (ih (hp.2 _))

/-- Run a program against a function that answers its calls. -/
def evaluate (f : W → (e : I.Call) → Option (I.Answer e × W)) : Program I α → W → Option (α × W)
  | .done a,w => some (a,w)
  | .call e next,w =>
    match f w e with
    | some (r,w') => evaluate f (next r) w'
    | none => none

theorem evaluate_runs {f : W → (e : I.Call) → Option (I.Answer e × W)}
    (hf : ∀ {w e r w'}, f w e = some (r,w') → serve w e r w') {p : Program I α}
    (hp : evaluate f p w = some (a,w')) : Runs serve others p w a w' := by
  induction p generalizing w with
  | done b =>
    cases hp
    exact .done
  | call e next ih =>
    unfold evaluate at hp
    split at hp
    · rename_i r w₁ hr
      exact .call (hf hr) (ih r hp)
    · cases hp

end runs

end Program
end Effect
