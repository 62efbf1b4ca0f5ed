import LosantDevice.Effect.Program

/-!
# Programs side by side

Several programs share a world. One call at a time is answered, of any of them, and programs start
at any time. A program that is never taken up again has crashed or is waiting for ever.
-/
namespace Effect
namespace Program
variable {I : Interface} {α W : Type}

/-- `Rest p q`: `q` is what is left of `p` after some of its calls have been answered. -/
inductive Rest : Program I α → Program I α → Prop
  | refl (p : Program I α) : Rest p p
  | next {e next q} (r : I.Answer e) (rest : Rest (next r) q) : Rest (call e next) q

/-- What holds of every call of a program holds of every call of the rest. -/
theorem Obeys.rest {P : I.Call → Prop} {Ψ : History I → α → Prop} {h : History I}
    {p q : Program I α} (hp : Obeys (fun _ e => P e) Ψ h p) (hr : Rest p q) :
    ∃ h', Obeys (fun _ e => P e) Ψ h' q := by
  induction hr generalizing h with
  | refl => exact ⟨h,hp⟩
  | next r _ ih => exact ih (hp.2 r)

/-- One step of a pool of programs in a world. -/
inductive PoolStep (serve : W → (e : I.Call) → I.Answer e → W → Prop)
    (starts : Program I α → Prop) : W × List (Program I α) → W × List (Program I α) → Prop
  | start {w ps p} (started : starts p) : PoolStep serve starts (w,ps) (w,p::ps)
  | call {w w' ps qs e next r} (answered : serve w e r w') :
      PoolStep serve starts (w,ps ++ call e next::qs) (w',ps ++ next r::qs)

/-- Every call of the program that is answered while `J` holds keeps `J`, as far as the program can
get while it does. -/
def Keeps (serve : W → (e : I.Call) → I.Answer e → W → Prop) (J : W → Prop) :
    Program I α → Prop
  | done _ => True
  | call e next => ∀ {w r w'}, J w → serve w e r w' → J w' ∧ Keeps serve J (next r)

variable {serve : W → (e : I.Call) → I.Answer e → W → Prop} {starts : Program I α → Prop}
  {J : W → Prop}

theorem Keeps.of_obeys {P : I.Call → Prop} {Ψ : History I → α → Prop} {h : History I}
    {p : Program I α} (hJ : ∀ {w e r w'}, P e → J w → serve w e r w' → J w')
    (hp : Obeys (fun _ e => P e) Ψ h p) : Keeps serve J p := by
  induction p generalizing h with
  | done a => trivial
  | call e next ih => exact fun hw ha => ⟨hJ hp.1 hw ha,ih _ (hp.2 _)⟩

/-- What every program of the pool keeps, every run of the pool keeps. -/
theorem Keeps.pool (hstarts : ∀ p, starts p → Keeps serve J p) {w w' : W}
    {ps ps' : List (Program I α)} (hps : ∀ p ∈ ps, Keeps serve J p) (hw : J w)
    (h : Relation.ReflTransGen (PoolStep serve starts) (w,ps) (w',ps')) : J w' := by
  suffices hall : J w' ∧ ∀ p ∈ ps', Keeps serve J p from hall.1
  generalize hx : (w,ps) = x at h
  generalize hy : (w',ps') = y at h
  induction h generalizing w' ps' with
  | refl =>
    rw [← hx] at hy
    cases hy
    exact ⟨hw,hps⟩
  | @tail b c _ hs ih =>
    obtain ⟨v,qs⟩ := b
    obtain ⟨hv,hqs⟩ := ih rfl
    cases hs with
    | start hp =>
      cases hy
      refine ⟨hv,?_⟩
      intro p hp'
      rcases List.mem_cons.mp hp' with rfl | hp'
      · exact hstarts p hp
      · exact hqs p hp'
    | @call _ _ ps₁ ps₂ e next r ha =>
      cases hy
      obtain ⟨hv',hnext⟩ := hqs (call e next) (by simp) hv ha
      refine ⟨hv',?_⟩
      intro p hp
      rcases List.mem_append.mp hp with hp | hp
      · exact hqs p (List.mem_append_left _ hp)
      · rcases List.mem_cons.mp hp with rfl | hp
        · exact hnext
        · exact hqs p (List.mem_append_right _ (List.mem_cons_of_mem _ hp))

end Program
end Effect
