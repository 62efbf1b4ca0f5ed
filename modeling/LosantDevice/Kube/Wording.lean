import LosantDevice.Kube.Conditions
import LosantDevice.Kube.Provenance

/-!
# The texts of conditions

What the schema of a stored condition asks of its reason and its message, and what a controller
puts there when it records a failure: its own words, followed by what it was told. A controller
that always does so writes statuses that the schema admits, except for failures with long texts.
-/
namespace Kube
open Effect

variable {κ : Type} [DecidableEq κ]

/-- The texts are as the schema wants them. -/
structure Condition.Worded (c : Condition κ) : Prop where
  pattern : reasonMatches c.reason.toList
  reason : c.reason.length ≤ 1024
  message : c.message.length ≤ 32768

/-- Every condition has admissible texts. -/
def Fits (cs : List (Condition κ)) : Prop :=
  ∀ ty c, findStatusCondition cs ty = some c → c.Worded

/-- A failure as it is recorded: the reason, and the two halves of the message. -/
structure Complaint where
  reason : String
  label : String
  text : String

namespace Complaint
variable (f : Complaint)

def message : String := f.label ++ f.text

def size : ℕ := f.label.length + f.text.length

@[simp] theorem length_message : f.message.length = f.size := String.length_append _ _

end Complaint

theorem fits_nil : Fits ([] : List (Condition κ)) := fun _ _ h => by cases h

theorem Fits.of_admitted {cs : List (Condition κ)} (h : ∀ c ∈ cs, c.Admitted) : Fits cs := by
  intro ty c hc
  obtain ⟨-,hp,hr,hm⟩ := h c (List.mem_of_find?_eq_some hc)
  exact ⟨hp,hr,hm⟩

theorem Fits.encode {cs : List (Condition κ)} (h : Fits cs) : Fits (cs.map Condition.encode) := by
  intro ty c hc
  rw [findStatusCondition_map_encode] at hc
  obtain ⟨d,hd,rfl⟩ := Option.map_eq_some_iff.mp hc
  exact ⟨(h ty d hd).pattern,(h ty d hd).reason,(h ty d hd).message⟩

theorem Fits.of_encode {cs : List (Condition κ)} (h : Fits (cs.map Condition.encode)) :
    Fits cs := by
  intro ty c hc
  have hc : findStatusCondition (cs.map Condition.encode) ty = some c.encode := by
    rw [findStatusCondition_map_encode,hc]
    rfl
  exact ⟨(h ty _ hc).pattern,(h ty _ hc).reason,(h ty _ hc).message⟩

section set
variable (setter : ConditionSetter) (t : Time) {cs : List (Condition κ)} {c : Condition κ}

/-- A condition that was set has its texts in the schema if all conditions have. -/
theorem Fits.worded (h : Fits (setter.set t cs c)) : c.Worded := by
  obtain ⟨d,hd,-,-,-,hreason,hmessage⟩ := setter.find_set t cs c
  obtain ⟨hp,hr,hm⟩ := h _ d hd
  rw [hreason] at hp hr
  rw [hmessage] at hm
  exact ⟨hp,hr,hm⟩

theorem Fits.set (hcs : Fits cs) (hc : c.Worded) : Fits (setter.set t cs c) := by
  obtain ⟨d,hd,-,-,-,hreason,hmessage⟩ := setter.find_set t cs c
  intro ty c' hc'
  by_cases hty : ty = c.type
  · subst hty
    rw [hd] at hc'
    cases hc'
    obtain ⟨hp,hr,hm⟩ := hc
    rw [← hreason] at hp hr
    rw [← hmessage] at hm
    exact ⟨hp,hr,hm⟩
  · rw [setter.find_set_of_ne t cs c ty hty] at hc'
    exact hcs ty c' hc'

end set

/-- The condition of the type says that the failure was met. -/
def Complaint.ShownIn (f : Complaint) (cs : List (Condition κ)) (ty : κ) : Prop :=
  ∃ c, findStatusCondition cs ty = some c ∧ c.status = .false ∧ c.reason = f.reason ∧
    c.message = f.message

/-- The reason of the failure is one the schema admits. -/
def Complaint.Reasoned (f : Complaint) : Prop :=
  reasonMatches f.reason.toList = true ∧ f.reason.length ≤ 1024

omit [DecidableEq κ] in
/-- A condition that shows a failure is worded right exactly if the failure is short enough. -/
theorem Complaint.worded_iff {f : Complaint} (hf : f.Reasoned) {c : Condition κ}
    (hr : c.reason = f.reason) (hm : c.message = f.message) : c.Worded ↔ f.size ≤ 32768 := by
  constructor
  · intro h
    have hlen := h.message
    rw [hm,f.length_message] at hlen
    exact hlen
  · intro hsize
    refine ⟨?_,?_,?_⟩
    · rw [hr]
      exact hf.1
    · rw [hr]
      exact hf.2
    · rw [hm,f.length_message]
      exact hsize

/-- The condition by which the failure is recorded. -/
def Complaint.condition (f : Complaint) (ty : κ) (generation : ℕ) : Condition κ where
  type := ty
  status := .false
  observedGeneration := generation
  lastTransitionTime := Go.zeroTime
  reason := f.reason
  message := f.message

section shown
variable (setter : ConditionSetter) (t : Time) {cs : List (Condition κ)} {f : Complaint} {ty : κ}
  {generation : ℕ}

theorem Complaint.shownIn_set :
    f.ShownIn (setter.set t cs (f.condition ty generation)) ty := by
  obtain ⟨d,hd,hs⟩ := setter.find_set t cs (f.condition ty generation)
  exact ⟨d,hd,hs.2.1,hs.2.2.2.1,hs.2.2.2.2⟩

theorem Complaint.ShownIn.set_of_ne {ty' : κ} (h : f.ShownIn cs ty) (hne : ty ≠ ty') :
    f.ShownIn (setter.set t cs (f.condition ty' generation)) ty := by
  obtain ⟨d,hd,hs⟩ := h
  exact ⟨d,(setter.find_set_of_ne t cs (f.condition ty' generation) ty hne).trans hd,hs⟩

end shown

/-! ## Parts that may fail -/

section ends
variable {I : Interface} {Fails : History I → String → String → Prop} {h h' : History I}

/-- What a part of a program ends with: if it fails, then with the words and the text of a failure
that its calls have met. -/
def Ends (Fails : History I → String → String → Prop) (h h' : History I)
    (r : Except String Unit) : Prop :=
  h <:+ h' ∧ ∀ err, r = .error err → ∃ label text, Fails h' label text ∧ label ++ text = err

theorem Ends.ok (hs : h <:+ h') : Ends Fails h h' (.ok ()) := ⟨hs,nofun⟩

theorem Ends.error {label text : String} (hs : h <:+ h') (hf : Fails h' label text) :
    Ends Fails h h' (.error (label ++ text)) := by
  refine ⟨hs,?_⟩
  rintro err ⟨⟩
  exact ⟨label,text,hf,rfl⟩

/-- A part that comes after the event `ev`. -/
theorem obeys_ends_cons {Φ : History I → I.Call → Prop} {p : Program I (Except String Unit)}
    {ev : Event I} (hp : Program.Obeys Φ (Ends Fails (ev::h)) (ev::h) p) :
    Program.Obeys Φ (Ends Fails h) (ev::h) p :=
  hp.mono (fun _ _ hq => hq) (fun _ _ hq => ⟨(List.suffix_cons _ _).trans hq.1,hq.2⟩)

end ends

/-! ## Controllers that record failures -/

/-- How a controller records failures: where its conditions are, the failures it can have met after
some calls, each with the condition it belongs to, the condition that sums up, and which of the
statuses it writes record a failure. -/
structure Recorder (K : Kind) (X : Interface) (κ : Type) where
  conditions : K.Status → List (Condition κ)
  Complains : K.Spec → History (K.interface X) → κ → Complaint → Prop
  summary : κ
  Records : History (K.interface X) → K.Object → Prop

namespace Recorder
variable {K : Kind} {X : Interface} {α : Type} (R : Recorder K X κ)

/-- The conditions say that the failure was met, in the one it belongs to and in the summary, and
they keep to the schema exactly if its texts are short enough. -/
structure Complained (ty : κ) (f : Complaint) (cs : List (Condition κ)) : Prop where
  shown : f.ShownIn cs ty
  summary : f.ShownIn cs R.summary
  fits : Fits cs ↔ f.size ≤ 32768

/-- The status records a failure that the calls `h` have met. -/
def Recorded (h : History (K.interface X)) (o : K.Object) : Prop :=
  ∃ ty f, R.Complains o.spec h ty f ∧ R.Complained ty f (R.conditions o.status)

/-- The objects that were read keep to the schema. -/
def ReadFits (h : History (K.interface X)) : Prop :=
  ∀ b : K.Object, (⟨.inl .get,.ok b⟩ : Event (K.interface X)) ∈ h → Fits (R.conditions b.status)

/-- The conditions in memory keep to the schema. -/
def Tidy (h : History (K.interface X)) (o : K.Object) : Prop :=
  R.ReadFits h → Fits (R.conditions o.status)

/-- A status that is written records a failure or keeps to the schema. -/
def Words (h : History (K.interface X)) : (K.interface X).Call → Prop
  | .inl (.updateStatus o) => R.ReadFits h →
      R.Records h o ∧ R.Recorded h o ∨ ¬R.Records h o ∧ Fits (R.conditions o.status)
  | _ => True

variable {R} {h h' : History (K.interface X)} {o : K.Object}

theorem ReadFits.earlier (hr : R.ReadFits h') (hs : h <:+ h') : R.ReadFits h :=
  fun b hb => hr b (hs.subset hb)

theorem Tidy.later (ht : R.Tidy h o) (hs : h <:+ h') : R.Tidy h' o :=
  fun hr => ht (hr.earlier hs)

theorem Tidy.cons (ht : R.Tidy h o) {ev : Event (K.interface X)} : R.Tidy (ev::h) o :=
  ht.later (List.suffix_cons _ _)

theorem Tidy.words (ht : R.Tidy h o) (hno : ¬R.Records h o) : R.Words h (.inl (.updateStatus o)) :=
  fun hread => .inr ⟨hno,ht hread⟩

/-- A failure is recorded by the condition that sums up, after the one it belongs to. -/
theorem complained_set {f : Complaint} {ty : κ} {cs : List (Condition κ)} {generation : ℕ}
    (setter : ConditionSetter) (t : Time) (hf : f.Reasoned)
    (hshown : ty ≠ R.summary → f.ShownIn cs ty) (hcs : f.size ≤ 32768 → Fits cs) :
    R.Complained ty f (setter.set t cs (f.condition R.summary generation)) := by
  have hworded : (f.condition R.summary generation).Worded ↔ f.size ≤ 32768 :=
    Complaint.worded_iff hf rfl rfl
  refine ⟨?_,Complaint.shownIn_set setter t,?_,?_⟩
  · by_cases hty : ty = R.summary
    · subst hty
      exact Complaint.shownIn_set setter t
    · exact (hshown hty).set_of_ne setter t hty
  · exact fun hfits => hworded.mp (hfits.worded setter t)
  · exact fun hsize => (hcs hsize).set setter t (hworded.mpr hsize)

end Recorder

section traced
variable {K : Kind} {X : Interface} {α : Type} {σ : System K X α} {c : Config σ}
  {Φ : History (K.interface X) → (K.interface X).Call → Prop}

/-- A stored status is the initial one or was admitted. -/
theorem Config.Traced.status_admitted (hc : c.Traced Φ) {o : K.Object}
    {l : List (Option K.Object)} (hl : l <:+ c.server.log) (ho : some o ∈ l) :
    o.status = K.initial ∨ ∃ t, K.admits t ∧ o.status = K.encode t := by
  induction l generalizing o with
  | nil => simp at ho
  | cons x l ih =>
    have ih := fun {o} => @ih o ((List.suffix_cons _ _).trans hl)
    rcases List.mem_cons.mp ho with rfl | ho
    · cases hc.origin hl with
      | created _ hb => exact .inl hb.2.2
      | user _ hst _ _ =>
        rw [hst]
        exact ih List.mem_cons_self
      | status _ _ _ _ _ ha => exact .inr ⟨_,ha,rfl⟩
      | object _ _ _ _ hk =>
        have hst := congrArg Object.status (hk o rfl)
        dsimp only at hst
        rw [hst]
        exact ih List.mem_cons_self
    · exact ih ho

/-- What holds of the initial status and of what is left of an admitted one holds of every object a
job ever read. -/
theorem Config.Traced.read_admitted (hc : c.Traced Φ) {P : K.Status → Prop} (hinit : P K.initial)
    (hadmits : ∀ t, K.admits t → P (K.encode t)) {h : History (K.interface X)} {b : K.Object}
    (hh : h ∈ c.histories) (hb : (⟨.inl .get,.ok b⟩ : Event (K.interface X)) ∈ h) : P b.status := by
  obtain ⟨p,l,rfl⟩ := List.append_of_mem hb
  obtain ⟨m,hm⟩ := hc.copies hh (List.suffix_append p _) (lastCopy_get_ok b)
  rcases hc.status_admitted hm List.mem_cons_self with heq | ⟨t,ht,heq⟩
  · rw [heq]
    exact hinit
  · rw [heq]
    exact hadmits t ht

/-- Of the statuses that the jobs handed to the server, those that record a failure say so and keep
to the schema exactly if it is short enough, and all others keep to the schema. -/
def Recorder.StatusesWorded (R : Recorder K X κ) (c : Config σ) : Prop :=
  ∀ h ∈ c.histories, ∀ o r k, (⟨.inl (.updateStatus o),r⟩::k : History (K.interface X)) <:+ h →
    (R.Records k o → R.Recorded k o) ∧ (¬R.Records k o → Fits (R.conditions o.status))

theorem Recorder.statusesWorded {R : Recorder K X κ} (hc : c.Traced Φ)
    (hwords : ∀ h e, Φ h e → R.Words h e) (hinit : Fits (R.conditions K.initial))
    (hadmits : ∀ t, K.admits t → Fits (R.conditions (K.encode t))) : R.StatusesWorded c := by
  intro h hh o r k hk
  have hread : R.ReadFits k := fun b hb =>
    hc.read_admitted (P := fun t => Fits (R.conditions t)) hinit hadmits hh
      (((List.suffix_cons _ _).trans hk).subset hb)
  rcases hwords _ _ (hc.allowed hh hk) hread with ⟨hrec,hr⟩ | ⟨hno,hfits⟩
  · exact ⟨fun _ => hr,fun hno => absurd hrec hno⟩
  · exact ⟨fun hrec => absurd hrec hno,fun _ => hfits⟩

end traced
end Kube
