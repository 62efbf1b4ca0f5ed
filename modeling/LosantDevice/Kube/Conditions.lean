import LosantDevice.Go.Time

/-!
# Status conditions

A status carries a list of conditions, at most one for each type. The function that sets one
is not ours; the setter is a structure that carries what its documentation promises.
-/
namespace Kube

inductive ConditionStatus
  | true
  | false
  | unknown
  deriving DecidableEq, Repr

structure Condition (κ : Type) where
  type : κ
  status : ConditionStatus
  observedGeneration : ℕ
  lastTransitionTime : Time
  reason : String
  message : String
  deriving DecidableEq, Repr

variable {κ : Type} [DecidableEq κ]

/-- The condition of a type, if there is one. -/
def findStatusCondition (cs : List (Condition κ)) (ty : κ) : Option (Condition κ) :=
  cs.find? (fun c => c.type = ty)

/-- The condition of type `ty` is present with this status. -/
def HasStatus (cs : List (Condition κ)) (ty : κ) (v : ConditionStatus) : Prop :=
  ∃ c, findStatusCondition cs ty = some c ∧ c.status = v

def isStatusConditionTrue (cs : List (Condition κ)) (ty : κ) : Bool :=
  (findStatusCondition cs ty).any (fun c => c.status = .true)

theorem isStatusConditionTrue_iff {cs : List (Condition κ)} {ty : κ} :
    isStatusConditionTrue cs ty = Bool.true ↔ HasStatus cs ty .true := by
  unfold isStatusConditionTrue HasStatus
  cases findStatusCondition cs ty <;> simp

theorem HasStatus.unique {cs : List (Condition κ)} {ty : κ} {v w : ConditionStatus}
    (hv : HasStatus cs ty v) (hw : HasStatus cs ty w) : v = w := by
  obtain ⟨c,hc,rfl⟩ := hv
  obtain ⟨d,hd,rfl⟩ := hw
  rw [Option.some.inj (hc.symm.trans hd)]

/-- The pattern of a reason: a letter, then letters, digits, underscores, commas and colons, of
which the last is no comma or colon. -/
def reasonMatches : List Char → Bool
  | [] => Bool.false
  | c::cs => c.isAlpha && cs.all (fun c => c.isAlphanum || c = '_' || c = ',' || c = ':') &&
      cs.getLast?.all (fun c => c.isAlphanum || c = '_')

/-- What the schema of a stored condition asks for. A zero time is written as null. -/
def Condition.Admitted (c : Condition κ) : Prop :=
  c.lastTransitionTime ≠ Go.zeroTime ∧ reasonMatches c.reason.toList ∧ c.reason.length ≤ 1024 ∧
    c.message.length ≤ 32768

instance (c : Condition κ) : Decidable c.Admitted := by unfold Condition.Admitted; infer_instance

/-- A condition in its stored form. -/
def Condition.encode (c : Condition κ) : Condition κ :=
  { c with lastTransitionTime := Go.truncateSecond c.lastTransitionTime }

omit [DecidableEq κ] in
@[simp] theorem Condition.encode_encode (c : Condition κ) : c.encode.encode = c.encode := by
  simp [Condition.encode,Go.truncateSecond_truncateSecond]

theorem findStatusCondition_map_encode (cs : List (Condition κ)) (ty : κ) :
    findStatusCondition (cs.map Condition.encode) ty =
      (findStatusCondition cs ty).map Condition.encode := by
  unfold findStatusCondition
  rw [List.find?_map]
  rfl

@[simp] theorem hasStatus_map_encode {cs : List (Condition κ)} {ty : κ} {v : ConditionStatus} :
    HasStatus (cs.map Condition.encode) ty v ↔ HasStatus cs ty v := by
  unfold HasStatus
  rw [findStatusCondition_map_encode]
  cases findStatusCondition cs ty with
  | none => simp
  | some c => simp [Condition.encode]

/-- Two conditions that say the same; only the time of the last transition may differ. -/
def Condition.Same (c d : Condition κ) : Prop :=
  c.type = d.type ∧ c.status = d.status ∧ c.observedGeneration = d.observedGeneration ∧
    c.reason = d.reason ∧ c.message = d.message

instance (c d : Condition κ) : Decidable (c.Same d) := by unfold Condition.Same; infer_instance

/-- `SetStatusCondition` of the API machinery, called at a given time: the condition is there
afterwards, the other types keep theirs, the transition time of a condition that is there
already moves only when its status does, and setting what is there already changes nothing. -/
structure ConditionSetter where
  set : {κ : Type} → [DecidableEq κ] → Time → List (Condition κ) → Condition κ → List (Condition κ)
  find_set : ∀ {κ : Type} [DecidableEq κ] (t : Time) (cs : List (Condition κ)) (c : Condition κ),
    ∃ d, findStatusCondition (set t cs c) c.type = some d ∧ d.Same c
  find_set_of_ne : ∀ {κ : Type} [DecidableEq κ] (t : Time) (cs : List (Condition κ))
    (c : Condition κ) (ty : κ), ty ≠ c.type →
      findStatusCondition (set t cs c) ty = findStatusCondition cs ty
  set_same : ∀ {κ : Type} [DecidableEq κ] (t : Time) (cs : List (Condition κ))
    (c d : Condition κ), findStatusCondition cs c.type = some d → d.Same c → set t cs c = cs

namespace ConditionSetter
variable (set : ConditionSetter) (t : Time) (cs : List (Condition κ)) (c : Condition κ)

theorem hasStatus_set : HasStatus (set.set t cs c) c.type c.status := by
  obtain ⟨d,hd,hs⟩ := set.find_set t cs c
  exact ⟨d,hd,hs.2.1⟩

theorem hasStatus_set_of_ne {ty : κ} (hne : ty ≠ c.type) {v : ConditionStatus} :
    HasStatus (set.set t cs c) ty v ↔ HasStatus cs ty v := by
  unfold HasStatus
  rw [set.find_set_of_ne t cs c ty hne]

/-- Setting a condition leaves the stored ones as they are exactly if they say it already. -/
theorem encode_set_eq_iff (hcs : cs.map Condition.encode = cs) :
    (set.set t cs c).map Condition.encode = cs ↔
      ∃ d, findStatusCondition cs c.type = some d ∧ d.Same c := by
  constructor
  · intro he
    obtain ⟨d,hd,hs⟩ := set.find_set t cs c
    refine ⟨d.encode,?_,hs⟩
    rw [← he,findStatusCondition_map_encode,hd]
    rfl
  · rintro ⟨d,hd,hs⟩
    rw [set.set_same t cs c d hd hs]
    exact hcs

end ConditionSetter

/-- Replace the condition of the same type, or add it at the end. -/
def upsert (t : Time) : List (Condition κ) → Condition κ → List (Condition κ)
  | [],c => [{ c with lastTransitionTime := t }]
  | d::cs,c =>
    if d.type = c.type then
      { c with lastTransitionTime := if d.status = c.status then d.lastTransitionTime else t }::cs
    else d::upsert t cs c

theorem find_upsert (t : Time) (cs : List (Condition κ)) (c : Condition κ) :
    ∃ d, findStatusCondition (upsert t cs c) c.type = some d ∧ d.Same c := by
  induction cs with
  | nil => exact ⟨_,List.find?_cons_of_pos (by simp),rfl,rfl,rfl,rfl,rfl⟩
  | cons d cs ih =>
    unfold upsert
    split
    · exact ⟨_,List.find?_cons_of_pos (by simp),rfl,rfl,rfl,rfl,rfl⟩
    · rename_i hne
      obtain ⟨e,he,hs⟩ := ih
      exact ⟨e,by simpa [findStatusCondition,hne] using he,hs⟩

theorem find_upsert_of_ne (t : Time) (cs : List (Condition κ)) (c : Condition κ) (ty : κ)
    (hne : ty ≠ c.type) :
    findStatusCondition (upsert t cs c) ty = findStatusCondition cs ty := by
  induction cs with
  | nil => simp [upsert,findStatusCondition,hne.symm]
  | cons d cs ih =>
    unfold upsert
    split
    · rename_i hd
      simp [findStatusCondition,hne.symm,hd]
    · by_cases hd : d.type = ty
      · simp [findStatusCondition,hd]
      · simpa [findStatusCondition,hd] using ih

theorem upsert_same (t : Time) (cs : List (Condition κ)) (c d : Condition κ)
    (hd : findStatusCondition cs c.type = some d) (hs : d.Same c) : upsert t cs c = cs := by
  induction cs with
  | nil => simp [findStatusCondition] at hd
  | cons e cs ih =>
    unfold upsert
    split
    · rename_i he
      obtain rfl : e = d := by simpa [findStatusCondition,he] using hd
      obtain ⟨h1,h2,h3,h4,h5⟩ := hs
      cases e
      cases c
      simp_all
    · rename_i he
      rw [ih (by simpa [findStatusCondition,he] using hd)]

/-- A setter that behaves as documented, so the promises can all be kept. -/
def ConditionSetter.standard : ConditionSetter where
  set t cs c := upsert t cs c
  find_set := find_upsert
  find_set_of_ne := find_upsert_of_ne
  set_same := upsert_same

end Kube
