import LosantDevice.Go.Http
import LosantDevice.Go.Query

/-!
# Escaped parameters

A query whose values went through `url.QueryEscape` is read back as it was written, whatever is in
the values.
-/
namespace Go

/-- What `url.QueryEscape` makes of a byte. -/
def escapeByte (b : UInt8) : String :=
  let c := Char.ofNat b.toNat
  if b < 128 ∧ (c.isAlphanum ∨ c = '-' ∨ c = '_' ∨ c = '.' ∨ c = '~') then c.toString
  else if c = ' ' then "+"
  else String.ofList ['%',hexDigit (b.toNat/16),hexDigit (b.toNat%16)]

theorem toList_loop (a : ByteArray) (i : ℕ) (r : List UInt8) :
    ByteArray.toList.loop a i r = r.reverse ++ a.data.toList.drop i := by
  fun_induction ByteArray.toList.loop a i r with
  | case1 i r hi ih =>
    have hget : a.get! i = a.data.toList[i] := by
      change a.data[i]! = _
      rw [getElem!_pos a.data i hi]
      rfl
    rw [ih,List.drop_eq_getElem_cons (i := i) (by simpa using hi),hget]
    simp
  | case2 i r hi =>
    rw [List.drop_eq_nil_of_le (by simpa using Nat.le_of_not_lt hi),List.append_nil]

theorem toList_eq_data (a : ByteArray) : a.toList = a.data.toList := by
  simp [ByteArray.toList,toList_loop]

theorem bytes_join (l : List String) : bytes (String.join l) = l.flatMap bytes := by
  induction l with
  | nil => rfl
  | cons s l ih => rw [String.join_cons,bytes_append,ih,List.flatMap_cons]

/-- The bytes of the escaped text. -/
theorem bytes_queryEscape (s : String) :
    bytes (queryEscape s) = (bytes s).flatMap fun b => bytes (escapeByte b) := by
  change bytes (String.join (s.toUTF8.toList.map escapeByte)) = _
  rw [bytes_join,List.flatMap_map,toList_eq_data]
  rfl

namespace Query

/-- The byte that an escape stands for. -/
def stands : Bytes → Option UInt8
  | [x] => if x = percent then none else some (if x = plus then blank else x)
  | [p,x,y] => if p = percent then hexPair [x,y] else none
  | _ => none

/-- A byte that ends nothing. -/
def safe (x : UInt8) : Bool :=
  !control x && x ≠ blank && x ≠ hash && x ≠ ampersand && x ≠ questionMark && x ≠ equalsSign

theorem escapeByte_table : ∀ n : Fin 256, stands (bytes (escapeByte (UInt8.ofFin n))) =
    some (UInt8.ofFin n) ∧ (bytes (escapeByte (UInt8.ofFin n))).all safe = true := by
  decide +kernel

theorem stands_escapeByte (b : UInt8) : stands (bytes (escapeByte b)) = some b :=
  (escapeByte_table b.toFin).1

theorem safe_escapeByte {b x : UInt8} (hx : x ∈ bytes (escapeByte b)) : safe x = true :=
  List.all_eq_true.mp (escapeByte_table b.toFin).2 x hx

/-- The text of a value, byte by byte. -/
def escape (v : Bytes) : Bytes := v.flatMap fun b => bytes (escapeByte b)

theorem unescape_stands {keep : Bool} {e : Bytes} {b : UInt8} (he : stands e = some b) (l : Bytes) :
    unescape keep (e ++ l) = (unescape keep l).map (b::·) := by
  match e with
  | [x] =>
    obtain ⟨hx,hb⟩ := Option.ite_none_left_eq_some.mp he
    cases hb
    change (if x = percent then _ else _) = _
    rw [if_neg hx]
    rfl
  | [p,x,y] =>
    obtain ⟨rfl,hb⟩ := Option.ite_none_right_eq_some.mp he
    have hpair : hexPair (x::y::l) = some b := hb
    simp [unescape,unescapeFrom,hpair]
  | [] | _::_::[] | _::_::_::_::_ => cases he

/-- What is escaped is read back. -/
theorem unescape_escape (keep : Bool) (v : Bytes) : unescape keep (escape v) = some v := by
  induction v with
  | nil => rfl
  | cons b v ih =>
    change unescape keep (bytes (escapeByte b) ++ escape v) = _
    rw [unescape_stands (stands_escapeByte b),ih]
    rfl

theorem safe_escape {v : Bytes} {x : UInt8} (hx : x ∈ escape v) : safe x = true := by
  obtain ⟨b,-,hb⟩ := List.mem_flatMap.mp hx
  exact safe_escapeByte hb

theorem ne_of_safe {x y : UInt8} (hx : safe x = true) (hy : safe y = false) : x ≠ y := by
  rintro rfl
  rw [hx] at hy
  cases hy

theorem pieces_append {a : Bytes} (ha : ampersand ∉ a) (l : Bytes) :
    pieces (a ++ ampersand::l) = a::pieces l := by
  induction a with
  | nil =>
    obtain ⟨ps,hps,-⟩ := pieces_eq l
    simp [pieces,hps]
  | cons b a ih =>
    have hb : b ≠ ampersand := (List.ne_of_not_mem_cons ha).symm
    simp [pieces,ih (List.not_mem_of_not_mem_cons ha),hb]

theorem pieces_single {a : Bytes} (ha : ampersand ∉ a) : pieces a = [a] := by
  induction a with
  | nil => rfl
  | cons b a ih =>
    have hb : b ≠ ampersand := (List.ne_of_not_mem_cons ha).symm
    simp [pieces,ih (List.not_mem_of_not_mem_cons ha),hb]

/-- A key with nothing in it that means something. -/
def plainKey (key : Bytes) : Bool := key.all fun x => safe x && x ≠ plus && x ≠ percent

theorem mem_plainKey {key : Bytes} {x : UInt8} (hkey : plainKey key = true) (hx : x ∈ key) :
    safe x = true ∧ x ≠ plus ∧ x ≠ percent := by
  have hx := List.all_eq_true.mp hkey x hx
  simp only [Bool.and_eq_true,decide_eq_true_eq] at hx
  exact ⟨hx.1.1,hx.1.2,hx.2⟩

theorem not_mem_plainKey {key : Bytes} {y : UInt8} (hkey : plainKey key = true)
    (hy : safe y = false) : y ∉ key :=
  fun h => ne_of_safe (mem_plainKey hkey h).1 hy rfl

theorem hasEscape_eq_false {l : Bytes} (hl : percent ∉ l) : hasEscape l = false := by
  induction l with
  | nil => rfl
  | cons b l ih =>
    have hb : b ≠ percent := (List.ne_of_not_mem_cons hl).symm
    simp [hasEscape,hb,ih (List.not_mem_of_not_mem_cons hl)]

theorem key_of_plainKey {keep : Bool} {key : Bytes} (hkey : plainKey key = true) :
    Key keep key := by
  have hpercent : percent ∉ key := fun h => (mem_plainKey hkey h).2.2 rfl
  refine ⟨⟨fun h => (mem_plainKey hkey h).2.1 rfl,?_⟩,not_mem_plainKey hkey (by decide),
    not_mem_plainKey hkey (by decide),not_mem_plainKey hkey (by decide)⟩
  cases keep with
  | true => exact hasEscape_eq_false hpercent
  | false => exact hpercent

theorem control_of_safe {x : UInt8} (hx : safe x = true) : control x = false := by
  cases hc : control x with
  | false => rfl
  | true => simp [safe,hc] at hx

/-- One parameter as it is written. -/
def assignment (p : Bytes × Bytes) : Bytes := p.1 ++ equalsSign::escape p.2

/-- A query with these parameters. -/
def written : List (Bytes × Bytes) → Bytes
  | [] => []
  | [p] => assignment p
  | p::ps => assignment p ++ ampersand::written ps

section written
variable {keep : Bool} {ps : List (Bytes × Bytes)}

theorem mem_assignment {p : Bytes × Bytes} {x : UInt8} (hx : x ∈ assignment p) :
    x ∈ p.1 ∨ x = equalsSign ∨ safe x = true := by
  rcases List.mem_append.mp hx with hx | hx
  · exact .inl hx
  · rcases List.mem_cons.mp hx with hx | hx
    · exact .inr (.inl hx)
    · exact .inr (.inr (safe_escape hx))

theorem ampersand_assignment {p : Bytes × Bytes} (hp : plainKey p.1 = true) :
    ampersand ∉ assignment p := by
  intro h
  rcases mem_assignment h with h | h | h
  · exact not_mem_plainKey hp (by decide) h
  · exact absurd h (by decide)
  · exact absurd h (by decide)

theorem pair_assignment {p : Bytes × Bytes} (hp : plainKey p.1 = true) :
    pair keep (assignment p) = some p := by
  rw [assignment,pair_key (key_of_plainKey hp),unescape_escape]
  rfl

theorem pieces_written (hne : ps ≠ []) (hps : ∀ p ∈ ps, plainKey p.1 = true) :
    pieces (written ps) = ps.map assignment := by
  fun_induction written ps with
  | case1 => exact absurd rfl hne
  | case2 p => exact pieces_single (ampersand_assignment (hps p List.mem_cons_self))
  | case3 p ps hmore ih =>
    obtain ⟨hp,hps⟩ := List.forall_mem_cons.mp hps
    rw [pieces_append (ampersand_assignment hp),ih hmore hps,List.map_cons]

theorem mem_written {x : UInt8} (hx : x ∈ written ps) :
    x = ampersand ∨ ∃ p ∈ ps, x ∈ assignment p := by
  fun_induction written ps with
  | case1 => cases hx
  | case2 p => exact .inr ⟨p,List.mem_cons_self,hx⟩
  | case3 p ps hmore ih =>
    rcases List.mem_append.mp hx with hx | hx
    · exact .inr ⟨p,List.mem_cons_self,hx⟩
    · rcases List.mem_cons.mp hx with hx | hx
      · exact .inl hx
      · rcases ih hx with h | ⟨q,hq,h⟩
        · exact .inl h
        · exact .inr ⟨q,List.mem_cons_of_mem p hq,h⟩

/-- A byte that does not stand in it. -/
theorem not_mem_written {x : UInt8} (hsafe : safe x = false) (hne : x ≠ ampersand)
    (heq : x ≠ equalsSign) (hps : ∀ p ∈ ps, plainKey p.1 = true) : x ∉ written ps := by
  intro h
  rcases mem_written h with h | ⟨p,hp,h⟩
  · exact hne h
  · rcases mem_assignment h with h | h | h
    · exact not_mem_plainKey (hps p hp) hsafe h
    · exact heq h
    · exact ne_of_safe h hsafe rfl

theorem hash_written (hps : ∀ p ∈ ps, plainKey p.1 = true) : hash ∉ written ps :=
  not_mem_written (by decide) (by decide) (by decide) hps

theorem control_written (hps : ∀ p ∈ ps, plainKey p.1 = true) :
    ∀ x ∈ written ps, control x = false := by
  intro x hx
  rcases mem_written hx with rfl | ⟨p,hp,hx⟩
  · decide
  · rcases mem_assignment hx with hx | rfl | hx
    · exact control_of_safe (mem_plainKey (hps p hp) hx).1
    · decide
    · exact control_of_safe hx

/-- The parameters are read back. -/
theorem parameter_written {base : Bytes} (hbase : hash ∉ base) (hquery : questionMark ∉ base)
    (hne : ps ≠ []) (hps : ∀ p ∈ ps, plainKey p.1 = true) (key : Bytes) :
    parameter keep (base ++ questionMark::written ps) key = ps.lookup key := by
  have hsent : sent (written ps) = written ps :=
    List.takeWhile_eq_self_iff.mpr fun x hx => decide_eq_true fun h => hash_written hps (h ▸ hx)
  have hpairs : (ps.map assignment).filterMap (pair keep) = ps := by
    rw [List.filterMap_map]
    conv_rhs => rw [← List.filterMap_some (l := ps)]
    exact List.filterMap_congr fun p hp => pair_assignment (hps p hp)
  rw [parameter,query_append hbase hquery,hsent,pieces_written hne hps,hpairs]

theorem wellEscaped_append {a b : Bytes} (ha : wellEscaped a = true) (hb : wellEscaped b = true) :
    wellEscaped (a ++ b) = true := by
  have hpair : ∀ l : Bytes, (hexPair l).isSome → (hexPair (l ++ b)).isSome := by
    intro l hl
    match l with
    | [] | [_] => cases hl
    | _::_::_ => exact hl
  induction a with
  | nil => exact hb
  | cons x a ih =>
    obtain ⟨hx,ha⟩ := (Bool.and_eq_true _ _).mp ha
    refine (Bool.and_eq_true _ _).mpr ⟨?_,ih ha⟩
    exact (Bool.or_eq_true _ _).mpr (((Bool.or_eq_true _ _).mp hx).imp_right (hpair a))

/-- Such a request can be sent and read. -/
theorem answerable_written {base : Bytes} (hbase : hash ∉ base) (hquery : questionMark ∉ base)
    (hcontrol : ∀ x ∈ base, control x = false) (hescaped : wellEscaped base = true)
    (hps : ∀ p ∈ ps, plainKey p.1 = true) :
    answerable (base ++ questionMark::written ps) = true := by
  have hhash : ∀ x ∈ base ++ questionMark::written ps, decide (x ≠ hash) = true := by
    intro x hx
    refine decide_eq_true ?_
    rintro rfl
    rcases List.mem_append.mp hx with hx | hx
    · exact hbase hx
    · rcases List.mem_cons.mp hx with hx | hx
      · exact absurd hx (by decide)
      · exact hash_written hps hx
  have hall : ∀ x ∈ base ++ questionMark::written ps, control x = false := by
    intro x hx
    rcases List.mem_append.mp hx with hx | hx
    · exact hcontrol x hx
    · rcases List.mem_cons.mp hx with rfl | hx
      · decide
      · exact control_written hps x hx
  have hsent : sent (base ++ questionMark::written ps) = base ++ questionMark::written ps :=
    List.takeWhile_eq_self_iff.mpr hhash
  have hfragment : fragment (base ++ questionMark::written ps) = [] := by
    rw [fragment,List.dropWhile_eq_nil_iff.mpr hhash]
    rfl
  have hshort : sent (written ps) = written ps :=
    List.takeWhile_eq_self_iff.mpr fun x hx => decide_eq_true fun h => hash_written hps (h ▸ hx)
  have hblank : blank ∉ written ps := not_mem_written (by decide) (by decide) (by decide) hps
  simp only [answerable,buildable,hsent,location_append hbase hquery,hfragment,
    query_append hbase hquery,hshort,Bool.and_eq_true,decide_eq_true_eq]
  exact ⟨⟨⟨List.all_eq_true.mpr fun x hx => by simp [hall x hx],hescaped⟩,rfl⟩,hblank⟩

end written

end Query
end Go
