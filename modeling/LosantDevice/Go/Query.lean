import Mathlib.Data.List.Basic
import Mathlib.Data.List.TakeWhile
import Mathlib.Tactic.Common

/-!
# The parameters of a URL

How a server finds the parameters in the URL of a request: a hash sign ends what is sent, the query
begins at the question mark, ampersands stand between the parameters, and in keys and values a plus
sign is a blank and an escape is a byte. Servers differ in what they do with a percent sign that
begins no escape: some keep it, others drop the parameter. A URL with a malformed escape in its path
is not sent, and a request with a blank in its query is refused.
-/
namespace Go

abbrev Bytes := List UInt8

def bytes (s : String) : Bytes := s.toByteArray.data.toList

theorem bytes_append (a b : String) : bytes (a ++ b) = bytes a ++ bytes b := by simp [bytes]

theorem bytes_injective : Function.Injective bytes := by
  intro a b h
  exact String.toByteArray_inj.mp (ByteArray.ext (Array.toList_inj.mp h))

namespace Query

def blank : UInt8 := 32
def hash : UInt8 := 35
def percent : UInt8 := 37
def ampersand : UInt8 := 38
def plus : UInt8 := 43
def equalsSign : UInt8 := 61
def questionMark : UInt8 := 63

def unhex (b : UInt8) : Option UInt8 :=
  if 48 ≤ b ∧ b ≤ 57 then some (b-48)
  else if 65 ≤ b ∧ b ≤ 70 then some (b-55)
  else if 97 ≤ b ∧ b ≤ 102 then some (b-87)
  else none

/-- The byte that two hexadecimal digits at the front stand for. -/
def hexPair : Bytes → Option UInt8
  | x::y::_ =>
    match unhex x,unhex y with
    | some m,some n => some (16*m+n)
    | _,_ => none
  | _ => none

/-- `skip` counts the bytes of an escape that are still to be passed over. -/
def unescapeFrom (keep : Bool) : ℕ → Bytes → Option Bytes
  | _,[] => some []
  | skip+1,_::l => unescapeFrom keep skip l
  | 0,b::l =>
    if b = percent then
      match hexPair l with
      | some v => (unescapeFrom keep 2 l).map (v::·)
      | none => if keep then (unescapeFrom keep 0 l).map (b::·) else none
    else (unescapeFrom keep 0 l).map ((if b = plus then blank else b)::·)

/-- The decoding of a key or a value; `keep` says that a percent sign alone stands for itself. -/
def unescape (keep : Bool) (l : Bytes) : Option Bytes := unescapeFrom keep 0 l

def hasEscape : Bytes → Bool
  | [] => false
  | b::l => (b = percent && (hexPair l).isSome) || hasEscape l

/-- What stands between the ampersands. -/
def pieces : Bytes → List Bytes
  | [] => [[]]
  | b::l =>
    match pieces l with
    | p::ps => if b = ampersand then []::p::ps else (b::p)::ps
    | [] => []

def pair (keep : Bool) (p : Bytes) : Option (Bytes × Bytes) := do
  let key ← unescape keep (p.takeWhile (· ≠ equalsSign))
  let value ← unescape keep (p.dropWhile (· ≠ equalsSign)).tail
  pure (key,value)

/-- What is left of a URL before the hash sign. -/
def sent (url : Bytes) : Bytes := url.takeWhile (· ≠ hash)

def query (url : Bytes) : Bytes := ((sent url).dropWhile (· ≠ questionMark)).tail

/-- The first value of a key. -/
def parameter (keep : Bool) (url key : Bytes) : Option Bytes :=
  ((pieces (query url)).filterMap (pair keep)).lookup key

def fragment (url : Bytes) : Bytes := (url.dropWhile (· ≠ hash)).tail

def control (b : UInt8) : Bool := b < 32 || b = 127

def wellEscaped : Bytes → Bool
  | [] => true
  | b::l => (b ≠ percent || (hexPair l).isSome) && wellEscaped l

/-- What stands before the query. -/
def location (url : Bytes) : Bytes := (sent url).takeWhile (· ≠ questionMark)

/-- What `url.Parse` asks of everything behind the host. -/
def buildable (url : Bytes) : Bool :=
  (sent url).all (!control ·) && wellEscaped (location url) && wellEscaped (fragment url)

/-- The request can be sent and its first line be read: a blank in the path is escaped, one in the
query is sent as it is and ends the URL there. -/
def answerable (url : Bytes) : Bool := buildable url && blank ∉ query url

/-! ## Decoding -/

theorem length_of_hexPair {l : Bytes} {v : UInt8} (h : hexPair l = some v) : 2 ≤ l.length := by
  match l with
  | [] | [_] => cases h
  | _::_::_ => simp

theorem unescapeFrom_length {keep : Bool} {skip : ℕ} {l v : Bytes}
    (h : unescapeFrom keep skip l = some v) : v.length ≤ l.length-skip := by
  induction l generalizing skip v with
  | nil =>
    cases skip <;> cases h <;> simp
  | cons b l ih =>
    cases skip with
    | succ skip =>
      have hle := ih (show unescapeFrom keep skip l = some v from h)
      simpa using hle
    | zero =>
      unfold unescapeFrom at h
      split at h
      · split at h
        · obtain ⟨v',hv',rfl⟩ := Option.map_eq_some_iff.mp h
          have hle := ih hv'
          simp only [List.length_cons]
          omega
        · split at h
          · obtain ⟨v',hv',rfl⟩ := Option.map_eq_some_iff.mp h
            have hle := ih hv'
            simp only [List.length_cons]
            omega
          · cases h
      · obtain ⟨v',hv',rfl⟩ := Option.map_eq_some_iff.mp h
        have hle := ih hv'
        simp only [List.length_cons]
        omega

/-- Nothing in it is changed by decoding. -/
def Literal (keep : Bool) (l : Bytes) : Prop :=
  plus ∉ l ∧ if keep then hasEscape l = false else percent ∉ l

theorem unescape_eq_self_iff (keep : Bool) (l : Bytes) :
    unescape keep l = some l ↔ Literal keep l := by
  induction l with
  | nil => cases keep <;> simp [unescape,unescapeFrom,Literal,hasEscape]
  | cons b l ih =>
    unfold unescape at ih ⊢
    unfold unescapeFrom
    split
    · rename_i hb
      subst hb
      split
      · rename_i v hv
        have htwo := length_of_hexPair hv
        refine iff_of_false ?_ ?_
        · intro h
          obtain ⟨v',hv',heq⟩ := Option.map_eq_some_iff.mp h
          obtain ⟨-,rfl⟩ := List.cons.inj heq
          have hle := unescapeFrom_length hv'
          omega
        · rintro ⟨-,h⟩
          cases keep <;> simp [hasEscape,hv] at h
      · rename_i hv
        cases keep with
        | true =>
          have hmap : (unescapeFrom true 0 l).map (percent::·) = some (percent::l) ↔
              unescapeFrom true 0 l = some l := by simp
          have hplus : plus ≠ percent := by decide
          rw [if_pos rfl,hmap,ih]
          simp [Literal,hasEscape,hv,hplus]
        | false => simp [Literal]
    · rename_i hb
      by_cases hplus : b = plus
      · subst hplus
        have hblank : blank ≠ plus := by decide
        simp [Literal,hblank]
      · have hmap : (unescapeFrom keep 0 l).map ((if b = plus then blank else b)::·) = some (b::l) ↔
            unescapeFrom keep 0 l = some l := by simp [hplus]
        rw [hmap,ih]
        simp [Literal,hasEscape,hb,Ne.symm hb,Ne.symm hplus]

/-! ## Parameters -/

theorem pieces_eq (l : Bytes) : ∃ ps, pieces l = l.takeWhile (· ≠ ampersand)::ps ∧
    ∀ p ∈ ps, (l.takeWhile (· ≠ ampersand)).length+p.length < l.length := by
  induction l with
  | nil => exact ⟨[],rfl,nofun⟩
  | cons b l ih =>
    obtain ⟨ps,hps,hlen⟩ := ih
    by_cases hb : b = ampersand
    · have htake : (b::l).takeWhile (· ≠ ampersand) = [] :=
        List.takeWhile_cons_of_neg (by simp [hb])
      have hle := (List.takeWhile_prefix (· ≠ ampersand) (l := l)).length_le
      rw [htake]
      refine ⟨l.takeWhile (· ≠ ampersand)::ps,by simp [pieces,hps,hb],?_⟩
      intro p hp
      simp only [List.length_cons,List.length_nil]
      rcases List.mem_cons.mp hp with rfl | hp
      · omega
      · have hlt := hlen p hp
        omega
    · have htake : (b::l).takeWhile (· ≠ ampersand) = b::l.takeWhile (· ≠ ampersand) :=
        List.takeWhile_cons_of_pos (by simp [hb])
      rw [htake]
      refine ⟨ps,by simp [pieces,hps,hb],?_⟩
      intro p hp
      have hlt := hlen p hp
      simp only [List.length_cons]
      omega

theorem unescape_length {keep : Bool} {l v : Bytes} (h : unescape keep l = some v) :
    v.length ≤ l.length := unescapeFrom_length h

theorem pair_eq_some {keep : Bool} {p k v : Bytes} (h : pair keep p = some (k,v)) :
    unescape keep (p.takeWhile (· ≠ equalsSign)) = some k ∧
      unescape keep (p.dropWhile (· ≠ equalsSign)).tail = some v := by
  obtain ⟨k',hk,h⟩ := Option.bind_eq_some_iff.mp h
  obtain ⟨v',hv,h⟩ := Option.bind_eq_some_iff.mp h
  cases h
  exact ⟨hk,hv⟩

theorem pair_length {keep : Bool} {p k v : Bytes} (h : pair keep p = some (k,v)) :
    v.length ≤ p.length := by
  have hv := unescape_length (pair_eq_some h).2
  have hdrop := (List.dropWhile_suffix (· ≠ equalsSign) (l := p)).length_le
  have htail := List.length_tail (l := p.dropWhile (· ≠ equalsSign))
  omega

/-- The value of a parameter is that of the first piece, or it is shorter than what is left. -/
theorem lookup_pieces {keep : Bool} {l key v : Bytes}
    (h : ((pieces l).filterMap (pair keep)).lookup key = some v) :
    pair keep (l.takeWhile (· ≠ ampersand)) = some (key,v) ∨
      (l.takeWhile (· ≠ ampersand)).length+v.length < l.length := by
  obtain ⟨ps,hps,hlen⟩ := pieces_eq l
  obtain ⟨l₁,l₂,heq,-⟩ := List.lookup_eq_some_iff.mp h
  have hmem : (key,v) ∈ (pieces l).filterMap (pair keep) := by
    rw [heq]
    simp
  obtain ⟨p,hp,hpair⟩ := List.mem_filterMap.mp hmem
  rw [hps] at hp
  rcases List.mem_cons.mp hp with rfl | hp
  · exact .inl hpair
  · have hle := pair_length hpair
    have hlt := hlen p hp
    exact .inr (by omega)

theorem sent_append {a : Bytes} (ha : hash ∉ a) (b : Bytes) : sent (a ++ b) = a ++ sent b := by
  refine List.takeWhile_append_of_pos ?_
  intro x hx
  exact decide_eq_true (fun h => ha (h ▸ hx))

theorem query_append {a : Bytes} (ha : hash ∉ a) (hq : questionMark ∉ a) (b : Bytes) :
    query (a ++ questionMark::b) = sent b := by
  have hsent : sent (questionMark::b) = questionMark::sent b :=
    List.takeWhile_cons_of_pos (by decide)
  have hdrop : (a ++ questionMark::sent b).dropWhile (· ≠ questionMark) = questionMark::sent b := by
    rw [List.dropWhile_append_of_pos]
    · exact List.dropWhile_cons_of_neg (by simp)
    · intro x hx
      exact decide_eq_true (fun h => hq (h ▸ hx))
  rw [query,sent_append ha,hsent,hdrop,List.tail_cons]

theorem location_append {a : Bytes} (ha : hash ∉ a) (hq : questionMark ∉ a) (b : Bytes) :
    location (a ++ questionMark::b) = a := by
  have hsent : sent (questionMark::b) = questionMark::sent b :=
    List.takeWhile_cons_of_pos (by decide)
  rw [location,sent_append ha,hsent,List.takeWhile_append_of_pos]
  · rw [List.takeWhile_cons_of_neg (by simp),List.append_nil]
  · intro x hx
    exact decide_eq_true (fun h => hq (h ▸ hx))

/-- A key that needs no escaping. -/
structure Key (keep : Bool) (key : Bytes) : Prop where
  literal : Literal keep key
  equalsSign : equalsSign ∉ key
  ampersand : ampersand ∉ key
  hash : hash ∉ key

section key
variable {keep : Bool} {key : Bytes} (hkey : Key keep key)
include hkey

theorem sent_key (l : Bytes) : sent (key ++ equalsSign::l) = key ++ equalsSign::sent l := by
  rw [sent_append hkey.hash]
  exact congrArg (key ++ ·) (List.takeWhile_cons_of_pos (by decide))

theorem takeWhile_key (l : Bytes) : (key ++ equalsSign::l).takeWhile (· ≠ ampersand) =
    key ++ equalsSign::l.takeWhile (· ≠ ampersand) := by
  rw [List.takeWhile_append_of_pos]
  · exact congrArg (key ++ ·) (List.takeWhile_cons_of_pos (by decide))
  · intro x hx
    exact decide_eq_true (fun h => hkey.ampersand (h ▸ hx))

theorem pair_key (m : Bytes) :
    pair keep (key ++ equalsSign::m) = (unescape keep m).map (fun v => (key,v)) := by
  have hne : ∀ x ∈ key, decide (x ≠ equalsSign) = true :=
    fun x hx => decide_eq_true (fun h => hkey.equalsSign (h ▸ hx))
  have htake : (key ++ equalsSign::m).takeWhile (· ≠ equalsSign) = key := by
    rw [List.takeWhile_append_of_pos hne,List.takeWhile_cons_of_neg (by simp),List.append_nil]
  have hdrop : ((key ++ equalsSign::m).dropWhile (· ≠ equalsSign)).tail = m := by
    rw [List.dropWhile_append_of_pos hne,List.dropWhile_cons_of_neg (by simp),List.tail_cons]
  unfold pair
  rw [htake,hdrop,(unescape_eq_self_iff keep key).mpr hkey.literal]
  cases unescape keep m <;> rfl

/-- The server finds the text that the client has put behind a key, exactly if the text has none of
the characters with a meaning. -/
theorem parameter_eq_self_iff {base : Bytes} (hbase : Query.hash ∉ base)
    (hquery : questionMark ∉ base) (l : Bytes) :
    parameter keep (base ++ questionMark::(key ++ Query.equalsSign::l)) key = some l ↔
      Query.hash ∉ l ∧ Query.ampersand ∉ l ∧ Literal keep l := by
  have hpiece : (sent l).takeWhile (· ≠ Query.ampersand) <+: sent l := List.takeWhile_prefix _
  have hsent : sent l <+: l := List.takeWhile_prefix _
  rw [parameter,query_append hbase hquery,sent_key hkey]
  constructor
  · intro h
    rcases lookup_pieces h with hpair | hlt
    · rw [takeWhile_key hkey,pair_key hkey] at hpair
      obtain ⟨v,hv,heq⟩ := Option.map_eq_some_iff.mp hpair
      cases heq
      -- The value is as long as the text, so that nothing was cut off.
      have hlen := unescape_length hv
      have hwhole : sent l = l := hsent.eq_of_length_le (le_trans hlen hpiece.length_le)
      rw [hwhole] at hpiece hv hlen
      have hone := hpiece.eq_of_length_le hlen
      rw [hone] at hv
      refine ⟨?_,?_,(unescape_eq_self_iff keep l).mp hv⟩
      · intro hx
        exact of_decide_eq_true (List.takeWhile_eq_self_iff.mp hwhole _ hx) rfl
      · intro hx
        exact of_decide_eq_true (List.takeWhile_eq_self_iff.mp hone _ hx) rfl
    · have hle := hsent.length_le
      rw [takeWhile_key hkey] at hlt
      simp only [List.length_append,List.length_cons] at hlt
      omega
  · rintro ⟨hh,ha,hl⟩
    have hwhole : sent l = l :=
      List.takeWhile_eq_self_iff.mpr (fun x hx => decide_eq_true (fun h => hh (h ▸ hx)))
    have hone : l.takeWhile (· ≠ Query.ampersand) = l :=
      List.takeWhile_eq_self_iff.mpr (fun x hx => decide_eq_true (fun h => ha (h ▸ hx)))
    obtain ⟨ps,hps,-⟩ := pieces_eq (key ++ Query.equalsSign::l)
    rw [takeWhile_key hkey,hone] at hps
    have hpair : pair keep (key ++ Query.equalsSign::l) = some (key,l) := by
      rw [pair_key hkey,(unescape_eq_self_iff keep l).mpr hl]
      rfl
    rw [hwhole,hps,List.filterMap_cons_some hpair]
    exact List.lookup_cons_self

end key

end Query
end Go
