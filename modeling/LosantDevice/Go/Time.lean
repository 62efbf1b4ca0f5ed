import LosantDevice.Kube.Server
import Mathlib.Algebra.Group.Nat.Defs
import Mathlib.Algebra.Ring.Int.Defs
import Mathlib.Order.MinMax

/-!
# Durations and instants as the Go library computes them

`time.ParseDuration`, with its overflow checks and with the double-precision arithmetic of its
fractions, the saturating difference of two instants, and what is left of an instant when it is
stored with a resolution of one second.
-/
namespace Go
open Kube

def nanosecond : Duration := 1
def second : Duration := 1000000000*nanosecond
def minute : Duration := 60*second
def maxDuration : Duration := 2^63-1
def minDuration : Duration := -2^63

/-- The value of an `int64` expression. -/
def wrapInt64 (x : ℤ) : ℤ := x.bmod (2^64)

theorem wrapInt64_eq_self {x : ℤ} (hmin : minDuration ≤ x) (hmax : x ≤ maxDuration) :
    wrapInt64 x = x := by
  unfold minDuration at hmin
  unfold maxDuration at hmax
  apply Int.bmod_eq_of_le
  · simpa using hmin
  · omega

theorem wrapInt64_eq_self_iff {x : ℤ} :
    wrapInt64 x = x ↔ minDuration ≤ x ∧ x ≤ maxDuration := by
  constructor
  · intro h
    have hlo := Int.le_bmod (x := x) (m := 2^64) (by decide)
    have hhi := Int.bmod_lt (x := x) (m := 2^64) (by decide)
    change x.bmod (2^64) = x at h
    rw [h] at hlo hhi
    exact ⟨hlo,Int.le_sub_one_of_lt hhi⟩
  · exact fun h => wrapInt64_eq_self h.1 h.2

/-- The zero `time.Time`, midnight of 1 January of year 1. -/
def zeroTime : Time := -62135596800*second

/-- `time.Until t`, read when the clock shows `now`; the difference saturates. -/
def timeUntil (t now : Time) : Duration := max minDuration (min maxDuration (t-now))

theorem timeUntil_pos {t now : Time} : 0 < timeUntil t now ↔ now < t := by
  have hdur : (0 : ℤ) < maxDuration ∧ minDuration < (0 : ℤ) := by decide
  change (0 : ℤ) < max minDuration (min maxDuration (t-now)) ↔ _
  rw [lt_max_iff,lt_min_iff]
  constructor
  · rintro (h | ⟨-,h⟩)
    · exact absurd h (not_lt.mpr hdur.2.le)
    · exact Int.lt_of_sub_pos h
  · exact fun h => .inr ⟨hdur.1,Int.sub_pos_of_lt h⟩

/-- An instant as `metav1.Time` stores it. -/
def truncateSecond (t : Time) : Time := t/second*second

theorem truncateSecond_truncateSecond (t : Time) :
    truncateSecond (truncateSecond t) = truncateSecond t := by
  have hpos : second ≠ (0 : ℤ) := by decide
  change t/second*second/second*second = t/second*second
  rw [Int.mul_ediv_cancel _ hpos]

/-- Less than a second is cut off. -/
theorem lt_truncateSecond_add (t : Time) : (t : ℤ) < truncateSecond t+second := by
  have hpos : (0 : ℤ) < second := by decide
  have hlt := Int.lt_ediv_add_one_mul_self t hpos
  rwa [Int.add_mul,Int.one_mul] at hlt

theorem truncateSecond_add_seconds (t : Time) (n : ℤ) :
    truncateSecond ((t : ℤ)+n*second) = truncateSecond t+n*second := by
  have hpos : second ≠ (0 : ℤ) := by decide
  change ((t : ℤ)+n*second)/second*second = t/second*second+n*second
  rw [Int.add_mul_ediv_right _ _ hpos,Int.add_mul]

/-- An interval leads from one whole second to the next time in whole seconds exactly if it is a
number of seconds itself and it starts in that second. -/
theorem truncateSecond_add_eq_iff {t prev : Time} {d : Duration}
    (hprev : truncateSecond prev = prev) :
    truncateSecond ((t : ℤ)+d) = ((prev : ℤ)+d : ℤ) ↔
      second ∣ (d : ℤ) ∧ truncateSecond t = prev := by
  constructor
  · intro he
    -- Both sides of the equation are whole seconds, so the interval is.
    have hdvd : second ∣ (d : ℤ) := by
      have hsum : second ∣ ((prev : ℤ)+d : ℤ) := he ▸ Int.dvd_mul_left _ _
      have hone : second ∣ (prev : ℤ) := hprev ▸ Int.dvd_mul_left _ _
      exact (Int.dvd_add_right hone).mp hsum
    refine ⟨hdvd,?_⟩
    obtain ⟨n,rfl⟩ := hdvd
    rw [Int.mul_comm,truncateSecond_add_seconds] at he
    exact (Int.add_left_inj _).mp he
  · rintro ⟨⟨n,rfl⟩,he⟩
    rw [Int.mul_comm,truncateSecond_add_seconds,he]

/-- The double nearest to `n/d`, ties to even, as a fraction. -/
def roundDouble (n d : ℕ) : ℕ × ℕ :=
  if n = 0 then (0,1)
  else
    let e : ℤ := (n.log2 : ℤ)-d.log2
    let scaled (k : ℤ) : ℕ × ℕ := if 0 ≤ k then (n*2^k.toNat,d) else (n,d*2^(-k).toNat)
    let k : ℤ := if (scaled (52-e)).1/(scaled (52-e)).2 < 2^52 then 53-e else 52-e
    let m := (scaled k).1/(scaled k).2
    let r := (scaled k).1%(scaled k).2
    let m := if (scaled k).2 < 2*r ∨ 2*r = (scaled k).2 ∧ m%2 = 1 then m+1 else m
    if 0 ≤ k then (m,2^k.toNat) else (m*2^(-k).toNat,1)

/-- `uint64(float64(f) * (float64(unit) / scale))`. -/
def fractionOf (f unit scale : ℕ) : ℕ :=
  let x := roundDouble f 1
  let y := roundDouble unit scale
  let z := roundDouble (x.1*y.1) (x.2*y.2)
  z.1/z.2

def digit? (c : Char) : Option ℕ := if '0' ≤ c ∧ c ≤ '9' then some (c.toNat-48) else none

/-- `leadingInt`: the number and what follows it, `none` on overflow. -/
def leadingInt (x : ℕ) : List Char → Option (ℕ × List Char)
  | [] => some (x,[])
  | c::cs =>
    match digit? c with
    | none => some (x,c::cs)
    | some v =>
      if 2^63/10 < x then none
      else if 2^63 < x*10+v then none
      else leadingInt (x*10+v) cs

/-- `leadingFraction`: digits past the precision of the accumulator are skipped. -/
def leadingFraction (x scale : ℕ) (overflow : Bool) : List Char → ℕ × ℕ × List Char
  | [] => (x,scale,[])
  | c::cs =>
    match digit? c with
    | none => (x,scale,c::cs)
    | some v =>
      if overflow ∨ (2^63-1)/10 < x ∨ 2^63 < x*10+v then leadingFraction x scale true cs
      else leadingFraction (x*10+v) (scale*10) false cs

def unit? (u : List Char) : Option ℕ :=
  if u = ['n','s'] then some 1
  else if u = ['u','s'] ∨ u = ['µ','s'] ∨ u = ['μ','s'] then some 1000
  else if u = ['m','s'] then some 1000000
  else if u = ['s'] then some 1000000000
  else if u = ['m'] then some 60000000000
  else if u = ['h'] then some 3600000000000
  else none

/-- The loop of `ParseDuration` over the number-and-unit groups, adding up in `uint64`. Each
group takes at least one character, so the length of the text is fuel enough. -/
def parseGroups : ℕ → ℕ → List Char → Option ℕ
  | _,d,[] => some d
  | 0,_,_::_ => none
  | fuel+1,d,c::cs =>
    if c ≠ '.' ∧ (digit? c).isNone then none
    else
      match leadingInt 0 (c::cs) with
      | none => none
      | some (v,rest) =>
        let pre : Bool := rest.length ≠ cs.length+1
        let frac := match rest with
          | '.'::rest => leadingFraction 0 1 false rest
          | rest => (0,1,rest)
        let post : Bool := match rest with
          | '.'::rest => frac.2.2.length ≠ rest.length
          | _ => false
        if !pre && !post then none
        else
          let u := frac.2.2.takeWhile (fun c => c ≠ '.' ∧ (digit? c).isNone)
          if u = [] then none
          else
            match unit? u with
            | none => none
            | some unit =>
              if 2^63/unit < v then none
              else
                let w := v*unit+(if 0 < frac.1 then fractionOf frac.1 unit frac.2.1 else 0)
                if 2^63 < w then none
                else
                  let d := (d+w)%2^64
                  if 2^63 < d then none
                  else parseGroups fuel d (frac.2.2.drop u.length)

/-- `time.ParseDuration`; `none` where it returns an error. -/
def parseDuration (s : String) : Option Duration :=
  let cs := s.toList
  let neg := cs.head? = some '-'
  let cs := if cs.head? = some '-' ∨ cs.head? = some '+' then cs.tail else cs
  if cs = ['0'] then some 0
  else if cs = [] then none
  else
    match parseGroups cs.length 0 cs with
    | none => none
    | some d =>
      if neg then some (-(d : ℤ))
      else if 2^63-1 < d then none
      else some d

example : parseDuration "1h15m30.918273645s" = some 4530918273645 := by decide
example : parseDuration "-5m" = some (-5*minute) ∧ parseDuration "0s" = some 0 := by decide
example : parseDuration "5" = none ∧ parseDuration ".s" = none ∧ parseDuration "" = none := by
  decide

end Go
