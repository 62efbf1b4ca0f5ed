import LosantDevice.Effect.Program

/-!
# Requests over HTTP

What can become of a request, and the two string functions the clients apply to paths and
error texts. The decoding of a body is part of the reply, because it depends on nothing else.
-/
namespace Go

/-- The outcomes of building a request, sending it and reading the body of its response. -/
inductive Reply (β : Type)
  | unbuilt (err : String)
  | failed (err : String)
  | unread (err : String)
  | response (status : ℕ) (body : String) (decoded : Except String β)

/-- `strings.Contains`. -/
def contains (s sub : String) : Bool := decide (sub.toList <:+: s.toList)

theorem contains_append (a sub b : String) : contains (a ++ (sub ++ b)) sub = true := by
  simp only [contains,String.toList_append,decide_eq_true_eq]
  exact ⟨a.toList,b.toList,by simp⟩

def hexDigit (n : ℕ) : Char := if n < 10 then Char.ofNat (48+n) else Char.ofNat (55+n)

/-- `url.QueryEscape`, byte by byte. -/
def queryEscape (s : String) : String :=
  String.join <| s.toUTF8.toList.map fun b =>
    let c := Char.ofNat b.toNat
    if b < 128 ∧ (c.isAlphanum ∨ c = '-' ∨ c = '_' ∨ c = '.' ∨ c = '~') then c.toString
    else if c = ' ' then "+"
    else String.ofList ['%',hexDigit (b.toNat/16),hexDigit (b.toNat%16)]

end Go
