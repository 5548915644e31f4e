set_option autoImplicit false

/-! # Decimal integers

A decimal integer is an optional single sign followed by one or more ASCII digits; leading zeros are
allowed and nothing else is. -/

namespace FlatQuery.Text

/-- The number that a list of ASCII digits denotes, most significant digit first. -/
def digitsValue (ds : List Char) : Nat :=
  ds.foldl (fun n d => 10 * n + (d.toNat - '0'.toNat)) 0

/-- Reads one or more ASCII digits. -/
def readNat? (cs : List Char) : Option Nat :=
  if !cs.isEmpty && cs.all Char.isDigit then some (digitsValue cs) else none

/-- Reads an optional sign and one or more ASCII digits. -/
def readInt? : List Char → Option Int
  | '-' :: ds => (readNat? ds).map fun n => -(n : Int)
  | '+' :: ds => (readNat? ds).map Int.ofNat
  | ds => (readNat? ds).map Int.ofNat

theorem readNat?_eq_some_iff {cs : List Char} {n : Nat} :
    readNat? cs = some n ↔ cs ≠ [] ∧ (∀ c ∈ cs, c.isDigit = true) ∧ n = digitsValue cs := by
  simp only [readNat?]
  split
  · next h =>
    simp only [Bool.and_eq_true, Bool.not_eq_true', List.isEmpty_eq_false_iff, List.all_eq_true] at h
    simp only [Option.some.injEq]
    exact ⟨fun hn => ⟨h.1, h.2, hn.symm⟩, fun hn => hn.2.2.symm⟩
  · next h =>
    simp only [Bool.and_eq_true, Bool.not_eq_true', List.isEmpty_eq_false_iff, List.all_eq_true] at h
    simp only [reduceCtorEq, false_iff]
    exact fun hn => h ⟨hn.1, hn.2.1⟩

end FlatQuery.Text
