import FlatQuery.Text.Decimal

set_option autoImplicit false

/-! # Values

A value is a signed 64-bit integer. It is computed with as an `Int`: an operation is carried out
over the integers, and `Value.ofInt?` yields its result when that is a value again. -/

namespace FlatQuery

/-- A stored integer. -/
abbrev Value := Int64

namespace Value

/-- Whether an integer is the value of some signed 64-bit integer. -/
def InRange (n : Int) : Prop := -9223372036854775808 ≤ n ∧ n ≤ 9223372036854775807

instance (n : Int) : Decidable (InRange n) := inferInstanceAs (Decidable (_ ∧ _))

/-- The value that an integer is, when it lies in range. -/
def ofInt? (n : Int) : Option Value :=
  if InRange n then some (Int64.ofInt n) else none

/-- The decimal text of a value. -/
def text (v : Value) : String := toString v.toInt

/-- Reads a decimal integer in range. -/
def read? (cs : List Char) : Option Value :=
  (Text.readInt? cs).bind ofInt?

/-! ## Values as integers -/

theorem inRange_toInt (v : Value) : InRange v.toInt := by
  have h1 := Int64.le_toInt v
  have h2 := Int64.toInt_lt v
  simp only [InRange]
  omega

theorem toInt_ofInt {n : Int} (h : InRange n) : (Int64.ofInt n).toInt = n := by
  rw [Int64.toInt_ofInt]
  simp only [InRange] at h
  have hsize : Int64.size = 2 ^ 64 := rfl
  exact Int.bmod_eq_of_le (by omega) (by omega)

theorem ofInt?_eq_some_iff {n : Int} {v : Value} : ofInt? n = some v ↔ v.toInt = n := by
  simp only [ofInt?]
  split
  · next h =>
    rw [Option.some.injEq]
    constructor
    · rintro rfl
      exact toInt_ofInt h
    · rintro rfl
      exact Int64.ofInt_toInt v
  · next h =>
    simp only [reduceCtorEq, false_iff]
    rintro rfl
    exact h (inRange_toInt v)

theorem ofInt?_toInt (v : Value) : ofInt? v.toInt = some v :=
  ofInt?_eq_some_iff.2 rfl

theorem ofInt?_eq_none_iff {n : Int} : ofInt? n = none ↔ ¬ InRange n := by
  simp only [ofInt?]
  split <;> simp_all

end Value

end FlatQuery
