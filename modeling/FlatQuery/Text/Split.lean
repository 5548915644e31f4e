set_option autoImplicit false

/-! # Splitting a list at separators

`splitWhere p xs` cuts `xs` at every element that satisfies `p` and drops those elements. There is
always one piece more than there are separators, and no piece holds a separator. -/

namespace FlatQuery.Text

/-- The pieces of a list between the elements that satisfy `p`. -/
def splitWhere {α : Type} (p : α → Bool) : List α → List (List α)
  | [] => [[]]
  | x :: xs =>
    if p x then [] :: splitWhere p xs
    else match splitWhere p xs with
      | [] => [[x]]
      | piece :: pieces => (x :: piece) :: pieces

theorem splitWhere_ne_nil {α : Type} (p : α → Bool) (xs : List α) : splitWhere p xs ≠ [] := by
  cases xs with
  | nil => simp [splitWhere]
  | cons x xs =>
    rw [splitWhere]
    split
    · simp
    · split <;> simp

/-- There is one piece more than there are separators. -/
theorem length_splitWhere {α : Type} (p : α → Bool) (xs : List α) :
    (splitWhere p xs).length = xs.countP p + 1 := by
  induction xs with
  | nil => simp [splitWhere]
  | cons x xs ih =>
    rw [splitWhere]
    split
    · next h => simp [ih, h]
    · next h =>
      split
      · next hnil => exact absurd hnil (splitWhere_ne_nil p xs)
      · next piece pieces hcons =>
        rw [hcons] at ih
        simp only [List.length_cons] at ih
        simp [h, ih]

end FlatQuery.Text
