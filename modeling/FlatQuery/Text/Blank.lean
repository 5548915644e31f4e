import FlatQuery.Text.Split

set_option autoImplicit false

/-! # Blank space

The Unicode property White_Space, and the two ways in which text is freed from it: `trim` removes it
at both ends, `words` yields the maximal runs between it. -/

namespace FlatQuery.Text

/-- Whether a character carries the Unicode property White_Space. -/
def isBlank (c : Char) : Bool :=
  let n := c.toNat
  (0x9 ≤ n && n ≤ 0xd) || n == 0x20 || n == 0x85 || n == 0xa0 || n == 0x1680
    || (0x2000 ≤ n && n ≤ 0x200a) || n == 0x2028 || n == 0x2029 || n == 0x202f || n == 0x205f
    || n == 0x3000

/-- A text without the characters satisfying `p` at its end. -/
def trimEndWhere (p : Char → Bool) (cs : List Char) : List Char :=
  (cs.reverse.dropWhile p).reverse

/-- A text without the blank space at both ends. -/
def trim (cs : List Char) : List Char :=
  trimEndWhere isBlank (cs.dropWhile isBlank)

/-- The words of a text: its maximal runs of characters that are not blank, in order. -/
def words (cs : List Char) : List (List Char) :=
  (splitWhere isBlank cs).filter (!·.isEmpty)

/-- Every character that core calls whitespace is blank. -/
theorem isBlank_of_isWhitespace {c : Char} (h : c.isWhitespace = true) : isBlank c = true := by
  simp only [Char.isWhitespace, Bool.or_eq_true, decide_eq_true_eq] at h
  rcases h with ((h | h) | h) | h <;> subst h <;> decide

end FlatQuery.Text
