import FlatQuery.Value
import FlatQuery.Text.Blank
import FlatQuery.Text.Quoted

set_option autoImplicit false

/-! # Tuples

A tuple is a list of values, addressed by position. Its stored form is one line of text: the decimal
values with commas between them. `Tuple.read` accepts that form with blank space around the values,
and says what is wrong with any other line. -/

namespace FlatQuery

/-- A row of values. -/
structure Tuple where
  values : List Value
  deriving DecidableEq, Repr, Inhabited

namespace Tuple

/-- The number of values. -/
def length (t : Tuple) : Nat := t.values.length

/-- The value at a position. -/
def get? (t : Tuple) (i : Nat) : Option Value := t.values[i]?

/-- The values of one tuple followed by those of another. -/
def append (t u : Tuple) : Tuple := ⟨t.values ++ u.values⟩

instance : Append Tuple := ⟨append⟩

/-- The tuple of the values at the given positions, if all of them exist. -/
def project? (t : Tuple) (positions : List Nat) : Option Tuple :=
  (positions.mapM t.get?).map Tuple.mk

/-! ## Stored form -/

/-- The line that stores a tuple, without a line end. -/
def text (t : Tuple) : String :=
  ",".intercalate (t.values.map Value.text)

/-- Why a line is no tuple. -/
inductive ReadError
  /-- The line holds blank space only. -/
  | emptyLine
  /-- A piece between commas is no 64-bit decimal integer. -/
  | invalidInteger (piece : List Char)
  deriving DecidableEq, Repr

/-- The text of a reading error. -/
def ReadError.message : ReadError → String
  | emptyLine => "empty line"
  | invalidInteger piece => "invalid integer " ++ String.ofList (Text.quoted piece)

/-- Reads one piece of a line, already freed from blank space. -/
def readValue (piece : List Char) : Except ReadError Value :=
  match Value.read? piece with
  | some v => .ok v
  | none => .error (.invalidInteger piece)

/-- The pieces of a line: what stands between its commas, without blank space at the ends. -/
def pieces (line : List Char) : List (List Char) :=
  (Text.splitWhere (· == ',') line).map Text.trim

/-- Reads a stored line. Carriage returns at its end do not count. -/
def read (line : List Char) : Except ReadError Tuple :=
  let line := Text.trimEndWhere (· == '\r') line
  if (Text.trim line).isEmpty then .error .emptyLine
  else ((pieces line).mapM readValue).map Tuple.mk

end Tuple

end FlatQuery
