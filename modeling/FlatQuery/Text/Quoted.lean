import FlatQuery.Text.Unprinted

set_option autoImplicit false

/-! # Quoted text

The form in which a message shows a piece of input: in double quotes, with a backslash before quotes
and backslashes, the usual letters for tab, line feed, carriage return and NUL, and the hexadecimal
code point of every other character without a printed form. -/

namespace FlatQuery.Text

/-- The code point of a character as `\u`, an opening brace, lower-case hexadecimal digits, and a
closing brace. -/
def codePointEscape (c : Char) : List Char :=
  ['\\', 'u', '\x7b'] ++ Nat.toDigits 16 c.toNat ++ ['\x7d']

/-- How a character stands in quoted text. -/
def quotedChar (c : Char) : List Char :=
  if c = '"' ∨ c = '\\' then ['\\', c]
  else if c = '\t' then ['\\', 't']
  else if c = '\n' then ['\\', 'n']
  else if c = '\r' then ['\\', 'r']
  else if c.toNat = 0 then ['\\', '0']
  else if isUnprinted c then codePointEscape c
  else [c]

/-- A text in double quotes. -/
def quoted (cs : List Char) : List Char :=
  '"' :: cs.flatMap quotedChar ++ ['"']

end FlatQuery.Text
