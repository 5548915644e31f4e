import FlatQuery.Sql.TokenParser

set_option autoImplicit false

/-! # Data types

The names of data types with their lengths and options, as they stand in casts and in front of
literals. Any other name stands for a type of the user. The sign `>>` closes two types of arrays
that are one in the other. -/

namespace FlatQuery.Sql

/-- A data type. -/
structure DataType where
  normal : String
  /-- Whether it is a type of the user, and not one of arrays. -/
  custom : Bool
  deriving DecidableEq, Repr

namespace DataType

open TokenParser

/-! ## Lengths -/

/-- Reads a number in parentheses, if a parenthesis is next. -/
def length? : TokenParser String := do
  if (← peekSign) = "(" then return "(" ++ toString (← parenthesized natural) ++ ")" else return ""

/-- Reads the length of a text, if a parenthesis is next. -/
def textLength? : TokenParser String := do
  if ¬ (← sign? "(") then return ""
  else if ← keyword? "MAX" then
    sign ")"
    return "(MAX)"
  else
    let n ← natural
    let unit ← oneOf? ["CHARACTERS", "OCTETS"]
    sign ")"
    return "(" ++ toString n ++ behind " " unit ++ ")"

/-- Reads a precision and a scale, if a parenthesis is next. -/
def precision? : TokenParser String := do
  if ¬ (← sign? "(") then return ""
  else
    let n ← natural
    let scale ← if ← sign? "," then some <$> natural else pure none
    sign ")"
    return "(" ++ toString n ++ behind "," (scale.map toString) ++ ")"

/-- Reads what tells of the time zone. -/
def timeZone? : TokenParser String := do
  if ← keyword? "WITH" then
    phrase ["TIME", "ZONE"]
    return " WITH TIME ZONE"
  else if ← keyword? "WITHOUT" then
    phrase ["TIME", "ZONE"]
    return " WITHOUT TIME ZONE"
  else return ""

/-- Reads the values of an enumeration. -/
def members : TokenParser String := do
  return inParentheses (← parenthesized (commaSeparated (quoted '\'' <$> singleQuoted)))

/-! ## Types -/

/-- The types that are no more than a word. -/
def bare : List String := [
  "BOOLEAN", "BOOL", "REAL", "FLOAT4", "FLOAT64", "FLOAT8", "INT64", "UUID", "DATE", "INTERVAL",
  "JSON", "REGCLASS", "TEXT", "BYTEA"]

/-- The types with a length. -/
def sized : List String := [
  "FLOAT", "NVARCHAR", "CLOB", "BINARY", "VARBINARY", "BLOB", "DATETIME", "STRING", "BYTES"]

/-- The types of integers. -/
def integers : List String := [
  "TINYINT", "INT2", "SMALLINT", "MEDIUMINT", "INT", "INT4", "INT8", "INTEGER", "BIGINT"]

/-- The types of decimal numbers. -/
def decimals : List String := ["NUMERIC", "DECIMAL", "DEC", "BIGNUMERIC", "BIGDECIMAL"]

/-- The words that begin the name of a type without other types in it. -/
def words : List String :=
  bare ++ sized ++ integers ++ decimals ++ [
    "DOUBLE", "VARCHAR", "CHAR", "CHARACTER", "TIME", "TIMESTAMP", "TIMETZ", "TIMESTAMPTZ", "ENUM",
    "SET"]

/-- Reads what follows a word that begins the name of a type. -/
def afterWord (word : String) : TokenParser String := do
  if bare.contains word then return word
  else if sized.contains word then return word ++ (← length?)
  else if integers.contains word then
    let length ← length?
    return word ++ length ++ textIf (← keyword? "UNSIGNED") " UNSIGNED"
  else if decimals.contains word then return word ++ (← precision?)
  else match word with
    | "DOUBLE" => return word ++ textIf (← keyword? "PRECISION") " PRECISION"
    | "VARCHAR" => return word ++ (← textLength?)
    | "CHAR" | "CHARACTER" =>
      if ← keyword? "VARYING" then return word ++ " VARYING" ++ (← textLength?)
      else if ← phrase? ["LARGE", "OBJECT"] then return word ++ " LARGE OBJECT" ++ (← length?)
      else return word ++ (← textLength?)
    | "TIME" | "TIMESTAMP" =>
      let length ← length?
      return word ++ length ++ (← timeZone?)
    | "TIMETZ" | "TIMESTAMPTZ" => return word ++ (← length?)
    | "ENUM" | "SET" => return word ++ (← members)
    | _ => failure

/-- Reads the list behind the name of a user's type up to its closing parenthesis. Commas do not
count. -/
def modifiers : TokenParser (List String) := do
  let members ← many do
    match ← next with
    | .word text quote => return some (some (Token.word text quote).shown)
    | .string text => return some (some text)
    | .number digits _ => return some (some digits)
    | .symbol "," => return some none
    | .symbol ")" => return none
    | _ => failure
  return members.filterMap id

/-- Reads the name of a user's type, which begins with a word. -/
def named : TokenParser String := do
  match ← peek with
  | some (.word ..) =>
    let name := dotted (← dottedName)
    let modifiers ← if ← sign? "(" then modifiers else pure []
    return name ++ (if modifiers.isEmpty then "" else inParentheses modifiers)
  | _ => failure

/-- Reads a type without other types in it. -/
def simple : TokenParser DataType := do
  match ← oneOf? words with
  | some word => return ⟨← afterWord word, false⟩
  | none => return ⟨← named, true⟩

/-- Reads the brackets that make a type one of arrays. -/
def brackets (type : DataType) : TokenParser DataType := do
  let pairs ← many do
    if ← sign? "[" then
      sign "]"
      return some "[]"
    else return none
  return ⟨type.normal ++ String.join pairs, type.custom ∧ pairs.isEmpty⟩

/-- Reads the sign that closes a type of arrays, and tells whether it closes the type around that
one as well. -/
def closing : TokenParser Bool := do
  if ← sign? ">" then return false
  else
    sign ">>"
    return true

/-- Reads a type of at most `bound` types in one another, and tells whether its last sign closes the
type around it as well. -/
def nested : Nat → TokenParser (DataType × Bool)
  | 0 => failure
  | bound + 1 => do
    if ← keyword? "ARRAY" then
      sign "<"
      let (element, closed) ← nested bound
      let closes ← if closed then pure false else closing
      return (← brackets ⟨"ARRAY<" ++ element.normal ++ ">", false⟩, closes)
    else return (← brackets (← simple), false)

/-- Reads a type that may stand in another type, and tells whether its last sign closes that one as
well. -/
def inner : TokenParser (DataType × Bool) := do nested (← get).length

/-- Reads a type. -/
def any : TokenParser DataType := do
  let (type, closes) ← inner
  require (¬ closes)
  return type

end DataType

end FlatQuery.Sql
