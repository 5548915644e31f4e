import FlatQuery.Sql.Spelling
import FlatQuery.Text.Decimal

set_option autoImplicit false

/-! # Parsers of tokens

A parser reads tokens from the front of a list, or fails. Along with the tokens goes the number of
levels that queries and terms may still be nested in one another, which bounds the depth of the
trees that are read. -/

namespace FlatQuery.Sql

/-- A parser with the number of levels left to it. -/
abbrev TokenParser (α : Type) := ReaderT Nat (StateT (List Token) Option) α

namespace TokenParser

/-- Reads one level deeper. -/
def deeper {α : Type} (p : TokenParser α) : TokenParser α
  | 0 => failure
  | levels + 1 => p levels

/-! ## Single tokens -/

/-- The next token, which stays. -/
def peek : TokenParser (Option Token) := return (← get).head?

/-- The key of the next token, which stays. -/
def peekKey : TokenParser String := return ((← peek).map Token.key).getD ""

/-- The sign that the next token is, which stays. -/
def peekSign : TokenParser String := return ((← peek).map Token.sign).getD ""

/-- Reads a token. -/
def next : TokenParser Token := do
  match ← get with
  | [] => failure
  | t :: rest =>
    set rest
    return t

/-- Reads a token of a certain kind, if one is next. -/
def token? (p : Token → Bool) : TokenParser Bool := do
  match ← get with
  | [] => return false
  | t :: rest =>
    if p t then
      set rest
      return true
    else return false

/-- Reads a keyword, if it is next. -/
def keyword? (word : String) : TokenParser Bool := token? (·.key = word)

/-- Reads a sign, if it is next. -/
def sign? (text : String) : TokenParser Bool := token? (· = .symbol text)

/-- Goes on where a condition holds. -/
def require (c : Bool) : TokenParser Unit := if c then return else failure

/-- Reads a keyword. -/
def keyword (word : String) : TokenParser Unit := do require (← keyword? word)

/-- Reads a sign. -/
def sign (text : String) : TokenParser Unit := do require (← sign? text)

/-! ## Alternatives -/

/-- Reads with a parser, and reads nothing where it fails. -/
def attempt {α : Type} (p : TokenParser α) : TokenParser (Option α) := (some <$> p) <|> pure none

/-- Reads keywords one after another. -/
def phrase : List String → TokenParser Unit
  | [] => return
  | word :: words => do
    keyword word
    phrase words

/-- Reads keywords one after another, if all of them are next. -/
def phrase? (words : List String) : TokenParser Bool := return (← attempt (phrase words)).isSome

/-- Reads one of several keywords, if one is next. -/
def oneOf? (words : List String) : TokenParser (Option String) := do
  let key ← peekKey
  if words.contains key then
    let _ ← next
    return some key
  else return none

/-- Reads one of several keywords. -/
def oneOf (words : List String) : TokenParser String := do
  match ← oneOf? words with
  | some word => return word
  | none => failure

/-- Reads what follows some keywords, if they are next. -/
def after? {α : Type} (words : List String) (p : TokenParser α) : TokenParser (Option α) := do
  if ← phrase? words then some <$> p else return none

/-- Reads something in parentheses. -/
def parenthesized {α : Type} (p : TokenParser α) : TokenParser α := do
  sign "("
  let a ← p
  sign ")"
  return a

/-! ## Repetitions -/

/-- Reads at most `bound` things, one after another, until there is none. -/
def upTo {α : Type} (bound : Nat) (p : TokenParser (Option α)) : TokenParser (List α) :=
  match bound with
  | 0 => return []
  | bound + 1 => do
    match ← p with
    | none => return []
    | some a => return a :: (← upTo bound p)

/-- Reads things one after another until there is none. Each takes a token at least. -/
def many {α : Type} (p : TokenParser (Option α)) : TokenParser (List α) := do
  upTo ((← get).length + 1) p

/-- Reads things with a sign between them. -/
def separated {α : Type} (mark : String) (p : TokenParser α) : TokenParser (List α) := do
  let first ← p
  let others ← many do if ← sign? mark then some <$> p else return none
  return first :: others

/-- Reads things with commas between them. -/
def commaSeparated {α : Type} (p : TokenParser α) : TokenParser (List α) := separated "," p

/-! ## Names -/

/-- Reads a name: a word or a text in single quotes. -/
def name : TokenParser Name := do
  match ← next with
  | .word text quote => return ⟨text, quote⟩
  | .string text => return ⟨text, some '\''⟩
  | _ => failure

/-- Reads a name of several parts. -/
def dottedName : TokenParser (List Name) := separated "." name

/-- Reads names in parentheses. -/
def nameList : TokenParser (List Name) := parenthesized (commaSeparated name)

/-- Reads names in parentheses, if a parenthesis is next. -/
def nameList? : TokenParser (List Name) := do
  if (← peekSign) = "(" then nameList else return []

/-- Reads an alias, if there is one. Without AS it is none of the reserved words. -/
def alias? (reserved : List String) : TokenParser (Option Name) := do
  let marked ← keyword? "AS"
  match ← peek with
  | some (.word text quote) =>
    if marked ∨ ¬ reserved.contains (← peekKey) then
      let _ ← next
      return some ⟨text, quote⟩
    else return none
  | some (.string text) =>
    let _ ← next
    return some ⟨text, some '\''⟩
  | _ => if marked then failure else return none

/-- Reads the alias of a table, if there is one. -/
def tableAlias? : TokenParser (Option TableAlias) := do
  match ← alias? reservedAfterTable with
  | some name => return some ⟨name, ← nameList?⟩
  | none => return none

/-- Reads a wildcard with the name that qualifies it, if one is next. The name is empty for a
wildcard of its own. -/
def wildcard? : TokenParser (Option (List Name)) := attempt do
  let qualifier ← many (attempt do
    let part ← name
    sign "."
    return part)
  sign "*"
  return qualifier

/-! ## Literals -/

/-- Reads a text in single quotes. -/
def singleQuoted : TokenParser String := do
  match ← next with
  | .string text => return text
  | _ => failure

/-- Reads the text of a literal: in quotes, or a word that is no keyword. -/
def literalText : TokenParser String := do
  match ← next with
  | .string text | .escaped text => return text
  | .word text quote => if quote.isNone ∧ isKeyword text then failure else return text
  | _ => failure

/-- Reads the text of a literal of one character, and of one byte. -/
def literalChar : TokenParser String := do
  let text ← literalText
  require (text.utf8ByteSize = 1)
  return text

/-- Reads the name behind the sign of a placeholder. -/
def placeholderName : TokenParser String := do
  match ← next with
  | .word text _ => return text
  | .number digits false => return digits
  | _ => failure

/-- The words that stand for themselves where a literal is wanted. -/
def bareWords : List String := ["LOCATION", "TYPE", "DATE"]

/-- Reads a literal. -/
def literal : TokenParser Literal := do
  match ← next with
  | .number digits long => return .number digits long
  | .string text => return .spelled (quoted '\'' text)
  | .escaped text => return .spelled (escapedText text)
  | .hex digits => return .spelled ("X'" ++ digits ++ "'")
  | .literal normal => return .spelled normal
  | .placeholder text => return .spelled text
  | .symbol ":" => return .spelled (":" ++ (← placeholderName))
  | .symbol "@" => return .spelled ("@" ++ (← placeholderName))
  | .word text (some '"') => return .spelled (quoted '"' text)
  | .word text none =>
    match keywordForm text with
    | "TRUE" => return .spelled "true"
    | "FALSE" => return .spelled "false"
    | "NULL" => return .spelled "NULL"
    | key => if isKeyword text ∧ ¬ bareWords.contains key then failure else return .spelled text
  | _ => failure

/-- Reads a number, or a place for one. -/
def numberValue : TokenParser Literal := do
  match ← peek with
  | some (.number ..) | some (.placeholder _) | some (.symbol ":") | some (.symbol "@") => literal
  | _ => failure

/-- Reads a natural number of 64 bits. -/
def natural : TokenParser Nat := do
  match ← next with
  | .number digits _ =>
    match Text.readNat? digits.toList with
    | some n => if n < UInt64.size then return n else failure
    | none => failure
  | _ => failure

end TokenParser

end FlatQuery.Sql
