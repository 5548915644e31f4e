import FlatQuery.Sql.Grammar.Query

set_option autoImplicit false

/-! # Parts of commands

Commands are statements that are no queries. The engine runs none of them, so the parsers here only
tell whether one is well formed, and keep nothing of what they read. -/

namespace FlatQuery.Sql

namespace Grammar

open TokenParser

/-! ## Parsers that keep nothing -/

/-- Reads something of which nothing is kept. -/
def skip {α : Type} (p : TokenParser α) : TokenParser Unit := do
  let _ ← p

/-- Reads something of which nothing is kept but that it is there. -/
def found {α : Type} (p : TokenParser α) : TokenParser Bool := do
  let _ ← p
  return true

/-- Reads something of which nothing is kept behind some keywords, if they are next. -/
def skipAfter {α : Type} (words : List String) (p : TokenParser α) : TokenParser Unit :=
  skip (after? words p)

/-- Reads things of which nothing is kept one after another, until there is none. -/
def skipMany (p : TokenParser Bool) : TokenParser Unit := skip (many do
  return if ← p then some () else none)

/-- Reads things with commas between them behind an opening parenthesis, up to the closing one. A
comma may stand in front of that. -/
def skipClosed {α : Type} (p : TokenParser α) : TokenParser Unit := do
  skip p
  skipMany do
    let comma ← sign? ","
    if ← sign? ")" then return false
    else
      require comma
      found p

/-! ## Names and values -/

/-- Reads a word. -/
def word : TokenParser Unit := do
  match ← next with
  | .word .. => return
  | _ => failure

/-- Reads names of several parts with commas between them. -/
def dottedNames : TokenParser Unit := skip (commaSeparated dottedName)

/-- The tokens behind a name of several parts. Where it goes wrong, one token more belongs to it. -/
def afterLooseName : List Token → List Token
  | .word .. :: .symbol "." :: rest => afterLooseName rest
  | .string _ :: .symbol "." :: rest => afterLooseName rest
  | _ :: rest => rest
  | [] => []

/-- Reads a name of several parts, whether it is well formed or not. -/
def looseName : TokenParser Unit := modify afterLooseName

/-- Reads a sign of equality and a word. -/
def assignedWord : TokenParser Unit := do
  sign "="
  word

/-- Reads options with their values behind a keyword, if it is next. -/
def options (key : String) : TokenParser Unit := skipAfter [key] (parenthesized (commaSeparated do
  skip name
  sign "="
  skip literal))

/-! ## Clauses -/

/-- Reads IF EXISTS, if it is next. -/
def ifExists : TokenParser Unit := skip (phrase? ["IF", "EXISTS"])

/-- Reads IF NOT EXISTS, if it is next. -/
def ifNotExists : TokenParser Unit := skip (phrase? ["IF", "NOT", "EXISTS"])

/-- Reads the WHERE condition, if it is next. -/
def conditionOf (g : Grammar) : TokenParser Unit := skipAfter ["WHERE"] g.expr

/-- Reads the terms in parentheses that tell a partition. -/
def partition (g : Grammar) : TokenParser Unit := skip (parenthesized g.exprTexts)

end Grammar

end FlatQuery.Sql
