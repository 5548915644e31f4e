import FlatQuery.Sql.TokenParser

set_option autoImplicit false

/-! # Constructs that contain one another

Terms, queries, the bodies of queries and the entries of FROM lists contain one another. The parser
of each construct is written against parsers for all of them. -/

namespace FlatQuery.Sql

/-- Parsers for the constructs that contain one another. -/
structure Grammar where
  /-- Reads an operand. -/
  operand : TokenParser Term
  /-- Reads a term whose operators bind more tightly than a bound. -/
  term : Nat → TokenParser Term
  /-- Reads a query. -/
  query : TokenParser Query
  /-- Reads the body of a query whose set operators bind more tightly than a bound. -/
  body : Nat → TokenParser Body
  /-- Reads an entry of a FROM list. -/
  factor : TokenParser Factor

namespace Grammar

open TokenParser

/-- Reads nothing. -/
def empty : Grammar := ⟨failure, fun _ => failure, failure, fun _ => failure, failure⟩

/-- Reads a term one level deeper. -/
def expr (g : Grammar) : TokenParser Term := deeper (g.term 0)

/-- Reads a term for its normal form. -/
def exprText (g : Grammar) : TokenParser String := return (← g.expr).normal

/-- Reads terms with commas between them for their normal forms. -/
def exprTexts (g : Grammar) : TokenParser (List String) := commaSeparated g.exprText

/-- Reads a query for its normal form. -/
def queryText (g : Grammar) : TokenParser String := return (← g.query).normal

/-- Reads where rows without a value go, if it is next. -/
def nullsFirst? : TokenParser (Option Bool) := do
  if ← phrase? ["NULLS", "FIRST"] then return some true
  else if ← phrase? ["NULLS", "LAST"] then return some false
  else return none

/-- Reads a term that rows are ordered by. -/
def sortTerm (g : Grammar) : TokenParser SortTerm := do
  let term ← g.expr
  let direction ← oneOf? ["ASC", "DESC"]
  return ⟨term, direction.map (· = "ASC"), ← nullsFirst?⟩

/-- Reads what follows ORDER BY, if it is next. -/
def orderBy (g : Grammar) : TokenParser (List SortTerm) := do
  return (← after? ["ORDER", "BY"] (commaSeparated g.sortTerm)).getD []

/-- Reads what follows ORDER BY, if it is next, for its normal form. -/
def orderByText (g : Grammar) : TokenParser String :=
  return listBehind " ORDER BY " ((← g.orderBy).map SortTerm.normal)

/-- Reads ALL or DISTINCT, if one is next. -/
def distinct? (g : Grammar) : TokenParser (Option Distinct) := do
  let all ← keyword? "ALL"
  if ¬ (← keyword? "DISTINCT") then return none
  else
    require (¬ all)
    if ¬ (← keyword? "ON") then return some .rows
    else
      sign "("
      if ← sign? ")" then return some (.on "")
      else
        let terms ← g.exprTexts
        sign ")"
        return some (.on (commas terms))

end Grammar

end FlatQuery.Sql
