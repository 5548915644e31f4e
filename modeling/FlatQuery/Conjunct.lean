import FlatQuery.Expr
import FlatQuery.Schema

set_option autoImplicit false

/-! # Conjuncts

A condition is taken apart into its conjuncts, and each conjunct is placed by the tables it refers
to: on the scan of its only table, or on the join that brings in its last table. A conjunct without
columns goes to the first table. -/

namespace FlatQuery

namespace Expr

/-- Whether an expression is an AND under any parentheses. -/
def isConjunction : Expr → Bool
  | binary .and _ _ => true
  | nested inner => inner.isConjunction
  | _ => false

/-- The conjuncts of a condition from left to right, also those of conjunctions in parentheses. -/
def conjuncts : Expr → List Expr
  | binary .and left right => left.conjuncts ++ right.conjuncts
  | e@(nested inner) => if inner.isConjunction then inner.conjuncts else [e]
  | e => [e]

end Expr

/-- An entry of a FROM list with the schema that its qualifier gives its columns. -/
structure FromTable where
  qualifier : String
  schema : Schema
  deriving DecidableEq, Repr

/-- The position of the FROM entry that a column reference belongs to. A qualified column belongs to
the entry with that qualifier, which must have it; any other to the first entry that has it. -/
def ColumnRef.position («from» : List FromTable) (c : ColumnRef) : Except Error Nat :=
  match c.table with
  | some qualifier =>
    match «from».zipIdx.find? (·.1.qualifier == qualifier) with
    | some (table, position) => do
      let _ ← table.schema.indexOf (some qualifier) c.column
      return position
    | none => .error (.tableNotFound qualifier)
  | none =>
    match «from».findIdx? (fun table => !(table.schema.positionsOf none c.column).isEmpty) with
    | some position => .ok position
    | none => .error (.columnNotFound none c.column)

/-- The positions of the FROM entries that an expression refers to, ascending. -/
def Expr.referencedTables («from» : List FromTable) (e : Expr) : Except Error (List Nat) := do
  let positions ← e.columns.mapM (ColumnRef.position «from»)
  return (List.range «from».length).filter (· ∈ positions)

/-- Where a conjunct is evaluated. -/
inductive Placement
  /-- On the scan at this FROM position. -/
  | selection (position : Nat)
  /-- On the join that brings in the entry at `last`, the greatest of the positions it needs. -/
  | join (first last : Nat)
  deriving DecidableEq, Repr

/-- The placement of a conjunct that refers to these positions, given in ascending order. -/
def Placement.ofPositions : List Nat → Placement
  | [] => selection 0
  | [only] => selection only
  | first :: second :: more => join first ((second :: more).getLast (by simp))

/-- Where a conjunct belongs. -/
def Expr.placement («from» : List FromTable) (e : Expr) : Except Error Placement := do
  let positions ← e.referencedTables «from»
  return Placement.ofPositions positions

end FlatQuery
