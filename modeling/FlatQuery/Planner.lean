import FlatQuery.Conjunct
import FlatQuery.Plan

set_option autoImplicit false

/-! # Planning

A SELECT block becomes a tree that is, from the top: the removal of repeated rows, the sort, the
projection, and joins nested to the left over the tables in the order written. Each conjunct of the
conditions stands as low as it can: on a scan if it needs one table only, and otherwise on the join
that brings in the last table it needs. Aliases are registered in the catalog while the FROM list is
read and stay there even if planning fails later. -/

namespace FlatQuery

namespace Planner

/-- The tables of a FROM list. -/
def tablesOf (items : List FromItem) : Except Error (List TableRef) :=
  items.mapM fun
    | .table ref => .ok ref
    | .subquery .. => .error (.unsupported "subquery in FROM")

/-- Registers the aliases of the tables from left to right and looks up their schemas; `before` are
the entries already read. -/
def readTables (catalog : Catalog) (before : List FromTable) :
    List TableRef → Except Error (List FromTable) × Catalog
  | [] => (.ok before, catalog)
  | table :: rest =>
    if before.any (·.qualifier == table.qualifier) then
      (.error (.duplicateTable table.qualifier), catalog)
    else
      let catalog := match table.alias with
        | some a => catalog.registerAlias a table.name
        | none => catalog
      match catalog.schemaFor table.qualifier with
      | .error e => (.error e, catalog)
      | .ok schema => readTables catalog (before ++ [⟨table.qualifier, schema⟩]) rest

/-- A conjunct with its placement. -/
structure Placed where
  conjunct : Expr
  placement : Placement
  deriving DecidableEq, Repr

/-- The placements of all conjuncts. -/
def placeAll («from» : List FromTable) (conjuncts : List Expr) : Except Error (List Placed) :=
  conjuncts.mapM fun e => do
    let placement ← e.placement «from»
    return ⟨e, placement⟩

/-- The conjuncts that belong on the scan at a position. -/
def selectionsAt (placed : List Placed) (position : Nat) : List Expr :=
  (placed.filter (·.placement = .selection position)).map Placed.conjunct

/-- A conjunct that waits for the table at a position to be joined. -/
structure Pending where
  conjunct : Expr
  last : Nat
  deriving DecidableEq, Repr

/-- The conjuncts that belong on joins. -/
def pendingOf (placed : List Placed) : List Pending :=
  placed.filterMap fun p =>
    match p.placement with
    | .join _ last => some ⟨p.conjunct, last⟩
    | .selection _ => none

/-- The scan of one table with its selection. -/
def input (catalog : Catalog) (placed : List Placed) (position : Nat) (table : FromTable) :
    Except Error Plan := do
  let scan ← Plan.scanOf catalog table.qualifier
  match Expr.conjunction (selectionsAt placed position) with
  | none => return scan
  | some predicate => scan.selectBy predicate

/-- The scans of all tables, from the given position on. -/
def inputs (catalog : Catalog) (placed : List Placed) (position : Nat) :
    List FromTable → Except Error (List Plan)
  | [] => .ok []
  | table :: rest => do
    let first ← input catalog placed position table
    let others ← inputs catalog placed (position + 1) rest
    return first :: others

/-- Joins the further inputs to a tree, each with the conjuncts that can be evaluated from then on.
The next input is number `position`. Yields the tree and the conjuncts that still wait. -/
def joinAll (root : Plan) (position : Nat) (pending : List Pending) :
    List Plan → Except Error (Plan × List Pending)
  | [] => .ok (root, pending)
  | right :: rest => do
    let (ready, waiting) := pending.partition (·.last ≤ position)
    let root ← root.joinOn right (Expr.conjunction (ready.map Pending.conjunct))
    joinAll root (position + 1) waiting rest

/-- The join tree over the inputs. -/
def joinTree (pending : List Pending) : List Plan → Except Error Plan
  | [] => .error (.unsupported "SELECT without FROM")
  | first :: rest => do
    let (root, waiting) ← joinAll first 1 pending rest
    match waiting with
    | [] => return root
    | p :: _ => throw (.unsatisfiablePredicate p.conjunct.text)

/-- Puts the projection, the sort and the removal of repeated rows on top of a join tree. -/
def finish (select : Select) (root : Plan) : Except Error Plan := do
  let projected ← root.projectTo select.items
  let sorted ← if select.orderBy.isEmpty then pure projected else projected.sortBy select.orderBy
  if select.distinct then
    -- a sort by keys breaks ties on every other column, so it brings equal rows together as well
    return .distinct (if select.orderBy.isEmpty then sorted.sortAll else sorted)
  else
    return sorted

/-- The plan of a SELECT block whose FROM list has been read. -/
def assemble (catalog : Catalog) (select : Select) («from» : List FromTable) :
    Except Error Plan := do
  let placed ← placeAll «from» (select.conditions.flatMap Expr.conjuncts)
  let scans ← inputs catalog placed 0 «from»
  let root ← joinTree (pendingOf placed) scans
  finish select root

/-- The plan of a SELECT block, and the catalog with its aliases. -/
def planSelect (catalog : Catalog) (select : Select) : Except Error Plan × Catalog :=
  match tablesOf select.fromItems with
  | .error e => (.error e, catalog)
  | .ok tables =>
    match readTables catalog [] tables with
    | (.error e, catalog) => (.error e, catalog)
    | (.ok «from», catalog) => (assemble catalog select «from», catalog)

end Planner

/-- The plan of a statement, and the catalog with the aliases that the statement introduces. -/
def Catalog.plan (catalog : Catalog) : Statement → Except Error Plan × Catalog
  | .select block => Planner.planSelect catalog block
  | .setOperation op _ _ => (.error (.unsupported op.keyword), catalog)

end FlatQuery
