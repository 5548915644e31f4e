import FlatQuery.Bound
import FlatQuery.Catalog
import FlatQuery.Statement

set_option autoImplicit false

/-! # Plans

A plan is a tree of operators. It says which rows a query yields and in which order, and holds no
state of a run. Each operator has a schema for the tuples it yields; the functions that put an
operator on top of a plan bind its names against the schemas below it. -/

namespace FlatQuery

/-- An operator tree. -/
inductive Plan
  /-- A fixed list of tuples. -/
  | values (schema : Schema) (rows : List Tuple)
  /-- The lines of the file at `path`. -/
  | scan (table qualifier : String) (schema : Schema) (path : String)
  /-- The tuples that satisfy a predicate. -/
  | select (child : Plan) (predicate : Predicate)
  /-- The values at some positions, or the tuples as they are. -/
  | project (child : Plan) (positions : Option (List Nat))
  /-- Each left tuple with each right tuple, as far as the predicate holds. -/
  | join (left right : Plan) (predicate : Option Predicate)
  /-- The tuples in ascending order by the values at the positions of `order`, one after the other.
  The keys are those written in the query. -/
  | sort (child : Plan) (keys : List ColumnRef) (order : List Nat)
  /-- The tuples that differ from the one before. -/
  | distinct (child : Plan)
  deriving DecidableEq, Repr, Inhabited

namespace Plan

/-- The schema of the tuples that a plan yields. -/
def schema : Plan → Schema
  | values schema _ => schema
  | scan _ _ schema _ => schema
  | select child _ => child.schema
  | project child none => child.schema
  | project child (some positions) => ⟨positions.filterMap child.schema.column?⟩
  | join left right _ => left.schema ++ right.schema
  | sort child _ _ => child.schema
  | distinct child => child.schema

/-! ## Descriptions -/

/-- One line that describes the outermost operator. -/
def label : Plan → String
  | values _ rows => "Values [" ++ toString rows.length ++ " rows]"
  | scan table qualifier _ _ =>
    if qualifier = table then "TableScan " ++ table else "TableScan " ++ table ++ " AS " ++ qualifier
  | select _ predicate => "Select [" ++ predicate.text ++ "]"
  | project _ none => "Project [*]"
  | p@(project _ (some _)) => "Project [" ++ p.schema.text ++ "]"
  | join _ _ none => "NestedLoopJoin"
  | join _ _ (some predicate) => "NestedLoopJoin [" ++ predicate.text ++ "]"
  | sort child [] _ => "Sort [" ++ child.schema.text ++ "]"
  | sort _ keys@(_ :: _) _ => "Sort [" ++ ", ".intercalate (keys.map ColumnRef.text) ++ "]"
  | distinct _ => "DuplicateElimination"

/-- A line of a description, indented by two blanks for each level. -/
def indented (depth : Nat) (line : String) : String :=
  String.ofList (List.replicate (2 * depth) ' ') ++ line ++ "\n"

/-- The labels of a plan that stands `depth` levels deep, each operator above its children. -/
def explainAt (depth : Nat) (p : Plan) : String :=
  indented depth p.label ++
    match p with
    | values .. => ""
    | scan .. => ""
    | select child _ => child.explainAt (depth + 1)
    | project child _ => child.explainAt (depth + 1)
    | join left right _ => left.explainAt (depth + 1) ++ right.explainAt (depth + 1)
    | sort child _ _ => child.explainAt (depth + 1)
    | distinct child => child.explainAt (depth + 1)

/-- The labels of a plan, one a line. -/
def explain (p : Plan) : String := p.explainAt 0

/-! ## Building plans -/

/-- The rows given, as the rows of one table. -/
def ofRows (table : String) (columns : List String) (rows : List Tuple) : Plan :=
  values (Schema.forTable table columns) rows

/-- The scan of the table that a name stands for. -/
def scanOf (catalog : Catalog) (name : String) : Except Error Plan := do
  let schema ← catalog.schemaFor name
  return scan (catalog.resolve name) name schema (catalog.locationFor name)

/-- The scan of a file that no catalog knows. -/
def scanFile (table : String) (schema : Schema) (path : String) : Plan :=
  scan table table schema path

/-- A selection. -/
def selectBy (child : Plan) (predicate : Expr) : Except Error Plan := do
  let predicate ← Predicate.bind child.schema predicate
  return select child predicate

/-- The positions that an item of a SELECT list stands for. -/
def positionsOfItem (schema : Schema) : SelectItem → Except Error (List Nat)
  | .wildcard => .ok (List.range schema.length)
  | .expr (.column ref) => do
    let index ← schema.indexOf ref.table ref.column
    return [index]
  | .expr e => .error (.unsupported ("expression in SELECT list: " ++ e.text))

/-- A projection to a SELECT list. A list of nothing but one wildcard passes the tuples through. -/
def projectTo (child : Plan) : List SelectItem → Except Error Plan
  | [.wildcard] => .ok (project child none)
  | items => do
    let positions ← items.mapM (positionsOfItem child.schema)
    return project child (some positions.flatten)

/-- A join, with a predicate on the joined tuples or without one. -/
def joinOn (left right : Plan) (predicate : Option Expr) : Except Error Plan := do
  let schema ← left.schema.join right.schema
  match predicate with
  | none => return join left right none
  | some e =>
    let predicate ← Predicate.bind schema e
    return join left right (some predicate)

/-- The positions of a list without those that stand there before. -/
def firstOccurrences (positions : List Nat) : List Nat :=
  positions.foldl (fun seen i => if i ∈ seen then seen else seen ++ [i]) []

/-- A sort by the given keys, where the other columns break ties in the order of the schema. -/
def sortBy (child : Plan) (keys : List ColumnRef) : Except Error Plan := do
  let positions ← keys.mapM fun key => child.schema.indexOf key.table key.column
  return sort child keys (firstOccurrences (positions ++ List.range child.schema.length))

/-- A sort by all columns in the order of the schema. -/
def sortAll (child : Plan) : Plan :=
  sort child [] (List.range child.schema.length)

end Plan

end FlatQuery
