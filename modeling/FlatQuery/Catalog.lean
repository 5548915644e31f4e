import FlatQuery.FileStore
import FlatQuery.Schema
import FlatQuery.Text.Blank

set_option autoImplicit false

/-! # The catalog

The catalog maps table names to schemas and data files, and aliases to table names. A name is
resolved by one look at the aliases; an alias is never followed further. A schema asked for by some
name carries that name as its qualifier. -/

namespace FlatQuery

/-- A registered table. -/
structure TableEntry where
  /-- The columns, qualified by the name the table is registered under. -/
  schema : Schema
  /-- The data file, where it is not the one named like the table in the data directory. -/
  location : Option String
  deriving DecidableEq, Repr

/-- The registered tables and aliases. -/
structure Catalog where
  dataDir : String
  tables : List (String × TableEntry)
  /-- The table name that each alias stands for. -/
  aliases : List (String × String)
  deriving DecidableEq, Repr

namespace Catalog

/-- The catalog without tables. -/
def empty (dataDir : String) : Catalog := ⟨dataDir, [], []⟩

/-! ## Looking up names -/

/-- The table name that a name stands for: the target of the alias, or else the name itself. -/
def resolve (c : Catalog) (name : String) : String := (c.aliases.lookup name).getD name

/-- The table that a name stands for. -/
def table? (c : Catalog) (name : String) : Option TableEntry := c.tables.lookup (c.resolve name)

/-- Whether a name stands for a registered table. -/
def hasTable (c : Catalog) (name : String) : Bool := (c.table? name).isSome

/-- The names of the registered tables in ascending order. -/
def tableNames (c : Catalog) : List String := (c.tables.map Prod.fst).mergeSort

/-- The schema of the table that a name stands for, qualified by the name as written. -/
def schemaFor (c : Catalog) (name : String) : Except Error Schema :=
  match c.table? name with
  | some entry => .ok (entry.schema.withTable name)
  | none => .error (.tableNotFound (c.resolve name))

/-- The data file of the table that a name stands for, whether or not there is such a table. -/
def locationFor (c : Catalog) (name : String) : String :=
  match (c.table? name).bind TableEntry.location with
  | some location => location
  | none => FilePath.join c.dataDir (c.resolve name)

/-! ## Registering -/

/-- Registers a table. The name must be new and the columns distinct. -/
def register (c : Catalog) (name : String) (columns : List String) (location : Option String) :
    Except Error Catalog :=
  if (c.tables.lookup name).isSome then
    .error (.invalidSchema ("Table already exists: " ++ name))
  else do
    let schema ← Schema.ofColumns (columns.map (Column.mk name))
    return { c with tables := c.tables ++ [(name, ⟨schema, location⟩)] }

/-- The association list with the value of one key set: in its place, or at the end if it is new. -/
def assign {β : Type} (key : String) (value : β) : List (String × β) → List (String × β)
  | [] => [(key, value)]
  | (k, v) :: rest => if k = key then (key, value) :: rest else (k, v) :: assign key value rest

/-- Lets an alias stand for a table name from now on. -/
def registerAlias (c : Catalog) («alias» name : String) : Catalog :=
  { c with aliases := assign «alias» name c.aliases }

theorem lookup_assign {β : Type} (key k : String) (value : β) (entries : List (String × β)) :
    (assign key value entries).lookup k = if k = key then some value else entries.lookup k := by
  induction entries with
  | nil =>
    by_cases h : k = key
    · simp [assign, h]
    · simp [assign, List.lookup_cons, beq_false_of_ne h, h]
  | cons entry rest ih =>
    obtain ⟨k', v⟩ := entry
    rw [assign]
    split
    · next h =>
      subst h
      by_cases h' : k = k'
      · simp [h']
      · simp [List.lookup_cons, beq_false_of_ne h', h']
    · next h =>
      by_cases h' : k = k'
      · subst h'
        simp [h]
      · simp [List.lookup_cons, beq_false_of_ne h', ih]

/-! ## Schema descriptions

A description has one table per line: its name and its columns, separated by blank space. Blank
lines are skipped but counted. -/

/-- Registers the tables of the given lines, where `lineNo` lines precede them and `count` tables
are registered already. Stops at the first bad line and keeps the tables before it. -/
def loadLines (c : Catalog) (lineNo count : Nat) :
    List (Except IoFault String) → Except Error Nat × Catalog
  | [] => (.ok count, c)
  | .error fault :: _ => (.error (.invalidSchema fault.message), c)
  | .ok line :: rest =>
    match (Text.words line.toList).map String.ofList with
    | [] => c.loadLines (lineNo + 1) count rest
    | [table] =>
      (.error (.invalidSchema
        ("line " ++ toString (lineNo + 1) ++ ": table " ++ table ++ " has no columns")), c)
    | table :: columns =>
      match c.register table columns none with
      | .error e => (.error e, c)
      | .ok c' => c'.loadLines (lineNo + 1) (count + 1) rest

/-- Registers the tables of a schema description and yields their number. -/
def load (c : Catalog) (source : LineSource) : Except Error Nat × Catalog :=
  c.loadLines 0 0 source.toList

/-- Registers the tables of a schema file. -/
def loadFile (c : Catalog) (fs : FileStore) (path : String) : Except Error Nat × Catalog :=
  match fs.openFile path with
  | .ok source => c.load source
  | .error fault => (.error (.io path fault.message), c)

end Catalog

end FlatQuery
