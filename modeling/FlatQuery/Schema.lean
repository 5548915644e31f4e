import FlatQuery.Error

set_option autoImplicit false

/-! # Schemas

A schema is the list of columns of a relation; the position of a column is the position of its value
in every tuple. A column is named by its table (or the alias that stands for it) and its own name.
`Schema.indexOf` is the one rule by which names become positions: a qualified name must match
exactly one column, an unqualified one stands for the first column so named. -/

namespace FlatQuery

/-- A column of a relation. -/
structure Column where
  table : String
  name : String
  deriving DecidableEq, Repr, Inhabited

namespace Column

/-- The qualified name. -/
def text (c : Column) : String := c.table ++ "." ++ c.name

/-- The same column under another qualifier. -/
def withTable (c : Column) (table : String) : Column := { c with table }

/-- Whether a column is the one that a reference names; a reference without a qualifier compares the
name alone. -/
def answersTo (c : Column) (table : Option String) (name : String) : Bool :=
  c.name == name && (match table with | none => true | some t => t == c.table)

end Column

/-- An ordered list of columns. -/
structure Schema where
  columns : List Column
  deriving DecidableEq, Repr, Inhabited

namespace Schema

/-- The number of columns. -/
def length (s : Schema) : Nat := s.columns.length

/-- The qualified names, with commas between them. -/
def text (s : Schema) : String := ", ".intercalate (s.columns.map Column.text)

/-- The schema of a base table. -/
def forTable (table : String) (names : List String) : Schema := ⟨names.map (Column.mk table)⟩

/-- The first column that repeats one before it, where `seen` are the columns already passed. -/
def firstRepeat? (seen : List Column) : List Column → Option Column
  | [] => none
  | c :: cs => if c ∈ seen then some c else firstRepeat? (c :: seen) cs

/-- The schema of the given columns, refused when a column stands twice. -/
def ofColumns (columns : List Column) : Except Error Schema :=
  match firstRepeat? [] columns with
  | some c => .error (.duplicateColumn c.table c.name)
  | none => .ok ⟨columns⟩

/-- The column at a position. -/
def column? (s : Schema) (i : Nat) : Option Column := s.columns[i]?

/-- The positions of the columns that a reference matches, in order. -/
def positionsOf (s : Schema) (table : Option String) (name : String) : List Nat :=
  (s.columns.zipIdx.filter fun p => p.1.answersTo table name).map Prod.snd

/-- The position that a column reference stands for. -/
def indexOf (s : Schema) (table : Option String) (name : String) : Except Error Nat :=
  match s.positionsOf table name, table with
  | [], _ => .error (.columnNotFound table name)
  | _ :: _ :: _, some t => .error (.ambiguousColumn t name)
  | i :: _, _ => .ok i

/-- Whether some column carries the qualifier. -/
def hasTable (s : Schema) (table : String) : Bool := s.columns.any (·.table == table)

/-- The distinct qualifiers in the order of their first columns. -/
def tables (s : Schema) : List String :=
  s.columns.foldl (fun ts c => if c.table ∈ ts then ts else ts ++ [c.table]) []

/-- The same columns under one qualifier. -/
def withTable (s : Schema) (table : String) : Schema := ⟨s.columns.map (·.withTable table)⟩

/-- The columns of one schema followed by those of another. -/
def append (s t : Schema) : Schema := ⟨s.columns ++ t.columns⟩

instance : Append Schema := ⟨append⟩

/-- The schema of a join: both schemas in a row, refused when a column would stand twice. -/
def join (s t : Schema) : Except Error Schema := ofColumns (s ++ t).columns

/-! ## Distinct columns -/

theorem firstRepeat?_eq_none_iff (seen cs : List Column) :
    firstRepeat? seen cs = none ↔ cs.Nodup ∧ ∀ c ∈ cs, c ∉ seen := by
  induction cs generalizing seen with
  | nil => simp [firstRepeat?]
  | cons c cs ih =>
    rw [firstRepeat?]
    split
    · next h => simp [h]
    · next h =>
      rw [ih, List.nodup_cons]
      simp only [List.mem_cons, not_or, forall_eq_or_imp]
      constructor
      · rintro ⟨hnodup, hseen⟩
        exact ⟨⟨fun hc => (hseen c hc).1 rfl, hnodup⟩, h, fun d hd => (hseen d hd).2⟩
      · rintro ⟨⟨hc, hnodup⟩, _, hseen⟩
        exact ⟨hnodup, fun d hd => ⟨fun hdc => hc (hdc ▸ hd), hseen d hd⟩⟩

/-- A schema is accepted exactly when its columns are pairwise distinct. -/
theorem ofColumns_eq_ok_iff {columns : List Column} {s : Schema} :
    ofColumns columns = .ok s ↔ columns.Nodup ∧ s = ⟨columns⟩ := by
  have h := firstRepeat?_eq_none_iff [] columns
  simp only [List.not_mem_nil, not_false_eq_true, implies_true, and_true] at h
  rw [ofColumns]
  split
  · next c hc => simp [← h, hc]
  · next hc => simp [← h, hc, eq_comm]

end Schema

end FlatQuery
