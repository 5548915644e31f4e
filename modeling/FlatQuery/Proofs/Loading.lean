import FlatQuery.Proofs.FileLines
import FlatQuery.Proofs.Registration

set_option autoImplicit false

/-! # Loading schema descriptions

A description declares one table a line, and blank lines declare nothing. What is loaded of it is
told by two lists: the lines before the first one that offends, and the tables that they declare.
A line is accepted under the catalog that the lines before it leave (`Accepts`), or offends against
it (`Offends`), and not both. The main result is `load_tables`. -/

namespace FlatQuery

namespace Text

/-- A text has no words exactly when it is blank. -/
theorem words_eq_nil_iff {cs : List Char} : words cs = [] ↔ OnlyBlank cs := by
  rw [words, List.filter_eq_nil_iff]
  induction cs with
  | nil => simp [splitWhere, OnlyBlank]
  | cons c cs ih =>
    have hcons : OnlyBlank (c :: cs) ↔ isBlank c = true ∧ OnlyBlank cs := List.forall_mem_cons
    rw [hcons, splitWhere]
    by_cases hc : isBlank c = true
    · rw [if_pos hc, List.forall_mem_cons, ih]
      simp [hc]
    · rw [if_neg hc]
      split <;> simp [hc]

end Text

/-- A column that stands in a list again is the first that does so. -/
theorem exists_repeat {α : Type} [DecidableEq α] {xs : List α} (h : ¬ xs.Nodup) :
    ∃ before x after, xs = before ++ x :: after ∧ before.Nodup ∧ x ∈ before := by
  induction xs using List.reverseRecOn with
  | nil => exact absurd List.nodup_nil h
  | append_singleton xs x ih =>
    by_cases hxs : xs.Nodup
    · refine ⟨xs, x, [], rfl, hxs, ?_⟩
      by_contra hx
      exact h (List.nodup_append_comm.1 (List.nodup_cons.2 ⟨hx, hxs⟩))
    · obtain ⟨before, y, after, rfl, hbefore, hy⟩ := ih hxs
      exact ⟨before, y, after ++ [x], by rw [List.append_assoc, List.cons_append], hbefore, hy⟩

theorem Schema.firstRepeat?_of_repeat {seen before after : List Column} {c : Column}
    (hbefore : before.Nodup) (hseen : ∀ b ∈ before, b ∉ seen) (hc : c ∈ before ∨ c ∈ seen) :
    firstRepeat? seen (before ++ c :: after) = some c := by
  induction before generalizing seen with
  | nil =>
    have hc : c ∈ seen := hc.resolve_left List.not_mem_nil
    rw [List.nil_append, firstRepeat?, if_pos hc]
  | cons b before ih =>
    obtain ⟨hb, hbefore⟩ := List.nodup_cons.1 hbefore
    rw [List.cons_append, firstRepeat?, if_neg (hseen b (List.mem_cons_self ..))]
    refine ih hbefore ?_ ?_
    · intro d hd hmem
      rcases List.mem_cons.1 hmem with rfl | hmem
      · exact hb hd
      · exact hseen d (List.mem_cons_of_mem _ hd) hmem
    · rcases hc with hc | hc
      · rcases List.mem_cons.1 hc with rfl | hc
        · exact .inr (List.mem_cons_self ..)
        · exact .inl hc
      · exact .inr (List.mem_cons_of_mem _ hc)

open Text

namespace Catalog

/-! ## Declarations -/

/-- The table that a line declares, with its columns as written. A blank line declares nothing. -/
def declaration? (text : String) : Option (String × List String) :=
  match (words text.toList).map String.ofList with
  | [] => none
  | table :: columns => some (table, columns)

/-- The tables that some lines declare. -/
def declared (texts : List String) : List (String × List String) := texts.filterMap declaration?

/-- The catalog with some declared tables added: each has its columns in the order written, under
its own name, and is stored in the data directory. -/
def withTables (c : Catalog) (tables : List (String × List String)) : Catalog :=
  { c with
    tables := c.tables ++ tables.map fun d => (d.1, ⟨Schema.forTable d.1 d.2, none⟩) }

/-- Whether some declared tables can be added one after the other: no name is registered already or
stands twice, and each table has columns, which are distinct. -/
structure Loadable (c : Catalog) (tables : List (String × List String)) : Prop where
  fresh : ∀ d ∈ tables, c.tables.lookup d.1 = none
  nodup : (tables.map Prod.fst).Nodup
  columns : ∀ d ∈ tables, d.2 ≠ [] ∧ d.2.Nodup

/-- Whether a line that declares nothing, or a table that can be added. -/
def Accepts (c : Catalog) (text : String) : Prop :=
  ∀ d ∈ declaration? text, c.tables.lookup d.1 = none ∧ d.2 ≠ [] ∧ d.2.Nodup

/-- What a line of a description, the one with number `k`, is refused for. -/
inductive Offends (c : Catalog) (k : Nat) (line : List UInt8) : Error → Prop
  /-- The line is no text. -/
  | notText (hline : ∀ text, bytes text ≠ line) :
    Offends c k line (.invalidSchema "stream did not contain valid UTF-8")
  /-- The table has no columns. -/
  | bare {text table : String} (hline : bytes text = line)
    (hdeclares : declaration? text = some (table, [])) :
    Offends c k line (.invalidSchema
      ("line " ++ toString k ++ ": table " ++ table ++ " has no columns"))
  /-- The table is registered already. -/
  | registered {text table : String} {columns : List String} (hline : bytes text = line)
    (hdeclares : declaration? text = some (table, columns)) (hcolumns : columns ≠ [])
    (hregistered : c.tables.lookup table ≠ none) :
    Offends c k line (.invalidSchema ("Table already exists: " ++ table))
  /-- One of the columns is the first that stands there again. -/
  | repeated {text table column : String} {before after : List String}
    (hline : bytes text = line)
    (hdeclares : declaration? text = some (table, before ++ column :: after))
    (hfresh : c.tables.lookup table = none) (hbefore : before.Nodup) (hrepeats : column ∈ before) :
    Offends c k line (.duplicateColumn table column)

variable {c : Catalog} {texts : List String} {text : String} {line : List UInt8}
  {tables : List (String × List String)}

theorem declaration?_eq_none_iff : declaration? text = none ↔ OnlyBlank text.toList := by
  rw [← words_eq_nil_iff, ← List.map_eq_nil_iff (f := String.ofList), declaration?]
  split <;> simp_all

/-- As many tables are declared as there are lines that are not blank. -/
theorem length_declared (texts : List String) :
    (declared texts).length = texts.countP fun text => ¬ OnlyBlank text.toList := by
  rw [declared, List.length_filterMap_eq_countP]
  refine List.countP_congr fun text _ => ?_
  rw [decide_eq_true_eq, ← declaration?_eq_none_iff, Option.isSome_iff_ne_none]

theorem declared_concat (texts : List String) (text : String) :
    declared (texts ++ [text]) = declared texts ++ (declaration? text).toList := by
  have hlast : [text].filterMap declaration? = (declaration? text).toList := by
    cases h : declaration? text <;> simp [h]
  rw [declared, List.filterMap_append, hlast, declared]

theorem withTables_nil (c : Catalog) : c.withTables [] = c := by
  simp [withTables]

theorem withTables_append (c : Catalog) (tables more : List (String × List String)) :
    (c.withTables tables).withTables more = c.withTables (tables ++ more) := by
  simp [withTables]

/-- A name is free after some tables have been added if it was free before and is none of theirs. -/
theorem lookup_withTables_eq_none_iff {name : String} :
    (c.withTables tables).tables.lookup name = none ↔
      c.tables.lookup name = none ∧ name ∉ tables.map Prod.fst := by
  rw [withTables, List.lookup_append, Option.or_eq_none_iff]
  refine and_congr_right fun _ => ?_
  rw [List.lookup_eq_none_iff, List.forall_mem_map]
  simp only [bne_iff_ne, List.mem_map, not_exists, not_and]
  exact ⟨fun h d hd heq => h d hd heq.symm, fun h d hd heq => h d hd heq.symm⟩

theorem loadable_nil (c : Catalog) : c.Loadable [] := ⟨by simp, List.nodup_nil, by simp⟩

theorem loadable_concat {d : String × List String} : c.Loadable (tables ++ [d]) ↔
    c.Loadable tables ∧ (c.withTables tables).tables.lookup d.1 = none ∧ d.2 ≠ [] ∧ d.2.Nodup := by
  have hnames : ((tables ++ [d]).map Prod.fst).Nodup ↔
      d.1 ∉ tables.map Prod.fst ∧ (tables.map Prod.fst).Nodup := by
    rw [List.map_append, List.map_singleton, List.nodup_append_comm, List.singleton_append,
      List.nodup_cons]
  rw [lookup_withTables_eq_none_iff]
  constructor
  · rintro ⟨hfresh, hnodup, hcolumns⟩
    obtain ⟨hfresh, hname⟩ := List.forall_mem_append.1 hfresh
    obtain ⟨hcolumns, hd⟩ := List.forall_mem_append.1 hcolumns
    obtain ⟨hnew, hnodup⟩ := hnames.1 hnodup
    exact ⟨⟨hfresh, hnodup, hcolumns⟩, ⟨hname d (List.mem_singleton_self d), hnew⟩,
      hd d (List.mem_singleton_self d)⟩
  · rintro ⟨⟨hfresh, hnodup, hcolumns⟩, ⟨hname, hnew⟩, hd⟩
    refine ⟨List.forall_mem_append.2 ⟨hfresh, ?_⟩, hnames.2 ⟨hnew, hnodup⟩,
      List.forall_mem_append.2 ⟨hcolumns, ?_⟩⟩
    · rintro d' hd'
      rwa [List.mem_singleton.1 hd']
    · rintro d' hd'
      rwa [List.mem_singleton.1 hd']

/-- Lines can be loaded if the last of them is accepted under what the others leave. -/
theorem loadable_declared_concat : c.Loadable (declared (texts ++ [text])) ↔
    c.Loadable (declared texts) ∧ (c.withTables (declared texts)).Accepts text := by
  rw [declared_concat, Accepts]
  cases hd : declaration? text with
  | none => simp
  | some d => simp only [Option.toList_some, loadable_concat, Option.mem_some_iff, forall_eq']

/-! ## Lines one by one -/

theorem declaration?_eq_some_iff {d : String × List String} :
    declaration? text = some d ↔ (words text.toList).map String.ofList = d.1 :: d.2 := by
  rw [declaration?]
  cases (words text.toList).map String.ofList with
  | nil => simp
  | cons table columns => simp [Prod.ext_iff]

theorem nodup_columns {table : String} {columns : List String} :
    (columns.map (Column.mk table)).Nodup ↔ columns.Nodup :=
  List.nodup_map_iff fun _ _ h => (Column.mk.inj h).2

/-- A table is added if its name is free and its columns are distinct. -/
theorem register_eq_withTables {d : String × List String} (hfresh : c.tables.lookup d.1 = none)
    (hcolumns : d.2.Nodup) : c.register d.1 d.2 none = .ok (c.withTables [d]) := by
  rw [register, hfresh, Schema.ofColumns_eq_ok_iff.2 ⟨nodup_columns.2 hcolumns, rfl⟩]
  rfl

/-- A line that is accepted is counted, and what it declares is added. -/
theorem loadLines_accepted (h : c.Accepts text) (lineNo count : Nat)
    (rest : List (Except IoFault String)) :
    c.loadLines lineNo count (.ok text :: rest) =
      (c.withTables (declaration? text).toList).loadLines (lineNo + 1)
        (count + (declaration? text).toList.length) rest := by
  rw [loadLines]
  cases hd : declaration? text with
  | none =>
    have hwords : (words text.toList).map String.ofList = [] := by
      rw [List.map_eq_nil_iff, words_eq_nil_iff, ← declaration?_eq_none_iff, hd]
    rw [hwords, Option.toList_none, withTables_nil]
    rfl
  | some d =>
    obtain ⟨table, columns⟩ := d
    obtain ⟨hfresh, hne, hnodup⟩ := h _ hd
    rw [declaration?_eq_some_iff.1 hd]
    cases columns with
    | nil => exact absurd rfl hne
    | cons column columns =>
      have hregister := register_eq_withTables hfresh hnodup
      simp only [hregister]
      rfl

/-- A line that offends ends the loading with its error and changes nothing. -/
theorem loadLines_offending {lineNo : Nat} {e : Error} (h : c.Offends (lineNo + 1) line e)
    (count : Nat) (rest : List (Except IoFault String)) :
    c.loadLines lineNo count (decodeLine line :: rest) = (.error e, c) := by
  cases h with
  | notText hline =>
    rw [decodeLine_eq_error_iff.2 ⟨rfl, hline⟩]
    rfl
  | bare hline hdeclares =>
    rw [decodeLine_eq_ok_iff.2 hline, loadLines, declaration?_eq_some_iff.1 hdeclares]
  | @registered text table columns hline hdeclares hcolumns hregistered =>
    rw [decodeLine_eq_ok_iff.2 hline, loadLines, declaration?_eq_some_iff.1 hdeclares]
    cases columns with
    | nil => exact absurd rfl hcolumns
    | cons column columns =>
      have hregister : c.register table (column :: columns) none =
          .error (.invalidSchema ("Table already exists: " ++ table)) := by
        rw [register, if_pos (Option.isSome_iff_ne_none.2 hregistered)]
      simp only [hregister]
  | @repeated text table column before after hline hdeclares hfresh hbefore hrepeats =>
    have hrepeat : Schema.firstRepeat? []
        ((before ++ column :: after).map (Column.mk table)) = some ⟨table, column⟩ := by
      rw [List.map_append, List.map_cons]
      exact Schema.firstRepeat?_of_repeat (nodup_columns.2 hbefore) (by simp)
        (.inl (List.mem_map_of_mem hrepeats))
    have hregister : c.register table (before ++ column :: after) none =
        .error (.duplicateColumn table column) := by
      rw [register, hfresh, Schema.ofColumns, hrepeat]
      rfl
    rw [decodeLine_eq_ok_iff.2 hline, loadLines, declaration?_eq_some_iff.1 hdeclares]
    cases hcolumns : before ++ column :: after with
    | nil => simp at hcolumns
    | cons first columns =>
      rw [hcolumns] at hregister
      simp only [hregister]

/-- Each line is accepted or offends. -/
theorem accepts_or_offends (c : Catalog) (k : Nat) (line : List UInt8) :
    (∃ text, bytes text = line ∧ c.Accepts text) ∨ ∃ e, c.Offends k line e := by
  by_cases htext : ∃ text, bytes text = line
  · obtain ⟨text, hline⟩ := htext
    cases hd : declaration? text with
    | none => exact .inl ⟨text, hline, by simp [Accepts, hd]⟩
    | some d =>
      obtain ⟨table, columns⟩ := d
      by_cases hne : columns = []
      · subst hne
        exact .inr ⟨_, .bare hline hd⟩
      by_cases hfresh : c.tables.lookup table = none
      · by_cases hnodup : columns.Nodup
        · refine .inl ⟨text, hline, ?_⟩
          rintro d' hd'
          obtain rfl := Option.some.inj (hd.symm.trans hd')
          exact ⟨hfresh, hne, hnodup⟩
        · obtain ⟨before, column, after, rfl, hbefore, hrepeats⟩ := exists_repeat hnodup
          exact .inr ⟨_, .repeated hline hd hfresh hbefore hrepeats⟩
      · exact .inr ⟨_, .registered hline hd hne hfresh⟩
  · exact .inr ⟨_, .notText (not_exists.1 htext)⟩

/-! ## Whole descriptions -/

/-- Lines that can be loaded are counted, and what they declare is added. -/
theorem loadLines_loadable (h : c.Loadable (declared texts)) (lineNo count : Nat)
    (rest : List (Except IoFault String)) :
    c.loadLines lineNo count (texts.map .ok ++ rest) =
      (c.withTables (declared texts)).loadLines (lineNo + texts.length)
        (count + (declared texts).length) rest := by
  induction texts using List.reverseRecOn generalizing rest with
  | nil =>
    rw [declared, List.filterMap_nil, withTables_nil]
    rfl
  | append_singleton texts text ih =>
    obtain ⟨htexts, htext⟩ := loadable_declared_concat.1 h
    rw [List.map_append, List.append_assoc, ih htexts, List.map_singleton, List.singleton_append,
      loadLines_accepted htext, withTables_append, declared_concat, List.length_append,
      List.length_append, List.length_singleton, Nat.add_assoc, Nat.add_assoc]

/-- A description can be loaded to its end or has a first line that offends. -/
theorem loadable_or_offends (c : Catalog) (lines : List (List UInt8)) :
    (∃ texts, lines = texts.map bytes ∧ c.Loadable (declared texts)) ∨
      ∃ texts line rest e, lines = texts.map bytes ++ line :: rest ∧
        c.Loadable (declared texts) ∧
        (c.withTables (declared texts)).Offends (texts.length + 1) line e := by
  induction lines using List.reverseRecOn with
  | nil => exact .inl ⟨[], rfl, loadable_nil c⟩
  | append_singleton lines line ih =>
    rcases ih with ⟨texts, rfl, htexts⟩ | ⟨texts, bad, rest, e, rfl, htexts, hbad⟩
    · rcases (c.withTables (declared texts)).accepts_or_offends (texts.length + 1) line with
        ⟨text, rfl, htext⟩ | ⟨e, hline⟩
      · refine .inl ⟨texts ++ [text], ?_, loadable_declared_concat.2 ⟨htexts, htext⟩⟩
        rw [List.map_append, List.map_singleton]
      · exact .inr ⟨texts, line, [], e, rfl, htexts, hline⟩
    · exact .inr ⟨texts, bad, rest ++ [line], e, by rw [List.append_assoc, List.cons_append],
        htexts, hbad⟩

theorem map_decodeLine_bytes (texts : List String) :
    (texts.map bytes).map decodeLine = texts.map .ok := by
  rw [List.map_map]
  exact List.map_congr_left fun text _ => decodeLine_bytes text

theorem load_of_loadable {content : List UInt8} (hlines : Lined content (texts.map bytes))
    (h : c.Loadable (declared texts)) : c.load (.lines (linesOf content)) =
      (.ok (declared texts).length, c.withTables (declared texts)) := by
  have hload := loadLines_loadable h 0 0 []
  rw [List.append_nil] at hload
  rw [load, LineSource.toList, lined_iff.1 hlines, map_decodeLine_bytes, hload, Nat.zero_add,
    Nat.zero_add]
  rfl

theorem load_of_offending {content : List UInt8} {rest : List (List UInt8)} {e : Error}
    (hlines : Lined content (texts.map bytes ++ line :: rest)) (h : c.Loadable (declared texts))
    (hline : (c.withTables (declared texts)).Offends (texts.length + 1) line e) :
    c.load (.lines (linesOf content)) = (.error e, c.withTables (declared texts)) := by
  rw [load, LineSource.toList, lined_iff.1 hlines, List.map_append, map_decodeLine_bytes,
    List.map_cons, loadLines_loadable h, Nat.zero_add, loadLines_offending hline]

/-- **What loading a description does to the catalog.** It succeeds with a number exactly when all
lines are text and the tables they declare can be added, and then the number is that of the lines
that are not blank, and these tables are added. It fails with an error exactly when the error is
that of the first line that offends, and then the tables that the lines before it declare are
added. Nothing else changes in either case. -/
theorem load_tables (c : Catalog) {content : List UInt8} {lines : List (List UInt8)}
    (hlines : Lined content lines) :
    (∀ n d, c.load (.lines (linesOf content)) = (.ok n, d) ↔
        ∃ texts, lines = texts.map bytes ∧ c.Loadable (declared texts) ∧
          (n = texts.countP fun text => ¬ OnlyBlank text.toList) ∧
          d = c.withTables (declared texts)) ∧
      ∀ e d, c.load (.lines (linesOf content)) = (.error e, d) ↔
        ∃ texts line rest, lines = texts.map bytes ++ line :: rest ∧
          c.Loadable (declared texts) ∧
          (c.withTables (declared texts)).Offends (texts.length + 1) line e ∧
          d = c.withTables (declared texts) := by
  simp only [← length_declared]
  refine ⟨fun n d => ⟨fun hload => ?_, ?_⟩, fun e d => ⟨fun hload => ?_, ?_⟩⟩
  · rcases loadable_or_offends c lines with ⟨texts, rfl, h⟩ | ⟨texts, line, rest, e, rfl, h, hline⟩
    · cases hload.symm.trans (load_of_loadable hlines h)
      exact ⟨texts, rfl, h, rfl, rfl⟩
    · cases hload.symm.trans (load_of_offending hlines h hline)
  · rintro ⟨texts, rfl, h, rfl, rfl⟩
    exact load_of_loadable hlines h
  · rcases loadable_or_offends c lines with ⟨texts, rfl, h⟩ | ⟨texts, line, rest, e, rfl, h, hline⟩
    · cases hload.symm.trans (load_of_loadable hlines h)
    · cases hload.symm.trans (load_of_offending hlines h hline)
      exact ⟨texts, line, rest, rfl, h, hline, rfl⟩
  · rintro ⟨texts, line, rest, rfl, h, hline, rfl⟩
    exact load_of_offending hlines h hline

/-- The fourth line registers a table again, with columns of its own; the two tables before it are
loaded, and the blank line between them counts as a line only. -/
theorem load_tables_again :
    Lined (bytes "T A B\n \nU C\r\nS D\nV A\n")
        [bytes "T A B", bytes " ", bytes "U C", bytes "S D", bytes "V A"] ∧
      aliasedCatalog.load (.lines (linesOf (bytes "T A B\n \nU C\r\nS D\nV A\n"))) =
        (.error (.invalidSchema "Table already exists: S"),
          aliasedCatalog.withTables [("T", ["A", "B"]), ("U", ["C"])]) := by
  have hlines : Lined (bytes "T A B\n \nU C\r\nS D\nV A\n")
      [bytes "T A B", bytes " ", bytes "U C", bytes "S D", bytes "V A"] := lined_iff.2 (by decide)
  refine ⟨hlines, ((load_tables aliasedCatalog hlines).2 _ _).2
    ⟨["T A B", " ", "U C"], bytes "S D", [bytes "V A"], rfl, ?_, ?_, rfl⟩⟩
  · exact ⟨by decide, by decide, by decide⟩
  · exact @Offends.registered _ _ _ "S D" "S" ["D"] rfl rfl (by decide) (by decide)

end Catalog

end FlatQuery
