import FlatQuery.Proofs.Sieve

set_option autoImplicit false

/-! # Contexts

A conjunct is evaluated on a scan, on a join, or on a whole row of the product. Each of these is a
context: some entries of the FROM list in their order, with a tuple for each. `truth_of_covers` says
that all contexts with the entries that a conjunct refers to give it the same truth value. -/

namespace FlatQuery

/-- The columns of some schemas in a row. -/
def Schema.concat (ss : List Schema) : Schema := ⟨ss.flatMap Schema.columns⟩

@[simp] theorem Schema.concat_append (ss ss' : List Schema) :
    Schema.concat (ss ++ ss') = Schema.concat ss ++ Schema.concat ss' :=
  congrArg Schema.mk List.flatMap_append

@[simp] theorem Schema.concat_singleton (s : Schema) : Schema.concat [s] = s :=
  congrArg Schema.mk (List.flatMap_singleton Schema.columns s)

/-- A name that stands in none of some schemas stands nowhere in them in a row. -/
theorem Schema.positionsOf_concat {ss : List Schema} {q : Option String} {n : String}
    (h : ∀ s ∈ ss, s.positionsOf q n = []) : (Schema.concat ss).positionsOf q n = [] := by
  induction ss with
  | nil => rfl
  | cons s ss ih =>
    obtain ⟨hs, hrest⟩ := List.forall_mem_cons.1 h
    show (s ++ Schema.concat ss).positionsOf q n = []
    rw [positionsOf_append, hs, ih hrest]
    rfl

namespace Context

/-- The columns of a context. -/
def schema (entries : List (FromTable × Tuple)) : Schema :=
  .concat (entries.map fun entry => entry.1.schema)

/-- The row of a context. -/
def tuple (entries : List (FromTable × Tuple)) : Tuple := .concat (entries.map Prod.snd)

/-- Whether each tuple has a value for each column of its entry. -/
def Fits (entries : List (FromTable × Tuple)) : Prop :=
  ∀ entry ∈ entries, entry.2.length = entry.1.schema.length

variable {entries before after : List (FromTable × Tuple)} {entry : FromTable × Tuple}

theorem schema_cons : schema (entry :: entries) = entry.1.schema ++ schema entries := rfl

theorem tuple_cons : tuple (entry :: entries) = entry.2 ++ tuple entries := rfl

@[simp] theorem schema_singleton (table : FromTable) (t : Tuple) : schema [(table, t)] = table.schema :=
  Schema.concat_singleton table.schema

@[simp] theorem tuple_singleton (table : FromTable) (t : Tuple) : tuple [(table, t)] = t :=
  Tuple.concat_singleton t

theorem schema_eq_concat (entries : List (FromTable × Tuple)) :
    schema entries = .concat ((entries.map Prod.fst).map FromTable.schema) := by
  rw [List.map_map]
  rfl

/-- Only as many entries count as there are tuples. -/
theorem zip_take_length (tables : List FromTable) (cs : List Tuple) :
    (tables.take cs.length).zip cs = tables.zip cs := by
  induction tables generalizing cs with
  | nil => rw [List.take_nil]
  | cons table tables ih =>
    cases cs with
    | nil => rfl
    | cons t cs => exact congrArg ((table, t) :: ·) (ih cs)

theorem schema_zip {tables : List FromTable} {cs : List Tuple} (h : tables.length = cs.length) :
    schema (tables.zip cs) = .concat (tables.map FromTable.schema) := by
  rw [schema_eq_concat, List.map_fst_zip (Nat.le_of_eq h)]

theorem tuple_zip {tables : List FromTable} {cs : List Tuple} (h : tables.length = cs.length) :
    tuple (tables.zip cs) = .concat cs := by
  rw [tuple, List.map_snd_zip (Nat.le_of_eq h.symm)]

/-- The row of a context fits its columns. -/
theorem length_tuple (h : Fits entries) : (tuple entries).length = (schema entries).length := by
  induction entries with
  | nil => rfl
  | cons entry entries ih =>
    obtain ⟨hentry, hrest⟩ := List.forall_mem_cons.1 h
    show (entry.2.values ++ (tuple entries).values).length =
      (entry.1.schema.columns ++ (schema entries).columns).length
    rw [List.length_append, List.length_append]
    exact congrArg₂ (· + ·) hentry (ih hrest)

/-- A name that stands in none of the entries stands nowhere in the context. -/
theorem positionsOf_schema {q : Option String} {n : String}
    (h : ∀ entry ∈ entries, entry.1.schema.positionsOf q n = []) :
    (schema entries).positionsOf q n = [] :=
  Schema.positionsOf_concat (List.forall_mem_map.2 h)

/-- A column has the value that it has in its own entry, if the entries before have no such name,
and those after have none if it is qualified. -/
theorem valueOf_of_split {ref : ColumnRef} {v : Value} (hfits : Fits (before ++ entry :: after))
    (hbefore : ∀ b ∈ before, b.1.schema.positionsOf ref.table ref.column = [])
    (hafter : ref.table ≠ none → ∀ a ∈ after, a.1.schema.positionsOf ref.table ref.column = [])
    (h : entry.1.schema.valueOf entry.2 ref = some v) :
    (schema (before ++ entry :: after)).valueOf (tuple (before ++ entry :: after)) ref =
      some v := by
  induction before with
  | nil =>
    rw [List.nil_append, schema_cons, tuple_cons]
    apply Schema.valueOf_append_left _ h
    exact fun hq => positionsOf_schema (hafter hq)
  | cons b before ih =>
    rw [List.cons_append] at hfits ⊢
    obtain ⟨hb, hfits⟩ := List.forall_mem_cons.1 hfits
    obtain ⟨hnone, hbefore⟩ := List.forall_mem_cons.1 hbefore
    rw [schema_cons, tuple_cons]
    exact Schema.valueOf_append_right hb hnone (ih hfits hbefore)

/-- Tuples fit the entries in front of which they stand. -/
theorem fits_zip {tables : List FromTable} {cs : List Tuple}
    (h : ∀ (k : Nat) table t, tables[k]? = some table → cs[k]? = some t →
      t.length = table.schema.length) : Fits (tables.zip cs) := by
  rintro ⟨table, t⟩ hentry
  obtain ⟨k, hk⟩ := List.getElem?_of_mem hentry
  obtain ⟨htable, ht⟩ := List.getElem?_zip_eq_some.1 hk
  exact h k table t htable ht

end Context

/-! ## Entries of a FROM list -/

/-- Whether the entries of a FROM list have distinct qualifiers, and their columns carry them. -/
structure Qualified («from» : List FromTable) : Prop where
  nodup : («from».map FromTable.qualifier).Nodup
  columns : ∀ table ∈ «from», ∀ column ∈ table.schema.columns, column.table = table.qualifier

variable {«from» : List FromTable} {ref : ColumnRef} {k : Nat}

theorem Qualified.positionsOf_eq_nil (h : Qualified «from») {table : FromTable}
    (htable : table ∈ «from») {q n : String} (hq : table.qualifier ≠ q) :
    table.schema.positionsOf (some q) n = [] := by
  unfold Schema.positionsOf
  rw [List.map_eq_nil_iff, List.filter_eq_nil_iff]
  rintro ⟨column, i⟩ hcolumn hanswers
  have hmem := List.mem_of_getElem? (List.mem_zipIdx_iff_getElem?.1 hcolumn)
  simp only [Column.answersTo, Bool.and_eq_true, beq_iff_eq] at hanswers
  exact hq ((h.columns table htable column hmem).symm.trans hanswers.2.symm)

/-- Two entries of a FROM list have different qualifiers. -/
theorem Qualified.ne_of_split {before after : List FromTable} {table : FromTable}
    (h : Qualified (before ++ table :: after)) :
    ∀ other ∈ before ++ after, other.qualifier ≠ table.qualifier := by
  have hnodup := h.nodup
  rw [List.map_append, List.map_cons, List.nodup_middle, List.nodup_cons,
    ← List.map_append] at hnodup
  intro other hother heq
  refine hnodup.1 ?_
  rw [← heq]
  exact List.mem_map_of_mem hother

theorem eq_append_of_getElem? {α : Type} {xs : List α} {x : α} (h : xs[k]? = some x) :
    xs = xs.take k ++ x :: xs.drop (k + 1) ∧ (xs.take k).length = k := by
  obtain ⟨hlt, rfl⟩ := List.getElem?_eq_some_iff.1 h
  refine ⟨?_, List.length_take_of_le (Nat.le_of_lt hlt)⟩
  rw [← List.drop_eq_getElem_cons hlt, List.take_append_drop]

/-- Whether a column belongs to an entry that stands between others: the entry has the column, those
before have no such name, and those after have none if the column is qualified. -/
structure BelongsTo (ref : ColumnRef) (before : List FromTable) (table : FromTable)
    (after : List FromTable) : Prop where
  indexed : ∃ i, table.schema.indexOf ref.table ref.column = .ok i
  before_nil : ∀ b ∈ before, b.schema.positionsOf ref.table ref.column = []
  after_nil : ref.table ≠ none → ∀ a ∈ after, a.schema.positionsOf ref.table ref.column = []

/-- The position of a column is that of the entry that it belongs to. -/
theorem belongsTo_of_position (hfrom : Qualified «from») (h : ref.position «from» = .ok k) :
    ∃ before table after, «from» = before ++ table :: after ∧ before.length = k ∧
      BelongsTo ref before table after := by
  obtain ⟨qualifier, column⟩ := ref
  unfold ColumnRef.position at h
  cases qualifier with
  | none =>
    -- an unqualified column belongs to the first entry that has it
    simp only at h
    split at h
    · next position hfound =>
      cases h
      obtain ⟨hlt, hhas, hfirst⟩ := List.findIdx?_eq_some_iff_getElem.1 hfound
      obtain ⟨hfromEq, hlength⟩ := eq_append_of_getElem? (List.getElem?_eq_getElem hlt)
      refine ⟨_, _, _, hfromEq, hlength, ?_, ?_, fun hq => absurd rfl hq⟩
      · cases hpositions : («from»[k]).schema.positionsOf none column with
        | nil =>
          rw [hpositions] at hhas
          cases hhas
        | cons i more =>
          exact ⟨i, Schema.indexOf_eq_ok_iff.2 ⟨more, hpositions, fun hq => absurd rfl hq⟩⟩
      · intro b hb
        obtain ⟨j, hj, rfl⟩ := List.mem_take_iff_getElem.1 hb
        have hnot := hfirst j (by omega)
        simpa using hnot
    · cases h
  | some q =>
    -- a qualified column belongs to the entry of its qualifier, and no other entry has that
    simp only at h
    split at h
    · next table position hfound =>
      obtain ⟨i, hi, h⟩ := bind_eq_ok_iff.1 h
      cases h
      have hq : table.qualifier = q := by simpa using List.find?_some hfound
      have htable := List.mem_zipIdx_iff_getElem?.1 (List.mem_of_find?_eq_some hfound)
      obtain ⟨hfromEq, hlength⟩ := eq_append_of_getElem? htable
      have hothers : ∀ other ∈ «from».take k ++ «from».drop (k + 1),
          other.schema.positionsOf (some q) column = [] := by
        intro other hother
        have hne := (hfromEq ▸ hfrom).ne_of_split other hother
        refine hfrom.positionsOf_eq_nil ?_ fun heq => hne (heq.trans hq.symm)
        rcases List.mem_append.1 hother with hother | hother
        · exact List.mem_of_mem_take hother
        · exact List.mem_of_mem_drop hother
      refine ⟨_, _, _, hfromEq, hlength, ⟨i, hi⟩, ?_, fun _ => ?_⟩
      · exact fun b hb => hothers b (List.mem_append_left _ hb)
      · exact fun a ha => hothers a (List.mem_append_right _ ha)
    · cases h

/-! ## Truth values in contexts -/

namespace Context

variable {cs : List Tuple} {entries more : List (FromTable × Tuple)} {entry : FromTable × Tuple}
  {e : Expr}

/-- A sublist with an element that the list has once is split where the list is. -/
theorem exists_split_of_sublist {α : Type} {xs ys : List α} {x : α} (hsub : ys.Sublist xs)
    (hx : xs[k]? = some x) (hmem : x ∈ ys) (hbefore : x ∉ xs.take k)
    (hafter : x ∉ xs.drop (k + 1)) :
    ∃ ls rs, ys = ls ++ x :: rs ∧ ls.Sublist (xs.take k) ∧ rs.Sublist (xs.drop (k + 1)) := by
  rw [(eq_append_of_getElem? hx).1, List.sublist_append_iff] at hsub
  obtain ⟨ls, rs, rfl, hls, hrs⟩ := hsub
  rcases List.sublist_cons_iff.1 hrs with hskip | ⟨rest, rfl, hrest⟩
  · exfalso
    rcases List.mem_append.1 hmem with hin | hin
    · exact hbefore (hls.subset hin)
    · exact hafter (hskip.subset hin)
  · exact ⟨ls, rest, rfl, hls, hrest⟩

/-- A context that has the entry of a column gives it the value that it has in the entry. -/
theorem valueOf_of_mem (hfrom : Qualified «from») (hfits : Fits («from».zip cs))
    (hsub : entries.Sublist («from».zip cs)) (hk : ref.position «from» = .ok k)
    (hentry : («from».zip cs)[k]? = some entry) (hmem : entry ∈ entries) :
    ∃ v, entry.1.schema.valueOf entry.2 ref = some v ∧
      (schema entries).valueOf (tuple entries) ref = some v := by
  obtain ⟨before, table, after, hfromEq, hlength, hbelongs⟩ := belongsTo_of_position hfrom hk
  -- the entries around the one at the position of the column
  have htable : entry.1 = table := by
    have hfirst := (List.getElem?_zip_eq_some.1 hentry).1
    rw [hfromEq, ← hlength, List.getElem?_append_right (Nat.le_refl _), Nat.sub_self] at hfirst
    exact (Option.some.inj hfirst).symm
  have hbefore : ∀ b ∈ («from».zip cs).take k, b.1 ∈ before := by
    intro b hb
    rw [List.zip, List.take_zipWith, hfromEq, List.take_left' hlength] at hb
    exact (List.of_mem_zip hb).1
  have hafter : ∀ a ∈ («from».zip cs).drop (k + 1), a.1 ∈ after := by
    intro a ha
    rw [List.zip, List.drop_zipWith, hfromEq, ← List.drop_drop, List.drop_left' hlength] at ha
    exact (List.of_mem_zip ha).1
  have hfresh : ∀ other ∈ before ++ after, other ≠ entry.1 := by
    rintro other hother rfl
    exact (hfromEq ▸ hfrom).ne_of_split _ hother (congrArg FromTable.qualifier htable)
  -- a context with the entry has it between some of those before and some of those after
  obtain ⟨ls, rs, rfl, hls, hrs⟩ := exists_split_of_sublist hsub hentry hmem
    (fun hin => hfresh _ (List.mem_append_left _ (hbefore _ hin)) rfl)
    (fun hin => hfresh _ (List.mem_append_right _ (hafter _ hin)) rfl)
  have hfitsEntries : Fits (ls ++ entry :: rs) := fun x hx => hfits x (hsub.subset hx)
  -- the entry itself has a value there, since its tuple is long enough
  obtain ⟨i, hi⟩ := hbelongs.indexed
  rw [← htable] at hi
  obtain ⟨v, -, hvalue⟩ := Schema.exists_valueOf (hfitsEntries entry hmem) hi
  refine ⟨_, hvalue, valueOf_of_split hfitsEntries ?_ ?_ hvalue⟩
  · exact fun b hb => hbelongs.before_nil _ (hbefore b (hls.subset hb))
  · exact fun hq a ha => hbelongs.after_nil hq _ (hafter a (hrs.subset ha))

/-- Whether a context has the entry of each column of an expression. -/
structure Covers («from» : List FromTable) (cs : List Tuple) (e : Expr)
    (entries : List (FromTable × Tuple)) : Prop where
  sublist : entries.Sublist («from».zip cs)
  owners : ∀ ref ∈ e.columns, ∃ k entry, ref.position «from» = .ok k ∧
    («from».zip cs)[k]? = some entry ∧ entry ∈ entries

/-- Contexts with the entries of an expression agree on its columns. -/
theorem valueOf_of_covers (hfrom : Qualified «from») (hfits : Fits («from».zip cs))
    (h : Covers «from» cs e entries) (h' : Covers «from» cs e more) :
    ∀ ref ∈ e.columns, ∃ v, (schema entries).valueOf (tuple entries) ref = some v ∧
      (schema more).valueOf (tuple more) ref = some v := by
  intro ref href
  obtain ⟨k, entry, hk, hentry, hmem⟩ := h.owners ref href
  obtain ⟨k', entry', hk', hentry', hmem'⟩ := h'.owners ref href
  obtain rfl : k = k' := Except.ok.inj (hk.symm.trans hk')
  obtain rfl : entry = entry' := Option.some.inj (hentry.symm.trans hentry')
  obtain ⟨v, hv, hvalue⟩ := valueOf_of_mem hfrom hfits h.sublist hk hentry hmem
  obtain ⟨v', hv', hvalue'⟩ := valueOf_of_mem hfrom hfits h'.sublist hk hentry hmem'
  obtain rfl : v = v' := Option.some.inj (hv.symm.trans hv')
  exact ⟨v, hvalue, hvalue'⟩

/-- **All contexts with the entries of an expression give it the same truth value.** -/
theorem truth_of_covers (hfrom : Qualified «from») (hfits : Fits («from».zip cs))
    (h : Covers «from» cs e entries) (h' : Covers «from» cs e more) :
    e.truth (schema entries) (tuple entries) = e.truth (schema more) (tuple more) :=
  Expr.truth_congr (valueOf_of_covers hfrom hfits h h')

/-- An expression that is bound in one context with its entries is bound in all. -/
theorem binds_of_covers (hfrom : Qualified «from») (hfits : Fits («from».zip cs))
    (h : Covers «from» cs e entries) (h' : Covers «from» cs e more)
    (hbinds : e.Binds (schema entries)) : e.Binds (schema more) := by
  obtain ⟨b, hb⟩ := hbinds
  exact (BoundPredicate.bind_congr (valueOf_of_covers hfrom hfits h h')).exists_ok hb

end Context

/-! ## Referenced entries -/

namespace Expr

variable {e : Expr} {ps : List Nat} {cs : List Tuple}

/-- The referenced positions are ascending, and each column has its position among them. -/
theorem referencedTables_eq_ok (hfrom : Qualified «from») (h : e.referencedTables «from» = .ok ps) :
    ps.Sublist (List.range «from».length) ∧
      ∀ ref ∈ e.columns, ∃ k ∈ ps, ref.position «from» = .ok k := by
  obtain ⟨positions, hpositions, h⟩ := bind_eq_ok_iff.1 h
  cases h
  refine ⟨List.filter_sublist, ?_⟩
  intro ref href
  obtain ⟨k, hmem, hk⟩ := exists_of_mem_mapM hpositions href
  refine ⟨k, List.mem_filter.2 ⟨?_, decide_eq_true hmem⟩, hk⟩
  obtain ⟨before, table, after, hfromEq, hlength, -⟩ := belongsTo_of_position hfrom hk
  rw [List.mem_range, hfromEq, List.length_append, List.length_cons, ← hlength]
  omega

end Expr

namespace Context

variable {e : Expr} {ps : List Nat} {cs : List Tuple} {entries : List (FromTable × Tuple)}

theorem covers_of_referenced (hfrom : Qualified «from») (hps : e.referencedTables «from» = .ok ps)
    (hsub : entries.Sublist («from».zip cs))
    (hentries : ∀ k ∈ ps, ∃ entry ∈ entries, («from».zip cs)[k]? = some entry) :
    Covers «from» cs e entries := by
  refine ⟨hsub, ?_⟩
  intro ref href
  obtain ⟨k, hk, hposition⟩ := (Expr.referencedTables_eq_ok hfrom hps).2 ref href
  obtain ⟨entry, hmem, hentry⟩ := hentries k hk
  exact ⟨k, entry, hposition, hentry, hmem⟩

/-- The entries at some positions, as far as they have a tuple. -/
def select («from» : List FromTable) (cs : List Tuple) (ps : List Nat) : List (FromTable × Tuple) :=
  ps.filterMap fun k => («from».zip cs)[k]?

theorem exists_entry {k : Nat} (hk : k < «from».length) (hcs : k < cs.length) :
    ∃ entry, («from».zip cs)[k]? = some entry := by
  refine ⟨_, List.getElem?_eq_getElem ?_⟩
  rw [List.length_zip]
  exact Nat.lt_min.2 ⟨hk, hcs⟩

theorem filterMap_range_getElem? {α : Type} (xs : List α) {n : Nat} (h : xs.length ≤ n) :
    (List.range n).filterMap (fun k => xs[k]?) = xs := by
  induction xs generalizing n with
  | nil => simp
  | cons x xs ih =>
    cases n with
    | zero => cases h
    | succ n =>
      rw [List.range_succ_eq_map, List.filterMap_cons, List.filterMap_map]
      show x :: (List.range n).filterMap (fun k => xs[k]?) = x :: xs
      rw [ih (Nat.le_of_succ_le_succ h)]

theorem select_sublist (cs : List Tuple) (h : ps.Sublist (List.range «from».length)) :
    (select «from» cs ps).Sublist («from».zip cs) := by
  have hall : (List.range «from».length).filterMap (fun k => («from».zip cs)[k]?) =
      «from».zip cs := by
    apply filterMap_range_getElem?
    rw [List.length_zip]
    exact Nat.min_le_left ..
  have hsub := h.filterMap fun k => («from».zip cs)[k]?
  rw [hall] at hsub
  exact hsub

end Context

/-! ## Verdicts -/

/-- The truth value of a conjunct for a choice of one tuple from each of the first entries, where
only the entries that it refers to are looked at. -/
def Expr.verdict («from» : List FromTable) (e : Expr) (cs : List Tuple) : Except Error Bool := do
  let ps ← e.referencedTables «from»
  e.truth (Context.schema (Context.select «from» cs ps)) (Context.tuple (Context.select «from» cs ps))

/-- Whether a conjunct refers to the first `n` entries only. -/
def Expr.Within («from» : List FromTable) (n : Nat) (e : Expr) : Prop :=
  ∃ ps, e.referencedTables «from» = .ok ps ∧ ∀ k ∈ ps, k < n

namespace Expr

variable {e : Expr} {ps : List Nat} {cs : List Tuple}

theorem Within.mono {n m : Nat} (h : e.Within «from» n) (hle : n ≤ m) : e.Within «from» m := by
  obtain ⟨ps, hps, hlt⟩ := h
  exact ⟨ps, hps, fun k hk => Nat.lt_of_lt_of_le (hlt k hk) hle⟩

theorem verdict_of_referenced (hps : e.referencedTables «from» = .ok ps) (cs : List Tuple) :
    e.verdict «from» cs =
      e.truth (Context.schema (Context.select «from» cs ps))
        (Context.tuple (Context.select «from» cs ps)) := by
  unfold verdict
  rw [hps]
  rfl

/-- A verdict is the truth value in any context with the referenced entries. -/
theorem verdict_eq_truth (hfrom : Qualified «from») (hfits : Context.Fits («from».zip cs))
    (hps : e.referencedTables «from» = .ok ps) (hlt : ∀ k ∈ ps, k < cs.length)
    {entries : List (FromTable × Tuple)} (hcovers : Context.Covers «from» cs e entries) :
    e.verdict «from» cs = e.truth (Context.schema entries) (Context.tuple entries) := by
  obtain ⟨hsub, -⟩ := referencedTables_eq_ok hfrom hps
  rw [verdict_of_referenced hps]
  refine Context.truth_of_covers hfrom hfits ?_ hcovers
  apply Context.covers_of_referenced hfrom hps (Context.select_sublist cs hsub)
  intro k hk
  have hfromLt := List.mem_range.1 (hsub.subset hk)
  obtain ⟨entry, hentry⟩ := Context.exists_entry hfromLt (hlt k hk)
  exact ⟨entry, List.mem_filterMap.2 ⟨k, hk, hentry⟩, hentry⟩

/-- The verdict on a choice from the first entries is the truth value for its whole row. -/
theorem verdict_of_within (hfrom : Qualified «from») (hfits : Context.Fits («from».zip cs))
    (h : e.Within «from» cs.length) :
    e.verdict «from» cs =
      e.truth (Context.schema («from».zip cs)) (Context.tuple («from».zip cs)) := by
  obtain ⟨ps, hps, hlt⟩ := h
  obtain ⟨hsub, -⟩ := referencedTables_eq_ok hfrom hps
  apply verdict_eq_truth hfrom hfits hps hlt
  apply Context.covers_of_referenced hfrom hps (List.Sublist.refl _)
  intro k hk
  obtain ⟨entry, hentry⟩ := Context.exists_entry (List.mem_range.1 (hsub.subset hk)) (hlt k hk)
  exact ⟨entry, List.mem_of_getElem? hentry, hentry⟩

/-- A verdict does not change with further entries. -/
theorem verdict_append (h : e.Within «from» cs.length) (u : Tuple) :
    e.verdict «from» (cs ++ [u]) = e.verdict «from» cs := by
  obtain ⟨ps, hps, hlt⟩ := h
  have hselect : Context.select «from» (cs ++ [u]) ps = Context.select «from» cs ps := by
    apply List.filterMap_congr
    intro k hk
    rw [List.zip, List.getElem?_zipWith, List.getElem?_zipWith,
      List.getElem?_append_left (hlt k hk)]
  rw [verdict_of_referenced hps, verdict_of_referenced hps, hselect]

/-- The verdict of a conjunct on one entry is its truth value for the tuple of that entry. -/
theorem verdict_single (hfrom : Qualified «from») {u : Tuple}
    (hfits : Context.Fits («from».zip (cs ++ [u]))) {table : FromTable}
    (htable : «from»[cs.length]? = some table) (hps : e.referencedTables «from» = .ok ps)
    (honly : ∀ k ∈ ps, k = cs.length) :
    e.verdict «from» (cs ++ [u]) = e.truth table.schema u := by
  have hentry : («from».zip (cs ++ [u]))[cs.length]? = some (table, u) := by
    rw [List.getElem?_zip_eq_some]
    exact ⟨htable, List.getElem?_concat_length ..⟩
  have hcovers : Context.Covers «from» (cs ++ [u]) e [(table, u)] := by
    apply Context.covers_of_referenced hfrom hps
    · exact List.singleton_sublist.2 (List.mem_of_getElem? hentry)
    · intro k hk
      rw [honly k hk]
      exact ⟨_, List.mem_singleton_self _, hentry⟩
  have hlt : ∀ k ∈ ps, k < (cs ++ [u]).length := by
    intro k hk
    rw [honly k hk, List.length_append]
    exact Nat.lt_succ_self _
  rw [verdict_eq_truth hfrom hfits hps hlt hcovers, Context.schema_singleton,
    Context.tuple_singleton]

end Expr

/-! ## Binding -/

/-- Some tuple of an entry. -/
def FromTable.blank (table : FromTable) : Tuple := ⟨List.replicate table.schema.length 0⟩

namespace Context

variable {e : Expr} {ps : List Nat} {entries : List (FromTable × Tuple)}

theorem fits_blank («from» : List FromTable) :
    Fits («from».zip («from».map FromTable.blank)) := by
  apply fits_zip
  intro k table t htable ht
  rw [List.getElem?_map, htable] at ht
  obtain rfl : table.blank = t := Option.some.inj ht
  exact List.length_replicate

/-- A conjunct is bound in some context with its entries exactly when it is bound to the whole FROM
list. -/
theorem binds_concat_iff (hfrom : Qualified «from») (hps : e.referencedTables «from» = .ok ps)
    (hsub : entries.Sublist («from».zip («from».map FromTable.blank)))
    (hentries : ∀ k ∈ ps, ∃ entry ∈ entries,
      («from».zip («from».map FromTable.blank))[k]? = some entry) :
    e.Binds (schema entries) ↔ e.Binds (.concat («from».map FromTable.schema)) := by
  have hall : ∀ k ∈ ps, ∃ entry ∈ «from».zip («from».map FromTable.blank),
      («from».zip («from».map FromTable.blank))[k]? = some entry := by
    intro k hk
    obtain ⟨entry, -, hentry⟩ := hentries k hk
    exact ⟨entry, List.mem_of_getElem? hentry, hentry⟩
  have hsome := covers_of_referenced hfrom hps hsub hentries
  have hwhole := covers_of_referenced hfrom hps (List.Sublist.refl _) hall
  rw [← schema_zip (List.length_map _).symm]
  exact ⟨binds_of_covers hfrom (fits_blank «from») hsome hwhole,
    binds_of_covers hfrom (fits_blank «from») hwhole hsome⟩

end Context

/-! ## Safe conjuncts -/

/-- Whether a conjunct can be evaluated on every choice of one row from each entry that it refers
to, where `rows` are the rows of the entries. -/
def Expr.Safe («from» : List FromTable) (rows : List (List Tuple)) (e : Expr) : Prop :=
  ∀ ps, e.referencedTables «from» = .ok ps →
    ∀ cs ∈ choices (ps.filterMap fun k => rows[k]?),
      ∃ v, e.truth (.concat ((ps.filterMap fun k => «from»[k]?).map FromTable.schema))
        (.concat cs) = .ok v

theorem Expr.safe_iff {rows : List (List Tuple)} {e : Expr} {ps : List Nat}
    (hps : e.referencedTables «from» = .ok ps) :
    e.Safe «from» rows ↔ ∀ cs ∈ choices (ps.filterMap fun k => rows[k]?),
      (e.truth (.concat ((ps.filterMap fun k => «from»[k]?).map FromTable.schema))
        (.concat cs)).isOk = true := by
  simp only [isOk_iff]
  constructor
  · exact fun hsafe => hsafe ps hps
  · intro hall ps' hps'
    cases hps.symm.trans hps'
    exact hall

instance (rows : List (List Tuple)) (e : Expr) : Decidable (e.Safe «from» rows) :=
  match h : e.referencedTables «from» with
  | .error _ => .isTrue fun ps hps => by
    rw [h] at hps
    cases hps
  | .ok _ => decidable_of_iff' _ (Expr.safe_iff h)

/-- The entries and the tuples at some positions, where each tuple is a row of its entry. -/
theorem Context.select_parts {ps : List Nat} {cs : List Tuple} {rows : List (List Tuple)}
    (hlt : ∀ k ∈ ps, k < «from».length)
    (hrows : ∀ k ∈ ps, ∃ t ts, cs[k]? = some t ∧ rows[k]? = some ts ∧ t ∈ ts) :
    (select «from» cs ps).map Prod.fst = ps.filterMap (fun k => «from»[k]?) ∧
      (select «from» cs ps).map Prod.snd = ps.filterMap (fun k => cs[k]?) ∧
      List.Forall₂ (· ∈ ·) (ps.filterMap fun k => cs[k]?) (ps.filterMap fun k => rows[k]?) := by
  induction ps with
  | nil => exact ⟨rfl, rfl, .nil⟩
  | cons k ps ih =>
    obtain ⟨⟨t, ts, ht, hts, hmem⟩, hrest⟩ := List.forall_mem_cons.1 hrows
    obtain ⟨hk, hltRest⟩ := List.forall_mem_cons.1 hlt
    obtain ⟨hfst, hsnd, hall⟩ := ih hltRest hrest
    have htable := List.getElem?_eq_getElem hk
    have hentry : («from».zip cs)[k]? = some («from»[k], t) :=
      List.getElem?_zip_eq_some.2 ⟨htable, ht⟩
    unfold select at hfst hsnd ⊢
    rw [List.filterMap_cons_some hentry, List.filterMap_cons_some ht,
      List.filterMap_cons_some hts, List.filterMap_cons_some htable, List.map_cons,
      List.map_cons, hfst, hsnd]
    exact ⟨rfl, rfl, .cons hmem hall⟩

/-- A safe conjunct has a verdict on rows of the entries that it refers to. -/
theorem Expr.Safe.verdict_ok {e : Expr} {rows : List (List Tuple)} {cs : List Tuple} {ps : List Nat}
    (h : e.Safe «from» rows) (hfrom : Qualified «from») (hps : e.referencedTables «from» = .ok ps)
    (hrows : ∀ k ∈ ps, ∃ t ts, cs[k]? = some t ∧ rows[k]? = some ts ∧ t ∈ ts) :
    ∃ v, e.verdict «from» cs = .ok v := by
  obtain ⟨hsub, -⟩ := referencedTables_eq_ok hfrom hps
  have hlt : ∀ k ∈ ps, k < «from».length := fun k hk => List.mem_range.1 (hsub.subset hk)
  obtain ⟨hfst, hsnd, hall⟩ := Context.select_parts hlt hrows
  obtain ⟨v, hv⟩ := h ps hps _ (mem_choices.2 hall)
  refine ⟨v, ?_⟩
  rw [verdict_of_referenced hps, ← hv, Context.schema_eq_concat, Context.tuple, hfst, hsnd]

end FlatQuery
