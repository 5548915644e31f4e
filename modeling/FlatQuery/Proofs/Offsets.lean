import FlatQuery.Proofs.JoinTree

set_option autoImplicit false

/-! # Offsets

Where the columns of a FROM list lie in the row of a join: those of an entry follow the columns of
all entries before it, so each of them is shifted by the number of these (`offset`). A reference
stands for the shifted position under every join that has its entry (`indexOf_take`). Selections,
joins and projections look it up in different schemas and still read one stored value
(`reads_of_referenced`). -/

namespace FlatQuery

/-! ## Schemas in a row -/

namespace Schema

variable {s : Schema} {ss before after : List Schema} {q : Option String} {n : String} {k : Nat}

/-- A reference to one of some schemas in a row stands for its position there, shifted by the
columns before. -/
theorem indexOf_concat (hbefore : ∀ b ∈ before, b.positionsOf q n = [])
    (h : s.indexOf q n = .ok k) (hafter : q ≠ none → ∀ a ∈ after, a.positionsOf q n = []) :
    (concat (before ++ s :: after)).indexOf q n = .ok ((concat before).length + k) := by
  rw [concat_append]
  apply indexOf_append_right (positionsOf_concat hbefore)
  exact indexOf_append_left h fun hq => positionsOf_concat (hafter hq)

/-- The schema of the join of some inputs, taken in one after the other. -/
def joined : List Schema → Except Error Schema
  | [] => .ok ⟨[]⟩
  | first :: rest => rest.foldlM join first

/-- Inputs without a common column are joined, and their columns stand in a row. -/
theorem joined_eq_ok (h : (concat ss).columns.Nodup) : joined ss = .ok (concat ss) := by
  cases ss with
  | nil => rfl
  | cons first rest =>
    show rest.foldlM join first = _
    induction rest generalizing first with
    | nil => exact congrArg Except.ok (concat_singleton first).symm
    | cons t rest ih =>
      have hassoc : concat ((first ++ t) :: rest) = concat (first :: t :: rest) :=
        congrArg Schema.mk (List.append_assoc ..)
      have hjoin : first.join t = .ok (first ++ t) := by
        refine ofColumns_eq_ok_iff.2 ⟨?_, rfl⟩
        rw [← hassoc] at h
        exact (List.nodup_append.1 h).1
      rw [List.foldlM_cons, hjoin, ← hassoc]
      exact ih (first ++ t) (hassoc ▸ h)

end Schema

/-- A tuple in a row of tuples has its values there, shifted by the values before. -/
theorem Tuple.get?_concat (before after : List Tuple) {t : Tuple} {k : Nat} (hk : k < t.length) :
    (Tuple.concat (before ++ t :: after)).get? ((Tuple.concat before).length + k) = t.get? k := by
  rw [concat_append]
  show ((concat before).values ++ (t.values ++ (concat after).values))[
    (concat before).values.length + k]? = t.values[k]?
  rw [List.getElem?_append_right (Nat.le_add_right ..), Nat.add_sub_cancel_left,
    List.getElem?_append_left hk]

/-! ## Entries of a FROM list -/

section Entries

variable {«from» : List FromTable} {ref : ColumnRef} {p k : Nat}

/-- The number of columns before those of the entry at a position. -/
def offset : List FromTable → Nat → Nat
  | table :: rest, p + 1 => table.schema.length + offset rest p
  | _, _ => 0

theorem offset_eq («from» : List FromTable) (p : Nat) :
    offset «from» p = (Schema.concat ((«from».take p).map FromTable.schema)).length := by
  induction «from» generalizing p with
  | nil =>
    rw [List.take_nil]
    rfl
  | cons table rest ih =>
    cases p with
    | zero => rfl
    | succ p =>
      rw [offset, ih]
      exact List.length_append.symm

/-- The columns of all entries are distinct if those of each entry are. -/
theorem Qualified.nodup_concat (hfrom : Qualified «from»)
    (hnodup : ∀ table ∈ «from», table.schema.columns.Nodup) :
    (Schema.concat («from».map FromTable.schema)).columns.Nodup := by
  show ((«from».map FromTable.schema).flatMap Schema.columns).Nodup
  rw [List.flatMap_map, List.nodup_flatMap]
  refine ⟨hnodup, ?_⟩
  -- a column that two tables had would carry two different qualifiers
  refine (List.pairwise_map.1 hfrom.nodup).imp_of_mem ?_
  intro table table' htable htable' hne column hcolumn hcolumn'
  have hqualifier := hfrom.columns table htable column hcolumn
  have hqualifier' := hfrom.columns table' htable' column hcolumn'
  exact hne (hqualifier.symm.trans hqualifier')

theorem Qualified.take (hfrom : Qualified «from») (m : Nat) : Qualified («from».take m) where
  nodup := hfrom.nodup.sublist ((List.take_sublist m «from»).map _)
  columns table htable := hfrom.columns table (List.mem_of_mem_take htable)

/-- **A reference stands for the same column under every join that has its entry**: for the
position in the entry, shifted by the offset of the entry. -/
theorem indexOf_take (hfrom : Qualified «from») (hp : ref.position «from» = .ok p) :
    ∃ table k, «from»[p]? = some table ∧ table.schema.indexOf ref.table ref.column = .ok k ∧
      ∀ m, p < m → (Schema.concat ((«from».take m).map FromTable.schema)).indexOf
        ref.table ref.column = .ok (offset «from» p + k) := by
  obtain ⟨before, table, after, rfl, rfl, hbelongs⟩ := belongsTo_of_position hfrom hp
  obtain ⟨k, hk⟩ := hbelongs.indexed
  refine ⟨table, k, by simp, hk, fun m hm => ?_⟩
  obtain ⟨n, rfl⟩ := Nat.exists_eq_add_of_lt hm
  have htake : (before ++ table :: after).take (before.length + n + 1) =
      before ++ table :: after.take n := by
    rw [Nat.add_assoc, List.take_append, List.take_of_length_le (Nat.le_add_right ..),
      Nat.add_sub_cancel_left, List.take_succ_cons]
  have hbefore : ∀ s ∈ before.map FromTable.schema, s.positionsOf ref.table ref.column = [] :=
    List.forall_mem_map.2 hbelongs.before_nil
  have hafter : ref.table ≠ none →
      ∀ s ∈ (after.take n).map FromTable.schema, s.positionsOf ref.table ref.column = [] :=
    fun hq => List.forall_mem_map.2 fun a ha => hbelongs.after_nil hq a (List.mem_of_mem_take ha)
  rw [htake, List.map_append, List.map_cons, offset_eq, List.take_left' rfl]
  exact Schema.indexOf_concat hbefore hk hafter

/-! ## One column everywhere -/

/-- The schema of a join tree is the join of the schemas of its inputs. -/
theorem foldlM_join_of_joinAll {root q : Plan} {ps : List Plan} {position : Nat}
    {pending waiting : List Planner.Pending}
    (h : Planner.joinAll root position pending ps = .ok (q, waiting)) :
    (ps.map Plan.schema).foldlM Schema.join root.schema = .ok q.schema := by
  induction ps generalizing root position pending with
  | nil =>
    cases h
    rfl
  | cons right rest ih =>
    rw [joinAll_cons] at h
    obtain ⟨next, hnext, h⟩ := bind_eq_ok_iff.1 h
    obtain ⟨schema, hschema, -⟩ := bind_eq_ok_iff.1 hnext
    obtain ⟨-, predicate, rfl, -⟩ := Plan.joinOn_eq_ok hnext
    obtain ⟨-, rfl⟩ := Schema.ofColumns_eq_ok_iff.1 hschema
    rw [List.map_cons, List.foldlM_cons, hschema]
    exact ih h

theorem joined_of_joinTree {root : Plan} {ps : List Plan} {pending : List Planner.Pending}
    (h : Planner.joinTree pending ps = .ok root) :
    Schema.joined (ps.map Plan.schema) = .ok root.schema := by
  cases ps with
  | nil => cases h
  | cons first rest =>
    obtain ⟨⟨q, waiting⟩, hq, h⟩ := bind_eq_ok_iff.1 h
    cases waiting with
    | nil =>
      cases h
      exact foldlM_join_of_joinAll hq
    | cons w waiting => cases h

/-- Whether a reference reads column `k` of the entry `table`, which stands at position `p`,
wherever it is bound. -/
structure Reads («from» : List FromTable) (ref : ColumnRef) (p : Nat) (table : FromTable)
    (k : Nat) : Prop where
  /-- A selection on the entry looks at position `k`. -/
  selection : BoundExpr.bind table.schema (.column ref) = .ok (.column k ref)
  /-- The predicate of a join looks as far behind the columns of the entries before. -/
  join : ∀ m, p < m → ∃ s, Schema.joined ((«from».take m).map FromTable.schema) = .ok s ∧
    BoundExpr.bind s (.column ref) = .ok (.column (offset «from» p + k) ref)
  /-- So does a projection of the whole tree, whatever conjuncts it carries. -/
  projection : ∃ s, Schema.joined («from».map FromTable.schema) = .ok s ∧
    Plan.positionsOfItem s (.expr (.column ref)) = .ok [offset «from» p + k] ∧
    ∀ pending inputs root, inputs.map Plan.schema = «from».map FromTable.schema →
      Planner.joinTree pending inputs = .ok root → root.schema = s
  /-- All of them find the value that the row of the entry has at position `k`. -/
  value : ∀ rows, List.Forall₂ (fun table t => t.length = table.schema.length) «from» rows →
    ∃ (row : Tuple) (v : Value), rows[p]? = some row ∧ row.get? k = some v ∧
      ∀ m, p < m → (Tuple.concat (rows.take m)).get? (offset «from» p + k) = some v

/-- Rows of the first entries have a value for each of their columns. -/
theorem length_concat_take {rows : List Tuple}
    (hrows : List.Forall₂ (fun table t => t.length = table.schema.length) «from» rows) :
    (Tuple.concat (rows.take p)).length = offset «from» p := by
  induction hrows generalizing p with
  | nil =>
    rw [List.take_nil]
    rfl
  | cons hlength _ ih =>
    cases p with
    | zero => rfl
    | succ p =>
      rw [offset, ← ih, ← hlength]
      exact List.length_append

/-- The rows of the first entries hold the value of a column at the offset of its entry. -/
theorem get?_concat_take {table : FromTable} {rows : List Tuple}
    (hrows : List.Forall₂ (fun table t => t.length = table.schema.length) «from» rows)
    (htable : «from»[p]? = some table) (hk : k < table.schema.length) :
    ∃ (row : Tuple) (v : Value), rows[p]? = some row ∧ row.get? k = some v ∧
      ∀ m, p < m → (Tuple.concat (rows.take m)).get? (offset «from» p + k) = some v := by
  obtain ⟨row, hrow, hlength⟩ := forall₂_getElem? hrows htable
  have hlt : k < row.length := hlength ▸ hk
  refine ⟨row, row.values[k], hrow, List.getElem?_eq_getElem hlt, fun m hm => ?_⟩
  obtain ⟨hsplit, -⟩ := eq_append_of_getElem? ((List.getElem?_take_of_lt hm).trans hrow)
  rw [List.take_take, Nat.min_eq_left (Nat.le_of_lt hm)] at hsplit
  rw [← length_concat_take hrows, hsplit, Tuple.get?_concat _ _ hlt]
  exact List.getElem?_eq_getElem hlt

/-- **A reference reads the same stored column in selections, joins and projections**: the one of
the entry that it is attributed to. -/
theorem reads_of_referenced (hfrom : Qualified «from»)
    (hnodup : ∀ table ∈ «from», table.schema.columns.Nodup)
    (h : (Expr.column ref).referencedTables «from» = .ok [p]) :
    ∃ table k, «from»[p]? = some table ∧ table.schema.indexOf ref.table ref.column = .ok k ∧
      Reads «from» ref p table k := by
  have hposition : ref.position «from» = .ok p := by
    obtain ⟨q, hq, hposition⟩ :=
      (Expr.referencedTables_eq_ok hfrom h).2 ref (List.mem_singleton_self ref)
    rwa [List.mem_singleton.1 hq] at hposition
  obtain ⟨table, k, htable, hk, htake⟩ := indexOf_take hfrom hposition
  have hp : p < «from».length := (List.getElem?_eq_some_iff.1 htable).1
  have hall := htake «from».length hp
  rw [List.take_length] at hall
  have hjoined := Schema.joined_eq_ok (hfrom.nodup_concat hnodup)
  refine ⟨table, k, htable, hk, ?_, ?_, ?_, ?_⟩
  · exact bind_eq_ok_iff.2 ⟨k, hk, rfl⟩
  · intro m hm
    have hnodupTake := (hfrom.take m).nodup_concat fun t ht => hnodup t (List.mem_of_mem_take ht)
    exact ⟨_, Schema.joined_eq_ok hnodupTake, bind_eq_ok_iff.2 ⟨_, htake m hm, rfl⟩⟩
  · refine ⟨_, hjoined, bind_eq_ok_iff.2 ⟨_, hall, rfl⟩, ?_⟩
    intro pending inputs root hinputs hroot
    have htree := joined_of_joinTree hroot
    rw [hinputs, hjoined] at htree
    exact (Except.ok.inj htree).symm
  · intro rows hrows
    exact get?_concat_take hrows htable (Schema.lt_of_indexOf hk)

end Entries

/-- Entries that share column names. -/
def overlapping : List FromTable :=
  [⟨"S", .forTable "S" ["A", "B"]⟩, ⟨"R", .forTable "R" ["A", "C"]⟩,
    ⟨"T", .forTable "T" ["B", "A"]⟩]

/-- The second column of the third entry is found behind the four columns of the other entries, two
of which have its name. -/
theorem reads_overlapping : Qualified overlapping ∧
    (∀ table ∈ overlapping, table.schema.columns.Nodup) ∧
    (Expr.column ⟨some "T", "A"⟩).referencedTables overlapping = .ok [2] ∧
    offset overlapping 2 = 4 ∧
    Reads overlapping ⟨some "T", "A"⟩ 2 ⟨"T", .forTable "T" ["B", "A"]⟩ 1 := by
  have hfrom : Qualified overlapping := ⟨by decide, by decide⟩
  have hnodup : ∀ table ∈ overlapping, table.schema.columns.Nodup := by decide
  have hreferenced : (Expr.column ⟨some "T", "A"⟩).referencedTables overlapping = .ok [2] := by
    decide
  obtain ⟨table, k, htable, hk, hreads⟩ := reads_of_referenced hfrom hnodup hreferenced
  obtain rfl : _ = table := Option.some.inj htable
  have hindex : (Schema.forTable "T" ["B", "A"]).indexOf (some "T") "A" = .ok 1 := by decide
  obtain rfl : 1 = k := Except.ok.inj (hindex.symm.trans hk)
  exact ⟨hfrom, hnodup, hreferenced, by decide, hreads⟩

end FlatQuery
