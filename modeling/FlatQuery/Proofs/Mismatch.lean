import FlatQuery.Proofs.Acceptance
import FlatQuery.Proofs.Phases

set_option autoImplicit false

/-! # Type errors

Once the conjuncts of a block have been placed, its join tree can fail in one way only. Placing them
has shown that their columns are there, so that binding complains of nothing but a truth value in
the place of a number or the reverse. Distinct qualifiers keep the columns of a join distinct, and
each conjunct that waits is taken by a join (`mistyped_joinAll`). So the tree fails exactly if some
conjunct is not a comparison (`mistyped_tree`). -/

namespace FlatQuery

/-- Whether an error says that an expression of one kind stands where the other kind is needed. -/
def Error.OfKinds (e : Error) : Prop := ∃ expected text, e = .typeMismatch expected text

open Error

theorem ofKinds_typeMismatch (expected : ExprKind) (text : String) :
    OfKinds (.typeMismatch expected text) :=
  ⟨expected, text, rfl⟩

/-! ## Columns of placed conjuncts -/

section Columns

variable {«from» : List FromTable} {e : Expr} {es : List Expr} {n : Nat}

/-- The columns of a conjunction are those of its parts. -/
theorem exists_part_of_mem_columns (hes : Expr.conjunction es = some e) {ref : ColumnRef}
    (href : ref ∈ e.columns) : ∃ e' ∈ es, ref ∈ e'.columns := by
  cases es with
  | nil => cases hes
  | cons e' es =>
    cases hes
    induction es generalizing e' with
    | nil => exact ⟨e', List.mem_singleton_self e', href⟩
    | cons e'' es ih =>
      obtain ⟨part, hpart, href⟩ := ih (.and e' e'') href
      rcases List.mem_cons.1 hpart with rfl | hpart
      · rcases List.mem_append.1 href with href | href
        · exact ⟨e', List.mem_cons_self .., href⟩
        · exact ⟨e'', List.mem_cons_of_mem _ (List.mem_cons_self ..), href⟩
      · exact ⟨part, List.mem_cons_of_mem _ (List.mem_cons_of_mem _ hpart), href⟩

/-- What resolves in the columns of all parts is found for the conjunction. -/
theorem indexed_conjunction {s : Schema} (hes : Expr.conjunction es = some e)
    (h : ∀ e' ∈ es, ∀ ref ∈ e'.columns, s.Resolves ref) :
    ∀ ref ∈ e.columns, FailsAs OfKinds (s.indexOf ref.table ref.column) := by
  intro ref href
  obtain ⟨e', he', href⟩ := exists_part_of_mem_columns hes href
  exact .of_exists (Schema.resolves_iff.1 (h e' he' ref href))

/-- The columns of a conjunct on the first entries resolve in their columns. -/
theorem Expr.Within.resolves (hfrom : Qualified «from») (h : e.Within «from» n) :
    ∀ ref ∈ e.columns, (Schema.concat ((«from».take n).map FromTable.schema)).Resolves ref := by
  obtain ⟨ps, hps, hlt⟩ := h
  intro ref href
  obtain ⟨k, hk, hposition⟩ := (Expr.referencedTables_eq_ok hfrom hps).2 ref href
  obtain ⟨table, i, -, -, htake⟩ := indexOf_take hfrom hposition
  exact Schema.resolves_iff.2 ⟨_, htake n (hlt k hk)⟩

/-- The columns of a conjunct on one entry resolve in its columns. -/
theorem resolves_single (hfrom : Qualified «from») {table : FromTable}
    (htable : «from»[n]? = some table) {ps : List Nat} (hps : e.referencedTables «from» = .ok ps)
    (honly : ∀ k ∈ ps, k = n) : ∀ ref ∈ e.columns, table.schema.Resolves ref := by
  intro ref href
  obtain ⟨k, hk, hposition⟩ := (Expr.referencedTables_eq_ok hfrom hps).2 ref href
  obtain ⟨table', i, htable', hi, -⟩ := indexOf_take hfrom hposition
  rw [honly k hk, htable, Option.some.injEq] at htable'
  subst htable'
  exact Schema.resolves_iff.2 ⟨i, hi⟩

end Columns

/-! ## Scans and joins -/

section Tree

variable {d : Catalog} {sources : List Source} {n : Nat} {placed : List Planner.Placed}
  {conjuncts es : List Expr} {s : Source} {root right : Plan} {ps : List Plan}
  {pending : List Planner.Pending}

theorem mistyped_input (hscan : Plan.scanOf d s.qualifier = .ok s.scan)
    (h : ∀ e ∈ Planner.selectionsAt placed n, ∀ ref ∈ e.columns, s.schema.Resolves ref) :
    FailsAs OfKinds (Planner.input d placed n s.fromTable) := by
  refine FailsAs.bind (.of_exists ⟨_, hscan⟩) fun scan hscan' => ?_
  obtain rfl : s.scan = scan := Except.ok.inj (hscan.symm.trans hscan')
  split
  · exact .ok _
  · next hes => exact Plan.fails_selectBy ofKinds_typeMismatch (indexed_conjunction hes h)

/-- A join without common columns fails for the kind of a conjunct only. -/
theorem mistyped_joinOn (hnodup : (root.schema ++ right.schema).columns.Nodup)
    (h : ∀ e ∈ es, ∀ ref ∈ e.columns, (root.schema ++ right.schema).Resolves ref) :
    FailsAs OfKinds (root.joinOn right (Expr.conjunction es)) :=
  Plan.fails_joinOn ofKinds_typeMismatch
    (.of_exists ⟨_, Schema.ofColumns_eq_ok_iff.2 ⟨hnodup, rfl⟩⟩)
    fun _ hes => indexed_conjunction hes h

/-- **Joining the entries one after the other fails for the kind of a conjunct only**, and leaves no
conjunct over. -/
theorem mistyped_joinAll (hfrom : Qualified (entriesOf sources))
    (hnodup : (schemaOf sources).columns.Nodup) (hroot : root.schema = schemaOf (sources.take n))
    (hps : ps.map Plan.schema = (sources.drop n).map Source.schema)
    (hpending : ∀ q ∈ pending, q.Waits sources n) :
    FailsAs OfKinds (Planner.joinAll root n pending ps) ∧
      ∀ result, Planner.joinAll root n pending ps = .ok result → result.2 = [] := by
  induction ps generalizing n root pending with
  | nil =>
    rw [pending_eq_nil hps hpending]
    refine ⟨.ok _, ?_⟩
    rintro result ⟨⟩
    rfl
  | cons right rest ih =>
    obtain ⟨hschema, hrest⟩ := schema_next hroot hps
    have hjoin : FailsAs OfKinds (root.joinOn right (Expr.conjunction
        ((pending.filter (·.last ≤ n)).map Planner.Pending.conjunct))) := by
      refine mistyped_joinOn ?_ fun e he => ?_
      · rw [hschema]
        exact nodup_take hnodup (n + 1)
      · rw [hschema, ← concat_take_entriesOf]
        exact (within_ready hpending e he).resolves hfrom
    have hnext {joined : Plan} (h : root.joinOn right (Expr.conjunction
        ((pending.filter (·.last ≤ n)).map Planner.Pending.conjunct)) = .ok joined) :=
      ih ((schema_joinOn h).trans hschema) hrest (waits_waiting hpending)
    rw [joinAll_cons]
    refine ⟨hjoin.bind fun joined h => (hnext h).1, fun result h => ?_⟩
    obtain ⟨joined, hjoined, h⟩ := bind_eq_ok_iff.1 h
    exact (hnext hjoined).2 result h

theorem mistyped_joinTree (hne : sources ≠ []) (hfrom : Qualified (entriesOf sources))
    (hnodup : (schemaOf sources).columns.Nodup)
    (hps : ps.map Plan.schema = sources.map Source.schema)
    (hpending : ∀ q ∈ pending, q.Waits sources 1) :
    FailsAs OfKinds (Planner.joinTree pending ps) := by
  cases sources with
  | nil => exact absurd rfl hne
  | cons s sources =>
    cases ps with
    | nil => cases hps
    | cons first rest =>
      obtain ⟨hfirst, hrest⟩ := List.cons.inj hps
      have hroot : first.schema = schemaOf ((s :: sources).take 1) :=
        hfirst.trans (Schema.concat_singleton s.schema).symm
      obtain ⟨hjoins, hnone⟩ := mistyped_joinAll hfrom hnodup hroot hrest hpending
      refine hjoins.bind fun result hresult => ?_
      obtain ⟨root, waiting⟩ := result
      obtain rfl : waiting = [] := hnone _ hresult
      exact .ok _

/-- The tree of a FROM list whose conjuncts have been placed fails for the kind of one only. -/
theorem mistyped_buildTree (hne : sources ≠ []) (hfrom : Qualified (entriesOf sources))
    (hnodup : ∀ s ∈ sources, s.schema.columns.Nodup)
    (hscans : ∀ s ∈ sources, Plan.scanOf d s.qualifier = .ok s.scan)
    (hplaced : Planner.placeAll (entriesOf sources) conjuncts = .ok placed) :
    FailsAs OfKinds (Planner.buildTree d placed (entriesOf sources)) := by
  have hinputs : FailsAs OfKinds (Planner.inputs d placed 0 (entriesOf sources)) := by
    refine Planner.fails_inputs fun k table htable => ?_
    obtain ⟨s, hs, rfl⟩ := List.mem_map.1 (List.mem_of_getElem? htable)
    refine mistyped_input (hscans s hs) fun e he => ?_
    rw [Nat.zero_add] at he
    obtain ⟨-, ps, hps, honly⟩ := Planner.mem_selectionsAt hplaced he
    exact resolves_single hfrom htable hps honly
  exact hinputs.bind fun inputs h => mistyped_joinTree hne hfrom (nodup_concat hfrom hnodup)
    (schema_inputs hscans h) fun q hq => waits_of_mem_pendingOf hfrom hplaced hq

end Tree

/-! ## Blocks -/

/-- **After the conjuncts are placed, only a type error can stop the join tree**, under every
catalog that is reached by registering, loading and planning. The plan of a block is this tree with
the other clauses on top. Building it fails with a type error or not at all, and it fails exactly if
some conjunct is no comparison of arithmetic expressions. -/
theorem mistyped_tree (dataDir : String) (actions : List Catalog.Action) {block : Select}
    {refs : List TableRef} {«from» : List FromTable} {d : Catalog} {placed : List Planner.Placed}
    (hitems : block.fromItems = refs.map FromItem.table)
    (hread : Planner.readTables ((Catalog.empty dataDir).after actions) [] refs = (.ok «from», d))
    (hplaced : Planner.placeAll «from» block.conjuncts = .ok placed) :
    (((Catalog.empty dataDir).after actions).plan (.select block)).1 =
        Planner.buildTree d placed «from» >>= Planner.finish block ∧
      (∀ e, Planner.buildTree d placed «from» = .error e →
        ∃ expected text, e = .typeMismatch expected text) ∧
      ((∃ e, Planner.buildTree d placed «from» = .error e) ↔
        ∃ e ∈ block.conjuncts, ¬ e.IsComparison) := by
  obtain ⟨sources, hsources, rfl, hqualifiers, hscans⟩ := Planner.sources_of_read hread
  have hne := sources_ne_nil hitems hsources
  have hfrom := qualified_entriesOf hqualifiers hsources
  have hnodup := Catalog.nodup_sources (Catalog.wellFormed_after dataDir actions) hsources
  have hplaces := exists_placeAll_iff.1 ⟨placed, hplaced⟩
  refine ⟨?_, mistyped_buildTree hne hfrom hnodup hscans hplaced, ?_⟩
  · rw [Catalog.plan, Planner.planSelect_of_refs hitems, hread]
    show Planner.assemble d block (sources.map Source.fromTable) = _
    rw [assemble_eq, hplaced]
    rfl
  · have htree := exists_buildTree_iff hne hfrom hnodup hscans hplaced
    rw [exists_error_iff]
    show ¬ (∃ root, Planner.buildTree d placed (entriesOf sources) = .ok root) ↔ _
    rw [htree]
    simp only [not_forall, exists_prop]
    refine exists_congr fun e => and_congr_right fun he => not_congr ?_
    exact binds_conjunct_iff hfrom hnodup he (hplaces e he)

/-- Two tables with a column of one name, and an alias that the block takes for itself. -/
def sumActions : List Catalog.Action :=
  [.register "S" ["A"] none, .register "R" ["A"] none, .registerAlias "X" "S"]

/-- The block `SELECT * FROM S, R X WHERE A = X.A AND A + X.A`. -/
def sumBlock : Select where
  distinct := false
  items := [.wildcard]
  first := .table ⟨"S", none⟩
  joins := [⟨.table ⟨"R", some "X"⟩, none⟩]
  condition := some (.and
    (.binary (.compare .eq) (.column ⟨none, "A"⟩) (.column ⟨some "X", "A"⟩))
    (.binary (.arithmetic .add) (.column ⟨none, "A"⟩) (.column ⟨some "X", "A"⟩)))
  orderBy := []

/-- The join of the two tables fails over the sum in the place of a condition. -/
theorem mistyped_tree_sum : ∃ «from» d placed,
    Planner.readTables ((Catalog.empty "data").after sumActions) []
        [⟨"S", none⟩, ⟨"R", some "X"⟩] = (.ok «from», d) ∧
      Planner.placeAll «from» sumBlock.conjuncts = .ok placed ∧
      ∃ expected text,
        Planner.buildTree d placed «from» = .error (.typeMismatch expected text) := by
  have hread : Planner.readTables ((Catalog.empty "data").after sumActions) []
      [⟨"S", none⟩, ⟨"R", some "X"⟩] =
        (.ok [⟨"S", .forTable "S" ["A"]⟩, ⟨"X", .forTable "X" ["A"]⟩],
          { (Catalog.empty "data").after sumActions with aliases := [("X", "R")] }) := by
    decide
  have hplaced : Planner.placeAll [⟨"S", .forTable "S" ["A"]⟩, ⟨"X", .forTable "X" ["A"]⟩]
      sumBlock.conjuncts = .ok (sumBlock.conjuncts.map fun e => ⟨e, .join 0 1⟩) := by
    decide
  obtain ⟨-, hkind, hfails⟩ := mistyped_tree "data" _ rfl hread hplaced
  obtain ⟨e, he⟩ := hfails.2 ⟨.binary (.arithmetic .add) (.column ⟨none, "A"⟩)
    (.column ⟨some "X", "A"⟩), by decide, fun h => h⟩
  obtain ⟨expected, text, rfl⟩ := hkind e he
  exact ⟨_, _, _, hread, hplaced, expected, text, he⟩

end FlatQuery
