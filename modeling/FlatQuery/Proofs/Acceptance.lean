import FlatQuery.Proofs.Offsets
import FlatQuery.Proofs.Registration
import FlatQuery.Proofs.Resolution

set_option autoImplicit false

/-! # Acceptance

Which statements are planned. The planner checks a block in five places, each against other columns;
`Select.WellFormed` says in one place what a block must be like, and `plan_ok_iff` that this is all.
Every conjunct that binds at its place binds to the whole FROM list and the other way round
(`binds_single_iff`, `binds_take_iff`), so that scans and joins accept what the whole list does. -/

namespace FlatQuery

namespace Plan

variable {p q : Plan} {es : List Expr}

theorem exists_predicate_iff {s : Schema} {e : Expr} :
    (∃ predicate, Predicate.bind s e = .ok predicate) ↔ e.Binds s := by
  unfold Predicate.bind Expr.Binds
  rw [exists_bind_iff]
  exact ⟨fun ⟨b, hb, _⟩ => ⟨b, hb⟩, fun ⟨b, hb⟩ => ⟨b, hb, _, rfl⟩⟩

theorem exists_selectBy_iff {e : Expr} : (∃ q, p.selectBy e = .ok q) ↔ e.Binds p.schema := by
  unfold selectBy
  rw [exists_bind_iff, ← exists_predicate_iff]
  exact ⟨fun ⟨b, hb, _⟩ => ⟨b, hb⟩, fun ⟨b, hb⟩ => ⟨b, hb, _, rfl⟩⟩

/-- A join is built if no column comes twice and all conjuncts bind to the joined columns. -/
theorem exists_joinOn_iff :
    (∃ r, p.joinOn q (Expr.conjunction es) = .ok r) ↔
      (p.schema ++ q.schema).columns.Nodup ∧ ∀ e ∈ es, e.Binds (p.schema ++ q.schema) := by
  unfold joinOn Schema.join
  rw [exists_bind_iff]
  simp only [Schema.ofColumns_eq_ok_iff]
  cases es with
  | nil => exact ⟨fun ⟨s, ⟨hnodup, _⟩, _⟩ => ⟨hnodup, by simp⟩, fun h => ⟨_, ⟨h.1, rfl⟩, _, rfl⟩⟩
  | cons e es =>
    rw [← Expr.binds_foldl_and, ← exists_predicate_iff]
    constructor
    · rintro ⟨s, ⟨hnodup, rfl⟩, h⟩
      obtain ⟨predicate, hpredicate, -⟩ := exists_bind_iff.1 h
      exact ⟨hnodup, predicate, hpredicate⟩
    · rintro ⟨hnodup, predicate, hpredicate⟩
      exact ⟨_, ⟨hnodup, rfl⟩, exists_bind_iff.2 ⟨predicate, hpredicate, _, rfl⟩⟩

end Plan

/-! ## Scans and joins -/

section Tree

variable {d : Catalog} {sources : List Source} {n : Nat} {placed : List Planner.Placed}
  {conjuncts : List Expr} {s : Source} {root right p : Plan} {ps : List Plan}
  {pending : List Planner.Pending}

theorem exists_input_iff (hscan : Plan.scanOf d s.qualifier = .ok s.scan) :
    (∃ p, Planner.input d placed n s.fromTable = .ok p) ↔
      ∀ e ∈ Planner.selectionsAt placed n, e.Binds s.schema := by
  have hscan' : Plan.scanOf d s.fromTable.qualifier = .ok s.scan := hscan
  unfold Planner.input
  rw [exists_bind_iff, hscan']
  cases Planner.selectionsAt placed n with
  | nil => exact ⟨fun _ => by simp, fun _ => ⟨_, rfl, _, rfl⟩⟩
  | cons e es =>
    rw [← Expr.binds_foldl_and]
    constructor
    · rintro ⟨scan, heq, h⟩
      cases heq
      exact Plan.exists_selectBy_iff.1 h
    · intro h
      exact ⟨_, rfl, Plan.exists_selectBy_iff.2 h⟩

theorem schema_input (hscan : Plan.scanOf d s.qualifier = .ok s.scan)
    (h : Planner.input d placed n s.fromTable = .ok p) : p.schema = s.schema := by
  obtain ⟨scan, hscan', h⟩ := bind_eq_ok_iff.1 h
  obtain rfl : s.scan = scan := Except.ok.inj (hscan.symm.trans hscan')
  split at h
  · cases h
    rfl
  · obtain ⟨predicate, -, h⟩ := bind_eq_ok_iff.1 h
    cases h
    rfl

/-- The inputs are built if on each scan the conjuncts that belong there bind. -/
theorem exists_inputs_iff (hscans : ∀ s ∈ sources, Plan.scanOf d s.qualifier = .ok s.scan) :
    (∃ ps, Planner.inputs d placed n (entriesOf sources) = .ok ps) ↔
      ∀ k s, sources[k]? = some s → ∀ e ∈ Planner.selectionsAt placed (n + k), e.Binds s.schema := by
  induction sources generalizing n with
  | nil => exact ⟨fun _ k s hs => by simp at hs, fun _ => ⟨[], rfl⟩⟩
  | cons s sources ih =>
    obtain ⟨hscan, hscans⟩ := List.forall_mem_cons.1 hscans
    show (∃ ps, (Planner.input d placed n s.fromTable >>= fun first => _) = .ok ps) ↔ _
    rw [exists_bind_iff]
    constructor
    · rintro ⟨first, hfirst, h⟩ k t ht
      obtain ⟨others, hothers, -⟩ := exists_bind_iff.1 h
      cases k with
      | zero =>
        obtain rfl : s = t := Option.some.inj ht
        exact (exists_input_iff hscan).1 ⟨first, hfirst⟩
      | succ k =>
        rw [← Nat.add_assoc, Nat.add_right_comm n k 1]
        exact (ih hscans).1 ⟨others, hothers⟩ k t ht
    · intro h
      obtain ⟨first, hfirst⟩ := (exists_input_iff hscan).2 (h 0 s rfl)
      obtain ⟨others, hothers⟩ := (ih hscans).2 fun k t ht => by
        rw [Nat.add_right_comm n 1 k]
        exact h (k + 1) t ht
      exact ⟨first, hfirst, exists_bind_iff.2 ⟨others, hothers, _, rfl⟩⟩

theorem schema_inputs (hscans : ∀ s ∈ sources, Plan.scanOf d s.qualifier = .ok s.scan)
    (h : Planner.inputs d placed n (entriesOf sources) = .ok ps) :
    ps.map Plan.schema = sources.map Source.schema := by
  induction sources generalizing n ps with
  | nil =>
    cases h
    rfl
  | cons s sources ih =>
    obtain ⟨hscan, hscans⟩ := List.forall_mem_cons.1 hscans
    obtain ⟨first, hfirst, h⟩ := bind_eq_ok_iff.1 h
    obtain ⟨others, hothers, h⟩ := bind_eq_ok_iff.1 h
    cases h
    rw [List.map_cons, List.map_cons, schema_input hscan hfirst, ih hscans hothers]

/-- Whether a conjunct that waits in front of the entry at position `n` can be attached at some
join: it refers to no entry after its last, which is still to come. -/
def Planner.Pending.Waits (sources : List Source) (n : Nat) (q : Planner.Pending) : Prop :=
  q.conjunct.Within (entriesOf sources) (q.last + 1) ∧ n ≤ q.last ∧ q.last < sources.length

theorem nodup_concat (hfrom : Qualified (entriesOf sources))
    (hnodup : ∀ s ∈ sources, s.schema.columns.Nodup) : (schemaOf sources).columns.Nodup := by
  rw [← concat_entriesOf]
  exact hfrom.nodup_concat (List.forall_mem_map.2 hnodup)

theorem nodup_take (hnodup : (schemaOf sources).columns.Nodup) (n : Nat) :
    (schemaOf (sources.take n)).columns.Nodup := by
  have hsplit : schemaOf sources = schemaOf (sources.take n) ++ schemaOf (sources.drop n) := by
    unfold schemaOf
    rw [← Schema.concat_append, ← List.map_append, List.take_append_drop]
  rw [hsplit] at hnodup
  exact (List.nodup_append.1 hnodup).1

/-- A conjunct on the first entries binds to them if it binds to all. -/
theorem binds_schemaOf_take_iff (hfrom : Qualified (entriesOf sources)) {e : Expr}
    (hwithin : e.Within (entriesOf sources) n) :
    e.Binds (schemaOf (sources.take n)) ↔ e.Binds (schemaOf sources) := by
  rw [← concat_take_entriesOf, ← concat_entriesOf]
  exact binds_take_iff hfrom hwithin

theorem schema_joinOn {es : List Expr} (h : root.joinOn right (Expr.conjunction es) = .ok p) :
    p.schema = root.schema ++ right.schema := by
  obtain ⟨-, predicate, rfl, -⟩ := Plan.joinOn_eq_ok h
  rfl

/-! ### One join -/

/-- The next input of a tree over the first entries is that of the next entry, and together they
have the columns of the entries so far. -/
theorem schema_next (hroot : root.schema = schemaOf (sources.take n))
    (hps : (right :: ps).map Plan.schema = (sources.drop n).map Source.schema) :
    root.schema ++ right.schema = schemaOf (sources.take (n + 1)) ∧
      ps.map Plan.schema = (sources.drop (n + 1)).map Source.schema := by
  obtain ⟨s, hs, hright, hrest⟩ : ∃ s, sources[n]? = some s ∧ right.schema = s.schema ∧
      ps.map Plan.schema = (sources.drop (n + 1)).map Source.schema := by
    rw [← List.head?_drop, ← List.tail_drop]
    cases hdrop : sources.drop n with
    | nil =>
      rw [hdrop] at hps
      cases hps
    | cons s others =>
      rw [hdrop] at hps
      exact ⟨s, rfl, (List.cons.inj hps).1, (List.cons.inj hps).2⟩
  refine ⟨?_, hrest⟩
  rw [hroot, hright, ← concat_take_entriesOf, ← concat_take_entriesOf, concat_take_add_one hs]

/-- What a join takes of the conjuncts that wait refers to the entries so far. -/
theorem within_ready (hpending : ∀ q ∈ pending, q.Waits sources n) :
    ∀ e ∈ (pending.filter (·.last ≤ n)).map Planner.Pending.conjunct,
      e.Within (entriesOf sources) (n + 1) := by
  intro e he
  obtain ⟨q, hq, rfl⟩ := List.mem_map.1 he
  obtain ⟨hmem, hle⟩ := List.mem_filter.1 hq
  exact (hpending q hmem).1.mono (Nat.succ_le_succ (of_decide_eq_true hle))

/-- What a join leaves of them waits for an entry behind it. -/
theorem waits_waiting (hpending : ∀ q ∈ pending, q.Waits sources n) :
    ∀ q ∈ pending.filter (fun q => !(q.last ≤ n)), q.Waits sources (n + 1) := by
  intro q hq
  obtain ⟨hmem, hlast⟩ := List.mem_filter.1 hq
  obtain ⟨hwithin, -, hlt⟩ := hpending q hmem
  have hlater : n < q.last := by simpa using hlast
  exact ⟨hwithin, hlater, hlt⟩

/-- Nothing waits behind the last entry. -/
theorem pending_eq_nil (hps : ([] : List Plan).map Plan.schema = (sources.drop n).map Source.schema)
    (hpending : ∀ q ∈ pending, q.Waits sources n) : pending = [] := by
  have hend : sources.length ≤ n := List.drop_eq_nil_iff.1 (List.map_eq_nil_iff.1 hps.symm)
  rw [List.eq_nil_iff_forall_not_mem]
  intro q hq
  obtain ⟨-, hle, hlt⟩ := hpending q hq
  omega

/-! ### All joins -/

/-- A tree over the first entries is joined with all others if the conjuncts that wait bind. -/
theorem exists_joinAll_iff (hfrom : Qualified (entriesOf sources))
    (hnodup : (schemaOf sources).columns.Nodup) (hroot : root.schema = schemaOf (sources.take n))
    (hps : ps.map Plan.schema = (sources.drop n).map Source.schema)
    (hpending : ∀ q ∈ pending, q.Waits sources n) :
    (∃ p, Planner.joinAll root n pending ps = .ok (p, [])) ↔
      ∀ q ∈ pending, q.conjunct.Binds (schemaOf sources) := by
  induction ps generalizing n root pending with
  | nil =>
    rw [pending_eq_nil hps hpending]
    exact ⟨fun _ => by simp, fun _ => ⟨root, rfl⟩⟩
  | cons right rest ih =>
    obtain ⟨hschema, hrest⟩ := schema_next hroot hps
    have hready := within_ready hpending
    have hwaiting := waits_waiting hpending
    rw [joinAll_cons]
    constructor
    · rintro ⟨p, h⟩ q hq
      obtain ⟨joined, hjoin, h⟩ := bind_eq_ok_iff.1 h
      by_cases hlast : q.last ≤ n
      · have hmem : q.conjunct ∈ (pending.filter (·.last ≤ n)).map Planner.Pending.conjunct :=
          List.mem_map_of_mem (List.mem_filter.2 ⟨hq, decide_eq_true hlast⟩)
        have hbinds := (Plan.exists_joinOn_iff.1 ⟨joined, hjoin⟩).2 _ hmem
        rw [hschema] at hbinds
        exact (binds_schemaOf_take_iff hfrom (hready _ hmem)).1 hbinds
      · exact (ih ((schema_joinOn hjoin).trans hschema) hrest hwaiting).1 ⟨p, h⟩ q
          (List.mem_filter.2 ⟨hq, by simpa using hlast⟩)
    · intro hall
      obtain ⟨joined, hjoin⟩ : ∃ joined, root.joinOn right (Expr.conjunction
          ((pending.filter (·.last ≤ n)).map Planner.Pending.conjunct)) = .ok joined := by
        rw [Plan.exists_joinOn_iff, hschema]
        refine ⟨nodup_take hnodup (n + 1), fun e he => ?_⟩
        rw [binds_schemaOf_take_iff hfrom (hready e he)]
        obtain ⟨q, hq, rfl⟩ := List.mem_map.1 he
        exact hall q (List.mem_filter.1 hq).1
      obtain ⟨p, h⟩ := (ih ((schema_joinOn hjoin).trans hschema) hrest hwaiting).2
        fun q hq => hall q (List.mem_filter.1 hq).1
      exact ⟨p, bind_eq_ok_iff.2 ⟨joined, hjoin, h⟩⟩

/-- A join tree has the columns of all its inputs. -/
theorem schema_joinAll {waiting : List Planner.Pending}
    (h : Planner.joinAll root n pending ps = .ok (p, waiting)) :
    p.schema = root.schema ++ .concat (ps.map Plan.schema) := by
  induction ps generalizing root n pending with
  | nil =>
    cases h
    exact congrArg Schema.mk (List.append_nil _).symm
  | cons right rest ih =>
    rw [joinAll_cons] at h
    obtain ⟨joined, hjoin, h⟩ := bind_eq_ok_iff.1 h
    rw [ih h, schema_joinOn hjoin]
    exact congrArg Schema.mk (List.append_assoc ..)

theorem joinTree_eq_ok_iff (first : Plan) :
    Planner.joinTree pending (first :: ps) = .ok p ↔
      Planner.joinAll first 1 pending ps = .ok (p, []) := by
  show (Planner.joinAll first 1 pending ps >>= fun result => _) = .ok p ↔ _
  rw [bind_eq_ok_iff]
  constructor
  · rintro ⟨⟨root, waiting⟩, hroot, h⟩
    cases waiting with
    | nil =>
      cases h
      exact hroot
    | cons q waiting => cases h
  · intro h
    exact ⟨_, h, rfl⟩

theorem schema_joinTree (hps : ps.map Plan.schema = sources.map Source.schema)
    (h : Planner.joinTree pending ps = .ok p) : p.schema = schemaOf sources := by
  cases ps with
  | nil => cases h
  | cons first rest =>
    rw [schema_joinAll ((joinTree_eq_ok_iff first).1 h), schemaOf, ← hps]
    rfl

theorem exists_joinTree_iff (hne : sources ≠ []) (hfrom : Qualified (entriesOf sources))
    (hnodup : (schemaOf sources).columns.Nodup)
    (hps : ps.map Plan.schema = sources.map Source.schema)
    (hpending : ∀ q ∈ pending, q.Waits sources 1) :
    (∃ p, Planner.joinTree pending ps = .ok p) ↔
      ∀ q ∈ pending, q.conjunct.Binds (schemaOf sources) := by
  cases sources with
  | nil => exact absurd rfl hne
  | cons s sources =>
    cases ps with
    | nil => cases hps
    | cons first rest =>
      obtain ⟨hfirst, hrest⟩ := List.cons.inj hps
      simp only [joinTree_eq_ok_iff]
      refine exists_joinAll_iff hfrom hnodup ?_ hrest hpending
      rw [hfirst]
      exact (Schema.concat_singleton s.schema).symm

/-! ## Places -/

theorem Expr.exists_placement_iff {«from» : List FromTable} {e : Expr} :
    (∃ place, e.placement «from» = .ok place) ↔
      ∀ ref ∈ e.columns, ∃ k, ref.position «from» = .ok k := by
  unfold placement referencedTables
  rw [exists_bind_iff, ← exists_mapM_iff]
  constructor
  · rintro ⟨ps, hps, -⟩
    obtain ⟨positions, hpositions, -⟩ := bind_eq_ok_iff.1 hps
    exact ⟨positions, hpositions⟩
  · rintro ⟨positions, hpositions⟩
    exact ⟨_, bind_eq_ok_iff.2 ⟨positions, hpositions, rfl⟩, _, rfl⟩

theorem exists_placeAll_iff {«from» : List FromTable} :
    (∃ placed, Planner.placeAll «from» conjuncts = .ok placed) ↔
      ∀ e ∈ conjuncts, ∃ place, e.placement «from» = .ok place := by
  unfold Planner.placeAll
  rw [exists_mapM_iff]
  refine forall₂_congr fun e he => ?_
  rw [exists_bind_iff]
  exact ⟨fun ⟨place, hplace, _⟩ => ⟨place, hplace⟩, fun ⟨place, hplace⟩ => ⟨place, hplace, _, rfl⟩⟩

/-- What waits for a join can be attached at one. -/
theorem waits_of_mem_pendingOf (hfrom : Qualified (entriesOf sources))
    (hplaced : Planner.placeAll (entriesOf sources) conjuncts = .ok placed)
    {q : Planner.Pending} (hq : q ∈ Planner.pendingOf placed) : q.Waits sources 1 := by
  obtain ⟨-, ps, hps, hle⟩ := Planner.mem_pendingOf hfrom hplaced hq
  obtain ⟨hfirst, hlast⟩ := Planner.last_of_mem_pendingOf hfrom hplaced hq
  rw [entriesOf, List.length_map] at hlast
  exact ⟨⟨ps, hps, fun k hk => Nat.lt_succ_of_le (hle k hk)⟩, hfirst, hlast⟩

/-- The conjuncts bind at their places exactly when all of them bind to the whole FROM list. -/
theorem binds_places_iff (hne : sources ≠ []) (hfrom : Qualified (entriesOf sources))
    (hplaced : Planner.placeAll (entriesOf sources) conjuncts = .ok placed) :
    ((∀ k s, sources[k]? = some s → ∀ e ∈ Planner.selectionsAt placed (0 + k), e.Binds s.schema) ∧
        ∀ q ∈ Planner.pendingOf placed, q.conjunct.Binds (schemaOf sources)) ↔
      ∀ e ∈ conjuncts, e.Binds (schemaOf sources) := by
  have hsingle {k : Nat} {s : Source} (hs : sources[k]? = some s) {e : Expr}
      (he : e ∈ Planner.selectionsAt placed k) : e.Binds s.schema ↔ e.Binds (schemaOf sources) := by
    obtain ⟨-, ps, hps, honly⟩ := Planner.mem_selectionsAt hplaced he
    rw [binds_single_iff hfrom hs hps honly, concat_entriesOf]
  simp only [Nat.zero_add]
  constructor
  · rintro ⟨hselections, hpending⟩ e he
    have hentries : entriesOf sources ≠ [] := mt List.map_eq_nil_iff.1 hne
    rcases Planner.exists_place hfrom hentries hplaced he with ⟨k, hk, he⟩ | ⟨q, hq, rfl⟩
    · rw [entriesOf, List.length_map] at hk
      have hs := List.getElem?_eq_getElem hk
      exact (hsingle hs he).1 (hselections k _ hs e he)
    · exact hpending q hq
  · intro hall
    constructor
    · intro k s hs e he
      exact (hsingle hs he).2 (hall e (Planner.mem_selectionsAt hplaced he).1)
    · intro q hq
      exact hall _ (Planner.mem_pendingOf hfrom hplaced hq).1

/-! ## Blocks -/

/-- The join tree of a FROM list whose conjuncts have been placed: the scans with their selections,
and the joins of them. -/
def Planner.buildTree (catalog : Catalog) (placed : List Planner.Placed)
    («from» : List FromTable) : Except Error Plan := do
  let scans ← Planner.inputs catalog placed 0 «from»
  Planner.joinTree (Planner.pendingOf placed) scans

/-- A block is planned in three steps: the conjuncts are placed, the tree is built, and the clauses
that stand above it are put on top. -/
theorem assemble_eq (d : Catalog) (block : Select) («from» : List FromTable) :
    Planner.assemble d block «from» =
      Planner.placeAll «from» block.conjuncts >>= fun placed =>
        Planner.buildTree d placed «from» >>= Planner.finish block := by
  unfold Planner.assemble Planner.buildTree
  simp only [bind_assoc]
  rfl

theorem schema_buildTree (hscans : ∀ s ∈ sources, Plan.scanOf d s.qualifier = .ok s.scan)
    (h : Planner.buildTree d placed (entriesOf sources) = .ok root) :
    root.schema = schemaOf sources := by
  obtain ⟨inputs, hinputs, h⟩ := bind_eq_ok_iff.1 h
  exact schema_joinTree (schema_inputs hscans hinputs) h

/-- The tree is built if all conjuncts bind to the whole FROM list. -/
theorem exists_buildTree_iff (hne : sources ≠ []) (hfrom : Qualified (entriesOf sources))
    (hnodup : ∀ s ∈ sources, s.schema.columns.Nodup)
    (hscans : ∀ s ∈ sources, Plan.scanOf d s.qualifier = .ok s.scan)
    (hplaced : Planner.placeAll (entriesOf sources) conjuncts = .ok placed) :
    (∃ root, Planner.buildTree d placed (entriesOf sources) = .ok root) ↔
      ∀ e ∈ conjuncts, e.Binds (schemaOf sources) := by
  have hall := nodup_concat hfrom hnodup
  have hwaits : ∀ q ∈ Planner.pendingOf placed, q.Waits sources 1 :=
    fun q hq => waits_of_mem_pendingOf hfrom hplaced hq
  unfold Planner.buildTree
  rw [exists_bind_iff, ← binds_places_iff hne hfrom hplaced]
  constructor
  · rintro ⟨inputs, hinputs, h⟩
    exact ⟨(exists_inputs_iff hscans).1 ⟨inputs, hinputs⟩,
      (exists_joinTree_iff hne hfrom hall (schema_inputs hscans hinputs) hwaits).1 h⟩
  · rintro ⟨hselections, hpending⟩
    obtain ⟨inputs, hinputs⟩ := (exists_inputs_iff hscans).2 hselections
    exact ⟨inputs, hinputs,
      (exists_joinTree_iff hne hfrom hall (schema_inputs hscans hinputs) hwaits).2 hpending⟩

theorem exists_finish_iff {block : Select} :
    (∃ p, Planner.finish block root = .ok p) ↔
      (∀ item ∈ block.items, item.Resolves root.schema) ∧
        ∀ key ∈ block.orderBy, (root.schema.projected block.items).Resolves key := by
  rw [Planner.finish_eq, exists_bind_iff, ← Plan.exists_projectTo_iff]
  have hsort {projected : Plan} (hprojected : root.projectTo block.items = .ok projected) :
      (∃ sorted, (if block.orderBy.isEmpty then .ok projected
        else projected.sortBy block.orderBy) = .ok sorted) ↔
        ∀ key ∈ block.orderBy, (root.schema.projected block.items).Resolves key := by
    rw [← Plan.schema_projectTo hprojected, ← Plan.exists_sortBy_iff]
    cases hkeys : block.orderBy with
    | nil => exact ⟨fun _ => ⟨_, rfl⟩, fun _ => ⟨_, rfl⟩⟩
    | cons key keys => rfl
  constructor
  · rintro ⟨projected, hprojected, h⟩
    obtain ⟨sorted, hsorted, -⟩ := exists_bind_iff.1 h
    exact ⟨⟨projected, hprojected⟩, (hsort hprojected).1 ⟨sorted, hsorted⟩⟩
  · rintro ⟨⟨projected, hprojected⟩, hkeys⟩
    obtain ⟨sorted, hsorted⟩ := (hsort hprojected).2 hkeys
    exact ⟨projected, hprojected, exists_bind_iff.2 ⟨sorted, hsorted, _, rfl⟩⟩

/-- **A block whose FROM list has been read is planned** if its conjuncts have their columns and bind
to the whole list, its items resolve there, and its keys resolve in the projected columns. -/
theorem exists_assemble_iff {block : Select} (hne : sources ≠ [])
    (hfrom : Qualified (entriesOf sources)) (hnodup : ∀ s ∈ sources, s.schema.columns.Nodup)
    (hscans : ∀ s ∈ sources, Plan.scanOf d s.qualifier = .ok s.scan) :
    (∃ p, Planner.assemble d block (entriesOf sources) = .ok p) ↔
      (∀ e ∈ block.conjuncts, ∃ place, e.placement (entriesOf sources) = .ok place) ∧
        (∀ e ∈ block.conjuncts, e.Binds (schemaOf sources)) ∧
        (∀ item ∈ block.items, item.Resolves (schemaOf sources)) ∧
        ∀ key ∈ block.orderBy, ((schemaOf sources).projected block.items).Resolves key := by
  rw [assemble_eq, exists_bind_iff]
  constructor
  · rintro ⟨placed, hplaced, h⟩
    obtain ⟨root, hroot, h⟩ := exists_bind_iff.1 h
    rw [← schema_buildTree hscans hroot]
    refine ⟨exists_placeAll_iff.1 ⟨placed, hplaced⟩, ?_, exists_finish_iff.1 h⟩
    rw [schema_buildTree hscans hroot]
    exact (exists_buildTree_iff hne hfrom hnodup hscans hplaced).1 ⟨root, hroot⟩
  · rintro ⟨hplaces, hbinds, hfinish⟩
    obtain ⟨placed, hplaced⟩ := exists_placeAll_iff.2 hplaces
    obtain ⟨root, hroot⟩ := (exists_buildTree_iff hne hfrom hnodup hscans hplaced).2 hbinds
    rw [← schema_buildTree hscans hroot] at hfinish
    exact ⟨placed, hplaced, exists_bind_iff.2 ⟨root, hroot, exists_finish_iff.2 hfinish⟩⟩

end Tree

/-! ## Well-formed blocks -/

/-- What a block must be like to be planned. -/
structure Select.WellFormed (c : Catalog) (block : Select) (refs : List TableRef) : Prop where
  /-- The FROM list holds tables and no derived ones. -/
  tables : block.fromItems = refs.map FromItem.table
  qualifiers : (refs.map TableRef.qualifier).Nodup
  /-- Each entry names a registered table: by its own name under an alias, and otherwise by what its
  name is an alias of, or by its name. -/
  registered : ∀ ref ∈ refs, (c.tables.lookup (c.target ref)).isSome
  /-- Some entry has each column of a condition, under its qualifier if the column has one. -/
  columns : ∀ condition ∈ block.conditions, ∀ ref ∈ condition.columns,
    ∃ table ∈ entriesOf (c.sources refs), table.Has ref
  comparisons : ∀ e ∈ block.conjuncts, e.IsComparison
  items : ∀ item ∈ block.items, item.Resolves (schemaOf (c.sources refs))
  keys : ∀ key ∈ block.orderBy,
    ((schemaOf (c.sources refs)).projected block.items).Resolves key

section Blocks

variable {c : Catalog} {block : Select} {refs : List TableRef} {sources : List Source}

/-- The FROM list of a block is not empty. -/
theorem sources_ne_nil (hitems : block.fromItems = refs.map FromItem.table)
    (hsources : refs.map c.source? = sources.map some) : sources ≠ [] := by
  rintro rfl
  rw [List.map_eq_nil_iff.1 hsources] at hitems
  cases hitems

theorem resolves_of_has (hfrom : Qualified (entriesOf sources))
    (hnodup : (schemaOf sources).columns.Nodup) {table : FromTable} {ref : ColumnRef}
    (htable : table ∈ entriesOf sources) (h : table.Has ref) : (schemaOf sources).Resolves ref := by
  obtain ⟨hq, column, hcolumn, hname⟩ := h
  obtain ⟨s, hs, rfl⟩ := List.mem_map.1 htable
  have hmem : column ∈ (schemaOf sources).columns :=
    List.mem_flatMap.2 ⟨s.schema, List.mem_map_of_mem hs, hcolumn⟩
  obtain ⟨q, n⟩ := ref
  obtain rfl : column.name = n := hname
  cases q with
  | none => exact ⟨column, hmem, rfl⟩
  | some q =>
    have hself : column = ⟨q, column.name⟩ := by
      rw [hq q rfl, ← hfrom.columns _ htable column hcolumn]
    exact List.count_eq_one_of_mem hnodup (hself ▸ hmem)

/-- The columns of the conditions are those of the conjuncts. -/
theorem Select.forall_columns_iff {P : ColumnRef → Prop} :
    (∀ condition ∈ block.conditions, ∀ ref ∈ condition.columns, P ref) ↔
      ∀ e ∈ block.conjuncts, ∀ ref ∈ e.columns, P ref := by
  simp only [Select.conjuncts, List.mem_flatMap]
  constructor
  · rintro h e ⟨condition, hcondition, he⟩ ref href
    refine h condition hcondition ref ?_
    rw [← Expr.columns_conjuncts]
    exact List.mem_flatMap.2 ⟨e, he, href⟩
  · intro h condition hcondition ref href
    rw [← Expr.columns_conjuncts] at href
    obtain ⟨e, he, href⟩ := List.mem_flatMap.1 href
    exact h e ⟨condition, hcondition, he⟩ ref href

/-- A conjunct that has been placed binds exactly if it is a comparison. -/
theorem binds_conjunct_iff (hfrom : Qualified (entriesOf sources))
    (hnodup : ∀ s ∈ sources, s.schema.columns.Nodup) {e : Expr} (he : e ∈ block.conjuncts)
    (hplace : ∃ place, e.placement (entriesOf sources) = .ok place) :
    e.Binds (schemaOf sources) ↔ e.IsComparison := by
  obtain ⟨condition, -, hcondition⟩ := List.mem_flatMap.1 he
  rw [Expr.binds_iff (Expr.isConjunction_of_mem_conjuncts hcondition)]
  refine and_iff_left fun ref href => ?_
  have hposition := Expr.exists_placement_iff.1 hplace ref href
  obtain ⟨table, htable, hhas⟩ :=
    (ColumnRef.exists_position_iff hfrom (List.forall_mem_map.2 hnodup)).1 hposition
  exact resolves_of_has hfrom (nodup_concat hfrom hnodup) htable hhas

/-- The conjuncts have their columns and bind exactly when the conditions have their columns and
each conjunct is a comparison. -/
theorem conjuncts_ok_iff (hfrom : Qualified (entriesOf sources))
    (hnodup : ∀ s ∈ sources, s.schema.columns.Nodup) :
    ((∀ e ∈ block.conjuncts, ∃ place, e.placement (entriesOf sources) = .ok place) ∧
        ∀ e ∈ block.conjuncts, e.Binds (schemaOf sources)) ↔
      (∀ condition ∈ block.conditions, ∀ ref ∈ condition.columns,
        ∃ table ∈ entriesOf sources, table.Has ref) ∧
        ∀ e ∈ block.conjuncts, e.IsComparison := by
  have hentries : ∀ table ∈ entriesOf sources, table.schema.columns.Nodup :=
    List.forall_mem_map.2 hnodup
  have hcolumns : (∀ e ∈ block.conjuncts, ∃ place, e.placement (entriesOf sources) = .ok place) ↔
      ∀ condition ∈ block.conditions, ∀ ref ∈ condition.columns,
        ∃ table ∈ entriesOf sources, table.Has ref := by
    simp only [Expr.exists_placement_iff, ColumnRef.exists_position_iff hfrom hentries]
    exact Select.forall_columns_iff.symm
  rw [← hcolumns]
  exact and_congr_right fun hplaces =>
    forall₂_congr fun e he => binds_conjunct_iff hfrom hnodup he (hplaces e he)

/-- A block is planned exactly when it is well-formed, if the registered tables are. -/
theorem exists_planSelect_iff (hc : c.WellFormed) :
    (∃ p, (Planner.planSelect c block).1 = .ok p) ↔ ∃ refs, block.WellFormed c refs := by
  constructor
  · rintro ⟨p, hp⟩
    obtain ⟨refs, sources, d, hitems, hsources, hqualifiers, hscans, hassemble⟩ :=
      Planner.planSelect_eq_ok hp
    have hfrom := qualified_entriesOf hqualifiers hsources
    have hnodup := Catalog.nodup_sources hc hsources
    obtain ⟨hplaces, hbinds, hresolves, hkeys⟩ := (exists_assemble_iff
      (sources_ne_nil hitems hsources) hfrom hnodup hscans).1 ⟨p, hassemble⟩
    obtain ⟨hcolumns, hcomparisons⟩ :=
      (conjuncts_ok_iff hfrom hnodup).1 ⟨hplaces, hbinds⟩
    obtain rfl := Catalog.sources_eq_of_map hsources
    rw [Catalog.qualifiers_of_sources hsources] at hqualifiers
    exact ⟨refs, hitems, hqualifiers, Catalog.registered_of_map hsources, hcolumns, hcomparisons,
      hresolves, hkeys⟩
  · rintro ⟨refs, hblock⟩
    have hsources := Catalog.map_source?_of_registered hblock.registered
    obtain ⟨d, hscans, hplan⟩ :=
      Planner.planSelect_of_sources hblock.tables hblock.qualifiers hsources
    have hqualifiers := hblock.qualifiers
    rw [← Catalog.qualifiers_of_sources hsources] at hqualifiers
    have hfrom := qualified_entriesOf hqualifiers hsources
    have hnodup := Catalog.nodup_sources hc hsources
    obtain ⟨hplaces, hbinds⟩ := (conjuncts_ok_iff hfrom hnodup).2
      ⟨hblock.columns, hblock.comparisons⟩
    rw [hplan]
    exact (exists_assemble_iff (sources_ne_nil hblock.tables hsources) hfrom hnodup hscans).2
      ⟨hplaces, hbinds, hblock.items, hblock.keys⟩

/-- **The planner accepts exactly the well-formed SELECT blocks**, under every catalog that is
reached by registering, loading and planning. -/
theorem plan_ok_iff (dataDir : String) (actions : List Catalog.Action) (statement : Statement) :
    (∃ p, (((Catalog.empty dataDir).after actions).plan statement).1 = .ok p) ↔
      ∃ block refs, statement = .select block ∧
        block.WellFormed ((Catalog.empty dataDir).after actions) refs := by
  cases statement with
  | setOperation op left right =>
    constructor
    · rintro ⟨p, hp⟩
      cases hp
    · rintro ⟨block, refs, heq, -⟩
      cases heq
  | select block =>
    refine (exists_planSelect_iff (Catalog.wellFormed_after dataDir actions)).trans ?_
    constructor
    · rintro ⟨refs, hblock⟩
      exact ⟨block, refs, rfl, hblock⟩
    · rintro ⟨block', refs, heq, hblock⟩
      cases heq
      exact ⟨refs, hblock⟩

end Blocks

end FlatQuery
