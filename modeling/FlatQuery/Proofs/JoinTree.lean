import FlatQuery.Proofs.FromList
import FlatQuery.Proofs.Placements

set_option autoImplicit false

/-! # Join trees

The tree of scans and joins over the first entries of a FROM list is `Planned`: its rows are what
the conjuncts that it has evaluated leave of the product of the entries. An input has only conjuncts
that are at home on its scan (`planned_input`), the first input is planned, and each further join
keeps the tree planned (`Planned.join`). What the first input has and each join keeps holds of the
whole tree (`joinTree_induction`), so at the end all conjuncts have been evaluated
(`planned_joinTree`). -/

namespace FlatQuery

/-! ## Stored tables -/

/-- Whether the file of a source holds some rows, one a line, each with a value for each column. -/
def Source.Holds (fs : FileStore) (s : Source) (rows : List Tuple) : Prop :=
  ∃ source, fs.openFile s.path = .ok source ∧
    List.Forall₂ (fun line t => ∃ text : String, line = .ok text ∧
      Tuple.read text.toList = .ok t ∧ t.length = s.schema.length) source.toList rows

section Holds

variable {fs : FileStore} {s : Source} {rows : List Tuple}

theorem ofLines_eq_ofList {path : String} {arity lineNo : Nat}
    {lines : List (Except IoFault String)}
    (h : List.Forall₂ (fun line t => ∃ text : String, line = .ok text ∧
      Tuple.read text.toList = .ok t ∧ t.length = arity) lines rows) :
    Listing.ofLines path (some arity) lineNo lines = .ofList rows := by
  induction h generalizing lineNo with
  | nil => rfl
  | cons hline _ ih =>
    obtain ⟨text, rfl, hread, hlength⟩ := hline
    rw [Listing.ofLines, ih]
    simp only [Reader.decode, hread, hlength, Option.all_some, decide_true, if_true]
    rfl

theorem Source.Holds.isOk_openFile (h : s.Holds fs rows) : (fs.openFile s.path).isOk := by
  obtain ⟨source, hopen, -⟩ := h
  rw [hopen]
  rfl

theorem Source.Holds.listing_scan (h : s.Holds fs rows) : s.scan.listing fs = .ofList rows := by
  obtain ⟨source, hopen, hlines⟩ := h
  show Listing.ofFile fs s.schema s.path = _
  rw [Listing.ofFile, hopen]
  exact ofLines_eq_ofList hlines

theorem Source.Holds.length_eq (h : s.Holds fs rows) : ∀ t ∈ rows, t.length = s.schema.length := by
  obtain ⟨source, -, hlines⟩ := h
  generalize source.toList = lines at hlines
  induction hlines with
  | nil => simp
  | cons hline _ ih =>
    obtain ⟨text, -, -, hlength⟩ := hline
    exact List.forall_mem_cons.2 ⟨hlength, ih⟩

end Holds

/-! ## Operators -/

namespace Plan

variable {p q r : Plan} {es : List Expr}

theorem eval_of_bind {s : Schema} {e : Expr} {predicate : Predicate}
    (h : Predicate.bind s e = .ok predicate) :
    e.Binds s ∧ ∀ t, predicate.eval t = e.truth s t := by
  obtain ⟨b, hb, h⟩ := bind_eq_ok_iff.1 h
  cases h
  exact ⟨⟨b, hb⟩, fun t => (Expr.truth_of_bind hb).symm⟩

/-- A selection by the conjunction of some conjuncts. -/
theorem selectBy_eq_ok {e : Expr} (hes : Expr.conjunction es = some e) (h : p.selectBy e = .ok q) :
    (∀ e' ∈ es, e'.Binds p.schema) ∧ ∃ predicate, q = .select p predicate ∧
      ∀ t, predicate.eval t = conjoin (es.map (Expr.truth p.schema t)) := by
  obtain ⟨predicate, hpredicate, h⟩ := bind_eq_ok_iff.1 h
  cases h
  obtain ⟨hbinds, heval⟩ := eval_of_bind hpredicate
  refine ⟨Expr.binds_conjunction hes hbinds, predicate, rfl, ?_⟩
  intro t
  rw [heval, Expr.truth_conjunction hes hbinds]

/-- A join on the conjunction of some conjuncts, or on none. -/
theorem joinOn_eq_ok (h : p.joinOn q (Expr.conjunction es) = .ok r) :
    (∀ e ∈ es, e.Binds (p.schema ++ q.schema)) ∧ ∃ predicate, r = .join p q predicate ∧
      ∀ t, accepts predicate t = conjoin (es.map (Expr.truth (p.schema ++ q.schema) t)) := by
  obtain ⟨schema, hschema, h⟩ := bind_eq_ok_iff.1 h
  obtain ⟨-, rfl⟩ := Schema.ofColumns_eq_ok_iff.1 hschema
  cases hes : Expr.conjunction es with
  | none =>
    rw [hes] at h
    cases h
    cases es with
    | nil => exact ⟨by simp, none, rfl, fun t => rfl⟩
    | cons e es => cases hes
  | some e =>
    rw [hes] at h
    obtain ⟨predicate, hpredicate, h⟩ := bind_eq_ok_iff.1 h
    cases h
    obtain ⟨hbinds, heval⟩ := eval_of_bind hpredicate
    refine ⟨Expr.binds_conjunction hes hbinds, some predicate, rfl, ?_⟩
    intro t
    show predicate.eval t = _
    rw [heval, Expr.truth_conjunction hes hbinds]

end Plan

/-! ## Trees over the first entries -/

/-- The entries of a FROM list with the given sources. -/
def entriesOf (sources : List Source) : List FromTable := sources.map Source.fromTable

/-- Whether a tree is the join of the scans of the first `n` sources under some conjuncts. -/
structure Planned (fs : FileStore) (sources : List Source) (rows : List (List Tuple)) (n : Nat)
    (es : List Expr) (p : Plan) : Prop where
  schema_eq : p.schema = .concat (((entriesOf sources).take n).map FromTable.schema)
  sieved : Sieved (Expr.verdict (entriesOf sources)) (Expr.Safe (entriesOf sources) rows) es
    (choices (rows.take n)) (p.listing fs)
  within : ∀ e ∈ es, e.Within (entriesOf sources) n
  binds : ∀ e ∈ es, e.Binds (.concat ((entriesOf sources).map FromTable.schema))

section Tree

variable {fs : FileStore} {d : Catalog} {sources : List Source} {rows : List (List Tuple)}
  {n : Nat} {es ready conjuncts : List Expr} {placed : List Planner.Placed} {root right p : Plan}
  {s : Source}

theorem getElem?_entriesOf (hs : sources[n]? = some s) :
    (entriesOf sources)[n]? = some s.fromTable := by
  rw [entriesOf, List.getElem?_map, hs]
  rfl

theorem length_of_mem_choices {cs : List Tuple} (hn : n ≤ rows.length)
    (hcs : cs ∈ choices (rows.take n)) : cs.length = n := by
  rw [(mem_choices.1 hcs).length_eq, List.length_take_of_le hn]

/-- Choices of stored rows fit the entries. -/
theorem fits_of_mem_choices (hrows : List.Forall₂ (Source.Holds fs) sources rows) {cs : List Tuple}
    (hcs : cs ∈ choices (rows.take n)) : Context.Fits ((entriesOf sources).zip cs) := by
  apply Context.fits_zip
  intro k table t htable ht
  obtain ⟨ts, hts, hmem⟩ := forall₂_getElem? (mem_choices.1 hcs) ht
  rw [entriesOf, List.getElem?_map, Option.map_eq_some_iff] at htable
  obtain ⟨s, hs, rfl⟩ := htable
  obtain ⟨ts', hts', hholds⟩ := forall₂_getElem? hrows hs
  have heq : rows[k]? = some ts := by
    obtain ⟨hlt, -⟩ := List.getElem?_eq_some_iff.1 hts
    rw [List.length_take] at hlt
    rw [← hts, List.getElem?_take_of_lt (by omega)]
  obtain rfl : ts' = ts := Option.some.inj (hts'.symm.trans heq)
  exact hholds.length_eq t hmem

theorem length_take_entriesOf (hrows : List.Forall₂ (Source.Holds fs) sources rows)
    (hn : n ≤ rows.length) {cs : List Tuple} (hcs : cs ∈ choices (rows.take n)) :
    ((entriesOf sources).take n).length = cs.length := by
  rw [length_of_mem_choices hn hcs, List.length_take_of_le]
  rw [entriesOf, List.length_map, hrows.length_eq]
  exact hn

/-- The verdict on a choice of stored rows is the truth value for the whole row. -/
theorem verdict_eq_truth_take (hfrom : Qualified (entriesOf sources))
    (hrows : List.Forall₂ (Source.Holds fs) sources rows) (hn : n ≤ rows.length) {e : Expr}
    (hwithin : e.Within (entriesOf sources) n) {cs : List Tuple}
    (hcs : cs ∈ choices (rows.take n)) :
    e.verdict (entriesOf sources) cs =
      e.truth (.concat (((entriesOf sources).take n).map FromTable.schema)) (.concat cs) := by
  have hlength := length_of_mem_choices hn hcs
  have hlengths := length_take_entriesOf hrows hn hcs
  rw [Expr.verdict_of_within hfrom (fits_of_mem_choices hrows hcs) (hlength.symm ▸ hwithin),
    ← Context.zip_take_length, hlength, Context.schema_zip hlengths, Context.tuple_zip hlengths]

theorem take_add_one_of_getElem? {α : Type} {xs : List α} {x : α} (h : xs[n]? = some x) :
    xs.take (n + 1) = xs.take n ++ [x] := by
  rw [List.take_add_one, h]
  rfl

/-- The next entry adds its columns. -/
theorem concat_take_add_one (hs : sources[n]? = some s) :
    Schema.concat (((entriesOf sources).take (n + 1)).map FromTable.schema) =
      Schema.concat (((entriesOf sources).take n).map FromTable.schema) ++ s.schema := by
  rw [take_add_one_of_getElem? (getElem?_entriesOf hs), List.map_append, Schema.concat_append]
  exact congrArg (_ ++ ·) (Schema.concat_singleton s.schema)

/-- The next entry multiplies the choices by its rows. -/
theorem choices_take_add_one {ts : List Tuple} (hts : rows[n]? = some ts) :
    choices (rows.take (n + 1)) =
      (choices (rows.take n)).flatMap fun cs => ts.map fun u => cs ++ [u] := by
  rw [take_add_one_of_getElem? hts, choices_append_singleton]

/-- A safe conjunct on the first entries has a verdict on each choice of their rows. -/
theorem verdict_ok_of_within (hfrom : Qualified (entriesOf sources)) (hn : n ≤ rows.length)
    {e : Expr} (hwithin : e.Within (entriesOf sources) n) (hsafe : e.Safe (entriesOf sources) rows)
    {cs : List Tuple} (hcs : cs ∈ choices (rows.take n)) :
    ∃ v, e.verdict (entriesOf sources) cs = .ok v := by
  obtain ⟨ps, hps, hlt⟩ := hwithin
  refine hsafe.verdict_ok hfrom hps ?_
  intro k hk
  have hkLt := hlt k hk
  have hkChoice : k < cs.length := by
    rw [length_of_mem_choices hn hcs]
    exact hkLt
  obtain ⟨ts, hts, hin⟩ := forall₂_getElem? (mem_choices.1 hcs) (List.getElem?_eq_getElem hkChoice)
  rw [List.getElem?_take_of_lt hkLt] at hts
  exact ⟨_, ts, List.getElem?_eq_getElem _, hts, hin⟩

/-! ### Conjuncts on one scan -/

section Selections

variable {e : Expr} {ps : List Nat} {u : Tuple}

theorem length_blanks (hs : sources[n]? = some s) :
    (((entriesOf sources).take n).map FromTable.blank).length = n := by
  obtain ⟨hlt, -⟩ := List.getElem?_eq_some_iff.1 (getElem?_entriesOf hs)
  rw [List.length_map, List.length_take_of_le (Nat.le_of_lt hlt)]

/-- A tuple of the next entry after blank tuples fits. -/
theorem fits_blank_append (hs : sources[n]? = some s) (hu : u.length = s.schema.length) :
    Context.Fits ((entriesOf sources).zip
      (((entriesOf sources).take n).map FromTable.blank ++ [u])) := by
  have hn := length_blanks hs
  refine Context.fits_zip ?_
  intro k table t htable ht
  -- blank tuples before the next entry, the tuple at its position, and none after it
  rcases Nat.lt_trichotomy k n with hlt | rfl | hgt
  · rw [List.getElem?_append_left (by omega), List.getElem?_map, List.getElem?_take_of_lt hlt,
      htable] at ht
    obtain rfl : table.blank = t := Option.some.inj ht
    exact List.length_replicate
  · rw [getElem?_entriesOf hs] at htable
    obtain rfl : s.fromTable = table := Option.some.inj htable
    have hlast : (((entriesOf sources).take k).map FromTable.blank ++ [u])[_]? = some u :=
      List.getElem?_concat_length ..
    rw [hn, ht] at hlast
    obtain rfl : t = u := Option.some.inj hlast
    exact hu
  · rw [List.getElem?_eq_none (by rw [List.length_append, hn]; exact hgt)] at ht
    cases ht

/-- A safe conjunct on one entry can be evaluated on its rows, whatever the other entries hold. -/
theorem truth_ok_of_safe (hfrom : Qualified (entriesOf sources)) (hs : sources[n]? = some s)
    {ts : List Tuple} (hts : rows[n]? = some ts) (hholds : s.Holds fs ts)
    (hps : e.referencedTables (entriesOf sources) = .ok ps) (honly : ∀ k ∈ ps, k = n)
    (hsafe : e.Safe (entriesOf sources) rows) (hu : u ∈ ts) :
    ∃ v, e.truth s.schema u = .ok v := by
  have hfits := fits_blank_append hs (hholds.length_eq u hu)
  have htable := getElem?_entriesOf hs
  have hn := length_blanks hs
  rw [← hn] at htable honly
  have hverdict := Expr.verdict_single hfrom hfits htable hps honly
  show ∃ v, e.truth s.fromTable.schema u = .ok v
  rw [← hverdict]
  apply hsafe.verdict_ok hfrom hps
  intro k hk
  rw [honly k hk]
  exact ⟨u, ts, List.getElem?_concat_length .., by rw [hn, hts], hu⟩

/-- A conjunct on one entry is bound there exactly when it is bound to the whole FROM list. -/
theorem binds_single_iff (hfrom : Qualified (entriesOf sources)) (hs : sources[n]? = some s)
    (hps : e.referencedTables (entriesOf sources) = .ok ps) (honly : ∀ k ∈ ps, k = n) :
    e.Binds s.schema ↔ e.Binds (.concat ((entriesOf sources).map FromTable.schema)) := by
  have hentry : ((entriesOf sources).zip ((entriesOf sources).map FromTable.blank))[n]? =
      some (s.fromTable, s.fromTable.blank) := by
    rw [List.getElem?_zip_eq_some, List.getElem?_map, getElem?_entriesOf hs]
    exact ⟨rfl, rfl⟩
  rw [← Context.binds_concat_iff hfrom hps (List.singleton_sublist.2 (List.mem_of_getElem? hentry)),
    Context.schema_singleton]
  · rfl
  · intro k hk
    rw [honly k hk]
    exact ⟨_, List.mem_singleton_self _, hentry⟩

/-- A conjunct on the first entries is bound to them exactly when it is bound to the whole FROM
list. -/
theorem binds_take_iff (hfrom : Qualified (entriesOf sources))
    (hwithin : e.Within (entriesOf sources) n) :
    e.Binds (.concat (((entriesOf sources).take n).map FromTable.schema)) ↔
      e.Binds (.concat ((entriesOf sources).map FromTable.schema)) := by
  obtain ⟨ps, hps, hlt⟩ := hwithin
  obtain ⟨hsub, -⟩ := Expr.referencedTables_eq_ok hfrom hps
  have htake : ((entriesOf sources).zip ((entriesOf sources).map FromTable.blank)).take n =
      ((entriesOf sources).take n).zip (((entriesOf sources).take n).map FromTable.blank) := by
    rw [List.zip, List.take_zipWith, List.map_take]
  rw [← Context.binds_concat_iff hfrom hps (List.take_sublist n _), htake,
    Context.schema_zip (List.length_map _).symm]
  intro k hk
  have hkFrom := List.mem_range.1 (hsub.subset hk)
  have hkBlank : k < ((entriesOf sources).map FromTable.blank).length := by
    rw [List.length_map]
    exact hkFrom
  obtain ⟨entry, hentry⟩ := Context.exists_entry hkFrom hkBlank
  refine ⟨entry, ?_, hentry⟩
  apply List.mem_of_getElem? (i := k)
  rw [List.getElem?_take_of_lt (hlt k hk), hentry]

end Selections

/-! ### Inputs -/

/-- The truth value of a conjunct for a choice from one source alone. -/
def Source.verdict (s : Source) (e : Expr) (cs : List Tuple) : Except Error Bool :=
  e.truth s.schema (.concat cs)

/-- The input of a source: its scan with the conjuncts that stand on it. -/
theorem sieved_input {safe : Expr → Prop} {ts : List Tuple}
    (hscan : Plan.scanOf d s.qualifier = .ok s.scan) (hholds : s.Holds fs ts)
    (hsafe : ∀ e ∈ Planner.selectionsAt placed n, safe e → ∀ u ∈ ts,
      ∃ v, e.truth s.schema u = .ok v)
    (h : Planner.input d placed n s.fromTable = .ok p) :
    p.schema = s.schema ∧ (∀ e ∈ Planner.selectionsAt placed n, e.Binds s.schema) ∧
      Sieved s.verdict safe (Planner.selectionsAt placed n) (choices [ts]) (p.listing fs) ∧
      ((∃ us, p.listing fs = .ofList us) ↔
        ∀ cs ∈ choices [ts], Settles s.verdict (Planner.selectionsAt placed n) cs) := by
  have htable := Sieved.table s.verdict safe ts
  rw [← hholds.listing_scan] at htable
  obtain ⟨scan, hscan', h⟩ := bind_eq_ok_iff.1 h
  obtain rfl : s.scan = scan := Except.ok.inj (hscan.symm.trans hscan')
  cases hes : Expr.conjunction (Planner.selectionsAt placed n) with
  | none =>
    -- there is no conjunct here, and the input is the scan itself
    rw [hes] at h
    cases h
    cases hsel : Planner.selectionsAt placed n with
    | nil =>
      exact ⟨rfl, by simp, htable, fun _ _ _ => ⟨true, rfl⟩, fun _ => ⟨ts, hholds.listing_scan⟩⟩
    | cons e es =>
      rw [hsel] at hes
      cases hes
  | some e =>
    rw [hes] at h
    obtain ⟨hbinds, predicate, rfl, hconjoin⟩ := Plan.selectBy_eq_ok hes h
    refine ⟨rfl, hbinds, htable.keep (fun cs _ => hconjoin (.concat cs)) ?_, ?_⟩
    · intro e' he' hsafe' cs hcs
      rw [choices_singleton] at hcs
      obtain ⟨u, hu, rfl⟩ := List.mem_map.1 hcs
      rw [Source.verdict, Tuple.concat_singleton]
      exact hsafe e' he' hsafe' u hu
    · have hends := htable.ends_keep_iff fun cs _ => hconjoin (.concat cs)
      refine hends.trans ⟨fun h cs hcs => h.2 cs hcs (by simp [Passes]), fun h => ?_⟩
      exact ⟨⟨ts, hholds.listing_scan⟩, fun cs hcs _ => h cs hcs⟩

/-- Whether a tree is the scan of the source at position `n` under conjuncts on it alone. -/
structure PlannedInput (fs : FileStore) (sources : List Source) (rows : List (List Tuple)) (n : Nat)
    (s : Source) (ts : List Tuple) (es : List Expr) (p : Plan) : Prop where
  schema_eq : p.schema = s.schema
  sieved : Sieved s.verdict (Expr.Safe (entriesOf sources) rows) es (choices [ts]) (p.listing fs)
  ends_iff : (∃ us, p.listing fs = .ofList us) ↔
    ∀ cs ∈ choices [ts], Settles s.verdict es cs
  only : ∀ e ∈ es, ∃ ps, e.referencedTables (entriesOf sources) = .ok ps ∧ ∀ k ∈ ps, k = n
  binds : ∀ e ∈ es, e.Binds (.concat ((entriesOf sources).map FromTable.schema))

/-- The conjuncts that the planner puts on a scan are at home there. -/
theorem planned_input (hfrom : Qualified (entriesOf sources))
    (hplaced : Planner.placeAll (entriesOf sources) conjuncts = .ok placed)
    (hs : sources[n]? = some s) {ts : List Tuple} (hts : rows[n]? = some ts)
    (hholds : s.Holds fs ts)
    (hscan : Plan.scanOf d s.qualifier = .ok s.scan)
    (h : Planner.input d placed n s.fromTable = .ok p) :
    PlannedInput fs sources rows n s ts (Planner.selectionsAt placed n) p := by
  have honly : ∀ e ∈ Planner.selectionsAt placed n,
      ∃ ps, e.referencedTables (entriesOf sources) = .ok ps ∧ ∀ k ∈ ps, k = n :=
    fun e he => (Planner.mem_selectionsAt hplaced he).2
  have hevaluates : ∀ e ∈ Planner.selectionsAt placed n, e.Safe (entriesOf sources) rows →
      ∀ u ∈ ts, ∃ v, e.truth s.schema u = .ok v := by
    intro e he hsafe u hu
    obtain ⟨ps, hps, hk⟩ := honly e he
    exact truth_ok_of_safe hfrom hs hts hholds hps hk hsafe hu
  obtain ⟨hschema, hbinds, hsieved, hends⟩ := sieved_input hscan hholds hevaluates h
  refine ⟨hschema, hsieved, hends, honly, ?_⟩
  intro e he
  obtain ⟨ps, hps, hk⟩ := honly e he
  exact (binds_single_iff hfrom hs hps hk).1 (hbinds e he)

section PlannedInput

variable {ts : List Tuple} {e : Expr}

theorem PlannedInput.within (h : PlannedInput fs sources rows n s ts es p) (he : e ∈ es) :
    e.Within (entriesOf sources) (n + 1) := by
  obtain ⟨ps, hps, honly⟩ := h.only e he
  refine ⟨ps, hps, ?_⟩
  intro k hk
  rw [honly k hk]
  exact Nat.lt_succ_self n

/-- The truth value on the scan is the verdict on any choice that ends with the scanned tuple. -/
theorem PlannedInput.verdict_eq (h : PlannedInput fs sources rows n s ts es p)
    (hfrom : Qualified (entriesOf sources)) (hrows : List.Forall₂ (Source.Holds fs) sources rows)
    (hs : sources[n]? = some s) (he : e ∈ es) {cs : List Tuple} {u : Tuple}
    (hlength : cs.length = n)
    (hcs : cs ++ [u] ∈ choices (rows.take (n + 1))) :
    e.verdict (entriesOf sources) (cs ++ [u]) = s.verdict e [u] := by
  subst hlength
  obtain ⟨ps, hps, honly⟩ := h.only e he
  rw [Source.verdict, Tuple.concat_singleton]
  exact Expr.verdict_single hfrom (fits_of_mem_choices hrows hcs) (getElem?_entriesOf hs) hps honly

end PlannedInput

/-! ### Joining -/

/-- The first input is planned. -/
theorem Planned.first (hfrom : Qualified (entriesOf sources))
    (hrows : List.Forall₂ (Source.Holds fs) sources rows) (hs : sources[0]? = some s)
    {ts : List Tuple} (hts : rows[0]? = some ts) (h : PlannedInput fs sources rows 0 s ts es p) :
    Planned fs sources rows 1 es p := by
  refine ⟨?_, ?_, fun e he => h.within he, h.binds⟩
  · rw [h.schema_eq, concat_take_add_one hs]
    rfl
  · have hchoices : choices (rows.take 1) = choices [ts] := by
      rw [take_add_one_of_getElem? hts]
      rfl
    rw [hchoices]
    refine h.sieved.congr ?_
    intro e he cs hcs
    rw [← hchoices] at hcs
    obtain ⟨u, -, rfl⟩ : ∃ u ∈ ts, [u] = cs := by
      rw [hchoices, choices_singleton] at hcs
      exact List.mem_map.1 hcs
    exact h.verdict_eq hfrom hrows hs he List.length_nil hcs

section Join

variable {ts : List Tuple} {selections : List Expr}

/-- What was evaluated on the first entries has the same verdict when the next entry is joined. -/
theorem Planned.verdict_append (hroot : Planned fs sources rows n es root) (hn : n ≤ rows.length)
    {e : Expr} (he : e ∈ es) {cs : List Tuple} (hcs : cs ∈ choices (rows.take n)) (u : Tuple) :
    e.verdict (entriesOf sources) (cs ++ [u]) = e.verdict (entriesOf sources) cs := by
  have hwithin := hroot.within e he
  rw [← length_of_mem_choices hn hcs] at hwithin
  exact Expr.verdict_append hwithin u

/-- What was evaluated on the scan of the next entry has the same verdict when it is joined. -/
theorem PlannedInput.verdict_append (hright : PlannedInput fs sources rows n s ts selections right)
    (hfrom : Qualified (entriesOf sources)) (hrows : List.Forall₂ (Source.Holds fs) sources rows)
    (hs : sources[n]? = some s) (hts : rows[n]? = some ts) {e : Expr} (he : e ∈ selections)
    {cs : List Tuple} (hcs : cs ∈ choices (rows.take n)) {u : Tuple} (hu : u ∈ ts) :
    e.verdict (entriesOf sources) (cs ++ [u]) = s.verdict e [u] := by
  have hn : n < rows.length := (List.getElem?_eq_some_iff.1 hts).1
  refine hright.verdict_eq hfrom hrows hs he (length_of_mem_choices (Nat.le_of_lt hn) hcs) ?_
  rw [choices_take_add_one hts]
  exact List.mem_flatMap.2 ⟨cs, hcs, List.mem_map_of_mem hu⟩

theorem Planned.schema_append (hroot : Planned fs sources rows n es root)
    (hs : sources[n]? = some s) (hright : PlannedInput fs sources rows n s ts selections right) :
    root.schema ++ right.schema =
      .concat (((entriesOf sources).take (n + 1)).map FromTable.schema) := by
  rw [hroot.schema_eq, hright.schema_eq, concat_take_add_one hs]

/-- Before its predicate is looked at, a join has the product of both sides. -/
theorem Planned.cross (hfrom : Qualified (entriesOf sources))
    (hrows : List.Forall₂ (Source.Holds fs) sources rows)
    (hroot : Planned fs sources rows n es root) (hs : sources[n]? = some s)
    (hts : rows[n]? = some ts) (hright : PlannedInput fs sources rows n s ts selections right) :
    Sieved (Expr.verdict (entriesOf sources)) (Expr.Safe (entriesOf sources) rows)
      (es ++ selections) (choices (rows.take (n + 1)))
      (Plan.pairs none (root.listing fs) (right.listing fs)) := by
  have hn : n < rows.length := (List.getElem?_eq_some_iff.1 hts).1
  rw [choices_take_add_one hts]
  exact hroot.sieved.cross hright.sieved
    (fun e he cs hcs u _ => hroot.verdict_append (Nat.le_of_lt hn) he hcs u)
    (fun e he cs hcs u hu => hright.verdict_append hfrom hrows hs hts he hcs hu)

/-- The predicate of a join evaluates its conjuncts in order. -/
theorem Planned.accepts_eq (hfrom : Qualified (entriesOf sources))
    (hrows : List.Forall₂ (Source.Holds fs) sources rows)
    (hroot : Planned fs sources rows n es root) (hs : sources[n]? = some s)
    (hts : rows[n]? = some ts) (hright : PlannedInput fs sources rows n s ts selections right)
    (hready : ∀ e ∈ ready, e.Within (entriesOf sources) (n + 1)) {predicate : Option Predicate}
    (hconjoin : ∀ t, accepts predicate t =
      conjoin (ready.map (Expr.truth (root.schema ++ right.schema) t)))
    {cs : List Tuple} (hcs : cs ∈ choices (rows.take (n + 1))) :
    accepts predicate (.concat cs) =
      conjoin (ready.map (Expr.verdict (entriesOf sources) · cs)) := by
  have hn : n < rows.length := (List.getElem?_eq_some_iff.1 hts).1
  rw [hconjoin, hroot.schema_append hs hright]
  refine congrArg conjoin (List.map_congr_left fun e he => ?_)
  exact (verdict_eq_truth_take hfrom hrows hn (hready e he) hcs).symm

/-- **Joining the next input keeps a tree planned.** -/
theorem Planned.join (hfrom : Qualified (entriesOf sources))
    (hrows : List.Forall₂ (Source.Holds fs) sources rows)
    (hroot : Planned fs sources rows n es root) (hs : sources[n]? = some s)
    (hts : rows[n]? = some ts) (hright : PlannedInput fs sources rows n s ts selections right)
    (hready : ∀ e ∈ ready, e.Within (entriesOf sources) (n + 1))
    (h : root.joinOn right (Expr.conjunction ready) = .ok p) :
    Planned fs sources rows (n + 1) (es ++ selections ++ ready) p := by
  have hn : n < rows.length := (List.getElem?_eq_some_iff.1 hts).1
  obtain ⟨hbinds, predicate, rfl, hconjoin⟩ := Plan.joinOn_eq_ok h
  have hschema := hroot.schema_append hs hright
  refine ⟨hschema, ?_, ?_, ?_⟩
  · show Sieved _ _ _ _ (Plan.pairs predicate (root.listing fs) (right.listing fs))
    rw [pairs_eq_keep]
    exact (Planned.cross hfrom hrows hroot hs hts hright).keep
      (fun cs hcs => hroot.accepts_eq hfrom hrows hs hts hright hready hconjoin hcs)
      fun e he hsafe cs hcs => verdict_ok_of_within hfrom hn (hready e he) hsafe hcs
  · intro e he
    rcases List.mem_append.1 he with he | he
    · rcases List.mem_append.1 he with he | he
      · exact (hroot.within e he).mono (Nat.le_succ n)
      · exact hright.within he
    · exact hready e he
  · intro e he
    rcases List.mem_append.1 he with he | he
    · rcases List.mem_append.1 he with he | he
      · exact hroot.binds e he
      · exact hright.binds e he
    · exact (binds_take_iff hfrom (hready e he)).1 (hschema ▸ hbinds e he)

end Join

theorem joinAll_cons (root right : Plan) (position : Nat) (pending : List Planner.Pending)
    (rest : List Plan) :
    Planner.joinAll root position pending (right :: rest) =
      root.joinOn right (Expr.conjunction
        ((pending.filter (·.last ≤ position)).map Planner.Pending.conjunct)) >>= fun joined =>
        Planner.joinAll joined (position + 1) (pending.filter fun q => !(q.last ≤ position))
          rest := by
  rw [Planner.joinAll, List.partition_eq_filter_filter]
  rfl

/-- The next join takes the conjuncts that wait for just its entry; the others wait on. -/
theorem joinAll_pendingOf (root right : Plan) (rest : List Plan) :
    Planner.joinAll root n ((Planner.pendingOf placed).filter (n ≤ ·.last)) (right :: rest) =
      root.joinOn right (Expr.conjunction (Planner.joinsAt placed n)) >>= fun joined =>
        Planner.joinAll joined (n + 1) ((Planner.pendingOf placed).filter (n + 1 ≤ ·.last)) rest := by
  have hready : ((Planner.pendingOf placed).filter (n ≤ ·.last)).filter (·.last ≤ n) =
      (Planner.pendingOf placed).filter (·.last = n) := by
    rw [List.filter_filter]
    refine List.filter_congr fun q _ => ?_
    rw [← Bool.decide_and, decide_eq_decide]
    omega
  have hwaiting : ((Planner.pendingOf placed).filter (n ≤ ·.last)).filter
      (fun q => !(q.last ≤ n)) = (Planner.pendingOf placed).filter (n + 1 ≤ ·.last) := by
    rw [List.filter_filter]
    refine List.filter_congr fun q _ => ?_
    rw [← decide_not, ← Bool.decide_and, decide_eq_decide]
    omega
  rw [joinAll_cons, hready, hwaiting]
  rfl

/-- What each join keeps holds after all further inputs have been joined. -/
theorem joinAll_induction {I : Nat → Plan → Prop}
    (hjoin : ∀ {n : Nat} {s : Source} {root right joined : Plan}, sources[n]? = some s →
      Planner.input d placed n s.fromTable = .ok right → I n root →
      root.joinOn right (Expr.conjunction (Planner.joinsAt placed n)) = .ok joined →
      I (n + 1) joined)
    {rest : List Source} {inputs : List Plan} (hrest : sources.drop n = rest)
    (hn : n ≤ sources.length) (hroot : I n root)
    (hinputs : Planner.inputs d placed n (rest.map Source.fromTable) = .ok inputs)
    (h : Planner.joinAll root n ((Planner.pendingOf placed).filter (n ≤ ·.last)) inputs =
      .ok (p, [])) : I sources.length p := by
  induction rest generalizing n root inputs with
  | nil =>
    cases hinputs
    rw [Planner.joinAll, Except.ok.injEq, Prod.mk.injEq] at h
    obtain rfl : n = sources.length := Nat.le_antisymm hn (List.drop_eq_nil_iff.1 hrest)
    rw [← h.1]
    exact hroot
  | cons s rest ih =>
    obtain ⟨right, hright, hinputs⟩ := bind_eq_ok_iff.1 hinputs
    obtain ⟨others, hothers, hinputs⟩ := bind_eq_ok_iff.1 hinputs
    cases hinputs
    rw [joinAll_pendingOf] at h
    obtain ⟨joined, hjoined, h⟩ := bind_eq_ok_iff.1 h
    have hs : sources[n]? = some s := by
      rw [← List.head?_drop, hrest]
      rfl
    have hlt : n < sources.length := (List.getElem?_eq_some_iff.1 hs).1
    have hdrop : sources.drop (n + 1) = rest := by
      rw [← List.tail_drop, hrest]
      rfl
    exact ih hdrop hlt (hjoin hs hright hroot hjoined) hothers h

/-- **What the first input has and each join keeps holds of the whole join tree.** -/
theorem joinTree_inputs_induction {I : Nat → Plan → Prop} (hfrom : Qualified (entriesOf sources))
    (hplaced : Planner.placeAll (entriesOf sources) conjuncts = .ok placed)
    (hfirst : ∀ {s : Source} {first : Plan}, sources[0]? = some s →
      Planner.input d placed 0 s.fromTable = .ok first → I 1 first)
    (hjoin : ∀ {n : Nat} {s : Source} {root right joined : Plan}, sources[n]? = some s →
      Planner.input d placed n s.fromTable = .ok right → I n root →
      root.joinOn right (Expr.conjunction (Planner.joinsAt placed n)) = .ok joined →
      I (n + 1) joined)
    {inputs : List Plan} (hinputs : Planner.inputs d placed 0 (entriesOf sources) = .ok inputs)
    (h : Planner.joinTree (Planner.pendingOf placed) inputs = .ok p) : I sources.length p := by
  cases sources with
  | nil =>
    cases hinputs
    cases h
  | cons s rest =>
    obtain ⟨first, hright, hinputs⟩ := bind_eq_ok_iff.1 hinputs
    obtain ⟨others, hothers, hinputs⟩ := bind_eq_ok_iff.1 hinputs
    cases hinputs
    obtain ⟨⟨root, waiting⟩, hroot, h⟩ := bind_eq_ok_iff.1 h
    cases waiting with
    | cons q waiting => cases h
    | nil =>
      cases h
      have hall : (Planner.pendingOf placed).filter (1 ≤ ·.last) = Planner.pendingOf placed := by
        rw [List.filter_eq_self]
        intro q hq
        exact decide_eq_true (Planner.last_of_mem_pendingOf hfrom hplaced hq).1
      rw [← hall] at hroot
      exact joinAll_induction hjoin rfl (Nat.succ_pos _) (hfirst rfl hright) hothers hroot

/-- The same over stored rows, where each input is planned. -/
theorem joinTree_induction {I : Nat → Plan → Prop} (hfrom : Qualified (entriesOf sources))
    (hrows : List.Forall₂ (Source.Holds fs) sources rows)
    (hplaced : Planner.placeAll (entriesOf sources) conjuncts = .ok placed)
    (hscans : ∀ s ∈ sources, Plan.scanOf d s.qualifier = .ok s.scan)
    (hfirst : ∀ {s : Source} {ts : List Tuple} {first : Plan},
      sources[0]? = some s → rows[0]? = some ts →
      PlannedInput fs sources rows 0 s ts (Planner.selectionsAt placed 0) first → I 1 first)
    (hjoin : ∀ {n : Nat} {s : Source} {ts : List Tuple} {root right joined : Plan},
      sources[n]? = some s → rows[n]? = some ts →
      PlannedInput fs sources rows n s ts (Planner.selectionsAt placed n) right → I n root →
      root.joinOn right (Expr.conjunction (Planner.joinsAt placed n)) = .ok joined →
      I (n + 1) joined)
    {inputs : List Plan} (hinputs : Planner.inputs d placed 0 (entriesOf sources) = .ok inputs)
    (h : Planner.joinTree (Planner.pendingOf placed) inputs = .ok p) : I sources.length p := by
  refine joinTree_inputs_induction hfrom hplaced ?_ ?_ hinputs h
  · intro s first hs hinput
    obtain ⟨ts, hts, hholds⟩ := forall₂_getElem? hrows hs
    have hscan := hscans s (List.mem_of_getElem? hs)
    exact hfirst hs hts (planned_input hfrom hplaced hs hts hholds hscan hinput)
  · intro n s root right joined hs hinput hroot hjoined
    obtain ⟨ts, hts, hholds⟩ := forall₂_getElem? hrows hs
    have hscan := hscans s (List.mem_of_getElem? hs)
    exact hjoin hs hts (planned_input hfrom hplaced hs hts hholds hscan hinput) hroot hjoined

/-- **The join tree of a block is planned under its conjuncts**, in the order of evaluation. -/
theorem planned_inOrder (hfrom : Qualified (entriesOf sources))
    (hrows : List.Forall₂ (Source.Holds fs) sources rows)
    (hplaced : Planner.placeAll (entriesOf sources) conjuncts = .ok placed)
    (hscans : ∀ s ∈ sources, Plan.scanOf d s.qualifier = .ok s.scan)
    {inputs : List Plan} (hinputs : Planner.inputs d placed 0 (entriesOf sources) = .ok inputs)
    (h : Planner.joinTree (Planner.pendingOf placed) inputs = .ok p) :
    Planned fs sources rows sources.length (Planner.inOrder placed sources.length) p := by
  refine joinTree_induction (I := fun n p => Planned fs sources rows n (Planner.inOrder placed n) p)
    hfrom hrows hplaced hscans ?_ ?_ hinputs h
  · intro s ts first hs hts hinput
    rw [Planner.inOrder_one hfrom hplaced]
    exact Planned.first hfrom hrows hs hts hinput
  · intro n s ts root right joined hs hts hinput hroot hjoined
    exact hroot.join hfrom hrows hs hts hinput
      (fun e he => Planner.within_joinsAt hfrom hplaced he) hjoined

/-- The conjuncts of the join tree are those of the block. -/
theorem planned_joinTree (hfrom : Qualified (entriesOf sources))
    (hrows : List.Forall₂ (Source.Holds fs) sources rows)
    (hplaced : Planner.placeAll (entriesOf sources) conjuncts = .ok placed)
    (hscans : ∀ s ∈ sources, Plan.scanOf d s.qualifier = .ok s.scan)
    {inputs : List Plan} (hinputs : Planner.inputs d placed 0 (entriesOf sources) = .ok inputs)
    (h : Planner.joinTree (Planner.pendingOf placed) inputs = .ok p) :
    ∃ es, Planned fs sources rows sources.length es p ∧ ∀ e, e ∈ es ↔ e ∈ conjuncts := by
  have hne : entriesOf sources ≠ [] := by
    intro hnil
    rw [hnil] at hinputs
    cases hinputs
    cases h
  have hlength : (entriesOf sources).length = sources.length := List.length_map _
  refine ⟨_, planned_inOrder hfrom hrows hplaced hscans hinputs h, fun e => ?_⟩
  rw [← hlength]
  exact Planner.mem_inOrder_length hfrom hne hplaced

end Tree

end FlatQuery
