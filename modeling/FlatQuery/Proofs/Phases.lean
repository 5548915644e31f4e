import FlatQuery.Database
import FlatQuery.Proofs.Arity
import FlatQuery.Proofs.Clauses
import FlatQuery.Proofs.Failures
import FlatQuery.Proofs.Recovery

set_option autoImplicit false

/-! # Phases

Which errors planning and running can end in. Whatever planning refuses, it refuses with an error of
the planning phase (`fails_plan`, `fails_read`). A planned tree is `Indexed`: the positions in its
predicates are columns. So a run of it fails with the errors of files and of arithmetic only
(`fails_step`), never with a position outside of a tuple, and it goes on like that after an error.
The main result is `separated_plan_query`. -/

namespace FlatQuery

namespace Error

/-- Whether an error is one of planning. -/
def OfPlanning (e : Error) : Prop := e.phase = .planning

/-- Whether an error is one of running that a planned tree can meet. -/
def OfRunning (e : Error) : Prop :=
  e.phase = .execution ∧ ∀ column index arity, e ≠ .columnIndexOutOfRange column index arity

theorem OfFile.ofRunning {e : Error} (h : e.OfFile) : e.OfRunning := by
  cases h <;> exact ⟨rfl, by simp⟩

end Error

open Error

/-! ## Planning -/

section Planning

variable {c : Catalog} {s : Schema}

theorem fails_indexOf (s : Schema) (table : Option String) (name : String) :
    FailsAs OfPlanning (s.indexOf table name) := by
  unfold Schema.indexOf
  split
  · exact .error rfl
  · exact .error rfl
  · exact .ok _

theorem fails_join (s s' : Schema) : FailsAs OfPlanning (s.join s') := by
  unfold Schema.join Schema.ofColumns
  split
  · exact .error rfl
  · exact .ok _

section Binding

variable {P : Error → Prop} {e : Expr} (htypes : ∀ expected text, P (.typeMismatch expected text))

include htypes

/-- Binding fails as the look-up of a column does, or with a type error. -/
theorem fails_bindExpr (hcolumns : ∀ ref ∈ e.columns, FailsAs P (s.indexOf ref.table ref.column)) :
    FailsAs P (BoundExpr.bind s e) := by
  induction e with
  | column ref => exact (hcolumns ref (List.mem_singleton_self ref)).bind fun i _ => .ok _
  | literal value => exact .ok _
  | binary op left right ihl ihr =>
    obtain ⟨hleft, hright⟩ := List.forall_mem_append.1 hcolumns
    cases op with
    | arithmetic op => exact (ihl hleft).bind fun l _ => (ihr hright).bind fun r _ => .ok _
    | compare op => exact .error (htypes _ _)
    | and => exact .error (htypes _ _)
  | nested inner ih => exact (ih hcolumns).bind fun i _ => .ok _

theorem fails_bindPredicate
    (hcolumns : ∀ ref ∈ e.columns, FailsAs P (s.indexOf ref.table ref.column)) :
    FailsAs P (BoundPredicate.bind s e) := by
  induction e with
  | column ref => exact .error (htypes _ _)
  | literal value => exact .error (htypes _ _)
  | binary op left right ihl ihr =>
    obtain ⟨hleft, hright⟩ := List.forall_mem_append.1 hcolumns
    cases op with
    | arithmetic op => exact .error (htypes _ _)
    | compare op =>
      exact (fails_bindExpr htypes hleft).bind fun l _ =>
        (fails_bindExpr htypes hright).bind fun r _ => .ok _
    | and => exact (ihl hleft).bind fun l _ => (ihr hright).bind fun r _ => .ok _
  | nested inner ih => exact ih hcolumns

theorem fails_predicate
    (hcolumns : ∀ ref ∈ e.columns, FailsAs P (s.indexOf ref.table ref.column)) :
    FailsAs P (Predicate.bind s e) :=
  (fails_bindPredicate htypes hcolumns).bind fun _ _ => .ok _

theorem Plan.fails_selectBy {p : Plan}
    (hcolumns : ∀ ref ∈ e.columns, FailsAs P (p.schema.indexOf ref.table ref.column)) :
    FailsAs P (p.selectBy e) :=
  (fails_predicate htypes hcolumns).bind fun _ _ => .ok _

/-- A join fails over its columns, or as the binding of its predicate to all of them does. -/
theorem Plan.fails_joinOn {p q : Plan} {e : Option Expr}
    (hjoin : FailsAs P (p.schema.join q.schema)) (hcolumns : ∀ e' ∈ e, ∀ ref ∈ e'.columns,
      FailsAs P ((p.schema ++ q.schema).indexOf ref.table ref.column)) :
    FailsAs P (p.joinOn q e) := by
  refine hjoin.bind fun s hs => ?_
  obtain ⟨-, rfl⟩ := Schema.ofColumns_eq_ok_iff.1 hs
  cases e with
  | none => exact .ok _
  | some e => exact (fails_predicate htypes (hcolumns e rfl)).bind fun b _ => .ok _

end Binding

theorem fails_position («from» : List FromTable) (ref : ColumnRef) :
    FailsAs OfPlanning (ref.position «from») := by
  unfold ColumnRef.position
  split
  · next qualifier _ =>
    split
    · next table _ _ =>
      exact (fails_indexOf table.schema (some qualifier) ref.column).bind fun i _ => .ok _
    · exact .error rfl
  · split
    · exact .ok _
    · exact .error rfl

theorem fails_placement («from» : List FromTable) (e : Expr) :
    FailsAs OfPlanning (e.placement «from») := by
  have hpositions : FailsAs OfPlanning (e.columns.mapM (ColumnRef.position «from»)) :=
    .mapM fun ref _ => fails_position «from» ref
  have htables : FailsAs OfPlanning (e.referencedTables «from») :=
    hpositions.bind fun positions _ => .ok _
  exact htables.bind fun positions _ => .ok _

theorem fails_schemaFor (c : Catalog) (name : String) : FailsAs OfPlanning (c.schemaFor name) := by
  unfold Catalog.schemaFor
  split
  · exact .ok _
  · exact .error rfl

namespace Plan

theorem fails_projectTo (p : Plan) (items : List SelectItem) :
    FailsAs OfPlanning (p.projectTo items) := by
  have hitem : ∀ item, FailsAs OfPlanning (positionsOfItem p.schema item) := by
    intro item
    unfold positionsOfItem
    split
    · exact .ok _
    · next ref => exact (fails_indexOf p.schema ref.table ref.column).bind fun i _ => .ok _
    · exact .error rfl
  unfold projectTo
  split
  · exact .ok _
  · exact (FailsAs.mapM fun item _ => hitem item).bind fun pss _ => .ok _

theorem fails_sortBy (p : Plan) (keys : List ColumnRef) : FailsAs OfPlanning (p.sortBy keys) :=
  (FailsAs.mapM fun key _ => fails_indexOf p.schema key.table key.column).bind fun _ _ => .ok _

end Plan

namespace Planner

theorem fails_tablesOf (items : List FromItem) : FailsAs OfPlanning (tablesOf items) := by
  refine .mapM fun item _ => ?_
  split
  · exact .ok _
  · exact .error rfl

theorem fails_readTables (c : Catalog) (before : List FromTable) (refs : List TableRef) :
    FailsAs OfPlanning (readTables c before refs).1 := by
  induction refs generalizing c before with
  | nil => exact .ok _
  | cons ref refs ih =>
    rw [readTables_cons]
    split
    · exact .error rfl
    · cases hschema : (c.enter ref).schemaFor ref.qualifier with
      | error e => exact .error (fails_schemaFor _ _ e hschema)
      | ok schema => exact ih (c.enter ref) _

theorem fails_input (c : Catalog) (placed : List Placed) (position : Nat) (table : FromTable) :
    FailsAs OfPlanning (input c placed position table) := by
  have hscan : FailsAs OfPlanning (Plan.scanOf c table.qualifier) :=
    (fails_schemaFor c table.qualifier).bind fun s _ => .ok _
  refine hscan.bind fun scan _ => ?_
  split
  · exact .ok _
  · exact Plan.fails_selectBy (fun _ _ => rfl) fun ref _ => fails_indexOf _ _ _

/-- The inputs fail as one of them does. -/
theorem fails_inputs {P : Error → Prop} {placed : List Placed} {position : Nat}
    {«from» : List FromTable} (h : ∀ k table, «from»[k]? = some table →
      FailsAs P (input c placed (position + k) table)) :
    FailsAs P (inputs c placed position «from») := by
  induction «from» generalizing position with
  | nil => exact .ok _
  | cons table rest ih =>
    have hrest : FailsAs P (inputs c placed (position + 1) rest) := by
      refine ih fun k t ht => ?_
      rw [Nat.add_right_comm position 1 k]
      exact h (k + 1) t ht
    exact (h 0 table rfl).bind fun first _ => hrest.bind fun ps _ => .ok _

theorem fails_joinAll (root : Plan) (position : Nat) (pending : List Pending) (ps : List Plan) :
    FailsAs OfPlanning (joinAll root position pending ps) := by
  induction ps generalizing root position pending with
  | nil => exact .ok _
  | cons right rest ih =>
    have hjoin {e : Option Expr} : FailsAs OfPlanning (root.joinOn right e) :=
      Plan.fails_joinOn (fun _ _ => rfl) (fails_join _ _) fun e _ ref _ => fails_indexOf _ _ _
    exact hjoin.bind fun joined _ => ih joined _ _

theorem fails_joinTree (pending : List Pending) (ps : List Plan) :
    FailsAs OfPlanning (joinTree pending ps) := by
  cases ps with
  | nil => exact .error rfl
  | cons first rest =>
    refine (fails_joinAll first 1 pending rest).bind ?_
    rintro ⟨root, waiting⟩ -
    cases waiting with
    | nil => exact .ok _
    | cons q waiting => exact .error rfl

theorem fails_finish (block : Select) (root : Plan) : FailsAs OfPlanning (finish block root) := by
  rw [finish_eq]
  refine (Plan.fails_projectTo root block.items).bind fun projected _ => ?_
  have hsort : FailsAs OfPlanning
      (if block.orderBy.isEmpty then .ok projected else projected.sortBy block.orderBy) := by
    split
    · exact .ok _
    · exact Plan.fails_sortBy projected block.orderBy
  exact hsort.bind fun sorted _ => .ok _

theorem fails_assemble (c : Catalog) (block : Select) («from» : List FromTable) :
    FailsAs OfPlanning (assemble c block «from») := by
  have hplaced : FailsAs OfPlanning (placeAll «from» (block.conditions.flatMap Expr.conjuncts)) :=
    .mapM fun e _ => (fails_placement «from» e).bind fun place _ => .ok _
  exact hplaced.bind fun placed _ =>
    (fails_inputs fun k table _ => fails_input c placed (0 + k) table).bind fun ps _ =>
      (fails_joinTree _ ps).bind fun root _ => fails_finish block root

end Planner

/-- **What planning refuses, it refuses with an error of planning.** -/
theorem fails_plan (c : Catalog) (statement : Statement) :
    FailsAs OfPlanning (c.plan statement).1 := by
  cases statement with
  | setOperation op left right => exact .error rfl
  | select block =>
    show FailsAs OfPlanning (Planner.planSelect c block).1
    cases htables : Planner.tablesOf block.fromItems with
    | error e =>
      simp only [Planner.planSelect, htables]
      exact .error (Planner.fails_tablesOf _ e htables)
    | ok refs =>
      have hread := Planner.fails_readTables c [] refs
      rcases hresult : Planner.readTables c [] refs with ⟨e | «from», d⟩ <;>
        simp only [Planner.planSelect, htables, hresult]
      · exact .error (hread e (by rw [hresult]))
      · exact Planner.fails_assemble d block «from»

theorem fails_read (text : String) : FailsAs OfPlanning (Sql.read text) := by
  unfold Sql.read
  split
  · exact .error rfl
  · next sentence _ =>
    cases sentence with
    | command word => exact .error rfl
    | query q =>
      intro e he
      obtain ⟨feature, hfeature⟩ := (Sql.admits_query q).refuses fun hclosed => by
        obtain ⟨statement, hlower⟩ := (Sql.admits_query q).accepts hclosed
        cases hlower.symm.trans he
      cases hfeature.symm.trans he
      rfl
  · exact .error rfl

end Planning

/-! ## Positions in predicates -/

/-- Whether all positions in a bound expression are below `n`. -/
def BoundExpr.Below (n : Nat) : BoundExpr → Prop
  | column index _ => index < n
  | literal _ => True
  | arithmetic _ left right => left.Below n ∧ right.Below n
  | nested inner => inner.Below n

/-- Whether all positions in a bound predicate are below `n`. -/
def BoundPredicate.Below (n : Nat) : BoundPredicate → Prop
  | compare _ left right => left.Below n ∧ right.Below n
  | and left right => left.Below n ∧ right.Below n

section Below

variable {s : Schema} {e : Expr} {n : Nat} {t : Tuple}

theorem BoundExpr.below_of_bind {b : BoundExpr} (h : bind s e = .ok b) : b.Below s.length := by
  induction e generalizing b with
  | column ref =>
    obtain ⟨i, hi, h⟩ := bind_eq_ok_iff.1 h
    cases h
    exact Schema.lt_of_indexOf hi
  | literal value =>
    cases h
    trivial
  | binary op left right ihl ihr =>
    cases op with
    | arithmetic op =>
      obtain ⟨l, hl, h⟩ := bind_eq_ok_iff.1 h
      obtain ⟨r, hr, h⟩ := bind_eq_ok_iff.1 h
      cases h
      exact ⟨ihl hl, ihr hr⟩
    | compare op => cases h
    | and => cases h
  | nested inner ih =>
    obtain ⟨i, hi, h⟩ := bind_eq_ok_iff.1 h
    cases h
    show i.Below s.length
    exact ih hi

theorem BoundPredicate.below_of_bind {b : BoundPredicate} (h : bind s e = .ok b) :
    b.Below s.length := by
  induction e generalizing b with
  | column ref => cases h
  | literal value => cases h
  | binary op left right ihl ihr =>
    cases op with
    | arithmetic op => cases h
    | compare op =>
      obtain ⟨l, hl, h⟩ := bind_eq_ok_iff.1 h
      obtain ⟨r, hr, h⟩ := bind_eq_ok_iff.1 h
      cases h
      exact ⟨BoundExpr.below_of_bind hl, BoundExpr.below_of_bind hr⟩
    | and =>
      obtain ⟨l, hl, h⟩ := bind_eq_ok_iff.1 h
      obtain ⟨r, hr, h⟩ := bind_eq_ok_iff.1 h
      cases h
      exact ⟨ihl hl, ihr hr⟩
  | nested inner ih => exact ih h

theorem Predicate.below_of_bind {predicate : Predicate} (h : bind s e = .ok predicate) :
    predicate.bound.Below s.length := by
  obtain ⟨b, hb, h⟩ := bind_eq_ok_iff.1 h
  cases h
  exact BoundPredicate.below_of_bind hb

/-- An expression whose positions are in the tuple fails by its arithmetic only. -/
theorem BoundExpr.fails_eval {b : BoundExpr} (hb : b.Below n) (ht : t.length = n) :
    FailsAs OfRunning (b.eval t) := by
  induction b with
  | column index ref =>
    have hlt : index < t.values.length := by
      rw [← Tuple.length, ht]
      exact hb
    simp only [eval, Tuple.get?, List.getElem?_eq_getElem hlt]
    exact .ok _
  | literal value => exact .ok _
  | arithmetic op left right ihl ihr =>
    refine (ihl hb.1).bind fun l _ => (ihr hb.2).bind fun r _ => ?_
    split
    · exact .ok _
    · next fault _ =>
      refine .error ?_
      cases fault <;> exact ⟨rfl, by simp [ArithmeticFault.error]⟩
  | nested inner ih => exact ih hb

theorem BoundPredicate.fails_eval {b : BoundPredicate} (hb : b.Below n) (ht : t.length = n) :
    FailsAs OfRunning (b.eval t) := by
  induction b with
  | compare op left right =>
    exact (BoundExpr.fails_eval hb.1 ht).bind fun l _ =>
      (BoundExpr.fails_eval hb.2 ht).bind fun r _ => .ok _
  | and left right ihl ihr =>
    refine (ihl hb.1).bind fun v _ => ?_
    cases v with
    | true => exact ihr hb.2
    | false => exact .ok _

end Below

/-! ## Steps -/

/-- A step that fits leaves a state that does. -/
theorem Step.Fits.state {σ : Type} {fits : σ → Prop} {n : Nat} {o : Step σ} (h : o.Fits fits n) :
    fits o.state := by
  cases o with
  | yield t s => exact h.2
  | skip s => exact h
  | done s => exact h
  | fail e s => exact h

/-- A projection to positions in the tuple does not fail. -/
theorem fails_projectTuple {columns : Unit → String} {positions : List Nat} {t : Tuple}
    (h : ∀ i ∈ positions, i < t.length) : FailsAs OfRunning (projectTuple columns positions t) := by
  have hvalues : ∃ values, positions.mapM t.get? = some values := by
    induction positions with
    | nil => exact ⟨[], rfl⟩
    | cons i positions ih =>
      obtain ⟨hi, hpositions⟩ := List.forall_mem_cons.1 h
      obtain ⟨values, hvalues⟩ := ih hpositions
      have hget : t.get? i = some t.values[i] := List.getElem?_eq_getElem hi
      exact ⟨t.values[i] :: values, by simp [List.mapM_cons, hget, hvalues]⟩
  obtain ⟨values, hvalues⟩ := hvalues
  simp only [projectTuple, Tuple.project?, hvalues, Option.map_some]
  exact .ok _

namespace Plan

variable {fs : FileStore} {p : Plan}

/-- Whether all positions in the predicates of a tree are columns. -/
def Indexed : Plan → Prop
  | values _ _ => True
  | scan _ _ _ _ => True
  | select child predicate => child.Indexed ∧ predicate.bound.Below child.schema.length
  | project child _ => child.Indexed
  | join left right predicate => left.Indexed ∧ right.Indexed ∧
      ∀ q ∈ predicate, q.bound.Below (left.schema.length + right.schema.length)
  | sort child _ _ => child.Indexed
  | distinct child => child.Indexed

/-- Every way of building a tree binds its predicates to its columns. -/
theorem indexed_keptByBuilding : KeptByBuilding Indexed where
  scanOf h := by
    obtain ⟨schema, -, h⟩ := bind_eq_ok_iff.1 h
    cases h
    trivial
  selectBy h hp := by
    obtain ⟨predicate, hpredicate, h⟩ := bind_eq_ok_iff.1 h
    cases h
    exact ⟨hp, Predicate.below_of_bind hpredicate⟩
  joinOn {p q r e} h hp hq := by
    obtain ⟨schema, hschema, h⟩ := bind_eq_ok_iff.1 h
    obtain ⟨-, rfl⟩ := Schema.ofColumns_eq_ok_iff.1 hschema
    cases e with
    | none =>
      cases h
      exact ⟨hp, hq, by simp⟩
    | some e =>
      obtain ⟨predicate, hpredicate, h⟩ := bind_eq_ok_iff.1 h
      cases h
      have hbelow := Predicate.below_of_bind hpredicate
      refine ⟨hp, hq, ?_⟩
      rintro q' ⟨⟩
      rwa [← Schema.length_append]
  projectTo {p q items} h hp := by
    unfold projectTo at h
    split at h
    · cases h
      exact hp
    · obtain ⟨positions, -, h⟩ := bind_eq_ok_iff.1 h
      cases h
      exact hp
  sortBy h hp := by
    obtain ⟨positions, -, h⟩ := bind_eq_ok_iff.1 h
    cases h
    exact hp
  sortAll hp := hp
  distinct hp := hp

/-- **A step of a shaped and indexed tree fails with an error of running**, if it fails. -/
theorem fails_step (fs : FileStore) (h : p.Shaped) (hi : p.Indexed) {s : p.State} (hs : p.Fits s) :
    (p.step fs s).FailsAs OfRunning := by
  induction p with
  | values schema rows => exact failsAs_stepRows s
  | scan table qualifier schema path =>
    exact (failsAs_stepScan (fails_openScan fs schema path) Reader.failsAs_step s).mono
      fun _ => OfFile.ofRunning
  | select child predicate ih =>
    have hfits := fits_step fs (p := child) h hs
    refine Step.failsAs_filter (ih h hi.1 hs) fun t s' hstep => ?_
    rw [hstep] at hfits
    exact BoundPredicate.fails_eval hi.2 hfits.1
  | project child positions ih =>
    cases positions with
    | none => exact ih h hi hs
    | some positions =>
      obtain ⟨hchild, hpositions⟩ := h
      have hfits := fits_step fs hchild hs
      refine Step.failsAs_transform (ih hchild hi hs) fun t s' hstep => ?_
      rw [hstep] at hfits
      exact fails_projectTuple (hfits.1.symm ▸ hpositions)
  | join left right predicate ihl ihr =>
    obtain ⟨hleft, hright⟩ := h
    obtain ⟨hileft, hiright, hpredicate⟩ := hi
    obtain ⟨hleftFits, hrightFits, hcurrent⟩ := hs
    refine failsAs_stepJoin (ihl hleft hileft hleftFits) (ihr hright hiright hrightFits) ?_ ?_
    · exact (fails_rewind fs right s.right).mono fun _ => OfFile.ofRunning
    · intro t u r' ht hstep
      have hu := fits_step fs hright hrightFits
      rw [hstep] at hu
      cases predicate with
      | none => exact .ok _
      | some q =>
        refine BoundPredicate.fails_eval (hpredicate q rfl) ?_
        rw [Tuple.length_append, hcurrent t ht, hu.1]
  | sort child keys order ih => exact failsAs_stepSort (ih h hi hs.1)
  | distinct child ih => exact failsAs_stepDistinct (ih h hi hs)

/-! ## Runs -/

/-- A pull answers a tuple of the width of the schema or fails with an error of running. -/
theorem next_answers (fs : FileStore) (h : p.Shaped) (hi : p.Indexed) {s : p.State}
    (hs : p.Fits s) : FailsAs OfRunning (p.next fs s).1 ∧
      ∀ t, (p.next fs s).1 = .ok (some t) → t.length = p.schema.length := by
  have hfits := fits_step fs h hs
  have hfails := fails_step fs h hi hs
  fun_induction p.next fs s with
  | case1 s t s' hstep =>
    rw [hstep] at hfits
    refine ⟨.ok _, ?_⟩
    rintro t' ⟨⟩
    exact hfits.1
  | case2 s s' hstep ih =>
    rw [hstep] at hfits
    exact ih hfits (fits_step fs h hfits) (fails_step fs h hi hfits)
  | case3 s s' hstep => exact ⟨.ok _, by simp⟩
  | case4 s e s' hstep =>
    rw [hstep] at hfails
    exact ⟨.error hfails, by simp⟩

/-- A drain answers tuples of the width of the schema or fails with an error of running. -/
theorem collect_answers (fs : FileStore) (h : p.Shaped) (hi : p.Indexed) {s : p.State}
    (hs : p.Fits s) : FailsAs OfRunning (p.collect fs s).1 ∧
      ∀ ts, (p.collect fs s).1 = .ok ts → ∀ t ∈ ts, t.length = p.schema.length := by
  have hending : FailsAs OfRunning (p.stream fs s).ending := by
    have hfails := fails_step fs h hi hs
    have hfits := fits_step fs h hs
    fun_induction p.stream fs s with
    | case1 s t s' hstep ih =>
      rw [hstep] at hfits
      exact ih hfits.2 (fails_step fs h hi hfits.2) (fits_step fs h hfits.2)
    | case2 s s' hstep ih =>
      rw [hstep] at hfits
      exact ih hfits (fails_step fs h hi hfits) (fits_step fs h hfits)
    | case3 s s' hstep => exact .ok _
    | case4 s e s' hstep =>
      rw [hstep] at hfails
      exact .error hfails
  rw [collect_eq_stream]
  refine ⟨hending.map _, ?_⟩
  intro ts hts
  have hlength := length_of_mem_stream fs h hs
  rwa [Listing.outcome_eq_ok_iff.1 hts, Listing.rows_ofList] at hlength

/-- The state after some calls on a tree that was just built, where the files may change between the
calls. -/
def reachedOver (p : Plan) (calls : List (FileStore × Call)) : p.State :=
  calls.foldl (fun s call => p.after call.1 s call.2) p.start

/-- Whatever is called, failed calls among them, a run fits. -/
theorem fits_reachedOver (h : p.Shaped) (calls : List (FileStore × Call)) :
    p.Fits (p.reachedOver calls) := by
  unfold reachedOver
  have hstart := fits_start h
  generalize p.start = s at hstart
  induction calls generalizing s with
  | nil => exact hstart
  | cons call calls ih =>
    obtain ⟨fs, call⟩ := call
    have hstep : ∀ s, p.Fits s → p.Fits (p.step fs s).state := fun s hs => (fits_step fs h hs).state
    refine ih _ ?_
    cases call with
    | next => exact next_keeps hstep hstart
    | reset => exact fits_rewind fs h hstart
    | collect => exact collect_keeps hstep hstart

end Plan

/-! ## Planning and running -/

/-- Whether a computation of a plan keeps the phases apart: it fails with errors of planning only,
and the plan, after any calls on any files, fails with errors of running only and answers tuples of
the width of its schema. -/
structure Separated (x : Except Error Plan) : Prop where
  planning : ∀ e, x = .error e → e.phase = .planning
  running : ∀ p, x = .ok p → ∀ (calls : List (FileStore × Call)) (fs : FileStore),
    FailsAs OfRunning (p.next fs (p.reachedOver calls)).1 ∧
      FailsAs OfRunning (p.rewind fs (p.reachedOver calls)).1 ∧
      FailsAs OfRunning (p.collect fs (p.reachedOver calls)).1
  widths : ∀ p, x = .ok p → ∀ (calls : List (FileStore × Call)) (fs : FileStore),
    (∀ t, (p.next fs (p.reachedOver calls)).1 = .ok (some t) → t.length = p.schema.length) ∧
      ∀ ts, (p.collect fs (p.reachedOver calls)).1 = .ok ts → ∀ t ∈ ts, t.length = p.schema.length

theorem separated_plan (c : Catalog) (statement : Statement) : Separated (c.plan statement).1 := by
  have hplan : ∀ p, (c.plan statement).1 = .ok p → p.Shaped ∧ p.Indexed := by
    intro p hp
    cases statement with
    | setOperation op left right => cases hp
    | select block =>
      exact ⟨Planner.shaped_planSelect hp, Plan.indexed_keptByBuilding.of_planSelect hp⟩
  refine ⟨fails_plan c statement, ?_, ?_⟩
  · intro p hp calls fs
    obtain ⟨hshaped, hindexed⟩ := hplan p hp
    have hfits := Plan.fits_reachedOver hshaped calls
    exact ⟨(Plan.next_answers fs hshaped hindexed hfits).1, (Plan.fails_rewind fs p _).mono fun _ => OfFile.ofRunning,
      (Plan.collect_answers fs hshaped hindexed hfits).1⟩
  · intro p hp calls fs
    obtain ⟨hshaped, hindexed⟩ := hplan p hp
    have hfits := Plan.fits_reachedOver hshaped calls
    exact ⟨(Plan.next_answers fs hshaped hindexed hfits).2,
      (Plan.collect_answers fs hshaped hindexed hfits).2⟩

/-- **Planning and running fail in their own ways**, for statements under any catalog and for texts
on any database: an error before a plan is there is one of planning; a planned tree meets errors of
files and of arithmetic only, never a position outside of a tuple, also after it has failed and also
when its files change; and what it yields has a value for each column of its schema. -/
theorem separated_plan_query (c : Catalog) (statement : Statement) (db : Database) (text : String) :
    Separated (c.plan statement).1 ∧ Separated (db.query text).1 := by
  refine ⟨separated_plan c statement, ?_⟩
  unfold Database.query
  cases hread : Sql.read text with
  | error e =>
    refine ⟨?_, by simp, by simp⟩
    rintro e' ⟨⟩
    exact fails_read text e hread
  | ok statement => exact separated_plan db.catalog statement

end FlatQuery
