import FlatQuery.Proofs.Building
import FlatQuery.Proofs.Draining
import FlatQuery.Proofs.Truth

set_option autoImplicit false

/-! # Arities

Every tuple of a planned SELECT block has a value for each column of its schema
(`length_of_mem_stream`, `shaped_planSelect`). A tree is `Shaped` if its own rows and positions fit
its schemas, which the planner sees to; a state `Fits` if the tuples that it holds do, which every
step keeps (`fits_step`), also one that fails. -/

namespace FlatQuery

@[simp] theorem Tuple.length_append (t u : Tuple) : (t ++ u).length = t.length + u.length :=
  List.length_append

@[simp] theorem Schema.length_append (s s' : Schema) : (s ++ s').length = s.length + s'.length :=
  List.length_append

/-- A projected tuple has as many values as there are positions. -/
theorem Tuple.length_of_project? {t u : Tuple} {positions : List Nat}
    (h : t.project? positions = some u) : u.length = positions.length := by
  obtain ⟨values, hvalues, rfl⟩ := Option.map_eq_some_iff.1 h
  show values.length = positions.length
  clear h
  induction positions generalizing values with
  | nil =>
    cases hvalues
    rfl
  | cons i positions ih =>
    rw [List.mapM_cons] at hvalues
    obtain ⟨v, -, hvalues⟩ := Option.bind_eq_some_iff.1 hvalues
    obtain ⟨vs, hvs, hvalues⟩ := Option.bind_eq_some_iff.1 hvalues
    cases hvalues
    rw [List.length_cons, List.length_cons, ih vs hvs]

/-- Whether the tuples of a buffer have `n` values each. -/
def SortBuffer.Fits (n : Nat) : SortBuffer → Prop
  | filling read => ∀ t ∈ read, t.length = n
  | ready all rest => (∀ t ∈ all, t.length = n) ∧ ∀ t ∈ rest, t.length = n

theorem SortBuffer.fits_rewind {n : Nat} {b : SortBuffer} (h : b.Fits n) : b.rewind.Fits n := by
  cases b with
  | filling read => exact h
  | ready all rest => exact ⟨h.1, h.1⟩

/-! ## Steps -/

/-- Whether a step leaves a state with some property and yields a tuple of `n` values, if any. -/
def Step.Fits {σ : Type} (fits : σ → Prop) (n : Nat) : Step σ → Prop
  | yield t s => t.length = n ∧ fits s
  | skip s => fits s
  | done s => fits s
  | fail _ s => fits s

namespace Step

variable {σ τ : Type} {fits : σ → Prop} {n m : Nat} {o : Step σ}

theorem fits_map {g : σ → τ} {fits' : τ → Prop} (hg : ∀ s, fits s → fits' (g s))
    (h : o.Fits fits n) : (o.map g).Fits fits' n := by
  cases o with
  | yield t s => exact ⟨h.1, hg s h.2⟩
  | skip s => exact hg s h
  | done s => exact hg s h
  | fail e s => exact hg s h

theorem fits_filter (test : Tuple → Except Error Bool) (h : o.Fits fits n) :
    (o.filter test).Fits fits n := by
  cases o with
  | yield t s =>
    simp only [filter]
    split
    · exact h
    · exact h.2
    · exact h.2
  | skip s => exact h
  | done s => exact h
  | fail e s => exact h

theorem fits_transform {f : Tuple → Except Error Tuple} (hf : ∀ t u, f t = .ok u → u.length = m)
    (h : o.Fits fits n) : (o.transform f).Fits fits m := by
  cases o with
  | yield t s =>
    simp only [transform]
    split
    · next u hu => exact ⟨hf t u hu, h.2⟩
    · exact h.2
  | skip s => exact h
  | done s => exact h
  | fail e s => exact h

end Step

theorem fits_stepRows {n : Nat} {rows : List Tuple} (h : ∀ t ∈ rows, t.length = n) :
    (stepRows rows).Fits (fun rows => ∀ t ∈ rows, t.length = n) n := by
  cases rows with
  | nil => exact h
  | cons t rows => exact List.forall_mem_cons.1 h

/-- A reader with a fixed arity yields tuples of that arity only. -/
theorem Reader.length_of_decode {path : String} {n lineNo : Nat} {line : Except IoFault String}
    {t : Tuple} (h : decode path (some n) lineNo line = .ok t) : t.length = n := by
  unfold decode at h
  split at h
  · cases h
  · split at h
    · cases h
    · split at h
      · next harity =>
        cases h
        rw [Option.all_some, decide_eq_true_eq] at harity
        exact harity.symm
      · cases h

theorem Reader.fits_step {n : Nat} {r : Reader} (h : r.arity = some n) :
    r.step.Fits (fun r => r.arity = some n) n := by
  obtain ⟨path, source, lineNo, arity⟩ := r
  subst h
  unfold Reader.step Reader.next
  cases source.next with
  | none => rfl
  | some read =>
    obtain ⟨line, source'⟩ := read
    cases hline : decode path (some n) (lineNo + 1) line with
    | error e => simp [Step.Fits, Except.map, hline]
    | ok t => simp [Step.Fits, Except.map, hline, length_of_decode hline]

namespace Plan

variable {fs : FileStore} {p q r : Plan}

/-! ## Trees -/

/-- Whether the rows and the positions in a tree fit its schemas. -/
def Shaped : Plan → Prop
  | values schema rows => ∀ t ∈ rows, t.length = schema.length
  | scan _ _ _ _ => True
  | select child _ => child.Shaped
  | project child none => child.Shaped
  | project child (some positions) => child.Shaped ∧ ∀ i ∈ positions, i < child.schema.length
  | join left right _ => left.Shaped ∧ right.Shaped
  | sort child _ _ => child.Shaped
  | distinct child => child.Shaped

/-- Whether the tuples that a run holds fit the schemas of its tree. -/
def Fits : (p : Plan) → p.State → Prop
  | values schema _, s => ∀ t ∈ s, t.length = schema.length
  | scan _ _ schema _, s => ∀ r, s = some r → r.arity = some schema.length
  | select child _, s => child.Fits s
  | project child _, s => child.Fits s
  | join left right _, s => left.Fits s.left ∧ right.Fits s.right ∧
      ∀ t, s.current = some t → t.length = left.schema.length
  | sort child _ _, s => child.Fits s.child ∧ s.buffer.Fits child.schema.length
  | distinct child, s => child.Fits s.child

theorem fits_start (h : p.Shaped) : p.Fits p.start := by
  induction p with
  | values schema rows => exact h
  | scan table qualifier schema path =>
    intro r hr
    cases hr
  | select child predicate ih => exact ih h
  | project child positions ih =>
    cases positions with
    | none => exact ih h
    | some positions => exact ih h.1
  | join left right predicate ihl ihr =>
    refine ⟨ihl h.1, ihr h.2, ?_⟩
    intro t ht
    cases ht
  | sort child keys order ih => exact ⟨ih h, fun t ht => by cases ht⟩
  | distinct child ih => exact ih h

theorem arity_of_openScan {schema : Schema} {path : String} {r : Reader}
    (h : openScan fs schema path = .ok r) : r.arity = some schema.length := by
  unfold openScan Reader.openFile at h
  split at h
  · cases h
    rfl
  · cases h

theorem fits_rewind (fs : FileStore) (h : p.Shaped) {s : p.State} (hs : p.Fits s) :
    p.Fits (p.rewind fs s).2 := by
  induction p with
  | values schema rows => exact h
  | scan table qualifier schema path =>
    simp only [rewind]
    split
    · next r hr =>
      intro r' hr'
      cases hr'
      exact arity_of_openScan hr
    · intro r hr
      cases hr
  | select child predicate ih => exact ih h hs
  | project child positions ih =>
    cases positions with
    | none => exact ih h hs
    | some positions => exact ih h.1 hs
  | join left right predicate ihl ihr =>
    have hl := ihl h.1 hs.1
    have hr := ihr h.2 hs.2.1
    simp only [rewind]
    split
    · next e l hrewind =>
      rw [hrewind] at hl
      exact ⟨hl, hs.2.1, fun t ht => by cases ht⟩
    · next l hrewind =>
      rw [hrewind] at hl
      exact ⟨hl, hr, fun t ht => by cases ht⟩
  | sort child keys order ih => exact ⟨hs.1, SortBuffer.fits_rewind hs.2⟩
  | distinct child ih => exact ih h hs

/-! ## Runs -/

theorem fits_stepScan (table qualifier : String) {schema : Schema} {path : String}
    {s : Option Reader} (hs : (scan table qualifier schema path).Fits s) :
    (stepScan (openScan fs schema path) s).Fits ((scan table qualifier schema path).Fits)
      schema.length := by
  have hstep {r : Reader} (hr : r.arity = some schema.length) :
      (r.step.map some).Fits ((scan table qualifier schema path).Fits) schema.length := by
    refine Step.fits_map ?_ (Reader.fits_step hr)
    intro r' hr' r'' heq
    cases heq
    exact hr'
  cases s with
  | some r => exact hstep (hs r rfl)
  | none =>
    simp only [stepScan]
    split
    · next r hr => exact hstep (arity_of_openScan hr)
    · exact hs

theorem fits_stepJoin {left right : Plan} {predicate : Option Predicate} (hright : right.Shaped)
    (hl : ∀ s, left.Fits s → (left.step fs s).Fits left.Fits left.schema.length)
    (hr : ∀ s, right.Fits s → (right.step fs s).Fits right.Fits right.schema.length)
    {s : JoinState left.State right.State} (hs : (join left right predicate).Fits s) :
    (stepJoin (left.step fs) (right.step fs) (right.rewind fs) predicate s).Fits
      ((join left right predicate).Fits) (left.schema.length + right.schema.length) := by
  obtain ⟨l, r, current⟩ := s
  obtain ⟨hleft, hrightFits, hcurrent⟩ := hs
  cases current with
  | none =>
    have hl := hl l hleft
    have hrewind := fits_rewind fs hright hrightFits
    simp only [stepJoin]
    split
    · next t l' h =>
      rw [h] at hl
      obtain ⟨ht, hl⟩ := hl
      split
      · next r' hrw =>
        rw [hrw] at hrewind
        refine ⟨hl, hrewind, fun u hu => ?_⟩
        cases hu
        exact ht
      · next e r' hrw =>
        rw [hrw] at hrewind
        exact ⟨hl, hrewind, hcurrent⟩
    all_goals
      next l' h =>
      rw [h] at hl
      exact ⟨hl, hrightFits, hcurrent⟩
  | some t =>
    have hr := hr r hrightFits
    have ht := hcurrent t rfl
    simp only [stepJoin]
    split
    · next u r' h =>
      rw [h] at hr
      have hstate : (join left right predicate).Fits
          (⟨l, r', some t⟩ : JoinState left.State right.State) := ⟨hleft, hr.2, hcurrent⟩
      split
      · refine ⟨?_, hstate⟩
        rw [Tuple.length_append, ht, hr.1]
      · exact hstate
      · exact hstate
    · next r' h =>
      rw [h] at hr
      exact ⟨hleft, hr, hcurrent⟩
    · next r' h =>
      rw [h] at hr
      exact ⟨hleft, hr, fun u hu => by cases hu⟩
    · next e r' h =>
      rw [h] at hr
      exact ⟨hleft, hr, hcurrent⟩

theorem fits_stepSort {child : Plan} {keys : List ColumnRef} {order : List Nat}
    (hc : ∀ s, child.Fits s → (child.step fs s).Fits child.Fits child.schema.length)
    {s : SortState child.State} (hs : (sort child keys order).Fits s) :
    (stepSort (child.step fs) order s).Fits ((sort child keys order).Fits)
      child.schema.length := by
  obtain ⟨c, buffer⟩ := s
  obtain ⟨hchild, hbuffer⟩ := hs
  cases buffer with
  | filling read =>
    have hc := hc c hchild
    simp only [stepSort]
    split
    · next t c' h =>
      rw [h] at hc
      exact ⟨hc.2, List.forall_mem_cons.2 ⟨hc.1, hbuffer⟩⟩
    · next c' h =>
      rw [h] at hc
      exact ⟨hc, hbuffer⟩
    · next c' h =>
      rw [h] at hc
      -- sorting only moves the tuples that were read
      have hsorted : ∀ t ∈ sortTuples order read.reverse, t.length = child.schema.length :=
        fun t ht => hbuffer t (List.mem_reverse.1 (List.mem_mergeSort.1 ht))
      exact ⟨hc, hsorted, hsorted⟩
    · next e c' h =>
      rw [h] at hc
      exact ⟨hc, fun t ht => by cases ht⟩
  | ready all rest =>
    refine Step.fits_map ?_ (fits_stepRows hbuffer.2)
    exact fun rest' hrest => ⟨hchild, hbuffer.1, hrest⟩

theorem fits_stepDistinct {child : Plan}
    (hc : ∀ s, child.Fits s → (child.step fs s).Fits child.Fits child.schema.length)
    {s : DistinctState child.State} (hs : (distinct child).Fits s) :
    (stepDistinct (child.step fs) s).Fits ((distinct child).Fits) child.schema.length := by
  have hc := hc s.child hs
  simp only [stepDistinct]
  split
  · next t c h =>
    rw [h] at hc
    split
    · exact hc.2
    · exact hc
  all_goals
    next h =>
    rw [h] at hc
    exact hc

/-- **Every step keeps a run fitting and yields a tuple that fits the schema**, if it yields one. -/
theorem fits_step (fs : FileStore) (h : p.Shaped) {s : p.State} (hs : p.Fits s) :
    (p.step fs s).Fits p.Fits p.schema.length := by
  induction p with
  | values schema rows => exact fits_stepRows hs
  | scan table qualifier schema path => exact fits_stepScan table qualifier hs
  | select child predicate ih => exact Step.fits_filter _ (ih h hs)
  | project child positions ih =>
    cases positions with
    | none => exact ih h hs
    | some positions =>
      obtain ⟨hchild, hpositions⟩ := h
      refine Step.fits_transform ?_ (ih hchild hs)
      intro t u hu
      -- each position is a column of the child, so the projected schema has one for each
      have hlength : (project child (some positions)).schema.length = positions.length := by
        show (positions.filterMap child.schema.column?).length = positions.length
        rw [List.length_filterMap_eq_countP, List.countP_eq_length]
        intro i hi
        show (child.schema.columns[i]?).isSome
        rw [List.getElem?_eq_getElem (hpositions i hi)]
        rfl
      rw [hlength]
      unfold projectTuple at hu
      split at hu
      · next v hv =>
        cases hu
        exact Tuple.length_of_project? hv
      · cases hu
  | join left right predicate ihl ihr =>
    show (stepJoin _ _ _ _ _).Fits _ (left.schema ++ right.schema).length
    rw [Schema.length_append]
    exact fits_stepJoin h.2 (fun _ hs => ihl h.1 hs) (fun _ hs => ihr h.2 hs) hs
  | sort child keys order ih => exact fits_stepSort (fun _ hs => ih h hs) hs
  | distinct child ih => exact fits_stepDistinct (fun _ hs => ih h hs) hs

/-- The tuples of a stream fit the schema. -/
theorem length_of_mem_stream (fs : FileStore) (h : p.Shaped) {s : p.State} (hs : p.Fits s) :
    ∀ t ∈ (p.stream fs s).rows, t.length = p.schema.length := by
  fun_induction p.stream fs s with
  | case1 s t s' hstep ih =>
    have hfits := fits_step fs h hs
    rw [hstep] at hfits
    exact List.forall_mem_cons.2 ⟨hfits.1, ih hfits.2⟩
  | case2 s s' hstep ih =>
    have hfits := fits_step fs h hs
    rw [hstep] at hfits
    exact ih hfits
  | case3 s s' hstep => exact fun t ht => by cases ht
  | case4 s e s' hstep => exact fun t ht => by cases ht

/-! ## Building -/

theorem shaped_selectBy {e : Expr} (h : p.selectBy e = .ok q) (hp : p.Shaped) : q.Shaped := by
  obtain ⟨predicate, -, h⟩ := bind_eq_ok_iff.1 h
  cases h
  exact hp

theorem shaped_joinOn {e : Option Expr} (h : p.joinOn q e = .ok r) (hp : p.Shaped)
    (hq : q.Shaped) : r.Shaped := by
  obtain ⟨schema, -, h⟩ := bind_eq_ok_iff.1 h
  cases e with
  | none =>
    cases h
    exact ⟨hp, hq⟩
  | some e =>
    obtain ⟨predicate, -, h⟩ := bind_eq_ok_iff.1 h
    cases h
    exact ⟨hp, hq⟩

theorem lt_of_mem_positionsOfItem {s : Schema} {item : SelectItem} {positions : List Nat}
    (h : positionsOfItem s item = .ok positions) : ∀ i ∈ positions, i < s.length := by
  unfold positionsOfItem at h
  split at h
  · cases h
    exact fun i hi => List.mem_range.1 hi
  · obtain ⟨i, hi, h⟩ := bind_eq_ok_iff.1 h
    cases h
    exact List.forall_mem_singleton.2 (Schema.lt_of_indexOf hi)
  · cases h

/-- The positions that a SELECT list is bound to are columns. -/
theorem lt_of_mem_flatten {s : Schema} {items : List SelectItem} {positions : List (List Nat)}
    (h : items.mapM (positionsOfItem s) = .ok positions) :
    ∀ i ∈ positions.flatten, i < s.length := by
  intro i hi
  obtain ⟨is, his, hi⟩ := List.mem_flatten.1 hi
  obtain ⟨item, -, hitem⟩ := exists_of_mem_result h his
  exact lt_of_mem_positionsOfItem hitem i hi

theorem shaped_projectTo {items : List SelectItem} (h : p.projectTo items = .ok q)
    (hp : p.Shaped) : q.Shaped := by
  unfold projectTo at h
  split at h
  · cases h
    exact hp
  · obtain ⟨positions, hpositions, h⟩ := bind_eq_ok_iff.1 h
    cases h
    exact ⟨hp, lt_of_mem_flatten hpositions⟩

theorem shaped_sortBy {keys : List ColumnRef} (h : p.sortBy keys = .ok q) (hp : p.Shaped) :
    q.Shaped := by
  obtain ⟨positions, -, h⟩ := bind_eq_ok_iff.1 h
  cases h
  exact hp

/-- Every way of building a tree keeps it shaped. -/
theorem shaped_keptByBuilding : KeptByBuilding Shaped where
  scanOf h := by
    obtain ⟨schema, -, h⟩ := bind_eq_ok_iff.1 h
    cases h
    trivial
  selectBy := shaped_selectBy
  joinOn := shaped_joinOn
  projectTo := shaped_projectTo
  sortBy := shaped_sortBy
  sortAll hp := hp
  distinct hp := hp

end Plan

/-- **The plan of a SELECT block is shaped.** -/
theorem Planner.shaped_planSelect {c : Catalog} {block : Select} {p : Plan}
    (h : (planSelect c block).1 = .ok p) : p.Shaped :=
  Plan.shaped_keptByBuilding.of_planSelect h

end FlatQuery
