import FlatQuery.Bound
import FlatQuery.Conjunct
import FlatQuery.Proofs.Results

set_option autoImplicit false

/-! # Truth values of expressions

`Expr.truth` binds an expression to a schema and evaluates it for one tuple. It depends on the
schema and the tuple only through the values of the columns that the expression names
(`truth_congr`), and the truth value of a conjunction is that of its parts (`Conjoins`). -/

namespace FlatQuery

/-! ## Columns of schemas in a row -/

namespace Schema

variable {s s' : Schema} {q : Option String} {n : String} {i : Nat}

theorem positionsOf_append (s s' : Schema) (q : Option String) (n : String) :
    (s ++ s').positionsOf q n =
      s.positionsOf q n ++ (s'.positionsOf q n).map (s.length + ·) := by
  show (((s.columns ++ s'.columns).zipIdx.filter _).map Prod.snd : List Nat) = _
  rw [List.zipIdx_append, List.filter_append, List.map_append, Nat.zero_add,
    @List.zipIdx_eq_map_add _ s'.columns, List.filter_map, List.map_map, positionsOf, positionsOf,
    List.map_map]
  rfl

/-- A position in a schema at which a name stands is one of its columns. -/
theorem lt_of_mem_positionsOf (h : i ∈ s.positionsOf q n) : i < s.length := by
  obtain ⟨⟨c, j⟩, hc, rfl⟩ := List.mem_map.1 h
  have hget := List.mem_zipIdx_iff_getElem?.1 (List.mem_filter.1 hc).1
  exact (List.getElem?_eq_some_iff.1 hget).1

/-- A name stands for the first of its positions, which is the only one if it is qualified. -/
theorem indexOf_eq_ok_iff : s.indexOf q n = .ok i ↔
    ∃ more, s.positionsOf q n = i :: more ∧ (q ≠ none → more = []) := by
  unfold indexOf
  cases s.positionsOf q n with
  | nil => simp
  | cons j more =>
    cases q with
    | none => simp
    | some q =>
      cases more with
      | nil => simp
      | cons k more => simp

theorem indexOf_append_left (h : s.indexOf q n = .ok i)
    (hq : q ≠ none → s'.positionsOf q n = []) : (s ++ s').indexOf q n = .ok i := by
  obtain ⟨more, hpositions, hmore⟩ := indexOf_eq_ok_iff.1 h
  rw [indexOf_eq_ok_iff, positionsOf_append, hpositions]
  refine ⟨_, rfl, ?_⟩
  intro hsome
  rw [hmore hsome, hq hsome]
  rfl

theorem indexOf_append_right (hs : s.positionsOf q n = []) (h : s'.indexOf q n = .ok i) :
    (s ++ s').indexOf q n = .ok (s.length + i) := by
  obtain ⟨more, hpositions, hmore⟩ := indexOf_eq_ok_iff.1 h
  rw [indexOf_eq_ok_iff, positionsOf_append, hs, hpositions]
  refine ⟨_, rfl, ?_⟩
  intro hsome
  rw [hmore hsome]
  rfl

theorem lt_of_indexOf (h : s.indexOf q n = .ok i) : i < s.length := by
  obtain ⟨more, hpositions, -⟩ := indexOf_eq_ok_iff.1 h
  apply @lt_of_mem_positionsOf s q n
  rw [hpositions]
  exact List.mem_cons_self ..

/-- The value that a column has in a tuple of the schema. -/
def valueOf (s : Schema) (t : Tuple) (ref : ColumnRef) : Option Value :=
  (s.indexOf ref.table ref.column).toOption.bind t.get?

theorem valueOf_eq_some_iff {t : Tuple} {ref : ColumnRef} {v : Value} :
    s.valueOf t ref = some v ↔
      ∃ i, s.indexOf ref.table ref.column = .ok i ∧ t.get? i = some v := by
  unfold valueOf
  cases s.indexOf ref.table ref.column with
  | error e => simp [Except.toOption]
  | ok i => simp [Except.toOption]

/-- A reference that stands for a position has a value in every tuple of the schema. -/
theorem exists_valueOf {t : Tuple} {ref : ColumnRef} (hlength : t.length = s.length)
    (h : s.indexOf ref.table ref.column = .ok i) :
    ∃ v, t.get? i = some v ∧ s.valueOf t ref = some v := by
  have hlt : i < t.values.length := by
    have hlt' := lt_of_indexOf h
    rw [← hlength] at hlt'
    exact hlt'
  have hget : t.get? i = some t.values[i] := List.getElem?_eq_getElem hlt
  exact ⟨_, hget, valueOf_eq_some_iff.2 ⟨i, h, hget⟩⟩

theorem valueOf_append_left {t : Tuple} {ref : ColumnRef} {v : Value} (t' : Tuple)
    (h : s.valueOf t ref = some v)
    (hq : ref.table ≠ none → s'.positionsOf ref.table ref.column = []) :
    (s ++ s').valueOf (t ++ t') ref = some v := by
  obtain ⟨i, hi, hget⟩ := valueOf_eq_some_iff.1 h
  refine valueOf_eq_some_iff.2 ⟨i, indexOf_append_left hi hq, ?_⟩
  have hlt : i < t.values.length := (List.getElem?_eq_some_iff.1 hget).1
  exact (List.getElem?_append_left hlt).trans hget

theorem valueOf_append_right {t t' : Tuple} {ref : ColumnRef} {v : Value}
    (hlength : t.length = s.length) (hs : s.positionsOf ref.table ref.column = [])
    (h : s'.valueOf t' ref = some v) : (s ++ s').valueOf (t ++ t') ref = some v := by
  obtain ⟨i, hi, hget⟩ := valueOf_eq_some_iff.1 h
  refine valueOf_eq_some_iff.2 ⟨s.length + i, indexOf_append_right hs hi, ?_⟩
  rw [← hlength]
  show (t.values ++ t'.values)[t.values.length + i]? = some v
  rw [List.getElem?_append_right (Nat.le_add_right ..), Nat.add_sub_cancel_left]
  exact hget

end Schema

/-! ## Integer expressions -/

namespace BoundExpr

/-- Whether two bound expressions are written alike and have the same value for two tuples. -/
def Agree (t t' : Tuple) (b b' : BoundExpr) : Prop :=
  b.text = b'.text ∧ b.eval t = b'.eval t'

/-- An expression is bound alike to schemas that give its columns the same values. -/
theorem bind_congr {s s' : Schema} {t t' : Tuple} {e : Expr}
    (h : ∀ ref ∈ e.columns, ∃ v, s.valueOf t ref = some v ∧ s'.valueOf t' ref = some v) :
    Alike (Agree t t') (bind s e) (bind s' e) := by
  induction e with
  | column ref =>
    obtain ⟨v, hv, hv'⟩ := h ref (List.mem_singleton_self ref)
    obtain ⟨i, hi, hget⟩ := Schema.valueOf_eq_some_iff.1 hv
    obtain ⟨i', hi', hget'⟩ := Schema.valueOf_eq_some_iff.1 hv'
    unfold bind
    rw [hi, hi']
    refine ⟨rfl, ?_⟩
    simp only [eval, hget, hget']
  | literal value => exact ⟨rfl, rfl⟩
  | binary op left right ihl ihr =>
    cases op with
    | compare op => rfl
    | and => rfl
    | arithmetic op =>
      have hl := ihl fun ref href => h ref (List.mem_append_left _ href)
      have hr := ihr fun ref href => h ref (List.mem_append_right _ href)
      unfold bind
      apply hl.bind
      rintro l l' ⟨hltext, hleval⟩
      apply hr.bind
      rintro r r' ⟨hrtext, hreval⟩
      -- the text matters as well, since the error of an operation shows it
      have htext : (arithmetic op l r).text = (arithmetic op l' r').text := by
        simp only [text, hltext, hrtext]
      refine ⟨htext, ?_⟩
      simp only [eval, hleval, hreval, htext]
  | nested inner ih =>
    unfold bind
    apply (ih h).bind
    rintro b b' ⟨htext, heval⟩
    refine ⟨?_, ?_⟩
    · simp only [text, htext]
    · simp only [eval, heval]

end BoundExpr

/-! ## Truth values -/

namespace BoundPredicate

theorem bind_congr {s s' : Schema} {t t' : Tuple} {e : Expr}
    (h : ∀ ref ∈ e.columns, ∃ v, s.valueOf t ref = some v ∧ s'.valueOf t' ref = some v) :
    Alike (fun b b' => b.eval t = b'.eval t') (bind s e) (bind s' e) := by
  induction e with
  | column ref => rfl
  | literal value => rfl
  | binary op left right ihl ihr =>
    have hl : ∀ ref ∈ left.columns, _ := fun ref href => h ref (List.mem_append_left _ href)
    have hr : ∀ ref ∈ right.columns, _ := fun ref href => h ref (List.mem_append_right _ href)
    cases op with
    | arithmetic op => rfl
    | compare op =>
      unfold bind
      apply (BoundExpr.bind_congr hl).bind
      rintro l l' ⟨-, hleval⟩
      apply (BoundExpr.bind_congr hr).bind
      rintro r r' ⟨-, hreval⟩
      show (compare op l r).eval t = (compare op l' r').eval t'
      simp only [eval, hleval, hreval]
    | and =>
      unfold bind
      apply (ihl hl).bind
      intro l l' hleval
      apply (ihr hr).bind
      intro r r' hreval
      show (l.and r).eval t = (l'.and r').eval t'
      simp only [eval, hleval, hreval]
  | nested inner ih =>
    unfold bind
    exact ih h

end BoundPredicate

namespace Expr

/-- The truth value of an expression for a tuple of the schema. -/
def truth (s : Schema) (t : Tuple) (e : Expr) : Except Error Bool :=
  BoundPredicate.bind s e >>= BoundPredicate.eval t

variable {s s' : Schema} {t t' : Tuple} {e : Expr}

theorem truth_of_bind {b : BoundPredicate} (h : BoundPredicate.bind s e = .ok b) :
    e.truth s t = b.eval t := by
  unfold truth
  rw [h]
  rfl

/-- **A truth value depends on the values of the columns only**, not on where they stand. -/
theorem truth_congr
    (h : ∀ ref ∈ e.columns, ∃ v, s.valueOf t ref = some v ∧ s'.valueOf t' ref = some v) :
    e.truth s t = e.truth s' t' := by
  unfold truth
  exact (BoundPredicate.bind_congr h).bind_eq fun b b' heval => heval

end Expr

/-! ## Conjunctions -/

/-- Whether `o` can be the truth value of a conjunction whose parts have the truth values `os`: it
is true if all parts are, false only if some part is, and an error only if some part is. -/
structure Conjoins (o : Except Error Bool) (os : List (Except Error Bool)) : Prop where
  true_iff : o = .ok true ↔ ∀ x ∈ os, x = .ok true
  false_of : o = .ok false → ∃ x ∈ os, x = .ok false
  ok_of : (∀ x ∈ os, ∃ v, x = .ok v) → ∃ v, o = .ok v

namespace Conjoins

variable {o o' : Except Error Bool} {os os' : List (Except Error Bool)}

theorem nil : Conjoins (.ok true) [] where
  true_iff := by simp
  false_of := by simp
  ok_of := by simp

theorem single (o : Except Error Bool) : Conjoins o [o] where
  true_iff := by simp
  false_of := fun h => ⟨o, List.mem_singleton_self o, h⟩
  ok_of := by simp

/-- The right part of a conjunction is looked at only if the left part is true. -/
theorem and (h : Conjoins o os) (h' : Conjoins o' os') :
    Conjoins (o >>= fun v => if v then o' else .ok false) (os ++ os') := by
  cases o with
  | error e =>
    -- an error on the left is the outcome, and it means that some part on the left is an error
    show Conjoins (.error e) (os ++ os')
    refine ⟨⟨fun hv => ?_, fun hall => ?_⟩, fun hv => ?_, fun hall => ?_⟩
    · cases hv
    · have htrue := h.true_iff.2 fun x hx => hall x (List.mem_append_left _ hx)
      cases htrue
    · cases hv
    · obtain ⟨v, hv⟩ := h.ok_of fun x hx => hall x (List.mem_append_left _ hx)
      cases hv
  | ok v =>
    cases v with
    | false =>
      -- the right part is not looked at, it may be an error
      obtain ⟨x, hx, hfalse⟩ := h.false_of rfl
      refine ⟨⟨fun hv => ?_, fun hall => ?_⟩, fun _ => ⟨x, List.mem_append_left _ hx, hfalse⟩,
        fun _ => ⟨false, rfl⟩⟩
      · cases hv
      · have htrue := hall x (List.mem_append_left _ hx)
        rw [hfalse] at htrue
        cases htrue
    | true =>
      show Conjoins o' (os ++ os')
      have hleft := h.true_iff.1 rfl
      refine ⟨⟨?_, ?_⟩, ?_, ?_⟩
      · intro ho' x hx
        rcases List.mem_append.1 hx with hx | hx
        · exact hleft x hx
        · exact h'.true_iff.1 ho' x hx
      · intro hall
        exact h'.true_iff.2 fun x hx => hall x (List.mem_append_right _ hx)
      · intro ho'
        obtain ⟨x, hx, hfalse⟩ := h'.false_of ho'
        exact ⟨x, List.mem_append_right _ hx, hfalse⟩
      · intro hall
        exact h'.ok_of fun x hx => hall x (List.mem_append_right _ hx)

end Conjoins

/-- The truth value of a conjunction whose parts have the given truth values: the parts are looked
at from left to right up to the first that is not true. -/
def conjoin : List (Except Error Bool) → Except Error Bool
  | [] => .ok true
  | o :: os => o >>= fun v => if v then conjoin os else .ok false

theorem conjoin_singleton (o : Except Error Bool) : conjoin [o] = o := by
  cases o with
  | error e => rfl
  | ok v => cases v <;> rfl

/-- The parts on the right are looked at only if all parts on the left are true. -/
theorem conjoin_append (os os' : List (Except Error Bool)) :
    conjoin (os ++ os') = conjoin os >>= fun v => if v then conjoin os' else .ok false := by
  induction os with
  | nil => rfl
  | cons o os ih =>
    cases o with
    | error e => rfl
    | ok v =>
      cases v with
      | false => rfl
      | true => exact ih

theorem conjoin_and (o o' : Except Error Bool) (os : List (Except Error Bool)) :
    conjoin ((o >>= fun v => if v then o' else .ok false) :: os) = conjoin (o :: o' :: os) := by
  cases o with
  | error e => rfl
  | ok v => cases v <;> rfl

theorem conjoins_conjoin (os : List (Except Error Bool)) : Conjoins (conjoin os) os := by
  induction os with
  | nil => exact .nil
  | cons o os ih => exact (Conjoins.single o).and ih

namespace Expr

variable {s : Schema} {t : Tuple} {e : Expr} {es : List Expr} {b : BoundPredicate}

/-- Whether an expression is bound to a schema as a predicate. -/
def Binds (s : Schema) (e : Expr) : Prop := ∃ b, BoundPredicate.bind s e = .ok b

theorem binds_and {l r : Expr} : (l.and r).Binds s ↔ l.Binds s ∧ r.Binds s := by
  constructor
  · rintro ⟨b, hb⟩
    unfold BoundPredicate.bind at hb
    obtain ⟨bl, hl, hb⟩ := bind_eq_ok_iff.1 hb
    obtain ⟨br, hr, -⟩ := bind_eq_ok_iff.1 hb
    exact ⟨⟨bl, hl⟩, br, hr⟩
  · rintro ⟨⟨bl, hl⟩, br, hr⟩
    refine ⟨.and bl br, ?_⟩
    unfold BoundPredicate.bind
    rw [hl, hr]
    rfl

theorem truth_and {l r : Expr} (hl : l.Binds s) (hr : r.Binds s) :
    (l.and r).truth s t = l.truth s t >>= fun v => if v then r.truth s t else .ok false := by
  obtain ⟨bl, hl⟩ := hl
  obtain ⟨br, hr⟩ := hr
  have hand : BoundPredicate.bind s (l.and r) = .ok (.and bl br) := by
    unfold BoundPredicate.bind
    rw [hl, hr]
    rfl
  rw [truth_of_bind hand, truth_of_bind hl, truth_of_bind hr, BoundPredicate.eval]
  rfl

/-- The conjunction of a list is bound exactly when all its parts are. -/
theorem binds_foldl_and : (es.foldl and e).Binds s ↔ ∀ e' ∈ e :: es, e'.Binds s := by
  induction es generalizing e with
  | nil => simp
  | cons e' es ih =>
    rw [List.foldl_cons, ih]
    simp only [List.forall_mem_cons, binds_and, and_assoc]

theorem truth_foldl_and (h : ∀ e' ∈ e :: es, e'.Binds s) :
    (es.foldl and e).truth s t = conjoin ((e :: es).map (truth s t)) := by
  induction es generalizing e with
  | nil => exact (conjoin_singleton _).symm
  | cons e' es ih =>
    simp only [List.forall_mem_cons] at h
    obtain ⟨hbinds, hbinds', hrest⟩ := h
    rw [List.foldl_cons, ih (List.forall_mem_cons.2 ⟨binds_and.2 ⟨hbinds, hbinds'⟩, hrest⟩),
      List.map_cons, truth_and hbinds hbinds']
    exact conjoin_and _ _ _

theorem binds_conjunction (h : conjunction es = some e) (hb : e.Binds s) :
    ∀ e' ∈ es, e'.Binds s := by
  cases es with
  | nil => cases h
  | cons e' es =>
    cases h
    exact binds_foldl_and.1 hb

/-- **The conjunction that the planner makes of some predicates looks at them one after the other**,
up to the first that is not true. -/
theorem truth_conjunction (h : conjunction es = some e) (hb : e.Binds s) :
    e.truth s t = conjoin (es.map (truth s t)) := by
  have hall := binds_conjunction h hb
  cases es with
  | nil => cases h
  | cons e' es =>
    cases h
    exact truth_foldl_and hall

/-- A condition is bound exactly when its conjuncts are. -/
theorem binds_conjuncts : (∀ e' ∈ e.conjuncts, e'.Binds s) ↔ e.Binds s := by
  induction e with
  | column ref => exact List.forall_mem_singleton
  | literal value => exact List.forall_mem_singleton
  | binary op left right ihl ihr =>
    cases op with
    | compare op => exact List.forall_mem_singleton
    | arithmetic op => exact List.forall_mem_singleton
    | and => rw [conjuncts, List.forall_mem_append, ihl, ihr, ← binds_and]
  | nested inner ih =>
    rw [conjuncts]
    split
    · exact ih
    · exact List.forall_mem_singleton

/-- **A condition looks at its conjuncts one after the other**, up to the first that is not true. -/
theorem truth_conjuncts (hb : e.Binds s) :
    e.truth s t = conjoin (e.conjuncts.map (truth s t)) := by
  induction e with
  | column ref => exact (conjoin_singleton _).symm
  | literal value => exact (conjoin_singleton _).symm
  | binary op left right ihl ihr =>
    cases op with
    | compare op => exact (conjoin_singleton _).symm
    | arithmetic op => exact (conjoin_singleton _).symm
    | and =>
      obtain ⟨hl, hr⟩ := binds_and.1 hb
      rw [conjuncts, List.map_append, conjoin_append, ← ihl hl, ← ihr hr]
      exact truth_and hl hr
  | nested inner ih =>
    rw [conjuncts]
    split
    · exact ih hb
    · exact (conjoin_singleton _).symm

end Expr

end FlatQuery
