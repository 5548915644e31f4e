import FlatQuery.Plan.Run

set_option autoImplicit false

/-! # Failures

Which errors a computation or a step ends in. A step of an operator fails as its children do, or as
what it evaluates on the way does (`Step.failsAs_filter`, `failsAs_stepJoin` and their like). Files
fail in two ways, `Error.OfFile`. The main result is `Plan.failsAs_step`: pulling fails with the
errors of files, of positions and of arithmetic only, whatever the tree and its state are. -/

namespace FlatQuery

/-! ## The errors of a computation -/

/-- Whether a computation that fails does so with an error that satisfies `P`. -/
def FailsAs {α : Type} (P : Error → Prop) (x : Except Error α) : Prop := ∀ e, x = .error e → P e

namespace FailsAs

variable {α β : Type} {P Q : Error → Prop} {x : Except Error α} {f : α → Except Error β}

theorem ok (a : α) : FailsAs P (.ok a) := by
  intro e h
  cases h

theorem error {e : Error} (h : P e) : FailsAs P (.error e : Except Error α) := by
  rintro e' ⟨⟩
  exact h

theorem of_exists (h : ∃ a, x = .ok a) : FailsAs P x := by
  obtain ⟨a, rfl⟩ := h
  exact ok a

theorem mono (hPQ : ∀ e, P e → Q e) (h : FailsAs P x) : FailsAs Q x := fun e he => hPQ e (h e he)

theorem bind (h : FailsAs P x) (hf : ∀ a, x = .ok a → FailsAs P (f a)) : FailsAs P (x >>= f) := by
  cases x with
  | ok a => exact hf a rfl
  | error e => exact error (h e rfl)

theorem map (h : FailsAs P x) (g : α → β) : FailsAs P (x.map g) := by
  cases x with
  | ok a => exact ok (g a)
  | error e => exact error (h e rfl)

theorem mapM {xs : List α} (h : ∀ a ∈ xs, FailsAs P (f a)) : FailsAs P (xs.mapM f) := by
  induction xs with
  | nil => exact ok []
  | cons a xs ih =>
    obtain ⟨ha, hxs⟩ := List.forall_mem_cons.1 h
    rw [List.mapM_cons]
    exact ha.bind fun b _ => (ih hxs).bind fun bs _ => ok (b :: bs)

end FailsAs

/-! ## The errors of a step -/

/-- Whether a step that fails does so with an error that satisfies `P`. -/
def Step.FailsAs {σ : Type} (P : Error → Prop) : Step σ → Prop
  | fail e _ => P e
  | _ => True

section Steps

variable {σ τ : Type} {P Q : Error → Prop}

namespace Step

variable {o : Step σ}

theorem FailsAs.mono (hPQ : ∀ e, P e → Q e) (h : o.FailsAs P) : o.FailsAs Q := by
  cases o with
  | fail e s => exact hPQ e h
  | yield t s => trivial
  | skip s => trivial
  | done s => trivial

theorem failsAs_map (g : σ → τ) (h : o.FailsAs P) : (o.map g).FailsAs P := by
  cases o <;> exact h

theorem failsAs_filter {test : Tuple → Except Error Bool} (h : o.FailsAs P)
    (htest : ∀ t s, o = .yield t s → FlatQuery.FailsAs P (test t)) : (o.filter test).FailsAs P := by
  cases o with
  | yield t s =>
    simp only [filter]
    split
    · trivial
    · trivial
    · next e he => exact htest t s rfl e he
  | skip s => trivial
  | done s => trivial
  | fail e s => exact h

theorem failsAs_transform {f : Tuple → Except Error Tuple} (h : o.FailsAs P)
    (hf : ∀ t s, o = .yield t s → FlatQuery.FailsAs P (f t)) : (o.transform f).FailsAs P := by
  cases o with
  | yield t s =>
    simp only [transform]
    split
    · trivial
    · next e he => exact hf t s rfl e he
  | skip s => trivial
  | done s => trivial
  | fail e s => exact h

end Step

theorem failsAs_stepRows (rows : List Tuple) : (stepRows rows).FailsAs P := by
  cases rows <;> trivial

theorem failsAs_stepScan {openReader : Except Error Reader} (hopen : FailsAs P openReader)
    (hread : ∀ r : Reader, r.step.FailsAs P) (s : Option Reader) :
    (stepScan openReader s).FailsAs P := by
  cases s with
  | some r => exact Step.failsAs_map some (hread r)
  | none =>
    simp only [stepScan]
    split
    · next r => exact Step.failsAs_map some (hread r)
    · next e => exact hopen e rfl

/-- A join fails as either side does, as the right side does when it is rewound, or as the
predicate does for a pair of tuples. -/
theorem failsAs_stepJoin {stepLeft : σ → Step σ} {stepRight : τ → Step τ}
    {rewindRight : τ → Except Error Unit × τ} {predicate : Option Predicate} {s : JoinState σ τ}
    (hl : (stepLeft s.left).FailsAs P) (hr : (stepRight s.right).FailsAs P)
    (hrewind : FailsAs P (rewindRight s.right).1)
    (haccepts : ∀ t u r, s.current = some t → stepRight s.right = .yield u r →
      FailsAs P (accepts predicate (t ++ u))) :
    (stepJoin stepLeft stepRight rewindRight predicate s).FailsAs P := by
  obtain ⟨l, r, current⟩ := s
  cases current with
  | none =>
    simp only [stepJoin]
    split
    · split
      · trivial
      · next e r' hrw =>
        rw [hrw] at hrewind
        exact hrewind e rfl
    · trivial
    · trivial
    · next e l' h =>
      rw [h] at hl
      exact hl
  | some t =>
    simp only [stepJoin]
    split
    · next u r' h =>
      split
      · trivial
      · trivial
      · next e he => exact haccepts t u r' rfl h e he
    · trivial
    · trivial
    · next e r' h =>
      rw [h] at hr
      exact hr

theorem failsAs_stepSort {step : σ → Step σ} {order : List Nat} {s : SortState σ}
    (hc : (step s.child).FailsAs P) : (stepSort step order s).FailsAs P := by
  obtain ⟨c, buffer⟩ := s
  cases buffer with
  | filling read =>
    simp only [stepSort]
    split
    · trivial
    · trivial
    · trivial
    · next e c' h =>
      rw [h] at hc
      exact hc
  | ready all rest => exact Step.failsAs_map _ (failsAs_stepRows rest)

theorem failsAs_stepDistinct {step : σ → Step σ} {s : DistinctState σ}
    (hc : (step s.child).FailsAs P) : (stepDistinct step s).FailsAs P := by
  simp only [stepDistinct]
  split
  · split <;> trivial
  · trivial
  · trivial
  · next e c' h =>
    rw [h] at hc
    exact hc

end Steps

/-! ## Files -/

namespace Error

/-- The errors of files: one that cannot be opened or read, and a line that is no tuple. -/
inductive OfFile : Error → Prop
  | unreadable (path : String) (fault : IoFault) : OfFile (.io path fault.message)
  | malformed (path : String) (line : Nat) (message : String) :
    OfFile (.malformedTuple path line message)

/-- The errors that pulling can end in, on whatever tree. -/
inductive OfPulling : Error → Prop
  | file {e : Error} (h : e.OfFile) : OfPulling e
  | position (column : String) (index arity : Nat) :
    OfPulling (.columnIndexOutOfRange column index arity)
  | arithmetic (fault : ArithmeticFault) (node : String) : OfPulling (fault.error node)

end Error

open Error

theorem Reader.fails_decode (path : String) (arity : Option Nat) (lineNo : Nat)
    (line : Except IoFault String) : FailsAs OfFile (decode path arity lineNo line) := by
  unfold decode
  split
  · exact .error (.unreadable ..)
  · split
    · exact .error (.malformed ..)
    · split
      · exact .ok _
      · exact .error (.malformed ..)

theorem Reader.failsAs_step (r : Reader) : r.step.FailsAs OfFile := by
  obtain ⟨path, source, lineNo, arity⟩ := r
  unfold Reader.step Reader.next
  cases source.next with
  | none => trivial
  | some read =>
    cases hline : decode path arity (lineNo + 1) read.1 with
    | ok t => simp [Step.FailsAs, Except.map, hline]
    | error e => simpa [Step.FailsAs, Except.map, hline] using fails_decode _ _ _ read.1 e hline

namespace Plan

theorem fails_openScan (fs : FileStore) (schema : Schema) (path : String) :
    FailsAs OfFile (openScan fs schema path) := by
  unfold openScan Reader.openFile
  split
  · exact .ok _
  · exact .error (.unreadable ..)

/-- A rewind fails only if a file cannot be opened. -/
theorem fails_rewind (fs : FileStore) (p : Plan) (s : p.State) :
    FailsAs OfFile (p.rewind fs s).1 := by
  induction p with
  | values schema rows => exact .ok _
  | scan table qualifier schema path =>
    simp only [rewind]
    split
    · exact .ok _
    · next e he => exact .error (fails_openScan fs schema path e he)
  | select child predicate ih => exact ih s
  | project child positions ih => exact ih s
  | join left right predicate ihl ihr =>
    have hl := ihl s.left
    simp only [rewind]
    split
    · next e l hrewind =>
      rw [hrewind] at hl
      exact hl
    · exact ihr s.right
  | sort child keys order ih => exact .ok _
  | distinct child ih => exact ih s.child

end Plan

/-! ## Pulling -/

theorem BoundExpr.fails_pulling (b : BoundExpr) (t : Tuple) : FailsAs OfPulling (b.eval t) := by
  induction b with
  | column index ref =>
    simp only [eval]
    split
    · exact .ok _
    · exact .error (.position ..)
  | literal value => exact .ok _
  | arithmetic op left right ihl ihr =>
    refine ihl.bind fun l _ => ihr.bind fun r _ => ?_
    split
    · exact .ok _
    · exact .error (.arithmetic ..)
  | nested inner ih => exact ih

theorem BoundPredicate.fails_pulling (b : BoundPredicate) (t : Tuple) :
    FailsAs OfPulling (b.eval t) := by
  induction b with
  | compare op left right =>
    exact (left.fails_pulling t).bind fun l _ => (right.fails_pulling t).bind fun r _ => .ok _
  | and left right ihl ihr =>
    refine ihl.bind fun v _ => ?_
    cases v with
    | true => exact ihr
    | false => exact .ok _

/-- **Pulling fails with the errors of files, positions and arithmetic only**, whatever the tree and
its state are. -/
theorem Plan.failsAs_step (fs : FileStore) (p : Plan) (s : p.State) :
    (p.step fs s).FailsAs OfPulling := by
  induction p with
  | values schema rows => exact failsAs_stepRows s
  | scan table qualifier schema path =>
    exact (failsAs_stepScan (fails_openScan fs schema path) Reader.failsAs_step s).mono
      fun _ => .file
  | select child predicate ih =>
    exact Step.failsAs_filter (ih s) fun t _ _ => predicate.bound.fails_pulling t
  | project child positions ih =>
    cases positions with
    | none => exact ih s
    | some positions =>
      refine Step.failsAs_transform (ih s) fun t _ _ => ?_
      unfold projectTuple
      split
      · exact .ok _
      · exact .error (.position ..)
  | join left right predicate ihl ihr =>
    refine failsAs_stepJoin (ihl s.left) (ihr s.right) ?_ fun t u _ _ _ => ?_
    · exact (fails_rewind fs right s.right).mono fun _ => .file
    · cases predicate with
      | none => exact .ok _
      | some q => exact q.bound.fails_pulling _
  | sort child keys order ih => exact failsAs_stepSort (ih s.child)
  | distinct child ih => exact failsAs_stepDistinct (ih s.child)

end FlatQuery
