import FlatQuery.Plan.Progress

set_option autoImplicit false

/-! # Pulling rows

`Plan.next` pulls one tuple and `Plan.fold` pulls all of them. A `Sink` is a place that lines are
written to; it may be full after some number of lines, and it may refuse to be flushed. -/

namespace FlatQuery

namespace Plan

/-- Pulls the next tuple, or `none` when the rows are over. -/
def next (fs : FileStore) (p : Plan) (s : p.State) : Except Error (Option Tuple) × p.State :=
  match _h : p.step fs s with
  | .yield t s' => (.ok (some t), s')
  | .skip s' => p.next fs s'
  | .done s' => (.ok none, s')
  | .fail e s' => (.error e, s')
termination_by (p.stepBounds fs s).left
decreasing_by
  have := (p.bounded_step fs s).1
  rw [_h] at this
  exact this

/-- Pulls tuples and hands them to `f` until the rows are over, the plan fails, or `f` does. -/
def fold {α : Type} (fs : FileStore) (p : Plan) (f : α → Tuple → Except Error Unit × α) (a : α)
    (s : p.State) : Except Error Unit × α × p.State :=
  match _h : p.step fs s with
  | .yield t s' =>
    match f a t with
    | (.ok (), a') => p.fold fs f a' s'
    | (.error e, a') => (.error e, a', s')
  | .skip s' => p.fold fs f a s'
  | .done s' => (.ok (), a, s')
  | .fail e s' => (.error e, a, s')
termination_by (p.stepBounds fs s).left
decreasing_by
  all_goals
    have := (p.bounded_step fs s).1
    rw [_h] at this
    exact this

/-- Pulls all tuples. -/
def collect (fs : FileStore) (p : Plan) (s : p.State) : Except Error (List Tuple) × p.State :=
  let (outcome, read, s') := p.fold fs (fun read t => (.ok (), t :: read)) ([] : List Tuple) s
  (outcome.map fun _ => read.reverse, s')

end Plan

/-! ## Writing rows -/

/-- A place that lines are written to. -/
structure Sink where
  /-- The lines written so far, the last one first. -/
  written : List String
  /-- The number of lines that the sink takes, if it is limited. -/
  capacity : Option Nat
  /-- Whether the sink can be flushed. -/
  flushes : Bool
  deriving DecidableEq, Repr

namespace Sink

/-- A sink that nothing was written to. -/
def fresh (capacity : Option Nat) (flushes : Bool) : Sink := ⟨[], capacity, flushes⟩

/-- The path that stands for a sink in errors. -/
def path : String := "<output>"

/-- Writes one line if there is room for it. -/
def writeLine (k : Sink) (line : String) : Except Error Unit × Sink :=
  if k.capacity.all (k.written.length < ·) then (.ok (), { k with written := line :: k.written })
  else (.error (.io path "sink full"), k)

/-- Flushes the sink. -/
def flush (k : Sink) : Except Error Unit :=
  if k.flushes then .ok () else .error (.io path "flush refused")

/-- What was written. -/
def text (k : Sink) : String := String.join (k.written.reverse.map (· ++ "\n"))

end Sink

/-- Writes all tuples of a run to a sink, one a line, and yields the number of lines. -/
def Plan.dump (fs : FileStore) (p : Plan) (k : Sink) (s : p.State) :
    Except Error Nat × Sink × p.State :=
  let (outcome, (count, k'), s') := p.fold fs
    (fun (count, k) t =>
      let (outcome, k') := k.writeLine t.text
      (outcome, (if outcome.isOk then count + 1 else count, k')))
    ((0, k) : Nat × Sink) s
  match outcome with
  | .error e => (.error e, k', s')
  | .ok () => (k'.flush.map fun _ => count, k', s')

/-! ## Runs -/

/-- A plan that is being run. -/
structure Run where
  plan : Plan
  state : plan.State

namespace Run

/-- A run before its first pull. -/
def start (plan : Plan) : Run := ⟨plan, plan.start⟩

/-- Pulls the next tuple, or `none` when the rows are over. -/
def next (fs : FileStore) (r : Run) : Except Error (Option Tuple) × Run :=
  let (outcome, state) := r.plan.next fs r.state
  (outcome, ⟨r.plan, state⟩)

/-- Goes back to the beginning. -/
def rewind (fs : FileStore) (r : Run) : Except Error Unit × Run :=
  let (outcome, state) := r.plan.rewind fs r.state
  (outcome, ⟨r.plan, state⟩)

/-- Pulls all tuples that are left. -/
def collect (fs : FileStore) (r : Run) : Except Error (List Tuple) × Run :=
  let (outcome, state) := r.plan.collect fs r.state
  (outcome, ⟨r.plan, state⟩)

/-- Writes all tuples that are left to a sink and yields their number. -/
def dump (fs : FileStore) (k : Sink) (r : Run) : Except Error Nat × Sink × Run :=
  let (outcome, k, state) := r.plan.dump fs k r.state
  (outcome, k, ⟨r.plan, state⟩)

end Run

end FlatQuery
