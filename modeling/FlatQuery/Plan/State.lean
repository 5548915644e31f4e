import FlatQuery.Plan.Step

set_option autoImplicit false

/-! # Runs of plans

The state of a run has the shape of its plan. `Plan.step` advances it by one step and `Plan.rewind`
goes back to the beginning. `Plan.stepBounds` bounds the number of steps until the rows are over. -/

namespace FlatQuery

namespace Plan

/-- The state of a run of a plan. -/
@[reducible] def State : Plan → Type
  | values _ _ => List Tuple
  | scan _ _ _ _ => Option Reader
  | select child _ => child.State
  | project child _ => child.State
  | join left right _ => JoinState left.State right.State
  | sort child _ _ => SortState child.State
  | distinct child => DistinctState child.State

/-- The state before the first step. No file is opened yet. -/
def start : (p : Plan) → p.State
  | values _ rows => rows
  | scan _ _ _ _ => (none : Option Reader)
  | select child _ => child.start
  | project child _ => child.start
  | join left right _ => (⟨left.start, right.start, none⟩ : JoinState left.State right.State)
  | sort child _ _ => (⟨child.start, .filling []⟩ : SortState child.State)
  | distinct child => (⟨child.start, none⟩ : DistinctState child.State)

/-- Opens the file of a scan, whose lines must have as many values as there are columns. -/
def openScan (fs : FileStore) (schema : Schema) (path : String) : Except Error Reader :=
  Reader.openFile fs path (some schema.length)

/-- Goes back to the beginning. A scan opens its file again, and a sort keeps what it has sorted. -/
def rewind (fs : FileStore) : (p : Plan) → p.State → Except Error Unit × p.State
  | values _ rows, _ => (.ok (), rows)
  | scan _ _ schema path, _ =>
    match openScan fs schema path with
    | .ok r => (.ok (), (some r : Option Reader))
    | .error e => (.error e, (none : Option Reader))
  | select child _, s => child.rewind fs s
  | project child _, s => child.rewind fs s
  | join left right _, s =>
    match left.rewind fs s.left with
    | (.error e, l) => (.error e, ⟨l, s.right, none⟩)
    | (.ok (), l) =>
      let (outcome, r) := right.rewind fs s.right
      (outcome, ⟨l, r, none⟩)
  | sort _ _ _, s => (.ok (), ⟨s.child, s.buffer.rewind⟩)
  | distinct child, s =>
    let (outcome, c) := child.rewind fs s.child
    (outcome, ⟨c, none⟩)

/-- Advances a run by one step. -/
def step (fs : FileStore) : (p : Plan) → p.State → Step p.State
  | values _ _, s => stepRows s
  | scan _ _ schema path, s => stepScan (openScan fs schema path) s
  | select child predicate, s => (child.step fs s).filter predicate.eval
  | project child none, s => child.step fs s
  | p@(project child (some positions)), s =>
    (child.step fs s).transform (projectTuple (fun _ => p.schema.text) positions)
  | join left right predicate, s =>
    stepJoin (left.step fs) (right.step fs) (right.rewind fs) predicate s
  | sort child _ order, s => stepSort (child.step fs) order s
  | distinct child, s => stepDistinct (child.step fs) s

/-! ## Bounds -/

/-- Bounds on the number of steps until the rows are over: from the present state, and from the
state after a rewind. -/
structure StepBounds where
  left : Nat
  rewound : Nat

/-- The number of lines of a reader, if there is one. -/
def remainingOf : Except Error Reader → Nat
  | .ok r => r.remaining
  | .error _ => 0

/-- The steps of a sort whose child has `left` steps before it: two for each tuple that the child
may still yield, one for each tuple in the buffer, and one to sort them. -/
def sortSteps (left : Nat) : SortBuffer → Nat
  | .filling read => 2 * left + read.length + 1
  | .ready _ rest => rest.length

/-- The steps until the left tuple of a join is matched, if there is one. -/
def matchSteps (rightLeft : Nat) : Option Tuple → Nat
  | none => 0
  | some _ => rightLeft + 1

/-- The bounds of a state. -/
def stepBounds (fs : FileStore) : (p : Plan) → p.State → StepBounds
  | values _ rows, s => ⟨s.length, rows.length⟩
  | scan _ _ schema path, s =>
    let afresh := remainingOf (openScan fs schema path)
    ⟨match s with | some r => r.remaining | none => afresh, afresh⟩
  | select child _, s => child.stepBounds fs s
  | project child _, s => child.stepBounds fs s
  | join left right _, s =>
    let l := left.stepBounds fs s.left
    let r := right.stepBounds fs s.right
    ⟨l.left * (r.rewound + 2) + matchSteps r.left s.current, l.rewound * (r.rewound + 2)⟩
  | sort child _ _, s =>
    let c := child.stepBounds fs s.child
    ⟨sortSteps c.left s.buffer, sortSteps c.left s.buffer.rewind⟩
  | distinct child, s => child.stepBounds fs s.child

end Plan

end FlatQuery
