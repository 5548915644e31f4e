import FlatQuery.Proofs.Listing

set_option autoImplicit false

/-! # What operator trees mean

`Plan.listing` is the meaning of an operator tree over the files of a store, read off the tree
alone. `Plan.outlook` says the same of a tree in the middle of a run: the listing that is still to
come, and the listing that comes after a rewind. The main results tie them to the runs of the
engine: `follows_step` (a step takes the first tuple off what is still to come and leaves the other
listing alone, unless it fails) and `outlook_rewind` (a rewind makes the second one the first). -/

namespace FlatQuery

/-! ## Files -/

/-- The tuples of the lines that follow the line number `lineNo` of the file at `path`, up to the
first bad line. -/
def Listing.ofLines (path : String) (arity : Option Nat) (lineNo : Nat) :
    List (Except IoFault String) → Listing
  | [] => .nil
  | line :: lines =>
    match Reader.decode path arity (lineNo + 1) line with
    | .ok t => .cons t (ofLines path arity (lineNo + 1) lines)
    | .error e => .fail e

/-- The tuples of the file at a path, each with as many values as the schema has columns. -/
def Listing.ofFile (fs : FileStore) (schema : Schema) (path : String) : Listing :=
  match fs.openFile path with
  | .ok source => .ofLines path (some schema.length) 0 source.toList
  | .error fault => .fail (.io path fault.message)

/-- The tuples that a reader has not yielded yet. -/
def Reader.listing (r : Reader) : Listing := .ofLines r.path r.arity r.lineNo r.source.toList

namespace Plan

/-! ## Trees -/

/-- A left and a right tuple joined, if the predicate accepts them. -/
def pair (predicate : Option Predicate) (t u : Tuple) : Listing :=
  .keepIf (accepts predicate (t ++ u)) (t ++ u)

/-- Every left tuple with every right tuple, as far as the predicate accepts them. -/
def pairs (predicate : Option Predicate) (left right : Listing) : Listing :=
  left.flatMap fun t => right.flatMap (pair predicate t)

/-- The meaning of an operator tree. -/
def listing (fs : FileStore) : Plan → Listing
  | values _ rows => .ofList rows
  | scan _ _ schema path => .ofFile fs schema path
  | select child predicate => (child.listing fs).flatMap fun t => .keepIf (predicate.eval t) t
  | project child none => child.listing fs
  | p@(project child (some positions)) =>
    (child.listing fs).flatMap fun t => .ofResult (projectTuple (fun _ => p.schema.text) positions t)
  | join left right predicate => pairs predicate (left.listing fs) (right.listing fs)
  | sort child _ order => (child.listing fs).sorted order
  | distinct child => (child.listing fs).dedup none

/-- The paths of the files that a tree scans. -/
def paths : Plan → List String
  | values _ _ => []
  | scan _ _ _ path => [path]
  | select child _ => child.paths
  | project child _ => child.paths
  | join left right _ => left.paths ++ right.paths
  | sort child _ _ => child.paths
  | distinct child => child.paths

/-- Whether every file that a tree scans can be opened. -/
def Opens (fs : FileStore) (p : Plan) : Prop := ∀ path ∈ p.paths, (fs.openFile path).isOk

instance (fs : FileStore) (p : Plan) : Decidable (p.Opens fs) :=
  inferInstanceAs (Decidable (∀ path ∈ p.paths, _))

end Plan

/-! ## Runs -/

/-- What a run will yield: from where it stands, and after a rewind. -/
structure Outlook where
  rest : Listing
  replay : Listing

/-- The same change made to both listings. -/
def Outlook.map (f : Listing → Listing) (o : Outlook) : Outlook := ⟨f o.rest, f o.replay⟩

namespace Plan

/-- What a join still pairs with the left tuple that is being matched. -/
def matching (predicate : Option Predicate) (right : Listing) : Option Tuple → Listing
  | none => .nil
  | some t => right.flatMap (pair predicate t)

/-- What a sort will yield, where `child` is what its child still yields. -/
def sortOutlook (order : List Nat) (child : Listing) : SortBuffer → Outlook
  | .filling read =>
    let sorted := (.ofList read.reverse ++ child).sorted order
    ⟨sorted, sorted⟩
  | .ready all rest => ⟨.ofList rest, .ofList all⟩

/-- What a run of a tree will yield. A rewind restores everything but a sort that is not complete:
it goes on with what its child has left. -/
def outlook (fs : FileStore) : (p : Plan) → p.State → Outlook
  | values _ rows, s => ⟨.ofList s, .ofList rows⟩
  | scan _ _ schema path, s =>
    ⟨match s with | some r => r.listing | none => .ofFile fs schema path, .ofFile fs schema path⟩
  | select child predicate, s =>
    (child.outlook fs s).map (·.flatMap fun t => .keepIf (predicate.eval t) t)
  | project child none, s => child.outlook fs s
  | p@(project child (some positions)), s =>
    (child.outlook fs s).map
      (·.flatMap fun t => .ofResult (projectTuple (fun _ => p.schema.text) positions t))
  | join left right predicate, s =>
    let l := left.outlook fs s.left
    let r := right.outlook fs s.right
    ⟨matching predicate r.rest s.current ++ pairs predicate l.rest r.replay,
      pairs predicate l.replay r.replay⟩
  | sort child _ order, s => sortOutlook order (child.outlook fs s.child).rest s.buffer
  | distinct child, s =>
    let c := child.outlook fs s.child
    ⟨c.rest.dedup s.last, c.replay.dedup none⟩

/-- Before its first step a run will yield the listing of its tree, rewound or not. -/
theorem outlook_start (fs : FileStore) (p : Plan) :
    p.outlook fs p.start = ⟨p.listing fs, p.listing fs⟩ := by
  induction p with
  | values schema rows => rfl
  | scan table qualifier schema path => rfl
  | select child predicate ih => simp only [start, outlook, listing, ih, Outlook.map]
  | project child positions ih =>
    cases positions with
    | none => simp only [start, outlook, listing, ih]
    | some positions => simp only [start, outlook, listing, ih, Outlook.map]
  | join left right predicate ihl ihr =>
    simp only [start, outlook, listing, ihl, ihr, matching, Listing.nil_append]
  | sort child keys order ih =>
    simp only [start, outlook, listing, ih, sortOutlook, List.reverse_nil, Listing.ofList,
      Listing.nil_append]
  | distinct child ih => simp only [start, outlook, listing, ih]

end Plan

/-! ## Steps -/

/-- A step from `s` takes the first tuple off what is still to come, or finds nothing there, or
finds the error there. What comes after a rewind stays the same unless the step fails. -/
def Step.Follows {σ : Type} (view : σ → Outlook) (s : σ) : Step σ → Prop
  | yield t s' => (view s).rest = .cons t (view s').rest ∧ (view s').replay = (view s).replay
  | skip s' => view s' = view s
  | done s' => (view s).rest = .nil ∧ view s' = view s
  | fail e _ => (view s).rest = .fail e

namespace Step

variable {σ τ : Type} {view : σ → Outlook} {s : σ} {o : Step σ}

/-- The outcome when the yielded tuple is put through `f`, which lists one tuple at most. -/
def through (f : Tuple → Listing) : Step σ → Step σ
  | yield t s =>
    match f t with
    | .cons u _ => yield u s
    | .nil => skip s
    | .fail e => fail e s
  | outcome => outcome

theorem filter_eq_through (test : Tuple → Except Error Bool) (o : Step σ) :
    o.filter test = o.through fun t => .keepIf (test t) t := by
  cases o with
  | yield t s =>
    simp only [filter, through, Listing.keepIf]
    rcases test t with e | _ | _ <;> rfl
  | skip s => rfl
  | done s => rfl
  | fail e s => rfl

theorem transform_eq_through (f : Tuple → Except Error Tuple) (o : Step σ) :
    o.transform f = o.through fun t => .ofResult (f t) := by
  cases o with
  | yield t s =>
    simp only [transform, through, Listing.ofResult]
    rcases f t with e | u <;> rfl
  | skip s => rfl
  | done s => rfl
  | fail e s => rfl

theorem follows_through {f : Tuple → Listing} (hf : ∀ t u L, f t = .cons u L → L = .nil)
    (h : o.Follows view s) :
    (o.through f).Follows (fun s => (view s).map (·.flatMap f)) s := by
  cases o with
  | yield t s' =>
    obtain ⟨hrest, hreplay⟩ := h
    simp only [through]
    split
    · next u L hu =>
      obtain rfl := hf t u L hu
      simp [Follows, Outlook.map, hrest, hreplay, hu]
    · next hu => simp [Follows, Outlook.map, hrest, hreplay, hu]
    · next e hu => simp [Follows, Outlook.map, hrest, hu]
  | skip s' =>
    simp only [through, Follows] at h ⊢
    rw [h]
  | done s' =>
    obtain ⟨hrest, hview⟩ := h
    simp [through, Follows, Outlook.map, hrest, hview]
  | fail e s' =>
    simp only [Follows] at h
    simp [through, Follows, Outlook.map, h]

theorem follows_map {g : σ → τ} {view' : τ → Outlook} (hview : ∀ s, view' (g s) = view s)
    (h : o.Follows view s) : (o.map g).Follows view' (g s) := by
  cases o <;> simpa only [map, Follows, hview] using h

end Step

theorem Listing.keepIf_singleton {test : Tuple → Except Error Bool} (t u : Tuple) (L : Listing)
    (h : keepIf (test t) t = .cons u L) : L = .nil := by
  unfold keepIf at h
  split at h <;> simp_all

theorem Listing.ofResult_singleton {f : Tuple → Except Error Tuple} (t u : Tuple) (L : Listing)
    (h : ofResult (f t) = .cons u L) : L = .nil := by
  unfold ofResult at h
  split at h <;> simp_all

/-! ### Rows and files -/

theorem follows_stepRows (replay : Listing) (rows : List Tuple) :
    (stepRows rows).Follows (fun s => ⟨.ofList s, replay⟩) rows := by
  cases rows with
  | nil => exact ⟨rfl, rfl⟩
  | cons t rows => exact ⟨rfl, rfl⟩

theorem Reader.follows_step (replay : Listing) (r : Reader) :
    r.step.Follows (fun r => ⟨r.listing, replay⟩) r := by
  obtain ⟨path, source, lineNo, arity⟩ := r
  unfold Reader.step Reader.next
  match source with
  | .lines [] => exact ⟨rfl, rfl⟩
  | .lines (line :: pending) =>
    simp only [LineSource.next]
    cases h : decode path arity (lineNo + 1) (decodeLine line) with
    | error e =>
      simp [Except.map, Step.Follows, Reader.listing, LineSource.toList, Listing.ofLines, h]
    | ok t => simp [Except.map, Step.Follows, Reader.listing, LineSource.toList, Listing.ofLines, h]
  | .directory =>
    simp [LineSource.next, decode, Except.map, Step.Follows, Reader.listing, LineSource.toList,
      Listing.ofLines]

namespace Plan

variable {fs : FileStore}

theorem listing_of_openScan {schema : Schema} {path : String} {r : Reader}
    (h : openScan fs schema path = .ok r) : r.listing = .ofFile fs schema path := by
  unfold openScan Reader.openFile at h
  split at h
  · next source hopen =>
    cases h
    simp only [Reader.listing, Listing.ofFile, hopen]
  · cases h

theorem follows_stepScan (table qualifier : String) (schema : Schema) (path : String)
    (s : Option Reader) :
    (stepScan (openScan fs schema path) s).Follows
      ((scan table qualifier schema path).outlook fs) s := by
  have hstep (r : Reader) : (r.step.map some).Follows
      ((scan table qualifier schema path).outlook fs) (some r) :=
    Step.follows_map (fun _ => rfl) (r.follows_step (.ofFile fs schema path))
  cases s with
  | some r => exact hstep r
  | none =>
    simp only [stepScan]
    split
    · next r hr =>
      -- the step opens the file first, which changes nothing about what is to come
      have hview : (scan table qualifier schema path).outlook fs (none : Option Reader) =
          (scan table qualifier schema path).outlook fs (some r) := by
        simp only [outlook, listing_of_openScan hr]
      have h := hstep r
      unfold Step.Follows at h ⊢
      simpa only [hview] using h
    · next e he =>
      unfold openScan Reader.openFile at he
      split at he
      · cases he
      · next fault hopen =>
        cases he
        simp only [Step.Follows, outlook, Listing.ofFile, hopen]

/-! ### Rewinding -/

theorem isOk_openScan (schema : Schema) {path : String} (h : (fs.openFile path).isOk) :
    ∃ r, openScan fs schema path = .ok r := by
  unfold openScan Reader.openFile
  cases hopen : fs.openFile path with
  | ok source => exact ⟨_, rfl⟩
  | error fault => simp [hopen, Except.isOk, Except.toBool] at h

/-- **A rewind succeeds and brings back the listing that was to come after it**, provided that the
scanned files can be opened. -/
theorem outlook_rewind {p : Plan} (hopen : p.Opens fs) (s : p.State) :
    (p.rewind fs s).1 = .ok () ∧
      p.outlook fs (p.rewind fs s).2 = ⟨(p.outlook fs s).replay, (p.outlook fs s).replay⟩ := by
  induction p with
  | values schema rows => exact ⟨rfl, rfl⟩
  | scan table qualifier schema path =>
    obtain ⟨r, hr⟩ := isOk_openScan schema (hopen path (List.mem_singleton.2 rfl))
    simp only [rewind, hr, outlook, listing_of_openScan hr, and_self]
  | select child predicate ih =>
    obtain ⟨hok, hview⟩ := ih hopen s
    exact ⟨hok, by simp only [rewind, outlook, hview, Outlook.map]⟩
  | project child positions ih =>
    obtain ⟨hok, hview⟩ := ih hopen s
    cases positions with
    | none => exact ⟨hok, by simp only [rewind, outlook, hview]⟩
    | some positions => exact ⟨hok, by simp only [rewind, outlook, hview, Outlook.map]⟩
  | join left right predicate ihl ihr =>
    obtain ⟨hl, hlview⟩ := ihl (fun path h => hopen path (List.mem_append_left _ h)) s.left
    obtain ⟨hr, hrview⟩ := ihr (fun path h => hopen path (List.mem_append_right _ h)) s.right
    have hrewind : (join left right predicate).rewind fs s =
        (.ok (), ⟨(left.rewind fs s.left).2, (right.rewind fs s.right).2, none⟩) := by
      simp only [rewind]
      split
      · next e l h => simp [h] at hl
      · next l h => simp only [h, ← hr]
    rw [hrewind]
    exact ⟨rfl, by simp only [outlook, hlview, hrview, matching, Listing.nil_append]⟩
  | sort child keys order ih =>
    refine ⟨rfl, ?_⟩
    simp only [rewind, outlook]
    cases s.buffer <;> rfl
  | distinct child ih =>
    obtain ⟨hok, hview⟩ := ih hopen s.child
    refine ⟨hok, ?_⟩
    simp only [rewind, outlook, hview]

/-! ### Joins, sorts and the removal of repeated tuples -/

theorem follows_stepJoin {left right : Plan} {predicate : Option Predicate}
    (hopen : right.Opens fs) (hl : ∀ s, (left.step fs s).Follows (left.outlook fs) s)
    (hr : ∀ s, (right.step fs s).Follows (right.outlook fs) s)
    (s : JoinState left.State right.State) :
    (stepJoin (left.step fs) (right.step fs) (right.rewind fs) predicate s).Follows
      ((join left right predicate).outlook fs) s := by
  obtain ⟨l, r, current⟩ := s
  cases current with
  | none =>
    have hl := hl l
    simp only [stepJoin]
    split
    · next t l' h =>
      -- the next left tuple: its matches now come out of the rewound right side
      rw [h] at hl
      obtain ⟨hrest, hreplay⟩ := hl
      obtain ⟨hok, hview⟩ := outlook_rewind hopen r
      split
      · next r' hrw =>
        rw [hrw] at hview
        simp only [Step.Follows, outlook, hrest, hreplay, hview, matching, pairs,
          Listing.flatMap_cons, Listing.nil_append]
      · next e r' hrw => simp [hrw] at hok
    · next l' h =>
      rw [h] at hl
      simp only [Step.Follows] at hl
      simp only [Step.Follows, outlook, hl]
    · next l' h =>
      rw [h] at hl
      obtain ⟨hrest, hview⟩ := hl
      simp [Step.Follows, outlook, hrest, hview, matching, pairs]
    · next e l' h =>
      rw [h] at hl
      simp only [Step.Follows] at hl
      simp [Step.Follows, outlook, hl, matching, pairs]
  | some t =>
    have hr := hr r
    simp only [stepJoin]
    split
    · next u r' h =>
      rw [h] at hr
      obtain ⟨hrest, hreplay⟩ := hr
      split <;> next haccept =>
        simp [Step.Follows, outlook, hrest, hreplay, haccept, matching, pair, Listing.keepIf]
    · next r' h =>
      rw [h] at hr
      simp only [Step.Follows] at hr
      simp only [Step.Follows, outlook, hr]
    · next r' h =>
      rw [h] at hr
      obtain ⟨hrest, hview⟩ := hr
      simp [Step.Follows, outlook, hrest, hview, matching]
    · next e r' h =>
      rw [h] at hr
      simp only [Step.Follows] at hr
      simp [Step.Follows, outlook, hr, matching]

theorem sorted_ofList_append_fail (order : List Nat) (ts : List Tuple) (e : Error) :
    (Listing.ofList ts ++ .fail e).sorted order = .fail e := by
  simp only [Listing.sorted, Listing.outcome_ofList_append, Listing.outcome_fail, Except.map]

theorem follows_stepSort {child : Plan} {keys : List ColumnRef} {order : List Nat}
    (hc : ∀ s, (child.step fs s).Follows (child.outlook fs) s) (s : SortState child.State) :
    (stepSort (child.step fs) order s).Follows ((sort child keys order).outlook fs) s := by
  obtain ⟨c, buffer⟩ := s
  cases buffer with
  | filling read =>
    have hc := hc c
    simp only [stepSort]
    split
    · next t c' h =>
      rw [h] at hc
      simp only [Step.Follows] at hc
      simp only [Step.Follows, outlook, sortOutlook, hc.1, List.reverse_cons,
        Listing.ofList_append, Listing.append_assoc, Listing.ofList, Listing.cons_append,
        Listing.nil_append]
    · next c' h =>
      rw [h] at hc
      simp only [Step.Follows] at hc
      simp only [Step.Follows, outlook, sortOutlook, hc]
    · next c' h =>
      rw [h] at hc
      simp only [Step.Follows] at hc
      simp only [Step.Follows, outlook, sortOutlook, hc.1, Listing.append_nil, Listing.sorted,
        Listing.outcome_ofList, sortTuples_eq_insertionSort]
    · next e c' h =>
      rw [h] at hc
      simp only [Step.Follows] at hc
      simp only [Step.Follows, outlook, sortOutlook, hc, sorted_ofList_append_fail]
  | ready all rest =>
    exact Step.follows_map (fun _ => rfl) (follows_stepRows (.ofList all) rest)

theorem follows_stepDistinct {child : Plan}
    (hc : ∀ s, (child.step fs s).Follows (child.outlook fs) s) (s : DistinctState child.State) :
    (stepDistinct (child.step fs) s).Follows ((distinct child).outlook fs) s := by
  obtain ⟨c, last⟩ := s
  have hc := hc c
  simp only [stepDistinct]
  split
  · next t c' h =>
    rw [h] at hc
    obtain ⟨hrest, hreplay⟩ := hc
    split <;> next hlast =>
      simp [Step.Follows, outlook, hrest, hreplay, hlast, Listing.dedup]
  · next c' h =>
    rw [h] at hc
    simp only [Step.Follows] at hc
    simp only [Step.Follows, outlook, hc]
  · next c' h =>
    rw [h] at hc
    obtain ⟨hrest, hview⟩ := hc
    simp [Step.Follows, outlook, hrest, hview, Listing.dedup]
  · next e c' h =>
    rw [h] at hc
    simp only [Step.Follows] at hc
    simp [Step.Follows, outlook, hc, Listing.dedup]

/-- **Every step of every operator tree follows its outlook**, provided that the scanned files can
be opened. -/
theorem follows_step {p : Plan} (hopen : p.Opens fs) (s : p.State) :
    (p.step fs s).Follows (p.outlook fs) s := by
  induction p with
  | values schema rows => exact follows_stepRows (.ofList rows) s
  | scan table qualifier schema path => exact follows_stepScan table qualifier schema path s
  | select child predicate ih =>
    simp only [step, Step.filter_eq_through]
    exact Step.follows_through Listing.keepIf_singleton (ih hopen s)
  | project child positions ih =>
    cases positions with
    | none => exact ih hopen s
    | some positions =>
      simp only [step, Step.transform_eq_through]
      exact Step.follows_through Listing.ofResult_singleton (ih hopen s)
  | join left right predicate ihl ihr =>
    have hleft : left.Opens fs := fun path h => hopen path (List.mem_append_left _ h)
    have hright : right.Opens fs := fun path h => hopen path (List.mem_append_right _ h)
    exact follows_stepJoin hright (ihl hleft) (ihr hright) s
  | sort child keys order ih => exact follows_stepSort (ih hopen) s
  | distinct child ih => exact follows_stepDistinct (ih hopen) s

theorem follows_of_step {p : Plan} (hopen : p.Opens fs) {s : p.State} {o : Step p.State}
    (h : p.step fs s = o) : o.Follows (p.outlook fs) s := by
  rw [← h]
  exact follows_step hopen s

/-! ## Pulls -/

/-- A pull takes the first tuple off what is still to come, or answers how that ends. What comes
after a rewind stays the same unless the pull fails. -/
theorem next_follows {p : Plan} (hopen : p.Opens fs) (s : p.State) :
    match (p.outlook fs s).rest with
    | .nil => (p.next fs s).1 = .ok none ∧ p.outlook fs (p.next fs s).2 = p.outlook fs s
    | .fail e => (p.next fs s).1 = .error e
    | .cons t rest => (p.next fs s).1 = .ok (some t) ∧
        p.outlook fs (p.next fs s).2 = ⟨rest, (p.outlook fs s).replay⟩ := by
  fun_induction p.next fs s with
  | case1 s t s' h =>
    obtain ⟨hrest, hreplay⟩ := follows_of_step hopen h
    rw [hrest, ← hreplay]
    exact ⟨rfl, rfl⟩
  | case2 s s' h ih =>
    have hview : p.outlook fs s' = p.outlook fs s := follows_of_step hopen h
    rw [hview] at ih
    exact ih
  | case3 s s' h =>
    obtain ⟨hrest, hview⟩ := follows_of_step hopen h
    rw [hrest]
    exact ⟨rfl, hview⟩
  | case4 s e s' h =>
    have hrest : (p.outlook fs s).rest = .fail e := follows_of_step hopen h
    rw [hrest]

end Plan

end FlatQuery
