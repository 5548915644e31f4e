import FlatQuery.Proofs.Denotation

set_option autoImplicit false

/-! # Pulling and draining

What the pulls and the drains of a run answer, in terms of the listing that is still to come
(`pulls_eq_answers`, `fold_eq_feed`, `collect_eq_outcome`). On a tree that was just built they
stream the listing of the tree (`pulls_start`). -/

namespace FlatQuery

/-- Hands the tuples of a listing to `f` until the listing is over, or fails, or `f` does. -/
def Listing.feed {α : Type} (f : α → Tuple → Except Error Unit × α) (a : α) :
    Listing → Except Error Unit × α
  | nil => (.ok (), a)
  | fail e => (.error e, a)
  | cons t L =>
    match f a t with
    | (.ok (), a') => L.feed f a'
    | (.error e, a') => (.error e, a')

/-- A consumer that keeps everything ends as the listing does and has its rows in reverse. -/
theorem Listing.feed_push (L : Listing) (read : List Tuple) :
    L.feed (fun read t => (.ok (), t :: read)) read = (L.ending, L.rows.reverse ++ read) := by
  induction L generalizing read with
  | nil => rfl
  | fail e => rfl
  | cons t L ih =>
    simp only [feed, ih, ending, rows, List.reverse_cons, List.append_assoc, List.singleton_append]

namespace Plan

variable {fs : FileStore} {p : Plan}

/-- A pull takes steps until one does not skip. -/
theorem next_eq (fs : FileStore) (p : Plan) (s : p.State) :
    p.next fs s =
      match p.step fs s with
      | .yield t s' => (.ok (some t), s')
      | .skip s' => p.next fs s'
      | .done s' => (.ok none, s')
      | .fail e s' => (.error e, s') := by
  rw [next]
  split <;> next h => simp only [h]

/-- The answers of `n` pulls, one after the other. -/
def pulls (fs : FileStore) (p : Plan) : Nat → p.State → List (Except Error (Option Tuple))
  | 0, _ => []
  | n + 1, s => (p.next fs s).1 :: p.pulls fs n (p.next fs s).2

/-- From any state the pulls answer the tuples that are still to come, and then the end. -/
theorem pulls_eq_answers (hopen : p.Opens fs) (s : p.State) :
    p.pulls fs ((p.outlook fs s).rest.rows.length + 1) s = (p.outlook fs s).rest.answers := by
  generalize hrest : (p.outlook fs s).rest = rest
  induction rest generalizing s with
  | nil =>
    have hnext := next_follows hopen s
    rw [hrest] at hnext
    simp only [Listing.rows, List.length_nil, pulls, hnext.1, Listing.answers_nil]
  | fail e =>
    have hnext := next_follows hopen s
    rw [hrest] at hnext
    simp only [Listing.rows, List.length_nil, pulls, hnext, Listing.answers_fail]
  | cons t rest ih =>
    have hnext := next_follows hopen s
    rw [hrest] at hnext
    obtain ⟨hanswer, hview⟩ := hnext
    rw [Listing.rows, List.length_cons, pulls, hanswer, ih _ (by rw [hview]),
      Listing.answers_cons]

/-- Pulling all tuples hands the listing that is still to come to the consumer. When the rows end
well, nothing is left, and what comes after a rewind is the same as before. -/
theorem fold_eq_feed {α : Type} (hopen : p.Opens fs) (f : α → Tuple → Except Error Unit × α) (a : α)
    (s : p.State) :
    ((p.fold fs f a s).1, (p.fold fs f a s).2.1) = (p.outlook fs s).rest.feed f a ∧
      ((p.fold fs f a s).1 = .ok () →
        p.outlook fs (p.fold fs f a s).2.2 = ⟨.nil, (p.outlook fs s).replay⟩) := by
  fun_induction p.fold fs f a s with
  | case1 a s t s' h a' hf ih =>
    obtain ⟨hrest, hreplay⟩ := follows_of_step hopen h
    rw [hrest, ← hreplay, Listing.feed, hf]
    exact ih
  | case2 a s t s' h e a' hf =>
    obtain ⟨hrest, hreplay⟩ := follows_of_step hopen h
    rw [hrest, Listing.feed, hf]
    exact ⟨rfl, fun h => by cases h⟩
  | case3 a s s' h ih =>
    have hview : p.outlook fs s' = p.outlook fs s := follows_of_step hopen h
    rw [← hview]
    exact ih
  | case4 a s s' h =>
    obtain ⟨hrest, hview⟩ := follows_of_step hopen h
    rw [hrest]
    exact ⟨rfl, fun _ => by rw [hview, ← hrest]⟩
  | case5 a s e s' h =>
    have hrest : (p.outlook fs s).rest = .fail e := follows_of_step hopen h
    rw [hrest]
    exact ⟨rfl, fun h => by cases h⟩

/-- A drain returns what is still to come, or the error in it. -/
theorem collect_eq_outcome (hopen : p.Opens fs) (s : p.State) :
    (p.collect fs s).1 = (p.outlook fs s).rest.outcome := by
  have h := (fold_eq_feed hopen (fun read t => (.ok (), t :: read)) ([] : List Tuple) s).1
  rw [Listing.feed_push, Prod.mk.injEq, List.append_nil] at h
  simp only [collect, h.1, h.2, List.reverse_reverse, Listing.outcome]

/-- A drain that succeeds leaves nothing to come and does not change what a rewind brings back. -/
theorem outlook_collect (hopen : p.Opens fs) {s : p.State} {ts : List Tuple}
    (h : (p.collect fs s).1 = .ok ts) :
    p.outlook fs (p.collect fs s).2 = ⟨.nil, (p.outlook fs s).replay⟩ := by
  refine (fold_eq_feed hopen (fun read t => (.ok (), t :: read)) ([] : List Tuple) s).2 ?_
  simp only [collect] at h
  cases hend : (p.fold fs (fun read t => (.ok (), t :: read)) ([] : List Tuple) s).1 with
  | ok u => rfl
  | error e => simp [hend, Except.map] at h

/-- The drain of a tree that was just built returns the listing of the tree. -/
theorem collect_start (hopen : p.Opens fs) : (p.collect fs p.start).1 = (p.listing fs).outcome := by
  rw [collect_eq_outcome hopen, outlook_start]

/-- **Operator trees stream their listing.** The pulls of a tree that was just built answer the
tuples of its listing in order, and then the end: no more rows, or exactly the error of the
listing. -/
theorem pulls_start (hopen : p.Opens fs) :
    p.pulls fs ((p.listing fs).rows.length + 1) p.start =
      (p.listing fs).rows.map (fun t => .ok (some t)) ++
        [(p.listing fs).ending.map fun _ => none] := by
  have h := pulls_eq_answers hopen p.start
  rw [outlook_start] at h
  exact h

/-! ### A file with a bad line -/

/-- A store with the file `T`, which holds the lines `1`, `x` and `3`. -/
def spoiltStore : FileStore := ⟨[(⟨false, ["T"]⟩, .file [49, 10, 120, 10, 51, 10])]⟩

/-- The scan of the spoilt file. -/
def spoiltScan : Plan := scan "T" "T" ⟨[⟨"T", "A"⟩]⟩ "T"

/-- The error of the spoilt line. -/
def spoiltLine : Error := .malformedTuple "T" 2 "invalid integer \"x\""

/-- The spoilt file joined to the sorted rows `8` and `7`. -/
def spoiltJoin : Plan := join (values ⟨[⟨"L", "B"⟩]⟩ [⟨[8]⟩, ⟨[7]⟩]).sortAll spoiltScan none

/-- One joined tuple comes before the error of the right side. -/
theorem pulls_start_spoilt :
    spoiltJoin.Opens spoiltStore ∧
      spoiltJoin.pulls spoiltStore 2 spoiltJoin.start =
        [.ok (some ⟨[7, 1]⟩), .error spoiltLine] :=
  ⟨by decide, pulls_start (by decide)⟩

end Plan

end FlatQuery
