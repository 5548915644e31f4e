import FlatQuery.Proofs.StoredLine

set_option autoImplicit false

/-! # The lines of a file

What the lines of a file are (`Lined`), which of them are text (`decodeLine_eq_ok_iff`), and what a
reader answers for each of them (`Reader.Decodes`). A read takes one line off the file and counts it,
whether or not it holds a tuple, so the reads stay in step with the lines: `after_lines` says where a
reader stands after any number of them. The main result is `reads_lines`. -/

namespace FlatQuery

open Text

/-! ## Lines -/

/-- Whether the lines of a content are the given ones. Each ends with a line feed, and a carriage
return before it belongs to the end of the line; the last line may end with the content. -/
inductive Lined : List UInt8 → List (List UInt8) → Prop
  | nil : Lined [] []
  | last {line : List UInt8} (hne : line ≠ []) (hfeed : 10 ∉ line) : Lined line [line]
  | feed {line content : List UInt8} {lines : List (List UInt8)} (hfeed : 10 ∉ line)
    (hreturn : line.getLast? ≠ some 13) (hrest : Lined content lines) :
    Lined (line ++ 10 :: content) (line :: lines)
  | returnFeed {line content : List UInt8} {lines : List (List UInt8)} (hfeed : 10 ∉ line)
    (hrest : Lined content lines) : Lined (line ++ 13 :: 10 :: content) (line :: lines)

/-- The first line feed ends the first line. -/
theorem linesOf_feed {piece : List UInt8} (hfeed : 10 ∉ piece) (content : List UInt8) :
    linesOf (piece ++ 10 :: content) = dropReturn piece :: linesOf content := by
  simp only [linesOf, splitWhere_eq_splitOn, List.splitOn_append_cons_self_of_not_mem hfeed]
  cases hpieces : content.splitOn 10 with
  | nil => exact absurd hpieces (List.splitOn_ne_nil _ _)
  | cons next pieces => rfl

theorem linesOf_piece {piece : List UInt8} (hfeed : 10 ∉ piece) :
    linesOf piece = if piece.isEmpty then [] else [piece] := by
  simp only [linesOf, splitWhere_eq_splitOn, List.splitOn_eq_singleton hfeed, linesOfPieces]

theorem lined_linesOf (content : List UInt8) : Lined content (linesOf content) := by
  induction content using cut_induction (10 : UInt8) with
  | piece piece hfeed =>
    rw [linesOf_piece hfeed]
    cases piece with
    | nil => exact .nil
    | cons b piece => exact .last (List.cons_ne_nil _ _) hfeed
  | cut piece content hfeed ih =>
    rw [linesOf_feed hfeed, dropReturn]
    by_cases hreturn : piece.getLast? = some 13
    · obtain ⟨line, rfl⟩ := List.getLast?_eq_some_iff.1 hreturn
      rw [if_pos hreturn, List.dropLast_concat, List.append_assoc]
      exact .returnFeed (fun h => hfeed (List.mem_append_left _ h)) ih
    · rw [if_neg hreturn]
      exact .feed hfeed hreturn ih

/-- A content has the lines that are read off it, and no others. -/
theorem lined_iff {content : List UInt8} {lines : List (List UInt8)} :
    Lined content lines ↔ linesOf content = lines := by
  constructor
  · intro h
    induction h with
    | nil => rfl
    | last hne hfeed => rw [linesOf_piece hfeed, if_neg (mt List.isEmpty_iff.1 hne)]
    | feed hfeed hreturn _ ih => rw [linesOf_feed hfeed, dropReturn, if_neg hreturn, ih]
    | @returnFeed line content lines hfeed _ ih =>
      have hpiece : 10 ∉ line ++ [13] := by simp [hfeed]
      rw [List.append_cons, linesOf_feed hpiece, dropReturn, List.getLast?_concat, if_pos rfl,
        List.dropLast_concat, ih]
  · rintro rfl
    exact lined_linesOf content

/-! ## Text -/

/-- A line is the text whose bytes it holds. -/
theorem decodeLine_eq_ok_iff {line : List UInt8} {text : String} :
    decodeLine line = .ok text ↔ bytes text = line := by
  constructor
  · intro h
    rw [decodeLine, String.fromUTF8?] at h
    by_cases hvalid : (⟨line.toArray⟩ : ByteArray).IsValidUTF8
    · rw [dif_pos hvalid] at h
      cases h
      rfl
    · rw [dif_neg hvalid] at h
      cases h
  · rintro rfl
    exact decodeLine_bytes text

theorem decodeLine_eq_error_iff {line : List UInt8} {fault : IoFault} :
    decodeLine line = .error fault ↔ fault = .invalidUtf8 ∧ ∀ text, bytes text ≠ line := by
  simp only [Ne, ← decodeLine_eq_ok_iff, decodeLine]
  cases String.fromUTF8? ⟨line.toArray⟩ with
  | none => simp [eq_comm]
  | some text => simp

/-! ## Reads -/

namespace Reader

/-- What the read of line number `i` of the file at `path` may answer: the tuple of the line if it
has the required number of values, and otherwise what is wrong with the line and where it stands. -/
inductive Decodes (path : String) (arity : Option Nat) (i : Nat) (line : List UInt8) :
    Except Error (Option Tuple) → Prop
  | tuple {text : String} {t : Tuple} (hline : bytes text = line)
    (hread : Tuple.read text.toList = .ok t) (harity : ∀ n ∈ arity, t.length = n) :
    Decodes path arity i line (.ok (some t))
  | refused {text : String} {e : Tuple.ReadError} (hline : bytes text = line)
    (hread : Tuple.read text.toList = .error e) :
    Decodes path arity i line (.error (.malformedTuple path i e.message))
  | width {text : String} {t : Tuple} {n : Nat} (hline : bytes text = line)
    (hread : Tuple.read text.toList = .ok t) (harity : n ∈ arity) (hlength : t.length ≠ n) :
    Decodes path arity i line (.error (.malformedTuple path i
      ("expected " ++ toString n ++ " fields, got " ++ toString t.length)))
  | notText (hline : ∀ text, bytes text ≠ line) :
    Decodes path arity i line (.error (.io path "stream did not contain valid UTF-8"))

/-- A line has one answer, which is the one that is read. -/
theorem decodes_iff {path : String} {arity : Option Nat} {i : Nat} {line : List UInt8}
    {answer : Except Error (Option Tuple)} : Decodes path arity i line answer ↔
      (decode path arity i (decodeLine line)).map some = answer := by
  constructor
  · intro h
    cases h with
    | @tuple text t hline hread harity =>
      have hall : arity.all (· = t.length) = true := by
        cases arity with
        | none => rfl
        | some n => simp [harity n rfl]
      rw [decodeLine_eq_ok_iff.2 hline]
      simp only [decode, hread, hall, if_true]
      rfl
    | refused hline hread =>
      rw [decodeLine_eq_ok_iff.2 hline]
      simp only [decode, hread]
      rfl
    | @width text t n hline hread harity hlength =>
      rw [decodeLine_eq_ok_iff.2 hline, Option.mem_def.1 harity]
      simp only [decode, hread, Option.all_some, Ne.symm hlength, decide_false, Bool.false_eq_true,
        if_false, Option.getD_some]
      rfl
    | notText hline =>
      rw [decodeLine_eq_error_iff.2 ⟨rfl, hline⟩]
      rfl
  · rintro rfl
    cases hdecode : decodeLine line with
    | error fault =>
      obtain ⟨rfl, hline⟩ := decodeLine_eq_error_iff.1 hdecode
      exact .notText hline
    | ok text =>
      have hline := decodeLine_eq_ok_iff.1 hdecode
      cases hread : Tuple.read text.toList with
      | error e =>
        simp only [decode, hread]
        exact .refused hline hread
      | ok t =>
        simp only [decode, hread]
        cases arity with
        | none => exact .tuple hline hread (by simp)
        | some n =>
          by_cases hlength : n = t.length
          · simp only [Option.all_some, hlength, decide_true, if_true]
            exact .tuple hline hread (by simp)
          · simp only [Option.all_some, hlength, decide_false, Bool.false_eq_true, if_false,
              Option.getD_some]
            exact .width hline hread rfl (Ne.symm hlength)

/-- The reader after some reads, whatever they answered. -/
def after (r : Reader) (k : Nat) : Reader := (fun r : Reader => r.next.2)^[k] r

variable {path : String} {arity : Option Nat} {lineNo : Nat}

theorem next_nil : (⟨path, .lines [], lineNo, arity⟩ : Reader).next =
    (.ok none, ⟨path, .lines [], lineNo, arity⟩) := rfl

/-- A read takes the next line and counts it, whatever is on it. -/
theorem next_cons (line : List UInt8) (lines : List (List UInt8)) :
    (⟨path, .lines (line :: lines), lineNo, arity⟩ : Reader).next =
      ((decode path arity (lineNo + 1) (decodeLine line)).map some,
        ⟨path, .lines lines, lineNo + 1, arity⟩) := rfl

/-- After some reads that many lines are taken and counted, or all of them. -/
theorem after_lines (lines : List (List UInt8)) (k : Nat) :
    (⟨path, .lines lines, lineNo, arity⟩ : Reader).after k =
      ⟨path, .lines (lines.drop k), lineNo + min k lines.length, arity⟩ := by
  induction k generalizing lines lineNo with
  | zero => simp [after]
  | succ k ih =>
    have hstep (r : Reader) : r.after (k + 1) = r.next.2.after k := rfl
    rw [hstep]
    cases lines with
    | nil => rw [next_nil, ih, List.drop_nil, List.drop_nil, List.length_nil, Nat.min_zero,
        Nat.min_zero]
    | cons line lines =>
      rw [next_cons, ih, List.drop_succ_cons, List.length_cons, Nat.add_min_add_right,
        Nat.add_assoc, Nat.add_comm 1]

/-- **A reader decodes line by line.** The read that comes after `i` others answers for the line
behind the first `i` lines of the file, with `i + 1` as its number, whatever the reads before it
answered. After `k` reads `k` lines are counted, or all lines if there are fewer; from then on each
read answers that the file is over. -/
theorem reads_lines {fs : FileStore} {content : List UInt8} {lines : List (List UInt8)}
    (hfile : fs.Stores path content) (hlines : Lined content lines) (arity : Option Nat) :
    ∃ r, openFile fs path arity = .ok r ∧
      (∀ i line, lines[i]? = some line → ∀ answer,
        (r.after i).next.1 = answer ↔ Decodes path arity (i + 1) line answer) ∧
      ∀ k, (r.after k).lineNo = min k lines.length ∧
        (lines.length ≤ k → (r.after k).next.1 = .ok none) := by
  refine ⟨⟨path, .lines lines, 0, arity⟩, ?_, ?_, ?_⟩
  · rw [openFile, hfile.openFile, lined_iff.1 hlines]
  · intro i line hline answer
    obtain ⟨hlt, rfl⟩ := List.getElem?_eq_some_iff.1 hline
    rw [after_lines, List.drop_eq_getElem_cons hlt, next_cons, Nat.zero_add,
      Nat.min_eq_left (Nat.le_of_lt hlt), decodes_iff]
  · intro k
    rw [after_lines]
    refine ⟨Nat.zero_add _, fun hk => ?_⟩
    rw [List.drop_eq_nil_of_le hk, next_nil]

/-- A store with the file `T`, whose lines are `1,2` (before a carriage return), a byte that is no
text, `x` and the unterminated `3`. -/
def mixedStore : FileStore :=
  ⟨[(⟨false, ["T"]⟩, .file [49, 44, 50, 13, 10, 255, 10, 120, 10, 51])]⟩

/-- Only the first line is a pair; the errors of the others name the lines they are on. -/
theorem reads_lines_mixed : ∃ r, openFile mixedStore "T" (some 2) = .ok r ∧
    (r.after 0).next.1 = .ok (some ⟨[1, 2]⟩) ∧
    (r.after 1).next.1 = .error (.io "T" "stream did not contain valid UTF-8") ∧
    (r.after 2).next.1 = .error (.malformedTuple "T" 3 "invalid integer \"x\"") ∧
    (r.after 3).next.1 = .error (.malformedTuple "T" 4 "expected 2 fields, got 1") ∧
    (r.after 7).next.1 = .ok none ∧ (r.after 7).lineNo = 4 := by
  have hstores : mixedStore.Stores "T" [49, 44, 50, 13, 10, 255, 10, 120, 10, 51] :=
    ⟨⟨⟨false, ["T"]⟩, by decide, rfl⟩, by decide⟩
  have hlines : Lined [49, 44, 50, 13, 10, 255, 10, 120, 10, 51]
      [[49, 44, 50], [255], [120], [51]] := lined_iff.2 rfl
  obtain ⟨r, hopen, hanswers, hcount⟩ := reads_lines hstores hlines (some 2)
  refine ⟨r, hopen, (hanswers 0 _ rfl _).2 (decodes_iff.2 rfl),
    (hanswers 1 _ rfl _).2 (decodes_iff.2 rfl), (hanswers 2 _ rfl _).2 (decodes_iff.2 rfl),
    (hanswers 3 _ rfl _).2 (decodes_iff.2 rfl), (hcount 7).2 (by decide), (hcount 7).1⟩

end Reader

end FlatQuery
