import Fakery.Proofs.Diff.Listing

/-!
# Applying hunks

A reader of unified diffs.  Line by line it takes lines from the original, checks them and puts
lines into its result, and a hunk header tells it where to go on.  Run on the lines of the
hunks of two texts, it makes the one out of the other.
-/

namespace Fakery.Diff

open Text (feedLines)

/-! ## Reading -/

/-- What a hunk header says of both texts: the lines before the hunk and the lines in it. -/
structure Header where
  left : Nat
  leftSize : Nat
  right : Nat
  rightSize : Nat
  deriving DecidableEq, Repr

def readNumber (cs : List Char) : Option Nat :=
  if cs.isEmpty || !cs.all Char.isDigit then none else some (Nat.ofDigitChars 10 cs 0)

/-- A range of lines; an empty one names the line before it. -/
def readRange (cs : List Char) : Option (Nat × Nat) :=
  match Text.splitAt ',' cs with
  | [start] => (readNumber start).map fun line => (line - 1, 1)
  | [start, size] =>
    (readNumber start).bind fun line =>
      (readNumber size).map fun count => (if count = 0 then line else line - 1, count)
  | _ => none

def readHeader (line : List Char) : Option Header :=
  match Text.splitAt ' ' line with
  | [opening, '-' :: left, '+' :: right, closing] =>
    if opening = "@@".toList ∧ closing = "@@\n".toList then
      (readRange left).bind fun before =>
        (readRange right).map fun after => ⟨before.1, before.2, after.1, after.2⟩
    else none
  | _ => none

/-- How far a patch has come: the lines made, the lines of the original left behind, and what
is to come of the hunk on both sides. -/
structure Patching where
  made : List (List Char)
  taken : Nat
  left : Nat
  right : Nat
  deriving DecidableEq, Repr

namespace Patching

/-- Takes the line with which the original goes on. -/
def take (original : List (List Char)) (line : List Char) (state : Patching) : Option Patching :=
  if original[state.taken]? = some line ∧ 0 < state.left then
    some { state with taken := state.taken + 1, left := state.left - 1 }
  else none

def put (line : List Char) (state : Patching) : Option Patching :=
  if 0 < state.right then
    some { state with made := state.made ++ [line], right := state.right - 1 }
  else none

/-- Copies the lines up to a hunk, which must begin in both texts where its header says. -/
def enter (original : List (List Char)) (state : Patching) (header : Header) : Option Patching :=
  let between := header.left - state.taken
  if state.taken ≤ header.left ∧ header.left ≤ original.length
      ∧ state.made.length + between = header.right then
    some ⟨state.made ++ (original.drop state.taken).take between, header.left, header.leftSize,
      header.rightSize⟩
  else none

def step (original : List (List Char)) (state : Patching) (line : List Char) : Option Patching :=
  if state.left = 0 ∧ state.right = 0 then (readHeader line).bind (state.enter original)
  else
    match line with
    | ' ' :: content => (state.take original content).bind (put content)
    | '-' :: content => state.take original content
    | '+' :: content => state.put content
    | _ => none

/-- Behind the last hunk the original goes on to its end. -/
def finish (original : List (List Char)) (state : Patching) : Option (List (List Char)) :=
  if state.left = 0 ∧ state.right = 0 then some (state.made ++ original.drop state.taken) else none

end Patching

def applyHunks (original : List (List Char)) (body : List (List Char)) :
    Option (List (List Char)) :=
  (body.foldlM (Patching.step original) ⟨[], 0, 0, 0⟩).bind (Patching.finish original)

/-- Applies a unified diff to a text. -/
def patch (diff original : List Char) : Option (List Char) :=
  match feedLines diff with
  | first :: second :: body =>
    if "--- ".toList <+: first ∧ "+++ ".toList <+: second then
      (applyHunks (feedLines original) body).map List.flatten
    else none
  | _ => none

/-! ## Hunk headers -/

theorem readNumber_toDigits (n : Nat) : readNumber (Nat.toDigits 10 n) = some n := by
  have hdigits : (Nat.toDigits 10 n).all Char.isDigit = true :=
    List.all_eq_true.2 fun c hc => Nat.isDigit_of_mem_toDigits (by decide) (by decide) hc
  rw [readNumber, if_neg (by simpa [Nat.toDigits_ne_nil] using hdigits),
    Nat.ofDigitChars_ten_toDigits]

theorem not_mem_toDigits {c : Char} (hc : c.isDigit = false) (n : Nat) :
    c ∉ Nat.toDigits 10 n := by
  intro hmem
  rw [Nat.isDigit_of_mem_toDigits (by decide) (by decide) hmem] at hc
  cases hc

theorem toList_renderRange (start stop : Nat) :
    (renderRange start stop).toList =
      if stop - start = 1 then Nat.toDigits 10 (start + 1)
      else Nat.toDigits 10 (if stop - start = 0 then start else start + 1)
        ++ ',' :: Nat.toDigits 10 (stop - start) := by
  by_cases hone : stop - start = 1
  · simp [renderRange, hone]
  · by_cases hzero : stop - start = 0
    · simp [renderRange, hzero]
    · simp [renderRange, hone, hzero]

/-- A range is made of digits and at most one comma. -/
theorem not_mem_renderRange {c : Char} (hc : c.isDigit = false) (hcomma : c ≠ ',')
    (start stop : Nat) : c ∉ (renderRange start stop).toList := by
  rw [toList_renderRange]
  split
  · exact not_mem_toDigits hc _
  · simp [not_mem_toDigits hc, hcomma]

/-- A range that was written is read back as the same start and length. -/
theorem readRange_renderRange (start stop : Nat) :
    readRange (renderRange start stop).toList = some (start, stop - start) := by
  have hcomma : ∀ n, ',' ∉ Nat.toDigits 10 n := not_mem_toDigits (by decide)
  rw [toList_renderRange, readRange]
  by_cases hone : stop - start = 1
  · rw [if_pos hone, splitAt_of_not_mem (hcomma _)]
    simp [readNumber_toDigits, hone]
  · rw [if_neg hone, splitAt_append_cons, splitAt_of_not_mem (hcomma _),
      splitAt_of_not_mem (hcomma _)]
    simp only [List.cons_append, List.nil_append, readNumber_toDigits, Option.bind_some,
      Option.map_some]
    by_cases hzero : stop - start = 0
    · simp [hzero]
    · simp [hzero]

/-- The header of a hunk between two pairs of places. -/
def headerLine (left leftEnd right rightEnd : Nat) : List Char :=
  ("@@ -" ++ renderRange left leftEnd ++ " +" ++ renderRange right rightEnd ++ " @@\n").toList

/-- A hunk header that was written is read back as the two ranges it states. -/
theorem readHeader_headerLine (left leftEnd right rightEnd : Nat) :
    readHeader (headerLine left leftEnd right rightEnd) =
      some ⟨left, leftEnd - left, right, rightEnd - right⟩ := by
  have hblank : ∀ start stop, ' ' ∉ (renderRange start stop).toList :=
    not_mem_renderRange (by decide) (by decide)
  have hwords : headerLine left leftEnd right rightEnd = "@@".toList ++
      ' ' :: ('-' :: (renderRange left leftEnd).toList ++
        ' ' :: ('+' :: (renderRange right rightEnd).toList ++ ' ' :: "@@\n".toList)) := by
    simp [headerLine]
  have hsplit : Text.splitAt ' ' (headerLine left leftEnd right rightEnd) =
      ["@@".toList, '-' :: (renderRange left leftEnd).toList,
        '+' :: (renderRange right rightEnd).toList, "@@\n".toList] := by
    rw [hwords, splitAt_append_cons, splitAt_append_cons, splitAt_append_cons,
      splitAt_of_not_mem (by decide), splitAt_of_not_mem (by simp [hblank]),
      splitAt_of_not_mem (by simp [hblank]), splitAt_of_not_mem (by decide)]
    rfl
  simp [readHeader, hsplit, readRange_renderRange]

theorem isFed_headerLine (left leftEnd right rightEnd : Nat) :
    IsFed (headerLine left leftEnd right rightEnd) := by
  have hfeed : ∀ start stop, '\n' ∉ (renderRange start stop).toList :=
    not_mem_renderRange (by decide) (by decide)
  refine ⟨("@@ -" ++ renderRange left leftEnd ++ " +" ++ renderRange right rightEnd
    ++ " @@").toList, ?_, ?_⟩
  · simp [hfeed]
  · simp [headerLine]

/-! ## Running over hunks -/

variable {as bs : List (List Char)}

theorem drop_succ_of_drop {i : Nat} {line : List Char} {rest : List (List Char)}
    (h : as.drop i = line :: rest) : as.drop (i + 1) = rest ∧ as[i]? = some line ∧
      as.take (i + 1) = as.take i ++ [line] := by
  have hline : as[i]? = some line := by
    rw [← List.head?_drop, h]
    rfl
  refine ⟨?_, hline, ?_⟩
  · rw [← List.drop_drop, h]
    rfl
  · rw [List.take_add_one, hline]
    rfl

namespace Patching

/-- At a pair of places, with so much of a hunk to come. -/
def reached (bs : List (List Char)) (i j left right : Nat) : Patching :=
  ⟨bs.take j, i, left, right⟩

theorem step_keep {i j left right : Nat} {line : List Char} {xs ys : List (List Char)}
    (hi : as.drop i = line :: xs) (hj : bs.drop j = line :: ys) :
    step as (reached bs i j (left + 1) (right + 1)) (' ' :: line) =
      some (reached bs (i + 1) (j + 1) left right) := by
  simp [step, reached, take, put, (drop_succ_of_drop hi).2.1, (drop_succ_of_drop hj).2.2]

theorem step_minus {i j left right : Nat} {line : List Char} {xs : List (List Char)}
    (hi : as.drop i = line :: xs) :
    step as (reached bs i j (left + 1) right) ('-' :: line) =
      some (reached bs (i + 1) j left right) := by
  simp [step, reached, take, (drop_succ_of_drop hi).2.1]

theorem step_plus {i j left right : Nat} {line : List Char} {ys : List (List Char)}
    (hj : bs.drop j = line :: ys) :
    step as (reached bs i j left (right + 1)) ('+' :: line) =
      some (reached bs i (j + 1) left right) := by
  simp [step, reached, put, (drop_succ_of_drop hj).2.2]

theorem step_header {i j size left right : Nat} {line : List Char}
    (hgap : (⟨i, j, size⟩ : Block).Matches as bs)
    (hline : readHeader line = some ⟨i + size, left, j + size, right⟩) :
    step as (reached bs i j 0 0) line = some (reached bs (i + size) (j + size) left right) := by
  have hleft := hgap.left_le
  have hright := hgap.right_le
  have hsame := hgap.same
  simp only at hleft hright hsame
  have hmade : bs.take j ++ (as.drop i).take size = bs.take (j + size) := by
    rw [hsame, List.take_add]
  simp [step, reached, hline, enter, hmade, hleft]
  omega

theorem run_keep {i j left right : Nat} {ls xs ys : List (List Char)}
    (hi : as.drop i = ls ++ xs) (hj : bs.drop j = ls ++ ys) :
    (ls.map (' ' :: ·)).foldlM (step as)
        (reached bs i j (ls.length + left) (ls.length + right)) =
      some (reached bs (i + ls.length) (j + ls.length) left right) := by
  induction ls generalizing i j with
  | nil => simp
  | cons line ls ih =>
      rw [List.map_cons, List.foldlM_cons, List.length_cons, Nat.add_right_comm ls.length 1 left,
        Nat.add_right_comm ls.length 1 right, step_keep hi hj, Option.bind_eq_bind,
        Option.bind_some, ih (drop_succ_of_drop hi).1 (drop_succ_of_drop hj).1]
      simp only [reached, Nat.add_assoc, Nat.add_comm 1]

theorem run_minus {i j left right : Nat} {ls xs : List (List Char)}
    (hi : as.drop i = ls ++ xs) :
    (ls.map ('-' :: ·)).foldlM (step as) (reached bs i j (ls.length + left) right) =
      some (reached bs (i + ls.length) j left right) := by
  induction ls generalizing i with
  | nil => simp
  | cons line ls ih =>
      rw [List.map_cons, List.foldlM_cons, List.length_cons, Nat.add_right_comm ls.length 1 left,
        step_minus hi, Option.bind_eq_bind, Option.bind_some, ih (drop_succ_of_drop hi).1]
      simp only [reached, Nat.add_assoc, Nat.add_comm 1]

theorem run_plus {i j left right : Nat} {ls ys : List (List Char)}
    (hj : bs.drop j = ls ++ ys) :
    (ls.map ('+' :: ·)).foldlM (step as) (reached bs i j left (ls.length + right)) =
      some (reached bs i (j + ls.length) left right) := by
  induction ls generalizing j with
  | nil => simp
  | cons line ls ih =>
      rw [List.map_cons, List.foldlM_cons, List.length_cons, Nat.add_right_comm ls.length 1 right,
        step_plus hj, Option.bind_eq_bind, Option.bind_some, ih (drop_succ_of_drop hj).1]
      simp only [reached, Nat.add_assoc, Nat.add_comm 1]

/-- The lines of a range, between what stands before it and behind it. -/
theorem exists_range {start stop : Nat} (hle : start ≤ stop) (hstop : stop ≤ as.length) :
    ∃ ls, (as.take stop).drop start = ls ∧ as.drop start = ls ++ as.drop stop ∧
      stop = start + ls.length := by
  refine ⟨(as.take stop).drop start, rfl, ?_, ?_⟩
  · conv_lhs => rw [← List.take_append_drop stop as]
    rw [List.drop_append_of_le_length (by simp; omega)]
  · rw [List.length_drop, List.length_take, Nat.min_eq_left hstop]
    omega

/-- A change takes its lines from one text and puts those of the other. -/
theorem run_change {change : Change} (h : change.Sound as bs) (left right : Nat) :
    (change.shown as bs).foldlM (step as) (reached bs change.left change.right
        (change.leftEnd - change.left + left) (change.rightEnd - change.right + right)) =
      some (reached bs change.leftEnd change.rightEnd left right) := by
  cases h with
  | @equal block hmatches hsize =>
      obtain ⟨ls, hls⟩ : ∃ ls, (as.drop block.left).take block.size = ls := ⟨_, rfl⟩
      have hlength : block.size = ls.length := by
        have hle := hmatches.left_le
        rw [← hls, List.length_take, List.length_drop]
        omega
      have hi : as.drop block.left = ls ++ (as.drop block.left).drop block.size := by
        rw [← hls, List.take_append_drop]
      have hj : bs.drop block.right = ls ++ (bs.drop block.right).drop block.size := by
        rw [← hls, hmatches.same, List.take_append_drop]
      rw [shown_unchanged, hls]
      simp only [Block.unchanged, Nat.add_sub_cancel_left]
      rw [hlength]
      exact run_keep hi hj
  | replace hleft hright hleftEnd hrightEnd =>
      obtain ⟨ls, hls, hi, rfl⟩ := exists_range hleft.le hleftEnd
      obtain ⟨ms, hms, hj, rfl⟩ := exists_range hright.le hrightEnd
      simp only [Change.shown, marked, hls, hms, Nat.add_sub_cancel_left, List.foldlM_append]
      rw [run_minus hi, Option.bind_eq_bind, Option.bind_some, run_plus hj]
  | delete hleft hleftEnd hright =>
      obtain ⟨ls, hls, hi, rfl⟩ := exists_range hleft.le hleftEnd
      simp only [Change.shown, marked, hls, Nat.add_sub_cancel_left, Nat.sub_self, Nat.zero_add]
      exact run_minus hi
  | insert hright hleft hrightEnd =>
      obtain ⟨ms, hms, hj, rfl⟩ := exists_range hright.le hrightEnd
      simp only [Change.shown, marked, hms, Nat.add_sub_cancel_left, Nat.sub_self, Nat.zero_add]
      exact run_plus hj

/-- Applying the lines of a script moves the reader over both texts as far as the script does. -/
theorem run_script {i j i' j' : Nat} {script : List Change}
    (h : Script as bs i j script i' j') (left right : Nat) :
    (shown as bs script).foldlM (step as) (reached bs i j (i' - i + left) (j' - j + right)) =
      some (reached bs i' j' left right) := by
  induction h with
  | nil => simp
  | @cons change rest i' j' hsound hrest ih =>
      have hle := hsound.le
      have hle' := hrest.le
      have hleft : i' - change.left + left =
          change.leftEnd - change.left + (i' - change.leftEnd + left) := by omega
      have hright : j' - change.right + right =
          change.rightEnd - change.right + (j' - change.rightEnd + right) := by omega
      rw [shown_cons, List.foldlM_append, hleft, hright, run_change hsound, Option.bind_eq_bind,
        Option.bind_some, ih]

end Patching

/-! ## The whole diff -/

def hunkLines (before after : List (List Char)) (hunk : List Change) : List (List Char) :=
  match hunk.head?, hunk.getLast? with
  | some first, some last =>
    headerLine first.left last.leftEnd first.right last.rightEnd :: shown before after hunk
  | _, _ => []

theorem renderHunk_eq (hunk : List Change) :
    renderHunk as bs hunk = (hunkLines as bs hunk).flatten := by
  have hbody : hunk.flatMap (Change.render as bs) = (shown as bs hunk).flatten := by
    induction hunk with
    | nil => rfl
    | cons change rest ih => simp [ih, Change.render_eq]
  cases hfirst : hunk.head? <;> cases hlast : hunk.getLast? <;>
    simp [renderHunk, hunkLines, hfirst, hlast, headerLine, hbody]

theorem Script.getLast {i j i' j' : Nat} {script : List Change} {last : Change}
    (h : Script as bs i j script i' j') (hlast : script.getLast? = some last) :
    last.leftEnd = i' ∧ last.rightEnd = j' := by
  induction h with
  | nil => cases hlast
  | @cons change rest _ _ _ hrest ih =>
      cases rest with
      | nil =>
          obtain rfl : change = last := by simpa using hlast
          exact hrest.eq_of_nil
      | cons next others => exact ih (by simpa using hlast)

theorem Script.hunkLines_eq {i j i' j' : Nat} {hunk : List Change}
    (h : Script as bs i j hunk i' j') (hne : hunk ≠ []) :
    hunkLines as bs hunk = headerLine i i' j j' :: shown as bs hunk := by
  obtain ⟨last, hlast⟩ : ∃ last, hunk.getLast? = some last :=
    ⟨_, List.getLast?_eq_some_getLast hne⟩
  obtain ⟨hleft, hright⟩ := h.getLast hlast
  cases h with
  | nil => exact absurd rfl hne
  | cons => simp [hunkLines, hlast, hleft, hright]

/-- Applying every hunk leaves both texts at points with the same rest. -/
theorem Hunked.run {i j : Nat} {found : List (List Change)} (h : Hunked as bs i j found)
    (hne : ∀ hunk ∈ found, hunk ≠ []) :
    ∃ i' j', (found.flatMap (hunkLines as bs)).foldlM (Patching.step as)
        (Patching.reached bs i j 0 0) = some (Patching.reached bs i' j' 0 0) ∧
      as.drop i' = bs.drop j' := by
  induction h with
  | @nil i j hsame => exact ⟨i, j, rfl, hsame⟩
  | @cons i j size i' j' hunk rest hgap hscript hrest ih =>
      obtain ⟨hhunk, hne⟩ := List.forall_mem_cons.1 hne
      obtain ⟨m, n, hrun, hsame⟩ := ih hne
      refine ⟨m, n, ?_, hsame⟩
      have hbody := Patching.run_script hscript 0 0
      rw [Nat.add_zero, Nat.add_zero] at hbody
      rw [List.flatMap_cons, hscript.hunkLines_eq hhunk, List.cons_append, List.foldlM_cons,
        Patching.step_header hgap (readHeader_headerLine _ _ _ _), Option.bind_eq_bind,
        Option.bind_some, List.foldlM_append, hbody, Option.bind_eq_bind, Option.bind_some, hrun]

theorem ne_nil_of_mem_hunks {hunk : List Change} (h : hunk ∈ hunks as bs) : hunk ≠ [] := by
  rintro rfl
  simpa [isHunk] using (List.mem_filter.1 h).2

/-- The hunks of two texts lead from one to the other. -/
theorem applyHunks_hunks (before after : List (List Char)) :
    applyHunks before ((hunks before after).flatMap (hunkLines before after)) = some after := by
  obtain ⟨i, j, hrun, hsame⟩ := (hunked_hunks before after).run fun _ => ne_nil_of_mem_hunks
  have hstart : Patching.reached after 0 0 0 0 = ⟨[], 0, 0, 0⟩ := rfl
  rw [hstart] at hrun
  rw [applyHunks, hrun, Option.bind_some, Patching.reached, Patching.finish,
    if_pos ⟨rfl, rfl⟩, hsame, List.take_append_drop]

end Fakery.Diff
