import Fakery.Proofs.Edit.Extent
import Fakery.Proofs.Text.Utf8
import Fakery.Text.Lines

/-!
# Lines and line feeds

The lines of a text are its pieces, so they concatenate to the text.  A text whose only line
boundaries are line feeds has the same lines for everyone who cuts it at line feeds alone.
-/

namespace Fakery.Text

/-- The only line boundaries in a text are line feeds. -/
def OnlyFeeds (cs : List Char) : Prop :=
  ∀ c ∈ cs, isLineBreak c = true → c = '\n'

theorem isLineBreak_feed : isLineBreak '\n' = true := by decide

theorem lines_feed (cs : List Char) : lines ('\n' :: cs) = ['\n'] :: lines cs := by
  rw [lines, if_pos isLineBreak_feed]
  simp

section Unbroken

variable {c : Char} {cs : List Char} (hc : isLineBreak c = false)

include hc

theorem ne_return_of_not_break : c ≠ '\r' := by
  rintro rfl
  exact absurd hc (by decide)

theorem lines_cons_of_nil (hcs : lines cs = []) : lines (c :: cs) = [[c]] := by
  have hreturn := ne_return_of_not_break hc
  rw [lines, if_neg (by simp [hc]), hcs]
  rintro _ rfl
  exact fun _ => hreturn rfl

theorem lines_cons_of_cons {line : List Char} {more : List (List Char)}
    (hcs : lines cs = line :: more) : lines (c :: cs) = (c :: line) :: more := by
  have hreturn := ne_return_of_not_break hc
  rw [lines, if_neg (by simp [hc]), hcs]
  rintro _ rfl
  exact fun _ => hreturn rfl

end Unbroken

@[simp]
theorem flatten_lines (cs : List Char) : (lines cs).flatten = cs := by
  fun_induction lines cs with
  | case1 => rfl
  | case2 cs ih => simp [ih]
  | case3 c cs _ _ ih => simp [ih]
  | case4 c cs _ _ hcs ih =>
      rw [hcs] at ih
      simp [← ih]
  | case5 c cs _ _ line more hcs ih =>
      rw [hcs] at ih
      simp [← ih]

theorem lines_ne_nil {cs : List Char} (h : cs ≠ []) : lines cs ≠ [] := by
  intro hnil
  rw [← flatten_lines cs, hnil] at h
  exact h rfl

/-- A word without line boundary before a text belongs to its first line. -/
theorem lines_append {word cs line : List Char} {more : List (List Char)}
    (hword : ∀ c ∈ word, isLineBreak c = false) (hcs : lines cs = line :: more) :
    lines (word ++ cs) = (word ++ line) :: more := by
  induction word with
  | nil => exact hcs
  | cons c word ih =>
      rw [List.forall_mem_cons] at hword
      exact lines_cons_of_cons hword.1 (ih hword.2)

theorem not_isLineBreak_of_mem_bareLines {cs line : List Char} (h : line ∈ bareLines cs) :
    ∀ c ∈ line, isLineBreak c = false := by
  obtain ⟨whole, -, rfl⟩ := List.mem_map.1 h
  intro c hc
  simpa using (List.mem_filter.1 hc).2

theorem feed_not_mem_bareLines {cs line : List Char} (h : line ∈ bareLines cs) : '\n' ∉ line :=
  fun hmem => absurd (not_isLineBreak_of_mem_bareLines h _ hmem) (by decide)

theorem bareLines_ne_nil {cs : List Char} (h : cs ≠ []) : bareLines cs ≠ [] := by
  simpa [bareLines] using lines_ne_nil h

theorem mem_joinWith {separator : List Char} {pieces : List (List Char)} {c : Char}
    (h : c ∈ joinWith separator pieces) : c ∈ separator ∨ ∃ piece ∈ pieces, c ∈ piece := by
  induction pieces with
  | nil => cases h
  | cons piece pieces ih =>
      cases pieces with
      | nil => exact Or.inr ⟨piece, List.mem_singleton_self _, h⟩
      | cons next others =>
          rw [joinWith_cons (by simp), List.mem_append, List.mem_append] at h
          rcases h with (hpiece | hseparator) | hrest
          · exact Or.inr ⟨piece, List.mem_cons_self, hpiece⟩
          · exact Or.inl hseparator
          · rcases ih hrest with hseparator | ⟨other, hother, hc⟩
            · exact Or.inl hseparator
            · exact Or.inr ⟨other, List.mem_cons_of_mem _ hother, hc⟩

/-- Without other boundaries, and without a line feed at the end, the bare lines are the pieces
between the line feeds. -/
theorem bareLines_eq_splitAt {cs : List Char} (hfeeds : OnlyFeeds cs) (hne : cs ≠ [])
    (hlast : cs.getLast? ≠ some '\n') : bareLines cs = splitAt '\n' cs := by
  induction cs with
  | nil => exact absurd rfl hne
  | cons c cs ih =>
      obtain ⟨hc, hrest⟩ := List.forall_mem_cons.1 hfeeds
      by_cases hbreak : isLineBreak c = true
      · obtain rfl := hc hbreak
        have hcs : cs ≠ [] := by
          rintro rfl
          exact hlast rfl
        rw [List.getLast?_cons_of_ne_nil hcs] at hlast
        rw [bareLines, lines_feed, List.map_cons, splitAt, if_pos (beq_self_eq_true _),
          ← ih hrest hcs hlast]
        rfl
      · rw [Bool.not_eq_true] at hbreak
        have hfeed : (c == '\n') = false := by
          simpa using fun heq : c = '\n' => absurd hbreak (heq ▸ by decide)
        rw [splitAt, if_neg (by simp [hfeed])]
        cases hlines : lines cs with
        | nil =>
            have hnil : cs = [] := by rw [← flatten_lines cs, hlines]; rfl
            subst hnil
            simp [bareLines, lines_cons_of_nil hbreak hlines, hbreak, splitAt]
        | cons line more =>
            have hcs : cs ≠ [] := by
              rintro rfl
              cases hlines
            rw [List.getLast?_cons_of_ne_nil hcs] at hlast
            rw [← ih hrest hcs hlast]
            simp [bareLines, lines_cons_of_cons hbreak hlines, hlines, hbreak]

theorem isBlank_getLast?_trim {cs : List Char} {c : Char} (h : (trim cs).getLast? = some c) :
    isBlank c = false := by
  rw [trim, trimRight, List.getLast?_reverse] at h
  have hhead := List.head?_dropWhile_not isBlank (trimLeft cs).reverse
  simpa [h] using hhead

theorem getLast?_ne_feed_of_trim {cs : List Char} (h : trim cs = cs) :
    cs.getLast? ≠ some '\n' := by
  intro hlast
  rw [← h] at hlast
  exact absurd (isBlank_getLast?_trim hlast) (by decide)

section Joined

variable {cs : List Char}

/-- A text is its bare lines, joined by line feeds, exactly if it has no other boundaries. -/
theorem joinWith_bareLines_eq_iff (hne : cs ≠ []) (hlast : cs.getLast? ≠ some '\n') :
    joinWith ['\n'] (bareLines cs) = cs ↔ OnlyFeeds cs := by
  constructor
  · intro hjoined c hc hbreak
    rw [← hjoined] at hc
    rcases mem_joinWith hc with hfeed | ⟨line, hline, hmem⟩
    · exact List.mem_singleton.1 hfeed
    · exact absurd hbreak (by simp [not_isLineBreak_of_mem_bareLines hline c hmem])
  · intro hfeeds
    rw [bareLines_eq_splitAt hfeeds hne hlast, joinWith_splitAt]

theorem bareLines_eq_splitAt_iff (hne : cs ≠ []) (hlast : cs.getLast? ≠ some '\n') :
    bareLines cs = splitAt '\n' cs ↔ OnlyFeeds cs := by
  refine ⟨fun heq => (joinWith_bareLines_eq_iff hne hlast).1 ?_,
    fun hfeeds => bareLines_eq_splitAt hfeeds hne hlast⟩
  rw [heq, joinWith_splitAt]

end Joined

/-! ## Cutting at line feeds -/

/-- The lines of a text, cut at line feeds alone.  Each keeps the line feed that ends it. -/
def feedLines : List Char → List (List Char)
  | [] => []
  | c :: rest =>
    if c == '\n' then [c] :: feedLines rest
    else
      match feedLines rest with
      | [] => [[c]]
      | line :: more => (c :: line) :: more

theorem feedLines_cons_ne_nil (c : Char) (cs : List Char) : feedLines (c :: cs) ≠ [] := by
  rw [feedLines]
  split
  · simp
  · split <;> simp

theorem feedLines_feed (before rest : List Char) :
    feedLines (before ++ '\n' :: rest) = feedLines (before ++ ['\n']) ++ feedLines rest := by
  induction before with
  | nil => simp [feedLines]
  | cons c before ih =>
      obtain ⟨line, more, hlines⟩ : ∃ line more, feedLines (before ++ ['\n']) = line :: more := by
        apply List.exists_cons_of_ne_nil
        cases before <;> exact feedLines_cons_ne_nil _ _
      simp only [List.cons_append, feedLines, ih, hlines]
      split <;> simp

/-- Lines begin anew where a text ends its last line. -/
theorem feedLines_append {front : List Char} (hfront : EndsLine front) (rest : List Char) :
    feedLines (front ++ rest) = feedLines front ++ feedLines rest := by
  rcases hfront with rfl | ⟨before, rfl⟩
  · rfl
  · rw [List.append_assoc, List.singleton_append, feedLines_feed]

theorem feedLines_word {word : List Char} (hne : word ≠ []) (hfeed : '\n' ∉ word) :
    feedLines word = [word] := by
  induction word with
  | nil => exact absurd rfl hne
  | cons c word ih =>
      obtain ⟨hc, hword⟩ : '\n' ≠ c ∧ '\n' ∉ word := by simpa using hfeed
      rw [feedLines, if_neg (by simpa using hc.symm)]
      cases word with
      | nil => rfl
      | cons d word => rw [ih (by simp) hword]

/-- A word without line feed before a text belongs to its first line. -/
theorem feedLines_word_append {word cs line : List Char} {more : List (List Char)}
    (hword : '\n' ∉ word) (hcs : feedLines cs = line :: more) :
    feedLines (word ++ cs) = (word ++ line) :: more := by
  induction word with
  | nil => exact hcs
  | cons c word ih =>
      obtain ⟨hc, hword⟩ : '\n' ≠ c ∧ '\n' ∉ word := by simpa using hword
      rw [List.cons_append, feedLines, if_neg (by simpa using hc.symm), ih hword,
        List.cons_append]

end Fakery.Text
