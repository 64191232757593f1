import Fakery.Proofs.Text.Lines

/-!
# Removals, line by line

A removal takes the text between two offsets with the spaces and tabs behind it.  If
nothing else stands on the lines of the text, it takes these lines as a whole instead.
Either way it joins no two lines: lines beyond it stay as they are.
-/

namespace Fakery

open Text

section Lines

variable {source : List Char} {offset first last other : Nat}

theorem LineOpens.unique (h : LineOpens source offset first)
    (hother : LineOpens source offset other) : first = other := by
  -- of two starts the later one has a line feed before it, which the earlier one excludes
  have hle : ∀ {a b}, LineOpens source offset a → LineOpens source offset b → a ≤ b := by
    intro a b ha hb
    by_contra hlt
    rcases ha.opens with hzero | hfeed
    · omega
    · have hmem := ha.le
      exact hb.no_feed (mem_slice hfeed (by omega) (by omega))
  exact Nat.le_antisymm (hle h hother) (hle hother h)

theorem LineCloses.unique (h : LineCloses source offset last)
    (hother : LineCloses source offset other) : last = other := by
  have hle : ∀ {a b}, LineCloses source offset a → LineCloses source offset b → a ≤ b := by
    intro a b ha hb
    by_contra hlt
    have hlength := ha.le_length
    rcases hb.closes with hend | hfeed
    · omega
    · exact ha.no_feed (mem_slice hfeed hb.le (by omega))
  exact Nat.le_antisymm (hle h hother) (hle hother h)

theorem endsLine_take (h : source[offset]? = some '\n') : EndsLine (source.take (offset + 1)) :=
  Or.inr ⟨source.take offset, by rw [List.take_add_one, h, Option.toList_some]⟩

theorem LineOpens.endsLine (h : LineOpens source offset first) : EndsLine (source.take first) := by
  rcases h.opens with rfl | hfeed
  · exact Or.inl rfl
  · cases first with
    | zero => exact Or.inl rfl
    | succ first => exact endsLine_take hfeed

/-- Lines begin anew behind the end of a line. -/
theorem LineCloses.feedLines_eq (h : LineCloses source offset last) :
    feedLines source = feedLines (source.take (min (last + 1) source.length)) ++
      feedLines (source.drop (min (last + 1) source.length)) := by
  rcases h.closes with rfl | hfeed
  · simp [feedLines]
  · have hlast := (List.getElem?_eq_some_iff.1 hfeed).1
    rw [Nat.min_eq_left hlast, ← feedLines_append (endsLine_take hfeed), List.take_append_drop]

end Lines

namespace Edit

/-- A removal of the text between two offsets and of all spaces and tabs behind it.  It
takes no line feed but those of the text. -/
structure Trims (source : List Char) (start stop : Nat) (edit : Edit) : Prop where
  start_eq : edit.start = start
  blanks : BlanksTo source stop edit.stop
  count_feeds : (applyAll source [edit]).count '\n' + (slice source start stop).count '\n' =
    source.count '\n'

/-- A removal of the lines that the text between two offsets stands on, from the start of the
first one to behind the line feed of the last one, or to the end.  The lines before and
behind are left as they are. -/
structure TakesLines (source : List Char) (start stop : Nat) (edit : Edit) : Prop where
  opens : LineOpens source start edit.start
  closes : ∃ last, LineCloses source stop last ∧ edit.stop = min (last + 1) source.length
  lines_eq : feedLines source = feedLines (source.take edit.start) ++
    feedLines (slice source edit.start edit.stop) ++ feedLines (source.drop edit.stop)
  lines_left : feedLines (applyAll source [edit]) =
    feedLines (source.take edit.start) ++ feedLines (source.drop edit.stop)

end Edit

/-- Nothing but blanks stands on the lines of the text between two offsets before and
behind it. -/
def AloneOnLines (source : List Char) (start stop : Nat) : Prop :=
  ∀ first last, LineOpens source start first → LineCloses source stop last →
    isBlankText (slice source first start) = true ∧ isBlankText (slice source stop last) = true

section Removal

variable {source : List Char} {start stop : Nat}

theorem aloneOnLines_iff (hstart : start ≤ source.length) (hstop : stop ≤ source.length) :
    AloneOnLines source start stop ↔
      (isBlankText (slice source (lineStart source start) start) &&
        isBlankText (slice source stop (lineEnd source stop))) = true := by
  rw [Bool.and_eq_true]
  constructor
  · exact fun h => h _ _ (lineStart_opens hstart) (lineEnd_closes hstop)
  · intro h first last hfirst hlast
    rwa [hfirst.unique (lineStart_opens hstart), hlast.unique (lineEnd_closes hstop)]

theorem removal_of_alone (hstart : start ≤ source.length) (hstop : stop ≤ source.length)
    (h : AloneOnLines source start stop) :
    removal source start stop =
      ⟨lineStart source start, min (lineEnd source stop + 1) source.length, []⟩ :=
  if_pos ((aloneOnLines_iff hstart hstop).1 h)

theorem removal_of_not_alone (hstart : start ≤ source.length) (hstop : stop ≤ source.length)
    (h : ¬ AloneOnLines source start stop) :
    removal source start stop = ⟨start, skipBlanks source stop, []⟩ :=
  if_neg (mt (aloneOnLines_iff hstart hstop).2 h)

theorem takesLines_of_alone (hle : start ≤ stop) (hstop : stop ≤ source.length)
    (h : AloneOnLines source start stop) :
    (removal source start stop).TakesLines source start stop := by
  have hopens := lineStart_opens (hle.trans hstop)
  have hcloses := lineEnd_closes hstop
  have hspan : lineStart source start ≤ min (lineEnd source stop + 1) source.length := by
    have hfirst := hopens.le
    have hlast := hcloses.le
    omega
  rw [removal_of_alone (hle.trans hstop) hstop h]
  refine ⟨hopens, ⟨_, hcloses, rfl⟩, ?_, ?_⟩
  · rw [hcloses.feedLines_eq, ← take_append_slice source hspan, feedLines_append hopens.endsLine]
  · rw [Edit.applyAll_singleton, Edit.apply, List.append_nil, feedLines_append hopens.endsLine]

/-- A text that shares its lines is removed with the spaces and tabs behind it. -/
theorem trims_of_not_alone (hle : start ≤ stop) (hstop : stop ≤ source.length)
    (h : ¬ AloneOnLines source start stop) :
    (removal source start stop).Trims source start stop := by
  have hblanks := skipBlanks_blanksTo hstop
  rw [removal_of_not_alone (hle.trans hstop) hstop h]
  refine ⟨rfl, hblanks, ?_⟩
  rw [Edit.applyAll_singleton, Edit.apply, List.append_nil, List.count_append]
  have hnone : (slice source stop (skipBlanks source stop)).count '\n' = 0 := by
    rw [List.count_eq_zero]
    exact isSpaceOrTab_ne_line hblanks.spaces
  calc
    (source.take start).count '\n' + (source.drop (skipBlanks source stop)).count '\n' +
          (slice source start stop).count '\n' =
        (source.take start ++ slice source start stop ++
          slice source stop (skipBlanks source stop) ++
          source.drop (skipBlanks source stop)).count '\n' := by
      simp only [List.count_append, hnone]
      omega
    _ = source.count '\n' := by
      rw [take_append_slice source hle, take_append_slice source hblanks.le,
        List.take_append_drop]

/-- A removal that takes whole lines finds nothing else on them. -/
theorem alone_of_takesLines (hle : start ≤ stop) (hstop : stop ≤ source.length)
    (h : (removal source start stop).TakesLines source start stop) :
    AloneOnLines source start stop := by
  by_contra hnot
  have hremoval := removal_of_not_alone (hle.trans hstop) hstop hnot
  obtain ⟨last, hlast, hend⟩ := h.closes
  have hopens := h.opens
  rw [hremoval] at hopens hend
  refine hnot fun first other hfirst hother => ⟨?_, ?_⟩
  · rw [hfirst.unique hopens]
    simp [slice, isBlankText]
  · -- a solid character behind the text would stop the removal in front of the line's end
    rw [hother.unique hlast, isBlankText_slice]
    rintro i hi hlt ⟨c, hc, hsolid⟩
    have hskip := skipBlanks_le hc (isSpaceOrTab_of_solid hsolid) hi
    have hlength := hlast.le_length
    dsimp only at hend
    omega

/-- A removal takes the blanks behind its text or the lines of its text. -/
theorem trims_or_takesLines (hle : start ≤ stop) (hstop : stop ≤ source.length) :
    (removal source start stop).Trims source start stop ∨
      (removal source start stop).TakesLines source start stop := by
  by_cases h : AloneOnLines source start stop
  · exact Or.inr (takesLines_of_alone hle hstop h)
  · exact Or.inl (trims_of_not_alone hle hstop h)

end Removal

/-- A removal reaches beyond its text over blanks only.  It takes either the spaces and tabs
behind the text or the lines of the text as a whole, the latter exactly if nothing but
blanks stands on them besides. -/
theorem removal_joins_no_lines {source : List Char} {start stop : Nat} (hle : start ≤ stop)
    (hstop : stop ≤ source.length) :
    (removal source start stop).Removes source start stop ∧
      ((removal source start stop).Trims source start stop ∨
        (removal source start stop).TakesLines source start stop) ∧
      ((removal source start stop).TakesLines source start stop ↔
        AloneOnLines source start stop) := by
  exact ⟨removal_removes hle hstop, trims_or_takesLines hle hstop, alone_of_takesLines hle hstop,
    takesLines_of_alone hle hstop⟩

/-- A text over two lines, with a tab before it and blanks up to the line feed behind it. -/
def spreadSource : List Char :=
  "let a\n\t@X(\n1) \r\nlet b".toList

theorem removal_joins_no_lines_spreadSource :
    7 ≤ 13 ∧ 13 ≤ spreadSource.length ∧
      slice spreadSource 7 13 = "@X(\n1)".toList ∧
      AloneOnLines spreadSource 7 13 ∧
      (removal spreadSource 7 13).Removes spreadSource 7 13 ∧
      (removal spreadSource 7 13).TakesLines spreadSource 7 13 ∧
      Edit.applyAll spreadSource [removal spreadSource 7 13] = "let a\nlet b".toList := by
  have hstop : 13 ≤ spreadSource.length := by decide
  have halone : AloneOnLines spreadSource 7 13 :=
    (aloneOnLines_iff (by decide) hstop).2 (by decide)
  obtain ⟨hremoves, -, hlines⟩ := @removal_joins_no_lines spreadSource 7 13 (by decide) hstop
  refine ⟨by decide, hstop, by decide, halone, hremoves, hlines.2 halone, ?_⟩
  rw [Edit.applyAll_singleton]
  decide

end Fakery
