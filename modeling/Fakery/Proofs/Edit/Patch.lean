import Fakery.Proofs.Edit.Cut

/-!
# Edits of a text, stretch by stretch

Edits that are given in the order of the text can be applied to one stretch after
another.  On a text that is known around them, removals and insertions have known
places: a removal takes an attribute's line, or the attribute and the space behind it.
-/

namespace Fakery

open Text

namespace Edit

/-- A stretch of text at an offset, edits inside of it in the order of the text, and the
text that they leave of it.  Every edit has characters of the stretch to itself: those that it
replaces, or those that it puts something in front of. -/
inductive Patches : (offset : Nat) → (text : List Char) → List Edit → List Char → Prop
  | keep (offset : Nat) (text : List Char) : Patches offset text [] text
  | replace (offset : Nat) {text : List Char} (hne : text ≠ []) (replacement : List Char) :
      Patches offset text [⟨offset, offset + text.length, replacement⟩] replacement
  | insert (offset : Nat) {text : List Char} (hne : text ≠ []) (inserted : List Char) :
      Patches offset text [⟨offset, offset, inserted⟩] (inserted ++ text)
  | append {offset : Nat} {left right left' right' : List Char} {edits others : List Edit}
      (hleft : Patches offset left edits left')
      (hright : Patches (offset + left.length) right others right') :
      Patches offset (left ++ right) (edits ++ others) (left' ++ right')

namespace Patches

variable {offset : Nat} {text result : List Char} {edits : List Edit}

/-- Every edit of a patch lies within the text it patches. -/
theorem bounds (h : Patches offset text edits result) :
    ∀ edit ∈ edits, offset ≤ edit.start ∧ edit.start ≤ edit.stop ∧
      edit.stop ≤ offset + text.length ∧ edit.start < offset + text.length := by
  induction h with
  | keep => simp
  | replace offset hne =>
      have hlength := List.length_pos_iff.2 hne
      simpa using hlength
  | insert offset hne =>
      have hlength := List.length_pos_iff.2 hne
      simpa using hlength
  | append _ _ hleft hright =>
      intro edit hedit
      rw [List.length_append]
      rcases List.mem_append.1 hedit with hedit | hedit
      · have := hleft edit hedit
        omega
      · have := hright edit hedit
        omega

/-- The edits of a stretch come one before the other. -/
theorem ordered (h : Patches offset text edits result) : edits.Pairwise Before := by
  induction h with
  | keep => exact List.Pairwise.nil
  | replace => exact List.pairwise_singleton ..
  | insert => exact List.pairwise_singleton ..
  | append hleft hright ihleft ihright =>
      rw [List.pairwise_append]
      refine ⟨ihleft, ihright, fun a ha b hb => ?_⟩
      have hfirst := hleft.bounds a ha
      have hsecond := hright.bounds b hb
      refine ⟨by omega, ?_⟩
      simp only [precedes, Bool.or_eq_false_iff, Bool.and_eq_false_iff, decide_eq_false_iff_not,
        beq_eq_false_iff_ne]
      omega

/-- Weaving edits behind a stretch keeps the stretch. -/
theorem weave_keep {source before after : List Char}
    (hsource : source = before ++ (text ++ after)) (hoffset : before.length = offset)
    {rest : List Edit} (hrest : ∀ edit ∈ rest, offset + text.length ≤ edit.start) :
    weave source offset rest = text ++ weave source (offset + text.length) rest := by
  have hdrop : source.drop offset = text ++ after := by
    rw [hsource, ← hoffset, List.drop_left]
  cases rest with
  | nil => rw [weave, weave, hdrop, ← List.drop_drop, hdrop, List.drop_left]
  | cons edit rest =>
      have hstart := hrest edit List.mem_cons_self
      have hslice : slice source offset (offset + text.length) = text := by
        rw [slice_add, hdrop, List.take_left]
      rw [weave, weave, ← slice_append_slice source (Nat.le_add_right offset text.length) hstart,
        hslice]
      simp

/-- Weaving the edits of a stretch leaves what they patch it to. -/
theorem weave_append (h : Patches offset text edits result) {source before after : List Char}
    (hsource : source = before ++ (text ++ after)) (hoffset : before.length = offset)
    {rest : List Edit} (hrest : ∀ edit ∈ rest, offset + text.length ≤ edit.start) :
    weave source offset (edits ++ rest) = result ++ weave source (offset + text.length) rest := by
  have hempty : ∀ offset, slice source offset offset = [] := fun offset => by simp [slice]
  induction h generalizing before after rest with
  | keep offset text => exact weave_keep hsource hoffset hrest
  | replace offset hne replacement => rw [List.singleton_append, weave, hempty, List.nil_append]
  | insert offset hne inserted =>
      rw [List.singleton_append, weave, hempty, List.nil_append,
        weave_keep hsource hoffset hrest, List.append_assoc]
  | @append offset left right left' right' edits others hleft hright ihleft ihright =>
      have hothers : ∀ edit ∈ others ++ rest, offset + left.length ≤ edit.start := by
        intro edit hedit
        rcases List.mem_append.1 hedit with hedit | hedit
        · exact (hright.bounds edit hedit).1
        · have := hrest edit hedit
          rw [List.length_append] at this
          omega
      have hsecond := @ihright (before ++ left) after (by simp [hsource]) (by simp [hoffset]) rest
        (by simpa [Nat.add_assoc] using hrest)
      rw [List.append_assoc, @ihleft before (right ++ after) (by simp [hsource]) hoffset
        (others ++ rest) hothers, hsecond]
      simp [Nat.add_assoc]

/-- Edits of a text that are given in any order leave what they patch it to. -/
theorem applyAll_eq {source : List Char} (h : Patches 0 source edits result)
    {collected : List Edit} (hperm : edits.Perm collected) :
    applyAll source collected = result := by
  have hfits : ∀ edit ∈ collected, edit.Fits source := by
    intro edit hedit
    have hbounds := h.bounds edit (hperm.mem_iff.2 hedit)
    exact ⟨hbounds.2.1, by simpa using hbounds.2.2.1⟩
  have hsource : source = [] ++ (source ++ []) := by simp
  have hrest : ∀ edit ∈ ([] : List Edit), 0 + source.length ≤ edit.start := by simp
  have hweave := h.weave_append hsource rfl hrest
  rw [applyAll_eq_weave hperm hfits h.ordered, ← List.append_nil edits, hweave, weave]
  simp

end Patches

end Edit

theorem slice_middle (before text after : List Char) :
    slice (before ++ (text ++ after)) before.length (before.length + text.length) = text := by
  rw [slice_add, List.drop_left, List.take_left]

/-- An attribute alone on its line is removed with the line. -/
theorem removal_line {before indent bare after : List Char} (hbefore : EndsLine before)
    (hindent : ∀ c ∈ indent, isSpaceOrTab c = true) :
    removal (before ++ (indent ++ (bare ++ '\n' :: after))) (before.length + indent.length)
        (before.length + indent.length + bare.length) =
      ⟨before.length, before.length + (indent ++ (bare ++ ['\n'])).length, []⟩ := by
  have hfirst : lineStart (before ++ (indent ++ (bare ++ '\n' :: after)))
      (before.length + indent.length) = before.length := by
    simpa using lineStart_append (bare ++ '\n' :: after) hbefore (isSpaceOrTab_ne_line hindent)
  have hlast : lineEnd (before ++ (indent ++ (bare ++ '\n' :: after)))
      (before.length + indent.length + bare.length) =
        before.length + indent.length + bare.length := by
    have hend := @lineEnd_append [] ('\n' :: after) (before ++ (indent ++ bare)) (by simp) (by simp)
    simpa [Nat.add_assoc] using hend
  have hblank : isBlankText (slice (before ++ (indent ++ (bare ++ '\n' :: after))) before.length
      (before.length + indent.length)) = true := by
    rw [slice_middle]
    exact isBlankText_of_isSpaceOrTab hindent
  have hnone : ∀ cs n, isBlankText (slice cs n n) = true := by
    intro cs n
    simp [slice, isBlankText]
  unfold removal
  simp only [hfirst, hlast, hblank, hnone, Bool.and_self, if_true]
  congr 1
  simp only [List.length_append, List.length_cons, List.length_nil]
  omega

/-- An attribute with more behind it on its line is removed with the space behind it. -/
theorem removal_inline (before bare : List Char) {c : Char} (hc : isBlank c = false)
    (after : List Char) :
    removal (before ++ (bare ++ ' ' :: c :: after)) before.length (before.length + bare.length) =
      ⟨before.length, before.length + (bare ++ [' ']).length, []⟩ := by
  have hne : c ≠ '\n' := by
    rintro rfl
    exact absurd hc (by decide)
  have hdrop : (before ++ (bare ++ ' ' :: c :: after)).drop (before.length + bare.length) =
      ' ' :: c :: after := by
    rw [← List.length_append, ← List.append_assoc, List.drop_left]
  have hsolid : Solid (before ++ (bare ++ ' ' :: c :: after)) (before.length + bare.length + 1) := by
    refine ⟨c, ?_, hc⟩
    rw [← List.getElem?_drop, hdrop]
    rfl
  have hlast : before.length + bare.length + 1 <
      lineEnd (before ++ (bare ++ ' ' :: c :: after)) (before.length + bare.length) := by
    rw [lineEnd, hdrop]
    simp [hne]
    omega
  have hrest : isBlankText (slice (before ++ (bare ++ ' ' :: c :: after))
      (before.length + bare.length)
      (lineEnd (before ++ (bare ++ ' ' :: c :: after)) (before.length + bare.length))) = false := by
    rw [Bool.eq_false_iff, ne_eq, isBlankText_slice]
    intro hblank
    exact hblank _ (Nat.le_succ _) hlast hsolid
  have hskip : skipBlanks (before ++ (bare ++ ' ' :: c :: after)) (before.length + bare.length) =
      before.length + bare.length + 1 := by
    have hspace : isSpaceOrTab ' ' = true := rfl
    rw [skipBlanks, hdrop]
    simp [isSpaceOrTab_of_solid hc, hspace]
  unfold removal
  simp only [hrest, Bool.and_false, hskip]
  simp [Nat.add_assoc]

/-- The indentation of a line. -/
theorem lineIndent_append {before indent line after : List Char} (hbefore : EndsLine before)
    (hindent : ∀ c ∈ indent, isSpaceOrTab c = true) (hline : '\n' ∉ line)
    (hhead : ∀ c, (line ++ after).head? = some c → isSpaceOrTab c = false) :
    lineIndent (before ++ (indent ++ (line ++ after)))
      (before.length + (indent ++ line).length) = indent := by
  have hfirst : lineStart (before ++ (indent ++ (line ++ after)))
      (before.length + (indent ++ line).length) = before.length := by
    have hnone : '\n' ∉ indent ++ line := by
      rw [List.mem_append, not_or]
      exact ⟨isSpaceOrTab_ne_line hindent, hline⟩
    simpa using lineStart_append after hbefore hnone
  rw [lineIndent, hfirst, List.drop_left]
  exact takeWhile_eq_left hindent hhead

/-- A block is put before the line of a closing brace, behind an empty line unless the
body is empty. -/
theorem insertion_line {before lines last after outer : List Char} {site : Site}
    (hlines : EndsLine lines) (hlast : ∀ c ∈ last, isSpaceOrTab c = true)
    (hbodyStart : site.bodyStart = before.length)
    (hbodyEnd : site.bodyEnd = before.length + 2 + lines.length + last.length)
    (houter : lineIndent (before ++ ('\x7b' :: '\n' :: (lines ++ (last ++ '\x7d' :: after))))
      site.keywordStart = outer) (rendered unit : List Char) :
    insertion (before ++ ('\x7b' :: '\n' :: (lines ++ (last ++ '\x7d' :: after)))) site rendered unit =
      ⟨before.length + 2 + lines.length, before.length + 2 + lines.length,
        (if isBlankText ('\n' :: lines) || endsWithBlankLine ('\n' :: lines) then [] else ['\n']) ++
          indentBlock (outer ++ unit) rendered ++ ['\n']⟩ := by
  have hfront : EndsLine (before ++ '\x7b' :: '\n' :: lines) := by
    right
    rcases hlines with rfl | ⟨inner, rfl⟩
    · exact ⟨before ++ ['\x7b'], by simp⟩
    · exact ⟨before ++ '\x7b' :: '\n' :: inner, by simp⟩
  have hsource : before ++ ('\x7b' :: '\n' :: (lines ++ (last ++ '\x7d' :: after))) =
      (before ++ '\x7b' :: '\n' :: lines) ++ (last ++ '\x7d' :: after) := by simp
  have hfirst : lineStart (before ++ ('\x7b' :: '\n' :: (lines ++ (last ++ '\x7d' :: after))))
      site.bodyEnd = before.length + 2 + lines.length := by
    have hstart := lineStart_append ('\x7d' :: after) hfront (isSpaceOrTab_ne_line hlast)
    rw [hsource, hbodyEnd, ← List.append_assoc]
    simpa [Nat.add_assoc, Nat.add_comm, Nat.add_left_comm] using hstart
  have hlength : (before ++ '\x7b' :: '\n' :: lines).length = before.length + 2 + lines.length := by
    simp
    omega
  have hblank : isBlankText (slice (before ++ ('\x7b' :: '\n' :: (lines ++ (last ++ '\x7d' :: after))))
      (before.length + 2 + lines.length) site.bodyEnd) = true := by
    rw [hsource, hbodyEnd, ← hlength, slice_middle]
    exact isBlankText_of_isSpaceOrTab hlast
  have hpreceding : slice (before ++ ('\x7b' :: '\n' :: (lines ++ (last ++ '\x7d' :: after))))
      (site.bodyStart + 1) (before.length + 2 + lines.length) = '\n' :: lines := by
    have hmiddle := slice_middle (before ++ ['\x7b']) ('\n' :: lines) (last ++ '\x7d' :: after)
    rw [hbodyStart]
    simpa [Nat.add_assoc, Nat.add_comm, Nat.add_left_comm] using hmiddle
  unfold insertion
  simp only [houter, hfirst, hblank, hpreceding, if_true]

end Fakery
