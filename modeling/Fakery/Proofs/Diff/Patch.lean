import Fakery.Proofs.Diff.Apply

/-!
# Unified diffs as patches

A diff is a text, and its reader sees the lines of the hunks in it only if they can be told
apart there.  They can, unless the diff replaces the end of a text that does not end in a line
feed: what it puts there then stands in the line that it takes away, and fits nothing.
-/

namespace Fakery.Diff

open Text (feedLines feedLines_word_append)

variable {as bs : List (List Char)}

/-! ## Reading the diff back -/

theorem Script.shown_ne_nil {i j i' j' : Nat} {script : List Change}
    (h : Script as bs i j script i' j') (hne : script ≠ []) : shown as bs script ≠ [] := by
  -- Without lines the places and what is to come of the hunk would stay as they are.
  intro hnil
  have hrun := Patching.run_script h 0 0
  rw [hnil, List.foldlM_nil] at hrun
  obtain ⟨-, -, hleft, hright⟩ : _ ∧ _ ∧ i' - i + 0 = 0 ∧ j' - j + 0 = 0 := by
    simpa [Patching.reached] using hrun
  cases h with
  | nil => exact hne rfl
  | cons hsound hrest =>
      have hlt := hsound.lt
      have hle := hrest.le
      omega

/-- The lines of the hunks are legible where the lines shown in them are. -/
theorem Hunked.legible {i j : Nat} {found : List (List Change)} (h : Hunked as bs i j found)
    (hne : ∀ hunk ∈ found, hunk ≠ []) (hshown : Legible (shown as bs found.flatten)) :
    Legible (found.flatMap (hunkLines as bs)) := by
  induction h with
  | nil => exact .nil
  | @cons i j size i' j' hunk rest hgap hscript hrest ih =>
      obtain ⟨hhunk, hne⟩ := List.forall_mem_cons.1 hne
      rw [List.flatten_cons, shown_append] at hshown
      rw [List.flatMap_cons, hscript.hunkLines_eq hhunk, List.cons_append]
      refine .cons (isFed_headerLine _ _ _ _) (hshown.exchange
        (ih hne (hshown.sublist (List.sublist_append_right _ _))) ?_)
      intro hnil
      cases hrest with
      | nil => rfl
      | cons _ hnext _ =>
          rw [List.flatten_cons, shown_append, List.append_eq_nil_iff] at hnil
          exact absurd hnil.1 (hnext.shown_ne_nil (List.forall_mem_cons.1 hne).1)

/-- All lines of a text are whole exactly if it ends in a line feed or is empty. -/
theorem Legible.isFed_iff {ls : List (List Char)} (h : Legible ls) :
    (∀ line ∈ ls, IsFed line) ↔ ∀ c ∈ ls.flatten.getLast?, c = '\n' := by
  induction h with
  | nil => simp
  | @last line hne hfeed =>
      constructor
      · intro hfed
        obtain ⟨word, -, rfl⟩ := hfed line (by simp)
        simp at hfeed
      · intro hlast
        have hmem : line.getLast hne = '\n' :=
          hlast _ (by simp [List.getLast?_eq_some_getLast hne])
        exact absurd (hmem ▸ List.getLast_mem hne) hfeed
  | @cons line rest hfed hrest ih =>
      rw [List.forall_mem_cons, ih, List.flatten_cons, List.getLast?_append]
      obtain ⟨word, hword, rfl⟩ := id hfed
      cases hlast : rest.flatten.getLast? with
      | none => simp [hfed]
      | some c => simp [hfed]

theorem Legible.exists_loose {ls : List (List Char)} (h : Legible ls)
    (hloose : ¬ ∀ line ∈ ls, IsFed line) :
    ∃ front line, ls = front ++ [line] ∧ (∀ line ∈ front, IsFed line) ∧ '\n' ∉ line := by
  induction h with
  | nil => exact absurd (by simp) hloose
  | @last line hne hfeed => exact ⟨[], line, rfl, by simp, hfeed⟩
  | @cons line rest hfed hrest ih =>
      obtain ⟨front, last, rfl, hfront, hlast⟩ :=
        ih fun hrest => hloose (List.forall_mem_cons.2 ⟨hfed, hrest⟩)
      exact ⟨line :: front, last, rfl, List.forall_mem_cons.2 ⟨hfed, hfront⟩, hlast⟩

theorem readHeader_minus (cs : List Char) : readHeader ('-' :: cs) = none := by
  obtain ⟨piece, pieces, hpieces⟩ := List.exists_cons_of_ne_nil (splitAt_ne_nil ' ' cs)
  have hsplit : Text.splitAt ' ' ('-' :: cs) = ('-' :: piece) :: pieces := by
    rw [Text.splitAt, hpieces]
    rfl
  rw [readHeader, hsplit]
  split
  · next heq =>
      obtain ⟨rfl, -⟩ := List.cons.inj heq
      simp
  · rfl

/-- Where one line can be taken away, no other can. -/
theorem Patching.step_minus_other {state state' : Patching} {line other : List Char}
    (h : step as state ('-' :: line) = some state') (hother : other ≠ line) :
    step as state ('-' :: other) = none := by
  unfold step at h ⊢
  split at h
  · rw [readHeader_minus] at h
    cases h
  · next hopen =>
      rw [if_neg hopen]
      simp only [take] at h ⊢
      split at h
      · next hline => 
          rw [if_neg]
          rintro ⟨hnext, -⟩
          exact hother (by simpa using hnext.symm.trans hline.1)
      · cases h

/-- A line that goes on where another should have ended stops the patch. -/
theorem applyHunks_joined {front rest others result : List (List Char)} {line other : List Char}
    (h : applyHunks as (front ++ ('-' :: line) :: rest) = some result) (hother : other ≠ line) :
    applyHunks as (front ++ ('-' :: other) :: others) = none := by
  rw [applyHunks, List.foldlM_append] at h ⊢
  cases hfront : front.foldlM (Patching.step as) ⟨[], 0, 0, 0⟩ with
  | none => rfl
  | some state =>
      rw [hfront, Option.bind_eq_bind, Option.bind_some, List.foldlM_cons] at h
      rw [Option.bind_eq_bind, Option.bind_some, List.foldlM_cons]
      cases hstep : state.step as ('-' :: line) with
      | none =>
          rw [hstep] at h
          cases h
      | some next =>
          rw [Patching.step_minus_other hstep hother]
          rfl

theorem isFed_or_mem_shown {hunk : List Change} {line : List Char}
    (h : line ∈ hunkLines as bs hunk) : IsFed line ∨ line ∈ shown as bs hunk := by
  unfold hunkLines at h
  split at h
  · rcases List.mem_cons.1 h with rfl | hshown
    · exact Or.inl (isFed_headerLine _ _ _ _)
    · exact Or.inr hshown
  · cases h

theorem isFed_hunkLines {found : List (List Change)}
    (h : ∀ line ∈ shown as bs found.flatten, IsFed line) :
    ∀ line ∈ found.flatMap (hunkLines as bs), IsFed line := by
  intro line hline
  obtain ⟨hunk, hhunk, hline⟩ := List.mem_flatMap.1 hline
  rcases isFed_or_mem_shown hline with hfed | hshown
  · exact hfed
  · obtain ⟨change, hchange, hline⟩ := List.mem_flatMap.1 hshown
    exact h line (List.mem_flatMap.2 ⟨change, List.mem_flatten.2 ⟨hunk, hhunk, hchange⟩, hline⟩)

theorem hunkLines_concat (as bs : List (List Char)) (hunk : List Change) (last : Change) :
    ∃ header, IsFed header ∧ hunkLines as bs (hunk ++ [last]) =
      header :: (shown as bs hunk ++ last.shown as bs) := by
  obtain ⟨first, hfirst⟩ : ∃ first, (hunk ++ [last]).head? = some first :=
    ⟨_, List.head?_eq_some_head (by simp)⟩
  refine ⟨headerLine first.left last.leftEnd first.right last.rightEnd, isFed_headerLine _ _ _ _,
    ?_⟩
  simp [hunkLines, hfirst]

theorem Script.replaces {i j i' j' : Nat} {change : Change}
    (h : Script as bs i j [change] i' j') (hkind : change.kind = .replace) :
    change = ⟨.replace, i, i', j, j'⟩ ∧ i < i' ∧ j < j' := by
  cases h with
  | cons hsound hrest =>
      obtain ⟨rfl, rfl⟩ := hrest.eq_of_nil
      cases hsound with
      | replace hleft hright => exact ⟨rfl, hleft, hright⟩
      | _ => cases hkind

/-- Where the last change replaces a line that is not whole, the diff goes on in that line. -/
theorem exists_joined {before after : List (List Char)} {last : Change} (hbefore : Legible before)
    (hafter : Legible after) (hloose : ¬ ∀ line ∈ before, IsFed line)
    (hlast : (changes before after).getLast? = some last) (hkind : last.kind = .replace) :
    ∃ front line other rest, (hunks before after).flatMap (hunkLines before after) =
        front ++ ('-' :: line) :: ('+' :: other) :: rest ∧
      (∀ line ∈ front, IsFed line) ∧ '\n' ∉ line := by
  obtain ⟨others, hchanges⟩ := List.getLast?_eq_some_iff.1 hlast
  obtain ⟨found, hunk, hhunks⟩ := hunks_concat hchanges (by simp [hkind])
  have hscript := script_changes before after
  rw [hchanges] at hscript
  obtain ⟨i, j, hothers, hreplace⟩ := hscript.split
  obtain ⟨rfl, hi, hj⟩ := hreplace.replaces hkind
  -- What stands before the change is whole, as both texts go on behind it.
  have hfed : ∀ line ∈ shown before after (found.flatten ++ hunk), IsFed line := by
    have hsublist := hunks_sublist before after
    rw [hhunks, hchanges, List.flatten_append, List.flatten_singleton, ← List.append_assoc,
      shown_append, shown_append others, List.append_sublist_append_right] at hsublist
    exact fun line hline =>
      hothers.isFed_shown hbefore hafter hi hj line (hsublist.subset hline)
  rw [shown_append, List.forall_mem_append] at hfed
  obtain ⟨header, hheader, hlines⟩ := hunkLines_concat before after hunk
    ⟨.replace, i, before.length, j, after.length⟩
  obtain ⟨front, line, hfront, hfrontFed, hline⟩ := hbefore.exists_loose hloose
  obtain ⟨other, rest, hrest⟩ := List.exists_cons_of_ne_nil
    (show after.drop j ≠ [] by simpa using hj)
  have hdrop : before.drop i = front.drop i ++ [line] := by
    have hlength : before.length = front.length + 1 := by simp [hfront]
    rw [hfront, List.drop_append_of_le_length (by omega)]
  refine ⟨found.flatMap (hunkLines before after) ++ header :: (shown before after hunk ++
    (front.drop i).map ('-' :: ·)), line, other, rest.map ('+' :: ·), ?_, ?_, hline⟩
  · rw [hhunks, List.flatMap_append, List.flatMap_singleton, hlines]
    simp [Change.shown, marked, hdrop, hrest]
  · rw [List.forall_mem_append, List.forall_mem_cons, List.forall_mem_append]
    refine ⟨isFed_hunkLines hfed.1, hheader, hfed.2, ?_⟩
    intro plain hplain
    obtain ⟨whole, hwhole, rfl⟩ := List.mem_map.1 hplain
    exact (hfrontFed whole (List.mem_of_mem_drop hwhole)).mark (by decide)

/-! ## The diff as a text -/

/-- The two lines at the head of a diff. -/
def fileHeader (path : String) : List (List Char) :=
  [("--- " ++ path ++ " (original)\n").toList, ("+++ " ++ path ++ " (expanded)\n").toList]

theorem isFed_fileHeader {path : String} (hpath : '\n' ∉ path.toList) :
    ∀ line ∈ fileHeader path, IsFed line := by
  simp only [fileHeader, List.forall_mem_cons]
  exact ⟨⟨("--- " ++ path ++ " (original)").toList, by simp [hpath], by simp⟩,
    ⟨("+++ " ++ path ++ " (expanded)").toList, by simp [hpath], by simp⟩, by simp⟩

def bodyLines (before after : List Char) : List (List Char) :=
  (hunks (Text.lines before) (Text.lines after)).flatMap
    (hunkLines (Text.lines before) (Text.lines after))

theorem flatten_hunkLines (found : List (List Change)) :
    (found.flatMap (hunkLines as bs)).flatten = found.flatMap (renderHunk as bs) := by
  induction found with
  | nil => rfl
  | cons hunk found ih => simp [ih, renderHunk_eq]

theorem unified_eq {path : String} {before after : List Char} (h : before ≠ after) :
    unified path before after = (fileHeader path ++ bodyLines before after).flatten := by
  have hlines : Text.lines before ≠ Text.lines after := by
    intro heq
    apply h
    rw [← Text.flatten_lines before, heq, Text.flatten_lines]
  rw [List.flatten_append, bodyLines, flatten_hunkLines, unified, if_neg (by simpa using h)]
  simp only
  split
  · next hnil => exact absurd hnil (hunks_ne_nil hlines)
  · simp [fileHeader]

theorem patch_eq {diff original : List Char} {path : String} {body : List (List Char)}
    (h : feedLines diff = fileHeader path ++ body) :
    patch diff original = (applyHunks (feedLines original) body).map List.flatten := by
  rw [patch, h]
  simp [fileHeader]

section Usable

variable {path : String} {before after : List Char}

theorem patch_of_legible (hpath : '\n' ∉ path.toList)
    (hbefore : Text.lines before = feedLines before) (hne : before ≠ after)
    (hlegible : Legible (bodyLines before after)) :
    patch (unified path before after) before = some after := by
  have hread := (hlegible.behind (isFed_fileHeader hpath)).feedLines_flatten
  rw [← unified_eq hne] at hread
  rw [patch_eq hread, ← hbefore, bodyLines, applyHunks_hunks, Option.map_some,
    Text.flatten_lines]

/-- A removed line without a line feed runs into the line added behind it, and the patch is
refused. -/
theorem patch_of_joined (hpath : '\n' ∉ path.toList)
    (hbefore : Text.lines before = feedLines before) (hne : before ≠ after)
    {front rest : List (List Char)} {line other : List Char}
    (hbody : bodyLines before after = front ++ ('-' :: line) :: ('+' :: other) :: rest)
    (hfront : ∀ line ∈ front, IsFed line) (hline : '\n' ∉ line) :
    patch (unified path before after) before = none := by
  have happly : applyHunks (Text.lines before) (bodyLines before after) =
      some (Text.lines after) := applyHunks_hunks _ _
  obtain ⟨more, others, hmore⟩ : ∃ more others,
      feedLines ('+' :: (other ++ rest.flatten)) = ('+' :: more) :: others := by
    rw [feedLines]
    split
    · next hfeed => exact absurd hfeed (by decide)
    · split
      · exact ⟨[], [], rfl⟩
      · exact ⟨_, _, rfl⟩
  have hread : feedLines (unified path before after) =
      fileHeader path ++ (front ++ ('-' :: (line ++ '+' :: more)) :: others) := by
    have hminus : '\n' ∉ '-' :: line := by simpa using hline
    have hfed := List.forall_mem_append.2 ⟨isFed_fileHeader hpath, hfront⟩
    calc feedLines (unified path before after)
        = feedLines ((fileHeader path ++ front).flatten ++
            ('-' :: line ++ '+' :: (other ++ rest.flatten))) := by
          rw [unified_eq hne, hbody]
          simp
      _ = fileHeader path ++ front ++ ('-' :: line ++ '+' :: more) :: others := by
          rw [feedLines_flatten_append hfed, feedLines_word_append hminus hmore]
      _ = _ := by simp
  rw [hbody] at happly
  rw [patch_eq hread, ← hbefore, applyHunks_joined happly (by simp), Option.map_none]

end Usable

/-- The diff of two texts is empty exactly if they are equal.  Otherwise, where line feeds end
the lines of both and the path is one line, it leads from the one to the other exactly if the
first ends in a line feed or is not replaced at its end. -/
theorem patch_unified_iff (path : String) (before after : List Char) :
    (unified path before after = [] ↔ before = after) ∧
      (before ≠ after → '\n' ∉ path.toList → Text.lines before = feedLines before →
        Text.lines after = feedLines after →
        (patch (unified path before after) before = some after ↔
          (∀ c ∈ before.getLast?, c = '\n') ∨
            ∀ change ∈ (changes (Text.lines before) (Text.lines after)).getLast?,
              change.kind ≠ .replace)) := by
  constructor
  · constructor
    · intro hempty
      by_contra hne
      rw [unified_eq hne] at hempty
      simp [fileHeader] at hempty
    · rintro rfl
      simp [unified]
  · intro hne hpath hbefore hafter
    have hleft : Legible (Text.lines before) := hbefore ▸ legible_feedLines before
    have hright : Legible (Text.lines after) := hafter ▸ legible_feedLines after
    have hwhole := hleft.isFed_iff
    rw [Text.flatten_lines] at hwhole
    rw [← hwhole]
    constructor
    · intro hpatch
      by_contra hnot
      rw [not_or] at hnot
      obtain ⟨hloose, hreplaced⟩ := hnot
      push Not at hreplaced
      obtain ⟨last, hlast, hkind⟩ := hreplaced
      obtain ⟨front, line, other, rest, hbody, hfront, hline⟩ :=
        exists_joined hleft hright hloose hlast hkind
      rw [patch_of_joined hpath hbefore hne hbody hfront hline] at hpatch
      cases hpatch
    · intro hend
      refine patch_of_legible hpath hbefore hne ((hunked_hunks _ _).legible
        (fun _ => ne_nil_of_mem_hunks) (Legible.sublist ?_ (hunks_sublist _ _)))
      exact (aligned_matching _ _).legible_shown hleft hright hend

/-- A text without line feed at its end, before which a line is put. -/
theorem patch_unified_iff_inserted :
    '\n' ∉ "Model.swift".toList ∧ Text.lines "a\r\nb".toList = feedLines "a\r\nb".toList ∧
      Text.lines "c\na\r\nb".toList = feedLines "c\na\r\nb".toList ∧
      patch (unified "Model.swift" "a\r\nb".toList "c\na\r\nb".toList) "a\r\nb".toList =
        some "c\na\r\nb".toList := by
  have hpath : '\n' ∉ "Model.swift".toList := by decide
  have hbefore : Text.lines "a\r\nb".toList = feedLines "a\r\nb".toList := by decide +kernel
  have hafter : Text.lines "c\na\r\nb".toList = feedLines "c\na\r\nb".toList := by decide +kernel
  have hlast : ∀ change ∈ (changes (Text.lines "a\r\nb".toList)
      (Text.lines "c\na\r\nb".toList)).getLast?, change.kind ≠ .replace := by decide +kernel
  exact ⟨hpath, hbefore, hafter, ((patch_unified_iff "Model.swift" "a\r\nb".toList
    "c\na\r\nb".toList).2 (by decide) hpath hbefore hafter).2 (Or.inr hlast)⟩

/-- A text without line feed at its end, and a text with a form feed in it. -/
theorem patch_unified_joined :
    patch (unified "p" "a".toList "b".toList) "a".toList ≠ some "b".toList ∧
      patch (unified "p" "a\x0cb\nc\n".toList "a\x0cb\nd\n".toList) "a\x0cb\nc\n".toList ≠
        some "a\x0cb\nd\n".toList := by
  decide +kernel

end Fakery.Diff
