import Fakery.Proofs.Edit.Patch
import Fakery.Proofs.Outline.Spelling

/-!
# Taking marks out

Some marks before a keyword are flagged.  If the marks on the keyword's own line are the
last ones, the removals of the flagged marks leave a margin and the other marks, so what
stands before the keyword keeps its form.
-/

namespace Fakery.Outline

open Text Edit

/-- A mark with a flag that tells whether it is taken out. -/
abbrev FlaggedMark := Bool × Mark

def keptMarks (flagged : List FlaggedMark) : List Mark :=
  (flagged.filter fun entry => !entry.1).map Prod.snd

def marksText (flagged : List FlaggedMark) : List Char :=
  flagged.flatMap fun entry => entry.2.text

/-- The removals of the flagged marks when the marks begin at an offset. -/
def removalsAt (source : List Char) : (start : Nat) → List FlaggedMark → List Edit
  | _, [] => []
  | start, (cut, mark) :: rest =>
    (if cut then [removal source start (start + mark.bareText.length)] else []) ++
      removalsAt source (start + mark.text.length) rest

def Break.endsLine : Break → Bool
  | .space => false
  | .line _ => true

theorem eq_space_of_endsLine {behind : Break} (h : behind.endsLine = false) : behind = .space := by
  cases behind with
  | space => rfl
  | line next => cases h

/-- Marks on the line of a keyword come behind the marks on lines of their own. -/
def isTidy : List Mark → Bool
  | [] => true
  | mark :: rest =>
    if mark.behind.endsLine then isTidy rest else rest.all fun mark => !mark.behind.endsLine

/-- What is left of an indentation and marks behind it without the flagged marks.  A mark
alone on its line goes with its indentation. -/
def prune (indent : Indent) : List FlaggedMark → Indent × List Mark
  | [] => (indent, [])
  | (cut, ⟨name, argument, .space⟩) :: rest =>
    (indent, keptMarks ((cut, ⟨name, argument, .space⟩) :: rest))
  | (cut, ⟨name, argument, .line next⟩) :: rest =>
    let (first, marks) := prune next rest
    if cut then (first, marks) else (indent, ⟨name, argument, .line first⟩ :: marks)

theorem found_prune (indent : Indent) (flagged : List FlaggedMark) :
    (prune indent flagged).2.map Mark.found = (keptMarks flagged).map Mark.found := by
  induction flagged generalizing indent with
  | nil => rfl
  | cons entry rest ih =>
      obtain ⟨cut, name, argument, behind⟩ := entry
      cases behind with
      | space => rfl
      | line next =>
          cases cut with
          | true => exact ih next
          | false => exact congrArg (_ :: ·) (ih next)

section Patches

variable {source before after : List Char} {flagged : List FlaggedMark}

/-- Marks before a solid character begin with a solid character. -/
theorem solid_marksText (flagged : List FlaggedMark)
    (hafter : ∃ c cs, after = c :: cs ∧ isBlank c = false) :
    ∃ c cs, marksText flagged ++ after = c :: cs ∧ isBlank c = false := by
  cases flagged with
  | nil => exact hafter
  | cons entry rest => exact ⟨'@', _, rfl, rfl⟩

/-- Marks on one line are taken out with the spaces behind them. -/
theorem patches_space (hspace : ∀ entry ∈ flagged, entry.2.behind = .space)
    (hsource : source = before ++ (marksText flagged ++ after))
    (hafter : ∃ c cs, after = c :: cs ∧ isBlank c = false) :
    Patches before.length (marksText flagged) (removalsAt source before.length flagged)
      ((keptMarks flagged).flatMap Mark.text) := by
  induction flagged generalizing before with
  | nil => exact .keep _ _
  | cons entry rest ih =>
      obtain ⟨cut, mark⟩ := entry
      rw [List.forall_mem_cons] at hspace
      have htext : mark.text = mark.bareText ++ [' '] := by
        rw [Mark.text, hspace.1]
        rfl
      have hrest := @ih (before ++ mark.text) hspace.2 (by simp [hsource, marksText])
      rw [List.length_append] at hrest
      cases cut with
      | false => exact (Patches.keep _ mark.text).append hrest
      | true =>
          obtain ⟨c, cs, hsolid, hc⟩ := solid_marksText rest hafter
          have hremoval : removal source before.length (before.length + mark.bareText.length) =
              ⟨before.length, before.length + mark.text.length, []⟩ := by
            rw [htext, ← removal_inline before mark.bareText hc cs, ← hsolid, hsource]
            simp [marksText, htext]
          have hhead := @Patches.replace before.length mark.text (by simp [htext]) []
          rw [← hremoval] at hhead
          exact hhead.append hrest

/-- The flagged marks of a tidy list are taken out, with their lines where they stand alone. -/
theorem patches_prune {indent : Indent} (htidy : isTidy (flagged.map Prod.snd) = true)
    (hbefore : EndsLine before)
    (hsource : source = before ++ (indent.text ++ (marksText flagged ++ after)))
    (hafter : ∃ c cs, after = c :: cs ∧ isBlank c = false) :
    Patches before.length (indent.text ++ marksText flagged)
      (removalsAt source (before.length + indent.text.length) flagged)
      ((prune indent flagged).1.text ++ (prune indent flagged).2.flatMap Mark.text) := by
  induction flagged generalizing before indent with
  | nil => exact .keep _ _
  | cons entry rest ih =>
      obtain ⟨cut, name, argument, behind⟩ := entry
      cases behind with
      | space =>
          have hspace : ∀ entry ∈ (cut, (⟨name, argument, .space⟩ : Mark)) :: rest,
              entry.2.behind = .space := by
            have hrest : (rest.map Prod.snd).all (fun mark => !mark.behind.endsLine) = true := htidy
            rw [List.all_map, List.all_eq_true] at hrest
            refine List.forall_mem_cons.2 ⟨rfl, fun entry hentry => ?_⟩
            exact eq_space_of_endsLine (by simpa using hrest entry hentry)
          have hmarks := @patches_space source (before ++ indent.text) after _ hspace
            (by simp [hsource]) hafter
          rw [List.length_append] at hmarks
          exact (Patches.keep before.length indent.text).append hmarks
      | line next =>
          have htext : (⟨name, argument, .line next⟩ : Mark).text =
              (⟨name, argument, .line next⟩ : Mark).bareText ++ '\n' :: next.text := rfl
          generalize hbare : (⟨name, argument, .line next⟩ : Mark).bareText = bare at htext
          have hline : EndsLine (before ++ (indent.text ++ (bare ++ ['\n']))) :=
            Or.inr ⟨before ++ (indent.text ++ bare), by simp⟩
          have hrest := @ih (before ++ (indent.text ++ (bare ++ ['\n']))) next htidy hline
            (by simp [hsource, marksText, htext])
          have hstart : (before ++ (indent.text ++ (bare ++ ['\n']))).length + next.text.length =
              before.length + indent.text.length + (bare ++ '\n' :: next.text).length := by
            simp
            omega
          have hwhole : indent.text ++ marksText ((cut, ⟨name, argument, .line next⟩) :: rest) =
              (indent.text ++ (bare ++ ['\n'])) ++ (next.text ++ marksText rest) := by
            simp [marksText, htext]
          have hlines : source = before ++ (indent.text ++ (bare ++ '\n' ::
              (next.text ++ (marksText rest ++ after)))) := by
            simp [hsource, marksText, htext]
          rw [hstart, List.length_append] at hrest
          rw [hwhole, removalsAt, htext, hbare]
          cases cut with
          | true =>
              have hhead := @Patches.replace before.length (indent.text ++ (bare ++ ['\n']))
                (by simp) []
              rw [← @removal_line before indent.text bare (next.text ++ (marksText rest ++ after))
                hbefore indent.blank, ← hlines] at hhead
              exact hhead.append hrest
          | false =>
              have hkept : (prune indent ((false, ⟨name, argument, .line next⟩) :: rest)).2 =
                  ⟨name, argument, .line (prune next rest).1⟩ :: (prune next rest).2 := rfl
              have hpatches := (Patches.keep before.length (indent.text ++ (bare ++ ['\n']))).append hrest
              rw [hkept, List.flatMap_cons]
              have hbare' : (⟨name, argument, .line (prune next rest).1⟩ : Mark).bareText = bare := hbare
              rw [Mark.text, hbare']
              simpa [prune, Break.text] using hpatches

end Patches

/-! ## The line of the keyword -/

theorem Mark.not_mem_bareText (mark : Mark) : '\n' ∉ mark.bareText := by
  rw [Mark.bareText]
  cases mark.argument with
  | none => simp [mark.name.not_mem_line]
  | some literal => simp [mark.name.not_mem_line, literal.not_mem_text]

/-- The line of a keyword behind tidy marks begins with blanks. -/
theorem exists_lineIndent {before after : List Char} {indent : Indent} {marks : List Mark}
    (htidy : isTidy marks = true) (hbefore : EndsLine before)
    (hafter : ∃ c cs, after = c :: cs ∧ isBlank c = false) :
    ∃ outer : Indent, lineIndent (before ++ (indent.text ++ (marks.flatMap Mark.text ++ after)))
      (before.length + (indent.text ++ marks.flatMap Mark.text).length) = outer.text := by
  induction marks generalizing before indent with
  | nil =>
      obtain ⟨c, cs, rfl, hc⟩ := hafter
      refine ⟨indent, lineIndent_append hbefore indent.blank (by simp) ?_⟩
      rintro d ⟨⟩
      exact isSpaceOrTab_of_solid hc
  | cons mark rest ih =>
      cases hbehind : mark.behind with
      | space =>
          have hrest : rest.all (fun mark => !mark.behind.endsLine) = true := by
            simpa [isTidy, hbehind, Break.endsLine] using htidy
          have hspace : ∀ other ∈ mark :: rest, other.behind = .space := by
            refine List.forall_mem_cons.2 ⟨hbehind, fun other hother => ?_⟩
            exact eq_space_of_endsLine (by simpa using List.all_eq_true.1 hrest other hother)
          have hline : '\n' ∉ (mark :: rest).flatMap Mark.text := by
            rw [List.mem_flatMap]
            rintro ⟨other, hother, hmem⟩
            rw [Mark.text, hspace other hother, List.mem_append] at hmem
            exact hmem.elim other.not_mem_bareText (by decide)
          refine ⟨indent, lineIndent_append hbefore indent.blank hline ?_⟩
          rintro d ⟨⟩
          rfl
      | line next =>
          have htidy : isTidy rest = true := by
            simpa [isTidy, hbehind, Break.endsLine] using htidy
          have hline : EndsLine (before ++ (indent.text ++ (mark.bareText ++ ['\n']))) :=
            Or.inr ⟨before ++ (indent.text ++ mark.bareText), by simp⟩
          have hrest := @ih (before ++ (indent.text ++ (mark.bareText ++ ['\n']))) next htidy hline
          simpa [Mark.text, hbehind, Break.text, Nat.add_assoc, Nat.add_comm, Nat.add_left_comm]
            using hrest

/-! ## Marks of a name -/

def Mark.isNamed (name : String) (mark : Mark) : Bool :=
  String.ofList mark.name.text == name

def flagAll (name : String) (marks : List Mark) : List FlaggedMark :=
  marks.map fun mark => (mark.isNamed name, mark)

def flagFirst (name : String) : List Mark → List FlaggedMark
  | [] => []
  | mark :: rest =>
    if mark.isNamed name then (true, mark) :: rest.map (false, ·)
    else (false, mark) :: flagFirst name rest

section Flags

variable (source : List Char) (name : String) (start : Nat) (marks : List Mark)

theorem map_snd_flagAll : (flagAll name marks).map Prod.snd = marks := by
  simp [flagAll, Function.comp_def]

theorem map_snd_flagFirst : (flagFirst name marks).map Prod.snd = marks := by
  induction marks with
  | nil => rfl
  | cons mark rest ih =>
      rw [flagFirst]
      split
      · simp [Function.comp_def]
      · rw [List.map_cons, ih]

theorem removalsAt_unflagged : removalsAt source start (marks.map (false, ·)) = [] := by
  induction marks generalizing start with
  | nil => rfl
  | cons mark rest ih => exact ih _

theorem removalsAt_flagAll :
    removalsAt source start (flagAll name marks) =
      ((attributesAt start marks).filter (·.name == name)).map fun found =>
        removal source found.start found.stop := by
  induction marks generalizing start with
  | nil => rfl
  | cons mark rest ih =>
      have hplaced : ((mark.placed start).name == name) = mark.isNamed name := rfl
      rw [flagAll, List.map_cons, removalsAt, ← flagAll, ih, attributesAt, List.filter_cons, hplaced]
      cases mark.isNamed name <;> rfl

/-- Flagging the first mark of a name gives the removal of the first attribute of that name. -/
theorem removalsAt_flagFirst :
    removalsAt source start (flagFirst name marks) =
      (findAttribute name (attributesAt start marks)).toList.map fun found =>
        removal source found.start found.stop := by
  induction marks generalizing start with
  | nil => rfl
  | cons mark rest ih =>
      have hplaced : ((mark.placed start).name == name) = mark.isNamed name := rfl
      simp only [findAttribute] at ih ⊢
      rw [flagFirst, attributesAt]
      cases hnamed : mark.isNamed name with
      | true =>
          rw [if_pos rfl, removalsAt, removalsAt_unflagged, List.find?_cons_of_pos (by rw [hplaced, hnamed])]
          rfl
      | false =>
          rw [if_neg Bool.false_ne_true, removalsAt, ih, List.find?_cons_of_neg (by simp [hplaced, hnamed])]
          rfl

theorem found_flagAll :
    (keptMarks (flagAll name marks)).map Mark.found =
      (marks.map Mark.found).filter (·.name != name) := by
  rw [keptMarks, flagAll, List.filter_map, List.map_map, List.map_map, List.filter_map]
  rfl

theorem found_flagFirst :
    (keptMarks (flagFirst name marks)).map Mark.found =
      (marks.map Mark.found).eraseP (·.name == name) := by
  induction marks with
  | nil => rfl
  | cons mark rest ih =>
      have hfound : (mark.found.name == name) = mark.isNamed name := rfl
      rw [flagFirst, List.map_cons]
      cases hnamed : mark.isNamed name with
      | true =>
          rw [if_pos rfl, List.eraseP_cons_of_pos (by rw [hfound, hnamed])]
          simp [keptMarks, List.filter_map, Function.comp_def]
      | false =>
          rw [if_neg Bool.false_ne_true, List.eraseP_cons_of_neg (by simp [hfound, hnamed]), ← ih]
          rfl

end Flags

end Fakery.Outline
