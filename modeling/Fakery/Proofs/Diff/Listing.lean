import Fakery.Proofs.Diff.Script
import Fakery.Proofs.Text.Lines

/-!
# The lines of a diff

A diff is read by cutting it at line feeds, and so every line in it but the last has to bring
a line feed along.  The lines that the hunks show do so, unless the diff goes on behind the
last line of a text that does not end in one.
-/

namespace Fakery.Diff

open Text (feedLines feedLines_word)

/-- A line with a line feed at its end and nowhere else. -/
def IsFed (line : List Char) : Prop :=
  ∃ word, '\n' ∉ word ∧ line = word ++ ['\n']

/-- Lines that can be told apart once they are written one after another. -/
inductive Legible : List (List Char) → Prop
  | nil : Legible []
  | last {line : List Char} (hne : line ≠ []) (hfeed : '\n' ∉ line) : Legible [line]
  | cons {line : List Char} {rest : List (List Char)} (hfed : IsFed line)
      (hrest : Legible rest) : Legible (line :: rest)

/-! ## Cutting at line feeds -/

theorem feedLines_fed {line : List Char} (hfed : IsFed line) (rest : List Char) :
    feedLines (line ++ rest) = line :: feedLines rest := by
  obtain ⟨word, hword, rfl⟩ := hfed
  induction word with
  | nil => rfl
  | cons c word ih =>
      obtain ⟨hc, hword⟩ : '\n' ≠ c ∧ '\n' ∉ word := by simpa using hword
      rw [List.cons_append, List.cons_append, feedLines, if_neg (by simpa using hc.symm),
        ih hword]

theorem feedLines_flatten_append {fed : List (List Char)} (hfed : ∀ line ∈ fed, IsFed line)
    (rest : List Char) : feedLines (fed.flatten ++ rest) = fed ++ feedLines rest := by
  induction fed with
  | nil => rfl
  | cons line fed ih =>
      obtain ⟨hline, hfed⟩ := List.forall_mem_cons.1 hfed
      rw [List.flatten_cons, List.append_assoc, feedLines_fed hline, ih hfed, List.cons_append]

theorem Legible.feedLines_flatten {ls : List (List Char)} (h : Legible ls) :
    feedLines ls.flatten = ls := by
  induction h with
  | nil => rfl
  | last hne hfeed => simpa using feedLines_word hne hfeed
  | cons hfed _ ih => rw [List.flatten_cons, feedLines_fed hfed, ih]

theorem legible_feedLines (cs : List Char) : Legible (feedLines cs) := by
  induction cs with
  | nil => exact .nil
  | cons c cs ih =>
      rw [feedLines]
      split
      · next hc => exact .cons ⟨[], by simp, by simpa using hc⟩ ih
      · next hc =>
          have hc : '\n' ≠ c := by simpa using Ne.symm (by simpa using hc)
          split
          · exact .last (by simp) (by simpa using hc)
          · next line more heq =>
              rw [heq] at ih
              cases ih with
              | last hne hfeed => exact .last (by simp) (by simp [hc, hfeed])
              | cons hfed hrest =>
                  obtain ⟨word, hword, rfl⟩ := hfed
                  exact .cons ⟨c :: word, by simp [hc, hword], rfl⟩ hrest

/-! ## Legible parts -/

theorem IsFed.mark {line : List Char} (h : IsFed line) {mark : Char} (hmark : mark ≠ '\n') :
    IsFed (mark :: line) := by
  obtain ⟨word, hword, rfl⟩ := h
  exact ⟨mark :: word, by simp [hmark.symm, hword], rfl⟩

namespace Legible

variable {ls : List (List Char)} (h : Legible ls)

include h

theorem sublist {ks : List (List Char)} (hsublist : ks.Sublist ls) : Legible ks := by
  induction hsublist with
  | slnil => exact h
  | cons line _ ih =>
      cases h with
      | last => exact ih .nil
      | cons _ hrest => exact ih hrest
  | cons_cons line hsublist ih =>
      cases h with
      | last hne hfeed =>
          rw [List.sublist_nil.1 hsublist]
          exact .last hne hfeed
      | cons hfed hrest => exact .cons hfed (ih hrest)

theorem isFed_of_lt {n : Nat} (hn : n < ls.length) : ∀ line ∈ ls.take n, IsFed line := by
  induction h generalizing n with
  | nil => simp at hn
  | last =>
      obtain rfl : n = 0 := by simpa using hn
      simp
  | cons hfed _ ih =>
      cases n with
      | zero => simp
      | succ n => exact List.forall_mem_cons.2 ⟨hfed, ih (by simpa using hn)⟩

theorem mark {mark : Char} (hmark : mark ≠ '\n') : Legible (ls.map (mark :: ·)) := by
  induction h with
  | nil => exact .nil
  | last hne hfeed => exact .last (by simp) (by simp [hmark.symm, hfeed])
  | cons hfed _ ih => exact .cons (hfed.mark hmark) ih

theorem behind {fed : List (List Char)} (hfed : ∀ line ∈ fed, IsFed line) :
    Legible (fed ++ ls) := by
  induction fed with
  | nil => exact h
  | cons line fed ih =>
      obtain ⟨hline, hfed⟩ := List.forall_mem_cons.1 hfed
      exact .cons hline (ih hfed)

end Legible

/-- What stands behind lines may be exchanged, but nothing may be put where nothing was. -/
theorem Legible.exchange {front ks ls : List (List Char)} (h : Legible (front ++ ks))
    (hls : Legible ls) (hnil : ks = [] → ls = []) : Legible (front ++ ls) := by
  induction front with
  | nil => exact hls
  | cons line front ih =>
      rw [List.cons_append] at h ⊢
      generalize hrest : front ++ ks = rest at h ih
      cases h with
      | last hne hfeed =>
          obtain ⟨rfl, hks⟩ := List.append_eq_nil_iff.1 hrest
          rw [hnil hks]
          exact .last hne hfeed
      | cons hfed hrest => exact .cons hfed (ih hrest)

/-! ## The lines of a change -/

/-- Lines of a text behind a mark. -/
def marked (mark : Char) (lines : List (List Char)) (start stop : Nat) : List (List Char) :=
  ((lines.take stop).drop start).map (mark :: ·)

def Change.shown (before after : List (List Char)) (change : Change) : List (List Char) :=
  match change.kind with
  | .equal => marked ' ' before change.left change.leftEnd
  | .delete => marked '-' before change.left change.leftEnd
  | .insert => marked '+' after change.right change.rightEnd
  | .replace =>
    marked '-' before change.left change.leftEnd ++ marked '+' after change.right change.rightEnd

def shown (before after : List (List Char)) (script : List Change) : List (List Char) :=
  script.flatMap (Change.shown before after)

variable {as bs : List (List Char)}

@[simp]
theorem shown_nil : shown as bs [] = [] := rfl

@[simp]
theorem shown_cons (change : Change) (rest : List Change) :
    shown as bs (change :: rest) = change.shown as bs ++ shown as bs rest :=
  List.flatMap_cons

@[simp]
theorem shown_append (first second : List Change) :
    shown as bs (first ++ second) = shown as bs first ++ shown as bs second :=
  List.flatMap_append

theorem Change.render_eq (change : Change) :
    change.render as bs = (change.shown as bs).flatten := by
  obtain ⟨kind, left, leftEnd, right, rightEnd⟩ := change
  cases kind <;> simp [render, shown, renderLines, marked, List.flatMap_def]

theorem shown_unchanged (block : Block) :
    block.unchanged.shown as bs = ((as.drop block.left).take block.size).map (' ' :: ·) := by
  simp [Block.unchanged, Change.shown, marked, List.drop_take]

theorem isFed_marked {mark : Char} (hmark : mark ≠ '\n') (has : Legible as) {start stop : Nat}
    (hstop : stop < as.length) : ∀ line ∈ marked mark as start stop, IsFed line := by
  intro line hline
  obtain ⟨plain, hplain, rfl⟩ := List.mem_map.1 hline
  exact (has.isFed_of_lt hstop plain (List.mem_of_mem_drop hplain)).mark hmark

theorem legible_marked {mark : Char} (hmark : mark ≠ '\n') (has : Legible as)
    (start stop : Nat) : Legible (marked mark as start stop) :=
  (has.sublist ((List.drop_sublist _ _).trans (List.take_sublist _ _))).mark hmark

section Listing

variable (has : Legible as) (hbs : Legible bs)

include has hbs

/-- Behind lines of both texts every change shows whole lines. -/
theorem Change.Sound.isFed_shown {change : Change} (h : change.Sound as bs)
    (hleft : change.leftEnd < as.length) (hright : change.rightEnd < bs.length) :
    ∀ line ∈ change.shown as bs, IsFed line := by
  cases h with
  | equal => exact isFed_marked (by decide) has hleft
  | replace =>
      intro line hline
      rcases List.mem_append.1 hline with hminus | hplus
      · exact isFed_marked (by decide) has hleft line hminus
      · exact isFed_marked (by decide) hbs hright line hplus
  | delete => exact isFed_marked (by decide) has hleft
  | insert => exact isFed_marked (by decide) hbs hright

theorem Script.isFed_shown {script : List Change} {i j i' j' : Nat}
    (h : Script as bs i j script i' j') (hi' : i' < as.length) (hj' : j' < bs.length) :
    ∀ line ∈ shown as bs script, IsFed line := by
  induction h with
  | nil => simp
  | cons hsound hrest ih =>
      have hle := hrest.le
      intro line hline
      rcases List.mem_append.1 (shown_cons _ _ ▸ hline) with hfirst | hrest
      · exact hsound.isFed_shown has hbs (by omega) (by omega) line hfirst
      · exact ih hi' hj' line hrest

/-- A common run that does not reach both ends is made of whole lines. -/
theorem Block.Matches.isFed_shown {block : Block} (h : block.Matches as bs)
    (hends : block.left + block.size < as.length ∨ block.right + block.size < bs.length) :
    ∀ line ∈ block.unchanged.shown as bs, IsFed line := by
  rw [shown_unchanged]
  intro line hline
  obtain ⟨plain, hplain, rfl⟩ := List.mem_map.1 hline
  refine IsFed.mark ?_ (by decide)
  rcases hends with hleft | hright
  · exact has.isFed_of_lt hleft plain (by
      rw [List.take_add]
      exact List.mem_append_right _ hplain)
  · rw [h.same] at hplain
    exact hbs.isFed_of_lt hright plain (by
      rw [List.take_add]
      exact List.mem_append_right _ hplain)

/-- What a stretch at the end without common lines shows. -/
theorem legible_gapChange? {i j : Nat}
    (hend : (∀ line ∈ as, IsFed line) ∨
      ∀ change ∈ (gapChange? i as.length j bs.length).toList.getLast?, change.kind ≠ .replace) :
    Legible (shown as bs (gapChange? i as.length j bs.length).toList) := by
  unfold gapChange? at hend ⊢
  split
  · next hboth =>
      simp only [hboth, if_true] at hend
      rcases hend with hfed | hkind
      · rw [Option.toList_some, shown_cons, shown_nil, List.append_nil]
        refine (legible_marked (by decide) hbs _ _).behind ?_
        intro line hline
        obtain ⟨plain, hplain, rfl⟩ := List.mem_map.1 hline
        exact (hfed plain (List.mem_of_mem_take (List.mem_of_mem_drop hplain))).mark (by decide)
      · exact absurd rfl (hkind _ rfl)
  · split
    · simpa [Change.shown] using legible_marked (by decide) has i as.length
    · split
      · simpa [Change.shown] using legible_marked (by decide) hbs j bs.length
      · exact .nil

omit has hbs in
theorem changesFrom_ends {i j : Nat} {found : List Block} (h : Aligned as bs i j found)
    (hi : i = as.length) (hj : j = bs.length) :
    changesFrom i j as.length bs.length found = [] := by
  cases h with
  | nil => simp [changesFrom, gapChange?, hi, hj]
  | cons hleft _ hmatches hsize _ =>
      have hle := hmatches.left_le
      omega

/-- The changes can be read, unless a text without line feed at its end is replaced there. -/
theorem Aligned.legible_shown {i j : Nat} {found : List Block} (h : Aligned as bs i j found)
    (hend : (∀ line ∈ as, IsFed line) ∨
      ∀ change ∈ (changesFrom i j as.length bs.length found).getLast?, change.kind ≠ .replace) :
    Legible (shown as bs (changesFrom i j as.length bs.length found)) := by
  induction h with
  | nil => exact legible_gapChange? has hbs hend
  | @cons i j block rest hleft hright hmatches hsize hrest ih =>
      have hle := hmatches.left_le
      have hle' := hmatches.right_le
      have hgap := (script_gapChange? hleft hright (by omega) (by omega)).isFed_shown has hbs
        (show block.left < as.length by omega) (show block.right < bs.length by omega)
      rw [changesFrom, shown_append, shown_cons]
      refine Legible.behind ?_ hgap
      by_cases hends : block.left + block.size < as.length ∨ block.right + block.size < bs.length
      · refine (ih (hend.imp_right ?_)).behind (hmatches.isFed_shown has hbs hends)
        intro hkind change hchange
        exact hkind change (by
          rw [changesFrom, List.getLast?_append, List.getLast?_cons, hchange]
          rfl)
      · rw [changesFrom_ends hrest (by omega) (by omega), shown_nil, List.append_nil]
        exact legible_marked (by decide) has _ _

end Listing

/-! ## The lines of the hunks -/

theorem Change.keepEnd_sublist (change : Change) :
    (change.keepEnd.shown as bs).Sublist (change.shown as bs) := by
  by_cases hkind : change.kind = .equal
  · simp only [keepEnd, hkind, beq_self_eq_true, if_true, shown, marked]
    exact (List.drop_sublist_drop_left _ (le_max_left _ _)).map _
  · rw [keepEnd_of_ne hkind]

theorem Change.keepStart_sublist (change : Change) :
    (change.keepStart.shown as bs).Sublist (change.shown as bs) := by
  by_cases hkind : change.kind = .equal
  · simp only [keepStart, hkind, beq_self_eq_true, if_true, shown, marked]
    exact ((List.take_sublist_take_left (min_le_left _ _)).drop _).map _
  · rw [keepStart_of_ne hkind]

/-- The start and the end of a long equal stretch do not overlap. -/
theorem Change.cut_sublist {change : Change} (hkind : change.kind = .equal)
    (hlong : 2 * context < change.leftEnd - change.left) :
    (change.keepStart.shown as bs ++ change.keepEnd.shown as bs).Sublist
      (change.shown as bs) := by
  simp only [context] at hlong
  simp only [keepStart, keepEnd, hkind, beq_self_eq_true, if_true, shown, marked, context,
    ← List.map_append, Nat.min_eq_right (show change.left + 3 ≤ change.leftEnd by omega),
    Nat.max_eq_right (show change.left ≤ change.leftEnd - 3 by omega)]
  refine List.Sublist.map _ ?_
  calc _ = ((as.take change.leftEnd).drop change.left).take 3 ++
        (as.take change.leftEnd).drop (change.leftEnd - 3) := by
        rw [List.take_drop, List.take_take, Nat.min_eq_left (by omega)]
    List.Sublist _ (((as.take change.leftEnd).drop change.left).take 3 ++
        ((as.take change.leftEnd).drop change.left).drop 3) := by
        rw [List.drop_drop]
        exact (List.drop_sublist_drop_left _ (by omega)).append_left _
    _ = _ := List.take_append_drop _ _

theorem exists_groups_eq (changes : List Change) :
    ∃ group more, groups changes = group :: more := by
  cases changes with
  | nil => exact ⟨[], [], rfl⟩
  | cons change rest =>
      rw [groups]
      split <;> split <;> exact ⟨_, _, rfl⟩

theorem groups_sublist (changes : List Change) :
    (shown as bs (groups changes).flatten).Sublist (shown as bs changes) := by
  induction changes with
  | nil => exact .slnil
  | cons change rest ih =>
      obtain ⟨group, more, hgroups⟩ := exists_groups_eq rest
      rw [hgroups] at ih
      rw [groups, hgroups]
      split
      · next hlong =>
          simp only [Bool.and_eq_true, beq_iff_eq, decide_eq_true_eq] at hlong
          simpa using (Change.cut_sublist hlong.1 hlong.2).append ih
      · simpa using ih.append_left (change.shown as bs)

/-- Trimming the ends of a script only drops lines from what it shows. -/
theorem trimEnds_sublist (changes : List Change) :
    (shown as bs (trimEnds changes)).Sublist (shown as bs changes) := by
  cases changes with
  | nil => exact .slnil
  | cons first rest =>
      rcases List.eq_nil_or_concat (first.keepEnd :: rest) with hnil | ⟨front, last, hfront⟩
      · cases hnil
      · rw [List.concat_eq_append] at hfront
        rw [trimEnds_eq hfront]
        calc (shown as bs (front ++ [last.keepStart])).Sublist (shown as bs (front ++ [last])) := by
              simpa using last.keepStart_sublist.append_left (shown as bs front)
          _ = shown as bs (first.keepEnd :: rest) := by rw [hfront]
          List.Sublist _ (shown as bs (first :: rest)) := by
              simpa using first.keepEnd_sublist.append_right (shown as bs rest)

theorem hunks_sublist (before after : List (List Char)) :
    (shown before after (hunks before after).flatten).Sublist
      (shown before after (changes before after)) := by
  have hfilter : (hunks before after).flatten.Sublist
      (groups (trimEnds (changes before after))).flatten :=
    (List.filter_sublist (p := isHunk)).flatten
  exact (hfilter.flatMap _).trans
    ((groups_sublist _).trans (trimEnds_sublist _))

/-! ## The last change -/

theorem trimEnds_concat (front : List Change) {change : Change} (hkind : change.kind ≠ .equal) :
    ∃ others, trimEnds (front ++ [change]) = others ++ [change] := by
  cases front with
  | nil =>
      have hone : change.keepEnd :: [] = [] ++ [change] := by rw [Change.keepEnd_of_ne hkind]; rfl
      refine ⟨[], ?_⟩
      rw [List.nil_append, trimEnds_eq hone, Change.keepStart_of_ne hkind, List.nil_append]
  | cons first rest =>
      refine ⟨first.keepEnd :: rest, ?_⟩
      have hmore : first.keepEnd :: (rest ++ [change]) = (first.keepEnd :: rest) ++ [change] := rfl
      rw [List.cons_append, trimEnds_eq hmore, Change.keepStart_of_ne hkind]

/-- A change behind everything else ends the last group. -/
theorem groups_concat (front : List Change) {change : Change} (hkind : change.kind ≠ .equal) :
    ∃ others last, groups (front ++ [change]) = others ++ [last ++ [change]] := by
  induction front with
  | nil =>
      refine ⟨[], [], ?_⟩
      simp [groups, hkind]
  | cons first rest ih =>
      obtain ⟨others, last, hgroups⟩ := ih
      rw [List.cons_append, groups, hgroups]
      cases others with
      | nil =>
          split
          · exact ⟨[[first.keepStart]], first.keepEnd :: last, rfl⟩
          · exact ⟨[], first :: last, rfl⟩
      | cons group more =>
          split
          · exact ⟨[first.keepStart] :: (first.keepEnd :: group) :: more, last, rfl⟩
          · exact ⟨(first :: group) :: more, last, rfl⟩

/-- A change at the end that is no equal stretch ends the last hunk. -/
theorem hunks_concat {before after : List (List Char)} {front : List Change} {change : Change}
    (hlast : changes before after = front ++ [change]) (hkind : change.kind ≠ .equal) :
    ∃ others last, hunks before after = others ++ [last ++ [change]] := by
  obtain ⟨trimmed, htrimmed⟩ := trimEnds_concat front hkind
  obtain ⟨others, last, hgroups⟩ := groups_concat trimmed hkind
  refine ⟨others.filter isHunk, last, ?_⟩
  rw [hunks, hlast, htrimmed, hgroups, List.filter_append]
  simp [isHunk, hkind]

end Fakery.Diff
