import Fakery.Diff.Unified
import Fakery.Proofs.Diff.Matching

/-!
# Hunks as edit scripts

The changes between two lists lead from their beginnings to their ends, and each says truly
what becomes of the lines it covers.  Trimming and grouping leave out nothing but lines that
are equal in both lists, so the hunks, with equal stretches between them, still do.
-/

namespace Fakery.Diff

variable {as bs : List (List Char)}

def Block.unchanged (block : Block) : Change :=
  ⟨.equal, block.left, block.left + block.size, block.right, block.right + block.size⟩

/-- A change says truly what becomes of the lines that it covers. -/
inductive Change.Sound (as bs : List (List Char)) : Change → Prop
  | equal {block : Block} (hmatches : block.Matches as bs) (hsize : 0 < block.size) :
      Sound as bs block.unchanged
  | replace {left leftEnd right rightEnd : Nat} (hleft : left < leftEnd)
      (hright : right < rightEnd) (hleftEnd : leftEnd ≤ as.length)
      (hrightEnd : rightEnd ≤ bs.length) :
      Sound as bs ⟨.replace, left, leftEnd, right, rightEnd⟩
  | delete {left leftEnd right : Nat} (hleft : left < leftEnd) (hleftEnd : leftEnd ≤ as.length)
      (hright : right ≤ bs.length) : Sound as bs ⟨.delete, left, leftEnd, right, right⟩
  | insert {left right rightEnd : Nat} (hright : right < rightEnd) (hleft : left ≤ as.length)
      (hrightEnd : rightEnd ≤ bs.length) : Sound as bs ⟨.insert, left, left, right, rightEnd⟩

/-- Changes that lead from one pair of places to another. -/
inductive Script (as bs : List (List Char)) : Nat → Nat → List Change → Nat → Nat → Prop
  | nil {i j : Nat} (hleft : i ≤ as.length) (hright : j ≤ bs.length) : Script as bs i j [] i j
  | cons {change : Change} {rest : List Change} {i j : Nat} (hsound : change.Sound as bs)
      (hrest : Script as bs change.leftEnd change.rightEnd rest i j) :
      Script as bs change.left change.right (change :: rest) i j

/-- Hunks from a pair of places on, with equal lines between them and behind them. -/
inductive Hunked (as bs : List (List Char)) : Nat → Nat → List (List Change) → Prop
  | nil {i j : Nat} (hsame : as.drop i = bs.drop j) : Hunked as bs i j []
  | cons {i j size i' j' : Nat} {hunk : List Change} {rest : List (List Change)}
      (hgap : (⟨i, j, size⟩ : Block).Matches as bs)
      (hscript : Script as bs (i + size) (j + size) hunk i' j') (hrest : Hunked as bs i' j' rest) :
      Hunked as bs i j (hunk :: rest)

/-! ## Changes between matching blocks -/

theorem Change.Sound.le {change : Change} (h : change.Sound as bs) :
    change.left ≤ change.leftEnd ∧ change.leftEnd ≤ as.length ∧
      change.right ≤ change.rightEnd ∧ change.rightEnd ≤ bs.length := by
  cases h with
  | equal hmatches => exact ⟨by simp [Block.unchanged], hmatches.left_le,
      by simp [Block.unchanged], hmatches.right_le⟩
  | replace => simp only; omega
  | delete => simp only; omega
  | insert => simp only; omega

theorem Change.Sound.lt {change : Change} (h : change.Sound as bs) :
    change.left < change.leftEnd ∨ change.right < change.rightEnd := by
  cases h with
  | equal _ hsize => exact Or.inl (by simpa [Block.unchanged] using hsize)
  | replace hleft => exact Or.inl hleft
  | delete hleft => exact Or.inl hleft
  | insert hright => exact Or.inr hright

theorem Script.le {i j i' j' : Nat} {script : List Change} (h : Script as bs i j script i' j') :
    i ≤ i' ∧ i' ≤ as.length ∧ j ≤ j' ∧ j' ≤ bs.length := by
  induction h with
  | nil hleft hright => omega
  | cons hsound _ ih =>
      have hle := hsound.le
      omega

theorem Script.append {i j k l m n : Nat} {first second : List Change}
    (hfirst : Script as bs i j first k l) (hsecond : Script as bs k l second m n) :
    Script as bs i j (first ++ second) m n := by
  induction hfirst with
  | nil => exact hsecond
  | cons hsound _ ih => exact .cons hsound (ih hsecond)

/-- The change between two blocks leads from the end of the one to the start of the other. -/
theorem script_gapChange? {i j i' j' : Nat} (hi : i ≤ i') (hj : j ≤ j') (hi' : i' ≤ as.length)
    (hj' : j' ≤ bs.length) : Script as bs i j (gapChange? i i' j j').toList i' j' := by
  have hnil : Script as bs i' j' [] i' j' := .nil hi' hj'
  unfold gapChange?
  split
  · next hboth =>
      simp only [Bool.and_eq_true, decide_eq_true_eq] at hboth
      exact .cons (.replace hboth.1 hboth.2 hi' hj') hnil
  · next hboth =>
      simp only [Bool.and_eq_true, decide_eq_true_eq] at hboth
      split
      · next hleft =>
          obtain rfl : j = j' := by omega
          exact .cons (.delete hleft hi' hj') hnil
      · next hleft =>
          obtain rfl : i = i' := by omega
          split
          · next hright => exact .cons (.insert hright hi' hj') hnil
          · next hright =>
              obtain rfl : j = j' := by omega
              exact hnil

theorem script_changesFrom {i j : Nat} {found : List Block} (h : Aligned as bs i j found) :
    Script as bs i j (changesFrom i j as.length bs.length found) as.length bs.length := by
  induction h with
  | nil hleft hright => exact script_gapChange? hleft hright le_rfl le_rfl
  | cons hleft hright hmatches hsize _ ih =>
      have hle := hmatches.left_le
      have hle' := hmatches.right_le
      exact (script_gapChange? hleft hright (by omega) (by omega)).append
        (.cons (.equal hmatches hsize) ih)

theorem script_changes (before after : List (List Char)) :
    Script before after 0 0 (changes before after) before.length after.length :=
  script_changesFrom (aligned_matching before after)

/-! ## Cutting equal stretches short -/

theorem Block.Matches.part {block : Block} (h : block.Matches as bs) (skip size : Nat)
    (hle : skip + size ≤ block.size) :
    (⟨block.left + skip, block.right + skip, size⟩ : Block).Matches as bs := by
  have hleft := h.left_le
  have hright := h.right_le
  refine ⟨by simp only; omega, by simp only; omega, ?_⟩
  have hpart : ∀ (xs : List (List Char)) (place : Nat), (xs.drop (place + skip)).take size =
      (((xs.drop place).take block.size).drop skip).take size := by
    intro xs place
    rw [List.drop_take, List.take_take, List.drop_drop, Nat.min_eq_left (by omega)]
  simp only
  rw [hpart, hpart, h.same]

def Block.start (block : Block) : Block :=
  ⟨block.left, block.right, min block.size context⟩

def Block.finish (block : Block) : Block :=
  ⟨block.left + (block.size - context), block.right + (block.size - context),
    min block.size context⟩

theorem Block.keepStart_unchanged (block : Block) :
    block.unchanged.keepStart = block.start.unchanged := by
  simp only [unchanged, start, Change.keepStart, beq_self_eq_true, if_true, Change.mk.injEq,
    true_and]
  omega

theorem Block.keepEnd_unchanged (block : Block) :
    block.unchanged.keepEnd = block.finish.unchanged := by
  simp only [unchanged, finish, Change.keepEnd, beq_self_eq_true, if_true, Change.mk.injEq,
    true_and]
  omega

theorem Block.Matches.start {block : Block} (h : block.Matches as bs) :
    block.start.Matches as bs :=
  h.part 0 (min block.size context) (by omega)

theorem Block.Matches.finish {block : Block} (h : block.Matches as bs) :
    block.finish.Matches as bs :=
  h.part (block.size - context) (min block.size context) (by omega)

theorem Change.keepStart_of_ne {change : Change} (h : change.kind ≠ .equal) :
    change.keepStart = change :=
  if_neg (by simpa using h)

theorem Change.keepEnd_of_ne {change : Change} (h : change.kind ≠ .equal) :
    change.keepEnd = change :=
  if_neg (by simpa using h)

/-- A sound change is a common run or no equal stretch at all. -/
theorem Change.Sound.run_or {change : Change} (h : change.Sound as bs) :
    (∃ block : Block, change = block.unchanged ∧ block.Matches as bs ∧ 0 < block.size) ∨
      change.kind ≠ .equal := by
  cases h with
  | equal hmatches hsize => exact Or.inl ⟨_, rfl, hmatches, hsize⟩
  | replace => exact Or.inr (by simp)
  | delete => exact Or.inr (by simp)
  | insert => exact Or.inr (by simp)

theorem matches_nothing {i j : Nat} (hi : i ≤ as.length) (hj : j ≤ bs.length) :
    (⟨i, j, 0⟩ : Block).Matches as bs :=
  ⟨hi, hj, rfl⟩

theorem Script.run {block : Block} {rest : List Change} {i j k l m n : Nat}
    (hmatches : block.Matches as bs) (hsize : 0 < block.size) (hi : block.left = i)
    (hj : block.right = j) (hk : block.left + block.size = k) (hl : block.right + block.size = l)
    (hrest : Script as bs k l rest m n) : Script as bs i j (block.unchanged :: rest) m n := by
  subst hi hj hk hl
  exact .cons (.equal hmatches hsize) hrest

/-- The script of the changes that stay begins behind equal lines. -/
theorem Script.keepEnd {change : Change} {rest : List Change} {i j i' j' : Nat}
    (h : Script as bs i j (change :: rest) i' j') :
    ∃ size, (⟨i, j, size⟩ : Block).Matches as bs ∧
      Script as bs (i + size) (j + size) (change.keepEnd :: rest) i' j' := by
  cases h with
  | cons hsound hrest =>
      rcases hsound.run_or with ⟨block, rfl, hmatches, hsize⟩ | hkind
      · refine ⟨block.size - context, hmatches.part 0 _ (by omega), ?_⟩
        rw [block.keepEnd_unchanged]
        refine .run hmatches.finish ?_ rfl rfl ?_ ?_ hrest
        all_goals simp only [Block.finish, Block.unchanged, context]; omega
      · have hle := hsound.le
        rw [Change.keepEnd_of_ne hkind]
        exact ⟨0, matches_nothing (by omega) (by omega), .cons hsound hrest⟩

theorem Script.eq_of_nil {i j i' j' : Nat} (h : Script as bs i j [] i' j') : i = i' ∧ j = j' := by
  cases h
  exact ⟨rfl, rfl⟩

theorem Script.split {i j i' j' : Nat} {first second : List Change}
    (h : Script as bs i j (first ++ second) i' j') :
    ∃ k l, Script as bs i j first k l ∧ Script as bs k l second i' j' := by
  induction first generalizing i j with
  | nil =>
      have hle := h.le
      exact ⟨i, j, .nil (by omega) (by omega), h⟩
  | cons change rest ih =>
      cases h with
      | cons hsound hrest =>
          obtain ⟨k, l, hfirst, hsecond⟩ := ih hrest
          exact ⟨k, l, .cons hsound hfirst, hsecond⟩

/-- What a cut at the end leaves out is equal in both lists. -/
theorem Script.keepStart {change : Change} {i j i' j' : Nat}
    (h : Script as bs i j [change] i' j') :
    ∃ m n size, Script as bs i j [change.keepStart] m n ∧
      (⟨m, n, size⟩ : Block).Matches as bs ∧ m + size = i' ∧ n + size = j' := by
  cases h with
  | cons hsound hrest =>
      have hle := hsound.le
      obtain ⟨rfl, rfl⟩ := hrest.eq_of_nil
      rcases hsound.run_or with ⟨block, rfl, hmatches, hsize⟩ | hkind
      · have hleft := hmatches.left_le
        have hright := hmatches.right_le
        rw [block.keepStart_unchanged]
        refine ⟨_, _, block.size - context, .run hmatches.start ?_ rfl rfl rfl rfl (.nil ?_ ?_),
          hmatches.part (min block.size context) _ (by omega), ?_, ?_⟩
        all_goals simp only [Block.start, Block.unchanged, context]; omega
      · rw [Change.keepStart_of_ne hkind]
        exact ⟨_, _, 0, .cons hsound (.nil (by omega) (by omega)),
          matches_nothing (by omega) (by omega), rfl, rfl⟩

theorem Block.Matches.drop_eq {i j size : Nat} (h : (⟨i, j, size⟩ : Block).Matches as bs)
    (hrest : as.drop (i + size) = bs.drop (j + size)) : as.drop i = bs.drop j := by
  rw [← List.take_append_drop size (as.drop i), ← List.take_append_drop size (bs.drop j),
    List.drop_drop, List.drop_drop, hrest]
  exact congrArg (· ++ _) h.same

theorem trimEnds_eq {first last : Change} {rest front : List Change}
    (h : first.keepEnd :: rest = front ++ [last]) :
    trimEnds (first :: rest) = front ++ [last.keepStart] := by
  simp [trimEnds, h]

/-- A trimmed script begins behind a common block and ends before a common rest. -/
theorem Script.trimEnds {changes : List Change} {i j i' j' : Nat}
    (h : Script as bs i j changes i' j') (hsame : as.drop i' = bs.drop j') :
    ∃ size m n, (⟨i, j, size⟩ : Block).Matches as bs ∧
      Script as bs (i + size) (j + size) (trimEnds changes) m n ∧ as.drop m = bs.drop n := by
  cases changes with
  | nil =>
      have hle := h.le
      cases h
      exact ⟨0, i, j, matches_nothing (by omega) (by omega), .nil (by omega) (by omega), hsame⟩
  | cons first rest =>
      obtain ⟨size, hgap, hscript⟩ := h.keepEnd
      rcases List.eq_nil_or_concat (first.keepEnd :: rest) with hnil | ⟨front, last, hfront⟩
      · cases hnil
      · rw [List.concat_eq_append] at hfront
        rw [hfront] at hscript
        obtain ⟨k, l, hfirst, hlast⟩ := hscript.split
        obtain ⟨m, n, left, hkept, hrest, rfl, rfl⟩ := hlast.keepStart
        rw [trimEnds_eq hfront]
        exact ⟨size, m, n, hgap, hfirst.append hkept, hrest.drop_eq hsame⟩

/-- A long run is cut into its start, which ends a group, and its end, which begins one. -/
theorem Block.Matches.cut {block : Block} {group : List Change} {more : List (List Change)}
    {m n : Nat} (hmatches : block.Matches as bs) (hlong : 2 * context < block.size)
    (hgroup : Script as bs (block.left + block.size) (block.right + block.size) group m n)
    (hmore : Hunked as bs m n more) :
    Script as bs block.left block.right [block.start.unchanged] (block.left + context)
        (block.right + context) ∧
      Hunked as bs (block.left + context) (block.right + context)
        ((block.finish.unchanged :: group) :: more) := by
  have hleft := hmatches.left_le
  have hright := hmatches.right_le
  have hgap := hmatches.part context (block.size - 2 * context) (by omega)
  simp only [context] at hlong hgap ⊢
  constructor
  · refine .run hmatches.start ?_ rfl rfl ?_ ?_ (.nil (by omega) (by omega))
    all_goals simp only [Block.start, context]; omega
  · refine .cons hgap (.run hmatches.finish ?_ ?_ ?_ ?_ ?_ hgroup) hmore
    all_goals simp only [Block.finish, context]; omega

/-- Groups begin where the changes do and leave out nothing but equal lines. -/
theorem Script.groups {changes : List Change} {i j i' j' : Nat}
    (h : Script as bs i j changes i' j') (hsame : as.drop i' = bs.drop j') :
    ∃ group more m n, groups changes = group :: more ∧ Script as bs i j group m n ∧
      Hunked as bs m n more := by
  induction h with
  | @nil i j hleft hright => exact ⟨[], [], i, j, rfl, .nil hleft hright, .nil hsame⟩
  | @cons change rest i' j' hsound hrest ih =>
      obtain ⟨group, more, m, n, hgroups, hgroup, hmore⟩ := ih hsame
      rw [Diff.groups, hgroups]
      split
      · next hlong =>
          simp only [Bool.and_eq_true, beq_iff_eq, decide_eq_true_eq] at hlong
          rcases hsound.run_or with ⟨block, rfl, hmatches, hsize⟩ | hkind
          · rw [block.keepStart_unchanged, block.keepEnd_unchanged]
            have hlength : 2 * context < block.size := by
              simpa [Block.unchanged] using hlong.2
            obtain ⟨hstart, hrest⟩ := hmatches.cut hlength hgroup hmore
            exact ⟨_, _, _, _, rfl, hstart, hrest⟩
          · exact absurd hlong.1 hkind
      · exact ⟨change :: group, more, m, n, rfl, .cons hsound hgroup, hmore⟩

/-! ## Hunks -/

theorem Hunked.behind {i j size : Nat} {found : List (List Change)}
    (hgap : (⟨i, j, size⟩ : Block).Matches as bs)
    (h : Hunked as bs (i + size) (j + size) found) : Hunked as bs i j found := by
  cases h with
  | nil hsame => exact .nil (hgap.drop_eq hsame)
  | cons hnext hscript hrest =>
      have hjoined := hgap.join hnext rfl rfl
      rw [Nat.add_assoc, Nat.add_assoc] at hscript
      exact .cons hjoined hscript hrest

/-- A group that is no hunk is a common run. -/
theorem Script.matches_of_not_isHunk {i j i' j' : Nat} {group : List Change}
    (h : Script as bs i j group i' j') (hequal : isHunk group = false) :
    ∃ size, (⟨i, j, size⟩ : Block).Matches as bs ∧ i + size = i' ∧ j + size = j' := by
  induction h with
  | nil hleft hright => exact ⟨0, matches_nothing hleft hright, rfl, rfl⟩
  | cons hsound _ ih =>
      rw [isHunk, List.any_cons, Bool.or_eq_false_iff] at hequal
      obtain ⟨size, hrest, rfl, rfl⟩ := ih hequal.2
      rcases hsound.run_or with ⟨block, rfl, hmatches, -⟩ | hkind
      · exact ⟨block.size + size, hmatches.join hrest rfl rfl, (Nat.add_assoc _ _ _).symm,
          (Nat.add_assoc _ _ _).symm⟩
      · exact absurd hequal.1 (by simpa using hkind)

theorem Hunked.filter {i j : Nat} {found : List (List Change)} (h : Hunked as bs i j found) :
    Hunked as bs i j (found.filter isHunk) := by
  induction h with
  | nil hsame => exact .nil hsame
  | cons hgap hscript hrest ih =>
      rw [List.filter_cons]
      split
      · exact .cons hgap hscript ih
      · next hequal =>
          obtain ⟨size, hgroup, rfl, rfl⟩ := hscript.matches_of_not_isHunk (by simpa using hequal)
          exact (ih.behind hgroup).behind hgap

theorem hunked_hunks (before after : List (List Char)) :
    Hunked before after 0 0 (hunks before after) := by
  obtain ⟨size, m, n, hgap, htrimmed, hsame⟩ :=
    (script_changes before after).trimEnds (by simp)
  obtain ⟨group, more, k, l, hgroups, hgroup, hmore⟩ := htrimmed.groups hsame
  rw [hunks, hgroups]
  exact (Hunked.cons hgap hgroup hmore).filter

theorem hunks_ne_nil {before after : List (List Char)} (h : before ≠ after) :
    hunks before after ≠ [] := by
  intro hnil
  have hhunked := hunked_hunks before after
  rw [hnil] at hhunked
  cases hhunked with
  | nil hsame => exact h (by simpa using hsame)

end Fakery.Diff
