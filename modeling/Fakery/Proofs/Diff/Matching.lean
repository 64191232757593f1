import Fakery.Diff.Matching
import Mathlib.Tactic

/-!
# Matching blocks are common runs

The rows of run lengths, the extension of the longest run and the division around it all keep
one invariant: a block stands for equal lines in both lists.  So the matching blocks of two
lists follow one another, and each is a run that the lists share.
-/

namespace Fakery.Diff

variable {as bs : List (List Char)}

/-- The lines of a block are the same in both lists. -/
structure Block.Matches (as bs : List (List Char)) (block : Block) : Prop where
  left_le : block.left + block.size ≤ as.length
  right_le : block.right + block.size ≤ bs.length
  same : (as.drop block.left).take block.size = (bs.drop block.right).take block.size

/-- Blocks that follow one another from a place in each list on. -/
inductive Aligned (as bs : List (List Char)) : Nat → Nat → List Block → Prop
  | nil {i j : Nat} (hleft : i ≤ as.length) (hright : j ≤ bs.length) : Aligned as bs i j []
  | cons {i j : Nat} {block : Block} {rest : List Block} (hleft : i ≤ block.left)
      (hright : j ≤ block.right) (hmatches : block.Matches as bs) (hsize : 0 < block.size)
      (hrest : Aligned as bs (block.left + block.size) (block.right + block.size) rest) :
      Aligned as bs i j (block :: rest)

/-! ## Runs between seeds -/

/-- A common run of a length ends before a place in each list. -/
structure EndsRun (as bs : List (List Char)) (i j size : Nat) : Prop where
  le_left : size ≤ i
  le_right : size ≤ j
  isRun : (⟨i - size, j - size, size⟩ : Block).Matches as bs

theorem endsRun_zero {i j : Nat} (hi : i ≤ as.length) (hj : j ≤ bs.length) :
    EndsRun as bs i j 0 :=
  ⟨Nat.zero_le i, Nat.zero_le j, hi, hj, rfl⟩

theorem EndsRun.extend {i j size : Nat} {line : List Char} (h : EndsRun as bs i j size)
    (hleft : as[i]? = some line) (hright : bs[j]? = some line) :
    EndsRun as bs (i + 1) (j + 1) (size + 1) := by
  obtain ⟨hi, hj, hrun⟩ := h
  have hilt : i < as.length := (List.getElem?_eq_some_iff.1 hleft).1
  have hjlt : j < bs.length := (List.getElem?_eq_some_iff.1 hright).1
  refine ⟨by omega, by omega, by simp only; omega, by simp only; omega, ?_⟩
  have hsame := hrun.same
  simp only [Nat.add_sub_add_right] at hsame ⊢
  rw [List.take_add_one, List.take_add_one, hsame, List.getElem?_drop, List.getElem?_drop,
    Nat.sub_add_cancel hi, Nat.sub_add_cancel hj, hleft, hright]

/-- Each number in a row is the length of a run that ends there. -/
def RowValid (as bs : List (List Char)) (i : Nat) (row : List Nat) : Prop :=
  ∀ j size, row[j]? = some size → EndsRun as bs i (j + 1) size

/-- The run lengths of one row give those of the next. -/
theorem rowValid_runLengths {targets : List Target} {i : Nat} {before : List Nat}
    {line : List Char} (hrow : RowValid as (targets.map (·.line)) i before)
    (hline : as[i]? = some line) :
    RowValid as (targets.map (·.line)) (i + 1) (runLengths line targets before) := by
  intro j size hsize
  rw [runLengths, List.getElem?_zipWith_eq_some] at hsize
  obtain ⟨target, length, htarget, hlength, hsize⟩ := hsize
  have hilt : i < as.length := (List.getElem?_eq_some_iff.1 hline).1
  have hjlt : j < targets.length := (List.getElem?_eq_some_iff.1 htarget).1
  have hbefore : EndsRun as (targets.map (·.line)) i j length := by
    cases j with
    | zero =>
        cases hlength
        exact endsRun_zero hilt.le (Nat.zero_le _)
    | succ j => exact hrow j length hlength
  split at hsize
  · next hseed =>
      subst hsize
      have heq : target.line = line := by simpa using (Bool.and_eq_true_iff.1 hseed).2
      exact hbefore.extend hline (by simp [htarget, heq])
  · subst hsize
    exact endsRun_zero hilt (by simpa using hjlt)

theorem matches_bestInRow {row column : Nat} {best : Block} {lengths : List Nat}
    (hbest : best.Matches as bs)
    (hrow : ∀ k size, lengths[k]? = some size → EndsRun as bs (row + 1) (column + k + 1) size) :
    (bestInRow row column best lengths).Matches as bs := by
  induction lengths generalizing column best with
  | nil => exact hbest
  | cons length rest ih =>
      rw [bestInRow]
      refine ih ?_ fun k size hsize => ?_
      · split
        · exact (hrow 0 length rfl).isRun
        · exact hbest
      · have hnext := hrow (k + 1) size hsize
        rwa [← Nat.add_assoc, Nat.add_right_comm column k 1] at hnext

/-- The longest run found from a row on is a block that matches. -/
theorem matches_longestRun {targets : List Target} {row : Nat} {before : List Nat}
    {best : Block} {rest : List (List Char)} (hrest : as.drop row = rest)
    (hrow : RowValid as (targets.map (·.line)) row before)
    (hbest : best.Matches as (targets.map (·.line))) :
    (longestRun targets row before best rest).Matches as (targets.map (·.line)) := by
  induction rest generalizing row before best with
  | nil => exact hbest
  | cons line rest ih =>
      have hline : as[row]? = some line := by
        rw [← List.head?_drop, hrest, List.head?_cons]
      have hnext := rowValid_runLengths hrow hline
      rw [longestRun]
      refine ih ?_ hnext (matches_bestInRow hbest fun k size hsize => ?_)
      · rw [← List.tail_drop, hrest, List.tail_cons]
      · rw [Nat.zero_add]
        exact hnext k size hsize

/-! ## The longest block -/

theorem commonHead_spec (as bs : List (List Char)) :
    commonHead as bs ≤ as.length ∧ commonHead as bs ≤ bs.length ∧
      as.take (commonHead as bs) = bs.take (commonHead as bs) := by
  fun_induction commonHead as bs with
  | case1 a as b bs heq ih =>
      obtain ⟨hleft, hright, hsame⟩ := ih
      rw [Nat.add_comm, List.take_succ_cons, List.take_succ_cons, hsame, beq_iff_eq.1 heq]
      simpa using ⟨hleft, hright⟩
  | case2 => simp
  | case3 => simp

theorem take_reverse_eq {xs : List (List Char)} {left back : Nat} (hleft : left ≤ xs.length)
    (hback : back ≤ left) :
    (xs.take left).reverse.take back = ((xs.drop (left - back)).take back).reverse := by
  rw [List.take_reverse, List.length_take, Nat.min_eq_left hleft, List.drop_take,
    Nat.sub_sub_self hback]

/-- A block that matches still matches after it is extended on both sides. -/
theorem Block.Matches.extend {block : Block} (h : block.Matches as bs) :
    (Diff.extend as bs block).Matches as bs := by
  obtain ⟨left, right, size⟩ := block
  obtain ⟨hleft, hright, hsame⟩ := h
  simp only at hleft hright hsame
  have hback := commonHead_spec (as.take left).reverse (bs.take right).reverse
  have hon := commonHead_spec (as.drop (left + size)) (bs.drop (right + size))
  simp only [Diff.extend]
  generalize commonHead (as.take left).reverse (bs.take right).reverse = back at hback ⊢
  generalize commonHead (as.drop (left + size)) (bs.drop (right + size)) = on at hon ⊢
  obtain ⟨hbackLeft, hbackRight, hbackSame⟩ := hback
  obtain ⟨honLeft, honRight, honSame⟩ := hon
  rw [List.length_reverse, List.length_take] at hbackLeft hbackRight
  rw [List.length_drop] at honLeft honRight
  rw [take_reverse_eq (by omega) (by omega), take_reverse_eq (by omega) (by omega),
    List.reverse_inj] at hbackSame
  refine ⟨by simp only; omega, by simp only; omega, ?_⟩
  -- the lines before the block, in it and behind it
  have hparts : ∀ (xs : List (List Char)) (place : Nat), back ≤ place →
      (xs.drop (place - back)).take (back + size + on) =
        (xs.drop (place - back)).take back ++ ((xs.drop place).take size ++
          (xs.drop (place + size)).take on) := by
    intro xs place hplace
    rw [Nat.add_assoc, List.take_add, List.take_add, List.drop_drop, List.drop_drop,
      Nat.sub_add_cancel hplace]
  simp only
  rw [hparts as left (by omega), hparts bs right (by omega), hbackSame, hsame, honSame]

theorem matches_longestBlock (lines : List (List Char)) (targets : List Target) :
    (longestBlock lines targets).Matches lines (targets.map (·.line)) := by
  refine (matches_longestRun rfl (fun j size hsize => ?_) ?_).extend
  · simp only [List.getElem?_map, Option.map_eq_some_iff] at hsize
    obtain ⟨target, htarget, rfl⟩ := hsize
    have hj : j < targets.length := (List.getElem?_eq_some_iff.1 htarget).1
    exact endsRun_zero (Nat.zero_le _) (by simpa using hj)
  · exact ⟨Nat.zero_le _, Nat.zero_le _, rfl⟩

/-! ## Blocks one behind another -/

theorem Block.Matches.of_take {m n : Nat} {block : Block}
    (h : block.Matches (as.take m) (bs.take n)) : block.Matches as bs := by
  obtain ⟨hleft, hright, hsame⟩ := h
  rw [List.length_take] at hleft hright
  rw [List.drop_take, List.drop_take, List.take_take, List.take_take,
    Nat.min_eq_left (by omega), Nat.min_eq_left (by omega)] at hsame
  exact ⟨by omega, by omega, hsame⟩

theorem Block.Matches.shift {m n : Nat} {block : Block} (hm : m ≤ as.length)
    (hn : n ≤ bs.length) (h : block.Matches (as.drop m) (bs.drop n)) :
    (block.shift m n).Matches as bs := by
  obtain ⟨hleft, hright, hsame⟩ := h
  rw [List.length_drop] at hleft hright
  rw [List.drop_drop, List.drop_drop] at hsame
  refine ⟨by simp only [Block.shift]; omega, by simp only [Block.shift]; omega, ?_⟩
  rwa [Block.shift, Nat.add_comm _ m, Nat.add_comm _ n]

theorem Aligned.mono {i j i' j' : Nat} {rest : List Block} (h : Aligned as bs i j rest)
    (hi : i' ≤ i) (hj : j' ≤ j) : Aligned as bs i' j' rest := by
  cases h with
  | nil hleft hright => exact .nil (hi.trans hleft) (hj.trans hright)
  | cons hleft hright hmatches hsize hrest =>
      exact .cons (hi.trans hleft) (hj.trans hright) hmatches hsize hrest

/-- Blocks in the front parts of two lists, and blocks behind these parts. -/
theorem Aligned.append {m n i j : Nat} {front rest : List Block}
    (hfront : Aligned (as.take m) (bs.take n) i j front) (hrest : Aligned as bs m n rest) :
    Aligned as bs i j (front ++ rest) := by
  induction hfront with
  | nil hleft hright =>
      rw [List.length_take] at hleft hright
      exact hrest.mono (by omega) (by omega)
  | cons hleft hright hmatches hsize _ ih =>
      exact .cons hleft hright hmatches.of_take hsize ih

theorem Aligned.shift {m n i j : Nat} {rest : List Block} (hm : m ≤ as.length)
    (hn : n ≤ bs.length) (h : Aligned (as.drop m) (bs.drop n) i j rest) :
    Aligned as bs (i + m) (j + n) (rest.map (Block.shift m n)) := by
  induction h with
  | nil hleft hright =>
      rw [List.length_drop] at hleft hright
      exact .nil (by omega) (by omega)
  | cons hleft hright hmatches hsize _ ih =>
      rw [Nat.add_right_comm _ _ m, Nat.add_right_comm _ _ n] at ih
      exact .cons (Nat.add_le_add_right hleft m) (Nat.add_le_add_right hright n)
        (hmatches.shift hm hn) hsize ih

/-- The blocks found between two texts match and stand in order in both of them. -/
theorem aligned_blocks (fuel : Nat) (lines : List (List Char)) (targets : List Target) :
    Aligned lines (targets.map (·.line)) 0 0 (blocks fuel lines targets) := by
  fun_induction blocks fuel lines targets with
  | case1 => exact .nil (Nat.zero_le _) (Nat.zero_le _)
  | case2 => exact .nil (Nat.zero_le _) (Nat.zero_le _)
  | case3 => exact .nil (Nat.zero_le _) (Nat.zero_le _)
  | case4 fuel lines targets _ block hsize left right ihFront ihBehind =>
      have hmatches : block.Matches lines (targets.map (·.line)) :=
        matches_longestBlock lines targets
      rw [List.map_take] at ihFront
      rw [List.map_drop] at ihBehind
      rw [List.append_assoc]
      have hpos : 0 < block.size := Nat.pos_of_ne_zero (by simpa using hsize)
      refine ihFront.append (.cons le_rfl le_rfl hmatches hpos ?_)
      have hshift := ihBehind.shift hmatches.left_le hmatches.right_le
      simpa using hshift

theorem Block.Matches.join {block next : Block} (h : block.Matches as bs)
    (hnext : next.Matches as bs) (hleft : block.left + block.size = next.left)
    (hright : block.right + block.size = next.right) :
    (⟨block.left, block.right, block.size + next.size⟩ : Block).Matches as bs := by
  refine ⟨?_, ?_, ?_⟩
  · rw [← Nat.add_assoc, hleft]
    exact hnext.left_le
  · rw [← Nat.add_assoc, hright]
    exact hnext.right_le
  · simp only
    rw [List.take_add, List.take_add, List.drop_drop, List.drop_drop, hleft, hright, h.same,
      hnext.same]

/-- Joining blocks that touch keeps them aligned. -/
theorem aligned_joinTouching {i j : Nat} {found : List Block} (h : Aligned as bs i j found) :
    Aligned as bs i j (joinTouching found) := by
  induction h with
  | nil hleft hright => exact .nil hleft hright
  | @cons i j block rest hleft hright hmatches hsize hrest ih =>
      rw [joinTouching]
      cases hjoined : joinTouching rest with
      | nil =>
          rw [hjoined] at ih
          exact .cons hleft hright hmatches hsize ih
      | cons next more =>
          rw [hjoined] at ih
          cases ih with
          | cons hle hle' hnext hsize' hmore =>
              simp only
              split
              · next htouch =>
                  simp only [Bool.and_eq_true, beq_iff_eq] at htouch
                  refine .cons hleft hright (hmatches.join hnext htouch.1 htouch.2)
                    (Nat.add_pos_left hsize _) ?_
                  rwa [← Nat.add_assoc, ← Nat.add_assoc, htouch.1, htouch.2]
              · exact .cons hleft hright hmatches hsize (.cons hle hle' hnext hsize' hmore)

/-- The matching blocks of two lists follow one another from their beginnings on. -/
theorem aligned_matching (before after : List (List Char)) :
    Aligned before after 0 0 (matching before after) := by
  have h := aligned_blocks (before.length + 1) before (targets after)
  have hlines : (targets after).map (·.line) = after := by
    simp [targets, Function.comp_def]
  rw [hlines] at h
  exact aligned_joinTouching h

end Fakery.Diff
