import Fakery.Edit.Splice
import Fakery.Proofs.Edit.Substitution
import Mathlib.Data.List.TakeWhile

/-!
# Extents of removals and insertions

A removal reaches beyond what it deletes over blanks only, and an insertion stands
in front of a closing brace with nothing but blanks between them.
-/

namespace Fakery

open Text

/-- A text that is empty or ends with a line feed: a line may begin behind it. -/
def EndsLine (front : List Char) : Prop :=
  front = [] ∨ ∃ before, front = before ++ ['\n']

theorem lineStart_append {front line : List Char} (rest : List Char) (hfront : EndsLine front)
    (hline : '\n' ∉ line) :
    lineStart (front ++ line ++ rest) (front.length + line.length) = front.length := by
  have htake : (front ++ line ++ rest).take (front.length + line.length) = front ++ line := by
    rw [← List.length_append, List.take_left]
  have hwhile : (front ++ line).reverse.takeWhile (· != '\n') = line.reverse := by
    rw [List.reverse_append]
    refine takeWhile_eq_left (fun c hc => ?_) (fun c hc => ?_)
    · simp only [bne_iff_ne, ne_eq]
      rintro rfl
      exact hline (List.mem_reverse.1 hc)
    · rcases hfront with rfl | ⟨before, rfl⟩
      · simp at hc
      · have hfeed : '\n' = c := by simpa using hc
        simp [← hfeed]
  rw [lineStart, htake, hwhile, List.length_append, List.length_reverse, Nat.add_sub_cancel]

theorem exists_line_before (before : List Char) :
    ∃ front line, before = front ++ line ∧ EndsLine front ∧ '\n' ∉ line := by
  induction before using List.reverseRecOn with
  | nil => exact ⟨[], [], rfl, Or.inl rfl, by simp⟩
  | append_singleton before c ih =>
      by_cases hfeed : c = '\n'
      · exact ⟨before ++ [c], [], by simp, Or.inr ⟨before, by rw [hfeed]⟩, by simp⟩
      · obtain ⟨front, line, rfl, hfront, hline⟩ := ih
        refine ⟨front, line ++ [c], by simp, hfront, ?_⟩
        simp only [List.mem_append, List.mem_singleton, not_or]
        exact ⟨hline, Ne.symm hfeed⟩

/-- The line of an offset begins at the front of the text or behind a line feed. -/
structure LineOpens (source : List Char) (offset first : Nat) : Prop where
  le : first ≤ offset
  opens : first = 0 ∨ source[first - 1]? = some '\n'
  no_feed : '\n' ∉ slice source first offset

/-- The line start of an offset is where its line opens. -/
theorem lineStart_opens {source : List Char} {offset : Nat} (hoffset : offset ≤ source.length) :
    LineOpens source offset (lineStart source offset) := by
  obtain ⟨front, line, hbefore, hfront, hline⟩ := exists_line_before (source.take offset)
  have hlength : front.length + line.length = offset := by
    rw [← List.length_append, ← hbefore, List.length_take, Nat.min_eq_left hoffset]
  have hsource : source = front ++ line ++ source.drop offset := by
    rw [← hbefore, List.take_append_drop]
  have hstart : lineStart source offset = front.length := by
    rw [hsource, ← hlength, lineStart_append _ hfront hline]
  rw [hstart]
  refine ⟨by omega, ?_, ?_⟩
  · rcases hfront with rfl | ⟨before, rfl⟩
    · exact Or.inl rfl
    · right
      rw [hsource]
      simp
  · rwa [slice, hbefore, List.drop_left]

theorem lineEnd_append {line rest : List Char} (front : List Char) (hline : '\n' ∉ line)
    (hrest : ∀ c, rest.head? = some c → c = '\n') :
    lineEnd (front ++ line ++ rest) front.length = front.length + line.length := by
  have hwhile : (line ++ rest).takeWhile (· != '\n') = line := by
    refine takeWhile_eq_left (fun c hc => ?_) (fun c hc => by simp [hrest c hc])
    simp only [bne_iff_ne, ne_eq]
    rintro rfl
    exact hline hc
  rw [lineEnd, List.append_assoc, List.drop_left, hwhile]
  simp

theorem exists_line_after (after : List Char) :
    ∃ line rest, after = line ++ rest ∧ '\n' ∉ line ∧ ∀ c, rest.head? = some c → c = '\n' := by
  induction after with
  | nil => exact ⟨[], [], rfl, by simp, by simp⟩
  | cons c after ih =>
      by_cases hfeed : c = '\n'
      · exact ⟨[], c :: after, rfl, by simp, by simp [hfeed]⟩
      · obtain ⟨line, rest, rfl, hline, hrest⟩ := ih
        refine ⟨c :: line, rest, rfl, ?_, hrest⟩
        simp only [List.mem_cons, not_or]
        exact ⟨Ne.symm hfeed, hline⟩

/-- The line of an offset ends at the end of the text or at a line feed. -/
structure LineCloses (source : List Char) (offset last : Nat) : Prop where
  le : offset ≤ last
  closes : last = source.length ∨ source[last]? = some '\n'
  no_feed : '\n' ∉ slice source offset last

theorem LineCloses.le_length {source : List Char} {offset last : Nat}
    (h : LineCloses source offset last) : last ≤ source.length := by
  rcases h.closes with hlast | hfeed
  · exact hlast.le
  · exact (List.getElem?_eq_some_iff.1 hfeed).1.le

/-- The line end of an offset is where its line closes. -/
theorem lineEnd_closes {source : List Char} {offset : Nat} (hoffset : offset ≤ source.length) :
    LineCloses source offset (lineEnd source offset) := by
  obtain ⟨line, rest, hafter, hline, hrest⟩ := exists_line_after (source.drop offset)
  have hlength : (source.take offset).length = offset := by
    rw [List.length_take, Nat.min_eq_left hoffset]
  have hsource : source = source.take offset ++ line ++ rest := by
    rw [List.append_assoc, ← hafter, List.take_append_drop]
  have hend : lineEnd source offset = offset + line.length := by
    have happend := lineEnd_append (source.take offset) hline hrest
    rwa [← hsource, hlength] at happend
  rw [hend]
  refine ⟨Nat.le_add_right .., ?_, ?_⟩
  · have hhead : source[offset + line.length]? = rest.head? := by
      rw [← List.getElem?_drop, hafter, List.getElem?_append_right (Nat.le_refl _), Nat.sub_self,
        List.head?_eq_getElem?]
    cases rest with
    | nil =>
        left
        rw [hsource, List.append_nil, List.length_append, hlength]
    | cons c rest =>
        right
        rw [hhead, hrest c rfl, List.head?_cons]
  · rwa [slice_add, hafter, List.take_left]

/-- No line feed stands between an offset and the end of its line. -/
theorem lineEnd_le {source : List Char} {offset i : Nat} (hi : source[i]? = some '\n')
    (hoffset : offset ≤ i) : lineEnd source offset ≤ i := by
  have hdrop : (source.drop offset)[i - offset]? = some '\n' := by
    rw [List.getElem?_drop, Nat.add_sub_of_le hoffset, hi]
  have hle := length_takeWhile_le (p := (· != '\n')) hdrop rfl
  rw [lineEnd]
  omega

theorem skipBlanks_le {source : List Char} {offset i : Nat} {c : Char} (hi : source[i]? = some c)
    (hc : isSpaceOrTab c = false) (hoffset : offset ≤ i) : skipBlanks source offset ≤ i := by
  have hdrop : (source.drop offset)[i - offset]? = some c := by
    rw [List.getElem?_drop, Nat.add_sub_of_le hoffset, hi]
  have hle := length_takeWhile_le hdrop hc
  rw [skipBlanks]
  omega

theorem isBlank_of_isSpaceOrTab {c : Char} (h : isSpaceOrTab c = true) : isBlank c = true := by
  simp only [isSpaceOrTab, Bool.or_eq_true, beq_iff_eq] at h
  rcases h with rfl | rfl <;> rfl

theorem isSpaceOrTab_of_solid {c : Char} (hc : isBlank c = false) : isSpaceOrTab c = false := by
  rw [Bool.eq_false_iff]
  intro hspace
  rw [isBlank_of_isSpaceOrTab hspace] at hc
  cases hc

theorem isSpaceOrTab_ne_line {cs : List Char} (h : ∀ c ∈ cs, isSpaceOrTab c = true) : '\n' ∉ cs :=
  fun hmem => absurd (h _ hmem) (by decide)

theorem isBlankText_of_isSpaceOrTab {cs : List Char} (h : ∀ c ∈ cs, isSpaceOrTab c = true) :
    isBlankText cs = true := by
  rw [isBlankText, List.all_eq_true]
  exact fun c hc => isBlank_of_isSpaceOrTab (h c hc)

/-- Spaces and tabs from an offset on, and as many as there are. -/
structure BlanksTo (source : List Char) (offset last : Nat) : Prop where
  le : offset ≤ last
  le_length : last ≤ source.length
  spaces : ∀ c ∈ slice source offset last, isSpaceOrTab c = true
  maximal : ∀ c, source[last]? = some c → isSpaceOrTab c = false

theorem skipBlanks_blanksTo {source : List Char} {offset : Nat} (hoffset : offset ≤ source.length) :
    BlanksTo source offset (skipBlanks source offset) := by
  have hfront := List.takeWhile_prefix isSpaceOrTab (l := source.drop offset)
  have hlength := hfront.length_le
  rw [List.length_drop] at hlength
  refine ⟨Nat.le_add_right .., by rw [skipBlanks]; omega, ?_, fun c hc => ?_⟩
  · rw [skipBlanks, slice_add, ← List.prefix_iff_eq_take.1 hfront]
    exact fun c hc => List.mem_takeWhile_imp hc
  · have hhead : ((source.drop offset).dropWhile isSpaceOrTab).head? = some c :=
      calc
        ((source.drop offset).dropWhile isSpaceOrTab).head? =
            ((source.drop offset).takeWhile isSpaceOrTab ++ (source.drop offset).dropWhile
              isSpaceOrTab)[((source.drop offset).takeWhile isSpaceOrTab).length]? := by
          rw [List.getElem?_append_right (Nat.le_refl _), Nat.sub_self, List.head?_eq_getElem?]
        _ = source[skipBlanks source offset]? := by
          rw [List.takeWhile_append_dropWhile, List.getElem?_drop, skipBlanks]
        _ = some c := hc
    have hnot := List.head?_dropWhile_not isSpaceOrTab (source.drop offset)
    rwa [hhead] at hnot

/-- A removal reaches over what it deletes, and beyond it over blanks only. -/
structure Edit.Removes (source : List Char) (start stop : Nat) (edit : Edit) : Prop where
  start_le : edit.start ≤ start
  le_stop : stop ≤ edit.stop
  stop_le : edit.stop ≤ source.length
  blank_before : isBlankText (slice source edit.start start) = true
  blank_after : isBlankText (slice source stop edit.stop) = true
  replacement_eq : edit.replacement = []

/-- A removal takes away its range and otherwise only blanks around it. -/
theorem removal_removes {source : List Char} {start stop : Nat} (hstart : start ≤ stop)
    (hstop : stop ≤ source.length) : (removal source start stop).Removes source start stop := by
  have hfirst := (lineStart_opens (hstart.trans hstop)).le
  have hlast := lineEnd_closes hstop
  have hskip := skipBlanks_blanksTo hstop
  unfold removal
  dsimp only
  split
  case isTrue hline =>
    rw [Bool.and_eq_true] at hline
    have hle := Nat.le_succ_of_le hlast.le
    refine ⟨hfirst, Nat.le_min.2 ⟨hle, hstop⟩, Nat.min_le_right .., hline.1, ?_, rfl⟩
    rw [isBlankText_slice]
    dsimp only
    rintro i hi hlt ⟨c, hc, hsolid⟩
    rcases Nat.lt_or_ge i (lineEnd source stop) with hbefore | hbehind
    · exact isBlankText_slice.1 hline.2 i hi hbefore ⟨c, hc, hsolid⟩
    · have hi : i = lineEnd source stop := by omega
      subst hi
      rcases hlast.closes with hlength | hfeed
      · omega
      · cases hfeed.symm.trans hc
        exact absurd hsolid (by decide)
  case isFalse =>
    refine ⟨Nat.le_refl _, hskip.le, hskip.le_length, ?_, isBlankText_of_isSpaceOrTab hskip.spaces,
      rfl⟩
    simp [slice, isBlankText]

/-- A removal stops at the line feed that ends its line, or behind it. -/
theorem removal_stop_le {source : List Char} {start stop i : Nat} (hi : source[i]? = some '\n')
    (hstop : stop ≤ i) : (removal source start stop).stop ≤ i + 1 := by
  have hlast := lineEnd_le hi hstop
  have hskip := skipBlanks_le hi rfl hstop
  unfold removal
  dsimp only
  split
  · exact (Nat.min_le_left ..).trans (Nat.succ_le_succ hlast)
  · exact Nat.le_succ_of_le hskip

/-- Two removals one behind the other do not overlap, even on one line. -/
theorem removal_stop_le_start {source : List Char} {a b c d : Nat} (hab : a < b) (hbc : b ≤ c)
    (hcd : c ≤ d) (hd : d ≤ source.length) (hlast : Solid source (b - 1)) (hfirst : Solid source c) :
    (removal source a b).stop ≤ (removal source c d).start := by
  have hleft := removal_removes hab.le (hbc.trans (hcd.trans hd))
  have hright := removal_removes hcd hd
  obtain ⟨hle, hends, -⟩ := lineStart_opens (hcd.trans hd)
  by_cases hline : (removal source c d).start = c
  · rw [hline]
    exact le_of_solid hleft.blank_after hfirst hbc
  · -- the second removal takes a whole line, so a line feed stands in front of it
    have hstart : (removal source c d).start = lineStart source c := by
      unfold removal at hline ⊢
      dsimp only at hline ⊢
      split
      · rfl
      · simp_all
    have hbefore := lt_of_solid hright.blank_before hlast (by omega)
    rw [hstart] at hbefore ⊢
    rcases hends with hzero | hfeed
    · omega
    · have hne : b - 1 ≠ lineStart source c - 1 := by
        intro heq
        obtain ⟨x, hx, hsolid⟩ := hlast
        rw [heq, hfeed] at hx
        cases hx
        exact absurd hsolid (by decide)
      have hstop : (removal source a b).stop ≤ lineStart source c - 1 + 1 :=
        removal_stop_le hfeed (by omega)
      omega

theorem solids_eq_nil_of_isSpaceOrTab {cs : List Char} (h : ∀ c ∈ cs, isSpaceOrTab c = true) :
    solids cs = [] :=
  solids_eq_nil.2 (isBlankText_of_isSpaceOrTab h)

theorem joinWith_cons {separator piece : List Char} {pieces : List (List Char)}
    (h : pieces ≠ []) :
    joinWith separator (piece :: pieces) = piece ++ separator ++ joinWith separator pieces := by
  cases pieces with
  | nil => exact absurd rfl h
  | cons next rest => rfl

theorem joinWith_eq_intercalate (separator : List Char) (pieces : List (List Char)) :
    joinWith separator pieces = separator.intercalate pieces := by
  induction pieces with
  | nil => rfl
  | cons piece pieces ih =>
      cases pieces with
      | nil => simp [joinWith]
      | cons next pieces =>
          rw [joinWith_cons (by simp), ih, List.intercalate_cons_cons]

theorem toList_joined (separator : String) (pieces : List String) :
    (joined separator pieces).toList = joinWith separator.toList (pieces.map String.toList) :=
  String.toList_ofList

theorem splitAt_ne_nil (mark : Char) (cs : List Char) : splitAt mark cs ≠ [] := by
  cases cs with
  | nil => simp [splitAt]
  | cons c rest =>
      rw [splitAt]
      split
      · simp
      · split <;> simp

/-- Cutting at line feeds and gluing again gives the text back. -/
theorem joinWith_splitAt (cs : List Char) : joinWith ['\n'] (splitAt '\n' cs) = cs := by
  induction cs with
  | nil => rfl
  | cons c rest ih =>
      rw [splitAt]
      split
      case isTrue hfeed =>
        rw [joinWith_cons (splitAt_ne_nil _ _), ih, beq_iff_eq.1 hfeed]
        rfl
      case isFalse =>
        cases hpieces : splitAt '\n' rest with
        | nil => exact absurd hpieces (splitAt_ne_nil _ _)
        | cons piece pieces =>
            rw [hpieces] at ih
            cases pieces with
            | nil => simpa [joinWith] using ih
            | cons next others =>
                rw [joinWith_cons (by simp)] at ih ⊢
                simp [← ih]

theorem splitAt_append_cons (mark : Char) (left right : List Char) :
    splitAt mark (left ++ mark :: right) = splitAt mark left ++ splitAt mark right := by
  induction left with
  | nil => simp [splitAt]
  | cons c left ih =>
      obtain ⟨piece, pieces, hsplit⟩ := List.exists_cons_of_ne_nil (splitAt_ne_nil mark left)
      rw [List.cons_append, splitAt, splitAt, ih, hsplit]
      split <;> simp

theorem splitAt_of_not_mem {mark : Char} {line : List Char} (h : mark ∉ line) :
    splitAt mark line = [line] := by
  induction line with
  | nil => rfl
  | cons c line ih =>
      rw [List.mem_cons, not_or] at h
      rw [splitAt, ih h.2, if_neg (by simpa using Ne.symm h.1)]

theorem Text.not_mem_of_mem_splitAt {mark : Char} {cs piece : List Char}
    (h : piece ∈ splitAt mark cs) : mark ∉ piece := by
  induction cs generalizing piece with
  | nil => simp_all [splitAt]
  | cons c cs ih =>
      rw [splitAt] at h
      split at h
      · rcases List.mem_cons.1 h with rfl | hrest
        · simp
        · exact ih hrest
      · next hc =>
          have hne : mark ≠ c := by
            rintro rfl
            exact hc (beq_self_eq_true _)
          split at h
          · rw [List.mem_singleton.1 h]
            simpa using hne
          · next first pieces hpieces =>
              rw [hpieces] at ih
              rcases List.mem_cons.1 h with rfl | hrest
              · rw [List.mem_cons, not_or]
                exact ⟨hne, ih List.mem_cons_self⟩
              · exact ih (List.mem_cons_of_mem _ hrest)

theorem joinWith_append (separator : List Char) {left right : List (List Char)} (hleft : left ≠ [])
    (hright : right ≠ []) :
    joinWith separator (left ++ right) =
      joinWith separator left ++ separator ++ joinWith separator right := by
  induction left with
  | nil => exact absurd rfl hleft
  | cons piece left ih =>
      cases left with
      | nil => exact joinWith_cons hright
      | cons next left =>
          rw [List.cons_append, @joinWith_cons _ piece (next :: left ++ right) (by simp), ih (by simp),
            @joinWith_cons _ piece (next :: left) (by simp)]
          simp

/-- Gluing lines and cutting at line feeds gives the lines back. -/
theorem splitAt_joinWith {lines : List (List Char)} (hlines : ∀ line ∈ lines, '\n' ∉ line)
    (hne : lines ≠ []) : splitAt '\n' (joinWith ['\n'] lines) = lines := by
  induction lines with
  | nil => exact absurd rfl hne
  | cons line lines ih =>
      obtain ⟨hline, hrest⟩ := List.forall_mem_cons.1 hlines
      cases lines with
      | nil => exact splitAt_of_not_mem hline
      | cons next lines =>
          rw [joinWith_cons (by simp), List.append_assoc, List.singleton_append,
            splitAt_append_cons, splitAt_of_not_mem hline, ih hrest (by simp)]
          rfl

/-- The parts of a text before and behind the end of a line are indented apart. -/
theorem indentBlock_append (indent left right : List Char) :
    indentBlock indent (left ++ '\n' :: right) =
      indentBlock indent left ++ '\n' :: indentBlock indent right := by
  rw [indentBlock, splitAt_append_cons, List.map_append,
    joinWith_append _ (by simp [splitAt_ne_nil]) (by simp [splitAt_ne_nil])]
  simp [indentBlock]

theorem indentBlock_line (indent : List Char) {line : List Char} (hline : '\n' ∉ line)
    (hne : line ≠ []) : indentBlock indent line = indent ++ line := by
  simp [indentBlock, splitAt_of_not_mem hline, hne, joinWith]

/-- Every line of a text without empty lines is indented. -/
theorem indentBlock_lines (indent : List Char) {lines : List (List Char)}
    (hlines : ∀ line ∈ lines, '\n' ∉ line ∧ line ≠ []) (hne : lines ≠ []) :
    indentBlock indent (joinWith ['\n'] lines) = indent ++ joinWith ('\n' :: indent) lines := by
  induction lines with
  | nil => exact absurd rfl hne
  | cons line rest ih =>
      obtain ⟨hline, hfirst⟩ := hlines line (List.mem_cons_self ..)
      cases rest with
      | nil => exact indentBlock_line indent hline hfirst
      | cons next rest =>
          have hrest := ih (fun other hother => hlines other (List.mem_cons_of_mem _ hother)) (by simp)
          rw [@joinWith_cons _ line (next :: rest) (by simp), @joinWith_cons _ line (next :: rest) (by simp),
            List.append_assoc,
            List.singleton_append, indentBlock_append, indentBlock_line indent hline hfirst, hrest]
          simp

/-- Indenting a block keeps the characters of a kind that the indentation has none of. -/
theorem filter_indentBlock {p : Char → Bool} {indent : List Char}
    (hindent : indent.filter p = []) (text : List Char) :
    (indentBlock indent text).filter p = text.filter p := by
  have hjoin : ∀ pieces : List (List Char),
      (joinWith ['\n']
          (pieces.map fun line => if line.isEmpty then line else indent ++ line)).filter p =
        (joinWith ['\n'] pieces).filter p := by
    intro pieces
    induction pieces with
    | nil => rfl
    | cons piece pieces ih =>
        have hpiece : (if piece.isEmpty then piece else indent ++ piece).filter p =
            piece.filter p := by
          split
          · rfl
          · rw [List.filter_append, hindent, List.nil_append]
        cases pieces with
        | nil => exact hpiece
        | cons next others =>
            rw [List.map_cons, joinWith_cons (by simp), joinWith_cons (by simp)]
            simp only [List.filter_append, hpiece, ih]
  rw [indentBlock, hjoin, joinWith_splitAt]

/-- The spaces and tabs at the end of a stretch, cut off from it. -/
theorem isSpaceOrTab_blanks_before {source : List Char} {start close : Nat}
    (hclose : close ≤ source.length) :
    ∀ c ∈ slice source
      (close - ((slice source start close).reverse.takeWhile isSpaceOrTab).length) close,
      isSpaceOrTab c = true := by
  have hfront := List.takeWhile_prefix isSpaceOrTab (l := (slice source start close).reverse)
  have hsuffix : ((slice source start close).reverse.takeWhile isSpaceOrTab).reverse <:+
      source.take close := by
    have hbody := List.reverse_suffix.2 hfront
    rw [List.reverse_reverse] at hbody
    exact hbody.trans (List.drop_suffix ..)
  have hslice := List.suffix_iff_eq_drop.1 hsuffix
  rw [List.length_reverse, List.length_take, Nat.min_eq_left hclose] at hslice
  rw [slice, ← hslice]
  exact fun c hc => List.mem_takeWhile_imp (List.mem_reverse.1 hc)

/-- An insertion stands in front of a closing brace with blanks between them, and puts
what is rendered there. -/
structure Edit.Inserts (source : List Char) (close : Nat) (rendered : List Char) (edit : Edit) :
    Prop where
  start_le : edit.start ≤ edit.stop
  stop_le : edit.stop ≤ close
  blank : isBlankText (slice source edit.start close) = true
  solids_eq : solids edit.replacement = solids rendered

/-- An insertion puts the characters of a kind that blanks are not of as they are rendered. -/
theorem filter_replacement_insertion {p : Char → Bool} (hfeed : p '\n' = false)
    (hspaces : ∀ c, isSpaceOrTab c = true → p c = false) {unit : List Char}
    (hunit : unit.filter p = []) (source : List Char) (site : Site) (rendered : List Char) :
    (insertion source site rendered unit).replacement.filter p = rendered.filter p := by
  have houter : (lineIndent source site.keywordStart).filter p = [] := by
    rw [List.filter_eq_nil_iff]
    exact fun c hc => Bool.eq_false_iff.1 (hspaces c (List.mem_takeWhile_imp hc))
  have hindent : (lineIndent source site.keywordStart ++ unit).filter p = [] := by
    rw [List.filter_append, houter, hunit, List.append_nil]
  have hblock := filter_indentBlock hindent rendered
  unfold insertion
  dsimp only
  split
  · split <;> simp [hblock, hfeed]
  · split <;> simp [hblock, hfeed, houter]

/-- An insertion adds the rendered text before the closing brace and otherwise only blanks. -/
theorem insertion_inserts {source : List Char} {site : Site} {rendered unit : List Char}
    (hclose : site.bodyEnd ≤ source.length) (hunit : solids unit = []) :
    (insertion source site rendered unit).Inserts source site.bodyEnd rendered := by
  have hfirst := (lineStart_opens hclose).le
  have hsolids : solids (insertion source site rendered unit).replacement = solids rendered :=
    filter_replacement_insertion rfl (fun c hc => by simp [isBlank_of_isSpaceOrTab hc]) hunit ..
  unfold insertion at hsolids ⊢
  dsimp only at hsolids ⊢
  split
  case isTrue hline =>
    rw [if_pos hline] at hsolids
    exact ⟨Nat.le_refl _, hfirst, hline, hsolids⟩
  case isFalse hline =>
    rw [if_neg hline] at hsolids
    refine ⟨Nat.sub_le .., Nat.le_refl _, ?_, hsolids⟩
    exact isBlankText_of_isSpaceOrTab (isSpaceOrTab_blanks_before hclose)

end Fakery
