import Fakery.Proofs.Edit.Removal

/-!
# Where inserted blocks land

A block is put in front of a closing brace on lines of its own, one level deeper than the
line of its declaration, and behind a blank line if anything stands in the body already.
The brace then begins its line, whether it stood on a line of its own before or not.
-/

namespace Fakery

open Text

/-! ## Indented blocks -/

/-- What an indentation makes of one line: an empty line stays empty. -/
def indentLine (indent line : List Char) : List Char :=
  if line.isEmpty then line else indent ++ line

/-- A block consists of the lines of a text, each with an indentation before it unless it is
empty.  They are the lines of the block, too, if the indentation does not break them. -/
structure Indents (indent text block : List Char) : Prop where
  glued : block = joinWith ['\n'] ((splitAt '\n' text).map (indentLine indent))
  lines_eq : '\n' ∉ indent → splitAt '\n' block = (splitAt '\n' text).map (indentLine indent)

theorem indents_indentBlock (indent text : List Char) :
    Indents indent text (indentBlock indent text) := by
  refine ⟨rfl, fun hindent => splitAt_joinWith ?_ ?_⟩
  · refine List.forall_mem_map.2 fun line hline => ?_
    have hnone := Text.not_mem_of_mem_splitAt hline
    split
    · exact hnone
    · rw [List.mem_append, not_or]
      exact ⟨hindent, hnone⟩
  · simp [splitAt_ne_nil]

theorem EndsLine.mem_of_append {front line : List Char} (h : EndsLine (front ++ line))
    (hline : line ≠ []) : '\n' ∈ line := by
  rcases h with hnil | ⟨before, hbefore⟩
  · exact absurd (List.append_eq_nil_iff.1 hnil).2 hline
  · have hlast : line.getLast? = some '\n' :=
      calc
        line.getLast? = (front ++ line).getLast? :=
          (List.getLast?_append_of_ne_nil front hline).symm
        _ = (before ++ ['\n']).getLast? := congrArg List.getLast? hbefore
        _ = some '\n' := by simp
    exact List.mem_of_getLast? hlast

/-- Of two lines behind the same indentation, at the end of the same text, neither is longer. -/
theorem eq_of_append_indent {front other indent line more : List Char} (hfront : EndsLine front)
    (hmore : '\n' ∉ more) (h : front ++ (indent ++ line) = other ++ (indent ++ more))
    (hle : line.length ≤ more.length) : line = more := by
  have hline : line <:+ other ++ (indent ++ more) :=
    h ▸ (List.suffix_append indent line).trans (List.suffix_append ..)
  have hother : more <:+ other ++ (indent ++ more) :=
    (List.suffix_append indent more).trans (List.suffix_append ..)
  obtain ⟨extra, rfl⟩ := List.suffix_of_suffix_length_le hline hother hle
  -- what is too much behind the indentation is too much before it as well
  have hfronts : front ++ indent = other ++ (indent ++ extra) := by
    apply List.append_cancel_right
    simpa using h
  have hprefix : other <+: front ++ indent := hfronts ▸ List.prefix_append ..
  have hshorter : other.length ≤ front.length := by
    have hlength := congrArg List.length hfronts
    simp only [List.length_append] at hlength
    omega
  obtain ⟨shift, rfl⟩ :=
    List.prefix_of_prefix_length_le hprefix (List.prefix_append front indent) hshorter
  have hshift : shift ++ indent = indent ++ extra := by
    rw [List.append_assoc] at hfronts
    exact List.append_cancel_left hfronts
  have hnone : '\n' ∉ shift := by
    have hextra : '\n' ∉ extra := fun hmem => hmore (List.mem_append_left _ hmem)
    have hcount := congrArg (List.count '\n') hshift
    rw [List.count_append, List.count_append, List.count_eq_zero.2 hextra] at hcount
    exact List.count_eq_zero.1 (by omega)
  have hempty : shift = [] := by
    by_contra hne
    exact hnone (hfront.mem_of_append hne)
  rw [hempty, List.nil_append] at hshift
  rw [List.self_eq_append_right.1 hshift, List.nil_append]

/-- The last line of an indented block can be told from the lines before it. -/
theorem indentLine_inj {front other indent line more : List Char} (hfront : EndsLine front)
    (hother : EndsLine other) (hline : '\n' ∉ line) (hmore : '\n' ∉ more)
    (h : front ++ indentLine indent line = other ++ indentLine indent more) :
    front = other ∧ line = more := by
  have hsame : line = more := by
    cases line with
    | nil =>
        cases more with
        | nil => rfl
        | cons c more =>
            have heq : front = (other ++ indent) ++ c :: more := by simpa [indentLine] using h
            rw [heq] at hfront
            exact absurd (hfront.mem_of_append (by simp)) hmore
    | cons d line =>
        cases more with
        | nil =>
            have heq : other = (front ++ indent) ++ d :: line := by
              simpa [indentLine] using h.symm
            rw [heq] at hother
            exact absurd (hother.mem_of_append (by simp)) hline
        | cons c more =>
            rcases Nat.le_total (d :: line).length (c :: more).length with hle | hle
            · exact eq_of_append_indent hfront hmore h hle
            · exact (eq_of_append_indent hother hline h.symm hle).symm
  subst hsame
  exact ⟨List.append_cancel_right h, rfl⟩

/-- Lines one below another, each with its indentation and a line feed. -/
def stack (indent : List Char) (lines : List (List Char)) : List Char :=
  lines.flatMap fun line => indentLine indent line ++ ['\n']

theorem stack_concat (indent : List Char) (lines : List (List Char)) (line : List Char) :
    stack indent (lines ++ [line]) = stack indent lines ++ indentLine indent line ++ ['\n'] := by
  simp [stack]

theorem endsLine_stack (indent : List Char) (lines : List (List Char)) :
    EndsLine (stack indent lines) := by
  rcases List.eq_nil_or_concat lines with rfl | ⟨before, line, rfl⟩
  · exact Or.inl rfl
  · rw [List.concat_eq_append, stack_concat]
    exact Or.inr ⟨_, rfl⟩

/-- Lines can be read off the stack of them, whatever their indentation. -/
theorem stack_inj {indent : List Char} {lines others : List (List Char)}
    (hlines : ∀ line ∈ lines, '\n' ∉ line) (hothers : ∀ line ∈ others, '\n' ∉ line)
    (h : stack indent lines = stack indent others) : lines = others := by
  -- from the last line on, since an indentation may itself hold line feeds
  induction lines using List.reverseRecOn generalizing others with
  | nil =>
      rcases List.eq_nil_or_concat others with rfl | ⟨before, line, rfl⟩
      · rfl
      · rw [List.concat_eq_append, stack_concat] at h
        simp [stack] at h
  | append_singleton lines line ih =>
      rcases List.eq_nil_or_concat others with rfl | ⟨before, other, rfl⟩
      · rw [stack_concat] at h
        simp [stack] at h
      · rw [List.concat_eq_append] at h hothers ⊢
        rw [stack_concat, stack_concat] at h
        simp only [List.forall_mem_append, List.forall_mem_singleton] at hlines hothers
        obtain ⟨hfront, rfl⟩ := indentLine_inj (endsLine_stack ..) (endsLine_stack ..) hlines.2
          hothers.2 (List.append_cancel_right h)
        rw [ih hlines.1 hothers.1 hfront]

theorem joinWith_feed {lines : List (List Char)} (hne : lines ≠ []) :
    joinWith ['\n'] lines ++ ['\n'] = lines.flatMap (· ++ ['\n']) := by
  induction lines with
  | nil => exact absurd rfl hne
  | cons line lines ih =>
      cases lines with
      | nil => simp [joinWith]
      | cons next lines =>
          rw [joinWith_cons (by simp), List.append_assoc, ih (by simp)]
          rfl

theorem Indents.feed_eq {indent text block : List Char} (h : Indents indent text block) :
    block ++ ['\n'] = stack indent (splitAt '\n' text) := by
  rw [h.glued, joinWith_feed (by simp [splitAt_ne_nil]), List.flatMap_map, stack]

/-- A text can be read off its indented block. -/
theorem Indents.unique {indent text other block : List Char} (h : Indents indent text block)
    (hother : Indents indent other block) : other = text := by
  have hlines : splitAt '\n' other = splitAt '\n' text :=
    stack_inj (fun line hline => Text.not_mem_of_mem_splitAt hline)
      (fun line hline => Text.not_mem_of_mem_splitAt hline) (hother.feed_eq.symm.trans h.feed_eq)
  rw [← joinWith_splitAt other, hlines, joinWith_splitAt]

/-! ## The place of an insertion -/

/-- The spaces and tabs that the line of an offset begins with. -/
def LineIndented (source : List Char) (offset : Nat) (outer : List Char) : Prop :=
  ∃ first last, LineOpens source offset first ∧ BlanksTo source first last ∧
    outer = slice source first last

theorem lineIndented_lineIndent {source : List Char} {offset : Nat}
    (hoffset : offset ≤ source.length) : LineIndented source offset (lineIndent source offset) := by
  have hopens := lineStart_opens hoffset
  refine ⟨_, _, hopens, skipBlanks_blanksTo (hopens.le.trans hoffset), ?_⟩
  rw [lineIndent, skipBlanks, slice_add]
  exact List.prefix_iff_eq_take.1 (List.takeWhile_prefix _)

/-- The last line of a text that ends a line is blank. -/
def EndsBlank (text : List Char) : Prop :=
  ∃ before line, text = before ++ '\n' :: (line ++ ['\n']) ∧ '\n' ∉ line ∧ isBlankText line = true

theorem endsBlank_of_endsWithBlankLine (front : List Char) {text : List Char}
    (h : endsWithBlankLine text = true) : EndsBlank (front ++ text) := by
  unfold endsWithBlankLine at h
  split at h
  case h_1 rest hrest =>
    rw [beq_iff_eq] at h
    obtain ⟨before, hbefore⟩ := List.head?_eq_some_iff.1 h
    have hspaces : ∀ c ∈ (rest.takeWhile isSpaceOrTab).reverse, isSpaceOrTab c = true :=
      fun c hc => List.mem_takeWhile_imp (List.mem_reverse.1 hc)
    refine ⟨front ++ before.reverse, (rest.takeWhile isSpaceOrTab).reverse, ?_,
      isSpaceOrTab_ne_line hspaces, isBlankText_of_isSpaceOrTab hspaces⟩
    have htext : text =
        (rest.takeWhile isSpaceOrTab ++ rest.dropWhile isSpaceOrTab).reverse ++ ['\n'] := by
      rw [List.takeWhile_append_dropWhile, ← List.reverse_inj, hrest]
      simp
    rw [htext, hbefore]
    simp
  case h_2 => cases h

namespace Edit

/-- An edit inside of a body that takes only spaces and tabs, with nothing but blanks between it
and the closing brace on the line of the brace. -/
structure Stands (source : List Char) (site : Site) (edit : Edit) : Prop where
  open_lt : site.bodyStart < edit.start
  start_le : edit.start ≤ edit.stop
  stop_le : edit.stop ≤ site.bodyEnd
  spaces : ∀ c ∈ slice source edit.start edit.stop, isSpaceOrTab c = true
  behind : ∀ c ∈ slice source edit.stop site.bodyEnd, isBlank c = true ∧ c ≠ '\n'

/-- The text that an edit leaves: what is above a block, with a blank line at its end if
anything stands in the body; the block on lines of its own; the closing brace behind blanks
on the line below. -/
structure Lays (source : List Char) (site : Site) (rendered unit : List Char) (edit : Edit)
    (outer above block margin : List Char) : Prop where
  indented : LineIndented source site.keywordStart outer
  applied : applyAll source [edit] =
    above ++ (block ++ '\n' :: (margin ++ '\x7d' :: source.drop (site.bodyEnd + 1)))
  kept : ∃ feeds, above = source.take edit.start ++ feeds ∧ ∀ c ∈ feeds, c = '\n'
  begins_line : ∃ before, above = before ++ ['\n']
  blank_above : (∃ i, site.bodyStart < i ∧ i < site.bodyEnd ∧ Solid source i) → EndsBlank above
  indents : Indents (outer ++ unit) rendered block
  recoverable : ∀ other, Indents (outer ++ unit) other block → other = rendered
  margin : ∀ c ∈ margin, isBlank c = true ∧ c ≠ '\n'

end Edit

section Site

variable {source : List Char} {site : Site}

/-- Line feeds at an offset, after which a line begins and, if anything stands in the body, a
blank line is above it. -/
structure BreaksAt (source : List Char) (site : Site) (first : Nat) (lead : List Char) : Prop where
  feeds : ∀ c ∈ lead, c = '\n'
  begins_line : ∃ before, source.take first ++ lead = before ++ ['\n']
  blank_above : (∃ i, site.bodyStart < i ∧ i < site.bodyEnd ∧ Solid source i) →
    EndsBlank (source.take first ++ lead)

theorem endsBlank_feeds (before : List Char) : EndsBlank (before ++ ['\n', '\n']) :=
  ⟨before, [], by simp, by simp, rfl⟩

/-- Something solid in a body with blanks at its end stands before these. -/
theorem isBlankText_body {first : Nat}
    (hsolid : ∃ i, site.bodyStart < i ∧ i < site.bodyEnd ∧ Solid source i)
    (hblank : isBlankText (slice source first site.bodyEnd) = true) :
    isBlankText (slice source (site.bodyStart + 1) first) = false := by
  obtain ⟨i, hopen, hclose, hi⟩ := hsolid
  rw [Bool.eq_false_iff, ne_eq, isBlankText_slice]
  exact fun h => h i hopen (lt_of_solid hblank hi hclose) hi

/-- A body whose closing brace has a line of its own breaks at the start of that line. -/
theorem breaksAt_line {last : Nat} (hopen : site.bodyStart < last)
    (hfeed : source[last]? = some '\n')
    (hblank : isBlankText (slice source (last + 1) site.bodyEnd) = true) :
    BreaksAt source site (last + 1)
      (if isBlankText (slice source (site.bodyStart + 1) (last + 1)) ||
          endsWithBlankLine (slice source (site.bodyStart + 1) (last + 1)) then []
        else ['\n']) := by
  have htake : source.take (last + 1) = source.take last ++ ['\n'] := by
    rw [List.take_add_one, hfeed, Option.toList_some]
  refine ⟨?_, ?_, fun hsolid => ?_⟩
  · split <;> simp
  · split
    · exact ⟨_, by rw [List.append_nil, htake]⟩
    · exact ⟨_, rfl⟩
  · rw [isBlankText_body hsolid hblank, Bool.false_or]
    split
    case isTrue hends =>
      have hbody : site.bodyStart + 1 ≤ last + 1 := Nat.succ_le_succ hopen.le
      rw [List.append_nil, ← take_append_slice source hbody]
      exact endsBlank_of_endsWithBlankLine _ hends
    case isFalse =>
      rw [htake, List.append_assoc]
      exact endsBlank_feeds _

theorem breaksAt_inline {start : Nat}
    (hblank : isBlankText (slice source start site.bodyEnd) = true) :
    BreaksAt source site start
      (if isBlankText (slice source (site.bodyStart + 1) start) then ['\n'] else ['\n', '\n']) := by
  refine ⟨?_, ?_, fun hsolid => ?_⟩
  · split <;> simp
  · split
    · exact ⟨_, rfl⟩
    · exact ⟨source.take start ++ ['\n'], by simp⟩
  · rw [isBlankText_body hsolid hblank]
    exact endsBlank_feeds _

theorem drop_close (hclose : source[site.bodyEnd]? = some '\x7d') :
    source.drop site.bodyEnd = '\x7d' :: source.drop (site.bodyEnd + 1) := by
  rw [List.drop_eq_getElem_cons (List.getElem?_eq_some_iff.1 hclose).1,
    (List.getElem?_eq_some_iff.1 hclose).2]

/-- An edit that puts line feeds, a block, a line feed and spaces before the closing brace. -/
theorem lays_of_breaksAt {rendered unit lead tail replacement : List Char} {start stop : Nat}
    (hclose : source[site.bodyEnd]? = some '\x7d') (hkeyword : site.keywordStart ≤ source.length)
    (hstands : (⟨start, stop, replacement⟩ : Edit).Stands source site)
    (hbreaks : BreaksAt source site start lead) (htail : ∀ c ∈ tail, isSpaceOrTab c = true)
    (hreplacement : replacement = lead ++
      indentBlock (lineIndent source site.keywordStart ++ unit) rendered ++ ['\n'] ++ tail) :
    (⟨start, stop, replacement⟩ : Edit).Lays source site rendered unit
      (lineIndent source site.keywordStart) (source.take start ++ lead)
      (indentBlock (lineIndent source site.keywordStart ++ unit) rendered)
      (tail ++ slice source stop site.bodyEnd) where
  indented := lineIndented_lineIndent hkeyword
  applied := by
    rw [Edit.applyAll_singleton, Edit.apply, hreplacement,
      ← slice_append_drop source hstands.stop_le, drop_close hclose]
    simp
  kept := ⟨lead, rfl, hbreaks.feeds⟩
  begins_line := hbreaks.begins_line
  blank_above := hbreaks.blank_above
  indents := indents_indentBlock ..
  recoverable other := (indents_indentBlock ..).unique
  margin c hc := by
    rcases List.mem_append.1 hc with htab | hbehind
    · refine ⟨isBlank_of_isSpaceOrTab (htail c htab), ?_⟩
      rintro rfl
      exact isSpaceOrTab_ne_line htail htab
    · exact hstands.behind c hbehind

theorem stands_line {last : Nat} (hlast : site.bodyStart < last)
    (hopens : LineOpens source site.bodyEnd (last + 1))
    (hblank : isBlankText (slice source (last + 1) site.bodyEnd) = true) (replacement : List Char) :
    (⟨last + 1, last + 1, replacement⟩ : Edit).Stands source site := by
  refine ⟨Nat.lt_succ_of_lt hlast, Nat.le_refl _, hopens.le, by simp [slice], fun c hc => ?_⟩
  rw [isBlankText, List.all_eq_true] at hblank
  exact ⟨hblank c hc, fun hfeed => hopens.no_feed (hfeed ▸ hc)⟩

theorem stands_inline {start : Nat} (hopen : site.bodyStart < start) (hle : start ≤ site.bodyEnd)
    (hspaces : ∀ c ∈ slice source start site.bodyEnd, isSpaceOrTab c = true)
    (replacement : List Char) :
    (⟨start, site.bodyEnd, replacement⟩ : Edit).Stands source site :=
  ⟨hopen, hle, Nat.le_refl _, hspaces, by simp [slice]⟩

/-- A closing brace that only blanks precede on its line is on a line below the opening one. -/
theorem exists_feed_of_alone (hbody : site.bodyStart < site.bodyEnd)
    (hopen : source[site.bodyStart]? = some '\x7b') (hlength : site.bodyEnd ≤ source.length)
    (hblank : isBlankText (slice source (lineStart source site.bodyEnd) site.bodyEnd) = true) :
    ∃ last, lineStart source site.bodyEnd = last + 1 ∧ site.bodyStart < last ∧
      source[last]? = some '\n' := by
  have hopens := (lineStart_opens hlength).opens
  have hlt := lt_of_solid hblank ⟨_, hopen, rfl⟩ hbody
  obtain ⟨last, hlast⟩ := Nat.exists_eq_succ_of_ne_zero (Nat.ne_zero_of_lt hlt)
  rw [hlast] at hopens hlt
  have hfeed : source[last]? = some '\n' := hopens.resolve_left (Nat.succ_ne_zero last)
  have hne : site.bodyStart ≠ last := by
    rintro rfl
    cases hopen.symm.trans hfeed
  exact ⟨last, hlast, by omega, hfeed⟩

/-- The spaces and tabs before the closing brace are behind the opening one. -/
theorem bodyStart_lt_blanks (hbody : site.bodyStart < site.bodyEnd)
    (hlength : site.bodyEnd ≤ source.length) :
    site.bodyStart < site.bodyEnd -
      ((slice source (site.bodyStart + 1) site.bodyEnd).reverse.takeWhile isSpaceOrTab).length := by
  have hle := (List.takeWhile_prefix isSpaceOrTab
    (l := (slice source (site.bodyStart + 1) site.bodyEnd).reverse)).length_le
  have hslice : (slice source (site.bodyStart + 1) site.bodyEnd).length =
      site.bodyEnd - (site.bodyStart + 1) := by
    rw [slice, List.length_drop, List.length_take, Nat.min_eq_left hlength]
  rw [List.length_reverse, hslice] at hle
  omega

end Site

/-- An insertion stands between the braces of its site. -/
theorem insertion_stands {source : List Char} {site : Site} (hbody : site.bodyStart < site.bodyEnd)
    (hopen : source[site.bodyStart]? = some '\x7b') (hlength : site.bodyEnd ≤ source.length)
    (rendered unit : List Char) : (insertion source site rendered unit).Stands source site := by
  unfold insertion
  dsimp only
  split
  case isTrue hblank =>
    obtain ⟨last, hfirst, hlast, -⟩ := exists_feed_of_alone hbody hopen hlength hblank
    have hopens := lineStart_opens hlength
    rw [hfirst] at hblank hopens ⊢
    exact stands_line hlast hopens hblank _
  case isFalse =>
    exact stands_inline (bodyStart_lt_blanks hbody hlength) (Nat.sub_le ..)
      (isSpaceOrTab_blanks_before hlength) _

/-- An insertion lays its block on lines of its own, whatever the layout of the body. -/
theorem insertion_lays {source : List Char} {site : Site}
    (hkeyword : site.keywordStart ≤ site.bodyStart) (hbody : site.bodyStart < site.bodyEnd)
    (hopen : source[site.bodyStart]? = some '\x7b')
    (hclose : source[site.bodyEnd]? = some '\x7d') (rendered unit : List Char) :
    ∃ outer above block margin,
      (insertion source site rendered unit).Lays source site rendered unit outer above block
        margin := by
  have hlength := (List.getElem?_eq_some_iff.1 hclose).1.le
  have hkeyword := hkeyword.trans (hbody.le.trans hlength)
  have hstands := insertion_stands hbody hopen hlength rendered unit
  unfold insertion at hstands ⊢
  dsimp only at hstands ⊢
  split
  case isTrue hblank =>
    rw [if_pos hblank] at hstands
    obtain ⟨last, hfirst, hlast, hfeed⟩ := exists_feed_of_alone hbody hopen hlength hblank
    rw [hfirst] at hblank hstands ⊢
    exact ⟨_, _, _, _, lays_of_breaksAt hclose hkeyword hstands
      (breaksAt_line hlast hfeed hblank) (by simp) (List.append_nil _).symm⟩
  case isFalse hblank =>
    rw [if_neg hblank] at hstands
    have hspaces := @isSpaceOrTab_blanks_before source (site.bodyStart + 1) _ hlength
    exact ⟨_, _, _, _, lays_of_breaksAt hclose hkeyword hstands
      (breaksAt_inline (isBlankText_of_isSpaceOrTab hspaces))
      (fun c hc => List.mem_takeWhile_imp hc) rfl⟩

/-- A block lands on lines of its own in front of the closing brace, whatever the layout of
the body: one level deeper than the line of the keyword, with a blank line above it if
anything stands in the body, and with the brace first on the line below it. -/
theorem insertion_lands {source : List Char} {site : Site}
    (hkeyword : site.keywordStart ≤ site.bodyStart) (hbody : site.bodyStart < site.bodyEnd)
    (hopen : source[site.bodyStart]? = some '\x7b')
    (hclose : source[site.bodyEnd]? = some '\x7d') (rendered unit : List Char) :
    (insertion source site rendered unit).Stands source site ∧ ∃ outer above block margin,
      (insertion source site rendered unit).Lays source site rendered unit outer above block
        margin := by
  have hlength := (List.getElem?_eq_some_iff.1 hclose).1.le
  exact ⟨insertion_stands hbody hopen hlength rendered unit,
    insertion_lays hkeyword hbody hopen hclose rendered unit⟩

/-- A body on the line of its opening brace, below the indented line of the keyword. -/
def inlineSource : List Char :=
  "\tstruct A\n\x7b let a = 1 \t\x7d\n".toList

/-- The keyword of the declaration and the braces of its body. -/
def inlineSite : Site :=
  ⟨1, 10, 23⟩

theorem insertion_lands_inlineSource :
    inlineSource[10]? = some '\x7b' ∧ inlineSource[23]? = some '\x7d' ∧
      (insertion inlineSource inlineSite "f\n\ng".toList "  ".toList).Stands inlineSource
        inlineSite ∧
      (∃ outer above block margin,
        (insertion inlineSource inlineSite "f\n\ng".toList "  ".toList).Lays inlineSource inlineSite
          "f\n\ng".toList "  ".toList outer above block margin) ∧
      Edit.applyAll inlineSource
          [insertion inlineSource inlineSite "f\n\ng".toList "  ".toList] =
        "\tstruct A\n\x7b let a = 1\n\n\t  f\n\n\t  g\n\t\x7d\n".toList := by
  have hopen : inlineSource[10]? = some '\x7b' := by decide
  have hclose : inlineSource[23]? = some '\x7d' := by decide
  obtain ⟨hstands, hlays⟩ := @insertion_lands inlineSource inlineSite (by decide) (by decide) hopen
    hclose "f\n\ng".toList "  ".toList
  refine ⟨hopen, hclose, hstands, hlays, ?_⟩
  rw [Edit.applyAll_singleton]
  decide

end Fakery
