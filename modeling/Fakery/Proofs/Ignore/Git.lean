import Fakery.Proofs.Ignore.Wildcards
import Fakery.Proofs.Run.Recording

/-!
# Ignore files as git reads them

A line of an ignore file is a pattern.  Without a slash before its end it is about the last
name of a path, with one it is about the whole path, and no wildcard stands for a slash.  The
scanner matches more: a name anywhere in the path, and wildcards across slashes.  What it
matches beyond git mostly lies below a directory that git matches, so that both keep the same
files as long as no negated pattern takes such a directory back.
-/

namespace Fakery

/-! ## Patterns -/

structure Pattern where
  glob : List Char
  /-- Written with a slash before its end: the pattern is about whole paths. -/
  rooted : Bool
  directoryOnly : Bool
  negated : Bool
  deriving DecidableEq

namespace Pattern

/-- The pattern that is written behind the negation mark. -/
def ofText (negated : Bool) (text : List Char) : Pattern :=
  let directoryOnly := text.getLast? == some '/'
  let body := if directoryOnly then text.dropLast else text
  { glob := if body.head? == some '/' then body.drop 1 else body
    rooted := body.contains '/'
    directoryOnly, negated }

def ofLine? : List Char → Option Pattern
  | [] => none
  | '#' :: _ => none
  | '!' :: text => if text.isEmpty then none else some (ofText true text)
  | text => some (ofText false text)

def ofLines (lines : List (List Char)) : List Pattern :=
  lines.filterMap ofLine?

/-- Whether git matches a path. -/
def Matches (pattern : Pattern) (names : List String) (isDirectory : Bool) : Prop :=
  (pattern.directoryOnly = true → isDirectory = true) ∧
    if pattern.rooted then Covers (· != '/') pattern.glob (Text.joined "/" names).toList
    else Covers (· != '/') pattern.glob (names.getLast?.getD "").toList

/-- Whether the scanner matches a path. -/
def Reaches (pattern : Pattern) (names : List String) (isDirectory : Bool) : Prop :=
  (pattern.directoryOnly = true → isDirectory = true) ∧
    if pattern.rooted then
      Covers (fun _ => true) pattern.glob (Text.joined "/" names).toList ∨
        pattern.directoryOnly = true ∧ pattern.glob ++ ['/'] <+: (Text.joined "/" names).toList
    else ∃ name ∈ names, Covers (fun _ => true) pattern.glob name.toList

instance (pattern : Pattern) (names : List String) (isDirectory : Bool) :
    Decidable (pattern.Matches names isDirectory) :=
  inferInstanceAs (Decidable (_ ∧ _))

end Pattern

/-- A line that git and the scanner read alike: no blanks at its ends or behind the negation
mark, and besides wildcards no character with a meaning of its own. -/
structure IsOrdinary (line : List Char) : Prop where
  first : ∀ c ∈ line.head?, Text.isBlank c = false
  last : ∀ c ∈ line.getLast?, Text.isBlank c = false
  second : ∀ c ∈ (line.drop 1).head?, line.head? = some '!' → Text.isBlank c = false
  plain : ∀ c ∈ line, c ≠ '[' ∧ c ≠ ']' ∧ c ≠ '\\'
  single : ¬ ['*', '*'] <:+: line

def IgnoreRule.toPattern (rule : IgnoreRule) : Pattern :=
  ⟨rule.pattern.toList, rule.anchored || rule.hasSlash, rule.directoryOnly, rule.negated⟩

/-! ## Reading lines -/

/-- A trimmed line is read as the pattern that Git reads in it. -/
theorem IgnoreRule.toPattern_ofPattern? (negated : Bool) {text : List Char}
    (htrim : Text.trim text = text) :
    (ofPattern? negated text).map toPattern =
      if text.isEmpty then none else some (.ofText negated text) := by
  rw [ofPattern?, htrim]
  split
  · rfl
  · rw [Option.map_some, Pattern.ofText]
    simp only [toPattern, String.toList_ofList, Option.some.injEq, Pattern.mk.injEq, and_true,
      true_and]
    generalize (if text.getLast? == some '/' then text.dropLast else text) = body
    cases hhead : body.head? == some '/' with
    | true =>
        have hmem : '/' ∈ body := List.mem_of_mem_head? (beq_iff_eq.1 hhead)
        simpa using hmem
    | false => simp

/-- Both ways of reading a line give the same pattern. -/
theorem IgnoreRule.toPattern_ofLine? {line : List Char} (h : IsOrdinary line) :
    (ofLine? line).map toPattern = Pattern.ofLine? line := by
  have htrim := Text.trim_eq h.first h.last
  cases line with
  | nil => rfl
  | cons c text =>
      by_cases hcomment : c = '#'
      · subst hcomment
        rw [ofLine?, htrim]
        rfl
      by_cases hnegated : c = '!'
      · subst hnegated
        have hrest : Text.trim text = text := by
          apply Text.trim_eq fun d hd => h.second d hd rfl
          intro d hd
          apply h.last d
          cases text with
          | nil => cases hd
          | cons first text => rwa [List.getLast?_cons_cons]
        rw [ofLine?, htrim]
        exact toPattern_ofPattern? true hrest
      have hrule : ofLine? (c :: text) = ofPattern? false (c :: text) := by
        unfold ofLine?
        rw [htrim]
        split <;> simp_all
      have hpattern : Pattern.ofLine? (c :: text) = some (.ofText false (c :: text)) := by
        unfold Pattern.ofLine?
        split <;> simp_all
      rw [hrule, hpattern, toPattern_ofPattern? false htrim]
      rfl

/-- Ordinary lines are read as the patterns that Git reads in them. -/
theorem IgnoreRule.map_toPattern_ofLines {lines : List (List Char)}
    (h : ∀ line ∈ lines, IsOrdinary line) :
    (ofLines lines).map toPattern = Pattern.ofLines lines := by
  induction lines with
  | nil => rfl
  | cons line lines ih =>
      rw [List.forall_mem_cons] at h
      have hline := toPattern_ofLine? h.1
      rw [ofLines, Pattern.ofLines, List.filterMap_cons, List.filterMap_cons, ← hline]
      have hlines := ih h.2
      rw [ofLines, Pattern.ofLines] at hlines
      cases ofLine? line with
      | none => exact hlines
      | some rule =>
          simp only [Option.map_some, List.map_cons]
          rw [hlines]

/-- A pattern has the characters of its line. -/
theorem Pattern.mem_line {line : List Char} {pattern : Pattern} (h : ofLine? line = some pattern)
    {c : Char} (hc : c ∈ pattern.glob) : c ∈ line := by
  have htext : ∀ {negated text}, c ∈ (ofText negated text).glob → c ∈ text := by
    intro negated text hmem
    simp only [ofText] at hmem
    split at hmem
    · split at hmem
      · exact List.mem_of_mem_dropLast (List.mem_of_mem_drop hmem)
      · exact List.mem_of_mem_dropLast hmem
    · split at hmem
      · exact List.mem_of_mem_drop hmem
      · exact hmem
  unfold ofLine? at h
  split at h
  · cases h
  · cases h
  · split at h
    · cases h
    · cases h
      exact List.mem_cons_of_mem _ (htext hc)
  · cases h
    exact htext hc

theorem Pattern.not_mem_glob {lines : List (List Char)} (h : ∀ line ∈ lines, IsOrdinary line)
    {pattern : Pattern} (hpattern : pattern ∈ ofLines lines) : '[' ∉ pattern.glob := by
  obtain ⟨line, hline, hread⟩ := List.mem_filterMap.1 hpattern
  exact fun hmem => ((h line hline).plain _ (mem_line hread hmem)).1 rfl

/-! ## Paths as texts -/

section Joined

variable {names : List String} (hnames : ∀ name ∈ names, IsFileName name)

include hnames

theorem toList_joined_ne_nil (hne : names ≠ []) : (Text.joined "/" names).toList ≠ [] := by
  obtain ⟨name, rest, rfl⟩ := List.exists_cons_of_ne_nil hne
  have hname := (List.forall_mem_cons.1 hnames).1.ne_empty
  cases rest with
  | nil => simpa [joined_singleton] using hname
  | cons next rest => simp [joined_cons]

theorem splitAt_joined (hne : names ≠ []) :
    Text.splitAt '/' (Text.joined "/" names).toList = names.map String.toList := by
  induction names with
  | nil => exact absurd rfl hne
  | cons name names ih =>
      rw [List.forall_mem_cons] at hnames
      cases names with
      | nil =>
          rw [joined_singleton, splitAt_of_not_mem hnames.1.not_mem]
          rfl
      | cons next names =>
          rw [joined_cons (by simp), String.toList_append, String.toList_append, List.append_assoc,
            show "/".toList = ['/'] from rfl, List.singleton_append, splitAt_append_cons,
            splitAt_of_not_mem hnames.1.not_mem, ih hnames.2 (by simp)]
          rfl

/-- What stands before a slash of a path is the path of something above. -/
theorem exists_above {left right : List Char}
    (h : (Text.joined "/" names).toList = left ++ '/' :: right) :
    ∃ above, above <+: names ∧ above ≠ names ∧ above ≠ [] ∧
      (Text.joined "/" above).toList = left := by
  induction names generalizing left with
  | nil => simp [Text.joined, Text.joinWith] at h
  | cons name names ih =>
      rw [List.forall_mem_cons] at hnames
      cases names with
      | nil =>
          rw [joined_singleton] at h
          exact absurd (h ▸ List.mem_append_right _ List.mem_cons_self) hnames.1.not_mem
      | cons next names =>
          rw [joined_cons (by simp), String.toList_append, String.toList_append, List.append_assoc,
            show "/".toList = ['/'] from rfl, List.singleton_append,
            List.append_eq_append_iff] at h
          rcases h with ⟨taken, rfl, hrest⟩ | ⟨taken, hname, hrest⟩
          · cases taken with
            | nil => exact ⟨[name], by simp, by simp, by simp, by simp [joined_singleton]⟩
            | cons c taken =>
                rw [List.cons_append, List.cons.injEq] at hrest
                obtain ⟨rfl, hrest⟩ := hrest
                obtain ⟨above, hfront, hshort, hsome, habove⟩ := ih hnames.2 hrest
                refine ⟨name :: above, List.cons_prefix_cons.2 ⟨rfl, hfront⟩, by simpa using hshort,
                  by simp, ?_⟩
                rw [joined_cons hsome, String.toList_append, String.toList_append, habove]
                simp
          · cases taken with
            | nil =>
                rw [List.append_nil] at hname
                exact ⟨[name], by simp, by simp, by simp, by rw [joined_singleton, hname]⟩
            | cons c taken =>
                rw [List.cons_append, List.cons.injEq] at hrest
                obtain ⟨rfl, -⟩ := hrest
                exact absurd (hname ▸ List.mem_append_right _ List.mem_cons_self) hnames.1.not_mem

end Joined

/-! ## Matching -/

/-- A rule without character classes matches a path exactly if its pattern reaches it. -/
theorem IgnoreRule.matchesPath_iff {rule : IgnoreRule} (hplain : '[' ∉ rule.pattern.toList)
    {names : List String} (hnames : ∀ name ∈ names, IsFileName name) (hne : names ≠ [])
    (isDirectory : Bool) :
    rule.matchesPath (Text.joined "/" names) isDirectory = true ↔
      rule.toPattern.Reaches names isDirectory := by
  have htext := toList_joined_ne_nil hnames hne
  have hmatches : ∀ text, Glob.matchesPieces (Glob.ofPattern rule.pattern.toList) text = true ↔
      Covers (fun _ => true) rule.pattern.toList text := by
    intro text
    rw [Glob.ofPattern_eq hplain, Glob.matchesPieces_iff]
  unfold matchesPath Pattern.Reaches toPattern
  by_cases hempty : rule.pattern = ""
  · -- An empty pattern covers only the empty text, which is neither a path nor a name.
    have hslash : ¬ ['/'] <+: (Text.joined "/" names).toList := by
      rintro ⟨right, hright⟩
      obtain ⟨above, hfront, -, hsome, habove⟩ := exists_above hnames
        (show _ = [] ++ '/' :: right from hright.symm)
      exact toList_joined_ne_nil (fun name hname => hnames name (hfront.subset hname)) hsome habove
    have hname : ∀ name ∈ names, name ≠ "" := fun name hname => (hnames name hname).ne_empty
    rw [if_pos (by simp [hempty]), hempty]
    refine iff_of_false (by simp) ?_
    rintro ⟨-, hcovers⟩
    split at hcovers
    · rcases hcovers with hnil | ⟨-, hprefix⟩
      · exact htext hnil
      · exact hslash hprefix
    · obtain ⟨name, hmem, hnil⟩ := hcovers
      exact hname name hmem (String.toList_eq_nil_iff.1 hnil)
  rw [if_neg (by simpa using hempty)]
  cases hdirectory : rule.directoryOnly && !isDirectory with
  | true =>
      rw [Bool.and_eq_true, Bool.not_eq_true'] at hdirectory
      simp [hdirectory.1, hdirectory.2]
  | false =>
      have himp : rule.directoryOnly = true → isDirectory = true := by
        intro honly
        simpa [honly] using hdirectory
      rw [if_neg Bool.false_ne_true, and_iff_right himp]
      cases rule.anchored || rule.hasSlash with
      | true =>
          simp only [if_true, Bool.or_eq_true, Bool.and_eq_true, List.isPrefixOf_iff_prefix]
          rw [Glob.matchesText, hmatches]
      | false =>
          simp only [Bool.false_eq_true, if_false]
          rw [splitAt_joined hnames hne, List.any_map, List.any_eq_true]
          simp only [Function.comp, hmatches]

namespace Pattern

/-- A pattern without wildcards, but for an asterisk at its end. -/
def IsFixed (pattern : Pattern) : Prop :=
  '?' ∉ pattern.glob ∧ '*' ∉ pattern.glob.dropLast

/-- Wherever the scanner matches a path of a tree, git matches it or a directory above. -/
def StaysWithin (pattern : Pattern) (entry : Entry) : Prop :=
  ∀ names found, entry.get? names = some found → pattern.Reaches names found.isDirectory →
    ∃ above, above <+: names ∧ above ≠ [] ∧
      pattern.Matches above (decide (above ≠ names) || found.isDirectory)

section Reach

variable {pattern : Pattern} {names : List String} {isDirectory : Bool}
  (hnames : ∀ name ∈ names, IsFileName name) (hne : names ≠ [])

include hnames hne

omit hnames in
/-- What git matches the scanner matches. -/
theorem Matches.reaches (h : pattern.Matches names isDirectory) : pattern.Reaches names isDirectory := by
  obtain ⟨hdirectory, hcovers⟩ := h
  refine ⟨hdirectory, ?_⟩
  split at hcovers
  · next hrooted =>
      rw [if_pos hrooted]
      exact .inl (hcovers.mono fun _ _ => rfl)
  · next hrooted =>
      rw [if_neg hrooted]
      refine ⟨names.getLast hne, List.getLast_mem hne, ?_⟩
      rw [List.getLast?_eq_some_getLast hne, Option.getD_some] at hcovers
      exact hcovers.mono fun _ _ => rfl

omit hne in
/-- A name that the scanner matches anywhere in a path is the last one of something above. -/
theorem exists_matches_of_unrooted (hrooted : pattern.rooted = false)
    (h : pattern.Reaches names isDirectory) :
    ∃ above, above <+: names ∧ above ≠ [] ∧
      pattern.Matches above (decide (above ≠ names) || isDirectory) := by
  obtain ⟨hdirectory, hcovers⟩ := h
  rw [if_neg (by simp [hrooted])] at hcovers
  obtain ⟨name, hname, hcovers⟩ := hcovers
  obtain ⟨front, back, rfl⟩ := List.append_of_mem hname
  refine ⟨front ++ [name], by simp, by simp, ?_, ?_⟩
  · intro honly
    simp [hdirectory honly]
  · rw [if_neg (by simp [hrooted]), List.getLast?_concat, Option.getD_some]
    refine (Covers.congr fun c hc => ?_).1 hcovers
    exact (bne_iff_ne.2 (ne_of_mem_of_not_mem hc (hnames name hname).not_mem)).symm

omit hne in
/-- A rooted pattern that reaches a path matches the path or a directory above it. -/
theorem exists_matches_of_fixed (hrooted : pattern.rooted = true) (hfixed : pattern.IsFixed)
    (hne : names ≠ []) (h : pattern.Reaches names isDirectory) :
    ∃ above, above <+: names ∧ above ≠ [] ∧
      pattern.Matches above (decide (above ≠ names) || isDirectory) := by
  obtain ⟨hdirectory, hcovers⟩ := h
  obtain ⟨hone, hstar⟩ := hfixed
  have habove : ∀ {above : List String}, above ≠ names →
      (pattern.directoryOnly = true → (decide (above ≠ names) || isDirectory) = true) := by
    intro above hshort _
    simp [hshort]
  rw [if_pos hrooted] at hcovers
  rcases hcovers with hcovers | ⟨-, right, hright⟩
  · by_cases hmem : '*' ∈ pattern.glob
    · obtain ⟨front, hglob⟩ : ∃ front, pattern.glob = front ++ ['*'] := by
        have hsplit := List.dropLast_append_getLast (List.ne_nil_of_mem hmem)
        rw [← hsplit, List.mem_append, List.mem_singleton] at hmem
        exact ⟨_, hsplit.symm.trans (by rw [← hmem.resolve_left hstar])⟩
      rw [hglob, List.dropLast_concat] at hstar
      replace hone : '?' ∉ front := fun hc => hone (by simp [hglob, hc])
      rw [hglob, Covers.literal_star_iff hstar hone] at hcovers
      obtain ⟨taken, htext, -⟩ := hcovers
      by_cases hslash : '/' ∈ taken
      · -- The asterisk crosses a slash: before it, git matches.
        obtain ⟨left, right, rfl, hleft⟩ := List.eq_append_cons_of_mem hslash
        rw [← List.append_assoc] at htext
        obtain ⟨above, hfront, hshort, hsome, hpath⟩ := exists_above hnames htext
        refine ⟨above, hfront, hsome, habove hshort, ?_⟩
        rw [if_pos hrooted, hpath, hglob, Covers.literal_star_iff hstar hone]
        exact ⟨left, rfl, fun c hc => bne_iff_ne.2 (ne_of_mem_of_not_mem hc hleft)⟩
      · refine ⟨names, List.prefix_rfl, hne, by simpa using hdirectory, ?_⟩
        rw [if_pos hrooted, htext, hglob, Covers.literal_star_iff hstar hone]
        exact ⟨taken, rfl, fun c hc => bne_iff_ne.2 (ne_of_mem_of_not_mem hc hslash)⟩
    · rw [Covers.literal_iff hmem hone] at hcovers
      refine ⟨names, List.prefix_rfl, hne, by simpa using hdirectory, ?_⟩
      rw [if_pos hrooted, Covers.literal_iff hmem hone, hcovers]
  · rw [List.append_assoc, List.singleton_append] at hright
    obtain ⟨above, hfront, hshort, hsome, hpath⟩ := exists_above hnames hright.symm
    refine ⟨above, hfront, hsome, habove hshort, ?_⟩
    rw [if_pos hrooted, hpath]
    exact Covers.self rfl rfl _

end Reach

end Pattern

/-! ## The pattern that decides -/

section Last

variable {α : Type} {matched other : α → Prop} {negated : α → Bool} {items : List α}

instance [DecidablePred matched] : Decidable (LastIgnores matched negated items) :=
  decidable_of_iff (∃ item ∈ items.reverse.find? fun item => decide (matched item),
      negated item = false) (by
    simp only [LastIgnores, IsFirst, Option.mem_def, List.find?_eq_some_iff_append]
    apply exists_congr
    intro item
    simp only [decide_eq_true_eq, Bool.not_eq_eq_eq_not, Bool.not_true, decide_eq_false_iff_not]
    grind)

theorem not_lastIgnores_of_forall (h : ∀ item ∈ items, negated item = false → ¬ matched item) :
    ¬ LastIgnores matched negated items := by
  rintro ⟨item, hfirst, hnegated⟩
  exact h item (List.mem_reverse.1 hfirst.mem) hnegated hfirst.holds

/-- What an item ignores is kept only if a later one takes it back. -/
theorem exists_later (h : ¬ LastIgnores matched negated items) {item : α} (hitem : item ∈ items)
    (hmatched : matched item) (hnegated : negated item = false) :
    ∃ front later back, items = front ++ later :: back ∧ item ∈ front ∧ matched later ∧
      negated later = true := by
  induction items using List.reverseRecOn with
  | nil => cases hitem
  | append_singleton items last ih =>
      rw [lastIgnores_concat, not_or] at h
      by_cases hlast : matched last
      · have hback : negated last = true := by
          by_contra hfalse
          exact h.1 ⟨hlast, by simpa using hfalse⟩
        rcases List.mem_append.1 hitem with hfront | heq
        · exact ⟨items, last, [], rfl, hfront, hlast, hback⟩
        · rw [List.mem_singleton.1 heq, hback] at hnegated
          cases hnegated
      · have hmem : item ∈ items := by
          rcases List.mem_append.1 hitem with hmem | heq
          · exact hmem
          · exact absurd (List.mem_singleton.1 heq ▸ hmatched) hlast
        obtain ⟨front, later, back, rfl, hfront⟩ := ih (fun hlater => h.2 ⟨hlast, hlater⟩) hmem
        exact ⟨front, later, back ++ [last], by simp, hfront⟩

/-- Matching more changes no verdict if what is matched beyond is negated and comes behind
nothing that ignores. -/
theorem lastIgnores_congr (hless : ∀ item ∈ items, other item → matched item)
    (hkept : ∀ item ∈ items, negated item = false → matched item → other item)
    (hstray : ∀ front item back, items = front ++ item :: back → negated item = true →
      matched item → ¬ other item → ∀ earlier ∈ front, negated earlier = false → ¬ other earlier) :
    LastIgnores matched negated items ↔ LastIgnores other negated items := by
  induction items using List.reverseRecOn with
  | nil => simp [LastIgnores, not_isFirst_nil]
  | append_singleton items last ih =>
      rw [List.forall_mem_append, List.forall_mem_singleton] at hless hkept
      have hrest := ih hless.1 hkept.1 fun front item back hitems =>
        hstray front item (back ++ [last]) (by simp [hitems])
      rw [lastIgnores_concat, lastIgnores_concat, hrest]
      cases hnegated : negated last with
      | false =>
          have hiff : matched last ↔ other last := ⟨hkept.2 hnegated, hless.2⟩
          rw [hiff]
      | true =>
          by_cases hother : other last
          · simp [hother, hless.2 hother]
          by_cases hmatched : matched last
          · have hnone := not_lastIgnores_of_forall (hstray items last [] rfl hnegated hmatched hother)
            simp [hmatched, hnone]
          · simp [hmatched, hother]

end Last

/-! ## Files that are kept -/

/-- Neither a file nor a directory above it is ignored. -/
def Keeps (matched : Pattern → List String → Bool → Prop) (patterns : List Pattern)
    (names : List String) : Prop :=
  ∀ above, above <+: names → above ≠ [] →
    ¬ LastIgnores (fun pattern => matched pattern above (decide (above ≠ names))) Pattern.negated
      patterns

instance {matched : Pattern → List String → Bool → Prop}
    [∀ pattern names isDirectory, Decidable (matched pattern names isDirectory)]
    (patterns : List Pattern) (names : List String) : Decidable (Keeps matched patterns names) :=
  decidable_of_iff (∀ above ∈ names.inits, above ≠ [] →
      ¬ LastIgnores (fun pattern => matched pattern above (decide (above ≠ names))) Pattern.negated
        patterns) (by simp only [List.mem_inits]; rfl)

/-- A source file below no directory that is never searched. -/
structure IsSource (root : Entry) (names : List String) (content : List UInt8) : Prop where
  file : root.fileAt? names = some content
  suffix : ∃ name, names.getLast? = some name ∧ sourceSuffix.toList <:+ name.toList
  searched : ∀ name ∈ names.dropLast, name ∉ excludedDirectories

theorem lastIgnores_map {α β : Type} {f : α → β} {matched : β → Prop} {negated : β → Bool}
    {items : List α} :
    LastIgnores matched negated (items.map f) ↔
      LastIgnores (fun item => matched (f item)) (fun item => negated (f item)) items := by
  induction items using List.reverseRecOn with
  | nil => simp [LastIgnores, not_isFirst_nil]
  | append_singleton items last ih =>
      rw [List.map_append, List.map_singleton, lastIgnores_concat, lastIgnores_concat, ih]

theorem lastIgnores_congr_left {α : Type} {matched other : α → Prop} {negated : α → Bool}
    {items : List α} (h : ∀ item ∈ items, matched item ↔ other item) :
    LastIgnores matched negated items ↔ LastIgnores other negated items := by
  apply exists_congr
  intro item
  rw [isFirst_congr fun item hitem => h item (List.mem_reverse.1 hitem)]

section Lines

variable {lines : List (List Char)} (hlines : ∀ line ∈ lines, IsOrdinary line)

include hlines

theorem ignored_iff {names : List String} (hnames : ∀ name ∈ names, IsFileName name)
    (hne : names ≠ []) (isDirectory : Bool) :
    Ignored (IgnoreRule.ofLines lines) (Text.joined "/" names) isDirectory ↔
      LastIgnores (fun pattern => pattern.Reaches names isDirectory) Pattern.negated
        (Pattern.ofLines lines) := by
  rw [← IgnoreRule.map_toPattern_ofLines hlines, lastIgnores_map]
  apply lastIgnores_congr_left
  intro rule hrule
  apply IgnoreRule.matchesPath_iff _ hnames hne
  have hpattern : rule.toPattern ∈ Pattern.ofLines lines := by
    rw [← IgnoreRule.map_toPattern_ofLines hlines]
    exact List.mem_map_of_mem hrule
  exact Pattern.not_mem_glob hlines hpattern

/-- The files that a scan lists are the sources that the scanner's matching keeps. -/
theorem eligible_iff {entry : Entry} (hsound : entry.Sound) {names : List String}
    {content : List UInt8} :
    Eligible (IgnoreRule.ofLines lines) entry names content ↔
      IsSource entry names content ∧ Keeps Pattern.Reaches (Pattern.ofLines lines) names := by
  constructor
  · intro h
    have hnames := hsound.names_of_fileAt? h.file
    refine ⟨⟨h.file, h.suffix, h.searched⟩, ?_⟩
    intro above hfront hne
    rw [← ignored_iff hlines (fun name hname => hnames name (hfront.subset hname)) hne]
    by_cases hlast : above = names
    · simpa [hlast] using h.kept
    · simpa [hlast] using h.reached above hfront hlast hne
  · rintro ⟨h, hkeeps⟩
    have hnames := hsound.names_of_fileAt? h.file
    have hne : names ≠ [] := by
      rintro rfl
      obtain ⟨name, hname, -⟩ := h.suffix
      cases hname
    refine ⟨h.file, h.suffix, h.searched, ?_, ?_⟩
    · intro above hfront hlast hsome
      rw [ignored_iff hlines (fun name hname => hnames name (hfront.subset hname)) hsome]
      simpa [hlast] using hkeeps above hfront hsome
    · rw [ignored_iff hlines hnames hne]
      simpa using hkeeps names List.prefix_rfl hne

end Lines

/-- A pattern matches no directory of a tree that a negated one matches, and nothing below
that the scanner matches with the negated one. -/
def Pattern.Spares (pattern negated : Pattern) (entry : Entry) : Prop :=
  ∀ directory below found, directory ≠ [] → entry.get? (directory ++ below) = some found →
    (below ≠ [] ∨ found.isDirectory = true) → negated.Matches directory true →
    (negated.directoryOnly = true → found.isDirectory = true) →
      ¬ pattern.Matches (directory ++ below) found.isDirectory

/-- Patterns that keep the same files of a tree for git and for the scanner. -/
structure Unmixed (patterns : List Pattern) (entry : Entry) : Prop where
  /-- Wildcards cross slashes only below a directory that git matches. -/
  within : ∀ pattern ∈ patterns, pattern.rooted = true → pattern.IsFixed ∨ pattern.StaysWithin entry
  /-- No negated pattern takes back a directory, or what is in it, from a pattern before. -/
  spares : patterns.Pairwise fun pattern later => pattern.negated = false → later.negated = true →
    pattern.Spares later entry

namespace Unmixed

variable {patterns : List Pattern} {entry : Entry} (h : Unmixed patterns entry)
  (hsound : entry.Sound)

include h hsound

omit hsound in
theorem spares_of_before {front back : List Pattern} {pattern later : Pattern}
    (hpatterns : patterns = front ++ later :: back) (hfront : pattern ∈ front)
    (hplain : pattern.negated = false) (hlater : later.negated = true) :
    pattern.Spares later entry := by
  have hspares := h.spares
  rw [hpatterns, List.pairwise_append] at hspares
  exact hspares.2.2 pattern hfront later List.mem_cons_self hplain hlater

theorem exists_matches {pattern : Pattern} (hpattern : pattern ∈ patterns) {names : List String}
    {found : Entry} (hfound : entry.get? names = some found) (hne : names ≠ [])
    (hreaches : pattern.Reaches names found.isDirectory) :
    ∃ above, above <+: names ∧ above ≠ [] ∧
      pattern.Matches above (decide (above ≠ names) || found.isDirectory) := by
  have hnames := (hsound.names_of_get? hfound).2
  cases hrooted : pattern.rooted with
  | false => exact Pattern.exists_matches_of_unrooted hnames hrooted hreaches
  | true =>
      rcases h.within pattern hpattern hrooted with hfixed | hwithin
      · exact Pattern.exists_matches_of_fixed hnames hrooted hfixed hne hreaches
      · exact hwithin names found hfound hreaches

/-- Below directories that git keeps, the scanner ignores what git ignores. -/
theorem lastIgnores_iff {names : List String} {found : Entry}
    (hfound : entry.get? names = some found) (hne : names ≠ [])
    (hkept : ∀ above, above <+: names → above ≠ names → above ≠ [] →
      ¬ LastIgnores (fun pattern => pattern.Matches above true) Pattern.negated patterns) :
    LastIgnores (fun pattern => pattern.Reaches names found.isDirectory) Pattern.negated patterns ↔
      LastIgnores (fun pattern => pattern.Matches names found.isDirectory) Pattern.negated
        patterns := by
  -- What the scanner matches beyond git lies below a directory that git matches.
  have hstray : ∀ pattern ∈ patterns, pattern.Reaches names found.isDirectory →
      ¬ pattern.Matches names found.isDirectory →
      ∃ directory below, names = directory ++ below ∧ directory ≠ [] ∧ below ≠ [] ∧
        pattern.Matches directory true := by
    intro pattern hpattern hreaches hmatches
    obtain ⟨directory, ⟨below, hbelow⟩, hsome, hdirectory⟩ :=
      h.exists_matches hsound hpattern hfound hne hreaches
    have hlast : directory ≠ names := by
      rintro rfl
      simp at hdirectory
      exact hmatches hdirectory
    refine ⟨directory, below, hbelow.symm, hsome, ?_, by simpa [hlast] using hdirectory⟩
    rintro rfl
    exact hlast (by simpa using hbelow)
  apply lastIgnores_congr
  · exact fun pattern _ hmatches => hmatches.reaches hne
  · intro pattern hpattern hnegated hreaches
    by_contra hmatches
    obtain ⟨directory, below, rfl, hsome, hbelow, hdirectory⟩ :=
      hstray pattern hpattern hreaches hmatches
    -- The directory is kept, so that a later negated pattern matches it too.
    obtain ⟨front, later, back, hpatterns, hfront, hlater, hback⟩ := exists_later
      (hkept directory (List.prefix_append _ _) (by simpa using hbelow) hsome) hpattern hdirectory
      hnegated
    obtain ⟨children, hchildren⟩ := Entry.kind?_eq_directory_iff.1
      (Entry.kind?_above hfound (List.prefix_append directory below) (by simpa using hbelow))
    exact h.spares_of_before hpatterns hfront hnegated hback directory [] (.directory children) hsome
      (by rwa [List.append_nil]) (.inr rfl) hlater (fun _ => rfl) (by rwa [List.append_nil])
  · intro front pattern back hpatterns hnegated hreaches hmatches earlier hearlier hplain
    obtain ⟨directory, below, rfl, hsome, hbelow, hdirectory⟩ :=
      hstray pattern (by simp [hpatterns]) hreaches hmatches
    exact h.spares_of_before hpatterns hearlier hplain hnegated directory below found hsome hfound
      (.inl hbelow) hdirectory hreaches.1

/-- Git and the scanner keep the same files. -/
theorem keeps_iff {names : List String} {content : List UInt8}
    (hfile : entry.fileAt? names = some content) :
    Keeps Pattern.Reaches patterns names ↔ Keeps Pattern.Matches patterns names := by
  obtain ⟨found, hfound, hcontent⟩ := Option.bind_eq_some_iff.1 hfile
  have hdirectory : found.isDirectory = false := by
    cases found with
    | file content => rfl
    | directory children => cases hcontent
  have hplace : ∀ above, above <+: names →
      ∃ other, entry.get? above = some other ∧ other.isDirectory = decide (above ≠ names) := by
    intro above hfront
    by_cases hlast : above = names
    · exact ⟨found, hlast ▸ hfound, by simp [hlast, hdirectory]⟩
    · obtain ⟨children, hchildren⟩ :=
        Entry.kind?_eq_directory_iff.1 (Entry.kind?_above hfound hfront hlast)
      exact ⟨_, hchildren, by simp [hlast, Entry.isDirectory]⟩
  have hverdict : ∀ above, above <+: names → above ≠ [] →
      (∀ higher, higher <+: above → higher ≠ above → higher ≠ [] →
        ¬ LastIgnores (fun pattern => pattern.Matches higher (decide (higher ≠ names)))
          Pattern.negated patterns) →
      (LastIgnores (fun pattern => pattern.Reaches above (decide (above ≠ names)))
          Pattern.negated patterns ↔
        LastIgnores (fun pattern => pattern.Matches above (decide (above ≠ names)))
          Pattern.negated patterns) := by
    intro above hfront hsome hkept
    obtain ⟨other, hother, hkind⟩ := hplace above hfront
    rw [← hkind]
    apply h.lastIgnores_iff hsound hother hsome
    intro higher hhigher hne hnonempty
    have hlast : higher ≠ names := by
      rintro rfl
      exact hne (hhigher.eq_of_length_le hfront.length_le)
    simpa [hlast] using hkept higher hhigher hne hnonempty
  constructor
  · intro hkeeps above
    induction hlength : above.length using Nat.strong_induction_on generalizing above with
    | _ length ih =>
        intro hfront hsome
        rw [← hverdict above hfront hsome]
        · exact hkeeps above hfront hsome
        intro higher hhigher hne hnonempty
        have hshort : higher.length < length := by
          rw [← hlength]
          exact lt_of_le_of_ne hhigher.length_le fun heq => hne (hhigher.eq_of_length heq)
        exact ih _ hshort higher rfl (hhigher.trans hfront) hnonempty
  · intro hkeeps above hfront hsome
    rw [hverdict above hfront hsome fun higher hhigher _ => hkeeps higher (hhigher.trans hfront)]
    exact hkeeps above hfront hsome

end Unmixed

namespace Action

/-- The rules of a directory are the lines of its ignore file, then the excluded paths. -/
theorem run_ignoreRules_of_file (loader : Yaml.Loader) {workspace : Workspace}
    {target : List String}
    (hdots : ".." ∉ target) {bytes : List UInt8} {text : List Char}
    (hfile : workspace.tree.fileAt? (target ++ [".gitignore"]) = some bytes)
    (hdecode : Text.Utf8.decode bytes = .ok text) (excludes : List String) :
    ((ignoreRules loader (Path.ofNames target) (some excludes)).run workspace).1 =
      .ok (IgnoreRule.ofLines (Text.bareLines (Text.normalizeNewlines text) ++
        excludes.map String.toList)) := by
  have hresolved : (Path.ofNames (target ++ [".gitignore"])).Resolved := by
    refine ⟨rfl, ?_⟩
    simp [Path.ofNames, hdots]
  have hexists : ((look fun tree here => tree.pathExists here
      (Path.ofNames (target ++ [".gitignore"]))).run workspace).1 = .ok true := by
    have hkind := Entry.kind?_eq_file_iff.2 hfile
    change Except.ok (workspace.tree.pathExists workspace.here _) = _
    rw [Entry.pathExists_eq hresolved.isAbsolute hresolved.parts]
    exact congrArg (fun kind : Option (Option (List UInt8)) => Except.ok kind.isSome) hkind
  have hread : ((readText (Path.ofNames (target ++ [".gitignore"]))).run workspace).1 =
      .ok (Text.normalizeNewlines text) := by
    rw [run_readText hresolved hfile, hdecode]
  have hrules : ((IgnoreRule.ofLines <$> Text.bareLines <$>
      readText (Path.ofNames (target ++ [".gitignore"])) : Action _).run workspace).1 =
        .ok (IgnoreRule.ofLines (Text.bareLines (Text.normalizeNewlines text))) := by
    rw [← bind_pure_comp, ← bind_pure_comp, bind_assoc, (reads_readText _).run_bind_of_ok hread]
    rfl
  refine Eq.trans (congrArg Prod.fst ((reads_look _).run_bind_of_ok hexists)) ?_
  refine Eq.trans (congrArg Prod.fst
    ((((reads_readText _).map _).map _).run_bind_of_ok hrules)) ?_
  have happend : ∀ lines others, IgnoreRule.ofLines (lines ++ others) =
      IgnoreRule.ofLines lines ++ IgnoreRule.ofLines others :=
    fun lines others => List.filterMap_append
  rw [happend]
  rfl

end Action

open Fakery.Action in
/-- A scan lists the sources that the scanner's way of matching keeps.  They are those that git
keeps as long as no wildcard and no negated pattern reaches beyond what git matches. -/
theorem scan_keeps_git (loader : Yaml.Loader) {workspace : Workspace}
    (hworkspace : workspace.Sound) {path : String}
    {target : List String} {entry : Entry}
    (htarget : ((expandHome (Path.ofString path) >>= resolve).run workspace).1 = .ok target)
    (hget : workspace.tree.get? target = some entry) (hentry : entry.isDirectory = true)
    {bytes : List UInt8} {text : List Char} (hfile : entry.fileAt? [".gitignore"] = some bytes)
    (hdecode : Text.Utf8.decode bytes = .ok text) (excludes : List String)
    (hlines : ∀ line ∈ Text.bareLines (Text.normalizeNewlines text) ++ excludes.map String.toList,
      IsOrdinary line) :
    let patterns := Pattern.ofLines (Text.bareLines (Text.normalizeNewlines text) ++
      excludes.map String.toList)
    ∃ files, ((scan loader (some excludes) path).run workspace).1 =
        .ok ⟨Path.ofNames target, files⟩ ∧
      (∀ file, file ∈ files ↔ ∃ names content, IsSource entry names content ∧
        Keeps Pattern.Reaches patterns names ∧ file = ⟨Text.joined "/" names, content.length⟩) ∧
      (Unmixed patterns entry → ∀ file, file ∈ files ↔ ∃ names content,
        IsSource entry names content ∧ Keeps Pattern.Matches patterns names ∧
          file = ⟨Text.joined "/" names, content.length⟩) := by
  intro patterns
  obtain ⟨hsound, hnames⟩ := hworkspace.tree.names_of_get? hget
  have hthere : workspace.tree.fileAt? (target ++ [".gitignore"]) = some bytes := by
    rw [Entry.fileAt?, Entry.get?_append, hget]
    exact hfile
  have hrules := run_ignoreRules_of_file loader (fun hmem => (hnames _ hmem).ne_dots rfl) hthere
    hdecode excludes
  have hmem : ∀ file, file ∈ filesBelow (IgnoreRule.ofLines (Text.bareLines
        (Text.normalizeNewlines text) ++ excludes.map String.toList)) "" entry ↔
      ∃ names content, IsSource entry names content ∧ Keeps Pattern.Reaches patterns names ∧
        file = ⟨Text.joined "/" names, content.length⟩ := by
    intro file
    simp only [mem_filesBelow_iff_eligible hsound, eligible_iff hlines hsound, and_assoc]
    rfl
  refine ⟨_, ?_, hmem, ?_⟩
  · rw [scan_eq_of_directory htarget hget hentry, (reads_ignoreRules _ _).run_bind_of_ok hrules]
    rfl
  · intro hunmixed file
    rw [hmem]
    apply exists₂_congr
    intro names content
    apply and_congr_right
    intro hsource
    rw [hunmixed.keeps_iff hsound hsource.file]

/-! ## Trees in which both agree, and trees in which they do not -/

namespace Entry

mutual

/-- The places below an entry, with whether they are directories. -/
def places : Entry → List (List String × Bool)
  | .file _ => []
  | .directory children => placesIn children

def placesIn : List (String × Entry) → List (List String × Bool)
  | [] => []
  | (name, entry) :: rest =>
    ([name], entry.isDirectory) :: (entry.places.map fun place => (name :: place.1, place.2)) ++
      placesIn rest

end

theorem mem_placesIn {children : List (String × Entry)} {name : String} {entry : Entry}
    (h : children.lookup name = some entry) :
    ([name], entry.isDirectory) ∈ placesIn children ∧
      ∀ place ∈ entry.places, (name :: place.1, place.2) ∈ placesIn children := by
  induction children with
  | nil => cases h
  | cons child children ih =>
      obtain ⟨first, old⟩ := child
      rw [lookup_cons_eq] at h
      rw [placesIn]
      split at h
      · next hname =>
          cases h
          rw [hname]
          refine ⟨by simp, fun place hplace => ?_⟩
          exact List.mem_append_left _ (List.mem_cons_of_mem _ (List.mem_map_of_mem hplace))
      · exact ⟨List.mem_append_right _ (ih h).1,
          fun place hplace => List.mem_append_right _ ((ih h).2 place hplace)⟩

theorem mem_places {entry found : Entry} {names : List String} (hne : names ≠ [])
    (h : entry.get? names = some found) : (names, found.isDirectory) ∈ entry.places := by
  induction names generalizing entry with
  | nil => exact absurd rfl hne
  | cons name names ih =>
      obtain ⟨below, hbelow, hrest⟩ := Option.bind_eq_some_iff.1 h
      cases entry with
      | file content => cases hbelow
      | directory children =>
          rw [places]
          have hplaces := mem_placesIn hbelow
          cases names with
          | nil =>
              cases hrest
              exact hplaces.1
          | cons next names => exact hplaces.2 _ (ih (by simp) hrest)

end Entry

theorem Pattern.spares_of_places {pattern negated : Pattern} {entry : Entry}
    (h : ∀ place ∈ entry.places, ∀ directory ∈ place.1.inits, directory ≠ [] →
      (directory ≠ place.1 ∨ place.2 = true) → negated.Matches directory true →
      (negated.directoryOnly = true → place.2 = true) → ¬ pattern.Matches place.1 place.2) :
    pattern.Spares negated entry := by
  intro directory below found hsome hfound hbelow hmatches honly
  refine h (directory ++ below, found.isDirectory) (Entry.mem_places (by simp [hsome]) hfound)
    directory ((List.mem_inits _ _).2 (List.prefix_append _ _)) hsome ?_ hmatches honly
  rcases hbelow with hbelow | hdirectory
  · exact .inl (by simpa using hbelow)
  · exact .inr hdirectory

theorem isOrdinary_iff (line : List Char) : IsOrdinary line ↔
    (line.head?.toList.all fun c => !Text.isBlank c) = true ∧
      (line.getLast?.toList.all fun c => !Text.isBlank c) = true ∧
      ((line.drop 1).head?.toList.all fun c => line.head? != some '!' || !Text.isBlank c) = true ∧
      (line.all fun c => c != '[' && c != ']' && c != '\\') = true ∧ ¬ ['*', '*'] <:+: line := by
  simp only [List.all_eq_true, Option.mem_toList, Bool.not_eq_true', Bool.or_eq_true, bne_iff_ne,
    ← imp_iff_not_or, Bool.and_eq_true, and_assoc]
  constructor
  · exact fun h => ⟨h.first, h.last, h.second, h.plain, h.single⟩
  · rintro ⟨first, last, second, plain, single⟩
    exact ⟨first, last, second, plain, single⟩

instance (line : List Char) : Decidable (IsOrdinary line) :=
  decidable_of_iff _ (isOrdinary_iff line).symm

def ignoreText : String :=
  "# output\nGenerated/\n*.generated.swift\n!Keep.generated.swift\n/vendor/*\n"

/-- A directory with such an ignore file. -/
def ignoringTree : Entry :=
  .directory [
    (".gitignore", .file (Text.Utf8.encode ignoreText.toList)),
    ("Generated", .directory [("B.swift", .file [])]),
    ("Sources", .directory [("A.swift", .file [1]), ("Api.generated.swift", .file []),
      ("Keep.generated.swift", .file [])]),
    ("vendor", .directory [("lib", .directory [("C.swift", .file [])])])]

theorem ignoringTree_sound : ignoringTree.Sound := by
  have hone : ∀ {name entry}, IsFileName name → entry.Sound →
      (Entry.directory [(name, entry)]).Sound := by
    intro name entry hname hentry
    exact .directory (by simp) (by simpa using hname) (by simpa using hentry)
  have hsources : (Entry.directory [("A.swift", .file [1]), ("Api.generated.swift", .file []),
      ("Keep.generated.swift", .file [])]).Sound := by
    refine .directory (by decide) (by simp; decide) ?_
    simpa using ⟨.file _, .file _⟩
  refine .directory (by decide) (by simp; decide) ?_
  simp only [List.forall_mem_cons, List.not_mem_nil, false_imp_iff, implies_true, and_true]
  exact ⟨.file _, hone (by decide) (.file _), hsources,
    hone (by decide) (hone (by decide) (.file _))⟩

theorem unmixed_ignoringTree :
    Unmixed (Pattern.ofLines (Text.bareLines ignoreText.toList)) ignoringTree := by
  have hpatterns : Pattern.ofLines (Text.bareLines ignoreText.toList) = [
      ⟨"Generated".toList, false, true, false⟩, ⟨"*.generated.swift".toList, false, false, false⟩,
      ⟨"Keep.generated.swift".toList, false, false, true⟩, ⟨"vendor/*".toList, true, false, false⟩] := by
    decide +kernel
  rw [hpatterns]
  constructor
  · intro pattern hpattern hrooted
    left
    simp only [List.mem_cons, List.not_mem_nil, or_false] at hpattern
    rcases hpattern with rfl | rfl | rfl | rfl
    · cases hrooted
    · cases hrooted
    · cases hrooted
    · exact ⟨by decide, by decide⟩
  · simp only [List.pairwise_cons, List.forall_mem_cons, List.not_mem_nil, false_imp_iff,
      implies_true, and_true, Bool.true_eq_false, Bool.false_eq_true, forall_true_left, true_and,
      List.Pairwise.nil]
    refine ⟨Pattern.spares_of_places ?_, Pattern.spares_of_places ?_⟩
    · decide +kernel
    · decide +kernel

open Fakery.Action in
theorem scan_keeps_git_ignoringTree :
    let patterns := Pattern.ofLines (Text.bareLines ignoreText.toList)
    let workspace : Workspace := { tree := ignoringTree, here := [], home := [] }
    (∃ files, ((scan .standard (some []) ".").run workspace).1 = .ok ⟨Path.ofNames [], files⟩ ∧
      ∀ file, file ∈ files ↔ ∃ names content, IsSource ignoringTree names content ∧
        Keeps Pattern.Matches patterns names ∧ file = ⟨Text.joined "/" names, content.length⟩) ∧
      Keeps Pattern.Matches patterns ["Sources", "Keep.generated.swift"] ∧
      ¬ Keeps Pattern.Matches patterns ["Sources", "Api.generated.swift"] ∧
      ¬ Keeps Pattern.Matches patterns ["vendor", "lib", "C.swift"] := by
  intro patterns workspace
  refine ⟨?_, by decide +kernel⟩
  have hworkspace : workspace.Sound := ⟨rfl, ignoringTree_sound, by decide, rfl⟩
  have hdecode : Text.Utf8.decode (Text.Utf8.encode ignoreText.toList) = .ok ignoreText.toList := by
    decide +kernel
  have hnormal : Text.normalizeNewlines ignoreText.toList = ignoreText.toList := by
    decide +kernel
  obtain ⟨files, hscan, -, hgit⟩ := scan_keeps_git .standard hworkspace
    (by rfl : ((expandHome (Path.ofString ".") >>= resolve).run workspace).1 = .ok []) rfl rfl
    (by rfl : ignoringTree.fileAt? [".gitignore"] = _) hdecode [] (by decide +kernel)
  rw [hnormal, List.map_nil, List.append_nil] at hgit
  exact ⟨files, hscan, hgit unmixed_ignoringTree⟩

def singleFile (names : List String) : Entry :=
  names.foldr (fun name entry => .directory [(name, entry)]) (.file [])

/-- Where a wildcard crosses a slash, where a negated pattern names a directory, and where it
takes only the directory back, a scan lists other files than git keeps. -/
theorem scan_keeps_git_strays :
    let listed := fun (lines : List String) (names : List String) =>
      filesBelow (IgnoreRule.ofLines (lines.map String.toList)) "" (singleFile names)
    let kept := fun (lines : List String) (names : List String) =>
      Keeps Pattern.Matches (Pattern.ofLines (lines.map String.toList)) names
    (listed ["src/*.swift"] ["src", "sub", "B.swift"] = [] ∧
      kept ["src/*.swift"] ["src", "sub", "B.swift"]) ∧
    (listed ["*.swift", "!Keep"] ["Keep", "A.swift"] = [⟨"Keep/A.swift", 0⟩] ∧
      ¬ kept ["*.swift", "!Keep"] ["Keep", "A.swift"]) ∧
    listed ["Gen*", "!Gen/"] ["Gen", "A.swift"] = [] ∧
      kept ["Gen*", "!Gen/"] ["Gen", "A.swift"] := by
  decide +kernel

end Fakery
