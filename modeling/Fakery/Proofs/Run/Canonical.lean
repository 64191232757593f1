import Fakery.Proofs.Fake.Strategy
import Fakery.Proofs.Run.Absence
import Fakery.Proofs.Run.Directory

/-!
# Exactly the eligible files, in one order

A scan lists a file exactly if its name has the suffix of sources, no directory on the way to it
is left out, and it is not ignored itself.  In every directory files come before directories,
both by name, so that the listing depends on the files alone and not on the order in which a
directory holds them.
-/

namespace Fakery

/-! ## The verdict of rules -/

/-- Of the items of a list that match, the last one is not negated. -/
def LastIgnores {α : Type} (matched : α → Prop) (negated : α → Bool) (items : List α) : Prop :=
  ∃ item, IsFirst matched items.reverse item ∧ negated item = false

/-- Some rule matches a path, and the last one that does is not negated. -/
def Ignored (rules : List IgnoreRule) (path : String) (isDirectory : Bool) : Prop :=
  LastIgnores (fun rule => rule.matchesPath path isDirectory = true) IgnoreRule.negated rules

theorem lastIgnores_concat {α : Type} {matched : α → Prop} {negated : α → Bool} {items : List α}
    {item : α} :
    LastIgnores matched negated (items ++ [item]) ↔
      (matched item ∧ negated item = false) ∨ (¬ matched item ∧ LastIgnores matched negated items) := by
  simp only [LastIgnores, List.reverse_concat, isFirst_cons]
  grind

theorem isIgnored_iff {rules : List IgnoreRule} {path : String} {isDirectory : Bool} :
    isIgnored rules path isDirectory = true ↔ Ignored rules path isDirectory := by
  induction rules using List.reverseRecOn with
  | nil => simp [isIgnored, Ignored, LastIgnores, not_isFirst_nil]
  | append_singleton rules rule ih =>
      have hstep : isIgnored (rules ++ [rule]) path isDirectory =
          if rule.matchesPath path isDirectory then !rule.negated
          else isIgnored rules path isDirectory := by
        rw [isIgnored, List.foldl_append]
        rfl
      rw [hstep, Ignored, lastIgnores_concat, ← Ignored, ← ih]
      cases rule.matchesPath path isDirectory <;> simp

/-! ## Paths of names -/

theorem joined_singleton (name : String) : Text.joined "/" [name] = name := by
  simp [Text.joined, Text.joinWith]

theorem joined_cons {names : List String} (hne : names ≠ []) (name : String) :
    Text.joined "/" (name :: names) = name ++ "/" ++ Text.joined "/" names := by
  obtain ⟨next, rest, rfl⟩ := List.exists_cons_of_ne_nil hne
  rw [← String.toList_inj]
  simp [toList_joined, Text.joinWith]

theorem joined_concat {names : List String} (hne : names ≠ []) (name : String) :
    Text.joined "/" (names ++ [name]) = Text.joined "/" names ++ "/" ++ name := by
  induction names with
  | nil => exact absurd rfl hne
  | cons first names ih =>
      rw [List.cons_append, joined_cons (by simp)]
      cases names with
      | nil => rw [List.nil_append, joined_singleton, joined_singleton]
      | cons next names =>
          rw [ih (by simp), joined_cons (List.cons_ne_nil next names) first]
          simp only [String.append_assoc]

theorem pathBelow_joined {names : List String} (hnames : ∀ name ∈ names, IsFileName name)
    (name : String) : pathBelow (Text.joined "/" names) name = Text.joined "/" (names ++ [name]) := by
  cases names with
  | nil => rw [List.nil_append, joined_singleton]; rfl
  | cons first names =>
      have hne : Text.joined "/" (first :: names) ≠ "" := by
        have hfirst := (List.forall_mem_cons.1 hnames).1.ne_empty
        cases names with
        | nil => rwa [joined_singleton]
        | cons next names =>
            rw [joined_cons (by simp)]
            simp [hfirst]
      rw [pathBelow, if_neg (by simpa using hne), joined_concat (by simp)]

theorem ofString_joined {names : List String} (hnames : ∀ name ∈ names, IsFileName name) :
    Path.ofString (Text.joined "/" names) = ⟨"", names⟩ := by
  induction names using List.reverseRecOn with
  | nil => rfl
  | append_singleton names name ih =>
      rw [List.forall_mem_append, List.forall_mem_singleton] at hnames
      rw [← pathBelow_joined hnames.1]
      exact Path.ofString_pathBelow (ih hnames.1) hnames.2

/-! ## Eligible files -/

/-- A file to list, by the names that lead to it from the root of a scan. -/
structure Eligible (rules : List IgnoreRule) (root : Entry) (names : List String)
    (content : List UInt8) : Prop where
  file : root.fileAt? names = some content
  suffix : ∃ name, names.getLast? = some name ∧ sourceSuffix.toList <:+ name.toList
  searched : ∀ name ∈ names.dropLast, name ∉ excludedDirectories
  reached : ∀ above, above <+: names → above ≠ names → above ≠ [] →
    ¬ Ignored rules (Text.joined "/" above) true
  kept : ¬ Ignored rules (Text.joined "/" names) false

/-- The way of a scan to a file: every directory on it is searched, and the file is listed. -/
def Walks (rules : List IgnoreRule) : (front names : List String) → Prop
  | _, [] => False
  | front, [name] => isListed rules (Text.joined "/" front) name = true
  | front, name :: next :: rest =>
    isSearched rules (Text.joined "/" front) name = true ∧ Walks rules (front ++ [name]) (next :: rest)

section Walks

variable {rules : List IgnoreRule} {front : List String}

theorem isListed_iff (hfront : ∀ name ∈ front, IsFileName name) {name : String} :
    isListed rules (Text.joined "/" front) name = true ↔
      sourceSuffix.toList <:+ name.toList ∧
        ¬ Ignored rules (Text.joined "/" (front ++ [name])) false := by
  rw [isListed, pathBelow_joined hfront, Bool.and_eq_true, List.isSuffixOf_iff_suffix,
    ← isIgnored_iff, Bool.not_eq_true', Bool.not_eq_true]

theorem isSearched_iff (hfront : ∀ name ∈ front, IsFileName name) {name : String} :
    isSearched rules (Text.joined "/" front) name = true ↔
      name ∉ excludedDirectories ∧ ¬ Ignored rules (Text.joined "/" (front ++ [name])) true := by
  rw [isSearched, pathBelow_joined hfront, Bool.and_eq_true, ← isIgnored_iff, Bool.not_eq_true',
    Bool.not_eq_true', Bool.not_eq_true, ← Bool.not_eq_true, List.contains_iff_mem]

/-- What is above a place: the first name, or what is above the rest behind it. -/
theorem forall_above_cons {name : String} {rest : List String} (hrest : rest ≠ [])
    {p : List String → Prop} :
    (∀ above, above <+: name :: rest → above ≠ name :: rest → above ≠ [] → p above) ↔
      p [name] ∧ ∀ above, above <+: rest → above ≠ rest → above ≠ [] → p (name :: above) := by
  constructor
  · intro h
    refine ⟨h [name] (by simp) (by simpa using Ne.symm hrest) (by simp), ?_⟩
    intro above hfront hne _
    exact h (name :: above) ((List.prefix_cons_inj name).2 hfront) (by simpa using hne) (by simp)
  · rintro ⟨hname, hbelow⟩ above hfront hne hnil
    obtain rfl | ⟨below, rfl, hbelow'⟩ := List.prefix_cons_iff.1 hfront
    · exact absurd rfl hnil
    · by_cases hempty : below = []
      · rwa [hempty]
      · exact hbelow below hbelow' (by simpa using hne) hempty

/-- The conditions on a way, each for all of its directories at once. -/
theorem walks_iff {names : List String} (hnames : ∀ name ∈ front ++ names, IsFileName name) :
    Walks rules front names ↔
      (∃ name, names.getLast? = some name ∧ sourceSuffix.toList <:+ name.toList) ∧
      (∀ name ∈ names.dropLast, name ∉ excludedDirectories) ∧
      (∀ above, above <+: names → above ≠ names → above ≠ [] →
        ¬ Ignored rules (Text.joined "/" (front ++ above)) true) ∧
      ¬ Ignored rules (Text.joined "/" (front ++ names)) false := by
  induction names generalizing front with
  | nil => simp [Walks]
  | cons name rest ih =>
      have hfront : ∀ name ∈ front, IsFileName name :=
        fun name hname => hnames name (List.mem_append_left _ hname)
      cases rest with
      | nil =>
          rw [Walks, isListed_iff hfront]
          simp [List.prefix_cons_iff]
      | cons next rest =>
          have hrest : ∀ other ∈ (front ++ [name]) ++ next :: rest, IsFileName other := by
            simpa using hnames
          rw [Walks, isSearched_iff hfront, ih hrest, forall_above_cons (List.cons_ne_nil next rest),
            List.getLast?_cons_cons, List.dropLast_cons_cons, List.forall_mem_cons]
          simp only [List.append_assoc, List.singleton_append]
          tauto

end Walks

/-! ## What is listed -/

section Members

variable {rules : List IgnoreRule} {directory : String} {children : List (String × Entry)}

/-- The files found in one directory are its children that are files and are listed. -/
theorem mem_filesIn_iff {found : String × SourceFile} :
    found ∈ filesIn rules directory children ↔
      ∃ content, (found.1, Entry.file content) ∈ children ∧
        isListed rules directory found.1 = true ∧
        found.2 = ⟨pathBelow directory found.1, content.length⟩ := by
  induction children with
  | nil => simp [filesIn]
  | cons child children ih =>
      obtain ⟨name, entry⟩ := child
      cases entry with
      | file content =>
          rw [filesIn]
          split
          · rw [List.mem_cons, ih]
            grind
          · rw [ih]
            grind
      | directory inside =>
          rw [filesIn, ih]
          grind

/-- The lists of a directory are those of the directories in it that are searched. -/
theorem mem_filesInEach_iff {found : String × List SourceFile} :
    found ∈ filesInEach rules directory children ↔
      ∃ child ∈ children, child.2.isDirectory = true ∧ isSearched rules directory child.1 = true ∧
        found = (child.1, filesBelow rules (pathBelow directory child.1) child.2) := by
  induction children with
  | nil => simp [filesInEach]
  | cons child children ih =>
      obtain ⟨name, entry⟩ := child
      rw [filesInEach, List.exists_mem_cons_iff, ← ih]
      split
      · next h =>
          rw [Bool.and_eq_true] at h
          simp [h]
      · next h =>
          rw [Bool.and_eq_true] at h
          simp only
          tauto

theorem mem_sortByName {α : Type} {entries : List (String × α)} {found : String × α} :
    found ∈ sortByName entries ↔ found ∈ entries :=
  (sortByName_perm entries).mem_iff

end Members

/-- A scan lists the files that it has a way to. -/
theorem mem_filesBelow_iff {rules : List IgnoreRule} {entry : Entry} (hsound : entry.Sound)
    {front : List String} (hfront : ∀ name ∈ front, IsFileName name) {file : SourceFile} :
    file ∈ filesBelow rules (Text.joined "/" front) entry ↔
      ∃ names content, entry.fileAt? names = some content ∧ Walks rules front names ∧
        file = ⟨Text.joined "/" (front ++ names), content.length⟩ := by
  induction hsound generalizing front with
  | file content =>
      rw [filesBelow]
      refine iff_of_false List.not_mem_nil ?_
      rintro ⟨names, found, hfile, hwalks, -⟩
      cases names with
      | nil => exact hwalks
      | cons name rest => cases hfile
  | @directory children hapart hnames hbelow ih =>
      have hlonger : ∀ child ∈ children, ∀ name ∈ front ++ [child.1], IsFileName name := by
        intro child hchild
        rw [List.forall_mem_append, List.forall_mem_singleton]
        exact ⟨hfront, hnames child hchild⟩
      rw [filesBelow, List.mem_append, List.mem_map, List.mem_flatMap]
      constructor
      · rintro (⟨found, hfound, rfl⟩ | ⟨found, hfound, hfile⟩)
        · obtain ⟨content, hchild, hlisted, hpath⟩ := mem_filesIn_iff.1 (mem_sortByName.1 hfound)
          refine ⟨[found.1], content, ?_, hlisted, ?_⟩
          · simp [Entry.fileAt?, Entry.get?, Entry.children, lookup_of_mem hapart hchild,
              Entry.content?]
          · rw [hpath, pathBelow_joined hfront]
        · obtain ⟨child, hchild, -, hsearched, rfl⟩ :=
            mem_filesInEach_iff.1 (mem_sortByName.1 hfound)
          rw [pathBelow_joined hfront, ih child hchild (hlonger child hchild)] at hfile
          obtain ⟨names, content, hcontent, hwalks, rfl⟩ := hfile
          refine ⟨child.1 :: names, content, ?_, ?_, by simp⟩
          · rw [Entry.fileAt?, Entry.get?, Entry.children, lookup_of_mem hapart hchild]
            exact hcontent
          · cases names with
            | nil => exact hwalks.elim
            | cons next rest => exact ⟨hsearched, hwalks⟩
      · rintro ⟨names, content, hfile, hwalks, rfl⟩
        obtain ⟨found, hfound, hcontent⟩ := Option.bind_eq_some_iff.1 hfile
        cases names with
        | nil => exact hwalks.elim
        | cons name rest =>
            obtain ⟨child, hlookup, hrest⟩ := Option.bind_eq_some_iff.1 hfound
            have hchild := Entry.exists_mem_of_lookup hlookup
            cases rest with
            | nil =>
                left
                cases Option.some.inj hrest
                cases found with
                | directory inside => cases hcontent
                | file bytes =>
                    cases hcontent
                    refine ⟨(name, ⟨pathBelow (Text.joined "/" front) name, content.length⟩), ?_, ?_⟩
                    · rw [mem_sortByName, mem_filesIn_iff]
                      exact ⟨content, hchild, hwalks, rfl⟩
                    · rw [pathBelow_joined hfront]
            | cons next rest =>
                right
                have hinside : child.isDirectory = true := by
                  cases child with
                  | file bytes => cases hrest
                  | directory inside => rfl
                refine ⟨(name, filesBelow rules (pathBelow (Text.joined "/" front) name) child),
                  ?_, ?_⟩
                · rw [mem_sortByName, mem_filesInEach_iff]
                  exact ⟨(name, child), hchild, hinside, hwalks.1, rfl⟩
                · rw [pathBelow_joined hfront, ih _ hchild (hlonger _ hchild)]
                  refine ⟨next :: rest, content, ?_, hwalks.2, by simp⟩
                  rw [Entry.fileAt?, hrest]
                  exact hcontent

/-- A file is listed exactly if it is eligible. -/
theorem mem_filesBelow_iff_eligible {rules : List IgnoreRule} {entry : Entry} (hsound : entry.Sound)
    {file : SourceFile} :
    file ∈ filesBelow rules "" entry ↔
      ∃ names content, Eligible rules entry names content ∧
        file = ⟨Text.joined "/" names, content.length⟩ := by
  have hroot : Text.joined "/" [] = "" := rfl
  rw [← hroot, mem_filesBelow_iff hsound (by simp)]
  apply exists₂_congr
  intro names content
  rw [List.nil_append, ← and_assoc, and_congr_left_iff]
  rintro -
  constructor
  · rintro ⟨hfile, hwalks⟩
    have hnames := hsound.names_of_fileAt? hfile
    obtain ⟨hsuffix, hsearched, hreached, hkept⟩ := (walks_iff (by simpa using hnames)).1 hwalks
    exact ⟨hfile, hsuffix, hsearched, by simpa using hreached, by simpa using hkept⟩
  · intro h
    have hnames := hsound.names_of_fileAt? h.file
    refine ⟨h.file, (walks_iff (by simpa using hnames)).2 ?_⟩
    exact ⟨h.suffix, h.searched, by simpa using h.reached, by simpa using h.kept⟩

/-! ## The order of a listing -/

/-- The order of a listing: in a directory files come before directories, both by name. -/
inductive Precedes : List String → List String → Prop
  | files {name other : String} (h : name < other) : Precedes [name] [other]
  | filesFirst {name other : String} {below : List String} (hbelow : below ≠ []) :
      Precedes [name] (other :: below)
  | directories {name other : String} {below further : List String} (h : name < other)
      (hbelow : below ≠ []) (hfurther : further ≠ []) : Precedes (name :: below) (other :: further)
  | within {name : String} {below further : List String} (h : Precedes below further) :
      Precedes (name :: below) (name :: further)

namespace Precedes

variable {left right : List String}

theorem ne_nil (h : Precedes left right) : left ≠ [] ∧ right ≠ [] := by
  cases h <;> simp

/-- No path precedes one that precedes it. -/
theorem asymm (h : Precedes left right) : ¬ Precedes right left := by
  induction h with
  | files h =>
      intro hback
      cases hback with
      | files hother => exact String.lt_asymm h hother
      | filesFirst hbelow => exact hbelow rfl
      | directories _ hbelow => exact hbelow rfl
      | within hempty => exact hempty.ne_nil.1 rfl
  | filesFirst hbelow =>
      intro hback
      cases hback with
      | files => exact hbelow rfl
      | filesFirst hempty => exact hempty rfl
      | directories _ _ hempty => exact hempty rfl
      | within hempty => exact hempty.ne_nil.2 rfl
  | directories h hbelow hfurther =>
      intro hback
      cases hback with
      | files => exact hbelow rfl
      | filesFirst => exact hfurther rfl
      | directories hother => exact String.lt_asymm h hother
      | within => exact String.lt_irrefl _ h
  | within h ih =>
      intro hback
      cases hback with
      | files => exact h.ne_nil.1 rfl
      | filesFirst => exact h.ne_nil.2 rfl
      | directories hother => exact String.lt_irrefl _ hother
      | within hother => exact ih hother

end Precedes

def SourceFile.names (file : SourceFile) : List String :=
  (Path.ofString file.path).parts

/-- Two lists in the order of listings are equal if they have the same files. -/
theorem eq_of_sorted {left right : List SourceFile}
    (hleft : left.Pairwise fun file other => Precedes file.names other.names)
    (hright : right.Pairwise fun file other => Precedes file.names other.names)
    (hmem : ∀ file, file ∈ left ↔ file ∈ right) : left = right := by
  have hnodup : ∀ {files : List SourceFile},
      files.Pairwise (fun file other => Precedes file.names other.names) → files.Nodup := by
    intro files hsorted
    apply hsorted.imp
    rintro file other hbefore rfl
    exact hbefore.asymm hbefore
  have hperm : left.Perm right := (List.perm_ext_iff_of_nodup (hnodup hleft) (hnodup hright)).2 hmem
  apply hperm.eq_of_pairwise _ hleft hright
  intro file other _ _ hbefore hbehind
  exact absurd hbehind hbefore.asymm

section Sorted

variable (rules : List IgnoreRule) {children : List (String × Entry)}
  (hapart : (children.map Prod.fst).Nodup) (hnames : ∀ child ∈ children, IsFileName child.1)
  {directory : String} {names : List String}
  (hdirectory : Path.ofString directory = ⟨"", names⟩)

/-- Two listed files stand below a directory in the order of listings. -/
def SortedBelow (names : List String) (file other : SourceFile) : Prop :=
  ∃ below further, file.names = names ++ below ∧ other.names = names ++ further ∧
    Precedes below further

theorem pairwise_lt_sortByName {α : Type} {entries : List (String × α)}
    (hnodup : (entries.map Prod.fst).Nodup) :
    (sortByName entries).Pairwise fun found other => found.1 < other.1 := by
  have hdistinct : (sortByName entries).Pairwise fun found other => found.1 ≠ other.1 :=
    List.pairwise_map.1 (((sortByName_perm entries).map Prod.fst).nodup_iff.2 hnodup)
  apply ((pairwise_sortByName entries).and hdistinct).imp
  rintro found other ⟨hle, hne⟩
  exact Std.lt_of_le_of_ne hle hne

include hapart hnames hdirectory in
theorem sorted_direct :
    ((sortByName (filesIn rules directory children)).map Prod.snd).Pairwise (SortedBelow names) := by
  have hsorted := pairwise_lt_sortByName ((filesIn_names_sublist rules directory children).nodup hapart)
  rw [List.pairwise_map]
  apply hsorted.imp_of_mem
  intro found other hfound hother hlt
  have hpath := (ofString_of_mem_filesIn rules hnames hdirectory hfound).2
  have hfurther := (ofString_of_mem_filesIn rules hnames hdirectory hother).2
  exact ⟨[found.1], [other.1], by rw [SourceFile.names, hpath], by rw [SourceFile.names, hfurther],
    .files hlt⟩

variable (hlisted : ∀ child ∈ children, ∀ {directory : String} {names : List String},
    Path.ofString directory = ⟨"", names⟩ → ListedBelow names (filesBelow rules directory child.2))
  (hbelow : ∀ child ∈ children, ∀ {directory : String} {names : List String},
    Path.ofString directory = ⟨"", names⟩ →
      (filesBelow rules directory child.2).Pairwise (SortedBelow names))

include hapart hnames hdirectory hlisted hbelow in
theorem sorted_nested :
    ((sortByName (filesInEach rules directory children)).flatMap Prod.snd).Pairwise
      (SortedBelow names) := by
  have hsorted := pairwise_lt_sortByName
    ((filesInEach_names_sublist rules directory children).nodup hapart)
  rw [List.pairwise_flatMap]
  constructor
  · intro found hfound
    obtain ⟨child, hchild, hname, hfiles⟩ :=
      exists_of_mem_filesInEach rules directory children (mem_sortByName.1 hfound)
    rw [hfiles]
    apply (hbelow child hchild (Path.ofString_pathBelow hdirectory (hnames child hchild))).imp
    rintro file other ⟨below, further, hfile, hother, hbefore⟩
    exact ⟨child.1 :: below, child.1 :: further, by simp [hfile], by simp [hother], .within hbefore⟩
  · apply hsorted.imp_of_mem
    intro found later hfound hlater hlt file hfile other hother
    obtain ⟨below, hpath, hne, -⟩ :=
      exists_below_of_mem_filesInEach rules hnames hdirectory hlisted hfound hfile
    obtain ⟨further, hfurther, hne', -⟩ :=
      exists_below_of_mem_filesInEach rules hnames hdirectory hlisted hlater hother
    exact ⟨found.1 :: below, later.1 :: further, by rw [SourceFile.names, hpath],
      by rw [SourceFile.names, hfurther], .directories hlt hne hne'⟩

end Sorted

/-- The files below an entry are listed in order. -/
theorem sorted_filesBelow (rules : List IgnoreRule) {entry : Entry} (hsound : entry.Sound)
    {directory : String} {names : List String} (hdirectory : Path.ofString directory = ⟨"", names⟩) :
    (filesBelow rules directory entry).Pairwise (SortedBelow names) := by
  induction hsound generalizing directory names with
  | file content => simp [filesBelow]
  | directory hapart hnames hchildren ih =>
      have hlisted := fun child hchild {directory : String} {names : List String} =>
        @listedBelow_filesBelow rules _ (hchildren child hchild) directory names
      rw [filesBelow, List.pairwise_append]
      refine ⟨sorted_direct rules hapart hnames hdirectory,
        sorted_nested rules hapart hnames hdirectory hlisted ih, ?_⟩
      intro file hfile other hother
      obtain ⟨found, hfound, rfl⟩ := List.mem_map.1 hfile
      obtain ⟨inside, hinside, hmem⟩ := List.mem_flatMap.1 hother
      have hpath := (ofString_of_mem_filesIn rules hnames hdirectory hfound).2
      obtain ⟨below, hbelow, hne, -⟩ :=
        exists_below_of_mem_filesInEach rules hnames hdirectory hlisted hinside hmem
      exact ⟨[found.1], inside.1 :: below, by rw [SourceFile.names, hpath],
        by rw [SourceFile.names, hbelow], .filesFirst hne⟩

theorem sorted_listing (rules : List IgnoreRule) {entry : Entry} (hsound : entry.Sound) :
    (filesBelow rules "" entry).Pairwise fun file other => Precedes file.names other.names := by
  have hroot : Path.ofString "" = ⟨"", []⟩ := rfl
  apply (sorted_filesBelow rules hsound hroot).imp
  rintro file other ⟨below, further, hfile, hother, hbefore⟩
  rw [hfile, hother]
  exact hbefore

/-- A list of files holds exactly the eligible ones, each once and in the order of listings. -/
structure Lists (rules : List IgnoreRule) (root : Entry) (files : List SourceFile) : Prop where
  mem_iff : ∀ file, file ∈ files ↔ ∃ names content, Eligible rules root names content ∧
    file = ⟨Text.joined "/" names, content.length⟩
  apart : (files.map SourceFile.path).Nodup
  sorted : files.Pairwise fun file other => Precedes file.names other.names

theorem lists_filesBelow (rules : List IgnoreRule) {entry : Entry} (hsound : entry.Sound) :
    Lists rules entry (filesBelow rules "" entry) where
  mem_iff := fun _ => mem_filesBelow_iff_eligible hsound
  apart := by
    have hroot : Path.ofString "" = ⟨"", []⟩ := rfl
    apply List.Nodup.of_map Path.ofString
    rw [List.map_map]
    exact (listedBelow_filesBelow rules hsound hroot).apart
  sorted := sorted_listing rules hsound

/-- What is eligible depends on the files of a tree alone. -/
theorem Eligible.of_fileAt? {rules : List IgnoreRule} {root other : Entry} {names : List String}
    {content : List UInt8} (h : Eligible rules root names content)
    (hfile : other.fileAt? names = root.fileAt? names) : Eligible rules other names content :=
  ⟨hfile.trans h.file, h.suffix, h.searched, h.reached, h.kept⟩

theorem filesBelow_congr (rules : List IgnoreRule) {entry other : Entry} (hentry : entry.Sound)
    (hother : other.Sound) (hfiles : other.fileAt? = entry.fileAt?) :
    filesBelow rules "" other = filesBelow rules "" entry := by
  apply eq_of_sorted (sorted_listing rules hother) (sorted_listing rules hentry)
  intro file
  rw [mem_filesBelow_iff_eligible hother, mem_filesBelow_iff_eligible hentry]
  apply exists₂_congr
  intro names content
  rw [and_congr_left_iff]
  rintro -
  exact ⟨fun h => h.of_fileAt? (congrFun hfiles.symm names),
    fun h => h.of_fileAt? (congrFun hfiles names)⟩

open Fakery.Action in
/-- A scan of a directory lists exactly its eligible files, each once and in the order of
listings, however the directories hold their entries. -/
theorem scan_lists_eligible (rules : List IgnoreRule) {entry : Entry} (hsound : entry.Sound) :
    Lists rules entry (filesBelow rules "" entry) ∧
    (∀ other, other.Sound → other.kind? = entry.kind? →
      filesBelow rules "" other = filesBelow rules "" entry) ∧
    ∀ (loader : Yaml.Loader) (workspace : Workspace) (excludes : Option (List String))
      (path : String) (target : List String),
      ((expandHome (Path.ofString path) >>= resolve).run workspace).1 = .ok target →
      workspace.tree.get? target = some entry → entry.isDirectory = true →
      ((ignoreRules loader (Path.ofNames target) excludes).run workspace).1 = .ok rules →
      ((scan loader excludes path).run workspace).1 =
        .ok ⟨Path.ofNames target, filesBelow rules "" entry⟩ := by
  refine ⟨lists_filesBelow rules hsound, ?_, ?_⟩
  · intro other hother hkinds
    apply filesBelow_congr rules hsound hother
    funext names
    rw [Entry.fileAt?_eq_join, Entry.fileAt?_eq_join, hkinds]
  · intro loader workspace excludes path target htarget hget hdirectory hrules
    rw [scan_eq_of_directory htarget hget hdirectory, (reads_ignoreRules _ _).run_bind_of_ok hrules]
    rfl

/-- Sorting by insertion, which evaluates, gives the same order. -/
theorem sortByName_eq_insertionSort {α : Type} {entries : List (String × α)}
    (hapart : (entries.map Prod.fst).Nodup) :
    sortByName entries = entries.insertionSort fun found other => found.1 ≤ other.1 := by
  have htotal : Std.Total fun found other : String × α => found.1 ≤ other.1 :=
    ⟨fun found other => String.le_total found.1 other.1⟩
  have htrans : IsTrans (String × α) fun found other => found.1 ≤ other.1 :=
    ⟨fun _ _ _ => String.le_trans⟩
  have hperm := (sortByName_perm entries).trans
    (List.perm_insertionSort (fun found other => found.1 ≤ other.1) entries).symm
  refine hperm.eq_of_pairwise ?_ (pairwise_sortByName entries)
    (List.pairwise_insertionSort _ entries)
  intro found other hfound hother hle hge
  exact List.inj_on_of_nodup_map hapart (mem_sortByName.1 hfound)
    ((List.mem_insertionSort _).1 hother) (String.le_antisymm hle hge)

/-- Sources beside a build directory and a directory of generated files. -/
def scannedTree : Entry :=
  .directory [
    ("Sources", .directory [("Real.swift", .file [1, 2]), ("Api.generated.swift", .file []),
      ("Keep.generated.swift", .file [])]),
    ("Generated", .directory [("Keep.generated.swift", .file [])]),
    (".build", .directory [("Dependency.swift", .file [])]),
    ("Package.swift", .file [1]), ("README.md", .file [])]

def scannedRules : List IgnoreRule :=
  IgnoreRule.ofLines ["Generated/".toList, "*.generated.swift".toList,
    "!Keep.generated.swift".toList]

theorem scannedTree_sound : scannedTree.Sound := by
  have hempty : ∀ name, IsFileName name → (Entry.directory [(name, .file [])]).Sound := by
    intro name hname
    exact .directory (by simp) (by simpa using hname) (by simpa using .file [])
  refine .directory (by decide) (by simp; decide) ?_
  simp only [List.forall_mem_cons, List.not_mem_nil, false_imp_iff, implies_true, and_true]
  refine ⟨.directory (by decide) (by simp; decide) ?_, hempty _ (by decide), hempty _ (by decide),
    .file _, .file _⟩
  simpa using ⟨.file _, .file _⟩

/-- A negated rule takes a file back in, but none below an ignored directory. -/
theorem scan_lists_eligible_scannedTree :
    Lists scannedRules scannedTree [⟨"Package.swift", 1⟩, ⟨"Sources/Keep.generated.swift", 0⟩,
      ⟨"Sources/Real.swift", 2⟩] := by
  have hfiles : filesBelow scannedRules "" scannedTree = [⟨"Package.swift", 1⟩,
      ⟨"Sources/Keep.generated.swift", 0⟩, ⟨"Sources/Real.swift", 2⟩] := by
    simp (disch := decide +kernel) only [scannedTree, filesBelow, filesInEach,
      sortByName_eq_insertionSort]
    decide +kernel
  have hlists := (scan_lists_eligible scannedRules scannedTree_sound).1
  rwa [hfiles] at hlists

end Fakery
