import Fakery.Proofs.Edit.Extent
import Fakery.Proofs.Files.Tree
import Fakery.Run.Scan

/-!
# The paths of a listing

A listed path reads back as the names that lead to the file, so that no two files of
one listing have the same path.
-/

namespace Fakery

namespace Path

theorem markOf_eq_empty_iff (cs : List Char) : markOf cs = "" ↔ cs.head? ≠ some '/' := by
  cases cs with
  | nil => simp [markOf]
  | cons c cs =>
      rw [List.head?_cons, ne_eq, Option.some.injEq]
      unfold markOf
      split <;> simp_all

theorem ofString_name {name : String} (hname : IsFileName name) :
    ofString name = ⟨"", [name]⟩ := by
  have hmark : markOf name.toList = "" := by
    rw [markOf_eq_empty_iff]
    intro hslash
    exact hname.not_mem (List.mem_of_mem_head? hslash)
  simp [ofString, hmark, splitAt_of_not_mem hname.not_mem, hname.ne_empty, hname.ne_dot]

/-- A path below a directory reads as the directory's names and the name. -/
theorem ofString_pathBelow {directory name : String} {names : List String}
    (hdirectory : ofString directory = ⟨"", names⟩) (hname : IsFileName name) :
    ofString (pathBelow directory name) = ⟨"", names ++ [name]⟩ := by
  rw [pathBelow]
  by_cases hempty : directory = ""
  · subst hempty
    cases hdirectory
    exact ofString_name hname
  · have htext : (directory ++ "/" ++ name).toList = directory.toList ++ '/' :: name.toList := by
      simp
    obtain ⟨c, cs, hcs⟩ := List.exists_cons_of_ne_nil (mt String.toList_eq_nil_iff.1 hempty)
    rw [ofString, Path.mk.injEq, markOf_eq_empty_iff] at hdirectory
    rw [if_neg (by simpa using hempty), ofString, htext, Path.mk.injEq, markOf_eq_empty_iff]
    constructor
    · simpa [hcs] using hdirectory.1
    · rw [splitAt_append_cons, List.map_append, List.filter_append, hdirectory.2,
        splitAt_of_not_mem hname.not_mem]
      simp [hname.ne_empty, hname.ne_dot]

end Path

theorem sortByName_perm {α : Type} (entries : List (String × α)) :
    (sortByName entries).Perm entries :=
  List.mergeSort_perm _ _

section Listing

variable (rules : List IgnoreRule) (directory : String) (children : List (String × Entry))

theorem filesIn_names_sublist :
    ((filesIn rules directory children).map Prod.fst).Sublist (children.map Prod.fst) := by
  induction children with
  | nil => exact List.Sublist.refl _
  | cons child children ih =>
      obtain ⟨name, entry⟩ := child
      cases entry with
      | file content =>
          rw [filesIn]
          split
          · exact ih.cons_cons name
          · exact ih.cons name
      | directory inside =>
          rw [filesIn]
          exact ih.cons name

theorem path_of_mem_filesIn {found : String × SourceFile}
    (h : found ∈ filesIn rules directory children) : found.2.path = pathBelow directory found.1 := by
  induction children with
  | nil => simp [filesIn] at h
  | cons child children ih =>
      obtain ⟨name, entry⟩ := child
      cases entry with
      | file content =>
          rw [filesIn] at h
          split at h
          · obtain rfl | h := List.mem_cons.1 h
            · rfl
            · exact ih h
          · exact ih h
      | directory inside =>
          rw [filesIn] at h
          exact ih h

theorem filesInEach_names_sublist :
    ((filesInEach rules directory children).map Prod.fst).Sublist (children.map Prod.fst) := by
  induction children with
  | nil => simp [filesInEach]
  | cons child children ih =>
      obtain ⟨name, entry⟩ := child
      rw [filesInEach]
      split
      · exact ih.cons_cons name
      · exact ih.cons name

theorem exists_of_mem_filesInEach {found : String × List SourceFile}
    (h : found ∈ filesInEach rules directory children) :
    ∃ child ∈ children, child.1 = found.1 ∧
      found.2 = filesBelow rules (pathBelow directory child.1) child.2 := by
  induction children with
  | nil => simp [filesInEach] at h
  | cons child children ih =>
      obtain ⟨name, entry⟩ := child
      rw [filesInEach] at h
      have htail : found ∈ filesInEach rules directory children →
          ∃ child ∈ (name, entry) :: children, child.1 = found.1 ∧
            found.2 = filesBelow rules (pathBelow directory child.1) child.2 := by
        intro hmem
        obtain ⟨child, hchild, hfound⟩ := ih hmem
        exact ⟨child, List.mem_cons_of_mem _ hchild, hfound⟩
      split at h
      · obtain rfl | h := List.mem_cons.1 h
        · exact ⟨_, List.mem_cons_self, rfl, rfl⟩
        · exact htail h
      · exact htail h

end Listing

/-- A listed path leads down from a directory by names, and no path stands twice. -/
structure ListedBelow (names : List String) (files : List SourceFile) : Prop where
  exists_below : ∀ file ∈ files, ∃ below, Path.ofString file.path = ⟨"", names ++ below⟩ ∧
    below ≠ [] ∧ ∀ name ∈ below, IsFileName name
  apart : (files.map fun file => Path.ofString file.path).Nodup

theorem nodup_map_fst_sortByName {α : Type} {entries : List (String × α)}
    {children : List (String × Entry)} (hapart : (children.map Prod.fst).Nodup)
    (hentries : (entries.map Prod.fst).Sublist (children.map Prod.fst)) :
    ((sortByName entries).map Prod.fst).Nodup :=
  ((sortByName_perm entries).map Prod.fst).nodup_iff.2 (hentries.nodup hapart)

section Directory

variable (rules : List IgnoreRule) {children : List (String × Entry)}
  (hapart : (children.map Prod.fst).Nodup) (hnames : ∀ child ∈ children, IsFileName child.1)
  {directory : String} {names : List String}
  (hdirectory : Path.ofString directory = ⟨"", names⟩)

include hnames hdirectory in
theorem ofString_of_mem_filesIn {found : String × SourceFile}
    (h : found ∈ sortByName (filesIn rules directory children)) :
    IsFileName found.1 ∧ Path.ofString found.2.path = ⟨"", names ++ [found.1]⟩ := by
  have hfound := (sortByName_perm _).subset h
  obtain ⟨child, hchild, heq⟩ := List.mem_map.1
    ((filesIn_names_sublist rules directory children).subset (List.mem_map_of_mem hfound))
  have hname : IsFileName found.1 := heq ▸ hnames child hchild
  rw [path_of_mem_filesIn rules directory children hfound]
  exact ⟨hname, Path.ofString_pathBelow hdirectory hname⟩

include hapart hnames hdirectory in
/-- The paths of the files in a directory lead down from it, none of them twice. -/
theorem listedBelow_direct :
    ListedBelow names ((sortByName (filesIn rules directory children)).map Prod.snd) := by
  constructor
  · intro file hfile
    obtain ⟨found, hfound, rfl⟩ := List.mem_map.1 hfile
    obtain ⟨hname, hpath⟩ := ofString_of_mem_filesIn rules hnames hdirectory hfound
    exact ⟨[found.1], hpath, by simp, by simpa using hname⟩
  · have hpaths : ((sortByName (filesIn rules directory children)).map Prod.snd).map
          (fun file => Path.ofString file.path) =
        ((sortByName (filesIn rules directory children)).map Prod.fst).map
          (fun name => ⟨"", names ++ [name]⟩) := by
      rw [List.map_map, List.map_map]
      apply List.map_congr_left
      intro found hfound
      exact (ofString_of_mem_filesIn rules hnames hdirectory hfound).2
    rw [hpaths]
    apply List.Nodup.map
    · intro left right h
      simpa using h
    · exact nodup_map_fst_sortByName hapart (filesIn_names_sublist rules directory children)

variable (hbelow : ∀ child ∈ children, ∀ {directory : String} {names : List String},
  Path.ofString directory = ⟨"", names⟩ →
    ListedBelow names (filesBelow rules directory child.2))

include hnames hdirectory hbelow in
theorem listedBelow_of_mem_filesInEach {found : String × List SourceFile}
    (h : found ∈ sortByName (filesInEach rules directory children)) :
    IsFileName found.1 ∧ ListedBelow (names ++ [found.1]) found.2 := by
  obtain ⟨child, hchild, hname, hfiles⟩ :=
    exists_of_mem_filesInEach rules directory children ((sortByName_perm _).subset h)
  rw [← hname, hfiles]
  exact ⟨hnames child hchild,
    hbelow child hchild (Path.ofString_pathBelow hdirectory (hnames child hchild))⟩

include hnames hdirectory hbelow in
theorem exists_below_of_mem_filesInEach {found : String × List SourceFile} {file : SourceFile}
    (h : found ∈ sortByName (filesInEach rules directory children)) (hfile : file ∈ found.2) :
    ∃ below, Path.ofString file.path = ⟨"", names ++ found.1 :: below⟩ ∧ below ≠ [] ∧
      ∀ name ∈ found.1 :: below, IsFileName name := by
  obtain ⟨hname, hlisted⟩ := listedBelow_of_mem_filesInEach rules hnames hdirectory hbelow h
  obtain ⟨below, hpath, hne, hall⟩ := hlisted.exists_below file hfile
  refine ⟨below, ?_, hne, List.forall_mem_cons.2 ⟨hname, hall⟩⟩
  rw [hpath, List.append_assoc, List.singleton_append]

include hapart hnames hdirectory hbelow in
/-- The paths below the directories in a directory lead down from it, none of them twice. -/
theorem listedBelow_nested :
    ListedBelow names ((sortByName (filesInEach rules directory children)).flatMap Prod.snd) := by
  constructor
  · intro file hfile
    obtain ⟨found, hfound, hmem⟩ := List.mem_flatMap.1 hfile
    obtain ⟨below, hpath, -, hall⟩ :=
      exists_below_of_mem_filesInEach rules hnames hdirectory hbelow hfound hmem
    exact ⟨found.1 :: below, hpath, by simp, hall⟩
  · rw [List.map_flatMap, List.nodup_flatMap]
    constructor
    · intro found hfound
      exact (listedBelow_of_mem_filesInEach rules hnames hdirectory hbelow hfound).2.apart
    · have hdistinct := List.pairwise_map.1 (nodup_map_fst_sortByName hapart
        (filesInEach_names_sublist rules directory children))
      apply hdistinct.imp_of_mem
      intro left right hleft hright hne path hpath hother
      -- a path below two directories would have two names at one place
      obtain ⟨file, hfile, rfl⟩ := List.mem_map.1 hpath
      obtain ⟨other, hmem, heq⟩ := List.mem_map.1 hother
      obtain ⟨below, hpath, -⟩ :=
        exists_below_of_mem_filesInEach rules hnames hdirectory hbelow hleft hfile
      obtain ⟨further, hfurther, -⟩ :=
        exists_below_of_mem_filesInEach rules hnames hdirectory hbelow hright hmem
      rw [hpath, hfurther, Path.mk.injEq] at heq
      exact hne (List.cons.inj (List.append_cancel_left heq.2)).1.symm

include hnames hdirectory hbelow in
/-- No path is listed both in a directory and below one of its directories. -/
theorem disjoint_direct_nested :
    (((sortByName (filesIn rules directory children)).map Prod.snd).map
        fun file => Path.ofString file.path).Disjoint
      (((sortByName (filesInEach rules directory children)).flatMap Prod.snd).map
        fun file => Path.ofString file.path) := by
  intro path hdirect hnested
  obtain ⟨file, hfile, rfl⟩ := List.mem_map.1 hdirect
  obtain ⟨found, hfound, rfl⟩ := List.mem_map.1 hfile
  obtain ⟨other, hother, heq⟩ := List.mem_map.1 hnested
  obtain ⟨inside, hinside, hmem⟩ := List.mem_flatMap.1 hother
  obtain ⟨below, hpath, hne, -⟩ :=
    exists_below_of_mem_filesInEach rules hnames hdirectory hbelow hinside hmem
  rw [hpath, (ofString_of_mem_filesIn rules hnames hdirectory hfound).2, Path.mk.injEq] at heq
  exact hne (List.cons.inj (List.append_cancel_left heq.2)).2

end Directory

/-- The paths listed below an entry lead down from its directory, none of them twice. -/
theorem listedBelow_filesBelow (rules : List IgnoreRule) {entry : Entry} (hsound : entry.Sound)
    {directory : String} {names : List String} (hdirectory : Path.ofString directory = ⟨"", names⟩) :
    ListedBelow names (filesBelow rules directory entry) := by
  induction hsound generalizing directory names with
  | file content => exact ⟨by simp [filesBelow], by simp [filesBelow]⟩
  | directory hapart hnames _ ih =>
      have hdirect := listedBelow_direct rules hapart hnames hdirectory
      have hnested := listedBelow_nested rules hapart hnames hdirectory ih
      rw [filesBelow]
      constructor
      · intro file hfile
        obtain hfile | hfile := List.mem_append.1 hfile
        · exact hdirect.exists_below file hfile
        · exact hnested.exists_below file hfile
      · rw [List.map_append, List.nodup_append']
        exact ⟨hdirect.apart, hnested.apart,
          disjoint_direct_nested rules hnames hdirectory ih⟩

/-! ## The files behind a listing -/

theorem lookup_of_mem {children : List (String × Entry)} (hapart : (children.map Prod.fst).Nodup)
    {name : String} {entry : Entry} (h : (name, entry) ∈ children) :
    children.lookup name = some entry := by
  induction children with
  | nil => cases h
  | cons child children ih =>
      obtain ⟨first, old⟩ := child
      rw [List.map_cons, List.nodup_cons] at hapart
      rw [Entry.lookup_cons_eq]
      obtain heq | hrest := List.mem_cons.1 h
      · cases heq
        exact if_pos rfl
      · rw [if_neg, ih hapart.2 hrest]
        intro heq
        have hmem : name ∈ children.map Prod.fst := List.mem_map.2 ⟨_, hrest, rfl⟩
        exact hapart.1 (heq ▸ hmem)

theorem exists_file_of_mem_filesIn {rules : List IgnoreRule} {directory : String}
    {children : List (String × Entry)} {found : String × SourceFile}
    (h : found ∈ filesIn rules directory children) :
    ∃ content, (found.1, Entry.file content) ∈ children := by
  induction children with
  | nil => simp [filesIn] at h
  | cons child children ih =>
      obtain ⟨name, entry⟩ := child
      have htail : found ∈ filesIn rules directory children →
          ∃ content, (found.1, Entry.file content) ∈ (name, entry) :: children := by
        intro hmem
        obtain ⟨content, hcontent⟩ := ih hmem
        exact ⟨content, List.mem_cons_of_mem _ hcontent⟩
      cases entry with
      | file content =>
          rw [filesIn] at h
          split at h
          · obtain rfl | h := List.mem_cons.1 h
            · exact ⟨content, List.mem_cons_self⟩
            · exact htail h
          · exact htail h
      | directory inside =>
          rw [filesIn] at h
          exact htail h

/-- What is listed is a file of the tree. -/
theorem fileAt?_of_mem_filesBelow (rules : List IgnoreRule) {entry : Entry} (hsound : entry.Sound)
    {directory : String} {names : List String} (hdirectory : Path.ofString directory = ⟨"", names⟩)
    {file : SourceFile} (hfile : file ∈ filesBelow rules directory entry) :
    ∃ below, Path.ofString file.path = ⟨"", names ++ below⟩ ∧ (entry.fileAt? below).isSome := by
  induction hsound generalizing directory names with
  | file content => simp [filesBelow] at hfile
  | @directory children hapart hnames _ ih =>
      rw [filesBelow, List.mem_append] at hfile
      obtain hfile | hfile := hfile
      · obtain ⟨found, hfound, rfl⟩ := List.mem_map.1 hfile
        obtain ⟨-, hpath⟩ := ofString_of_mem_filesIn rules hnames hdirectory hfound
        obtain ⟨content, hcontent⟩ := exists_file_of_mem_filesIn ((sortByName_perm _).subset hfound)
        refine ⟨[found.1], hpath, ?_⟩
        simp [Entry.fileAt?, Entry.get?, Entry.children, lookup_of_mem hapart hcontent,
          Entry.content?]
      · obtain ⟨found, hfound, hmem⟩ := List.mem_flatMap.1 hfile
        obtain ⟨child, hchild, -, hfiles⟩ :=
          exists_of_mem_filesInEach rules directory children ((sortByName_perm _).subset hfound)
        rw [hfiles] at hmem
        obtain ⟨below, hpath, hthere⟩ := ih child hchild
          (Path.ofString_pathBelow hdirectory (hnames child hchild)) hmem
        refine ⟨child.1 :: below, by rw [hpath, List.append_assoc, List.singleton_append], ?_⟩
        rw [Entry.fileAt?, Entry.get?, Entry.children, lookup_of_mem hapart hchild]
        exact hthere

theorem isListed_of_mem_filesIn {rules : List IgnoreRule} {directory : String}
    {children : List (String × Entry)} {found : String × SourceFile}
    (h : found ∈ filesIn rules directory children) : isListed rules directory found.1 = true := by
  induction children with
  | nil => simp [filesIn] at h
  | cons child children ih =>
      obtain ⟨name, entry⟩ := child
      cases entry with
      | file content =>
          rw [filesIn] at h
          split at h
          · next hlisted =>
              obtain rfl | h := List.mem_cons.1 h
              · exact hlisted
              · exact ih h
          · exact ih h
      | directory inside =>
          rw [filesIn] at h
          exact ih h

/-- A file that is listed directly in a directory has the suffix of sources. -/
theorem suffix_of_mem_filesBelow (rules : List IgnoreRule) {entry : Entry} (hsound : entry.Sound)
    {directory : String} {names : List String} (hdirectory : Path.ofString directory = ⟨"", names⟩)
    {file : SourceFile} (hfile : file ∈ filesBelow rules directory entry) {name : String}
    (hname : Path.ofString file.path = ⟨"", names ++ [name]⟩) :
    sourceSuffix.toList <:+ name.toList := by
  cases hsound with
  | file content => simp [filesBelow] at hfile
  | @directory children hapart hnames hbelow =>
      rw [filesBelow, List.mem_append] at hfile
      obtain hfile | hfile := hfile
      · obtain ⟨found, hfound, rfl⟩ := List.mem_map.1 hfile
        obtain ⟨-, hpath⟩ := ofString_of_mem_filesIn rules hnames hdirectory hfound
        have hlisted := isListed_of_mem_filesIn ((sortByName_perm _).subset hfound)
        rw [hname, Path.mk.injEq] at hpath
        cases List.append_cancel_left hpath.2
        rw [isListed, Bool.and_eq_true, List.isSuffixOf_iff_suffix] at hlisted
        exact hlisted.1
      · obtain ⟨found, hfound, hmem⟩ := List.mem_flatMap.1 hfile
        obtain ⟨below, hpath, hne, -⟩ := exists_below_of_mem_filesInEach rules hnames hdirectory
          (fun other hother => listedBelow_filesBelow rules (hbelow other hother)) hfound hmem
        rw [hname, Path.mk.injEq] at hpath
        exact absurd (List.cons.inj (List.append_cancel_left hpath.2)).2.symm hne

end Fakery
