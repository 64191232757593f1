import Fakery.Proofs.Files.Erasing
import Fakery.Proofs.Run.Listing

/-!
# Listings without one of their files

A directory from which a file was taken away has the listing that it had, without that file.
-/

namespace Fakery

section Sorting

variable {α : Type} {entries : List (String × α)}

theorem pairwise_sortByName (entries : List (String × α)) :
    (sortByName entries).Pairwise fun a b => a.1 ≤ b.1 := by
  have hsorted : (sortByName entries).Pairwise fun a b => decide (a.1 ≤ b.1) = true := by
    apply List.pairwise_mergeSort
    · intro a b c hab hbc
      exact decide_eq_true (String.le_trans (of_decide_eq_true hab) (of_decide_eq_true hbc))
    · intro a b
      simpa using String.le_total a.1 b.1
  simpa using hsorted

theorem sortByName_filter (hapart : (entries.map Prod.fst).Nodup) (p : String × α → Bool) :
    sortByName (entries.filter p) = (sortByName entries).filter p := by
  have hperm : (sortByName (entries.filter p)).Perm ((sortByName entries).filter p) :=
    (sortByName_perm _).trans ((sortByName_perm entries).filter p).symm
  refine List.Perm.eq_of_pairwise ?_ (pairwise_sortByName _)
    ((pairwise_sortByName entries).sublist List.filter_sublist) hperm
  intro a b ha hb hab hba
  have hmem : ∀ found ∈ sortByName (entries.filter p), found ∈ entries := by
    intro found hfound
    exact List.mem_of_mem_filter ((sortByName_perm _).subset hfound)
  exact List.inj_on_of_nodup_map hapart (hmem a ha) (hmem b (hperm.symm.subset hb))
    (String.le_antisymm hab hba)

theorem sortByName_map {β : Type} (f : α → β) (entries : List (String × α)) :
    sortByName (entries.map fun found => (found.1, f found.2)) =
      (sortByName entries).map fun found => (found.1, f found.2) := by
  rw [sortByName, sortByName, List.map_mergeSort]
  exact fun _ _ _ _ => rfl

end Sorting

section Listing

variable (rules : List IgnoreRule) (directory : String) {children : List (String × Entry)}
  {name : String}

theorem filesIn_filter : filesIn rules directory (children.filter (·.1 != name)) =
    (filesIn rules directory children).filter (·.1 != name) := by
  induction children with
  | nil => rfl
  | cons child children ih =>
      obtain ⟨first, entry⟩ := child
      by_cases hfirst : first = name
      · rw [List.filter_cons_of_neg (by simpa using hfirst), ih]
        cases entry with
        | file content =>
            rw [filesIn]
            split
            · rw [List.filter_cons_of_neg (by simpa using hfirst)]
            · rfl
        | directory inside => rw [filesIn]
      · rw [List.filter_cons_of_pos (by simpa using hfirst)]
        cases entry with
        | file content =>
            rw [filesIn, filesIn, ih]
            split
            · rw [List.filter_cons_of_pos (by simpa using hfirst)]
            · rfl
        | directory inside => rw [filesIn, filesIn, ih]

/-- Without a file of a name the same directories are searched. -/
theorem filesInEach_filter (hfile : ∀ child ∈ children, child.1 = name → child.2.isDirectory = false) :
    filesInEach rules directory (children.filter (·.1 != name)) =
      filesInEach rules directory children := by
  induction children with
  | nil => rfl
  | cons child children ih =>
      obtain ⟨first, entry⟩ := child
      rw [List.forall_mem_cons] at hfile
      by_cases hfirst : first = name
      · rw [List.filter_cons_of_neg (by simpa using hfirst), ih hfile.2, filesInEach,
          if_neg (by simp [hfile.1 hfirst])]
      · rw [List.filter_cons_of_pos (by simpa using hfirst), filesInEach, filesInEach, ih hfile.2]

/-- A directory in the place of a directory changes no file beside it. -/
theorem filesIn_setChild {old new : Entry} (hlookup : children.lookup name = some old)
    (hold : old.isDirectory = true) (hnew : new.isDirectory = true) :
    filesIn rules directory (Entry.setChild name new children) =
      filesIn rules directory children := by
  induction children with
  | nil => cases hlookup
  | cons child children ih =>
      obtain ⟨first, entry⟩ := child
      rw [Entry.lookup_cons_eq] at hlookup
      rw [Entry.setChild]
      by_cases hfirst : first = name
      · rw [if_pos hfirst.symm] at hlookup
        cases hlookup
        rw [if_pos (by simpa using hfirst)]
        cases old with
        | file content => cases hold
        | directory inside =>
            cases new with
            | file content => cases hnew
            | directory other => rw [filesIn, filesIn]
      · rw [if_neg (Ne.symm hfirst)] at hlookup
        rw [if_neg (by simpa using hfirst)]
        cases entry <;> rw [filesIn, filesIn, ih hlookup]

/-- Where one child lists fewer files and the others lose none, each list is filtered. -/
theorem filesInEach_setChild {old new : Entry} (hapart : (children.map Prod.fst).Nodup)
    (hlookup : children.lookup name = some old) (hsame : new.isDirectory = old.isDirectory)
    {p : SourceFile → Bool}
    (hnew : filesBelow rules (pathBelow directory name) new =
      (filesBelow rules (pathBelow directory name) old).filter p)
    (hrest : ∀ child ∈ children, child.1 ≠ name →
      (filesBelow rules (pathBelow directory child.1) child.2).filter p =
        filesBelow rules (pathBelow directory child.1) child.2) :
    filesInEach rules directory (Entry.setChild name new children) =
      (filesInEach rules directory children).map fun found => (found.1, found.2.filter p) := by
  induction children with
  | nil => cases hlookup
  | cons child children ih =>
      obtain ⟨first, entry⟩ := child
      rw [List.map_cons, List.nodup_cons] at hapart
      rw [List.forall_mem_cons] at hrest
      rw [Entry.lookup_cons_eq] at hlookup
      rw [Entry.setChild]
      by_cases hfirst : first = name
      · subst hfirst
        rw [if_pos rfl] at hlookup
        cases hlookup
        have hothers : (filesInEach rules directory children).map
            (fun found => (found.1, found.2.filter p)) = filesInEach rules directory children := by
          refine (List.map_congr_left ?_).trans (List.map_id _)
          intro found hfound
          obtain ⟨child, hchild, hname, hfiles⟩ :=
            exists_of_mem_filesInEach rules directory children hfound
          have hne : child.1 ≠ first := fun heq => hapart.1 (List.mem_map.2 ⟨child, hchild, heq⟩)
          rw [hfiles, hrest.2 child hchild hne, ← hfiles]
          rfl
        rw [if_pos (by simp), filesInEach, filesInEach, hsame, hnew]
        split
        · rw [List.map_cons, hothers]
        · rw [hothers]
      · rw [if_neg (Ne.symm hfirst)] at hlookup
        rw [if_neg (by simpa using hfirst), filesInEach, filesInEach, ih hapart.2 hlookup hrest.2]
        split
        · rw [List.map_cons, hrest.1 hfirst]
        · rfl

end Listing

section Directory

variable (rules : List IgnoreRule) {children : List (String × Entry)}
  (hapart : (children.map Prod.fst).Nodup) (hnames : ∀ child ∈ children, IsFileName child.1)
  (hsound : ∀ child ∈ children, child.2.Sound) {directory : String} {names : List String}
  (hdirectory : Path.ofString directory = ⟨"", names⟩) {name : String} {child : Entry}
  (hlookup : children.lookup name = some child)

include hapart hnames hsound hdirectory hlookup

/-- A directory without one of its files lists all the others as before. -/
theorem filesBelow_filter (hchild : child.isDirectory = false) :
    filesBelow rules directory (.directory (children.filter (·.1 != name))) =
      (filesBelow rules directory (.directory children)).filter
        (Path.ofString ·.path != ⟨"", names ++ [name]⟩) := by
  have hfile : ∀ other ∈ children, other.1 = name → other.2.isDirectory = false := by
    rintro ⟨first, entry⟩ hother rfl
    rw [lookup_of_mem hapart hother] at hlookup
    cases hlookup
    exact hchild
  rw [filesBelow, filesBelow, filesIn_filter, filesInEach_filter rules directory hfile,
    sortByName_filter ((filesIn_names_sublist rules directory children).nodup hapart),
    List.filter_append]
  congr 1
  · rw [List.filter_map]
    congr 1
    apply List.filter_congr
    intro found hfound
    have hpath := (ofString_of_mem_filesIn rules hnames hdirectory hfound).2
    rw [Function.comp_apply, hpath]
    simp [bne, Bool.beq_eq_decide_eq]
  · symm
    rw [List.filter_eq_self]
    intro file hmem
    obtain ⟨found, hfound, hmem⟩ := List.mem_flatMap.1 hmem
    obtain ⟨below, hpath, hne, -⟩ := exists_below_of_mem_filesInEach rules hnames hdirectory
      (fun other hother => listedBelow_filesBelow rules (hsound other hother)) hfound hmem
    rw [hpath]
    simp [hne]

/-- Where a directory inside no longer lists a file, the directory around it lists all but that
file. -/
theorem filesBelow_setChild {rest : List String} (hrest : rest ≠ []) {new : Entry}
    (hold : child.isDirectory = true) (hnew : new.isDirectory = true)
    (hfiles : filesBelow rules (pathBelow directory name) new =
      (filesBelow rules (pathBelow directory name) child).filter
        (Path.ofString ·.path != ⟨"", names ++ name :: rest⟩)) :
    filesBelow rules directory (.directory (Entry.setChild name new children)) =
      (filesBelow rules directory (.directory children)).filter
        (Path.ofString ·.path != ⟨"", names ++ name :: rest⟩) := by
  have hothers : ∀ other ∈ children, other.1 ≠ name →
      (filesBelow rules (pathBelow directory other.1) other.2).filter
          (Path.ofString ·.path != ⟨"", names ++ name :: rest⟩) =
        filesBelow rules (pathBelow directory other.1) other.2 := by
    intro other hother hne
    rw [List.filter_eq_self]
    intro file hfile
    obtain ⟨below, hpath, -⟩ := (listedBelow_filesBelow rules (hsound other hother)
      (Path.ofString_pathBelow hdirectory (hnames other hother))).exists_below file hfile
    rw [hpath]
    simp [hne]
  rw [filesBelow, filesBelow, filesIn_setChild rules directory hlookup hold hnew,
    filesInEach_setChild rules directory hapart hlookup (hnew.trans hold.symm) hfiles hothers,
    sortByName_map, List.filter_append, List.filter_flatMap, List.flatMap_map]
  congr 1
  symm
  rw [List.filter_eq_self]
  intro file hfile
  obtain ⟨found, hfound, rfl⟩ := List.mem_map.1 hfile
  rw [(ofString_of_mem_filesIn rules hnames hdirectory hfound).2]
  simp [Ne.symm hrest]

end Directory

/-- Without a file, a listing is what it was, without that file. -/
theorem filesBelow_erase (rules : List IgnoreRule) {below : List String} (hbelow : below ≠ [])
    {entry : Entry} (hsound : entry.Sound) {directory : String} {names : List String}
    (hdirectory : Path.ofString directory = ⟨"", names⟩) {content : List UInt8}
    (hfile : entry.fileAt? below = some content) :
    filesBelow rules directory (entry.erase below) =
      (filesBelow rules directory entry).filter
        (Path.ofString ·.path != ⟨"", names ++ below⟩) := by
  induction below generalizing entry directory names with
  | nil => exact absurd rfl hbelow
  | cons name rest ih =>
      obtain ⟨found, hfound, hcontent⟩ := Option.bind_eq_some_iff.1 hfile
      obtain ⟨child, hlookup, hinside⟩ := Option.bind_eq_some_iff.1 hfound
      cases hsound with
      | file other => cases hlookup
      | @directory children hapart hnames hchildren =>
          rw [Entry.children] at hlookup
          have hmem := Entry.exists_mem_of_lookup hlookup
          cases rest with
          | nil =>
              cases Option.some.inj hinside
              apply filesBelow_filter rules hapart hnames hchildren hdirectory hlookup
              cases found with
              | file other => rfl
              | directory inside => cases hcontent
          | cons next rest =>
              have hinner : child.fileAt? (next :: rest) = some content := by
                rw [Entry.fileAt?, hinside]
                exact hcontent
              have hchild : child.isDirectory = true := by
                cases child with
                | file other => cases hinside
                | directory inside => rfl
              have hfiles := ih (by simp) (hchildren _ hmem)
                (Path.ofString_pathBelow hdirectory (hnames _ hmem)) hinner
              rw [List.append_assoc, List.singleton_append] at hfiles
              rw [Entry.erase]
              · rw [Entry.children, hlookup]
                exact filesBelow_setChild rules hapart hnames hchildren hdirectory hlookup
                  (by simp) hchild (Entry.isDirectory_erase hchild _) hfiles
              · simp

end Fakery
