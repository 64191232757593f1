import Fakery.Proofs.Files.Tree

/-!
# When files can be written

A file can be written, with the directories above it, exactly if no file stands above its
place and no directory at it.  Then the directories above are there afterwards, and
nothing else has changed.
-/

namespace Fakery

namespace Entry

/-- No file stands at a list of names or above it. -/
def Clear (tree : Entry) (names : List String) : Prop :=
  ∀ above, above <+: names → tree.fileAt? above = none

/-- A file can stand at a list of names: none stands above, and no directory there. -/
structure Accepts (tree : Entry) (names : List String) : Prop where
  clear : ∀ above, above <+: names → above ≠ names → tree.fileAt? above = none
  free : tree.kind? names ≠ some none

theorem kind?_eq_directory_iff {tree : Entry} {names : List String} :
    tree.kind? names = some none ↔ ∃ children, tree.get? names = some (.directory children) := by
  rw [kind?]
  rcases tree.get? names with _ | content | children <;> simp [content?]

theorem kind?_eq_file_iff {tree : Entry} {names : List String} {content : List UInt8} :
    tree.kind? names = some (some content) ↔ tree.fileAt? names = some content := by
  rw [fileAt?_eq_join]
  rcases tree.kind? names with _ | _ | other <;> simp

/-- What is there has directories above it. -/
theorem kind?_above {tree entry : Entry} {above names : List String}
    (h : tree.get? names = some entry) (habove : above <+: names) (hne : above ≠ names) :
    tree.kind? above = some none := by
  obtain ⟨rest, rfl⟩ := habove
  cases rest with
  | nil => simp at hne
  | cons next rest =>
      rw [get?_append] at h
      obtain ⟨middle, hmiddle, hrest⟩ := Option.bind_eq_some_iff.1 h
      rw [kind?, hmiddle]
      cases middle with
      | file content => simp [get?, children] at hrest
      | directory inside => rfl

/-- One step of a path below a directory that does not hold it. -/
theorem follow_of_missing {tree : Entry} {names : List String} {part : String}
    (hpart : part ≠ "..") (hdirectory : tree.kind? names = some none)
    (hmissing : tree.kind? (names ++ [part]) = none) : tree.follow names part = .error .notFound := by
  obtain ⟨children, hchildren⟩ := kind?_eq_directory_iff.1 hdirectory
  rw [kind?, get?_concat, hchildren, Option.bind_some, Option.map_eq_none_iff] at hmissing
  rw [Entry.children] at hmissing
  simp [follow, hchildren, hpart, hmissing]

section Absolute

variable {tree : Entry} {here : List String} {path : Path} (habsolute : path.isAbsolute = true)
  (hdots : ".." ∉ path.parts)

include habsolute hdots

theorem locate_of_kind? {kind : Option (List UInt8)} (h : tree.kind? path.parts = some kind) :
    tree.locate here path = .ok path.parts := by
  apply (locate_eq_ok_iff habsolute hdots).2 ⟨rfl, ?_⟩
  obtain ⟨entry, hentry, -⟩ := Option.map_eq_some_iff.1 h
  rw [hentry]
  rfl

/-- A path at which nothing stands is not found. -/
theorem locate_of_missing (hclear : tree.Clear path.parts)
    (hmissing : tree.kind? path.parts = none) : tree.locate here path = .error .notFound := by
  obtain ⟨mark, parts⟩ := path
  induction parts using List.reverseRecOn with
  | nil => cases hmissing
  | append_singleton parts name ih =>
      have hparent : Path.parent ⟨mark, parts ++ [name]⟩ = ⟨mark, parts⟩ := by simp [Path.parent]
      have hname : Path.name ⟨mark, parts ++ [name]⟩ = name := by simp [Path.name]
      have hmark : Path.isAbsolute ⟨mark, parts⟩ = true := habsolute
      have habove : ".." ∉ parts := fun hmem => hdots (List.mem_append_left _ hmem)
      rw [locate_eq_bind (by simp), hparent, hname]
      rcases hkind : tree.kind? parts with _ | _ | content
      · rw [ih hmark habove
          (fun above habove => hclear above (habove.trans (List.prefix_append _ _))) hkind]
        rfl
      · rw [locate_of_kind? hmark habove hkind]
        exact follow_of_missing (fun heq => hdots (by simp [heq])) hkind hmissing
      · have hnone := hclear parts (List.prefix_append _ _)
        rw [kind?_eq_file_iff.1 hkind] at hnone
        cases hnone

/-- A path that leads on from a file is not located, since a file is no directory. -/
theorem locate_of_file {above : List String} {content : List UInt8}
    (hfile : tree.fileAt? above = some content) (habove : above <+: path.parts)
    (hne : above ≠ path.parts) : tree.locate here path = .error .notADirectory := by
  obtain ⟨mark, parts⟩ := path
  induction parts using List.reverseRecOn with
  | nil => exact absurd (List.prefix_nil.1 habove) hne
  | append_singleton parts name ih =>
      have hparent : Path.parent ⟨mark, parts ++ [name]⟩ = ⟨mark, parts⟩ := by simp [Path.parent]
      have hname : Path.name ⟨mark, parts ++ [name]⟩ = name := by simp [Path.name]
      have hmark : Path.isAbsolute ⟨mark, parts⟩ = true := habsolute
      have hdots' : ".." ∉ parts := fun hmem => hdots (List.mem_append_left _ hmem)
      have hshort : above <+: parts := (List.prefix_concat_iff.1 habove).resolve_left hne
      rw [locate_eq_bind (by simp), hparent, hname]
      by_cases hlast : above = parts
      · subst hlast
        rw [locate_of_kind? hmark hdots' (kind?_eq_file_iff.2 hfile)]
        obtain ⟨entry, hentry, hcontent⟩ := Option.bind_eq_some_iff.1 hfile
        cases entry with
        | directory children => cases hcontent
        | file other => simp [Except.bind, follow, hentry]
      · rw [ih hmark hdots' hshort hlast]
        rfl

/-- A directory that is missing is made below one that is there. -/
theorem makeDirectory_of_parent (hclear : tree.Clear path.parts)
    (hmissing : tree.kind? path.parts = none)
    (hparent : tree.kind? path.parent.parts = some none) :
    ∃ after, tree.makeDirectory here path = .ok after ∧
      after.kind? = Function.update tree.kind? path.parts (some none) := by
  have hparts : path.parts ≠ [] := by
    intro hnil
    rw [hnil] at hmissing
    cases hmissing
  have hconcat := parts_eq_concat hparts
  have hmark : path.parent.isAbsolute = true := habsolute
  have habove : ".." ∉ path.parent.parts := fun hmem => hdots (List.mem_of_mem_dropLast hmem)
  obtain ⟨siblings, hsiblings⟩ := kind?_eq_directory_iff.1 hparent
  refine ⟨tree.set (path.parent.parts ++ [path.name]) (.directory []), ?_, ?_⟩
  · rw [makeDirectory, locate_of_missing habsolute hdots hclear hmissing]
    simp only
    rw [locate_of_kind? hmark habove hparent]
    simp only [hsiblings]
  · rw [hconcat, kind?, Option.map_eq_none_iff] at hmissing
    rw [hconcat]
    exact kind?_set hsiblings (by simp [hmissing]) _ rfl

theorem stat_eq_ok_iff {entry : Entry} :
    tree.stat here path = .ok entry ↔ tree.get? path.parts = some entry := by
  rw [stat]
  cases hlocate : tree.locate here path with
  | ok names =>
      obtain ⟨rfl, -⟩ := (locate_eq_ok_iff habsolute hdots).1 hlocate
      simp only
      cases tree.get? path.parts <;> simp
  | error kind =>
      cases hget : tree.get? path.parts with
      | none => simp
      | some found =>
          rw [(locate_eq_ok_iff habsolute hdots).2 ⟨rfl, by simp [hget]⟩] at hlocate
          cases hlocate

theorem directoryExists_iff :
    tree.directoryExists here path = true ↔ tree.kind? path.parts = some none := by
  rw [directoryExists, kind?]
  cases hstat : tree.stat here path with
  | ok entry =>
      rw [(stat_eq_ok_iff habsolute hdots).1 hstat]
      cases entry <;> simp [isDirectory, content?]
  | error kind =>
      cases hget : tree.get? path.parts with
      | none => simp
      | some found =>
          rw [(stat_eq_ok_iff habsolute hdots).2 hget] at hstat
          cases hstat

omit habsolute hdots in
theorem kind?_eq_ite_of_there (hthere : tree.kind? path.parts = some none) :
    tree.kind? = fun names => if names <+: path.parts then some none else tree.kind? names := by
  funext names
  split
  · next hnames =>
      by_cases hlast : names = path.parts
      · rw [hlast, hthere]
      · obtain ⟨children, hchildren⟩ := kind?_eq_directory_iff.1 hthere
        exact kind?_above hchildren hnames hlast
  · rfl

omit habsolute hdots in
theorem not_prefix_parent (hparts : path.parts ≠ []) : ¬ path.parts <+: path.parent.parts := by
  intro hle
  have hlength := hle.length_le
  rw [parts_eq_concat hparts, List.length_append, List.length_singleton] at hlength
  omega

/-- A missing directory below an existing one is made, and nothing else changes. -/
theorem makeDirectories_of_parent {fuel : Nat} (hclear : tree.Clear path.parts)
    (hmissing : tree.kind? path.parts = none)
    (hparent : tree.kind? path.parent.parts = some none) :
    ∃ after, makeDirectories here (fuel + 1) tree path = .ok after ∧
      after.kind? = fun names => if names <+: path.parts then some none else tree.kind? names := by
  obtain ⟨after, hmade, hkind⟩ := makeDirectory_of_parent habsolute hdots hclear hmissing hparent
  refine ⟨after, by rw [makeDirectories, hmade], ?_⟩
  rw [kind?_eq_ite_of_there (by rw [hkind, Function.update_self]), hkind]
  funext names
  split
  · rfl
  · next hnames =>
      rw [Function.update_of_ne]
      rintro rfl
      exact hnames List.prefix_rfl

/-- Directories can be made where no file stands in the way. -/
theorem makeDirectories_of_clear {fuel : Nat} (hfuel : path.parts.length < fuel)
    (hclear : tree.Clear path.parts) :
    ∃ after, makeDirectories here fuel tree path = .ok after ∧
      after.kind? = fun names => if names <+: path.parts then some none else tree.kind? names := by
  induction fuel generalizing path with
  | zero => cases hfuel
  | succ fuel ih =>
      have hfile : ∀ {above content}, above <+: path.parts → tree.kind? above ≠ some (some content) := by
        intro above content habove hkind
        have hnone := hclear above habove
        rw [kind?_eq_file_iff.1 hkind] at hnone
        cases hnone
      rcases hkind : tree.kind? path.parts with _ | _ | content
      · have hparts : path.parts ≠ [] := by
          intro hnil
          rw [hnil] at hkind
          cases hkind
        have hmark : path.parent.isAbsolute = true := habsolute
        have hfront : path.parent.parts <+: path.parts := List.dropLast_prefix _
        have hdots' : ".." ∉ path.parent.parts := fun hmem => hdots (hfront.subset hmem)
        have hclear' : tree.Clear path.parent.parts := fun above habove =>
          hclear above (habove.trans hfront)
        rcases hparent : tree.kind? path.parent.parts with _ | _ | content
        · -- the directory above is made first
          have hshort : path.parent.parts.length < fuel := by
            rw [parts_eq_concat hparts, List.length_append, List.length_singleton] at hfuel
            omega
          obtain ⟨middle, hmiddle, hkinds⟩ := ih hmark hdots' hshort hclear'
          obtain ⟨fuel, rfl⟩ := Nat.exists_eq_succ_of_ne_zero (Nat.ne_zero_of_lt hshort)
          have hclear'' : middle.Clear path.parts := by
            intro above habove
            rw [fileAt?_makeDirectories hmiddle]
            exact hclear above habove
          obtain ⟨after, hafter, hkinds'⟩ := makeDirectories_of_parent habsolute hdots hclear''
            (by simpa [hkinds, not_prefix_parent hparts] using hkind) (by simp [hkinds])
          refine ⟨after, ?_, ?_⟩
          · rw [makeDirectories, makeDirectory, locate_of_missing habsolute hdots hclear hkind]
            simp only
            rw [locate_of_missing hmark hdots' hclear' hparent]
            simp only
            rw [hmiddle]
            exact hafter
          · rw [hkinds', hkinds]
            funext names
            split
            · rfl
            · next hnames => exact if_neg fun habove => hnames (habove.trans hfront)
        · exact makeDirectories_of_parent habsolute hdots hclear hkind hparent
        · exact absurd hparent (hfile hfront)
      · refine ⟨tree, ?_, kind?_eq_ite_of_there hkind⟩
        rw [makeDirectories, makeDirectory, locate_of_kind? habsolute hdots hkind]
        simp only
        rw [if_pos ((directoryExists_iff habsolute hdots).2 hkind)]
      · exact absurd hkind (hfile List.prefix_rfl)

/-- No directory is made below a file. -/
theorem makeDirectories_of_file {fuel : Nat} {above : List String} {content : List UInt8}
    (hfile : tree.fileAt? above = some content) (habove : above <+: path.parts) :
    ∃ fault, makeDirectories here (fuel + 1) tree path = .error fault := by
  have hdirectory : ¬ tree.directoryExists here path = true := by
    rw [directoryExists_iff habsolute hdots]
    intro hthere
    rw [← kind?_eq_file_iff, kind?_eq_ite_of_there hthere] at hfile
    simp [habove] at hfile
  by_cases hlast : above = path.parts
  · subst hlast
    rw [makeDirectories, makeDirectory, locate_of_kind? habsolute hdots (kind?_eq_file_iff.2 hfile)]
    simp only
    exact ⟨_, if_neg hdirectory⟩
  · rw [makeDirectories, makeDirectory, locate_of_file habsolute hdots hfile habove hlast]
    simp only
    exact ⟨_, if_neg hdirectory⟩

/-- A file is written below an existing directory and nothing else changes. -/
theorem writeFile_of_parent (hparts : path.parts ≠ [])
    (hparent : tree.kind? path.parent.parts = some none) (hfree : tree.kind? path.parts ≠ some none)
    (content : List UInt8) :
    ∃ after, tree.writeFile here path content = .ok after ∧
      after.kind? = Function.update tree.kind? path.parts (some (some content)) := by
  have hconcat := parts_eq_concat hparts
  obtain ⟨siblings, hsiblings⟩ := kind?_eq_directory_iff.1 hparent
  have hold : ∀ old, tree.get? (path.parent.parts ++ [path.name]) = some old →
      old.isDirectory = false := by
    rintro (content | children) hold
    · rfl
    · rw [← hconcat] at hold
      exact absurd (kind?_eq_directory_iff.2 ⟨children, hold⟩) hfree
  refine ⟨tree.set path.parts (.file content), ?_, ?_⟩
  · rw [writeFile, modifyFile]
    rcases hkind : tree.kind? path.parts with _ | _ | old
    · have hmark : path.parent.isAbsolute = true := habsolute
      have habove : ".." ∉ path.parent.parts := fun hmem => hdots (List.mem_of_mem_dropLast hmem)
      have hmissing : tree.locate here path = .error .notFound := by
        rw [locate_eq_bind hparts, locate_of_kind? hmark habove hparent]
        have hname : path.name ≠ ".." := by
          intro heq
          apply hdots
          rw [hconcat, heq]
          simp
        exact follow_of_missing hname hparent (hconcat ▸ hkind)
      rw [hmissing]
      simp only
      rw [locate_of_kind? hmark habove hparent]
      simp only [hsiblings]
      rw [← hconcat]
    · exact absurd hkind hfree
    · rw [locate_of_kind? habsolute hdots hkind]
      obtain ⟨entry, hentry, hcontent⟩ := Option.map_eq_some_iff.1 hkind
      cases entry with
      | directory children => cases hcontent
      | file other => simp only [hentry]
  · have hkinds := kind?_set hsiblings hold (.file content) rfl
    rw [← hconcat] at hkinds
    exact hkinds

theorem writeFile_of_directory (hdirectory : tree.kind? path.parts = some none)
    (content : List UInt8) : ∃ fault, tree.writeFile here path content = .error fault := by
  obtain ⟨children, hchildren⟩ := kind?_eq_directory_iff.1 hdirectory
  rw [writeFile, modifyFile, locate_of_kind? habsolute hdots hdirectory]
  simp only [hchildren]
  exact ⟨_, rfl⟩

end Absolute

/-- What stands where after a file was written with the directories above it. -/
def kindsAfter (kinds : List String → Option (Option (List UInt8))) (names : List String)
    (content : List UInt8) (place : List String) : Option (Option (List UInt8)) :=
  if place = names then some (some content)
  else if place <+: names then some none
  else kinds place

section Writing

variable {tree : Entry} {here : List String} {path : Path} (habsolute : path.isAbsolute = true)
  (hdots : ".." ∉ path.parts) (hparts : path.parts ≠ []) (content : List UInt8)

include habsolute hdots hparts

/-- A file is written where one can stand. -/
theorem exists_written (haccepts : tree.Accepts path.parts) :
    ∃ made after, tree.ensureDirectory here path.parent = .ok made ∧
      made.writeFile here path content = .ok after ∧
      after.kind? = kindsAfter tree.kind? path.parts content := by
  have hfront : path.parent.parts <+: path.parts := List.dropLast_prefix _
  have hlonger := not_prefix_parent hparts
  have hclear : tree.Clear path.parent.parts := by
    intro above habove
    apply haccepts.clear above (habove.trans hfront)
    rintro rfl
    exact hlonger habove
  have hmark : path.parent.isAbsolute = true := habsolute
  obtain ⟨made, hmade, hkinds⟩ := @makeDirectories_of_clear tree here _ hmark
    (fun hmem => hdots (hfront.subset hmem)) (2 * path.parent.parts.length + 2) (by omega) hclear
  obtain ⟨after, hafter, hkinds'⟩ := @writeFile_of_parent made here _ habsolute hdots hparts
    (by simp [hkinds]) (by simpa [hkinds, hlonger] using haccepts.free) content
  refine ⟨made, after, hmade, hafter, ?_⟩
  rw [hkinds', hkinds]
  funext place
  by_cases hplace : place = path.parts
  · simp [kindsAfter, hplace]
  · rw [Function.update_of_ne hplace, kindsAfter, if_neg hplace]
    have hiff : place <+: path.parent.parts ↔ place <+: path.parts := by
      constructor
      · exact fun h => h.trans hfront
      · intro h
        rw [parts_eq_concat hparts] at h hplace
        exact (List.prefix_concat_iff.1 h).resolve_left hplace
    simp only [hiff]

/-- Where no file can stand, none is written. -/
theorem exists_fault (haccepts : ¬ tree.Accepts path.parts) :
    (∃ fault, tree.ensureDirectory here path.parent = .error fault) ∨
      ∃ made fault, tree.ensureDirectory here path.parent = .ok made ∧
        made.writeFile here path content = .error fault := by
  have hfront : path.parent.parts <+: path.parts := List.dropLast_prefix _
  have hmark : path.parent.isAbsolute = true := habsolute
  have hdots' : ".." ∉ path.parent.parts := fun hmem => hdots (hfront.subset hmem)
  by_cases hclear : tree.Clear path.parent.parts
  · right
    obtain ⟨made, hmade, hkinds⟩ := @makeDirectories_of_clear tree here _ hmark hdots'
      (2 * path.parent.parts.length + 2) (by omega) hclear
    have hdirectory : tree.kind? path.parts = some none := by
      by_contra hfree
      apply haccepts
      constructor
      · intro above habove hne
        apply hclear
        rw [parts_eq_concat hparts] at habove hne
        exact (List.prefix_concat_iff.1 habove).resolve_left hne
      · exact hfree
    obtain ⟨fault, hfault⟩ := @writeFile_of_directory made here _ habsolute hdots
      (by simpa [hkinds] using fun _ => hdirectory) content
    exact ⟨made, fault, hmade, hfault⟩
  · left
    unfold Clear at hclear
    push Not at hclear
    obtain ⟨above, habove, hfile⟩ := hclear
    obtain ⟨found, hfound⟩ := Option.ne_none_iff_exists'.1 hfile
    exact makeDirectories_of_file hmark hdots' hfound habove

end Writing

section After

variable {tree after : Entry} {names : List String} {content : List UInt8}
  (haccepts : tree.Accepts names) (hkinds : after.kind? = kindsAfter tree.kind? names content)

include haccepts hkinds

theorem fileAt?_of_kinds {place : List String} (hplace : place ≠ names) :
    after.fileAt? place = tree.fileAt? place := by
  rw [fileAt?_eq_join, hkinds, kindsAfter, if_neg hplace]
  split
  · next habove => rw [haccepts.clear place habove hplace, Option.join_some]
  · rw [fileAt?_eq_join]

/-- Writing a file changes nothing about the places that are neither above nor below. -/
theorem accepts_iff_of_kinds {other : List String} (hbelow : ¬ names <+: other)
    (habove : ¬ other <+: names) : after.Accepts other ↔ tree.Accepts other := by
  have hother : other ≠ names := fun heq => hbelow (heq ▸ List.prefix_rfl)
  have hfile : ∀ above, above <+: other → after.fileAt? above = tree.fileAt? above := by
    intro above hle
    apply fileAt?_of_kinds haccepts hkinds
    rintro rfl
    exact hbelow hle
  have hkind : after.kind? other = tree.kind? other := by
    rw [hkinds, kindsAfter, if_neg hother, if_neg habove]
  constructor
  · intro h
    refine ⟨fun above hle hne => ?_, hkind ▸ h.free⟩
    rw [← hfile above hle]
    exact h.clear above hle hne
  · intro h
    refine ⟨fun above hle hne => ?_, hkind ▸ h.free⟩
    rw [hfile above hle]
    exact h.clear above hle hne

end After

end Entry

end Fakery
