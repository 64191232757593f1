import Fakery.Proofs.Files.Erasing

/-!
# Files put into a tree

A file is put into a tree with the directories above it.  Putting files one after another
changes nothing that is neither at nor above one of their places, and putting files that are
there already changes nothing at all.
-/

namespace Fakery

namespace Entry

/-! ## Entries that are there already -/

theorem setChild_of_lookup {children : List (String × Entry)} {name : String} {entry : Entry}
    (h : children.lookup name = some entry) : setChild name entry children = children := by
  induction children with
  | nil => cases h
  | cons child children ih =>
      obtain ⟨first, old⟩ := child
      rw [lookup_cons_eq] at h
      rw [setChild]
      by_cases hfirst : first = name
      · rw [if_pos hfirst.symm] at h
        cases h
        rw [if_pos (by simpa using hfirst), hfirst]
      · rw [if_neg (Ne.symm hfirst)] at h
        rw [if_neg (by simpa using hfirst), ih h]

theorem set_of_get? {tree entry : Entry} {names : List String}
    (h : tree.get? names = some entry) : tree.set names entry = tree := by
  induction names generalizing tree with
  | nil => exact (Option.some.inj h).symm
  | cons name names ih =>
      obtain ⟨below, hbelow, hrest⟩ := Option.bind_eq_some_iff.1 h
      cases tree with
      | file content => cases hbelow
      | directory children =>
          rw [Entry.children] at hbelow
          rw [set, Entry.children, hbelow, Option.getD_some, ih hrest, setChild_of_lookup hbelow]

/-! ## Sound trees -/

theorem map_fst_setChild_of_none {children : List (String × Entry)} {name : String}
    (h : children.lookup name = none) (entry : Entry) :
    (setChild name entry children).map Prod.fst = children.map Prod.fst ++ [name] := by
  induction children with
  | nil => rfl
  | cons child children ih =>
      obtain ⟨first, old⟩ := child
      rw [lookup_cons_eq] at h
      by_cases hfirst : first = name
      · rw [if_pos hfirst.symm] at h
        cases h
      · rw [if_neg (Ne.symm hfirst)] at h
        rw [setChild, if_neg (by simpa using hfirst), List.map_cons, ih h, List.map_cons,
          List.cons_append]

theorem not_mem_of_lookup {children : List (String × Entry)} {name : String}
    (h : children.lookup name = none) : name ∉ children.map Prod.fst := by
  intro hmem
  obtain ⟨⟨first, entry⟩, hchild, rfl⟩ := List.mem_map.1 hmem
  rw [List.lookup_eq_none_iff] at h
  simpa using h _ hchild

/-- Setting one child of a sound directory keeps it sound. -/
theorem Sound.setChild {children : List (String × Entry)} (hsound : (Entry.directory children).Sound)
    {name : String} (hname : IsFileName name) {entry : Entry} (hentry : entry.Sound) :
    (Entry.directory (setChild name entry children)).Sound := by
  cases hsound with
  | directory hapart hnames hbelow =>
      refine .directory ?_ ?_ ?_
      · cases hlookup : children.lookup name with
        | some old =>
            rw [map_fst_setChild hlookup]
            exact hapart
        | none =>
            rw [map_fst_setChild_of_none hlookup, List.nodup_append']
            exact ⟨hapart, List.nodup_singleton name,
              List.disjoint_singleton.2 (not_mem_of_lookup hlookup)⟩
      · intro child hchild
        obtain rfl | hchild := mem_setChild hchild
        · exact hname
        · exact hnames child hchild
      · intro child hchild
        obtain rfl | hchild := mem_setChild hchild
        · exact hentry
        · exact hbelow child hchild

/-- What is put into a directory that is there leaves a sound tree. -/
theorem Sound.set {tree : Entry} (hsound : tree.Sound) {names : List String}
    {siblings : List (String × Entry)} (hdirectory : tree.get? names = some (.directory siblings))
    {name : String} (hname : IsFileName name) {entry : Entry} (hentry : entry.Sound) :
    (tree.set (names ++ [name]) entry).Sound := by
  induction names generalizing tree with
  | nil =>
      cases Option.some.inj hdirectory
      exact hsound.setChild hname hentry
  | cons first names ih =>
      obtain ⟨below, hbelow, hinside⟩ := Option.bind_eq_some_iff.1 hdirectory
      cases tree with
      | file content => cases hbelow
      | directory children =>
          have hmem := exists_mem_of_lookup hbelow
          have hparts := hsound
          cases hparts with
          | directory _ hnames hchildren =>
              rw [Entry.children] at hbelow
              rw [List.cons_append, Entry.set, Entry.children, hbelow, Option.getD_some]
              exact hsound.setChild (hnames _ hmem) (ih (hchildren _ hmem) hinside)

section Names

variable {tree after : Entry} {here : List String} {path : Path}

theorem name_mem_parts (hparts : path.parts ≠ []) : path.name ∈ path.parts := by
  rw [parts_eq_concat hparts]
  simp

theorem Sound.makeDirectory (hsound : tree.Sound) (hnames : ∀ name ∈ path.parts, IsFileName name)
    (h : tree.makeDirectory here path = .ok after) : after.Sound := by
  obtain ⟨names, siblings, hparts, hdirectory, -, rfl⟩ := exists_of_makeDirectory h
  exact hsound.set hdirectory (hnames _ (name_mem_parts hparts))
    (.directory (by simp) (by simp) (by simp))

theorem Sound.makeDirectories {fuel : Nat} (hsound : tree.Sound)
    (hnames : ∀ name ∈ path.parts, IsFileName name)
    (h : makeDirectories here fuel tree path = .ok after) : after.Sound := by
  apply @makeDirectories_keeps tree after here path Entry.Sound
    (fun path => ∀ name ∈ path.parts, IsFileName name) ?_ ?_ fuel hnames hsound h
  · intro path hnames name hname
    exact hnames name (List.mem_of_mem_dropLast hname)
  · intro tree after path hnames hsound hmade
    exact hsound.makeDirectory hnames hmade

theorem Sound.writeFile (hsound : tree.Sound) (habsolute : path.isAbsolute = true)
    (hnames : ∀ name ∈ path.parts, IsFileName name) (hparts : path.parts ≠ [])
    {content : List UInt8} (h : tree.writeFile here path content = .ok after) : after.Sound := by
  have hdots : ".." ∉ path.parts := fun hmem => (hnames _ hmem).ne_dots rfl
  obtain ⟨names, siblings, -, hdirectory, -, rfl⟩ := exists_of_writeFile habsolute hdots hparts h
  exact hsound.set hdirectory (hnames _ (name_mem_parts hparts)) (.file content)

end Names

/-! ## Files with the directories above them -/

/-- Puts a file at a path, making the directories above it. -/
def deposit (tree : Entry) (here : List String) (path : Path) (content : List UInt8) :
    Except FileFault Entry := do
  let made ← tree.ensureDirectory here path.parent
  made.writeFile here path content

/-- Puts files one after another. -/
def depositAll (tree : Entry) (here : List String) (files : List (Path × List UInt8)) :
    Except FileFault Entry :=
  files.foldlM (fun tree file => tree.deposit here file.1 file.2) tree

theorem deposit_eq_ok_iff {tree after : Entry} {here : List String} {path : Path}
    {content : List UInt8} :
    tree.deposit here path content = .ok after ↔
      ∃ made, tree.ensureDirectory here path.parent = .ok made ∧
        made.writeFile here path content = .ok after := by
  rw [deposit]
  cases tree.ensureDirectory here path.parent <;> simp [bind, Except.bind]

end Entry

/-- A path at which a file can be put: an absolute one of file names. -/
structure Path.IsPlace (path : Path) : Prop where
  absolute : path.isAbsolute = true
  ne_nil : path.parts ≠ []
  names : ∀ name ∈ path.parts, IsFileName name

theorem Path.IsPlace.dots {path : Path} (h : path.IsPlace) : ".." ∉ path.parts :=
  fun hmem => (h.names _ hmem).ne_dots rfl

namespace Entry

section Deposit

variable {tree after : Entry} {here : List String} {path : Path} {content : List UInt8}
  (hplace : path.IsPlace)

include hplace

/-- What a file that was put into a tree has changed. -/
theorem kind?_deposit (h : tree.deposit here path content = .ok after) :
    tree.Accepts path.parts ∧ after.kind? = kindsAfter tree.kind? path.parts content := by
  obtain ⟨made, hmade, hwritten⟩ := deposit_eq_ok_iff.1 h
  by_cases haccepts : tree.Accepts path.parts
  · obtain ⟨made', after', hmade', hwritten', hkinds⟩ := @exists_written tree here path
      hplace.absolute hplace.dots hplace.ne_nil content haccepts
    rw [hmade'] at hmade
    cases hmade
    rw [hwritten'] at hwritten
    cases hwritten
    exact ⟨haccepts, hkinds⟩
  · obtain ⟨fault, hfault⟩ | ⟨made', fault, hmade', hfault⟩ := @exists_fault tree here path
      hplace.absolute hplace.dots hplace.ne_nil content haccepts
    · rw [hfault] at hmade
      cases hmade
    · rw [hmade'] at hmade
      cases hmade
      rw [hfault] at hwritten
      cases hwritten

theorem Sound.deposit (hsound : tree.Sound) (h : tree.deposit here path content = .ok after) :
    after.Sound := by
  obtain ⟨made, hmade, hwritten⟩ := deposit_eq_ok_iff.1 h
  have hparent : ∀ name ∈ path.parent.parts, IsFileName name :=
    fun name hname => hplace.names name (List.mem_of_mem_dropLast hname)
  exact (hsound.makeDirectories hparent hmade).writeFile hplace.absolute hplace.names hplace.ne_nil
    hwritten

/-- A file that is there already can be put there, which changes nothing. -/
theorem deposit_of_there (hfile : tree.fileAt? path.parts = some content) :
    tree.deposit here path content = .ok tree := by
  obtain ⟨entry, hentry, hcontent⟩ := Option.bind_eq_some_iff.1 hfile
  have hparent : tree.kind? path.parent.parts = some none :=
    kind?_above hentry (List.dropLast_prefix _) fun heq =>
      not_prefix_parent hplace.ne_nil (heq ▸ List.prefix_rfl)
  have hmark : path.parent.isAbsolute = true := hplace.absolute
  have hdots : ".." ∉ path.parent.parts := fun hmem => hplace.dots (List.mem_of_mem_dropLast hmem)
  rw [deposit_eq_ok_iff]
  refine ⟨tree, ?_, ?_⟩
  · rw [ensureDirectory, makeDirectories, makeDirectory, locate_of_kind? hmark hdots hparent]
    simp only
    rw [if_pos ((directoryExists_iff hmark hdots).2 hparent)]
  · rw [writeFile, modifyFile,
      locate_of_kind? hplace.absolute hplace.dots (kind?_eq_file_iff.2 hfile)]
    cases entry with
    | directory children => cases hcontent
    | file bytes =>
        cases hcontent
        simp only [hentry]
        rw [set_of_get? hentry]

end Deposit

section DepositAll

variable {tree after : Entry} {here : List String} {files : List (Path × List UInt8)}

theorem depositAll_append (tree : Entry) (here : List String) (files others : List (Path × List UInt8)) :
    tree.depositAll here (files ++ others) =
      (tree.depositAll here files).bind fun middle => middle.depositAll here others :=
  List.foldlM_append

theorem depositAll_cons (tree : Entry) (here : List String) (file : Path × List UInt8)
    (files : List (Path × List UInt8)) :
    tree.depositAll here (file :: files) =
      (tree.deposit here file.1 file.2).bind fun middle => middle.depositAll here files :=
  List.foldlM_cons

theorem depositAll_cons_eq_ok_iff {file : Path × List UInt8} :
    tree.depositAll here (file :: files) = .ok after ↔
      ∃ middle, tree.deposit here file.1 file.2 = .ok middle ∧
        middle.depositAll here files = .ok after := by
  rw [depositAll_cons]
  cases tree.deposit here file.1 file.2 <;> simp [Except.bind]

variable (hplaces : ∀ file ∈ files, file.1.IsPlace)

include hplaces

/-- Depositing files leaves every directory in place. -/
theorem directory_of_depositAll (h : tree.depositAll here files = .ok after) {names : List String}
    (hnames : tree.kind? names = some none) : after.kind? names = some none := by
  induction files generalizing tree with
  | nil =>
      cases h
      exact hnames
  | cons file files ih =>
      rw [List.forall_mem_cons] at hplaces
      obtain ⟨middle, hfirst, hrest⟩ := depositAll_cons_eq_ok_iff.1 h
      obtain ⟨haccepts, hkinds⟩ := kind?_deposit hplaces.1 hfirst
      apply ih hplaces.2 hrest
      have hne : names ≠ file.1.parts := by
        rintro rfl
        exact haccepts.free hnames
      rw [hkinds, kindsAfter, if_neg hne, hnames, ite_self]

/-- Above the place of a file there are directories. -/
theorem directory_above_depositAll (h : tree.depositAll here files = .ok after)
    {file : Path × List UInt8} (hfile : file ∈ files) {names : List String}
    (habove : names <+: file.1.parts) (hne : names ≠ file.1.parts) :
    after.kind? names = some none := by
  induction files generalizing tree with
  | nil => cases hfile
  | cons first files ih =>
      rw [List.forall_mem_cons] at hplaces
      obtain ⟨middle, hfirst, hrest⟩ := depositAll_cons_eq_ok_iff.1 h
      obtain rfl | hfile := List.mem_cons.1 hfile
      · apply directory_of_depositAll hplaces.2 hrest
        rw [(kind?_deposit hplaces.1 hfirst).2, kindsAfter, if_neg hne, if_pos habove]
      · exact ih hplaces.2 hrest hfile

/-- What is neither at nor above a place of the files is as it was. -/
theorem kind?_depositAll (h : tree.depositAll here files = .ok after) {names : List String}
    (hnames : ∀ file ∈ files, ¬ names <+: file.1.parts) : after.kind? names = tree.kind? names := by
  induction files generalizing tree with
  | nil =>
      cases h
      rfl
  | cons file files ih =>
      rw [List.forall_mem_cons] at hplaces hnames
      obtain ⟨middle, hfirst, hrest⟩ := depositAll_cons_eq_ok_iff.1 h
      rw [ih hplaces.2 hrest hnames.2, (kind?_deposit hplaces.1 hfirst).2, kindsAfter,
        if_neg, if_neg hnames.1]
      rintro rfl
      exact hnames.1 List.prefix_rfl

theorem Sound.depositAll (hsound : tree.Sound) (h : tree.depositAll here files = .ok after) :
    after.Sound := by
  induction files generalizing tree with
  | nil =>
      cases h
      exact hsound
  | cons file files ih =>
      rw [List.forall_mem_cons] at hplaces
      obtain ⟨middle, hfirst, hrest⟩ := depositAll_cons_eq_ok_iff.1 h
      exact ih hplaces.2 (hsound.deposit hplaces.1 hfirst) hrest

theorem depositAll_of_there (hthere : ∀ file ∈ files, tree.fileAt? file.1.parts = some file.2) :
    tree.depositAll here files = .ok tree := by
  induction files with
  | nil => rfl
  | cons file files ih =>
      rw [List.forall_mem_cons] at hplaces hthere
      rw [depositAll_cons, deposit_of_there hplaces.1 hthere.1]
      exact ih hplaces.2 hthere.2

end DepositAll

end Entry

end Fakery
