import Fakery.Files.Change
import Mathlib.Logic.Function.Basic
import Mathlib.Tactic

/-!
# What file operations change

A tree is seen as the files in it: a map from lists of names to contents.  Making
directories leaves this map alone, and writing a file changes it at one place.
-/

namespace Fakery

/-- A name that a directory can hold. -/
structure IsFileName (name : String) : Prop where
  ne_empty : name ≠ ""
  ne_dot : name ≠ "."
  ne_dots : name ≠ ".."
  not_mem : '/' ∉ name.toList

instance (name : String) : Decidable (IsFileName name) :=
  decidable_of_iff (name ≠ "" ∧ name ≠ "." ∧ name ≠ ".." ∧ '/' ∉ name.toList)
    ⟨fun ⟨hempty, hdot, hdots, hslash⟩ => ⟨hempty, hdot, hdots, hslash⟩,
      fun h => ⟨h.ne_empty, h.ne_dot, h.ne_dots, h.not_mem⟩⟩

namespace Entry

/-- Every directory holds names, and none twice. -/
inductive Sound : Entry → Prop
  | file (content : List UInt8) : Sound (.file content)
  | directory {children : List (String × Entry)} (apart : (children.map Prod.fst).Nodup)
      (names : ∀ child ∈ children, IsFileName child.1)
      (below : ∀ child ∈ children, Sound child.2) : Sound (.directory children)

def fileAt? (tree : Entry) (names : List String) : Option (List UInt8) :=
  (tree.get? names).bind content?

/-- What stands at a list of names: nothing, a directory, or a file with its content. -/
def kind? (tree : Entry) (names : List String) : Option (Option (List UInt8)) :=
  (tree.get? names).map content?

theorem fileAt?_eq_join (tree : Entry) (names : List String) :
    tree.fileAt? names = (tree.kind? names).join := by
  rw [fileAt?, kind?]
  cases tree.get? names <;> rfl

theorem exists_mem_of_lookup {children : List (String × Entry)} {name : String} {entry : Entry}
    (h : children.lookup name = some entry) : (name, entry) ∈ children := by
  obtain ⟨before, after, rfl, -⟩ := List.lookup_eq_some_iff.1 h
  simp

/-- Whatever is reached in a sound tree is sound, and is reached by file names. -/
theorem Sound.names_of_get? {tree entry : Entry} {names : List String} (htree : tree.Sound)
    (h : tree.get? names = some entry) :
    entry.Sound ∧ ∀ name ∈ names, IsFileName name := by
  induction names generalizing tree with
  | nil =>
      rw [get?, Option.some.injEq] at h
      exact ⟨h ▸ htree, by simp⟩
  | cons name names ih =>
      obtain ⟨child, hchild, hbelow⟩ := Option.bind_eq_some_iff.1 h
      have hmem := exists_mem_of_lookup hchild
      cases htree with
      | file content => simp [children] at hmem
      | directory _ hnames hsound =>
          obtain ⟨hentry, hrest⟩ := ih (hsound _ hmem) hbelow
          exact ⟨hentry, List.forall_mem_cons.2 ⟨hnames _ hmem, hrest⟩⟩

theorem Sound.names_of_fileAt? {tree : Entry} {names : List String} {content : List UInt8}
    (htree : tree.Sound) (h : tree.fileAt? names = some content) :
    ∀ name ∈ names, IsFileName name := by
  obtain ⟨found, hfound, -⟩ := Option.bind_eq_some_iff.1 h
  exact (htree.names_of_get? hfound).2

theorem get?_append (left right : List String) (tree : Entry) :
    tree.get? (left ++ right) = (tree.get? left).bind (get? right) := by
  induction left generalizing tree with
  | nil => rfl
  | cons name left ih =>
      rw [List.cons_append, get?, get?, Option.bind_assoc]
      congr 1
      funext below
      exact ih below

theorem get?_concat (names : List String) (name : String) (tree : Entry) :
    tree.get? (names ++ [name]) = (tree.get? names).bind (·.children.lookup name) := by
  rw [get?_append]
  congr 1
  funext below
  simp [get?]

theorem lookup_cons_eq (name first : String) (entry : Entry) (children : List (String × Entry)) :
    ((first, entry) :: children).lookup name =
      if name = first then some entry else children.lookup name := by
  rw [List.lookup_cons]
  by_cases h : name = first
  · simp [h]
  · rw [beq_eq_false_iff_ne.2 h, if_neg h]

theorem lookup_setChild (name other : String) (entry : Entry) (children : List (String × Entry)) :
    (setChild name entry children).lookup other =
      if other = name then some entry else children.lookup other := by
  induction children with
  | nil => rw [setChild, lookup_cons_eq]
  | cons child children ih =>
      obtain ⟨first, old⟩ := child
      rw [setChild]
      by_cases hfirst : first = name
      · rw [if_pos (by simpa using hfirst), lookup_cons_eq, lookup_cons_eq, hfirst]
        by_cases h : other = name <;> simp [h]
      · rw [if_neg (by simpa using hfirst), lookup_cons_eq, ih, lookup_cons_eq]
        by_cases h : other = name
        · simp [h, Ne.symm hfirst]
        · simp [h]

/-- What is put at a place is found there. -/
theorem get?_set (tree entry : Entry) (names rest : List String) :
    (tree.set names entry).get? (names ++ rest) = entry.get? rest := by
  induction names generalizing tree with
  | nil => rfl
  | cons name names ih =>
      rw [set, List.cons_append, get?, children, lookup_setChild, if_pos rfl]
      exact ih _

/-- Below a directory that is there, an entry put at a place changes nothing outside of it. -/
theorem kind?_set_of_outside {tree : Entry} {names : List String}
    {siblings : List (String × Entry)} (hdirectory : tree.get? names = some (.directory siblings))
    (name : String) (entry : Entry) {place : List String} (hplace : ¬ names ++ [name] <+: place) :
    (tree.set (names ++ [name]) entry).kind? place = tree.kind? place := by
  induction names generalizing tree place with
  | nil =>
      rw [get?, Option.some.injEq] at hdirectory
      subst hdirectory
      cases place with
      | nil => rfl
      | cons other place =>
          have hother : other ≠ name := by
            rintro rfl
            exact hplace (by simp)
          simp [set, kind?, get?, children, lookup_setChild, hother]
  | cons first names ih =>
      obtain ⟨below, hbelow, hinside⟩ := Option.bind_eq_some_iff.1 hdirectory
      cases tree with
      | file content => simp [children] at hbelow
      | directory all =>
          rw [children] at hbelow
          cases place with
          | nil => rfl
          | cons other place =>
              rw [List.cons_append, set, kind?, get?, children, lookup_setChild, kind?, get?,
                children, hbelow]
              by_cases hother : other = first
              · subst hother
                rw [if_pos rfl, hbelow]
                exact ih hinside (fun h => hplace (by simpa using h))
              · rw [if_neg hother]

/-- An entry without children takes the place of a file, or of nothing. -/
theorem kind?_set {tree : Entry} {names : List String} {name : String}
    {siblings : List (String × Entry)} (hdirectory : tree.get? names = some (.directory siblings))
    (hold : ∀ old, tree.get? (names ++ [name]) = some old → old.isDirectory = false)
    (entry : Entry) (hentry : entry.children = []) :
    (tree.set (names ++ [name]) entry).kind? =
      Function.update tree.kind? (names ++ [name]) (some entry.content?) := by
  funext place
  by_cases hplace : names ++ [name] <+: place
  · obtain ⟨rest, rfl⟩ := hplace
    rw [kind?, get?_set]
    cases rest with
    | nil => simp [get?]
    | cons next rest =>
        rw [Function.update_of_ne (by simp), get?, hentry, kind?, get?_append]
        rcases hfound : tree.get? (names ++ [name]) with _ | old | inside
        · rfl
        · rfl
        · simpa [isDirectory] using hold _ hfound
  · have hne : place ≠ names ++ [name] := by
      rintro rfl
      exact hplace List.prefix_rfl
    rw [Function.update_of_ne hne]
    exact kind?_set_of_outside hdirectory name _ hplace

/-- A new directory is empty. -/
theorem fileAt?_set_directory {tree : Entry} {names : List String} {name : String}
    {siblings : List (String × Entry)} (hdirectory : tree.get? names = some (.directory siblings))
    (hnew : tree.get? (names ++ [name]) = none) :
    (tree.set (names ++ [name]) (.directory [])).fileAt? = tree.fileAt? := by
  have hold : ∀ old, tree.get? (names ++ [name]) = some old → old.isDirectory = false := by
    simp [hnew]
  have hkind := kind?_set hdirectory hold (.directory []) rfl
  funext place
  rw [fileAt?_eq_join, fileAt?_eq_join, hkind]
  by_cases hplace : place = names ++ [name]
  · simp [hplace, kind?, hnew, content?]
  · rw [Function.update_of_ne hplace]

/-- A file takes the place of a file, or of nothing. -/
theorem fileAt?_set_file {tree : Entry} {names : List String} {name : String}
    {siblings : List (String × Entry)} (hdirectory : tree.get? names = some (.directory siblings))
    (hold : ∀ old, tree.get? (names ++ [name]) = some old → old.isDirectory = false)
    (content : List UInt8) :
    (tree.set (names ++ [name]) (.file content)).fileAt? =
      Function.update tree.fileAt? (names ++ [name]) (some content) := by
  have hkind := kind?_set hdirectory hold (.file content) rfl
  funext place
  rw [fileAt?_eq_join, hkind]
  by_cases hplace : place = names ++ [name]
  · simp [hplace, content?]
  · rw [Function.update_of_ne hplace, Function.update_of_ne hplace, fileAt?_eq_join]

theorem follow_eq_ok_iff {tree : Entry} {names found : List String} {part : String}
    (hpart : part ≠ "..") :
    tree.follow names part = .ok found ↔
      found = names ++ [part] ∧ (tree.get? (names ++ [part])).isSome := by
  rw [follow, get?_concat]
  rcases tree.get? names with _ | content | inside
  · simp
  · simp [children]
  · simp only [beq_iff_eq, hpart, if_false, Option.bind_some, children]
    cases inside.lookup part with
    | none => simp
    | some child => simpa using eq_comm

theorem get?_eq_none_of_follow {tree : Entry} {names : List String} {part : String}
    {siblings : List (String × Entry)} (hdirectory : tree.get? names = some (.directory siblings))
    (h : tree.follow names part = .error .notFound) : tree.get? (names ++ [part]) = none := by
  rw [follow, hdirectory] at h
  rw [get?_concat, hdirectory, Option.bind_some, children]
  by_contra hfound
  simp only [Option.isSome_iff_ne_none.2 hfound, if_true] at h
  split at h <;> cases h

theorem exists_directory_of_get? {tree entry : Entry} {names : List String} {name : String}
    (h : tree.get? (names ++ [name]) = some entry) :
    ∃ siblings, tree.get? names = some (.directory siblings) := by
  rw [get?_concat] at h
  obtain ⟨parent, hparent, hchild⟩ := Option.bind_eq_some_iff.1 h
  cases parent with
  | file content => simp [children] at hchild
  | directory siblings => exact ⟨siblings, hparent⟩

/-- Parts without `..` are followed exactly if they lead to an entry. -/
theorem foldlM_follow_eq_ok_iff {tree : Entry} {start parts found : List String}
    (hstart : (tree.get? start).isSome) (hparts : ".." ∉ parts) :
    parts.foldlM (follow tree) start = .ok found ↔
      found = start ++ parts ∧ (tree.get? (start ++ parts)).isSome := by
  induction parts generalizing start with
  | nil => simpa [hstart, pure, Except.pure] using eq_comm
  | cons part parts ih =>
      rw [List.mem_cons, not_or] at hparts
      rw [List.foldlM_cons]
      have happend : start ++ part :: parts = (start ++ [part]) ++ parts := by simp
      cases hfollow : tree.follow start part with
      | ok next =>
          obtain ⟨rfl, hnext⟩ := (follow_eq_ok_iff (Ne.symm hparts.1)).1 hfollow
          rw [happend]
          exact ih hnext hparts.2
      | error kind =>
          constructor
          · intro h
            cases h
          · rintro ⟨-, hfound⟩
            -- a place that exists has all the directories on its way
            have hnext : (tree.get? (start ++ [part])).isSome := by
              rw [happend, get?_append] at hfound
              exact Option.isSome_of_isSome_bind hfound
            rw [(follow_eq_ok_iff (Ne.symm hparts.1)).2 ⟨rfl, hnext⟩] at hfollow
            cases hfollow

section Absolute

variable {tree after : Entry} {here : List String} {path : Path}

/-- An absolute path without `..` leads to its own parts. -/
theorem locate_eq_ok_iff (habsolute : path.isAbsolute = true) (hparts : ".." ∉ path.parts)
    {names : List String} :
    tree.locate here path = .ok names ↔
      names = path.parts ∧ (tree.get? path.parts).isSome := by
  rw [locate, if_pos habsolute]
  have hroot : (tree.get? []).isSome := rfl
  simpa using foldlM_follow_eq_ok_iff hroot hparts

/-- Reading an absolute path without `..` gives the file at its parts. -/
theorem readFile_eq_ok_iff (habsolute : path.isAbsolute = true) (hparts : ".." ∉ path.parts)
    {content : List UInt8} :
    tree.readFile here path = .ok content ↔ tree.fileAt? path.parts = some content := by
  rw [readFile, stat, fileAt?]
  cases hlocate : tree.locate here path with
  | ok names =>
      obtain ⟨rfl, -⟩ := (locate_eq_ok_iff habsolute hparts).1 hlocate
      simp only
      rcases tree.get? path.parts with _ | _ | _ <;> simp [content?]
  | error kind =>
      have hnone : tree.get? path.parts = none := by
        by_contra hsome
        rw [(locate_eq_ok_iff habsolute hparts).2
          ⟨rfl, Option.isSome_iff_ne_none.2 hsome⟩] at hlocate
        cases hlocate
      simp [hnone]

theorem parts_eq_concat (hparts : path.parts ≠ []) :
    path.parts = path.parent.parts ++ [path.name] := by
  rw [Path.parent, Path.name, List.getLast?_eq_some_getLast hparts, Option.getD_some,
    List.dropLast_append_getLast]

theorem locate_eq_bind (hparts : path.parts ≠ []) :
    tree.locate here path =
      (tree.locate here path.parent).bind fun names => tree.follow names path.name := by
  have hmark : path.parent.isAbsolute = path.isAbsolute := rfl
  rw [locate, parts_eq_concat hparts, List.foldlM_append, locate, hmark]
  simp only [List.foldlM_cons, List.foldlM_nil, bind_pure]
  rfl

/-- A directory is made below one that is there, where nothing is. -/
theorem exists_of_makeDirectory (h : tree.makeDirectory here path = .ok after) :
    ∃ names siblings, path.parts ≠ [] ∧ tree.get? names = some (.directory siblings) ∧
      tree.get? (names ++ [path.name]) = none ∧
      after = tree.set (names ++ [path.name]) (.directory []) := by
  unfold makeDirectory at h
  split at h
  next => cases h
  next hmissing =>
    split at h
    next => cases h
    next names hparent =>
      split at h
      next siblings hdirectory =>
        -- the root is always there, so that the path has a last part
        have hparts : path.parts ≠ [] := by
          intro hnil
          simp [locate, hnil, pure, Except.pure] at hmissing
        have hnew : tree.get? (names ++ [path.name]) = none := by
          rw [locate_eq_bind hparts, hparent] at hmissing
          exact get?_eq_none_of_follow hdirectory hmissing
        exact ⟨names, siblings, hparts, hdirectory, hnew, (Except.ok.inj h).symm⟩
      next => cases h
      next => cases h
  next => cases h

/-- Making a directory changes no file. -/
theorem fileAt?_makeDirectory (h : tree.makeDirectory here path = .ok after) :
    after.fileAt? = tree.fileAt? := by
  obtain ⟨names, siblings, -, hdirectory, hnew, rfl⟩ := exists_of_makeDirectory h
  exact fileAt?_set_directory hdirectory hnew

/-- What making one directory keeps, making a directory and those above it keeps. -/
theorem makeDirectories_keeps {p : Entry → Prop} {q : Path → Prop}
    (habove : ∀ path, q path → q path.parent)
    (hstep : ∀ tree after path, q path → p tree → tree.makeDirectory here path = .ok after → p after)
    {fuel : Nat} (hpath : q path) (htree : p tree)
    (h : makeDirectories here fuel tree path = .ok after) : p after := by
  induction fuel generalizing tree path after with
  | zero =>
      cases h
      exact htree
  | succ fuel ih =>
      unfold makeDirectories at h
      split at h
      next made hmade =>
        cases h
        exact hstep _ _ _ hpath htree hmade
      next =>
        cases hparent : makeDirectories here fuel tree path.parent with
        | error fault =>
            rw [hparent] at h
            cases h
        | ok middle =>
            rw [hparent] at h
            exact ih hpath (ih (habove _ hpath) htree hparent) h
      next =>
        split at h
        · cases h
          exact htree
        · cases h

theorem fileAt?_makeDirectories {fuel : Nat} (h : makeDirectories here fuel tree path = .ok after) :
    after.fileAt? = tree.fileAt? := by
  apply @makeDirectories_keeps tree after here path (fun other => other.fileAt? = tree.fileAt?)
    (fun _ => True) (fun _ _ => trivial) ?_ fuel trivial rfl h
  intro before made path _ hsame hmade
  rw [fileAt?_makeDirectory hmade, hsame]

/-- A file is written below a directory that is there, where no directory is. -/
theorem exists_of_writeFile (habsolute : path.isAbsolute = true) (hdots : ".." ∉ path.parts)
    (hparts : path.parts ≠ []) {content : List UInt8}
    (h : tree.writeFile here path content = .ok after) :
    ∃ names siblings, path.parts = names ++ [path.name] ∧
      tree.get? names = some (.directory siblings) ∧
      (∀ other, tree.get? (names ++ [path.name]) = some other → other.isDirectory = false) ∧
      after = tree.set (names ++ [path.name]) (.file content) := by
  have hconcat := parts_eq_concat hparts
  unfold writeFile modifyFile at h
  split at h
  next names hlocate =>
    obtain ⟨rfl, -⟩ := (locate_eq_ok_iff habsolute hdots).1 hlocate
    split at h
    next old hold =>
      rw [hconcat] at hold h
      obtain ⟨siblings, hdirectory⟩ := exists_directory_of_get? hold
      refine ⟨_, siblings, hconcat, hdirectory, ?_, (Except.ok.inj h).symm⟩
      intro other hother
      rw [hold, Option.some.injEq] at hother
      rw [← hother, isDirectory]
    next => cases h
  next hmissing =>
    split at h
    next names hparent =>
      have habove : ".." ∉ path.parent.parts := fun hmem => hdots (List.mem_of_mem_dropLast hmem)
      have hmark : path.parent.isAbsolute = true := habsolute
      obtain ⟨rfl, -⟩ := (locate_eq_ok_iff hmark habove).1 hparent
      split at h
      next siblings hdirectory =>
        rw [locate_eq_bind hparts, hparent] at hmissing
        have hnew := get?_eq_none_of_follow hdirectory hmissing
        refine ⟨_, siblings, hconcat, hdirectory, ?_, (Except.ok.inj h).symm⟩
        intro other hother
        rw [hnew] at hother
        cases hother
      next => cases h
    next => cases h
  next => cases h

/-- Writing a file changes that file alone. -/
theorem fileAt?_writeFile (habsolute : path.isAbsolute = true) (hdots : ".." ∉ path.parts)
    (hparts : path.parts ≠ []) {content : List UInt8}
    (h : tree.writeFile here path content = .ok after) :
    after.fileAt? = Function.update tree.fileAt? path.parts (some content) := by
  obtain ⟨names, siblings, hplace, hdirectory, hold, rfl⟩ :=
    exists_of_writeFile habsolute hdots hparts h
  rw [hplace]
  exact fileAt?_set_file hdirectory hold content

end Absolute

end Entry

end Fakery
