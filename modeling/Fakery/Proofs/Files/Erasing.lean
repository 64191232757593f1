import Fakery.Proofs.Files.Writing

/-!
# A tree without one of its files

Taking a file away changes what stands at its place and nothing else.  What stands along a
path decides what reading the path gives.
-/

namespace Fakery

namespace Entry

theorem lookup_filter (children : List (String × Entry)) (name other : String) :
    (children.filter (·.1 != name)).lookup other =
      if other = name then none else children.lookup other := by
  induction children with
  | nil => simp
  | cons child children ih =>
      obtain ⟨first, entry⟩ := child
      rw [List.filter_cons, lookup_cons_eq]
      by_cases hfirst : first = name
      · rw [if_neg (by simpa using hfirst), ih, hfirst]
        by_cases hother : other = name <;> simp [hother]
      · rw [if_pos (by simpa using hfirst), lookup_cons_eq, ih]
        by_cases hother : other = name
        · simp [hother, Ne.symm hfirst]
        · simp [hother]

theorem map_fst_setChild {children : List (String × Entry)} {name : String} {old : Entry}
    (h : children.lookup name = some old) (entry : Entry) :
    (setChild name entry children).map Prod.fst = children.map Prod.fst := by
  induction children with
  | nil => cases h
  | cons child children ih =>
      obtain ⟨first, found⟩ := child
      rw [lookup_cons_eq] at h
      rw [setChild]
      by_cases hfirst : first = name
      · simp [hfirst]
      · rw [if_neg (Ne.symm hfirst)] at h
        rw [if_neg (by simpa using hfirst), List.map_cons, ih h, List.map_cons]

theorem mem_setChild {children : List (String × Entry)} {name : String} {entry : Entry}
    {child : String × Entry} (h : child ∈ setChild name entry children) :
    child = (name, entry) ∨ child ∈ children := by
  induction children with
  | nil => exact .inl (List.mem_singleton.1 h)
  | cons first children ih =>
      rw [setChild] at h
      split at h
      · exact (List.mem_cons.1 h).imp_right (List.mem_cons_of_mem _)
      · obtain rfl | h := List.mem_cons.1 h
        · exact .inr List.mem_cons_self
        · exact (ih h).imp_right (List.mem_cons_of_mem _)

/-- The children of a directory from which something was taken away. -/
theorem exists_erase_cons {children : List (String × Entry)} {name : String} {below : Entry}
    (hbelow : children.lookup name = some below) (rest : List String) :
    ∃ after, (Entry.directory children).erase (name :: rest) = .directory after ∧
      ∀ other, after.lookup other = if other = name then
          if rest = [] then none else some (below.erase rest)
        else children.lookup other := by
  cases rest with
  | nil => exact ⟨_, rfl, fun other => lookup_filter children name other⟩
  | cons next rest =>
      refine ⟨setChild name (below.erase (next :: rest)) children, ?_, ?_⟩
      · rw [erase]
        · rw [Entry.children, hbelow]
        · simp
      · intro other
        rw [lookup_setChild, if_neg (List.cons_ne_nil next rest)]

theorem kind?_directory (children : List (String × Entry)) (name : String) (place : List String) :
    (Entry.directory children).kind? (name :: place) =
      (children.lookup name).bind (·.kind? place) := by
  rw [kind?, get?, Entry.children, Option.map_bind]
  rfl

theorem kind?_of_content {entry : Entry} {content : List UInt8}
    (h : entry.content? = some content) {place : List String} (hplace : place ≠ []) :
    entry.kind? place = none := by
  obtain ⟨name, place, rfl⟩ := List.exists_cons_of_ne_nil hplace
  cases entry with
  | directory children => cases h
  | file other => rfl

/-- Taking a file away leaves nothing at its place, and all else as it is. -/
theorem kind?_erase {tree : Entry} {names : List String} (hnames : names ≠ [])
    {content : List UInt8} (hfile : tree.fileAt? names = some content) :
    (tree.erase names).kind? = Function.update tree.kind? names none := by
  induction names generalizing tree with
  | nil => exact absurd rfl hnames
  | cons name rest ih =>
      obtain ⟨entry, hentry, hcontent⟩ := Option.bind_eq_some_iff.1 hfile
      obtain ⟨below, hbelow, hinside⟩ := Option.bind_eq_some_iff.1 hentry
      cases tree with
      | file other => cases hbelow
      | directory children =>
          rw [Entry.children] at hbelow
          obtain ⟨after, hafter, hlookup⟩ := exists_erase_cons hbelow rest
          rw [hafter]
          funext place
          cases place with
          | nil => rfl
          | cons other place =>
              rw [kind?_directory, hlookup]
              by_cases hother : other = name
              · subst hother
                rw [if_pos rfl]
                have hthere : (Entry.directory children).kind? (other :: place) = below.kind? place := by
                  rw [kind?_directory, hbelow, Option.bind_some]
                by_cases hrest : rest = []
                · subst hrest
                  cases Option.some.inj hinside
                  rw [if_pos rfl, Option.bind_none]
                  by_cases hplace : place = []
                  · rw [hplace, Function.update_self]
                  · rw [Function.update_of_ne (by simpa using hplace), hthere,
                      kind?_of_content hcontent hplace]
                · have hinner : below.fileAt? rest = some content := by
                    rw [fileAt?, hinside]
                    exact hcontent
                  rw [if_neg hrest, Option.bind_some, ih hrest hinner]
                  by_cases hplace : place = rest
                  · rw [hplace, Function.update_self, Function.update_self]
                  · rw [Function.update_of_ne hplace, Function.update_of_ne (by simpa using hplace),
                      hthere]
              · rw [if_neg hother, Function.update_of_ne (by simp [hother]), kind?_directory]

theorem fileAt?_erase {tree : Entry} {names : List String} (hnames : names ≠ [])
    {content : List UInt8} (hfile : tree.fileAt? names = some content) :
    (tree.erase names).fileAt? = Function.update tree.fileAt? names none := by
  funext place
  rw [fileAt?_eq_join, kind?_erase hnames hfile]
  by_cases hplace : place = names
  · rw [hplace, Function.update_self, Function.update_self]
    rfl
  · rw [Function.update_of_ne hplace, Function.update_of_ne hplace, fileAt?_eq_join]

/-- What is taken away below a place is taken away from what stands there. -/
theorem get?_erase {tree entry : Entry} {names below : List String} (hbelow : below ≠ [])
    (h : tree.get? names = some entry) :
    (tree.erase (names ++ below)).get? names = some (entry.erase below) := by
  induction names generalizing tree with
  | nil =>
      cases Option.some.inj h
      rfl
  | cons name names ih =>
      obtain ⟨child, hchild, hrest⟩ := Option.bind_eq_some_iff.1 h
      cases tree with
      | file content => cases hchild
      | directory children =>
          rw [Entry.children] at hchild
          obtain ⟨after, hafter, hlookup⟩ := exists_erase_cons hchild (names ++ below)
          rw [List.cons_append, hafter, get?, Entry.children, hlookup, if_pos rfl,
            if_neg (by simp [hbelow])]
          exact ih hrest

theorem isDirectory_erase {entry : Entry} (h : entry.isDirectory = true) (names : List String) :
    (entry.erase names).isDirectory = true := by
  unfold erase
  split
  · exact h
  · rfl
  · split
    · rfl
    · exact h

/-- Erasing a file keeps a tree sound. -/
theorem Sound.erase {tree : Entry} (hsound : tree.Sound) {names : List String} {content : List UInt8}
    (hfile : tree.fileAt? names = some content) : (tree.erase names).Sound := by
  induction names generalizing tree with
  | nil => exact hsound
  | cons name rest ih =>
      obtain ⟨entry, hentry, hcontent⟩ := Option.bind_eq_some_iff.1 hfile
      obtain ⟨below, hbelow, hinside⟩ := Option.bind_eq_some_iff.1 hentry
      cases hsound with
      | file other => cases hbelow
      | @directory children hapart hnames hchildren =>
          rw [Entry.children] at hbelow
          cases rest with
          | nil =>
              refine .directory (hapart.sublist (List.filter_sublist.map _)) ?_ ?_
              · exact fun child hchild => hnames child (List.mem_of_mem_filter hchild)
              · exact fun child hchild => hchildren child (List.mem_of_mem_filter hchild)
          | cons next rest =>
              have hmem := exists_mem_of_lookup hbelow
              have hinner : below.fileAt? (next :: rest) = some content := by
                rw [fileAt?, hinside]
                exact hcontent
              rw [Entry.erase]
              · rw [Entry.children, hbelow]
                refine .directory (by rw [map_fst_setChild hbelow]; exact hapart) ?_ ?_
                · intro child hchild
                  obtain rfl | hchild := mem_setChild hchild
                  · exact hnames (name, below) hmem
                  · exact hnames child hchild
                · intro child hchild
                  obtain rfl | hchild := mem_setChild hchild
                  · exact ih (hchildren _ hmem) hinner
                  · exact hchildren child hchild
              · simp

/-- A place that could take a file still can. -/
theorem Accepts.erase {tree : Entry} {names other : List String} (h : tree.Accepts other)
    (hnames : names ≠ []) {content : List UInt8} (hfile : tree.fileAt? names = some content) :
    (tree.erase names).Accepts other := by
  constructor
  · intro above habove hne
    rw [fileAt?_erase hnames hfile]
    by_cases heq : above = names
    · rw [heq, Function.update_self]
    · rw [Function.update_of_ne heq]
      exact h.clear above habove hne
  · rw [kind?_erase hnames hfile]
    by_cases heq : other = names
    · rw [heq, Function.update_self]
      simp
    · rw [Function.update_of_ne heq]
      exact h.free

/-! ## Reading -/

section Absolute

variable {tree other : Entry} {here : List String} {path : Path}
  (habsolute : path.isAbsolute = true) (hdots : ".." ∉ path.parts)

include habsolute hdots

theorem pathExists_eq : tree.pathExists here path = (tree.kind? path.parts).isSome := by
  rw [pathExists, kind?, Option.isSome_map]
  cases hstat : tree.stat here path with
  | ok entry =>
      rw [(stat_eq_ok_iff habsolute hdots).1 hstat]
      rfl
  | error kind =>
      cases hget : tree.get? path.parts with
      | none => rfl
      | some found =>
          rw [(stat_eq_ok_iff habsolute hdots).2 hget] at hstat
          cases hstat

/-- What stands along a path decides where it leads. -/
theorem locate_congr (h : ∀ above, above <+: path.parts → other.kind? above = tree.kind? above) :
    other.locate here path = tree.locate here path := by
  have hfile : ∀ above, above <+: path.parts → other.fileAt? above = tree.fileAt? above := by
    intro above habove
    rw [fileAt?_eq_join, fileAt?_eq_join, h above habove]
  have hkind := h path.parts List.prefix_rfl
  cases htree : tree.kind? path.parts with
  | some kind =>
      rw [htree] at hkind
      rw [locate_of_kind? habsolute hdots htree, locate_of_kind? habsolute hdots hkind]
  | none =>
      rw [htree] at hkind
      by_cases hclear : tree.Clear path.parts
      · have hclear' : other.Clear path.parts := by
          intro above habove
          rw [hfile above habove]
          exact hclear above habove
        rw [locate_of_missing habsolute hdots hclear htree,
          locate_of_missing habsolute hdots hclear' hkind]
      · unfold Clear at hclear
        push Not at hclear
        obtain ⟨above, habove, hne⟩ := hclear
        obtain ⟨content, hcontent⟩ := Option.ne_none_iff_exists'.1 hne
        have hproper : above ≠ path.parts := by
          rintro rfl
          rw [← kind?_eq_file_iff, htree] at hcontent
          cases hcontent
        rw [locate_of_file habsolute hdots hcontent habove hproper,
          locate_of_file habsolute hdots ((hfile above habove).trans hcontent) habove hproper]

theorem readFile_congr (h : ∀ above, above <+: path.parts → other.kind? above = tree.kind? above) :
    other.readFile here path = tree.readFile here path := by
  have hkind := h path.parts List.prefix_rfl
  rw [readFile, readFile, stat, stat, locate_congr habsolute hdots h]
  cases hlocate : tree.locate here path with
  | error kind => rfl
  | ok names =>
      obtain ⟨rfl, -⟩ := (locate_eq_ok_iff habsolute hdots).1 hlocate
      rw [kind?, kind?] at hkind
      simp only
      rcases htree : tree.get? path.parts with _ | content | children <;>
        rcases hother : other.get? path.parts with _ | content' | children' <;>
        simp_all [content?]

end Absolute

end Entry

end Fakery
