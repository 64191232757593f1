import Fakery.Proofs.Expansion.Declarations
import Fakery.Proofs.Source.Walk

/-!
# The walk as a preorder

A walk keeps its pending declarations in one list, and it ends: what it meets is the
preorder of the declarations, in which each comes before what is nested in it.  A path of
indices into the members leads to each type of a file, and the walk meets the types at the
ends of all paths, each path once.  If spans nest, it goes through the text from front to
back.
-/

namespace Fakery

namespace TypeDecl

/-! ## The preorder -/

theorem sizeOf_toMember (decl : TypeDecl) : sizeOf decl.toMember = sizeOf decl := by
  cases decl
  simp only [toMember, Member.type.sizeOf_spec, mk.sizeOf_spec]

theorem sizeOf_lt_of_nested {decl inner : TypeDecl} (h : inner ∈ decl.nested) :
    sizeOf inner < sizeOf decl := by
  have hsize : sizeOf decl.members + sizeOf decl.conditional < sizeOf decl := by
    cases decl
    simp only [mk.sizeOf_spec]
    omega
  rw [← sizeOf_toMember inner]
  rcases List.mem_append.1 (mem_nested.1 h) with h | h
  · have hlt := List.sizeOf_lt_of_mem h
    omega
  · have hlt := List.sizeOf_lt_of_mem h
    omega

/-- A declaration and then, type by type, the preorder of what is nested in it. -/
def preorder (decl : TypeDecl) : List TypeDecl :=
  decl :: decl.nested.attach.flatMap fun inner => inner.1.preorder
termination_by sizeOf decl
decreasing_by exact sizeOf_lt_of_nested inner.2

theorem preorder_eq (decl : TypeDecl) :
    decl.preorder = decl :: decl.nested.flatMap preorder := by
  rw [preorder]
  simp

theorem nested_induction {motive : TypeDecl → Prop}
    (step : ∀ decl, (∀ inner ∈ decl.nested, motive inner) → motive decl) (decl : TypeDecl) :
    motive decl :=
  step decl fun inner _ => nested_induction step inner
termination_by sizeOf decl
decreasing_by exact sizeOf_lt_of_nested ‹_›

/-! ## Paths -/

/-- The type that a path leads to.  Each of its indices picks one of all members, and a
path that picks anything but types leads nowhere. -/
def descend (decl : TypeDecl) : List Nat → Option TypeDecl
  | [] => some decl
  | i :: path =>
    ((decl.members ++ decl.conditional)[i]?.bind Member.typeDecl?).bind (·.descend path)

/-- The nested types with their indices among all members. -/
def nestedAt (decl : TypeDecl) : List (TypeDecl × Nat) :=
  ((decl.members ++ decl.conditional).zipIdx.mergeSort fun a b => a.1.start ≤ b.1.start).filterMap
    fun entry => entry.1.typeDecl?.map (·, entry.2)

theorem map_fst_nestedAt (decl : TypeDecl) : decl.nestedAt.map Prod.fst = decl.nested := by
  have hsort := @List.map_mergeSort _ _ (fun a b : Member × Nat => decide (a.1.start ≤ b.1.start))
    (fun a b : Member => decide (a.start ≤ b.start)) Prod.fst
    (decl.members ++ decl.conditional).zipIdx fun _ _ _ _ => rfl
  rw [List.zipIdx_map_fst] at hsort
  rw [nestedAt, nested, ← hsort, List.map_filterMap, List.filterMap_map]
  simp [Function.comp_def]

theorem mem_nestedAt {decl inner : TypeDecl} {i : Nat} :
    (inner, i) ∈ decl.nestedAt ↔
      (decl.members ++ decl.conditional)[i]?.bind Member.typeDecl? = some inner := by
  simp only [nestedAt, List.mem_filterMap, List.mem_mergeSort, List.mem_zipIdx_iff_getElem?,
    Option.map_eq_some_iff, Option.bind_eq_some_iff]
  constructor
  · rintro ⟨⟨m, j⟩, hm, found, hfound, heq⟩
    cases heq
    exact ⟨m, hm, hfound⟩
  · rintro ⟨m, hm, hinner⟩
    exact ⟨(m, i), hm, inner, hinner, rfl⟩

theorem pairwise_snd_zipIdx {α : Type} (items : List α) :
    items.zipIdx.Pairwise fun a b => a.2 ≠ b.2 := by
  rw [← List.pairwise_map (f := Prod.snd) (R := (· ≠ ·)), List.zipIdx_map_snd]
  exact List.nodup_range'

theorem nestedAt_apart (decl : TypeDecl) : decl.nestedAt.Pairwise fun a b => a.2 ≠ b.2 := by
  rw [nestedAt, List.pairwise_filterMap]
  have hperm := List.mergeSort_perm (decl.members ++ decl.conditional).zipIdx
    fun a b => decide (a.1.start ≤ b.1.start)
  refine ((hperm.pairwise_iff Ne.symm).2 (pairwise_snd_zipIdx _)).imp ?_
  intro a b hab left hleft right hright
  obtain ⟨_, -, rfl⟩ := Option.map_eq_some_iff.1 hleft
  obtain ⟨_, -, rfl⟩ := Option.map_eq_some_iff.1 hright
  exact hab

theorem mem_nested_of_nestedAt {decl : TypeDecl} {entry : TypeDecl × Nat}
    (h : entry ∈ decl.nestedAt) : entry.1 ∈ decl.nested := by
  rw [← map_fst_nestedAt]
  exact List.mem_map_of_mem h

/-- The paths to a declaration itself and to all types in it, in the order of the preorder. -/
def paths (decl : TypeDecl) : List (List Nat) :=
  [] :: decl.nestedAt.attach.flatMap fun entry => entry.1.1.paths.map (entry.1.2 :: ·)
termination_by sizeOf decl
decreasing_by exact sizeOf_lt_of_nested (mem_nested_of_nestedAt entry.2)

/-- The paths to types with given indices and to all types in them. -/
def pathsBelow (entries : List (TypeDecl × Nat)) : List (List Nat) :=
  entries.flatMap fun entry => entry.1.paths.map (entry.2 :: ·)

theorem paths_eq (decl : TypeDecl) : decl.paths = [] :: pathsBelow decl.nestedAt := by
  rw [paths, pathsBelow]
  conv_rhs => rw [← List.attach_map_subtype_val decl.nestedAt, List.flatMap_map]

/-- The type that a path leads to whose first index picks a declaration. -/
def follow (pick : Nat → Option TypeDecl) : List Nat → Option TypeDecl
  | [] => none
  | i :: path => (pick i).bind (·.descend path)

end TypeDecl

/-- The type of a file that a path leads to.  Its first index picks a declaration at the top. -/
def typeAt? (decls : List TypeDecl) : List Nat → Option TypeDecl :=
  TypeDecl.follow (decls[·]?)

/-- Paths lead to types in a given order.  All paths are there, and none comes behind a path
that it is the beginning of. -/
structure Enumerates (follow : List Nat → Option TypeDecl) (paths : List (List Nat))
    (types : List TypeDecl) : Prop where
  leads : paths.map follow = types.map some
  complete : ∀ path, (follow path).isSome = true → path ∈ paths
  outer_first : paths.Pairwise fun earlier later => ¬ later <+: earlier

namespace Enumerates

variable {follow : List Nat → Option TypeDecl} {paths : List (List Nat)} {types : List TypeDecl}

theorem nodup (h : Enumerates follow paths types) : paths.Nodup := by
  refine h.outer_first.imp fun {earlier later} hne => ?_
  rintro rfl
  exact hne (List.prefix_refl _)

theorem mem_iff (h : Enumerates follow paths types) {path : List Nat} :
    path ∈ paths ↔ (follow path).isSome = true := by
  refine ⟨fun hpath => ?_, h.complete path⟩
  have hmem : follow path ∈ types.map some := h.leads ▸ List.mem_map_of_mem hpath
  obtain ⟨type, -, htype⟩ := List.mem_map.1 hmem
  rw [← htype]
  rfl

/-- Paths through types that are enumerated each for itself. -/
theorem below {entries : List (TypeDecl × Nat)} {pick : Nat → Option TypeDecl}
    (hpick : ∀ type i, (type, i) ∈ entries ↔ pick i = some type)
    (hapart : entries.Pairwise fun a b => a.2 ≠ b.2)
    (heach : ∀ entry ∈ entries, Enumerates entry.1.descend entry.1.paths entry.1.preorder) :
    Enumerates (TypeDecl.follow pick) (TypeDecl.pathsBelow entries)
      ((entries.map Prod.fst).flatMap TypeDecl.preorder) where
  leads := by
    rw [TypeDecl.pathsBelow, List.map_flatMap, List.flatMap_map, List.map_flatMap]
    refine List.flatMap_congr fun entry hentry => ?_
    have hfollow : ∀ path, TypeDecl.follow pick (entry.2 :: path) = entry.1.descend path := by
      intro path
      rw [TypeDecl.follow, (hpick entry.1 entry.2).1 hentry, Option.bind_some]
    rw [List.map_map, ← (heach entry hentry).leads]
    exact List.map_congr_left fun path _ => hfollow path
  complete := by
    intro path hpath
    cases path with
    | nil => simp [TypeDecl.follow] at hpath
    | cons i path =>
        rw [TypeDecl.follow] at hpath
        obtain ⟨type, htype⟩ := Option.isSome_iff_exists.1 hpath
        obtain ⟨outer, houter, htype⟩ := Option.bind_eq_some_iff.1 htype
        have hentry := (hpick outer i).2 houter
        refine List.mem_flatMap.2 ⟨(outer, i), hentry, List.mem_map_of_mem ?_⟩
        exact (heach _ hentry).complete path (htype ▸ rfl)
  outer_first := by
    rw [TypeDecl.pathsBelow, List.pairwise_flatMap]
    constructor
    · intro entry hentry
      rw [List.pairwise_map]
      exact (heach entry hentry).outer_first.imp fun hpath hprefix =>
        hpath (List.cons_prefix_cons.1 hprefix).2
    · refine hapart.imp fun {a b} hne earlier hearlier later hlater hprefix => ?_
      obtain ⟨path, -, rfl⟩ := List.mem_map.1 hearlier
      obtain ⟨other, -, rfl⟩ := List.mem_map.1 hlater
      exact hne (List.cons_prefix_cons.1 hprefix).1.symm

end Enumerates

/-- The paths in a declaration lead to its preorder. -/
theorem TypeDecl.enumerates_paths (decl : TypeDecl) :
    Enumerates decl.descend decl.paths decl.preorder := by
  induction decl using TypeDecl.nested_induction with
  | step decl ih =>
      have hbelow := Enumerates.below (fun _ _ => decl.mem_nestedAt) decl.nestedAt_apart
        fun entry hentry => ih entry.1 (mem_nested_of_nestedAt hentry)
      rw [map_fst_nestedAt] at hbelow
      rw [paths_eq, preorder_eq]
      refine ⟨?_, fun path hpath => ?_, ?_⟩
      · have hleads : ∀ path ∈ pathsBelow decl.nestedAt, decl.descend path = follow
            (fun i => (decl.members ++ decl.conditional)[i]?.bind Member.typeDecl?) path := by
          intro path hpath
          cases path with
          | nil => simp [pathsBelow] at hpath
          | cons i path => rfl
        rw [List.map_cons, List.map_cons, ← hbelow.leads, List.map_congr_left hleads]
        rfl
      · cases path with
        | nil => exact List.mem_cons_self ..
        | cons i path => exact List.mem_cons_of_mem _ (hbelow.complete _ hpath)
      · refine List.pairwise_cons.2 ⟨fun later hlater hprefix => ?_, hbelow.outer_first⟩
        rw [List.prefix_nil.1 hprefix] at hlater
        simp [pathsBelow] at hlater

/-- The paths in a file lead to the preorders of its declarations. -/
theorem enumerates_typeAt? (decls : List TypeDecl) :
    Enumerates (typeAt? decls) (TypeDecl.pathsBelow decls.zipIdx)
      (decls.flatMap TypeDecl.preorder) := by
  have hbelow := @Enumerates.below decls.zipIdx (decls[·]?)
    (fun _ _ => List.mem_zipIdx_iff_getElem?) (TypeDecl.pairwise_snd_zipIdx decls)
    fun entry _ => entry.1.enumerates_paths
  rwa [List.zipIdx_map_fst] at hbelow

/-! ## The pending declarations of a walk -/

/-- A walk that may take a step for each type in the pending declarations, or more, meets
their preorders. -/
theorem walkFrom_eq_preorder {steps : Nat} {pending : List TypeDecl}
    (hsteps : typeCounts (pending.map TypeDecl.toMember) ≤ steps) :
    walkFrom steps pending = pending.flatMap TypeDecl.preorder := by
  induction steps generalizing pending with
  | zero =>
      cases pending with
      | nil => rfl
      | cons decl pending =>
          rw [typeCounts_step] at hsteps
          omega
  | succ steps ih =>
      cases pending with
      | nil => rfl
      | cons decl pending =>
          rw [typeCounts_step] at hsteps
          rw [walkFrom, ih (by omega), List.flatMap_append, List.flatMap_cons, decl.preorder_eq,
            List.cons_append]

theorem walk_eq_preorder (decls : List TypeDecl) :
    walk decls = decls.flatMap TypeDecl.preorder :=
  walkFrom_eq_preorder le_rfl

/-! ## Nesting spans -/

theorem Occurs.of_forall {decls others : List TypeDecl} {decl : TypeDecl}
    (hothers : ∀ other ∈ others, Occurs decls other) (h : Occurs others decl) :
    Occurs decls decl := by
  induction h with
  | top hmem => exact hothers _ hmem
  | nested _ hinner ih => exact .nested ih hinner

theorem Occurs.top_or_nested {decls : List TypeDecl} {decl : TypeDecl} (h : Occurs decls decl) :
    decl ∈ decls ∨ ∃ outer ∈ decls, Occurs outer.nested decl := by
  induction h with
  | top hmem => exact .inl hmem
  | nested _ hinner ih =>
      right
      rcases ih with hdecl | ⟨outer, houter, hdecl⟩
      · exact ⟨_, hdecl, .top (TypeDecl.mem_nested.2 hinner)⟩
      · exact ⟨outer, houter, .nested hdecl hinner⟩

/-- The spans of all types in some declarations nest: siblings lie apart, and what is nested
in a type begins behind its beginning and ends no later. -/
structure Nest (decls : List TypeDecl) : Prop where
  span : ∀ decl, Occurs decls decl → decl.header.start ≤ decl.header.bodyEnd
  top_apart : decls.Pairwise fun a b => a.toMember.Apart b.toMember
  nested_apart : ∀ decl, Occurs decls decl →
    ((decl.members ++ decl.conditional).filterMap Member.typeDecl?).Pairwise
      fun a b => a.toMember.Apart b.toMember
  nested_inside : ∀ decl inner : TypeDecl, Occurs decls decl →
    inner.toMember ∈ decl.members ++ decl.conditional →
      decl.header.start < inner.header.start ∧ inner.header.bodyEnd ≤ decl.header.bodyEnd

/-- The spans of a file nest. -/
theorem parse_nest {language : Language} {source : List Char} {decls : List TypeDecl}
    (hfaithful : language.Faithful source) (h : parse language source = .ok decls) :
    Nest decls := by
  obtain ⟨hstands, hapart⟩ := parse_stands hfaithful h
  have hoccurs : ∀ decl, Occurs decls decl → decl.toMember.Stands source :=
    fun decl => stands_of_occurs hstands
  refine ⟨fun decl hdecl => ?_, hapart, fun decl hdecl => ?_, fun decl inner hdecl hinner => ?_⟩
  · exact (TypeDecl.start_lt_bodyEnd (hoccurs decl hdecl)).le
  · exact types_apart (laminar_of_stands (hoccurs decl hdecl)).members_apart
  · have hlaminar := laminar_of_stands (hoccurs decl hdecl)
    have hkeyword := hlaminar.start_le_keyword
    have hbody := hlaminar.keyword_lt_body
    obtain ⟨hstart, hend⟩ :=
      TypeDecl.within_of_nested (hoccurs decl hdecl) (TypeDecl.mem_nested.2 hinner)
    exact ⟨by omega, hend.le⟩

namespace Nest

variable {decls : List TypeDecl} {decl : TypeDecl}

theorem nested (h : Nest decls) (hdecl : decl ∈ decls) : Nest decl.nested := by
  have hoccurs : ∀ inner, Occurs decl.nested inner → Occurs decls inner := fun inner =>
    Occurs.of_forall fun other hother => .nested (.top hdecl) (TypeDecl.mem_nested.1 hother)
  have hsymm : ∀ {a b : TypeDecl}, a.toMember.Apart b.toMember → b.toMember.Apart a.toMember :=
    fun hab => Or.symm hab
  exact {
    span := fun inner hinner => h.span inner (hoccurs inner hinner)
    top_apart := (decl.nested_spec.1.pairwise_iff hsymm).2 (h.nested_apart decl (.top hdecl))
    nested_apart := fun inner hinner => h.nested_apart inner (hoccurs inner hinner)
    nested_inside := fun outer inner houter => h.nested_inside outer inner (hoccurs outer houter) }

/-- Spans nest if they do on the outermost level and inside each declaration. -/
theorem of_nested (hspan : ∀ decl ∈ decls, decl.header.start ≤ decl.header.bodyEnd)
    (hapart : decls.Pairwise fun a b => a.toMember.Apart b.toMember)
    (hinside : ∀ decl ∈ decls, ∀ inner ∈ decl.nested,
      decl.header.start < inner.header.start ∧ inner.header.bodyEnd ≤ decl.header.bodyEnd)
    (hnested : ∀ decl ∈ decls, Nest decl.nested) : Nest decls := by
  have hsymm : ∀ {a b : TypeDecl}, a.toMember.Apart b.toMember → b.toMember.Apart a.toMember :=
    fun hab => Or.symm hab
  refine ⟨fun decl hdecl => ?_, hapart, fun decl hdecl => ?_, fun decl inner hdecl hinner => ?_⟩
  · rcases hdecl.top_or_nested with hdecl | ⟨outer, houter, hdecl⟩
    · exact hspan decl hdecl
    · exact (hnested outer houter).span decl hdecl
  · rcases hdecl.top_or_nested with hdecl | ⟨outer, houter, hdecl⟩
    · exact (decl.nested_spec.1.pairwise_iff hsymm).1 (hnested decl hdecl).top_apart
    · exact (hnested outer houter).nested_apart decl hdecl
  · rcases hdecl.top_or_nested with hdecl | ⟨outer, houter, hdecl⟩
    · exact hinside decl hdecl inner (TypeDecl.mem_nested.2 hinner)
    · exact (hnested outer houter).nested_inside decl inner hdecl hinner

theorem inOrder_nested (h : Nest decls) (hdecl : decl ∈ decls) : TypeDecl.InOrder decl.nested :=
  TypeDecl.nested_inOrder (fun inner hinner => (h.nested hdecl).span inner (.top hinner))
    (h.nested_apart decl (.top hdecl))

/-- What is in the preorder of a declaration has its span inside that of the declaration. -/
theorem within_of_preorder (h : Nest decls) (hdecl : decl ∈ decls) :
    ∀ later ∈ decl.preorder, later.Within decl ∧ later.header.start ≤ later.header.bodyEnd := by
  induction decl using TypeDecl.nested_induction generalizing decls with
  | step decl ih =>
      intro later hlater
      rw [TypeDecl.preorder_eq] at hlater
      rcases List.mem_cons.1 hlater with rfl | hlater
      · exact ⟨.refl _, h.span _ (.top hdecl)⟩
      · obtain ⟨inner, hinner, hlater⟩ := List.mem_flatMap.1 hlater
        obtain ⟨hwithin, hspan⟩ := ih inner hinner (h.nested hdecl) hinner later hlater
        obtain ⟨hstart, hend⟩ :=
          h.nested_inside decl inner (.top hdecl) (TypeDecl.mem_nested.1 hinner)
        exact ⟨hwithin.trans ⟨hstart.le, hend⟩, hspan⟩

/-- Preorders of declarations in order go through the text from front to back, if each does. -/
theorem increasing_flatMap (h : Nest decls) (horder : TypeDecl.InOrder decls)
    (heach : ∀ decl ∈ decls, decl.preorder.Pairwise fun a b => a.header.start < b.header.start) :
    (decls.flatMap TypeDecl.preorder).Pairwise fun a b => a.header.start < b.header.start := by
  refine List.pairwise_flatMap.2 ⟨heach, horder.imp_of_mem ?_⟩
  intro a b ha hb hab first hfirst second hsecond
  obtain ⟨hfirst, hspan⟩ := h.within_of_preorder ha first hfirst
  obtain ⟨hsecond, -⟩ := h.within_of_preorder hb second hsecond
  calc first.header.start ≤ first.header.bodyEnd := hspan
    _ ≤ a.header.bodyEnd := hfirst.2
    _ < b.header.start := hab
    _ ≤ second.header.start := hsecond.1

theorem increasing_preorder (h : Nest decls) (hdecl : decl ∈ decls) :
    decl.preorder.Pairwise fun a b => a.header.start < b.header.start := by
  induction decl using TypeDecl.nested_induction generalizing decls with
  | step decl ih =>
      rw [TypeDecl.preorder_eq]
      refine List.pairwise_cons.2 ⟨fun later hlater => ?_, ?_⟩
      · obtain ⟨inner, hinner, hlater⟩ := List.mem_flatMap.1 hlater
        obtain ⟨hwithin, -⟩ := (h.nested hdecl).within_of_preorder hinner later hlater
        exact (h.nested_inside decl inner (.top hdecl) (TypeDecl.mem_nested.1 hinner)).1.trans_le
          hwithin.1
      · exact (h.nested hdecl).increasing_flatMap (h.inOrder_nested hdecl)
          fun inner hinner => ih inner hinner (h.nested hdecl) hinner

theorem sublist_flatMap_preorder (decls : List TypeDecl) :
    decls.Sublist (decls.flatMap TypeDecl.preorder) := by
  induction decls with
  | nil => exact .slnil
  | cons decl rest ih =>
      rw [List.flatMap_cons, TypeDecl.preorder_eq, List.cons_append]
      exact (ih.trans (List.sublist_append_right ..)).cons_cons decl

/-- Nesting declarations are met from front to back exactly if those at the top are sorted. -/
theorem increasing_iff (h : Nest decls) :
    (decls.flatMap TypeDecl.preorder).Pairwise (fun a b => a.header.start < b.header.start) ↔
      decls.Pairwise fun a b => a.header.start ≤ b.header.start := by
  constructor
  · intro hincreasing
    exact (hincreasing.sublist (sublist_flatMap_preorder decls)).imp Nat.le_of_lt
  · intro hsorted
    have horder := TypeDecl.inOrder_of_sorted (fun decl hdecl => h.span decl (.top hdecl))
      h.top_apart hsorted
    exact h.increasing_flatMap horder fun decl hdecl => h.increasing_preorder hdecl

end Nest

/-! ## Walks -/

/-- A walk is the preorder of the declarations, with the types among all members of a type
sorted by their offsets, and more steps than types add nothing.  All paths in the file lead to
types of the walk, one each, and a type comes before what is nested in it.  If spans nest, the
walk goes from front to back exactly if the declarations at the top do, as those of a source
text do. -/
theorem walk_is_preorder (decls : List TypeDecl) :
    walk decls = decls.flatMap TypeDecl.preorder ∧
    (∀ steps, typeCounts (decls.map TypeDecl.toMember) ≤ steps →
      walkFrom steps decls = walk decls) ∧
    (∀ decl : TypeDecl, decl.preorder = decl :: decl.nested.flatMap TypeDecl.preorder ∧
      decl.nested.Perm ((decl.members ++ decl.conditional).filterMap Member.typeDecl?) ∧
      decl.nested.Pairwise fun a b => a.header.start ≤ b.header.start) ∧
    (∃ paths, Enumerates (typeAt? decls) paths (walk decls) ∧ paths.Nodup ∧
      ∀ path, path ∈ paths ↔ (typeAt? decls path).isSome = true) ∧
    (Nest decls → ((walk decls).Pairwise (fun a b => a.header.start < b.header.start) ↔
      decls.Pairwise fun a b => a.header.start ≤ b.header.start)) ∧
    ∀ language source, Language.Faithful language source → parse language source = .ok decls →
      Nest decls ∧ (walk decls).Pairwise fun a b => a.header.start < b.header.start := by
  have hpaths := enumerates_typeAt? decls
  rw [walk_eq_preorder]
  refine ⟨rfl, fun steps hsteps => walkFrom_eq_preorder hsteps,
    fun decl => ⟨decl.preorder_eq, decl.nested_spec⟩,
    ⟨_, hpaths, hpaths.nodup, fun path => hpaths.mem_iff⟩, Nest.increasing_iff, ?_⟩
  intro language source hfaithful hparse
  have hnest := parse_nest hfaithful hparse
  have horder : decls.Pairwise fun a b => a.header.start ≤ b.header.start := by
    refine (parse_inOrder hfaithful hparse).imp_of_mem fun {a b} ha _ hab => ?_
    exact (hnest.span a (.top ha)).trans hab.le
  exact ⟨hnest, hnest.increasing_iff.2 horder⟩

/-- A type of which only the name and the span matter. -/
def spanned (name : String) (start stop : Nat) (members conditional : List TypeDecl) : TypeDecl :=
  ⟨{ (default : Header) with name, start, bodyEnd := stop }, members.map TypeDecl.toMember,
    conditional.map TypeDecl.toMember⟩

/-- A type with a conditional type, in which another is nested, before a direct one. -/
def branchedDecl : TypeDecl :=
  spanned "A" 0 50 [spanned "E" 40 48 [] []] [spanned "C" 10 30 [spanned "D" 20 28 [] []] []]

def branchedDecls : List TypeDecl :=
  [branchedDecl, spanned "F" 60 68 [] []]

theorem nested_spanned (name : String) (start stop : Nat) (members : List TypeDecl)
    (hmembers : members.Pairwise fun a b => a.header.start ≤ b.header.start) :
    (spanned name start stop members []).nested = members := by
  have hsorted : (members.map TypeDecl.toMember).Pairwise
      fun a b => decide (a.start ≤ b.start) = true :=
    List.pairwise_map.2 (hmembers.imp fun hab => decide_eq_true hab)
  rw [TypeDecl.nested]
  simp only [spanned, List.map_nil, List.append_nil, List.mergeSort_of_pairwise hsorted,
    List.filterMap_map]
  exact List.filterMap_some

theorem nested_branchedDecl : branchedDecl.nested =
    [spanned "C" 10 30 [spanned "D" 20 28 [] []] [], spanned "E" 40 48 [] []] := by
  simp [branchedDecl, spanned, TypeDecl.nested, TypeDecl.toMember, Member.typeDecl?, Member.start,
    List.mergeSort, List.MergeSort.Internal.splitInTwo]

instance (a b : Member) : Decidable (a.Apart b) :=
  inferInstanceAs (Decidable (a.stop ≤ b.start ∨ b.stop ≤ a.start))

theorem nest_branchedDecls : Nest branchedDecls := by
  have hleaf : ∀ name start stop, (spanned name start stop [] []).nested = [] :=
    fun name start stop => nested_spanned name start stop [] .nil
  have hnone : Nest [] := .of_nested (by simp) .nil (by simp) (by simp)
  have hinner : Nest [spanned "D" 20 28 [] []] :=
    .of_nested (by decide) (by decide) (by simp [hleaf]) (by simp [hleaf, hnone])
  have hmiddle : (spanned "C" 10 30 [spanned "D" 20 28 [] []] []).nested =
      [spanned "D" 20 28 [] []] := nested_spanned _ _ _ _ (by simp)
  refine .of_nested (by decide) (by decide) ?_ ?_
  · simp only [branchedDecls, List.forall_mem_cons, nested_branchedDecl, hleaf]
    decide
  · simp only [branchedDecls, List.forall_mem_cons, nested_branchedDecl, hleaf]
    refine ⟨.of_nested (by decide) (by decide) ?_ ?_, hnone, by simp⟩
    · simp only [List.forall_mem_cons, hmiddle, hleaf]
      decide
    · simp only [List.forall_mem_cons, hmiddle, hleaf]
      exact ⟨hinner, hnone, by simp⟩

theorem walk_is_preorder_branched :
    Nest branchedDecls ∧
      (walk branchedDecls).map (fun decl => decl.header.name) = ["A", "C", "D", "E", "F"] ∧
      (walk branchedDecls).Pairwise (fun a b => a.header.start < b.header.start) ∧
      walkFrom 8 branchedDecls = walk branchedDecls ∧
      (∃ paths, Enumerates (typeAt? branchedDecls) paths (walk branchedDecls) ∧
        [0, 0] ∈ paths ∧ [0, 1, 0] ∈ paths) ∧
      ∃ decls, parse swift layeredSource = .ok decls ∧ Nest decls := by
  obtain ⟨hwalk, hsteps, hpreorder, ⟨paths, hpaths, -, hmem⟩, hincreasing, -⟩ :=
    walk_is_preorder branchedDecls
  obtain ⟨decls, hfound⟩ := Option.isSome_iff_exists.1
    (by decide +kernel : (parse swift layeredSource).toOption.isSome = true)
  have hparse := eq_ok_of_toOption hfound
  refine ⟨nest_branchedDecls, ?_, (hincreasing nest_branchedDecls).2 (by decide),
    hsteps 8 (by decide), ⟨paths, hpaths, (hmem _).2 rfl, (hmem _).2 rfl⟩, decls, hparse,
    ((walk_is_preorder decls).2.2.2.2.2 swift layeredSource
      (faithful_of_decide (by decide +kernel)) hparse).1⟩
  rw [hwalk]
  simp only [branchedDecls, List.flatMap_cons, (hpreorder _).1, nested_branchedDecl,
    nested_spanned, List.pairwise_singleton, List.Pairwise.nil, List.flatMap_nil]
  rfl

end Fakery
