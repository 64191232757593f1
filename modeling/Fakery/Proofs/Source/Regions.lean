import Fakery.Fake.Generator
import Fakery.Proofs.Source.Preorder

/-!
# Conditional regions

A block whose directives are well nested is a sequence of members and of regions, each from
`#if` to `#endif`.  Counting the open regions sets the members in them apart from the others.
Nothing is generated for them, but a walk still meets their types, each where it stands among
its siblings.
-/

namespace Fakery

/-! ## Blocks with regions -/

/-- A stretch of a block: a member, a directive `#else` or `#elseif`, or a region with the
stretches in it. -/
inductive Stretch where
  | member (found : Member)
  | branch (condition : List Char)
  | region (condition : List Char) (body : List Stretch) (tail : List Char)

mutual

def Stretch.items : Stretch → List Item
  | .member found => [.member found]
  | .branch condition => [.directive ("#else".toList ++ condition)]
  | .region condition body tail =>
    .directive ("#if".toList ++ condition) ::
      (itemsOf body ++ [.directive ("#endif".toList ++ tail)])

def itemsOf : List Stretch → List Item
  | [] => []
  | stretch :: rest => stretch.items ++ itemsOf rest

end

mutual

/-- The members of a stretch in the order of the text, each with whether it stands in a region. -/
def Stretch.marked (inside : Bool) : Stretch → List (Member × Bool)
  | .member found => [(found, inside)]
  | .branch _ => []
  | .region _ body _ => markedIn true body

def markedIn (inside : Bool) : List Stretch → List (Member × Bool)
  | [] => []
  | stretch :: rest => stretch.marked inside ++ markedIn inside rest

end

def Stretch.isRegion : Stretch → Bool
  | .region .. => true
  | _ => false

/-- The stretches of a block outside of all regions. -/
def withoutRegions (block : List Stretch) : List Stretch :=
  block.filter (!·.isRegion)

/-- The members that stand in a region, or those that stand in none. -/
def membersMarked (inside : Bool) (marked : List (Member × Bool)) : List Member :=
  (marked.filter (·.2 == inside)).map Prod.fst

/-! ## Setting members apart -/

@[simp]
theorem membersMarked_append (inside : Bool) (left right : List (Member × Bool)) :
    membersMarked inside (left ++ right) =
      membersMarked inside left ++ membersMarked inside right := by
  simp [membersMarked]

theorem separate_if (depth : Nat) (condition : List Char) (rest : List Item) :
    separate depth (.directive ("#if".toList ++ condition) :: rest) =
      separate (depth + 1) rest := by
  simp [separate]

theorem separate_else (depth : Nat) (condition : List Char) (rest : List Item) :
    separate depth (.directive ("#else".toList ++ condition) :: rest) = separate depth rest := by
  simp [separate]

theorem separate_endif (depth : Nat) (tail : List Char) (rest : List Item) :
    separate depth (.directive ("#endif".toList ++ tail) :: rest) = separate (depth - 1) rest := by
  simp [separate]

theorem separate_member (depth : Nat) (found : Member) (rest : List Item) :
    separate depth (.member found :: rest) =
      (membersMarked false [(found, depth != 0)] ++ (separate depth rest).1,
        membersMarked true [(found, depth != 0)] ++ (separate depth rest).2) := by
  cases depth <;> rfl

/-- The counter passes over a block and is what it was; the members of the block go where the
regions around them say. -/
def Passes (marked : Bool → List (Member × Bool)) (items : List Item) : Prop :=
  ∀ (depth : Nat) (rest : List Item), separate depth (items ++ rest) =
    (membersMarked false (marked (depth != 0)) ++ (separate depth rest).1,
      membersMarked true (marked (depth != 0)) ++ (separate depth rest).2)

mutual

theorem Stretch.passes : ∀ stretch : Stretch, Passes stretch.marked stretch.items
  | .member found => fun depth rest => separate_member depth found rest
  | .branch condition => fun depth rest => separate_else depth condition rest
  | .region condition body tail => by
      intro depth rest
      rw [Stretch.items, List.cons_append, List.append_assoc, List.singleton_append, separate_if,
        passes_itemsOf body (depth + 1), separate_endif, Nat.add_sub_cancel]
      rfl

theorem passes_itemsOf : ∀ block : List Stretch, Passes (markedIn · block) (itemsOf block)
  | [] => fun _ _ => rfl
  | stretch :: block => by
      intro depth rest
      rw [itemsOf, List.append_assoc, stretch.passes depth, passes_itemsOf block depth]
      simp [markedIn]

end

/-- The counter sets exactly the members in regions apart. -/
theorem separate_itemsOf (block : List Stretch) : separate 0 (itemsOf block) =
    (membersMarked false (markedIn false block), membersMarked true (markedIn false block)) := by
  have hpasses := passes_itemsOf block 0 []
  rw [List.append_nil] at hpasses
  rw [hpasses]
  simp [separate]

mutual

theorem Stretch.membersAmong_items (inside : Bool) : ∀ stretch : Stretch,
    membersAmong stretch.items = (stretch.marked inside).map Prod.fst
  | .member _ => rfl
  | .branch _ => rfl
  | .region condition body tail => by
      rw [Stretch.items, Stretch.marked, ← membersAmong_itemsOf true body,
        ← List.append_nil (itemsOf body)]
      simp [membersAmong]

/-- The members of a block in the order of the text. -/
theorem membersAmong_itemsOf (inside : Bool) : ∀ block : List Stretch,
    membersAmong (itemsOf block) = (markedIn inside block).map Prod.fst
  | [] => rfl
  | stretch :: block => by
      rw [markedIn, List.map_append, ← stretch.membersAmong_items,
        ← membersAmong_itemsOf inside block, itemsOf, membersAmong, List.filterMap_append]
      rfl

end

mutual

theorem Stretch.membersMarked_true : ∀ stretch : Stretch,
    membersMarked false (stretch.marked true) = []
  | .member _ => rfl
  | .branch _ => rfl
  | .region _ body _ => membersMarked_markedIn_true body

/-- In a region no member is direct. -/
theorem membersMarked_markedIn_true : ∀ block : List Stretch,
    membersMarked false (markedIn true block) = []
  | [] => rfl
  | stretch :: block => by
      rw [markedIn, membersMarked_append, stretch.membersMarked_true,
        membersMarked_markedIn_true block, List.append_nil]

end

/-- Without its regions a block keeps the members outside of them. -/
theorem membersMarked_withoutRegions (block : List Stretch) :
    membersMarked false (markedIn false (withoutRegions block)) =
      membersMarked false (markedIn false block) := by
  induction block with
  | nil => rfl
  | cons stretch block ih =>
      have hcons : ∀ rest, membersMarked false (markedIn false (stretch :: rest)) =
          membersMarked false (stretch.marked false) ++ membersMarked false (markedIn false rest) :=
        fun rest => membersMarked_append ..
      rw [hcons, ← ih]
      cases stretch with
      | region condition body tail =>
          rw [Stretch.marked, membersMarked_markedIn_true]
          rfl
      | _ => rfl

/-! ## Well nested directives -/

/-- Every `#endif` closes a region, `#else` and `#elseif` stand in one, and in the end all
regions are closed. -/
def wellNested : (depth : Nat) → List Item → Bool
  | depth, [] => depth == 0
  | depth, .member _ :: rest => wellNested depth rest
  | depth, .directive text :: rest =>
    if "#if".toList.isPrefixOf text then wellNested (depth + 1) rest
    else if "#endif".toList.isPrefixOf text then depth != 0 && wellNested (depth - 1) rest
    else "#else".toList.isPrefixOf text && depth != 0 && wellNested depth rest

/-- The items of a block and of the blocks behind it, with the ends of the regions between them. -/
def unwound (block : List Stretch) : List (List Char × List Stretch) → List Item
  | [] => itemsOf block
  | (tail, next) :: outer =>
    itemsOf block ++ .directive ("#endif".toList ++ tail) :: unwound next outer

theorem unwound_cons (stretch : Stretch) (block : List Stretch)
    (outer : List (List Char × List Stretch)) :
    unwound (stretch :: block) outer = stretch.items ++ unwound block outer := by
  cases outer <;> simp [unwound, itemsOf]

/-- Well nested items are a block inside as many opened regions as their depth says. -/
theorem exists_unwound {depth : Nat} {items : List Item} (h : wellNested depth items = true) :
    ∃ block outer, outer.length = depth ∧ unwound block outer = items := by
  induction items generalizing depth with
  | nil =>
      exact ⟨[], [], (beq_iff_eq.1 h).symm, rfl⟩
  | cons item rest ih =>
      cases item with
      | member found =>
          obtain ⟨block, outer, hlength, hrest⟩ := ih h
          exact ⟨.member found :: block, outer, hlength, by rw [unwound_cons, hrest]; rfl⟩
      | directive text =>
          rw [wellNested] at h
          split at h
          case isTrue hif =>
              obtain ⟨condition, rfl⟩ := List.isPrefixOf_iff_prefix.1 hif
              obtain ⟨block, outer, hlength, hrest⟩ := ih h
              obtain ⟨⟨tail, next⟩, outer, rfl⟩ := List.exists_cons_of_length_eq_add_one hlength
              refine ⟨.region condition block tail :: next, outer, by simpa using hlength, ?_⟩
              rw [unwound_cons, ← hrest]
              simp [Stretch.items, unwound]
          case isFalse =>
              split at h
              case isTrue hendif =>
                  obtain ⟨tail, rfl⟩ := List.isPrefixOf_iff_prefix.1 hendif
                  rw [Bool.and_eq_true, bne_iff_ne] at h
                  obtain ⟨block, outer, hlength, hrest⟩ := ih h.2
                  refine ⟨[], (tail, block) :: outer, ?_, by rw [unwound, hrest]; rfl⟩
                  rw [List.length_cons]
                  omega
              case isFalse =>
                  rw [Bool.and_eq_true, Bool.and_eq_true] at h
                  obtain ⟨condition, rfl⟩ := List.isPrefixOf_iff_prefix.1 h.1.1
                  obtain ⟨block, outer, hlength, hrest⟩ := ih h.2
                  refine ⟨.branch condition :: block, outer, hlength, ?_⟩
                  rw [unwound_cons, hrest]
                  rfl

/-- Items with well nested directives are those of a block with regions. -/
theorem exists_itemsOf {items : List Item} (h : wellNested 0 items = true) :
    ∃ block, itemsOf block = items := by
  obtain ⟨block, outer, hlength, hitems⟩ := exists_unwound h
  rw [List.length_eq_zero_iff.1 hlength] at hitems
  exact ⟨block, hitems⟩

/-! ## What becomes of a block -/

/-- The type whose block has the given items. -/
def typeWith (header : Header) (items : List Item) : TypeDecl :=
  ⟨header, (separate 0 items).1, (separate 0 items).2⟩

/-- The types among the items of a block, in regions or not. -/
def typesAmong (items : List Item) : List TypeDecl :=
  (membersAmong items).filterMap Member.typeDecl?

/-- Only direct members matter to what is generated. -/
theorem ofDecl_typeWith_congr (header : Header) {items others : List Item}
    (h : (separate 0 items).1 = (separate 0 others).1) :
    Generation.ofDecl (typeWith header items) = Generation.ofDecl (typeWith header others) := by
  have hreport :
      Report.ofDecl (typeWith header items) = Report.ofDecl (typeWith header others) := by
    rw [Report.ofDecl, Report.ofDecl, typeWith, typeWith, h]
  rw [Generation.ofDecl, Generation.ofDecl, hreport]

/-- If keys differ, sorting by them gives the same list from whatever order. -/
theorem mergeSort_eq_of_perm {α : Type} (key : α → Nat) {items sorted : List α}
    (hperm : items.Perm sorted) (hsorted : sorted.Pairwise fun a b => key a < key b) :
    (items.mergeSort fun a b => decide (key a ≤ key b)) = sorted := by
  have hkeys : (sorted.map key).Nodup := List.pairwise_map.2 (hsorted.imp Nat.ne_of_lt)
  have hsort := (List.mergeSort_perm items fun a b => decide (key a ≤ key b)).trans hperm
  refine hsort.eq_of_pairwise ?_ (TypeDecl.pairwise_mergeSort_key key items)
    (hsorted.imp Nat.le_of_lt)
  intro a b ha hb hle hge
  exact List.inj_on_of_nodup_map hkeys (hsort.mem_iff.1 ha) hb (Nat.le_antisymm hle hge)

theorem nested_typeWith (header : Header) {items : List Item}
    (hstarts : (membersAmong items).Pairwise fun a b => a.start < b.start) :
    (typeWith header items).nested = typesAmong items := by
  rw [TypeDecl.nested, typeWith, mergeSort_eq_of_perm Member.start (separate_perm 0 items) hstarts]
  rfl

/-- A walk meets the types of a block in the order of the text, those in regions too. -/
theorem walk_typeWith (header : Header) {items : List Item}
    (hstarts : (membersAmong items).Pairwise fun a b => a.start < b.start) :
    walk [typeWith header items] = typeWith header items :: walk (typesAmong items) := by
  rw [walk_eq_preorder, walk_eq_preorder, List.flatMap_singleton, TypeDecl.preorder_eq,
    nested_typeWith header hstarts]

/-- The declarations of a file are the types among its items. -/
theorem parse_eq_typesAmong {language : Language} {source : List Char} {items : List Item}
    (hfaithful : language.Faithful source)
    (herror : (language.tree (Text.Utf8.encode source)).hasError = false)
    (hitems : SyntaxNode.items source (language.tree (Text.Utf8.encode source)).children =
      .ok items) :
    parse language source = .ok (typesAmong items) := by
  have hmembers := (hfaithful herror).lifted.2 items hitems
  have hstarts : (typesAmong items).Pairwise fun a b => a.header.start < b.header.start := by
    rw [typesAmong, List.pairwise_filterMap]
    refine hmembers.inOrder.imp_of_mem fun {a b} ha _ hab left hleft right hright => ?_
    obtain ⟨node, -, -, hstands⟩ := hmembers.lifted a ha
    rw [eq_toMember_of_typeDecl? hleft] at hab hstands
    rw [eq_toMember_of_typeDecl? hright] at hab
    exact (TypeDecl.start_lt_bodyEnd hstands.stands).trans hab
  have hperm := (separate_perm 0 items).filterMap Member.typeDecl?
  refine parse_eq_ok.2 ⟨herror, items, hitems, ?_⟩
  rw [mergeSort_eq_of_perm (fun decl : TypeDecl => decl.header.start) hperm hstarts]
  rfl

/-- Items whose directives are well nested make up a block with regions.  Its members in
regions are set apart from the others, both in the order of the text.  What is generated for
the type is what is generated without the regions, and a walk meets the types in them among
their siblings.  So it is for the items of the body of a type, and for those of a file. -/
theorem regions_set_apart (items : List Item) (hnested : wellNested 0 items = true)
    (header : Header) :
    (∃ block, itemsOf block = items) ∧
    ∀ block, itemsOf block = items →
      membersAmong items = (markedIn false block).map Prod.fst ∧
      (typeWith header items).members = membersMarked false (markedIn false block) ∧
      (typeWith header items).conditional = membersMarked true (markedIn false block) ∧
      Generation.ofDecl (typeWith header items) =
        Generation.ofDecl (typeWith header (itemsOf (withoutRegions block))) ∧
      ((membersAmong items).Pairwise (fun a b => a.start < b.start) →
        walk [typeWith header items] = typeWith header items :: walk (typesAmong items)) ∧
      (∀ source node keyword body, SyntaxNode.isType node = true →
        node.child? "declaration_kind" = some keyword → node.child? "body" = some body →
        SyntaxNode.items source body.children = .ok items →
        node.member? source =
          .ok (some (typeWith (node.header source keyword body) items).toMember)) ∧
      ∀ language source, Language.Faithful language source →
        (language.tree (Text.Utf8.encode source)).hasError = false →
        SyntaxNode.items source (language.tree (Text.Utf8.encode source)).children = .ok items →
        parse language source = .ok (typesAmong items) := by
  refine ⟨exists_itemsOf hnested, ?_⟩
  rintro block rfl
  have hseparate := separate_itemsOf block
  refine ⟨membersAmong_itemsOf false block, congrArg Prod.fst hseparate,
    congrArg Prod.snd hseparate, ofDecl_typeWith_congr header ?_, walk_typeWith header, ?_,
    fun language source => parse_eq_typesAmong⟩
  · rw [separate_itemsOf, separate_itemsOf, membersMarked_withoutRegions]
  · intro source node keyword body htype hkeyword hbody hitems
    exact (SyntaxNode.member?_of_isType htype).2
      ⟨keyword, body, _, hkeyword, hbody, hitems, rfl⟩

/-- Types in the branches of nested regions, and one behind them. -/
def regionSource : List Char :=
  ("#if A\nstruct B \x7b \x7d\n#if C\n#elseif D\nenum E \x7b \x7d\n#endif\n#else\n#endif\n" ++
    "class F \x7b \x7d\n").toList

def namesOf (members : List Member) : List String :=
  members.filterMap fun found => found.typeDecl?.map fun decl => decl.header.name

set_option maxRecDepth 100000 in
theorem regions_set_apart_regionSource :
    ∃ items, SyntaxNode.items regionSource (swift.tree (Text.Utf8.encode regionSource)).children =
        .ok items ∧
      wellNested 0 items = true ∧
      namesOf (typeWith default items).members = ["F"] ∧
      namesOf (typeWith default items).conditional = ["B", "E"] ∧
      namesOf (membersAmong items) = ["B", "E", "F"] ∧
      parse swift regionSource = .ok (typesAmong items) ∧
      walk [typeWith default items] = typeWith default items :: walk (typesAmong items) := by
  have hfacts : (SyntaxNode.items regionSource
      (swift.tree (Text.Utf8.encode regionSource)).children).toOption.map (fun items =>
        (wellNested 0 items, namesOf (typeWith default items).members,
          namesOf (typeWith default items).conditional, namesOf (membersAmong items),
          decide ((membersAmong items).Pairwise fun a b => a.start < b.start))) =
      some (true, ["F"], ["B", "E"], ["B", "E", "F"], true) := by
    decide +kernel
  obtain ⟨items, hfound, hfacts⟩ := Option.map_eq_some_iff.1 hfacts
  have hitems := eq_ok_of_toOption hfound
  simp only [Prod.mk.injEq, decide_eq_true_eq] at hfacts
  obtain ⟨hnested, hmembers, hconditional, hall, hstarts⟩ := hfacts
  obtain ⟨⟨block, hblock⟩, hseparated⟩ := regions_set_apart items hnested default
  obtain ⟨-, -, -, -, hwalk, -, hparse⟩ := hseparated block hblock
  exact ⟨items, hitems, hnested, hmembers, hconditional, hall,
    hparse swift regionSource (faithful_of_decide (by decide +kernel)) (by decide +kernel) hitems,
    hwalk hstarts⟩

end Fakery
