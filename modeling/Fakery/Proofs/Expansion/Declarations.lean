import Fakery.Expansion
import Fakery.Proofs.Shape.Calls
import Fakery.Proofs.Source.Stands

/-!
# Declarations after an expansion

What an expansion means for declarations: an annotated type loses its first trigger, its
direct properties lose their default annotations, and it gains functions behind its
members.  A walk meets the types of a file in some order; the edits of an expansion come
from those of them that are annotated.
-/

namespace Fakery

/-! ## Expanded members -/

def TypeDecl.generatedCount (decl : TypeDecl) : Nat :=
  (Report.ofDecl decl).helpers.length + 1

theorem length_members_ofDecl {decl : TypeDecl} {generation : Generation}
    (h : Generation.ofDecl decl = .ok generation) :
    generation.members.length = decl.generatedCount := by
  rw [Generation.members, TypeDecl.generatedCount, (Generation.parts_of_ofDecl h).2]
  simp

/-- A generated member, of which only the keyword is read. -/
def generatedMember : Member :=
  .other ⟨"func", 0, 0⟩

mutual

/-- A member after an expansion; `inside` tells whether the type around it is annotated. -/
def Member.expanded (inside : Bool) : Member → Member
  | .property p =>
    .property { p with
      attributes := p.attributes.filter fun found => !(inside && found.name == defaultAttribute) }
  | .type header members conditional =>
    let decl : TypeDecl := ⟨header, members, conditional⟩
    .type
      { header with attributes := header.attributes.eraseP (·.name == triggerAttribute) }
      (expandedAll decl.trigger?.isSome members ++
        if decl.trigger?.isSome then List.replicate decl.generatedCount generatedMember else [])
      (expandedAll false conditional)
  | member => member

def expandedAll (inside : Bool) : List Member → List Member
  | [] => []
  | member :: rest => member.expanded inside :: expandedAll inside rest

end

/-! ## Reports without places -/

/-- The fields of a property do not depend on where it stands. -/
theorem ofProperty?_withoutPlaces (property : Property) (start stop : Nat) :
    Field.ofProperty? { property with
      attributes := property.attributes.map Attribute.withoutPlace, start, stop } =
        Field.ofProperty? property := by
  have hfind : findAttribute defaultAttribute (property.attributes.map Attribute.withoutPlace) =
      (findAttribute defaultAttribute property.attributes).map Attribute.withoutPlace := by
    rw [findAttribute, List.find?_map]
    rfl
  have hexpression : ∀ found : Option Attribute,
      (found.map Attribute.withoutPlace).bind annotationExpression = found.bind annotationExpression := by
    intro found
    cases found <;> rfl
  unfold Field.ofProperty? Property.isStored
  simp only [hfind, hexpression, Option.isSome_map]

/-- The report on a declaration does not depend on places. -/
theorem report_withoutPlaces (header : Header) (members conditional others : List Member) :
    Report.ofDecl ⟨header.withoutPlaces, withoutPlacesAll members, others⟩ =
      Report.ofDecl ⟨header, members, conditional⟩ := by
  have hfield : ∀ member : Member, member.withoutPlaces.property?.bind Field.ofProperty? =
      member.property?.bind Field.ofProperty? := by
    intro member
    cases member with
    | property p => exact ofProperty?_withoutPlaces p 0 0
    | _ => rfl
  have hconstructor : ∀ member : Member,
      member.withoutPlaces.initializer?.map Constructor.ofInitializer =
        member.initializer?.map Constructor.ofInitializer := by
    intro member
    cases member <;> rfl
  have helements : ∀ member : Member, member.withoutPlaces.cases?.map CaseGroup.elements =
      member.cases?.map CaseGroup.elements := by
    intro member
    cases member <;> rfl
  have hcases : Report.enumCases (withoutPlacesAll members) = Report.enumCases members := by
    have hflat : ∀ members, Report.enumCases members =
        (members.filterMap fun member => member.cases?.map CaseGroup.elements).flatMap
          fun elements => elements.map EnumCase.ofElement := by
      intro members
      rw [Report.enumCases, ← List.map_filterMap, List.flatMap_map]
    rw [hflat, hflat, withoutPlacesAll_eq_map, List.filterMap_map, Function.comp_def]
    simp only [helements]
  rw [Report.ofDecl, Report.ofDecl]
  simp only [hcases]
  simp only [withoutPlacesAll_eq_map, List.filterMap_filterMap, List.map_filterMap,
    List.filterMap_map, Function.comp_def, hfield, hconstructor]
  rfl

/-- An expanded type without places, in terms of the type with its places. -/
theorem expanded_withoutPlaces (inside : Bool) (decl : TypeDecl) :
    decl.toMember.withoutPlaces.expanded inside =
      .type { decl.header.withoutPlaces with
          attributes := decl.header.withoutPlaces.attributes.eraseP (·.name == triggerAttribute) }
        (expandedAll decl.trigger?.isSome (withoutPlacesAll decl.members) ++
          if decl.trigger?.isSome then List.replicate decl.generatedCount generatedMember else [])
        (expandedAll false (withoutPlacesAll decl.conditional)) := by
  have htrigger : (TypeDecl.trigger? ⟨decl.header.withoutPlaces, withoutPlacesAll decl.members,
      withoutPlacesAll decl.conditional⟩).isSome = decl.trigger?.isSome := by
    rw [TypeDecl.trigger?, Header.withoutPlaces, findAttribute, List.find?_map, Option.isSome_map]
    rfl
  have hcount : TypeDecl.generatedCount ⟨decl.header.withoutPlaces, withoutPlacesAll decl.members,
      withoutPlacesAll decl.conditional⟩ = decl.generatedCount := by
    rw [TypeDecl.generatedCount, report_withoutPlaces _ _ decl.conditional]
    rfl
  rw [TypeDecl.toMember, Member.withoutPlaces, Member.expanded]
  simp only [htrigger, hcount]

/-! ## All types of a file -/

mutual

/-- The types in a member, each before what is nested in it. -/
def Member.types : Member → List TypeDecl
  | .type header members conditional =>
    ⟨header, members, conditional⟩ :: (typesOf members ++ typesOf conditional)
  | _ => []

def typesOf : List Member → List TypeDecl
  | [] => []
  | member :: rest => member.types ++ typesOf rest

end

theorem typesOf_eq_flatMap (members : List Member) : typesOf members = members.flatMap Member.types := by
  induction members with
  | nil => rfl
  | cons member rest ih => rw [typesOf, List.flatMap_cons, ih]

theorem typeCounts_eq_sum (members : List Member) :
    typeCounts members = (members.map Member.typeCount).sum := by
  induction members with
  | nil => rfl
  | cons member rest ih => rw [typeCounts, List.map_cons, List.sum_cons, ih]

/-- Only types hold types. -/
theorem typesOf_filterMap (members : List Member) :
    typesOf ((members.filterMap Member.typeDecl?).map TypeDecl.toMember) = typesOf members ∧
      typeCounts ((members.filterMap Member.typeDecl?).map TypeDecl.toMember) = typeCounts members := by
  induction members with
  | nil => exact ⟨rfl, rfl⟩
  | cons member rest ih =>
      cases member with
      | type header members conditional =>
          constructor
          · exact congrArg (_ ++ ·) ih.1
          · exact congrArg (_ + ·) ih.2
      | _ => exact ⟨ih.1, ih.2.trans (Nat.zero_add _).symm⟩

theorem typesOf_nested (decl : TypeDecl) :
    (typesOf (decl.nested.map TypeDecl.toMember)).Perm (typesOf decl.members ++ typesOf decl.conditional) ∧
      typeCounts (decl.nested.map TypeDecl.toMember) =
        typeCounts decl.members + typeCounts decl.conditional := by
  have hperm := List.mergeSort_perm (decl.members ++ decl.conditional)
    fun a b => decide (a.start ≤ b.start)
  obtain ⟨htypes, hcounts⟩ := typesOf_filterMap
    ((decl.members ++ decl.conditional).mergeSort fun a b => decide (a.start ≤ b.start))
  rw [TypeDecl.nested, htypes, hcounts]
  constructor
  · simpa [typesOf_eq_flatMap] using hperm.flatMap_right Member.types
  · simpa [typeCounts_eq_sum] using (hperm.map Member.typeCount).sum_eq

theorem typesOf_append (left right : List Member) :
    typesOf (left ++ right) = typesOf left ++ typesOf right := by
  simp [typesOf_eq_flatMap]

/-- A step of a walk meets one type. -/
theorem typeCounts_step (decl : TypeDecl) (pending : List TypeDecl) :
    typeCounts ((decl :: pending).map TypeDecl.toMember) =
      typeCounts ((decl.nested ++ pending).map TypeDecl.toMember) + 1 := by
  rw [List.map_append, typeCounts_eq_sum (_ ++ _), List.map_append, List.sum_append,
    ← typeCounts_eq_sum, ← typeCounts_eq_sum, (typesOf_nested decl).2, List.map_cons, typeCounts,
    TypeDecl.toMember, Member.typeCount]
  omega

/-- A walk with enough steps visits every type among the pending declarations once. -/
theorem walkFrom_perm {steps : Nat} {pending : List TypeDecl}
    (hsteps : steps = typeCounts (pending.map TypeDecl.toMember)) :
    (walkFrom steps pending).Perm (typesOf (pending.map TypeDecl.toMember)) := by
  induction steps generalizing pending with
  | zero =>
      cases pending with
      | nil => exact .refl _
      | cons decl rest =>
          rw [typeCounts_step] at hsteps
          omega
  | succ steps ih =>
      cases pending with
      | nil => simp [typeCounts] at hsteps
      | cons decl rest =>
          rw [typeCounts_step] at hsteps
          have hrest := ih (Nat.succ.inj hsteps)
          rw [List.map_append, typesOf_append] at hrest
          exact (hrest.trans ((typesOf_nested decl).1.append_right _)).cons decl

/-- A walk meets every type of a file. -/
theorem walk_perm (decls : List TypeDecl) :
    (walk decls).Perm (typesOf (decls.map TypeDecl.toMember)) :=
  walkFrom_perm rfl

/-! ## Collected edits -/

def TypeDecl.ownEdits (source : List Char) (unit : String) (decl : TypeDecl) : List Edit :=
  (Generation.ofDecl decl).toOption.toList.flatMap (decl.edits source unit)

def defaultRemovals (source : List Char) (members : List Member) : List Edit :=
  ((members.filterMap Member.property?).flatMap fun property =>
    property.attributes.filter (·.name == defaultAttribute)).map fun found =>
      removal source found.start found.stop

/-- The edits of all annotated types in members, and those of the members themselves. -/
def editsIn (source : List Char) (unit : String) (inside : Bool) (members : List Member) :
    List Edit :=
  ((typesOf members).filter (·.trigger?.isSome)).flatMap (·.ownEdits source unit) ++
    if inside then defaultRemovals source members else []

/-- The edits of an expansion are the edits each declaration has of its own. -/
theorem flatMap_ownEdits {source : List Char} {unit : String} {decls : List TypeDecl}
    {generated : List (TypeDecl × Generation)} (h : generateAll decls = .ok generated) :
    generated.flatMap (fun pair => pair.1.edits source unit pair.2) =
      decls.flatMap (·.ownEdits source unit) := by
  induction decls generalizing generated with
  | nil =>
      cases h
      rfl
  | cons decl rest ih =>
      rw [generateAll] at h
      cases hdecl : Generation.ofDecl decl with
      | error refused => simp [hdecl] at h
      | ok generation =>
          cases hrest : generateAll rest with
          | error failure =>
              rw [hdecl, hrest] at h
              cases h
          | ok others =>
              rw [hdecl, hrest] at h
              cases h
              rw [List.flatMap_cons, List.flatMap_cons, ih hrest, TypeDecl.ownEdits, hdecl]
              simp [Except.toOption]

/-- The edits of a list of members are those of its first member and those of the rest. -/
theorem editsIn_cons (source : List Char) (unit : String) (inside : Bool) (member : Member)
    (rest : List Member) :
    (editsIn source unit inside [member] ++ editsIn source unit inside rest).Perm
      (editsIn source unit inside (member :: rest)) := by
  have hremovals : defaultRemovals source (member :: rest) =
      defaultRemovals source [member] ++ defaultRemovals source rest := by
    rw [defaultRemovals, ← List.singleton_append, List.filterMap_append, List.flatMap_append,
      List.map_append]
    rfl
  have htypes : typesOf (member :: rest) = typesOf [member] ++ typesOf rest :=
    typesOf_append [member] rest
  have hgiven : (if inside then defaultRemovals source (member :: rest) else []) =
      (if inside then defaultRemovals source [member] else []) ++
        if inside then defaultRemovals source rest else [] := by
    cases inside <;> simp [hremovals]
  rw [editsIn, editsIn, editsIn, htypes, List.filter_append, List.flatMap_append, hgiven,
    List.append_assoc, List.append_assoc]
  exact (List.perm_append_comm_assoc ..).append_left _

section OneType

variable {source : List Char} {unit : String} {inside : Bool} {decl : TypeDecl}

theorem editsIn_toMember (hconditional : decl.conditional = []) :
    editsIn source unit inside [decl.toMember] =
      ((decl :: typesOf decl.members).filter (·.trigger?.isSome)).flatMap (·.ownEdits source unit) := by
  have hnone : (if inside then defaultRemovals source [decl.toMember] else []) = [] := by
    cases inside <;> rfl
  have htypes : typesOf [decl.toMember] = decl :: typesOf decl.members := by
    rw [typesOf, TypeDecl.toMember, Member.types, hconditional, typesOf, List.append_nil,
      List.append_nil, ← hconditional]
  rw [editsIn, hnone, htypes, List.append_nil]

/-- The edits in an annotated type: its trigger, the edits of its body, and an insertion. -/
theorem editsIn_annotated (hconditional : decl.conditional = [])
    (htrigger : decl.trigger?.isSome = true) {generation : Generation}
    (hgeneration : Generation.ofDecl decl = .ok generation) :
    (decl.trigger?.toList.map (fun found => removal source found.start found.stop) ++
      (editsIn source unit true decl.members ++ [insertion source decl.site
        (renderMembers unit generation.members).toList unit.toList])).Perm
      (editsIn source unit inside [decl.toMember]) := by
  have hown : decl.ownEdits source unit =
      decl.trigger?.toList.map (fun found => removal source found.start found.stop) ++
        (defaultRemovals source decl.members ++ [insertion source decl.site
          (renderMembers unit generation.members).toList unit.toList]) := by
    simp [TypeDecl.ownEdits, hgeneration, Except.toOption, TypeDecl.edits, TypeDecl.consumed,
      TypeDecl.defaultAnnotations, defaultRemovals]
  rw [editsIn_toMember hconditional, List.filter_cons, if_pos htrigger, List.flatMap_cons, hown,
    List.append_assoc, editsIn, if_pos rfl, List.append_assoc]
  exact List.perm_append_comm.append_left _

/-- The edits in another type are those of its body. -/
theorem editsIn_plain (hconditional : decl.conditional = []) (htrigger : decl.trigger? = none) :
    editsIn source unit false decl.members = editsIn source unit inside [decl.toMember] := by
  rw [editsIn_toMember hconditional, List.filter_cons_of_neg (by simp [htrigger]), editsIn,
    if_neg Bool.false_ne_true, List.append_nil]

end OneType

end Fakery
