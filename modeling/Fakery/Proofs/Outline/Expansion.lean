import Fakery.Proofs.Expansion.Idempotence
import Fakery.Proofs.Outline.Pruning
import Fakery.Proofs.Outline.Report
import Fakery.Proofs.Outline.RoundTrip

/-!
# Expansion of outlines

The edits of an expansion turn the lines of an outline into the lines of an outline: what is
generated are functions with parameters, default values and a result.  So a language that
derives the result reads the expanded declarations in it.
-/

namespace Fakery.Outline

open Text Edit

mutual

/-- The attributes of every type and property are tidy. -/
def Node.isTidy : Node → Bool
  | .property front _ _ _ _ => Outline.isTidy front.marks
  | .type front _ _ _ body _ => Outline.isTidy front.marks && allTidy body
  | _ => true

def allTidy : List Node → Bool
  | [] => true
  | node :: rest => node.isTidy && allTidy rest

end

theorem linesOf_append (left right : List Node) :
    linesOf (left ++ right) = linesOf left ++ linesOf right := by
  induction left with
  | nil => rfl
  | cons node rest ih => rw [List.cons_append, linesOf_cons, ih, linesOf_cons]; simp

theorem membersOf_append (left right : List Node) :
    membersOf (left ++ right) = membersOf left ++ membersOf right := by
  induction left with
  | nil => rfl
  | cons node rest ih => rw [List.cons_append, membersOf, ih, membersOf, List.cons_append]

theorem allFit_append (place : Reader.Place) (left right : List Node) :
    allFit place (left ++ right) = (allFit place left && allFit place right) := by
  induction left with
  | nil => rfl
  | cons node rest ih => rw [List.cons_append, allFit, ih, allFit, Bool.and_assoc]

theorem endsLine_linesOf (nodes : List Node) : EndsLine (linesOf nodes) := by
  induction nodes with
  | nil => exact Or.inl rfl
  | cons node rest ih =>
      rw [linesOf_cons]
      rcases ih with hnil | ⟨inner, hinner⟩
      · exact Or.inr ⟨node.text, by rw [hnil]⟩
      · exact Or.inr ⟨node.text ++ '\n' :: inner, by simp [hinner]⟩

/-! ## Generated functions -/

/-- Each function node stands for one generated member. -/
theorem membersOf_functionNodes (above : Nat) (indent : Indent) (functions : List Function) :
    membersOf (functionNodes above indent functions) =
      List.replicate functions.length generatedMember := by
  have hrest : ∀ rest : List Function,
      membersOf (rest.map fun function => .function ⟨1, indent⟩ function) =
        List.replicate rest.length generatedMember := by
    intro rest
    induction rest with
    | nil => rfl
    | cons function rest ih =>
        rw [List.map_cons, membersOf, ih]
        rfl
  cases functions with
  | nil => rfl
  | cons function rest =>
      rw [functionNodes, membersOf, hrest]
      rfl

theorem allFit_functionNodes (above : Nat) (indent : Indent) (functions : List Function)
    (keyword : TypeKeyword) : allFit keyword.place (functionNodes above indent functions) = true := by
  have hfits : ∀ (margin : Margin) (function : Function),
      (Node.function margin function).fits keyword.place = true := by
    intro margin function
    cases keyword <;> rfl
  have hrest : ∀ rest : List Function,
      allFit keyword.place (rest.map fun function => .function ⟨1, indent⟩ function) = true := by
    intro rest
    induction rest with
    | nil => rfl
    | cons function rest ih => rw [List.map_cons, allFit, hfits, ih, Bool.and_self]
  cases functions with
  | nil => rfl
  | cons function rest => rw [functionNodes, allFit, hfits, hrest, Bool.and_self]

/-! ## Fronts -/

def Front.pruned (front : Front) (flagged : List FlaggedMark) : Front :=
  ⟨⟨front.margin.above, (prune front.margin.indent flagged).1⟩,
    (prune front.margin.indent flagged).2⟩

theorem endsLine_above {before : List Char} (hbefore : EndsLine before) (above : Nat) :
    EndsLine (before ++ List.replicate above '\n') := by
  cases above with
  | zero => simpa using hbefore
  | succ above => exact Or.inr ⟨before ++ List.replicate above '\n', by simp [List.replicate_succ']⟩

section Front

variable {source before after : List Char} {front : Front}

/-- The flagged marks of a front are taken out of its text. -/
theorem patches_front {flagged : List FlaggedMark} (hmarks : flagged.map Prod.snd = front.marks)
    (htidy : isTidy front.marks = true) (hbefore : EndsLine before)
    (hsource : source = before ++ (front.text ++ after))
    (hafter : ∃ c cs, after = c :: cs ∧ isBlank c = false) :
    Patches before.length front.text
      (removalsAt source (before.length + front.margin.text.length) flagged)
      (front.pruned flagged).text := by
  have htext : marksText flagged = front.marks.flatMap Mark.text := by
    rw [← hmarks, List.flatMap_map]
    rfl
  have hprune := @patches_prune source (before ++ List.replicate front.margin.above '\n') after
    flagged front.margin.indent (hmarks ▸ htidy) (endsLine_above hbefore _)
    (by rw [htext, hsource]; simp [Front.text, Margin.text]) hafter
  have hstart : (before ++ List.replicate front.margin.above '\n').length +
      front.margin.indent.text.length = before.length + front.margin.text.length := by
    simp [Margin.text, Nat.add_assoc]
  rw [hstart, htext, List.length_append] at hprune
  have hpatches := (Patches.keep before.length (List.replicate front.margin.above '\n')).append hprune
  simpa [Front.text, Margin.text, Front.pruned] using hpatches

theorem exists_lineIndent_front (htidy : isTidy front.marks = true) (hbefore : EndsLine before)
    (hafter : ∃ c cs, after = c :: cs ∧ isBlank c = false) :
    ∃ outer : Indent,
      lineIndent (before ++ (front.text ++ after)) (before.length + front.text.length) =
        outer.text := by
  obtain ⟨outer, houter⟩ := @exists_lineIndent (before ++ List.replicate front.margin.above '\n') after
    front.margin.indent front.marks htidy (endsLine_above hbefore _) hafter
  refine ⟨outer, ?_⟩
  rw [← houter]
  simp [Front.text, Margin.text, Nat.add_assoc]

end Front

/-! ## Nodes -/

/-- Edits in the order of the text that turn the text of a node into that of another,
which stands for the expanded member. -/
structure Node.Rewrites (source : List Char) (unit : String) (inside : Bool) (start : Nat)
    (node : Node) (edits : List Edit) (result : Node) : Prop where
  patches : Patches start node.text edits result.text
  perm : edits.Perm (editsIn source unit inside [node.placed source start])
  member_eq : result.member = node.member.expanded inside
  fits : ∀ place, node.fits place = true → result.fits place = true

/-- Edits in the order of the text that turn the lines of nodes into those of others,
which stand for the expanded members. -/
structure Rewrites (source : List Char) (unit : String) (inside : Bool) (start : Nat)
    (nodes : List Node) (edits : List Edit) (result : List Node) : Prop where
  patches : Patches start (linesOf nodes) edits (linesOf result)
  perm : edits.Perm (editsIn source unit inside (placedAll source start nodes))
  members_eq : membersOf result = expandedAll inside (membersOf nodes)
  fits : ∀ place, allFit place nodes = true → allFit place result = true

section Rewrites

variable {source : List Char} {unit : String} {inside : Bool} {before after : List Char}

/-- A member without edits stays. -/
theorem Node.rewrites_self {node : Node} {start : Nat}
    (hedits : editsIn source unit inside [node.placed source start] = [])
    (hmember : node.member.expanded inside = node.member) :
    node.Rewrites source unit inside start [] node :=
  ⟨.keep _ _, by rw [hedits], hmember.symm, fun _ hfits => hfits⟩

/-- Rewriting the first node and rewriting the rest rewrites the list. -/
theorem Rewrites.cons {node next : Node} {rest others : List Node} {start : Nat}
    {edits more : List Edit} (hnode : node.Rewrites source unit inside start edits next)
    (hrest : Rewrites source unit inside (start + node.text.length + 1) rest more others) :
    Rewrites source unit inside start (node :: rest) (edits ++ more) (next :: others) := by
  constructor
  · have hline := (Patches.keep (start + node.text.length) ['\n']).append hrest.patches
    rw [linesOf_cons, linesOf_cons]
    exact hnode.patches.append hline
  · rw [placedAll]
    exact (hnode.perm.append hrest.perm).trans (editsIn_cons ..)
  · rw [membersOf, membersOf, expandedAll, hnode.member_eq, hrest.members_eq]
  · intro place hfits
    rw [allFit, Bool.and_eq_true] at hfits ⊢
    exact ⟨hnode.fits place hfits.1, hrest.fits place hfits.2⟩

def propertyText (isStatic isVariable : Bool) (name : Name) (type : Ty) : List Char :=
  (if isStatic then "static ".toList else []) ++
    ((specifierOf isVariable).toList ++ ' ' :: (name.text ++ ':' :: ' ' :: type.text))

theorem text_property (front : Front) (isStatic isVariable : Bool) (name : Name) (type : Ty) :
    (Node.property front isStatic isVariable name type).text =
      front.text ++ propertyText isStatic isVariable name type := by
  rw [Node.text, Node.bare, Front.text, propertyText, List.append_assoc]
  rfl

theorem solid_propertyText (isStatic isVariable : Bool) (name : Name) (type : Ty)
    (after : List Char) :
    ∃ c cs, propertyText isStatic isVariable name type ++ after = c :: cs ∧ isBlank c = false := by
  cases isStatic <;> cases isVariable <;> exact ⟨_, _, rfl, rfl⟩

/-- A property of an annotated type loses its default annotations. -/
theorem exists_rewrites_property {front : Front} {isStatic isVariable : Bool} {name : Name}
    {type : Ty} (htidy : isTidy front.marks = true) (hbefore : EndsLine before)
    (hsource : source =
      before ++ ((Node.property front isStatic isVariable name type).text ++ after)) :
    ∃ edits result, (Node.property front isStatic isVariable name type).Rewrites source unit inside
      before.length edits result := by
  cases inside with
  | false =>
      refine ⟨_, _, Node.rewrites_self rfl ?_⟩
      simp [Node.member, Member.expanded]
  | true =>
      rw [text_property, List.append_assoc] at hsource
      have hfront := patches_front (map_snd_flagAll defaultAttribute front.marks) htidy hbefore
        hsource (solid_propertyText ..)
      have hpatches := hfront.append (Patches.keep _ (propertyText isStatic isVariable name type))
      rw [← text_property, ← text_property] at hpatches
      refine ⟨_, _, hpatches, ?_, ?_, fun place hfits => hfits⟩
      · rw [removalsAt_flagAll]
        simp [editsIn, typesOf, Member.types, Node.placed, defaultRemovals, Member.property?]
      · rw [Node.member, Node.member, Member.expanded, Front.pruned, found_prune, found_flagAll]
        rfl

/-! ## Types -/

/-- What stands between the front and the body of a type. -/
def openingText (keyword : TypeKeyword) (name : Name) (inherited : List Name) : List Char :=
  headText keyword name inherited ++ [' ', '\x7b', '\n']

theorem length_openingText (keyword : TypeKeyword) (name : Name) (inherited : List Name) :
    (openingText keyword name inherited).length = (headText keyword name inherited).length + 3 := by
  simp [openingText]

theorem text_type (front : Front) (keyword : TypeKeyword) (name : Name) (inherited : List Name)
    (body : List Node) (last : Indent) :
    (Node.type front keyword name inherited body last).text =
      front.text ++ (openingText keyword name inherited ++
        (linesOf body ++ (last.text ++ ['\x7d']))) := by
  rw [Node.text, Node.bare, Front.text, openingText, List.append_assoc, List.append_assoc]
  rfl

theorem solid_openingText (keyword : TypeKeyword) (name : Name) (inherited : List Name)
    (after : List Char) :
    ∃ c cs, openingText keyword name inherited ++ after = c :: cs ∧ isBlank c = false := by
  cases keyword <;> exact ⟨_, _, rfl, rfl⟩

/-- The declaration that a type stands for when its text begins at an offset. -/
structure PlacedType (source : List Char) (start : Nat) (front : Front) (keyword : TypeKeyword)
    (name : Name) (inherited : List Name) (body : List Node) (last : Indent) (decl : TypeDecl) :
    Prop where
  placed_eq : (Node.type front keyword name inherited body last).placed source start = decl.toMember
  attributes_eq :
    decl.header.attributes = attributesAt (start + front.margin.text.length) front.marks
  members_eq : decl.members = placedAll source
    (start + front.text.length + (openingText keyword name inherited).length) body
  conditional_eq : decl.conditional = []
  keyword_eq : decl.header.keyword = String.ofList keyword.text
  site_eq : decl.site = ⟨start + front.text.length,
    start + front.text.length + (headText keyword name inherited).length + 1,
    start + front.text.length + (openingText keyword name inherited).length +
      (linesOf body).length + last.text.length⟩

theorem exists_placedType (source : List Char) (start : Nat) (front : Front) (keyword : TypeKeyword)
    (name : Name) (inherited : List Name) (body : List Node) (last : Indent) :
    ∃ decl, PlacedType source start front keyword name inherited body last decl := by
  refine ⟨⟨_, _, _⟩, rfl, rfl, ?_, rfl, rfl, ?_⟩
  · rw [length_openingText]
    rfl
  · rw [length_openingText]
    rfl

theorem PlacedType.isSupported {start : Nat} {front : Front} {keyword : TypeKeyword} {name : Name}
    {inherited : List Name} {body : List Node} {last : Indent} {decl : TypeDecl}
    (h : PlacedType source start front keyword name inherited body last decl) :
    decl.IsSupported := by
  rw [TypeDecl.IsSupported, h.keyword_eq]
  cases keyword <;> decide

section OneType

variable {front : Front} {keyword : TypeKeyword} {name : Name} {inherited : List Name}
  {body : List Node} {last : Indent} {decl : TypeDecl}
  (hunit : ∀ c ∈ unit.toList, isSpaceOrTab c = true) (htidy : isTidy front.marks = true)
  (hbefore : EndsLine before)
  (hsource : source = before ++ (front.text ++ (openingText keyword name inherited ++
    (linesOf body ++ (last.text ++ '\x7d' :: after)))))
  (hdecl : PlacedType source before.length front keyword name inherited body last decl)

include hunit htidy hbefore hsource hdecl

/-- The members generated for a type are put behind its body as functions. -/
theorem exists_inserted {generation : Generation} (hgeneration : Generation.ofDecl decl = .ok generation) :
    ∃ (above : Nat) (indent : Indent) (functions : List Function),
      functions.length = decl.generatedCount ∧
      insertion source decl.site (renderMembers unit generation.members).toList unit.toList =
        ⟨before.length + front.text.length + (openingText keyword name inherited).length +
            (linesOf body).length,
          before.length + front.text.length + (openingText keyword name inherited).length +
            (linesOf body).length,
          linesOf (functionNodes above indent functions)⟩ := by
  obtain ⟨outer, houter⟩ := @exists_lineIndent_front before _ front htidy hbefore
    (solid_openingText keyword name inherited (linesOf body ++ (last.text ++ '\x7d' :: after)))
  have hblank : ∀ c ∈ outer.text ++ unit.toList, isSpaceOrTab c = true :=
    fun c hc => (List.mem_append.1 hc).elim (outer.blank c) (hunit c)
  have hopening := length_openingText keyword name inherited
  have hwhole : source = before ++ (front.text ++ (headText keyword name inherited ++ [' '])) ++
      ('\x7b' :: '\n' :: (linesOf body ++ (last.text ++ '\x7d' :: after))) := by
    simp [hsource, openingText]
  have hinsertion := @insertion_line
    (before ++ (front.text ++ (headText keyword name inherited ++ [' ']))) (linesOf body) last.text
    after outer.text decl.site (endsLine_linesOf body) last.blank
    (by simp [hdecl.site_eq, Nat.add_assoc]) (by simp [hdecl.site_eq, hopening, Nat.add_assoc])
    (by rw [← hwhole, hdecl.site_eq, hsource, houter])
    (renderMembers unit generation.members).toList unit.toList
  obtain ⟨above, habove⟩ : ∃ above, (if isBlankText ('\n' :: linesOf body) ||
      endsWithBlankLine ('\n' :: linesOf body) then [] else ['\n']) = List.replicate above '\n' := by
    split
    · exact ⟨0, rfl⟩
    · exact ⟨1, rfl⟩
  obtain ⟨functions, hlength, hlines⟩ := (plainGeneration_ofDecl hdecl.members_eq
    hgeneration).exists_functions hunit ⟨outer.text ++ unit.toList, hblank⟩ above
  rw [length_members_ofDecl hgeneration] at hlength
  refine ⟨above, ⟨outer.text ++ unit.toList, hblank⟩, functions, hlength, ?_⟩
  rw [hwhole, hinsertion, habove, ← hlines, hopening, List.append_assoc]
  simp [Nat.add_assoc]

/-- Before the last brace of an annotated type stand generated functions, before others
nothing. -/
theorem exists_generated {edits : List Edit}
    (hedits : edits.Perm (editsIn source unit decl.trigger?.isSome decl.members)) :
    ∃ (more : List Edit) (functions : List Node),
      Patches (before.length + front.text.length + (openingText keyword name inherited).length +
        (linesOf body).length) (last.text ++ ['\x7d']) more
          (linesOf functions ++ (last.text ++ ['\x7d'])) ∧
      (decl.trigger?.toList.map (fun found => removal source found.start found.stop) ++
        (edits ++ more)).Perm (editsIn source unit inside [decl.toMember]) ∧
      membersOf functions = (if decl.trigger?.isSome then
        List.replicate decl.generatedCount generatedMember else []) ∧
      allFit keyword.place functions = true := by
  cases htrigger : decl.trigger? with
  | none =>
      rw [htrigger] at hedits
      refine ⟨[], [], .keep _ _, ?_, rfl, rfl⟩
      rw [List.append_nil, ← editsIn_plain hdecl.conditional_eq htrigger]
      exact hedits
  | some found =>
      obtain ⟨generation, hgeneration⟩ := TypeDecl.exists_generation hdecl.isSupported
      obtain ⟨above, indent, functions, hlength, hinsertion⟩ :=
        exists_inserted hunit htidy hbefore hsource hdecl hgeneration
      have hsome : decl.trigger?.isSome = true := by
        rw [htrigger]
        rfl
      have hperm := @editsIn_annotated source unit inside decl hdecl.conditional_eq hsome _ hgeneration
      rw [hsome] at hedits
      refine ⟨_, functionNodes above indent functions, .insert _ (by simp) _, ?_, ?_,
        allFit_functionNodes ..⟩
      · rw [← hinsertion, ← htrigger]
        exact ((hedits.append_right _).append_left _).trans hperm
      · rw [membersOf_functionNodes, hlength]
        rfl

/-- An annotated type loses its trigger and gains functions, and any type has its body
rewritten. -/
theorem exists_rewrites_type (hbody : ∀ inside, ∃ edits result, Rewrites source unit inside
      (before.length + front.text.length + (openingText keyword name inherited).length) body edits
        result) :
    ∃ edits result, (Node.type front keyword name inherited body last).Rewrites source unit inside
      before.length edits result := by
  have hfront := patches_front (map_snd_flagFirst triggerAttribute front.marks) htidy hbefore hsource
    (solid_openingText ..)
  obtain ⟨edits, inner, hinner⟩ := hbody decl.trigger?.isSome
  obtain ⟨more, functions, hfunctions, hperm, hgenerated, hplaces⟩ := @exists_generated source unit
    inside before after front keyword name inherited body last decl hunit htidy hbefore hsource hdecl
    edits (hdecl.members_eq ▸ hinner.perm)
  have htrigger : removalsAt source (before.length + front.margin.text.length)
      (flagFirst triggerAttribute front.marks) =
        decl.trigger?.toList.map fun found => removal source found.start found.stop := by
    rw [removalsAt_flagFirst, ← hdecl.attributes_eq]
    rfl
  have hpatches := hfront.append ((Patches.keep _ (openingText keyword name inherited)).append
    (hinner.patches.append hfunctions))
  rw [htrigger, List.nil_append, ← List.append_assoc (linesOf inner), ← linesOf_append, ← text_type,
    ← text_type] at hpatches
  refine ⟨_, _, hpatches, hdecl.placed_eq ▸ hperm, ?_, ?_⟩
  · have hmember := withoutPlaces_placed source before.length
      (.type front keyword name inherited body last)
    rw [hdecl.placed_eq] at hmember
    rw [← hmember, expanded_withoutPlaces]
    rw [TypeDecl.toMember, Member.withoutPlaces, Node.member] at hmember
    obtain ⟨hheader, hmembers, hconditional⟩ := Member.type.inj hmember
    rw [Node.member, membersOf_append, hinner.members_eq, hgenerated, Front.pruned, found_prune,
      found_flagFirst, hheader, hmembers, hconditional]
    rfl
  · intro place hfits
    rw [Node.fits, Bool.and_eq_true] at hfits ⊢
    rw [allFit_append, Bool.and_eq_true]
    exact ⟨hfits.1, hinner.fits _ hfits.2, hplaces⟩

end OneType

mutual

/-- Every node can be rewritten. -/
theorem Node.exists_rewrites (hunit : ∀ c ∈ unit.toList, isSpaceOrTab c = true) :
    ∀ (node : Node) {inside : Bool} {before after : List Char}, node.isTidy = true →
    EndsLine before → source = before ++ (node.text ++ after) →
    ∃ edits result, node.Rewrites source unit inside before.length edits result
  | .property .., _, _, _, htidy, hbefore, hsource =>
      exists_rewrites_property htidy hbefore hsource
  | .cases .., inside, _, _, _, _, _ => ⟨_, _, Node.rewrites_self (by cases inside <;> rfl) rfl⟩
  | .initializer .., inside, _, _, _, _, _ => ⟨_, _, Node.rewrites_self (by cases inside <;> rfl) rfl⟩
  | .function .., inside, _, _, _, _, _ => ⟨_, _, Node.rewrites_self (by cases inside <;> rfl) rfl⟩
  | .type front keyword name inherited body last, inside, before, after, htidy, hbefore, hsource => by
      rw [Node.isTidy, Bool.and_eq_true] at htidy
      have hwhole : source = before ++ (front.text ++ (openingText keyword name inherited ++
          (linesOf body ++ (last.text ++ '\x7d' :: after)))) := by
        rw [hsource, text_type]
        simp
      obtain ⟨decl, hdecl⟩ :=
        exists_placedType source before.length front keyword name inherited body last
      refine exists_rewrites_type hunit htidy.1 hbefore hwhole hdecl fun inside => ?_
      have hopening : EndsLine (before ++ (front.text ++ openingText keyword name inherited)) :=
        Or.inr ⟨before ++ (front.text ++ (headText keyword name inherited ++ [' ', '\x7b'])), by
          simp [openingText]⟩
      have hinner := @exists_rewrites hunit body inside _ (last.text ++ '\x7d' :: after) htidy.2 hopening
        (by simp [hwhole])
      simpa [Nat.add_assoc] using hinner

/-- All nodes can be rewritten. -/
theorem exists_rewrites (hunit : ∀ c ∈ unit.toList, isSpaceOrTab c = true) :
    ∀ (nodes : List Node) {inside : Bool} {before after : List Char}, allTidy nodes = true →
    EndsLine before → source = before ++ (linesOf nodes ++ after) →
    ∃ edits result, Rewrites source unit inside before.length nodes edits result
  | [], inside, _, _, _, _, _ => ⟨[], [], .keep _ _, by cases inside <;> exact .refl _, rfl, fun _ h => h⟩
  | node :: rest, inside, before, after, htidy, hbefore, hsource => by
      rw [allTidy, Bool.and_eq_true] at htidy
      rw [linesOf_cons] at hsource
      have hline : EndsLine (before ++ (node.text ++ ['\n'])) :=
        Or.inr ⟨before ++ node.text, by simp⟩
      obtain ⟨edits, next, hnode⟩ := @Node.exists_rewrites hunit node inside before
        ('\n' :: (linesOf rest ++ after)) htidy.1 hbefore (by simpa using hsource)
      obtain ⟨more, others, hrest⟩ := @exists_rewrites hunit rest inside _ after htidy.2 hline
        (by simpa using hsource)
      rw [List.length_append, List.length_append, ← Nat.add_assoc] at hrest
      exact ⟨_, _, Rewrites.cons hnode hrest⟩

end

end Rewrites

/-! ## Files -/

mutual

/-- Every type of an outline can carry a generator. -/
theorem isSupported_of_mem_types {source : List Char} {decl : TypeDecl} :
    ∀ (node : Node) {start : Nat}, decl ∈ (node.placed source start).types → decl.IsSupported
  | .property .., _, h => by cases h
  | .cases .., _, h => by cases h
  | .initializer .., _, h => by cases h
  | .function .., _, h => by cases h
  | .type front keyword name inherited body last, start, h => by
      obtain ⟨outer, houter⟩ := exists_placedType source start front keyword name inherited body last
      rw [houter.placed_eq, TypeDecl.toMember, Member.types, houter.conditional_eq, typesOf,
        List.append_nil, houter.members_eq] at h
      rcases List.mem_cons.1 h with rfl | h
      · exact houter.isSupported
      · exact isSupported_of_mem_typesOf body h

theorem isSupported_of_mem_typesOf {source : List Char} {decl : TypeDecl} :
    ∀ (nodes : List Node) {start : Nat}, decl ∈ typesOf (placedAll source start nodes) →
    decl.IsSupported
  | [], _, h => by cases h
  | node :: rest, start, h => by
      rw [placedAll, typesOf, List.mem_append] at h
      exact h.elim (isSupported_of_mem_types node) (isSupported_of_mem_typesOf rest)

end

/-- The annotated types of an outline generate their members. -/
theorem exists_generateAll {source : List Char} {start : Nat} {sheet : List Node}
    {decls : List TypeDecl} (hdecls : decls.map TypeDecl.toMember = placedAll source start sheet) :
    ∃ generated, generateAll (annotated decls) = .ok generated ∧
      generated.map Prod.fst = annotated decls := by
  refine generateAll_eq_ok fun decl hdecl => ?_
  have hmem := (walk_perm decls).mem_iff.1 (List.mem_filter.1 hdecl).1
  rw [hdecls] at hmem
  exact isSupported_of_mem_typesOf sheet hmem

section Expand

variable {language : Language} {sheet : List Node}

/-- The expansion of an outline is an outline of the expanded declarations. -/
theorem exists_expand_linesOf (hfits : allFit .file sheet = true) (htidy : allTidy sheet = true)
    (hderives : language.Derives sheet) (format : Format) (filename : String) :
    ∃ (expansion : Expansion) (result : List Node),
      expand language format.unit filename (linesOf sheet) = .ok expansion ∧
      expansion.source = linesOf result ∧ allFit .file result = true ∧
      membersOf result = expandedAll false (membersOf sheet) := by
  obtain ⟨decls, hparse, hdecls⟩ := exists_parse_linesOf hfits hderives
  obtain ⟨generated, hgenerated, -⟩ := exists_generateAll hdecls
  obtain ⟨edits, result, hrewrites⟩ := @exists_rewrites (linesOf sheet) format.unit
    (isSpaceOrTab_unit format) sheet false [] [] htidy (Or.inl rfl) (by simp)
  have hcollected : edits.Perm (collectedEdits (linesOf sheet) format.unit generated) := by
    have hedits : collectedEdits (linesOf sheet) format.unit generated =
        (annotated decls).flatMap (·.ownEdits (linesOf sheet) format.unit) :=
      flatMap_ownEdits hgenerated
    have hwalk := ((walk_perm decls).filter fun decl => decl.trigger?.isSome).flatMap_right
      fun decl => decl.ownEdits (linesOf sheet) format.unit
    have hperm := hrewrites.perm
    rw [List.length_nil, ← hdecls, editsIn, if_neg Bool.false_ne_true, List.append_nil] at hperm
    rw [hedits]
    exact hperm.trans hwalk.symm
  exact ⟨applyGenerated (linesOf sheet) format.unit generated, result,
    expand_eq_ok hparse hgenerated, hrewrites.patches.applyAll_eq hcollected,
    hrewrites.fits _ hfits, hrewrites.members_eq⟩

/-- Expanding an outline succeeds and leaves an outline of the expanded declarations.  If the
language derives it, reading the expanded text gives these declarations. -/
theorem expand_linesOf (hfits : allFit .file sheet = true) (htidy : allTidy sheet = true)
    (hderives : language.Derives sheet) (format : Format) (filename : String) :
    ∃ (expansion : Expansion) (result : List Node),
      expand language format.unit filename (linesOf sheet) = .ok expansion ∧
      expansion.source = linesOf result ∧ allFit .file result = true ∧
      membersOf result = expandedAll false (membersOf sheet) ∧
      (language.Derives result → ∃ decls, parse language expansion.source = .ok decls ∧
        decls.map (fun decl => decl.toMember.withoutPlaces) =
          expandedAll false (membersOf sheet)) := by
  obtain ⟨expansion, result, hexpand, hsource, hresult, hmembers⟩ :=
    exists_expand_linesOf hfits htidy hderives format filename
  refine ⟨expansion, result, hexpand, hsource, hresult, hmembers, fun hagain => ?_⟩
  obtain ⟨decls, hparse, hdecls⟩ := exists_parse_linesOf hresult hagain
  exact ⟨decls, hsource ▸ hparse, (map_withoutPlaces hdecls).trans hmembers⟩

end Expand

def Indent.spaces (width : Nat) : Indent :=
  ⟨List.replicate width ' ', fun c hc => by
    rw [List.eq_of_mem_replicate hc]
    rfl⟩

def triggerName : Name :=
  .ofWord triggerAttribute (by decide)

/-- An annotated struct in another one, with a default annotation between other attributes. -/
def orderOutline : List Node :=
  let other : Name := .ofWord "Other" (by decide)
  let number : Literal := ⟨⟨['7'], by simp, List.all_eq_true.1 (by decide)⟩, false⟩
  [.type ⟨⟨0, .spaces 0⟩, [⟨other, some number, .line (.spaces 0)⟩,
      ⟨triggerName, none, .line (.spaces 0)⟩]⟩ .structType (.ofWord "Order" (by decide))
    [.ofWord "Sendable" (by decide)]
    [.type ⟨⟨0, .spaces 2⟩, [⟨triggerName, none, .space⟩]⟩ .structType
      (.ofWord "Line" (by decide)) []
      [.property ⟨⟨0, .spaces 4⟩, [⟨.ofWord defaultAttribute (by decide), some number,
          .line (.spaces 4)⟩, ⟨other, none, .space⟩]⟩ false false (.ofWord "total" (by decide))
        (.named (.ofWord "Double" (by decide)))]
      (.spaces 2)]
    (.spaces 0)]

/-- The outline of its expansion: a helper and a generator in the inner struct, and a generator
in the outer one. -/
def orderExpanded : List Node :=
  let double : Ty := .named (.ofWord "Double" (by decide))
  let other : Name := .ofWord "Other" (by decide)
  let total : Name := .ofWord "total" (by decide)
  let helper : Name := .ofWord "_autoFakeDefault_total" (by decide)
  let number : Literal := ⟨⟨['7'], by simp, List.all_eq_true.1 (by decide)⟩, false⟩
  let line (width : Nat) : Blank := .newLine (.spaces width)
  [.type ⟨⟨0, .spaces 0⟩, [⟨other, some number, .line (.spaces 0)⟩]⟩ .structType
    (.ofWord "Order" (by decide)) [.ofWord "Sendable" (by decide)]
    [.type ⟨⟨0, .spaces 2⟩, []⟩ .structType (.ofWord "Line" (by decide)) []
        [.property ⟨⟨0, .spaces 4⟩, [⟨other, none, .space⟩]⟩ false false total double,
          .function ⟨1, .spaces 4⟩ ⟨helper, .nil, [], .nil, double, line 6,
            ⟨true, .integer number⟩, line 4⟩,
          .function ⟨1, .spaces 4⟩ ⟨fakeName, line 6, [⟨total, double, .call (.name helper) .nil
              .nil .nil⟩], line 4, .named selfName, line 6, ⟨false, .call (.name selfName) (line 8)
              (.cons (some total) (.name total) .nil) (line 6)⟩, line 4⟩]
        (.spaces 2),
      .function ⟨1, .spaces 2⟩ ⟨fakeName, .nil, [], .nil, .named selfName, line 4,
        ⟨false, .call (.name selfName) .nil .nil .nil⟩, line 2⟩]
    (.spaces 0)]

theorem expand_linesOf_orderOutline :
    allFit .file orderOutline = true ∧ allTidy orderOutline = true ∧ swift.Derives orderOutline ∧
    swift.Derives orderExpanded ∧
    (∃ (expansion : Expansion) (result : List Node),
      expand swift (Format.unit ⟨2, false⟩) "Order.swift" (linesOf orderOutline) = .ok expansion ∧
      expansion.source = linesOf result ∧ allFit .file result = true ∧
      membersOf result = expandedAll false (membersOf orderOutline) ∧
      (swift.Derives result → ∃ decls, parse swift expansion.source = .ok decls ∧
        decls.map (fun decl => decl.toMember.withoutPlaces) =
          expandedAll false (membersOf orderOutline))) ∧
    ∃ expansion decls,
      expand swift (Format.unit ⟨2, false⟩) "Order.swift" (linesOf orderOutline) = .ok expansion ∧
      expansion.source = linesOf orderExpanded ∧ parse swift expansion.source = .ok decls ∧
      decls.map (fun decl => decl.toMember.withoutPlaces) =
        expandedAll false (membersOf orderOutline) := by
  have hderives : swift.Derives orderOutline := by decide +kernel
  have hagain : swift.Derives orderExpanded := by decide +kernel
  have htrial : (trial? swift (Format.unit ⟨2, false⟩) (linesOf orderOutline)).map (·.2.2) =
      some (linesOf orderExpanded) := by
    decide +kernel
  obtain ⟨⟨counts, removed, text⟩, hfound, htext⟩ := Option.map_eq_some_iff.1 htrial
  obtain ⟨-, expansion, -, -, -, hexpand, hsource⟩ := exists_of_trial? hfound "Order.swift"
  have hexpanded : expansion.source = linesOf orderExpanded := hsource.trans htext
  obtain ⟨decls, hparse, hdecls⟩ := @exists_parse_linesOf _ orderExpanded rfl hagain
  have hmembers : membersOf orderExpanded = expandedAll false (membersOf orderOutline) := rfl
  exact ⟨rfl, rfl, hderives, hagain, expand_linesOf rfl rfl hderives ⟨2, false⟩ "Order.swift",
    expansion, decls, hexpand, hexpanded, hexpanded ▸ hparse,
    (map_withoutPlaces hdecls).trans hmembers⟩

end Fakery.Outline
