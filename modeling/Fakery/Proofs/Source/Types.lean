import Fakery.Proofs.Expansion.Declarations
import Fakery.Proofs.Source.Laminar

/-!
# The types of a tree

A walk over the declarations of a file meets what its tree has of types: the nodes of types
that stand in the file or in the bodies of others.  What is kept of such a node here is its
keyword and its attributes.
-/

namespace Fakery

namespace SyntaxNode

mutual

/-- The type that a node is, and the types in its body. -/
def typeNodes : SyntaxNode → List SyntaxNode
  | node@⟨_, _, _, _, _, _, _, children⟩ => if node.isType then node :: bodyTypes children else []

def bodyTypes : List SyntaxNode → List SyntaxNode
  | [] => []
  | child :: rest => if child.field == some "body" then child.innerTypes else bodyTypes rest

/-- The types among the children of a node, and those in their bodies. -/
def innerTypes : SyntaxNode → List SyntaxNode
  | ⟨_, _, _, _, _, _, _, children⟩ => typesAmong children

def typesAmong : List SyntaxNode → List SyntaxNode
  | [] => []
  | child :: rest => (if child.isNamed then child.typeNodes else []) ++ typesAmong rest

end

def IsComplete (node : SyntaxNode) : Prop :=
  (node.child? "declaration_kind").isSome = true ∧ (node.child? "body").isSome = true

instance (node : SyntaxNode) : Decidable node.IsComplete :=
  inferInstanceAs (Decidable (_ ∧ _))

/-- The keyword and the attributes of a type. -/
def signature (source : List Char) (node : SyntaxNode) : String × List Attribute :=
  (((node.child? "declaration_kind").map (text source)).getD "", node.attributes source)

/-- What holds of a node if it holds of its children holds of all nodes. -/
theorem child_induction {motive : SyntaxNode → Prop}
    (step : ∀ node : SyntaxNode, (∀ child ∈ node.children, motive child) → motive node)
    (node : SyntaxNode) : motive node :=
  step node fun child _ => child_induction step child
termination_by sizeOf node
decreasing_by
  have hlt := List.sizeOf_lt_of_mem ‹child ∈ node.children›
  cases node
  simp only [mk.sizeOf_spec] at hlt ⊢
  omega

theorem innerTypes_eq (node : SyntaxNode) : node.innerTypes = typesAmong node.children := by
  cases node
  rw [innerTypes]

theorem bodyTypes_eq (children : List SyntaxNode) :
    bodyTypes children =
      ((children.find? (·.field == some "body")).map innerTypes).getD [] := by
  induction children with
  | nil => rfl
  | cons child rest ih =>
      rw [bodyTypes, List.find?_cons, ih]
      cases child.field == some "body" <;> rfl

theorem typeNodes_of_isType {node : SyntaxNode} (htype : node.isType = true) :
    node.typeNodes = node :: ((node.child? "body").map innerTypes).getD [] := by
  cases node
  rw [typeNodes, if_pos htype, bodyTypes_eq]
  rfl

theorem typeNodes_of_not_isType {node : SyntaxNode} (htype : node.isType = false) :
    node.typeNodes = [] := by
  cases node
  rw [typeNodes, if_neg (by rw [htype]; exact Bool.false_ne_true)]

/-- Comments and directives are no types. -/
theorem isType_of_passed {node : SyntaxNode}
    (h : (node.isTrivia || node.kind == "directive") = true) : node.isType = false := by
  simp only [isTrivia, List.contains_cons, List.contains_nil, Bool.or_eq_true, beq_iff_eq,
    Bool.or_false] at h
  rcases h with (hkind | hkind | hkind) | hkind <;> simp [isType, hkind]

end SyntaxNode

def TypeDecl.signature (decl : TypeDecl) : String × List Attribute :=
  (decl.header.keyword, decl.header.attributes)

namespace SyntaxNode

variable {source : List Char} {node : SyntaxNode}

/-! ## What is lifted out of a type -/

theorem typesOf_perm {members others : List Member} (h : members.Perm others) :
    (typesOf members).Perm (typesOf others) := by
  rw [typesOf_eq_flatMap, typesOf_eq_flatMap]
  exact h.flatMap_right _

theorem typesOf_plainMember? : typesOf (node.plainMember? source).toList = [] := by
  unfold plainMember?
  repeat' split
  all_goals rfl

/-- The members among nodes hold the types among the nodes if each node does. -/
theorem signatures_items {nodes : List SyntaxNode} {found : List Item}
    (hnodes : ∀ child ∈ nodes, ∀ m, member? source child = .ok m →
      ((typesOf m.toList).map TypeDecl.signature).Perm (child.typeNodes.map (signature source)))
    (h : items source nodes = .ok found) :
    ((typesOf (membersAmong found)).map TypeDecl.signature).Perm
      ((typesAmong nodes).map (signature source)) := by
  induction nodes generalizing found with
  | nil =>
      cases h
      exact .refl _
  | cons child rest ih =>
      obtain ⟨more, hmore, hfound⟩ := items_cons.1 h
      have hrest := ih (fun part hpart => hnodes part (List.mem_cons_of_mem _ hpart)) hmore
      rw [typesAmong, List.map_append]
      split at hfound
      · next hpassed =>
          have hnone : (if child.isNamed then child.typeNodes else []) = [] := by
            cases hnamed : child.isNamed with
            | false => rfl
            | true =>
                rw [hnamed, Bool.not_true, Bool.false_or] at hpassed
                exact typeNodes_of_not_isType (isType_of_passed (by simp [hpassed]))
          rw [hfound, hnone]
          exact hrest
      · next hnamed =>
          rw [Bool.or_eq_true, not_or, Bool.not_eq_true', Bool.not_eq_false] at hnamed
          rw [if_pos hnamed.1]
          split at hfound
          · next hdirective =>
              rw [hfound, typeNodes_of_not_isType (isType_of_passed (by simp [hdirective]))]
              exact hrest
          · obtain ⟨m, hm, rfl⟩ := hfound
            have hmembers : membersAmong (m.toList.map Item.member ++ more) =
                m.toList ++ membersAmong more := by
              cases m <;> rfl
            rw [hmembers, typesOf_append, List.map_append]
            exact (hnodes child List.mem_cons_self m hm).append hrest

/-- What is lifted out of a node holds the types of the node, and what is lifted out of its
children those in it. -/
theorem signatures_lifted (source : List Char) (node : SyntaxNode) :
    (∀ m, member? source node = .ok m →
      ((typesOf m.toList).map TypeDecl.signature).Perm (node.typeNodes.map (signature source))) ∧
    ∀ found, items source node.children = .ok found →
      ((typesOf (membersAmong found)).map TypeDecl.signature).Perm
        (node.innerTypes.map (signature source)) := by
  induction node using child_induction with
  | step node ih =>
      refine ⟨fun m hm => ?_, fun found hfound => ?_⟩
      · cases htype : node.isType with
        | false =>
            rw [member?_of_not_isType htype, Except.ok.injEq] at hm
            rw [← hm, typesOf_plainMember?, typeNodes_of_not_isType htype]
            exact .refl _
        | true =>
            obtain ⟨keyword, body, inside, hkeyword, hbody, hitems, rfl⟩ :=
              (member?_of_isType htype).1 hm
            have hinside := (ih body (List.mem_of_find?_eq_some hbody)).2 inside hitems
            have hmembers := (typesOf_perm (separate_perm 0 inside)).map TypeDecl.signature
            have hhead : TypeDecl.signature ⟨header source node keyword body,
                (separate 0 inside).1, (separate 0 inside).2⟩ = node.signature source := by
              rw [signature, hkeyword]
              rfl
            rw [typeNodes_of_isType htype, hbody, Option.map_some, Option.getD_some, List.map_cons,
              Option.toList_some, typesOf, typesOf, List.append_nil, Member.types, List.map_cons,
              hhead, ← typesOf_append]
            exact (hmembers.trans hinside).cons _
      · rw [innerTypes_eq]
        exact signatures_items (fun child hchild => (ih child hchild).1) hfound

/-- Nodes are read if the types among them are complete. -/
theorem exists_items {nodes : List SyntaxNode}
    (hnodes : ∀ child ∈ nodes, (∀ part ∈ child.typeNodes, part.IsComplete) →
      ∃ m, member? source child = .ok m)
    (h : ∀ part ∈ typesAmong nodes, part.IsComplete) : ∃ found, items source nodes = .ok found := by
  induction nodes with
  | nil => exact ⟨[], rfl⟩
  | cons child rest ih =>
      rw [typesAmong, List.forall_mem_append] at h
      obtain ⟨more, hmore⟩ := ih (fun part hpart => hnodes part (List.mem_cons_of_mem _ hpart)) h.2
      by_cases hpassed : !child.isNamed || child.isTrivia
      · exact ⟨more, items_cons.2 ⟨more, hmore, by rw [if_pos hpassed]⟩⟩
      · have hnamed : child.isNamed = true := by
          cases hnamed : child.isNamed with
          | false => simp [hnamed] at hpassed
          | true => rfl
        rw [if_pos hnamed] at h
        by_cases hdirective : child.kind == "directive"
        · exact ⟨_, items_cons.2 ⟨more, hmore, by rw [if_neg hpassed, if_pos hdirective]⟩⟩
        · obtain ⟨m, hm⟩ := hnodes child List.mem_cons_self h.1
          refine ⟨m.toList.map .member ++ more, items_cons.2 ⟨more, hmore, ?_⟩⟩
          rw [if_neg hpassed, if_neg hdirective]
          exact ⟨m, hm, rfl⟩

/-- A node is lifted where the types it holds are complete. -/
theorem exists_lifted (source : List Char) (node : SyntaxNode) :
    ((∀ part ∈ node.typeNodes, part.IsComplete) → ∃ m, member? source node = .ok m) ∧
      ((∀ part ∈ node.innerTypes, part.IsComplete) →
        ∃ found, items source node.children = .ok found) := by
  induction node using child_induction with
  | step node ih =>
      refine ⟨fun hcomplete => ?_, fun hcomplete => ?_⟩
      · cases htype : node.isType with
        | false => exact ⟨_, member?_of_not_isType htype⟩
        | true =>
            rw [typeNodes_of_isType htype, List.forall_mem_cons] at hcomplete
            obtain ⟨⟨hkeyword, hbody⟩, hinside⟩ := hcomplete
            obtain ⟨keyword, hkeyword⟩ := Option.isSome_iff_exists.1 hkeyword
            obtain ⟨body, hbody⟩ := Option.isSome_iff_exists.1 hbody
            rw [hbody, Option.map_some, Option.getD_some] at hinside
            obtain ⟨found, hfound⟩ := (ih body (List.mem_of_find?_eq_some hbody)).2 hinside
            exact ⟨_, (member?_of_isType htype).2
              ⟨keyword, body, found, hkeyword, hbody, hfound, rfl⟩⟩
      · rw [innerTypes_eq] at hcomplete
        exact exists_items (fun child hchild => (ih child hchild).1) hcomplete

end SyntaxNode

/-! ## Files -/

section Files

variable {language : Language} {source : List Char}

/-- A walk meets the types of the tree. -/
theorem walk_signatures {decls : List TypeDecl} (h : parse language source = .ok decls) :
    ((walk decls).map TypeDecl.signature).Perm
      ((language.tree (Text.Utf8.encode source)).innerTypes.map
        (SyntaxNode.signature source)) := by
  obtain ⟨-, items, hitems, rfl⟩ := parse_eq_ok.1 h
  have hsorted := List.mergeSort_perm
    (((separate 0 items).1 ++ (separate 0 items).2).filterMap Member.typeDecl?)
    fun a b => decide (a.header.start ≤ b.header.start)
  have htypes := SyntaxNode.typesOf_perm (hsorted.map TypeDecl.toMember)
  rw [(typesOf_filterMap _).1] at htypes
  have hmet := (walk_perm _).trans (htypes.trans (SyntaxNode.typesOf_perm (separate_perm 0 items)))
  exact (hmet.map TypeDecl.signature).trans
    ((SyntaxNode.signatures_lifted source _).2 items hitems)

/-- A file is read if its tree has no error and its types are complete. -/
theorem exists_parse (hintact : (language.tree (Text.Utf8.encode source)).hasError = false)
    (hcomplete : ∀ node ∈ (language.tree (Text.Utf8.encode source)).innerTypes,
      node.IsComplete) :
    ∃ decls, parse language source = .ok decls := by
  obtain ⟨items, hitems⟩ := (SyntaxNode.exists_lifted source _).2 hcomplete
  exact ⟨_, parse_eq_ok.2 ⟨hintact, items, hitems, rfl⟩⟩

end Files

end Fakery
