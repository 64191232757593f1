import Fakery.Source.File

/-!
# Faults of a syntax tree

A text is refused if any node of its tree is an error or missing.  What is said is about the
first such node, although the search for it leaves out the parts of the tree without errors.
-/

namespace Fakery

namespace SyntaxNode

mutual

/-- A node and all nodes in it, every node before its children. -/
def subnodes : SyntaxNode → List SyntaxNode
  | node@⟨_, _, _, _, _, _, _, children⟩ => node :: subnodesOf children

def subnodesOf : List SyntaxNode → List SyntaxNode
  | [] => []
  | child :: rest => child.subnodes ++ subnodesOf rest

end

mutual

/-- A tree has an error if one of its nodes is an error or missing. -/
theorem hasError_eq_any : ∀ node : SyntaxNode, node.hasError = node.subnodes.any isFault
  | ⟨kind, field, isNamed, isMissing, startByte, endByte, startPoint, children⟩ => by
      rw [hasError, subnodes, List.any_cons, anyHasError_eq_any children]
      rfl

theorem anyHasError_eq_any : ∀ nodes : List SyntaxNode,
    anyHasError nodes = (subnodesOf nodes).any isFault
  | [] => rfl
  | child :: rest => by
      rw [anyHasError, subnodesOf, List.any_append, hasError_eq_any child, anyHasError_eq_any rest]

end

/-- Nothing is found in a part of the tree that is left out. -/
theorem find?_subnodes_of_not_hasError {node : SyntaxNode} (h : node.hasError = false) :
    node.subnodes.find? isFault = none := by
  rw [hasError_eq_any, List.any_eq_false] at h
  exact List.find?_eq_none.2 h

mutual

theorem firstError?_eq_find? : ∀ node : SyntaxNode,
    node.firstError? = node.subnodes.find? isFault
  | ⟨kind, field, isNamed, isMissing, startByte, endByte, startPoint, children⟩ => by
      rw [firstError?, subnodes, List.find?_cons, firstErrorIn?_eq_find? children]
      split
      · next hfault => rw [hfault]
      · next hfault => rw [(Bool.not_eq_true _).mp hfault]

theorem firstErrorIn?_eq_find? : ∀ nodes : List SyntaxNode,
    firstErrorIn? nodes = (subnodesOf nodes).find? isFault
  | [] => rfl
  | child :: rest => by
      rw [firstErrorIn?, subnodesOf, List.find?_append, firstErrorIn?_eq_find? rest]
      split
      · rw [firstError?_eq_find? child]
      · next hclean =>
          rw [Bool.or_eq_true, not_or, Bool.not_eq_true] at hclean
          rw [find?_subnodes_of_not_hasError hclean.1, Option.none_or]

end

end SyntaxNode

/-- A text whose tree has a fault is refused with what is said about the first one. -/
theorem parse_eq_error {language : Language} {source : List Char} {found : SyntaxNode}
    (h : (language.tree (Text.Utf8.encode source)).subnodes.find? SyntaxNode.isFault = some found) :
    parse language source = .error (found.syntaxError source) := by
  have herror : (language.tree (Text.Utf8.encode source)).hasError = true := by
    rw [SyntaxNode.hasError_eq_any, List.any_eq_true]
    exact ⟨found, List.mem_of_find?_eq_some h, List.find?_some h⟩
  simp only [parse]
  rw [if_pos herror, SyntaxNode.firstSyntaxError, SyntaxNode.firstError?_eq_find?, h]

end Fakery
