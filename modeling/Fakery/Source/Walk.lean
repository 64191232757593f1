import Fakery.Source.Declaration

/-!
# Walking nested declarations

`walk` visits every type declaration of a file before the declarations nested in
it, with a list of pending declarations.
-/

namespace Fakery

mutual

/-- The number of type declarations in a member, itself included. -/
def Member.typeCount : Member → Nat
  | .type _ members conditional => 1 + typeCounts members + typeCounts conditional
  | _ => 0

/-- The number of type declarations in a list of members. -/
def typeCounts : List Member → Nat
  | [] => 0
  | member :: rest => member.typeCount + typeCounts rest

end

/-- Visits pending declarations for at most `steps` steps: the first one, then what
is nested in it, then the others. -/
def walkFrom : (steps : Nat) → (pending : List TypeDecl) → List TypeDecl
  | 0, _ => []
  | _, [] => []
  | steps + 1, decl :: pending => decl :: walkFrom steps (decl.nested ++ pending)

/-- Every type declaration of a file, outer declarations before nested ones. -/
def walk (decls : List TypeDecl) : List TypeDecl :=
  walkFrom (typeCounts (decls.map TypeDecl.toMember)) decls

end Fakery
