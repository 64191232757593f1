import Fakery.Expansion
import Fakery.Json.Parse
import Fakery.Settings.Format

/-!
# The expansion service

Requests and responses as values.  `/health` says that the service is up; `/expand`
takes a source and an optional file name and gives the expanded source.
-/

namespace Fakery.Service

structure Request where
  method : String
  path : String
  body : List Char := []
  deriving Repr

/-- A response.  A refused body has no body of its own here: it has no content that
anybody relies on. -/
structure Response where
  status : Nat
  body : Option Json

def detail (status : Nat) (text : String) : Response :=
  ⟨status, some (.object [("detail", .text text)])⟩

/-- The path of a request without query and without a slash at its end. -/
def routeOf (path : String) : String :=
  let cs := path.toList.takeWhile fun c => c != '?' && c != '#'
  String.ofList (if cs.getLast? == some '/' && cs.length > 1 then cs.dropLast else cs)

/-- The source and the file name in the body of a request; none if the body is no
object with a source. -/
def readBody (body : List Char) : Option (List Char × Option String) := do
  let value ← Json.parse body
  let source ←
    match value.field? "source" with
    | some (.text source) => some source
    | _ => none
  match value.field? "filename" with
  | none => return (source.toList, none)
  | some .null => return (source.toList, none)
  | some (.text name) => return (source.toList, some name)
  | some _ => none

/-- The name that a source without file name goes by. -/
def filenameOr (name : Option String) : String :=
  match name with
  | some name => if name == "" then "<request>" else name
  | none => "<request>"

def summaryJson (summary : Summary) : Json :=
  .object [
    ("name", .text summary.name),
    ("strategy", .text summary.strategy.name),
    ("parameters", .list (summary.parameters.map .text))]

def expandResponse (language : Language) (unit : String) (body : List Char) : Response :=
  match readBody body with
  | none => ⟨422, none⟩
  | some (source, name) =>
    match expand language unit (filenameOr name) source with
    | .error error => detail 400 error.message
    | .ok expansion =>
      ⟨200, some (.object [
        ("source", .text (String.ofList expansion.source)),
        ("declarations", .list (expansion.declarations.map summaryJson))])⟩

/-- Answers a request. -/
def respond (language : Language) (format : Format) (request : Request) : Response :=
  match routeOf request.path with
  | "/health" =>
    if request.method == "GET" then ⟨200, some (.object [("status", .text "ok")])⟩
    else detail 405 "Method Not Allowed"
  | "/expand" =>
    if request.method == "POST" then expandResponse language format.unit request.body
    else detail 405 "Method Not Allowed"
  | _ => detail 404 "Not Found"

end Fakery.Service
