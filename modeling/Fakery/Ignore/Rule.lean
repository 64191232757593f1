import Fakery.Ignore.Glob
import Fakery.Text.Blank

/-!
# Ignore rules

A line of an ignore file gives a rule.  Of all rules that match a path the last
one decides, and a negated rule takes the path back in.
-/

namespace Fakery

structure IgnoreRule where
  pattern : String
  /-- Written with a slash at its end: the rule is about directories. -/
  directoryOnly : Bool
  /-- Written with a slash at its beginning. -/
  anchored : Bool
  negated : Bool
  hasSlash : Bool
  deriving DecidableEq, Repr

namespace IgnoreRule

/-- Whether a rule matches a relative path.  A rule without slashes matches any part
of the path. -/
def matchesPath (rule : IgnoreRule) (path : String) (isDirectory : Bool) : Bool :=
  if rule.pattern == "" then false
  else if rule.directoryOnly && !isDirectory then false
  else if rule.anchored || rule.hasSlash then
    Glob.matchesText rule.pattern path
      || (rule.directoryOnly && (rule.pattern.toList ++ ['/']).isPrefixOf path.toList)
  else
    (Text.splitAt '/' path.toList).any fun part =>
      Glob.matchesPieces (Glob.ofPattern rule.pattern.toList) part

/-- The rule that a pattern without negation mark stands for. -/
def ofPattern? (negated : Bool) (pattern : List Char) : Option IgnoreRule :=
  let pattern := Text.trim pattern
  if pattern.isEmpty then none
  else
    let directoryOnly := pattern.getLast? == some '/'
    let pattern := if directoryOnly then pattern.dropLast else pattern
    let anchored := pattern.head? == some '/'
    let pattern := if anchored then pattern.drop 1 else pattern
    some {
      pattern := String.ofList pattern
      directoryOnly, anchored, negated
      hasSlash := pattern.contains '/' }

/-- The rule of a line; blank lines and comments give none. -/
def ofLine? (line : List Char) : Option IgnoreRule :=
  match Text.trim line with
  | [] => none
  | '#' :: _ => none
  | '!' :: rest => ofPattern? true rest
  | pattern => ofPattern? false pattern

def ofLines (lines : List (List Char)) : List IgnoreRule :=
  lines.filterMap ofLine?

end IgnoreRule

/-- Whether rules, in the order of their files, ignore a path. -/
def isIgnored (rules : List IgnoreRule) (path : String) (isDirectory : Bool) : Bool :=
  rules.foldl (fun ignored rule =>
    if rule.matchesPath path isDirectory then !rule.negated else ignored) false

end Fakery
