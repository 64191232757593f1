import Fakery.Text.Blank

/-!
# Edits

An edit replaces the characters between two offsets of a text.  `applyAll`
applies edits back to front, so that offsets into the unedited text stay valid.
-/

namespace Fakery

structure Edit where
  start : Nat
  stop : Nat
  replacement : List Char
  deriving DecidableEq, Repr

namespace Edit

def apply (source : List Char) (edit : Edit) : List Char :=
  source.take edit.start ++ edit.replacement ++ source.drop edit.stop

/-- Order by place: by start, then by end. -/
def precedes (a b : Edit) : Bool :=
  a.start < b.start || (a.start == b.start && a.stop ≤ b.stop)

/-- Edits from the last place of the text to the first; edits of one place keep
their order. -/
def backToFront (edits : List Edit) : List Edit :=
  edits.mergeSort fun a b => b.precedes a

def applyAll (source : List Char) (edits : List Edit) : List Char :=
  (backToFront edits).foldl apply source

end Edit

end Fakery
