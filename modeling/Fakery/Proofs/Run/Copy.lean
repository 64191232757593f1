import Fakery.Proofs.Expansion.Completeness
import Fakery.Proofs.Run.Frame
import Fakery.Proofs.Text.Utf8

/-!
# Copies of files without annotations

A file in which nothing is annotated is written as it was read.  Reading turns every line
end into a line feed, so that the copy has the bytes of the file exactly if the file has no
carriage return.
-/

namespace Fakery

/-- The bytes of a text in which no declaration is annotated. -/
structure IsPlain (language : Language) (bytes : List UInt8) (text : List Char) : Prop where
  decoded : Text.Utf8.decode bytes = .ok text
  plain : ∃ decls, parse language (Text.normalizeNewlines text) = .ok decls ∧
    ∀ decl ∈ walk decls, ¬ decl.IsAnnotated

namespace IsPlain

variable {language : Language} {bytes : List UInt8} {text : List Char}
  (h : IsPlain language bytes text)

include h

/-- The expansion of such a text is the text as it was read. -/
theorem exists_expansion (unit name : String) :
    ∃ expansion, expansionOf? language unit name (some bytes) = some expansion ∧
      expansion.source = Text.normalizeNewlines text := by
  obtain ⟨decls, hparse, hplain⟩ := h.plain
  obtain ⟨expansion, hexpand, -, hsame⟩ := exists_expand_of_supported unit name hparse
    fun decl hdecl hrefused => hplain decl hdecl hrefused.annotated
  have hnone : annotated decls = [] := by
    rw [annotated, List.filter_eq_nil_iff]
    intro decl hdecl
    rw [decl.isSome_trigger?_eq]
    simpa using hplain decl hdecl
  refine ⟨expansion, ?_, hsame hnone⟩
  rw [expansionOf?_of_decode unit name h.decoded, hexpand]
  rfl

/-- Reading and writing such a text keeps its bytes exactly without carriage returns. -/
theorem encode_eq_iff :
    Text.Utf8.encode (Text.normalizeNewlines text) = bytes ↔ '\r' ∉ text := by
  rw [← Text.Utf8.encode_of_decodeFrom h.decoded, Text.Utf8.encode_injective.eq_iff,
    Text.normalizeNewlines_eq_self_iff]

end IsPlain

open Fakery.Action in
/-- A run writes a file without annotations with a line feed for every line end.  The copy
has the bytes of the file exactly if the file has no carriage return. -/
theorem copy_eq_iff {tools : Tools} {options : RunOptions} {path : String} {workspace : Workspace}
    (hworkspace : workspace.Sound) {made : Plan}
    (hmade : ((plan tools options path).run workspace).1 = .ok made) {directory : Path}
    (hdirectory : made.directory = some directory) (hdry : options.dryRun = false)
    {outcome : RunOutcome} (hok : ((expandPath tools options path).run workspace).1 = .ok outcome)
    {file : SourceFile} (hfile : file ∈ made.sources) {bytes : List UInt8} {text : List Char}
    (hbytes : workspace.tree.fileAt? (made.manifest.root.child file.path).parts = some bytes)
    (hplain : IsPlain tools.language bytes text) :
    let after := ((expandPath tools options path).run workspace).2.tree
    after.fileAt? (directory.child file.path).parts =
        some (Text.Utf8.encode (Text.normalizeNewlines text)) ∧
      (after.fileAt? (directory.child file.path).parts =
          workspace.tree.fileAt? (made.manifest.root.child file.path).parts ↔ '\r' ∉ text) := by
  intro after
  obtain ⟨expansion, hexpansion, hsource⟩ :=
    hplain.exists_expansion made.settings.format.unit file.path
  have hmirrors := mirrors_of_run hworkspace hmade hok hdirectory hdry
  have hplanned : expansion ∈ made.expansion? tools.language workspace.tree.fileAt? file := by
    rw [Plan.expansion?, hbytes, hexpansion]
    rfl
  have hwritten := hmirrors.written file hfile expansion hplanned
  rw [hsource] at hwritten
  refine ⟨hwritten, ?_⟩
  rw [hwritten, hbytes, Option.some.injEq]
  exact hplain.encode_eq_iff

def oneSource (text : String) : Workspace where
  tree := .directory [("A.swift", .file (Text.Utf8.encode text.toList))]
  here := []
  home := []

theorem oneSource_sound (text : String) : (oneSource text).Sound where
  root := rfl
  tree := by
    refine .directory (by simp) (by simp; decide) ?_
    simpa using .file _
  here := by simp [oneSource]
  quiet := rfl

theorem isPlain_of_shape {language : Language} {text : List Char} (marks : List Bool)
    (hdecode : Text.Utf8.decode (Text.Utf8.encode text) = .ok text)
    (hshape : (parse language (Text.normalizeNewlines text)).toOption.map (fun decls =>
      (walk decls).map fun decl => decide decl.IsAnnotated) = some marks)
    (hmarks : true ∉ marks) : IsPlain language (Text.Utf8.encode text) text := by
  obtain ⟨decls, hparse, hwalk⟩ := Option.map_eq_some_iff.1 hshape
  refine ⟨hdecode, decls, eq_ok_of_toOption hparse, ?_⟩
  intro decl hdecl hannotated
  apply hmarks
  rw [← hwalk]
  exact List.mem_map.2 ⟨decl, hdecl, decide_eq_true hannotated⟩

def wideText : String := "// \u2028 \u20ac\nstruct \u00c9 \x7b\x7d"

open Fakery.Action in
theorem copy_wideText :
    let run := (expandPath .standard { outputDirectory := some "out" } ".").run (oneSource wideText)
    (∃ outcome, run.1 = .ok outcome) ∧
    IsPlain swift (Text.Utf8.encode wideText.toList) wideText.toList ∧
      run.2.tree.fileAt? ["out", "A.swift"] =
        (oneSource wideText).tree.fileAt? ["A.swift"] := by
  have hplan : ((plan .standard { outputDirectory := some "out" } ".").run
      (oneSource wideText)).1.toOption.map (fun made =>
        (made.sources.map (·.path), made.manifest.root, made.directory)) =
      some (["A.swift"], ⟨"/", []⟩, some ⟨"/", ["out"]⟩) := by
    decide +kernel
  have hok : ((expandPath .standard { outputDirectory := some "out" } ".").run
      (oneSource wideText)).1.toOption.isSome = true := by
    decide +kernel
  have hplain : IsPlain swift (Text.Utf8.encode wideText.toList) wideText.toList :=
    isPlain_of_shape [false] (by decide +kernel) (by decide +kernel) (by decide)
  obtain ⟨outcome, houtcome⟩ := Option.isSome_iff_exists.1 hok
  obtain ⟨made, hmade, hshape⟩ := Option.map_eq_some_iff.1 hplan
  simp only [Prod.mk.injEq] at hshape
  obtain ⟨hsources, hroot, hdirectory⟩ := hshape
  obtain ⟨file, hfile, hpath⟩ := List.map_eq_singleton_iff.1 hsources
  have hmem : file ∈ made.sources := by simp [hfile]
  have hsource : (made.manifest.root.child file.path).parts = ["A.swift"] := by
    rw [hroot, hpath]
    decide
  have hcopy := copy_eq_iff (oneSource_sound wideText) (eq_ok_of_toOption hmade) hdirectory rfl
    (eq_ok_of_toOption houtcome) hmem (by rw [hsource]; rfl) hplain
  refine ⟨⟨outcome, eq_ok_of_toOption houtcome⟩, hplain, ?_⟩
  rw [hsource, hpath] at hcopy
  exact hcopy.2.2 (by decide)

/-- A text with line ends of two characters. -/
def crlfText : String := "struct A \x7b\r\n\x7d\r\n"

open Fakery.Action in
/-- A file with such line ends is not copied as it is. -/
theorem copy_crlfText :
    let run := (expandPath .standard { outputDirectory := some "out" } ".").run (oneSource crlfText)
    (∃ outcome, run.1 = .ok outcome) ∧
    IsPlain swift (Text.Utf8.encode crlfText.toList) crlfText.toList ∧
      (oneSource crlfText).tree.fileAt? ["A.swift"] = some (Text.Utf8.encode crlfText.toList) ∧
      run.2.tree.fileAt? ["out", "A.swift"] =
        some (Text.Utf8.encode "struct A \x7b\n\x7d\n".toList) ∧
      Text.Utf8.encode "struct A \x7b\n\x7d\n".toList ≠ Text.Utf8.encode crlfText.toList := by
  have hok : ((expandPath .standard { outputDirectory := some "out" } ".").run
      (oneSource crlfText)).1.toOption.isSome = true := by
    decide +kernel
  have hwritten : ((expandPath .standard { outputDirectory := some "out" } ".").run
      (oneSource crlfText)).2.tree.fileAt? ["out", "A.swift"] =
        some (Text.Utf8.encode "struct A \x7b\n\x7d\n".toList) := by
    decide +kernel
  have hplain : IsPlain swift (Text.Utf8.encode crlfText.toList) crlfText.toList :=
    isPlain_of_shape [false] (by decide +kernel) (by decide +kernel) (by decide)
  obtain ⟨outcome, houtcome⟩ := Option.isSome_iff_exists.1 hok
  exact ⟨⟨outcome, eq_ok_of_toOption houtcome⟩, hplain, rfl, hwritten, by decide⟩

end Fakery
