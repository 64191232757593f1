import Fakery.Proofs.Run.Absence
import Fakery.Proofs.Run.Directory
import Fakery.Proofs.Run.Recording

/-!
# Files that fail alone

A file that cannot be decoded or expanded has its error on its own outcome, and the rest of
the run is what it would be without that file.  A file that cannot be written stops the run.
-/

namespace Fakery

/-- A workspace from which a file was taken away. -/
def Workspace.without (workspace : Workspace) (names : List String) : Workspace :=
  { workspace with tree := workspace.tree.erase names }

theorem Workspace.Sound.without {workspace : Workspace} (h : workspace.Sound) {names : List String}
    {content : List UInt8} (hfile : workspace.tree.fileAt? names = some content) :
    (workspace.without names).Sound where
  root := Entry.isDirectory_erase h.root names
  tree := h.tree.erase hfile
  here := h.here
  quiet := h.quiet

/-- Without a file, a run has the outcomes that it has with it but for the one of the file,
and it leaves the same files. -/
structure FailsAlone (tools : Tools) (options : RunOptions) (path : String)
    (workspace : Workspace) (source : Path) (outcome : RunOutcome) : Prop where
  recorded : ∃ before own after, outcome.files = before ++ own :: after ∧ own.path = source ∧
    own.error.isSome = true ∧
    ((Action.expandPath tools options path).run (workspace.without source.parts)).1 =
      .ok ⟨outcome.root, before ++ after⟩
  kept :
    ((Action.expandPath tools options path).run (workspace.without source.parts)).2.tree.fileAt? =
      Function.update ((Action.expandPath tools options path).run workspace).2.tree.fileAt?
        source.parts none

theorem ne_of_nodup_map {α β : Type} {f : α → β} {front back : List α} {x y : α}
    (h : ((front ++ x :: back).map f).Nodup) (hy : y ∈ front ++ back) : f y ≠ f x := by
  rw [List.map_append, List.map_cons, List.nodup_middle, List.nodup_cons, ← List.map_append] at h
  intro heq
  exact h.1 (heq ▸ List.mem_map_of_mem hy)

theorem filter_ne_of_nodup {α β : Type} [DecidableEq β] {f : α → β} {front back : List α} {x : α}
    (h : ((front ++ x :: back).map f).Nodup) :
    (front ++ x :: back).filter (f · != f x) = front ++ back := by
  have hkeep : ∀ y ∈ front ++ back, (f y != f x) = true :=
    fun y hy => bne_iff_ne.2 (ne_of_nodup_map h hy)
  rw [List.filter_append, List.filter_cons_of_neg (by simp), ← List.filter_append,
    List.filter_eq_self.2 hkeep]

namespace Plan

variable {target : List String} {entry : Entry} {settings : Settings} {rules : List IgnoreRule}
  {directory : Option Path}

/-- Without a file, the sources of a directory are what they were, without that file. -/
theorem sources_below_erase (hsound : entry.Sound) {below : List String} (hbelow : below ≠ [])
    {content : List UInt8} (hfile : entry.fileAt? below = some content) :
    (Plan.below target (entry.erase below) settings rules directory).sources =
      (Plan.below target entry settings rules directory).sources.filter
        (Path.ofString ·.path != ⟨"", below⟩) := by
  have hroot : Path.ofString "" = ⟨"", []⟩ := rfl
  have hfiles := filesBelow_erase rules hbelow hsound hroot hfile
  rw [List.nil_append] at hfiles
  change (filesBelow rules "" (entry.erase below)).filter _ =
    ((filesBelow rules "" entry).filter _).filter _
  rw [hfiles, List.filter_comm]
  rfl

/-- A plan like another one, but for a source that it lacks. -/
structure Lacks (less made : Plan) (file : SourceFile) (front back : List SourceFile) : Prop where
  settings_eq : less.settings = made.settings
  root_eq : less.manifest.root = made.manifest.root
  directory_eq : less.directory = made.directory
  sources_eq : made.sources = front ++ file :: back
  left_eq : less.sources = front ++ back

namespace Lacks

variable {less made : Plan} {file : SourceFile} {front back : List SourceFile}
  (h : less.Lacks made file front back)

include h

theorem mem_file : file ∈ made.sources := by
  rw [h.sources_eq]
  exact List.mem_append_right _ List.mem_cons_self

theorem mem {other : SourceFile} (hother : other ∈ less.sources) : other ∈ made.sources := by
  rw [h.left_eq] at hother
  rw [h.sources_eq]
  exact ((List.sublist_cons_self file back).append_left front).subset hother

variable {tree : Entry} (hplan : made.Sound tree)

include hplan

theorem place_ne {other : SourceFile} (hother : other ∈ less.sources) :
    (made.manifest.root.child other.path).parts ≠ (made.manifest.root.child file.path).parts := by
  have hnodup : (made.sources.map fun source =>
      (made.manifest.root.child source.path).parts).Nodup :=
    (hplan.listed.nodup_child hplan.root).sublist (List.filter_sublist.map _)
  rw [h.sources_eq] at hnodup
  rw [h.left_eq] at hother
  intro heq
  exact ne_of_nodup_map hnodup hother heq

theorem fileAt?_erase :
    (tree.erase (made.manifest.root.child file.path).parts).fileAt? =
      Function.update tree.fileAt? (made.manifest.root.child file.path).parts none := by
  have hmem := Action.outside_subset h.mem_file
  obtain ⟨content, hcontent⟩ := Option.isSome_iff_exists.1 (hplan.there file hmem)
  exact Entry.fileAt?_erase (hplan.listed.parts_ne_nil hplan.root hmem) hcontent

/-- The other sources expand as they did. -/
theorem expansion?_eq (language : Language) {other : SourceFile} (hother : other ∈ less.sources) :
    less.expansion? language (tree.erase (made.manifest.root.child file.path).parts).fileAt? other =
      made.expansion? language tree.fileAt? other := by
  rw [expansion?, h.fileAt?_erase hplan, h.settings_eq, h.root_eq,
    Function.update_of_ne (h.place_ne hplan hother)]
  rfl

theorem outcome?_eq (language : Language) (dryRun : Bool) {other : SourceFile}
    (hother : other ∈ less.sources) :
    less.outcome? language dryRun (tree.erase (made.manifest.root.child file.path).parts).fileAt?
      other =
      made.outcome? language dryRun tree.fileAt? other := by
  rw [outcome?, h.fileAt?_erase hplan, h.settings_eq, h.root_eq, h.directory_eq,
    Function.update_of_ne (h.place_ne hplan hother)]
  rfl

theorem writable {language : Language} {dryRun : Bool}
    (hwritable : made.Writable language dryRun tree) :
    less.Writable language dryRun (tree.erase (made.manifest.root.child file.path).parts) := by
  have hmem := Action.outside_subset h.mem_file
  obtain ⟨content, hcontent⟩ := Option.isSome_iff_exists.1 (hplan.there file hmem)
  intro other hother hexpansion written hwritten
  rw [h.expansion?_eq hplan language hother] at hexpansion
  rw [h.directory_eq] at hwritten
  exact (hwritable other (h.mem hother) hexpansion written hwritten).erase
    (hplan.listed.parts_ne_nil hplan.root hmem) hcontent

/-- The outcomes of the other sources, around the one of the source that is lacking. -/
theorem exists_outcomes {language : Language} {dryRun : Bool} {outcomes : List FileOutcome}
    (houtcomes :
      outcomes.map some = made.sources.map (made.outcome? language dryRun tree.fileAt?)) :
    ∃ before own after, outcomes = before ++ own :: after ∧
      made.outcome? language dryRun tree.fileAt? file = some own ∧
      (before ++ after).map some = less.sources.map (less.outcome? language dryRun
        (tree.erase (made.manifest.root.child file.path).parts).fileAt?) := by
  rw [h.sources_eq, List.map_append, List.map_cons, List.map_eq_append_iff] at houtcomes
  obtain ⟨before, rest, rfl, hbefore, hrest⟩ := houtcomes
  obtain ⟨own, after, rfl, hown, hafter⟩ := List.map_eq_cons_iff.1 hrest
  refine ⟨before, own, after, rfl, hown.symm, ?_⟩
  rw [List.map_congr_left fun other hother => h.outcome?_eq hplan language dryRun hother, h.left_eq,
    List.map_append, List.map_append, hbefore, hafter]

omit hplan in
/-- What is left without a source that does not expand. -/
theorem fileAt?_eq {language : Language} {before after : Workspace} (hplan : made.Sound before.tree)
    {dryRun : Bool}
    {outcomes : List FileOutcome}
    (hstep : FilesStep before (fun source => made.manifest.root.child source.path)
      (made.expansion? language before.tree.fileAt?)
      (fun source => Action.targetOf made.directory dryRun source.path) made.sources
      (.ok outcomes) after)
    (hfails : made.expansion? language before.tree.fileAt? file = none) {start final : Workspace}
    (hstart : start.tree = before.tree.erase (made.manifest.root.child file.path).parts)
    {others : List FileOutcome}
    (hless : FilesStep start (fun source => less.manifest.root.child source.path)
      (less.expansion? language start.tree.fileAt?)
      (fun source => Action.targetOf less.directory dryRun source.path) less.sources
      (.ok others) final) :
    final.tree.fileAt? =
      Function.update after.tree.fileAt? (made.manifest.root.child file.path).parts none := by
  have hexpansion : ∀ other ∈ less.sources, less.expansion? language start.tree.fileAt? other =
      made.expansion? language before.tree.fileAt? other := by
    rw [hstart]
    exact fun other hother => h.expansion?_eq hplan language hother
  have hfile : ∀ other ∈ made.sources,
      ∀ written ∈ Action.targetOf made.directory dryRun other.path,
        (made.manifest.root.child file.path).parts ≠ written.parts := by
    intro other hother written hwritten
    exact Action.source_ne_target hplan.root hplan.directory hplan.listed
      (Action.outside_subset hother) h.mem_file hwritten
  funext names
  by_cases hnames : ∃ other ∈ less.sources, ∃ written ∈ Action.targetOf made.directory dryRun
      other.path, (made.expansion? language before.tree.fileAt? other).isSome = true ∧
        names = written.parts
  · -- Both runs have written the same expansion here.
    obtain ⟨other, hother, written, hwritten, hsome, rfl⟩ := hnames
    obtain ⟨expansion, hsame⟩ := Option.isSome_iff_exists.1 hsome
    rw [Function.update_of_ne (hfile other (h.mem hother) written hwritten).symm,
      hstep.written outcomes rfl other (h.mem hother) expansion hsame written hwritten]
    exact hless.written others rfl other hother expansion ((hexpansion other hother).trans hsame)
      written (h.directory_eq ▸ hwritten)
  · push Not at hnames
    have hfinal : final.tree.fileAt? names = start.tree.fileAt? names := by
      apply hless.frame
      intro other hother hsome written hwritten
      rw [hexpansion other hother] at hsome
      rw [h.directory_eq] at hwritten
      exact hnames other hother written hwritten hsome
    have hafter : after.tree.fileAt? names = before.tree.fileAt? names := by
      apply hstep.frame
      intro other hother hsome written hwritten
      rw [h.sources_eq, List.mem_append, List.mem_cons, or_left_comm, ← List.mem_append,
        ← h.left_eq] at hother
      obtain rfl | hother := hother
      · rw [hfails] at hsome
        cases hsome
      · exact hnames other hother written hwritten hsome
    rw [hfinal, hstart, h.fileAt?_erase hplan]
    by_cases hplace : names = (made.manifest.root.child file.path).parts
    · rw [hplace, Function.update_self, Function.update_self]
    · rw [Function.update_of_ne hplace, Function.update_of_ne hplace, hafter]

end Lacks

end Plan

section Alone

open Fakery.Action

variable {tools : Tools} {options : RunOptions} {path : String} {workspace : Workspace}
  (hworkspace : workspace.Sound) {target : List String} {entry : Entry} {settings : Settings}
  {rules : List IgnoreRule}
  (hready : Ready tools.loader options path workspace target entry settings rules)
  {directory : Option Path}
  (hdirectory : ((destination options settings).run workspace).1 = .ok directory)

include hworkspace hready

/-- Where a source of a directory stands. -/
theorem exists_place {file : SourceFile}
    (hfile : file ∈ (Plan.below target entry settings rules directory).sources) :
    ∃ below content, Path.ofString file.path = ⟨"", below⟩ ∧ below ≠ [] ∧
      (∀ name ∈ [settingsFileName, ".gitignore"], below ≠ [name]) ∧
      entry.fileAt? below = some content ∧
      ((Path.ofNames target).child file.path).parts = target ++ below := by
  obtain ⟨hsound, hnames⟩ := hworkspace.tree.names_of_get? hready.get?_eq
  have hroot : Path.ofString "" = ⟨"", []⟩ := rfl
  have hlisted : file ∈ filesBelow rules "" entry := outside_subset hfile
  obtain ⟨below, hpath, hthere⟩ := fileAt?_of_mem_filesBelow rules hsound hroot hlisted
  obtain ⟨content, hcontent⟩ := Option.isSome_iff_exists.1 hthere
  rw [List.nil_append] at hpath
  have hresolved : (Path.ofNames target).Resolved :=
    ⟨rfl, fun hmem => (hnames _ hmem).ne_dots rfl⟩
  refine ⟨below, content, hpath, ?_, ?_, hcontent, by rw [hresolved.child_eq hpath]; rfl⟩
  · rintro rfl
    obtain ⟨entry', hentry', hfound⟩ := Option.bind_eq_some_iff.1 hcontent
    cases hentry'
    have hisDirectory := hready.isDirectory
    cases entry with
    | file other => cases hisDirectory
    | directory children => cases hfound
  · rintro name hname rfl
    have hsuffix := suffix_of_mem_filesBelow rules hsound hroot hlisted hpath
    revert hsuffix
    fin_cases hname <;> decide

include hdirectory

theorem run_plan_below : ((plan tools options path).run workspace).1 =
    .ok (Plan.below target entry settings rules directory) := by
  rw [hready.run_plan hworkspace, hdirectory]
  rfl

variable {file : SourceFile}
  (hfile : file ∈ (Plan.below target entry settings rules directory).sources)

include hfile

/-- Without one of its sources, a run has a plan that lacks it. -/
theorem exists_lacks :
    ∃ less front back,
      less.Lacks (Plan.below target entry settings rules directory) file front back ∧
      (workspace.without ((Path.ofNames target).child file.path).parts).Sound ∧
      ((plan tools options path).run
        (workspace.without ((Path.ofNames target).child file.path).parts)).1 = .ok less := by
  obtain ⟨below, content, hpath, hbelow, hnames, hcontent, hplace⟩ :=
    exists_place hworkspace hready hfile
  have hsound := (hworkspace.tree.names_of_get? hready.get?_eq).1
  have hthere : workspace.tree.fileAt? (target ++ below) = some content := by
    rw [Entry.fileAt?, Entry.get?_append, hready.get?_eq]
    exact hcontent
  obtain ⟨front, back, hsources⟩ := List.append_of_mem hfile
  have hnodup : ((front ++ file :: back).map (Path.ofString ·.path)).Nodup := by
    have hmade := sound_of_plan hworkspace (run_plan_below hworkspace hready hdirectory)
    rw [← hsources]
    exact hmade.listed.apart.sublist (List.filter_sublist.map _)
  rw [hplace]
  refine ⟨Plan.below target (entry.erase below) settings rules directory, front, back,
    ⟨rfl, rfl, rfl, hsources, ?_⟩, hworkspace.without hthere, ?_⟩
  · rw [Plan.sources_below_erase hsound hbelow hcontent, hsources, ← hpath,
      filter_ne_of_nodup hnodup]
  · exact run_plan_below (hworkspace.without hthere)
      (hready.erase hworkspace hbelow hnames hcontent)
      ((agrees_destination options settings workspace.log).trans hdirectory)

/-- A source that does not expand fails alone. -/
theorem failsAlone (hfails : (Plan.below target entry settings rules directory).expansion?
      tools.language workspace.tree.fileAt? file = none) {outcome : RunOutcome}
    (hok : ((expandPath tools options path).run workspace).1 = .ok outcome) :
    FailsAlone tools options path workspace ((Path.ofNames target).child file.path) outcome := by
  have hmade := run_plan_below hworkspace hready hdirectory
  have hplan := sound_of_plan hworkspace hmade
  obtain ⟨less, front, back, hlacks, hwithout, hless⟩ :=
    exists_lacks hworkspace hready hdirectory hfile
  obtain ⟨after, hstep, -, hafter⟩ := exists_filesStep_of_run hworkspace hmade hok
  have hcarried := hok
  rw [run_expandPath hmade, Plan.run_carryOut_eq_ok_iff hplan hworkspace.quiet] at hcarried
  obtain ⟨hwritable, hroot, hfiles⟩ := hcarried
  obtain ⟨before, own, later, houtcomes, hown, hothers⟩ := hlacks.exists_outcomes hplan hfiles
  have hrun : ((expandPath tools options path).run
      (workspace.without ((Path.ofNames target).child file.path).parts)).1 =
        .ok ⟨outcome.root, before ++ later⟩ := by
    rw [run_expandPath hless,
      Plan.run_carryOut_eq_ok_iff (sound_of_plan hwithout hless) hwithout.quiet]
    exact ⟨hlacks.writable hplan hwritable, hroot.trans hlacks.root_eq.symm, hothers⟩
  obtain ⟨bytes, hbytes, rfl⟩ := Option.map_eq_some_iff.1 hown
  have htells := FileOutcome.tells_ofBytes tools.language settings.format.unit file.path
    ((Path.ofNames target).child file.path) directory options.dryRun bytes
  constructor
  · refine ⟨before, _, later, houtcomes, htells.path_eq, ?_, hrun⟩
    have hnone : expansionOf? tools.language settings.format.unit file.path (some bytes) =
      none := by
      rw [← hbytes]
      exact hfails
    rw [hnone] at htells
    rw [Option.isSome_iff_ne_none]
    exact fun herror => nomatch htells.error_eq_none_iff.1 herror
  · obtain ⟨final, hstep', -, hfinal⟩ := exists_filesStep_of_run hwithout hless hrun
    rw [hfinal, hafter]
    exact hlacks.fileAt?_eq hplan hstep hfails rfl hstep'

end Alone

def twoSources (bytes : List UInt8) : Entry :=
  .directory [("A.swift", .file bytes), ("sub", .directory [("B.swift",
    .file (Text.Utf8.encode "@AutoFake struct B \x7b\x7d".toList))])]

/-- Two sources beside a directory to write to. -/
def sourcesBeside (bytes : List UInt8) (out : Entry) : Workspace where
  tree := .directory [("out", out), ("src", twoSources bytes)]
  here := []
  home := []

theorem sourcesBeside_sound (bytes : List UInt8) {out : Entry} (hout : out.Sound) :
    (sourcesBeside bytes out).Sound where
  root := rfl
  tree := by
    have hsources : (twoSources bytes).Sound := by
      refine .directory (by simp) (by simp; decide) ?_
      rw [List.forall_mem_cons, List.forall_mem_singleton]
      refine ⟨.file _, .directory (by simp) (by simp; decide) ?_⟩
      simpa using .file _
    refine .directory (by simp) (by simp; decide) ?_
    simpa using ⟨hout, hsources⟩
  here := by simp [sourcesBeside]
  quiet := rfl

open Fakery.Action in
theorem sourcesBeside_ready {bytes : List UInt8} {out : Entry} :
    Ready .standard { outputDirectory := some "out" } "src" (sourcesBeside bytes out) ["src"]
      (twoSources bytes) { root := .ofNames ["src"] } [] where
  target_eq := rfl
  get?_eq := rfl
  isDirectory := rfl
  settings_eq := rfl
  rules_eq := rfl

end Fakery
