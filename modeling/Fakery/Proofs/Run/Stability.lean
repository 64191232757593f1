import Fakery.Proofs.Run.Canonical
import Fakery.Proofs.Run.Deposits

/-!
# Running again

A run that is repeated finds the same sources, since what was written stands in a directory
from which no source is taken, and writes the same files to the same places.  It fails only
where the first run has made a directory in the place of a file that it asks for.
-/

namespace Fakery

theorem Entry.accepts_of_fileAt? {tree : Entry} {names : List String} {content : List UInt8}
    (h : tree.fileAt? names = some content) : tree.Accepts names := by
  obtain ⟨entry, hentry, -⟩ := Option.bind_eq_some_iff.1 h
  refine ⟨fun above habove hne => ?_, ?_⟩
  · rw [fileAt?_eq_join, kind?_above hentry habove hne, Option.join_some]
  · rw [kind?_eq_file_iff.2 h]
    simp

/-! ## What the files of a run leave alone -/

namespace Plan

theorem Sound.not_inside {plan : Plan} {tree : Entry} (hplan : plan.Sound tree) {file : SourceFile}
    (hfile : file ∈ plan.sources) {directory : Path} (hdirectory : directory ∈ plan.directory) :
    ¬ directory.parts <+: (plan.manifest.root.child file.path).parts :=
  Action.not_inside_of_outside hplan.root hplan.directory hplan.listed hfile hdirectory

section Deposits

variable {language : Language} {plan : Plan} {tree after : Entry} {dryRun : Bool}
  {here : List String}
  (hplan : plan.Sound tree)
  (hnames : ∀ directory ∈ plan.directory, ∀ name ∈ directory.parts, IsFileName name)

include hplan

theorem exists_directory_of_deposit {written : Path × List UInt8}
    (hwritten : written ∈ plan.deposits language dryRun tree) :
    ∃ directory ∈ plan.directory, directory.parts <+: written.1.parts ∧
      directory.parts ≠ written.1.parts ∧ ¬ directory.parts <+: plan.manifest.root.parts := by
  obtain ⟨file, hfile, htarget, -⟩ := mem_deposits_iff.1 hwritten
  obtain ⟨directory, hdirectory, hplace⟩ := Action.exists_of_mem_targetOf htarget
  have hresolved := hplan.directory directory hdirectory
  have hmem := Action.outside_subset hfile
  obtain ⟨-, hbelow, hne⟩ := hplan.listed.child_spec hresolved hmem
  obtain ⟨-, hroot, -⟩ := hplan.listed.child_spec hplan.root hmem
  exact ⟨directory, hdirectory, hplace ▸ hbelow, hplace ▸ hne,
    fun habove => hplan.not_inside hfile hdirectory (habove.trans hroot)⟩

include hnames

theorem isPlace_of_deposit {written : Path × List UInt8}
    (hwritten : written ∈ plan.deposits language dryRun tree) : written.1.IsPlace := by
  obtain ⟨file, hfile, htarget, -⟩ := mem_deposits_iff.1 hwritten
  obtain ⟨directory, hdirectory, hplace⟩ := Action.exists_of_mem_targetOf htarget
  have hresolved := hplan.directory directory hdirectory
  obtain ⟨below, hbelow, hne, hbelows⟩ :=
    hplan.listed.exists_below file (Action.outside_subset hfile)
  rw [List.nil_append] at hbelow
  rw [hplace, hresolved.child_eq hbelow]
  exact ⟨rfl, by simp [hne], List.forall_mem_append.2 ⟨hnames directory hdirectory, hbelows⟩⟩

variable (hafter : tree.depositAll here (plan.deposits language dryRun tree) = .ok after)

include hafter

/-- A file beside the sources is as it was, unless it is above the files that are written. -/
theorem kind?_beside (hroot : tree.kind? plan.manifest.root.parts = some none) {name : String}
    (hname : plan.deposits language dryRun tree = [] ∨ ∀ directory ∈ plan.directory,
      ¬ plan.manifest.root.parts ++ [name] <+: directory.parts) {above : List String}
    (habove : above <+: plan.manifest.root.parts ++ [name]) :
    after.kind? above = tree.kind? above := by
  have hplaces := fun written hwritten => @isPlace_of_deposit language _ _ dryRun hplan hnames
    written hwritten
  rcases List.prefix_concat_iff.1 habove with rfl | hfront
  · rcases hname with hempty | hname
    · rw [hempty] at hafter
      cases hafter
      rfl
    apply Entry.kind?_depositAll hplaces hafter
    intro written hwritten hover
    obtain ⟨directory, hdirectory, hbelow, -, houtside⟩ :=
      exists_directory_of_deposit hplan hwritten
    rcases List.prefix_or_prefix_of_prefix hover hbelow with hinside | hinside
    · exact hname directory hdirectory hinside
    · rcases List.prefix_concat_iff.1 hinside with heq | hroot
      · exact hname directory hdirectory (heq ▸ List.prefix_rfl)
      · exact houtside hroot
  · have hthere : tree.kind? above = some none := by
      obtain ⟨children, hchildren⟩ := Entry.kind?_eq_directory_iff.1 hroot
      by_cases hlast : above = plan.manifest.root.parts
      · rw [hlast, hroot]
      · exact Entry.kind?_above hchildren hfront hlast
    rw [hthere, Entry.directory_of_depositAll hplaces hafter hthere]

/-- A run that writes makes the directories above the one that it writes to. -/
theorem kind?_above_directory (hsome : plan.deposits language dryRun tree ≠ []) {directory : Path}
    (hdirectory : directory ∈ plan.directory) {names : List String}
    (habove : names <+: directory.parts) : after.kind? names = some none := by
  have hplaces := fun written hwritten => @isPlace_of_deposit language _ _ dryRun hplan hnames
    written hwritten
  obtain ⟨written, hwritten⟩ := List.exists_mem_of_ne_nil _ hsome
  obtain ⟨same, hsame, hbelow, hne, -⟩ := exists_directory_of_deposit hplan hwritten
  cases hsame.symm.trans hdirectory
  apply Entry.directory_above_depositAll hplaces hafter hwritten (habove.trans hbelow)
  rintro rfl
  exact hne (hbelow.eq_of_length_le habove.length_le)

end Deposits

/-- A plan like another one, but for files that are not expanded. -/
structure Repeats (again made : Plan) : Prop where
  settings_eq : again.settings = made.settings
  root_eq : again.manifest.root = made.manifest.root
  directory_eq : again.directory = made.directory
  sources_eq : again.sources = made.sources

namespace Repeats

variable {again made : Plan} (h : again.Repeats made) {before after : Entry}
  (hfiles : ∀ file ∈ made.sources,
    after.fileAt? (made.manifest.root.child file.path).parts =
      before.fileAt? (made.manifest.root.child file.path).parts)

include h hfiles

theorem expansion?_eq (language : Language) {file : SourceFile} (hfile : file ∈ made.sources) :
    again.expansion? language after.fileAt? file =
      made.expansion? language before.fileAt? file := by
  rw [expansion?, expansion?, h.settings_eq, h.root_eq, hfiles file hfile]

theorem map_outcome?_eq (language : Language) (dryRun : Bool) :
    again.sources.map (again.outcome? language dryRun after.fileAt?) =
      made.sources.map (made.outcome? language dryRun before.fileAt?) := by
  rw [h.sources_eq]
  apply List.map_congr_left
  intro file hfile
  rw [outcome?, outcome?, h.settings_eq, h.root_eq, h.directory_eq, hfiles file hfile]

theorem deposits_eq (language : Language) (dryRun : Bool) :
    again.deposits language dryRun after = made.deposits language dryRun before := by
  rw [deposits, deposits, h.sources_eq]
  apply List.flatMap_congr
  intro file hfile
  rw [h.directory_eq, h.expansion?_eq hfiles language hfile]

/-- Where files are written already, they can be written again. -/
theorem writable {language : Language} {dryRun : Bool}
    (hthere : ∀ written ∈ made.deposits language dryRun before,
    after.fileAt? written.1.parts = some written.2) : again.Writable language dryRun after := by
  intro file hfile hsome written hwritten
  rw [h.sources_eq] at hfile
  rw [h.expansion?_eq hfiles language hfile] at hsome
  rw [h.directory_eq] at hwritten
  obtain ⟨expanded, hexpanded⟩ := Option.isSome_iff_exists.1 hsome
  exact Entry.accepts_of_fileAt? (hthere (written, Text.Utf8.encode expanded.source)
    (mem_deposits_iff.2 ⟨file, hfile, hwritten, expanded, hexpanded, rfl⟩))

end Repeats

end Plan

/-! ## Files that a run asks for -/

namespace Action

section Buried

variable {loader : Yaml.Loader} {workspace : Workspace}

theorem run_readText_of_directory {path : Path} (hpath : path.Resolved)
    (h : workspace.tree.kind? path.parts = some none) :
    ((readText path).run workspace).1 = .error (.file ⟨.isADirectory, path.text⟩) := by
  obtain ⟨children, hchildren⟩ := Entry.kind?_eq_directory_iff.1 h
  have hread : workspace.tree.readFile workspace.here path =
      .error ⟨.isADirectory, path.text⟩ := by
    rw [Entry.readFile, (Entry.stat_eq_ok_iff hpath.isAbsolute hpath.parts).2 hchildren]
  rw [readText, (reads_look _).run_bind_of_ok (congrArg Except.ok hread)]
  rfl

theorem run_pathExists_of_directory {path : Path} (hpath : path.Resolved)
    (h : workspace.tree.kind? path.parts = some none) :
    ((look fun tree here => tree.pathExists here path).run workspace).1 = .ok true := by
  change Except.ok (workspace.tree.pathExists workspace.here path) = _
  rw [Entry.pathExists_eq hpath.isAbsolute hpath.parts, h]
  rfl

theorem Reads.run_bind_of_error {α β : Type} {action : Action α} {next : α → Action β}
    (h : Reads action) {fault : RunFault} (herror : (action.run workspace).1 = .error fault) :
    ((action >>= next).run workspace).1 = .error fault := by
  rw [run_bind, h.run_eq workspace, herror]

variable {names : List String} {name : String} (hresolved : (Path.ofNames (names ++ [name])).Resolved)
  (h : workspace.tree.kind? (names ++ [name]) = some none)

include hresolved h

theorem run_loadSettings_of_directory (hname : name = settingsFileName) :
    ((loadSettings loader (Path.ofNames names)).run workspace).1 =
      .error (.file ⟨.isADirectory, (Path.ofNames (names ++ [name])).text⟩) := by
  subst hname
  have hdots : ".." ∉ names := fun hmem => hresolved.parts (List.mem_append_left _ hmem)
  have hdirectory : workspace.tree.kind? names = some none := by
    obtain ⟨children, hchildren⟩ := Entry.kind?_eq_directory_iff.1 h
    exact Entry.kind?_above hchildren (List.prefix_append _ _) (by simp)
  rw [loadSettings,
    (reads_settingsPath _).run_bind_of_ok (by rw [run_settingsPath hdots hdirectory]),
    (reads_look _).run_bind_of_ok (run_pathExists_of_directory hresolved h), if_pos rfl]
  exact (reads_readText _).run_bind_of_error (run_readText_of_directory hresolved h)

theorem run_settingsExcludes_of_directory (hname : name = settingsFileName) :
    ((settingsExcludes loader (Path.ofNames names)).run workspace).1 =
      .error (.file ⟨.isADirectory, (Path.ofNames (names ++ [name])).text⟩) := by
  have hreads : Reads (do return (← loadSettings loader (Path.ofNames names)).excludePaths) :=
    (reads_loadSettings _).bind fun _ => reads_pure _
  have hload : ((do return (← loadSettings loader (Path.ofNames names)).excludePaths :
      Action (List String)).run workspace).1 =
        .error (.file ⟨.isADirectory, (Path.ofNames (names ++ [name])).text⟩) :=
    (reads_loadSettings _).run_bind_of_error (run_loadSettings_of_directory hresolved h hname)
  rw [settingsExcludes, run_tryCatch, hreads.run_eq workspace, hload]
  rfl

omit hresolved h in
theorem exists_settingsExcludes {root : Path} {rules : List IgnoreRule}
    (hrules : ((ignoreRules loader root none).run workspace).1 = .ok rules) :
    ∃ excludes, ((settingsExcludes loader root).run workspace).1 = .ok excludes := by
  obtain ⟨isThere, -, hrules⟩ := (reads_look _).exists_of_bind hrules
  cases isThere with
  | false =>
      obtain ⟨excludes, hexcludes, -⟩ := (reads_settingsExcludes _).exists_of_bind hrules
      exact ⟨excludes, hexcludes⟩
  | true =>
      obtain ⟨lines, -, hrules⟩ := (((reads_readText _).map _).map _).exists_of_bind hrules
      obtain ⟨excludes, hexcludes, -⟩ := (reads_settingsExcludes _).exists_of_bind hrules
      exact ⟨excludes, hexcludes⟩

/-- Rules are read only if no directory stands where their file is looked for. -/
theorem run_ignoreRules_of_directory (hname : name = ".gitignore") (excludes : Option (List String)) :
    ((ignoreRules loader (Path.ofNames names) excludes).run workspace).1 =
      .error (.file ⟨.isADirectory, (Path.ofNames (names ++ [name])).text⟩) := by
  subst hname
  have hread := run_readText_of_directory hresolved h
  have hlines : ((IgnoreRule.ofLines <$> Text.bareLines <$>
      readText (Path.ofNames (names ++ [".gitignore"])) : Action _).run workspace).1 =
        .error (.file ⟨.isADirectory, (Path.ofNames (names ++ [".gitignore"])).text⟩) := by
    rw [← bind_pure_comp, ← bind_pure_comp]
    exact ((reads_readText _).bind fun _ => reads_pure _).run_bind_of_error
      ((reads_readText _).run_bind_of_error hread)
  have hexists := run_pathExists_of_directory hresolved h
  refine Eq.trans (congrArg Prod.fst ((reads_look _).run_bind_of_ok hexists)) ?_
  exact (((reads_readText _).map _).map _).run_bind_of_error hlines

end Buried

section Planned

variable {tools : Tools} {options : RunOptions} {path : String} {workspace : Workspace}
  (hworkspace : workspace.Sound) {target : List String} {entry : Entry}
  (htarget : ((expandHome (Path.ofString path) >>= resolve).run workspace).1 = .ok target)
  (hget : workspace.tree.get? target = some entry) {made : Plan}
  (hmade : ((plan tools options path).run workspace).1 = .ok made)

include hworkspace hget

theorem names_of_base : ∀ name ∈ base target entry, IsFileName name := by
  have hnames := (hworkspace.tree.names_of_get? hget).2
  unfold base
  split
  · exact hnames
  · exact fun name hname => hnames name (List.mem_of_mem_dropLast hname)

omit hget in
/-- No file stands at the root. -/
theorem ne_nil_of_file {content : List UInt8}
    (hget : workspace.tree.get? target = some (.file content)) : target ≠ [] := by
  rintro rfl
  have hroot := hworkspace.root
  rw [Option.some.inj hget] at hroot
  cases hroot

theorem kind?_base : workspace.tree.kind? (base target entry) = some none := by
  cases entry with
  | directory children => exact Entry.kind?_eq_directory_iff.2 ⟨children, hget⟩
  | file content =>
      have hne := ne_nil_of_file hworkspace hget
      have hshort : target.dropLast.length ≠ target.length := by
        have hlength := List.length_pos_of_ne_nil hne
        rw [List.length_dropLast]
        omega
      exact Entry.kind?_above hget (List.dropLast_prefix _) fun heq =>
        hshort (congrArg List.length heq)

include htarget hmade

/-- The root of a run is the directory in which it looks for settings. -/
theorem root_of_plan : made.manifest.root = Path.ofNames (base target entry) := by
  have hnames := (hworkspace.tree.names_of_get? hget).2
  obtain ⟨-, hscan, -⟩ := (run_plan_eq_ok_iff htarget hget).1 hmade
  cases entry with
  | file content =>
      rw [run_scan_file hnames hget] at hscan
      rw [← Except.ok.inj hscan]
      rfl
  | directory children =>
      rw [run_scan_directory hnames hget rfl] at hscan
      obtain ⟨rules, -, hmanifest⟩ := (reads_ignoreRules _ _).exists_of_bind hscan
      rw [← Except.ok.inj hmanifest]
      rfl

/-- None of the files that a planned run asks for is a directory. -/
theorem not_directory_of_asked {name : String} (hname : name ∈ asked options entry.isDirectory) :
    workspace.tree.kind? (base target entry ++ [name]) ≠ some none := by
  intro hburied
  have hnames := names_of_base hworkspace hget
  have hresolved : (Path.ofNames (base target entry ++ [name])).Resolved := by
    refine ⟨rfl, ?_⟩
    have hdots : name ≠ ".." := by
      have hsubset := asked_subset options _ hname
      rintro rfl
      revert hsubset
      decide
    simp only [Path.ofNames, List.mem_append, List.mem_singleton, not_or]
    exact ⟨fun hmem => (hnames _ hmem).ne_dots rfl, Ne.symm hdots⟩
  have hbase : base target entry = if entry.isDirectory then target else target.dropLast := rfl
  obtain ⟨hsettings, hscan, -⟩ := (run_plan_eq_ok_iff htarget hget).1 hmade
  simp only [asked, List.mem_append, List.mem_ite_nil_right, List.mem_singleton] at hname
  rcases hname with ⟨hasked, hname⟩ | ⟨hentry, hname⟩
  · rcases hasked with hnone | ⟨hentry, hexcludes⟩
    · rw [runSettings, hnone] at hsettings
      rw [← hbase, run_loadSettings_of_directory hresolved hburied hname] at hsettings
      cases hsettings
    · rw [hexcludes, Option.getD_some, run_scan_directory
        (hworkspace.tree.names_of_get? hget).2 hget hentry] at hscan
      obtain ⟨rules, hrules, -⟩ := (reads_ignoreRules _ _).exists_of_bind hscan
      obtain ⟨excludes, hok⟩ := exists_settingsExcludes hrules
      rw [if_pos hentry] at hbase
      rw [hbase] at hresolved hburied
      rw [run_settingsExcludes_of_directory hresolved hburied hname] at hok
      cases hok
  · rw [run_scan_directory (hworkspace.tree.names_of_get? hget).2 hget hentry] at hscan
    obtain ⟨rules, hrules, -⟩ := (reads_ignoreRules _ _).exists_of_bind hscan
    rw [if_pos hentry] at hbase
    rw [hbase] at hresolved hburied
    rw [run_ignoreRules_of_directory hresolved hburied hname] at hrules
    cases hrules

end Planned

end Action

/-! ## Plans that are repeated -/

/-- The sources of a directory depend only on the files outside of the one that is written
to. -/
theorem Plan.sources_below_congr {target : List String} (hdots : ".." ∉ target)
    {entry other : Entry} (hentry : entry.Sound) (hother : other.Sound) {settings : Settings}
    {rules : List IgnoreRule} {directory : Option Path}
    (hdirectory : ∀ place ∈ directory, place.Resolved)
    (hfiles : ∀ names, (∀ place ∈ directory, ¬ place.parts <+: target ++ names) →
      other.fileAt? names = entry.fileAt? names) :
    (Plan.below target other settings rules directory).sources =
      (Plan.below target entry settings rules directory).sources := by
  have hmem : ∀ {left right : Entry}, left.Sound → right.Sound →
      (∀ names, (∀ place ∈ directory, ¬ place.parts <+: target ++ names) →
        right.fileAt? names = left.fileAt? names) →
      ∀ file ∈ (Plan.below target left settings rules directory).sources,
        file ∈ (Plan.below target right settings rules directory).sources := by
    intro left right hleft hright hsame file hfile
    have hroot : (Path.ofNames target).Resolved := ⟨rfl, hdots⟩
    have hapart := fun place hplace => @Action.not_inside_of_outside _ directory _ hroot hdirectory
      (listedBelow_filesBelow rules hleft rfl) _ hfile place hplace
    obtain ⟨hlisted, houtside⟩ := List.mem_filter.1 hfile
    obtain ⟨names, content, heligible, rfl⟩ := (mem_filesBelow_iff_eligible hleft).1 hlisted
    have hnames := hleft.names_of_fileAt? heligible.file
    have hchild : (Path.ofNames target).child (Text.joined "/" names) =
        Path.ofNames (target ++ names) := hroot.child_eq (ofString_joined hnames)
    rw [hchild] at hapart
    exact List.mem_filter.2 ⟨(mem_filesBelow_iff_eligible hright).2
      ⟨names, content, heligible.of_fileAt? (hsame names hapart), rfl⟩, houtside⟩
  apply eq_of_sorted ((sorted_listing rules hother).filter _) ((sorted_listing rules hentry).filter _)
  intro file
  exact ⟨hmem hother hentry (fun names hnames => (hfiles names hnames).symm) file,
    hmem hentry hother hfiles file⟩

namespace Action

section Again

variable {tools : Tools} {options : RunOptions} {path : String} {workspace : Workspace}
  (hworkspace : workspace.Sound) {target : List String} {entry : Entry}
  (htarget : ((expandHome (Path.ofString path) >>= resolve).run workspace).1 = .ok target)
  (hget : workspace.tree.get? target = some entry) {made : Plan}
  (hmade : ((plan tools options path).run workspace).1 = .ok made)

include hworkspace htarget hget hmade

/-- In a tree that differs only inside of the directory that is written to, a run has the plan
that it had. -/
theorem exists_repeats {tree : Entry} (hsound : tree.Sound) (log : List LogRecord)
    (hroot : tree.kind? (base target entry) = some none)
    (hfile : entry.isDirectory = false → tree.get? target = some entry)
    (hkinds : ∀ name ∈ asked options entry.isDirectory, ∀ above,
      above <+: base target entry ++ [name] → tree.kind? above = workspace.tree.kind? above)
    (houtside : ∀ names, (∀ directory ∈ made.directory, ¬ directory.parts <+: names) →
      tree.fileAt? names = workspace.tree.fileAt? names) :
    ∃ again, ((plan tools options path).run { workspace with tree, log }).1 = .ok again ∧
      again.Repeats made := by
  obtain ⟨hentry, hnames⟩ := hworkspace.tree.names_of_get? hget
  have hdots : ".." ∉ base target entry :=
    fun hmem => (names_of_base hworkspace hget _ hmem).ne_dots rfl
  have hdirectory := kind?_base hworkspace hget
  have htarget' := (@agrees_target workspace tree _ log).trans htarget
  have hplanned := (run_plan_eq_ok_iff htarget hget).1 hmade
  have hdestination := @agrees_destination workspace tree options made.settings log
  cases entry with
  | file content =>
      have hthere := hfile rfl
      refine ⟨made, (run_plan_eq_ok_iff htarget' hthere).2 ⟨?_, ?_, ?_⟩, rfl, rfl, rfl, rfl⟩
      · rw [run_runSettings_eq rfl hdots hdirectory hkinds log, hplanned.1]
      · rw [run_scan_file hnames hthere, ← hplanned.2.1, run_scan_file hnames hget]
      · rw [hdestination, hplanned.2.2]
  | directory children =>
      obtain ⟨others, hothers⟩ := Entry.kind?_eq_directory_iff.1 hroot
      change tree.get? target = some (.directory others) at hothers
      obtain ⟨hsettings, hscan, hdirectory'⟩ := hplanned
      rw [run_scan_directory hnames hget rfl] at hscan
      obtain ⟨rules, hrules, hmanifest⟩ := (reads_ignoreRules _ _).exists_of_bind hscan
      have hbelow : made = Plan.below target (.directory children) made.settings rules
          made.directory := by
        rw [Plan.below, Except.ok.inj hmanifest]
      refine ⟨Plan.below target (.directory others) made.settings rules made.directory,
        (run_plan_eq_ok_iff htarget' hothers).2 ⟨?_, ?_, ?_⟩, ?_⟩
      · exact (run_runSettings_eq rfl hdots hdirectory hkinds log).trans hsettings
      · apply run_scan hnames hothers rfl
        rw [← hrules]
        exact run_ignoreRules_eq hdots hdirectory hkinds log rfl made.settings
      · exact hdestination.trans hdirectory'
      · refine ⟨rfl, (root_of_plan hworkspace htarget hget hmade).symm, rfl, ?_⟩
        conv_rhs => rw [hbelow]
        apply Plan.sources_below_congr (fun hmem => (hnames _ hmem).ne_dots rfl) hentry
          (hsound.names_of_get? hothers).1 (sound_of_plan hworkspace hmade).directory
        intro names hplace
        have hsame := houtside (target ++ names) hplace
        rwa [Entry.fileAt?, Entry.get?_append, hothers, Entry.fileAt?, Entry.get?_append,
          hget] at hsame

end Again

end Action

/-! ## The outcome of a run that is repeated -/

/-- Some expansion was written. -/
def RunOutcome.Writes (outcome : RunOutcome) : Prop :=
  ∃ file ∈ outcome.files, file.written.isSome = true

/-- The directory that is written to is at or below a place where the run looks for one of
some files. -/
def Plan.Buries (plan : Plan) (names : List String) : Prop :=
  ∃ name ∈ names, ∃ directory ∈ plan.directory,
    plan.manifest.root.parts ++ [name] <+: directory.parts

/-- An outcome names a written path exactly if the file has a deposit. -/
theorem FileOutcome.isSome_written_ofBytes (language : Language) (unit name : String)
    (path : Path) (directory : Option Path) (dryRun : Bool) (bytes : List UInt8) :
    (ofBytes language unit name path directory dryRun bytes).written.isSome = true ↔
      depositsOf (Action.targetOf directory dryRun name)
        (expansionOf? language unit name (some bytes)) ≠ [] := by
  unfold ofBytes
  cases hdecode : Text.Utf8.decode bytes with
  | error fault => simp [expansionOf?_of_fault unit name hdecode, depositsOf]
  | ok text =>
      rw [expansionOf?_of_decode unit name hdecode]
      simp only
      cases expand language unit name (Text.normalizeNewlines text) with
      | error error => simp [Except.toOption, depositsOf]
      | ok expansion =>
          cases dryRun <;> cases directory <;>
            simp [Except.toOption, depositsOf, Action.targetOf]

section Outcome

variable {language : Language} {plan : Plan} {dryRun : Bool} {tree : Entry}
  (hplan : plan.Sound tree)
  {outcome : RunOutcome}
  (houtcome :
    outcome.files.map some = plan.sources.map (plan.outcome? language dryRun tree.fileAt?))

include hplan houtcome

/-- The outcomes of a run are those of its sources. -/
theorem mem_outcome_iff {found : FileOutcome} :
    found ∈ outcome.files ↔ ∃ file ∈ plan.sources,
      found = .ofBytes language plan.settings.format.unit file.path
        (plan.manifest.root.child file.path)
        plan.directory dryRun (plan.bytes tree file) := by
  rw [Plan.map_outcome? hplan, (Option.some_injective _).list_map.eq_iff] at houtcome
  rw [houtcome, List.mem_map]
  simp only [eq_comm]

theorem writes_iff : outcome.Writes ↔ plan.deposits language dryRun tree ≠ [] := by
  rw [Plan.deposits, ne_eq, List.flatMap_eq_nil_iff]
  push Not
  constructor
  · rintro ⟨found, hfound, hwritten⟩
    obtain ⟨file, hfile, rfl⟩ := (mem_outcome_iff hplan houtcome).1 hfound
    rw [FileOutcome.isSome_written_ofBytes] at hwritten
    refine ⟨file, hfile, ?_⟩
    rwa [Plan.expansion?, Plan.fileAt?_eq_bytes hplan hfile]
  · rintro ⟨file, hfile, hwritten⟩
    refine ⟨_, (mem_outcome_iff hplan houtcome).2 ⟨file, hfile, rfl⟩, ?_⟩
    rw [FileOutcome.isSome_written_ofBytes]
    rwa [Plan.expansion?, Plan.fileAt?_eq_bytes hplan hfile] at hwritten

/-- No source is inside of the directory that is written to. -/
theorem outcome_outside {found : FileOutcome} (hfound : found ∈ outcome.files) {directory : Path}
    (hdirectory : directory ∈ plan.directory) : ¬ directory.parts <+: found.path.parts := by
  obtain ⟨file, hfile, rfl⟩ := (mem_outcome_iff hplan houtcome).1 hfound
  rw [(FileOutcome.tells_ofBytes _ _ _ _ _ _ _).path_eq]
  exact hplan.not_inside hfile hdirectory

end Outcome

theorem Entry.isDirectory_iff_kind? {entry : Entry} :
    entry.isDirectory = true ↔ entry.kind? [] = some none := by
  cases entry <;> simp [isDirectory, kind?, get?, content?]

theorem Workspace.Sound.left {workspace : Workspace} (h : workspace.Sound)
    {files : List (Path × List UInt8)} (hplaces : ∀ file ∈ files, file.1.IsPlace) {tree : Entry}
    (hleft : workspace.tree.depositAll workspace.here files = .ok tree) (log : List LogRecord) :
    ({ workspace with tree, log } : Workspace).Sound where
  root := Entry.isDirectory_iff_kind?.2
    (Entry.directory_of_depositAll hplaces hleft (Entry.isDirectory_iff_kind?.1 h.root))
  tree := h.tree.depositAll hplaces hleft
  here := h.here
  quiet := h.quiet

/-- The settings that a run is given have an output directory of file names. -/
def RunOptions.Named (options : RunOptions) : Prop :=
  ∀ settings ∈ options.settings, settings.Named

section Repeat

open Fakery.Action

variable {tools : Tools} {options : RunOptions} {path : String} {workspace : Workspace}
  (hworkspace : workspace.Sound) {target : List String} {entry : Entry}
  (htarget : ((expandHome (Path.ofString path) >>= resolve).run workspace).1 = .ok target)
  (hget : workspace.tree.get? target = some entry) {made : Plan}
  (hmade : ((plan tools options path).run workspace).1 = .ok made)

include hworkspace htarget hget hmade

/-- The output directory of a plan is spelled by file names. -/
theorem names_of_plan (hplaced : workspace.Placed) (hoptions : options.Named) :
    ∀ directory ∈ made.directory, ∀ name ∈ directory.parts, IsFileName name := by
  obtain ⟨hsettings, -, hdirectory⟩ := (run_plan_eq_ok_iff htarget hget).1 hmade
  have hnamed : made.settings.Named := by
    unfold runSettings at hsettings
    cases hgiven : options.settings with
    | some settings =>
        rw [hgiven] at hsettings
        rw [← Except.ok.inj hsettings]
        exact hoptions settings hgiven
    | none =>
        rw [hgiven] at hsettings
        exact named_of_loadSettings (names_of_base hworkspace hget) (kind?_base hworkspace hget)
          hsettings
  intro directory hmem
  exact names_of_destination hplaced hnamed (hdirectory.trans (congrArg Except.ok hmem))

/-- The only source of a run on a file is the file. -/
theorem child_of_file (hentry : entry.isDirectory = false) {file : SourceFile}
    (hfile : file ∈ made.manifest.files) :
    made.manifest.root.child file.path = Path.ofNames target := by
  have hnames := (hworkspace.tree.names_of_get? hget).2
  obtain ⟨-, hscan, -⟩ := (run_plan_eq_ok_iff htarget hget).1 hmade
  cases entry with
  | directory children => cases hentry
  | file content =>
      rw [run_scan_file hnames hget] at hscan
      rw [← Except.ok.inj hscan] at hfile ⊢
      have hne := ne_nil_of_file hworkspace hget
      have hroot : (Path.ofNames target.dropLast).Resolved :=
        ⟨rfl, fun hmem => (hnames _ (List.mem_of_mem_dropLast hmem)).ne_dots rfl⟩
      rw [List.mem_singleton.1 hfile, List.getLast?_eq_some_getLast hne, Option.getD_some,
        hroot.child_eq (Path.ofString_name (hnames _ (List.getLast_mem hne))), Path.ofNames,
        Path.ofNames, List.dropLast_append_getLast]

variable {outcome : RunOutcome}
  (hok : ((expandPath tools options path).run workspace).1 = .ok outcome)

include hok

omit htarget hget in
/-- What a run that ends well leaves. -/
theorem exists_left :
    ∃ tree log, ((expandPath tools options path).run workspace).2 = { workspace with tree, log } ∧
      workspace.tree.depositAll workspace.here
        (made.deposits tools.language options.dryRun workspace.tree) =
        .ok tree ∧
      (∀ names, (∀ directory ∈ made.directory, ¬ directory.parts <+: names) →
        tree.fileAt? names = workspace.tree.fileAt? names) ∧
      ∀ written ∈ made.deposits tools.language options.dryRun workspace.tree,
        tree.fileAt? written.1.parts = some written.2 := by
  have hplan := sound_of_plan hworkspace hmade
  obtain ⟨after, hstep, -, hafter⟩ := exists_filesStep_of_run hworkspace hmade hok
  rw [run_expandPath hmade] at hok hafter ⊢
  obtain ⟨tree, log, hdeposits, hrun⟩ := Plan.exists_deposits hplan hworkspace.quiet hok
  have htree : tree = after.tree := by rw [← hafter, hrun]
  refine ⟨tree, log, hrun, hdeposits, ?_, ?_⟩
  · intro names hnames
    rw [htree]
    cases hdirectory : made.directory with
    | none => rw [made.tree_eq hstep (.inr hdirectory)]
    | some directory =>
        exact made.fileAt?_eq hstep hplan hdirectory fun hinside =>
          hnames directory hdirectory hinside.1
  · intro written hwritten
    obtain ⟨file, hfile, hplace, expanded, hexpanded, hcontent⟩ := Plan.mem_deposits_iff.1 hwritten
    rw [htree, hcontent]
    exact hstep.written _ rfl file hfile expanded hexpanded _ hplace

omit hok in
/-- After a run, its path leads to a directory again or to the same file. -/
theorem exists_entry_left {tree : Entry}
    (hnames : ∀ directory ∈ made.directory, ∀ name ∈ directory.parts, IsFileName name)
    (hleft : workspace.tree.depositAll workspace.here
      (made.deposits tools.language options.dryRun workspace.tree) = .ok tree)
    (houtside : ∀ names, (∀ directory ∈ made.directory, ¬ directory.parts <+: names) →
      tree.fileAt? names = workspace.tree.fileAt? names) :
    ∃ other, tree.get? target = some other ∧ other.isDirectory = entry.isDirectory ∧
      (entry.isDirectory = false → other = entry) := by
  have hplan := sound_of_plan hworkspace hmade
  cases entry with
  | directory children =>
      have hthere := Entry.directory_of_depositAll
        (fun written => Plan.isPlace_of_deposit hplan hnames) hleft
        (Entry.kind?_eq_directory_iff.2 ⟨children, hget⟩)
      obtain ⟨others, hothers⟩ := Entry.kind?_eq_directory_iff.1 hthere
      exact ⟨_, hothers, rfl, fun hfile => by cases hfile⟩
  | file content =>
      by_cases hempty : made.deposits tools.language options.dryRun workspace.tree = []
      · rw [hempty] at hleft
        cases hleft
        exact ⟨_, hget, rfl, fun _ => rfl⟩
      · -- The file is a source, so that it is not inside of the directory that is written to.
        obtain ⟨written, hwritten⟩ := List.exists_mem_of_ne_nil _ hempty
        obtain ⟨file, hfile, -⟩ := Plan.mem_deposits_iff.1 hwritten
        have hchild := child_of_file hworkspace htarget hget hmade rfl (outside_subset hfile)
        have hapart : ∀ directory ∈ made.directory, ¬ directory.parts <+: target := by
          intro directory hdirectory hinside
          exact hplan.not_inside hfile hdirectory (hchild ▸ hinside)
        have hfileAt : tree.fileAt? target = some content := by
          rw [houtside target hapart, Entry.fileAt?, hget]
          rfl
        obtain ⟨other, hother, hcontent⟩ := Option.bind_eq_some_iff.1 hfileAt
        cases other with
        | directory children => cases hcontent
        | file bytes =>
            cases hcontent
            exact ⟨_, hother, rfl, fun _ => rfl⟩

/-- A run that is repeated has the same outcome and leaves the same tree, unless a directory
was made in the place of a file that it asks for. -/
theorem run_again (hplaced : workspace.Placed) (hoptions : options.Named)
    (hburies : ¬ (outcome.Writes ∧ made.Buries (asked options entry.isDirectory))) :
    let first := (expandPath tools options path).run workspace
    let second := (expandPath tools options path).run first.2
    second.1 = .ok outcome ∧ second.2.tree = first.2.tree := by
  intro first second
  have hplan := sound_of_plan hworkspace hmade
  have hnames := names_of_plan hworkspace htarget hget hmade hplaced hoptions
  have hbase := root_of_plan hworkspace htarget hget hmade
  obtain ⟨tree, log, hfirst, hleft, houtside, hthere⟩ := exists_left hworkspace hmade hok
  rw [run_expandPath hmade] at hok
  obtain ⟨-, hroot, houtcome⟩ := (Plan.run_carryOut_eq_ok_iff hplan hworkspace.quiet).1 hok
  have hplaces := fun written hwritten =>
    @Plan.isPlace_of_deposit tools.language _ _ options.dryRun hplan hnames written hwritten
  have hkept : ∀ {names}, workspace.tree.kind? names = some none → tree.kind? names = some none :=
    Entry.directory_of_depositAll hplaces hleft
  have hsound := hworkspace.left hplaces hleft log
  -- None of the files that are asked for has changed.
  have hkinds : ∀ name ∈ asked options entry.isDirectory, ∀ above,
      above <+: base target entry ++ [name] → tree.kind? above = workspace.tree.kind? above := by
    intro name hname above habove
    have hrootkind : workspace.tree.kind? made.manifest.root.parts = some none := by
      rw [hbase]
      exact kind?_base hworkspace hget
    refine made.kind?_beside hplan hnames hleft hrootkind ?_ (by rwa [hbase])
    by_contra hboth
    push Not at hboth
    obtain ⟨hsome, directory, hdirectory, hover⟩ := hboth
    exact hburies ⟨(writes_iff hplan houtcome).2 hsome, name, hname, directory, hdirectory, hover⟩
  obtain ⟨other, hother, -, hsame⟩ :=
    exists_entry_left hworkspace htarget hget hmade hnames hleft houtside
  obtain ⟨again, hagain, hrepeats⟩ := exists_repeats hworkspace htarget hget hmade hsound.tree log
    (hkept (kind?_base hworkspace hget)) (fun hfile => hsame hfile ▸ hother) hkinds houtside
  have hsources : ∀ file ∈ made.sources, tree.fileAt? (made.manifest.root.child file.path).parts =
      workspace.tree.fileAt? (made.manifest.root.child file.path).parts := by
    intro file hfile
    exact houtside _ fun directory hdirectory => hplan.not_inside hfile hdirectory
  have hplan' := sound_of_plan hsound hagain
  have hsecond : second = (carryOut tools options again).run { workspace with tree, log } := by
    rw [← run_expandPath hagain, ← hfirst]
  have hok' : second.1 = .ok outcome := by
    rw [hsecond, Plan.run_carryOut_eq_ok_iff hplan' hsound.quiet]
    exact ⟨hrepeats.writable hsources hthere, hroot.trans hrepeats.root_eq.symm,
      houtcome.trans (hrepeats.map_outcome?_eq hsources _ _).symm⟩
  refine ⟨hok', ?_⟩
  obtain ⟨final, log', hfinal, hrun⟩ := Plan.exists_deposits hplan' hsound.quiet (hsecond ▸ hok')
  rw [hrepeats.deposits_eq hsources, Entry.depositAll_of_there hplaces hthere] at hfinal
  cases hfinal
  rw [hsecond, hrun, hfirst]

/-- A run that has made a directory in the place of a file that it asks for cannot be
repeated. -/
theorem run_again_of_buries (hplaced : workspace.Placed) (hoptions : options.Named)
    (hwrites : outcome.Writes) (hburies : made.Buries (asked options entry.isDirectory)) :
    let first := (expandPath tools options path).run workspace
    ∃ fault, (expandPath tools options path).run first.2 = (.error fault, first.2) := by
  intro first
  have hplan := sound_of_plan hworkspace hmade
  have hnames := names_of_plan hworkspace htarget hget hmade hplaced hoptions
  have hbase := root_of_plan hworkspace htarget hget hmade
  obtain ⟨tree, log, hfirst, hleft, houtside, -⟩ := exists_left hworkspace hmade hok
  rw [run_expandPath hmade] at hok
  obtain ⟨-, -, houtcome⟩ := (Plan.run_carryOut_eq_ok_iff hplan hworkspace.quiet).1 hok
  have hsound := hworkspace.left (fun written => Plan.isPlace_of_deposit hplan hnames) hleft log
  obtain ⟨name, hname, directory, hdirectory, hover⟩ := hburies
  have hburied := made.kind?_above_directory hplan hnames hleft
    ((writes_iff hplan houtcome).1 hwrites) hdirectory hover
  obtain ⟨other, hother, hsame, -⟩ :=
    exists_entry_left hworkspace htarget hget hmade hnames hleft houtside
  have htarget' := (@agrees_target workspace tree _ log).trans htarget
  have hfails :
      ∀ again, ((plan tools options path).run { workspace with tree, log }).1 ≠ .ok again := by
    intro again hagain
    refine not_directory_of_asked hsound htarget' hother hagain (hsame ▸ hname) ?_
    rw [base, hsame]
    rw [hbase] at hburied
    exact hburied
  rw [hfirst, expandPath_eq, run_bind, (reads_plan options path).run_eq]
  cases hresult : ((plan tools options path).run { workspace with tree, log }).1 with
  | ok again => exact absurd hresult (hfails again)
  | error fault => exact ⟨fault, rfl⟩

end Repeat

open Fakery.Action in
/-- A run that is repeated leaves the tree as it is.  It has the outcome of the first one
exactly if that has not made a directory in the place of a settings file or an ignore file
that is asked for.  No source is inside of the directory that is written to. -/
theorem expandPath_again {tools : Tools} {options : RunOptions} (hoptions : options.Named)
    {path : String}
    {workspace : Workspace} (hworkspace : workspace.Sound) (hplaced : workspace.Placed)
    {target : List String} {entry : Entry}
    (htarget : ((expandHome (Path.ofString path) >>= resolve).run workspace).1 = .ok target)
    (hget : workspace.tree.get? target = some entry) {made : Plan}
    (hmade : ((plan tools options path).run workspace).1 = .ok made) {outcome : RunOutcome}
    (hok : ((expandPath tools options path).run workspace).1 = .ok outcome) :
    let first := (expandPath tools options path).run workspace
    let second := (expandPath tools options path).run first.2
    (∀ file ∈ outcome.files, ∀ directory ∈ made.directory,
      ¬ directory.parts <+: file.path.parts) ∧
      second.2.tree = first.2.tree ∧
      (second.1 = .ok outcome ↔
        ¬ (outcome.Writes ∧ made.Buries (asked options entry.isDirectory))) := by
  intro first second
  have hplan := sound_of_plan hworkspace hmade
  constructor
  · rw [run_expandPath hmade] at hok
    obtain ⟨-, -, houtcome⟩ := (Plan.run_carryOut_eq_ok_iff hplan hworkspace.quiet).1 hok
    exact fun file hfile directory hdirectory => outcome_outside hplan houtcome hfile hdirectory
  by_cases hburies : outcome.Writes ∧ made.Buries (asked options entry.isDirectory)
  · obtain ⟨fault, hfault⟩ := run_again_of_buries hworkspace htarget hget hmade hok hplaced hoptions
      hburies.1 hburies.2
    have hsecond : second = (.error fault, first.2) := hfault
    rw [hsecond]
    exact ⟨rfl, iff_of_false (by simp) (not_not_intro hburies)⟩
  · obtain ⟨hsame, htree⟩ := run_again hworkspace htarget hget hmade hok hplaced hoptions hburies
    exact ⟨htree, iff_of_true hsame hburies⟩

/-- A source directory with an ignore file and a file that cannot be decoded. -/
def repeatedSources : Workspace where
  tree := .directory [("src", .directory [
    (".gitignore", .file (Text.Utf8.encode "*.txt\n".toList)),
    ("sub", .directory [("Broken.swift", .file [0xff])]),
    ("Dot.swift", .file (Text.Utf8.encode "@AutoFake struct Dot \x7b\x7d".toList))])]
  here := ["src"]
  home := []

theorem repeatedSources_sound : repeatedSources.Sound where
  root := rfl
  tree := by
    have hsub : (Entry.directory [("Broken.swift", .file [0xff])]).Sound := by
      refine .directory (by decide) (by simp; decide) ?_
      simpa using .file _
    refine .directory (by decide) (by simp; decide) ?_
    rw [List.forall_mem_singleton]
    refine .directory (by decide) (by simp; decide) ?_
    simpa using ⟨.file _, hsub, .file _⟩
  here := by decide
  quiet := rfl

open Fakery.Action in
theorem expandPath_again_inside :
    let options : RunOptions := { outputDirectory := some "out" }
    let first := (expandPath .standard options ".").run repeatedSources
    let second := (expandPath .standard options ".").run first.2
    ∃ outcome, first.1 = .ok outcome ∧
      outcome.files.map (fun file => (file.path, file.written, file.error.isSome)) =
        [(⟨"/", ["src", "Dot.swift"]⟩, some ⟨"/", ["src", "out", "Dot.swift"]⟩, false),
          (⟨"/", ["src", "sub", "Broken.swift"]⟩, none, true)] ∧
      second.1 = .ok outcome ∧ second.2.tree = first.2.tree := by
  intro options first second
  have hplan : ((plan .standard options ".").run repeatedSources).1.toOption.map
      (fun made => (made.manifest.root, made.directory)) =
        some (⟨"/", ["src"]⟩, some ⟨"/", ["src", "out"]⟩) := by
    decide +kernel
  have hrun : first.1.toOption.map (fun outcome => outcome.files.map fun file =>
      (file.path, file.written, file.error.isSome)) =
        some [(⟨"/", ["src", "Dot.swift"]⟩, some ⟨"/", ["src", "out", "Dot.swift"]⟩, false),
          (⟨"/", ["src", "sub", "Broken.swift"]⟩, none, true)] := by
    decide +kernel
  obtain ⟨made, hmade, hplaces⟩ := Option.map_eq_some_iff.1 hplan
  obtain ⟨outcome, houtcome, hfiles⟩ := Option.map_eq_some_iff.1 hrun
  obtain ⟨hroot, hdirectory⟩ := Prod.mk.inj hplaces
  have hplaced : repeatedSources.Placed := ⟨by decide, by decide⟩
  have hnamed : options.Named := by
    intro settings hsettings
    cases hsettings
  obtain ⟨-, htree, hsame⟩ := expandPath_again hnamed repeatedSources_sound hplaced
    (by rfl : _ = Except.ok ["src"]) rfl (eq_ok_of_toOption hmade) (eq_ok_of_toOption houtcome)
  refine ⟨outcome, eq_ok_of_toOption houtcome, hfiles, hsame.2 ?_, htree⟩
  rintro ⟨-, name, hname, directory, hmem, hover⟩
  rw [hdirectory] at hmem
  cases hmem
  rw [hroot] at hover
  revert name
  decide

def loneSource : Workspace where
  tree := .directory [("A.swift", .file (Text.Utf8.encode "struct A \x7b\n\x7d\n".toList))]
  here := []
  home := []

open Fakery.Action in
/-- Files that are written below the ignore file's place keep a run from being repeated. -/
theorem expandPath_again_gitignore :
    let options : RunOptions := { outputDirectory := some ".gitignore" }
    let first := (expandPath .standard options ".").run loneSource
    first.1.toOption.isSome = true ∧
      ((expandPath .standard options ".").run first.2).1.map (fun _ => ()) =
        .error (.file ⟨.isADirectory, "/.gitignore"⟩) := by
  decide +kernel

end Fakery
