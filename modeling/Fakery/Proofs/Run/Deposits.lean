import Fakery.Proofs.Files.Depositing
import Fakery.Proofs.Run.Directory
import Fakery.Proofs.Run.Recording
import Fakery.Proofs.Yaml.Parts

/-!
# The files that a run puts into its tree

A run that ends well has put the expansions of its sources into the tree, one after another,
and has done nothing else but leave log records.  All of them stand in one directory, whose
path consists of file names.
-/

namespace Fakery

/-- The file that is written for a source, if it is written and expands. -/
def depositsOf (target : Option Path) (expansion : Option Expansion) : List (Path × List UInt8) :=
  (target.bind fun place => expansion.map fun expanded =>
    (place, Text.Utf8.encode expanded.source)).toList

/-- The files that are written as planned, in their order. -/
def Plan.deposits (plan : Plan) (language : Language) (dryRun : Bool) (tree : Entry) :
    List (Path × List UInt8) :=
  plan.sources.flatMap fun file =>
    depositsOf (Action.targetOf plan.directory dryRun file.path)
      (plan.expansion? language tree.fileAt? file)

/-- A plan deposits the expansion of each of its sources that is expanded and has a target. -/
theorem Plan.mem_deposits_iff {language : Language} {plan : Plan} {dryRun : Bool} {tree : Entry}
    {written : Path × List UInt8} :
    written ∈ plan.deposits language dryRun tree ↔
      ∃ file ∈ plan.sources, written.1 ∈ Action.targetOf plan.directory dryRun file.path ∧
        ∃ expanded ∈ plan.expansion? language tree.fileAt? file,
          written.2 = Text.Utf8.encode expanded.source := by
  obtain ⟨place, content⟩ := written
  simp only [deposits, List.mem_flatMap, depositsOf, Option.mem_toList, Option.bind_eq_some_iff,
    Option.map_eq_some_iff, Prod.mk.injEq, Option.mem_def]
  apply exists_congr
  intro file
  apply and_congr_right
  intro _
  constructor
  · rintro ⟨same, hsame, expanded, hexpanded, rfl, rfl⟩
    exact ⟨hsame, expanded, hexpanded, rfl⟩
  · rintro ⟨hplace, expanded, hexpanded, rfl⟩
    exact ⟨place, hplace, expanded, hexpanded, rfl, rfl⟩

namespace Action

section File

variable {language : Language} {workspace after : Workspace} {unit name : String} {path : Path}
  {directory : Option Path} {dryRun : Bool} {bytes : List UInt8}

/-- A write that succeeds is one deposit into the tree. -/
theorem exists_deposit_of_writeBelow {directory written : Path} {source : List Char}
    (h : (writeBelow directory name source).run workspace = (.ok written, after)) :
    ∃ tree, workspace.tree.deposit workspace.here (directory.child name)
        (Text.Utf8.encode source) = .ok tree ∧ after = { workspace with tree } := by
  rw [writeBelow, run_bind, run_change] at h
  cases hmade : workspace.tree.ensureDirectory workspace.here (directory.child name).parent with
  | error fault =>
      rw [hmade] at h
      cases h
  | ok made =>
      rw [hmade] at h
      simp only at h
      rw [run_bind, run_change] at h
      cases hwritten : made.writeFile workspace.here (directory.child name)
          (Text.Utf8.encode source) with
      | error fault =>
          simp only [hwritten] at h
          cases h
      | ok tree =>
          simp only [hwritten] at h
          cases h
          exact ⟨tree, Entry.deposit_eq_ok_iff.2 ⟨made, hmade, hwritten⟩, rfl⟩

/-- One file of a run. -/
theorem exists_deposits_of_expandFile (hquiet : workspace.logFile = none) (hpath : path.Resolved)
    (hbytes : workspace.tree.fileAt? path.parts = some bytes) {outcome : FileOutcome}
    (h : (expandFile language unit name path directory dryRun).run workspace =
      (.ok outcome, after)) :
    ∃ tree log, workspace.tree.depositAll workspace.here (depositsOf
        (targetOf directory dryRun name) (expansionOf? language unit name (some bytes))) =
        .ok tree ∧
      after = { workspace with tree, log } := by
  obtain ⟨log, hrun⟩ := @exists_run_expandFile language _ unit name path directory dryRun _ hquiet
    hpath
    hbytes
  rw [hrun] at h
  generalize FileOutcome.ofBytes language unit name path directory dryRun bytes = own at h
  generalize expansionOf? language unit name (some bytes) = expansion at h ⊢
  cases expansion with
  | none =>
      rw [writing?_none] at h
      cases h
      exact ⟨workspace.tree, log, by simp [depositsOf, Entry.depositAll, pure, Except.pure], rfl⟩
  | some expansion =>
      cases dryRun with
      | true =>
          cases h
          exact ⟨workspace.tree, log, rfl, rfl⟩
      | false =>
          cases directory with
          | none =>
              cases h
              exact ⟨workspace.tree, log, rfl, rfl⟩
          | some directory =>
              change (writeBelow directory name expansion.source >>= fun _ => pure own).run
                { workspace with log } = _ at h
              rw [run_bind] at h
              cases hwrite : (writeBelow directory name expansion.source).run
                  { workspace with log } with
              | mk result middle =>
                  rw [hwrite] at h
                  cases result with
                  | error fault => cases h
                  | ok written =>
                      obtain ⟨tree, hdeposit, rfl⟩ := exists_deposit_of_writeBelow hwrite
                      cases h
                      refine ⟨tree, log, ?_, rfl⟩
                      exact Entry.depositAll_cons_eq_ok_iff.2 ⟨tree, hdeposit, rfl⟩

end File

/-- The files of a run, one after another. -/
theorem exists_deposits_of_expandFiles {language : Language} {unit : String} {root : Path}
    {directory : Option Path} {dryRun : Bool} {files : List SourceFile}
    {workspace after : Workspace} (hroot : root.Resolved)
    (hdirectory : ∀ place ∈ directory, place.Resolved) (hlisted : ListedBelow [] files)
    (hquiet : workspace.logFile = none) {bytes : SourceFile → List UInt8}
    (hbytes : ∀ file ∈ outside root directory files,
      workspace.tree.fileAt? (root.child file.path).parts = some (bytes file))
    {outcomes : List FileOutcome}
    (h : (expandFiles language unit root directory dryRun files).run workspace =
      (.ok outcomes, after)) :
    ∃ tree log, workspace.tree.depositAll workspace.here
        ((outside root directory files).flatMap fun file =>
          depositsOf (targetOf directory dryRun file.path)
            (expansionOf? language unit file.path (some (bytes file)))) = .ok tree ∧
      after = { workspace with tree, log } := by
  induction files generalizing workspace after outcomes with
  | nil =>
      cases h
      exact ⟨_, _, rfl, rfl⟩
  | cons file files ih =>
      cases hinside : isInside directory (root.child file.path) with
      | true =>
          rw [outside_cons_of_inside hinside] at hbytes ⊢
          rw [expandFiles, if_pos hinside] at h
          exact ih hlisted.tail hquiet hbytes h
      | false =>
          have houtside := @outside_cons_of_not_inside root directory file files hinside
          have hresolved := (hlisted.child_spec hroot List.mem_cons_self).1
          have hown := hbytes file (by simp [houtside])
          have hstep := @expandFile_recorded language unit directory dryRun _ _ _ _ hquiet hresolved
            (targetsResolved hdirectory hlisted dryRun List.mem_cons_self) hown
          rw [run_expandFiles_cons hinside] at h
          cases hrun : (expandFile language unit file.path (root.child file.path) directory
              dryRun).run workspace with
          | mk result middle =>
              rw [hrun] at h hstep
              cases result with
              | error fault => cases h
              | ok outcome =>
                  obtain ⟨tree, log, hfirst, rfl⟩ :=
                    exists_deposits_of_expandFile hquiet hresolved hown hrun
                  have hkept := hstep.sources_kept hroot hdirectory hlisted hinside hbytes
                  cases hrest : (expandFiles language unit root directory dryRun files).run
                      { workspace with tree, log } with
                  | mk more final =>
                      simp only [hrest] at h
                      cases more with
                      | error fault => cases h
                      | ok more =>
                          obtain ⟨tree', log', hothers, rfl⟩ :=
                            @ih { workspace with tree, log } final hlisted.tail hquiet hkept more hrest
                          cases h
                          refine ⟨tree', log', ?_, rfl⟩
                          rw [houtside, List.flatMap_cons, Entry.depositAll_append, hfirst]
                          exact hothers

end Action

/-- A plan that is carried out puts its files into the tree. -/
theorem Plan.exists_deposits {tools : Tools} {plan : Plan} {options : RunOptions}
    {workspace : Workspace}
    (hplan : plan.Sound workspace.tree) (hquiet : workspace.logFile = none) {outcome : RunOutcome}
    (hok : ((Action.carryOut tools options plan).run workspace).1 = .ok outcome) :
    ∃ tree log, workspace.tree.depositAll workspace.here
        (plan.deposits tools.language options.dryRun workspace.tree) = .ok tree ∧
      ((Action.carryOut tools options plan).run workspace).2 = { workspace with tree, log } := by
  have hdeposits : plan.deposits tools.language options.dryRun workspace.tree =
    plan.sources.flatMap fun file =>
      depositsOf (Action.targetOf plan.directory options.dryRun file.path)
        (expansionOf? tools.language plan.settings.format.unit file.path
          (some (plan.bytes workspace.tree file))) := by
    apply List.flatMap_congr
    intro file hfile
    rw [expansion?, fileAt?_eq_bytes hplan hfile]
  rw [Action.carryOut, Action.run_bind, Action.run_emit hquiet] at hok ⊢
  simp only at hok ⊢
  rw [Action.run_bind] at hok ⊢
  generalize workspace.log ++ [_] = log at hok ⊢
  cases hrun : (Action.expandFiles tools.language plan.settings.format.unit plan.manifest.root
      plan.directory options.dryRun plan.manifest.files).run { workspace with log } with
  | mk result after =>
      rw [hrun] at hok
      cases result with
      | error fault => cases hok
      | ok files =>
          obtain ⟨tree, log, hall, rfl⟩ := @Action.exists_deposits_of_expandFiles _ _ _ _ _ _
            { workspace with log } _ hplan.root hplan.directory hplan.listed hquiet
            (plan.bytes workspace.tree) (fun file hfile => fileAt?_eq_bytes hplan hfile) _ hrun
          simp only
          rw [Action.run_bind, Action.run_emit (by exact hquiet)]
          exact ⟨tree, _, hdeposits ▸ hall, rfl⟩

/-! ## The directory that a run writes to -/

namespace Path

/-- Every part of a path is a file name or leads up. -/
def Named (path : Path) : Prop :=
  ∀ part ∈ path.parts, part = ".." ∨ IsFileName part

theorem named_ofString (text : String) : (ofString text).Named := by
  intro part hpart
  obtain ⟨hmem, hkept⟩ := List.mem_filter.1 hpart
  obtain ⟨piece, hpiece, rfl⟩ := List.mem_map.1 hmem
  simp only [Bool.and_eq_true, bne_iff_ne] at hkept
  rw [or_iff_not_imp_left]
  intro hdots
  refine ⟨hkept.1, hkept.2, hdots, ?_⟩
  rw [String.toList_ofList]
  exact Text.not_mem_of_mem_splitAt hpiece

theorem named_ofNames {names : List String} (hnames : ∀ name ∈ names, IsFileName name) :
    (ofNames names).Named :=
  fun name hname => .inr (hnames name hname)

theorem Named.join {base path : Path} (hbase : base.Named) (hpath : path.Named) :
    (base.join path).Named := by
  unfold Path.join
  split
  · exact hpath
  · exact List.forall_mem_append.2 ⟨hbase, hpath⟩

theorem Named.expandHome {home : List String} (hhome : ∀ name ∈ home, IsFileName name)
    {path : Path} (hpath : path.Named) : (path.expandHome home).Named := by
  unfold Path.expandHome
  split
  · next rest _ hparts =>
      have hrest : ∀ part ∈ rest, part = ".." ∨ IsFileName part := by
        intro part hpart
        exact hpath part (by simp [hparts, hpart])
      exact List.forall_mem_append.2 ⟨named_ofNames hhome, hrest⟩
  · exact hpath

/-- Only file names are left of a path once it is resolved. -/
theorem Named.resolve {here : List String} (hhere : ∀ name ∈ here, IsFileName name) {path : Path}
    (hpath : path.Named) : ∀ name ∈ path.resolve here, IsFileName name := by
  have hclimb : ∀ (parts start : List String), (∀ part ∈ parts, part = ".." ∨ IsFileName part) →
      (∀ name ∈ start, IsFileName name) → ∀ name ∈ parts.foldl climb start, IsFileName name := by
    intro parts
    induction parts with
    | nil => exact fun start _ hstart => hstart
    | cons part parts ih =>
        intro start hparts hstart
        rw [List.forall_mem_cons] at hparts
        apply ih _ hparts.2
        unfold climb
        split
        · exact fun name hname => hstart name (List.mem_of_mem_drop hname)
        · next hpart =>
            rw [List.forall_mem_cons]
            exact ⟨hparts.1.resolve_left (by simpa using hpart), hstart⟩
  intro name hname
  rw [Path.resolve, List.mem_reverse] at hname
  refine hclimb _ _ hpath ?_ name hname
  split
  · simp
  · simpa using hhere

end Path

/-- Settings whose output directory, if any, has a path of file names. -/
def Settings.Named (settings : Settings) : Prop :=
  ∀ path ∈ settings.outputDirectory, path.Named

/-- The output directory that is named in a document. -/
theorem Settings.named_directoryOf {root : Path} (hroot : root.Named) {document : Yaml.Document}
    {part : Option Yaml.Value} {directory : Option Path}
    (h : directoryOf document root part = .ok directory) : ∀ path ∈ directory, path.Named := by
  obtain ⟨found, -, h⟩ := Yaml.exists_of_bind_ok h
  cases found with
  | none =>
      cases h
      simp
  | some value =>
      obtain ⟨text, -, h⟩ := Yaml.exists_of_bind_ok h
      cases h
      intro path hpath
      obtain ⟨written, -, rfl⟩ := Option.map_eq_some_iff.1 hpath
      exact hroot.join (Path.named_ofString written)

/-- The settings that a text gives for a directory. -/
theorem Settings.named_ofText {loader : Yaml.Loader} {root : Path} (hroot : root.Named)
    {text : List Char} {settings : Settings} (h : ofText loader root text = .ok settings) :
    settings.Named := by
  have hnone : ({ root } : Settings).Named := by
    intro path hpath
    cases hpath
  unfold ofText at h
  split at h
  · cases h
    exact hnone
  obtain ⟨found, -, h⟩ := Yaml.exists_of_bind_ok h
  cases found with
  | none =>
      cases h
      exact hnone
  | some document =>
      obtain ⟨value, -, h⟩ := Yaml.exists_of_bind_ok h
      cases value with
      | null =>
          cases h
          exact hnone
      | mapping node =>
          obtain ⟨formatPart, -, h⟩ := Yaml.exists_of_bind_ok h
          obtain ⟨format, -, h⟩ := Yaml.exists_of_bind_ok h
          obtain ⟨outputPart, -, h⟩ := Yaml.exists_of_bind_ok h
          obtain ⟨directory, hdirectory, h⟩ := Yaml.exists_of_bind_ok h
          obtain ⟨excludedPart, -, h⟩ := Yaml.exists_of_bind_ok h
          obtain ⟨excluded, -, h⟩ := Yaml.exists_of_bind_ok h
          cases h
          exact named_directoryOf hroot hdirectory
      | _ => cases h

/-- The working directory and the home directory have paths of file names. -/
structure Workspace.Placed (workspace : Workspace) : Prop where
  here : ∀ name ∈ workspace.here, IsFileName name
  home : ∀ name ∈ workspace.home, IsFileName name

namespace Action

variable {loader : Yaml.Loader} {workspace : Workspace}

/-- The output directory of the settings is spelled by file names. -/
theorem named_of_loadSettings {target : List String} (hnames : ∀ name ∈ target, IsFileName name)
    (hdirectory : workspace.tree.kind? target = some none) {settings : Settings}
    (h : ((loadSettings loader (Path.ofNames target)).run workspace).1 = .ok settings) :
    settings.Named := by
  have hdots : ".." ∉ target := fun hmem => (hnames _ hmem).ne_dots rfl
  have hparent : (Path.ofNames (target ++ [settingsFileName])).parent.Named := by
    rw [Path.parent, Path.ofNames, List.dropLast_concat]
    exact Path.named_ofNames hnames
  obtain ⟨file, hfile, h⟩ := (reads_settingsPath _).exists_of_bind h
  rw [run_settingsPath hdots hdirectory] at hfile
  cases hfile
  obtain ⟨isThere, -, h⟩ := (reads_look _).exists_of_bind h
  split at h
  · obtain ⟨text, -, h⟩ := (reads_readText _).exists_of_bind h
    cases hread :
      Settings.ofText loader (Path.ofNames (target ++ [settingsFileName])).parent text with
    | error fault =>
        rw [hread] at h
        cases h
    | ok read =>
        rw [hread] at h
        cases h
        exact Settings.named_ofText hparent hread
  · cases h
    intro path hpath
    cases hpath

/-- The output directory of a run is spelled by file names. -/
theorem names_of_destination (hplaced : workspace.Placed) {options : RunOptions}
    {settings : Settings} (hsettings : settings.Named) {directory : Path}
    (h : ((destination options settings).run workspace).1 = .ok (some directory)) :
    ∀ name ∈ directory.parts, IsFileName name := by
  unfold destination at h
  split at h
  next text _ =>
    obtain ⟨home, hhome, h⟩ := (reads_expandHome _).exists_of_bind h
    change ((if _ then throw RunFault.noHome else pure _ : Action Path).run workspace).1 = _ at hhome
    split at hhome
    · cases hhome
    · cases hhome
      cases h
      exact ((Path.named_ofString text).expandHome hplaced.home).resolve hplaced.here
  next =>
    split at h
    next path hpath =>
      cases h
      exact (hsettings path hpath).resolve hplaced.here
    next => cases h

end Action

end Fakery
