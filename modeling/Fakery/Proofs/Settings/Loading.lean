import Fakery.Proofs.Run.Directory
import Fakery.Proofs.Run.Recording
import Fakery.Proofs.Yaml.Lookup

/-!
# Loading settings

A settings file is refused if it cannot be loaded as a document, if the root of the document is
neither empty nor a mapping, or if a number in it is too long to be written out.  In a document
that could be loaded every entry that is asked for has a value, whatever its type, and so
nothing else can go wrong.
-/

namespace Fakery.Settings

open Yaml (Document Node Value Fault)
open Yaml (exists_of_bind_ok error_of_bind mapM_ok exists_of_mem_mapM exists_mem_of_mapM)

variable {document : Document}

/-! ## Parts of the settings -/

theorem lookupIn_eq_some {part : Option Value} {name : String} {value : Value} :
    lookupIn document part name = .ok (some value) ↔
      ∃ node, part = some (.mapping node) ∧ document.lookup node name = .ok (some value) := by
  constructor
  · intro h
    unfold lookupIn at h
    split at h
    · next node =>
        cases hlookup : document.lookup node name with
        | error fault => rw [hlookup] at h; cases h
        | ok result =>
            rw [hlookup] at h
            cases h
            exact ⟨node, rfl, hlookup⟩
    · cases h
  · rintro ⟨node, rfl, hlookup⟩
    rw [lookupIn, hlookup]
    rfl

section Parts

variable (hcheck : document.check = .ok ())

include hcheck

theorem lookupIn_ok {part : Option Value} (hpart : document.Holding part) (name : String) :
    ∃ result, lookupIn document part name = .ok result ∧ document.Holding result := by
  have hnone : ∃ result, (.ok none : Except SettingsFault (Option Value)) = .ok result ∧
      document.Holding result := ⟨none, rfl, by simp [Document.Holding]⟩
  cases part with
  | none => exact hnone
  | some value =>
      cases value with
      | mapping node =>
          obtain ⟨inner, hneeds, hvalue⟩ := hpart _ rfl
          obtain ⟨result, hlookup, hresult⟩ := Document.lookup_ok hcheck hneeds hvalue name
          exact ⟨result, by rw [lookupIn, hlookup]; rfl, hresult⟩
      | _ => exact hnone

/-- The indentation is positive, whatever the settings say. -/
theorem formatOf_ok {part : Option Value} (hpart : document.Holding part) :
    ∃ format, formatOf document part = .ok format ∧ 1 ≤ format.indent := by
  obtain ⟨indent, hindent, -⟩ := lookupIn_ok hcheck hpart "indent"
  obtain ⟨useTabs, huseTabs, -⟩ := lookupIn_ok hcheck hpart "use_tabs"
  refine ⟨_, by rw [formatOf, hindent]; simp only [bind, Except.bind, huseTabs]; rfl, ?_⟩
  cases hfilter : (indent.bind Value.integer?).filter (0 < ·) with
  | none =>
      show (1 : Int) ≤ 4
      decide
  | some n =>
      have hpositive : 0 < n := by simpa using (Option.filter_eq_some_iff.1 hfilter).2
      exact hpositive

/-- The output directory is read unless its value is a number too long to write. -/
theorem directoryOf_long_or_ok {part : Option Value} (hpart : document.Holding part) (root : Path) :
    (∃ value, lookupIn document part "directory" = .ok (some value) ∧ value.isLong = true ∧
        directoryOf document root part = .error .longNumber) ∨
      ((∀ value, lookupIn document part "directory" = .ok (some value) → value.isLong = false) ∧
        ∃ directory, directoryOf document root part = .ok directory) := by
  obtain ⟨result, hlookup, -⟩ := lookupIn_ok hcheck hpart "directory"
  rw [directoryOf, hlookup]
  cases result with
  | none => exact Or.inr ⟨by simp, none, rfl⟩
  | some value =>
      cases hlong : value.isLong with
      | true =>
          refine Or.inl ⟨value, rfl, hlong, ?_⟩
          simp only [bind, Except.bind, Value.written, hlong, if_true]
      | false =>
          refine Or.inr ⟨?_, ?_⟩
          · intro other hother
            cases hother
            exact hlong
          · simp only [bind, Except.bind, Value.written, hlong, Bool.false_eq_true, if_false]
            exact ⟨_, rfl⟩

end Parts

theorem mapM_written_long_or_ok {write : Value → Option String} (values : List Value) :
    (∃ value ∈ values, value.isLong = true ∧
        values.mapM (Value.written write) = .error .longNumber) ∨
      ((∀ value ∈ values, value.isLong = false) ∧
        ∃ texts, values.mapM (Value.written write) = .ok texts) := by
  induction values with
  | nil => exact Or.inr ⟨by simp, [], rfl⟩
  | cons value rest ih =>
      rw [List.mapM_cons]
      cases hlong : value.isLong with
      | true =>
          refine Or.inl ⟨value, List.mem_cons_self, hlong, ?_⟩
          simp only [bind, Except.bind, Value.written, hlong, if_true]
      | false =>
          have hwritten : Value.written write value = .ok (write value) := by
            simp [Value.written, hlong]
          rw [hwritten]
          rcases ih with ⟨other, hother, hlong, hrest⟩ | ⟨hshort, texts, hrest⟩
          · refine Or.inl ⟨other, List.mem_cons_of_mem _ hother, hlong, ?_⟩
            rw [hrest]
            rfl
          · refine Or.inr ⟨List.forall_mem_cons.2 ⟨hlong, hshort⟩, write value :: texts, ?_⟩
            rw [hrest]
            rfl

/-- Items can be written out, unless one of them is too long. -/
theorem textsOf_long_or_ok (hcheck : document.check = .ok ()) {found : Option Value}
    (hfound : document.Holding found) :
    (∃ items item value, found = some (.sequence items) ∧ item ∈ items ∧
        document.value item = .ok value ∧ value.isLong = true ∧
        textsOf document found = .error .longNumber) ∨
      ((∀ items item value, found = some (.sequence items) → item ∈ items →
          document.value item = .ok value → value.isLong = false) ∧
        ∃ texts, textsOf document found = .ok texts) := by
  cases found with
  | none => exact Or.inr ⟨by simp, [], rfl⟩
  | some value =>
      cases value with
      | sequence items =>
          obtain ⟨node, hneeds, hnode⟩ := hfound _ rfl
          have hitems : ∀ item ∈ items, ∃ value, document.value item = .ok value := by
            intro item hitem
            have hitemNeeds := Document.needs_of_sequence hneeds hnode item hitem
            exact (Document.done_of_check hcheck hitemNeeds).1
          obtain ⟨values, hvalues⟩ := mapM_ok hitems
          rw [textsOf, hvalues]
          rcases @mapM_written_long_or_ok Value.itemText? values with
            ⟨long, hlong, hisLong, hwritten⟩ | ⟨hshort, texts, hwritten⟩
          · obtain ⟨item, hitem, hvalue⟩ := exists_of_mem_mapM hvalues hlong
            refine Or.inl ⟨items, item, long, rfl, hitem, hvalue, hisLong, ?_⟩
            simp only [reading, Except.mapError, bind, Except.bind, hwritten]
          · refine Or.inr ⟨?_, ?_⟩
            · intro others item value heq hitem hvalue
              cases heq
              obtain ⟨other, hother, hotherValue⟩ := exists_mem_of_mapM hvalues hitem
              cases hvalue.symm.trans hotherValue
              exact hshort _ hother
            · simp only [reading, Except.mapError, bind, Except.bind, hwritten]
              exact ⟨_, rfl⟩
      | _ => exact Or.inr ⟨by simp, _, rfl⟩

/-- A number that the settings need as text is too long to be written out. -/
inductive Overlong (document : Document) (mapping : Node) : Prop
  | directory {part : Node} {value : Value}
      (houtput : document.lookup mapping "output" = .ok (some (.mapping part)))
      (hdirectory : document.lookup part "directory" = .ok (some value))
      (hlong : value.isLong = true) : Overlong document mapping
  | excluded {items : List Node} {item : Node} {value : Value}
      (hexcluded : document.lookup mapping "exclude_paths" = .ok (some (.sequence items)))
      (hitem : item ∈ items) (hvalue : document.value item = .ok value)
      (hlong : value.isLong = true) : Overlong document mapping

/-- A mapping gives settings, unless a number in it is too long. -/
theorem ofMapping_long_or_ok (hcheck : document.check = .ok ()) {mapping : Node}
    (hroot : document.value document.root = .ok (.mapping mapping)) (root : Path) :
    (Overlong document mapping ∧ ofMapping document root mapping = .error .longNumber) ∨
      (¬ Overlong document mapping ∧ ∃ settings, ofMapping document root mapping = .ok settings ∧
        1 ≤ settings.format.indent) := by
  obtain ⟨formatPart, hformatPart, hformatHolding⟩ :=
    Document.lookup_ok hcheck .root hroot "format"
  obtain ⟨outputPart, houtputPart, houtputHolding⟩ :=
    Document.lookup_ok hcheck .root hroot "output"
  obtain ⟨excluded, hexcluded, hexcludedHolding⟩ :=
    Document.lookup_ok hcheck .root hroot "exclude_paths"
  obtain ⟨format, hformat, hindent⟩ := formatOf_ok hcheck hformatHolding
  simp only [ofMapping, reading, hformatPart, houtputPart, hexcluded, hformat, Except.mapError,
    bind, Except.bind]
  rcases directoryOf_long_or_ok hcheck houtputHolding root with
    ⟨value, hvalue, hlong, hdirectory⟩ | ⟨hshort, directory, hdirectory⟩
  · obtain ⟨part, rfl, hlookup⟩ := lookupIn_eq_some.1 hvalue
    rw [hdirectory]
    exact Or.inl ⟨.directory houtputPart hlookup hlong, rfl⟩
  rw [hdirectory]
  have hdirectoryShort : ∀ part value,
      document.lookup mapping "output" = .ok (some (.mapping part)) →
      document.lookup part "directory" = .ok (some value) → value.isLong = false := by
    intro part value houtput hlookup
    cases houtputPart.symm.trans houtput
    exact hshort value (lookupIn_eq_some.2 ⟨part, rfl, hlookup⟩)
  rcases textsOf_long_or_ok hcheck hexcludedHolding with
    ⟨items, item, value, rfl, hitem, hvalue, hlong, htexts⟩ | ⟨hitemsShort, texts, htexts⟩
  · exact Or.inl ⟨.excluded hexcluded hitem hvalue hlong, by simp only [htexts]⟩
  refine Or.inr ⟨?_, ?_⟩
  · rintro (⟨houtput, hlookup, hlong⟩ | ⟨hitems, hitem, hvalue, hlong⟩)
    · simp [hdirectoryShort _ _ houtput hlookup] at hlong
    · cases hexcluded.symm.trans hitems
      simp [hitemsShort _ _ _ rfl hitem hvalue] at hlong
  · simp only [htexts]
    exact ⟨_, rfl, hindent⟩

/-! ## Texts -/

/-- The reasons for which a text gives no settings. -/
inductive Refuses (loader : Yaml.Loader) (text : List Char) : SettingsFault → Prop
  /-- The text is not a document, or a part of it has no value. -/
  | unloadable {fault : Fault} (hblank : Text.isBlankText text = false)
      (hload : loader.load text = .error fault) : Refuses loader text (.unreadable fault)
  /-- The root is neither empty nor a mapping. -/
  | shape {document : Document} {value : Value} (hblank : Text.isBlankText text = false)
      (hload : loader.load text = .ok (some document))
      (hroot : document.value document.root = .ok value) (hnull : value ≠ .null)
      (hmapping : ∀ mapping, value ≠ .mapping mapping) : Refuses loader text .notAMapping
  | overlong {document : Document} {mapping : Node} (hblank : Text.isBlankText text = false)
      (hload : loader.load text = .ok (some document))
      (hroot : document.value document.root = .ok (.mapping mapping))
      (hlong : Overlong document mapping) : Refuses loader text .longNumber

section Texts

variable {loader : Yaml.Loader} {text : List Char}

theorem ofText_of_load (hblank : Text.isBlankText text = false)
    (hload : loader.load text = .ok (some document)) (root : Path) :
    ofText loader root text = ofDocument document root := by
  rw [ofText, hblank, hload]
  rfl

theorem ofDocument_of_mapping {mapping : Node}
    (hroot : document.value document.root = .ok (.mapping mapping)) (root : Path) :
    ofDocument document root = ofMapping document root mapping := by
  rw [ofDocument, hroot]
  rfl

/-- A text that is refused gives the fault it is refused with. -/
theorem Refuses.ofText {fault : SettingsFault} (h : Refuses loader text fault) (root : Path) :
    ofText loader root text = .error fault := by
  cases h with
  | unloadable hblank hload =>
      rw [Settings.ofText, hblank, hload]
      rfl
  | @shape document value hblank hload hroot hnull hmapping =>
      rw [ofText_of_load hblank hload, ofDocument, hroot]
      cases value with
      | null => exact absurd rfl hnull
      | mapping node => exact absurd rfl (hmapping node)
      | _ => rfl
  | overlong hblank hload hroot hlong =>
      rw [ofText_of_load hblank hload, ofDocument_of_mapping hroot]
      rcases ofMapping_long_or_ok (loader.checked hload) hroot root with ⟨-, herror⟩ | ⟨hshort, -⟩
      · exact herror
      · exact absurd hlong hshort

/-- A text gives settings, or is refused. -/
theorem ofText_ok_or_refuses (loader : Yaml.Loader) (root : Path) (text : List Char) :
    (∃ settings, ofText loader root text = .ok settings ∧ 1 ≤ settings.format.indent) ∨
      ∃ fault, Refuses loader text fault := by
  have hstandard : 1 ≤ ({ root } : Settings).format.indent := by
    show (1 : Int) ≤ 4
    decide
  cases hblank : Text.isBlankText text with
  | true => exact Or.inl ⟨{ root }, by rw [ofText, if_pos hblank], hstandard⟩
  | false =>
      cases hload : loader.load text with
      | error fault => exact Or.inr ⟨_, .unloadable hblank hload⟩
      | ok found =>
          cases found with
          | none =>
              refine Or.inl ⟨{ root }, ?_, hstandard⟩
              rw [ofText, hblank, hload]
              rfl
          | some document =>
              have hcheck := loader.checked hload
              obtain ⟨⟨value, hroot⟩, -⟩ := Document.done_of_check hcheck .root
              rw [ofText_of_load hblank hload]
              cases value with
              | null =>
                  refine Or.inl ⟨{ root }, ?_, hstandard⟩
                  rw [ofDocument, hroot]
                  rfl
              | mapping node =>
                  rw [ofDocument_of_mapping hroot]
                  rcases ofMapping_long_or_ok hcheck hroot root with ⟨hlong, -⟩ | ⟨-, hok⟩
                  · exact Or.inr ⟨_, .overlong hblank hload hroot hlong⟩
                  · exact Or.inl hok
              | _ => exact Or.inr ⟨_, .shape hblank hload hroot (by simp) (by simp)⟩

theorem ofText_eq_error_iff {root : Path} {fault : SettingsFault} :
    ofText loader root text = .error fault ↔ Refuses loader text fault := by
  refine ⟨?_, fun h => h.ofText root⟩
  intro herror
  rcases ofText_ok_or_refuses loader root text with ⟨settings, hok, -⟩ | ⟨other, hrefuses⟩
  · cases hok.symm.trans herror
  · cases (hrefuses.ofText root).symm.trans herror
    exact hrefuses

/-- The faults that are not reported as faults of the settings file. -/
inductive Escapes (loader : Yaml.Loader) (text : List Char) : SettingsFault → Prop
  /-- The loader fails without finding the text malformed. -/
  | loading {fault : Fault} (hfault : fault ≠ .malformed)
      (hload : loader.load text = .error fault) : Escapes loader text (.unreadable fault)
  | overlong : Escapes loader text .longNumber

theorem Refuses.isReported_iff {fault : SettingsFault} (h : Refuses loader text fault) :
    fault.isReported = true ↔ ¬ Escapes loader text fault := by
  constructor
  · rintro hreported (⟨hfault, -⟩ | _)
    · exact hfault (beq_iff_eq.1 hreported)
    · cases hreported
  · intro hreported
    cases h with
    | @unloadable fault hblank hload =>
        by_contra hne
        exact hreported (.loading (by simpa [SettingsFault.isReported] using hne) hload)
    | shape => rfl
    | overlong => exact absurd .overlong hreported

end Texts

/-! ## The standard loader -/

/-- What keeps a text from being loaded that is not malformed. -/
inductive OutOfRange (text : List Char) : Fault → Prop
  /-- The code of a character or a version number is out of range. -/
  | spelled {fault : Fault} (hfault : fault ≠ .malformed)
      (hload : Node.ofText? text = .error fault) : OutOfRange text fault
  /-- A node that the document needs is no value of its type. -/
  | built {source node : Node} {isKey : Bool} {fault : Fault} (hfault : fault ≠ .malformed)
      (hload : Node.ofText? text = .ok (some source))
      (hneeds : (Document.ofRoot source).Needs (.build node isKey))
      (hnode : (Document.ofRoot source).fault? ((Document.ofRoot source).bare node) isKey =
        some fault) : OutOfRange text fault

theorem outOfRange_of_load {text : List Char} {fault : Fault} (hfault : fault ≠ .malformed)
    (h : Document.ofText? text = .error fault) : OutOfRange text fault := by
  rcases error_of_bind h with hload | ⟨found, hload, h⟩
  · exact .spelled hfault hload
  · cases found with
    | none => cases h
    | some source =>
        have hcheck : (Document.ofRoot source).check = .error fault := by
          rcases error_of_bind h with hcheck | ⟨⟨⟩, -, h⟩
          · exact hcheck
          · cases h
        obtain ⟨step, hneeds, hfails⟩ := Document.fails_of_check hcheck
        cases step with
        | refuse => exact absurd hfails hfault
        | build node isKey =>
            rcases hfails with hnode | ⟨-, -, hmalformed⟩
            · exact .built hfault hload hneeds hnode
            · exact absurd hmalformed hfault

theorem escapes_standard_iff {text : List Char} {fault : Fault}
    (h : Refuses .standard text (.unreadable fault)) :
    Escapes .standard text (.unreadable fault) ↔ OutOfRange text fault := by
  obtain ⟨-, hload⟩ := h
  constructor
  · rintro ⟨hfault, -⟩
    exact outOfRange_of_load hfault hload
  · rintro (⟨hfault, -⟩ | ⟨hfault, -⟩) <;> exact .loading hfault hload

theorem refuses_of_not_done {text : List Char} (hblank : Text.isBlankText text = false)
    {source : Node} (hload : Node.ofText? text = .ok (some source)) {step : Document.Step}
    (hneeds : (Document.ofRoot source).Needs step) (hstep : ¬ (Document.ofRoot source).Done step) :
    ∃ fault, Refuses .standard text (.unreadable fault) := by
  cases hcheck : (Document.ofRoot source).check with
  | ok => exact absurd (Document.done_of_check hcheck hneeds) hstep
  | error fault =>
      refine ⟨fault, .unloadable hblank ?_⟩
      simp only [Yaml.Loader.standard, Document.ofText?, hload, hcheck, bind, Except.bind]

/-- How the settings in a text are loaded. -/
structure Loads (loader : Yaml.Loader) (text : List Char) (result : Except RunFault Settings) :
    Prop where
  /-- Settings have a positive indentation. -/
  indent : ∀ settings, result = .ok settings → 1 ≤ settings.format.indent
  /-- There are no settings exactly if the text is refused. -/
  refused : ∀ fault, result = .error fault ↔
    ∃ reason, fault = .settings reason ∧ Refuses loader text reason
  reported : ∀ reason, Refuses loader text reason →
    (reason.isReported = true ↔ ¬ Escapes loader text reason)
  /-- The standard loader refuses a text if a node that it needs has no value. -/
  complete : loader = .standard → Text.isBlankText text = false →
    ∀ source, Node.ofText? text = .ok (some source) →
    ∀ step, (Document.ofRoot source).Needs step → ¬ (Document.ofRoot source).Done step →
      ∃ fault, Refuses loader text (.unreadable fault)
  /-- What escapes from the standard loader is a value that is out of range. -/
  ranges : loader = .standard → ∀ fault, Refuses loader text (.unreadable fault) →
    (Escapes loader text (.unreadable fault) ↔ OutOfRange text fault)

/-- Reading settings meets their specification for every text. -/
theorem loads_ofText (loader : Yaml.Loader) (root : Path) (text : List Char) :
    Loads loader text ((ofText loader root text).mapError .settings) where
  indent := by
    intro settings hsettings
    rcases ofText_ok_or_refuses loader root text with
      ⟨found, hfound, hindent⟩ | ⟨reason, hrefuses⟩
    · rw [hfound] at hsettings
      cases hsettings
      exact hindent
    · rw [hrefuses.ofText] at hsettings
      cases hsettings
  refused := by
    intro fault
    constructor
    · intro herror
      cases hresult : ofText loader root text with
      | ok settings =>
          rw [hresult] at herror
          cases herror
      | error reason =>
          rw [hresult] at herror
          cases herror
          exact ⟨reason, rfl, ofText_eq_error_iff.1 hresult⟩
    · rintro ⟨reason, rfl, hrefuses⟩
      rw [hrefuses.ofText]
      rfl
  reported := by
    intro reason hrefuses
    exact hrefuses.isReported_iff
  complete := by
    rintro rfl hblank source hload step hneeds hstep
    exact refuses_of_not_done hblank hload hneeds hstep
  ranges := by
    rintro rfl fault hrefuses
    exact escapes_standard_iff hrefuses

end Fakery.Settings

/-! ## Settings files -/

namespace Fakery.Action

variable {loader : Yaml.Loader} {workspace : Workspace} {path file : Path}

theorem resolved_of_settingsPath (hhere : ".." ∉ workspace.here)
    (h : ((settingsPath path).run workspace).1 = .ok file) : file.Resolved := by
  obtain ⟨home, -, h⟩ := (reads_expandHome _).exists_of_bind h
  obtain ⟨isDirectory, -, h⟩ := (reads_look _).exists_of_bind h
  obtain ⟨names, hnames, h⟩ := (reads_resolve _).exists_of_bind h
  cases hnames
  cases h
  exact ⟨rfl, Path.not_mem_resolve hhere _⟩

section File

variable (hhere : ".." ∉ workspace.here)
  (hpath : ((settingsPath path).run workspace).1 = .ok file) {bytes : List UInt8}
  (hfile : workspace.tree.fileAt? file.parts = some bytes) {text : List Char}
  (hdecode : Text.Utf8.decode bytes = .ok text)

include hhere hpath hfile hdecode

theorem run_loadSettings : ((loadSettings loader path).run workspace).1 =
    (Settings.ofText loader file.parent (Text.normalizeNewlines text)).mapError .settings := by
  have hresolved := resolved_of_settingsPath hhere hpath
  have hthere : ((look fun tree here => tree.pathExists here file).run workspace).1 = .ok true := by
    change Except.ok (workspace.tree.pathExists workspace.here file) = _
    rw [Entry.pathExists_eq hresolved.isAbsolute hresolved.parts, Entry.kind?_eq_file_iff.2 hfile]
    rfl
  rw [loadSettings, (reads_settingsPath _).run_bind_of_ok hpath,
    (reads_look _).run_bind_of_ok hthere, if_pos rfl,
    (reads_readText _).run_bind_of_ok (by rw [run_readText hresolved hfile, hdecode])]
  cases Settings.ofText loader file.parent (Text.normalizeNewlines text) <;> rfl

/-- A settings file gives settings with a positive indentation, or is refused.  A file that is
refused is reported unless a value in it is out of range. -/
theorem loads_loadSettings :
    Settings.Loads loader (Text.normalizeNewlines text)
      ((loadSettings loader path).run workspace).1 := by
  rw [run_loadSettings hhere hpath hfile hdecode]
  exact Settings.loads_ofText loader file.parent (Text.normalizeNewlines text)

end File

def oneSettings (text : String) : Workspace where
  tree := .directory [(settingsFileName, .file (Text.Utf8.encode text.toList))]
  here := []
  home := []

/-- Settings in which every value is of the wrong type. -/
def looseText : String :=
  "base: &b \x7bindent: 0, use_tabs: 3\x7d\nformat: \x7b<<: *b\x7d\n" ++
    "output: \x7bdirectory: [1]\x7d\nexclude_paths: 2024-01-01\n"

theorem loads_loadSettings_looseText :
    Settings.Loads .standard (Text.normalizeNewlines looseText.toList)
      ((loadSettings .standard (Path.ofNames [])).run (oneSettings looseText)).1 :=
  @loads_loadSettings .standard (oneSettings looseText) (Path.ofNames [])
    (Path.ofNames [settingsFileName]) (by simp [oneSettings]) (by decide +kernel)
    (Text.Utf8.encode looseText.toList) (by decide +kernel) looseText.toList (by decide +kernel)

/-- A date that no calendar has is not reported as a fault of the settings file. -/
theorem not_isReported_of_month :
    ((loadSettings .standard (Path.ofNames [])).run (oneSettings "a: 2024-13-01\n")).1 =
        .error (.settings (.unreadable (.date .month))) ∧
      SettingsFault.isReported (.unreadable (.date .month)) = false := by
  constructor
  · decide +kernel
  · rfl

end Fakery.Action
