import Fakery.Fake.Generator
import Mathlib.Data.List.Forall2
import Mathlib.Data.List.Nodup
import Mathlib.Tactic

/-!
# Helpers and their calls

Helpers are collected from all fields of a declaration, while the calls come from the
parameters of the generated function.  The two agree: no helper is declared twice, and
none is called that is not declared.
-/

namespace Fakery

/-- A stored and typed field whose annotation carries an expression, static or not. -/
structure Field.IsHeld (field : Field) : Prop where
  stored : field.isStored = true
  annotated : field.isAnnotated = true
  expression : field.expression.isSome = true
  typed : field.type.isSome = true

theorem Field.hasHelper_iff (field : Field) : field.hasHelper = true ↔ field.IsHeld := by
  simp only [Field.hasHelper, Field.hasCustomDefault, Bool.and_eq_true]
  exact ⟨fun ⟨⟨hstored, hannotated, hexpression⟩, htyped⟩ =>
      ⟨hstored, hannotated, hexpression, htyped⟩,
    fun ⟨hstored, hannotated, hexpression, htyped⟩ =>
      ⟨⟨hstored, hannotated, hexpression⟩, htyped⟩⟩

/-- The helper belongs to the field at a place, and to no held field before. -/
structure FirstHeld (fields : List Field) (place : Nat) (helper : Helper) : Prop where
  exists_field : ∃ field type expression, fields[place]? = some field ∧ field.IsHeld ∧
    field.type = some type ∧ field.expression = some expression ∧
    helper = ⟨helperName field.name, field.name, type.text, expression⟩
  first : ∀ earlier < place, ∀ field, fields[earlier]? = some field → field.IsHeld →
    helperName field.name ≠ helper.name

namespace Report

/-- A field has a helper exactly if it is held and has both a type and an expression. -/
theorem helper?_eq_some_iff {field : Field} {helper : Helper} :
    helper? field = some helper ↔ field.IsHeld ∧ ∃ type expression, field.type = some type ∧
      field.expression = some expression ∧
      helper = ⟨helperName field.name, field.name, type.text, expression⟩ := by
  rw [← Field.hasHelper_iff]
  cases htype : field.type with
  | none => simp [helper?, htype]
  | some type =>
      cases hexpression : field.expression with
      | none => simp [helper?, htype, hexpression]
      | some expression =>
          simp only [helper?, htype, hexpression, Option.ite_none_right_eq_some, Option.some.injEq,
            exists_and_left, exists_eq_left']
          rw [eq_comm (b := helper)]

theorem name_of_helper? {field : Field} {helper : Helper} (h : helper? field = some helper) :
    helper.name = helperName field.name := by
  obtain ⟨-, type, expression, -, -, rfl⟩ := helper?_eq_some_iff.1 h
  rfl

theorem isSome_helper?_iff (field : Field) : (helper? field).isSome = true ↔ field.IsHeld := by
  rw [Option.isSome_iff_exists]
  constructor
  · rintro ⟨helper, hhelper⟩
    exact (helper?_eq_some_iff.1 hhelper).1
  · intro hheld
    obtain ⟨type, htype⟩ := Option.isSome_iff_exists.1 hheld.typed
    obtain ⟨expression, hexpression⟩ := Option.isSome_iff_exists.1 hheld.expression
    exact ⟨_, helper?_eq_some_iff.2 ⟨hheld, type, expression, htype, hexpression, rfl⟩⟩

/-! ## Keeping the first helper of each name -/

theorem not_mem_of_mem_firstOfEachName {seen : List String} {helpers : List Helper}
    {helper : Helper} (h : helper ∈ firstOfEachName seen helpers) : helper.name ∉ seen := by
  induction helpers generalizing seen with
  | nil => simp [firstOfEachName] at h
  | cons first rest ih =>
      rw [firstOfEachName] at h
      split at h
      case isTrue => exact ih h
      case isFalse hseen =>
        rcases List.mem_cons.1 h with rfl | h
        · simpa using hseen
        · exact fun hmem => ih h (List.mem_cons_of_mem _ hmem)

theorem nodup_firstOfEachName (seen : List String) (helpers : List Helper) :
    ((firstOfEachName seen helpers).map (·.name)).Nodup := by
  induction helpers generalizing seen with
  | nil => exact .nil
  | cons first rest ih =>
      rw [firstOfEachName]
      split
      case isTrue => exact ih seen
      case isFalse =>
        rw [List.map_cons, List.nodup_cons]
        refine ⟨fun hmem => ?_, ih _⟩
        obtain ⟨helper, hhelper, hname⟩ := List.mem_map.1 hmem
        exact not_mem_of_mem_firstOfEachName hhelper (by simp [hname])

/-- No name is lost. -/
theorem exists_mem_firstOfEachName {seen : List String} {helpers : List Helper} {helper : Helper}
    (h : helper ∈ helpers) :
    helper.name ∈ seen ∨ ∃ kept ∈ firstOfEachName seen helpers, kept.name = helper.name := by
  induction helpers generalizing seen with
  | nil => simp at h
  | cons first rest ih =>
      rw [firstOfEachName]
      split
      case isTrue hseen =>
        rcases List.mem_cons.1 h with rfl | h
        · exact Or.inl (by simpa using hseen)
        · exact ih h
      case isFalse =>
        rcases List.mem_cons.1 h with rfl | h
        · exact Or.inr ⟨helper, List.mem_cons_self .., rfl⟩
        · rcases @ih (first.name :: seen) h with hmem | ⟨kept, hkept, hname⟩
          · rcases List.mem_cons.1 hmem with hname | hmem
            · exact Or.inr ⟨first, List.mem_cons_self .., hname.symm⟩
            · exact Or.inl hmem
          · exact Or.inr ⟨kept, List.mem_cons_of_mem _ hkept, hname⟩

/-- The helpers of the fields from a place on, when `seen` holds the names that the fields
before have taken. -/
theorem exists_places {before rest : List Field} {seen : List String}
    (hseen : ∀ name, name ∈ seen ↔ ∃ field ∈ before, field.IsHeld ∧ helperName field.name = name) :
    ∃ places : List Nat, places.Pairwise (· < ·) ∧ (∀ place ∈ places, before.length ≤ place) ∧
      List.Forall₂ (FirstHeld (before ++ rest)) places
        (firstOfEachName seen (rest.filterMap helper?)) := by
  induction rest generalizing before seen with
  | nil => exact ⟨[], .nil, by simp, .nil⟩
  | cons field rest ih =>
      have happend : before ++ field :: rest = (before ++ [field]) ++ rest := by simp
      -- the next fields are numbered behind this one
      have hnext : ∀ seen, (∀ name, name ∈ seen ↔
          ∃ other ∈ before ++ [field], other.IsHeld ∧ helperName other.name = name) →
          ∃ places : List Nat, places.Pairwise (· < ·) ∧ (∀ place ∈ places, before.length < place) ∧
            List.Forall₂ (FirstHeld (before ++ field :: rest)) places
              (firstOfEachName seen (rest.filterMap helper?)) := by
        intro seen hseen
        obtain ⟨places, hordered, hplaces, hheld⟩ := ih hseen
        refine ⟨places, hordered, fun place hplace => ?_, happend ▸ hheld⟩
        have hle := hplaces place hplace
        rw [List.length_append, List.length_singleton] at hle
        omega
      have hkeep : ∀ {places : List Nat}, (∀ place ∈ places, before.length < place) →
          ∀ place ∈ places, before.length ≤ place :=
        fun hplaces place hplace => (hplaces place hplace).le
      cases hhelper : helper? field with
      | none =>
          have hnot : ¬ field.IsHeld := by
            rw [← isSome_helper?_iff, hhelper]
            simp
          rw [List.filterMap_cons_none hhelper]
          obtain ⟨places, hordered, hplaces, hheld⟩ := hnext seen fun name => by
            simp [hseen, or_and_right, exists_or, hnot]
          exact ⟨places, hordered, hkeep hplaces, hheld⟩
      | some helper =>
          have hname := name_of_helper? hhelper
          have hheldField := (helper?_eq_some_iff.1 hhelper).1
          rw [List.filterMap_cons_some hhelper, firstOfEachName]
          split
          case isTrue htaken =>
            have htaken : helperName field.name ∈ seen := by simpa [hname] using htaken
            obtain ⟨places, hordered, hplaces, hheld⟩ := hnext seen fun name => by
              simp only [hseen, List.mem_append, List.mem_singleton, or_and_right, exists_or,
                exists_eq_left]
              refine ⟨Or.inl, fun h => h.elim id ?_⟩
              rintro ⟨-, rfl⟩
              exact (hseen _).1 htaken
            exact ⟨places, hordered, hkeep hplaces, hheld⟩
          case isFalse hfree =>
            have hfree : helperName field.name ∉ seen := by simpa [hname] using hfree
            obtain ⟨places, hordered, hplaces, hheld⟩ := hnext (helper.name :: seen) fun name => by
              rw [List.mem_cons, hseen, hname, or_comm, eq_comm]
              simp only [List.mem_append, List.mem_singleton, or_and_right, exists_or,
                exists_eq_left, hheldField, true_and]
            refine ⟨before.length :: places, .cons hplaces hordered, ?_, .cons ⟨?_, ?_⟩ hheld⟩
            · rw [List.forall_mem_cons]
              exact ⟨Nat.le_refl _, hkeep hplaces⟩
            · obtain ⟨hheldField, type, expression, htype, hexpression, rfl⟩ :=
                helper?_eq_some_iff.1 hhelper
              exact ⟨field, type, expression, by simp, hheldField, htype, hexpression, rfl⟩
            · intro earlier hlt other hother hheldOther heq
              rw [List.getElem?_append_left hlt] at hother
              exact hfree ((hseen _).2 ⟨other, List.mem_of_getElem? hother, hheldOther,
                heq.trans hname⟩)

theorem exists_helper_of_isHeld {report : Report} {field : Field} (hfield : field ∈ report.fields)
    (hheld : field.IsHeld) : ∃ helper ∈ report.helpers, helper.name = helperName field.name := by
  obtain ⟨helper, hhelper⟩ := Option.isSome_iff_exists.1 ((isSome_helper?_iff field).2 hheld)
  have hmem : helper ∈ report.fields.filterMap helper? := List.mem_filterMap.2 ⟨field, hfield, hhelper⟩
  rw [← name_of_helper? hhelper]
  exact (exists_mem_firstOfEachName hmem).resolve_left (by simp)

/-! ## Defaults of parameters -/

end Report

def typeDefaults : List String :=
  ["nil", "[]", "[:]", ".fake()"] ++ defaultLiterals.map (·.2)

/-- The default of every type is one of those in the table. -/
theorem defaultExpression_mem_typeDefaults (type : WrittenType) :
    type.defaultExpression ∈ typeDefaults := by
  have hconstants : ∀ text ∈ ["nil", "[]", "[:]", ".fake()"], text ∈ typeDefaults :=
    fun text htext => List.mem_append_left _ htext
  rw [WrittenType.defaultExpression]
  cases type.kind with
  | optional => exact hconstants _ (by simp)
  | array => exact hconstants _ (by simp)
  | dictionary => exact hconstants _ (by simp)
  | named =>
      cases hlookup : defaultLiterals.lookup type.text with
      | none => exact hconstants _ (by simp)
      | some literal =>
          obtain ⟨before, after, hentries, -⟩ := List.lookup_eq_some_iff.1 hlookup
          refine List.mem_append_right _ (List.mem_map.2 ⟨(type.text, literal), ?_, rfl⟩)
          simp [hentries]

namespace Report

/-- A default that no type chooses calls a helper that is declared. -/
def Calls (report : Report) (parameter : GeneratedParameter) : Prop :=
  parameter.default ∉ typeDefaults →
    parameter.default = helperName parameter.name ++ "()" ∧
      ∃ helper ∈ report.helpers, helper.name = helperName parameter.name

theorem calls_defaultFor {report : Report} {name : String} {type : WrittenType} {custom : Bool}
    (hcustom : custom = true → ∃ field ∈ report.fields, field.IsHeld ∧ field.name = name) :
    report.Calls ⟨name, type, defaultFor name type custom⟩ := by
  intro hdefault
  cases custom with
  | false => exact absurd (defaultExpression_mem_typeDefaults type) hdefault
  | true =>
      obtain ⟨field, hfield, hheld, rfl⟩ := hcustom rfl
      exact ⟨rfl, exists_helper_of_isHeld hfield hheld⟩

theorem calls_constructorFunction (report : Report) (constructor : Constructor) :
    ∀ parameter ∈ (report.constructorFunction constructor).parameters, report.Calls parameter := by
  intro parameter hparameter
  obtain ⟨declared, -, rfl⟩ := List.mem_map.1 hparameter
  refine calls_defaultFor fun hcustom => ?_
  cases hfield : report.field? declared.name with
  | none => simp [hfield] at hcustom
  | some field =>
      have hmem := List.mem_of_find?_eq_some hfield
      have hname := List.find?_some hfield
      rw [Bool.and_eq_true, beq_iff_eq] at hname
      rw [hfield] at hcustom
      exact ⟨field, hmem, field.hasHelper_iff.1 hcustom, hname.2⟩

theorem calls_memberwiseFunction (report : Report) :
    ∀ parameter ∈ report.memberwiseFunction.parameters, report.Calls parameter := by
  intro parameter hparameter
  obtain ⟨field, hfield, hparameter⟩ := List.mem_filterMap.1 hparameter
  obtain ⟨type, -, rfl⟩ := Option.map_eq_some_iff.1 hparameter
  refine calls_defaultFor fun hcustom => ?_
  exact ⟨field, (List.mem_filter.1 hfield).1, field.hasHelper_iff.1 hcustom, rfl⟩

/-- Every strategy gives a function whose parameters call declared helpers only. -/
theorem exists_generator_calls {report : Report} (hshape : report.shape.isSome = true) :
    ∃ function, report.generator = .ok function ∧
      ∀ parameter ∈ function.parameters, report.Calls parameter := by
  have hnone : ¬ report.shape.isNone = true := by simpa [← Option.isSome_iff_ne_none] using hshape
  rw [generator, if_neg hnone]
  cases report.firstCase? with
  | some first => exact ⟨_, rfl, by simp [caseFunction]⟩
  | none =>
      cases report.singleton? with
      | some field => exact ⟨_, rfl, by simp [singletonFunction]⟩
      | none =>
          cases report.constructor? with
          | some constructor => exact ⟨_, rfl, calls_constructorFunction report constructor⟩
          | none => exact ⟨_, rfl, calls_memberwiseFunction report⟩

/-- The helpers of a report have different names and stand in the order of the first held
field of each name; every held field has one.  A parameter of the generated function whose
default no type chooses calls the helper of its own name, which is among them. -/
theorem helpers_closed (report : Report) (hshape : report.shape.isSome = true) :
    (report.helpers.map (·.name)).Nodup ∧
    (∃ places : List Nat, places.Pairwise (· < ·) ∧
      List.Forall₂ (FirstHeld report.fields) places report.helpers) ∧
    (∀ field ∈ report.fields, field.IsHeld →
      ∃ helper ∈ report.helpers, helper.name = helperName field.name) ∧
    ∃ function, report.generator = .ok function ∧ ∀ parameter ∈ function.parameters,
      parameter.default ∉ typeDefaults →
        parameter.default = helperName parameter.name ++ "()" ∧
          ∃ helper ∈ report.helpers, helper.name = helperName parameter.name := by
  obtain ⟨places, hordered, -, hplaces⟩ := @exists_places [] report.fields [] (by simp)
  exact ⟨nodup_firstOfEachName _ _, ⟨places, hordered, hplaces⟩,
    fun field hfield hheld => exists_helper_of_isHeld hfield hheld, exists_generator_calls hshape⟩

/-- A static field, a field and the same name in backticks, all annotated. -/
def sharedNames : Report where
  name := "A"
  keyword := "struct"
  shape := some (.structLike "struct")
  fields := [
    { name := "b", type := some ⟨.named, "Int", false⟩, isStatic := true, isAnnotated := true
      expression := some "1" },
    { name := "\x60c\x60", type := some ⟨.optional, "Int?", false⟩, isAnnotated := true
      expression := some "2" },
    { name := "c", type := some ⟨.named, "Int", false⟩, isAnnotated := true, expression := some "3" }]

theorem helpers_closed_sharedNames :
    sharedNames.helpers.map (fun helper => (helper.name, helper.expression)) =
      [("_autoFakeDefault_b", "1"), ("_autoFakeDefault_c", "2")] ∧
    ∃ function, sharedNames.generator = .ok function ∧
      function.parameters.map (·.default) = ["_autoFakeDefault_c()", "_autoFakeDefault_c()"] ∧
      ∀ parameter ∈ function.parameters, parameter.default ∉ typeDefaults →
        parameter.default = helperName parameter.name ++ "()" ∧
          ∃ helper ∈ sharedNames.helpers, helper.name = helperName parameter.name := by
  obtain ⟨-, -, -, function, hfunction, hcalls⟩ := helpers_closed sharedNames rfl
  refine ⟨by decide, function, hfunction, ?_, hcalls⟩
  have hmemberwise : sharedNames.generator = .ok sharedNames.memberwiseFunction := by decide
  rw [hmemberwise, Except.ok.injEq] at hfunction
  rw [← hfunction]
  decide

end Report

/-- A generation consists of what its report gives. -/
theorem Generation.parts_of_ofDecl {decl : TypeDecl} {generation : Generation}
    (h : Generation.ofDecl decl = .ok generation) :
    (Report.ofDecl decl).generator = .ok generation.function ∧
      generation.helpers = (Report.ofDecl decl).helpers := by
  cases hfunction : (Report.ofDecl decl).generator with
  | error refused =>
      rw [Generation.ofDecl, hfunction] at h
      cases h
  | ok function =>
      rw [Generation.ofDecl, hfunction] at h
      cases h
      exact ⟨rfl, rfl⟩

end Fakery
