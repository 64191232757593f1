import Fakery.Proofs.Fake.Strategy
import Fakery.Proofs.Shape.Calls

/-!
# Defaults of annotated properties

An annotated property has an expression of its own, and the parameter of its name should
default to it.  A parameter finds its property, and a helper its expression, by the first
property of a name, static or not.  So a property gets its own default exactly if no static
property before it stands in its place.
-/

namespace Fakery

/-! ## Properties with an expression of their own -/

/-- A stored property of a written type whose default annotation carries an expression. -/
structure Property.Holds (property : Property) (binding : Binding) (type : WrittenType)
    (expression : String) : Prop where
  stores : property.Stores binding
  typed : ∃ text, binding.typeText = some text ∧ text ≠ "" ∧ type = .ofText text
  annotated : ∃ found,
    IsFirst (fun found : Attribute => found.name = "AutoFakeDefault") property.attributes found ∧
      annotationExpression found = some expression

namespace Property

variable {property : Property} {binding : Binding} {type : WrittenType} {expression : String}

theorem type_field_eq_some_iff : (property.field binding).type = some type ↔
    ∃ text, binding.typeText = some text ∧ text ≠ "" ∧ type = .ofText text := by
  cases htype : binding.typeText with
  | none => simp [field, htype]
  | some text =>
      by_cases htext : text = ""
      · simp [field, htype, htext]
      · simpa [field, htype, htext] using eq_comm

theorem expression_field_eq_some_iff : (property.field binding).expression = some expression ↔
    ∃ found,
      IsFirst (fun found : Attribute => found.name = "AutoFakeDefault") property.attributes found ∧
        annotationExpression found = some expression := by
  rw [field, Option.bind_eq_some_iff]
  simp only [findAttribute_eq_some_iff]
  rfl

theorem Holds.isAnnotated (h : property.Holds binding type expression) : property.IsAnnotated := by
  obtain ⟨found, hfound, hexpression⟩ := h.annotated
  exact ⟨found, hfound, by simp [hexpression]⟩

theorem Holds.isTyped (h : property.Holds binding type expression) : binding.IsTyped := by
  obtain ⟨text, htext, hne, -⟩ := h.typed
  exact ⟨text, htext, hne⟩

theorem Holds.isHeld (h : property.Holds binding type expression) :
    (property.field binding).IsHeld :=
  (Field.hasHelper_iff _).1 (h.stores.hasHelper_iff.2 ⟨h.isAnnotated, h.isTyped⟩)

end Property

def Member.helper? (m : Member) : Option Helper :=
  m.field?.bind Report.helper?

/-- Helpers come from the properties that hold an expression. -/
theorem Member.helper?_eq_some_iff {m : Member} {helper : Helper} :
    m.helper? = some helper ↔ ∃ property binding type expression, m = .property property ∧
      property.Holds binding type expression ∧
      helper = ⟨helperName binding.pattern, binding.pattern, type.text, expression⟩ := by
  rw [Member.helper?, Option.bind_eq_some_iff]
  constructor
  · rintro ⟨field, hfield, hhelper⟩
    obtain ⟨hheld, type, expression, htype, hexpression, rfl⟩ := Report.helper?_eq_some_iff.1 hhelper
    obtain ⟨property, binding, rfl, hstores, rfl⟩ :=
      Member.field?_eq_some_iff.1 ⟨hfield, hheld.stored⟩
    exact ⟨property, binding, type, expression, rfl, ⟨hstores, Property.type_field_eq_some_iff.1 htype,
      Property.expression_field_eq_some_iff.1 hexpression⟩, rfl⟩
  · rintro ⟨property, binding, type, expression, rfl, hholds, rfl⟩
    exact ⟨property.field binding,
      (Member.field?_eq_some_iff.2 ⟨property, binding, rfl, hholds.stores, rfl⟩).1,
      Report.helper?_eq_some_iff.2 ⟨hholds.isHeld, type, expression,
        Property.type_field_eq_some_iff.2 hholds.typed,
        Property.expression_field_eq_some_iff.2 hholds.annotated, rfl⟩⟩

theorem Report.mem_firstOfEachName_iff {seen : List String} {helpers : List Helper}
    {helper : Helper} :
    helper ∈ firstOfEachName seen helpers ↔
      helper.name ∉ seen ∧ IsFirst (fun other : Helper => other.name = helper.name) helpers helper := by
  induction helpers generalizing seen with
  | nil => simp [firstOfEachName, not_isFirst_nil]
  | cons first rest ih =>
      rw [firstOfEachName, isFirst_cons]
      by_cases hseen : first.name ∈ seen
      · rw [if_pos (by simpa using hseen), ih]
        grind
      · rw [if_neg (by simpa using hseen), List.mem_cons, ih]
        grind

def Member.AsksFor (name : String) (m : Member) : Prop :=
  ∃ helper, m.helper? = some helper ∧ helper.name = name

/-- The helper of a name is that of the first member which asks for one of this name. -/
theorem mem_helpers_ofDecl_iff {decl : TypeDecl} {helper : Helper} :
    helper ∈ (Report.ofDecl decl).helpers ↔
      ∃ m, IsFirst (Member.AsksFor helper.name) decl.members m ∧ m.helper? = some helper := by
  have hhelpers : (Report.ofDecl decl).fields.filterMap Report.helper? =
      decl.members.filterMap Member.helper? := by
    rw [Report.fields_ofDecl, List.filterMap_filterMap]
    rfl
  have hfind := @find?_filterMap_eq_some_iff _ _ Member.helper? (·.name == helper.name) decl.members
    helper
  have hfirst := @find?_map_eq_some_iff _ _ id (fun other : Helper => other.name == helper.name)
    (decl.members.filterMap Member.helper?) helper
  rw [Report.helpers, Report.mem_firstOfEachName_iff, hhelpers]
  simp only [List.map_id, id, beq_iff_eq, exists_eq_right] at hfind hfirst
  rw [← hfirst, hfind]
  simp only [List.not_mem_nil, not_false_eq_true, true_and]
  rfl

theorem helperName_eq_iff {name other : String} :
    helperName name = helperName other ↔ withoutBackticks name = withoutBackticks other :=
  String.append_right_inj _

/-- The default of a parameter is the call of its helper only if a helper is meant. -/
theorem defaultFor_eq_call_iff {own : Prop} {name default : String} {type : WrittenType}
    (h : DefaultsTo own name type default) : default = helperName name ++ "()" ↔ own := by
  cases h with
  | helper hown => exact iff_of_true rfl hown
  | typed hown =>
      refine iff_of_false ?_ hown
      intro heq
      have htypes : ∀ text ∈ typeDefaults, text.toList.head? ≠ some '_' := by decide
      have hhelper : ("_autoFakeDefault_" ++ withoutBackticks name ++ "()").toList.head? =
          some '_' := by
        simp
      exact htypes _ (defaultExpression_mem_typeDefaults type) (heq ▸ hhelper)

/-! ## Static properties before a property -/

def Member.storedName? (m : Member) : Option String :=
  (m.field?.filter fun field => field.isStored && !field.isStatic).map (·.name)

def TypeDecl.storedNames (decl : TypeDecl) : List String :=
  decl.members.filterMap Member.storedName?

/-- The same names as they are written in helpers. -/
def TypeDecl.instanceNames (decl : TypeDecl) : List String :=
  decl.storedNames.map withoutBackticks

def Member.IsStored (name : String) (m : Member) : Prop :=
  ∃ property binding, m = .property property ∧ property.Stores binding ∧ binding.pattern = name

def Member.IsStatic (name : String) (m : Member) : Prop :=
  ∃ property binding, m = .property property ∧ property.Stores binding ∧
    binding.pattern = name ∧ "static" ∈ property.modifiers

/-- A static property that holds an expression under a name, up to backticks. -/
def Member.IsStaticHolder (name : String) (m : Member) : Prop :=
  ∃ property binding type expression, m = .property property ∧
    property.Holds binding type expression ∧
    withoutBackticks binding.pattern = withoutBackticks name ∧ "static" ∈ property.modifiers

/-- Nothing among the members before an instance property takes its place: the first static
property that holds an expression under its name holds the same one. -/
def HoldsSame (before : List Member) (name : String) (type : WrittenType) (expression : String) :
    Prop :=
  ∀ other binding otherType otherExpression,
    IsFirst (Member.IsStaticHolder name) before (.property other) →
      other.Holds binding otherType otherExpression →
      otherType.text = type.text ∧ otherExpression = expression

/-- The first static property of a name among some members, if there is any, holds an
expression. -/
def HoldsAny (before : List Member) (name : String) : Prop :=
  ∀ other binding, IsFirst (Member.IsStatic name) before (.property other) →
    other.Stores binding → other.IsAnnotated ∧ binding.IsTyped

/-- The helper of a name returns an expression of a type. -/
structure Generation.Returns (generation : Generation) (name returnType expression : String) :
    Prop where
  declared : ∃ helper ∈ generation.helpers, helper.name = name
  returns : ∀ helper ∈ generation.helpers, helper.name = name →
    helper.returnType = returnType ∧ helper.expression = expression

theorem Property.Holds.unique {property : Property} {binding other : Binding}
    {type otherType : WrittenType} {expression otherExpression : String}
    (h : property.Holds binding type expression)
    (hother : property.Holds other otherType otherExpression) :
    type = otherType ∧ expression = otherExpression := by
  have hbinding := h.stores.unique hother.stores
  subst hbinding
  have htype : (property.field binding).type = some type := type_field_eq_some_iff.2 h.typed
  have hexpression : (property.field binding).expression = some expression :=
    expression_field_eq_some_iff.2 h.annotated
  rw [type_field_eq_some_iff.2 hother.typed, Option.some.injEq] at htype
  rw [expression_field_eq_some_iff.2 hother.annotated, Option.some.injEq] at hexpression
  exact ⟨htype.symm, hexpression.symm⟩

theorem Property.Stores.storedName? {property : Property} {binding : Binding}
    (h : property.Stores binding) (hinstance : "static" ∉ property.modifiers) :
    (Member.property property).storedName? = some binding.pattern := by
  obtain ⟨hfield, hstored⟩ :=
    Member.field?_eq_some_iff.2 ⟨property, binding, rfl, h, rfl⟩
  have hstatic : (property.field binding).isStatic = false := by
    simpa [Property.field] using hinstance
  rw [Member.storedName?, hfield, Option.filter_some, hstored, hstatic]
  rfl

section Instance

variable {decl : TypeDecl} {before after : List Member} {property : Property} {binding : Binding}
  (hmembers : decl.members = before ++ .property property :: after)
  (hdistinct : decl.instanceNames.Nodup) (hstores : property.Stores binding)
  (hinstance : "static" ∉ property.modifiers)

include hmembers hdistinct hstores hinstance

/-- Another stored property of the same name is static. -/
theorem static_of_name_eq {other : Property} {binding' : Binding}
    (hother : Member.property other ∈ before ++ after) (hstores' : other.Stores binding')
    (hname : withoutBackticks binding'.pattern = withoutBackticks binding.pattern) :
    "static" ∈ other.modifiers := by
  by_contra hinstance'
  have hnames : decl.instanceNames =
      (before.filterMap Member.storedName?).map withoutBackticks ++
        withoutBackticks binding.pattern ::
          (after.filterMap Member.storedName?).map withoutBackticks := by
    rw [TypeDecl.instanceNames, TypeDecl.storedNames, hmembers, List.filterMap_append,
      List.filterMap_cons_some (hstores.storedName? hinstance), List.map_append, List.map_cons]
  rw [hnames, List.nodup_middle, List.nodup_cons, ← List.map_append, ← List.filterMap_append]
    at hdistinct
  apply hdistinct.1
  rw [← hname]
  exact List.mem_map_of_mem (List.mem_filterMap.2 ⟨_, hother, hstores'.storedName? hinstance'⟩)

/-- A parameter of the name of an annotated instance property finds an expression exactly if
no static property before has none. -/
theorem namesDefault_iff_holdsAny (hannotated : property.IsAnnotated) (htyped : binding.IsTyped) :
    decl.NamesDefault binding.pattern ↔ HoldsAny before binding.pattern := by
  have hown : (Member.property property).IsStored binding.pattern :=
    ⟨property, binding, rfl, hstores, rfl⟩
  have hstatic : ∀ m ∈ before, m.IsStored binding.pattern ↔ m.IsStatic binding.pattern := by
    intro m hm
    constructor
    · rintro ⟨p, b, rfl, hp, hb⟩
      exact ⟨p, b, rfl, hp, hb, static_of_name_eq hmembers hdistinct hstores hinstance
        (List.mem_append_left _ hm) hp (by rw [hb])⟩
    · rintro ⟨p, b, rfl, hp, hb, -⟩
      exact ⟨p, b, rfl, hp, hb⟩
  change (∃ found b, IsFirst (Member.IsStored binding.pattern) decl.members (.property found) ∧ _) ↔ _
  simp only [hmembers, isFirst_append_cons hown, isFirst_congr hstatic]
  constructor
  · rintro ⟨found, b, hfound, hb, hdefault⟩ other b' hother hb'
    cases hfound with
    | inl hfirst =>
        cases hfirst.unique hother
        rw [hb'.unique hb]
        exact hdefault
    | inr hnone => exact absurd ((hstatic _ hother.mem).2 hother.holds) (hnone.1 _ hother.mem)
  · intro hholds
    by_cases hfirst : ∃ m ∈ before, m.IsStatic binding.pattern
    · obtain ⟨m, hm, hp⟩ := hfirst
      obtain ⟨first, hfirst⟩ := exists_isFirst hm hp
      obtain ⟨p, b, rfl, hp, -⟩ := hfirst.holds
      exact ⟨p, b, .inl hfirst, hp, hholds p b hfirst hp⟩
    · push Not at hfirst
      refine ⟨property, binding, .inr ⟨?_, rfl⟩, hstores, hannotated, htyped⟩
      intro m hm hp
      exact hfirst m hm ((hstatic m hm).1 hp)

/-- The helper of the name of an annotated instance property returns its own expression
exactly if no static property before holds another one. -/
theorem returns_iff_holdsSame {type : WrittenType} {expression : String}
    (hholds : property.Holds binding type expression) {generation : Generation}
    (hgeneration : Generation.ofDecl decl = .ok generation) :
    generation.Returns (helperName binding.pattern) type.text expression ↔
      HoldsSame before binding.pattern type expression := by
  have hown : (Member.property property).AsksFor (helperName binding.pattern) :=
    ⟨_, Member.helper?_eq_some_iff.2 ⟨property, binding, type, expression, rfl, hholds, rfl⟩, rfl⟩
  have hstatic : ∀ m ∈ before, m.AsksFor (helperName binding.pattern) ↔
      m.IsStaticHolder binding.pattern := by
    intro m hm
    constructor
    · rintro ⟨helper, hhelper, hname⟩
      obtain ⟨p, b, t, e, rfl, hp, rfl⟩ := Member.helper?_eq_some_iff.1 hhelper
      have hname := helperName_eq_iff.1 hname
      exact ⟨p, b, t, e, rfl, hp, hname, static_of_name_eq hmembers hdistinct hstores hinstance
        (List.mem_append_left _ hm) hp.stores hname⟩
    · rintro ⟨p, b, t, e, rfl, hp, hname, -⟩
      exact ⟨_, Member.helper?_eq_some_iff.2 ⟨p, b, t, e, rfl, hp, rfl⟩, helperName_eq_iff.2 hname⟩
  have hhelper : ∀ helper : Helper, helper.name = helperName binding.pattern →
      (helper ∈ generation.helpers ↔ ∃ m, m.helper? = some helper ∧
        (IsFirst (Member.IsStaticHolder binding.pattern) before m ∨
          (∀ z ∈ before, ¬ z.AsksFor (helperName binding.pattern)) ∧ m = .property property)) := by
    intro helper hname
    rw [(Generation.parts_of_ofDecl hgeneration).2, mem_helpers_ofDecl_iff, hname, hmembers]
    simp only [isFirst_append_cons hown, isFirst_congr hstatic, and_comm]
  constructor
  · rintro ⟨-, hreturns⟩ other b t e hfirst hother
    obtain ⟨p, b', t', e', hsame, hp, hname, -⟩ := hfirst.holds
    cases hsame
    rw [hp.stores.unique hother.stores] at hname
    have hhelperName := helperName_eq_iff.2 hname
    exact hreturns _ ((hhelper _ hhelperName).2 ⟨_, Member.helper?_eq_some_iff.2
      ⟨other, b, t, e, rfl, hother, rfl⟩, .inl hfirst⟩) hhelperName
  · intro hsame
    constructor
    · have hfield : property.field binding ∈ (Report.ofDecl decl).fields := by
        rw [Report.fields_ofDecl, List.mem_filterMap]
        exact ⟨.property property, by simp [hmembers],
          (Member.field?_eq_some_iff.2 ⟨property, binding, rfl, hstores, rfl⟩).1⟩
      have hdeclared := Report.exists_helper_of_isHeld hfield hholds.isHeld
      rw [← (Generation.parts_of_ofDecl hgeneration).2] at hdeclared
      exact hdeclared
    · intro helper hmem hname
      obtain ⟨m, hm, hplace⟩ := (hhelper helper hname).1 hmem
      obtain ⟨p, b, t, e, rfl, hp, rfl⟩ := Member.helper?_eq_some_iff.1 hm
      cases hplace with
      | inl hfirst => exact hsame p b t e hfirst hp
      | inr hlast =>
          cases hlast.2
          obtain ⟨rfl, rfl⟩ := hp.unique hholds
          exact ⟨rfl, rfl⟩

end Instance

theorem exists_takes_of_mem {decl : TypeDecl} {declared : List Parameter}
    {parameters : List GeneratedParameter} (h : List.Forall₂ decl.Takes declared parameters)
    {parameter : GeneratedParameter} (hparameter : parameter ∈ parameters) :
    ∃ own, decl.Takes own parameter := by
  induction h with
  | nil => cases hparameter
  | cons htakes hrest ih =>
      rcases List.mem_cons.1 hparameter with rfl | hparameter
      · exact ⟨_, htakes⟩
      · exact ih hparameter

/-- Every parameter of a memberwise function comes from a stored binding. -/
theorem Memberwise.exists_of_mem {members : List Member} {parameters : List GeneratedParameter}
    {arguments : List Argument} (h : Memberwise members parameters arguments)
    {parameter : GeneratedParameter} (hparameter : parameter ∈ parameters) :
    ∃ property binding, Member.property property ∈ members ∧ property.Stores binding ∧
      "static" ∉ property.modifiers ∧ parameter.name = binding.pattern ∧
      DefaultsTo property.IsAnnotated parameter.name parameter.type parameter.default := by
  induction h with
  | nil => cases hparameter
  | @keep property binding text default rest parameters arguments hstores hstatic htype htext
      hdefault hrest ih =>
      rcases List.mem_cons.1 hparameter with rfl | hparameter
      · exact ⟨property, binding, List.mem_cons_self, hstores, hstatic, rfl, hdefault⟩
      · obtain ⟨p, b, hp, hrest⟩ := ih hparameter
        exact ⟨p, b, List.mem_cons_of_mem _ hp, hrest⟩
  | skip hskip hrest ih =>
      obtain ⟨p, b, hp, hrest⟩ := ih hparameter
      exact ⟨p, b, List.mem_cons_of_mem _ hp, hrest⟩

/-- An annotated instance property gets its own default exactly if the first static property
before it that holds an expression under its name holds the same one, and, when parameters
are those of an initializer, the first static property before it of its name holds one. -/
theorem ownDefault_iff {decl : TypeDecl} {before after : List Member} {property : Property}
    {binding : Binding} {type : WrittenType} {expression : String}
    (hmembers : decl.members = before ++ .property property :: after)
    (hdistinct : decl.instanceNames.Nodup) (hinstance : "static" ∉ property.modifiers)
    (hholds : property.Holds binding type expression) {generation : Generation}
    (hgeneration : Generation.ofDecl decl = .ok generation)
    (hstrategy : generation.function.strategy = .memberwiseDefault ∨
      generation.function.strategy = .manualConstructor)
    {parameter : GeneratedParameter} (hparameter : parameter ∈ generation.function.parameters)
    (hname : parameter.name = binding.pattern) :
    (parameter.default = helperName binding.pattern ++ "()" ∧
      generation.Returns (helperName binding.pattern) type.text expression) ↔
    (generation.function.strategy = .manualConstructor → HoldsAny before binding.pattern) ∧
      HoldsSame before binding.pattern type expression := by
  have hstores := hholds.stores
  rw [returns_iff_holdsSame hmembers hdistinct hstores hinstance hholds hgeneration]
  apply and_congr_left'
  have hbuilds := generator_eq_ok_iff.1 (Generation.parts_of_ofDecl hgeneration).1
  generalize generation.function = function at hstrategy hparameter hbuilds
  cases hbuilds with
  | enumFirstCase => simp at hstrategy
  | rawRepresentableSingleton => simp at hstrategy
  | manualConstructor _ _ _ _ hparameters =>
      obtain ⟨declared, htakes⟩ := exists_takes_of_mem hparameters hparameter
      rw [← hname, defaultFor_eq_call_iff htakes.default, hname,
        namesDefault_iff_holdsAny hmembers hdistinct hstores hinstance hholds.isAnnotated
          hholds.isTyped]
      simp
  | memberwiseDefault _ _ _ _ hmemberwise =>
      obtain ⟨p, b, hp, hb, hinstance', hpattern, hdefault⟩ := hmemberwise.exists_of_mem hparameter
      -- a parameter of the name is that of the property itself, as other ones are static
      have hsame : p = property := by
        rw [hmembers, List.mem_append, List.mem_cons] at hp
        by_contra hne
        apply hinstance'
        have hother : Member.property p ∈ before ++ after := by
          rw [List.mem_append]
          exact hp.imp_right (Or.resolve_left · fun heq => hne (Member.property.inj heq))
        exact static_of_name_eq hmembers hdistinct hstores hinstance hother hb
          (by rw [← hpattern, hname])
      subst hsame
      rw [← hname, defaultFor_eq_call_iff hdefault]
      simp [hholds.isAnnotated]

/-- A property `x: Int` whose default annotation has an expression for its argument. -/
def annotatedX (modifiers : List String) (expression : String) : Property where
  attributes := [⟨"AutoFakeDefault", some [expression], 0, 0⟩]
  modifiers
  specifier := "var"
  bindings := [{ pattern := "x", typeText := some "Int" }]
  start := 0
  stop := 0

theorem holds_annotatedX (modifiers : List String) {expression : String}
    (h : annotationExpression ⟨"AutoFakeDefault", some [expression], 0, 0⟩ = some expression) :
    (annotatedX modifiers expression).Holds { pattern := "x", typeText := some "Int" }
      (.ofText "Int") expression where
  stores := ⟨rfl, by decide, by decide, .inl rfl⟩
  typed := ⟨"Int", rfl, by decide, rfl⟩
  annotated := ⟨_, ⟨[], [], rfl, rfl, by simp⟩, h⟩

/-- An instance property behind a static one that holds the same, and an initializer that
takes it. -/
def sharedFive : TypeDecl where
  header := { (default : Header) with keyword := "struct", name := "A" }
  members := [.property (annotatedX ["static"] "5"), .property (annotatedX [] "5"),
    .initializer ⟨[], [], [⟨"x", none, "Int", none, false⟩], 0, 0, false⟩]
  conditional := []

theorem ownDefault_sharedFive :
    ∃ generation, Generation.ofDecl sharedFive = .ok generation ∧
      generation.function.strategy = .manualConstructor ∧
      ∃ parameter ∈ generation.function.parameters, parameter.name = "x" ∧
        parameter.default = helperName "x" ++ "()" ∧
        generation.Returns (helperName "x") "Int" "5" := by
  let parameter : GeneratedParameter := ⟨"x", .ofText "Int", "_autoFakeDefault_x()"⟩
  let generation : Generation := ⟨Report.ofDecl sharedFive,
    ⟨"fake", .manualConstructor, [parameter], .selfCall [⟨"x", some "x"⟩], "Self"⟩,
    (Report.ofDecl sharedFive).helpers⟩
  have hgeneration : Generation.ofDecl sharedFive = .ok generation := by decide +kernel
  have hholds : ∀ modifiers, (annotatedX modifiers "5").Holds _ _ "5" :=
    fun modifiers => holds_annotatedX modifiers (by decide)
  have hfirst : ∀ {p : Member → Prop} {other : Property},
      IsFirst p [.property (annotatedX ["static"] "5")] (.property other) →
        other = annotatedX ["static"] "5" :=
    fun h => Member.property.inj (List.mem_singleton.1 h.mem)
  have hiff := @ownDefault_iff sharedFive [.property (annotatedX ["static"] "5")] _ _ _ _ _ rfl
    (by decide +kernel) (by decide) (hholds []) generation hgeneration (.inr rfl) parameter
    List.mem_cons_self rfl
  refine ⟨generation, hgeneration, rfl, parameter, List.mem_cons_self, rfl, hiff.2 ⟨?_, ?_⟩⟩
  · intro _ other binding hother hstores
    rw [hfirst hother] at hstores ⊢
    rw [hstores.unique (hholds ["static"]).stores]
    exact ⟨(hholds ["static"]).isAnnotated, (hholds ["static"]).isTyped⟩
  · intro other binding type expression hother hother'
    rw [hfirst hother] at hother'
    obtain ⟨rfl, rfl⟩ := hother'.unique (hholds ["static"])
    exact ⟨rfl, rfl⟩

/-- An instance property behind a static one of its name that holds another expression. -/
def staticOne : TypeDecl where
  header := { (default : Header) with keyword := "struct", name := "A" }
  members := [.property (annotatedX ["static"] "1"), .property (annotatedX [] "5")]
  conditional := []

/-- The instance property then gets the expression of the static one. -/
theorem ownDefault_staticOne :
    staticOne.instanceNames.Nodup ∧ .property (annotatedX [] "5") ∈ staticOne.members ∧
      (annotatedX [] "5").Holds { pattern := "x", typeText := some "Int" } (.ofText "Int") "5" ∧
      ∃ generation, Generation.ofDecl staticOne = .ok generation ∧
        generation.function.strategy = .memberwiseDefault ∧
        (∃ parameter ∈ generation.function.parameters, parameter.name = "x" ∧
          parameter.default = helperName "x" ++ "()") ∧
        generation.Returns (helperName "x") "Int" "1" ∧
        ¬ generation.Returns (helperName "x") "Int" "5" := by
  let parameter : GeneratedParameter := ⟨"x", .ofText "Int", "_autoFakeDefault_x()"⟩
  let generation : Generation := ⟨Report.ofDecl staticOne,
    ⟨"fake", .memberwiseDefault, [parameter], .selfCall [⟨"x", some "x"⟩], "Self"⟩,
    [⟨"_autoFakeDefault_x", "x", "Int", "1"⟩]⟩
  have hreturns : generation.Returns (helperName "x") "Int" "1" := by
    constructor
    · exact ⟨_, List.mem_cons_self, by decide⟩
    · intro helper hhelper _
      rw [List.mem_singleton.1 hhelper]
      exact ⟨rfl, rfl⟩
  refine ⟨by decide +kernel, by simp [staticOne], holds_annotatedX [] (by decide), generation,
    by decide +kernel, rfl, ⟨parameter, List.mem_cons_self, rfl, by decide⟩, hreturns, ?_⟩
  intro hother
  have hone : "1" = "5" := (hother.returns _ List.mem_cons_self (by decide)).2
  exact absurd hone (by decide)

end Fakery
