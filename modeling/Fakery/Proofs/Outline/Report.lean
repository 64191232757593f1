import Fakery.Proofs.Outline.Generated
import Fakery.Proofs.Shape.Calls

/-!
# Reports of outlines

The report on a type of an outline holds nothing but names, types and decimal integers.
So what is generated for such a type is made of names, types and expressions.
-/

namespace Fakery.Outline

open Text

/-! ## Names and integers -/

namespace IsName

variable {text : String}

theorem ofName (name : Name) : IsName (String.ofList name.text) :=
  ⟨name, rfl⟩

theorem isExpr (h : IsName text) : IsExpr text.toList := by
  obtain ⟨name, rfl⟩ := h
  rw [String.toList_ofList]
  exact isExpr_name name

theorem withoutBackticks_eq (h : IsName text) : withoutBackticks text = text := by
  obtain ⟨name, rfl⟩ := h
  rw [withoutBackticks, String.toList_ofList, List.filter_eq_self.2]
  intro c hc
  rw [bne_iff_ne]
  rintro rfl
  exact absurd (name.isNamePart _ hc) (by decide)

/-- The helper of a name has a name. -/
theorem helperName (h : IsName text) : IsName (helperName text) := by
  change IsName ("_autoFakeDefault_" ++ withoutBackticks text)
  rw [h.withoutBackticks_eq]
  obtain ⟨name, rfl⟩ := h
  have hparts : ∀ c ∈ "autoFakeDefault_".toList, isNamePart c = true :=
    List.all_eq_true.1 (by decide)
  have hkeyword : ∀ keyword ∈ keywords, ¬ "_autoFakeDefault_".toList <+: keyword.toList := by
    decide +kernel
  refine ⟨⟨"_autoFakeDefault_".toList ++ name.text, ?_, ?_⟩, ?_⟩
  · have hstart : isNameStart '_' = true := rfl
    change (isNameStart '_' && ("autoFakeDefault_".toList ++ name.text).all
      isNamePart) = true
    rw [hstart, Bool.true_and, List.all_append, Bool.and_eq_true, List.all_eq_true, List.all_eq_true]
    exact ⟨hparts, name.isNamePart⟩
  · rw [Bool.eq_false_iff, ne_eq, List.contains_iff_mem]
    intro hmem
    refine hkeyword _ hmem ?_
    rw [@String.toList_ofList (_ ++ name.text)]
    exact List.prefix_append ..
  · rw [String.ofList_append, String.ofList_toList]

end IsName

/-- A type is classified under its own text. -/
theorem isType_ofText (type : Ty) : IsType (WrittenType.ofText (String.ofList type.text)).text := by
  have htext : ∀ text, (WrittenType.ofText text).text = trimmed text := fun _ => rfl
  exact ⟨type, by rw [htext, type.trimmed_text]⟩

/-- An expression without any kind of line boundary. -/
structure IsPlain (text : String) : Prop where
  isExpr : IsExpr text.toList
  oneLine : ∀ c ∈ text.toList, isLineBreak c = false

theorem isDigit_spec {c : Char} (h : c.isDigit = true) :
    isBlank c = false ∧ isLineBreak c = false ∧ isWordStart c = false ∧ c ≠ '`' := by
  have hbounds := toNat_of_isDigit h
  have hdigit : (decimalDigit? c).isNone = false := by
    rw [decimalDigit?, Option.isNone_map, Option.isNone_eq_false_iff, Array.find?_isSome]
    exact ⟨48, by simp [decimalZeros], by simp; omega⟩
  refine ⟨?_, ?_, ?_, ?_⟩
  · simp [isBlank]
    omega
  · simp [isLineBreak]
    omega
  · rw [isWordStart, hdigit, Bool.and_false]
  · rintro rfl
    exact absurd h (by decide)

namespace Literal

variable (literal : Literal)

theorem text_spec : ∀ c ∈ literal.text, isBlank c = false ∧ isLineBreak c = false ∧
    isWordStart c = false ∧ c ≠ '`' := by
  intro c hc
  rw [Literal.text] at hc
  split at hc
  · rcases List.mem_cons.1 hc with rfl | hc
    · decide
    · exact isDigit_spec (literal.isDigit c hc)
  · exact isDigit_spec (literal.isDigit c hc)

theorem isPlain : IsPlain (String.ofList literal.text) := by
  constructor
  · rw [String.toList_ofList]
    exact literal.isExpr
  · intro c hc
    rw [String.toList_ofList] at hc
    exact (literal.text_spec c hc).2.1

/-- An integer has no argument label. -/
theorem dropLabel_text : dropLabel literal.text = literal.text := by
  have hnone : dropName? literal.text = none := by
    have hspec := literal.text_spec
    cases htext : literal.text with
    | nil => rfl
    | cons c cs =>
        obtain ⟨-, -, hstart, hquote⟩ := hspec c (by simp [htext])
        simp [dropName?, hstart, hquote]
  rw [dropLabel, hnone]

end Literal

/-- The expression of an attribute is its argument. -/
theorem annotationExpression_placed (mark : Mark) (start : Nat) :
    annotationExpression (mark.placed start) =
      mark.argument.map fun literal => String.ofList literal.text := by
  cases hargument : mark.argument with
  | none => simp [annotationExpression, Mark.placed, hargument]
  | some literal =>
      have htrim : trim literal.text = literal.text := by
        refine Text.trim_eq (fun c hc => ?_) fun c hc => ?_
        · exact (literal.text_spec c (List.mem_of_mem_head? hc)).1
        · exact (literal.text_spec c (List.mem_of_getLast? hc)).1
      have hne : literal.text ≠ [] := literal.text_ne_nil
      simp [annotationExpression, Mark.placed, hargument, literal.dropLabel_text, htrim, hne]

/-! ## Reports -/

structure PlainField (field : Field) : Prop where
  name : IsName field.name
  type : ∀ type ∈ field.type, IsType type.text
  expression : ∀ expression ∈ field.expression, IsPlain expression

structure PlainParameter (parameter : ConstructorParameter) : Prop where
  name : IsName parameter.name
  type : IsType parameter.type.text
  label : ∀ label ∈ parameter.label, IsName label

structure PlainCase (case : EnumCase) : Prop where
  name : IsName case.name
  label : ∀ values ∈ case.values, ∀ value ∈ values, ∀ label ∈ value.label, IsName label

/-- A report that holds only names, types and plain expressions. -/
structure PlainReport (report : Report) : Prop where
  fields : ∀ field ∈ report.fields, PlainField field
  parameters : ∀ constructor ∈ report.constructors, ∀ parameter ∈ constructor.parameters,
    PlainParameter parameter
  firstCase : ∀ first ∈ report.firstCase?, PlainCase first

theorem exists_placed_of_mem {source : List Char} {start : Nat} {nodes : List Node} {found : Member}
    (h : found ∈ placedAll source start nodes) :
    ∃ (node : Node) (offset : Nat), found = node.placed source offset := by
  induction nodes generalizing start with
  | nil => simp [placedAll] at h
  | cons node rest ih =>
      rcases List.mem_cons.1 h with rfl | h
      · exact ⟨node, start, rfl⟩
      · exact ih h

theorem exists_mark_of_mem {start : Nat} {marks : List Mark} {found : Attribute}
    (h : found ∈ attributesAt start marks) :
    ∃ (mark : Mark) (offset : Nat), found = mark.placed offset := by
  induction marks generalizing start with
  | nil => simp [attributesAt] at h
  | cons mark rest ih =>
      rcases List.mem_cons.1 h with rfl | h
      · exact ⟨mark, start, rfl⟩
      · exact ih h

/-- The fields of an outline are plain. -/
theorem plainField_placed {source : List Char} {offset : Nat} {node : Node} {property : Property}
    {field : Field} (hproperty : (node.placed source offset).property? = some property)
    (hfield : Field.ofProperty? property = some field) : PlainField field := by
  cases node with
  | property front isStatic isVariable name type =>
      cases hproperty
      rw [Field.ofProperty?] at hfield
      dsimp only at hfield
      split at hfield
      · cases hfield
        refine ⟨.ofName name, ?_, ?_⟩
        · intro written hwritten
          obtain ⟨text, htext, rfl⟩ := Option.map_eq_some_iff.1 hwritten
          obtain ⟨htext, -⟩ := Option.filter_eq_some_iff.1 htext
          rw [← Option.some.inj htext]
          exact isType_ofText type
        · intro expression hexpression
          obtain ⟨found, hfound, hexpression⟩ := Option.bind_eq_some_iff.1 hexpression
          obtain ⟨mark, start, rfl⟩ := exists_mark_of_mem (List.mem_of_find?_eq_some hfound)
          rw [annotationExpression_placed] at hexpression
          obtain ⟨literal, -, rfl⟩ := Option.map_eq_some_iff.1 hexpression
          exact literal.isPlain
      · cases hfield
  | _ => cases hproperty

theorem plainParameter_ofParameter (param : Param) :
    PlainParameter (.ofParameter param.parameter) := by
  have hwildcard : ∀ name : Name, (String.ofList name.text == "_") = false :=
    fun name => beq_false_of_ne (@Name.not_mem name ["_"] (by decide) <| by simpa using ·)
  have htype := isType_ofText param.type
  cases hnames : param.names with
  | plain name =>
      simp only [Param.parameter, hnames, ParamNames.first, ParamNames.second?,
        ConstructorParameter.ofParameter, hwildcard]
      refine ⟨.ofName name, htype, ?_⟩
      rintro label ⟨⟩
      exact .ofName name
  | labelled first second =>
      simp only [Param.parameter, hnames, ParamNames.first, ParamNames.second?,
        ConstructorParameter.ofParameter, hwildcard]
      refine ⟨.ofName first, htype, ?_⟩
      rintro label ⟨⟩
      exact .ofName first
  | unlabelled name =>
      have hne : (String.ofList name.text != "") = true := by
        rw [bne_iff_ne, ne_eq, String.ofList_eq_empty_iff]
        exact name.ne_nil
      simp only [Param.parameter, hnames, ParamNames.first, ParamNames.second?,
        ConstructorParameter.ofParameter, hne]
      refine ⟨.ofName name, htype, ?_⟩
      rintro label ⟨⟩

theorem plainCase_ofElement (element : Element) : PlainCase (.ofElement element.caseElement) := by
  refine ⟨.ofName element.name, ?_⟩
  intro values hvalues value hvalue label hlabel
  obtain ⟨parameters, hparameters, rfl⟩ := Option.map_eq_some_iff.1 hvalues
  obtain ⟨drawn, -, rfl⟩ := Option.map_eq_some_iff.1 hparameters
  obtain ⟨parameter, hparameter, rfl⟩ := List.mem_map.1 hvalue
  obtain ⟨source, -, rfl⟩ := List.mem_map.1 hparameter
  obtain ⟨name, -, rfl⟩ := Option.map_eq_some_iff.1 hlabel
  exact .ofName name

/-- The first case of an enum is one of its cases. -/
theorem mem_enumCases_of_firstCase? {decl : TypeDecl} {first : EnumCase}
    (h : (Report.ofDecl decl).firstCase? = some first) : first ∈ Report.enumCases decl.members := by
  rw [Report.firstCase?] at h
  split at h
  · next hshape =>
      cases h
      simp only [Report.ofDecl] at hshape
      split at hshape
      · rw [Shape.enumLike.inj (Option.some.inj hshape)]
        exact List.mem_cons_self
      · split at hshape <;> cases hshape
  · cases h

/-- The report on a type of an outline is plain. -/
theorem plainReport_ofDecl {decl : TypeDecl} {source : List Char} {start : Nat} {body : List Node}
    (hmembers : decl.members = placedAll source start body) : PlainReport (Report.ofDecl decl) := by
  have hplaced : ∀ found ∈ decl.members, ∃ (node : Node) (offset : Nat),
      found = node.placed source offset :=
    fun found hfound => exists_placed_of_mem (hmembers ▸ hfound)
  constructor
  · intro field hfield
    obtain ⟨property, hproperty, hfield⟩ := List.mem_filterMap.1 hfield
    obtain ⟨found, hfound, hproperty⟩ := List.mem_filterMap.1 hproperty
    obtain ⟨node, offset, rfl⟩ := hplaced found hfound
    exact plainField_placed hproperty hfield
  · intro constructor hconstructor parameter hparameter
    obtain ⟨declared, hdeclared, rfl⟩ := List.mem_map.1 hconstructor
    obtain ⟨found, hfound, hdeclared⟩ := List.mem_filterMap.1 hdeclared
    obtain ⟨node, offset, rfl⟩ := hplaced found hfound
    cases node with
    | initializer front params inside =>
        cases hdeclared
        obtain ⟨read, hread, rfl⟩ := List.mem_map.1 hparameter
        obtain ⟨param, -, rfl⟩ := List.mem_map.1 hread
        exact plainParameter_ofParameter param
    | _ => cases hdeclared
  · intro first hfirst
    obtain ⟨group, hgroup, hfirst⟩ := List.mem_flatMap.1 (mem_enumCases_of_firstCase? hfirst)
    obtain ⟨found, hfound, hgroup⟩ := List.mem_filterMap.1 hgroup
    obtain ⟨node, offset, rfl⟩ := hplaced found hfound
    cases node with
    | cases front element rest =>
        cases hgroup
        obtain ⟨read, hread, rfl⟩ := List.mem_map.1 hfirst
        obtain ⟨drawn, -, rfl⟩ := List.mem_map.1 hread
        exact plainCase_ofElement drawn
    | _ => cases hgroup

/-! ## Generations -/

theorem firstOfEachName_subset {seen : List String} {helpers : List Helper} {helper : Helper}
    (h : helper ∈ Report.firstOfEachName seen helpers) : helper ∈ helpers := by
  induction helpers generalizing seen with
  | nil => exact h
  | cons first rest ih =>
      rw [Report.firstOfEachName] at h
      split at h
      · exact List.mem_cons_of_mem _ (ih h)
      · rcases List.mem_cons.1 h with rfl | h
        · exact List.mem_cons_self
        · exact List.mem_cons_of_mem _ (ih h)

theorem isArgument_render {argument : Argument} (hvalue : IsExpr argument.value.toList)
    (hlabel : ∀ label ∈ argument.label, IsName label) : IsArgument argument.render.toList := by
  rw [Argument.render]
  cases hfound : argument.label with
  | none => exact hvalue.argument
  | some label =>
      obtain ⟨name, rfl⟩ := hlabel label hfound
      simpa using hvalue.labelled name

theorem isExpr_defaultFor {name : String} (hname : IsName name) (type : WrittenType)
    (custom : Bool) : IsExpr (defaultFor name type custom).toList := by
  rw [defaultFor]
  split
  · simpa [commaText] using @IsExpr.call _ hname.helperName.isExpr [] (by simp)
  · exact isExpr_defaultExpression type

theorem isParameter_render {parameter : GeneratedParameter} (hname : IsName parameter.name)
    (htype : IsType parameter.type.text) (hdefault : IsExpr parameter.default.toList) :
    IsParameter parameter.render.toList := by
  obtain ⟨name, hname⟩ := hname
  obtain ⟨type, htype⟩ := htype
  obtain ⟨value, hvalue⟩ := hdefault.exists_expr
  have htext : parameter.render.toList = (DefaultParam.mk name type value).text := by
    simp [GeneratedParameter.render, DefaultParam.text, hname, htype, hvalue]
  refine ⟨?_, _, htext.symm⟩
  rw [htext]
  simp [DefaultParam.text, name.not_mem_line, type.not_mem_text, hvalue, hdefault.oneLine]

namespace PlainReport

variable {report : Report} (h : PlainReport report)

include h

theorem plainHelper {helper : Helper} (hhelper : helper ∈ report.helpers) : PlainHelper helper := by
  obtain ⟨field, hfield, hhelper⟩ := List.mem_filterMap.1 (firstOfEachName_subset hhelper)
  obtain ⟨-, type, expression, htype, hexpression, rfl⟩ := Report.helper?_eq_some_iff.1 hhelper
  have hfield := h.fields field hfield
  have hplain := hfield.expression expression hexpression
  exact ⟨hfield.name.helperName, hfield.type type htype, hplain.isExpr, hplain.oneLine⟩

theorem plainFunction_constructor {constructor : Constructor}
    (hconstructor : constructor ∈ report.constructors) :
    PlainFunction (report.constructorFunction constructor) := by
  have hparameters := h.parameters constructor hconstructor
  refine ⟨rfl, rfl, List.forall_mem_map.2 fun parameter hparameter => ?_,
    List.forall_mem_map.2 fun parameter hparameter => ?_, ?_⟩
  · have hplain := hparameters parameter hparameter
    exact isParameter_render hplain.name hplain.type (isExpr_defaultFor hplain.name _ _)
  · have hplain := hparameters parameter hparameter
    refine isArgument_render hplain.name.isExpr fun label hlabel => ?_
    obtain ⟨written, hwritten, rfl⟩ := Option.map_eq_some_iff.1 hlabel
    have hwritten := hplain.label written hwritten
    rwa [hwritten.withoutBackticks_eq]
  · intro hne
    simpa [Report.constructorFunction] using hne

/-- The memberwise function of an outline is plain. -/
theorem plainFunction_memberwise : PlainFunction report.memberwiseFunction := by
  have hfields : ∀ field ∈ report.candidates, PlainField field :=
    fun field hfield => h.fields field (List.mem_filter.1 hfield).1
  refine ⟨rfl, rfl, ?_, List.forall_mem_map.2 fun field hfield => ?_, ?_⟩
  · intro parameter hparameter
    obtain ⟨field, hfield, hparameter⟩ := List.mem_filterMap.1 hparameter
    obtain ⟨type, htype, rfl⟩ := Option.map_eq_some_iff.1 hparameter
    have hplain := hfields field hfield
    exact isParameter_render hplain.name (hplain.type type htype)
      (isExpr_defaultFor hplain.name _ _)
  · have hplain := hfields field hfield
    refine isArgument_render hplain.name.isExpr fun label hlabel => ?_
    cases hlabel
    rw [hplain.name.withoutBackticks_eq]
    exact hplain.name
  · intro hne hnil
    refine hne ?_
    rw [List.map_eq_nil_iff] at hnil
    rw [Report.memberwiseFunction, hnil]
    rfl

/-- Whatever function is generated for an outline is plain. -/
theorem plainFunction {function : GeneratedFunction} (hfunction : report.generator = .ok function) :
    PlainFunction function := by
  rw [Report.generator] at hfunction
  split at hfunction
  · cases hfunction
  split at hfunction
  · next first hfirst =>
      cases hfunction
      have hplain := h.firstCase first hfirst
      refine ⟨rfl, rfl, by simp [Report.caseFunction], hplain.name, ?_⟩
      intro arguments harguments argument hargument
      obtain ⟨values, hvalues, rfl⟩ := Option.map_eq_some_iff.1 harguments
      obtain ⟨value, hvalue, rfl⟩ := List.mem_map.1 hargument
      exact isArgument_render (isExpr_defaultExpression _)
        (hplain.label values hvalues value hvalue)
  split at hfunction
  · next field hfield =>
      cases hfunction
      have hmem : field ∈ report.fields := by
        rw [Report.singleton?] at hfield
        split at hfield
        · split at hfield
          · exact (List.mem_filter.1 (List.mem_of_mem_head? hfield)).1
          · cases hfield
        · cases hfield
      exact ⟨rfl, rfl, by simp [Report.singletonFunction], (h.fields field hmem).name, by simp⟩
  split at hfunction
  · next constructor hconstructor =>
      cases hfunction
      exact h.plainFunction_constructor (List.mem_of_find?_eq_some hconstructor)
  · cases hfunction
    exact h.plainFunction_memberwise

end PlainReport

/-- What is generated for a type of an outline is made of names, types and expressions. -/
theorem plainGeneration_ofDecl {decl : TypeDecl} {source : List Char} {start : Nat}
    {body : List Node} (hmembers : decl.members = placedAll source start body)
    {generation : Generation} (hgeneration : Generation.ofDecl decl = .ok generation) :
    PlainGeneration generation := by
  have hplain := plainReport_ofDecl hmembers
  obtain ⟨hfunction, hhelpers⟩ := Generation.parts_of_ofDecl hgeneration
  exact ⟨fun helper hhelper => hplain.plainHelper (hhelpers ▸ hhelper), hplain.plainFunction hfunction⟩

end Fakery.Outline
