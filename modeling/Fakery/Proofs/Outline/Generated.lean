import Fakery.Fake.Render
import Fakery.Proofs.Edit.Patch
import Fakery.Proofs.Outline.Expressions

/-!
# Generated members as outlines

What is generated for an outline is made of names, types and default expressions.  So
every rendered member, indented as a block, is the text of a static function.
-/

namespace Fakery

open Text

namespace Outline

theorem commaText_eq_joinWith (items : List (List Char)) :
    commaText items = joinWith [',', ' '] items := by
  cases items with
  | nil => rfl
  | cons first rest =>
      rw [commaText]
      induction rest generalizing first with
      | nil => simp [joinWith]
      | cons next rest ih =>
          rw [joinWith_cons (by simp), ← ih]
          simp

/-! ## Static functions -/

variable {indent unit : List Char}

def Blank.newLine (indent : Indent) : Blank where
  text := '\n' :: indent.text
  white := by
    rw [List.forall_mem_cons]
    exact ⟨rfl, fun c hc => by rw [indent.blank c hc, Bool.true_or]⟩

theorem isSpaceOrTab_append (hindent : ∀ c ∈ indent, isSpaceOrTab c = true)
    (hunit : ∀ c ∈ unit, isSpaceOrTab c = true) : ∀ c ∈ indent ++ unit, isSpaceOrTab c = true :=
  fun c hc => (List.mem_append.1 hc).elim (hindent c) (hunit c)

/-- A function without parameters and with one line in its block. -/
theorem exists_function_line (hindent : ∀ c ∈ indent, isSpaceOrTab c = true)
    (hunit : ∀ c ∈ unit, isSpaceOrTab c = true) (name : Name) (result : Ty) {statement : Statement}
    (hline : '\n' ∉ statement.text) :
    ∃ function : Function, indentBlock indent (joinWith ['\n']
        ["static func ".toList ++ (name.text ++ ("() -> ".toList ++ (result.text ++ [' ', '\x7b']))),
          unit ++ statement.text, ['\x7d']]) = indent ++ function.text := by
  have hne : statement.text ≠ [] := by
    simp [Statement.text, Expr.text_ne_nil]
  refine ⟨⟨name, .nil, [], .nil, result, .newLine ⟨_, isSpaceOrTab_append hindent hunit⟩, statement,
    .newLine ⟨indent, hindent⟩⟩, ?_⟩
  rw [indentBlock_lines indent (fun one hone => ?_) (by simp)]
  · unfold Function.text
    simp [joinWith, Blank.nil, Blank.newLine, commaText]
  · simp only [List.mem_cons, List.not_mem_nil, or_false] at hone
    rcases hone with rfl | rfl | rfl
    · exact ⟨by simp [name.not_mem_line, result.not_mem_text], by simp⟩
    · exact ⟨by simp [isSpaceOrTab_ne_line hunit, hline], by simp [hne]⟩
    · exact ⟨by decide, by simp⟩

/-- A text of one line that is a parameter with its default value. -/
structure IsParameter (text : List Char) : Prop where
  oneLine : '\n' ∉ text
  exists_param : ∃ param : DefaultParam, param.text = text

theorem IsParameter.ne_nil {text : List Char} (h : IsParameter text) : text ≠ [] := by
  obtain ⟨param, rfl⟩ := h.exists_param
  simp [DefaultParam.text]

theorem exists_params {texts : List (List Char)} (h : ∀ text ∈ texts, IsParameter text) :
    ∃ params : List DefaultParam, params.map DefaultParam.text = texts := by
  induction texts with
  | nil => exact ⟨[], rfl⟩
  | cons text rest ih =>
      rw [List.forall_mem_cons] at h
      obtain ⟨param, rfl⟩ := h.1.exists_param
      obtain ⟨params, rfl⟩ := ih h.2
      exact ⟨param :: params, rfl⟩

theorem commaText_ne_nil {first : List Char} (h : first ≠ []) (rest : List (List Char)) :
    commaText (first :: rest) ≠ [] := by
  simp [commaText, h]

/-- A function with parameters, which hands arguments to an initializer. -/
theorem exists_function_clause (hindent : ∀ c ∈ indent, isSpaceOrTab c = true)
    (hunit : ∀ c ∈ unit, isSpaceOrTab c = true) (name result callee : Name)
    {parameter argument : List Char} {parameters arguments : List (List Char)}
    (hparameters : ∀ text ∈ parameter :: parameters, IsParameter text)
    (harguments : ∀ text ∈ argument :: arguments, IsArgument text) :
    ∃ function : Function, indentBlock indent (joinWith ['\n']
        ["static func ".toList ++ (name.text ++ ['(']), unit ++ commaText (parameter :: parameters),
          ") -> ".toList ++ (result.text ++ [' ', '\x7b']), unit ++ (callee.text ++ ['(']),
          unit ++ (unit ++ commaText (argument :: arguments)), unit ++ [')'], ['\x7d']]) =
      indent ++ function.text := by
  have hdeep := isSpaceOrTab_append hindent hunit
  have hline := isSpaceOrTab_ne_line hunit
  have hparameterLine := not_mem_commaText fun text htext => (hparameters text htext).oneLine
  have hargumentLine := not_mem_commaText fun text htext => (harguments text htext).oneLine
  have hparameter := commaText_ne_nil (hparameters _ List.mem_cons_self).ne_nil parameters
  have hargument := commaText_ne_nil (harguments _ List.mem_cons_self).ne_nil arguments
  obtain ⟨params, hparams⟩ := exists_params hparameters
  obtain ⟨values, hvalues⟩ := exists_arguments harguments
  refine ⟨⟨name, .newLine ⟨_, hdeep⟩, params, .newLine ⟨indent, hindent⟩, .named result,
    .newLine ⟨_, hdeep⟩, .mk false (.call (.name callee)
      (.newLine ⟨_, isSpaceOrTab_append hdeep hunit⟩) values (.newLine ⟨_, hdeep⟩)),
    .newLine ⟨indent, hindent⟩⟩, ?_⟩
  rw [indentBlock_lines indent (fun one hone => ?_) (by simp)]
  · unfold Function.text
    simp [joinWith, Blank.newLine, Ty.text, Statement.text, Expr.text, hparams, hvalues]
  · simp only [List.mem_cons, List.not_mem_nil, or_false] at hone
    rcases hone with rfl | rfl | rfl | rfl | rfl | rfl | rfl
    · exact ⟨by simp [name.not_mem_line], by simp⟩
    · exact ⟨by simp [hline, hparameterLine], by simp [hparameter]⟩
    · exact ⟨by simp [result.not_mem_line], by simp⟩
    · exact ⟨by simp [hline, callee.not_mem_line], by simp⟩
    · exact ⟨by simp [hline, hargumentLine], by simp [hargument]⟩
    · exact ⟨by simp [hline], by simp⟩
    · exact ⟨by decide, by simp⟩

/-! ## Rendered members -/

def IsName (text : String) : Prop :=
  ∃ name : Name, text = String.ofList name.text

def IsType (text : String) : Prop :=
  ∃ type : Ty, text = String.ofList type.text

/-- A helper that consists of a name, a type and an expression on one line. -/
structure PlainHelper (helper : Helper) : Prop where
  name : IsName helper.name
  type : IsType helper.returnType
  expression : IsExpr helper.expression.toList
  oneLine : ∀ c ∈ helper.expression.toList, isLineBreak c = false

/-- A body whose arguments are labels and expressions. -/
def PlainBody (parameters : List GeneratedParameter) : Body → Prop
  | .selfCall arguments => (∀ argument ∈ arguments, IsArgument argument.render.toList) ∧
      (parameters ≠ [] → arguments ≠ [])
  | .memberReturn member arguments => IsName member ∧
      ∀ values ∈ arguments, ∀ argument ∈ values, IsArgument argument.render.toList

/-- A generated function whose parts are names, types and expressions. -/
structure PlainFunction (function : GeneratedFunction) : Prop where
  name_eq : function.name = generatorName
  returnType_eq : function.returnType = "Self"
  parameters : ∀ parameter ∈ function.parameters, IsParameter parameter.render.toList
  body : PlainBody function.parameters function.body

theorem lines_eq_singleton {cs : List Char} (h : ∀ c ∈ cs, isLineBreak c = false)
    (hne : cs ≠ []) : lines cs = [cs] := by
  induction cs with
  | nil => exact absurd rfl hne
  | cons c cs ih =>
      rw [List.forall_mem_cons] at h
      have hreturn : c ≠ '\r' := by
        rintro rfl
        exact absurd h.1 (by decide)
      rw [lines.eq_def]
      split
      · contradiction
      · next heq =>
          cases heq
          exact absurd rfl hreturn
      · next heq =>
          cases heq
          rw [if_neg (by simp [h.1])]
          cases cs with
          | nil => rfl
          | cons d cs => rw [ih h.2 (by simp)]

/-- A text of one line has no line to continue. -/
theorem indentContinuation_eq (unit : String) {text : String}
    (h : ∀ c ∈ text.toList, isLineBreak c = false) (hne : text.toList ≠ []) :
    indentContinuation unit text = text := by
  have hbare : bareLines text.toList = [text.toList] := by
    rw [bareLines, lines_eq_singleton h hne, List.map_singleton, List.filter_eq_self.2]
    intro c hc
    simp [h c hc]
  rw [indentContinuation, hbare]
  simp [joinWith]

def selfName : Name :=
  .ofWord "Self" (by decide)

def fakeName : Name :=
  .ofWord generatorName (by decide)

section Render

variable {indent : List Char} {unit : String} (hindent : ∀ c ∈ indent, isSpaceOrTab c = true)
  (hunit : ∀ c ∈ unit.toList, isSpaceOrTab c = true)

include hindent hunit

/-- A plain helper is rendered as a function of an outline. -/
theorem PlainHelper.exists_function {helper : Helper} (h : PlainHelper helper) :
    ∃ function : Function,
      indentBlock indent (helper.render unit).toList = indent ++ function.text := by
  obtain ⟨name, hname⟩ := h.name
  obtain ⟨type, htype⟩ := h.type
  have hword : ∀ c ∈ "return ".toList, isLineBreak c = false := by
    simpa using (by decide : ("return ".toList.all (!isLineBreak ·)) = true)
  have hreturn : ∀ c ∈ ("return " ++ helper.expression).toList, isLineBreak c = false := by
    intro c hc
    rw [String.toList_append, List.mem_append] at hc
    rcases hc with hc | hc
    · exact hword c hc
    · exact h.oneLine c hc
  obtain ⟨value, hvalue⟩ := h.expression.exists_expr
  have hline : '\n' ∉ (Statement.mk true value).text := by
    simp [Statement.text, hvalue, h.expression.oneLine]
  obtain ⟨function, hfunction⟩ := exists_function_line hindent hunit name type hline
  refine ⟨function, ?_⟩
  rw [← hfunction, Helper.render, toList_joined, indentContinuation_eq unit hreturn (by simp), hname,
    htype]
  simp [Statement.text, hvalue]

omit hindent hunit in
theorem toList_renderArguments (arguments : List Argument) :
    (renderArguments arguments).toList =
      commaText (arguments.map fun argument => argument.render.toList) := by
  rw [renderArguments, toList_joined, commaText_eq_joinWith, List.map_map]
  rfl

omit hindent hunit in
/-- A member with or without arguments is an expression. -/
theorem isExpr_memberCall {member : String} {arguments : Option (List Argument)}
    (hmember : IsName member)
    (h : ∀ values ∈ arguments, ∀ argument ∈ values, IsArgument argument.render.toList) :
    IsExpr ('.' :: (member.toList ++ (renderCallSuffix arguments).toList)) := by
  obtain ⟨name, rfl⟩ := hmember
  have hexpr := isExpr_member name
  cases arguments with
  | none => simpa [renderCallSuffix] using hexpr
  | some values =>
      have hcall := hexpr.call (List.forall_mem_map.2 (h values rfl))
      simpa [renderCallSuffix, toList_renderArguments] using hcall

/-- A plain function is rendered as a function of an outline. -/
theorem PlainFunction.exists_function {function : GeneratedFunction} (h : PlainFunction function) :
    ∃ drawn : Function,
      indentBlock indent (function.render unit).toList = indent ++ drawn.text := by
  have hbody := h.body
  cases hcall : function.body with
  | memberReturn member arguments =>
      rw [hcall] at hbody
      have hmember := isExpr_memberCall hbody.1 hbody.2
      obtain ⟨value, hvalue⟩ := hmember.exists_expr
      have hline : '\n' ∉ (Statement.mk true value).text := by
        simpa [Statement.text, hvalue] using hmember.oneLine
      obtain ⟨drawn, hdrawn⟩ := exists_function_line hindent hunit fakeName (.named selfName) hline
      refine ⟨drawn, ?_⟩
      rw [← hdrawn, GeneratedFunction.render, hcall, h.name_eq, h.returnType_eq]
      simp [toList_joined, fakeName, selfName, Name.ofWord, Ty.text, Statement.text, hvalue]
  | selfCall arguments =>
      rw [hcall] at hbody
      have harguments := List.forall_mem_map.2 hbody.1
      rw [GeneratedFunction.render, hcall, h.name_eq, h.returnType_eq]
      cases hparameters : function.parameters with
      | nil =>
          have hself := (isExpr_name selfName).call harguments
          obtain ⟨value, hvalue⟩ := hself.exists_expr
          have hline : '\n' ∉ (Statement.mk false value).text := by
            simpa [Statement.text, hvalue] using hself.oneLine
          obtain ⟨drawn, hdrawn⟩ := exists_function_line hindent hunit fakeName (.named selfName) hline
          refine ⟨drawn, ?_⟩
          rw [← hdrawn]
          simp [toList_joined, fakeName, selfName, Name.ofWord, Ty.text, Statement.text, hvalue,
            toList_renderArguments]
      | cons first rest =>
          have hparameter := List.forall_mem_map.2 (hparameters ▸ h.parameters)
          obtain ⟨argument, others, rfl⟩ :=
            List.exists_cons_of_ne_nil (hbody.2 (by simp [hparameters]))
          obtain ⟨drawn, hdrawn⟩ := exists_function_clause hindent hunit fakeName selfName selfName
            hparameter harguments
          refine ⟨drawn, ?_⟩
          rw [← hdrawn]
          simp [toList_joined, fakeName, selfName, Name.ofWord, toList_renderArguments,
            commaText_eq_joinWith, Function.comp_def]

end Render

/-- All that is generated is made of names, types and expressions. -/
structure PlainGeneration (generation : Generation) : Prop where
  helpers : ∀ helper ∈ generation.helpers, PlainHelper helper
  function : PlainFunction generation.function

theorem indentBlock_joinWith (indent : List Char) (pieces : List (List Char)) :
    indentBlock indent (joinWith ['\n', '\n'] pieces) =
      joinWith ['\n', '\n'] (pieces.map (indentBlock indent)) := by
  induction pieces with
  | nil => rfl
  | cons piece pieces ih =>
      cases pieces with
      | nil => rfl
      | cons next pieces =>
          have hempty : indentBlock indent [] = [] := rfl
          have hsplit : piece ++ ['\n', '\n'] ++ joinWith ['\n', '\n'] (next :: pieces) =
              piece ++ '\n' :: ([] ++ '\n' :: joinWith ['\n', '\n'] (next :: pieces)) := by
            simp
          rw [joinWith_cons (by simp), hsplit, indentBlock_append, indentBlock_append, hempty, ih,
            @List.map_cons _ _ _ piece (next :: pieces), joinWith_cons (by simp)]
          simp

/-- Functions on lines of their own, with an empty line before each but the first. -/
def functionNodes (above : Nat) (indent : Indent) : List Function → List Node
  | [] => []
  | function :: rest =>
    .function ⟨above, indent⟩ function :: rest.map fun function => .function ⟨1, indent⟩ function

/-- Function nodes are drawn with one blank line between them. -/
theorem linesOf_functionNodes (above : Nat) (indent : Indent) {functions : List Function}
    (hne : functions ≠ []) :
    linesOf (functionNodes above indent functions) = List.replicate above '\n' ++
      (joinWith ['\n', '\n'] (functions.map fun function => indent.text ++ function.text) ++
        ['\n']) := by
  have hrest : ∀ (function : Function) (rest : List Function),
      function.text ++ '\n' :: linesOf (rest.map fun function => .function ⟨1, indent⟩ function) =
        function.text ++ (rest.flatMap (fun function => '\n' :: '\n' :: (indent.text ++ function.text))
          ++ ['\n']) := by
    intro function rest
    induction rest generalizing function with
    | nil => rfl
    | cons next rest ih =>
        rw [List.map_cons, linesOf, Node.bare, ih]
        simp [Node.margin, Margin.text]
  have hjoin : ∀ (first : List Char) (rest : List (List Char)), joinWith ['\n', '\n'] (first :: rest) =
      first ++ rest.flatMap fun piece => '\n' :: '\n' :: piece := by
    intro first rest
    induction rest generalizing first with
    | nil => simp [joinWith]
    | cons next rest ih =>
        rw [joinWith_cons (by simp), ih]
        simp
  cases functions with
  | nil => exact absurd rfl hne
  | cons function rest =>
      rw [functionNodes, linesOf, Node.bare, hrest, List.map_cons, hjoin]
      simp [Node.margin, Margin.text, List.flatMap_map]

/-- The rendered members are the lines of functions. -/
theorem PlainGeneration.exists_functions {generation : Generation}
    (h : PlainGeneration generation) {unit : String}
    (hunit : ∀ c ∈ unit.toList, isSpaceOrTab c = true) (indent : Indent) (above : Nat) :
    ∃ functions : List Function, functions.length = generation.members.length ∧
      List.replicate above '\n' ++
          (indentBlock indent.text (renderMembers unit generation.members).toList ++ ['\n']) =
        linesOf (functionNodes above indent functions) := by
  have hmember : ∀ member ∈ generation.members, ∃ drawn : Function,
      indentBlock indent.text (member.render unit).toList = indent.text ++ drawn.text := by
    intro member hmember
    rcases List.mem_append.1 hmember with hmember | hmember
    · obtain ⟨helper, hhelper, rfl⟩ := List.mem_map.1 hmember
      exact (h.helpers helper hhelper).exists_function indent.blank hunit
    · rw [List.mem_singleton.1 hmember]
      exact h.function.exists_function indent.blank hunit
  have hfunctions : ∀ members : List GeneratedMember, (∀ member ∈ members, ∃ drawn : Function,
      indentBlock indent.text (member.render unit).toList = indent.text ++ drawn.text) →
      ∃ functions : List Function,
        members.map (fun member => indentBlock indent.text (member.render unit).toList) =
          functions.map fun function => indent.text ++ function.text := by
    intro members hmembers
    induction members with
    | nil => exact ⟨[], rfl⟩
    | cons member members ih =>
        rw [List.forall_mem_cons] at hmembers
        obtain ⟨function, hfunction⟩ := hmembers.1
        obtain ⟨functions, hrest⟩ := ih hmembers.2
        exact ⟨function :: functions, by rw [List.map_cons, List.map_cons, hfunction, hrest]⟩
  obtain ⟨functions, hmap⟩ := hfunctions _ hmember
  have hlength : functions.length = generation.members.length := by
    simpa using (congrArg List.length hmap).symm
  have hne : functions ≠ [] := by
    rw [← List.length_pos_iff, hlength, Generation.members]
    simp
  refine ⟨functions, hlength, ?_⟩
  rw [linesOf_functionNodes above indent hne, ← hmap, renderMembers, toList_joined,
    ← List.append_assoc]
  have htwo : "\n\n".toList = ['\n', '\n'] := rfl
  rw [htwo, indentBlock_joinWith, List.map_map, List.map_map, List.append_assoc]
  rfl

end Outline

end Fakery
