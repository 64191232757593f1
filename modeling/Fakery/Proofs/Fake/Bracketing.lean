import Fakery.Proofs.Fake.Verbatim
import Fakery.Proofs.Text.Brackets

/-!
# Brackets of generated members

Generated members are put together from names and from texts that the source brought along.
If the names have no brackets and the texts close what they open, the text of the members does
too, in every layout.  Put into the body of a declaration, it leaves the closing brace to the
opening one.
-/

namespace Fakery

open Text

/-! ## Members made of well-bracketed texts -/

structure Argument.IsBracketed (argument : Argument) : Prop where
  label : ∀ label ∈ argument.label, brackets label.toList = []
  value : WellBracketed argument.value.toList

structure GeneratedParameter.IsBracketed (parameter : GeneratedParameter) : Prop where
  name : brackets parameter.name.toList = []
  type : WellBracketed parameter.type.text.toList
  default : WellBracketed parameter.default.toList

inductive Body.IsBracketed : Body → Prop where
  | selfCall {arguments : List Argument}
      (harguments : ∀ argument ∈ arguments, argument.IsBracketed) :
      (Body.selfCall arguments).IsBracketed
  | memberReturn {member : String} {arguments? : Option (List Argument)}
      (hmember : brackets member.toList = [])
      (harguments : ∀ arguments ∈ arguments?, ∀ argument ∈ arguments, argument.IsBracketed) :
      (Body.memberReturn member arguments?).IsBracketed

structure GeneratedFunction.IsBracketed (function : GeneratedFunction) : Prop where
  name : brackets function.name.toList = []
  parameters : ∀ parameter ∈ function.parameters, parameter.IsBracketed
  body : function.body.IsBracketed
  returnType : WellBracketed function.returnType.toList

structure Helper.IsBracketed (helper : Helper) : Prop where
  name : brackets helper.name.toList = []
  returnType : WellBracketed helper.returnType.toList
  expression : WellBracketed helper.expression.toList

/-- Names, labels and members of enums have no brackets, and types, defaults, values and
expressions close what they open. -/
def GeneratedMember.IsBracketed : GeneratedMember → Prop
  | .helper h => h.IsBracketed
  | .function f => f.IsBracketed

/-! ## The text of one member -/

theorem wellBracketed_joined {separator : String} (hseparator : WellBracketed separator.toList)
    {pieces : List String} (h : ∀ piece ∈ pieces, WellBracketed piece.toList) :
    WellBracketed (joined separator pieces).toList := by
  rw [toList_joined, joinWith_eq_intercalate]
  exact WellBracketed.intercalate hseparator (List.forall_mem_map.2 h)

theorem Argument.IsBracketed.render {argument : Argument} (h : argument.IsBracketed) :
    WellBracketed argument.render.toList := by
  unfold Argument.render
  split
  · next label hlabel =>
      have hname := WellBracketed.of_brackets_eq_nil (h.label label hlabel)
      rw [String.toList_append, String.toList_append]
      exact (hname.append (by decide)).append h.value
  · exact h.value

theorem wellBracketed_renderArguments {arguments : List Argument}
    (h : ∀ argument ∈ arguments, argument.IsBracketed) :
    WellBracketed (renderArguments arguments).toList :=
  wellBracketed_joined (by decide)
    (List.forall_mem_map.2 fun argument hmem => (h argument hmem).render)

theorem GeneratedParameter.IsBracketed.render {parameter : GeneratedParameter}
    (h : parameter.IsBracketed) : WellBracketed parameter.render.toList := by
  have hname := WellBracketed.of_brackets_eq_nil h.name
  simp only [GeneratedParameter.render, String.toList_append]
  exact (((hname.append (by decide)).append h.type).append (by decide)).append h.default

theorem wellBracketed_renderCallSuffix {arguments? : Option (List Argument)}
    (h : ∀ arguments ∈ arguments?, ∀ argument ∈ arguments, argument.IsBracketed) :
    WellBracketed (renderCallSuffix arguments?).toList := by
  cases arguments? with
  | none => rfl
  | some arguments =>
      have hinside := wellBracketed_renderArguments (h arguments rfl)
      simp only [renderCallSuffix, String.toList_append]
      exact hinside.enclosed (rfl : closerOf? '(' = some ')') rfl

/-- A text is read line by line. -/
theorem awaited_joined_feed (waiting : List Char) (lines : List String) :
    awaited waiting (joined "\n" lines).toList =
      lines.foldlM (fun waiting line => awaited waiting line.toList) waiting := by
  rw [toList_joined, joinWith_eq_intercalate]
  induction lines generalizing waiting with
  | nil => rfl
  | cons line lines ih =>
      rw [List.foldlM_cons]
      cases lines with
      | nil =>
          rw [List.map_singleton, List.intercalate_singleton]
          exact (bind_pure _).symm
      | cons next lines =>
          rw [List.map_cons, List.map_cons, List.intercalate_cons_cons, List.append_assoc,
            awaited_append]
          refine congrArg _ (funext fun inner => ?_)
          exact (awaited_cons_of_not_bracket rfl inner _).trans (ih inner)

theorem awaited_toList_append {text : String} (h : WellBracketed text.toList)
    (waiting : List Char) (more : String) :
    awaited waiting (text ++ more).toList = awaited waiting more.toList := by
  rw [String.toList_append, h.awaited_append]

/-- A head, a block behind it and what closes the block. -/
theorem wellBracketed_block {head inside : String} (hhead : WellBracketed head.toList)
    (hinside : WellBracketed inside.toList) :
    WellBracketed (joined "\n" [head ++ " \x7b", inside, "\x7d"]).toList := by
  have hopens : awaited [] (head ++ " \x7b").toList = some ['\x7d'] :=
    awaited_toList_append hhead [] _
  rw [WellBracketed, awaited_joined_feed]
  simp only [List.foldlM_cons, hopens, Option.bind_eq_bind, Option.bind_some, hinside.awaited_eq]
  rfl

/-- The first line of a function without parameters, up to its block. -/
theorem wellBracketed_head {name returnType : String} (hname : WellBracketed name.toList)
    (hreturn : WellBracketed returnType.toList) :
    WellBracketed ("static func " ++ name ++ "() -> " ++ returnType).toList := by
  simp only [String.toList_append]
  refine .append (.append (.append ?_ hname) ?_) hreturn
  all_goals decide

/-! ## Lines that are split again -/

theorem brackets_joinWith_feed (pieces : List (List Char)) :
    brackets (joinWith ['\n'] pieces) = pieces.flatMap brackets := by
  induction pieces with
  | nil => rfl
  | cons piece pieces ih =>
      cases pieces with
      | nil => simp [joinWith]
      | cons next others =>
          rw [joinWith_cons (by simp), brackets_append, brackets_append, ih, List.flatMap_cons]
          exact congrArg (· ++ _) (List.append_nil _)

/-- Splitting a text into lines loses none of its brackets. -/
theorem brackets_bareLines (text : List Char) :
    (bareLines text).flatMap brackets = brackets text := by
  have hbare : ∀ line : List Char, brackets (line.filter (!isLineBreak ·)) = brackets line := by
    intro line
    rw [brackets, List.filter_filter]
    refine List.filter_congr fun c _ => ?_
    cases hbreak : isLineBreak c with
    | false => simp
    | true =>
        have hbracket : isBracket c = false := contains_eq_false (by decide) hbreak
        simp [hbracket]
  calc
    (bareLines text).flatMap brackets = (lines text).flatMap brackets := by
      simp only [bareLines, List.flatMap_map, hbare]
    _ = brackets (lines text).flatten := by
      rw [brackets, List.filter_flatten, List.flatMap_def]
      rfl
    _ = brackets text := by rw [flatten_lines]

theorem brackets_indentContinuation {unit : String} (hunit : brackets unit.toList = [])
    (text : String) : brackets (indentContinuation unit text).toList = brackets text.toList := by
  have hline : ∀ line, brackets (indentLine unit.toList line) = brackets line := by
    intro line
    unfold indentLine
    split <;> simp [hunit]
  rw [toList_indentContinuation, ← brackets_bareLines text.toList]
  cases bareLines text.toList with
  | nil => rfl
  | cons first rest =>
      rw [continued, brackets_joinWith_feed, List.flatMap_cons, List.flatMap_map, List.flatMap_cons]
      simp only [hline]

section Unit

variable {unit : String} (hunit : brackets unit.toList = [])

include hunit

theorem wellBracketed_unit_append {text : String} (h : WellBracketed text.toList) :
    WellBracketed (unit ++ text).toList := by
  rw [String.toList_append]
  exact (WellBracketed.of_brackets_eq_nil hunit).append h

/-- A function with its parameters on a line of their own. -/
theorem wellBracketed_spread {name returnType parameters arguments : String}
    (hname : WellBracketed name.toList) (hreturn : WellBracketed returnType.toList)
    (hparameters : WellBracketed parameters.toList) (harguments : WellBracketed arguments.toList) :
    WellBracketed (joined "\n" ["static func " ++ name ++ "(", unit ++ parameters,
      ") -> " ++ returnType ++ " \x7b", unit ++ "Self(", unit ++ unit ++ arguments, unit ++ ")",
      "\x7d"]).toList := by
  have hindent := WellBracketed.of_brackets_eq_nil hunit
  -- what is awaited behind each of the lines
  have hopens : awaited [] ("static func " ++ name ++ "(").toList = some [')'] := by
    refine awaited_toList_append ?_ [] "("
    rw [String.toList_append]
    exact .append (by decide) hname
  have hparameters := (wellBracketed_unit_append hunit hparameters).awaited_eq [')']
  have hreturns : awaited [')'] (") -> " ++ returnType ++ " \x7b").toList = some ['\x7d'] := by
    rw [String.toList_append, String.toList_append, List.append_assoc, awaited_append]
    exact hreturn.awaited_append [] _
  have hself : awaited ['\x7d'] (unit ++ "Self(").toList = some [')', '\x7d'] :=
    awaited_toList_append hindent _ _
  have harguments : awaited [')', '\x7d'] (unit ++ unit ++ arguments).toList =
      some [')', '\x7d'] := by
    rw [String.append_assoc, awaited_toList_append hindent, awaited_toList_append hindent]
    exact harguments.awaited_eq _
  have hcloses : awaited [')', '\x7d'] (unit ++ ")").toList = some ['\x7d'] :=
    awaited_toList_append hindent _ _
  rw [WellBracketed, awaited_joined_feed]
  simp only [List.foldlM_cons, Option.bind_eq_bind, Option.bind_some, hopens, hparameters, hreturns,
    hself, harguments, hcloses]
  rfl

/-- A generated function whose parts are bracketed is rendered with its brackets matched. -/
theorem GeneratedFunction.IsBracketed.render {function : GeneratedFunction}
    (h : function.IsBracketed) : WellBracketed (function.render unit).toList := by
  have hname := WellBracketed.of_brackets_eq_nil h.name
  have hhead := wellBracketed_head hname h.returnType
  have hbody := h.body
  unfold GeneratedFunction.render
  split
  · next member arguments? heq =>
      rw [heq] at hbody
      cases hbody with
      | memberReturn hmember harguments =>
          refine wellBracketed_block hhead ?_
          simp only [String.toList_append]
          refine .append (.append (.append (.of_brackets_eq_nil hunit) ?_) ?_) ?_
          · decide
          · exact .of_brackets_eq_nil hmember
          · exact wellBracketed_renderCallSuffix harguments
  · next arguments heq =>
      rw [heq] at hbody
      cases hbody with
      | selfCall harguments =>
          have hinside := wellBracketed_renderArguments harguments
          split
          · refine wellBracketed_block hhead ?_
            have hself : awaited [] (unit ++ "Self(").toList = some [')'] :=
              awaited_toList_append (.of_brackets_eq_nil hunit) [] _
            rw [WellBracketed, String.toList_append, String.toList_append, awaited_append,
              awaited_append, hself, Option.bind_some, hinside.awaited_eq]
            rfl
          · refine wellBracketed_spread hunit hname h.returnType ?_ hinside
            refine wellBracketed_joined (by decide) (List.forall_mem_map.2 ?_)
            exact fun parameter hmem => (h.parameters parameter hmem).render

theorem Helper.IsBracketed.render {helper : Helper} (h : helper.IsBracketed) :
    WellBracketed (helper.render unit).toList := by
  refine wellBracketed_block (wellBracketed_head (.of_brackets_eq_nil h.name) h.returnType) ?_
  refine wellBracketed_unit_append hunit ?_
  rw [WellBracketed.congr_brackets (brackets_indentContinuation hunit _), String.toList_append]
  exact .append (by decide) h.expression

theorem GeneratedMember.IsBracketed.render {member : GeneratedMember} (h : member.IsBracketed) :
    WellBracketed (member.render unit).toList := by
  cases member with
  | helper helper => exact Helper.IsBracketed.render hunit h
  | function function => exact GeneratedFunction.IsBracketed.render hunit h

theorem wellBracketed_renderMembers {members : List GeneratedMember}
    (h : ∀ member ∈ members, member.IsBracketed) :
    WellBracketed (renderMembers unit members).toList :=
  wellBracketed_joined (by decide)
    (List.forall_mem_map.2 fun member hmember => (h member hmember).render hunit)

end Unit

/-! ## The body around the members -/

section Site

variable {source : List Char} {site : Site}

theorem brackets_insertion {unit : List Char} (hunit : brackets unit = []) (source : List Char)
    (site : Site) (rendered : List Char) :
    brackets (insertion source site rendered unit).replacement = brackets rendered :=
  filter_replacement_insertion rfl
    (fun _ hc => isBracket_of_isBlank (isBlank_of_isSpaceOrTab hc)) hunit source site rendered

/-- What stands in a body after an edit. -/
def Edit.inside (source : List Char) (site : Site) (edit : Edit) : List Char :=
  slice source (site.bodyStart + 1) edit.start ++ edit.replacement ++
    slice source edit.stop site.bodyEnd

namespace Edit.Stands

variable {edit : Edit} (h : edit.Stands source site)

include h

/-- An edit in a body leaves the braces of the body, and everything outside of them. -/
theorem apply_eq (hopen : source[site.bodyStart]? = some '\x7b')
    (hclose : source[site.bodyEnd]? = some '\x7d') :
    edit.apply source = source.take site.bodyStart ++ '\x7b' ::
      (edit.inside source site ++ '\x7d' :: source.drop (site.bodyEnd + 1)) := by
  have hfront : source.take edit.start = source.take site.bodyStart ++ '\x7b' ::
      slice source (site.bodyStart + 1) edit.start := by
    rw [← take_append_slice source (Nat.succ_le_of_lt h.open_lt), List.take_add_one, hopen]
    simp
  rw [Edit.apply, hfront, ← slice_append_drop source h.stop_le, drop_close hclose, Edit.inside]
  simp

/-- There are only blanks behind an edit, so its brackets come last. -/
theorem brackets_inside : brackets (edit.inside source site) =
    brackets (slice source (site.bodyStart + 1) site.bodyEnd) ++ brackets edit.replacement := by
  have hspaces := brackets_of_isBlank fun c hc => isBlank_of_isSpaceOrTab (h.spaces c hc)
  have hbehind := brackets_of_isBlank fun c hc => (h.behind c hc).1
  rw [← slice_append_slice source (Nat.succ_le_of_lt h.open_lt) (h.start_le.trans h.stop_le),
    ← slice_append_slice source h.start_le h.stop_le, Edit.inside]
  simp [hspaces, hbehind]

end Edit.Stands

end Site

/-- Members of well-bracketed texts are rendered well bracketed, on lines of any indentation
without brackets.  Inserted into a well-bracketed body they leave it well bracketed, with the
brackets of the members behind those of the body, so that the closing brace of the body still
closes the opening one. -/
theorem renderMembers_keeps_brackets (unit : String) (hunit : brackets unit.toList = [])
    (members : List GeneratedMember) (hmembers : ∀ member ∈ members, member.IsBracketed) :
    WellBracketed (renderMembers unit members).toList ∧
    ∀ (source : List Char) (site : Site), site.bodyStart < site.bodyEnd →
      source[site.bodyStart]? = some '\x7b' → source[site.bodyEnd]? = some '\x7d' →
      WellBracketed (slice source (site.bodyStart + 1) site.bodyEnd) →
      ∃ inside,
        Edit.applyAll source
            [insertion source site (renderMembers unit members).toList unit.toList] =
          source.take site.bodyStart ++ '\x7b' ::
            (inside ++ '\x7d' :: source.drop (site.bodyEnd + 1)) ∧
        brackets inside = brackets (slice source (site.bodyStart + 1) site.bodyEnd) ++
          brackets (renderMembers unit members).toList ∧
        WellBracketed inside ∧
        Closes (Edit.applyAll source
            [insertion source site (renderMembers unit members).toList unit.toList])
          site.bodyStart (site.bodyStart + (inside.length + 1)) := by
  have hrendered := wellBracketed_renderMembers hunit hmembers
  refine ⟨hrendered, fun source site hbody hopen hclose hbefore => ?_⟩
  have hlength := (List.getElem?_eq_some_iff.1 hclose).1.le
  have hstands := insertion_stands hbody hopen hlength (renderMembers unit members).toList
    unit.toList
  have happlied := hstands.apply_eq hopen hclose
  have hbrackets := hstands.brackets_inside
  rw [brackets_insertion hunit] at hbrackets
  rw [Edit.applyAll_singleton, happlied]
  have hinside := (WellBracketed.congr_brackets (hbrackets.trans (brackets_append ..).symm)).2
    (hbefore.append hrendered)
  refine ⟨_, rfl, hbrackets, hinside, ?_⟩
  have hcloses := closes_append closerOf?_brace hinside (source.take site.bodyStart)
    (source.drop (site.bodyEnd + 1))
  rwa [List.length_take_of_le (hbody.le.trans hlength)] at hcloses

/-- A helper whose expression breaks its line inside of brackets. -/
def brokenHelper : Helper :=
  ⟨"_autoFakeDefault_x", "x", "[Int: ()]", "f([1:\u2028\x7b $0 \x7d(2)])"⟩

/-- A function with a parameter and a default in brackets. -/
def spreadFunction : GeneratedFunction :=
  ⟨"fake", .memberwiseDefault, [⟨"x", ⟨.array, "[(Int)]", false⟩, "[(0)]"⟩],
    .selfCall [⟨"x", some "x"⟩], "Self"⟩

theorem renderMembers_keeps_brackets_inlineSource :
    brackets "\t".toList = [] ∧ brokenHelper.IsBracketed ∧ spreadFunction.IsBracketed ∧
    inlineSource[10]? = some '\x7b' ∧ inlineSource[23]? = some '\x7d' ∧
    WellBracketed (slice inlineSource 11 23) ∧
    WellBracketed
      (renderMembers "\t" [.helper brokenHelper, .function spreadFunction]).toList ∧
    ∃ inside,
      Edit.applyAll inlineSource [insertion inlineSource inlineSite
          (renderMembers "\t" [.helper brokenHelper, .function spreadFunction]).toList
          "\t".toList] =
        "\tstruct A\n".toList ++ '\x7b' :: (inside ++ "\x7d\n".toList) ∧
      brackets inside = "()[()]\x7b([\x7b\x7d()])\x7d([()][()])\x7b()\x7d".toList ∧
      WellBracketed inside ∧
      Closes ("\tstruct A\n".toList ++ '\x7b' :: (inside ++ "\x7d\n".toList)) 10
        (inside.length + 11) := by
  have hhelper : brokenHelper.IsBracketed := ⟨by decide, by decide, by decide⟩
  have hparameter : GeneratedParameter.IsBracketed ⟨"x", ⟨.array, "[(Int)]", false⟩, "[(0)]"⟩ :=
    ⟨by decide, by decide, by decide⟩
  have hargument : Argument.IsBracketed ⟨"x", some "x"⟩ := ⟨by simp; decide, by decide⟩
  have hfunction : spreadFunction.IsBracketed :=
    ⟨by decide, List.forall_mem_singleton.2 hparameter,
      .selfCall (List.forall_mem_singleton.2 hargument), by decide⟩
  have hopen : inlineSource[10]? = some '\x7b' := by decide
  have hclose : inlineSource[23]? = some '\x7d' := by decide
  have hbefore : WellBracketed (slice inlineSource 11 23) := by decide
  obtain ⟨hrendered, hkeeps⟩ := renderMembers_keeps_brackets "\t" (by decide)
    [.helper brokenHelper, .function spreadFunction]
    (List.forall_mem_cons.2 ⟨hhelper, List.forall_mem_singleton.2 hfunction⟩)
  obtain ⟨inside, happlied, hbrackets, hinside, hcloses⟩ :=
    hkeeps inlineSource inlineSite (by decide) hopen hclose hbefore
  refine ⟨by decide, hhelper, hfunction, hopen, hclose, hbefore, hrendered, inside, happlied,
    hbrackets.trans (by decide +kernel), hinside, ?_⟩
  rw [happlied] at hcloses
  have hstop : inside.length + 11 = 10 + (inside.length + 1) := by omega
  rw [hstop]
  exact hcloses

end Fakery
