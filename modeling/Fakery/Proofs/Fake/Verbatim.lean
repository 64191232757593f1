import Fakery.Fake.Render
import Fakery.Proofs.Edit.Insertion
import Fakery.Proofs.Text.Lines

/-!
# Expressions in helpers

A helper returns the expression of an annotation.  The lines of the expression behind the
first one are indented like the helper's own, and every line boundary is written as a line
feed.  So the expression can be read back from the helper exactly if line feeds are the only
boundaries in it.
-/

namespace Fakery

open Text

/-! ## Continued lines -/

/-- Lines as a text in which all but the first are indented, unless they are empty. -/
def continued (indent : List Char) : List (List Char) → List Char
  | [] => []
  | first :: rest => joinWith ['\n'] (first :: rest.map (indentLine indent))

/-- A line without an indentation before it; an empty line has none. -/
def unindentLine (indent line : List Char) : List Char :=
  (line.dropPrefix? indent).getD line

/-- A text with the indentation taken from each of its lines but the first. -/
def unindented (indent text : List Char) : List Char :=
  match splitAt '\n' text with
  | [] => []
  | first :: rest => joinWith ['\n'] (first :: rest.map (unindentLine indent))

theorem unindentLine_indentLine (indent line : List Char) :
    unindentLine indent (indentLine indent line) = line := by
  cases line with
  | nil => cases indent <;> rfl
  | cons c line =>
      have hdrop : (indent ++ c :: line).dropPrefix? indent = some (c :: line) :=
        List.dropPrefix?_append_of_beq _ (beq_self_eq_true indent)
      simp [unindentLine, indentLine, hdrop]

theorem feed_not_mem_indentLine {indent line : List Char} (hindent : '\n' ∉ indent)
    (hline : '\n' ∉ line) : '\n' ∉ indentLine indent line := by
  unfold indentLine
  split
  · exact hline
  · rw [List.mem_append, not_or]
    exact ⟨hindent, hline⟩

/-- The indentation of continued lines can be taken away again. -/
theorem unindented_continued {indent : List Char} {lines : List (List Char)}
    (hindent : '\n' ∉ indent) (hlines : ∀ line ∈ lines, '\n' ∉ line) :
    unindented indent (continued indent lines) = joinWith ['\n'] lines := by
  cases lines with
  | nil => rfl
  | cons first rest =>
      obtain ⟨hfirst, hrest⟩ := List.forall_mem_cons.1 hlines
      have hcontinued : ∀ line ∈ first :: rest.map (indentLine indent), '\n' ∉ line := by
        refine List.forall_mem_cons.2 ⟨hfirst, List.forall_mem_map.2 fun line hline => ?_⟩
        exact feed_not_mem_indentLine hindent (hrest line hline)
      rw [unindented, continued, splitAt_joinWith hcontinued (by simp)]
      simp [Function.comp_def, unindentLine_indentLine]

theorem continued_feed (indent first : List Char) (rest : List (List Char)) :
    continued indent (first :: rest) ++ ['\n'] = first ++ '\n' :: stack indent rest := by
  rw [continued, joinWith_feed (by simp), List.flatMap_cons, List.flatMap_map, stack]
  simp

/-- Lines can be read off their continued text, whatever the indentation. -/
theorem continued_inj {indent : List Char} {lines others : List (List Char)}
    (hlines : ∀ line ∈ lines, '\n' ∉ line) (hothers : ∀ line ∈ others, '\n' ∉ line)
    (hne : lines ≠ []) (hne' : others ≠ [])
    (h : continued indent lines = continued indent others) : lines = others := by
  obtain ⟨first, rest, rfl⟩ := List.exists_cons_of_ne_nil hne
  obtain ⟨other, more, rfl⟩ := List.exists_cons_of_ne_nil hne'
  rw [List.forall_mem_cons] at hlines hothers
  have hfed := congrArg (· ++ ['\n']) h
  simp only [continued_feed] at hfed
  have hfirst : first = other := by
    have hsplit := congrArg (splitAt '\n') hfed
    rw [splitAt_append_cons, splitAt_append_cons, splitAt_of_not_mem hlines.1,
      splitAt_of_not_mem hothers.1] at hsplit
    exact (List.cons.inj hsplit).1
  subst hfirst
  have hstack := (List.cons.inj (List.append_cancel_left hfed)).2
  rw [stack_inj hlines.2 hothers.2 hstack]

/-! ## The text of a helper -/

/-- Everything of a helper before its expression. -/
def Helper.opening (unit : String) (helper : Helper) : List Char :=
  ("static func " ++ helper.name ++ "() -> " ++ helper.returnType ++ " \x7b\n" ++ unit
    ++ "return ").toList

theorem toList_indentContinuation (unit text : String) :
    (indentContinuation unit text).toList = continued unit.toList (bareLines text.toList) := by
  unfold indentContinuation
  split
  · next hlines => simp [hlines, continued]
  · next first rest hlines =>
      rw [hlines, continued, String.toList_ofList]
      rfl

theorem continued_append (indent word first : List Char) (rest : List (List Char)) :
    continued indent ((word ++ first) :: rest) = word ++ continued indent (first :: rest) := by
  cases rest <;> simp [continued, joinWith]

theorem bareLines_return {expression : List Char} (hne : expression ≠ []) :
    ∃ first rest, bareLines expression = first :: rest ∧
      bareLines ("return ".toList ++ expression) = ("return ".toList ++ first) :: rest := by
  obtain ⟨line, more, hlines⟩ := List.exists_cons_of_ne_nil (lines_ne_nil hne)
  have hword : ∀ c ∈ "return ".toList, isLineBreak c = false := by
    simpa using List.all_eq_true.1 (by decide : "return ".toList.all (!isLineBreak ·) = true)
  have hkept : "return ".toList.filter (fun c => !isLineBreak c) = "return ".toList := by decide
  refine ⟨_, _, by rw [bareLines, hlines, List.map_cons], ?_⟩
  rw [bareLines, lines_append hword hlines, List.map_cons, List.filter_append, hkept]

theorem Helper.toList_render (unit : String) {helper : Helper}
    (hne : helper.expression.toList ≠ []) :
    (helper.render unit).toList = helper.opening unit ++
      continued unit.toList (bareLines helper.expression.toList) ++ "\n\x7d".toList := by
  obtain ⟨first, rest, hbare, hreturn⟩ := bareLines_return hne
  have hbody : (indentContinuation unit ("return " ++ helper.expression)).toList =
      "return ".toList ++ continued unit.toList (bareLines helper.expression.toList) := by
    rw [toList_indentContinuation, String.toList_append, hreturn, hbare, continued_append]
  rw [Helper.render, toList_joined]
  simp [joinWith, Helper.opening, hbody]

/-- The text of a helper is its opening, a body and a closing brace.  Exactly if line feeds are
the only line boundaries in the expression, the body is the expression with its lines indented,
and taking the indentation away gives the expression back. -/
theorem Helper.render_verbatim_iff (unit : String) (helper : Helper)
    (hne : helper.expression.toList ≠ [])
    (htrim : trim helper.expression.toList = helper.expression.toList) :
    ∃ body, (helper.render unit).toList = helper.opening unit ++ body ++ "\n\x7d".toList ∧
      (body = continued unit.toList (splitAt '\n' helper.expression.toList) ↔
        OnlyFeeds helper.expression.toList) ∧
      ('\n' ∉ unit.toList → (unindented unit.toList body = helper.expression.toList ↔
        OnlyFeeds helper.expression.toList)) := by
  have hlast := getLast?_ne_feed_of_trim htrim
  have hbare : ∀ line ∈ bareLines helper.expression.toList, '\n' ∉ line :=
    fun line hline => feed_not_mem_bareLines hline
  refine ⟨_, Helper.toList_render unit hne, ?_, fun hunit => ?_⟩
  · rw [← bareLines_eq_splitAt_iff hne hlast]
    constructor
    · exact continued_inj hbare (fun line hline => not_mem_of_mem_splitAt hline)
        (bareLines_ne_nil hne) (splitAt_ne_nil _ _)
    · exact congrArg (continued unit.toList)
  · rw [unindented_continued hunit hbare, joinWith_bareLines_eq_iff hne hlast]

/-- A helper whose expression has an empty line and an indented one. -/
def spacedCall : Helper :=
  ⟨"_autoFakeDefault_x", "x", "Int", "f(\n\n  1)"⟩

theorem render_verbatim_iff_spacedCall :
    trim spacedCall.expression.toList = spacedCall.expression.toList ∧
      ∃ body, (spacedCall.render "\t").toList =
          spacedCall.opening "\t" ++ body ++ "\n\x7d".toList ∧
        body = "f(\n\n\t  1)".toList ∧
        unindented "\t".toList body = spacedCall.expression.toList := by
  have htrim : trim spacedCall.expression.toList = spacedCall.expression.toList := by decide
  have hfeeds : OnlyFeeds spacedCall.expression.toList := by
    have hall : spacedCall.expression.toList.all (fun c => !isLineBreak c || c == '\n') = true := by
      decide
    intro c hc hbreak
    simpa [hbreak] using List.all_eq_true.1 hall c hc
  obtain ⟨body, hrender, hbody, hunindented⟩ :=
    Helper.render_verbatim_iff "\t" spacedCall (by decide) htrim
  refine ⟨htrim, body, hrender, (hbody.2 hfeeds).trans (by decide), ?_⟩
  exact (hunindented (by decide)).2 hfeeds

/-- A helper that returns a string literal with a line separator in it. -/
def separatedLiteral : Helper :=
  ⟨"_autoFakeDefault_x", "x", "String", "\"a\u2028b\""⟩

/-- The separator is written as a line feed, and the expression is lost. -/
theorem not_verbatim_separatedLiteral :
    trim separatedLiteral.expression.toList = separatedLiteral.expression.toList ∧
      (separatedLiteral.render "    ").toList =
        separatedLiteral.opening "    " ++ "\"a\n    b\"".toList ++ "\n\x7d".toList ∧
      ∀ body, (separatedLiteral.render "    ").toList =
          separatedLiteral.opening "    " ++ body ++ "\n\x7d".toList →
        unindented "    ".toList body ≠ separatedLiteral.expression.toList := by
  have hrender : (separatedLiteral.render "    ").toList =
      separatedLiteral.opening "    " ++ "\"a\n    b\"".toList ++ "\n\x7d".toList := by
    decide
  refine ⟨by decide, hrender, fun body hbody => ?_⟩
  have hsame : "\"a\n    b\"".toList = body :=
    List.append_cancel_left (List.append_cancel_right (hrender.symm.trans hbody))
  rw [← hsame]
  decide

end Fakery
