import Fakery.Proofs.Outline.Lifting
import Fakery.Source.File
import Fakery.Source.Reader.Language

/-!
# Reading outlines

A type is lifted out of its derivation with all of its members, at any depth.  So a language
that derives the lines of an outline reads them as the declarations of the outline.
-/

namespace Fakery

open Text.Utf8 (isAscii)

namespace Outline

open TreePattern SyntaxNode

section Lift

variable {source : List Char} {node : SyntaxNode} {start : Nat} (hascii : isAscii source = true)

include hascii

/-! ## Types -/

/-- The nodes of an inheritance clause are lifted to the inherited names, in order. -/
theorem inherited_lifted {inherited : List Name} {nodes : List SyntaxNode}
    (hat : At source start (commaText (inherited.map Name.text)))
    (h : admitsAll source (separated (.outside typeFields) (fun start name =>
        [named (.outside typeFields) "inheritance_specifier" start name.text.length])
      (·.text.length) start inherited) nodes = true) :
    (∀ item ∈ nodes, (Slot.outside typeFields).admits item.field = true ∧
      item.kind ≠ "modifiers") ∧
    ((nodes.filter (·.isNamed)).filter (·.kind == "inheritance_specifier")).map (text source) =
      inherited.map fun name => String.ofList name.text := by
  induction inherited generalizing start nodes with
  | nil =>
      rw [separated, admitsAll_nil] at h
      simp [h]
  | cons name others ih =>
      cases others with
      | nil =>
          rw [separated, admitsAll_singleton] at h
          obtain ⟨only, rfl, honly⟩ := h
          obtain ⟨hfield, hkind, hnamed, hfirst, hlast, -⟩ := admits_named.1 honly
          have htext := @text_ascii source name.text only hascii start
            (by simpa [commaText] using hat)
            hfirst hlast
          simp [hfield, hkind, hnamed, htext]
      | cons next others =>
          rw [separated, admitsAll_append] at h
          obtain ⟨_, _, rfl, hown, hmore⟩ := h
          obtain ⟨first, rfl, hadmits⟩ := admitsAll_singleton.1 hown
          obtain ⟨comma, more, rfl, hcomma, hothers⟩ := admitsAll_cons.1 hmore
          rw [List.map_cons, List.map_cons, commaText_cons_cons] at hat
          obtain ⟨hrest, htexts⟩ := ih hat.right.tail.tail hothers
          obtain ⟨hfield, hkind, hnamed, hfirst, hlast, -⟩ := admits_named.1 hadmits
          obtain ⟨hcommaField, hcommaKind, hcommaNamed, -⟩ := admits_token.1 hcomma
          have htext := text_ascii hascii hat.left hfirst hlast
          refine ⟨?_, ?_⟩
          · simpa [hfield, hkind, hcommaField, hcommaKind] using hrest
          · rw [List.map_cons, ← htexts]
            simp [hkind, hnamed, hcommaNamed, htext]

/-- What the nodes between the attributes and the body of a type say. -/
structure HeadLifted (source : List Char) (start : Nat) (keyword : TypeKeyword) (name : Name)
    (inherited : List Name) (word title : SyntaxNode) (rest : List SyntaxNode) : Prop where
  word_field : word.field = some "declaration_kind"
  word_admits : (token (.filling "declaration_kind") (String.ofList keyword.text) start).admits
    source word = true
  word_text : word.text source = String.ofList keyword.text
  title_field : title.field = some "name"
  title_kind : title.kind = "type_identifier"
  title_named : title.isNamed = true
  title_text : title.text source = String.ofList name.text
  rest_outside : ∀ item ∈ rest, (Slot.outside typeFields).admits item.field = true ∧
    item.kind ≠ "modifiers"
  inherited_eq : ((rest.filter (·.isNamed)).filter (·.kind == "inheritance_specifier")).map
    (text source) = inherited.map fun name => String.ofList name.text

/-- The nodes of a type header are its keyword, its name and what it inherits. -/
theorem exists_head {keyword : TypeKeyword} {name : Name} {inherited : List Name}
    {nodes : List SyntaxNode} (hat : At source start (headText keyword name inherited))
    (h : admitsAll source (headPatterns start keyword name inherited) nodes = true) :
    ∃ word title rest, nodes = word :: title :: rest ∧
      HeadLifted source start keyword name inherited word title rest := by
  obtain ⟨word, _, rfl, hword, hmore⟩ := admitsAll_cons.1 h
  obtain ⟨title, rest, rfl, htitle, hrest⟩ := admitsAll_cons.1 hmore
  obtain ⟨hwordField, -, -, hwordStart, hwordStop, -⟩ := admits_token.1 hword
  obtain ⟨htitleField, htitleKind, htitleNamed, htitleStart, htitleStop, -⟩ := admits_named.1 htitle
  rw [Slot.admits, beq_iff_eq] at hwordField htitleField
  rw [String.toList_ofList] at hwordStop
  rw [headText] at hat
  have hwordText := text_ascii hascii hat.left hwordStart hwordStop
  have htitleText := text_ascii hascii hat.right.tail.left htitleStart htitleStop
  refine ⟨word, title, rest, rfl, ?_⟩
  cases inherited with
  | nil =>
      rw [inheritancePatterns, admitsAll_nil] at hrest
      exact ⟨hwordField, hword, hwordText, htitleField, htitleKind, htitleNamed, htitleText,
        by simp [hrest], by simp [hrest]⟩
  | cons first others =>
      obtain ⟨colon, names, rfl, hcolon, hnames⟩ := admitsAll_cons.1 hrest
      obtain ⟨hcolonField, hcolonKind, hcolonNamed, -⟩ := admits_token.1 hcolon
      obtain ⟨houtside, htexts⟩ := inherited_lifted hascii hat.right.tail.right.tail.tail hnames
      refine ⟨hwordField, hword, hwordText, htitleField, htitleKind, htitleNamed, htitleText,
        ?_, ?_⟩
      · exact List.forall_mem_cons.2 ⟨⟨hcolonField, by simp [hcolonKind]⟩, houtside⟩
      · rw [← htexts, List.filter_cons_of_neg (by simp [hcolonNamed])]

/-! ## Nodes -/

theorem member?_function {margin : Margin} {function : Function}
    (h : ((Node.function margin function).pattern start).admits source node = true) :
    member? source node = .ok (some ((Node.function margin function).placed source start)) := by
  rw [Node.pattern, admits_named] at h
  obtain ⟨-, hkind, -, hstart, hstop, -⟩ := h
  rw [member?_of_not_isType (by simp [isType, hkind]), plainMember?, if_neg (by simp [hkind]),
    if_neg (by simp [hkind]), if_neg (by simp [hkind]), if_neg (by simp [hkind]), hkind,
    start_ascii hascii, stop_ascii hascii, hstart, hstop, Node.placed, Node.text,
    List.length_append, ← Nat.add_assoc]
  rfl

omit hascii in
/-- A member of an outline is a named node that is no comment and no directive. -/
theorem Node.isMember_of_admits {outline : Node}
    (h : (outline.pattern start).admits source node = true) :
    (!node.isNamed || node.isTrivia) = false ∧ (node.kind == "directive") = false := by
  cases outline with
  | function margin function =>
      obtain ⟨-, hkind, hnamed, -⟩ := admits_named.1 h
      simp [hkind, hnamed, isTrivia]
  | _ =>
      rw [Node.pattern, admits_node] at h
      simp [h.2.1, h.2.2.1, isTrivia]

omit hascii in
theorem separate_members (members : List Member) :
    separate 0 (members.map Item.member) = (members, []) := by
  induction members with
  | nil => rfl
  | cons first rest ih => simp [separate, ih]

omit hascii in
/-- The children of a type by the fields that they fill. -/
theorem HeadLifted.child?_eq {keyword : TypeKeyword} {name : Name} {inherited : List Name}
    {word title block : SyntaxNode} {fronts rest : List SyntaxNode}
    (h : HeadLifted source start keyword name inherited word title rest)
    (hfronts : ∀ item ∈ fronts, (Slot.outside typeFields).admits item.field = true)
    (hblock : block.field = some "body")
    (hchildren : node.children = fronts ++ (word :: title :: rest ++ [block])) :
    node.child? "declaration_kind" = some word ∧ node.child? "name" = some title ∧
      node.child? "body" = some block := by
  simp only [child?, hchildren]
  rw [find?_outside (by decide) hfronts, find?_outside (by decide) hfronts,
    find?_outside (by decide) hfronts]
  have hrest := @find?_outside typeFields "body" rest [block] (by decide)
    fun item hitem => (h.rest_outside item hitem).1
  simp [h.word_field, h.title_field, hrest, hblock]

/-- A type is lifted with its header, from what is in its body. -/
theorem member?_type {front : Front} {keyword : TypeKeyword} {name : Name} {inherited : List Name}
    {body : List Node} {last : Indent}
    (hat : At source start (Node.type front keyword name inherited body last).text)
    (h : ((Node.type front keyword name inherited body last).pattern start).admits source node =
      true)
    (hbody : ∀ {offset : Nat} {nodes tail : List SyntaxNode}, At source offset (linesOf body) →
      admitsAll source (patternsOf offset body) nodes = true → items source tail = .ok [] →
      items source (nodes ++ tail) = .ok ((placedAll source offset body).map Item.member)) :
    member? source node =
      .ok (some ((Node.type front keyword name inherited body last).placed source start)) := by
  rw [Node.pattern, admits_node] at h
  obtain ⟨-, hkind, -, hstart, hstop, -, hadmits⟩ := h
  obtain ⟨fronts, _, hchildren, hfronts, hrest⟩ := admitsAll_append.1 hadmits
  obtain ⟨_, _, rfl, hheads, hblocks⟩ := admitsAll_append.1 hrest
  obtain ⟨block, rfl, hblock⟩ := admitsAll_singleton.1 hblocks
  obtain ⟨hblockField, hblockKind, hblockNamed, hblockStart, -, -, hinside⟩ := admits_node.1 hblock
  obtain ⟨opening, _, hblockChildren, hopening, hinside⟩ := admitsAll_cons.1 hinside
  obtain ⟨nodes, _, rfl, hnodes, hclosings⟩ := admitsAll_append.1 hinside
  obtain ⟨closing, rfl, hclosing⟩ := admitsAll_singleton.1 hclosings
  rw [Slot.admits, beq_iff_eq] at hblockField
  have hmodifiers := of_mem_modifiers hfronts
  have hbare : At source (start + front.margin.text.length) (front.marks.flatMap Mark.text ++
      (headText keyword name inherited ++ ' ' :: '\x7b' :: '\n' ::
        (linesOf body ++ (last.text ++ ['\x7d'])))) := hat.right
  have hhead := hbare.right
  rw [← Front.add_length_text] at hhead
  obtain ⟨word, title, rest, rfl, hlifted⟩ := exists_head hascii hhead.left hheads
  have hitems : items source block.children = .ok ((placedAll source (start + front.text.length +
      (headText keyword name inherited).length + 1 + 2) body).map Item.member) := by
    rw [hblockChildren, items, if_pos (by simp [(admits_token.1 hopening).2.2.1])]
    refine hbody hhead.right.tail.tail.tail.left hnodes ?_
    rw [items, if_pos (by simp [(admits_token.1 hclosing).2.2.1])]
    rfl
  obtain ⟨hword, htitle, hbodyChild⟩ := hlifted.child?_eq
    (fun item hitem => (hmodifiers item hitem).2) hblockField hchildren
  obtain ⟨-, hwordKind, hwordNamed, hwordStart, -, hwordRow⟩ := admits_token.1 hlifted.word_admits
  have hkinds : ∀ item ∈ word :: title :: rest ++ [block], item.kind ≠ "modifiers" := by
    have hrest := fun item hitem => (hlifted.rest_outside item hitem).2
    refine List.forall_mem_append.2
      ⟨List.forall_mem_cons.2 ⟨?_, List.forall_mem_cons.2 ⟨?_, hrest⟩⟩,
      List.forall_mem_singleton.2 ?_⟩
    · rw [hwordKind]
      cases keyword <;> decide
    · simp [hlifted.title_kind]
    · rw [hblockKind]
      cases keyword <;> decide
  obtain ⟨hattributes, hmodified⟩ := @front_lifted source node _ hascii _ front.marks false fronts _
    (by simpa [staticText] using hbare.left) hfronts hkinds hchildren
  have hinherited : (node.namedChildren.filter (·.kind == "inheritance_specifier")).map
      (text source) = inherited.map fun name => String.ofList name.text := by
    have hnone : (fronts.filter (·.isNamed)).filter (·.kind == "inheritance_specifier") = [] :=
      List.filter_eq_nil_iff.2 fun item hitem => by
        simp [(hmodifiers item (List.mem_filter.1 hitem).1).1]
    have hbodyKind : keyword.bodyKind ≠ "inheritance_specifier" := by
      cases keyword <;> decide
    rw [← hlifted.inherited_eq, namedChildren, hchildren, List.filter_append, List.filter_append,
      hnone, List.nil_append]
    simp [hwordNamed, hlifted.title_kind, hlifted.title_named, hblockNamed, hblockKind, hbodyKind]
  have hlast : block.lastStart source = start + front.text.length +
      (headText keyword name inherited).length + 1 + 2 + (linesOf body).length +
        last.text.length := by
    rw [lastStart, hblockChildren, ← List.cons_append, List.getLast?_concat, Option.map_some,
      Option.getD_some, start_ascii hascii, (admits_token.1 hclosing).2.2.2.1, Nat.add_assoc _ _
        last.text.length]
  refine (member?_of_isType (by simp [isType, hkind])).2
    ⟨word, block, _, hword, hbodyChild, hitems, ?_⟩
  rw [separate_members, header, hlifted.word_text, htitle, hattributes, hmodified, hinherited,
    hlast, Option.map_some, Option.getD_some, hlifted.title_text, start_ascii hascii,
    start_ascii hascii, start_ascii hascii, hstart, hwordStart, hblockStart, hwordRow, Node.placed]
  rfl

end Lift

mutual

/-- The member that is lifted out of the node of an outline. -/
theorem Node.member?_eq {source : List Char} (hascii : isAscii source = true) :
    ∀ (outline : Node) {start : Nat} {node : SyntaxNode},
    At source start outline.text → (outline.pattern start).admits source node = true →
    member? source node = .ok (some (outline.placed source start))
  | .property .., _, _, hat, h => member?_property hascii hat h
  | .cases .., _, _, hat, h => member?_cases hascii hat h
  | .initializer .., _, _, hat, h => member?_initializer hascii hat h
  | .function .., _, _, _, h => member?_function hascii h
  | .type _ _ _ _ body _, _, _, hat, h => member?_type hascii hat h (items_patternsOf hascii body)

/-- The items that are lifted out of the nodes of an outline. -/
theorem items_patternsOf {source : List Char} (hascii : isAscii source = true) :
    ∀ (outlines : List Node) {start : Nat} {nodes tail : List SyntaxNode},
    At source start (linesOf outlines) → admitsAll source (patternsOf start outlines) nodes = true →
    items source tail = .ok [] →
    items source (nodes ++ tail) = .ok ((placedAll source start outlines).map Item.member)
  | [], _, nodes, tail, _, h, htail => by
      rw [patternsOf, admitsAll_nil] at h
      rw [h]
      exact htail
  | outline :: rest, start, nodes, tail, hat, h, htail => by
      obtain ⟨first, others, rfl, hfirst, hothers⟩ := admitsAll_cons.1 h
      rw [linesOf_cons] at hat
      have hmember := outline.member?_eq hascii hat.left hfirst
      have hmore := items_patternsOf hascii rest hat.right.tail hothers htail
      obtain ⟨hnamed, hdirective⟩ := Node.isMember_of_admits hfirst
      refine items_cons.2 ⟨_, hmore, ?_⟩
      rw [hnamed, hdirective]
      exact ⟨_, hmember, rfl⟩

end

/-! ## Files -/

theorem isSome_typeDecl? {source : List Char} {start : Nat} {sheet : List Node}
    (hfits : allFit .file sheet = true) :
    ∀ found ∈ placedAll source start sheet, found.typeDecl?.isSome = true := by
  induction sheet generalizing start with
  | nil => simp [placedAll]
  | cons node rest ih =>
      rw [allFit, Bool.and_eq_true] at hfits
      intro found hfound
      rcases List.mem_cons.1 hfound with rfl | hfound
      · cases node with
        | type front keyword name inherited body last => rfl
        | _ => exact absurd hfits.1 (by simp [Node.fits])
      · exact ih hfits.2 found hfound

theorem toMember_typeDecl? {members : List Member}
    (htypes : ∀ found ∈ members, found.typeDecl?.isSome = true) :
    (members.filterMap Member.typeDecl?).map TypeDecl.toMember = members := by
  induction members with
  | nil => rfl
  | cons first rest ih =>
      have hfirst := htypes first (by simp)
      cases first with
      | type header members conditional =>
          simp [Member.typeDecl?, TypeDecl.toMember, ih fun found hmem => htypes found (by simp [hmem])]
      | _ => exact absurd hfirst (by simp [Member.typeDecl?])

theorem start_typeDecl? {found : Member} {decl : TypeDecl} (h : found.typeDecl? = some decl) :
    decl.header.start = found.start := by
  cases found with
  | type header members conditional =>
      cases h
      rfl
  | _ => simp [Member.typeDecl?] at h

/-- The start of a placed node lies in its text. -/
theorem start_placed (source : List Char) (start : Nat) (node : Node) :
    (node.placed source start).start = start + node.margin.text.length := by
  cases node <;> rfl

theorem start_le_of_mem_placedAll {source : List Char} {start : Nat} {nodes : List Node}
    {found : Member} (hmem : found ∈ placedAll source start nodes) : start ≤ found.start := by
  induction nodes generalizing start with
  | nil => simp [placedAll] at hmem
  | cons node rest ih =>
      rcases List.mem_cons.1 hmem with rfl | hmem
      · rw [start_placed]
        omega
      · have hstart := ih hmem
        omega

/-- Placed nodes stand one behind the other. -/
theorem pairwise_placedAll (source : List Char) (start : Nat) (nodes : List Node) :
    (placedAll source start nodes).Pairwise fun a b => a.start ≤ b.start := by
  induction nodes generalizing start with
  | nil => exact .nil
  | cons node rest ih =>
      refine .cons (fun found hmem => ?_) (ih _)
      have hstart := start_le_of_mem_placedAll hmem
      rw [start_placed]
      simp only [Node.text, List.length_append] at hstart
      omega

section Files

variable {language : Language} {sheet : List Node}

/-- The lines of an outline are read as its declarations with their places. -/
theorem exists_parse_linesOf (hfits : allFit .file sheet = true)
    (hderives : language.Derives sheet) :
    ∃ decls, parse language (linesOf sheet) = .ok decls ∧
      decls.map TypeDecl.toMember = placedAll (linesOf sheet) 0 sheet := by
  have htypes := @isSome_typeDecl? (linesOf sheet) 0 sheet hfits
  have hat : At (linesOf sheet) 0 (linesOf sheet) := List.prefix_rfl
  have hitems := items_patternsOf (isAscii_linesOf sheet) sheet hat hderives.admitted
    (@rfl _ (items (linesOf sheet) []))
  have hsorted : ((placedAll (linesOf sheet) 0 sheet).filterMap Member.typeDecl?).Pairwise
      fun a b => decide (a.header.start ≤ b.header.start) = true := by
    refine (pairwise_placedAll (linesOf sheet) 0 sheet).filterMap Member.typeDecl? ?_
    intro a b hab first hfirst second hsecond
    rw [← start_typeDecl? hfirst, ← start_typeDecl? hsecond] at hab
    exact decide_eq_true hab
  refine ⟨_, ?_, toMember_typeDecl? htypes⟩
  rw [List.append_nil, ← innerItems_eq] at hitems
  simp only [parse, hderives.hasError_eq, hitems, Bool.false_eq_true, if_false, bind, Except.bind,
    separate_members, List.append_nil, List.mergeSort_of_pairwise hsorted]
  rfl

/-- Without their places, the declarations in the lines of an outline are those it stands for. -/
theorem map_withoutPlaces {decls : List TypeDecl}
    (h : decls.map TypeDecl.toMember = placedAll (linesOf sheet) 0 sheet) :
    decls.map (fun decl => decl.toMember.withoutPlaces) = membersOf sheet := by
  rw [← withoutPlaces_placedAll (linesOf sheet) 0 sheet, ← h, withoutPlacesAll_eq_map,
    List.map_map]
  rfl

/-- A language that derives the lines of an outline reads them as the declarations that the
outline stands for, each in its place. -/
theorem parse_linesOf (hfits : allFit .file sheet = true) (hderives : language.Derives sheet) :
    ∃ decls, parse language (linesOf sheet) = .ok decls ∧
      decls.map TypeDecl.toMember = placedAll (linesOf sheet) 0 sheet ∧
      decls.map (fun decl => decl.toMember.withoutPlaces) = membersOf sheet := by
  obtain ⟨decls, hparse, hdecls⟩ := exists_parse_linesOf hfits hderives
  exact ⟨decls, hparse, hdecls, map_withoutPlaces hdecls⟩

end Files

/-- An enum with attributes, case lines, a property, an initializer and a nested type. -/
def shapeOutline : List Node :=
  let indent : Indent := ⟨[' ', ' '], List.all_eq_true.1 (by decide)⟩
  let top : Margin := ⟨0, ⟨[], by simp⟩⟩
  let inner : Margin := ⟨1, indent⟩
  let int : Ty := .named (.ofWord "Int" (by decide))
  let name : Name := .ofWord "name" (by decide)
  let seed : Mark := ⟨.ofWord "Seed" (by decide),
    some ⟨⟨['4', '2'], by simp, List.all_eq_true.1 (by decide)⟩, true⟩, .line indent⟩
  [.type ⟨top, [seed, ⟨name, none, .space⟩]⟩ .enumType (.ofWord "Shape" (by decide))
    [.ofWord "Codable" (by decide), .ofWord "Hashable" (by decide)]
    [.cases ⟨inner, []⟩ ⟨name, some [⟨some name, .dictionary int (.array int)⟩, ⟨none, int⟩]⟩
        [⟨.ofWord "dot" (by decide), none⟩],
      .property ⟨inner, [seed]⟩ true false name
        (.optional (.generic (.ofWord "Result" (by decide)) int [.array int])),
      .initializer ⟨top, []⟩ [⟨.unlabelled name, int⟩, ⟨.labelled name name, int⟩] (some .space),
      .type ⟨inner, []⟩ .structType (.ofWord "Inner" (by decide)) [] [] indent]
    indent]

theorem parse_linesOf_shapeOutline :
    allFit .file shapeOutline = true ∧ swift.Derives shapeOutline ∧
    ∃ decls, parse swift (linesOf shapeOutline) = .ok decls ∧
      decls.map TypeDecl.toMember = placedAll (linesOf shapeOutline) 0 shapeOutline ∧
      decls.map (fun decl => decl.toMember.withoutPlaces) = membersOf shapeOutline := by
  have hderives : swift.Derives shapeOutline := by decide +kernel
  exact ⟨rfl, hderives, parse_linesOf rfl hderives⟩

end Outline

end Fakery
