import Fakery.Proofs.Source.Faithful

/-!
# Lifted declarations

The declarations that are lifted out of a faithful tree stand in its text: what is counted in
bytes lies inside each other and behind each other, so what is counted in characters does.
-/

namespace Fakery

open Text (slice)

open Text.Utf8 (encode IsBoundary)

namespace SyntaxNode

variable {source : List Char} {node : SyntaxNode}

/-! ## Places in characters -/

theorem stop_le_start {a b : SyntaxNode} (ha : a.Placed source) (hb : b.Placed source)
    (hab : a.endByte ≤ b.startByte) : a.stop source ≤ b.start source :=
  charOf_le ha.stop_boundary hb.start_boundary hab

namespace Placed

variable (h : node.Placed source)

include h

theorem stop_le_length : node.stop source ≤ source.length :=
  (exists_charOf h.stop_boundary).1

theorem start_lt_stop (hlt : node.startByte < node.endByte) :
    node.start source < node.stop source :=
  charOf_lt h.start_boundary h.stop_boundary hlt

/-- What stands in a node lies inside of it in characters as in bytes. -/
theorem bounds {part : SyntaxNode} (hpart : part.Placed source) (hmem : part ∈ node.children) :
    node.start source ≤ part.start source ∧ part.stop source ≤ node.stop source := by
  obtain ⟨hstart, hstop⟩ := h.inside part hmem
  exact ⟨charOf_le h.start_boundary hpart.start_boundary hstart,
    charOf_le hpart.stop_boundary h.stop_boundary hstop⟩

theorem toList_text :
    (node.text source).toList = slice source (node.start source) (node.stop source) := by
  have hoffset : ∀ {byte : Nat}, IsBoundary (encode source) byte →
      Text.Utf8.charOffset? source byte = some (charOf source byte) := by
    intro byte hbyte
    obtain ⟨hle, heq⟩ := exists_charOf hbyte
    rw [Text.Utf8.charOffset?_eq hbyte.1]
    conv_lhs => rw [heq]
    exact Text.Utf8.getElem?_charOffsets_take source hle
  rw [text, Text.Utf8.textBetween?_eq (hoffset h.start_boundary) (hoffset h.stop_boundary),
    Option.getD_some, String.toList_ofList]
  rfl

/-- The first character of the text of a node stands where the node begins. -/
theorem getElem?_start {c : Char} (hc : (node.text source).toList.head? = some c) :
    source[node.start source]? = some c ∧ node.start source < node.stop source := by
  rw [h.toList_text] at hc
  have hlt : node.start source < node.stop source := by
    by_contra hge
    rw [slice, List.drop_eq_nil_of_le (by rw [List.length_take]; omega)] at hc
    cases hc
  rw [List.head?_eq_getElem?, Text.getElem?_slice _ (by omega), Nat.add_zero] at hc
  exact ⟨hc, hlt⟩

theorem getElem?_last {c : Char} (hc : (node.text source).toList.getLast? = some c) :
    source[node.stop source - 1]? = some c := by
  have hlt : node.start source < node.stop source := by
    by_contra hge
    rw [h.toList_text, slice, List.drop_eq_nil_of_le (by rw [List.length_take]; omega)] at hc
    cases hc
  have hlength := h.stop_le_length
  have hsize : (slice source (node.start source) (node.stop source)).length =
      node.stop source - node.start source := by
    rw [slice, List.length_drop, List.length_take_of_le hlength]
  rw [h.toList_text, List.getLast?_eq_getElem?, hsize, Text.getElem?_slice _ (by omega)] at hc
  rw [← hc]
  congr 1
  omega

theorem stop_eq_of_text {c : Char} (hc : node.text source = String.ofList [c]) :
    node.stop source = node.start source + 1 := by
  have hlength := congrArg List.length h.toList_text
  have hle := h.stop_le_length
  have hhead : (node.text source).toList.head? = some c := by rw [hc]; simp
  have hlt := (h.getElem?_start hhead).2
  rw [hc, String.toList_ofList, slice, List.length_drop, List.length_take_of_le hle] at hlength
  simp only [List.length_singleton] at hlength
  omega

/-- The row of a node counts the lines before it. -/
theorem row_eq : node.startPoint.row = (source.take (node.start source)).count '\n' := by
  have hbyte : node.startByte = (encode (source.take (node.start source))).length :=
    (exists_charOf h.start_boundary).2
  have hsplit : encode source = encode (source.take (node.start source)) ++
      encode (source.drop (node.start source)) := by
    rw [← Text.Utf8.encode_append, List.take_append_drop]
  rw [h.row, hsplit, List.take_left' hbyte.symm, Text.Utf8.count_newline_encode]

end Placed

/-! ## Attributes -/

theorem mem_modifierNodes {item : SyntaxNode} (h : item ∈ node.modifierNodes) :
    ∃ group ∈ node.children, group.kind = "modifiers" ∧ item ∈ group.children := by
  obtain ⟨group, hgroup, hitem⟩ := List.mem_flatMap.1 h
  rw [List.mem_filter, beq_iff_eq] at hgroup
  exact ⟨group, hgroup.1, hgroup.2, (List.mem_filter.1 hitem).1⟩

/-- The children of a body between its two braces. -/
theorem IsBraced.exists_braces {body : SyntaxNode} (h : IsBraced source body) :
    ∃ opening inside closing, body.children = opening :: (inside ++ [closing]) ∧
      opening.isNamed = false ∧ closing.isNamed = false ∧
      opening.text source = "\x7b" ∧ closing.text source = "\x7d" ∧
      opening.startByte = body.startByte := by
  obtain ⟨htwo, hopening, hclosing, -⟩ := h
  obtain ⟨opening, hfirst, hopening⟩ := Option.map_eq_some_iff.1 hopening
  obtain ⟨closing, hlast, hclosing⟩ := Option.map_eq_some_iff.1 hclosing
  obtain ⟨hopenNamed, hopenText, hstart⟩ := by simpa only [Prod.mk.injEq] using hopening
  obtain ⟨hcloseNamed, hcloseText⟩ := by simpa only [Prod.mk.injEq] using hclosing
  obtain ⟨rest, hrest⟩ := List.head?_eq_some_iff.1 hfirst
  have hne : rest ≠ [] := by
    rintro rfl
    rw [hrest, List.length_singleton] at htwo
    omega
  rw [hrest, List.getLast?_cons, List.getLast?_eq_some_getLast hne, Option.getD_some,
    Option.some.injEq] at hlast
  refine ⟨opening, rest.dropLast, closing, ?_, hopenNamed, hcloseNamed, hopenText, hcloseText,
    hstart⟩
  rw [hrest, ← hlast, List.dropLast_append_getLast hne]

namespace Faithful

theorem modifierNodes_inOrder (h : Faithful source node) :
    node.modifierNodes.Pairwise fun a b => a.endByte ≤ b.startByte := by
  rw [modifierNodes, List.pairwise_flatMap]
  constructor
  · intro group hgroup
    exact (h.child (List.mem_filter.1 hgroup).1).placed.inOrder.filter _
  · refine (h.placed.inOrder.filter _).imp_of_mem fun {a b} ha hb hab x hx y hy => ?_
    have hleft := (h.child (List.mem_filter.1 ha).1).placed.inside x (List.mem_filter.1 hx).1
    have hright := (h.child (List.mem_filter.1 hb).1).placed.inside y (List.mem_filter.1 hy).1
    omega

/-- The attributes of a declaration stand in order before its keyword. -/
theorem attributesStand (h : Faithful source node) {keyword : SyntaxNode}
    (hmem : keyword ∈ node.children) (hkeyword : IsKeywordOf source node keyword) :
    AttributesStand source (node.start source) (keyword.start source)
      (node.attributes source) := by
  have hplace := (h.child hmem).placed
  -- every attribute comes from a node between the start of the declaration and its keyword
  have hfound : ∀ found ∈ node.attributes source, ∃ item, found = toAttribute source item ∧
      item.kind = "attribute" ∧ Faithful source item ∧ node.start source ≤ item.start source ∧
      item.stop source ≤ keyword.start source := by
    intro found hfound
    obtain ⟨item, hitem, rfl⟩ := List.mem_map.1 hfound
    rw [List.mem_filter, beq_iff_eq] at hitem
    obtain ⟨group, hgroup, hkind, hmem⟩ := mem_modifierNodes hitem.1
    have hfaithful := h.child hgroup
    have hinner := hfaithful.child hmem
    have houter := h.placed.bounds hfaithful.placed hgroup
    have hbounds := hfaithful.placed.bounds hinner.placed hmem
    have hbehind := stop_le_start hfaithful.placed hplace (hkeyword.behind group hgroup hkind)
    exact ⟨item, rfl, hitem.2, hinner, by omega, by omega⟩
  constructor
  · intro found hmem
    obtain ⟨item, rfl, hkind, hitem, hlow, hhigh⟩ := hfound found hmem
    exact ⟨hlow, (hitem.placed.getElem?_start (hitem.shaped.attributeText hkind).1).2, hhigh⟩
  · intro found hmem
    obtain ⟨item, rfl, hkind, hitem, -, -⟩ := hfound found hmem
    exact (hitem.placed.getElem?_start (hitem.shaped.attributeText hkind).1).1
  · intro found hmem
    obtain ⟨item, rfl, hkind, hitem, -, -⟩ := hfound found hmem
    obtain ⟨hmark, hlast⟩ := hitem.shaped.attributeText hkind
    cases hc : (item.text source).toList.getLast? with
    | none =>
        rw [List.getLast?_eq_none_iff.1 hc] at hmark
        cases hmark
    | some c => exact ⟨c, hitem.placed.getElem?_last hc, hlast c hc⟩
  · rw [attributes, List.pairwise_map]
    refine (h.modifierNodes_inOrder.filter _).imp_of_mem fun {a b} ha hb hab => ?_
    obtain ⟨left, hleft, -, ha⟩ := mem_modifierNodes (List.mem_filter.1 ha).1
    obtain ⟨right, hright, -, hb⟩ := mem_modifierNodes (List.mem_filter.1 hb).1
    exact stop_le_start ((h.child hleft).child ha).placed ((h.child hright).child hb).placed hab

/-! ## Members -/

theorem property_stands (h : Faithful source node) (hkind : node.kind = "property_declaration") :
    (node.toProperty source).Stands source := by
  obtain ⟨keyword, hmem, hkeyword⟩ := h.shaped.property hkind
  have hplace := (h.child hmem).placed
  obtain ⟨c, hc, hblank⟩ := Option.map_eq_some_iff.1 hkeyword.begins
  obtain ⟨hstart, hlt⟩ := hplace.getElem?_start hc
  have hbounds := h.placed.bounds hplace hmem
  refine ⟨keyword.start source, ?_, ⟨c, hstart, hblank⟩, h.attributesStand hmem hkeyword⟩
  exact lt_of_lt_of_le hlt hbounds.2

/-- The braces of a body are its first and its last character, and what has a name stands
between them. -/
theorem braces_stand {body : SyntaxNode} (h : Faithful source body)
    (hbraced : IsBraced source body) :
    source[body.start source]? = some '\x7b' ∧ source[body.lastStart source]? = some '\x7d' ∧
      body.start source < body.lastStart source ∧ body.lastStart source < body.stop source ∧
      ∀ part ∈ body.children, part.isNamed = true →
        body.start source < part.start source ∧ part.stop source ≤ body.lastStart source := by
  obtain ⟨opening, inside, closing, hchildren, hfirst, hlast, hopen, hclose, hstart⟩ :=
    hbraced.exists_braces
  have hopening := (h.child (show opening ∈ body.children by simp [hchildren])).placed
  have hclosingMem : closing ∈ body.children := by simp [hchildren]
  have hclosing := (h.child hclosingMem).placed
  have hstart_eq : body.start source = opening.start source := by rw [start, start, hstart]
  have hlast_eq : body.lastStart source = closing.start source := by
    simp [lastStart, hchildren, List.getLast?_cons]
  have horder := h.placed.inOrder
  rw [hchildren, List.pairwise_cons, List.pairwise_append] at horder
  have hopeningStop := hopening.stop_eq_of_text hopen
  have hclosingStop := hclosing.stop_eq_of_text hclose
  have hbetween := stop_le_start hopening hclosing (horder.1 closing (by simp))
  have hclosing_le := (h.placed.bounds hclosing hclosingMem).2
  rw [hstart_eq, hlast_eq]
  refine ⟨(hopening.getElem?_start (by rw [hopen]; rfl)).1,
    (hclosing.getElem?_start (by rw [hclose]; rfl)).1, by omega, by omega, ?_⟩
  intro part hpart hnamed
  have hplace := (h.child hpart).placed
  rw [hchildren, List.mem_cons, List.mem_append, List.mem_singleton] at hpart
  rcases hpart with rfl | hpart | rfl
  · rw [hfirst] at hnamed
    cases hnamed
  · have hafter := stop_le_start hopening hplace (horder.1 part (by simp [hpart]))
    have hbefore := stop_le_start hplace hclosing (horder.2.2.2 part hpart closing (by simp))
    omega
  · rw [hlast] at hnamed
    cases hnamed

/-- The header lifted from a faithful node stands in the source. -/
theorem header_stands (h : Faithful source node) {keyword body : SyntaxNode}
    (hmem : keyword ∈ node.children) (hkeyword : IsKeywordOf source node keyword)
    (hbody : body ∈ node.children)
    (hbefore : keyword.endByte ≤ body.startByte) (hbraced : IsBraced source body) :
    (header source node keyword body).Stands source := by
  have hplace := (h.child hmem).placed
  obtain ⟨c, hc, hblank⟩ := Option.map_eq_some_iff.1 hkeyword.begins
  obtain ⟨hfirst, hlt⟩ := hplace.getElem?_start hc
  have hkeyword_le := stop_le_start hplace (h.child hbody).placed hbefore
  obtain ⟨hopen, hclose, hbodyStart, -, -⟩ := (h.child hbody).braces_stand hbraced
  exact {
    start_le := (h.placed.bounds hplace hmem).1
    keywordStart_lt := lt_of_lt_of_le hlt hkeyword_le
    bodyStart_lt := hbodyStart
    opening := hopen
    closing := hclose
    keyword_prefix := by
      simp only [header, hplace.toList_text, slice, List.drop_take]
      exact List.take_prefix _ _
    keyword_solid := ⟨c, hfirst, hblank⟩
    line_eq := by simp only [header, hplace.row_eq, Nat.add_comm]
    attributes := h.attributesStand hmem hkeyword }

end Faithful

/-- A member that was lifted out of a node stands where the node does.  A type ends with
its closing brace, and the node may end behind it. -/
structure MemberStands (source : List Char) (node : SyntaxNode) (m : Member) : Prop where
  stands : m.Stands source
  start_eq : m.start = node.start source
  stop_le : m.stop ≤ node.stop source
  start_lt_stop : node.startByte < node.endByte → m.start < m.stop

/-- Members that stand in a source text in order, each where one of some nodes is. -/
structure MembersStand (source : List Char) (nodes : List SyntaxNode) (members : List Member) :
    Prop where
  lifted : ∀ m ∈ members, ∃ node ∈ nodes, node.isNamed = true ∧ MemberStands source node m
  inOrder : members.Pairwise fun a b => a.stop ≤ b.start

namespace MembersStand

theorem nil : MembersStand source [] [] :=
  ⟨by simp, List.Pairwise.nil⟩

theorem widen {nodes : List SyntaxNode} {members : List Member}
    (h : MembersStand source nodes members) : MembersStand source (node :: nodes) members := by
  refine ⟨fun m hm => ?_, h.inOrder⟩
  obtain ⟨found, hfound, hnamed, hstands⟩ := h.lifted m hm
  exact ⟨found, List.mem_cons_of_mem _ hfound, hnamed, hstands⟩

/-- A member stands in front of those of the nodes behind its own. -/
theorem cons {nodes : List SyntaxNode} {m : Member} {members : List Member}
    (hfaithful : ∀ part ∈ node :: nodes, Faithful source part)
    (horder : (node :: nodes).Pairwise fun a b => a.endByte ≤ b.startByte)
    (hnamed : node.isNamed = true) (hm : MemberStands source node m)
    (h : MembersStand source nodes members) :
    MembersStand source (node :: nodes) (m :: members) where
  lifted := List.forall_mem_cons.2
    ⟨⟨node, List.mem_cons_self, hnamed, hm⟩, h.widen.lifted⟩
  inOrder := by
    refine List.pairwise_cons.2 ⟨fun other hother => ?_, h.inOrder⟩
    obtain ⟨found, hfound, -, hstands⟩ := h.lifted other hother
    have hbehind := stop_le_start (hfaithful node List.mem_cons_self).placed
      (hfaithful found (List.mem_cons_of_mem _ hfound)).placed
      ((List.pairwise_cons.1 horder).1 found hfound)
    rw [hstands.start_eq]
    exact hm.stop_le.trans hbehind

/-- Setting conditional members apart keeps all of them in their places. -/
theorem separate {nodes : List SyntaxNode} {items : List Item} (depth : Nat)
    (h : MembersStand source nodes (membersAmong items)) :
    (∀ m ∈ (separate depth items).1 ++ (separate depth items).2,
      ∃ node ∈ nodes, node.isNamed = true ∧ MemberStands source node m) ∧
    ((separate depth items).1 ++ (separate depth items).2).Pairwise Member.Apart := by
  have hperm := separate_perm depth items
  refine ⟨fun m hm => h.lifted m (hperm.mem_iff.1 hm), ?_⟩
  have hsymm : ∀ {a b : Member}, a.Apart b → b.Apart a := fun hab => Or.symm hab
  rw [hperm.pairwise_iff hsymm]
  exact h.inOrder.imp fun hab => Or.inl hab

end MembersStand

/-! ## Blocks -/

theorem innerItems_eq (node : SyntaxNode) :
    innerItems source node = items source node.children := by
  cases node
  rw [innerItems]

theorem bodyItems?_eq (children : List SyntaxNode) :
    bodyItems? source children = (children.find? (·.field == some "body")).map fun body =>
      (body, items source body.children) := by
  induction children with
  | nil => rfl
  | cons child rest ih =>
      rw [bodyItems?, List.find?_cons, ih, innerItems_eq]
      by_cases hfield : child.field == some "body"
      · rw [if_pos hfield, hfield]
        rfl
      · rw [if_neg hfield, Bool.eq_false_of_not_eq_true hfield]

theorem member?_of_not_isType (htype : node.isType = false) :
    member? source node = .ok (node.plainMember? source) := by
  cases node
  rw [member?, if_neg (by rw [htype]; exact Bool.false_ne_true)]
  rfl

/-- A type is lifted from its keyword, its body and the items in it. -/
theorem member?_of_isType {found : Option Member} (htype : node.isType = true) :
    member? source node = .ok found ↔
      ∃ keyword body inside, node.child? "declaration_kind" = some keyword ∧
        node.child? "body" = some body ∧ items source body.children = .ok inside ∧
        found = some (.type (header source node keyword body) (separate 0 inside).1
          (separate 0 inside).2) := by
  cases node with
  | mk kind field isNamed isMissing startByte endByte startPoint children =>
      rw [member?, if_pos htype, bodyItems?_eq]
      simp only [child?]
      cases children.find? (·.field == some "declaration_kind") with
      | none => simp [throw, throwThe, MonadExceptOf.throw]
      | some keyword =>
          cases children.find? (·.field == some "body") with
          | none => simp [throw, throwThe, MonadExceptOf.throw]
          | some body =>
              cases hitems : items source body.children with
              | error fault => simp [hitems, bind, Except.bind]
              | ok inside => simp [hitems, bind, Except.bind, pure, Except.pure, eq_comm]

/-- The items among nodes: a token or a comment adds nothing, a directive its text, and any
other node its member. -/
theorem items_cons {child : SyntaxNode} {rest : List SyntaxNode} {found : List Item} :
    items source (child :: rest) = .ok found ↔
      ∃ more, items source rest = .ok more ∧
        if !child.isNamed || child.isTrivia then found = more
        else if child.kind == "directive" then
          found = .directive (child.text source).toList :: more
        else ∃ m, member? source child = .ok m ∧ found = m.toList.map .member ++ more := by
  rw [items]
  split
  · simp
  · split
    · cases hrest : items source rest <;> simp [bind, Except.bind, pure, Except.pure, eq_comm]
    · cases hmember : member? source child <;> cases hrest : items source rest <;>
        simp [bind, Except.bind, pure, Except.pure, eq_comm]

theorem Faithful.plainMember?_stands (h : Faithful source node) {m : Member}
    (hm : node.plainMember? source = some m) : MemberStands source node m := by
  have hplaced := h.placed
  unfold plainMember? at hm
  split at hm
  case isTrue hkind =>
      cases hm
      exact ⟨.property (h.property_stands (beq_iff_eq.1 hkind)), rfl, le_rfl, hplaced.start_lt_stop⟩
  repeat' split at hm
  all_goals cases hm
  · exact ⟨.cases _, rfl, le_rfl, hplaced.start_lt_stop⟩
  · exact ⟨.initializer _, rfl, le_rfl, hplaced.start_lt_stop⟩
  · exact ⟨.other _, rfl, le_rfl, hplaced.start_lt_stop⟩

/-- The members of nodes that stand behind each other stand behind each other. -/
theorem items_stand {nodes : List SyntaxNode} {found : List Item}
    (hfaithful : ∀ part ∈ nodes, Faithful source part)
    (horder : nodes.Pairwise fun a b => a.endByte ≤ b.startByte)
    (hstands : ∀ part ∈ nodes, ∀ m, member? source part = .ok (some m) →
      MemberStands source part m)
    (h : items source nodes = .ok found) : MembersStand source nodes (membersAmong found) := by
  induction nodes generalizing found with
  | nil =>
      cases h
      exact .nil
  | cons child rest ih =>
      obtain ⟨more, hmore, hfound⟩ := items_cons.1 h
      have hrest := ih (fun part hpart => hfaithful part (List.mem_cons_of_mem _ hpart))
        (List.pairwise_cons.1 horder).2
        (fun part hpart => hstands part (List.mem_cons_of_mem _ hpart)) hmore
      split at hfound
      · exact hfound ▸ hrest.widen
      · next hnamed =>
          simp only [Bool.or_eq_true, Bool.not_eq_true', not_or, Bool.not_eq_false] at hnamed
          split at hfound
          · exact hfound ▸ hrest.widen
          · obtain ⟨m, hm, rfl⟩ := hfound
            cases m with
            | none => exact hrest.widen
            | some m =>
                exact hrest.cons hfaithful horder hnamed.1 (hstands child List.mem_cons_self m hm)

/-- A type stands with its header and with the members between its braces. -/
theorem Faithful.type_stands (h : Faithful source node) (htype : node.isType = true)
    {keyword body : SyntaxNode} {inside : List Item}
    (hkeyword : node.child? "declaration_kind" = some keyword)
    (hbody : node.child? "body" = some body)
    (hinside : MembersStand source body.children (membersAmong inside)) :
    MemberStands source node
      (.type (header source node keyword body) (separate 0 inside).1 (separate 0 inside).2) := by
  have hmem := List.mem_of_find?_eq_some hbody
  have hfaithful := h.child hmem
  obtain ⟨hheads, hbefore, hbraced⟩ := h.shaped.type htype keyword hkeyword body hbody
  have hheader := h.header_stands (List.mem_of_find?_eq_some hkeyword) hheads hmem hbefore hbraced
  obtain ⟨-, -, -, hend, hbetween⟩ := hfaithful.braces_stand hbraced
  obtain ⟨hlifted, hapart⟩ := hinside.separate 0
  have hbody_le := (h.placed.bounds hfaithful.placed hmem).2
  have hstop : (header source node keyword body).bodyEnd + 1 ≤ node.stop source :=
    lt_of_lt_of_le hend hbody_le
  refine ⟨.type hheader (fun m hm => ?_) hapart fun m hm => ?_, rfl, hstop, fun _ => ?_⟩
  · obtain ⟨found, hfound, hnamed, hstands⟩ := hlifted m hm
    obtain ⟨hlow, hhigh⟩ := hbetween found hfound hnamed
    refine ⟨?_, hstands.start_lt_stop (hbraced.inside found hfound hnamed),
      hstands.stop_le.trans hhigh⟩
    rw [hstands.start_eq]
    exact hlow
  · obtain ⟨found, -, -, hstands⟩ := hlifted m hm
    exact hstands.stands
  · have hstart := hheader.start_le
    have hkeyword_lt := hheader.keywordStart_lt
    have hbodyStart := hheader.bodyStart_lt
    simp only [Member.start, Member.stop]
    omega

/-- What is lifted out of a faithful node stands where the node does, and what is lifted out
of its children where they do. -/
theorem Faithful.lifted (h : Faithful source node) :
    (∀ m, member? source node = .ok (some m) → MemberStands source node m) ∧
      ∀ found, items source node.children = .ok found →
        MembersStand source node.children (membersAmong found) := by
  -- by induction on the tree: the items of a body come before the type they are in
  induction h with
  | @mk node hplaced hshaped hchildren ih =>
      have h : Faithful source node := .mk hplaced hshaped hchildren
      refine ⟨fun m hm => ?_, fun found hfound =>
        items_stand hchildren hplaced.inOrder (fun part hpart => (ih part hpart).1) hfound⟩
      cases htype : node.isType with
      | false =>
          rw [member?_of_not_isType htype, Except.ok.injEq] at hm
          exact h.plainMember?_stands hm
      | true =>
          obtain ⟨keyword, body, inside, hkeyword, hbody, hitems, heq⟩ :=
            (member?_of_isType htype).1 hm
          cases heq
          have hinside := (ih body (List.mem_of_find?_eq_some hbody)).2 inside hitems
          exact h.type_stands htype hkeyword hbody hinside

end SyntaxNode

end Fakery
