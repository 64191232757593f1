import Fakery.Proofs.Yaml.Building

/-!
# Looking into a checked document

In a document that passes the check every entry of a mapping that it needs can be looked up, and
what is found is needed as well.
-/

namespace Fakery.Yaml

/-- A value in which nothing is looked up. -/
def Value.isPlain : Value → Bool
  | .sequence _ => false
  | .mapping _ => false
  | _ => true

namespace Document

variable {document : Document}

theorem exists_of_map_ok {ε α β : Type} {x : Except ε α} {f : α → β} {b : β}
    (h : x.map f = .ok b) : ∃ a, f a = b := by
  cases x with
  | error fault => cases h
  | ok a => exact ⟨a, Except.ok.inj h⟩

theorem isPlain_of_mem_readers {tag text : String} {read : String → Except Fault Value}
    {value : Value} (hread : (tag, read) ∈ readers) (h : read text = .ok value) :
    value.isPlain = true := by
  simp only [readers, List.mem_cons, List.not_mem_nil, Prod.mk.injEq, or_false] at hread
  rcases hread with ⟨-, rfl⟩ | ⟨-, rfl⟩ | ⟨-, rfl⟩ | ⟨-, rfl⟩ | ⟨-, rfl⟩ | ⟨-, rfl⟩ | ⟨-, rfl⟩
  · cases h
    rfl
  all_goals first
    | cases h
      rfl
    | obtain ⟨_, rfl⟩ := exists_of_map_ok h
      rfl

/-- A mapping and a sequence have these values as they are. -/
theorem keyOf_eq_ok {node : Node} {value : Value} (h : document.keyOf node = .ok value) :
    value.isPlain = true ∨ (node.tag = coreTag "map" ∧ value = .mapping node) ∨
      ∃ items, node = .sequence (coreTag "seq") items ∧ value = .sequence items := by
  unfold keyOf at h
  split at h
  · obtain ⟨text, rfl⟩ := exists_of_map_ok h
    exact Or.inl rfl
  unfold valueOf at h
  split at h
  · next read hlookup =>
      obtain ⟨before, behind, hreaders, -⟩ := List.lookup_eq_some_iff.1 hlookup
      have hmem : (node.tag, read) ∈ readers := by simp [hreaders]
      obtain ⟨text, -, h⟩ := exists_of_bind_ok h
      split at h
      · cases h
      · exact Or.inl (isPlain_of_mem_readers hmem h)
  simp only [beq_iff_eq] at h
  split at h
  · next htag =>
      split at h
      · cases h
        obtain rfl := htag
        exact Or.inr (Or.inr ⟨_, rfl, rfl⟩)
      · cases h
        exact Or.inl rfl
  split at h
  · next htag =>
      cases h
      exact Or.inr (Or.inl ⟨htag, rfl⟩)
  split at h
  · cases h
    exact Or.inl rfl
  · cases h

section Checked

variable (hcheck : document.check = .ok ())

include hcheck

/-- The entries of a mapping that is needed are there, and are needed. -/
theorem needs_of_mapping {node mapping : Node} {isKey : Bool}
    (hneeds : document.Needs (.build node isKey))
    (hvalue : document.value node = .ok (.mapping mapping)) :
    ∃ found, document.entries document.fuel [] (none, mapping) = .ok found ∧
      ∀ entry ∈ found, document.Needs (.build entry.1 true) ∧
        document.Needs (.build entry.2 false) := by
  obtain ⟨htag, heq⟩ : (document.bare node).tag = coreTag "map" ∧ mapping = document.bare node := by
    rcases keyOf_eq_ok hvalue with hplain | ⟨htag, heq⟩ | ⟨items, -, heq⟩
    · cases hplain
    · cases heq
      exact ⟨htag, rfl⟩
    · cases heq
  subst heq
  have hcollection : (document.bare node).isCollection = true := by
    simp [Node.isCollection, Node.collectionTags, htag]
  cases hfound : document.entries document.fuel [] (none, document.bare node) with
  | error fault =>
      have hsteps : document.steps (document.bare node) = [.refuse] := by
        simp [steps, htag, hfound]
      have hrefuse : document.Needs .refuse :=
        .inside hneeds hcollection (by rw [hsteps]; exact List.mem_singleton_self _)
      cases done_of_check hcheck hrefuse
  | ok found =>
      have hsteps : document.steps (document.bare node) =
          found.flatMap fun entry => [.build entry.1 true, .build entry.2 false] := by
        simp [steps, htag, hfound]
      refine ⟨found, rfl, fun entry hentry => ⟨.inside hneeds hcollection ?_,
        .inside hneeds hcollection ?_⟩⟩
      all_goals
        rw [hsteps]
        exact List.mem_flatMap.2 ⟨entry, hentry, by simp⟩

omit hcheck in
theorem needs_of_sequence {node : Node} {items : List Node} {isKey : Bool}
    (hneeds : document.Needs (.build node isKey))
    (hvalue : document.value node = .ok (.sequence items)) :
    ∀ item ∈ items, document.Needs (.build item false) := by
  obtain ⟨others, hbare, heq⟩ : ∃ others, document.bare node = .sequence (coreTag "seq") others ∧
      Value.sequence items = .sequence others := by
    rcases keyOf_eq_ok hvalue with hplain | ⟨-, heq⟩ | hsequence
    · cases hplain
    · cases heq
    · exact hsequence
  cases heq
  intro item hitem
  refine .inside hneeds ?_ ?_
  · simp [hbare, Node.isCollection, Node.collectionTags, Node.tag]
  · simpa [hbare, steps, Node.tag] using hitem

/-- What has been found, if anything, is the value of a node that is needed. -/
def Holding (document : Document) (found : Option Value) : Prop :=
  ∀ value, found = some value → ∃ node, document.Needs (.build node false) ∧
    document.value node = .ok value

/-- A lookup among needed entries gives a result, and the node it gives is needed. -/
theorem findLast_ok {found : List (Node × Node)}
    (h : ∀ entry ∈ found, document.Needs (.build entry.1 true) ∧
      document.Needs (.build entry.2 false)) (name : String) :
    ∃ result, document.findLast name found = .ok result ∧
      ∀ node, result = some node → document.Needs (.build node false) := by
  induction found with
  | nil => exact ⟨none, rfl, by simp⟩
  | cons entry rest ih =>
      obtain ⟨⟨hkey, hvalue⟩, hrest⟩ := List.forall_mem_cons.1 h
      obtain ⟨later, hlater, hneeds⟩ := ih hrest
      obtain ⟨⟨key, hkeyValue⟩, -⟩ := done_of_check hcheck hkey
      obtain ⟨here, hhere⟩ : ∃ here, document.isNamed name entry.1 = .ok here := by
        rw [isNamed, hkeyValue]
        cases key <;> exact ⟨_, rfl⟩
      refine ⟨later.or (if here then some entry.2 else none), ?_, ?_⟩
      · rw [findLast, hhere, hlater]
        rfl
      · intro node hnode
        rcases Option.or_eq_some_iff.1 hnode with hnode | ⟨-, hnode⟩
        · exact hneeds node hnode
        · split at hnode
          · cases hnode
            exact hvalue
          · cases hnode

/-- Every entry of a mapping can be looked up. -/
theorem lookup_ok {node mapping : Node} {isKey : Bool}
    (hneeds : document.Needs (.build node isKey))
    (hvalue : document.value node = .ok (.mapping mapping)) (name : String) :
    ∃ result, document.lookup mapping name = .ok result ∧ document.Holding result := by
  obtain ⟨found, hfound, hentries⟩ := needs_of_mapping hcheck hneeds hvalue
  obtain ⟨last, hlast, hinner⟩ := findLast_ok hcheck hentries name
  rw [lookup, hfound]
  cases last with
  | none =>
      refine ⟨none, ?_, by simp [Holding]⟩
      simp only [bind, Except.bind, hlast]
      rfl
  | some inner =>
      obtain ⟨⟨value, hinnerValue⟩, -⟩ := done_of_check hcheck (hinner inner rfl)
      refine ⟨some value, ?_, ?_⟩
      · simp only [bind, Except.bind, hlast, hinnerValue]
        rfl
      · intro other hother
        cases hother
        exact ⟨inner, hinner inner rfl, hinnerValue⟩

end Checked

end Document

end Fakery.Yaml
