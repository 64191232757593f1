import Fakery.Yaml.Document
import Mathlib.Tactic

/-!
# The nodes of a document

A document has finitely many nodes, and all that is looked at while it is built is among them:
the nodes inside a node, what an alias stands for, and the entries that a merge brings in.
-/

namespace Fakery.Yaml

/-! ## Results -/

section Results

variable {ε α β : Type} {x : Except ε α} {f : α → Except ε β}

theorem exists_of_bind_ok {b : β} (h : x >>= f = .ok b) : ∃ a, x = .ok a ∧ f a = .ok b := by
  cases x with
  | error fault => cases h
  | ok a => exact ⟨a, rfl, h⟩

theorem error_of_bind {fault : ε} (h : x >>= f = .error fault) :
    x = .error fault ∨ ∃ a, x = .ok a ∧ f a = .error fault := by
  cases x with
  | error other =>
      cases h
      exact Or.inl rfl
  | ok a => exact Or.inr ⟨a, rfl, h⟩

theorem exists_of_mem_mapM {xs : List α} {ys : List β} (h : xs.mapM f = .ok ys) {y : β}
    (hy : y ∈ ys) : ∃ x ∈ xs, f x = .ok y := by
  induction xs generalizing ys with
  | nil =>
      cases h
      cases hy
  | cons x xs ih =>
      rw [List.mapM_cons] at h
      obtain ⟨first, hfirst, h⟩ := exists_of_bind_ok h
      obtain ⟨rest, hrest, h⟩ := exists_of_bind_ok h
      cases h
      rcases List.mem_cons.1 hy with rfl | hy
      · exact ⟨x, List.mem_cons_self, hfirst⟩
      · obtain ⟨other, hother, hvalue⟩ := ih hrest hy
        exact ⟨other, List.mem_cons_of_mem _ hother, hvalue⟩

theorem exists_mem_of_mapM {xs : List α} {ys : List β} (h : xs.mapM f = .ok ys) {x : α}
    (hx : x ∈ xs) : ∃ y ∈ ys, f x = .ok y := by
  induction xs generalizing ys with
  | nil => cases hx
  | cons first xs ih =>
      rw [List.mapM_cons] at h
      obtain ⟨y, hy, h⟩ := exists_of_bind_ok h
      obtain ⟨rest, hrest, h⟩ := exists_of_bind_ok h
      cases h
      rcases List.mem_cons.1 hx with rfl | hx
      · exact ⟨y, List.mem_cons_self, hy⟩
      · obtain ⟨other, hother, hvalue⟩ := ih hrest hx
        exact ⟨other, List.mem_cons_of_mem _ hother, hvalue⟩

theorem mapM_ok {xs : List α} (h : ∀ x ∈ xs, ∃ y, f x = .ok y) : ∃ ys, xs.mapM f = .ok ys := by
  induction xs with
  | nil => exact ⟨[], rfl⟩
  | cons x xs ih =>
      obtain ⟨⟨y, hy⟩, hrest⟩ := List.forall_mem_cons.1 h
      obtain ⟨ys, hys⟩ := ih hrest
      refine ⟨y :: ys, ?_⟩
      rw [List.mapM_cons, hy, hys]
      rfl

end Results

/-! ## Nodes -/

mutual

/-- Two nodes are the same exactly if they are equal. -/
theorem Node.same_iff : ∀ node other : Node, node.same other = true ↔ node = other
  | .scalar tag text, other => by cases other <;> simp [Node.same]
  | .sequence tag items, other => by
      cases other with
      | sequence otherTag others => simp [Node.same, sameItems_iff items others]
      | _ => simp [Node.same]
  | .mapping tag entries, other => by
      cases other with
      | mapping otherTag others => simp [Node.same, sameEntries_iff entries others]
      | _ => simp [Node.same]
  | .anchored name node, other => by
      cases other with
      | anchored otherName inner => simp [Node.same, node.same_iff inner]
      | _ => simp [Node.same]
  | .alias name, other => by cases other <;> simp [Node.same]

theorem sameItems_iff : ∀ items others : List Node, sameItems items others = true ↔ items = others
  | [], others => by cases others <;> simp [sameItems]
  | item :: rest, others => by
      cases others with
      | nil => simp [sameItems]
      | cons other others => simp [sameItems, item.same_iff other, sameItems_iff rest others]

theorem sameEntries_iff :
    ∀ entries others : List (Node × Node), sameEntries entries others = true ↔ entries = others
  | [], others => by cases others <;> simp [sameEntries]
  | (key, value) :: rest, others => by
      cases others with
      | nil => simp [sameEntries]
      | cons other others =>
          obtain ⟨otherKey, otherValue⟩ := other
          simp [sameEntries, key.same_iff otherKey, value.same_iff otherValue,
            sameEntries_iff rest others]

end

instance : LawfulBEq Node where
  eq_of_beq h := (Node.same_iff _ _).1 h
  rfl := (Node.same_iff _ _).2 rfl

mutual

def Node.parts : Node → List Node
  | .scalar tag text => [.scalar tag text]
  | .sequence tag items => .sequence tag items :: partsOfItems items
  | .mapping tag entries => .mapping tag entries :: partsOfEntries entries
  | .anchored name node => .anchored name node :: node.parts
  | .alias name => [.alias name]

def partsOfItems : List Node → List Node
  | [] => []
  | item :: rest => item.parts ++ partsOfItems rest

def partsOfEntries : List (Node × Node) → List Node
  | [] => []
  | (key, value) :: rest => key.parts ++ value.parts ++ partsOfEntries rest

end

def Node.children : Node → List Node
  | .sequence _ items => items
  | .mapping _ entries => entries.flatMap fun entry => [entry.1, entry.2]
  | .anchored _ node => [node]
  | _ => []

mutual

theorem Node.length_parts : ∀ node : Node, node.parts.length = node.size
  | .scalar tag text => rfl
  | .sequence tag items => by
      rw [Node.parts, Node.size, List.length_cons, length_partsOfItems items, Nat.add_comm]
  | .mapping tag entries => by
      rw [Node.parts, Node.size, List.length_cons, length_partsOfEntries entries, Nat.add_comm]
  | .anchored name node => by
      rw [Node.parts, Node.size, List.length_cons, node.length_parts, Nat.add_comm]
  | .alias name => rfl

theorem length_partsOfItems : ∀ items : List Node, (partsOfItems items).length = sizeOfItems items
  | [] => rfl
  | item :: rest => by
      rw [partsOfItems, sizeOfItems, List.length_append, item.length_parts,
        length_partsOfItems rest]

theorem length_partsOfEntries :
    ∀ entries : List (Node × Node), (partsOfEntries entries).length = sizeOfEntries entries
  | [] => rfl
  | (key, value) :: rest => by
      rw [partsOfEntries, sizeOfEntries, List.length_append, List.length_append, key.length_parts,
        value.length_parts, length_partsOfEntries rest]

end

theorem Node.mem_parts_self (node : Node) : node ∈ node.parts := by
  cases node <;> simp [Node.parts]

theorem mem_partsOfItems {items : List Node} {node : Node} :
    node ∈ partsOfItems items ↔ ∃ item ∈ items, node ∈ item.parts := by
  induction items with
  | nil => simp [partsOfItems]
  | cons item rest ih => simp [partsOfItems, ih]

theorem mem_partsOfEntries {entries : List (Node × Node)} {node : Node} :
    node ∈ partsOfEntries entries ↔
      ∃ entry ∈ entries, node ∈ entry.1.parts ∨ node ∈ entry.2.parts := by
  induction entries with
  | nil => simp [partsOfEntries]
  | cons entry rest ih => simp [partsOfEntries, ih, or_assoc]

mutual

/-- What is inside of a part is a part. -/
theorem Node.mem_parts_of_child : ∀ (root : Node) {node child : Node}, node ∈ root.parts →
    child ∈ node.children → child ∈ root.parts
  | .scalar tag text, node, child, hnode, hchild => by
      obtain rfl : node = .scalar tag text := by simpa [Node.parts] using hnode
      cases hchild
  | .sequence tag items, node, child, hnode, hchild => by
      rcases List.mem_cons.1 hnode with rfl | hnode
      · exact List.mem_cons_of_mem _ (mem_partsOfItems.2 ⟨child, hchild, child.mem_parts_self⟩)
      · exact List.mem_cons_of_mem _ (mem_partsOfItems_of_child items hnode hchild)
  | .mapping tag entries, node, child, hnode, hchild => by
      rcases List.mem_cons.1 hnode with rfl | hnode
      · obtain ⟨entry, hentry, hchild⟩ := List.mem_flatMap.1 hchild
        refine List.mem_cons_of_mem _ (mem_partsOfEntries.2 ⟨entry, hentry, ?_⟩)
        rcases List.mem_pair.1 hchild with rfl | rfl
        · exact Or.inl (Node.mem_parts_self _)
        · exact Or.inr (Node.mem_parts_self _)
      · exact List.mem_cons_of_mem _ (mem_partsOfEntries_of_child entries hnode hchild)
  | .anchored name inner, node, child, hnode, hchild => by
      rcases List.mem_cons.1 hnode with rfl | hnode
      · obtain rfl : child = inner := by simpa [Node.children] using hchild
        exact List.mem_cons_of_mem _ child.mem_parts_self
      · exact List.mem_cons_of_mem _ (inner.mem_parts_of_child hnode hchild)
  | .alias name, node, child, hnode, hchild => by
      obtain rfl : node = .alias name := by simpa [Node.parts] using hnode
      cases hchild

theorem mem_partsOfItems_of_child : ∀ (items : List Node) {node child : Node},
    node ∈ partsOfItems items → child ∈ node.children → child ∈ partsOfItems items
  | [], node, child, hnode, _ => by cases hnode
  | item :: rest, node, child, hnode, hchild => by
      rcases List.mem_append.1 hnode with hnode | hnode
      · exact List.mem_append_left _ (item.mem_parts_of_child hnode hchild)
      · exact List.mem_append_right _ (mem_partsOfItems_of_child rest hnode hchild)

theorem mem_partsOfEntries_of_child : ∀ (entries : List (Node × Node)) {node child : Node},
    node ∈ partsOfEntries entries → child ∈ node.children → child ∈ partsOfEntries entries
  | [], node, child, hnode, _ => by cases hnode
  | (key, value) :: rest, node, child, hnode, hchild => by
      rcases List.mem_append.1 hnode with hnode | hnode
      · refine List.mem_append_left _ ?_
        rcases List.mem_append.1 hnode with hnode | hnode
        · exact List.mem_append_left _ (key.mem_parts_of_child hnode hchild)
        · exact List.mem_append_right _ (value.mem_parts_of_child hnode hchild)
      · exact List.mem_append_right _ (mem_partsOfEntries_of_child rest hnode hchild)

end

mutual

theorem Node.mem_parts_of_anchor : ∀ (root : Node) {name : String} {node : Node},
    (name, node) ∈ root.anchors → node ∈ root.parts
  | .scalar tag text, name, node, h => by cases h
  | .sequence tag items, name, node, h =>
      List.mem_cons_of_mem _ (mem_partsOfItems_of_anchor items h)
  | .mapping tag entries, name, node, h =>
      List.mem_cons_of_mem _ (mem_partsOfEntries_of_anchor entries h)
  | .anchored anchor inner, name, node, h => by
      refine List.mem_cons_of_mem _ ?_
      rcases List.mem_cons.1 h with heq | h
      · cases heq
        exact inner.mem_parts_self
      · exact inner.mem_parts_of_anchor h
  | .alias anchor, name, node, h => by cases h

theorem mem_partsOfItems_of_anchor : ∀ (items : List Node) {name : String} {node : Node},
    (name, node) ∈ anchorsOfItems items → node ∈ partsOfItems items
  | [], name, node, h => by cases h
  | item :: rest, name, node, h => by
      rcases List.mem_append.1 h with h | h
      · exact List.mem_append_left _ (item.mem_parts_of_anchor h)
      · exact List.mem_append_right _ (mem_partsOfItems_of_anchor rest h)

theorem mem_partsOfEntries_of_anchor : ∀ (entries : List (Node × Node)) {name : String}
    {node : Node}, (name, node) ∈ anchorsOfEntries entries → node ∈ partsOfEntries entries
  | [], name, node, h => by cases h
  | (key, value) :: rest, name, node, h => by
      rcases List.mem_append.1 h with h | h
      · refine List.mem_append_left _ ?_
        rcases List.mem_append.1 h with h | h
        · exact List.mem_append_left _ (key.mem_parts_of_anchor h)
        · exact List.mem_append_right _ (value.mem_parts_of_anchor h)
      · exact List.mem_append_right _ (mem_partsOfEntries_of_anchor rest h)

end

/-! ## Parts of a document -/

namespace Document

/-- What is inside a node belongs to the document. -/
def Holds (document : Document) (node : Node) : Prop :=
  ∀ child ∈ node.children, child ∈ document.root.parts

section Holds

variable {root : Node}

/-- What is inside a part of the root belongs to the document, behind anchors and aliases too. -/
theorem holds_bare {node : Node} (h : node ∈ root.parts) :
    (ofRoot root).Holds ((ofRoot root).bare node) := by
  intro child hchild
  rcases node with ⟨tag, text⟩ | ⟨tag, items⟩ | ⟨tag, entries⟩ | ⟨name, inner⟩ | ⟨name⟩
  · exact root.mem_parts_of_child h hchild
  · exact root.mem_parts_of_child h hchild
  · exact root.mem_parts_of_child h hchild
  · exact root.mem_parts_of_child (root.mem_parts_of_child h (List.mem_singleton_self _)) hchild
  · cases hlookup : root.anchors.lookup name with
    | none => simp [bare, resolve, ofRoot, hlookup, emptyNode, Node.children] at hchild
    | some inner =>
        obtain ⟨before, behind, hanchors, -⟩ := List.lookup_eq_some_iff.1 hlookup
        have hanchor : (name, inner) ∈ root.anchors := by simp [hanchors]
        simp only [bare, resolve, ofRoot, hlookup, Option.getD_some] at hchild
        exact root.mem_parts_of_child (root.mem_parts_of_anchor hanchor) hchild

theorem holds_of_mergeSources {node : Node} (h : node ∈ root.parts) {sources : List Named}
    (hsources : (ofRoot root).mergeSources node = some sources) :
    ∀ source ∈ sources, (ofRoot root).Holds source.2 := by
  have hholds := holds_bare h
  intro source hsource
  unfold mergeSources at hsources
  split at hsources
  · next hresolve =>
      cases hsources
      obtain rfl := List.mem_singleton.1 hsource
      rwa [bare, hresolve] at hholds
  · next hresolve =>
      simp only [Option.ite_none_right_eq_some, Option.some.injEq] at hsources
      obtain ⟨-, rfl⟩ := hsources
      rw [List.mem_reverse] at hsource
      obtain ⟨item, hitem, rfl⟩ := List.mem_map.1 hsource
      rw [bare, hresolve] at hholds
      exact holds_bare (hholds item hitem)
  · cases hsources

/-- The entries of a mapping, those of a merge included, are nodes of the document. -/
theorem mem_parts_of_entries {fuel : Nat} {inside : List String} {named : Named}
    (h : (ofRoot root).Holds named.2) {found : List (Node × Node)}
    (hfound : (ofRoot root).entries fuel inside named = .ok found) :
    ∀ entry ∈ found, entry.1 ∈ root.parts ∧ entry.2 ∈ root.parts := by
  induction fuel generalizing inside named found with
  | zero =>
      cases hfound
      simp
  | succ fuel ih =>
      obtain ⟨name, node⟩ := named
      cases node with
      | mapping tag own =>
          have hown : ∀ entry ∈ own, entry.1 ∈ root.parts ∧ entry.2 ∈ root.parts :=
            fun entry hentry =>
              ⟨h _ (List.mem_flatMap.2 ⟨entry, hentry, by simp⟩),
                h _ (List.mem_flatMap.2 ⟨entry, hentry, by simp⟩)⟩
          simp only [entries] at hfound
          split at hfound
          · cases hfound
            exact fun entry hentry => hown entry (List.mem_filter.1 hentry).1
          · obtain ⟨merged, hmerged, hfound⟩ := exists_of_bind_ok hfound
            cases hfound
            intro entry hentry
            rcases List.mem_append.1 hentry with hentry | hentry
            · obtain ⟨group, hgroup, hentry⟩ := List.mem_flatten.1 hentry
              obtain ⟨asking, hasking, hgroup⟩ := exists_of_mem_mapM hmerged hgroup
              split at hgroup
              · cases hgroup
              · next sources hsources =>
                  obtain ⟨lists, hlists, hgroup⟩ := exists_of_bind_ok hgroup
                  cases hgroup
                  obtain ⟨list, hlist, hentry⟩ := List.mem_flatten.1 hentry
                  obtain ⟨source, hsource, hlist⟩ := exists_of_mem_mapM hlists hlist
                  exact ih (holds_of_mergeSources (hown asking (List.mem_filter.1 hasking).1).2
                    hsources source hsource) hlist entry hentry
            · exact hown entry (List.mem_filter.1 hentry).1
      | _ => cases hfound

/-- Every node that is built from inside a held node is a part of the root. -/
theorem mem_parts_of_steps {node : Node} (h : (ofRoot root).Holds node) {inner : Node}
    {isKey : Bool} (hstep : .build inner isKey ∈ (ofRoot root).steps node) :
    inner ∈ root.parts := by
  unfold steps at hstep
  split at hstep
  · split at hstep
    · obtain ⟨item, hitem, hbuild⟩ := List.mem_map.1 hstep
      cases hbuild
      exact h _ hitem
    · simp at hstep
  · split at hstep
    · split at hstep
      · next found hfound =>
          obtain ⟨entry, hentry, hbuild⟩ := List.mem_flatMap.1 hstep
          obtain ⟨hkey, hvalue⟩ := mem_parts_of_entries h hfound entry hentry
          rcases List.mem_pair.1 hbuild with hbuild | hbuild
          · cases hbuild
            exact hkey
          · cases hbuild
            exact hvalue
      · simp at hstep
    · split at hstep
      · obtain ⟨item, hitem, hbuild⟩ := List.mem_flatMap.1 hstep
        have hholds : (ofRoot root).Holds ((ofRoot root).bare item) := holds_bare (h item hitem)
        split at hbuild
        · next hbare =>
            rw [hbare] at hholds
            rcases List.mem_pair.1 hbuild with hbuild | hbuild
            · cases hbuild
              exact hholds _ (by simp [Node.children])
            · cases hbuild
              exact hholds _ (by simp [Node.children])
        · simp at hbuild
      · simp at hstep

end Holds

end Document

end Fakery.Yaml
