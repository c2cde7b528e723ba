import StatementCompletion.Proofs.Tree.Operations
import StatementCompletion.Proofs.Tree.Searches
import StatementCompletion.Proofs.Tree.Whole

/-!
# Nodes of a whole tree in their place

Every node of a whole tree is whole, and so is its parent.  Nothing is missing among its children,
so those that are neither white space nor comments are its parts, and what the kinds of the parts
promise is found by the searches among the children.
-/

namespace StatementCompletion

/-! ## Rows of kinds -/

namespace Kind

/-- No member comes behind an enum constant. -/
theorem Separates.isMember_eq_false {front back : List Kind} {next : Kind}
    (h : Separates (front ++ .enumConstant :: next :: back)) : next.isMember = false :=
  (List.isChain_append_cons_cons.1 h).2.1 rfl

end Kind

namespace Node

theorem Whole.kind_ne_error {node : Node} (h : node.Whole) : node.kind ≠ .error := by
  cases h with
  | leaf _ herror _ => exact herror
  | branch hconstruct =>
    rintro rfl
    cases hconstruct

/-- Nothing is missing in a whole tree. -/
theorem Whole.isGap_eq_false {node : Node} (h : node.Whole) : node.isGap = false := by
  have herror := h.kind_ne_error
  rw [isGap, Bool.and_eq_false_iff]
  left
  cases hkind : node.kind <;> first | rfl | exact absurd hkind herror

/-- A node with a child is a construct, and the child is whole. -/
theorem Whole.of_mem_children {node child : Node} (h : node.Whole)
    (hchild : child ∈ node.children) :
    node.kind.isConstruct = true ∧ child.Whole := by
  cases h with
  | leaf => simp [children] at hchild
  | branch hconstruct hwhole => exact ⟨hconstruct, hwhole child hchild⟩

/-- An expression statement that is no part of a counting loop ends with a semicolon. -/
theorem Whole.isEnded {node child : Node} (h : node.Whole) (hkind : node.kind ≠ .forStatement)
    (hchild : child ∈ node.children) : child.IsEnded := by
  cases h with
  | leaf => simp [children] at hchild
  | branch _ _ _ hended => exact hended hkind child hchild

/-- The parts of a construct fit its kind. -/
theorem Whole.admits {node : Node} (h : node.Whole) (hkind : node.kind.isConstruct = true) :
    node.kind.Admits (partKinds node.children) := by
  cases h with
  | leaf hconstruct =>
    rw [kind, hconstruct] at hkind
    cases hkind
  | branch _ _ hadmits => exact hadmits

end Node

namespace Cursor

variable {c : Cursor}

/-! ## Whole nodes in their place -/

/-- A node of a whole tree in its place. -/
structure IsWhole (c : Cursor) : Prop where
  whole : c.node.Whole
  parent : ∀ p, c.parent? = some p → p.node.Whole ∧ c ∈ p.children
  ended : c.parentKind? ≠ some .forStatement → c.node.IsEnded

theorem IsWhole.root {tree : Node} (h : tree.Whole) (hended : tree.IsEnded) :
    (Cursor.root tree).IsWhole :=
  ⟨h, nofun, fun _ => hended⟩

theorem node_mem_of_mem_children {child : Cursor} (h : child ∈ c.children) :
    child.node ∈ c.node.children := by
  obtain ⟨front, node, back, hchildren, rfl⟩ := mem_placeAll.1 h
  rw [hchildren]
  exact List.mem_append_right _ List.mem_cons_self

theorem Below.every {d : Cursor} {holds : Node → Prop} (h : Below c d)
    (hevery : c.node.Every holds) :
    d.node.Every holds := by
  induction h with
  | self => exact hevery
  | child _ hchild ih => exact ih.of_mem_children (node_mem_of_mem_children hchild)

theorem IsWhole.child (h : c.IsWhole) {child : Cursor} (hchild : child ∈ c.children) :
    child.IsWhole := by
  have hparent := parent?_of_mem_children hchild
  have hmem := node_mem_of_mem_children hchild
  refine ⟨(h.whole.of_mem_children hmem).2, fun p hp => ?_, fun hkind => h.whole.isEnded ?_ hmem⟩
  · obtain rfl := Option.some.inj (hparent.symm.trans hp)
    exact ⟨h.whole, hchild⟩
  · rw [parentKind?, hparent] at hkind
    exact fun heq => hkind (congrArg some heq)

/-- Every node of a whole tree is whole. -/
theorem IsWhole.below (h : c.IsWhole) {d : Cursor} (hd : Below c d) : d.IsWhole := by
  induction hd with
  | self => exact h
  | child _ hchild ih => exact ih.child hchild

/-! ## Among the children -/

theorem map_node_placeAll (above : List Placed) (index offset : Nat) (nodes : List Node) :
    (placeAll above index offset nodes).map (·.node) = nodes := by
  induction nodes generalizing index offset with
  | nil => rfl
  | cons node rest ih => rw [placeAll, List.map_cons, ih]

/-- The kinds of cursors in a row that are on neither white space nor comments. -/
def kinds (row : List Cursor) : List Kind :=
  (row.filter (!·.kind.isTrivia)).map kind

theorem kinds_append (a b : List Cursor) : kinds (a ++ b) = kinds a ++ kinds b := by
  rw [kinds, List.filter_append, List.map_append, kinds, kinds]

theorem kinds_cons {child : Cursor} (h : child.kind.isTrivia = false) (row : List Cursor) :
    kinds (child :: row) = child.kind :: kinds row := by
  rw [kinds, List.filter_cons_of_pos (by simp [h]), List.map_cons, kinds]

theorem kinds_children (c : Cursor) : kinds c.children = Node.partKinds c.node.children := by
  rw [kinds, children, Node.partKinds]
  conv => rhs; rw [← map_node_placeAll (c.toPlaced :: c.above) 0 c.offset c.node.children]
  rw [List.filter_map, List.map_map]
  rfl

/-- What is promised among the parts is found among the children. -/
theorem child?_isSome {kind : Kind} (h : kind ∈ Node.partKinds c.node.children) :
    (c.child? kind).isSome := by
  rw [← kinds_children] at h
  obtain ⟨child, hchild, hkind⟩ := List.mem_map.1 h
  refine List.find?_isSome.2 ⟨child, (List.mem_filter.1 hchild).1, ?_⟩
  simpa using hkind

theorem child?_ne_none {kind : Kind} (h : kind ∈ Node.partKinds c.node.children) :
    c.child? kind ≠ none :=
  Option.isSome_iff_ne_none.1 (child?_isSome h)

theorem map_node_of_children_eq {front back : List Cursor} {child : Cursor}
    (h : c.children = front ++ child :: back) :
    c.node.children = front.map (·.node) ++ child.node :: back.map (·.node) := by
  rw [← map_node_placeAll (c.toPlaced :: c.above) 0 c.offset c.node.children, ← children, h,
    List.map_append, List.map_cons]

/-- The children in front of a child tell its place. -/
theorem eq_of_children_eq {front back : List Cursor} {child : Cursor}
    (h : c.children = front ++ child :: back) :
    child = ⟨⟨child.node, c.offset + Node.sizeAll (front.map (·.node)), front.length⟩,
      c.toPlaced :: c.above⟩ := by
  have hlength : (front.map (·.node)).length = front.length := List.length_map ..
  have hget : c.children[front.length]? = some child := by
    rw [h, List.getElem?_append_right (Nat.le_refl _), Nat.sub_self, List.getElem?_cons_zero]
  rw [children, getElem?_placeAll, map_node_of_children_eq h, ← hlength,
    List.getElem?_append_right (Nat.le_refl _), Nat.sub_self, List.getElem?_cons_zero,
    List.take_left, Nat.zero_add, hlength] at hget
  exact (Option.some.inj hget).symm

/-- A child stands in the row behind as many others as its index says. -/
theorem index_of_children_eq {front back : List Cursor} {child : Cursor}
    (h : c.children = front ++ child :: back) : child.index = front.length :=
  congrArg (·.index) (eq_of_children_eq h)

/-- A child starts behind the text of the children in front of it. -/
theorem offset_of_children_eq {front back : List Cursor} {child : Cursor}
    (h : c.children = front ++ child :: back) :
    child.offset = c.offset + Node.sizeAll (front.map (·.node)) :=
  congrArg (·.offset) (eq_of_children_eq h)

theorem childrenAfter_of_children_eq {front back : List Cursor} {child : Cursor}
    (h : c.children = front ++ child :: back) : c.childrenAfter child.index = back := by
  have hlength : child.index + 1 = (front ++ [child]).length := by
    rw [index_of_children_eq h, List.length_append, List.length_singleton]
  rw [List.append_cons] at h
  rw [childrenAfter, hlength, h, List.drop_left]

/-- A child is found in front of all others of its kind. -/
theorem exists_of_child? {kind : Kind} {child : Cursor} (h : c.child? kind = some child) :
    ∃ front, c.children = front ++ child :: c.childrenAfter child.index
      ∧ child.kind = kind ∧ kind ∉ kinds front := by
  obtain ⟨hkind, front, back, hchildren, hfront⟩ := List.find?_eq_some_iff_append.1 h
  refine ⟨front, ?_, by simpa using hkind, fun hmem => ?_⟩
  · rw [childrenAfter_of_children_eq hchildren, hchildren]
  · obtain ⟨other, hother, hsame⟩ := List.mem_map.1 hmem
    have hne := hfront other (List.mem_filter.1 hother).1
    simp [hsame] at hne

namespace IsWhole

/-- Nothing is missing among the children, so all but white space and comments are parts. -/
theorem parts_eq (h : c.IsWhole) : c.parts = c.children.filter (!·.kind.isTrivia) := by
  refine List.filter_congr fun child hchild => ?_
  rw [(h.child hchild).whole.isGap_eq_false, Bool.not_false, Bool.and_true]

theorem lastPart?_map (h : c.IsWhole) :
    c.lastPart?.map kind = (Node.partKinds c.node.children).getLast? := by
  rw [lastPart?, h.parts_eq, ← kinds_children, kinds, List.getLast?_map]

theorem admits (h : c.IsWhole) {kind : Kind} (hkind : c.kind = kind)
    (hconstruct : kind.isConstruct = true) : kind.Admits (Node.partKinds c.node.children) := by
  subst hkind
  exact h.whole.admits hconstruct

theorem fits (h : c.IsWhole) {kind : Kind} (hkind : c.kind = kind)
    (hconstruct : kind.isConstruct = true) : kind.Fits (Node.partKinds c.node.children) :=
  (h.admits hkind hconstruct).fits

/-- The children stand around a child, and its index tells where. -/
theorem exists_siblings (h : c.IsWhole) {p : Cursor} (hp : c.parent? = some p) :
    ∃ front back, p.children = front ++ c :: back ∧ p.children.take c.index = front
      ∧ p.childrenAfter c.index = back := by
  obtain ⟨front, back, hchildren⟩ := List.append_of_mem (h.parent p hp).2
  refine ⟨front, back, hchildren, ?_, childrenAfter_of_children_eq hchildren⟩
  rw [index_of_children_eq hchildren, hchildren, List.take_left]

end IsWhole

end Cursor

end StatementCompletion
