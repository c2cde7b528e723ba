import StatementCompletion.Proofs.Tree.Walks

/-!
# Cursors in a tree

`Below top c` says that a cursor is reached from another one by steps down to children.  What is
below a cursor lies inside it, and the steps up and sideways stay in the tree.
-/

namespace StatementCompletion.Cursor

/-- A cursor is reached from another by steps down. -/
inductive Below (top : Cursor) : Cursor → Prop where
  | self : Below top top
  | child {c child : Cursor} : Below top c → child ∈ c.children → Below top child

variable {top c : Cursor}

/-! ## Children -/

/-- Of two nodes in a row, one is the other or in front of it. -/
theorem split_cases {α : Type} {a b c d : List α} {x y : α} (h : a ++ x :: b = c ++ y :: d) :
    (a = c ∧ x = y ∧ b = d) ∨ (∃ middle, a = c ++ y :: middle ∧ d = middle ++ x :: b)
      ∨ ∃ middle, c = a ++ x :: middle ∧ b = middle ++ y :: d := by
  rcases List.append_eq_append_iff.1 h with ⟨middle, hc, hrest⟩ | ⟨middle, ha, hrest⟩
  · cases middle with
    | nil =>
      obtain ⟨hxy, hbd⟩ := List.cons.inj hrest
      exact .inl ⟨by rw [hc, List.append_nil], hxy, hbd⟩
    | cons z middle =>
      obtain ⟨rfl, hb⟩ := List.cons.inj hrest
      exact .inr (.inr ⟨middle, hc, hb⟩)
  · cases middle with
    | nil =>
      obtain ⟨hyx, hdb⟩ := List.cons.inj hrest
      exact .inl ⟨by rw [ha, List.append_nil], hyx.symm, hdb.symm⟩
    | cons z middle =>
      obtain ⟨rfl, hd⟩ := List.cons.inj hrest
      exact .inr (.inl ⟨middle, ha, hd⟩)

/-- A child stands behind the nodes in front of it. -/
theorem mem_placeAll {above : List Placed} {index offset : Nat} {nodes : List Node}
    {child : Cursor} :
    child ∈ placeAll above index offset nodes ↔ ∃ front node back, nodes = front ++ node :: back
      ∧ child = ⟨⟨node, offset + Node.sizeAll front, index + front.length⟩, above⟩ := by
  induction nodes generalizing index offset with
  | nil => simp [placeAll]
  | cons first rest ih =>
    rw [placeAll, List.mem_cons, ih]
    constructor
    · rintro (rfl | ⟨front, node, back, rfl, rfl⟩)
      · exact ⟨[], first, rest, rfl, rfl⟩
      · refine ⟨first :: front, node, back, rfl, ?_⟩
        simp only [Node.sizeAll, List.length_cons, Nat.add_assoc, Nat.add_comm 1]
    · rintro ⟨front, node, back, hnodes, rfl⟩
      cases front with
      | nil =>
        obtain ⟨rfl, rfl⟩ := List.cons.inj hnodes
        exact .inl rfl
      | cons first' front =>
        obtain ⟨rfl, rfl⟩ := List.cons.inj hnodes
        refine .inr ⟨front, node, back, rfl, ?_⟩
        simp only [Node.sizeAll, List.length_cons, Nat.add_assoc, Nat.add_comm 1]

theorem parent?_of_mem_children {child : Cursor} (h : child ∈ c.children) :
    child.parent? = some c := by
  obtain ⟨front, node, back, -, rfl⟩ := mem_placeAll.1 h
  rfl

theorem ancestors_of_mem_children {child : Cursor} (h : child ∈ c.children) :
    child.ancestors = c :: c.ancestors := by
  obtain ⟨front, node, back, -, rfl⟩ := mem_placeAll.1 h
  rfl

theorem Below.trans {d : Cursor} (hc : Below top c) (hd : Below c d) : Below top d := by
  induction hd with
  | self => exact hc
  | child _ hchild ih => exact ih.child hchild

/-! ## Downwards -/

/-- What is below a node is the node or below one of its children. -/
theorem Below.eq_or_child (h : Below top c) : c = top ∨ ∃ child ∈ top.children, Below child c := by
  induction h with
  | self => exact .inl rfl
  | @child c child _ hchild ih =>
    rcases ih with rfl | ⟨first, hfirst, hbelow⟩
    · exact .inr ⟨child, hchild, .self⟩
    · exact .inr ⟨first, hfirst, hbelow.child hchild⟩

theorem children_of_isLeaf (h : c.node.isLeaf = true) : c.children = [] := by
  obtain ⟨⟨node, offset, index⟩, above⟩ := c
  cases node with
  | leaf kind text => rfl
  | error problem text => rfl
  | branch kind children => cases h

/-- Below a leaf there is only itself. -/
theorem Below.eq_of_isLeaf (h : Below top c) (hleaf : top.node.isLeaf = true) : c = top := by
  rcases h.eq_or_child with rfl | ⟨child, hchild, -⟩
  · rfl
  · rw [children_of_isLeaf hleaf] at hchild
    cases hchild

/-- A node with a row of children is a branch with that row. -/
theorem exists_branch_of_append {own node : Node} {before after : List Node}
    (h : own.children = before ++ node :: after) :
    ∃ kind, own = .branch kind (before ++ node :: after) := by
  have hne : own.children ≠ [] := by
    rw [h]
    exact List.append_ne_nil_of_right_ne_nil _ (List.cons_ne_nil _ _)
  obtain ⟨kind, children, rfl⟩ := exists_branch_of_children hne
  obtain rfl : children = before ++ node :: after := h
  exact ⟨kind, rfl⟩

/-- A child lies inside its parent. -/
theorem bounds_of_mem_children {child : Cursor} (h : child ∈ c.children) :
    c.offset ≤ child.offset ∧ child.stop ≤ c.stop := by
  obtain ⟨before, node, after, hchildren, rfl⟩ := mem_placeAll.1 h
  obtain ⟨⟨own, offset, index⟩, above⟩ := c
  obtain ⟨kind, rfl⟩ := exists_branch_of_append hchildren
  refine ⟨Nat.le_add_right _ _, ?_⟩
  show offset + Node.sizeAll before + node.size ≤ offset + Node.sizeAll (before ++ node :: after)
  rw [Node.sizeAll_append, Node.sizeAll]
  omega

theorem Below.bounds (h : Below top c) : top.offset ≤ c.offset ∧ c.stop ≤ top.stop := by
  induction h with
  | self => exact ⟨Nat.le_refl _, Nat.le_refl _⟩
  | child _ hchild ih =>
    have hbounds := bounds_of_mem_children hchild
    omega

/-! ## Ancestors and siblings -/

variable {n : Node}

theorem Below.ancestor (h : Below (root n) c) : ∀ p ∈ c.ancestors, Below (root n) p := by
  induction h with
  | self => simp [ancestors, root, stack]
  | child hc hchild ih =>
    rw [ancestors_of_mem_children hchild]
    exact List.forall_mem_cons.2 ⟨hc, ih⟩

theorem Below.parent (h : Below (root n) c) {p : Cursor} (hp : c.parent? = some p) :
    Below (root n) p :=
  h.ancestor p (List.mem_of_mem_head? hp)

/-- Below a branch every leaf has a parent. -/
theorem Below.parent?_isSome (h : Below (root n) c) (hn : n.isLeaf = false)
    (hc : c.node.isLeaf = true) : c.parent?.isSome := by
  cases h with
  | self => simp [root, hn] at hc
  | child _ hchild => simp [parent?_of_mem_children hchild]

theorem mem_before {sibling : Cursor} (h : sibling ∈ c.before) :
    ∃ p, c.parent? = some p ∧ sibling ∈ p.children := by
  unfold before at h
  split at h
  · next p hp =>
    exact ⟨p, hp, List.mem_of_mem_take (List.mem_reverse.1 (List.mem_filter.1 h).1)⟩
  · cases h

/-! ## Depth -/

section

variable {d child : Cursor}

theorem length_above_of_mem_children (h : child ∈ c.children) :
    child.above.length = c.above.length + 1 := by
  obtain ⟨front, node, back, -, rfl⟩ := mem_placeAll.1 h
  rfl

theorem Below.length_above_le (h : Below top c) : top.above.length ≤ c.above.length := by
  induction h with
  | self => exact Nat.le_refl _
  | child _ hchild ih =>
    rw [length_above_of_mem_children hchild]
    exact Nat.le_succ_of_le ih

/-- What is below a child is deeper than the parent. -/
theorem Below.length_above_lt (hchild : child ∈ top.children) (h : Below child c) :
    top.above.length < c.above.length := by
  have hle := h.length_above_le
  rw [length_above_of_mem_children hchild] at hle
  omega

/-- Above a node there is one node of each depth. -/
theorem Below.eq_of_length_above (hc : Below c top) (hd : Below d top)
    (hlength : c.above.length = d.above.length) : c = d := by
  induction hc with
  | self =>
    rcases hd.eq_or_child with rfl | ⟨child, hchild, hbelow⟩
    · rfl
    · have hlt := hbelow.length_above_lt hchild
      omega
  | @child p top hp hchild ih =>
    cases hd with
    | self =>
      have hle := hp.length_above_le
      rw [length_above_of_mem_children hchild] at hlength
      omega
    | child hq hchild' =>
      have hparent := parent?_of_mem_children hchild
      rw [parent?_of_mem_children hchild'] at hparent
      obtain rfl := Option.some.inj hparent
      exact ih hq

/-- A node is below one child at most. -/
theorem Below.child_unique {other : Cursor} (h : Below child c) (hchild : child ∈ top.children)
    (hother : other ∈ top.children) (h' : Below other c) : child = other := by
  refine h.eq_of_length_above h' ?_
  rw [length_above_of_mem_children hchild, length_above_of_mem_children hother]

/-- No node is below a child of its own. -/
theorem Below.not_below_child {p q : Cursor} (h : Below c p) (hq : q ∈ p.children) :
    ¬ Below q c := by
  intro hbelow
  have hlt := hbelow.length_above_lt hq
  have hle := h.length_above_le
  omega

end

/-! ## Some of the children -/

theorem mem_of_child? {kind : Kind} {child : Cursor} (h : c.child? kind = some child) :
    child ∈ c.children :=
  List.mem_of_find?_eq_some h

theorem mem_of_lastChild? {kind : Kind} {child : Cursor} (h : c.lastChild? kind = some child) :
    child ∈ c.children :=
  mem_childrenFromEnd (List.mem_of_find?_eq_some h)

theorem kind_of_child? {wanted : Kind} {child : Cursor} (h : c.child? wanted = some child) :
    child.kind = wanted := by
  unfold child? at h
  simpa using List.find?_some h

theorem kind_of_lastChild? {wanted : Kind} {child : Cursor} (h : c.lastChild? wanted = some child) :
    child.kind = wanted := by
  unfold lastChild? at h
  simpa using List.find?_some h

theorem mem_parts {child : Cursor} (h : child ∈ c.parts) : child ∈ c.children :=
  (List.mem_filter.1 h).1

theorem mem_of_lastPart? {child : Cursor} (h : c.lastPart? = some child) : child ∈ c.children :=
  mem_parts (List.mem_of_getLast? h)

theorem mem_childrenAfter {index : Nat} {child : Cursor} (h : child ∈ c.childrenAfter index) :
    child ∈ c.children :=
  List.mem_of_mem_drop h

theorem drop_placeAll (above : List Placed) (index offset : Nat) (front back : List Node) :
    (placeAll above index offset (front ++ back)).drop front.length
      = placeAll above (index + front.length) (offset + Node.sizeAll front) back := by
  rw [placeAll_append, ← length_placeAll above index offset front, List.drop_left,
    length_placeAll]

/-- A child behind another one starts where that one stops or later. -/
theorem stop_le_offset_of_mem_childrenAfter {child later : Cursor} (hchild : child ∈ c.children)
    (hlater : later ∈ c.childrenAfter child.index) : child.stop ≤ later.offset := by
  obtain ⟨front, node, back, hchildren, rfl⟩ := mem_placeAll.1 hchild
  have hdrop := drop_placeAll (c.toPlaced :: c.above) 0 c.offset (front ++ [node]) back
  rw [List.append_assoc, List.singleton_append, ← hchildren, List.length_append,
    List.length_singleton] at hdrop
  rw [childrenAfter, Nat.zero_add, children, hdrop] at hlater
  obtain ⟨front', node', back', -, rfl⟩ := mem_placeAll.1 hlater
  show c.offset + Node.sizeAll front + node.size
    ≤ c.offset + Node.sizeAll (front ++ [node]) + Node.sizeAll front'
  rw [Node.sizeAll_append, Node.sizeAll, Node.sizeAll]
  omega

end StatementCompletion.Cursor
