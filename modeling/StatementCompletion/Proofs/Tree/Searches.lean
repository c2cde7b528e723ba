import StatementCompletion.Proofs.Tree.Below

/-!
# Searches down a tree

All that is below a cursor is in its preorder, and every search down a tree is a search in that
list: the leaves are picked from it, the leaf at a position and the last leaf are picked from the
leaves, and a node with a span and a kind is the first one in it that has them.  Each of these is
one pair of lemmas, about a node at its place and about nodes in a row among the children; what a
search finds, and when, follows from what is in the list.
-/

namespace StatementCompletion.Cursor

variable {top c : Cursor}

/-! ## All nodes below a cursor -/

section

variable {above : List Placed} {index offset : Nat}

/-- Nodes in a row, all of them below a cursor. -/
def RowBelow (top : Cursor) (above : List Placed) (index offset : Nat) (nodes : List Node) : Prop :=
  ∀ child ∈ placeAll above index offset nodes, Below top child

theorem RowBelow.of_cons {node : Node} {rest : List Node}
    (h : RowBelow top above index offset (node :: rest)) :
    Below top ⟨⟨node, offset, index⟩, above⟩
      ∧ RowBelow top above (index + 1) (offset + node.size) rest :=
  List.forall_mem_cons.1 h

theorem Below.rowBelow {kind : Kind} {children : List Node}
    (h : Below top ⟨⟨.branch kind children, offset, index⟩, above⟩) :
    RowBelow top (⟨.branch kind children, offset, index⟩ :: above) 0 offset children :=
  fun _ hchild => h.child hchild

mutual

theorem below_of_mem_preorderAt (node : Node) (above : List Placed) (index offset : Nat)
    (h : Below top ⟨⟨node, offset, index⟩, above⟩) :
    ∀ c ∈ preorderAt above index offset node, Below top c := by
  match node with
  | .leaf kind text => simpa [preorderAt] using h
  | .error problem text => simpa [preorderAt] using h
  | .branch kind children =>
    rw [preorderAt]
    exact List.forall_mem_cons.2 ⟨h, below_of_mem_preorderAll children _ 0 offset h.rowBelow⟩

theorem below_of_mem_preorderAll (nodes : List Node) (above : List Placed) (index offset : Nat)
    (h : RowBelow top above index offset nodes) :
    ∀ c ∈ preorderAll above index offset nodes, Below top c := by
  match nodes with
  | [] => simp [preorderAll]
  | node :: rest =>
    rw [preorderAll]
    obtain ⟨hnode, hrest⟩ := h.of_cons
    intro c hc
    rcases List.mem_append.1 hc with hc | hc
    · exact below_of_mem_preorderAt node above index offset hnode c hc
    · exact below_of_mem_preorderAll rest above _ _ hrest c hc

end

/-- A node is in front of its descendants. -/
theorem mem_preorderAt_self (node : Node) (above : List Placed) (index offset : Nat) :
    ⟨⟨node, offset, index⟩, above⟩ ∈ preorderAt above index offset node := by
  cases node <;> simp [preorderAt]

theorem mem_preorderAll {nodes : List Node} {child : Cursor}
    (h : child ∈ placeAll above index offset nodes) :
    child ∈ preorderAll above index offset nodes := by
  induction nodes generalizing index offset with
  | nil => cases h
  | cons node rest ih =>
    rw [preorderAll, List.mem_append]
    rcases List.mem_cons.1 h with rfl | h
    · exact .inl (mem_preorderAt_self node above index offset)
    · exact .inr (ih h)

mutual

/-- With a node there are its children. -/
theorem child_mem_preorderAt (node : Node) (above : List Placed) (index offset : Nat)
    {c child : Cursor} (hchild : child ∈ c.children) (hc : c ∈ preorderAt above index offset node) :
    child ∈ preorderAt above index offset node := by
  match node with
  | .leaf kind text =>
    rw [preorderAt, List.mem_singleton] at hc
    subst hc
    cases hchild
  | .error problem text =>
    rw [preorderAt, List.mem_singleton] at hc
    subst hc
    cases hchild
  | .branch kind children =>
    rw [preorderAt] at hc ⊢
    refine List.mem_cons_of_mem _ ?_
    rcases List.mem_cons.1 hc with rfl | hc
    · exact mem_preorderAll hchild
    · exact child_mem_preorderAll children _ 0 offset hchild hc

theorem child_mem_preorderAll (nodes : List Node) (above : List Placed) (index offset : Nat)
    {c child : Cursor} (hchild : child ∈ c.children)
    (hc : c ∈ preorderAll above index offset nodes) :
    child ∈ preorderAll above index offset nodes := by
  match nodes with
  | [] => cases hc
  | node :: rest =>
    rw [preorderAll, List.mem_append] at hc ⊢
    exact hc.imp (child_mem_preorderAt node above index offset hchild)
      (child_mem_preorderAll rest above _ _ hchild)

end

end

theorem below_of_mem_preorder {d : Cursor} (h : d ∈ c.preorder) : Below c d :=
  below_of_mem_preorderAt c.node c.above c.index c.offset .self d h

theorem Below.mem_preorder {d : Cursor} (h : Below c d) : d ∈ c.preorder := by
  induction h with
  | self => exact mem_preorderAt_self c.node c.above c.index c.offset
  | child _ hchild ih => exact child_mem_preorderAt c.node c.above c.index c.offset hchild ih

/-! ## Leaves below a cursor -/

/-- Whether a cursor is on a leaf or an error that covers some text. -/
def hasOwnText (c : Cursor) : Bool :=
  !c.node.ownText.isEmpty

theorem hasOwnText_iff : c.hasOwnText = true ↔ c.node.isLeaf = true ∧ 0 < c.node.size := by
  have hpos (text : Text) : (!text.isEmpty) = true ↔ 0 < text.size := by
    cases text with
    | nil => simp [Text.size]
    | cons x text => simp [Text.size_pos]
  obtain ⟨⟨node, offset, index⟩, above⟩ := c
  cases node with
  | leaf kind text => exact (hpos text).trans ⟨fun h => ⟨rfl, h⟩, And.right⟩
  | error problem text => exact (hpos text).trans ⟨fun h => ⟨rfl, h⟩, And.right⟩
  | branch kind children => simp [hasOwnText, Node.ownText, Node.isLeaf]

mutual

theorem leavesAt_eq_filter (node : Node) (above : List Placed) (index offset : Nat) :
    leavesAt above index offset node = (preorderAt above index offset node).filter hasOwnText := by
  match node with
  | .leaf kind text => cases text <;> rfl
  | .error problem text => cases text <;> rfl
  | .branch kind children =>
    rw [leavesAt, preorderAt, List.filter_cons_of_neg (by simp [hasOwnText, Node.ownText])]
    exact leavesAll_eq_filter children _ 0 offset

theorem leavesAll_eq_filter (nodes : List Node) (above : List Placed) (index offset : Nat) :
    leavesAll above index offset nodes
      = (preorderAll above index offset nodes).filter hasOwnText := by
  match nodes with
  | [] => rfl
  | node :: rest =>
    rw [leavesAll, preorderAll, List.filter_append, leavesAt_eq_filter node,
      leavesAll_eq_filter rest]

end

/-- The leaves are those nodes below that are leaves or errors and cover some text. -/
theorem mem_leaves_iff {leaf : Cursor} :
    leaf ∈ c.leaves ↔ Below c leaf ∧ leaf.node.isLeaf = true ∧ 0 < leaf.node.size := by
  rw [leaves, leavesAt_eq_filter, List.mem_filter, hasOwnText_iff]
  exact and_congr_left' ⟨below_of_mem_preorder, Below.mem_preorder⟩

theorem below_of_mem_leaves {leaf : Cursor} (h : leaf ∈ c.leaves) : Below c leaf :=
  (mem_leaves_iff.1 h).1

/-! ## The leaf at a position -/

section

variable {position : Nat}

theorem covers_iff {offset size : Nat} :
    covers offset size position = true ↔ offset ≤ position ∧ position < offset + size := by
  simp [covers]

/-- Whether a position lies on a node. -/
def isOver (position : Nat) (c : Cursor) : Bool :=
  covers c.offset c.node.size position

theorem Row.filter_isOver {offset : Nat} {text : Text} {leaves : List Cursor}
    (h : Row offset text leaves)
    (hout : ¬covers offset text.size position = true) : leaves.filter (isOver position) = [] := by
  rw [List.filter_eq_nil_iff]
  intro leaf hleaf hover
  have hbounds := h.bounds leaf hleaf
  have hinside := covers_iff.1 hover
  rw [stop] at hbounds
  exact hout (covers_iff.2 ⟨by omega, by omega⟩)

/-- A leaf with some text lies over the positions that it covers, and one without lies over none. -/
theorem filter_isOver_leaf (leaf : Cursor) {text : Text} (hsize : leaf.node.size = text.size) :
    (if text.isEmpty then [] else [leaf]).filter (isOver position)
      = (if covers leaf.offset text.size position then some leaf else none).toList := by
  split
  · next hempty =>
    have hout : ¬covers leaf.offset text.size position = true := by
      rw [covers_iff, List.isEmpty_iff.1 hempty]
      show ¬(leaf.offset ≤ position ∧ position < leaf.offset + 0)
      omega
    rw [if_neg hout]
    rfl
  · rw [List.filter_singleton, isOver, hsize]
    cases covers leaf.offset text.size position <;> rfl

mutual

/-- The search for a leaf finds what lies over the position in the row of leaves. -/
theorem filter_leavesAt (node : Node) (above : List Placed) (index offset : Nat) :
    (leavesAt above index offset node).filter (isOver position)
      = (findLeaf position above index offset node).toList := by
  match node with
  | .leaf kind text => exact filter_isOver_leaf ⟨⟨.leaf kind text, offset, index⟩, above⟩ rfl
  | .error problem text =>
    exact filter_isOver_leaf ⟨⟨.error problem text, offset, index⟩, above⟩ rfl
  | .branch kind children => exact filter_leavesAll children _ 0 offset

theorem filter_leavesAll (nodes : List Node) (above : List Placed) (index offset : Nat) :
    (leavesAll above index offset nodes).filter (isOver position)
      = (findLeafAll position above index offset nodes).toList := by
  match nodes with
  | [] => rfl
  | node :: rest =>
    rw [leavesAll, findLeafAll, List.filter_append]
    have hrow := row_leavesAt node above index offset
    have hrest := row_leavesAll rest above (index + 1) (offset + node.size)
    -- what is in front of the position and what is behind it is dropped from the row
    split
    · next hcovers =>
      have hout : ¬covers (offset + node.size) (Node.textAll rest).size position = true := by
        rw [covers_iff] at hcovers ⊢
        omega
      rw [hrest.filter_isOver hout, List.append_nil]
      exact filter_leavesAt node above index offset
    · next hcovers =>
      rw [← Node.size_text] at hcovers
      rw [hrow.filter_isOver hcovers, List.nil_append]
      exact filter_leavesAll rest above _ _

end

/-- The leaf at a position is the only one that lies over it. -/
theorem filter_leaves (c : Cursor) (position : Nat) :
    c.leaves.filter (isOver position) = (c.leafAt? position).toList :=
  filter_leavesAt c.node c.above c.index c.offset

theorem leafAt?_eq_some_iff {leaf : Cursor} :
    c.leafAt? position = some leaf
      ↔ leaf ∈ c.leaves ∧ leaf.offset ≤ position ∧ position < leaf.stop := by
  rw [← Option.mem_toList, ← filter_leaves, List.mem_filter, isOver, covers_iff]
  rfl

theorem below_of_leafAt? {leaf : Cursor} (h : c.leafAt? position = some leaf) : Below c leaf :=
  below_of_mem_leaves (leafAt?_eq_some_iff.1 h).1

theorem isLeaf_of_leafAt? {leaf : Cursor} (h : c.leafAt? position = some leaf) :
    leaf.node.isLeaf = true :=
  (mem_leaves_iff.1 (leafAt?_eq_some_iff.1 h).1).2.1

theorem covers_of_leafAt? {leaf : Cursor} (h : c.leafAt? position = some leaf) :
    leaf.offset ≤ position ∧ position < leaf.stop :=
  (leafAt?_eq_some_iff.1 h).2

/-- There is a leaf at a position exactly if the node covers it. -/
theorem leafAt?_isSome_iff :
    (c.leafAt? position).isSome ↔ c.offset ≤ position ∧ position < c.stop := by
  constructor
  · intro hsome
    obtain ⟨leaf, hleaf⟩ := Option.isSome_iff_exists.1 hsome
    have hcovers := covers_of_leafAt? hleaf
    have hbounds := (below_of_leafAt? hleaf).bounds
    omega
  · rintro ⟨hstart, hstop⟩
    rw [stop, ← Node.size_text] at hstop
    obtain ⟨leaf, hleaf⟩ := (row_leaves c).exists_over hstart hstop
    exact Option.isSome_iff_exists.2 ⟨leaf, leafAt?_eq_some_iff.2 hleaf⟩

theorem leafAt?_isSome (hstart : c.offset ≤ position) (hstop : position < c.stop) :
    (c.leafAt? position).isSome :=
  leafAt?_isSome_iff.2 ⟨hstart, hstop⟩

end

/-! ## The last leaf -/

mutual

/-- The search for the last leaf finds the last one in the row of leaves. -/
theorem findLast_eq (node : Node) (above : List Placed) (index offset : Nat) :
    findLast above index offset node
      = ((leavesAt above index offset node).filter (!·.kind.isTrivia)).getLast? := by
  match node with
  | .leaf kind text =>
    rw [findLast, leavesAt]
    cases htrivia : kind.isTrivia <;> cases text <;> simp [Cursor.kind, Node.kind, htrivia]
  | .error problem text =>
    rw [findLast, leavesAt]
    cases text <;> rfl
  | .branch kind children => exact findLastAll_eq children _ 0 offset

theorem findLastAll_eq (nodes : List Node) (above : List Placed) (index offset : Nat) :
    findLastAll above index offset nodes
      = ((leavesAll above index offset nodes).filter (!·.kind.isTrivia)).getLast? := by
  match nodes with
  | [] => rfl
  | node :: rest =>
    rw [findLastAll, leavesAll, List.filter_append, List.getLast?_append, findLast_eq node,
      findLastAll_eq rest]
    cases ((leavesAll above (index + 1) (offset + node.size) rest).filter
      (!·.kind.isTrivia)).getLast? <;> rfl

end

theorem lastLeaf?_eq (c : Cursor) :
    c.lastLeaf? = (c.leaves.filter (!·.kind.isTrivia)).getLast? :=
  findLast_eq c.node c.above c.index c.offset

theorem below_of_lastLeaf? {leaf : Cursor} (h : c.lastLeaf? = some leaf) : Below c leaf := by
  rw [lastLeaf?_eq] at h
  exact below_of_mem_leaves (List.mem_filter.1 (List.mem_of_getLast? h)).1

/-! ## The search for a span and a kind -/

section

variable {span : Span} {kind : Kind}

theorem contains_iff {offset size : Nat} :
    contains offset size span = true ↔ offset ≤ span.start ∧ span.stop ≤ offset + size := by
  simp [contains]

/-- Whether a node has a span and a kind. -/
def hasExtent (span : Span) (kind : Kind) (c : Cursor) : Bool :=
  span = c.span ∧ kind = c.kind

theorem hasExtent_iff : c.hasExtent span kind = true ↔ c.span = span ∧ c.kind = kind := by
  rw [hasExtent, decide_eq_true_eq]
  constructor
  · rintro ⟨rfl, rfl⟩
    exact ⟨rfl, rfl⟩
  · rintro ⟨rfl, rfl⟩
    exact ⟨rfl, rfl⟩

/-- The nodes of a tree lie inside every span that the tree lies in. -/
theorem find?_eq_none_of_not_contains (node : Node) (above : List Placed) (index offset : Nat)
    (h : ¬contains offset node.size span = true) :
    (preorderAt above index offset node).find? (hasExtent span kind) = none := by
  rw [List.find?_eq_none]
  intro c hc hextent
  obtain ⟨rfl, -⟩ := hasExtent_iff.1 hextent
  have hbelow := below_of_mem_preorderAt node above index offset .self c hc
  exact h (contains_iff.2 hbelow.bounds)

mutual

/-- To search a tree is to go through its nodes, each in front of its descendants. -/
theorem findIn_eq (node : Node) (above : List Placed) (index offset : Nat) :
    findIn span kind above index offset node
      = (preorderAt above index offset node).find? (hasExtent span kind) := by
  match node with
  | .leaf own text =>
    simp only [findIn, preorderAt, List.find?_singleton, hasExtent, decide_eq_true_eq]
    rfl
  | .error problem text =>
    simp only [findIn, preorderAt, List.find?_singleton, hasExtent, decide_eq_true_eq]
    rfl
  | .branch own children =>
    rw [findIn]
    split
    · next hhere =>
      have hfirst : hasExtent span kind ⟨⟨.branch own children, offset, index⟩, above⟩ = true :=
        decide_eq_true hhere
      rw [preorderAt, List.find?_cons_of_pos hfirst]
    · next hhere =>
      have hfirst : ¬hasExtent span kind ⟨⟨.branch own children, offset, index⟩, above⟩ = true :=
        fun h => hhere (of_decide_eq_true h)
      split
      · rw [preorderAt, List.find?_cons_of_neg hfirst]
        exact findInAll_eq children _ 0 offset
      · -- the children are passed over, but none of what is below has the span
        next hcontains =>
        exact (find?_eq_none_of_not_contains _ above index offset hcontains).symm

theorem findInAll_eq (nodes : List Node) (above : List Placed) (index offset : Nat) :
    findInAll span kind above index offset nodes
      = (preorderAll above index offset nodes).find? (hasExtent span kind) := by
  match nodes with
  | [] => rfl
  | node :: rest =>
    rw [findInAll, preorderAll, List.find?_append, ← findInAll_eq rest]
    have hnode : (if contains offset node.size span then findIn span kind above index offset node
        else none) = (preorderAt above index offset node).find? (hasExtent span kind) := by
      split
      · exact findIn_eq node above index offset
      · next hcontains =>
        exact (find?_eq_none_of_not_contains node above index offset hcontains).symm
    rw [hnode]
    cases (preorderAt above index offset node).find? (hasExtent span kind) <;> rfl

end

/-- A look-up goes through the nodes of the tree, each in front of its descendants. -/
theorem find?_eq (c : Cursor) (span : Span) (kind : Kind) :
    c.find? span kind = c.preorder.find? (hasExtent span kind) :=
  findIn_eq c.node c.above c.index c.offset

theorem spec_of_find? {found : Cursor} (h : c.find? span kind = some found) :
    Below c found ∧ found.span = span ∧ found.kind = kind := by
  rw [find?_eq] at h
  exact ⟨below_of_mem_preorder (List.mem_of_find?_eq_some h), hasExtent_iff.1 (List.find?_some h)⟩

theorem below_of_find? {found : Cursor} (h : c.find? span kind = some found) : Below c found :=
  (spec_of_find? h).1

theorem find?_eq_none_iff :
    top.find? span kind = none ↔ ∀ c, Below top c → ¬(c.span = span ∧ c.kind = kind) := by
  rw [find?_eq, List.find?_eq_none]
  constructor
  · intro hnone c hbelow hextent
    exact hnone c hbelow.mem_preorder (hasExtent_iff.2 hextent)
  · intro hnone c hc hextent
    exact hnone c (below_of_mem_preorder hc) (hasExtent_iff.1 hextent)

/-- A node below is found, or another one with its span and its kind. -/
theorem Below.exists_find? (h : Below top c) : ∃ found, top.find? c.span c.kind = some found := by
  cases hfind : top.find? c.span c.kind with
  | some found => exact ⟨found, rfl⟩
  | none => exact absurd ⟨rfl, rfl⟩ (find?_eq_none_iff.1 hfind c h)

end

end StatementCompletion.Cursor
