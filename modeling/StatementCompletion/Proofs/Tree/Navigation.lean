import StatementCompletion.Proofs.Tree.Parts
import StatementCompletion.Proofs.Tree.Spans

/-!
# Ways around a tree

Offsets are counted in more than one way: from the front and from the back of a row of children, and
on the way down to a leaf.  They agree.  The leaves lie one behind the other from the start of a
node to its end, the searches for a leaf find the one that stands in their row, and the steps to a
sibling go to the nearest one in the row of children.
-/

namespace StatementCompletion.Cursor

/-! ## Siblings in the row of children -/

section

variable {c child : Cursor} {front back : List Cursor}

theorem parent?_of_children_eq (h : c.children = front ++ child :: back) :
    child.parent? = some c := by
  refine parent?_of_mem_children ?_
  rw [h]
  exact List.mem_append_right _ List.mem_cons_self

/-- The nearest sibling in front is met first on the way back from the child. -/
theorem previousSibling?_of_children_eq (h : c.children = front ++ child :: back) :
    child.previousSibling? = front.reverse.find? (!·.kind.isTrivia) := by
  have hfront : c.children.take child.index = front := by
    rw [index_of_children_eq h, h, List.take_left]
  rw [previousSibling?, before, parent?_of_children_eq h]
  show ((c.children.take child.index).reverse.filter _).head? = _
  rw [hfront, List.head?_filter]

theorem nextSibling?_of_children_eq (h : c.children = front ++ child :: back) :
    child.nextSibling? = back.find? (!·.kind.isTrivia) := by
  rw [nextSibling?, after, parent?_of_children_eq h]
  show ((c.childrenAfter child.index).filter _).head? = _
  rw [childrenAfter_of_children_eq h, List.head?_filter]

/-- Those in front of a child come from the end behind the child and those behind it. -/
theorem drop_childrenFromEnd (h : c.children = front ++ child :: back) :
    c.childrenFromEnd.drop (c.children.length - child.index) = front.reverse := by
  have hlength : c.children.length - child.index = (child :: back).reverse.length := by
    rw [index_of_children_eq h, h, List.length_append, List.length_reverse]
    omega
  rw [hlength, childrenFromEnd_eq, h, List.reverse_append, List.drop_left]

end

/-! ## Coherence -/

/-- The ways around the tree below a node agree. -/
structure Coherent (c : Cursor) : Prop where
  /-- A child has its index, and starts behind the text of all children in front of it. -/
  children (index : Nat) : c.children[index]? = c.node.children[index]?.map fun node =>
    ⟨⟨node, c.offset + Node.sizeAll (c.node.children.take index), index⟩, c.toPlaced :: c.above⟩
  /-- A walk takes from an end what stands there in the row of those that are left. -/
  walk (ends : List Walk.End) : (Walk.ofCursor c).visit ends = Walk.pick c.children ends
  /-- A walk meets each child once, and leaves none as long as it goes on. -/
  once (ends : List Walk.End) : ∃ left, ((Walk.ofCursor c).visit ends ++ left).Perm c.children
    ∧ left.length = c.children.length - ends.length
  /-- The leaves lie one behind the other and spell the text. -/
  row : Row c.offset c.node.text c.leaves
  leaf (leaf : Cursor) :
    leaf ∈ c.leaves ↔ Below c leaf ∧ leaf.node.isLeaf = true ∧ 0 < leaf.node.size
  /-- There is a leaf at a position if the node covers it. -/
  isSome_leafAt (position : Nat) :
    (c.leafAt? position).isSome ↔ c.offset ≤ position ∧ position < c.stop
  /-- It is the only one in the row that covers the position. -/
  leafAt (position : Nat) :
    (c.leaves.filter fun leaf => leaf.offset ≤ position ∧ position < leaf.stop)
      = (c.leafAt? position).toList
  lastLeaf : c.lastLeaf? = (c.leaves.filter (!·.kind.isTrivia)).getLast?
  /-- The siblings of a child are the nearest in the row of children that are no trivia, whether
  those in front are taken off the row or come behind the others from the end. -/
  siblings (front back : List Cursor) (child : Cursor)
    (hchildren : c.children = front ++ child :: back) :
    child.previousSibling? = front.reverse.find? (!·.kind.isTrivia)
      ∧ child.nextSibling? = back.find? (!·.kind.isTrivia)
      ∧ c.childrenFromEnd.drop (c.children.length - child.index) = front.reverse
  alone : c.above = [] → c.previousSibling? = none ∧ c.nextSibling? = none

theorem coherent (c : Cursor) : c.Coherent where
  children index := by rw [Cursor.children, getElem?_placeAll, Nat.zero_add]
  walk := Walk.visit_ofCursor c
  once ends := by
    rw [Walk.visit_ofCursor]
    exact Walk.exists_perm_pick c.children ends
  row := row_leaves c
  leaf _ := mem_leaves_iff
  isSome_leafAt _ := leafAt?_isSome_iff
  leafAt position := by
    rw [← filter_leaves]
    refine List.filter_congr fun leaf _ => ?_
    rw [Bool.eq_iff_iff, decide_eq_true_eq, isOver, covers_iff, stop]
  lastLeaf := lastLeaf?_eq c
  siblings front back child h :=
    ⟨previousSibling?_of_children_eq h, nextSibling?_of_children_eq h, drop_childrenFromEnd h⟩
  alone := by
    intro habove
    have hparent : c.parent? = none := by rw [parent?, ancestors, habove, stack, List.head?_nil]
    rw [previousSibling?, nextSibling?, before, after, hparent]
    exact ⟨rfl, rfl⟩

/-- **All ways around a tree agree**, below every node of it, and from the root the leaf at a
position is found exactly as long as the text goes on. -/
theorem navigation_coherent :
    (∀ c : Cursor, c.Coherent)
      ∧ ∀ tree position, ((root tree).leafAt? position).isSome ↔ position < tree.text.size := by
  refine ⟨coherent, ?_⟩
  intro tree position
  rw [leafAt?_isSome_iff, Node.size_text]
  show 0 ≤ position ∧ position < 0 + tree.size ↔ position < tree.size
  omega

/-- A name, a blank, a gap and a semicolon, met from both ends.  The name and the semicolon are the
siblings of the gap, and the semicolon is what stands where the gap is. -/
theorem navigation_coherent_of_gap :
    let name : Node := .leaf .identifier ['a']
    let blank : Node := .leaf .whitespace [' ']
    let gap : Node := .error (.expected .expression) []
    let semicolon : Node := .leaf .semicolon [';']
    let tree : Node := .branch .expressionStatement [name, blank, gap, semicolon]
    let place (node : Node) (offset index : Nat) : Cursor := ⟨⟨node, offset, index⟩, [⟨tree, 0, 0⟩]⟩
    (Walk.ofCursor (root tree)).visit [.back, .front, .back, .back, .front]
        = [place semicolon 2 3, place name 0 0, place gap 2 2, place blank 1 1]
      ∧ (root tree).children = [place name 0 0, place blank 1 1] ++ place gap 2 2
        :: [place semicolon 2 3]
      ∧ (place gap 2 2).previousSibling? = some (place name 0 0)
      ∧ (place gap 2 2).nextSibling? = some (place semicolon 2 3)
      ∧ ((root tree).leafAt? 2).isSome
      ∧ (root tree).leaves.filter (fun leaf => leaf.offset ≤ 2 ∧ 2 < leaf.stop)
        = [place semicolon 2 3] := by
  intro name blank gap semicolon tree place
  have hroot := navigation_coherent.1 (root tree)
  have hchildren : (root tree).children
      = [place name 0 0, place blank 1 1] ++ place gap 2 2 :: [place semicolon 2 3] := rfl
  obtain ⟨hprevious, hnext, -⟩ := hroot.siblings _ _ _ hchildren
  refine ⟨hroot.walk _, hchildren, hprevious, hnext, ?_, hroot.leafAt 2⟩
  rw [navigation_coherent.2]
  decide

end StatementCompletion.Cursor
