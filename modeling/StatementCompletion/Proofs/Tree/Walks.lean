import Mathlib.Data.List.Basic
import Mathlib.Data.List.Induction
import StatementCompletion.Proofs.Tree.Leaves

/-!
# Walks over children

A walk counts the offsets of the children up at its front and down at its back.  As long as what it
has left fits between the two counts, it takes the children that stand in the row at either end,
whatever ends it takes them from: the places it gives them do not depend on how it came there.
-/

namespace StatementCompletion

/-! ## Children in a row -/

namespace Cursor

theorem placeAll_append (above : List Placed) (index offset : Nat) (front back : List Node) :
    placeAll above index offset (front ++ back) = placeAll above index offset front
      ++ placeAll above (index + front.length) (offset + Node.sizeAll front) back := by
  induction front generalizing index offset with
  | nil => rfl
  | cons node front ih =>
    rw [List.cons_append, placeAll, ih, placeAll, List.length_cons, Node.sizeAll, List.cons_append]
    simp only [Nat.add_assoc, Nat.add_comm 1]

theorem length_placeAll (above : List Placed) (index offset : Nat) (nodes : List Node) :
    (placeAll above index offset nodes).length = nodes.length := by
  induction nodes generalizing index offset with
  | nil => rfl
  | cons node rest ih => rw [placeAll, List.length_cons, List.length_cons, ih]

/-- A node in a row starts behind the text of all nodes in front of it. -/
theorem getElem?_placeAll (above : List Placed) (index offset : Nat) (nodes : List Node) (i : Nat) :
    (placeAll above index offset nodes)[i]?
      = nodes[i]?.map
        fun node => ⟨⟨node, offset + Node.sizeAll (nodes.take i), index + i⟩, above⟩ := by
  induction nodes generalizing index offset i with
  | nil => rfl
  | cons first rest ih =>
    cases i with
    | zero => rfl
    | succ i =>
      rw [placeAll, List.getElem?_cons_succ, List.getElem?_cons_succ, ih, List.take_succ_cons,
        Node.sizeAll, Nat.add_assoc offset, Nat.add_assoc index, Nat.add_comm 1]

/-- A leaf has no children. -/
theorem exists_branch_of_children {node : Node} (h : node.children ≠ []) :
    ∃ kind children, node = .branch kind children := by
  cases node with
  | leaf kind text => exact absurd rfl h
  | error problem text => exact absurd rfl h
  | branch kind children => exact ⟨kind, children, rfl⟩

end Cursor

/-! ## Taking from either end of a row -/

namespace Walk

section

variable {α : Type}

/-- What is met when things in a row are taken from the given ends in turn, as
long as there are any. -/
def pick : List α → List End → List α
  | _, [] => []
  | row, .front :: ends => row.head?.toList ++ pick row.tail ends
  | row, .back :: ends => row.getLast?.toList ++ pick row.dropLast ends

/-- Each thing in the row is met once, or is left. -/
theorem exists_perm_pick (row : List α) (ends : List End) :
    ∃ left, (pick row ends ++ left).Perm row ∧ left.length = row.length - ends.length := by
  induction ends generalizing row with
  | nil => exact ⟨row, .refl row, rfl⟩
  | cons side ends ih =>
    cases side with
    | front =>
      obtain ⟨left, hperm, hlength⟩ := ih row.tail
      rw [List.length_tail] at hlength
      refine ⟨left, ?_, by rw [hlength, List.length_cons]; omega⟩
      cases row with
      | nil => exact hperm
      | cons first rest => exact hperm.cons first
    | back =>
      obtain ⟨left, hperm, hlength⟩ := ih row.dropLast
      rw [List.length_dropLast] at hlength
      refine ⟨left, ?_, by rw [hlength, List.length_cons]; omega⟩
      rcases row.eq_nil_or_concat' with rfl | ⟨rest, last, rfl⟩
      · exact hperm
      · rw [List.dropLast_concat] at hperm
        rw [pick, List.getLast?_concat, List.dropLast_concat]
        exact (hperm.cons last).trans (List.perm_append_singleton last rest).symm

/-- From the back a row is met in reverse. -/
theorem pick_back (row : List α) : pick row (List.replicate row.length .back) = row.reverse := by
  induction row using List.reverseRecOn with
  | nil => rfl
  | append_singleton rest last ih =>
    rw [List.length_append, List.length_singleton, List.replicate_succ, pick, List.getLast?_concat,
      List.dropLast_concat, ih, List.reverse_append]
    rfl

end

/-! ## Walks -/

/-- What a walk has left fits between its offsets.  A leaf has no children, whatever its length. -/
def Fits (w : Walk) : Prop :=
  w.left ≠ [] → w.back = w.front + Node.sizeAll w.left

/-- The children that a walk has left, at their places. -/
def row (w : Walk) : List Cursor :=
  Cursor.placeAll w.above w.index w.front w.left

/-- A step from the front takes the first child of the row. -/
theorem takeFront?_of_left_eq {w : Walk} (hfits : w.Fits) {node : Node} {rest : List Node}
    (hleft : w.left = node :: rest) :
    ∃ child w', w.takeFront? = some (child, w') ∧ w.row = child :: w'.row ∧ w'.Fits := by
  refine ⟨_, _, by rw [takeFront?, hleft], by rw [row, hleft, Cursor.placeAll]; rfl, ?_⟩
  intro _
  have hback := hfits (by simp [hleft])
  rw [hleft, Node.sizeAll] at hback
  show w.back = w.front + node.size + Node.sizeAll rest
  omega

/-- A step from the back takes the last child of the row. -/
theorem takeBack?_of_left_eq {w : Walk} (hfits : w.Fits) {node : Node} {rest : List Node}
    (hleft : w.left = rest ++ [node]) :
    ∃ child w', w.takeBack? = some (child, w') ∧ w.row = w'.row ++ [child] ∧ w'.Fits := by
  have hback : w.back - node.size = w.front + Node.sizeAll rest := by
    have hback := hfits (by simp [hleft])
    rw [hleft, Node.sizeAll_append, Node.sizeAll, Node.sizeAll] at hback
    omega
  refine ⟨_, _, by rw [takeBack?, hleft, List.getLast?_concat], ?_, ?_⟩
  · rw [row, hleft, Cursor.placeAll_append, row, List.dropLast_concat, List.length_append,
      List.length_singleton, Nat.add_sub_cancel, hback]
    rfl
  · intro _
    rw [List.dropLast_concat]
    exact hback

theorem row_of_left_eq_nil {w : Walk} (hleft : w.left = []) : w.row = [] := by
  rw [row, hleft, Cursor.placeAll]

/-- A walk meets the children of the row, whichever ends it takes them from. -/
theorem visit_eq_pick {w : Walk} (hfits : w.Fits) (ends : List End) :
    w.visit ends = pick w.row ends := by
  -- whatever end a child is taken from, what is left fits between the offsets again
  induction ends generalizing w with
  | nil => rfl
  | cons side ends ih =>
    cases side with
    | front =>
      cases hleft : w.left with
      | nil =>
        rw [visit, take?, takeFront?, hleft, row_of_left_eq_nil hleft]
        exact (ih hfits).trans (by rw [row_of_left_eq_nil hleft]; rfl)
      | cons node rest =>
        obtain ⟨child, w', htake, hrow, hfits'⟩ := takeFront?_of_left_eq hfits hleft
        rw [visit, take?, htake, hrow, pick]
        exact congrArg (child :: ·) (ih hfits')
    | back =>
      rcases w.left.eq_nil_or_concat' with hleft | ⟨rest, node, hleft⟩
      · rw [visit, take?, takeBack?, hleft, row_of_left_eq_nil hleft]
        exact (ih hfits).trans (by rw [row_of_left_eq_nil hleft]; rfl)
      · obtain ⟨child, w', htake, hrow, hfits'⟩ := takeBack?_of_left_eq hfits hleft
        rw [visit, take?, htake, hrow, pick, List.getLast?_concat, List.dropLast_concat]
        exact congrArg (child :: ·) (ih hfits')

theorem fits_ofCursor (c : Cursor) : (ofCursor c).Fits := by
  intro hleft
  obtain ⟨⟨node, offset, index⟩, above⟩ := c
  obtain ⟨kind, children, rfl⟩ := Cursor.exists_branch_of_children hleft
  rfl

/-- A walk over the children of a node meets them as they stand, whichever
ends it takes them from. -/
theorem visit_ofCursor (c : Cursor) (ends : List End) :
    (ofCursor c).visit ends = pick c.children ends :=
  visit_eq_pick (fits_ofCursor c) ends

end Walk

/-! ## Children from the end -/

namespace Cursor

variable {c : Cursor}

theorem length_children (c : Cursor) : c.children.length = c.node.children.length :=
  length_placeAll ..

theorem childrenFromEnd_eq (c : Cursor) : c.childrenFromEnd = c.children.reverse := by
  rw [childrenFromEnd, Walk.visit_ofCursor, ← length_children, Walk.pick_back]

theorem mem_childrenFromEnd {child : Cursor} (h : child ∈ c.childrenFromEnd) :
    child ∈ c.children := by
  rwa [childrenFromEnd_eq, List.mem_reverse] at h

end Cursor

end StatementCompletion
