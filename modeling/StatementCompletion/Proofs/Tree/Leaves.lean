import StatementCompletion.Proofs.Text.Cuts
import StatementCompletion.Tree.Search

/-!
# The leaves of a tree

The leaves and errors of a tree that cover some text, first without their places and then in them,
as `Cursor.leaves` finds them.  The text of a tree is the texts of its leaves in a row.
-/

namespace StatementCompletion.Node

mutual

/-- The leaves and errors of a tree that cover some text. -/
def leaves : Node → List Node
  | .leaf kind text => if text.isEmpty then [] else [.leaf kind text]
  | .error problem text => if text.isEmpty then [] else [.error problem text]
  | .branch _ children => leavesAll children

/-- The leaves and errors of trees in a row that cover some text. -/
def leavesAll : List Node → List Node
  | [] => []
  | node :: rest => node.leaves ++ leavesAll rest

end

theorem leavesAll_eq_flatMap (nodes : List Node) : leavesAll nodes = nodes.flatMap leaves := by
  induction nodes with
  | nil => rfl
  | cons node rest ih => rw [leavesAll, ih, List.flatMap_cons]

theorem leavesAll_append (a b : List Node) : leavesAll (a ++ b) = leavesAll a ++ leavesAll b := by
  simp only [leavesAll_eq_flatMap, List.flatMap_append]

theorem sizeAll_append (a b : List Node) : sizeAll (a ++ b) = sizeAll a + sizeAll b := by
  rw [← size_textAll, textAll_append, Text.size_append, size_textAll, size_textAll]

/-- A leaf with some text is its own only leaf. -/
theorem leaves_eq_singleton {node : Node} (h : node.ownText ≠ []) : node.leaves = [node] := by
  cases node with
  | leaf kind text => exact if_neg (mt List.isEmpty_iff.1 h)
  | error problem text => exact if_neg (mt List.isEmpty_iff.1 h)
  | branch kind children => simp [ownText] at h

mutual

/-- Every leaf has some text. -/
theorem ownText_ne_nil_of_mem_leaves (node : Node) : ∀ leaf ∈ node.leaves, leaf.ownText ≠ [] := by
  match node with
  | .leaf kind text => cases text <;> simp [leaves, ownText]
  | .error problem text => cases text <;> simp [leaves, ownText]
  | .branch kind children => exact ownText_ne_nil_of_mem_leavesAll children

theorem ownText_ne_nil_of_mem_leavesAll (nodes : List Node) :
    ∀ leaf ∈ leavesAll nodes, leaf.ownText ≠ [] := by
  match nodes with
  | [] => simp [leavesAll]
  | node :: rest =>
    intro leaf hleaf
    rw [leavesAll] at hleaf
    rcases List.mem_append.1 hleaf with hleaf | hleaf
    · exact ownText_ne_nil_of_mem_leaves node leaf hleaf
    · exact ownText_ne_nil_of_mem_leavesAll rest leaf hleaf

end

mutual

/-- The texts of the leaves in a row are the text. -/
theorem flatMap_leaves (node : Node) : node.leaves.flatMap ownText = node.text := by
  match node with
  | .leaf kind text => cases text <;> simp [leaves, Node.text, ownText]
  | .error problem text => cases text <;> simp [leaves, Node.text, ownText]
  | .branch _ children => simpa only [leaves, Node.text] using flatMap_leavesAll children

theorem flatMap_leavesAll (nodes : List Node) :
    (leavesAll nodes).flatMap ownText = textAll nodes := by
  match nodes with
  | [] => rfl
  | node :: rest =>
    simp only [leavesAll, textAll, List.flatMap_append, flatMap_leaves node, flatMap_leavesAll rest]

end

end StatementCompletion.Node

namespace StatementCompletion.Cursor

/-! ## Leaves in their places -/

/-- Leaves in a row, from an offset on, that spell a text.  Each of them has some text. -/
inductive Row : Nat → Text → List Cursor → Prop where
  | nil {offset : Nat} : Row offset [] []
  | cons {leaf : Cursor} {text : Text} {leaves : List Cursor} :
      leaf.node.ownText ≠ [] → Row leaf.stop text leaves →
        Row leaf.offset (leaf.node.ownText ++ text) (leaf :: leaves)

/-- A leaf with some text ends behind its text. -/
theorem stop_of_ownText_ne_nil {c : Cursor} (h : c.node.ownText ≠ []) :
    c.stop = c.offset + c.node.ownText.size := by
  unfold stop
  cases hnode : c.node with
  | leaf kind text => rfl
  | error problem text => rfl
  | branch kind children => simp [hnode, Node.ownText] at h

theorem Row.of_cons {offset : Nat} {text : Text} {leaf : Cursor} {leaves : List Cursor}
    (h : Row offset text (leaf :: leaves)) :
    leaf.node.ownText ≠ [] ∧ leaf.offset = offset
      ∧ ∃ rest, text = leaf.node.ownText ++ rest ∧ Row leaf.stop rest leaves := by
  cases h with
  | cons hnonempty hrow => exact ⟨hnonempty, rfl, _, rfl, hrow⟩

theorem Row.flatten {offset : Nat} {text : Text} {leaves : List Cursor}
    (h : Row offset text leaves) :
    (leaves.map (·.node.ownText)).flatten = text := by
  induction h with
  | nil => rfl
  | cons _ _ ih => rw [List.map_cons, List.flatten_cons, ih]

/-- Leaves in a row lie inside the text they spell, and each covers some of it. -/
theorem Row.bounds {offset : Nat} {text : Text} {leaves : List Cursor}
    (h : Row offset text leaves) :
    ∀ leaf ∈ leaves, offset ≤ leaf.offset ∧ leaf.offset < leaf.stop
      ∧ leaf.stop ≤ offset + text.size := by
  induction h with
  | nil => simp
  | @cons leaf text leaves hnonempty _ ih =>
    have hpos := Text.size_pos hnonempty
    have hstop := stop_of_ownText_ne_nil hnonempty
    rw [Text.size_append]
    intro other hother
    rcases List.mem_cons.1 hother with rfl | hother
    · omega
    · have hbounds := ih other hother
      omega

/-- Over every position in the text lies one of the leaves. -/
theorem Row.exists_over {offset position : Nat} {text : Text} {leaves : List Cursor}
    (h : Row offset text leaves) (hstart : offset ≤ position)
    (hstop : position < offset + text.size) :
    ∃ leaf ∈ leaves, leaf.offset ≤ position ∧ position < leaf.stop := by
  induction h with
  | nil => exact absurd hstop (Nat.not_lt.2 hstart)
  | @cons leaf text leaves hnonempty _ ih =>
    by_cases hinside : position < leaf.stop
    · exact ⟨leaf, List.mem_cons_self, hstart, hinside⟩
    · have hsize := stop_of_ownText_ne_nil hnonempty
      rw [Text.size_append] at hstop
      obtain ⟨other, hother, hcovers⟩ := ih (by omega) (by omega)
      exact ⟨other, List.mem_cons_of_mem _ hother, hcovers⟩

theorem Row.append {offset : Nat} {a b : Text} {front back : List Cursor} (ha : Row offset a front)
    (hb : Row (offset + a.size) b back) : Row offset (a ++ b) (front ++ back) := by
  induction ha with
  | nil => simpa [Text.size] using hb
  | @cons leaf text leaves hnonempty _ ih =>
    rw [List.append_assoc]
    refine .cons hnonempty (ih ?_)
    rwa [stop_of_ownText_ne_nil hnonempty, Nat.add_assoc, ← Text.size_append]

/-- The leaves behind others are in a row behind the texts of those. -/
theorem Row.of_append {offset : Nat} {text : Text} {front back : List Cursor}
    (h : Row offset text (front ++ back)) :
    ∃ rest, Row (offset + Text.size (front.flatMap (·.node.ownText))) rest back := by
  induction front generalizing offset text with
  | nil => exact ⟨text, h⟩
  | cons leaf front ih =>
    obtain ⟨hnonempty, rfl, rest, -, hrest⟩ := h.of_cons
    obtain ⟨behind, hback⟩ := ih hrest
    refine ⟨behind, ?_⟩
    rwa [stop_of_ownText_ne_nil hnonempty, Nat.add_assoc, ← Text.size_append] at hback

/-- The leaves behind some of the first are in a row behind a part of the text. -/
theorem Row.dropWhile {offset : Nat} {text : Text} {leaves : List Cursor}
    (h : Row offset text leaves) (p : Cursor → Bool) :
    ∃ skipped rest, text = skipped ++ rest
      ∧ Row (offset + skipped.size) rest (leaves.dropWhile p) := by
  induction h with
  | nil => exact ⟨[], [], rfl, .nil⟩
  | @cons leaf text leaves hnonempty hrow ih =>
    rw [List.dropWhile_cons]
    split
    · obtain ⟨skipped, rest, rfl, hdrop⟩ := ih
      refine ⟨leaf.node.ownText ++ skipped, rest, (List.append_assoc _ _ _).symm, ?_⟩
      rwa [Text.size_append, ← Nat.add_assoc, ← stop_of_ownText_ne_nil hnonempty]
    · exact ⟨[], _, rfl, .cons hnonempty hrow⟩

theorem row_singleton (leaf : Cursor) (h : leaf.node.ownText.isEmpty = false) :
    Row leaf.offset leaf.node.ownText [leaf] := by
  have hnonempty : leaf.node.ownText ≠ [] := by
    intro hnil
    rw [hnil] at h
    cases h
  simpa using Row.cons hnonempty .nil

mutual

theorem row_leavesAt (node : Node) (above : List Placed) (index offset : Nat) :
    Row offset node.text (leavesAt above index offset node) := by
  match node with
  | .leaf kind text =>
    rw [leavesAt]
    split
    · next hempty =>
      rw [Node.text, List.isEmpty_iff.1 hempty]
      exact .nil
    · next hempty =>
      exact row_singleton ⟨⟨.leaf kind text, offset, index⟩, above⟩ (Bool.eq_false_iff.2 hempty)
  | .error problem text =>
    rw [leavesAt]
    split
    · next hempty =>
      rw [Node.text, List.isEmpty_iff.1 hempty]
      exact .nil
    · next hempty =>
      exact row_singleton ⟨⟨.error problem text, offset, index⟩, above⟩ (Bool.eq_false_iff.2 hempty)
  | .branch kind children =>
    rw [leavesAt, Node.text]
    exact row_leavesAll children _ 0 offset

theorem row_leavesAll (nodes : List Node) (above : List Placed) (index offset : Nat) :
    Row offset (Node.textAll nodes) (leavesAll above index offset nodes) := by
  match nodes with
  | [] => exact .nil
  | node :: rest =>
    rw [leavesAll, Node.textAll]
    refine (row_leavesAt node above index offset).append ?_
    rw [Node.size_text]
    exact row_leavesAll rest above _ _

end

/-- The leaves below a node are in a row and spell its text. -/
theorem row_leaves (c : Cursor) : Row c.offset c.node.text c.leaves :=
  row_leavesAt c.node c.above c.index c.offset

mutual

theorem map_node_leavesAt (node : Node) (above : List Placed) (index offset : Nat) :
    (leavesAt above index offset node).map (·.node) = node.leaves := by
  match node with
  | .leaf kind text => cases text <;> rfl
  | .error problem text => cases text <;> rfl
  | .branch kind children => exact map_node_leavesAll children _ 0 offset

theorem map_node_leavesAll (nodes : List Node) (above : List Placed) (index offset : Nat) :
    (leavesAll above index offset nodes).map (·.node) = Node.leavesAll nodes := by
  match nodes with
  | [] => rfl
  | node :: rest =>
    rw [leavesAll, List.map_append, map_node_leavesAt node, map_node_leavesAll rest, Node.leavesAll]

end

/-- The leaves in their places are the leaves. -/
theorem map_node_leaves (c : Cursor) : c.leaves.map (·.node) = c.node.leaves :=
  map_node_leavesAt c.node c.above c.index c.offset

end StatementCompletion.Cursor
