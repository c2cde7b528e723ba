import StatementCompletion.Proofs.Document
import StatementCompletion.Proofs.Grammar.Lossless
import StatementCompletion.Proofs.Text.Lines
import StatementCompletion.Proofs.Tree.Searches

/-!
# Where the nodes of a tree stand in its text

`IsTreeOf text tree` is what the tree of a text promises to all that look up offsets in it: the
leaves spell the text, a white space leaf is white, and the end of a leaf parts no carriage return
from its line feed.  A cursor in such a tree covers the part of the text that its node has, so its
offsets are good for cuts.
-/

namespace StatementCompletion

namespace Token

/-- No cut between tokens parts a carriage return from its line feed. -/
theorem Spells.keepsReturns {front back : List Token} {text : Text}
    (h : Spells (front ++ back) text) :
    Text.KeepsReturns (front.flatMap (·.text)) (back.flatMap (·.text)) := by
  induction front generalizing text with
  | nil =>
    intro hlast
    simp at hlast
  | cons token front ih =>
    cases h with
    | @cons _ _ rest hcut hrest =>
      rcases List.eq_nil_or_concat front with rfl | ⟨front', last, rfl⟩
      · have hback : back.flatMap (·.text) = rest := hrest.flatMap_text
        rw [List.flatMap_singleton, hback]
        exact hcut.keepsReturns
      · have hlast := hrest.nonempty last (by simp)
        intro hreturn
        refine ih hrest ?_
        rwa [List.flatMap_cons, List.getLast?_append_of_ne_nil] at hreturn
        simpa using fun _ => hlast

end Token

namespace Node

/-- What the tree of a text promises. -/
structure IsTreeOf (text : Text) (tree : Node) : Prop where
  text_eq : tree.text = text
  isBranch : tree.isLeaf = false
  spaces : ∀ leaf ∈ tree.leaves, leaf.kind = .whitespace → ∀ c ∈ leaf.ownText,
    Token.isSpace c = true
  keepsReturns : ∀ front back, tree.leaves = front ++ back →
    Text.KeepsReturns (front.flatMap ownText) (back.flatMap ownText)

theorem ofText_isTreeOf (kind : SourceKind) (text : Text) : IsTreeOf text (ofText kind text) := by
  have hspells := Token.ofText_spells text
  have hsoftens := ofText_softens kind text
  refine ⟨text_ofText kind text, ?_, fun leaf hleaf hkind => ?_, fun front back hleaves => ?_⟩
  · obtain ⟨children, htree, -⟩ := parse?_softens kind text
    rw [ofText, htree]
    rfl
  · obtain ⟨old, hold, htext, hsame⟩ := hsoftens.exists_of_mem hleaf
    obtain ⟨token, htoken, rfl⟩ := List.mem_map.1 hold
    -- an error is no white space leaf, so this one is the token itself
    have hnode : leaf = token.node := by
      rcases hsame with hnode | herror
      · exact hnode
      · rw [herror] at hkind
        cases hkind
    rw [hnode, Token.kind_node] at hkind
    rw [htext, Token.ownText_node]
    exact hspells.spaces token htoken hkind
  · rw [hleaves] at hsoftens
    obtain ⟨hfront, hback⟩ := hsoftens.flatMap_take_drop
    rw [hfront, hback, ← List.map_take, ← List.map_drop, List.flatMap_map, List.flatMap_map]
    simp only [Token.ownText_node]
    rw [← List.take_append_drop front.length (Token.ofText text)] at hspells
    exact hspells.keepsReturns

end Node

/-! ## Cursors in the tree of a text -/

namespace Cursor

variable {text : Text} {tree : Node} {c : Cursor}

/-- The leaves of a node are in a row among the leaves of the tree. -/
theorem Below.leaves_eq (h : Below (root tree) c) :
    ∃ front back, tree.leaves = front ++ c.node.leaves ++ back
      ∧ Text.size (front.flatMap Node.ownText) = c.offset := by
  induction h with
  | self => exact ⟨[], [], by simp [root], rfl⟩
  | @child c child _ hchild ih =>
    obtain ⟨front, back, hleaves, hoffset⟩ := ih
    obtain ⟨before, node, after, hchildren, rfl⟩ := mem_placeAll.1 hchild
    have hbranch : c.node.leaves = Node.leavesAll before ++ node.leaves
        ++ Node.leavesAll after := by
      cases hnode : c.node with
      | leaf kind text => simp [hnode, Node.children] at hchildren
      | error problem text => simp [hnode, Node.children] at hchildren
      | branch kind children =>
        rw [hnode, Node.children] at hchildren
        rw [Node.leaves, hchildren, Node.leavesAll_append, Node.leavesAll, List.append_assoc]
    refine ⟨front ++ Node.leavesAll before, Node.leavesAll after ++ back, ?_, ?_⟩
    · rw [hleaves, hbranch]
      simp only [List.append_assoc]
    · rw [List.flatMap_append, Text.size_append, hoffset, Node.flatMap_leavesAll,
        Node.size_textAll]

/-- A cursor is in the tree of a text. -/
def Within (text : Text) (c : Cursor) : Prop :=
  ∃ tree, Node.IsTreeOf text tree ∧ Below (root tree) c

namespace Within

/-! ### Steps -/

theorem root (h : Node.IsTreeOf text tree) : Within text (.root tree) :=
  ⟨tree, h, .self⟩

theorem below {d : Cursor} (h : Within text c) (hd : Below c d) : Within text d := by
  obtain ⟨tree, htree, hc⟩ := h
  exact ⟨tree, htree, hc.trans hd⟩

theorem child {child : Cursor} (h : Within text c) (hchild : child ∈ c.children) :
    Within text child :=
  h.below (.child .self hchild)

/-! ### Offsets -/

/-- A node covers the part of the text that is its own. -/
theorem exists_parts (h : Within text c) :
    ∃ before after, text = before ++ c.node.text ++ after
      ∧ c.span = .behind before c.node.text := by
  obtain ⟨tree, htree, hc⟩ := h
  obtain ⟨front, back, hleaves, hoffset⟩ := hc.leaves_eq
  refine ⟨front.flatMap Node.ownText, back.flatMap Node.ownText, ?_, ?_⟩
  · rw [← htree.text_eq, ← Node.flatMap_leaves, hleaves, List.flatMap_append, List.flatMap_append,
      Node.flatMap_leaves]
  · rw [span, Span.behind, stop, hoffset, Node.size_text]

/-- A node ends where a cut parts no carriage return from its line feed. -/
theorem exists_cut (h : Within text c) :
    ∃ before after, text = before ++ after ∧ Text.size before = c.stop
      ∧ Text.KeepsReturns before after := by
  obtain ⟨tree, htree, hc⟩ := h
  obtain ⟨front, back, hleaves, hoffset⟩ := hc.leaves_eq
  refine ⟨(front ++ c.node.leaves).flatMap Node.ownText, back.flatMap Node.ownText, ?_, ?_, ?_⟩
  · rw [← htree.text_eq, ← Node.flatMap_leaves, hleaves, List.flatMap_append]
  · rw [List.flatMap_append, Text.size_append, hoffset, Node.flatMap_leaves, Node.size_text, stop]
  · exact htree.keepsReturns _ _ hleaves

theorem isBoundary_offset (h : Within text c) : text.isBoundary c.offset = true := by
  obtain ⟨before, after, htext, hspan⟩ := h.exists_parts
  refine Text.isBoundary_iff.2 ⟨before, c.node.text ++ after, ?_, ?_⟩
  · rw [htext, List.append_assoc]
  · exact (congrArg Span.start hspan).symm

theorem isBoundary_stop (h : Within text c) : text.isBoundary c.stop = true := by
  obtain ⟨before, after, htext, hsize, -⟩ := h.exists_cut
  exact Text.isBoundary_iff.2 ⟨before, after, htext, hsize⟩

theorem stop_le_lineEnd (h : Within text c) : c.stop ≤ text.lineEnd (text.lineOf c.stop) := by
  obtain ⟨before, after, htext, hsize, hreturns⟩ := h.exists_cut
  rw [← hsize]
  exact Text.size_le_lineEnd_lineOf htext hreturns

/-- The gap between a child and a later one, and the later one behind it. -/
theorem exists_gap {child later : Cursor} (h : Within text c) (hchild : child ∈ c.children)
    (hlater : later ∈ c.childrenAfter child.index) :
    ∃ before gap after, text = before ++ (gap ++ later.node.text) ++ after
      ∧ (⟨child.stop, later.offset⟩ : Span) = .behind before gap
      ∧ (⟨child.stop, later.stop⟩ : Span) = .behind before (gap ++ later.node.text) := by
  have hwithin := h.child (mem_childrenAfter hlater)
  obtain ⟨front, after, htext, hspan⟩ := hwithin.exists_parts
  have hoffset : later.offset = front.size := congrArg Span.start hspan
  have hstop : later.stop = front.size + later.node.text.size := congrArg Span.stop hspan
  obtain ⟨before, gap, rest, hcut, hgap⟩ := Text.exists_behind (h.child hchild).isBoundary_stop
    hwithin.isBoundary_offset (stop_le_offset_of_mem_childrenAfter hchild hlater)
  have hbefore : child.stop = before.size := congrArg Span.start hgap
  have hsize : later.offset = before.size + gap.size := congrArg Span.stop hgap
  obtain ⟨rfl, -⟩ : before ++ gap = front ∧ rest = later.node.text ++ after := by
    refine Text.append_inj_of_size ?_ ?_
    · rw [← hcut, htext, List.append_assoc]
    · rw [Text.size_append, ← hsize, hoffset]
  refine ⟨before, gap, after, ?_, hgap, ?_⟩
  · rw [htext, List.append_assoc before]
  · rw [Span.behind, hbefore, hstop, Text.size_append, Text.size_append, Nat.add_assoc]

end Within

end Cursor

end StatementCompletion
