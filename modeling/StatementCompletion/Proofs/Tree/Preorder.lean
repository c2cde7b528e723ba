import StatementCompletion.Proofs.Grammar.Tracking.Masks
import StatementCompletion.Proofs.Tree.Tidy

/-!
# All nodes of a tree in a row

The nodes of a tree, each in front of its descendants: first without their places and then in them.
A node starts behind the texts of the leaves in front of it in that row.

Trees that look the same behind a mask have their nodes in the same places of the row.  So
the node of a kind with some number is the same in both, and if it is a token, it is one with
as many tokens in front of it.
-/

namespace StatementCompletion

namespace Node

/-! ## Without places -/

mutual

/-- The nodes of a tree, each in front of its descendants. -/
def nodes : Node → List Node
  | .leaf kind text => [.leaf kind text]
  | .error problem text => [.error problem text]
  | .branch kind children => .branch kind children :: nodesAll children

/-- The nodes of trees in a row, each in front of its descendants. -/
def nodesAll : List Node → List Node
  | [] => []
  | node :: rest => node.nodes ++ nodesAll rest

end

mutual

theorem nodes_mask (node : Node) : node.mask.nodes = node.nodes.map mask := by
  match node with
  | .leaf kind text => rfl
  | .error problem text => rfl
  | .branch kind children =>
    rw [mask, nodes, nodesAll_maskAll children, nodes, List.map_cons, mask]

theorem nodesAll_maskAll (nodes : List Node) :
    nodesAll (maskAll nodes) = (nodesAll nodes).map mask := by
  match nodes with
  | [] => rfl
  | node :: rest =>
    rw [maskAll, nodesAll, nodes_mask node, nodesAll_maskAll rest, nodesAll, List.map_append]

end

/-- Whether a node has a text of its own. -/
def isInked (node : Node) : Bool :=
  !node.ownText.isEmpty

@[simp] theorem isInked_mask (node : Node) : node.mask.isInked = node.isInked := by
  rw [isInked, isInked, ownText_mask, Bool.eq_iff_iff]
  simp

theorem isInked_iff {node : Node} : node.isInked = true ↔ node.ownText ≠ [] := by
  rw [isInked, Bool.not_eq_true', List.isEmpty_eq_false_iff]

mutual

/-- The leaves are the nodes that have a text of their own. -/
theorem filter_nodes (node : Node) : node.nodes.filter isInked = node.leaves := by
  match node with
  | .leaf kind text => cases text <;> rfl
  | .error problem text => cases text <;> rfl
  | .branch kind children =>
    rw [nodes, List.filter_cons_of_neg (by simp [isInked, ownText]),
      filter_nodesAll children, leaves]

theorem filter_nodesAll (nodes : List Node) :
    (nodesAll nodes).filter isInked = leavesAll nodes := by
  match nodes with
  | [] => rfl
  | node :: rest =>
    rw [nodesAll, List.filter_append, filter_nodes node, filter_nodesAll rest, leavesAll]

end

/-- Nodes without a text of their own add nothing to the text. -/
theorem flatMap_filter_isInked (nodes : List Node) :
    (nodes.filter isInked).flatMap ownText = nodes.flatMap ownText := by
  induction nodes with
  | nil => rfl
  | cons node rest ih =>
    cases hinked : node.isInked with
    | true => rw [List.filter_cons_of_pos hinked, List.flatMap_cons, ih, List.flatMap_cons]
    | false =>
      have hnone : node.ownText = [] := by
        by_contra hsome
        exact Bool.false_ne_true (hinked.symm.trans (isInked_iff.2 hsome))
      rw [List.filter_cons_of_neg (by rw [hinked]; exact Bool.false_ne_true), ih,
        List.flatMap_cons, hnone, List.nil_append]

end Node

namespace Cursor

/-! ## In their places -/

mutual

theorem map_node_preorderAt (node : Node) (above : List Placed) (index offset : Nat) :
    (preorderAt above index offset node).map (·.node) = node.nodes := by
  match node with
  | .leaf kind text => rfl
  | .error problem text => rfl
  | .branch kind children =>
    rw [preorderAt, List.map_cons, map_node_preorderAll children, Node.nodes]

theorem map_node_preorderAll (nodes : List Node) (above : List Placed) (index offset : Nat) :
    (preorderAll above index offset nodes).map (·.node) = Node.nodesAll nodes := by
  match nodes with
  | [] => rfl
  | node :: rest =>
    rw [preorderAll, List.map_append, map_node_preorderAt node, map_node_preorderAll rest,
      Node.nodesAll]

end

/-- Nodes in a row, each behind the texts of those in front of it. -/
inductive Spread : Nat → Nat → List Cursor → Prop where
  | nil {offset : Nat} : Spread offset offset []
  | cons {c : Cursor} {stop : Nat} {rest : List Cursor} :
      Spread (c.offset + c.node.ownText.size) stop rest → Spread c.offset stop (c :: rest)

theorem Spread.append {start middle stop : Nat} {front back : List Cursor}
    (hfront : Spread start middle front)
    (hback : Spread middle stop back) : Spread start stop (front ++ back) := by
  induction hfront with
  | nil => exact hback
  | cons _ ih => exact .cons (ih hback)

/-- A node starts behind the texts in front of it. -/
theorem Spread.offset_eq {start stop : Nat} {front back : List Cursor} {c : Cursor}
    (h : Spread start stop (front ++ c :: back)) :
    c.offset = start + Text.size (front.flatMap (·.node.ownText)) := by
  induction front generalizing start with
  | nil => cases h with | cons => rfl
  | cons first front ih =>
    cases h with
    | cons hrest => rw [ih hrest, List.flatMap_cons, Text.size_append, Nat.add_assoc]

mutual

theorem spread_preorderAt (node : Node) (above : List Placed) (index offset : Nat) :
    Spread offset (offset + node.size) (preorderAt above index offset node) := by
  match node with
  | .leaf kind text => exact @Spread.cons ⟨⟨.leaf kind text, offset, index⟩, above⟩ _ _ .nil
  | .error problem text => exact @Spread.cons ⟨⟨.error problem text, offset, index⟩, above⟩ _ _ .nil
  | .branch kind children =>
    rw [preorderAt]
    exact @Spread.cons ⟨⟨.branch kind children, offset, index⟩,
      above⟩ _ _ (spread_preorderAll children _ 0 offset)

theorem spread_preorderAll (nodes : List Node) (above : List Placed) (index offset : Nat) :
    Spread offset (offset + Node.sizeAll nodes) (preorderAll above index offset nodes) := by
  match nodes with
  | [] => exact .nil
  | node :: rest =>
    rw [preorderAll, Node.sizeAll, ← Nat.add_assoc]
    exact (spread_preorderAt node above index offset).append (spread_preorderAll rest above _ _)

end

/-! ## The node of a kind with a number -/

/-- The node of a kind with a number, of a node and its descendants. -/
def nth? (c : Cursor) (kind : Kind) (n : Nat) : Option Cursor :=
  (c.preorder.filter (·.kind = kind))[n]?

/-- It is the one with so many of the kind in front of it. -/
theorem nth?_eq_some_iff {top c : Cursor} {kind : Kind} {n : Nat} : top.nth? kind n = some c
    ↔ ∃ front back, top.preorder = front ++ c :: back ∧ c.kind = kind
      ∧ (front.filter (·.kind = kind)).length = n := by
  rw [nth?]
  constructor
  · intro h
    obtain ⟨hlt, hget⟩ := List.getElem?_eq_some_iff.1 h
    have hsplit := (List.take_append_drop n (top.preorder.filter (·.kind = kind))).symm
    rw [List.drop_eq_getElem_cons hlt, hget] at hsplit
    obtain ⟨front, rest, hpreorder, hfront, hrest⟩ := List.filter_eq_append_iff.1 hsplit
    obtain ⟨between, back, rfl, hbetween, hkind, -⟩ := List.filter_eq_cons_iff.1 hrest
    refine ⟨front ++ between, back, ?_, of_decide_eq_true hkind, ?_⟩
    · rw [hpreorder, List.append_assoc]
    · rw [List.filter_append, hfront, List.filter_eq_nil_iff.2 hbetween, List.append_nil,
        List.length_take, Nat.min_eq_left hlt.le]
  · rintro ⟨front, back, hpreorder, hkind, rfl⟩
    rw [hpreorder, List.filter_append, List.getElem?_append_right (Nat.le_refl _), Nat.sub_self,
      List.filter_cons_of_pos (by rw [hkind]; exact decide_eq_true rfl)]
    rfl

/-- Nodes that are told apart behind a mask are as many in rows that look the same behind one. -/
theorem length_filter_of_mask {p : Node → Bool} (hp : ∀ node, p node.mask = p node)
    {row row' : List Cursor} (h : row'.map (·.node.mask) = row.map (·.node.mask)) :
    (row'.filter (p ·.node)).length = (row.filter (p ·.node)).length := by
  have hmask (row : List Cursor) : (row.filter (p ·.node)).length
      = ((row.map (·.node.mask)).filter p).length := by
    rw [List.filter_map, List.length_map]
    congr 2
    funext c
    exact (hp c.node).symm
  rw [hmask, h, ← hmask]

/-- **Behind a mask, the node of a kind with a number is in the same place of the row.** -/
theorem exists_nth?_of_mask {tree tree' : Node} (h : tree'.mask = tree.mask) {c : Cursor}
    {front back : List Cursor} (hpreorder : (root tree).preorder = front ++ c :: back) :
    ∃ front' c' back', (root tree').preorder = front' ++ c' :: back' ∧ c'.node.mask = c.node.mask
      ∧ front'.map (·.node.mask) = front.map (·.node.mask)
      ∧ (root tree').nth? c.kind (front.filter (·.kind = c.kind)).length = some c' := by
  have hmap (tree : Node) : (root tree).preorder.map (·.node.mask) = tree.mask.nodes := by
    rw [Node.nodes_mask, ← map_node_preorderAt tree [] 0 0, List.map_map]
    rfl
  have hsame : (root tree').preorder.map (·.node.mask) =
      (front ++ c :: back).map (·.node.mask) := by
    rw [hmap, h, ← hmap, hpreorder]
  rw [List.map_append, List.map_cons, List.map_eq_append_iff] at hsame
  obtain ⟨front', rest, hpreorder', hfront, hrest⟩ := hsame
  obtain ⟨c', back', rfl, hc', -⟩ := List.map_eq_cons_iff.1 hrest
  have hkind (node : Node) : decide (node.mask.kind = c.kind) = decide (node.kind = c.kind) := by
    rw [Node.kind_mask]
  refine ⟨front', c', back', hpreorder', hc', hfront,
    nth?_eq_some_iff.2 ⟨front', back', hpreorder', ?_, ?_⟩⟩
  · rw [Cursor.kind, ← Node.kind_mask, hc', Node.kind_mask, Cursor.kind]
  · exact @length_filter_of_mask (fun node => node.kind = c.kind) hkind _ _ hfront

/-! ## Tokens -/

/-- A node with a text of its own is a token, with as many tokens in front of
it as there are such nodes. -/
theorem exists_token_of_preorder {kind : SourceKind} {text : Text} {c : Cursor}
    {front back : List Cursor}
    (h : (root (Node.ofText kind text)).preorder = front ++ c :: back)
    (hown : c.node.ownText ≠ []) :
    ∃ (before : List Token) (token : Token) (after : List Token),
      Token.ofText text = before ++ token :: after ∧ Node.Stands token.node c.node
        ∧ before.length = (front.filter (·.node.isInked)).length
        ∧ Text.size (before.flatMap (·.text)) = c.offset := by
  have hnodes : (Node.ofText kind text).nodes = front.map (·.node) ++ c.node
      :: back.map (·.node) := by
    rw [← map_node_preorderAt _ [] 0 0, show preorderAt [] 0 0 (Node.ofText kind text) = _ from h,
      List.map_append, List.map_cons]
  have hstands := Node.ofText_stands kind text
  rw [← Node.filter_nodes, hnodes, List.filter_append,
    List.filter_cons_of_pos (Node.isInked_iff.2 hown)] at hstands
  obtain ⟨before, rest, htokens, hbefore, hrest⟩ := hstands.exists_append
  obtain ⟨token, after, rfl, htoken, -⟩ := hrest.exists_cons
  refine ⟨before, token, after, htokens, htoken, ?_, ?_⟩
  · rw [← List.length_map Token.node, hbefore.length_eq, List.filter_map, List.length_map]
    rfl
  · have hspread := spread_preorderAt (Node.ofText kind text) [] 0 0
    rw [show preorderAt [] 0 0 (Node.ofText kind text) = _ from h] at hspread
    rw [hbefore.text_eq, Node.flatMap_filter_isInked, List.flatMap_map,
      hspread.offset_eq, Nat.zero_add]

/-- **Behind a mask, the token of a kind with a number is in the same place among the tokens.** -/
theorem exists_nth?_token_of_mask {kind : SourceKind} {text text' : Text} {c : Cursor}
    {front back : List Cursor} (h : (Node.ofText kind text').mask = (Node.ofText kind text).mask)
    (hpreorder : (root (Node.ofText kind text)).preorder = front ++ c :: back)
    (hown : c.node.ownText ≠ [])
    (herror : c.kind ≠ .error) :
    ∃ (c' : Cursor) (before : List Token) (token : Token) (after : List Token),
      (root (Node.ofText kind text')).nth? c.kind (front.filter (·.kind = c.kind)).length = some c'
        ∧ c'.node.kind = c.node.kind ∧ Token.ofText text' = before ++ token :: after
        ∧ c'.node = token.node
        ∧ before.length = (front.filter (·.node.isInked)).length
        ∧ Text.size (before.flatMap (·.text)) = c'.offset := by
  obtain ⟨front', c', back', hpreorder', hc', hfront, hnth⟩ := exists_nth?_of_mask h hpreorder
  have hkind : c'.node.kind = c.node.kind := by rw [← Node.kind_mask, hc', Node.kind_mask]
  have hown' : c'.node.ownText ≠ [] := by
    intro hnone
    have hmask := congrArg Node.ownText hc'
    rw [Node.ownText_mask, Node.ownText_mask, hnone, Text.mask_eq_nil.2 rfl, eq_comm,
      Text.mask_eq_nil] at hmask
    exact hown hmask
  obtain ⟨before, token, after, htokens, hstands, hcount, hoffset⟩ :=
    exists_token_of_preorder hpreorder' hown'
  refine ⟨c', before, token, after, hnth, hkind, htokens, hstands.eq_node ?_, ?_, hoffset⟩
  · rwa [hkind]
  · rw [hcount, length_filter_of_mask Node.isInked_mask hfront]

end Cursor

end StatementCompletion
