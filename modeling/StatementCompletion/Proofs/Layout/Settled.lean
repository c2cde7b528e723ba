import StatementCompletion.Proofs.Layout.Depth
import StatementCompletion.Proofs.Layout.Wanted
import StatementCompletion.Proofs.Tree.Spans

/-!
# Laying out twice

Once the gaps of a tree have been laid out, the tree of the new text has nothing left to
lay out.  Its pieces are those of the old tree behind the wanted white space; they are as
deep as before, and a block that was empty is empty, for both are told from the shapes of
a tree, and these are the same.
-/

namespace StatementCompletion

namespace Cursor

variable {tree : Node} {front back front' back' : List Node} {c c' : Cursor}

/-- Tokens of one number are the same. -/
theorem Among.eq_of_number_eq (h : Among tree front c back) (h' : Among tree front' c' back')
    (hleaf : c.node.leaves = [c.node]) (hleaf' : c'.node.leaves = [c'.node])
    (htoken : c.kind.isTrivia = false) (htoken' : c'.kind.isTrivia = false)
    (hnumber : Node.number front' = Node.number front) : c' = c := by
  have htoken : c.node.kind.isTrivia = false := htoken
  have htoken' : c'.node.kind.isTrivia = false := htoken'
  have hleaves := h'.leaves_eq.symm.trans h.leaves_eq
  simp only [hleaf, hleaf', List.append_assoc, List.singleton_append] at hleaves
  rcases split_cases hleaves with ⟨hfront, -, -⟩ | ⟨middle, rfl, -⟩ | ⟨middle, rfl, -⟩
  · refine eq_of_isLeaf (below_of_among h') (below_of_among h) (isLeaf_of_leaves_eq hleaf')
      (isLeaf_of_leaves_eq hleaf) ?_ ?_ ?_
    · rw [h.offset_eq, h'.offset_eq, hfront]
    · exact size_pos_of_leaves_eq hleaf'
    · exact size_pos_of_leaves_eq hleaf
  · rw [Node.number_append, Node.number_cons, htoken] at hnumber
    simp only [Bool.false_eq_true, if_false] at hnumber
    omega
  · rw [Node.number_append, Node.number_cons, htoken'] at hnumber
    simp only [Bool.false_eq_true, if_false] at hnumber
    omega

end Cursor

/-! ## Empty blocks -/

/-- A block that holds nothing between its opening brace, the token of a
number, and the closing one. -/
def Shape.IsEmptyBlock (s : Shape) (number : Nat) : Prop :=
  s.extent.kind = .codeBlock ∧ ⟨.leftBrace, number, 1⟩ ∈ s.parts
    ∧ ⟨.rightBrace, number + 1, 1⟩ ∈ s.parts

namespace Layout

open Cursor

variable {tree : Node} {front back front' back' : List Node} {c c' : Cursor} {g : Gap}

/-- A token that is a child has an extent among the parts of its parent. -/
theorem mem_parts_of_parent {parent : Cursor} {before after : List Node}
    (hchildren : parent.node.children = before ++ c.node :: after)
    (hleaf : c.node.leaves = [c.node]) (htoken : c.node.kind.isTrivia = false) (first : Nat) :
    ⟨c.kind, first + Node.number (Node.leavesAll before), 1⟩ ∈ (parent.shape first).parts := by
  have htokens : c.node.tokens = [c.node] := by
    rw [Node.tokens, hleaf, List.filter_cons_of_pos (by simp [htoken]), List.filter_nil]
  have hmem := @Node.mem_extents first before after c.node (by simp [htokens])
  rw [htokens] at hmem
  show _ ∈ Node.extents first parent.node.children
  rw [hchildren]
  exact hmem

/-- A part of a branch that is a bracket is a child of it, and a leaf. -/
theorem exists_bracket_of_mem_parts {kind : Kind} {number : Nat} (htree : tree.IsTidyRoot)
    (h : Among tree front c back) (hbranch : c.node.isLeaf = false)
    (hkind : kind.isBracket = true)
    (hpart : ⟨kind, number, 1⟩ ∈ (c.shape (Node.number front)).parts) :
    ∃ front' child back', Among tree front' child back' ∧ child ∈ c.children ∧ child.kind = kind
      ∧ child.node.leaves = [child.node] ∧ Node.number front' = number := by
  obtain ⟨before, node, after, hchildren, heq⟩ := Node.exists_of_mem_extents hpart
  rw [Extent.mk.injEq] at heq
  obtain ⟨⟨own, offset, index⟩, above⟩ := c
  cases own with
  | leaf _ _ => cases hbranch
  | error _ _ => cases hbranch
  | branch ownKind children =>
    obtain rfl : children = before ++ node :: after := hchildren
    have htidy : node.Tidy :=
      (h.tidy htree).2 node (List.mem_append_right _ (List.mem_cons_self ..))
    obtain ⟨hleaves, -, -, -⟩ := htidy.leaves_of_isBracket (by rw [← heq.1, hkind])
    refine ⟨_, _, _, h.child, mem_placeAll.2 ⟨before, node, after, rfl, ?_⟩,
      heq.1.symm, hleaves, ?_⟩
    · rw [Nat.zero_add]
    · rw [Node.number_append, heq.2.1]
      rfl

/-- A gap that is all there is in a block is in a shape that is an empty block. -/
theorem exists_shape_of_isInsideEmptyBlock (hbefore : Among tree front g.before back)
    (hafter : Among tree front' g.after back') (hleaf : g.before.node.leaves = [g.before.node])
    (hleaf' : g.after.node.leaves = [g.after.node])
    (hnumber : g.before.kind.isTrivia = false → Node.number front' = Node.number front + 1)
    (h : g.isInsideEmptyBlock = true) : g.before.kind = .leftBrace ∧ g.after.kind = .rightBrace
      ∧ ∃ s ∈ tree.shapes none 0, s.IsEmptyBlock (Node.number front) := by
  obtain ⟨hleft, hright⟩ := Gap.kind_of_isInsideEmptyBlock h
  have hnumber := hnumber (by rw [hleft]; rfl)
  rw [Gap.isInsideEmptyBlock, Bool.and_eq_true] at h
  obtain ⟨-, h⟩ := h
  split at h
  · next opened closed hopened hclosed =>
    rw [Bool.and_eq_true, decide_eq_true_eq, decide_eq_true_eq] at h
    obtain ⟨hkind, hspan⟩ := h
    obtain ⟨frontO, backO, beforeO, afterO, hamong, hbranch, hchildren, hfront, hchild⟩ :=
      hbefore.of_parent? hopened
    obtain ⟨frontC, backC, beforeC, afterC, hamong', -, hchildren', hfront', hchild'⟩ :=
      hafter.of_parent? hclosed
    -- the two braces are in one block, since the blocks have one span
    obtain rfl := eq_of_span_eq (below_of_among hamong) (below_of_among hamong') hspan hchild
      (isLeaf_of_leaves_eq hleaf) (size_pos_of_leaves_eq hleaf) hchild'
      (isLeaf_of_leaves_eq hleaf') (size_pos_of_leaves_eq hleaf')
    obtain rfl := hamong.front_eq hamong'
    have hleft' : g.before.node.kind = .leftBrace := hleft
    have hright' : g.after.node.kind = .rightBrace := hright
    have hopen := mem_parts_of_parent hchildren hleaf (by rw [hleft']; rfl) (Node.number frontC)
    have hclose := mem_parts_of_parent hchildren' hleaf' (by rw [hright']; rfl)
      (Node.number frontC)
    rw [hleft, ← Node.number_append, ← hfront] at hopen
    rw [hright, ← Node.number_append, ← hfront', hnumber] at hclose
    exact ⟨hleft, hright, _, hamong.shape_mem hbranch, hkind, hopen, hclose⟩
  · cases h

/-- A gap between braces that are next to each other in a shape is all there is in a block. -/
theorem isInsideEmptyBlock_of_shape (htree : tree.IsTidyRoot)
    (hbefore : Among tree front g.before back)
    (hafter : Among tree front' g.after back') (hleaf : g.before.node.leaves = [g.before.node])
    (hleaf' : g.after.node.leaves = [g.after.node])
    (hnumber : g.before.kind.isTrivia = false → Node.number front' = Node.number front + 1)
    (hleft : g.before.kind = .leftBrace) (hright : g.after.kind = .rightBrace) {s : Shape}
    (hs : s ∈ tree.shapes none 0) (hempty : s.IsEmptyBlock (Node.number front)) :
    g.isInsideEmptyBlock = true := by
  obtain ⟨hkind, hopen, hclose⟩ := hempty
  have hnumber := hnumber (by rw [hleft]; rfl)
  obtain ⟨frontS, block, backS, hamong, hbranch, rfl⟩ := exists_among_of_mem hs
  obtain ⟨frontO, opened, backO, hopened, hchild, hopenedKind, hopenedLeaf, hopenedNumber⟩ :=
    exists_bracket_of_mem_parts htree hamong hbranch rfl hopen
  obtain ⟨frontC, closed, backC, hclosed, hchild', hclosedKind, hclosedLeaf, hclosedNumber⟩ :=
    exists_bracket_of_mem_parts htree hamong hbranch rfl hclose
  have hbeforeEq : opened = g.before := hbefore.eq_of_number_eq hopened hleaf hopenedLeaf
    (by rw [hleft]; rfl) (by rw [hopenedKind]; rfl) hopenedNumber
  have hafterEq : closed = g.after := hafter.eq_of_number_eq hclosed hleaf' hclosedLeaf
    (by rw [hright]; rfl) (by rw [hclosedKind]; rfl) (by omega)
  have hparent : g.before.parent? = some block := by
    rw [← hbeforeEq, parent?_of_mem_children hchild]
  have hparent' : g.after.parent? = some block := by
    rw [← hafterEq, parent?_of_mem_children hchild']
  have hblock : block.kind = .codeBlock := hkind
  rw [Gap.isInsideEmptyBlock, hleft, hright, hparent, hparent']
  simp [hblock]

/-- Whether a gap is all there is in a block, by the shapes of the tree. -/
theorem isInsideEmptyBlock_iff (htree : tree.IsTidyRoot) (hbefore : Among tree front g.before back)
    (hafter : Among tree front' g.after back') (hleaf : g.before.node.leaves = [g.before.node])
    (hleaf' : g.after.node.leaves = [g.after.node])
    (hnumber : g.before.kind.isTrivia = false → Node.number front' = Node.number front + 1) :
    g.isInsideEmptyBlock = true ↔ g.before.kind = .leftBrace ∧ g.after.kind = .rightBrace
      ∧ ∃ s ∈ tree.shapes none 0, s.IsEmptyBlock (Node.number front) :=
  ⟨exists_shape_of_isInsideEmptyBlock hbefore hafter hleaf hleaf' hnumber,
      fun ⟨hleft, hright, _, hs, hempty⟩ =>
    isInsideEmptyBlock_of_shape htree hbefore hafter hleaf hleaf' hnumber hleft hright hs hempty⟩

/-! ## Gaps before and after -/

theorem number_filter (leaves : List Node) :
    Node.number (leaves.filter (·.kind ≠ .whitespace)) = Node.number leaves := by
  rw [Node.number, Node.number, List.filter_filter]
  congr 1
  refine List.filter_congr fun leaf _ => ?_
  cases hkind : leaf.kind <;> simp [Kind.isTrivia]

variable {f : Gap → Text} {kind : SourceKind} {text text' : Text}

/-- The leaf of a piece stands in the tree behind the tokens of the pieces in front of it. -/
theorem among_of_piecesOf_eq {blank : Text} {leaf : Cursor} {left right : List (Text × Cursor)}
    (h : piecesOf kind text = left ++ (blank, leaf) :: right) :
    ∃ front back, Among (Node.ofText kind text) front leaf back
      ∧ leaf.node.leaves = [leaf.node]
      ∧ Node.number front = Node.number (left.map (·.2.node)) := by
  obtain ⟨before, after, hleaves, -, hleft⟩ := exists_of_pieces_eq h
  obtain ⟨hamong, hleaf⟩ := among_of_leaves_eq hleaves
  exact ⟨_, _, hamong, hleaf, by rw [← hleft, number_filter]⟩

/-- An empty block is found again in a tree with the same core. -/
theorem exists_isEmptyBlock {tree tree' : Node} (hcore : tree'.core = tree.core) {number : Nat}
    (h : ∃ s ∈ tree.shapes none 0, s.IsEmptyBlock number) :
    ∃ s ∈ tree'.shapes none 0, s.IsEmptyBlock number := by
  obtain ⟨s, hs, hblock⟩ := h
  refine ⟨s, Node.mem_shapes_of_core_eq hcore hs ?_, hblock⟩
  obtain ⟨front, c, back, hamong, hbranch, rfl⟩ := exists_among_of_mem hs
  obtain ⟨-, hopen, -⟩ := hblock
  have hbounds := (Node.bounds_of_mem_extents _ hopen).2
  obtain ⟨⟨own, offset, index⟩, above⟩ := c
  cases own with
  | leaf _ _ => cases hbranch
  | error _ _ => cases hbranch
  | branch ownKind children =>
    have hcount : (Node.branch ownKind children).tokens.length = (Node.tokensAll children).length :=
      rfl
    have hstart := (Node.bounds_of_mem_extents _ hopen).1
    show 0 < (Node.branch ownKind children).tokens.length
    simp only [Node.children] at hbounds hstart
    omega

/-- There is the new white space between the pieces that are in the same places. -/
theorem Relays.text_of_pieces_eq (h : Relays f kind text text') {left right left' right' :
    List (Text × Cursor)} {blank gap blank' gap' : Text} {before after before' after' : Cursor}
    (hpieces : piecesOf kind text = left ++ (blank, before) :: (gap, after) :: right)
    (hpieces' : piecesOf kind text' = left' ++ (blank', before') :: (gap', after') :: right')
    (hnodes : (left.map (·.2.node)).length = (left'.map (·.2.node)).length) :
    gap' = f { before, text := gap, after } := by
  have hcells : relaid f (left ++ (blank, before) :: (gap, after) :: right)
      = relaid f (left ++ [(blank, before)])
        ++ { old := gap, new := f { before, text := gap, after }, ink := after.node.ownText }
          :: relay f after right := relaid_append f before blank left ((gap, after) :: right)
  have hsplit : left' ++ (blank', before') :: (gap', after') :: right'
      = (left' ++ [(blank', before')]) ++ (gap', after') :: right' := by simp
  have hgaps := h.gaps
  rw [hpieces', hsplit, hpieces, hcells] at hgaps
  have hlengths : ((left' ++ [(blank', before')]).map (·.1)).length
      = ((relaid f (left ++ [(blank, before)])).map (·.new)).length := by
    rw [List.length_map, List.length_map] at hnodes
    rw [List.length_map, List.length_map, length_relaid, List.length_append, List.length_append,
      hnodes]
    rfl
  have hbehind := (List.append_inj (List.map_append.symm.trans (hgaps.trans List.map_append))
    hlengths).2
  rw [List.map_cons, List.map_cons] at hbehind
  exact (List.cons.inj hbehind).1

/-- A gap of the new tree is a gap of the old one with the new white space in it, between the same
leaves, as deep and as much inside an empty block. -/
theorem Relays.exists_gap (h : Relays f kind text text') {g' : Gap}
    (hg' : g' ∈ Gap.ofPieces (piecesOf kind text')) :
    ∃ g : Gap, Below (.root (Node.ofText kind text)) g.before ∧ g'.text = f g
      ∧ g'.before.kind = g.before.kind ∧ g'.after.kind = g.after.kind
      ∧ depth g'.after = depth g.after ∧ g'.isInsideEmptyBlock = g.isInsideEmptyBlock := by
  obtain ⟨left', blank', right', hpieces'⟩ := Gap.mem_ofPieces hg'
  -- the pieces of the old tree in the same places
  have hnodes := h.nodes
  rw [hpieces', List.map_append, List.map_cons, List.map_cons] at hnodes
  obtain ⟨left, rest, hpieces, hleft, hrest⟩ := List.map_eq_append_iff.1 hnodes.symm
  obtain ⟨⟨blank, before⟩, rest, rfl, hbefore, hrest⟩ := List.map_eq_cons_iff.1 hrest
  obtain ⟨⟨gap, after⟩, right, rfl, hafter, -⟩ := List.map_eq_cons_iff.1 hrest
  have htext : g'.text = f { before, text := gap, after } :=
    h.text_of_pieces_eq hpieces hpieces' (congrArg List.length hleft)
  -- the leaves on both sides, in both trees
  have hpieces₂ : piecesOf kind text = (left ++ [(blank, before)]) ++ (gap, after) :: right := by
    rw [hpieces, List.append_assoc, List.singleton_append]
  have hpieces'₂ : piecesOf kind text'
      = (left' ++ [(blank', g'.before)]) ++ (g'.text, g'.after) :: right' := by
    rw [hpieces', List.append_assoc, List.singleton_append]
  obtain ⟨frontB, backB, hamongB, hleafB, hnumberB⟩ := among_of_piecesOf_eq hpieces
  obtain ⟨frontA, backA, hamongA, hleafA, hnumberA⟩ := among_of_piecesOf_eq hpieces₂
  obtain ⟨frontB', backB', hamongB', hleafB', hnumberB'⟩ := among_of_piecesOf_eq hpieces'
  obtain ⟨frontA', backA', hamongA', hleafA', hnumberA'⟩ := among_of_piecesOf_eq hpieces'₂
  rw [List.map_append, Node.number_append] at hnumberA hnumberA'
  have htree := Node.isTidyRoot_ofText kind text
  have htree' := Node.isTidyRoot_ofText kind text'
  have hcore := Node.core_ofText kind h.respaced
  have hbeforeKind : g'.before.kind = before.kind := congrArg Node.kind hbefore.symm
  have hafterKind : g'.after.kind = after.kind := congrArg Node.kind hafter.symm
  have hsameB : Node.number frontB' = Node.number frontB := by rw [hnumberB, hnumberB', hleft]
  have hsameA : Node.number frontA' = Node.number frontA := by
    rw [hnumberA, hnumberA', hleft, List.map_cons, List.map_cons, hbefore]
  have hnext : before.kind.isTrivia = false → Node.number frontA = Node.number frontB + 1 := by
    intro htoken
    have htoken : before.node.kind.isTrivia = false := htoken
    rw [hnumberA, hnumberB, List.map_cons, Node.number_cons, htoken]
    rfl
  refine ⟨{ before, text := gap, after }, below_of_among hamongB, htext, hbeforeKind, hafterKind,
    ?_, ?_⟩
  · exact depth_eq_of_core_eq hcore htree htree' hamongA hamongA' hafter.symm
      (isLeaf_of_leaves_eq hleafA) hleafA hsameA
  · have hblock := @isInsideEmptyBlock_iff _ _ _ _ _ { before, text := gap, after } htree hamongB
      hamongA hleafB hleafA hnext
    have hblock' := @isInsideEmptyBlock_iff _ _ _ _ _ g' htree' hamongB' hamongA' hleafB' hleafA'
      (by rw [hbeforeKind, hsameA, hsameB]; exact hnext)
    rw [Bool.eq_iff_iff, hblock, hblock', hbeforeKind, hafterKind, hsameB]
    refine and_congr_right fun _ => and_congr_right fun _ => ⟨?_, ?_⟩
    · exact exists_isEmptyBlock hcore.symm
    · exact exists_isEmptyBlock hcore

/-! ## Laying out all gaps -/

/-- Over a whole text, every gap gets what it wants. -/
theorem refilled_of_below {style : CodeStyle} (h : Below (.root (Node.ofText kind text)) g.before) :
    refilled ⟨0, text.size⟩ style g = g.wanted style := by
  have hstop : g.before.stop ≤ text.size := by
    have hroot : (Cursor.root (Node.ofText kind text)).stop = text.size := by
      rw [Cursor.stop, Cursor.root, ← Node.size_text, Node.text_ofText, Nat.zero_add]
    rw [← hroot]
    exact h.bounds.2
  rw [refilled, if_pos]
  simpa [Gap.isReached] using hstop

/-- **Laying out twice.**  After the edits that lay out a whole text, which are not refused, the
layout of the whole new text has no edits. -/
theorem edits_of_laidOut (kind : SourceKind) (e : Editor) (style : CodeStyle) :
    ∃ e', e.applyEdits (edits (.ofDocument kind e.document) ⟨0, e.text.size⟩ style) = (e', .ok ())
      ∧ edits (.ofDocument kind e'.document) ⟨0, e'.text.size⟩ style = [] := by
  obtain ⟨e', hrun, hrelays, -⟩ := exists_applyEdits kind e ⟨0, e.text.size⟩ style
  refine ⟨e', hrun, ?_⟩
  rw [edits, List.filterMap_eq_nil_iff, Gap.ofLeaves_eq []]
  intro g' hg'
  obtain ⟨g, hbelow, htext, hbefore, hafter, hdepth, hblock⟩ := hrelays.exists_gap hg'
  rw [refilled_of_below hbelow] at htext
  have hsettled := Gap.wanted_eq_text htext hbefore hafter hdepth hblock
  rw [Gap.edit?, if_pos hsettled, ite_self]

end Layout

end StatementCompletion
