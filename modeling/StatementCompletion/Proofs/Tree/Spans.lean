import StatementCompletion.Proofs.Tree.Shapes

/-!
# Nodes by their spans

Two nodes of a tree that share a position are one below the other, and nodes of one span
have the same leaves.  The search for a span and a kind finds a node whenever there is one,
and it has the leaves of any other such node.  For a node that covers some text it finds the
node itself or one above it; only a node of no length can be taken for one that is neither,
and then for one in front of it.
-/

namespace StatementCompletion.Cursor

variable {top c d : Cursor}

/-! ## Nodes that share a position -/

/-- Two children are the same or one is behind the other. -/
theorem eq_or_apart_of_mem_children {child other : Cursor} (h : child ∈ c.children)
    (hother : other ∈ c.children) :
    child = other ∨ child.stop ≤ other.offset ∨ other.stop ≤ child.offset := by
  obtain ⟨before, node, after, hchildren, rfl⟩ := mem_placeAll.1 h
  obtain ⟨before', node', after', hchildren', rfl⟩ := mem_placeAll.1 hother
  rcases split_cases (hchildren.symm.trans hchildren') with
    ⟨rfl, rfl, -⟩ | ⟨middle, rfl, -⟩ | ⟨middle, rfl, -⟩
  · exact .inl rfl
  · refine .inr (.inr ?_)
    show c.offset + Node.sizeAll before' + node'.size
      ≤ c.offset + Node.sizeAll (before' ++ node' :: middle)
    rw [Node.sizeAll_append, Node.sizeAll]
    omega
  · refine .inr (.inl ?_)
    show c.offset + Node.sizeAll before + node.size
      ≤ c.offset + Node.sizeAll (before ++ node :: middle)
    rw [Node.sizeAll_append, Node.sizeAll]
    omega

/-- Of two nodes that share a position one is below the other. -/
theorem Below.chain (hc : Below top c) (hd : Below top d) {position : Nat}
    (hleft : c.offset ≤ position ∧ position < c.stop)
    (hright : d.offset ≤ position ∧ position < d.stop) : Below c d ∨ Below d c := by
  induction hc with
  | self => exact .inl hd
  | @child c child _ hchild ih =>
    have hbounds := bounds_of_mem_children hchild
    rcases ih ⟨by omega, by omega⟩ with hbelow | hbelow
    · rcases hbelow.eq_or_child with rfl | ⟨other, hother, hbelow⟩
      · exact .inr (Below.self.child hchild)
      · have hinside := hbelow.bounds
        rcases eq_or_apart_of_mem_children hother hchild with rfl | hapart
        · exact .inl hbelow
        · omega
    · exact .inr (hbelow.child hchild)

/-- Leaves that share a position are the same. -/
theorem eq_of_isLeaf (hc : Below top c) (hd : Below top d) (hleaf : c.node.isLeaf = true)
    (hleaf' : d.node.isLeaf = true) (hoffset : c.offset = d.offset) (hsize : 0 < c.node.size)
    (hsize' : 0 < d.node.size) : c = d := by
  have hleft : c.offset ≤ c.offset ∧ c.offset < c.stop := by
    rw [stop]
    omega
  have hright : d.offset ≤ c.offset ∧ c.offset < d.stop := by
    rw [stop]
    omega
  rcases hc.chain hd hleft hright with h | h
  · exact (h.eq_of_isLeaf hleaf).symm
  · exact h.eq_of_isLeaf hleaf'

/-- A node and a node below it with the same span are the same, if each of them has a leaf with some
text for a child. -/
theorem Below.eq_of_span_eq (h : Below c d) (hspan : c.span = d.span) {x y : Cursor}
    (hx : x ∈ c.children) (hxleaf : x.node.isLeaf = true) (hxsize : 0 < x.node.size)
    (hy : y ∈ d.children) : c = d := by
  rcases h.eq_or_child with rfl | ⟨child, hchild, hbelow⟩
  · rfl
  · have hinside := hbelow.bounds
    have hxbounds := bounds_of_mem_children hx
    have hxstop : x.stop = x.offset + x.node.size := rfl
    have hoffset : c.offset = d.offset := congrArg Span.start hspan
    have hstop : c.stop = d.stop := congrArg Span.stop hspan
    rcases eq_or_apart_of_mem_children hx hchild with rfl | hapart
    · -- the other node would be the leaf itself
      obtain rfl := hbelow.eq_of_isLeaf hxleaf
      rw [children_of_isLeaf hxleaf] at hy
      cases hy
    · omega

/-- The parents of two leaves with some text are the same if they have the same span. -/
theorem eq_of_span_eq (hc : Below top c) (hd : Below top d) (hspan : c.span = d.span)
    {x y : Cursor} (hx : x ∈ c.children) (hxleaf : x.node.isLeaf = true) (hxsize : 0 < x.node.size)
    (hy : y ∈ d.children) (hyleaf : y.node.isLeaf = true) (hysize : 0 < y.node.size) : c = d := by
  have hbounds := bounds_of_mem_children hx
  have hstop : x.stop = x.offset + x.node.size := rfl
  have hoffset : c.offset = d.offset := congrArg Span.start hspan
  have hsame : c.stop = d.stop := congrArg Span.stop hspan
  have hleft : c.offset ≤ c.offset ∧ c.offset < c.stop := by omega
  have hright : d.offset ≤ c.offset ∧ c.offset < d.stop := by omega
  rcases hc.chain hd hleft hright with h | h
  · exact h.eq_of_span_eq hspan hx hxleaf hxsize hy
  · exact (h.eq_of_span_eq hspan.symm hy hyleaf hysize hx).symm

/-! ## Leaves of a span -/

/-- Leaves in a row are cut in one way by the size of what is in front. -/
theorem split_eq_of_size_eq {a b a' b' : List Node} (h : a ++ b = a' ++ b')
    (hnonempty : ∀ leaf ∈ a ++ b, leaf.ownText ≠ [])
    (hsize : Text.size (a.flatMap Node.ownText) = Text.size (a'.flatMap Node.ownText)) :
    a = a' ∧ b = b' := by
  have hnil {middle : List Node} (hmem : ∀ leaf ∈ middle, leaf ∈ a ++ b)
      (hmiddle : Text.size (middle.flatMap Node.ownText) = 0) : middle = [] := by
    cases middle with
    | nil => rfl
    | cons leaf rest =>
      have hpos := Text.size_pos (hnonempty leaf (hmem leaf (List.mem_cons_self ..)))
      rw [List.flatMap_cons, Text.size_append] at hmiddle
      omega
  rcases List.append_eq_append_iff.1 h with ⟨middle, rfl, rfl⟩ | ⟨middle, rfl, rfl⟩
  · rw [List.flatMap_append, Text.size_append] at hsize
    obtain rfl := hnil (by simp +contextual) (by omega : Text.size (middle.flatMap _) = 0)
    simp
  · rw [List.flatMap_append, Text.size_append] at hsize
    obtain rfl := hnil (by simp +contextual) (by omega : Text.size (middle.flatMap _) = 0)
    simp

variable {tree : Node} {front back front' back' : List Node}

theorem size_flatMap_leaves (node : Node) :
    Text.size (node.leaves.flatMap Node.ownText) = node.size := by
  rw [Node.flatMap_leaves, Node.size_text]

/-- Nodes of one span have the same leaves. -/
theorem Among.leaves_eq_of_span_eq (h : Among tree front c back) (h' : Among tree front' d back')
    (hspan : d.span = c.span) : d.node.leaves = c.node.leaves := by
  have hoffset : d.offset = c.offset := congrArg Span.start hspan
  have hstop : d.stop = c.stop := congrArg Span.stop hspan
  have hleaves := h.leaves_eq
  rw [h'.leaves_eq, List.append_assoc, List.append_assoc] at hleaves
  have hnonempty : ∀ leaf ∈ front' ++ (d.node.leaves ++ back'), leaf.ownText ≠ [] := by
    rw [← List.append_assoc, ← h'.leaves_eq]
    exact Node.ownText_ne_nil_of_mem_leaves tree
  obtain ⟨rfl, hrest⟩ := split_eq_of_size_eq hleaves hnonempty (by
    rw [← h.offset_eq, ← h'.offset_eq, hoffset])
  refine (split_eq_of_size_eq hrest (fun leaf hleaf => ?_) ?_).1
  · exact hnonempty leaf (List.mem_append_right _ hleaf)
  · rw [size_flatMap_leaves, size_flatMap_leaves]
    rw [stop, stop] at hstop
    omega

/-- What is its own leaf is a leaf. -/
theorem isLeaf_of_leaves_eq {leaf : Node} (h : leaf.leaves = [leaf]) : leaf.isLeaf = true := by
  cases leaf with
  | leaf kind text => rfl
  | error problem text => rfl
  | branch kind children =>
    -- a branch is no leaf of its own
    have hmem : Node.branch kind children ∈ (Node.branch kind children).leaves := by simp [h]
    exact absurd rfl (Node.ownText_ne_nil_of_mem_leaves _ _ hmem)

theorem size_pos_of_leaves_eq {leaf : Node} (h : leaf.leaves = [leaf]) : 0 < leaf.size := by
  have hsize := size_flatMap_leaves leaf
  rw [h, List.flatMap_singleton] at hsize
  rw [← hsize]
  exact Text.size_pos (Node.ownText_ne_nil_of_mem_leaves leaf leaf (by simp [h]))

/-- A cursor has one place among the leaves. -/
theorem Among.front_eq (h : Among tree front c back) (h' : Among tree front' c back') :
    front' = front := by
  have hleaves := h'.leaves_eq.symm.trans h.leaves_eq
  rw [List.append_assoc, List.append_assoc] at hleaves
  refine (split_eq_of_size_eq hleaves ?_ ?_).1
  · rw [← List.append_assoc, ← h'.leaves_eq]
    exact Node.ownText_ne_nil_of_mem_leaves tree
  · rw [← h.offset_eq, ← h'.offset_eq]

/-- The leaves of a tree stand among each other as they are in a row. -/
theorem among_of_leaves_eq {before after : List Cursor} {leaf : Cursor}
    (h : (root tree).leaves = before ++ leaf :: after) :
    Among tree (before.map (·.node)) leaf (after.map (·.node))
      ∧ leaf.node.leaves = [leaf.node] := by
  have hmem : leaf ∈ (root tree).leaves := by simp [h]
  have hleaves : tree.leaves = before.map (·.node) ++ leaf.node :: after.map (·.node) := by
    have hnodes := map_node_leaves (root tree)
    rw [h, List.map_append, List.map_cons] at hnodes
    exact hnodes.symm
  have hsingle : leaf.node.leaves = [leaf.node] := by
    refine Node.leaves_eq_singleton (Node.ownText_ne_nil_of_mem_leaves tree leaf.node ?_)
    simp [hleaves]
  obtain ⟨front, back, hamong⟩ := (below_of_mem_leaves hmem).among
  have hsplit := hamong.leaves_eq
  rw [hsingle, hleaves, List.append_assoc, List.singleton_append] at hsplit
  have hrow := row_leaves (root tree)
  rw [h] at hrow
  obtain ⟨rest, hrest⟩ := hrow.of_append
  have hoffset := hrest.of_cons.2.1
  have hsize : Text.size ((before.map (·.node)).flatMap Node.ownText)
      = Text.size (front.flatMap Node.ownText) := by
    rw [← hamong.offset_eq, hoffset, List.flatMap_map]
    exact (Nat.zero_add _).symm
  have hnonempty : ∀ node ∈ before.map (·.node) ++ leaf.node :: after.map (·.node),
      node.ownText ≠ [] := by
    rw [← hleaves]
    exact Node.ownText_ne_nil_of_mem_leaves tree
  obtain ⟨rfl, hback⟩ := split_eq_of_size_eq hsplit hnonempty hsize
  obtain ⟨-, rfl⟩ := List.cons.inj hback
  exact ⟨hamong, hsingle⟩

/-- A node with a parent stands among the leaves of the parent. -/
theorem Among.of_parent? (h : Among tree front c back) {parent : Cursor}
    (hparent : c.parent? = some parent) :
    ∃ front' back' before after, Among tree front' parent back' ∧ parent.node.isLeaf = false
      ∧ parent.node.children = before ++ c.node :: after ∧ front = front' ++ Node.leavesAll before
      ∧ c ∈ parent.children := by
  cases h with
  | root => cases hparent
  | @child front' back' before after kind node offset index above hamong =>
    obtain rfl := Option.some.inj hparent
    refine ⟨front', back', before, after, hamong, rfl, rfl, rfl, ?_⟩
    refine mem_placeAll.2 ⟨before, node, after, rfl, ?_⟩
    rw [Nat.zero_add]

/-- Where there is a node with a span and a kind, one is found, and it has the
leaves of any other. -/
theorem exists_find? (h : Among tree front c back) :
    ∃ found, (root tree).find? c.span c.kind = some found ∧ found.kind = c.kind
      ∧ found.node.leaves = c.node.leaves := by
  have hbelow := below_of_among h
  obtain ⟨found, hfound⟩ := hbelow.exists_find?
  obtain ⟨hfoundBelow, hspan, hkind⟩ := spec_of_find? hfound
  obtain ⟨_, _, hamong⟩ := hfoundBelow.among
  exact ⟨found, hfound, hkind, h.leaves_eq_of_span_eq hamong hspan⟩

/-! ## What is found in the stead of a node -/

variable {n found : Cursor}

theorem Below.mem_ancestors (h : Below top c) : top = c ∨ top ∈ c.ancestors := by
  induction h with
  | self => exact .inl rfl
  | child _ hchild ih =>
    right
    rw [ancestors_of_mem_children hchild, List.mem_cons]
    exact ih

mutual

/-- Where a node covers some text, only a node above it can be found in its stead. -/
theorem below_of_findIn_span (node : Node) (above : List Placed) (index offset : Nat)
    (h : Below ⟨⟨node, offset, index⟩, above⟩ n) (hsize : 0 < n.node.size)
    (hfound : findIn n.span n.kind above index offset node = some found) : Below found n := by
  match node with
  | .leaf own text =>
    obtain rfl := h.eq_of_isLeaf rfl
    rw [findIn, if_pos ⟨rfl, rfl⟩] at hfound
    cases hfound
    exact .self
  | .error problem text =>
    obtain rfl := h.eq_of_isLeaf rfl
    rw [findIn, if_pos ⟨rfl, rfl⟩] at hfound
    cases hfound
    exact .self
  | .branch own children =>
    rw [findIn] at hfound
    split at hfound
    · cases hfound
      exact h
    · next hother =>
      rcases h.eq_or_child with rfl | hchild
      · exact absurd ⟨rfl, rfl⟩ hother
      · rw [if_pos (contains_iff.2 h.bounds)] at hfound
        exact below_of_findInAll_span children _ 0 offset hchild hsize hfound

theorem below_of_findInAll_span (nodes : List Node) (above : List Placed) (index offset : Nat)
    (h : ∃ child ∈ placeAll above index offset nodes, Below child n) (hsize : 0 < n.node.size)
    (hfound : findInAll n.span n.kind above index offset nodes = some found) : Below found n := by
  match nodes with
  | [] => cases hfound
  | node :: rest =>
    obtain ⟨child, hchild, hbelow⟩ := h
    rw [findInAll] at hfound
    rcases List.mem_cons.1 hchild with rfl | hchild
    · rw [if_pos (contains_iff.2 hbelow.bounds)] at hfound
      obtain ⟨first, hfirst⟩ := hbelow.exists_find?
      have hfirst : findIn n.span n.kind above index offset node = some first := hfirst
      rw [hfirst] at hfound
      cases hfound
      exact below_of_findIn_span node above index offset hbelow hsize hfirst
    · -- what is in front of a child with some text ends before that text
      have hcontains : ¬contains offset node.size n.span = true := by
        obtain ⟨front, own, back, -, rfl⟩ := mem_placeAll.1 hchild
        have hfront : offset + node.size + Node.sizeAll front ≤ n.offset := hbelow.bounds.1
        intro hcontains
        have hlast : n.offset + n.node.size ≤ offset + node.size := (contains_iff.1 hcontains).2
        omega
      rw [if_neg hcontains] at hfound
      exact below_of_findInAll_span rest above _ _ ⟨child, hchild, hbelow⟩ hsize hfound

end

/-- A look-up from the root finds the first node with the span and the kind, each node counted in
front of its descendants, and finds none only where there is none.  So a look-up by the span and
the kind of a node succeeds, and finds the node itself, one above it, or, if the node has no
length, one in front of it. -/
theorem find?_outermost (tree : Node) :
    (∀ span kind, (root tree).find? span kind
        = (root tree).preorder.find? fun c => c.span = span ∧ c.kind = kind)
      ∧ (∀ span kind, (root tree).find? span kind = none
        ↔ ∀ c, Below (root tree) c → ¬(c.span = span ∧ c.kind = kind))
      ∧ ∀ before n after, (root tree).preorder = before ++ n :: after →
        ∃ found, (root tree).find? n.span n.kind = some found
          ∧ (found = n ∨ found ∈ n.ancestors ∨ n.node.size = 0 ∧ found ∈ before) := by
  refine ⟨fun span kind => ?_, fun span kind => find?_eq_none_iff, ?_⟩
  · rw [find?_eq]
    exact congrArg (List.find? · _) (funext fun c => by simp only [hasExtent, eq_comm])
  · intro before n after hsplit
    have hmem : n ∈ (root tree).preorder := by
      rw [hsplit]
      exact List.mem_append_right _ List.mem_cons_self
    have hbelow := below_of_mem_preorder hmem
    obtain ⟨found, hfound⟩ := hbelow.exists_find?
    refine ⟨found, hfound, ?_⟩
    -- what is found for a node with a length is the node or around it
    rcases Nat.eq_zero_or_pos n.node.size with hsize | hsize
    · rw [find?_eq, hsplit, List.find?_append,
        List.find?_cons_of_pos (hasExtent_iff.2 ⟨rfl, rfl⟩)] at hfound
      cases hbefore : before.find? (hasExtent n.span n.kind) with
      | none =>
        rw [hbefore] at hfound
        cases hfound
        exact .inl rfl
      | some first =>
        rw [hbefore] at hfound
        cases hfound
        exact .inr (.inr ⟨hsize, List.mem_of_find?_eq_some hbefore⟩)
    · have habove := below_of_findIn_span tree [] 0 0 hbelow hsize hfound
      rcases habove.mem_ancestors with hself | hancestor
      · exact .inl hself
      · exact .inr (.inl hancestor)

/-- Of two things missing in one place the first one is found for both. -/
theorem find?_outermost_of_two_gaps :
    let identifier : Node := .error (.expected (.construct .identifier)) []
    let semicolon : Node := .error (.expected (.construct .semicolon)) []
    let tree : Node := .branch .expressionStatement [identifier, semicolon]
    let above : List Placed := [⟨tree, 0, 0⟩]
    (root tree).preorder
        = [root tree, ⟨⟨identifier, 0, 0⟩, above⟩] ++ ⟨⟨semicolon, 0, 1⟩, above⟩ :: []
      ∧ (root tree).find? ⟨0, 0⟩ .error = some ⟨⟨identifier, 0, 0⟩, above⟩
      ∧ ∃ found, (root tree).find? ⟨0, 0⟩ .error = some found
        ∧ (found = ⟨⟨semicolon, 0, 1⟩, above⟩ ∨ found ∈ [root tree]
          ∨ 0 = 0 ∧ found ∈ [root tree, ⟨⟨identifier, 0, 0⟩, above⟩]) := by
  intro identifier semicolon tree above
  have hsplit : (root tree).preorder
      = [root tree, ⟨⟨identifier, 0, 0⟩, above⟩] ++ ⟨⟨semicolon, 0, 1⟩, above⟩ :: [] := rfl
  exact ⟨hsplit, rfl, (find?_outermost tree).2.2 _ _ _ hsplit⟩

end StatementCompletion.Cursor
