import StatementCompletion.Proofs.Layout.Settled

/-!
# Laying out keeps the program and the targets

The edits of a layout lie apart from each other and change white space only, and the tokens of the
text stay the same.  A marker on a statement or a member names, after the edits, the span of a node
of that kind in the tree of the new text, with the same leaves up to white space.

For a statement or member begins and ends with a token, so it is some of the pieces, and the marker
stays on them.  In the new tree, which has the same core, a node of the same kind has the tokens of
the same numbers, so it is the same pieces there.
-/

namespace StatementCompletion

namespace Layout

open Cursor TextEdit

variable {kind : SourceKind} {text text' : Text} {front back : List Node} {t : Cursor}

theorem lastBlank_concat (blank : Text) (leaves : List Cursor) {last : Cursor}
    (hlast : last.kind ≠ .whitespace) : lastBlank blank (leaves ++ [last]) = [] := by
  rw [lastBlank_append, lastBlank, if_neg hlast, lastBlank]

theorem ne_whitespace_of_isTrivia {kind : Kind} (h : kind.isTrivia = false) :
    kind ≠ .whitespace := by
  rintro rfl
  cases h

/-- **A statement or member is some of the pieces.**  In front of it are the pieces of the leaves in
front of it. -/
theorem exists_pieces (h : Among (Node.ofText kind text) front t back) (htidy : t.node.Tidy)
    (hkind : t.kind.isAnchored = true) :
    ∃ left blank leaf inside right, piecesOf kind text = left ++ (blank, leaf) :: (inside ++ right)
      ∧ left.map (·.2.node) = front.filter (·.kind ≠ .whitespace)
      ∧ ((blank, leaf) :: inside).map (·.2.node) = t.node.leaves.filter (·.kind ≠ .whitespace)
      ∧ t.span =
        ⟨(spell left).size + blank.size, (spell (left ++ (blank, leaf) :: inside)).size⟩ := by
  have hnodes := map_node_leaves (root (Node.ofText kind text))
  have hleaves : (root (Node.ofText kind text)).leaves.map (·.node)
      = front ++ (t.node.leaves ++ back) := by
    rw [hnodes, ← List.append_assoc]
    exact h.leaves_eq
  obtain ⟨before, rest, hrow, hbefore, hrest⟩ := List.map_eq_append_iff.1 hleaves
  obtain ⟨own, after, rfl, hown, hafter⟩ := List.map_eq_append_iff.1 hrest
  obtain ⟨opening, more, hopening, htoken⟩ := htidy.begins hkind
  obtain ⟨leaf, others, rfl, hleaf, hothers⟩ := List.map_eq_cons_iff.1 (hown.trans hopening)
  have hleafKind : leaf.kind ≠ .whitespace := by
    refine ne_whitespace_of_isTrivia ?_
    rw [Cursor.kind, hleaf, htoken]
  -- the last leaf is a token, too
  have hend (blank : Text) : lastBlank blank (leaf :: others) = [] := by
    obtain ⟨init, last, hlast⟩ : ∃ init last, leaf :: others = init ++ [last] :=
      ⟨_, _, (List.dropLast_append_getLast (List.cons_ne_nil leaf others)).symm⟩
    have hgetLast : t.node.leaves.getLast? = some last.node := by
      rw [← hown, hlast, List.map_append, List.map_singleton, List.getLast?_concat]
    have htoken' : last.kind.isTrivia = false := htidy.ends hkind hgetLast
    rw [hlast]
    exact lastBlank_concat blank init (ne_whitespace_of_isTrivia htoken')
  have hend' : lastBlank [] others = [] := by
    have hnothing := hend []
    rwa [lastBlank, if_neg hleafKind] at hnothing
  have hpieces (blank : Text) :
      pieces blank (leaf :: others) = (blank, leaf) :: pieces [] others := by
    rw [pieces, if_neg hleafKind]
  refine ⟨pieces [] before, lastBlank [] before, leaf, pieces [] others, pieces [] after, ?_, ?_,
    ?_, ?_⟩
  · rw [piecesOf, hrow, pieces_append, pieces_append, hpieces, hend, List.cons_append]
  · rw [map_node_pieces, hbefore]
  · rw [← hpieces, map_node_pieces, hown]
  · have hfront : (spell (pieces [] before)).size + (lastBlank [] before).size = t.offset := by
      rw [← Text.size_append, spell_pieces, List.nil_append, h.offset_eq, ← hbefore,
        List.flatMap_map]
    have hstop : (spell (pieces [] before ++ (lastBlank [] before, leaf) :: pieces [] others)).size
        = t.stop := by
      have hspell := spell_pieces [] (before ++ leaf :: others)
      rw [pieces_append, hpieces, lastBlank_append, hend, List.append_nil,
        List.nil_append] at hspell
      rw [hspell, List.flatMap_append, Text.size_append, Cursor.stop, h.offset_eq, ← hbefore,
        ← size_flatMap_leaves, ← hown, List.flatMap_map, List.flatMap_map]
    rw [hfront, hstop]
    rfl

/-! ## The same pieces in the new tree -/

/-- The cell of a piece and the one that takes its place. -/
def cellOf (piece piece' : Text × Cursor) : Cell :=
  { old := piece.1, new := piece'.1, ink := piece.2.node.ownText }

theorem eq_zipWith_cellOf {cells : List Cell} {pieces pieces' : List (Text × Cursor)}
    (hold : cells.map (·.old) = pieces.map (·.1))
    (hink : cells.map (·.ink) = pieces.map (·.2.node.ownText))
    (hnew : cells.map (·.new) = pieces'.map (·.1)) :
    cells = List.zipWith cellOf pieces pieces' := by
  induction cells generalizing pieces pieces' with
  | nil =>
    rw [List.map_eq_nil_iff.1 hold.symm]
    rfl
  | cons cell rest ih =>
    obtain ⟨piece, others, rfl, hpiece, hothers⟩ := List.map_eq_cons_iff.1 hold.symm
    obtain ⟨piece', others', rfl, hpiece', hothers'⟩ := List.map_eq_cons_iff.1 hnew.symm
    rw [List.map_cons, List.map_cons, List.cons.injEq] at hink
    rw [List.zipWith_cons_cons, ← ih hothers.symm hink.2 hothers'.symm, cellOf, hpiece, hpiece',
      ← hink.1]

theorem spell_zipWith {pieces pieces' : List (Text × Cursor)}
    (h : pieces'.map (·.2.node) = pieces.map (·.2.node)) :
    Cell.spell (List.zipWith cellOf pieces pieces') = spell pieces
      ∧ Cell.respell (List.zipWith cellOf pieces pieces') = spell pieces' := by
  induction pieces generalizing pieces' with
  | nil =>
    rw [List.map_eq_nil_iff.1 h]
    exact ⟨rfl, rfl⟩
  | cons piece rest ih =>
    obtain ⟨piece', rest', rfl, hpiece, hrest⟩ := List.map_eq_cons_iff.1 h
    obtain ⟨hspell, hrespell⟩ := ih hrest
    rw [List.zipWith_cons_cons, Cell.spell, Cell.respell, hspell, hrespell, spell_cons, spell_cons,
      hpiece]
    exact ⟨rfl, rfl⟩

variable {f : Gap → Text}

/-- **A marker on some of the pieces is on the same pieces of the new tree.** -/
theorem Relays.carryAll_pieces (h : Relays f kind text text')
    {left left' inside inside' right right' :
    List (Text × Cursor)} {piece piece' : Text × Cursor}
    (hpieces : piecesOf kind text = left ++ piece :: (inside ++ right))
    (hpieces' : piecesOf kind text' = left' ++ piece' :: (inside' ++ right'))
    (hleft : left'.map (·.2.node) = left.map (·.2.node))
    (hinside : (piece' :: inside').map (·.2.node) = (piece :: inside).map (·.2.node)) :
    carryAll (Cell.edits 0 (relaid f (piecesOf kind text)))
        ⟨(spell left).size + piece.1.size, (spell (left ++ piece :: inside)).size⟩
      = ⟨(spell left').size + piece'.1.size, (spell (left' ++ piece' :: inside')).size⟩ := by
  have hcells := eq_zipWith_cellOf (map_old_relaid f (piecesOf kind text))
    (map_ink_relaid f (piecesOf kind text)) h.gaps.symm
  have hlengths : left.length = left'.length := by
    simpa using (congrArg List.length hleft).symm
  have hlengths' : inside.length = inside'.length := by
    simpa using (congrArg List.length hinside).symm
  have hsplit : relaid f (piecesOf kind text) = List.zipWith cellOf left left'
      ++ cellOf piece piece' :: (List.zipWith cellOf inside inside'
        ++ List.zipWith cellOf right right') := by
    rw [hcells, hpieces, hpieces', List.zipWith_append hlengths, List.zipWith_cons_cons,
      List.zipWith_append hlengths']
  have hink := ink_ne_nil_of_mem_relaid f kind text
  rw [hsplit] at hink ⊢
  have hmarker := @Cell.carryAll_pieces (List.zipWith cellOf left left')
    (List.zipWith cellOf inside inside') (List.zipWith cellOf right right') (cellOf piece piece') 0
    (hink _ (by simp)) fun cell hcell => hink cell (by simp [hcell])
  have hown : List.zipWith cellOf left left' ++ cellOf piece piece'
        :: List.zipWith cellOf inside inside'
      = List.zipWith cellOf (left ++ piece :: inside) (left' ++ piece' :: inside') := by
    rw [List.zipWith_append hlengths, List.zipWith_cons_cons]
  have hall : (left' ++ piece' :: inside').map (·.2.node) =
      (left ++ piece :: inside).map (·.2.node) := by
    rw [List.map_append, List.map_append, hleft, hinside]
  rw [hown, (spell_zipWith hleft).1, (spell_zipWith hleft).2, (spell_zipWith hall).1,
    (spell_zipWith hall).2] at hmarker
  simp only [Nat.zero_add] at hmarker
  exact hmarker

/-! ## The same node in the new tree -/

/-- A construct is a branch. -/
theorem isLeaf_of_isConstruct (h : Among (Node.ofText kind text) front t back)
    (hkind : t.kind.isConstruct = true) (htidy : t.node.Tidy) : t.node.isLeaf = false := by
  cases hnode : t.node with
  | branch own children => rfl
  | error problem own =>
    rw [Cursor.kind, hnode] at hkind
    cases hkind
  | leaf own ownText =>
    rw [hnode] at htidy
    cases htidy with
    | leaf htext =>
      have hleaves : t.node.leaves = [t.node] := by
        rw [hnode]
        exact Node.leaves_eq_singleton htext
      have hmem : t.node ∈ (Node.ofText kind text).leaves := by simp [h.leaves_eq, hleaves]
      -- a leaf is a token, or an error that a token became
      obtain ⟨node, hold, hsoftens⟩ := (Node.ofText_softens kind text).exists_of_mem hmem
      obtain ⟨token, htoken, rfl⟩ := List.mem_map.1 hold
      have hplain := Token.isConstruct_of_mem_ofTextWithin token htoken
      rw [Cursor.kind] at hkind
      rcases hsoftens.2 with hsame | herror
      · rw [hsame, Token.kind_node, hplain] at hkind
        cases hkind
      · rw [herror] at hkind
        cases hkind

/-- In a tree with the same core there is a branch of the same kind with the tokens of the same
numbers. -/
theorem exists_same_extent {tree tree' : Node} (hcore : tree'.core = tree.core)
    (h : Among tree front t back) (hbranch : t.node.isLeaf = false)
    (hcount : 0 < Node.number t.node.leaves) :
    ∃ front' t' back', Among tree' front' t' back' ∧ t'.kind = t.kind
      ∧ Node.number front' = Node.number front
      ∧ Node.number t'.node.leaves = Node.number t.node.leaves := by
  obtain ⟨front', t', back', hamong, -, hshape⟩ :=
    exists_among_of_mem (Node.mem_shapes_of_core_eq hcore (h.shape_mem hbranch) hcount)
  have hextent := congrArg Shape.extent hshape
  simp only [shape, Extent.mk.injEq] at hextent
  exact ⟨front', t', back', hamong, hextent.1.symm, hextent.2.1.symm, hextent.2.2.symm⟩

/-- Of two cuts in front of a token, with as many tokens in front, there is only one. -/
theorem cut_eq_of_number_eq {a b a' b' : List Node} {x x' : Node}
    (h : a ++ x :: b = a' ++ x' :: b') (hx : x.kind.isTrivia = false)
    (hx' : x'.kind.isTrivia = false) (hnumber : Node.number a' = Node.number a) :
    a' = a ∧ x' :: b' = x :: b := by
  rcases split_cases h with ⟨rfl, rfl, rfl⟩ | ⟨middle, rfl, -⟩ | ⟨middle, rfl, -⟩
  · exact ⟨rfl, rfl⟩
  · rw [Node.number_append, Node.number_cons, hx'] at hnumber
    simp only [Bool.false_eq_true, if_false] at hnumber
    omega
  · rw [Node.number_append, Node.number_cons, hx] at hnumber
    simp only [Bool.false_eq_true, if_false] at hnumber
    omega

/-- Nor behind one. -/
theorem cut_eq_of_number_eq' {a b a' b' : List Node} {x x' : Node}
    (h : (a ++ [x]) ++ b = (a' ++ [x']) ++ b') (hx : x.kind.isTrivia = false)
    (hx' : x'.kind.isTrivia = false)
    (hnumber : Node.number (a' ++ [x']) = Node.number (a ++ [x])) : a' ++ [x'] = a ++ [x] := by
  rw [List.append_assoc, List.append_assoc, List.singleton_append, List.singleton_append] at h
  rw [Node.number_append, Node.number_append, Node.number_cons, Node.number_cons, hx,
    hx'] at hnumber
  simp only [Bool.false_eq_true, if_false, Nat.add_right_cancel_iff] at hnumber
  obtain ⟨rfl, hrest⟩ := cut_eq_of_number_eq h hx hx' hnumber
  rw [(List.cons.inj hrest).1]

/-- Up to white space, the leaves of a statement or member are from one token to another. -/
theorem exists_ends {node : Node} (htidy : node.Tidy) (hkind : node.kind.isAnchored = true) :
    ∃ first rest init last, node.leaves.filter (·.kind ≠ .whitespace) = first :: rest
      ∧ first.kind.isTrivia = false ∧ node.leaves.filter (·.kind ≠ .whitespace) = init ++ [last]
      ∧ last.kind.isTrivia = false := by
  obtain ⟨first, rest, hleaves, hfirst⟩ := htidy.begins hkind
  obtain ⟨init, last, hconcat⟩ : ∃ init last, node.leaves = init ++ [last] := by
    rw [hleaves]
    exact ⟨_, _, (List.dropLast_append_getLast (List.cons_ne_nil first rest)).symm⟩
  have hlast : last.kind.isTrivia = false :=
    htidy.ends hkind (by rw [hconcat, List.getLast?_concat])
  refine ⟨first, rest.filter (·.kind ≠ .whitespace), init.filter (·.kind ≠ .whitespace), last, ?_,
    hfirst, ?_, hlast⟩
  · rw [hleaves, List.filter_cons_of_pos (by simpa using ne_whitespace_of_isTrivia hfirst)]
  · rw [hconcat, List.filter_append,
      List.filter_cons_of_pos (by simpa using ne_whitespace_of_isTrivia hlast), List.filter_nil]

/-- **A marker on a statement or member names its like in the new tree.** -/
theorem Relays.exists_target (h : Relays f kind text text')
    (ht : Among (Node.ofText kind text) front t back)
    (hkind : (t.kind.isStatement || t.kind.isMember) = true) :
    ∃ found, (root (Node.ofText kind text')).find?
        (carryAll (Cell.edits 0 (relaid f (piecesOf kind text))) t.span) t.kind = some found
      ∧ found.node.leaves.filter (·.kind ≠ .whitespace)
        = t.node.leaves.filter (·.kind ≠ .whitespace) := by
  have hanchored : t.kind.isAnchored = true := by rw [Kind.isAnchored, hkind, Bool.true_or]
  have hconstruct : t.kind.isConstruct = true := by
    unfold Kind.isConstruct
    rw [hkind, Bool.true_or, Bool.true_or]
  have htidy := (ht.tidy (Node.isTidyRoot_ofText kind text)).1 hanchored
  obtain ⟨first, rest, init, last, hfirst, hfirstToken, hlast, hlastToken⟩ :=
    exists_ends htidy hanchored
  have hcount : 0 < Node.number t.node.leaves := by
    rw [← number_filter, hfirst, Node.number_cons, hfirstToken]
    simp only [Bool.false_eq_true, if_false]
    omega
  -- the node in the new tree, and the pieces of both nodes
  obtain ⟨front', t', back', ht', hkind', hfront, hinside⟩ := exists_same_extent
    (Node.core_ofText kind h.respaced) ht (isLeaf_of_isConstruct ht hconstruct htidy) hcount
  have hanchored' : t'.kind.isAnchored = true := by rw [hkind', hanchored]
  have htidy' := (ht'.tidy (Node.isTidyRoot_ofText kind text')).1 hanchored'
  obtain ⟨first', rest', init', last', hfirst', hfirstToken', hlast', hlastToken'⟩ :=
    exists_ends htidy' hanchored'
  obtain ⟨left, blank, leaf, inside, right, hpieces, hleft, hown, hspan⟩ :=
    exists_pieces ht htidy hanchored
  obtain ⟨left', blank', leaf', inside', right', hpieces', hleft', hown', hspan'⟩ :=
    exists_pieces ht' htidy' hanchored'
  -- all pieces have the same leaves, so those with the same tokens have
  have hnodes := h.nodes
  rw [hpieces, hpieces', ← List.cons_append, ← List.cons_append, List.map_append, List.map_append,
    List.map_append, List.map_append, hleft, hleft', hown, hown', hfirst, hfirst', List.cons_append,
    List.cons_append] at hnodes
  obtain ⟨hsameLeft, hsame⟩ := cut_eq_of_number_eq hnodes.symm hfirstToken hfirstToken' (by
    rw [number_filter, number_filter, hfront])
  have hnumbers : Node.number (init' ++ [last']) = Node.number (init ++ [last]) := by
    rw [← hlast, ← hlast', number_filter, number_filter, hinside]
  rw [← List.cons_append, ← List.cons_append, ← hfirst, ← hfirst', hlast, hlast'] at hsame
  have hsameOwn := cut_eq_of_number_eq' hsame.symm hlastToken hlastToken' hnumbers
  rw [← hlast, ← hlast'] at hsameOwn
  have hmarker := h.carryAll_pieces hpieces hpieces' (by rw [hleft, hleft', hsameLeft])
    (by rw [hown, hown', hsameOwn])
  rw [hspan, hmarker, ← hspan', ← hkind']
  obtain ⟨found, hfound, -, hleaves⟩ := exists_find? ht'
  exact ⟨found, hfound, by rw [hleaves, hsameOwn]⟩

/-! ## Laying out -/

/-- The edits of a layout lie apart, and each puts white space in the place of white space. -/
theorem edits_apart (kind : SourceKind) (e : Editor) (span : Span) (style : CodeStyle) :
    (edits (.ofDocument kind e.document) span style).Pairwise
        (fun a b => a.span.stop < b.span.start)
      ∧ ∀ edit ∈ edits (.ofDocument kind e.document) span style, ∃ before blank after,
        e.text = before ++ blank ++ after ∧ edit.span = .behind before blank
          ∧ (∀ c ∈ blank, Token.isSpace c = true) ∧ ∀ c ∈ edit.text, Token.isSpace c = true := by
  obtain ⟨text', hrelays⟩ := (refilling_refilled span style).exists_relays kind e.text
  obtain ⟨last, htext, -⟩ := hrelays.text_eq
  have hedits : edits (.ofDocument kind e.document) span style
      = Cell.edits 0 (relaid (refilled span style) (piecesOf kind e.text)) := edits_eq _ span style
  rw [hedits]
  refine ⟨Cell.pairwise_edits (ink_ne_nil_of_mem_relaid _ kind e.text), fun edit hedit => ?_⟩
  obtain ⟨cell, hcell, hnew, front, back, hspell, hspan⟩ :=
    @Cell.exists_of_mem_edits [] _ edit hedit
  rw [List.nil_append, spell_relaid] at hspell
  have hspaces := hrelays.spaces cell hcell
  refine ⟨front, cell.old, back ++ last, ?_, hspan, fun c hc => ?_, fun c hc => ?_⟩
  · rw [htext, hspell, List.append_assoc]
  · exact hspaces c (List.mem_append_left _ hc)
  · rw [hnew] at hc
    exact hspaces c (List.mem_append_right _ hc)

/-- A marker put on a statement or member before a layout names its like behind it. -/
theorem exists_target_behind (kind : SourceKind) (e : Editor) (span : Span) (style : CodeStyle)
    {t : Cursor} (ht : t ∈ (Snapshot.ofDocument kind e.document).cursor.preorder)
    (hkind : (t.kind.isStatement || t.kind.isMember) = true) :
    ∃ e' range found, (e.mark t.span).1.applyEdits (edits (.ofDocument kind e.document) span style)
        = (e', .ok ())
      ∧ e'.marker? (e.mark t.span).2 = some range
      ∧ (Snapshot.ofDocument kind e'.document).cursor.find? range t.kind = some found
      ∧ found.node.leaves.filter (·.kind ≠ .whitespace)
        = t.node.leaves.filter (·.kind ≠ .whitespace) := by
  obtain ⟨front, back, hamong⟩ := (below_of_mem_preorder ht).among
  obtain ⟨e', hrun, hrelays, hmarkers⟩ := exists_applyEdits kind (e.mark t.span).1 span style
  obtain ⟨found, hfind, hfound⟩ := hrelays.exists_target hamong hkind
  refine ⟨e', _, found, hrun, ?_, hfind, hfound⟩
  have hmarked : (e.mark t.span).1.marker? (e.mark t.span).2 = some t.span := by
    simp [Editor.marker?, Editor.mark]
  rw [Editor.marker?_map hmarkers, hmarked]
  rfl

/-- **A layout keeps the program and the targets.**  Its edits lie apart and put white space in the
place of white space; they are not refused, and the tokens stay the same; and a marker put on a
statement or member names, in the tree of the new text, one of that kind with the same tokens. -/
theorem edits_keep_program (kind : SourceKind) (e : Editor) (span : Span) (style : CodeStyle) :
    let changes := edits (.ofDocument kind e.document) span style
    changes.Pairwise (fun a b => a.span.stop < b.span.start)
      ∧ (∀ edit ∈ changes, ∃ before blank after, e.text = before ++ blank ++ after
        ∧ edit.span = .behind before blank ∧ (∀ c ∈ blank, Token.isSpace c = true)
        ∧ ∀ c ∈ edit.text, Token.isSpace c = true)
      ∧ (∃ e', e.applyEdits changes = (e', .ok ())
        ∧ (Token.ofText e'.text).filter (·.kind ≠ .whitespace)
          = (Token.ofText e.text).filter (·.kind ≠ .whitespace))
      ∧ ∀ t ∈ (Snapshot.ofDocument kind e.document).cursor.preorder,
        (t.kind.isStatement || t.kind.isMember) = true →
        ∃ e' range found, (e.mark t.span).1.applyEdits changes = (e', .ok ())
          ∧ e'.marker? (e.mark t.span).2 = some range
          ∧ (Snapshot.ofDocument kind e'.document).cursor.find? range t.kind = some found
          ∧ found.node.leaves.filter (·.kind ≠ .whitespace)
            = t.node.leaves.filter (·.kind ≠ .whitespace) := by
  intro changes
  obtain ⟨hapart, hblank⟩ := edits_apart kind e span style
  obtain ⟨e', hrun, hrelays, -⟩ := exists_applyEdits kind e span style
  refine ⟨hapart, hblank, ⟨e', hrun, hrelays.respaced.filter_eq⟩, fun t ht hkind => ?_⟩
  exact exists_target_behind kind e span style ht hkind

/-- A conditional statement gets its space, and a marker on it names it again. -/
theorem edits_keep_program_of_if :
    let e := Editor.ofText ['i', 'f', '(', 'a', ')', ';']
    let changes := edits (.ofDocument .codeFragment e.document) ⟨0, 6⟩ {}
    (e.applyEdits changes).1.text = "if (a);".toList
      ∧ ∃ t ∈ (Snapshot.ofDocument .codeFragment e.document).cursor.preorder, t.kind = .ifStatement
        ∧ ∃ e' range found, (e.mark t.span).1.applyEdits changes = (e', .ok ())
          ∧ e'.marker? (e.mark t.span).2 = some range
          ∧ (Snapshot.ofDocument .codeFragment e'.document).cursor.find? range t.kind = some found
          ∧ found.node.leaves.filter (·.kind ≠ .whitespace)
            = t.node.leaves.filter (·.kind ≠ .whitespace) := by
  intro e changes
  refine ⟨by decide +kernel, ?_⟩
  have hany : (Snapshot.ofDocument .codeFragment e.document).cursor.preorder.any
      (·.kind = .ifStatement) = true := by decide +kernel
  obtain ⟨t, ht, hkind⟩ := List.any_eq_true.1 hany
  have hkind : t.kind = .ifStatement := of_decide_eq_true hkind
  refine ⟨t, ht, hkind, (edits_keep_program .codeFragment e ⟨0, 6⟩ {}).2.2.2 t ht ?_⟩
  rw [hkind]
  rfl

end Layout

end StatementCompletion
