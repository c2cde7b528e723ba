import StatementCompletion.Layout.Gap
import StatementCompletion.Proofs.Editor.Cells
import StatementCompletion.Proofs.Grammar.Evolution
import StatementCompletion.Proofs.Token.Respacing
import StatementCompletion.Proofs.Tree.Leaves

/-!
# The gaps of a tree as cells of its text

A piece is a leaf that is no white space, and the white space in front of it.  The gaps
that the layout looks at stand between one piece and the next; what a layout puts into
them makes cells of the pieces, and its edits are those of the cells.  The white space in
front of the first piece stays.
-/

namespace StatementCompletion.Layout

/-! ## Pieces -/

/-- The leaves that are no white space, each behind the white space in front of it; of that in front
of the first some is given. -/
def pieces (blank : Text) : List Cursor → List (Text × Cursor)
  | [] => []
  | leaf :: rest =>
    if leaf.kind = .whitespace then pieces (blank ++ leaf.node.ownText) rest
    else (blank, leaf) :: pieces [] rest

/-- The white space behind the last of these leaves. -/
def lastBlank (blank : Text) : List Cursor → Text
  | [] => blank
  | leaf :: rest =>
    if leaf.kind = .whitespace then lastBlank (blank ++ leaf.node.ownText) rest
    else lastBlank [] rest

theorem pieces_append (blank : Text) (a b : List Cursor) :
    pieces blank (a ++ b) = pieces blank a ++ pieces (lastBlank blank a) b := by
  induction a generalizing blank with
  | nil => rfl
  | cons leaf rest ih =>
    rw [List.cons_append, pieces, pieces, lastBlank]
    split
    · exact ih _
    · rw [ih, List.cons_append]

theorem lastBlank_append (blank : Text) (a b : List Cursor) :
    lastBlank blank (a ++ b) = lastBlank (lastBlank blank a) b := by
  induction a generalizing blank with
  | nil => rfl
  | cons leaf rest ih =>
    rw [List.cons_append, lastBlank, lastBlank]
    split
    · exact ih _
    · exact ih _

/-- The pieces have the leaves that are no white space. -/
theorem map_node_pieces (blank : Text) (leaves : List Cursor) :
    (pieces blank leaves).map (·.2.node)
      = (leaves.map (·.node)).filter (·.kind ≠ .whitespace) := by
  induction leaves generalizing blank with
  | nil => rfl
  | cons leaf rest ih =>
    rw [pieces, List.map_cons]
    split
    · next hspace =>
      have hnode : leaf.node.kind = .whitespace := hspace
      rw [List.filter_cons_of_neg (by simp [hnode]), ih]
    · next hspace =>
      have hnode : leaf.node.kind ≠ .whitespace := hspace
      rw [List.filter_cons_of_pos (by simp [hnode]), List.map_cons, ih]

/-- A piece has its leaf, with those of the pieces in front of it and white space in front. -/
theorem exists_of_pieces_eq {blank blank' : Text} {leaves : List Cursor} {leaf : Cursor}
    {front back : List (Text × Cursor)}
    (h : pieces blank leaves = front ++ (blank', leaf) :: back) :
    ∃ before after, leaves = before ++ leaf :: after ∧ pieces [] after = back
      ∧ (before.map (·.node)).filter (·.kind ≠ .whitespace) = front.map (·.2.node) := by
  induction leaves generalizing blank front with
  | nil => simp [pieces] at h
  | cons first rest ih =>
    rw [pieces] at h
    split at h
    · next hspace =>
      have hnode : first.node.kind = .whitespace := hspace
      obtain ⟨before, after, rfl, hback, hfront⟩ := ih h
      refine ⟨first :: before, after, rfl, hback, ?_⟩
      rw [List.map_cons, List.filter_cons_of_neg (by simp [hnode]), hfront]
    · next hspace =>
      have hnode : first.node.kind ≠ .whitespace := hspace
      cases front with
      | nil =>
        obtain ⟨hpiece, rfl⟩ := List.cons.inj h
        obtain ⟨-, rfl⟩ := Prod.mk.inj hpiece
        exact ⟨[], rest, rfl, rfl, rfl⟩
      | cons piece front =>
        obtain ⟨rfl, hrest⟩ := List.cons.inj h
        obtain ⟨before, after, rfl, hback, hfront⟩ := ih hrest
        refine ⟨first :: before, after, rfl, hback, ?_⟩
        rw [List.map_cons, List.filter_cons_of_pos (by simp [hnode]), hfront, List.map_cons]

/-- Pieces in a row from an offset on. -/
inductive Lined : Nat → List (Text × Cursor) → Prop where
  | nil {start : Nat} : Lined start []
  | cons {start : Nat} {gap : Text} {leaf : Cursor} {rest : List (Text × Cursor)} :
      leaf.offset = start + gap.size → leaf.node.ownText ≠ [] → Lined leaf.stop rest →
        Lined start ((gap, leaf) :: rest)

/-- The text of pieces in a row. -/
def spell (pieces : List (Text × Cursor)) : Text :=
  pieces.flatMap fun piece => piece.1 ++ piece.2.node.ownText

theorem spell_append (a b : List (Text × Cursor)) : spell (a ++ b) = spell a ++ spell b :=
  List.flatMap_append

theorem spell_cons (gap : Text) (leaf : Cursor) (rest : List (Text × Cursor)) :
    spell ((gap, leaf) :: rest) = gap ++ leaf.node.ownText ++ spell rest :=
  List.flatMap_cons

/-- The pieces and the white space behind them have the text of the leaves. -/
theorem spell_pieces (blank : Text) (leaves : List Cursor) :
    spell (pieces blank leaves) ++ lastBlank blank leaves
      = blank ++ leaves.flatMap (·.node.ownText) := by
  induction leaves generalizing blank with
  | nil => rw [pieces, lastBlank, List.flatMap_nil, List.append_nil]; rfl
  | cons leaf rest ih =>
    rw [pieces, lastBlank, List.flatMap_cons]
    split
    · rw [ih, List.append_assoc]
    · rw [spell_cons, List.append_assoc, ih, List.nil_append, List.append_assoc]

theorem lined_pieces {start : Nat} {text : Text} {leaves : List Cursor}
    (h : Cursor.Row start text leaves) {before : Nat} {blank : Text}
    (hstart : start = before + blank.size) : Lined before (pieces blank leaves) := by
  induction h generalizing before blank with
  | nil => exact .nil
  | @cons leaf text leaves hnonempty _ ih =>
    have hstop := Cursor.stop_of_ownText_ne_nil hnonempty
    rw [pieces]
    split
    · refine ih ?_
      rw [hstop, hstart, Text.size_append, Nat.add_assoc]
    · exact .cons hstart hnonempty (ih rfl)

theorem Lined.ownText_ne_nil {start : Nat} {pieces : List (Text × Cursor)}
    (h : Lined start pieces) :
    ∀ piece ∈ pieces, piece.2.node.ownText ≠ [] := by
  induction h with
  | nil => simp
  | cons _ hnonempty _ ih => exact List.forall_mem_cons.2 ⟨hnonempty, ih⟩

/-! ## Gaps -/

namespace Gap

/-- The gaps between a leaf and the pieces behind it. -/
def chain (before : Cursor) : List (Text × Cursor) → List Gap
  | [] => []
  | (text, after) :: rest => { before, text, after } :: chain after rest

/-- The gaps between pieces in a row. -/
def ofPieces : List (Text × Cursor) → List Gap
  | [] => []
  | (_, first) :: rest => chain first rest

theorem between_eq_chain (before : Cursor) (blank : Text) (leaves : List Cursor) :
    between before blank leaves = chain before (pieces blank leaves) := by
  induction leaves generalizing before blank with
  | nil => rfl
  | cons leaf rest ih =>
    rw [between, pieces]
    split
    · exact ih before _
    · rw [chain, ih leaf []]

theorem ofLeaves_eq (blank : Text) (leaves : List Cursor) :
    ofLeaves leaves = ofPieces (pieces blank leaves) := by
  induction leaves generalizing blank with
  | nil => rfl
  | cons leaf rest ih =>
    rw [pieces]
    split
    · next hspace =>
      rw [← ih (blank ++ leaf.node.ownText), ofLeaves, List.dropWhile_cons_of_pos (by simpa)]
      rfl
    · next hspace =>
      rw [ofPieces, ← between_eq_chain, ofLeaves, List.dropWhile_cons_of_neg (by simpa)]

theorem mem_chain {before : Cursor} {pieces : List (Text × Cursor)} {g : Gap}
    (h : g ∈ chain before pieces) (blank : Text) : ∃ front blank' back,
      (blank, before) :: pieces = front ++ (blank', g.before) :: (g.text, g.after) :: back := by
  induction pieces generalizing before blank with
  | nil => cases h
  | cons piece rest ih =>
    obtain ⟨text, after⟩ := piece
    rcases List.mem_cons.1 h with rfl | h
    · exact ⟨[], blank, rest, rfl⟩
    · obtain ⟨front, blank', back, heq⟩ := ih h text
      exact ⟨(blank, before) :: front, blank', back, by rw [heq, List.cons_append]⟩

/-- A gap stands between two pieces. -/
theorem mem_ofPieces {pieces : List (Text × Cursor)} {g : Gap} (h : g ∈ ofPieces pieces) :
    ∃ front blank back,
      pieces = front ++ (blank, g.before) :: (g.text, g.after) :: back := by
  cases pieces with
  | nil => cases h
  | cons piece rest => exact mem_chain h piece.1

end Gap

/-! ## Cells -/

open TextEdit (Cell)

/-- The cells of the pieces behind a leaf, with new white space in the gaps. -/
def relay (f : Gap → Text) (before : Cursor) : List (Text × Cursor) → List Cell
  | [] => []
  | (text, after) :: rest =>
    { old := text, new := f { before, text, after }, ink := after.node.ownText }
      :: relay f after rest

/-- The cells of pieces in a row, with new white space in the gaps. -/
def relaid (f : Gap → Text) : List (Text × Cursor) → List Cell
  | [] => []
  | (text, first) :: rest =>
    { old := text, new := text, ink := first.node.ownText } :: relay f first rest

theorem relay_append (f : Gap → Text) (before last : Cursor) (blank : Text)
    (a b : List (Text × Cursor)) :
    relay f before (a ++ (blank, last) :: b)
      = relay f before (a ++ [(blank, last)]) ++ relay f last b := by
  induction a generalizing before with
  | nil => rfl
  | cons piece rest ih => simp only [List.cons_append, relay, ih]

theorem relaid_append (f : Gap → Text) (last : Cursor) (blank : Text) (a b : List (Text × Cursor)) :
    relaid f (a ++ (blank, last) :: b) = relaid f (a ++ [(blank, last)]) ++ relay f last b := by
  cases a with
  | nil => rfl
  | cons piece rest =>
    rw [List.cons_append, relaid, relay_append]
    rfl

theorem map_old_relay (f : Gap → Text) (before : Cursor) (pieces : List (Text × Cursor)) :
    (relay f before pieces).map (·.old) = pieces.map (·.1) := by
  induction pieces generalizing before with
  | nil => rfl
  | cons piece rest ih => rw [relay, List.map_cons, List.map_cons, ih]

theorem map_old_relaid (f : Gap → Text) (pieces : List (Text × Cursor)) :
    (relaid f pieces).map (·.old) = pieces.map (·.1) := by
  cases pieces with
  | nil => rfl
  | cons piece rest => rw [relaid, List.map_cons, List.map_cons, map_old_relay]

theorem map_ink_relay (f : Gap → Text) (before : Cursor) (pieces : List (Text × Cursor)) :
    (relay f before pieces).map (·.ink) = pieces.map (·.2.node.ownText) := by
  induction pieces generalizing before with
  | nil => rfl
  | cons piece rest ih => rw [relay, List.map_cons, List.map_cons, ih]

theorem map_ink_relaid (f : Gap → Text) (pieces : List (Text × Cursor)) :
    (relaid f pieces).map (·.ink) = pieces.map (·.2.node.ownText) := by
  cases pieces with
  | nil => rfl
  | cons piece rest => rw [relaid, List.map_cons, List.map_cons, map_ink_relay]

theorem length_relaid (f : Gap → Text) (pieces : List (Text × Cursor)) :
    (relaid f pieces).length = pieces.length := by
  have hlength := congrArg List.length (map_ink_relaid f pieces)
  rwa [List.length_map, List.length_map] at hlength

theorem spell_relay (f : Gap → Text) (before : Cursor) (pieces : List (Text × Cursor)) :
    Cell.spell (relay f before pieces) = spell pieces := by
  induction pieces generalizing before with
  | nil => rfl
  | cons piece rest ih =>
    rw [relay, Cell.spell, ih, spell_cons]

theorem spell_relaid (f : Gap → Text) (pieces : List (Text × Cursor)) :
    Cell.spell (relaid f pieces) = spell pieces := by
  cases pieces with
  | nil => rfl
  | cons piece rest => rw [relaid, Cell.spell, spell_relay, spell_cons]

/-- The edit that puts new white space into a gap, unless it is there already. -/
def refill? (f : Gap → Text) (g : Gap) : Option TextEdit :=
  if f g = g.text then none else some { span := g.span, text := f g }

theorem filterMap_refill?_chain (f : Gap → Text) {before : Cursor} {pieces : List (Text × Cursor)}
    (h : Lined before.stop pieces) :
    (Gap.chain before pieces).filterMap (refill? f)
      = Cell.edits before.stop (relay f before pieces) := by
  induction pieces generalizing before with
  | nil => rfl
  | cons piece rest ih =>
    cases h with
    | @cons _ text after _ hoffset hnonempty hrest =>
      have hbehind := ih hrest
      rw [Cursor.stop_of_ownText_ne_nil hnonempty, hoffset] at hbehind
      rw [Gap.chain, relay, Cell.edits, ← hbehind]
      by_cases hsame : f { before, text, after } = text
      · have hnone : refill? f { before, text, after } = none := if_pos hsame
        rw [List.filterMap_cons_none hnone, if_pos hsame]
      · have hsome : refill? f { before, text, after }
            = some ⟨⟨before.stop, after.offset⟩, f { before, text, after }⟩ := if_neg hsame
        rw [List.filterMap_cons_some hsome, if_neg hsame, hoffset]

theorem filterMap_refill?_ofPieces (f : Gap → Text) {start : Nat} {pieces : List (Text × Cursor)}
    (h : Lined start pieces) :
    (Gap.ofPieces pieces).filterMap (refill? f) = Cell.edits start (relaid f pieces) := by
  cases h with
  | nil => rfl
  | @cons _ text first rest hoffset hnonempty hrest =>
    have hbehind := filterMap_refill?_chain f hrest
    rw [Cursor.stop_of_ownText_ne_nil hnonempty, hoffset] at hbehind
    rw [Gap.ofPieces, hbehind, relaid, Cell.edits, if_pos rfl]

/-! ## Layouts -/

/-- What a layout of the gaps that a span reaches puts into a gap. -/
def refilled (span : Span) (style : CodeStyle) (g : Gap) : Text :=
  if g.isReached span then g.wanted style else g.text

/-- The edits of a layout are those of the cells it makes. -/
theorem edits_eq (tree : Snapshot) (span : Span) (style : CodeStyle) :
    edits tree span style
      = Cell.edits 0 (relaid (refilled span style) (pieces [] tree.cursor.leaves)) := by
  have hrow : Cursor.Row 0 tree.root.text tree.cursor.leaves := Cursor.row_leaves tree.cursor
  have hlined := @lined_pieces _ _ _ hrow 0 [] rfl
  rw [← filterMap_refill?_ofPieces _ hlined, ← Gap.ofLeaves_eq, edits]
  congr 1
  funext g
  rw [refill?, refilled]
  split
  · rw [Gap.edit?]
  · rw [if_pos rfl]

end StatementCompletion.Layout
