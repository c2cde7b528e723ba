import StatementCompletion.Proofs.Grammar.Guarded
import StatementCompletion.Proofs.Layout.Pieces
import StatementCompletion.Repair.Target

/-!
# An empty block at the end of a text

Where the only statement of a source ends with an empty block, the leaf at its brace is known, and
so is what a layout of the block does: it puts a space in front of the opening brace and the closing
one on a line of its own.  Nothing in front of that is reached.
-/

namespace StatementCompletion

open Node (sizeAll)

/-! ## The block in its place -/

namespace Cursor

theorem leavesAll_append (above : List Placed) (index offset : Nat) (a b : List Node) :
    leavesAll above index offset (a ++ b)
      = leavesAll above index offset a ++ leavesAll above (index + a.length)
        (offset + sizeAll a) b := by
  induction a generalizing index offset with
  | nil => rfl
  | cons node rest ih =>
    rw [List.cons_append, leavesAll, leavesAll, ih, List.append_assoc, List.length_cons, sizeAll,
      Nat.add_assoc offset, Nat.add_right_comm, Nat.add_assoc index]

/-- What stands in front of a position is passed over. -/
theorem findLeafAll_append {position offset : Nat} {front : List Node}
    (h : offset + sizeAll front ≤ position) (above : List Placed) (index : Nat) (back : List Node) :
    findLeafAll position above index offset (front ++ back)
      = findLeafAll position above (index + front.length) (offset + sizeAll front) back := by
  induction front generalizing index offset with
  | nil => rfl
  | cons node rest ih =>
    rw [sizeAll] at h
    have hcovers : covers offset node.size position = false := by
      rw [covers, Bool.and_eq_false_iff, decide_eq_false_iff_not, decide_eq_false_iff_not]
      right
      omega
    rw [List.cons_append, findLeafAll, hcovers, if_neg Bool.false_ne_true, ih (by omega),
      List.length_cons, sizeAll, Nat.add_assoc offset, Nat.add_right_comm, Nat.add_assoc index]

end Cursor

namespace Layout

open Grammar (bracedNode)

variable {kind : Kind} {front : List Node} {inside : Text}

/-- A source with one statement that ends with an empty block. -/
def endingBlock (kind : Kind) (front : List Node) (inside : Text) : Node :=
  .branch .file [.branch kind (front ++ [.branch .blockStatement [bracedNode inside]])]

/-- What is above the block, from the inside out. -/
def aboveBlock (kind : Kind) (front : List Node) (inside : Text) : List Placed :=
  [{ node := .branch .blockStatement [bracedNode inside],
      offset := 0 + sizeAll front, index := 0 + front.length },
    { node := .branch kind (front ++ [.branch .blockStatement [bracedNode inside]]),
      offset := 0, index := 0 },
    { node := endingBlock kind front inside, offset := 0, index := 0 }]

/-- The block. -/
def endBlock (kind : Kind) (front : List Node) (inside : Text) : Cursor :=
  { node := bracedNode inside, offset := 0 + sizeAll front, index := 0,
    above := aboveBlock kind front inside }

/-- Its opening brace. -/
def openingBrace (kind : Kind) (front : List Node) (inside : Text) : Cursor :=
  { node := .leaf .leftBrace ['\x7b'], offset := 0 + sizeAll front, index := 0,
    above := (endBlock kind front inside).toPlaced :: aboveBlock kind front inside }

/-- The leaf behind all that is in front of the block is its brace. -/
theorem leafAt?_endingBlock {tree : Snapshot} (hroot : tree.root = endingBlock kind front inside) :
    tree.cursor.leafAt? (sizeAll front) = some (openingBrace kind front inside) := by
  have hbrace : (bracedNode inside).size =
      1 + sizeAll ((Token.blank inside ++ [Grammar.closesBlock]).map Token.node) :=
    rfl
  have hblock : (Node.branch .blockStatement [bracedNode inside]).size =
      (bracedNode inside).size := rfl
  have hstatement : (Node.branch kind (front ++ [.branch .blockStatement [bracedNode inside]])).size
      = sizeAll front + (bracedNode inside).size := by
    rw [Node.size, Node.sizeAll_append]
    rfl
  have hcovers {offset size : Nat} (h : offset ≤ sizeAll front)
      (hlt : sizeAll front < offset + size) :
      Cursor.covers offset size (sizeAll front) = true := by
    rw [Cursor.covers, decide_eq_true h, decide_eq_true hlt]
    rfl
  show Cursor.findLeaf (sizeAll front) [] 0 0 tree.root = _
  rw [hroot, endingBlock, Cursor.findLeaf, Cursor.findLeafAll,
    if_pos (hcovers (Nat.zero_le _) (by omega)), Cursor.findLeaf,
    Cursor.findLeafAll_append (Nat.zero_add _).le, Cursor.findLeafAll,
    if_pos (hcovers (by omega) (by omega)), Cursor.findLeaf, Cursor.findLeafAll, 
    if_pos (hcovers (by omega) (by omega)), bracedNode, Grammar.braced, List.map_cons,
    Cursor.findLeaf, Cursor.findLeafAll]
  have hopens : Cursor.covers (0 + sizeAll front) 1 (sizeAll front) = true :=
    hcovers (by omega) (by omega)
  exact (if_pos hopens).trans (if_pos hopens)

/-- The block stands behind all that is in front of it, and ends the text. -/
theorem sizeAll_of_endingBlock {source : SourceKind} {text : Text}
    (h : Node.ofText source text = endingBlock kind front inside) :
    text.size = sizeAll front + 2 + inside.size := by
  have hblank : sizeAll ((Token.blank inside).map Token.node) = inside.size := by
    rw [← Node.size_textAll, Node.textAll_map_node, Token.flatMap_blank]
  have hblock : sizeAll [bracedNode inside] = 1 + (inside.size + 1) := by
    rw [← hblank]
    show 1 + sizeAll ((Token.blank inside ++ [Grammar.closesBlock]).map Token.node) + 0 = _
    rw [List.map_append, Node.sizeAll_append]
    rfl
  have hsize := congrArg Node.size h
  rw [← Node.size_text, Node.text_ofText] at hsize
  rw [hsize, endingBlock]
  show sizeAll (front ++ [.branch .blockStatement [bracedNode inside]]) + 0 = _
  rw [Node.sizeAll_append]
  show sizeAll front + (sizeAll [bracedNode inside] + 0) + 0 = _
  omega

/-- At its brace no statement is the target, since it is in a block between its statements. -/
theorem around?_openingBrace : Target.around? (openingBrace kind front inside) = none :=
  rfl

/-! ## Gaps at the end -/

namespace Gap

theorem chain_append (before last : Cursor) (blank : Text) (a b : List (Text × Cursor)) :
    chain before (a ++ (blank, last) :: b) = chain before (a ++ [(blank, last)])
      ++ chain last b := by
  induction a generalizing before with
  | nil => rfl
  | cons piece rest ih =>
    rw [List.cons_append, List.cons_append, chain, chain, ih, List.cons_append]

theorem ofPieces_append (last : Cursor) (blank : Text) (a b : List (Text × Cursor)) :
    ofPieces (a ++ (blank, last) :: b) = ofPieces (a ++ [(blank, last)]) ++ chain last b := by
  cases a with
  | nil => rfl
  | cons piece rest => exact chain_append piece.2 last blank rest b

end Gap

/-- A layout of what is behind a leaf does not reach the gaps in front of it. -/
theorem edits_eq_chain {tree : Snapshot} {ahead behind : List Cursor} {last : Cursor}
    {offset : Nat} {text : Text}
    (hleaves : tree.cursor.leaves = ahead ++ last :: behind) (hahead : Cursor.Row offset text ahead)
    (hlast : last.kind ≠ .whitespace) {span : Span} (hspan : offset + text.size ≤ span.start)
    (hstart : last.offset < span.start) (style : CodeStyle) :
    edits tree span style = (Gap.chain last (pieces [] behind)).filterMap fun gap =>
      if gap.isReached span then gap.edit? style else none := by
  have hpieces : pieces [] (ahead ++ last :: behind)
      = pieces [] ahead ++ (lastBlank [] ahead, last) :: pieces [] behind := by
    rw [pieces_append, pieces, if_neg hlast]
  rw [edits, hleaves, Gap.ofLeaves_eq [], hpieces, Gap.ofPieces_append, List.filterMap_append,
    List.filterMap_eq_nil_iff.2, List.nil_append]
  intro gap hgap
  obtain ⟨before, blank, back, heq⟩ := Gap.mem_ofPieces hgap
  -- the leaf behind the gap starts in front of the span
  have hafter : gap.after.offset < span.start := by
    have hmem : (gap.text, gap.after) ∈ pieces [] ahead ++ [(lastBlank [] ahead, last)] := by
      rw [heq]
      exact List.mem_append_right _ (List.mem_cons_of_mem _ List.mem_cons_self)
    rcases List.mem_append.1 hmem with hmem | hmem
    · obtain ⟨a, b, hab⟩ := List.append_of_mem hmem
      obtain ⟨before', after', rfl, -⟩ := exists_of_pieces_eq hab
      have hbounds := hahead.bounds gap.after (List.mem_append_right _ List.mem_cons_self)
      omega
    · rw [(Prod.mk.inj (List.mem_singleton.1 hmem)).2]
      exact hstart
  rw [if_neg]
  rw [Gap.isReached, decide_eq_false (Nat.not_le.2 hafter), Bool.and_false]
  exact Bool.false_ne_true

/-! ## Opening the block -/

/-- The parenthesis in front of an empty block. -/
def closingParen (kind : Kind) (front : List Node) : Cursor :=
  { node := .closer, offset := 0 + sizeAll front, index := 0 + front.length,
    above := (aboveBlock kind (front ++ [.closer]) []).tail }

/-- The closing brace of a block with nothing in it. -/
def closingBrace (kind : Kind) (front : List Node) : Cursor :=
  { node := .leaf .rightBrace ['\x7d'], offset := 0 + sizeAll front + 1, index := 1,
    above := (endBlock kind front []).toPlaced :: aboveBlock kind front [] }

theorem leaves_endingBlock (kind : Kind) (front : List Node) :
    (Cursor.root (endingBlock kind (front ++ [.closer]) [])).leaves
      = Cursor.leavesAll (aboveBlock kind (front ++ [.closer]) []).tail 0 0 front
        ++ closingParen kind front
          :: [openingBrace kind (front ++ [.closer]) [],
            closingBrace kind (front ++ [.closer])] := by
  show Cursor.leavesAll _ 0 0
    (front ++ [.closer] ++ [.branch .blockStatement [bracedNode []]]) ++ [] = _
  rw [List.append_nil, Cursor.leavesAll_append, Cursor.leavesAll_append, List.append_assoc]
  rfl

/-- What has its body in braces, is no block around the position and holds no
labels indents nothing. -/
theorem levels_eq_zero {position : Nat} {c child : Cursor}
    (hbraces : isBetweenBraces c position = false)
    (hbody : c.kind.isControlStatement = false ∨ child.kind = .blockStatement)
    (hlabel : c.kind = .codeBlock → c.parentKind? ≠ some .switchStatement) :
    levels position c child = 0 := by
  have hunbraced : isUnbracedBody c child = false := by
    rw [isUnbracedBody]
    rcases hbody with hbody | hbody
    · rw [hbody]
      rfl
    · rw [hbody, decide_eq_false (not_not_intro rfl), Bool.and_false, Bool.false_and]
  have hbelow : isBelowLabel c child = false := by
    rw [isBelowLabel]
    by_cases hblock : c.kind = .codeBlock
    · rw [decide_eq_false (hlabel hblock), Bool.and_false]
      rfl
    · rw [decide_eq_false hblock]
      rfl
  rw [levels, hbraces, hunbraced, hbelow]
  rfl

/-- The closing brace stands at the depth of the statement. -/
theorem depth_closingBrace {kind : Kind} (hkind : kind ≠ .codeBlock ∧ kind ≠ .classDeclaration)
    (front : List Node) :
    depth (closingBrace kind front) = 0 := by
  set position := (closingBrace kind front).offset
  have hblock : isBetweenBraces (endBlock kind front []) position = false := by
    have hlast : (endBlock kind front []).lastChild? .rightBrace
        = some { closingBrace kind front with
            offset := 0 + sizeAll front + 2 - 1, index := 0 + 1 } := rfl
    rw [isBetweenBraces, hlast, Option.all_some, Bool.and_eq_false_iff]
    exact .inr (decide_eq_false (Nat.lt_irrefl _))
  have houter (c : Cursor) (hc : c.kind ≠ .codeBlock ∧ c.kind ≠ .classDeclaration) :
      isBetweenBraces c position = false := by
    rw [isBetweenBraces, decide_eq_false hc.1, decide_eq_false hc.2]
    rfl
  obtain ⟨block, statement, file, habove, hblockKind, hstatement, hfile⟩ :
      ∃ block statement file : Cursor,
      (closingBrace kind front).ancestors = [endBlock kind front [], block, statement, file]
        ∧ block.kind = .blockStatement ∧ statement.kind = kind ∧ file.kind = .file :=
    ⟨_, _, _, rfl, rfl, rfl, rfl⟩
  rw [depth, habove]
  simp only [depthBelow]
  rw [levels_eq_zero hblock (.inl rfl) (fun _ => nofun),
    levels_eq_zero (houter _ (by rw [hblockKind]; decide)) (.inl (by rw [hblockKind]; rfl))
      (by rw [hblockKind]; nofun),
    levels_eq_zero (houter _ (hstatement ▸ hkind)) (.inr hblockKind)
      (fun h => absurd (hstatement ▸ h) hkind.1),
    levels_eq_zero (houter _ (by rw [hfile]; decide)) (.inl (by rw [hfile]; rfl))
      (by rw [hfile]; nofun)]

theorem sizeAll_closer (front : List Node) : sizeAll (front ++ [.closer]) = sizeAll front + 1 := by
  rw [Node.sizeAll_append]
  rfl

/-- The gap in front of an empty block behind a parenthesis. -/
def gapBefore (kind : Kind) (front : List Node) : Gap :=
  ⟨closingParen kind front, [], openingBrace kind (front ++ [.closer]) []⟩

/-- The gap in it. -/
def gapInside (kind : Kind) (front : List Node) : Gap :=
  ⟨openingBrace kind (front ++ [.closer]) [], [], closingBrace kind (front ++ [.closer])⟩

section

variable {kind : Kind} {style : CodeStyle}

theorem edit?_gapBefore (kind : Kind) (front : List Node)
    (hstyle : style.keepSimpleBlocks = false) :
    (gapBefore kind front).isReached { start := sizeAll front + 1, stop := sizeAll front + 3 }
        = true
      ∧ (gapBefore kind front).edit? style = some (.insertion (sizeAll front + 1) [' ']) := by
  have hstart : (gapBefore kind front).before.stop = sizeAll front + 1 := by
    simp only [gapBefore, Cursor.stop, closingParen, Nat.zero_add]
    rfl
  have hstop : (gapBefore kind front).after.offset = sizeAll front + 1 := by
    simp only [gapBefore, openingBrace, sizeAll_closer, Nat.zero_add]
  have hwanted : (gapBefore kind front).wanted style = [' '] := by
    rw [Gap.wanted, hstyle]
    rfl
  constructor
  · simp [Gap.isReached, hstart, hstop]
  · rw [Gap.edit?, hwanted, Gap.span, hstart, hstop]
    rfl

theorem edit?_gapInside (hkind : kind ≠ .codeBlock ∧ kind ≠ .classDeclaration) (front : List Node)
    (hstyle : style.keepSimpleBlocks = false) :
    (gapInside kind front).isReached { start := sizeAll front + 1, stop := sizeAll front + 3 }
        = true
      ∧ (gapInside kind front).edit? style = some (.insertion (sizeAll front + 2) ['\n']) := by
  have hstart : (gapInside kind front).before.stop = sizeAll front + 2 := by
    simp only [gapInside, Cursor.stop, openingBrace, sizeAll_closer, Nat.zero_add]
    rfl
  have hstop : (gapInside kind front).after.offset = sizeAll front + 2 := by
    simp only [gapInside, closingBrace, sizeAll_closer, Nat.zero_add]
  have hwanted : (gapInside kind front).wanted style = ['\n'] := by
    have hempty : (gapInside kind front).isInsideEmptyBlock = true := by
      set block := endBlock kind (front ++ [.closer]) []
      show (true && decide (block.span = block.span)) = true
      rw [decide_eq_true rfl]
      rfl
    rw [Gap.wanted, hstyle, hempty,
      show (gapInside kind front).after = closingBrace kind (front ++ [.closer]) from rfl,
      depth_closingBrace hkind]
    rfl
  constructor
  · simp [Gap.isReached, hstart, hstop]
  · rw [Gap.edit?, hwanted, Gap.span, hstart, hstop]
    rfl

end

/-- **The layout of an empty block behind a parenthesis** puts a space in front of it and its
closing brace on a line of its own. -/
theorem edits_endingBlock {tree : Snapshot} {kind : Kind} {front : List Node}
    (hroot : tree.root = endingBlock kind (front ++ [.closer]) [])
    (hkind : kind ≠ .codeBlock ∧ kind ≠ .classDeclaration) {style : CodeStyle}
    (hstyle : style.keepSimpleBlocks = false) :
    edits tree (endBlock kind (front ++ [.closer]) []).span style
      = [.insertion (sizeAll front + 1) [' '], .insertion (sizeAll front + 2) ['\n']] := by
  have hleaves : tree.cursor.leaves = _ :=
    (congrArg (fun root => (Cursor.root root).leaves) hroot).trans
      (leaves_endingBlock kind front)
  have hspan : (endBlock kind (front ++ [.closer]) []).span
      = { start := sizeAll front + 1, stop := sizeAll front + 3 } := by
    rw [Cursor.span, Cursor.stop, endBlock, sizeAll_closer, Nat.zero_add]
    rfl
  have hfront := Cursor.row_leavesAll front (aboveBlock kind (front ++ [.closer]) []).tail 0 0
  have hbehind : 0 + Text.size (Node.textAll front) ≤ sizeAll front + 1 := by
    rw [Node.size_textAll, Nat.zero_add]
    exact Nat.le_succ _
  have hparen : (closingParen kind front).offset < sizeAll front + 1 :=
    Nat.lt_succ_of_le (Nat.zero_add _).le
  have hink : (closingParen kind front).kind ≠ .whitespace :=
    (by decide : Kind.rightParen ≠ .whitespace)
  -- only the last two gaps are reached
  rw [hspan, edits_eq_chain hleaves hfront hink hbehind hparen]
  show [gapBefore kind front, gapInside kind front].filterMap _ = _
  simp only [List.filterMap_cons, List.filterMap_nil, edit?_gapBefore kind front hstyle,
    edit?_gapInside hkind front hstyle, if_true]

end Layout

end StatementCompletion
