import StatementCompletion.Layout.Gap
import StatementCompletion.Proofs.Editor.Newline
import StatementCompletion.Proofs.Layout.Relay

/-!
# The white space that belongs into a gap

It may be in the place of what is there: a gap with line feeds keeps one, and only in front of a
closing brace a line feed is new.  And it is settled: once it is there, it is what belongs there.
-/

namespace StatementCompletion

namespace CodeStyle

/-- Indentation is spaces or tabs. -/
theorem mem_indent {style : CodeStyle} {depth : Nat} {c : Char} (h : c ∈ style.indent depth) :
    c = ' ' ∨ c = '\t' := by
  obtain ⟨unit, hunit, hc⟩ := List.mem_flatten.1 h
  obtain rfl := List.eq_of_mem_replicate hunit
  exact mem_indentUnit hc

theorem count_indent (style : CodeStyle) (depth : Nat) : (style.indent depth).count '\n' = 0 := by
  refine List.count_eq_zero.2 fun hmem => ?_
  rcases mem_indent hmem with h | h <;> cases h

end CodeStyle

namespace Layout

variable {g : Gap} {style : CodeStyle}

namespace Gap

/-! ## The cases of what is wanted -/

/-- A line opened at a depth behind some line feeds. -/
def lines (style : CodeStyle) (count depth : Nat) : Text :=
  List.replicate count '\n' ++ style.indent depth

theorem count_lines (style : CodeStyle) (count depth : Nat) :
    (lines style count depth).count '\n' = count := by
  rw [lines, List.count_append, CodeStyle.count_indent, List.count_replicate_self, Nat.add_zero]

theorem isSpace_of_mem_lines {count depth : Nat} : ∀ c ∈ lines style count depth,
    Token.isSpace c = true := by
  intro c hc
  rcases List.mem_append.1 hc with hc | hc
  · rw [List.eq_of_mem_replicate hc]
    rfl
  · rcases CodeStyle.mem_indent hc with rfl | rfl <;> rfl

/-- What is wanted in a gap: lines where there are some, two lines in a block that is to be opened,
a space between certain tokens, or what is there. -/
theorem wanted_cases (g : Gap) (style : CodeStyle) :
    (0 < g.text.count '\n'
        ∧ g.wanted style
          = lines style (min (g.text.count '\n') (style.keepBlankLines + 1)) (depth g.after))
      ∨ (g.text.count '\n' = 0 ∧ (!style.keepSimpleBlocks && g.isInsideEmptyBlock) = true
        ∧ g.wanted style = lines style 1 (depth g.after))
      ∨ (g.text.count '\n' = 0 ∧ (!style.keepSimpleBlocks && g.isInsideEmptyBlock) = false
        ∧ g.text = [] ∧ g.wanted style = [' '])
      ∨ (g.text.count '\n' = 0 ∧ (!style.keepSimpleBlocks && g.isInsideEmptyBlock) = false
        ∧ (isSpaced g.before.kind g.after.kind && g.text.isEmpty) = false
        ∧ g.wanted style = g.text) := by
  by_cases hlines : 0 < g.text.count '\n'
  · exact .inl ⟨hlines, if_pos hlines⟩
  have hnone : g.text.count '\n' = 0 := Nat.eq_zero_of_not_pos hlines
  have hone : g.wanted style
      = if !style.keepSimpleBlocks && g.isInsideEmptyBlock then lines style 1 (depth g.after)
        else if isSpaced g.before.kind g.after.kind && g.text.isEmpty then [' '] else g.text :=
    if_neg hlines
  rw [hone]
  by_cases hblock : (!style.keepSimpleBlocks && g.isInsideEmptyBlock) = true
  · exact .inr (.inl ⟨hnone, hblock, if_pos hblock⟩)
  have hstays := Bool.eq_false_iff.2 hblock
  rw [if_neg hblock]
  by_cases hspaced : (isSpaced g.before.kind g.after.kind && g.text.isEmpty) = true
  · have hempty := List.isEmpty_iff.1 (Bool.and_eq_true_iff.1 hspaced).2
    exact .inr (.inr (.inl ⟨hnone, hstays, hempty, if_pos hspaced⟩))
  · exact .inr (.inr (.inr ⟨hnone, hstays, Bool.eq_false_iff.2 hspaced, if_neg hspaced⟩))

/-! ## In the place of what is there -/

theorem contains_newline (text : Text) : text.contains '\n' = decide (0 < text.count '\n') := by
  rw [Bool.eq_iff_iff, List.contains_iff_mem, decide_eq_true_eq, List.count_pos_iff]

/-- Lines may be in the place of white space with a line feed. -/
theorem refills_lines {kind : Kind} {old : Text} {count depth : Nat} (hcount : 0 < count)
    (hold : kind ≠ .rightBrace → 0 < old.count '\n') :
    Token.Refills kind old (lines style count depth) := by
  obtain ⟨n, rfl⟩ := Nat.exists_eq_succ_of_ne_zero (Nat.ne_of_gt hcount)
  refine ⟨isSpace_of_mem_lines, fun _ hnil => ?_, fun _ _ _ => ⟨'\n', rfl, rfl⟩, fun hkind => ?_⟩
  · simp [lines, List.replicate_succ] at hnil
  · rw [contains_newline, contains_newline, count_lines, decide_eq_true hcount,
      decide_eq_true (hold hkind)]

theorem kind_of_isInsideEmptyBlock (h : g.isInsideEmptyBlock = true) :
    g.before.kind = .leftBrace ∧ g.after.kind = .rightBrace := by
  simp only [isInsideEmptyBlock, Bool.and_eq_true, decide_eq_true_eq] at h
  exact h.1

theorem refills_wanted (hspaces : ∀ c ∈ g.text, Token.isSpace c = true) (style : CodeStyle) :
    Token.Refills g.after.kind g.text (g.wanted style) := by
  rcases g.wanted_cases style with ⟨hlines, hwanted⟩ | ⟨hnone, hblock, hwanted⟩
    | ⟨hnone, -, hempty, hwanted⟩ | ⟨-, -, -, hwanted⟩
  · rw [hwanted]
    exact refills_lines (by omega) fun _ => hlines
  · rw [hwanted]
    rw [Bool.and_eq_true] at hblock
    have hkind := (kind_of_isInsideEmptyBlock hblock.2).2
    exact refills_lines Nat.one_pos fun hne => absurd hkind hne
  · rw [hwanted, hempty]
    refine ⟨by simp [Token.isSpace], by simp, by simp, fun _ => rfl⟩
  · rw [hwanted]
    exact .refl hspaces

end Gap

theorem refilling_refilled (span : Span) (style : CodeStyle) : Refilling (refilled span style) := by
  intro g hspaces
  unfold refilled
  split
  · exact g.refills_wanted hspaces style
  · exact .refl hspaces

/-- The edits of a layout are not refused, and give the text with the new white space. -/
theorem exists_applyEdits (kind : SourceKind) (e : Editor) (span : Span) (style : CodeStyle) :
    ∃ e', e.applyEdits (edits (.ofDocument kind e.document) span style) = (e', .ok ())
      ∧ Relays (refilled span style) kind e.text e'.text
      ∧ e'.markers = e.markers.map (Option.map (TextEdit.carryAll
        (TextEdit.Cell.edits 0 (relaid (refilled span style) (piecesOf kind e.text))))) := by
  obtain ⟨text', hrelays⟩ := (refilling_refilled span style).exists_relays kind e.text
  obtain ⟨last, htext, htext'⟩ := hrelays.text_eq
  have hspell : e.text = TextEdit.Cell.spell (relaid (refilled span style) (piecesOf kind e.text))
      ++ last := by rw [spell_relaid, ← htext]
  obtain ⟨e', hrun, he', hmarkers⟩ := Editor.applyEdits_cells
    (ink_ne_nil_of_mem_relaid (refilled span style) kind e.text) hspell
  refine ⟨e', ?_, ?_, hmarkers⟩
  · rw [edits_eq]
    exact hrun
  · rwa [he', ← htext']

namespace Gap

/-! ## Settled -/

/-- **What is wanted is settled.**  A gap between the same kinds of leaves, as deep and as much
inside an empty block as another one, in which there is what that one wants, wants nothing else. -/
theorem wanted_eq_text {g g' : Gap} {style : CodeStyle} (htext : g'.text = g.wanted style)
    (hbefore : g'.before.kind = g.before.kind) (hafter : g'.after.kind = g.after.kind)
    (hdepth : depth g'.after = depth g.after)
    (hblock : g'.isInsideEmptyBlock = g.isInsideEmptyBlock) : g'.wanted style = g'.text := by
  rcases g.wanted_cases style with ⟨hlines, hwanted⟩ | ⟨hnone, hopens, hwanted⟩
    | ⟨hnone, hstays, hempty, hwanted⟩ | ⟨hnone, hstays, hspaced, hwanted⟩
  · rw [hwanted] at htext
    have hcount : g'.text.count '\n' = min (g.text.count '\n') (style.keepBlankLines + 1) := by
      rw [htext, count_lines]
    rw [wanted, if_pos (by omega), hcount, hdepth, htext, lines, Nat.min_assoc, Nat.min_self]
  · rw [hwanted] at htext
    have hcount : g'.text.count '\n' = 1 := by rw [htext, count_lines]
    rw [wanted, if_pos (by omega), hcount, hdepth, htext, lines,
      Nat.min_eq_left (Nat.le_add_left 1 _)]
  · rw [hwanted] at htext
    rw [wanted, htext, hblock, hstays]
    simp
  · rw [hwanted] at htext
    rw [wanted, htext, hnone, hblock, hstays, hbefore, hafter, hspaced]
    simp

end Gap

/-! ## Nothing to lay out -/

namespace Gap

/-- A gap stands between leaves, and its text is some of theirs. -/
theorem mem_ofLeaves {leaves : List Cursor} {g : Gap} (h : g ∈ ofLeaves leaves) :
    g.before ∈ leaves ∧ g.after ∈ leaves ∧ ∀ c ∈ g.text, c ∈ leaves.flatMap (·.node.ownText) := by
  rw [ofLeaves_eq []] at h
  obtain ⟨front, blank, back, hpieces⟩ := mem_ofPieces h
  obtain ⟨before, after, hleaves, hrest, -⟩ := exists_of_pieces_eq hpieces
  rw [← List.nil_append ((g.text, g.after) :: back)] at hrest
  obtain ⟨before', after', hleaves', -⟩ := exists_of_pieces_eq hrest
  refine ⟨?_, ?_, fun c hc => ?_⟩
  · rw [hleaves]
    exact List.mem_append_right _ List.mem_cons_self
  · rw [hleaves, hleaves']
    exact List.mem_append_right _
      (List.mem_cons_of_mem _ (List.mem_append_right _ List.mem_cons_self))
  · have hspell := spell_pieces [] leaves
    rw [List.nil_append, hpieces, spell_append, spell_cons, spell_cons] at hspell
    rw [← hspell]
    simp [hc]

/-- On one line, where no space is missing, what is wanted is there. -/
theorem wanted_eq_self (hline : '\n' ∉ g.text) (hbrace : g.before.kind ≠ .leftBrace)
    (hspaced : isSpaced g.before.kind g.after.kind = false) : g.wanted style = g.text := by
  have hblock : g.isInsideEmptyBlock = false :=
    Bool.eq_false_iff.2 fun hblock => hbrace (kind_of_isInsideEmptyBlock hblock).1
  rw [wanted, List.count_eq_zero.2 hline, if_neg (Nat.lt_irrefl 0), hblock, hspaced, Bool.and_false]
  rfl

end Gap

/-- Where all is on one line without blocks and no space is missing, there is nothing to lay out. -/
theorem edits_eq_nil {tree : Snapshot} (hline : '\n' ∉ tree.text)
    (hbrace : ∀ leaf ∈ tree.cursor.leaves, leaf.kind ≠ .leftBrace)
    (hspaced : ∀ before ∈ tree.cursor.leaves, ∀ after ∈ tree.cursor.leaves,
      Gap.isSpaced before.kind after.kind = false) (span : Span) (style : CodeStyle) :
    edits tree span style = [] := by
  rw [edits, List.filterMap_eq_nil_iff]
  intro g hg
  obtain ⟨hbefore, hafter, htext⟩ := Gap.mem_ofLeaves hg
  have hgap : '\n' ∉ g.text := by
    intro hmem
    refine hline ?_
    have hleaves := Cursor.map_node_leaves tree.cursor
    rw [Snapshot.text, ← Node.flatMap_leaves, show tree.root.leaves = _ from hleaves.symm,
      List.flatMap_map]
    exact htext _ hmem
  have hwanted : g.wanted style = g.text :=
    Gap.wanted_eq_self hgap (hbrace _ hbefore) (hspaced _ hbefore _ hafter)
  rw [Gap.edit?, if_pos hwanted, ite_self]

end Layout

end StatementCompletion
