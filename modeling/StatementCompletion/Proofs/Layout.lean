import StatementCompletion.Layout.Gap
import StatementCompletion.Proofs.Editor.Batch
import StatementCompletion.Proofs.Tree.Places

/-!
# Laying out changes white space only

The gaps between the tokens of a tree are parts of the text without ink, one behind the other.  So
the edits that lay them out are a batch that is not refused, whatever the style wants.
-/

namespace StatementCompletion

namespace Cursor

/-- The text of a white space leaf in the tree of a text is white. -/
theorem Within.ink_eq_nil {text : Text} {c : Cursor} (h : c.Within text)
    (hkind : c.kind = .whitespace) : c.node.ownText.ink = [] := by
  by_cases hempty : c.node.ownText = []
  · rw [hempty, Text.ink_nil]
  · obtain ⟨tree, htree, hc⟩ := h
    obtain ⟨front, back, hleaves, -⟩ := hc.leaves_eq
    have hmem : c.node ∈ tree.leaves := by
      rw [hleaves, Node.leaves_eq_singleton hempty]
      simp
    exact Text.ink_eq_nil (htree.spaces c.node hmem hkind)

end Cursor

namespace Layout

open TextEdit

variable {text : Text} {before : Cursor}

/-- The gaps between leaves in a row are filled by edits of their spans. -/
theorem Gap.fills_between {start : Nat} {rest blank : Text} {leaves : List Cursor}
    {edit? : Gap → Option TextEdit} (hedit : ∀ g edit, edit? g = some edit → edit.span = g.span)
    (hleaves : Cursor.Row start rest leaves) (hwithin : ∀ leaf ∈ leaves, leaf.Within text)
    (hstart : start = before.stop + blank.size) (hblank : blank.ink = []) :
    Fills before.stop (blank ++ rest) ((between before blank leaves).filterMap edit?) := by
  -- along the leaves, with the white space since the last token handed on
  induction hleaves generalizing before blank with
  | nil => exact .nil
  | @cons leaf rest leaves hnonempty _ ih =>
    obtain ⟨hleaf, hwithin⟩ := List.forall_mem_cons.1 hwithin
    have hstop := Cursor.stop_of_ownText_ne_nil hnonempty
    rw [between]
    split
    · next hspace =>
      -- white space gets into the gap that is open
      rw [← List.append_assoc]
      refine ih hwithin ?_ ?_
      · rw [hstop, hstart, Text.size_append, Nat.add_assoc]
      · rw [Text.ink_append, hblank, hleaf.ink_eq_nil hspace, List.append_nil]
    · have hbehind : Fills leaf.stop rest ((between leaf [] leaves).filterMap edit?) :=
        ih hwithin rfl Text.ink_nil
      have hrest : Fills (before.stop + blank.size) (leaf.node.ownText ++ rest)
          ((between leaf [] leaves).filterMap edit?) := by
        refine .skip ?_
        rwa [← hstart, ← hstop]
      rw [List.filterMap_cons]
      split
      · exact hrest.skip
      · next edit hsome =>
        have hspan : edit.span = ⟨before.stop, before.stop + blank.size⟩ := by
          rw [hedit _ _ hsome, Gap.span, hstart]
        -- the next gap starts behind this token, which has some text
        have hlater : ∀ later ∈ (between leaf [] leaves).filterMap edit?,
            before.stop < later.span.start := by
          intro later hmem
          have hle := hbehind.le_start later hmem
          have hpos := Text.size_pos hnonempty
          omega
        obtain ⟨span, new⟩ := edit
        subst hspan
        exact TextEdit.Fills.cons_here hblank hlater hrest

theorem Gap.span_of_edit? {g : Gap} {style : CodeStyle} {edit : TextEdit}
    (h : g.edit? style = some edit) : edit.span = g.span := by
  unfold edit? at h
  split at h
  · cases h
  · cases h
    rfl

/-- The edits that lay out a tree fill gaps of its text. -/
theorem fills_edits {tree : Snapshot} (htree : Node.IsTreeOf text tree.root) (span : Span)
    (style : CodeStyle) : Fills 0 text (edits tree span style) := by
  have hrow : Cursor.Row 0 text tree.cursor.leaves := by
    rw [← htree.text_eq]
    exact Cursor.row_leaves tree.cursor
  have hwithin (leaf) (hleaf : leaf ∈ tree.cursor.leaves) : leaf.Within text :=
    (Cursor.Within.root htree).below (Cursor.below_of_mem_leaves hleaf)
  obtain ⟨skipped, rest, htext, hdrop⟩ := hrow.dropWhile (·.kind = .whitespace)
  have hsub := List.dropWhile_sublist (l := tree.cursor.leaves) (·.kind = .whitespace)
  rw [htext]
  refine .skip ?_
  unfold edits Gap.ofLeaves
  split
  · exact .nil
  · next first leaves hleaves =>
    rw [hleaves] at hdrop hsub
    obtain ⟨hnonempty, hoffset, behind, rfl, hbehind⟩ := hdrop.of_cons
    refine .skip ?_
    rw [← hoffset, ← Cursor.stop_of_ownText_ne_nil hnonempty]
    refine Gap.fills_between (fun g edit hedit => ?_) hbehind
      (fun leaf hleaf => hwithin leaf (hsub.subset (List.mem_cons_of_mem _ hleaf))) rfl Text.ink_nil
    split at hedit
    · exact Gap.span_of_edit? hedit
    · cases hedit

end Layout

end StatementCompletion
