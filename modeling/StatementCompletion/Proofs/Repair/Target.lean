import StatementCompletion.Proofs.Text.Breaks
import StatementCompletion.Proofs.Text.Bytes
import StatementCompletion.Proofs.Tree.Places
import StatementCompletion.Repair.Target

/-!
# Targets are in the tree

The target at a caret and the nodes that the repairs visit are all in the tree that they were looked
up in.
-/

namespace StatementCompletion

namespace Cursor

variable {top : Cursor}

mutual

theorem below_of_mem_walk (mayEnter : Bool) (above : List Placed) (index offset : Nat) (node : Node)
    (h : Below top ⟨⟨node, offset, index⟩, above⟩) :
    ∀ c ∈ Target.walk mayEnter above index offset node, Below top c := by
  match node with
  | .leaf kind text => simpa [Target.walk] using h
  | .error problem text => simpa [Target.walk] using h
  | .branch kind children =>
    rw [Target.walk]
    refine List.forall_mem_cons.2 ⟨h, ?_⟩
    split
    · split
      · exact below_of_mem_walkAll kind false _ 0 offset children h.rowBelow
      · simp
    · exact below_of_mem_walkAll kind mayEnter _ 0 offset children h.rowBelow

theorem below_of_mem_walkAll (kind : Kind) (mayEnter : Bool) (above : List Placed)
    (index offset : Nat) (nodes : List Node) (h : RowBelow top above index offset nodes) :
    ∀ c ∈ Target.walkAll kind mayEnter above index offset nodes, Below top c := by
  match nodes with
  | [] => simp [Target.walkAll]
  | node :: rest =>
    obtain ⟨hnode, hrest⟩ := h.of_cons
    rw [Target.walkAll]
    intro c hc
    rcases List.mem_append.1 hc with hc | hc
    · split at hc
      · cases hc
      · exact below_of_mem_walk mayEnter above index offset node hnode c hc
    · exact below_of_mem_walkAll kind mayEnter above _ _ rest hrest c hc

end

end Cursor

namespace Target

variable {tree : Node} {c : Cursor}

/-- The repairs stay below the target. -/
theorem below_of_mem_visits {target : Cursor} (hc : c ∈ visits target) : Cursor.Below target c := by
  rcases List.mem_append.1 hc with hc | hc
  · exact Cursor.below_of_mem_walk _ _ _ _ _ .self c (List.mem_reverse.1 hc)
  · rw [List.mem_singleton.1 hc]
    exact .self

theorem below_promoted (h : Cursor.Below (.root tree) c) :
    Cursor.Below (.root tree) (promoted c) := by
  unfold promoted
  split
  · next parent hparent =>
    split
    · exact h.parent hparent
    · exact h
  · exact h

theorem below_of_around? {target : Cursor} (h : Cursor.Below (.root tree) c)
    (htarget : around? c = some target) : Cursor.Below (.root tree) target := by
  unfold around? at htarget
  split at htarget
  · cases htarget
  · split at htarget
    · next candidate hcandidate =>
      have hbelow := below_promoted (h.ancestor candidate (List.mem_of_find?_eq_some hcandidate))
      split at htarget
      · cases htarget
      · dsimp only at htarget
        split at htarget
        · cases htarget
          exact hbelow
        · cases htarget
    · cases htarget

theorem below_of_atCaret? {tree : Snapshot} {text : Text} {target : Cursor} {caret : Nat}
    (h : atCaret? tree text caret = some target) : Cursor.Below tree.cursor target := by
  obtain ⟨leaf, hleaf, htarget⟩ := Option.bind_eq_some_iff.1 h
  exact below_of_around? (Cursor.below_of_leafAt? hleaf) htarget

end Target

/-! ## Finding the target -/

theorem Text.endOfInk_of_ink {before : Text} (after : Text) {c : Char}
    (hc : before.getLast? = some c)
    (hblank : isBlank c = false) : (before ++ after).endOfInk (before.size - 1) = before.size := by
  obtain ⟨front, rfl⟩ := List.getLast?_eq_some_iff.1 hc
  rw [endOfInk_append after (by simp), trimBlanks_concat, hblank, if_neg Bool.false_ne_true]

/-! ## Behind ink -/

/-- An offset behind ink that is no closing brace, and not in front of an opening one. -/
def Text.IsBehindInk (text : Text) (offset : Nat) : Prop :=
  ∃ before after c, text = before ++ after ∧ before.size = offset ∧ before.getLast? = some c
    ∧ isBlank c = false ∧ c ≠ '\x7d' ∧ after.head? ≠ some '\x7b'

namespace Text.IsBehindInk

variable {text : Text} {offset : Nat}

theorem le_size (h : text.IsBehindInk offset) : offset ≤ text.size := by
  obtain ⟨before, after, c, rfl, rfl, -⟩ := h
  rw [size_append]
  exact Nat.le_add_right _ _

theorem isBoundary (h : text.IsBehindInk offset) : text.isBoundary offset = true := by
  obtain ⟨before, after, c, rfl, rfl, -⟩ := h
  exact isBoundary_append before after

theorem append (h : text.IsBehindInk offset) {new : Text} (hnew : new.head? ≠ some '\x7b') :
    (text ++ new).IsBehindInk offset := by
  obtain ⟨before, after, c, rfl, hsize, hc, hblank, hbrace, hhead⟩ := h
  refine ⟨before, after ++ new, c, List.append_assoc _ _ _, hsize, hc, hblank, hbrace, ?_⟩
  rw [List.head?_append]
  cases after with
  | nil => exact hnew
  | cons => exact hhead

end Text.IsBehindInk

namespace Target

/-- Behind ink the caret is on the character in front of it. -/
theorem position_behind (before after : Text) {c : Char} (hc : before.getLast? = some c)
    (hblank : Text.isBlank c = false) (hbreak : Text.isBreak c = false) :
    position (before ++ after) before.size = before.size - 1 := by
  have hink := Text.endOfInk_of_ink after hc hblank
  have hpos : 0 < before.size := Text.size_pos (by rintro rfl; cases hc)
  have hline := Text.lineOf_behind after hc hbreak
  obtain ⟨last, hlast⟩ := Nat.exists_eq_add_of_lt hpos
  rw [Nat.zero_add] at hlast
  rw [hlast, Nat.add_sub_cancel] at hink hline ⊢
  have hfound : (before ++ after).lastByteOutside? last Text.blanks = some last := by
    rw [Text.endOfInk] at hink
    split at hink
    · next heq => rw [heq, Nat.add_right_cancel hink]
    · cases hink
  rw [position]
  simp only [hfound, Option.getD_some, hline, Nat.lt_irrefl, if_false]

/-- In the blanks at the start of a line that is not the first, the caret is
on what follows them. -/
theorem position_of_indentation {before blank : Text} (after : Text) {b : Char}
    (hb : before.getLast? = some b) (hbreak : Text.isBreak b = true)
    (hreturns : Text.KeepsReturns before (blank ++ after))
    (hblank : ∀ c ∈ blank, Text.isBlank c = true) :
    position (before ++ blank ++ after) (before ++ blank).size
      = (before ++ blank).size + after.indentation.size := by
  have hbsolid : Text.isBlank b = false := by
    by_contra hspace
    rw [Bool.not_eq_false, Text.isBlank, Bool.or_eq_true, decide_eq_true_eq,
      decide_eq_true_eq] at hspace
    rcases hspace with rfl | rfl <;> cases hbreak
  have hpos : 0 < before.size := Text.size_pos (by rintro rfl; cases hb)
  -- the search to the left comes to the break, which is on an earlier line
  have hink : (before ++ blank ++ after).endOfInk ((before ++ blank).size - 1) = before.size := by
    obtain ⟨front, rfl⟩ := List.getLast?_eq_some_iff.1 hb
    rw [Text.endOfInk_append after (by simp), Text.trimBlanks_append _ hblank,
      Text.trimBlanks_concat, hbsolid, if_neg Bool.false_ne_true]
  have hearlier : (before ++ blank ++ after).lineOf (before.size - 1)
      < (before ++ blank ++ after).lineOf (before ++ blank).size := by
    have hbehind := Text.lineOf_lt_behind_break hb hbreak hreturns
    rw [← List.append_assoc] at hbehind
    refine hbehind.trans_le (Text.lineOf_mono ?_)
    rw [Text.size_append]
    exact Nat.le_add_right _ _
  obtain ⟨last, hlast⟩ := Nat.exists_eq_add_of_lt (show 0 < (before ++ blank).size by
    rw [Text.size_append]
    omega)
  rw [Nat.zero_add] at hlast
  have hfound : (before ++ blank ++ after).lastByteOutside? last Text.blanks =
      some (before.size - 1) := by
    rw [hlast, Nat.add_sub_cancel, Text.endOfInk] at hink
    split at hink
    · next heq => rw [heq, ← hink, Nat.add_sub_cancel]
    · omega
  rw [← Text.firstByteOutside_append, hlast, position]
  rw [hlast] at hearlier
  simp only [hfound, Option.getD_some, hearlier, if_true]

/-- Behind ink on the first line the caret is on the character in front of it. -/
theorem position_eq {line before after : Text} (hline : Text.IsFirstLine line (before ++ after))
    (hle : before.size ≤ line.size) {c : Char} (hc : before.getLast? = some c)
    (hblank : Text.isBlank c = false) :
    position (before ++ after) before.size + 1 = before.size := by
  obtain ⟨rest, htext, -⟩ := hline.rest
  obtain ⟨more, rfl, -⟩ := Text.exists_middle htext hle
  have hbreak := hline.plain c (List.mem_append_left _ (List.mem_of_getLast? hc))
  rw [position_behind before after hc hblank hbreak]
  exact Nat.sub_add_cancel (Text.size_pos (by rintro rfl; cases hc))

end Target

namespace Cursor

variable {tree : Node} {leaf target : Cursor} {before after : Text} {c : Char}

/-- The leaf that covers the last byte of a first part of a text goes on with the last character of
that part. -/
theorem exists_of_leafAt? (htext : tree.text = before ++ after) {c : Char}
    (hc : before.getLast? = some c) {position : Nat} (hposition : position + 1 = before.size)
    (hleaf : (root tree).leafAt? position = some leaf) : c ∈ leaf.node.text := by
  obtain ⟨hstart, hstop⟩ := covers_of_leafAt? hleaf
  obtain ⟨front, back, hleaves, hoffset⟩ := (below_of_leafAt? hleaf).leaves_eq
  have htext' := tree.flatMap_leaves
  rw [hleaves, List.flatMap_append, List.flatMap_append, leaf.node.flatMap_leaves, htext,
    List.append_assoc] at htext'
  obtain ⟨part, rfl, hpart⟩ := Text.exists_middle htext' (by omega)
  have hne : part ≠ [] := by
    rintro rfl
    rw [List.append_nil] at hposition
    omega
  rw [List.getLast?_append_of_ne_nil _ hne] at hc
  have hsize : part.size ≤ leaf.node.text.size := by
    rw [Node.size_text]
    rw [Text.size_append] at hposition
    rw [stop] at hstop
    omega
  obtain ⟨rest, hrest, -⟩ := Text.exists_middle hpart.symm hsize
  rw [hrest]
  exact List.mem_append_left _ (List.mem_of_getLast? hc)

/-- The leaf that covers a position is one of those that cover some text. -/
theorem mem_leaves_of_leafAt? {position : Nat} (hleaf : (root tree).leafAt? position = some leaf) :
    leaf.node ∈ tree.leaves := by
  have hmem : leaf ∈ (root tree).leaves := (leafAt?_eq_some_iff.1 hleaf).1
  have hnodes : (root tree).leaves.map (·.node) = tree.leaves := map_node_leaves (root tree)
  rw [← hnodes]
  exact List.mem_map_of_mem hmem

/-- The bytes of one character are in one leaf. -/
theorem leafAt?_of_char (htext : tree.text = before ++ c :: after) {position : Nat}
    (hstart : before.size ≤ position) (hstop : position < before.size + c.utf8Size) :
    (root tree).leafAt? position = (root tree).leafAt? before.size := by
  have hsize := congrArg Text.size htext
  rw [Node.size_text, Text.size_append, Text.size] at hsize
  have hpos := c.utf8Size_pos
  obtain ⟨leaf, hleaf⟩ := Option.isSome_iff_exists.1
    (leafAt?_isSome (c := root tree) (Nat.zero_le before.size)
      (show before.size < 0 + tree.size by omega))
  obtain ⟨hoffset, hcovers⟩ := covers_of_leafAt? hleaf
  obtain ⟨front, back, hleaves, hfront⟩ := (below_of_leafAt? hleaf).leaves_eq
  -- the leaf ends on the edge of a character, so behind this one
  have hparts := tree.flatMap_leaves
  rw [hleaves, List.flatMap_append, htext] at hparts
  have hend : leaf.stop = Text.size ((front ++ leaf.node.leaves).flatMap Node.ownText) := by
    rw [List.flatMap_append, Text.size_append, hfront, leaf.node.flatMap_leaves,
      Node.size_text, stop]
  obtain ⟨part, hpart, hrest⟩ := Text.exists_middle hparts.symm (hend ▸ hcovers.le)
  have hbehind : before.size + c.utf8Size ≤ leaf.stop := by
    cases part with
    | nil =>
      rw [List.append_nil] at hpart
      rw [hend, hpart] at hcovers
      exact absurd hcovers (Nat.lt_irrefl _)
    | cons d part =>
      obtain ⟨rfl, -⟩ := List.cons.inj hrest
      rw [hend, hpart, Text.size_append, Text.size]
      omega
  rw [hleaf]
  have hmem := (leafAt?_eq_some_iff.1 hleaf).1
  exact leafAt?_eq_some_iff.2 ⟨hmem, hoffset.trans hstart, hstop.trans_le hbehind⟩

/-- The innermost ancestor that is wanted is the target, if none between is wanted. -/
theorem ancestor?_of_below {c : Cursor} {wanted : Kind → Bool} (h : Below target c)
    (htarget : wanted target.kind = true)
    (hbetween : ∀ p, Below target p → p ≠ target → p.children ≠ [] → wanted p.kind = false) :
    c = target ∨ c.ancestor? wanted = some target := by
  induction h with
  | self => exact .inl rfl
  | @child p child hp hchild ih =>
    right
    rw [ancestor?, ancestors_of_mem_children hchild]
    by_cases heq : p = target
    · rw [heq]
      exact List.find?_cons_of_pos htarget
    · rw [List.find?_cons_of_neg]
      · exact ih.resolve_left heq
      · rw [hbetween p hp heq (List.ne_nil_of_mem hchild)]
        exact Bool.false_ne_true

end Cursor

/-! ## Looking forward -/

namespace Target

/-- **On a line that is not the first, a caret in the indentation looks forward.**  The target is
that of a caret behind the first character that is not blank, if the line does not end there. -/
theorem atCaret?_of_indentation {tree : Snapshot} {before first second after : Text} {b c : Char}
    (htext : tree.text = before ++ first ++ (second ++ c :: after)) (hb : before.getLast? = some b)
    (hbreak : Text.isBreak b = true)
    (hreturns : Text.KeepsReturns before (first ++ (second ++ c :: after)))
    (hfirst : ∀ d ∈ first, Text.isBlank d = true) (hsecond : ∀ d ∈ second, Text.isBlank d = true)
    (hblank : Text.isBlank c = false) (hline : Text.isBreak c = false) :
    atCaret? tree tree.text (before ++ first).size
      = atCaret? tree tree.text (before ++ first ++ second ++ [c]).size := by
  have hindent : Text.indentation (second ++ c :: after) = second := by
    rw [Text.indentation, List.takeWhile_append_of_pos hsecond,
      List.takeWhile_cons_of_neg (by simp [hblank]), List.append_nil]
  have hforward := position_of_indentation (second ++ c :: after) hb hbreak hreturns hfirst
  rw [hindent, ← Text.size_append, ← htext] at hforward
  have hbehind := position_behind (before ++ first ++ second ++ [c]) after
    List.getLast?_concat hblank hline
  have hsplit : tree.text = before ++ first ++ second ++ c :: after := by
    rw [htext, List.append_assoc _ second]
  rw [List.append_assoc _ [c], List.singleton_append, ← hsplit] at hbehind
  have hsize : (before ++ first ++ second ++ [c]).size =
      (before ++ first ++ second).size + c.utf8Size := by
    rw [Text.size_append]
    rfl
  have hpos := c.utf8Size_pos
  rw [atCaret?, atCaret?, hforward, hbehind, hsize]
  have hleaf : tree.cursor.leafAt? ((before ++ first ++ second).size + c.utf8Size - 1)
      = tree.cursor.leafAt? (before ++ first ++ second).size :=
    Cursor.leafAt?_of_char hsplit (by omega) (by omega)
  rw [hleaf]

end Target

end StatementCompletion
