import StatementCompletion.Proofs.Repair.Visits
import StatementCompletion.Proofs.Token.Inline

/-!
# The only statement of a source

Where a source is one statement on one line, and nothing inside of it is a target of its own, this
statement is the target wherever the caret is behind some ink.  The repairs visit the nodes below
it, and then the statement itself twice.
-/

namespace StatementCompletion

/-- The only statement of a source in its place. -/
def Cursor.onlyStatement (statement : Node) : Cursor :=
  { node := statement, offset := 0, index := 0,
    above := [{ node := .branch .file [statement], offset := 0, index := 0 }] }

/-- Where a text on one line with closed literals is at the end, the end is behind ink. -/
theorem IsInline.isBehindInk {text : Text} (h : IsInline text)
    (hliterals : ∀ token ∈ Token.ofText text, Repair.isTerminated token = true) (before : Text) :
    (before ++ text).IsBehindInk (before ++ text).size := by
  obtain ⟨c, hc, hblank⟩ := h.last
  refine ⟨before ++ text, [], c, (List.append_nil _).symm, rfl, ?_, hblank, ?_, nofun⟩
  · rw [List.getLast?_append, hc, Option.some_or]
  · rintro rfl
    exact h.getLast?_ne_brace hliterals hc

namespace Cursor

variable {statement : Node}

theorem onlyStatement_below (statement : Node) :
    Below (root (.branch .file [statement])) (onlyStatement statement) :=
  .child .self List.mem_cons_self

theorem stop_onlyStatement (statement : Node) : (onlyStatement statement).stop = statement.size :=
  Nat.zero_add _

/-- What is below the source is the source, or at or below its statement. -/
theorem below_onlyStatement {c : Cursor} (h : Below (root (.branch .file [statement])) c) :
    c = root (.branch .file [statement]) ∨ Below (onlyStatement statement) c := by
  rcases h.eq_or_child with rfl | ⟨child, hchild, hbelow⟩
  · exact .inl rfl
  · rw [List.mem_singleton.1 hchild] at hbelow
    exact .inr hbelow

end Cursor

namespace Repair

variable {c target leaf : Cursor}

/-! ## The target -/

/-- What is promised of the only statement of a source, if it is the only target there. -/
structure IsOnly (target : Cursor) : Prop where
  isStatement : target.kind.isStatement = true
  ne_block : target.kind ≠ .blockStatement
  isBranch : target.node.isLeaf = false
  parent : target.parentKind? = some .file
  inside : ∀ c, Cursor.Below target c → c ≠ target → c.children ≠ [] →
    Target.isCandidate c.kind = false

namespace IsOnly

/-- The statement is the target, unless the caret is on white space or a brace. -/
theorem around?_eq (h : IsOnly target) (hleaf : Cursor.Below target leaf)
    (hisLeaf : leaf.node.isLeaf = true) (hwhite : leaf.kind ≠ .whitespace)
    (hbrace : leaf.node.ownText ≠ ['\x7d']) : Target.around? leaf = some target := by
  have hcandidate : leaf.ancestor? Target.isCandidate = some target := by
    refine (Cursor.ancestor?_of_below hleaf ?_ h.inside).resolve_left ?_
    · rw [Target.isCandidate, h.isStatement]
      rfl
    · rintro rfl
      rw [h.isBranch] at hisLeaf
      cases hisLeaf
  have hpromoted : Target.promoted target = target := by
    obtain ⟨parent, hparent, hkind⟩ := Option.map_eq_some_iff.1 h.parent
    rw [Target.promoted, hparent]
    dsimp only
    rw [hkind]
    rfl
  rw [Target.around?, if_neg (not_or.2 ⟨hwhite, hbrace⟩), hcandidate]
  dsimp only
  rw [if_neg h.ne_block, hpromoted, h.isStatement]
  rfl

/-- Behind ink of a text on one line without braces the only statement is the target. -/
theorem atCaret?_eq {text : Text} {statement : Node} {tree : Snapshot} {caret : Nat}
    (h : IsOnly (.onlyStatement statement)) (hline : ∀ c ∈ text, Text.isBreak c = false)
    (hbraces : ∀ token ∈ Token.ofText text, token.text ≠ ['\x7d'])
    (hroot : tree.root = Node.ofText .codeFragment text)
    (htree : Node.ofText .codeFragment text = .branch .file [statement])
    (hcaret : text.IsBehindInk caret) :
    Target.atCaret? tree text caret = some (.onlyStatement statement) := by
  obtain ⟨before, after, c, rfl, rfl, hc, hblank, -⟩ := hcaret
  have hle : before.size ≤ (before ++ after).size := by
    rw [Text.size_append]
    exact Nat.le_add_right _ _
  have hposition := Target.position_eq (Text.isFirstLine_self hline) hle hc hblank
  have hisTree := Node.ofText_isTreeOf .codeFragment (before ++ after)
  obtain ⟨leaf, hleaf⟩ : ∃ leaf, tree.cursor.leafAt? (Target.position (before ++ after) before.size)
      = some leaf := by
    refine Option.isSome_iff_exists.1 (Cursor.leafAt?_isSome (Nat.zero_le _) ?_)
    rw [Cursor.stop, Snapshot.cursor, Cursor.root, hroot, ← Node.size_text, hisTree.text_eq]
    omega
  rw [Target.atCaret?, hleaf, Option.bind_some]
  rw [Snapshot.cursor, hroot] at hleaf
  have hmem := Cursor.exists_of_leafAt? hisTree.text_eq hc hposition hleaf
  have hbelow := Cursor.below_of_leafAt? hleaf
  have hisLeaf := Cursor.isLeaf_of_leafAt? hleaf
  have hown : leaf.node.ownText = leaf.node.text := by
    cases hnode : leaf.node with
    | leaf | error => rfl
    | branch => rw [hnode] at hisLeaf; cases hisLeaf
  have hleaves := Cursor.mem_leaves_of_leafAt? hleaf
  rw [htree] at hbelow
  -- the leaf is not the file
  have hunder : Cursor.Below (.onlyStatement statement) leaf := by
    refine (Cursor.below_onlyStatement hbelow).resolve_left ?_
    rintro rfl
    cases hisLeaf
  -- it holds the character in front of the caret, so it is no white space
  refine h.around?_eq hunder hisLeaf (fun hkind => ?_) fun hbrace => ?_
  · have hspace := hisTree.spaces leaf.node hleaves hkind c (hown ▸ hmem)
    have hbreak := hline c (List.mem_append_left _ (List.mem_of_getLast? hc))
    rw [Text.isSpace_of_ink hbreak hblank] at hspace
    cases hspace
  · obtain ⟨old, hold, htext, -⟩ := (Node.ofText_softens _ _).exists_of_mem hleaves
    obtain ⟨token, htoken, rfl⟩ := List.mem_map.1 hold
    rw [Token.ownText_node, hbrace] at htext
    exact hbraces token htoken htext.symm

end IsOnly

end Repair

end StatementCompletion
