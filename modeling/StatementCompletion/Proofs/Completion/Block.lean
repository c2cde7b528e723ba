import StatementCompletion.Proofs.Completion.Closing
import StatementCompletion.Proofs.Layout.Block

/-!
# Passes that open a block

An edit that puts an empty block behind the text leaves the caret on its brace.  The pass then steps
into the block, which is laid out over two lines.  The next pass finds no statement at the brace,
and opens a line inside of the block.

Between these passes the caret is at one place of the text, so the workspace is `Rests`.
-/

namespace StatementCompletion

namespace Node

/-- Where no token is a comment, no leaf of the tree is one. -/
theorem isComment_of_mem_leaves {kind : SourceKind} {text : Text}
    (h : ∀ token ∈ Token.ofText text, token.kind.isComment = false) :
    ∀ leaf ∈ (Node.ofText kind text).leaves, leaf.kind.isComment = false := by
  intro leaf hleaf
  obtain ⟨old, hold, -, rfl | herror⟩ := (Node.ofText_softens kind text).exists_of_mem hleaf
  · obtain ⟨token, htoken, rfl⟩ := List.mem_map.1 hold
    rw [Token.kind_node]
    exact h token htoken
  · rw [herror]
    rfl

end Node

namespace Completion

variable {w w' : Workspace} {text : Text} {caret : Nat} {settings : Settings} {kind : Kind}
    {front : List Node}

/-! ## At rest -/

/-- A workspace without a hole and with the caret at an offset of a text: the tree
is one of the text or older. -/
structure Rests (text : Text) (caret : Nat) (w : Workspace) : Prop where
  text_eq : w.editor.text = text
  kind : w.tree.kind = .codeFragment
  tracks : w.tree.Tracks w.editor.document
  caret_eq : w.editor.caret = caret
  holes : w.holes.first? = none

/-- Renewing the tree changes nothing else. -/
theorem Rests.renewTree_bind (h : Rests text caret w) {α : Type} {f : PUnit → Step α}
    {Q : α → Workspace → Prop}
    (hf : ∀ w', Rests text caret w' → w'.tree = .ofDocument .codeFragment w'.editor.document →
      Answers w' (f ⟨⟩) Q) : Answers w (renewTree >>= f) Q := by
  have htree := h.tracks.renewed_eq h.kind
  refine .modify_bind (hf _ ⟨h.text_eq, ?_, ?_, h.caret_eq, h.holes⟩ htree)
  · rw [htree]
    rfl
  · rw [htree]
    exact Snapshot.tracks_ofDocument _ _

/-! ## The edit -/

/-- The trial that puts an empty block behind the text is the last one, and
the caret is on its brace. -/
theorem Ready.answers_openBlock (h : Ready text w) {c : Cursor} {remedy : Remedy}
    (hactions : remedy.actions w.editor.document c = .ok (Action.openBlock text.size)) :
    Answers w (tryRemedy .never c remedy) fun ending w' =>
      ending = some .edited ∧ Rests (text ++ closedBlock) text.size w' := by
  obtain ⟨e', hreplace, htext, hstamp, -⟩ :=
    w.editor.insert_end (show closedBlock ≠ [] from nofun) h.caret_le
  rw [h.text_eq] at hreplace htext
  have happly : remedy.apply c w.editor w.holes = .ok (e'.moveCaret text.size, w.holes) := by
    rw [Remedy.apply, hactions]
    show Action.applyAll _ _ [.insert text.size closedBlock, .caret text.size] = _
    rw [Action.applyAll, Action.insert, Action.apply]
    simp only [TextEdit.insertion, hreplace]
    rfl
  refine (answers_tryRemedy_of_edit happly hstamp h.isCurrent).mono fun _ w' hw => ?_
  obtain ⟨hending, htree, heditor, hholes⟩ := hw
  refine ⟨hending, ?_, ?_, ?_, ?_, ?_⟩
  · rw [heditor]
    exact htext
  · rw [htree, h.tree]
    rfl
  · rw [htree, heditor, h.tree]
    exact (Snapshot.tracks_ofDocument _ _).advances (.inr (hstamp ▸ Nat.lt_succ_self _))
  · rw [heditor]
    exact Editor.caret_moveCaret htext
  · rw [hholes, h.holes]

/-! ## Stepping into the block -/

/-- The empty block at the caret is found. -/
theorem emptyBlockNear?_eq (text : Text) :
    emptyBlockNear? (text ++ closedBlock) text.size = some text.size :=
  (emptyBlockNear?_eq_some_iff (Text.isBoundary_append _ _)).2
    (.starts (List.append_nil _).symm List.mem_cons_self rfl)

/-- The layout puts a space in front of the block and a line feed into it, and
carries the caret along. -/
theorem exists_layOut (e : Editor) (htext : e.text = text ++ closedBlock)
    (hcaret : e.caret = text.size + 1) :
    ∃ e', e.applyEdits [.insertion text.size [' '], .insertion (text.size + 1) ['\n']]
        = (e', .ok ())
      ∧ e'.text = text ++ ' ' :: openedBlock ∧ e.Advances e' ∧ e'.caret = text.size + 2 := by
  have horder : TextEdit.inApplicationOrder
      [.insertion text.size [' '], .insertion (text.size + 1) ['\n']]
        = [.insertion (text.size + 1) ['\n'], .insertion text.size [' ']] :=
    TextEdit.inApplicationOrder_eq_reverse (by simp [TextEdit.insertion])
  have hbrace : (text ++ ['\x7b']).size = text.size + 1 := Text.size_append _ _
  have hinside : e.text = text ++ ['\x7b'] ++ ['\x7d'] := by rw [htext, List.append_assoc]; rfl
  obtain ⟨e₁, hreplace₁, htext₁, hstamp₁, hcaret₁⟩ :=
    e.insert_append hinside (List.cons_ne_nil '\n' [])
  have hinfront : e₁.text = text ++ openedBlock := by
    rw [htext₁]
    simp [openedBlock]
  obtain ⟨e₂, hreplace₂, htext₂, hstamp₂, hcaret₂⟩ :=
    e₁.insert_append hinfront (List.cons_ne_nil ' ' [])
  rw [hbrace] at hreplace₁ hcaret₁
  rw [if_pos hcaret.le] at hcaret₁
  rw [hcaret₁, hcaret, if_neg (by omega)] at hcaret₂
  refine ⟨e₂, ?_, ?_, .inr (by omega), hcaret₂⟩
  · rw [Editor.applyEdits, horder, Editor.applyInTurn, TextEdit.insertion]
    simp only [hreplace₁]
    rw [Editor.applyInTurn, TextEdit.insertion]
    simp only [hreplace₂]
    rfl
  · rw [htext₂, List.append_assoc]
    rfl

/-- A step into the block is one into the braces at the end of the statement. -/
theorem blockSpan?_endingBlock {tree : Snapshot} {inside : Text}
    (hroot : tree.root = Layout.endingBlock kind front inside) :
    blockSpan? tree (Node.sizeAll front) = some (Layout.endBlock kind front inside).span := by
  rw [blockSpan?, Layout.leafAt?_endingBlock hroot]
  rfl

/-- The caret steps over the brace of the block. -/
theorem Rests.caret_inside (h : Rests (text ++ closedBlock) caret w) :
    (w.editor.moveCaret (text.size + 1)).caret = text.size + 1 := by
  have hbrace : (text ++ ['\x7b']).size = text.size + 1 := Text.size_append _ _
  have hparts : w.editor.text = (text ++ ['\x7b']) ++ ['\x7d'] := by
    rw [h.text_eq, List.append_assoc]
    rfl
  have hcaret := Editor.caret_moveCaret hparts
  rwa [hbrace] at hcaret

/-- Stepping into the block opens it over two lines and leaves the caret behind its brace. -/
theorem Rests.answers_stepIntoBlock (style : CodeStyle)
    (h : Rests (text ++ closedBlock) text.size w)
    (htree : Node.ofText .codeFragment (text ++ closedBlock) = Layout.endingBlock kind
      (front ++ [.closer]) [])
    (hkind : kind ≠ .codeBlock ∧ kind ≠ .classDeclaration) :
    Answers w (stepIntoBlock style) fun _ w' =>
      Rests (text ++ ' ' :: openedBlock) (text.size + 2) w' := by
  have hbehind : Node.sizeAll (front ++ [.closer]) = text.size := by
    have hsize := Layout.sizeAll_of_endingBlock htree
    rw [Text.size_append] at hsize
    exact (Nat.add_right_cancel hsize).symm
  have hfront : Node.sizeAll front + 1 = text.size := (Node.sizeAll_append _ _).symm.trans hbehind
  refine .look_bind ?_
  rw [h.text_eq, h.caret_eq, emptyBlockNear?_eq]
  refine h.renewTree_bind fun w₁ h₁ hw₁ => .look_bind ?_
  have hroot : w₁.tree.root = Layout.endingBlock kind (front ++ [.closer]) [] := by
    rw [hw₁, ← htree, ← h₁.text_eq]
    rfl
  have hspan := blockSpan?_endingBlock hroot
  rw [hbehind] at hspan
  rw [hspan]
  refine .changeEditor_bind (.look_bind ?_)
  set moved := w₁.editor.moveCaret (text.size + 1)
  obtain ⟨e', happly, htext, hadvances, hcaret⟩ := exists_layOut moved h₁.text_eq h₁.caret_inside
  have hedits : Layout.edits w₁.tree (Layout.endBlock kind (front ++ [.closer]) []).span
      { style with keepSimpleBlocks := false }
        = [.insertion text.size [' '], .insertion (text.size + 1) ['\n']] := by
    rw [Layout.edits_endingBlock hroot hkind rfl, ← hfront]
  dsimp only
  rw [hedits]
  refine .applyEdits happly ⟨htext, h₁.kind, ?_, hcaret, h₁.holes⟩
  exact h₁.tracks.advances hadvances

/-- **A pass that puts an empty block behind the text** opens the block over two lines. -/
theorem Between.answers_openingPass (settings : Settings) (h : Between text w)
    (htree : Node.ofText .codeFragment (text ++ closedBlock) = Layout.endingBlock kind
      (front ++ [.closer]) [])
    (hkind : kind ≠ .codeBlock ∧ kind ≠ .classDeclaration)
    (hmend : ∀ w', Ready text w' → ∃ target c remedy before after,
      Target.atCaret? w'.tree text w'.editor.caret = some target
        ∧ trials target = before ++ (c, remedy) :: after
        ∧ (∀ trial ∈ before, trial.2.actions w'.editor.document trial.1 = .ok [])
        ∧ remedy.actions w'.editor.document c = .ok (Action.openBlock text.size)) :
    Answers w (pass settings .never) fun answer w' =>
      answer = none ∧ Rests (text ++ ' ' :: openedBlock) (text.size + 2) w' := by
  refine h.answers_ready fun w₁ hready => ?_
  obtain ⟨target, c, remedy, before, after, htarget, htrials, hbefore, hactions⟩ := hmend w₁ hready
  have hmended : Answers w₁ (mend .never) fun mending w' =>
      mending = .edited ∧ Rests (text ++ closedBlock) text.size w' := by
    refine .look_bind ?_
    rw [hready.text_eq, htarget]
    refine .bind (Q := fun ending w' =>
      ending = some .edited ∧ Rests (text ++ closedBlock) text.size w') ?_
      fun ending w' ⟨hending, hrests⟩ => ?_
    · rw [htrials]
      refine answers_tryAll_append_of_nil hbefore hready.isCurrent fun w' hsame hholes => ?_
      have hready' := hready.of_same hsame hholes
      refine .bind (hready'.answers_openBlock (hsame.editor ▸ hactions))
        fun ending w'' ⟨hending, hrests⟩ => ?_
      subst hending
      exact .pure ⟨rfl, hrests⟩
    · subst hending
      exact .pure ⟨rfl, hrests⟩
  refine .bind hmended fun mending w₂ ⟨hmending, hrests⟩ => ?_
  subst hmending
  exact .bind (hrests.answers_stepIntoBlock settings.style htree hkind) fun _ _ hrests' =>
    .pure ⟨rfl, hrests'⟩

/-! ## The pass that ends the completion -/

/-- At the end of a line that ends with the brace of the block there is nothing to mend. -/
theorem atCaret?_endingBlock {tree : Snapshot} {inside line rest : Text}
    (hroot : tree.root = Layout.endingBlock kind front inside)
    (hfirst : Text.IsFirstLine line (line ++ rest))
    (hlast : line.getLast? = some '\x7b') (hsize : line.size = Node.sizeAll front + 1) :
    Target.atCaret? tree (line ++ rest) line.size = none := by
  have hposition : Target.position (line ++ rest) line.size = Node.sizeAll front := by
    have hbrace := Target.position_eq hfirst (Nat.le_refl line.size) hlast rfl
    omega
  rw [Target.atCaret?, hposition, Layout.leafAt?_endingBlock hroot]
  exact Layout.around?_openingBrace

/-- Where there is nothing to mend at the end of a line without a comment, a
line is opened there. -/
theorem answers_landWithoutTarget {settings : Settings} {e' : Editor}
    (hcomments : ∀ leaf ∈ w.tree.root.leaves, leaf.kind.isComment = false)
    (hopened : w.editor.openLine settings.style = .ok e') :
    Answers w (landWithoutTarget settings) fun _ w' => w'.editor = e' ∧ w'.holes = w.holes := by
  refine .get_bind ?_
  rw [splitComment_eq_none hcomments]
  refine .tryEditor ?_
  rw [hopened]
  exact .ok ⟨rfl, rfl⟩

/-- **The last pass** opens a line in the block. -/
theorem Rests.answers_last (settings : Settings)
    (h : Rests (text ++ ' ' :: openedBlock) (text.size + 2) w)
    (htree : Node.ofText .codeFragment (text ++ ' ' :: openedBlock) =
      Layout.endingBlock kind front ['\n'])
    (hcomments : ∀ token ∈ Token.ofText (text ++ ' ' :: openedBlock), token.kind.isComment = false)
    (hline : ∀ c ∈ text, Text.isBreak c = false) {b : Char} (hb : text.head? = some b)
    (hblank : Text.isBlank b = false) :
    Answers w (pass settings .never) fun answer w' => answer = some .completed
      ∧ w'.editor.text = text ++ ' ' :: '\x7b' :: '\n' :: settings.style.indentUnit
        ++ ['\n', '\x7d']
      ∧ w'.editor.caret = text.size + 3 + settings.style.indentUnit.size
      ∧ w'.holes.first? = none := by
  set line : Text := text ++ [' ', '\x7b']
  have hparts : text ++ ' ' :: openedBlock = line ++ ['\n', '\x7d'] := by
    rw [List.append_assoc]
    rfl
  have hlineSize : line.size = text.size + 2 := Text.size_append _ _
  have hfront : line.size = Node.sizeAll front + 1 := by
    have hsize := Layout.sizeAll_of_endingBlock htree
    rw [hparts, Text.size_append] at hsize
    exact Nat.add_right_cancel hsize
  have hplain : ∀ c ∈ line, Text.isBreak c = false :=
    List.forall_mem_append.2 ⟨hline, List.forall_mem_cons.2 ⟨rfl, List.forall_mem_singleton.2 rfl⟩⟩
  have hfirst : Text.IsFirstLine line (line ++ ['\n', '\x7d']) := ⟨hplain, _, rfl, .inr rfl⟩
  have hlast : line.getLast? = some '\x7b' := by simp [line]
  rw [hparts] at h htree hcomments
  rw [← hlineSize] at h
  refine h.renewTree_bind fun w₁ h₁ hw₁ =>
    .bind (Q := fun _ w' => w' = w₁) (.look_bind ?_) fun _ w₂ hw₂ => ?_
  · rw [h₁.holes]
    exact .pure rfl
  subst hw₂
  have hroot : w₂.tree.root = Node.ofText .codeFragment (line ++ ['\n', '\x7d']) := by
    rw [hw₁, ← h₁.text_eq]
    rfl
  have hmended : Answers w₂ (mend .never) fun mending w' => mending = .noTarget ∧ w' = w₂ := by
    refine .look_bind ?_
    rw [h₁.text_eq, h₁.caret_eq, atCaret?_endingBlock (hroot.trans htree) hfirst hlast hfront]
    exact .pure ⟨rfl, rfl⟩
  refine .bind hmended fun mending w₃ hw₃ => ?_
  obtain ⟨rfl, rfl⟩ := hw₃
  -- the line is opened where the caret is
  have hmoved : (w₃.editor.moveCaret line.size).caret = line.size :=
    Editor.caret_moveCaret h₁.text_eq
  obtain ⟨e', hbreak, htext', hcaret'⟩ :=
    Editor.breakLine_eq (e := w₃.editor.moveCaret line.size) h₁.text_eq
      (h₁.text_eq ▸ hfirst) (b := b)
      (by rw [List.head?_append, hb]; rfl) hblank hlast rfl hmoved settings.style rfl
  have hopened : w₃.editor.openLine settings.style = .ok e' := by
    rw [Editor.openLine, h₁.text_eq, h₁.caret_eq, hfirst.lineOf_eq le_rfl, hfirst.lineEnd_eq]
    exact hbreak
  rw [if_pos rfl] at htext' hcaret'
  refine .bind (answers_landWithoutTarget (hroot ▸ Node.isComment_of_mem_leaves hcomments) hopened)
    fun _ w' hw' => ?_
  obtain ⟨heditor, hholes⟩ := hw'
  refine .pure ⟨rfl, ?_, ?_, ?_⟩
  · rw [heditor, htext']
    simp [line]
  · rw [heditor, hcaret', hlineSize]
  · rw [hholes, h₁.holes]

end Completion

end StatementCompletion
