import StatementCompletion.Proofs.Completion.Run
import StatementCompletion.Proofs.Grammar.Forming.Sources
import StatementCompletion.Proofs.Landing.Program
import StatementCompletion.Proofs.Layout.Targets
import StatementCompletion.Proofs.Repair.Complete

/-!
# Complete code is laid out only

In a complete text no remedy finds anything to mend, so the first pass ends the completion.  What it
does is to lay out the target and to place the caret, and neither changes the program: a layout puts
white space in the place of white space, a comment is broken into comments, and a line is opened
behind a node of the tree or at the end of a line.
-/

namespace StatementCompletion

/-! ## Complete texts -/

/-- Only line feeds and carriage returns end a line. -/
def Text.HasReturnsOnly (text : Text) : Prop :=
  ∀ c ∈ text, isBreak c = true → Token.isReturn c = true

instance (text : Text) : Decidable text.HasReturnsOnly :=
  List.decidableBAll (fun c => Text.isBreak c = true → Token.isReturn c = true) text

/-- A text in which nothing is missing: its tree has no errors, its literals are closed, and where a
statement is due behind a header or an `else` there is one. -/
structure IsComplete (kind : SourceKind) (text : Text) : Prop where
  problems : (Node.ofText kind text).problems = []
  literals : ∀ token ∈ Token.ofText text, Repair.isTerminated token = true
  bodies : ∀ c ∈ (Cursor.root (Node.ofText kind text)).preorder, Repair.HasBody text c

instance (kind : SourceKind) (text : Text) : Decidable (IsComplete kind text) :=
  decidable_of_iff ((Node.ofText kind text).problems = []
      ∧ (∀ token ∈ Token.ofText text, Repair.isTerminated token = true)
      ∧ ∀ c ∈ (Cursor.root (Node.ofText kind text)).preorder, Repair.HasBody text c)
    ⟨fun ⟨problems, literals, bodies⟩ => ⟨problems, literals, bodies⟩,
      fun ⟨problems, literals, bodies⟩ => ⟨problems, literals, bodies⟩⟩

namespace IsComplete

variable {kind : SourceKind} {text : Text} {c : Cursor}

theorem isWhole (h : IsComplete kind text) (hc : Cursor.Below (.root (Node.ofText kind text)) c) :
    c.IsWhole := by
  refine Cursor.IsWhole.below (.root (Node.whole_ofText kind text h.problems) ?_) hc
  -- the root is a source
  obtain ⟨children, htree, -⟩ := Node.parse?_softens kind text
  rw [Node.ofText, htree]
  intro hkind
  cases hkind

theorem isOpenLiteral_eq_false (h : IsComplete kind text)
    (hc : Cursor.Below (.root (Node.ofText kind text)) c) :
    Repair.isOpenLiteral c.node = false := by
  have hwhole := (h.isWhole hc).whole
  cases hnode : c.node with
  | error problem error =>
    rw [hnode] at hwhole
    exact absurd rfl hwhole.kind_ne_error
  | branch kind children =>
    rw [hnode] at hwhole
    cases hwhole with
    | branch hconstruct =>
      cases kind <;> first | rfl | cases hconstruct
  | leaf leafKind own =>
    rw [← hnode]
    refine Repair.isOpenLiteral_of_below _ _ h.literals hc ?_
    rw [hnode] at hwhole ⊢
    cases hwhole with
    | leaf _ _ hown => exact hown

/-- **Nothing is mended in a complete text.** -/
theorem apply_remedy {e : Editor} (h : IsComplete kind e.text)
    (hc : Cursor.Below (.root (Node.ofText kind e.text)) c) (remedy : Remedy) (holes : Holes) :
    Succeeds (remedy.apply c e holes) fun (e', _) => e' = e :=
  remedy.apply_of_isWhole (h.isWhole hc) (h.isOpenLiteral_eq_false hc) (h.bodies c hc.mem_preorder)
    holes

end IsComplete

namespace Completion

variable {kind : SourceKind} {slots : List Nat} {e : Editor} {w w' : Workspace}

/-! ## Mending without an edit -/

/-- At most the holes and the count of the polls are others. -/
structure Same (w w' : Workspace) : Prop where
  editor : w'.editor = w.editor
  tree : w'.tree = w.tree

theorem Same.trans {w'' : Workspace} (h : Same w w') (h' : Same w' w'') : Same w w'' :=
  ⟨h'.editor.trans h.editor, h'.tree.trans h.tree⟩

/-- No remedy edits the text at a node. -/
def IsIdle (e : Editor) (c : Cursor) : Prop :=
  ∀ (remedy : Remedy) holes, Succeeds (remedy.apply c e holes) fun (e', _) => e' = e

/-- A remedy that leaves the editor alone is followed by the next one. -/
theorem answers_tryRemedy {c : Cursor} {remedy : Remedy} {holes : Holes}
    (h : remedy.apply c w.editor w.holes = .ok (w.editor, holes))
    (hcurrent : w.tree.isCurrent w.editor.document = true) :
    Answers w (tryRemedy .never c remedy) fun ending w' =>
      ending = none ∧ Same w w' ∧ w'.holes = holes := by
  refine .poll_bind ?_
  rw [Popup.never, if_neg Bool.false_ne_true]
  have happlied : Answers { w with polls := w.polls + 1 } (applyRemedy c remedy) fun _ w' =>
      Same w w' ∧ w'.holes = holes := by
    refine .get_bind ?_
    rw [h]
    exact .set ⟨⟨rfl, rfl⟩, rfl⟩
  refine .bind happlied fun _ w' ⟨hsame, hholes⟩ => .poll_bind ?_
  rw [Popup.never, if_neg Bool.false_ne_true]
  have hstill : w'.tree.isCurrent w'.editor.document = true := by
    rwa [hsame.tree, hsame.editor]
  refine .look_bind ?_
  rw [if_pos hstill]
  exact .pure ⟨rfl, ⟨hsame.editor, hsame.tree⟩, hholes⟩

theorem answers_tryAll {trials : List (Cursor × Remedy)}
    (h : ∀ trial ∈ trials, IsIdle w.editor trial.1)
    (hcurrent : w.tree.isCurrent w.editor.document = true) :
    Answers w (tryAll .never trials) fun ending w' => ending = none ∧ Same w w' := by
  induction trials generalizing w with
  | nil => exact .pure ⟨rfl, rfl, rfl⟩
  | cons trial rest ih =>
    obtain ⟨c, remedy⟩ := trial
    obtain ⟨hc, hrest⟩ := List.forall_mem_cons.1 h
    obtain ⟨⟨e', holes⟩, happly, rfl⟩ := hc remedy w.holes
    refine .bind (answers_tryRemedy happly hcurrent) fun ending w' ⟨hnone, hsame, _⟩ => ?_
    subst hnone
    refine (ih ?_ ?_).mono fun _ w'' ⟨hnone, hsame'⟩ => ⟨hnone, hsame.trans hsame'⟩
    · rwa [hsame.editor]
    · rwa [hsame.editor, hsame.tree]

/-- If nothing is to be mended at any node, there is no target or a complete one. -/
theorem answers_mend (h : ∀ c, Cursor.Below w.tree.cursor c → IsIdle w.editor c)
    (hcurrent : w.tree.isCurrent w.editor.document = true) :
    Answers w (mend .never) fun mending w' =>
      Same w w' ∧ (mending = .noTarget ∨ ∃ scope, mending = .complete scope) := by
  refine .look_bind ?_
  split
  · exact .pure ⟨⟨rfl, rfl⟩, .inl rfl⟩
  · next target htarget =>
    have htrials : ∀ trial ∈ trials target, IsIdle w.editor trial.1 := fun trial htrial => by
      obtain ⟨c, hc, hremedies⟩ := List.mem_flatMap.1 htrial
      obtain ⟨remedy, -, rfl⟩ := List.mem_map.1 hremedies
      exact h c ((Target.below_of_atCaret? htarget).trans (Target.below_of_mem_visits hc))
    refine .bind (answers_tryAll htrials hcurrent) fun ending w' ⟨hnone, hsame⟩ => ?_
    subst hnone
    exact .pure ⟨hsame, .inr ⟨_, rfl⟩⟩

/-! ## Keeping the program -/

/-- A completion of an editor that has not changed the program so far. -/
structure Intact (kind : SourceKind) (e : Editor) (slots : List Nat) (w : Workspace) : Prop
    extends Sound e.text slots w where
  kind_eq : w.tree.kind = kind
  notes : w.editor.notes = e.beginSession.notes
  advances : e.beginSession.Advances w.editor
  program : Token.program w.editor.text = Token.program e.text

namespace Intact

/-- What follows keeps the program if it has the same. -/
theorem follows (h : Intact kind e slots w) (htree : w'.tree = w.tree)
    (hfollows : Editor.Follows e.text slots w.editor w'.editor)
    (hprogram : Token.program w'.editor.text = Token.program w.editor.text) :
    Intact kind e slots w' :=
  ⟨h.toSound.follows htree hfollows, htree ▸ h.kind_eq, hfollows.notes.trans h.notes,
    h.advances.trans hfollows.advances, hprogram.trans h.program⟩

theorem of_same (h : Intact kind e slots w) (hsame : Same w w') : Intact kind e slots w' :=
  ⟨h.toSound.of_eq hsame.editor hsame.tree, hsame.tree ▸ h.kind_eq, hsame.editor ▸ h.notes,
    hsame.editor ▸ h.advances, hsame.editor ▸ h.program⟩

theorem moveCaret (h : Intact kind e slots w) (offset : Nat) :
    Intact kind e slots { w with editor := w.editor.moveCaret offset } :=
  h.follows rfl (h.keeps.moveCaret offset) rfl

theorem tree_eq (h : Intact kind e slots w)
    (hcurrent : w.tree.isCurrent w.editor.document = true) :
    w.tree = .ofDocument kind w.editor.document := by
  rw [← h.kind_eq]
  exact h.tracks.eq_ofDocument hcurrent

theorem root_eq (h : Intact kind e slots w)
    (hcurrent : w.tree.isCurrent w.editor.document = true) :
    w.tree.root = Node.ofText kind w.editor.text :=
  congrArg Snapshot.root (h.tree_eq hcurrent)

/-- The editor knows whether the text was changed. -/
theorem isModified (h : Intact kind e slots w) :
    Succeeds w.editor.isModified fun isModified =>
      isModified = false → w.editor.text = e.text := by
  have hstamp : w.editor.originalStamp = .ok e.document.stamp := by
    have hbegun : e.beginSession.originalStamp = .ok e.document.stamp := by
      simp [Editor.originalStamp, Editor.beginSession, Editor.number?, Editor.note?,
        Editor.keepNote]
    rw [← hbegun]
    simp only [Editor.originalStamp, Editor.number?, Editor.note?, h.notes]
  rw [Editor.isModified, hstamp]
  refine .ok fun hsame => ?_
  have hsame : w.editor.document.stamp = e.document.stamp := by simpa using hsame
  rcases h.advances with hdocument | hlater
  · exact congrArg Document.text hdocument
  · exact absurd hsame (Nat.ne_of_gt hlater)

/-! ### The steps of a pass -/

theorem renewTree (h : Intact kind e slots w) :
    Answers w renewTree fun _ w' => Intact kind e slots w' ∧ w'.editor = w.editor
      ∧ w'.tree.isCurrent w'.editor.document = true := by
  have hkind := (w.tree.kind_renewed w.editor.document).trans h.kind_eq
  have hsound : Sound e.text slots { w with tree := w.tree.renewed w.editor.document } :=
    ⟨h.keeps, h.tracks.renewed⟩
  exact .modify ⟨⟨hsound, hkind, h.notes, h.advances, h.program⟩, rfl,
    w.tree.isCurrent_renewed w.editor.document⟩

/-- A layout keeps the program. -/
theorem layOut (h : Intact kind e slots w) (hcurrent : w.tree.isCurrent w.editor.document = true)
    (style : CodeStyle) (span : Span) :
    Answers w (layOut style span) fun _ => Intact kind e slots := by
  have hfills := Layout.fills_edits (Current.isTreeOf ⟨h.toSound, hcurrent⟩) span style
  obtain ⟨e', hrun, hfollows⟩ := h.keeps.applyEdits hfills
  obtain ⟨e'', hrun', hrelays, -⟩ := Layout.exists_applyEdits kind w.editor span style
  rw [← h.tree_eq hcurrent, hrun] at hrun'
  obtain ⟨rfl, -⟩ := Prod.mk.inj hrun'
  refine .look_bind (.applyEdits hrun (h.follows rfl hfollows ?_))
  exact hrelays.respaced.program_eq

/-- A line opened in the text as it was keeps the program. -/
theorem openLine (h : Intact kind e slots w) (hsame : w.editor.text = e.text)
    (hreturns : e.text.HasReturnsOnly) (style : CodeStyle) :
    Answers w (tryEditor (·.openLine style)) fun _ => Intact kind e slots := by
  refine .tryEditor ((h.keeps.openLine_text style).mono fun e' ⟨hfollows, hbroken⟩ => ?_)
  refine h.follows rfl hfollows (hbroken.program_eq_of_lineEnd ?_ (Text.lineOf_lt _ _))
  rw [hsame]
  exact hreturns

/-! ### Landing -/

/-- A rule keeps the program. -/
theorem landByRule (h : Intact kind e slots w)
    (hcurrent : w.tree.isCurrent w.editor.document = true) {settings : Settings}
    (hcomments : settings.comments = .java) (span : Span) (target : Kind) :
    Answers w (landByRule settings span target) fun _ => Intact kind e slots := by
  have hnow : Current e.text slots w := ⟨h.toSound, hcurrent⟩
  have hroot := h.root_eq hcurrent
  refine .get_bind ?_
  split
  · exact .pure h
  · next found hfound =>
    have hlanded : Succeeds (Landing.Rule.applyFirst (manner settings) w.tree found w.editor
        Landing.Rule.all) (Landing.LandsIn fun e' => Editor.Follows e.text slots w.editor e'
          ∧ Token.program e'.text = Token.program w.editor.text) := by
      -- a rule breaks a comment, or opens a line behind a node
      refine Editor.succeeds_applyFirst ?_ (fun c hc => ?_) (Cursor.below_of_find? hfound) _
      · have hblock : (manner settings).comments.blockStart ≠ some [] := by
          show settings.comments.blockStart ≠ some []
          rw [hcomments]
          decide
        refine (h.keeps.splitComment_text hnow.isTreeOf hblock).mono fun _ hlands e' he' => ?_
        obtain ⟨hfollows, hbroken⟩ := hlands e' he'
        rw [manner, hcomments] at hbroken
        exact ⟨hfollows, hbroken.program_eq hroot⟩
      · have hwithin := (Cursor.Within.root hnow.isTreeOf).below hc
        refine (h.keeps.openLineAt_text hwithin _).mono fun _ hlands e' he' => ?_
        obtain ⟨hfollows, hbroken⟩ := hlands e' he'
        rw [Snapshot.cursor, hroot] at hc
        exact ⟨hfollows, hbroken.program_eq hc⟩
    obtain ⟨landed, hrun, hlanded⟩ := hlanded
    rw [hrun]
    cases landed with
    | none => exact .pure h
    | some e' =>
      obtain ⟨hfollows, hprogram⟩ := hlanded e' rfl
      exact .set_bind (.pure (h.follows rfl hfollows hprogram))

theorem landPlainly {slot : Nat} (h : Intact kind e [slot] w)
    (hreturns : e.text.HasReturnsOnly)
    (settings : Settings) (target : Kind) :
    Answers w (landPlainly settings target slot) fun _ => Intact kind e [slot] := by
  have hmodified : Answers w (orFail w.editor.isModified) fun isModified w' =>
      w' = w ∧ (isModified = false → w.editor.text = e.text) :=
    .orFail (h.isModified.mono fun _ hsame => ⟨rfl, hsame⟩)
  refine .look_bind (.bind hmodified fun isModified w' ⟨hw, hsame⟩ => ?_)
  subst hw
  split
  · refine .bind h.toSound.markedSpan fun span w'' hw => ?_
    subst hw
    exact .changeEditor (h.moveCaret _)
  · next hnot => exact h.openLine (hsame (by simpa using hnot)) hreturns settings.style

theorem land {slot : Nat} (h : Intact kind e [slot] w)
    (hcurrent : w.tree.isCurrent w.editor.document = true) {settings : Settings}
    (hcomments : settings.comments = .java)
    (hreturns : e.text.HasReturnsOnly) (scope : Scope) :
    Answers w (land settings scope slot) fun _ => Intact kind e [slot] := by
  refine .look_bind ?_
  split
  · exact .changeEditor_bind ((h.moveCaret _).layOut hcurrent _ _)
  · refine .bind (h.layOut hcurrent _ _) fun _ w₁ h₁ => ?_
    refine .bind h₁.renewTree fun _ w₂ ⟨h₂, _, hcurrent₂⟩ => ?_
    refine .bind h₂.toSound.markedSpan fun span w₃ hsame => ?_
    subst hsame
    refine .bind (h₂.landByRule hcurrent₂ hcomments span scope.kind) fun landed w₄ h₄ => ?_
    cases landed with
    | true => exact .pure h₄
    | false => exact h₄.landPlainly hreturns settings scope.kind

/-- Without a target the text is still what it was. -/
theorem landWithoutTarget (h : Intact kind e slots w) (hsame : w.editor.text = e.text)
    (hcurrent : w.tree.isCurrent w.editor.document = true) {settings : Settings}
    (hcomments : settings.comments = .java)
    (hreturns : e.text.HasReturnsOnly) :
    Answers w (landWithoutTarget settings) fun _ => Intact kind e slots := by
  have hnow : Current e.text slots w := ⟨h.toSound, hcurrent⟩
  refine .get_bind ?_
  rw [hcomments]
  obtain ⟨landed, hrun, hlanded⟩ :=
    h.keeps.splitComment_text hnow.isTreeOf
      (show CommentStyle.java.blockStart ≠ some [] by decide)
  rw [hrun]
  cases landed with
  | none => exact h.openLine hsame hreturns settings.style
  | some e' =>
    obtain ⟨hfollows, hbroken⟩ := hlanded e' rfl
    exact .set (h.follows rfl hfollows (hbroken.program_eq (h.root_eq hcurrent)))

theorem goToHole (h : Intact kind e slots w) :
    Answers w goToHole fun _ w' => Intact kind e slots w' ∧ w'.tree = w.tree
      ∧ w'.editor.document = w.editor.document := by
  refine .look_bind ?_
  split
  · next hole _ =>
    have hforgotten : Intact kind e slots { w with holes := {} } := h.of_same ⟨rfl, rfl⟩
    exact .modify_bind (.changeEditor ⟨hforgotten.moveCaret hole, rfl, rfl⟩)
  · exact .pure ⟨h, rfl, rfl⟩

theorem mark (h : Intact kind e [] w) (span : Span) :
    Intact kind e [(w.editor.mark span).2] { w with editor := (w.editor.mark span).1 } :=
  ⟨⟨h.keeps.mark span, h.tracks⟩, h.kind_eq, h.notes, h.advances, h.program⟩

theorem release (h : Intact kind e slots w) (slot : Nat) :
    Intact kind e [] { w with editor := w.editor.release slot } :=
  ⟨h.toSound.release slot, h.kind_eq, h.notes, h.advances, h.program⟩

end Intact

/-! ## The pass -/

theorem intact_begun (settings : Settings) {e : Editor}
    (hcaret : e.text.isBoundary e.caret = true) :
    Intact settings.source e [] (begun settings e) :=
  ⟨sound_begun settings hcaret, rfl, rfl, .refl _, rfl⟩

/-- **The first pass over a complete text ends the completion and keeps the program.** -/
theorem answers_pass {settings : Settings} (hcaret : e.text.isBoundary e.caret = true)
    (hcomments : settings.comments = .java)
    (hreturns : e.text.HasReturnsOnly)
    (hcomplete : IsComplete settings.source e.text) :
    Answers (begun settings e) (pass settings .never) fun answer w' =>
      answer = some .completed ∧ Intact settings.source e [] w' := by
  refine .bind (intact_begun settings hcaret).renewTree fun _ w₁ hrenewed => ?_
  obtain ⟨h₁, heditor, hcurrent₁⟩ := hrenewed
  refine .bind h₁.goToHole fun _ w₂ hwent => ?_
  obtain ⟨h₂, htree, hdocument⟩ := hwent
  have hcurrent : w₂.tree.isCurrent w₂.editor.document = true := by
    rwa [htree, hdocument]
  have hsame : w₂.editor.text = e.text := by
    rw [Editor.text, hdocument, heditor]
    rfl
  -- no remedy has anything to do in a complete text
  have hidle : ∀ c, Cursor.Below w₂.tree.cursor c → IsIdle w₂.editor c := by
    intro c hc remedy holes
    rw [Snapshot.cursor, h₂.root_eq hcurrent] at hc
    rw [← hsame] at hcomplete
    exact hcomplete.apply_remedy hc remedy holes
  refine .bind (answers_mend hidle hcurrent) fun mending w₃ hmend => ?_
  obtain ⟨hmended, hmending⟩ := hmend
  have h₃ := h₂.of_same hmended
  have hcurrent₃ : w₃.tree.isCurrent w₃.editor.document = true := by
    rwa [hmended.tree, hmended.editor]
  rcases hmending with rfl | ⟨scope, rfl⟩
  · have hlanded := h₃.landWithoutTarget (by rwa [hmended.editor]) hcurrent₃ hcomments hreturns
    exact .bind hlanded fun _ _ h₄ => .pure ⟨rfl, h₄⟩
  · have hlanded : Answers w₃ (withMarker scope.span (land settings scope)) fun _ =>
        Intact settings.source e [] :=
      .withMarker (((h₃.mark scope.span).land hcurrent₃ hcomments hreturns scope).mono
        fun _ _ h => h.release _)
    exact .bind hlanded fun _ _ h₄ => .pure ⟨rfl, h₄⟩

/-- **Complete code is laid out only.**  A completion of a complete text without unusual line breaks
takes one pass, wherever the caret is and whatever the style, and leaves the program as it is. -/
theorem run_keeps_program (settings : Settings) (e : Editor) (caret : Nat)
    (hcomments : settings.comments = .java) (hpasses : 1 ≤ settings.maxPasses)
    (hreturns : e.text.HasReturnsOnly)
    (hcomplete : IsComplete settings.source e.text) :
    let after := run settings .never (e.moveCaret caret)
    after.outcome = .completed ∧ after.passes = 1
      ∧ Token.program after.editor.text = Token.program e.text := by
  intro after
  obtain ⟨answer, w, hrun, rfl, hintact⟩ := answers_pass
    (isBoundary_moveCaret e caret) hcomments hreturns hcomplete
  have hpassesOf : passesOf settings .never (e.moveCaret caret) = ((.completed, 1), w) := by
    obtain ⟨more, hmore⟩ := Nat.exists_eq_add_of_le' hpasses
    rw [passesOf, hmore, takePasses_succ, hrun]
  have hafter := run_eq settings .never (e.moveCaret caret)
  rw [hpassesOf] at hafter
  rw [show after = _ from hafter]
  exact ⟨rfl, rfl, hintact.program⟩

/-- A conditional statement with a literal and a comment is complete, and a line is opened in its
block. -/
theorem run_keeps_program_of_if :
    let settings : Settings := { source := .codeFragment }
    let text := "if (a) \x7b f(\"b\"); \x7d // c".toList
    let after := run settings .never ((Editor.ofText text).moveCaret 7)
    IsComplete .codeFragment text
      ∧ after.editor.text = "if (a) \x7b\n    f(\"b\"); \x7d // c".toList
      ∧ after.outcome = .completed ∧ after.passes = 1
      ∧ Token.program after.editor.text = Token.program text := by
  intro settings text after
  have hcomplete : IsComplete .codeFragment text := by decide +kernel
  refine ⟨hcomplete, by decide +kernel, ?_⟩
  have hreturns : Text.HasReturnsOnly text := by decide +kernel
  exact run_keeps_program settings (Editor.ofText text) 7 rfl (by decide) hreturns hcomplete

end Completion

end StatementCompletion
