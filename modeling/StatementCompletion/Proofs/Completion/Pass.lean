import StatementCompletion.Completion.Mending
import StatementCompletion.Proofs.Completion.EmptyBlock
import StatementCompletion.Proofs.Completion.Workspace
import StatementCompletion.Proofs.Landing.Rule
import StatementCompletion.Proofs.Layout
import StatementCompletion.Proofs.Repair.Remedies
import StatementCompletion.Proofs.Repair.Target

/-!
# A pass does not fail

Whatever a pass comes to do, it looks up offsets only in the tree of the text as it is, so no edit
is refused; the brace that it steps behind belongs to a node, the marker of the target is there
until it is released, and the stamp of the session can be read back.

A remedy is only tried while the tree is that of the text: the first edit ends the mending.  So all
the nodes that the remedies are tried on are in the tree of the text, from the first to the last.
-/

namespace StatementCompletion.Completion

variable {original : Text} {slots : List Nat} {w : Workspace} {c : Cursor}

/-! ## Mending -/

theorem Current.applyRemedy (h : Current original slots w) (hc : c.Within w.editor.text)
    (remedy : Remedy) :
    Answers w (applyRemedy c remedy) fun _ w' =>
      w'.tree = w.tree ∧ Editor.Follows original slots w.editor w'.editor := by
  obtain ⟨⟨e, holes⟩, hrun, hfollows⟩ := h.keeps.applyRemedy hc remedy w.holes
  refine .get_bind ?_
  rw [hrun]
  exact .set ⟨rfl, hfollows⟩

/-! ## How mending ends -/

/-- What the workspace is like when mending ends.  Unless there was an edit, or a popup that may
have come after one, the tree is still that of the text. -/
def Ends (original : Text) (slots : List Nat) : Mending → Workspace → Prop
  | .noTarget, w | .complete _, w => Current original slots w
  | .deferred, w | .edited, w => Sound original slots w

/-- What the workspace is like when mending may go on: the text is what it was. -/
def MayEnd (original : Text) (slots : List Nat) (text : Text) : Option Mending → Workspace → Prop
  | none, w => Current original slots w ∧ w.editor.text = text
  | some mending, w => Ends original slots mending w

theorem Current.tryRemedy (h : Current original slots w) (hc : c.Within w.editor.text)
    (popup : Popup) (remedy : Remedy) :
    Answers w (tryRemedy popup c remedy) (MayEnd original slots w.editor.text) := by
  have hpolled : Current original slots { w with polls := w.polls + 1 } := h.of_eq rfl rfl
  refine .poll_bind ?_
  split
  · exact .pure hpolled.toSound
  · refine .bind (hpolled.applyRemedy hc remedy) fun _ w' ⟨htree, hfollows⟩ => .poll_bind ?_
    have hsound : Sound original slots { w' with polls := w'.polls + 1 } :=
      hpolled.follows htree hfollows
    split
    · exact .pure hsound
    · refine .look_bind ?_
      split
      · next hcurrent =>
        -- the stamp has not moved, so there was no edit and the next trial finds the same text
        have hsame := Snapshot.document_eq_of_isCurrent hfollows.advances h.isCurrent
          (htree ▸ hcurrent)
        exact .pure ⟨⟨hsound, hcurrent⟩, congrArg Document.text hsame⟩
      · exact .pure hsound

theorem Current.tryAll (h : Current original slots w) (popup : Popup)
    (trials : List (Cursor × Remedy))
    (htrials : ∀ trial ∈ trials, trial.1.Within w.editor.text) :
    Answers w (tryAll popup trials) (MayEnd original slots w.editor.text) := by
  induction trials generalizing w with
  | nil => exact .pure ⟨h, rfl⟩
  | cons trial rest ih =>
    obtain ⟨c, remedy⟩ := trial
    obtain ⟨hc, hrest⟩ := List.forall_mem_cons.1 htrials
    refine .bind (h.tryRemedy hc popup remedy) fun ending w' hending => ?_
    cases ending with
    | none =>
      obtain ⟨hcurrent, htext⟩ := hending
      rw [← htext] at hrest ⊢
      exact ih hcurrent hrest
    | some mending => exact .pure hending

/-- The remedies are tried on nodes of the tree. -/
theorem below_of_mem_trials {target : Cursor}
    (htarget : Target.atCaret? w.tree w.editor.text w.editor.caret = some target) :
    ∀ trial ∈ trials target, Cursor.Below w.tree.cursor trial.1 := by
  intro trial htrial
  obtain ⟨c, hc, hremedies⟩ := List.mem_flatMap.1 htrial
  obtain ⟨remedy, -, rfl⟩ := List.mem_map.1 hremedies
  exact (Target.below_of_atCaret? htarget).trans (Target.below_of_mem_visits hc)

theorem Current.within_of_mem_trials (h : Current original slots w) {target : Cursor}
    (htarget : Target.atCaret? w.tree w.editor.text w.editor.caret = some target) :
    ∀ trial ∈ trials target, trial.1.Within w.editor.text :=
  fun trial htrial => ⟨_, h.isTreeOf, below_of_mem_trials htarget trial htrial⟩

/-- Mending does not fail. -/
theorem Current.mend (h : Current original slots w) (popup : Popup) :
    Answers w (mend popup) (Ends original slots) := by
  refine .look_bind ?_
  split
  · exact .pure h
  · next target htarget =>
    refine .bind (h.tryAll popup (trials target) (h.within_of_mem_trials htarget))
      fun ending w' hending => ?_
    cases ending with
    | none => exact .pure hending.1
    | some mending => exact .pure hending

/-! ## Laying out -/

theorem Current.layOut (h : Current original slots w) (style : CodeStyle) (span : Span) :
    Answers w (layOut style span) fun _ => Sound original slots := by
  obtain ⟨e, hrun, hfollows⟩ := h.keeps.applyEdits (Layout.fills_edits h.isTreeOf span style)
  exact .look_bind (.applyEdits hrun (h.toSound.follows rfl hfollows))

/-! ## Stepping into an empty block -/

/-- Every offset in the text is that of a leaf, which is not the root of the tree. -/
theorem blockSpan?_isSome {tree : Snapshot} {text : Text} {offset : Nat}
    (htree : Node.IsTreeOf text tree.root) (hlt : offset < text.size) :
    (blockSpan? tree offset).isSome := by
  have hstop : offset < tree.cursor.stop := by
    rw [← htree.text_eq, Node.size_text] at hlt
    exact Nat.lt_of_lt_of_le hlt (Nat.le_add_left _ _)
  obtain ⟨leaf, hleaf⟩ := Option.isSome_iff_exists.1 (Cursor.leafAt?_isSome (Nat.zero_le _) hstop)
  obtain ⟨parent, hparent⟩ := Option.isSome_iff_exists.1 <|
    (Cursor.below_of_leafAt? hleaf).parent?_isSome htree.isBranch (Cursor.isLeaf_of_leafAt? hleaf)
  simp [blockSpan?, hleaf, hparent]

theorem Sound.stepIntoBlock (h : Sound original slots w) (style : CodeStyle) :
    Answers w (stepIntoBlock style) fun _ => Sound original slots := by
  refine .look_bind ?_
  split
  · exact .pure h
  · next opened hopened =>
    refine .bind h.renewTree fun _ w' ⟨hcurrent, heditor⟩ => .look_bind ?_
    have hnear := (emptyBlockNear?_eq_some_iff h.keeps.caret).1 hopened
    have hlt : opened < w'.editor.text.size := heditor ▸ hnear.lt_size
    have hsome := blockSpan?_isSome hcurrent.isTreeOf hlt
    split
    · next hnone =>
      -- every offset in the text is that of a brace with a parent
      rw [hnone] at hsome
      cases hsome
    · next span _ => exact .changeEditor_bind ((hcurrent.moveCaret _).layOut _ span)

/-! ## Landing -/

theorem Sound.markedSpan {slot : Nat} (h : Sound original [slot] w) :
    Answers w (markedSpan slot) fun _ w' => w' = w := by
  obtain ⟨span, hspan⟩ :=
    Option.isSome_iff_exists.1 (h.keeps.markers slot (List.mem_singleton.2 rfl))
  refine .look_bind ?_
  rw [hspan]
  exact .pure rfl

theorem Current.landByRule (h : Current original slots w) {settings : Settings}
    (hcomments : settings.comments.blockStart ≠ some []) (span : Span) (kind : Kind) :
    Answers w (landByRule settings span kind) fun _ => Sound original slots := by
  refine .get_bind ?_
  split
  · exact .pure h.toSound
  · next target htarget =>
    obtain ⟨landed, hrun, hlanded⟩ := h.keeps.applyFirst (manner settings) h.isTreeOf
      (Cursor.below_of_find? htarget) hcomments Landing.Rule.all
    rw [hrun]
    cases landed with
    | none => exact .pure h.toSound
    | some e => exact .set_bind (.pure (h.toSound.follows rfl (hlanded e rfl)))

theorem Sound.openLine (h : Sound original slots w) (style : CodeStyle) :
    Answers w (tryEditor (·.openLine style)) fun _ => Sound original slots :=
  .tryEditor ((h.keeps.openLine style).mono fun _ hfollows => h.follows rfl hfollows)

theorem Sound.landPlainly {slot : Nat} (h : Sound original [slot] w) (settings : Settings)
    (kind : Kind) : Answers w (landPlainly settings kind slot) fun _ => Sound original [slot] := by
  obtain ⟨stamp, hstamp⟩ := h.keeps.stamp
  have hmodified : Succeeds w.editor.isModified fun _ => Sound original [slot] w := by
    unfold Editor.isModified
    rw [hstamp]
    exact .ok h
  refine .look_bind (.bind (.orFail hmodified) fun isModified w' h => ?_)
  split
  · refine .bind h.markedSpan fun span w'' hsame => ?_
    subst hsame
    exact .changeEditor (h.follows rfl (h.keeps.moveCaret _))
  · exact h.openLine settings.style

theorem Current.land {slot : Nat} (h : Current original [slot] w) {settings : Settings}
    (hcomments : settings.comments.blockStart ≠ some []) (scope : Scope) :
    Answers w (land settings scope slot) fun _ => Sound original [slot] := by
  refine .look_bind ?_
  split
  · exact .changeEditor_bind ((h.moveCaret _).layOut _ _)
  · refine .bind (h.layOut _ _) fun _ w₁ h₁ => ?_
    refine .bind h₁.renewTree fun _ w₂ ⟨h₂, _⟩ => ?_
    refine .bind h₂.markedSpan fun span w₃ hsame => ?_
    subst hsame
    refine .bind (h₂.landByRule hcomments span scope.kind) fun landed w₄ h₄ => ?_
    cases landed with
    | true => exact .pure h₄
    | false => exact h₄.landPlainly settings scope.kind

theorem Current.landWithoutTarget (h : Current original slots w) {settings : Settings}
    (hcomments : settings.comments.blockStart ≠ some []) :
    Answers w (landWithoutTarget settings) fun _ => Sound original slots := by
  refine .get_bind ?_
  obtain ⟨landed, hrun, hlanded⟩ := h.keeps.splitComment h.isTreeOf hcomments
  rw [hrun]
  cases landed with
  | none => exact h.toSound.openLine settings.style
  | some e => exact .set (h.toSound.follows rfl (hlanded e rfl))

/-! ## One pass -/

theorem Current.goToHole (h : Current original slots w) :
    Answers w goToHole fun _ => Current original slots := by
  refine .look_bind ?_
  split
  · next hole _ =>
    have hforgotten : Current original slots { w with holes := {} } := h.of_eq rfl rfl
    exact .modify_bind (.changeEditor (hforgotten.moveCaret hole))
  · exact .pure h

/-- A pass does not fail, and what it answers is not that it failed. -/
theorem Sound.pass (h : Sound original [] w) {settings : Settings}
    (hcomments : settings.comments.blockStart ≠ some []) (popup : Popup) :
    Answers w (pass settings popup) fun answer w' =>
      Sound original [] w' ∧ answer ≠ some .failed := by
  refine .bind h.renewTree fun _ w₁ ⟨h₁, _⟩ => ?_
  refine .bind h₁.goToHole fun _ w₂ h₂ => ?_
  refine .bind (h₂.mend popup) fun mending w₃ h₃ => ?_
  cases mending with
  | noTarget =>
    exact .bind (h₃.landWithoutTarget hcomments) fun _ _ h₄ => .pure ⟨h₄, by simp⟩
  | deferred => exact .pure ⟨h₃, by simp⟩
  | edited => exact .bind (h₃.stepIntoBlock settings.style) fun _ _ h₄ => .pure ⟨h₄, by simp⟩
  | complete scope =>
    -- the marker is there from before the layout until the caret has landed
    have hlanded : Answers w₃ (withMarker scope.span (land settings scope)) fun _ =>
        Sound original [] :=
      .withMarker (((h₃.mark scope.span).land hcomments scope).mono fun _ _ h => h.release _)
    exact .bind hlanded fun _ _ h₄ => .pure ⟨h₄, by simp⟩

end StatementCompletion.Completion
