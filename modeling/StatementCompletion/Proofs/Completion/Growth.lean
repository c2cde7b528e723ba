import StatementCompletion.Proofs.Completion.Recorded
import StatementCompletion.Proofs.Completion.Run

/-!
# What keeps a completion from settling

A pass is followed by another one only if it has edited the text.  Such an edit adds some ink, and
neither it nor what the pass does behind it takes any ink away.  So no two passes meet the same
text, and a completion is rolled back exactly if each of its passes adds to the program.
-/

namespace StatementCompletion

/-! ## Edits that add ink -/

/-- An edit that puts pieces around a part of the text adds some ink and
leaves all that was there. -/
theorem Action.Surrounds.adds_ink {d d' : Document} {edit : TextEdit}
    (h : Action.Surrounds d.text edit) (hreplace : d.replace edit.span edit.text = .ok d') :
    List.Sublist d.text.ink d'.text.ink ∧ d.text.ink.length < d'.text.ink.length := by
  obtain ⟨before, inside, after, front, back, htext, -, -, hink, rfl⟩ := h
  obtain ⟨answer, hanswer, htext', -⟩ := Document.replace_append htext (front ++ inside ++ back)
  obtain rfl := Except.ok.inj (hanswer.symm.trans hreplace)
  have hpositive : 0 < (Text.ink (front ++ back)).length := List.length_pos_iff.2 hink
  rw [Text.ink_append, List.length_append] at hpositive
  rw [htext, htext']
  constructor
  · refine Text.ink_sublist ((List.Sublist.refl before).append ?_ |>.append (.refl after))
    exact (List.sublist_append_right front inside).trans (List.sublist_append_left _ back)
  · simp only [Text.ink_append, List.length_append]
    omega

namespace Completion

variable {original : Text} {slots : List Nat} {settings : Settings} {popup : Popup} {n : Nat}
  {w w₁ w' : Workspace}

/-! ## Passes that are followed by another one -/

/-- All ink is still there, and at least so much has come to it. -/
def Adds (n : Nat) (w w' : Workspace) : Prop :=
  List.Sublist w.editor.text.ink w'.editor.text.ink
    ∧ w.editor.text.ink.length + n ≤ w'.editor.text.ink.length

theorem Adds.trans {m : Nat} (h : Adds n w w₁) (h' : Adds m w₁ w') : Adds (n + m) w w' := by
  refine ⟨h.1.trans h'.1, ?_⟩
  have hle := h.2
  have hle' := h'.2
  omega

/-- The ink that is there now is kept from now on. -/
theorem Sound.rebase (h : Sound original slots w) : Sound w.editor.text slots w :=
  ⟨⟨.refl _, h.keeps.caret, h.keeps.stamp, h.keeps.markers⟩, h.tracks⟩

theorem mend_adds (h : Current original slots w)
    (hmend : (mend popup).run.run w = (.ok .edited, w')) : Adds 1 w w' := by
  obtain ⟨target, edit, early, late, htarget, hfirst, hreplace, -⟩ :=
    exists_firstEdit_of_mend h hmend
  have hmends := hfirst.mends h.isTreeOf (below_of_mem_trials htarget)
  rcases hmends.surrounds h.isTreeOf with hnone | ⟨_, hone, hsurrounds⟩
  · cases hnone
  · obtain rfl := (List.cons.inj hone).1
    exact hsurrounds.adds_ink hreplace

/-- **A pass that is followed by another one adds ink.** -/
theorem pass_adds (h : Sound original slots w)
    (hpass : (pass settings popup).run.run w = (.ok none, w')) :
    Sound original slots w' ∧ Adds 1 w w' := by
  obtain ⟨w₁, hmend, hstep⟩ := of_pass_none hpass
  have hadds := mend_adds h.readied hmend
  rw [Adds, Editor.text, document_readied, ← Editor.text] at hadds
  obtain ⟨_, _, hends, hsound⟩ := h.readied.mend popup
  cases hends.symm.trans hmend
  -- the step into a block leaves the ink that is there by then
  obtain ⟨_, _, hanswers, hkept⟩ := hsound.stepIntoBlock settings.style
  cases hanswers.symm.trans hstep
  obtain ⟨_, _, hanswers, hrebased⟩ := hsound.rebase.stepIntoBlock settings.style
  cases hanswers.symm.trans hstep
  have hkeeps : Adds 0 w₁ w' := ⟨hrebased.keeps.ink, hrebased.keeps.ink.length_le⟩
  exact ⟨hkept, Adds.trans hadds hkeeps⟩

/-- So many passes in a row, each of which is followed by another one. -/
inductive GoesOn (settings : Settings) (popup : Popup) : Nat → Workspace → Workspace → Prop where
  | refl {w : Workspace} : GoesOn settings popup 0 w w
  | pass {n : Nat} {w w₁ w' : Workspace} : (pass settings popup).run.run w = (.ok none, w₁) →
      GoesOn settings popup n w₁ w' → GoesOn settings popup (n + 1) w w'

theorem GoesOn.adds (h : GoesOn settings popup n w w') (hsound : Sound original slots w) :
    Adds n w w' := by
  induction h with
  | refl => exact ⟨.refl _, Nat.le_refl _⟩
  | @pass n w w₁ w' hpass _ ih =>
    obtain ⟨hsound₁, hadds⟩ := pass_adds hsound hpass
    rw [Nat.add_comm]
    exact hadds.trans (ih hsound₁)

/-! ## Completions that are rolled back -/

/-- Only passes that are all followed by another one are used up. -/
theorem takePasses_rolledBack_iff {text : Text} {caret left taken : Nat} :
    ((takePasses settings popup text caret left taken).run w).1.1 = .rolledBack
      ↔ ∃ w', GoesOn settings popup left w w' := by
  induction left generalizing taken w with
  | zero =>
    obtain ⟨w', hrun, -⟩ := takePasses_zero settings popup text caret taken w
    rw [hrun]
    exact ⟨fun _ => ⟨w, .refl⟩, fun _ => rfl⟩
  | succ left ih =>
    rw [takePasses_succ]
    rcases hrun : (pass settings popup).run.run w with ⟨failure | _ | outcome, w₁⟩
    · refine ⟨nofun, fun ⟨w', hgoes⟩ => ?_⟩
      cases hgoes with
      | pass hpass => cases hrun.symm.trans hpass
    · refine ih.trans ⟨fun ⟨w', hgoes⟩ => ⟨w', .pass hrun hgoes⟩, fun ⟨w', hgoes⟩ => ?_⟩
      cases hgoes with
      | pass hpass hgoes =>
        cases hrun.symm.trans hpass
        exact ⟨w', hgoes⟩
    · constructor
      · exact fun hback => absurd (congrArg some hback) (pass_ensures settings popup w _ w₁ hrun)
      · rintro ⟨w', hgoes⟩
        cases hgoes with
        | pass hpass => cases hrun.symm.trans hpass

/-- **A completion that does not settle keeps adding.**  It is rolled back exactly if
every pass that it may take is followed by another one, and then each of them has
added ink and taken none away. -/
theorem run_rolledBack_iff (settings : Settings) (popup : Popup) {e : Editor}
    (hcaret : e.text.isBoundary e.caret = true) :
    (run settings popup e).outcome = .rolledBack
      ↔ ∃ w, GoesOn settings popup settings.maxPasses (begun settings e) w
        ∧ Adds settings.maxPasses (begun settings e) w := by
  refine takePasses_rolledBack_iff.trans ⟨fun ⟨w, hgoes⟩ => ?_, fun ⟨w, hgoes, _⟩ => ⟨w, hgoes⟩⟩
  exact ⟨w, hgoes, hgoes.adds (sound_begun settings hcaret)⟩

/-- The semicolon that each pass adds behind the open body of a class is read
as a part of that body. -/
example :
    let settings : Settings := { source := .codeFragment, maxPasses := 3 }
    (run settings (fun _ => false) ((Editor.ofText "new(\x7b".toList).moveCaret 5)).outcome =
      .rolledBack := by
  decide +kernel

end Completion

end StatementCompletion
