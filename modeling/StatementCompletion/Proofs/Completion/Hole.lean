import StatementCompletion.Proofs.Completion.Leaves

/-!
# The hole that a completion reports

A completion that ends with a hole has put the caret on it and then laid out the target.  The caret
is carried along with the text that is laid out; the hole is reported as it was recorded.  So the
two agree as far as laying out moves nothing in front of the hole.
-/

namespace StatementCompletion

/-! ## The caret across a batch of edits -/

/-- Where edits that are applied one after the other carry the caret. -/
def TextEdit.carryCaret (edits : List TextEdit) (caret : Nat) : Nat :=
  edits.foldl (fun caret edit => edit.span.carry edit.text.size caret) caret

theorem Editor.caret_applyInTurn {edits : List TextEdit} {e e' : Editor}
    (h : applyInTurn edits e = (e', .ok ())) : e'.caret = TextEdit.carryCaret edits e.caret := by
  induction edits generalizing e with
  | nil =>
    obtain ⟨rfl, -⟩ := Prod.mk.inj h
    rfl
  | cons edit rest ih =>
    unfold applyInTurn at h
    cases hedit : e.replace edit.span edit.text with
    | error reason =>
      rw [hedit] at h
      cases (Prod.mk.inj h).2
    | ok e₁ =>
      rw [hedit] at h
      have hcaret : e₁.caret = edit.span.carry edit.text.size e.caret := by
        unfold replace at hedit
        cases hdocument : e.document.replace edit.span edit.text with
        | error reason =>
          rw [hdocument] at hedit
          cases hedit
        | ok d =>
          rw [hdocument] at hedit
          cases hedit
          rfl
      rw [ih h, hcaret]
      rfl

namespace Completion

variable {settings : Settings} {popup : Popup} {w w' : Workspace} {o : Nat}

/-! ## The last pass -/

/-- What is completed is completed by its last pass. -/
theorem exists_pass_of_takePasses {text : Text} {caret left taken passes : Nat}
    (h : (takePasses settings popup text caret left taken).run w = ((.completed, passes), w')) :
    ∃ w₀, (pass settings popup).run.run w₀ = (.ok (some .completed), w') := by
  induction left generalizing taken w with
  | zero =>
    obtain ⟨w'', hrun, -⟩ := takePasses_zero settings popup text caret taken w
    rw [hrun] at h
    cases h
  | succ left ih =>
    rw [takePasses_succ] at h
    rcases hrun : (pass settings popup).run.run w with ⟨failure | _ | outcome, w''⟩
    · rw [hrun] at h
      cases h
    · rw [hrun] at h
      exact ih h
    · rw [hrun] at h
      cases h
      exact ⟨w, hrun⟩

/-- A pass forgets the holes of the last one. -/
theorem first?_readied (w : Workspace) : (readied w).holes.first? = none := by
  have hgoes (w : Workspace) : (goToHole.run.run w).2.holes.first? = none := by
    unfold goToHole
    rw [run_look_bind]
    cases hfirst : w.holes.first? with
    | none => exact hfirst
    | some hole => rfl
  exact hgoes _

/-- What is ensured of the first step may be used for the second. -/
theorem Ensures.bind_of {α β : Type} {p : Step α} {f : α → Step β} {P : α → Prop} {Q : β → Prop}
    (hp : Ensures p P) (hf : ∀ a, P a → Ensures (f a) Q) : Ensures (p >>= f) Q := by
  intro w b w'' hrun
  rw [run_bind] at hrun
  rcases hstep : p.run.run w with ⟨failure | a, w'⟩
  · rw [hstep] at hrun
    cases hrun
  · rw [hstep] at hrun
    exact hf a (hp w a w' hstep) w' b w'' hrun

/-- Trying remedies does not find out that there is no target. -/
theorem tryAll_ensures (popup : Popup) (trials : List (Cursor × Remedy)) :
    Ensures (tryAll popup trials) (· ≠ some .noTarget) := by
  have htry (c : Cursor) (remedy : Remedy) :
      Ensures (tryRemedy popup c remedy) (· ≠ some .noTarget) := by
    refine .bind fun shows => ?_
    split
    · exact .pure (by simp)
    · refine .bind fun _ => .bind fun shows => ?_
      split
      · exact .pure (by simp)
      · refine .bind fun isCurrent => ?_
        split <;> exact .pure (by simp)
  induction trials with
  | nil => exact .pure (by simp)
  | cons trial rest ih =>
    refine (htry trial.1 trial.2).bind_of fun ending hending => ?_
    cases ending with
    | none => exact ih
    | some mending => exact .pure hending

/-- What mending comes to: nothing without a target, or else what the trials at the target come to.
Where none of them ends it, the target is complete. -/
theorem mend_cases {mending : Mending} (h : (mend popup).run.run w = (.ok mending, w')) :
    (mending = .noTarget ∧ w' = w)
      ∨ ∃ target, Target.atCaret? w.tree w.editor.text w.editor.caret = some target
        ∧ ((tryAll popup (trials target)).run.run w = (.ok (some mending), w')
          ∨ (tryAll popup (trials target)).run.run w = (.ok none, w')
            ∧ mending = .complete (.ofTarget target)) := by
  unfold mend at h
  rw [run_look_bind] at h
  cases htarget : Target.atCaret? w.tree w.editor.text w.editor.caret with
  | none =>
    rw [htarget] at h
    cases h
    exact .inl ⟨rfl, rfl⟩
  | some target =>
    rw [htarget] at h
    dsimp only at h
    rw [run_bind] at h
    rcases htry : (tryAll popup (trials target)).run.run w with ⟨failure | _ | ending, w₁⟩ <;>
      rw [htry] at h <;> cases h
    · exact .inr ⟨target, rfl, .inr ⟨htry, rfl⟩⟩
    · exact .inr ⟨target, rfl, .inl htry⟩

/-- Mending that finds no target leaves the workspace alone. -/
theorem eq_of_mend_noTarget (h : (mend popup).run.run w = (.ok .noTarget, w')) : w' = w := by
  rcases mend_cases h with ⟨-, rfl⟩ | ⟨target, -, htry | ⟨-, hcomplete⟩⟩
  · rfl
  · exact absurd rfl (tryAll_ensures popup (trials target) w _ w' htry)
  · cases hcomplete

/-! ## Laying out around a hole -/

/-- Laying out that does not fail applies the whole batch. -/
theorem applyEdits_of_layOut {style : CodeStyle} {span : Span}
    (h : (layOut style span).run.run w = (.ok (), w')) :
    w.editor.applyEdits (Layout.edits w.tree span style) = (w'.editor, .ok ()) := by
  unfold layOut applyEdits at h
  rw [run_look_bind, run_get_bind] at h
  rcases hbatch : w.editor.applyEdits (Layout.edits w.tree span style) with ⟨e, reason | ⟨⟩⟩
  · rw [hbatch] at h
    cases h
  · rw [hbatch] at h
    cases h
    rfl

/-- An editor whose target is marked and laid out, with the caret on a hole. -/
def laidOut (settings : Settings) (w : Workspace) (scope : Scope) (hole : Nat) : Editor :=
  (((w.editor.mark scope.span).1.moveCaret hole).applyEdits
    (Layout.edits w.tree scope.layoutSpan settings.style)).1

/-- Landing that leaves a hole goes to the hole and lays out the target around it. -/
theorem land_of_hole {scope : Scope} {slot : Nat}
    (h : (land settings scope slot).run.run w = (.ok (), w')) (hhole : w'.holes.first? = some o) :
    w.holes.first? = some o
      ∧ (w.editor.moveCaret o).applyEdits (Layout.edits w.tree scope.layoutSpan settings.style)
        = (w'.editor, .ok ()) := by
  have hsame : w'.holes = w.holes := by
    have hleaves := Leaves.land (w := w) isApart_holes settings scope slot
    unfold Leaves at hleaves
    rwa [h] at hleaves
  have hfirst : w.holes.first? = some o := hsame ▸ hhole
  refine ⟨hfirst, ?_⟩
  unfold land at h
  rw [run_look_bind, hfirst] at h
  exact applyEdits_of_layOut (w := { w with editor := w.editor.moveCaret o }) h

/-- What a step with a marker does, the step itself does before the marker is freed. -/
theorem exists_of_withMarker {span : Span} {step : Nat → Step Unit}
    (h : (withMarker span step).run.run w = (.ok (), w')) :
    ∃ w₁, (step (w.editor.mark span).2).run.run { w with editor := (w.editor.mark span).1 }
        = (.ok (), w₁)
      ∧ w' = { w₁ with editor := w₁.editor.release (w.editor.mark span).2 } := by
  unfold withMarker at h
  rw [run_get_bind] at h
  change (ExceptT.lift (step (w.editor.mark span).2).run >>= fun result =>
      changeEditor (·.release (w.editor.mark span).2) >>= fun _ => orFail result).run.run
    { w with editor := (w.editor.mark span).1 } = _ at h
  rw [run_bind, ExceptT.run_lift, StateT.run_map] at h
  rcases hstep : (step (w.editor.mark span).2).run.run { w with editor := (w.editor.mark span).1 }
    with ⟨failure | ⟨⟩, w₁⟩
  · rw [hstep] at h
    cases h
  · rw [hstep] at h
    exact ⟨w₁, rfl, (Prod.mk.inj h).2.symm⟩

/-- A pass that completes the target and leaves a hole has found nothing more to mend, and has laid
out the target with the caret on the hole. -/
theorem pass_of_hole (h : (pass settings popup).run.run w = (.ok (some .completed), w'))
    (hhole : w'.holes.first? = some o) :
    ∃ w₁ scope, (mend popup).run.run (readied w) = (.ok (.complete scope), w₁)
      ∧ w₁.holes.first? = some o
      ∧ w'.editor.text = (laidOut settings w₁ scope o).text
      ∧ w'.editor.caret = TextEdit.carryCaret
        (TextEdit.inApplicationOrder (Layout.edits w₁.tree scope.layoutSpan settings.style))
        (w₁.editor.text.floorBoundary o) := by
  unfold pass at h
  rw [run_ready_bind, run_bind] at h
  rcases hmend : (mend popup).run.run (readied w) with ⟨failure | mending, w₁⟩
  · rw [hmend] at h
    cases h
  · rw [hmend] at h
    cases mending with
    | deferred => cases h
    | edited =>
      dsimp only at h
      rw [run_bind] at h
      rcases hstep : (stepIntoBlock settings.style).run.run w₁ with ⟨_ | _, _⟩
      · rw [hstep] at h
        cases h
      · rw [hstep] at h
        cases h
    | noTarget =>
      -- without a target no remedy is tried, so there is no hole
      dsimp only at h
      have hleaves : w'.holes = w₁.holes := by
        have heq : ((landWithoutTarget settings >>= fun _ =>
            pure (some Outcome.completed)).run.run w₁).2.holes = _ :=
          Leaves.eq_bind fun _ _ => .pure _
        rw [h] at heq
        exact heq.trans (Leaves.landWithoutTarget isApart_holes settings)
      rw [hleaves, eq_of_mend_noTarget hmend, first?_readied] at hhole
      cases hhole
    | complete scope =>
      dsimp only at h
      rw [run_bind] at h
      rcases hland : (withMarker scope.span (land settings scope)).run.run w₁ with ⟨_ | ⟨⟩, w₂⟩
      · rw [hland] at h
        cases h
      · rw [hland] at h
        obtain rfl : w₂ = w' := (Prod.mk.inj h).2
        obtain ⟨w₃, hrun, rfl⟩ := exists_of_withMarker hland
        obtain ⟨hfirst, hedits⟩ := land_of_hole hrun hhole
        refine ⟨w₁, scope, rfl, hfirst, ?_, ?_⟩
        · exact congrArg (fun batch => batch.1.text) hedits.symm
        · exact Editor.caret_applyInTurn hedits

/-! ## Where the caret is -/

/-- **The caret is where the hole has gone.**  A completion that is completed with a hole has found
nothing more to mend, and the caret is where laying out the target carries the hole. -/
theorem run_caret_of_hole {e : Editor} (hcompleted : (run settings popup e).outcome = .completed)
    (hhole : (run settings popup e).hole? = some o) :
    ∃ w₀ w scope, (mend popup).run.run w₀ = (.ok (.complete scope), w)
      ∧ w.holes.first? = some o
      ∧ (run settings popup e).editor.text = (laidOut settings w scope o).text
      ∧ (run settings popup e).editor.caret = TextEdit.carryCaret
        (TextEdit.inApplicationOrder (Layout.edits w.tree scope.layoutSpan settings.style))
        (w.editor.text.floorBoundary o) := by
  rw [run_eq] at hcompleted hhole ⊢
  obtain ⟨w₀, hpass⟩ := exists_pass_of_takePasses (show passesOf settings popup e
    = ((.completed, (passesOf settings popup e).1.2), (passesOf settings popup e).2) by
      rw [← hcompleted])
  obtain ⟨w, scope, hmend, hfirst, htext, hcaret⟩ := pass_of_hole hpass hhole
  exact ⟨readied w₀, w, scope, hmend, hfirst, htext, hcaret⟩

/-- In front of an empty condition laying out puts a space, and the caret goes with the condition
while the hole is reported where it was. -/
example :
    let after :=
      run { source := .codeFragment } .never ((Editor.ofText "if(){}".toList).moveCaret 3)
    after.editor.text = "if () {}".toList ∧ after.hole? = some 3 ∧ after.editor.caret = 4 := by
  decide +kernel

end Completion

end StatementCompletion
