import StatementCompletion.Completion.Workspace
import StatementCompletion.Proofs.Document

/-!
# Steps that do not fail

`Answers w p Q` says that a step answers from a workspace, and that `Q` holds of the answer and of
the workspace it leaves.  There is one lemma for each of the steps that a completion is made of.
-/

namespace StatementCompletion.Completion

/-- A step does not fail from a workspace, and `Q` holds of its answer and what it leaves. -/
def Answers {α : Type} (w : Workspace) (p : Step α) (Q : α → Workspace → Prop) : Prop :=
  ∃ a w', p.run.run w = (.ok a, w') ∧ Q a w'

namespace Answers

variable {α β : Type} {w : Workspace} {p : Step α} {Q R : α → Workspace → Prop}

/-! ## Composing -/

theorem pure {a : α} (h : Q a w) : Answers w (Pure.pure a) Q :=
  ⟨a, w, rfl, h⟩

theorem mono (hp : Answers w p Q) (h : ∀ a w', Q a w' → R a w') : Answers w p R := by
  obtain ⟨a, w', hrun, hQ⟩ := hp
  exact ⟨a, w', hrun, h a w' hQ⟩

theorem bind {f : α → Step β} {S : β → Workspace → Prop} (hp : Answers w p Q)
    (hf : ∀ a w', Q a w' → Answers w' (f a) S) : Answers w (p >>= f) S := by
  obtain ⟨a, w', hrun, hQ⟩ := hp
  obtain ⟨b, w'', hrun', hS⟩ := hf a w' hQ
  refine ⟨b, w'', ?_, hS⟩
  rw [ExceptT.run_bind, StateT.run_bind, hrun]
  exact hrun'

/-! ## The parts of a step -/

/-- What follows on a look at the workspace sees it as it is. -/
theorem get_bind {f : Workspace → Step α} (h : Answers w (f w) Q) : Answers w (get >>= f) Q :=
  h

theorem look_bind {f : Workspace → α} {g : α → Step β} {Q : β → Workspace → Prop}
    (h : Answers w (g (f w)) Q) : Answers w (look f >>= g) Q :=
  h

/-- What follows on a change sees the changed workspace. -/
theorem set_bind {w' : Workspace} {f : PUnit → Step α} (h : Answers w' (f ⟨⟩) Q) :
    Answers w (set w' >>= f) Q :=
  h

theorem set {w' : Workspace} {Q : PUnit → Workspace → Prop} (h : Q ⟨⟩ w') :
    Answers w (MonadStateOf.set w') Q :=
  ⟨⟨⟩, w', rfl, h⟩

theorem modify_bind {f : Workspace → Workspace} {g : PUnit → Step α}
    (h : Answers (f w) (g ⟨⟩) Q) : Answers w (modify f >>= g) Q :=
  h

theorem modify {f : Workspace → Workspace} {Q : PUnit → Workspace → Prop} (h : Q ⟨⟩ (f w)) :
    Answers w (modify f) Q :=
  ⟨⟨⟩, f w, rfl, h⟩

/-- A step that answers does so as well where its failure would be caught. -/
theorem attempt (h : Answers w p Q) :
    Answers w (ExceptT.lift p.run) fun result w' => ∃ a, result = .ok a ∧ Q a w' := by
  obtain ⟨a, w', hrun, hQ⟩ := h
  refine ⟨.ok a, w', ?_, a, rfl, hQ⟩
  rw [ExceptT.run_lift, StateT.run_map, hrun]
  rfl

theorem orFail {answer : Except Failure α} (h : Succeeds answer fun a => Q a w) :
    Answers w (orFail answer) Q := by
  obtain ⟨a, rfl, hQ⟩ := h
  exact .pure hQ

/-! ## Steps of a completion -/

theorem changeEditor_bind {f : Editor → Editor} {g : PUnit → Step α}
    (h : Answers { w with editor := f w.editor } (g ⟨⟩) Q) : Answers w (changeEditor f >>= g) Q :=
  h

theorem changeEditor {f : Editor → Editor} {Q : PUnit → Workspace → Prop}
    (h : Q ⟨⟩ { w with editor := f w.editor }) : Answers w (changeEditor f) Q :=
  .modify h

theorem tryEditor {f : Editor → Except EditError Editor} {Q : PUnit → Workspace → Prop}
    (h : Succeeds (f w.editor) fun e => Q ⟨⟩ { w with editor := e }) :
    Answers w (tryEditor f) Q := by
  obtain ⟨e, hrun, hQ⟩ := h
  refine .get_bind ?_
  rw [hrun]
  exact .set hQ

theorem applyEdits {edits : List TextEdit} {e : Editor} {Q : PUnit → Workspace → Prop}
    (hrun : w.editor.applyEdits edits = (e, .ok ())) (h : Q ⟨⟩ { w with editor := e }) :
    Answers w (applyEdits edits) Q := by
  refine .get_bind ?_
  rw [hrun]
  exact .set_bind (.pure h)

theorem poll_bind {popup : Popup} {f : Bool → Step α}
    (h : Answers { w with polls := w.polls + 1 } (f (popup (w.polls + 1))) Q) :
    Answers w (poll popup >>= f) Q :=
  h

/-- A step with a marker answers if the step itself does, from a workspace with the marker. -/
theorem withMarker {span : Span} {step : Nat → Step α}
    (h : Answers { w with editor := (w.editor.mark span).1 } (step (w.editor.mark span).2)
      fun a w' => Q a { w' with editor := w'.editor.release (w.editor.mark span).2 }) :
    Answers w (withMarker span step) Q := by
  refine .get_bind (.set_bind ?_)
  refine .bind h.attempt fun result w' ⟨a, hresult, hQ⟩ => ?_
  subst hresult
  exact .changeEditor_bind (.orFail (.ok hQ))

end Answers

end StatementCompletion.Completion
