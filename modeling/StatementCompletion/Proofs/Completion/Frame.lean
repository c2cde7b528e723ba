import StatementCompletion.Completion.Run
import StatementCompletion.Editor.Operation
import StatementCompletion.Proofs.Completion.Run
import StatementCompletion.Proofs.Editor.Operation

/-!
# Completions leave no trace

Besides the text, the caret and its own note, which it forgets, a completion leaves an editor
as it was: the other notes are untouched, the same slots are in use, and a marker on a good
span of the text is still on one.  That holds however the completion ends, so `Spares w p` is
said of a step whether it answers or fails, and there is one lemma for each of the steps that
a completion is made of.  The marker of a target is the only one that is made on the way, and
it is released on every way out.
-/

namespace StatementCompletion

/-! ## Landing and mending -/

namespace Editor

variable {e e' : Editor}

theorem spares_splitComment {comments : CommentStyle} {tree : Snapshot}
    (h : Landing.splitComment comments tree e = .ok (some e')) : e.Spares e' := by
  unfold Landing.splitComment at h
  dsimp only at h
  split at h
  · cases h
  · split at h
    · cases h
    · obtain ⟨broken, hbroken, h⟩ := exists_of_bind_ok h
      cases h
      exact (spares_replace hbroken).trans (spares_moveCaret broken _)

theorem spares_openLineAt {style : CodeStyle} {offset : Nat}
    (h : Landing.openLineAt style offset e = .ok (some e')) : e.Spares e' := by
  obtain ⟨opened, hopened, h⟩ := exists_of_bind_ok h
  cases h
  exact (spares_moveCaret e offset).trans (spares_breakLine hopened)

theorem spares_applyRule {manner : Landing.Manner} {tree : Snapshot} {target : Cursor}
    {rule : Landing.Rule} (h : rule.apply manner tree target e = .ok (some e')) : e.Spares e' := by
  cases rule with
  | comment => exact spares_splitComment h
  | afterSemicolon | afterJump =>
    rw [Landing.Rule.apply] at h
    split at h
    · exact spares_openLineAt h
    · cases h
  | intoBody =>
    rw [Landing.Rule.apply] at h
    split at h
    · exact spares_openLineAt h
    · cases h

theorem spares_applyFirst {manner : Landing.Manner} {tree : Snapshot} {target : Cursor}
    {rules : List Landing.Rule}
    (h : Landing.Rule.applyFirst manner tree target e rules = .ok (some e')) : e.Spares e' := by
  induction rules with
  | nil => cases h
  | cons rule rest ih =>
    obtain ⟨_ | landed, hlanded, h⟩ := exists_of_bind_ok h
    · exact ih h
    · cases h
      exact spares_applyRule hlanded

theorem spares_applyAction {action : Action} {holes holes' : Holes}
    (h : action.apply e holes = .ok (e', holes')) : e.Spares e' := by
  cases action with
  | replace edit =>
    obtain ⟨edited, hedited, h⟩ := exists_of_bind_ok h
    cases h
    exact spares_replace hedited
  | caret offset =>
    cases h
    exact spares_moveCaret e offset
  | hole offset =>
    cases h
    exact .refl e

theorem spares_applyAll {actions : List Action} {holes holes' : Holes}
    (h : Action.applyAll e holes actions = .ok (e', holes')) : e.Spares e' := by
  induction actions generalizing e holes with
  | nil =>
    cases h
    exact .refl _
  | cons action rest ih =>
    obtain ⟨⟨edited, holes₁⟩, hedited, h⟩ := exists_of_bind_ok h
    exact (spares_applyAction hedited).trans (ih h)

theorem spares_applyRemedy {remedy : Remedy} {c : Cursor} {holes holes' : Holes}
    (h : remedy.apply c e holes = .ok (e', holes')) : e.Spares e' := by
  obtain ⟨actions, -, h⟩ := exists_of_bind_ok h
  exact spares_applyAll h

end Editor

namespace Completion

/-! ## Steps, whether they answer or fail -/

/-- Whatever comes of a step from a workspace, the editor is spared. -/
def Spares {α : Type} (w : Workspace) (p : Step α) : Prop :=
  w.editor.IsCompact → w.editor.Spares (p.run.run w).2.editor

namespace Spares

variable {α β : Type} {w w' : Workspace}

theorem pure {a : α} : Spares w (Pure.pure a) :=
  fun _ => .refl _

theorem throw {failure : Failure} : Spares w (throw failure : Step α) :=
  fun _ => .refl _

theorem bind {p : Step α} {f : α → Step β} (hp : Spares w p) (hf : ∀ a w', Spares w' (f a)) :
    Spares w (p >>= f) := by
  intro hcompact
  have hspares := hp hcompact
  rw [ExceptT.run_bind, StateT.run_bind]
  rcases hrun : p.run.run w with ⟨failure | a, w'⟩
  · rwa [hrun] at hspares
  · rw [hrun] at hspares
    exact hspares.trans (hf a w' (hspares.isCompact hcompact))

theorem get_bind {f : Workspace → Step α} (h : Spares w (f w)) : Spares w (get >>= f) :=
  h

theorem look_bind {f : Workspace → α} {g : α → Step β} (h : Spares w (g (f w))) :
    Spares w (look f >>= g) :=
  h

theorem set_bind {f : PUnit → Step α} (hspares : w.editor.Spares w'.editor)
    (h : Spares w' (f ⟨⟩)) : Spares w (MonadState.set w' >>= f) :=
  fun hcompact => hspares.trans (h (hspares.isCompact hcompact))

theorem modify {f : Workspace → Workspace} (h : w.editor.Spares (f w).editor) :
    Spares w (modify f) :=
  fun _ => h

theorem orFail {answer : Except Failure α} : Spares w (orFail answer) := by
  cases answer with
  | ok a => exact .pure
  | error failure => exact .throw

/-! ### Steps of a completion -/

theorem moveCaret (f : Editor → Nat) : Spares w (changeEditor fun e => e.moveCaret (f e)) :=
  .modify (Editor.spares_moveCaret _ _)

theorem renewTree : Spares w renewTree :=
  .modify (.refl _)

theorem poll {popup : Popup} : Spares w (poll popup) :=
  fun _ => .refl _

theorem tryEditor {f : Editor → Except EditError Editor}
    (h : ∀ e', f w.editor = .ok e' → w.editor.Spares e') : Spares w (tryEditor f) := by
  refine .get_bind ?_
  split
  · next e' hchange => exact .modify (h e' hchange)
  · exact .throw

theorem applyEdits (edits : List TextEdit) : Spares w (applyEdits edits) := by
  refine .get_bind (.set_bind (Editor.spares_applyEdits w.editor edits) ?_)
  split
  · exact .pure
  · exact .throw

/-- What runs with a marker leaves the marker to be released, whether it answers or fails. -/
theorem run_withMarker (w : Workspace) (span : Span) (step : Nat → Step α) :
    ((Completion.withMarker span step).run.run w).2.editor =
      ((step (w.editor.mark span).2).run.run
        { w with editor := (w.editor.mark span).1 }).2.editor.release (w.editor.mark span).2 := by
  rcases hstep : (step (w.editor.mark span).2).run.run { w with editor := (w.editor.mark span).1 }
    with ⟨result, w'⟩
  have hrun : (Completion.withMarker span step).run.run w =
      (ExceptT.lift (step (w.editor.mark span).2).run >>= fun result => do
        changeEditor (·.release (w.editor.mark span).2)
        Completion.orFail result : Step α).run.run { w with editor := (w.editor.mark span).1 } :=
    rfl
  rw [hrun, ExceptT.run_bind, StateT.run_bind, ExceptT.run_lift, StateT.run_map, hstep]
  cases result <;> rfl

theorem withMarker {span : Span} {step : Nat → Step α} (h : ∀ slot w', Spares w' (step slot)) :
    Spares w (withMarker span step) := by
  intro hcompact
  have hspares := h (w.editor.mark span).2 { w with editor := (w.editor.mark span).1 }
    (Editor.isCompact_mark w.editor span)
  rw [run_withMarker]
  exact hspares.release_mark hcompact

theorem layOut {style : CodeStyle} {span : Span} : Spares w (layOut style span) :=
  .look_bind (.applyEdits _)

theorem openLine {style : CodeStyle} : Spares w (Completion.tryEditor (·.openLine style)) :=
  .tryEditor fun _ => Editor.spares_openLine

/-! ## Mending -/

theorem applyRemedy {c : Cursor} {remedy : Remedy} : Spares w (applyRemedy c remedy) := by
  refine .get_bind ?_
  split
  · next hremedy => exact .modify (Editor.spares_applyRemedy hremedy)
  · exact .throw

theorem tryRemedy {popup : Popup} {c : Cursor} {remedy : Remedy} :
    Spares w (tryRemedy popup c remedy) := by
  refine .bind .poll fun shows w₁ => ?_
  split
  · exact .pure
  · refine .bind .applyRemedy fun _ w₂ => .bind .poll fun shows w₃ => ?_
    split
    · exact .pure
    · refine .look_bind ?_
      split <;> exact .pure

theorem tryAll {popup : Popup} {trials : List (Cursor × Remedy)} :
    Spares w (tryAll popup trials) := by
  induction trials generalizing w with
  | nil => exact .pure
  | cons trial rest ih =>
    refine .bind .tryRemedy fun ending w' => ?_
    cases ending with
    | none => exact ih
    | some mending => exact .pure

theorem mend {popup : Popup} : Spares w (mend popup) := by
  refine .look_bind ?_
  split
  · exact .pure
  · refine .bind .tryAll fun ending w' => ?_
    cases ending <;> exact .pure

/-! ## Passes -/

theorem stepIntoBlock {style : CodeStyle} : Spares w (stepIntoBlock style) := by
  refine .look_bind ?_
  split
  · exact .pure
  · refine .bind .renewTree fun _ w' => .look_bind ?_
    split
    · exact .throw
    · exact .bind (.moveCaret _) fun _ _ => .layOut

theorem markedSpan {slot : Nat} : Spares w (markedSpan slot) := by
  refine .look_bind ?_
  split
  · exact .pure
  · exact .throw

theorem landByRule {settings : Settings} {span : Span} {kind : Kind} :
    Spares w (landByRule settings span kind) := by
  refine .get_bind ?_
  split
  · exact .pure
  · split
    · next hlanded => exact .set_bind (Editor.spares_applyFirst hlanded) .pure
    · exact .pure
    · exact .throw

theorem landPlainly {settings : Settings} {kind : Kind} {slot : Nat} :
    Spares w (landPlainly settings kind slot) := by
  refine .look_bind (.bind .orFail fun isModified w' => ?_)
  split
  · exact .bind .markedSpan fun span _ => .moveCaret _
  · exact .openLine

theorem land {settings : Settings} {scope : Scope} {slot : Nat} :
    Spares w (land settings scope slot) := by
  refine .look_bind ?_
  split
  · exact .bind (.moveCaret _) fun _ _ => .layOut
  · refine .bind .layOut fun _ _ => .bind .renewTree fun _ _ => .bind .markedSpan fun span _ =>
      .bind .landByRule fun landed _ => ?_
    cases landed with
    | true => exact .pure
    | false => exact .landPlainly

theorem landWithoutTarget {settings : Settings} : Spares w (landWithoutTarget settings) := by
  refine .get_bind ?_
  split
  · next hsplit => exact .modify (Editor.spares_splitComment hsplit)
  · exact .openLine
  · exact .throw

theorem goToHole : Spares w goToHole := by
  refine .look_bind ?_
  split
  · exact .bind (.modify (.refl _)) fun _ _ => .moveCaret _
  · exact .pure

/-- A pass leaves no trace, whatever ends it. -/
theorem pass {settings : Settings} {popup : Popup} : Spares w (pass settings popup) := by
  refine .bind .renewTree fun _ _ => .bind .goToHole fun _ _ => .bind .mend fun mending _ => ?_
  cases mending with
  | noTarget => exact .bind .landWithoutTarget fun _ _ => .pure
  | deferred => exact .pure
  | edited => exact .bind .stepIntoBlock fun _ _ => .pure
  | complete scope => exact .bind (.withMarker fun slot _ => .land) fun _ _ => .pure

theorem rollBack {text : Text} {caret : Nat} : Spares w (rollBack text caret) :=
  .bind (.tryEditor fun _ => Editor.spares_replace) fun _ _ => .moveCaret _

end Spares

/-! ## Whole completions -/

/-- Passes leave no trace, and neither does rolling them back. -/
theorem spares_takePasses (settings : Settings) (popup : Popup) (text : Text)
    (caret left taken : Nat) {w : Workspace} (hcompact : w.editor.IsCompact) :
    w.editor.Spares ((takePasses settings popup text caret left taken).run w).2.editor := by
  induction left generalizing taken w with
  | zero =>
    have hspares : w.editor.Spares ((rollBack text caret).run.run w).2.editor :=
      Spares.rollBack hcompact
    rw [takePasses, StateT.run_bind]
    rcases hrun : (rollBack text caret).run.run w with ⟨failure | ⟨⟩, w'⟩ <;>
      (rw [hrun] at hspares; exact hspares)
  | succ left ih =>
    have hspares : w.editor.Spares ((pass settings popup).run.run w).2.editor :=
      Spares.pass hcompact
    rw [takePasses_succ]
    rcases hrun : (pass settings popup).run.run w with ⟨failure | _ | outcome, w'⟩ <;>
      rw [hrun] at hspares
    · exact hspares
    · exact hspares.trans (ih (taken + 1) (hspares.isCompact hcompact))
    · exact hspares

theorem spares_passesOf (settings : Settings) (popup : Popup) {e : Editor}
    (hcompact : e.IsCompact) :
    e.beginSession.Spares (passesOf settings popup e).2.editor :=
  spares_takePasses settings popup e.text e.caret settings.maxPasses 0
    (w := begun settings e) hcompact

/-- What has been done to an editor besides its text and its caret: the note of a completion is
forgotten and the other notes are what they were, the slots are as many as before and
the same ones are in use, and a marker on a span that fits the text is on a span that
fits the text there is now. -/
structure Untraced (e after : Editor) : Prop where
  forgets : after.note? Editor.stampName = none
  notes : ∀ name, name ≠ Editor.stampName → after.note? name = e.note? name
  length : after.markers.length = e.markers.length
  inUse : ∀ slot, (after.marker? slot).isSome = (e.marker? slot).isSome
  fits : ∀ slot span, e.marker? slot = some span → span.Fits e.text →
    ∃ span', after.marker? slot = some span' ∧ span'.Fits after.text

theorem untraced_run (settings : Settings) (popup : Popup) {e : Editor} (hcompact : e.IsCompact) :
    Untraced e (run settings popup e).editor := by
  have hspares := spares_passesOf settings popup hcompact
  have hnote (name : String) : (run settings popup e).editor.note? name
      = if name = Editor.stampName then none else (passesOf settings popup e).2.editor.note? name :=
    Editor.note?_forgetNote _ _ _
  refine ⟨?forgets, fun name hname => ?notes, ?length, hspares.isSome_marker?, hspares.fits⟩
  case forgets => rw [hnote, if_pos rfl]
  case notes =>
    rw [hnote, if_neg hname, Editor.note?, hspares.notes]
    exact (Editor.note?_keepNote e _ _ name).trans (if_neg hname)
  case length =>
    have hlength := congrArg List.length hspares.slots
    rwa [List.length_map, List.length_map] at hlength

theorem isCompact_run (settings : Settings) (popup : Popup) {e : Editor} (hcompact : e.IsCompact) :
    (run settings popup e).editor.IsCompact :=
  (spares_passesOf settings popup hcompact).isCompact hcompact

/-- **A completion leaves no trace but the text and the caret.**  Its own note is forgotten and the
other notes are what they were, the slots are as many as before and the same ones are in use, and a
marker on a span that fits the text is on a span that fits the text it leaves. -/
theorem run_leaves_no_trace (settings : Settings) (popup : Popup) (e : Editor)
    (hcompact : e.IsCompact) :
    let after := (run settings popup e).editor
    after.note? Editor.stampName = none
      ∧ (∀ name, name ≠ Editor.stampName → after.note? name = e.note? name)
      ∧ after.markers.length = e.markers.length
      ∧ (∀ slot, (after.marker? slot).isSome = (e.marker? slot).isSome)
      ∧ ∀ slot span, e.marker? slot = some span → span.Fits e.text →
        ∃ span', after.marker? slot = some span' ∧ span'.Fits after.text := by
  intro after
  have huntraced := untraced_run settings popup hcompact
  exact ⟨huntraced.forgets, huntraced.notes, huntraced.length, huntraced.inUse, huntraced.fits⟩

/-- An open call behind a marker, a free slot and a marker on its name: the call is ended, and there
is nothing new in the editor but the text and the caret. -/
theorem run_leaves_no_trace_of_open_call :
    let e := (Editor.ofText ['f', '(']).performAll
      [.mark ⟨0, 0⟩, .mark ⟨0, 2⟩, .mark ⟨0, 1⟩, .release 1, .keepNote "tab" (.number 4),
        .moveCaret 2]
    let after := (run { source := .codeFragment } .never e).editor
    e.IsCompact ∧ after.text = "f();\n".toList
      ∧ after.note? Editor.stampName = none ∧ after.note? "tab" = some (.number 4)
      ∧ after.markers.length = 3 ∧ after.marker? 1 = none
      ∧ ∃ span, after.marker? 2 = some span ∧ span.Fits after.text := by
  intro e after
  have hcompact : e.IsCompact := by decide +kernel
  obtain ⟨hstamp, hnotes, hlength, hslots, hspans⟩ :=
    run_leaves_no_trace { source := .codeFragment } .never e hcompact
  refine ⟨hcompact, by decide +kernel, hstamp, hnotes "tab" (by decide), hlength, ?_, ?_⟩
  · have hfree : (after.marker? 1).isSome = false := hslots 1
    simpa using hfree
  · exact hspans 2 ⟨0, 1⟩ (by decide +kernel) (by decide +kernel)

/-! ## Editors in use -/

/-- The editors that there can be: one with nothing but a text, and what operations and completions
make of an editor that there can be. -/
inductive Reached : Editor → Prop
  | fresh (text : Text) : Reached (.ofText text)
  | worked {e : Editor} (operations : List Operation) (h : Reached e) :
      Reached (e.performAll operations)
  | completed {e : Editor} (settings : Settings) (popup : Popup) (h : Reached e) :
      Reached (run settings popup e).editor

/-- No editor in use has a free slot at the end: neither operations nor
completions leave one there. -/
theorem Reached.isCompact {e : Editor} (h : Reached e) : e.IsCompact := by
  induction h with
  | fresh text => exact Editor.isCompact_ofText text
  | worked operations _ ih => exact ih.performAll operations
  | completed settings popup _ ih => exact isCompact_run settings popup ih

/-- **Whatever has been done to an editor, completions included, the next
completion leaves no trace.** -/
theorem Reached.untraced {e : Editor} (h : Reached e) (settings : Settings) (popup : Popup) :
    Untraced e (run settings popup e).editor :=
  untraced_run settings popup h.isCompact

end Completion

end StatementCompletion
