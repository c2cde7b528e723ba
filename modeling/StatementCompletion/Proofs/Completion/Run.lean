import StatementCompletion.Completion.Run
import StatementCompletion.Proofs.Completion.Pass

/-!
# Completions

A completion does not fail, it keeps the ink of the text, and the number of passes that it may take
decides nothing but whether it is rolled back.
-/

namespace StatementCompletion.Completion

variable {settings : Settings} {popup : Popup} {text : Text} {caret : Nat} {w : Workspace}

/-! ## Taking passes -/

/-- Rolling back does not fail, and puts back the text and the caret. -/
theorem answers_rollBack (w : Workspace) (text : Text) (caret : Nat) :
    Answers w (rollBack text caret) fun _ w' =>
      w'.editor.text = text ∧ w'.editor.caret = text.floorBoundary caret := by
  have hreplaced : Answers w (tryEditor fun e =>
      e.replace { start := 0, stop := e.document.size } text)
      fun _ w' => w'.editor.text = text :=
    .tryEditor (w.editor.replace_all text)
  exact .bind hreplaced fun _ w' htext => .changeEditor ⟨htext, htext ▸ rfl⟩

theorem takePasses_zero (settings : Settings) (popup : Popup) (text : Text) (caret taken : Nat)
    (w : Workspace) :
    ∃ w', (takePasses settings popup text caret 0 taken).run w = ((.rolledBack, taken), w')
      ∧ w'.editor.text = text ∧ w'.editor.caret = text.floorBoundary caret := by
  obtain ⟨_, w', hrun, hback⟩ := answers_rollBack w text caret
  refine ⟨w', ?_, hback⟩
  rw [takePasses, StateT.run_bind, hrun]
  rfl

theorem takePasses_succ (settings : Settings) (popup : Popup) (text : Text) (caret left taken : Nat)
    (w : Workspace) :
    (takePasses settings popup text caret (left + 1) taken).run w =
      match (pass settings popup).run.run w with
      | (.ok (some outcome), w') => ((outcome, taken + 1), w')
      | (.ok none, w') => (takePasses settings popup text caret left (taken + 1)).run w'
      | (.error _, w') => ((.failed, taken + 1), w') := by
  rw [takePasses, StateT.run_bind]
  rcases (pass settings popup).run.run w with ⟨(_ | _ | _), w'⟩ <;> rfl

/-- From a workspace that is sound, passes are taken without failing and keep the ink. -/
theorem Sound.takePasses (h : Sound text [] w) (hcomments : settings.comments.blockStart ≠ some [])
    (popup : Popup) (caret left taken : Nat) :
    ∃ outcome passes w', (takePasses settings popup text caret left taken).run w
        = ((outcome, passes), w')
      ∧ outcome ≠ .failed ∧ List.Sublist text.ink w'.editor.text.ink := by
  induction left generalizing taken w with
  | zero =>
    obtain ⟨w', hrun, htext, -⟩ := takePasses_zero settings popup text caret taken w
    refine ⟨.rolledBack, taken, w', hrun, by simp, ?_⟩
    rw [htext]
  | succ left ih =>
    obtain ⟨answer, w', hrun, hsound, hanswer⟩ := h.pass hcomments popup
    rw [takePasses_succ, hrun]
    cases answer with
    | none => exact ih hsound (taken + 1)
    | some outcome =>
      exact ⟨outcome, taken + 1, w', rfl, fun hfailed => hanswer (by rw [hfailed]),
        hsound.keeps.ink⟩

/-! ## Counting passes -/

/-- A step that, where it answers, answers something with a property. -/
def Ensures {α : Type} (p : Step α) (Q : α → Prop) : Prop :=
  ∀ w a w', p.run.run w = (.ok a, w') → Q a

theorem Ensures.pure {α : Type} {a : α} {Q : α → Prop} (h : Q a) : Ensures (Pure.pure a) Q := by
  rintro w _ _ hrun
  obtain ⟨hok, -⟩ := Prod.mk.inj hrun
  cases hok
  exact h

theorem Ensures.bind {α β : Type} {p : Step α} {f : α → Step β} {Q : β → Prop}
    (h : ∀ a, Ensures (f a) Q) : Ensures (p >>= f) Q := by
  intro w b w'' hrun
  rw [ExceptT.run_bind, StateT.run_bind] at hrun
  rcases hstep : p.run.run w with ⟨failure | a, w'⟩
  · rw [hstep] at hrun
    cases (Prod.mk.inj hrun).1
  · rw [hstep] at hrun
    exact h a w' b w'' hrun

/-- Only running out of passes rolls back. -/
theorem pass_ensures (settings : Settings) (popup : Popup) :
    Ensures (pass settings popup) (· ≠ some .rolledBack) := by
  refine .bind fun _ => .bind fun _ => .bind fun mending => ?_
  cases mending with
  | noTarget => exact .bind fun _ => .pure (by simp)
  | deferred => exact .pure (by simp)
  | edited => exact .bind fun _ => .pure (by simp)
  | complete scope => exact .bind fun _ => .pure (by simp)

theorem takePasses_passes_le (settings : Settings) (popup : Popup) (text : Text)
    (caret left taken : Nat) (w : Workspace) :
    ((takePasses settings popup text caret left taken).run w).1.2 ≤ taken + left := by
  induction left generalizing taken w with
  | zero =>
    obtain ⟨w', hrun, -⟩ := takePasses_zero settings popup text caret taken w
    rw [hrun]
    exact Nat.le_refl _
  | succ left ih =>
    rw [takePasses_succ]
    rcases (pass settings popup).run.run w with ⟨failure | _ | outcome, w'⟩
    · show taken + 1 ≤ _
      omega
    · have hle := ih (taken + 1) w'
      show _ ≤ _
      dsimp only
      omega
    · show taken + 1 ≤ _
      omega

/-- What is rolled back has used up its passes and is what it was. -/
theorem takePasses_rolledBack {left taken : Nat}
    (h : ((takePasses settings popup text caret left taken).run w).1.1 = .rolledBack) :
    ((takePasses settings popup text caret left taken).run w).1.2 = taken + left
      ∧ ((takePasses settings popup text caret left taken).run w).2.editor.text = text
      ∧ ((takePasses settings popup text caret left taken).run w).2.editor.caret
        = text.floorBoundary caret := by
  induction left generalizing taken w with
  | zero =>
    obtain ⟨w', hrun, hback⟩ := takePasses_zero settings popup text caret taken w
    rw [hrun]
    exact ⟨rfl, hback⟩
  | succ left ih =>
    rw [takePasses_succ] at h ⊢
    rcases hrun : (pass settings popup).run.run w with ⟨failure | _ | outcome, w'⟩
    · rw [hrun] at h
      cases h
    · rw [hrun] at h
      obtain ⟨hpasses, hback⟩ := ih h
      refine ⟨?_, hback⟩
      show _ = _
      dsimp only
      omega
    · rw [hrun] at h
      -- a pass that ends the completion does not end it like this
      have hne := pass_ensures settings popup w _ w' hrun
      exact absurd (congrArg some h) hne

/-- What has settled needs no more passes. -/
theorem takePasses_add {left taken : Nat}
    (h : ((takePasses settings popup text caret left taken).run w).1.1 ≠ .rolledBack) (more : Nat) :
    (takePasses settings popup text caret (left + more) taken).run w
      = (takePasses settings popup text caret left taken).run w := by
  induction left generalizing taken w with
  | zero =>
    obtain ⟨w', hrun, -⟩ := takePasses_zero settings popup text caret taken w
    rw [hrun] at h
    exact absurd rfl h
  | succ left ih =>
    rw [Nat.succ_add, takePasses_succ, takePasses_succ]
    rw [takePasses_succ] at h
    rcases hrun : (pass settings popup).run.run w with ⟨failure | _ | outcome, w'⟩
    · rfl
    · rw [hrun] at h
      exact ih h
    · rfl

/-- A pass does not look at how many there may be. -/
theorem takePasses_maxPasses (settings : Settings) (bound : Nat) (popup : Popup) (text : Text)
    (caret left taken : Nat) :
    takePasses { settings with maxPasses := bound } popup text caret left taken
      = takePasses settings popup text caret left taken := by
  induction left generalizing taken with
  | zero => rfl
  | succ left ih =>
    rw [takePasses, takePasses, show pass { settings with maxPasses := bound } popup
      = pass settings popup from rfl]
    simp only [ih]

/-! ## Whole completions -/

/-- The workspace that a completion starts from. -/
def begun (settings : Settings) (e : Editor) : Workspace :=
  { editor := e.beginSession, tree := .ofDocument settings.source e.beginSession.document }

/-- The passes of a completion. -/
def passesOf (settings : Settings) (popup : Popup) (e : Editor) : (Outcome × Nat) × Workspace :=
  (takePasses settings popup e.text e.caret settings.maxPasses 0).run (begun settings e)

/-- A completion is what comes of its passes. -/
theorem run_eq (settings : Settings) (popup : Popup) (e : Editor) :
    run settings popup e =
      { outcome := (passesOf settings popup e).1.1
        passes := (passesOf settings popup e).1.2
        hole? := (passesOf settings popup e).2.holes.first?
        editor := (passesOf settings popup e).2.editor.endSession
        polls := (passesOf settings popup e).2.polls } :=
  rfl

theorem sound_begun (settings : Settings) {e : Editor} (hcaret : e.text.isBoundary e.caret = true) :
    Sound e.text [] (begun settings e) :=
  ⟨Editor.keeps_beginSession hcaret, Snapshot.tracks_ofDocument _ _⟩

theorem isBoundary_moveCaret (e : Editor) (caret : Nat) :
    (e.moveCaret caret).text.isBoundary (e.moveCaret caret).caret = true :=
  Text.isBoundary_floorBoundary caret e.text

/-- **No text is lost.**  Whatever comes of a completion, the text of the user without its white
space is still there, in order, in the text that the completion leaves. -/
theorem run_keeps_ink (settings : Settings) (popup : Popup) (e : Editor) (caret : Nat)
    (hcomments : settings.comments.blockStart ≠ some []) :
    List.Sublist e.text.ink (run settings popup (e.moveCaret caret)).editor.text.ink := by
  obtain ⟨_, _, w, hrun, -, hink⟩ :=
    (sound_begun settings (isBoundary_moveCaret e caret)).takePasses hcomments popup
      (e.moveCaret caret).caret settings.maxPasses 0
  rw [run_eq, passesOf, hrun]
  exact hink

/-- An open call is closed and ended, and nothing of it is lost. -/
theorem run_keeps_ink_of_open_call :
    let settings : Settings := { source := .codeFragment }
    let after := run settings .never ((Editor.ofText ['f', '(']).moveCaret 2)
    settings.comments.blockStart ≠ some [] ∧ after.editor.text = "f();\n".toList
      ∧ List.Sublist (Text.ink ['f', '(']) after.editor.text.ink :=
  ⟨by decide, by decide +kernel, run_keeps_ink _ _ (Editor.ofText ['f', '(']) 2 (by decide)⟩

/-- **A completion does not fail.**  It completes, gives way to a popup or is rolled back. -/
theorem run_succeeds (settings : Settings) (popup : Popup) (e : Editor) (caret : Nat)
    (hcomments : settings.comments.blockStart ≠ some []) :
    let after := run settings popup (e.moveCaret caret)
    after.outcome = .completed ∨ after.outcome = .deferred ∨ after.outcome = .rolledBack := by
  obtain ⟨outcome, _, w, hrun, hfailed, -⟩ :=
    (sound_begun settings (isBoundary_moveCaret e caret)).takePasses hcomments popup
      (e.moveCaret caret).caret settings.maxPasses 0
  simp only [run_eq, passesOf, hrun]
  cases outcome with
  | completed => exact .inl rfl
  | deferred => exact .inr (.inl rfl)
  | rolledBack => exact .inr (.inr rfl)
  | failed => exact absurd rfl hfailed

/-- An open call is closed and ended in three passes, and the caret lands on a new line. -/
theorem run_succeeds_of_open_call :
    let settings : Settings := { source := .codeFragment }
    let after := run settings .never ((Editor.ofText ['f', '(']).moveCaret 2)
    settings.comments.blockStart ≠ some []
      ∧ (after.outcome = .completed ∧ after.passes = 3)
      ∧ (after.editor.text = "f();\n".toList ∧ after.editor.caret = 5)
      ∧ (after.outcome = .completed ∨ after.outcome = .deferred ∨ after.outcome = .rolledBack) :=
  ⟨by decide, by decide +kernel, by decide +kernel,
    run_succeeds _ _ (Editor.ofText ['f', '(']) 2 (by decide)⟩

/-- **The bound on the passes is exact, and a larger one changes nothing that has settled.** -/
theorem run_bound (settings : Settings) (popup : Popup) (e : Editor) (caret : Nat) :
    let before := e.moveCaret caret
    let after := run settings popup before
    after.passes ≤ settings.maxPasses
      ∧ (after.outcome = .rolledBack →
        after.passes = settings.maxPasses ∧ after.editor.text = before.text
          ∧ after.editor.caret = before.caret)
      ∧ (after.outcome ≠ .rolledBack → ∀ bound, settings.maxPasses ≤ bound →
        run { settings with maxPasses := bound } popup before = after) := by
  intro before after
  refine ⟨?_, fun hrolled => ?_, fun hsettled bound hbound => ?_⟩
  · have hle := takePasses_passes_le settings popup before.text before.caret settings.maxPasses 0
      (begun settings before)
    rwa [Nat.zero_add] at hle
  · obtain ⟨hpasses, htext, hcaret⟩ := takePasses_rolledBack hrolled
    rw [Nat.zero_add] at hpasses
    refine ⟨hpasses, htext, hcaret.trans ?_⟩
    exact Text.floorBoundary_of_isBoundary (isBoundary_moveCaret e caret)
  · obtain ⟨more, rfl⟩ := Nat.exists_eq_add_of_le hbound
    have hmore : passesOf { settings with maxPasses := settings.maxPasses + more } popup before
        = passesOf settings popup before := by
      unfold passesOf
      rw [takePasses_maxPasses]
      exact takePasses_add hsettled more
    rw [run_eq, hmore]
    rfl

/-- A lone name takes two passes: one is rolled back, and more than two change nothing. -/
theorem run_bound_of_name :
    (run { source := .codeFragment, maxPasses := 1 } .never
        ((Editor.ofText ['f']).moveCaret 1)).editor.text = ['f']
      ∧ ∀ bound, 2 ≤ bound →
        run { source := .codeFragment, maxPasses := bound } .never
          ((Editor.ofText ['f']).moveCaret 1)
          = run { source := .codeFragment, maxPasses := 2 } .never
            ((Editor.ofText ['f']).moveCaret 1) := by
  constructor
  · have hrolled : (run { source := .codeFragment, maxPasses := 1 } .never
        ((Editor.ofText ['f']).moveCaret 1)).outcome = .rolledBack := by decide +kernel
    exact ((run_bound _ _ _ _).2.1 hrolled).2.1
  · have hsettled : (run { source := .codeFragment, maxPasses := 2 } .never
        ((Editor.ofText ['f']).moveCaret 1)).outcome ≠ .rolledBack := by decide +kernel
    exact (run_bound { source := .codeFragment, maxPasses := 2 } _ _ _).2.2 hsettled

end StatementCompletion.Completion
