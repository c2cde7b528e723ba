import StatementCompletion.Proofs.Completion.Run

/-!
# What a step leaves as it is

Most steps of a completion change the editor and the tree at most.  Whatever does not depend
on these two is then as it was, whether the step answers or fails: the holes recorded so
far, and the number of the polls.
-/

namespace StatementCompletion.Completion

/-! ## Running steps -/

/-- Steps in sequence. -/
theorem run_bind {α β : Type} (p : Step α) (f : α → Step β) (w : Workspace) :
    (p >>= f).run.run w =
      match p.run.run w with
      | (.ok a, w') => (f a).run.run w'
      | (.error failure, w') => (.error failure, w') := by
  rw [ExceptT.run_bind, StateT.run_bind]
  rcases p.run.run w with ⟨(_ | _), w'⟩ <;> rfl

theorem run_get_bind {α : Type} (g : Workspace → Step α) (w : Workspace) :
    (get >>= g).run.run w = (g w).run.run w :=
  rfl

theorem run_look_bind {α β : Type} (f : Workspace → α) (g : α → Step β) (w : Workspace) :
    (look f >>= g).run.run w = (g (f w)).run.run w :=
  rfl

/-- Where mending begins in a pass. -/
def readied (w : Workspace) : Workspace :=
  (goToHole.run.run (renewTree.run.run w).2).2

/-- A pass always gets to where mending begins. -/
theorem run_ready_bind {α : Type} (f : Step α) (w : Workspace) :
    (do renewTree; goToHole; f : Step α).run.run w = f.run.run (readied w) := by
  have hgoes (w : Workspace) : (goToHole >>= fun _ => f).run.run w
      = f.run.run (goToHole.run.run w).2 := by
    unfold goToHole
    rw [run_bind, run_look_bind]
    cases w.holes.first? <;> rfl
  exact hgoes (renewTree.run.run w).2

/-! ## Leaving something as it is -/

/-- What is seen of a workspace depends neither on the editor nor on the tree. -/
def IsApart {γ : Type} (f : Workspace → γ) : Prop :=
  ∀ (w : Workspace) (editor : Editor) (tree : Snapshot), f { w with editor, tree } = f w

/-- A step leaves what is seen of the workspace as it is. -/
def Leaves {α γ : Type} (f : Workspace → γ) (p : Step α) (w : Workspace) : Prop :=
  f (p.run.run w).2 = f w

theorem isApart_holes : IsApart (·.holes) :=
  fun _ _ _ => rfl

theorem isApart_polls : IsApart (·.polls) :=
  fun _ _ _ => rfl

namespace Leaves

variable {α β γ : Type} {f : Workspace → γ} {p : Step α} {w w' : Workspace}

/-! ### Composing -/

theorem pure (a : α) : Leaves f (Pure.pure a) w :=
  rfl

theorem throw (failure : Failure) : Leaves f (throw failure : Step α) w :=
  rfl

/-- What the second step leaves as it is, is what the first one has made of it. -/
theorem eq_bind {g : α → Step β} (hg : ∀ a w', Leaves f (g a) w') :
    f ((p >>= g).run.run w).2 = f (p.run.run w).2 := by
  rw [run_bind]
  rcases p.run.run w with ⟨failure | a, w'⟩
  · rfl
  · exact hg a w'

theorem bind {g : α → Step β} (hp : Leaves f p w) (hg : ∀ a w', Leaves f (g a) w') :
    Leaves f (p >>= g) w :=
  (eq_bind hg).trans hp

theorem get_bind {g : Workspace → Step α} (h : Leaves f (g w) w) : Leaves f (get >>= g) w :=
  h

theorem look_bind {g : Workspace → β} {k : β → Step α} (h : Leaves f (k (g w)) w) :
    Leaves f (look g >>= k) w :=
  h

theorem set (h : f w' = f w) : Leaves f (MonadStateOf.set w' : Step PUnit) w :=
  h

theorem modify {g : Workspace → Workspace} (h : f (g w) = f w) :
    Leaves f (modify g : Step PUnit) w :=
  h

theorem orFail (answer : Except Failure α) : Leaves f (orFail answer) w := by
  cases answer with
  | ok a => exact pure a
  | error failure => exact throw failure

/-! ### Steps that change the editor and the tree at most -/

section

variable (hf : IsApart f)
include hf

theorem changeEditor (g : Editor → Editor) : Leaves f (changeEditor g) w :=
  modify (hf w _ _)

theorem tryEditor (g : Editor → Except EditError Editor) : Leaves f (tryEditor g) w := by
  refine get_bind ?_
  split
  · exact set (hf w _ _)
  · exact throw _

theorem applyEdits (edits : List TextEdit) : Leaves f (applyEdits edits) w := by
  refine get_bind (bind (set (hf w _ _)) fun _ w' => ?_)
  split
  · exact pure _
  · exact throw _

theorem withMarker {step : Nat → Step α} (span : Span) (h : ∀ slot w', Leaves f (step slot) w') :
    Leaves f (withMarker span step) w := by
  refine get_bind (bind (set (hf w _ _)) fun _ w' => bind ?_ fun result w'' => ?_)
  · unfold Leaves
    rw [ExceptT.run_lift, StateT.run_map]
    exact h _ w'
  · exact bind (changeEditor hf _) fun _ _ => orFail result

theorem renewTree : Leaves f renewTree w :=
  modify (hf w _ _)

theorem layOut (style : CodeStyle) (span : Span) : Leaves f (layOut style span) w :=
  look_bind (applyEdits hf _)

theorem stepIntoBlock (style : CodeStyle) : Leaves f (stepIntoBlock style) w := by
  refine look_bind ?_
  split
  · exact pure _
  · refine bind (renewTree hf) fun _ w' => look_bind ?_
    split
    · exact throw _
    · exact bind (changeEditor hf _) fun _ _ => layOut hf _ _

theorem landByRule (settings : Settings) (span : Span) (kind : Kind) :
    Leaves f (landByRule settings span kind) w := by
  refine get_bind ?_
  split
  · exact pure _
  · split
    · exact bind (set (hf w _ _)) fun _ _ => pure _
    · exact pure _
    · exact throw _

omit hf in
theorem markedSpan (slot : Nat) : Leaves f (markedSpan slot) w := by
  refine look_bind ?_
  split
  · exact pure _
  · exact throw _

theorem landPlainly (settings : Settings) (kind : Kind) (slot : Nat) :
    Leaves f (landPlainly settings kind slot) w := by
  refine look_bind (bind (orFail _) fun isModified w' => ?_)
  split
  · exact bind (markedSpan slot) fun _ _ => changeEditor hf _
  · exact tryEditor hf _

theorem land (settings : Settings) (scope : Scope) (slot : Nat) :
    Leaves f (land settings scope slot) w := by
  refine look_bind ?_
  split
  · exact bind (changeEditor hf _) fun _ _ => layOut hf _ _
  · refine bind (layOut hf _ _) fun _ _ => bind (renewTree hf) fun _ _ => ?_
    refine bind (markedSpan slot) fun span _ => bind (landByRule hf _ _ _) fun byRule _ => ?_
    split
    · exact pure _
    · exact landPlainly hf _ _ _

theorem landWithoutTarget (settings : Settings) : Leaves f (landWithoutTarget settings) w := by
  refine get_bind ?_
  split
  · exact set (hf w _ _)
  · exact tryEditor hf _
  · exact throw _

theorem rollBack (text : Text) (caret : Nat) : Leaves f (rollBack text caret) w :=
  bind (tryEditor hf _) fun _ _ => changeEditor hf _

end

/-! ### Steps that change the holes -/

theorem goToHole : Leaves (·.polls) goToHole w := by
  refine look_bind ?_
  split
  · exact bind (modify rfl) fun _ _ => changeEditor isApart_polls _
  · exact pure _

theorem applyRemedy (c : Cursor) (remedy : Remedy) : Leaves (·.polls) (applyRemedy c remedy) w := by
  refine get_bind ?_
  split
  · exact set rfl
  · exact throw _

end Leaves

end StatementCompletion.Completion
