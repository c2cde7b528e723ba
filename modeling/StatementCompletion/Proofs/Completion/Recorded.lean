import StatementCompletion.Proofs.Completion.Hole
import StatementCompletion.Proofs.Completion.Polls
import StatementCompletion.Proofs.Repair.Recording

/-!
# The hole of a pass that edits

The remedies of a pass look at the tree of the text as it was, until one of them edits the text.
What they record up to then are places in the text as it was, and nothing carries them along with
the edit, as it carries the caret and the markers.  So the next pass goes to where the first hole
was, which is where it is now if and only if the edit is not in front of it.
-/

namespace StatementCompletion.Completion

open StatementCompletion.Action (recorded)

variable {d : Document} {edit : TextEdit} {attempts : List (Cursor × Remedy)}
    {early late : List Nat}
  {settings : Settings} {popup : Popup} {w w' : Workspace} {original : Text} {slots : List Nat}
  {o : Nat}

/-! ## The first edit -/

/-- The first edit among trials over a document, with the holes recorded in front of it and the
holes that the same remedy records behind it. -/
inductive FirstEdit (d : Document) (edit : TextEdit) :
    List (Cursor × Remedy) → List Nat → List Nat → Prop where
  | here {c : Cursor} {remedy : Remedy} {rest : List (Cursor × Remedy)} {front back : List Action}
      (hactions : remedy.actions d c = .ok (front ++ .replace edit :: back))
      (hfront : Action.edits front = []) (hback : Action.edits back = []) (hgrows : edit.Grows) :
      FirstEdit d edit ((c, remedy) :: rest) (recorded front) (recorded back)
  | later {c : Cursor} {remedy : Remedy} {rest : List (Cursor × Remedy)} {actions : List Action}
      {early late : List Nat} (hactions : remedy.actions d c = .ok actions)
      (hnone : Action.edits actions = []) (hrest : FirstEdit d edit rest early late) :
      FirstEdit d edit ((c, remedy) :: rest) (recorded actions ++ early) late

theorem FirstEdit.grows (h : FirstEdit d edit attempts early late) : edit.Grows := by
  induction h with
  | here _ _ _ hgrows => exact hgrows
  | later _ _ _ ih => exact ih

/-- The first edit among trials is one that mends the text. -/
theorem FirstEdit.mends {tree : Node}
    (h : FirstEdit d edit attempts early late) (htree : Node.IsTreeOf d.text tree)
    (hbelow : ∀ trial ∈ attempts, Cursor.Below (.root tree) trial.1) :
    Action.Mends tree d.text [edit] := by
  induction h with
  | @here c remedy rest front back hactions hfront hback _ =>
    obtain ⟨answer, hanswer, hmends⟩ :=
      remedy.succeeds_actions_mends htree (hbelow _ List.mem_cons_self)
    obtain rfl := Except.ok.inj (hanswer.symm.trans hactions)
    rw [Action.edits] at hmends hfront hback
    rwa [List.filterMap_append, hfront, List.nil_append, List.filterMap_cons, hback] at hmends
  | later _ _ _ ih => exact ih fun trial htrial => hbelow trial (List.mem_cons_of_mem _ htrial)

/-- What applying a remedy makes of a workspace. -/
theorem run_applyRemedy (c : Cursor) (remedy : Remedy) (w : Workspace) :
    (applyRemedy c remedy).run.run w =
      match remedy.apply c w.editor w.holes with
      | .ok (editor, holes) => (.ok (), { w with editor, holes })
      | .error reason => (.error (.refusedEdit reason), w) := by
  unfold applyRemedy
  rw [run_get_bind]
  rcases remedy.apply c w.editor w.holes with reason | ⟨editor, holes⟩ <;> rfl

/-- A trial that a popup does not cut short carries out what the remedy answers, and ends the
mending if that has edited the text. -/
theorem exists_of_tryRemedy {c : Cursor} {remedy : Remedy} {ending : Option Mending}
    (hending : ending ≠ some .deferred)
    (h : (tryRemedy popup c remedy).run.run w = (.ok ending, w')) :
    ∃ actions, remedy.actions w.editor.document c = .ok actions
      ∧ Action.applyAll w.editor w.holes actions = .ok (w'.editor, w'.holes)
      ∧ w'.tree = w.tree
      ∧ ending = if w.tree.isCurrent w'.editor.document then none else some .edited := by
  rw [run_tryRemedy, run_applyRemedy] at h
  split_ifs at h with hshows
  · cases h
    exact absurd rfl hending
  · rcases happly : remedy.apply c w.polled.editor w.polled.holes with reason | ⟨editor, holes⟩
    · rw [happly] at h
      cases h
    · obtain ⟨actions, hactions, hrun⟩ := exists_of_bind_ok happly
      rw [happly] at h
      dsimp only at h
      split_ifs at h with hshows hcurrent
      · cases h
        exact absurd rfl hending
      · cases h
        exact ⟨actions, hactions, hrun, rfl, (if_pos hcurrent).symm⟩
      · cases h
        exact ⟨actions, hactions, hrun, rfl, (if_neg hcurrent).symm⟩

/-- A trial records the holes of its remedy.  It leaves the document as it is and goes on, or it
makes the one edit of the remedy, which ends the mending. -/
theorem trial_cases {c : Cursor} {remedy : Remedy} {ending : Option Mending}
    (hc : c.Within w.editor.text)
    (hcurrent : w.tree.isCurrent w.editor.document = true) (hending : ending ≠ some .deferred)
    (h : (tryRemedy popup c remedy).run.run w = (.ok ending, w')) :
    ∃ actions, remedy.actions w.editor.document c = .ok actions
      ∧ w'.holes = w.holes.recordAll (recorded actions) ∧ w'.tree = w.tree
      ∧ ((Action.edits actions = [] ∧ w'.editor.document = w.editor.document ∧ ending = none)
        ∨ ∃ edit, Action.edits actions = [edit] ∧ edit.Grows
          ∧ w.editor.document.replace edit.span edit.text = .ok w'.editor.document
          ∧ ending = some .edited) := by
  obtain ⟨actions, hactions, hrun, htree, hends⟩ := exists_of_tryRemedy hending h
  obtain ⟨answer, hanswer, hgrows⟩ := remedy.succeeds_actions_growsOnce (d := w.editor.document) hc
  obtain rfl := Except.ok.inj (hanswer.symm.trans hactions)
  refine ⟨_, hactions, Action.holes_applyAll hrun, htree, ?_⟩
  rcases hgrows with hnone | ⟨edit, hedits, hgrows⟩
  · -- the text is what it was
    have hdocument := Action.document_applyAll_of_edits_eq_nil hnone hrun
    rw [hdocument, hcurrent, if_pos rfl] at hends
    exact .inl ⟨hnone, hdocument, hends⟩
  · -- the tree is out of date
    have hstamp := Action.stamp_applyAll_of_grows hedits hgrows hrun
    have hstale : w.tree.isCurrent w'.editor.document = false := by
      have hsame : w.tree.stamp = w.editor.document.stamp := of_decide_eq_true hcurrent
      refine decide_eq_false ?_
      omega
    rw [hstale, if_neg Bool.false_ne_true] at hends
    exact .inr ⟨edit, hedits, hgrows, Action.document_applyAll hedits hrun, hends⟩

/-- Trials that end with an edit end with the first one among them. -/
theorem exists_firstEdit_of_tryAll (hwithin : ∀ trial ∈ attempts, trial.1.Within w.editor.text)
    (hcurrent : w.tree.isCurrent w.editor.document = true)
    (h : (tryAll popup attempts).run.run w = (.ok (some .edited), w')) :
    ∃ edit early late, FirstEdit w.editor.document edit attempts early late
      ∧ w.editor.document.replace edit.span edit.text = .ok w'.editor.document
      ∧ w'.holes = w.holes.recordAll (early ++ late) := by
  induction attempts generalizing w with
  | nil => cases h
  | cons trial rest ih =>
    obtain ⟨c, remedy⟩ := trial
    obtain ⟨hc, hrest⟩ := List.forall_mem_cons.1 hwithin
    rw [tryAll, run_bind] at h
    rcases htry : (tryRemedy popup c remedy).run.run w with ⟨failure | ending, w₁⟩
    · rw [htry] at h
      cases h
    rw [htry] at h
    dsimp only at h
    have hending : ending ≠ some .deferred := by
      rintro rfl
      cases h
    obtain ⟨actions, hactions, hholes, htree, ⟨hnone, hdocument, rfl⟩
      | ⟨edit, hedits, hgrows, hreplace, rfl⟩⟩ :=
      trial_cases hc hcurrent hending htry
    · -- the other attempts follow
      obtain ⟨edit, early, late, hfirst, hreplace, hmore⟩ := ih
        (w := w₁) (by rwa [Editor.text, hdocument]) (by rwa [htree, hdocument]) h
      rw [hdocument] at hfirst hreplace
      refine ⟨edit, _, late, .later hactions hnone hfirst, hreplace, ?_⟩
      rw [hmore, hholes, List.append_assoc, Holes.recordAll_append w.holes]
    · -- this is the first edit
      cases h
      obtain ⟨front, back, rfl, hfront, hback⟩ := Action.exists_around_edit hedits
      refine ⟨edit, _, _, .here hactions hfront hback hgrows, hreplace, ?_⟩
      rw [hholes, Action.recorded, List.filterMap_append]
      rfl

/-- Mending that edits the text makes the first edit among the trials at the target. -/
theorem exists_firstEdit_of_mend (h : Current original slots w)
    (hmend : (mend popup).run.run w = (.ok .edited, w')) :
    ∃ target edit early late, Target.atCaret? w.tree w.editor.text w.editor.caret = some target
      ∧ FirstEdit w.editor.document edit (trials target) early late
      ∧ w.editor.document.replace edit.span edit.text = .ok w'.editor.document
      ∧ w'.holes = w.holes.recordAll (early ++ late) := by
  rcases mend_cases hmend with ⟨hnone, -⟩ | ⟨target, htarget, htry | ⟨-, hcomplete⟩⟩
  · cases hnone
  · obtain ⟨edit, early, late, hfirst, hreplace, hholes⟩ :=
      exists_firstEdit_of_tryAll (h.within_of_mem_trials htarget) h.isCurrent htry
    exact ⟨target, edit, early, late, htarget, hfirst, hreplace, hholes⟩
  · cases hcomplete

/-! ## Where the next pass goes -/

/-- Getting to where mending begins leaves the text as it is. -/
theorem document_readied (w : Workspace) : (readied w).editor.document = w.editor.document := by
  have hgoes (w : Workspace) : (goToHole.run.run w).2.editor.document = w.editor.document := by
    unfold goToHole
    rw [run_look_bind]
    cases w.holes.first? <;> rfl
  exact hgoes _

/-- A pass goes to the hole of the one before. -/
theorem caret_readied (hhole : w.holes.first? = some o) :
    (readied w).editor.caret = w.editor.text.floorBoundary o := by
  have hgoes (w : Workspace) (hhole : w.holes.first? = some o) :
      (goToHole.run.run w).2.editor.caret = w.editor.text.floorBoundary o := by
    unfold goToHole
    rw [run_look_bind, hhole]
    rfl
  exact hgoes _ hhole

theorem Sound.readied (h : Sound original slots w) : Current original slots (readied w) := by
  obtain ⟨_, w₁, hrenew, hcurrent, -⟩ := h.renewTree
  obtain ⟨_, w₂, hgoes, hready⟩ := hcurrent.goToHole
  rw [Completion.readied, hrenew, hgoes]
  exact hready

/-- A pass that is followed by another one has edited the text and then stepped into an
empty block, if there was one. -/
theorem of_pass_none (hpass : (pass settings popup).run.run w = (.ok none, w')) :
    ∃ w₁, (mend popup).run.run (readied w) = (.ok .edited, w₁)
      ∧ (stepIntoBlock settings.style).run.run w₁ = (.ok (), w') := by
  -- the other ways in which mending ends are followed by an outcome
  have hends {p : Step Unit} {w : Workspace} {answer : Option Outcome}
      (hrun : (p >>= fun _ => pure answer).run.run w = (.ok none, w')) :
      answer = none ∧ p.run.run w = (.ok (), w') := by
    rw [run_bind] at hrun
    rcases hstep : p.run.run w with ⟨failure | ⟨⟩, w₂⟩
    · rw [hstep] at hrun
      cases hrun
    · rw [hstep] at hrun
      cases hrun
      exact ⟨rfl, rfl⟩
  unfold pass at hpass
  rw [run_ready_bind, run_bind] at hpass
  rcases hmend : (mend popup).run.run (readied w) with ⟨failure | mending, w₁⟩
  · rw [hmend] at hpass
    cases hpass
  rw [hmend] at hpass
  cases mending with
  | noTarget => cases (hends hpass).1
  | deferred => cases hpass
  | complete scope => cases (hends hpass).1
  | edited => exact ⟨w₁, rfl, (hends hpass).2⟩

/-- **A pass that edits the text reports the first hole where it was.**  The holes that it records
in front of the edit are places in the text as it was.  If the first of all is one of them, it is
what the pass reports and where the next one begins, and that is where the edit carries it if and
only if it is not behind the start of the edit. -/
theorem pass_hole_of_edited (h : Sound original slots w)
    (hpass : (pass settings popup).run.run w = (.ok none, w')) :
    ∃ w₁ target edit early late,
      (mend popup).run.run (readied w) = (.ok .edited, w₁)
        ∧ Target.atCaret? (readied w).tree w.editor.text (readied w).editor.caret = some target
        ∧ FirstEdit w.editor.document edit (trials target) early late
        ∧ w.editor.document.replace edit.span edit.text = .ok w₁.editor.document
        ∧ ∀ o ∈ early, (∀ other ∈ early ++ late, o ≤ other) →
          w'.holes.first? = some o
            ∧ (readied w').editor.caret = w'.editor.text.floorBoundary o
            ∧ (edit.span.carry edit.text.size o = o ↔ o ≤ edit.span.start) := by
  have hready := h.readied
  obtain ⟨w₁, hmend, hstep⟩ := of_pass_none hpass
  have hholes : w'.holes = w₁.holes := by
    have hleaves := Leaves.stepIntoBlock isApart_holes (w := w₁) settings.style
    rwa [Leaves, hstep] at hleaves
  obtain ⟨target, edit, early, late, htarget, hfirst, hreplace, hrecorded⟩ :=
    exists_firstEdit_of_mend hready hmend
  rw [Editor.text, document_readied] at htarget
  rw [document_readied] at hfirst hreplace
  refine ⟨w₁, target, edit, early, late, hmend, htarget, hfirst, hreplace, fun o hmem hleast => ?_⟩
  have hhole : w'.holes.first? = some o := by
    rw [hholes, hrecorded]
    refine Holes.first?_recordAll (List.mem_append_left _ hmem) hleast fun first hmore => ?_
    rw [first?_readied] at hmore
    cases hmore
  exact ⟨hhole, caret_readied hhole, hfirst.grows.carry_eq_self_iff⟩

/-- The hole of the call is behind the closing quote, and is reported where it was. -/
example :
    let e := (Editor.ofText "\"a\n+f(b,)".toList).moveCaret 1
    let w := ((mend .never).run.run (begun { source := .codeFragment } e)).2
    let beforeHole : Text := "\"a\"\n+f(b,".toList
    w.editor.text = beforeHole ++ [')'] ∧ beforeHole.size = 9 ∧ w.holes.first? = some 8 := by
  decide +kernel

end StatementCompletion.Completion
