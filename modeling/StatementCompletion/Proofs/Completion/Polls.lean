import StatementCompletion.Proofs.Completion.Leaves

/-!
# Giving way to a popup

A completion that a popup interrupts is the beginning of the completion without popups.  We follow
the latter and note the workspace at each of its polls; a popup then ends the completion at the
first of these where it shows, and leaves the workspace as it was noted.  One that shows at none of
them makes no difference.
-/

namespace StatementCompletion.Completion

/-! ## The polls of a completion without popups -/

/-- The workspace at a poll, which is counted. -/
def Workspace.polled (w : Workspace) : Workspace :=
  { w with polls := w.polls + 1 }

/-- The polls before and after a remedy.  One that fails is not followed by a poll. -/
def pollsOfTrial (c : Cursor) (remedy : Remedy) (w : Workspace) : List Workspace :=
  match (applyRemedy c remedy).run.run w.polled with
  | (.ok _, w') => [w.polled, w'.polled]
  | (.error _, _) => [w.polled]

/-- The polls while remedies are tried in turn. -/
def pollsOfTrials : List (Cursor × Remedy) → Workspace → List Workspace
  | [], _ => []
  | (c, remedy) :: rest, w =>
    pollsOfTrial c remedy w ++
      match (tryRemedy .never c remedy).run.run w with
      | (.ok none, w') => pollsOfTrials rest w'
      | _ => []

/-- The polls while the target at the caret is mended. -/
def pollsOfMending (w : Workspace) : List Workspace :=
  match Target.atCaret? w.tree w.editor.text w.editor.caret with
  | none => []
  | some target => pollsOfTrials (trials target) w

/-- The polls of a pass. -/
def pollsOfPass (w : Workspace) : List Workspace :=
  pollsOfMending (readied w)

/-- The polls of a number of passes, each with the passes taken by then. -/
def pollsOfPasses (settings : Settings) : Nat → Nat → Workspace → List (Nat × Workspace)
  | 0, _, _ => []
  | left + 1, taken, w =>
    (pollsOfPass w).map (Prod.mk (taken + 1)) ++
      match (pass settings .never).run.run w with
      | (.ok none, w') => pollsOfPasses settings left (taken + 1) w'
      | _ => []

/-- The polls of a completion. -/
def pollsOf (settings : Settings) (e : Editor) : List (Nat × Workspace) :=
  pollsOfPasses settings settings.maxPasses 0 (begun settings e)

/-! ## Cutting short -/

/-- What comes of a computation that is given up at the first of its polls where a popup shows. -/
def cut {α : Type} (popup : Popup) (polls : List Workspace) (givenUp : α) (whole : α × Workspace) :
    α × Workspace :=
  match polls.find? fun w => popup w.polls with
  | some w => (givenUp, w)
  | none => whole

section Cut

variable {α : Type} {popup : Popup} {w : Workspace} {polls polls' : List Workspace} {givenUp : α}
  {whole : α × Workspace}

theorem cut_nil : cut popup [] givenUp whole = whole :=
  rfl

theorem cut_cons : cut popup (w :: polls) givenUp whole =
    if popup w.polls then (givenUp, w) else cut popup polls givenUp whole := by
  unfold cut
  rw [List.find?_cons]
  cases popup w.polls <;> rfl

theorem cut_append : cut popup (polls ++ polls') givenUp whole =
    cut popup polls givenUp (cut popup polls' givenUp whole) := by
  unfold cut
  rw [List.find?_append]
  cases polls.find? fun w => popup w.polls <;> rfl

end Cut

/-! ## A popup cuts every part of a completion short -/

/-- A step that hands on what comes of another one is cut short with it. -/
theorem bind_eq_cut {α β : Type} {popup : Popup} {p p' : Step α} {f : α → Step β} {w w' : Workspace}
    {polls : List Workspace} {a : α} {b : β}
    (hp : p.run.run w = cut popup polls (.ok a) (p'.run.run w'))
    (ha : ∀ w, (f a).run.run w = (.ok b, w)) :
    (p >>= f).run.run w = cut popup polls (.ok b) ((p' >>= f).run.run w') := by
  rw [run_bind, run_bind, hp]
  unfold cut
  cases polls.find? fun w => popup w.polls with
  | some w'' => exact ha w''
  | none => rfl

section

variable (settings : Settings) (popup : Popup) (w : Workspace)

/-- What comes of a remedy and the two polls around it. -/
theorem run_tryRemedy (c : Cursor) (remedy : Remedy) :
    (tryRemedy popup c remedy).run.run w =
      if popup w.polled.polls then (.ok (some .deferred), w.polled)
      else match (applyRemedy c remedy).run.run w.polled with
        | (.error failure, w') => (.error failure, w')
        | (.ok _, w') =>
          if popup w'.polled.polls then (.ok (some .deferred), w'.polled)
          else if w'.tree.isCurrent w'.editor.document then (.ok none, w'.polled)
          else (.ok (some .edited), w'.polled) := by
  unfold tryRemedy
  rw [run_bind]
  change StateT.run (ExceptT.run (if popup w.polled.polls then _ else _)) w.polled = _
  split
  · rfl
  · rw [run_bind]
    rcases (applyRemedy c remedy).run.run w.polled with ⟨failure | ⟨⟩, w'⟩
    · rfl
    · dsimp only
      rw [run_bind]
      change StateT.run (ExceptT.run (if popup w'.polled.polls then _ else _)) w'.polled = _
      split
      · rfl
      · rw [run_bind]
        change StateT.run (ExceptT.run (if w'.tree.isCurrent w'.editor.document then _ else _))
          w'.polled = _
        split <;> rfl

theorem tryRemedy_eq_cut (c : Cursor) (remedy : Remedy) :
    (tryRemedy popup c remedy).run.run w =
      cut popup (pollsOfTrial c remedy w) (.ok (some .deferred))
        ((tryRemedy .never c remedy).run.run w) := by
  rw [run_tryRemedy, run_tryRemedy .never]
  unfold pollsOfTrial
  rcases (applyRemedy c remedy).run.run w.polled with ⟨failure | ⟨⟩, w'⟩
  · rw [cut_cons, cut_nil]
    rfl
  · rw [cut_cons, cut_cons, cut_nil]
    rfl

theorem tryAll_eq_cut (trials : List (Cursor × Remedy)) :
    (tryAll popup trials).run.run w =
      cut popup (pollsOfTrials trials w) (.ok (some .deferred))
        ((tryAll .never trials).run.run w) := by
  induction trials generalizing w with
  | nil => rfl
  | cons trial rest ih =>
    obtain ⟨c, remedy⟩ := trial
    rw [tryAll, tryAll, run_bind, run_bind, tryRemedy_eq_cut, pollsOfTrials, cut_append]
    -- at a poll of the first trial, after which the others are not tried, or at one of the others
    rcases hpolls : (pollsOfTrial c remedy w).find? fun w => popup w.polls with _ | w'
    · unfold cut
      rw [hpolls]
      rcases (tryRemedy .never c remedy).run.run w with ⟨failure | _ | ending, w'⟩
      · rfl
      · exact ih w'
      · rfl
    · unfold cut
      rw [hpolls]
      rfl

theorem mend_eq_cut :
    (mend popup).run.run w =
      cut popup (pollsOfMending w) (.ok .deferred) ((mend .never).run.run w) := by
  unfold mend pollsOfMending
  rw [run_look_bind, run_look_bind]
  cases Target.atCaret? w.tree w.editor.text w.editor.caret with
  | none => rfl
  | some target => exact bind_eq_cut (tryAll_eq_cut popup w (trials target)) fun _ => rfl

theorem pass_eq_cut :
    (pass settings popup).run.run w =
      cut popup (pollsOfPass w) (.ok (some .deferred)) ((pass settings .never).run.run w) := by
  unfold pass
  rw [run_ready_bind, run_ready_bind]
  exact bind_eq_cut (mend_eq_cut popup (readied w)) fun _ => rfl

/-- Passes that a popup interrupts end at the first of their polls where it shows. -/
theorem takePasses_eq_cut (text : Text) (caret left taken : Nat) :
    (takePasses settings popup text caret left taken).run w =
      match (pollsOfPasses settings left taken w).find? fun poll => popup poll.2.polls with
      | some (passes, w') => ((.deferred, passes), w')
      | none => (takePasses settings .never text caret left taken).run w := by
  induction left generalizing taken w with
  | zero => rfl
  | succ left ih =>
    rw [takePasses_succ, takePasses_succ, pollsOfPasses, List.find?_append, List.find?_map,
      pass_eq_cut]
    unfold cut
    rw [show (fun poll : Nat × Workspace => popup poll.2.polls) ∘ Prod.mk (taken + 1)
      = fun w => popup w.polls from rfl]
    cases (pollsOfPass w).find? fun w => popup w.polls with
    | some w' => rfl
    | none =>
      rcases (pass settings .never).run.run w with ⟨failure | _ | outcome, w'⟩
      · rfl
      · exact ih w' (taken + 1)
      · rfl

/-- A completion that a popup interrupts ends at the first of its polls where the popup shows. -/
theorem run_eq_cut (e : Editor) :
    run settings popup e =
      match (pollsOf settings e).find? fun poll => popup poll.2.polls with
      | some (passes, w) =>
        { outcome := .deferred, passes, hole? := w.holes.first?, editor := w.editor.endSession,
          polls := w.polls }
      | none => run settings .never e := by
  rw [run_eq, run_eq, passesOf, takePasses_eq_cut, ← pollsOf, ← passesOf]
  cases (pollsOf settings e).find? fun poll => popup poll.2.polls <;> rfl

end

/-! ## The polls are numbered -/

/-- The numbers of the polls between two workspaces. -/
def Numbers (numbers : List Nat) (w w' : Workspace) : Prop :=
  numbers = List.range' (w.polls + 1) numbers.length ∧ w'.polls = w.polls + numbers.length

namespace Numbers

variable {numbers numbers' : List Nat} {w w' w'' : Workspace}

theorem nil (h : w'.polls = w.polls) : Numbers [] w w' :=
  ⟨rfl, h⟩

theorem append (h : Numbers numbers w w') (h' : Numbers numbers' w' w'') :
    Numbers (numbers ++ numbers') w w'' := by
  constructor
  · rw [List.length_append, ← List.range'_append_1, ← h.1, Nat.add_right_comm, ← h.2, ← h'.1]
  · rw [List.length_append, h'.2, h.2, Nat.add_assoc]

/-- The numbers are about the polls counted by then only. -/
theorem of_eq (h : Numbers numbers w w') (hpolls : w''.polls = w'.polls) : Numbers numbers w w'' :=
  ⟨h.1, hpolls.trans h.2⟩

theorem from_eq (h : Numbers numbers w' w'') (hpolls : w'.polls = w.polls) :
    Numbers numbers w w'' := by
  unfold Numbers at h ⊢
  rwa [hpolls] at h

end Numbers

section

variable (settings : Settings) (w : Workspace)

theorem numbers_polled : Numbers [w.polled.polls] w w.polled :=
  ⟨rfl, rfl⟩

theorem numbers_trial (c : Cursor) (remedy : Remedy) :
    Numbers ((pollsOfTrial c remedy w).map (·.polls)) w
      ((tryRemedy .never c remedy).run.run w).2 := by
  have happlied := (numbers_polled w).of_eq (Leaves.applyRemedy c remedy)
  rw [run_tryRemedy]
  unfold pollsOfTrial
  rcases hrun : (applyRemedy c remedy).run.run w.polled with ⟨failure | ⟨⟩, w'⟩
  · rw [hrun] at happlied
    exact happlied
  · rw [hrun] at happlied
    have hpolled := happlied.append (numbers_polled w')
    dsimp only [Popup.never]
    simp only [Bool.false_eq_true, if_false]
    split <;> exact hpolled

theorem numbers_trials (trials : List (Cursor × Remedy)) :
    Numbers ((pollsOfTrials trials w).map (·.polls)) w ((tryAll .never trials).run.run w).2 := by
  induction trials generalizing w with
  | nil => exact .nil rfl
  | cons trial rest ih =>
    obtain ⟨c, remedy⟩ := trial
    have htrial := numbers_trial w c remedy
    rw [tryAll, run_bind, pollsOfTrials, List.map_append]
    rcases hrun : (tryRemedy .never c remedy).run.run w with ⟨failure | _ | ending, w'⟩
    · rw [hrun] at htrial
      exact htrial.append (.nil rfl)
    · rw [hrun] at htrial
      exact htrial.append (ih w')
    · rw [hrun] at htrial
      exact htrial.append (.nil rfl)

theorem numbers_mending :
    Numbers ((pollsOfMending w).map (·.polls)) w ((mend .never).run.run w).2 := by
  unfold mend pollsOfMending
  rw [run_look_bind]
  cases Target.atCaret? w.tree w.editor.text w.editor.caret with
  | none => exact .nil rfl
  | some target =>
    refine (numbers_trials w (trials target)).of_eq (Leaves.eq_bind fun ending w' => ?_)
    cases ending <;> exact .pure _

theorem numbers_pass :
    Numbers ((pollsOfPass w).map (·.polls)) w ((pass settings .never).run.run w).2 := by
  have hready : (readied w).polls = w.polls :=
    Leaves.goToHole.trans (Leaves.renewTree isApart_polls)
  unfold pass
  rw [run_ready_bind]
  refine ((numbers_mending (readied w)).of_eq (Leaves.eq_bind fun mending w' => ?_)).from_eq hready
  cases mending with
  | noTarget => exact .bind (.landWithoutTarget isApart_polls settings) fun _ _ => .pure _
  | deferred => exact .pure _
  | edited => exact .bind (.stepIntoBlock isApart_polls _) fun _ _ => .pure _
  | complete scope =>
    exact .bind (.withMarker isApart_polls _ fun slot _ => .land isApart_polls settings scope slot)
      fun _ _ => .pure _

theorem numbers_passes (text : Text) (caret left taken : Nat) :
    Numbers ((pollsOfPasses settings left taken w).map (·.2.polls)) w
      ((takePasses settings .never text caret left taken).run w).2 := by
  induction left generalizing taken w with
  | zero =>
    refine .nil ?_
    have hleaves : Leaves (·.polls) (rollBack text caret) w := .rollBack isApart_polls text caret
    unfold Leaves at hleaves
    rw [takePasses, StateT.run_bind]
    rcases hrun : (rollBack text caret).run.run w with ⟨_ | ⟨⟩, w'⟩
    · rw [hrun] at hleaves
      exact hleaves
    · rw [hrun] at hleaves
      exact hleaves
  | succ left ih =>
    have hpass := numbers_pass settings w
    rw [takePasses_succ, pollsOfPasses, List.map_append, List.map_map]
    rcases hrun : (pass settings .never).run.run w with ⟨failure | _ | outcome, w'⟩
    · rw [hrun] at hpass
      exact hpass.append (.nil rfl)
    · rw [hrun] at hpass
      exact hpass.append (ih w' (taken + 1))
    · rw [hrun] at hpass
      exact hpass.append (.nil rfl)

/-- The polls of a completion without popups are numbered from one on, and there are no others. -/
theorem numbers_pollsOf (e : Editor) :
    (pollsOf settings e).map (·.2.polls) = List.range' 1 (run settings .never e).polls
      ∧ (pollsOf settings e).length = (run settings .never e).polls := by
  have hnumbers := numbers_passes settings (begun settings e) e.text e.caret settings.maxPasses 0
  have hlength : (pollsOf settings e).length = (run settings .never e).polls := by
    have hpolls := hnumbers.2
    rw [List.length_map] at hpolls
    exact ((Nat.zero_add _).symm.trans hpolls.symm)
  refine ⟨?_, hlength⟩
  rw [← hlength]
  exact hnumbers.1.trans (by rw [List.length_map]; rfl)

end

/-! ## A popup that shows from a poll on -/

/-- The first of some numbered polls at which the popup shows. -/
theorem find?_after {polls : List (Nat × Workspace)} {first n : Nat}
    (h : polls.map (·.2.polls) = List.range' first polls.length) (hfirst : first ≤ n + 1) :
    (polls.find? fun poll => Popup.after n poll.2.polls) = polls[n + 1 - first]? := by
  induction polls generalizing first with
  | nil => rfl
  | cons poll rest ih =>
    rw [List.length_cons, List.range'_succ, List.map_cons] at h
    obtain ⟨hpoll, hrest⟩ := List.cons.inj h
    rw [List.find?_cons, hpoll]
    by_cases hshows : n < first
    · have hzero : n + 1 - first = 0 := by omega
      rw [hzero, show Popup.after n first = true from decide_eq_true hshows]
      rfl
    · have hsucc : n + 1 - first = n + 1 - (first + 1) + 1 := by omega
      rw [hsucc, show Popup.after n first = false from decide_eq_false hshows]
      exact ih hrest (by omega)

/-- **A popup only cuts a completion short.**  If it shows from behind a poll on, and the completion
without popups does not get further than to this poll, nothing is different.  Otherwise the next
poll is the last one, and the editor is left as the completion without popups had it there. -/
theorem run_after (settings : Settings) (e : Editor) (n : Nat) :
    let undisturbed := run settings .never e
    let disturbed := run settings (.after n) e
    (undisturbed.polls ≤ n → disturbed = undisturbed)
      ∧ (n < undisturbed.polls →
        disturbed.outcome = .deferred ∧ disturbed.polls = n + 1
          ∧ ∃ passes w, (pollsOf settings e)[n]? = some (passes, w)
            ∧ disturbed.passes = passes ∧ disturbed.hole? = w.holes.first?
            ∧ disturbed.editor = w.editor.endSession
            ∧ disturbed.editor.text = w.editor.text ∧ disturbed.editor.caret = w.editor.caret
            ∧ disturbed.editor.document.stamp = w.editor.document.stamp) := by
  intro undisturbed disturbed
  obtain ⟨hnumbers, hlength⟩ := numbers_pollsOf settings e
  have hcut : disturbed = _ := run_eq_cut settings (.after n) e
  rw [find?_after (hlength ▸ hnumbers) (Nat.le_add_left 1 n), Nat.add_sub_cancel] at hcut
  constructor
  · intro hle
    rwa [List.getElem?_eq_none (hlength.trans_le hle)] at hcut
  · intro hlt
    have hpoll : n < (pollsOf settings e).length := hlength.symm ▸ hlt
    have hnumber : ((pollsOf settings e).map (·.2.polls))[n]? = some (1 + 1 * n) := by
      rw [hnumbers]
      exact List.getElem?_range' hlt
    rw [List.getElem?_map, List.getElem?_eq_getElem hpoll] at hnumber
    rw [List.getElem?_eq_getElem hpoll] at hcut ⊢
    have hpolls : (pollsOf settings e)[n].2.polls = n + 1 :=
      (Option.some.inj hnumber).trans (by omega)
    rw [hcut]
    exact ⟨rfl, hpolls, _, _, rfl, rfl, rfl, rfl, rfl, rfl, rfl⟩


/-- An open call gets its parenthesis between two polls of the first pass.  A popup that shows at
the second of these leaves the call closed but not ended, and one that would show much later makes
no difference. -/
theorem run_after_open_call :
    let settings : Settings := { source := .codeFragment }
    let before := (Editor.ofText ['f', '(']).moveCaret 2
    (233 < (run settings .never before).polls
      ∧ (run settings (.after 233) before).outcome = .deferred
      ∧ (run settings (.after 233) before).polls = 234
      ∧ (run settings (.after 233) before).editor.text = "f()".toList)
    ∧ (run settings .never before).polls ≤ 1000
      ∧ run settings (.after 1000) before = run settings .never before := by
  intro settings before
  have hpolls : (run settings .never before).polls = 920 := by decide +kernel
  have hlt : 233 < (run settings .never before).polls := by omega
  have hle : (run settings .never before).polls ≤ 1000 := by omega
  have htext : (pollsOf settings before)[233]?.map (·.2.editor.text) = some "f()".toList := by
    decide +kernel
  obtain ⟨houtcome, hcount, passes, w, hpoll, -, -, -, hleft, -⟩ :=
    (run_after settings before 233).2 hlt
  refine ⟨⟨hlt, houtcome, hcount, hleft.trans ?_⟩, hle, (run_after settings before 1000).1 hle⟩
  rw [hpoll] at htext
  exact Option.some.inj htext

end StatementCompletion.Completion
