import StatementCompletion.Proofs.Completion.Complete
import StatementCompletion.Proofs.Repair.CutOff

/-!
# Passes that edit the end of a text

A pass whose first edit inserts something at the end of the text leaves the caret and the hole it
records behind ink of the text, so that the next pass finds its target there.  Between two
passes the workspace is `Between`.
-/

namespace StatementCompletion

/-! ## Behind ink -/

/-- There is no empty block next to it. -/
theorem Text.IsBehindInk.emptyBlockNear?_eq_none {text : Text} {offset : Nat}
    (h : text.IsBehindInk offset) :
    Completion.emptyBlockNear? text offset = none := by
  have hboundary := h.isBoundary
  obtain ⟨before, after, c, rfl, rfl, hc, hblank, hbrace, hhead⟩ := h
  refine Option.eq_none_iff_forall_ne_some.2 fun opened hopened => ?_
  cases (Completion.emptyBlockNear?_eq_some_iff hboundary).1 hopened with
  | starts htext hblock hcaret =>
    -- the text would go on with a brace
    rw [List.append_assoc] at htext
    obtain ⟨-, rfl⟩ := Text.append_inj_of_size htext hcaret.symm
    obtain ⟨inside, rfl, -⟩ := Completion.exists_inside_of_block hblock
    exact hhead rfl
  | @ends front block gap rest htext hblock hgap hcaret hnone =>
    obtain ⟨rfl, -⟩ := Text.append_inj_of_size htext hcaret.symm
    rcases List.eq_nil_or_concat' gap with rfl | ⟨blanks, d, rfl⟩
    · -- the ink would be the closing brace
      obtain ⟨inside, rfl, -⟩ := Completion.exists_inside_of_block hblock
      rw [List.append_nil, ← List.cons_append, ← List.append_assoc, List.getLast?_concat] at hc
      exact hbrace (Option.some.inj hc).symm
    · -- the ink would be a blank
      rw [← List.append_assoc, List.getLast?_concat] at hc
      obtain rfl := Option.some.inj hc
      rw [hgap d (List.mem_append_right _ List.mem_cons_self)] at hblank
      cases hblank

namespace IsCutOff

variable {text : Text} {n : Nat}

theorem isBehindInk (h : IsCutOff text n) : text.IsBehindInk text.size :=
  h.isInline.isBehindInk h.literals []

end IsCutOff

/-! ## Inserting at the end -/

/-- Inserting between two parts of a text carries along a caret that is behind the first. -/
theorem Editor.insert_append (e : Editor) {before after new : Text}
    (htext : e.text = before ++ after)
    (hnew : new ≠ []) : ∃ e', e.replace { start := before.size, stop := before.size } new = .ok e'
      ∧ e'.text = before ++ new ++ after ∧ e'.document.stamp = e.document.stamp + 1
      ∧ e'.caret = if e.caret ≤ before.size then e.caret else e.caret + new.size := by
  have hparts : e.text = before ++ [] ++ after := by rw [List.append_nil, htext]
  obtain ⟨d, hreplace, hd, hstamp⟩ := replace_append hparts new
  refine ⟨_, hreplace, hd, hstamp.resolve_left ?_, ?_⟩
  · rintro rfl
    have hlength := congrArg List.length hd
    rw [show e.document.text = before ++ after from htext] at hlength
    simp only [List.length_append] at hlength
    exact hnew (List.eq_nil_of_length_eq_zero (by omega))
  · show Span.carry _ _ _ = _
    simp only [Span.carry, Span.behind, Text.size, Nat.add_zero, Nat.sub_self, Nat.sub_zero]
    split
    · rfl
    · next hbehind => rw [if_pos (Nat.le_of_not_le hbehind)]

/-- Inserting at the end of a text carries no caret along. -/
theorem Editor.insert_end (e : Editor) {new : Text} (hnew : new ≠ [])
    (hcaret : e.caret ≤ e.text.size) :
    ∃ e', e.replace { start := e.text.size, stop := e.text.size } new = .ok e'
      ∧ e'.text = e.text ++ new ∧ e'.document.stamp = e.document.stamp + 1
      ∧ e'.caret = e.caret := by
  obtain ⟨e', hreplace, htext, hstamp, hcaret'⟩ :=
    e.insert_append (List.append_nil e.text).symm hnew
  rw [List.append_nil] at htext
  rw [if_pos hcaret] at hcaret'
  exact ⟨e', hreplace, htext, hstamp, hcaret'⟩

namespace Repair

variable {stop : Nat} {actions : List Action}

/-- Recording holes changes nothing but the holes. -/
theorem RecordsAt.exists_applyAll (h : RecordsAt stop actions) (e : Editor) (holes : Holes)
    (more : List Action) :
    ∃ holes', Action.applyAll e holes (actions ++ more) = Action.applyAll e holes' more
      ∧ ∀ hole ∈ holes'.first?, hole = stop ∨ hole ∈ holes.first? := by
  induction actions generalizing holes with
  | nil => exact ⟨holes, rfl, fun _ => .inr⟩
  | cons action rest ih =>
    obtain ⟨rfl, hrest⟩ := List.forall_mem_cons.1 h
    obtain ⟨holes', happly, hholes⟩ := ih hrest (holes.record stop)
    refine ⟨holes', happly, fun hole hhole => ?_⟩
    rcases hholes hole hhole with heq | hmem
    · exact .inl heq
    · rw [Holes.first?_record, Option.mem_some_iff] at hmem
      cases hfirst : holes.first? with
      | none =>
        rw [hfirst, Option.getD_none] at hmem
        rw [← hmem]
        exact .inl (Nat.min_self _)
      | some first =>
        rw [hfirst, Option.getD_some] at hmem
        rcases Nat.le_total first stop with hle | hle
        · rw [show first.min stop = first from Nat.min_eq_left hle] at hmem
          exact .inr (by rw [← hmem]; rfl)
        · rw [show first.min stop = stop from Nat.min_eq_right hle] at hmem
          exact .inl hmem.symm

end Repair

namespace Completion

open Repair (RecordsAt InsertsAt FirstInserts)

variable {w w' : Workspace} {text new : Text} {stop : Nat} {c : Cursor} {remedy : Remedy}

/-- What an edit at the end of the text does to the workspace: it may also record holes there. -/
structure Extends (new : Text) (w w' : Workspace) : Prop where
  tree : w'.tree = w.tree
  text : w'.editor.text = w.editor.text ++ new
  stamp : w'.editor.document.stamp = w.editor.document.stamp + 1
  caret : w'.editor.caret = w.editor.caret
  holes : ∀ hole ∈ w'.holes.first?, hole = w.editor.text.size ∨ hole ∈ w.holes.first?

/-- A trial that only records holes is followed by the next one. -/
theorem answers_tryRemedy_of_records {actions : List Action}
    (hactions : remedy.actions w.editor.document c = .ok actions)
    (hrecords : RecordsAt stop actions) (hcurrent : w.tree.isCurrent w.editor.document = true) :
    Answers w (tryRemedy .never c remedy) fun ending w' => ending = none ∧ Same w w'
      ∧ ∀ hole ∈ w'.holes.first?, hole = stop ∨ hole ∈ w.holes.first? := by
  obtain ⟨holes, happly, hholes⟩ := hrecords.exists_applyAll w.editor w.holes []
  rw [List.append_nil] at happly
  have hrun : remedy.apply c w.editor w.holes = .ok (w.editor, holes) := by
    rw [Remedy.apply, hactions]
    exact happly
  refine (answers_tryRemedy hrun hcurrent).mono fun _ w' ⟨hending, hsame, heq⟩ =>
    ⟨hending, hsame, ?_⟩
  rw [heq]
  exact hholes

/-- A trial that edits the text is the last one. -/
theorem answers_tryRemedy_of_edit {e : Editor} {holes : Holes}
    (happly : remedy.apply c w.editor w.holes = .ok (e, holes))
    (hstamp : e.document.stamp = w.editor.document.stamp + 1)
    (hcurrent : w.tree.isCurrent w.editor.document = true) :
    Answers w (tryRemedy .never c remedy) fun ending w' => ending = some .edited ∧ w'.tree = w.tree
      ∧ w'.editor = e ∧ w'.holes = holes := by
  refine .poll_bind ?_
  rw [Popup.never, if_neg Bool.false_ne_true]
  refine .bind (Q := fun _ w' => w'.tree = w.tree ∧ w'.editor = e ∧ w'.holes = holes) ?_
    fun _ w' hw => .poll_bind ?_
  · refine .get_bind ?_
    rw [happly]
    exact .set ⟨rfl, rfl, rfl⟩
  · obtain ⟨htree, heditor, hholes⟩ := hw
    rw [Popup.never, if_neg Bool.false_ne_true]
    refine .look_bind ?_
    have hstale : w'.tree.isCurrent w'.editor.document = false := by
      have hcurrent := of_decide_eq_true hcurrent
      rw [Snapshot.isCurrent, decide_eq_false_iff_not, htree, heditor, hstamp, hcurrent]
      exact Nat.ne_of_lt (Nat.lt_succ_self _)
    dsimp only
    rw [hstale, if_neg Bool.false_ne_true]
    exact .pure ⟨rfl, htree, heditor, hholes⟩

/-- A trial that inserts a text at the end is the last one. -/
theorem answers_tryRemedy_of_inserts {actions : List Action}
    (hactions : remedy.actions w.editor.document c = .ok actions)
    (hinserts : InsertsAt w.editor.text.size new actions) (hnew : new ≠ [])
    (hcaret : w.editor.caret ≤ w.editor.text.size)
    (hcurrent : w.tree.isCurrent w.editor.document = true) :
    Answers w (tryRemedy .never c remedy) fun ending w' =>
      ending = some .edited ∧ Extends new w w' := by
  obtain ⟨records, hrecords, rfl⟩ := hinserts
  obtain ⟨holes, happly, hholes⟩ := hrecords.exists_applyAll w.editor w.holes
    [.insert w.editor.text.size new]
  obtain ⟨e', hreplace, htext, hstamp, hcaret'⟩ := w.editor.insert_end hnew hcaret
  have hrun : remedy.apply c w.editor w.holes = .ok (e', holes) := by
    rw [Remedy.apply, hactions]
    refine happly.trans ?_
    rw [Action.applyAll, Action.insert, Action.apply]
    simp only [TextEdit.insertion, hreplace]
    rfl
  refine (answers_tryRemedy_of_edit hrun hstamp hcurrent).mono fun _ w' hw => ?_
  obtain ⟨hending, htree, rfl, rfl⟩ := hw
  exact ⟨hending, htree, htext, hstamp, hcaret', hholes⟩

/-- Trials that do nothing are passed over. -/
theorem answers_tryAll_append_of_nil {front back : List (Cursor × Remedy)}
    {Q : Option Mending → Workspace → Prop}
    (h : ∀ trial ∈ front, trial.2.actions w.editor.document trial.1 = .ok [])
    (hcurrent : w.tree.isCurrent w.editor.document = true)
    (hback : ∀ w', Same w w' → w'.holes = w.holes → Answers w' (tryAll .never back) Q) :
    Answers w (tryAll .never (front ++ back)) Q := by
  induction front generalizing w with
  | nil => exact hback w ⟨rfl, rfl⟩ rfl
  | cons trial rest ih =>
    obtain ⟨hactions, hrest⟩ := List.forall_mem_cons.1 h
    have happly : trial.2.apply trial.1 w.editor w.holes = .ok (w.editor, w.holes) := by
      rw [Remedy.apply, hactions]
      rfl
    refine .bind (answers_tryRemedy happly hcurrent) fun ending w' ⟨hending, hsame, hholes⟩ => ?_
    subst hending
    refine ih ?_ ?_ fun w'' hsame' hholes' => hback w'' (hsame.trans hsame') (hholes'.trans hholes)
    · rwa [hsame.editor]
    · rwa [hsame.editor, hsame.tree]

/-- The first edit ends the trials. -/
theorem answers_tryAll_of_firstInserts {trials : List (Cursor × Remedy)}
    (h : FirstInserts w.editor.document w.editor.text.size new trials) (hnew : new ≠ [])
    (hcaret : w.editor.caret ≤ w.editor.text.size)
    (hcurrent : w.tree.isCurrent w.editor.document = true) :
    Answers w (tryAll .never trials) fun ending w' => ending = some .edited ∧ Extends new w w' := by
  generalize hdocument : w.editor.document = d at h
  generalize hstop : w.editor.text.size = stop at h
  induction h generalizing w with
  | here hactions hinserts =>
    subst hdocument hstop
    refine .bind (answers_tryRemedy_of_inserts hactions hinserts hnew hcaret hcurrent)
      fun ending w' ⟨hending, hextends⟩ => ?_
    subst hending
    exact .pure ⟨rfl, hextends⟩
  | later hactions hrecords _ ih =>
    subst hdocument
    refine .bind (answers_tryRemedy_of_records hactions hrecords hcurrent)
      fun ending w' ⟨hending, hsame, hholes⟩ => ?_
    subst hending
    have heditor := hsame.editor
    refine (ih (w := w') (by rwa [heditor]) (by rwa [hsame.tree, heditor]) (by rw [heditor])
      (by rw [heditor, hstop])).mono fun _ w'' ⟨hending, hextends⟩ => ⟨hending, ?_⟩
    refine ⟨hextends.tree.trans hsame.tree, ?_, ?_, ?_, fun hole hhole => ?_⟩
    · rw [hextends.text, heditor]
    · rw [hextends.stamp, heditor]
    · rw [hextends.caret, heditor]
    · rcases hextends.holes hole hhole with heq | hmem
      · rw [heq, heditor]
        exact .inl rfl
      · rw [hstop]
        exact hholes hole hmem

/-! ## Between two passes -/

/-- A workspace between two passes over a text: the tree is one of the text or older, and the caret
and the hole are behind ink. -/
structure Between (text : Text) (w : Workspace) : Prop where
  text_eq : w.editor.text = text
  kind : w.tree.kind = .codeFragment
  tracks : w.tree.Tracks w.editor.document
  caret : text.IsBehindInk w.editor.caret
  hole : ∀ hole ∈ w.holes.first?, text.IsBehindInk hole

/-- A workspace at the start of a pass: the tree is that of the text, and there is no hole. -/
structure Ready (text : Text) (w : Workspace) : Prop where
  text_eq : w.editor.text = text
  tree : w.tree = .ofDocument .codeFragment w.editor.document
  caret : text.IsBehindInk w.editor.caret
  holes : w.holes.first? = none

namespace Ready

theorem isCurrent (h : Ready text w) : w.tree.isCurrent w.editor.document = true := by
  rw [h.tree]
  exact decide_eq_true rfl

theorem root_eq (h : Ready text w) : w.tree.root = Node.ofText .codeFragment text := by
  rw [h.tree, ← h.text_eq]
  rfl

theorem caret_le (h : Ready text w) : w.editor.caret ≤ w.editor.text.size := by
  rw [h.text_eq]
  exact h.caret.le_size

/-- Trials that leave the holes alone change nothing. -/
theorem of_same (h : Ready text w) (hsame : Same w w') (hholes : w'.holes = w.holes) :
    Ready text w' where
  text_eq := by rw [hsame.editor, h.text_eq]
  tree := by rw [hsame.tree, hsame.editor, h.tree]
  caret := by
    rw [hsame.editor]
    exact h.caret
  holes := by rw [hholes, h.holes]

/-- What is put behind the text leads to the next pass. -/
theorem between (h : Ready text w) (hextends : Extends new w w')
    (hend : text.IsBehindInk text.size) (hnew : new.head? ≠ some '\x7b') :
    Between (text ++ new) w' where
  text_eq := by rw [hextends.text, h.text_eq]
  kind := by
    rw [hextends.tree, h.tree]
    rfl
  tracks := by
    rw [hextends.tree, h.tree]
    refine ⟨?_, fun hsame => ?_⟩
    · rw [hextends.stamp]
      exact Nat.le_succ _
    · rw [hextends.stamp] at hsame
      exact absurd hsame (Nat.ne_of_lt (Nat.lt_succ_self _))
  caret := by
    rw [hextends.caret]
    exact h.caret.append hnew
  hole hole hhole := by
    rcases hextends.holes hole hhole with heq | hmem
    · rw [heq, h.text_eq]
      exact hend.append hnew
    · rw [h.holes] at hmem
      cases hmem

end Ready

/-- A pass begins with a new tree, and the caret goes to the hole. -/
theorem Between.answers_ready (h : Between text w) {α : Type} {f : PUnit → Step α}
    {Q : α → Workspace → Prop} (hf : ∀ w', Ready text w' → Answers w' (f ⟨⟩) Q) :
    Answers w (renewTree >>= fun _ => goToHole >>= f) Q := by
  have htree := h.tracks.renewed_eq h.kind
  refine .modify_bind (.bind (Q := fun _ => Ready text) (.look_bind ?_) fun _ w' => hf w')
  dsimp only
  cases hfirst : w.holes.first? with
  | none => exact .pure ⟨h.text_eq, htree, h.caret, hfirst⟩
  | some hole =>
    have hhole := h.hole hole hfirst
    have hcaret : (w.editor.moveCaret hole).caret = hole := by
      rw [Editor.moveCaret, h.text_eq]
      exact Text.floorBoundary_of_isBoundary hhole.isBoundary
    refine .modify_bind (.changeEditor ⟨h.text_eq, htree, ?_, rfl⟩)
    show text.IsBehindInk (w.editor.moveCaret hole).caret
    rw [hcaret]
    exact hhole

/-- **A pass whose first edit puts something behind the text** is followed by another pass. -/
theorem Between.answers_pass (settings : Settings) (h : Between text w) (hnew : new ≠ [])
    (hend : text.IsBehindInk text.size) (hhead : new.head? ≠ some '\x7b')
    (hmend : ∀ w', Ready text w' → ∃ target,
      Target.atCaret? w'.tree text w'.editor.caret = some target
        ∧ FirstInserts w'.editor.document text.size new (trials target)) :
    Answers w (pass settings .never) fun answer w' => answer = none ∧ Between (text ++ new) w' := by
  refine h.answers_ready fun w₁ hready => ?_
  obtain ⟨target, htarget, hfirst⟩ := hmend w₁ hready
  have htext := hready.text_eq
  have hmended : Answers w₁ (mend .never) fun mending w' =>
      mending = .edited ∧ Extends new w₁ w' := by
    refine .look_bind ?_
    rw [htext, htarget]
    refine .bind
      (answers_tryAll_of_firstInserts (by rwa [htext]) hnew hready.caret_le hready.isCurrent)
      fun ending w' ⟨hending, hextends⟩ => ?_
    subst hending
    exact .pure ⟨rfl, hextends⟩
  refine .bind hmended fun mending w₂ ⟨hmending, hextends⟩ => ?_
  subst hmending
  have hbetween := hready.between hextends hend hhead
  have hstep : Answers w₂ (stepIntoBlock settings.style) fun _ w' => w' = w₂ := by
    refine .look_bind ?_
    rw [hbetween.text_eq, hbetween.caret.emptyBlockNear?_eq_none]
    exact .pure rfl
  refine .bind hstep fun _ w₃ hsame => ?_
  subst hsame
  exact .pure ⟨rfl, hbetween⟩

end Completion

end StatementCompletion
