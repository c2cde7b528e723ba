import StatementCompletion.Proofs.Editor.Frame
import StatementCompletion.Proofs.Repair.Insertion

/-!
# What a remedy records

Beside its edit a remedy may record holes.  What it records in front of its edit are places in the
text as it was, and what it records behind it are places in the edited text.  The edit makes the
text longer, so it leaves exactly those places alone that are not behind its start.
-/

namespace StatementCompletion

variable {offset : Nat}

/-! ## Recording in turn -/

namespace Holes

/-- Record holes one after the other. -/
def recordAll (holes : Holes) (offsets : List Nat) : Holes :=
  offsets.foldl record holes

theorem recordAll_append (holes : Holes) (offsets more : List Nat) :
    holes.recordAll (offsets ++ more) = (holes.recordAll offsets).recordAll more :=
  List.foldl_append

/-- Holes that are not in front of the first one change nothing. -/
theorem first?_recordAll_of_first {offsets : List Nat} (hleast : ∀ other ∈ offsets, offset ≤ other)
    {holes : Holes} (hfirst : holes.first? = some offset) :
    (holes.recordAll offsets).first? = some offset := by
  induction offsets generalizing holes with
  | nil => exact hfirst
  | cons other rest ih =>
    obtain ⟨hother, hrest⟩ := List.forall_mem_cons.1 hleast
    refine ih hrest ((first?_record holes other).trans ?_)
    rw [hfirst, Option.getD_some]
    exact congrArg some (Nat.min_eq_left hother)

/-- The first of the holes that have been recorded is the smallest one. -/
theorem first?_recordAll {offsets : List Nat} (hmem : offset ∈ offsets)
    (hleast : ∀ other ∈ offsets, offset ≤ other) {holes : Holes}
    (hholes : ∀ first ∈ holes.first?, offset ≤ first) :
    (holes.recordAll offsets).first? = some offset := by
  induction offsets generalizing holes with
  | nil => cases hmem
  | cons other rest ih =>
    obtain ⟨hother, hrest⟩ := List.forall_mem_cons.1 hleast
    have hnext : (holes.record other).first? = some ((holes.first?.getD other).min other) :=
      first?_record holes other
    rcases List.mem_cons.1 hmem with rfl | hmem
    · -- from here on it is the first one
      refine first?_recordAll_of_first hrest (hnext.trans ?_)
      cases hfirst : holes.first? with
      | none => exact congrArg some (Nat.min_self _)
      | some first => exact congrArg some (Nat.min_eq_right (hholes first hfirst))
    · refine ih hmem hrest fun first hfirst => ?_
      rw [hnext] at hfirst
      obtain rfl := Option.some.inj hfirst
      refine Nat.le_min.2 ⟨?_, hother⟩
      cases hfirst : holes.first? with
      | none => exact hother
      | some first => exact hholes first hfirst

/-- What has been recorded is not in front of the first hole. -/
theorem exists_first_le {offsets : List Nat} {holes : Holes}
    (h : offset ∈ offsets ∨ ∃ first, holes.first? = some first ∧ first ≤ offset) :
    ∃ first, (holes.recordAll offsets).first? = some first ∧ first ≤ offset := by
  induction offsets generalizing holes with
  | nil => exact h.resolve_left List.not_mem_nil
  | cons other rest ih =>
    have hnext := first?_record holes other
    refine ih (h.elim (fun hmem => ?_) fun ⟨first, hfirst, hle⟩ => .inr ⟨_, hnext, ?_⟩)
    · refine (List.mem_cons.1 hmem).symm.imp id ?_
      rintro rfl
      exact ⟨_, hnext, Nat.min_le_right _ _⟩
    · rw [hfirst]
      exact (Nat.min_le_left _ _).trans hle

end Holes

/-! ## Edits that make a text longer -/

/-- What is written is longer than what it takes the place of. -/
def TextEdit.Grows (edit : TextEdit) : Prop :=
  edit.span.start ≤ edit.span.stop ∧ edit.span.stop < edit.span.start + edit.text.size

/-- Putting pieces around a part of a text makes the text longer. -/
theorem Action.Surrounds.grows {text : Text} {edit : TextEdit} (h : Action.Surrounds text edit) :
    edit.Grows := by
  obtain ⟨before, inside, after, front, back, -, -, -, hink, rfl⟩ := h
  have hpositive : 0 < Text.size (front ++ back) := by
    refine Text.size_pos fun hnone => hink ?_
    rw [hnone, Text.ink_nil]
  refine ⟨Nat.le_add_right _ _, ?_⟩
  change before.size + inside.size < before.size + Text.size (front ++ inside ++ back)
  rw [Text.size_append] at hpositive
  rw [Text.size_append, Text.size_append]
  omega

/-- An edit that makes a text longer leaves alone the places that are not behind its start. -/
theorem TextEdit.Grows.carry_eq_self_iff {edit : TextEdit} (h : edit.Grows) :
    edit.span.carry edit.text.size offset = offset ↔ offset ≤ edit.span.start := by
  obtain ⟨hle, hgrows⟩ := h
  unfold Span.carry
  split_ifs <;> omega

/-- Only putting nothing in the place of nothing leaves a document as it is. -/
theorem Document.of_replace {d d' : Document} {span : Span} {new : Text}
    (h : d.replace span new = .ok d') :
    if span.start = span.stop ∧ new = [] then d' = d else d'.stamp = d.stamp + 1 := by
  obtain ⟨⟨before, inside, after⟩, -, h⟩ := exists_of_bind_ok h
  dsimp only at h
  split
  · next hnothing =>
    rw [if_pos hnothing] at h
    exact (Except.ok.inj h).symm
  · next hnothing =>
    rw [if_neg hnothing] at h
    rw [← Except.ok.inj h]

/-- An editor edits its document. -/
theorem Editor.document_of_replace {e e' : Editor} {span : Span} {new : Text}
    (h : e.replace span new = .ok e') : e.document.replace span new = .ok e'.document := by
  unfold Editor.replace at h
  cases hdocument : e.document.replace span new with
  | error reason =>
    rw [hdocument] at h
    cases h
  | ok d =>
    rw [hdocument] at h
    cases h
    rfl

/-! ## The holes among actions -/

namespace Action

/-- The hole that an action records. -/
def hole? : Action → Option Nat
  | .hole offset => some offset
  | _ => none

/-- The holes that actions record. -/
def recorded (actions : List Action) : List Nat :=
  actions.filterMap hole?

variable {actions rest : List Action} {e e' : Editor} {holes holes' : Holes} {edit : TextEdit}

/-- Carrying out actions records their holes. -/
theorem holes_applyAll (h : applyAll e holes actions = .ok (e', holes')) :
    holes' = holes.recordAll (recorded actions) := by
  induction actions generalizing e holes with
  | nil =>
    cases h
    rfl
  | cons action rest ih =>
    cases action with
    | caret offset => exact ih h
    | hole offset => exact ih h
    | replace edit =>
      rw [applyAll, apply] at h
      cases hreplace : e.replace edit.span edit.text with
      | error reason =>
        rw [hreplace] at h
        cases h
      | ok e₁ =>
        rw [hreplace] at h
        exact ih h

/-- Carrying out actions makes the edit among them. -/
theorem document_applyAll (hedits : edits actions = [edit])
    (h : applyAll e holes actions = .ok (e', holes')) :
    e.document.replace edit.span edit.text = .ok e'.document := by
  induction actions generalizing e holes with
  | nil => cases hedits
  | cons action rest ih =>
    cases action with
    | caret offset => exact ih (e := e.moveCaret offset) hedits h
    | hole offset => exact ih hedits h
    | replace first =>
      obtain ⟨rfl, hrest⟩ := List.cons.inj hedits
      rw [applyAll, apply] at h
      cases hreplace : e.replace first.span first.text with
      | error reason =>
        rw [hreplace] at h
        cases h
      | ok e₁ =>
        rw [hreplace] at h
        obtain ⟨⟨e₂, holes₂⟩, hrun, hsame⟩ := applyAll_of_edits_eq_nil hrest e₁ holes
        obtain ⟨rfl, rfl⟩ := Prod.mk.inj (Except.ok.inj (hrun.symm.trans h))
        rw [hsame]
        exact Editor.document_of_replace hreplace

/-- Actions with one edit are cut in two by it. -/
theorem exists_around_edit (hedits : edits actions = [edit]) :
    ∃ front back, actions = front ++ .replace edit :: back ∧ edits front = []
      ∧ edits back = [] := by
  induction actions with
  | nil => cases hedits
  | cons action rest ih =>
    cases action with
    | replace first =>
      obtain ⟨rfl, hrest⟩ := List.cons.inj hedits
      exact ⟨[], rest, rfl, rfl, hrest⟩
    | caret offset =>
      obtain ⟨front, back, rfl, hfront, hback⟩ := ih hedits
      exact ⟨.caret offset :: front, back, rfl, hfront, hback⟩
    | hole offset =>
      obtain ⟨front, back, rfl, hfront, hback⟩ := ih hedits
      exact ⟨.hole offset :: front, back, rfl, hfront, hback⟩

/-! ## What a remedy edits -/

/-- There is no edit, or one that makes the text longer. -/
def GrowsOnce (actions : List Action) : Prop :=
  edits actions = [] ∨ ∃ edit, edits actions = [edit] ∧ edit.Grows

theorem document_applyAll_of_edits_eq_nil (hnone : edits actions = [])
    (h : applyAll e holes actions = .ok (e', holes')) : e'.document = e.document := by
  obtain ⟨answer, hrun, hsame⟩ := applyAll_of_edits_eq_nil hnone e holes
  obtain rfl := Except.ok.inj (hrun.symm.trans h)
  exact hsame

/-- An edit that makes the text longer adds one to the stamp. -/
theorem stamp_applyAll_of_grows {edit : TextEdit} (hedits : edits actions = [edit])
    (hgrows : edit.Grows) (h : applyAll e holes actions = .ok (e', holes')) :
    e'.document.stamp = e.document.stamp + 1 := by
  have hreplace := Document.of_replace (document_applyAll hedits h)
  rwa [if_neg] at hreplace
  rintro ⟨hempty, hnone⟩
  obtain ⟨-, hgrows⟩ := hgrows
  rw [hnone, hempty] at hgrows
  exact Nat.lt_irrefl _ hgrows

end Action

/-- What a remedy edits makes the text longer. -/
theorem Remedy.succeeds_actions_growsOnce {d : Document} {c : Cursor} (h : c.Within d.text)
    (remedy : Remedy) : Succeeds (remedy.actions d c) Action.GrowsOnce := by
  obtain ⟨tree, htree, hbelow⟩ := h
  exact (remedy.succeeds_actions_mends htree hbelow).mono fun _ hmends =>
    (hmends.surrounds htree).imp_right fun ⟨edit, hedits, hsurrounds⟩ =>
      ⟨edit, hedits, hsurrounds.grows⟩

end StatementCompletion
