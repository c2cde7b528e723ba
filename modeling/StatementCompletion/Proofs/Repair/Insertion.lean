import StatementCompletion.Proofs.Repair.Remedies
import StatementCompletion.Tree.Snapshot

/-!
# A remedy is one insertion

A remedy edits the text once or not at all, and puts pieces in front of a part of the text and
behind it.  So the text is that of before with delimiters in two places at most.
-/

namespace StatementCompletion

open Repair (IsWritten)

namespace Action

variable {actions : List Action}

/-- Without an edit the document stays as it is. -/
theorem applyAll_of_edits_eq_nil (h : edits actions = []) (e : Editor) (holes : Holes) :
    Succeeds (applyAll e holes actions) fun answer => answer.1.document = e.document := by
  induction actions generalizing e holes with
  | nil => exact .ok rfl
  | cons action rest ih =>
    cases action with
    | replace edit => cases h
    | caret offset => exact ih h (e.moveCaret offset) holes
    | hole offset => exact ih h e (holes.record offset)

/-- The text is that of before with pieces in two places, and the stamp has grown by one at most. -/
def IsWrapped (d d' : Document) : Prop :=
  d'.stamp ≤ d.stamp + 1 ∧ ∃ before inside after front back, d.text = before ++ inside ++ after
    ∧ d'.text = before ++ front ++ inside ++ back ++ after ∧ IsWritten front ∧ IsWritten back

theorem IsWrapped.refl (d : Document) : IsWrapped d d :=
  ⟨Nat.le_succ _, d.text, [], [], [], [], by simp, by simp, .nil, .nil⟩

theorem applyAll_of_wraps (e : Editor) (h : Wraps e.text actions) (holes : Holes) :
    Succeeds (applyAll e holes actions) fun answer => IsWrapped e.document answer.1.document := by
  rcases h with hnone
    | ⟨_, hedits, before, inside, after, front, back, htext, hfront, hback, -, rfl⟩
  · refine (applyAll_of_edits_eq_nil hnone e holes).mono fun _ hdocument => ?_
    exact hdocument ▸ IsWrapped.refl _
  · induction actions generalizing e holes with
    | nil => cases hedits
    | cons action rest ih =>
      cases action with
      | caret offset => exact ih (e.moveCaret offset) holes htext hedits
      | hole offset => exact ih e (holes.record offset) htext hedits
      | replace edit =>
        obtain ⟨rfl, hrest⟩ := List.cons.inj hedits
        obtain ⟨d, hreplace, hd, hstamp⟩ := Editor.replace_append htext (front ++ inside ++ back)
        rw [applyAll, apply, hreplace]
        refine (applyAll_of_edits_eq_nil hrest _ holes).mono fun _ hdocument => ?_
        refine ⟨?_, before, inside, after, front, back, htext, ?_, hfront, hback⟩
        · rcases hstamp with hsame | hnext
          · rw [hdocument, hsame]
            exact Nat.le_succ _
          · exact hdocument ▸ hnext.le
        · rw [hdocument, hd]
          simp only [List.append_assoc]

end Action

namespace Remedy

open StatementCompletion.Action

/-- **A remedy is one insertion.**  For a node in the tree of the editor's text a remedy is not
refused.  It adds one to the stamp at most, and the text is that of before with
delimiters in two places at most. -/
theorem apply_inserts (remedy : Remedy) (kind : SourceKind) (e : Editor)
    (holes : Holes) {c : Cursor} (h : Cursor.Below (Snapshot.ofDocument kind e.document).cursor c) :
    ∃ e' holes', remedy.apply c e holes = .ok (e', holes')
      ∧ e'.document.stamp ≤ e.document.stamp + 1
      ∧ ∃ before inside after front back, e.text = before ++ inside ++ after
        ∧ e'.text = before ++ front ++ inside ++ back ++ after
        ∧ IsWritten front ∧ IsWritten back := by
  have htree := Node.ofText_isTreeOf kind e.document.text
  obtain ⟨actions, hactions, hmends⟩ := remedy.succeeds_actions_mends htree h
  obtain ⟨⟨e', holes'⟩, hrun, hwrapped⟩ := applyAll_of_wraps e (hmends.surrounds htree) holes
  refine ⟨e', holes', ?_, hwrapped⟩
  rw [Remedy.apply, hactions]
  exact hrun

/-- A condition with a comment behind it is put into parentheses, and the comment is left alone. -/
theorem apply_inserts_bareCondition :
    let e := Editor.ofText "if a // b".toList
    let tree := (Snapshot.ofDocument .codeFragment e.document).cursor
    ∃ c ∈ tree.children, c.kind = .ifStatement
      ∧ ∃ e' holes', Remedy.ifCondition.apply c e {} = .ok (e', holes')
        ∧ e'.text = "if (a) // b".toList ∧ e'.document.stamp ≤ 1
        ∧ ∃ before inside after front back, e.text = before ++ inside ++ after
          ∧ e'.text = before ++ front ++ inside ++ back ++ after
          ∧ IsWritten front ∧ IsWritten back := by
  intro e tree
  have hfirst : tree.children.head?.map (fun c =>
      (c.kind, (Remedy.ifCondition.apply c e {}).toOption.map (·.1.text)))
        = some (.ifStatement, some "if (a) // b".toList) := by decide +kernel
  obtain ⟨c, hc, hanswer⟩ := Option.map_eq_some_iff.1 hfirst
  obtain ⟨hkind, htext⟩ := Prod.mk.inj hanswer
  have hmem : c ∈ tree.children := List.mem_of_mem_head? hc
  obtain ⟨e', holes', hrun, hstamp, hparts⟩ :=
    apply_inserts .ifCondition .codeFragment e {} (.child .self hmem)
  rw [hrun] at htext
  exact ⟨c, hmem, hkind, e', holes', hrun, Option.some.inj htext, hstamp, hparts⟩

end Remedy

end StatementCompletion
