import StatementCompletion.Landing.Rule
import StatementCompletion.Proofs.Landing.Comment

/-!
# Landing is not refused

A rule opens its line behind a node of the tree, where a cut parts no carriage return from its line
feed; so the caret is not behind the end of its line, and the line can be broken there.
-/

namespace StatementCompletion

namespace Editor

variable {original : Text} {slots : List Nat} {e : Editor} {c : Cursor}

/-- Behind a node of the tree a line can be broken. -/
theorem fitsLine_stop (hc : c.Within e.text) : (e.moveCaret c.stop).FitsLine := by
  unfold FitsLine moveCaret
  rw [Text.floorBoundary_of_isBoundary hc.isBoundary_stop]
  exact hc.stop_le_lineEnd

theorem Keeps.openLineAt_text (h : e.Keeps original slots) (hc : c.Within e.text)
    (style : CodeStyle) : Succeeds (Landing.openLineAt style c.stop e) (Landing.LandsIn fun e' =>
      Follows original slots e e' ∧ IsBrokenAt c.stop e.text e'.text) := by
  have hmove := h.moveCaret c.stop
  refine (hmove.keeps.breakLine_text (fitsLine_stop hc) style).bind fun e' ⟨he', hbroken⟩ => ?_
  refine .ok (Landing.landsIn_some ⟨hmove.trans he', ?_⟩)
  rwa [Editor.moveCaret, Text.floorBoundary_of_isBoundary hc.isBoundary_stop] at hbroken

theorem Keeps.openLineAt (h : e.Keeps original slots) (hc : c.Within e.text) (style : CodeStyle) :
    Succeeds (Landing.openLineAt style c.stop e) (Landing.Lands original slots e) :=
  (h.openLineAt_text hc style).mono fun _ hlands e' he' => (hlands e' he').1

end Editor

namespace Landing

variable {tree : Node} {target : Cursor}

theorem exists_stopOfBlockEndedBy? (h : Cursor.Below (.root tree) target) :
    ∃ c, Cursor.Below (.root tree) c ∧ (stopOfBlockEndedBy? target).getD target.stop = c.stop := by
  cases hstop : stopOfBlockEndedBy? target with
  | none => exact ⟨target, h, rfl⟩
  | some offset =>
    obtain ⟨block, hblock, hrest⟩ := Option.bind_eq_some_iff.1 hstop
    split at hrest
    · obtain ⟨last, -, hrest⟩ := Option.bind_eq_some_iff.1 hrest
      split at hrest
      · obtain ⟨brace, hbrace, rfl⟩ := Option.map_eq_some_iff.1 hrest
        exact ⟨brace, (h.parent hblock).child (Cursor.mem_of_child? hbrace), rfl⟩
      · cases hrest
    · cases hrest

theorem below_of_openingOfBody? {brace : Cursor} (h : Cursor.Below (.root tree) target)
    (hbrace : openingOfBody? target = some brace) : Cursor.Below (.root tree) brace := by
  have hblock {c brace : Cursor} (hc : Cursor.Below (.root tree) c)
      (hbrace : (c.child? .codeBlock).bind (·.child? .leftBrace) = some brace) :
      Cursor.Below (.root tree) brace := by
    obtain ⟨block, hblock, hbrace⟩ := Option.bind_eq_some_iff.1 hbrace
    exact (hc.child (Cursor.mem_of_child? hblock)).child (Cursor.mem_of_child? hbrace)
  unfold openingOfBody? at hbrace
  split at hbrace
  case h_1 => exact h.child (Cursor.mem_of_child? hbrace)
  case h_8 =>
    split at hbrace
    · obtain ⟨statement, hstatement, hbrace⟩ := Option.bind_eq_some_iff.1 hbrace
      exact hblock (h.child (Cursor.mem_of_child? hstatement)) hbrace
    · cases hbrace
  all_goals exact hblock h hbrace

end Landing

/-! ## The rules -/

namespace Editor

open Landing

variable {original : Text} {slots : List Nat} {e : Editor} {tree : Snapshot} {target : Cursor}

/-- A rule breaks a comment or opens a line behind a node, so what holds of the editors that these
come to holds of the one that a rule comes to. -/
theorem succeeds_applyRule {P : Editor → Prop} {manner : Manner}
    (hcomment : Succeeds (splitComment manner.comments tree e) (LandsIn P))
    (hopen : ∀ c, Cursor.Below tree.cursor c →
      Succeeds (openLineAt manner.style c.stop e) (LandsIn P))
    (htarget : Cursor.Below tree.cursor target) (rule : Rule) :
    Succeeds (rule.apply manner tree target e) (LandsIn P) := by
  cases rule with
  | comment => exact hcomment
  | afterSemicolon =>
    rw [Rule.apply]
    split
    · exact hopen target htarget
    · exact .ok landsIn_none
  | afterJump =>
    rw [Rule.apply]
    split
    · obtain ⟨c, hc, hstop⟩ := exists_stopOfBlockEndedBy? htarget
      rw [hstop]
      exact hopen c hc
    · exact .ok landsIn_none
  | intoBody =>
    rw [Rule.apply]
    split
    · next brace hbrace => exact hopen brace (below_of_openingOfBody? htarget hbrace)
    · exact .ok landsIn_none

theorem succeeds_applyFirst {P : Editor → Prop} {manner : Manner}
    (hcomment : Succeeds (splitComment manner.comments tree e) (LandsIn P))
    (hopen : ∀ c, Cursor.Below tree.cursor c →
      Succeeds (openLineAt manner.style c.stop e) (LandsIn P))
    (htarget : Cursor.Below tree.cursor target) (rules : List Rule) :
    Succeeds (Rule.applyFirst manner tree target e rules) (LandsIn P) := by
  induction rules with
  | nil => exact .ok landsIn_none
  | cons rule rest ih =>
    refine (succeeds_applyRule hcomment hopen htarget rule).bind fun landed hlanded => ?_
    cases landed with
    | none => exact ih
    | some e' => exact .ok hlanded

/-- The rules for a target in the tree of the editor's text are not refused. -/
theorem Keeps.applyFirst (h : e.Keeps original slots) (manner : Manner)
    (htree : Node.IsTreeOf e.text tree.root) (htarget : Cursor.Below tree.cursor target)
    (hcomments : manner.comments.blockStart ≠ some []) (rules : List Rule) :
    Succeeds (Rule.applyFirst manner tree target e rules) (Lands original slots e) :=
  succeeds_applyFirst (h.splitComment htree hcomments)
    (fun _ hc => h.openLineAt ((Cursor.Within.root htree).below hc) manner.style) htarget rules

end Editor

end StatementCompletion
