import StatementCompletion.Proofs.Grammar.Agreement.Sources
import StatementCompletion.Proofs.Grammar.Truncation.Parens

/-!
# The rules for expressions on a truncated text

What a rule does goes by tokens that no closing token is taken for, so up to the seam nothing but
the parentheses tells the two runs apart.  Nothing in braces is entered: there are none.
-/

namespace StatementCompletion.Grammar

open State (Truncated)

variable {σ : Seam} {wanted : Kind → Prop} {f m : Nat} {inner inner' : Inner}

/-! ## Operands -/

theorem arrayLength_truncates (h : inner.Truncate σ inner') :
    Truncates σ σ.tail.length f (arrayLength inner) (arrayLength inner') := by
  refine (takeIf_truncates rfl).ite ?_ (.pure false)
  refine (unlessAt_truncates rfl (orMissing_truncates h.expression)).bind fun _ => ?_
  exact (expect_truncates rfl).discard.bind fun _ => .pure true

theorem createdName_truncates (h : inner.Truncate σ inner') :
    Truncates σ σ.tail.length f (createdName inner) (createdName inner') := by
  refine .current_bind (fun kind _ => ?_) fun kind hclosing => ?_
  · split
    · exact take_truncates_of rfl
    · exact (className_truncates h).guard
    · exact (missing_truncates _).anywhere
  · rcases Kind.isClosing_cases hclosing with rfl | rfl | rfl <;>
      exact (missing_truncates _).anywhere

theorem createdType_truncates (h : inner.Truncate σ inner') :
    Truncates σ σ.tail.length f (createdType inner) (createdType inner') := by
  refine .marker_bind fun m => (createdName_truncates h).bind fun _ => ?_
  exact .built_ite (wrap_truncates rfl) (.pure ())

/-- The call that is created, with its arguments. -/
theorem createdParts_wrap_truncates (h : inner.Truncate σ inner') :
    Truncates σ σ.tail.length m (createdParts inner >>= fun _ => wrap m .newExpression)
      (createdParts inner' >>= fun _ => wrap m .newExpression) := by
  rw [createdParts, createdParts, bind_assoc, bind_assoc]
  refine .isAt_bind rfl ?_ ?_
  · have hlist := (argumentList_tears h).whenAtBrace (memberBlock_opens h.agree)
    exact (hlist (memberBlock inner')).bind_wrap rfl rfl
  · have hlengths : Truncates σ σ.tail.length m
        (do loop (arrayLength inner); whenAt .leftBrace (arrayInitializer inner))
        (do loop (arrayLength inner'); whenAt .leftBrace (arrayInitializer inner')) := by
      refine (loop_truncates (arrayLength_truncates h)).bind fun _ => ?_
      exact whenAtBrace_truncates (arrayInitializer_opens h.agree)
    refine TruncatesAt.bind ?_ fun _ => wrap_truncates rfl
    exact .isAt_ite rfl hlengths.anywhere (missing_truncates _)

theorem newExpression_truncates (h : inner.Truncate σ inner') :
    TruncatesAt σ σ.tail.length (· = .newKeyword) f (newExpression inner)
      (newExpression inner') := by
  refine .marker_bind fun m => (take_truncates_of rfl).bind fun _ => ?_
  exact (createdType_truncates h).bind fun _ => createdParts_wrap_truncates h

theorem primary_truncates (h : inner.Truncate σ inner') :
    Truncates σ σ.tail.length f (primary inner) (primary inner') := by
  refine .current_bind (fun kind _ => ?_) fun kind hclosing => ?_
  · split
    case h_9 => exact (typeReference_truncates h).guard.anywhere.discard.bind fun _ => .pure true
    case h_10 => exact (castOrParenthesized_truncates h).bind fun _ => .pure true
    case h_11 => exact (newExpression_truncates h).bind fun _ => .pure true
    case h_12 => exact .pure false
    all_goals exact (take_truncates_of rfl).bind fun _ => .pure true
  · rcases Kind.isClosing_cases hclosing with rfl | rfl | rfl <;> exact .pure false

theorem accessedName_truncates :
    Truncates σ σ.tail.length f accessedName accessedName := by
  have htake {kind : Kind} (hkind : kind.isInner = true) :
      TruncatesAt σ σ.tail.length (· = kind) f take take := take_truncates_of hkind
  refine .isAt_bind rfl ?_ ?_
  · exact .isAt_bind rfl (.isAt_bind rfl (htake rfl) (htake rfl))
      (.isAt_bind rfl (htake rfl) (htake rfl))
  · refine .isAt_bind rfl (.isAt_bind rfl (htake rfl) (htake rfl)) ?_
    exact .isAt_ite rfl (htake rfl) (missing_truncates _)

theorem trailer_truncates (h : inner.Truncate σ inner') :
    Truncates σ σ.tail.length m (trailer inner m) (trailer inner' m) := by
  refine .current_bind (fun kind _ => ?_) fun kind hclosing => ?_
  · split
    · refine (take_truncates_of rfl).bind fun _ => accessedName_truncates.bind fun _ => ?_
      exact (wrap_truncates rfl).bind fun _ => .pure true
    · rw [← bind_assoc, ← bind_assoc]
      exact ((argumentList_tears h).bind_wrap rfl rfl).bind fun _ => .pure true
    · refine (take_truncates_of rfl).bind fun _ =>
        (orMissing_truncates h.expression).bind fun _ => ?_
      refine (expect_truncates rfl).discard.bind fun _ => ?_
      exact (wrap_truncates rfl).bind fun _ => .pure true
    · exact (take_truncates_of rfl).bind fun _ => (wrap_truncates rfl).bind fun _ => .pure true
    · exact (take_truncates_of rfl).bind fun _ => (wrap_truncates rfl).bind fun _ => .pure true
    · exact .pure false
  · rcases Kind.isClosing_cases hclosing with rfl | rfl | rfl <;> exact .pure false

theorem operand_truncates (h : inner.Truncate σ inner') :
    Truncates σ σ.tail.length f (operand inner) (operand inner') := by
  refine .marker_bind fun m => (primary_truncates h).ite ?_ (.pure false)
  exact (loop_truncates (trailer_truncates h)).bind fun _ => .pure true

/-! ## Operators -/

theorem isInner_of_isUnaryOperator (kind : Kind) (h : isUnaryOperator kind = true) :
    kind.isInner = true := by
  revert h
  cases kind <;> decide

theorem isInner_of_precedence? {kind : Kind} {precedence : Nat}
    (h : precedence? kind = some precedence) : kind.isInner = true := by
  cases kind <;> first | rfl | cases h

theorem unary_truncates (h : inner.Truncate σ inner') :
    Truncates σ σ.tail.length f (unary inner) (unary inner') := by
  refine .isAtAny_ite ?_ ?_ (operand_truncates h)
  · intro kind hclosing
    rcases Kind.isClosing_cases hclosing with rfl | rfl | rfl <;> rfl
  · refine .marker_bind fun m => (take_truncates isInner_of_isUnaryOperator).bind fun _ => ?_
    refine (orMissing_truncates h.unary).bind fun _ => ?_
    exact (wrap_truncates rfl).bind fun _ => .pure true

theorem operatorStep_truncates (h : inner.Truncate σ inner') (least : Nat) :
    Truncates σ σ.tail.length m (operatorStep inner least m) (operatorStep inner' least m) := by
  refine .current_bind (fun kind hend => ?_) fun kind hclosing => ?_
  · cases hprecedence : precedence? kind with
    | none => exact .pure false
    | some precedence =>
      have htake : TruncatesAt σ σ.tail.length (· = kind) m take take := by
        exact take_truncates_of (isInner_of_precedence? hprecedence)
      dsimp only
      split_ifs
      · exact .pure false
      · refine htake.bind
          fun _ => (orMissing_truncates (typeReference_truncates h).guard).bind fun _ => ?_
        exact (wrap_truncates rfl).bind fun _ => .pure true
      · refine htake.bind fun _ => (orMissing_truncates h.operation).bind fun _ => ?_
        exact (wrap_truncates rfl).bind fun _ => .pure true
  · rcases Kind.isClosing_cases hclosing with rfl | rfl | rfl <;> exact .pure false

theorem operation_truncates (h : inner.Truncate σ inner') (least : Nat) :
    Truncates σ σ.tail.length f (operation inner least) (operation inner' least) := by
  refine .marker_bind fun m => (unary_truncates h).ite ?_ (.pure false)
  exact (loop_truncates (operatorStep_truncates h least)).bind fun _ => .pure true

theorem choices_truncates (h : inner.Truncate σ inner') :
    Truncates σ σ.tail.length m (choices inner m) (choices inner' m) := by
  refine (orMissing_truncates h.expression).bind fun _ => ?_
  refine (expect_truncates rfl).discard.bind fun _ => ?_
  exact (orMissing_truncates h.conditional).bind fun _ => wrap_truncates rfl

theorem conditional_truncates (h : inner.Truncate σ inner') :
    Truncates σ σ.tail.length f (conditional inner) (conditional inner') := by
  refine .marker_bind fun m => (operation_truncates h 0).ite ?_ (.pure false)
  exact (whenTaken_truncates rfl (choices_truncates h)).bind fun _ => .pure true

theorem assignedValue_truncates (h : inner.Truncate σ inner') :
    Truncates σ σ.tail.length f (assignedValue inner) (assignedValue inner') :=
  .isAtBrace_ite (arrayInitializer_opens h.agree) (orMissing_truncates h.expression)

theorem assignmentRest_truncates (h : inner.Truncate σ inner') :
    Truncates σ σ.tail.length m (assignmentRest inner m) (assignmentRest inner' m) := by
  have hassigned {kind : Kind} (hkind : kind.isInner = true) :
      TruncatesAt σ σ.tail.length (· = kind) m (do take; assignedValue inner; wrap m .assignment)
        (do take; assignedValue inner'; wrap m .assignment) := by
    refine (take_truncates_of hkind).bind fun _ => (assignedValue_truncates h).bind fun _ => ?_
    exact wrap_truncates rfl
  exact .isAtEither_ite rfl rfl (hassigned rfl) (hassigned rfl) (.pure ())

theorem expression_truncates (h : inner.Truncate σ inner') :
    Truncates σ σ.tail.length f (expression inner) (expression inner') := by
  refine .marker_bind fun m => (conditional_truncates h).ite ?_ (.pure false)
  exact (assignmentRest_truncates h).bind fun _ => .pure true

/-! ## Recursion -/

theorem failure_truncates {p' : Parser Bool} {least : Nat} :
    TruncatesAt σ least wanted f failure p' :=
  ⟨fun _ _ _ _ _ => nofun, fun _ _ _ _ _ _ _ _ _ _ => nofun⟩

theorem truncates_failure {p p' : Parser Bool} {least : Nat}
    (h : TruncatesAt σ least wanted f p p') :
    TruncatesAt σ least wanted f p failure :=
  ⟨h.shrinks, fun _ _ _ _ _ _ _ _ _ _ _ => nofun⟩

/-- However deep the rules are nested on the two sides. -/
theorem parseTo_truncate (σ : Seam) (depth depth' : Nat) :
    (parseTo depth).Truncate σ (parseTo depth') := by
  induction depth generalizing depth' with
  | zero =>
    refine ⟨parseTo_agree _ _, parseTo_agree _ _, ?_, ?_, ?_, ?_, ?_⟩ <;> exact failure_truncates
  | succ depth ih =>
    cases depth' with
    | zero =>
      have h := ih depth
      refine ⟨parseTo_agree _ _, parseTo_agree _ _, ?_, ?_, ?_, ?_, ?_⟩
      · exact truncates_failure (typeReference_truncates h)
      · exact truncates_failure (expression_truncates h)
      · exact truncates_failure (conditional_truncates h)
      · exact truncates_failure (operation_truncates h _)
      · exact truncates_failure (unary_truncates h)
    | succ depth' =>
      have h := ih depth'
      refine ⟨parseTo_agree _ _, parseTo_agree _ _, ?_, ?_, ?_, ?_, ?_⟩
      · exact typeReference_truncates h
      · exact expression_truncates h
      · exact conditional_truncates h
      · exact operation_truncates h _
      · exact unary_truncates h

end StatementCompletion.Grammar
