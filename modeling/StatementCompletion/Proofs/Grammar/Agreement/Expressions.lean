import StatementCompletion.Proofs.Grammar.Agreement.Types

/-!
# The rules for expressions in step

An expression takes its first token in at once or leaves everything alone, and which of them it does
is told by that token.  So it may be asked for anywhere, and what is built behind it has a footing.
-/

namespace StatementCompletion.Grammar

variable {wanted : Kind → Prop} {foot : Footing} {f f' m m' : Nat} {inner inner' : Inner}

/-- What an operand begins with. -/
def startsOperand : Kind → Bool
  | .numberLiteral | .stringLiteral | .charLiteral | .boolLiteral | .nullLiteral | .identifier
  | .thisKeyword | .superKeyword | .primitiveType | .leftParen | .newKeyword => true
  | _ => false

/-- An expression begins with an operand or an operator in front of one. -/
theorem startsExpression_eq (kind : Kind) :
    startsExpression kind = (isUnaryOperator kind || startsOperand kind) := by
  cases kind <;> rfl

/-! ## Lists -/

theorem argumentList_opens (h : inner.Agree inner') :
    OpensAt (· = .leftParen) (argumentList inner) (argumentList inner') := by
  refine OpensAt.marker_bind fun m m' => ?_
  refine (take_opens (by rintro _ rfl; decide)).bindFrom fun _ => ?_
  refine (unlessAt_agrees (orMissing_agrees (separated_agrees h.expression.agrees))).bind
    fun _ => ?_
  exact expect_agrees.discard.bind fun _ => wrap_agrees _ rfl

theorem arrayElement_agrees (h : inner.Agree inner') :
    Agrees foot f f' (arrayElement inner) (arrayElement inner') := by
  refine InStep.isAt_ite (AgreesAt.pure false) ?_
  exact InStep.isAt_ite h.arrayInitializer.agreesAt h.expression.agrees

theorem arrayInitializer_opens (h : inner.Agree inner') :
    OpensAt (· = .leftBrace) (arrayInitializer inner) (arrayInitializer inner') := by
  refine OpensAt.marker_bind fun m m' => ?_
  refine (take_opens (by rintro _ rfl; decide)).bindFrom fun _ => ?_
  refine (separated_agrees (arrayElement_agrees h)).discard.bind fun _ => ?_
  exact expect_agrees.discard.bind fun _ => wrap_agrees _ rfl

theorem memberBlock_opens (h : inner.Agree inner') :
    OpensAt (· = .leftBrace) (memberBlock inner) (memberBlock inner') := by
  refine (take_opens (by rintro _ rfl; decide)).bind fun _ f f' => ?_
  exact itemsUpToBrace_agrees h.member.discard

/-! ## Operands -/

theorem arrayLength_agrees (h : inner.Agree inner') :
    Agrees foot f f' (arrayLength inner) (arrayLength inner') := by
  refine AgreesAt.lift (takeIf_agrees.ite ?_ (AgreesAt.pure false))
  refine (unlessAt_agrees (orMissing_agrees h.expression.agrees)).bind fun _ => ?_
  exact expect_agrees.discard.bind fun _ => AgreesAt.pure true

/-- What the name of a created type begins with. -/
def startsCreatedName : Kind → Bool
  | .primitiveType | .identifier => true
  | _ => false

theorem createdName_opens (h : inner.Agree inner') :
    OpensAt (startsCreatedName · = true) (createdName inner) (createdName inner') := by
  refine InStep.current_bind fun kind hkind => ?_
  split
  · exact take_opens (by rintro _ rfl; decide)
  · exact className_opens h
  · simp_all [startsCreatedName]

theorem createdName_of_not {s : State} (hs : startsCreatedName s.current = false) :
    (createdName inner).run s = some ((), s.markMissing (.construct .typeReference)) := by
  show StateT.run (match s.current with
    | .primitiveType => take
    | .identifier => className inner
    | _ => missing (.construct .typeReference)) s = _
  split
  · simp_all [startsCreatedName]
  · simp_all [startsCreatedName]
  · rfl

theorem createdType_agrees (h : inner.Agree inner') :
    Agrees foot f f' (createdType inner) (createdType inner') := by
  intro s s' halike hkind hs b u b' u' hrun hrun'
  have hrun : (createdName inner >>= fun _ => (do
      if (← marker) ≠ s.marker then wrap s.marker .typeReference)).run s = some (b, u) := hrun
  have hrun' : (createdName inner' >>= fun _ => (do
      if (← marker) ≠ s'.marker then wrap s'.marker .typeReference)).run s' = some (b', u') := hrun'
  cases hstarts : startsCreatedName s.current with
  | true =>
    have hopens := (createdName_opens h).bindFrom fun _ =>
      @built_wrap_agrees s.marker s'.marker .typeReference rfl
    obtain ⟨hb, hu⟩ := hopens s s' halike hstarts ⟨rfl, rfl⟩ b u b' u' hrun hrun'
    exact ⟨hb, hu.abreast hs.level.left hs.level.right⟩
  | false =>
    -- the mark that the name is missing is made on both sides or on neither
    have hstarts' : startsCreatedName s'.current = false := by rwa [halike.current_eq]
    rw [StateT.run_bind, createdName_of_not hstarts] at hrun
    rw [StateT.run_bind, createdName_of_not hstarts'] at hrun'
    generalize ht : s.markMissing _ = t at hrun
    generalize ht' : s'.markMissing _ = t' at hrun'
    have hmissing : Abreast s.marker s'.marker s s' t t' :=
      ht ▸ ht' ▸ ⟨halike.markMissing _, Evolves.refl.missing _, Evolves.refl.missing _⟩
    have hiff : t.marker = s.marker ↔ t'.marker = s'.marker :=
      ht ▸ ht' ▸ halike.marker_markMissing_iff _
    have hrun : (if t.marker ≠ s.marker then wrap s.marker .typeReference else pure ()).run t
        = some (b, u) := hrun
    have hrun' : (if t'.marker ≠ s'.marker then wrap s'.marker .typeReference else pure ()).run t'
        = some (b', u') := hrun'
    refine ⟨rfl, (hmissing.trans ?_).lower hs.level.left hs.level.right⟩
    have hfaces := (Faces.of_alike halike).lift.evolves halike (by decide) hmissing
    by_cases hbuilt : t.marker = s.marker
    · rw [if_neg (not_not.2 hbuilt)] at hrun
      rw [if_neg (not_not.2 (hiff.1 hbuilt))] at hrun'
      rw [(run_pure_eq_some.1 hrun).2, (run_pure_eq_some.1 hrun').2]
      exact .refl hmissing.alike
    · rw [if_pos hbuilt] at hrun
      rw [if_pos (mt hiff.2 hbuilt)] at hrun'
      exact (wrap_agrees .typeReference rfl t t' hmissing.alike trivial hfaces b u b'
        u' hrun hrun').2

theorem createdParts_agrees (h : inner.Agree inner') :
    Agrees foot f f' (createdParts inner) (createdParts inner') := by
  refine AgreesAt.lift (InStep.isAt_ite ?_ (InStep.isAt_ite ?_ (missing_agrees _)))
  · refine (argumentList_opens h).agreesAt.bind fun _ => ?_
    exact whenAt_agrees (memberBlock_opens h).agreesAt
  · refine (loop_agrees (arrayLength_agrees h)).at.bind fun _ => ?_
    exact whenAt_agrees (arrayInitializer_opens h).agreesAt

theorem newExpression_opens (h : inner.Agree inner') :
    OpensAt (· = .newKeyword) (newExpression inner) (newExpression inner') := by
  refine OpensAt.marker_bind fun m m' => ?_
  refine (take_opens (by rintro _ rfl; decide)).bindFrom fun _ => ?_
  refine (createdType_agrees h).bind fun _ => ?_
  exact (createdParts_agrees h).bind fun _ => wrap_agrees _ rfl

theorem isCast_reads_in_step (h : inner.Agree inner') :
    ReadsAt (· = .leftParen) (isCast inner) (isCast inner') := by
  refine lookAhead_reads_in_step (OpensAt.retractsAt ?_)
  refine (take_opens (by rintro _ rfl; decide)).bind fun _ f f' => ?_
  refine (typeReference_phrases h).agrees.ite ?_ (AgreesAt.pure false)
  exact takeIf_agrees.ite (isAtAny_reads_in_step _).agreesAt (AgreesAt.pure false)

theorem typeCast_opens (h : inner.Agree inner') :
    OpensAt (· = .leftParen) (typeCast inner) (typeCast inner') := by
  refine OpensAt.marker_bind fun m m' => ?_
  refine (take_opens (by rintro _ rfl; decide)).bindFrom fun _ => ?_
  refine (typeReference_phrases h).agrees.discard.bind fun _ => ?_
  refine expect_agrees.discard.bind fun _ => ?_
  exact (orMissing_agrees h.unary.agrees).bind fun _ => wrap_agrees _ rfl

theorem parenthesized_opens (h : inner.Agree inner') :
    OpensAt (· = .leftParen) (parenthesized inner) (parenthesized inner') := by
  refine OpensAt.marker_bind fun m m' => ?_
  refine (take_opens (by rintro _ rfl; decide)).bindFrom fun _ => ?_
  refine (orMissing_agrees h.expression.agrees).bind fun _ => ?_
  exact expect_agrees.discard.bind fun _ => wrap_agrees _ rfl

theorem castOrParenthesized_opens (h : inner.Agree inner') :
    OpensAt (· = .leftParen) (castOrParenthesized inner) (castOrParenthesized inner') :=
  (isCast_reads_in_step h).ite (typeCast_opens h) (parenthesized_opens h)

theorem primary_phrase : Phrase startsOperand (primary inner) := by
  constructor
  · intro s a t hstarts hrun
    obtain ⟨kind, s, hcurrent, hrun⟩ := run_bind_eq_some.1 hrun
    obtain ⟨rfl, rfl⟩ := Prod.mk.inj (Option.some.inj hcurrent)
    split at hrun
    case h_12 => simp_all [startsOperand]
    all_goals exact AnswersYes.bind (fun _ => .pure) _ _ _ hrun
  · intro s a t hstarts hrun
    obtain ⟨kind, s, hcurrent, hrun⟩ := run_bind_eq_some.1 hrun
    obtain ⟨rfl, rfl⟩ := Prod.mk.inj (Option.some.inj hcurrent)
    split at hrun
    case h_12 => exact run_pure_eq_some.1 hrun
    all_goals simp_all [startsOperand]

theorem primary_phrases (h : inner.Agree inner') :
    Phrases startsOperand (primary inner) (primary inner') := by
  refine ⟨primary_phrase, primary_phrase, InStep.current_bind fun kind hkind => ?_⟩
  split
  case h_9 =>
    refine OpensAt.bind (InStep.discard ?_) fun _ _ _ => AgreesAt.pure true
    exact (typeReference_phrases h).opens.mono (by rintro _ rfl; rfl)
  case h_10 => exact (castOrParenthesized_opens h).bind fun _ _ _ => AgreesAt.pure true
  case h_11 => exact (newExpression_opens h).bind fun _ _ _ => AgreesAt.pure true
  case h_12 => simp_all [startsOperand]
  all_goals
    exact (take_opens (by rintro _ rfl; decide)).bind fun _ _ _ => AgreesAt.pure true

theorem accessedName_agrees : Agrees foot f f' accessedName accessedName := by
  refine InStep.isAt_bind ?_ (InStep.isAt_bind ?_ ?_)
  · refine (isAt_reads_in_step _).bind fun _ => (isAt_reads_in_step _).bind fun _ => ?_
    exact take_agrees.at
  · exact (isAt_reads_in_step _).bind fun _ => take_agrees.at
  · exact InStep.isAt_ite take_agrees.at (missing_agrees _)

theorem trailer_agrees (h : inner.Agree inner') :
    Agrees foot m m' (trailer inner m) (trailer inner' m') := by
  refine AgreesAt.lift (InStep.current_bind fun kind _ => ?_)
  split
  · refine take_agrees.at.bind fun _ => accessedName_agrees.bind fun _ => ?_
    exact (wrap_agrees _ rfl).bind fun _ => AgreesAt.pure true
  · refine (argumentList_opens h).agreesAt.bind fun _ => ?_
    exact (wrap_agrees _ rfl).bind fun _ => AgreesAt.pure true
  · refine take_agrees.at.bind fun _ => ?_
    refine (orMissing_agrees h.expression.agrees).bind fun _ =>
      expect_agrees.discard.bind fun _ => ?_
    exact (wrap_agrees _ rfl).bind fun _ => AgreesAt.pure true
  · exact take_agrees.at.bind fun _ => (wrap_agrees _ rfl).bind fun _ => AgreesAt.pure true
  · exact take_agrees.at.bind fun _ => (wrap_agrees _ rfl).bind fun _ => AgreesAt.pure true
  · exact AgreesAt.pure false

theorem operand_phrase : Phrase startsOperand (operand inner) :=
  primary_phrase.behind

theorem operand_phrases (h : inner.Agree inner') :
    Phrases startsOperand (operand inner) (operand inner') :=
  (primary_phrases h).behind fun _ _ => loop_agrees (trailer_agrees h)

/-! ## Operators -/

theorem unary_phrase : Phrase startsExpression (unary inner) := by
  constructor
  · intro s a t hstarts hrun
    have hrun : (if isUnaryOperator s.current then (do
        let opening ← marker
        take
        orMissing (inner .unary) .expression
        wrap opening .unaryExpression
        return true) else operand inner).run s = some (a, t) := hrun
    split at hrun
    · exact AnswersYes.bind (fun _ => .bind fun _ => .bind fun _ => .bind fun _ => .pure) _ _ _ hrun
    · next hunary =>
      rw [startsExpression_eq, Bool.eq_false_iff.2 hunary, Bool.false_or] at hstarts
      exact operand_phrase.yes hstarts hrun
  · intro s a t hstarts hrun
    rw [startsExpression_eq, Bool.or_eq_false_iff] at hstarts
    have hrun : (if isUnaryOperator s.current then _ else operand inner).run s = some (a, t) := hrun
    rw [hstarts.1, if_neg Bool.false_ne_true] at hrun
    exact operand_phrase.no hstarts.2 hrun

theorem unary_phrases (h : inner.Agree inner') :
    Phrases startsExpression (unary inner) (unary inner') := by
  refine ⟨unary_phrase, unary_phrase, InStep.isAtAny_cases ?_ ?_⟩
  · refine OpensAt.marker_bind fun m m' => ?_
    refine (take_opens (by rintro kind hkind rfl; cases hkind)).bindFrom fun _ => ?_
    refine (orMissing_agrees h.unary.agrees).bind fun _ => ?_
    exact (wrap_agrees _ rfl).bind fun _ => AgreesAt.pure true
  · refine (operand_phrases h).opens.mono fun kind hkind => ?_
    rw [startsExpression_eq, hkind.2, Bool.false_or] at hkind
    exact hkind.1

theorem operatorStep_agrees (h : inner.Agree inner') (least : Nat) :
    Agrees foot m m' (operatorStep inner least m) (operatorStep inner' least m') := by
  refine AgreesAt.lift (InStep.current_bind fun kind _ => ?_)
  cases precedence? kind with
  | none => exact AgreesAt.pure false
  | some precedence =>
    dsimp only
    split_ifs
    · exact AgreesAt.pure false
    · refine take_agrees.at.bind fun _ => ?_
      refine (orMissing_agrees (typeReference_phrases h).agrees).bind fun _ => ?_
      exact (wrap_agrees _ rfl).bind fun _ => AgreesAt.pure true
    · refine take_agrees.at.bind fun _ => ?_
      refine (orMissing_agrees h.operation.agrees).bind fun _ => ?_
      exact (wrap_agrees _ rfl).bind fun _ => AgreesAt.pure true

theorem operation_phrases (h : inner.Agree inner') (least : Nat) :
    Phrases startsExpression (operation inner least) (operation inner' least) :=
  (unary_phrases h).behind fun _ _ => loop_agrees (operatorStep_agrees h least)

theorem choices_agrees (h : inner.Agree inner') :
    Agrees foot m m' (choices inner m) (choices inner' m') := by
  refine AgreesAt.lift ((orMissing_agrees h.expression.agrees).bind fun _ => ?_)
  refine expect_agrees.discard.bind fun _ => ?_
  exact (orMissing_agrees h.conditional.agrees).bind fun _ => wrap_agrees _ rfl

theorem conditional_phrases (h : inner.Agree inner') :
    Phrases startsExpression (conditional inner) (conditional inner') :=
  (operation_phrases h 0).behind fun _ _ => whenTaken_agrees (choices_agrees h)

theorem assignedValue_agrees (h : inner.Agree inner') :
    Agrees foot f f' (assignedValue inner) (assignedValue inner') :=
  InStep.isAt_ite (arrayInitializer_opens h).agreesAt (orMissing_agrees h.expression.agrees)

theorem assignmentRest_agrees (h : inner.Agree inner') :
    Agrees foot m m' (assignmentRest inner m) (assignmentRest inner' m') := by
  have hassigned {kind : Kind} : AgreesAt (· = kind) .any m m'
      (do take; assignedValue inner; wrap m .assignment)
      (do take; assignedValue inner'; wrap m' .assignment) :=
    take_agrees.at.bind fun _ => (assignedValue_agrees h).bind fun _ => wrap_agrees _ rfl
  exact AgreesAt.lift (InStep.isAtEither_ite hassigned hassigned (AgreesAt.pure ()))

theorem expression_phrases (h : inner.Agree inner') :
    Phrases startsExpression (expression inner) (expression inner') :=
  (conditional_phrases h).behind fun _ _ => assignmentRest_agrees h

/-- What every rule for an expression tells by its first token, whatever the rules inside are. -/
theorem operation_phrase (least : Nat) : Phrase startsExpression (operation inner least) :=
  unary_phrase.behind

theorem conditional_phrase : Phrase startsExpression (conditional inner) :=
  (operation_phrase 0).behind

theorem expression_phrase : Phrase startsExpression (expression inner) :=
  conditional_phrase.behind

end StatementCompletion.Grammar
