import StatementCompletion.Grammar.Expression
import StatementCompletion.Proofs.Grammar.Loops

/-!
# The promises of the rules for types and expressions

If the constructs inside a rule may be parsed with fewer than `n` tokens ahead, the rule may be run
with one token more.  For it comes to the types and expressions inside it only behind a token of its
own: an operator, an opening bracket or a word.
-/

namespace StatementCompletion.Grammar

variable {place : Place} {n floor opening : Nat} {inner : Inner}

/-! ## Types -/

theorem dottedName_parses : Parses place (n + 1) floor (· = true) dottedName := by
  refine .isAtBefore_ite (Eats.parsesAt ?_ (by decide)) (.pure (by simp))
  refine Eats.take_bind ?_
  exact take_parses.bind fun _ => .pure id

theorem dimension_parses : Parses place (n + 1) floor (· = true) dimension := by
  refine .isAtBefore_ite (Eats.parsesAt ?_ (by decide)) (.pure (by simp))
  refine Eats.take_bind ?_
  exact take_parses.bind fun _ => .pure id

theorem typeBound_parses (h : inner.Builds n) :
    Parses place (n + 1) floor never (typeBound inner) := by
  have hbound : Eats (n + 1) floor (do take; discard (inner .typeReference)) :=
    Eats.take_bind h.typeReference.discard
  refine .isAtEither_ite ?_ ?_ (.pure id)
  · exact hbound.parsesAt (by decide)
  · exact hbound.parsesAt (by decide)

theorem typeArgument_builds (h : inner.Builds n) : Builds n floor (typeArgument inner) := by
  refine Parses.ite (takeIf_parses (by decide)) ?_ h.typeReference
  exact (typeBound_parses h).less.bind fun _ => .pure id

theorem typeArguments_eats (h : inner.Builds n) : Eats (n + 1) floor (typeArguments inner) := by
  refine Eats.take_bind ?_
  refine Parses.ite (takeIf_parses (by decide)) (.pure id) ?_
  refine Parses.ite (separated_parses (by decide) (typeArgument_builds h)) ?_ (.pure id)
  exact (takeIf_parses (by decide)).weaken

theorem className_eats (h : inner.Builds n) : Eats (n + 1) floor (className inner) := by
  refine Eats.take_bind ?_
  refine (loop_parses dottedName_parses.less).bind fun _ => ?_
  refine whenAt_parses (ParsesAt.less (attempt_parsesAt fun _ => ?_))
  exact (typeArguments_eats h).parsesAt (by decide)

/-- A type takes a token in before it wraps anything, so it may be read ahead. -/
theorem typeReference_parses (h : inner.Builds n) :
    Parses place (n + 1) floor (· = true) (typeReference inner) := by
  refine .marker_bind fun opening hopening => ?_
  refine .current_bind fun kind => ?_
  have hrest : Builds n floor (do loop dimension; wrap opening .typeReference; return true) := by
    refine (loop_parses dimension_parses.less).bind fun _ => ?_
    exact (wrap_builds _ hopening).bind fun _ => .pure id
  split
  · exact (Eats.take_bind hrest).parsesAt (by decide)
  · exact (Eats.take_bind hrest).parsesAt (by decide)
  · exact ((className_eats h).bind fun _ => hrest).parsesAt (by decide)
  · exact (Parses.pure (by simp)).parsesAt

theorem types_builds (h : inner.Builds n) : Builds (n + 1) floor (types inner) :=
  orMissing_builds _ (separated_parses (by decide) (typeReference_parses h))

theorem isVariableDeclaration_reads (h : inner.Builds n) :
    Reads (n + 1) (isVariableDeclaration inner) := by
  refine lookAhead_reads fun floor => ?_
  exact (typeReference_parses h).ite (isAt_reads _).parses (.pure id)

/-! ## Lists -/

theorem argumentList_eats (h : inner.Builds n) : Eats (n + 1) floor (argumentList inner) := by
  refine .marker_bind fun opening hopening => ?_
  refine Eats.take_bind ?_
  have harguments : Builds n floor
      (orMissing (separated .comma (inner .expression)) .expression) :=
    orMissing_builds _ (separated_parses (by decide) h.expression)
  refine (unlessAt_parses harguments).bind fun _ => ?_
  refine (expect_builds (by decide)).discard.bind fun _ => ?_
  exact wrap_builds _ hopening

theorem arrayElement_builds (h : inner.Builds n) : Builds n floor (arrayElement inner) := by
  refine .isAt_ite (Parses.pure id).parsesAt ?_
  refine .isAt_ite h.arrayInitializer ?_
  exact h.expression

theorem arrayInitializer_eats (h : inner.Builds n) :
    Eats (n + 1) floor (arrayInitializer inner) := by
  refine .marker_bind fun opening hopening => ?_
  refine Eats.take_bind ?_
  refine (separated_parses (by decide) (arrayElement_builds h)).discard.bind fun _ => ?_
  refine (expect_builds (by decide)).discard.bind fun _ => ?_
  exact wrap_builds _ hopening

theorem memberBlock_eats (h : inner.Builds n) : Eats (n + 1) floor (memberBlock inner) :=
  Eats.take_bind (itemsUpToBrace_builds h.member.discard)

/-! ## Operands -/

theorem arrayLength_parses (h : inner.Builds n) :
    Parses place (n + 1) floor (· = true) (arrayLength inner) := by
  refine .takeIf_ite (by decide) ?_ (.pure (by simp))
  refine (unlessAt_parses (orMissing_builds _ h.expression)).bind fun _ => ?_
  exact (expect_builds (by decide)).discard.bind fun _ => .pure id

theorem createdName_builds (h : inner.Builds n) : Builds (n + 1) floor (createdName inner) := by
  refine .current_bind fun kind => ?_
  split
  · exact take_parses.parsesAt
  · exact (className_eats h).parsesAt (by decide)
  · exact (missing_builds _).parsesAt

theorem createdType_builds (h : inner.Builds n) : Builds (n + 1) floor (createdType inner) := by
  refine .marker_bind fun opening hopening => ?_
  refine (createdName_builds h).bind fun _ => ?_
  refine .marker_bind fun now _ => ?_
  split
  · exact wrap_builds _ hopening
  · exact .pure id

theorem createdParts_builds (h : inner.Builds n) : Builds (n + 1) floor (createdParts inner) := by
  have hmembers : Builds (n + 1) floor (whenAt .leftBrace (memberBlock inner)) :=
    whenAt_parses ((memberBlock_eats h).parsesAt (by decide))
  have helements : Builds (n + 1) floor (whenAt .leftBrace (arrayInitializer inner)) :=
    whenAt_parses ((arrayInitializer_eats h).parsesAt (by decide))
  refine .isAt_ite ?_ (.isAt_ite ?_ (missing_builds _))
  · exact ((argumentList_eats h).bind fun _ => hmembers.less).parsesAt (by decide)
  · exact ((loop_parses (arrayLength_parses h)).bind fun _ => helements).parsesAt

theorem newExpression_eats (h : inner.Builds n) : Eats (n + 1) floor (newExpression inner) := by
  refine .marker_bind fun opening hopening => ?_
  refine Eats.take_bind ?_
  refine (createdType_builds h).less.bind fun _ => ?_
  refine (createdParts_builds h).less.bind fun _ => ?_
  exact wrap_builds _ hopening

theorem isCast_reads (h : inner.Builds n) : Reads (n + 1) (isCast inner) := by
  refine lookAhead_reads fun floor => ?_
  refine take_parses.bind fun _ => ?_
  refine (typeReference_parses h).ite ?_ (.pure id)
  exact (takeIf_parses (by decide)).ite (isAtAny_reads _).parses (.pure id)

theorem typeCast_eats (h : inner.Builds n) : Eats (n + 1) floor (typeCast inner) := by
  refine .marker_bind fun opening hopening => ?_
  refine Eats.take_bind ?_
  refine (typeReference_parses h).less.discard.bind fun _ => ?_
  refine (expect_builds (by decide)).discard.bind fun _ => ?_
  refine (orMissing_builds _ h.unary).bind fun _ => ?_
  exact wrap_builds _ hopening

theorem parenthesized_eats (h : inner.Builds n) : Eats (n + 1) floor (parenthesized inner) := by
  refine .marker_bind fun opening hopening => ?_
  refine Eats.take_bind ?_
  refine (orMissing_builds _ h.expression).bind fun _ => ?_
  refine (expect_builds (by decide)).discard.bind fun _ => ?_
  exact wrap_builds _ hopening

theorem castOrParenthesized_eats (h : inner.Builds n) :
    Eats (n + 1) floor (castOrParenthesized inner) := by
  refine (isCast_reads h).bindEats fun cast => ?_
  cases cast with
  | true => exact typeCast_eats h
  | false => exact parenthesized_eats h

theorem primary_builds (h : inner.Builds n) : Builds (n + 1) floor (primary inner) := by
  refine .current_bind fun kind => ?_
  have htoken : Builds (n + 1) floor (do take; return true) :=
    take_parses.bind fun _ => .pure id
  split
  any_goals exact htoken.parsesAt
  · exact ((typeReference_parses h).discard.bind fun _ => .pure id).parsesAt
  · exact ((castOrParenthesized_eats h).bind fun _ => .pure id).parsesAt (by decide)
  · exact ((newExpression_eats h).bind fun _ => .pure id).parsesAt (by decide)
  · exact (Parses.pure id).parsesAt

theorem accessedName_builds : Builds n floor accessedName := by
  refine (isAt_reads _).bind fun atName => ?_
  refine (isAt_reads _).bind fun atClass => ?_
  refine (isAt_reads _).bind fun atThis => ?_
  split
  · exact take_parses
  · exact missing_builds _

theorem trailer_parses (h : inner.Builds n) (hopening : floor ≤ opening) :
    Parses place (n + 1) floor (· = true) (trailer inner opening) := by
  refine .current_bind fun kind => ?_
  have hstep : Eats (n + 1) floor (do take; wrap opening .postfixExpression; return true) :=
    Eats.take_bind ((wrap_builds _ hopening).bind fun _ => .pure id)
  split
  · refine Eats.parsesAt (Eats.take_bind ?_) (by decide)
    refine accessedName_builds.bind fun _ => ?_
    exact (wrap_builds _ hopening).bind fun _ => .pure id
  · refine Eats.parsesAt ((argumentList_eats h).bind fun _ => ?_) (by decide)
    exact (wrap_builds _ hopening).bind fun _ => .pure id
  · refine Eats.parsesAt (Eats.take_bind ?_) (by decide)
    refine (orMissing_builds _ h.expression).bind fun _ => ?_
    refine (expect_builds (by decide)).discard.bind fun _ => ?_
    exact (wrap_builds _ hopening).bind fun _ => .pure id
  · exact hstep.parsesAt (by decide)
  · exact hstep.parsesAt (by decide)
  · exact (Parses.pure (by simp)).parsesAt

theorem operand_builds (h : inner.Builds n) : Builds (n + 1) floor (operand inner) := by
  refine .marker_bind fun opening hopening => ?_
  refine (primary_builds h).ite ?_ (.pure id)
  exact (loop_parses (trailer_parses h hopening)).bind fun _ => .pure id

/-! ## Operators -/

theorem unary_builds (h : inner.Builds n) : Builds (n + 1) floor (unary inner) := by
  refine .isAtAny_ite rfl ?_ (operand_builds h)
  refine .marker_bind fun opening hopening => ?_
  refine Eats.take_bind ?_
  refine (orMissing_builds _ h.unary).bind fun _ => ?_
  exact (wrap_builds _ hopening).bind fun _ => .pure id

theorem operatorStep_parses (h : inner.Builds n) (least : Nat) (hopening : floor ≤ opening) :
    Parses place (n + 1) floor (· = true) (operatorStep inner least opening) := by
  refine .current_bind fun kind => ?_
  split
  · exact (Parses.pure (by simp)).parsesAt
  · next precedence hprecedence =>
    have hkind : kind ≠ .endOfFile := by
      rintro rfl
      simp [precedence?] at hprecedence
    split_ifs
    · exact (Parses.pure (by simp)).parsesAt
    · refine Eats.parsesAt (Eats.take_bind ?_) hkind
      refine (orMissing_builds _ (typeReference_parses h).less).bind fun _ => ?_
      exact (wrap_builds _ hopening).bind fun _ => .pure id
    · refine Eats.parsesAt (Eats.take_bind ?_) hkind
      refine (orMissing_builds _ h.operation).bind fun _ => ?_
      exact (wrap_builds _ hopening).bind fun _ => .pure id

theorem operation_builds (h : inner.Builds n) (least : Nat) :
    Builds (n + 1) floor (operation inner least) := by
  refine .marker_bind fun opening hopening => ?_
  refine (unary_builds h).ite ?_ (.pure id)
  exact (loop_parses (operatorStep_parses h least hopening)).bind fun _ => .pure id

theorem choices_builds (h : inner.Builds n) (hopening : floor ≤ opening) :
    Builds n floor (choices inner opening) := by
  refine (orMissing_builds _ h.expression).bind fun _ => ?_
  refine (expect_builds (by decide)).discard.bind fun _ => ?_
  refine (orMissing_builds _ h.conditional).bind fun _ => ?_
  exact wrap_builds _ hopening

theorem conditional_builds (h : inner.Builds n) : Builds (n + 1) floor (conditional inner) := by
  refine .marker_bind fun opening hopening => ?_
  refine (operation_builds h 0).ite ?_ (.pure id)
  exact (whenTaken_parses (by decide) (choices_builds h hopening)).bind fun _ => .pure id

theorem assignedValue_builds (h : inner.Builds n) : Builds n floor (assignedValue inner) := by
  refine .isAt_ite ?_ (orMissing_builds _ h.expression)
  exact ((arrayInitializer_eats h).parsesAt (by decide)).less

theorem assignmentRest_builds (h : inner.Builds n) (hopening : floor ≤ opening) :
    Builds (n + 1) floor (assignmentRest inner opening) := by
  have hrest : Eats (n + 1) floor (do
      take
      assignedValue inner
      wrap opening .assignment) := by
    refine Eats.take_bind ?_
    exact (assignedValue_builds h).bind fun _ => wrap_builds _ hopening
  refine .isAtEither_ite ?_ ?_ (.pure id)
  · exact hrest.parsesAt (by decide)
  · exact hrest.parsesAt (by decide)

theorem expression_builds (h : inner.Builds n) : Builds (n + 1) floor (expression inner) := by
  refine .marker_bind fun opening hopening => ?_
  refine (conditional_builds h).ite ?_ (.pure id)
  exact (assignmentRest_builds h hopening).bind fun _ => .pure id

end StatementCompletion.Grammar
