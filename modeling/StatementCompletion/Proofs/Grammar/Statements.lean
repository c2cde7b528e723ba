import StatementCompletion.Grammar.Statement
import StatementCompletion.Proofs.Grammar.Expressions

/-!
# The promises of the rules for statements

A statement contains other statements only behind its keyword or its brace.
-/

namespace StatementCompletion.Grammar

variable {place : Place} {n floor opening : Nat} {inner : Inner}

/-! ## Modifiers and variables -/

theorem modifier_parses (h : inner.Builds n) :
    Parses place (n + 1) floor (· = true) (modifier inner) := by
  refine .current_bind fun kind => ?_
  have htoken : Eats (n + 1) floor (do take; return true) :=
    Eats.take_bind (.pure id)
  have harguments : Builds (n + 1) floor (whenAt .leftParen (argumentList inner)) :=
    whenAt_parses ((argumentList_eats h).parsesAt (by decide))
  split
  · exact htoken.parsesAt (by decide)
  · exact htoken.parsesAt (by decide)
  · refine Eats.parsesAt (Eats.take_bind ?_) (by decide)
    refine (expect_builds (by decide)).discard.bind fun _ => ?_
    refine (loop_parses dottedName_parses.less).bind fun _ => ?_
    exact harguments.less.bind fun _ => .pure id
  · exact (Parses.pure (by simp)).parsesAt

/-- Modifiers are wrapped only if there are some, so they may be read ahead. -/
theorem modifiers_parses (h : inner.Builds n) :
    Parses place (n + 1) floor never (modifiers inner) := by
  intro s hn hfloor
  have hmarker := hfloor.trans (s.height_le_marker place)
  show Runs (loop (modifier inner) >>= fun _ => _) s _
  refine (loop_parses (modifier_parses h) s hn hfloor).bind fun _ t ⟨ht, _⟩ => ?_
  show Runs (if t.marker ≠ s.marker then wrap s.marker .modifierList else pure ()) t _
  split
  · next hchanged =>
    have hsolid : floor ≤ t.solid := by
      rcases ht.eq_or_floor_le_solid hmarker with rfl | hsolid
      · exact absurd rfl hchanged
      · exact hsolid
    have hlength := ht.length_ahead_le.trans_lt hn
    refine (wrap_builds .modifierList hmarker t hlength hsolid).mono fun _ u ⟨hu, _⟩ => ?_
    exact ⟨ht.trans hu, False.elim⟩
  · exact Runs.pure ⟨ht, False.elim⟩

theorem initialValue_builds (h : inner.Builds n) :
    Builds (n + 1) floor (initialValue inner) := by
  refine .isAt_ite ?_ (orMissing_builds _ (expression_builds h))
  exact (arrayInitializer_eats h).parsesAt (by decide)

theorem variableRest_builds (h : inner.Builds n) :
    Builds (n + 1) floor (variableRest inner) := by
  refine (loop_parses dimension_parses).bind fun _ => ?_
  exact whenTaken_parses (by decide) (initialValue_builds h).less

theorem nextVariable_parses (h : inner.Builds n) :
    Parses place (n + 1) floor (· = true) (nextVariable inner) := by
  refine .takeIf_ite (by decide) ?_ (.pure (by simp))
  refine .marker_bind fun opening hopening => ?_
  refine (expect_builds (by decide)).discard.bind fun _ => ?_
  refine (variableRest_builds h).less.bind fun _ => ?_
  exact (wrap_builds _ hopening).bind fun _ => .pure id

theorem variableDeclaration_builds (h : inner.Builds n) (hopening : floor ≤ opening) :
    Builds (n + 1) floor (variableDeclaration inner opening) := by
  refine (orMissing_builds _ (typeReference_parses h)).bind fun _ => ?_
  refine (expect_builds (by decide)).discard.bind fun _ => ?_
  refine (variableRest_builds h).bind fun _ => ?_
  refine (wrap_builds _ hopening).bind fun _ => ?_
  refine (loop_parses (nextVariable_parses h)).bind fun _ => ?_
  refine (expect_builds (by decide)).discard.bind fun _ => ?_
  exact wrap_builds _ hopening

theorem alternativeType_parses (h : inner.Builds n) :
    Parses place (n + 1) floor (· = true) (alternativeType inner) := by
  refine .takeIf_ite (by decide) ?_ (.pure (by simp))
  exact (typeReference_parses h).less.discard.bind fun _ => .pure id

theorem parameterRest_builds (h : inner.Builds n) :
    Builds (n + 1) floor (parameterRest inner) := by
  refine (typeReference_parses h).ite ?_ (missing_builds _)
  refine (loop_parses (alternativeType_parses h)).bind fun _ => ?_
  refine (loop_parses (takeIf_parses (by decide))).bind fun _ => ?_
  refine (expect_builds (by decide)).discard.bind fun _ => ?_
  exact loop_parses dimension_parses

theorem parameter_builds (h : inner.Builds n) : Builds (n + 1) floor (parameter inner) := by
  refine Parses.ite (isAtAny_reads _).parses ?_ (.pure id)
  refine .marker_bind fun opening hopening => ?_
  refine (modifiers_parses h).bind fun _ => ?_
  refine (parameterRest_builds h).bind fun _ => ?_
  exact (wrap_builds _ hopening).bind fun _ => .pure id

/-! ## Blocks and bodies -/

theorem codeBlock_eats (h : inner.Builds n) : Eats (n + 1) floor (codeBlock inner) := by
  refine .marker_bind fun opening hopening => ?_
  refine Eats.take_bind ?_
  refine (itemsUpToBrace_builds h.statement.discard).bind fun _ => ?_
  exact wrap_builds _ hopening

theorem requiredBlock_builds (h : inner.Builds n) (wanted : Wanted) :
    Builds (n + 1) floor (requiredBlock inner wanted) :=
  .isAt_ite ((codeBlock_eats h).parsesAt (by decide)) (missing_builds wanted)

theorem body_builds (h : inner.Builds n) : Builds n floor (body inner) :=
  Parses.ite (isAtAny_reads _).parses h.statement.discard (missing_builds _)

theorem condition_builds (h : inner.Builds n) : Builds (n + 1) floor (condition inner) := by
  refine .takeIf_ite (by decide) ?_ ?_
  · refine (orMissing_builds _ (expression_builds h).less).bind fun _ => ?_
    exact (expect_builds (by decide)).discard
  · refine (missing_builds _).bind fun _ => ?_
    refine isOnNewLine_reads.bind fun onNewLine => ?_
    refine (isAtAny_reads _).bind fun atExpression => ?_
    split
    · exact (expression_builds h).discard
    · exact .pure id

/-! ## Branches and loops -/

theorem ifStatement_eats (h : inner.Builds n) (hopening : floor ≤ opening) :
    Eats (n + 1) floor (ifStatement inner opening) := by
  refine Eats.take_bind ?_
  refine (condition_builds h).less.bind fun _ => ?_
  refine (body_builds h).bind fun _ => ?_
  have helse : Builds n floor (whenTaken .elseKeyword (body inner)) := by
    refine Parses.ite (takeIf_parses (by decide)) (body_builds h) (.pure id)
  exact helse.bind fun _ => wrap_builds _ hopening

theorem whileStatement_eats (h : inner.Builds n) (hopening : floor ≤ opening) :
    Eats (n + 1) floor (whileStatement inner opening) := by
  refine Eats.take_bind ?_
  refine (condition_builds h).less.bind fun _ => ?_
  refine (body_builds h).bind fun _ => ?_
  exact wrap_builds _ hopening

theorem doWhileCondition_builds (h : inner.Builds n) :
    Builds (n + 1) floor (doWhileCondition inner) :=
  .takeIf_ite (by decide) (condition_builds h).less (missing_builds _)

theorem doWhileStatement_eats (h : inner.Builds n) (hopening : floor ≤ opening) :
    Eats (n + 1) floor (doWhileStatement inner opening) := by
  refine Eats.take_bind ?_
  refine (body_builds h).bind fun _ => ?_
  refine (doWhileCondition_builds h).less.bind fun _ => ?_
  refine (expect_builds (by decide)).discard.bind fun _ => ?_
  exact wrap_builds _ hopening

theorem isElementLoop_reads (h : inner.Builds n) : Reads (n + 1) (isElementLoop inner) := by
  refine lookAhead_reads fun floor => ?_
  refine (modifiers_parses h).bind fun _ => ?_
  refine (typeReference_parses h).ite ?_ (.pure id)
  exact (takeIf_parses (by decide)).ite (isAt_reads _).parses (.pure id)

theorem nextExpression_parses (h : inner.Builds n) :
    Parses place (n + 1) floor (· = true) (nextExpression inner) := by
  refine .takeIf_ite (by decide) ?_ (.pure (by simp))
  exact (expression_builds h).less.discard.bind fun _ => .pure id

theorem forInitializer_builds (h : inner.Builds n) :
    Builds (n + 1) floor (forInitializer inner) := by
  refine .marker_bind fun opening hopening => ?_
  refine .isAt_ite ?_ ?_
  · exact (take_parses.bind fun _ => wrap_builds _ hopening).parsesAt
  · refine (isAt_reads _).bind fun atModifier => ?_
    refine (isVariableDeclaration_reads h).bind fun atVariable => ?_
    split
    · exact (modifiers_parses h).bind fun _ => variableDeclaration_builds h hopening
    · refine Parses.ite (isAtAny_reads _).parses ?_ (missing_builds _)
      refine (expression_builds h).discard.bind fun _ => ?_
      refine (loop_parses (nextExpression_parses h)).bind fun _ => ?_
      refine (expect_builds (by decide)).discard.bind fun _ => ?_
      exact wrap_builds _ hopening

theorem forUpdate_builds (h : inner.Builds n) : Builds (n + 1) floor (forUpdate inner) := by
  refine Parses.ite (isAtAny_reads _).parses ?_ (.pure id)
  refine .marker_bind fun opening hopening => ?_
  refine (expression_builds h).discard.bind fun _ => ?_
  refine (loop_parses (nextExpression_parses h)).bind fun _ => ?_
  exact wrap_builds _ hopening

theorem foreachRest_builds (h : inner.Builds n) (hopening : floor ≤ opening) :
    Builds n floor (foreachRest inner opening) := by
  refine (parameter_builds h).less.discard.bind fun _ => ?_
  refine take_parses.bind fun _ => ?_
  refine (orMissing_builds _ (expression_builds h).less).bind fun _ => ?_
  refine (expect_builds (by decide)).discard.bind fun _ => ?_
  refine (body_builds h).bind fun _ => ?_
  exact wrap_builds _ hopening

theorem forRest_builds (h : inner.Builds n) (hopening : floor ≤ opening) :
    Builds n floor (forRest inner opening) := by
  refine (forInitializer_builds h).less.bind fun _ => ?_
  refine (whenAtAny_parses (expression_builds h).less.discard).bind fun _ => ?_
  refine (expect_builds (by decide)).discard.bind fun _ => ?_
  refine (forUpdate_builds h).less.bind fun _ => ?_
  refine (expect_builds (by decide)).discard.bind fun _ => ?_
  refine (body_builds h).bind fun _ => ?_
  exact wrap_builds _ hopening

theorem forStatement_eats (h : inner.Builds n) (hopening : floor ≤ opening) :
    Eats (n + 1) floor (forStatement inner opening) := by
  refine Eats.take_bind ?_
  refine Parses.ite (takeIf_parses (by decide)) ?_ ?_
  · refine Parses.ite (isElementLoop_reads h).less.parses ?_ ?_
    · exact foreachRest_builds h hopening
    · exact forRest_builds h hopening
  · exact (missing_builds _).bind fun _ => wrap_builds _ hopening

/-! ## Switches, handlers and jumps -/

theorem switchStatement_eats (h : inner.Builds n) (hopening : floor ≤ opening) :
    Eats (n + 1) floor (switchStatement inner opening) := by
  refine Eats.take_bind ?_
  refine (condition_builds h).less.bind fun _ => ?_
  refine (requiredBlock_builds h _).less.bind fun _ => ?_
  exact wrap_builds _ hopening

theorem labelValues_builds (h : inner.Builds n) : Builds (n + 1) floor (labelValues inner) := by
  refine .takeIf_ite (by decide) ?_ take_parses
  refine (orMissing_builds _ (expression_builds h).less).bind fun _ => ?_
  exact (loop_parses (nextExpression_parses h)).less

theorem labelEnd_builds : Builds n floor labelEnd := by
  refine (isAt_reads _).bind fun atColon => ?_
  refine (isAt_reads _).bind fun atArrow => ?_
  split
  · exact take_parses
  · exact missing_builds _

theorem switchLabel_builds (h : inner.Builds n) (hopening : floor ≤ opening) :
    Builds (n + 1) floor (switchLabel inner opening) := by
  refine (labelValues_builds h).bind fun _ => ?_
  refine labelEnd_builds.bind fun _ => ?_
  exact wrap_builds _ hopening

theorem resource_builds (h : inner.Builds n) : Builds (n + 1) floor (resource inner) := by
  refine .marker_bind fun opening hopening => ?_
  refine Parses.ite (isVariableDeclaration_reads h).parses ?_ (expression_builds h).discard
  refine (typeReference_parses h).discard.bind fun _ => ?_
  refine take_parses.bind fun _ => ?_
  have hvalue : Builds n floor (orMissing (expression inner) .expression) :=
    orMissing_builds _ (expression_builds h).less
  refine (whenTaken_parses (by decide) hvalue).bind fun _ => ?_
  exact wrap_builds _ hopening

theorem resourceItem_parses (h : inner.Builds n) :
    Parses .solid (n + 1) floor (· = true) (resourceItem inner) := by
  refine (isAt_reads _).bind fun atEnd => ?_
  refine (isAt_reads _).bind fun atParen => ?_
  split
  · exact .pure (by simp)
  · refine .marker_bind fun opening _ => ?_
    refine (resource_builds h).bind fun _ => ?_
    refine .marker_bind fun now _ => ?_
    split
    · exact .pure (by simp)
    · exact takeIf_parses (by decide)

theorem caughtParameter_builds (h : inner.Builds n) :
    Builds (n + 1) floor (caughtParameter inner) := by
  refine .takeIf_ite (by decide) ?_ (missing_builds _)
  refine (orMissing_builds _ (parameter_builds h).less).bind fun _ => ?_
  exact (expect_builds (by decide)).discard

theorem catchSection_parses (h : inner.Builds n) :
    Parses place (n + 1) floor (· = true) (catchSection inner) := by
  refine .isAt_ite ?_ (.pure (by simp))
  refine .marker_bind fun opening hopening => ?_
  refine Eats.parsesAt (Eats.take_bind ?_) (by decide)
  refine (caughtParameter_builds h).less.bind fun _ => ?_
  refine (requiredBlock_builds h _).less.bind fun _ => ?_
  exact (wrap_builds _ hopening).bind fun _ => .pure id

theorem resources_builds (h : inner.Builds n) : Builds (n + 1) floor (resources inner) := by
  refine (loop_parses (resourceItem_parses h)).bind fun _ => ?_
  exact (expect_builds (by decide)).discard

theorem tryStatement_eats (h : inner.Builds n) (hopening : floor ≤ opening) :
    Eats (n + 1) floor (tryStatement inner opening) := by
  refine Eats.take_bind ?_
  have hresources : Builds (n + 1) floor (whenTaken .leftParen (resources inner)) :=
    whenTaken_parses (by decide) (resources_builds h).less
  refine hresources.less.bind fun _ => ?_
  refine (requiredBlock_builds h _).less.bind fun _ => ?_
  refine (loop_parses (catchSection_parses h)).less.bind fun _ => ?_
  have hfinally : Builds (n + 1) floor
      (whenTaken .finallyKeyword (requiredBlock inner (.construct .leftBrace))) :=
    whenTaken_parses (by decide) (requiredBlock_builds h _).less
  refine hfinally.less.bind fun _ => ?_
  exact wrap_builds _ hopening

theorem synchronizedStatement_eats (h : inner.Builds n) (hopening : floor ≤ opening) :
    Eats (n + 1) floor (synchronizedStatement inner opening) := by
  refine Eats.take_bind ?_
  refine (condition_builds h).less.bind fun _ => ?_
  refine (requiredBlock_builds h _).less.bind fun _ => ?_
  exact wrap_builds _ hopening

theorem valueJump_eats (h : inner.Builds n) (hopening : floor ≤ opening) (kind : Kind) :
    Eats (n + 1) floor (valueJump inner opening kind) := by
  refine Eats.take_bind ?_
  refine (whenAtAny_parses (expression_builds h).less.discard).bind fun _ => ?_
  refine (expect_builds (by decide)).discard.bind fun _ => ?_
  exact wrap_builds _ hopening

theorem labelJump_eats (hopening : floor ≤ opening) (kind : Kind) :
    Eats (n + 1) floor (labelJump opening kind) := by
  refine Eats.take_bind ?_
  refine (takeIf_parses (by decide)).discard.bind fun _ => ?_
  refine (expect_builds (by decide)).discard.bind fun _ => ?_
  exact wrap_builds _ hopening

theorem expressionStatement_builds (h : inner.Builds n) (hopening : floor ≤ opening) :
    Builds (n + 1) floor (expressionStatement inner opening) := by
  refine (expression_builds h).discard.bind fun _ => ?_
  refine (expect_builds (by decide)).discard.bind fun _ => ?_
  exact wrap_builds _ hopening

end StatementCompletion.Grammar
