import StatementCompletion.Grammar.Statement
import StatementCompletion.Proofs.Grammar.Agreement.Expressions

/-!
# The rules for statements in step

Every statement takes its first token in before it is made a branch, so it begins with a token.  The
condition of a statement without parentheses is the one place where a rule goes by a line feed in
front of a token that it is about to take in; no such token is a closing brace.
-/

namespace StatementCompletion.Grammar

variable {wanted : Kind → Prop} {kind : Kind} {foot : Footing} {f f' m m' : Nat}
  {inner inner' : Inner}

/-! ## Modifiers and variables -/

/-- What a modifier begins with. -/
def startsModifier : Kind → Bool
  | .modifier | .synchronizedKeyword | .atSign => true
  | _ => false

theorem modifier_opens (h : inner.Agree inner') :
    OpensAt (startsModifier · = true) (modifier inner) (modifier inner') := by
  refine InStep.current_bind fun kind hkind => ?_
  split
  · exact (take_opens (by rintro _ rfl; decide)).bind fun _ _ _ => AgreesAt.pure true
  · exact (take_opens (by rintro _ rfl; decide)).bind fun _ _ _ => AgreesAt.pure true
  · refine (take_opens (by rintro _ rfl; decide)).bind fun _ f f' => ?_
    refine expect_agrees.discard.bind fun _ => (loop_agrees dottedName_agrees).bind fun _ => ?_
    refine (whenAt_agrees (argumentList_opens h).agreesAt).bind fun _ => ?_
    exact AgreesAt.pure true
  · simp_all [startsModifier]

theorem modifier_of_not {s : State} (hs : startsModifier s.current = false) :
    (modifier inner).run s = some (false, s) := by
  show StateT.run (match s.current with
    | .modifier | .synchronizedKeyword => do
      take
      return true
    | .atSign => do
      take
      discard (expect .identifier)
      loop dottedName
      whenAt .leftParen (argumentList inner)
      return true
    | _ => return false) s = _
  split
  · simp_all [startsModifier]
  · simp_all [startsModifier]
  · simp_all [startsModifier]
  · rfl

theorem modifier_reads_in_step :
    ReadsAt (startsModifier · = false) (modifier inner) (modifier inner') := by
  intro s s' halike hkind _ a t a' t' hrun hrun'
  rw [modifier_of_not hkind] at hrun
  rw [modifier_of_not (by rwa [halike.current_eq])] at hrun'
  obtain ⟨rfl, rfl⟩ := Prod.mk.inj (Option.some.inj hrun)
  obtain ⟨rfl, rfl⟩ := Prod.mk.inj (Option.some.inj hrun')
  exact ⟨rfl, rfl, rfl⟩

/-- Where something is or is not of a group of kinds. -/
theorem InStep.cases_starts {α : Type} {starts : Kind → Bool} {pre : State → State → Prop}
    {post : State → State → State → State → Prop} {p p' : Parser α}
    (htrue : InStep (starts · = true) pre post p p')
    (hfalse : InStep (starts · = false) pre post p p') : InStep wanted pre post p p' := by
  intro s s' halike _
  cases hstarts : starts s.current with
  | true => exact htrue s s' halike hstarts
  | false => exact hfalse s s' halike hstarts

theorem modifier_agrees (h : inner.Agree inner') :
    Agrees foot f f' (modifier inner) (modifier inner') :=
  InStep.cases_starts (modifier_opens h).agreesAt modifier_reads_in_step.agreesAt

theorem modifiers_opens (h : inner.Agree inner') :
    OpensAt (startsModifier · = true) (modifiers inner) (modifiers inner') := by
  refine OpensAt.marker_bind fun m m' => ?_
  refine ((modifier_opens h).loop fun _ _ => modifier_agrees h).bindFrom fun _ => ?_
  exact built_wrap_agrees _ rfl

theorem modifiers_of_not {s t : State} {a : Unit} (hs : startsModifier s.current = false)
    (hrun : (modifiers inner).run s = some (a, t)) : t = s := by
  have hloop : (loop (modifier inner)).run s = some ((), s) := by
    show StateT.run (modifier inner >>= fun a => if a then _ else pure ()) s = _
    rw [StateT.run_bind, modifier_of_not hs]
    rfl
  have hrun : (loop (modifier inner) >>= fun _ => (do
      if (← marker) ≠ s.marker then wrap s.marker .modifierList)).run s = some (a, t) := hrun
  rw [StateT.run_bind, hloop] at hrun
  have hrun : (if s.marker ≠ s.marker then wrap s.marker .modifierList else pure ()).run s
      = some (a, t) := hrun
  rw [if_neg (not_not.2 rfl)] at hrun
  exact (run_pure_eq_some.1 hrun).2

theorem modifiers_reads_in_step :
    ReadsAt (startsModifier · = false) (modifiers inner) (modifiers inner') := by
  intro s s' halike hkind _ a t a' t' hrun hrun'
  exact ⟨rfl, modifiers_of_not hkind hrun, modifiers_of_not (by rwa [halike.current_eq]) hrun'⟩

theorem modifiers_retracts (h : inner.Agree inner') :
    Retracts (modifiers inner) (modifiers inner') :=
  InStep.cases_starts (modifiers_opens h).retractsAt modifiers_reads_in_step.retractsAt

theorem initialValue_agrees (h : inner.Agree inner') :
    Agrees foot f f' (initialValue inner) (initialValue inner') := by
  refine InStep.isAt_ite (arrayInitializer_opens h).agreesAt ?_
  exact orMissing_agrees (expression_phrases h).agrees

theorem variableRest_agrees (h : inner.Agree inner') :
    Agrees foot f f' (variableRest inner) (variableRest inner') := by
  refine AgreesAt.lift ((loop_agrees dimension_agrees).bind fun _ => ?_)
  exact whenTaken_agrees (initialValue_agrees h)

theorem nextVariable_agrees (h : inner.Agree inner') :
    Agrees foot f f' (nextVariable inner) (nextVariable inner') := by
  refine AgreesAt.lift (takeIf_agrees.ite ?_ (AgreesAt.pure false))
  refine AgreesAt.marker_bind fun m m' => AgreesAt.lift ?_
  refine expect_agrees.discard.bind fun _ => (variableRest_agrees h).bind fun _ => ?_
  exact (wrap_agrees _ rfl).bind fun _ => AgreesAt.pure true

/-- A declaration behind its type. -/
theorem variableNames_agrees (h : inner.Agree inner') :
    Agrees .begun m m'
      (do discard (expect .identifier)
          variableRest inner
          wrap m .localVariable
          loop (nextVariable inner)
          discard (expect .semicolon)
          wrap m .declarationStatement)
      (do discard (expect .identifier)
          variableRest inner'
          wrap m' .localVariable
          loop (nextVariable inner')
          discard (expect .semicolon)
          wrap m' .declarationStatement) := by
  refine expect_agrees.discard.bind fun _ => (variableRest_agrees h).bind fun _ => ?_
  refine (wrap_agrees _ rfl).bind fun _ => (loop_agrees (nextVariable_agrees h)).bind fun _ => ?_
  exact expect_agrees.discard.bind fun _ => wrap_anchored_agrees _ rfl

theorem variableDeclaration_agrees (h : inner.Agree inner') :
    Agrees .begun m m' (variableDeclaration inner m) (variableDeclaration inner' m') :=
  (orMissing_agrees (typeReference_phrases h).agrees).bind fun _ => variableNames_agrees h

/-- Without modifiers a declaration begins with its type. -/
theorem variableDeclaration_agreesAt (h : inner.Agree inner') :
    AgreesAt (startsType · = true) .ready m m' (variableDeclaration inner m)
      (variableDeclaration inner' m') :=
  (orMissing_opens (typeReference_phrases h).opens).bindReady fun _ => variableNames_agrees h

theorem alternativeType_agrees (h : inner.Agree inner') :
    Agrees foot f f' (alternativeType inner) (alternativeType inner') := by
  refine AgreesAt.lift (takeIf_agrees.ite ?_ (AgreesAt.pure false))
  exact (typeReference_phrases h).agrees.discard.bind fun _ => AgreesAt.pure true

theorem parameterRest_agrees (h : inner.Agree inner') :
    Agrees foot f f' (parameterRest inner) (parameterRest inner') := by
  refine AgreesAt.lift ((typeReference_phrases h).agrees.ite ?_ (missing_agrees _))
  refine (loop_agrees (alternativeType_agrees h)).bind fun _ => ?_
  refine (loop_agrees takeIf_agrees).bind fun _ => expect_agrees.discard.bind fun _ => ?_
  exact loop_agrees dimension_agrees

theorem parameter_agrees (h : inner.Agree inner') :
    Agrees foot f f' (parameter inner) (parameter inner') := by
  refine InStep.isAtAny_ite ?_ (AgreesAt.pure false)
  refine AgreesAt.marker_bind fun m m' => AgreesAt.lift ?_
  refine (modifiers_retracts h).agreesAt.at.bind fun _ => (parameterRest_agrees h).bind fun _ => ?_
  exact (wrap_agrees _ rfl).bind fun _ => AgreesAt.pure true

/-! ## Blocks and bodies -/

theorem codeBlock_opens (h : inner.Agree inner') :
    OpensAt (· = .leftBrace) (codeBlock inner) (codeBlock inner') := by
  refine OpensAt.marker_bind fun m m' => ?_
  refine (take_opens (by rintro _ rfl; decide)).bindFrom fun _ => ?_
  exact (itemsUpToBrace_agrees h.statement.discard).bind fun _ => wrap_anchored_agrees _ rfl

theorem requiredBlock_agrees (h : inner.Agree inner') (wanted : Wanted) :
    Agrees foot f f' (requiredBlock inner wanted) (requiredBlock inner' wanted) :=
  InStep.isAt_ite (codeBlock_opens h).agreesAt (missing_agrees wanted)

theorem body_agrees (h : inner.Agree inner') : Agrees foot f f' (body inner) (body inner') :=
  InStep.isAtAny_ite h.statement.discard.at (missing_agrees _)

/-- Whether an expression begins on the same line is the same, for none begins with a brace that
closes. -/
theorem sameLine_agrees {p p' : Parser Unit} (hp : Agrees foot f f' p p') :
    Agrees foot f f' (do if !(← isOnNewLine) && (← isAtAny startsExpression) then p)
      (do if !(← isOnNewLine) && (← isAtAny startsExpression) then p') := by
  intro s s' halike hkind hs b u b' u' hrun hrun'
  have hrun : (if !s.onNewLine && startsExpression s.current then p else pure ()).run s
      = some (b, u) := hrun
  have hrun' : (if !s'.onNewLine && startsExpression s'.current then p' else pure ()).run s'
      = some (b', u') := hrun'
  have hsame : (!s'.onNewLine && startsExpression s'.current)
      = (!s.onNewLine && startsExpression s.current) := by
    rw [halike.current_eq]
    by_cases hbrace : s.current = .rightBrace
    · rw [hbrace, show startsExpression .rightBrace = false from rfl, Bool.and_false,
        Bool.and_false]
    · rw [halike.onNewLine hbrace]
  rw [hsame] at hrun'
  split at hrun
  · next hline =>
    rw [if_pos hline] at hrun'
    exact hp s s' halike hkind hs b u b' u' hrun hrun'
  · next hline =>
    rw [if_neg hline] at hrun'
    rw [(run_pure_eq_some.1 hrun).2, (run_pure_eq_some.1 hrun').2]
    exact ⟨rfl, .refl halike⟩

theorem condition_agrees (h : inner.Agree inner') :
    Agrees foot f f' (condition inner) (condition inner') := by
  refine AgreesAt.lift (takeIf_agrees.ite ?_ ?_)
  · refine (orMissing_agrees (expression_phrases h).agrees).bind fun _ => ?_
    exact expect_agrees.discard
  · refine (missing_agrees _).bind fun _ => ?_
    exact sameLine_agrees (expression_phrases h).agrees.discard

/-! ## Branches and loops -/

theorem ifStatement_agrees (h : inner.Agree inner') :
    AgreesAt (· = .ifKeyword) .ready m m' (ifStatement inner m) (ifStatement inner' m') := by
  refine (take_opens (by rintro _ rfl; decide)).bindReady fun _ => ?_
  refine (condition_agrees h).bind fun _ => (body_agrees h).bind fun _ => ?_
  exact (whenTaken_agrees (body_agrees h)).bind fun _ => wrap_anchored_agrees _ rfl

theorem whileStatement_agrees (h : inner.Agree inner') :
    AgreesAt (· = .whileKeyword) .ready m m' (whileStatement inner m)
      (whileStatement inner' m') := by
  refine (take_opens (by rintro _ rfl; decide)).bindReady fun _ => ?_
  refine (condition_agrees h).bind fun _ => (body_agrees h).bind fun _ => ?_
  exact wrap_anchored_agrees _ rfl

theorem doWhileCondition_agrees (h : inner.Agree inner') :
    Agrees foot f f' (doWhileCondition inner) (doWhileCondition inner') :=
  AgreesAt.lift (takeIf_agrees.ite (condition_agrees h) (missing_agrees _))

theorem doWhileStatement_agrees (h : inner.Agree inner') :
    AgreesAt (· = .doKeyword) .ready m m' (doWhileStatement inner m)
      (doWhileStatement inner' m') := by
  refine (take_opens (by rintro _ rfl; decide)).bindReady fun _ => ?_
  refine (body_agrees h).bind fun _ => (doWhileCondition_agrees h).bind fun _ => ?_
  exact expect_agrees.discard.bind fun _ => wrap_anchored_agrees _ rfl

theorem isElementLoop_reads_in_step (h : inner.Agree inner') :
    ReadsAt wanted (isElementLoop inner) (isElementLoop inner') := by
  refine InStep.mono (lookAhead_reads_in_step ?_) fun _ _ => trivial
  refine (modifiers_retracts h).bind fun _ => ?_
  refine (typeReference_phrases h).retracts.ite ?_ (ReadsAt.pure false).retractsAt
  refine (takeIf_retracts (by decide)).ite ?_ (ReadsAt.pure false).retractsAt
  exact (isAt_reads_in_step _).retractsAt

theorem nextExpression_agrees (h : inner.Agree inner') :
    Agrees foot f f' (nextExpression inner) (nextExpression inner') := by
  refine AgreesAt.lift (takeIf_agrees.ite ?_ (AgreesAt.pure false))
  exact (expression_phrases h).agrees.discard.bind fun _ => AgreesAt.pure true

theorem forInitializer_agrees (h : inner.Agree inner') :
    Agrees foot f f' (forInitializer inner) (forInitializer inner') := by
  refine AgreesAt.marker_bind fun m m' => InStep.isAt_ite ?_ ?_
  · exact (take_opens (by rintro _ rfl; decide)).bindReady fun _ => wrap_anchored_agrees _ rfl
  · have hexpression : AgreesAt (fun _ => True) .ready m m'
        (do if ← isAtAny startsExpression then
              discard (expression inner)
              loop (nextExpression inner)
              discard (expect .semicolon)
              wrap m .expressionStatement
            else missing (.construct .semicolon))
        (do if ← isAtAny startsExpression then
              discard (expression inner')
              loop (nextExpression inner')
              discard (expect .semicolon)
              wrap m' .expressionStatement
            else missing (.construct .semicolon)) := by
      refine InStep.isAtAny_ite ?_ (missing_agrees _)
      refine (expression_phrases h).opens.discard.bindReady fun _ => ?_
      refine (loop_agrees (nextExpression_agrees h)).bind fun _ => ?_
      exact expect_agrees.discard.bind fun _ => wrap_anchored_agrees _ rfl
    have hmodified : AgreesAt (· = .modifier) .ready m m'
        (do modifiers inner; variableDeclaration inner m)
        (do modifiers inner'; variableDeclaration inner' m') := by
      refine OpensAt.bindReady ?_ fun _ => variableDeclaration_agrees h
      exact (modifiers_opens h).mono (by rintro _ rfl; rfl)
    have htyped : AgreesAt (startsType · = true) .ready m m'
        (do modifiers inner; variableDeclaration inner m)
        (do modifiers inner'; variableDeclaration inner' m') := by
      refine ReadsAt.bind (modifiers_reads_in_step.mono fun kind hkind => ?_) fun _ =>
        variableDeclaration_agreesAt h
      cases kind <;> first | rfl | cases hkind
    refine InStep.isAt_bind ?_ ?_
    · exact (isVariableDeclaration_reads_in_step h).bind fun _ => hmodified
    · exact InStep.isVariableDeclaration_bind h htyped hexpression

theorem forUpdate_agrees (h : inner.Agree inner') :
    Agrees foot f f' (forUpdate inner) (forUpdate inner') := by
  refine InStep.isAtAny_ite (AgreesAt.marker_bind fun m m' => ?_) (AgreesAt.pure ())
  refine (expression_phrases h).opens.discard.bindReady fun _ => ?_
  exact (loop_agrees (nextExpression_agrees h)).bind fun _ => wrap_anchored_agrees _ rfl

theorem foreachRest_agrees (h : inner.Agree inner') :
    Agrees .begun m m' (foreachRest inner m) (foreachRest inner' m') := by
  refine (parameter_agrees h).discard.bind fun _ => take_agrees.bind fun _ => ?_
  refine (orMissing_agrees (expression_phrases h).agrees).bind fun _ => ?_
  refine expect_agrees.discard.bind fun _ => (body_agrees h).bind fun _ => ?_
  exact wrap_anchored_agrees _ rfl

theorem forRest_agrees (h : inner.Agree inner') :
    Agrees .begun m m' (forRest inner m) (forRest inner' m') := by
  refine (forInitializer_agrees h).bind fun _ => ?_
  refine (whenAtAny_agrees (expression_phrases h).agrees.discard.at).bind fun _ => ?_
  refine expect_agrees.discard.bind fun _ => (forUpdate_agrees h).bind fun _ => ?_
  refine expect_agrees.discard.bind fun _ => (body_agrees h).bind fun _ => ?_
  exact wrap_anchored_agrees _ rfl

theorem forStatement_agrees (h : inner.Agree inner') :
    AgreesAt (· = .forKeyword) .ready m m' (forStatement inner m) (forStatement inner' m') := by
  refine (take_opens (by rintro _ rfl; decide)).bindReady fun _ => ?_
  refine takeIf_agrees.ite ?_ ?_
  · exact (isElementLoop_reads_in_step h).ite (foreachRest_agrees h) (forRest_agrees h)
  · exact (missing_agrees _).bind fun _ => wrap_anchored_agrees _ rfl

/-! ## Switches, handlers and jumps -/

theorem switchStatement_agrees (h : inner.Agree inner') :
    AgreesAt (· = .switchKeyword) .ready m m' (switchStatement inner m)
      (switchStatement inner' m') := by
  refine (take_opens (by rintro _ rfl; decide)).bindReady fun _ => ?_
  refine (condition_agrees h).bind fun _ => (requiredBlock_agrees h _).bind fun _ => ?_
  exact wrap_anchored_agrees _ rfl

theorem labelValues_opens (h : inner.Agree inner')
    (hwanted : ∀ kind, wanted kind → kind ≠ .endOfFile) :
    OpensAt wanted (labelValues inner) (labelValues inner') := by
  refine InStep.takeIf_bind ?_ (take_opens hwanted)
  refine (take_opens (by rintro _ rfl; decide)).bind fun _ f f' => ?_
  refine (orMissing_agrees (expression_phrases h).agrees).bind fun _ => ?_
  exact loop_agrees (nextExpression_agrees h)

theorem labelEnd_agrees : Agrees foot f f' labelEnd labelEnd :=
  InStep.isAtEither_ite take_agrees.at take_agrees.at (missing_agrees _)

theorem switchLabel_agrees (h : inner.Agree inner')
    (hwanted : ∀ kind, wanted kind → kind ≠ .endOfFile) :
    AgreesAt wanted .ready m m' (switchLabel inner m) (switchLabel inner' m') := by
  refine (labelValues_opens h hwanted).bindReady fun _ => ?_
  exact labelEnd_agrees.bind fun _ => wrap_anchored_agrees _ rfl

theorem resource_retracts (h : inner.Agree inner') :
    Retracts (resource inner) (resource inner') := by
  refine RetractsAt.marker_bind fun m m' => InStep.isVariableDeclaration_bind h ?_ ?_
  · refine OpensFrom.retracts ((typeReference_phrases h).opens.discard.bindFrom fun _ => ?_)
    refine take_agrees.bind fun _ => ?_
    refine (whenTaken_agrees (orMissing_agrees (expression_phrases h).agrees)).bind fun _ => ?_
    exact wrap_agrees _ rfl
  · exact (expression_phrases h).retracts.discard.narrow fun _ => trivial

theorem resourceItem_agrees (h : inner.Agree inner') :
    Agrees foot f f' (resourceItem inner) (resourceItem inner') := by
  refine InStep.isAtEither_ite (AgreesAt.pure false) (AgreesAt.pure false) ?_
  refine AgreesAt.marker_bind fun m m' => ?_
  refine (resource_retracts h).bindReady fun _ => ?_
  exact takeIf_agrees.unbuilt_ite (ReadsAt.pure false)

theorem caughtParameter_agrees (h : inner.Agree inner') :
    Agrees foot f f' (caughtParameter inner) (caughtParameter inner') := by
  refine AgreesAt.lift (takeIf_agrees.ite ?_ (missing_agrees _))
  exact (orMissing_agrees (parameter_agrees h)).bind fun _ => expect_agrees.discard

theorem catchSection_agrees (h : inner.Agree inner') :
    Agrees foot f f' (catchSection inner) (catchSection inner') := by
  refine InStep.isAt_ite ?_ (AgreesAt.pure false)
  refine AgreesAt.marker_bind fun m m' => AgreesAt.lift ?_
  refine take_agrees.at.bind fun _ => (caughtParameter_agrees h).bind fun _ => ?_
  refine (requiredBlock_agrees h _).bind fun _ => ?_
  exact (wrap_agrees _ rfl).bind fun _ => AgreesAt.pure true

theorem resources_agrees (h : inner.Agree inner') :
    Agrees foot f f' (resources inner) (resources inner') :=
  AgreesAt.lift ((loop_agrees (resourceItem_agrees h)).bind fun _ => expect_agrees.discard)

theorem tryStatement_agrees (h : inner.Agree inner') :
    AgreesAt (· = .tryKeyword) .ready m m' (tryStatement inner m) (tryStatement inner' m') := by
  refine (take_opens (by rintro _ rfl; decide)).bindReady fun _ => ?_
  refine (whenTaken_agrees (resources_agrees h)).bind fun _ => ?_
  refine (requiredBlock_agrees h _).bind fun _ =>
    (loop_agrees (catchSection_agrees h)).bind fun _ => ?_
  exact (whenTaken_agrees (requiredBlock_agrees h _)).bind fun _ => wrap_anchored_agrees _ rfl

theorem synchronizedStatement_agrees (h : inner.Agree inner') :
    AgreesAt (· = .synchronizedKeyword) .ready m m' (synchronizedStatement inner m)
      (synchronizedStatement inner' m') := by
  refine (take_opens (by rintro _ rfl; decide)).bindReady fun _ => ?_
  refine (condition_agrees h).bind fun _ => (requiredBlock_agrees h _).bind fun _ => ?_
  exact wrap_anchored_agrees _ rfl

theorem valueJump_agrees (h : inner.Agree inner')
    (hwanted : ∀ kind, wanted kind → kind ≠ .endOfFile)
    (kind : Kind) (hkind : kind.isBracket = false) :
    AgreesAt wanted .ready m m' (valueJump inner m kind) (valueJump inner' m' kind) := by
  refine (take_opens hwanted).bindReady fun _ => ?_
  refine (whenAtAny_agrees (expression_phrases h).agrees.discard.at).bind fun _ => ?_
  exact expect_agrees.discard.bind fun _ => wrap_anchored_agrees _ hkind

theorem labelJump_agrees (hwanted : ∀ kind, wanted kind → kind ≠ .endOfFile) (kind : Kind)
    (hkind : kind.isBracket = false) :
    AgreesAt wanted .ready m m' (labelJump m kind) (labelJump m' kind) := by
  refine (take_opens hwanted).bindReady fun _ => takeIf_agrees.discard.bind fun _ => ?_
  exact expect_agrees.discard.bind fun _ => wrap_anchored_agrees _ hkind

theorem expressionStatement_agrees (h : inner.Agree inner') :
    AgreesAt (startsExpression · = true) .ready m m' (expressionStatement inner m)
      (expressionStatement inner' m') := by
  refine (expression_phrases h).opens.discard.bindReady fun _ => ?_
  exact expect_agrees.discard.bind fun _ => wrap_anchored_agrees _ rfl

end StatementCompletion.Grammar
