import StatementCompletion.Grammar.Member
import StatementCompletion.Proofs.Grammar.Agreement.Statements

/-!
# The rules for classes and their members in step

Whether an enum constant follows goes by a line feed behind its name, where the token behind it is a
name too.  All other members go by their tokens only.
-/

namespace StatementCompletion.Grammar

variable {wanted : Kind → Prop} {foot : Footing} {f f' m m' : Nat} {inner inner' : Inner}

/-! ## Methods and fields -/

theorem parameterList_agrees (h : inner.Agree inner') :
    Agrees foot f f' (parameterList inner) (parameterList inner') := by
  refine AgreesAt.marker_bind fun m m' => AgreesAt.lift (take_agrees.bind fun _ => ?_)
  refine (unlessAt_agrees (orMissing_agrees (separated_agrees (parameter_agrees h)))).bind
    fun _ => ?_
  exact expect_agrees.discard.bind fun _ => wrap_agrees _ rfl

theorem throwsList_agrees (h : inner.Agree inner') :
    Agrees foot f f' (throwsList inner) (throwsList inner') := by
  refine InStep.isAt_ite (AgreesAt.marker_bind fun m m' => AgreesAt.lift ?_) (AgreesAt.pure ())
  exact take_agrees.at.bind fun _ => (types_agrees h).bind fun _ => wrap_agrees _ rfl

theorem methodBody_agrees (h : inner.Agree inner') :
    Agrees foot f f' (methodBody inner) (methodBody inner') := by
  refine InStep.isAt_ite (codeBlock_opens h).agreesAt ?_
  exact InStep.isAt_ite take_agrees.at (missing_agrees _)

theorem methodBehindName_agrees (h : inner.Agree inner') :
    Agrees .begun m m' (methodBehindName inner m) (methodBehindName inner' m') := by
  refine (parameterList_agrees h).bind fun _ => (loop_agrees dimension_agrees).bind fun _ => ?_
  refine (throwsList_agrees h).bind fun _ => (methodBody_agrees h).bind fun _ => ?_
  exact wrap_anchored_agrees _ rfl

theorem nextField_agrees (h : inner.Agree inner') :
    Agrees foot f f' (nextField inner) (nextField inner') := by
  refine AgreesAt.lift (takeIf_agrees.ite ?_ (AgreesAt.pure false))
  refine expect_agrees.discard.bind fun _ => (variableRest_agrees h).bind fun _ => ?_
  exact AgreesAt.pure true

theorem fieldBehindName_agrees (h : inner.Agree inner') :
    Agrees .begun m m' (fieldBehindName inner m) (fieldBehindName inner' m') := by
  refine (variableRest_agrees h).bind fun _ => (loop_agrees (nextField_agrees h)).bind fun _ => ?_
  exact expect_agrees.discard.bind fun _ => wrap_anchored_agrees _ rfl

theorem brokenField_agrees (wanted : Wanted) :
    Agrees .begun m m' (brokenField m wanted) (brokenField m' wanted) := by
  refine (missing_agrees _).bind fun _ => takeIf_agrees.discard.bind fun _ => ?_
  exact wrap_anchored_agrees _ rfl

/-! ## Enum constants -/

theorem declaresMember_reads_in_step : ReadsAt (· = .identifier) declaresMember declaresMember := by
  refine lookAhead_reads_in_step (OpensAt.retractsAt ?_)
  refine (take_opens (by rintro _ rfl; decide)).bind fun _ f f' => take_agrees.bind fun _ => ?_
  exact (isAtAny_reads_in_step _).agreesAt

/-- Of two names both sides see the second on a new line, or neither. -/
theorem isEnumConstant_reads_in_step : ReadsAt wanted isEnumConstant isEnumConstant := by
  refine InStep.isAt_ite (InStep.peek_bind fun next => ?_) (ReadsAt.pure false)
  split
  case h_7 =>
    intro s s' halike hkind ⟨_, hnext⟩ a t a' t' hrun hrun'
    have hbrace : s.next.current ≠ .rightBrace := by rw [hnext]; decide
    have hrun : (do return s.next.onNewLine || !(← declaresMember) : Parser Bool).run s
        = some (a, t) := hrun
    have hrun' : (do return s'.next.onNewLine || !(← declaresMember) : Parser Bool).run s'
        = some (a', t') := hrun'
    rw [halike.next.onNewLine hbrace] at hrun'
    have hreads : ReadsAt (· = .identifier)
        (do return s.next.onNewLine || !(← declaresMember))
        (do return s.next.onNewLine || !(← declaresMember)) :=
      declaresMember_reads_in_step.bind fun declares => ReadsAt.pure _
    exact hreads s s' halike hkind trivial a t a' t' hrun hrun'
  case h_8 => exact (ReadsAt.pure false).narrow fun _ => trivial
  all_goals exact (ReadsAt.pure true).narrow fun _ => trivial

theorem current_of_isEnumConstant {s t : State} (hrun : isEnumConstant.run s = some (true, t)) :
    s.current = .identifier := by
  by_contra hkind
  obtain ⟨there, u, hthere, hrest⟩ := run_bind_eq_some.1 hrun
  obtain ⟨rfl, rfl⟩ := Prod.mk.inj (Option.some.inj hthere)
  rw [decide_eq_false hkind] at hrest
  cases (run_pure_eq_some.1 hrest).1

/-- An enum constant begins with its name. -/
theorem InStep.isEnumConstant_ite {β : Type} {pre : State → State → Prop}
    {post : State → State → State → State → Prop} {q q' r r' : Parser β}
    (hq : InStep (· = .identifier) pre post q q') (hr : InStep wanted pre post r r') :
    InStep wanted pre post (do if ← isEnumConstant then q else r)
      (do if ← isEnumConstant then q' else r') := by
  intro s s' halike hkind hs b u b' u' hrun hrun'
  obtain ⟨a, t, hlook, hgu⟩ := run_bind_eq_some.1 hrun
  obtain ⟨a', t', hlook', hgu'⟩ := run_bind_eq_some.1 hrun'
  have hreads := isEnumConstant_reads_in_step s s' halike hkind trivial
  obtain ⟨rfl, rfl, rfl⟩ := hreads a t a' t' hlook hlook'
  cases a' with
  | true => exact hq t t' halike (current_of_isEnumConstant hlook) hs b u b' u' hgu hgu'
  | false => exact hr t t' halike hkind hs b u b' u' hgu hgu'

theorem enumConstant_agrees (h : inner.Agree inner') :
    Agrees foot f f' (enumConstant inner) (enumConstant inner') := by
  refine InStep.isEnumConstant_ite (AgreesAt.marker_bind fun m m' => ?_) (AgreesAt.pure false)
  refine (take_opens (by rintro _ rfl; decide)).bindReady fun _ => ?_
  refine (whenAt_agrees (argumentList_opens h).agreesAt).bind fun _ => ?_
  refine (whenAt_agrees (memberBlock_opens h).agreesAt).bind fun _ => ?_
  refine (wrap_anchored_agrees _ rfl).bind fun _ => takeIf_agrees.ite (AgreesAt.pure true) ?_
  refine isEnumConstant_reads_in_step.ite ?_ (AgreesAt.pure false)
  exact (missing_agrees _).bind fun _ => AgreesAt.pure true

theorem enumConstants_agrees (h : inner.Agree inner') :
    Agrees foot f f' (enumConstants inner) (enumConstants inner') := by
  refine AgreesAt.lift ((loop_agrees (enumConstant_agrees h)).bind fun _ => ?_)
  refine takeIf_agrees.ite (AgreesAt.pure ()) ?_
  exact InStep.isAtEither_ite (AgreesAt.pure ()) (AgreesAt.pure ()) (missing_agrees _)

/-! ## Classes -/

theorem constantsOf_agrees (h : inner.Agree inner') (isEnum : Bool) :
    Agrees foot f f' (constantsOf inner isEnum) (constantsOf inner' isEnum) := by
  cases isEnum with
  | true => exact enumConstants_agrees h
  | false => exact AgreesAt.pure ()

theorem classBody_agrees (h : inner.Agree inner') (isEnum : Bool) :
    Agrees foot f f' (classBody inner isEnum) (classBody inner' isEnum) := by
  refine InStep.isAt_ite (AgreesAt.lift ?_) (missing_agrees _)
  refine take_agrees.at.bind fun _ => (constantsOf_agrees h isEnum).bind fun _ => ?_
  exact itemsUpToBrace_agrees h.member.discard

theorem typesBehind_agrees (h : inner.Agree inner') (keyword : Kind) :
    Agrees foot f f' (typesBehind inner keyword) (typesBehind inner' keyword) :=
  whenTaken_agrees (types_agrees h)

theorem classDeclaration_agrees (h : inner.Agree inner') :
    AgreesAt (startsClass · = true) .ready m m' (classDeclaration inner m)
      (classDeclaration inner' m') := by
  refine (isAt_reads_in_step _).bind fun isEnum => ?_
  refine (take_opens (by rintro kind hkind rfl; cases hkind)).bindReady fun _ => ?_
  refine expect_agrees.discard.bind fun _ => ?_
  refine (whenAt_agrees (typeArguments_opens h).discard.agreesAt).bind fun _ => ?_
  refine (typesBehind_agrees h _).bind fun _ => (typesBehind_agrees h _).bind fun _ => ?_
  exact (classBody_agrees h isEnum).bind fun _ => wrap_anchored_agrees _ rfl

theorem typedMember_agrees (h : inner.Agree inner') :
    AgreesAt wanted .ready m m' (typedMember inner m) (typedMember inner' m') := by
  refine (typeReference_phrases h).iteReady ?_ ?_
  · refine takeIf_agrees.ite ?_ (brokenField_agrees _)
    exact InStep.isAt_ite (methodBehindName_agrees h).at (fieldBehindName_agrees h)
  · exact (brokenField_agrees _).at.built_ite (ReadsAt.pure ())

theorem member_agrees (h : inner.Agree inner') :
    Agrees foot f f' (member inner) (member inner') := by
  refine AgreesAt.marker_bind fun m m' => (modifiers_retracts h).bindReady fun _ => ?_
  refine InStep.isAtAny_ite (classDeclaration_agrees h) (InStep.isAt_ite ?_ ?_)
  · exact (codeBlock_opens h).bindReady fun _ => wrap_anchored_agrees _ rfl
  · refine InStep.isAtBefore_ite ?_ (typedMember_agrees h)
    exact (take_opens (by rintro _ rfl; decide)).bindReady fun _ => methodBehindName_agrees h

end StatementCompletion.Grammar
