import StatementCompletion.Grammar.Expression
import StatementCompletion.Proofs.Grammar.Agreement.Combinators

/-!
# The rules for types in step

What the rules inside have to be for a rule to agree with itself is `Inner.Agree`.  A type takes its
first token in before it looks any further, so it can be taken back.
-/

namespace StatementCompletion.Grammar

/-- The constructs inside the rules of the two sides agree.  A type and an expression begin where
their first token says so. -/
structure Inner.Agree (inner inner' : Inner) : Prop where
  typeReference : Phrases startsType (inner .typeReference) (inner' .typeReference)
  expression : Phrases startsExpression (inner .expression) (inner' .expression)
  conditional : Phrases startsExpression (inner .conditional) (inner' .conditional)
  operation : ∀ {least},
    Phrases startsExpression (inner (.operation least)) (inner' (.operation least))
  unary : Phrases startsExpression (inner .unary) (inner' .unary)
  arrayInitializer : OpensAt (· = .leftBrace) (inner .arrayInitializer) (inner' .arrayInitializer)
  statement : ∀ {foot f f'}, Agrees foot f f' (inner .statement) (inner' .statement)
  member : ∀ {foot f f'}, Agrees foot f f' (inner .member) (inner' .member)

variable {wanted : Kind → Prop} {foot : Footing} {f f' : Nat} {inner inner' : Inner}

theorem dottedName_agrees : Agrees foot f f' dottedName dottedName := by
  refine AgreesAt.lift (InStep.isAtBefore_ite ?_ (AgreesAt.pure false))
  exact take_agrees.at.bind fun _ => take_agrees.bind fun _ => AgreesAt.pure true

theorem dimension_agrees : Agrees foot f f' dimension dimension := by
  refine AgreesAt.lift (InStep.isAtBefore_ite ?_ (AgreesAt.pure false))
  exact take_agrees.at.bind fun _ => take_agrees.bind fun _ => AgreesAt.pure true

theorem typeBound_agrees (h : inner.Agree inner') :
    Agrees foot f f' (typeBound inner) (typeBound inner') := by
  have hbound {kind : Kind} : AgreesAt (· = kind) .any f f'
      (do take; discard (inner .typeReference)) (do take; discard (inner' .typeReference)) :=
    take_agrees.at.bind fun _ => h.typeReference.agrees.discard
  exact AgreesAt.lift (InStep.isAtEither_ite hbound hbound (AgreesAt.pure ()))

theorem typeArgument_agrees (h : inner.Agree inner') :
    Agrees foot f f' (typeArgument inner) (typeArgument inner') := by
  refine AgreesAt.lift (takeIf_agrees.ite ?_ h.typeReference.agrees)
  exact (typeBound_agrees h).bind fun _ => AgreesAt.pure true

theorem typeArguments_opens (h : inner.Agree inner') :
    OpensAt (· = .less) (typeArguments inner) (typeArguments inner') := by
  refine (take_opens (by rintro _ rfl; decide)).bind fun _ f f' => ?_
  refine takeIf_agrees.ite (AgreesAt.pure true) ?_
  exact (separated_agrees (typeArgument_agrees h)).ite takeIf_agrees (AgreesAt.pure false)

theorem className_opens (h : inner.Agree inner') :
    OpensAt (· = .identifier) (className inner) (className inner') := by
  refine (take_opens (by rintro _ rfl; decide)).bind fun _ f f' => ?_
  refine (loop_agrees dottedName_agrees).bind fun _ => ?_
  exact whenAt_agrees (attempt_agrees (typeArguments_opens h).retractsAt)

theorem typeReference_phrase : Phrase startsType (typeReference inner) := by
  have hrest (m : Nat) : AnswersYes (do loop dimension; wrap m .typeReference; return true) :=
    .bind fun _ => .bind fun _ => .pure
  constructor
  · intro s a t hstarts hrun
    obtain ⟨m, s, hmarker, hrun⟩ := run_bind_eq_some.1 hrun
    obtain ⟨kind, s, hcurrent, hrun⟩ := run_bind_eq_some.1 hrun
    obtain ⟨rfl, rfl⟩ := Prod.mk.inj (Option.some.inj hmarker)
    obtain ⟨rfl, rfl⟩ := Prod.mk.inj (Option.some.inj hcurrent)
    split at hrun
    · exact AnswersYes.bind (fun _ => hrest _) _ _ _ hrun
    · exact AnswersYes.bind (fun _ => hrest _) _ _ _ hrun
    · exact AnswersYes.bind (fun _ => hrest _) _ _ _ hrun
    · simp_all [startsType]
  · intro s a t hstarts hrun
    obtain ⟨m, s, hmarker, hrun⟩ := run_bind_eq_some.1 hrun
    obtain ⟨kind, s, hcurrent, hrun⟩ := run_bind_eq_some.1 hrun
    obtain ⟨rfl, rfl⟩ := Prod.mk.inj (Option.some.inj hmarker)
    obtain ⟨rfl, rfl⟩ := Prod.mk.inj (Option.some.inj hcurrent)
    split at hrun
    · simp_all [startsType]
    · simp_all [startsType]
    · simp_all [startsType]
    · exact run_pure_eq_some.1 hrun

theorem typeReference_phrases (h : inner.Agree inner') :
    Phrases startsType (typeReference inner) (typeReference inner') := by
  refine ⟨typeReference_phrase, typeReference_phrase, ?_⟩
  refine OpensAt.marker_bind fun m m' => InStep.current_bind fun kind hkind => ?_
  have hrest (a : Unit) : Agrees .begun m m'
      (do loop dimension; wrap m .typeReference; return true)
      (do loop dimension; wrap m' .typeReference; return true) := by
    refine (loop_agrees dimension_agrees).bind fun _ => ?_
    exact (wrap_agrees _ rfl).bind fun _ => AgreesAt.pure true
  split
  · exact (take_opens (by rintro _ rfl; decide)).bindFrom hrest
  · exact (take_opens (by rintro _ rfl; decide)).bindFrom hrest
  · exact (className_opens h).bindFrom hrest
  · simp_all [startsType]

theorem types_agrees (h : inner.Agree inner') : Agrees foot f f' (types inner) (types inner') :=
  orMissing_agrees (separated_agrees (typeReference_phrases h).agrees)

theorem isVariableDeclaration_reads_in_step (h : inner.Agree inner') :
    ReadsAt wanted (isVariableDeclaration inner) (isVariableDeclaration inner') := by
  refine InStep.mono (lookAhead_reads_in_step ?_) fun _ _ => trivial
  refine (typeReference_phrases h).retracts.ite ?_ ?_
  · exact (isAt_reads_in_step _).retractsAt
  · exact (ReadsAt.pure false).retractsAt

/-- A declaration of a variable begins with a type. -/
theorem startsType_of_isVariableDeclaration {s t : State}
    (hrun : (isVariableDeclaration inner).run s = some (true, t)) :
    startsType s.current = true := by
  obtain ⟨u, hlook, -⟩ := run_lookAhead_eq_some hrun
  obtain ⟨there, v, htype, hname⟩ := run_bind_eq_some.1 hlook
  cases hstarts : startsType s.current with
  | true => rfl
  | false =>
    rw [(typeReference_phrase.no hstarts htype).1] at hname
    cases (run_pure_eq_some.1 hname).1

/-- What goes by whether a declaration of a variable follows. -/
theorem InStep.isVariableDeclaration_bind {β : Type} {pre : State → State → Prop}
    {post : State → State → State → State → Prop} {g g' : Bool → Parser β} (h : inner.Agree inner')
    (htrue : InStep (startsType · = true) pre post (g true) (g' true))
    (hfalse : InStep wanted pre post (g false) (g' false)) :
    InStep wanted pre post (isVariableDeclaration inner >>= g)
      (isVariableDeclaration inner' >>= g') := by
  intro s s' halike hkind hs b u b' u' hrun hrun'
  obtain ⟨a, t, hlook, hgu⟩ := run_bind_eq_some.1 hrun
  obtain ⟨a', t', hlook', hgu'⟩ := run_bind_eq_some.1 hrun'
  have hreads := isVariableDeclaration_reads_in_step h s s' halike hkind trivial
  obtain ⟨rfl, rfl, rfl⟩ := hreads a t a' t' hlook hlook'
  cases a' with
  | true =>
    have hstarts := startsType_of_isVariableDeclaration hlook
    exact htrue t t' halike hstarts hs b u b' u' hgu hgu'
  | false => exact hfalse t t' halike hkind hs b u b' u' hgu hgu'

end StatementCompletion.Grammar
