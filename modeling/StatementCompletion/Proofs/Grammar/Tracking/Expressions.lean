import StatementCompletion.Proofs.Grammar.Tracking.Combinators
import StatementCompletion.Proofs.Grammar.Truncation.Parens

/-!
# The rules for types and expressions on both sides

A type takes in no token that closes anything, so nothing becomes of the first run while it looks
ahead for one.  The parenthesis behind the type of a cast may be the one where the two runs part;
then the second run sees no cast, and the first is gone if it sees one.
-/

namespace StatementCompletion.Grammar

/-- The rules that the two sides nest do the same. -/
structure Inner.Tracks (C : Coupling) (doomed : State → Prop) (inner inner' : Inner) : Prop where
  agree : inner.Agree inner
  agree' : inner'.Agree inner'
  nested : ∃ depth, inner = parseTo depth
  nested' : ∃ depth, inner' = parseTo depth
  typeReference : Stays C anywhere (inner .typeReference) (inner' .typeReference)
  expression : Mirrors C anywhere (inner .expression) (inner' .expression)
  conditional : Mirrors C anywhere (inner .conditional) (inner' .conditional)
  operation : ∀ {least},
    Mirrors C anywhere (inner (.operation least)) (inner' (.operation least))
  unary : Mirrors C anywhere (inner .unary) (inner' .unary)
  arrayInitializer :
    Mirrors C (· = .leftBrace) (inner .arrayInitializer) (inner' .arrayInitializer)
  statement : Sways C doomed 0 always (inner .statement) (inner' .statement)
  dooms : Dooms C doomed (inner .statement)
  member : Mirrors C anywhere (inner .member) (inner' .member)

variable {C : Coupling} {doomed fails : State → Prop} {wanted : Kind → Prop} {kind : Kind}
  {inner inner' : Inner} {m m' : Nat}

/-! ## Types -/

theorem dottedName_stays : Stays C wanted dottedName dottedName :=
  takeBefore_tracks rfl (by decide) ((take_common rfl).bind fun _ => .pure true) (.pure false)

theorem dimension_stays : Stays C wanted dimension dimension :=
  takeBefore_tracks rfl (by decide) ((take_common rfl).bind fun _ => .pure true) (.pure false)

theorem typeBound_stays (h : inner.Tracks C doomed inner') :
    Stays C wanted (typeBound inner) (typeBound inner') := by
  have hbound {kind : Kind} (hkind : isCommon kind = true) : Stays C (· = kind)
      (do take; discard (inner .typeReference)) (do take; discard (inner' .typeReference)) :=
    (take_common hkind).bind fun _ => h.typeReference.discard
  exact .isAtEither_ite (hbound rfl) (hbound rfl) (.pure ())

theorem typeArgument_stays (h : inner.Tracks C doomed inner') :
    Stays C wanted (typeArgument inner) (typeArgument inner') := by
  refine (takeIf_common rfl).ite ?_ h.typeReference
  exact (typeBound_stays h).bind fun _ => .pure true

theorem typeArguments_stays (h : inner.Tracks C doomed inner') :
    Stays C (· = .less) (typeArguments inner) (typeArguments inner') := by
  refine (take_common rfl).bind fun _ => (takeIf_common rfl).ite (.pure true) ?_
  exact (separated_tracks rfl (typeArgument_stays h)).ite (takeIf_common rfl) (.pure false)

theorem className_stays (h : inner.Tracks C doomed inner') :
    Stays C (· = .identifier) (className inner) (className inner') := by
  refine (take_common rfl).bind fun _ => (loop_tracks dottedName_stays).bind fun _ => ?_
  exact whenAt_tracks (attempt_tracks (typeArguments_stays h) (typeArguments_opens h.agree)
    (typeArguments_opens h.agree'))

theorem typeReference_stays (h : inner.Tracks C doomed inner') :
    Stays C wanted (typeReference inner) (typeReference inner') := by
  refine .marker_bind fun m m' hlevel => .current_bind fun kind _ => ?_
  have hrest : Stays C anywhere (do loop dimension; wrap m .typeReference; return true)
      (do loop dimension; wrap m' .typeReference; return true) :=
    (loop_tracks dimension_stays).bind fun _ => (wrap_tracks hlevel rfl).bind fun _ => .pure true
  split
  · exact (take_common rfl).bind fun _ => hrest
  · exact (take_common rfl).bind fun _ => hrest
  · exact (className_stays h).bind fun _ => hrest
  · exact .pure false

theorem types_stays (h : inner.Tracks C doomed inner') :
    Stays C wanted (types inner) (types inner') :=
  orMissing_tracks _ (separated_tracks rfl (typeReference_stays h))

theorem isVariableDeclaration_stays (h : inner.Tracks C doomed inner') :
    Stays C wanted (isVariableDeclaration inner) (isVariableDeclaration inner') := by
  refine lookAhead_tracks ?_ (isVariableDeclaration_reads_in_step h.agree).leaves
    (isVariableDeclaration_reads_in_step h.agree').leaves
  exact (typeReference_stays h).ite (.isAt_bind (.pure true) (.pure false)) (.pure false)

/-! ## Lists -/

theorem argumentList_mirrors (h : inner.Tracks C doomed inner') :
    Mirrors C (· = .leftParen) (argumentList inner) (argumentList inner') := by
  refine .marker_bind fun m m' hlevel => (take_common rfl).bind fun _ => ?_
  refine (unlessAt_tracks (orMissing_tracks _ (separated_tracks rfl h.expression))).bind fun _ => ?_
  exact (expect_closer rfl).discard.bind fun _ => wrap_tracks hlevel rfl

theorem arrayElement_mirrors (h : inner.Tracks C doomed inner') :
    Mirrors C wanted (arrayElement inner) (arrayElement inner') :=
  .isAt_ite (.pure false) (.isAt_ite h.arrayInitializer h.expression.at)

theorem arrayInitializer_mirrors (h : inner.Tracks C doomed inner') :
    Mirrors C (· = .leftBrace) (arrayInitializer inner) (arrayInitializer inner') := by
  refine .marker_bind fun m m' hlevel => (take_common rfl).bind fun _ => ?_
  refine (separated_tracks rfl (arrayElement_mirrors h)).discard.bind fun _ => ?_
  exact (expect_closer rfl).discard.bind fun _ => wrap_tracks hlevel rfl

/-- Items by which no state is doomed. -/
theorem itemsUpToBrace_of_mirrors {item item' : Parser Unit}
    (hitem : Mirrors C anywhere item item') :
    Mirrors C wanted (itemsUpToBrace item) (itemsUpToBrace item') := by
  have hsways : Sways C C.Never 0 always item item' := hitem.sways
  exact itemsUpToBrace_mirrors hsways ⟨fun _ _ => False.elim⟩ False.elim

theorem memberBlock_mirrors (h : inner.Tracks C doomed inner') :
    Mirrors C (· = .leftBrace) (memberBlock inner) (memberBlock inner') :=
  (take_common rfl).bind fun _ => itemsUpToBrace_of_mirrors h.member.discard

/-! ## Operands -/

theorem arrayLength_mirrors (h : inner.Tracks C doomed inner') :
    Mirrors C wanted (arrayLength inner) (arrayLength inner') := by
  refine (takeIf_common rfl).ite ?_ (.pure false)
  refine (unlessAt_tracks (orMissing_tracks _ h.expression.at)).bind fun _ => ?_
  exact (expect_common rfl).discard.bind fun _ => .pure true

theorem createdName_stays (h : inner.Tracks C doomed inner') :
    Stays C wanted (createdName inner) (createdName inner') := by
  refine .current_bind fun kind _ => ?_
  split
  · exact take_common rfl
  · exact className_stays h
  · exact missing_tracks _

theorem createdType_stays (h : inner.Tracks C doomed inner') :
    Stays C wanted (createdType inner) (createdType inner') := by
  refine .marker_bind fun m m' hlevel => (createdName_stays h).bind fun _ => ?_
  exact .built_ite hlevel (wrap_tracks hlevel rfl) (.pure ())

theorem createdParts_mirrors (h : inner.Tracks C doomed inner') :
    Mirrors C wanted (createdParts inner) (createdParts inner') := by
  refine .isAt_ite ?_ (.isAt_ite ?_ (missing_tracks _))
  · exact (argumentList_mirrors h).bind fun _ => whenAt_tracks (memberBlock_mirrors h)
  · refine (loop_tracks (arrayLength_mirrors h)).bind fun _ => ?_
    exact whenAt_tracks (arrayInitializer_mirrors h)

theorem newExpression_mirrors (h : inner.Tracks C doomed inner') :
    Mirrors C (· = .newKeyword) (newExpression inner) (newExpression inner') := by
  refine .marker_bind fun m m' hlevel => (take_common rfl).bind fun _ => ?_
  refine (createdType_stays h).lift.bind fun _ => (createdParts_mirrors h).bind fun _ => ?_
  exact wrap_tracks hlevel rfl

theorem typeCast_mirrors (h : inner.Tracks C doomed inner') :
    Mirrors C (· = .leftParen) (typeCast inner) (typeCast inner') := by
  refine .marker_bind fun m m' hlevel => (take_common rfl).bind fun _ => ?_
  refine (typeReference_stays h).lift.discard.bind fun _ =>
    (expect_closer rfl).discard.bind fun _ => ?_
  exact (orMissing_tracks _ h.unary).bind fun _ => wrap_tracks hlevel rfl

theorem parenthesized_mirrors (h : inner.Tracks C doomed inner') :
    Mirrors C (· = .leftParen) (parenthesized inner) (parenthesized inner') := by
  refine .marker_bind fun m m' hlevel => (take_common rfl).bind fun _ => ?_
  refine (orMissing_tracks _ h.expression).bind fun _ =>
    (expect_closer rfl).discard.bind fun _ => ?_
  exact wrap_tracks hlevel rfl

/-! ## Casts -/

/-- Where the first run is gone behind the parenthesis of a cast, it is gone behind the cast. -/
theorem gone_of_typeCast (h : inner.Tracks C doomed inner') {s u t : State}
    {found : Bool} {b : Unit} (hs : s.Fair) (hbase : C.base ≤ s.solid)
    (htype : (typeReference inner).run (s.take Token.node) = some (found, u))
    (hparen : u.current = .rightParen) (hgone : C.Gone (u.take Token.node))
    (hrun : (typeCast inner).run s = some (b, t)) : C.Gone t := by
  obtain ⟨m', hlevel⟩ := Coupling.exists_level (hbase.trans s.solid_le_marker)
  have htake : Grows C.base s (s.take Token.node) := Grows.refl.take (.inl rfl)
  have htypes : Stays C anywhere (typeReference inner) (typeReference inner') :=
    typeReference_stays h
  obtain ⟨hu, hsu⟩ := htypes.grows (hs.take (.inl rfl)) (htake.floor_le_solid hbase) trivial htype
  have hclose : Grows C.base s (u.take Token.node) := (htake.trans hsu).take (.inl rfl)
  have hrest : Mirrors C anywhere (do orMissing (inner .unary) .expression; wrap s.marker .typeCast)
      (do orMissing (inner' .unary) .expression; wrap m' .typeCast) :=
    (orMissing_tracks _ h.unary).bind fun _ => wrap_tracks hlevel rfl
  have hrun : (discard (typeReference inner) >>= fun _ => discard (expect .rightParen) >>= fun _ =>
      (do orMissing (inner .unary) .expression; wrap s.marker .typeCast)).run (s.take Token.node)
      = some (b, t) := hrun
  obtain ⟨_, v, hdiscarded, hrun⟩ := run_bind_eq_some.1 hrun
  obtain ⟨found', hfound⟩ := run_discard_eq_some.1 hdiscarded
  obtain ⟨-, rfl⟩ := Prod.mk.inj (Option.some.inj (hfound.symm.trans htype))
  rw [StateT.run_bind, run_expect_closing, State.closed, if_pos hparen] at hrun
  exact hgone.grows (hu.take (.inl rfl))
    (hrest.grows (hu.take (.inl rfl)) (hclose.floor_le_solid hbase) trivial hrun).2

theorem castOrParenthesized_mirrors (h : inner.Tracks C doomed inner') :
    Mirrors C (· = .leftParen) (castOrParenthesized inner) (castOrParenthesized inner') := by
  have hleaves {inner : Inner} (h : inner.Agree inner) {s t : State} {a : Bool} (hs : s.Fair)
      (hkind : s.current = .leftParen) (hrun : (isCast inner).run s = some (a, t)) : t = s :=
    (isCast_reads_in_step h s s hs.alike hkind trivial a t a t hrun hrun).2.1
  have hchoose (a : Bool) : Mirrors C (· = .leftParen)
      (if a then typeCast inner else parenthesized inner)
      (if a then typeCast inner' else parenthesized inner') := by
    cases a with
    | true => exact typeCast_mirrors h
    | false => exact parenthesized_mirrors h
  constructor
  · intro s b u hs hbase hkind hrun
    obtain ⟨a, t, hcast, hrest⟩ := run_bind_eq_some.1 hrun
    rw [hleaves h.agree hs hkind hcast] at hrest
    exact (hchoose a).grows hs hbase hkind hrest
  · intro s s' b u b' u' hs hkind hrun hrun'
    obtain ⟨hfair, hfair'⟩ := C.fair hs
    obtain ⟨a, t, hcast, hrest⟩ := run_bind_eq_some.1 hrun
    obtain ⟨a', t', hcast', hrest'⟩ := run_bind_eq_some.1 hrun'
    rw [hleaves h.agree hfair hkind hcast] at hrest
    rw [hleaves h.agree' hfair' ((Coupling.current_eq hs).trans hkind) hcast'] at hrest'
    obtain ⟨found, v, htype, rfl⟩ := run_isCast_eq_some hcast
    obtain ⟨found', v', htype', rfl⟩ := run_isCast_eq_some hcast'
    have htaken := Coupling.take_common hs (by rw [hkind]; rfl)
    have htypes : Stays C anywhere (typeReference inner) (typeReference inner') :=
      typeReference_stays h
    obtain ⟨rfl, hv⟩ := (htypes.step htaken trivial htype htype').resolve_left id
    rw [Coupling.current_eq hv] at hrest'
    by_cases hparen : v.current = .rightParen
    · have hheld : ¬ C.Held v := fun hheld => by
        have hguard := C.held hheld
        rw [hparen] at hguard
        cases hguard
      rcases C.take hv hheld (.inl rfl) with hclosed | ⟨-, hgone, hnone⟩
      · rw [Coupling.current_eq hclosed] at hrest'
        exact (hchoose _).step hs hkind hrest hrest'
      · -- the second run sees no cast
        rw [hnone hparen, Bool.and_false, Bool.and_false] at hrest'
        cases hanswer : found' && (decide (v.current = .rightParen)
            && startsCastOperand (v.take Token.node).current) with
        | false =>
          rw [hanswer] at hrest
          exact (hchoose false).step hs hkind hrest hrest'
        | true =>
          rw [hanswer] at hrest
          exact .inl (gone_of_typeCast h hfair (C.solid hs) htype hparen hgone hrest)
    · rw [decide_eq_false hparen, Bool.false_and, Bool.and_false] at hrest hrest'
      exact (hchoose false).step hs hkind hrest hrest'

/-! ## Operands and operators -/

theorem primary_mirrors (h : inner.Tracks C doomed inner') :
    Mirrors C wanted (primary inner) (primary inner') := by
  have htaken {kind : Kind} (hkind : isCommon kind = true) :
      Mirrors C (· = kind) (do take; return true) (do take; return true) :=
    (take_common hkind).bind fun _ => .pure true
  refine .current_bind fun kind _ => ?_
  split
  all_goals first
    | exact htaken rfl
    | exact (typeReference_stays h).lift.discard.bind fun _ => .pure true
    | exact (castOrParenthesized_mirrors h).bind fun _ => .pure true
    | exact (newExpression_mirrors h).bind fun _ => .pure true
    | exact .pure false

theorem accessedName_stays : Stays C wanted accessedName accessedName := by
  refine .isAt_bind ?_ (.isAt_bind ?_ ?_)
  · simp only [Bool.true_or, if_true]
    exact .look_bind (.look_bind (take_common rfl))
  · simp only [Bool.or_true, Bool.true_or, if_true]
    exact .look_bind (take_common rfl)
  · exact .isAt_ite (take_common rfl) (missing_tracks _)

theorem trailer_mirrors (h : inner.Tracks C doomed inner') (hlevel : C.Level m m') :
    Mirrors C wanted (trailer inner m) (trailer inner' m') := by
  have hwrapped (kind : Kind) (hkind : kind.isConstruct = true) :
      Mirrors C anywhere (do wrap m kind; return true) (do wrap m' kind; return true) :=
    (wrap_tracks hlevel hkind).bind fun _ => .pure true
  refine .current_bind fun kind _ => ?_
  split
  · exact (take_common rfl).bind fun _ => accessedName_stays.lift.bind fun _ => hwrapped _ rfl
  · exact (argumentList_mirrors h).bind fun _ => hwrapped _ rfl
  · refine (take_common rfl).bind fun _ => (orMissing_tracks _ h.expression).bind fun _ => ?_
    exact (expect_common rfl).discard.bind fun _ => hwrapped _ rfl
  · exact (take_common rfl).bind fun _ => hwrapped _ rfl
  · exact (take_common rfl).bind fun _ => hwrapped _ rfl
  · exact .pure false

theorem operand_mirrors (h : inner.Tracks C doomed inner') :
    Mirrors C wanted (operand inner) (operand inner') := by
  refine .marker_bind fun m m' hlevel => (primary_mirrors h).ite ?_ (.pure false)
  exact (loop_tracks (trailer_mirrors h hlevel)).bind fun _ => .pure true

theorem isCommon_of_isUnaryOperator (h : isUnaryOperator kind = true) : isCommon kind = true := by
  cases kind <;> first | rfl | cases h

theorem unary_mirrors (h : inner.Tracks C doomed inner') :
    Mirrors C wanted (unary inner) (unary inner') := by
  refine .isAtAny_ite (.marker_bind fun m m' hlevel => ?_) (operand_mirrors h)
  refine (take_tracks fun _ => isCommon_of_isUnaryOperator).bind fun _ => ?_
  refine (orMissing_tracks _ h.unary).bind fun _ => (wrap_tracks hlevel rfl).bind fun _ => ?_
  exact .pure true

theorem isCommon_of_precedence? {least : Nat} (h : precedence? kind = some least) :
    isCommon kind = true := by
  cases kind <;> first | rfl | cases h

theorem operatorStep_mirrors (h : inner.Tracks C doomed inner') (least : Nat)
    (hlevel : C.Level m m') : Mirrors C wanted (operatorStep inner least m)
      (operatorStep inner' least m') := by
  refine .current_bind fun kind _ => ?_
  split
  · exact .pure false
  · next precedence hprecedence =>
    have htake : Mirrors C (· = kind) take take :=
      take_tracks (by rintro _ rfl; exact isCommon_of_precedence? hprecedence)
    split
    · exact .pure false
    · split
      · refine htake.bind
          fun _ => (orMissing_tracks _ (typeReference_stays h).lift).bind fun _ => ?_
        exact (wrap_tracks hlevel rfl).bind fun _ => .pure true
      · refine htake.bind fun _ => (orMissing_tracks _ h.operation).bind fun _ => ?_
        exact (wrap_tracks hlevel rfl).bind fun _ => .pure true

theorem operation_mirrors (h : inner.Tracks C doomed inner') (least : Nat) :
    Mirrors C wanted (operation inner least) (operation inner' least) := by
  refine .marker_bind fun m m' hlevel => (unary_mirrors h).ite ?_ (.pure false)
  exact (loop_tracks (operatorStep_mirrors h least hlevel)).bind fun _ => .pure true

theorem choices_mirrors (h : inner.Tracks C doomed inner') (hlevel : C.Level m m') :
    Mirrors C wanted (choices inner m) (choices inner' m') := by
  refine (orMissing_tracks _ h.expression.at).bind fun _ => ?_
  refine (expect_common rfl).discard.bind fun _ =>
    (orMissing_tracks _ h.conditional).bind fun _ => ?_
  exact wrap_tracks hlevel rfl

theorem conditional_mirrors (h : inner.Tracks C doomed inner') :
    Mirrors C wanted (conditional inner) (conditional inner') := by
  refine .marker_bind fun m m' hlevel => (operation_mirrors h 0).ite ?_ (.pure false)
  exact (whenTaken_tracks rfl (choices_mirrors h hlevel)).bind fun _ => .pure true

theorem assignedValue_mirrors (h : inner.Tracks C doomed inner') :
    Mirrors C wanted (assignedValue inner) (assignedValue inner') :=
  .isAt_ite (arrayInitializer_mirrors h) (orMissing_tracks _ h.expression.at)

theorem assignmentRest_mirrors (h : inner.Tracks C doomed inner') (hlevel : C.Level m m') :
    Mirrors C wanted (assignmentRest inner m) (assignmentRest inner' m') := by
  have hassigned {kind : Kind} (hkind : isCommon kind = true) : Mirrors C (· = kind)
      (do take; assignedValue inner; wrap m .assignment)
      (do take; assignedValue inner'; wrap m' .assignment) :=
    (take_common hkind).bind fun _ => (assignedValue_mirrors h).bind fun _ => wrap_tracks hlevel rfl
  exact .isAtEither_ite (hassigned rfl) (hassigned rfl) (.pure ())

theorem expression_mirrors (h : inner.Tracks C doomed inner') :
    Mirrors C wanted (expression inner) (expression inner') := by
  refine .marker_bind fun m m' hlevel => (conditional_mirrors h).ite ?_ (.pure false)
  exact (assignmentRest_mirrors h hlevel).bind fun _ => .pure true

end StatementCompletion.Grammar
