import StatementCompletion.Proofs.Grammar.Tracking.Statements

/-!
# The rules for classes and their members on both sides

Whether an enum constant follows is told by the token behind its name, and where that is a name too,
by the one behind it.  The names close nothing, so the two sides see the same three tokens.
-/

namespace StatementCompletion.Grammar

variable {C : Coupling} {fails : State → Prop} {wanted : Kind → Prop} {inner inner' : Inner}
  {m m' : Nat}

/-! ## Enum constants -/

/-- Two names are taken in on both sides, so the token behind them is the same. -/
theorem declaresMember_step {s s' t t' : State} {a a' : Bool} (hs : C.Rel s s')
    (hname : s.current = .identifier) (hnext : s.next.current = .identifier)
    (hrun : declaresMember.run s = some (a, t)) (hrun' : declaresMember.run s' = some (a', t')) :
    a' = a := by
  obtain ⟨u, hlook, -⟩ := run_lookAhead_eq_some hrun
  obtain ⟨u', hlook', -⟩ := run_lookAhead_eq_some hrun'
  have hsome : s.token?.isSome := State.isSome_of_current (by rw [hname]; decide)
  have hsecond : isCommon (s.take Token.node).current = true := by
    rw [State.current_take hsome, hnext]
    rfl
  have hboth := Coupling.take_common (Coupling.take_common hs (by rw [hname]; rfl)) hsecond
  obtain ⟨rfl, -⟩ := Prod.mk.inj (Option.some.inj hlook)
  obtain ⟨rfl, -⟩ := Prod.mk.inj (Option.some.inj hlook')
  rw [Coupling.current_eq hboth]

/-- What may stand behind an enum constant. -/
def endsEnumConstant : Kind → Bool
  | .comma | .semicolon | .rightBrace | .leftParen | .leftBrace | .endOfFile => true
  | _ => false

theorem run_isEnumConstant {s : State} (hname : s.current = .identifier) : isEnumConstant.run s
    = if s.next.current = .identifier then
        (do return s.next.onNewLine || !(← declaresMember) : Parser Bool).run s
      else some (endsEnumConstant s.next.current, s) := by
  have hfirst {g : Bool → Parser Bool} :
      (isAt .identifier >>= g).run s = (g (decide (s.current = .identifier))).run s := rfl
  have hsecond {g : Kind → Parser Bool} : (peek >>= g).run s = (g s.next.current).run s := rfl
  unfold isEnumConstant
  rw [hfirst, decide_eq_true hname, if_pos rfl, hsecond]
  cases s.next.current <;> rfl

theorem run_isEnumConstant_of_ne {s : State} (hname : s.current ≠ .identifier) :
    isEnumConstant.run s = some (false, s) := by
  show StateT.run (if decide (s.current = .identifier) then _ else pure false) s = _
  rw [decide_eq_false hname]
  rfl

theorem isEnumConstant_stays : Stays C wanted isEnumConstant isEnumConstant := by
  have hleaves : Leaves isEnumConstant := isEnumConstant_reads_in_step.leaves
  constructor
  · intro s a t hs _ _ hrun
    rw [hleaves hs hrun]
    exact ⟨hs, .refl⟩
  · intro s s' a t a' t' hs _ hrun hrun'
    obtain ⟨hfair, hfair'⟩ := C.fair hs
    obtain rfl := hleaves hfair hrun
    obtain rfl := hleaves hfair' hrun'
    refine .inr ⟨?_, hs⟩
    by_cases hname : t.current = .identifier
    · obtain ⟨hnext, honNewLine⟩ := C.next hs (by rw [hname]; rfl)
      rw [run_isEnumConstant hname] at hrun
      rw [run_isEnumConstant ((Coupling.current_eq hs).trans hname), hnext, honNewLine] at hrun'
      split at hrun
      · next hsecond =>
        rw [if_pos hsecond] at hrun'
        obtain ⟨b, _, hdeclares, hanswer⟩ := run_bind_eq_some.1 hrun
        obtain ⟨b', _, hdeclares', hanswer'⟩ := run_bind_eq_some.1 hrun'
        rw [(run_pure_eq_some.1 hanswer).1, (run_pure_eq_some.1 hanswer').1,
          declaresMember_step hs hname hsecond hdeclares hdeclares']
      · next hsecond =>
        rw [if_neg hsecond] at hrun'
        exact (Prod.mk.inj (Option.some.inj hrun')).1.symm.trans
          (Prod.mk.inj (Option.some.inj hrun)).1
    · rw [run_isEnumConstant_of_ne hname] at hrun
      rw [run_isEnumConstant_of_ne (by rwa [Coupling.current_eq hs])] at hrun'
      exact (Prod.mk.inj (Option.some.inj hrun')).1.symm.trans
        (Prod.mk.inj (Option.some.inj hrun)).1

/-- An enum constant begins with its name. -/
theorem Tracks.isEnumConstant_ite {α : Type} {q q' r r' : Parser α}
    (hq : Mirrors C (· = .identifier) q q')
    (hr : Mirrors C wanted r r') : Mirrors C wanted (do if ← isEnumConstant then q else r)
      (do if ← isEnumConstant then q' else r') where
  grows hs hbase hkind hrun := by
    obtain ⟨a, u, hasked, hrest⟩ := run_bind_eq_some.1 hrun
    obtain rfl := isEnumConstant_reads_in_step.leaves hs hasked
    cases a with
    | true => exact hq.grows hs hbase (current_of_isEnumConstant hasked) hrest
    | false => exact hr.grows hs hbase hkind hrest
  step {s s' b t b' t'} hs hkind hrun hrun' := by
    obtain ⟨a, u, hasked, hrest⟩ := run_bind_eq_some.1 hrun
    obtain ⟨a', u', hasked', hrest'⟩ := run_bind_eq_some.1 hrun'
    have hstays : Stays C anywhere isEnumConstant isEnumConstant := isEnumConstant_stays
    obtain ⟨rfl, hu⟩ := (hstays.step hs trivial hasked hasked').resolve_left id
    obtain rfl := isEnumConstant_reads_in_step.leaves (C.fair hs).1 hasked
    cases a' with
    | true => exact hq.step hu (current_of_isEnumConstant hasked) hrest hrest'
    | false => exact hr.step hu hkind hrest hrest'

section

variable (h : inner.Tracks C C.Doomed inner')

include h

theorem enumConstant_mirrors : Mirrors C wanted (enumConstant inner) (enumConstant inner') := by
  refine .isEnumConstant_ite (.marker_bind fun m m' hlevel => (take_common rfl).bind fun _ => ?_)
    (.pure false)
  refine (whenAt_tracks (argumentList_mirrors h)).bind fun _ => ?_
  refine (whenAt_tracks (memberBlock_mirrors h)).bind fun _ => ?_
  refine (wrap_tracks hlevel rfl).bind fun _ => (takeIf_common rfl).ite (.pure true) ?_
  exact isEnumConstant_stays.lift.ite ((missing_tracks _).bind fun _ => .pure true) (.pure false)

theorem enumConstants_mirrors : Mirrors C wanted (enumConstants inner) (enumConstants inner') := by
  refine (loop_tracks (enumConstant_mirrors h)).bind fun _ => ?_
  refine (takeIf_closer rfl).ite (.pure ()) ?_
  exact .isAtEither_ite (.pure ()) (.pure ()) (missing_tracks _)

/-! ## Methods and fields -/

theorem parameterList_mirrors :
    Mirrors C (· = .leftParen) (parameterList inner) (parameterList inner') := by
  refine .marker_bind fun m m' hlevel => (take_common rfl).bind fun _ => ?_
  refine (unlessAt_tracks (orMissing_tracks _ (separated_tracks rfl (parameter_mirrors h)))).bind
    fun _ => ?_
  exact (expect_closer rfl).discard.bind fun _ => wrap_tracks hlevel rfl

theorem throwsList_stays : Stays C wanted (throwsList inner) (throwsList inner') := by
  refine .isAt_ite (.marker_bind fun m m' hlevel => (take_common rfl).bind fun _ => ?_) (.pure ())
  exact (types_stays h).bind fun _ => wrap_tracks hlevel rfl

theorem methodBody_mirrors : Mirrors C wanted (methodBody inner) (methodBody inner') :=
  .isAt_ite (codeBlock_mirrors h) (.isAt_ite (take_closer rfl) (missing_tracks _))

theorem methodBehindName_mirrors (hlevel : C.Level m m') :
    Mirrors C (· = .leftParen) (methodBehindName inner m) (methodBehindName inner' m') := by
  refine (parameterList_mirrors h).bind fun _ => (loop_tracks dimension_stays.lift).bind fun _ => ?_
  refine (throwsList_stays h).lift.bind fun _ => (methodBody_mirrors h).bind fun _ => ?_
  exact wrap_tracks hlevel rfl

theorem nextField_mirrors : Mirrors C wanted (nextField inner) (nextField inner') := by
  refine (takeIf_common rfl).ite ?_ (.pure false)
  refine (expect_common rfl).discard.bind fun _ => (variableRest_mirrors h).bind fun _ => ?_
  exact .pure true

theorem fieldBehindName_mirrors (hlevel : C.Level m m') :
    Mirrors C wanted (fieldBehindName inner m) (fieldBehindName inner' m') := by
  refine (variableRest_mirrors h).bind fun _ => (loop_tracks (nextField_mirrors h)).bind fun _ => ?_
  exact (expect_closer rfl).discard.bind fun _ => wrap_tracks hlevel rfl

omit h in
theorem brokenField_mirrors (hlevel : C.Level m m') (missed : Wanted) :
    Mirrors C wanted (brokenField m missed) (brokenField m' missed) := by
  refine (missing_tracks _).bind fun _ => (takeIf_closer rfl).discard.bind fun _ => ?_
  exact wrap_tracks hlevel rfl

/-! ## Classes -/

theorem constantsOf_mirrors (isEnum : Bool) :
    Mirrors C wanted (constantsOf inner isEnum) (constantsOf inner' isEnum) := by
  cases isEnum with
  | true => exact enumConstants_mirrors h
  | false => exact .pure ()

theorem classBody_mirrors (isEnum : Bool) :
    Mirrors C wanted (classBody inner isEnum) (classBody inner' isEnum) := by
  refine .isAt_ite ((take_common rfl).bind fun _ => ?_) (missing_tracks _)
  exact (constantsOf_mirrors h isEnum).bind fun _ => itemsUpToBrace_of_mirrors h.member.discard

theorem typesBehind_stays {keyword : Kind} (hkeyword : isCommon keyword = true) :
    Stays C wanted (typesBehind inner keyword) (typesBehind inner' keyword) :=
  whenTaken_tracks hkeyword (types_stays h)

omit h in
theorem isCommon_of_startsClass {kind : Kind} (hkind : startsClass kind = true) :
    isCommon kind = true := by
  cases kind <;> first | rfl | cases hkind

theorem classDeclaration_mirrors (hlevel : C.Level m m') :
    Mirrors C (startsClass · = true) (classDeclaration inner m) (classDeclaration inner' m') := by
  refine .read_bind (fun hs _ => by rw [Coupling.current_eq hs]) fun isEnum => ?_
  refine (take_tracks fun _ => isCommon_of_startsClass).bind fun _ =>
    (expect_common rfl).discard.bind fun _ => ?_
  refine (whenAt_tracks (typeArguments_stays h).lift.discard).bind fun _ => ?_
  refine (typesBehind_stays h rfl).lift.bind fun _ =>
    (typesBehind_stays h rfl).lift.bind fun _ => ?_
  exact (classBody_mirrors h isEnum).bind fun _ => wrap_tracks hlevel rfl

theorem typedMember_mirrors (hlevel : C.Level m m') :
    Mirrors C wanted (typedMember inner m) (typedMember inner' m') := by
  refine (typeReference_stays h).lift.ite ?_ ?_
  · refine (takeIf_common rfl).ite ?_ (brokenField_mirrors hlevel _)
    exact .isAt_ite (methodBehindName_mirrors h hlevel) (fieldBehindName_mirrors h hlevel)
  · exact .built_ite hlevel (brokenField_mirrors hlevel _) (.pure ())

theorem member_mirrors : Mirrors C wanted (member inner) (member inner') := by
  refine .marker_bind fun m m' hlevel => (modifiers_mirrors h).bind fun _ => ?_
  refine .isAtAny_ite (classDeclaration_mirrors h hlevel) (.isAt_ite ?_ ?_)
  · exact (codeBlock_mirrors h).bind fun _ => wrap_tracks hlevel rfl
  · exact takeBefore_tracks rfl (by decide) (methodBehindName_mirrors h hlevel)
      (typedMember_mirrors h hlevel)

end

end StatementCompletion.Grammar
