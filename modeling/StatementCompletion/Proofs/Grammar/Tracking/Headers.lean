import StatementCompletion.Proofs.Grammar.Header

/-!
# Headers on both sides

As long as the closing parenthesis of a header is ahead, the header is the same on both sides.
Which of the two loops with the keyword `for` it is may be told otherwise by the second run, but
then the modifiers that the first one has read ahead are due, and no header that ends in front of a
closing parenthesis leaves them.
-/

namespace StatementCompletion.Grammar

variable {C : Coupling} {wanted : Kind → Prop} {inner inner' : Inner} {header header' : Header}
  {s s' t u u' : State}

/-- A keyword closes nothing, so the states behind it belong together. -/
theorem Coupling.take_keyword (hheld : ∀ s, ¬ C.Held s) (hs : C.Rel s s')
    (hkind : isCloser s.current = false) :
    C.Rel (s.take Token.node) (s'.take Token.node) := by
  rcases C.take hs (hheld s) (.inl rfl) with ht | ⟨hcloser, -⟩
  · exact ht
  · exact absurd (hkind.symm.trans hcloser) Bool.false_ne_true

section

variable (h : inner.Tracks C C.Doomed inner') (hheld : ∀ s, ¬ C.Held s)

include h

namespace Header

include hheld in
theorem inside_mirrors (header : Header) :
    Mirrors C wanted (header.inside inner) (header.inside inner') := by
  have hcondition {wanted : Kind → Prop} :
      Mirrors C wanted (orMissing (expression inner) .expression)
        (orMissing (expression inner') .expression) :=
    orMissing_tracks _ (expression_mirrors h)
  cases header with
  | branch | loop => exact hcondition
  | elements =>
    exact (parameter_mirrors h).discard.bind fun _ =>
      (take_of_unheld fun s _ => hheld s).bind fun _ => hcondition
  | counting =>
    refine (forInitializer_mirrors h).bind fun _ => ?_
    refine (whenAtAny_tracks (expression_mirrors h).discard).bind fun _ => ?_
    exact (expect_closer rfl).discard.bind fun _ => forUpdate_mirrors h

theorem otherwise_sways {pre : State → Prop} {late : Nat} (header : Header) :
    Sways C C.Doomed late pre (header.otherwise inner) (header.otherwise inner') := by
  cases header with
  | branch => exact elseBranch_sways h
  | loop | elements | counting => exact (Tracks.pure ()).sways

/-- Modifiers that are due are read in the header of a loop or left as they are. -/
theorem inside_due (hC : C.Settles) {a : Unit} (hs : s.Fair) (hbase : C.base ≤ s.solid)
    (hdue : C.Due s)
    (hrun : (header.inside inner).run s = some (a, t)) : C.Gone t ∨ C.Doomed t := by
  have hcondition : Bears C C.Doomed (orMissing (expression inner) .expression) :=
    orMissing_expression_bears h _
  cases header with
  | branch | loop => exact hcondition.step hs hbase (hdue.doomed hs hbase) hrun
  | elements =>
    have hsplit : inside inner elements =
        (do elementVariable inner; orMissing (expression inner) .expression) := by
      simp only [inside, elementVariable, bind_assoc]
    rw [hsplit] at hrun
    obtain ⟨_, u, hvariable, hrest⟩ := run_bind_eq_some.1 hrun
    obtain ⟨hu, hsu⟩ := elementVariable_grows h hs hbase hvariable
    have hbase' := hsu.floor_le_solid hbase
    rcases elementVariable_due h hC hs hbase hdue hvariable with hgone | hdue
    · exact .inl (hgone.grows hu (hcondition.grows hu hbase' hrest).2)
    · exact hcondition.step hu hbase' (hdue.doomed hu hbase') hrest
  | counting =>
    have hbears : Bears C C.Doomed (inside inner counting) :=
      (forInitializer_bears h hC).bind fun _ => (expression_bears h).bind fun _ =>
        (Bears.expect rfl rfl).bind fun _ =>
          .isAtAny_bind startsExpression_of_startsModifier (forUpdate_mirrors h).sways (.pure ())
    exact hbears.step hs hbase (hdue.doomed hs hbase) hrun

/-- The same header is chosen on both sides, or modifiers are due. -/
theorem choose_step (hs : C.Rel s s') {kind : Kind}
    (hrun : (choose inner kind).run s = some (header, t)) {t' : State}
    (hrun' : (choose inner' kind).run s' = some (header', t')) : header' = header ∨ C.Due s := by
  unfold choose at hrun hrun'
  split at hrun
  · exact .inl ((run_pure_eq_some.1 hrun').1.trans (run_pure_eq_some.1 hrun).1.symm)
  · exact .inl ((run_pure_eq_some.1 hrun').1.trans (run_pure_eq_some.1 hrun).1.symm)
  · split at hrun'
    · contradiction
    · contradiction
    · obtain ⟨found, u, hlook, hanswer⟩ := run_bind_eq_some.1 hrun
      obtain ⟨found', u', hlook', hanswer'⟩ := run_bind_eq_some.1 hrun'
      obtain ⟨-, -, rfl | hdue⟩ := isElementLoop_step h hs hlook hlook'
      · cases found' with
        | true =>
          exact .inl ((run_pure_eq_some.1 hanswer').1.trans (run_pure_eq_some.1 hanswer).1.symm)
        | false =>
          exact .inl ((run_pure_eq_some.1 hanswer').1.trans (run_pure_eq_some.1 hanswer).1.symm)
      · exact .inr hdue

include hheld in
/-- **The header is the same on both sides.**  Otherwise the first run is
gone, or modifiers come next. -/
theorem Reads.step (hC : C.Settles) (hs : C.Rel s s') (hkind : isGuardKeyword s.current = true)
    (hreads : header.Reads inner s u) (hreads' : header'.Reads inner' s' u') :
    C.Gone u ∨ C.Doomed u ∨ header' = header ∧ C.Rel u u' := by
  have htaken := Coupling.take_keyword hheld hs (isCloser_of_isGuardKeyword hkind)
  have hopened : C.Rel s.opened s'.opened :=
    Coupling.take_keyword hheld htaken (by rw [hreads.opened]; rfl)
  have hchosen' := hreads'.chosen
  rw [Coupling.current_eq hs] at hchosen'
  rcases choose_step h hopened hreads.chosen hchosen' with rfl | hdue
  · have hmirrors : Mirrors C anywhere (header'.inside inner) (header'.inside inner') :=
      inside_mirrors h hheld header'
    rcases hmirrors.step hopened trivial hreads.inside hreads'.inside with hgone | ⟨-, hrel⟩
    · exact .inl hgone
    · exact .inr (.inr ⟨rfl, hrel⟩)
  · rcases inside_due h hC (C.fair hopened).1 (C.solid hopened) hdue hreads.inside
      with hgone | hdoomed
    · exact .inl hgone
    · exact .inr (.inl hdoomed)

end Header

end

end StatementCompletion.Grammar
