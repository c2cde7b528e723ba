import StatementCompletion.Proofs.Grammar.Tracking.Sealing

/-!
# The ends of statements

A statement whose run leaves no mark ends with a semicolon or a closing brace of its own, or with a
statement inside it.  So where that token is the last one in front of the brace on the second side,
both sides are at the end of the statement once they have taken it in.

The header of a loop may be read ahead beyond that token on one side, and then the two sides would
take it for different loops.  But then the first run has read the last token as part of a modifier,
and the statement needs more tokens than that.
-/

namespace StatementCompletion.Grammar

variable {α β : Type} {B : Bracing} {wanted : Kind → Prop} {kind : Kind}
    {inner inner' : Inner} {m m' : Nat}

/-- The rules that the two sides nest do the same, and seal statements. -/
structure Inner.Seals (B : Bracing) (inner inner' : Inner) : Prop where
  tracks : inner.Tracks B.coupling B.coupling.Doomed inner'
  statement : Grammar.Seals B (startsStatement · = true) (inner .statement) (inner' .statement)

/-! ## Reading ahead and looking for more -/

namespace Seals

theorem read_bind {γ : Type} {read : State → γ} {g g' : γ → Parser β}
    (hread : ∀ {s s'}, B.coupling.Rel s s' → wanted s.current → read s' = read s)
    (hg : ∀ c, Seals B wanted (g c) (g' c)) :
    Seals B wanted ((do return read (← get)) >>= g) ((do return read (← get)) >>= g') where
  grows {s b u} hs hkind hrun := by
    have hrun : (g (read s)).run s = some (b, u) := hrun
    exact (hg _).grows hs hkind hrun
  finish {s b u} hs hkind hrun hclean := by
    have hrun : (g (read s)).run s = some (b, u) := hrun
    exact (hg _).finish hs hkind hrun hclean
  step {s s' b u b' u'} hs hkind hrun hrun' hclean hleft := by
    have hrun : (g (read s)).run s = some (b, u) := hrun
    have hrun' : (g' (read s')).run s' = some (b', u') := hrun'
    rw [hread hs hkind] at hrun'
    exact (hg _).step hs hkind hrun hrun' hclean hleft

/-- What is read ahead leaves the state as it is. -/
theorem ahead_bind {p p' : Parser α} {g g' : α → Parser β} (hp : Stays B.coupling anywhere p p')
    (hleaves : Leaves p)
    (hg : ∀ a, Seals B wanted (g a) (g' a)) : Seals B wanted (p >>= g) (p' >>= g') where
  grows hs hkind hrun := by
    obtain ⟨a, t, hpt, hgu⟩ := run_bind_eq_some.1 hrun
    obtain rfl := hleaves hs.fair hpt
    exact (hg a).grows hs hkind hgu
  finish hs hkind hrun hclean := by
    obtain ⟨a, t, hpt, hgu⟩ := run_bind_eq_some.1 hrun
    obtain rfl := hleaves hs.fair hpt
    exact (hg a).finish hs hkind hgu hclean
  step hs hkind hrun hrun' hclean hleft := by
    obtain ⟨a, t, hpt, hgu⟩ := run_bind_eq_some.1 hrun
    obtain ⟨a', t', hpt', hgu'⟩ := run_bind_eq_some.1 hrun'
    obtain ⟨rfl, hrel⟩ := (hp.step hs trivial hpt hpt').resolve_left id
    obtain rfl := hleaves (Bracing.stands_of_rel hs).fair hpt
    exact (hg a').step hrel hkind hgu hgu' hclean hleft

theorem of_not {p p' : Parser α} (h : ∀ kind, ¬ wanted kind) : Seals B wanted p p' where
  grows _ hkind := absurd hkind (h _)
  finish _ hkind := absurd hkind (h _)
  step _ hkind := absurd hkind (h _)

theorem of_failure_left {p' : Parser α} : Seals B wanted (failure : Parser α) p' where
  grows _ _ hrun := (Option.some_ne_none _ hrun.symm).elim
  finish _ _ hrun := (Option.some_ne_none _ hrun.symm).elim
  step _ _ hrun := (Option.some_ne_none _ hrun.symm).elim

theorem of_failure_right {p p' : Parser α} (hp : Seals B wanted p p') :
    Seals B wanted p failure where
  grows := hp.grows
  finish := hp.finish
  step _ _ _ hrun' := (Option.some_ne_none _ hrun'.symm).elim

end Seals

namespace Rests

theorem of_failure_left {p' : Parser α} : Rests B (failure : Parser α) p' where
  grows _ _ hrun := (Option.some_ne_none _ hrun.symm).elim
  finish _ hrun := (Option.some_ne_none _ hrun.symm).elim
  step _ _ hrun := (Option.some_ne_none _ hrun.symm).elim
  idle _ hrun := (Option.some_ne_none _ hrun.symm).elim

theorem of_failure_right {p p' : Parser α} (hp : Rests B p p') : Rests B p failure where
  grows := hp.grows
  finish := hp.finish
  step _ _ _ hrun' := (Option.some_ne_none _ hrun'.symm).elim
  idle _ _ hrun' := (Option.some_ne_none _ hrun'.symm).elim

theorem whenTaken {p p' : Parser Unit} (hkind : kind ≠ .rightBrace) (hp : Seals B anywhere p p') :
    Rests B (whenTaken kind p) (whenTaken kind p') := by
  have heq (p : Parser Unit) :
      Grammar.whenTaken kind p = (do if ← isAt kind then (do take; p) else Pure.pure ()) := by
    simp only [Grammar.whenTaken, takeIf, bind_assoc]
    congr 1
    funext b
    cases b <;> simp
  rw [heq, heq]
  have htake : Seals B (· = kind) (do take; p) (do take; p') :=
    (take_gated (B := B)).leads.bind fun _ => hp
  exact .isAt_bind hkind htake (.pure ())

theorem loop {step step' : Parser Bool} (hstep : Rests B step step') :
    Rests B (loop step) (loop step') := by
  have hwithin (n n' : Nat) : Rests B (loopWithin n step) (loopWithin n' step') := by
    induction n generalizing n' with
    | zero => exact .of_failure_left
    | succ n ih =>
      have hturn (n' : Nat) : Rests B (loopWithin (n + 1) step) (loopWithin (n' + 1) step') := by
        refine hstep.bind fun again => ?_
        cases again with
        | true => exact ih n'
        | false => exact .pure ()
      cases n' with
      | zero => exact (hturn 0).of_failure_right
      | succ n' => exact hturn n'
  exact ⟨⟨fun hs hkind hrun => (hwithin _ 0).grows hs hkind hrun,
    fun hs hkind hrun hrun' => (hwithin _ _).step hs hkind hrun hrun'⟩,
    fun hs hrun => (hwithin _ 0).finish hs hrun, fun hs hrun hrun' =>
      (hwithin _ _).idle hs hrun hrun'⟩

end Rests

section

variable (h : inner.Seals B inner')

include h

/-! ## Blocks and bodies -/

theorem body_seals : Seals B wanted (body inner) (body inner') :=
  .isAtAny_bind (h.statement.discard.mono fun _ hkind => hkind.2) (missing_seals _)

theorem codeBlock_seals : Seals B wanted (codeBlock inner) (codeBlock inner') := by
  refine .marker_bind fun m m' hlevel => (take_gated (B := B)).leads.bind fun _ => ?_
  have hitems : Mirrors B.coupling anywhere (loop (bracedItem (discard (inner .statement))))
      (loop (bracedItem (discard (inner' .statement)))) :=
    bracedItems_mirrors h.tracks.statement.discard h.tracks.dooms.discard Coupling.Doomed.goesOn
  exact Seals.bind (hitems.leads.bind fun _ => expect_seals rfl (by decide)) fun _ =>
    .wrap hlevel rfl

theorem requiredBlock_seals (missed : Wanted) :
    Seals B wanted (requiredBlock inner missed) (requiredBlock inner' missed) :=
  .isAt_bind (codeBlock_seals h) (missing_seals _)

/-! ## Branches and loops -/

theorem ifStatement_seals (hlevel : B.coupling.Level m m') :
    Seals B wanted (ifStatement inner m) (ifStatement inner' m') := by
  refine (take_gated (B := B)).leads.bind fun _ =>
    (condition_mirrors h.tracks).leads.bind fun _ => ?_
  refine (body_seals h).bind fun _ => (Rests.whenTaken (by decide) (body_seals h)).bind fun _ => ?_
  exact .wrap hlevel rfl

theorem whileStatement_seals (hlevel : B.coupling.Level m m') :
    Seals B wanted (whileStatement inner m) (whileStatement inner' m') := by
  refine (take_gated (B := B)).leads.bind fun _ =>
    (condition_mirrors h.tracks).leads.bind fun _ => ?_
  exact (body_seals h).bind fun _ => .wrap hlevel rfl

theorem doWhileCondition_gated :
    Mirrors B.coupling wanted (doWhileCondition inner) (doWhileCondition inner') := by
  have htaken : Mirrors B.coupling wanted (takeIf .whileKeyword) (takeIf .whileKeyword) :=
    .takeIf take_gated
  exact htaken.ite (condition_mirrors h.tracks) (missing_tracks _)

theorem doWhileStatement_seals (hlevel : B.coupling.Level m m') :
    Seals B wanted (doWhileStatement inner m) (doWhileStatement inner' m') := by
  refine (take_gated (B := B)).leads.bind fun _ => (body_seals h).leads.bind fun _ => ?_
  refine (doWhileCondition_gated h).leads.bind fun _ => ?_
  exact (expect_seals rfl (by decide)).bind fun _ => .wrap hlevel rfl

/-- What comes behind the separator in the header of a loop over elements, and making the loop. -/
theorem foreachTail_seals (hlevel : B.coupling.Level m m') :
    Seals B wanted (do foreachBody inner; wrap m .foreachStatement)
      (do foreachBody inner'; wrap m' .foreachStatement) := by
  have hheader : Mirrors B.coupling wanted (orMissing (expression inner) .expression)
      (orMissing (expression inner') .expression) :=
        orMissing_tracks _ (expression_mirrors h.tracks)
  have hclosed : Mirrors B.coupling anywhere (discard (expect .rightParen))
      (discard (expect .rightParen)) :=
    (expect_closer rfl).discard
  refine Seals.bind
    (hheader.leads.bind fun _ => hclosed.leads.bind fun _ => body_seals h) fun _ => ?_
  exact .wrap hlevel rfl

theorem foreachRest_seals (hlevel : B.coupling.Level m m') :
    Seals B wanted (foreachRest inner m) (foreachRest inner' m') := by
  rw [foreachRest_eq, foreachRest_eq]
  refine (parameter_mirrors h.tracks).discard.leads.bind fun _ =>
    (take_gated (B := B)).leads.bind fun _ => ?_
  exact foreachTail_seals h hlevel

/-- What comes behind the first part of the header of a counting loop. -/
def forTail (inner : Inner) (opening : Nat) : Parser Unit := do
  whenAtAny startsExpression (discard (expression inner))
  discard (expect .semicolon)
  forUpdate inner
  discard (expect .rightParen)
  body inner
  wrap opening .forStatement

theorem forTail_seals (hlevel : B.coupling.Level m m') :
    Seals B wanted (forTail inner m) (forTail inner' m') := by
  have hexpect {kind : Kind} (hkind : isGuardKeyword kind = false) :
      Mirrors B.coupling anywhere (discard (expect kind)) (discard (expect kind)) :=
    (expect_closer hkind).discard
  refine (whenAtAny_tracks (expression_mirrors h.tracks).discard).leads.bind fun _ => ?_
  refine (hexpect rfl).leads.bind fun _ => (forUpdate_mirrors h.tracks).leads.bind fun _ => ?_
  exact (hexpect rfl).leads.bind fun _ => (body_seals h).bind fun _ => .wrap hlevel rfl

theorem forRest_seals (hlevel : B.coupling.Level m m') :
    Seals B wanted (forRest inner m) (forRest inner' m') :=
  (forInitializer_mirrors h.tracks).leads.bind fun _ => forTail_seals h hlevel

/-- Where no expression begins, one is missing. -/
theorem markMissing_of_orMissing {missed : Wanted} {s t : State} {a : Unit}
    (hs : startsExpression s.current = false)
    (hrun : (orMissing (expression inner) missed).run s = some (a, t)) :
    t = s.markMissing missed := by
  obtain ⟨b, u, hexpression, hmissing⟩ := run_bind_eq_some.1 hrun
  obtain ⟨rfl, rfl⟩ := (expression_phrases h.tracks.agree).phrase.no hs hexpression
  exact (Prod.mk.inj (Option.some.inj hmissing)).2.symm

/-- Where modifiers that hold the last token are due, a loop over elements
takes in more than that. -/
theorem foreachRest_lt_left (hlevel : B.coupling.Level m m') {s t : State} {a : Unit}
    (hs : B.Stands s) (hdue : B.coupling.Due s) (hrun : (foreachRest inner m).run s = some (a, t))
    (hclean : B.Clean t) : t.ahead.length < B.left := by
  have hvariable : Mirrors B.coupling anywhere (elementVariable inner) (elementVariable inner') :=
    (parameter_mirrors h.tracks).discard.bind fun _ => take_gated
  have htail : Seals B anywhere (do foreachBody inner; wrap m .foreachStatement)
      (do foreachBody inner'; wrap m' .foreachStatement) := foreachTail_seals h hlevel
  rw [foreachRest_eq_elementVariable] at hrun
  obtain ⟨_, v, hread, hrest⟩ := run_bind_eq_some.1 hrun
  obtain ⟨hv, -⟩ := hvariable.leads.grows hs trivial hread
  rcases elementVariable_due h.tracks B.coupling.settles hs.fair hs.base_le hdue hread with
    hgone | hdue
  · exact htail.lt_left hv trivial hgone hrest hclean
  · -- no expression begins with a modifier
    obtain ⟨_, w, hheader, hwrap⟩ := run_bind_eq_some.1 hrest
    obtain ⟨_, x, hvalue, hbody⟩ := run_bind_eq_some.1 hheader
    have hmissing :=
      markMissing_of_orMissing h (startsExpression_of_startsModifier _ hdue.1) hvalue
    have hmarked : Mirrors B.coupling anywhere (missing .expression) (missing .expression) :=
      missing_tracks _
    obtain ⟨hx, -⟩ := hmarked.leads.grows hv trivial
      (show (missing .expression).run _ = some ((), x) by rw [hmissing]; rfl)
    have hbehind : Seals B anywhere
        (do (do discard (expect .rightParen); body inner); wrap m .foreachStatement)
        (do (do discard (expect .rightParen); body inner'); wrap m' .foreachStatement) := by
      have hclosed : Mirrors B.coupling anywhere (discard (expect .rightParen))
          (discard (expect .rightParen)) :=
        (expect_closer rfl).discard
      exact Seals.bind (hclosed.leads.bind fun _ => body_seals h) fun _ => .wrap hlevel rfl
    have hgrows := (hbehind.grows hx trivial (run_bind_eq_some.2 ⟨_, w, hbody, hwrap⟩)).2
    refine absurd (hclean.of_grows hx hgrows) ?_
    rw [hmissing]
    exact hv.not_clean_markMissing _

/-- So does a counting loop. -/
theorem forRest_lt_left (hlevel : B.coupling.Level m m') {s t : State} {a : Unit} (hs : B.Stands s)
    (hdue : B.coupling.Due s) (hrun : (forRest inner m).run s = some (a, t)) (hclean : B.Clean t) :
    t.ahead.length < B.left := by
  obtain ⟨_, u, hinitializer, hrest⟩ := run_bind_eq_some.1 hrun
  have hrest : (forTail inner m).run u = some (a, t) := hrest
  have htail : Seals B anywhere (forTail inner m) (forTail inner' m') := forTail_seals h hlevel
  have hfirst : Mirrors B.coupling anywhere (forInitializer inner) (forInitializer inner') :=
    forInitializer_mirrors h.tracks
  obtain ⟨hu, -⟩ := hfirst.leads.grows hs trivial hinitializer
  rcases forInitializer_doomed h.tracks B.coupling.settles hs.fair hs.base_le
    (hdue.doomed hs.fair hs.base_le)
    hinitializer with hgone | rfl
  · exact htail.lt_left hu trivial hgone hrest hclean
  · exact absurd (hclean.of_grows hu (htail.grows hu trivial hrest).2) (hs.not_clean_markMissing _)

theorem forHeader_seals (hlevel : B.coupling.Level m m') :
    Seals B wanted (forHeader inner m) (forHeader inner' m') := by
  have hleaves : Leaves (isElementLoop inner) := (isElementLoop_reads_in_step h.tracks.agree).leaves
  have hchoose (a : Bool) : Seals B wanted (if a then foreachRest inner m else forRest inner m)
      (if a then foreachRest inner' m' else forRest inner' m') := by
    cases a with
    | true => exact foreachRest_seals h hlevel
    | false => exact forRest_seals h hlevel
  constructor
  · constructor
    · intro s b t hs hkind hrun
      obtain ⟨a, u, hasked, hrest⟩ := run_bind_eq_some.1 hrun
      obtain rfl := hleaves hs.fair hasked
      exact (hchoose a).grows hs hkind hrest
    · intro s s' b t b' t' hs hkind hrun hrun' hclean hleft
      obtain ⟨a, u, hasked, hrest⟩ := run_bind_eq_some.1 hrun
      obtain ⟨a', u', hasked', hrest'⟩ := run_bind_eq_some.1 hrun'
      have hstands := Bracing.stands_of_rel hs
      obtain ⟨rfl, rfl, rfl | hdue⟩ := isElementLoop_step h.tracks hs hasked hasked'
      · exact (hchoose a').step hs hkind hrest hrest' hclean hleft
      · refine absurd ?_ hleft.not_gt
        cases a with
        | true => exact foreachRest_lt_left h hlevel hstands hdue hrest hclean
        | false => exact forRest_lt_left h hlevel hstands hdue hrest hclean
  · intro s b t hs hkind hrun hclean
    obtain ⟨a, u, hasked, hrest⟩ := run_bind_eq_some.1 hrun
    obtain rfl := hleaves hs.fair hasked
    exact (hchoose a).finish hs hkind hrest hclean

theorem forStatement_seals (hlevel : B.coupling.Level m m') :
    Seals B wanted (forStatement inner m) (forStatement inner' m') := by
  have htaken : Mirrors B.coupling anywhere (takeIf .leftParen) (takeIf .leftParen) :=
    takeIf_common rfl
  refine (take_gated (B := B)).leads.bind fun _ => htaken.leads.bind fun taken => ?_
  cases taken with
  | true => exact forHeader_seals h hlevel
  | false => exact (missing_seals _).bind fun _ => .wrap hlevel rfl

/-! ## Switches, handlers and jumps -/

theorem switchStatement_seals (hlevel : B.coupling.Level m m') :
    Seals B wanted (switchStatement inner m) (switchStatement inner' m') := by
  refine (take_gated (B := B)).leads.bind fun _ =>
    (condition_mirrors h.tracks).leads.bind fun _ => ?_
  exact (requiredBlock_seals h _).bind fun _ => .wrap hlevel rfl

theorem catchSection_rests : Rests B (catchSection inner) (catchSection inner') := by
  refine .isAt_bind (by decide) (.marker_bind fun m m' hlevel => ?_) (.pure false)
  refine (take_gated (B := B)).leads.bind fun _ =>
    (caughtParameter_mirrors h.tracks).leads.bind fun _ => ?_
  exact (requiredBlock_seals h _).bind fun _ => (Rests.wrap hlevel rfl).bind fun _ => .pure true

theorem tryStatement_seals (hlevel : B.coupling.Level m m') :
    Seals B wanted (tryStatement inner m) (tryStatement inner' m') := by
  refine (take_gated (B := B)).leads.bind fun _ => ?_
  refine (whenTaken_tracks rfl (resources_mirrors h.tracks)).leads.bind fun _ => ?_
  refine (requiredBlock_seals h _).bind fun _ => (catchSection_rests h).loop.bind fun _ => ?_
  exact (Rests.whenTaken (by decide) (requiredBlock_seals h _)).bind fun _ => .wrap hlevel rfl

theorem synchronizedStatement_seals (hlevel : B.coupling.Level m m') :
    Seals B wanted (synchronizedStatement inner m) (synchronizedStatement inner' m') := by
  refine (take_gated (B := B)).leads.bind fun _ =>
    (condition_mirrors h.tracks).leads.bind fun _ => ?_
  exact (requiredBlock_seals h _).bind fun _ => .wrap hlevel rfl

theorem valueJump_seals (hlevel : B.coupling.Level m m') {kind : Kind}
    (hkind : kind.isConstruct = true) :
    Seals B wanted (valueJump inner m kind) (valueJump inner' m' kind) := by
  refine (take_gated (B := B)).leads.bind fun _ => ?_
  refine (whenAtAny_tracks (expression_mirrors h.tracks).discard).leads.bind fun _ => ?_
  exact (expect_seals rfl (by decide)).bind fun _ => .wrap hlevel hkind

omit h in
theorem labelJump_seals (hlevel : B.coupling.Level m m') {kind : Kind}
    (hkind : kind.isConstruct = true) :
    Seals B wanted (labelJump m kind) (labelJump m' kind) := by
  refine (take_gated (B := B)).leads.bind fun _ =>
    (takeIf_common rfl).discard.leads.bind fun _ => ?_
  exact (expect_seals rfl (by decide)).bind fun _ => .wrap hlevel hkind

theorem expressionStatement_seals (hlevel : B.coupling.Level m m') :
    Seals B wanted (expressionStatement inner m) (expressionStatement inner' m') := by
  refine (expression_mirrors h.tracks).discard.leads.bind fun _ => ?_
  exact (expect_seals rfl (by decide)).bind fun _ => .wrap hlevel rfl

/-! ## Declarations -/

theorem variableDeclaration_seals (hlevel : B.coupling.Level m m') :
    Seals B wanted (variableDeclaration inner m) (variableDeclaration inner' m') := by
  refine (orMissing_tracks _ (typeReference_stays h.tracks).lift).leads.bind fun _ => ?_
  refine (expect_common rfl).discard.leads.bind fun _ =>
    (variableRest_mirrors h.tracks).leads.bind fun _ => ?_
  refine (wrap_tracks hlevel rfl).leads.bind fun _ => ?_
  refine (loop_tracks (nextVariable_mirrors h.tracks)).leads.bind fun _ => ?_
  exact (expect_seals rfl (by decide)).bind fun _ => .wrap hlevel rfl

theorem classBody_seals (isEnum : Bool) :
    Seals B wanted (classBody inner isEnum) (classBody inner' isEnum) := by
  refine .isAt_bind ?_ (missing_seals _)
  refine (take_gated (B := B)).leads.bind fun _ =>
    (constantsOf_mirrors h.tracks isEnum).leads.bind fun _ => ?_
  have hitem : Sways B.coupling B.coupling.Never 0 always (discard (inner .member))
      (discard (inner' .member)) :=
    h.tracks.member.discard.sways
  have hitems : Mirrors B.coupling anywhere (loop (bracedItem (discard (inner .member))))
      (loop (bracedItem (discard (inner' .member)))) :=
    bracedItems_mirrors hitem ⟨fun _ _ => False.elim⟩ False.elim
  exact hitems.leads.bind fun _ => expect_seals rfl (by decide)

theorem classDeclaration_seals (hlevel : B.coupling.Level m m') :
    Seals B wanted (classDeclaration inner m) (classDeclaration inner' m') := by
  refine .read_bind (fun hs _ => by rw [Coupling.current_eq hs]) fun isEnum => ?_
  refine (take_gated (B := B)).leads.bind fun _ =>
    (expect_common rfl).discard.leads.bind fun _ => ?_
  refine (whenAt_tracks (typeArguments_stays h.tracks).lift.discard).leads.bind fun _ => ?_
  refine (typesBehind_stays h.tracks rfl).lift.leads.bind fun _ => ?_
  refine (typesBehind_stays h.tracks rfl).lift.leads.bind fun _ => ?_
  exact (classBody_seals h isEnum).bind fun _ => .wrap hlevel rfl

/-! ## Statements -/

theorem modifiedStatement_seals (hlevel : B.coupling.Level m m') :
    Seals B wanted (modifiedStatement inner m) (modifiedStatement inner' m') := by
  refine (modifiers_mirrors h.tracks).leads.bind fun _ => ?_
  exact .isAtAny_bind (classDeclaration_seals h hlevel) (variableDeclaration_seals h hlevel)

theorem plainStatement_seals (hlevel : B.coupling.Level m m') :
    Seals B (startsExpression · = true) (plainStatement inner m) (plainStatement inner' m') := by
  refine .ahead_bind (isVariableDeclaration_stays h.tracks)
    (isVariableDeclaration_reads_in_step h.tracks.agree).leaves fun declared => ?_
  cases declared with
  | true => exact variableDeclaration_seals h hlevel
  | false =>
    refine .isAtAny_bind (expressionStatement_seals h hlevel) (.of_not fun kind hkind => ?_)
    exact Bool.false_ne_true (hkind.2.symm.trans hkind.1)

theorem statement_seals :
    Seals B (startsStatement · = true) (statement inner) (statement inner') := by
  refine .marker_bind fun m m' hlevel => .current_bind fun kind hstarts => ?_
  split
  · exact (codeBlock_seals h).bind fun _ => .wrap hlevel rfl
  · exact ifStatement_seals h hlevel
  · exact whileStatement_seals h hlevel
  · exact doWhileStatement_seals h hlevel
  · exact forStatement_seals h hlevel
  · exact switchStatement_seals h hlevel
  · cases hstarts
  · cases hstarts
  · exact tryStatement_seals h hlevel
  · exact valueJump_seals h hlevel rfl
  · exact valueJump_seals h hlevel rfl
  · exact labelJump_seals hlevel rfl
  · exact labelJump_seals hlevel rfl
  · exact (take_seals (by rintro _ rfl; exact ⟨rfl, by decide⟩)).bind fun _ => .wrap hlevel rfl
  · exact classDeclaration_seals h hlevel
  · exact classDeclaration_seals h hlevel
  · exact classDeclaration_seals h hlevel
  · refine .read_bind (fun hs hkind => (B.coupling.next hs (by rw [hkind]; rfl)).1) fun next => ?_
    split_ifs
    · exact synchronizedStatement_seals h hlevel
    · exact modifiedStatement_seals h hlevel
  · exact modifiedStatement_seals h hlevel
  · exact modifiedStatement_seals h hlevel
  · have hexpression : startsExpression kind = true := by
      cases kind <;> first | rfl | contradiction
    exact (plainStatement_seals h hlevel).mono (by rintro _ rfl; exact hexpression)

end

/-- The grammar seals statements at whatever depth it is nested. -/
theorem parseTo_seals (B : Bracing) (depth depth' : Nat) :
    Inner.Seals B (parseTo depth) (parseTo depth') := by
  have htracks (depth depth' : Nat) := parseTo_tracks B.coupling.settles depth depth'
  induction depth generalizing depth' with
  | zero => exact ⟨htracks 0 depth', .of_failure_left⟩
  | succ depth ih =>
    refine ⟨htracks (depth + 1) depth', ?_⟩
    have hstatement (depth' : Nat) :
        Seals B (startsStatement · = true) (parseTo (depth + 1) .statement)
          (parseTo (depth' + 1) .statement) :=
      (statement_seals (ih depth')).bind fun _ => .pure true
    cases depth' with
    | zero => exact (hstatement 0).of_failure_right
    | succ depth' => exact hstatement depth'

end StatementCompletion.Grammar
