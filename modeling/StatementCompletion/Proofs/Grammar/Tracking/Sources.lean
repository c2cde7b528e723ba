import StatementCompletion.Proofs.Grammar.Tracking.Members

/-!
# Whole sources on both sides

A statement that begins at a keyword where the states are held is taken as a whole, which is what a
coupling provides; every other one goes the same way on both sides.
-/

namespace StatementCompletion.Grammar

variable {α β : Type} {C : Coupling} {fails doomed pre pre' : State → Prop} {wanted : Kind → Prop}
  {kind : Kind} {inner inner' : Inner} {m m' late : Nat}

/-! ## Statements -/

namespace Sways

variable {p p' : Parser α}

theorem marker_bind {g g' : Nat → Parser β} (hg : ∀ m m', C.Level m m' →
    Sways C doomed late (fun s => pre s ∧ m ≤ s.marker) (g m) (g' m')) :
    Sways C doomed late pre (marker >>= g) (marker >>= g') where
  grows {s b u} hs hbase hds hrun := by
    have hrun : (g s.marker).run s = some (b, u) := hrun
    obtain ⟨m', hlevel⟩ := Coupling.exists_level (hbase.trans s.solid_le_marker)
    exact (hg _ _ hlevel).grows hs hbase ⟨hds, le_rfl⟩ hrun
  step {s s' b u b' u'} hs hds hrun hrun' := by
    have hrun : (g s.marker).run s = some (b, u) := hrun
    have hrun' : (g' s'.marker).run s' = some (b', u') := hrun'
    exact (hg _ _ (Coupling.level hs)).step hs ⟨hds, le_rfl⟩ hrun hrun'

theorem current_bind {g g' : Kind → Parser β} (hg : ∀ kind,
    Sways C doomed late (fun s => pre s ∧ s.current = kind) (g kind) (g' kind)) :
    Sways C doomed late pre (current >>= g) (current >>= g') where
  grows {s b u} hs hbase hds hrun := by
    have hrun : (g s.current).run s = some (b, u) := hrun
    exact (hg _).grows hs hbase ⟨hds, rfl⟩ hrun
  step {s s' b u b' u'} hs hds hrun hrun' := by
    have hrun : (g s.current).run s = some (b, u) := hrun
    have hrun' : (g' s'.current).run s' = some (b', u') := hrun'
    rw [Coupling.current_eq hs] at hrun'
    exact (hg _).step hs ⟨hds, rfl⟩ hrun hrun'

theorem of_not (h : ∀ s, ¬ pre s) : Sways C doomed late pre p p' :=
  ⟨fun _ _ hds => absurd hds (h _), fun _ hds => absurd hds (h _)⟩

end Sways

theorem Tracks.swaysAt {p p' : Parser α} (h : Mirrors C wanted p p')
    (hpre : ∀ s, pre s → wanted s.current) :
    Sways C doomed late pre p p' :=
  ⟨fun hs hbase hds hrun => h.grows hs hbase (hpre _ hds) hrun,
    fun hs hds hrun hrun' => (h.step hs (hpre _ hds) hrun hrun').imp_right .inr⟩

section

variable (h : inner.Tracks C C.Doomed inner')

include h

theorem modifiedStatement_mirrors (hlevel : C.Level m m') :
    Mirrors C wanted (modifiedStatement inner m) (modifiedStatement inner' m') := by
  refine (modifiers_mirrors h).bind fun _ => ?_
  exact .isAtAny_ite (classDeclaration_mirrors h hlevel) (variableDeclaration_mirrors h hlevel)

theorem plainStatement_mirrors (hlevel : C.Level m m') :
    Mirrors C wanted (plainStatement inner m) (plainStatement inner' m') := by
  refine (isVariableDeclaration_stays h).lift.ite (variableDeclaration_mirrors h hlevel) ?_
  exact .isAtAny_ite (expressionStatement_mirrors h hlevel) takeUnexpected_mirrors

/-- A statement that begins at no keyword of those with a body. -/
theorem unguarded_sways : Sways C C.Doomed 0 (fun s => isGuardKeyword s.current = false)
    (statement inner) (statement inner') := by
  refine .marker_bind fun m m' hlevel => .current_bind fun kind => ?_
  have hguard {kind : Kind} (hkind : isGuardKeyword kind = true) (s : State) :
      ¬ ((isGuardKeyword s.current = false ∧ m ≤ s.marker) ∧ s.current = kind) := by
    rintro ⟨⟨hnot, -⟩, rfl⟩
    exact Bool.false_ne_true (hnot.symm.trans hkind)
  have hat {kind : Kind} {p p' : Parser Unit} (hp : Mirrors C (· = kind) p p') : Sways C C.Doomed 0
      (fun s => (isGuardKeyword s.current = false ∧ m ≤ s.marker) ∧ s.current = kind) p p' :=
    hp.swaysAt fun _ hs => hs.2
  have hcommon {kind : Kind} (hkind : isCommon kind = true) : ∀ k, k = kind →
      isCommon k = true := by
    rintro _ rfl
    exact hkind
  -- a case for each kind of token that tells a statement
  split
  · exact hat ((codeBlock_mirrors h).bind fun _ => wrap_tracks hlevel rfl)
  · exact .of_not (hguard rfl)
  · exact .of_not (hguard rfl)
  · exact (doWhileStatement_sways h hlevel).mono fun _ hs => ⟨hs.2, hs.1.2⟩
  · exact .of_not (hguard rfl)
  · exact hat (switchStatement_mirrors h hlevel)
  · exact hat (switchLabel_mirrors h (hcommon rfl) hlevel)
  · exact hat (switchLabel_mirrors h (hcommon rfl) hlevel)
  · exact hat (tryStatement_mirrors h hlevel)
  · exact hat (valueJump_mirrors h hlevel (hcommon rfl) rfl)
  · exact hat (valueJump_mirrors h hlevel (hcommon rfl) rfl)
  · exact hat (labelJump_mirrors hlevel (hcommon rfl) rfl)
  · exact hat (labelJump_mirrors hlevel (hcommon rfl) rfl)
  · exact hat ((take_closer rfl).bind fun _ => wrap_tracks hlevel rfl)
  · exact hat ((classDeclaration_mirrors h hlevel).mono (by rintro _ rfl; rfl))
  · exact hat ((classDeclaration_mirrors h hlevel).mono (by rintro _ rfl; rfl))
  · exact hat ((classDeclaration_mirrors h hlevel).mono (by rintro _ rfl; rfl))
  · refine hat (.read_bind (fun hs hkind => (C.next hs (by rw [hkind]; rfl)).1) fun next => ?_)
    split_ifs
    · exact synchronizedStatement_mirrors h hlevel
    · exact modifiedStatement_mirrors h hlevel
  · exact hat (modifiedStatement_mirrors h hlevel)
  · exact hat (modifiedStatement_mirrors h hlevel)
  · exact hat (plainStatement_mirrors h hlevel)

omit h in
theorem run_statement_of_guard {s : State} (hkind : isGuardKeyword s.current = true) :
    (statement inner).run s = (do take; behindGuard inner s.marker s.current).run s := by
  have hrun {g : Nat → Kind → Parser Unit}
      (hg : g s.marker s.current = (do take; behindGuard inner s.marker s.current)) :
      (do let opening ← marker; g opening (← current) : Parser Unit).run s
        = (do take; behindGuard inner s.marker s.current).run s := by
    rw [← hg]
    rfl
  refine hrun ?_
  cases hcurrent : s.current <;> first | rfl | (rw [hcurrent] at hkind; cases hkind)

theorem statement_grows (hC : C.Settles) {s t : State} {a : Unit} (hs : s.Fair)
    (hbase : C.base ≤ s.solid)
    (hrun : (statement inner).run s = some (a, t)) : t.Fair ∧ Grows C.base s t := by
  cases hkind : isGuardKeyword s.current with
  | false => exact (unguarded_sways h).grows hs hbase hkind hrun
  | true =>
    rw [run_statement_of_guard hkind] at hrun
    obtain ⟨m', hlevel⟩ := Coupling.exists_level (hbase.trans s.solid_le_marker)
    have hrun : (behindGuard inner s.marker s.current).run (s.take Token.node) = some (a, t) := hrun
    have htake : Grows C.base s (s.take Token.node) := Grows.refl.take (.inl rfl)
    have hsome := State.isSome_of_isGuardKeyword hkind
    obtain ⟨ht, hst⟩ := (behindGuard_sways h hC hlevel hkind).grows (hs.take (.inl rfl))
      (htake.floor_le_solid hbase) (State.lt_marker_take hsome le_rfl) hrun
    exact ⟨ht, htake.trans hst⟩

theorem statement_sways (hC : C.Settles) :
    Sways C C.Doomed 0 always (statement inner) (statement inner') where
  grows hs hbase _ hrun := statement_grows h hC hs hbase hrun
  step {s s' a t a' t'} hs _ hrun hrun' := by
    cases hkind : isGuardKeyword s.current with
    | false => exact (unguarded_sways h).step hs hkind hrun hrun'
    | true =>
      by_cases hheld : C.Held s
      · obtain ⟨depth, rfl⟩ := h.nested
        obtain ⟨depth', rfl⟩ := h.nested'
        rcases C.statement hs hheld hrun hrun' with hgone | hrel
        · exact .inl hgone
        · exact .inr (.inr ⟨rfl, hrel⟩)
      · rw [run_statement_of_guard hkind] at hrun
        rw [run_statement_of_guard (by rwa [Coupling.current_eq hs]),
          Coupling.current_eq hs] at hrun'
        have hguarded : Sways C C.Doomed 0 (fun u => u = s)
            (do take; behindGuard inner s.marker s.current)
            (do take; behindGuard inner' s'.marker s.current) := by
          refine .take_bind (s.marker < ·.marker) ?_ ?_ (behindGuard_sways h hC
            (Coupling.level hs) hkind)
          · rintro _ rfl
            exact ⟨hheld, isCloser_of_isGuardKeyword hkind, State.isSome_of_isGuardKeyword hkind⟩
          · rintro _ rfl
            exact State.lt_marker_take (State.isSome_of_isGuardKeyword hkind) le_rfl
        exact hguarded.step hs rfl hrun hrun'

omit h in
theorem modifier_of_synchronized {s : State} (hkind : s.current = .synchronizedKeyword) :
    (modifier inner).run s = some (true, s.take Token.node) := by
  have hcurrent {g : Kind → Parser Bool} : (current >>= g).run s = (g s.current).run s := rfl
  unfold modifier
  rw [hcurrent]
  rw [hkind]
  rfl

omit h in
/-- A keyword `synchronized` that begins a statement is taken in as a modifier would be. -/
theorem Coupling.Doomed.gone_take (hC : C.Settles) {s : State} (hs : s.Fair)
    (hbase : C.base ≤ s.solid) (hdoomed : C.Doomed s) (hkind : s.current = .synchronizedKeyword)
    (hnext : s.next.current = .leftParen) : C.Gone (s.take Token.node) := by
  have hbehind : startsModifier (s.take Token.node).current = false := by
    rw [State.current_take (State.isSome_of_current (by rw [hkind]; decide)), hnext]
    rfl
  have hloop : (loopWithin 2 (modifier (parseTo 0))).run s = some ((), s.take Token.node) :=
    run_bind_eq_some.2 ⟨true, _, modifier_of_synchronized hkind,
      run_bind_eq_some.2 ⟨false, _, modifier_of_not hbehind, rfl⟩⟩
  exact (hC 0 2).gone hs hbase hdoomed hloop

theorem modifiedStatement_dooms (hC : C.Settles) (hlevel : C.Level m m') :
    Dooms C C.Doomed (modifiedStatement inner m) :=
  (modifiers_dooms h hC).bind (modifiers_mirrors h) fun _ =>
    .isAtAny_ite (classDeclaration_mirrors h hlevel) (variableDeclaration_mirrors h hlevel)

theorem statement_dooms (hC : C.Settles) : Dooms C C.Doomed (statement inner) := by
  refine ⟨fun {s a t} hs hbase hdoomed hrun => ?_⟩
  obtain ⟨m', hlevel⟩ := Coupling.exists_level (hbase.trans s.solid_le_marker)
  have hmodified (hrun : (modifiedStatement inner s.marker).run s = some (a, t)) : C.Gone t :=
    (modifiedStatement_dooms h hC hlevel).gone hs hbase hdoomed hrun
  have hstarts := hdoomed.starts
  obtain ⟨_, _, hmarker, hrun⟩ := run_bind_eq_some.1 hrun
  obtain ⟨rfl, rfl⟩ := Prod.mk.inj (Option.some.inj hmarker)
  obtain ⟨kind, _, hcurrent, hrun⟩ := run_bind_eq_some.1 hrun
  obtain ⟨rfl, rfl⟩ := Prod.mk.inj (Option.some.inj hcurrent)
  cases hkind : s.current <;> rw [hkind] at hstarts hrun <;> first
    | (cases hstarts; done)
    | exact hmodified hrun
    | skip
  obtain ⟨_, _, hpeek, hrun⟩ := run_bind_eq_some.1 hrun
  obtain ⟨rfl, rfl⟩ := Prod.mk.inj (Option.some.inj hpeek)
  split at hrun
  · next hnext =>
    have hgone := hdoomed.gone_take hC hs hbase hkind hnext
    have hrest : Mirrors C anywhere
        (do condition inner; requiredBlock inner (.construct .leftBrace)
            wrap s.marker .synchronizedStatement)
        (do condition inner'; requiredBlock inner' (.construct .leftBrace)
            wrap m' .synchronizedStatement) :=
      (condition_mirrors h).bind fun _ => (requiredBlock_mirrors h _).bind fun _ =>
        wrap_tracks hlevel rfl
    have htake : Grows C.base s (s.take Token.node) := Grows.refl.take (.inl rfl)
    have hfair : (s.take Token.node).Fair := hs.take (.inl rfl)
    exact hgone.grows hfair (hrest.grows hfair (htake.floor_le_solid hbase) trivial hrun).2
  · exact hmodified hrun

/-! ## Nesting -/

omit h in
theorem Tracks.present {p p' : Parser Unit} [C.Lasts fails] (hp : Tracks C fails wanted p p') :
    Tracks C fails wanted (present p) (present p') :=
  hp.bind fun _ => .pure true

omit h in
theorem Dooms.present {p : Parser Unit} (hp : Dooms C doomed p) : Dooms C doomed (present p) := by
  refine ⟨fun hs hbase hdoomed hrun => ?_⟩
  obtain ⟨_, u, hpu, hanswer⟩ := run_bind_eq_some.1 hrun
  obtain ⟨-, rfl⟩ := run_pure_eq_some.1 hanswer
  exact hp.gone hs hbase hdoomed hpu

theorem rule_tracks (hC : C.Settles) (hnested : ∃ depth, rule inner = parseTo depth)
    (hnested' : ∃ depth, rule inner' = parseTo depth) :
    Inner.Tracks C C.Doomed (rule inner) (rule inner') where
  agree := rule_agree h.agree
  agree' := rule_agree h.agree'
  nested := hnested
  nested' := hnested'
  typeReference := typeReference_stays h
  expression := expression_mirrors h
  conditional := conditional_mirrors h
  operation := operation_mirrors h _
  unary := unary_mirrors h
  arrayInitializer := (arrayInitializer_mirrors h).present
  statement := (statement_sways h hC).bind (fun _ => (Tracks.pure true).sways) fun _ => .pure true
  dooms := (statement_dooms h hC).present
  member := (member_mirrors h).present

end

theorem Sways.of_failure_left {p' : Parser α} : Sways C doomed late pre (failure : Parser α) p' :=
  ⟨fun _ _ _ hrun => (Option.some_ne_none _ hrun.symm).elim,
    fun _ _ hrun => (Option.some_ne_none _ hrun.symm).elim⟩

theorem Sways.of_failure_right {p p' : Parser α} (hp : Sways C doomed late pre p p') :
    Sways C doomed late pre p (failure : Parser α) :=
  ⟨hp.grows, fun _ _ _ hrun' => (Option.some_ne_none _ hrun'.symm).elim⟩

/-- The grammar nested to one depth goes with the grammar nested to another. -/
theorem parseTo_tracks (hC : C.Settles) (depth depth' : Nat) :
    Inner.Tracks C C.Doomed (parseTo depth) (parseTo depth') := by
  induction depth generalizing depth' with
  | zero =>
    exact ⟨parseTo_agree 0 0, parseTo_agree depth' depth', ⟨0, rfl⟩, ⟨depth', rfl⟩,
      .of_failure_left, .of_failure_left, .of_failure_left, .of_failure_left, .of_failure_left,
      .of_failure_left, .of_failure_left,
      ⟨fun _ _ _ hrun => (Option.some_ne_none _ hrun.symm).elim⟩, .of_failure_left⟩
  | succ depth ih =>
    cases depth' with
    | zero =>
      have h := rule_tracks (ih 0) hC ⟨depth + 1, rfl⟩ ⟨1, rfl⟩
      exact ⟨h.agree, parseTo_agree 0 0, h.nested, ⟨0, rfl⟩, h.typeReference.of_failure_right,
        h.expression.of_failure_right, h.conditional.of_failure_right, h.operation.of_failure_right,
        h.unary.of_failure_right, h.arrayInitializer.of_failure_right, h.statement.of_failure_right,
        h.dooms, h.member.of_failure_right⟩
    | succ depth' => exact rule_tracks (ih depth') hC ⟨depth + 1, rfl⟩ ⟨depth' + 1, rfl⟩

/-! ## Sources -/

theorem clauseStep_stays : Stays C wanted clauseStep clauseStep := by
  refine (takeIf_common rfl).ite ?_ (.pure false)
  have htaken {kind : Kind} (hkind : isCommon kind = true) :
      Stays C (· = kind) (do take; return true) (do take; return true) :=
    (take_common hkind).bind fun _ => .pure true
  exact .isAtEither_ite (htaken rfl) (htaken rfl) ((missing_tracks _).bind fun _ => .pure false)

theorem clauseName_stays : Stays C wanted clauseName clauseName :=
  (expect_common rfl).ite (loop_tracks clauseStep_stays) (.pure ())

theorem clause_mirrors (hwanted : ∀ kind, wanted kind → isCommon kind = true) {kind : Kind}
    (hkind : kind.isConstruct = true) : Mirrors C wanted (clause kind) (clause kind) := by
  refine .marker_bind fun m m' hlevel => (take_tracks hwanted).bind fun _ => ?_
  refine (takeIf_common rfl).discard.bind fun _ => clauseName_stays.lift.bind fun _ => ?_
  exact (expect_closer rfl).discard.bind fun _ => wrap_tracks hlevel hkind

theorem unitItem_mirrors (h : inner.Tracks C C.Doomed inner') :
    Mirrors C wanted (unitItem inner) (unitItem inner') := by
  have hcommon {kind : Kind} (hkind : isCommon kind = true) : ∀ k, k = kind →
      isCommon k = true := by
    rintro _ rfl
    exact hkind
  refine .current_bind fun kind _ => ?_
  split
  · exact clause_mirrors (hcommon rfl) rfl
  · exact clause_mirrors (hcommon rfl) rfl
  · exact take_closer rfl
  · exact takeUnexpected_mirrors
  · exact member_mirrors h

theorem run_fragmentItem (s : State) : (fragmentItem inner).run s
    = if decide (s.current = .rightBrace) then takeUnexpected.run s else (statement inner).run s :=
  apply_ite (StateT.run · s) _ _ _

theorem fragmentItem_sways (h : inner.Tracks C C.Doomed inner') (hC : C.Settles) :
    Sways C C.Doomed 0 always (fragmentItem inner) (fragmentItem inner') :=
  .cases (fun kind => decide (kind = .rightBrace)) run_fragmentItem run_fragmentItem
    (Tracks.sways takeUnexpected_mirrors) ((statement_sways h hC).mono fun _ _ => trivial)

theorem fragmentItem_dooms (h : inner.Tracks C C.Doomed inner') (hC : C.Settles) :
    Dooms C C.Doomed (fragmentItem inner) := by
  refine ⟨fun hs hbase hdoomed hrun => ?_⟩
  rw [run_fragmentItem, decide_eq_false (hdoomed.current_ne rfl), if_neg Bool.false_ne_true] at hrun
  exact (statement_dooms h hC).gone hs hbase hdoomed hrun

/-- Items of a source on both sides. -/
theorem source_mirrors (h : inner.Tracks C C.Doomed inner') (hC : C.Settles) (kind : SourceKind) :
    Mirrors C wanted (source inner kind) (source inner' kind) := by
  cases kind with
  | compilationUnit =>
    have hsways : Sways C C.Never 0 always (unitItem inner) (unitItem inner') :=
      (unitItem_mirrors h).sways
    exact itemsUpToEnd_mirrors hsways ⟨fun _ _ => False.elim⟩ False.elim
  | codeFragment =>
    refine itemsUpToEnd_mirrors (fragmentItem_sways h hC) (fragmentItem_dooms h hC) fun hs => ?_
    exact hs.not_is fun kind hkind => by cases kind <;> first | rfl | cases hkind

/-- **The runs of a grammar on two sources lead from a pair of states to a pair of states.** -/
theorem Pairing.rel_of_run (P : Pairing) (kind : SourceKind) {depth depth' : Nat}
    {s s' t t' : State} {a a' : Unit}
    (h : P.Rel s s') (hrun : (source (parseTo depth) kind).run s = some (a, t))
    (hrun' : (source (parseTo depth') kind).run s' = some (a', t')) : P.Rel t t' := by
  have hmirrors : Mirrors P.coupling anywhere (source (parseTo depth) kind)
      (source (parseTo depth') kind) :=
    source_mirrors (parseTo_tracks P.settles depth depth') P.settles kind
  exact ((hmirrors.step h trivial hrun hrun').resolve_left id).2

end StatementCompletion.Grammar
