import StatementCompletion.Proofs.Grammar.Guarded
import StatementCompletion.Proofs.Grammar.Tracking.Expressions

/-!
# The rules for statements on both sides

The header of a loop over elements is told by reading ahead, over modifiers with arguments of any
length.  So the first run may be gone while it reads ahead and yet go back.  It has not gone on for
good: where it does not read these modifiers next, it leaves them to the block around the loop, and
a block reads nothing else at modifiers.  Until then its state is doomed.
-/

namespace StatementCompletion.Grammar

variable {α β : Type} {C : Coupling} {fails pre : State → Prop} {wanted : Kind → Prop}
  {kind : Kind} {inner inner' : Inner} {m m' late : Nat}

/-- A token that is taken in stands in front of every marker that is set behind it. -/
theorem State.lt_marker_take {s : State} {node : Token → Node} (hsome : s.token?.isSome)
    (hm : m ≤ s.marker) : m < (s.take node).marker :=
  (Nat.lt_succ_of_le hm).trans_le ((solid_take hsome node).symm.trans_le (solid_le_marker _))

/-! ## Doomed states -/

/-- `t` comes from `s` by marks and branches above a base, without a token. -/
inductive Idles (base : Nat) (s : State) : State → Prop where
  | refl : Idles base s s
  | missing {t : State} (wanted : Wanted) : Idles base s t → Idles base s (t.markMissing wanted)
  | wrap {t : State} {marker : Nat} (kind : Kind) : Idles base s t → base ≤ marker →
      Idles base s (t.wrap marker kind)

theorem Idles.token {base : Nat} {s t : State} (h : Idles base s t) :
    t.token? = s.token? ∧ t.unread = s.unread := by
  induction h with
  | refl => exact ⟨rfl, rfl⟩
  | @missing t wanted _ ih =>
    rcases t.markMissing_eq wanted with heq | heq <;> rw [heq] <;> exact ih
  | wrap _ _ _ ih => exact ih

theorem Idles.current_eq {base : Nat} {s t : State} (h : Idles base s t) :
    t.current = s.current := by
  rw [State.current, State.current, h.token.1]

namespace Coupling

/-- The first run is gone once the modifiers that begin here are read. -/
def Due (C : Coupling) (s : State) : Prop :=
  startsModifier s.current = true ∧ ∃ depth n w,
    (loopWithin n (modifier (parseTo depth))).run s = some ((), w) ∧ C.Gone w

/-- The same, where marks and branches may have been made since. -/
def Doomed (C : Coupling) (t : State) : Prop :=
  ∃ s, s.Fair ∧ C.base ≤ s.solid ∧ C.Due s ∧ Idles C.base s t

/-- Whatever reads the modifiers of a doomed state, the first run is gone by them. -/
def Settles (C : Coupling) : Prop :=
  ∀ depth n, Dooms C C.Doomed (loopWithin n (modifier (parseTo depth)))

variable {s t : State}

theorem Due.doomed (h : C.Due s) (hs : s.Fair) (hbase : C.base ≤ s.solid) : C.Doomed s :=
  ⟨s, hs, hbase, h, .refl⟩

theorem Doomed.starts (h : C.Doomed t) : startsModifier t.current = true := by
  obtain ⟨s, -, -, ⟨hstarts, -⟩, hidles⟩ := h
  rwa [hidles.current_eq]

theorem Doomed.markMissing (h : C.Doomed t) (wanted : Wanted) :
    C.Doomed (t.markMissing wanted) := by
  obtain ⟨s, hs, hbase, hdue, hidles⟩ := h
  exact ⟨s, hs, hbase, hdue, hidles.missing wanted⟩

theorem Doomed.wrap (h : C.Doomed t) (hm : C.base ≤ m) (kind : Kind) :
    C.Doomed (t.wrap m kind) := by
  obtain ⟨s, hs, hbase, hdue, hidles⟩ := h
  exact ⟨s, hs, hbase, hdue, hidles.wrap kind hm⟩

end Coupling

/-- Where no run fails, no state is doomed. -/
theorem Pairing.settles (P : Pairing) : P.coupling.Settles := by
  rintro depth n
  exact ⟨fun _ _ ⟨_, _, _, ⟨_, _, _, _, _, hgone⟩, _⟩ _ => hgone.elim⟩

section

variable (h : inner.Tracks C C.Doomed inner')

include h

/-! ## Modifiers and variables -/

theorem modifier_mirrors : Mirrors C wanted (modifier inner) (modifier inner') := by
  have htaken {kind : Kind} (hkind : isCommon kind = true) :
      Mirrors C (· = kind) (do take; return true) (do take; return true) :=
    (take_common hkind).bind fun _ => .pure true
  refine .current_bind fun kind _ => ?_
  split
  · exact htaken rfl
  · exact htaken rfl
  · refine (take_common rfl).bind fun _ => (expect_common rfl).discard.bind fun _ => ?_
    refine (loop_tracks dottedName_stays.lift).bind fun _ => ?_
    exact (whenAt_tracks (argumentList_mirrors h)).bind fun _ => .pure true
  · exact .pure false

theorem modifiers_mirrors : Mirrors C wanted (modifiers inner) (modifiers inner') := by
  refine .marker_bind fun m m' hlevel => (loop_tracks (modifier_mirrors h)).bind fun _ => ?_
  exact .built_ite hlevel (wrap_tracks hlevel rfl) (.pure ())

theorem initialValue_mirrors : Mirrors C wanted (initialValue inner) (initialValue inner') :=
  .isAt_ite (arrayInitializer_mirrors h) (orMissing_tracks _ (expression_mirrors h))

theorem variableRest_mirrors : Mirrors C wanted (variableRest inner) (variableRest inner') :=
  (loop_tracks dimension_stays.lift).bind fun _ => whenTaken_tracks rfl (initialValue_mirrors h)

theorem nextVariable_mirrors : Mirrors C wanted (nextVariable inner) (nextVariable inner') := by
  refine (takeIf_common rfl).ite (.marker_bind fun m m' hlevel => ?_) (.pure false)
  refine (expect_common rfl).discard.bind fun _ => (variableRest_mirrors h).bind fun _ => ?_
  exact (wrap_tracks hlevel rfl).bind fun _ => .pure true

theorem variableDeclaration_mirrors (hlevel : C.Level m m') :
    Mirrors C wanted (variableDeclaration inner m) (variableDeclaration inner' m') := by
  refine (orMissing_tracks _ (typeReference_stays h).lift).bind fun _ => ?_
  refine (expect_common rfl).discard.bind fun _ => (variableRest_mirrors h).bind fun _ => ?_
  refine (wrap_tracks hlevel rfl).bind fun _ =>
    (loop_tracks (nextVariable_mirrors h)).bind fun _ => ?_
  exact (expect_closer rfl).discard.bind fun _ => wrap_tracks hlevel rfl

theorem alternativeType_mirrors :
    Mirrors C wanted (alternativeType inner) (alternativeType inner') := by
  refine (takeIf_common rfl).ite ?_ (.pure false)
  exact (typeReference_stays h).lift.discard.bind fun _ => .pure true

theorem parameterRest_mirrors : Mirrors C wanted (parameterRest inner) (parameterRest inner') := by
  refine (typeReference_stays h).lift.ite ?_ (missing_tracks _)
  refine (loop_tracks (alternativeType_mirrors h)).bind fun _ => ?_
  refine (loop_tracks (takeIf_common rfl)).bind fun _ =>
    (expect_common rfl).discard.bind fun _ => ?_
  exact loop_tracks dimension_stays.lift

theorem parameter_mirrors : Mirrors C wanted (parameter inner) (parameter inner') := by
  refine .isAtAny_ite (.marker_bind fun m m' hlevel => ?_) (.pure false)
  refine (modifiers_mirrors h).bind fun _ => (parameterRest_mirrors h).bind fun _ => ?_
  exact (wrap_tracks hlevel rfl).bind fun _ => .pure true

/-! ## Blocks and bodies -/

omit h in
theorem Coupling.Doomed.goesOn {s : State} (hs : C.Doomed s) : stopsBraced s.current = false := by
  have hstarts := hs.starts
  cases hkind : s.current <;> first | rfl | (rw [hkind] at hstarts; cases hstarts)

theorem codeBlock_mirrors : Mirrors C (· = .leftBrace) (codeBlock inner) (codeBlock inner') := by
  refine .marker_bind fun m m' hlevel => (take_common rfl).bind fun _ => ?_
  refine (itemsUpToBrace_mirrors h.statement.discard h.dooms.discard ?_).bind fun _ => ?_
  · exact Coupling.Doomed.goesOn
  · exact wrap_tracks hlevel rfl

theorem requiredBlock_mirrors (missed : Wanted) :
    Mirrors C wanted (requiredBlock inner missed) (requiredBlock inner' missed) :=
  .isAt_ite (codeBlock_mirrors h) (missing_tracks missed)

theorem body_sways : Sways C C.Doomed 0 pre (body inner) (body inner') :=
  .cases startsStatement (fun _ => apply_ite (StateT.run · _) _ _ _)
    (fun _ => apply_ite (StateT.run · _) _ _ _)
    (h.statement.discard.mono fun _ _ => trivial) (missing_tracks .statement).sways

theorem body_bears : Bears C C.Doomed (body inner) where
  grows hs hbase hrun := by
    have hsways : Sways C C.Doomed 0 always (body inner) (body inner') := body_sways h
    exact hsways.grows hs hbase trivial hrun
  step {s a t} hs hbase hds hrun := by
    have hrun : (if startsStatement s.current then discard (inner .statement)
      else missing .statement).run s = some (a, t) := hrun
    split at hrun
    · exact .inl (h.dooms.discard.gone hs hbase hds hrun)
    · obtain ⟨-, rfl⟩ := Prod.mk.inj (Option.some.inj hrun)
      exact .inr (hds.markMissing _)

theorem condition_mirrors : Mirrors C wanted (condition inner) (condition inner') := by
  refine (takeIf_common rfl).ite ?_ ?_
  · refine (orMissing_tracks _ (expression_mirrors h)).bind fun _ => ?_
    exact (expect_closer rfl).discard
  · refine (missing_tracks _).bind fun _ =>
      .read_bind (fun hs _ => C.onNewLine hs) fun onNewLine => ?_
    refine .isAtAny_bind ?_ ?_
    all_goals
      split
      · exact (expression_mirrors h).discard
      · exact .pure ()

end

/-! ## What a doomed state goes through -/

theorem Coupling.Doomed.not_is {t : State} {is : Kind → Bool} (ht : C.Doomed t)
    (his : ∀ kind, startsModifier kind = true → is kind = false) : is t.current = false :=
  his _ ht.starts

theorem Coupling.Doomed.current_ne {t : State} (ht : C.Doomed t)
    (hkind : startsModifier kind = false) : t.current ≠ kind := by
  rintro rfl
  exact Bool.false_ne_true (hkind.symm.trans ht.starts)

theorem startsModifier_cases {is : Kind → Bool} (hmodifier : is .modifier = false)
    (hsynchronized : is .synchronizedKeyword = false) (hat : is .atSign = false) (kind : Kind)
    (h : startsModifier kind = true) : is kind = false := by
  cases kind <;> first | assumption | cases h

theorem Sways.bears {p p' : Parser α} (h : Sways C C.Doomed late always p p')
    (hstep : ∀ {s a t}, s.Fair → C.base ≤ s.solid → C.Doomed s → p.run s = some (a, t) →
      C.Gone t ∨ C.Doomed t) : Bears C C.Doomed p :=
  ⟨fun hs hbase hrun => h.grows hs hbase trivial hrun, hstep⟩

theorem Tracks.bears {p p' : Parser α} (h : Mirrors C anywhere p p')
    (hstep : ∀ {s a t}, s.Fair → C.base ≤ s.solid → C.Doomed s → p.run s = some (a, t) →
      C.Gone t ∨ C.Doomed t) : Bears C C.Doomed p :=
  ⟨fun hs hbase hrun => h.grows hs hbase trivial hrun, hstep⟩

namespace Bears

theorem missing (missed : Wanted) : Bears C C.Doomed (missing missed) := by
  refine (missing_tracks missed).bears fun _ _ hdoomed hrun => .inr ?_
  obtain ⟨-, rfl⟩ := Prod.mk.inj (Option.some.inj hrun)
  exact hdoomed.markMissing missed

theorem wrap (hlevel : C.Level m m') {kind : Kind} (hkind : kind.isConstruct = true) :
    Bears C C.Doomed (wrap m kind) := by
  refine (wrap_tracks hlevel hkind).bears fun _ _ hdoomed hrun => .inr ?_
  obtain ⟨-, rfl⟩ := Prod.mk.inj (Option.some.inj hrun)
  exact hdoomed.wrap hlevel.base_le kind

/-- What goes by a question about tokens that begin no modifier. -/
theorem isAtAny_bind {is : Kind → Bool} {g g' : Bool → Parser β}
    (his : ∀ kind, startsModifier kind = true → is kind = false)
    (hgrows : Sways C C.Doomed 1 always (isAtAny is >>= g) (isAtAny is >>= g'))
    (hfalse : Bears C C.Doomed (g false)) : Bears C C.Doomed (isAtAny is >>= g) := by
  refine hgrows.bears fun {s a t} hs hbase hdoomed hrun => ?_
  have hrun : (g (is s.current)).run s = some (a, t) := hrun
  rw [hdoomed.not_is his] at hrun
  exact hfalse.step hs hbase hdoomed hrun

theorem whenTaken {p p' : Parser Unit} (hkind : startsModifier kind = false)
    (hgrows : Sways C C.Doomed 1 always (whenTaken kind p) (whenTaken kind p')) :
    Bears C C.Doomed (whenTaken kind p) := by
  refine hgrows.bears fun _ _ hdoomed hrun => .inr ?_
  rw [run_whenTaken_of_ne (hdoomed.current_ne hkind)] at hrun
  obtain ⟨-, rfl⟩ := Prod.mk.inj (Option.some.inj hrun)
  exact hdoomed

theorem expect (hkind : startsModifier kind = false) (hguard : isGuardKeyword kind = false) :
    Bears C C.Doomed (discard (expect kind)) := by
  have hmirrors : Mirrors C anywhere (discard (Grammar.expect kind))
      (discard (Grammar.expect kind)) :=
    (expect_closer hguard).discard
  refine hmirrors.bears fun {s a t} hs hbase hdoomed hrun => ?_
  obtain ⟨b, hrun⟩ := run_discard_eq_some.1 hrun
  have hrun : (if decide (s.current = kind) then (do take; return true)
    else (do Grammar.missing (.construct kind); return false) :
    Parser Bool).run s = some (b, t) := hrun
  rw [decide_eq_false (hdoomed.current_ne hkind), if_neg Bool.false_ne_true] at hrun
  exact ((missing _).bind fun _ => pure false).step hs hbase hdoomed hrun

end Bears

theorem startsExpression_of_startsModifier (kind : Kind) (h : startsModifier kind = true) :
    startsExpression kind = false :=
  startsModifier_cases rfl rfl rfl kind h

theorem startsType_of_startsModifier (kind : Kind) (h : startsModifier kind = true) :
    startsType kind = false :=
  startsModifier_cases rfl rfl rfl kind h

section

variable (h : inner.Tracks C C.Doomed inner') (hC : C.Settles)

include h

theorem orMissing_expression_bears (missed : Wanted) :
    Bears C C.Doomed (orMissing (expression inner) missed) := by
  have hmirrors : Mirrors C anywhere (orMissing (expression inner) missed)
      (orMissing (expression inner') missed) := orMissing_tracks _ (expression_mirrors h)
  refine hmirrors.bears fun hs hbase hdoomed hrun => ?_
  obtain ⟨a, t, hexpression, hmissing⟩ := run_bind_eq_some.1 hrun
  obtain ⟨rfl, rfl⟩ := (expression_phrases h.agree).phrase.no
    (hdoomed.not_is startsExpression_of_startsModifier) hexpression
  exact (Bears.missing missed).step hs hbase hdoomed hmissing

theorem expression_bears :
    Bears C C.Doomed (whenAtAny startsExpression (discard (expression inner))) := by
  have hmirrors : Mirrors C anywhere (whenAtAny startsExpression (discard (expression inner)))
      (whenAtAny startsExpression (discard (expression inner'))) :=
    whenAtAny_tracks (expression_mirrors h).discard
  exact .isAtAny_bind startsExpression_of_startsModifier hmirrors.sways (.pure ())

theorem modifiers_dooms (hC : C.Settles) : Dooms C C.Doomed (modifiers inner) := by
  obtain ⟨depth, rfl⟩ := h.nested
  refine ⟨fun {s a t} hs hbase hdoomed hrun => ?_⟩
  obtain ⟨m', hlevel⟩ := Coupling.exists_level (hbase.trans s.solid_le_marker)
  have hwrap : Mirrors C anywhere (do if (← marker) ≠ s.marker then wrap s.marker .modifierList)
      (do if (← marker) ≠ m' then wrap m' .modifierList) :=
    .built_ite hlevel (wrap_tracks hlevel rfl) (.pure ())
  have hloop : Mirrors C anywhere (loop (modifier (parseTo depth))) (loop (modifier inner')) :=
    loop_tracks (modifier_mirrors h)
  have hdooms : Dooms C C.Doomed (loop (modifier (parseTo depth))) :=
    ⟨fun hs hbase hdoomed hrun => (hC depth _).gone hs hbase hdoomed hrun⟩
  exact (hdooms.bind hloop fun _ => hwrap).gone hs hbase hdoomed hrun

/-! ## Branches and loops -/

theorem elseBranch_sways : Sways C C.Doomed late pre (whenTaken .elseKeyword (body inner))
    (whenTaken .elseKeyword (body inner')) := by
  have htaken : Mirrors C anywhere (takeIf .elseKeyword) (takeIf .elseKeyword) := takeIf_common rfl
  refine htaken.bindSways fun taken => ?_
  cases taken with
  | true => exact (body_sways h).relax
  | false => exact (Tracks.pure ()).sways

/-- The body of a statement, and making the statement. -/
theorem bodyWrap_sways (hlevel : C.Level m m') {kind : Kind} (hkind : kind.isConstruct = true) :
    Sways C C.Doomed late pre (do body inner; wrap m kind) (do body inner'; wrap m' kind) :=
  (body_sways h).relax.bind (fun _ => (wrap_tracks hlevel hkind).sways) fun _ => .wrap hlevel hkind

theorem bodyWrap_bears (hlevel : C.Level m m') {kind : Kind} (hkind : kind.isConstruct = true) :
    Bears C C.Doomed (do body inner; wrap m kind) :=
  (body_bears h).bind fun _ => .wrap hlevel hkind

/-- What comes behind the keyword of a statement with a body. -/
def behindGuard (inner : Inner) (opening : Nat) : Kind → Parser Unit
  | .ifKeyword => do
    condition inner
    body inner
    whenTaken .elseKeyword (body inner)
    wrap opening .ifStatement
  | .whileKeyword => do
    condition inner
    body inner
    wrap opening .whileStatement
  | .forKeyword => do
    if ← takeIf .leftParen then
      if ← isElementLoop inner then
        foreachRest inner opening
      else
        forRest inner opening
    else
      missing (.construct .leftParen)
      wrap opening .forStatement
  | _ => pure ()

theorem behindIf_sways (hlevel : C.Level m m') : Sways C C.Doomed 1 pre
    (behindGuard inner m .ifKeyword) (behindGuard inner' m' .ifKeyword) := by
  refine (condition_mirrors h).bindSways fun _ =>
    (body_sways h).relax.bind (fun _ => ?_) fun _ => ?_
  · exact (elseBranch_sways h).bind (fun _ => (wrap_tracks hlevel rfl).sways) fun _ =>
      .wrap hlevel rfl
  · exact (Bears.whenTaken rfl (elseBranch_sways h)).bind fun _ => .wrap hlevel rfl

theorem behindWhile_sways (hlevel : C.Level m m') : Sways C C.Doomed 1 pre
    (behindGuard inner m .whileKeyword) (behindGuard inner' m' .whileKeyword) :=
  (condition_mirrors h).bindSways fun _ => bodyWrap_sways h hlevel rfl

omit h in
theorem InStep.evolves {p : Parser α} {f : Nat} {s t : State} {a : α}
    (hp : AgreesAt wanted .any f f p p) (hs : s.Fair) (hkind : wanted s.current)
    (hfloor : f ≤ s.marker) (hrun : p.run s = some (a, t)) : Evolves f s t :=
  (hp s s hs.alike hkind ⟨⟨hfloor, hfloor, rfl⟩, trivial⟩ a t a t hrun hrun).2.evolves

omit h in
theorem take_bind_grows {q q' : Parser α} (hq : Sways C C.Doomed 1 always q q') {s t : State}
    {a : α} (hs : s.Fair) (hbase : C.base ≤ s.solid) (hrun : (do take; q).run s = some (a, t)) :
    t.Fair ∧ Grows C.base s t := by
  have hrun : q.run (s.take Token.node) = some (a, t) := hrun
  have htake : Grows C.base s (s.take Token.node) := Grows.refl.take (.inl rfl)
  obtain ⟨ht, hst⟩ := hq.grows (hs.take (.inl rfl)) (htake.floor_le_solid hbase) trivial hrun
  exact ⟨ht, htake.trans hst⟩

omit h in
/-- A token that is taken in amid a statement, and the rest of the statement. -/
theorem takeAmid_sways (hlevel : C.Level m m') {kind : Kind} (hkind : kind.isConstruct = true)
    {q q' : Parser Unit} (hagree : ∀ f, Agrees .any f f q q) (hq : Sways C C.Doomed 1 always q q') :
    Sways C C.Doomed 1 (m < ·.marker) (do take; q; wrap m kind) (do take; q'; wrap m' kind) := by
  have hrest : Sways C C.Doomed 1 always (do q; wrap m kind) (do q'; wrap m' kind) :=
    hq.bind (fun _ => (wrap_tracks hlevel hkind).sways) fun _ => .wrap hlevel hkind
  constructor
  · exact fun hs hbase _ hrun => take_bind_grows hrest hs hbase hrun
  · intro s s' a t a' t' hs hlt hrun hrun'
    have hrun : (do q; wrap m kind : Parser Unit).run (s.take Token.node) = some (a, t) := hrun
    have hrun' : (do q'; wrap m' kind : Parser Unit).run (s'.take Token.node) =
        some (a', t') := hrun'
    have hfair := (C.fair hs).1
    have htake : Grows C.base s (s.take Token.node) := Grows.refl.take (.inl rfl)
    have hbase := htake.floor_le_solid (C.solid hs)
    by_cases hheld : C.Held s
    · obtain ⟨_, u, hqu, hwrap⟩ := run_bind_eq_some.1 hrun
      obtain ⟨-, rfl⟩ := Prod.mk.inj (Option.some.inj hwrap)
      have hu := (hq.grows (hfair.take (.inl rfl)) hbase trivial hqu).1
      refine .inl (C.stray kind hs hheld hlevel.base_le hlt hu ?_)
      have hsome := State.isSome_of_isGuardKeyword (C.held hheld)
      refine InStep.evolves (hagree _) (hfair.take (.inl rfl)) trivial ?_ hqu
      exact State.lt_marker_take hsome le_rfl
    · rcases C.take hs hheld (.inl rfl) with hrel | ⟨-, hgone, -⟩
      · refine (hrest.step hrel trivial hrun hrun').imp_right
          (.imp_left fun ⟨ht, hless⟩ => ⟨ht, ?_⟩)
        exact hless.trans_le (Nat.add_le_add_right htake.length_ahead_le 1)
      · have hgone : C.Gone (s.take Token.node) := hgone
        exact .inl (hgone.grows (hfair.take (.inl rfl))
          (hrest.grows (hfair.take (.inl rfl)) hbase trivial hrun).2)

omit h in
theorem run_takeIf_bind {g : Bool → Parser α} (s : State) :
    (takeIf kind >>= g).run s = if decide (s.current = kind) then (do take; g true).run s
      else (g false).run s := by
  show ((if decide (s.current = kind) then (do take; return true) else return false : Parser Bool)
    >>= g).run s = _
  split <;> rfl

/-- The condition behind the body of a `do`, and making the statement. -/
def doWhileRest (inner : Inner) (opening : Nat) : Parser Unit := do
  doWhileCondition inner
  discard (expect .semicolon)
  wrap opening .doWhileStatement

omit h in
theorem run_doWhileRest (inner : Inner) (m : Nat) (s : State) : (doWhileRest inner m).run s
    = if decide (s.current = .whileKeyword) then
        (do take; (do condition inner; discard (expect .semicolon)); wrap m .doWhileStatement
          : Parser Unit).run s
      else (do missing (.construct .whileKeyword); discard (expect .semicolon)
               wrap m .doWhileStatement : Parser Unit).run s := by
  unfold doWhileRest doWhileCondition
  rw [bind_assoc, run_takeIf_bind]
  simp only [bind_assoc, if_true, Bool.false_eq_true, if_false]

theorem doWhileParts_mirrors : Mirrors C wanted (do condition inner; discard (expect .semicolon))
    (do condition inner'; discard (expect .semicolon)) :=
  (condition_mirrors h).bind fun _ => (expect_closer rfl).discard

omit h in
theorem doWhileMissing_mirrors (hlevel : C.Level m m') : Mirrors C wanted
    (do
      missing (.construct .whileKeyword); discard (expect .semicolon)
      wrap m .doWhileStatement)
    (do
      missing (.construct .whileKeyword); discard (expect .semicolon)
      wrap m' .doWhileStatement) :=
  (missing_tracks _).bind fun _ => (expect_closer rfl).discard.bind fun _ => wrap_tracks hlevel rfl

theorem doWhileRest_sways (hlevel : C.Level m m') :
    Sways C C.Doomed 1 (m < ·.marker) (doWhileRest inner m) (doWhileRest inner' m') := by
  refine .cases (fun k => decide (k = .whileKeyword)) (run_doWhileRest inner m)
    (run_doWhileRest inner' m') (Sways.mono ?_ fun _ hs => hs.1)
    (doWhileMissing_mirrors hlevel).sways
  refine takeAmid_sways hlevel rfl (fun f => ?_) (doWhileParts_mirrors h).sways
  exact (condition_agrees h.agree).bind fun _ => expect_agrees.discard

theorem doWhileRest_bears (hlevel : C.Level m m') : Bears C C.Doomed (doWhileRest inner m) where
  grows {s a t} hs hbase hrun := by
    rw [run_doWhileRest] at hrun
    split at hrun
    · have hparts : Mirrors C anywhere
          (do (do condition inner; discard (expect .semicolon)); wrap m .doWhileStatement)
          (do (do condition inner'; discard (expect .semicolon)); wrap m' .doWhileStatement) :=
        (doWhileParts_mirrors h).bind fun _ => wrap_tracks hlevel rfl
      exact take_bind_grows hparts.sways hs hbase hrun
    · have hmissing : Mirrors C anywhere _ _ := doWhileMissing_mirrors hlevel
      exact hmissing.grows hs hbase trivial hrun
  step {s a t} hs hbase hdoomed hrun := by
    rw [run_doWhileRest, decide_eq_false (hdoomed.current_ne rfl),
      if_neg Bool.false_ne_true] at hrun
    have hmissing : Bears C C.Doomed (do
        missing (.construct .whileKeyword); discard (expect .semicolon)
        wrap m .doWhileStatement) :=
      (Bears.missing _).bind fun _ => (Bears.expect rfl rfl).bind fun _ => .wrap hlevel rfl
    exact hmissing.step hs hbase hdoomed hrun

theorem doWhileStatement_sways (hlevel : C.Level m m') :
    Sways C C.Doomed 0 (fun s => s.current = .doKeyword ∧ m ≤ s.marker) (doWhileStatement inner m)
      (doWhileStatement inner' m') := by
  refine .take_bind (m < ·.marker) (fun s hs => ?_) (fun s hs => ?_) ?_
  · refine ⟨fun hheld => ?_, by rw [hs.1]; rfl, State.isSome_of_current (by rw [hs.1]; decide)⟩
    have hguard := C.held hheld
    rw [hs.1] at hguard
    cases hguard
  · exact State.lt_marker_take (State.isSome_of_current (by rw [hs.1]; decide)) hs.2
  · refine (body_sways h).relax.bindTo (fun hs hlt hrun => ?_) (fun _ => doWhileRest_sways h hlevel)
      fun _ => doWhileRest_bears h hlevel
    exact (InStep.evolves (body_agrees h.agree) hs trivial hlt hrun).floor_le_marker hs.sane hlt

/-! ## Headers of loops -/

/-- Either the two sides read the same ahead, or what the first run read ahead is to come. -/
theorem isElementLoop_step {s s' t t' : State} {a a' : Bool} (hs : C.Rel s s')
    (hrun : (isElementLoop inner).run s = some (a, t))
    (hrun' : (isElementLoop inner').run s' = some (a', t')) :
    t = s ∧ t' = s' ∧ (a' = a ∨ C.Due s) := by
  obtain ⟨hfair, hfair'⟩ := C.fair hs
  refine ⟨(isElementLoop_reads_in_step h.agree).leaves hfair hrun,
    (isElementLoop_reads_in_step h.agree').leaves hfair' hrun', ?_⟩
  obtain ⟨u, hlook, -⟩ := run_lookAhead_eq_some hrun
  obtain ⟨u', hlook', -⟩ := run_lookAhead_eq_some hrun'
  obtain ⟨_, v, hmodifiers, hname⟩ := run_bind_eq_some.1 hlook
  obtain ⟨_, v', hmodifiers', hname'⟩ := run_bind_eq_some.1 hlook'
  have hsame (hv : C.Rel v v') : a' = a := by
    have hrest : Stays C anywhere
        (do if ← typeReference inner then
              if ← takeIf .identifier then isAt .colon else return false
            else return false)
        (do if ← typeReference inner' then
              if ← takeIf .identifier then isAt .colon else return false
            else return false) := by
      refine (typeReference_stays h).ite ((takeIf_common rfl).ite ?_ (.pure false)) (.pure false)
      exact @Tracks.isAt_bind _ _ _ _ _ pure pure (.pure true) (.pure false)
    exact ((hrest.step hv trivial hname hname').resolve_left id).1
  -- behind modifiers the first side may be gone; without any, both sides read on from here
  cases hstarts : startsModifier s.current with
  | false =>
    have hstarts' : startsModifier s'.current = false := by rwa [Coupling.current_eq hs]
    rw [modifiers_of_not hstarts hmodifiers, modifiers_of_not hstarts' hmodifiers'] at hsame
    exact .inl (hsame hs)
  | true =>
    have hsplit {inner : Inner} {s v : State} {b : Unit}
        (hrun : (modifiers inner).run s = some (b, v)) :
        ∃ w, (loop (modifier inner)).run s = some ((), w)
          ∧ (do if (← marker) ≠ s.marker
            then wrap s.marker .modifierList).run w = some ((), v) := by
      have hrun : (loop (modifier inner) >>= fun _ => (do
        if (← marker) ≠ s.marker then wrap s.marker .modifierList)).run s = some (b, v) := hrun
      obtain ⟨_, w, hloop, hwrap⟩ := run_bind_eq_some.1 hrun
      exact ⟨w, hloop, hwrap⟩
    obtain ⟨w, hloop, hwrap⟩ := hsplit hmodifiers
    obtain ⟨w', hloop', hwrap'⟩ := hsplit hmodifiers'
    have hread : Mirrors C anywhere (loop (modifier inner)) (loop (modifier inner')) :=
      loop_tracks (modifier_mirrors h)
    rcases hread.step hs trivial hloop hloop' with hgone | ⟨-, hw⟩
    · obtain ⟨depth, rfl⟩ := h.nested
      exact .inr ⟨hstarts, depth, _, w, hloop, hgone⟩
    · have hmade : Stays C anywhere (do if (← marker) ≠ s.marker then wrap s.marker .modifierList)
          (do if (← marker) ≠ s'.marker then wrap s'.marker .modifierList) :=
        .built_ite (Coupling.level hs) (wrap_tracks (Coupling.level hs) rfl) (.pure ())
      exact .inl (hsame ((hmade.step hw trivial hwrap hwrap').resolve_left id).2)

theorem nextExpression_mirrors : Mirrors C wanted (nextExpression inner) (nextExpression inner') :=
  (takeIf_common rfl).ite ((expression_mirrors h).discard.bind fun _ => .pure true) (.pure false)

theorem forInitializer_mirrors :
    Mirrors C wanted (forInitializer inner) (forInitializer inner') := by
  refine .marker_bind fun m m' hlevel => .isAt_ite ?_ ?_
  · exact (take_closer rfl).bind fun _ => wrap_tracks hlevel rfl
  · have hdeclared : Mirrors C anywhere (do modifiers inner; variableDeclaration inner m)
        (do modifiers inner'; variableDeclaration inner' m') :=
      (modifiers_mirrors h).bind fun _ => variableDeclaration_mirrors h hlevel
    have hother : Mirrors C anywhere
        (do if ← isAtAny startsExpression then
              discard (expression inner)
              loop (nextExpression inner)
              discard (expect .semicolon)
              wrap m .expressionStatement
            else missing (.construct .semicolon))
        (do if ← isAtAny startsExpression then
              discard (expression inner')
              loop (nextExpression inner')
              discard (expect .semicolon)
              wrap m' .expressionStatement
            else missing (.construct .semicolon)) := by
      refine .isAtAny_ite ((expression_mirrors h).discard.bind fun _ => ?_) (missing_tracks _)
      refine (loop_tracks (nextExpression_mirrors h)).bind fun _ => ?_
      exact (expect_closer rfl).discard.bind fun _ => wrap_tracks hlevel rfl
    refine .isAt_bind ?_ ?_
    all_goals
      refine (isVariableDeclaration_stays h).lift.bind fun declared => ?_
      cases declared
    · exact hdeclared
    · exact hdeclared
    · exact hother
    · exact hdeclared

theorem forUpdate_mirrors : Mirrors C wanted (forUpdate inner) (forUpdate inner') := by
  refine .isAtAny_ite (.marker_bind fun m m' hlevel => ?_) (.pure ())
  refine (expression_mirrors h).discard.bind fun _ => ?_
  exact (loop_tracks (nextExpression_mirrors h)).bind fun _ => wrap_tracks hlevel rfl

/-- Where modifiers are due, the first part of a header reads them or is missing. -/
theorem forInitializer_doomed (hC : C.Settles) {s t : State} {a : Unit} (hs : s.Fair)
    (hbase : C.base ≤ s.solid)
    (hdoomed : C.Doomed s) (hrun : (forInitializer inner).run s = some (a, t)) :
    C.Gone t ∨ t = s.markMissing (.construct .semicolon) := by
  have hexpression := hdoomed.not_is startsExpression_of_startsModifier
  obtain ⟨m, _, hmarker, hrun⟩ := run_bind_eq_some.1 hrun
  obtain ⟨rfl, rfl⟩ := Prod.mk.inj (Option.some.inj hmarker)
  obtain ⟨b, _, hsemicolon, hrun⟩ := run_bind_eq_some.1 hrun
  obtain ⟨rfl, rfl⟩ := Prod.mk.inj (Option.some.inj hsemicolon)
  rw [decide_eq_false (hdoomed.current_ne rfl), if_neg Bool.false_ne_true] at hrun
  obtain ⟨b, _, hmodifier, hrun⟩ := run_bind_eq_some.1 hrun
  obtain ⟨rfl, rfl⟩ := Prod.mk.inj (Option.some.inj hmodifier)
  obtain ⟨b, u, hdeclared, hrun⟩ := run_bind_eq_some.1 hrun
  obtain rfl := (isVariableDeclaration_reads_in_step h.agree).leaves hs hdeclared
  obtain rfl : b = false := by
    have htype := hdoomed.not_is startsType_of_startsModifier
    cases b with
    | false => rfl
    | true => rw [startsType_of_isVariableDeclaration hdeclared] at htype; cases htype
  obtain ⟨m', hlevel⟩ := Coupling.exists_level (hbase.trans u.solid_le_marker)
  split at hrun
  · have hdooms : Dooms C C.Doomed (do modifiers inner; variableDeclaration inner u.marker) :=
      (modifiers_dooms h hC).bind (modifiers_mirrors h) fun _ =>
        variableDeclaration_mirrors h hlevel
    exact .inl (hdooms.gone hs hbase hdoomed hrun)
  · obtain ⟨b, v, hanswer, hrun⟩ := run_bind_eq_some.1 hrun
    obtain ⟨rfl, rfl⟩ := Prod.mk.inj (Option.some.inj hanswer)
    rw [hexpression, if_neg Bool.false_ne_true] at hrun
    exact .inr (Prod.mk.inj (Option.some.inj hrun)).2.symm

theorem forInitializer_bears (hC : C.Settles) : Bears C C.Doomed (forInitializer inner) := by
  have hmirrors : Mirrors C anywhere (forInitializer inner) (forInitializer inner') :=
    forInitializer_mirrors h
  refine hmirrors.bears fun {s a t} hs hbase hdoomed hrun => ?_
  refine (forInitializer_doomed h hC hs hbase hdoomed hrun).imp_right ?_
  rintro rfl
  exact hdoomed.markMissing _

/-- What comes behind the separator in the header of a loop over elements. -/
def foreachBody (inner : Inner) : Parser Unit := do
  orMissing (expression inner) .expression
  discard (expect .rightParen)
  body inner

theorem foreachBody_sways : Sways C C.Doomed late pre (foreachBody inner) (foreachBody inner') := by
  have hheader : Mirrors C anywhere (orMissing (expression inner) .expression)
      (orMissing (expression inner') .expression) := orMissing_tracks _ (expression_mirrors h)
  refine hheader.bindSways fun _ => ?_
  have hclosed : Mirrors C anywhere (discard (expect .rightParen)) (discard (expect .rightParen)) :=
    (expect_closer rfl).discard
  exact hclosed.bindSways fun _ => (body_sways h).relax

theorem foreachBody_bears : Bears C C.Doomed (foreachBody inner) :=
  (orMissing_expression_bears h _).bind fun _ => (Bears.expect rfl rfl).bind fun _ => body_bears h

omit h in
theorem foreachRest_eq (inner : Inner) (m : Nat) : foreachRest inner m
    = (do discard (parameter inner); (do take; foreachBody inner; wrap m .foreachStatement)) := by
  simp only [foreachRest, foreachBody, bind_assoc]

theorem foreachRest_sways (hlevel : C.Level m m') :
    Sways C C.Doomed 1 (m < ·.marker) (foreachRest inner m) (foreachRest inner' m') := by
  rw [foreachRest_eq, foreachRest_eq]
  have hparameter : Mirrors C anywhere (discard (parameter inner)) (discard (parameter inner')) :=
    (parameter_mirrors h).discard
  refine hparameter.bindSwaysTo (m < ·.marker) (fun hs hlt hrun => ?_) (fun _ _ => trivial)
    fun _ => takeAmid_sways hlevel rfl (fun f => ?_) (foreachBody_sways h)
  · exact (InStep.evolves
      (parameter_agrees h.agree).discard hs trivial hlt hrun).floor_le_marker hs.sane hlt
  · refine (orMissing_agrees (expression_phrases h.agree).agrees).bind fun _ => ?_
    exact expect_agrees.discard.bind fun _ => body_agrees h.agree

theorem forRest_sways (hlevel : C.Level m m') :
    Sways C C.Doomed late pre (forRest inner m) (forRest inner' m') := by
  have hcondition : Mirrors C anywhere (whenAtAny startsExpression (discard (expression inner)))
      (whenAtAny startsExpression (discard (expression inner'))) :=
    whenAtAny_tracks (expression_mirrors h).discard
  have hexpect {kind : Kind} (hkind : isGuardKeyword kind = false) :
      Mirrors C anywhere (discard (expect kind)) (discard (expect kind)) :=
    (expect_closer hkind).discard
  refine (forInitializer_mirrors h).bindSways fun _ => hcondition.bindSways fun _ => ?_
  refine (hexpect rfl).bindSways fun _ => (forUpdate_mirrors h).bindSways fun _ => ?_
  exact (hexpect rfl).bindSways fun _ => bodyWrap_sways h hlevel rfl

theorem forRest_bears (hC : C.Settles) (hlevel : C.Level m m') :
    Bears C C.Doomed (forRest inner m) := by
  refine (forInitializer_bears h hC).bind fun _ => (expression_bears h).bind fun _ => ?_
  refine (Bears.expect rfl rfl).bind fun _ => Bears.bind ?_ fun _ => ?_
  · exact .isAtAny_bind startsExpression_of_startsModifier (forUpdate_mirrors h).sways (.pure ())
  · exact (Bears.expect rfl rfl).bind fun _ => bodyWrap_bears h hlevel rfl

omit h in
/-- Where a modifier has been read, the others are still to come or the first run is gone. -/
theorem Coupling.Due.take {s : State} (hs : C.Due s) (hkind : s.current = .synchronizedKeyword) :
    C.Gone (s.take Token.node) ∨ C.Due (s.take Token.node) := by
  obtain ⟨-, depth, n, w, hrun, hgone⟩ := hs
  cases n with
  | zero => cases hrun
  | succ n =>
    obtain ⟨again, u, hmodifier, hrest⟩ := run_bind_eq_some.1 hrun
    obtain ⟨kind, _, hcurrent, hmodifier⟩ := run_bind_eq_some.1 hmodifier
    obtain ⟨rfl, rfl⟩ := Prod.mk.inj (Option.some.inj hcurrent)
    rw [hkind] at hmodifier
    obtain ⟨rfl, rfl⟩ := Prod.mk.inj (Option.some.inj hmodifier)
    cases hstarts : startsModifier (s.take Token.node).current with
    | true => exact .inr ⟨hstarts, depth, n, w, hrest, hgone⟩
    | false =>
      cases n with
      | zero => cases hrest
      | succ n =>
        obtain ⟨again, u, hnone, hend⟩ := run_bind_eq_some.1 hrest
        rw [modifier_of_not hstarts] at hnone
        obtain ⟨rfl, rfl⟩ := Prod.mk.inj (Option.some.inj hnone)
        obtain ⟨-, rfl⟩ := run_pure_eq_some.1 hend
        exact .inl hgone

/-- The variable of a loop over elements, and what separates it from the elements. -/
def elementVariable (inner : Inner) : Parser Unit := do
  discard (parameter inner)
  take

omit h in
theorem foreachRest_eq_elementVariable (inner : Inner) (m : Nat) : foreachRest inner m
    = (do elementVariable inner; (do foreachBody inner; wrap m .foreachStatement)) := by
  simp only [foreachRest, foreachBody, elementVariable, bind_assoc]

theorem elementVariable_grows {s t : State} {a : Unit} (hs : s.Fair) (hbase : C.base ≤ s.solid)
    (hrun : (elementVariable inner).run s = some (a, t)) : t.Fair ∧ Grows C.base s t := by
  obtain ⟨_, u, hparameter, htake⟩ := run_bind_eq_some.1 hrun
  obtain ⟨-, rfl⟩ := Prod.mk.inj (Option.some.inj htake)
  have hread : Mirrors C anywhere (parameter inner) (parameter inner') := parameter_mirrors h
  obtain ⟨hu, hsu⟩ := hread.discard.grows hs hbase trivial hparameter
  exact ⟨hu.take (.inl rfl), hsu.take (.inl rfl)⟩

/-- The variable of a loop over elements leaves nothing of the modifiers that are due but for the
keyword `synchronized`, which is taken in behind it. -/
theorem elementVariable_due (hC : C.Settles) {s t : State} {a : Unit} (hs : s.Fair)
    (hbase : C.base ≤ s.solid) (hdue : C.Due s)
    (hrun : (elementVariable inner).run s = some (a, t)) : C.Gone t ∨ C.Due t := by
  obtain ⟨_, u, hparameter, htake⟩ := run_bind_eq_some.1 hrun
  obtain ⟨-, rfl⟩ := Prod.mk.inj (Option.some.inj htake)
  obtain ⟨there, hparameter⟩ := run_discard_eq_some.1 hparameter
  have hread : Mirrors C anywhere (parameter inner) (parameter inner') := parameter_mirrors h
  obtain ⟨hu, hsu⟩ := hread.grows hs hbase trivial hparameter
  obtain ⟨again, _, hasked, hparameter⟩ := run_bind_eq_some.1 hparameter
  obtain ⟨rfl, rfl⟩ := Prod.mk.inj (Option.some.inj hasked)
  split at hparameter
  · -- the modifiers are those of the parameter
    obtain ⟨m, _, hmarker, hparameter⟩ := run_bind_eq_some.1 hparameter
    obtain ⟨rfl, rfl⟩ := Prod.mk.inj (Option.some.inj hmarker)
    obtain ⟨m', hopening⟩ := Coupling.exists_level (hbase.trans s.solid_le_marker)
    have hmodified : Mirrors C anywhere
        (do parameterRest inner; wrap s.marker .parameter; return true)
        (do parameterRest inner'; wrap m' .parameter; return true) :=
      (parameterRest_mirrors h).bind fun _ => (wrap_tracks hopening rfl).bind fun _ => .pure true
    have hdooms : Dooms C C.Doomed
        (do modifiers inner; parameterRest inner; wrap s.marker .parameter; return true) :=
      (modifiers_dooms h hC).bind (modifiers_mirrors h) fun _ => hmodified
    have hgone := hdooms.gone hs hbase (hdue.doomed hs hbase) hparameter
    exact .inl (hgone.grows hu (Grows.refl.take (.inl rfl)))
  · next hnot =>
    obtain ⟨-, rfl⟩ := run_pure_eq_some.1 hparameter
    refine hdue.take ?_
    have hstarts := hdue.1
    cases hkind : u.current <;>
      first
        | rfl
        | (rw [hkind] at hnot; exact absurd rfl hnot)
        | (rw [hkind] at hstarts; cases hstarts)

/-- So does the whole loop. -/
theorem foreachRest_due (hC : C.Settles) (hlevel : C.Level m m') {s t : State} {a : Unit}
    (hs : s.Fair) (hbase : C.base ≤ s.solid) (hdue : C.Due s)
    (hrun : (foreachRest inner m).run s = some (a, t)) :
    C.Gone t ∨ C.Doomed t := by
  have hbears : Bears C C.Doomed (do foreachBody inner; wrap m .foreachStatement) :=
    (foreachBody_bears h).bind fun _ => .wrap hlevel rfl
  rw [foreachRest_eq_elementVariable] at hrun
  obtain ⟨_, u, hvariable, hrest⟩ := run_bind_eq_some.1 hrun
  obtain ⟨hu, hsu⟩ := elementVariable_grows h hs hbase hvariable
  have hbase' := hsu.floor_le_solid hbase
  rcases elementVariable_due h hC hs hbase hdue hvariable with hgone | hdue
  · exact .inl (hgone.grows hu (hbears.grows hu hbase' hrest).2)
  · exact hbears.step hu hbase' (hdue.doomed hu hbase') hrest

/-- Which of the two loops with the keyword `for` it is, and its header and body. -/
def forHeader (inner : Inner) (opening : Nat) : Parser Unit := do
  if ← isElementLoop inner then
    foreachRest inner opening
  else
    forRest inner opening

theorem forHeader_sways (hC : C.Settles) (hlevel : C.Level m m') :
    Sways C C.Doomed 1 (m < ·.marker) (forHeader inner m) (forHeader inner' m') := by
  have hchoose (a : Bool) : Sways C C.Doomed 1 (m < ·.marker)
      (if a then foreachRest inner m else forRest inner m)
      (if a then foreachRest inner' m' else forRest inner' m') := by
    cases a with
    | true => exact foreachRest_sways h hlevel
    | false => exact forRest_sways h hlevel
  constructor
  · intro s b t hs hbase hlt hrun
    obtain ⟨a, u, hasked, hrun⟩ := run_bind_eq_some.1 hrun
    rw [(isElementLoop_reads_in_step h.agree).leaves hs hasked] at hrun
    exact (hchoose a).grows hs hbase hlt hrun
  · intro s s' b t b' t' hs hlt hrun hrun'
    obtain ⟨a, u, hasked, hrest⟩ := run_bind_eq_some.1 hrun
    obtain ⟨a', u', hasked', hrest'⟩ := run_bind_eq_some.1 hrun'
    obtain ⟨rfl, rfl, rfl | hdue⟩ := isElementLoop_step h hs hasked hasked'
    · exact (hchoose a').step hs hlt hrest hrest'
    · have hfair := (C.fair hs).1
      have hgrows := (hchoose a).grows hfair (C.solid hs) hlt hrest
      have hend : C.Gone t ∨ C.Doomed t := by
        cases a with
        | true => exact foreachRest_due h hC hlevel hfair (C.solid hs) hdue hrest
        | false =>
          exact (forRest_bears h hC hlevel).step hfair (C.solid hs)
            (hdue.doomed hfair (C.solid hs)) hrest
      exact hend.imp_right fun hdoomed =>
        .inl ⟨hdoomed, Nat.lt_succ_of_le hgrows.2.length_ahead_le⟩

theorem behindFor_sways (hC : C.Settles) (hlevel : C.Level m m') : Sways C C.Doomed 1 (m < ·.marker)
    (behindGuard inner m .forKeyword) (behindGuard inner' m' .forKeyword) := by
  have htaken : Mirrors C anywhere (takeIf .leftParen) (takeIf .leftParen) := takeIf_common rfl
  refine htaken.bindSwaysTo (m < ·.marker) (fun hs hlt hrun => ?_) (fun _ _ => trivial)
    fun taken => ?_
  · exact (InStep.evolves takeIf_agrees hs trivial hlt hrun).floor_le_marker hs.sane hlt
  · cases taken with
    | true => exact forHeader_sways h hC hlevel
    | false => exact Tracks.sways ((missing_tracks _).bind fun _ => wrap_tracks hlevel rfl)

theorem behindGuard_sways (hC : C.Settles) (hlevel : C.Level m m')
    (hkind : isGuardKeyword kind = true) :
    Sways C C.Doomed 1 (m < ·.marker) (behindGuard inner m kind) (behindGuard inner' m' kind) := by
  unfold isGuardKeyword at hkind
  split at hkind
  · exact behindIf_sways h hlevel
  · exact behindWhile_sways h hlevel
  · exact behindFor_sways h hC hlevel
  · cases hkind

/-! ## Switches, handlers and jumps -/

theorem switchStatement_mirrors (hlevel : C.Level m m') :
    Mirrors C (· = .switchKeyword) (switchStatement inner m) (switchStatement inner' m') := by
  refine (take_common rfl).bind fun _ => (condition_mirrors h).bind fun _ => ?_
  exact (requiredBlock_mirrors h _).bind fun _ => wrap_tracks hlevel rfl

theorem labelValues_mirrors (hwanted : ∀ kind, wanted kind → isCommon kind = true) :
    Mirrors C wanted (labelValues inner) (labelValues inner') := by
  refine .takeIf_bind ((take_common rfl).bind fun _ => ?_)
    (take_tracks fun kind hkind => hwanted kind hkind.1)
  refine (orMissing_tracks _ (expression_mirrors h)).bind fun _ => ?_
  exact loop_tracks (nextExpression_mirrors h)

omit h in
theorem labelEnd_stays : Stays C wanted labelEnd labelEnd :=
  .isAtEither_ite (take_common rfl) (take_common rfl) (missing_tracks _)

theorem switchLabel_mirrors (hwanted : ∀ kind, wanted kind → isCommon kind = true)
    (hlevel : C.Level m m') : Mirrors C wanted (switchLabel inner m) (switchLabel inner' m') :=
  (labelValues_mirrors h hwanted).bind fun _ => labelEnd_stays.lift.bind fun _ =>
    wrap_tracks hlevel rfl

omit h in
/-- Where a declaration of a variable follows, its name stands behind the type. -/
theorem current_of_isVariableDeclaration {s t u : State} {found : Bool}
    (hlook : (isVariableDeclaration inner).run s = some (true, t))
    (htype : (typeReference inner).run s = some (found, u)) : u.current = .identifier := by
  obtain ⟨v, hlook, -⟩ := run_lookAhead_eq_some hlook
  obtain ⟨there, w, htype', hname⟩ := run_bind_eq_some.1 hlook
  obtain ⟨rfl, rfl⟩ := Prod.mk.inj (Option.some.inj (htype.symm.trans htype'))
  cases found with
  | false => cases (run_pure_eq_some.1 hname).1
  | true =>
    obtain ⟨hname, -⟩ := Prod.mk.inj (Option.some.inj hname)
    exact of_decide_eq_true hname

theorem resource_mirrors : Mirrors C wanted (resource inner) (resource inner') := by
  refine .marker_bind fun m m' hlevel => ?_
  have hrest : Mirrors C anywhere
      (do whenTaken .assign (orMissing (expression inner) .expression); wrap m .localVariable)
      (do whenTaken .assign (orMissing (expression inner') .expression); wrap m' .localVariable) :=
    (whenTaken_tracks rfl (orMissing_tracks _ (expression_mirrors h))).bind fun _ =>
      wrap_tracks hlevel rfl
  have htypes : Stays C anywhere (typeReference inner) (typeReference inner') :=
    typeReference_stays h
  have hexpression : Mirrors C anywhere (discard (expression inner))
      (discard (expression inner')) :=
    (expression_mirrors h).discard
  constructor
  · intro s b t hs hbase _ hrun
    obtain ⟨a, _, hdeclared, hrun⟩ := run_bind_eq_some.1 hrun
    obtain rfl := (isVariableDeclaration_reads_in_step h.agree).leaves hs hdeclared
    cases a with
    | false => exact hexpression.grows hs hbase trivial hrun
    | true =>
      obtain ⟨_, v, htype, hrun⟩ := run_bind_eq_some.1 hrun
      obtain ⟨hv, hsv⟩ := htypes.discard.grows hs hbase trivial htype
      obtain ⟨ht, hvt⟩ := take_bind_grows hrest.sways hv (hsv.floor_le_solid hbase) hrun
      exact ⟨ht, hsv.trans hvt⟩
  · intro s s' b t b' t' hs _ hrun hrun'
    obtain ⟨hfair, hfair'⟩ := C.fair hs
    obtain ⟨a, u, hdeclared, hrest₁⟩ := run_bind_eq_some.1 hrun
    obtain ⟨a', u', hdeclared', hrest₁'⟩ := run_bind_eq_some.1 hrun'
    have hsame : Stays C anywhere (isVariableDeclaration inner) (isVariableDeclaration inner') :=
      isVariableDeclaration_stays h
    obtain ⟨rfl, hu⟩ := (hsame.step hs trivial hdeclared hdeclared').resolve_left id
    cases a' with
    | false => exact hexpression.step hu trivial hrest₁ hrest₁'
    | true =>
      obtain ⟨_, v, htype, hrest₂⟩ := run_bind_eq_some.1 hrest₁
      obtain ⟨_, v', htype', hrest₂'⟩ := run_bind_eq_some.1 hrest₁'
      obtain ⟨-, hv⟩ := (htypes.discard.step hu trivial htype htype').resolve_left id
      obtain ⟨found, htype⟩ := run_discard_eq_some.1 htype
      -- what declares a variable has a name behind the type
      have hname : v.current = .identifier := by
        rw [(isVariableDeclaration_reads_in_step h.agree).leaves hfair hdeclared] at htype
        exact current_of_isVariableDeclaration hdeclared htype
      exact hrest.step (Coupling.take_common hv (by rw [hname]; rfl)) trivial hrest₂ hrest₂'

theorem resourceItem_mirrors : Mirrors C wanted (resourceItem inner) (resourceItem inner') := by
  refine .isAtEither_ite (.pure false) (.pure false) (.marker_bind fun m m' hlevel => ?_)
  refine (resource_mirrors h).bind fun _ => ?_
  exact .unbuilt_ite hlevel (takeIf_closer rfl) (.pure false)

theorem resources_mirrors : Mirrors C wanted (resources inner) (resources inner') :=
  (loop_tracks (resourceItem_mirrors h)).bind fun _ => (expect_closer rfl).discard

theorem caughtParameter_mirrors :
    Mirrors C wanted (caughtParameter inner) (caughtParameter inner') := by
  refine (takeIf_common rfl).ite ?_ (missing_tracks _)
  exact (orMissing_tracks _ (parameter_mirrors h)).bind fun _ => (expect_closer rfl).discard

theorem catchSection_mirrors : Mirrors C wanted (catchSection inner) (catchSection inner') := by
  refine .isAt_ite
    (.marker_bind fun m m' hlevel => (take_common rfl).bind fun _ => ?_) (.pure false)
  refine (caughtParameter_mirrors h).bind fun _ => (requiredBlock_mirrors h _).bind fun _ => ?_
  exact (wrap_tracks hlevel rfl).bind fun _ => .pure true

theorem tryStatement_mirrors (hlevel : C.Level m m') :
    Mirrors C (· = .tryKeyword) (tryStatement inner m) (tryStatement inner' m') := by
  refine (take_common rfl).bind fun _ =>
    (whenTaken_tracks rfl (resources_mirrors h)).bind fun _ => ?_
  refine (requiredBlock_mirrors h _).bind fun _ =>
    (loop_tracks (catchSection_mirrors h)).bind fun _ => ?_
  exact (whenTaken_tracks rfl (requiredBlock_mirrors h _)).bind fun _ => wrap_tracks hlevel rfl

theorem synchronizedStatement_mirrors (hlevel : C.Level m m') :
    Mirrors C (· = .synchronizedKeyword) (synchronizedStatement inner m)
      (synchronizedStatement inner' m') := by
  refine (take_common rfl).bind fun _ => (condition_mirrors h).bind fun _ => ?_
  exact (requiredBlock_mirrors h _).bind fun _ => wrap_tracks hlevel rfl

theorem valueJump_mirrors (hlevel : C.Level m m')
    (hwanted : ∀ kind, wanted kind → isCommon kind = true)
    {kind : Kind} (hkind : kind.isConstruct = true) :
    Mirrors C wanted (valueJump inner m kind) (valueJump inner' m' kind) := by
  refine (take_tracks hwanted).bind fun _ => ?_
  refine (whenAtAny_tracks (expression_mirrors h).discard).bind fun _ => ?_
  exact (expect_closer rfl).discard.bind fun _ => wrap_tracks hlevel hkind

omit h in
theorem labelJump_mirrors (hlevel : C.Level m m')
    (hwanted : ∀ kind, wanted kind → isCommon kind = true)
    {kind : Kind} (hkind : kind.isConstruct = true) :
    Mirrors C wanted (labelJump m kind) (labelJump m' kind) := by
  refine (take_tracks hwanted).bind fun _ => (takeIf_common rfl).discard.bind fun _ => ?_
  exact (expect_closer rfl).discard.bind fun _ => wrap_tracks hlevel hkind

theorem expressionStatement_mirrors (hlevel : C.Level m m') :
    Mirrors C wanted (expressionStatement inner m) (expressionStatement inner' m') := by
  refine (expression_mirrors h).discard.bind fun _ => ?_
  exact (expect_closer rfl).discard.bind fun _ => wrap_tracks hlevel rfl

end

end StatementCompletion.Grammar
