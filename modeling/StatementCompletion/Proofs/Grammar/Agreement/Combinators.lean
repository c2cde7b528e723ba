import StatementCompletion.Proofs.Grammar.Agreement

/-!
# The combinators in step

One lemma for every combinator that the rules of the grammar are written with.  The loops of the two
sides have bounds of their own, and each is shown by induction on both bounds: a loop that has a
result has not run into its bound.
-/

namespace StatementCompletion.Grammar

variable {α β : Type} {wanted : Kind → Prop} {kind : Kind} {foot : Footing} {f f' m m' : Nat}
  {pre : State → State → Prop} {post : State → State → State → State → Prop} {p p' : Parser α}

/-! ## Answers -/

theorem run_discard_eq_some {p : Parser α} {s t : State} {u : PUnit} :
    (discard p).run s = some (u, t) ↔ ∃ a, p.run s = some (a, t) := by
  show (Functor.mapConst PUnit.unit p : Parser PUnit).run s = _ ↔ _
  rw [map_const, Function.comp, StateT.run_map]
  show Option.map _ _ = _ ↔ _
  simp

theorem InStep.discard (hp : InStep wanted pre post p p') :
    InStep wanted pre post (discard p) (discard p') := by
  intro s s' halike hkind hs a t a' t' hrun hrun'
  obtain ⟨b, hb⟩ := run_discard_eq_some.1 hrun
  obtain ⟨b', hb'⟩ := run_discard_eq_some.1 hrun'
  exact ⟨rfl, (hp s s' halike hkind hs b t b' t' hb hb').2⟩

theorem AgreesAt.discard (hp : AgreesAt wanted foot f f' p p') :
    AgreesAt wanted foot f f' (discard p) (discard p') :=
  InStep.discard hp

theorem OpensAt.discard (hp : OpensAt wanted p p') : OpensAt wanted (discard p) (discard p') :=
  InStep.discard hp

theorem AgreesAt.ite [foot.Lasting] {p p' : Parser Bool} {q q' r r' : Parser β}
    (hp : AgreesAt wanted foot f f' p p') (hq : Agrees foot f f' q q')
    (hr : Agrees foot f f' r r') :
    AgreesAt wanted foot f f' (do if ← p then q else r) (do if ← p' then q' else r') := by
  refine AgreesAt.bind hp fun a => ?_
  cases a with
  | true => exact hq
  | false => exact hr

theorem RetractsAt.ite {p p' : Parser Bool} {q q' r r' : Parser β} (hp : RetractsAt wanted p p')
    (hq : Retracts q q') (hr : Retracts r r') :
    RetractsAt wanted (do if ← p then q else r) (do if ← p' then q' else r') := by
  refine hp.bind fun a => ?_
  cases a with
  | true => exact hq
  | false => exact hr

theorem ReadsAt.ite {p p' : Parser Bool} {q q' r r' : Parser β} (hp : ReadsAt wanted p p')
    (hq : InStep wanted pre post q q') (hr : InStep wanted pre post r r') :
    InStep wanted pre post (do if ← p then q else r) (do if ← p' then q' else r') := by
  refine hp.bind fun a => ?_
  cases a with
  | true => exact hq
  | false => exact hr

/-! ## Phrases -/

/-- A parser whose answer is yes whenever there is one. -/
def AnswersYes (p : Parser Bool) : Prop :=
  ∀ s a t, p.run s = some (a, t) → a = true

theorem AnswersYes.pure : AnswersYes (pure true) :=
  fun _ _ _ hrun => (run_pure_eq_some.1 hrun).1

theorem AnswersYes.bind {p : Parser α} {g : α → Parser Bool} (hg : ∀ a, AnswersYes (g a)) :
    AnswersYes (p >>= g) := by
  intro s b u hrun
  obtain ⟨a, t, -, hgu⟩ := run_bind_eq_some.1 hrun
  exact hg a t b u hgu

section

variable {starts : Kind → Bool} {p p' : Parser Bool}

/-- Either both take the current token in, or both leave the state alone. -/
theorem Phrases.retracts (h : Phrases starts p p') : Retracts p p' := by
  intro s s' halike _ _ a t a' t' hrun hrun'
  cases hstarts : starts s.current with
  | true =>
    obtain ⟨ha, ht⟩ := h.opens s s' halike hstarts trivial a t a' t' hrun hrun'
    exact ⟨ha, .inr ht⟩
  | false =>
    obtain ⟨rfl, rfl⟩ := h.phrase.no hstarts hrun
    rw [← halike.current_eq] at hstarts
    obtain ⟨rfl, rfl⟩ := h.phrase'.no hstarts hrun'
    exact ⟨rfl, .inl ⟨rfl, rfl⟩⟩

theorem Phrases.agrees (h : Phrases starts p p') : Agrees foot f f' p p' :=
  h.retracts.agreesAt

/-- Behind a phrase there is a footing; without it there is the one that was there. -/
theorem Phrases.iteReady {q q' r r' : Parser β} (h : Phrases starts p p')
    (hq : Agrees .begun f f' q q') (hr : AgreesAt wanted .ready f f' r r') :
    AgreesAt wanted .ready f f' (do if ← p then q else r) (do if ← p' then q' else r') := by
  intro s s' halike hkind hs b u b' u' hrun hrun'
  obtain ⟨a, t, hpt, hgu⟩ := run_bind_eq_some.1 hrun
  obtain ⟨a', t', hpt', hgu'⟩ := run_bind_eq_some.1 hrun'
  cases hstarts : starts s.current with
  | true =>
    obtain ⟨rfl, ht⟩ := h.opens s s' halike hstarts trivial a t a' t' hpt hpt'
    rw [h.phrase.yes hstarts hpt] at hgu hgu'
    obtain ⟨hb, hu⟩ := hq t t' ht.alike trivial (hs.opened halike ht) b u b' u' hgu hgu'
    exact ⟨hb, (ht.abreast hs.level.left hs.level.right).trans hu⟩
  | false =>
    obtain ⟨rfl, rfl⟩ := h.phrase.no hstarts hpt
    rw [← halike.current_eq] at hstarts
    obtain ⟨rfl, rfl⟩ := h.phrase'.no hstarts hpt'
    exact hr t t' halike hkind hs b u b' u' hgu hgu'

end

/-- A phrase with something behind it is a phrase. -/
theorem Phrase.behind {starts : Kind → Bool} {p : Parser Bool} {rest : Nat → Parser Unit}
    (h : Phrase starts p) :
    Phrase starts (do let m ← marker; if ← p then rest m; return true else return false) := by
  constructor
  · intro s a t hstarts hrun
    obtain ⟨there, u, hthere, hrun⟩ := run_bind_eq_some.1 (show (p >>= fun there =>
      if there then rest s.marker >>= fun _ => pure true else pure false).run s = some (a, t)
        from hrun)
    rw [h.yes hstarts hthere] at hrun
    exact AnswersYes.bind (fun _ => .pure) _ _ _ hrun
  · intro s a t hstarts hrun
    obtain ⟨there, u, hthere, hrun⟩ := run_bind_eq_some.1 (show (p >>= fun there =>
      if there then rest s.marker >>= fun _ => pure true else pure false).run s = some (a, t)
        from hrun)
    obtain ⟨rfl, rfl⟩ := h.no hstarts hthere
    exact run_pure_eq_some.1 hrun

theorem Phrases.behind {starts : Kind → Bool} {p p' : Parser Bool} {rest rest' : Nat → Parser Unit}
    (h : Phrases starts p p') (hrest : ∀ m m', Agrees .begun m m' (rest m) (rest' m')) :
    Phrases starts (do let m ← marker; if ← p then rest m; return true else return false)
      (do let m ← marker; if ← p' then rest' m; return true else return false) := by
  refine ⟨h.phrase.behind, h.phrase'.behind, OpensAt.marker_bind fun m m' => ?_⟩
  refine h.opens.bindFrom fun there => ?_
  cases there with
  | true => exact (hrest m m').bind fun _ => AgreesAt.pure true
  | false => exact AgreesAt.pure false

/-! ## Optional parts -/

theorem takeIf_agrees : Agrees foot f f' (takeIf kind) (takeIf kind) := by
  refine AgreesAt.lift (InStep.isAt_ite ?_ ?_)
  · exact AgreesAt.bind take_agrees.at fun _ => AgreesAt.pure true
  · exact AgreesAt.pure false

/-- A token that may be there, where it is known what comes in front of it. -/
theorem InStep.takeIf_bind {g g' : Bool → Parser β}
    (htrue : InStep (· = kind) pre post (take >>= fun _ => g true) (take >>= fun _ => g' true))
    (hfalse : InStep wanted pre post (g false) (g' false)) :
    InStep wanted pre post (takeIf kind >>= g) (takeIf kind >>= g') := by
  have hrun (g : Bool → Parser β) :
      takeIf kind >>= g = (do if ← isAt kind then take >>= fun _ => g true else g false) := by
    simp only [takeIf, bind_assoc]
    congr 1
    funext b
    cases b <;> simp
  rw [hrun g, hrun g']
  exact .isAt_ite htrue hfalse

theorem takeIf_retracts (hkind : kind ≠ .endOfFile) : Retracts (takeIf kind) (takeIf kind) := by
  refine InStep.isAt_ite ?_ ?_
  · have hopens : OpensAt (· = kind) (do take; return true) (do take; return true) :=
      OpensAt.bind (take_opens fun k hk => hk ▸ hkind) fun _ _ _ => AgreesAt.pure true
    intro s s' halike hs _ a t a' t' hrun hrun'
    obtain ⟨ha, ht⟩ := hopens s s' halike hs trivial a t a' t' hrun hrun'
    exact ⟨ha, .inr ht⟩
  · exact (ReadsAt.pure false).retractsAt

theorem expect_agrees : Agrees foot f f' (expect kind) (expect kind) := by
  refine AgreesAt.lift (InStep.isAt_ite ?_ ?_)
  · exact AgreesAt.bind take_agrees.at fun _ => AgreesAt.pure true
  · exact AgreesAt.bind (missing_agrees _) fun _ => AgreesAt.pure false

theorem whenAt_agrees {p p' : Parser Unit} (hp : AgreesAt (· = kind) foot f f' p p') :
    Agrees foot f f' (whenAt kind p) (whenAt kind p') :=
  InStep.isAt_ite hp (AgreesAt.pure ())

theorem unlessAt_agrees {p p' : Parser Unit} (hp : Agrees foot f f' p p') :
    Agrees foot f f' (unlessAt kind p) (unlessAt kind p') := by
  refine InStep.isAt_bind ?_ ?_
  · exact AgreesAt.pure ()
  · exact hp

theorem whenAtAny_agrees {is : Kind → Bool} {p p' : Parser Unit}
    (hp : AgreesAt (is · = true) foot f f' p p') :
    Agrees foot f f' (whenAtAny is p) (whenAtAny is p') :=
  InStep.isAtAny_ite hp (AgreesAt.pure ())

theorem whenTaken_agrees {p p' : Parser Unit} (hp : Agrees .any f f' p p') :
    Agrees foot f f' (whenTaken kind p) (whenTaken kind p') :=
  AgreesAt.lift (takeIf_agrees.ite hp (AgreesAt.pure ()))

theorem orMissing_opens {p p' : Parser Bool} {wanted : Kind → Prop} {missed : Wanted}
    (hp : OpensAt wanted p p') : OpensAt wanted (orMissing p missed) (orMissing p' missed) := by
  refine hp.bind fun a f f' => ?_
  cases a with
  | true => exact AgreesAt.pure ()
  | false => exact missing_agrees missed

theorem orMissing_agrees {p p' : Parser Bool} {wanted : Wanted} (hp : Agrees .any f f' p p') :
    Agrees foot f f' (orMissing p wanted) (orMissing p' wanted) := by
  refine AgreesAt.lift (AgreesAt.bind hp fun a => ?_)
  cases a with
  | true => exact AgreesAt.pure ()
  | false => exact missing_agrees wanted

/-! ## Reading ahead -/

theorem run_lookAhead_eq_some {p : Parser α} {s t : State} {a : α}
    (h : (lookAhead p).run s = some (a, t)) : ∃ u, p.run s = some (a, u) ∧ t = u.rollBack s := by
  have h : (p >>= fun b => (do modify (·.rollBack s); return b)).run s = some (a, t) := h
  obtain ⟨b, u, hp, hb⟩ := run_bind_eq_some.1 h
  obtain ⟨rfl, rfl⟩ := Prod.mk.inj (Option.some.inj hb)
  exact ⟨u, hp, rfl⟩

theorem run_attempt_eq_some {p : Parser Bool} {s t : State} {b : Unit}
    (h : (attempt p).run s = some (b, t)) :
    ∃ a u, p.run s = some (a, u) ∧ t = if a then u else u.rollBack s := by
  have h : (p >>= fun a => if a then pure () else modify (·.rollBack s)).run s = some (b, t) := h
  obtain ⟨a, u, hp, hb⟩ := run_bind_eq_some.1 h
  refine ⟨a, u, hp, ?_⟩
  cases a <;> exact (Prod.mk.inj (Option.some.inj hb)).2.symm

theorem State.rollBack_self (s : State) : s.rollBack s = s := by
  unfold State.rollBack
  rw [Nat.sub_self, List.drop_zero]

/-- What can be taken back leaves the state alone when it only looks. -/
theorem lookAhead_reads_in_step (hp : RetractsAt wanted p p') :
    ReadsAt wanted (lookAhead p) (lookAhead p') := by
  intro s s' halike hkind _ a t a' t' hrun hrun'
  obtain ⟨u, hpu, rfl⟩ := run_lookAhead_eq_some hrun
  obtain ⟨u', hpu', rfl⟩ := run_lookAhead_eq_some hrun'
  obtain ⟨ha, hu | hu⟩ := hp s s' halike hkind trivial a u a' u' hpu hpu'
  · obtain ⟨rfl, rfl⟩ := hu
    exact ⟨ha, State.rollBack_self _, State.rollBack_self _⟩
  · exact ⟨ha, hu.opens.rollBack_eq halike.sane, hu.opens'.rollBack_eq halike.sane'⟩

theorem attempt_agrees {p p' : Parser Bool} (hp : RetractsAt wanted p p') :
    AgreesAt wanted foot f f' (attempt p) (attempt p') := by
  intro s s' halike hkind hs b t b' t' hrun hrun'
  obtain ⟨a, u, hpu, rfl⟩ := run_attempt_eq_some hrun
  obtain ⟨a', u', hpu', rfl⟩ := run_attempt_eq_some hrun'
  obtain ⟨rfl, hu⟩ := hp s s' halike hkind trivial a u a' u' hpu hpu'
  refine ⟨rfl, ?_⟩
  rcases hu with ⟨rfl, rfl⟩ | hu
  · rw [State.rollBack_self, State.rollBack_self, ite_self, ite_self]
    exact .refl halike
  · rw [hu.opens.rollBack_eq halike.sane, hu.opens'.rollBack_eq halike.sane']
    cases a' with
    | true => exact hu.abreast hs.level.left hs.level.right
    | false => exact .refl halike

/-! ## Loops -/

section

variable {step step' : Parser Bool}

theorem loopWithin_agrees (hstep : Agrees .any f f' step step') (n n' : Nat) :
    Agrees .any f f' (loopWithin n step) (loopWithin n' step') := by
  induction n generalizing n' with
  | zero =>
    intro s s' _ _ _ a t a' t' hrun _
    cases hrun
  | succ n ih =>
    cases n' with
    | zero =>
      intro s s' _ _ _ a t a' t' _ hrun'
      cases hrun'
    | succ n' => exact hstep.ite (ih n') (AgreesAt.pure ())

theorem loop_agrees (hstep : Agrees .any f f' step step') :
    Agrees foot f f' (loop step) (loop step') :=
  fun s s' halike hkind hs => loopWithin_agrees hstep _ _ s s' halike hkind hs.lift

/-- A loop whose step takes the current token in takes it in. -/
theorem OpensAt.loop (hopens : OpensAt wanted step step')
    (hstep : ∀ f f', Agrees .any f f' step step') : OpensAt wanted (loop step) (loop step') := by
  intro s s' halike hkind hs b u b' u' hrun hrun'
  have hrun : (step >>= fun a => if a then loopWithin s.ahead.length step else pure ()).run s
      = some (b, u) := hrun
  have hrun' : (step' >>= fun a => if a then loopWithin s'.ahead.length step' else pure ()).run s'
      = some (b', u') := hrun'
  refine OpensAt.bind hopens (fun a f f' => ?_) s s' halike hkind hs b u b' u' hrun hrun'
  cases a with
  | true => exact (loopWithin_agrees (hstep f f') _ _).lift
  | false => exact AgreesAt.pure ()

theorem separatedWithin_agrees (hstep : Agrees .any f f' step step') (n n' : Nat) :
    Agrees .any f f' (separatedWithin n kind step) (separatedWithin n' kind step') := by
  induction n generalizing n' with
  | zero =>
    intro s s' _ _ _ a t a' t' hrun _
    cases hrun
  | succ n ih =>
    cases n' with
    | zero =>
      intro s s' _ _ _ a t a' t' _ hrun'
      cases hrun'
    | succ n' =>
      refine hstep.ite ?_ (AgreesAt.pure false)
      exact takeIf_agrees.ite (ih n') (AgreesAt.pure true)

theorem separated_agrees (hstep : Agrees .any f f' step step') :
    Agrees foot f f' (separated kind step) (separated kind step') :=
  fun s s' halike hkind hs => separatedWithin_agrees hstep _ _ s s' halike hkind hs.lift

end

/-! ## Progress -/

/-- Whether a token was read can be seen from the number of those that are left. -/
theorem unread_length_eq_iff {s t : State} (ht : Evolves f s t) (hs : s.Sane)
    (htoken : t.token?.isSome) : t.unread.length = s.unread.length ↔ t.weight = s.weight := by
  rcases ht.reads hs with ⟨hweight, hlength⟩ | ⟨hsame, hunread⟩
  · refine iff_of_false (fun hunread => ?_) hweight.ne
    have hahead {s : State} (h : s.token?.isSome) : s.ahead.length = s.unread.length + 1 := by
      obtain ⟨token, htoken⟩ := Option.isSome_iff_exists.1 h
      exact State.length_ahead_of_some htoken
    have hs' : s.token?.isSome := by
      cases hnone : s.token? with
      | none =>
        rw [State.ahead, State.ahead, hnone, hs.ended hnone] at hlength
        cases hlength
      | some token => rfl
    rw [hahead htoken, hahead hs', hunread] at hlength
    exact Nat.lt_irrefl _ hlength
  · rw [State.weight, State.weight, State.ahead, State.ahead, hsame, hunread]
    exact iff_of_true rfl rfl

/-- Where no token is left, nothing is taken in. -/
theorem eq_of_takeUnexpected {c : Prop} [Decidable c] {t u : State} {b : Unit}
    (hnone : t.token? = none)
    (h : (if c then takeUnexpected else pure ()).run t = some (b, u)) : u = t := by
  split at h
  · rw [← (Prod.mk.inj (Option.some.inj h)).2]
    exact State.take_of_none hnone _
  · exact (run_pure_eq_some.1 h).2

theorem progress_agrees {p p' : Parser Unit} (hp : Agrees .any f f' p p') :
    Agrees foot f f' (progress p) (progress p') := by
  intro s s' halike hkind hs b u b' u' hrun hrun'
  have hrun : (p >>= fun _ => (do
      if (← get).unread.length = s.unread.length then takeUnexpected)).run s = some (b, u) := hrun
  have hrun' : (p' >>= fun _ => (do
      if (← get).unread.length = s'.unread.length
        then takeUnexpected)).run s' = some (b', u') := hrun'
  obtain ⟨_, t, hpt, hgu⟩ := run_bind_eq_some.1 hrun
  obtain ⟨_, t', hpt', hgu'⟩ := run_bind_eq_some.1 hrun'
  obtain ⟨-, ht⟩ := hp s s' halike hkind hs.lift _ t _ t' hpt hpt'
  have hgu : (if t.unread.length = s.unread.length then takeUnexpected else pure ()).run t
      = some (b, u) := hgu
  have hgu' : (if t'.unread.length = s'.unread.length then takeUnexpected else pure ()).run t'
      = some (b', u') := hgu'
  refine ⟨rfl, ht.trans ?_⟩
  cases htoken : t.token? with
  | none =>
    -- there is nothing to take in
    rw [eq_of_takeUnexpected htoken hgu, eq_of_takeUnexpected (ht.alike.token.trans htoken) hgu']
    exact .refl ht.alike
  | some token =>
    have hsome : t.token?.isSome := by rw [htoken]; rfl
    have hsome' : t'.token?.isSome := by rw [ht.alike.token]; exact hsome
    have hiff := unread_length_eq_iff ht.evolves halike.sane hsome
    have hiff' := unread_length_eq_iff ht.evolves' halike.sane' hsome'
    rw [ht.alike.weight_eq, halike.weight_eq, ← hiff] at hiff'
    have hfaces := hs.lift.evolves halike (by decide) ht
    by_cases hread : t.unread.length = s.unread.length
    · rw [if_pos hread] at hgu
      rw [if_pos (hiff'.2 hread)] at hgu'
      exact (takeUnexpected_agrees t t' ht.alike trivial hfaces b u b' u' hgu hgu').2
    · rw [if_neg hread] at hgu
      rw [if_neg (mt hiff'.1 hread)] at hgu'
      rw [(run_pure_eq_some.1 hgu).2, (run_pure_eq_some.1 hgu').2]
      exact .refl ht.alike

theorem bracedItem_agrees {p p' : Parser Unit} (hp : Agrees .any f f' p p') :
    Agrees foot f f' (bracedItem p) (bracedItem p') := by
  refine AgreesAt.lift (InStep.isAtEither_ite (AgreesAt.pure false) (AgreesAt.pure false) ?_)
  exact (progress_agrees hp).bind fun _ => AgreesAt.pure true

theorem itemsUpToBrace_agrees {p p' : Parser Unit} (hp : Agrees .any f f' p p') :
    Agrees foot f f' (itemsUpToBrace p) (itemsUpToBrace p') :=
  AgreesAt.lift ((loop_agrees (bracedItem_agrees hp)).bind fun _ => expect_agrees.discard)

end StatementCompletion.Grammar
