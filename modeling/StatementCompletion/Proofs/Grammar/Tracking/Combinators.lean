import StatementCompletion.Proofs.Grammar.Tracking
import StatementCompletion.Proofs.Grammar.Truncation.Combinators

/-!
# The combinators on both sides

One lemma for every combinator that the rules of the grammar are written with.  The loops of the two
sides have bounds of their own, and each is shown by induction on both bounds: a loop that has a
result has not run into its bound.
-/

namespace StatementCompletion.Grammar

variable {α β : Type} {C : Coupling} {fails : State → Prop} {wanted : Kind → Prop} {kind : Kind}
  {p p' : Parser α} {m m' : Nat}

/-! ## Optional parts -/

/-- A token that may be there. -/
theorem Tracks.takeIf [C.Lasts fails] (htake : Tracks C fails (· = kind) take take) :
    Tracks C fails wanted (takeIf kind) (takeIf kind) :=
  .isAt_ite (htake.bind fun _ => .pure true) (.pure false)

theorem Tracks.expect [C.Lasts fails] (htake : Tracks C fails (· = kind) take take) :
    Tracks C fails wanted (expect kind) (expect kind) :=
  .isAt_ite (htake.bind fun _ => .pure true) ((missing_tracks _).bind fun _ => .pure false)

/-- A token whose being there is known behind the question. -/
theorem Tracks.takeIf_bind {g g' : Bool → Parser β}
    (htrue : Tracks C fails (· = kind) (take >>= fun _ => g true) (take >>= fun _ => g' true))
    (hfalse : Tracks C fails (fun k => wanted k ∧ k ≠ kind) (g false) (g' false)) :
    Tracks C fails wanted (Grammar.takeIf kind >>= g) (Grammar.takeIf kind >>= g') := by
  have hrun (g : Bool → Parser β) :
      Grammar.takeIf kind >>= g =
        (do if ← isAt kind then take >>= fun _ => g true else g false) := by
    simp only [Grammar.takeIf, bind_assoc]
    congr 1
    funext b
    cases b <;> simp
  rw [hrun g, hrun g']
  exact .isAt_ite htrue hfalse

theorem take_common (h : isCommon kind = true) : Tracks C fails (· = kind) take take :=
  take_tracks (by rintro _ rfl; exact h)

theorem take_closer (h : isGuardKeyword kind = false) : Mirrors C (· = kind) take take :=
  take_mirrors (by rintro _ rfl; exact h)

theorem takeIf_common [C.Lasts fails] (h : isCommon kind = true) :
    Tracks C fails wanted (takeIf kind) (takeIf kind) :=
  .takeIf (take_common h)

theorem takeIf_closer (h : isGuardKeyword kind = false) :
    Mirrors C wanted (takeIf kind) (takeIf kind) :=
  .takeIf (take_closer h)

theorem expect_common [C.Lasts fails] (h : isCommon kind = true) :
    Tracks C fails wanted (expect kind) (expect kind) :=
  .expect (take_common h)

theorem expect_closer (h : isGuardKeyword kind = false) :
    Mirrors C wanted (expect kind) (expect kind) :=
  .expect (take_closer h)

theorem whenAt_tracks {p p' : Parser Unit} (hp : Tracks C fails (· = kind) p p') :
    Tracks C fails wanted (whenAt kind p) (whenAt kind p') :=
  .isAt_ite hp (.pure ())

theorem unlessAt_tracks {p p' : Parser Unit}
    (hp : Tracks C fails (fun k => wanted k ∧ k ≠ kind) p p') :
    Tracks C fails wanted (unlessAt kind p) (unlessAt kind p') :=
  .isAt_bind (.pure ()) hp

theorem whenAtAny_tracks {is : Kind → Bool} {p p' : Parser Unit}
    (hp : Tracks C fails (is · = true) p p') :
    Tracks C fails wanted (whenAtAny is p) (whenAtAny is p') :=
  .isAtAny_ite hp (.pure ())

theorem whenTaken_tracks [C.Lasts fails] {p p' : Parser Unit} (h : isCommon kind = true)
    (hp : Tracks C fails anywhere p p') :
    Tracks C fails wanted (whenTaken kind p) (whenTaken kind p') :=
  (takeIf_common h).ite hp (.pure ())

theorem orMissing_tracks [C.Lasts fails] {p p' : Parser Bool} (missed : Wanted)
    (hp : Tracks C fails wanted p p') :
    Tracks C fails wanted (orMissing p missed) (orMissing p' missed) := by
  refine hp.bind fun a => ?_
  cases a with
  | true => exact .pure ()
  | false => exact missing_tracks missed

/-- A token that closes nothing and is no keyword of these statements leads on to coupled states. -/
theorem Coupling.take_common {s s' : State} (hs : C.Rel s s') (hkind : isCommon s.current = true) :
    C.Rel (s.take Token.node) (s'.take Token.node) := by
  have htake : Stays C (isCommon · = true) Grammar.take Grammar.take := take_tracks fun _ h => h
  exact ((htake.step hs hkind rfl rfl).resolve_left id).2

/-- A token that is taken in if another one is behind it. -/
theorem takeBefore_tracks {behind : Kind} {q q' r r' : Parser β} (hcommon : isCommon kind = true)
    (hsome : kind ≠ .endOfFile) (hq : Tracks C fails (· = behind) q q')
    (hr : Tracks C fails wanted r r') : Tracks C fails wanted
      (do if (← isAt kind) && (← peek) = behind then (do take; q) else r)
      (do if (← isAt kind) && (← peek) = behind then (do take; q') else r') := by
  have hrun (q r : Parser β) (s : State) :
      (do if (← isAt kind) && (← peek) = behind then (do take; q) else r : Parser β).run s
        = if s.current = kind ∧ s.next.current = behind then q.run (s.take Token.node)
          else r.run s := by
    show StateT.run (if (decide (s.current = kind) && decide (s.next.current = behind)) = true then
      (do take; q) else r) s = _
    by_cases h : s.current = kind ∧ s.next.current = behind
    · rw [if_pos h, if_pos (by simpa using h)]
      rfl
    · rw [if_neg h, if_neg (by simpa using h)]
  have hbehind {s : State} (h : s.current = kind ∧ s.next.current = behind) :
      (s.take Token.node).current = behind := by
    rw [State.current_take (State.isSome_of_current (h.1 ▸ hsome)), h.2]
  constructor
  · intro s a t hs hbase hkind ht
    rw [hrun] at ht
    split at ht
    · next h =>
      have htake : Grows C.base s (s.take Token.node) := Grows.refl.take (.inl rfl)
      obtain ⟨hfair, hgrows⟩ := hq.grows (hs.take (.inl rfl)) (htake.floor_le_solid hbase)
        (hbehind h) ht
      exact ⟨hfair, htake.trans hgrows⟩
    · exact hr.grows hs hbase hkind ht
  · intro s s' a t a' t' hs hkind ht ht'
    rw [hrun] at ht ht'
    rw [Coupling.current_eq hs] at ht'
    by_cases h : s.current = kind
    · have hshared : isCommon s.current = true := h ▸ hcommon
      -- behind a common token both sides have the same one
      rw [(C.next hs hshared).1] at ht'
      split at ht
      · next hboth =>
        rw [if_pos hboth] at ht'
        exact hq.step (Coupling.take_common hs hshared) (hbehind hboth) ht ht'
      · next hboth =>
        rw [if_neg hboth] at ht'
        exact hr.step hs hkind ht ht'
    · rw [if_neg fun hboth => h hboth.1] at ht ht'
      exact hr.step hs hkind ht ht'

/-! ## Reading ahead -/

/-- A parser that leaves the state as it is. -/
def Leaves (p : Parser α) : Prop :=
  ∀ {s a t}, s.Fair → p.run s = some (a, t) → t = s

/-- What reads in step with itself leaves the state as it is. -/
theorem ReadsAt.leaves (h : ReadsAt anywhere p p) : Leaves p :=
  fun hs hrun => (h _ _ hs.alike trivial trivial _ _ _ _ hrun hrun).2.1

theorem lookAhead_tracks (hp : Stays C wanted p p') (hleaves : Leaves (lookAhead p))
    (hleaves' : Leaves (lookAhead p')) : Stays C wanted (lookAhead p) (lookAhead p') where
  grows hs _ _ hrun := by
    rw [hleaves hs hrun]
    exact ⟨hs, .refl⟩
  step hs hkind hrun hrun' := by
    obtain ⟨hfair, hfair'⟩ := C.fair hs
    rw [hleaves hfair hrun, hleaves' hfair' hrun']
    obtain ⟨u, hpu, -⟩ := run_lookAhead_eq_some hrun
    obtain ⟨u', hpu', -⟩ := run_lookAhead_eq_some hrun'
    exact (hp.step hs hkind hpu hpu').imp_right fun h => ⟨h.1, hs⟩

theorem attempt_tracks {p p' : Parser Bool} (hp : Stays C wanted p p') (hopens : OpensAt wanted p p)
    (hopens' : OpensAt wanted p' p') : Stays C wanted (attempt p) (attempt p') where
  grows {s b t} hs hbase hkind hrun := by
    obtain ⟨a, u, hpu, rfl⟩ := run_attempt_eq_some hrun
    obtain ⟨-, hu⟩ := hopens s s hs.alike hkind trivial a u a u hpu hpu
    rw [hu.opens.rollBack_eq hs.sane]
    split
    · exact hp.grows hs hbase hkind hpu
    · exact ⟨hs, .refl⟩
  step {s s' b t b' t'} hs hkind hrun hrun' := by
    obtain ⟨hfair, hfair'⟩ := C.fair hs
    have hkind' : wanted s'.current := by rwa [Coupling.current_eq hs]
    obtain ⟨a, u, hpu, rfl⟩ := run_attempt_eq_some hrun
    obtain ⟨a', u', hpu', rfl⟩ := run_attempt_eq_some hrun'
    obtain ⟨-, hu⟩ := hopens s s hfair.alike hkind trivial a u a u hpu hpu
    obtain ⟨-, hu'⟩ := hopens' s' s' hfair'.alike hkind' trivial a' u' a' u' hpu' hpu'
    rw [hu.opens.rollBack_eq hfair.sane, hu'.opens.rollBack_eq hfair'.sane]
    rcases hp.step hs hkind hpu hpu' with hnever | ⟨rfl, hrel⟩
    · exact hnever.elim
    · refine .inr ⟨rfl, ?_⟩
      cases a' with
      | true => exact hrel
      | false => exact hs

/-! ## Loops -/

/-- A parser without a result goes with any other. -/
theorem Tracks.of_failure_left : Tracks C fails wanted (failure : Parser α) p' :=
  ⟨fun _ _ _ hrun => (Option.some_ne_none _ hrun.symm).elim,
    fun _ _ hrun => (Option.some_ne_none _ hrun.symm).elim⟩

theorem Tracks.of_failure_right (hp : Tracks C fails wanted p p') :
    Tracks C fails wanted p failure :=
  ⟨hp.grows, fun _ _ _ hrun' => (Option.some_ne_none _ hrun'.symm).elim⟩

section

variable [C.Lasts fails] {step step' : Parser Bool}

theorem loopWithin_tracks (hstep : Tracks C fails anywhere step step') (n n' : Nat) :
    Tracks C fails anywhere (loopWithin n step) (loopWithin n' step') := by
  induction n generalizing n' with
  | zero => exact .of_failure_left
  | succ n ih =>
    have hturn (n' : Nat) :
        Tracks C fails anywhere (loopWithin (n + 1) step) (loopWithin (n' + 1) step') :=
      hstep.ite (ih n') (.pure ())
    cases n' with
    | zero => exact (hturn 0).of_failure_right
    | succ n' => exact hturn n'

theorem loop_tracks (hstep : Tracks C fails anywhere step step') :
    Tracks C fails wanted (loop step) (loop step') :=
  ⟨fun hs hbase _ hrun => (loopWithin_tracks hstep _ 0).grows hs hbase trivial hrun,
    fun hs _ hrun hrun' => (loopWithin_tracks hstep _ _).step hs trivial hrun hrun'⟩

theorem separatedWithin_tracks (hkind : isCommon kind = true)
    (hstep : Tracks C fails anywhere step step') (n n' : Nat) :
    Tracks C fails anywhere (separatedWithin n kind step) (separatedWithin n' kind step') := by
  induction n generalizing n' with
  | zero => exact .of_failure_left
  | succ n ih =>
    have hturn (n' : Nat) : Tracks C fails anywhere (separatedWithin (n + 1) kind step)
        (separatedWithin (n' + 1) kind step') :=
      hstep.ite ((takeIf_common hkind).ite (ih n') (.pure true)) (.pure false)
    cases n' with
    | zero => exact (hturn 0).of_failure_right
    | succ n' => exact hturn n'

theorem separated_tracks (hkind : isCommon kind = true)
    (hstep : Tracks C fails anywhere step step') :
    Tracks C fails wanted (separated kind step) (separated kind step') :=
  ⟨fun hs hbase _ hrun => (separatedWithin_tracks hkind hstep _ 0).grows hs hbase trivial hrun,
    fun hs _ hrun hrun' => (separatedWithin_tracks hkind hstep _ _).step hs trivial hrun hrun'⟩

end

/-! ## Progress -/

/-- A token that was not read is unexpected on both sides. -/
theorem progressEnd_step {s s' t t' u u' : State} {b b' : Unit} (hs : C.Rel s s') (ht : C.Rel t t')
    (hsome : s.current ≠ .endOfFile)
    (hrun : (if t.unread.length = s.unread.length then takeUnexpected else pure ()).run t
      = some (b, u))
    (hrun' : (if t'.unread.length = s'.unread.length then takeUnexpected else pure ()).run t'
      = some (b', u')) : C.Gone u ∨ C.Rel u u' := by
  cases htoken : t.token? with
  | none =>
    have hnone := C.token ht
    rw [htoken, Option.map_none, Option.map_eq_none_iff] at hnone
    rw [eq_of_takeUnexpected htoken hrun, eq_of_takeUnexpected hnone hrun']
    exact .inr ht
  | some token =>
    have hiff := C.unread hs ht (State.isSome_of_current hsome) (by rw [htoken]; rfl)
    by_cases hread : t.unread.length = s.unread.length
    · rw [if_pos hread] at hrun
      rw [if_pos (hiff.2 hread)] at hrun'
      have htake : Mirrors C anywhere takeUnexpected takeUnexpected := takeUnexpected_mirrors
      exact (htake.step ht trivial hrun hrun').imp_right fun h => h.2
    · rw [if_neg hread] at hrun
      rw [if_neg (mt hiff.1 hread)] at hrun'
      rw [(run_pure_eq_some.1 hrun).2, (run_pure_eq_some.1 hrun').2]
      exact .inr ht

/-! ## Items -/

/-- Like `Mirrors`, but the first run may also come to a state from which it will be gone, with not
more tokens ahead than there were, or with fewer if it is not late. -/
structure Sways (C : Coupling) (doomed : State → Prop) (late : Nat) (pre : State → Prop)
    (p p' : Parser α) : Prop where
  grows : ∀ {s a t}, s.Fair → C.base ≤ s.solid → pre s → p.run s = some (a, t) →
    t.Fair ∧ Grows C.base s t
  step : ∀ {s s' a t a' t'}, C.Rel s s' → pre s → p.run s = some (a, t) →
    p'.run s' = some (a', t') →
      C.Gone t ∨ doomed t ∧ t.ahead.length < s.ahead.length + late ∨ a' = a ∧ C.Rel t t'

/-- Any state. -/
abbrev always : State → Prop :=
  fun _ => True

/-- A parser by which a state that is doomed is gone. -/
structure Dooms (C : Coupling) (doomed : State → Prop) (p : Parser α) : Prop where
  gone : ∀ {s a t}, s.Fair → C.base ≤ s.solid → doomed s → p.run s = some (a, t) → C.Gone t

theorem Tracks.sways {doomed pre : State → Prop} {late : Nat} (h : Mirrors C anywhere p p') :
    Sways C doomed late pre p p' :=
  ⟨fun hs hbase _ hrun => h.grows hs hbase trivial hrun,
    fun hs _ hrun hrun' => (h.step hs trivial hrun hrun').imp_right .inr⟩

/-- A parser by which a state that is doomed is gone or goes on to be doomed. -/
structure Bears (C : Coupling) (doomed : State → Prop) (p : Parser α) : Prop where
  grows : ∀ {s a t}, s.Fair → C.base ≤ s.solid → p.run s = some (a, t) → t.Fair ∧ Grows C.base s t
  step : ∀ {s a t}, s.Fair → C.base ≤ s.solid → doomed s → p.run s = some (a, t) →
    C.Gone t ∨ doomed t

section

variable {doomed pre pre' mid : State → Prop} {late : Nat} {g g' : α → Parser β}

namespace Sways

theorem mono (h : Sways C doomed late pre p p') (hpre : ∀ s, pre' s → pre s) :
    Sways C doomed late pre' p p' :=
  ⟨fun hs hbase hds => h.grows hs hbase (hpre _ hds), fun hs hds => h.step hs (hpre _ hds)⟩

theorem relax (h : Sways C doomed 0 pre p p') : Sways C doomed late pre p p' := by
  refine ⟨h.grows, fun hs hds hrun hrun' => (h.step hs hds hrun hrun').imp_right (.imp_left ?_)⟩
  exact fun ⟨ht, hlt⟩ => ⟨ht, hlt.trans_le (Nat.le_add_right _ _)⟩

theorem discard (h : Sways C doomed late pre p p') :
    Sways C doomed late pre (discard p) (discard p') where
  grows hs hbase hds hrun := by
    obtain ⟨b, hb⟩ := run_discard_eq_some.1 hrun
    exact h.grows hs hbase hds hb
  step hs hds hrun hrun' := by
    obtain ⟨b, hb⟩ := run_discard_eq_some.1 hrun
    obtain ⟨b', hb'⟩ := run_discard_eq_some.1 hrun'
    exact (h.step hs hds hb hb').imp_right (.imp_right fun h => ⟨rfl, h.2⟩)

/-- What goes by the kind of the current token. -/
theorem cases {q q' r r' : Parser α} (is : Kind → Bool)
    (hp : ∀ s, p.run s = if is s.current then q.run s else r.run s)
    (hp' : ∀ s, p'.run s = if is s.current then q'.run s else r'.run s)
    (hq : Sways C doomed late (fun s => pre s ∧ is s.current = true) q q')
    (hr : Sways C doomed late (fun s => pre s ∧ is s.current = false) r r') :
    Sways C doomed late pre p p' where
  grows {s a t} hs hbase hds hrun := by
    rw [hp s] at hrun
    split at hrun
    · next his => exact hq.grows hs hbase ⟨hds, his⟩ hrun
    · next his => exact hr.grows hs hbase ⟨hds, Bool.eq_false_iff.2 his⟩ hrun
  step {s s' a t a' t'} hs hds hrun hrun' := by
    rw [hp s] at hrun
    rw [hp' s', Coupling.current_eq hs] at hrun'
    split at hrun
    · next his =>
      rw [if_pos his] at hrun'
      exact hq.step hs ⟨hds, his⟩ hrun hrun'
    · next his =>
      rw [if_neg his] at hrun'
      exact hr.step hs ⟨hds, Bool.eq_false_iff.2 his⟩ hrun hrun'

/-- What follows has to bear a state that is doomed. -/
theorem bindTo (hp : Sways C doomed late pre p p')
    (hmid : ∀ {s a t}, s.Fair → pre s → p.run s = some (a, t) → mid t)
    (hg : ∀ a, Sways C doomed late mid (g a) (g' a)) (hbears : ∀ a, Bears C doomed (g a)) :
    Sways C doomed late pre (p >>= g) (p' >>= g') where
  grows hs hbase hds hrun := by
    obtain ⟨a, t, hpt, hgu⟩ := run_bind_eq_some.1 hrun
    obtain ⟨ht, hst⟩ := hp.grows hs hbase hds hpt
    obtain ⟨hu, htu⟩ := (hg a).grows ht (hst.floor_le_solid hbase) (hmid hs hds hpt) hgu
    exact ⟨hu, hst.trans htu⟩
  step hs hds hrun hrun' := by
    obtain ⟨a, t, hpt, hgu⟩ := run_bind_eq_some.1 hrun
    obtain ⟨a', t', hpt', hgu'⟩ := run_bind_eq_some.1 hrun'
    obtain ⟨ht, hst⟩ := hp.grows (C.fair hs).1 (C.solid hs) hds hpt
    have hbase := hst.floor_le_solid (C.solid hs)
    have hdt := hmid (C.fair hs).1 hds hpt
    obtain ⟨-, htu⟩ := (hg a).grows ht hbase hdt hgu
    rcases hp.step hs hds hpt hpt' with hgone | ⟨hdoomed, hlt⟩ | ⟨rfl, hrel⟩
    · exact .inl (hgone.grows ht htu)
    · refine ((hbears a).step ht hbase hdoomed hgu).imp_right fun hu => .inl ⟨hu, ?_⟩
      exact htu.length_ahead_le.trans_lt hlt
    · refine ((hg a').step hrel hdt hgu hgu').imp_right (.imp_left fun ⟨hu, hlt⟩ => ⟨hu, ?_⟩)
      exact hlt.trans_le (Nat.add_le_add_right hst.length_ahead_le late)

theorem bind (hp : Sways C doomed late pre p p')
    (hg : ∀ a, Sways C doomed late always (g a) (g' a)) (hbears : ∀ a, Bears C doomed (g a)) :
    Sways C doomed late pre (p >>= g) (p' >>= g') :=
  hp.bindTo (fun _ _ _ => trivial) hg hbears

/-- A keyword that leads on to coupled states, and what follows it. -/
theorem take_bind (mid : State → Prop) {q q' : Parser β}
    (hpre : ∀ s, pre s → ¬ C.Held s ∧ isCloser s.current = false ∧ s.token?.isSome)
    (hmid : ∀ s, pre s → mid (s.take Token.node)) (hq : Sways C doomed 1 mid q q') :
    Sways C doomed 0 pre (take >>= fun _ => q) (take >>= fun _ => q') where
  grows {s a t} hs hbase hds hrun := by
    have hrun : q.run (s.take Token.node) = some (a, t) := hrun
    have htake : Grows C.base s (s.take Token.node) := Grows.refl.take (.inl rfl)
    obtain ⟨ht, hst⟩ := hq.grows (hs.take (.inl rfl)) (htake.floor_le_solid hbase) (hmid s hds) hrun
    exact ⟨ht, htake.trans hst⟩
  step {s s' a t a' t'} hs hds hrun hrun' := by
    have hrun : q.run (s.take Token.node) = some (a, t) := hrun
    have hrun' : q'.run (s'.take Token.node) = some (a', t') := hrun'
    obtain ⟨hheld, hcloser, hsome⟩ := hpre s hds
    rcases C.take hs hheld (.inl rfl) with hrel | ⟨hclosing, -⟩
    · refine (hq.step hrel (hmid s hds) hrun hrun').imp_right (.imp_left fun ⟨ht, hlt⟩ => ⟨ht, ?_⟩)
      exact (Nat.lt_succ_iff.1 hlt).trans_lt (State.ahead_take_lt hsome _)
    · exact absurd (hcloser.symm.trans hclosing) Bool.false_ne_true

end Sways

/-- What follows a parser that keeps to coupled states. -/
theorem Tracks.bindSwaysTo (mid : State → Prop) (hp : Mirrors C wanted p p')
    (hmid : ∀ {s a t}, s.Fair → pre s → p.run s = some (a, t) → mid t)
    (hpre : ∀ s, pre s → wanted s.current) (hg : ∀ a, Sways C doomed late mid (g a) (g' a)) :
    Sways C doomed late pre (p >>= g) (p' >>= g') where
  grows hs hbase hds hrun := by
    obtain ⟨a, t, hpt, hgu⟩ := run_bind_eq_some.1 hrun
    obtain ⟨ht, hst⟩ := hp.grows hs hbase (hpre _ hds) hpt
    obtain ⟨hu, htu⟩ := (hg a).grows ht (hst.floor_le_solid hbase) (hmid hs hds hpt) hgu
    exact ⟨hu, hst.trans htu⟩
  step hs hds hrun hrun' := by
    obtain ⟨a, t, hpt, hgu⟩ := run_bind_eq_some.1 hrun
    obtain ⟨a', t', hpt', hgu'⟩ := run_bind_eq_some.1 hrun'
    obtain ⟨ht, hst⟩ := hp.grows (C.fair hs).1 (C.solid hs) (hpre _ hds) hpt
    have hdt := hmid (C.fair hs).1 hds hpt
    rcases hp.step hs (hpre _ hds) hpt hpt' with hgone | ⟨rfl, hrel⟩
    · exact .inl (hgone.grows ht ((hg a).grows ht (hst.floor_le_solid (C.solid hs)) hdt hgu).2)
    · refine ((hg a').step hrel hdt hgu hgu').imp_right (.imp_left fun ⟨hu, hlt⟩ => ⟨hu, ?_⟩)
      exact hlt.trans_le (Nat.add_le_add_right hst.length_ahead_le late)

theorem Tracks.bindSways (hp : Mirrors C anywhere p p')
    (hg : ∀ a, Sways C doomed late always (g a) (g' a)) :
    Sways C doomed late pre (p >>= g) (p' >>= g') :=
  hp.bindSwaysTo always (fun _ _ _ => trivial) (fun _ _ => trivial) hg

namespace Bears

theorem bind (hp : Bears C doomed p) (hg : ∀ a, Bears C doomed (g a)) :
    Bears C doomed (p >>= g) where
  grows hs hbase hrun := by
    obtain ⟨a, t, hpt, hgu⟩ := run_bind_eq_some.1 hrun
    obtain ⟨ht, hst⟩ := hp.grows hs hbase hpt
    obtain ⟨hu, htu⟩ := (hg a).grows ht (hst.floor_le_solid hbase) hgu
    exact ⟨hu, hst.trans htu⟩
  step hs hbase hds hrun := by
    obtain ⟨a, t, hpt, hgu⟩ := run_bind_eq_some.1 hrun
    obtain ⟨ht, hst⟩ := hp.grows hs hbase hpt
    have hbase' := hst.floor_le_solid hbase
    rcases hp.step hs hbase hds hpt with hgone | hdoomed
    · exact .inl (hgone.grows ht ((hg a).grows ht hbase' hgu).2)
    · exact (hg a).step ht hbase' hdoomed hgu

theorem pure (a : α) : Bears C doomed (pure a) where
  grows hs _ hrun := by
    rw [(run_pure_eq_some.1 hrun).2]
    exact ⟨hs, .refl⟩
  step _ _ hds hrun := by
    rw [(run_pure_eq_some.1 hrun).2]
    exact .inr hds

end Bears

/-- What dooms goes on to do so, whatever follows. -/
theorem Dooms.bind (hp : Dooms C doomed p) (hgrows : Mirrors C anywhere p p')
    (hg : ∀ a, Mirrors C anywhere (g a) (g' a)) : Dooms C doomed (p >>= g) := by
  refine ⟨fun hs hbase hds hrun => ?_⟩
  obtain ⟨a, t, hpt, hgu⟩ := run_bind_eq_some.1 hrun
  obtain ⟨ht, hst⟩ := hgrows.grows hs hbase trivial hpt
  exact (hp.gone hs hbase hds hpt).grows ht
    ((hg a).grows ht (hst.floor_le_solid hbase) trivial hgu).2

theorem Dooms.discard (hp : Dooms C doomed p) : Dooms C doomed (discard p) := by
  refine ⟨fun hs hbase hds hrun => ?_⟩
  obtain ⟨a, hpt⟩ := run_discard_eq_some.1 hrun
  exact hp.gone hs hbase hds hpt

end

/-- A parser that reads one item unless the current token's kind stops it. -/
def IsRound (stops : Kind → Bool) (item : Parser Unit) (round : Parser Bool) : Prop :=
  ∀ s, round.run s = if stops s.current then some (false, s) else
    (do progress item; return true).run s

/-- What stops items in braces. -/
def stopsBraced (kind : Kind) : Bool :=
  kind = .endOfFile || kind = .rightBrace

/-- What stops the items of a source. -/
def stopsItems (kind : Kind) : Bool :=
  kind = .endOfFile

theorem bracedItem_isRound (item : Parser Unit) : IsRound stopsBraced item (bracedItem item) :=
  fun s => by
    show (if (decide (s.current = .endOfFile) || decide (s.current = .rightBrace)) = true then
      (pure false : Parser Bool) else (do progress item; return true)).run s = _
    unfold stopsBraced
    split <;> rfl

theorem itemStep_isRound (item : Parser Unit) : IsRound stopsItems item (itemStep item) :=
  fun s => by
    show (if decide (s.current = .endOfFile) = true then
      (pure false : Parser Bool) else (do progress item; return true)).run s = _
    unfold stopsItems
    split <;> rfl

/-- The runs of an item with a token that it has not read. -/
theorem run_progress_iff_end {item : Parser Unit} {s u : State} {b : Unit}
    (h : (progress item).run s = some (b, u)) : ∃ t, item.run s = some ((), t)
      ∧ (if t.unread.length = s.unread.length then takeUnexpected else pure ()).run t
        = some (b, u) := by
  obtain ⟨_, t, hitem, hend⟩ := run_bind_eq_some.1 (show (item >>= fun _ => (do
    if (← get).unread.length = s.unread.length then takeUnexpected)).run s = some (b, u) from h)
  exact ⟨t, hitem, hend⟩

theorem takeUnexpected_grows {c : Prop} [Decidable c] {t u : State} {b : Unit} (ht : t.Fair)
    (h : (if c then takeUnexpected else pure ()).run t = some (b, u)) :
    u.Fair ∧ Grows C.base t u := by
  split at h
  · rw [← (Prod.mk.inj (Option.some.inj h)).2]
    exact ⟨ht.take (.inr rfl), Grows.refl.take (.inr rfl)⟩
  · rw [(run_pure_eq_some.1 h).2]
    exact ⟨ht, .refl⟩

section

variable {doomed : State → Prop} {stops : Kind → Bool} {item item' : Parser Unit}
  {round round' : Parser Bool}

/-- Fewer tokens are unread where fewer are ahead. -/
theorem unread_length_ne {s t : State} (hs : s.current ≠ .endOfFile) (ht : t.current ≠ .endOfFile)
    (hlt : t.ahead.length < s.ahead.length) : t.unread.length ≠ s.unread.length := by
  obtain ⟨token, htoken⟩ := Option.isSome_iff_exists.1 (State.isSome_of_current hs)
  obtain ⟨token', htoken'⟩ := Option.isSome_iff_exists.1 (State.isSome_of_current ht)
  rw [State.length_ahead_of_some htoken, State.length_ahead_of_some htoken'] at hlt
  omega

/-- What a round does on both sides, and what it does to a state that is doomed. -/
structure Rounds (C : Coupling) (doomed : State → Prop) (round round' : Parser Bool) : Prop where
  grows : ∀ {s a t}, s.Fair → C.base ≤ s.solid → round.run s = some (a, t) →
    t.Fair ∧ Grows C.base s t
  step : ∀ {s s' a t a' t'}, C.Rel s s' → round.run s = some (a, t) →
    round'.run s' = some (a', t') →
    C.Gone t ∨ a = true ∧ doomed t ∨ a' = a ∧ C.Rel t t'
  dooms : Dooms C doomed round

namespace IsRound

/-- What a round does: nothing where it is stopped, or else an item, and the
token there if that took none. -/
theorem run_cases (h : IsRound stops item round) {s t : State} {a : Bool}
    (hrun : round.run s = some (a, t)) :
    stops s.current = true ∧ a = false ∧ t = s
      ∨ stops s.current = false ∧ a = true ∧ ∃ v, item.run s = some ((), v)
        ∧ (if v.unread.length = s.unread.length then takeUnexpected else pure ()).run v =
          some ((), t) := by
  rw [h s] at hrun
  split at hrun
  · next hstop =>
    obtain ⟨rfl, rfl⟩ := Prod.mk.inj (Option.some.inj hrun)
    exact .inl ⟨hstop, rfl, rfl⟩
  · next hstop =>
    obtain ⟨_, u, hprogress, hanswer⟩ := run_bind_eq_some.1 hrun
    obtain ⟨rfl, rfl⟩ := run_pure_eq_some.1 hanswer
    obtain ⟨v, hitem, hunexpected⟩ := run_progress_iff_end hprogress
    exact .inr ⟨Bool.eq_false_iff.2 hstop, rfl, v, hitem, hunexpected⟩

/-- A round makes the same steps on both sides, until the first side is gone or doomed. -/
theorem step (h : IsRound stops item round) (h' : IsRound stops item' round')
    (hend : stops .endOfFile = true)
    (hitem : Sways C doomed 0 always item item')
    (hdoomed : ∀ {s}, doomed s → stops s.current = false)
    {s s' t t' : State} {a a' : Bool} (hs : C.Rel s s') (hrun : round.run s = some (a, t))
    (hrun' : round'.run s' = some (a', t')) :
    C.Gone t ∨ a = true ∧ doomed t ∨ a' = a ∧ C.Rel t t' := by
  have hnot {s : State} (hs : stops s.current = false) : s.current ≠ .endOfFile := by
    intro heq
    rw [heq, hend] at hs
    cases hs
  rcases h.run_cases hrun with ⟨hstop, rfl, rfl⟩ | ⟨hgoes, rfl, v, hv, hunexpected⟩
    <;> rcases h'.run_cases hrun' with ⟨hstop', rfl, rfl⟩ | ⟨hgoes', rfl, v', hv', hunexpected'⟩
  · exact .inr (.inr ⟨rfl, hs⟩)
  · rw [Coupling.current_eq hs, hstop] at hgoes'
    cases hgoes'
  · rw [Coupling.current_eq hs, hgoes] at hstop'
    cases hstop'
  · rcases hitem.step hs trivial hv hv' with hgone | ⟨hdoom, hlt⟩ | ⟨-, hrel⟩
    · obtain ⟨hfair, -⟩ := hitem.grows (C.fair hs).1 (C.solid hs) trivial hv
      exact .inl (hgone.grows hfair (takeUnexpected_grows hfair hunexpected).2)
    · -- an item behind which the state is doomed has taken a token
      rw [if_neg (unread_length_ne (hnot hgoes) (hnot (hdoomed hdoom)) hlt)] at hunexpected
      rw [(run_pure_eq_some.1 hunexpected).2]
      exact .inr (.inl ⟨rfl, hdoom⟩)
    · rcases progressEnd_step hs hrel (hnot hgoes) hunexpected hunexpected' with hgone | hrel
      · exact .inl hgone
      · exact .inr (.inr ⟨rfl, hrel⟩)

theorem rounds (h : IsRound stops item round) (h' : IsRound stops item' round')
    (hend : stops .endOfFile = true) (hitem : Sways C doomed 0 always item item')
    (hdooms : Dooms C doomed item) (hdoomed : ∀ {s}, doomed s → stops s.current = false) :
    Rounds C doomed round round' where
  grows := by
    intro s a t hs hbase hrun
    rcases h.run_cases hrun with ⟨-, -, rfl⟩ | ⟨-, -, v, hitemRun, hunexpected⟩
    · exact ⟨hs, .refl⟩
    · obtain ⟨hv, hsv⟩ := hitem.grows hs hbase trivial hitemRun
      obtain ⟨ht, hvt⟩ := takeUnexpected_grows hv hunexpected
      exact ⟨ht, hsv.trans hvt⟩
  step := h.step h' hend hitem hdoomed
  dooms := by
    refine ⟨fun {s a t} hs hbase hds hrun => ?_⟩
    rcases h.run_cases hrun with ⟨hstop, -, -⟩ | ⟨-, -, v, hitemRun, hunexpected⟩
    · rw [hdoomed hds] at hstop
      cases hstop
    · obtain ⟨hv, -⟩ := hitem.grows hs hbase trivial hitemRun
      exact (hdooms.gone hs hbase hds hitemRun).grows hv (takeUnexpected_grows hv hunexpected).2

end IsRound

namespace Rounds

theorem loopWithin_grows (h : Rounds C doomed round round') (n : Nat) {s t : State} {b : Unit}
    (hs : s.Fair) (hbase : C.base ≤ s.solid) (hrun : (loopWithin n round).run s = some (b, t)) :
    t.Fair ∧ Grows C.base s t := by
  induction n generalizing s with
  | zero => cases hrun
  | succ n ih =>
    obtain ⟨a, u, hround, hrest⟩ := run_bind_eq_some.1 hrun
    obtain ⟨hu, hsu⟩ := h.grows hs hbase hround
    cases a with
    | true =>
      obtain ⟨ht, hut⟩ := ih hu (hsu.floor_le_solid hbase) hrest
      exact ⟨ht, hsu.trans hut⟩
    | false =>
      rw [(run_pure_eq_some.1 hrest).2]
      exact ⟨hu, hsu⟩

/-- A state that is doomed is gone after one round. -/
theorem loopWithin_dooms (h : Rounds C doomed round round') (n : Nat) :
    Dooms C doomed (loopWithin n round) := by
  refine ⟨fun hs hbase hds hrun => ?_⟩
  cases n with
  | zero => cases hrun
  | succ n =>
    obtain ⟨a, u, hround, hrest⟩ := run_bind_eq_some.1 hrun
    obtain ⟨hu, hsu⟩ := h.grows hs hbase hround
    have hgone := h.dooms.gone hs hbase hds hround
    cases a with
    | true =>
      have hut := (h.loopWithin_grows n hu (hsu.floor_le_solid hbase) hrest).2
      exact hgone.grows hu hut
    | false =>
      rw [(run_pure_eq_some.1 hrest).2]
      exact hgone

theorem loopWithin_mirrors (h : Rounds C doomed round round') (n n' : Nat) :
    Mirrors C anywhere (loopWithin n round) (loopWithin n' round') := by
  refine ⟨fun hs hbase _ hrun => h.loopWithin_grows n hs hbase hrun, ?_⟩
  induction n generalizing n' with
  | zero => exact fun _ _ hrun => (Option.some_ne_none _ hrun.symm).elim
  | succ n ih =>
    cases n' with
    | zero => exact fun _ _ _ hrun' => (Option.some_ne_none _ hrun'.symm).elim
    | succ n' =>
      intro s s' b t b' t' hs _ hrun hrun'
      obtain ⟨a, u, hround, hrest⟩ := run_bind_eq_some.1 hrun
      obtain ⟨a', u', hround', hrest'⟩ := run_bind_eq_some.1 hrun'
      obtain ⟨hu, hsu⟩ := h.grows (C.fair hs).1 (C.solid hs) hround
      have hbase := hsu.floor_le_solid (C.solid hs)
      rcases h.step hs hround hround' with hgone | ⟨rfl, hdoomed⟩ | ⟨rfl, hrel⟩
      · left
        cases a with
        | true => exact hgone.grows hu (h.loopWithin_grows n hu hbase hrest).2
        | false =>
          rw [(run_pure_eq_some.1 hrest).2]
          exact hgone
      · exact .inl ((h.loopWithin_dooms n).gone hu hbase hdoomed hrest)
      · cases a' with
        | true => exact ih n' hrel trivial hrest hrest'
        | false =>
          rw [(run_pure_eq_some.1 hrest).2, (run_pure_eq_some.1 hrest').2]
          exact .inr ⟨rfl, hrel⟩

theorem loop_mirrors (h : Rounds C doomed round round') :
    Mirrors C wanted (loop round) (loop round') :=
  ⟨fun hs hbase _ hrun => h.loopWithin_grows _ hs hbase hrun,
    fun hs _ hrun hrun' => (h.loopWithin_mirrors _ _).step hs trivial hrun hrun'⟩

end Rounds

/-- Items up to a closing brace. -/
theorem bracedItems_mirrors (hitem : Sways C doomed 0 always item item')
    (hdooms : Dooms C doomed item) (hdoomed : ∀ {s}, doomed s → stopsBraced s.current = false) :
    Mirrors C wanted (loop (bracedItem item)) (loop (bracedItem item')) :=
  ((bracedItem_isRound item).rounds
    (bracedItem_isRound item') rfl hitem hdooms hdoomed).loop_mirrors

/-- Items in braces. -/
theorem itemsUpToBrace_mirrors (hitem : Sways C doomed 0 always item item')
    (hdooms : Dooms C doomed item) (hdoomed : ∀ {s}, doomed s → stopsBraced s.current = false) :
    Mirrors C wanted (itemsUpToBrace item) (itemsUpToBrace item') :=
  (bracedItems_mirrors hitem hdooms hdoomed).bind fun _ => (expect_closer rfl).discard

/-- Items up to the end. -/
theorem itemsUpToEnd_mirrors (hitem : Sways C doomed 0 always item item')
    (hdooms : Dooms C doomed item) (hdoomed : ∀ {s}, doomed s → stopsItems s.current = false) :
    Mirrors C wanted (itemsUpToEnd item) (itemsUpToEnd item') :=
  ((itemStep_isRound item).rounds (itemStep_isRound item') rfl hitem hdooms hdoomed).loop_mirrors

end

end StatementCompletion.Grammar
