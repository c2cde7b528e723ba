import StatementCompletion.Proofs.Grammar.Parses

/-!
# The promises of the combinators

One lemma for every primitive and combinator the rules of the grammar are written with.  None of
them looks into a rule; a rule's promise is put together from these lemmas line by line.
-/

namespace StatementCompletion.Grammar

variable {α β : Type} {kind : Kind} {place : Place} {n floor : Nat} {taken taken' : α → Prop}

/-! ## One parser after another -/

theorem Parses.pure {a : α} (h : ¬ taken a) : Parses place n floor taken (pure a) :=
  fun _ _ _ => Runs.pure ⟨.refl, fun htaken => absurd htaken h⟩

theorem Parses.bind {p : Parser α} {f : α → Parser β} {answers : β → Prop}
    (hp : Parses place n floor taken p) (hf : ∀ a, Parses place n floor answers (f a)) :
    Parses place n floor answers (p >>= f) := by
  intro s hn hfloor
  refine (hp s hn hfloor).bind fun a t ⟨ht, _⟩ => ?_
  have hle := ht.length_ahead_le
  refine (hf a t (hle.trans_lt hn) (ht.floor_le_height hfloor)).mono fun b u ⟨hu, hlt⟩ => ?_
  exact ⟨ht.trans hu, fun hb => (hlt hb).trans_le hle⟩

/-- After a parser that takes a token in there are fewer tokens ahead, and the row may change
anywhere above the floor. -/
theorem Eats.bind {p : Parser α} {f : α → Parser β} (hp : Eats (n + 1) floor p)
    (hf : ∀ a, Builds n floor (f a)) : Eats (n + 1) floor (p >>= f) := by
  intro s hs hn hfloor
  refine (hp s hs hn hfloor).bind fun a t ⟨ht, hlt⟩ => ?_
  have hsolid := ht.floor_le_solid_of_lt hfloor hlt
  refine (hf a t (by omega) hsolid).mono fun b u ⟨hu, _⟩ => ?_
  exact ⟨ht.trans hu, hu.length_ahead_le.trans_lt hlt⟩

theorem Parses.discard {p : Parser α} (hp : Parses place n floor taken p) :
    Parses place n floor never (discard p) :=
  fun s hn hfloor => .discard ((hp s hn hfloor).mono fun _ _ hQ => ⟨hQ.1, False.elim⟩)

theorem Eats.discard {p : Parser α} (hp : Eats n floor p) : Eats n floor (discard p) :=
  fun s hs hn hfloor => .discard (hp s hs hn hfloor)

theorem Parses.ite {p : Parser Bool} {q r : Parser β} {answers : β → Prop} {taken : Bool → Prop}
    (hp : Parses place n floor taken p) (hq : Parses place n floor answers q)
    (hr : Parses place n floor answers r) :
    Parses place n floor answers (do if ← p then q else r) := by
  refine hp.bind fun a => ?_
  cases a with
  | true => exact hq
  | false => exact hr

/-! ## Looking -/

theorem Reads.bind {p : Parser α} {f : α → Parser β} {answers : β → Prop} (hp : Reads n p)
    (hf : ∀ a, Parses place n floor answers (f a)) : Parses place n floor answers (p >>= f) := by
  intro s hn hfloor
  refine (hp s hn).bind fun a t ht => ?_
  subst ht
  exact hf a t hn hfloor

theorem Reads.bindAt {p : Parser α} {f : α → Parser β} {answers : β → Prop} (hp : Reads n p)
    (hf : ∀ a, ParsesAt kind place n floor answers (f a)) :
    ParsesAt kind place n floor answers (p >>= f) := by
  intro s hs hn hfloor
  refine (hp s hn).bind fun a t ht => ?_
  subst ht
  exact hf a t hs hn hfloor

theorem Reads.bindEats {p : Parser α} {f : α → Parser β} (hp : Reads n p)
    (hf : ∀ a, Eats n floor (f a)) : Eats n floor (p >>= f) := by
  intro s hs hn hfloor
  refine (hp s hn).bind fun a t ht => ?_
  subst ht
  exact hf a t hs hn hfloor

theorem Reads.pure (a : α) : Reads n (pure a) :=
  fun _ _ => Runs.pure rfl

theorem Reads.andThen {p : Parser α} {f : α → Parser β} (hp : Reads n p)
    (hf : ∀ a, Reads n (f a)) : Reads n (p >>= f) := by
  intro s hn
  refine (hp s hn).bind fun a t ht => ?_
  subst ht
  exact hf a t hn

theorem Reads.parses {p : Parser α} (hp : Reads n p) : Parses place n floor never p := by
  intro s hn _
  refine (hp s hn).mono fun _ t ht => ?_
  subst ht
  exact ⟨.refl, False.elim⟩

theorem isAt_reads (kind : Kind) : Reads n (isAt kind) :=
  fun s _ => ⟨decide (s.current = kind), s, rfl, rfl⟩

theorem isAtAny_reads (wanted : Kind → Bool) : Reads n (isAtAny wanted) :=
  fun s _ => ⟨wanted s.current, s, rfl, rfl⟩

theorem peek_reads : Reads n peek :=
  fun s _ => ⟨s.next.current, s, rfl, rfl⟩

theorem isOnNewLine_reads : Reads n isOnNewLine :=
  fun s _ => ⟨s.onNewLine, s, rfl, rfl⟩

theorem peekIsOnNewLine_reads : Reads n peekIsOnNewLine :=
  fun s _ => ⟨s.next.onNewLine, s, rfl, rfl⟩

/-- A marker lies above the floor. -/
theorem Parses.marker_bind {f : Nat → Parser α}
    (hf : ∀ opening, floor ≤ opening → Parses place n floor taken (f opening)) :
    Parses place n floor taken (marker >>= f) := by
  intro s hn hfloor
  have hmarker := hfloor.trans (s.height_le_marker place)
  exact hf s.marker hmarker s hn hfloor

theorem ParsesAt.marker_bind {f : Nat → Parser α}
    (hf : ∀ opening, floor ≤ opening → ParsesAt kind place n floor taken (f opening)) :
    ParsesAt kind place n floor taken (marker >>= f) := by
  intro s hs hn hfloor
  have hmarker := hfloor.trans (s.height_le_marker place)
  exact hf s.marker hmarker s hs hn hfloor

theorem Eats.marker_bind {f : Nat → Parser α}
    (hf : ∀ opening, floor ≤ opening → Eats n floor (f opening)) :
    Eats n floor (marker >>= f) :=
  fun s hs hn hfloor => hf s.marker hfloor s hs hn hfloor

/-- A rule that goes by the kind of the current token. -/
theorem Parses.current_bind {f : Kind → Parser α}
    (hf : ∀ kind, ParsesAt kind place n floor taken (f kind)) :
    Parses place n floor taken (current >>= f) :=
  fun s hn hfloor => hf s.current s rfl hn hfloor

theorem runs_isAt_bind {f : Bool → Parser α} {s : State} {Q : α → State → Prop}
    (h : Runs (f (decide (s.current = kind))) s Q) : Runs (isAt kind >>= f) s Q :=
  h

theorem Parses.isAt_bind {f : Bool → Parser α} (htrue : ParsesAt kind place n floor taken (f true))
    (hfalse : Parses place n floor taken (f false)) :
    Parses place n floor taken (isAt kind >>= f) := by
  intro s hn hfloor
  apply runs_isAt_bind
  by_cases hs : s.current = kind
  · rw [decide_eq_true hs]
    exact htrue s hs hn hfloor
  · rw [decide_eq_false hs]
    exact hfalse s hn hfloor

/-- Behind the test for the end there is a token. -/
theorem Parses.isAtEnd_bind {f : Bool → Parser α} (htrue : Parses place n floor taken (f true))
    (hfalse : ∀ kind, kind ≠ .endOfFile → ParsesAt kind place n floor taken (f false)) :
    Parses place n floor taken (isAtEnd >>= f) := by
  intro s hn hfloor
  apply runs_isAt_bind
  by_cases hs : s.current = .endOfFile
  · rw [decide_eq_true hs]
    exact htrue s hn hfloor
  · rw [decide_eq_false hs]
    exact hfalse s.current hs s rfl hn hfloor

theorem Parses.isAt_ite {p q : Parser α} (hp : ParsesAt kind place n floor taken p)
    (hq : Parses place n floor taken q) :
    Parses place n floor taken (do if ← isAt kind then p else q) :=
  .isAt_bind hp hq

/-- Either of two kinds. -/
theorem Parses.isAtEither_ite {kind' : Kind} {p q : Parser α}
    (hp : ParsesAt kind place n floor taken p) (hp' : ParsesAt kind' place n floor taken p)
    (hq : Parses place n floor taken q) :
    Parses place n floor taken (do if (← isAt kind) || (← isAt kind') then p else q) := by
  refine .isAt_bind ?_ ?_
  · exact (isAt_reads kind').bindAt fun _ => hp
  · exact .isAt_bind hp' hq

/-- A kind and the kind behind it. -/
theorem Parses.isAtBefore_ite {behind : Kind} {p q : Parser α}
    (hp : ParsesAt kind place n floor taken p) (hq : Parses place n floor taken q) :
    Parses place n floor taken (do if (← isAt kind) && (← peek) = behind then p else q) := by
  refine .isAt_bind ?_ ?_
  · refine peek_reads.bindAt fun next => ?_
    by_cases hnext : next = behind
    · simpa [hnext] using hp
    · simpa [hnext] using hq.parsesAt
  · exact peek_reads.bind fun _ => hq

/-- A group of kinds without the end. -/
theorem Parses.isAtAny_ite {wanted : Kind → Bool} {p q : Parser α}
    (hwanted : wanted .endOfFile = false) (hp : Eats n floor p)
    (hq : Parses place n floor taken q) :
    Parses place n floor taken (do if ← isAtAny wanted then p else q) := by
  intro s hn hfloor
  show Runs (if wanted s.current = true then p else q) s _
  split
  · next hs =>
    have hkind : s.current ≠ .endOfFile := by
      intro hend
      rw [hend, hwanted] at hs
      cases hs
    exact hp.parsesAt hkind s rfl hn hfloor
  · exact hq s hn hfloor

/-! ## Changing the row -/

theorem take_parses : Parses place n floor never take :=
  fun s _ _ => ⟨(), s.take Token.node, rfl, Grows.refl.take (.inl rfl), False.elim⟩

theorem take_eats : Eats n floor take := by
  intro s hs _ _
  exact ⟨(), s.take Token.node, rfl, Grows.refl.take (.inl rfl), State.ahead_take_lt hs _⟩

theorem takeUnexpected_parses : Parses place n floor never takeUnexpected :=
  fun s _ _ => ⟨(), s.take State.unexpectedNode, rfl, Grows.refl.take (.inr rfl), False.elim⟩

theorem missing_builds (wanted : Wanted) : Builds n floor (missing wanted) :=
  fun s _ hfloor => ⟨(), s.markMissing wanted, rfl, Grows.refl.missing wanted hfloor, False.elim⟩

theorem wrap_builds {opening : Nat} (kind : Kind) (h : floor ≤ opening) :
    Builds n floor (wrap opening kind) :=
  fun s _ hfloor => ⟨(), s.wrap opening kind, rfl, Grows.refl.wrap kind hfloor h, False.elim⟩

/-- A token is taken in, and then there is one fewer ahead. -/
theorem Eats.take_bind {f : PUnit → Parser α} (hf : Builds n floor (f ())) :
    Eats (n + 1) floor (take >>= f) :=
  take_eats.bind fun _ => hf

/-! ## Optional parts -/

theorem Parses.takeIf_bind {f : Bool → Parser α} (hkind : kind ≠ .endOfFile)
    (htrue : Builds n floor (f true)) (hfalse : Parses place (n + 1) floor taken (f false)) :
    Parses place (n + 1) floor taken (takeIf kind >>= f) := by
  have hrun : takeIf kind >>= f =
      (do if ← isAt kind then take >>= fun _ => f true else f false) := by
    simp only [takeIf, bind_assoc]
    congr 1
    funext b
    cases b <;> simp
  rw [hrun]
  exact .isAt_ite ((Eats.take_bind htrue).parsesAt hkind) hfalse

theorem Parses.takeIf_ite {p q : Parser α} (hkind : kind ≠ .endOfFile)
    (hp : Builds n floor p) (hq : Parses place (n + 1) floor taken q) :
    Parses place (n + 1) floor taken (do if ← takeIf kind then p else q) :=
  .takeIf_bind hkind hp hq

theorem takeIf_parses (hkind : kind ≠ .endOfFile) :
    Parses place n floor (· = true) (takeIf kind) := by
  refine .isAt_ite (Eats.parsesAt ?_ hkind) (.pure (by simp))
  intro s hs hn hfloor
  refine (take_eats s hs hn hfloor).bind fun _ t ht => ?_
  exact Runs.pure ht

theorem expect_builds (hkind : kind ≠ .endOfFile) :
    Builds n floor (expect kind) := by
  refine .isAt_ite (Eats.parsesAt ?_ hkind) ?_
  · intro s hs hn hfloor
    refine (take_eats s hs hn hfloor).bind fun _ t ht => ?_
    exact Runs.pure ht
  · exact (missing_builds _).bind fun _ => .pure id

theorem whenAt_parses {p : Parser Unit} (hp : ParsesAt kind place n floor never p) :
    Parses place n floor never (whenAt kind p) :=
  .isAt_ite hp (.pure id)

theorem unlessAt_parses {p : Parser Unit} (hp : Parses place n floor never p) :
    Parses place n floor never (unlessAt kind p) := by
  refine .isAt_bind ?_ ?_
  · exact (Parses.pure id).parsesAt
  · exact hp

theorem whenAtAny_parses {wanted : Kind → Bool} {p : Parser Unit}
    (hp : Parses place n floor never p) : Parses place n floor never (whenAtAny wanted p) := by
  refine (isAtAny_reads wanted).bind fun b => ?_
  cases b with
  | true => exact hp
  | false => exact .pure id

theorem whenTaken_parses {p : Parser Unit} (hkind : kind ≠ .endOfFile) (hp : Builds n floor p) :
    Parses place (n + 1) floor never (whenTaken kind p) :=
  .takeIf_ite hkind hp (.pure id)

theorem orMissing_builds {p : Parser Bool} {taken : Bool → Prop} (wanted : Wanted)
    (hp : Parses .solid n floor taken p) : Builds n floor (orMissing p wanted) := by
  refine hp.bind fun b => ?_
  cases b with
  | true => exact .pure id
  | false => exact missing_builds wanted

end StatementCompletion.Grammar
