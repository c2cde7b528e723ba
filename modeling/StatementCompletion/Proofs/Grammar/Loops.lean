import StatementCompletion.Proofs.Grammar.Combinators

/-!
# The promises of the loops and of reading ahead

A loop whose step takes a token in whenever it answers yes comes to an end within its bound, which
is one more than the number of tokens ahead.  `loop_runs` keeps an invariant through it; the
promises of the loops of the grammar follow from it.

Reading ahead leaves the state as it was, because the parser that reads ahead takes a token in
before it changes anything else: the row is cut back to a length below which nothing has changed.
-/

namespace StatementCompletion.Grammar

variable {kind : Kind} {place : Place} {n floor : Nat}

/-! ## Loops -/

theorem loopWithin_runs {step : Parser Bool} {I Q : State → Prop}
    (hstep : ∀ s, I s → Runs step s fun again t =>
      if again then I t ∧ t.ahead.length < s.ahead.length else Q t)
    (bound : Nat) (s : State) (hs : I s) (hbound : s.ahead.length < bound) :
    Runs (loopWithin bound step) s fun _ t => Q t := by
  induction bound generalizing s with
  | zero => exact absurd hbound (Nat.not_lt_zero _)
  | succ bound ih =>
    refine (hstep s hs).bind fun again t ht => ?_
    cases again with
    | true =>
      simp only [if_true] at ht ⊢
      exact ih t ht.1 (by omega)
    | false => exact Runs.pure ht

/-- An invariant that a step keeps while it answers yes and takes tokens in, and what holds when it
answers no. -/
theorem loop_runs {step : Parser Bool} {I Q : State → Prop}
    (hstep : ∀ s, I s → Runs step s fun again t =>
      if again then I t ∧ t.ahead.length < s.ahead.length else Q t)
    (s : State) (hs : I s) : Runs (loop step) s fun _ t => Q t :=
  loopWithin_runs hstep _ s hs (Nat.lt_succ_self _)

theorem loop_parses {step : Parser Bool} (hstep : Parses place n floor (· = true) step) :
    Parses place n floor never (loop step) := by
  intro s hn hfloor
  have hloop : Runs (loop step) s fun _ t => Grows floor s t := by
    refine loop_runs (I := Grows floor s) (fun t ht => ?_) s .refl
    have hn' := ht.length_ahead_le.trans_lt hn
    refine (hstep t hn' (ht.floor_le_height hfloor)).mono fun again u ⟨hu, hlt⟩ => ?_
    cases again with
    | true => exact ⟨ht.trans hu, hlt rfl⟩
    | false => exact ht.trans hu
  exact hloop.mono fun _ t ht => ⟨ht, False.elim⟩

theorem separatedWithin_runs {item : Parser Bool} {taken : Bool → Prop}
    (hkind : kind ≠ .endOfFile) (hitem : Parses place n floor taken item) (bound : Nat) (s : State)
    (hn : s.ahead.length < n) (hfloor : floor ≤ s.height place) (hbound : s.ahead.length < bound) :
    Runs (separatedWithin bound kind item) s fun _ t => Grows floor s t := by
  induction bound generalizing s with
  | zero => exact absurd hbound (Nat.not_lt_zero _)
  | succ bound ih =>
    refine (hitem s hn hfloor).bind fun there t ⟨ht, _⟩ => ?_
    cases there with
    | false => exact Runs.pure ht
    | true =>
      have hle := ht.length_ahead_le
      have htakeIf : Parses place n floor (· = true) (takeIf kind) := takeIf_parses hkind
      have hseparator := htakeIf t (hle.trans_lt hn) (ht.floor_le_height hfloor)
      refine hseparator.bind fun more u ⟨hu, hlt⟩ => ?_
      have hsu := ht.trans hu
      cases more with
      | false => exact Runs.pure hsu
      | true =>
        have hless := (hlt rfl).trans_le hle
        refine (ih u (hless.trans hn) (hsu.floor_le_height hfloor) (by omega)).mono ?_
        exact fun _ v hv => hsu.trans hv

theorem separated_parses {item : Parser Bool} {taken : Bool → Prop} (hkind : kind ≠ .endOfFile)
    (hitem : Parses place n floor taken item) :
    Parses place n floor never (separated kind item) := by
  intro s hn hfloor
  refine (separatedWithin_runs hkind hitem _ s hn hfloor (Nat.lt_succ_self _)).mono ?_
  exact fun _ t ht => ⟨ht, False.elim⟩

/-! ## Reading ahead -/

/-- A parser that may be run from a row whose end is the floor can be taken back. -/
theorem lookAhead_reads {α : Type} {p : Parser α} (hp : ∀ floor, Parses .marker n floor never p) :
    Reads n (lookAhead p) := by
  intro s hn
  have hrun : Runs p s fun _ t => Grows s.marker s t :=
    (hp s.marker s hn (Nat.le_refl _)).mono fun _ _ ht => ht.1
  obtain ⟨a, t, hrun, ht⟩ := hrun
  refine ⟨a, s, ?_, rfl⟩
  show (p.run s >>= fun (a, t) => some (a, t.rollBack s)) = some (a, s)
  rw [hrun]
  exact congrArg (fun u => some (a, u)) ht.rollBack_eq

theorem attempt_parsesAt {p : Parser Bool}
    (hp : ∀ floor, ParsesAt kind .marker n floor never p) :
    ParsesAt kind place n floor never (attempt p) := by
  intro s hs hn hfloor
  obtain ⟨a, t, hrun, ht, _⟩ := hp s.marker s hs hn (Nat.le_refl _)
  cases a with
  | true =>
    refine ⟨(), t, ?_, ht.lower (hfloor.trans (s.height_le_marker place)), False.elim⟩
    show (p.run s >>= fun (a, t) => _) = _
    rw [hrun]
    rfl
  | false =>
    refine ⟨(), s, ?_, .refl, False.elim⟩
    show (p.run s >>= fun (a, t) => _) = _
    rw [hrun]
    exact congrArg (fun u => some ((), u)) ht.rollBack_eq

/-! ## Progress -/

/-- A parser with a current token takes a token in, by itself or as an error. -/
theorem progress_runs {p : Parser Unit} {s : State} (hs : s.token?.isSome)
    (hp : Runs p s fun _ t => Grows floor s t) :
    Runs (progress p) s fun _ t => Grows floor s t ∧ t.ahead.length < s.ahead.length := by
  obtain ⟨_, t, hrun, ht⟩ := hp
  have hprogress : (progress p).run s
      = if t.unread.length = s.unread.length then takeUnexpected.run t else some ((), t) := by
    show (p.run s >>= _) = _
    rw [hrun]
    show (if t.unread.length = s.unread.length then takeUnexpected else pure ()).run t = _
    split <;> rfl
  unfold Runs
  rw [hprogress]
  split
  · have htake : Grows floor t (t.take State.unexpectedNode) := Grows.refl.take (.inr rfl)
    refine ⟨(), t.take State.unexpectedNode, rfl, ht.trans htake, ?_⟩
    rcases ht.reads with hlt | ⟨htoken, _⟩
    · exact htake.length_ahead_le.trans_lt hlt
    · have hlt := State.ahead_take_lt (htoken ▸ hs) State.unexpectedNode
      exact hlt.trans_le ht.length_ahead_le
  · next hunread =>
    refine ⟨(), t, rfl, ht, ?_⟩
    rcases ht.reads with hlt | ⟨_, hsame⟩
    · exact hlt
    · exact absurd (congrArg List.length hsame) hunread

/-- Making progress is a step that takes a token in. -/
theorem progress_bind_parsesAt {item : Parser Unit} (hkind : kind ≠ .endOfFile)
    (hitem : Builds n floor item) :
    ParsesAt kind .solid n floor (· = true) (progress item >>= fun _ => pure true) := by
  intro s hs hn hfloor
  have hrun := (hitem s hn hfloor).mono fun _ _ ht => ht.1
  have hsome := State.isSome_of_current (hs ▸ hkind)
  refine (progress_runs hsome hrun).bind fun _ t ⟨ht, hlt⟩ => ?_
  exact Runs.pure ⟨ht, fun _ => hlt⟩

theorem bracedItem_parses {item : Parser Unit} (hitem : Builds n floor item) :
    Parses .solid n floor (· = true) (bracedItem item) := by
  refine .isAtEnd_bind ?_ fun kind hkind => ?_
  · exact (isAt_reads _).bind fun _ => .pure (by simp)
  · refine (isAt_reads _).bindAt fun atBrace => ?_
    cases atBrace with
    | true => exact (Parses.pure (by simp)).parsesAt
    | false => exact progress_bind_parsesAt hkind hitem

theorem itemsUpToBrace_builds {item : Parser Unit} (hitem : Builds n floor item) :
    Builds n floor (itemsUpToBrace item) := by
  refine (loop_parses (bracedItem_parses hitem)).bind fun _ => ?_
  exact (expect_builds (by decide)).discard

end StatementCompletion.Grammar
