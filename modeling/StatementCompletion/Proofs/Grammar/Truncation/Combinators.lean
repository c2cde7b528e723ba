import StatementCompletion.Proofs.Grammar.Truncation

/-!
# The combinators on a truncated text

`Truncates` says of two parsers, run on a state and on the same state truncated, that they give one
answer and that the states they come to are truncated alike, unless the first one has got into the
tail; as no parser gives tokens back, it is enough to ask for this at the end.  A rule makes
a branch only of nodes among which there is no list of arguments, so it is asked for of the
row from its marker on; that no rule leaves a list or a closing parenthesis of its own in
the row is part of what is kept.
-/

namespace StatementCompletion.Grammar

open State (Truncated)

variable {α β γ : Type}

/-! ## Tokens are not given back -/

/-- A kind that is wanted, or a closing one where the end is wanted. -/
def Meets (wanted : Kind → Prop) (kind : Kind) : Prop :=
  wanted kind ∨ kind.isClosing = true ∧ wanted .endOfFile

/-- At a kind that is wanted, no more tokens are ahead than before. -/
def ShrinksAt (wanted : Kind → Prop) (p : Parser α) : Prop :=
  ∀ s a t, Alike s s → Meets wanted s.current → p.run s = some (a, t) →
    Alike t t ∧ t.ahead.length ≤ s.ahead.length

/-- The same whatever the current token is. -/
abbrev Shrinks (p : Parser α) : Prop :=
  ShrinksAt (fun _ => True) p

namespace ShrinksAt

variable {wanted : Kind → Prop} {p q : Parser α} {g : α → Parser β}

theorem pure (a : α) : ShrinksAt wanted (Pure.pure a) := by
  intro s b t hs _ hrun
  obtain ⟨-, rfl⟩ := run_pure_eq_some.1 hrun
  exact ⟨hs, Nat.le_refl _⟩

theorem bind (hp : ShrinksAt wanted p) (hg : ∀ a, Shrinks (g a)) : ShrinksAt wanted (p >>= g) := by
  intro s b u hs hkind hrun
  obtain ⟨a, t, hpt, hgu⟩ := run_bind_eq_some.1 hrun
  obtain ⟨ht, hle⟩ := hp s a t hs hkind hpt
  obtain ⟨hu, hle'⟩ := hg a t b u ht (.inl trivial) hgu
  exact ⟨hu, hle'.trans hle⟩

theorem discard (hp : ShrinksAt wanted p) : ShrinksAt wanted (discard p) := by
  intro s b t hs hkind hrun
  obtain ⟨a, ha⟩ := run_discard_eq_some.1 hrun
  exact hp s a t hs hkind ha

/-- What goes by what it sees of the state. -/
theorem see (view : State → γ) {g : γ → Parser β} (hg : ∀ c, ShrinksAt wanted (g c)) :
    ShrinksAt wanted (do let s ← get; g (view s)) :=
  fun s => hg (view s) s

/-- What is only run where the current token is of a kind. -/
theorem isAt_ite {kind : Kind} (hp : ShrinksAt (· = kind) p) (hq : ShrinksAt wanted q) :
    ShrinksAt wanted (do if ← isAt kind then p else q) := by
  intro s a t hs hmeets hrun
  have hrun : (if decide (s.current = kind) then p else q).run s = some (a, t) := hrun
  by_cases hkind : s.current = kind
  · rw [decide_eq_true hkind, if_pos rfl] at hrun
    exact hp s a t hs (.inl hkind) hrun
  · rw [decide_eq_false hkind, if_neg Bool.false_ne_true] at hrun
    exact hq s a t hs hmeets hrun

/-- What takes the current token in has no more of them ahead. -/
theorem of_opens (h : OpensAt wanted p p) (hwanted : ¬ wanted .endOfFile) :
    ShrinksAt wanted p := by
  intro s a t hs hmeets hrun
  obtain ⟨-, ht⟩ :=
    h s s hs (hmeets.resolve_right fun hend => hwanted hend.2) trivial a t a t hrun hrun
  refine ⟨ht.alike, ?_⟩
  rcases (ht.opens.evolves (Nat.zero_le _)).reads hs.sane with ⟨-, hlt⟩ | ⟨htoken, hunread⟩
  · exact hlt.le
  · rw [State.ahead, State.ahead, htoken, hunread]

theorem take : ShrinksAt wanted take := by
  intro s a t hs _ hrun
  obtain ⟨-, rfl⟩ := Prod.mk.inj (Option.some.inj hrun)
  refine ⟨hs.take _, ?_⟩
  show (s.take Token.node).ahead.length ≤ _
  cases htoken : s.token? with
  | none => rw [State.take_of_none htoken]
  | some token => exact (State.ahead_take_lt (by rw [htoken]; rfl) _).le

theorem missing (missed : Wanted) : ShrinksAt wanted (missing missed) := by
  intro s a t hs _ hrun
  obtain ⟨-, rfl⟩ := Prod.mk.inj (Option.some.inj hrun)
  refine ⟨hs.markMissing missed, ?_⟩
  show (s.markMissing missed).ahead.length ≤ _
  rcases s.markMissing_eq missed with heq | heq <;> rw [heq]
  exact Nat.le_refl _

theorem wrap (m : Nat) (kind : Kind) : ShrinksAt wanted (wrap m kind) := by
  intro s a t hs _ hrun
  obtain ⟨-, rfl⟩ := Prod.mk.inj (Option.some.inj hrun)
  have hsane := hs.sane.wrap m kind
  exact ⟨⟨hsane, hsane, rfl, hs.unread, fun _ => rfl, rfl, rfl⟩, Nat.le_refl _⟩

end ShrinksAt

/-! ## The judgement -/

/-- What is kept where a state goes on from a marker. -/
structure Kept (σ : Seam) (f : Nat) (s t t' : State) : Prop where
  truncated : Truncated σ t t'
  evolves : Evolves f s t
  lacks : ∀ kind, kind.isTail = true → ∀ m, s.Lacks kind m → t.Lacks kind m

/-- A marker in an expression that is not finished. -/
structure Seam.Marks (σ : Seam) (m : Nat) (s : State) : Prop where
  base : σ.base ≤ m
  marker : m ≤ s.marker

/-- Two parsers that agree on a truncated text where the current token is of a wanted kind. -/
structure TruncatesAt (σ : Seam) (least : Nat) (wanted : Kind → Prop) (f : Nat)
    (p p' : Parser α) : Prop where
  shrinks : ShrinksAt wanted p
  keeps : ∀ s s', Truncated σ s s' → wanted s'.current → σ.Marks f s → s.Lacks .argumentList f →
    ∀ a t a' t', p.run s = some (a, t) → p'.run s' = some (a', t') →
      least ≤ t.ahead.length → a' = a ∧ Kept σ f s t t'

/-- The same whatever the current token is. -/
abbrev Truncates (σ : Seam) (least f : Nat) (p p' : Parser α) : Prop :=
  TruncatesAt σ least (fun _ => True) f p p'

variable {σ : Seam} {least : Nat} {wanted wanted' : Kind → Prop} {kind : Kind} {f : Nat}
  {p p' : Parser α} {g g' : α → Parser β} {s s' t t' u u' : State}

theorem Kept.refl (h : Truncated σ s s') : Kept σ f s s s' :=
  ⟨h, .refl, fun _ _ _ => id⟩

theorem Kept.trans (h : Kept σ f s t t') (htu : Kept σ f t u u') : Kept σ f s u u' :=
  ⟨htu.truncated, h.evolves.trans htu.evolves,
    fun kind hkind m => htu.lacks kind hkind m ∘ h.lacks kind hkind m⟩

theorem Kept.lower {m : Nat} (h : Kept σ m s t t') (hfloor : f ≤ m) : Kept σ f s t t' :=
  ⟨h.truncated, h.evolves.lower hfloor, h.lacks⟩

/-- Nothing stands behind the end of the row. -/
theorem State.Sane.lacks_marker (hs : s.Sane) (kind : Kind) : s.Lacks kind s.marker := by
  have hempty : s.firm.drop s.marker = [] := by
    apply List.drop_of_length_le
    rw [hs.marker_eq]
    exact Nat.le_add_right _ _
  rw [State.Lacks, hempty]
  exact fun _ => nofun

/-- What is wanted of the one current token is met by the other one. -/
theorem State.Truncated.meets (h : Truncated σ s s') (hkind : wanted s'.current) :
    Meets wanted s.current := by
  rcases h.current_cases with ⟨-, heq⟩ | ⟨-, hend, hclosing⟩
  · exact .inl (heq ▸ hkind)
  · exact .inr ⟨hclosing, hend ▸ hkind⟩

namespace TruncatesAt

theorem mono (h : TruncatesAt σ least wanted f p p')
    (hwanted : ∀ kind, wanted' kind → wanted kind) :
    TruncatesAt σ least wanted' f p p' := by
  refine ⟨fun s a t hs hmeets => h.shrinks s a t hs ?_, ?_⟩
  · exact hmeets.imp (hwanted _) (And.imp_right (hwanted _))
  · exact fun s s' hs hkind => h.keeps s s' hs (hwanted _ hkind)

/-- What never gets into the tail need not be told to keep off it. -/
theorem guard (h : TruncatesAt σ 0 wanted f p p') : TruncatesAt σ least wanted f p p' :=
  ⟨h.shrinks, fun s s' hs hkind hfloor hlists a t a' t' hrun hrun' _ =>
    h.keeps s s' hs hkind hfloor hlists a t a' t' hrun hrun' (Nat.zero_le _)⟩

theorem anywhere (h : Truncates σ least f p p') : TruncatesAt σ least wanted f p p' :=
  h.mono fun _ _ => trivial

theorem pure (a : α) : TruncatesAt σ least wanted f (pure a) (pure a) := by
  refine ⟨.pure a, ?_⟩
  intro s s' hs _ _ _ b t b' t' hrun hrun' _
  obtain ⟨rfl, rfl⟩ := run_pure_eq_some.1 hrun
  obtain ⟨rfl, rfl⟩ := run_pure_eq_some.1 hrun'
  exact ⟨rfl, .refl hs⟩

theorem bind (hp : TruncatesAt σ least wanted f p p') (hg : ∀ a, Truncates σ least f (g a) (g' a)) :
    TruncatesAt σ least wanted f (p >>= g) (p' >>= g') := by
  refine ⟨hp.shrinks.bind fun a => (hg a).shrinks, ?_⟩
  intro s s' hs hkind hfloor hlists b u b' u' hrun hrun' hleft
  obtain ⟨a, t, hpt, hgu⟩ := run_bind_eq_some.1 hrun
  obtain ⟨a', t', hpt', hgu'⟩ := run_bind_eq_some.1 hrun'
  -- the tail was still there in between
  have hbetween : least ≤ t.ahead.length := by
    obtain ⟨ht, -⟩ := hp.shrinks s a t hs.fair.alike (hs.meets hkind) hpt
    exact hleft.trans ((hg a).shrinks t b u ht (.inl trivial) hgu).2
  obtain ⟨rfl, ht⟩ := hp.keeps s s' hs hkind hfloor hlists a t a' t' hpt hpt' hbetween
  have hfloor' : σ.Marks f t :=
    ⟨hfloor.base, ht.evolves.floor_le_marker hs.fair.sane hfloor.marker⟩
  have hlists' := ht.lacks _ rfl f hlists
  obtain ⟨rfl, hu⟩ :=
    (hg a').keeps t t' ht.truncated trivial hfloor' hlists' b u b' u' hgu hgu' hleft
  exact ⟨rfl, ht.trans hu⟩

theorem discard (hp : TruncatesAt σ least wanted f p p') :
    TruncatesAt σ least wanted f (discard p) (discard p') := by
  refine ⟨hp.shrinks.discard, ?_⟩
  intro s s' hs hkind hfloor hlists a t a' t' hrun hrun' hleft
  obtain ⟨b, hb⟩ := run_discard_eq_some.1 hrun
  obtain ⟨b', hb'⟩ := run_discard_eq_some.1 hrun'
  exact ⟨rfl, (hp.keeps s s' hs hkind hfloor hlists b t b' t' hb hb' hleft).2⟩

theorem ite {p p' : Parser Bool} {q q' r r' : Parser β} (hp : TruncatesAt σ least wanted f p p')
    (hq : Truncates σ least f q q') (hr : Truncates σ least f r r') :
    TruncatesAt σ least wanted f (do if ← p then q else r) (do if ← p' then q' else r') := by
  refine hp.bind fun a => ?_
  cases a with
  | true => exact hq
  | false => exact hr

/-! ## Looking -/

/-- What goes by a question that knows no closing tokens. -/
theorem isAtAny_bind {is : Kind → Bool} {g g' : Bool → Parser β}
    (his : ∀ kind, kind.isClosing = true → is kind = false)
    (htrue : TruncatesAt σ least (is · = true) f (g true) (g' true))
    (hfalse : TruncatesAt σ least wanted f (g false) (g' false)) :
    TruncatesAt σ least wanted f (isAtAny is >>= g) (isAtAny is >>= g') := by
  constructor
  · intro s b u hs hmeets hrun
    have hrun : (g (is s.current)).run s = some (b, u) := hrun
    cases hanswer : is s.current with
    | true =>
      rw [hanswer] at hrun
      exact htrue.shrinks s b u hs (.inl hanswer) hrun
    | false =>
      rw [hanswer] at hrun
      exact hfalse.shrinks s b u hs hmeets hrun
  · intro s s' hs hkind hfloor hlists b u b' u' hrun hrun' hleft
    have hrun : (g (is s.current)).run s = some (b, u) := hrun
    have hrun' : (g' (is s'.current)).run s' = some (b', u') := hrun'
    rw [hs.ask_eq his] at hrun
    cases hanswer : is s'.current with
    | true =>
      rw [hanswer] at hrun hrun'
      exact htrue.keeps s s' hs hanswer hfloor hlists b u b' u' hrun hrun' hleft
    | false =>
      rw [hanswer] at hrun hrun'
      exact hfalse.keeps s s' hs hkind hfloor hlists b u b' u' hrun hrun' hleft

theorem isAtAny_ite {is : Kind → Bool} {q q' r r' : Parser β}
    (his : ∀ kind, kind.isClosing = true → is kind = false)
    (hq : TruncatesAt σ least (is · = true) f q q') (hr : TruncatesAt σ least wanted f r r') :
    TruncatesAt σ least wanted f (do if ← isAtAny is then q else r)
      (do if ← isAtAny is then q' else r') :=
  isAtAny_bind his hq hr

theorem isAt_bind {g g' : Bool → Parser β} (hkind : kind.isClosing = false)
    (htrue : TruncatesAt σ least (· = kind) f (g true) (g' true))
    (hfalse : TruncatesAt σ least wanted f (g false) (g' false)) :
    TruncatesAt σ least wanted f (isAt kind >>= g) (isAt kind >>= g') := by
  refine @isAtAny_bind β σ least wanted f (fun k => decide (k = kind)) g g' ?_ ?_ hfalse
  · rintro k hclosing
    refine decide_eq_false ?_
    rintro rfl
    rw [hclosing] at hkind
    cases hkind
  · exact htrue.mono fun _ h => of_decide_eq_true h

theorem isAt_ite {q q' r r' : Parser β} (hkind : kind.isClosing = false)
    (hq : TruncatesAt σ least (· = kind) f q q') (hr : TruncatesAt σ least wanted f r r') :
    TruncatesAt σ least wanted f (do if ← isAt kind then q else r)
      (do if ← isAt kind then q' else r') :=
  isAt_bind hkind hq hr

/-- Either of two kinds. -/
theorem isAtEither_ite {kind' : Kind} {q q' r r' : Parser β} (hkind : kind.isClosing = false)
    (hkind' : kind'.isClosing = false) (hq : TruncatesAt σ least (· = kind) f q q')
    (hq' : TruncatesAt σ least (· = kind') f q q') (hr : TruncatesAt σ least wanted f r r') :
    TruncatesAt σ least wanted f (do if (← isAt kind) || (← isAt kind') then q else r)
      (do if (← isAt kind) || (← isAt kind') then q' else r') := by
  refine isAt_bind hkind ?_ ?_
  · exact isAt_bind hkind' hq' hq
  · exact isAt_bind hkind' hq' hr

/-- What goes by the kind of the current token.  Closing tokens are not told apart. -/
theorem current_bind {g g' : Kind → Parser β}
    (hg : ∀ kind, kind ≠ .endOfFile → TruncatesAt σ least (· = kind) f (g kind) (g' kind))
    (hend : ∀ kind, kind.isClosing = true →
      TruncatesAt σ least (· = .endOfFile) f (g kind) (g' .endOfFile)) :
    Truncates σ least f (current >>= g) (current >>= g') := by
  constructor
  · intro s b u hs _ hrun
    have hrun : (g s.current).run s = some (b, u) := hrun
    by_cases hkind : s.current = .endOfFile
    · exact (hend _ (by rw [hkind]; rfl)).shrinks s b u hs (.inl hkind) hrun
    · exact (hg _ hkind).shrinks s b u hs (.inl rfl) hrun
  · intro s s' hs _ hfloor hlists b u b' u' hrun hrun' hleft
    have hrun : (g s.current).run s = some (b, u) := hrun
    have hrun' : (g' s'.current).run s' = some (b', u') := hrun'
    by_cases hcurrent : s'.current = .endOfFile
    · have hclosing : s.current.isClosing = true := by
        rcases hs.current_cases with ⟨-, heq⟩ | ⟨-, -, hclosing⟩
        · rw [heq, hcurrent]
          rfl
        · exact hclosing
      rw [hcurrent] at hrun'
      exact (hend _ hclosing).keeps s s' hs hcurrent hfloor hlists b u b' u' hrun hrun' hleft
    · rcases hs.current_cases with ⟨-, heq⟩ | ⟨-, hend, -⟩
      · rw [heq] at hrun
        exact (hg _ hcurrent).keeps s s' hs rfl hfloor hlists b u b' u' hrun hrun' hleft
      · exact absurd hend hcurrent

/-! ## Markers -/

/-- Behind a marker that is set here, nothing stands yet. -/
theorem marker_bind {g g' : Nat → Parser β} (hg : ∀ m, TruncatesAt σ least wanted m (g m) (g' m)) :
    TruncatesAt σ least wanted f (marker >>= g) (marker >>= g') := by
  refine ⟨ShrinksAt.see State.marker fun m => (hg m).shrinks, ?_⟩
  intro s s' hs hkind hfloor hlists b u b' u' hrun hrun' hleft
  have hrun : (g s.marker).run s = some (b, u) := hrun
  have hrun' : (g' s'.marker).run s' = some (b', u') := hrun'
  rw [hs.marker_eq] at hrun'
  have hmarks : σ.Marks s.marker s := ⟨hfloor.base.trans hfloor.marker, Nat.le_refl _⟩
  obtain ⟨hb, hu⟩ := (hg s.marker).keeps s s' hs hkind hmarks (hs.fair.sane.lacks_marker _)
    b u b' u' hrun hrun' hleft
  exact ⟨hb, hu.lower hfloor.marker⟩

/-- Whether anything is built from a marker on. -/
theorem built_ite {m : Nat} {q q' r r' : Parser β} (hq : TruncatesAt σ least wanted f q q')
    (hr : TruncatesAt σ least wanted f r r') :
    TruncatesAt σ least wanted f (do if (← marker) ≠ m then q else r)
      (do if (← marker) ≠ m then q' else r') := by
  refine ⟨ShrinksAt.see State.marker (g := fun k => if k ≠ m then q else r) fun k => ?_, ?_⟩
  · split
    · exact hq.shrinks
    · exact hr.shrinks
  · intro s s' hs hkind hfloor hlists b u b' u' hrun hrun' hleft
    have hrun : (if s.marker ≠ m then q else r).run s = some (b, u) := hrun
    have hrun' : (if s'.marker ≠ m then q' else r').run s' = some (b', u') := hrun'
    rw [hs.marker_eq] at hrun'
    split at hrun
    · next hne =>
      rw [if_pos hne] at hrun'
      exact hq.keeps s s' hs hkind hfloor hlists b u b' u' hrun hrun' hleft
    · next hne =>
      rw [if_neg hne] at hrun'
      exact hr.keeps s s' hs hkind hfloor hlists b u b' u' hrun hrun' hleft

end TruncatesAt

/-! ## Changing the row -/

theorem State.Lacks.append {s : State} {kind : Kind} {m : Nat} (h : s.Lacks kind m)
    {added : List Node} (hadded : ∀ node ∈ added, node.kind ≠ kind) :
    ∀ node ∈ (s.firm ++ added).drop m, node.kind ≠ kind :=
  State.forall_mem_drop_append h hadded

theorem State.Lacks.dropLast {s : State} {kind : Kind} {m : Nat} (h : s.Lacks kind m) :
    ∀ node ∈ (s.firm.drop m).dropLast, node.kind ≠ kind :=
  fun node hnode => h node ((List.dropLast_sublist _).subset hnode)

theorem State.Sane.kind_of_mem_loose {s : State} (hs : s.Sane) {node : Node} (h : node ∈ s.loose)
    {kind : Kind} (hkind : kind.isTail = true) : node.kind ≠ kind := by
  rintro rfl
  have htrivia := (hs.loose node h).2.1
  revert hkind htrivia
  cases node.kind <;> decide

theorem Kept.take (hs : Truncated σ s s') (hinner : s'.current.isInner = true) :
    Kept σ f s (s.take Token.node) (s'.take Token.node) := by
  obtain ⟨hclosing, hheader⟩ := Kind.isInner_spec hinner
  have hkind : s'.current ≠ .rightParen := by
    intro heq
    rw [heq] at hclosing
    cases hclosing
  have hsome : s'.token?.isSome = true := State.isSome_of_current fun heq => by
    rw [heq] at hclosing
    cases hclosing
  refine ⟨hs.take hsome hheader, Evolves.refl.take (.inl rfl), fun kind htail m hlacks => ?_⟩
  rcases hs.current_cases with ⟨-, heq⟩ | ⟨hnone, -⟩
  case inr =>
    rw [hnone] at hsome
    cases hsome
  cases htoken : s.token? with
  | none => rwa [State.take_of_none htoken]
  | some token =>
    have hcurrent : token.kind ≠ .rightParen := by
      rw [← heq, State.current, htoken] at hkind
      exact hkind
    have hconstruct := (hs.fair.current htoken).1
    rw [State.Lacks, State.firm_take htoken, List.append_assoc]
    refine hlacks.append ?_
    simp only [List.forall_mem_append, List.forall_mem_singleton, Token.kind_node]
    refine ⟨fun node hnode => hs.fair.sane.kind_of_mem_loose hnode htail, ?_⟩
    rintro rfl
    revert htail hconstruct hcurrent
    cases token.kind <;> decide

theorem take_truncates (hinner : ∀ kind, wanted kind → kind.isInner = true) :
    TruncatesAt σ least wanted f take take := by
  refine ⟨.take, ?_⟩
  intro s s' hs hkind _ _ a t a' t' hrun hrun' _
  obtain ⟨rfl, rfl⟩ := Prod.mk.inj (Option.some.inj hrun)
  obtain ⟨rfl, rfl⟩ := Prod.mk.inj (Option.some.inj hrun')
  exact ⟨rfl, .take hs (hinner _ hkind)⟩

theorem take_truncates_of (hkind : kind.isInner = true) :
    TruncatesAt σ least (· = kind) f take take :=
  take_truncates (by rintro _ rfl; exact hkind)

theorem Kept.markMissing (hs : Truncated σ s s') (missed : Wanted) :
    Kept σ f s (s.markMissing missed) (s'.markMissing missed) := by
  refine ⟨hs.markMissing missed, Evolves.refl.missing missed, fun kind htail m hlacks => ?_⟩
  rw [State.Lacks]
  rcases hs.fair.sane.firm_markMissing missed with heq | heq <;> rw [heq]
  · exact hlacks
  · refine hlacks.append (List.forall_mem_singleton.2 ?_)
    rintro rfl
    cases htail

theorem missing_truncates (missed : Wanted) :
    Truncates σ least f (missing missed) (missing missed) := by
  refine ⟨.missing missed, ?_⟩
  intro s s' hs _ _ _ a t a' t' hrun hrun' _
  obtain ⟨rfl, rfl⟩ := Prod.mk.inj (Option.some.inj hrun)
  obtain ⟨rfl, rfl⟩ := Prod.mk.inj (Option.some.inj hrun')
  exact ⟨rfl, .markMissing hs missed⟩

/-- What is read behind a token that is taken in. -/
theorem State.current_take {s : State} (h : s.token?.isSome = true) (node : Token → Node) :
    (s.take node).current = s.next.current := by
  obtain ⟨token, htoken⟩ := Option.isSome_iff_exists.1 h
  rw [State.take_of_some htoken]
  rfl

/-- Two tokens that are taken in together. -/
theorem pair_truncates {behind : Kind} (hkind : kind.isInner = true)
    (hbehind : behind.isInner = true) :
    Truncates σ least f
      (do if (← isAt kind) && (← peek) = behind then (do take; take; return true) else return false)
      (do if (← isAt kind) && (← peek) = behind then (do take; take; return true) else return false)
    := by
  have hclosing := (Kind.isInner_spec hkind).1
  have hrefuse {s s' : State} (hs : Truncated σ s s') {a a' : Bool} {t t' : State}
      (hrun : (pure false : Parser Bool).run s = some (a, t))
      (hrun' : (pure false : Parser Bool).run s' = some (a', t')) : a' = a ∧ Kept σ f s t t' := by
    obtain ⟨rfl, rfl⟩ := run_pure_eq_some.1 hrun
    obtain ⟨rfl, rfl⟩ := run_pure_eq_some.1 hrun'
    exact ⟨rfl, .refl hs⟩
  refine ⟨?_, ?_⟩
  · refine .see (fun s => decide (s.current = kind) && decide (s.next.current = behind))
      (g := fun b => if b then (do take; take; return true) else pure false) fun b => ?_
    cases b with
    | true => exact ShrinksAt.take.bind fun _ => ShrinksAt.take.bind fun _ => .pure true
    | false => exact .pure false
  intro s s' hs _ _ _ a t a' t' hrun hrun' _
  have hrun : (if decide (s.current = kind) && decide (s.next.current = behind) then
      (do take; take; return true : Parser Bool) else pure false).run s = some (a, t) := hrun
  have hrun' : (if decide (s'.current = kind) && decide (s'.next.current = behind) then
      (do take; take; return true : Parser Bool) else pure false).run s' = some (a', t') := hrun'
  have hcurrent : decide (s.current = kind) = decide (s'.current = kind) := by
    refine @State.Truncated.ask_eq σ s s' hs (fun k => decide (k = kind)) fun k hk =>
      decide_eq_false ?_
    rintro rfl
    rw [hk] at hclosing
    cases hclosing
  -- neither kind closes anything, so both sides see the same two tokens
  by_cases hhere : s'.current = kind
  · have hsome : s'.token?.isSome = true := State.isSome_of_current fun hend => by
      rw [hhere.symm.trans hend] at hclosing
      cases hclosing
    have hnext := hs.next_eq hsome (Kind.isInner_spec hbehind).1
    rw [hcurrent, decide_eq_true hhere, Bool.true_and] at hrun
    rw [decide_eq_true hhere, Bool.true_and] at hrun'
    by_cases hbefore : s'.next.current = behind
    · rw [decide_eq_true (hnext.2 hbefore), if_pos rfl] at hrun
      rw [decide_eq_true hbefore, if_pos rfl] at hrun'
      obtain ⟨rfl, rfl⟩ := Prod.mk.inj (Option.some.inj hrun)
      obtain ⟨rfl, rfl⟩ := Prod.mk.inj (Option.some.inj hrun')
      have hfirst : Kept σ f s _ _ := .take hs (hhere ▸ hkind)
      have hsecond : (s'.take Token.node).current = behind :=
        (State.current_take hsome _).trans hbefore
      exact ⟨rfl, hfirst.trans (.take hfirst.truncated (hsecond ▸ hbehind))⟩
    · rw [decide_eq_false (mt hnext.1 hbefore), if_neg Bool.false_ne_true] at hrun
      rw [decide_eq_false hbefore, if_neg Bool.false_ne_true] at hrun'
      exact hrefuse hs hrun hrun'
  · rw [hcurrent, decide_eq_false hhere, Bool.false_and, if_neg Bool.false_ne_true] at hrun
    rw [decide_eq_false hhere, Bool.false_and, if_neg Bool.false_ne_true] at hrun'
    exact hrefuse hs hrun hrun'

/-- A branch that no closing parenthesis belongs to. -/
def Kind.isOpen (kind : Kind) : Bool :=
  kind.isSimple && kind.isConstruct && !kind.isParens

theorem Kind.isOpen_spec {kind : Kind} (h : Kind.isOpen kind = true) :
    kind.isConstruct = true ∧ kind.isAnchored = false ∧ kind.isBracket = false
      ∧ kind.isTail = false := by
  revert h
  cases kind <;> decide

/-- A branch that holds a list of arguments at its end only, and only if it is a call. -/
theorem State.Truncated.wrap_of_isOpen (hs : Truncated σ s s') (hkind : Kind.isOpen kind = true)
    (hbase : σ.base ≤ f) (hlast : ∀ node ∈ (s.firm.drop f).dropLast, node.kind ≠ .argumentList)
    (hlists : kind.isCall = false → s.Lacks .argumentList f) :
    Truncated σ (s.wrap f kind) (s'.wrap f kind) := by
  have hparens : kind.isParens = false := by
    rw [Kind.isOpen, Bool.and_eq_true, Bool.not_eq_true'] at hkind
    exact hkind.2
  refine hs.wrap (Kind.isOpen_spec hkind).1 (.branch ?_ ?_ hlast hlists ?_)
  · rw [Kind.isOpen, Bool.and_eq_true, Bool.and_eq_true] at hkind
    exact hkind.1.1
  · exact hs.simple_drop hbase
  · rw [hparens]
    exact nofun

/-- The row from a marker on has become one node. -/
theorem Kept.of_firm {m : Nat} {node : Node} (hs : Truncated σ s s') (ht : Truncated σ t t')
    (hevolves : Evolves f s t) (hfirm : t.firm = s.built.reverse.take m ++ [node])
    (hnode : node.kind.isTail = false) : Kept σ f s t t' := by
  refine ⟨ht, hevolves, fun kind htail marker hlacks => ?_⟩
  have hbuilt := hlacks.append fun other hother => hs.fair.sane.kind_of_mem_loose hother htail
  rw [State.firm_append_loose] at hbuilt
  rw [State.Lacks, hfirm, List.drop_append]
  intro other hother
  rcases List.mem_append.1 hother with hother | hother
  · rw [List.drop_take] at hother
    exact hbuilt other (List.mem_of_mem_take hother)
  · rw [List.mem_singleton.1 (List.mem_of_mem_drop hother)]
    rintro rfl
    exact Bool.false_ne_true (hnode.symm.trans htail)

theorem wrap_truncates (hkind : Kind.isOpen kind = true) :
    Truncates σ least f (wrap f kind) (wrap f kind) := by
  refine ⟨.wrap f kind, ?_⟩
  intro s s' hs _ hfloor hlists a t a' t' hrun hrun' _
  obtain ⟨rfl, rfl⟩ := Prod.mk.inj (Option.some.inj hrun)
  obtain ⟨rfl, rfl⟩ := Prod.mk.inj (Option.some.inj hrun')
  obtain ⟨-, hanchored, hbracket, htail⟩ := Kind.isOpen_spec hkind
  refine ⟨rfl, hs.wrap_of_isOpen hkind hfloor.base hlists.dropLast fun _ => hlists, ?_,
    fun tail hends m hm => ?_⟩
  · refine Evolves.refl.wrap kind (Nat.le_refl _) ?_ hbracket
    rw [hanchored]
    exact nofun
  · rw [State.Lacks, hs.fair.sane.firm_wrap, List.drop_append]
    intro node hnode
    rcases List.mem_append.1 hnode with hnode | hnode
    · rw [List.drop_take] at hnode
      exact hm node (List.mem_of_mem_take hnode)
    · rw [List.mem_singleton.1 (List.mem_of_mem_drop hnode)]
      rintro rfl
      exact Bool.false_ne_true (htail.symm.trans hends)

/-! ## Braces -/

/-- There are no braces in front of the seam, and none is the first token behind it. -/
theorem State.Truncated.current_ne_leftBrace (hs : Truncated σ s s') :
    s.current ≠ .leftBrace ∧ s'.current ≠ .leftBrace := by
  have hright : s'.current ≠ .leftBrace := by
    cases htoken : s'.token? with
    | none =>
      rw [State.current, htoken]
      decide
    | some token =>
      rw [State.current, htoken]
      refine hs.braceless token ?_
      rw [State.ahead, htoken]
      exact List.mem_cons_self
  refine ⟨?_, hright⟩
  rcases hs.current_cases with ⟨-, heq⟩ | ⟨-, -, hclosing⟩
  · rwa [heq]
  · intro hbrace
    rw [hbrace] at hclosing
    cases hclosing

theorem TruncatesAt.isAtBrace_ite {q q' r r' : Parser β} (hq : OpensAt (· = .leftBrace) q q)
    (hr : TruncatesAt σ least wanted f r r') :
    TruncatesAt σ least wanted f (do if ← isAt .leftBrace then q else r)
      (do if ← isAt .leftBrace then q' else r') := by
  refine ⟨.isAt_ite (.of_opens hq nofun) hr.shrinks, ?_⟩
  intro s s' hs hkind hfloor hlists b u b' u' hrun hrun' hleft
  obtain ⟨hne, hne'⟩ := hs.current_ne_leftBrace
  have hrun : (if decide (s.current = .leftBrace) then q else r).run s = some (b, u) := hrun
  have hrun' : (if decide (s'.current = .leftBrace) then q' else r').run s' = some (b', u') := hrun'
  rw [decide_eq_false hne, if_neg Bool.false_ne_true] at hrun
  rw [decide_eq_false hne', if_neg Bool.false_ne_true] at hrun'
  exact hr.keeps s s' hs hkind hfloor hlists b u b' u' hrun hrun' hleft

theorem whenAtBrace_truncates {p p' : Parser Unit} (hp : OpensAt (· = .leftBrace) p p) :
    Truncates σ least f (whenAt .leftBrace p) (whenAt .leftBrace p') :=
  .isAtBrace_ite hp (.pure ())

/-! ## Optional parts -/

theorem takeIf_truncates (hkind : kind.isInner = true) :
    Truncates σ least f (takeIf kind) (takeIf kind) := by
  refine .isAt_ite (Kind.isInner_spec hkind).1 ?_ (.pure false)
  exact (take_truncates_of hkind).bind fun _ => .pure true

theorem expect_truncates (hkind : kind.isInner = true) :
    Truncates σ least f (expect kind) (expect kind) := by
  refine .isAt_ite (Kind.isInner_spec hkind).1 ?_ ?_
  · exact (take_truncates_of hkind).bind fun _ => .pure true
  · exact (missing_truncates _).bind fun _ => .pure false

theorem whenAt_truncates {p p' : Parser Unit} (hkind : kind.isClosing = false)
    (hp : TruncatesAt σ least (· = kind) f p p') :
    Truncates σ least f (whenAt kind p) (whenAt kind p') :=
  .isAt_ite hkind hp (.pure ())

theorem unlessAt_truncates {p p' : Parser Unit} (hkind : kind.isClosing = false)
    (hp : Truncates σ least f p p') : Truncates σ least f (unlessAt kind p) (unlessAt kind p') := by
  refine .isAt_bind hkind ?_ ?_
  · exact .pure ()
  · exact hp

theorem whenTaken_truncates {p p' : Parser Unit} (hkind : kind.isInner = true)
    (hp : Truncates σ least f p p') : Truncates σ least f (whenTaken kind p) (whenTaken kind p') :=
  (takeIf_truncates hkind).ite hp (.pure ())

theorem orMissing_truncates {p p' : Parser Bool} {missed : Wanted}
    (hp : TruncatesAt σ least wanted f p p') :
    TruncatesAt σ least wanted f (orMissing p missed) (orMissing p' missed) := by
  refine hp.bind fun a => ?_
  cases a with
  | true => exact .pure ()
  | false => exact missing_truncates missed

/-! ## Going back -/

/-- What is taken back is as it was, and what is not goes on. -/
theorem attempt_truncates {p p' : Parser Bool} (hp : TruncatesAt σ 0 wanted f p p')
    (hopens : OpensAt wanted p p) (hopens' : OpensAt wanted p' p')
    (hwanted : ¬ wanted .endOfFile) :
    TruncatesAt σ least wanted f (attempt p) (attempt p') := by
  constructor
  · intro s b t hs hmeets hrun
    obtain ⟨a, u, hpu, rfl⟩ := run_attempt_eq_some hrun
    have hcurrent : wanted s.current := hmeets.resolve_right fun hend => hwanted hend.2
    have hback := (hopens s s hs hcurrent trivial a u a u hpu hpu).2.opens
    rw [hback.rollBack_eq hs.sane]
    cases a with
    | true => exact hp.shrinks s true u hs hmeets hpu
    | false => exact ⟨hs, Nat.le_refl _⟩
  intro s s' hs hkind hfloor hlists b t b' t' hrun hrun' _
  obtain ⟨a, u, hpu, rfl⟩ := run_attempt_eq_some hrun
  obtain ⟨a', u', hpu', rfl⟩ := run_attempt_eq_some hrun'
  obtain ⟨rfl, hu⟩ :=
    hp.keeps s s' hs hkind hfloor hlists a u a' u' hpu hpu' (Nat.zero_le _)
  have hcurrent : wanted s.current := by
    rcases hs.current_cases with ⟨-, heq⟩ | ⟨-, heq, -⟩
    · rwa [heq]
    · rw [heq] at hkind
      exact absurd hkind hwanted
  have hback := (hopens s s hs.fair.alike hcurrent trivial a' u a' u hpu hpu).2.opens
  have hback' := (hopens' s' s' hs.fair'.alike hkind trivial a' u' a' u' hpu' hpu').2.opens
  refine ⟨rfl, ?_⟩
  rw [hback.rollBack_eq hs.fair.sane, hback'.rollBack_eq hs.fair'.sane]
  cases a' with
  | true => exact hu
  | false => exact .refl hs

/-! ## Loops -/

section

variable {step step' : Parser Bool}

theorem loopWithin_truncates (hstep : Truncates σ least f step step') (n n' : Nat) :
    Truncates σ least f (loopWithin n step) (loopWithin n' step') := by
  induction n generalizing n' with
  | zero =>
    constructor
    · exact fun s a t _ _ hrun => nomatch hrun
    · exact fun s s' _ _ _ _ a t a' t' hrun _ => nomatch hrun
  | succ n ih =>
    cases n' with
    | succ n' => exact hstep.ite (ih n') (.pure ())
    | zero =>
      refine ⟨(hstep.ite (ih 0) (.pure ())).shrinks, ?_⟩
      exact fun s s' _ _ _ _ a t a' t' _ hrun' => nomatch hrun'

theorem loop_truncates (hstep : Truncates σ least f step step') :
    Truncates σ least f (loop step) (loop step') :=
  ⟨fun s => (loopWithin_truncates hstep _ 0).shrinks s,
    fun s s' => (loopWithin_truncates hstep _ _).keeps s s'⟩

theorem separatedWithin_truncates (hkind : kind.isInner = true)
    (hstep : Truncates σ least f step step') (n n' : Nat) :
    Truncates σ least f (separatedWithin n kind step) (separatedWithin n' kind step') := by
  induction n generalizing n' with
  | zero =>
    constructor
    · exact fun s a t _ _ hrun => nomatch hrun
    · exact fun s s' _ _ _ _ a t a' t' hrun _ => nomatch hrun
  | succ n ih =>
    have hagain (n' : Nat) := hstep.ite ((takeIf_truncates hkind).ite (ih n') (.pure true))
      (TruncatesAt.pure false)
    cases n' with
    | succ n' => exact hagain n'
    | zero =>
      refine ⟨(hagain 0).shrinks, ?_⟩
      exact fun s s' _ _ _ _ a t a' t' _ hrun' => nomatch hrun'

theorem separated_truncates (hkind : kind.isInner = true) (hstep : Truncates σ least f step step') :
    Truncates σ least f (separated kind step) (separated kind step') :=
  ⟨fun s => (separatedWithin_truncates hkind hstep _ 0).shrinks s,
    fun s s' => (separatedWithin_truncates hkind hstep _ _).keeps s s'⟩

end

end StatementCompletion.Grammar
