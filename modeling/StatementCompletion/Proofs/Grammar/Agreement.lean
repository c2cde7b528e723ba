import StatementCompletion.Grammar.Parser
import StatementCompletion.Proofs.Grammar.Alike

/-!
# Parsers in step

Two parsers are run from alike states, and each comes to an end.  `InStep` says that they give the
same answer and how the states they come to are related to those they began in.  The rules of the
grammar are run in step with themselves; the two sides differ in the markers they set and in the
rules inside, which may be nested to different depths.

* `Agrees` is what every rule does: the states are alike again, and both rows have evolved above
  markers on one level.  A rule that makes a statement, a member or a block from a marker on asks
  for a footing: that the row begins with a token there, or that nothing is built from there on yet.
* `OpensAt` is what a rule does that takes the current token in before anything else, if
  the token is of a wanted kind.
* `ReadsAt` is what a rule does that leaves the state as it was, and `Retracts` what one does that
  leaves it or opens, so that the row can be cut back.

Nothing is said of bounds here: a parser that runs past one of its bounds has no result, and nothing
has to be shown about it.
-/

namespace StatementCompletion.Grammar

variable {α β : Type}

/-! ## The judgement -/

/-- Two parsers that have results from alike states, where the current token is of a wanted kind and
something more holds, give the same answer, and something holds of where they come to. -/
def InStep (wanted : Kind → Prop) (pre : State → State → Prop)
    (post : State → State → State → State → Prop) (p p' : Parser α) : Prop :=
  ∀ s s', Alike s s' → wanted s.current → pre s s' →
    ∀ a t a' t', p.run s = some (a, t) → p'.run s' = some (a', t') → a' = a ∧ post s s' t t'

/-- What holds of a row from a marker on. -/
inductive Footing where
  /-- Nothing in particular. -/
  | any
  /-- There is nothing yet, or it begins with a token. -/
  | ready
  /-- It begins with a token. -/
  | begun
deriving DecidableEq

/-- A footing that a row keeps while it evolves. -/
class Footing.Lasting (foot : Footing) : Prop where
  ne_ready : foot ≠ .ready

instance : Footing.Lasting .any :=
  ⟨nofun⟩

instance : Footing.Lasting .begun :=
  ⟨nofun⟩

/-- Two states have a footing above markers. -/
def Footing.Holds (f f' : Nat) (s s' : State) : Footing → Prop
  | .any => True
  | .ready =>
    (f = s.marker ∧ f' = s'.marker)
      ∨ (Node.BeginsWithToken (s.firm.drop f) ∧ Node.BeginsWithToken (s'.firm.drop f'))
  | .begun => Node.BeginsWithToken (s.firm.drop f) ∧ Node.BeginsWithToken (s'.firm.drop f')

/-- Two states with markers on one level and a footing from there on. -/
structure Faces (foot : Footing) (f f' : Nat) (s s' : State) : Prop where
  level : Level f f' s s'
  holds : foot.Holds f f' s s'

/-- Two states have evolved above markers and are alike. -/
structure Abreast (f f' : Nat) (s s' t t' : State) : Prop where
  alike : Alike t t'
  evolves : Evolves f s t
  evolves' : Evolves f' s' t'

/-- Two states have taken their current token in and evolved on top of it, and are alike. -/
structure Opened (s s' t t' : State) : Prop where
  alike : Alike t t'
  opens : Opens s t
  opens' : Opens s' t'

/-- Two states are as they were. -/
def Unchanged (s s' t t' : State) : Prop :=
  t = s ∧ t' = s'

/-- Parsers that agree where the current token is of a wanted kind. -/
abbrev AgreesAt (wanted : Kind → Prop) (foot : Footing) (f f' : Nat) (p p' : Parser α) : Prop :=
  InStep wanted (Faces foot f f') (Abreast f f') p p'

/-- Parsers that agree. -/
abbrev Agrees (foot : Footing) (f f' : Nat) (p p' : Parser α) : Prop :=
  AgreesAt (fun _ => True) foot f f' p p'

/-- Parsers that take the current token in if it is of a wanted kind, and agree. -/
abbrev OpensAt (wanted : Kind → Prop) (p p' : Parser α) : Prop :=
  InStep wanted (fun _ _ => True) Opened p p'

/-- The same from the ends of the rows on. -/
abbrev OpensFrom (wanted : Kind → Prop) (m m' : Nat) (p p' : Parser α) : Prop :=
  InStep wanted (fun s s' => m = s.marker ∧ m' = s'.marker) Opened p p'

/-- Parsers that only read. -/
abbrev ReadsAt (wanted : Kind → Prop) (p p' : Parser α) : Prop :=
  InStep wanted (fun _ _ => True) Unchanged p p'

/-- Two states from which the row can be cut back to what it was. -/
def Retracted (s s' t t' : State) : Prop :=
  Unchanged s s' t t' ∨ Opened s s' t t'

/-- Parsers that can be taken back. -/
abbrev RetractsAt (wanted : Kind → Prop) (p p' : Parser α) : Prop :=
  InStep wanted (fun _ _ => True) Retracted p p'

/-- The same whatever the current token is. -/
abbrev Retracts (p p' : Parser α) : Prop :=
  RetractsAt (fun _ => True) p p'

/-- A parser that tells by the current token whether what it is for begins there, and leaves the
state alone if it does not. -/
structure Phrase (starts : Kind → Bool) (p : Parser Bool) : Prop where
  yes : ∀ {s a t}, starts s.current = true → p.run s = some (a, t) → a = true
  no : ∀ {s a t}, starts s.current = false → p.run s = some (a, t) → a = false ∧ t = s

/-- Two such parsers that take the current token in where they do not leave it alone. -/
structure Phrases (starts : Kind → Bool) (p p' : Parser Bool) : Prop where
  phrase : Phrase starts p
  phrase' : Phrase starts p'
  opens : OpensAt (starts · = true) p p'

variable {wanted wanted' : Kind → Prop} {kind : Kind} {foot : Footing} {f f' m m' : Nat}
  {pre : State → State → Prop} {post : State → State → State → State → Prop} {p p' : Parser α}
  {g g' : α → Parser β} {s s' t t' u u' : State}

/-! ## States in step -/

theorem Abreast.refl (h : Alike s s') : Abreast f f' s s' s s' :=
  ⟨h, .refl, .refl⟩

theorem Abreast.trans (h : Abreast f f' s s' t t') (htu : Abreast f f' t t' u u') :
    Abreast f f' s s' u u' :=
  ⟨htu.alike, h.evolves.trans htu.evolves, h.evolves'.trans htu.evolves'⟩

theorem Abreast.lower (h : Abreast m m' s s' t t') (hfloor : f ≤ m) (hfloor' : f' ≤ m') :
    Abreast f f' s s' t t' :=
  ⟨h.alike, h.evolves.lower hfloor, h.evolves'.lower hfloor'⟩

theorem Opened.abreast (h : Opened s s' t t') (hfloor : f ≤ s.marker) (hfloor' : f' ≤ s'.marker) :
    Abreast f f' s s' t t' :=
  ⟨h.alike, h.opens.evolves hfloor, h.opens'.evolves hfloor'⟩

theorem Opened.trans (h : Opened s s' t t') (htu : Abreast s.marker s'.marker t t' u u') :
    Opened s s' u u' :=
  ⟨htu.alike, h.opens.trans htu.evolves, h.opens'.trans htu.evolves'⟩

/-- The ends of the two rows are as good a footing as any but one with a token. -/
theorem Faces.of_alike (h : Alike s s') : Faces .ready s.marker s'.marker s s' :=
  ⟨h.level, .inl ⟨rfl, rfl⟩⟩

theorem Faces.lift (h : Faces foot f f' s s') : Faces .any f f' s s' :=
  ⟨h.level, trivial⟩

theorem Faces.begun_ready (h : Faces .begun f f' s s') : Faces .ready f f' s s' :=
  ⟨h.level, .inr h.holds⟩

/-- A footing other than an empty one stays. -/
theorem Faces.evolves (h : Faces foot f f' s s') (halike : Alike s s') (hfoot : foot ≠ .ready)
    (ht : Abreast f f' s s' t t') : Faces foot f f' t t' := by
  have hlevel := h.level.evolves halike ht.evolves ht.evolves'
  cases foot with
  | any => exact ⟨hlevel, trivial⟩
  | ready => exact absurd rfl hfoot
  | begun =>
    obtain ⟨hleft, hright⟩ := h.holds
    exact ⟨hlevel, ht.evolves.beginsWithToken halike.sane hleft,
      ht.evolves'.beginsWithToken halike.sane' hright⟩

/-- Once the current token is taken in, a footing that was ready has begun. -/
theorem Faces.opened (h : Faces .ready f f' s s') (halike : Alike s s') (ht : Opened s s' t t') :
    Faces .begun f f' t t' := by
  have hevolves := ht.abreast h.level.left h.level.right
  have hlevel := h.level.evolves halike hevolves.evolves hevolves.evolves'
  rcases h.holds with ⟨rfl, rfl⟩ | ⟨hleft, hright⟩
  · exact ⟨hlevel, ht.opens.beginsWithToken halike.sane, ht.opens'.beginsWithToken halike.sane'⟩
  · exact ⟨hlevel, hevolves.evolves.beginsWithToken halike.sane hleft,
      hevolves.evolves'.beginsWithToken halike.sane' hright⟩

/-- Once the current token is taken in, the ends that the rows had are a footing. -/
theorem Opened.faces (ht : Opened s s' t t') (halike : Alike s s') :
    Faces .begun s.marker s'.marker t t' :=
  (Faces.of_alike halike).opened halike ht

/-! ## One parser after another -/

/-- The runs of two parsers, one after the other. -/
theorem run_bind_eq_some {p : Parser α} {g : α → Parser β} {b : β} :
    (p >>= g).run s = some (b, u) ↔ ∃ a t, p.run s = some (a, t) ∧ (g a).run t = some (b, u) := by
  rw [StateT.run_bind]
  show Option.bind _ _ = _ ↔ _
  rw [Option.bind_eq_some_iff]
  exact ⟨fun ⟨⟨a, t⟩, hp, hg⟩ => ⟨a, t, hp, hg⟩, fun ⟨a, t, hp, hg⟩ => ⟨⟨a, t⟩, hp, hg⟩⟩

theorem run_pure_eq_some {a b : α} : (pure a : Parser α).run s = some (b, t) ↔ b = a ∧ t = s := by
  rw [StateT.run_pure]
  show some (a, s) = _ ↔ _
  rw [Option.some.injEq, Prod.mk.injEq, eq_comm, @eq_comm _ s]

/-- One pair of parsers after another, if what holds between them is what the second pair asks
for. -/
theorem InStep.seq {pre₁ : State → State → Prop}
    {post₁ post₂ : State → State → State → State → Prop} (hp : InStep wanted pre post₁ p p')
    (hmid : ∀ {s s' t t'}, Alike s s' → wanted s.current → pre s s' → post₁ s s' t t' →
      Alike t t' ∧ wanted' t.current ∧ pre₁ t t'
        ∧ ∀ {u u'}, post₂ t t' u u' → post s s' u u')
    (hg : ∀ a, InStep wanted' pre₁ post₂ (g a) (g' a)) :
    InStep wanted pre post (p >>= g) (p' >>= g') := by
  intro s s' halike hkind hs b u b' u' hrun hrun'
  obtain ⟨a, t, hpt, hgu⟩ := run_bind_eq_some.1 hrun
  obtain ⟨a', t', hpt', hgu'⟩ := run_bind_eq_some.1 hrun'
  obtain ⟨rfl, ht⟩ := hp s s' halike hkind hs a t a' t' hpt hpt'
  obtain ⟨halike', hkind', hpre, hpost⟩ := hmid halike hkind hs ht
  obtain ⟨rfl, hu⟩ := hg a' t t' halike' hkind' hpre b u b' u' hgu hgu'
  exact ⟨rfl, hpost hu⟩

theorem InStep.mono (h : InStep wanted pre post p p')
    (hwanted : ∀ kind, wanted' kind → wanted kind) : InStep wanted' pre post p p' :=
  fun s s' halike hkind hs => h s s' halike (hwanted _ hkind) hs

theorem AgreesAt.lift (h : AgreesAt wanted .any f f' p p') : AgreesAt wanted foot f f' p p' :=
  fun s s' halike hkind hs => h s s' halike hkind hs.lift

theorem AgreesAt.ready_begun (h : AgreesAt wanted .ready f f' p p') :
    AgreesAt wanted .begun f f' p p' :=
  fun s s' halike hkind hs => h s s' halike hkind hs.begun_ready

theorem AgreesAt.at (h : AgreesAt (fun _ => True) foot f f' p p') :
    AgreesAt wanted foot f f' p p' :=
  h.mono fun _ _ => trivial

theorem AgreesAt.bind (hp : AgreesAt wanted foot f f' p p')
    [foot.Lasting] (hg : ∀ a, Agrees foot f f' (g a) (g' a)) :
    AgreesAt wanted foot f f' (p >>= g) (p' >>= g') := by
  refine InStep.seq hp (fun halike _ hs ht => ?_) hg
  exact ⟨ht.alike, trivial, hs.evolves halike Footing.Lasting.ne_ready ht, ht.trans⟩

theorem InStep.narrow {pre' : State → State → Prop} (h : InStep wanted pre post p p')
    (hpre : ∀ {s s'}, pre' s s' → pre s s') : InStep wanted pre' post p p' :=
  fun s s' halike hkind hs => h s s' halike hkind (hpre hs)

/-- What follows a token has the footing that it needs from the end of the row on. -/
theorem OpensAt.bindFrom (hp : OpensAt wanted p p') (hg : ∀ a, Agrees .begun m m' (g a) (g' a)) :
    OpensFrom wanted m m' (p >>= g) (p' >>= g') := by
  refine InStep.seq (hp.narrow fun _ => trivial) (fun halike _ hs ht => ?_) hg
  obtain ⟨rfl, rfl⟩ := hs
  exact ⟨ht.alike, trivial, ht.faces halike, ht.trans⟩

/-- So it has from any marker on that is ready. -/
theorem OpensAt.bindReady (hp : OpensAt wanted p p')
    (hg : ∀ a, Agrees .begun f f' (g a) (g' a)) :
    AgreesAt wanted .ready f f' (p >>= g) (p' >>= g') := by
  refine InStep.seq (hp.narrow fun _ => trivial) (fun halike _ hs ht => ?_) hg
  have hopened := ht.abreast hs.level.left hs.level.right
  exact ⟨ht.alike, trivial, hs.opened halike ht, hopened.trans⟩

theorem OpensFrom.opens (hp : ∀ m m', OpensFrom wanted m m' p p') : OpensAt wanted p p' :=
  fun s s' halike hkind _ => hp s.marker s'.marker s s' halike hkind ⟨rfl, rfl⟩

theorem OpensAt.bind (hp : OpensAt wanted p p')
    (hg : ∀ a f f', Agrees .begun f f' (g a) (g' a)) : OpensAt wanted (p >>= g) (p' >>= g') :=
  OpensFrom.opens fun m m' => hp.bindFrom fun a => hg a m m'

/-- What opens agrees, whatever the footing. -/
theorem OpensAt.agreesAt (hp : OpensAt wanted p p') : AgreesAt wanted foot f f' p p' := by
  intro s s' halike hkind hs a t a' t' hrun hrun'
  obtain ⟨ha, ht⟩ := hp s s' halike hkind trivial a t a' t' hrun hrun'
  exact ⟨ha, ht.abreast hs.level.left hs.level.right⟩

theorem OpensAt.retractsAt (hp : OpensAt wanted p p') : RetractsAt wanted p p' := by
  intro s s' halike hkind hs a t a' t' hrun hrun'
  obtain ⟨ha, ht⟩ := hp s s' halike hkind hs a t a' t' hrun hrun'
  exact ⟨ha, .inr ht⟩

theorem RetractsAt.agreesAt (hp : RetractsAt wanted p p') : AgreesAt wanted foot f f' p p' := by
  intro s s' halike hkind hs a t a' t' hrun hrun'
  obtain ⟨ha, ht | ht⟩ := hp s s' halike hkind trivial a t a' t' hrun hrun'
  · obtain ⟨rfl, rfl⟩ := ht
    exact ⟨ha, .refl halike⟩
  · exact ⟨ha, ht.abreast hs.level.left hs.level.right⟩

/-- One parser that can be taken back after another. -/
theorem RetractsAt.bind (hp : RetractsAt wanted p p') (hg : ∀ a, Retracts (g a) (g' a)) :
    RetractsAt wanted (p >>= g) (p' >>= g') := by
  intro s s' halike hkind hs b u b' u' hrun hrun'
  obtain ⟨a, t, hpt, hgu⟩ := run_bind_eq_some.1 hrun
  obtain ⟨a', t', hpt', hgu'⟩ := run_bind_eq_some.1 hrun'
  obtain ⟨rfl, ht | ht⟩ := hp s s' halike hkind hs a t a' t' hpt hpt'
  · obtain ⟨rfl, rfl⟩ := ht
    exact hg a' t t' halike trivial trivial b u b' u' hgu hgu'
  · have hu := (hg a').agreesAt t t' ht.alike trivial (ht.faces halike) b u b' u' hgu hgu'
    exact ⟨hu.1, .inr (ht.trans hu.2)⟩

/-! ## Looking -/

theorem ReadsAt.bind {q q' : Parser α} (hq : ReadsAt wanted q q')
    (hg : ∀ a, InStep wanted pre post (g a) (g' a)) :
    InStep wanted pre post (q >>= g) (q' >>= g') := by
  refine InStep.seq (hq.narrow fun _ => trivial) (fun halike hkind hs ht => ?_) hg
  obtain ⟨rfl, rfl⟩ := ht
  exact ⟨halike, hkind, hs, id⟩

theorem ReadsAt.pure (a : α) : ReadsAt wanted (pure a) (pure a) := by
  intro s s' halike hkind hs b u b' u' hrun hrun'
  obtain ⟨rfl, rfl⟩ := run_pure_eq_some.1 hrun
  obtain ⟨rfl, rfl⟩ := run_pure_eq_some.1 hrun'
  exact ⟨rfl, rfl, rfl⟩

theorem ReadsAt.agreesAt (hp : ReadsAt wanted p p') : AgreesAt wanted foot f f' p p' := by
  intro s s' halike hkind hs a t a' t' hrun hrun'
  obtain ⟨ha, rfl, rfl⟩ := hp s s' halike hkind trivial a t a' t' hrun hrun'
  exact ⟨ha, .refl halike⟩

theorem AgreesAt.pure (a : α) : AgreesAt wanted foot f f' (pure a) (pure a) :=
  (ReadsAt.pure a).agreesAt

theorem ReadsAt.retractsAt (hp : ReadsAt wanted p p') : RetractsAt wanted p p' := by
  intro s s' halike hkind hs a t a' t' hrun hrun'
  obtain ⟨ha, ht⟩ := hp s s' halike hkind hs a t a' t' hrun hrun'
  exact ⟨ha, .inl ht⟩

/-- What is read off the states is the same. -/
theorem readsAt_of_eq {read : State → α} (h : ∀ {s s'}, Alike s s' → wanted s.current →
    read s' = read s) : ReadsAt wanted (do return read (← get)) (do return read (← get)) := by
  intro s s' halike hkind hs a t a' t' hrun hrun'
  obtain ⟨rfl, rfl⟩ := Prod.mk.inj (Option.some.inj hrun)
  obtain ⟨rfl, rfl⟩ := Prod.mk.inj (Option.some.inj hrun')
  exact ⟨h halike hkind, rfl, rfl⟩

theorem isAt_reads_in_step (kind : Kind) : ReadsAt wanted (isAt kind) (isAt kind) :=
  readsAt_of_eq fun halike _ => by rw [halike.current_eq]

theorem isAtAny_reads_in_step (is : Kind → Bool) : ReadsAt wanted (isAtAny is) (isAtAny is) :=
  readsAt_of_eq fun halike _ => by rw [halike.current_eq]

theorem peek_reads_in_step : ReadsAt wanted peek peek :=
  readsAt_of_eq fun halike _ => halike.next.current_eq

/-- What goes by the kind of the current token. -/
theorem InStep.current_bind {g g' : Kind → Parser β}
    (hg : ∀ kind, wanted kind → InStep (· = kind) pre post (g kind) (g' kind)) :
    InStep wanted pre post (current >>= g) (current >>= g') := by
  intro s s' halike hkind hs b u b' u' hrun hrun'
  have hrun : (g s.current).run s = some (b, u) := hrun
  have hrun' : (g' s'.current).run s' = some (b', u') := hrun'
  rw [halike.current_eq] at hrun'
  exact hg s.current hkind s s' halike rfl hs b u b' u' hrun hrun'

/-- What goes by the kind of the token behind the current one. -/
theorem InStep.peek_bind {g g' : Kind → Parser β}
    (hg : ∀ next, InStep wanted (fun s s' => pre s s' ∧ s.next.current = next) post (g next)
      (g' next)) :
    InStep wanted pre post (peek >>= g) (peek >>= g') := by
  intro s s' halike hkind hs b u b' u' hrun hrun'
  have hrun : (g s.next.current).run s = some (b, u) := hrun
  have hrun' : (g' s'.next.current).run s' = some (b', u') := hrun'
  rw [halike.next.current_eq] at hrun'
  exact hg s.next.current s s' halike hkind ⟨hs, rfl⟩ b u b' u' hrun hrun'

theorem InStep.isAtAny_cases {is : Kind → Bool} {g g' : Bool → Parser β}
    (htrue : InStep (is · = true) pre post (g true) (g' true))
    (hfalse : InStep (fun kind => wanted kind ∧ is kind = false) pre post (g false) (g' false)) :
    InStep wanted pre post (isAtAny is >>= g) (isAtAny is >>= g') := by
  intro s s' halike hkind hs b u b' u' hrun hrun'
  have hrun : (g (is s.current)).run s = some (b, u) := hrun
  have hrun' : (g' (is s'.current)).run s' = some (b', u') := hrun'
  rw [halike.current_eq] at hrun'
  cases his : is s.current with
  | true =>
    rw [his] at hrun hrun'
    exact htrue s s' halike his hs b u b' u' hrun hrun'
  | false =>
    rw [his] at hrun hrun'
    exact hfalse s s' halike ⟨hkind, his⟩ hs b u b' u' hrun hrun'

theorem InStep.isAtAny_bind {is : Kind → Bool} {g g' : Bool → Parser β}
    (htrue : InStep (is · = true) pre post (g true) (g' true))
    (hfalse : InStep wanted pre post (g false) (g' false)) :
    InStep wanted pre post (isAtAny is >>= g) (isAtAny is >>= g') :=
  .isAtAny_cases htrue (hfalse.mono fun _ h => h.1)

theorem InStep.isAt_bind {g g' : Bool → Parser β}
    (htrue : InStep (· = kind) pre post (g true) (g' true))
    (hfalse : InStep wanted pre post (g false) (g' false)) :
    InStep wanted pre post (isAt kind >>= g) (isAt kind >>= g') :=
  @InStep.isAtAny_bind _ wanted pre post (fun k => decide (k = kind)) g g'
    (htrue.mono fun _ h => of_decide_eq_true h) hfalse

theorem InStep.isAt_ite {p p' q q' : Parser β} (hp : InStep (· = kind) pre post p p')
    (hq : InStep wanted pre post q q') :
    InStep wanted pre post (do if ← isAt kind then p else q) (do if ← isAt kind then p' else q') :=
  .isAt_bind hp hq

theorem InStep.isAtAny_ite {is : Kind → Bool} {p p' q q' : Parser β}
    (hp : InStep (is · = true) pre post p p') (hq : InStep wanted pre post q q') :
    InStep wanted pre post (do if ← isAtAny is then p else q)
      (do if ← isAtAny is then p' else q') :=
  .isAtAny_bind hp hq

/-- Either of two kinds. -/
theorem InStep.isAtEither_ite {kind' : Kind} {p p' q q' : Parser β}
    (hp : InStep (· = kind) pre post p p') (hp' : InStep (· = kind') pre post p p')
    (hq : InStep wanted pre post q q') :
    InStep wanted pre post (do if (← isAt kind) || (← isAt kind') then p else q)
      (do if (← isAt kind) || (← isAt kind') then p' else q') := by
  refine .isAt_bind ?_ ?_
  · exact (isAt_reads_in_step kind').bind fun _ => hp
  · exact .isAt_bind hp' hq

/-- A kind and the kind behind it. -/
theorem InStep.isAtBefore_ite {behind : Kind} {p p' q q' : Parser β}
    (hp : InStep (· = kind) pre post p p') (hq : ∀ {wanted}, InStep wanted pre post q q') :
    InStep wanted pre post (do if (← isAt kind) && (← peek) = behind then p else q)
      (do if (← isAt kind) && (← peek) = behind then p' else q') := by
  refine .isAt_bind ?_ ?_
  · refine peek_reads_in_step.bind fun next => ?_
    by_cases hnext : next = behind
    · simpa [hnext] using hp
    · simpa [hnext] using hq
  · exact peek_reads_in_step.bind fun _ => hq

/-! ## Markers -/

/-- Markers are set on one level, and nothing is built from there on yet. -/
theorem AgreesAt.marker_bind {g g' : Nat → Parser β}
    (hg : ∀ m m', AgreesAt wanted .ready m m' (g m) (g' m')) :
    AgreesAt wanted foot f f' (marker >>= g) (marker >>= g') := by
  intro s s' halike hkind hs b u b' u' hrun hrun'
  obtain ⟨hb, hu⟩ := hg s.marker s'.marker s s' halike hkind (.of_alike halike) b u b' u' hrun hrun'
  exact ⟨hb, hu.lower hs.level.left hs.level.right⟩

theorem OpensAt.marker_bind {g g' : Nat → Parser β}
    (hg : ∀ m m', OpensFrom wanted m m' (g m) (g' m')) :
    OpensAt wanted (marker >>= g) (marker >>= g') :=
  fun s s' halike hkind _ => hg s.marker s'.marker s s' halike hkind ⟨rfl, rfl⟩

theorem RetractsAt.marker_bind {g g' : Nat → Parser β}
    (hg : ∀ m m', InStep wanted (fun s s' => m = s.marker ∧ m' = s'.marker) Retracted
      (g m) (g' m')) :
    RetractsAt wanted (marker >>= g) (marker >>= g') :=
  fun s s' halike hkind _ => hg s.marker s'.marker s s' halike hkind ⟨rfl, rfl⟩

theorem OpensFrom.retracts (hp : OpensFrom wanted m m' p p') :
    InStep wanted (fun s s' => m = s.marker ∧ m' = s'.marker) Retracted p p' := by
  intro s s' halike hkind hs a t a' t' hrun hrun'
  obtain ⟨ha, ht⟩ := hp s s' halike hkind hs a t a' t' hrun hrun'
  exact ⟨ha, .inr ht⟩

/-- Where a row begins with a token there is something above the marker. -/
theorem marker_ne_of_beginsWithToken (hs : s.Sane) (h : Node.BeginsWithToken (s.firm.drop f)) :
    s.marker ≠ f := by
  rintro rfl
  obtain ⟨leaf, hleaf, -⟩ := h
  have hle : s.firm.length ≤ s.marker := by
    rw [hs.marker_eq]
    exact Nat.le_add_right _ _
  rw [List.drop_of_length_le hle] at hleaf
  cases hleaf

/-- Whether anything is built from a marker on. -/
theorem AgreesAt.built_ite {q q' r r' : Parser β} (hq : AgreesAt wanted .begun f f' q q')
    (hr : ReadsAt wanted r r') :
    AgreesAt wanted .ready f f' (do if (← marker) ≠ f then q else r)
      (do if (← marker) ≠ f' then q' else r') := by
  intro s s' halike hkind hs b u b' u' hrun hrun'
  have hrun : (if s.marker ≠ f then q else r).run s = some (b, u) := hrun
  have hrun' : (if s'.marker ≠ f' then q' else r').run s' = some (b', u') := hrun'
  rcases hs.holds with ⟨hsame, hsame'⟩ | hbegun
  · rw [if_neg (not_not.2 hsame.symm)] at hrun
    rw [if_neg (not_not.2 hsame'.symm)] at hrun'
    exact hr.agreesAt s s' halike hkind hs b u b' u' hrun hrun'
  · rw [if_pos (marker_ne_of_beginsWithToken halike.sane hbegun.1)] at hrun
    rw [if_pos (marker_ne_of_beginsWithToken halike.sane' hbegun.2)] at hrun'
    exact hq s s' halike hkind ⟨hs.level, hbegun⟩ b u b' u' hrun hrun'

theorem AgreesAt.unbuilt_ite {q q' r r' : Parser β} (hq : AgreesAt wanted .begun f f' q q')
    (hr : ReadsAt wanted r r') :
    AgreesAt wanted .ready f f' (do if (← marker) = f then r else q)
      (do if (← marker) = f' then r' else q') := by
  simpa only [ne_eq, ite_not] using hq.built_ite hr

/-- What can be taken back leaves a footing that is ready. -/
theorem RetractsAt.bindReady (hp : RetractsAt wanted p p')
    (hg : ∀ a, Agrees .ready f f' (g a) (g' a)) :
    AgreesAt wanted .ready f f' (p >>= g) (p' >>= g') := by
  refine InStep.seq (hp.narrow fun _ => trivial) (fun halike _ hs ht => ?_) hg
  rcases ht with ⟨rfl, rfl⟩ | ht
  · exact ⟨halike, trivial, hs, id⟩
  · have hopened := ht.abreast hs.level.left hs.level.right
    exact ⟨ht.alike, trivial, (hs.opened halike ht).begun_ready, hopened.trans⟩

/-! ## Changing the row -/

theorem take_opens (hwanted : ∀ kind, wanted kind → kind ≠ .endOfFile) :
    OpensAt wanted take take := by
  intro s s' halike hkind _ a t a' t' hrun hrun'
  obtain ⟨rfl, rfl⟩ := Prod.mk.inj (Option.some.inj hrun)
  obtain ⟨rfl, rfl⟩ := Prod.mk.inj (Option.some.inj hrun')
  have hsome : s.token?.isSome := by
    cases htoken : s.token? with
    | none =>
      refine absurd ?_ (hwanted _ hkind)
      rw [State.current, htoken]
    | some token => rfl
  have hsome' : s'.token?.isSome := halike.token ▸ hsome
  exact ⟨rfl, halike.take _, ⟨hsome, _, .inl rfl, .refl⟩, ⟨hsome', _, .inl rfl, .refl⟩⟩

theorem take_agrees : Agrees foot f f' take take := by
  intro s s' halike _ _ a t a' t' hrun hrun'
  obtain ⟨rfl, rfl⟩ := Prod.mk.inj (Option.some.inj hrun)
  obtain ⟨rfl, rfl⟩ := Prod.mk.inj (Option.some.inj hrun')
  exact ⟨rfl, halike.take _, Evolves.refl.take (.inl rfl), Evolves.refl.take (.inl rfl)⟩

theorem takeUnexpected_agrees : Agrees foot f f' takeUnexpected takeUnexpected := by
  intro s s' halike _ _ a t a' t' hrun hrun'
  obtain ⟨rfl, rfl⟩ := Prod.mk.inj (Option.some.inj hrun)
  obtain ⟨rfl, rfl⟩ := Prod.mk.inj (Option.some.inj hrun')
  exact ⟨rfl, halike.take _, Evolves.refl.take (.inr rfl), Evolves.refl.take (.inr rfl)⟩

theorem missing_agrees (wanted : Wanted) : Agrees foot f f' (missing wanted) (missing wanted) := by
  intro s s' halike _ _ a t a' t' hrun hrun'
  obtain ⟨rfl, rfl⟩ := Prod.mk.inj (Option.some.inj hrun)
  obtain ⟨rfl, rfl⟩ := Prod.mk.inj (Option.some.inj hrun')
  exact ⟨rfl, halike.markMissing _, Evolves.refl.missing _, Evolves.refl.missing _⟩

/-- Kinds of branches that may be made from any marker on. -/
def Kind.isFree (kind : Kind) : Bool :=
  !kind.isAnchored && !kind.isBracket

/-- Branches of most kinds may be made from any marker on. -/
theorem wrap_agrees (kind : Kind) (h : Kind.isFree kind = true) :
    Agrees foot f f' (wrap f kind) (wrap f' kind) := by
  intro s s' halike _ hs a t a' t' hrun hrun'
  obtain ⟨rfl, rfl⟩ := Prod.mk.inj (Option.some.inj hrun)
  obtain ⟨rfl, rfl⟩ := Prod.mk.inj (Option.some.inj hrun')
  rw [Kind.isFree, Bool.and_eq_true, Bool.not_eq_true', Bool.not_eq_true'] at h
  have hfree : kind.isAnchored ≠ true := Bool.eq_false_iff.1 h.1
  exact ⟨rfl, halike.wrap hs.level kind,
    Evolves.refl.wrap kind (Nat.le_refl _) (absurd · hfree) h.2,
    Evolves.refl.wrap kind (Nat.le_refl _) (absurd · hfree) h.2⟩

/-- Statements, members and blocks are made where the row begins with a token. -/
theorem wrap_anchored_agrees (kind : Kind) (h : kind.isBracket = false) :
    Agrees .begun f f' (wrap f kind) (wrap f' kind) := by
  intro s s' halike _ hs a t a' t' hrun hrun'
  obtain ⟨rfl, rfl⟩ := Prod.mk.inj (Option.some.inj hrun)
  obtain ⟨rfl, rfl⟩ := Prod.mk.inj (Option.some.inj hrun')
  exact ⟨rfl, halike.wrap hs.level kind,
    Evolves.refl.wrap kind (Nat.le_refl _) (fun _ => hs.holds.1) h,
    Evolves.refl.wrap kind (Nat.le_refl _) (fun _ => hs.holds.2) h⟩

/-- A branch of what is built from a marker on, if there is anything. -/
theorem built_wrap_agrees (kind : Kind) (h : Kind.isFree kind = true) :
    Agrees .begun f f' (do if (← marker) ≠ f then wrap f kind)
      (do if (← marker) ≠ f' then wrap f' kind) :=
  (AgreesAt.built_ite (wrap_agrees kind h) (ReadsAt.pure ())).ready_begun

end StatementCompletion.Grammar
