import StatementCompletion.Proofs.Grammar.Agreement.Sources
import StatementCompletion.Proofs.Grammar.Forming

/-!
# Two runs that go the same way

One grammar is run on two rows of tokens, and as long as the two runs see tokens of the same kinds
they do the same.  A `Coupling` says what the two states have in common, and what has become of a
run that is of no interest any more: it is gone, and whatever it does next, it stays so.  `Tracks`
says of a parser on both sides that it gives the same answer and leads from coupled states to
coupled states, unless the first run has failed.

The rows need not be equal, but above a base they are built from the same steps.  So a marker on one
side belongs to one on the other side, at the same distance from the base.

There may be a token, the keyword of a statement, at which coupled states are held: only a whole
statement that begins there leads on to coupled states.
-/

namespace StatementCompletion.Grammar

variable {α β : Type}

/-! ## What lasts -/

/-- What holds of a row and the tokens ahead and goes on to hold, whatever is built above a base. -/
structure IsLasting (base : Nat) (holds : List Node → List Token → Prop) : Prop where
  add : ∀ {row more ahead ahead'}, holds row ahead → ahead' <:+ ahead → holds (row ++ more) ahead'
  mark : ∀ {row more ahead} wanted, base ≤ row.length → holds (row ++ more) ahead →
    holds (row ++ .error (.expected wanted) [] :: more) ahead
  wrap : ∀ {row more ahead marker} kind, base ≤ row.length → base ≤ marker →
    holds (row ++ more) ahead →
      holds (row.take marker ++ .branch kind (row.drop marker) :: more) ahead

theorem Grows.sane {floor : Nat} {s t : State} (h : Grows floor s t) (hs : s.Sane) : t.Sane := by
  induction h with
  | refl => exact hs
  | take _ _ ih => exact ih.take _
  | missing wanted _ _ ih => exact ih.markMissing wanted
  | wrap kind _ _ _ ih => exact ih.wrap _ kind

/-- What lasts holds after every step that grows the row above the base. -/
theorem IsLasting.grows {base : Nat} {holds : List Node → List Token → Prop}
    (h : IsLasting base holds) {s t : State} (hs : s.Sane) (hst : Grows base s t)
    (hholds : holds s.firm s.ahead) : holds t.firm t.ahead := by
  induction hst with
  | refl => exact hholds
  | @take t node ht _ ih =>
    cases htoken : t.token? with
    | none => rwa [State.take_of_none htoken]
    | some token =>
      rw [State.firm_take htoken, List.append_assoc]
      exact h.add ih (t.ahead_take_suffix node)
  | @missing t wanted ht hsolid ih =>
    rcases t.markMissing_eq wanted with heq | heq <;> rw [heq]
    · exact ih
    · rw [(ht.sane hs).firm_insertSolid, Nat.sub_zero, List.take_length]
      refine h.mark wanted ?_ ?_
      · rwa [State.length_firm]
      · rwa [List.append_nil]
  | @wrap t marker kind ht hsolid hmarker ih =>
    rw [(ht.sane hs).firm_wrap]
    refine h.wrap kind ?_ hmarker ?_
    · rwa [State.length_firm]
    · rwa [List.append_nil]

/-! ## Couplings -/

/-- The keywords of the statements whose body may be put in braces. -/
def isGuardKeyword : Kind → Bool
  | .ifKeyword | .whileKeyword | .forKeyword => true
  | _ => false

/-- The tokens that close a header or a statement. -/
def isCloser : Kind → Bool
  | .rightParen | .semicolon | .rightBrace => true
  | _ => false

/-- The tokens at which coupled states stay coupled whatever becomes of them. -/
def isCommon (kind : Kind) : Bool :=
  !isGuardKeyword kind && !isCloser kind

theorem isCloser_of_isGuardKeyword {kind : Kind} (h : isGuardKeyword kind = true) :
    isCloser kind = false := by
  cases kind <;> first | rfl | cases h

theorem State.isSome_of_isGuardKeyword {s : State} (h : isGuardKeyword s.current = true) :
    s.token?.isSome := by
  refine isSome_of_current fun hend => ?_
  rw [hend] at h
  cases h

/-- What the states of two runs have in common, and what a run is that has failed. -/
structure Coupling where
  /-- Below this many nodes the row of the first run is left alone. -/
  base : Nat
  /-- The same in the second run. -/
  base' : Nat
  /-- The states of the two runs go together. -/
  Rel : State → State → Prop
  /-- The first run has failed. -/
  gone : List Node → List Token → Prop
  /-- The first run is at the keyword of a statement that is to be taken as a whole. -/
  Held : State → Prop
  lasting : IsLasting base gone
  fair : ∀ {s s'}, Rel s s' → s.Fair ∧ s'.Fair
  solid : ∀ {s s'}, Rel s s' → base ≤ s.solid
  marker : ∀ {s s'}, Rel s s' → s.marker + base' = s'.marker + base
  token : ∀ {s s'}, Rel s s' → s'.token?.map (·.kind) = s.token?.map (·.kind)
  onNewLine : ∀ {s s'}, Rel s s' → s'.onNewLine = s.onNewLine
  next : ∀ {s s'}, Rel s s' → isCommon s.current = true →
    s'.next.current = s.next.current ∧ s'.next.onNewLine = s.next.onNewLine
  unread : ∀ {s s' t t'}, Rel s s' → Rel t t' → s.token?.isSome → t.token?.isSome →
    (t'.unread.length = s'.unread.length ↔ t.unread.length = s.unread.length)
  held : ∀ {s}, Held s → isGuardKeyword s.current = true
  take : ∀ {s s' node}, Rel s s' → ¬ Held s → IsTaking node →
    Rel (s.take node) (s'.take node)
      ∨ isCloser s.current = true ∧ gone (s.take node).firm (s.take node).ahead
        ∧ (s.current = .rightParen → startsCastOperand (s'.take node).current = false)
  takeUnexpected : ∀ {s s'}, Rel s s' → Held s →
    gone (s.take State.unexpectedNode).firm (s.take State.unexpectedNode).ahead
  missing : ∀ {s s'} wanted, Rel s s' → Rel (s.markMissing wanted) (s'.markMissing wanted)
  wrap : ∀ {s s' m m'} {kind : Kind}, Rel s s' → base ≤ m → m + base' = m' + base →
    kind.isConstruct = true → Rel (s.wrap m kind) (s'.wrap m' kind)
  stray : ∀ {s s' t m} (kind : Kind), Rel s s' → Held s → base ≤ m → m < s.marker →
    t.Fair → Evolves (s.marker + 1) (s.take Token.node) t →
      gone (t.wrap m kind).firm (t.wrap m kind).ahead
  statement : ∀ {s s' t t' depth depth'}, Rel s s' → Held s →
    (Grammar.statement (parseTo depth)).run s = some ((), t) →
      (Grammar.statement (parseTo depth')).run s' = some ((), t') →
        gone t.firm t.ahead ∨ Rel t t'

/-- What the states of two runs have in common that go the same way whatever comes. -/
structure Pairing where
  base : Nat
  base' : Nat
  Rel : State → State → Prop
  fair : ∀ {s s'}, Rel s s' → s.Fair ∧ s'.Fair
  solid : ∀ {s s'}, Rel s s' → base ≤ s.solid
  marker : ∀ {s s'}, Rel s s' → s.marker + base' = s'.marker + base
  token : ∀ {s s'}, Rel s s' → s'.token?.map (·.kind) = s.token?.map (·.kind)
  onNewLine : ∀ {s s'}, Rel s s' → s'.onNewLine = s.onNewLine
  next : ∀ {s s'}, Rel s s' →
    s'.next.current = s.next.current ∧ s'.next.onNewLine = s.next.onNewLine
  unread : ∀ {s s'}, Rel s s' → s'.unread.length = s.unread.length
  take : ∀ {s s' node}, Rel s s' → IsTaking node → Rel (s.take node) (s'.take node)
  missing : ∀ {s s'} wanted, Rel s s' → Rel (s.markMissing wanted) (s'.markMissing wanted)
  wrap : ∀ {s s' m m'} {kind : Kind}, Rel s s' → base ≤ m → m + base' = m' + base →
    kind.isConstruct = true → Rel (s.wrap m kind) (s'.wrap m' kind)

/-- Such states are held nowhere, and no run fails. -/
def Pairing.coupling (P : Pairing) : Coupling where
  base := P.base
  base' := P.base'
  Rel := P.Rel
  gone _ _ := False
  Held _ := False
  lasting := ⟨fun h _ => h, fun _ _ h => h, fun _ _ _ h => h⟩
  fair := P.fair
  solid := P.solid
  marker := P.marker
  token := P.token
  onNewLine := P.onNewLine
  next h _ := P.next h
  unread hs ht _ _ := by rw [P.unread hs, P.unread ht]
  held h := h.elim
  take h _ hnode := .inl (P.take h hnode)
  takeUnexpected _ h := h.elim
  missing := P.missing
  wrap := P.wrap
  stray _ _ h := h.elim
  statement _ h := h.elim

namespace Coupling

variable {C : Coupling} {s s' t : State}

/-- The first run has failed in a state. -/
def Gone (C : Coupling) (s : State) : Prop :=
  C.gone s.firm s.ahead

/-- The first run has not failed, whatever happens. -/
def Never (_ : Coupling) (_ : State) : Prop :=
  False

/-- Two markers that belong together. -/
structure Level (C : Coupling) (m m' : Nat) : Prop where
  base_le : C.base ≤ m
  eq : m + C.base' = m' + C.base

theorem current_eq (h : C.Rel s s') : s'.current = s.current := by
  have hread (s : State) : s.current = (s.token?.map (·.kind)).getD .endOfFile := by
    rw [State.current]
    cases s.token? <;> rfl
  rw [hread s', hread s, C.token h]

theorem base_le_marker (h : C.Rel s s') : C.base ≤ s.marker :=
  (C.solid h).trans s.solid_le_marker

/-- The ends of the two rows belong together. -/
theorem level (h : C.Rel s s') : C.Level s.marker s'.marker :=
  ⟨base_le_marker h, C.marker h⟩

/-- Every marker above the base belongs to one. -/
theorem exists_level {m : Nat} (h : C.base ≤ m) : ∃ m', C.Level m m' :=
  ⟨m - C.base + C.base', h, by omega⟩

/-- A failure that stays whatever is built above the base. -/
class Lasts (C : Coupling) (fails : State → Prop) : Prop where
  grows : ∀ {s t}, s.Fair → Grows C.base s t → fails s → fails t

instance : C.Lasts C.Never :=
  ⟨fun _ _ h => h⟩

/-- What is gone stays so. -/
theorem Gone.grows (h : C.Gone s) (hs : s.Fair) (hst : Grows C.base s t) : C.Gone t :=
  C.lasting.grows hs.sane hst h

instance : C.Lasts C.Gone :=
  ⟨fun hs hst h => h.grows hs hst⟩

end Coupling

/-! ## The judgement -/

/-- A parser, where the current token is of a wanted kind, grows the row above the base, and the two
sides of it give the same answer and lead from coupled states to coupled states,
unless the first run fails. -/
structure Tracks (C : Coupling) (fails : State → Prop) (wanted : Kind → Prop) (p p' : Parser α) :
    Prop where
  grows : ∀ {s a t}, s.Fair → C.base ≤ s.solid → wanted s.current → p.run s = some (a, t) →
    t.Fair ∧ Grows C.base s t
  step : ∀ {s s' a t a' t'}, C.Rel s s' → wanted s.current → p.run s = some (a, t) →
    p'.run s' = some (a', t') → fails t ∨ (a' = a ∧ C.Rel t t')

/-- A parser that gives the same answer on both sides, unless the first run is gone. -/
abbrev Mirrors (C : Coupling) (wanted : Kind → Prop) (p p' : Parser α) : Prop :=
  Tracks C C.Gone wanted p p'

/-- A parser that gives the same answer on both sides. -/
abbrev Stays (C : Coupling) (wanted : Kind → Prop) (p p' : Parser α) : Prop :=
  Tracks C C.Never wanted p p'

variable {C : Coupling} {fails fails' : State → Prop} {wanted wanted' : Kind → Prop} {kind : Kind}
  {p p' : Parser α} {g g' : α → Parser β} {m m' : Nat}

theorem Tracks.mono (h : Tracks C fails wanted p p')
    (hwanted : ∀ kind, wanted' kind → wanted kind) :
    Tracks C fails wanted' p p' :=
  ⟨fun hs hbase hkind => h.grows hs hbase (hwanted _ hkind),
    fun hs hkind => h.step hs (hwanted _ hkind)⟩

theorem Tracks.at (h : Tracks C fails anywhere p p') : Tracks C fails wanted p p' :=
  h.mono fun _ _ => trivial

namespace Tracks

theorem weaken (h : Tracks C fails wanted p p') (hfails : ∀ t, fails t → fails' t) :
    Tracks C fails' wanted p p' :=
  ⟨h.grows, fun hs hkind hrun hrun' => (h.step hs hkind hrun hrun').imp_left (hfails _)⟩

/-- What never fails does not fail in any way. -/
theorem lift (h : Stays C wanted p p') : Tracks C fails wanted p p' :=
  h.weaken fun _ => False.elim

theorem pure (a : α) : Tracks C fails wanted (pure a) (pure a) where
  grows hs _ _ hrun := by
    obtain ⟨rfl, rfl⟩ := run_pure_eq_some.1 hrun
    exact ⟨hs, .refl⟩
  step hs _ hrun hrun' := by
    obtain ⟨rfl, rfl⟩ := run_pure_eq_some.1 hrun
    obtain ⟨rfl, rfl⟩ := run_pure_eq_some.1 hrun'
    exact .inr ⟨rfl, hs⟩

/-- One parser after another: what has failed by then goes on to fail. -/
theorem bind [C.Lasts fails] (hp : Tracks C fails wanted p p')
    (hg : ∀ a, Tracks C fails anywhere (g a) (g' a)) :
    Tracks C fails wanted (p >>= g) (p' >>= g') where
  grows hs hbase hkind hrun := by
    obtain ⟨a, t, hpt, hgu⟩ := run_bind_eq_some.1 hrun
    obtain ⟨ht, hst⟩ := hp.grows hs hbase hkind hpt
    obtain ⟨hu, htu⟩ := (hg a).grows ht (hst.floor_le_solid hbase) trivial hgu
    exact ⟨hu, hst.trans htu⟩
  step hs hkind hrun hrun' := by
    obtain ⟨a, t, hpt, hgu⟩ := run_bind_eq_some.1 hrun
    obtain ⟨a', t', hpt', hgu'⟩ := run_bind_eq_some.1 hrun'
    rcases hp.step hs hkind hpt hpt' with hfails | ⟨rfl, ht⟩
    · obtain ⟨ht, hst⟩ := hp.grows (C.fair hs).1 (C.solid hs) hkind hpt
      obtain ⟨-, htu⟩ := (hg a).grows ht (hst.floor_le_solid (C.solid hs)) trivial hgu
      exact .inl (Coupling.Lasts.grows ht htu hfails)
    · exact (hg a').step ht trivial hgu hgu'

theorem discard (hp : Tracks C fails wanted p p') :
    Tracks C fails wanted (discard p) (discard p') where
  grows hs hbase hkind hrun := by
    obtain ⟨b, hb⟩ := run_discard_eq_some.1 hrun
    exact hp.grows hs hbase hkind hb
  step hs hkind hrun hrun' := by
    obtain ⟨b, hb⟩ := run_discard_eq_some.1 hrun
    obtain ⟨b', hb'⟩ := run_discard_eq_some.1 hrun'
    exact (hp.step hs hkind hb hb').imp_right fun h => ⟨rfl, h.2⟩

theorem ite [C.Lasts fails] {p p' : Parser Bool} {q q' r r' : Parser β}
    (hp : Tracks C fails wanted p p') (hq : Tracks C fails anywhere q q')
    (hr : Tracks C fails anywhere r r') :
    Tracks C fails wanted (do if ← p then q else r) (do if ← p' then q' else r') := by
  refine hp.bind fun a => ?_
  cases a with
  | true => exact hq
  | false => exact hr

/-! ## Looking -/

/-- What goes by something read off the state that is the same on both sides. -/
theorem read_bind {read : State → α} (hread : ∀ {s s'}, C.Rel s s' → wanted s.current →
    read s' = read s) (hg : ∀ a, Tracks C fails wanted (g a) (g' a)) :
    Tracks C fails wanted ((do return read (← get)) >>= g) ((do return read (← get)) >>= g') where
  grows {s b u} hs hbase hkind hrun := by
    have hrun : (g (read s)).run s = some (b, u) := hrun
    exact (hg _).grows hs hbase hkind hrun
  step {s s' b u b' u'} hs hkind hrun hrun' := by
    have hrun : (g (read s)).run s = some (b, u) := hrun
    have hrun' : (g' (read s')).run s' = some (b', u') := hrun'
    rw [hread hs hkind] at hrun'
    exact (hg _).step hs hkind hrun hrun'

/-- What is read off the state may be of no use. -/
theorem look_bind {read : State → α} {q q' : Parser β} (hq : Tracks C fails wanted q q') :
    Tracks C fails wanted ((do return read (← get)) >>= fun _ => q)
      ((do return read (← get)) >>= fun _ => q') :=
  ⟨fun hs hbase hkind hrun => hq.grows hs hbase hkind hrun,
    fun hs hkind hrun hrun' => hq.step hs hkind hrun hrun'⟩

/-- What goes by the kind of the current token. -/
theorem current_bind {g g' : Kind → Parser β}
    (hg : ∀ kind, wanted kind → Tracks C fails (· = kind) (g kind) (g' kind)) :
    Tracks C fails wanted (current >>= g) (current >>= g') where
  grows {s b u} hs hbase hkind hrun := by
    have hrun : (g s.current).run s = some (b, u) := hrun
    exact (hg _ hkind).grows hs hbase rfl hrun
  step {s s' b u b' u'} hs hkind hrun hrun' := by
    have hrun : (g s.current).run s = some (b, u) := hrun
    have hrun' : (g' s'.current).run s' = some (b', u') := hrun'
    rw [Coupling.current_eq hs] at hrun'
    exact (hg _ hkind).step hs rfl hrun hrun'

/-- Whether the kind of the current token is asked for is known behind the question. -/
theorem isAtAny_bind {is : Kind → Bool} {g g' : Bool → Parser β}
    (htrue : Tracks C fails (fun kind => wanted kind ∧ is kind = true) (g true) (g' true))
    (hfalse : Tracks C fails (fun kind => wanted kind ∧ is kind = false) (g false) (g' false)) :
    Tracks C fails wanted (isAtAny is >>= g) (isAtAny is >>= g') := by
  have hrun (g : Bool → Parser β) : isAtAny is >>= g = current >>= fun kind => g (is kind) := rfl
  rw [hrun g, hrun g']
  refine current_bind fun kind hkind => ?_
  cases his : is kind with
  | true => exact htrue.mono (by rintro _ rfl; exact ⟨hkind, his⟩)
  | false => exact hfalse.mono (by rintro _ rfl; exact ⟨hkind, his⟩)

theorem isAt_bind {g g' : Bool → Parser β}
    (htrue : Tracks C fails (· = kind) (g true) (g' true))
    (hfalse : Tracks C fails (fun k => wanted k ∧ k ≠ kind) (g false) (g' false)) :
    Tracks C fails wanted (isAt kind >>= g) (isAt kind >>= g') :=
  @isAtAny_bind _ C fails wanted (fun k => decide (k = kind)) g g'
    (htrue.mono fun _ h => of_decide_eq_true h.2)
    (hfalse.mono fun _ h => ⟨h.1, of_decide_eq_false h.2⟩)

theorem isAt_ite {p p' q q' : Parser β} (hp : Tracks C fails (· = kind) p p')
    (hq : Tracks C fails (fun k => wanted k ∧ k ≠ kind) q q') :
    Tracks C fails wanted (do if ← isAt kind then p else q) (do if ← isAt kind then p' else q') :=
  isAt_bind hp hq

theorem isAtAny_ite {is : Kind → Bool} {p p' q q' : Parser β}
    (hp : Tracks C fails (is · = true) p p') (hq : Tracks C fails wanted q q') :
    Tracks C fails wanted (do if ← isAtAny is then p else q)
      (do if ← isAtAny is then p' else q') :=
  isAtAny_bind (hp.mono fun _ h => h.2) (hq.mono fun _ h => h.1)

/-- Either of two kinds. -/
theorem isAtEither_ite {kind' : Kind} {p p' q q' : Parser β}
    (hp : Tracks C fails (· = kind) p p') (hp' : Tracks C fails (· = kind') p p')
    (hq : Tracks C fails (fun k => wanted k ∧ k ≠ kind ∧ k ≠ kind') q q') :
    Tracks C fails wanted (do if (← isAt kind) || (← isAt kind') then p else q)
      (do if (← isAt kind) || (← isAt kind') then p' else q') := by
  refine isAt_bind ?_ ?_
  · simp only [Bool.true_or, if_true]
    exact look_bind hp
  · exact isAt_bind hp' (hq.mono fun _ h => ⟨h.1.1, h.1.2, h.2⟩)

/-! ## Markers -/

/-- Markers are set at the same place. -/
theorem marker_bind {g g' : Nat → Parser β}
    (hg : ∀ m m', C.Level m m' → Tracks C fails wanted (g m) (g' m')) :
    Tracks C fails wanted (marker >>= g) (marker >>= g') where
  grows {s b u} hs hbase hkind hrun := by
    have hrun : (g s.marker).run s = some (b, u) := hrun
    obtain ⟨m', hlevel⟩ := Coupling.exists_level (hbase.trans s.solid_le_marker)
    exact (hg _ _ hlevel).grows hs hbase hkind hrun
  step {s s' b u b' u'} hs hkind hrun hrun' := by
    have hrun : (g s.marker).run s = some (b, u) := hrun
    have hrun' : (g' s'.marker).run s' = some (b', u') := hrun'
    exact (hg _ _ (Coupling.level hs)).step hs hkind hrun hrun'

/-- Whether anything is built from a marker on. -/
theorem built_ite {q q' r r' : Parser β} (hlevel : C.Level m m')
    (hq : Tracks C fails wanted q q') (hr : Tracks C fails wanted r r') :
    Tracks C fails wanted (do if (← marker) ≠ m then q else r)
      (do if (← marker) ≠ m' then q' else r') where
  grows {s b u} hs hbase hkind hrun := by
    have hrun : (if s.marker ≠ m then q else r).run s = some (b, u) := hrun
    split at hrun
    · exact hq.grows hs hbase hkind hrun
    · exact hr.grows hs hbase hkind hrun
  step {s s' b u b' u'} hs hkind hrun hrun' := by
    have hrun : (if s.marker ≠ m then q else r).run s = some (b, u) := hrun
    have hrun' : (if s'.marker ≠ m' then q' else r').run s' = some (b', u') := hrun'
    have hmarker := C.marker hs
    have hmarker' := hlevel.eq
    by_cases hsame : s.marker = m
    · rw [if_neg (not_not.2 hsame)] at hrun
      rw [if_neg (not_not.2 (by omega))] at hrun'
      exact hr.step hs hkind hrun hrun'
    · rw [if_pos hsame] at hrun
      rw [if_pos (by omega)] at hrun'
      exact hq.step hs hkind hrun hrun'

theorem unbuilt_ite {q q' r r' : Parser β} (hlevel : C.Level m m')
    (hq : Tracks C fails wanted q q') (hr : Tracks C fails wanted r r') :
    Tracks C fails wanted (do if (← marker) = m then r else q)
      (do if (← marker) = m' then r' else q') := by
  simpa only [ne_eq, ite_not] using built_ite hlevel hq hr

end Tracks

/-! ## Changing the row -/

theorem isCommon_iff :
    isCommon kind = true ↔ isGuardKeyword kind = false ∧ isCloser kind = false := by
  rw [isCommon, Bool.and_eq_true, Bool.not_eq_true', Bool.not_eq_true']

/-- A token that closes nothing and is no keyword of these statements is taken in on both sides. -/
theorem take_tracks (hwanted : ∀ kind, wanted kind → isCommon kind = true) :
    Tracks C fails wanted take take where
  grows hs _ _ hrun := by
    obtain ⟨rfl, rfl⟩ := Prod.mk.inj (Option.some.inj hrun)
    exact ⟨hs.take (.inl rfl), Grows.refl.take (.inl rfl)⟩
  step {s s' a t a' t'} hs hkind hrun hrun' := by
    obtain ⟨rfl, rfl⟩ := Prod.mk.inj (Option.some.inj hrun)
    obtain ⟨rfl, rfl⟩ := Prod.mk.inj (Option.some.inj hrun')
    obtain ⟨hguard, hcloser⟩ := isCommon_iff.1 (hwanted _ hkind)
    have hheld : ¬ C.Held s := fun h => Bool.false_ne_true (hguard.symm.trans (C.held h))
    rcases C.take hs hheld (.inl rfl) with ht | ⟨hclosing, -⟩
    · exact .inr ⟨rfl, ht⟩
    · exact absurd (hcloser.symm.trans hclosing) Bool.false_ne_true

/-- So is any other where no state is held, unless the first run is gone by it. -/
theorem take_of_unheld (hheld : ∀ s, wanted s.current → ¬ C.Held s) :
    Mirrors C wanted take take where
  grows hs _ _ hrun := by
    obtain ⟨rfl, rfl⟩ := Prod.mk.inj (Option.some.inj hrun)
    exact ⟨hs.take (.inl rfl), Grows.refl.take (.inl rfl)⟩
  step {s s' a t a' t'} hs hkind hrun hrun' := by
    obtain ⟨rfl, rfl⟩ := Prod.mk.inj (Option.some.inj hrun)
    obtain ⟨rfl, rfl⟩ := Prod.mk.inj (Option.some.inj hrun')
    rcases C.take hs (hheld s hkind) (.inl rfl) with ht | ⟨-, hgone, -⟩
    · exact .inr ⟨rfl, ht⟩
    · exact .inl hgone

/-- No state is held in front of a token that is no keyword of these statements. -/
theorem take_mirrors (hwanted : ∀ kind, wanted kind → isGuardKeyword kind = false) :
    Mirrors C wanted take take :=
  take_of_unheld fun _ hkind h =>
    Bool.false_ne_true ((hwanted _ hkind).symm.trans (C.held h))

theorem takeUnexpected_mirrors : Mirrors C wanted takeUnexpected takeUnexpected where
  grows hs _ _ hrun := by
    obtain ⟨rfl, rfl⟩ := Prod.mk.inj (Option.some.inj hrun)
    exact ⟨hs.take (.inr rfl), Grows.refl.take (.inr rfl)⟩
  step {s s' a t a' t'} hs hkind hrun hrun' := by
    obtain ⟨rfl, rfl⟩ := Prod.mk.inj (Option.some.inj hrun)
    obtain ⟨rfl, rfl⟩ := Prod.mk.inj (Option.some.inj hrun')
    by_cases hheld : C.Held s
    · exact .inl (C.takeUnexpected hs hheld)
    · rcases C.take hs hheld (.inr rfl) with ht | ⟨-, hgone, -⟩
      · exact .inr ⟨rfl, ht⟩
      · exact .inl hgone

theorem missing_tracks (missed : Wanted) :
    Tracks C fails wanted (missing missed) (missing missed) where
  grows hs hbase _ hrun := by
    obtain ⟨rfl, rfl⟩ := Prod.mk.inj (Option.some.inj hrun)
    exact ⟨hs.markMissing missed, Grows.refl.missing missed hbase⟩
  step hs _ hrun hrun' := by
    obtain ⟨rfl, rfl⟩ := Prod.mk.inj (Option.some.inj hrun)
    obtain ⟨rfl, rfl⟩ := Prod.mk.inj (Option.some.inj hrun')
    exact .inr ⟨rfl, C.missing missed hs⟩

theorem wrap_tracks (hlevel : C.Level m m') {kind : Kind} (hkind : kind.isConstruct = true) :
    Tracks C fails wanted (wrap m kind) (wrap m' kind) where
  grows hs hbase _ hrun := by
    obtain ⟨rfl, rfl⟩ := Prod.mk.inj (Option.some.inj hrun)
    exact ⟨hs.wrap m hkind, Grows.refl.wrap kind hbase hlevel.base_le⟩
  step hs _ hrun hrun' := by
    obtain ⟨rfl, rfl⟩ := Prod.mk.inj (Option.some.inj hrun)
    obtain ⟨rfl, rfl⟩ := Prod.mk.inj (Option.some.inj hrun')
    exact .inr ⟨rfl, C.wrap hs hlevel.base_le hlevel.eq hkind⟩

end StatementCompletion.Grammar
