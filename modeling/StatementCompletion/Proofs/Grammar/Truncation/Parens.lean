import StatementCompletion.Proofs.Grammar.Truncation.Types

/-!
# Parentheses on a truncated text

Where a closing parenthesis is asked for at the seam, one run takes it in and the other one marks it
as missing; once the branch that it ends is made, the rows are torn there and nowhere else.  The
other run may have marked something before: in a list of arguments that is opened right in front of
the seam it looks for an argument.

A list of arguments is left in the row until its call is made, so it is not kept that there is none;
`TearsAt` is what is left of the judgement, and making the call gives all of it back.
-/

namespace StatementCompletion.Grammar

open State (Truncated)

variable {α β : Type} {σ : Seam} {least : Nat} {wanted : Kind → Prop} {kind : Kind} {f m : Nat}
  {p p' : Parser α} {inner inner' : Inner} {s s' t t' u u' v' : State}

/-! ## The closing parenthesis -/

/-- The state behind the place where a closing parenthesis is asked for. -/
def State.closed (s : State) : State :=
  if s.current = .rightParen then s.take Token.node else s.markMissing (.construct .rightParen)

theorem run_expect_closing (s : State) :
    (discard (expect .rightParen)).run s = some ((), s.closed) := by
  rw [State.closed]
  by_cases h : s.current = .rightParen
  · rw [if_pos h]
    show StateT.run
      (discard (if decide (s.current = .rightParen) then _ else _ : Parser Bool)) s = _
    rw [decide_eq_true h]
    rfl
  · rw [if_neg h]
    show StateT.run
      (discard (if decide (s.current = .rightParen) then _ else _ : Parser Bool)) s = _
    rw [decide_eq_false h]
    rfl

theorem Evolves.closed (h : Evolves f s t) : Evolves f s t.closed := by
  rw [State.closed]
  split
  · exact h.take (.inl rfl)
  · exact h.missing _

theorem State.length_ahead_closed (s : State) : s.closed.ahead.length ≤ s.ahead.length := by
  rw [State.closed]
  split
  · cases htoken : s.token? with
    | none => rw [State.take_of_none htoken]
    | some token => exact (State.ahead_take_lt (by rw [htoken]; rfl) _).le
  · rcases s.markMissing_eq (.construct .rightParen) with heq | heq <;> rw [heq]
    exact Nat.le_refl _

/-- A row that begins with a token from a marker on goes beyond it. -/
theorem lt_length_of_beginsWithToken {nodes : List Node} (h : Node.BeginsWithToken (nodes.drop m)) :
    m < nodes.length := by
  obtain ⟨leaf, hleaf, -⟩ := h
  by_contra hle
  rw [List.drop_of_length_le (Nat.le_of_not_lt hle)] at hleaf
  cases hleaf

/-- Both make a branch of what stands behind an opening parenthesis. -/
theorem State.Truncated.wrap_parens (ht : Truncated σ t t') (hkind : kind.isParens = true)
    (hbase : σ.base ≤ m) {children last : List Node} (hrow : t.firm.drop m = children ++ last)
    (hparens : ∀ child ∈ children, child.kind ≠ .rightParen)
    (hlists : ∀ child ∈ children, child.kind ≠ .argumentList)
    (hlast : last = [] ∨ ∃ node, last = [node] ∧ node.Simple ∧ node.kind = .rightParen) :
    Truncated σ (t.wrap m kind) (t'.wrap m kind) := by
  refine ht.wrap (by cases kind <;> first | rfl | cases hkind) ?_
  rw [hrow]
  refine Truncated.simple_parens hkind (fun child hchild => ?_) hparens hlists hlast
  have hmem : child ∈ t.firm.drop m := hrow ▸ List.mem_append_left _ hchild
  exact ht.simple_drop hbase child hmem

/-- Both make a branch of what stands in parentheses. -/
theorem State.Truncated.closed (ht : Truncated σ t t') (hkind : kind.isParens = true)
    (hbase : σ.base ≤ m) (hv : v' = t' ∨ t.current = .rightParen ∧ t'.token? = none ∧ t'.Marked v')
    (hbegins : Node.BeginsWithToken (t.firm.drop m)) (hparens : t.Lacks .rightParen m)
    (hlists : t.Lacks .argumentList m) (hleft : σ.tail.length ≤ t.closed.ahead.length) :
    Truncated σ (t.closed.wrap m kind) (v'.closed.wrap m kind) := by
  have hmarks (hne : t.current ≠ .rightParen) (hne' : t'.current ≠ .rightParen) (hv : v' = t') :
      Truncated σ (t.closed.wrap m kind) (v'.closed.wrap m kind) := by
    rw [hv, State.closed, State.closed, if_neg hne, if_neg hne']
    have hmarked : Kept σ m t _ _ := .markMissing ht (.construct .rightParen)
    refine hmarked.truncated.wrap_parens hkind hbase (List.append_nil _).symm ?_ ?_ (.inl rfl)
    · exact hmarked.lacks _ rfl m hparens
    · exact hmarked.lacks _ rfl m hlists
  rcases ht.current_cases with ⟨hsome, heq⟩ | ⟨hnone, hend, -⟩
  · -- in front of the seam
    have hv : v' = t' := by
      rcases hv with hv | ⟨-, hnone, -⟩
      · exact hv
      · rw [hnone] at hsome
        cases hsome
    by_cases hparen : t'.current = .rightParen
    · have htoken : ∃ token, t.token? = some token := by
        cases htoken : t.token? with
        | none =>
          rw [hparen, State.current, htoken] at heq
          cases heq
        | some token => exact ⟨token, rfl⟩
      obtain ⟨token, htoken⟩ := htoken
      have hcurrent : token.kind = .rightParen := by
        rw [← hparen, ← heq, State.current, htoken]
      have hle := (lt_length_of_beginsWithToken hbegins).le
      rw [hv, State.closed, State.closed, if_pos hparen, if_pos (heq.trans hparen)]
      have hrow : (t.take Token.node).firm.drop m = t.firm.drop m ++ t.loose ++ [token.node] := by
        rw [State.firm_take htoken, List.append_assoc, List.drop_append_of_le_length hle,
          List.append_assoc]
      refine (ht.take hsome (by rw [hparen]; rfl)).wrap_parens hkind hbase hrow ?_ ?_
        (.inr ⟨_, rfl, ?_, ?_⟩)
      · simp only [List.forall_mem_append]
        exact ⟨hparens, fun node hnode => ht.fair.sane.kind_of_mem_loose hnode rfl⟩
      · simp only [List.forall_mem_append]
        exact ⟨hlists, fun node hnode => ht.fair.sane.kind_of_mem_loose hnode rfl⟩
      · exact Truncated.simple_node (by rw [hcurrent]; rfl) (by rw [hcurrent]; rfl)
      · rw [Token.kind_node, hcurrent]
    · exact hmarks (heq ▸ hparen) hparen hv
  · -- at the seam
    have hne' : t'.current ≠ .rightParen := by rw [hend]; decide
    by_cases hparen : t.current = .rightParen
    · have hmarked : t'.Marked v' := by
        rcases hv with rfl | ⟨-, -, hmarked⟩
        · exact .refl ht.fair'
        · exact hmarked
      have hend' : v'.current ≠ .rightParen := by
        rw [State.current, hmarked.token?, hnone]
        decide
      rw [State.closed, if_pos hparen] at hleft
      rw [State.closed, State.closed, if_pos hparen, if_neg hend']
      refine ht.close hkind hbase hparen hnone hleft hbegins hparens hlists
        (hmarked.markMissing _) ?_
      exact hmarked.fair.sane.isAfterError_markMissing _
    · exact hmarks hparen hne' (hv.resolve_right fun h => hparen h.1)

/-! ## Branches of the row -/

/-- The row from a marker on becomes one node, and what stood there is forgotten. -/
theorem Kept.of_wrap (hs : Truncated σ s s') (hopens : Opens s t) (hfloor : f ≤ m)
    (hmarker : m ≤ s.marker) (ht : Truncated σ (t.wrap m kind) u')
    (hanchored : kind.isAnchored = false) (hbracket : kind.isBracket = false)
    (htail : kind.isTail = false) : Kept σ f s (t.wrap m kind) u' := by
  have hevolves := hopens.evolves (hfloor.trans hmarker)
  have hsane : t.Sane := hevolves.sane hs.fair.sane
  have hfirm : (t.wrap m kind).firm = s.built.reverse.take m ++ [.branch kind (t.firm.drop m)] := by
    have hbuilt := congrArg (List.take m) (hopens.take_firm hs.fair.sane)
    rw [List.take_take, Nat.min_eq_left hmarker] at hbuilt
    rw [hsane.firm_wrap, hbuilt]
  refine .of_firm hs ht (hevolves.wrap kind hfloor ?_ hbracket) hfirm htail
  rw [hanchored]
  exact nofun

/-- Two parsers that agree on a truncated text and open, and may leave a list of arguments at the
end of the row but nowhere else. -/
structure TearsAt (σ : Seam) (least : Nat) (wanted : Kind → Prop) (p p' : Parser α) : Prop where
  shrinks : ShrinksAt wanted p
  keeps : ∀ s s', Truncated σ s s' → wanted s'.current → σ.base ≤ s.marker →
    ∀ a t a' t', p.run s = some (a, t) → p'.run s' = some (a', t') → least ≤ t.ahead.length →
      a' = a ∧ Truncated σ t t' ∧ Opens s t
        ∧ ∀ m, s.Lacks .argumentList m → ∀ node ∈ (t.firm.drop m).dropLast,
        node.kind ≠ .argumentList

/-- The list belongs to the call that is made. -/
theorem TearsAt.bind_wrap (hp : TearsAt σ least wanted p p') (hkind : Kind.isOpen kind = true)
    (hcall : kind.isCall = true) :
    TruncatesAt σ least wanted m (p >>= fun _ => wrap m kind) (p' >>= fun _ => wrap m kind) := by
  refine ⟨hp.shrinks.bind fun _ => .wrap m kind, ?_⟩
  intro s s' hs hwanted hfloor hlists b u b' u' hrun hrun' hleft
  obtain ⟨a, t, hpt, hwrap⟩ := run_bind_eq_some.1 hrun
  obtain ⟨a', t', hpt', hwrap'⟩ := run_bind_eq_some.1 hrun'
  obtain ⟨-, rfl⟩ := Prod.mk.inj (Option.some.inj hwrap)
  obtain ⟨-, rfl⟩ := Prod.mk.inj (Option.some.inj hwrap')
  obtain ⟨-, ht, hopens, hlast⟩ :=
    hp.keeps s s' hs hwanted (hfloor.base.trans hfloor.marker) a t a' t'
      hpt hpt' hleft
  obtain ⟨-, hanchored, hbracket, htail⟩ := Kind.isOpen_spec hkind
  have hwrapped : Truncated σ (t.wrap m kind) (t'.wrap m kind) := by
    refine ht.wrap_of_isOpen hkind hfloor.base (hlast m hlists) ?_
    rw [hcall]
    exact nofun
  exact ⟨rfl, .of_wrap hs hopens (Nat.le_refl m) hfloor.marker hwrapped hanchored hbracket htail⟩

/-- There are no braces behind it. -/
theorem TearsAt.whenAtBrace {q : Parser Unit} (hp : TearsAt σ least wanted p p')
    (hq : OpensAt (· = .leftBrace) q q) (q' : Parser Unit) :
    TearsAt σ least wanted (p >>= fun _ => whenAt .leftBrace q)
      (p' >>= fun _ => whenAt .leftBrace q') := by
  have hshrinks : Shrinks (whenAt .leftBrace q) := .isAt_ite (.of_opens hq nofun) (.pure ())
  refine ⟨hp.shrinks.bind fun _ => hshrinks, ?_⟩
  intro s s' hs hwanted hbase b u b' u' hrun hrun' hleft
  obtain ⟨a, t, hpt, hrest⟩ := run_bind_eq_some.1 hrun
  obtain ⟨a', t', hpt', hrest'⟩ := run_bind_eq_some.1 hrun'
  obtain ⟨halike, -⟩ := hp.shrinks s a t hs.fair.alike (hs.meets hwanted) hpt
  obtain ⟨-, hle⟩ := hshrinks t b u halike (.inl trivial) hrest
  obtain ⟨-, ht, hopens, hlast⟩ :=
    hp.keeps s s' hs hwanted hbase a t a' t' hpt hpt' (hleft.trans hle)
  obtain ⟨hne, hne'⟩ := ht.current_ne_leftBrace
  have hrest : (if decide (t.current = .leftBrace) then q else pure ()).run t = some (b, u) := hrest
  have hrest' : (if decide (t'.current = .leftBrace) then q' else pure ()).run t' = some (b', u') :=
    hrest'
  rw [decide_eq_false hne, if_neg Bool.false_ne_true] at hrest
  rw [decide_eq_false hne', if_neg Bool.false_ne_true] at hrest'
  obtain ⟨rfl, rfl⟩ := run_pure_eq_some.1 hrest
  obtain ⟨rfl, rfl⟩ := run_pure_eq_some.1 hrest'
  exact ⟨rfl, ht, hopens, hlast⟩

/-! ## Arguments -/

/-- Where an item does not begin, no items are read. -/
theorem run_separated_of_not {starts : Kind → Bool} {item : Parser Bool} {a : Bool}
    (hitem : Phrase starts item) (hstarts : starts s.current = false)
    (hrun : (separated kind item).run s = some (a, t)) : a = false ∧ t = s := by
  have hrun : (separatedWithin (s.ahead.length + 1) kind item).run s = some (a, t) := hrun
  obtain ⟨b, u, hitems, hrest⟩ := run_bind_eq_some.1 hrun
  obtain ⟨rfl, rfl⟩ := hitem.no hstarts hitems
  exact run_pure_eq_some.1 hrest

/-- The arguments of a call, without the parentheses. -/
abbrev arguments (inner : Inner) : Parser Unit :=
  unlessAt .rightParen (orMissing (separated .comma (inner .expression)) .expression)

/-- Two parsers that agree on a truncated text, but for marks that the second one makes where the
first one comes to a closing parenthesis at the seam. -/
def Fits (σ : Seam) (p p' : Parser Unit) : Prop :=
  ∀ f s s', Truncated σ s s' → σ.Marks f s → s.Lacks .argumentList f →
    ∀ a t a' v', p.run s = some (a, t) → p'.run s' = some (a', v') →
      σ.tail.length ≤ t.ahead.length → ∃ t', Kept σ f s t t'
        ∧ (v' = t' ∨ t.current = .rightParen ∧ t'.token? = none ∧ t'.Marked v')

theorem TruncatesAt.fits {p p' : Parser Unit} (hp : ∀ f, Truncates σ σ.tail.length f p p') :
    Fits σ p p' := by
  intro f s s' hs hfloor hlists a t a' t' hrun hrun' hleft
  exact ⟨t', ((hp f).keeps s s' hs trivial hfloor hlists a t a' t' hrun hrun' hleft).2, .inl rfl⟩

/-- The arguments are read alike, but for a mark where none are left of them. -/
theorem arguments_fits (h : inner.Truncate σ inner') :
    Fits σ (arguments inner) (arguments inner') := by
  intro f s s' hs hfloor hlists a t a' v' hrun hrun' hleft
  have hrun : (if decide (s.current = .rightParen) then pure ()
      else orMissing (separated .comma (inner .expression)) .expression).run s = some (a, t) := hrun
  have hrun' : (if decide (s'.current = .rightParen) then pure ()
      else orMissing (separated .comma (inner' .expression)) .expression).run s' = some (a', v') :=
    hrun'
  have hitems :
      Truncates σ σ.tail.length f (orMissing (separated .comma (inner .expression)) .expression)
        (orMissing (separated .comma (inner' .expression)) .expression) :=
    orMissing_truncates (separated_truncates rfl h.expression)
  by_cases hparen : s.current = .rightParen
  · rw [decide_eq_true hparen, if_pos rfl] at hrun
    obtain ⟨-, rfl⟩ := run_pure_eq_some.1 hrun
    rcases hs.current_cases with ⟨-, heq⟩ | ⟨hnone, hend, -⟩
    · rw [decide_eq_true (heq ▸ hparen), if_pos rfl] at hrun'
      obtain ⟨-, rfl⟩ := run_pure_eq_some.1 hrun'
      exact ⟨_, .refl hs, .inl rfl⟩
    · -- the argument that the second run looks for is marked as missing
      rw [hend, decide_eq_false (by decide), if_neg Bool.false_ne_true] at hrun'
      obtain ⟨answer, u', hitems, hmissing⟩ := run_bind_eq_some.1 hrun'
      have hstarts : startsExpression s'.current = false := by rw [hend]; rfl
      obtain ⟨rfl, rfl⟩ := run_separated_of_not h.agree'.expression.phrase hstarts hitems
      obtain ⟨-, rfl⟩ := Prod.mk.inj (Option.some.inj hmissing)
      exact ⟨_, .refl hs, .inr ⟨hparen, hnone, (State.Marked.refl hs.fair').markMissing _⟩⟩
  · have hparen' : s'.current ≠ .rightParen := by
      rcases hs.current_cases with ⟨-, heq⟩ | ⟨-, hend, -⟩
      · exact heq ▸ hparen
      · rw [hend]
        decide
    rw [decide_eq_false hparen, if_neg Bool.false_ne_true] at hrun
    rw [decide_eq_false hparen', if_neg Bool.false_ne_true] at hrun'
    exact ⟨v', (hitems.keeps s s' hs trivial hfloor hlists a t a' v' hrun hrun' hleft).2, .inl rfl⟩

/-- A parser between parentheses, and the branch of all of it. -/
abbrev inParens (middle : Parser Unit) (kind : Kind) : Parser Unit := do
  let opening ← marker
  take
  middle
  discard (expect .rightParen)
  wrap opening kind

theorem run_inParens_eq_some {middle : Parser Unit} {b : Unit}
    (h : (inParens middle kind).run s = some (b, u)) :
    ∃ a t, middle.run (s.take Token.node) = some (a, t) ∧ u = t.closed.wrap s.marker kind := by
  obtain ⟨a, t, hmiddle, hrest⟩ := run_bind_eq_some.1 (show (middle >>= fun _ =>
    discard (expect .rightParen) >>= fun _ => wrap s.marker kind).run (s.take Token.node)
      = some (b, u) from h)
  rw [StateT.run_bind, run_expect_closing] at hrest
  exact ⟨a, t, hmiddle, (Prod.mk.inj (Option.some.inj hrest)).2.symm⟩

/-- Both take the opening parenthesis in. -/
theorem State.Truncated.opening (hs : Truncated σ s s') (hopening : s'.current = .leftParen) :
    Kept σ s.marker s (s.take Token.node) (s'.take Token.node) ∧ Opens s (s.take Token.node)
      ∧ s.marker ≤ (s.take Token.node).marker
      ∧ (s.take Token.node).Lacks .argumentList s.marker := by
  have hsome : s'.token?.isSome = true := State.isSome_of_current (by rw [hopening]; decide)
  have htaken : Kept σ s.marker s _ _ := .take hs (by rw [hopening]; rfl)
  refine ⟨htaken, ⟨?_, Token.node, .inl rfl, .refl⟩, ?_, ?_⟩
  · rcases hs.current_cases with ⟨-, heq⟩ | ⟨hnone, -⟩
    · cases htoken : s.token? with
      | none =>
        rw [hopening, State.current, htoken] at heq
        cases heq
      | some token => rfl
    · rw [hnone] at hsome
      cases hsome
  · exact htaken.evolves.floor_le_marker hs.fair.sane (Nat.le_refl _)
  · exact htaken.lacks .argumentList rfl _ (hs.fair.sane.lacks_marker _)

/-- From the opening parenthesis on, both make a branch of what stands in parentheses. -/
theorem run_inParens {middle middle' : Parser Unit} {b b' : Unit} (hmiddle : Fits σ middle middle')
    (hkind : kind.isParens = true) (hs : Truncated σ s s') (hopening : s'.current = .leftParen)
    (hbase : σ.base ≤ s.marker) (hrun : (inParens middle kind).run s = some (b, u))
    (hrun' : (inParens middle' kind).run s' = some (b', u'))
    (hleft : σ.tail.length ≤ u.ahead.length) :
    ∃ t, u = t.wrap s.marker kind ∧ Opens s t ∧ Truncated σ (t.wrap s.marker kind) u' := by
  obtain ⟨a, t, hpt, rfl⟩ := run_inParens_eq_some hrun
  obtain ⟨a', v', hpt', rfl⟩ := run_inParens_eq_some hrun'
  obtain ⟨htaken, hopens, hfloor, hlists⟩ := hs.opening hopening
  have hbetween : σ.tail.length ≤ t.ahead.length := hleft.trans t.length_ahead_closed
  obtain ⟨t', ht, hv⟩ :=
    hmiddle _ _ _ htaken.truncated ⟨hbase, hfloor⟩ hlists a t a' v' hpt hpt' hbetween
  have hst := htaken.trans ht
  have hopens := hopens.trans ht.evolves
  have hlacks (kind : Kind) (htail : kind.isTail = true) : t.Lacks kind s.marker :=
    hst.lacks kind htail _ (hs.fair.sane.lacks_marker kind)
  refine ⟨t.closed, rfl, hopens.trans Evolves.refl.closed, ?_⟩
  rw [hs.marker_eq]
  exact hst.truncated.closed hkind hbase hv (hopens.beginsWithToken hs.fair.sane) (hlacks _ rfl)
    (hlacks _ rfl) hleft

/-- A list of arguments is torn at its end, or not at all. -/
theorem argumentList_tears (h : inner.Truncate σ inner') :
    TearsAt σ σ.tail.length (· = .leftParen) (argumentList inner) (argumentList inner') := by
  refine ⟨.of_opens (argumentList_opens h.agree) (by decide), ?_⟩
  intro s s' hs hopening hbase b u b' u' hrun hrun' hleft
  obtain ⟨t, rfl, hopens, htorn⟩ :=
    run_inParens (arguments_fits h) rfl hs hopening hbase hrun hrun' hleft
  have hwrapped : Opens s (t.wrap s.marker .argumentList) :=
    hopens.trans (Evolves.refl.wrap _ (Nat.le_refl _) nofun rfl)
  refine ⟨rfl, htorn, hwrapped, fun m hlacks => ?_⟩
  have hfirm : (t.wrap s.marker .argumentList).firm
      = s.built.reverse ++ [.branch .argumentList (t.firm.drop s.marker)] := by
    rw [((hopens.evolves (Nat.le_refl _)).sane hs.fair.sane).firm_wrap,
      hopens.take_firm hs.fair.sane]
  have hbuilt := hlacks.append fun node hnode => hs.fair.sane.kind_of_mem_loose hnode rfl
  rw [State.firm_append_loose] at hbuilt
  rw [hfirm, List.drop_append]
  intro node hnode
  have hmem : node ∈ s.built.reverse.drop m := by
    rcases Nat.lt_or_ge s.built.reverse.length m with hlt | hle
    · rw [List.drop_of_length_le (l := s.built.reverse) hlt.le, List.nil_append,
        List.drop_of_length_le (by rw [List.length_singleton]; omega)] at hnode
      cases hnode
    · rw [Nat.sub_eq_zero_of_le hle, List.drop_zero, List.dropLast_concat] at hnode
      exact hnode
  exact hbuilt node hmem

/-- So is what stands in parentheses. -/
theorem parenthesized_truncates (h : inner.Truncate σ inner') :
    TruncatesAt σ σ.tail.length (· = .leftParen) f (parenthesized inner)
      (parenthesized inner') := by
  refine ⟨.of_opens (parenthesized_opens h.agree) (by decide), ?_⟩
  intro s s' hs hopening hfloor _ b u b' u' hrun hrun' hleft
  have hmiddle : Fits σ (orMissing (inner .expression) .expression)
      (orMissing (inner' .expression) .expression) :=
    TruncatesAt.fits fun _ => orMissing_truncates h.expression
  obtain ⟨t, rfl, hopens, htorn⟩ := run_inParens hmiddle rfl hs hopening
    (hfloor.base.trans hfloor.marker) hrun hrun' hleft
  exact ⟨rfl, .of_wrap hs hopens hfloor.marker (Nat.le_refl _) htorn rfl rfl rfl⟩

/-! ## Casts -/

/-- Behind the seam there is no operand of a cast. -/
theorem Seam.not_startsCastOperand (n : Nat) (built : List Node) :
    startsCastOperand (State.read built (σ.behind n).tail).current = false := by
  cases n with
  | zero => exact σ.outside
  | succ n =>
    rw [σ.behind_succ, List.tail_cons, σ.read_behind, State.current]
    cases hhead : (σ.behind n).head? with
    | none => rfl
    | some token =>
      rcases σ.kind_head_behind hhead with hkind | hkind <;>
        · dsimp only
          rw [hkind]
          rfl

/-- Whether a closing parenthesis and the operand of a cast come next is the same for both. -/
theorem State.Truncated.closesCast_eq (ht : Truncated σ t t') :
    (decide (t.current = .rightParen) && startsCastOperand (t.take Token.node).current)
      = (decide (t'.current = .rightParen) && startsCastOperand (t'.take Token.node).current) := by
  rcases ht.seam with ⟨n, hsome, -⟩ | @⟨n, front, back, x, y, hnone, htoken, hunread, -⟩
  · have heq : t.current = t'.current := by
      rcases ht.current_cases with ⟨-, heq⟩ | ⟨hnone, -⟩
      · exact heq
      · rw [hnone] at hsome
        cases hsome
    rw [heq]
    by_cases hparen : t'.current = .rightParen
    · have htaken := ht.take hsome (by rw [hparen]; rfl)
      have hask : startsCastOperand (t.take Token.node).current
          = startsCastOperand (t'.take Token.node).current := by
        refine htaken.ask_eq fun kind hclosing => ?_
        rcases Kind.isClosing_cases hclosing with rfl | rfl | rfl <;> rfl
      rw [hask]
    · rw [decide_eq_false hparen, Bool.false_and, Bool.false_and]
  · have hright : (decide (t'.current = .rightParen)
        && startsCastOperand (t'.take Token.node).current) = false := by
      rw [State.current, hnone]
      rfl
    rw [hright]
    cases hhead : t.token? with
    | none =>
      rw [State.current, hhead]
      rfl
    | some token =>
      rw [State.take_of_some hhead, hunread, σ.not_startsCastOperand, Bool.and_false]

/-- What is looked at in front of a cast. -/
theorem run_isCast_eq_some {a : Bool} (h : (isCast inner).run s = some (a, u)) :
    ∃ b t, (typeReference inner).run (s.take Token.node) = some (b, t)
      ∧ a = (b && (decide (t.current = .rightParen)
        && startsCastOperand (t.take Token.node).current)) := by
  obtain ⟨v, hlook, -⟩ := run_lookAhead_eq_some h
  obtain ⟨b, t, htype, hrest⟩ := run_bind_eq_some.1 (show (typeReference inner >>= fun there =>
    if there then (do if ← takeIf .rightParen then isAtAny startsCastOperand else return false)
    else pure false).run (s.take Token.node) = some (a, v) from hlook)
  refine ⟨b, t, htype, ?_⟩
  cases b with
  | false => exact (run_pure_eq_some.1 hrest).1
  | true =>
    obtain ⟨c, w, htaken, hask⟩ := run_bind_eq_some.1 (show (takeIf .rightParen >>= fun closed =>
      if closed then isAtAny startsCastOperand else pure false).run t = some (a, v) from hrest)
    have htaken : (if decide (t.current = .rightParen) then (do take; return true)
      else pure false : Parser Bool).run t = some (c, w) := htaken
    rw [Bool.true_and]
    by_cases hparen : t.current = .rightParen
    · rw [decide_eq_true hparen, if_pos rfl] at htaken
      obtain ⟨rfl, rfl⟩ := Prod.mk.inj (Option.some.inj htaken)
      rw [decide_eq_true hparen, Bool.true_and]
      exact (Prod.mk.inj (Option.some.inj hask)).1.symm
    · rw [decide_eq_false hparen, if_neg Bool.false_ne_true] at htaken
      obtain ⟨rfl, rfl⟩ := run_pure_eq_some.1 htaken
      rw [decide_eq_false hparen, Bool.false_and]
      exact (run_pure_eq_some.1 hask).1

/-- A cast behind whose type the parenthesis is closed. -/
theorem run_typeCast {a a' : Bool} {b b' : Unit} (h : inner.Truncate σ inner')
    (hs : Truncated σ s s') (hopening : s'.current = .leftParen) (hfloor : σ.Marks f s)
    (htype : (typeReference inner).run (s.take Token.node) = some (a, t))
    (htype' : (typeReference inner').run (s'.take Token.node) = some (a', t'))
    (ht : Kept σ s.marker (s.take Token.node) t t') (hparen' : t'.current = .rightParen)
    (hrun : (typeCast inner).run s = some (b, u))
    (hrun' : (typeCast inner').run s' = some (b', u')) (hleft : σ.tail.length ≤ u.ahead.length) :
    Kept σ f s u u' := by
  have hbase : σ.base ≤ s.marker := hfloor.base.trans hfloor.marker
  obtain ⟨-, hopens, hmarker, hlists⟩ := hs.opening hopening
  have hsome : t'.token?.isSome = true :=
    State.isSome_of_current (by rw [hparen']; decide)
  have hparen : t.current = .rightParen := by
    rcases ht.truncated.current_cases with ⟨-, heq⟩ | ⟨hnone, -⟩
    · rw [heq, hparen']
    · rw [hnone] at hsome
      cases hsome
  -- both runs read the type that was looked at
  have hclosed {inner : Inner} {s t u : State} {a : Bool} {b : Unit}
      (htype : (typeReference inner).run (s.take Token.node) = some (a, t))
      (hparen : t.current = .rightParen) (hrun : (typeCast inner).run s = some (b, u)) :
      ∃ c v, (orMissing (inner .unary) .expression).run (t.take Token.node) = some (c, v)
        ∧ u = v.wrap s.marker .typeCast := by
    obtain ⟨c, t₁, htype₁, hrest⟩ := run_bind_eq_some.1 (show (discard (typeReference inner) >>=
      fun _ => discard (expect .rightParen) >>= fun _ => orMissing (inner .unary) .expression >>=
        fun _ => wrap s.marker .typeCast).run (s.take Token.node) = some (b, u) from hrun)
    obtain ⟨d, hd⟩ := run_discard_eq_some.1 htype₁
    obtain ⟨rfl, rfl⟩ := Prod.mk.inj (Option.some.inj (htype.symm.trans hd))
    rw [StateT.run_bind, run_expect_closing, State.closed, if_pos hparen] at hrest
    obtain ⟨e, v, hunary, hwrap⟩ :=
      run_bind_eq_some.1 (show (orMissing (inner .unary) .expression >>=
        fun _ => wrap s.marker .typeCast).run (t.take Token.node) = some (b, u) from hrest)
    exact ⟨e, v, hunary, (Prod.mk.inj (Option.some.inj hwrap)).2.symm⟩
  obtain ⟨c, v, hunary, rfl⟩ := hclosed htype hparen hrun
  obtain ⟨c', v', hunary', rfl⟩ := hclosed htype' hparen' hrun'
  have hclose : Evolves s.marker t (t.take Token.node) := Evolves.refl.take (.inl rfl)
  have hmarker := hclose.floor_le_marker ht.truncated.fair.sane
    (ht.evolves.floor_le_marker (hopens.evolves (Nat.zero_le _) |>.sane hs.fair.sane) hmarker)
  have hlists : (t.take Token.node).Lacks .argumentList s.marker := by
    have hbefore := ht.lacks _ rfl _ hlists
    cases htoken : t.token? with
    | none => rwa [State.take_of_none htoken]
    | some token =>
      rw [State.Lacks, State.firm_take htoken, List.append_assoc]
      refine hbefore.append ?_
      simp only [List.forall_mem_append, List.forall_mem_singleton, Token.kind_node]
      refine ⟨fun node hnode => ht.truncated.fair.sane.kind_of_mem_loose hnode rfl, ?_⟩
      have hcurrent : token.kind = .rightParen := by rw [← hparen, State.current, htoken]
      rw [hcurrent]
      decide
  have hoperand : Kept σ s.marker (t.take Token.node) v v' :=
    ((orMissing_truncates h.unary).keeps _ _
      (ht.truncated.take hsome (by rw [hparen']; rfl)) trivial
      ⟨hbase, hmarker⟩ hlists c v c' v' hunary hunary' hleft).2
  have hwrapped : Truncated σ (v.wrap s.marker .typeCast) (v'.wrap s.marker .typeCast) :=
    hoperand.truncated.wrap_of_isOpen rfl hbase (hoperand.lacks _ rfl _ hlists).dropLast
      fun _ => hoperand.lacks _ rfl _ hlists
  rw [hs.marker_eq]
  refine .of_wrap hs (hopens.trans ?_) hfloor.marker (Nat.le_refl _) hwrapped rfl rfl rfl
  exact (ht.evolves.trans hclose).trans hoperand.evolves

theorem castOrParenthesized_truncates (h : inner.Truncate σ inner') :
    TruncatesAt σ σ.tail.length (· = .leftParen) f (castOrParenthesized inner)
      (castOrParenthesized inner') := by
  refine ⟨.of_opens (castOrParenthesized_opens h.agree) (by decide), ?_⟩
  intro s s' hs hopening hfloor hlists b u b' u' hrun hrun' hleft
  obtain ⟨htaken, hopens, hfloor', hlists'⟩ := hs.opening hopening
  have hopening' : s.current = .leftParen := by
    rcases hs.current_cases with ⟨-, heq⟩ | ⟨-, hend, -⟩
    · rw [heq, hopening]
    · rw [hend] at hopening
      cases hopening
  obtain ⟨c, v, hcast, hrest⟩ := run_bind_eq_some.1 hrun
  obtain ⟨c', v', hcast', hrest'⟩ := run_bind_eq_some.1 hrun'
  obtain ⟨-, rfl, -⟩ :=
    isCast_reads_in_step h.agree s s hs.fair.alike hopening' trivial c v c v hcast hcast
  obtain ⟨-, rfl, -⟩ :=
    isCast_reads_in_step h.agree' s' s' hs.fair'.alike hopening trivial c' v' c' v' hcast' hcast'
  obtain ⟨a, t, htype, rfl⟩ := run_isCast_eq_some hcast
  obtain ⟨a', t', htype', rfl⟩ := run_isCast_eq_some hcast'
  obtain ⟨rfl, ht⟩ := (typeReference_truncates h).keeps _ _ htaken.truncated trivial
    ⟨hfloor.base.trans hfloor.marker, hfloor'⟩ hlists' a t a' t' htype htype' (Nat.zero_le _)
  rw [ht.truncated.closesCast_eq] at hrest
  -- both sides take it for a cast, or neither does
  cases hanswer : a' && (decide (t'.current = .rightParen)
    && startsCastOperand (t'.take Token.node).current) with
  | true =>
    rw [hanswer] at hrest hrest'
    have hparen' : t'.current = .rightParen := by
      rw [Bool.and_eq_true, Bool.and_eq_true] at hanswer
      exact of_decide_eq_true hanswer.2.1
    exact ⟨rfl, run_typeCast h hs hopening hfloor htype htype' ht hparen'
      (show (typeCast inner).run v = some (b, u) from hrest)
      (show (typeCast inner').run v' = some (b', u') from hrest') hleft⟩
  | false =>
    rw [hanswer] at hrest hrest'
    exact (parenthesized_truncates h).keeps v v' hs hopening hfloor hlists b u b' u'
      hrest hrest' hleft

end StatementCompletion.Grammar
