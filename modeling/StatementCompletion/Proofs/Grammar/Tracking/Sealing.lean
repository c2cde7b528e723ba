import StatementCompletion.Proofs.Grammar.Tracking.Gates

/-!
# The end of a statement in front of a brace

A statement is read on both sides, and behind its last token there is a closing brace on the second
one.  As long as the last token is ahead the two sides are gated twins.  What is read once it is
taken in depends on the rule: a rule that asks for one more token would leave a mark in the first
run, and a rule that looks for more, a second branch or a handler, finds none in either run.

`Seals` says of a parser that each of its runs without marks takes a token in at its end that closes
a statement, and that the second run ends in front of the brace if the first one ends behind the
last token.  `Rests` says the same of a parser that may also leave everything as it is.
-/

namespace StatementCompletion.Grammar

variable {α β : Type}

/-- A run takes a token in at its end that closes a statement. -/
def Finishes (s t : State) : Prop :=
  ∃ x gate gap, s.ahead = x ++ gate :: (gap ++ t.ahead) ∧ isCloser gate.kind = true
    ∧ gate.kind ≠ .rightParen ∧ ∀ token ∈ gap, token.isTrivia = true

theorem Finishes.length_lt {s t : State} (h : Finishes s t) : t.ahead.length < s.ahead.length := by
  obtain ⟨x, gate, gap, hahead, -⟩ := h
  rw [hahead, List.length_append, List.length_cons, List.length_append]
  omega

theorem Finishes.behind {s t u : State} (h : Finishes t u) (hst : t.ahead <:+ s.ahead) :
    Finishes s u := by
  obtain ⟨x, gate, gap, hahead, hgate⟩ := h
  obtain ⟨y, hy⟩ := hst
  exact ⟨y ++ x, gate, gap, by rw [← hy, hahead, List.append_assoc], hgate⟩

theorem finishes_take {s : State} (hcloser : isCloser s.current = true)
    (hparen : s.current ≠ .rightParen) :
    Finishes s (s.take Token.node) := by
  cases htoken : s.token? with
  | none =>
    rw [State.current, htoken] at hcloser
    cases hcloser
  | some token =>
    rw [State.current, htoken] at hcloser hparen
    refine ⟨[], token, s.unread.takeWhile Token.isTrivia, ?_, hcloser, hparen, ?_⟩
    · rw [State.take_of_some htoken, State.ahead_read, List.takeWhile_append_dropWhile,
        State.ahead, htoken]
      rfl
    · exact fun _ => List.mem_takeWhile_imp

/-- What stands below a statement on both sides, its last token, and what follows that, with a
closing brace in front on the second side. -/
structure Bracing where
  low : List Node
  low' : List Node
  gate : Token
  rest : List Token
  gap : List Token
  brace : Token
  closer : isCloser gate.kind = true
  not_paren : gate.kind ≠ .rightParen
  trivia : ∀ token ∈ gap, token.isTrivia = true
  closes : brace.kind = .rightBrace
  sound : ∀ node ∈ low.getLast?, node.kind.isError = false

namespace Bracing

variable (B : Bracing)

/-- What follows the last token on the second side. -/
def behind : List Token :=
  B.gap ++ B.brace :: B.rest

/-- The two sides are twins up to the last token. -/
def coupling : Coupling :=
  .gated B.low B.low' B.gate B.rest B.behind ⟨B.closer, fun h => absurd h B.not_paren⟩

/-- How many tokens are ahead once the last one is taken in. -/
def left : Nat :=
  (B.rest.dropWhile Token.isTrivia).length

/-- A state on top of what stands below. -/
structure Stands (s : State) : Prop where
  fair : s.Fair
  firm : ∃ up, s.firm = B.low ++ up

/-- There are no problems on top of what stands below. -/
def Clean (t : State) : Prop :=
  ∀ node ∈ t.firm.drop B.low.length, node.problems = []

/-- The first run is behind the last token, and the second in front of the brace. -/
structure Ended (t t' : State) : Prop where
  fair : t.Fair
  fair' : t'.Fair
  afterError : t'.isAfterError = t.isAfterError
  firm : ∃ up, t.firm = B.low ++ up ∧ t'.firm = B.low' ++ up
  ahead : t.ahead = B.rest.dropWhile Token.isTrivia
  loose : t.loose = (B.rest.takeWhile Token.isTrivia).map Token.node
  loose' : t'.loose = B.gap.map Token.node
  token : t'.token? = some B.brace
  unread : t'.unread = B.rest

variable {B} {s s' t t' u : State}

/-! ## Standing on what is below -/

theorem Stands.base_le (h : B.Stands s) : B.low.length ≤ s.solid := by
  obtain ⟨up, hfirm⟩ := h.firm
  rw [← State.length_firm, hfirm, List.length_append]
  exact Nat.le_add_right _ _

theorem gated_of_rel (h : B.coupling.Rel s s') : Gated B.low B.low' B.gate B.rest B.behind s s' :=
  h

theorem stands_of_rel (h : B.coupling.Rel s s') : B.Stands s := by
  obtain ⟨up, hfirm, -⟩ := (gated_of_rel h).firm
  exact ⟨(gated_of_rel h).fair, up, hfirm⟩

theorem Stands.exists_firm (h : B.Stands s) (hst : Grows B.low.length s t) :
    ∃ up, t.firm = B.low ++ up := by
  induction hst with
  | refl => exact h.firm
  | @take t node _ _ ih =>
    obtain ⟨up, hfirm⟩ := ih
    cases htoken : t.token? with
    | none => exact ⟨up, by rw [State.take_of_none htoken, hfirm]⟩
    | some token =>
      exact ⟨up ++ (t.loose ++ [node token]), by
        rw [State.firm_take htoken, hfirm, List.append_assoc, List.append_assoc]⟩
  | @missing t wanted ht _ ih =>
    obtain ⟨up, hfirm⟩ := ih
    rcases (ht.sane h.fair.sane).firm_markMissing wanted with heq | heq <;> rw [heq, hfirm]
    · exact ⟨up, rfl⟩
    · exact ⟨up ++ [.error (.expected wanted) []], List.append_assoc _ _ _⟩
  | @wrap t marker kind ht _ hmarker ih =>
    obtain ⟨up, hfirm⟩ := ih
    obtain ⟨n, rfl⟩ := Nat.exists_eq_add_of_le hmarker
    refine ⟨up.take n ++ [.branch kind (up.drop n)], ?_⟩
    rw [(ht.sane h.fair.sane).firm_wrap, hfirm, List.take_length_add_append,
      List.drop_length_add_append, List.append_assoc]

theorem Stands.grows (h : B.Stands s) (ht : t.Fair) (hst : Grows B.low.length s t) : B.Stands t :=
  ⟨ht, h.exists_firm hst⟩

theorem clean_iff {up : List Node} (h : t.firm = B.low ++ up) :
    B.Clean t ↔ ∀ node ∈ up, node.problems = [] := by
  rw [Clean, h, List.drop_left]

/-- What has problems goes on to have them. -/
theorem Clean.of_grows (h : B.Clean t) (hs : B.Stands s) (hst : Grows B.low.length s t) :
    B.Clean s := by
  -- a step puts nodes behind the others or makes a branch of the last ones
  induction hst with
  | refl => exact h
  | @take t node ht _ ih =>
    obtain ⟨up, hfirm⟩ := hs.exists_firm ht
    refine ih ((clean_iff hfirm).2 fun n hn => ?_)
    cases htoken : t.token? with
    | none =>
      rw [State.take_of_none htoken, clean_iff hfirm] at h
      exact h n hn
    | some token =>
      have hmore : (t.take node).firm = B.low ++ (up ++ (t.loose ++ [node token])) := by
        rw [State.firm_take htoken, hfirm, List.append_assoc, List.append_assoc]
      exact (clean_iff hmore).1 h n (List.mem_append_left _ hn)
  | @missing t wanted ht _ ih =>
    obtain ⟨up, hfirm⟩ := hs.exists_firm ht
    refine ih ((clean_iff hfirm).2 fun n hn => ?_)
    rcases (ht.sane hs.fair.sane).firm_markMissing wanted with heq | heq
    · rw [clean_iff (heq.trans hfirm)] at h
      exact h n hn
    · have hmore : (t.markMissing wanted).firm =
          B.low ++ (up ++ [.error (.expected wanted) []]) := by
        rw [heq, hfirm, List.append_assoc]
      exact (clean_iff hmore).1 h n (List.mem_append_left _ hn)
  | @wrap t marker kind ht _ hmarker ih =>
    obtain ⟨up, hfirm⟩ := hs.exists_firm ht
    obtain ⟨k, rfl⟩ := Nat.exists_eq_add_of_le hmarker
    refine ih ((clean_iff hfirm).2 fun n hn => ?_)
    have hmore : (t.wrap (B.low.length + k) kind).firm
        = B.low ++ (up.take k ++ [.branch kind (up.drop k)]) := by
      rw [(ht.sane hs.fair.sane).firm_wrap, hfirm, List.take_length_add_append,
        List.drop_length_add_append, List.append_assoc]
    rw [clean_iff hmore] at h
    rw [← List.take_append_drop k up] at hn
    rcases List.mem_append.1 hn with hn | hn
    · exact h n (List.mem_append_left _ hn)
    · have hbranch := h _ (List.mem_append_right _ List.mem_cons_self)
      rw [Node.problems, Node.problemsAll_eq_nil] at hbranch
      exact hbranch n hn

/-- A mark is a problem, be it new or from before. -/
theorem Stands.not_clean_markMissing (h : B.Stands s) (wanted : Wanted) :
    ¬ B.Clean (s.markMissing wanted) := by
  obtain ⟨up, hfirm⟩ := h.firm
  intro hclean
  unfold State.markMissing at hclean
  split at hclean
  · next hafter =>
    rw [clean_iff hfirm] at hclean
    rw [State.isAfterError_eq, hfirm, List.getLast?_append] at hafter
    cases hlast : up.getLast? with
    | none =>
      rw [hlast, Option.none_or, Option.any_eq_true] at hafter
      obtain ⟨node, hnode, herror⟩ := hafter
      exact Bool.false_ne_true ((B.sound node hnode).symm.trans herror)
    | some node =>
      rw [hlast, Option.some_or, Option.any_some] at hafter
      have hmem : node ∈ up := List.mem_of_getLast? hlast
      have hbuilt : node ∈ s.built := by
        rw [← List.mem_reverse, ← State.firm_append_loose, hfirm]
        exact List.mem_append_left _ (List.mem_append_right _ hmem)
      have hkind : node.kind = .error := by
        cases hkind : node.kind <;> first | rfl | (rw [hkind] at hafter; cases hafter)
      exact h.fair.errors node hbuilt hkind (hclean node hmem)
  · have hmore : (s.insertSolid 0 (.error (.expected wanted) [])).firm
        = B.low ++ (up ++ [.error (.expected wanted) []]) := by
      rw [h.fair.sane.firm_insertSolid, Nat.sub_zero, List.take_length, hfirm, List.append_assoc]
    cases (clean_iff hmore).1 hclean _ (List.mem_append_right _ List.mem_cons_self)

/-! ## In front of the brace -/

theorem Ended.stands (h : B.Ended t t') : B.Stands t := by
  obtain ⟨up, hfirm, -⟩ := h.firm
  exact ⟨h.fair, up, hfirm⟩

theorem Ended.length_ahead (h : B.Ended t t') : t.ahead.length = B.left := by
  rw [h.ahead, left]

theorem Ended.gone (h : B.Ended t t') : B.coupling.Gone t :=
  h.length_ahead.le

theorem Ended.current_ne (h : B.Ended t t') {kind : Kind} (hkind : kind ≠ .rightBrace) :
    t'.current ≠ kind := by
  rw [State.current, h.token]
  exact fun heq => hkind (heq.symm.trans B.closes)

theorem Ended.wrap (h : B.Ended t t') {m m' : Nat} (hlevel : B.coupling.Level m m') {kind : Kind}
    (hkind : kind.isConstruct = true) : B.Ended (t.wrap m kind) (t'.wrap m' kind) := by
  obtain ⟨up, hfirm, hfirm'⟩ := h.firm
  obtain ⟨n, rfl⟩ := Nat.exists_eq_add_of_le (show B.low.length ≤ m from hlevel.base_le)
  obtain rfl : m' = B.low'.length + n := by
    have heq : B.low.length + n + B.low'.length = m' + B.low.length := hlevel.eq
    omega
  have hwrap {s : State} {low : List Node} (hs : s.Sane) (hfirm : s.firm = low ++ up) :
      (s.wrap (low.length + n) kind).firm = low ++ (up.take n ++ [.branch kind (up.drop n)]) := by
    rw [hs.firm_wrap, hfirm, List.take_length_add_append, List.drop_length_add_append,
      List.append_assoc]
  refine ⟨h.fair.wrap _ hkind, h.fair'.wrap _ hkind, ?_,
    ⟨_, hwrap h.fair.sane hfirm, hwrap h.fair'.sane hfirm'⟩, h.ahead, ?_, ?_, h.token, h.unread⟩
  · rw [State.isAfterError_eq, State.isAfterError_eq, h.fair.sane.firm_wrap, h.fair'.sane.firm_wrap,
      List.getLast?_concat, List.getLast?_concat]
    rfl
  · rw [h.fair.sane.loose_wrap, h.loose]
  · rw [h.fair'.sane.loose_wrap, h.loose']

/-- The last token is taken in on both sides. -/
theorem ended_take (h : B.coupling.Rel s s') (htoken : s.token? = some B.gate)
    (hunread : s.unread = B.rest)
    (hunread' : s'.unread = B.behind) : B.Ended (s.take Token.node) (s'.take Token.node) := by
  have h := gated_of_rel h
  have htoken' := h.token.trans htoken
  have hbrace : B.brace.isTrivia = false := isTrivia_of_isCloser (by rw [B.closes]; rfl)
  have htake : B.behind.takeWhile Token.isTrivia = B.gap := by
    rw [behind, takeWhile_isTrivia_gate hbrace, List.takeWhile_eq_self_iff.2 B.trivia]
  have hdrop : B.behind.dropWhile Token.isTrivia = B.brace :: B.rest := by
    rw [behind, dropWhile_isTrivia_gate hbrace, List.dropWhile_eq_nil_iff.2 B.trivia,
      List.nil_append]
  obtain ⟨up, hfirm, hfirm'⟩ := h.firm
  refine ⟨h.fair.take (.inl rfl), h.fair'.take (.inl rfl), ?_,
    ⟨up ++ s.loose ++ [B.gate.node], ?_, ?_⟩, ?_, ?_, ?_, ?_, ?_⟩
  · rw [State.isAfterError_eq, State.isAfterError_eq, State.firm_take htoken,
      State.firm_take htoken', List.getLast?_concat, List.getLast?_concat]
  · rw [State.firm_take htoken, hfirm, List.append_assoc, List.append_assoc, List.append_assoc]
  · rw [State.firm_take htoken', hfirm', h.loose, List.append_assoc, List.append_assoc,
      List.append_assoc]
  · rw [State.take_of_some htoken, State.ahead_read, hunread]
  · rw [State.take_of_some htoken, State.loose_read, hunread]
  · rw [State.take_of_some htoken', State.loose_read, hunread', htake]
  · rw [State.take_of_some htoken', hunread']
    exact congrArg List.head? hdrop
  · rw [State.take_of_some htoken', hunread']
    exact congrArg List.tail hdrop

end Bracing

/-! ## The judgements -/

/-- As long as a run has no marks, the two sides give the same answer and stay gated, unless the
last token has been taken in. -/
structure Leads (B : Bracing) (wanted : Kind → Prop) (p p' : Parser α) : Prop where
  grows : ∀ {s a t}, B.Stands s → wanted s.current → p.run s = some (a, t) →
    B.Stands t ∧ Grows B.low.length s t
  step : ∀ {s s' a t a' t'}, B.coupling.Rel s s' → wanted s.current → p.run s = some (a, t) →
    p'.run s' = some (a', t') → B.Clean t → B.left ≤ t.ahead.length →
      B.coupling.Gone t ∨ a' = a ∧ B.coupling.Rel t t'

/-- The same, and where the last token is the last one that is taken in, the second run
ends in front of the brace. -/
structure Lands (B : Bracing) (wanted : Kind → Prop) (p p' : Parser α) : Prop where
  grows : ∀ {s a t}, B.Stands s → wanted s.current → p.run s = some (a, t) →
    B.Stands t ∧ Grows B.low.length s t
  step : ∀ {s s' a t a' t'}, B.coupling.Rel s s' → wanted s.current → p.run s = some (a, t) →
    p'.run s' = some (a', t') → B.Clean t → B.left ≤ t.ahead.length →
      a' = a ∧ (B.Ended t t' ∨ B.coupling.Rel t t')

/-- A parser that takes a token in at its end that closes a statement. -/
structure Seals (B : Bracing) (wanted : Kind → Prop) (p p' : Parser α) : Prop
    extends Lands B wanted p p' where
  finish : ∀ {s a t}, B.Stands s → wanted s.current → p.run s = some (a, t) →
    B.Clean t → Finishes s t

/-- A parser that does so or leaves everything as it is. -/
structure Rests (B : Bracing) (p p' : Parser α) : Prop extends Lands B anywhere p p' where
  finish : ∀ {s a t}, B.Stands s → p.run s = some (a, t) → B.Clean t →
    t.ahead = s.ahead ∨ Finishes s t
  idle : ∀ {s s' a t a' t'}, B.Ended s s' → p.run s = some (a, t) → p'.run s' = some (a', t') →
    B.Clean t → B.left ≤ t.ahead.length → a' = a ∧ B.Ended t t'

variable {B : Bracing} {wanted wanted' : Kind → Prop} {kind : Kind} {p p' : Parser α}
  {g g' : α → Parser β} {m m' : Nat}

theorem Tracks.leads (h : Mirrors B.coupling wanted p p') : Leads B wanted p p' where
  grows hs hkind hrun := by
    obtain ⟨ht, hst⟩ := h.grows hs.fair hs.base_le hkind hrun
    exact ⟨hs.grows ht hst, hst⟩
  step hs hkind hrun hrun' _ _ := h.step hs hkind hrun hrun'

theorem Lands.leads (h : Lands B wanted p p') : Leads B wanted p p' where
  grows := h.grows
  step hs hkind hrun hrun' hclean hleft := by
    obtain ⟨heq, hended | hrel⟩ := h.step hs hkind hrun hrun' hclean hleft
    · exact .inl hended.gone
    · exact .inr ⟨heq, hrel⟩

theorem Seals.mono (h : Seals B wanted p p') (hwanted : ∀ kind, wanted' kind → wanted kind) :
    Seals B wanted' p p' where
  grows hs hkind := h.grows hs (hwanted _ hkind)
  step hs hkind := h.step hs (hwanted _ hkind)
  finish hs hkind := h.finish hs (hwanted _ hkind)

/-- Once the first run is behind the last token, one more token is too much. -/
theorem Seals.lt_left {s t : State} {a : α} (h : Seals B wanted p p') (hs : B.Stands s)
    (hkind : wanted s.current)
    (hgone : B.coupling.Gone s) (hrun : p.run s = some (a, t)) (hclean : B.Clean t) :
    t.ahead.length < B.left := by
  have hgone : s.ahead.length ≤ B.left := hgone
  exact (h.finish hs hkind hrun hclean).length_lt.trans_le hgone

/-! ## One parser after another -/

theorem Leads.grows_bind {s u : State} {b : β} (hp : Leads B wanted p p')
    (hg : ∀ {s a t b}, B.Stands s → (g a).run s = some (b, t) → B.Stands t ∧ Grows B.low.length s t)
    (hs : B.Stands s) (hkind : wanted s.current) (hrun : (p >>= g).run s = some (b, u)) :
    B.Stands u ∧ Grows B.low.length s u := by
  obtain ⟨a, t, hpt, hgu⟩ := run_bind_eq_some.1 hrun
  obtain ⟨ht, hst⟩ := hp.grows hs hkind hpt
  obtain ⟨hu, htu⟩ := hg ht hgu
  exact ⟨hu, hst.trans htu⟩

theorem Leads.bind {wanted : Kind → Prop} (hp : Leads B wanted p p')
    (hg : ∀ a, Seals B anywhere (g a) (g' a)) : Seals B wanted (p >>= g) (p' >>= g') where
  grows hs hkind hrun := hp.grows_bind (fun hs hrun => (hg _).grows hs trivial hrun) hs hkind hrun
  finish hs hkind hrun hclean := by
    obtain ⟨a, t, hpt, hgu⟩ := run_bind_eq_some.1 hrun
    obtain ⟨ht, hst⟩ := hp.grows hs hkind hpt
    exact ((hg a).finish ht trivial hgu hclean).behind hst.ahead_suffix
  step hs hkind hrun hrun' hclean hleft := by
    obtain ⟨a, t, hpt, hgu⟩ := run_bind_eq_some.1 hrun
    obtain ⟨a', t', hpt', hgu'⟩ := run_bind_eq_some.1 hrun'
    obtain ⟨ht, -⟩ := hp.grows (Bracing.stands_of_rel hs) hkind hpt
    obtain ⟨-, htu⟩ := (hg a).grows ht trivial hgu
    rcases hp.step hs hkind hpt hpt' (hclean.of_grows ht htu) (hleft.trans htu.length_ahead_le) with
      hgone | ⟨rfl, hrel⟩
    · exact absurd ((hg a).lt_left ht trivial hgone hgu hclean) hleft.not_gt
    · exact (hg a').step hrel trivial hgu hgu' hclean hleft

theorem Lands.bindRests (hp : Lands B wanted p p') (hg : ∀ a, Rests B (g a) (g' a)) :
    Lands B wanted (p >>= g) (p' >>= g') where
  grows hs hkind hrun :=
    hp.leads.grows_bind (fun hs hrun => (hg _).grows hs trivial hrun) hs hkind hrun
  step hs hkind hrun hrun' hclean hleft := by
    obtain ⟨a, t, hpt, hgu⟩ := run_bind_eq_some.1 hrun
    obtain ⟨a', t', hpt', hgu'⟩ := run_bind_eq_some.1 hrun'
    obtain ⟨ht, -⟩ := hp.grows (Bracing.stands_of_rel hs) hkind hpt
    obtain ⟨-, htu⟩ := (hg a).grows ht trivial hgu
    obtain ⟨rfl, hended | hrel⟩ :=
      hp.step hs hkind hpt hpt' (hclean.of_grows ht htu) (hleft.trans htu.length_ahead_le)
    · exact ((hg a').idle hended hgu hgu' hclean hleft).imp_right .inl
    · exact (hg a').step hrel trivial hgu hgu' hclean hleft

theorem Seals.bind (hp : Seals B wanted p p') (hg : ∀ a, Rests B (g a) (g' a)) :
    Seals B wanted (p >>= g) (p' >>= g') where
  toLands := hp.bindRests hg
  finish hs hkind hrun hclean := by
    obtain ⟨a, t, hpt, hgu⟩ := run_bind_eq_some.1 hrun
    obtain ⟨ht, hst⟩ := hp.grows hs hkind hpt
    obtain ⟨-, htu⟩ := (hg a).grows ht trivial hgu
    rcases (hg a).finish ht hgu hclean with hsame | hfinish
    · obtain ⟨x, gate, gap, hahead, hgate⟩ := hp.finish hs hkind hpt (hclean.of_grows ht htu)
      exact ⟨x, gate, gap, by rw [hsame, hahead], hgate⟩
    · exact hfinish.behind hst.ahead_suffix

theorem Seals.discard (h : Seals B wanted p p') : Seals B wanted (discard p) (discard p') where
  grows hs hkind hrun := by
    obtain ⟨b, hb⟩ := run_discard_eq_some.1 hrun
    exact h.grows hs hkind hb
  finish hs hkind hrun hclean := by
    obtain ⟨b, hb⟩ := run_discard_eq_some.1 hrun
    exact h.finish hs hkind hb hclean
  step hs hkind hrun hrun' hclean hleft := by
    obtain ⟨b, hb⟩ := run_discard_eq_some.1 hrun
    obtain ⟨b', hb'⟩ := run_discard_eq_some.1 hrun'
    exact ⟨rfl, (h.step hs hkind hb hb' hclean hleft).2⟩

namespace Rests

theorem bind (hp : Rests B p p') (hg : ∀ a, Rests B (g a) (g' a)) :
    Rests B (p >>= g) (p' >>= g') where
  toLands := hp.bindRests hg
  finish hs hrun hclean := by
    obtain ⟨a, t, hpt, hgu⟩ := run_bind_eq_some.1 hrun
    obtain ⟨ht, hst⟩ := hp.grows hs trivial hpt
    obtain ⟨-, htu⟩ := (hg a).grows ht trivial hgu
    rcases (hg a).finish ht hgu hclean with hsame | hfinish
    · unfold Finishes
      rw [hsame]
      exact hp.finish hs hpt (hclean.of_grows ht htu)
    · exact .inr (hfinish.behind hst.ahead_suffix)
  idle hs hrun hrun' hclean hleft := by
    obtain ⟨a, t, hpt, hgu⟩ := run_bind_eq_some.1 hrun
    obtain ⟨a', t', hpt', hgu'⟩ := run_bind_eq_some.1 hrun'
    obtain ⟨ht, -⟩ := hp.grows hs.stands trivial hpt
    obtain ⟨-, htu⟩ := (hg a).grows ht trivial hgu
    obtain ⟨rfl, hended⟩ :=
      hp.idle hs hpt hpt' (hclean.of_grows ht htu) (hleft.trans htu.length_ahead_le)
    exact (hg a').idle hended hgu hgu' hclean hleft

theorem pure (a : α) : Rests B (pure a) (pure a) where
  grows hs _ hrun := by
    obtain ⟨-, rfl⟩ := run_pure_eq_some.1 hrun
    exact ⟨hs, .refl⟩
  step hs _ hrun hrun' _ _ := by
    obtain ⟨rfl, rfl⟩ := run_pure_eq_some.1 hrun
    obtain ⟨rfl, rfl⟩ := run_pure_eq_some.1 hrun'
    exact ⟨rfl, .inr hs⟩
  finish _ hrun _ := by
    obtain ⟨-, rfl⟩ := run_pure_eq_some.1 hrun
    exact .inl rfl
  idle hs hrun hrun' _ _ := by
    obtain ⟨rfl, rfl⟩ := run_pure_eq_some.1 hrun
    obtain ⟨rfl, rfl⟩ := run_pure_eq_some.1 hrun'
    exact ⟨rfl, hs⟩

theorem wrap (hlevel : B.coupling.Level m m') {kind : Kind} (hkind : kind.isConstruct = true) :
    Rests B (wrap m kind) (wrap m' kind) where
  grows hs hwanted hrun := by
    have hmirrors : Mirrors B.coupling anywhere (Grammar.wrap m kind) (Grammar.wrap m' kind) :=
      wrap_tracks hlevel hkind
    exact hmirrors.leads.grows hs hwanted hrun
  step hs _ hrun hrun' _ _ := by
    obtain ⟨-, rfl⟩ := Prod.mk.inj (Option.some.inj hrun)
    obtain ⟨-, rfl⟩ := Prod.mk.inj (Option.some.inj hrun')
    exact ⟨rfl, .inr (B.coupling.wrap hs hlevel.base_le hlevel.eq hkind)⟩
  finish _ hrun _ := by
    obtain ⟨-, rfl⟩ := Prod.mk.inj (Option.some.inj hrun)
    exact .inl rfl
  idle hs hrun hrun' _ _ := by
    obtain ⟨-, rfl⟩ := Prod.mk.inj (Option.some.inj hrun)
    obtain ⟨-, rfl⟩ := Prod.mk.inj (Option.some.inj hrun')
    exact ⟨rfl, hs.wrap hlevel hkind⟩

/-- What is looked for behind the last token is not found there, nor in front of the brace. -/
theorem isAt_bind {g g' : Bool → Parser β} (hkind : kind ≠ .rightBrace)
    (htrue : Seals B (· = kind) (g true) (g' true)) (hfalse : Rests B (g false) (g' false)) :
    Rests B (isAt kind >>= g) (isAt kind >>= g') := by
  have hask {g : Bool → Parser β} (s : State) :
      (isAt kind >>= g).run s = (g (decide (s.current = kind))).run s :=
    rfl
  constructor
  · constructor
    · intro s a t hs _ hrun
      rw [hask] at hrun
      by_cases hat : s.current = kind
      · rw [decide_eq_true hat] at hrun
        exact htrue.grows hs hat hrun
      · rw [decide_eq_false hat] at hrun
        exact hfalse.grows hs trivial hrun
    · intro s s' a t a' t' hs _ hrun hrun' hclean hleft
      rw [hask] at hrun hrun'
      rw [Coupling.current_eq hs] at hrun'
      by_cases hat : s.current = kind
      · rw [decide_eq_true hat] at hrun hrun'
        exact htrue.step hs hat hrun hrun' hclean hleft
      · rw [decide_eq_false hat] at hrun hrun'
        exact hfalse.step hs trivial hrun hrun' hclean hleft
  · intro s a t hs hrun hclean
    rw [hask] at hrun
    by_cases hat : s.current = kind
    · rw [decide_eq_true hat] at hrun
      exact .inr (htrue.finish hs hat hrun hclean)
    · rw [decide_eq_false hat] at hrun
      exact hfalse.finish hs hrun hclean
  · intro s s' a t a' t' hs hrun hrun' hclean hleft
    rw [hask] at hrun hrun'
    -- at the brace the second side finds nothing
    rw [decide_eq_false (hs.current_ne hkind)] at hrun'
    by_cases hat : s.current = kind
    · rw [decide_eq_true hat] at hrun
      exact absurd (htrue.lt_left hs.stands hat hs.gone hrun hclean) hleft.not_gt
    · rw [decide_eq_false hat] at hrun
      exact hfalse.idle hs hrun hrun' hclean hleft

end Rests

/-! ## Tokens and marks -/

/-- No state is held, so every token may be taken in. -/
theorem take_gated : Mirrors B.coupling wanted take take :=
  take_of_unheld fun _ _ => id

theorem take_seals (hwanted : ∀ kind, wanted kind → isCloser kind = true ∧ kind ≠ .rightParen) :
    Seals B wanted take take where
  grows hs _ hrun := by
    have hmirrors : Mirrors B.coupling anywhere take take := take_gated
    exact hmirrors.leads.grows hs trivial hrun
  finish hs hkind hrun _ := by
    obtain ⟨-, rfl⟩ := Prod.mk.inj (Option.some.inj hrun)
    exact finishes_take (hwanted _ hkind).1 (hwanted _ hkind).2
  step hs _ hrun hrun' _ _ := by
    obtain ⟨-, rfl⟩ := Prod.mk.inj (Option.some.inj hrun)
    obtain ⟨-, rfl⟩ := Prod.mk.inj (Option.some.inj hrun')
    refine ⟨rfl, ?_⟩
    rcases (Bracing.gated_of_rel hs).take (isTrivia_of_isCloser B.closer) (.inl rfl) with
      ⟨htoken, hunread, hunread'⟩ | hgated
    · exact .inl (Bracing.ended_take hs htoken hunread hunread')
    · exact .inr hgated

/-- What leaves a mark has no run without marks. -/
theorem missing_seals (missed : Wanted) : Seals B wanted (missing missed) (missing missed) where
  grows hs hkind hrun := by
    have hmirrors : Mirrors B.coupling wanted (missing missed) (missing missed) :=
      missing_tracks missed
    exact hmirrors.leads.grows hs hkind hrun
  finish hs _ hrun hclean := by
    obtain ⟨-, rfl⟩ := Prod.mk.inj (Option.some.inj hrun)
    exact absurd hclean (hs.not_clean_markMissing missed)
  step hs _ hrun _ hclean _ := by
    obtain ⟨-, rfl⟩ := Prod.mk.inj (Option.some.inj hrun)
    exact absurd hclean ((Bracing.stands_of_rel hs).not_clean_markMissing missed)

/-! ## Looking -/

namespace Seals

theorem current_bind {g g' : Kind → Parser β}
    (hg : ∀ kind, wanted kind → Seals B (· = kind) (g kind) (g' kind)) :
    Seals B wanted (current >>= g) (current >>= g') where
  grows {s b u} hs hkind hrun := by
    have hrun : (g s.current).run s = some (b, u) := hrun
    exact (hg _ hkind).grows hs rfl hrun
  finish {s b u} hs hkind hrun hclean := by
    have hrun : (g s.current).run s = some (b, u) := hrun
    exact (hg _ hkind).finish hs rfl hrun hclean
  step {s s' b u b' u'} hs hkind hrun hrun' hclean hleft := by
    have hrun : (g s.current).run s = some (b, u) := hrun
    have hrun' : (g' s'.current).run s' = some (b', u') := hrun'
    rw [Coupling.current_eq hs] at hrun'
    exact (hg _ hkind).step hs rfl hrun hrun' hclean hleft

theorem isAtAny_bind {is : Kind → Bool} {g g' : Bool → Parser β}
    (htrue : Seals B (fun kind => wanted kind ∧ is kind = true) (g true) (g' true))
    (hfalse : Seals B (fun kind => wanted kind ∧ is kind = false) (g false) (g' false)) :
    Seals B wanted (isAtAny is >>= g) (isAtAny is >>= g') := by
  have hrun (g : Bool → Parser β) : isAtAny is >>= g = current >>= fun kind => g (is kind) := rfl
  rw [hrun g, hrun g']
  refine current_bind fun kind hkind => ?_
  cases his : is kind with
  | true => exact htrue.mono (by rintro _ rfl; exact ⟨hkind, his⟩)
  | false => exact hfalse.mono (by rintro _ rfl; exact ⟨hkind, his⟩)

theorem isAt_bind {g g' : Bool → Parser β} (htrue : Seals B (· = kind) (g true) (g' true))
    (hfalse : Seals B (fun k => wanted k ∧ k ≠ kind) (g false) (g' false)) :
    Seals B wanted (isAt kind >>= g) (isAt kind >>= g') :=
  @isAtAny_bind _ B wanted (fun k => decide (k = kind)) g g'
    (htrue.mono fun _ h => of_decide_eq_true h.2)
    (hfalse.mono fun _ h => ⟨h.1, of_decide_eq_false h.2⟩)

theorem marker_bind {g g' : Nat → Parser β}
    (hg : ∀ m m', B.coupling.Level m m' → Seals B wanted (g m) (g' m')) :
    Seals B wanted (marker >>= g) (marker >>= g') where
  grows {s b u} hs hkind hrun := by
    have hrun : (g s.marker).run s = some (b, u) := hrun
    obtain ⟨m', hlevel⟩ :=
      Coupling.exists_level (C := B.coupling) (hs.base_le.trans s.solid_le_marker)
    exact (hg _ _ hlevel).grows hs hkind hrun
  finish {s b u} hs hkind hrun hclean := by
    have hrun : (g s.marker).run s = some (b, u) := hrun
    obtain ⟨m', hlevel⟩ :=
      Coupling.exists_level (C := B.coupling) (hs.base_le.trans s.solid_le_marker)
    exact (hg _ _ hlevel).finish hs hkind hrun hclean
  step {s s' b u b' u'} hs hkind hrun hrun' hclean hleft := by
    have hrun : (g s.marker).run s = some (b, u) := hrun
    have hrun' : (g' s'.marker).run s' = some (b', u') := hrun'
    exact (hg _ _ (Coupling.level hs)).step hs hkind hrun hrun' hclean hleft

end Seals

theorem expect_seals (hcloser : isCloser kind = true) (hparen : kind ≠ .rightParen) :
    Seals B wanted (discard (expect kind)) (discard (expect kind)) := by
  refine Seals.discard (.isAt_bind ?_ ?_)
  · exact (take_seals (by rintro _ rfl; exact ⟨hcloser, hparen⟩)).bind fun _ => .pure true
  · exact (missing_seals _).bind fun _ => .pure false

end StatementCompletion.Grammar
