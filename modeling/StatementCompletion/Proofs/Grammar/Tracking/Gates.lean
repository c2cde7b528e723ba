import StatementCompletion.Proofs.Grammar.Tracking.Twins

/-!
# Twins up to a gate

Two states are gated if they are twins and the same tokens are ahead of them up to a token, the
gate, behind which anything may follow on either side.  A gate that closes a header or a statement
is a coupling of its own, with a run gone once it has taken the gate in.
-/

namespace StatementCompletion.Grammar

variable {low low' : List Node} {gate : Token} {rest rest' : List Token} {s s' : State}

/-- Twins with the same tokens ahead up to a gate. -/
structure Gated (low low' : List Node) (gate : Token) (rest rest' : List Token)
    (s s' : State) : Prop
    extends Twins low low' s s' where
  ahead : ∃ x, s.ahead = x ++ gate :: rest ∧ s'.ahead = x ++ gate :: rest'

/-- The tokens ahead are the current one and those that are not read yet. -/
theorem State.Sane.of_ahead_eq_cons {s : State} (hs : s.Sane) {token : Token} {tokens : List Token}
    (h : s.ahead = token :: tokens) : s.token? = some token ∧ s.unread = tokens := by
  cases htoken : s.token? with
  | none =>
    rw [State.ahead, htoken, hs.ended htoken] at h
    cases h
  | some current =>
    rw [State.ahead, htoken] at h
    obtain ⟨rfl, rfl⟩ := List.cons.inj h
    exact ⟨rfl, rfl⟩

namespace Gated

/-- The gate is the current token, or is still to be read. -/
theorem cases (h : Gated low low' gate rest rest' s s') :
    (s.token? = some gate ∧ s.unread = rest ∧ s'.unread = rest')
      ∨ s.token?.isSome ∧ ∃ x, s.unread = x ++ gate :: rest ∧ s'.unread = x ++ gate :: rest' := by
  obtain ⟨x, hahead, hahead'⟩ := h.ahead
  cases x with
  | nil =>
    obtain ⟨htoken, hunread⟩ := h.fair.sane.of_ahead_eq_cons hahead
    exact .inl ⟨htoken, hunread, (h.fair'.sane.of_ahead_eq_cons hahead').2⟩
  | cons token x =>
    obtain ⟨htoken, hunread⟩ := h.fair.sane.of_ahead_eq_cons hahead
    exact .inr ⟨by rw [htoken]; rfl, x, hunread, (h.fair'.sane.of_ahead_eq_cons hahead').2⟩

/-- Where one side has only what is behind the gate to read, the other one has its own rest. -/
theorem unread_eq (h : Gated low low' gate rest rest' s s') (hunread : s.unread = rest) :
    s'.unread = rest' := by
  rcases h.cases with ⟨-, -, hunread'⟩ | ⟨-, x, hbehind, -⟩
  · exact hunread'
  · have hlength := congrArg List.length (hunread.symm.trans hbehind)
    rw [List.length_append, List.length_cons] at hlength
    omega

theorem unread_length (h : Gated low low' gate rest rest' s s') :
    s'.unread.length + rest.length = s.unread.length + rest'.length := by
  rcases h.cases with ⟨-, hunread, hunread'⟩ | ⟨-, x, hunread, hunread'⟩
  · rw [hunread, hunread', Nat.add_comm]
  · rw [hunread, hunread', List.length_append, List.length_append, List.length_cons,
      List.length_cons]
    omega

/-- In front of the gate the two sides read the same. -/
theorem readsOn {x : List Token} (hgate : gate.isTrivia = false)
    (hunread : s.unread = x ++ gate :: rest)
    (hunread' : s'.unread = x ++ gate :: rest') : Twins.ReadsOn s s' := by
  refine ⟨?_, ?_⟩
  · rw [hunread, hunread', takeWhile_isTrivia_gate hgate, takeWhile_isTrivia_gate hgate]
  · rw [hunread, hunread', dropWhile_isTrivia_gate hgate, dropWhile_isTrivia_gate hgate]
    cases x.dropWhile Token.isTrivia <;> rfl

theorem next (h : Gated low low' gate rest rest' s s') (hgate : gate.isTrivia = false)
    (hkind : s.current ≠ gate.kind) :
    s'.next.current = s.next.current ∧ s'.next.onNewLine = s.next.onNewLine := by
  rcases h.cases with ⟨htoken, -⟩ | ⟨-, x, hunread, hunread'⟩
  · exact absurd (by rw [State.current, htoken]) hkind
  · exact (readsOn hgate hunread hunread').next

/-- A token is taken in in front of the gate, or it is the gate. -/
theorem take (h : Gated low low' gate rest rest' s s') (hgate : gate.isTrivia = false)
    {node : Token → Node} (hnode : IsTaking node) :
    (s.token? = some gate ∧ s.unread = rest ∧ s'.unread = rest')
      ∨ Gated low low' gate rest rest' (s.take node) (s'.take node) := by
  rcases h.cases with hat | ⟨hsome, x, hunread, hunread'⟩
  · exact .inl hat
  · right
    have hreads := readsOn hgate hunread hunread'
    obtain ⟨token, htoken⟩ := Option.isSome_iff_exists.1 hsome
    refine ⟨h.toTwins.take (fun _ => hreads) hnode, x.dropWhile Token.isTrivia, ?_, ?_⟩
    · rw [State.take_of_some htoken, State.ahead_read, hunread, dropWhile_isTrivia_gate hgate]
    · rw [State.take_of_some (h.token.trans htoken), State.ahead_read, hunread',
        dropWhile_isTrivia_gate hgate]

theorem markMissing (h : Gated low low' gate rest rest' s s') (wanted : Wanted) :
    Gated low low' gate rest rest' (s.markMissing wanted) (s'.markMissing wanted) := by
  have hsame (s : State) : (s.markMissing wanted).ahead = s.ahead := by
    rcases s.markMissing_eq wanted with heq | heq <;> rw [heq]
    rfl
  exact ⟨h.toTwins.markMissing wanted, by rw [hsame, hsame]; exact h.ahead⟩

theorem wrap (h : Gated low low' gate rest rest' s s') {m m' : Nat} (hm : low.length ≤ m)
    (hlevel : m + low'.length = m' + low.length) {kind : Kind} (hkind : kind.isConstruct = true) :
    Gated low low' gate rest rest' (s.wrap m kind) (s'.wrap m' kind) :=
  ⟨h.toTwins.wrap hm hlevel hkind, h.ahead⟩

end Gated

theorem isTrivia_of_isCloser {token : Token} (h : isCloser token.kind = true) :
    token.isTrivia = false := by
  rw [Token.isTrivia]
  cases hkind : token.kind <;> first | rfl | (rw [hkind] at h; cases h)

/-- No operand begins behind a gate that is a parenthesis. -/
structure IsGate (gate : Token) (rest' : List Token) : Prop where
  closer : isCloser gate.kind = true
  operand : gate.kind = .rightParen → startsCastOperand (State.read [] rest').current = false

/-- How few tokens are ahead once the gate has been taken in. -/
theorem isLasting_behind_gate (base : Nat) (rest : List Token) :
    IsLasting base fun _ ahead => ahead.length ≤ (rest.dropWhile Token.isTrivia).length := by
  refine ⟨fun h hsuffix => ?_, fun _ _ h => h, fun _ _ _ h => h⟩
  exact hsuffix.length_le.trans h

namespace Gated

theorem next_of_isCommon (h : Gated low low' gate rest rest' s s') (hgate : IsGate gate rest')
    (hcommon : isCommon s.current = true) :
    s'.next.current = s.next.current ∧ s'.next.onNewLine = s.next.onNewLine := by
  refine h.next (isTrivia_of_isCloser hgate.closer) fun hkind => ?_
  rw [isCommon_iff, hkind] at hcommon
  exact Bool.false_ne_true (hcommon.2.symm.trans hgate.closer)

/-- What has been read since is as much on both sides. -/
theorem unread_iff {t t' : State} (hs : Gated low low' gate rest rest' s s')
    (ht : Gated low low' gate rest rest' t t') :
    t'.unread.length = s'.unread.length ↔ t.unread.length = s.unread.length := by
  have hslen := hs.unread_length
  have htlen := ht.unread_length
  omega

/-- Once the gate is taken in, few tokens are ahead and no operand is next. -/
theorem take_or_closes (h : Gated low low' gate rest rest' s s') (hgate : IsGate gate rest')
    {node : Token → Node} (hnode : IsTaking node) :
    Gated low low' gate rest rest' (s.take node) (s'.take node)
      ∨ isCloser s.current = true
        ∧ (s.take node).ahead.length ≤ (rest.dropWhile Token.isTrivia).length
        ∧ (s.current = .rightParen → startsCastOperand (s'.take node).current = false) := by
  rcases h.take (isTrivia_of_isCloser hgate.closer) hnode with ⟨htoken, hunread, hunread'⟩ | hgated
  · refine .inr ⟨?_, ?_, fun hparen => ?_⟩
    · rw [State.current, htoken]
      exact hgate.closer
    · rw [State.take_of_some htoken, State.ahead_read, hunread]
    · rw [State.current, htoken] at hparen
      rw [State.current_take (by rw [h.token, htoken]; rfl), State.next, hunread']
      exact hgate.operand hparen
  · exact .inl hgated

end Gated

theorem isGuardKeyword_of_false : ∀ {s : State}, False → isGuardKeyword s.current = true :=
  False.elim

/-- Twins that part behind a gate. -/
def Coupling.gated (low low' : List Node) (gate : Token) (rest rest' : List Token)
    (hgate : IsGate gate rest') : Coupling where
  base := low.length
  base' := low'.length
  Rel := Gated low low' gate rest rest'
  gone _ ahead := ahead.length ≤ (rest.dropWhile Token.isTrivia).length
  Held _ := False
  lasting := isLasting_behind_gate _ _
  fair h := ⟨h.fair, h.fair'⟩
  solid h := h.base_le
  marker h := h.marker
  token h := congrArg _ h.token
  onNewLine h := h.onNewLine
  next h hcommon := h.next_of_isCommon hgate hcommon
  unread hs ht _ _ := hs.unread_iff ht
  held := @isGuardKeyword_of_false
  take h _ hnode := h.take_or_closes hgate hnode
  takeUnexpected _ h := h.elim
  missing wanted h := h.markMissing wanted
  wrap h hm hlevel hkind := h.wrap hm hlevel hkind
  stray _ _ h := h.elim
  statement _ h := h.elim

end StatementCompletion.Grammar
