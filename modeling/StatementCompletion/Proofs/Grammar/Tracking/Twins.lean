import StatementCompletion.Proofs.Grammar.Tracking.Sources

/-!
# Twins

Two states are twins if the same has been built on top of two rows, and the same token is next.
Twins with the same tokens ahead stay so for good: what a grammar builds does not depend on what
stands below.  Twins that have the same tokens ahead up to a gate, a token that closes a header or a
statement, stay so until the first run has taken the gate in.

From the first of these follows what the element loops need: whatever state the modifiers of a
doomed state are read from, the first run is gone by them.
-/

namespace StatementCompletion.Grammar

variable {α : Type} {low low' : List Node} {s s' t t' : State}

/-! ## Tokens up to a gate -/

theorem takeWhile_isTrivia_gate {gate : Token} (hgate : gate.isTrivia = false)
    (x rest : List Token) :
    (x ++ gate :: rest).takeWhile Token.isTrivia = x.takeWhile Token.isTrivia := by
  have hstop : ¬ gate.isTrivia = true := by rw [hgate]; exact Bool.false_ne_true
  induction x with
  | nil => exact List.takeWhile_cons_of_neg hstop
  | cons token x ih =>
    rw [List.cons_append, List.takeWhile_cons, List.takeWhile_cons, ih]

theorem dropWhile_isTrivia_gate {gate : Token} (hgate : gate.isTrivia = false)
    (x rest : List Token) :
    (x ++ gate :: rest).dropWhile Token.isTrivia = x.dropWhile Token.isTrivia ++ gate :: rest := by
  have hstop : ¬ gate.isTrivia = true := by rw [hgate]; exact Bool.false_ne_true
  induction x with
  | nil => exact List.dropWhile_cons_of_neg hstop
  | cons token x ih =>
    rw [List.cons_append, List.dropWhile_cons, List.dropWhile_cons, ih]
    split <;> rfl

/-! ## Twins -/

/-- The same has been built on top of two rows, and the same token is next. -/
structure Twins (low low' : List Node) (s s' : State) : Prop where
  fair : s.Fair
  fair' : s'.Fair
  token : s'.token? = s.token?
  onNewLine : s'.onNewLine = s.onNewLine
  loose : s'.loose = s.loose
  afterError : s'.isAfterError = s.isAfterError
  firm : ∃ up, s.firm = low ++ up ∧ s'.firm = low' ++ up

namespace Twins

theorem base_le (h : Twins low low' s s') : low.length ≤ s.solid := by
  obtain ⟨up, hfirm, -⟩ := h.firm
  rw [← State.length_firm, hfirm, List.length_append]
  exact Nat.le_add_right _ _

/-- On top of one row the same has been built. -/
theorem built_eq (h : Twins low low s s') : s'.built.reverse = s.built.reverse := by
  obtain ⟨up, hfirm, hfirm'⟩ := h.firm
  rw [← State.firm_append_loose, ← State.firm_append_loose, hfirm, hfirm', h.loose]

theorem marker (h : Twins low low' s s') : s.marker + low'.length = s'.marker + low.length := by
  obtain ⟨up, hfirm, hfirm'⟩ := h.firm
  rw [h.fair.sane.marker_eq, h.fair'.sane.marker_eq, h.loose, hfirm, hfirm', List.length_append,
    List.length_append]
  omega

theorem current_eq (h : Twins low low' s s') : s'.current = s.current := by
  rw [State.current, State.current, h.token]

/-- What is read behind the current token is the same as far as the next one. -/
structure ReadsOn (s s' : State) : Prop where
  trivia : s'.unread.takeWhile Token.isTrivia = s.unread.takeWhile Token.isTrivia
  head : (s'.unread.dropWhile Token.isTrivia).head? = (s.unread.dropWhile Token.isTrivia).head?

theorem ReadsOn.next (h : ReadsOn s s') : s'.next.current = s.next.current
    ∧ s'.next.onNewLine = s.next.onNewLine := by
  constructor
  · have htoken : s'.next.token? = s.next.token? := h.head
    rw [State.current, htoken]
    rfl
  · show State.hasNewline (s'.unread.takeWhile Token.isTrivia) = _
    rw [h.trivia]
    rfl

theorem take (h : Twins low low' s s') (hreads : s.token?.isSome → ReadsOn s s')
    {node : Token → Node} (hnode : IsTaking node) :
    Twins low low' (s.take node) (s'.take node) := by
  have hfair := h.fair.take hnode
  have hfair' := h.fair'.take hnode
  cases htoken : s.token? with
  | none =>
    rwa [State.take_of_none htoken, State.take_of_none (h.token.trans htoken)]
  | some token =>
    have htoken' := h.token.trans htoken
    obtain ⟨htrivia, hhead⟩ := hreads (by rw [htoken]; rfl)
    obtain ⟨up, hfirm, hfirm'⟩ := h.firm
    refine ⟨hfair, hfair', ?_, ?_, ?_, ?_, up ++ s.loose ++ [node token], ?_, ?_⟩
    · rw [State.take_of_some htoken, State.take_of_some htoken']
      exact hhead
    · rw [State.take_of_some htoken, State.take_of_some htoken']
      exact congrArg State.hasNewline htrivia
    · rw [State.take_of_some htoken, State.take_of_some htoken', State.loose_read, State.loose_read,
        htrivia]
    · rw [State.isAfterError_eq, State.isAfterError_eq, State.firm_take htoken,
        State.firm_take htoken', List.getLast?_concat, List.getLast?_concat]
    · rw [State.firm_take htoken, hfirm, List.append_assoc, List.append_assoc, List.append_assoc]
    · rw [State.firm_take htoken', hfirm', h.loose, List.append_assoc, List.append_assoc,
        List.append_assoc]

theorem markMissing (h : Twins low low' s s') (wanted : Wanted) :
    Twins low low' (s.markMissing wanted) (s'.markMissing wanted) := by
  have hfair := h.fair.markMissing wanted
  have hfair' := h.fair'.markMissing wanted
  have herror := h.afterError
  unfold State.markMissing at hfair hfair' ⊢
  rw [herror] at hfair' ⊢
  split at hfair
  · next hafter => rwa [if_pos hafter, if_pos hafter]
  · next hafter =>
    rw [if_neg hafter] at hfair' ⊢
    rw [if_neg hafter]
    obtain ⟨up, hfirm, hfirm'⟩ := h.firm
    have hinsert {s : State} (hs : s.Sane) : (s.insertSolid 0 (.error (.expected wanted) [])).firm
        = s.firm ++ [.error (.expected wanted) []] := by
      rw [hs.firm_insertSolid, Nat.sub_zero, List.take_length]
    refine ⟨hfair, hfair', h.token, h.onNewLine, ?_, ?_,
      up ++ [.error (.expected wanted) []], ?_, ?_⟩
    · rw [h.fair.sane.loose_insertSolid, h.fair'.sane.loose_insertSolid, h.loose]
    · rw [State.isAfterError_eq, State.isAfterError_eq, hinsert h.fair.sane, hinsert h.fair'.sane,
        List.getLast?_concat, List.getLast?_concat]
    · rw [hinsert h.fair.sane, hfirm, List.append_assoc]
    · rw [hinsert h.fair'.sane, hfirm', List.append_assoc]

theorem wrap (h : Twins low low' s s') {m m' : Nat} (hm : low.length ≤ m)
    (hlevel : m + low'.length = m' + low.length) {kind : Kind} (hkind : kind.isConstruct = true) :
    Twins low low' (s.wrap m kind) (s'.wrap m' kind) := by
  obtain ⟨up, hfirm, hfirm'⟩ := h.firm
  obtain ⟨n, rfl⟩ := Nat.exists_eq_add_of_le hm
  obtain rfl : m' = low'.length + n := by omega
  have hwrap {s : State} {low : List Node} (hs : s.Sane) (hfirm : s.firm = low ++ up) :
      (s.wrap (low.length + n) kind).firm = low ++ (up.take n ++ [.branch kind (up.drop n)]) := by
    rw [hs.firm_wrap, hfirm, List.take_length_add_append, List.drop_length_add_append,
      List.append_assoc]
  refine ⟨h.fair.wrap _ hkind, h.fair'.wrap _ hkind, h.token, h.onNewLine, ?_, ?_, _,
    hwrap h.fair.sane hfirm, hwrap h.fair'.sane hfirm'⟩
  · rw [h.fair.sane.loose_wrap, h.fair'.sane.loose_wrap, h.loose]
  · rw [State.isAfterError_eq, State.isAfterError_eq, h.fair.sane.firm_wrap, h.fair'.sane.firm_wrap,
      List.getLast?_concat, List.getLast?_concat]
    rfl

end Twins

/-! ## The same tokens ahead -/

/-- Twins that go on alike, whatever stands below. -/
def Pairing.twins (low low' : List Node) : Pairing where
  base := low.length
  base' := low'.length
  Rel s s' := Twins low low' s s' ∧ s'.unread = s.unread
  fair h := ⟨h.1.fair, h.1.fair'⟩
  solid h := h.1.base_le
  marker h := h.1.marker
  token h := congrArg _ h.1.token
  onNewLine h := h.1.onNewLine
  next {s s'} h := by
    have hreads : Twins.ReadsOn s s' := ⟨by rw [h.2], by rw [h.2]⟩
    exact hreads.next
  unread h := congrArg _ h.2
  take {s s' node} h hnode := by
    refine ⟨h.1.take (fun _ => ⟨by rw [h.2], by rw [h.2]⟩) hnode, ?_⟩
    cases htoken : s.token? with
    | none => rw [State.take_of_none htoken, State.take_of_none (h.1.token.trans htoken), h.2]
    | some token =>
      rw [State.take_of_some htoken, State.take_of_some (h.1.token.trans htoken), h.2]
      rfl
  missing {s s'} wanted h := by
    refine ⟨h.1.markMissing wanted, ?_⟩
    have hsame (s : State) : (s.markMissing wanted).unread = s.unread := by
      rcases s.markMissing_eq wanted with heq | heq <;> rw [heq]
      rfl
    rw [hsame, hsame, h.2]
  wrap h hm hlevel hkind := ⟨h.1.wrap hm hlevel hkind, h.2⟩

/-- The coupling of twins with the same tokens ahead. -/
def Coupling.alike (low low' : List Node) : Coupling :=
  (Pairing.twins low low').coupling

/-- What a grammar builds does not depend on what stands below. -/
theorem parseTo_alike (low low' : List Node) (depth depth' : Nat) :
    Inner.Tracks (Coupling.alike low low') (Coupling.alike low low').Doomed (parseTo depth)
      (parseTo depth') :=
  parseTo_tracks (Pairing.twins low low').settles depth depth'

/-! ## Doomed states -/

/-- What comes of a modifier behind its first token. -/
def modifierRest (inner : Inner) (kind : Kind) : Parser Bool :=
  if kind = .atSign then do
    discard (expect .identifier)
    loop dottedName
    whenAt .leftParen (argumentList inner)
    return true
  else
    return true

theorem run_modifier {inner : Inner} {s : State} (h : startsModifier s.current = true) :
    (modifier inner).run s = (modifierRest inner s.current).run (s.take Token.node) := by
  have hcurrent {g : Kind → Parser Bool} : (current >>= g).run s = (g s.current).run s := rfl
  unfold modifier
  rw [hcurrent]
  cases hkind : s.current <;> first | rfl | (rw [hkind] at h; cases h)

theorem modifierRest_mirrors {C : Coupling} {wanted : Kind → Prop} {inner inner' : Inner}
    (h : inner.Tracks C C.Doomed inner') (kind : Kind) :
    Mirrors C wanted (modifierRest inner kind) (modifierRest inner' kind) := by
  unfold modifierRest
  split
  · refine (expect_common rfl).discard.bind fun _ =>
      (loop_tracks dottedName_stays.lift).bind fun _ => ?_
    exact (whenAt_tracks (argumentList_mirrors h)).bind fun _ => .pure true
  · exact .pure true

theorem Idles.grows {base : Nat} (h : Idles base s t) (hbase : base ≤ s.solid) :
    Grows base s t := by
  induction h with
  | refl => exact .refl
  | missing wanted _ ih => exact ih.missing wanted (ih.floor_le_solid hbase)
  | wrap kind _ hm ih => exact ih.wrap kind (ih.floor_le_solid hbase) hm

/-- What lasts holds of other rows, too, if these differ in marks and branches above the base. -/
theorem Idles.holds {base : Nat} {holds : List Node → List Token → Prop}
    (hlasting : IsLasting base holds) (h : Idles base s t) (hs : s.Sane) (hbase : base ≤ s.solid)
    {more : List Node} {ahead : List Token} (hholds : holds (s.built.reverse ++ more) ahead) :
    holds (t.built.reverse ++ more) ahead := by
  induction h with
  | refl => exact hholds
  | @missing t wanted ht ih =>
    have hgrows := ht.grows hbase
    rw [← State.firm_append_loose, List.append_assoc] at ih ⊢
    rw [(hgrows.sane hs).loose_markMissing]
    rcases (hgrows.sane hs).firm_markMissing wanted with heq | heq <;> rw [heq]
    · exact ih
    · rw [List.append_assoc]
      exact hlasting.mark wanted (t.length_firm ▸ hgrows.floor_le_solid hbase) ih
  | @wrap t marker kind ht hmarker ih =>
    have hgrows := ht.grows hbase
    rw [← State.firm_append_loose, List.append_assoc] at ih ⊢
    rw [(hgrows.sane hs).loose_wrap, (hgrows.sane hs).firm_wrap, List.append_assoc]
    exact hlasting.wrap kind (t.length_firm ▸ hgrows.floor_le_solid hbase) hmarker ih

theorem State.firm_take_eq {token : Token} (h : s.token? = some token) (node : Token → Node) :
    (s.take node).firm = s.built.reverse ++ [node token] := by
  rw [firm_take h, firm_append_loose]

/-- A token is taken in on top of two rows. -/
theorem Idles.take_alike {base : Nat} (h : Idles base s t) (hs : s.Fair) (ht : t.Fair)
    (hsome : s.token?.isSome) : (Coupling.alike s.built.reverse t.built.reverse).Rel
      (s.take Token.node) (t.take Token.node) := by
  obtain ⟨htoken', hunread⟩ := h.token
  obtain ⟨token, htoken⟩ := Option.isSome_iff_exists.1 hsome
  rw [htoken] at htoken'
  have hfirm := State.firm_take_eq htoken Token.node
  have hfirm' := State.firm_take_eq htoken' Token.node
  refine ⟨⟨hs.take (.inl rfl), ht.take (.inl rfl), ?_, ?_, ?_, ?_, _, hfirm, hfirm'⟩, ?_⟩
  all_goals try rw [State.take_of_some htoken, State.take_of_some htoken', hunread]
  · rfl
  · rfl
  · rw [State.loose_read, State.loose_read]
  · rw [State.isAfterError_eq, State.isAfterError_eq, State.firm_read, State.firm_read,
      List.reverse_cons, List.reverse_cons, List.getLast?_concat, List.getLast?_concat]
  · rfl

/-- **Whatever state the modifiers of a doomed state are read from, the first
run is gone by them.** -/
theorem Coupling.settles (C : Coupling) : C.Settles := by
  refine fun depth n => ⟨fun {t b w} ht hbase hdoomed hrun => ?_⟩
  obtain ⟨s, hs, hbase₀, ⟨hstarts, depth₀, n₀, w₀, hrun₀, hgone⟩, hidles⟩ := hdoomed
  have hcurrent := hidles.current_eq
  have hsome : s.token?.isSome := State.isSome_of_current fun hend => by
    rw [hend] at hstarts
    cases hstarts
  cases n with
  | zero => cases hrun
  | succ n =>
  cases n₀ with
  | zero => cases hrun₀
  | succ n₀ =>
  have h := parseTo_alike s.built.reverse t.built.reverse depth₀ depth
  -- behind the first modifier both runs read the same tokens
  have hrest : Mirrors (.alike s.built.reverse t.built.reverse) anywhere
      (do if ← modifierRest (parseTo depth₀) s.current
        then loopWithin n₀ (modifier (parseTo depth₀)))
      (do if ← modifierRest (parseTo depth) s.current
        then loopWithin n (modifier (parseTo depth))) :=
    (modifierRest_mirrors h _).ite (loopWithin_tracks (modifier_mirrors h) n₀ n) (.pure ())
  have hmore {inner : Inner} {n : Nat} {s u : State} {b : Unit}
      (hstarts : startsModifier s.current = true)
      (hrun : (loopWithin (n + 1) (modifier inner)).run s = some (b, u)) :
      (do if ← modifierRest inner s.current then loopWithin n (modifier inner)).run
        (s.take Token.node) = some ((), u) := by
    obtain ⟨a, v, hmodifier, hloop⟩ := run_bind_eq_some.1 hrun
    rw [run_modifier hstarts] at hmodifier
    exact run_bind_eq_some.2 ⟨a, v, hmodifier, hloop⟩
  have hstep := hmore hstarts hrun₀
  have hstep' := hmore (hcurrent ▸ hstarts) hrun
  rw [hcurrent] at hstep'
  obtain ⟨-, htwins, hunread⟩ :=
    (hrest.step (hidles.take_alike hs ht hsome) trivial hstep hstep').resolve_left id
  obtain ⟨up, hfirm, hfirm'⟩ := htwins.firm
  have hahead : w.ahead = w₀.ahead := by rw [State.ahead, State.ahead, htwins.token, hunread]
  unfold Coupling.Gone at hgone ⊢
  rw [hfirm', hahead]
  rw [hfirm] at hgone
  exact hidles.holds C.lasting hs.sane hbase₀ hgone

end StatementCompletion.Grammar
