import StatementCompletion.Proofs.Grammar.Bracing.Block

/-!
# The statement with its body in braces

The two sides read the same header, the body without and with braces, and the same behind it.  So
the second one makes the statement with its body in braces, and goes on as the first one does.
-/

namespace StatementCompletion.Grammar

variable {inner inner' : Inner} {header : Header} {s s' t t' u u' w x z : State} {P : Site}
  {depth depth' : Nat} {row row' : List Node} {tokens : List Token}

/-- The same tokens read on top of two rows, neither of which ends with an error. -/
theorem State.IsRead.alike (hs : s.IsRead row tokens) (ht : t.IsRead row' tokens)
    (hrow : row.getLast?.any (·.kind.isError) = false)
    (hrow' : row'.getLast?.any (·.kind.isError) = false) :
    (Coupling.alike row row').Rel s t := by
  refine ⟨⟨hs.fair, ht.fair, ?_, ht.onNewLine.trans hs.onNewLine.symm, ht.loose.trans hs.loose.symm,
    ?_, [], ?_, ?_⟩, ?_⟩
  · rw [ht.fair.sane.token_eq.1, hs.fair.sane.token_eq.1, ht.ahead, hs.ahead]
  · rw [State.isAfterError_eq, State.isAfterError_eq, hs.firm, ht.firm, hrow, hrow']
  · rw [hs.firm, List.append_nil]
  · rw [ht.firm, List.append_nil]
  · rw [ht.fair.sane.token_eq.2, hs.fair.sane.token_eq.2, ht.ahead, hs.ahead]

/-- What stands behind a body is read alike on top of two rows. -/
theorem otherwise_alike {a a' : Unit}
    (h : inner.Tracks (.alike row row') (Coupling.Doomed (.alike row row')) inner')
    (hs : (Coupling.alike row row').Rel s s') (hrun : (header.otherwise inner).run s = some (a, t))
    (hrun' : (header.otherwise inner').run s' = some (a', t')) :
    (Coupling.alike row row').Rel t t' := by
  have hsways : Sways (.alike row row') (Coupling.Doomed (.alike row row')) 1 always
      (header.otherwise inner) (header.otherwise inner') := Header.otherwise_sways h header
  rcases hsways.step hs trivial hrun hrun' with hgone
    | ⟨⟨_, _, _, ⟨_, _, _, _, _, hgone⟩, _⟩, _⟩ | ⟨-, hrel⟩
  · exact hgone.elim
  · exact hgone.elim
  · exact hrel

/-- Behind a statement the two sides go on alike, with the body in braces on the second one. -/
structure Site.Rejoins (P : Site) (row : List Node) (t t' : State) : Prop where
  fair : t.Fair
  fair' : t'.Fair
  token : t'.token? = t.token?
  unread : t'.unread = t.unread
  onNewLine : t'.onNewLine = t.onNewLine
  loose : t'.loose = t.loose
  firm : t.firm = row ++ [P.cut.whole]
  firm' : t'.firm = row ++ [P.cut.braced]
  length_le : t.ahead.length ≤ P.rest.length

/-- The statement is made on the second side as it is on the first. -/
theorem Site.rejoins (hreads : P.Reads u w) (hw : w.Fair)
    (hanatomy : Anatomy (parseTo depth) P.cut s t header u w x)
    (hz : z.IsRead ((u.take Token.node).firm ++ [P.cut.block]) P.rest)
    (hrow : t.firm = s.built.reverse ++ [P.cut.whole])
    (hrun : (header.otherwise (parseTo depth')).run z = some ((), t')) :
    P.Rejoins s.built.reverse t (t'.wrap s.marker header.kind) := by
  set low := (u.take Token.node).firm with hlow
  have hbehind := Site.isRead_behind hreads hw hanatomy
  rw [← hlow, ← List.append_assoc] at hbehind
  have hbody : P.cut.body.kind.isError = false := by
    have hstatement := P.isCut.body
    cases hkind : P.cut.body.kind <;> first | rfl | (rw [hkind] at hstatement; cases hstatement)
  -- behind the body both sides read the same tokens
  have hrel := otherwise_alike (parseTo_alike _ _ depth depth')
    (hbehind.alike hz (by rw [List.getLast?_concat]; exact hbody)
      (by rw [List.getLast?_concat]; rfl))
    hanatomy.otherwise hrun
  obtain ⟨⟨hx, ht', htoken, honNewLine, hloose, -, up, hfirm, hfirm'⟩, hunread⟩ := hrel
  have hup : up = P.cut.behind :=
    List.append_cancel_left
      (hfirm.symm.trans (hanatomy.behind.trans (congrArg (· ++ _) hbehind.firm)))
  have hclosed : low = s.built.reverse ++ (P.cut.front ++ [P.cut.closed]) := by
    obtain ⟨token, htoken, hnode⟩ := hanatomy.closed
    obtain rfl := Option.some.inj (hreads.token.symm.trans htoken)
    rw [hlow, State.firm_take_eq hreads.token, hanatomy.front, hnode, List.append_assoc]
  have hmarker : s.marker = s.built.reverse.length := List.length_reverse.symm
  have hconstruct : header.kind.isConstruct = true := by cases header <;> rfl
  have hgrows : Sways (.alike [] []) (Coupling.Doomed (.alike [] [])) 0 always
      (header.otherwise (parseTo depth)) (header.otherwise (parseTo depth)) :=
    Header.otherwise_sways (parseTo_alike [] [] depth depth) header
  have hle := (hgrows.grows hw (Nat.zero_le _) trivial hanatomy.otherwise).2.length_ahead_le
  rw [hbehind.ahead] at hle
  obtain rfl := hanatomy.made
  refine ⟨hx.wrap _ hconstruct, ht'.wrap _ hconstruct, htoken, hunread, honNewLine, ?_, hrow, ?_,
    hle.trans (List.dropWhile_suffix _).length_le⟩
  · rw [ht'.sane.loose_wrap, hx.sane.loose_wrap, hloose]
  · rw [ht'.sane.firm_wrap, hfirm', hup, hclosed, hmarker, List.append_assoc, List.append_assoc,
      List.take_left, List.drop_left, ← hanatomy.kind]
    simp [Unbraced.braced]

/-- From the closing parenthesis on, the second side reads a block for the body. -/
theorem Site.rejoins_behind {a : Unit} (hreads : P.Reads u w)
    (hanatomy : Anatomy (parseTo depth) P.cut s t header u w x)
    (hu : Gated [] [] P.closed P.inside P.inside' u u')
    (hrow : t.firm = s.built.reverse ++ [P.cut.whole])
    (hrun : (behindHeader (parseTo depth') header).run u' = some (a, t')) :
    P.Rejoins s.built.reverse t (t'.wrap s.marker header.kind) := by
  obtain ⟨_, v, hexpect, hrest⟩ := run_bind_eq_some.1 hrun
  obtain rfl := take_of_expect (hu.current_eq.trans hanatomy.closes) hexpect
  obtain ⟨_, z, hbody, hotherwise⟩ := run_bind_eq_some.1 hrest
  have hv : (u'.take Token.node).IsRead (u.take Token.node).firm P.inside' := by
    rw [State.firm_take_eq hreads.token, ← hu.built_eq, ← hu.unread_eq hreads.unread]
    exact hu.fair'.isRead_take (hu.token.trans hreads.token)
  obtain ⟨there, hinner⟩ := hanatomy.body
  obtain ⟨hw, -⟩ := (parseTo_alike [] [] depth depth).statement.grows
    (hreads.fair.take (.inl rfl)) (Nat.zero_le _) trivial hinner
  exact Site.rejoins hreads hw hanatomy (Site.isRead_block hreads hw hanatomy hv hbody) hrow
    hotherwise

/-- **The statement is read with its body in braces.**  Where the first side makes the statement
that is cut, the second one makes the same with a block for its body. -/
theorem Site.statement_rejoins {a a' : Unit} (hs : Gated [] [] P.keyword P.tail P.tail' s s')
    (htoken : s.token? = some P.keyword) (hunread : s.unread = P.tail)
    (hrun : (statement (parseTo depth)).run s = some (a, t))
    (hrun' : (statement (parseTo depth')).run s' = some (a', t'))
    (hrow : t.firm = s.built.reverse ++ [P.cut.whole]) : P.Rejoins s.built.reverse t t' := by
  have hguard : isGuardKeyword s.current = true := by rw [State.current, htoken]; exact P.guard
  have hguard' : isGuardKeyword s'.current = true := by rwa [hs.current_eq]
  have hahead : s.ahead = (P.keyword :: P.header) ++ P.closed :: P.inside := by
    rw [State.ahead, htoken, hunread]
    rfl
  have hahead' : s'.ahead = (P.keyword :: P.header) ++ P.closed :: P.inside' := by
    rw [State.ahead, hs.token.trans htoken, hs.unread_eq hunread]
    rfl
  have hgated : Gated [] [] P.closed P.inside P.inside' s s' := ⟨hs.toTwins, _, hahead, hahead'⟩
  have h :=
    parseTo_tracks (Coupling.gated [] [] P.closed P.inside P.inside' P.isGate).settles depth depth'
  obtain ⟨header, u, w, x, hanatomy⟩ :=
    exists_anatomy (parseTo_agree depth depth) (parseTo_statement_joins depth)
      hs.fair htoken hguard hrun P.isCut hrow
  have hreads := Site.exists_reads (parseTo_alike [] [] depth depth) hs.fair htoken hunread hanatomy
  obtain ⟨made, y, hparts, rfl⟩ := run_guarded hguard' hrun'
  rcases run_guardedParts (parseTo_agree depth' depth') hs.fair' hparts with
    ⟨hunopened, -⟩ | ⟨header', u', hreads', rfl, hbehind⟩
  · have htaken :=
      Coupling.take_keyword (C := .gated [] [] P.closed P.inside P.inside' P.isGate) (fun _ => id)
        hgated (isCloser_of_isGuardKeyword hguard)
    exact absurd ((Coupling.current_eq htaken).trans hanatomy.reads.opened) hunopened
  · have hclosing : u.ahead = P.closed :: P.inside := by
      rw [State.ahead, hreads.token, hreads.unread]
      rfl
    obtain hgone | hdoomed | ⟨rfl, hu⟩ :=
      Header.Reads.step h (fun _ => id) (Coupling.settles _) hgated hguard
        hanatomy.reads hreads'
    · -- the parenthesis is still ahead
      have hle : u.ahead.length ≤ (P.inside.dropWhile Token.isTrivia).length := hgone
      rw [hclosing, List.length_cons] at hle
      exact absurd (Nat.lt_succ_of_le (List.dropWhile_suffix Token.isTrivia).length_le) hle.not_gt
    · have hstarts := hdoomed.starts
      rw [hanatomy.closes] at hstarts
      cases hstarts
    · have hmarker : s'.marker = s.marker := hs.marker.symm
      rw [hmarker]
      exact Site.rejoins_behind hreads hanatomy hu hrow hbehind

end StatementCompletion.Grammar
