import StatementCompletion.Proofs.Grammar.Bracing.Site
import StatementCompletion.Proofs.Grammar.Tracking.Sealing.Statements

/-!
# The body in braces

In front of its gap the body is read on both sides.  On the second one there is a brace behind it,
which ends the items of the block, so the block has one statement.
-/

namespace StatementCompletion.Grammar

variable {inner : Inner} {item : Parser Unit} {header : Header} {s t u v w x y z : State} {P : Site}
  {depth depth' : Nat}

/-! ## One item -/

/-- The items of a block end behind one that ends in front of a brace. -/
theorem run_itemsUpToBrace_of_one {a : Unit} (hgoes : stopsBraced v.current = false)
    (hrun : (itemsUpToBrace item).run v = some (a, z))
    (hitem : ∀ y, item.run v = some ((), y) → y.unread.length ≠ v.unread.length
      ∧ y.current = .rightBrace) :
    ∃ y, item.run v = some ((), y) ∧ z = y.take Token.node := by
  obtain ⟨_, x, hloop, hexpect⟩ := run_bind_eq_some.1 hrun
  have hloop : (bracedItem item >>= fun again =>
      if again then loopWithin v.ahead.length (bracedItem item) else pure ()).run v
      = some ((), x) := hloop
  obtain ⟨again, y, hround, hrest⟩ := run_bind_eq_some.1 hloop
  rw [bracedItem_isRound item v, hgoes, if_neg Bool.false_ne_true] at hround
  obtain ⟨_, y', hprogress, hanswer⟩ := run_bind_eq_some.1 hround
  obtain ⟨rfl, rfl⟩ := run_pure_eq_some.1 hanswer
  have hprogress : (item >>= fun _ => do
      if (← get).unread.length = v.unread.length then takeUnexpected).run v
      = some ((), y) := hprogress
  obtain ⟨_, y', hone, hread⟩ := run_bind_eq_some.1 hprogress
  obtain ⟨hlength, hbrace⟩ := hitem y' hone
  have hread : (if y'.unread.length = v.unread.length then takeUnexpected else pure ()).run y'
      = some ((), y) := hread
  rw [if_neg hlength] at hread
  obtain ⟨-, rfl⟩ := run_pure_eq_some.1 hread
  refine ⟨y, hone, ?_⟩
  have hstops : (bracedItem item).run y = some (false, y) := by
    rw [bracedItem_isRound item y, stopsBraced, hbrace]
    rfl
  -- the brace stops the next round
  have hend : x = y := by
    cases hn : v.ahead.length with
    | zero => rw [hn] at hrest; cases hrest
    | succ n =>
      rw [hn] at hrest
      obtain ⟨again, y', hround, hstop⟩ := run_bind_eq_some.1 hrest
      obtain ⟨rfl, rfl⟩ := Prod.mk.inj (Option.some.inj (hstops.symm.trans hround))
      exact (run_pure_eq_some.1 hstop).2
  rw [hend] at hexpect
  exact take_of_expect hbrace hexpect

/-- A statement that begins with a brace is a block. -/
theorem run_statement_of_brace {a : Unit} (hbrace : s.current = .leftBrace)
    (hrun : (statement inner).run s = some (a, t)) :
    ∃ z, (itemsUpToBrace (discard (inner .statement))).run (s.take Token.node) = some ((), z)
      ∧ t = (z.wrap s.marker .codeBlock).wrap s.marker .blockStatement := by
  obtain ⟨_, _, hmarker, hrun⟩ := run_bind_eq_some.1 hrun
  obtain ⟨rfl, rfl⟩ := Prod.mk.inj (Option.some.inj hmarker)
  obtain ⟨kind, _, hcurrent, hrun⟩ := run_bind_eq_some.1 hrun
  obtain ⟨rfl, rfl⟩ := Prod.mk.inj (Option.some.inj hcurrent)
  rw [hbrace] at hrun
  obtain ⟨_, y, hblock, hwrap⟩ := run_bind_eq_some.1 hrun
  obtain ⟨-, rfl⟩ := Prod.mk.inj (Option.some.inj hwrap)
  obtain ⟨_, _, hmarker, hblock⟩ := run_bind_eq_some.1 hblock
  obtain ⟨rfl, rfl⟩ := Prod.mk.inj (Option.some.inj hmarker)
  obtain ⟨_, _, htake, hblock⟩ := run_bind_eq_some.1 hblock
  obtain ⟨-, rfl⟩ := Prod.mk.inj (Option.some.inj htake)
  obtain ⟨_, z, hitems, hwrap⟩ := run_bind_eq_some.1 hblock
  obtain ⟨-, rfl⟩ := Prod.mk.inj (Option.some.inj hwrap)
  exact ⟨z, hitems, rfl⟩

/-! ## The last token of the body -/

/-- White space and comments have no problems. -/
theorem problems_of_isTrivia {node : Node} (hleaf : node.isLeaf = true)
    (htrivia : node.kind.isTrivia = true) :
    node.problems = [] := by
  cases node with
  | leaf => rfl
  | error => cases htrivia
  | branch => cases hleaf

/-- The body is read without problems. -/
theorem Site.clean {B : Bracing} (hu : u.Fair) (hlow : B.low = (u.take Token.node).firm)
    (hanatomy : Anatomy inner P.cut s t header u w x) : B.Clean w := by
  have hfirm : w.firm = B.low ++ ((u.take Token.node).loose ++ [P.cut.body]) := by
    rw [hanatomy.row, hlow, ← State.firm_append_loose, List.append_assoc]
  refine (Bracing.clean_iff hfirm).2 (List.forall_mem_append.2 ⟨fun node hnode => ?_, ?_⟩)
  · obtain ⟨hleaf, htrivia, -⟩ := (hu.sane.take Token.node).loose node hnode
    exact problems_of_isTrivia hleaf htrivia
  · exact List.forall_mem_singleton.2 P.isCut.sound

/-- Behind the parenthesis nothing stands that could be taken for an error. -/
theorem Site.sound_behind (hreads : P.Reads u w) :
    ∀ node ∈ (u.take Token.node).firm.getLast?, node.kind.isError = false := by
  rw [State.firm_take hreads.token, List.getLast?_concat]
  rintro _ ⟨⟩
  rw [Token.kind_node, P.closer]
  rfl

/-- The last token of the body closes a statement. -/
theorem Site.closes_last (hreads : P.Reads u w)
    (hanatomy : Anatomy (parseTo depth) P.cut s t header u w x) :
    isCloser P.last.kind = true ∧ P.last.kind ≠ .rightParen := by
  let B : Bracing :=
    { low := (u.take Token.node).firm, low' := [], gate := closesBlock, rest := [], gap := [],
      brace := closesBlock, closer := rfl, not_paren := by decide,
      trivia := fun _ htoken => absurd htoken List.not_mem_nil, closes := rfl,
      sound := Site.sound_behind hreads }
  have hstands : B.Stands (u.take Token.node) :=
    ⟨hreads.fair.take (.inl rfl), [], (List.append_nil _).symm⟩
  obtain ⟨there, hbody⟩ := hanatomy.body
  obtain ⟨front, gate, gap, hahead, hcloser, hparen, htrivia⟩ :=
    (parseTo_seals B depth depth).statement.finish hstands hanatomy.starts hbody
      (Site.clean hreads.fair rfl hanatomy)
  obtain ⟨front', blanks, hadvance, -, -⟩ := hreads.advance
  have hsame : front ++ gate :: gap = front' ++ P.last :: blanks := by
    have hboth := hahead.symm.trans hadvance.ahead
    simp only [← List.append_assoc, ← List.cons_append] at hboth
    exact List.append_cancel_right hboth
  obtain ⟨-, rfl, -⟩ :=
    Token.last_solid_eq hsame (isTrivia_of_isCloser hcloser) hadvance.solid htrivia
      hadvance.trivia
  exact ⟨hcloser, hparen⟩

/-! ## In front of the closing brace -/

/-- What is ahead of a state begins with no white space. -/
theorem State.Sane.dropWhile_ahead (hs : s.Sane) : s.ahead.dropWhile Token.isTrivia = s.ahead := by
  cases hahead : s.ahead with
  | nil => rfl
  | cons token tokens =>
    obtain ⟨htoken, -⟩ := hs.of_ahead_eq_cons hahead
    exact List.dropWhile_cons_of_neg (by rw [(hs.token token htoken).1]; exact Bool.false_ne_true)

theorem State.Sane.takeWhile_ahead (hs : s.Sane) : s.ahead.takeWhile Token.isTrivia = [] := by
  cases hahead : s.ahead with
  | nil => rfl
  | cons token tokens =>
    obtain ⟨htoken, -⟩ := hs.of_ahead_eq_cons hahead
    exact List.takeWhile_cons_of_neg (by rw [(hs.token token htoken).1]; exact Bool.false_ne_true)

/-- The current token and those behind it are told by what is ahead. -/
theorem State.Sane.token_eq (hs : s.Sane) : s.token? = s.ahead.head? ∧ s.unread = s.ahead.tail := by
  cases htoken : s.token? with
  | none => rw [State.ahead, htoken, hs.ended htoken]; exact ⟨rfl, rfl⟩
  | some token => rw [State.ahead, htoken]; exact ⟨rfl, rfl⟩

/-- The state is the one in which some tokens are read on top of a row. -/
structure State.IsRead (s : State) (row : List Node) (tokens : List Token) : Prop where
  fair : s.Fair
  firm : s.firm = row
  ahead : s.ahead = tokens.dropWhile Token.isTrivia
  loose : s.loose = (tokens.takeWhile Token.isTrivia).map Token.node
  onNewLine : s.onNewLine = State.hasNewline (tokens.takeWhile Token.isTrivia)

theorem State.Fair.isRead_take (hs : s.Fair) {token : Token} (htoken : s.token? = some token) :
    (s.take Token.node).IsRead (s.built.reverse ++ [token.node]) s.unread :=
  ⟨hs.take (.inl rfl), State.firm_take_eq htoken Token.node,
    by rw [State.take_of_some htoken, State.ahead_read],
    by rw [State.take_of_some htoken, State.loose_read],
    by rw [State.take_of_some htoken]; rfl⟩

theorem State.IsRead.wrap {row : List Node} {tokens : List Token} (hs : s.IsRead row tokens)
    (m : Nat) {kind : Kind} (hkind : kind.isConstruct = true) :
    (s.wrap m kind).IsRead (row.take m ++ [.branch kind (row.drop m)]) tokens :=
  ⟨hs.fair.wrap m hkind, by rw [hs.fair.sane.firm_wrap, hs.firm], hs.ahead,
    by rw [hs.fair.sane.loose_wrap, hs.loose], hs.onNewLine⟩

/-- Two wraps from one place on make a block of what stands behind it. -/
theorem State.IsRead.wrap_block {low nodes : List Node} {tokens : List Token}
    (hs : s.IsRead (low ++ nodes) tokens) :
    ((s.wrap low.length .codeBlock).wrap low.length .blockStatement).IsRead
      (low ++ [.branch .blockStatement [.branch .codeBlock nodes]]) tokens := by
  have hinner : Kind.codeBlock.isConstruct = true := rfl
  have houter : Kind.blockStatement.isConstruct = true := rfl
  have hmade := (hs.wrap low.length hinner).wrap low.length houter
  rwa [List.take_left, List.drop_left, List.take_left, List.drop_left] at hmade

/-- Behind the body its row is on top of the others, and what follows is read on. -/
theorem Site.isRead_behind (hreads : P.Reads u w) (hw : w.Fair)
    (hanatomy : Anatomy inner P.cut s t header u w x) :
    w.IsRead ((u.take Token.node).firm ++ (P.cut.gap ++ [P.cut.body])) P.rest := by
  obtain ⟨front, blanks, hadvance, -, hrest⟩ := hreads.advance
  have hblanks : P.rest.takeWhile Token.isTrivia = blanks := by
    rw [hrest, List.takeWhile_append_of_pos hadvance.trivia, hw.sane.takeWhile_ahead,
      List.append_nil]
  refine ⟨hw, ?_, ?_, ?_, ?_⟩
  · rw [hanatomy.row, ← State.firm_append_loose, hanatomy.gap, List.append_assoc]
  · rw [hrest, List.dropWhile_append_of_pos hadvance.trivia, hw.sane.dropWhile_ahead]
  · rw [hblanks, hadvance.loose]
  · rw [hblanks, hadvance.onNewLine]

/-- The two sides up to the last token of the body. -/
def Site.bracing (P : Site) (low : List Node) (hcloser : isCloser P.last.kind = true)
    (hparen : P.last.kind ≠ .rightParen)
    (hsound : ∀ node ∈ low.getLast?, node.kind.isError = false) : Bracing where
  low := low
  low' := low ++ [opensBlock.node]
  gate := P.last
  rest := P.rest
  gap := [breaksLine]
  brace := closesBlock
  closer := hcloser
  not_paren := hparen
  trivia := List.forall_mem_singleton.2 rfl
  closes := rfl
  sound := hsound

/-- Behind the parenthesis on one side and the brace on the other the same is
read up to the last token. -/
theorem Site.gated_inside {low : List Node} (hlast : P.last.isTrivia = false)
    (hlow : ∀ node ∈ low.getLast?, node.kind.isError = false) (hs : s.IsRead low P.inside)
    (ht : t.IsRead (low ++ [opensBlock.node])
      (P.between ++ P.last :: breaksLine :: closesBlock :: P.rest)) :
    Gated low (low ++ [opensBlock.node]) P.last P.rest
      (breaksLine :: closesBlock :: P.rest) s t := by
  have hahead := hs.ahead
  have hahead' := ht.ahead
  have hloose := hs.loose
  have honNewLine := hs.onNewLine
  rw [Site.inside, dropWhile_isTrivia_gate hlast] at hahead
  rw [Site.inside, takeWhile_isTrivia_gate hlast] at hloose honNewLine
  rw [dropWhile_isTrivia_gate hlast] at hahead'
  refine ⟨⟨hs.fair, ht.fair, ?_, ?_, ?_, ?_, [], ?_, ?_⟩, P.between.dropWhile Token.isTrivia,
    hahead, hahead'⟩
  · rw [ht.fair.sane.token_eq.1, hs.fair.sane.token_eq.1, hahead, hahead']
    cases P.between.dropWhile Token.isTrivia <;> rfl
  · rw [ht.onNewLine, takeWhile_isTrivia_gate hlast, honNewLine]
  · rw [ht.loose, takeWhile_isTrivia_gate hlast, hloose]
  · rw [State.isAfterError_eq, State.isAfterError_eq, hs.firm, ht.firm, List.getLast?_concat]
    cases hend : low.getLast? with
    | none => rfl
    | some node => exact (hlow node hend).symm
  · rw [hs.firm, List.append_nil]
  · rw [ht.firm, List.append_nil]

/-- Behind the last token the first run is in front of what follows, and the
second one in front of the brace. -/
theorem Site.ended {low : List Node} (hcloser : isCloser P.last.kind = true)
    (hparen : P.last.kind ≠ .rightParen)
    (hsound : ∀ node ∈ low.getLast?, node.kind.isError = false) (hreads : P.Reads u w) (hw : w.Fair)
    (hlow : low = (u.take Token.node).firm)
    (hanatomy : Anatomy (parseTo depth) P.cut s t header u w x)
    (hgated : (P.bracing low hcloser hparen hsound).coupling.Rel (u.take Token.node) v)
    (hrun : (discard (parseTo depth' .statement)).run v = some ((), y)) :
    (P.bracing low hcloser hparen hsound).Ended w y := by
  obtain ⟨there, hbody⟩ := hanatomy.body
  obtain ⟨there', hbody'⟩ := run_discard_eq_some.1 hrun
  have hbehind := Site.isRead_behind hreads hw hanatomy
  have hleft : (P.bracing low hcloser hparen hsound).left = w.ahead.length :=
    congrArg List.length hbehind.ahead.symm
  obtain ⟨-, hended | hrel⟩ :=
    (parseTo_seals (P.bracing low hcloser hparen hsound) depth depth').statement.step
      hgated hanatomy.starts hbody hbody' (Site.clean hreads.fair hlow hanatomy) hleft.le
  · exact hended
  · -- the last token is not ahead any more
    obtain ⟨front, hahead, -⟩ := (Bracing.gated_of_rel hrel).ahead
    have hlt : P.rest.length < w.ahead.length := by
      rw [hahead, List.length_append, List.length_cons]
      exact (Nat.lt_succ_self _).trans_le (Nat.le_add_left _ _)
    have hle : w.ahead.length ≤ P.rest.length := by
      rw [hbehind.ahead]
      exact (List.dropWhile_suffix _).length_le
    exact absurd hlt hle.not_gt

/-- With its braces the body is on top of the others on the second side. -/
theorem Site.isRead_of_ended {low row : List Node} {hcloser : isCloser P.last.kind = true}
    {hparen : P.last.kind ≠ .rightParen}
    {hsound : ∀ node ∈ low.getLast?, node.kind.isError = false}
    (hw : w.IsRead (low ++ row) P.rest) (hy : (P.bracing low hcloser hparen hsound).Ended w y) :
    (y.take Token.node).IsRead
      (low ++ opensBlock.node :: (row ++ [breaksLine.node, closesBlock.node])) P.rest := by
  obtain ⟨up, hfirm, hfirm'⟩ := hy.firm
  have hup : up = row := List.append_cancel_left (hfirm.symm.trans hw.firm)
  have hrow : y.built.reverse ++ [closesBlock.node]
      = low ++ opensBlock.node :: (row ++ [breaksLine.node, closesBlock.node]) := by
    have hloose : y.loose = [breaksLine.node] := hy.loose'
    have hfirm' : y.firm = (low ++ [opensBlock.node]) ++ up := hfirm'
    rw [← State.firm_append_loose, hfirm', hloose, hup]
    simp
  rw [← hrow, ← show y.unread = P.rest from hy.unread]
  exact hy.fair'.isRead_take hy.token

theorem stopsBraced_of_startsStatement {kind : Kind} (h : startsStatement kind = true) :
    stopsBraced kind = false := by
  cases kind <;> first | rfl | cases h

/-- **The body in braces is one statement in a block.** -/
theorem Site.isRead_block {a : Unit} (hreads : P.Reads u w) (hw : w.Fair)
    (hanatomy : Anatomy (parseTo depth) P.cut s t header u w x)
    (hv : v.IsRead (u.take Token.node).firm P.inside')
    (hrun : (body (parseTo depth')).run v = some (a, z)) :
    z.IsRead ((u.take Token.node).firm ++ [P.cut.block]) P.rest := by
  set low := (u.take Token.node).firm with hlow
  obtain ⟨hcloser, hparen⟩ := Site.closes_last hreads hanatomy
  have hsound := Site.sound_behind hreads
  rw [← hlow] at hsound
  obtain ⟨htoken, hunread⟩ :=
    hv.fair.sane.of_ahead_eq_cons (show v.ahead = opensBlock :: _ from hv.ahead)
  have hbuilt : v.built.reverse = low := by
    have hloose : v.loose = [] := hv.loose
    rw [← State.firm_append_loose, hv.firm, hloose, List.append_nil]
  have hbrace : v.current = .leftBrace := by rw [State.current, htoken]; rfl
  have hrun : (if startsStatement v.current then discard (parseTo depth' .statement)
      else missing .statement).run v = some (a, z) := hrun
  rw [hbrace, if_pos (show startsStatement .leftBrace = true from rfl)] at hrun
  obtain ⟨there, hrun⟩ := run_discard_eq_some.1 hrun
  cases depth' with
  | zero => cases hrun
  | succ depth' =>
  obtain ⟨_, z', hstatement, hanswer⟩ := run_bind_eq_some.1 hrun
  obtain ⟨-, rfl⟩ := run_pure_eq_some.1 hanswer
  obtain ⟨end', hitems, rfl⟩ := run_statement_of_brace hbrace hstatement
  -- in front of the body the two sides are twins
  have hopened := hv.fair.isRead_take htoken
  rw [hbuilt, hunread] at hopened
  have hclosed := hreads.fair.isRead_take hreads.token
  rw [← State.firm_take_eq hreads.token, hreads.unread, ← hlow] at hclosed
  have hgated := Site.gated_inside (isTrivia_of_isCloser hcloser) hsound hclosed hopened
  have hended {y : State} (hrun : (discard (parseTo depth' .statement)).run (v.take Token.node) =
      some ((), y)) :=
    Site.ended hcloser hparen hsound hreads hw hlow hanatomy hgated hrun
  have hgoes : stopsBraced (v.take Token.node).current = false := by
    rw [hgated.current_eq]
    exact stopsBraced_of_startsStatement hanatomy.starts
  have hitem (y : State)
      (hone : (discard (parseTo depth' .statement)).run (v.take Token.node) = some ((), y)) :
      y.unread.length ≠ (v.take Token.node).unread.length ∧ y.current = .rightBrace := by
    have hy := hended hone
    refine ⟨fun hlength => ?_, by rw [State.current, hy.token]; rfl⟩
    have hbefore : P.rest.length + 3 ≤ (v.take Token.node).ahead.length := by
      obtain ⟨front, -, hahead⟩ := hgated.ahead
      rw [hahead, List.length_append]
      simp only [List.length_cons]
      omega
    have hrest : y.unread = P.rest := hy.unread
    obtain ⟨token, hsome⟩ :=
      Option.isSome_iff_exists.1 (State.isSome_of_current (s := v.take Token.node)
        fun hend => by rw [hend] at hgoes; cases hgoes)
    rw [State.length_ahead_of_some hsome, ← hlength, hrest] at hbefore
    omega
  obtain ⟨y, hone, rfl⟩ := run_itemsUpToBrace_of_one hgoes hitems hitem
  have hread := Site.isRead_of_ended (Site.isRead_behind hreads hw hanatomy) (hended hone)
  have hmarker : v.marker = low.length := by rw [← hbuilt, List.length_reverse, State.marker]
  rw [List.append_assoc, List.singleton_append] at hread
  rw [hmarker]
  exact hread.wrap_block

end StatementCompletion.Grammar
