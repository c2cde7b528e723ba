import StatementCompletion.Proofs.Grammar.Truncation.Guarded

/-!
# Headers without what follows them

A condition has lost the block behind its header, and maybe the parenthesis as well.  The same node
is read for it in each of these texts, and what is missing is marked behind it.  Where a block
without statements stands behind the header, with white space of any length around its brace, the
condition takes up the same text.
-/

namespace StatementCompletion

/-! ## Rows that end with a node -/

namespace Node

/-- The last node with some text in a row is found from both sides. -/
theorem row_eq_of_size {front back row : List Node} {a x : Node}
    (h : front ++ a :: back = row ++ [x])
    (hback : sizeAll back = 0) (hx : x.size ≠ 0) : front = row ∧ a = x ∧ back = [] := by
  rcases List.eq_nil_or_concat' back with rfl | ⟨before, last, rfl⟩
  · obtain ⟨hfront, hlast⟩ := List.append_inj' h rfl
    exact ⟨hfront, (List.cons.inj hlast).1, rfl⟩
  · rw [← List.cons_append, ← List.append_assoc] at h
    obtain ⟨-, hlast⟩ := List.append_inj' h rfl
    rw [sizeAll_append, (List.cons.inj hlast).1, sizeAll] at hback
    omega

end Node

namespace Grammar

open State (Truncated)
open Node (Torn sizeAll)

variable {σ : Seam} {s s' t v v' : State} {row : List Node} {x : Node}

namespace State

theorem Sane.token?_of_ahead (hs : s.Sane) {token : Token} {rest : List Token}
    (h : s.ahead = token :: rest) :
    s.token? = some token ∧ s.unread = rest := by
  rw [ahead] at h
  cases htoken : s.token? with
  | none =>
    rw [htoken, hs.ended htoken] at h
    cases h
  | some other =>
    rw [htoken] at h
    obtain ⟨rfl, hunread⟩ := List.cons.inj h
    exact ⟨rfl, hunread⟩

theorem token?_of_ahead_nil (h : s.ahead = []) : s.token? = none :=
  Option.toList_eq_nil_iff.1 (List.append_eq_nil_iff.1 h).1

/-- What is missing is marked behind a node that is none. -/
theorem Sane.firm_markMissing_of_ne (hs : s.Sane) (hrow : s.firm = row ++ [x])
    (hx : x.kind ≠ .error)
    (wanted : Wanted) : (s.markMissing wanted).firm = row ++ [x, .error (.expected wanted) []] := by
  have hafter : s.isAfterError = false := by
    rw [isAfterError_eq, hrow, List.getLast?_concat, Option.any_some]
    cases hkind : x.kind <;> first | rfl | exact absurd hkind hx
  rw [State.markMissing, hafter, if_neg Bool.false_ne_true, hs.firm_insertSolid, Nat.sub_zero,
    List.take_length, hrow, List.append_assoc]
  rfl

/-- Behind a mark nothing more is marked. -/
theorem markMissing_of_marked {problem : Problem} {text : Text}
    (hrow : s.firm = row ++ [.error problem text])
    (wanted : Wanted) : s.markMissing wanted = s := by
  have hafter : s.isAfterError = true := by
    rw [isAfterError_eq, hrow, List.getLast?_concat]
    rfl
  rw [State.markMissing, hafter, if_pos rfl]

theorem token?_markMissing (s : State) (wanted : Wanted) :
    (s.markMissing wanted).token? = s.token? := by
  rcases s.markMissing_eq wanted with heq | heq <;> rw [heq]
  rfl

theorem Sane.built_wrap_zero (hs : s.Sane) (hloose : s.loose = []) (kind : Kind) :
    (s.wrap 0 kind).built.reverse = [.branch kind s.firm] := by
  rw [← State.firm_append_loose, hs.firm_wrap, hs.loose_wrap, hloose, List.take_zero,
    List.drop_zero, List.append_nil, List.nil_append]

/-- Where nothing is left for the second state, the first one is at the seam. -/
theorem Truncated.at_end (h : Truncated σ v v') (hend : v'.token? = none) :
    ∃ (n : Nat) (front back : List Node) (x y : Node), v.ahead = σ.behind n
      ∧ v.pending = 0 ∧ v'.pending = 0 ∧ v.firm = front ++ x :: back ∧ v'.firm = front ++ y :: back
      ∧ sizeAll back = 0 ∧ Torn x y := by
  rcases h.seam with ⟨n, hsome, -⟩
    | @⟨n, front, back, x, y, -, htoken, hunread, hpending, hpending', hrow, hrow', hback, htorn⟩
  · rw [hend] at hsome
    cases hsome
  · refine ⟨n, front, back, x, y, ?_, hpending, hpending', hrow, hrow', hback, htorn⟩
    rw [ahead, htoken, hunread]
    cases σ.behind n <;> rfl

/-- Where the tail is all that is left, nothing is left for the second state. -/
theorem Truncated.ends_of_ahead (h : Truncated σ v v') (hahead : v.ahead = σ.tail) :
    v'.token? = none := by
  rcases h.seam with ⟨n, hsome, heq⟩ | @⟨n, -, -, -, -, hnone, -⟩
  · obtain ⟨token, htoken⟩ := Option.isSome_iff_exists.1 hsome
    have hlength := congrArg List.length hahead
    rw [heq] at hlength
    simp only [ahead, htoken, Seam.behind, List.length_append, List.length_replicate,
      Option.toList_some, List.length_singleton] at hlength
    omega
  · exact hnone

end State

/-- Where as many tokens are left as stand from one of them on, these are left. -/
theorem State.Sane.ahead_eq_of_weight (hv : v.Sane) {front back : List Token} {token : Token}
    (hahead : v.ahead <:+ front ++ token :: back) (hkind : token.kind ≠ .whitespace)
    (hweight : v.weight = ((token :: back).filter (·.kind ≠ .whitespace)).length) :
    v.ahead = token :: back := by
  rw [State.weight] at hweight
  rcases List.suffix_or_suffix_of_suffix hahead (List.suffix_append front (token :: back)) with
    ⟨more, hmore⟩ | ⟨more, hmore⟩
  · -- the token would be left out
    cases more with
    | nil => exact hmore
    | cons first more =>
      obtain ⟨rfl, rfl⟩ := List.cons.inj hmore
      rw [List.filter_cons_of_pos (by simpa using hkind), List.length_cons] at hweight
      have hle :=
        ((List.suffix_append more v.ahead).sublist.filter (·.kind ≠ .whitespace)).length_le
      exact absurd hweight (Nat.ne_of_lt (Nat.lt_succ_of_le hle))
  · -- what is left begins with no white space
    cases more with
    | nil => exact hmore.symm
    | cons first more =>
      obtain ⟨htoken, -⟩ := hv.token?_of_ahead hmore.symm
      have hfirst : first.kind ≠ .whitespace := by
        intro hwhite
        have htrivia := (hv.token first htoken).1
        rw [Token.isTrivia, hwhite] at htrivia
        cases htrivia
      rw [← hmore, List.filter_append, List.length_append,
        List.filter_cons_of_pos (by simpa using hfirst), List.length_cons] at hweight
      omega

/-! ## The seams of a header -/

/-- The seam of a condition is in front of its closing parenthesis and the empty block. -/
def Seam.condition : Seam where
  base := 3
  tail := closer :: (Token.blank [' '] ++ braced [])
  closes := by simp [closer]
  outside := rfl

/-- The seam of a condition with nothing behind its closing parenthesis. -/
def Seam.header : Seam where
  base := 3
  tail := []
  closes := by simp
  outside := rfl

end Grammar

/-! ## What closes a header -/

/-- A closing parenthesis, and a block with nothing but white space in it. -/
def bodyText (gap inside : Text) : Text :=
  ')' :: (gap ++ '\x7b' :: (inside ++ ['\x7d']))

namespace IsCondition

open Grammar

variable {g : Guarded} {text : Text}

theorem ofText_split (h : IsCondition g text) : Token.ofText (text ++ emptyBody)
    = Token.ofText text ++ closer :: (Token.blank [' '] ++ braced []) := by
  obtain ⟨_, v, _, _, _, _, _, _, _, _, htokens, hahead⟩ := h.exists_run
  rw [htokens, hahead]

/-- Behind the condition the tokens may go on in any other way. -/
theorem ofText_closing (h : IsCondition g text) {rest : Text} {tokens : List Token}
    (hrest : Token.ofText (')' :: rest) = closer :: tokens) :
    Token.ofText (text ++ ')' :: rest) = Token.ofText text ++ closer :: tokens := by
  have htext := (Token.ofText_spells text).flatMap_text
  have htail := (Token.ofText_spells (')' :: rest)).flatMap_text
  have hlexed := Token.lexed_ofText (text ++ emptyBody)
  have htails := Token.lexed_ofText (')' :: rest)
  rw [h.ofText_split] at hlexed
  rw [hrest] at htail htails
  have hexchanged : Token.Lexed _ := hlexed.exchange_closing rfl htails
  rwa [Token.Lexed, List.flatMap_append, htext, htail] at hexchanged

/-- What is read behind the opening is found, is the one node `x`, and leaves `rest`. -/
def Reads (g : Guarded) (tokens : List Token) (x : Node) (rest : List Token) : Prop :=
  ∀ n b v, (expression (parseTo (n + 1))).run (Guarded.entered g tokens) = some (b, v) →
    b = true ∧ v.Fair ∧ v.firm = g.opened ++ [x] ∧ v.pending = 0 ∧ v.ahead = rest

theorem run_truncated (h : IsCondition g text) {σ : Seam} {n d d' : Nat} {rest : Text}
    {b b' : Bool} {v v' : State} (hbase : σ.base = 3)
    (hsplit : Token.ofText (text ++ rest) = Token.ofText text ++ σ.behind n)
    (hrun : (expression (parseTo d)).run
      (Guarded.entered g (Token.ofText (text ++ rest))) = some (b, v))
    (hrun' : (expression (parseTo d')).run (Guarded.entered g (Token.ofText text)) = some (b', v'))
    (hleft : σ.tail.length ≤ v.ahead.length) : b' = b ∧ State.Truncated σ v v' := by
  have hlength : σ.base = g.opened.reverse.length := by
    rw [hbase]
    cases g <;> rfl
  have hs : State.Truncated σ (Guarded.entered g (Token.ofText (text ++ rest)))
      (Guarded.entered g (Token.ofText text)) := by
    have hfair := Guarded.fair_entered g (text ++ rest)
    rw [hsplit] at hfair ⊢
    exact State.truncated_read hlength h.inline.ofText_ne_nil h.inline.last_not_isTrivia
      (fun token htoken => (h.inline.braces token htoken).1) hfair (Guarded.fair_entered g text)
  have hmarks : σ.Marks _ (Guarded.entered g (Token.ofText (text ++ rest))) :=
    ⟨hlength.trans_le (State.built_suffix_read _ _).length_le, Nat.le_refl _⟩
  obtain ⟨hfound, hkept⟩ :=
    (expression_truncates (parseTo_truncate σ d d')).keeps _ _ hs trivial hmarks
      (hs.fair.sane.lacks_marker _) b v b' v' hrun hrun' hleft
  exact ⟨hfound, hkept.truncated⟩

/-- The text of what is read and of what is left. -/
theorem text_of_run {n : Nat} {whole : Text} {v : State} {x : Node}
    (hrun : (expression (parseTo (n + 1))).run (Guarded.entered g (Token.ofText whole)) =
      some (true, v))
    (hrow : v.firm = g.opened ++ [x]) (hpending : v.pending = 0) :
    x.text ++ v.ahead.flatMap (·.text) = whole := by
  have hfair := Guarded.fair_entered g whole
  obtain ⟨front, htokens, htext⟩ :=
    ((expression_opens_of_found (parseTo_agree _ _) hfair hrun).evolves
      (Nat.zero_le _)).exists_front hfair.sane
  rw [← State.firm_append_loose, State.loose_eq_nil hpending, List.append_nil, hrow,
    List.reverse_reverse, Node.textAll_append] at htext
  have hfront : x.text = front.flatMap (·.text) := by
    rw [← List.append_cancel_left htext]
    exact (List.append_nil _).symm
  rw [hfront, ← List.flatMap_append, ← htokens, (Token.ofText_spells whole).flatMap_text]

/-- Without the block and the parenthesis, the same node is read. -/
theorem exists_reads (h : IsCondition g text) : ∃ x : Node,
    x.Whole ∧ x.Simple ∧ Repair.canBeCondition x.kind = true ∧ x.text = text
      ∧ Reads g (Token.ofText text) x [] := by
  obtain ⟨n, v, x, hrun, hv, hrow, hpending, hwhole, hcondition, htext, -, hahead⟩ := h.exists_run
  have hsize : x.size ≠ 0 := by
    rw [← Node.size_text, htext]
    exact mt Text.eq_nil_of_size_eq_zero h.inline.ne_nil
  have hfirm : v.firm = g.opened ++ [x] := by
    rw [← hrow, ← State.firm_append_loose, State.loose_eq_nil hpending, List.append_nil]
  have htail : v.ahead = Seam.condition.tail := hahead
  have hreads : ∀ n' b' v',
      (expression (parseTo (n' + 1))).run (Guarded.entered g (Token.ofText text))
        = some (b', v') →
      x.Simple ∧ b' = true ∧ v'.Fair ∧ v'.firm = g.opened ++ [x] ∧ v'.pending = 0
        ∧ v'.ahead = [] := by
    intro n' b' v' hrun'
    obtain ⟨rfl, hs⟩ := h.run_truncated (σ := .condition) (n := 0) rfl h.ofText_split hrun hrun'
      (by rw [htail])
    have hend := hs.ends_of_ahead htail
    obtain ⟨-, front, back, x', y, -, -, hpending', hrow, hrow', hback, htorn⟩ := hs.at_end hend
    obtain ⟨rfl, rfl, rfl⟩ := Node.row_eq_of_size (hrow.symm.trans hfirm) hback hsize
    have hahead' : v'.ahead = [] := by
      rw [State.ahead, hend, hs.fair'.sane.ended hend]
      rfl
    have hsame : y = x' := by
      have htext' := text_of_run hrun' hrow' hpending'
      rw [hahead', List.flatMap_nil, List.append_nil] at htext'
      exact htorn.eq_of_size_eq (by rw [← Node.size_text, ← Node.size_text, htext, htext'])
    rw [hsame] at hrow'
    have hsimple := hs.simple x' (by rw [hrow]; cases g <;> exact List.mem_cons_self)
    exact ⟨hsimple, rfl, hs.fair', hrow', hpending', hahead'⟩
  obtain ⟨n', b', v', -, hrun', -⟩ := exists_run_guarded g text
  exact ⟨x, hwhole, (hreads n' b' v' hrun').1, hcondition, htext,
    fun n' b' v' hrun' => (hreads n' b' v' hrun').2⟩

/-- With the parenthesis, the node is read in front of it. -/
theorem reads_header (h : IsCondition g text) {x : Node} (hwhole : x.Whole) (htext : x.text = text)
    (hreads : Reads g (Token.ofText text) x []) :
    Reads g (Token.ofText (text ++ [')'])) x [closer] := by
  intro n b v hrun
  obtain ⟨n', b', v', -, hrun', -⟩ := exists_run_guarded g text
  obtain ⟨rfl, -, hrow', -, hahead'⟩ := hreads n' b' v' hrun'
  obtain ⟨rfl, hs⟩ := h.run_truncated (σ := .header) (n := 1) rfl (h.ofText_closing rfl) hrun hrun'
    (Nat.zero_le _)
  have hend := State.token?_of_ahead_nil hahead'
  have hsize : x.size ≠ 0 := by
    rw [← Node.size_text, htext]
    exact mt Text.eq_nil_of_size_eq_zero h.inline.ne_nil
  obtain ⟨k, front, back, x', y, hahead, hpending, -, hrow, hfirm', hback, htorn⟩ := hs.at_end hend
  obtain ⟨rfl, rfl, rfl⟩ := Node.row_eq_of_size (hfirm'.symm.trans hrow') hback hsize
  obtain rfl := htorn.eq_of_problems_eq_nil hwhole.problems_eq_nil
  have hleft := text_of_run hrun hrow hpending
  rw [htext, hahead, Seam.behind] at hleft
  have hclosing := congrArg List.length (List.append_cancel_left hleft)
  have hone : k = 1 := by simpa [closer, Seam.header] using hclosing
  exact ⟨rfl, hs.fair, hrow, hpending, by rw [hahead, hone]; rfl⟩

/-! ### The trees -/

/-- Without the parenthesis, that is what is missing behind the condition. -/
theorem ofText_open {x : Node} (hwhole : x.Whole) (hreads : Reads g (Token.ofText text) x []) :
    Node.ofText .codeFragment (g.opening ++ text) = .branch .file
      [.branch g.kind (g.opened ++ [x, .error (.expected (.construct .rightParen)) []])] := by
  obtain ⟨n, b, v, u, hrun, hrest, htree⟩ := exists_run_guarded g text
  obtain ⟨rfl, hv, hrow, hpending, hahead⟩ := hreads n b v hrun
  have hend := State.token?_of_ahead_nil hahead
  have hclosed : (v.orMarked true .expression).closed = v.markMissing (.construct .rightParen) := by
    have hcurrent : v.current ≠ .rightParen := by
      rw [State.current, hend]
      decide
    exact if_neg hcurrent
  set w := v.markMissing (.construct .rightParen)
  have hw : w.Sane := hv.sane.markMissing _
  have hrow' : w.firm = g.opened ++ [x, .error (.expected (.construct .rightParen)) []] :=
    hv.sane.firm_markMissing_of_ne hrow hwhole.kind_ne_error _
  have hwend : w.token? = none := (State.token?_markMissing v _).trans hend
  have hmarked : w.firm = g.opened ++ [x] ++ [.error (.expected (.construct .rightParen)) []] := by
    rw [hrow', List.append_assoc]
    rfl
  -- nothing is marked again behind the mark
  rw [hclosed, run_guardedRest_of_end g hwend, State.markMissing_of_marked hmarked] at hrest
  obtain ⟨-, rfl⟩ := Prod.mk.inj (Option.some.inj hrest)
  rw [htree hwend, hw.built_wrap_zero ?_, hrow']
  exact (hv.sane.loose_markMissing _).trans (State.loose_eq_nil hpending)

/-- With the parenthesis, a statement is missing behind it. -/
theorem ofText_closed {x : Node} (hreads : Reads g (Token.ofText (text ++ [')'])) x [closer]) :
    Node.ofText .codeFragment (g.opening ++ (text ++ [')'])) = .branch .file
      [.branch g.kind (g.opened ++ [x, .closer, .error (.expected .statement) []])] := by
  obtain ⟨n, b, v, u, hrun, hrest, htree⟩ := exists_run_guarded g (text ++ [')'])
  obtain ⟨rfl, hv, hrow, hpending, hahead⟩ := hreads n b v hrun
  obtain ⟨htoken, hunread⟩ := hv.sane.token?_of_ahead hahead
  have hclosed : (v.orMarked true .expression).closed = v.take Token.node := by
    have hcurrent : v.current = .rightParen := by
      rw [State.current, htoken]
      rfl
    exact if_pos hcurrent
  have htake : v.take Token.node = State.read (Token.node closer :: v.built) [] := by
    rw [State.take_of_some htoken, hunread]
  have hfirm : (v.take Token.node).firm = g.opened ++ [x] ++ [.closer] := by
    rw [State.firm_take htoken, State.loose_eq_nil hpending, List.append_nil, hrow]
    rfl
  set w := (v.take Token.node).markMissing .statement
  have hsane : (v.take Token.node).Sane := hv.sane.take _
  have hrow' : w.firm = g.opened ++ [x] ++ [.closer, .error (.expected .statement) []] :=
    hsane.firm_markMissing_of_ne hfirm (by decide) _
  have hend : (v.take Token.node).token? = none := by
    rw [htake]
    rfl
  have hwend : w.token? = none := (State.token?_markMissing _ _).trans hend
  rw [hclosed, run_guardedRest_of_end g hend] at hrest
  obtain ⟨-, rfl⟩ := Prod.mk.inj (Option.some.inj hrest)
  rw [htree hwend, (hsane.markMissing _).built_wrap_zero ?_, hrow', List.append_assoc]
  · rfl
  · rw [hsane.loose_markMissing, htake]
    rfl

/-- **The tree of a header at the end of the text.**  Whether the parenthesis is there or not, the
condition is one node, and one thing is missing behind it. -/
theorem exists_header (h : IsCondition g text) : ∃ x : Node,
    x.Whole ∧ x.Simple ∧ Repair.canBeCondition x.kind = true ∧ x.text = text
      ∧ Node.ofText .codeFragment (g.opening ++ text) = .branch .file
          [.branch g.kind (g.opened ++ [x, .error (.expected (.construct .rightParen)) []])]
      ∧ Node.ofText .codeFragment (g.opening ++ (text ++ [')'])) = .branch .file
          [.branch g.kind (g.opened ++ [x, .closer, .error (.expected .statement) []])] := by
  obtain ⟨x, hwhole, hsimple, hcondition, htext, hreads⟩ := h.exists_reads
  exact ⟨x, hwhole, hsimple, hcondition, htext, ofText_open hwhole hreads,
    ofText_closed (h.reads_header hwhole htext hreads)⟩

/-- However much white space is there, three tokens stand behind the condition. -/
theorem length_filter_closing (gap inside : Text) :
    ((closer :: (Token.blank gap ++ braced inside)).filter (·.kind ≠ .whitespace)).length = 3 := by
  have hblank (gap : Text) : (Token.blank gap).filter (·.kind ≠ .whitespace) = [] :=
    List.filter_eq_nil_iff.2 fun token htoken => by simp [Token.kind_of_mem_blank htoken]
  rw [List.filter_cons_of_pos (by decide), List.filter_append, hblank, braced,
    List.filter_cons_of_pos (by decide), List.filter_append, hblank]
  rfl

section

variable (h : IsCondition g text) {gap inside : Text}
  (hlex : Token.ofText (bodyText gap inside) = closer :: (Token.blank gap ++ braced inside))
  (hgap : Token.Respaced (Token.blank gap ++ braced inside) (Token.blank [' '] ++ braced [])
    ∨ Token.Respaced (Token.blank [' '] ++ braced []) (Token.blank gap ++ braced inside))
include h hlex hgap

/-- Behind other white space as many tokens are left. -/
theorem weight_of_run {n : Nat} {b : Bool} {v : State}
    (hrun : (expression (parseTo (n + 1))).run
      (Guarded.entered g (Token.ofText (text ++ bodyText gap inside))) = some (b, v)) :
    b = true ∧ v.weight = 3 := by
  obtain ⟨n₀, v₀, -, hrun₀, -, -, -, -, -, -, -, hahead₀⟩ := h.exists_run
  have hweight₀ : v₀.weight = 3 := by rw [State.weight, hahead₀, length_filter_closing]
  have hfair₀ := Guarded.fair_entered g (text ++ emptyBody)
  have hfair := Guarded.fair_entered g (text ++ bodyText gap inside)
  have hlexed₀ := Token.lexed_ofText (text ++ emptyBody)
  have hlexed := Token.lexed_ofText (text ++ bodyText gap inside)
  rw [h.ofText_split] at hrun₀ hfair₀ hlexed₀
  rw [show Token.ofText (text ++ bodyText gap inside) =
    _ from h.ofText_closing hlex] at hrun hfair hlexed
  have hstarts₀ := startsExpression_of_found (parseTo_agree _ _) hrun₀
  rcases hgap with hgap | hgap
  · have halike :=
      Alike.read hfair.sane hfair₀.sane (hlexed.respaced.exchange (by decide) hgap) rfl rfl
    have hstarts : startsExpression (State.current _) = true := halike.current_eq ▸ hstarts₀
    obtain ⟨rfl, hopened⟩ :=
      (expression_phrases (parseTo_agree _ _)).opens _ _ halike hstarts trivial
        b v true v₀ hrun hrun₀
    exact ⟨rfl, hopened.alike.weight_eq.symm.trans hweight₀⟩
  · have halike :=
      Alike.read hfair₀.sane hfair.sane (hlexed₀.respaced.exchange (by decide) hgap) rfl rfl
    obtain ⟨rfl, hopened⟩ :=
      (expression_phrases (parseTo_agree _ _)).opens _ _ halike hstarts₀ trivial
        true v₀ b v hrun₀ hrun
    exact ⟨rfl, hopened.alike.weight_eq.trans hweight₀⟩

/-- **The tree of a header with an empty block behind it.** -/
theorem exists_braced : ∃ row : List Node,
    Node.ofText .codeFragment (g.opening ++ (text ++ bodyText gap inside)) = .branch .file
      [.branch g.kind (g.opened ++ row ++ .closer
        :: ((Token.blank gap).map Token.node
          ++ [.branch .blockStatement [bracedNode inside]]))] := by
  obtain ⟨n, b, v, u, hrun, hrest, htree⟩ := exists_run_guarded g (text ++ bodyText gap inside)
  obtain ⟨rfl, hweight⟩ := h.weight_of_run hlex hgap hrun
  have htokens : Token.ofText (text ++ bodyText gap inside) = _ := h.ofText_closing hlex
  have hfair := Guarded.fair_entered g (text ++ bodyText gap inside)
  have hopens := expression_opens_of_found (parseTo_agree _ _) hfair hrun
  have hsane : v.Sane := (hopens.evolves (Nat.zero_le _)).sane hfair.sane
  obtain ⟨front, hfront, -⟩ := (hopens.evolves (Nat.zero_le _)).exists_front hfair.sane
  have hahead : v.ahead = closer :: (Token.blank gap ++ braced inside) := by
    refine hsane.ahead_eq_of_weight ⟨front, hfront.symm.trans htokens⟩ (by decide) ?_
    rw [hweight, length_filter_closing]
  -- the tokens of the header in front of the condition have been taken in before
  obtain ⟨row, hrow⟩ : ∃ row, v.built.reverse = g.opened ++ row := by
    obtain ⟨blanks, hblanks⟩ :=
      State.built_suffix_read g.opened.reverse (Token.ofText (text ++ bodyText gap inside))
    have htake := hopens.take_firm hfair.sane
    rw [Guarded.entered, ← hblanks, List.reverse_append, List.reverse_reverse] at htake
    obtain ⟨more, hmore⟩ : g.opened ++ blanks.reverse <+: v.firm := htake ▸ List.take_prefix _ _
    exact ⟨blanks.reverse ++ (more ++ v.loose), by
      rw [← State.firm_append_loose, ← hmore, List.append_assoc, List.append_assoc]⟩
  obtain ⟨htoken, hunread⟩ := hsane.token?_of_ahead hahead
  have hclosed : (v.orMarked true .expression).closed
      = State.read (.closer :: v.built) (Token.blank gap ++ braced inside) := by
    have hcurrent : v.current = .rightParen := by
      rw [State.current, htoken]
      rfl
    have htake := State.take_of_some htoken Token.node
    rw [hunread] at htake
    exact (if_pos hcurrent).trans htake
  rw [hclosed, run_guardedRest_braced] at hrest
  obtain ⟨-, rfl⟩ := Prod.mk.inj (Option.some.inj hrest)
  refine ⟨row, ?_⟩
  rw [htree rfl, List.reverse_cons, hrow]
  simp only [State.finished, List.reverse_singleton, List.append_assoc, List.cons_append,
    List.nil_append]

end

end IsCondition

end StatementCompletion
