import StatementCompletion.Proofs.Grammar.Agreement.Sources
import StatementCompletion.Proofs.Grammar.Guarded
import StatementCompletion.Proofs.Token.Inline
import StatementCompletion.Repair.Header

/-!
# Conditions whose statement has lost its end
-/

namespace StatementCompletion

namespace Grammar

variable {g : Guarded} {inner : Inner} {s t u v : State}

/-! ## A statement without problems -/

theorem Guarded.entered_eq (g : Guarded) (tokens : List Token) :
    entered g tokens = ((State.start (g.opener ++ tokens)).take Token.node).take Token.node := by
  cases g <;> rfl

theorem Guarded.fair_entered (g : Guarded) (text : Text) :
    (entered g (Token.ofText text)).Fair := by
  rw [entered_eq, ← g.ofText_opening]
  exact ((State.fair_start _).take (.inl rfl)).take (.inl rfl)

/-- What stands behind the parentheses is more than nothing, and becomes a part of the statement. -/
theorem guardedRest_eq (h : inner.Forms) (g : Guarded) : ∃ p : Parser Unit,
    guardedRest inner g = (p >>= fun _ => wrap 0 g.kind)
      ∧ Forms true anywhere (fun _ parts => parts ≠ []) p := by
  have hbody : Forms true anywhere (fun _ parts => parts ≠ []) (body inner) := by
    refine (body_forms h).mono fun _ parts ⟨kind, _, hparts⟩ => ?_
    rw [hparts]
    exact List.cons_ne_nil _ _
  cases g with
  | loop => exact ⟨body inner, rfl, hbody⟩
  | branch =>
    refine ⟨body inner >>= fun _ => whenTaken .elseKeyword (body inner),
      (bind_assoc _ _ _).symm, ?_⟩
    refine hbody.last (fun _ => whenTaken_forms (by decide) (body_forms h)) ?_
    exact fun _ front hfront _ back _ => List.append_ne_nil_of_left_ne_nil hfront back

/-- Behind the parentheses nodes join the row, which then becomes the children of the statement. -/
theorem run_guardedRest_of_clean {a : Unit} (h : inner.Forms) (hv : v.Fair)
    (hrun : (guardedRest inner g).run v = some (a, t)) (hclean : t.IsClean) :
    v.IsClean ∧ ∃ (w : State) (nodes : List Node), t = w.wrap 0 g.kind ∧ w.Sane
      ∧ w.firm = v.built.reverse ++ nodes := by
  obtain ⟨p, hp, hforms⟩ := guardedRest_eq h g
  rw [hp] at hrun
  obtain ⟨_, w, hpv, hwrap⟩ := run_bind_eq_some.1 hrun
  obtain ⟨-, rfl⟩ := Prod.mk.inj (Option.some.inj hwrap)
  obtain ⟨hw, hadds⟩ := hforms v hv trivial () w hpv
  obtain ⟨hvclean, parts, hne, ⟨hnil, -⟩ | ⟨-, nodes, hfirm, -⟩⟩ := hadds hclean.of_wrap
  · exact absurd hnil hne
  · exact ⟨hvclean, w, nodes, rfl, hw.sane, hfirm⟩

/-- The closing parenthesis of a row without problems is there. -/
theorem State.Fair.closed_of_clean (hv : v.Fair) (hclean : v.closed.IsClean) :
    v.IsClean ∧ v.current = .rightParen ∧ v.closed = v.take Token.node := by
  rw [State.closed] at hclean ⊢
  by_cases hparen : v.current = .rightParen
  · rw [if_pos hparen] at hclean ⊢
    obtain ⟨token, htoken⟩ : ∃ token, v.token? = some token :=
      Option.isSome_iff_exists.1 (State.isSome_of_current (by rw [hparen]; decide))
    exact ⟨(hclean.of_take htoken).1, hparen, rfl⟩
  · rw [if_neg hparen] at hclean
    exact absurd hclean (hv.not_isClean_markMissing _)

/-- What a statement without problems holds in its parentheses is one operand. -/
theorem exists_held_of_clean {a : Unit} (h : inner.Forms) (hs : s.Fair)
    (hrun : (guardHeader inner >>= fun _ => guardedRest inner g).run s = some (a, t))
    (hclean : t.IsClean) :
    ∃ (v w : State) (nodes back : List Node) (kind : Kind) (last : Node),
      (expression inner).run s = some (true, v) ∧ v.Fair
        ∧ v.firm = s.built.reverse ++ nodes ∧ Node.partKinds nodes = [kind] ∧ kind.isOperand = true
        ∧ last.kind = .rightParen ∧ t = w.wrap 0 g.kind ∧ w.Sane
        ∧ w.firm = v.firm ++ v.loose ++ last :: back := by
  obtain ⟨_, u, hheld, hrest⟩ := run_bind_eq_some.1 hrun
  obtain ⟨b, v, hexpression, rfl⟩ := run_guardHeader_eq_some hheld
  have hforms : Forms true anywhere (Language.found (Language.one Kind.isOperand))
      (expression inner) :=
    expression_forms h
  obtain ⟨hv, hadds⟩ := hforms s hs trivial b v hexpression
  have hmarked : (v.orMarked b .expression).Fair := by
    cases b with
    | true => exact hv
    | false => exact hv.markMissing _
  have hclosed : (v.orMarked b .expression).closed.Fair := by
    rw [State.closed]
    split
    · exact hmarked.take (.inl rfl)
    · exact hmarked.markMissing _
  obtain ⟨hcleanClosed, w, nodes, rfl, hw, hfirm⟩ := run_guardedRest_of_clean h hclosed hrest hclean
  obtain ⟨hcleanMarked, hparen, heq⟩ := hmarked.closed_of_clean hcleanClosed
  -- an operand that is missing would have been marked
  obtain rfl : b = true := by
    cases b with
    | true => rfl
    | false => exact absurd hcleanMarked (hv.not_isClean_markMissing _)
  obtain ⟨-, parts, ⟨kind, hkind, rfl⟩, ⟨hnil, -⟩ | ⟨-, own, hown, hkinds, -⟩⟩ := hadds hcleanMarked
  · cases hnil
  obtain ⟨token, htoken⟩ : ∃ token, v.token? = some token :=
    Option.isSome_iff_exists.1
      (State.isSome_of_current (by rw [show v.current = _ from hparen]; decide))
  refine ⟨v, w, own, (v.take Token.node).loose ++ nodes, kind, token.node, hexpression,
    hv, hown, hkinds, hkind, ?_, rfl, hw, ?_⟩
  · rw [Token.kind_node]
    rwa [show v.orMarked true .expression = v from rfl, State.current, htoken] at hparen
  · rw [hfirm, heq, ← State.firm_append_loose]
    show (v.take Token.node).firm ++ (v.take Token.node).loose ++ nodes = _
    rw [State.firm_take htoken]
    simp only [List.append_assoc, List.cons_append, List.nil_append]

/-- An expression that is found begins with the current token. -/
theorem startsExpression_of_found (h : inner.Agree inner)
    (hrun : (expression inner).run s = some (true, v)) : startsExpression s.current = true := by
  cases hstarts : startsExpression s.current with
  | true => rfl
  | false => cases ((expression_phrases h).phrase.no hstarts hrun).1

/-- It opens with this token. -/
theorem expression_opens_of_found (h : inner.Agree inner) (hs : s.Fair)
    (hrun : (expression inner).run s = some (true, v)) : Opens s v := by
  have hstarts := startsExpression_of_found h hrun
  exact ((expression_phrases h).opens s s hs.alike hstarts trivial true v true v hrun hrun).2.opens

end Grammar

/-! ## Conditions -/

/-- What stands among the children between the first parenthesis and the one that closes it. -/
def Node.inParens (node : Node) : List Node :=
  (node.children.dropWhile (·.kind ≠ .leftParen)).tail.takeWhile (·.kind ≠ .rightParen)

theorem Guarded.inParens_branch (g : Guarded) {inside back : List Node} {last : Node}
    (hinside : ∀ node ∈ inside, node.kind ≠ .rightParen) (hlast : last.kind = .rightParen) :
    (Node.branch g.kind (g.opened ++ (inside ++ last :: back))).inParens = inside := by
  have hheader : (Node.branch g.kind (g.opened ++ (inside ++ last :: back))).inParens
      = (inside ++ last :: back).takeWhile (·.kind ≠ .rightParen) := by
    cases g <;> rfl
  rw [hheader, List.takeWhile_append_of_pos (by simpa using hinside),
    List.takeWhile_cons_of_neg (by simp [hlast]), List.append_nil]

/-- No parenthesis stands in a row of trivia around one operand. -/
theorem Node.kind_ne_rightParen_of_operand {before nodes behind : List Node} {kind : Kind}
    (hbefore : ∀ node ∈ before, node.kind.isTrivia = true)
    (hbehind : ∀ node ∈ behind, node.kind.isTrivia = true)
    (hkinds : Node.partKinds nodes = [kind]) (hoperand : kind.isOperand = true) :
    ∀ node ∈ before ++ nodes ++ behind, node.kind ≠ .rightParen := by
  have hkind {node : Node} (h : node.kind.isTrivia = true ∨ node.kind = kind) :
      node.kind ≠ .rightParen := by
    intro hparen
    rw [hparen] at h
    rcases h with h | rfl
    · cases h
    · cases hoperand
  simp only [List.forall_mem_append]
  exact ⟨⟨fun node hnode => hkind (.inl (hbefore node hnode)),
    fun node hnode => hkind (Node.kind_of_partKinds_eq_singleton hkinds hnode)⟩,
    fun node hnode => hkind (.inl (hbehind node hnode))⟩

/-- Where such a row is one node, this is the operand. -/
theorem Node.eq_of_operand_row {before nodes behind : List Node} {kind : Kind} {x : Node}
    (hkinds : Node.partKinds nodes = [kind]) (h : before ++ nodes ++ behind = [x]) :
    before = [] ∧ nodes = [x] ∧ behind = [] := by
  have hne : nodes ≠ [] := by
    rintro rfl
    cases hkinds
  have hpos := List.length_pos_iff.2 hne
  have hlength := congrArg List.length h
  simp only [List.length_append, List.length_singleton] at hlength
  obtain rfl : before = [] := List.eq_nil_of_length_eq_zero (by omega)
  obtain rfl : behind = [] := List.eq_nil_of_length_eq_zero (by omega)
  rw [List.nil_append, List.append_nil] at h
  exact ⟨rfl, h, rfl⟩

/-- What closes the parentheses of a condition, and an empty block. -/
def emptyBody : Text :=
  [')', ' ', '\x7b', '\x7d']

/-- A text on one line, without comments and braces, that begins and ends with ink and is a
condition: with an empty block behind it, it is read without errors as one statement that holds it,
and nothing else, in its parentheses. -/
structure IsCondition (g : Guarded) (text : Text) : Prop where
  inline : IsInline text
  problems : (Node.ofText .codeFragment (g.opening ++ (text ++ emptyBody))).problems = []
  held : (Node.ofText .codeFragment (g.opening ++ (text ++ emptyBody))).children.map
      (·.inParens.map fun node => (Repair.canBeCondition node.kind, node.text)) = [[(true, text)]]

instance (g : Guarded) (text : Text) : Decidable (IsCondition g text) :=
  decidable_of_iff (IsInline text
      ∧ (Node.ofText .codeFragment (g.opening ++ (text ++ emptyBody))).problems = []
      ∧ (Node.ofText .codeFragment (g.opening ++ (text ++ emptyBody))).children.map
        (·.inParens.map fun node => (Repair.canBeCondition node.kind, node.text))
          = [[(true, text)]])
    ⟨fun ⟨inline, problems, held⟩ => ⟨inline, problems, held⟩,
      fun ⟨inline, problems, held⟩ => ⟨inline, problems, held⟩⟩

namespace IsCondition

open Grammar

variable {g : Guarded} {text : Text}

/-- The tokens of what stands behind the condition. -/
theorem ofText_emptyBody :
    Token.ofText emptyBody = closer :: (Token.blank [' '] ++ braced []) := rfl

/-- The statement that holds the condition, and the condition. -/
theorem exists_statement (h : IsCondition g text) : ∃ statement x,
    Node.ofText .codeFragment (g.opening ++ (text ++ emptyBody)) = .branch .file [statement]
      ∧ statement.Whole ∧ statement.inParens = [x] ∧ Repair.canBeCondition x.kind = true
      ∧ x.text = text := by
  have hwhole := Node.whole_ofText .codeFragment _ h.problems
  have hheld := h.held
  obtain ⟨nodes, htree, -⟩ := Node.parse?_softens .codeFragment (g.opening ++ (text ++ emptyBody))
  have hroot : Node.ofText .codeFragment (g.opening ++ (text ++ emptyBody)) =
      .branch .file nodes := by
    rw [Node.ofText, htree, Option.getD_some]
  rw [hroot] at hwhole hheld ⊢
  obtain ⟨statement, rfl, hstatement⟩ := List.map_eq_singleton_iff.1 hheld
  obtain ⟨x, hx, hkind⟩ := List.map_eq_singleton_iff.1 hstatement
  obtain ⟨hcondition, htext⟩ := Prod.mk.inj hkind
  exact ⟨statement, x, rfl, (hwhole.of_mem_children List.mem_cons_self).2, hx, hcondition, htext⟩

/-- The statement is read from its opening on. -/
theorem exists_run_statement (h : IsCondition g text) : ∃ n t statement x,
    (guardHeader (parseTo (n + 1)) >>= fun _ => guardedRest (parseTo (n + 1)) g).run
        (Guarded.entered g (Token.ofText (text ++ emptyBody))) = some ((), t)
      ∧ t.IsClean ∧ t.built.reverse = [statement] ∧ statement.Whole ∧ statement.inParens = [x]
      ∧ Repair.canBeCondition x.kind = true ∧ x.text = text := by
  obtain ⟨statement, x, htree, hwhole, hx, hcondition, htext⟩ := h.exists_statement
  have hproblems := h.problems
  obtain ⟨t, hrun, -, ht⟩ := Node.exists_run_ofText .codeFragment (g.opening ++ (text ++ emptyBody))
  have hfair := State.fair_start (g.opening ++ (text ++ emptyBody))
  rw [ht] at htree hproblems
  have hbuilt : t.built.reverse = [statement] := by
    injection htree
  have hclean : t.IsClean := .of_problems hproblems
  have htrivia : statement.kind.isTrivia = false := by
    cases hwhole with
    | leaf => cases hx
    | branch hconstruct => exact (Kind.not_isTrivia_of_isConstruct hconstruct).1
  have hkinds : Node.partKinds t.built.reverse = [statement.kind] := by
    rw [hbuilt, Node.partKinds_singleton htrivia]
  generalize (Token.ofText (g.opening ++ (text ++ emptyBody))).length = n at hrun
  rw [g.ofText_opening] at hrun hfair
  have hcurrent : (State.start (g.opener ++ Token.ofText (text ++ emptyBody))).current =
      g.keyword := by
    cases g <;> rfl
  have hbrace : g.keyword ≠ .rightBrace := by cases g <;> decide
  obtain ⟨-, hstatement⟩ := run_fragment_of_one (parseTo_forms _) hfair (State.firm_start _)
    (by rwa [hcurrent]) hrun hclean hkinds
  rw [run_statement_opener] at hstatement
  exact ⟨n, t, statement, x, hstatement, hclean, hbuilt, hwhole, hx, hcondition, htext⟩

/-- **The condition is what is read as an expression behind the opening**, and nothing behind it is
read. -/
theorem exists_run (h : IsCondition g text) : ∃ n v x,
    (expression (parseTo (n + 1))).run (Guarded.entered g (Token.ofText (text ++ emptyBody)))
        = some (true, v)
      ∧ v.Fair ∧ v.built.reverse = g.opened ++ [x] ∧ v.pending = 0 ∧ x.Whole
      ∧ Repair.canBeCondition x.kind = true ∧ x.text = text
      ∧ Token.ofText (text ++ emptyBody) = Token.ofText text ++ v.ahead
      ∧ v.ahead = closer :: (Token.blank [' '] ++ braced []) := by
  obtain ⟨n, t, statement, x, hrun, hclean, hbuilt, hwhole, hx, hcondition, htext⟩ :=
    h.exists_run_statement
  have hfair := Guarded.fair_entered g (text ++ emptyBody)
  obtain ⟨v, w, nodes, back, kind, last, hexpression, hv, hfirm, hkinds, hoperand, hlast,
    rfl, hw, hrow⟩ :=
    exists_held_of_clean (parseTo_forms _) hfair hrun hclean
  set blanks := ((Token.ofText (text ++ emptyBody)).takeWhile Token.isTrivia).map Token.node
  have hblanks : (Guarded.entered g (Token.ofText (text ++ emptyBody))).built.reverse
      = g.opened ++ blanks := by
    rw [Guarded.entered, State.read, List.reverse_append, List.reverse_reverse,
      List.reverse_reverse]
  have hstatement : statement =
      .branch g.kind (g.opened ++ (blanks ++ nodes ++ v.loose ++ last :: back)) := by
    rw [← State.firm_append_loose, hw.firm_wrap, List.take_zero, List.drop_zero,
      List.nil_append, hrow, hfirm, hblanks] at hbuilt
    rw [← (List.cons.inj hbuilt).1]
    simp only [List.append_assoc]
  -- the row between the parentheses is that of the one operand
  have hinside : statement.inParens = blanks ++ nodes ++ v.loose := by
    rw [hstatement]
    refine g.inParens_branch (Node.kind_ne_rightParen_of_operand (fun node hnode => ?_)
      (fun node hnode => (hv.sane.loose node hnode).2.1) hkinds hoperand) hlast
    obtain ⟨token, htoken, rfl⟩ := List.mem_map.1 hnode
    rw [Token.kind_node]
    exact List.mem_takeWhile_imp (p := Token.isTrivia) htoken
  obtain ⟨hblank, rfl, hloose⟩ := Node.eq_of_operand_row hkinds (hinside.symm.trans hx)
  have hrowv : v.built.reverse = g.opened ++ [x] := by
    rw [← State.firm_append_loose, hloose, List.append_nil, hfirm, hblanks, hblank, List.append_nil]
  obtain ⟨front, htokens, hfront⟩ :=
    ((expression_opens_of_found (parseTo_agree _ _) hfair hexpression).evolves
      (Nat.zero_le _)).exists_front hfair.sane
  have hfrontText : front.flatMap (·.text) = text := by
    rw [hrowv, List.reverse_reverse, Node.textAll_append] at hfront
    rw [← List.append_cancel_left hfront, ← htext]
    exact List.append_nil _
  obtain ⟨hcut, hbehind⟩ := Token.ofText_eq_of_append htokens hfrontText (by
    rintro c hc
    obtain rfl : ')' = c := Option.some.inj hc
    rfl)
  have hpending : v.pending = 0 := by
    rw [← hv.sane.length_loose, hloose]
    rfl
  refine ⟨n, v, x, hexpression, hv, hrowv, hpending, ?_, hcondition, htext, ?_, ?_⟩
  · exact (hwhole.of_mem_children (hstatement ▸ by simp [Node.children])).2
  · rw [hcut]
    exact htokens
  · exact hbehind.symm.trans ofText_emptyBody

end IsCondition

end StatementCompletion
