import StatementCompletion.Proofs.Grammar.Agreement.Sources
import StatementCompletion.Proofs.Grammar.Binding.Expressions

/-!
# What joins the row in one piece

Whatever an expression, a parameter or a statement is made of, one node joins the row for it: the
rule takes the current token in, goes on above the marker that it has set there, and ends by
wrapping from there on.  So no parenthesis of theirs stands in the row as it is.  That is what
`Conceals` says of a parser, and what the parenthesis that closes a header is found by.

Both judgements are of one run, so the two sides of a step are the same.
-/

namespace StatementCompletion.Grammar

variable {α β : Type} {wanted : Kind → Prop} {holds : Node → Prop} {kind : Kind}
    {inner : Inner} {m : Nat}
  {p : Parser α} {g : α → Parser β} {s t u v : State}

/-! ## One node -/

/-- From the end of the row on, one node that has a property joins it. -/
abbrev JoinsFrom (wanted : Kind → Prop) (m : Nat) (holds : Node → Prop) (p : Parser α) : Prop :=
  InStep wanted (fun s s' => s' = s ∧ m = s.marker) (fun s _ t _ => s.Joined t holds) p p

/-- One node that has a property joins the row. -/
abbrev Joins (wanted : Kind → Prop) (holds : Node → Prop) (p : Parser α) : Prop :=
  InStep wanted (fun s s' => s' = s) (fun s _ t _ => s.Joined t holds) p p

/-- A branch of a construct. -/
abbrev IsConstruct (node : Node) : Prop :=
  node.kind.isConstruct = true

theorem Joins.joined {a : α} (h : Joins wanted holds p) (hs : Alike s s) (hkind : wanted s.current)
    (hrun : p.run s = some (a, t)) : s.Joined t holds :=
  (h s s hs hkind rfl a t a t hrun hrun).2

theorem JoinsFrom.marker_bind {f : Nat → Parser α} (hf : ∀ m, JoinsFrom wanted m holds (f m)) :
    Joins wanted holds (marker >>= f) := by
  rintro s _ halike hkind rfl
  exact hf _ _ _ halike hkind ⟨rfl, rfl⟩

/-- What takes the current token in and ends by wrapping from there on adds
the branch that it makes. -/
theorem OpensAt.joinsFrom (hp : OpensAt wanted p p) (hg : ∀ a, Closes m Kind.isConstruct (g a)) :
    JoinsFrom wanted m IsConstruct (p >>= g) := by
  rintro s _ halike hkind ⟨rfl, rfl⟩ b t b' t' hrun hrun'
  obtain ⟨rfl, rfl⟩ := Prod.mk.inj (Option.some.inj (hrun.symm.trans hrun'))
  exact ⟨rfl, (joined_of_closes wanted halike hkind hp hg hrun).mono fun _ hnode => hnode.1⟩

/-- A branch takes the place of the node that has joined the row. -/
theorem Closes.rejoins {is : Kind → Bool} {a : α} (hp : Closes s.marker is p) (hu : Alike u u)
    (hjoined : s.Joined u holds) (hrun : p.run u = some (a, v)) :
    s.Joined v fun node => is node.kind = true := by
  obtain ⟨node, -, hfirm⟩ := hjoined
  have hmarker : s.marker = s.built.reverse.length := List.length_reverse.symm
  have hle : s.marker ≤ u.firm.length := by
    rw [hfirm, List.length_append, hmarker]
    exact Nat.le_add_right _ _
  obtain ⟨kind, children, his, hrow⟩ := hp u hu hle _ _ hrun
  exact ⟨.branch kind children, his, by rw [hrow, hfirm, hmarker, List.take_left]⟩

/-! ## Expressions -/

/-- What is found behind an operand takes it in, or leaves it as it is. -/
theorem joined_behind {q : Parser Bool} {rest : Nat → Parser Unit} (hs : Alike s s)
    (hq : Agrees .any s.marker s.marker q q)
    (hjoined : ∀ {u}, q.run s = some (true, u) → s.Joined u holds)
    (hrest : ∀ {u v a}, Alike u u → s.marker ≤ u.marker → s.Joined u holds →
      (rest s.marker).run u = some (a, v) → s.Joined v holds)
    (hrun : (do
      let opening ← marker
      if ← q then
        rest opening
        return true
      else
        return false : Parser Bool).run s = some (true, t)) : s.Joined t holds := by
  obtain ⟨_, _, hmarker, hrun⟩ := run_bind_eq_some.1 hrun
  obtain ⟨rfl, rfl⟩ := Prod.mk.inj (Option.some.inj hmarker)
  obtain ⟨there, u, hfirst, hrun⟩ := run_bind_eq_some.1 hrun
  cases there with
  | false => cases (run_pure_eq_some.1 hrun).1
  | true =>
    obtain ⟨_, v, hbehind, hanswer⟩ := run_bind_eq_some.1 hrun
    obtain ⟨-, rfl⟩ := run_pure_eq_some.1 hanswer
    have hu := hq s s hs trivial ⟨hs.level, trivial⟩ _ _ _ _ hfirst hfirst
    exact hrest hu.2.alike (hu.2.evolves.floor_le_marker hs.sane le_rfl) (hjoined hfirst) hbehind

section

variable (h : inner.Agree inner)

include h

theorem operatorStep_closes {least : Nat} (hs : Alike s s) (hm : m ≤ s.firm.length)
    (hrun : (operatorStep inner least m).run s = some (true, t)) :
    ∃ node : Node, node.kind.isOperand = true ∧ t.firm = s.firm.take m ++ [node] := by
  obtain ⟨_, _, hcurrent, hrun⟩ := run_bind_eq_some.1 hrun
  obtain ⟨rfl, rfl⟩ := Prod.mk.inj (Option.some.inj hcurrent)
  have hclose {q : Parser Bool} {missed : Wanted} {kind : Kind} (hq : Agrees .any m m q q)
      (hkind : kind.isOperand = true)
      (hrun : (do take; orMissing q missed; wrap m kind; return true : Parser Bool).run s =
        some (true, t)) :
      ∃ node : Node, node.kind.isOperand = true ∧ t.firm = s.firm.take m ++ [node] := by
    have hcloses : Closes m Kind.isOperand
        (do take; orMissing q missed; wrap m kind; return true : Parser Bool) :=
      .bind take_agrees fun _ => .bind (orMissing_agrees hq) fun _ => (Closes.wrap hkind).answer
    obtain ⟨kind, children, hkind, hfirm⟩ := hcloses s hs hm _ _ hrun
    exact ⟨.branch kind children, hkind, hfirm⟩
  split at hrun
  · cases (run_pure_eq_some.1 hrun).1
  · split_ifs at hrun
    · cases (run_pure_eq_some.1 hrun).1
    · exact hclose (typeReference_phrases h).agrees rfl hrun
    · exact hclose h.operation.agrees rfl hrun

theorem operation_joined {least : Nat} (hs : Alike s s)
    (hrun : (operation inner least).run s = some (true, t)) :
    s.Joined t (·.kind.isOperand = true) := by
  refine joined_behind hs (unary_phrases h).agrees (fun hrun => ?_)
    (fun hu hm hjoined hloop => ?_) hrun
  · exact (unary_joined h hs hrun).mono fun _ hnode => hnode.operand.kind
  · refine @loop_ends _ _ _ (fun u =>
      Alike u u ∧ s.marker ≤ u.marker ∧ s.Joined u (·.kind.isOperand = true))
      (s.Joined · (·.kind.isOperand = true)) ?_ ?_ ⟨hu, hm, hjoined⟩ hloop
    · rintro u v ⟨hu, hm, node, hnode, hfirm⟩ hstep
      have hmarker : s.marker = s.built.reverse.length := List.length_reverse.symm
      have hle : s.marker ≤ u.firm.length := by
        rw [hfirm, List.length_append, hmarker]
        exact Nat.le_add_right _ _
      have hagrees : Agrees .any s.marker s.marker _ _ := operatorStep_agrees h least
      obtain ⟨-, hagrees⟩ := hagrees u u hu trivial ⟨⟨hm, hm, rfl⟩, trivial⟩ _ _ _ _ hstep hstep
      obtain ⟨node', hnode', hfirm'⟩ := operatorStep_closes h hu hle hstep
      refine ⟨hagrees.alike, hagrees.evolves.floor_le_marker hu.sane hm, node', hnode', ?_⟩
      rw [hfirm', hfirm, hmarker, List.take_left]
    · rintro u v ⟨-, -, hjoined⟩ hstep
      rwa [(operatorStep_stops hstep).1]

theorem choices_closes : Closes m Kind.isOperand (choices inner m) := by
  refine .bind (orMissing_agrees h.expression.agrees) fun _ =>
    .bind expect_agrees.discard fun _ => ?_
  exact .bind (orMissing_agrees h.conditional.agrees) fun _ => .wrap rfl

theorem conditional_joined (hs : Alike s s) (hrun : (conditional inner).run s = some (true, t)) :
    s.Joined t (·.kind.isOperand = true) := by
  refine joined_behind hs (operation_phrases h 0).agrees (operation_joined h hs)
    (fun {u v _} hu _ hjoined hrest => ?_) hrun
  obtain ⟨there, w, htaken, hrest⟩ := run_bind_eq_some.1 hrest
  by_cases hkind : u.current = .question
  · have hclosed : Closes s.marker Kind.isOperand (do take; choices inner s.marker) :=
      .bind take_agrees fun _ => choices_closes h
    have hask : (takeIf .question).run u = (do take; return true : Parser Bool).run u := by
      show StateT.run (if decide (u.current = .question) then _ else _ : Parser Bool) u = _
      rw [decide_eq_true hkind]
      rfl
    rw [hask] at htaken
    obtain ⟨rfl, rfl⟩ := Prod.mk.inj (Option.some.inj htaken)
    exact hclosed.rejoins hu hjoined (run_bind_eq_some.2 ⟨_, _, rfl, hrest⟩)
  · have hask : (takeIf .question).run u = some (false, u) := by
      show StateT.run (if decide (u.current = .question) then _ else _ : Parser Bool) u = _
      rw [decide_eq_false hkind]
      rfl
    rw [hask] at htaken
    obtain ⟨rfl, rfl⟩ := Prod.mk.inj (Option.some.inj htaken)
    obtain ⟨-, rfl⟩ := run_pure_eq_some.1 hrest
    exact hjoined

theorem assignmentRest_joined (hu : Alike u u)
    (hjoined : s.Joined u (·.kind.isOperand = true)) {a : Unit}
    (hrun : (assignmentRest inner s.marker).run u = some (a, v)) :
    s.Joined v (·.kind.isOperand = true) := by
  have hclosed : Closes s.marker Kind.isOperand
      (do take; assignedValue inner; wrap s.marker .assignment) :=
    .bind take_agrees fun _ => .bind (assignedValue_agrees h) fun _ => .wrap rfl
  obtain ⟨simple, _, hsimple, hrun⟩ := run_bind_eq_some.1 hrun
  obtain ⟨rfl, rfl⟩ := Prod.mk.inj (Option.some.inj hsimple)
  obtain ⟨compound, _, hcompound, hrun⟩ := run_bind_eq_some.1 hrun
  obtain ⟨rfl, rfl⟩ := Prod.mk.inj (Option.some.inj hcompound)
  split at hrun
  · exact hclosed.rejoins hu hjoined hrun
  · rwa [(run_pure_eq_some.1 hrun).2]

/-- An expression is one node. -/
theorem expression_joined (hs : Alike s s) (hrun : (expression inner).run s = some (true, t)) :
    s.Joined t (·.kind.isOperand = true) :=
  joined_behind hs (conditional_phrases h).agrees (conditional_joined h hs)
    (fun hu _ hjoined hrest => assignmentRest_joined h hu hjoined hrest) hrun

/-! ## Parameters -/

omit h in
theorem startsType_of_startsParameter {kind : Kind} (h : startsParameter kind = true)
    (hnot : startsModifier kind = false) : startsType kind = true := by
  revert h hnot
  cases kind <;> decide

theorem parameterRest_opens :
    OpensAt (startsType · = true) (parameterRest inner) (parameterRest inner) := by
  refine (typeReference_phrases h).opens.bind fun there _ _ => ?_
  cases there with
  | true =>
    refine (loop_agrees (alternativeType_agrees h)).bind fun _ =>
      (loop_agrees takeIf_agrees).bind fun _ => ?_
    exact expect_agrees.discard.bind fun _ => loop_agrees dimension_agrees
  | false => exact missing_agrees _

theorem parameter_joined (hs : Alike s s) (hrun : (parameter inner).run s = some (true, t)) :
    s.Joined t IsConstruct := by
  obtain ⟨there, _, hasked, hrun⟩ := run_bind_eq_some.1 hrun
  obtain ⟨rfl, rfl⟩ := Prod.mk.inj (Option.some.inj hasked)
  split at hrun
  · next hstarts =>
    obtain ⟨_, _, hmarker, hrun⟩ := run_bind_eq_some.1 hrun
    obtain ⟨rfl, rfl⟩ := Prod.mk.inj (Option.some.inj hmarker)
    have hwrap : Closes s.marker Kind.isConstruct (do wrap s.marker .parameter; return true) :=
      (Closes.wrap rfl).answer
    cases hmodified : startsModifier s.current with
    | true =>
      have hjoins := (modifiers_opens h).joinsFrom fun _ =>
        .bind (parameterRest_agrees h) fun _ => hwrap
      exact (hjoins s s hs hmodified ⟨rfl, rfl⟩ _ _ _ _ hrun hrun).2
    | false =>
      have htype := startsType_of_startsParameter hstarts hmodified
      obtain ⟨_, u, hmodifiers, hrun⟩ := run_bind_eq_some.1 hrun
      obtain rfl := modifiers_of_not hmodified hmodifiers
      have hjoins := (parameterRest_opens h).joinsFrom fun _ => hwrap
      exact (hjoins u u hs htype ⟨rfl, rfl⟩ _ _ _ _ hrun hrun).2
  · cases (run_pure_eq_some.1 hrun).1

/-! ## Declarations -/

theorem variableNames_closes : Closes m Kind.isConstruct (do
    discard (expect .identifier)
    variableRest inner
    wrap m .localVariable
    loop (nextVariable inner)
    discard (expect .semicolon)
    wrap m .declarationStatement) := by
  refine .bind expect_agrees.discard fun _ => .bind (variableRest_agrees h) fun _ => ?_
  refine .bind (wrap_agrees _ rfl) fun _ => .bind (loop_agrees (nextVariable_agrees h)) fun _ => ?_
  exact .bind expect_agrees.discard fun _ => .wrap rfl

theorem variableDeclaration_closes : Closes m Kind.isConstruct (variableDeclaration inner m) :=
  .bind (orMissing_agrees (typeReference_phrases h).agrees) fun _ => variableNames_closes h

theorem variableDeclaration_joins :
    JoinsFrom (startsType · = true) m IsConstruct (variableDeclaration inner m) :=
  (orMissing_opens (typeReference_phrases h).opens).joinsFrom fun _ => variableNames_closes h

theorem classRest_closes (isEnum : Bool) : Closes m Kind.isConstruct (do
    discard (expect .identifier)
    whenAt .less (discard (typeArguments inner))
    typesBehind inner .extendsKeyword
    typesBehind inner .implementsKeyword
    classBody inner isEnum
    wrap m .classDeclaration) := by
  refine .bind expect_agrees.discard fun _ => ?_
  refine .bind (whenAt_agrees (typeArguments_opens h).discard.agreesAt) fun _ => ?_
  refine .bind (typesBehind_agrees h _) fun _ => .bind (typesBehind_agrees h _) fun _ => ?_
  exact .bind (classBody_agrees h isEnum) fun _ => .wrap rfl

theorem classDeclaration_joins :
    JoinsFrom (startsClass · = true) m IsConstruct (classDeclaration inner m) :=
  (isAt_reads_in_step _).bind fun isEnum =>
    (take_opens (by rintro kind hkind rfl; cases hkind)).joinsFrom fun _ =>
      classRest_closes h isEnum

theorem modifiedStatement_joins :
    JoinsFrom (startsModifier · = true) m IsConstruct (modifiedStatement inner m) := by
  refine (modifiers_opens h).joinsFrom fun _ => ?_
  refine .bind (isAtAny_reads_in_step _).agreesAt fun isClass => ?_
  cases isClass with
  | true =>
    refine .bind (isAt_reads_in_step _).agreesAt fun isEnum => .bind take_agrees fun _ => ?_
    exact classRest_closes h isEnum
  | false => exact variableDeclaration_closes h

/-! ## Statements -/

theorem forStatement_joins : JoinsFrom (· = .forKeyword) m IsConstruct (forStatement inner m) := by
  refine (take_opens (by rintro _ rfl; decide)).joinsFrom fun _ =>
    .bind takeIf_agrees fun taken => ?_
  cases taken with
  | true =>
    refine .bind (isElementLoop_reads_in_step h).agreesAt fun elements => ?_
    cases elements with
    | true =>
      refine .bind (parameter_agrees h).discard fun _ => .bind take_agrees fun _ => ?_
      refine .bind (orMissing_agrees (expression_phrases h).agrees) fun _ => ?_
      exact .bind expect_agrees.discard fun _ => .bind (body_agrees h) fun _ => .wrap rfl
    | false =>
      refine .bind (forInitializer_agrees h) fun _ => ?_
      refine .bind (whenAtAny_agrees (expression_phrases h).agrees.discard.at) fun _ => ?_
      refine .bind expect_agrees.discard fun _ => .bind (forUpdate_agrees h) fun _ => ?_
      exact .bind expect_agrees.discard fun _ => .bind (body_agrees h) fun _ => .wrap rfl
  | false => exact .bind (missing_agrees _) fun _ => .wrap rfl

theorem plainStatement_joins :
    JoinsFrom (startsExpression · = true) m IsConstruct (plainStatement inner m) := by
  refine InStep.isVariableDeclaration_bind h (variableDeclaration_joins h) ?_
  refine InStep.isAtAny_cases ?_ ?_
  · refine (expression_phrases h).opens.discard.joinsFrom fun _ => ?_
    exact .bind expect_agrees.discard fun _ => .wrap rfl
  · rintro s _ _ ⟨hstarts, hnot⟩
    exact absurd (hnot.symm.trans hstarts) Bool.false_ne_true

theorem statement_joins : Joins (startsStatement · = true) IsConstruct (statement inner) := by
  have htoken {kind : Kind} (hkind : kind ≠ .endOfFile) : OpensAt (· = kind) take take :=
    take_opens (by rintro _ rfl; exact hkind)
  -- a case for each kind of token that tells a statement, and the last one for what tells none
  refine JoinsFrom.marker_bind fun m => InStep.current_bind fun kind hstarts => ?_
  split
  · exact (codeBlock_opens h).joinsFrom fun _ => .wrap rfl
  · refine (htoken (by decide)).joinsFrom fun _ => .bind (condition_agrees h) fun _ => ?_
    exact .bind (body_agrees h) fun _ => .bind (whenTaken_agrees (body_agrees h)) fun _ => .wrap rfl
  · refine (htoken (by decide)).joinsFrom fun _ => .bind (condition_agrees h) fun _ => ?_
    exact .bind (body_agrees h) fun _ => .wrap rfl
  · refine (htoken (by decide)).joinsFrom fun _ => .bind (body_agrees h) fun _ => ?_
    exact .bind (doWhileCondition_agrees h) fun _ => .bind expect_agrees.discard fun _ => .wrap rfl
  · exact forStatement_joins h
  · refine (htoken (by decide)).joinsFrom fun _ => .bind (condition_agrees h) fun _ => ?_
    exact .bind (requiredBlock_agrees h _) fun _ => .wrap rfl
  · cases hstarts
  · cases hstarts
  · refine (htoken (by decide)).joinsFrom fun _ =>
      .bind (whenTaken_agrees (resources_agrees h)) fun _ => ?_
    refine .bind (requiredBlock_agrees h _) fun _ =>
      .bind (loop_agrees (catchSection_agrees h)) fun _ => ?_
    exact .bind (whenTaken_agrees (requiredBlock_agrees h _)) fun _ => .wrap rfl
  · refine (htoken (by decide)).joinsFrom fun _ => ?_
    refine .bind (whenAtAny_agrees (expression_phrases h).agrees.discard.at) fun _ => ?_
    exact .bind expect_agrees.discard fun _ => .wrap rfl
  · refine (htoken (by decide)).joinsFrom fun _ => ?_
    refine .bind (whenAtAny_agrees (expression_phrases h).agrees.discard.at) fun _ => ?_
    exact .bind expect_agrees.discard fun _ => .wrap rfl
  · refine (htoken (by decide)).joinsFrom fun _ => .bind takeIf_agrees.discard fun _ => ?_
    exact .bind expect_agrees.discard fun _ => .wrap rfl
  · refine (htoken (by decide)).joinsFrom fun _ => .bind takeIf_agrees.discard fun _ => ?_
    exact .bind expect_agrees.discard fun _ => .wrap rfl
  · exact (htoken (by decide)).joinsFrom fun _ => .wrap rfl
  · exact (classDeclaration_joins h).mono (by rintro _ rfl; rfl)
  · exact (classDeclaration_joins h).mono (by rintro _ rfl; rfl)
  · exact (classDeclaration_joins h).mono (by rintro _ rfl; rfl)
  · refine peek_reads_in_step.bind fun next => ?_
    split_ifs
    · refine (htoken (by decide)).joinsFrom fun _ => .bind (condition_agrees h) fun _ => ?_
      exact .bind (requiredBlock_agrees h _) fun _ => .wrap rfl
    · exact (modifiedStatement_joins h).mono (by rintro _ rfl; rfl)
  · exact (modifiedStatement_joins h).mono (by rintro _ rfl; rfl)
  · exact (modifiedStatement_joins h).mono (by rintro _ rfl; rfl)
  · refine (plainStatement_joins h).mono ?_
    rintro kind rfl
    cases kind <;> first | rfl | contradiction

end

/-! ## No parenthesis as it is -/

/-- What has joined the row on top is no closing parenthesis. -/
def State.Covered (s t : State) : Prop :=
  ∃ nodes, t.firm = s.firm ++ nodes ∧ ∀ node ∈ nodes, node.kind ≠ .rightParen

/-- What a parser adds to the row is no closing parenthesis. -/
abbrev Conceals (wanted : Kind → Prop) (p : Parser α) : Prop :=
  InStep wanted (fun s s' => s' = s) (fun s _ t t' => t' = t ∧ Alike t t ∧ s.Covered t) p p

theorem State.Covered.refl (s : State) : s.Covered s :=
  ⟨[], (List.append_nil _).symm, fun _ hnode => absurd hnode List.not_mem_nil⟩

theorem State.Covered.trans (hst : s.Covered t) (htu : t.Covered u) : s.Covered u := by
  obtain ⟨nodes, hfirm, hnodes⟩ := hst
  obtain ⟨more, hfirm', hmore⟩ := htu
  refine ⟨nodes ++ more, by rw [hfirm', hfirm, List.append_assoc], ?_⟩
  exact List.forall_mem_append.2 ⟨hnodes, hmore⟩

/-- White space and comments are no parenthesis. -/
theorem State.Joined.covered (h : s.Joined t holds) (hs : s.Sane)
    (hholds : ∀ node, holds node → node.kind ≠ .rightParen) : s.Covered t := by
  obtain ⟨node, hnode, hfirm⟩ := h
  refine ⟨s.loose ++ [node], by rw [hfirm, ← State.firm_append_loose, List.append_assoc], ?_⟩
  refine List.forall_mem_append.2 ⟨fun node hmem hkind => ?_,
    List.forall_mem_singleton.2 (hholds node hnode)⟩
  have htrivia := (hs.loose node hmem).2.1
  rw [hkind] at htrivia
  cases htrivia

theorem ne_rightParen_of_isOperand {node : Node} (h : node.kind.isOperand = true) :
    node.kind ≠ .rightParen := by
  intro hkind
  rw [hkind] at h
  cases h

theorem ne_rightParen_of_isConstruct {node : Node} (h : IsConstruct node) :
    node.kind ≠ .rightParen := by
  intro hkind
  rw [IsConstruct, hkind] at h
  cases h

theorem covered_take (hs : s.Sane) (hkind : s.current ≠ .rightParen) :
    s.Covered (s.take Token.node) := by
  cases htoken : s.token? with
  | none => rw [State.take_of_none htoken]; exact .refl s
  | some token =>
    rw [State.current, htoken] at hkind
    have hnode : token.node.kind ≠ .rightParen := by rwa [Token.kind_node]
    have hjoined : s.Joined (s.take Token.node) (·.kind ≠ .rightParen) :=
      ⟨token.node, hnode, by rw [State.firm_take htoken, State.firm_append_loose]⟩
    exact hjoined.covered hs fun _ => id

theorem covered_markMissing (hs : s.Sane) (missed : Wanted) : s.Covered (s.markMissing missed) := by
  rcases hs.firm_markMissing missed with heq | heq
  · exact ⟨[], by rw [heq, List.append_nil], fun _ hnode => absurd hnode List.not_mem_nil⟩
  · exact ⟨_, heq, List.forall_mem_singleton.2 fun hkind => by cases hkind⟩

namespace Conceals

variable {q r : Parser β}

theorem covered {a : α} (h : Conceals wanted p) (hs : Alike s s) (hkind : wanted s.current)
    (hrun : p.run s = some (a, t)) : Alike t t ∧ s.Covered t :=
  (h s s hs hkind rfl a t a t hrun hrun).2.2

theorem of_run (hagrees : AgreesAt wanted .any 0 0 p p)
    (hcovered : ∀ {s t : State} {a : α}, Alike s s → wanted s.current → p.run s = some (a, t) →
      s.Covered t) :
    Conceals wanted p := by
  rintro _ s halike hkind rfl a t a' t' hrun hrun'
  obtain ⟨rfl, rfl⟩ := Prod.mk.inj (Option.some.inj (hrun.symm.trans hrun'))
  have hlevel : Level 0 0 s s := ⟨Nat.zero_le _, Nat.zero_le _, rfl⟩
  obtain ⟨-, ht⟩ := hagrees s s halike hkind ⟨hlevel, trivial⟩ _ _ _ _ hrun hrun'
  exact ⟨rfl, rfl, ht.alike, hcovered halike hkind hrun⟩

theorem bind (hp : Conceals wanted p) (hg : ∀ a, Conceals anywhere (g a)) :
    Conceals wanted (p >>= g) := by
  refine InStep.seq hp (fun _ _ hs ht => ?_) hg
  obtain ⟨rfl, halike, hcovered⟩ := ht
  exact ⟨halike, trivial, rfl, fun hu => ⟨hu.1, hu.2.1, hcovered.trans hu.2.2⟩⟩

theorem «at» (hp : Conceals anywhere p) : Conceals wanted p :=
  hp.mono fun _ _ => trivial

theorem ite {p : Parser Bool} (hp : Conceals wanted p) (hq : Conceals anywhere q)
    (hr : Conceals anywhere r) : Conceals wanted (do if ← p then q else r) := by
  refine hp.bind fun a => ?_
  cases a with
  | true => exact hq
  | false => exact hr

theorem pure (a : α) : Conceals wanted (pure a) :=
  of_run (AgreesAt.pure a) fun _ _ hrun => by
    rw [(run_pure_eq_some.1 hrun).2]
    exact .refl _

theorem take (hwanted : ∀ kind, wanted kind → kind ≠ .rightParen) : Conceals wanted take :=
  of_run take_agrees.at fun hs hkind hrun => by
    obtain ⟨-, rfl⟩ := Prod.mk.inj (Option.some.inj hrun)
    exact covered_take hs.sane (hwanted _ hkind)

theorem missing (missed : Wanted) : Conceals wanted (missing missed) :=
  of_run (missing_agrees missed).at fun hs _ hrun => by
    obtain ⟨-, rfl⟩ := Prod.mk.inj (Option.some.inj hrun)
    exact covered_markMissing hs.sane missed

theorem takeIf (hkind : kind ≠ .rightParen) : Conceals wanted (takeIf kind) := by
  refine InStep.isAt_ite ?_ (pure false)
  exact (take (by rintro _ rfl; exact hkind)).bind fun _ => pure true

theorem expect (hkind : kind ≠ .rightParen) : Conceals wanted (expect kind) := by
  refine InStep.isAt_ite ?_ ((missing _).bind fun _ => pure false)
  exact (take (by rintro _ rfl; exact hkind)).bind fun _ => pure true

theorem discard (hp : Conceals wanted p) : Conceals wanted (discard p) :=
  InStep.discard hp

theorem orMissing {p : Parser Bool} (missed : Wanted) (hp : Conceals wanted p) :
    Conceals wanted (orMissing p missed) := by
  refine hp.bind fun a => ?_
  cases a with
  | true => exact pure ()
  | false => exact missing missed

theorem whenAtAny {is : Kind → Bool} {p : Parser Unit} (hp : Conceals anywhere p) :
    Conceals wanted (whenAtAny is p) :=
  InStep.isAtAny_ite hp.at (pure ())

theorem whenTaken {p : Parser Unit} (hkind : kind ≠ .rightParen) (hp : Conceals anywhere p) :
    Conceals wanted (whenTaken kind p) :=
  (takeIf hkind).ite hp (pure ())

/-- What finds one node or leaves the state as it is. -/
theorem of_joined {p : Parser Bool} (hagrees : Agrees .any 0 0 p p)
    (hyes : ∀ {s t}, Alike s s → p.run s = some (true, t) → s.Joined t holds)
    (hno : ∀ {s t}, p.run s = some (false, t) → t = s)
    (hholds : ∀ node, holds node → node.kind ≠ .rightParen) : Conceals wanted p :=
  of_run hagrees.at fun {s t a} hs _ hrun => by
    cases a with
    | true => exact (hyes hs hrun).covered hs.sane hholds
    | false => rw [hno hrun]; exact .refl s

end Conceals

section

variable (h : inner.Agree inner)

include h

theorem expression_conceals : Conceals wanted (expression inner) :=
  .of_joined (expression_phrases h).agrees (expression_joined h) expression_phrase.leaves
    fun _ => ne_rightParen_of_isOperand

theorem parameter_conceals : Conceals wanted (parameter inner) := by
  refine .of_joined (parameter_agrees h) (parameter_joined h) (fun {s t} hrun => ?_)
    fun _ => ne_rightParen_of_isConstruct
  obtain ⟨there, _, hasked, hrun⟩ := run_bind_eq_some.1 hrun
  obtain ⟨rfl, rfl⟩ := Prod.mk.inj (Option.some.inj hasked)
  split at hrun
  · exact absurd
      (AnswersYes.bind (fun _ => .bind fun _ => .bind fun _ => .bind fun _ => .pure) _ _ _ hrun)
      Bool.false_ne_true
  · exact (run_pure_eq_some.1 hrun).2

theorem body_conceals
    (hstatement : Joins (startsStatement · = true) IsConstruct (inner .statement)) :
    Conceals wanted (body inner) := by
  have hjoined : Conceals (startsStatement · = true) (discard (inner .statement)) :=
    .of_run h.statement.discard.at fun hs hkind hrun => by
      obtain ⟨_, hrun⟩ := run_discard_eq_some.1 hrun
      exact (hstatement.joined hs hkind hrun).covered hs.sane fun _ => ne_rightParen_of_isConstruct
  exact InStep.isAtAny_ite hjoined (Conceals.missing _)

theorem variableDeclaration_modified_joined (hs : Alike s s)
    (hstarts : s.current = .modifier ∨ startsType s.current = true) {a : Unit}
    (hrun : (do modifiers inner; variableDeclaration inner s.marker : Parser Unit).run s =
      some (a, t)) :
    s.Joined t IsConstruct := by
  rcases hstarts with hkind | htype
  · have hjoins : JoinsFrom (startsModifier · = true) s.marker IsConstruct
        (do modifiers inner; variableDeclaration inner s.marker) :=
      (modifiers_opens h).joinsFrom fun _ => variableDeclaration_closes h
    exact (hjoins s s hs (by rw [hkind]; rfl) ⟨rfl, rfl⟩ _ _ _ _ hrun hrun).2
  · have hnot : startsModifier s.current = false := by
      revert htype
      cases s.current <;> decide
    obtain ⟨_, u, hmodifiers, hrun⟩ := run_bind_eq_some.1 hrun
    obtain rfl := modifiers_of_not hnot hmodifiers
    exact (variableDeclaration_joins h u u hs htype ⟨rfl, rfl⟩ _ _ _ _ hrun hrun).2

/-- The declaration in the header of a counting loop is one node. -/
theorem forInitializer_conceals : Conceals wanted (forInitializer inner) := by
  refine .of_run (AgreesAt.at (forInitializer_agrees h)) fun {s t a} hs _ hrun => ?_
  have hcovered (hjoined : s.Joined t IsConstruct) : s.Covered t :=
    hjoined.covered hs.sane fun _ => ne_rightParen_of_isConstruct
  obtain ⟨_, _, hmarker, hrun⟩ := run_bind_eq_some.1 hrun
  obtain ⟨rfl, rfl⟩ := Prod.mk.inj (Option.some.inj hmarker)
  obtain ⟨_, _, hsemicolon, hrun⟩ := run_bind_eq_some.1 hrun
  obtain ⟨rfl, rfl⟩ := Prod.mk.inj (Option.some.inj hsemicolon)
  -- an empty statement, a declaration, an expression, or a mark where all of them are missing
  split at hrun
  · next hkind =>
    have hjoins : JoinsFrom (· = .semicolon) s.marker IsConstruct
        (do take; wrap s.marker .emptyStatement) :=
      (take_opens (by rintro _ rfl; decide)).joinsFrom fun _ => .wrap rfl
    exact hcovered (hjoins s s hs (of_decide_eq_true hkind) ⟨rfl, rfl⟩ _ _ _ _ hrun hrun).2
  obtain ⟨_, _, hmodifier, hrun⟩ := run_bind_eq_some.1 hrun
  obtain ⟨rfl, rfl⟩ := Prod.mk.inj (Option.some.inj hmodifier)
  obtain ⟨declared, u, hlook, hrun⟩ := run_bind_eq_some.1 hrun
  have hreads : ReadsAt anywhere _ _ := isVariableDeclaration_reads_in_step h
  obtain ⟨-, rfl, -⟩ := hreads s s hs trivial trivial _ _ _ _ hlook hlook
  split at hrun
  · next hdeclared =>
    refine hcovered (variableDeclaration_modified_joined h hs ?_ hrun)
    rcases Bool.or_eq_true_iff.1 hdeclared with hkind | rfl
    · exact .inl (of_decide_eq_true hkind)
    · exact .inr (startsType_of_isVariableDeclaration hlook)
  obtain ⟨_, _, hexpression, hrun⟩ := run_bind_eq_some.1 hrun
  obtain ⟨rfl, rfl⟩ := Prod.mk.inj (Option.some.inj hexpression)
  split at hrun
  · next hstarts =>
    have hjoins : JoinsFrom (startsExpression · = true) u.marker IsConstruct (do
        discard (expression inner)
        loop (nextExpression inner)
        discard (expect .semicolon)
        wrap u.marker .expressionStatement) :=
      (expression_phrases h).opens.discard.joinsFrom fun _ =>
        .bind (loop_agrees (nextExpression_agrees h))
        fun _ => .bind expect_agrees.discard fun _ => .wrap rfl
    exact hcovered (hjoins u u hs hstarts ⟨rfl, rfl⟩ _ _ _ _ hrun hrun).2
  · obtain ⟨-, rfl⟩ := Prod.mk.inj (Option.some.inj hrun)
    exact covered_markMissing hs.sane _

theorem forUpdate_conceals : Conceals wanted (forUpdate inner) := by
  have hjoins (m : Nat) : JoinsFrom (startsExpression · = true) m IsConstruct (do
      discard (expression inner)
      loop (nextExpression inner)
      wrap m .expressionStatement) :=
    (expression_phrases h).opens.discard.joinsFrom fun _ =>
      .bind (loop_agrees (nextExpression_agrees h)) fun _ => .wrap rfl
  refine .of_run (AgreesAt.at (forUpdate_agrees h)) fun {s t a} hs _ hrun => ?_
  obtain ⟨_, _, hasked, hrun⟩ := run_bind_eq_some.1 hrun
  obtain ⟨rfl, rfl⟩ := Prod.mk.inj (Option.some.inj hasked)
  split at hrun
  · next hstarts =>
    exact ((JoinsFrom.marker_bind hjoins).joined hs hstarts hrun).covered hs.sane
      fun _ => ne_rightParen_of_isConstruct
  · rw [(run_pure_eq_some.1 hrun).2]
    exact .refl s

end

/-- A statement inside is one node, whatever the depth to which the rules are nested. -/
theorem parseTo_statement_joins (depth : Nat) :
    Joins (startsStatement · = true) IsConstruct (parseTo depth .statement) := by
  cases depth with
  | zero => exact .of_failure_left
  | succ depth =>
    rintro s _ hs hkind rfl a t a' t' hrun hrun'
    obtain ⟨rfl, rfl⟩ := Prod.mk.inj (Option.some.inj (hrun.symm.trans hrun'))
    obtain ⟨_, u, hstatement, hanswer⟩ := run_bind_eq_some.1 hrun
    obtain ⟨-, rfl⟩ := run_pure_eq_some.1 hanswer
    exact ⟨rfl, (statement_joins (parseTo_agree depth depth)).joined hs hkind hstatement⟩

end StatementCompletion.Grammar
