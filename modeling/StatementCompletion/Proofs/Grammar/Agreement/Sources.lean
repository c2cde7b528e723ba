import StatementCompletion.Grammar.Source
import StatementCompletion.Proofs.Grammar.Agreement.Members
import StatementCompletion.Proofs.Grammar.Lossless

/-!
# Whole sources in step

The grammar is run on two rows of tokens that differ in white space only, and comes to rows of nodes
with one core.  So other white space between the tokens of a text gives a tree with the same core,
which is what `Node.coreAll_children_ofText` says.
-/

namespace StatementCompletion

namespace Grammar

variable {wanted : Kind → Prop} {foot : Footing} {f f' m m' : Nat} {inner inner' : Inner}

/-! ## Statements -/

theorem modifiedStatement_agrees (h : inner.Agree inner') :
    AgreesAt (startsModifier · = true) .ready m m' (modifiedStatement inner m)
      (modifiedStatement inner' m') := by
  refine (modifiers_opens h).bindReady fun _ => ?_
  exact InStep.isAtAny_ite (classDeclaration_agrees h).ready_begun (variableDeclaration_agrees h)

theorem plainStatement_agrees (h : inner.Agree inner') :
    AgreesAt wanted .ready m m' (plainStatement inner m) (plainStatement inner' m') := by
  refine InStep.isVariableDeclaration_bind h (variableDeclaration_agreesAt h) ?_
  exact InStep.isAtAny_ite (expressionStatement_agrees h) takeUnexpected_agrees.at

theorem statement_agrees (h : inner.Agree inner') :
    Agrees foot f f' (statement inner) (statement inner') := by
  refine AgreesAt.marker_bind fun m m' => InStep.current_bind fun kind _ => ?_
  split
  · exact (codeBlock_opens h).bindReady fun _ => wrap_anchored_agrees _ rfl
  · exact ifStatement_agrees h
  · exact whileStatement_agrees h
  · exact doWhileStatement_agrees h
  · exact forStatement_agrees h
  · exact switchStatement_agrees h
  · exact switchLabel_agrees h (by rintro _ rfl; decide)
  · exact switchLabel_agrees h (by rintro _ rfl; decide)
  · exact tryStatement_agrees h
  · exact valueJump_agrees h (by rintro _ rfl; decide) _ rfl
  · exact valueJump_agrees h (by rintro _ rfl; decide) _ rfl
  · exact labelJump_agrees (by rintro _ rfl; decide) _ rfl
  · exact labelJump_agrees (by rintro _ rfl; decide) _ rfl
  · exact (take_opens (by rintro _ rfl; decide)).bindReady fun _ => wrap_anchored_agrees _ rfl
  · exact (classDeclaration_agrees h).mono (by rintro _ rfl; rfl)
  · exact (classDeclaration_agrees h).mono (by rintro _ rfl; rfl)
  · exact (classDeclaration_agrees h).mono (by rintro _ rfl; rfl)
  · refine peek_reads_in_step.bind fun next => ?_
    split_ifs
    · exact synchronizedStatement_agrees h
    · exact (modifiedStatement_agrees h).mono (by rintro _ rfl; rfl)
  · exact (modifiedStatement_agrees h).mono (by rintro _ rfl; rfl)
  · exact (modifiedStatement_agrees h).mono (by rintro _ rfl; rfl)
  · exact plainStatement_agrees h

/-! ## Nesting -/

theorem present_agrees {p p' : Parser Unit} (hp : Agrees .any f f' p p') :
    Agrees foot f f' (present p) (present p') :=
  AgreesAt.lift (hp.bind fun _ => AgreesAt.pure true)

theorem rule_agree (h : inner.Agree inner') : Inner.Agree (rule inner) (rule inner') where
  typeReference := typeReference_phrases h
  expression := expression_phrases h
  conditional := conditional_phrases h
  operation := operation_phrases h _
  unary := unary_phrases h
  arrayInitializer := (arrayInitializer_opens h).bind fun _ _ _ => AgreesAt.pure true
  statement := present_agrees (statement_agrees h)
  member := present_agrees (member_agrees h)

/-- A rule that has no result agrees with any other. -/
theorem InStep.of_failure_left {α : Type} {pre : State → State → Prop}
    {post : State → State → State → State → Prop} {p' : Parser α} :
    InStep wanted pre post failure p' := by
  intro s s' _ _ _ a t a' t' hrun _
  cases hrun

theorem InStep.of_failure_right {α : Type} {pre : State → State → Prop}
    {post : State → State → State → State → Prop} {p : Parser α} :
    InStep wanted pre post p failure := by
  intro s s' _ _ _ a t a' t' _ hrun'
  cases hrun'

/-- The rules for types and expressions tell by the current token whether one begins there. -/
structure Inner.Phrased (inner : Inner) : Prop where
  typeReference : Phrase startsType (inner .typeReference)
  expression : Phrase startsExpression (inner .expression)
  conditional : Phrase startsExpression (inner .conditional)
  operation : ∀ {least}, Phrase startsExpression (inner (.operation least))
  unary : Phrase startsExpression (inner .unary)

theorem phrase_failure {starts : Kind → Bool} : Phrase starts failure := by
  constructor <;> intro s a t _ hrun <;> cases hrun

theorem parseTo_phrased (depth : Nat) : (parseTo depth).Phrased := by
  cases depth with
  | zero =>
    exact ⟨phrase_failure, phrase_failure, phrase_failure, phrase_failure, phrase_failure⟩
  | succ depth =>
    exact ⟨typeReference_phrase, expression_phrase, conditional_phrase, operation_phrase _,
      unary_phrase⟩

theorem Inner.Agree.of_failure_left (h : inner.Phrased) :
    Inner.Agree (fun _ => failure) inner where
  typeReference := ⟨phrase_failure, h.typeReference, .of_failure_left⟩
  expression := ⟨phrase_failure, h.expression, .of_failure_left⟩
  conditional := ⟨phrase_failure, h.conditional, .of_failure_left⟩
  operation := ⟨phrase_failure, h.operation, .of_failure_left⟩
  unary := ⟨phrase_failure, h.unary, .of_failure_left⟩
  arrayInitializer := .of_failure_left
  statement := .of_failure_left
  member := .of_failure_left

theorem Inner.Agree.of_failure_right (h : inner.Phrased) :
    Inner.Agree inner (fun _ => failure) where
  typeReference := ⟨h.typeReference, phrase_failure, .of_failure_right⟩
  expression := ⟨h.expression, phrase_failure, .of_failure_right⟩
  conditional := ⟨h.conditional, phrase_failure, .of_failure_right⟩
  operation := ⟨h.operation, phrase_failure, .of_failure_right⟩
  unary := ⟨h.unary, phrase_failure, .of_failure_right⟩
  arrayInitializer := .of_failure_right
  statement := .of_failure_right
  member := .of_failure_right

/-- The grammar nested to one depth agrees with the grammar nested to another. -/
theorem parseTo_agree (depth depth' : Nat) : (parseTo depth).Agree (parseTo depth') := by
  induction depth generalizing depth' with
  | zero => exact .of_failure_left (parseTo_phrased depth')
  | succ depth ih =>
    cases depth' with
    | zero => exact .of_failure_right (parseTo_phrased (depth + 1))
    | succ depth' => exact rule_agree (ih depth')

/-! ## Sources -/

theorem clauseStep_agrees : Agrees foot f f' clauseStep clauseStep := by
  refine AgreesAt.lift (takeIf_agrees.ite ?_ (AgreesAt.pure false))
  have htaken {kind : Kind} :
      AgreesAt (· = kind) .any f f' (do take; return true) (do take; return true) :=
    take_agrees.at.bind fun _ => AgreesAt.pure true
  exact InStep.isAtEither_ite htaken htaken ((missing_agrees _).bind fun _ => AgreesAt.pure false)

theorem clauseName_agrees : Agrees foot f f' clauseName clauseName :=
  AgreesAt.lift (expect_agrees.ite (loop_agrees clauseStep_agrees) (AgreesAt.pure ()))

theorem clause_agrees (kind : Kind) (h : Kind.isFree kind = true) :
    Agrees foot f f' (clause kind) (clause kind) := by
  refine AgreesAt.marker_bind fun m m' => AgreesAt.lift (take_agrees.bind fun _ => ?_)
  refine takeIf_agrees.discard.bind fun _ => clauseName_agrees.bind fun _ => ?_
  exact expect_agrees.discard.bind fun _ => wrap_agrees kind h

theorem unitItem_agrees (h : inner.Agree inner') :
    Agrees foot f f' (unitItem inner) (unitItem inner') := by
  refine InStep.current_bind fun kind _ => ?_
  split
  · exact (clause_agrees _ rfl).at
  · exact (clause_agrees _ rfl).at
  · exact take_agrees.at
  · exact takeUnexpected_agrees.at
  · exact (member_agrees h).at

theorem fragmentItem_agrees (h : inner.Agree inner') :
    Agrees foot f f' (fragmentItem inner) (fragmentItem inner') :=
  InStep.isAt_ite takeUnexpected_agrees.at (statement_agrees h)

theorem itemsUpToEnd_agrees {p p' : Parser Unit} (hp : Agrees .any f f' p p') :
    Agrees foot f f' (itemsUpToEnd p) (itemsUpToEnd p') := by
  refine loop_agrees (InStep.isAt_ite (AgreesAt.pure false) ?_)
  exact (progress_agrees hp).bind fun _ => AgreesAt.pure true

theorem source_agrees (h : inner.Agree inner') (kind : SourceKind) :
    Agrees foot f f' (source inner kind) (source inner' kind) := by
  cases kind with
  | compilationUnit => exact itemsUpToEnd_agrees (unitItem_agrees h)
  | codeFragment => exact itemsUpToEnd_agrees (fragmentItem_agrees h)

end Grammar

/-! ## Trees -/

namespace Node

open Grammar Token

/-- The states that a grammar ends in on two texts with the same tokens behind other white space. -/
theorem exists_alike {text text' : Text} (kind : SourceKind)
    (h : Respaced (Token.ofText text) (Token.ofText text')) :
    ∃ t t', ofText kind text = .branch .file t.built.reverse
      ∧ ofText kind text' = .branch .file t'.built.reverse ∧ Alike t t'
      ∧ Evolves 0 (State.start (Token.ofText text)) t ∧ t.ahead = [] := by
  obtain ⟨t, hrun, hend, htree⟩ := exists_run_ofText kind text
  obtain ⟨t', hrun', -, htree'⟩ := exists_run_ofText kind text'
  have halike : Alike (State.start (Token.ofText text)) (State.start (Token.ofText text')) :=
    .read (State.sane_read [] (Token.ofText_spells text).nonempty)
      (State.sane_read [] (Token.ofText_spells text').nonempty) h rfl rfl
  have hlevel : Level 0 0 (State.start (Token.ofText text)) (State.start (Token.ofText text')) :=
    ⟨Nat.zero_le _, Nat.zero_le _, by rw [List.take_zero, List.take_zero]⟩
  have hagree := parseTo_agree ((Token.ofText text).length + 1) ((Token.ofText text').length + 1)
  have hsource : Agrees .any 0 0 _ _ := source_agrees hagree kind
  obtain ⟨-, ht⟩ := hsource _ _ halike trivial ⟨hlevel, trivial⟩ () t () t' hrun hrun'
  exact ⟨t, t', htree, htree', ht.alike, ht.evolves, hend⟩

/-- **Other white space between the tokens changes nothing in the core of the tree.** -/
theorem coreAll_children_ofText {text text' : Text} (kind : SourceKind)
    (h : Respaced (Token.ofText text) (Token.ofText text')) :
    coreAll (ofText kind text').children = coreAll (ofText kind text).children := by
  obtain ⟨t, t', htree, htree', ht, -⟩ := exists_alike kind h
  have hcore {t : State} (hsane : t.Sane) : coreAll t.built.reverse = coreAll t.firm := by
    rw [← State.firm_append_loose, coreAll_append, hsane.coreAll_loose, List.append_nil]
  rw [htree, htree', children, children, hcore ht.sane, hcore ht.sane', ht.core]

theorem core_ofText {text text' : Text} (kind : SourceKind)
    (h : Respaced (Token.ofText text) (Token.ofText text')) :
    (ofText kind text').core = (ofText kind text).core := by
  have hchildren := coreAll_children_ofText kind h
  obtain ⟨t, t', htree, htree', -⟩ := exists_alike kind h
  rw [htree, htree'] at hchildren ⊢
  exact core_branch_congr hchildren

/-- What is below the root of the tree of a text is tidy. -/
theorem tidy_children_ofText (kind : SourceKind) (text : Text) :
    ∀ child ∈ (ofText kind text).children, child.Tidy := by
  obtain ⟨t, _, htree, -, ht, hevolves, -⟩ := exists_alike kind (Token.lexed_ofText text).respaced
  have hsane := State.sane_read [] (Token.ofText_spells text).nonempty
  have htidy := hevolves.tidy hsane (State.tidy_start _)
  rw [htree, children, ← State.firm_append_loose]
  refine List.forall_mem_append.2 ⟨htidy.nodes, fun node hnode => ?_⟩
  obtain ⟨hleaf, -, hnonempty⟩ := ht.sane.loose node hnode
  exact .of_isLeaf hleaf hnonempty

/-- The leaves of the tree of a text are its tokens, up to tokens, no white space or comments, that
became errors. -/
theorem ofText_stands (kind : SourceKind) (text : Text) :
    StandsAll ((Token.ofText text).map Token.node) (ofText kind text).leaves := by
  obtain ⟨t, _, htree, -, -, hevolves, hend⟩ :=
    exists_alike kind (Token.lexed_ofText text).respaced
  have hspells := Token.ofText_spells text
  have hstands := hevolves.stands (State.sane_read [] hspells.nonempty)
  rw [State.start, State.row_read, State.row, hend, List.map_nil, List.append_nil,
    List.reverse_nil, List.nil_append, leavesAll_map_node hspells.nonempty] at hstands
  rwa [htree, leaves]

end Node

end StatementCompletion
