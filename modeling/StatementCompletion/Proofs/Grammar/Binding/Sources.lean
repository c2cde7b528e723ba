import StatementCompletion.Grammar.Source
import StatementCompletion.Proofs.Grammar.Forming.Sources
import StatementCompletion.Proofs.Grammar.Header

/-!
# Operators bind by precedence and to the left

Statements and members make no operations of their own, so they keep states sound because the
expressions in them do, and the statements with a header because they begin with their keyword.  The
rules are nested, and so is what they keep; from the empty row on, all trees in
the row of a text are well made.
-/

namespace StatementCompletion

namespace Grammar

variable {wanted : Kind → Prop} {kind : Kind} {m : Nat} {inner : Inner}

/-! ## Declarations -/

theorem modifier_keeps (h : inner.Binds) : Keeps wanted (modifier inner) := by
  refine .current_bind fun kind _ => ?_
  split
  · exact take_keeps.bind fun _ => .pure true
  · exact take_keeps.bind fun _ => .pure true
  · refine take_keeps.bind fun _ => expect_keeps.discard.bind fun _ => ?_
    refine (loop_keeps dottedName_keeps).bind fun _ => ?_
    exact (whenAt_keeps (argumentList_keeps h)).bind fun _ => .pure true
  · exact .pure false

theorem modifiers_keeps (h : inner.Binds) : Keeps wanted (modifiers inner) := by
  refine .marker_bind fun opening => (loop_keeps (modifier_keeps h)).bind fun _ => ?_
  refine .marker_bind fun now => ?_
  split
  · exact wrap_keeps rfl rfl
  · exact .pure ()

theorem initialValue_keeps (h : inner.Binds) : Keeps wanted (initialValue inner) :=
  .isAt_ite (arrayInitializer_keeps h) (orMissing_keeps (expression_keeps h))

theorem variableRest_keeps (h : inner.Binds) : Keeps wanted (variableRest inner) :=
  (loop_keeps dimension_keeps).bind fun _ => whenTaken_keeps (initialValue_keeps h)

theorem nextVariable_keeps (h : inner.Binds) : Keeps wanted (nextVariable inner) := by
  refine takeIf_keeps.ite (.marker_bind fun opening => ?_) (.pure false)
  refine expect_keeps.discard.bind fun _ => (variableRest_keeps h).bind fun _ => ?_
  exact (wrap_keeps rfl rfl).bind fun _ => .pure true

theorem variableDeclaration_keeps (h : inner.Binds) :
    Keeps wanted (variableDeclaration inner m) := by
  refine (orMissing_keeps (typeReference_keeps h)).bind fun _ =>
    expect_keeps.discard.bind fun _ => ?_
  refine (variableRest_keeps h).bind fun _ => (wrap_keeps rfl rfl).bind fun _ => ?_
  refine (loop_keeps (nextVariable_keeps h)).bind fun _ => expect_keeps.discard.bind fun _ => ?_
  exact wrap_keeps rfl rfl

theorem alternativeType_keeps (h : inner.Binds) : Keeps wanted (alternativeType inner) :=
  takeIf_keeps.ite ((typeReference_keeps h).discard.bind fun _ => .pure true) (.pure false)

theorem parameterRest_keeps (h : inner.Binds) : Keeps wanted (parameterRest inner) := by
  refine (typeReference_keeps h).ite ?_ (missing_keeps _)
  refine (loop_keeps (alternativeType_keeps h)).bind fun _ =>
    (loop_keeps takeIf_keeps).bind fun _ => ?_
  exact expect_keeps.discard.bind fun _ => loop_keeps dimension_keeps

theorem parameter_keeps (h : inner.Binds) : Keeps wanted (parameter inner) := by
  refine .isAtAny_bind fun there => ?_
  split
  · refine .marker_bind fun opening => (modifiers_keeps h).bind fun _ => ?_
    exact (parameterRest_keeps h).bind fun _ => (wrap_keeps rfl rfl).bind fun _ => .pure true
  · exact .pure false

/-! ## Blocks and bodies -/

theorem codeBlock_keeps (h : inner.Binds) : Keeps wanted (codeBlock inner) := by
  refine .marker_bind fun opening => take_keeps.bind fun _ => ?_
  exact (itemsUpToBrace_keeps (h.keeps _).discard).bind fun _ => wrap_keeps rfl rfl

theorem requiredBlock_keeps (h : inner.Binds) (missed : Wanted) :
    Keeps wanted (requiredBlock inner missed) :=
  .isAt_ite (codeBlock_keeps h) (missing_keeps missed)

theorem body_keeps (h : inner.Binds) : Keeps wanted (body inner) := by
  refine .isAtAny_bind fun there => ?_
  split
  · exact (h.keeps _).discard
  · exact missing_keeps _

theorem openCondition_keeps (h : inner.Binds) : Keeps wanted (openCondition inner) := by
  refine (missing_keeps _).bind fun _ => .isOnNewLine_bind fun onNewLine => ?_
  refine .isAtAny_bind fun there => ?_
  split
  · exact (expression_keeps h).discard
  · exact .pure ()

theorem condition_keeps (h : inner.Binds) : Keeps wanted (condition inner) :=
  takeIf_keeps.ite ((orMissing_keeps (expression_keeps h)).bind fun _ => expect_keeps.discard)
    (openCondition_keeps h)

/-! ## Branches and loops -/

theorem doWhileCondition_keeps (h : inner.Binds) : Keeps wanted (doWhileCondition inner) :=
  takeIf_keeps.ite (condition_keeps h) (missing_keeps _)

theorem doWhileStatement_keeps (h : inner.Binds) : Keeps wanted (doWhileStatement inner m) := by
  refine take_keeps.bind fun _ => (body_keeps h).bind fun _ => ?_
  refine (doWhileCondition_keeps h).bind fun _ => expect_keeps.discard.bind fun _ => ?_
  exact wrap_keeps rfl rfl

theorem nextExpression_keeps (h : inner.Binds) : Keeps wanted (nextExpression inner) :=
  takeIf_keeps.ite ((expression_keeps h).discard.bind fun _ => .pure true) (.pure false)

theorem forInitializer_keeps (h : inner.Binds) : Keeps wanted (forInitializer inner) := by
  have hdeclaration {opening : Nat} :
      Keeps wanted (do modifiers inner; variableDeclaration inner opening) :=
    (modifiers_keeps h).bind fun _ => variableDeclaration_keeps h
  have hexpression {opening : Nat} : Keeps wanted (do
      if ← isAtAny startsExpression then
        discard (expression inner)
        loop (nextExpression inner)
        discard (expect .semicolon)
        wrap opening .expressionStatement
      else
        missing (.construct .semicolon)) := by
    refine .isAtAny_bind fun there => ?_
    split
    · refine (expression_keeps h).discard.bind fun _ => ?_
      refine (loop_keeps (nextExpression_keeps h)).bind fun _ =>
        expect_keeps.discard.bind fun _ => ?_
      exact wrap_keeps rfl rfl
    · exact missing_keeps _
  refine .marker_bind fun opening => .isAt_ite ?_ (.isAt_bind fun modified => ?_)
  · exact take_keeps.bind fun _ => wrap_keeps rfl rfl
  · refine .reads_bind (isVariableDeclaration_reads_in_step h.agree) fun declared => ?_
    split
    · exact hdeclaration
    · exact hexpression

theorem forUpdate_keeps (h : inner.Binds) : Keeps wanted (forUpdate inner) := by
  refine .isAtAny_bind fun there => ?_
  split
  · refine .marker_bind fun opening => (expression_keeps h).discard.bind fun _ => ?_
    exact (loop_keeps (nextExpression_keeps h)).bind fun _ => wrap_keeps rfl rfl
  · exact .pure ()

/-! ## Statements with a header -/

theorem Header.inside_keeps (h : inner.Binds) (header : Header) :
    Keeps wanted (header.inside inner) := by
  have hcondition {wanted : Kind → Prop} :
      Keeps wanted (orMissing (expression inner) .expression) :=
    orMissing_keeps (expression_keeps h)
  cases header with
  | branch | loop => exact hcondition
  | elements => exact (parameter_keeps h).discard.bind fun _ => take_keeps.bind fun _ => hcondition
  | counting =>
    refine (forInitializer_keeps h).bind fun _ => ?_
    refine (whenAtAny_keeps (expression_keeps h).discard).bind fun _ => ?_
    exact expect_keeps.discard.bind fun _ => forUpdate_keeps h

theorem behindHeader_keeps (h : inner.Binds) (header : Header) :
    Keeps wanted (behindHeader inner header) := by
  refine expect_keeps.discard.bind fun _ => (body_keeps h).bind fun _ => ?_
  cases header with
  | branch => exact whenTaken_keeps (body_keeps h)
  | loop | elements | counting => exact .pure ()

theorem unopened_keeps (h : inner.Binds) : Keeps wanted (unopened inner kind) := by
  unfold unopened
  split
  · refine (openCondition_keeps h).bind fun _ => (body_keeps h).bind fun _ => ?_
    exact whenTaken_keeps (body_keeps h)
  · exact (openCondition_keeps h).bind fun _ => body_keeps h
  · exact missing_keeps _

theorem Header.choose_keeps (h : inner.Binds) : Keeps wanted (Header.choose inner kind) := by
  unfold choose
  split
  · exact .pure _
  · exact .pure _
  · exact .reads_ite (isElementLoop_reads_in_step h.agree) (.pure _) (.pure _)

theorem guardedParts_keeps (h : inner.Binds) : Keeps wanted (guardedParts inner kind) := by
  refine takeIf_keeps.ite ((Header.choose_keeps h).bind fun header => ?_) ?_
  · refine (header.inside_keeps h).bind fun _ => (behindHeader_keeps h header).bind fun _ => .pure _
  · exact (unopened_keeps h).bind fun _ => .pure _

theorem isOperation_of_ownsUnbracedBody (h : Repair.ownsUnbracedBody kind = true) :
    kind.isOperation = false := by
  cases kind <;> first | rfl | cases h

/-- What a statement with a header is wrapped from begins with its keyword. -/
theorem guarded_keeps (h : inner.Binds)
    (hstatement : Joins (startsStatement · = true) IsConstruct (inner .statement)) :
    Keeps (isGuardKeyword · = true) (statement inner) := by
  intro s hs hkind a t hrun
  obtain ⟨made, x, hparts, rfl⟩ := run_guarded hkind hrun
  obtain ⟨keyword, htoken⟩ := Option.isSome_iff_exists.1 (State.isSome_of_isGuardKeyword hkind)
  obtain ⟨hx, nodes, hfirm, -⟩ := guardedParts_row h.agree hstatement hs.fair hparts
  have hsound : x.Sound := (guardedParts_keeps h).sound (hs.take (.inl rfl)) hparts
  have howns := ownsUnbracedBody_of_guardedParts hparts
  have hkeyword : isGuardKeyword keyword.kind = true := by rwa [State.current, htoken] at hkind
  have hconstruct := isConstruct_of_ownsUnbracedBody howns
  refine hsound.wrap hconstruct ⟨?_, fun _ => ?_, fun _ => hconstruct⟩
  · exact Node.bindsTight_of_not_isOperation (isOperation_of_ownsUnbracedBody howns)
  · rw [firm_drop_behind htoken hfirm, node_of_isGuardKeyword hkeyword]
    exact ⟨_, _, nodes, rfl, hkeyword⟩

/-! ## Switches, handlers and jumps -/

theorem switchStatement_keeps (h : inner.Binds) : Keeps wanted (switchStatement inner m) := by
  refine take_keeps.bind fun _ => (condition_keeps h).bind fun _ => ?_
  exact (requiredBlock_keeps h _).bind fun _ => wrap_keeps rfl rfl

theorem labelValues_keeps (h : inner.Binds) : Keeps wanted (labelValues inner) := by
  refine takeIf_keeps.ite ?_ take_keeps
  exact (orMissing_keeps (expression_keeps h)).bind fun _ => loop_keeps (nextExpression_keeps h)

theorem labelEnd_keeps : Keeps wanted labelEnd := by
  refine .isAt_bind fun atColon => .isAt_bind fun atArrow => ?_
  split
  · exact take_keeps
  · exact missing_keeps _

theorem switchLabel_keeps (h : inner.Binds) : Keeps wanted (switchLabel inner m) :=
  (labelValues_keeps h).bind fun _ => labelEnd_keeps.bind fun _ => wrap_keeps rfl rfl

theorem resource_keeps (h : inner.Binds) : Keeps wanted (resource inner) := by
  refine .marker_bind fun opening => ?_
  refine .reads_ite (isVariableDeclaration_reads_in_step h.agree) ?_ (expression_keeps h).discard
  refine (typeReference_keeps h).discard.bind fun _ => take_keeps.bind fun _ => ?_
  refine (whenTaken_keeps (orMissing_keeps (expression_keeps h))).bind fun _ => ?_
  exact wrap_keeps rfl rfl

theorem resourceItem_keeps (h : inner.Binds) : Keeps wanted (resourceItem inner) := by
  refine .isAt_bind fun atEnd => .isAt_bind fun atParen => ?_
  split
  · exact .pure false
  · refine .marker_bind fun opening => (resource_keeps h).bind fun _ => .marker_bind fun now => ?_
    split
    · exact .pure false
    · exact takeIf_keeps

theorem caughtParameter_keeps (h : inner.Binds) : Keeps wanted (caughtParameter inner) := by
  refine takeIf_keeps.ite ?_ (missing_keeps _)
  exact (orMissing_keeps (parameter_keeps h)).bind fun _ => expect_keeps.discard

theorem catchSection_keeps (h : inner.Binds) : Keeps wanted (catchSection inner) := by
  refine .isAt_ite (.marker_bind fun opening => take_keeps.bind fun _ => ?_) (.pure false)
  refine (caughtParameter_keeps h).bind fun _ => (requiredBlock_keeps h _).bind fun _ => ?_
  exact (wrap_keeps rfl rfl).bind fun _ => .pure true

theorem tryStatement_keeps (h : inner.Binds) : Keeps wanted (tryStatement inner m) := by
  have hresources : Keeps anywhere (resources inner) :=
    (loop_keeps (resourceItem_keeps h)).bind fun _ => expect_keeps.discard
  refine take_keeps.bind fun _ => (whenTaken_keeps hresources).bind fun _ => ?_
  refine (requiredBlock_keeps h _).bind fun _ =>
    (loop_keeps (catchSection_keeps h)).bind fun _ => ?_
  exact (whenTaken_keeps (requiredBlock_keeps h _)).bind fun _ => wrap_keeps rfl rfl

theorem synchronizedStatement_keeps (h : inner.Binds) :
    Keeps wanted (synchronizedStatement inner m) := by
  refine take_keeps.bind fun _ => (condition_keeps h).bind fun _ => ?_
  exact (requiredBlock_keeps h _).bind fun _ => wrap_keeps rfl rfl

theorem valueJump_keeps (h : inner.Binds) (hconstruct : kind.isConstruct = true)
    (hkind : kind.isRuled = false) : Keeps wanted (valueJump inner m kind) := by
  refine take_keeps.bind fun _ => (whenAtAny_keeps (expression_keeps h).discard).bind fun _ => ?_
  exact expect_keeps.discard.bind fun _ => wrap_keeps hconstruct hkind

theorem labelJump_keeps (hconstruct : kind.isConstruct = true) (hkind : kind.isRuled = false) :
    Keeps wanted (labelJump m kind) := by
  refine take_keeps.bind fun _ => takeIf_keeps.discard.bind fun _ => ?_
  exact expect_keeps.discard.bind fun _ => wrap_keeps hconstruct hkind

theorem expressionStatement_keeps (h : inner.Binds) : Keeps wanted (expressionStatement inner m) :=
  (expression_keeps h).discard.bind fun _ => expect_keeps.discard.bind fun _ => wrap_keeps rfl rfl

/-! ## Members -/

theorem parameterList_keeps (h : inner.Binds) : Keeps wanted (parameterList inner) := by
  refine .marker_bind fun opening => take_keeps.bind fun _ => ?_
  refine (unlessAt_keeps (orMissing_keeps (separated_keeps (parameter_keeps h)))).bind fun _ => ?_
  exact expect_keeps.discard.bind fun _ => wrap_keeps rfl rfl

theorem throwsList_keeps (h : inner.Binds) : Keeps wanted (throwsList inner) := by
  refine .isAt_ite (.marker_bind fun opening => take_keeps.bind fun _ => ?_) (.pure ())
  exact (types_keeps h).bind fun _ => wrap_keeps rfl rfl

theorem methodBody_keeps (h : inner.Binds) : Keeps wanted (methodBody inner) :=
  .isAt_ite (codeBlock_keeps h) (.isAt_ite take_keeps (missing_keeps _))

theorem methodBehindName_keeps (h : inner.Binds) : Keeps wanted (methodBehindName inner m) := by
  refine (parameterList_keeps h).bind fun _ => (loop_keeps dimension_keeps).bind fun _ => ?_
  refine (throwsList_keeps h).bind fun _ => (methodBody_keeps h).bind fun _ => ?_
  exact wrap_keeps rfl rfl

theorem nextField_keeps (h : inner.Binds) : Keeps wanted (nextField inner) := by
  refine takeIf_keeps.ite ?_ (.pure false)
  exact expect_keeps.discard.bind fun _ => (variableRest_keeps h).bind fun _ => .pure true

theorem fieldBehindName_keeps (h : inner.Binds) : Keeps wanted (fieldBehindName inner m) := by
  refine (variableRest_keeps h).bind fun _ => (loop_keeps (nextField_keeps h)).bind fun _ => ?_
  exact expect_keeps.discard.bind fun _ => wrap_keeps rfl rfl

theorem brokenField_keeps (missed : Wanted) : Keeps wanted (brokenField m missed) :=
  (missing_keeps missed).bind fun _ => takeIf_keeps.discard.bind fun _ => wrap_keeps rfl rfl

theorem enumConstant_keeps (h : inner.Binds) : Keeps wanted (enumConstant inner) := by
  have hnext : Keeps anywhere (do
      if ← takeIf .comma then
        return true
      else if ← isEnumConstant then
        missing (.construct .comma)
        return true
      else
        return false) := by
    refine takeIf_keeps.ite (.pure true) (.reads_ite isEnumConstant_reads_in_step ?_ (.pure false))
    exact (missing_keeps _).bind fun _ => .pure true
  refine .reads_ite isEnumConstant_reads_in_step (.marker_bind fun opening => ?_) (.pure false)
  refine take_keeps.bind fun _ => (whenAt_keeps (argumentList_keeps h)).bind fun _ => ?_
  exact (whenAt_keeps (memberBlock_keeps h)).bind fun _ => (wrap_keeps rfl rfl).bind fun _ => hnext

theorem enumConstants_keeps (h : inner.Binds) : Keeps wanted (enumConstants inner) := by
  refine (loop_keeps (enumConstant_keeps h)).bind fun _ => takeIf_keeps.ite (.pure ()) ?_
  refine .isAt_bind fun atEnd => .isAt_bind fun atBrace => ?_
  split
  · exact .pure ()
  · exact missing_keeps _

theorem classBody_keeps (h : inner.Binds) (isEnum : Bool) :
    Keeps wanted (classBody inner isEnum) := by
  have hconstants : Keeps anywhere (constantsOf inner isEnum) := by
    cases isEnum with
    | true => exact enumConstants_keeps h
    | false => exact .pure ()
  refine .isAt_ite (take_keeps.bind fun _ => hconstants.bind fun _ => ?_) (missing_keeps _)
  exact itemsUpToBrace_keeps (h.keeps _).discard

theorem classDeclaration_keeps (h : inner.Binds) : Keeps wanted (classDeclaration inner m) := by
  have htypes {keyword : Kind} : Keeps anywhere (typesBehind inner keyword) :=
    whenTaken_keeps (types_keeps h)
  refine .isAt_bind fun isEnum => take_keeps.bind fun _ => expect_keeps.discard.bind fun _ => ?_
  refine (whenAt_keeps (typeArguments_keeps h).discard).bind fun _ => ?_
  refine htypes.bind fun _ => htypes.bind fun _ => (classBody_keeps h isEnum).bind fun _ => ?_
  exact wrap_keeps rfl rfl

theorem typedMember_keeps (h : inner.Binds) : Keeps wanted (typedMember inner m) := by
  refine (typeReference_keeps h).ite (takeIf_keeps.ite ?_ (brokenField_keeps _)) ?_
  · exact .isAt_ite (methodBehindName_keeps h) (fieldBehindName_keeps h)
  · refine .marker_bind fun now => ?_
    split
    · exact brokenField_keeps _
    · exact .pure ()

theorem member_keeps (h : inner.Binds) : Keeps wanted (member inner) := by
  refine .marker_bind fun opening => (modifiers_keeps h).bind fun _ => .isAtAny_bind fun there => ?_
  split
  · exact classDeclaration_keeps h
  · refine .isAt_ite ((codeBlock_keeps h).bind fun _ => wrap_keeps rfl rfl) ?_
    refine .isAt_bind fun named => .peek_bind fun next => ?_
    split
    · exact take_keeps.bind fun _ => methodBehindName_keeps h
    · exact typedMember_keeps h

/-! ## Statements -/

theorem modifiedStatement_keeps (h : inner.Binds) : Keeps wanted (modifiedStatement inner m) := by
  refine (modifiers_keeps h).bind fun _ => .isAtAny_bind fun there => ?_
  split
  · exact classDeclaration_keeps h
  · exact variableDeclaration_keeps h

theorem plainStatement_keeps (h : inner.Binds) : Keeps wanted (plainStatement inner m) := by
  refine .reads_ite (isVariableDeclaration_reads_in_step h.agree) (variableDeclaration_keeps h) ?_
  refine .isAtAny_bind fun there => ?_
  split
  · exact expressionStatement_keeps h
  · exact takeUnexpected_keeps

/-- A statement that begins at no keyword of those with a header. -/
theorem unguarded_keeps (h : inner.Binds) : Keeps (isGuardKeyword · = false) (statement inner) := by
  refine .marker_bind fun opening => .current_bind fun kind hkind => ?_
  split
  · exact (codeBlock_keeps h).bind fun _ => wrap_keeps rfl rfl
  · cases hkind
  · cases hkind
  · exact doWhileStatement_keeps h
  · cases hkind
  · exact switchStatement_keeps h
  · exact switchLabel_keeps h
  · exact switchLabel_keeps h
  · exact tryStatement_keeps h
  · exact valueJump_keeps h rfl rfl
  · exact valueJump_keeps h rfl rfl
  · exact labelJump_keeps rfl rfl
  · exact labelJump_keeps rfl rfl
  · exact take_keeps.bind fun _ => wrap_keeps rfl rfl
  · exact classDeclaration_keeps h
  · exact classDeclaration_keeps h
  · exact classDeclaration_keeps h
  · refine .peek_bind fun next => ?_
    split
    · exact synchronizedStatement_keeps h
    · exact modifiedStatement_keeps h
  · exact modifiedStatement_keeps h
  · exact modifiedStatement_keeps h
  · exact plainStatement_keeps h

theorem statement_keeps (h : inner.Binds)
    (hstatement : Joins (startsStatement · = true) IsConstruct (inner .statement)) :
    Keeps wanted (statement inner) := by
  intro s hs _
  cases hkind : isGuardKeyword s.current with
  | true => exact guarded_keeps h hstatement s hs hkind
  | false => exact unguarded_keeps h s hs hkind

/-! ## Nesting -/

theorem present_keeps {p : Parser Unit} (hp : Keeps wanted p) : Keeps wanted (present p) :=
  hp.bind fun _ => .pure true

theorem rule_binds (h : inner.Binds)
    (hstatement : Joins (startsStatement · = true) IsConstruct (inner .statement)) :
    Inner.Binds (rule inner) where
  agree := rule_agree h.agree
  keeps construct := by
    cases construct with
    | typeReference => exact typeReference_keeps h
    | expression => exact expression_keeps h
    | conditional => exact conditional_keeps h
    | operation least => exact operation_keeps h
    | unary => exact unary_keeps h
    | arrayInitializer => exact present_keeps (arrayInitializer_keeps h)
    | statement => exact present_keeps (statement_keeps h hstatement)
    | member => exact present_keeps (member_keeps h)
  operation hs hrun := (operation_run h hs hrun).2 rfl

theorem parseTo_binds (depth : Nat) : (parseTo depth).Binds := by
  induction depth with
  | zero =>
    refine ⟨parseTo_agree 0 0, fun _ s _ _ a t hrun => ?_, fun _ hrun => ?_⟩
    · cases hrun
    · cases hrun
  | succ depth ih => exact rule_binds ih (parseTo_statement_joins depth)

/-! ## Sources -/

theorem clauseStep_keeps : Keeps wanted clauseStep := by
  refine takeIf_keeps.ite (.isAt_bind fun named => .isAt_bind fun starred => ?_) (.pure false)
  split
  · exact take_keeps.bind fun _ => .pure true
  · exact (missing_keeps _).bind fun _ => .pure false

theorem clause_keeps (hconstruct : kind.isConstruct = true) (hkind : kind.isRuled = false) :
    Keeps wanted (clause kind) := by
  have hname : Keeps anywhere clauseName :=
    expect_keeps.ite (loop_keeps clauseStep_keeps) (.pure ())
  refine .marker_bind fun opening => take_keeps.bind fun _ => takeIf_keeps.discard.bind fun _ => ?_
  exact hname.bind fun _ => expect_keeps.discard.bind fun _ => wrap_keeps hconstruct hkind

theorem unitItem_keeps (h : inner.Binds) : Keeps wanted (unitItem inner) := by
  refine .current_bind fun kind _ => ?_
  split
  · exact clause_keeps rfl rfl
  · exact clause_keeps rfl rfl
  · exact take_keeps
  · exact takeUnexpected_keeps
  · exact member_keeps h

theorem fragmentItem_keeps (h : inner.Binds)
    (hstatement : Joins (startsStatement · = true) IsConstruct (inner .statement)) :
    Keeps wanted (fragmentItem inner) :=
  .isAt_ite takeUnexpected_keeps (statement_keeps h hstatement)

theorem itemsUpToEnd_keeps {item : Parser Unit} (hitem : Keeps anywhere item) :
    Keeps wanted (itemsUpToEnd item) := by
  refine loop_keeps (.isAt_bind fun atEnd => ?_)
  split
  · exact .pure false
  · exact (progress_keeps hitem).bind fun _ => .pure true

theorem source_keeps (h : inner.Binds)
    (hstatement : Joins (startsStatement · = true) IsConstruct (inner .statement))
    (kind : SourceKind) :
    Keeps wanted (source inner kind) := by
  cases kind with
  | compilationUnit => exact itemsUpToEnd_keeps (unitItem_keeps h)
  | codeFragment => exact itemsUpToEnd_keeps (fragmentItem_keeps h hstatement)

/-- Only white space and comments are in the row at the start. -/
theorem State.sound_start (text : Text) : (State.start (Token.ofText text)).Sound := by
  have hfair := State.fair_start text
  refine ⟨hfair, fun node hnode => ?_⟩
  have hmem : node ∈ (State.start (Token.ofText text)).loose := by
    have hfirm : (State.start (Token.ofText text)).firm = [] := State.firm_read [] _
    rw [← List.nil_append (State.loose _), ← hfirm, State.firm_append_loose]
    exact List.mem_reverse.2 hnode
  obtain ⟨hleaf, htrivia, -⟩ := hfair.sane.loose node hmem
  exact Node.every_wellMade_of_isLeaf (State.isRuled_of_isTrivia htrivia) hleaf

end Grammar

namespace Node

open Grammar

/-- Every node in the tree of a text is well made. -/
theorem every_wellMade (kind : SourceKind) (text : Text) : (ofText kind text).Every WellMade := by
  obtain ⟨t, hrun, -, htree⟩ := exists_run_ofText kind text
  have ht : t.Sound := (source_keeps (parseTo_binds _) (parseTo_statement_joins _) kind).sound
    (State.sound_start text) hrun
  rw [htree]
  refine .intro (wellMade_of_not_isRuled rfl fun _ => rfl) fun child hchild => ?_
  exact ht.built child (List.mem_reverse.1 hchild)

/-- **Operators bind by precedence and to the left.**  In the tree of a text every binary expression
is an operand, an operator and an operand or a mark that it is missing.  A left operand that is a
binary expression binds at least as tight, if nothing is missing on its right, and a right operand
that is an operation binds tighter; neither is an assignment or a conditional.  The same holds of
what stands on the left of `instanceof`. -/
theorem operators_bind (kind : SourceKind) (text : Text) : (ofText kind text).Every BindsTight :=
  (every_wellMade kind text).mono fun _ => WellMade.binds

/-- A left operand binds at least as tight as the operator, whatever is missing in it. -/
def BindsLeft (node : Node) : Prop :=
  node.kind = .binaryExpression → ∀ left, node.parts.head? = some left →
    left.kind = .binaryExpression →
      ∃ outer own, node.precedence? = some outer ∧ left.precedence? = some own ∧ outer ≤ own

/-- Something may be missing on the right of a left operand, and then it may bind less tight. -/
theorem operators_bind_beside_gap :
    ¬ (ofText .codeFragment "a || * b;".toList).Every BindsLeft := by
  intro h
  have hfound : ((ofText .codeFragment "a || * b;".toList).children.head?.bind fun statement =>
      statement.children.head?).map (fun node => (node.kind, node.precedence?, node.parts.head?.map
        fun left => (left.kind, left.precedence?)))
      = some (.binaryExpression, some 9, some (.binaryExpression, some 1)) := by decide +kernel
  obtain ⟨node, hnode, hshape⟩ := Option.map_eq_some_iff.1 hfound
  obtain ⟨statement, hstatement, hchild⟩ := Option.bind_eq_some_iff.1 hnode
  obtain ⟨hkind, hrest⟩ := Prod.mk.inj hshape
  obtain ⟨hprecedence, hleft⟩ := Prod.mk.inj hrest
  obtain ⟨left, hfirst, hoperand⟩ := Option.map_eq_some_iff.1 hleft
  obtain ⟨hleftKind, hleftPrecedence⟩ := Prod.mk.inj hoperand
  have hbinds := ((h.of_mem_children (List.mem_of_mem_head? hstatement)).of_mem_children
    (List.mem_of_mem_head? hchild)).holds hkind left hfirst hleftKind
  obtain ⟨outer, own, houter, hown, hle⟩ := hbinds
  rw [hprecedence] at houter
  rw [hleftPrecedence] at hown
  cases houter
  cases hown
  omega

end Node

end StatementCompletion
