import StatementCompletion.Proofs.Grammar.Agreement.Expressions
import StatementCompletion.Proofs.Grammar.Forming.Combinators

/-!
# What the rules for types and expressions add

A type adds one node, and so does an expression.  What stands inside a type is not asked for; of the
lists and the expressions in parentheses it matters that they end with what closes them.
-/

namespace StatementCompletion.Grammar

open Grammar.Language

/-- The constructs inside a rule add what is asked of them. -/
structure Inner.Forms (inner : Inner) : Prop where
  agree : inner.Agree inner
  typeReference : ∀ {strict},
    Grammar.Forms strict anywhere (found (word [.typeReference])) (inner .typeReference)
  expression : ∀ {strict},
    Grammar.Forms strict anywhere (found (one Kind.isOperand)) (inner .expression)
  conditional : ∀ {strict},
    Grammar.Forms strict anywhere (found (one Kind.isOperand)) (inner .conditional)
  operation : ∀ {strict least},
    Grammar.Forms strict anywhere (found (one Kind.isOperand)) (inner (.operation least))
  unary : ∀ {strict},
    Grammar.Forms strict anywhere (found (one Kind.isOperand)) (inner .unary)
  arrayInitializer : ∀ {strict},
    Grammar.Forms strict (· = .leftBrace) (word [.arrayInitializer]) (inner .arrayInitializer)
  statement : ∀ {strict},
    Grammar.Forms strict (· ≠ .endOfFile) (one Kind.isPhrase) (inner .statement)
  member : ∀ {strict},
    Grammar.Forms strict (· ≠ .endOfFile) (option (one Kind.isDeclared)) (inner .member)

variable {strict : Bool} {wanted : Kind → Prop} {opening : Nat} {inner : Inner}

/-! ## Rows without enum constants -/

theorem isPlain_of_isOperand {kind : Kind} (h : kind.isOperand = true) : IsPlain [kind] := by
  refine isPlain_cons.2 ⟨?_, isPlain_nil⟩
  rintro rfl
  cases h

theorem one_isOperand_isPlain : ∀ parts, one Kind.isOperand () parts → IsPlain parts :=
  forall_one.2 fun _ => isPlain_of_isOperand

/-! ## Types -/

theorem dottedName_forms : Forms strict wanted plain dottedName := by
  refine .isAtBefore_ite ?_ .plain_pure
  exact take_forms_plain.plain_bind fun _ => take_forms_plain.plain_bind fun _ => .plain_pure

theorem dimension_forms : Forms strict wanted plain dimension := by
  refine .isAtBefore_ite ?_ .plain_pure
  exact take_forms_plain.plain_bind fun _ => take_forms_plain.plain_bind fun _ => .plain_pure

theorem typeReference_isPlain : ∀ parts, word [.typeReference] () parts → IsPlain parts :=
  forall_word.2 (isPlain_cons.2 ⟨by decide, isPlain_nil⟩)

theorem Inner.Forms.typeReference_plain (h : inner.Forms) :
    Grammar.Forms strict wanted plain (inner .typeReference) :=
  (h.typeReference.mono (found_isPlain typeReference_isPlain)).at

theorem typeBound_forms (h : inner.Forms) : Forms strict wanted plain (typeBound inner) := by
  have hbound {kind : Kind} :
      Forms strict (· = kind) plain (do take; discard (inner .typeReference)) :=
    take_forms_plain.plain_bind fun _ => h.typeReference_plain.plain_discard
  exact .isAtEither_ite hbound hbound .plain_pure

theorem typeArgument_forms (h : inner.Forms) : Forms strict wanted plain (typeArgument inner) := by
  refine Forms.plain_ite (takeIf_forms_plain (by decide) (by decide)) ?_ h.typeReference_plain
  exact (typeBound_forms h).plain_bind fun _ => .plain_pure

theorem typeArguments_forms (h : inner.Forms) :
    Forms strict wanted plain (typeArguments inner) := by
  refine take_forms_plain.plain_bind fun _ => ?_
  refine Forms.plain_ite (takeIf_forms_plain (by decide) (by decide)) .plain_pure ?_
  refine Forms.plain_ite ?_ (takeIf_forms_plain (by decide) (by decide)) .plain_pure
  exact separated_forms (by decide) (by decide) (typeArgument_forms h)

/-- The name of a class begins with an identifier. -/
theorem className_forms (h : inner.Forms) : Forms strict (· = .identifier)
    (fun _ => Follows (· = [.identifier]) IsPlain) (className inner) := by
  have hrest : Forms strict anywhere plain (do
      loop dottedName
      whenAt .less (attempt (typeArguments inner))) := by
    refine (loop_forms dottedName_forms).plain_bind fun _ => ?_
    have harguments : Forms strict (· = .less) plain (attempt (typeArguments inner)) :=
      attempt_forms (typeArguments_opens h.agree).retractsAt (typeArguments_forms h)
    refine (whenAt_forms harguments).mono fun _ => forall_option.2 ⟨isPlain_nil, fun _ => id⟩
  refine (take_forms_word (by decide)).last (fun _ => hrest) ?_
  exact fun _ front hfront _ back hback => ⟨front, back, hfront, hback, rfl⟩

theorem typeReference_forms (h : inner.Forms) :
    Forms strict wanted (found (word [.typeReference])) (typeReference inner) := by
  refine .marker_bind fun opening => .current_bind fun kind _ => ?_
  have hprimitive {kind : Kind} (hkind : kind ≠ .endOfFile) (hconstant : kind ≠ .enumConstant) :
      Turns true strict (· = kind) opening (· = []) (found (word [.typeReference])) (do
        take
        loop dimension
        wrap opening .typeReference
        return true) := by
    refine (take_forms_word hkind).then fun _ => (loop_forms dimension_forms).then fun _ => ?_
    refine (wrap_turns rfl ?_).answer fun _ _ => id
    simp only [forall_follows, word, forall_eq, List.nil_append]
    intro back hback
    exact ⟨by simp, admits_of_isPlain trivial (isPlain_cons.2 ⟨hconstant, hback⟩)⟩
  split
  · exact hprimitive (by decide) (by decide)
  · exact hprimitive (by decide) (by decide)
  · refine (className_forms h).then fun _ => (loop_forms dimension_forms).then fun _ => ?_
    refine (wrap_turns rfl ?_).answer fun _ _ => id
    simp only [forall_follows, forall_eq, List.nil_append]
    intro front hfront back hback
    exact ⟨by simp, admits_of_isPlain trivial (by simpa using ⟨hfront, hback⟩)⟩
  · exact .pure_nil rfl

theorem types_forms (h : inner.Forms) : Forms strict wanted plain (types inner) := by
  refine orMissing_forms_plain (separated_forms (by decide) (by decide) ?_)
  exact (typeReference_forms h).mono (found_isPlain typeReference_isPlain)

/-! ## Lists -/

theorem Inner.Forms.expression_plain (h : inner.Forms) :
    Grammar.Forms strict wanted plain (inner .expression) :=
  (h.expression.mono (found_isPlain one_isOperand_isPlain)).at

theorem argumentList_forms (h : inner.Forms) :
    Forms strict (· = .leftParen) (word [.argumentList]) (argumentList inner) := by
  have harguments : Forms true anywhere plain
      (unlessAt .rightParen (orMissing (separated .comma (inner .expression)) .expression)) := by
    refine (unlessAt_forms (orMissing_forms_plain ?_)).mono (option_isPlain fun _ _ => id)
    exact separated_forms (by decide) (by decide) h.expression_plain
  refine .marker_bind fun opening => (take_forms_word (by decide)).then fun _ => ?_
  refine harguments.then fun _ => (discard_expect_forms (by decide)).then fun _ => ?_
  refine wrap_turns rfl ?_
  simp only [forall_follows, word, forall_eq, List.nil_append]
  intro list hlist
  exact ⟨by simp, admits_of_isPlain (by simp [Kind.Fits]) (by simpa using hlist)⟩

theorem arrayInitializer_isPlain {α : Type} {a : α} :
    ∀ parts, word [.arrayInitializer] a parts → IsPlain parts :=
  forall_word.2 (by simp)

theorem arrayElement_forms (h : inner.Forms) : Forms strict wanted plain (arrayElement inner) := by
  refine .isAt_ite .plain_pure (.isAt_ite ?_ h.expression_plain)
  exact h.arrayInitializer.mono fun _ => arrayInitializer_isPlain

theorem arrayInitializer_forms (h : inner.Forms) :
    Forms strict (· = .leftBrace) (word [.arrayInitializer]) (arrayInitializer inner) := by
  have helements : Forms true anywhere plain (discard (separated .comma (arrayElement inner))) :=
    (separated_forms (by decide) (by decide) (arrayElement_forms h)).plain_discard
  refine .marker_bind fun opening => (take_forms_word (by decide)).then fun _ => ?_
  refine helements.then fun _ => (discard_expect_forms (by decide)).then fun _ => ?_
  refine wrap_turns rfl ?_
  simp only [forall_follows, word, forall_eq, List.nil_append]
  intro elements helements
  exact ⟨by simp, admits_of_isPlain (by simp [Kind.Fits]) (by simpa using helements)⟩

theorem one_isDeclared_isPlain {α : Type} {a : α} :
    ∀ parts, one Kind.isDeclared a parts → IsPlain parts := by
  refine forall_one.2 fun kind hkind => isPlain_cons.2 ⟨?_, isPlain_nil⟩
  rintro rfl
  cases hkind

theorem Inner.Forms.member_plain (h : inner.Forms) :
    Grammar.Forms strict (· ≠ .endOfFile) plain (discard (inner .member)) :=
  (h.member.mono (option_isPlain fun _ => one_isDeclared_isPlain)).plain_discard

theorem memberBlock_forms (h : inner.Forms) :
    Forms strict wanted plain (memberBlock inner) := by
  refine take_forms_plain.plain_bind fun _ => ?_
  refine (itemsUpToBrace_forms h.member_plain).mono fun _ => forall_follows.2 ?_
  rintro members hmembers _ rfl
  exact isPlain_append.2 ⟨hmembers, by simp⟩

/-! ## Operands -/

theorem arrayLength_forms (h : inner.Forms) : Forms strict wanted plain (arrayLength inner) := by
  refine Forms.plain_ite (takeIf_forms_plain (by decide) (by decide)) ?_ .plain_pure
  refine Forms.plain_bind ?_ fun _ => Forms.plain_bind ?_ fun _ => .plain_pure
  · refine (unlessAt_forms ?_).mono (option_isPlain fun _ _ => id)
    exact orMissing_forms_plain h.expression_plain
  · exact (discard_expect_forms (by decide)).mono fun _ => forall_word.2 (by simp [plain])

/-- The name behind `new`. -/
theorem createdName_forms (h : inner.Forms) :
    Forms strict wanted (fun _ parts => parts ≠ [] ∧ IsPlain parts) (createdName inner) := by
  refine .current_bind fun kind _ => ?_
  split
  · refine (take_forms_word (by decide)).mono fun _ => forall_word.2 ?_
    exact ⟨List.cons_ne_nil _ _, by simp⟩
  · refine (className_forms h).mono fun _ => forall_follows.2 ?_
    rintro _ rfl back hback
    exact ⟨by simp, by simpa using hback⟩
  · exact (missing_forms _).mono fun _ _ => False.elim

theorem createdType_forms (h : inner.Forms) :
    Forms strict wanted (word [.typeReference]) (createdType inner) := by
  refine .marker_bind fun opening => (createdName_forms h).then fun _ => .built_ite ?_ ?_
  · refine wrap_turns rfl ?_
    rintro _ ⟨⟨_, back, rfl, ⟨hnil, hback⟩, rfl⟩, -⟩
    exact ⟨hnil, admits_of_isPlain trivial hback⟩
  · -- a name that adds something leaves the marker behind
    refine (Turns.pure.mono ?_).relax fun _ => rfl
    rintro - _ ⟨⟨_, back, rfl, ⟨hnil, -⟩, rfl⟩, hempty⟩
    exact absurd hempty hnil

theorem argumentList_isPlain {α : Type} {a : α} :
    ∀ parts, word [.argumentList] a parts → IsPlain parts :=
  forall_word.2 (by simp)

theorem createdParts_forms (h : inner.Forms) : Forms strict wanted plain (createdParts inner) := by
  have hmembers : Forms strict anywhere plain (whenAt .leftBrace (memberBlock inner)) :=
    (whenAt_forms (memberBlock_forms h)).mono (option_isPlain fun _ _ => id)
  have helements : Forms strict anywhere plain (whenAt .leftBrace (arrayInitializer inner)) :=
    (whenAt_forms (arrayInitializer_forms h)).mono
      (option_isPlain fun _ => arrayInitializer_isPlain)
  refine .isAt_ite ?_ (.isAt_ite ?_ ?_)
  · exact ((argumentList_forms h).mono fun _ => argumentList_isPlain).plain_bind fun _ => hmembers
  · exact (loop_forms (arrayLength_forms h)).plain_bind fun _ => helements
  · exact (missing_forms _).mono fun _ _ => False.elim

theorem newExpression_forms (h : inner.Forms) :
    Forms strict (· = .newKeyword) (word [.newExpression]) (newExpression inner) := by
  refine .marker_bind fun opening => (take_forms_word (by decide)).then fun _ => ?_
  refine (createdType_forms h).then fun _ => (createdParts_forms h).then fun _ => ?_
  refine wrap_turns rfl ?_
  simp only [forall_follows, word, forall_eq, List.nil_append]
  intro parts hparts
  exact ⟨by simp, admits_of_isPlain trivial (by simpa using hparts)⟩

theorem typeCast_forms (h : inner.Forms) :
    Forms strict (· = .leftParen) (word [.typeCast]) (typeCast inner) := by
  have htype : Forms true anywhere plain (discard (typeReference inner)) :=
    ((typeReference_forms h).mono (found_isPlain typeReference_isPlain)).plain_discard
  refine .marker_bind fun opening => (take_forms_word (by decide)).then fun _ => ?_
  refine htype.then fun _ => (discard_expect_forms (by decide)).then fun _ => ?_
  refine (orMissing_forms h.unary).then fun _ => wrap_turns rfl ?_
  simp only [forall_follows, word, forall_eq, List.nil_append, forall_one]
  intro parts hparts kind hkind
  have hoperand := isPlain_of_isOperand hkind
  exact ⟨by simp, admits_of_isPlain trivial (by simp_all)⟩

theorem parenthesized_forms (h : inner.Forms) :
    Forms strict (· = .leftParen) (word [.parenthesized]) (parenthesized inner) := by
  refine .marker_bind fun opening => (take_forms_word (by decide)).then fun _ => ?_
  refine (orMissing_forms h.expression).then fun _ => ?_
  refine (discard_expect_forms (by decide)).then fun _ => wrap_turns rfl ?_
  simp only [forall_follows, word, forall_eq, List.nil_append, forall_one]
  intro kind hkind
  exact ⟨by simp,
    admits_of_isPlain (by simp [Kind.Fits]) (by simpa using isPlain_of_isOperand hkind)⟩

theorem castOrParenthesized_forms (h : inner.Forms) :
    Forms strict (· = .leftParen) (one Kind.isOperand) (castOrParenthesized inner) := by
  refine .reads_bind (isCast_reads_in_step h.agree) fun cast => ?_
  cases cast with
  | true => exact (typeCast_forms h).mono fun _ => forall_word.2 ⟨_, rfl, rfl⟩
  | false => exact (parenthesized_forms h).mono fun _ => forall_word.2 ⟨_, rfl, rfl⟩

theorem primary_forms (h : inner.Forms) :
    Forms strict wanted (found (one Kind.isOperand)) (primary inner) := by
  refine .current_bind fun kind _ => ?_
  have htoken {kind : Kind} (hkind : kind.isOperand = true) (hend : kind ≠ .endOfFile) :
      Forms strict (· = kind) (found (one Kind.isOperand)) (do take; return true) :=
    (take_forms_word hend).answer fun _ => forall_word.2 ⟨kind, hkind, rfl⟩
  split
  any_goals exact htoken rfl (by decide)
  · refine Forms.answer (Forms.narrow ((typeReference_forms h).discard_phrase typeReference_phrase)
      ?_) fun _ => forall_word.2 ⟨_, rfl, rfl⟩
    rintro _ rfl
    rfl
  · exact (castOrParenthesized_forms h).answer fun _ _ => id
  · exact (newExpression_forms h).answer fun _ => forall_word.2 ⟨_, rfl, rfl⟩
  · exact .pure rfl

theorem accessedName_forms : Forms strict wanted plain accessedName := by
  refine .reads_bind (isAt_reads_in_step _) fun atName => ?_
  refine .reads_bind (isAt_reads_in_step _) fun atClass => ?_
  refine .reads_bind (isAt_reads_in_step _) fun atThis => ?_
  split
  · exact take_forms_plain
  · exact (missing_forms _).mono fun _ _ => False.elim

/-- Behind an operand that something is added to, there is an operand again. -/
theorem wrap_operand_turns {kind : Kind} {before : List Kind → Prop}
    (hkind : Kind.isPlain kind = true) (hoperand : kind.isOperand = true)
    (hfits : kind.Fits = fun _ => True)
    (h : ∀ parts, before parts → ∃ first back, first.isOperand = true ∧ IsPlain back
      ∧ parts = first :: back) :
    Turns true strict wanted opening before (fun _ => one Kind.isOperand ())
      (wrap opening kind) := by
  refine (wrap_turns hkind fun parts hparts => ?_).mono fun _ => forall_word.2 ⟨kind, hoperand, rfl⟩
  obtain ⟨first, back, hfirst, hback, rfl⟩ := h parts hparts
  refine ⟨List.cons_ne_nil _ _, admits_of_isPlain (hfits ▸ trivial) ?_⟩
  exact (@isPlain_append [first] back).2 ⟨isPlain_of_isOperand hfirst, hback⟩

/-- An operand and what turns it into another one. -/
theorem Forms.behind {p : Parser Bool} {rest : Nat → Parser Unit}
    (hp : Forms true wanted (found (one Kind.isOperand)) p)
    (hrest : ∀ opening, Turns true strict anywhere opening (one Kind.isOperand ())
      (fun _ => one Kind.isOperand ()) (rest opening)) :
    Forms strict wanted (found (one Kind.isOperand))
      (do let m ← marker; if ← p then rest m; return true else return false) := by
  refine .marker_bind fun opening => hp.then fun there => ?_
  cases there with
  | true =>
    refine Turns.narrow (b := one Kind.isOperand ()) ((hrest opening).answer fun _ _ => id) ?_
    exact forall_follows.2 (by rintro _ rfl parts hparts; exact hparts)
  | false =>
    refine Turns.narrow (b := (· = [])) (.pure_nil rfl) ?_
    exact forall_follows.2 (by rintro _ rfl _ rfl; rfl)

/-- What stands behind an operand turns it into another one. -/
theorem trailer_turns (h : inner.Forms) :
    Turns true true wanted opening (one Kind.isOperand ()) (fun _ => one Kind.isOperand ())
      (trailer inner opening) := by
  refine .current_bind fun kind _ => ?_
  have hstep {kind : Kind} (hend : kind ≠ .endOfFile) (hconstant : kind ≠ .enumConstant) :
      Turns true true (· = kind) opening (one Kind.isOperand ()) (fun _ => one Kind.isOperand ())
        (do take; wrap opening .postfixExpression; return true) := by
    refine (take_forms_word hend).then fun _ => ?_
    refine (wrap_operand_turns rfl rfl rfl ?_).answer fun _ _ => id
    simp only [forall_follows, forall_one, word, forall_eq]
    exact fun operand hoperand => ⟨operand, _, hoperand, by simpa using hconstant, rfl⟩
  split
  · refine (take_forms_word (by decide)).then fun _ => accessedName_forms.then fun _ => ?_
    refine (wrap_operand_turns rfl rfl rfl ?_).answer fun _ _ => id
    simp only [forall_follows, forall_one, word, forall_eq]
    exact fun operand hoperand name hname => ⟨operand, _, hoperand, by simpa using hname, rfl⟩
  · refine (argumentList_forms h).then fun _ => ?_
    refine (wrap_operand_turns rfl rfl rfl ?_).answer fun _ _ => id
    simp only [forall_follows, forall_one, word, forall_eq]
    exact fun operand hoperand => ⟨operand, _, hoperand, by simp, rfl⟩
  · refine (take_forms_word (by decide)).then fun _ =>
      (orMissing_forms h.expression).then fun _ => ?_
    refine (discard_expect_forms (by decide)).then fun _ => ?_
    refine (wrap_operand_turns rfl rfl rfl ?_).answer fun _ _ => id
    simp only [forall_follows, forall_one, word, forall_eq]
    intro operand hoperand index hindex
    exact ⟨operand, _, hoperand, by simpa using isPlain_of_isOperand hindex, rfl⟩
  · exact hstep (by decide) (by decide)
  · exact hstep (by decide) (by decide)
  · exact .pure

theorem operand_forms (h : inner.Forms) :
    Forms strict wanted (found (one Kind.isOperand)) (operand inner) :=
  (primary_forms h).behind fun _ => (trailer_turns h).loop.relax fun _ => rfl

/-! ## Operators -/

theorem unary_forms (h : inner.Forms) :
    Forms strict wanted (found (one Kind.isOperand)) (unary inner) := by
  refine .isAtAny_ite (.marker_bind fun opening => ?_) (operand_forms h)
  refine (take_forms (by decide)).then fun _ => (orMissing_forms h.unary).then fun _ => ?_
  refine (wrap_turns rfl ?_).answer fun _ => forall_word.2 ⟨_, rfl, rfl⟩
  simp only [forall_follows, forall_one, forall_eq, List.nil_append]
  rintro _ ⟨sign, hsign, -, rfl⟩ kind hkind
  refine ⟨by simp, admits_of_isPlain trivial ?_⟩
  refine isPlain_append.2 ⟨isPlain_cons.2 ⟨?_, isPlain_nil⟩, isPlain_of_isOperand hkind⟩
  rintro rfl
  cases hsign

theorem operatorStep_turns (h : inner.Forms) (least : Nat) :
    Turns true true wanted opening (one Kind.isOperand ()) (fun _ => one Kind.isOperand ())
      (operatorStep inner least opening) := by
  refine .current_bind fun kind _ => ?_
  split
  · exact .pure
  next precedence hprecedence =>
  have hend : kind ≠ .endOfFile := by
    rintro rfl
    cases hprecedence
  have hconstant : kind ≠ .enumConstant := by
    rintro rfl
    cases hprecedence
  split_ifs
  · exact .pure
  · refine (take_forms_word hend).then fun _ =>
      (orMissing_forms (typeReference_forms h)).then fun _ => ?_
    refine (wrap_operand_turns rfl rfl rfl ?_).answer fun _ _ => id
    simp only [forall_follows, forall_one, word, forall_eq]
    exact fun operand hoperand => ⟨operand, _, hoperand, by simpa using hconstant, rfl⟩
  · refine (take_forms_word hend).then fun _ => (orMissing_forms h.operation).then fun _ => ?_
    refine (wrap_operand_turns rfl rfl rfl ?_).answer fun _ _ => id
    simp only [forall_follows, forall_one, word, forall_eq]
    intro operand hoperand right hright
    have hright := isPlain_of_isOperand hright
    exact ⟨operand, _, hoperand, by simp_all, rfl⟩

theorem operation_forms (h : inner.Forms) (least : Nat) :
    Forms strict wanted (found (one Kind.isOperand)) (operation inner least) :=
  (unary_forms h).behind fun _ => (operatorStep_turns h least).loop.relax fun _ => rfl

theorem choices_turns (h : inner.Forms) :
    Turns true strict wanted opening (Follows (one Kind.isOperand ()) (· = [.question]))
      (fun _ => one Kind.isOperand ()) (choices inner opening) := by
  refine (orMissing_forms h.expression.at).then fun _ => ?_
  refine (discard_expect_forms (by decide)).then fun _ => ?_
  refine (orMissing_forms h.conditional).then fun _ => ?_
  refine wrap_operand_turns rfl rfl rfl ?_
  simp only [forall_follows, forall_one, word, forall_eq]
  intro operand hoperand yes hyes no hno
  have hyes := isPlain_of_isOperand hyes
  have hno := isPlain_of_isOperand hno
  exact ⟨operand, _, hoperand, by simp_all, rfl⟩

theorem conditional_forms (h : inner.Forms) :
    Forms strict wanted (found (one Kind.isOperand)) (conditional inner) := by
  refine (operation_forms h 0).behind fun opening => ?_
  refine (takeIf_forms (by decide)).then fun asked => ?_
  cases asked with
  | true => exact choices_turns h
  | false =>
    refine (Turns.pure.mono fun _ => ?_).relax fun _ => rfl
    exact forall_follows.2 (by rintro operand hoperand _ rfl; rwa [List.append_nil])

theorem assignedValue_forms (h : inner.Forms) :
    Forms strict wanted plain (assignedValue inner) := by
  refine .isAt_ite ?_ (orMissing_forms_plain h.expression_plain)
  exact (arrayInitializer_forms h).mono fun _ => arrayInitializer_isPlain

theorem assignmentRest_turns (h : inner.Forms) :
    Turns true strict wanted opening (one Kind.isOperand ()) (fun _ => one Kind.isOperand ())
      (assignmentRest inner opening) := by
  have hassignment {kind : Kind} (hend : kind ≠ .endOfFile) (hconstant : kind ≠ .enumConstant) :
      Turns true strict (· = kind) opening (one Kind.isOperand ()) (fun _ => one Kind.isOperand ())
        (do take; assignedValue inner; wrap opening .assignment) := by
    refine (take_forms_word hend).then fun _ => (assignedValue_forms h).then fun _ => ?_
    refine wrap_operand_turns rfl rfl rfl ?_
    simp only [forall_follows, forall_one, word, forall_eq]
    intro operand hoperand value hvalue
    exact ⟨operand, _, hoperand, by simpa using ⟨hconstant, hvalue⟩, rfl⟩
  refine .isAtEither_ite (hassignment (by decide) (by decide))
    (hassignment (by decide) (by decide)) ?_
  exact Turns.pure.relax fun _ => rfl

theorem expression_forms (h : inner.Forms) :
    Forms strict wanted (found (one Kind.isOperand)) (expression inner) :=
  (conditional_forms h).behind fun _ => assignmentRest_turns h

end StatementCompletion.Grammar
