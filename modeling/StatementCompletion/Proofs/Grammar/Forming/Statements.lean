import StatementCompletion.Proofs.Grammar.Agreement.Statements
import StatementCompletion.Proofs.Grammar.Forming.Expressions

/-!
# What the rules for statements add

A statement adds one node.  Its rule is run behind a marker at which the statement begins, so it is
said of each rule what stands behind that marker in the end.

The last part of the header of a counting loop is the one expression statement without a semicolon.
-/

namespace StatementCompletion.Grammar

open Grammar.Language

variable {strict : Bool} {wanted : Kind → Prop} {opening : Nat} {inner : Inner}

/-! ## Modifiers and variables -/

theorem modifier_forms (h : inner.Forms) : Forms strict wanted plain (modifier inner) := by
  have htaken {kind : Kind} : Forms strict (· = kind) plain (do take; return true) :=
    take_forms_plain.plain_bind fun _ => .plain_pure
  have hname : Forms strict anywhere plain (discard (expect .identifier)) :=
    (discard_expect_forms (by decide)).mono fun _ => forall_word.2 (by simp)
  have harguments : Forms strict anywhere plain (whenAt .leftParen (argumentList inner)) :=
    (whenAt_forms (argumentList_forms h)).mono (option_isPlain fun _ => argumentList_isPlain)
  refine .current_bind fun kind _ => ?_
  split
  · exact htaken
  · exact htaken
  · refine take_forms_plain.plain_bind fun _ => hname.plain_bind fun _ => ?_
    refine (loop_forms dottedName_forms).plain_bind fun _ => ?_
    exact harguments.plain_bind fun _ => .plain_pure
  · exact .plain_pure

theorem modifiers_forms (h : inner.Forms) : Forms strict wanted plain (modifiers inner) := by
  refine .marker_bind fun opening => (loop_forms (modifier_forms h)).then fun _ => .built_ite ?_ ?_
  · refine (wrap_turns rfl ?_).mono fun _ => forall_word.2 (by simp)
    rintro parts ⟨⟨_, back, rfl, hback, rfl⟩, hnil⟩
    exact ⟨hnil, admits_of_isPlain trivial hback⟩
  · refine (Turns.pure.mono ?_).relax fun _ => rfl
    rintro - _ ⟨-, rfl⟩
    exact isPlain_nil

theorem initialValue_forms (h : inner.Forms) : Forms strict wanted plain (initialValue inner) := by
  refine .isAt_ite ?_ (orMissing_forms_plain ?_)
  · exact (arrayInitializer_forms h).mono fun _ => arrayInitializer_isPlain
  · exact (expression_forms h).mono (found_isPlain one_isOperand_isPlain)

theorem variableRest_forms (h : inner.Forms) : Forms strict wanted plain (variableRest inner) := by
  refine (loop_forms dimension_forms).plain_bind fun _ => ?_
  refine (whenTaken_forms (by decide) (initialValue_forms h)).mono (option_isPlain fun _ => ?_)
  exact forall_follows.2 (by rintro _ rfl value hvalue; simpa using hvalue)

theorem nextVariable_forms (h : inner.Forms) : Forms strict wanted plain (nextVariable inner) := by
  refine Forms.plain_ite (takeIf_forms_plain (by decide) (by decide)) ?_ .plain_pure
  refine .marker_bind fun opening => (discard_expect_forms (by decide)).then fun _ => ?_
  refine (variableRest_forms h).then fun _ => ?_
  refine (wrap_turns rfl ?_).answer fun _ => forall_word.2 (by simp)
  simp only [forall_follows, word, forall_eq, plain_iff, List.nil_append]
  intro value hvalue
  exact ⟨by simp, admits_of_isPlain trivial (by simpa using hvalue)⟩

theorem variableDeclaration_turns (h : inner.Forms) :
    Turns true strict wanted opening IsPlain (word [.declarationStatement])
      (variableDeclaration inner opening) := by
  refine (orMissing_forms (typeReference_forms h)).then fun _ => ?_
  refine (discard_expect_forms (by decide)).then fun _ => (variableRest_forms h).then fun _ => ?_
  refine Turns.bind_strict (wrap_turns rfl ?_) fun _ => ?_
  · simp only [forall_follows, word, forall_eq, plain_iff]
    intro modifiers hmodifiers value hvalue
    exact ⟨by simp, admits_of_isPlain trivial (by simp [hmodifiers, hvalue])⟩
  · refine (loop_forms (nextVariable_forms h)).then fun _ => ?_
    refine (discard_expect_forms (by decide)).then fun _ => wrap_turns rfl ?_
    simp only [forall_follows, word, forall_eq, plain_iff]
    intro others hothers
    exact ⟨by simp, admits_of_isPlain (by simp [Kind.Fits]) (by simp [hothers])⟩

theorem alternativeType_forms (h : inner.Forms) :
    Forms strict wanted plain (alternativeType inner) := by
  refine Forms.plain_ite (takeIf_forms_plain (by decide) (by decide)) ?_ .plain_pure
  refine Forms.plain_bind (Forms.plain_discard ?_) fun _ => .plain_pure
  exact (typeReference_forms h).mono (found_isPlain typeReference_isPlain)

theorem parameterRest_forms (h : inner.Forms) :
    Forms strict wanted (fun _ parts => parts ≠ [] ∧ IsPlain parts) (parameterRest inner) := by
  have hname : Forms strict anywhere plain (discard (expect .identifier)) :=
    (discard_expect_forms (by decide)).mono fun _ => forall_word.2 (by simp)
  have hrest : Forms strict anywhere plain (do
      loop (alternativeType inner)
      loop (takeIf .dot)
      discard (expect .identifier)
      loop dimension) := by
    refine (loop_forms (alternativeType_forms h)).plain_bind fun _ => ?_
    refine (loop_forms (takeIf_forms_plain (by decide) (by decide))).plain_bind fun _ => ?_
    exact hname.plain_bind fun _ => loop_forms dimension_forms
  refine (typeReference_forms h).ite hrest (missing_forms _) ?_ fun _ _ _ _ => False.elim
  rintro _ rfl _ back hback
  exact ⟨by simp, by simpa using hback⟩

theorem parameter_forms (h : inner.Forms) :
    Forms strict wanted (found (word [.parameter])) (parameter inner) := by
  refine .isAtAny_ite (.marker_bind fun opening => ?_) (.pure rfl)
  refine (modifiers_forms h).at.then fun _ => (parameterRest_forms h).then fun _ => ?_
  refine (wrap_turns rfl ?_).answer fun _ _ => id
  simp only [forall_follows, forall_eq, List.nil_append, plain_iff]
  rintro modifiers hmodifiers rest ⟨hnil, hrest⟩
  exact ⟨by simp [hnil], admits_of_isPlain trivial (by simp [hmodifiers, hrest])⟩

/-! ## Blocks and bodies -/

theorem isPlain_of_isPhrase {kind : Kind} (h : kind.isPhrase = true) : IsPlain [kind] := by
  refine isPlain_cons.2 ⟨?_, isPlain_nil⟩
  rintro rfl
  cases h

theorem one_isPhrase_isPlain {α : Type} {a : α} :
    ∀ parts, one Kind.isPhrase a parts → IsPlain parts :=
  forall_one.2 fun _ => isPlain_of_isPhrase

theorem Inner.Forms.statement_plain (h : inner.Forms) :
    Grammar.Forms strict (· ≠ .endOfFile) plain (discard (inner .statement)) :=
  (h.statement.mono fun _ => one_isPhrase_isPlain).plain_discard

theorem codeBlock_forms (h : inner.Forms) :
    Forms strict (· = .leftBrace) (word [.codeBlock]) (codeBlock inner) := by
  refine .marker_bind fun opening => (take_forms_word (by decide)).then fun _ => ?_
  refine (itemsUpToBrace_forms h.statement_plain).then fun _ => wrap_turns rfl ?_
  simp only [forall_follows, word, forall_eq, List.nil_append]
  intro statements hstatements
  exact ⟨by simp, admits_of_isPlain trivial (by simp [hstatements])⟩

theorem requiredBlock_forms (h : inner.Forms) (missed : Wanted) :
    Forms strict wanted (word [.codeBlock]) (requiredBlock inner missed) :=
  .isAt_ite (codeBlock_forms h) ((missing_forms missed).mono fun _ _ => False.elim)

theorem body_forms (h : inner.Forms) : Forms strict wanted (one Kind.isPhrase) (body inner) := by
  refine .isAtAny_ite ?_ ((missing_forms _).mono fun _ _ => False.elim)
  refine Forms.narrow (h.statement.discard.mono fun _ parts ⟨_, hparts⟩ => hparts) ?_
  rintro _ hstarts rfl
  cases hstarts

/-- A condition in parentheses. -/
def header : Language Unit :=
  fun _ parts => ∃ condition : Kind, condition.isOperand = true
    ∧ parts = [.leftParen, condition, .rightParen]

theorem forall_header {P : List Kind → Prop} :
    (∀ parts, header () parts → P parts)
      ↔ ∀ condition : Kind, condition.isOperand = true →
          P [.leftParen, condition, .rightParen] := by
  constructor
  · exact fun h condition hcondition => h _ ⟨condition, hcondition, rfl⟩
  · rintro h _ ⟨condition, hcondition, rfl⟩
    exact h condition hcondition

theorem condition_forms (h : inner.Forms) : Forms strict wanted header (condition inner) := by
  have hinside : Forms strict anywhere
      (fun _ => Follows (one Kind.isOperand ()) (· = [.rightParen]))
      (do orMissing (expression inner) .expression; discard (expect .rightParen)) := by
    refine (orMissing_forms (expression_forms h)).last
      (fun _ => discard_expect_forms (by decide)) ?_
    exact fun _ front hfront _ back hback => ⟨front, back, hfront, hback, rfl⟩
  have hexpression : Forms strict anywhere (found (one Kind.isOperand)) (expression inner) :=
    expression_forms h
  have houtside : Forms strict anywhere none (do
      missing (.construct .leftParen)
      if !(← isOnNewLine) && (← isAtAny startsExpression) then
        discard (expression inner)) := by
    refine (missing_forms _).last (m := fun _ => plain) (fun _ => ?_) fun _ _ => False.elim
    refine .any_isOnNewLine_bind fun onNewLine => .any_isAtAny_bind fun starts => ?_
    split
    · exact (hexpression.mono (found_isPlain one_isOperand_isPlain)).plain_discard
    · exact .plain_pure
  refine (takeIf_forms (by decide)).ite hinside houtside ?_ fun _ _ _ _ => False.elim
  rintro _ rfl _ _ ⟨_, _, ⟨condition, hcondition, rfl⟩, rfl, rfl⟩
  exact ⟨condition, hcondition, rfl⟩

theorem isPlain_header {condition : Kind} (h : condition.isOperand = true) :
    IsPlain [.leftParen, condition, .rightParen] := by
  have hplain := isPlain_of_isOperand h
  simp_all

/-! ## Branches and loops -/

theorem ifStatement_turns (h : inner.Forms) :
    Turns true strict (· = .ifKeyword) opening (· = []) (word [.ifStatement])
      (ifStatement inner opening) := by
  have helse : Forms true anywhere plain (whenTaken .elseKeyword (body inner)) := by
    refine (whenTaken_forms (by decide) (body_forms h)).mono (option_isPlain fun _ => ?_)
    refine forall_follows.2 ?_
    rintro _ rfl back hback
    exact isPlain_append.2 ⟨by simp, one_isPhrase_isPlain back hback⟩
  refine (take_forms_word (by decide)).then fun _ => (condition_forms h).then fun _ => ?_
  refine (body_forms h).then fun _ => helse.then fun _ => wrap_turns rfl ?_
  simp only [forall_follows, forall_header, forall_one, word, forall_eq, plain_iff, List.nil_append]
  intro condition hcondition body hbody back hback
  refine ⟨by simp, admits_of_isPlain ⟨[], condition, body :: back, by simp, hcondition, rfl⟩ ?_⟩
  have hheader := isPlain_header hcondition
  have hphrase := isPlain_of_isPhrase hbody
  simp_all

theorem whileStatement_turns (h : inner.Forms) :
    Turns true strict (· = .whileKeyword) opening (· = []) (word [.whileStatement])
      (whileStatement inner opening) := by
  refine (take_forms_word (by decide)).then fun _ => (condition_forms h).then fun _ => ?_
  refine (body_forms h).then fun _ => wrap_turns rfl ?_
  simp only [forall_follows, forall_header, forall_one, word, forall_eq, List.nil_append]
  intro condition hcondition body hbody
  refine ⟨by simp, admits_of_isPlain ⟨[], condition, [body], by simp, hcondition, rfl⟩ ?_⟩
  have hheader := isPlain_header hcondition
  have hphrase := isPlain_of_isPhrase hbody
  simp_all

theorem doWhileCondition_forms (h : inner.Forms) :
    Forms strict wanted (fun _ => Follows (· = [.whileKeyword]) (header ()))
      (doWhileCondition inner) := by
  refine (takeIf_forms (by decide)).ite (condition_forms h) (missing_forms _) ?_
    fun _ _ _ _ => False.elim
  exact fun front hfront _ back hback => ⟨front, back, hfront, hback, rfl⟩

theorem doWhileStatement_turns (h : inner.Forms) :
    Turns true strict (· = .doKeyword) opening (· = []) (word [.doWhileStatement])
      (doWhileStatement inner opening) := by
  refine (take_forms_word (by decide)).then fun _ => (body_forms h).then fun _ => ?_
  refine (doWhileCondition_forms h).then fun _ =>
    (discard_expect_forms (by decide)).then fun _ => ?_
  refine wrap_turns rfl ?_
  simp only [forall_follows, forall_header, forall_one, word, forall_eq, List.nil_append]
  intro body hbody condition hcondition
  have hkeyword : .whileKeyword ∉ [Kind.doKeyword, body] := by
    have : body ≠ .whileKeyword := by
      rintro rfl
      cases hbody
    simp [this.symm]
  refine ⟨by simp, admits_of_isPlain ⟨⟨[.doKeyword, body], condition, [.semicolon], hkeyword,
    hcondition, rfl⟩, rfl⟩ ?_⟩
  have hheader := isPlain_header hcondition
  have hphrase := isPlain_of_isPhrase hbody
  simp_all

theorem nextExpression_forms (h : inner.Forms) :
    Forms strict wanted plain (nextExpression inner) := by
  refine Forms.plain_ite (takeIf_forms_plain (by decide) (by decide)) ?_ .plain_pure
  refine Forms.plain_bind (Forms.plain_discard ?_) fun _ => .plain_pure
  exact (expression_forms h).mono (found_isPlain one_isOperand_isPlain)

theorem expression_starts (h : inner.Forms) :
    Forms strict (startsExpression · = true) (one Kind.isOperand) (discard (expression inner)) :=
  (expression_forms h).discard_phrase expression_phrase

theorem Turns.isVariableDeclaration_bind {α : Type} {strict' : Bool} {before : List Kind → Prop}
    {after : Language α} {f : Bool → Parser α} (h : inner.Forms)
    (htrue : Turns strict strict' (startsType · = true) opening before after (f true))
    (hfalse : Turns strict strict' wanted opening before after (f false)) :
    Turns strict strict' wanted opening before after (isVariableDeclaration inner >>= f) := by
  intro s₀ s hopening hs hwanted hbefore a u hrun
  obtain ⟨there, t, hlook, hrest⟩ := run_bind_eq_some.1 hrun
  have hreads : ReadsAt wanted (isVariableDeclaration inner) (isVariableDeclaration inner) :=
    isVariableDeclaration_reads_in_step h.agree
  obtain ⟨-, rfl, -⟩ := hreads s s hs.alike hwanted trivial there t there t hlook hlook
  cases there with
  | true =>
    have hstarts := startsType_of_isVariableDeclaration hlook
    exact htrue s₀ t hopening hs hstarts hbefore a u hrest
  | false => exact hfalse s₀ t hopening hs hwanted hbefore a u hrest

theorem forInitializer_forms (h : inner.Forms) :
    Forms strict wanted plain (forInitializer inner) := by
  have hdeclaration {wanted : Kind → Prop} {opening : Nat} :
      Turns true strict wanted opening (· = []) plain
        (do modifiers inner; variableDeclaration inner opening) := by
    refine (modifiers_forms h).then fun _ => ?_
    refine (variableDeclaration_turns h).narrow ?_ |>.mono fun _ => forall_word.2 (by simp)
    simp only [forall_follows, forall_eq, List.nil_append, plain_iff]
    exact fun _ => id
  have hexpression {opening : Nat} :
      Turns true strict anywhere opening (· = []) plain (do
        if ← isAtAny startsExpression then
          discard (expression inner)
          loop (nextExpression inner)
          discard (expect .semicolon)
          wrap opening .expressionStatement
        else
          missing (.construct .semicolon)) := by
    refine .isAtAny_ite ?_ ((missing_turns _).relax fun _ => rfl)
    refine (expression_starts h).then fun _ =>
      (loop_forms (nextExpression_forms h)).then fun _ => ?_
    refine (discard_expect_forms (by decide)).then fun _ => ?_
    refine (wrap_ended_turns rfl (.inr rfl) ?_).mono fun _ => forall_word.2 (by simp)
    simp only [forall_follows, forall_one, word, forall_eq, plain_iff, List.nil_append]
    intro first hfirst others hothers
    have hoperand := isPlain_of_isOperand hfirst
    exact ⟨by simp, admits_of_isPlain trivial (by simp_all), fun _ _ => by simp⟩
  refine .marker_bind fun opening => .isAt_ite ?_ (.isAt_bind ?_ ?_)
  · refine (take_forms_word (by decide)).then fun _ => ?_
    refine (wrap_turns rfl ?_).mono fun _ => forall_word.2 (by simp)
    simp only [forall_follows, word, forall_eq, List.nil_append]
    exact ⟨by simp, admits_of_isPlain trivial (by simp)⟩
  · exact .reads_bind (isVariableDeclaration_reads_in_step h.agree) fun _ => hdeclaration
  · exact .isVariableDeclaration_bind h hdeclaration hexpression.at

/-- Whether the last part of the header has a semicolon is not asked. -/
theorem forUpdate_forms (h : inner.Forms) : Forms false wanted plain (forUpdate inner) := by
  refine .isAtAny_ite (.marker_bind fun opening => ?_) .plain_pure
  refine (expression_starts h).then fun _ => (loop_forms (nextExpression_forms h)).then fun _ => ?_
  refine (wrap_ended_turns rfl (.inr rfl) ?_).mono fun _ => forall_word.2 (by simp)
  simp only [forall_follows, forall_one, forall_eq, plain_iff, List.nil_append]
  intro first hfirst others hothers
  have hoperand := isPlain_of_isOperand hfirst
  refine ⟨by simp, admits_of_isPlain trivial (by simp_all), fun hstrict => ?_⟩
  cases hstrict

/-- A statement or a class that is told by its first token. -/
def Kind.isWorded (kind : Kind) : Bool :=
  kind.isPhrase && kind ≠ .expressionStatement

/-- A loop `for` behind its parenthesis. -/
abbrev forOpening : List Kind → Prop :=
  (· = [.forKeyword, .leftParen])

theorem foreachRest_turns (h : inner.Forms) :
    Turns true strict wanted opening forOpening (word [.foreachStatement])
      (foreachRest inner opening) := by
  have hparameter : Forms true wanted plain (discard (parameter inner)) :=
    ((parameter_forms h).mono (found_isPlain (forall_word.2 (by simp)))).plain_discard
  refine hparameter.then fun _ => take_forms_plain.then fun _ => ?_
  refine (orMissing_forms (expression_forms h)).then fun _ => ?_
  refine (discard_expect_forms (by decide)).then fun _ => (body_forms h).then fun _ => ?_
  refine wrap_turns rfl ?_
  simp only [forall_follows, forall_one, word, forall_eq, plain_iff]
  intro parameter hparameter sign hsign elements helements body hbody
  have hoperand := isPlain_of_isOperand helements
  have hphrase := isPlain_of_isPhrase hbody
  exact ⟨by simp, admits_of_isPlain (by simp [Kind.Fits]) (by simp_all)⟩

theorem forRest_turns (h : inner.Forms) :
    Turns true strict wanted opening forOpening (word [.forStatement]) (forRest inner opening) := by
  have hcondition : Forms false anywhere plain
      (whenAtAny startsExpression (discard (expression inner))) := by
    refine (whenAtAny_forms ?_).mono (option_isPlain fun _ _ => id)
    exact ((expression_forms h).mono (found_isPlain one_isOperand_isPlain)).plain_discard
  refine Turns.strengthen ((forInitializer_forms h).then fun _ => hcondition.then fun _ => ?_)
  refine (discard_expect_forms (by decide)).then fun _ => (forUpdate_forms h).then fun _ => ?_
  refine (discard_expect_forms (by decide)).then fun _ => (body_forms h).then fun _ => ?_
  refine wrap_ended_turns rfl (.inl rfl) ?_
  simp only [forall_follows, forall_one, word, forall_eq, plain_iff]
  intro first hfirst condition hcondition update hupdate body hbody
  have hphrase := isPlain_of_isPhrase hbody
  exact ⟨by simp, admits_of_isPlain (by simp [Kind.Fits]) (by simp_all), nofun⟩

theorem forStatement_turns (h : inner.Forms) :
    Turns true strict (· = .forKeyword) opening (· = []) (fun _ => one Kind.isWorded ())
      (forStatement inner opening) := by
  have hopening : ∀ parts,
      Follows (Follows (· = []) (word [.forKeyword] ())) (found (word [.leftParen]) true) parts →
        forOpening parts := by
    rintro _ ⟨_, _, ⟨_, _, rfl, rfl, rfl⟩, rfl, rfl⟩
    rfl
  refine (take_forms_word (by decide)).then fun _ =>
    (takeIf_forms (by decide)).then fun opened => ?_
  cases opened with
  | true =>
    refine Turns.narrow ?_ hopening
    refine .reads_bind (isElementLoop_reads_in_step h.agree) fun elements => ?_
    split
    · exact (foreachRest_turns h).mono fun _ => forall_word.2 ⟨_, rfl, rfl⟩
    · exact (forRest_turns h).mono fun _ => forall_word.2 ⟨_, rfl, rfl⟩
  | false =>
    refine (missing_forms _).then fun _ => ?_
    refine (wrap_turns rfl ?_).mono fun _ => forall_word.2 ⟨_, rfl, rfl⟩
    rintro _ ⟨_, _, -, hfalse, -⟩
    exact hfalse.elim

/-! ## Switches, handlers and jumps -/

theorem switchStatement_turns (h : inner.Forms) :
    Turns true strict (· = .switchKeyword) opening (· = []) (word [.switchStatement])
      (switchStatement inner opening) := by
  refine (take_forms_word (by decide)).then fun _ => (condition_forms h).then fun _ => ?_
  refine (requiredBlock_forms h _).then fun _ => wrap_turns rfl ?_
  simp only [forall_follows, forall_header, word, forall_eq, List.nil_append]
  intro condition hcondition
  have hheader := isPlain_header hcondition
  refine ⟨by simp,
    admits_of_isPlain ⟨⟨[], condition, [.codeBlock], by simp, hcondition, rfl⟩, ?_⟩ ?_⟩
  · simp
  · simp_all

theorem labelValues_forms (h : inner.Forms) : Forms strict wanted plain (labelValues inner) := by
  refine Forms.plain_ite (takeIf_forms_plain (by decide) (by decide)) ?_ take_forms_plain
  refine Forms.plain_bind (orMissing_forms_plain ?_) fun _ => loop_forms (nextExpression_forms h)
  exact (expression_forms h).mono (found_isPlain one_isOperand_isPlain)

/-- A label ends with a colon or an arrow. -/
theorem labelEnd_forms :
    Forms strict wanted (fun _ parts => parts = [.colon] ∨ parts = [.arrow]) labelEnd := by
  refine .isAtEither_ite ?_ ?_ ((missing_forms _).mono fun _ _ => False.elim)
  · exact (take_forms_word (by decide)).mono fun _ _ => .inl
  · exact (take_forms_word (by decide)).mono fun _ _ => .inr

theorem switchLabel_turns (h : inner.Forms) :
    Turns true strict wanted opening (· = []) (word [.switchLabel])
      (switchLabel inner opening) := by
  refine (labelValues_forms h).then fun _ => labelEnd_forms.then fun _ => wrap_turns rfl ?_
  simp only [forall_follows, forall_eq, plain_iff, List.nil_append]
  rintro values hvalues _ (rfl | rfl)
  · exact ⟨by simp, admits_of_isPlain trivial (by simp [hvalues])⟩
  · exact ⟨by simp, admits_of_isPlain trivial (by simp [hvalues])⟩

theorem resource_forms (h : inner.Forms) : Forms strict wanted plain (resource inner) := by
  have hexpression {strict : Bool} {wanted : Kind → Prop} :
      Forms strict wanted plain (expression inner) :=
    (expression_forms h).mono (found_isPlain one_isOperand_isPlain)
  have hvalue : Forms true anywhere plain
      (whenTaken .assign (orMissing (expression inner) .expression)) := by
    refine (whenTaken_forms (by decide) (orMissing_forms_plain hexpression)).mono
      (option_isPlain fun _ => ?_)
    exact forall_follows.2 (by rintro _ rfl value hvalue; simpa using hvalue)
  refine .marker_bind fun opening => .isVariableDeclaration_bind h ?_ ?_
  · refine ((typeReference_forms h).discard_phrase typeReference_phrase).then fun _ => ?_
    refine take_forms_plain.then fun _ => hvalue.then fun _ => ?_
    refine (wrap_turns rfl ?_).mono fun _ => forall_word.2 (by simp)
    simp only [forall_follows, word, forall_eq, plain_iff, List.nil_append]
    intro name hname value hvalue
    exact ⟨by simp, admits_of_isPlain trivial (by simp [hname, hvalue])⟩
  · exact hexpression.plain_discard.fresh

theorem resourceItem_forms (h : inner.Forms) : Forms strict wanted plain (resourceItem inner) := by
  have hresource : Forms strict anywhere plain (do
      let opening ← marker
      resource inner
      if (← marker) = opening then return false else takeIf .semicolon) := by
    refine .any_marker_bind fun opening => (resource_forms h).plain_bind fun _ => ?_
    refine .any_marker_bind fun position => ?_
    split_ifs
    · exact .plain_pure
    · exact takeIf_forms_plain (by decide) (by decide)
  exact .isAtEither_ite .plain_pure .plain_pure hresource.at

theorem caughtParameter_forms (h : inner.Forms) :
    Forms strict wanted (word [.leftParen, .parameter, .rightParen]) (caughtParameter inner) := by
  have hinside : Forms strict anywhere (word [.parameter, .rightParen]) (do
      orMissing (parameter inner) (.construct .parameter)
      discard (expect .rightParen)) := by
    refine (orMissing_forms (parameter_forms h)).last (fun _ => discard_expect_forms (by decide)) ?_
    rintro _ _ rfl _ _ rfl
    rfl
  refine (takeIf_forms (by decide)).ite hinside (missing_forms _) ?_ fun _ _ _ _ => False.elim
  rintro _ rfl _ _ rfl
  rfl

theorem catchSection_forms (h : inner.Forms) : Forms strict wanted plain (catchSection inner) := by
  refine .isAt_ite (.marker_bind fun opening => ?_) .plain_pure
  refine (take_forms_word (by decide)).then fun _ => (caughtParameter_forms h).then fun _ => ?_
  refine (requiredBlock_forms h _).then fun _ => ?_
  refine (wrap_turns rfl ?_).answer fun _ => forall_word.2 (by simp)
  simp only [forall_follows, word, forall_eq, List.nil_append]
  exact ⟨by simp, admits_of_isPlain (by simp [Kind.Fits]) (by simp)⟩

theorem resources_forms (h : inner.Forms) : Forms strict wanted plain (resources inner) := by
  refine (loop_forms (resourceItem_forms h)).plain_bind fun _ => ?_
  exact (discard_expect_forms (by decide)).mono fun _ => forall_word.2 (by simp)

theorem tryStatement_turns (h : inner.Forms) :
    Turns true strict (· = .tryKeyword) opening (· = []) (word [.tryStatement])
      (tryStatement inner opening) := by
  have hresources : Forms true anywhere plain (whenTaken .leftParen (resources inner)) := by
    refine (whenTaken_forms (by decide) (resources_forms h)).mono (option_isPlain fun _ => ?_)
    exact forall_follows.2 (by rintro _ rfl inside hinside; simpa using hinside)
  have hfinally : Forms true anywhere plain
      (whenTaken .finallyKeyword (requiredBlock inner (.construct .leftBrace))) := by
    refine (whenTaken_forms (by decide) (requiredBlock_forms h _)).mono (option_isPlain fun _ => ?_)
    exact forall_follows.2 (by rintro _ rfl _ rfl; simp)
  refine (take_forms_word (by decide)).then fun _ => hresources.then fun _ => ?_
  refine (requiredBlock_forms h _).then fun _ =>
    (loop_forms (catchSection_forms h)).then fun _ => ?_
  refine hfinally.then fun _ => wrap_turns rfl ?_
  simp only [forall_follows, word, forall_eq, plain_iff, List.nil_append]
  intro resources hresources handlers hhandlers last hlast
  exact ⟨by simp, admits_of_isPlain trivial (by simp [hresources, hhandlers, hlast])⟩

theorem synchronizedStatement_turns (h : inner.Forms) :
    Turns true strict (· = .synchronizedKeyword) opening (· = []) (word [.synchronizedStatement])
      (synchronizedStatement inner opening) := by
  refine (take_forms_word (by decide)).then fun _ => (condition_forms h).then fun _ => ?_
  refine (requiredBlock_forms h _).then fun _ => wrap_turns rfl ?_
  simp only [forall_follows, forall_header, word, forall_eq, List.nil_append]
  intro condition hcondition
  have hheader := isPlain_header hcondition
  exact ⟨by simp, admits_of_isPlain (by simp [Kind.Fits]) (by simp_all)⟩

theorem valueJump_turns (h : inner.Forms) {keyword kind : Kind} (hend : keyword ≠ .endOfFile)
    (hconstant : keyword ≠ .enumConstant) (hkind : Kind.isPlain kind = true)
    (hfits : kind.Fits = (·.getLast? = some .semicolon)) :
    Turns true strict (· = keyword) opening (· = []) (word [kind])
      (valueJump inner opening kind) := by
  have hvalue : Forms true anywhere plain
      (whenAtAny startsExpression (discard (expression inner))) := by
    refine (whenAtAny_forms ?_).mono (option_isPlain fun _ _ => id)
    exact ((expression_forms h).mono (found_isPlain one_isOperand_isPlain)).plain_discard
  refine (take_forms_word hend).then fun _ => hvalue.then fun _ => ?_
  refine (discard_expect_forms (by decide)).then fun _ => wrap_turns hkind ?_
  simp only [forall_follows, word, forall_eq, plain_iff, List.nil_append]
  intro value hvalue
  exact ⟨by simp, admits_of_isPlain (by simp [hfits]) (by simp [hconstant, hvalue])⟩

theorem labelJump_turns {keyword kind : Kind} (hend : keyword ≠ .endOfFile)
    (hconstant : keyword ≠ .enumConstant) (hkind : Kind.isPlain kind = true)
    (hfits : kind.Fits = (·.getLast? = some .semicolon)) :
    Turns true strict (· = keyword) opening (· = []) (word [kind]) (labelJump opening kind) := by
  have hlabel : Forms true anywhere plain (discard (takeIf .identifier)) :=
    (takeIf_forms_plain (by decide) (by decide)).plain_discard
  refine (take_forms_word hend).then fun _ => hlabel.then fun _ => ?_
  refine (discard_expect_forms (by decide)).then fun _ => wrap_turns hkind ?_
  simp only [forall_follows, word, forall_eq, plain_iff, List.nil_append]
  intro label hlabel
  exact ⟨by simp, admits_of_isPlain (by simp [hfits]) (by simp [hconstant, hlabel])⟩

theorem expressionStatement_turns (h : inner.Forms) :
    Turns true strict (startsExpression · = true) opening (· = []) (word [.expressionStatement])
      (expressionStatement inner opening) := by
  refine (expression_starts h).then fun _ => (discard_expect_forms (by decide)).then fun _ => ?_
  refine wrap_ended_turns rfl (.inr rfl) ?_
  simp only [forall_follows, forall_one, word, forall_eq, List.nil_append]
  intro value hvalue
  have hoperand := isPlain_of_isOperand hvalue
  exact ⟨by simp, admits_of_isPlain trivial (by simp_all), fun _ _ => by simp⟩

end StatementCompletion.Grammar
