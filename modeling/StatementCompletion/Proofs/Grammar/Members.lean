import StatementCompletion.Grammar.Member
import StatementCompletion.Proofs.Grammar.Statements

/-!
# The promises of the rules for classes and members

The members of a class are parsed behind its brace.  An enum constant is told by reading ahead over
two names, which takes both in before anything else and so goes back exactly.
-/

namespace StatementCompletion.Grammar

variable {place : Place} {n floor opening : Nat} {inner : Inner}

/-! ## Methods and fields -/

theorem parameterList_builds (h : inner.Builds n) :
    Builds (n + 1) floor (parameterList inner) := by
  refine .marker_bind fun opening hopening => ?_
  refine take_parses.bind fun _ => ?_
  have hparameters : Builds (n + 1) floor
      (orMissing (separated .comma (parameter inner)) (.construct .parameter)) :=
    orMissing_builds _ (separated_parses (by decide) (parameter_builds h))
  refine (unlessAt_parses hparameters).bind fun _ => ?_
  refine (expect_builds (by decide)).discard.bind fun _ => ?_
  exact wrap_builds _ hopening

theorem throwsList_builds (h : inner.Builds n) : Builds (n + 1) floor (throwsList inner) := by
  refine .isAt_ite ?_ (.pure id)
  refine .marker_bind fun opening hopening => ?_
  refine Eats.parsesAt (Eats.take_bind ?_) (by decide)
  exact (types_builds h).less.bind fun _ => wrap_builds _ hopening

theorem methodBody_builds (h : inner.Builds n) : Builds (n + 1) floor (methodBody inner) := by
  refine .isAt_ite ((codeBlock_eats h).parsesAt (by decide)) ?_
  exact .isAt_ite take_parses.parsesAt (missing_builds _)

theorem methodBehindName_builds (h : inner.Builds n) (hopening : floor ≤ opening) :
    Builds (n + 1) floor (methodBehindName inner opening) := by
  refine (parameterList_builds h).bind fun _ => ?_
  refine (loop_parses dimension_parses).bind fun _ => ?_
  refine (throwsList_builds h).bind fun _ => ?_
  refine (methodBody_builds h).bind fun _ => ?_
  exact wrap_builds _ hopening

theorem nextField_parses (h : inner.Builds n) :
    Parses place (n + 1) floor (· = true) (nextField inner) := by
  refine .takeIf_ite (by decide) ?_ (.pure (by simp))
  refine (expect_builds (by decide)).discard.bind fun _ => ?_
  exact (variableRest_builds h).less.bind fun _ => .pure id

theorem fieldBehindName_builds (h : inner.Builds n) (hopening : floor ≤ opening) :
    Builds (n + 1) floor (fieldBehindName inner opening) := by
  refine (variableRest_builds h).bind fun _ => ?_
  refine (loop_parses (nextField_parses h)).bind fun _ => ?_
  refine (expect_builds (by decide)).discard.bind fun _ => ?_
  exact wrap_builds _ hopening

theorem brokenField_builds (wanted : Wanted) (hopening : floor ≤ opening) :
    Builds n floor (brokenField opening wanted) := by
  refine (missing_builds wanted).bind fun _ => ?_
  refine (takeIf_parses (by decide)).discard.bind fun _ => ?_
  exact wrap_builds _ hopening

/-! ## Enum constants -/

theorem declaresMember_reads : Reads n declaresMember := by
  refine lookAhead_reads fun floor => ?_
  refine take_parses.bind fun _ => ?_
  exact take_parses.bind fun _ => (isAtAny_reads _).parses

/-- An enum constant begins with a name. -/
theorem isEnumConstant_bind_parses {α : Type} {f : Bool → Parser α} {taken : α → Prop}
    (htrue : ParsesAt .identifier place n floor taken (f true))
    (hfalse : Parses place n floor taken (f false)) :
    Parses place n floor taken (isEnumConstant >>= f) := by
  unfold isEnumConstant
  rw [bind_assoc]
  refine .isAt_bind ?_ ?_
  · refine Reads.bindAt (peek_reads.andThen fun kind => ?_) fun b => ?_
    · split
      any_goals exact Reads.pure _
      refine peekIsOnNewLine_reads.andThen fun onNewLine => ?_
      exact declaresMember_reads.andThen fun declares => Reads.pure _
    · cases b with
      | true => exact htrue
      | false => exact hfalse.parsesAt
  · exact hfalse

theorem enumConstant_parses (h : inner.Builds n) :
    Parses .solid (n + 1) floor (· = true) (enumConstant inner) := by
  refine isEnumConstant_bind_parses ?_ (.pure (by simp))
  refine .marker_bind fun opening hopening => ?_
  have harguments : Builds (n + 1) floor (whenAt .leftParen (argumentList inner)) :=
    whenAt_parses ((argumentList_eats h).parsesAt (by decide))
  have hmembers : Builds (n + 1) floor (whenAt .leftBrace (memberBlock inner)) :=
    whenAt_parses ((memberBlock_eats h).parsesAt (by decide))
  refine Eats.parsesAt (Eats.take_bind ?_) (by decide)
  refine harguments.less.bind fun _ => ?_
  refine hmembers.less.bind fun _ => ?_
  refine (wrap_builds _ hopening).bind fun _ => ?_
  refine Parses.ite (takeIf_parses (by decide)) (.pure id) ?_
  refine isEnumConstant_bind_parses ?_ (.pure id)
  exact ((missing_builds _).bind fun _ => .pure id).parsesAt

theorem enumConstants_builds (h : inner.Builds n) :
    Builds (n + 1) floor (enumConstants inner) := by
  refine (loop_parses (enumConstant_parses h)).bind fun _ => ?_
  refine Parses.ite (takeIf_parses (by decide)) (.pure id) ?_
  refine (isAt_reads _).bind fun atEnd => ?_
  refine (isAt_reads _).bind fun atBrace => ?_
  split
  · exact .pure id
  · exact missing_builds _

/-! ## Classes -/

theorem constantsOf_builds (h : inner.Builds n) (isEnum : Bool) :
    Builds (n + 1) floor (constantsOf inner isEnum) := by
  cases isEnum with
  | true => exact enumConstants_builds h
  | false => exact .pure id

theorem classBody_builds (h : inner.Builds n) (isEnum : Bool) :
    Builds (n + 1) floor (classBody inner isEnum) := by
  refine .isAt_ite ?_ (missing_builds _)
  refine Eats.parsesAt (Eats.take_bind ?_) (by decide)
  refine (constantsOf_builds h isEnum).less.bind fun _ => ?_
  exact itemsUpToBrace_builds h.member.discard

theorem typesBehind_builds (h : inner.Builds n) {keyword : Kind} (hkeyword : keyword ≠ .endOfFile) :
    Builds (n + 1) floor (typesBehind inner keyword) :=
  whenTaken_parses hkeyword (types_builds h).less

theorem classDeclaration_eats (h : inner.Builds n) (hopening : floor ≤ opening) :
    Eats (n + 1) floor (classDeclaration inner opening) := by
  refine (isAt_reads _).bindEats fun isEnum => ?_
  refine Eats.take_bind ?_
  refine (expect_builds (by decide)).discard.bind fun _ => ?_
  have harguments : Builds (n + 1) floor (whenAt .less (discard (typeArguments inner))) :=
    whenAt_parses ((typeArguments_eats h).discard.parsesAt (by decide))
  refine harguments.less.bind fun _ => ?_
  refine (typesBehind_builds h (by decide)).less.bind fun _ => ?_
  refine (typesBehind_builds h (by decide)).less.bind fun _ => ?_
  refine (classBody_builds h isEnum).less.bind fun _ => ?_
  exact wrap_builds _ hopening

theorem typedMember_builds (h : inner.Builds n) (hopening : floor ≤ opening) :
    Builds (n + 1) floor (typedMember inner opening) := by
  refine (typeReference_parses h).ite ?_ ?_
  · refine Parses.ite (takeIf_parses (by decide)) ?_ (brokenField_builds _ hopening)
    refine .isAt_ite ?_ (fieldBehindName_builds h hopening)
    exact (methodBehindName_builds h hopening).parsesAt
  · refine .marker_bind fun now _ => ?_
    split
    · exact brokenField_builds _ hopening
    · exact .pure id

theorem member_builds (h : inner.Builds n) : Builds (n + 1) floor (member inner) := by
  refine .marker_bind fun opening hopening => ?_
  refine (modifiers_parses h).bind fun _ => ?_
  refine .isAtAny_ite rfl (classDeclaration_eats h hopening) ?_
  refine .isAt_ite ?_ ?_
  · exact ((codeBlock_eats h).bind fun _ => wrap_builds _ hopening).parsesAt (by decide)
  · refine .isAtBefore_ite ?_ (typedMember_builds h hopening)
    exact (take_parses.bind fun _ => methodBehindName_builds h hopening).parsesAt

end StatementCompletion.Grammar
