import StatementCompletion.Proofs.Grammar.Agreement.Members
import StatementCompletion.Proofs.Grammar.Forming.Statements

/-!
# What the rules for classes and members add

A member adds one node.  In the body of a class each enum constant is followed by a comma, by a
semicolon or by the closing brace.
-/

namespace StatementCompletion.Grammar

open Grammar.Language

variable {strict : Bool} {wanted : Kind → Prop} {kind : Kind} {opening : Nat} {inner : Inner}

/-! ## Methods and fields -/

theorem parameterList_forms (h : inner.Forms) :
    Forms strict wanted (word [.parameterList]) (parameterList inner) := by
  have hparameters : Forms true anywhere plain (unlessAt .rightParen
      (orMissing (separated .comma (parameter inner)) (.construct .parameter))) := by
    refine (unlessAt_forms (orMissing_forms_plain ?_)).mono (option_isPlain fun _ _ => id)
    refine separated_forms (by decide) (by decide) ?_
    exact (parameter_forms h).mono (found_isPlain (forall_word.2 (by simp)))
  refine .marker_bind fun opening => take_forms_plain.then fun _ => ?_
  refine hparameters.then fun _ => (discard_expect_forms (by decide)).then fun _ => ?_
  refine wrap_turns rfl ?_
  simp only [forall_follows, word, forall_eq, plain_iff, List.nil_append]
  intro opening hopening parameters hparameters
  exact ⟨by simp, admits_of_isPlain (by simp [Kind.Fits]) (by simp [hopening, hparameters])⟩

theorem throwsList_forms (h : inner.Forms) : Forms strict wanted plain (throwsList inner) := by
  refine .isAt_ite (.marker_bind fun opening => ?_) .plain_pure
  refine (take_forms_word (by decide)).then fun _ => (types_forms h).then fun _ => ?_
  refine (wrap_turns rfl ?_).mono fun _ => forall_word.2 (by simp)
  simp only [forall_follows, word, forall_eq, plain_iff, List.nil_append]
  intro types htypes
  exact ⟨by simp, admits_of_isPlain trivial (by simp [htypes])⟩

theorem methodBody_forms (h : inner.Forms) :
    Forms strict wanted (fun _ parts => parts = [.codeBlock] ∨ parts = [.semicolon])
      (methodBody inner) := by
  refine .isAt_ite ?_ (.isAt_ite ?_ ((missing_forms _).mono fun _ _ => False.elim))
  · exact (codeBlock_forms h).mono fun _ _ => .inl
  · exact (take_forms_word (by decide)).mono fun _ _ => .inr

theorem methodBehindName_turns (h : inner.Forms) :
    Turns true strict wanted opening IsPlain (word [.method])
      (methodBehindName inner opening) := by
  refine (parameterList_forms h).then fun _ => (loop_forms dimension_forms).then fun _ => ?_
  refine (throwsList_forms h).then fun _ => (methodBody_forms h).then fun _ => wrap_turns rfl ?_
  simp only [forall_follows, word, forall_eq, plain_iff]
  rintro front hfront dimensions hdimensions exceptions hexceptions _ (rfl | rfl)
  · refine ⟨by simp, admits_of_isPlain (.inl (by simp)) ?_⟩
    simp [hfront, hdimensions, hexceptions]
  · refine ⟨by simp, admits_of_isPlain (.inr List.getLast?_concat) ?_⟩
    simp [hfront, hdimensions, hexceptions]

theorem nextField_forms (h : inner.Forms) : Forms strict wanted plain (nextField inner) := by
  have hname : Forms strict anywhere plain (discard (expect .identifier)) :=
    (discard_expect_forms (by decide)).mono fun _ => forall_word.2 (by simp)
  refine Forms.plain_ite (takeIf_forms_plain (by decide) (by decide)) ?_ .plain_pure
  exact hname.plain_bind fun _ => (variableRest_forms h).plain_bind fun _ => .plain_pure

theorem fieldBehindName_turns (h : inner.Forms) :
    Turns true strict wanted opening IsPlain (word [.field]) (fieldBehindName inner opening) := by
  refine (variableRest_forms h).then fun _ => (loop_forms (nextField_forms h)).then fun _ => ?_
  refine (discard_expect_forms (by decide)).then fun _ => wrap_turns rfl ?_
  simp only [forall_follows, word, forall_eq, plain_iff]
  intro front hfront value hvalue others hothers
  exact ⟨by simp, admits_of_isPlain (by simp [Kind.Fits]) (by simp [hfront, hvalue, hothers])⟩

/-- A member that breaks off leaves a problem. -/
theorem brokenField_turns {before : List Kind → Prop} {after : Language Unit} (missed : Wanted) :
    Turns true strict wanted opening before after (brokenField opening missed) := by
  have hsemicolon : Forms true anywhere plain (discard (takeIf .semicolon)) :=
    (takeIf_forms_plain (by decide) (by decide)).plain_discard
  have hnothing : ∀ parts, ¬ Follows before (none ()) parts := by
    rintro _ ⟨_, _, -, hfalse, -⟩
    exact hfalse
  have hfield : Turns true strict anywhere opening (Follows before (none ())) (word [.field])
      (do discard (takeIf .semicolon); wrap opening .field) := by
    refine hsemicolon.then fun _ => wrap_turns rfl ?_
    rintro _ ⟨parts, _, hparts, -⟩
    exact absurd hparts (hnothing parts)
  exact (missing_forms missed).then fun _ => hfield.vacuous hnothing

/-! ## Enum constants -/

theorem Forms.isEnumConstant_ite {α : Type} {language : Language α} {p q : Parser α}
    (hp : Forms strict (· = .identifier) language p) (hq : Forms strict wanted language q) :
    Forms strict wanted language (do if ← isEnumConstant then p else q) := by
  intro s hs hwanted a u hrun
  obtain ⟨there, t, hlook, hrest⟩ := run_bind_eq_some.1 hrun
  have hreads : ReadsAt wanted isEnumConstant isEnumConstant := isEnumConstant_reads_in_step
  obtain ⟨-, rfl, -⟩ := hreads s s hs.alike hwanted trivial there t there t hlook hlook
  cases there with
  | true => exact hp t hs (current_of_isEnumConstant hlook) a u hrest
  | false => exact hq t hs hwanted a u hrest

/-- The constants of an enum with the commas between them: where no member follows, each constant
has behind it what separates it from the next member. -/
def IsListed (parts : List Kind) : Prop :=
  ∀ next rest, next.isMember = false → IsPlain rest → Kind.Separates (parts ++ next :: rest)

/-- A constant goes on with a comma if it is not the last one. -/
theorem enumConstant_forms (h : inner.Forms) :
    Forms strict wanted (fun more parts => if more then parts = [.enumConstant, .comma]
      else parts = [] ∨ parts = [.enumConstant]) (enumConstant inner) := by
  have hcomma : Forms true anywhere (found (word [.comma])) (do
      if ← takeIf .comma then
        return true
      else if ← isEnumConstant then
        missing (.construct .comma)
        return true
      else
        return false) := by
    have hmissing : Forms true anywhere (found (word [.comma])) (do
        if ← isEnumConstant then
          missing (.construct .comma)
          return true
        else
          return false) :=
      .isEnumConstant_ite ((missing_forms _).answer fun _ _ => False.elim) (.pure rfl)
    refine (takeIf_forms (by decide)).ite .pure_eq hmissing ?_ ?_
    · rintro _ rfl _ _ ⟨rfl, rfl⟩
      rfl
    · rintro _ rfl more back hback
      exact hback
  have harguments : Forms true anywhere plain (whenAt .leftParen (argumentList inner)) :=
    (whenAt_forms (argumentList_forms h)).mono (option_isPlain fun _ => argumentList_isPlain)
  have hmembers : Forms true anywhere plain (whenAt .leftBrace (memberBlock inner)) :=
    (whenAt_forms (memberBlock_forms h)).mono (option_isPlain fun _ _ => id)
  refine .isEnumConstant_ite (.marker_bind fun opening => ?_) (.pure (by simp))
  refine (take_forms_word (by decide)).then fun _ => harguments.then fun _ => ?_
  refine hmembers.then fun _ => Turns.bind_strict (wrap_turns rfl ?_) fun _ => ?_
  · simp only [forall_follows, word, forall_eq, plain_iff, List.nil_append]
    intro arguments harguments members hmembers
    exact ⟨by simp, admits_of_isPlain trivial (by simp [harguments, hmembers])⟩
  · refine (hcomma.turns.mono fun more => ?_).relax fun _ => rfl
    rintro _ ⟨_, back, rfl, hback, rfl⟩
    cases more with
    | true => rw [if_pos rfl, show back = [.comma] from hback]; rfl
    | false => rw [if_neg (by decide), show back = [] from hback]; exact .inr rfl

theorem separates_cons {rest : List Kind} (hkind : kind ≠ .enumConstant)
    (h : Kind.Separates rest) : Kind.Separates (kind :: rest) :=
  List.isChain_cons.2 ⟨fun _ _ hconstant => absurd hconstant hkind, h⟩

theorem separates_append {front back : List Kind} (hfront : IsPlain front)
    (h : Kind.Separates back) : Kind.Separates (front ++ back) := by
  induction front with
  | nil => exact h
  | cons first rest ih =>
    obtain ⟨hfirst, hrest⟩ := isPlain_cons.1 hfront
    exact separates_cons hfirst (ih hrest)

theorem separates_of_isPlain {parts : List Kind} (h : IsPlain parts) : Kind.Separates parts := by
  simpa using separates_append h List.isChain_nil

theorem loop_enumConstant_forms (h : inner.Forms) :
    Forms strict wanted (fun _ => IsListed) (loop (enumConstant inner)) := by
  have hlast {rest : List Kind} {next : Kind} (hnext : next.isMember = false)
      (hrest : IsPlain rest) : Kind.Separates (next :: rest) := by
    refine separates_cons ?_ (separates_of_isPlain hrest)
    rintro rfl
    cases hnext
  refine loop_forms_rows (enumConstant_forms h) ?_ ?_
  · rintro _ rfl back hback next rest hnext hrest
    refine List.isChain_cons.2 ⟨?_, separates_cons (by decide) (hback next rest hnext hrest)⟩
    rintro _ ⟨⟩ -
    rfl
  · rintro _ (rfl | rfl) next rest hnext hrest
    · exact hlast hnext hrest
    · refine List.isChain_cons.2 ⟨?_, hlast hnext hrest⟩
      rintro _ ⟨⟩ -
      exact hnext

/-! ## Classes -/

theorem members_forms (h : inner.Forms) :
    Forms strict wanted plain (itemsUpToBrace (discard (inner .member))) := by
  refine (itemsUpToBrace_forms h.member_plain).mono fun _ => forall_follows.2 ?_
  rintro members hmembers _ rfl
  simpa using hmembers

/-- Without a semicolon behind the constants there are no other members. -/
theorem unseparatedMembers_forms (h : inner.Forms) :
    Forms strict wanted (word [.rightBrace])
      ((do unless (← isAtEnd) || (← isAt .rightBrace) do missing (.construct .semicolon))
        >>= fun _ => itemsUpToBrace (discard (inner .member))) := by
  have hend {kind : Kind} (hkind : kind = .endOfFile ∨ kind = .rightBrace) :
      Forms strict (· = kind) (word [.rightBrace]) (itemsUpToBrace (discard (inner .member))) :=
    itemsUpToBrace_forms_end.narrow (by rintro _ rfl; exact hkind)
  have hmissing : Forms strict anywhere (word [.rightBrace]) (do
      missing (.construct .semicolon)
      itemsUpToBrace (discard (inner .member))) :=
    (missing_forms _).last (fun _ => members_forms h) fun _ _ => False.elim
  simp only [bind_assoc]
  refine .isAt_bind (.reads_bind (isAt_reads_in_step _) fun _ => ?_) (.isAt_bind ?_ ?_)
  · exact hend (.inl rfl)
  · exact hend (.inr rfl)
  · exact hmissing.at

/-- Behind the constants of an enum there is a semicolon and other members, or nothing. -/
theorem enumBody_forms (h : inner.Forms) :
    Forms strict wanted (fun _ => Kind.Separates)
      (do enumConstants inner; itemsUpToBrace (discard (inner .member))) := by
  unfold enumConstants
  simp only [bind_assoc]
  refine (loop_enumConstant_forms h).last (m := fun _ _ parts => ∃ next rest,
    next.isMember = false ∧ IsPlain rest ∧ parts = next :: rest) (fun _ => ?_) ?_
  · refine (takeIf_forms (by decide)).last
      (m := fun separated => if separated then plain else word [.rightBrace])
      (fun separated => ?_) ?_
    · cases separated with
      | true => exact members_forms h
      | false => exact unseparatedMembers_forms h
    · rintro (_ | _) front hfront _ back hback
      · obtain rfl : front = [] := hfront
        obtain rfl : back = [.rightBrace] := hback
        exact ⟨.rightBrace, [], rfl, isPlain_nil, rfl⟩
      · obtain rfl : front = [.semicolon] := hfront
        exact ⟨.semicolon, back, rfl, hback, rfl⟩
  · rintro _ front hfront _ _ ⟨next, rest, hnext, hrest, rfl⟩
    exact hfront next rest hnext hrest

theorem classBody_forms (h : inner.Forms) (isEnum : Bool) :
    Forms strict wanted (fun _ => Kind.Separates) (classBody inner isEnum) := by
  have hinside : Forms strict anywhere (fun _ => Kind.Separates)
      (do constantsOf inner isEnum; itemsUpToBrace (discard (inner .member))) := by
    cases isEnum with
    | true => exact enumBody_forms h
    | false => exact (members_forms h).mono fun _ _ => separates_of_isPlain
  refine .isAt_ite ?_ ((missing_forms _).mono fun _ _ => False.elim)
  refine (take_forms_word (by decide)).last (fun _ => hinside) ?_
  rintro _ _ rfl _ back hback
  exact separates_cons (by decide) hback

theorem typesBehind_forms (h : inner.Forms) (hend : kind ≠ .endOfFile)
    (hconstant : kind ≠ .enumConstant) : Forms strict wanted plain (typesBehind inner kind) := by
  refine (whenTaken_forms hend (types_forms h)).mono (option_isPlain fun _ => forall_follows.2 ?_)
  rintro _ rfl types htypes
  exact isPlain_cons.2 ⟨hconstant, htypes⟩

theorem classDeclaration_turns (h : inner.Forms) :
    Turns true strict wanted opening IsPlain (word [.classDeclaration])
      (classDeclaration inner opening) := by
  have harguments : Forms true anywhere plain (whenAt .less (discard (typeArguments inner))) :=
    (whenAt_forms (typeArguments_forms h).plain_discard).mono (option_isPlain fun _ _ => id)
  refine .reads_bind (isAt_reads_in_step _) fun isEnum => ?_
  refine take_forms_plain.then fun _ => (discard_expect_forms (by decide)).then fun _ => ?_
  refine harguments.then fun _ => (typesBehind_forms h (by decide) (by decide)).then fun _ => ?_
  refine (typesBehind_forms h (by decide) (by decide)).then fun _ => ?_
  refine (classBody_forms h isEnum).then fun _ => wrap_turns rfl ?_
  simp only [forall_follows, word, forall_eq, plain_iff]
  intro front hfront keyword hkeyword arguments harguments bounds hbounds more hmore body hbody
  refine ⟨by simp, separates_append ?_ hbody, fun hkind => absurd rfl hkind⟩
  simp [hfront, hkeyword, harguments, hbounds, hmore]

/-! ## Members -/

theorem typedMember_turns (h : inner.Forms) :
    Turns true strict wanted opening IsPlain (option (one Kind.isDeclared))
      (typedMember inner opening) := by
  refine (typeReference_forms h).then fun typed => ?_
  cases typed with
  | true =>
    refine (takeIf_forms (by decide)).then fun named => ?_
    cases named with
    | true =>
      refine Turns.narrow (b := IsPlain) (.isAt_ite ?_ ?_) ?_
      · exact (methodBehindName_turns h).mono fun _ => forall_word.2 (.inr ⟨_, rfl, rfl⟩)
      · exact (fieldBehindName_turns h).mono fun _ => forall_word.2 (.inr ⟨_, rfl, rfl⟩)
      · rintro _ ⟨_, _, ⟨front, _, hfront, rfl, rfl⟩, rfl, rfl⟩
        simpa using hfront
    | false => exact brokenField_turns _
  | false =>
    refine .built_ite (brokenField_turns _) ((Turns.pure.mono ?_).relax fun _ => rfl)
    exact fun _ parts hparts => .inl hparts.2

theorem member_forms (h : inner.Forms) :
    Forms strict wanted (option (one Kind.isDeclared)) (member inner) := by
  refine .marker_bind fun opening => Turns.bind_strict (modifiers_forms h).fresh fun _ => ?_
  refine .isAtAny_ite ?_ (.isAt_ite ?_ ?_)
  · exact (classDeclaration_turns h).mono fun _ => forall_word.2 (.inr ⟨_, rfl, rfl⟩)
  · refine (codeBlock_forms h).then fun _ => ?_
    refine (wrap_turns rfl ?_).mono fun _ => forall_word.2 (.inr ⟨_, rfl, rfl⟩)
    simp only [forall_follows, word, forall_eq, plain_iff]
    intro modifiers hmodifiers
    exact ⟨by simp, admits_of_isPlain trivial (by simpa using hmodifiers)⟩
  · refine .isAtBefore_ite ((take_forms_word (by decide)).then fun _ => ?_) (typedMember_turns h)
    refine Turns.narrow (b := IsPlain) ?_ ?_
    · exact (methodBehindName_turns h).mono fun _ => forall_word.2 (.inr ⟨_, rfl, rfl⟩)
    · rintro _ ⟨modifiers, _, hmodifiers, rfl, rfl⟩
      exact isPlain_append.2 ⟨hmodifiers, by simp⟩

end StatementCompletion.Grammar
