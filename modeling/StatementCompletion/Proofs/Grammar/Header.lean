import StatementCompletion.Proofs.Grammar.Joining
import StatementCompletion.Proofs.Grammar.Tracking.Gates

/-!
# Statements with a header

A statement with one of the keywords `if`, `while` and `for` is read as its keyword, what
stands between parentheses, its body, and a wrap.  What stands between the parentheses and what
follows the body depends on which of the four kinds of statement it is, and a loop `for` is
told from the other by looking ahead.

The parenthesis that closes the header is the first one among the children of the statement.
-/

namespace StatementCompletion.Grammar

/-! ## Four kinds of header -/

/-- The statements with a header. -/
inductive Header where
  | branch
  | loop
  | elements
  | counting
deriving DecidableEq

namespace Header

def kind : Header → Kind
  | branch => .ifStatement
  | loop => .whileStatement
  | elements => .foreachStatement
  | counting => .forStatement

/-- What stands between the parentheses. -/
def inside (inner : Inner) : Header → Parser Unit
  | branch | loop => orMissing (expression inner) .expression
  | elements => do
    discard (parameter inner)
    take
    orMissing (expression inner) .expression
  | counting => do
    forInitializer inner
    whenAtAny startsExpression (discard (expression inner))
    discard (expect .semicolon)
    forUpdate inner

/-- What follows the body. -/
def otherwise (inner : Inner) : Header → Parser Unit
  | branch => whenTaken .elseKeyword (body inner)
  | _ => pure ()

/-- Which of the statements begins with a keyword. -/
def choose (inner : Inner) : Kind → Parser Header
  | .ifKeyword => pure branch
  | .whileKeyword => pure loop
  | _ => do
    if ← isElementLoop inner then
      return elements
    else
      return counting

end Header

/-- What is taken for a condition without parentheses. -/
def openCondition (inner : Inner) : Parser Unit := do
  missing (.construct .leftParen)
  if !(← isOnNewLine) && (← isAtAny startsExpression) then
    discard (expression inner)

/-- What is read where the parenthesis behind the keyword is missing. -/
def unopened (inner : Inner) : Kind → Parser Unit
  | .ifKeyword => do
    openCondition inner
    body inner
    whenTaken .elseKeyword (body inner)
  | .whileKeyword => do
    openCondition inner
    body inner
  | _ => missing (.construct .leftParen)

/-- The statement that is made of it. -/
def unopenedKind : Kind → Kind
  | .ifKeyword => .ifStatement
  | .whileKeyword => .whileStatement
  | _ => .forStatement

/-- What follows a header: the closing parenthesis, the body, and what is behind the body. -/
def behindHeader (inner : Inner) (header : Header) : Parser Unit := do
  discard (expect .rightParen)
  body inner
  header.otherwise inner

/-- What follows the keyword of a statement with a header.  The answer is the
kind of the statement. -/
def guardedParts (inner : Inner) (kind : Kind) : Parser Kind := do
  if ← takeIf .leftParen then
    let header ← Header.choose inner kind
    header.inside inner
    behindHeader inner header
    return header.kind
  else
    unopened inner kind
    return unopenedKind kind

variable {α : Type} {wanted : Kind → Prop} {kind : Kind} {inner : Inner} {m : Nat}
    {s t u v x : State}

/-- The statements with a header are read alike. -/
theorem behindGuard_eq (hkind : isGuardKeyword kind = true) :
    behindGuard inner m kind = (do let made ← guardedParts inner kind; wrap m made) := by
  unfold isGuardKeyword at hkind
  split at hkind
  · simp only [behindGuard, condition, guardedParts, Header.choose, unopened,
      unopenedKind, bind_assoc, pure_bind]
    refine bind_congr fun taken => ?_
    cases taken with
    | true => simp only [Header.inside, Header.otherwise, Header.kind, behindHeader, if_true,
        bind_assoc, pure_bind]
    | false =>
      simp only [openCondition, Bool.false_eq_true, if_false, bind_assoc, pure_bind]
  · simp only [behindGuard, condition, guardedParts, Header.choose, unopened,
      unopenedKind, bind_assoc, pure_bind]
    refine bind_congr fun taken => ?_
    cases taken with
    | true => simp only [Header.inside, Header.otherwise, Header.kind, behindHeader, if_true,
        bind_assoc, pure_bind]
    | false => simp only [openCondition, Bool.false_eq_true, if_false, bind_assoc, pure_bind]
  · simp only [behindGuard, guardedParts, Header.choose, unopened, unopenedKind, bind_assoc]
    refine bind_congr fun taken => ?_
    cases taken with
    | false => simp only [Bool.false_eq_true, if_false, bind_assoc, pure_bind]
    | true =>
      simp only [if_true, bind_assoc]
      refine bind_congr fun elements => ?_
      cases elements <;>
        simp only [Header.inside, Header.otherwise, Header.kind, behindHeader, foreachRest,
          forRest, if_true, bind_assoc, pure_bind, Bool.false_eq_true, if_false]
  · cases hkind

/-! ## The variable of a loop over elements -/

/-- A loop that has nothing to do leaves the state as it is. -/
theorem loop_of_no {step : Parser Bool} {a : Unit} (hstep : step.run s = some (false, s))
    (hrun : (loop step).run s = some (a, t)) : t = s := by
  have hrun : (step >>= fun again =>
      if again then loopWithin s.ahead.length step else pure ()).run s = some (a, t) := hrun
  obtain ⟨again, u, hu, hrest⟩ := run_bind_eq_some.1 hrun
  obtain ⟨rfl, rfl⟩ := Prod.mk.inj (Option.some.inj (hstep.symm.trans hu))
  exact (run_pure_eq_some.1 hrest).2

theorem run_takeIf_of_ne (h : s.current ≠ kind) : (takeIf kind).run s = some (false, s) := by
  have hrun : (takeIf kind).run s
      = (if decide (s.current = kind) then (do take; return true)
        else return false : Parser Bool).run s :=
    rfl
  rw [hrun, decide_eq_false h, if_neg Bool.false_ne_true]
  rfl

theorem run_takeIf_of_eq (h : s.current = kind) :
    (takeIf kind).run s = some (true, s.take Token.node) := by
  have hrun : (takeIf kind).run s
      = (if decide (s.current = kind) then (do take; return true)
        else return false : Parser Bool).run s :=
    rfl
  rw [hrun, decide_eq_true h, if_pos rfl]
  rfl

theorem run_takeIf_bind_of_ne {g : Bool → Parser α} (h : s.current ≠ kind) :
    (takeIf kind >>= g).run s = (g false).run s := by
  rw [run_takeIf_bind, decide_eq_false h, if_neg Bool.false_ne_true]

/-- A name that is expected and is there is taken in. -/
theorem take_of_expect {a : Unit} (h : s.current = kind)
    (hrun : (discard (expect kind)).run s = some (a, t)) : t = s.take Token.node := by
  obtain ⟨there, hrun⟩ := run_discard_eq_some.1 hrun
  have hrun : (if decide (s.current = kind) then (do take; return true)
    else (do missing (.construct kind); return false) : Parser Bool).run s = some (there, t) := hrun
  rw [decide_eq_true h, if_pos rfl] at hrun
  exact (Prod.mk.inj (Option.some.inj hrun)).2.symm

theorem run_dimension_of_ne (h : s.current ≠ .leftBracket) : dimension.run s = some (false, s) := by
  have hrun : dimension.run s =
      (if decide (s.current = .leftBracket) && decide (s.next.current = .rightBracket)
      then (do take; take; return true) else return false : Parser Bool).run s := rfl
  rw [hrun, decide_eq_false h, Bool.false_and, if_neg Bool.false_ne_true]
  rfl

theorem run_discard_expect_of_ne (h : s.current ≠ kind) :
    (discard (expect kind)).run s = some ((), s.markMissing (.construct kind)) := by
  have hrun : (discard (expect kind)).run s = (discard (if decide (s.current = kind) then
    (do take; return true) else (do missing (.construct kind); return false) :
    Parser Bool)).run s := rfl
  rw [hrun, decide_eq_false h, if_neg Bool.false_ne_true]
  rfl

/-- Behind a type with a name and a colon the rest of a parameter ends in front of the colon. -/
theorem current_behind_parameterRest {a : Unit}
    (htype : (typeReference inner).run s = some (true, u))
    (hname : u.current = .identifier) (hcolon : (u.take Token.node).current = .colon)
    (hrun : (parameterRest inner).run s = some (a, t)) : t.current = .colon := by
  have hno {step : Parser Bool} {s t : State} {a : Unit} (hloop : (loop step).run s = some (a, t))
      (hstep : step.run s = some (false, s)) : t = s := loop_of_no hstep hloop
  obtain ⟨found, v, htype', hfound⟩ := run_bind_eq_some.1 hrun
  obtain ⟨rfl, rfl⟩ := Prod.mk.inj (Option.some.inj (htype.symm.trans htype'))
  obtain ⟨_, w, hbars, hbehindBars⟩ := run_bind_eq_some.1 hfound
  rw [hno hbars ((run_takeIf_bind_of_ne (by rw [hname]; decide)).trans rfl)] at hbehindBars
  obtain ⟨_, x, hdots, hbehindDots⟩ := run_bind_eq_some.1 hbehindBars
  rw [hno hdots (run_takeIf_of_ne (by rw [hname]; decide))] at hbehindDots
  obtain ⟨_, y, hexpect, hdimensions⟩ := run_bind_eq_some.1 hbehindDots
  rw [take_of_expect hname hexpect] at hdimensions
  rw [hno hdimensions (run_dimension_of_ne (by rw [hcolon]; decide))]
  exact hcolon

theorem startsType_of_not_startsParameter (h : ¬ startsParameter kind = true) :
    startsType kind = false := by
  cases kind <;> first | rfl | exact absurd rfl h

/-- The keyword `synchronized` is a modifier that begins no parameter. -/
theorem synchronized_of_not_startsParameter (h : ¬ startsParameter kind = true)
    (hstarts : startsModifier kind = true) : kind = .synchronizedKeyword := by
  cases kind <;> first | rfl | exact absurd rfl h | cases hstarts

/-- The variable of a loop over elements ends in front of the colon.  A loop whose modifiers begin
with `synchronized` has its variable left out. -/
theorem current_behind_parameter {there : Bool}
    (hlook : (isElementLoop inner).run s = some (true, t))
    (hrun : (parameter inner).run s = some (there, u)) :
    u.current = .colon ∨ u.current = .synchronizedKeyword := by
  obtain ⟨v, hlook, -⟩ := run_lookAhead_eq_some hlook
  obtain ⟨_, w, hmodifiers, hname⟩ := run_bind_eq_some.1 hlook
  obtain ⟨found, x, htype, hname⟩ := run_bind_eq_some.1 hname
  cases found with
  | false => cases (run_pure_eq_some.1 hname).1
  | true =>
  by_cases hident : x.current = .identifier
  · have hname : (isAt .colon).run (x.take Token.node) = some (true, v) := by
      rw [if_pos rfl, run_takeIf_bind, decide_eq_true hident, if_pos rfl] at hname
      exact hname
    have hcolon : (x.take Token.node).current = .colon :=
      of_decide_eq_true (Prod.mk.inj (Option.some.inj hname)).1
    obtain ⟨_, _, hasked, hrun⟩ := run_bind_eq_some.1 hrun
    obtain ⟨rfl, rfl⟩ := Prod.mk.inj (Option.some.inj hasked)
    -- what was looked at is read, unless the modifiers begin with a `synchronized`
    split at hrun
    · obtain ⟨m, _, hmarker, hrun⟩ := run_bind_eq_some.1 hrun
      obtain ⟨rfl, rfl⟩ := Prod.mk.inj (Option.some.inj hmarker)
      obtain ⟨_, w', hmodifiers', hrun⟩ := run_bind_eq_some.1 hrun
      obtain ⟨-, rfl⟩ := Prod.mk.inj (Option.some.inj (hmodifiers.symm.trans hmodifiers'))
      obtain ⟨_, y, hrest, hwrap⟩ := run_bind_eq_some.1 hrun
      obtain ⟨-, rfl⟩ := Prod.mk.inj (Option.some.inj hwrap)
      have hbehind : y.current = .colon := current_behind_parameterRest htype hident hcolon hrest
      exact .inl hbehind
    · next hnot =>
      obtain ⟨-, rfl⟩ := run_pure_eq_some.1 hrun
      cases hstarts : startsModifier u.current with
      | false =>
        rw [modifiers_of_not hstarts hmodifiers] at htype
        have hnone := (typeReference_phrase.no (startsType_of_not_startsParameter hnot) htype).1
        exact absurd hnone.symm Bool.false_ne_true
      | true => exact .inr (synchronized_of_not_startsParameter hnot hstarts)
  · rw [if_pos rfl, run_takeIf_bind_of_ne hident] at hname
    cases (run_pure_eq_some.1 hname).1

/-! ## Reading a header -/

namespace Header

variable {header : Header}

/-- A header is chosen without taking anything in. -/
theorem leaves_choose (h : inner.Agree inner) (hs : s.Fair)
    (hrun : (choose inner kind).run s = some (header, t)) : t = s := by
  unfold choose at hrun
  split at hrun
  · exact (run_pure_eq_some.1 hrun).2
  · exact (run_pure_eq_some.1 hrun).2
  · obtain ⟨elements, u, hlook, hanswer⟩ := run_bind_eq_some.1 hrun
    rw [← (isElementLoop_reads_in_step h).leaves hs hlook]
    split at hanswer <;> exact (run_pure_eq_some.1 hanswer).2

/-- A loop over elements is chosen by what is found ahead. -/
theorem elements_chosen (hrun : (choose inner kind).run s = some (elements, t)) :
    ∃ u, (isElementLoop inner).run s = some (true, u) := by
  unfold choose at hrun
  split at hrun
  · cases (run_pure_eq_some.1 hrun).1
  · cases (run_pure_eq_some.1 hrun).1
  · obtain ⟨found, u, hlook, hanswer⟩ := run_bind_eq_some.1 hrun
    cases found with
    | true => exact ⟨u, hlook⟩
    | false => cases (run_pure_eq_some.1 hanswer).1

/-- No parenthesis between those of the header stands there as it is. -/
theorem covered_inside (h : inner.Agree inner) (hs : Alike s s) {a : Unit}
    (hchosen : (choose inner kind).run s = some (header, s))
    (hrun : (header.inside inner).run s = some (a, u)) : Alike u u ∧ s.Covered u := by
  have hcondition : Conceals anywhere (orMissing (expression inner) .expression) :=
    .orMissing _ (expression_conceals h)
  cases header with
  | branch | loop => exact hcondition.covered hs trivial hrun
  | counting =>
    have hcounting : Conceals anywhere (inside inner counting) :=
      (forInitializer_conceals h).bind fun _ =>
        (Conceals.whenAtAny (expression_conceals h).discard).bind fun _ =>
          (Conceals.expect (by decide)).discard.bind fun _ => forUpdate_conceals h
    exact hcounting.covered hs trivial hrun
  | elements =>
    obtain ⟨_, hlook⟩ := elements_chosen hchosen
    obtain ⟨_, v, hparameter, hrest⟩ := run_bind_eq_some.1 hrun
    have hvariable : Conceals anywhere (discard (parameter inner)) := (parameter_conceals h).discard
    obtain ⟨hv, hsv⟩ := hvariable.covered hs trivial hparameter
    obtain ⟨there, hparameter⟩ := run_discard_eq_some.1 hparameter
    have hrest' : Conceals (· ≠ .rightParen) (do take; orMissing (expression inner) .expression) :=
      (Conceals.take fun _ hkind => hkind).bind fun _ => hcondition
    have hkind : v.current ≠ .rightParen := by
      rcases current_behind_parameter hlook hparameter with hcolon | hsynchronized
      · rw [hcolon]; decide
      · rw [hsynchronized]; decide
    obtain ⟨hu, hvu⟩ := hrest'.covered hv hkind hrest
    exact ⟨hu, hsv.trans hvu⟩

theorem otherwise_conceals (h : inner.Agree inner)
    (hstatement : Joins (startsStatement · = true) IsConstruct (inner .statement)) :
    Conceals wanted (header.otherwise inner) := by
  cases header with
  | branch => exact .whenTaken (by decide) (body_conceals h hstatement)
  | loop | elements | counting => exact .pure ()

end Header

theorem openCondition_conceals (h : inner.Agree inner) : Conceals wanted (openCondition inner) := by
  refine (Conceals.missing _).bind fun _ => .of_run ?_ fun {s t a} hs _ hrun => ?_
  · exact (sameLine_agrees (expression_phrases h).agrees.discard).at
  · have hrun : (if !s.onNewLine && startsExpression s.current then discard (expression inner)
      else pure ()).run s = some (a, t) := hrun
    have hexpression : Conceals anywhere (discard (expression inner)) :=
      (expression_conceals h).discard
    split at hrun
    · exact (hexpression.covered hs trivial hrun).2
    · rw [(run_pure_eq_some.1 hrun).2]
      exact .refl s

theorem unopened_conceals (h : inner.Agree inner)
    (hstatement : Joins (startsStatement · = true) IsConstruct (inner .statement)) :
    Conceals wanted (unopened inner kind) := by
  have hbody : Conceals anywhere (body inner) := body_conceals h hstatement
  unfold unopened
  split
  · exact (openCondition_conceals h).bind fun _ => hbody.bind fun _ => .whenTaken (by decide) hbody
  · exact (openCondition_conceals h).bind fun _ => hbody
  · exact .missing _

/-! ## The parts of a statement with a header -/

/-- The state behind the keyword and the opening parenthesis. -/
def State.opened (s : State) : State :=
  (s.take Token.node).take Token.node

/-- A header is read up to a state, from the keyword on. -/
structure Header.Reads (inner : Inner) (header : Header) (s u : State) : Prop where
  opened : (s.take Token.node).current = .leftParen
  chosen : (choose inner s.current).run s.opened = some (header, s.opened)
  inside : (header.inside inner).run s.opened = some ((), u)

/-- There is no parenthesis behind the keyword, or there is a header. -/
theorem run_guardedParts {made : Kind} (h : inner.Agree inner) (hs : s.Fair)
    (hrun : (guardedParts inner s.current).run (s.take Token.node) = some (made, x)) :
    ((s.take Token.node).current ≠ .leftParen
        ∧ (unopened inner s.current).run (s.take Token.node) = some ((), x))
      ∨ ∃ header u, header.Reads inner s u ∧ made = header.kind
        ∧ (behindHeader inner header).run u = some ((), x) := by
  obtain ⟨taken, v, htaken, hrun⟩ := run_bind_eq_some.1 hrun
  by_cases hopened : (s.take Token.node).current = .leftParen
  · obtain ⟨rfl, rfl⟩ :=
      Prod.mk.inj (Option.some.inj ((run_takeIf_of_eq hopened).symm.trans htaken))
    obtain ⟨header, w, hchosen, hrun⟩ := run_bind_eq_some.1 hrun
    obtain rfl := Header.leaves_choose h ((hs.take (.inl rfl)).take (.inl rfl)) hchosen
    obtain ⟨_, u, hinside, hrun⟩ := run_bind_eq_some.1 hrun
    obtain ⟨_, y, hbehind, hanswer⟩ := run_bind_eq_some.1 hrun
    obtain ⟨rfl, rfl⟩ := run_pure_eq_some.1 hanswer
    exact .inr ⟨header, u, ⟨hopened, hchosen, hinside⟩, rfl, hbehind⟩
  · obtain ⟨rfl, rfl⟩ :=
      Prod.mk.inj (Option.some.inj ((run_takeIf_of_ne hopened).symm.trans htaken))
    obtain ⟨_, y, hunopened, hanswer⟩ := run_bind_eq_some.1 hrun
    obtain ⟨-, rfl⟩ := run_pure_eq_some.1 hanswer
    exact .inl ⟨hopened, hunopened⟩

/-- A statement with one of the keywords is what follows the keyword, wrapped. -/
theorem run_guarded {a : Unit} (hkind : isGuardKeyword s.current = true)
    (hrun : (statement inner).run s = some (a, t)) :
    ∃ made x, (guardedParts inner s.current).run (s.take Token.node) = some (made, x)
      ∧ t = x.wrap s.marker made := by
  rw [run_statement_of_guard hkind, behindGuard_eq hkind] at hrun
  obtain ⟨_, _, htake, hrun⟩ := run_bind_eq_some.1 hrun
  obtain ⟨-, rfl⟩ := Prod.mk.inj (Option.some.inj htake)
  obtain ⟨made, x, hparts, hmade⟩ := run_bind_eq_some.1 hrun
  obtain ⟨-, rfl⟩ := Prod.mk.inj (Option.some.inj hmade)
  exact ⟨made, x, hparts, rfl⟩

/-- What is made is a statement whose body may stand without braces. -/
theorem ownsUnbracedBody_of_guardedParts {made : Kind}
    (hrun : (guardedParts inner kind).run s = some (made, t)) :
    Repair.ownsUnbracedBody made = true := by
  obtain ⟨taken, v, -, hrun⟩ := run_bind_eq_some.1 hrun
  cases taken with
  | true =>
    obtain ⟨header, w, -, hrun⟩ := run_bind_eq_some.1 hrun
    obtain ⟨_, u, -, hrun⟩ := run_bind_eq_some.1 hrun
    obtain ⟨_, y, -, hanswer⟩ := run_bind_eq_some.1 hrun
    obtain ⟨rfl, -⟩ := run_pure_eq_some.1 hanswer
    cases header <;> rfl
  | false =>
    obtain ⟨_, y, -, hanswer⟩ := run_bind_eq_some.1 hrun
    obtain ⟨rfl, -⟩ := run_pure_eq_some.1 hanswer
    unfold unopenedKind
    split <;> rfl

theorem isConstruct_of_ownsUnbracedBody (h : Repair.ownsUnbracedBody kind = true) :
    kind.isConstruct = true := by
  cases kind <;> first | rfl | cases h

/-! ## The row -/

variable {header : Header} {keyword : Token} {nodes : List Node}

/-- What is wrapped from the end of a row on begins with the token that has been taken in there. -/
theorem firm_wrap_behind (hs : t.Sane) (htoken : s.token? = some keyword)
    (hfirm : t.firm = (s.take Token.node).firm ++ nodes) (kind : Kind) :
    (t.wrap s.marker kind).firm = s.built.reverse ++ [.branch kind (keyword.node :: nodes)] := by
  have hmarker : s.marker = s.built.reverse.length := List.length_reverse.symm
  rw [hs.firm_wrap, hfirm, State.firm_take_eq htoken, List.append_assoc, hmarker, List.take_left,
    List.drop_left]
  rfl

theorem firm_drop_behind (htoken : s.token? = some keyword)
    (hfirm : t.firm = (s.take Token.node).firm ++ nodes) :
    t.firm.drop s.marker = keyword.node :: nodes := by
  have hmarker : s.marker = s.built.reverse.length := List.length_reverse.symm
  rw [hfirm, State.firm_take_eq htoken, List.append_assoc, hmarker, List.drop_left]
  rfl

/-- The node of a keyword is a leaf. -/
theorem node_of_isGuardKeyword (h : isGuardKeyword keyword.kind = true) :
    keyword.node = .leaf keyword.kind keyword.text := by
  unfold Token.node
  split
  · next herror => rw [herror] at h; cases h
  · rfl

section

variable (h : inner.Agree inner)
  (hstatement : Joins (startsStatement · = true) IsConstruct (inner .statement))

include h

/-- Up to the end of a header there is no closing parenthesis. -/
theorem Header.Reads.covered (hreads : header.Reads inner s u) (hs : Alike s s) :
    Alike u u ∧ (s.take Token.node).Covered u := by
  have htaken := hs.take Token.node
  have hopening : (s.take Token.node).Covered s.opened :=
    covered_take htaken.sane (by rw [hreads.opened]; decide)
  obtain ⟨hu, hcovered⟩ := covered_inside h (htaken.take Token.node) hreads.chosen hreads.inside
  exact ⟨hu, hopening.trans hcovered⟩

include hstatement

/-- What follows the keyword joins the row on top of it.  If there is a closing parenthesis
among it, it closes a header. -/
theorem guardedParts_row {made : Kind} (hs : s.Fair)
    (hrun : (guardedParts inner s.current).run (s.take Token.node) = some (made, x)) :
    x.Sane ∧ ∃ nodes, x.firm = (s.take Token.node).firm ++ nodes
      ∧ ((∀ node ∈ nodes, node.kind ≠ .rightParen)
        ∨ ∃ header u, header.Reads inner s u ∧ u.current = .rightParen ∧ made = header.kind
          ∧ (behindHeader inner header).run u = some ((), x)) := by
  rcases run_guardedParts h hs hrun with ⟨-, hrest⟩ | ⟨header, u, hreads, hmade, hrest⟩
  · have hconceals : Conceals anywhere (unopened inner s.current) := unopened_conceals h hstatement
    obtain ⟨hx, nodes, hfirm, hnodes⟩ := hconceals.covered (hs.alike.take Token.node) trivial hrest
    exact ⟨hx.sane, nodes, hfirm, .inl hnodes⟩
  · obtain ⟨hu, hcovered⟩ := hreads.covered h hs.alike
    obtain ⟨_, v, hexpect, hbehind⟩ := run_bind_eq_some.1 hrest
    have hothers : Conceals anywhere (do body inner; header.otherwise inner) :=
      (body_conceals h hstatement).bind fun _ => Header.otherwise_conceals h hstatement
    by_cases hclosed : u.current = .rightParen
    · obtain rfl := take_of_expect hclosed hexpect
      obtain ⟨token, htoken⟩ := Option.isSome_iff_exists.1
        (State.isSome_of_current (s := u) (by rw [hclosed]; decide))
      obtain ⟨nodes, hfirm, -⟩ := hcovered
      obtain ⟨hx, more, hfirm', -⟩ := hothers.covered (hu.take Token.node) trivial hbehind
      refine ⟨hx.sane, nodes ++ u.loose ++ [token.node] ++ more, ?_,
        .inr ⟨header, u, hreads, hclosed, hmade, hrest⟩⟩
      rw [hfirm', State.firm_take htoken, hfirm]
      simp only [List.append_assoc]
    · rw [run_discard_expect_of_ne hclosed] at hexpect
      obtain ⟨-, rfl⟩ := Prod.mk.inj (Option.some.inj hexpect)
      obtain ⟨hx, hbodies⟩ := hothers.covered (hu.markMissing _) trivial hbehind
      obtain ⟨nodes, hfirm, hnodes⟩ :=
        (hcovered.trans (covered_markMissing hu.sane _)).trans hbodies
      exact ⟨hx.sane, nodes, hfirm, .inl hnodes⟩

/-- A statement with one of the keywords is one node that begins with the keyword. -/
theorem guarded_joined {a : Unit} (hs : s.Fair) (htoken : s.token? = some keyword)
    (hkind : isGuardKeyword s.current = true) (hrun : (statement inner).run s = some (a, t)) :
    ∃ made nodes, t.firm = s.built.reverse ++ [.branch made (keyword.node :: nodes)] := by
  obtain ⟨made, x, hparts, rfl⟩ := run_guarded hkind hrun
  obtain ⟨hx, nodes, hfirm, -⟩ := guardedParts_row h hstatement hs hparts
  exact ⟨made, nodes, firm_wrap_behind hx htoken hfirm made⟩

end

end StatementCompletion.Grammar
