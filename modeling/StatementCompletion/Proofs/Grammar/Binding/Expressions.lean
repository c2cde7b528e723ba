import StatementCompletion.Proofs.Grammar.Agreement.Expressions
import StatementCompletion.Proofs.Grammar.Binding

/-!
# What the rules for expressions bind

Everything in front of the operators yields one operand that is no operation itself.  From there on
the invariant of the loop over the operators is that one operand stands behind the marker, and that
it fits on the left of the operator that comes next.  It does because a right operand, which takes
in all operators that bind tighter, has left no such operator behind.
-/

namespace StatementCompletion

/-! ## Operands of a least precedence -/

namespace Node

/-- An operand whose operator, if it has one, is of at least a precedence. -/
structure BindsFrom (least : Nat) (node : Node) : Prop where
  operand : node.IsOperand
  binds : node.kind.isOperation = true → ∃ own, node.precedence? = some own ∧ least ≤ own

/-- An operand that fits on the left of an operator, should that be one. -/
structure FitsBefore (least : Nat) (next : Kind)
    (node : Node) : Prop extends node.BindsFrom least where
  left : ∀ precedence, Grammar.precedence? next = some precedence → node.FitsLeft precedence

/-- An operand without an operator. -/
structure IsPlain (node : Node) : Prop where
  operand : node.IsOperand
  isOperation : node.kind.isOperation = false

variable {node : Node} {least precedence : Nat}

theorem IsPlain.bindsFrom (h : node.IsPlain) : node.BindsFrom least :=
  ⟨h.operand, fun hkind => absurd hkind (Bool.eq_false_iff.1 h.isOperation)⟩

theorem IsPlain.fitsLeft (h : node.IsPlain) : node.FitsLeft precedence := by
  refine ⟨h.operand, fun hkind => ?_⟩
  have hoperation := h.isOperation
  rw [hkind] at hoperation
  cases hoperation

theorem IsPlain.fitsBefore (h : node.IsPlain) (next : Kind) : node.FitsBefore least next :=
  ⟨h.bindsFrom, fun _ _ => h.fitsLeft⟩

/-- What binds tighter than an operator fits on its right. -/
theorem BindsFrom.fitsRight (h : node.BindsFrom (precedence + 1)) : node.FitsRight precedence := by
  refine ⟨h.operand, fun hkind => ?_⟩
  obtain ⟨own, hown, hle⟩ := h.binds hkind
  exact ⟨own, hown, hle⟩

theorem isTrivia_of_isOperand {kind : Kind} (h : kind.isOperand = true) :
    kind.isTrivia = false := by
  cases kind <;> first | rfl | cases h

theorem isOperand_branch {kind : Kind} {children : List Node} (hoperand : kind.isOperand = true)
    (hassignment : kind ≠ .assignment) (hconditional : kind ≠ .conditionalExpression) :
    (Node.branch kind children).IsOperand :=
  ⟨hoperand, hassignment, hconditional⟩

/-- The kinds of operands that are no operations, assignments or conditionals. -/
def isPlainKind (kind : Kind) : Bool :=
  kind.isOperand && !kind.isOperation && kind ≠ .assignment && kind ≠ .conditionalExpression

theorem isPlain_of_isPlainKind (h : isPlainKind node.kind = true) : node.IsPlain := by
  simp only [isPlainKind, Bool.and_eq_true, Bool.not_eq_true', decide_eq_true_eq] at h
  obtain ⟨⟨⟨hoperand, hoperation⟩, hassignment⟩, hconditional⟩ := h
  exact ⟨⟨hoperand, hassignment, hconditional⟩, hoperation⟩

end Node

namespace Grammar

/-- The constructs inside a rule keep states sound, and an operation yields an operand that has left
no operator of its precedence behind. -/
structure Inner.Binds (inner : Inner) : Prop where
  agree : inner.Agree inner
  keeps : ∀ {wanted} construct, Keeps wanted (inner construct)
  operation : ∀ {least s t}, s.Sound → (inner (.operation least)).run s = some (true, t) →
    s.Joined t (Node.BindsFrom least)
      ∧ ∀ precedence, precedence? t.current = some precedence → precedence < least

variable {wanted : Kind → Prop} {kind : Kind} {m least : Nat} {inner : Inner} {s t : State}

/-! ## Types -/

theorem dottedName_keeps : Keeps wanted dottedName := by
  refine .isAt_bind fun there => .peek_bind fun next => ?_
  split
  · exact take_keeps.bind fun _ => take_keeps.bind fun _ => .pure true
  · exact .pure false

theorem dimension_keeps : Keeps wanted dimension := by
  refine .isAt_bind fun there => .peek_bind fun next => ?_
  split
  · exact take_keeps.bind fun _ => take_keeps.bind fun _ => .pure true
  · exact .pure false

theorem typeBound_keeps (h : inner.Binds) : Keeps wanted (typeBound inner) := by
  refine .isAt_bind fun extended => .isAt_bind fun super => ?_
  split
  · exact take_keeps.bind fun _ => (h.keeps _).discard
  · exact .pure ()

theorem typeArgument_keeps (h : inner.Binds) : Keeps wanted (typeArgument inner) :=
  takeIf_keeps.ite ((typeBound_keeps h).bind fun _ => .pure true) (h.keeps _)

theorem typeArguments_keeps (h : inner.Binds) : Keeps wanted (typeArguments inner) := by
  refine take_keeps.bind fun _ => takeIf_keeps.ite (.pure true) ?_
  exact (separated_keeps (typeArgument_keeps h)).ite takeIf_keeps (.pure false)

theorem className_keeps (h : inner.Binds) : Keeps wanted (className inner) := by
  refine take_keeps.bind fun _ => (loop_keeps dottedName_keeps).bind fun _ => whenAt_keeps ?_
  exact attempt_keeps (typeArguments_opens h.agree).retractsAt (typeArguments_keeps h)

theorem typeReference_keeps (h : inner.Binds) : Keeps wanted (typeReference inner) := by
  have hrest (opening : Nat) :
      Keeps anywhere (do loop dimension; wrap opening .typeReference; return true) :=
    (loop_keeps dimension_keeps).bind fun _ => (wrap_keeps rfl rfl).bind fun _ => .pure true
  refine .marker_bind fun opening => .current_bind fun kind _ => ?_
  split
  · exact take_keeps.bind fun _ => hrest opening
  · exact take_keeps.bind fun _ => hrest opening
  · exact (className_keeps h).bind fun _ => hrest opening
  · exact .pure false

/-- A type is one branch. -/
theorem typeReference_joined (h : inner.Agree inner) (hs : Alike s s)
    (hrun : (typeReference inner).run s = some (true, t)) :
    s.Joined t fun node => node.kind = .typeReference := by
  obtain ⟨_, _, hmarker, hrun⟩ := run_bind_eq_some.1 hrun
  obtain ⟨rfl, rfl⟩ := Prod.mk.inj (Option.some.inj hmarker)
  obtain ⟨_, _, hcurrent, hrun⟩ := run_bind_eq_some.1 hrun
  obtain ⟨rfl, rfl⟩ := Prod.mk.inj (Option.some.inj hcurrent)
  have hrest (_ : Unit) : Closes s.marker (· = .typeReference)
      (do loop dimension; wrap s.marker .typeReference; return true) :=
    .bind (loop_agrees dimension_agrees) fun _ => (Closes.wrap rfl).answer
  have htaken (hend : s.current ≠ .endOfFile) (hrun : (take >>= fun _ => (do
      loop dimension; wrap s.marker .typeReference; return true : Parser Bool)).run s
        = some (true, t)) : s.Joined t fun node => node.kind = .typeReference := by
    obtain ⟨node, ⟨hkind, -⟩, hfirm⟩ := joined_of_closes ((· ≠ .endOfFile)) hs hend
      (take_opens fun _ => id) hrest hrun
    exact ⟨node, of_decide_eq_true hkind, hfirm⟩
  split at hrun
  · next hkind => exact htaken (by rw [hkind]; decide) hrun
  · next hkind => exact htaken (by rw [hkind]; decide) hrun
  · next hkind =>
    obtain ⟨node, ⟨hkind, -⟩, hfirm⟩ := joined_of_closes _ hs hkind (className_opens h) hrest hrun
    exact ⟨node, of_decide_eq_true hkind, hfirm⟩
  · cases (run_pure_eq_some.1 hrun).1

theorem types_keeps (h : inner.Binds) : Keeps wanted (types inner) :=
  orMissing_keeps (separated_keeps (typeReference_keeps h))

/-! ## Lists -/

theorem argumentList_keeps (h : inner.Binds) : Keeps wanted (argumentList inner) := by
  refine .marker_bind fun opening => take_keeps.bind fun _ => ?_
  refine (unlessAt_keeps (orMissing_keeps (separated_keeps (h.keeps _)))).bind fun _ => ?_
  exact expect_keeps.discard.bind fun _ => wrap_keeps rfl rfl

theorem arrayElement_keeps (h : inner.Binds) : Keeps wanted (arrayElement inner) :=
  .isAt_ite (.pure false) (.isAt_ite (h.keeps _) (h.keeps _))

theorem arrayInitializer_keeps (h : inner.Binds) : Keeps wanted (arrayInitializer inner) := by
  refine .marker_bind fun opening => take_keeps.bind fun _ => ?_
  refine (separated_keeps (arrayElement_keeps h)).discard.bind fun _ => ?_
  exact expect_keeps.discard.bind fun _ => wrap_keeps rfl rfl

theorem memberBlock_keeps (h : inner.Binds) : Keeps wanted (memberBlock inner) :=
  take_keeps.bind fun _ => itemsUpToBrace_keeps (h.keeps _).discard

/-! ## Operands -/

theorem arrayLength_keeps (h : inner.Binds) : Keeps wanted (arrayLength inner) := by
  refine takeIf_keeps.ite ?_ (.pure false)
  refine (unlessAt_keeps (orMissing_keeps (h.keeps _))).bind fun _ => ?_
  exact expect_keeps.discard.bind fun _ => .pure true

theorem createdName_keeps (h : inner.Binds) : Keeps wanted (createdName inner) := by
  refine .current_bind fun kind _ => ?_
  split
  · exact take_keeps
  · exact className_keeps h
  · exact missing_keeps _

theorem createdType_keeps (h : inner.Binds) : Keeps wanted (createdType inner) := by
  refine .marker_bind fun opening => (createdName_keeps h).bind fun _ => .marker_bind fun now => ?_
  split
  · exact wrap_keeps rfl rfl
  · exact .pure ()

theorem createdParts_keeps (h : inner.Binds) : Keeps wanted (createdParts inner) := by
  refine .isAt_ite ?_ (.isAt_ite ?_ (missing_keeps _))
  · exact (argumentList_keeps h).bind fun _ => whenAt_keeps (memberBlock_keeps h)
  · exact (loop_keeps (arrayLength_keeps h)).bind fun _ => whenAt_keeps (arrayInitializer_keeps h)

theorem newExpression_keeps (h : inner.Binds) : Keeps wanted (newExpression inner) := by
  refine .marker_bind fun opening => take_keeps.bind fun _ => (createdType_keeps h).bind fun _ => ?_
  exact (createdParts_keeps h).bind fun _ => wrap_keeps rfl rfl

theorem typeCast_keeps (h : inner.Binds) : Keeps wanted (typeCast inner) := by
  refine .marker_bind fun opening => take_keeps.bind fun _ => ?_
  refine (typeReference_keeps h).discard.bind fun _ => expect_keeps.discard.bind fun _ => ?_
  exact (orMissing_keeps (h.keeps _)).bind fun _ => wrap_keeps rfl rfl

theorem parenthesized_keeps (h : inner.Binds) : Keeps wanted (parenthesized inner) := by
  refine .marker_bind fun opening => take_keeps.bind fun _ => ?_
  refine (orMissing_keeps (h.keeps _)).bind fun _ => ?_
  exact expect_keeps.discard.bind fun _ => wrap_keeps rfl rfl

theorem castOrParenthesized_keeps (h : inner.Binds) :
    Keeps (· = .leftParen) (castOrParenthesized inner) :=
  .reads_ite (isCast_reads_in_step h.agree) (typeCast_keeps h) (parenthesized_keeps h)

theorem primary_keeps (h : inner.Binds) : Keeps wanted (primary inner) := by
  have htoken {kind : Kind} : Keeps (· = kind) (do take; return true) :=
    take_keeps.bind fun _ => .pure true
  refine .current_bind fun kind _ => ?_
  split
  any_goals exact htoken
  · exact (typeReference_keeps h).discard.bind fun _ => .pure true
  · exact (castOrParenthesized_keeps h).bind fun _ => .pure true
  · exact (newExpression_keeps h).bind fun _ => .pure true
  · exact .pure false

theorem accessedName_keeps : Keeps wanted accessedName := by
  refine .isAt_bind fun atName => .isAt_bind fun atClass => .isAt_bind fun atThis => ?_
  split
  · exact take_keeps
  · exact missing_keeps _

theorem trailer_keeps (h : inner.Binds) : Keeps wanted (trailer inner m) := by
  have hwrap {kind : Kind} (hconstruct : kind.isConstruct = true) (hkind : kind.isRuled = false) :
      Keeps anywhere (do wrap m kind; return true) :=
    (wrap_keeps hconstruct hkind).bind fun _ => .pure true
  refine .current_bind fun kind _ => ?_
  split
  · exact take_keeps.bind fun _ => accessedName_keeps.bind fun _ => hwrap rfl rfl
  · exact (argumentList_keeps h).bind fun _ => hwrap rfl rfl
  · refine take_keeps.bind fun _ => (orMissing_keeps (h.keeps _)).bind fun _ => ?_
    exact expect_keeps.discard.bind fun _ => hwrap rfl rfl
  · exact take_keeps.bind fun _ => hwrap rfl rfl
  · exact take_keeps.bind fun _ => hwrap rfl rfl
  · exact .pure false

theorem operand_keeps (h : inner.Binds) : Keeps wanted (operand inner) := by
  refine .marker_bind fun opening => (primary_keeps h).ite ?_ (.pure false)
  exact (loop_keeps (trailer_keeps h)).bind fun _ => .pure true

theorem unary_keeps (h : inner.Binds) : Keeps wanted (unary inner) := by
  refine .isAtAny_bind fun there => ?_
  split
  · refine .marker_bind fun opening => take_keeps.bind fun _ => ?_
    exact (orMissing_keeps (h.keeps _)).bind fun _ => (wrap_keeps rfl rfl).bind fun _ => .pure true
  · exact operand_keeps h

/-! ## One operand -/

/-- A phrase that is not there leaves the state as it was. -/
theorem Phrase.leaves {starts : Kind → Bool} {p : Parser Bool} (h : Phrase starts p)
    (hrun : p.run s = some (false, t)) : t = s := by
  cases hstarts : starts s.current with
  | true => cases h.yes hstarts hrun
  | false => exact (h.no hstarts hrun).2

/-- A token that is an operand joins the row. -/
theorem take_joined (hkind : Node.isPlainKind s.current = true)
    (hrun : take.run s = some ((), t)) : s.Joined t Node.IsPlain := by
  obtain ⟨-, rfl⟩ := Prod.mk.inj (Option.some.inj hrun)
  cases htoken : s.token? with
  | none =>
    rw [State.current, htoken] at hkind
    cases hkind
  | some token =>
    rw [State.current, htoken] at hkind
    refine ⟨token.node, Node.isPlain_of_isPlainKind (by rwa [Token.kind_node]), ?_⟩
    rw [State.firm_take htoken, State.firm_append_loose]

theorem typeCast_joined (h : inner.Agree inner) (hs : Alike s s) (hkind : s.current = .leftParen)
    (hrun : (typeCast inner).run s = some ((), t)) :
    s.Joined t fun node => Node.isPlainKind node.kind = true ∧ node.isLeaf = false := by
  have hrest (_ : Unit) : Closes s.marker Node.isPlainKind (do
      discard (typeReference inner)
      discard (expect .rightParen)
      orMissing (inner .unary) .expression
      wrap s.marker .typeCast) := by
    refine .bind (typeReference_phrases h).agrees.discard fun _ => ?_
    refine .bind expect_agrees.discard fun _ => ?_
    exact .bind (orMissing_agrees h.unary.agrees) fun _ => .wrap rfl
  exact joined_of_closes ((· = .leftParen)) hs hkind
    (take_opens (by rintro _ rfl; decide)) hrest hrun

theorem parenthesized_joined (h : inner.Agree inner) (hs : Alike s s)
    (hkind : s.current = .leftParen) (hrun : (parenthesized inner).run s = some ((), t)) :
    s.Joined t fun node => Node.isPlainKind node.kind = true ∧ node.isLeaf = false := by
  have hrest (_ : Unit) : Closes s.marker Node.isPlainKind (do
      orMissing (inner .expression) .expression
      discard (expect .rightParen)
      wrap s.marker .parenthesized) := by
    refine .bind (orMissing_agrees h.expression.agrees) fun _ => ?_
    exact .bind expect_agrees.discard fun _ => .wrap rfl
  exact joined_of_closes ((· = .leftParen)) hs hkind
    (take_opens (by rintro _ rfl; decide)) hrest hrun

theorem newExpression_joined (h : inner.Agree inner) (hs : Alike s s)
    (hkind : s.current = .newKeyword) (hrun : (newExpression inner).run s = some ((), t)) :
    s.Joined t fun node => Node.isPlainKind node.kind = true ∧ node.isLeaf = false := by
  have hrest (_ : Unit) : Closes s.marker Node.isPlainKind (do
      createdType inner
      createdParts inner
      wrap s.marker .newExpression) := by
    refine .bind (createdType_agrees h) fun _ => ?_
    exact .bind (createdParts_agrees h) fun _ => .wrap rfl
  exact joined_of_closes ((· = .newKeyword)) hs hkind
    (take_opens (by rintro _ rfl; decide)) hrest hrun

theorem State.Joined.mono {holds holds' : Node → Prop} (h : s.Joined t holds)
    (himp : ∀ node, holds node → holds' node) : s.Joined t holds' := by
  obtain ⟨node, hnode, hfirm⟩ := h
  exact ⟨node, himp node hnode, hfirm⟩

theorem primary_joined (h : inner.Agree inner) (hs : Alike s s)
    (hrun : (primary inner).run s = some (true, t)) : s.Joined t Node.IsPlain := by
  obtain ⟨_, _, hcurrent, hrun⟩ := run_bind_eq_some.1 hrun
  obtain ⟨rfl, rfl⟩ := Prod.mk.inj (Option.some.inj hcurrent)
  have hbranch
      (hjoined : s.Joined t fun node => Node.isPlainKind node.kind = true ∧ node.isLeaf = false) :
      s.Joined t Node.IsPlain :=
    hjoined.mono fun _ hnode => Node.isPlain_of_isPlainKind hnode.1
  have htoken (hkind : Node.isPlainKind s.current = true)
      (hrun : (take >>= fun _ => (pure true : Parser Bool)).run s = some (true, t)) :
      s.Joined t Node.IsPlain := by
    obtain ⟨_, u, htake, hanswer⟩ := run_bind_eq_some.1 hrun
    rw [(run_pure_eq_some.1 hanswer).2]
    exact take_joined hkind htake
  -- the operands of more than one token are a type, one in parentheses and a `new`
  split at hrun
  case h_9 =>
    next hkind =>
    obtain ⟨_, u, htype, hanswer⟩ := run_bind_eq_some.1 hrun
    obtain ⟨there, htype⟩ := run_discard_eq_some.1 htype
    rw [(run_pure_eq_some.1 hanswer).2]
    rw [typeReference_phrase.yes (by rw [hkind]; rfl) htype] at htype
    refine (typeReference_joined h hs htype).mono fun node hnode => ?_
    exact Node.isPlain_of_isPlainKind (by rw [hnode]; rfl)
  case h_10 =>
    next hkind =>
    obtain ⟨_, u, hparens, hanswer⟩ := run_bind_eq_some.1 hrun
    obtain ⟨-, rfl⟩ := run_pure_eq_some.1 hanswer
    obtain ⟨cast, v, hlook, hchoice⟩ := run_bind_eq_some.1 hparens
    obtain ⟨-, rfl, -⟩ := isCast_reads_in_step h s s hs hkind trivial _ _ _ _ hlook hlook
    cases cast with
    | true => exact hbranch (typeCast_joined h hs hkind hchoice)
    | false => exact hbranch (parenthesized_joined h hs hkind hchoice)
  case h_11 =>
    next hkind =>
    obtain ⟨_, u, hnew, hanswer⟩ := run_bind_eq_some.1 hrun
    obtain ⟨-, rfl⟩ := run_pure_eq_some.1 hanswer
    exact hbranch (newExpression_joined h hs hkind hnew)
  case h_12 => cases (run_pure_eq_some.1 hrun).1
  all_goals
    next hkind =>
    exact htoken (by rw [hkind]; rfl) hrun

/-- An access, a call or a step behind an operand takes it in. -/
theorem trailer_closes (h : inner.Agree inner) (hs : Alike s s) (hm : m ≤ s.firm.length)
    (hrun : (trailer inner m).run s = some (true, t)) :
    ∃ node : Node, node.IsPlain ∧ t.firm = s.firm.take m ++ [node] := by
  obtain ⟨_, _, hcurrent, hrun⟩ := run_bind_eq_some.1 hrun
  obtain ⟨rfl, rfl⟩ := Prod.mk.inj (Option.some.inj hcurrent)
  have hwrap {kind : Kind} (hkind : Node.isPlainKind kind = true) :
      Closes m Node.isPlainKind (do wrap m kind; return true) :=
    (Closes.wrap hkind).answer
  have hclose {p : Parser Bool} (hp : Closes m Node.isPlainKind p)
      (hrun : p.run s = some (true, t)) :
      ∃ node : Node, node.IsPlain ∧ t.firm = s.firm.take m ++ [node] := by
    obtain ⟨kind, children, hkind, hfirm⟩ := hp s hs hm _ _ hrun
    exact ⟨.branch kind children, Node.isPlain_of_isPlainKind hkind, hfirm⟩
  split at hrun
  · refine hclose (.bind take_agrees fun _ => .bind accessedName_agrees fun _ => hwrap ?_) hrun
    rfl
  · next hkind =>
    obtain ⟨_, u, harguments, hrest⟩ := run_bind_eq_some.1 hrun
    have hmarker : m ≤ s.marker := by
      rw [State.length_firm] at hm
      exact hm.trans s.solid_le_marker
    obtain ⟨-, hu⟩ := argumentList_opens h s s hs hkind trivial _ _ _ _ harguments harguments
    obtain ⟨hle, hsame⟩ := (hu.opens.evolves hmarker).take_firm hs.sane hm
    have hcall : Closes m Node.isPlainKind (do wrap m .methodCall; return true) := hwrap rfl
    obtain ⟨kind, children, hplain, hfirm⟩ := hcall u hu.alike hle _ _ hrest
    exact ⟨.branch kind children, Node.isPlain_of_isPlainKind hplain, by rw [hfirm, hsame]⟩
  · refine hclose (.bind take_agrees fun _ => ?_) hrun
    refine .bind (orMissing_agrees h.expression.agrees) fun _ => ?_
    exact .bind expect_agrees.discard fun _ => hwrap rfl
  · exact hclose (.bind take_agrees fun _ => hwrap rfl) hrun
  · exact hclose (.bind take_agrees fun _ => hwrap rfl) hrun
  · cases (run_pure_eq_some.1 hrun).1

/-- What finds no access, call or step leaves the state as it was. -/
theorem eq_of_trailer (hrun : (trailer inner m).run s = some (false, t)) : t = s := by
  obtain ⟨_, _, hcurrent, hrun⟩ := run_bind_eq_some.1 hrun
  obtain ⟨rfl, rfl⟩ := Prod.mk.inj (Option.some.inj hcurrent)
  have hno {p : Parser Bool} (hp : AnswersYes p) (hrun : p.run s = some (false, t)) : t = s :=
    absurd (hp _ _ _ hrun) Bool.false_ne_true
  split at hrun
  · exact hno (.bind fun _ => .bind fun _ => .bind fun _ => .pure) hrun
  · exact hno (.bind fun _ => .bind fun _ => .pure) hrun
  · exact hno (.bind fun _ => .bind fun _ => .bind fun _ => .bind fun _ => .pure) hrun
  · exact hno (.bind fun _ => .bind fun _ => .pure) hrun
  · exact hno (.bind fun _ => .bind fun _ => .pure) hrun
  · exact (run_pure_eq_some.1 hrun).2

theorem operand_joined (h : inner.Agree inner) (hs : Alike s s)
    (hrun : (operand inner).run s = some (true, t)) : s.Joined t Node.IsPlain := by
  obtain ⟨_, _, hmarker, hrun⟩ := run_bind_eq_some.1 hrun
  obtain ⟨rfl, rfl⟩ := Prod.mk.inj (Option.some.inj hmarker)
  obtain ⟨there, u, hprimary, hrun⟩ := run_bind_eq_some.1 hrun
  cases there with
  | false => cases (run_pure_eq_some.1 hrun).1
  | true =>
    obtain ⟨_, v, hloop, hanswer⟩ := run_bind_eq_some.1 hrun
    obtain ⟨-, rfl⟩ := run_pure_eq_some.1 hanswer
    have hu : Alike u u := (primary_phrases h).agrees.alike hs le_rfl hprimary
    have hmarker : s.marker = s.built.reverse.length := List.length_reverse.symm
    -- every trailer takes in the operand behind the marker, and leaves another one there
    refine @loop_ends _ _ _ (fun u => Alike u u ∧ s.Joined u Node.IsPlain) (s.Joined · Node.IsPlain)
      ?_ ?_ ⟨hu, primary_joined h hs hprimary⟩ hloop
    · rintro u v ⟨hu, node, hnode, hfirm⟩ hstep
      have hle : s.marker ≤ u.firm.length := by
        rw [hfirm, List.length_append, hmarker]
        exact Nat.le_add_right _ _
      obtain ⟨node', hnode', hfirm'⟩ := trailer_closes h hu hle hstep
      have hm : s.marker ≤ u.marker := hle.trans (u.length_firm ▸ u.solid_le_marker)
      refine ⟨(trailer_agrees h).alike hu hm hstep, node', hnode', ?_⟩
      rw [hfirm', hfirm, hmarker, List.take_left]
    · rintro u v ⟨-, hjoined⟩ hstep
      rwa [eq_of_trailer hstep]

theorem unary_joined (h : inner.Agree inner) (hs : Alike s s)
    (hrun : (unary inner).run s = some (true, t)) : s.Joined t Node.IsPlain := by
  obtain ⟨there, _, hat, hrun⟩ := run_bind_eq_some.1 hrun
  obtain ⟨hthere, rfl⟩ := Prod.mk.inj (Option.some.inj hat)
  cases there with
  | false => exact operand_joined h hs hrun
  | true =>
    have hrest (_ : Unit) : Closes s.marker Node.isPlainKind (do
        orMissing (inner .unary) .expression
        wrap s.marker .unaryExpression
        return true) :=
      .bind (orMissing_agrees h.unary.agrees) fun _ => (Closes.wrap rfl).answer
    have hjoined := joined_of_closes ((isUnaryOperator · = true)) hs hthere
      (take_opens (by rintro _ hkind rfl; cases hkind)) hrest hrun
    exact hjoined.mono fun _ hnode => Node.isPlain_of_isPlainKind hnode.1

/-! ## Operations -/

/-- What stands behind an operator: what the parser for it adds, or a mark that it is missing. -/
theorem orMissing_joined {p : Parser Bool} {missed : Wanted} {holds : Node → Prop} {b : Unit}
    (hs : s.Fair) (hafter : s.isAfterError = false)
    (hyes : ∀ {t}, p.run s = some (true, t) → s.Joined t holds)
    (hno : ∀ {t}, p.run s = some (false, t) → t = s)
    (hrun : (orMissing p missed).run s = some (b, t)) :
    (p.run s = some (true, t) ∧ s.Joined t holds)
      ∨ t.firm = s.firm ++ [.error (.expected missed) []] := by
  obtain ⟨there, u, hpu, hrest⟩ := run_bind_eq_some.1 hrun
  cases there with
  | true =>
    obtain ⟨-, rfl⟩ := run_pure_eq_some.1 hrest
    exact .inl ⟨hpu, hyes hpu⟩
  | false =>
    obtain rfl := hno hpu
    obtain ⟨-, rfl⟩ := Prod.mk.inj (Option.some.inj hrest)
    right
    have hmark : u.markMissing missed = u.insertSolid 0 (.error (.expected missed) []) :=
      if_neg (by rw [hafter]; exact Bool.false_ne_true)
    show (u.markMissing missed).firm = _
    rw [hmark, hs.sane.firm_insertSolid, Nat.sub_zero, List.take_length]

/-- One operand stands behind the marker, and fits on the left of the operator that comes next. -/
structure State.Operand (base : List Node) (least : Nat) (s : State) : Prop where
  sound : s.Sound
  operand : ∃ node : Node, node.FitsBefore least s.current ∧ s.firm = base ++ [node]

/-- The parts of an operation that is about to be made behind a marker. -/
structure State.Parts (base : List Node) (left operator right : Node) (s : State) : Prop where
  below : s.firm.take base.length = base
  above : Node.partsOf (s.firm.drop base.length) = [left, operator, right]

/-- An operator and its right operand stand behind the left one, with white space between them. -/
theorem parts_of_firm {base between : List Node} {left right : Node} {token : Token} (hs : s.Sane)
    (hfirm : s.firm = base ++ [left]) (htoken : s.token? = some token)
    (ht : t.firm = (s.take Token.node).firm ++ between ++ [right])
    (hleft : left.kind.isTrivia = false) (hright : right.kind.isTrivia = false)
    (hbetween : ∀ node ∈ between, node.kind.isTrivia = true) :
    t.Parts base left token.node right := by
  have hoperator : token.node.kind.isTrivia = false := by
    rw [Token.kind_node]
    exact (hs.token token htoken).1
  have hloose : Node.partsOf s.loose = [] :=
    Node.partsOf_eq_nil fun node hnode => (hs.loose node hnode).2.1
  have hrow : t.firm = base ++ ([left] ++ s.loose ++ [token.node] ++ between ++ [right]) := by
    rw [ht, State.firm_take htoken, hfirm]
    simp only [List.append_assoc]
  refine ⟨by rw [hrow, List.take_left], ?_⟩
  rw [hrow, List.drop_left, Node.partsOf_append, Node.partsOf_append, Node.partsOf_append,
    Node.partsOf_append, hloose, Node.partsOf_eq_nil hbetween, Node.partsOf_singleton hleft,
    Node.partsOf_singleton hright, Node.partsOf_singleton hoperator]
  rfl

/-- Before it is wrapped, an operation has its left operand, its operator and what stands on the
right of it: what the parser for that adds, or a mark. -/
theorem operator_step (holds : Node → Prop) {base : List Node} {q : Parser Bool} {missed : Wanted}
    {a : Bool} {precedence : Nat} (hs : s.Operand base least)
    (hprecedence : precedence? s.current = some precedence) (hkeeps : Keeps anywhere q)
    (hyes : ∀ {s t}, s.Sound → q.run s = some (true, t) → s.Joined t holds)
    (hno : ∀ {s t}, q.run s = some (false, t) → t = s)
    (hholds : ∀ node, holds node → node.kind.isTrivia = false)
    (hrun : (do
      take
      orMissing q missed
      wrap base.length kind
      return true : Parser Bool).run s = some (a, t)) :
    ∃ left operator right u, u.Sound ∧ t = u.wrap base.length kind
      ∧ u.Parts base left operator right ∧ operator.kind = s.current ∧ left.FitsLeft precedence
      ∧ (right.IsMissing ∨ (holds right ∧ q.run (s.take Token.node) = some (true, u))) := by
  obtain ⟨left, hleft, hfirm⟩ := hs.operand
  obtain ⟨_, v, htake, hrun⟩ := run_bind_eq_some.1 hrun
  obtain ⟨-, rfl⟩ := Prod.mk.inj (Option.some.inj htake)
  obtain ⟨_, u, hright, hrun⟩ := run_bind_eq_some.1 hrun
  obtain ⟨_, w, hwrap, hanswer⟩ := run_bind_eq_some.1 hrun
  obtain ⟨-, rfl⟩ := run_pure_eq_some.1 hanswer
  obtain ⟨-, rfl⟩ := Prod.mk.inj (Option.some.inj hwrap)
  obtain ⟨token, htoken⟩ : ∃ token, s.token? = some token := by
    refine Option.isSome_iff_exists.1 (State.isSome_of_current ?_)
    intro hend
    rw [hend] at hprecedence
    cases hprecedence
  have hcurrent : s.current = token.kind := by rw [State.current, htoken]
  have hv : (s.take Token.node).Sound := hs.sound.take (.inl rfl)
  have hu : u.Sound := orMissing_keeps hkeeps _ hv trivial _ _ hright
  -- behind the operator no mark is left out, for the operator is no error
  have hafter : (s.take Token.node).isAfterError = false := by
    rw [State.isAfterError_eq, State.firm_take htoken, List.getLast?_concat, Option.any_some,
      Token.kind_node, ← hcurrent]
    cases hkind : s.current <;> first | rfl | (rw [hkind] at hprecedence; cases hprecedence)
  have hlefttrivia : left.kind.isTrivia = false := Node.isTrivia_of_isOperand hleft.operand.kind
  have hkind : token.node.kind = s.current := by rw [Token.kind_node, hcurrent]
  have hsane := hs.sound.fair.sane
  refine ⟨left, token.node, ?_⟩
  rcases orMissing_joined hv.fair hafter (hyes hv) hno hright with ⟨hq, right, hnode, hrow⟩ | hrow
  · rw [← State.firm_append_loose] at hrow
    refine ⟨right, u, hu, rfl, ?_, hkind, hleft.left _ hprecedence, .inr ⟨hnode, hq⟩⟩
    exact parts_of_firm hsane hfirm htoken hrow hlefttrivia (hholds _ hnode)
      fun node hmem => (hv.fair.sane.loose node hmem).2.1
  · refine ⟨_, u, hu, rfl, ?_, hkind, hleft.left _ hprecedence, .inl ⟨missed, rfl⟩⟩
    rw [← List.append_nil (s.take Token.node).firm] at hrow
    exact parts_of_firm hsane hfirm htoken hrow hlefttrivia rfl fun _ hmem =>
      absurd hmem List.not_mem_nil

/-- The operation that is made stands alone behind the marker. -/
theorem State.Parts.wrap {base : List Node} {left operator right : Node}
    (h : s.Parts base left operator right) (hs : s.Sane) : (s.wrap base.length kind).firm
      = base ++ [.branch kind (s.firm.drop base.length)] := by
  rw [hs.firm_wrap, h.below]

theorem instanceof_step (h : inner.Binds) {base : List Node} {a : Bool} {precedence : Nat}
    (hs : s.Operand base least) (hkind : s.current = .instanceofKeyword)
    (hprecedence : precedence? s.current = some precedence) (hle : least ≤ precedence)
    (hrun : (do
      take
      orMissing (typeReference inner) (.construct .typeReference)
      wrap base.length .instanceofExpression
      return true : Parser Bool).run s = some (a, t)) : t.Operand base least := by
  obtain ⟨left, operator, right, u, hu, rfl, hparts, hoperator, hleft, -⟩ :=
    operator_step (·.kind = .typeReference) hs hprecedence (typeReference_keeps h)
      (fun hs => typeReference_joined h.agree hs.alike) typeReference_phrase.leaves
      (fun _ hnode => by rw [hnode]; rfl) hrun
  rw [hkind] at hoperator hprecedence
  set node := Node.branch .instanceofExpression (u.firm.drop base.length)
  have hchildren : node.parts = [left, operator, right] := hparts.above
  have hoperand : node.IsOperand := Node.isOperand_branch rfl (by decide) (by decide)
  have hinstanceof : node.IsInstanceof :=
    ⟨left, operator, right, precedence, hchildren, hoperator, hprecedence, hleft⟩
  refine ⟨hu.wrap rfl ⟨⟨nofun, fun _ => hinstanceof⟩, nofun, fun _ => rfl⟩, node,
    ⟨⟨hoperand, fun _ => ?_⟩, ?_⟩, hparts.wrap hu.fair.sane⟩
  · refine ⟨precedence, ?_, hle⟩
    rw [Node.precedence?, hchildren]
    show precedence? operator.kind = _
    rw [hoperator, hprecedence]
  · exact fun _ _ => ⟨hoperand, nofun⟩

theorem binary_step (h : inner.Binds) {base : List Node} {a : Bool} {precedence : Nat}
    (hs : s.Operand base least) (hkind : s.current ≠ .instanceofKeyword)
    (hprecedence : precedence? s.current = some precedence) (hle : least ≤ precedence)
    (hrun : (do
      take
      orMissing (inner (.operation (precedence + 1))) .expression
      wrap base.length .binaryExpression
      return true : Parser Bool).run s = some (a, t)) : t.Operand base least := by
  obtain ⟨left, operator, right, u, hu, rfl, hparts, hoperator, hleft, hright⟩ :=
    operator_step (Node.BindsFrom (precedence + 1)) hs hprecedence (h.keeps _)
      (fun hs hrun => (h.operation hs hrun).1) h.agree.operation.phrase.leaves
      (fun _ hnode => Node.isTrivia_of_isOperand hnode.operand.kind) hrun
  rw [← hoperator] at hprecedence hkind
  set node := Node.branch .binaryExpression (u.firm.drop base.length)
  have hchildren : node.parts = [left, operator, right] := hparts.above
  have hoperand : node.IsOperand := Node.isOperand_branch rfl (by decide) (by decide)
  have hown : node.precedence? = some precedence := by
    rw [Node.precedence?, hchildren]
    exact hprecedence
  have hbinary : node.IsBinary := by
    refine ⟨left, operator, right, precedence, hchildren, hprecedence, hkind, hleft, ?_⟩
    exact hright.symm.imp (fun hnode => hnode.1.fitsRight) id
  refine ⟨hu.wrap rfl ⟨⟨fun _ => hbinary, nofun⟩, nofun, fun _ => rfl⟩, node,
    ⟨⟨hoperand, fun _ => ?_⟩, ?_⟩, hparts.wrap hu.fair.sane⟩
  · exact ⟨precedence, hown, hle⟩
  · -- a right operand that is there has taken in every operator that binds tighter
    refine fun next hnext => ⟨hoperand, fun _ hlacks => ⟨precedence, hown, ?_⟩⟩
    rcases hright with hmissing | ⟨-, hq⟩
    · refine absurd ⟨right, ?_, hmissing⟩ hlacks
      rw [hchildren]
      rfl
    · have hlt := (h.operation (hs.sound.take (.inl rfl)) hq).2 next hnext
      omega

/-- One operator and its right operand take the left one in. -/
theorem operatorStep_step (h : inner.Binds) {base : List Node} (hs : s.Operand base least)
    (hrun : (operatorStep inner least base.length).run s = some (true, t)) :
    t.Operand base least := by
  obtain ⟨_, _, hcurrent, hrun⟩ := run_bind_eq_some.1 hrun
  obtain ⟨rfl, rfl⟩ := Prod.mk.inj (Option.some.inj hcurrent)
  split at hrun
  · cases (run_pure_eq_some.1 hrun).1
  · next precedence hprecedence =>
    split_ifs at hrun with hlt hkind
    · cases (run_pure_eq_some.1 hrun).1
    · exact instanceof_step h hs hkind hprecedence (Nat.le_of_not_lt hlt) hrun
    · exact binary_step h hs hkind hprecedence (Nat.le_of_not_lt hlt) hrun

/-- The loop ends where no operator of the least precedence comes next. -/
theorem operatorStep_stops (hrun : (operatorStep inner least m).run s = some (false, t)) :
    t = s ∧ ∀ precedence, precedence? s.current = some precedence → precedence < least := by
  obtain ⟨_, _, hcurrent, hrun⟩ := run_bind_eq_some.1 hrun
  obtain ⟨rfl, rfl⟩ := Prod.mk.inj (Option.some.inj hcurrent)
  have hyes {p q : Parser Unit}
      (hrun : (do take; p; q; return true : Parser Bool).run s = some (false, t)) : False :=
    Bool.false_ne_true (AnswersYes.bind (fun _ => .bind fun _ => .bind fun _ => .pure) _ _ _ hrun)
  split at hrun
  · next hnone =>
    refine ⟨(run_pure_eq_some.1 hrun).2, fun precedence hsome => ?_⟩
    rw [hnone] at hsome
    cases hsome
  · next own hown =>
    split_ifs at hrun with hlt hkind
    · refine ⟨(run_pure_eq_some.1 hrun).2, fun precedence hsome => ?_⟩
      rw [hown] at hsome
      cases hsome
      exact hlt
    · exact (hyes hrun).elim
    · exact (hyes hrun).elim

/-- **The loop over the operators.**  What it leaves behind the marker is one operand that fits on
the left of any operator that may follow, and none of the least precedence follows. -/
theorem operation_run (h : inner.Binds) (hs : s.Sound) {a : Bool}
    (hrun : (operation inner least).run s = some (a, t)) :
    t.Sound ∧ (a = true → s.Joined t (Node.BindsFrom least)
      ∧ ∀ precedence, precedence? t.current = some precedence → precedence < least) := by
  obtain ⟨_, _, hmarker, hrun⟩ := run_bind_eq_some.1 hrun
  obtain ⟨rfl, rfl⟩ := Prod.mk.inj (Option.some.inj hmarker)
  obtain ⟨there, u, hunary, hrun⟩ := run_bind_eq_some.1 hrun
  have hu : u.Sound := (unary_keeps h).sound hs hunary
  cases there with
  | false =>
    obtain ⟨rfl, rfl⟩ := run_pure_eq_some.1 hrun
    exact ⟨hu, nofun⟩
  | true =>
    obtain ⟨_, v, hloop, hanswer⟩ := run_bind_eq_some.1 hrun
    obtain ⟨-, rfl⟩ := run_pure_eq_some.1 hanswer
    obtain ⟨node, hplain, hfirm⟩ := unary_joined h.agree hs.alike hunary
    have hmarker : s.marker = s.built.reverse.length := List.length_reverse.symm
    rw [hmarker] at hloop
    have hoperand : t.Operand s.built.reverse least
        ∧ ∀ precedence, precedence? t.current = some precedence → precedence < least := by
      refine @loop_ends _ _ _ (State.Operand s.built.reverse least)
        (fun t => t.Operand s.built.reverse least ∧ ∀ precedence,
          precedence? t.current = some precedence → precedence < least)
        (operatorStep_step h) ?_ ⟨hu, node, hplain.fitsBefore _, hfirm⟩ hloop
      intro u v hu hstep
      obtain ⟨rfl, hlt⟩ := operatorStep_stops hstep
      exact ⟨hu, hlt⟩
    obtain ⟨node, hnode, hfirm⟩ := hoperand.1.operand
    exact ⟨hoperand.1.sound, fun _ => ⟨⟨node, hnode.toBindsFrom, hfirm⟩, hoperand.2⟩⟩

theorem operation_keeps (h : inner.Binds) : Keeps wanted (operation inner least) :=
  fun _ hs _ _ _ hrun => (operation_run h hs hrun).1

/-! ## Expressions -/

theorem choices_keeps (h : inner.Binds) : Keeps wanted (choices inner m) := by
  refine (orMissing_keeps (h.keeps _)).bind fun _ => expect_keeps.discard.bind fun _ => ?_
  exact (orMissing_keeps (h.keeps _)).bind fun _ => wrap_keeps rfl rfl

theorem conditional_keeps (h : inner.Binds) : Keeps wanted (conditional inner) := by
  refine .marker_bind fun opening => (operation_keeps h).ite ?_ (.pure false)
  exact (whenTaken_keeps (choices_keeps h)).bind fun _ => .pure true

theorem assignedValue_keeps (h : inner.Binds) : Keeps wanted (assignedValue inner) :=
  .isAt_ite (arrayInitializer_keeps h) (orMissing_keeps (h.keeps _))

theorem assignmentRest_keeps (h : inner.Binds) : Keeps wanted (assignmentRest inner m) := by
  refine .isAt_bind fun simple => .isAt_bind fun compound => ?_
  split
  · exact take_keeps.bind fun _ => (assignedValue_keeps h).bind fun _ => wrap_keeps rfl rfl
  · exact .pure ()

theorem expression_keeps (h : inner.Binds) : Keeps wanted (expression inner) := by
  refine .marker_bind fun opening => (conditional_keeps h).ite ?_ (.pure false)
  exact (assignmentRest_keeps h).bind fun _ => .pure true

end Grammar

end StatementCompletion
