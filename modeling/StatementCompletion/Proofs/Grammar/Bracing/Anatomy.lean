import StatementCompletion.Proofs.Grammar.Bracing.Advance
import StatementCompletion.Proofs.Grammar.Header
import StatementCompletion.Proofs.Tree.Unbraced

/-!
# Where the parts of a statement are read

The statement that is cut at its closing parenthesis and around its body is the one that is read
from its keyword on: the header ends in front of the parenthesis, the body is the statement inside
that is read behind it, and what stands behind the body is an `else` with its own.
-/

namespace StatementCompletion.Grammar

variable {inner : Inner} {header : Header} {s t u v w x : State} {b : Unbraced} {keyword : Token}

/-- The states between which the parts of a statement are read. -/
structure Anatomy (inner : Inner) (b : Unbraced) (s t : State) (header : Header)
    (u w x : State) : Prop where
  reads : header.Reads inner s u
  closes : u.current = .rightParen
  kind : b.kind = header.kind
  starts : startsStatement (u.take Token.node).current = true
  body : ∃ there, (inner .statement).run (u.take Token.node) = some (there, w)
  otherwise : (header.otherwise inner).run w = some ((), x)
  made : t = x.wrap s.marker header.kind
  front : u.built.reverse = s.built.reverse ++ b.front
  closed : ∃ token, u.token? = some token ∧ b.closed = token.node
  gap : (u.take Token.node).loose = b.gap
  row : w.firm = (u.take Token.node).built.reverse ++ [b.body]
  behind : x.firm = w.firm ++ b.behind

/-- What is read behind a body is nothing, or begins with `else`. -/
def StandsBehind (header : Header) (nodes : List Node) : Prop :=
  nodes = [] ∨ header = .branch ∧ ∃ front keyword rest, nodes = front ++ keyword :: rest
    ∧ (∀ node ∈ front, node.kind.isTrivia = true) ∧ keyword.kind = .elseKeyword

theorem ne_elseKeyword_of_isTrivia {kind : Kind} (h : kind.isTrivia = true) :
    kind ≠ .elseKeyword := by
  rintro rfl
  cases h

section

variable (h : inner.Agree inner)
  (hstatement : Joins (startsStatement · = true) IsConstruct (inner .statement))

include h hstatement

theorem otherwise_row (hw : Alike w w) (hrun : (header.otherwise inner).run w = some ((), x)) :
    ∃ nodes, x.firm = w.firm ++ nodes ∧ StandsBehind header nodes := by
  cases header with
  | loop | elements | counting =>
    obtain ⟨-, rfl⟩ := run_pure_eq_some.1 hrun
    exact ⟨[], (List.append_nil _).symm, .inl rfl⟩
  | branch =>
    obtain ⟨taken, y, htaken, hrest⟩ := run_bind_eq_some.1 hrun
    by_cases hkind : w.current = .elseKeyword
    · obtain ⟨rfl, rfl⟩ :=
        Prod.mk.inj (Option.some.inj ((run_takeIf_of_eq hkind).symm.trans htaken))
      obtain ⟨token, htoken⟩ := Option.isSome_iff_exists.1
        (State.isSome_of_current (s := w) (by rw [hkind]; decide))
      have hbody : Conceals anywhere (body inner) := body_conceals h hstatement
      obtain ⟨-, rest, hfirm, -⟩ := hbody.covered (hw.take Token.node) trivial hrest
      rw [State.firm_take htoken] at hfirm
      refine ⟨w.loose ++ token.node :: rest, by rw [hfirm]; simp, .inr ⟨rfl, _, _, _, rfl, ?_, ?_⟩⟩
      · exact fun node hnode => (hw.sane.loose node hnode).2.1
      · rw [Token.kind_node, ← hkind, State.current, htoken]
    · obtain ⟨rfl, rfl⟩ :=
        Prod.mk.inj (Option.some.inj ((run_takeIf_of_ne hkind).symm.trans htaken))
      obtain ⟨-, rfl⟩ := run_pure_eq_some.1 hrest
      exact ⟨[], (List.append_nil _).symm, .inl rfl⟩

end

/-- In front of what stands behind a body there is a statement. -/
theorem exists_statement {nodes behind : List Node} (hcut : b.IsCut) (hkind : b.kind = header.kind)
    (hnodes : ∀ node ∈ nodes, node.kind.isStatement = false ∧ node.kind ≠ .elseKeyword)
    (hbehind : StandsBehind header behind) : b.gap ++ b.body :: b.behind ≠ nodes ++ behind := by
  intro heq
  rcases hbehind with rfl | ⟨rfl, front, keyword, rest, rfl, hfront, hkeyword⟩
  · have hmem : b.body ∈ nodes := by
      rw [← List.append_nil nodes, ← heq]
      exact List.mem_append_right _ List.mem_cons_self
    exact Bool.false_ne_true ((hnodes _ hmem).1.symm.trans hcut.body)
  · let holds (node : Node) : Prop := node.kind.isStatement = true ∨ node.kind = .elseKeyword
    rw [← List.append_assoc] at heq
    have hnone {nodes : List Node}
        (hnodes : ∀ node ∈ nodes, node.kind.isStatement = false ∧ node.kind ≠ .elseKeyword) :
        ∀ node ∈ nodes, ¬ holds node := by
      rintro node hnode (hstatement | helse)
      · exact Bool.false_ne_true ((hnodes node hnode).1.symm.trans hstatement)
      · exact (hnodes node hnode).2 helse
    have hgap := hnone fun node hnode => ⟨hcut.gap node hnode, hcut.branch hkind node hnode⟩
    have hbefore : ∀ node ∈ nodes ++ front, ¬ holds node :=
      hnone fun node hnode => (List.mem_append.1 hnode).elim (hnodes node) fun hnode =>
        ⟨Kind.isStatement_of_isTrivia (hfront node hnode),
          ne_elseKeyword_of_isTrivia (hfront node hnode)⟩
    obtain ⟨-, hsame, -⟩ := first_eq heq hgap hbefore (.inl hcut.body) (.inr hkeyword)
    have hbody := hcut.body
    rw [hsame, hkeyword] at hbody
    cases hbody

section

variable (h : inner.Agree inner)
  (hstatement : Joins (startsStatement · = true) IsConstruct (inner .statement))

include h hstatement

/-- The body that is cut out is the statement inside that has been read behind the parenthesis. -/
theorem exists_body (hv : Alike v v) (hcut : b.IsCut) (hkind : b.kind = header.kind)
    (hbody : (body inner).run v = some ((), w))
    (hotherwise : (header.otherwise inner).run w = some ((), x))
    (hrow : x.firm = v.firm ++ (b.gap ++ b.body :: b.behind)) :
    startsStatement v.current = true ∧ (∃ there, (inner .statement).run v = some (there, w))
      ∧ v.loose = b.gap ∧ w.firm = v.built.reverse ++ [b.body] ∧ x.firm = w.firm ++ b.behind := by
  have hbodies : Conceals anywhere (body inner) := body_conceals h hstatement
  obtain ⟨hw, -⟩ := hbodies.covered hv trivial hbody
  obtain ⟨behind, hfirm, hbehind⟩ := otherwise_row h hstatement hw hotherwise
  have hloose (node : Node) (hnode : node ∈ v.loose) :
      node.kind.isStatement = false ∧ node.kind ≠ .elseKeyword :=
    have htrivia := (hv.sane.loose node hnode).2.1
    ⟨Kind.isStatement_of_isTrivia htrivia, ne_elseKeyword_of_isTrivia htrivia⟩
  have hbody : (if startsStatement v.current then discard (inner .statement)
      else missing .statement).run v = some ((), w) := hbody
  -- a statement has been read there, or one has been marked as missing
  split at hbody
  · next hstarts =>
    obtain ⟨there, hrun⟩ := run_discard_eq_some.1 hbody
    obtain ⟨node, hconstruct, hnode⟩ := hstatement.joined hv hstarts hrun
    have hsplit : b.gap ++ b.body :: b.behind = v.loose ++ node :: behind := by
      rw [hfirm, hnode, ← State.firm_append_loose] at hrow
      simp only [List.append_assoc, List.append_cancel_left_eq] at hrow
      exact hrow.symm
    -- the body is the first statement in either row
    cases hkinds : node.kind.isStatement with
    | true =>
      have hbefore (node : Node) (hnode : node ∈ b.gap) : ¬ node.kind.isStatement = true := by
        rw [hcut.gap node hnode]
        exact Bool.false_ne_true
      have hbefore' (node : Node) (hnode : node ∈ v.loose) : ¬ node.kind.isStatement = true := by
        rw [(hloose node hnode).1]
        exact Bool.false_ne_true
      obtain ⟨hgap, hsame, hrest⟩ := first_eq hsplit hbefore hbefore' hcut.body hkinds
      exact ⟨hstarts, ⟨there, hrun⟩, hgap.symm, hsame ▸ hnode, hrest ▸ hfirm⟩
    | false =>
      have hnodes (other : Node) (hother : other ∈ v.loose ++ [node]) :
          other.kind.isStatement = false ∧ other.kind ≠ .elseKeyword := by
        rcases List.mem_append.1 hother with hother | hother
        · exact hloose other hother
        · rw [List.mem_singleton.1 hother]
          refine ⟨hkinds, fun helse => ?_⟩
          rw [IsConstruct, helse] at hconstruct
          cases hconstruct
      refine absurd ?_ (exists_statement hcut hkind hnodes hbehind)
      rw [hsplit]
      simp
  · obtain ⟨-, rfl⟩ := Prod.mk.inj (Option.some.inj hbody)
    obtain ⟨nodes, hnodes, hmarked⟩ : ∃ nodes, (v.markMissing .statement).firm = v.firm ++ nodes
        ∧ ∀ node ∈ nodes, node.kind.isStatement = false ∧ node.kind ≠ .elseKeyword := by
      rcases hv.sane.firm_markMissing .statement with heq | heq
      · exact ⟨[], by rw [heq, List.append_nil], fun _ hnode => absurd hnode List.not_mem_nil⟩
      · exact ⟨_, heq, List.forall_mem_singleton.2 ⟨rfl, by decide⟩⟩
    refine absurd ?_ (exists_statement hcut hkind hmarked hbehind)
    rw [hfirm, hnodes, List.append_assoc] at hrow
    exact (List.append_cancel_left hrow).symm

/-- **The parts that are cut out are those that were read.** -/
theorem exists_anatomy {a : Unit} (hs : s.Fair) (htoken : s.token? = some keyword)
    (hguard : isGuardKeyword s.current = true) (hrun : (statement inner).run s = some (a, t))
    (hcut : b.IsCut)
    (hrow : t.firm = s.built.reverse ++ [b.whole]) :
    ∃ header u w x, Anatomy inner b s t header u w x := by
  obtain ⟨made, x, hparts, rfl⟩ := run_guarded hguard hrun
  obtain ⟨hx, nodes, hfirm, hcloses⟩ := guardedParts_row h hstatement hs hparts
  rw [firm_wrap_behind hx htoken hfirm made] at hrow
  obtain ⟨hkind, hnodes⟩ := Node.branch.inj (List.singleton_inj.1 (List.append_cancel_left hrow))
  have hkeyword : keyword.node.kind ≠ .rightParen := by
    rw [Token.kind_node]
    rintro hparen
    rw [State.current, htoken] at hguard
    change isGuardKeyword keyword.kind = true at hguard
    rw [hparen] at hguard
    cases hguard
  have hmem : b.closed ∈ nodes := by
    have hmem : b.closed ∈ keyword.node :: nodes := by
      rw [hnodes]
      exact List.mem_append_right _ List.mem_cons_self
    rcases List.mem_cons.1 hmem with heq | hmem
    · exact absurd (heq ▸ hcut.closed) hkeyword
    · exact hmem
  obtain hnone | ⟨header, u, hreads, hclosed, rfl, hbehind⟩ := hcloses
  · exact absurd hcut.closed (hnone _ hmem)
  obtain ⟨hu, before, hbefore, hcovered⟩ := hreads.covered h hs.alike
  obtain ⟨_, v, hexpect, hrest⟩ := run_bind_eq_some.1 hbehind
  obtain rfl := take_of_expect hclosed hexpect
  obtain ⟨_, w, hbody, hotherwise⟩ := run_bind_eq_some.1 hrest
  obtain ⟨paren, hparen⟩ := Option.isSome_iff_exists.1
    (State.isSome_of_current (s := u) (by rw [hclosed]; decide))
  have hparenKind : paren.node.kind = .rightParen := by
    rw [Token.kind_node, ← hclosed, State.current, hparen]
  obtain ⟨hw, more, hmore, -⟩ :=
    (show Conceals anywhere (body inner) from body_conceals h hstatement).covered
      (hu.take Token.node) trivial hbody
  obtain ⟨most, hmost, -⟩ := otherwise_row h hstatement hw hotherwise
  -- the first closing parenthesis is the one behind the header
  have hsplit : b.front ++ b.closed :: (b.gap ++ b.body :: b.behind)
      = (keyword.node :: before ++ u.loose) ++ paren.node :: (more ++ most) := by
    rw [← hnodes]
    rw [hmost, hmore, State.firm_take hparen, hbefore] at hfirm
    simp only [List.append_assoc, List.append_cancel_left_eq] at hfirm
    rw [← hfirm]
    simp
  have hbeforeParen : ∀ node ∈ keyword.node :: before ++ u.loose, node.kind ≠ .rightParen := by
    rw [List.forall_mem_append, List.forall_mem_cons]
    refine ⟨⟨hkeyword, hcovered⟩, fun node hnode hkind => ?_⟩
    have htrivia := (hu.sane.loose node hnode).2.1
    rw [hkind] at htrivia
    cases htrivia
  obtain ⟨hfront, hparenNode, hparts⟩ :=
    first_eq hsplit hcut.front hbeforeParen hcut.closed hparenKind
  obtain ⟨hstarts, hinner, hgap, hrow, hbehind⟩ :=
    exists_body h hstatement (hu.take Token.node) hcut
      hkind.symm hbody hotherwise (by rw [hparts, hmost, hmore, List.append_assoc])
  refine ⟨header, u, w, x, hreads, hclosed, hkind.symm, hstarts, hinner, hotherwise, rfl, ?_,
    ⟨paren, hparen, hparenNode⟩, hgap, hrow, hbehind⟩
  rw [← State.firm_append_loose u, hbefore, State.firm_take_eq htoken, hfront]
  simp

end

end StatementCompletion.Grammar
