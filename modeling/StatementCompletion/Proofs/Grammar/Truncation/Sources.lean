import StatementCompletion.Proofs.Grammar.Forming.Sources
import StatementCompletion.Proofs.Grammar.Truncation.Expressions
import StatementCompletion.Proofs.Tree.Parts

/-!
# Truncated statements
-/

namespace StatementCompletion

namespace Grammar

open State (Truncated)
open Node (Torn)

variable {σ : Seam} {inner inner' : Inner} {item : Parser Unit} {s s' t t' u : State}

/-! ## The items of a source -/

/-- Progress is only taken where nothing is left to be read. -/
theorem run_progress_eq_some {a : Unit} (h : (progress item).run s = some (a, u)) :
    ∃ t, item.run s = some ((), t) ∧ (u = t ∨ u = t.take State.unexpectedNode) := by
  have h : (item >>= fun _ => do
      if (← get).unread.length = s.unread.length then takeUnexpected).run s = some (a, u) := h
  obtain ⟨_, t, hitem, htu⟩ := run_bind_eq_some.1 h
  have htu : (if t.unread.length = s.unread.length then takeUnexpected else pure ()).run t
      = some (a, u) := htu
  refine ⟨t, hitem, ?_⟩
  split at htu
  · exact .inr (Prod.mk.inj (Option.some.inj htu)).2.symm
  · exact .inl (run_pure_eq_some.1 htu).2

/-- Items come one after the other up to the end. -/
theorem run_itemStep_eq_some {n : Nat} {a : Unit}
    (h : (loopWithin (n + 1) (itemStep item)).run s = some (a, t)) :
    s.current = .endOfFile ∧ t = s
      ∨ s.current ≠ .endOfFile ∧ ∃ u, (progress item).run s = some ((), u)
        ∧ (loopWithin n (itemStep item)).run u = some (a, t) := by
  obtain ⟨again, u, hstep, hrest⟩ := run_bind_eq_some.1 h
  have hstep : (if decide (s.current = .endOfFile) then pure false
      else (do progress item; return true) : Parser Bool).run s = some (again, u) := hstep
  by_cases hend : s.current = .endOfFile
  · rw [decide_eq_true hend, if_pos rfl] at hstep
    obtain ⟨rfl, rfl⟩ := run_pure_eq_some.1 hstep
    exact .inl ⟨hend, (run_pure_eq_some.1 hrest).2⟩
  · rw [decide_eq_false hend, if_neg Bool.false_ne_true] at hstep
    obtain ⟨_, v, hprogress, hpure⟩ := run_bind_eq_some.1 hstep
    obtain ⟨rfl, rfl⟩ := run_pure_eq_some.1 hpure
    exact .inr ⟨hend, u, hprogress, hrest⟩

/-- At the end there are no more items. -/
theorem run_itemStep_of_end {n : Nat} {a : Unit} (hend : s.token? = none)
    (h : (loopWithin n (itemStep item)).run s = some (a, t)) : t = s := by
  cases n with
  | zero => cases h
  | succ n =>
    rcases run_itemStep_eq_some h with ⟨-, rfl⟩ | ⟨hcurrent, -⟩
    · rfl
    · rw [State.current, hend] at hcurrent
      exact absurd rfl hcurrent

/-! ## Expression statements -/

theorem run_fragmentItem_eq_some {a : Unit} (hbrace : s.current ≠ .rightBrace)
    (h : (fragmentItem inner).run s = some (a, t)) : (statement inner).run s = some (a, t) := by
  have h : (if decide (s.current = .rightBrace) then takeUnexpected else statement inner).run s
      = some (a, t) := h
  rwa [decide_eq_false hbrace, if_neg Bool.false_ne_true] at h

/-- What is read for a plain statement. -/
theorem run_plainStatement_eq_some {opening : Nat} {a : Unit} (h : inner.Agree inner) (hs : s.Fair)
    (hrun : (plainStatement inner opening).run s = some (a, t)) :
    ∃ declares, (isVariableDeclaration inner).run s = some (declares, s)
      ∧ StateT.run (if declares then variableDeclaration inner opening
        else if startsExpression s.current then expressionStatement inner opening
        else takeUnexpected) s = some (a, t) := by
  obtain ⟨declares, u, hlook, hrest⟩ := run_bind_eq_some.1 hrun
  have hreads : ReadsAt (fun _ => True) (isVariableDeclaration inner)
      (isVariableDeclaration inner) :=
    isVariableDeclaration_reads_in_step h
  obtain ⟨-, rfl, -⟩ := hreads s s hs.alike trivial trivial _ _ _ _ hlook hlook
  refine ⟨declares, hlook, ?_⟩
  cases declares with
  | true => exact hrest
  | false => exact hrest

/-- An expression and the semicolon behind it, if there is one. -/
theorem run_expressionStatement_eq_some {opening : Nat} {a : Unit}
    (h : (expressionStatement inner opening).run s = some (a, t)) :
    ∃ b v, (expression inner).run s = some (b, v)
      ∧ t = (if v.current = .semicolon then v.take Token.node
        else v.markMissing (.construct .semicolon)).wrap opening .expressionStatement := by
  obtain ⟨_, v, hexpression, hrest⟩ :=
    run_bind_eq_some.1 (show (discard (expression inner) >>= fun _ =>
    discard (expect .semicolon) >>= fun _ => wrap opening .expressionStatement).run s
      = some (a, t) from h)
  obtain ⟨b, hb⟩ := run_discard_eq_some.1 hexpression
  obtain ⟨_, w, hexpect, hwrap⟩ := run_bind_eq_some.1 hrest
  obtain ⟨c, hc⟩ := run_discard_eq_some.1 hexpect
  obtain ⟨-, rfl⟩ := Prod.mk.inj (Option.some.inj hwrap)
  have hc : (if decide (v.current = .semicolon) then (do take; return true)
      else (do missing (.construct .semicolon); return false) :
      Parser Bool).run v = some (c, w) := hc
  refine ⟨b, v, hb, ?_⟩
  by_cases hsemicolon : v.current = .semicolon
  · rw [decide_eq_true hsemicolon, if_pos rfl] at hc
    obtain ⟨-, rfl⟩ := Prod.mk.inj (Option.some.inj hc)
    rw [if_pos hsemicolon]
  · rw [decide_eq_false hsemicolon, if_neg Bool.false_ne_true] at hc
    obtain ⟨-, rfl⟩ := Prod.mk.inj (Option.some.inj hc)
    rw [if_neg hsemicolon]

/-! ## A source that is one statement -/

/-- Where the tree is one part without problems, all of it is read as one statement. -/
theorem run_fragment_of_one {kind : Kind} {a : Unit} (h : inner.Forms) (hs : s.Fair)
    (hfirm : s.firm = []) (hbrace : s.current ≠ .rightBrace)
    (hrun : (source inner .codeFragment).run s = some (a, t)) (hclean : t.IsClean)
    (hkinds : Node.partKinds t.built.reverse = [kind]) :
    s.current ≠ .endOfFile ∧ (statement inner).run s = some ((), t) := by
  have hrun : (loopWithin (s.ahead.length + 1) (itemStep (fragmentItem inner))).run s =
      some (a, t) :=
    hrun
  have hitems : Forms true anywhere Language.plain
      (loopWithin s.ahead.length (itemStep (fragmentItem inner))) := by
    refine loopWithin_forms (itemStep_forms (fragmentItem_forms h)) ?_ (fun _ => id) _
    exact fun front hfront back hback => isPlain_append.2 ⟨hfront, hback⟩
  have hstart : s.built.reverse = s.loose := by
    rw [← State.firm_append_loose, hfirm, List.nil_append]
  rcases run_itemStep_eq_some hrun with ⟨-, rfl⟩ | ⟨hend, u, hprogress, hrest⟩
  · rw [hstart, hs.sane.partKinds_loose] at hkinds
    cases hkinds
  obtain ⟨v, hv, hu⟩ := run_progress_eq_some hprogress
  have hv := run_fragmentItem_eq_some hbrace hv
  have hstatement : Forms true (· ≠ .endOfFile) (Language.one Kind.isPhrase) (statement inner) :=
    statement_forms h
  obtain ⟨hvfair, hvadds⟩ := hstatement s hs hend () v hv
  have hufair : u.Fair := by
    rcases hu with rfl | rfl
    · exact hvfair
    · exact hvfair.take (.inr rfl)
  obtain ⟨htfair, htadds⟩ := hitems u hufair trivial a t hrest
  obtain ⟨huclean, back, -, hback⟩ := htadds hclean
  -- nothing is unexpected, as that would be a problem
  obtain rfl : u = v := by
    rcases hu with rfl | rfl
    · rfl
    · cases htoken : v.token? with
      | none => exact State.take_of_none htoken _
      | some token => exact absurd (huclean.of_take htoken).2 (problems_unexpectedNode token)
  obtain ⟨-, front, ⟨first, -, rfl⟩, hfront⟩ := hvadds huclean
  have hparts := ((hfront.trans hvfair.sane hback).forall_built hs.sane htfair.sane hfirm).1
  rw [hkinds] at hparts
  have hnil : back = [] := (List.cons.inj hparts).2.symm
  rcases hback with ⟨-, rfl⟩ | ⟨hne, -⟩
  · exact ⟨hend, hv⟩
  · exact absurd hnil hne

/-- A source whose tree is one expression statement without problems. -/
theorem run_expression_of_one {a : Unit} (h : inner.Forms) (hs : s.Fair) (hfirm : s.firm = [])
    (hbrace : s.current ≠ .rightBrace) (hrun : (source inner .codeFragment).run s = some (a, t))
    (hclean : t.IsClean) (hkinds : Node.partKinds t.built.reverse = [.expressionStatement]) :
    opensStatement s.current = false ∧ startsExpression s.current = true
      ∧ (isVariableDeclaration inner).run s = some (false, s)
      ∧ ∃ b v, (expression inner).run s = some (b, v) ∧ v.current = .semicolon
        ∧ t = (v.take Token.node).wrap s.marker .expressionStatement
        ∧ ∃ kind, Kind.isOperand kind = true ∧ Node.partKinds v.built.reverse = [kind] := by
  obtain ⟨hend, hstatement⟩ := run_fragment_of_one h hs hfirm hbrace hrun hclean hkinds
  have hone {wanted : Kind → Prop} {is : Kind → Bool} {p : Parser Unit}
    (hp : Forms true wanted (Language.one is) p)
      (hcurrent : wanted s.current) (hpt : p.run s = some ((), t)) :
      is .expressionStatement = true := by
    obtain ⟨ht, hadds⟩ := hp s hs hcurrent () t hpt
    obtain ⟨-, parts, ⟨kind, hkind, rfl⟩, hadds⟩ := hadds hclean
    have hparts := (hadds.forall_built hs.sane ht.sane hfirm).1
    rw [hkinds] at hparts
    rwa [(List.cons.inj hparts).1]
  have hplain : opensStatement s.current = false := by
    cases hopens : opensStatement s.current with
    | false => rfl
    | true => cases hone (statement_forms_worded h) hopens hstatement
  rw [run_statement_of_plain hplain] at hstatement
  obtain ⟨declares, hlook, hrest⟩ := run_plainStatement_eq_some h.agree hs hstatement
  cases declares with
  | true =>
    have hdeclares : Forms true (startsType · = true) (Language.one (· = .declarationStatement)) (do
        let opening ← marker
        variableDeclaration inner opening) :=
      .marker_bind fun opening => ((variableDeclaration_turns h).narrow
        (by rintro _ rfl; exact isPlain_nil)).mono fun _ => forall_word.2 ⟨_, rfl, rfl⟩
    cases hone hdeclares (startsType_of_isVariableDeclaration hlook) hrest
  | false =>
    rw [if_neg Bool.false_ne_true] at hrest
    cases hstarts : startsExpression s.current with
    | false =>
      rw [hstarts, if_neg Bool.false_ne_true] at hrest
      obtain ⟨token, htoken⟩ := Option.isSome_iff_exists.1 (State.isSome_of_current hend)
      obtain ⟨-, rfl⟩ := Prod.mk.inj (Option.some.inj hrest)
      exact absurd (hclean.of_take htoken).2 (problems_unexpectedNode token)
    | true =>
      rw [hstarts, if_pos rfl] at hrest
      obtain ⟨b, v, hexpression, rfl⟩ := run_expressionStatement_eq_some hrest
      have hforms : Forms true anywhere (Language.found (Language.one Kind.isOperand))
          (expression inner) := expression_forms h
      obtain ⟨hv, hadds⟩ := hforms s hs trivial b v hexpression
      by_cases hsemicolon : v.current = .semicolon
      · rw [if_pos hsemicolon] at hclean ⊢
        refine ⟨hplain, rfl, hlook, b, v, hexpression, hsemicolon, rfl, ?_⟩
        obtain ⟨token, htoken⟩ : ∃ token, v.token? = some token :=
          Option.isSome_iff_exists.1 (State.isSome_of_current (by rw [hsemicolon]; decide))
        obtain ⟨-, parts, hparts, hadds⟩ := hadds (hclean.of_wrap.of_take htoken).1
        rw [(hadds.forall_built hs.sane hv.sane hfirm).1]
        cases b with
        | true =>
          obtain ⟨kind, hkind, rfl⟩ := hparts
          exact ⟨kind, hkind, rfl⟩
        | false =>
          -- nothing is read, but the current token is another one
          obtain rfl : parts = [] := hparts
          rcases hadds with ⟨-, rfl⟩ | ⟨hne, -⟩
          · rw [hsemicolon] at hstarts
            cases hstarts
          · exact absurd rfl hne
      · rw [if_neg hsemicolon] at hclean
        exact absurd hclean.of_wrap (hv.not_isClean_markMissing _)

/-! ## A truncated source -/

/-- Whether a declaration follows is seen in front of the closing tokens. -/
theorem State.Truncated.isVariableDeclaration_eq {b b' : Bool} (h : inner.Truncate σ inner')
    (hs : Truncated σ s s') (hbase : σ.base ≤ s.marker)
    (hrun : (isVariableDeclaration inner).run s = some (b, t))
    (hrun' : (isVariableDeclaration inner').run s' = some (b', t')) : b' = b := by
  obtain ⟨u, hu, -⟩ := run_lookAhead_eq_some hrun
  obtain ⟨u', hu', -⟩ := run_lookAhead_eq_some hrun'
  have hname : Truncates σ 0 s.marker (isAt .identifier) (isAt .identifier) := by
    have hask : Truncates σ 0 s.marker (isAt .identifier >>= pure) (isAt .identifier >>= pure) :=
      .isAt_bind rfl (.pure true) (.pure false)
    rwa [bind_pure] at hask
  have hlook : Truncates σ 0 s.marker
      (do if ← typeReference inner then isAt .identifier else return false)
      (do if ← typeReference inner' then isAt .identifier else return false) :=
    (typeReference_truncates h).ite hname (.pure false)
  exact (hlook.keeps s s' hs trivial ⟨hbase, Nat.le_refl _⟩ (hs.fair.sane.lacks_marker _)
    b u b' u' hu hu' (Nat.zero_le _)).1

/-- What an expression begins with is the current token of both. -/
theorem State.Truncated.current_eq_of_startsExpression (hs : Truncated σ s s')
    (hstarts : startsExpression s.current = true) : s.current = s'.current := by
  rcases hs.current_cases with ⟨-, heq⟩ | ⟨-, -, hclosing⟩
  · exact heq
  · rcases Kind.isClosing_cases hclosing with heq | heq | heq <;>
      · rw [heq] at hstarts
        cases hstarts

/-- The truncated source comes to an expression as well, and to nothing else if it ends there. -/
theorem run_expression_of_truncated {a : Unit} (h : inner.Truncate σ inner') (hs : Truncated σ s s')
    (hbase : σ.base ≤ s.marker) (hbrace : s.current ≠ .rightBrace)
    (hopens : opensStatement s.current = false) (hstarts : startsExpression s.current = true)
    (hlook : (isVariableDeclaration inner).run s = some (false, t))
    (hrun : (source inner' .codeFragment).run s' = some (a, t')) :
    ∃ b v, (expression inner').run s' = some (b, v) ∧ (v.token? = none →
      t' = (v.markMissing (.construct .semicolon)).wrap s.marker .expressionStatement) := by
  have hsame := hs.current_eq_of_startsExpression hstarts
  rw [hsame] at hbrace hopens hstarts
  have hrun : (loopWithin (s'.ahead.length + 1) (itemStep (fragmentItem inner'))).run s'
      = some (a, t') := hrun
  rcases run_itemStep_eq_some hrun with ⟨hend, -⟩ | ⟨-, u, hprogress, hrest⟩
  · rw [hend] at hstarts
    cases hstarts
  obtain ⟨w, hw, hu⟩ := run_progress_eq_some hprogress
  have hw := run_fragmentItem_eq_some hbrace hw
  rw [run_statement_of_plain hopens] at hw
  obtain ⟨declares, hlook', hw⟩ := run_plainStatement_eq_some h.agree' hs.fair' hw
  obtain rfl := hs.isVariableDeclaration_eq h hbase hlook hlook'
  rw [if_neg Bool.false_ne_true, if_pos hstarts] at hw
  obtain ⟨b, v, hexpression, rfl⟩ := run_expressionStatement_eq_some hw
  -- where the text ends, the missing semicolon is marked and no other item comes
  refine ⟨b, v, hexpression, fun hnone => ?_⟩
  have hcurrent : v.current ≠ .semicolon := by
    rw [State.current, hnone]
    decide
  rw [if_neg hcurrent, hs.marker_eq] at hu
  have hend : ((v.markMissing (.construct .semicolon)).wrap s.marker .expressionStatement).token?
      = none := by
    rw [← hnone]
    rcases v.markMissing_eq (.construct .semicolon) with heq | heq <;> rw [heq] <;> rfl
  rw [State.take_of_none hend, or_self_iff] at hu
  rw [hu] at hrest
  exact run_itemStep_of_end hend hrest

/-- Where reading begins behind a row, the two states are truncated. -/
theorem State.truncated_read {built : List Node} (hbase : σ.base = built.length)
    {tokens : List Token} {n : Nat} (h : tokens ≠ [])
    (hlast : ∀ token ∈ tokens.getLast?, token.isTrivia = false)
    (hbrace : ∀ token ∈ tokens, token.kind ≠ .leftBrace)
    (hfair : (State.read built (tokens ++ σ.behind n)).Fair)
    (hfair' : (State.read built tokens).Fair) :
    Truncated σ (State.read built (tokens ++ σ.behind n)) (State.read built tokens) := by
  obtain ⟨hsome, hread⟩ := read_append_behind σ built n h hlast
  refine ⟨hfair, hfair', fun token htoken => hbrace token ?_, ?_, ?_, .before n hsome hread⟩
  · rw [State.ahead_read] at htoken
    exact (List.dropWhile_sublist _).subset htoken
  · exact fun last hend => hlast last (getLast?_unread_read hend)
  · rw [State.firm_read, hbase, ← List.length_reverse, List.drop_length]
    exact List.forall_mem_nil _

/-- The seam of a statement is in front of its semicolon. -/
def Seam.semicolon : Seam where
  base := 0
  tail := [{ kind := .semicolon, text := [';'] }]
  closes := by simp
  outside := rfl

theorem Seam.size_behind_semicolon (n : Nat) :
    Text.size ((Seam.semicolon.behind n).flatMap (·.text)) = n + 1 := by
  induction n with
  | zero => rfl
  | succ n ih =>
    rw [Seam.behind_succ, List.flatMap_cons, Text.size_append, ih, Nat.add_comm]
    rfl

theorem Seam.behind_semicolon_ne_nil (n : Nat) : Seam.semicolon.behind n ≠ [] := by
  cases n <;> exact List.cons_ne_nil _ _

/-- Two runs that come to the semicolon and to the end. -/
theorem State.Truncated.at_semicolon (h : Truncated .semicolon s s')
    (hkind : s.current = .semicolon) (hend : (s.take Token.node).ahead = []) :
    s'.token? = none ∧ s.pending = 0 ∧ s'.pending = 0
      ∧ s.token? = some { kind := .semicolon, text := [';'] }
      ∧ ∃ front back x y, s.firm = front ++ x :: back ∧ s'.firm = front ++ y :: back
        ∧ Torn x y ∧ Node.sizeAll back = 0 := by
  rcases h.seam with ⟨n, hsome, heq⟩
    | @⟨n, front, back, x, y, hnone, htoken, hunread, hpending, hpending', hrow,
        hrow', hback, htorn⟩
  · -- something is left behind the semicolon
    obtain ⟨token, htoken⟩ := Option.isSome_iff_exists.1 hsome
    have htoken : s.token? = some token := by rw [heq]; exact htoken
    rw [State.take_of_some htoken, State.ahead_read, List.dropWhile_eq_nil_iff] at hend
    have hhead := List.head_mem (Seam.behind_semicolon_ne_nil n)
    have htrivia := hend _ (by rw [heq]; exact List.mem_append_right _ hhead)
    have hkinds :=
      Seam.semicolon.kind_head_behind (List.head?_eq_some_head (Seam.behind_semicolon_ne_nil n))
    rw [Token.isTrivia] at htrivia
    rcases hkinds with hkind | hkind <;> rw [hkind] at htrivia <;> cases htrivia
  · cases n with
    | succ n =>
      rw [State.current, htoken] at hkind
      cases hkind
    | zero =>
      exact ⟨hnone, hpending, hpending', htoken, front, back, x, y, hrow, hrow', htorn, hback⟩

/-- A brace that is not ahead is not the current token either. -/
theorem State.Truncated.current_ne_rightBrace (hs : Truncated σ s s')
    (hbrace : ∀ token ∈ s'.ahead, token.kind ≠ .rightBrace) : s.current ≠ .rightBrace := by
  intro hkind
  rcases hs.current_cases with ⟨hsome, heq⟩ | ⟨-, -, hclosing⟩
  · obtain ⟨token, htoken⟩ := Option.isSome_iff_exists.1 hsome
    refine hbrace token ?_ ?_
    · rw [State.ahead, htoken]
      exact List.mem_cons_self
    · rw [← hkind, heq, State.current, htoken]
  · rw [hkind] at hclosing
    cases hclosing

/-- Where a tree has no problems, no node of the row has. -/
theorem State.IsClean.of_problems {t : State}
    (h : (Node.branch .file t.built.reverse).problems = []) :
    t.IsClean := by
  intro node hnode
  rw [Node.problems, Node.problemsAll_eq_nil] at h
  exact h node (List.mem_reverse.2 hnode)

/-- Some row is one branch of a row. -/
theorem eq_nil_of_append_eq_singleton {α : Type} {front back : List α} {a b : α}
    (h : front ++ [a] ++ back = [b]) : front = [] ∧ a = b ∧ back = [] := by
  cases front with
  | nil => simpa using h
  | cons c front => simp at h

/-- What two runs have made of an expression when one of them is at its
semicolon and the other at the end. -/
structure EndsExpression (v v' : State) (front back : List Node) (x y : Node)
    (kind : Kind) : Prop where
  sane : v.Sane
  sane' : v'.Sane
  token? : v.token? = some { kind := .semicolon, text := [';'] }
  loose : v.loose = []
  loose' : v'.loose = []
  row : v.firm = front ++ x :: back
  row' : v'.firm = front ++ y :: back
  torn : Torn x y
  size_back : Node.sizeAll back = 0
  simple : ∀ node ∈ front ++ x :: back, node.Simple
  isOperand : kind.isOperand = true
  kinds : Node.partKinds (front ++ x :: back) = [kind]

/-- Where the source is an expression statement without problems, both runs come to the end of the
expression, and one takes in the semicolon that the other marks as missing. -/
theorem exists_endsExpression {a a' : Unit} (hforms : inner.Forms)
    (h : inner.Truncate .semicolon inner')
    (hs : Truncated .semicolon s s') (hfirm : s.firm = []) (hbrace : s.current ≠ .rightBrace)
    (hrun : (source inner .codeFragment).run s = some (a, t)) (hend : t.ahead = [])
    (hclean : t.IsClean) (hkinds : Node.partKinds t.built.reverse = [.expressionStatement])
    (hrun' : (source inner' .codeFragment).run s' = some (a', t')) :
    ∃ v v' front back x y kind, EndsExpression v v' front back x y kind
      ∧ t = (v.take Token.node).wrap s.marker .expressionStatement
      ∧ t' = (v'.markMissing (.construct .semicolon)).wrap s.marker .expressionStatement := by
  obtain ⟨hopens, hstarts, hlook, b, v, hexpression, hsemicolon, rfl, kind, hkind, hparts⟩ :=
    run_expression_of_one hforms hs.fair hfirm hbrace hrun hclean hkinds
  obtain ⟨b', v', hexpression', hu⟩ :=
    run_expression_of_truncated h hs (Nat.zero_le _) hbrace hopens hstarts hlook hrun'
  have hleft : 1 ≤ v.ahead.length := by
    obtain ⟨token, htoken⟩ : ∃ token, v.token? = some token :=
      Option.isSome_iff_exists.1 (State.isSome_of_current (by rw [hsemicolon]; decide))
    rw [State.ahead, htoken]
    exact Nat.le_add_left _ _
  obtain ⟨-, hkept⟩ := (expression_truncates h).keeps s s' hs trivial ⟨Nat.zero_le _, Nat.le_refl _⟩
    (hs.fair.sane.lacks_marker _) b v b' v' hexpression hexpression' hleft
  obtain ⟨hnone, hpending, hpending', htoken, front, back, x, y, hrow, hrow', htorn, hback⟩ :=
    hkept.truncated.at_semicolon hsemicolon hend
  have hloose := State.loose_eq_nil hpending
  refine ⟨v, v', front, back, x, y, kind, ?_, rfl, hu hnone⟩
  refine ⟨hkept.truncated.fair.sane, hkept.truncated.fair'.sane, htoken, hloose,
    State.loose_eq_nil hpending', hrow, hrow', htorn, hback, ?_, hkind, ?_⟩
  · rw [← hrow]
    exact hkept.truncated.simple
  · rwa [← State.firm_append_loose, hloose, List.append_nil, hrow] at hparts

namespace EndsExpression

variable {v v' : State} {front back : List Node} {x y : Node} {kind : Kind}

/-- A statement that all of the row belongs to ends with the semicolon. -/
theorem children_eq (h : EndsExpression v v' front back x y kind) {children : List Node} {m : Nat}
    (hbuilt : ((v.take Token.node).wrap m .expressionStatement).built.reverse
      = [.branch .expressionStatement children]) :
    m = 0 ∧ children = front ++ x :: back ++ [.leaf .semicolon [';']] := by
  have hfirm : (v.take Token.node).firm = front ++ x :: back ++ [.leaf .semicolon [';']] := by
    rw [State.firm_take h.token?, h.loose, List.append_nil, h.row]
    rfl
  rw [← State.firm_append_loose, (h.sane.take _).firm_wrap, hfirm] at hbuilt
  obtain ⟨hmarker, hbranch, -⟩ := eq_nil_of_append_eq_singleton hbuilt
  obtain rfl : m = 0 := by
    rcases List.take_eq_nil_iff.1 hmarker with hzero | hnil
    · exact hzero
    · simp at hnil
  refine ⟨rfl, ?_⟩
  rw [List.drop_zero] at hbranch
  injection hbranch with _ hchildren
  exact hchildren.symm

/-- The other statement ends with the row, and with the mark if there is none yet. -/
theorem exists_gaps (h : EndsExpression v v' front back x y kind) : ∃ gaps,
    ((v'.markMissing (.construct .semicolon)).wrap 0 .expressionStatement).built.reverse
        = [.branch .expressionStatement (front ++ y :: back ++ gaps)]
      ∧ ∀ gap ∈ gaps, gap = .error (.expected (.construct .semicolon)) [] := by
  obtain ⟨gaps, hgaps, hmarks⟩ : ∃ gaps, (v'.markMissing (.construct .semicolon)).firm
      = front ++ y :: back ++ gaps
        ∧ ∀ gap ∈ gaps, gap = .error (.expected (.construct .semicolon)) [] := by
    rcases h.sane'.firm_markMissing (.construct .semicolon) with heq | heq
    · exact ⟨[], by rw [heq, h.row', List.append_nil], List.forall_mem_nil _⟩
    · exact ⟨_, by rw [heq, h.row'], List.forall_mem_singleton.2 rfl⟩
  refine ⟨gaps, ?_, hmarks⟩
  have hmarked := h.sane'.markMissing (.construct .semicolon)
  rw [← State.firm_append_loose, hmarked.firm_wrap, hmarked.loose_wrap, hgaps,
    h.sane'.loose_markMissing, h.loose']
  rfl

end EndsExpression

end Grammar

namespace Node

open Grammar

/-- **A statement that has lost its semicolon and parentheses in front of it** has a tree in which
nothing but these is missing. -/
theorem torn_ofText {text text' : Text} {n : Nat} {children : List Node}
    (hlex : Token.ofText text = Token.ofText text' ++ Seam.semicolon.behind n)
    (hne : Token.ofText text' ≠ [])
    (hlast : ∀ token ∈ (Token.ofText text').getLast?, token.isTrivia = false)
    (hbrace : ∀ token ∈ Token.ofText text', token.kind ≠ .leftBrace ∧ token.kind ≠ .rightBrace)
    (htree : ofText .codeFragment text = .branch .file [.branch .expressionStatement children])
    (hproblems : (ofText .codeFragment text).problems = []) :
    ∃ x y statement, ofText .codeFragment text' = .branch .file [statement] ∧ Unended x y statement
      ∧ x.size = y.size + n ∧ ∀ child ∈ children, child.Simple := by
  have hwhole := whole_ofText .codeFragment text hproblems
  obtain ⟨t, hrun, htend, ht⟩ := exists_run_ofText .codeFragment text
  obtain ⟨t', hrun', -, ht'⟩ := exists_run_ofText .codeFragment text'
  have hsize := congrArg Text.size (Token.ofText_spells text).flatMap_text
  rw [hlex, List.flatMap_append, (Token.ofText_spells text').flatMap_text, Text.size_append,
    Seam.size_behind_semicolon, ← text_ofText .codeFragment text, htree,
    ← text_ofText .codeFragment text'] at hsize
  rw [htree] at hwhole
  rw [ht] at htree hproblems
  have hbuilt : t.built.reverse = [.branch .expressionStatement children] := by
    injection htree
  have hkinds : partKinds t.built.reverse = [.expressionStatement] := by
    rw [hbuilt, partKinds_singleton rfl]
    rfl
  have hfair := State.fair_start text
  rw [hlex] at hrun hfair
  -- both runs are in front of the seam when they start
  have hs := State.truncated_read rfl hne hlast (fun token htoken => (hbrace token htoken).1) hfair
    (State.fair_start text')
  have hcurrent := hs.current_ne_rightBrace fun token htoken => by
    rw [State.ahead_read] at htoken
    exact (hbrace token ((List.dropWhile_sublist _).subset htoken)).2
  have hnest :=
    parseTo_truncate .semicolon ((Token.ofText text' ++ Seam.semicolon.behind n).length + 1)
      ((Token.ofText text').length + 1)
  obtain ⟨v, v', front, back, x, y, kind, h, rfl, rfl⟩ :=
    exists_endsExpression (parseTo_forms _) hnest hs
      (State.firm_start _) hcurrent hrun htend (.of_problems hproblems) hkinds hrun'
  obtain ⟨hmarker, rfl⟩ := h.children_eq hbuilt
  obtain ⟨gaps, hrow, hmarks⟩ := h.exists_gaps
  have hparsed : ofText .codeFragment text'
      = .branch .file [.branch .expressionStatement (front ++ y :: back ++ gaps)] := by
    rw [ht', hmarker, hrow]
  refine ⟨x, y, _, hparsed,
    .mk h.torn h.size_back hmarks (fun node hnode => ⟨?_, h.simple node hnode⟩) h.isOperand
    h.kinds, ?_, List.forall_mem_append.2 ⟨h.simple, List.forall_mem_singleton.2 (.leaf rfl)⟩⟩
  · obtain ⟨-, hstatement⟩ := hwhole.of_mem_children List.mem_cons_self
    exact (hstatement.of_mem_children (List.mem_append_left _ hnode)).2
  · have hclosing : Text.size [';'] = 1 := rfl
    have hgaps := sizeAll_eq_zero fun gap hgap => ⟨_, hmarks gap hgap⟩
    rw [hparsed] at hsize
    simp only [size_text, size, sizeAll_append, sizeAll, h.size_back, hgaps, hclosing] at hsize
    omega

end Node

end StatementCompletion
