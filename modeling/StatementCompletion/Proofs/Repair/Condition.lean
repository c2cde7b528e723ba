import StatementCompletion.Proofs.Repair.Header

/-!
# The target where a condition is at the end

In a text that ends with the condition of a statement, or with the parenthesis behind it, this
statement is the target wherever the caret is behind some ink.  The first edit puts the parenthesis
there, or an empty block behind it.
-/

namespace StatementCompletion

/-- A token that is no open literal, no comment and no closing brace. -/
def Token.IsClosed (token : Token) : Prop :=
  Repair.isTerminated token = true ∧ token.kind.isComment = false ∧ token.text ≠ ['\x7d']

instance : DecidablePred Token.IsClosed :=
  fun _ => inferInstanceAs (Decidable (_ ∧ _))

namespace IsCondition

open Grammar (closer braced)
open Repair (IsHeader)

variable {g : Guarded} {text : Text} {d : Document} {tree : Snapshot} {caret : Nat}

/-! ## Tokens -/

/-- The literals in a condition are closed. -/
theorem literals (h : IsCondition g text) :
    ∀ token ∈ Token.ofText text, Repair.isTerminated token = true := by
  have hclosed : emptyBody.all (fun c => !Token.isReturn c) = true := rfl
  refine Token.isTerminated_of_ofText_eq h.ofText_split (List.cons_ne_nil _ _)
    (List.forall_mem_append.2 ⟨fun c hc => ?_,
      by simpa only [List.all_eq_true, Bool.not_eq_true'] using hclosed⟩)
  exact Text.isReturn_of_isBreak (h.inline.line c hc)

theorem isClosed_of_mem_opener (g : Guarded) : ∀ token ∈ g.opener, token.IsClosed := by
  cases g <;> decide

theorem isClosed_of_mem_ofText (h : IsCondition g text) :
    ∀ token ∈ Token.ofText text, token.IsClosed := by
  refine fun token htoken => ⟨h.literals token htoken, h.inline.comments token htoken,
    fun hbrace => ?_⟩
  exact h.inline.getLast?_token_ne h.literals htoken (by rw [hbrace]; rfl)

theorem isClosed_of_open (h : IsCondition g text) :
    ∀ token ∈ Token.ofText (g.opening ++ text), token.IsClosed := by
  rw [g.ofText_opening]
  exact List.forall_mem_append.2 ⟨isClosed_of_mem_opener g, h.isClosed_of_mem_ofText⟩

theorem isClosed_of_closed (h : IsCondition g text) :
    ∀ token ∈ Token.ofText (g.opening ++ (text ++ [')'])), token.IsClosed := by
  rw [g.ofText_opening, h.ofText_closing (show Token.ofText [')'] = [closer] from rfl)]
  exact List.forall_mem_append.2 ⟨isClosed_of_mem_opener g,
    List.forall_mem_append.2 ⟨h.isClosed_of_mem_ofText, by decide⟩⟩

theorem opening_plain (g : Guarded) : ∀ c ∈ g.opening, Text.isBreak c = false := by
  have hall : g.opening.all (fun c => !Text.isBreak c) = true := by cases g <;> rfl
  simpa only [List.all_eq_true, Bool.not_eq_true'] using hall

theorem isBreak_of_mem_open (h : IsCondition g text) :
    ∀ c ∈ g.opening ++ text, Text.isBreak c = false :=
  List.forall_mem_append.2 ⟨opening_plain g, h.inline.line⟩

theorem isBreak_of_mem_closed (h : IsCondition g text) :
    ∀ c ∈ g.opening ++ (text ++ [')']), Text.isBreak c = false := by
  rw [← List.append_assoc]
  exact List.forall_mem_append.2 ⟨h.isBreak_of_mem_open, List.forall_mem_singleton.2 rfl⟩

/-! ## The header -/

theorem isHeader {x : Node} {closing : List Node} {whole : Text}
    (htree : Node.ofText .codeFragment whole =
      .branch .file [.branch g.kind (g.opened ++ x :: closing)])
    (hwhole : x.Whole) (hsimple : x.Simple) (hcondition : Repair.canBeCondition x.kind = true)
    (hclosing : ∀ node ∈ closing, node = .closer ∨ ∃ problem, node = .error problem [])
    (hclosed : ∀ token ∈ Token.ofText whole, token.IsClosed) :
    IsHeader g x closing (.onlyStatement (.branch g.kind (g.opened ++ x :: closing))) where
  node_eq := rfl
  parent := rfl
  whole := hwhole
  simple := hsimple
  condition := hcondition
  closing := hclosing
  literals c hc hown := by
    refine Repair.isOpenLiteral_of_below .codeFragment whole
      (fun token htoken => (hclosed token htoken).1) ?_ hown
    rw [htree]
    exact (Cursor.onlyStatement_below _).trans hc

/-- The only statement goes up to the end. -/
theorem stop_onlyStatement {whole : Text} {statement : Node}
    (htree : Node.ofText .codeFragment whole = .branch .file [statement]) :
    (Cursor.onlyStatement statement).stop = whole.size := by
  rw [Cursor.stop_onlyStatement, ← Node.text_ofText .codeFragment whole, htree, Node.size_text]
  rfl

/-- **Where the header is open, the first edit closes it.** -/
theorem firstInserts (h : IsCondition g text)
    (hroot : tree.root = Node.ofText .codeFragment (g.opening ++ text))
    (hcaret : (g.opening ++ text).IsBehindInk caret) :
    ∃ target, Target.atCaret? tree (g.opening ++ text) caret = some target
      ∧ Repair.FirstInserts d (g.opening ++ text).size [')'] (Completion.trials target) := by
  obtain ⟨x, hwhole, hsimple, hcondition, -, htree, -⟩ := h.exists_header
  have hheader :=
    isHeader htree hwhole hsimple hcondition (List.forall_mem_singleton.2 (.inr ⟨_, rfl⟩))
      h.isClosed_of_open
  refine ⟨_, hheader.isOnly.atCaret?_eq h.isBreak_of_mem_open
    (fun token htoken => (h.isClosed_of_open token htoken).2.2) hroot htree hcaret, ?_⟩
  rw [← stop_onlyStatement htree]
  exact hheader.firstInserts_closing

/-- **Where it is closed, the first trial that does anything opens a block.** -/
theorem exists_opensBlock (h : IsCondition g text)
    (hroot : tree.root = Node.ofText .codeFragment (g.opening ++ (text ++ [')'])))
    (hcaret : (g.opening ++ (text ++ [')'])).IsBehindInk caret) :
    ∃ target c remedy front back,
      Target.atCaret? tree (g.opening ++ (text ++ [')'])) caret = some target
      ∧ Completion.trials target = front ++ (c, remedy) :: back
      ∧ (∀ trial ∈ front, trial.2.actions d trial.1 = .ok [])
      ∧ remedy.actions d c = .ok (Action.openBlock (g.opening ++ (text ++ [')'])).size) := by
  obtain ⟨x, hwhole, hsimple, hcondition, -, -, htree⟩ := h.exists_header
  have hheader := isHeader htree hwhole hsimple hcondition (List.forall_mem_cons.2 ⟨.inl rfl,
    List.forall_mem_singleton.2 (.inr ⟨_, rfl⟩)⟩) h.isClosed_of_closed
  obtain ⟨front, back, htrials, hfront, hactions⟩ := hheader.exists_opensBlock (d := d)
  rw [stop_onlyStatement htree] at hactions
  exact ⟨_, _, _, front, back, hheader.isOnly.atCaret?_eq h.isBreak_of_mem_closed
    (fun token htoken => (h.isClosed_of_closed token htoken).2.2) hroot htree hcaret, htrials,
    hfront, hactions⟩

end IsCondition

end StatementCompletion
