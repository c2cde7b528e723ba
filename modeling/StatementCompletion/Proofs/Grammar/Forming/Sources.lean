import StatementCompletion.Proofs.Grammar.Agreement.Sources
import StatementCompletion.Proofs.Grammar.Forming.Members

/-!
# The trees of texts without problems

The rules are nested, and so are their promises: a tree of a text that has no problems is whole.
-/

namespace StatementCompletion

namespace Grammar

open Grammar.Language

variable {strict : Bool} {wanted : Kind → Prop} {opening : Nat} {inner : Inner}

/-! ## Statements -/

theorem modifiedStatement_turns (h : inner.Forms) :
    Turns true strict wanted opening (· = []) (fun _ => one Kind.isWorded ())
      (modifiedStatement inner opening) := by
  refine Turns.bind_strict (modifiers_forms h).fresh fun _ => .isAtAny_ite ?_ ?_
  · exact (classDeclaration_turns h).mono fun _ => forall_word.2 ⟨_, rfl, rfl⟩
  · exact (variableDeclaration_turns h).mono fun _ => forall_word.2 ⟨_, rfl, rfl⟩

theorem takeUnexpected_turns {before : List Kind → Prop} {after : Language Unit}
    (hwanted : ¬ wanted .endOfFile) :
    Turns true strict wanted opening before after takeUnexpected := by
  refine ((takeUnexpected_forms hwanted).turns.mono ?_).relax fun _ => rfl
  rintro _ _ ⟨_, _, -, hfalse, -⟩
  exact hfalse.elim

theorem plainStatement_turns (h : inner.Forms) (hwanted : ¬ wanted .endOfFile) :
    Turns true strict wanted opening (· = []) (fun _ => one Kind.isPhrase ())
      (plainStatement inner opening) := by
  have hdeclaration {wanted : Kind → Prop} :
      Turns true strict wanted opening (· = []) (fun _ => one Kind.isPhrase ())
        (variableDeclaration inner opening) := by
    refine ((variableDeclaration_turns h).narrow ?_).mono fun _ => forall_word.2 ⟨_, rfl, rfl⟩
    rintro _ rfl
    exact isPlain_nil
  refine .isVariableDeclaration_bind h hdeclaration (.isAtAny_ite ?_ (takeUnexpected_turns hwanted))
  exact (expressionStatement_turns h).mono fun _ => forall_word.2 ⟨_, rfl, rfl⟩

/-- The tokens that tell a statement. -/
def opensStatement : Kind → Bool
  | .leftBrace | .ifKeyword | .whileKeyword | .doKeyword | .forKeyword | .switchKeyword
  | .caseKeyword | .defaultKeyword | .tryKeyword | .returnKeyword | .throwKeyword | .breakKeyword
  | .continueKeyword | .semicolon | .classKeyword | .interfaceKeyword | .enumKeyword
  | .synchronizedKeyword | .modifier | .atSign => true
  | _ => false

/-- What is told by its first token is no bare expression. -/
theorem statement_forms_worded (h : inner.Forms) :
    Forms strict (opensStatement · = true) (one Kind.isWorded) (statement inner) := by
  have hworded {kind : Kind} (hkind : Kind.isWorded kind = true) :
      ∀ a parts, word (α := Unit) [kind] a parts → one Kind.isWorded () parts :=
    fun _ => forall_word.2 ⟨kind, hkind, rfl⟩
  have hjump {keyword kind : Kind} {p : Parser Unit} {opening : Nat}
      (hkind : Kind.isWorded kind = true)
      (hp : Turns true strict (· = keyword) opening (· = []) (word [kind]) p) :
      Turns true strict (· = keyword) opening (· = []) (fun _ => one Kind.isWorded ()) p :=
    hp.mono (hworded hkind)
  have hclass {keyword : Kind} {opening : Nat} :
      Turns true strict (· = keyword) opening (· = []) (fun _ => one Kind.isWorded ())
        (classDeclaration inner opening) :=
    ((classDeclaration_turns h).narrow (by rintro _ rfl; exact isPlain_nil)).mono (hworded rfl)
  -- a case for each kind of token that tells a statement
  refine .marker_bind fun opening => .current_bind fun kind hkind => ?_
  split
  · refine (codeBlock_forms h).then fun _ => (wrap_turns rfl ?_).mono (hworded rfl)
    simp only [forall_follows, word, forall_eq, List.nil_append]
    exact ⟨by simp, admits_of_isPlain trivial (by simp)⟩
  · exact (ifStatement_turns h).mono (hworded rfl)
  · exact (whileStatement_turns h).mono (hworded rfl)
  · exact (doWhileStatement_turns h).mono (hworded rfl)
  · exact forStatement_turns h
  · exact (switchStatement_turns h).mono (hworded rfl)
  · exact (switchLabel_turns h).mono (hworded rfl)
  · exact (switchLabel_turns h).mono (hworded rfl)
  · exact (tryStatement_turns h).mono (hworded rfl)
  · exact hjump rfl (valueJump_turns h (by decide) (by decide) rfl rfl)
  · exact hjump rfl (valueJump_turns h (by decide) (by decide) rfl rfl)
  · exact hjump rfl (labelJump_turns (by decide) (by decide) rfl rfl)
  · exact hjump rfl (labelJump_turns (by decide) (by decide) rfl rfl)
  · refine (take_forms_word (by decide)).then fun _ => (wrap_turns rfl ?_).mono (hworded rfl)
    simp only [forall_follows, word, forall_eq, List.nil_append]
    exact ⟨by simp, admits_of_isPlain trivial (by simp)⟩
  · exact hclass
  · exact hclass
  · exact hclass
  · refine .reads_bind peek_reads_in_step fun next => ?_
    split_ifs
    · exact (synchronizedStatement_turns h).mono (hworded rfl)
    · exact modifiedStatement_turns h
  · exact modifiedStatement_turns h
  · exact modifiedStatement_turns h
  · unfold opensStatement at hkind
    split at hkind <;> contradiction

/-- What is not told by its first token is a declaration, an expression or an error. -/
theorem run_statement_of_plain {s : State} (h : opensStatement s.current = false) :
    (statement inner).run s = (plainStatement inner s.marker).run s := by
  have hrun {g : Nat → Kind → Parser Unit}
      (hg : g s.marker s.current = plainStatement inner s.marker) :
      (do let opening ← marker; g opening (← current) : Parser Unit).run s
        = (plainStatement inner s.marker).run s := by
    rw [← hg]
    rfl
  refine hrun ?_
  split
  case h_21 => rfl
  all_goals
    next hkind =>
    rw [hkind] at h
    cases h

theorem statement_forms (h : inner.Forms) :
    Forms strict (· ≠ .endOfFile) (one Kind.isPhrase) (statement inner) := by
  intro s hs hend a t hrun
  cases hopens : opensStatement s.current with
  | true =>
    have hworded : Forms strict (opensStatement · = true) (one Kind.isPhrase) (statement inner) :=
      (statement_forms_worded h).mono fun _ parts ⟨kind, hkind, hparts⟩ =>
        ⟨kind, (Bool.and_eq_true_iff.1 hkind).1, hparts⟩
    exact hworded s hs hopens a t hrun
  | false =>
    rw [run_statement_of_plain hopens] at hrun
    have hplain : Turns true strict (· ≠ .endOfFile) s.marker (· = [])
        (fun _ => one Kind.isPhrase ()) (plainStatement inner s.marker) :=
      plainStatement_turns h fun hne => hne rfl
    exact hplain s s rfl hs hend (fun _ => ⟨[], rfl, .refl⟩) a t hrun

/-! ## Nesting -/

theorem present_forms {p : Parser Unit} {language : Language Unit}
    (hp : Forms strict wanted language p) :
    Forms strict wanted (fun _ => language ()) (present p) :=
  hp.answer fun _ _ => id

theorem rule_forms (h : inner.Forms) : Inner.Forms (rule inner) where
  agree := rule_agree h.agree
  typeReference := typeReference_forms h
  expression := expression_forms h
  conditional := conditional_forms h
  operation := operation_forms h _
  unary := unary_forms h
  arrayInitializer := present_forms (arrayInitializer_forms h)
  statement := present_forms (statement_forms h)
  member := present_forms (member_forms h)

theorem forms_failure {α : Type} {language : Language α} :
    Forms strict wanted language failure := by
  intro s _ _ a t hrun
  cases hrun

theorem parseTo_forms (depth : Nat) : (parseTo depth).Forms := by
  induction depth with
  | zero =>
    exact ⟨parseTo_agree 0 0, forms_failure, forms_failure, forms_failure, forms_failure,
      forms_failure, forms_failure, forms_failure, forms_failure⟩
  | succ depth ih => exact rule_forms ih

/-! ## Sources -/

theorem clauseStep_forms : Forms strict wanted plain clauseStep := by
  have htaken {kind : Kind} : Forms strict (· = kind) plain (do take; return true) :=
    take_forms_plain.plain_bind fun _ => .plain_pure
  refine Forms.plain_ite (takeIf_forms_plain (by decide) (by decide)) ?_ .plain_pure
  exact .isAtEither_ite htaken htaken ((missing_forms _).answer fun _ _ => False.elim)

theorem clauseName_forms : Forms strict wanted plain clauseName := by
  refine Forms.plain_ite ?_ (loop_forms clauseStep_forms) .plain_pure
  refine (expect_forms (by decide)).mono ?_
  rintro _ _ ⟨-, rfl⟩
  simp

theorem clause_forms {kind : Kind} (hkind : Kind.isPlain kind = true)
    (hfits : kind.Fits = fun _ => True) (hconstant : kind ≠ .enumConstant) :
    Forms strict wanted plain (clause kind) := by
  have hmodifier : Forms true anywhere plain (discard (takeIf .modifier)) :=
    (takeIf_forms_plain (by decide) (by decide)).plain_discard
  refine .marker_bind fun opening => take_forms_plain.then fun _ => hmodifier.then fun _ => ?_
  refine clauseName_forms.then fun _ => (discard_expect_forms (by decide)).then fun _ => ?_
  refine (wrap_turns hkind ?_).mono fun _ => forall_word.2 (by simpa using hconstant)
  simp only [forall_follows, word, forall_eq, plain_iff, List.nil_append]
  intro keyword hkeyword modifier hmodifier name hname
  exact ⟨by simp, admits_of_isPlain (hfits ▸ trivial) (by simp [hkeyword, hmodifier, hname])⟩

theorem unitItem_forms (h : inner.Forms) : Forms strict wanted plain (unitItem inner) := by
  refine .current_bind fun kind _ => ?_
  split
  · exact clause_forms rfl rfl (by decide)
  · exact clause_forms rfl rfl (by decide)
  · exact take_forms_plain
  · exact (takeUnexpected_forms (by decide)).mono fun _ _ => False.elim
  · exact (member_forms h).mono (option_isPlain fun _ => one_isDeclared_isPlain)

theorem fragmentItem_forms (h : inner.Forms) :
    Forms strict (· ≠ .endOfFile) plain (fragmentItem inner) := by
  refine .isAt_ite ((takeUnexpected_forms (by decide)).mono fun _ _ => False.elim) ?_
  exact (statement_forms h).mono fun _ => one_isPhrase_isPlain

theorem itemStep_forms {item : Parser Unit} (hitem : Forms strict (· ≠ .endOfFile) plain item) :
    Forms strict wanted plain (itemStep item) := by
  refine .isAt_bind .plain_pure ?_
  refine Forms.narrow ((progress_forms hitem).answer fun _ _ => And.left) fun _ => And.right

theorem itemsUpToEnd_forms {item : Parser Unit} (hitem : Forms strict (· ≠ .endOfFile) plain item) :
    Forms strict wanted plain (itemsUpToEnd item) :=
  loop_forms (itemStep_forms hitem)

theorem source_forms (h : inner.Forms) (kind : SourceKind) :
    Forms strict wanted plain (source inner kind) := by
  cases kind with
  | compilationUnit => exact itemsUpToEnd_forms (unitItem_forms h)
  | codeFragment => exact itemsUpToEnd_forms (fragmentItem_forms h)

/-- What is promised of the state at the beginning of a text. -/
theorem State.fair_start (text : Text) : (State.start (Token.ofText text)).Fair := by
  have hspells := Token.ofText_spells text
  have hrespaced := (Token.lexed_ofText text).respaced
  have hsane := State.sane_read [] hspells.nonempty
  have halike : Alike (State.start (Token.ofText text)) (State.start (Token.ofText text)) :=
    .read hsane hsane hrespaced rfl rfl
  refine ⟨hsane, halike.unread, fun token htoken => ?_, fun node hnode hkind => ?_⟩
  · have hahead : (State.start (Token.ofText text)).ahead
        = (Token.ofText text).dropWhile Token.isTrivia := State.ahead_read [] _
    rw [hahead] at htoken
    exact Token.isConstruct_of_mem_ofTextWithin token ((List.dropWhile_sublist _).subset htoken)
  · have hmem : node ∈ ((Token.ofText text).takeWhile Token.isTrivia).map Token.node := by
      simpa [State.start, State.read] using hnode
    obtain ⟨token, -, rfl⟩ := List.mem_map.1 hmem
    exact State.Fair.problems_node hkind

/-- All nodes of a row without problems, the white space and the comments at its end included. -/
theorem State.Adds.forall_built {s t : State} {parts : List Kind} (h : s.Adds strict t parts)
    (hs : s.Sane) (ht : t.Sane) (hfirm : s.firm = []) :
    Node.partKinds t.built.reverse = parts ∧ ∀ node ∈ t.built.reverse, node.IsSound strict := by
  rcases h with ⟨rfl, rfl⟩ | ⟨-, nodes, hnodes, rfl, hsound⟩
  · rw [← firm_append_loose, hfirm, List.nil_append]
    exact ⟨ht.partKinds_loose, fun node hnode => ht.isSound_of_mem_loose hnode⟩
  · rw [← firm_append_loose, hnodes, ← firm_append_loose, hfirm, List.nil_append]
    refine ⟨?_, ?_⟩
    · simp [Node.partKinds_append, hs.partKinds_loose, ht.partKinds_loose]
    · simp only [List.forall_mem_append]
      refine ⟨⟨fun node hnode => ?_, hsound⟩, fun node hnode => ?_⟩
      · exact hs.isSound_of_mem_loose hnode
      · exact ht.isSound_of_mem_loose hnode

end Grammar

namespace Node

open Grammar

/-- **The tree of a text without problems is whole.** -/
theorem whole_ofText (kind : SourceKind) (text : Text) (h : (ofText kind text).problems = []) :
    (ofText kind text).Whole := by
  obtain ⟨t, hrun, -, htree⟩ := exists_run_ofText kind text
  have hfair := State.fair_start text
  have hforms : Forms true anywhere Language.plain
      (source (parseTo ((Token.ofText text).length + 1)) kind) :=
    source_forms (parseTo_forms _) kind
  obtain ⟨ht, hadds⟩ := hforms _ hfair trivial () t hrun
  rw [htree] at h ⊢
  rw [problems, problemsAll_eq_nil] at h
  obtain ⟨-, parts, hparts, hadds⟩ := hadds fun node hnode => h node (List.mem_reverse.2 hnode)
  have hstart : (State.start (Token.ofText text)).firm = [] := by
    rw [State.start, State.firm_read]
    rfl
  obtain ⟨hkinds, hsound⟩ := hadds.forall_built hfair.sane ht.sane hstart
  refine .branch rfl (fun node hnode => (hsound node hnode).whole) ⟨trivial, fun _ => ?_⟩ ?_
  · rwa [hkinds]
  · exact fun _ node hnode => (hsound node hnode).ended rfl

end Node

end StatementCompletion
