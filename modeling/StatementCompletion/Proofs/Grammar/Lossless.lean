import StatementCompletion.Proofs.Grammar.Members
import StatementCompletion.Proofs.Token
import StatementCompletion.Grammar.Source

/-!
# Every text has a tree, and the tree has the text

By induction on the depth to which the rules are nested, a construct may be parsed whenever fewer
tokens are ahead than the rules are deep.  So the grammar comes to an end on every row of tokens.
It ends where no token is left, and since the row keeps its leaves on the way there, the leaves of
the tree are the tokens.
-/

namespace StatementCompletion

namespace Grammar

variable {place : Place} {n floor opening : Nat} {inner : Inner}

/-! ## Statements -/

theorem modifiedStatement_builds (h : inner.Builds n) (hopening : floor ≤ opening) :
    Builds (n + 1) floor (modifiedStatement inner opening) := by
  refine (modifiers_parses h).bind fun _ => ?_
  exact .isAtAny_ite rfl (classDeclaration_eats h hopening) (variableDeclaration_builds h hopening)

theorem plainStatement_builds (h : inner.Builds n) (hopening : floor ≤ opening) :
    Builds (n + 1) floor (plainStatement inner opening) := by
  refine Parses.ite (isVariableDeclaration_reads h).parses
    (variableDeclaration_builds h hopening) ?_
  refine Parses.ite (isAtAny_reads _).parses (expressionStatement_builds h hopening) ?_
  exact takeUnexpected_parses

theorem statement_builds (h : inner.Builds n) : Builds (n + 1) floor (statement inner) := by
  refine .marker_bind fun opening hopening => ?_
  refine .current_bind fun kind => ?_
  split
  · exact ((codeBlock_eats h).bind fun _ => wrap_builds _ hopening).parsesAt (by decide)
  · exact (ifStatement_eats h hopening).parsesAt (by decide)
  · exact (whileStatement_eats h hopening).parsesAt (by decide)
  · exact (doWhileStatement_eats h hopening).parsesAt (by decide)
  · exact (forStatement_eats h hopening).parsesAt (by decide)
  · exact (switchStatement_eats h hopening).parsesAt (by decide)
  · exact (switchLabel_builds h hopening).parsesAt
  · exact (switchLabel_builds h hopening).parsesAt
  · exact (tryStatement_eats h hopening).parsesAt (by decide)
  · exact (valueJump_eats h hopening _).parsesAt (by decide)
  · exact (valueJump_eats h hopening _).parsesAt (by decide)
  · exact (labelJump_eats hopening _).parsesAt (by decide)
  · exact (labelJump_eats hopening _).parsesAt (by decide)
  · exact (take_parses.bind fun _ => wrap_builds _ hopening).parsesAt
  · exact (classDeclaration_eats h hopening).parsesAt (by decide)
  · exact (classDeclaration_eats h hopening).parsesAt (by decide)
  · exact (classDeclaration_eats h hopening).parsesAt (by decide)
  · refine peek_reads.bindAt fun next => ?_
    split
    · exact (synchronizedStatement_eats h hopening).parsesAt (by decide)
    · exact (modifiedStatement_builds h hopening).parsesAt
  · exact (modifiedStatement_builds h hopening).parsesAt
  · exact (modifiedStatement_builds h hopening).parsesAt
  · exact (plainStatement_builds h hopening).parsesAt

/-! ## Nesting -/

theorem present_builds {p : Parser Unit} (hp : Builds n floor p) : Builds n floor (present p) :=
  hp.bind fun _ => .pure id

/-- Inside a rule one token less is ahead than before it. -/
theorem rule_builds (h : inner.Builds n) : Inner.Builds (n + 1) (rule inner) where
  typeReference := (typeReference_parses h).weaken
  expression := expression_builds h
  conditional := conditional_builds h
  operation := operation_builds h _
  unary := unary_builds h
  arrayInitializer :=
    ((arrayInitializer_eats h).bind fun _ => .pure id).parsesAt (by decide)
  statement := present_builds (statement_builds h)
  member := present_builds (member_builds h)

/-- No construct is asked for where no token may be ahead. -/
theorem inner_builds_zero (inner : Inner) : inner.Builds 0 := by
  constructor
  all_goals intros
  case arrayInitializer => exact fun s _ hn => absurd hn (Nat.not_lt_zero _)
  all_goals exact fun s hn => absurd hn (Nat.not_lt_zero _)

/-- Rules that are nested to a depth parse whatever begins with fewer tokens ahead. -/
theorem parseTo_builds (depth : Nat) : (parseTo depth).Builds depth := by
  induction depth with
  | zero => exact inner_builds_zero _
  | succ depth ih => exact rule_builds ih

/-! ## Sources -/

theorem clauseStep_parses : Parses place (n + 1) floor (· = true) clauseStep := by
  refine .takeIf_ite (by decide) ?_ (.pure (by simp))
  refine (isAt_reads _).bind fun atName => ?_
  refine (isAt_reads _).bind fun atStar => ?_
  split
  · exact take_parses.bind fun _ => .pure id
  · exact (missing_builds _).bind fun _ => .pure id

theorem clauseName_builds : Builds (n + 1) floor clauseName :=
  Parses.ite (expect_builds (by decide)) (loop_parses clauseStep_parses) (.pure id)

theorem clause_builds (kind : Kind) : Builds (n + 1) floor (clause kind) := by
  refine .marker_bind fun opening hopening => ?_
  refine take_parses.bind fun _ => ?_
  refine (takeIf_parses (by decide)).discard.bind fun _ => ?_
  refine clauseName_builds.bind fun _ => ?_
  refine (expect_builds (by decide)).discard.bind fun _ => ?_
  exact wrap_builds _ hopening

theorem unitItem_builds (h : inner.Builds n) : Builds (n + 1) floor (unitItem inner) := by
  refine .current_bind fun kind => ?_
  split
  · exact (clause_builds _).parsesAt
  · exact (clause_builds _).parsesAt
  · exact take_parses.parsesAt
  · exact takeUnexpected_parses.parsesAt
  · exact (member_builds h).parsesAt

theorem fragmentItem_builds (h : inner.Builds n) : Builds (n + 1) floor (fragmentItem inner) :=
  .isAt_ite takeUnexpected_parses.parsesAt (statement_builds h)

/-- Items up to the end are read to the end. -/
theorem itemsUpToEnd_runs {item : Parser Unit} (hitem : Builds n 0 item) (s : State)
    (hn : s.ahead.length < n) :
    Runs (itemsUpToEnd item) s fun _ t => Grows 0 s t ∧ t.current = .endOfFile := by
  refine loop_runs (I := Grows 0 s) (fun t ht => ?_) s .refl
  apply runs_isAt_bind
  by_cases hend : t.current = .endOfFile
  · rw [decide_eq_true hend]
    exact Runs.pure ⟨ht, hend⟩
  · rw [decide_eq_false hend]
    have hrun := (hitem t (ht.length_ahead_le.trans_lt hn) (Nat.zero_le _)).mono fun _ _ hu => hu.1
    refine (progress_runs (State.isSome_of_current hend) hrun).bind fun _ u ⟨hu, hlt⟩ => ?_
    exact Runs.pure ⟨ht.trans hu, hlt⟩

theorem source_runs (h : inner.Builds n) (kind : SourceKind) (s : State)
    (hn : s.ahead.length < n + 1) :
    Runs (source inner kind) s fun _ t => Grows 0 s t ∧ t.current = .endOfFile := by
  cases kind with
  | compilationUnit => exact itemsUpToEnd_runs (unitItem_builds h) s hn
  | codeFragment => exact itemsUpToEnd_runs (fragmentItem_builds h) s hn

/-- At the end no token is ahead. -/
theorem ahead_of_endOfFile {s t : State} (h : Grows floor s t)
    (hs : s.token? = none → s.unread = []) (hkinds : ∀ token ∈ s.ahead, token.kind ≠ .endOfFile)
    (hend : t.current = .endOfFile) : t.ahead = [] := by
  cases htoken : t.token? with
  | none => simp [State.ahead, htoken, h.unread_of_end hs htoken]
  | some token =>
    have hmem : token ∈ s.ahead := h.ahead_suffix.subset (by simp [State.ahead, htoken])
    refine absurd ?_ (hkinds token hmem)
    simpa [State.current, htoken] using hend

end Grammar

/-! ## Trees -/

namespace Node

open Grammar

/-- The grammar comes to an end on every row of tokens, with no token ahead, and the tree is what it
has built. -/
theorem exists_run_source (kind : SourceKind) (tokens : List Token)
    (hkinds : ∀ token ∈ tokens, token.kind ≠ .endOfFile) :
    ∃ t, (source (parseTo (tokens.length + 1)) kind).run (State.start tokens) = some ((), t)
      ∧ Grows 0 (State.start tokens) t ∧ t.ahead = []
      ∧ ofTokens? kind tokens = some (.branch .file t.built.reverse) := by
  have hahead : (State.start tokens).ahead = tokens.dropWhile Token.isTrivia :=
    State.ahead_read [] tokens
  have hsublist : (State.start tokens).ahead <:+ tokens := hahead ▸ List.dropWhile_suffix _
  obtain ⟨_, t, hrun, ht, hend⟩ := source_runs (parseTo_builds (tokens.length + 1)) kind
    (State.start tokens) (by have := hsublist.length_le; omega)
  have hempty := ahead_of_endOfFile ht State.unread_of_read
    (fun token htoken => hkinds token (hsublist.subset htoken)) hend
  refine ⟨t, hrun, ht, hempty, ?_⟩
  simp only [ofTokens?, hrun, Option.bind_eq_bind, Option.bind_some]

/-- The leaves of the tree of a row of tokens are the tokens, up to tokens that became errors. -/
theorem ofTokens?_softens (kind : SourceKind) (tokens : List Token)
    (hkinds : ∀ token ∈ tokens, token.kind ≠ .endOfFile) :
    ∃ children, ofTokens? kind tokens = some (.branch .file children)
      ∧ SoftensAll (leavesAll (tokens.map Token.node)) (leavesAll children) := by
  obtain ⟨t, -, ht, hempty, htree⟩ := exists_run_source kind tokens hkinds
  refine ⟨t.built.reverse, htree, ?_⟩
  have hsoftens := ht.softens
  rwa [State.start, State.row_read, State.row, hempty, List.map_nil, List.append_nil,
    List.reverse_nil, List.nil_append] at hsoftens

/-- The nodes of tokens with some text are their own leaves. -/
theorem leavesAll_map_node {tokens : List Token} (h : ∀ token ∈ tokens, token.text ≠ []) :
    leavesAll (tokens.map Token.node) = tokens.map Token.node := by
  induction tokens with
  | nil => rfl
  | cons token rest ih =>
    obtain ⟨htoken, hrest⟩ := List.forall_mem_cons.1 h
    rw [List.map_cons, leavesAll, ih hrest, leaves_eq_singleton (by rwa [token.ownText_node])]
    rfl

/-- The grammar comes to an end on every text, and the leaves of the tree are the tokens of the
text, up to tokens that became errors. -/
theorem parse?_softens (kind : SourceKind) (text : Text) :
    ∃ children, parse? kind text = some (.branch .file children)
      ∧ SoftensAll ((Token.ofText text).map Token.node) (leavesAll children) := by
  have hspells := Token.ofText_spells text
  obtain ⟨children, htree, hsoftens⟩ := ofTokens?_softens kind (Token.ofText text) hspells.notEnd
  rw [leavesAll_map_node hspells.nonempty] at hsoftens
  exact ⟨children, htree, hsoftens⟩

theorem parse?_eq (kind : SourceKind) (text : Text) :
    parse? kind text = some (ofText kind text) := by
  obtain ⟨children, htree, _⟩ := parse?_softens kind text
  rw [ofText, htree, Option.getD_some]

/-- The tree of a text is what the grammar has built when it comes to the end of the text. -/
theorem exists_run_ofText (kind : SourceKind) (text : Text) :
    ∃ t, (source (parseTo ((Token.ofText text).length + 1)) kind).run
        (State.start (Token.ofText text)) = some ((), t)
      ∧ t.ahead = [] ∧ ofText kind text = .branch .file t.built.reverse := by
  obtain ⟨t, hrun, -, hend, htree⟩ := exists_run_source kind _ (Token.ofText_spells text).notEnd
  refine ⟨t, hrun, hend, ?_⟩
  rw [ofText, parse?, htree, Option.getD_some]

/-- The leaves of the tree of a text are its tokens, up to tokens that became errors. -/
theorem ofText_softens (kind : SourceKind) (text : Text) :
    SoftensAll ((Token.ofText text).map Token.node) (ofText kind text).leaves := by
  obtain ⟨children, htree, hsoftens⟩ := parse?_softens kind text
  rw [ofText, htree, Option.getD_some]
  exact hsoftens

/-- The tree of a text has the text. -/
theorem text_ofText (kind : SourceKind) (text : Text) : (ofText kind text).text = text := by
  rw [← flatMap_leaves, (ofText_softens kind text).flatMap_ownText, List.flatMap_map]
  simp only [Token.ownText_node]
  exact (Token.ofText_spells text).flatMap_text

/-- **Parsing is total and lossless.**  The grammar comes to an end within its bounds on every text
of either kind, and the leaves and errors of the tree, in order, spell exactly the text. -/
theorem parse_lossless (kind : SourceKind) (text : Text) :
    ∃ tree, parse? kind text = some tree ∧ tree.text = text
      ∧ ((Cursor.root tree).leaves.map (·.node.ownText)).flatten = text := by
  refine ⟨ofText kind text, parse?_eq kind text, text_ofText kind text, ?_⟩
  rw [(Cursor.row_leaves _).flatten]
  exact text_ofText kind text

end Node

end StatementCompletion
