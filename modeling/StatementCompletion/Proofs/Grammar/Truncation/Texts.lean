import StatementCompletion.Proofs.Grammar.Agreement.Sources
import StatementCompletion.Proofs.Grammar.Truncation.Sources
import StatementCompletion.Proofs.Repair.Torn
import StatementCompletion.Proofs.Token.Inline

/-!
# Texts that have lost the end of a statement

An expression on one line, without comments and braces, has lost the semicolon behind it and some of
the parentheses at its end.  What is left has the same tokens in front of these, so its tree is that
of the statement, torn at the end.
-/

namespace StatementCompletion

open Grammar (Seam)

namespace Node

variable {kind : SourceKind} {text : Text}

theorem Whole.kind_of_mem_leaves {node : Node} (h : node.Whole) :
    ∀ leaf ∈ node.leaves, leaf.kind ≠ .error := by
  induction h with
  | leaf _ herror htext =>
    rw [leaves_eq_singleton (show ownText (.leaf _ _) ≠ [] from htext)]
    exact List.forall_mem_singleton.2 herror
  | branch _ _ _ _ ih =>
    intro leaf hleaf
    rw [leaves, leavesAll_eq_flatMap] at hleaf
    obtain ⟨child, hchild, hleaf⟩ := List.mem_flatMap.1 hleaf
    exact ih child hchild leaf hleaf

/-- The leaves of a tree without problems are the tokens of its text. -/
theorem leaves_ofText (h : (ofText kind text).problems = []) :
    (ofText kind text).leaves = (Token.ofText text).map Token.node := by
  have hleaves := (whole_ofText kind text h).kind_of_mem_leaves
  have hsoftens := ofText_softens kind text
  generalize (ofText kind text).leaves = leaves at hleaves hsoftens
  generalize (Token.ofText text).map Token.node = nodes at hsoftens
  induction hsoftens with
  | nil => rfl
  | cons hhead _ ih =>
    obtain ⟨herror, hrest⟩ := List.forall_mem_cons.1 hleaves
    rw [hhead.2.resolve_right herror, ih hrest]

/-- The last leaf of a statement that ends with a semicolon is the semicolon. -/
theorem getLast?_leavesAll {nodes : List Node} (hwhole : ∀ node ∈ nodes, node.Whole)
    (hends : EndsWithToken nodes) (hlast : (partKinds nodes).getLast? = some .semicolon) :
    ∃ leaf, (leavesAll nodes).getLast? = some leaf ∧ leaf.kind = .semicolon := by
  obtain ⟨node, hnode, hkind⟩ := List.getLast?_map ▸ hlast |> Option.map_eq_some_iff.1
  obtain ⟨parts, hparts⟩ := List.getLast?_eq_some_iff.1 hnode
  obtain ⟨front, rest, rfl, -, hrest⟩ := List.filter_eq_append_iff.1 hparts
  obtain ⟨before, back, rfl, -, -, hback⟩ := List.filter_eq_cons_iff.1 hrest
  have hnodeWhole :=
    hwhole node (List.mem_append_right _ (List.mem_append_right _ List.mem_cons_self))
  have hleaves : node.leaves = [node] := by
    cases hnodeWhole with
    | leaf _ _ htext => exact leaves_eq_singleton htext
    | @branch kind _ hconstruct =>
      obtain rfl : kind = .semicolon := hkind
      cases hconstruct
  -- behind the last part there is nothing with a text
  have hblank : leavesAll back = [] := by
    have hbacks : EndsWithToken back := by
      have hdrop := hends.drop (front ++ before ++ [node]).length
      rwa [← List.append_assoc, List.append_cons _ node back, List.drop_left] at hdrop
    have hsize := sizeAll_eq_zero_of_ends hbacks fun blank hmem => by
      have htrivia := List.filter_eq_nil_iff.1 hback blank hmem
      rw [Bool.not_eq_true', Bool.not_eq_false] at htrivia
      refine .inl ⟨htrivia, ?_⟩
      cases hwhole blank (by simp [hmem]) with
      | leaf _ _ htext => exact leaves_eq_singleton htext
      | branch hconstruct =>
        have hnot := (Kind.not_isTrivia_of_isConstruct hconstruct).1
        exact absurd (hnot.symm.trans htrivia) Bool.false_ne_true
    rw [List.eq_nil_iff_forall_not_mem]
    intro leaf hleaf
    have hnil := textAll_eq_nil hsize
    rw [← flatMap_leavesAll, List.flatMap_eq_nil_iff] at hnil
    exact ownText_ne_nil_of_mem_leavesAll back leaf hleaf (hnil leaf hleaf)
  refine ⟨node, ?_, hkind⟩
  rw [← List.append_assoc, leavesAll_append, leavesAll, hleaves, hblank, List.append_nil,
    List.getLast?_concat]

end Node

/-! ## One statement -/

/-- A text on one line, without comments and braces, that is read as one expression statement once a
semicolon is behind it. -/
structure IsExpression (text : Text) : Prop where
  line : ∀ c ∈ text, Text.isBreak c = false
  comments : ∀ token ∈ Token.ofText text, token.kind.isComment = false
  braces : ∀ token ∈ Token.ofText text, token.kind ≠ .leftBrace ∧ token.kind ≠ .rightBrace
  problems : (Node.ofText .codeFragment (text ++ [';'])).problems = []
  statement : (Node.ofText .codeFragment (text ++ [';'])).children.map Node.kind
    = [.expressionStatement]

instance (text : Text) : Decidable (IsExpression text) :=
  have : Decidable (∀ c ∈ text, Text.isBreak c = false) :=
    List.decidableBAll (fun c => Text.isBreak c = false) text
  decidable_of_iff ((∀ c ∈ text, Text.isBreak c = false)
      ∧ (∀ token ∈ Token.ofText text, token.kind.isComment = false)
      ∧ (∀ token ∈ Token.ofText text, token.kind ≠ .leftBrace ∧ token.kind ≠ .rightBrace)
      ∧ (Node.ofText .codeFragment (text ++ [';'])).problems = []
      ∧ (Node.ofText .codeFragment (text ++ [';'])).children.map Node.kind = [.expressionStatement])
    ⟨fun ⟨line, comments, braces, problems, statement⟩ =>
        ⟨line, comments, braces, problems, statement⟩,
      fun ⟨line, comments, braces, problems, statement⟩ =>
        ⟨line, comments, braces, problems, statement⟩⟩

namespace IsExpression

variable {text : Text}

/-- The tree is that of the statement. -/
theorem exists_children (h : IsExpression text) : ∃ children,
    Node.ofText .codeFragment (text ++ [';']) =
      .branch .file [.branch .expressionStatement children] := by
  have hwhole := Node.whole_ofText .codeFragment _ h.problems
  have hstatement := h.statement
  obtain ⟨nodes, htree, -⟩ := Node.parse?_softens .codeFragment (text ++ [';'])
  have hroot : Node.ofText .codeFragment (text ++ [';']) = .branch .file nodes := by
    rw [Node.ofText, htree, Option.getD_some]
  rw [hroot] at hwhole hstatement ⊢
  obtain ⟨node, rfl, hkind⟩ := List.map_eq_singleton_iff.1 hstatement
  obtain ⟨-, hnode⟩ := hwhole.of_mem_children List.mem_cons_self
  cases hnode with
  | @leaf kind _ hconstruct =>
    obtain rfl : kind = .expressionStatement := hkind
    cases hconstruct
  | @branch kind children =>
    obtain rfl : kind = .expressionStatement := hkind
    exact ⟨children, rfl⟩

/-- The semicolon is the last token. -/
theorem ofText_semicolon (h : IsExpression text) :
    Token.ofText (text ++ [';']) =
      Token.ofText text ++ [{ kind := .semicolon, text := [';'] }] := by
  obtain ⟨children, htree⟩ := h.exists_children
  have hwhole := Node.whole_ofText .codeFragment _ h.problems
  have hleaves := Node.leaves_ofText h.problems
  have htidy := Node.tidy_children_ofText .codeFragment (text ++ [';'])
  rw [htree] at hwhole hleaves htidy
  obtain ⟨-, hstatement⟩ := hwhole.of_mem_children List.mem_cons_self
  have hended : (Node.partKinds children).getLast? = some .semicolon := by
    cases hwhole with
    | branch _ _ _ hended =>
      exact hended nofun _ List.mem_cons_self rfl
  -- the statement ends with a semicolon, which is the last leaf
  obtain ⟨leaf, hleaf, hkind⟩ := Node.getLast?_leavesAll
    (fun node hnode => (hstatement.of_mem_children hnode).2)
    (htidy _ List.mem_cons_self).endsWithToken hended
  rw [Node.leaves, Node.leavesAll, Node.leavesAll, List.append_nil, Node.leaves] at hleaves
  rw [Node.children, hleaves, List.getLast?_map] at hleaf
  obtain ⟨token, htoken, rfl⟩ := Option.map_eq_some_iff.1 hleaf
  obtain ⟨front, hfront⟩ := List.getLast?_eq_some_iff.1 htoken
  have hlexed := Token.lexed_ofText (text ++ [';'])
  have htext := (Token.ofText_spells (text ++ [';'])).flatMap_text
  rw [hfront] at hlexed htext ⊢
  obtain ⟨hcuts, -⟩ := hlexed.of_append.of_cons
  rw [Token.kind_node] at hkind
  rw [List.flatMap_append, List.flatMap_singleton] at htext
  have hlast := congrArg List.getLast? htext
  rw [List.getLast?_concat, List.getLast?_append_of_ne_nil _ hcuts.text_ne_nil] at hlast
  have hdelimiter : Token.delimiter? ';' = some .semicolon := rfl
  obtain rfl := hcuts.eq_of_delimiter hlast hdelimiter (by rw [hkind]; rfl)
    (by rw [Repair.isTerminated, hkind]; rfl)
  obtain ⟨hcut, -⟩ := Token.ofText_eq_of_append hfront (List.append_cancel_right htext)
      fun c hhead => by
    obtain rfl : ';' = c := Option.some.inj hhead
    rfl
  rw [hcut]

/-- The literals are closed. -/
theorem literals (h : IsExpression text) :
    ∀ token ∈ Token.ofText text, Repair.isTerminated token = true := by
  refine Token.isTerminated_of_ofText_eq h.ofText_semicolon (List.cons_ne_nil _ _)
    (List.forall_mem_append.2 ⟨fun c hc => ?_, List.forall_mem_singleton.2 rfl⟩)
  exact Text.isReturn_of_isBreak (h.line c hc)

end IsExpression

/-! ## Losing parentheses -/

/-- A text that begins and ends with ink, of an expression that has lost parentheses at its end. -/
structure IsCutOff (text : Text) (n : Nat) : Prop where
  whole : IsExpression (text ++ List.replicate n ')')
  first : ∃ c, text.head? = some c ∧ Text.isBlank c = false
  last : ∃ c, text.getLast? = some c ∧ Text.isBlank c = false

namespace IsCutOff

variable {text : Text} {n m : Nat}

/-- Some of the parentheses are put back. -/
theorem append (h : IsCutOff text (n + m)) : IsCutOff (text ++ List.replicate n ')') m := by
  refine ⟨?_, ?_, ?_⟩
  · rw [List.append_assoc, ← List.replicate_add]
    exact h.whole
  · obtain ⟨c, hc, hblank⟩ := h.first
    exact ⟨c, by rw [List.head?_append, hc, Option.some_or], hblank⟩
  · cases n with
    | zero =>
      rw [List.replicate_zero, List.append_nil]
      exact h.last
    | succ n =>
      refine ⟨')', ?_, rfl⟩
      rw [List.replicate_succ', ← List.append_assoc, List.getLast?_concat]

theorem ofText_append (h : IsCutOff text n) : Token.ofText (text ++ List.replicate n ')')
    = Token.ofText text ++ List.replicate n Grammar.closer := by
  have hlexed := Token.lexed_ofText (text ++ List.replicate n ')')
  rw [← List.append_nil (Token.ofText _)] at hlexed
  obtain ⟨front, hfront, htext⟩ := hlexed.exists_delimiters
    (Token.ofText_spells _).flatMap_text rfl h.whole.comments h.whole.literals
  obtain ⟨hcut, -⟩ := Token.ofText_eq_of_append hfront htext fun c hhead => by
    cases n with
    | zero => cases hhead
    | succ n =>
      obtain rfl : ')' = c := Option.some.inj hhead
      rfl
  rw [hfront, hcut]
  rfl

/-- The tokens are those of the statement in front of what has been lost. -/
theorem ofText_statement (h : IsCutOff text n) :
    Token.ofText (text ++ List.replicate n ')' ++ [';'])
      = Token.ofText text ++ Seam.semicolon.behind n := by
  rw [h.whole.ofText_semicolon, h.ofText_append, List.append_assoc]
  rfl

theorem mem_ofText (h : IsCutOff text n) {token : Token} (htoken : token ∈ Token.ofText text) :
    token ∈ Token.ofText (text ++ List.replicate n ')') := by
  rw [h.ofText_append]
  exact List.mem_append_left _ htoken

theorem line (h : IsCutOff text n) : ∀ c ∈ text, Text.isBreak c = false :=
  fun c hc => h.whole.line c (List.mem_append_left _ hc)

theorem literals (h : IsCutOff text n) :
    ∀ token ∈ Token.ofText text, Repair.isTerminated token = true :=
  fun token htoken => h.whole.literals token (h.mem_ofText htoken)

theorem comments (h : IsCutOff text n) :
    ∀ token ∈ Token.ofText text, token.kind.isComment = false :=
  fun token htoken => h.whole.comments token (h.mem_ofText htoken)

theorem braces (h : IsCutOff text n) :
    ∀ token ∈ Token.ofText text, token.kind ≠ .leftBrace ∧ token.kind ≠ .rightBrace :=
  fun token htoken => h.whole.braces token (h.mem_ofText htoken)

/-- What is left is on one line. -/
theorem isInline (h : IsCutOff text n) : IsInline text :=
  ⟨h.line, h.comments, h.braces, h.first, h.last⟩

theorem getLast?_token_ne (h : IsCutOff text n) {token : Token}
    (htoken : token ∈ Token.ofText text) :
    token.text.getLast? ≠ some '\x7d' :=
  h.isInline.getLast?_token_ne h.literals htoken

/-- **The tree is that of the statement, torn at its end.** -/
theorem exists_tree (h : IsCutOff text n) : ∃ x y statement,
    Node.ofText .codeFragment text = .branch .file [statement] ∧ Node.Unended x y statement
      ∧ x.size = y.size + n := by
  obtain ⟨children, htree⟩ := h.whole.exists_children
  obtain ⟨x, y, statement, hparsed, hunended, hsize, -⟩ := Node.torn_ofText h.ofText_statement
    h.isInline.ofText_ne_nil h.isInline.last_not_isTrivia h.braces htree h.whole.problems
  exact ⟨x, y, statement, hparsed, hunended, hsize⟩

/-- Nothing in the statement has braces. -/
theorem exists_simple (h : IsCutOff text n) : ∃ children,
    Node.ofText .codeFragment (text ++ List.replicate n ')' ++ [';'])
      = .branch .file [.branch .expressionStatement children]
      ∧ ∀ child ∈ children, child.Simple := by
  obtain ⟨children, htree⟩ := h.whole.exists_children
  obtain ⟨-, -, -, -, -, -, hsimple⟩ := Node.torn_ofText h.ofText_statement
    h.isInline.ofText_ne_nil h.isInline.last_not_isTrivia h.braces htree h.whole.problems
  exact ⟨children, htree, hsimple⟩

end IsCutOff

end StatementCompletion
