import StatementCompletion.Proofs.Grammar.Truncation.Sources

/-!
# Statements with a condition in front

A text that begins with `if (` or `while (` is read as one statement: its first tokens are taken in,
then an expression is read and the parenthesis behind it, and then what the statement is for.  At
the end of the text what is for the statement is missing, and an empty block is taken in whole.
-/

namespace StatementCompletion

/-- A statement whose condition stands in parentheses behind its keyword, and
its body behind these. -/
inductive Guarded where
  | branch
  | loop
deriving DecidableEq

namespace Guarded

/-! ## The opening -/

def keyword : Guarded → Kind
  | branch => .ifKeyword
  | loop => .whileKeyword

def word : Guarded → Text
  | branch => "if".toList
  | loop => "while".toList

def kind : Guarded → Kind
  | branch => .ifStatement
  | loop => .whileStatement

/-- The keyword, a space and the parenthesis. -/
def opening (g : Guarded) : Text :=
  g.word ++ [' ', '(']

/-- The tokens of the opening. -/
def opener (g : Guarded) : List Token :=
  [{ kind := g.keyword, text := g.word }, { kind := .whitespace, text := [' '] },
    { kind := .leftParen, text := ['('] }]

/-- The nodes of the opening. -/
def opened (g : Guarded) : List Node :=
  [.leaf g.keyword g.word, .leaf .whitespace [' '], .leaf .leftParen ['(']]

theorem ofText_opening (g : Guarded) (rest : Text) :
    Token.ofText (g.opening ++ rest) = g.opener ++ Token.ofText rest := by
  have hword : Token.Cuts { kind := g.keyword, text := g.word } (' ' :: '(' :: rest) := by
    cases g with
    | branch => exact ⟨'i', 'f' :: ' ' :: '(' :: rest, rfl, rfl⟩
    | loop => exact ⟨'w', 'h' :: 'i' :: 'l' :: 'e' :: ' ' :: '(' :: rest, rfl, rfl⟩
  have hblank : Token.Cuts { kind := .whitespace, text := [' '] } ('(' :: rest) :=
    ⟨' ', '(' :: rest, rfl, rfl⟩
  have hparen : Token.Cuts { kind := .leftParen, text := ['('] } rest := ⟨'(', rest, rfl, rfl⟩
  rw [opening, List.append_assoc]
  refine hword.ofText_append.trans (congrArg _ ?_)
  exact hblank.ofText_append.trans (congrArg _ hparen.ofText_append)

end Guarded

namespace Grammar

open State (Truncated)

variable {g : Guarded} {inner : Inner} {s t u v : State} {row : List Node}

/-! ## Reading the condition -/

/-- The state behind the opening. -/
def Guarded.entered (g : Guarded) (tokens : List Token) : State :=
  State.read g.opened.reverse tokens

/-- What is read in the parentheses, and the closing one. -/
def guardHeader (inner : Inner) : Parser Unit := do
  orMissing (expression inner) .expression
  discard (expect .rightParen)

/-- What is read behind the parentheses. -/
def guardedRest (inner : Inner) : Guarded → Parser Unit
  | .branch => do
    body inner
    whenTaken .elseKeyword (body inner)
    wrap 0 .ifStatement
  | .loop => do
    body inner
    wrap 0 .whileStatement

theorem run_statement_opener (g : Guarded) (inner : Inner) (tokens : List Token) :
    (statement inner).run (State.start (g.opener ++ tokens))
      = (guardHeader inner >>= fun _ => guardedRest inner g).run (Guarded.entered g tokens) := by
  cases g <;> rfl

/-- The state behind what is asked for, if it is not there. -/
def State.orMarked (s : State) (found : Bool) (wanted : Wanted) : State :=
  if found then s else s.markMissing wanted

theorem run_guardHeader_eq_some {a : Unit} (h : (guardHeader inner).run s = some (a, t)) :
    ∃ b v, (expression inner).run s = some (b, v) ∧ t = (v.orMarked b .expression).closed := by
  obtain ⟨_, u, hexpression, hclosing⟩ := run_bind_eq_some.1 h
  rw [run_expect_closing] at hclosing
  obtain ⟨b, v, hv, hmissing⟩ := run_bind_eq_some.1 hexpression
  refine ⟨b, v, hv,
    (Prod.mk.inj (Option.some.inj hclosing)).2.symm.trans (congrArg State.closed ?_)⟩
  cases b with
  | true => exact (run_pure_eq_some.1 hmissing).2
  | false => exact (Prod.mk.inj (Option.some.inj hmissing)).2.symm

/-- A statement that goes up to the end is the only item of a source. -/
theorem run_source_of_statement {a : Unit} (hend : s.current ≠ .endOfFile)
    (hbrace : s.current ≠ .rightBrace) (h : (source inner .codeFragment).run s = some (a, t)) :
    ∃ u, (statement inner).run s = some ((), u) ∧ (u.token? = none → t = u) := by
  have h : (loopWithin (s.ahead.length + 1) (itemStep (fragmentItem inner))).run s =
      some (a, t) := h
  rcases run_itemStep_eq_some h with ⟨hcurrent, -⟩ | ⟨-, u, hprogress, hrest⟩
  · exact absurd hcurrent hend
  obtain ⟨v, hitem, hu⟩ := run_progress_eq_some hprogress
  refine ⟨v, run_fragmentItem_eq_some hbrace hitem, fun hnone => ?_⟩
  rw [State.take_of_none hnone, or_self_iff] at hu
  subst hu
  exact run_itemStep_of_end hnone hrest

/-- Everything in a text behind an opening is read as one statement, if that goes up to the end. -/
theorem exists_run_guarded (g : Guarded) (rest : Text) : ∃ n b v u,
    (expression (parseTo (n + 1))).run (Guarded.entered g (Token.ofText rest)) = some (b, v)
      ∧ (guardedRest (parseTo (n + 1)) g).run (v.orMarked b .expression).closed = some ((), u)
      ∧ (u.token? = none →
        Node.ofText .codeFragment (g.opening ++ rest) = .branch .file u.built.reverse) := by
  obtain ⟨t, hrun, -, htree⟩ := Node.exists_run_ofText .codeFragment (g.opening ++ rest)
  generalize (Token.ofText (g.opening ++ rest)).length = n at hrun
  rw [g.ofText_opening] at hrun
  have hcurrent : (State.start (g.opener ++ Token.ofText rest)).current = g.keyword := by
    cases g <;> rfl
  have hend : g.keyword ≠ .endOfFile := by cases g <;> decide
  have hbrace : g.keyword ≠ .rightBrace := by cases g <;> decide
  obtain ⟨u, hstatement, ht⟩ := run_source_of_statement (by rwa [hcurrent]) (by rwa [hcurrent]) hrun
  rw [run_statement_opener] at hstatement
  obtain ⟨_, w, hheld, hrest⟩ := run_bind_eq_some.1 hstatement
  obtain ⟨b, v, hexpression, rfl⟩ := run_guardHeader_eq_some hheld
  refine ⟨n, b, v, u, hexpression, hrest, fun hnone => ?_⟩
  rw [htree, ht hnone]

/-! ## What comes behind the parentheses -/

/-- All nodes of a row become the children of one branch. -/
theorem State.wrap_built {nodes : List Node} {kind : Kind} (hpending : s.pending = 0)
    (hbuilt : s.built = nodes ++ row) :
    s.wrap row.length kind = { s with built := .branch kind nodes.reverse :: row } := by
  have hcount : s.solid - min row.length s.solid = nodes.length := by
    rw [State.solid, hpending, hbuilt, List.length_append]
    omega
  rw [State.wrap, hcount, State.insertSolid, hpending, hbuilt, List.drop_zero,
    List.take_zero, Nat.zero_add, List.take_left, List.drop_left, List.nil_append]

theorem run_whenTaken_of_ne {kind : Kind} {p : Parser Unit} (h : s.current ≠ kind) :
    (whenTaken kind p).run s = some ((), s) := by
  show StateT.run
    ((if decide (s.current = kind) then (do take; return true) else pure false : Parser Bool)
    >>= fun taken => if taken then p else pure ()) s = _
  rw [decide_eq_false h]
  rfl

/-- At the end of the text nothing stands behind the parentheses. -/
theorem run_guardedRest_of_end (g : Guarded) (hend : v.token? = none) :
    (guardedRest inner g).run v = some ((), (v.markMissing .statement).wrap 0 g.kind) := by
  have hbody : (body inner).run v = some ((), v.markMissing .statement) := by
    show StateT.run (if startsStatement v.current then _ else _) v = _
    rw [State.current, hend]
    rfl
  have helse : (v.markMissing .statement).current ≠ .elseKeyword := by
    have hcurrent : (v.markMissing .statement).current = v.current := by
      rcases v.markMissing_eq .statement with heq | heq <;> rw [heq]
      rfl
    rw [hcurrent, State.current, hend]
    decide
  cases g with
  | branch =>
    exact run_bind_eq_some.2 ⟨(), _, hbody,
      run_bind_eq_some.2 ⟨(), _, run_whenTaken_of_ne helse, rfl⟩⟩
  | loop => exact run_bind_eq_some.2 ⟨(), _, hbody, rfl⟩

/-! ## An empty block -/

/-- An opening brace. -/
def opensBlock : Token :=
  { kind := .leftBrace, text := ['\x7b'] }

/-- A closing brace. -/
def closesBlock : Token :=
  { kind := .rightBrace, text := ['\x7d'] }

/-- The tokens of a block with nothing but white space in it. -/
def braced (inside : Text) : List Token :=
  opensBlock :: (Token.blank inside ++ [closesBlock])

/-- The nodes of the tokens, in the block that they make. -/
def bracedNode (inside : Text) : Node :=
  .branch .codeBlock ((braced inside).map Token.node)

/-- Behind everything that is to be read. -/
def State.finished (row : List Node) : State :=
  { built := row, token? := none, pending := 0, onNewLine := false, unread := [] }

theorem State.read_blank_append {gap : Text} {token : Token} (tokens : List Token)
    (h : token.isTrivia = false) : State.read row (Token.blank gap ++ token :: tokens)
      = { built := ((Token.blank gap).map Token.node).reverse ++ row, token? := some token,
          pending := (Token.blank gap).length, onNewLine := State.hasNewline (Token.blank gap),
          unread := tokens } := by
  have hstop : ¬ token.isTrivia = true := by
    rw [h]
    exact Bool.false_ne_true
  have htake : (Token.blank gap ++ token :: tokens).takeWhile Token.isTrivia = Token.blank gap := by
    rw [List.takeWhile_append_of_pos fun _ => Token.isTrivia_of_mem_blank,
      List.takeWhile_cons_of_neg hstop, List.append_nil]
  have hdrop : (Token.blank gap ++ token :: tokens).dropWhile Token.isTrivia = token :: tokens := by
    rw [List.dropWhile_append_of_pos fun _ => Token.isTrivia_of_mem_blank,
      List.dropWhile_cons_of_neg hstop]
  rw [State.read, htake, hdrop]
  rfl

/-- At a closing brace there are no more items. -/
theorem run_itemsUpToBrace_of_brace {item : Parser Unit} (h : s.current = .rightBrace) :
    (itemsUpToBrace item).run s = some ((), s.take Token.node) := by
  have hloop : (loop (bracedItem item)).run s = some ((), s) := by
    show StateT.run (do if ← (if decide (s.current = .endOfFile) || decide (s.current = .rightBrace)
      then pure false else (do progress item; return true) : Parser Bool) then _) s = _
    rw [decide_eq_true h, Bool.or_true]
    rfl
  have hexpect : (discard (expect .rightBrace)).run s = some ((), s.take Token.node) := by
    show StateT.run
      (discard (if decide (s.current = .rightBrace) then _ else _ : Parser Bool)) s = _
    rw [decide_eq_true h]
    rfl
  rw [itemsUpToBrace, StateT.run_bind, hloop]
  exact hexpect

/-- Nodes at the end of the row become the children of a branch. -/
theorem run_wrap_finished (nodes row : List Node) (kind : Kind) :
    (wrap row.length kind).run (.finished (nodes ++ row))
      = some ((), .finished (.branch kind nodes.reverse :: row)) :=
  congrArg (fun t => some ((), t)) (State.wrap_built rfl rfl)

theorem run_codeBlock_braced {inside : Text} (htoken : s.token? = some opensBlock)
    (hunread : s.unread = Token.blank inside ++ [closesBlock]) :
    (codeBlock inner).run s = some ((), .finished (bracedNode inside :: s.built)) := by
  have htake : s.take Token.node = _ := (State.take_of_some htoken Token.node).trans
    ((congrArg (State.read _) hunread).trans (State.read_blank_append [] rfl))
  have hnodes : bracedNode inside = .branch .codeBlock
      (closesBlock.node
        :: (((Token.blank inside).map Token.node).reverse ++ [opensBlock.node])).reverse := by
    simp [bracedNode, braced]
  show (do
    itemsUpToBrace (discard (inner .statement))
    wrap s.marker .codeBlock : Parser Unit).run (s.take Token.node) = _
  rw [StateT.run_bind, run_itemsUpToBrace_of_brace (by rw [htake]; rfl), htake, hnodes,
    ← run_wrap_finished]
  rw [List.cons_append, List.append_assoc]
  rfl

/-- An empty block is one statement. -/
theorem run_statement_braced (inner : Inner) (row : List Node) (gap inside : Text) :
    (statement inner).run (State.read row (Token.blank gap ++ braced inside))
      = some ((), .finished (.branch .blockStatement [bracedNode inside]
          :: (((Token.blank gap).map Token.node).reverse ++ row))) := by
  rw [braced, State.read_blank_append _ rfl]
  show (codeBlock inner >>= fun _ => wrap (((Token.blank gap).map Token.node).reverse ++ row).length
    .blockStatement).run _ = _
  rw [StateT.run_bind, run_codeBlock_braced rfl rfl]
  exact run_wrap_finished [bracedNode inside] _ .blockStatement

/-- So is one behind the parentheses, and the text ends there. -/
theorem run_guardedRest_braced (g : Guarded) (n : Nat) (row : List Node) (gap inside : Text) :
    (guardedRest (parseTo (n + 1)) g).run (State.read row (Token.blank gap ++ braced inside))
      = some ((), .finished [.branch g.kind (row.reverse ++ (Token.blank gap).map Token.node
          ++ [.branch .blockStatement [bracedNode inside]])]) := by
  set block := Node.branch .blockStatement [bracedNode inside]
  set after := block :: (((Token.blank gap).map Token.node).reverse ++ row)
  have hbody : (body (parseTo (n + 1))).run (State.read row (Token.blank gap ++ braced inside))
      = some ((), .finished after) := by
    have hcurrent : (State.read row (Token.blank gap ++ braced inside)).current = .leftBrace := by
      rw [braced, State.read_blank_append _ rfl]
      rfl
    show StateT.run (if startsStatement (State.read row _).current
      then discard (present (statement (parseTo n)))
      else missing .statement) _ = _
    rw [hcurrent]
    refine run_discard_eq_some.2 ⟨true,
      run_bind_eq_some.2 ⟨(), _, run_statement_braced _ _ _ _, ?_⟩⟩
    exact run_pure_eq_some.2 ⟨rfl, rfl⟩
  have hwrap (kind : Kind) : (wrap 0 kind).run (.finished after)
      = some ((),
        .finished [.branch kind (row.reverse ++ (Token.blank gap).map Token.node ++ [block])]) := by
    have hall := run_wrap_finished after [] kind
    simpa [after] using hall
  cases g with
  | branch =>
    have helse : (State.finished after).current ≠ .elseKeyword := nofun
    exact run_bind_eq_some.2 ⟨(), _, hbody,
      run_bind_eq_some.2 ⟨(), _, run_whenTaken_of_ne helse, hwrap .ifStatement⟩⟩
  | loop => exact run_bind_eq_some.2 ⟨(), _, hbody, hwrap .whileStatement⟩

end Grammar

end StatementCompletion
