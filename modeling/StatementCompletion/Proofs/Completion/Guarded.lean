import StatementCompletion.Proofs.Completion.Block
import StatementCompletion.Proofs.Repair.Condition

/-!
# A header gets its block

A text that ends with the condition of an `if` or a `while` gets the closing parenthesis in the
first pass and an empty block in the second, which is opened over two lines.  In the third pass
a line is opened in the block.
-/

namespace StatementCompletion

open Grammar (closer braced)

namespace Token

/-- An empty block may stand behind other white space, and have other white space in it. -/
theorem respaced_braced {gap gap' inside inside' : Text} (hgap : ∀ c ∈ gap, isSpace c = true)
    (hinside : ∀ c ∈ inside, isSpace c = true) (h : Refills .leftBrace gap gap')
    (h' : Refills .rightBrace inside inside') :
    Respaced (blank gap ++ braced inside) (blank gap' ++ braced inside') :=
  .gap (by decide) hgap h (.gap (by decide) hinside h' (@Respaced.stop [] nofun))

end Token

/-- A header begins with a letter. -/
theorem Guarded.exists_head (g : Guarded) (rest : Text) :
    ∃ b, (g.opening ++ rest).head? = some b ∧ Text.isBlank b = false := by
  cases g with
  | branch => exact ⟨'i', rfl, rfl⟩
  | loop => exact ⟨'w', rfl, rfl⟩

namespace IsCondition

variable {g : Guarded} {text : Text}

/-! ## The texts of the passes -/

/-- The statement ends with an empty block behind the condition. -/
theorem exists_ofText_closedBlock (h : IsCondition g text) : ∃ front : List Node,
    Node.ofText .codeFragment (g.opening ++ (text ++ [')']) ++ Completion.closedBlock)
      = Layout.endingBlock g.kind (front ++ [.closer]) [] := by
  have hlex : Token.ofText (bodyText [] []) = closer :: (Token.blank [] ++ braced []) := rfl
  obtain ⟨row, htree⟩ := h.exists_braced hlex
    (.inl (Token.respaced_braced nofun nofun
      ⟨List.forall_mem_singleton.2 rfl, nofun, nofun, fun _ => rfl⟩ (.refl nofun)))
  refine ⟨g.opened ++ row, ?_⟩
  rw [List.append_assoc, List.append_assoc, Layout.endingBlock, List.append_assoc]
  exact htree

/-- So it does where there is white space in front of the block and in it. -/
theorem exists_ofText_openedBlock (h : IsCondition g text) : ∃ front : List Node,
    Node.ofText .codeFragment (g.opening ++ (text ++ [')']) ++ ' ' :: Completion.openedBlock)
      = Layout.endingBlock g.kind front ['\n'] := by
  have hlex : Token.ofText (bodyText [' '] ['\n']) =
      closer :: (Token.blank [' '] ++ braced ['\n']) := rfl
  have hspace : ∀ c ∈ [' '], Token.isSpace c = true := List.forall_mem_singleton.2 rfl
  obtain ⟨row, htree⟩ := h.exists_braced hlex
    (.inr (Token.respaced_braced hspace nofun (.refl hspace)
      ⟨List.forall_mem_singleton.2 rfl, nofun, nofun, fun hne => absurd rfl hne⟩))
  refine ⟨g.opened ++ row ++ [.closer, .leaf .whitespace [' ']], ?_⟩
  rw [List.append_assoc, List.append_assoc, Layout.endingBlock, List.append_assoc]
  exact htree

theorem isComment_of_openedBlock (h : IsCondition g text) :
    ∀ token ∈ Token.ofText (g.opening ++ (text ++ [')']) ++ ' ' :: Completion.openedBlock),
      token.kind.isComment = false := by
  have htokens := h.ofText_closing (show Token.ofText (')' :: ' ' :: Completion.openedBlock)
    = closer :: (Token.blank [' '] ++ braced ['\n']) from rfl)
  rw [List.append_assoc, List.append_assoc, g.ofText_opening]
  show ∀ token ∈ g.opener ++ Token.ofText (text ++ ')' :: ' ' :: Completion.openedBlock), _
  rw [htokens]
  exact List.forall_mem_append.2 ⟨fun token htoken => (isClosed_of_mem_opener g token htoken).2.1,
    List.forall_mem_append.2 ⟨h.inline.comments, by decide⟩⟩

theorem isBehindInk_open (h : IsCondition g text) :
    (g.opening ++ text).IsBehindInk (g.opening ++ text).size :=
  h.inline.isBehindInk h.literals g.opening

end IsCondition

namespace Completion

variable {w : Workspace} {g : Guarded} {text : Text}

/-- The header gets its block in three passes. -/
theorem Between.exists_takePasses_header (settings : Settings) (hcondition : IsCondition g text)
    (h : Between (g.opening ++ text) w) (before : Text) (caret more taken : Nat) :
    ∃ w', (takePasses settings .never before caret (3 + more) taken).run w =
      ((.completed, taken + 3), w')
      ∧ w'.editor.text = g.opening ++ (text ++ [')'])
          ++ ' ' :: '\x7b' :: '\n' :: settings.style.indentUnit ++ ['\n', '\x7d']
      ∧ w'.editor.caret = (g.opening ++ (text ++ [')'])).size + 3 + settings.style.indentUnit.size
      ∧ w'.holes.first? = none := by
  obtain ⟨front, hclosed⟩ := hcondition.exists_ofText_closedBlock
  obtain ⟨front', hopened⟩ := hcondition.exists_ofText_openedBlock
  obtain ⟨b, hb, hblank⟩ := g.exists_head (text ++ [')'])
  have hkind : g.kind ≠ .codeBlock ∧ g.kind ≠ .classDeclaration := by cases g <;> decide
  -- the parenthesis
  obtain ⟨_, w₁, hrun₁, rfl, h₁⟩ :=
    h.answers_pass settings (List.cons_ne_nil ')' []) hcondition.isBehindInk_open
      (by decide) fun w' hready => hcondition.firstInserts hready.root_eq hready.caret
  rw [List.append_assoc] at h₁
  -- the block
  obtain ⟨_, w₂, hrun₂, rfl, h₂⟩ := h₁.answers_openingPass settings hclosed hkind
    fun w' hready => hcondition.exists_opensBlock hready.root_eq hready.caret
  -- the line in the block
  obtain ⟨_, w₃, hrun₃, rfl, htext, hcaret, hhole⟩ := h₂.answers_last settings hopened
    hcondition.isComment_of_openedBlock hcondition.isBreak_of_mem_closed hb hblank
  refine ⟨w₃, ?_, htext, hcaret, hhole⟩
  rw [show 3 + more = more + 1 + 1 + 1 by omega, takePasses_succ, hrun₁]
  dsimp only
  rw [takePasses_succ, hrun₂]
  dsimp only
  rw [takePasses_succ, hrun₃]

/-- **A header gets its block.**  Where a text ends with the condition of an `if` or a
`while`, a completion at its end closes the parenthesis, puts a block behind it and goes
to a new line in the block. -/
theorem run_opens_block (g : Guarded) (text : Text) (e : Editor)
    (htext : e.text = g.opening ++ text) (hcondition : IsCondition g text) :
    let after := run { source := .codeFragment } .never (e.moveCaret e.text.size)
    let line := g.opening ++ text ++ [')', ' ', '\x7b', '\n', ' ', ' ', ' ', ' ']
    after.outcome = .completed ∧ after.passes = 3 ∧ after.editor.text = line ++ ['\n', '\x7d']
      ∧ after.editor.caret = line.size ∧ after.hole? = none := by
  intro after line
  set settings : Settings := { source := .codeFragment }
  set start := e.moveCaret e.text.size
  have hcaret : start.caret = e.text.size := Editor.caret_moveCaret (List.append_nil _).symm
  have hbegun : Between (g.opening ++ text) (begun settings start) := by
    refine ⟨htext, rfl, Snapshot.tracks_ofDocument _ _, ?_, nofun⟩
    rw [show (begun settings start).editor.caret = _ from hcaret, htext]
    exact hcondition.isBehindInk_open
  obtain ⟨w, hrun, htext', hcaret', hhole⟩ := hbegun.exists_takePasses_header settings hcondition
    start.text start.caret 17 0
  have hafter := run_eq settings .never start
  rw [passesOf, show settings.maxPasses = 3 + 17 from rfl, hrun] at hafter
  have hline : line = g.opening ++ (text ++ [')']) ++ [' ', '\x7b', '\n', ' ', ' ', ' ', ' '] := by
    simp only [line, List.append_assoc, List.cons_append, List.nil_append]
  rw [show after = _ from hafter]
  refine ⟨rfl, rfl, ?_, ?_, hhole⟩
  · rw [hline]
    exact htext'
  · rw [hline, Text.size_append]
    exact hcaret'

/-- The condition is a call. -/
theorem run_opens_block_of_call :
    let text : Text := ['f', '(', 'a', ')']
    let e := Editor.ofText (Guarded.branch.opening ++ text)
    let after := run { source := .codeFragment } .never (e.moveCaret e.text.size)
    let line := Guarded.branch.opening ++ text ++ [')', ' ', '\x7b', '\n', ' ', ' ', ' ', ' ']
    e.text = Guarded.branch.opening ++ text ∧ IsCondition .branch text ∧ after.outcome = .completed
      ∧ after.passes = 3 ∧ after.editor.text = line ++ ['\n', '\x7d']
      ∧ after.editor.caret = line.size
      ∧ after.hole? = none := by
  intro text e
  have hcondition : IsCondition .branch text := by decide +kernel
  exact ⟨rfl, hcondition, run_opens_block .branch text e rfl hcondition⟩

/-- What the statement holds has to be all of the text: where this ends with the header of another
statement, the block is that one's, and its closing brace is indented. -/
theorem run_opens_inner_block :
    let text : Text := "a) while (b".toList
    let tree := Node.ofText .codeFragment (Guarded.loop.opening ++ (text ++ emptyBody))
    let e := Editor.ofText (Guarded.loop.opening ++ text)
    let after := run { source := .codeFragment } .never (e.moveCaret e.text.size)
    let line := Guarded.loop.opening ++ text ++ [')', ' ', '\x7b', '\n', ' ', ' ', ' ', ' ']
    IsInline text ∧ tree.problems = []
      ∧ tree.children.map (·.inParens.map fun node => Repair.canBeCondition node.kind) = [[true]]
      ∧ after.editor.text ≠ line ++ ['\n', '\x7d'] := by
  decide +kernel

end Completion

end StatementCompletion
