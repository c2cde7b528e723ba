import StatementCompletion.Proofs.Completion.Recorded
import StatementCompletion.Proofs.Token.Insertion
import StatementCompletion.Proofs.Tree.Tidy

/-!
# The block that the caret steps into

The empty block next to the caret is found in the text, and a text may have the characters of an
empty block in a literal or in a comment.  So the caret steps behind an opening brace that the
closing one follows, or behind a character of a literal or of a comment.
-/

namespace StatementCompletion

open Grammar (opensBlock closesBlock)

/-! ## Opening braces among tokens -/

namespace Token

variable {token : Token} {left : Text} {front back : List Token}

/-- Literals in quotes and comments, which may have any characters in them. -/
def isVerbatim (token : Token) : Bool :=
  token.kind.isComment || (Repair.closingQuote? token.kind).isSome

/-- Only the brace itself has an opening brace in it, apart from literals and comments. -/
theorem Cuts.eq_opensBlock (h : Cuts token left) (hmem : '\x7b' ∈ token.text)
    (hplain : token.isVerbatim = false) : token = opensBlock := by
  obtain ⟨hcomment, hliteral⟩ := Bool.or_eq_false_iff.1 hplain
  cases h.form with
  | space _ hspaces => cases hspaces _ hmem
  | comment hkind => exact (Bool.false_ne_true (hcomment.symm.trans hkind)).elim
  | literal quote rest hquote _ _ =>
    rw [hquote] at hliteral
    cases hliteral
  | word _ hglued => cases hglued _ hmem
  | sign entry hentry heq =>
    have hsigns : ∀ entry ∈ signs, '\x7b' ∈ entry.1.toList →
        ({ kind := entry.2, text := entry.1.toList } : Token) = opensBlock := by decide
    rw [heq] at hmem ⊢
    exact hsigns entry hentry hmem
  | error c heq hnone =>
    rw [heq] at hmem
    obtain rfl := List.mem_singleton.1 hmem
    cases hnone

/-- White space in front of a closing brace and the brace are tokens of their own. -/
theorem ofText_closing {inside : Text} (hinside : ∀ c ∈ inside, isSpace c = true) (after : Text) :
    ofText (inside ++ '\x7d' :: after) = blank inside ++ closesBlock :: ofText after := by
  have hclosing : ofText ('\x7d' :: after) = closesBlock :: ofText after :=
    (cuts_closesBlock after).ofText_append
  by_cases hnil : inside = []
  · rw [hnil, blank_nil]
    exact hclosing
  · have hcuts : Cuts { kind := .whitespace, text := inside } ('\x7d' :: after) :=
      cuts_white hnil hinside fun c hc => by
        obtain rfl : '\x7d' = c := Option.some.inj hc
        rfl
    rw [blank_of_ne_nil hnil, List.singleton_append, ← hclosing]
    exact hcuts.ofText_append

end Token

/-! ## The leaf that an empty block starts in -/

namespace Cursor

variable {kind : SourceKind} {text before inside after : Text} {leaf : Cursor}

/-- A leaf is an opening brace with its place among the tokens of a text, and nothing but white
space between it and the closing brace. -/
def OpensEmptyBraces (text : Text) (leaf : Cursor) : Prop :=
  leaf.node.ownText = ['\x7b'] ∧ ∃ front inside back,
    Token.ofText text = front ++ opensBlock :: (Token.blank inside ++ closesBlock :: back)
      ∧ Text.size (front.flatMap (·.text)) = leaf.offset

/-- The text of a leaf is that of a literal in quotes or of a comment. -/
def HoldsVerbatim (text : Text) (leaf : Cursor) : Prop :=
  ∃ token ∈ Token.ofText text, token.isVerbatim = true ∧ token.text = leaf.node.ownText

/-- **Where the text has an empty block, there are braces, or a literal or a comment.** -/
theorem opensEmptyBraces_or_holdsVerbatim
    (htext : text = before ++ '\x7b' :: (inside ++ '\x7d' :: after))
    (hinside : ∀ c ∈ inside, Token.isSpace c = true)
    (hleaf : (root (Node.ofText kind text)).leafAt? before.size = some leaf) :
    leaf.offset = before.size ∧ leaf.OpensEmptyBraces text ∨ leaf.HoldsVerbatim text := by
  have hbelow := below_of_leafAt? hleaf
  have hown : leaf.node.ownText ≠ [] :=
    Node.ownText_ne_nil_of_mem_leaves _ _ (mem_leaves_of_leafAt? hleaf)
  obtain ⟨hstart, hstop⟩ := covers_of_leafAt? hleaf
  obtain ⟨front, token, back, htokens, htoken, -, hoffset⟩ := hbelow.exists_token_text hown
  cases hverbatim : token.isVerbatim with
  | true => exact .inr ⟨token, by simp [htokens], hverbatim, htoken⟩
  | false =>
    left
    have hspelled := (Token.ofText_spells text).flatMap_text
    have hlexed := Token.lexed_ofText text
    rw [htokens] at hlexed
    rw [htokens, List.flatMap_append, List.flatMap_cons, htext] at hspelled
    obtain ⟨hcuts, hback⟩ := hlexed.of_append.of_cons
    -- the brace is in the token, so it is the token
    obtain ⟨first, rfl, hrest⟩ := Text.exists_middle hspelled (hoffset ▸ hstart)
    have hle : first.size ≤ token.text.size := by
      rw [stop_of_ownText_ne_nil hown, ← htoken, ← hoffset, Text.size_append] at hstop
      omega
    obtain ⟨second, hsecond, hbehind⟩ := Text.exists_middle hrest.symm hle
    have hne : second ≠ [] := by
      rintro rfl
      rw [stop_of_ownText_ne_nil hown, ← htoken, ← hoffset, Text.size_append, hsecond,
        List.append_nil] at hstop
      exact Nat.lt_irrefl _ hstop
    obtain ⟨c, more, rfl⟩ := List.exists_cons_of_ne_nil hne
    obtain ⟨rfl, hmore⟩ := List.cons.inj hbehind
    obtain rfl := hcuts.eq_opensBlock (by simp [hsecond]) hverbatim
    obtain ⟨rfl, rfl⟩ : first = [] ∧ more = [] := by
      have hlength := congrArg List.length hsecond
      simp only [opensBlock, List.length_append, List.length_cons, List.length_nil] at hlength
      exact ⟨List.eq_nil_of_length_eq_zero (by omega), List.eq_nil_of_length_eq_zero (by omega)⟩
    -- what is behind it is read as the closing brace
    replace hmore : inside ++ '\x7d' :: after = back.flatMap (·.text) := hmore
    rw [Token.Lexed, ← hmore, Token.ofText_closing hinside] at hback
    rw [← hback] at htokens
    rw [List.append_nil]
    exact ⟨hoffset.symm, htoken.symm, front, inside, _, htokens, hoffset⟩

end Cursor

namespace Completion

variable {w : Workspace} {original : Text} {slots : List Nat} {caret opened : Nat}

/-! ## The step -/

/-- What stepping into an empty block makes of a workspace.  Nothing is done without an empty block
next to the caret.  With one, the caret goes behind its first character, in the leaf that the block
starts in, and what that leaf is in is laid out around it. -/
inductive Steps (style : CodeStyle) (w w' : Workspace) : Prop where
  | stays (hnone : ∀ opened, ¬BlockNear w.editor.text w.editor.caret opened) (hsame : w' = w) :
      Steps style w w'
  | steps {opened : Nat} {leaf block : Cursor}
      (hnear : BlockNear w.editor.text w.editor.caret opened)
      (hleaf : w'.tree.cursor.leafAt? opened = some leaf) (hblock : leaf.parent? = some block)
      (hstart : leaf.offset = opened ∧ leaf.OpensEmptyBraces w.editor.text
        ∨ leaf.HoldsVerbatim w.editor.text)
      (hcaret : (w.editor.moveCaret (opened + 1)).caret = opened + 1)
      (hlaidOut : (w.editor.moveCaret (opened + 1)).applyEdits
        (Layout.edits w'.tree block.span { style with keepSimpleBlocks := false }) =
          (w'.editor, .ok ())) :
      Steps style w w'

/-- Laying out applies the edits of the layout and changes nothing else. -/
theorem Current.answers_layOut (h : Current original slots w) (style : CodeStyle) (span : Span) :
    Answers w (Completion.layOut style span) fun _ w' => w'.tree = w.tree
      ∧ w.editor.applyEdits (Layout.edits w.tree span style) = (w'.editor, .ok ()) := by
  obtain ⟨e, hrun, -⟩ := h.keeps.applyEdits (Layout.fills_edits h.isTreeOf span style)
  exact .look_bind (.applyEdits hrun ⟨rfl, hrun⟩)

/-- The leaf that an empty block starts in. -/
theorem Current.exists_leaf (h : Current original slots w)
    (hnear : BlockNear w.editor.text caret opened) :
    ∃ leaf block, w.tree.cursor.leafAt? opened = some leaf ∧ leaf.parent? = some block
      ∧ (leaf.offset = opened ∧ leaf.OpensEmptyBraces w.editor.text
        ∨ leaf.HoldsVerbatim w.editor.text)
      ∧ (w.editor.moveCaret (opened + 1)).caret = opened + 1 := by
  obtain ⟨before, block, hblock, after, htext, rfl⟩ := hnear.exists_parts
  obtain ⟨inside, rfl, hinside⟩ := exists_inside_of_block hblock
  have hparts : w.editor.text = before ++ '\x7b' :: (inside ++ '\x7d' :: after) := by
    rw [htext]
    simp
  obtain ⟨span, hspan⟩ := Option.isSome_iff_exists.1 (blockSpan?_isSome h.isTreeOf hnear.lt_size)
  obtain ⟨leaf, hleaf, hspan⟩ := Option.bind_eq_some_iff.1 hspan
  obtain ⟨parent, hparent, -⟩ := Option.bind_eq_some_iff.1 hspan
  refine ⟨leaf, parent, hleaf, hparent, ?_, ?_⟩
  · rw [h.tracks.eq_ofDocument h.isCurrent] at hleaf
    exact Cursor.opensEmptyBraces_or_holdsVerbatim hparts hinside hleaf
  · have hbehind : w.editor.text = (before ++ ['\x7b']) ++ (inside ++ '\x7d' :: after) := by
      rw [hparts]
      simp
    have hcaret := Editor.caret_moveCaret hbehind
    rwa [Text.size_append] at hcaret

/-- Stepping into an empty block does not fail. -/
theorem Sound.answers_stepIntoBlock (h : Sound original slots w) (style : CodeStyle) :
    Answers w (Completion.stepIntoBlock style) fun _ w' => Steps style w w' := by
  have hnear (opened : Nat) : emptyBlockNear? w.editor.text w.editor.caret = some opened
      ↔ BlockNear w.editor.text w.editor.caret opened := emptyBlockNear?_eq_some_iff h.keeps.caret
  refine .look_bind ?_
  cases hfound : emptyBlockNear? w.editor.text w.editor.caret with
  | none =>
    refine .pure (.stays (fun opened hopened => ?_) rfl)
    rw [(hnear opened).2 hopened] at hfound
    cases hfound
  | some opened =>
    have hblock := (hnear opened).1 hfound
    refine .bind h.renewTree fun _ w₁ hrenewed => .look_bind ?_
    obtain ⟨hcurrent, heditor⟩ := hrenewed
    obtain ⟨leaf, block, hleaf, hparent, hstart, hcaret⟩ := hcurrent.exists_leaf (heditor ▸ hblock)
    have hspan : blockSpan? w₁.tree opened = some block.span := by
      rw [blockSpan?, hleaf, Option.bind_eq_bind, Option.bind_some, hparent]
      rfl
    rw [hspan]
    refine .changeEditor_bind
      (((hcurrent.moveCaret (opened + 1)).answers_layOut _ block.span).mono ?_)
    rintro _ w₂ ⟨htree, hlaidOut⟩
    rw [heditor] at hstart hcaret hlaidOut
    rw [← htree] at hleaf hlaidOut
    exact .steps hblock hleaf hparent hstart hcaret hlaidOut

/-- **The caret steps behind a brace, or into a literal or a comment.**  A pass that
edits the text and is followed by another one ends with such a step, if an empty
block is next to the caret then. -/
theorem pass_steps {settings : Settings} {popup : Popup} {w' : Workspace}
    (h : Sound original slots w) (hpass : (pass settings popup).run.run w = (.ok none, w')) :
    ∃ w₁, (mend popup).run.run (readied w) = (.ok .edited, w₁) ∧ Steps settings.style w₁ w' := by
  obtain ⟨w₁, hmend, hstep⟩ := of_pass_none hpass
  obtain ⟨_, _, hends, hsound⟩ := h.readied.mend popup
  cases hends.symm.trans hmend
  obtain ⟨_, _, hanswers, hsteps⟩ := hsound.answers_stepIntoBlock settings.style
  cases hanswers.symm.trans hstep
  exact ⟨w₁, hmend, hsteps⟩

/-- The characters of an empty block are in a literal, and the caret steps between them. -/
example :
    let e := (Editor.ofText "x = \"{}\"".toList).moveCaret 7
    let after := (stepIntoBlock {}).run.run (begun { source := .codeFragment } e)
    after.1.toOption = some () ∧ after.2.editor.text = e.text ∧ after.2.editor.caret = 6 := by
  decide +kernel

end Completion

end StatementCompletion
