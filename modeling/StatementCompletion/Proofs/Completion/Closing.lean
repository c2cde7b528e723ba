import StatementCompletion.Proofs.Completion.Edited

/-!
# Lost parentheses are put back

A statement on one line that has lost its semicolon and parentheses in front of it gets these back,
one with each pass, then the semicolon, and at last a new line is opened behind it.
-/

namespace StatementCompletion

namespace Layout.Gap

/-- No space is put between the tokens of an expression. -/
theorem isSpaced_eq_false {before after : Kind} (hafter : after ≠ .leftBrace)
    (hbefore : before ≠ .rightBrace) (hheader : before.opensHeader = false) :
    isSpaced before after = false := by
  unfold isSpaced
  split <;> first | rfl | exact absurd rfl hafter | exact absurd rfl hbefore | cases hheader

end Layout.Gap

namespace Completion

variable {w w' : Workspace} {text : Text} {settings : Settings} {target : Cursor}

/-! ## The pass that ends the completion -/

/-- Where no remedy does anything, mending leaves the workspace alone. -/
theorem answers_tryAll_of_nil {trials : List (Cursor × Remedy)}
    (h : ∀ trial ∈ trials, trial.2.actions w.editor.document trial.1 = .ok [])
    (hcurrent : w.tree.isCurrent w.editor.document = true) :
    Answers w (tryAll .never trials) fun ending w' => ending = none ∧ Same w w'
      ∧ w'.holes = w.holes := by
  rw [← List.append_nil trials]
  exact answers_tryAll_append_of_nil h hcurrent fun _ hsame hholes => .pure ⟨rfl, hsame, hholes⟩

theorem answers_layOut_of_nil {style : CodeStyle} {span : Span}
    (h : Layout.edits w.tree span style = []) :
    Answers w (layOut style span) fun _ w' => w' = w := by
  refine .look_bind ?_
  rw [h]
  exact .applyEdits rfl rfl

theorem answers_renewTree (h : w.tree.isCurrent w.editor.document = true) :
    Answers w renewTree fun _ w' => w' = w := by
  refine .modify ?_
  rw [Snapshot.renewed, if_pos h]

theorem answers_markedSpan {slot : Nat} {span : Span} (h : w.editor.marker? slot = some span) :
    Answers w (markedSpan slot) fun span' w' => span' = span ∧ w' = w := by
  refine .look_bind ?_
  rw [h]
  exact .pure ⟨rfl, rfl⟩

/-- Where there is no comment, none is broken. -/
theorem splitComment_eq_none {comments : CommentStyle} {tree : Snapshot} {e : Editor}
    (h : ∀ leaf ∈ tree.root.leaves, leaf.kind.isComment = false) :
    Landing.splitComment comments tree e = .ok none := by
  have hnone : Landing.commentAt? tree e.caret = none := by
    rw [Landing.commentAt?, List.find?_eq_none]
    intro leaf hleaf
    obtain ⟨position, -, hfound⟩ := List.mem_filterMap.1 hleaf
    rw [show leaf.kind.isComment = false from h _ (Cursor.mem_leaves_of_leafAt? hfound)]
    exact Bool.false_ne_true
  rw [Landing.splitComment, hnone]
  rfl

/-- A new line is opened behind the semicolon of the statement. -/
theorem applyFirst_eq (manner : Landing.Manner) {tree : Snapshot} (target : Cursor) (e : Editor)
    (hcomment : ∀ leaf ∈ tree.root.leaves, leaf.kind.isComment = false)
    (hkind : target.kind = .expressionStatement) (hsemicolon : target.endsWithSemicolon = true)
    (hstop : target.stop = e.text.size) (hline : ∀ c ∈ e.text, Text.isBreak c = false)
    {b : Char} (hb : e.text.head? = some b) (hblank : Text.isBlank b = false)
    (hlast : e.text.getLast? = some ';') :
    ∃ e', Landing.Rule.applyFirst manner tree target e Landing.Rule.all = .ok (some e')
      ∧ e'.text = e.text ++ ['\n'] ∧ e'.caret = e.text.size + 1 := by
  have hmoved : (e.moveCaret target.stop).caret = e.text.size := by
    rw [hstop]
    exact Editor.caret_moveCaret (List.append_nil _).symm
  have hsplit : (e.moveCaret target.stop).text = e.text ++ [] := (List.append_nil _).symm
  obtain ⟨e', hbreak, htext, hcaret⟩ := Editor.breakLine_eq hsplit (Text.isFirstLine_self hline) hb
    hblank hlast (by decide) hmoved manner.style rfl
  rw [if_neg (by decide)] at htext hcaret
  have hopened : Landing.openLineAt manner.style target.stop e = .ok (some e') := by
    rw [Landing.openLineAt, hbreak]
    rfl
  have hends : (Landing.endsLine target && target.endsWithSemicolon) = true := by
    rw [hsemicolon, Landing.endsLine, hkind]
    rfl
  refine ⟨e', ?_, by simpa using htext, hcaret⟩
  rw [Landing.Rule.all, Landing.Rule.applyFirst, Landing.Rule.apply, splitComment_eq_none hcomment]
  show Landing.Rule.applyFirst manner tree target e _ = _
  rw [Landing.Rule.applyFirst, Landing.Rule.apply, if_pos hends, hopened]
  rfl

/-- A node is found at its place. -/
theorem findIn_self (node : Node) (above : List Placed) (index offset : Nat) :
    Cursor.findIn { start := offset, stop := offset + node.size } node.kind above index offset node
      = some ⟨⟨node, offset, index⟩, above⟩ := by
  cases node <;> exact if_pos ⟨rfl, rfl⟩

theorem find?_onlyStatement {statement : Node} (hkind : statement.kind = .expressionStatement) :
    (Cursor.root (.branch .file [statement])).find? (Cursor.onlyStatement statement).span
      .expressionStatement = some (.onlyStatement statement) := by
  have hspan : (Cursor.onlyStatement statement).span =
      { start := 0, stop := 0 + statement.size } := rfl
  have hself := findIn_self statement [⟨.branch .file [statement], 0, 0⟩] 0 0
  rw [hkind] at hself
  have hstatement :
      Cursor.contains 0 statement.size { start := 0, stop := 0 + statement.size } = true := by
    simp [Cursor.contains]
  have hroot : Cursor.contains 0 (Node.branch .file [statement]).size
      { start := 0, stop := 0 + statement.size } = true := by
    simp [Cursor.contains, Node.size, Node.sizeAll]
  rw [Cursor.find?, Cursor.root, Cursor.findIn, if_neg (fun hroot => absurd hroot.2 (by decide)),
    hspan, if_pos hroot, Cursor.findInAll, if_pos hstatement, hself]
  rfl

end Completion

namespace IsCutOff

variable {text : Text} {statement : Node}

/-- Nothing in an expression statement is a comment, a brace or the word that opens a header. -/
theorem kind_of_mem_leaves (h : IsCutOff text 0)
    (htree : Node.ofText .codeFragment (text ++ [';']) = .branch .file [statement])
    (hwhole : statement.Whole) (hkind : statement.kind = .expressionStatement)
    (hsimple : ∀ child ∈ statement.children, child.Simple) {leaf : Node}
    (hleaf : leaf ∈ (Node.ofText .codeFragment (text ++ [';'])).leaves) :
    leaf.kind.isComment = false ∧ leaf.kind ≠ .leftBrace ∧ leaf.kind ≠ .rightBrace
      ∧ leaf.kind.opensHeader = false := by
  have hheader : leaf.kind.opensHeader = false := by
    rw [htree, Node.leaves, Node.leavesAll, Node.leavesAll, List.append_nil] at hleaf
    cases statement with
    | error => cases hkind
    | leaf kind =>
      obtain rfl : kind = .expressionStatement := hkind
      cases hwhole with
      | leaf hconstruct => cases hconstruct
    | branch kind children =>
      rw [Node.leaves, Node.leavesAll_eq_flatMap] at hleaf
      obtain ⟨child, hchild, hleaf⟩ := List.mem_flatMap.1 hleaf
      have hleafSimple := ((hsimple child hchild).of_mem_leaves leaf hleaf).isSimple
      revert hleafSimple
      cases leaf.kind <;> decide
  -- the tokens are those of the text and the semicolon
  have hproblems := h.whole.problems
  have htokens := h.ofText_statement
  rw [List.replicate_zero, List.append_nil] at hproblems htokens
  rw [Node.leaves_ofText hproblems, htokens] at hleaf
  obtain ⟨token, htoken, rfl⟩ := List.mem_map.1 hleaf
  rw [Token.kind_node] at hheader ⊢
  rcases List.mem_append.1 htoken with htoken | htoken
  · exact ⟨h.comments token htoken, (h.braces token htoken).1, (h.braces token htoken).2, hheader⟩
  · obtain rfl := List.mem_singleton.1 htoken
    exact ⟨rfl, by decide, by decide, rfl⟩

end IsCutOff

namespace Cursor

variable {statement : Node}

/-- A whole expression statement ends with its semicolon. -/
theorem endsWithSemicolon_onlyStatement (h : (onlyStatement statement).IsWhole)
    (hkind : statement.kind = .expressionStatement) :
    (onlyStatement statement).endsWithSemicolon = true := by
  have hparent : (onlyStatement statement).parentKind? ≠ some .forStatement := by
    show some Kind.file ≠ some .forStatement
    decide
  have hlast := h.lastPart?_map.trans (h.ended hparent hkind)
  obtain ⟨last, hlast, hlastKind⟩ := Option.map_eq_some_iff.1 hlast
  rw [endsWithSemicolon, hlast, Option.any_some, decide_eq_true hlastKind]

end Cursor

namespace Completion

variable {w w' : Workspace} {text : Text} {settings : Settings} {statement : Node}

/-- There is nothing to lay out on one line without blocks and headers. -/
theorem Ready.edits_eq_nil (h : Ready text w) (hline : ∀ c ∈ text, Text.isBreak c = false)
    (hleaves : ∀ leaf ∈ w.tree.root.leaves, leaf.kind ≠ .leftBrace ∧ leaf.kind ≠ .rightBrace
      ∧ leaf.kind.opensHeader = false) (span : Span) (style : CodeStyle) :
    Layout.edits w.tree span style = [] := by
  have hnode {leaf : Cursor} (hleaf : leaf ∈ w.tree.cursor.leaves) :
      leaf.node ∈ w.tree.root.leaves := by
    have hmap := Cursor.map_node_leaves w.tree.cursor
    rw [show w.tree.root.leaves = _ from hmap.symm]
    exact List.mem_map_of_mem hleaf
  apply Layout.edits_eq_nil
  · intro hmem
    rw [Snapshot.text, h.root_eq, Node.text_ofText] at hmem
    cases hline _ hmem
  · intro leaf hleaf
    exact (hleaves _ (hnode hleaf)).1
  · intro before hbefore after hafter
    obtain ⟨-, hbrace, hheader⟩ := hleaves _ (hnode hbefore)
    exact Layout.Gap.isSpaced_eq_false (hleaves _ (hnode hafter)).1 hbrace hheader

/-- The target is laid out as it is, and a new line is opened behind it. -/
theorem Ready.answers_land (hcut : IsCutOff text 0) (h : Ready (text ++ [';']) w)
    (htree : Node.ofText .codeFragment (text ++ [';']) = .branch .file [statement])
    (hwhole : (Cursor.onlyStatement statement).IsWhole)
    (hkind : statement.kind = .expressionStatement)
    (hsimple : ∀ child ∈ statement.children, child.Simple) :
    Answers w (withMarker (Cursor.onlyStatement statement).span
        (land settings (Scope.ofTarget (.onlyStatement statement)))) fun _ w' =>
      w'.editor.text = text ++ [';', '\n'] ∧ w'.editor.caret = w'.editor.text.size
        ∧ w'.holes.first? = none := by
  have hroot := h.root_eq.trans htree
  have hleaves : ∀ leaf ∈ w.tree.root.leaves, leaf.kind.isComment = false ∧ leaf.kind ≠ .leftBrace
      ∧ leaf.kind ≠ .rightBrace ∧ leaf.kind.opensHeader = false := by
    intro leaf hleaf
    rw [h.root_eq] at hleaf
    exact hcut.kind_of_mem_leaves htree hwhole.whole hkind hsimple hleaf
  have hline : ∀ c ∈ text ++ [';'], Text.isBreak c = false :=
    List.forall_mem_append.2 ⟨hcut.line, List.forall_mem_singleton.2 rfl⟩
  have hlayout := h.edits_eq_nil hline (fun leaf hleaf => (hleaves leaf hleaf).2)
    (spanToLayOut (.onlyStatement statement)) settings.style
  have hstop : (Cursor.onlyStatement statement).stop = w.editor.text.size := by
    rw [h.text_eq, Cursor.stop_onlyStatement,
      ← Node.text_ofText .codeFragment (text ++ [';']), htree, Node.size_text]
    rfl
  -- the statement is marked, and neither the layout nor the tree changes
  refine .withMarker ?_
  set marked : Workspace :=
    { w with editor := (w.editor.mark (Cursor.onlyStatement statement).span).1 }
  have hmarked : marked.editor.marker? (w.editor.mark (Cursor.onlyStatement statement).span).2
      = some (Cursor.onlyStatement statement).span := by
    simp [marked, Editor.mark, Editor.marker?]
  have hcurrent : marked.tree.isCurrent marked.editor.document = true := h.isCurrent
  have htext : marked.editor.text = text ++ [';'] := h.text_eq
  refine .look_bind ?_
  rw [show marked.holes.first? = none from h.holes]
  refine .bind (answers_layOut_of_nil hlayout) fun _ w' hw => ?_
  subst hw
  refine .bind (answers_renewTree hcurrent) fun _ w' hw => ?_
  subst hw
  refine .bind (answers_markedSpan hmarked) fun span w' hspan => ?_
  obtain ⟨rfl, rfl⟩ := hspan
  -- the rule for statements opens the line
  obtain ⟨b, hb, hblank⟩ := hcut.first
  have hfirst : marked.editor.text.head? = some b := by
    rw [htext, List.head?_append, hb, Option.some_or]
  have hlast : marked.editor.text.getLast? = some ';' := by rw [htext, List.getLast?_concat]
  obtain ⟨e', happly, htext', hcaret⟩ := applyFirst_eq (manner settings) (.onlyStatement statement)
    marked.editor (fun leaf hleaf => (hleaves leaf hleaf).1) hkind
    (Cursor.endsWithSemicolon_onlyStatement hwhole hkind) hstop (fun c hc => hline c (htext ▸ hc))
    hfirst hblank hlast
  have hlanded : Answers marked (landByRule settings (Cursor.onlyStatement statement).span
      .expressionStatement) fun landed w' =>
        landed = true ∧ w'.editor = e' ∧ w'.holes = w.holes := by
    refine .get_bind ?_
    rw [show marked.tree.cursor = .root (.branch .file [statement]) from congrArg Cursor.root hroot,
      find?_onlyStatement hkind]
    dsimp only
    rw [happly]
    exact .set_bind (.pure ⟨rfl, rfl, rfl⟩)
  rw [Scope.ofTarget, show (Cursor.onlyStatement statement).kind = _ from hkind]
  refine .bind hlanded fun landed w' hlanded => ?_
  obtain ⟨rfl, heditor, hholes⟩ := hlanded
  refine .pure ⟨?_, ?_, ?_⟩
  · show w'.editor.text = text ++ ([';'] ++ ['\n'])
    rw [heditor, htext', htext, List.append_assoc]
  · show w'.editor.caret = w'.editor.text.size
    rw [heditor, hcaret, htext', Text.size_append]
    rfl
  · show w'.holes.first? = none
    rw [hholes, h.holes]

/-- **The last pass** opens a new line behind the statement. -/
theorem Between.answers_last (settings : Settings) (hcut : IsCutOff text 0)
    (h : Between (text ++ [';']) w) :
    Answers w (pass settings .never) fun answer w' => answer = some .completed
      ∧ w'.editor.text = text ++ [';', '\n'] ∧ w'.editor.caret = w'.editor.text.size
      ∧ w'.holes.first? = none := by
  obtain ⟨statement, htree, hplain, hwhole, hsimple⟩ := hcut.exists_statement
  refine h.answers_ready fun w₁ hready => ?_
  have hline : ∀ c ∈ text ++ [';'], Text.isBreak c = false :=
    List.forall_mem_append.2 ⟨hcut.line, List.forall_mem_singleton.2 rfl⟩
  have hbraces : ∀ token ∈ Token.ofText (text ++ [';']), token.text ≠ ['\x7d'] := by
    have htokens := hcut.ofText_statement
    rw [List.replicate_zero, List.append_nil] at htokens
    rw [htokens]
    refine List.forall_mem_append.2 ⟨fun token htoken hbrace => ?_,
      List.forall_mem_singleton.2 nofun⟩
    refine hcut.getLast?_token_ne htoken ?_
    rw [hbrace]
    rfl
  have htarget := hplain.isOnly.atCaret?_eq hline hbraces hready.root_eq htree hready.caret
  have hmended : Answers w₁ (mend .never) fun mending w' =>
      mending = .complete (.ofTarget (.onlyStatement statement)) ∧ Ready (text ++ [';']) w' := by
    refine .look_bind ?_
    rw [hready.text_eq, htarget]
    refine .bind (answers_tryAll_of_nil (hplain.actions_eq_nil hwhole hsimple) hready.isCurrent)
      fun ending w' ⟨hending, hsame, hholes⟩ => ?_
    subst hending
    exact .pure ⟨rfl, hready.of_same hsame hholes⟩
  refine .bind hmended fun mending w₂ ⟨hmending, hready₂⟩ => ?_
  subst hmending
  exact .bind (hready₂.answers_land hcut htree hwhole hplain.kind_eq hsimple) fun _ _ hlanded =>
    .pure ⟨rfl, hlanded⟩

/-! ## All passes -/

/-- A text that has lost its end is completed in a pass for each parenthesis, one for the semicolon
and one for the new line. -/
theorem Between.exists_takePasses (settings : Settings) {n : Nat} (hcut : IsCutOff text n)
    (h : Between text w) (before : Text) (caret more taken : Nat) :
    ∃ w', (takePasses settings .never before caret (n + 2 + more) taken).run w
        = ((.completed, taken + n + 2), w')
      ∧ w'.editor.text = text ++ List.replicate n ')' ++ [';', '\n']
      ∧ w'.editor.caret = w'.editor.text.size ∧ w'.holes.first? = none := by
  induction n generalizing text w taken with
  | zero =>
    -- one pass puts the semicolon there, and the last one goes to a new line
    obtain ⟨answer, w₁, hrun, rfl, hbetween⟩ := h.answers_pass settings
      (List.cons_ne_nil ';' []) hcut.isBehindInk (by decide) fun w' hready =>
        hcut.firstInserts hready.root_eq hready.caret
    obtain ⟨answer, w₂, hrun', rfl, htext, hcaret, hhole⟩ := hbetween.answers_last settings hcut
    refine ⟨w₂, ?_, ?_, hcaret, hhole⟩
    · rw [show 0 + 2 + more = more + 1 + 1 by omega, takePasses_succ, hrun]
      dsimp only
      rw [takePasses_succ, hrun']
    · rw [htext, List.replicate_zero, List.append_nil]
  | succ n ih =>
    -- one pass puts the next parenthesis there
    obtain ⟨answer, w₁, hrun, rfl, hbetween⟩ := h.answers_pass settings
      (List.cons_ne_nil ')' []) hcut.isBehindInk (by decide) fun w' hready =>
        hcut.firstInserts hready.root_eq hready.caret
    have hnext : IsCutOff (text ++ [')']) n := by
      rw [Nat.add_comm] at hcut
      exact hcut.append
    obtain ⟨w₂, hrun', htext, hcaret, hhole⟩ := ih hnext hbetween (taken + 1)
    refine ⟨w₂, ?_, ?_, hcaret, hhole⟩
    · rw [show n + 1 + 2 + more = n + 2 + more + 1 by omega, takePasses_succ, hrun]
      dsimp only
      rw [hrun', show taken + 1 + n + 2 = taken + (n + 1) + 2 by omega]
    · rw [htext, List.append_assoc text, List.replicate_succ]
      rfl

/-- **Lost parentheses are put back.**  Where the text of an expression begins and ends with ink and
has lost parentheses at its end, a completion at its end puts them back, puts the semicolon behind
them and goes to a new line.  There is no need to ask what the parentheses close: at the end of an
expression they close arguments or an expression. -/
theorem run_closes_parentheses (settings : Settings) (e : Editor) {n : Nat}
    (hsource : settings.source = .codeFragment) (hpasses : n + 2 ≤ settings.maxPasses)
    (hcut : IsCutOff e.text n) :
    let after := run settings .never (e.moveCaret e.text.size)
    after.editor.text = e.text ++ List.replicate n ')' ++ [';', '\n']
      ∧ after.editor.caret = after.editor.text.size ∧ after.outcome = .completed
      ∧ after.passes = n + 2 ∧ after.hole? = none := by
  intro after
  set start := e.moveCaret e.text.size
  have hcaret : start.caret = e.text.size := Editor.caret_moveCaret (List.append_nil _).symm
  have hbegun : Between e.text (begun settings start) :=
    ⟨rfl, hsource, Snapshot.tracks_ofDocument _ _, hcaret ▸ hcut.isBehindInk, nofun⟩
  obtain ⟨more, hmore⟩ := Nat.exists_eq_add_of_le hpasses
  obtain ⟨w, hrun, htext, hcaret', hhole⟩ := hbegun.exists_takePasses settings hcut
    start.text start.caret more 0
  have hafter := run_eq settings .never start
  rw [passesOf, hmore, hrun] at hafter
  rw [show after = _ from hafter]
  exact ⟨htext, hcaret', rfl, Nat.zero_add _ ▸ rfl, hhole⟩

/-- A call in the arguments of another one has lost both parentheses. -/
theorem run_closes_parentheses_of_calls :
    let settings : Settings := { source := .codeFragment, maxPasses := 4 }
    let e := Editor.ofText ['f', '(', 'g', '(', 'a']
    let after := run settings .never (e.moveCaret e.text.size)
    settings.source = .codeFragment ∧ 2 + 2 ≤ settings.maxPasses ∧ IsCutOff e.text 2
      ∧ after.editor.text = e.text ++ List.replicate 2 ')' ++ [';', '\n']
      ∧ after.editor.caret = after.editor.text.size ∧ after.outcome = .completed
      ∧ after.passes = 2 + 2 ∧ after.hole? = none := by
  intro settings e
  have hpasses : 2 + 2 ≤ settings.maxPasses := Nat.le_refl 4
  have hcut : IsCutOff e.text 2 := ⟨by decide +kernel, ⟨'f', rfl, rfl⟩, ⟨'a', rfl, rfl⟩⟩
  exact ⟨rfl, hpasses, hcut, run_closes_parentheses settings e rfl hpasses hcut⟩

end Completion

end StatementCompletion
