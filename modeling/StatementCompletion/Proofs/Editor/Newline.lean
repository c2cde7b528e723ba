import Mathlib.Data.List.TakeWhile
import StatementCompletion.Editor.Newline
import StatementCompletion.Proofs.Editor
import StatementCompletion.Proofs.Text.Lines

/-!
# A new line that is not refused

Breaking the line slices it up to the caret and from the caret on, so it succeeds where the caret is
not behind the end of its line.  That is so at the end of a line, and wherever a cut parts no
carriage return from its line feed.  What it does to the text is to put a line feed and more white
space in the place of the blanks behind the caret.
-/

namespace StatementCompletion

namespace Text

theorem indentation_append (text : Text) :
    text.indentation ++ text.drop text.indentation.length = text :=
  List.prefix_iff_eq_append.1 (List.takeWhile_prefix _)

theorem isBlank_of_mem_indentation {text : Text} {c : Char} (h : c ∈ text.indentation) :
    isBlank c = true :=
  List.mem_takeWhile_imp h

end Text

/-- A level of indentation is spaces or tabs. -/
theorem CodeStyle.mem_indentUnit {style : CodeStyle} {c : Char} (h : c ∈ style.indentUnit) :
    c = ' ' ∨ c = '\t' := by
  unfold indentUnit at h
  split at h
  · exact .inr (List.mem_singleton.1 h)
  · exact .inl (List.eq_of_mem_replicate h)

namespace Editor

variable {original : Text} {slots : List Nat} {e : Editor}

/-- A caret that is not behind the end of its line. -/
def FitsLine (e : Editor) : Prop :=
  e.caret ≤ e.text.lineEnd (e.text.lineOf e.caret)

/-- In the place of the blanks behind an offset there is a line feed and more white space. -/
def IsBrokenAt (offset : Nat) (old new : Text) : Prop :=
  ∃ before blank after gap, old = before ++ blank ++ after ∧ before.size = offset
    ∧ (∀ c ∈ blank, Text.isBlank c = true) ∧ gap.head? = some '\n'
    ∧ (∀ c ∈ gap, Token.isSpace c = true) ∧ new = before ++ gap ++ after

/-- The indentation of the line that is opened behind some text of the caret's line. -/
def innerIndent (e : Editor) (style : CodeStyle) (before : Text) : Text :=
  if before.trimEnd.getLast? = some '\x7b' then e.text.lineIndent e.caret ++ style.indentUnit
  else e.text.lineIndent e.caret

theorem isBlank_of_mem_innerIndent {style : CodeStyle} {before : Text} {c : Char}
    (h : c ∈ e.innerIndent style before) : Text.isBlank c = true := by
  have hindent : ∀ c ∈ e.text.lineIndent e.caret, Text.isBlank c = true := fun _ =>
    Text.isBlank_of_mem_indentation
  have hunit : ∀ c ∈ style.indentUnit, Text.isBlank c = true := fun c hc => by
    rcases CodeStyle.mem_indentUnit hc with rfl | rfl <;> rfl
  unfold innerIndent at h
  split at h
  · exact List.forall_mem_append.2 ⟨hindent, hunit⟩ c h
  · exact hindent c h

/-- Breaking the line replaces the blanks behind the caret by the line feed, the indentation and
what a closing brace behind them needs, and puts the caret behind the indentation. -/
theorem exists_breakLine (hcaret : e.text.isBoundary e.caret = true) (hfits : e.FitsLine)
    (style : CodeStyle) :
    ∃ front before blank after closing, e.text = front ++ before ++ blank ++ after
      ∧ front.size = e.text.lineStart (e.text.lineOf e.caret) ∧ (front ++ before).size = e.caret
      ∧ (∀ c ∈ blank, Text.isBlank c = true)
      ∧ (closing = [] ∨ closing = '\n' :: e.text.lineIndent e.caret)
      ∧ e.breakLine style
        = (e.replace (.behind (front ++ before) blank)
            ('\n' :: e.innerIndent style before ++ closing) >>= fun broken =>
          pure (broken.moveCaret (e.caret + 1 + (e.innerIndent style before).size))) := by
  have hline := Text.lineOf_lt e.text e.caret
  -- the caret and the ends of its line are boundaries
  obtain ⟨front, before, rest, hfront, hspanBefore⟩ := Text.exists_behind
    (Text.isBoundary_lineStart _) hcaret (Text.lineStart_lineOf_le e.text e.caret)
  have hbefore := Document.slice_append (d := e.document) hfront
  obtain ⟨upTo, lineAfter, after, hafter, hspanAfter⟩ :=
    Text.exists_behind hcaret (Text.isBoundary_lineEnd hline) hfits
  have hslice := Document.slice_append (d := e.document) hafter
  have hupTo : upTo.size = e.caret := (congrArg Span.start hspanAfter).symm
  have hstop : (front ++ before).size = e.caret := by
    rw [Text.size_append]
    exact (congrArg Span.stop hspanBefore).symm
  obtain ⟨rfl, -⟩ : front ++ before = upTo ∧ rest = lineAfter ++ after :=
    Text.append_inj_of_size (by rw [← hfront, hafter, List.append_assoc]) (hstop.trans hupTo.symm)
  rw [← hspanBefore] at hbefore
  rw [← hspanAfter] at hslice
  refine ⟨front, before, lineAfter.indentation,
    lineAfter.drop lineAfter.indentation.length ++ after, if before.trimEnd.getLast? = some '\x7b'
      ∧ (lineAfter.drop lineAfter.indentation.length).head? = some '\x7d'
    then '\n' :: e.text.lineIndent e.caret else [], ?_,
    (congrArg Span.start hspanBefore).symm, hstop, fun _ => Text.isBlank_of_mem_indentation, ?_, ?_⟩
  · rw [hafter, List.append_assoc, List.append_assoc _ lineAfter.indentation,
      ← List.append_assoc lineAfter.indentation, Text.indentation_append]
  · split
    · exact .inr rfl
    · exact .inl rfl
  · unfold Editor.breakLine
    simp only [hbefore, hslice]
    rw [Span.behind, hstop]
    rfl

theorem Keeps.breakLine_text (h : e.Keeps original slots) (hfits : e.FitsLine) (style : CodeStyle) :
    Succeeds (e.breakLine style) fun e' =>
      Follows original slots e e' ∧ IsBrokenAt e.caret e.text e'.text := by
  obtain ⟨front, before, blank, after, closing, htext, -, hcaret, hblank, hclosing, hbreak⟩ :=
    exists_breakLine h.caret hfits style
  have hgap : ∀ c ∈ '\n' :: e.innerIndent style before ++ closing, Token.isSpace c = true := by
    simp only [List.forall_mem_append, List.forall_mem_cons, List.cons_append]
    refine ⟨rfl, fun c hc => Text.isSpace_of_isBlank (isBlank_of_mem_innerIndent hc), ?_⟩
    rcases hclosing with rfl | rfl
    · exact List.forall_mem_nil _
    · exact List.forall_mem_cons.2 ⟨rfl, fun c hc =>
        Text.isSpace_of_isBlank (Text.isBlank_of_mem_indentation hc)⟩
  have hink : blank.ink = [] := Text.ink_eq_nil fun c hc => Text.isSpace_of_isBlank (hblank c hc)
  rw [hbreak]
  refine (h.replace htext (hink ▸ List.nil_sublist _)).bind fun e' ⟨hfollows, htext'⟩ => ?_
  exact .ok ⟨hfollows.trans (hfollows.keeps.moveCaret _),
    _, blank, after, _, htext, hcaret, hblank, rfl, hgap, htext'⟩

/-- The end of a line is not behind the end of the line that holds it. -/
theorem fitsLine_lineEnd (e : Editor) :
    (e.moveCaret (e.text.lineEnd (e.text.lineOf e.caret))).FitsLine := by
  have hline := Text.lineOf_lt e.text e.caret
  unfold FitsLine moveCaret
  rw [Text.floorBoundary_of_isBoundary (Text.isBoundary_lineEnd hline)]
  exact Text.lineEnd_le_lineEnd_lineOf hline

theorem Keeps.openLine_text (h : e.Keeps original slots) (style : CodeStyle) :
    Succeeds (e.openLine style) fun e' => Follows original slots e e'
      ∧ IsBrokenAt (e.text.lineEnd (e.text.lineOf e.caret)) e.text e'.text := by
  have hboundary := Text.isBoundary_lineEnd (Text.lineOf_lt e.text e.caret)
  have hmove := h.moveCaret (e.text.lineEnd (e.text.lineOf e.caret))
  refine (hmove.keeps.breakLine_text (fitsLine_lineEnd e) style).mono fun e' ⟨he', hbroken⟩ => ?_
  refine ⟨hmove.trans he', ?_⟩
  rwa [Editor.moveCaret, Text.floorBoundary_of_isBoundary hboundary] at hbroken

theorem Keeps.openLine (h : e.Keeps original slots) (style : CodeStyle) :
    Succeeds (e.openLine style) (Follows original slots e) :=
  (h.openLine_text style).mono fun _ => And.left

/-! ### At the end of the first line -/

theorem trimEnd_of_ink {line : Text} {c : Char} (hc : line.getLast? = some c)
    (hspace : Text.isWhiteSpace c = false) : line.trimEnd = line := by
  obtain ⟨front, rfl⟩ := List.getLast?_eq_some_iff.1 hc
  simp [Text.trimEnd, hspace]

/-- At the end of a first line that is not indented, a new line is indented only in a block. -/
theorem breakLine_eq {line rest : Text} (htext : e.text = line ++ rest)
    (hline : Text.IsFirstLine line e.text) {b c : Char} (hb : line.head? = some b)
    (hblank : Text.isBlank b = false) (hc : line.getLast? = some c)
    (hspace : Text.isWhiteSpace c = false) (hcaret : e.caret = line.size) (style : CodeStyle)
    {inner : Text} (hinner : inner = if c = '\x7b' then style.indentUnit else []) :
    ∃ e', e.breakLine style = .ok e' ∧ e'.text = line ++ '\n' :: inner ++ rest
      ∧ e'.caret = line.size + 1 + inner.size := by
  have htext' : e.text = line ++ [] ++ rest := by rw [List.append_nil, htext]
  have hbefore : e.document.slice { start := 0, stop := line.size } = .ok line := by
    have hslice : e.document.slice (.behind [] line) = .ok line := Document.slice_append htext
    rwa [Span.behind, Text.size, Nat.zero_add] at hslice
  have hafter : e.document.slice { start := line.size, stop := line.size } = .ok [] :=
    Document.slice_append (d := e.document) htext'
  obtain ⟨d, hreplace, hd, -⟩ := replace_append htext' ('\n' :: inner)
  -- on the line of the caret there is nothing behind it
  have hbreak : e.breakLine style = (e.replace (.behind line []) ('\n' :: inner)).bind fun broken =>
      .ok (broken.moveCaret (line.size + 1 + inner.size)) := by
    have hinner' : (if line.trimEnd.getLast? = some '\x7b' then [] ++ style.indentUnit else [])
        = inner := by
      rw [trimEnd_of_ink hc hspace, hc, hinner, List.nil_append]
      simp only [Option.some.injEq]
    unfold breakLine
    simp only [hcaret, hline.lineOf_eq (Nat.le_refl _), Text.IsFirstLine.lineStart_eq,
      hline.lineEnd_eq, hline.lineIndent_eq hb hblank (Nat.le_refl _), hbefore, hafter]
    show ((e.replace _ ('\n' :: (if _ then [] ++ style.indentUnit else [])
      ++ (if _ ∧ none = some '\x7d' then _ else []))).bind _) = _
    simp only [hinner', reduceCtorEq, and_false, if_false, List.append_nil]
    rfl
  rw [hreplace] at hbreak
  refine ⟨_, hbreak, hd, ?_⟩
  have hsize : (line ++ '\n' :: inner).size = line.size + 1 + inner.size := by
    have hfeed : Char.utf8Size '\n' = 1 := rfl
    rw [Text.size_append, Text.size, hfeed, Nat.add_assoc]
  rw [moveCaret, ← hsize]
  show Text.floorBoundary _ d.text = _
  rw [hd, Text.floorBoundary_append]

end Editor

end StatementCompletion
