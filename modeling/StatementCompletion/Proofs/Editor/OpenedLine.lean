import StatementCompletion.Proofs.Editor.Newline
import StatementCompletion.Proofs.Text.LineEnds

/-!
# Where a line can be opened

A line can be opened at every caret but one: between a carriage return and its line feed
the caret is behind the end of its line, and the span up to there is reversed.  Where it
is opened, nothing but blanks gives way to it, and the caret stands behind the new
indentation and nothing else of its line.
-/

namespace StatementCompletion.Editor

variable {e : Editor} {before after : Text}

/-! ## What is in front of the caret -/

/-- What is in front of the caret on its line. -/
def IsBehind (e : Editor) (before : Text) : Prop :=
  e.document.slice ⟨e.text.lineStart (e.text.lineOf e.caret), e.caret⟩ = .ok before

/-- A line is opened at the caret: blanks give way to it, and behind it the caret has only the new
indentation in front of it. -/
structure OpensLine (style : CodeStyle) (e e' : Editor) : Prop where
  broken : IsBrokenAt e.caret e.text e'.text
  indented : ∃ before, e.IsBehind before ∧ e'.IsBehind (e.innerIndent style before)

/-- A caret behind a line feed and blanks has these in front of it. -/
theorem isBehind_of_feed {inner : Text} (htext : e.text = before ++ ['\n'] ++ inner ++ after)
    (hinner : ∀ c ∈ inner, Text.isBlank c = true)
    (hcaret : e.caret = (before ++ ['\n'] ++ inner).size) :
    e.IsBehind inner := by
  have hplain : ∀ c ∈ inner, Text.isBreak c = false := fun c hc => by
    have hblank := hinner c hc
    simp only [Text.isBlank, Bool.or_eq_true, decide_eq_true_eq] at hblank
    rcases hblank with rfl | rfl <;> rfl
  have hreturns : Text.KeepsReturns (before ++ ['\n']) (inner ++ after) := by
    rw [Text.KeepsReturns, List.getLast?_concat]
    intro hlast
    cases hlast
  have hstart := Text.lineStart_lineOf_append (List.getLast?_concat ..) rfl hreturns hplain
  have hslice := Document.slice_append (d := e.document) htext
  rw [IsBehind, hcaret, htext, hstart, Text.size_append _ inner]
  exact hslice

/-! ## Breaking the line at the caret -/

/-- A caret is behind the end of its line just between a carriage return and its line feed. -/
theorem fitsLine_iff (htext : e.text = before ++ after) (hcaret : e.caret = before.size) :
    e.FitsLine ↔ Text.KeepsReturns before after := by
  constructor
  · rintro hfits hlast hhead
    obtain ⟨front, rfl⟩ := List.getLast?_eq_some_iff.1 hlast
    obtain ⟨rest, rfl⟩ := List.head?_eq_some_iff.1 hhead
    have hend := Text.lineEnd_lineOf_of_parted htext
    have hone : Text.size (front ++ ['\r']) = Text.size front + 1 := Text.size_append _ _
    rw [FitsLine, hcaret, hend] at hfits
    omega
  · intro hreturns
    rw [FitsLine, hcaret]
    exact Text.size_le_lineEnd_lineOf htext hreturns

theorem breakLine_opensLine (hcaret : e.text.isBoundary e.caret = true) (hfits : e.FitsLine)
    (style : CodeStyle) : Succeeds (e.breakLine style) (e.OpensLine style) := by
  obtain ⟨front, before, blank, after, closing, htext, hstart, hstop, hblank, hclosing, hbreak⟩ :=
    exists_breakLine hcaret hfits style
  set inner := e.innerIndent style before
  have hinner : ∀ c ∈ inner, Text.isBlank c = true := fun _ => isBlank_of_mem_innerIndent
  obtain ⟨d, hreplace, hd, -⟩ := replace_append htext ('\n' :: inner ++ closing)
  rw [hbreak, hreplace]
  refine .ok ⟨⟨front ++ before, blank, after, '\n' :: inner ++ closing, htext, hstop,
    hblank, rfl, ?_, hd⟩, before, ?_, ?_⟩
  · refine List.forall_mem_append.2 ⟨List.forall_mem_cons.2 ⟨rfl, fun c hc =>
      Text.isSpace_of_isBlank (hinner c hc)⟩, ?_⟩
    rcases hclosing with rfl | rfl
    · exact List.forall_mem_nil _
    · exact List.forall_mem_cons.2 ⟨rfl, fun c hc =>
        Text.isSpace_of_isBlank (Text.isBlank_of_mem_indentation hc)⟩
  · rw [IsBehind, ← hstart, ← hstop, Text.size_append]
    exact Document.slice_append (by rw [← List.append_assoc]; exact htext)
  · have hd' : d.text = front ++ before ++ ['\n'] ++ inner ++ (closing ++ after) := by
      rw [hd]
      simp
    have hsize : (front ++ before ++ ['\n'] ++ inner).size = e.caret + 1 + inner.size := by
      rw [Text.size_append, Text.size_append, hstop]
      rfl
    refine isBehind_of_feed hd' hinner ?_
    rw [← hsize]
    exact caret_moveCaret hd'

/-- Between a carriage return and its line feed breaking the line is refused. -/
theorem breakLine_of_parted (htext : e.text = before ++ ['\r'] ++ '\n' :: after)
    (hcaret : e.caret = (before ++ ['\r']).size) (style : CodeStyle) :
    e.breakLine style = .error (.reversedSpan ⟨e.caret, before.size⟩) := by
  have hend := Text.lineEnd_lineOf_of_parted htext
  have hone : (before ++ ['\r']).size = before.size + 1 := Text.size_append _ _
  have hboundary : e.text.isBoundary e.caret = true := by
    rw [htext, hcaret]
    exact Text.isBoundary_append _ _
  obtain ⟨front, inside, rest, hfront, hspan⟩ := Text.exists_behind
    (Text.isBoundary_lineStart _) hboundary (Text.lineStart_lineOf_le e.text e.caret)
  have hbefore := Document.slice_append (d := e.document) hfront
  rw [← hspan] at hbefore
  have hafter : e.document.slice ⟨e.caret, e.text.lineEnd (e.text.lineOf e.caret)⟩
      = .error (.reversedSpan ⟨e.caret, before.size⟩) := by
    rw [Document.slice, Document.cut, hcaret, hend, if_pos (hone ▸ Nat.lt_succ_self _)]
    rfl
  unfold breakLine
  simp only [hbefore, hafter]
  rfl

/-- **Breaking the line** at the caret opens a line there, unless the caret is between a carriage
return and its line feed: then it is refused. -/
theorem breakLine_spec (htext : e.text = before ++ after) (hcaret : e.caret = before.size)
    (style : CodeStyle) :
    (Text.KeepsReturns before after → Succeeds (e.breakLine style) (e.OpensLine style))
      ∧ (¬Text.KeepsReturns before after →
        e.breakLine style = .error (.reversedSpan ⟨e.caret, e.caret - 1⟩)) := by
  constructor
  · intro hreturns
    have hboundary : e.text.isBoundary e.caret = true := by
      rw [htext, hcaret]
      exact Text.isBoundary_append _ _
    exact breakLine_opensLine hboundary ((fitsLine_iff htext hcaret).2 hreturns) style
  · intro hparted
    obtain ⟨hlast, hhead⟩ := Classical.not_imp.1 hparted
    obtain ⟨front, rfl⟩ := List.getLast?_eq_some_iff.1 hlast
    obtain ⟨rest, rfl⟩ := List.head?_eq_some_iff.1 (not_not.1 hhead)
    have hone : Text.size (front ++ ['\r']) = Text.size front + 1 := Text.size_append _ _
    rw [breakLine_of_parted htext hcaret, hcaret, hone, Nat.add_sub_cancel]

/-! ## Opening a line behind the line of the caret -/

/-- **Opening a line** is not refused wherever the caret is. -/
theorem openLine_opensLine (e : Editor) (style : CodeStyle) :
    Succeeds (e.openLine style)
      ((e.moveCaret (e.text.lineEnd (e.text.lineOf e.caret))).OpensLine style) :=
  breakLine_opensLine (Text.isBoundary_floorBoundary _ _) (fitsLine_lineEnd e) style

/-- Between a carriage return and its line feed a line can be opened, but the
line cannot be broken. -/
example :
    let e := (ofText ['a', '\r', '\n']).moveCaret 2
    e.breakLine {} = .error (.reversedSpan ⟨2, 1⟩)
      ∧ (e.openLine {}).toOption.map (·.text) = some ['a', '\n', '\r', '\n'] := by
  decide

end StatementCompletion.Editor
