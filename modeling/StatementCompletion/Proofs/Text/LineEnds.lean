import StatementCompletion.Proofs.Document
import StatementCompletion.Proofs.Text.Breaks

/-!
# Where a line ends

A line is some characters that are no breaks, and behind them the one break that ends it, or nothing
if it is the last line.  `lineEnd` is between the two where the break is a line feed, a carriage
return or the pair of them.  Any other break is left on its line, so `lineEnd` is behind it, and
that place is the start of the next line.
-/

namespace StatementCompletion.Text

variable {text line : Text} {k offset : Nat}

/-! ## The break behind a line -/

/-- The break that ends a line; nothing for the last line. -/
def lineBreak (text : Text) (k : Nat) : Text :=
  (text.lines[k]?.getD []).dropWhile (!isBreak ·)

/-- One break: a character that ends a line, or a carriage return with its line feed. -/
def IsOneBreak (ending : Text) : Prop :=
  (∃ c, isBreak c = true ∧ ending = [c]) ∨ ending = ['\r', '\n']

/-- There are only line feeds and carriage returns. -/
def IsReturns (ending : Text) : Prop :=
  ∀ c ∈ ending, c = '\n' ∨ c = '\r'

instance (ending : Text) : Decidable ending.IsReturns :=
  List.decidableBAll (fun c => c = '\n' ∨ c = '\r') ending

/-- A line ends with a line feed, a carriage return or the pair of them, or with the text. -/
def EndsInReturns (text : Text) (k : Nat) : Prop :=
  IsReturns (text.lineBreak k)

instance (text : Text) (k : Nat) : Decidable (text.EndsInReturns k) :=
  inferInstanceAs (Decidable (IsReturns (text.lineBreak k)))

theorem IsOneBreak.ne_nil {ending : Text} (h : IsOneBreak ending) : ending ≠ [] := by
  rcases h with ⟨c, -, rfl⟩ | rfl <;> exact List.cons_ne_nil _ _

theorem dropWhile_append_break {content : Text} (hcontent : ∀ c ∈ content, isBreak c = false)
    (ending : Text) (hending : ∀ c, ending.head? = some c → isBreak c = true) :
    (content ++ ending).dropWhile (!isBreak ·) = ending := by
  rw [List.dropWhile_append_of_pos fun c hc => by rw [hcontent c hc]; rfl]
  cases ending with
  | nil => rfl
  | cons c rest =>
    rw [List.dropWhile_cons_of_neg]
    rw [hending c rfl]
    exact Bool.false_ne_true

/-- A line is its content and its break, and only a break made of returns is dropped. -/
theorem IsLine.exists_content (h : IsLine line) :
    ∃ content ending, line = content ++ ending ∧ ending = line.dropWhile (!isBreak ·)
      ∧ (∀ c ∈ content, isBreak c = false) ∧ (ending = [] ∨ IsOneBreak ending)
      ∧ dropReturns line = if IsReturns ending then content else line := by
  cases h with
  | last hcontent =>
    refine ⟨line, [], (List.append_nil line).symm, ?_, hcontent, .inl rfl, ?_⟩
    · have hdrop := dropWhile_append_break hcontent [] nofun
      rwa [List.append_nil, eq_comm] at hdrop
    · rw [dropReturns_of_forall hcontent, ite_self]
  | @broken content c hcontent hc =>
    have hhead : ∀ d, [c].head? = some d → isBreak d = true := fun d hd => by
      obtain rfl := Option.some.inj hd
      exact hc
    refine ⟨content, [c], rfl, (dropWhile_append_break hcontent [c] hhead).symm, hcontent,
      .inr (.inl ⟨c, hc, rfl⟩), ?_⟩
    simp only [IsReturns, dropReturns_concat, dropReturns_of_forall hcontent,
      List.forall_mem_singleton]
  | @returned content hcontent =>
    refine ⟨content, ['\r', '\n'], rfl, ?_, hcontent, .inr (.inr rfl), ?_⟩
    · refine (dropWhile_append_break hcontent ['\r', '\n'] fun d hd => ?_).symm
      obtain rfl := Option.some.inj hd
      rfl
    · rw [if_pos (by simp [IsReturns]),
        show content ++ ['\r', '\n'] = (content ++ ['\r']) ++ ['\n'] by simp, dropReturns_concat,
          if_pos (.inl rfl), dropReturns_concat, if_pos (.inr rfl),
        dropReturns_of_forall hcontent]

/-- A line of a text between what is in front of it and what is behind it. -/
theorem exists_lineBreak (hk : k < text.lines.length) :
    ∃ front content back, text = front ++ content ++ text.lineBreak k ++ back
      ∧ front.size = text.lineStart k ∧ (∀ c ∈ content, isBreak c = false)
      ∧ (front ++ content ++ text.lineBreak k).size = text.lineStart (k + 1)
      ∧ text.lineEnd k
        = if text.EndsInReturns k then (front ++ content).size else text.lineStart (k + 1) := by
  obtain ⟨content, ending, hline, hending, hcontent, -, hdrop⟩ :=
    (isLine_of_mem_lines text _ (List.getElem_mem hk)).exists_content
  have hbreak : text.lineBreak k = ending := by
    rw [lineBreak, List.getElem?_eq_getElem hk, Option.getD_some, hending]
  have hstart : text.lineStart (k + 1)
      = size ((text.lines.take k).flatten ++ content ++ ending) := by
    rw [lineStart_add_size hk, lineStart, hline, List.append_assoc, ← size_append]
  refine ⟨(text.lines.take k).flatten, content, (text.lines.drop (k + 1)).flatten, ?_,
    rfl, hcontent, ?_, ?_⟩
  · conv_lhs => rw [lines_split hk, hline]
    rw [hbreak, List.append_assoc _ content]
  · rw [hbreak, hstart]
  · simp only [lineEnd_eq hk, hdrop, EndsInReturns, hbreak]
    split_ifs
    · rw [size_append, lineStart]
    · rw [lineStart_add_size hk]

/-- Every line but the last is ended by one break. -/
theorem isOneBreak_lineBreak (hk : k + 1 < text.lines.length) : IsOneBreak (text.lineBreak k) := by
  have hk' : k < text.lines.length := by omega
  obtain ⟨content, ending, hline, hending, hcontent, hcases, -⟩ :=
    (isLine_of_mem_lines text _ (List.getElem_mem hk')).exists_content
  rw [lineBreak, List.getElem?_eq_getElem hk', Option.getD_some, ← hending]
  refine hcases.resolve_left ?_
  rintro rfl
  -- a line that another one follows ends with a break
  have hlines : text.lines = text.lines.take k
      ++ text.lines[k] :: text.lines[k + 1] :: text.lines.drop (k + 1 + 1) := by
    rw [← List.drop_eq_getElem_cons hk, ← List.drop_eq_getElem_cons hk', List.take_append_drop]
  obtain ⟨front, c, hfront, hc⟩ := exists_break_of_lines_eq hlines
  have hno := hcontent c (by rw [← List.append_nil content, ← hline, hfront]; simp)
  rw [hc] at hno
  cases hno

/-- The last line is ended by no break. -/
theorem lineBreak_last (hk : k + 1 = text.lines.length) : text.lineBreak k = [] := by
  have hk' : k < text.lines.length := by omega
  rw [lineBreak, List.getElem?_eq_getElem hk', Option.getD_some]
  have hdrop := dropWhile_append_break (getElem_lines_last hk' hk) [] nofun
  rwa [List.append_nil] at hdrop

/-! ## The line of an offset -/

/-- An offset is on the line that starts at or before it and ends behind it, or is the last one. -/
theorem lineOf_eq_of_le (hk : k < text.lines.length) (hstart : text.lineStart k ≤ offset)
    (hstop : offset < text.lineStart (k + 1) ∨ k + 1 = text.lines.length) :
    text.lineOf offset = k := by
  have hlt := lineOf_lt text offset
  have hle := lineStart_lineOf_le text offset
  have hnext := lt_lineStart_lineOf text offset
  rcases Nat.lt_trichotomy (text.lineOf offset) k with hless | heq | hmore
  · have hmono : text.lineStart (text.lineOf offset + 1) ≤ text.lineStart k := lineStart_mono hless
    omega
  · exact heq
  · have hmono : text.lineStart (k + 1) ≤ text.lineStart (text.lineOf offset) :=
      lineStart_mono hmore
    omega

/-- Behind a break a line begins, and it goes on where there is no other break. -/
theorem lineStart_lineOf_append {before inner after : Text} {c : Char}
    (hc : before.getLast? = some c) (hbreak : isBreak c = true)
    (hreturns : KeepsReturns before (inner ++ after)) (hinner : ∀ d ∈ inner, isBreak d = false) :
    (before ++ inner ++ after).lineStart ((before ++ inner ++ after).lineOf (before ++ inner).size)
      = before.size := by
  have hlater := lineOf_lt_behind_break hc hbreak hreturns
  rw [← List.append_assoc] at hlater
  generalize htext : before ++ inner ++ after = text at hlater ⊢
  have hk := lineOf_lt text (before ++ inner).size
  have hstart := lineStart_lineOf_le text (before ++ inner).size
  have hmono : text.lineOf before.size ≤ text.lineOf (before ++ inner).size :=
    lineOf_mono (by rw [size_append]; omega)
  generalize text.lineOf (before ++ inner).size = k at hk hstart hmono ⊢
  refine Nat.le_antisymm (Nat.le_of_not_lt fun hlt => ?_) ?_
  · -- a line that starts among the characters between would start behind a break
    have hpos : 0 < k := by omega
    obtain ⟨d, hd, hdbreak⟩ := exists_break_before_line hpos hk
    have hsplit := congrArg List.flatten (List.take_append_drop k text.lines)
    rw [List.flatten_append, flatten_lines] at hsplit
    replace hsplit := hsplit.trans htext.symm
    obtain ⟨rest, hwhole, -⟩ := exists_middle hsplit hstart
    obtain ⟨first, hne, hflat, hfirst⟩ := exists_middle_of_lt hwhole hlt
    rw [hflat, List.getLast?_append_of_ne_nil _ hne] at hd
    have hno := hinner d (by rw [hfirst]; exact List.mem_append_left _ (List.mem_of_getLast? hd))
    rw [hdbreak] at hno
    cases hno
  · have hnext := lt_lineStart_lineOf text (before.size - 1)
    have hle : text.lineStart (text.lineOf (before.size - 1) + 1) ≤ text.lineStart k :=
      lineStart_mono (by omega)
    omega

/-! ## A carriage return and its line feed -/

/-- What is in front of a cut counts only if nothing is between. -/
theorem KeepsReturns.append {piece before after : Text} (h : KeepsReturns before after)
    (hpiece : before = [] → KeepsReturns piece after) : KeepsReturns (piece ++ before) after := by
  intro hlast
  by_cases hnil : before = []
  · rw [hnil, List.append_nil] at hlast
    exact hpiece hnil hlast
  · rw [List.getLast?_append_of_ne_nil _ hnil] at hlast
    exact h hlast

theorem keepsReturns_nil (after : Text) : KeepsReturns [] after := by
  intro hlast
  cases hlast

/-- No line starts between a carriage return and its line feed. -/
theorem keepsReturns_lines (text : Text) (k : Nat) :
    KeepsReturns (text.lines.take k).flatten (text.lines.drop k).flatten := by
  fun_induction lines text generalizing k with
  | case1 =>
    have hnil : (List.take k ([[]] : List Text)).flatten = [] := by cases k <;> simp
    rw [hnil]
    exact keepsReturns_nil _
  | case2 rest ih =>
    cases k with
    | zero => exact keepsReturns_nil _
    | succ k =>
      rw [List.take_succ_cons, List.flatten_cons]
      refine (ih k).append fun _ hlast => ?_
      cases hlast
  | case3 c rest hpair _ ih =>
    cases k with
    | zero => exact keepsReturns_nil _
    | succ k =>
      rw [List.take_succ_cons, List.flatten_cons, List.drop_succ_cons]
      refine (ih k).append fun hnil hlast hhead => ?_
      -- the line is the carriage return, and behind it is all the rest
      have hrest : ((lines rest).drop k).flatten = rest := by
        conv_rhs => rw [← flatten_lines rest, ← List.take_append_drop k (lines rest),
          List.flatten_append, hnil, List.nil_append]
      obtain ⟨more, hmore⟩ := List.head?_eq_some_iff.1 (hrest ▸ hhead)
      exact hpair more (Option.some.inj hlast) hmore
  | case4 c rest _ _ hnil => exact absurd hnil (lines_ne_nil rest)
  | case5 c rest _ hbreak first more hlines ih =>
    cases k with
    | zero => exact keepsReturns_nil _
    | succ k =>
      have htail := ih (k + 1)
      rw [hlines, List.take_succ_cons, List.flatten_cons, List.drop_succ_cons] at htail
      rw [List.take_succ_cons, List.flatten_cons, List.cons_append, ← List.singleton_append,
        List.drop_succ_cons]
      refine htail.append fun _ hlast => ?_
      obtain rfl := Option.some.inj hlast
      exact absurd rfl hbreak

/-- An offset between a carriage return and its line feed is not where a line starts. -/
theorem lineStart_ne_of_parted {before after : Text}
    (htext : text = before ++ ['\r'] ++ '\n' :: after)
    (k : Nat) : text.lineStart k ≠ (before ++ ['\r']).size := by
  intro heq
  have hflat := congrArg List.flatten (List.take_append_drop k text.lines)
  rw [List.flatten_append, flatten_lines] at hflat
  obtain ⟨hfront, hback⟩ := append_inj_of_size (hflat.trans htext) heq
  have hkeeps := keepsReturns_lines text k
  rw [hfront, hback] at hkeeps
  exact hkeeps (List.getLast?_concat ..) rfl

theorem lineStart_length (hk : k + 1 = text.lines.length) : text.lineStart (k + 1) = text.size := by
  rw [lineStart, hk, List.take_length, flatten_lines]

/-- In front of the pair of returns at the end of a line there is no other. -/
theorem IsLine.dropReturns_pair {first : Text} (h : IsLine (first ++ ['\r'] ++ ['\n'])) :
    dropReturns (first ++ ['\r'] ++ ['\n']) = first := by
  rw [dropReturns_concat, if_pos (.inl rfl), dropReturns_concat, if_pos (.inr rfl)]
  rcases List.eq_nil_or_concat first with rfl | ⟨front, c, rfl⟩
  · rfl
  · rw [List.concat_eq_append, dropReturns_concat, if_neg]
    intro hc
    have hbreak : isBreak c = true := by rcases hc with rfl | rfl <;> rfl
    rw [List.append_assoc] at h
    exact absurd (h.of_break (List.cons_ne_nil _ _) (by simp) hbreak).2 (by decide)

/-- Between a carriage return and its line feed the line has ended. -/
theorem lineEnd_lineOf_of_parted {before after : Text}
    (htext : text = before ++ ['\r'] ++ '\n' :: after) :
    text.lineEnd (text.lineOf (before ++ ['\r']).size) = before.size := by
  have hone : (before ++ ['\r']).size = before.size + 1 := size_append _ _
  have hk := lineOf_lt text (before ++ ['\r']).size
  have hstart := lineStart_lineOf_le text (before ++ ['\r']).size
  have hstop := lt_lineStart_lineOf text (before ++ ['\r']).size
  generalize text.lineOf (before ++ ['\r']).size = k at hk hstart hstop ⊢
  have hlt : (before ++ ['\r']).size < text.lineStart (k + 1) := by
    rcases hstop with hlt | hlast
    · exact hlt
    · have hpos : 0 < size ('\n' :: after) := size_pos (List.cons_ne_nil _ _)
      have hsize := congrArg size htext
      rw [size_append _ ('\n' :: after)] at hsize
      rw [lineStart_length hlast]
      omega
  have hle : text.lineStart k ≤ before.size := by
    have hne := lineStart_ne_of_parted htext k
    omega
  have hsplit := (lines_split hk).symm.trans htext
  rw [List.append_assoc, List.append_assoc] at hsplit
  obtain ⟨first, hbefore, hrest⟩ := exists_middle hsplit hle
  rw [← List.append_assoc] at hrest
  rw [lineStart_add_size hk, hbefore, List.append_assoc, size_append, lineStart] at hlt
  -- it is not the last character of the line, so the line feed is
  obtain ⟨behind, hbehind, hline, -⟩ := exists_middle_of_lt hrest.symm (by omega)
  have hisLine : IsLine (first ++ ['\r'] ++ behind) :=
    hline ▸ isLine_of_mem_lines text _ (List.getElem_mem hk)
  obtain ⟨-, rfl⟩ := hisLine.of_break hbehind (List.getLast?_concat ..) rfl
  rw [lineEnd_eq hk, hline, hisLine.dropReturns_pair, lineStart, hbefore, size_append]

/-! ## The end of a line -/

/-- **A line that ends with the text or in returns.**  Its end is on the line, there is no break
between its start and its end, and behind its end there is just the break that ends it. -/
theorem lineEnd_of_endsInReturns (hk : k < text.lineCount) (hreturns : text.EndsInReturns k) :
    text.lineStart k ≤ text.lineEnd k ∧ text.lineOf (text.lineEnd k) = k
      ∧ (∃ content, ({ text } : Document).slice ⟨text.lineStart k, text.lineEnd k⟩ = .ok content
        ∧ ∀ c ∈ content, isBreak c = false)
      ∧ ({ text } : Document).slice ⟨text.lineEnd k, text.lineStart (k + 1)⟩ =
        .ok (text.lineBreak k)
      ∧ if k + 1 = text.lineCount then text.lineBreak k = []
        else IsOneBreak (text.lineBreak k) := by
  obtain ⟨front, content, back, htext, hfront, hcontent, hnext, hend⟩ := exists_lineBreak hk
  rw [if_pos hreturns] at hend
  have hlast : if k + 1 = text.lineCount then text.lineBreak k = []
      else IsOneBreak (text.lineBreak k) := by
    split_ifs with hlast
    · exact lineBreak_last hlast
    · exact isOneBreak_lineBreak (Nat.lt_of_le_of_ne hk hlast)
  refine ⟨lineStart_le_lineEnd hk, lineOf_eq_of_le hk (lineStart_le_lineEnd hk) ?_,
    ⟨content, ?_, hcontent⟩, ?_, hlast⟩
  · split_ifs at hlast with hcount
    · exact .inr hcount
    · refine .inl ?_
      have hpos := size_pos hlast.ne_nil
      rw [hend, ← hnext, size_append _ (text.lineBreak k)]
      omega
  · have hslice : ({ text } : Document).slice (.behind front content) = .ok content :=
      Document.slice_append (show text = front ++ content ++ (text.lineBreak k ++ back) by
        rw [← List.append_assoc, ← htext])
    rwa [Span.behind, ← size_append, hfront, ← hend] at hslice
  · have hslice : ({ text } : Document).slice (.behind (front ++ content) (text.lineBreak k)) = _ :=
      Document.slice_append htext
    rwa [Span.behind, ← size_append, hnext, ← hend] at hslice

/-- The end of a line with another break is the start of the next line. -/
theorem lineEnd_of_not_endsInReturns (hk : k < text.lineCount) (hother : ¬text.EndsInReturns k) :
    text.lineEnd k = text.lineStart (k + 1) ∧ text.lineOf (text.lineEnd k) = k + 1 := by
  obtain ⟨_, _, _, -, -, -, -, hend⟩ := exists_lineBreak hk
  rw [if_neg hother] at hend
  have hnext : k + 1 < text.lines.length := by
    refine Nat.lt_of_le_of_ne hk fun hlast => hother ?_
    rw [EndsInReturns, IsReturns, lineBreak_last hlast]
    exact List.forall_mem_nil _
  refine ⟨hend, lineOf_eq_of_le hnext hend.ge ?_⟩
  by_cases hlast : k + 1 + 1 = text.lines.length
  · exact .inr hlast
  · obtain ⟨front, content, back, -, hfront, -, hstart, -⟩ := exists_lineBreak hnext
    have hpos := size_pos (isOneBreak_lineBreak (Nat.lt_of_le_of_ne hnext hlast)).ne_nil
    rw [size_append, size_append] at hstart
    exact .inl (by omega)

/-- **The end of a line is on its line** just if it ends with the text or in returns. -/
theorem lineOf_lineEnd_eq_iff (hk : k < text.lineCount) :
    text.lineOf (text.lineEnd k) = k ↔ text.EndsInReturns k := by
  constructor
  · intro hline
    by_contra hother
    have hnext := (lineEnd_of_not_endsInReturns hk hother).2
    omega
  · intro hreturns
    exact (lineEnd_of_endsInReturns hk hreturns).2.1

/-- The first line ends in a line separator: its end is on the second line. -/
example :
    let text : Text := ['a', '\u2028', 'b']
    text.lineEnd 0 = 4 ∧ text.lineStart 1 = 4 ∧ text.lineOf 4 = 1 := by
  decide

end StatementCompletion.Text
