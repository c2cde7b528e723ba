import StatementCompletion.Proofs.Grammar.Growth
import StatementCompletion.Proofs.Token.Quotes

/-!
# How literals end

The scanner of a literal in quotes goes forward, takes what is behind a backslash along with it, and
stops behind the first quote that is left, or where the line or the text ends.  `ScansTo` is a run
of this scanner that also says which of the three it was.

The repair sees nothing but the text of the literal, and counts the backslashes in front of its last
character.  `isOpenLiteral_iff_of_ofText` says that the two agree on the literals that come from a
text.  What carries the induction is `Repair.Unclosed`: in front of the next character that the
scanner looks at, the backslashes are even in number and there is no closing quote.
-/

namespace StatementCompletion

/-- What the scanner of a literal in quotes has stopped at. -/
inductive LiteralEnd where
  | quote
  | lineBreak
  | textEnd
deriving DecidableEq

namespace Token

/-! ## Runs of the scanner -/

/-- What is behind a literal that is cut off. -/
inductive CutsOff : Text → LiteralEnd → Prop where
  | lineBreak {c : Char} (rest : Text) : isReturn c = true → CutsOff (c :: rest) .lineBreak
  | textEnd : CutsOff [] .textEnd

/-- The scanner of a literal takes a text, leaves another one, and has stopped at something. -/
inductive ScansTo (quote : Char) : Text → Text → LiteralEnd → Prop where
  | closing (left : Text) : ScansTo quote [quote] left .quote
  | cutOff {left : Text} {ending : LiteralEnd} : CutsOff left ending → ScansTo quote [] left ending
  | cutOffEscape {left : Text} {ending : LiteralEnd} :
      CutsOff left ending → ScansTo quote ['\\'] left ending
  | escaped {c : Char} {taken left : Text} {ending : LiteralEnd} :
      isReturn c = false → ScansTo quote taken left ending →
        ScansTo quote ('\\' :: c :: taken) left ending
  | plain {c : Char} {taken left : Text} {ending : LiteralEnd} :
      isReturn c = false → c ≠ '\\' → c ≠ quote → ScansTo quote taken left ending →
        ScansTo quote (c :: taken) left ending

variable {quote : Char} {taken left : Text} {ending ending' : LiteralEnd}

theorem CutsOff.unique (h : CutsOff left ending) (h' : CutsOff left ending') :
    ending = ending' := by
  cases h <;> cases h' <;> rfl

theorem CutsOff.ne_quote (h : CutsOff left ending) : ending ≠ .quote := by
  cases h <;> exact nofun

theorem CutsOff.quoted_eq (h : CutsOff left ending) : quoted quote left = ([], left) := by
  cases h with
  | lineBreak rest hc => exact quoted_of_head_isReturn fun d hd => Option.some.inj hd ▸ hc
  | textEnd => rfl

theorem CutsOff.quoted_escape (h : CutsOff left ending) :
    quoted quote ('\\' :: left) = (['\\'], left) := by
  cases h with
  | lineBreak rest hc =>
    rw [quoted.eq_def]
    simp [hc, show isReturn '\\' = false from rfl]
  | textEnd => rfl

/-- Every run of the scanner is one of these. -/
theorem exists_scansTo (quote : Char) (text : Text) :
    ∃ ending, ScansTo quote (quoted quote text).1 (quoted quote text).2 ending := by
  fun_induction quoted quote text with
  | case1 => exact ⟨_, .cutOff .textEnd⟩
  | case2 c rest hc => exact ⟨_, .cutOff (.lineBreak rest hc)⟩
  | case3 => exact ⟨_, .cutOffEscape .textEnd⟩
  | case4 c rest hc => exact ⟨_, .cutOffEscape (.lineBreak rest hc)⟩
  | case5 c rest hc taken left heq _ ih =>
    rw [heq] at ih
    obtain ⟨ending, hscans⟩ := ih
    exact ⟨ending, .escaped (Bool.eq_false_iff.2 hc) hscans⟩
  | case6 rest => exact ⟨_, .closing rest⟩
  | case7 c rest hc hslash hquote taken left heq ih =>
    rw [heq] at ih
    obtain ⟨ending, hscans⟩ := ih
    exact ⟨ending, .plain (Bool.eq_false_iff.2 hc) hslash hquote hscans⟩

/-- Such a run is one of the scanner. -/
theorem ScansTo.quoted_eq (hslash : quote ≠ '\\') (hreturn : isReturn quote = false)
    (h : ScansTo quote taken left ending) : quoted quote (taken ++ left) = (taken, left) := by
  induction h with
  | closing left => exact quoted_quote hslash hreturn left
  | cutOff hoff => exact hoff.quoted_eq
  | cutOffEscape hoff => exact hoff.quoted_escape
  | @escaped c taken left ending hc _ ih =>
    rw [List.cons_append, List.cons_append, quoted_escaped hc, ih]
  | @plain c taken left ending hc hplain hother _ ih =>
    rw [List.cons_append, quoted_plain hc hplain hother, ih]

/-- A scanner that does not stop at a quote stops where the line or the text ends. -/
theorem ScansTo.cutsOff (h : ScansTo quote taken left ending) (hopen : ending ≠ .quote) :
    CutsOff left ending := by
  induction h with
  | closing left => exact absurd rfl hopen
  | cutOff hoff => exact hoff
  | cutOffEscape hoff => exact hoff
  | escaped _ _ ih => exact ih hopen
  | plain _ _ _ _ ih => exact ih hopen

/-- Where it has stopped at a quote, it does not matter what is behind. -/
theorem ScansTo.behind_quote (h : ScansTo quote taken left ending) (hending : ending = .quote)
    (left' : Text) :
    ScansTo quote taken left' .quote := by
  induction h with
  | closing left => exact .closing left'
  | cutOff hoff => exact absurd hending hoff.ne_quote
  | cutOffEscape hoff => exact absurd hending hoff.ne_quote
  | escaped hc _ ih => exact .escaped hc (ih hending)
  | plain hc hplain hother _ ih => exact .plain hc hplain hother (ih hending)

end Token

namespace Repair

open Token (ScansTo)

/-! ## Counting backslashes -/

variable {quote c : Char} {front taken left text : Text} {ending ending' : LiteralEnd}

theorem backslashes_cons_self (text : Text) :
    backslashes ('\\' :: text) = backslashes text + 1 := by
  simp [backslashes]

theorem backslashes_cons (hc : c ≠ '\\') (text : Text) : backslashes (c :: text) = 0 := by
  simp [backslashes, hc]

theorem lacksQuote_concat_iff : lacksQuote (front ++ [c]) quote = true
    ↔ front = [] ∨ c ≠ quote ∨ backslashes front.reverse % 2 = 1 := by
  rw [lacksQuote, List.reverse_concat]
  simp [backslashes, or_assoc]

/-- The front of a literal, up to where the scanner looks at the next character: each quote in it
but the first has a backslash of its own. -/
structure Unclosed (quote : Char) (front : Text) : Prop where
  nonempty : front ≠ []
  even : backslashes front.reverse % 2 = 0
  lacks : lacksQuote front quote = true

theorem unclosed_quote (hslash : quote ≠ '\\') : Unclosed quote [quote] := by
  refine ⟨List.cons_ne_nil _ _, ?_, rfl⟩
  rw [List.reverse_singleton, backslashes_cons hslash]

theorem unclosed_concat (hplain : c ≠ '\\') (hother : c ≠ quote) (front : Text) :
    Unclosed quote (front ++ [c]) := by
  refine ⟨List.concat_ne_nil _ _, ?_, lacksQuote_concat_iff.2 (.inr (.inl hother))⟩
  rw [List.reverse_concat, backslashes_cons hplain]

/-- A backslash and the character that it takes along leave the number of backslashes even. -/
theorem Unclosed.escaped (h : Unclosed quote front) (c : Char) :
    Unclosed quote (front ++ ['\\'] ++ [c]) := by
  have hodd : backslashes (front ++ ['\\']).reverse % 2 = 1 := by
    have heven := h.even
    rw [List.reverse_concat, backslashes_cons_self]
    omega
  refine ⟨List.concat_ne_nil _ _, ?_, lacksQuote_concat_iff.2 (.inr (.inr hodd))⟩
  rw [List.reverse_concat]
  by_cases hc : c = '\\'
  · rw [hc, backslashes_cons_self]
    omega
  · rw [backslashes_cons hc]

/-- **Where the count closes a literal the scanner does, and nowhere else.** -/
theorem lacksQuote_iff_of_scansTo (hslash : quote ≠ '\\') (h : ScansTo quote taken left ending)
    (hfront : Unclosed quote front) :
    lacksQuote (front ++ taken) quote = true ↔ ending ≠ .quote := by
  induction h generalizing front with
  | closing left =>
    rw [lacksQuote_concat_iff]
    simp [hfront.nonempty, hfront.even]
  | cutOff hoff => simp [hfront.lacks, hoff.ne_quote]
  | cutOffEscape hoff =>
    rw [lacksQuote_concat_iff]
    simp [hslash.symm, hoff.ne_quote]
  | @escaped c taken left ending _ _ ih =>
    have hmore := ih (hfront.escaped c)
    rwa [List.append_assoc, List.append_assoc] at hmore
  | @plain c taken left ending _ hplain hother _ ih =>
    have hmore := ih (unclosed_concat hplain hother front)
    rwa [List.append_assoc] at hmore

/-- The scanner stops in one way only. -/
theorem scansTo_unique (hslash : quote ≠ '\\') (h : ScansTo quote taken left ending)
    (h' : ScansTo quote taken left ending') : ending' = ending := by
  have hclosed : ending' ≠ .quote ↔ ending ≠ .quote :=
    (lacksQuote_iff_of_scansTo hslash h' (unclosed_quote hslash)).symm.trans
      (lacksQuote_iff_of_scansTo hslash h (unclosed_quote hslash))
  by_cases hopen : ending = .quote
  · rw [hopen]
    by_contra hne
    exact hclosed.1 hne hopen
  · exact (h'.cutsOff (hclosed.2 hopen)).unique (h.cutsOff hopen)

/-- A closed literal is scanned as such whatever is behind it. -/
theorem quoted_of_isTerminated {token : Token} (hquote : closingQuote? token.kind = some quote)
    (hclosed : isTerminated token = true) (htext : token.text = quote :: taken)
    (h : Token.quoted quote (taken ++ left) = (taken, left)) (left' : Text) :
    Token.quoted quote (taken ++ left') = (taken, left') := by
  have hslash := Token.plain_of_closingQuote? hquote
  obtain ⟨ending, hscans⟩ := Token.exists_scansTo quote (taken ++ left)
  rw [h] at hscans
  have hlacks : lacksQuote ([quote] ++ taken) quote = false := by
    have hopen := isOpenLiteral_eq_false hclosed
    rwa [isOpenLiteral, Node.kind, Node.ownText, hquote, Option.any_some, htext] at hopen
  have hending : ending = .quote := by
    by_contra hne
    rw [(lacksQuote_iff_of_scansTo hslash.1 hscans (unclosed_quote hslash.1)).2 hne] at hlacks
    cases hlacks
  exact (hscans.behind_quote hending left').quoted_eq hslash.1 hslash.2

theorem isOpenLiteral_node_iff {token : Token} (hquote : closingQuote? token.kind = some quote) :
    isOpenLiteral token.node = true ↔ lacksQuote token.text quote = true := by
  rw [isOpenLiteral, Token.kind_node, Token.ownText_node, hquote, Option.any_some]

/-- **The repair and the scanner agree on open literals.**  A literal among the tokens of a text is
its quote and what the scanner takes behind that, up to what it stops at.  The repair takes the
literal for open exactly if that is the end of the line or of the text, and no quote. -/
theorem isOpenLiteral_iff_of_ofText {front back : List Token} {token : Token}
    (htokens : Token.ofText text = front ++ token :: back)
    (hquote : closingQuote? token.kind = some quote) :
    ∃ taken, token.text = quote :: taken
      ∧ Token.quoted quote (taken ++ back.flatMap (·.text)) = (taken, back.flatMap (·.text))
      ∧ (∃! ending, ScansTo quote taken (back.flatMap (·.text)) ending)
      ∧ ∀ ending, ScansTo quote taken (back.flatMap (·.text)) ending →
        (isOpenLiteral token.node = true ↔ ending = .lineBreak ∨ ending = .textEnd) := by
  have hlexed := Token.lexed_ofText text
  rw [htokens] at hlexed
  obtain ⟨hcuts, -⟩ := hlexed.of_append.of_cons
  obtain ⟨rest, htext, hleft⟩ := hcuts.exists_quoted hquote
  have hslash := Token.plain_of_closingQuote? hquote
  obtain ⟨ending, hscans⟩ := Token.exists_scansTo quote rest
  rw [← hleft] at hscans
  refine ⟨_, htext, hscans.quoted_eq hslash.1 hslash.2, ⟨ending, hscans, fun other hother => ?_⟩,
    fun other hother => ?_⟩
  · exact scansTo_unique hslash.1 hscans hother
  · rw [isOpenLiteral_node_iff hquote, htext]
    have hiff := lacksQuote_iff_of_scansTo hslash.1 hother (unclosed_quote hslash.1)
    rw [List.singleton_append] at hiff
    rw [hiff]
    cases other <;> simp

/-- A string that ends with an escaped quote goes up to the line break, and a character behind it is
closed behind an escaped backslash. -/
theorem isOpenLiteral_of_escapes :
    let string : Token := { kind := .stringLiteral, text := ['"', 'x', '\\', '"'] }
    let gap : Token := { kind := .whitespace, text := ['\n'] }
    let char : Token := { kind := .charLiteral, text := ['\'', '\\', '\\', '\''] }
    let text : Text := ['"', 'x', '\\', '"', '\n', '\'', '\\', '\\', '\'']
    (Token.ofText text = [] ++ string :: [gap, char]
      ∧ Token.ofText text = [string, gap] ++ char :: [])
      ∧ (closingQuote? string.kind = some '"' ∧ closingQuote? char.kind = some '\'')
      ∧ (ScansTo '"' ['x', '\\', '"'] ['\n', '\'', '\\', '\\', '\''] .lineBreak
        ∧ isOpenLiteral string.node = true)
      ∧ ScansTo '\'' ['\\', '\\', '\''] [] .quote ∧ isOpenLiteral char.node = false := by
  intro string gap char text
  have hstring : Token.ofText text = [] ++ string :: [gap, char] := by decide +kernel
  have hchar : Token.ofText text = [string, gap] ++ char :: [] := by decide +kernel
  have hbroken : ScansTo '"' ['x', '\\', '"'] ['\n', '\'', '\\', '\\', '\''] .lineBreak :=
    .plain rfl (by decide) (by decide) (.escaped rfl (.cutOff (.lineBreak _ rfl)))
  have hclosing : ScansTo '\'' ['\\', '\\', '\''] [] .quote := .escaped rfl (.closing [])
  refine ⟨⟨hstring, hchar⟩, ⟨rfl, rfl⟩, ⟨hbroken, ?_⟩, hclosing, ?_⟩
  · have hquote : closingQuote? string.kind = some '"' := rfl
    obtain ⟨taken, htaken, -, -, hopen⟩ := isOpenLiteral_iff_of_ofText hstring hquote
    obtain rfl := (List.cons.inj htaken).2
    exact (hopen _ hbroken).2 (.inl rfl)
  · have hquote : closingQuote? char.kind = some '\'' := rfl
    obtain ⟨taken, htaken, -, -, hopen⟩ := isOpenLiteral_iff_of_ofText hchar hquote
    obtain rfl := (List.cons.inj htaken).2
    rw [Bool.eq_false_iff]
    intro htrue
    simpa using (hopen _ hclosing).1 htrue

end Repair

end StatementCompletion
