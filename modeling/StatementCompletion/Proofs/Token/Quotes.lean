import StatementCompletion.Proofs.Token.Front

/-!
# A quote behind an open literal

A literal that lacks its quote goes up to the end of its line.  A quote put there
becomes part of it, and what is behind is read as before.  The quote closes the literal
unless a backslash takes it along.
-/

namespace StatementCompletion.Token

open Repair (endsAtQuote backslashes closingQuote?)

variable {quote c d : Char} {rest : Text} {token : Token} {left : Text} {front back : List Token}

/-! ## The scanner character by character -/

theorem quoted_quote (hslash : quote ≠ '\\') (hreturn : isReturn quote = false) (rest : Text) :
    quoted quote (quote :: rest) = ([quote], rest) := by
  rw [quoted.eq_def]
  simp [hslash, hreturn]

theorem quoted_escaped (hd : isReturn d = false) (rest : Text) : quoted quote ('\\' :: d :: rest)
    = ('\\' :: d :: (quoted quote rest).1, (quoted quote rest).2) := by
  rw [quoted.eq_def]
  simp [hd, show isReturn '\\' = false from rfl]

theorem quoted_plain (hreturn : isReturn c = false) (hplain : c ≠ '\\') (hother : c ≠ quote)
    (rest : Text) :
    quoted quote (c :: rest) = (c :: (quoted quote rest).1, (quoted quote rest).2) := by
  rw [quoted.eq_def]
  simp [hreturn, hplain, hother]

theorem endsAtQuote_escaped (hslash : quote ≠ '\\') (d : Char) (rest : Text) :
    endsAtQuote quote ('\\' :: d :: rest) = endsAtQuote quote rest := by
  rw [endsAtQuote, if_neg hslash.symm, if_pos rfl]

theorem endsAtQuote_plain (hplain : c ≠ '\\') (hother : c ≠ quote) (rest : Text) :
    endsAtQuote quote (c :: rest) = endsAtQuote quote rest := by
  conv => lhs; unfold endsAtQuote
  rw [if_neg hother, if_neg hplain]

/-! ## A quote at the end of the line -/

/-- The quote is scanned as the last character. -/
theorem quoted_concat_quote (hslash : quote ≠ '\\') (hreturn : isReturn quote = false) (text : Text)
    (hopen : endsAtQuote quote (quoted quote text).1 = false) :
    quoted quote ((quoted quote text).1 ++ quote :: (quoted quote text).2)
      = ((quoted quote text).1 ++ [quote], (quoted quote text).2) := by
  fun_induction quoted quote text with
  | case1 => exact quoted_quote hslash hreturn []
  | case2 c rest _ => exact quoted_quote hslash hreturn (c :: rest)
  | case3 => exact quoted_escaped hreturn []
  | case4 c rest hc =>
    have hrest : quoted quote (c :: rest) = ([], c :: rest) :=
      quoted_of_head_isReturn fun d hd => Option.some.inj hd ▸ hc
    show quoted quote ('\\' :: quote :: c :: rest) = _
    rw [quoted_escaped hreturn, hrest]
    rfl
  | case5 d rest hd taken left heq _ ih =>
    rw [heq] at ih
    rw [endsAtQuote_escaped hslash] at hopen
    have hrest := ih hopen
    show quoted quote ('\\' :: d :: (taken ++ quote :: left)) = _
    rw [quoted_escaped (Bool.eq_false_iff.2 hd), hrest]
    rfl
  | case6 rest => simp [endsAtQuote] at hopen
  | case7 c rest hc hplain hother taken left heq ih =>
    rw [heq] at ih
    rw [endsAtQuote_plain hplain hother] at hopen
    have hrest := ih hopen
    show quoted quote (c :: (taken ++ quote :: left)) = _
    rw [quoted_plain (Bool.eq_false_iff.2 hc) hplain hother, hrest]
    rfl

theorem backslashes_concat (hc : c ≠ '\\') (text : Text) :
    backslashes (text ++ [c]) = backslashes text := by
  simp only [backslashes, List.takeWhile_append, List.takeWhile_cons, hc, decide_false]
  split
  · next hall => simp [hall]
  · rfl

/-- It closes the literal if it stands behind an even number of backslashes. -/
theorem endsAtQuote_concat_quote (hslash : quote ≠ '\\') (text : Text)
    (hopen : endsAtQuote quote (quoted quote text).1 = false) :
    endsAtQuote quote ((quoted quote text).1 ++ [quote]) = true
      ↔ backslashes (quoted quote text).1.reverse % 2 = 0 := by
  fun_induction quoted quote text with
  | case1 => simp [endsAtQuote, backslashes]
  | case2 c rest _ => simp [endsAtQuote, backslashes]
  | case3 => simp [endsAtQuote, backslashes, hslash.symm]
  | case4 c rest hc => simp [endsAtQuote, backslashes, hslash.symm]
  | case5 d rest hd taken left heq _ ih =>
    rw [heq] at ih
    rw [endsAtQuote_escaped hslash] at hopen
    have hreverse : ('\\' :: d :: taken).reverse = taken.reverse ++ d :: '\\' :: [] := by simp
    have hcount : backslashes (taken.reverse ++ d :: '\\' :: []) % 2 =
        backslashes taken.reverse % 2 := by
      by_cases hd : d = '\\'
      · rw [hd, Repair.backslashes_mod_two, List.append_nil]
      · rw [Repair.backslashes_stop hd, backslashes_concat hd]
    rw [hreverse, hcount, List.cons_append, List.cons_append, endsAtQuote_escaped hslash]
    exact ih hopen
  | case6 rest => simp [endsAtQuote] at hopen
  | case7 c rest hc hplain hother taken left heq ih =>
    rw [heq] at ih
    rw [endsAtQuote_plain hplain hother] at hopen
    rw [List.reverse_cons, backslashes_concat hplain, List.cons_append,
      endsAtQuote_plain hplain hother]
    exact ih hopen

/-! ## A literal with a quote behind it -/

/-- The token with a quote at the end. -/
def concatQuote (token : Token) (quote : Char) : Token :=
  { token with text := token.text ++ [quote] }

theorem cuts_quoted {kind : Kind} {taken : Text} (hkind : closingQuote? kind = some quote)
    (h : quoted quote (taken ++ left) = (taken, left)) :
    Cuts { kind, text := quote :: taken } left := by
  refine ⟨quote, taken ++ left, rfl, ?_⟩
  rcases closingQuote?_eq_some hkind with ⟨rfl, rfl⟩ | ⟨rfl, rfl⟩
  · show scanned .stringLiteral ['"'] (quoted '"' (taken ++ left)) = _
    rw [h]
    rfl
  · show scanned .charLiteral ['\''] (quoted '\'' (taken ++ left)) = _
    rw [h]
    rfl

theorem Cuts.concat_quote (h : Cuts token left) (hkind : closingQuote? token.kind = some quote)
    (hopen : Repair.isTerminated token = false) : Cuts (token.concatQuote quote) left
      ∧ (Repair.isTerminated (token.concatQuote quote) = true ↔
        backslashes token.text.reverse % 2 = 0) := by
  obtain ⟨rest, htext, rfl⟩ := h.exists_quoted hkind
  have hslash := plain_of_closingQuote? hkind
  have hends : endsAtQuote quote (quoted quote rest).1 = false := by
    rw [Repair.isTerminated, hkind, Option.all_some, htext] at hopen
    simpa using hopen
  have hcuts := quoted_concat_quote hslash.1 hslash.2 rest hends
  rw [← List.singleton_append, ← List.append_assoc] at hcuts
  have htext' : (token.concatQuote quote).text = quote :: ((quoted quote rest).1 ++ [quote]) := by
    rw [concatQuote, htext, List.cons_append]
  refine ⟨?_, ?_⟩
  · have htoken : token.concatQuote quote =
        { kind := token.kind, text := quote :: ((quoted quote rest).1 ++ [quote]) } := by
      rw [← htext']
      rfl
    rw [htoken]
    exact cuts_quoted hkind hcuts
  · rw [htext, List.reverse_cons, backslashes_concat hslash.1,
      ← endsAtQuote_concat_quote hslash.1 rest hends, Repair.isTerminated,
      show (token.concatQuote quote).kind = token.kind from rfl, hkind, Option.all_some, htext']
    simp

/-- **A quote behind an open literal is its last character, and what is behind stays.**  It closes
the literal if an even number of backslashes stands in front of it. -/
theorem Lexed.concat_quote (h : Lexed (front ++ token :: back))
    (hkind : closingQuote? token.kind = some quote)
    (hopen : Repair.isTerminated token = false) : Lexed (front ++ token.concatQuote quote :: back)
      ∧ (Repair.isTerminated (token.concatQuote quote) = true ↔
        backslashes token.text.reverse % 2 = 0) := by
  obtain ⟨hcuts, hback⟩ := h.of_append.of_cons
  obtain ⟨hcuts', hclosed⟩ := hcuts.concat_quote hkind hopen
  obtain ⟨rest, htext, -⟩ := hcuts.exists_quoted hkind
  have hedge : isEdge quote = true := by
    rcases closingQuote?_eq_some hkind with ⟨-, rfl⟩ | ⟨-, rfl⟩ <;> decide
  have htext' : (token.concatQuote quote).text = quote :: ((quoted quote rest).1 ++ [quote]) := by
    rw [concatQuote, htext, List.cons_append]
  exact ⟨h.exchange_of_isEdge hedge htext htext' (.cons hcuts' hback), hclosed⟩

/-- A quote behind one backslash is an escaped character. -/
example : Repair.isTerminated (concatQuote { kind := .charLiteral, text := ['\'', '\\'] } '\'') =
    false := by decide

end StatementCompletion.Token
