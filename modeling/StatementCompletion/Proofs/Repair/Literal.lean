import StatementCompletion.Repair.Delimiter
import StatementCompletion.Token

/-!
# Closed literals

A literal in quotes is closed by the first quote behind its own that no backslash takes along.  The
repair looks at the end of the literal instead: there has to be a quote, behind an even number of
backslashes.  A literal that is closed is closed for the repair.
-/

namespace StatementCompletion

namespace Repair

/-- Whether a text goes up to its first quote, not counting those behind a backslash. -/
def endsAtQuote (quote : Char) : Text → Bool
  | [] => false
  | c :: rest =>
    if c = quote then
      rest.isEmpty
    else if c = '\\' then
      match rest with
      | [] => false
      | _ :: rest => endsAtQuote quote rest
    else
      endsAtQuote quote rest

/-- Whether a token is no literal in quotes, or one with a quote at both ends. -/
def isTerminated (token : Token) : Bool :=
  (closingQuote? token.kind).all fun quote =>
    match token.text with
    | [] => false
    | first :: rest => first = quote && endsAtQuote quote rest

/-- The number of backslashes that a text starts with. -/
def backslashes (text : Text) : Nat :=
  (text.takeWhile (· = '\\')).length

theorem backslashes_stop {c : Char} (h : c ≠ '\\') (front back : Text) :
    backslashes (front ++ c :: back) = backslashes (front ++ [c]) := by
  simp only [backslashes, List.takeWhile_append, List.takeWhile_cons, h, decide_false]
  rfl

/-- Two backslashes more or less leave the number as even or odd as it is. -/
theorem backslashes_mod_two (front back : Text) :
    backslashes (front ++ '\\' :: '\\' :: back) % 2 = backslashes (front ++ back) % 2 := by
  simp only [backslashes, List.takeWhile_append, List.takeWhile_cons, decide_true, if_true]
  split
  · simp only [List.length_append, List.length_cons]
    omega
  · rfl

/-- The quote at the end stands behind an even number of backslashes. -/
theorem endsAtQuote_spec {quote : Char} {text : Text} (h : endsAtQuote quote text = true) :
    ∃ inside, text = inside ++ [quote]
      ∧ ∀ c, c ≠ '\\' → backslashes (inside.reverse ++ [c]) % 2 = 0 := by
  fun_induction endsAtQuote quote text with
  | case1 => cases h
  | case2 rest =>
    refine ⟨[], by simp [List.isEmpty_iff.1 h], fun c hc => ?_⟩
    simp [backslashes, hc]
  | case3 => cases h
  | case4 d rest hquote ih =>
    obtain ⟨inside, rfl, heven⟩ := ih h
    refine ⟨'\\' :: d :: inside, rfl, fun c hc => ?_⟩
    have hreverse : ('\\' :: d :: inside).reverse ++ [c]
        = inside.reverse ++ d :: '\\' :: [c] := by simp
    rw [hreverse]
    by_cases hd : d = '\\'
    · rw [hd, backslashes_mod_two, heven c hc]
    · rw [backslashes_stop hd, heven d hd]
  | case5 first rest hquote hplain ih =>
    obtain ⟨inside, rfl, heven⟩ := ih h
    refine ⟨first :: inside, rfl, fun c hc => ?_⟩
    have hreverse : (first :: inside).reverse ++ [c] = inside.reverse ++ first :: [c] := by simp
    rw [hreverse, backslashes_stop hplain, heven first hplain]

/-- A literal with a quote at both ends does not lack its quote. -/
theorem isOpenLiteral_eq_false {token : Token} (h : isTerminated token = true) :
    isOpenLiteral (.leaf token.kind token.text) = false := by
  unfold isTerminated at h
  unfold isOpenLiteral
  cases hquote : closingQuote? token.kind with
  | none => rw [Node.kind, hquote]; rfl
  | some quote =>
    have hplain : quote ≠ '\\' := by
      unfold closingQuote? at hquote
      split at hquote <;> cases hquote <;> decide
    rw [hquote, Option.all_some] at h
    rw [Node.kind, hquote, Option.any_some, Node.ownText]
    split at h
    · cases h
    · next first rest htext =>
      obtain ⟨hfirst, hrest⟩ := Bool.and_eq_true_iff.1 h
      obtain rfl : first = quote := of_decide_eq_true hfirst
      obtain ⟨inside, rfl, heven⟩ := endsAtQuote_spec hrest
      have hreverse : token.text.reverse = first :: (inside.reverse ++ [first]) := by
        rw [htext]
        simp
      have hcount : ((inside.reverse ++ [first]).takeWhile (· = '\\')).length % 2 = 0 :=
        heven first hplain
      simp [lacksQuote, hreverse, hcount]

/-- Behind the quote that is put at its end a literal is open if the backslashes in front of
the quote are odd in number. -/
theorem lacksQuote_concat {text : Text} (h : text ≠ []) (quote : Char) :
    lacksQuote (text ++ [quote]) quote = true ↔ backslashes text.reverse % 2 = 1 := by
  rw [lacksQuote, List.reverse_append, List.reverse_singleton, List.singleton_append]
  simp [h, backslashes]

/-- Nothing is done about what is no open literal. -/
theorem closeLiteral_eq_nil {c : Cursor} (h : isOpenLiteral c.node = false) :
    closeLiteral c = [] := by
  unfold closeLiteral
  split
  · next quote hquote =>
    have hkind : closingQuote? c.node.kind = some quote := hquote
    rw [isOpenLiteral, hkind, Option.any_some] at h
    rw [h]
    rfl
  · rfl

end Repair

end StatementCompletion
