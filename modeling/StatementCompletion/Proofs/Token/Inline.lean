import StatementCompletion.Grammar.Parser
import StatementCompletion.Proofs.Token.Front

/-!
# Texts on one line

A text on one line, without comments and braces, that begins and ends with ink is what a statement
is cut off behind, or what a header holds.  Its last token is no white space, and where its literals
are closed it does not end like a block.
-/

namespace StatementCompletion

namespace Text

variable {c : Char}

theorem isReturn_of_isBreak (h : isBreak c = false) : Token.isReturn c = false := by
  simp only [isBreak, Bool.or_eq_false_iff] at h
  rw [Token.isReturn, h.1.1.1.1.1.1, h.1.1.1.1.1.2]
  rfl

/-- What neither ends a line nor is blank is no white space. -/
theorem isSpace_of_ink (hbreak : isBreak c = false) (hblank : isBlank c = false) :
    Token.isSpace c = false := by
  simp only [isBreak, isBlank, Bool.or_eq_false_iff] at hbreak hblank
  simp only [Token.isSpace, hbreak, hblank, Bool.or_false]

end Text

/-- A text on one line, without comments and braces, that begins and ends with ink. -/
structure IsInline (text : Text) : Prop where
  line : ∀ c ∈ text, Text.isBreak c = false
  comments : ∀ token ∈ Token.ofText text, token.kind.isComment = false
  braces : ∀ token ∈ Token.ofText text, token.kind ≠ .leftBrace ∧ token.kind ≠ .rightBrace
  first : ∃ c, text.head? = some c ∧ Text.isBlank c = false
  last : ∃ c, text.getLast? = some c ∧ Text.isBlank c = false

instance (text : Text) : Decidable (IsInline text) :=
  have : Decidable (∀ c ∈ text, Text.isBreak c = false) :=
    List.decidableBAll (fun c => Text.isBreak c = false) text
  have hink (c? : Option Char) : c?.any (fun c => !Text.isBlank c) = true
      ↔ ∃ c, c? = some c ∧ Text.isBlank c = false := by
    simp only [Option.any_eq_true, Bool.not_eq_true']
  decidable_of_iff ((∀ c ∈ text, Text.isBreak c = false)
      ∧ (∀ token ∈ Token.ofText text, token.kind.isComment = false)
      ∧ (∀ token ∈ Token.ofText text, token.kind ≠ .leftBrace ∧ token.kind ≠ .rightBrace)
      ∧ text.head?.any (fun c => !Text.isBlank c) = true
      ∧ text.getLast?.any (fun c => !Text.isBlank c) = true)
    ⟨fun ⟨line, comments, braces, first, last⟩ =>
      ⟨line, comments, braces, (hink _).1 first, (hink _).1 last⟩,
      fun ⟨line, comments, braces, first, last⟩ =>
        ⟨line, comments, braces, (hink _).2 first, (hink _).2 last⟩⟩

namespace IsInline

variable {text : Text}

theorem ne_nil (h : IsInline text) : text ≠ [] := by
  rintro rfl
  obtain ⟨c, hc, -⟩ := h.first
  cases hc

theorem ofText_ne_nil (h : IsInline text) : Token.ofText text ≠ [] := by
  intro hnil
  have htext := (Token.ofText_spells text).flatMap_text
  rw [hnil] at htext
  exact h.ne_nil htext.symm

/-- The last token and the last character. -/
theorem exists_last (h : IsInline text) : ∃ front token c,
    Token.ofText text = front ++ [token] ∧ token.text.getLast? = some c
      ∧ text.getLast? = some c ∧ Text.isBlank c = false := by
  obtain ⟨front, token, htokens⟩ := (List.eq_nil_or_concat' _).resolve_left h.ofText_ne_nil
  obtain ⟨c, hc, hblank⟩ := h.last
  have hlexed := Token.lexed_ofText text
  have htext := (Token.ofText_spells text).flatMap_text
  rw [htokens] at hlexed htext
  obtain ⟨hcuts, -⟩ := hlexed.of_append.of_cons
  rw [List.flatMap_append, List.flatMap_singleton] at htext
  refine ⟨front, token, c, htokens, ?_, hc, hblank⟩
  rw [← hc, ← htext, List.getLast?_append_of_ne_nil _ hcuts.text_ne_nil]

/-- The last token is no white space. -/
theorem last_not_isTrivia (h : IsInline text) :
    ∀ token ∈ (Token.ofText text).getLast?, token.isTrivia = false := by
  obtain ⟨front, token, c, htokens, hc, hlast, hblank⟩ := h.exists_last
  rw [htokens, List.getLast?_concat]
  intro other hother
  obtain rfl : token = other := Option.some.inj hother
  have hmem : token ∈ Token.ofText text := by
    rw [htokens]
    exact List.mem_append_right _ List.mem_cons_self
  have hcomment := h.comments token hmem
  have hspace := Text.isSpace_of_ink (h.line c (List.mem_of_getLast? hlast)) hblank
  rw [Token.isTrivia]
  cases hkind : token.kind.isTrivia with
  | false => rfl
  | true =>
    have hwhite : token.kind = .whitespace := by
      revert hkind hcomment
      cases token.kind <;> decide
    have hspaces := (Token.ofText_spells text).spaces token hmem hwhite c (List.mem_of_getLast? hc)
    rw [hspace] at hspaces
    cases hspaces

section

variable (h : IsInline text)
  (hliterals : ∀ token ∈ Token.ofText text, Repair.isTerminated token = true)
include h hliterals

/-- No token ends with a brace. -/
theorem getLast?_token_ne {token : Token} (htoken : token ∈ Token.ofText text) :
    token.text.getLast? ≠ some '\x7d' := by
  intro hlast
  obtain ⟨front, back, htokens⟩ := List.append_of_mem htoken
  have hlexed := Token.lexed_ofText text
  rw [htokens] at hlexed
  have hdelimiter : Token.delimiter? '\x7d' = some .rightBrace := rfl
  obtain rfl := hlexed.of_append.of_cons.1.eq_of_delimiter hlast hdelimiter
    (h.comments token htoken) (hliterals token htoken)
  exact (h.braces _ htoken).2 rfl

/-- No brace is at the end. -/
theorem getLast?_ne_brace : text.getLast? ≠ some '\x7d' := by
  obtain ⟨front, token, c, htokens, hc, hlast, -⟩ := h.exists_last
  have hmem : token ∈ Token.ofText text := by
    rw [htokens]
    exact List.mem_append_right _ List.mem_cons_self
  rw [hlast, ← hc]
  exact h.getLast?_token_ne hliterals hmem

end

end IsInline

end StatementCompletion
