import StatementCompletion.Proofs.Token.Alone
import StatementCompletion.Proofs.Token.Ending
import StatementCompletion.Proofs.Tree.Unbraced

/-!
# Tokens that are put between others

Some texts are tokens of their own wherever they stand: delimiters, and what begins and ends with an
edge.  No scanner goes on into them, and what is behind them is read from its own first character
on.  So they may stand between any two tokens, unless the one in front runs up to the end of its
line anyway: a line comment, and a literal that is not closed.  There only a new line may follow.
-/

namespace StatementCompletion.Token

open Grammar (opensBlock closesBlock)
open Repair (isTerminated closingQuote?)

variable {token paren last : Token} {c : Char} {left new : Text} {front back between : List Token}

/-! ## Delimiters -/

/-- The signs that are in no longer one. -/
def delimiters : List Token :=
  [{ kind := .leftParen, text := ['('] }, { kind := .rightParen, text := [')'] },
    opensBlock, closesBlock,
   { kind := .semicolon, text := [';'] }, { kind := .comma, text := [','] }]

/-- A delimiter is cut off whatever is behind it. -/
theorem cuts_of_mem_delimiters (h : token ∈ delimiters) (left : Text) : Cuts token left := by
  simp only [delimiters, List.mem_cons, List.not_mem_nil, or_false] at h
  rcases h with rfl | rfl | rfl | rfl | rfl | rfl
  · exact ⟨'(', left, rfl, rfl⟩
  · exact ⟨')', left, rfl, rfl⟩
  · exact ⟨'\x7b', left, rfl, rfl⟩
  · exact ⟨'\x7d', left, rfl, rfl⟩
  · exact ⟨';', left, rfl, rfl⟩
  · exact ⟨',', left, rfl, rfl⟩

theorem exists_isEdge_of_mem_delimiters (h : token ∈ delimiters) :
    ∃ c, token.text = [c] ∧ isEdge c = true := by
  have hall : ∀ token ∈ delimiters, (token.text.length = 1 ∧ token.text.all isEdge = true) := by
    decide
  obtain ⟨hlength, hedge⟩ := hall token h
  obtain ⟨c, hc⟩ := List.length_eq_one_iff.1 hlength
  rw [hc, List.all_cons, List.all_nil, Bool.and_true] at hedge
  exact ⟨c, hc, hedge⟩

/-! ## Texts that are tokens of their own -/

/-- A text that begins with an edge and is cut into the same tokens whatever is behind it. -/
structure IsSeparate (new : Text) : Prop where
  edge : ∃ c, new.head? = some c ∧ isEdge c = true
  ofText_append : ∀ left, ofText (new ++ left) = ofText new ++ ofText left

namespace IsSeparate

theorem append {more : Text} (h : IsSeparate new) (hmore : IsSeparate more) :
    IsSeparate (new ++ more) := by
  constructor
  · obtain ⟨c, hhead, hedge⟩ := h.edge
    exact ⟨c, by rw [List.head?_append, hhead, Option.some_or], hedge⟩
  · intro left
    rw [List.append_assoc, h.ofText_append, h.ofText_append, hmore.ofText_append, List.append_assoc]

theorem lexed (h : IsSeparate new) (hback : Lexed back) : Lexed (ofText new ++ back) := by
  rw [Lexed, List.flatMap_append, (ofText_spells new).flatMap_text, h.ofText_append, hback]

end IsSeparate

/-- So is what begins with an edge and has a delimiter at its end. -/
theorem isSeparate_of_getLast (hedge : ∃ c, new.head? = some c ∧ isEdge c = true)
    (hlast : ∃ last ∈ delimiters, (ofText new).getLast? = some last) : IsSeparate new := by
  refine ⟨hedge, fun left => ?_⟩
  obtain ⟨last, hdelimiter, hlast⟩ := hlast
  obtain ⟨front, hfront⟩ := List.getLast?_eq_some_iff.1 hlast
  obtain ⟨c, htext, hc⟩ := exists_isEdge_of_mem_delimiters hdelimiter
  have hlexed := lexed_ofText new
  rw [hfront] at hlexed
  have hbehind : Lexed (last :: ofText left) :=
    .cons (cuts_of_mem_delimiters hdelimiter _) (lexed_ofText left)
  have hall := hlexed.exchange_of_isEdge hc htext htext hbehind
  have hnew := (ofText_spells new).flatMap_text
  rw [hfront] at hnew
  rw [Lexed, List.append_cons, List.flatMap_append, hnew, (ofText_spells left).flatMap_text] at hall
  rw [hall, hfront]

theorem isSeparate_of_mem_delimiters (h : token ∈ delimiters) : IsSeparate token.text := by
  obtain ⟨c, htext, hc⟩ := exists_isEdge_of_mem_delimiters h
  refine isSeparate_of_getLast ⟨c, by rw [htext]; rfl, hc⟩ ⟨token, h, ?_⟩
  have hcuts : Cuts token [] := cuts_of_mem_delimiters h []
  rw [hcuts.ofText_text]
  rfl

/-! ## Between two tokens -/

/-- What a token asks of the first character that is put behind it: white space goes on into
white space, and a line comment and an open literal go on up to the end of the line.  A block
comment may not be the last. -/
structure Admits (token : Token) (back : List Token) (c : Char) : Prop where
  space : token.kind = .whitespace → isSpace c = false
  line : token.kind = .lineComment → isReturn c = true
  block : token.kind = .blockComment → back ≠ []
  literal : isTerminated token = false → isReturn c = true

/-- Behind a token of the program anything may be put, unless it is an open literal. -/
theorem admits_of_isTrivia (hkind : token.isTrivia = false)
    (hliteral : isTerminated token = false → isReturn c = true) :
    Admits token back c := by
  have hother {kind : Kind} (htrivia : kind.isTrivia = true) : token.kind ≠ kind := by
    rintro rfl
    exact Bool.false_ne_true (hkind.symm.trans htrivia)
  exact ⟨fun h => absurd h (hother rfl), fun h => absurd h (hother rfl),
    fun h => absurd h (hother rfl), hliteral⟩

/-- A new line ends lines and literals. -/
theorem endsAlike_of_isReturn (hhead : new.head? = some c) (hreturn : isReturn c = true)
    (left : Text) :
    EndsAlike left new := by
  refine ⟨fun _ d hd => ?_, fun _ _ _ => ⟨c, hhead, hreturn⟩⟩
  rwa [← Option.some.inj (hhead.symm.trans hd)]

theorem isQuoted_iff {kind : Kind} :
    isQuoted kind = true ↔ ∃ quote, closingQuote? kind = some quote := by
  cases kind <;> simp [isQuoted, closingQuote?]

/-- The token is still cut off. -/
theorem Cuts.insert (h : Cuts token (back.flatMap (·.text))) (hback : Lexed back)
    {c : Char} {rest : Text}
    (hedge : isEdge c = true) (hadmits : Admits token back c) : Cuts token (c :: rest) := by
  by_cases hspace : token.kind = .whitespace
  · have hwhite : Cuts { kind := .whitespace, text := token.text } (c :: rest) :=
      cuts_white h.text_ne_nil (h.isCutFrom.spaces hspace) fun d hd =>
        Option.some.inj hd ▸ hadmits.space hspace
    rwa [← hspace] at hwhite
  · refine h.joins hspace (joins_of_isEdge rfl hedge)
      (fun hline => endsAlike_of_isReturn rfl (hadmits.line hline) _)
      (fun hblock hnil => absurd (hback.eq_nil hnil) (hadmits.block hblock))
      fun quote taken hquoted htext hparts => ?_
    cases hclosed : Repair.isTerminated token with
    | false => exact quoted_eq hparts (endsAlike_of_isReturn rfl (hadmits.literal hclosed) _)
    | true =>
      obtain ⟨quote', hquote⟩ := isQuoted_iff.1 hquoted
      obtain ⟨more, htext', -⟩ := h.exists_quoted hquote
      obtain rfl : quote = quote' := (List.cons.inj (htext.symm.trans htext')).1
      exact Repair.quoted_of_isTerminated hquote hclosed htext hparts _

/-- **New tokens may be put between two others.** -/
theorem Lexed.insert (h : Lexed (front ++ back)) (hnew : IsSeparate new)
    (hadmits : ∀ token, front.getLast? = some token → ∀ c, new.head? = some c →
      Admits token back c) :
    Lexed (front ++ (ofText new ++ back)) := by
  have hlexed := hnew.lexed h.of_append
  rcases List.eq_nil_or_concat' front with rfl | ⟨before, token, rfl⟩
  · exact hlexed
  · obtain ⟨c, hhead, hedge⟩ := hnew.edge
    obtain ⟨rest, rfl⟩ := List.head?_eq_some_iff.1 hhead
    rw [List.append_assoc, List.singleton_append] at h ⊢
    obtain ⟨hcuts, hback⟩ := h.of_append.of_cons
    have htext : (ofText (c :: rest) ++ back).flatMap (·.text) =
        c :: rest ++ back.flatMap (·.text) := by
      rw [List.flatMap_append, (ofText_spells (c :: rest)).flatMap_text]
    have hcuts' : Cuts token ((ofText (c :: rest) ++ back).flatMap (·.text)) := by
      rw [htext]
      exact hcuts.insert hback hedge (hadmits token List.getLast?_concat c rfl)
    have hjoins :
        Joins (back.flatMap (·.text)) ((ofText (c :: rest) ++ back).flatMap (·.text)) := by
      rw [htext]
      exact joins_of_isEdge rfl hedge
    -- the token in front begins both rows
    obtain ⟨d, tail, hd⟩ := List.exists_cons_of_ne_nil hcuts.text_ne_nil
    refine h.exchange (.cons hcuts' hlexed) ?_ ?_ ?_ <;> simp only [List.flatMap_cons]
    · refine ⟨hjoins.append_left _, fun hnil => ?_, fun e he hreturn => ⟨e, ?_, hreturn⟩⟩
      · exact absurd (List.append_eq_nil_iff.1 hnil).1 hcuts.text_ne_nil
      · rwa [hd] at he ⊢
    · intro e he hwhite
      exact ⟨e, by rwa [hd] at he ⊢, hwhite⟩
    · exact fun hnil => absurd (List.append_eq_nil_iff.1 hnil).1 hcuts.text_ne_nil

/-! ## Braces -/

theorem cuts_closesBlock (left : Text) : Cuts closesBlock left :=
  cuts_of_mem_delimiters (by decide) left

theorem isSeparate_opensBlock : IsSeparate opensBlock.text :=
  isSeparate_of_mem_delimiters (by decide)

/-- A brace on a new line. -/
theorem isSeparate_closesBlock : IsSeparate (breaksLine.text ++ closesBlock.text) :=
  isSeparate_of_getLast ⟨'\n', rfl, rfl⟩ ⟨closesBlock, by decide, rfl⟩

/-- Behind a closing parenthesis stands the one brace, on a new line behind a
token of the program the other. -/
theorem Lexed.braces (h : Lexed (front ++ paren :: (between ++ last :: back)))
    (hparen : paren.kind = .rightParen) (hlast : last.isTrivia = false) :
    Lexed
    (front ++ paren :: opensBlock :: (between ++ last :: breaksLine :: closesBlock :: back)) := by
  have hclosed : Lexed ((front ++ paren :: between ++ [last]) ++ back) := by simpa using h
  replace hclosed := hclosed.insert isSeparate_closesBlock fun token htoken c hc => by
    obtain rfl : last = token := Option.some.inj (List.getLast?_concat.symm.trans htoken)
    obtain rfl : '\n' = c := Option.some.inj hc
    exact admits_of_isTrivia hlast fun _ => rfl
  have hopened :
      Lexed ((front ++ [paren]) ++ (between ++ last :: breaksLine :: closesBlock :: back)) := by
    have hbraces : ofText (breaksLine.text ++ closesBlock.text) = [breaksLine, closesBlock] := by
      decide
    rw [hbraces] at hclosed
    simpa using hclosed
  replace hopened := hopened.insert isSeparate_opensBlock fun token htoken c hc => by
    obtain rfl : paren = token := Option.some.inj (List.getLast?_concat.symm.trans htoken)
    refine admits_of_isTrivia (by rw [isTrivia, hparen]; rfl) fun hopen => ?_
    rw [isTerminated, hparen] at hopen
    cases hopen
  have hbrace : ofText opensBlock.text = [opensBlock] := by decide
  rw [hbrace] at hopened
  simpa using hopened

end StatementCompletion.Token
