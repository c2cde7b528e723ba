import StatementCompletion.Proofs.Repair.Literal
import StatementCompletion.Proofs.Token.Program

/-!
# The first tokens of a text

A text may be cut off behind any of its tokens, and the tokens in front of the cut are those of the
first part.  Only a line break behind the cut could matter, to white space and to an open comment.

Literals go up to their quote, to a line break or to the end of the text.  So one behind
which the line goes on is closed.
-/

namespace StatementCompletion.Token

variable {token : Token} {left : Text}

/-- White space stops in front of anything else. -/
theorem Cuts.head_of_whitespace (h : Cuts token left) (hkind : token.kind = .whitespace) :
    ∀ c, left.head? = some c → isSpace c = false := by
  rcases h.trivia_cases (by rw [hkind]; rfl) with
    ⟨d, rest, -, hscan⟩ | ⟨rest, hscan⟩ | ⟨rest, hscan⟩ <;>
    obtain ⟨rfl, rfl⟩ := Prod.mk.inj hscan
  · exact fun c hhead => head_run hhead
  · cases hkind
  · cases hkind

/-- What stands behind some tokens may be exchanged for something that goes on the same way and
begins with white space only if that does. -/
theorem Lexed.exchange {front back back' : List Token} (h : Lexed (front ++ back))
    (h' : Lexed back') (hleft : Continues (back.flatMap (·.text)) (back'.flatMap (·.text)))
    (hspace : ∀ c, (back'.flatMap (·.text)).head? = some c → isSpace c = true →
      ∃ d, (back.flatMap (·.text)).head? = some d ∧ isSpace d = true)
    (hnil : back.flatMap (·.text) = [] → back'.flatMap (·.text) = []) : Lexed (front ++ back') := by
  induction front with
  | nil => exact h'
  | cons token front ih =>
    rw [List.cons_append] at h
    obtain ⟨hcuts, hrest⟩ := h.of_cons
    refine .cons ?_ (ih hrest)
    change token.Cuts ((front ++ back').flatMap (·.text))
    change token.Cuts ((front ++ back).flatMap (·.text)) at hcuts
    rw [List.flatMap_append] at hcuts ⊢
    -- white space would go on into more of it, and all else stops in the same place
    by_cases hkind : token.kind = .whitespace
    · have hhead : ∀ c, (front.flatMap (·.text) ++ back'.flatMap (·.text)).head? = some c →
          isSpace c = false := by
        intro c hhead
        cases htext : front.flatMap (·.text) with
        | nil =>
          rw [htext] at hcuts hhead
          by_contra hwhite
          obtain ⟨d, hd, hdwhite⟩ :=
            hspace c hhead (Bool.eq_false_or_eq_true _ |>.resolve_right hwhite)
          rw [hcuts.head_of_whitespace hkind d hd] at hdwhite
          cases hdwhite
        | cons d text =>
          rw [htext] at hcuts hhead
          exact hcuts.head_of_whitespace hkind c hhead
      have hwhite := cuts_white hcuts.text_ne_nil (hcuts.isCutFrom.spaces hkind) hhead
      rwa [← hkind] at hwhite
    · refine hcuts.continues hkind (hleft.append_left _) fun _ hends => ?_
      obtain ⟨hfront, hback⟩ := List.append_eq_nil_iff.1 hends
      rw [hfront, hnil hback]
      rfl

/-- The tokens in front of a cut. -/
theorem Lexed.front {front back : List Token} (h : Lexed (front ++ back))
    (hback : ∀ c, (back.flatMap (·.text)).head? = some c → isReturn c = false) : Lexed front := by
  have hcut : Continues (back.flatMap (·.text)) [] := by
    refine ⟨joins_nil _, fun _ => nofun, fun c hhead hreturn => ?_⟩
    rw [hback c hhead] at hreturn
    cases hreturn
  have hfront : Lexed (front ++ []) := h.exchange rfl hcut nofun fun _ => rfl
  rwa [List.append_nil] at hfront

/-- Where the tokens of a text are cut, the text is cut into texts with these tokens. -/
theorem ofText_eq_of_append {text tail : Text} {front back : List Token}
    (h : ofText (text ++ tail) = front ++ back) (hfront : front.flatMap (·.text) = text)
    (htail : ∀ c, tail.head? = some c → isReturn c = false) :
    ofText text = front ∧ ofText tail = back := by
  have hlexed := lexed_ofText (text ++ tail)
  have htext := (ofText_spells (text ++ tail)).flatMap_text
  rw [h] at hlexed htext
  rw [List.flatMap_append, hfront] at htext
  have hback := List.append_cancel_left htext
  have hlexedFront := hlexed.front (by rwa [hback])
  have hlexedBack := hlexed.of_append
  exact ⟨by rwa [Lexed, hfront] at hlexedFront, by rwa [Lexed, hback] at hlexedBack⟩

theorem continues_of_isEdge {c : Char} (hedge : isEdge c = true) (left left' : Text) :
    Continues (c :: left) (c :: left') :=
  ⟨joins_of_isEdge rfl hedge, nofun, fun d hhead hreturn => ⟨d, hhead, hreturn⟩⟩

/-- A token that begins with an edge may be exchanged for another one that does. -/
theorem Lexed.exchange_of_isEdge {front back back' : List Token} {token token' : Token} {c : Char}
    {tail tail' : Text} (h : Lexed (front ++ token :: back)) (hedge : isEdge c = true)
    (htext : token.text = c :: tail)
    (htext' : token'.text = c :: tail') (h' : Lexed (token' :: back')) :
    Lexed (front ++ token' :: back') := by
  refine h.exchange h' ?_ ?_ ?_ <;> simp only [List.flatMap_cons, htext, htext', List.cons_append]
  · exact continues_of_isEdge hedge _ _
  · intro d hhead hwhite
    exact ⟨d, hhead, hwhite⟩
  · exact nofun

theorem Lexed.exchange_closing {front back back' : List Token} {paren : Token}
    (h : Lexed (front ++ paren :: back)) (hparen : paren.text = [')'])
    (h' : Lexed (paren :: back')) :
    Lexed (front ++ paren :: back') :=
  h.exchange_of_isEdge rfl hparen hparen h'

/-! ## Closed literals -/

open Repair in
/-- A literal stops behind its quote, or where the line does. -/
theorem endsAtQuote_quoted {quote : Char} (hquote : quote ≠ '\\') {text : Text}
    (h : ∃ c, (quoted quote text).2.head? = some c ∧ isReturn c = false) :
    endsAtQuote quote (quoted quote text).1 = true := by
  fun_induction quoted quote text with
  | case1 => simp at h
  | case2 c rest hreturn => simp_all
  | case3 => simp at h
  | case4 c rest => simp_all
  | case5 d rest _ taken left heq _ ih =>
    rw [heq] at ih
    rw [endsAtQuote, if_neg hquote.symm, if_pos rfl]
    exact ih h
  | case6 rest => simp [endsAtQuote]
  | case7 c rest _ hplain hother taken left heq ih =>
    rw [heq] at ih
    rw [endsAtQuote.eq_def]
    dsimp only
    rw [if_neg hother, if_neg hplain]
    exact ih h

theorem closingQuote?_kindOfName (name : Text) : Repair.closingQuote? (kindOfName name) = none := by
  have hwords : ∀ entry ∈ reservedWords, Repair.closingQuote? entry.2 = none := by decide
  unfold kindOfName
  split
  · next word kind h => exact hwords _ (List.mem_of_find?_eq_some h)
  · rfl

/-- What a token is that is cut off in front of a text: numbers and names have no edges in them. -/
inductive Form (token : Token) (left : Text) : Prop where
  | space (kind : token.kind = .whitespace) (spaces : ∀ c ∈ token.text, isSpace c = true)
  | comment (kind : token.kind.isComment = true)
  | literal (quote : Char) (rest : Text) (kind : Repair.closingQuote? token.kind = some quote)
      (text : token.text = quote :: (quoted quote rest).1) (behind : left = (quoted quote rest).2)
  | word (kind : Repair.closingQuote? token.kind = none) (glued : IsGlued token.text)
  | sign (entry : String × Kind) (mem : entry ∈ signs)
      (eq : token = { kind := entry.2, text := entry.1.toList })
  | error (c : Char) (eq : token = { kind := .error, text := [c] })
      (none : sign? (c :: left) = none)

theorem Cuts.form (h : Cuts token left) : Form token left := by
  have hcut := h.isCutFrom
  obtain ⟨c, rest, -, hnext⟩ := h
  unfold next at hnext
  split_ifs at hnext with hspace hline hblock hstring hchar hnumber hname
  · -- white space
    have hkind : token.kind = .whitespace := (congrArg (·.1.kind) hnext).symm
    exact .space hkind (hcut.spaces hkind)
  · -- a line comment
    exact .comment (congrArg (·.1.kind.isComment) hnext).symm
  · -- a block comment
    exact .comment (congrArg (·.1.kind.isComment) hnext).symm
  · -- a string literal
    obtain ⟨rfl, rfl⟩ := Prod.mk.inj hnext
    exact .literal '"' rest rfl (by rw [hstring]; rfl) (by rw [hstring])
  · -- a character literal
    obtain ⟨rfl, rfl⟩ := Prod.mk.inj hnext
    exact .literal '\'' rest rfl (by rw [hchar]; rfl) (by rw [hchar])
  · -- a number
    obtain ⟨rfl, rfl⟩ := Prod.mk.inj hnext
    refine .word rfl (List.forall_mem_cons.2 ⟨?_, isGlued_number c rest⟩)
    rcases Bool.or_eq_true_iff.1 hnumber with hdigit | hdot
    · exact isEdge_of_isDigit hdigit
    · rw [of_decide_eq_true (Bool.and_eq_true_iff.1 hdot).1]
      rfl
  · -- a name
    obtain ⟨rfl, rfl⟩ := Prod.mk.inj hnext
    refine .word (closingQuote?_kindOfName _) (List.forall_mem_cons.2 ⟨?_, fun d hd => ?_⟩)
    · exact isEdge_of_isNamePart (isNamePart_of_isNameStart hname)
    · exact isEdge_of_isNamePart (List.mem_takeWhile_imp hd)
  · split at hnext
    · next sign kind hsign =>
      obtain ⟨⟨entry, hentry, rfl, rfl⟩, -⟩ := sign?_some hsign
      exact .sign entry hentry (Prod.mk.inj hnext).1.symm
    · next hsign =>
      obtain ⟨rfl, rfl⟩ := Prod.mk.inj hnext
      exact .error c rfl hsign

/-- A literal in quotes is what is scanned behind its first quote. -/
theorem Cuts.exists_quoted (h : Cuts token left) {quote : Char}
    (hkind : Repair.closingQuote? token.kind = some quote) :
    ∃ rest, token.text = quote :: (quoted quote rest).1 ∧ left = (quoted quote rest).2 := by
  have hother (hnone : Repair.closingQuote? token.kind = none) :
      ∃ rest, token.text = quote :: (quoted quote rest).1 ∧ left = (quoted quote rest).2 := by
    rw [hnone] at hkind
    cases hkind
  cases h.form with
  | space hspace _ => exact hother (by rw [hspace]; rfl)
  | comment hcomment =>
    refine hother ?_
    cases htoken : token.kind <;> first | rfl | (rw [htoken] at hcomment; cases hcomment)
  | literal quote' rest hquote htext hleft =>
    obtain rfl := Option.some.inj (hquote.symm.trans hkind)
    exact ⟨rest, htext, hleft⟩
  | word hnone _ => exact hother hnone
  | sign entry hentry heq =>
    have hsigns : ∀ entry ∈ signs, Repair.closingQuote? entry.2 = none := by decide
    exact hother (by rw [heq]; exact hsigns entry hentry)
  | error c heq _ => exact hother (by rw [heq]; rfl)

theorem closingQuote?_eq_some {kind : Kind} {quote : Char}
    (h : Repair.closingQuote? kind = some quote) :
    kind = .stringLiteral ∧ quote = '"' ∨ kind = .charLiteral ∧ quote = '\'' := by
  unfold Repair.closingQuote? at h
  split at h
  · exact .inl ⟨rfl, (Option.some.inj h).symm⟩
  · exact .inr ⟨rfl, (Option.some.inj h).symm⟩
  · cases h

/-- No quote is a backslash or ends a line. -/
theorem plain_of_closingQuote? {kind : Kind} {quote : Char}
    (h : Repair.closingQuote? kind = some quote) :
    quote ≠ '\\' ∧ isReturn quote = false := by
  rcases closingQuote?_eq_some h with ⟨-, rfl⟩ | ⟨-, rfl⟩ <;> decide

/-- A literal behind which the line goes on is closed. -/
theorem Cuts.isTerminated (h : Cuts token left)
    (hleft : ∃ c, left.head? = some c ∧ isReturn c = false) :
    Repair.isTerminated token = true := by
  unfold Repair.isTerminated
  cases hquote : Repair.closingQuote? token.kind with
  | none => rfl
  | some quote =>
    obtain ⟨rest, htext, rfl⟩ := h.exists_quoted hquote
    rw [Option.all_some, htext]
    simp [endsAtQuote_quoted (plain_of_closingQuote? hquote).1 hleft]

/-- The kind of a sign of one character that is no part of another token, unless this is a comment,
a literal in quotes or an error. -/
def delimiter? : Char → Option Kind
  | ')' => some .rightParen
  | '\x7d' => some .rightBrace
  | ';' => some .semicolon
  | _ => none

/-- Only comments and open literals have a delimiter at their end, apart from
the delimiter itself. -/
theorem Cuts.eq_of_delimiter {c : Char} {kind : Kind} (h : Cuts token left)
    (hlast : token.text.getLast? = some c) (hc : delimiter? c = some kind)
    (hcomment : token.kind.isComment = false) (hliteral : Repair.isTerminated token = true) :
    token = { kind, text := [c] } := by
  have hmem : c ∈ token.text := List.mem_of_getLast? hlast
  have hplain : isSpace c = false ∧ isEdge c = true := by
    unfold delimiter? at hc
    split at hc <;> first | decide | cases hc
  cases h.form with
  | space _ hspaces =>
    rw [hspaces c hmem] at hplain
    cases hplain.1
  | comment hkind =>
    rw [hcomment] at hkind
    cases hkind
  | literal quote rest hquote htext _ =>
    -- a closed literal ends in its quote, and that is no delimiter
    have hends : Repair.endsAtQuote quote (quoted quote rest).1 = true := by
      simpa [Repair.isTerminated, hquote, htext] using hliteral
    obtain ⟨inside, heq, -⟩ := Repair.endsAtQuote_spec hends
    rw [htext, heq, ← List.cons_append, List.getLast?_concat, Option.some.injEq] at hlast
    rcases closingQuote?_eq_some hquote with ⟨-, rfl⟩ | ⟨-, rfl⟩ <;> (rw [← hlast] at hc; cases hc)
  | word _ hglued =>
    rw [hglued c hmem] at hplain
    cases hplain.2
  | sign entry hentry heq =>
    have hsigns : ∀ entry ∈ signs, entry.1.toList.getLast?.bind delimiter? = none
        ∨ entry.1.toList.length = 1
          ∧ entry.1.toList.getLast?.bind delimiter? = some entry.2 := by decide
    subst heq
    replace hlast : entry.1.toList.getLast? = some c := hlast
    rcases hsigns entry hentry with hnone | ⟨hlength, hkind⟩
    · rw [hlast, Option.bind_some, hc] at hnone
      cases hnone
    · obtain ⟨only, honly⟩ := List.length_eq_one_iff.1 hlength
      rw [hlast, Option.bind_some, hc] at hkind
      rw [honly, List.getLast?_singleton] at hlast
      rw [honly, Option.some.inj hlast, Option.some.inj hkind]
  | error d heq hnone =>
    rw [heq, List.getLast?_singleton, Option.some.injEq] at hlast
    subst hlast
    unfold delimiter? at hc
    split at hc <;> first | cases hnone | cases hc

/-! ## Rows of tokens on one line -/

section

variable {front back : List Token}

/-- What stands in front of the rest of a line is closed. -/
theorem isTerminated_of_ofText_eq {text : Text} (h : ofText text = front ++ back) (hne : back ≠ [])
    (hreturns : ∀ c ∈ text, isReturn c = false) :
    ∀ token ∈ front, Repair.isTerminated token = true := by
  intro token htoken
  obtain ⟨before, after, rfl⟩ := List.append_of_mem htoken
  have hlexed := lexed_ofText text
  have hnonempty := (ofText_spells text).nonempty
  have hspelled := (ofText_spells text).flatMap_text
  rw [h, List.append_assoc, List.cons_append] at hlexed hnonempty hspelled
  obtain ⟨hcuts, -⟩ := hlexed.of_append.of_cons
  refine hcuts.isTerminated ?_
  cases htext : (after ++ back).flatMap (·.text) with
  | nil =>
    obtain ⟨last, hlast⟩ := List.exists_mem_of_ne_nil back hne
    have hnil := List.flatMap_eq_nil_iff.1 htext last (List.mem_append_right _ hlast)
    exact absurd hnil (hnonempty last (by simp [hlast]))
  | cons c rest =>
    refine ⟨c, rfl, hreturns c ?_⟩
    rw [← hspelled, List.flatMap_append, List.flatMap_cons, htext]
    simp

/-- A delimiter at the end of a row of closed tokens without comments is a token. -/
theorem Lexed.exists_delimiter {c : Char} {kind : Kind} {text : Text} (h : Lexed (front ++ back))
    (htext : front.flatMap (·.text) = text ++ [c]) (hc : delimiter? c = some kind)
    (hcomment : ∀ token ∈ front, token.kind.isComment = false)
    (hliterals : ∀ token ∈ front, Repair.isTerminated token = true) :
    ∃ before, front = before ++ [{ kind, text := [c] }] ∧ before.flatMap (·.text) = text := by
  rcases List.eq_nil_or_concat' front with rfl | ⟨before, last, rfl⟩
  · simp at htext
  · rw [List.append_assoc] at h
    obtain ⟨hcuts, -⟩ := h.of_append.of_cons
    have hmem : last ∈ before ++ [last] := List.mem_append_right _ List.mem_cons_self
    rw [List.flatMap_append, List.flatMap_singleton] at htext
    have hlast := congrArg List.getLast? htext
    rw [List.getLast?_concat, List.getLast?_append_of_ne_nil _ hcuts.text_ne_nil] at hlast
    obtain rfl := hcuts.eq_of_delimiter hlast hc (hcomment last hmem) (hliterals last hmem)
    exact ⟨before, rfl, List.append_cancel_right htext⟩

/-- So are many of them. -/
theorem Lexed.exists_delimiters {c : Char} {kind : Kind} {text : Text} {n : Nat}
    (h : Lexed (front ++ back)) (htext : front.flatMap (·.text) = text ++ List.replicate n c)
    (hc : delimiter? c = some kind) (hcomment : ∀ token ∈ front, token.kind.isComment = false)
    (hliterals : ∀ token ∈ front, Repair.isTerminated token = true) :
    ∃ before, front = before ++ List.replicate n { kind, text := [c] }
      ∧ before.flatMap (·.text) = text := by
  induction n generalizing front back with
  | zero => exact ⟨front, by simp, by simpa using htext⟩
  | succ n ih =>
    rw [List.replicate_succ', ← List.append_assoc] at htext
    obtain ⟨before, rfl, hbefore⟩ := h.exists_delimiter htext hc hcomment hliterals
    rw [List.append_assoc] at h
    obtain ⟨first, rfl, hfirst⟩ := ih h hbefore
      (fun token htoken => hcomment token (List.mem_append_left _ htoken))
      (fun token htoken => hliterals token (List.mem_append_left _ htoken))
    exact ⟨first, by rw [List.append_assoc, List.replicate_succ'], hfirst⟩

end

end StatementCompletion.Token
