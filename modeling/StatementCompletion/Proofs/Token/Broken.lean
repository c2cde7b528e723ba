import StatementCompletion.Proofs.Token.Front

/-!
# Comments that are broken

A block comment with a line break inside is one comment, and a line comment whose next line goes on
as a comment is two.  Either begins as the comment did, so the tokens in front are the same ones,
and ends as it did, so those behind are.

`IsSplit` is what a break does to the tokens of a text, and `IsInside` what is
wanted of the caret then.
-/

namespace StatementCompletion.Token

/-! ## Breaking a comment -/

section

variable {token : Token} {front back : List Token} {inside blank behind new : Text}

/-- A comment in the place of another thing that begins with the same two
characters, up to white space. -/
theorem Lexed.exchange_comment {pieces : List Token} (h : Lexed (front ++ token :: back))
    (opener rest new : Text) (hpieces : Lexed (pieces ++ back)) (hopener : opener.head? = some '/')
    (htoken : token.text = opener ++ rest)
    (hnew : pieces.flatMap (·.text) = opener ++ new) {c : Char} (hhead : new.head? = some c)
    (hspace : isSpace c = true) : Lexed (front ++ (pieces ++ back)) := by
  obtain ⟨more, rfl⟩ := List.head?_eq_some_iff.1 hopener
  obtain ⟨tail, rfl⟩ := List.head?_eq_some_iff.1 hhead
  refine h.exchange hpieces ?_ ?_ ?_ <;>
    simp only [List.flatMap_append, List.flatMap_cons, hnew, htoken, List.append_assoc]
  · exact continues_of_head (List.cons_ne_nil _ _) rfl hspace
  · rintro d hd hwhite
    exact ⟨d, hd, hwhite⟩
  · exact nofun

/-- **A block comment that is broken is one comment.** -/
theorem Lexed.break_block (h : Lexed (front ++ token :: back)) (hkind : token.kind = .blockComment)
    (htext : token.text = '/' :: '*' :: (inside ++ blank ++ behind))
    (hbehind : closer <:+ inside ++ blank ++ behind → closer <:+ behind) (hnew : IsHarmless new)
    {c : Char} (hhead : new.head? = some c) (hspace : isSpace c = true) :
    Lexed (front ++ ([{ kind := .blockComment, text := '/' :: '*' :: (inside ++ new ++ behind) }]
      ++ back)) := by
  obtain ⟨hcuts, hback⟩ := h.of_append.of_cons
  refine h.exchange_comment ('/' :: '*' :: inside) (blank ++ behind) (new ++ behind)
    (.cons (hcuts.break_block hkind htext hbehind hnew) hback) rfl ?_ ?_ (c := c) ?_ hspace
  · rw [htext, List.append_assoc]
    rfl
  · simp
  · rw [List.head?_append, hhead]
    rfl

/-- **A line comment that is broken is two comments.** -/
theorem Lexed.break_line (h : Lexed (front ++ token :: back)) (hkind : token.kind = .lineComment)
    (htext : token.text = '/' :: '/' :: (inside ++ blank ++ behind))
    (hnew : ∀ c ∈ new, isSpace c = true) {c : Char} (hhead : new.head? = some c)
    (hreturn : isReturn c = true) :
    Lexed (front ++ ([{ kind := .lineComment, text := '/' :: '/' :: inside },
      { kind := .whitespace, text := new },
      { kind := .lineComment, text := '/' :: '/' :: ' ' :: behind }] ++ back)) := by
  obtain ⟨hcuts, hback⟩ := h.of_append.of_cons
  obtain ⟨taken, htaken, hinline, hleft⟩ := hcuts.lineComment_eq hkind
  obtain rfl : inside ++ blank ++ behind = taken := by
    rw [htext] at htaken
    exact (List.cons.inj (List.cons.inj htaken).2).2
  have hsecond : Cuts { kind := .lineComment, text := '/' :: '/' :: ' ' :: behind }
      (back.flatMap (·.text)) :=
    cuts_lineComment (List.forall_mem_cons.2 ⟨rfl, fun d hd => hinline d (by simp [hd])⟩) hleft
  have hgap : Cuts { kind := .whitespace, text := new }
      ('/' :: '/' :: ' ' :: behind ++ back.flatMap (·.text)) := by
    refine cuts_white ?_ hnew fun d hd => ?_
    · rintro rfl
      cases hhead
    · obtain rfl : '/' = d := Option.some.inj hd
      rfl
  have hfirst : Cuts { kind := .lineComment, text := '/' :: '/' :: inside }
      (new ++ ('/' :: '/' :: ' ' :: behind ++ back.flatMap (·.text))) := by
    refine cuts_lineComment (fun d hd => hinline d (by simp [hd])) fun d hd => ?_
    rw [List.head?_append, hhead] at hd
    exact Option.some.inj hd ▸ hreturn
  have hpieces := Lexed.cons hfirst (.cons hgap (.cons hsecond hback))
  refine h.exchange_comment ('/' :: '/' :: inside) (blank ++ behind)
    (new ++ '/' :: '/' :: ' ' :: behind) hpieces rfl ?_ ?_ (c := c) ?_ (isSpace_of_isReturn hreturn)
  · rw [htext, List.append_assoc]
    rfl
  · simp
  · rw [List.head?_append, hhead]
    rfl

end

/-! ## What a break does to a text -/

/-- A comment around a caret of the first text is broken in the second: blanks around the caret give
way, and the rest of the comment is spelled by comments with white space between them. -/
def IsSplit (text text' : Text) (caret : Nat) : Prop :=
  ∃ front comment back pieces first blank second new,
    ofText text = front ++ comment :: back ∧ ofText text' = front ++ (pieces ++ back)
      ∧ comment.kind.isComment = true ∧ (∀ piece ∈ pieces, piece.kind.isTrivia = true)
      ∧ comment.text = first ++ blank ++ second ∧ (∀ c ∈ blank, Text.isBlank c = true)
      ∧ pieces.flatMap (·.text) = first ++ new ++ second
      ∧ Text.size (front.flatMap (·.text) ++ first) ≤ caret
      ∧ caret ≤ Text.size (front.flatMap (·.text) ++ first ++ blank)

theorem IsSplit.program_eq {text text' : Text} {caret : Nat} (h : IsSplit text text' caret) :
    program text' = program text := by
  obtain ⟨front, comment, back, pieces, _, _, _, _, htext, htext', hcomment, hpieces, -⟩ := h
  have hnone : pieces.filter (!·.kind.isTrivia) = [] :=
    List.filter_eq_nil_iff.2 fun piece hpiece => by simp [hpieces piece hpiece]
  have htrivia := Kind.isTrivia_of_isComment hcomment
  rw [program, program, htext, htext', List.filter_append, List.filter_append, List.filter_append,
    hnone, List.filter_cons_of_neg (by simp [htrivia]), List.nil_append]

/-- A caret in a comment: behind what opens it, and in front of what closes it. -/
def IsInside (text : Text) (caret : Nat) : Prop :=
  ∃ front comment back opened rest, ofText text = front ++ comment :: back
    ∧ comment.text = opened ++ rest ∧ Text.size (front.flatMap (·.text) ++ opened) = caret
    ∧ (comment.kind = .lineComment ∧ ['/', '/'] <+: opened
      ∨ comment.kind = .blockComment ∧ ['/', '*'] <+: opened
        ∧ (closer <:+ comment.text → closer <:+ rest))

/-- Where a comment is exchanged for others, the caret goes into the last of
them, behind what is new. -/
theorem isSplit_of_lexed {text first blank second : Text} {front back : List Token}
    {comment last : Token} {caret : Nat} (others : List Token) (new opened : Text)
    (htokens : ofText text = front ++ comment :: back)
    (hlexed : Lexed (front ++ ((others ++ [last]) ++ back)))
    (hcomment : comment.kind.isComment = true)
    (htrivia : ∀ piece ∈ others ++ [last], piece.kind.isTrivia = true)
    (htext : comment.text = first ++ blank ++ second)
    (hblank : ∀ c ∈ blank, Text.isBlank c = true)
    (hothers : others.flatMap (·.text) ++ opened = first ++ new)
    (hlast : last.text = opened ++ second)
    (hopened : last.kind = .lineComment ∧ ['/', '/'] <+: opened
      ∨ last.kind = .blockComment ∧ ['/', '*'] <+: opened ∧
      (closer <:+ last.text → closer <:+ second))
    (hstart : Text.size (front.flatMap (·.text) ++ first) ≤ caret)
    (hstop : caret ≤ Text.size (front.flatMap (·.text) ++ first ++ blank)) :
    IsSplit text (front.flatMap (·.text) ++ first ++ new ++ (second ++ back.flatMap (·.text))) caret
      ∧ IsInside (front.flatMap (·.text) ++ first ++ new ++ (second ++ back.flatMap (·.text)))
        (Text.size (front.flatMap (·.text) ++ first ++ new)) := by
  have hpieces : (others ++ [last]).flatMap (·.text) = first ++ new ++ second := by
    rw [List.flatMap_append, List.flatMap_singleton, hlast, ← List.append_assoc, hothers]
  have hnew : ofText (front.flatMap (·.text) ++ first ++ new ++ (second ++ back.flatMap (·.text)))
      = front ++ ((others ++ [last]) ++ back) := by
    have hall := hlexed
    rw [Lexed, List.flatMap_append, @List.flatMap_append _ _ _ back, hpieces] at hall
    simpa only [List.append_assoc] using hall
  refine ⟨⟨front, comment, back, others ++ [last], first, blank, second, new, htokens,
    hnew, hcomment, htrivia, htext, hblank, hpieces, hstart, hstop⟩, ?_⟩
  refine ⟨front ++ others, last, back, opened, second, ?_, hlast, ?_, hopened⟩
  · rw [hnew]
    simp only [List.append_assoc, List.singleton_append]
  · rw [List.flatMap_append, List.append_assoc, hothers, List.append_assoc]

end StatementCompletion.Token
