import Mathlib.Data.List.Infix
import StatementCompletion.Proofs.Token.Respacing

/-!
# Line breaks that change no program

The program of a text is its tokens without white space and comments.  A line break may come between
two tokens, into white space and into a comment, and where a line ends it may come in any case: what
is in front of it is read as before, because white space of any sort stops the scanners in one
place, and what is behind it is read from its own first character on.

Inside a block comment it is enough that a break puts no slash behind a star.
-/

namespace StatementCompletion.Token

/-- The tokens of a text but for white space and comments. -/
def program (text : Text) : List Token :=
  (ofText text).filter (!·.kind.isTrivia)

variable {token : Token} {left left' text : Text}

/-! ## Token by token -/

theorem Cuts.program_of_isTrivia (h : Cuts token left) (hkind : token.kind.isTrivia = true) :
    program (token.text ++ left) = program left := by
  rw [program, h.ofText_append, List.filter_cons_of_neg (by simp [hkind]), program]

theorem Cuts.program_cons (h : Cuts token left) (hkind : token.kind.isTrivia = false) :
    program (token.text ++ left) = token :: program left := by
  rw [program, h.ofText_append, List.filter_cons_of_pos (by simp [hkind]), program]

/-- White space in front of a text is no part of the program. -/
theorem program_spaces {gap : Text} (hgap : ∀ c ∈ gap, isSpace c = true) (text : Text) :
    program (gap ++ text) = program text := by
  -- all the white space in front of the first other character is one token
  have hwhite {gap : Text} (hgap : ∀ c ∈ gap, isSpace c = true) :
      program (gap ++ text.dropWhile isSpace) = program (text.dropWhile isSpace) := by
    by_cases hnil : gap = []
    · rw [hnil, List.nil_append]
    · exact (cuts_white hnil hgap fun c hhead => head_run hhead).program_of_isTrivia rfl
  have hfront : ∀ c ∈ text.takeWhile isSpace, isSpace c = true := fun c hc =>
    List.mem_takeWhile_imp hc
  rw [← List.takeWhile_append_dropWhile (p := isSpace) (l := text), ← List.append_assoc,
    hwhite (List.forall_mem_append.2 ⟨hgap, hfront⟩), hwhite hfront]

/-- What has only white space has no program. -/
theorem program_eq_nil {gap : Text} (hgap : ∀ c ∈ gap, isSpace c = true) : program gap = [] := by
  have h := program_spaces hgap []
  rwa [List.append_nil] at h

/-- Other white space between the tokens gives the same program. -/
theorem Respaced.program_eq {text' : Text} (h : Respaced (ofText text) (ofText text')) :
    program text' = program text := by
  have hfilter (tokens : List Token) : tokens.filter (!·.kind.isTrivia)
      = (tokens.filter (·.kind ≠ .whitespace)).filter (!·.kind.isTrivia) := by
    rw [List.filter_filter]
    refine List.filter_congr fun token _ => ?_
    cases token.kind <;> rfl
  rw [program, hfilter, h.filter_eq, ← hfilter, program]

/-! ## Behind the same tokens -/

theorem Continues.append_left (h : Continues left left') (text : Text) :
    Continues (text ++ left) (text ++ left') := by
  refine ⟨h.joins.append_left text, fun hnil c hc => ?_, fun c hc hreturn => ?_⟩
  · obtain ⟨rfl, hnil⟩ := List.append_eq_nil_iff.1 hnil
    exact h.ends.nil hnil c hc
  · cases text with
    | nil => exact h.ends.returns c hc hreturn
    | cons d rest => exact ⟨d, rfl, by rwa [← Option.some.inj hc] at hreturn⟩

/-- A text goes on like another one if the same is in front of white space in the one. -/
theorem continues_of_head {front rest new : Text} (hfront : front ≠ []) {c : Char}
    (hhead : new.head? = some c) (hspace : isSpace c = true) :
    Continues (front ++ rest) (front ++ new) := by
  refine ⟨(joins_of_isEdge hhead (isEdge_of_isSpace hspace)).append_left front,
    fun hnil => absurd (List.append_eq_nil_iff.1 hnil).1 hfront, fun d hd hreturn =>
      ⟨d, ?_, hreturn⟩⟩
  obtain ⟨e, tail, rfl⟩ := List.exists_cons_of_ne_nil hfront
  exact hd

/-- Anything may be followed by a new line. -/
theorem continues_of_isReturn {c : Char} (hhead : left'.head? = some c)
    (hreturn : isReturn c = true) :
    Continues left left' := by
  refine ⟨joins_of_isEdge hhead (isEdge_of_isSpace (isSpace_of_isReturn hreturn)), fun _ d hd => ?_,
    fun _ _ _ => ⟨c, hhead, hreturn⟩⟩
  rwa [← Option.some.inj (hhead.symm.trans hd)]

theorem Lexed.of_append {front back : List Token} (h : Lexed (front ++ back)) : Lexed back := by
  induction front with
  | nil => exact h
  | cons token front ih => exact ih h.of_cons.2

/-- Behind the same tokens a text has the same program if it goes on the same way. -/
theorem program_behind {front back : List Token} (hlexed : Lexed (front ++ back))
    (hleft : Continues (back.flatMap (·.text)) left')
    (hcomment : ∀ token, front.getLast? = some token → token.kind = .blockComment →
      back = [] → left' = [])
    (hprogram : program left' = program (back.flatMap (·.text))) :
    program (front.flatMap (·.text) ++ left') = program ((front ++ back).flatMap (·.text)) := by
  induction front with
  | nil => exact hprogram
  | cons token front ih =>
    rw [List.cons_append] at hlexed
    obtain ⟨hcuts, hlexed'⟩ := hlexed.of_cons
    have hrest := ih hlexed' fun last hlast => hcomment last (by
      cases front with
      | nil => cases hlast
      | cons first front => rwa [List.getLast?_cons_cons])
    rw [List.cons_append, List.flatMap_cons, List.flatMap_cons, List.append_assoc]
    by_cases hkind : token.kind = .whitespace
    · have hspaces := hcuts.isCutFrom.spaces hkind
      rw [program_spaces hspaces, program_spaces hspaces, hrest]
    · have hcuts' : Cuts token (front.flatMap (·.text) ++ left') := by
        refine hcuts.continues hkind ?_ fun hblock hnil => ?_
        · rw [List.flatMap_append]
          exact hleft.append_left _
        · obtain ⟨rfl, rfl⟩ := List.append_eq_nil_iff.1 (hlexed'.eq_nil hnil)
          exact hcomment token rfl hblock rfl
      cases htrivia : token.kind.isTrivia with
      | true => rw [hcuts'.program_of_isTrivia htrivia, hcuts.program_of_isTrivia htrivia, hrest]
      | false => rw [hcuts'.program_cons htrivia, hcuts.program_cons htrivia, hrest]

/-- A line break between two tokens, with or without white space around it. -/
theorem program_break_between {front back : List Token} (hlexed : Lexed (front ++ back))
    {blank rest new : Text} (hback : back.flatMap (·.text) = blank ++ rest)
    (hblank : ∀ c ∈ blank, isSpace c = true) (hnew : ∀ c ∈ new, isSpace c = true) {c : Char}
    (hhead : new.head? = some c) (hreturn : isReturn c = true)
    (hcomment : ∀ token, front.getLast? = some token → token.kind = .blockComment → back ≠ []) :
    program (front.flatMap (·.text) ++ (new ++ rest))
      = program ((front ++ back).flatMap (·.text)) := by
  have hhead' : (new ++ rest).head? = some c := by
    obtain ⟨more, rfl⟩ := List.head?_eq_some_iff.1 hhead
    rfl
  refine program_behind hlexed (continues_of_isReturn hhead' hreturn)
    (fun token hlast hblock hnil => absurd hnil (hcomment token hlast hblock)) ?_
  rw [hback, program_spaces hnew, program_spaces hblank]

/-- What takes the place of white space or a comment without changing the program behind it. -/
theorem program_replace {front back : List Token} (hlexed : Lexed (front ++ token :: back))
    (hkind : token.kind.isTrivia = true) {text' : Text}
    (hleft : Continues (token.text ++ back.flatMap (·.text)) text')
    (hprogram : program text' = program (back.flatMap (·.text))) :
    program (front.flatMap (·.text) ++ text')
      = program ((front ++ token :: back).flatMap (·.text)) := by
  refine program_behind hlexed hleft (fun _ _ _ hnil => absurd hnil (List.cons_ne_nil _ _)) ?_
  rw [hprogram, List.flatMap_cons, hlexed.of_append.of_cons.1.program_of_isTrivia hkind]

/-! ## Block comments -/

/-- What closes a block comment. -/
def closer : Text := ['*', '/']

/-- A comment goes on where nothing has closed it. -/
theorem blockComment_of_open {front text : Text} (h : ¬ closer <:+: front)
    (hjoin : front.getLast? = some '*' → text.head? ≠ some '/') :
    blockComment (front ++ text)
      = (front ++ (blockComment text).1, (blockComment text).2) := by
  induction front with
  | nil => rfl
  | cons c front ih =>
    have hrest := ih (fun hpart => h (List.infix_cons hpart)) fun hlast => hjoin (by
      cases front with
      | nil => cases hlast
      | cons d front => rwa [List.getLast?_cons_cons])
    rw [List.cons_append, blockComment, hrest]
    · rfl
    · -- what would close the comment here is in the front, or is put together with the text
      rintro more rfl hmore
      cases front with
      | nil => exact hjoin rfl (by rw [show text = '/' :: more from hmore]; rfl)
      | cons d front =>
        rw [List.cons_append, List.cons.injEq] at hmore
        exact h ⟨[], front, by rw [hmore.1]; rfl⟩

/-- A comment is taken up to what closes it first, or up to the end of the text. -/
theorem blockComment_spec (text : Text) :
    (∃ inside, (blockComment text).1 = inside ++ closer ∧ ¬ closer <:+: inside ++ ['*'])
      ∨ (blockComment text).2 = [] ∧ ¬ closer <:+: (blockComment text).1 := by
  fun_induction blockComment text with
  | case1 => exact .inr ⟨rfl, by simp [closer]⟩
  | case2 rest => exact .inl ⟨[], rfl, by simp [closer, List.infix_cons_iff]⟩
  | case3 c rest hne taken left heq ih =>
    have hrest := blockComment_append rest
    rw [heq] at ih hrest
    dsimp only at ih hrest ⊢
    -- nothing is closed by the first character, for then it would have been taken with the next
    have hfirst {more : Text} (hmore : more.head? = some '/' → rest.head? = some '/') :
        ¬ closer <+: c :: more := by
      rintro hprefix
      obtain ⟨hc, tail, htail⟩ := List.cons_prefix_cons.1 hprefix
      obtain ⟨tail', htail'⟩ := List.head?_eq_some_iff.1 (hmore (by rw [← htail]; rfl))
      exact hne tail' hc.symm htail'
    rcases ih with ⟨inside, htaken, hopen⟩ | ⟨hleft, hopen⟩
    · refine .inl ⟨c :: inside, by rw [htaken]; rfl, fun hpart => ?_⟩
      refine (List.infix_cons_iff.1 hpart).elim (hfirst fun hhead => ?_) hopen
      rw [← hrest, htaken]
      cases inside with
      | nil => cases hhead
      | cons d inside => exact hhead
    · refine .inr ⟨hleft, fun hpart => ?_⟩
      refine (List.infix_cons_iff.1 hpart).elim (hfirst fun hhead => ?_) hopen
      rwa [← hrest, hleft, List.append_nil]

/-- What a break puts into a block comment: it holds no slash, and no star at its end. -/
structure IsHarmless (new : Text) : Prop where
  nonempty : new ≠ []
  noSlash : ∀ c ∈ new, c ≠ '/'
  noStar : new.getLast? ≠ some '*'

theorem IsHarmless.not_infix {new : Text} (h : IsHarmless new) : ¬ closer <:+: new :=
  fun hpart => h.noSlash '/' (hpart.subset (by simp [closer])) rfl

theorem IsHarmless.head? {new : Text} (h : IsHarmless new) (text : Text) :
    (new ++ text).head? ≠ some '/' := by
  obtain ⟨c, rest, rfl⟩ := List.exists_cons_of_ne_nil h.nonempty
  intro hhead
  exact h.noSlash c List.mem_cons_self (Option.some.inj hhead)

/-- A block comment with a break in front of what closes it is taken up to the same place. -/
theorem blockComment_break {front blank back new : Text}
    (h : blockComment (front ++ blank ++ back ++ left) = (front ++ blank ++ back, left))
    (hback : closer <:+ front ++ blank ++ back → closer <:+ back) (hnew : IsHarmless new) :
    blockComment (front ++ new ++ back ++ left) = (front ++ new ++ back, left) := by
  have hfront {text : Text} (hopen : ¬ closer <:+: front) :
      blockComment (front ++ (new ++ text))
        = (front ++ (new ++ (blockComment text).1), (blockComment text).2) := by
    rw [blockComment_of_open hopen fun _ => hnew.head? text,
      blockComment_of_open hnew.not_infix fun hlast => absurd hlast hnew.noStar]
  have hspec := blockComment_spec (front ++ blank ++ back ++ left)
  rw [h] at hspec
  rcases hspec with ⟨inside, htaken, hopen⟩ | ⟨rfl, hopen⟩
  · -- the comment is closed, and what closes it is behind the break
    obtain ⟨back, rfl⟩ := hback ⟨inside, htaken.symm⟩
    obtain rfl : front ++ blank ++ back = inside := by
      dsimp only at htaken
      rwa [← List.append_assoc, List.append_left_inj] at htaken
    have hclosed : blockComment (back ++ (closer ++ left)) = (back ++ closer, left) := by
      rw [blockComment_of_open (fun hpart => hopen ?_) fun _ => by simp [closer]]
      · rfl
      · rw [List.append_assoc]
        exact (hpart.trans (List.prefix_append _ _).isInfix).trans (List.suffix_append _ _).isInfix
    have hmore := @hfront (back ++ (closer ++ left)) fun hpart => hopen (by
      rw [List.append_assoc, List.append_assoc]
      exact hpart.trans (List.prefix_append _ _).isInfix)
    rw [hclosed] at hmore
    simpa only [List.append_assoc] using hmore
  · -- it is open, and goes on up to the end of the text
    dsimp only at hopen
    have hopened : blockComment back = (back, []) := by
      have hback := @blockComment_of_open back [] (fun hpart => hopen ?_) fun _ => by simp
      · simpa [blockComment] using hback
      · exact hpart.trans (List.suffix_append _ _).isInfix
    have hmore := @hfront back fun hpart => hopen (by
      rw [List.append_assoc]
      exact hpart.trans (List.prefix_append _ _).isInfix)
    rw [hopened] at hmore
    simpa only [List.append_assoc, List.append_nil] using hmore

/-- How a token is cut off that is no part of the program. -/
theorem Cuts.trivia_cases (h : Cuts token left) (htrivia : token.kind.isTrivia = true) :
    (∃ c rest, isSpace c = true ∧ scanned .whitespace [c] (run isSpace rest) = (token, left))
      ∨ (∃ rest, scanned .lineComment ['/'] (run (fun c => !isReturn c) ('/' :: rest))
        = (token, left))
      ∨ ∃ rest, scanned .blockComment ['/', '*'] (blockComment rest) = (token, left) := by
  obtain ⟨c, rest, -, hnext⟩ := h
  have hopens : (next c rest).1.kind.isTrivia = true := by rwa [hnext]
  rcases opens_of_isTrivia_next hopens with hspace | ⟨rfl, hline⟩ | ⟨rfl, hblock⟩
  · rw [next_of_isSpace rest hspace] at hnext
    exact .inl ⟨c, rest, hspace, hnext⟩
  · rw [next_of_opensLine hline] at hnext
    obtain ⟨rest, rfl⟩ := List.head?_eq_some_iff.1 hline
    exact .inr (.inl ⟨rest, hnext⟩)
  · obtain ⟨rest, rfl⟩ := List.head?_eq_some_iff.1 hblock
    rw [next_of_opens] at hnext
    exact .inr (.inr ⟨rest, hnext⟩)

/-- A block comment is what is taken behind what opens it. -/
theorem Cuts.blockComment_eq (h : Cuts token left) (hkind : token.kind = .blockComment) :
    ∃ inside, token.text = '/' :: '*' :: inside
      ∧ blockComment (inside ++ left) = (inside, left) := by
  rcases h.trivia_cases (by rw [hkind]; rfl) with
    ⟨c, rest, -, hscan⟩ | ⟨rest, hscan⟩ | ⟨rest, hscan⟩ <;>
    obtain ⟨rfl, rfl⟩ := Prod.mk.inj hscan
  · cases hkind
  · cases hkind
  · exact ⟨(blockComment rest).1, rfl, by rw [blockComment_append]⟩

theorem cuts_blockComment {inside left : Text}
    (h : blockComment (inside ++ left) = (inside, left)) :
    Cuts { kind := .blockComment, text := '/' :: '*' :: inside } left :=
  ⟨'/', '*' :: (inside ++ left), rfl, by rw [next_of_opens, h]; rfl⟩

/-- A line comment goes up to the end of its line. -/
theorem Cuts.lineComment_eq (h : Cuts token left) (hkind : token.kind = .lineComment) :
    ∃ inside, token.text = '/' :: '/' :: inside ∧ (∀ c ∈ inside, isReturn c = false)
      ∧ ∀ c, left.head? = some c → isReturn c = true := by
  rcases h.trivia_cases (by rw [hkind]; rfl) with
    ⟨c, rest, -, hscan⟩ | ⟨rest, hscan⟩ | ⟨rest, hscan⟩ <;>
    obtain ⟨rfl, rfl⟩ := Prod.mk.inj hscan
  · cases hkind
  · refine ⟨rest.takeWhile fun c => !isReturn c, ?_, fun c hc => ?_, fun c hc => ?_⟩
    · rw [run, List.takeWhile_cons_of_pos (by decide)]
      rfl
    · simpa using List.mem_takeWhile_imp hc
    · simpa using head_run hc
  · cases hkind

theorem cuts_lineComment {inside left : Text} (hinside : ∀ c ∈ inside, isReturn c = false)
    (hleft : ∀ c, left.head? = some c → isReturn c = true) :
    Cuts { kind := .lineComment, text := '/' :: '/' :: inside } left := by
  refine ⟨'/', '/' :: (inside ++ left), rfl, ?_⟩
  have hrun : run (fun c => !isReturn c) ('/' :: inside ++ left) = ('/' :: inside, left) := by
    refine run_eq_of_forall (List.forall_mem_cons.2 ⟨rfl, fun c hc => ?_⟩) fun c hc => ?_
    · rw [hinside c hc]
      rfl
    · rw [hleft c hc]
      rfl
  rw [next_of_opensLine rfl]
  exact congrArg (scanned .lineComment ['/']) hrun

/-! ## Breaking a comment -/

section

variable {front back : List Token} {inside blank behind new : Text}

/-- A block comment that is broken is a comment. -/
theorem Cuts.break_block (h : Cuts token left) (hkind : token.kind = .blockComment)
    (htext : token.text = '/' :: '*' :: (inside ++ blank ++ behind))
    (hbehind : closer <:+ inside ++ blank ++ behind → closer <:+ behind) (hnew : IsHarmless new) :
    Cuts { kind := .blockComment, text := '/' :: '*' :: (inside ++ new ++ behind) } left := by
  obtain ⟨taken, htaken, hcomment⟩ := h.blockComment_eq hkind
  obtain rfl : inside ++ blank ++ behind = taken := by
    rw [htext] at htaken
    exact (List.cons.inj (List.cons.inj htaken).2).2
  exact cuts_blockComment (blockComment_break hcomment hbehind hnew)

/-- **A break in a block comment changes no program.** -/
theorem program_break_block (hlexed : Lexed (front ++ token :: back))
    (hkind : token.kind = .blockComment)
    (htext : token.text = '/' :: '*' :: (inside ++ blank ++ behind))
    (hbehind : closer <:+ inside ++ blank ++ behind → closer <:+ behind) (hnew : IsHarmless new)
    {c : Char} (hhead : new.head? = some c) (hspace : isSpace c = true) :
    program (front.flatMap (·.text)
        ++ ('/' :: '*' :: (inside ++ new ++ behind) ++ back.flatMap (·.text)))
      = program ((front ++ token :: back).flatMap (·.text)) := by
  have hbroken := hlexed.of_append.of_cons.1.break_block hkind htext hbehind hnew
  refine program_replace hlexed (by rw [hkind]; rfl) ?_ (hbroken.program_of_isTrivia rfl)
  have hcontinues := @continues_of_head ('/' :: '*' :: inside)
    (blank ++ behind ++ back.flatMap (·.text)) (new ++ behind ++ back.flatMap (·.text))
    (List.cons_ne_nil _ _) c (by
      obtain ⟨more, rfl⟩ := List.head?_eq_some_iff.1 hhead
      rfl) hspace
  rw [htext]
  simpa only [List.append_assoc, List.cons_append] using hcontinues

end

/-! ## Breaking a line where it ends -/

/-- Line breaks are in white space and block comments only. -/
theorem Cuts.kind_of_isReturn (h : Cuts token left) {c : Char} (hc : c ∈ token.text)
    (hreturn : isReturn c = true) : token.kind = .whitespace ∨ token.kind = .blockComment := by
  obtain ⟨d, rest, -, hnext⟩ := h
  by_cases hspace : isSpace d = true
  · rw [next_of_isSpace rest hspace] at hnext
    exact .inl (congrArg kind (Prod.mk.inj hnext).1).symm
  by_cases hblock : d = '/' ∧ rest.head? = some '*'
  · obtain ⟨rfl, hhead⟩ := hblock
    obtain ⟨rest, rfl⟩ := List.head?_eq_some_iff.1 hhead
    rw [next_of_opens] at hnext
    exact .inr (congrArg kind (Prod.mk.inj hnext).1).symm
  · have hinline := (next_isInline hspace hblock).notReturn c
    rw [hnext, hreturn] at hinline
    cases hinline hc

/-- A cut through a row of tokens is between two of them or inside one. -/
theorem exists_cut {tokens : List Token} {before after : Text}
    (h : tokens.flatMap (·.text) = before ++ after) :
    (∃ front back, tokens = front ++ back ∧ before = front.flatMap (·.text)
        ∧ after = back.flatMap (·.text))
      ∨ ∃ front token back first second, tokens = front ++ token :: back
        ∧ token.text = first ++ second ∧ first ≠ [] ∧ second ≠ []
        ∧ before = front.flatMap (·.text) ++ first
        ∧ after = second ++ back.flatMap (·.text) := by
  induction tokens generalizing before with
  | nil =>
    obtain ⟨rfl, rfl⟩ := List.append_eq_nil_iff.1 h.symm
    exact .inl ⟨[], [], rfl, rfl, rfl⟩
  | cons token tokens ih =>
    by_cases hbefore : before = []
    · exact .inl ⟨[], token :: tokens, rfl, hbefore, by rw [h, hbefore]; rfl⟩
    rw [List.flatMap_cons] at h
    rcases List.append_eq_append_iff.1 h with ⟨middle, rfl, hrest⟩ | ⟨middle, htext, rfl⟩
    · rcases ih hrest with ⟨front, back, rfl, rfl, rfl⟩
        | ⟨front, other, back, first, second, rfl, hother, hfirst, hsecond, rfl, rfl⟩
      · exact .inl ⟨token :: front, back, rfl, rfl, rfl⟩
      · refine .inr ⟨token :: front, other, back, first, second, rfl, hother, hfirst,
          hsecond, ?_, rfl⟩
        rw [List.flatMap_cons, List.append_assoc]
    · by_cases hmiddle : middle = []
      · refine .inl ⟨[token], tokens, rfl, ?_, by rw [hmiddle]; rfl⟩
        rw [List.flatMap_singleton, htext, hmiddle, List.append_nil]
      · exact .inr ⟨[], token, tokens, before, middle, rfl, htext, hbefore, hmiddle, rfl, rfl⟩

theorem isHarmless_of_spaces {gap : Text} (hnonempty : gap ≠ [])
    (hgap : ∀ c ∈ gap, isSpace c = true) : IsHarmless gap := by
  refine ⟨hnonempty, fun c hc hslash => ?_, fun hlast => ?_⟩
  · have hspace := hgap c hc
    rw [hslash] at hspace
    cases hspace
  · have hspace := hgap '*' (List.mem_of_getLast? hlast)
    cases hspace

/-- White space behind a block comment at the end of a text is read as white space if the comment is
closed, and as part of the comment if it is open. -/
theorem blockComment_spaces {taken gap : Text} (h : blockComment taken = (taken, []))
    (hnonempty : gap ≠ []) (hgap : ∀ c ∈ gap, isSpace c = true) :
    ∀ c ∈ (blockComment (taken ++ gap)).2, isSpace c = true := by
  have hharmless := isHarmless_of_spaces hnonempty hgap
  have hspec := blockComment_spec taken
  rw [h] at hspec
  rcases hspec with ⟨inside, rfl, hopen⟩ | ⟨-, hopen⟩
  · have hinside : ¬ closer <:+: inside := fun hpart =>
      hopen (hpart.trans (List.prefix_append _ _).isInfix)
    rw [List.append_assoc, blockComment_of_open hinside fun _ => by simp [closer]]
    exact hgap
  · have hhead := hharmless.head? []
    rw [List.append_nil] at hhead
    have hgapOpen := @blockComment_of_open gap [] hharmless.not_infix fun _ => by simp
    rw [List.append_nil] at hgapOpen
    rw [blockComment_of_open hopen fun _ => hhead, hgapOpen]
    simp [blockComment]

section

variable {front back : List Token} {inside first second new : Text} {c d : Char}

/-- The comment at the end of a text takes the white space behind it if it is open, and is
followed by it if it is closed. -/
theorem program_behind_comment (hlexed : Lexed (front ++ [token]))
    (hkind : token.kind = .blockComment)
    (hnew : ∀ c ∈ new, isSpace c = true) (hhead : new.head? = some c) :
    program (front.flatMap (·.text) ++ (token.text ++ new)) =
      program ((front ++ [token]).flatMap (·.text)) := by
  have hnonempty : new ≠ [] := by
    rintro rfl
    cases hhead
  have hspace := hnew c (List.mem_of_mem_head? hhead)
  obtain ⟨inside, htext, hinside⟩ := hlexed.of_append.of_cons.1.blockComment_eq hkind
  rw [List.flatMap_nil, List.append_nil] at hinside
  have htaken :
      Cuts { kind := .blockComment, text := '/' :: '*' :: (blockComment (inside ++ new)).1 }
      (blockComment (inside ++ new)).2 := cuts_blockComment (by rw [blockComment_append])
  have hprogram := htaken.program_of_isTrivia rfl
  rw [program_eq_nil (blockComment_spaces hinside hnonempty hnew), List.cons_append,
    List.cons_append, blockComment_append] at hprogram
  have hreplaced :=
    @program_replace token front [] hlexed (by rw [hkind]; rfl) (token.text ++ new) ?_ ?_
  · simpa only [List.flatMap_nil, List.append_nil] using hreplaced
  · exact continues_of_head (by simp [htext]) hhead hspace
  · rw [htext]
    exact hprogram

/-- White space in the middle of white space is white space. -/
theorem program_break_space (hlexed : Lexed (front ++ token :: back))
    (hkind : token.kind = .whitespace)
    (htext : token.text = first ++ second) (hfirst : first ≠ [])
    (hnew : ∀ c ∈ new, isSpace c = true) (hhead : new.head? = some c) :
    program (front.flatMap (·.text) ++ (first ++ new ++ second ++ back.flatMap (·.text)))
      = program ((front ++ token :: back).flatMap (·.text)) := by
  have hspaces := hlexed.of_append.of_cons.1.isCutFrom.spaces hkind
  rw [htext, List.forall_mem_append] at hspaces
  have hhead' : (new ++ (second ++ back.flatMap (·.text))).head? = some c := by
    obtain ⟨more, rfl⟩ := List.head?_eq_some_iff.1 hhead
    rfl
  refine program_replace hlexed (by rw [hkind]; rfl) ?_ ?_
  · rw [htext, List.append_assoc, List.append_assoc, List.append_assoc]
    exact continues_of_head hfirst hhead' (hnew c (List.mem_of_mem_head? hhead))
  · rw [List.append_assoc, List.append_assoc, program_spaces hspaces.1, program_spaces hnew,
      program_spaces hspaces.2]

/-- In front of a line break in a block comment there is what opens the comment. -/
theorem exists_opened (htext : first ++ d :: second = '/' :: '*' :: inside) (hfirst : first ≠ [])
    (hreturn : isReturn d = true) : ∃ inside', first = '/' :: '*' :: inside' := by
  rcases first with _ | ⟨e, _ | ⟨e', first⟩⟩
  · exact absurd rfl hfirst
  · obtain ⟨-, htail⟩ := List.cons.inj htext
    rw [(List.cons.inj htail).1] at hreturn
    cases hreturn
  · obtain ⟨rfl, htail⟩ := List.cons.inj htext
    obtain ⟨rfl, -⟩ := List.cons.inj htail
    exact ⟨first, rfl⟩

/-- White space in front of a line break in a block comment is in the comment. -/
theorem program_break_comment (hlexed : Lexed (front ++ token :: back))
    (hkind : token.kind = .blockComment)
    (htext : token.text = first ++ d :: second) (hfirst : first ≠ []) (hreturn : isReturn d = true)
    (hnew : ∀ c ∈ new, isSpace c = true) (hhead : new.head? = some c) :
    program (front.flatMap (·.text) ++ (first ++ new ++ d :: second ++ back.flatMap (·.text)))
      = program ((front ++ token :: back).flatMap (·.text)) := by
  obtain ⟨taken, htaken, -⟩ := hlexed.of_append.of_cons.1.blockComment_eq hkind
  obtain ⟨inside, rfl⟩ := exists_opened (htext.symm.trans htaken) hfirst hreturn
  have hnonempty : new ≠ [] := by
    rintro rfl
    cases hhead
  have hbroken := @program_break_block token front back inside [] (d :: second) new hlexed hkind
    (by simp [htext]) ?_ (isHarmless_of_spaces hnonempty hnew) c hhead
    (hnew c (List.mem_of_mem_head? hhead))
  · simpa only [List.append_assoc, List.cons_append] using hbroken
  · -- no part of the closing sign is a line break
    rw [List.append_nil]
    intro hcloser
    rcases List.suffix_or_suffix_of_suffix hcloser (List.suffix_append inside (d :: second))
      with hsuffix | hsuffix
    · exact hsuffix
    · have hmem : d ∈ closer := hsuffix.subset List.mem_cons_self
      rw [closer, List.mem_pair] at hmem
      rcases hmem with rfl | rfl <;> cases hreturn

end

/-- **A line may be broken at its end.** -/
theorem program_break_lineEnd {before after new : Text}
    (hafter : ∀ c, after.head? = some c → isReturn c = true) (hnew : ∀ c ∈ new, isSpace c = true)
    {c : Char} (hhead : new.head? = some c) (hreturn : isReturn c = true) :
    program (before ++ (new ++ after)) = program (before ++ after) := by
  have hlexed := lexed_ofText (before ++ after)
  have hflat := (ofText_spells (before ++ after)).flatMap_text
  rw [← hflat]
  generalize ofText (before ++ after) = tokens at hlexed hflat
  rcases exists_cut hflat with ⟨front, back, rfl, rfl, rfl⟩
    | ⟨front, token, back, first, second, rfl, htext, hfirst, hsecond, rfl, rfl⟩
  · by_cases hblock : ∃ token, front.getLast? = some token ∧ token.kind = .blockComment ∧ back = []
    · obtain ⟨token, hlast, hkind, rfl⟩ := hblock
      obtain ⟨front, rfl⟩ := List.getLast?_eq_some_iff.1 hlast
      rw [List.append_nil] at hlexed ⊢
      simpa using program_behind_comment hlexed hkind hnew hhead
    · refine @program_break_between front back hlexed [] _ new rfl (by simp) hnew c hhead hreturn ?_
      exact fun token hlast hkind hnil => hblock ⟨token, hlast, hkind, hnil⟩
  · -- the line ends in the middle of a token, which is white space or a block comment
    obtain ⟨d, second, rfl⟩ := List.exists_cons_of_ne_nil hsecond
    have hd := hafter d rfl
    have hmem : d ∈ token.text := by simp [htext]
    rcases hlexed.of_append.of_cons.1.kind_of_isReturn hmem hd with hkind | hkind
    · simpa using program_break_space hlexed hkind htext hfirst hnew hhead
    · simpa using program_break_comment hlexed hkind htext hfirst hd hnew hhead

end StatementCompletion.Token
