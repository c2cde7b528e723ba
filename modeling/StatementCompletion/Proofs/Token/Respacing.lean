import Mathlib.Data.List.Forall2
import StatementCompletion.Proofs.Token

/-!
# Tokens behind other white space

`Respaced` says of two rows of tokens that they are the same but for the white space: in front of a
token there may be other white space, or some where there was none.  `Respaced.ofText_eq` says that
such a row is still what its text is read as: the scanners stop at white space of any sort, so
nothing runs together and nothing falls apart.

White space is never taken away altogether, a line break behind a token stays a line break, and only
in front of a closing brace may a line feed come or go.  This is what `Refills` asks for.

So the tokens of a text are a row of pieces, each a token that is no white space behind some white
space, and some white space at the end.  Whoever changes the white space of the pieces speaks of
other pieces with the same tokens.
-/

namespace StatementCompletion.Token

/-! ## Other white space -/

/-- The white space in front of a token, which is one token unless there is none. -/
def blank (gap : Text) : List Token :=
  if gap = [] then [] else [{ kind := .whitespace, text := gap }]

/-- White space that may be in the place of other white space in front of a token of a kind. -/
structure Refills (kind : Kind) (old new : Text) : Prop where
  spaces : ∀ c ∈ new, isSpace c = true
  nonempty : old ≠ [] → new ≠ []
  returns : ∀ c, old.head? = some c → isReturn c = true → ∃ d, new.head? = some d
    ∧ isReturn d = true
  newline : kind ≠ .rightBrace → new.contains '\n' = old.contains '\n'

/-- Two rows of the same tokens behind other white space.  At the end it is the same. -/
inductive Respaced : List Token → List Token → Prop where
  | stop {gap : Text} : (∀ c ∈ gap, isSpace c = true) → Respaced (blank gap) (blank gap)
  | gap {token : Token} {tokens tokens' : List Token} {old new : Text} :
      token.kind ≠ .whitespace → (∀ c ∈ old, isSpace c = true) → Refills token.kind old new →
        Respaced tokens tokens' →
          Respaced (blank old ++ token :: tokens) (blank new ++ token :: tokens')

theorem Refills.refl {kind : Kind} {gap : Text} (h : ∀ c ∈ gap, isSpace c = true) :
    Refills kind gap gap :=
  ⟨h, id, fun c hc hreturn => ⟨c, hc, hreturn⟩, fun _ => rfl⟩

@[simp] theorem flatMap_blank (gap : Text) : (blank gap).flatMap (·.text) = gap := by
  unfold blank
  split
  · next h => rw [h, List.flatMap_nil]
  · simp

theorem blank_nil : blank [] = [] :=
  rfl

theorem kind_of_mem_blank {gap : Text} {token : Token} (h : token ∈ blank gap) :
    token.kind = .whitespace := by
  unfold blank at h
  split at h
  · cases h
  · rw [List.mem_singleton.1 h]

theorem blank_of_ne_nil {gap : Text} (h : gap ≠ []) :
    blank gap = [{ kind := .whitespace, text := gap }] :=
  if_neg h

/-! ## Going on the same way -/

/-- A character that no scanner goes on into from another one: white space, a
delimiter or a quote. -/
def isEdge (c : Char) : Bool :=
  isSpace c || c ∈ ['(', ')', '\x7b', '\x7d', ';', ',', '"', '\'']

/-- What a scanner may look for behind its first character. -/
def IsGlued (part : Text) : Prop :=
  ∀ c ∈ part, isEdge c = false

theorem isSpace_of_isEdge {c : Char} (h : isEdge c = false) : isSpace c = false :=
  (Bool.or_eq_false_iff.1 h).1

theorem isEdge_of_isSpace {c : Char} (h : isSpace c = true) : isEdge c = true := by
  rw [isEdge, h, Bool.true_or]

theorem isGlued_singleton {c : Char} (h : isEdge c = false) : IsGlued [c] :=
  List.forall_mem_singleton.2 h

theorem IsGlued.of_append {part rest : Text} (h : IsGlued (part ++ rest)) : IsGlued rest :=
  fun c hc => h c (List.mem_append_right _ hc)

/-- A text goes on like another one up to its first edge. -/
def Joins (left left' : Text) : Prop :=
  ∀ part : Text, IsGlued part → part <+: left' → part <+: left

/-- Where a text ends, another one ends or a line does, and where a line ends, one does. -/
structure EndsAlike (left left' : Text) : Prop where
  nil : left = [] → ∀ c, left'.head? = some c → isReturn c = true
  returns : ∀ c, left.head? = some c → isReturn c = true → ∃ d, left'.head? = some d
    ∧ isReturn d = true

/-- A text goes on like another one up to its first edge, and lines end alike. -/
structure Continues (left left' : Text) : Prop where
  joins : Joins left left'
  ends : EndsAlike left left'

theorem Continues.refl (left : Text) : Continues left left :=
  ⟨fun _ _ h => h, fun hnil c hc => by simp [hnil] at hc, fun c hc hreturn => ⟨c, hc, hreturn⟩⟩

theorem joins_nil (left : Text) : Joins left [] := by
  intro part _ hstarts
  rw [List.prefix_nil.1 hstarts]
  exact List.nil_prefix

theorem isSpace_of_isReturn {c : Char} (h : isReturn c = true) : isSpace c = true := by
  simp only [isReturn, Bool.or_eq_true, decide_eq_true_eq] at h
  rcases h with rfl | rfl <;> rfl

/-- What begins a text and what follows it begins the one with the other. -/
theorem Joins.append_left {left left' : Text} (h : Joins left left') (text : Text) :
    Joins (text ++ left) (text ++ left') := by
  intro part hpart hstarts
  rcases List.prefix_or_prefix_of_prefix hstarts (List.prefix_append text left') with hle | hle
  · exact hle.trans (List.prefix_append text left)
  · obtain ⟨rest, rfl⟩ := hle
    have hrest : rest <+: left' := (List.prefix_append_right_inj text).1 hstarts
    exact (List.prefix_append_right_inj text).2 (h rest hpart.of_append hrest)

/-- The first character is the same, or an edge. -/
theorem Joins.head_append {left left' : Text} (h : Joins left left') {text : Text} {c : Char}
    (hedge : isEdge c = false) (hhead : (text ++ left').head? = some c) :
    (text ++ left).head? = some c := by
  obtain ⟨tail, htail⟩ := List.head?_eq_some_iff.1 hhead
  have hstarts : [c] <+: text ++ left' := htail ▸ ⟨tail, rfl⟩
  obtain ⟨rest, hrest⟩ := h.append_left text _ (isGlued_singleton hedge) hstarts
  rw [← hrest]
  rfl

/-- From an edge on a text goes on in any way. -/
theorem joins_of_isEdge {left left' : Text} {c : Char} (hhead : left'.head? = some c)
    (hedge : isEdge c = true) :
    Joins left left' := by
  obtain ⟨more, rfl⟩ := List.head?_eq_some_iff.1 hhead
  intro part hpart hstarts
  cases part with
  | nil => exact List.nil_prefix
  | cons d part =>
    obtain ⟨rfl, -⟩ := List.cons_prefix_cons.1 hstarts
    have hinside := hpart d List.mem_cons_self
    rw [hedge] at hinside
    cases hinside

/-! ## Scanners that stop in the same place -/

/-- The edges. -/
def edges : Text :=
  [' ', '\t', '\n', '\r', '\x0c', '(', ')', '\x7b', '\x7d', ';', ',', '"', '\'']

theorem mem_edges {c : Char} (h : isEdge c = true) : c ∈ edges := by
  simpa [isEdge, isSpace, edges, or_assoc] using h

/-- No character of a class is an edge if none of the edges belongs to it. -/
theorem isEdge_eq_false_of_class {is : Char → Bool} (hclass : edges.any is = false) {c : Char}
    (h : is c = true) : isEdge c = false := by
  cases hedge : isEdge c with
  | false => rfl
  | true =>
    rw [List.any_eq_false] at hclass
    exact absurd h (hclass c (mem_edges hedge))

theorem isEdge_of_isDigit {c : Char} (h : c.isDigit = true) : isEdge c = false :=
  isEdge_eq_false_of_class rfl h

theorem isEdge_of_isNamePart {c : Char} (h : isNamePart c = true) : isEdge c = false :=
  isEdge_eq_false_of_class rfl h

/-- No number goes on into an edge. -/
theorem isEdge_of_number {previous c : Char} (h : (c.isAlphanum || c = '_' || c = '.'
    || ((previous = 'e' || previous = 'E') && (c = '+' || c = '-'))) = true) :
    isEdge c = false := by
  have hsigned : (c = '+' || c = '-') = true → isEdge c = false :=
    @isEdge_eq_false_of_class (fun c => c = '+' || c = '-') rfl c
  have hplain : (c.isAlphanum || c = '_' || c = '.') = true → isEdge c = false :=
    @isEdge_eq_false_of_class (fun c => c.isAlphanum || c = '_' || c = '.') rfl c
  rcases Bool.or_eq_true_iff.1 h with hc | hc
  · exact hplain hc
  · exact hsigned (Bool.and_eq_true_iff.1 hc).2

theorem isGlued_number (previous : Char) (text : Text) : IsGlued (number previous text).1 := by
  fun_induction number previous text with
  | case1 => exact List.forall_mem_nil _
  | case2 previous c rest hc taken left heq ih =>
    rw [heq] at ih
    exact List.forall_mem_cons.2 ⟨isEdge_of_number hc, ih⟩
  | case3 => exact List.forall_mem_nil _

theorem run_eq_of_forall {inClass : Char → Bool} {taken left : Text}
    (htaken : ∀ c ∈ taken, inClass c = true)
    (hleft : ∀ c, left.head? = some c → inClass c = false) :
    run inClass (taken ++ left) = (taken, left) := by
  have hstop : left.takeWhile inClass = [] ∧ left.dropWhile inClass = left := by
    cases left with
    | nil => exact ⟨rfl, rfl⟩
    | cons c rest => simp [hleft c rfl]
  rw [run, List.takeWhile_append_of_pos htaken, List.dropWhile_append_of_pos htaken, hstop.1,
    hstop.2, List.append_nil]

/-- What is taken begins like the text that it is taken from. -/
theorem head_blockComment (text : Text) : (blockComment text).1.head? = text.head? := by
  fun_cases blockComment text <;> rfl

theorem blockComment_eq {text taken left left' : Text} (h : blockComment text = (taken, left))
    (hnil : left = [] → left' = []) : blockComment (taken ++ left') = (taken, left') := by
  fun_induction blockComment text generalizing taken left with
  | case1 =>
    obtain ⟨rfl, rfl⟩ := Prod.mk.inj h
    rw [hnil rfl]
    rfl
  | case2 rest =>
    obtain ⟨rfl, rfl⟩ := Prod.mk.inj h
    rfl
  | case3 c rest hne front back heq ih =>
    obtain ⟨rfl, rfl⟩ := Prod.mk.inj h
    rw [List.cons_append, blockComment, ih heq hnil]
    -- what closes the comment here would have closed it before
    intro more hc hmore
    have hhead := head_blockComment rest
    rw [heq] at hhead
    cases front with
    | nil =>
      have hrest : rest = [] := List.head?_eq_none_iff.1 hhead.symm
      have hback : back = [] := by
        rw [hrest] at heq
        exact (Prod.mk.inj heq).2.symm
      rw [hnil hback] at hmore
      cases hmore
    | cons d front =>
      rw [List.cons_append, List.cons.injEq] at hmore
      rw [List.head?_cons, hmore.1] at hhead
      obtain ⟨tail, htail⟩ := List.head?_eq_some_iff.1 hhead.symm
      exact hne tail hc htail

/-- Nothing is taken where the text or a line ends. -/
theorem quoted_of_head_isReturn {quote : Char} {text : Text}
    (h : ∀ c, text.head? = some c → isReturn c = true) : quoted quote text = ([], text) := by
  cases text with
  | nil => rfl
  | cons c rest =>
    unfold quoted
    exact if_pos (h c rfl)

theorem quoted_eq {quote : Char} {text taken left left' : Text}
    (h : quoted quote text = (taken, left))
    (hleft : EndsAlike left left') : quoted quote (taken ++ left') = (taken, left') := by
  fun_induction quoted quote text generalizing taken left with
  | case1 =>
    obtain ⟨rfl, rfl⟩ := Prod.mk.inj h
    exact quoted_of_head_isReturn (hleft.nil rfl)
  | case2 c rest hc =>
    obtain ⟨rfl, rfl⟩ := Prod.mk.inj h
    obtain ⟨d, hhead, hd⟩ := hleft.returns c rfl hc
    refine quoted_of_head_isReturn fun e he => ?_
    rw [Option.some.inj (he.symm.trans hhead), hd]
  | case3 hc =>
    obtain ⟨rfl, rfl⟩ := Prod.mk.inj h
    cases left' with
    | nil => rfl
    | cons d rest =>
      unfold quoted
      simp [hc, hleft.nil rfl d rfl]
  | case4 d rest hd hc =>
    obtain ⟨rfl, rfl⟩ := Prod.mk.inj h
    obtain ⟨e, hhead, he⟩ := hleft.returns d rfl hd
    obtain ⟨tail, rfl⟩ := List.head?_eq_some_iff.1 hhead
    unfold quoted
    simp [hc, he]
  | case5 d rest hd front back heq hc ih =>
    obtain ⟨rfl, rfl⟩ := Prod.mk.inj h
    have hrest := ih heq hleft
    unfold quoted
    simp [hc, hd, hrest]
  | case6 rest hc hne =>
    obtain ⟨rfl, rfl⟩ := Prod.mk.inj h
    unfold quoted
    simp [hc, hne]
  | case7 c rest hc hne hquote front back heq ih =>
    obtain ⟨rfl, rfl⟩ := Prod.mk.inj h
    have hrest := ih heq hleft
    unfold quoted
    simp [hc, hne, hquote, hrest]

theorem number_eq {previous : Char} {text taken left left' : Text}
    (h : number previous text = (taken, left)) (hleft : Joins left left') :
    number previous (taken ++ left') = (taken, left') := by
  fun_induction number previous text generalizing taken left with
  | case1 =>
    obtain ⟨rfl, rfl⟩ := Prod.mk.inj h
    rw [List.nil_append]
    cases left' with
    | nil => rfl
    | cons d rest =>
      rw [number, if_neg]
      intro hd
      cases @Joins.head_append _ _ hleft [] _ (isEdge_of_number hd) rfl
  | case2 previous c rest hc front back heq ih =>
    obtain ⟨rfl, rfl⟩ := Prod.mk.inj h
    have hrest := ih heq hleft
    rw [List.cons_append, number, if_pos hc]
    simp only [hrest]
  | case3 previous c rest hc =>
    obtain ⟨rfl, rfl⟩ := Prod.mk.inj h
    rw [List.nil_append]
    cases left' with
    | nil => rfl
    | cons d rest' =>
      rw [number, if_neg]
      intro hd
      have hhead := @Joins.head_append _ _ hleft [] _ (isEdge_of_number hd) rfl
      obtain rfl : c = d := by simpa using hhead
      exact hc hd

/-! ## Signs -/

/-- Behind its first character no sign has an edge. -/
theorem isGlued_of_mem_signs : ∀ entry ∈ signs, IsGlued entry.1.toList.tail := by
  have hall : ∀ entry ∈ signs, entry.1.toList.tail.all (!isEdge ·) = true := by decide
  intro entry hentry
  simpa [IsGlued] using hall entry hentry

theorem find?_eq_of_imp {α : Type} {p q : α → Bool} {entries : List α}
    (himp : ∀ entry ∈ entries, q entry = true → p entry = true)
    (hfound : ∀ entry, entries.find? p = some entry → q entry = true) :
    entries.find? q = entries.find? p := by
  induction entries with
  | nil => rfl
  | cons entry rest ih =>
    obtain ⟨hentry, hrest⟩ := List.forall_mem_cons.1 himp
    cases hp : p entry with
    | true =>
      have hq : q entry = true := hfound entry (by rw [List.find?_cons, hp])
      rw [List.find?_cons, List.find?_cons, hp, hq]
    | false =>
      have hq : q entry = false := by
        cases hq : q entry with
        | false => rfl
        | true => rw [hentry hq] at hp; cases hp
      rw [List.find?_cons, List.find?_cons, hp, hq]
      refine ih hrest fun other hother => hfound other ?_
      rw [List.find?_cons, hp]
      exact hother

theorem sign?_eq {c : Char} {text left left' : Text} (hleft : Joins left left')
    (hfound : ∀ sign kind, sign? (c :: (text ++ left)) = some (sign, kind) → sign = c :: text) :
    sign? (c :: (text ++ left')) = sign? (c :: (text ++ left)) := by
  unfold sign?
  rw [find?_eq_of_imp (fun entry hentry hstarts => ?_) fun entry hentry => ?_]
  · rw [List.isPrefixOf_iff_prefix] at hstarts ⊢
    have htail := isGlued_of_mem_signs entry hentry
    cases hsign : entry.1.toList with
    | nil => exact List.nil_prefix
    | cons d tail =>
      rw [hsign, List.cons_prefix_cons] at hstarts
      rw [hsign, List.tail_cons] at htail
      exact List.cons_prefix_cons.2 ⟨hstarts.1, hleft.append_left text _ htail hstarts.2⟩
  · have hsign : entry.1.toList = c :: text := hfound _ entry.2 (by rw [sign?, hentry]; rfl)
    rw [List.isPrefixOf_iff_prefix, hsign]
    exact List.prefix_append (c :: text) left'

/-! ## A first token -/

/-- A token is what a text is cut into first, with the rest behind it. -/
def Cuts (token : Token) (left : Text) : Prop :=
  ∃ c rest, token.text ++ left = c :: rest ∧ next c rest = (token, left)

theorem isSpace_of_next {c : Char} {rest : Text} (h : isSpace c = true) :
    (next c rest).1.kind = .whitespace := by
  rw [next, if_pos h]
  rfl

/-- What a scanner took, and the kind of its token. -/
theorem scanned_inj {kind : Kind} {start tail left : Text} {parts : Text × Text} {token : Token}
    (h : scanned kind start parts = (token, left)) (htext : token.text = start ++ tail) :
    token = { kind, text := start ++ tail } ∧ parts = (tail, left) := by
  obtain ⟨rfl, rfl⟩ := Prod.mk.inj h
  have htail : parts.1 = tail := List.append_cancel_left htext
  rw [← htail]
  exact ⟨rfl, rfl⟩

section

variable {c : Char} {tail rest left left' : Text} {token : Token}

/-! ### The same scanner -/

/-- What a scanner is chosen by besides the first character: the second one of what opens a comment,
or of a number that begins with a dot. -/
def looksAt (c d : Char) : Bool :=
  (c = '/' && (d = '/' || d = '*')) || (c = '.' && d.isDigit)

theorem isEdge_of_looksAt {d : Char} (h : looksAt c d = true) : isEdge d = false := by
  simp only [looksAt, Bool.or_eq_true, Bool.and_eq_true, decide_eq_true_eq] at h
  rcases h with ⟨-, rfl | rfl⟩ | ⟨-, hdigit⟩
  · rfl
  · rfl
  · exact isEdge_of_isDigit hdigit

/-- A character that a scanner is chosen by is in the token. -/
theorem tail_ne_nil_of_looksAt {d : Char} (h : looksAt c d = true)
    (hhead : (tail ++ left).head? = some d)
    (hnext : next c (tail ++ left) = (token, left)) (htext : token.text = c :: tail) :
    tail ≠ [] := by
  rintro rfl
  obtain ⟨more, rfl⟩ := List.head?_eq_some_iff.1 hhead
  have htaken : (next c (d :: more)).1.text = [c] := by
    rw [← htext, ← List.nil_append (d :: more), hnext]
  simp only [looksAt, Bool.or_eq_true, Bool.and_eq_true, decide_eq_true_eq] at h
  rcases h with ⟨rfl, rfl | rfl⟩ | ⟨rfl, hdigit⟩
  · rw [next_of_opensLine rfl] at htaken
    simp [scanned, run, isReturn] at htaken
  · rw [next_of_opens] at htaken
    simp [scanned] at htaken
  · simp [next, isSpace, hdigit, scanned, number, Char.isAlphanum] at htaken

/-- So it is there whether the one or the other text goes on behind the token. -/
theorem head?_iff_of_looksAt (hleft : Joins left left') {d : Char} (h : looksAt c d = true)
    (hnext : next c (tail ++ left) = (token, left)) (htext : token.text = c :: tail) :
    (tail ++ left').head? = some d ↔ (tail ++ left).head? = some d := by
  refine ⟨hleft.head_append (isEdge_of_looksAt h), fun hhead => ?_⟩
  obtain ⟨e, more, rfl⟩ := List.exists_cons_of_ne_nil (tail_ne_nil_of_looksAt h hhead hnext htext)
  exact hhead

/-- A number begins in the one text if it does in the other one. -/
theorem opensNumber_eq (hleft : Joins left left') (hnext : next c (tail ++ left) = (token, left))
    (htext : token.text = c :: tail) :
    (c.isDigit || (c = '.' && (tail ++ left').head?.any Char.isDigit))
      = (c.isDigit || (c = '.' && (tail ++ left).head?.any Char.isDigit)) := by
  by_cases hdot : c = '.'
  · rw [Bool.eq_iff_iff]
    have hlook {d : Char} (hdigit : d.isDigit = true) :=
      head?_iff_of_looksAt (d := d) hleft (by simp [looksAt, hdot, hdigit]) hnext htext
    simp only [Bool.or_eq_true, Bool.and_eq_true, Option.any_eq_true]
    refine or_congr_right (and_congr_right fun _ =>
      ⟨fun ⟨d, hhead, hdigit⟩ => ?_, fun ⟨d, hhead, hdigit⟩ => ?_⟩)
    · exact ⟨d, (hlook hdigit).1 hhead, hdigit⟩
    · exact ⟨d, (hlook hdigit).2 hhead, hdigit⟩
  · simp [hdot]

/-! ### The same part -/

/-- Where a scanner stops in front of a text, it stops in front of another one. -/
def Stops (scan : Text → Text × Text) (left left' : Text) : Prop :=
  ∀ taken, scan (taken ++ left) = (taken, left) → scan (taken ++ left') = (taken, left')

theorem scanned_of_stops {kind : Kind} {start : Text} {scan : Text → Text × Text}
    (h : scanned kind start (scan (tail ++ left)) = (token, left))
    (htext : token.text = start ++ tail)
    (hscan : token.kind = kind → scan (tail ++ left) = (tail, left) →
      scan (tail ++ left') = (tail, left')) :
    scanned kind start (scan (tail ++ left')) = (token, left') := by
  obtain ⟨rfl, hparts⟩ := scanned_inj h htext
  rw [hscan rfl hparts]
  rfl

/-- The rest of a line is taken up to the same place. -/
theorem run_line_eq (h : run (!isReturn ·) (tail ++ left) = (tail, left))
    (hleft : EndsAlike left left') : run (!isReturn ·) (tail ++ left') = (tail, left') := by
  refine run_eq_of_forall (fun d hd => ?_) fun d hd => ?_
  · refine @mem_run (!isReturn ·) (tail ++ left) d ?_
    rwa [h]
  · cases hhead : left.head? with
    | none => simp [hleft.nil (List.head?_eq_none_iff.1 hhead) d hd]
    | some e =>
      have hreturn : isReturn e = true := by
        have hstop := @head_run (!isReturn ·) (tail ++ left) e (by rw [h]; exact hhead)
        simpa using hstop
      obtain ⟨d', hd', hreturn'⟩ := hleft.returns e hhead hreturn
      rw [hd'] at hd
      cases hd
      simp [hreturn']

/-- A name is taken up to the same place. -/
theorem run_name_eq (h : run isNamePart (tail ++ left) = (tail, left)) (hleft : Joins left left') :
    run isNamePart (tail ++ left') = (tail, left') := by
  refine run_eq_of_forall (fun d hd => ?_) fun d hd => ?_
  · refine @mem_run isNamePart (tail ++ left) d ?_
    rwa [h]
  · cases hpart : isNamePart d with
    | false => rfl
    | true =>
      have hhead := @Joins.head_append _ _ hleft [] _ (isEdge_of_isNamePart hpart) hd
      have hstop := @head_run isNamePart (tail ++ left) d (by rw [h]; exact hhead)
      rw [hpart] at hstop
      cases hstop

/-- Whether a token of a kind is a literal in quotes. -/
def isQuoted (kind : Kind) : Bool :=
  kind = .stringLiteral || kind = .charLiteral

/-- A name is the same. -/
theorem name_of_joins (hleft : Joins left left') (htext : token.text = c :: tail)
    (h : ({ kind := kindOfName (c :: (tail ++ left).takeWhile isNamePart),
            text := c :: (tail ++ left).takeWhile isNamePart }, (tail ++ left).dropWhile isNamePart)
      = (token, left)) :
    ({ kind := kindOfName (c :: (tail ++ left').takeWhile isNamePart),
       text := c :: (tail ++ left').takeWhile isNamePart }, (tail ++ left').dropWhile isNamePart)
      = (token, left') := by
  obtain ⟨rfl, hbehind⟩ := Prod.mk.inj h
  have htaken : (tail ++ left).takeWhile isNamePart = tail := (List.cons.inj htext).2
  obtain ⟨htaken', hbehind'⟩ := Prod.mk.inj (run_name_eq (Prod.ext htaken hbehind) hleft)
  rw [htaken, htaken', hbehind']

/-- A sign is the same, and what is no sign does not become one. -/
theorem sign_of_joins (hleft : Joins left left') (htext : token.text = c :: tail)
    (h : (match sign? (c :: (tail ++ left)) with
      | some (sign, kind) =>
        (({ kind, text := sign } : Token), (c :: (tail ++ left)).drop sign.length)
      | none => ({ kind := .error, text := [c] }, tail ++ left)) = (token, left)) :
    (match sign? (c :: (tail ++ left')) with
      | some (sign, kind) =>
        (({ kind, text := sign } : Token), (c :: (tail ++ left')).drop sign.length)
      | none => ({ kind := .error, text := [c] }, tail ++ left')) = (token, left') := by
  have hsign : sign? (c :: (tail ++ left')) = sign? (c :: (tail ++ left)) := by
    refine sign?_eq hleft fun sign kind hfound => ?_
    rw [hfound] at h
    obtain ⟨rfl, -⟩ := Prod.mk.inj h
    exact htext
  rw [hsign]
  rcases hfound : sign? (c :: (tail ++ left)) with _ | ⟨sign, kind⟩
  · rw [hfound] at h
    obtain ⟨rfl, -⟩ := Prod.mk.inj h
    obtain rfl : [] = tail := (List.cons.inj htext).2
    rfl
  · rw [hfound] at h
    obtain ⟨rfl, -⟩ := Prod.mk.inj h
    obtain rfl : sign = c :: tail := htext
    dsimp only
    rw [← List.cons_append, List.drop_left]

/-- A token is cut off wherever the text behind it goes on the same way up to an edge, if the
scanners that go on behind an edge stop there: those for white space, comments and literals. -/
theorem Cuts.stops (h : Cuts token left) (hleft : Joins left left')
    (hspace : token.kind = .whitespace → Stops (run isSpace) left left')
    (hline : token.kind = .lineComment → Stops (run (!isReturn ·)) left left')
    (hblock : token.kind = .blockComment → Stops blockComment left left')
    (hliteral : ∀ quote taken, isQuoted token.kind = true → token.text = quote :: taken →
      quoted quote (taken ++ left) = (taken, left) →
        quoted quote (taken ++ left') = (taken, left')) :
    Cuts token left' := by
  obtain ⟨c, rest, htext, hnext⟩ := h
  have hcut := next_isCutFrom c rest
  rw [hnext] at hcut
  obtain ⟨d, tail, htail⟩ := List.exists_cons_of_ne_nil hcut.nonempty
  rw [htail, List.cons_append, List.cons.injEq] at htext
  obtain ⟨rfl, rfl⟩ := htext
  refine ⟨d, tail ++ left', by rw [htail, List.cons_append], ?_⟩
  -- the same scanner is chosen
  have hopensLine : (d = '/' ∧ (tail ++ left').head? = some '/') ↔
      (d = '/' ∧ (tail ++ left).head? = some '/') :=
    and_congr_right fun hd => head?_iff_of_looksAt hleft (by rw [hd]; rfl) hnext htail
  have hopensBlock : (d = '/' ∧ (tail ++ left').head? = some '*') ↔
      (d = '/' ∧ (tail ++ left).head? = some '*') :=
    and_congr_right fun hd => head?_iff_of_looksAt hleft (by rw [hd]; rfl) hnext htail
  have hopensNumber := opensNumber_eq hleft hnext htail
  unfold next at hnext ⊢
  simp only [hopensLine, hopensBlock, hopensNumber]
  -- and it stops in the same place
  split_ifs at hnext ⊢ with hwhite hslash hstar hquote hapostrophe hnumber hname
  · -- white space
    exact scanned_of_stops hnext htail fun hkind => hspace hkind tail
  · -- a line comment
    exact scanned_of_stops hnext htail fun hkind => hline hkind tail
  · -- a block comment, with the star in it
    obtain ⟨more, rfl⟩ : ∃ more, tail = '*' :: more := by
      obtain ⟨htoken, -⟩ := Prod.mk.inj hnext
      rw [← htoken, List.cons_append, List.cons.injEq] at htail
      exact ⟨_, htail.2.symm⟩
    exact @scanned_of_stops more _ _ _ _ _ _ hnext htail fun hkind => hblock hkind more
  · -- a string literal
    exact scanned_of_stops hnext htail fun hkind => hliteral d tail (by rw [hkind]; rfl) htail
  · -- a character literal
    exact scanned_of_stops hnext htail fun hkind => hliteral d tail (by rw [hkind]; rfl) htail
  · -- a number
    exact scanned_of_stops hnext htail fun _ hparts => number_eq hparts hleft
  · -- a name
    exact name_of_joins hleft htail hnext
  · -- a sign, or what is none
    exact sign_of_joins hleft htail hnext

/-- A token that is no white space is cut off wherever the text behind it goes on the same way, up
to an edge.  A line comment has to end there, a block comment or a literal may have to. -/
theorem Cuts.joins (h : Cuts token left) (hkind : token.kind ≠ .whitespace)
    (hleft : Joins left left') (hline : token.kind = .lineComment → EndsAlike left left')
    (hblock : token.kind = .blockComment → left = [] → left' = [])
    (hliteral : ∀ quote taken, isQuoted token.kind = true → token.text = quote :: taken →
      quoted quote (taken ++ left) = (taken, left) →
        quoted quote (taken ++ left') = (taken, left')) :
    Cuts token left' :=
  h.stops hleft (fun hspace => absurd hspace hkind)
    (fun hkind _ hparts => run_line_eq hparts (hline hkind))
    (fun hkind _ hparts => blockComment_eq hparts (hblock hkind)) hliteral

/-- A token that is no white space is cut off wherever the text behind it goes on the same way; but
a block comment may have to go on where the text does not end any more. -/
theorem Cuts.continues (h : Cuts token left) (hkind : token.kind ≠ .whitespace)
    (hleft : Continues left left')
    (hcomment : token.kind = .blockComment → left = [] → left' = []) : Cuts token left' :=
  h.joins hkind hleft.joins (fun _ => hleft.ends) hcomment fun _ _ _ _ hparts =>
    quoted_eq hparts hleft.ends

/-- A token that is no white space begins with none. -/
theorem Cuts.head_isSpace (h : Cuts token left) (hkind : token.kind ≠ .whitespace) {c : Char}
    (hhead : (token.text ++ left).head? = some c) : isSpace c = false := by
  obtain ⟨d, rest, htext, hnext⟩ := h
  rw [htext, List.head?_cons, Option.some.injEq] at hhead
  subst hhead
  cases hspace : isSpace d with
  | false => rfl
  | true =>
    have hwhite := @isSpace_of_next _ rest hspace
    rw [hnext] at hwhite
    exact absurd hwhite hkind

theorem Cuts.isCutFrom (h : Cuts token left) : token.IsCutFrom left := by
  obtain ⟨c, rest, -, hnext⟩ := h
  have hcut := next_isCutFrom c rest
  rwa [hnext] at hcut

theorem Cuts.text_ne_nil (h : Cuts token left) : token.text ≠ [] :=
  h.isCutFrom.nonempty

/-- White space is cut off in front of anything else. -/
theorem cuts_white {gap : Text} (hgap : gap ≠ []) (hspaces : ∀ c ∈ gap, isSpace c = true)
    (hleft : ∀ c, left.head? = some c → isSpace c = false) :
    Cuts { kind := .whitespace, text := gap } left := by
  obtain ⟨c, more, rfl⟩ := List.exists_cons_of_ne_nil hgap
  obtain ⟨hc, hmore⟩ := List.forall_mem_cons.1 hspaces
  refine ⟨c, more ++ left, rfl, ?_⟩
  rw [next, if_pos hc, run_eq_of_forall hmore hleft]
  rfl

end

/-! ## All tokens -/

theorem ofTextWithin_eq (n : Nat) (text : Text) (h : text.length ≤ n) :
    ofTextWithin n text = ofText text := by
  have hmore (m : Nat) (text : Text) (h : text.length ≤ m) :
      ofTextWithin (m + 1) text = ofTextWithin m text := by
    induction m generalizing text with
    | zero =>
      rw [List.eq_nil_of_length_eq_zero (Nat.le_zero.1 h)]
      rfl
    | succ m ih =>
      cases text with
      | nil => rfl
      | cons c rest =>
        have hlength := congrArg List.length (next_append c rest)
        have hpos := List.length_pos_iff.2 (next_isCutFrom c rest).nonempty
        simp only [List.length_append, List.length_cons] at hlength h
        show (next c rest).1 :: ofTextWithin (m + 1) (next c rest).2
          = (next c rest).1 :: ofTextWithin m (next c rest).2
        rw [ih (next c rest).2 (by omega)]
  induction n, h using Nat.le_induction with
  | base => rfl
  | succ n h ih => rw [hmore n text h, ih]

theorem ofText_cons (c : Char) (rest : Text) :
    ofText (c :: rest) = (next c rest).1 :: ofText (next c rest).2 := by
  have hlength := congrArg List.length (next_append c rest)
  have hpos := List.length_pos_iff.2 (next_isCutFrom c rest).nonempty
  simp only [List.length_append, List.length_cons] at hlength
  show (next c rest).1 :: ofTextWithin rest.length (next c rest).2 = _
  rw [ofTextWithin_eq rest.length (next c rest).2 (by omega)]

theorem Cuts.ofText_append {token : Token} {left : Text} (h : Cuts token left) :
    ofText (token.text ++ left) = token :: ofText left := by
  obtain ⟨c, rest, htext, hnext⟩ := h
  rw [htext, ofText_cons, hnext]

/-- A row of tokens that its text is read as. -/
def Lexed (tokens : List Token) : Prop :=
  ofText (tokens.flatMap (·.text)) = tokens

theorem lexed_ofText (text : Text) : Lexed (ofText text) := by
  rw [Lexed, (ofText_spells text).flatMap_text]

theorem Lexed.of_cons {token : Token} {tokens : List Token} (h : Lexed (token :: tokens)) :
    Cuts token (tokens.flatMap (·.text)) ∧ Lexed tokens := by
  unfold Lexed at h
  rw [List.flatMap_cons] at h
  cases htext : token.text ++ tokens.flatMap (·.text) with
  | nil =>
    rw [htext] at h
    cases h
  | cons c rest =>
    rw [htext, ofText_cons] at h
    obtain ⟨htoken, hrest⟩ := List.cons.inj h
    have happend := next_append c rest
    rw [htoken, ← htext] at happend
    have hleft := List.append_cancel_left happend
    rw [hleft] at hrest
    exact ⟨⟨c, rest, htext, Prod.ext htoken hleft⟩, hrest⟩

theorem Lexed.eq_nil {tokens : List Token} (h : Lexed tokens)
    (hnil : tokens.flatMap (·.text) = []) : tokens = [] := by
  rw [Lexed, hnil] at h
  exact h.symm

theorem Lexed.cons {token : Token} {tokens : List Token}
    (h : Cuts token (tokens.flatMap (·.text))) (htokens : Lexed tokens) :
    Lexed (token :: tokens) := by
  rw [Lexed, List.flatMap_cons, h.ofText_append, htokens]

theorem Lexed.of_blank {gap : Text} {tokens : List Token} (h : Lexed (blank gap ++ tokens)) :
    Lexed tokens := by
  by_cases hgap : gap = []
  · rwa [hgap, blank_nil, List.nil_append] at h
  · rw [blank_of_ne_nil hgap, List.singleton_append] at h
    exact h.of_cons.2

/-- Behind white space comes something else. -/
theorem Lexed.kind_ne_whitespace {gap : Text} {token : Token} {tokens : List Token}
    (hgap : gap ≠ []) (h : Lexed (blank gap ++ token :: tokens)) : token.kind ≠ .whitespace := by
  intro hkind
  rw [blank_of_ne_nil hgap, List.singleton_append] at h
  obtain ⟨hgapCuts, htokens⟩ := h.of_cons
  obtain ⟨htokenCuts, -⟩ := htokens.of_cons
  obtain ⟨c, rest, htext, hnext⟩ := htokenCuts
  obtain ⟨d, more, hgaptext, hgapnext⟩ := hgapCuts
  have hc : isSpace c = true := by
    have hcut := next_isCutFrom c rest
    rw [hnext] at hcut
    refine hcut.spaces hkind c ?_
    obtain ⟨e, tail, htoken⟩ := List.exists_cons_of_ne_nil hcut.nonempty
    rw [htoken, List.cons_append, List.cons.injEq] at htext
    rw [htoken, ← htext.1]
    exact List.mem_cons_self
  have hd : isSpace d = true := by
    by_contra hspace
    have hcut := next_isCutFrom d more
    rw [hgapnext] at hcut
    refine hspace (hcut.spaces rfl d ?_)
    obtain ⟨e, tail, hgapcons⟩ := List.exists_cons_of_ne_nil hgap
    simp only [hgapcons, List.cons_append, List.cons.injEq] at hgaptext
    simp [hgapcons, hgaptext.1]
  -- the white space would have gone on
  rw [next, if_pos hd] at hgapnext
  have hbehind : (run isSpace more).2 = (token :: tokens).flatMap (·.text) :=
    (Prod.mk.inj hgapnext).2
  have hstop := @head_run isSpace more c (by
    rw [hbehind, List.flatMap_cons, htext]
    rfl)
  rw [hc] at hstop
  cases hstop

/-- A row of tokens that its text is read as has no white space behind white space. -/
theorem Lexed.respaced {tokens : List Token} (h : Lexed tokens) : Respaced tokens tokens := by
  have hspaces : ∀ token ∈ tokens, token.kind = .whitespace →
      ∀ c ∈ token.text, isSpace c = true := by
    have hspells := ofText_spells (tokens.flatMap (·.text))
    rw [h] at hspells
    exact hspells.spaces
  have hnonempty : ∀ token ∈ tokens, token.text ≠ [] := by
    have hspells := ofText_spells (tokens.flatMap (·.text))
    rw [h] at hspells
    exact hspells.nonempty
  match tokens with
  | [] => exact @Respaced.stop [] (by simp)
  | token :: rest =>
    obtain ⟨hspace, hspaces⟩ := List.forall_mem_cons.1 hspaces
    obtain ⟨htext, hnonempty⟩ := List.forall_mem_cons.1 hnonempty
    by_cases hkind : token.kind = .whitespace
    · have hblank : blank token.text = [token] := by
        rw [blank_of_ne_nil htext, ← hkind]
      match rest with
      | [] =>
        rw [← hblank]
        exact .stop (hspace hkind)
      | next :: rest =>
        have hnext := @Lexed.kind_ne_whitespace _ next rest htext (by rwa [hblank])
        have hrest := h.of_cons.2.of_cons.2.respaced
        have hgap := Respaced.gap hnext (hspace hkind) (.refl (hspace hkind)) hrest
        rwa [hblank] at hgap
    · have hrest := h.of_cons.2.respaced
      exact @Respaced.gap _ _ _ [] [] hkind (by simp) (.refl (by simp)) hrest

/-- Behind a token that is no white space, a row goes on in any way that the
rest of it can be written. -/
theorem Respaced.exchange {front back back' tokens : List Token} {token : Token}
    (h : Respaced (front ++ token :: back) tokens) (hkind : token.kind ≠ .whitespace)
    (hback : Respaced back back') :
    Respaced (front ++ token :: back) (front ++ token :: back') := by
  generalize hrow : front ++ token :: back = row at h
  induction h generalizing front with
  | @stop gap =>
    refine absurd (@kind_of_mem_blank gap token ?_) hkind
    rw [← hrow]
    exact List.mem_append_right _ List.mem_cons_self
  | @gap other rest rest' old new hother hold hnew hrest ih =>
    rcases List.append_eq_append_iff.1 hrow with ⟨middle, hblank, hmiddle⟩ | ⟨middle, rfl, hmiddle⟩
    · -- nothing but white space is in front
      cases middle with
      | nil =>
        obtain ⟨rfl, rfl⟩ := List.cons.inj hmiddle
        rw [List.append_nil] at hblank
        rw [← hblank]
        exact .gap hkind hold (.refl hold) hback
      | cons first middle =>
        obtain ⟨rfl, -⟩ := List.cons.inj hmiddle
        refine absurd (@kind_of_mem_blank old token ?_) hkind
        rw [hblank]
        exact List.mem_append_right _ List.mem_cons_self
    · cases middle with
      | nil =>
        obtain ⟨rfl, rfl⟩ := List.cons.inj hmiddle
        rw [List.append_nil]
        exact .gap hkind hold (.refl hold) hback
      | cons first middle =>
        obtain ⟨rfl, rfl⟩ := List.cons.inj hmiddle
        rw [List.append_assoc, List.cons_append]
        exact .gap hother hold (.refl hold) (ih rfl)

/-- What is no white space is the same. -/
theorem Respaced.filter_eq {tokens tokens' : List Token} (h : Respaced tokens tokens') :
    tokens'.filter (·.kind ≠ .whitespace) = tokens.filter (·.kind ≠ .whitespace) := by
  have hblank (gap : Text) : (blank gap).filter (·.kind ≠ .whitespace) = [] := by
    unfold blank
    split <;> simp
  induction h with
  | stop => rfl
  | gap hkind _ _ _ ih =>
    rw [List.filter_append, List.filter_append, hblank, hblank, List.filter_cons_of_pos (by simpa),
      List.filter_cons_of_pos (by simpa), ih]

/-- What is no white space gains none where there was nothing at all. -/
theorem Respaced.eq_nil_iff {tokens tokens' : List Token} (h : Respaced tokens tokens') :
    tokens' = [] ↔ tokens = [] := by
  cases h with
  | stop => exact Iff.rfl
  | gap => simp

/-- What is read goes on the same way behind other white space. -/
theorem Respaced.continues {tokens tokens' : List Token} (h : Respaced tokens tokens')
    (hlexed : Lexed tokens) :
    Continues (tokens.flatMap (·.text)) (tokens'.flatMap (·.text)) := by
  induction h with
  | stop => exact .refl _
  | @gap token tokens tokens' old new hkind hold hnew hrest ih =>
    obtain ⟨hcuts, htokens⟩ := hlexed.of_blank.of_cons
    have hleft := ih htokens
    simp only [List.flatMap_append, List.flatMap_cons, flatMap_blank]
    refine ⟨fun part hpart hstarts => ?_, fun hnil => ?_, fun c hhead hreturn => ?_⟩
    · cases hnewtext : new with
      | nil =>
        have hnothing : old = [] := by
          by_contra hne
          exact hnew.nonempty hne hnewtext
        rw [hnewtext, List.nil_append] at hstarts
        rw [hnothing, List.nil_append]
        exact hleft.joins.append_left _ _ hpart hstarts
      | cons d more =>
        -- white space is what the part stops at
        cases part with
        | nil => exact List.nil_prefix
        | cons c part =>
          rw [hnewtext, List.cons_append, List.cons_prefix_cons] at hstarts
          have hspace := hnew.spaces d (hnewtext ▸ List.mem_cons_self)
          rw [← hstarts.1, isSpace_of_isEdge (hpart c List.mem_cons_self)] at hspace
          cases hspace
    · have htext := (List.append_eq_nil_iff.1 (List.append_eq_nil_iff.1 hnil).2).1
      exact absurd htext hcuts.text_ne_nil
    · cases holdtext : old with
      | nil =>
        rw [holdtext, List.nil_append] at hhead
        have hspace := hcuts.head_isSpace hkind hhead
        rw [isSpace_of_isReturn hreturn] at hspace
        cases hspace
      | cons d more =>
        rw [holdtext, List.cons_append, List.head?_cons] at hhead
        obtain ⟨e, he, hereturn⟩ := hnew.returns c (by rw [holdtext]; exact hhead) hreturn
        obtain ⟨tail, rfl⟩ := List.head?_eq_some_iff.1 he
        exact ⟨e, rfl, hereturn⟩

/-- **Other white space between tokens changes no token.**  A row of tokens behind other white space
is what its own text is read as. -/
theorem Respaced.lexed {tokens tokens' : List Token} (h : Respaced tokens tokens')
    (hlexed : Lexed tokens) : Lexed tokens' := by
  induction h with
  | stop => exact hlexed
  | @gap token tokens tokens' old new hkind hold hnew hrest ih =>
    obtain ⟨hcuts, htokens⟩ := hlexed.of_blank.of_cons
    have hcuts' := hcuts.continues hkind (hrest.continues htokens) fun _ hnil => by
      rw [hrest.eq_nil_iff.2 (htokens.eq_nil hnil), List.flatMap_nil]
    have hlexed' := Lexed.cons hcuts' (ih htokens)
    by_cases hgap : new = []
    · rwa [hgap, blank_nil, List.nil_append]
    · rw [blank_of_ne_nil hgap, List.singleton_append]
      refine .cons (cuts_white hgap hnew.spaces fun c hhead => ?_) hlexed'
      rw [List.flatMap_cons] at hhead
      exact hcuts'.head_isSpace hkind hhead

/-! ## Pieces in a row -/

/-- Tokens in a row, each behind some white space, and white space at the end. -/
def row (last : Text) : List (Text × Token) → List Token
  | [] => blank last
  | (gap, token) :: rest => blank gap ++ token :: row last rest

/-- White space in front of what is none. -/
def IsPiece (piece : Text × Token) : Prop :=
  (∀ c ∈ piece.1, isSpace c = true) ∧ piece.2.kind ≠ .whitespace

theorem flatMap_row (last : Text) (pieces : List (Text × Token)) :
    (row last pieces).flatMap (·.text) =
      pieces.flatMap (fun piece => piece.1 ++ piece.2.text) ++ last := by
  induction pieces with
  | nil => rw [row, flatMap_blank, List.flatMap_nil, List.nil_append]
  | cons piece rest ih =>
    rw [row, List.flatMap_append, flatMap_blank, List.flatMap_cons, ih, List.flatMap_cons]
    simp only [List.append_assoc]

/-- The tokens of a text are such a row. -/
theorem Respaced.exists_row {tokens tokens' : List Token} (h : Respaced tokens tokens') :
    ∃ pieces last, tokens = row last pieces ∧ (∀ piece ∈ pieces, IsPiece piece)
      ∧ ∀ c ∈ last, isSpace c = true := by
  induction h with
  | @stop gap hgap => exact ⟨[], gap, rfl, by simp, hgap⟩
  | @gap token tokens _ old _ hkind hold _ _ ih =>
    obtain ⟨pieces, last, rfl, hpieces, hlast⟩ := ih
    exact ⟨(old, token) :: pieces, last, rfl,
      List.forall_mem_cons.2 ⟨⟨hold, hkind⟩, hpieces⟩, hlast⟩

/-- The same token behind other white space. -/
def Refilled (piece piece' : Text × Token) : Prop :=
  piece'.2 = piece.2 ∧ Refills piece.2.kind piece.1 piece'.1

theorem isPiece_of_refilled {pieces pieces' : List (Text × Token)}
    (h : List.Forall₂ Refilled pieces pieces') (hpieces : ∀ piece ∈ pieces, IsPiece piece) :
    ∀ piece ∈ pieces', IsPiece piece := by
  induction h with
  | nil => exact hpieces
  | cons hpiece _ ih =>
    obtain ⟨⟨-, hkind⟩, hrest⟩ := List.forall_mem_cons.1 hpieces
    refine List.forall_mem_cons.2 ⟨⟨hpiece.2.spaces, ?_⟩, ih hrest⟩
    rwa [hpiece.1]

theorem map_snd_of_refilled {pieces pieces' : List (Text × Token)}
    (h : List.Forall₂ Refilled pieces pieces') : pieces'.map (·.2) = pieces.map (·.2) := by
  induction h with
  | nil => rfl
  | cons hpiece _ ih => rw [List.map_cons, List.map_cons, hpiece.1, ih]

theorem respaced_row {pieces pieces' : List (Text × Token)} {last : Text}
    (h : List.Forall₂ Refilled pieces pieces') (hpieces : ∀ piece ∈ pieces, IsPiece piece)
    (hlast : ∀ c ∈ last, isSpace c = true) : Respaced (row last pieces) (row last pieces') := by
  induction h with
  | nil => exact .stop hlast
  | @cons piece piece' rest rest' hpiece _ ih =>
    obtain ⟨⟨hspaces, hkind⟩, hrest⟩ := List.forall_mem_cons.1 hpieces
    obtain ⟨gap', token'⟩ := piece'
    obtain ⟨rfl, hrefills⟩ := hpiece
    exact .gap hkind hspaces hrefills (ih hrest)

theorem Refills.mono {kind kind' : Kind} {old new : Text} (h : Refills kind old new)
    (hkind : kind = .rightBrace → kind' = .rightBrace) : Refills kind' old new :=
  ⟨h.spaces, h.nonempty, h.returns, fun hne => h.newline (mt hkind hne)⟩

end StatementCompletion.Token
