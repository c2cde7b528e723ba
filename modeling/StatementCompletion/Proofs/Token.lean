import Mathlib.Data.List.TakeWhile
import StatementCompletion.Proofs.Text.Cuts
import StatementCompletion.Token

/-!
# The tokens of a text spell the text

`Token.next` cuts a token off a text that is not empty.  `IsCutFrom` says what such a cut promises:
the token is not empty and never the end of the file, white space holds spaces only, and no cut
falls between a carriage return and the line feed that goes with it.  `Spells` lines such tokens up,
and `ofText_spells` says that the tokens of a text spell exactly that text.
-/

namespace StatementCompletion

/-- The kinds of nodes that the grammar makes of others. -/
def Kind.isConstruct (kind : Kind) : Bool :=
  kind.isStatement || kind.isMember || kind.isExpression
    || match kind with
      | .file | .packageDeclaration | .importDeclaration | .modifierList | .typeReference
      | .parameterList | .parameter | .throwsList | .codeBlock | .localVariable | .catchSection
      | .argumentList => true
      | _ => false

namespace Token

/-! ## What a cut promises -/

/-- What a token promises when `rest` is the text behind it. -/
structure IsCutFrom (token : Token) (rest : Text) : Prop where
  nonempty : token.text ≠ []
  notEnd : token.kind ≠ .endOfFile
  spaces : token.kind = .whitespace → ∀ c ∈ token.text, isSpace c = true
  keepsReturns : Text.KeepsReturns token.text rest

/-- The tokens, one behind the other, are a text. -/
inductive Spells : List Token → Text → Prop where
  | nil : Spells [] []
  | cons {token : Token} {tokens : List Token} {rest : Text} :
      token.IsCutFrom rest → Spells tokens rest → Spells (token :: tokens) (token.text ++ rest)

/-! ## The scanners cut -/

/-- A text without carriage returns may be cut off anywhere. -/
theorem keepsReturns_of_forall {before after : Text} (h : ∀ c ∈ before, isReturn c = false) :
    Text.KeepsReturns before after := by
  intro hlast
  have hmem : '\r' ∈ before := List.mem_of_getLast? hlast
  have hreturn := h _ hmem
  simp [isReturn] at hreturn

theorem run_append (inClass : Char → Bool) (text : Text) :
    (run inClass text).1 ++ (run inClass text).2 = text :=
  List.takeWhile_append_dropWhile

theorem mem_run {inClass : Char → Bool} {text : Text} {c : Char} (h : c ∈ (run inClass text).1) :
    inClass c = true :=
  List.mem_takeWhile_imp h

/-- Where a run stops, the class stops. -/
theorem head_run {inClass : Char → Bool} {text : Text} {c : Char}
    (h : (run inClass text).2.head? = some c) : inClass c = false := by
  have hnot := List.head?_dropWhile_not inClass text
  rw [show text.dropWhile inClass = (run inClass text).2 from rfl, h] at hnot
  exact hnot

theorem blockComment_append (text : Text) :
    (blockComment text).1 ++ (blockComment text).2 = text := by
  fun_induction blockComment text <;> simp_all

/-- A block comment ends with its closing slash, unless the text ends first. -/
theorem blockComment_end (text : Text) :
    (blockComment text).2 = [] ∨ (blockComment text).1.getLast? = some '/' := by
  fun_induction blockComment text with
  | case1 => exact .inl rfl
  | case2 rest => exact .inr rfl
  | case3 c rest hne taken left heq ih =>
    rw [heq] at ih
    rcases ih with h | h
    · exact .inl h
    · exact .inr (by simp [List.getLast?_cons, h])

theorem quoted_append (quote : Char) (text : Text) :
    (quoted quote text).1 ++ (quoted quote text).2 = text := by
  fun_induction quoted quote text <;> simp_all

/-- No line break gets into a literal. -/
theorem mem_quoted {quote c : Char} {text : Text} (h : c ∈ (quoted quote text).1) :
    isReturn c = false := by
  fun_induction quoted quote text <;> simp_all <;> grind [isReturn]

theorem number_append (previous : Char) (text : Text) :
    (number previous text).1 ++ (number previous text).2 = text := by
  fun_induction number previous text <;> simp_all

/-- No line break gets into a number. -/
theorem mem_number {previous c : Char} {text : Text} (h : c ∈ (number previous text).1) :
    isReturn c = false := by
  fun_induction number previous text with
  | case1 => simp at h
  | case2 previous d rest hd taken left heq ih =>
    rw [heq] at ih
    rcases List.mem_cons.1 h with rfl | h
    · cases hreturn : isReturn c with
      | false => rfl
      | true =>
        simp only [isReturn, Bool.or_eq_true, decide_eq_true_eq] at hreturn
        rcases hreturn with rfl | rfl <;> simp at hd
    · exact ih h
  | case3 => simp at h

/-! ## Words and signs -/

theorem isReturn_of_isNamePart {c : Char} (h : isNamePart c = true) : isReturn c = false := by
  by_contra hreturn
  simp only [isReturn, Bool.not_eq_false, Bool.or_eq_true, decide_eq_true_eq] at hreturn
  rcases hreturn with rfl | rfl <;> exact absurd h (by decide)

theorem isNamePart_of_isNameStart {c : Char} (h : isNameStart c = true) : isNamePart c = true := by
  simp only [isNameStart, isNamePart, Bool.or_eq_true] at h ⊢
  rcases h with (h | h) | h <;> simp [h]

theorem kindOfName_ne (name : Text) :
    kindOfName name ≠ .endOfFile ∧ kindOfName name ≠ .whitespace := by
  have hwords : ∀ entry ∈ reservedWords, entry.2 ≠ .endOfFile ∧ entry.2 ≠ .whitespace := by decide
  unfold kindOfName
  split
  · next word kind h => exact hwords _ (List.mem_of_find?_eq_some h)
  · simp

/-- A sign is not empty, is no white space and holds no line break. -/
theorem signs_lawful : ∀ entry ∈ signs, entry.1.toList ≠ [] ∧ entry.2 ≠ .endOfFile ∧
    entry.2 ≠ .whitespace ∧ ∀ c ∈ entry.1.toList, isReturn c = false := by
  have hall : (signs.all fun entry => entry.1.toList ≠ [] && entry.2 ≠ .endOfFile
      && entry.2 ≠ .whitespace && entry.1.toList.all (!isReturn ·)) = true := by decide
  simpa [and_assoc] using hall

theorem sign?_some {text sign : Text} {kind : Kind} (h : sign? text = some (sign, kind)) :
    (∃ entry ∈ signs, entry.1.toList = sign ∧ entry.2 = kind) ∧ sign <+: text := by
  obtain ⟨entry, hfind, heq⟩ := Option.map_eq_some_iff.1 h
  obtain ⟨rfl, rfl⟩ := Prod.mk.inj heq
  have hbegins := List.find?_some hfind
  exact ⟨⟨entry, List.mem_of_find?_eq_some hfind, rfl, rfl⟩, List.isPrefixOf_iff_prefix.1 hbegins⟩

/-! ## A first token -/

/-- The first token and the text behind it are the text. -/
theorem next_append (c : Char) (rest : Text) :
    (next c rest).1.text ++ (next c rest).2 = c :: rest := by
  unfold next scanned
  split_ifs with hspace hline hblock hstring hchar hnumber hname
  · simp [run_append]
  · simp [run_append]
  · obtain ⟨rfl, hhead⟩ := hblock
    obtain ⟨tail, rfl⟩ := List.head?_eq_some_iff.1 hhead
    simp [blockComment_append]
  · simp [quoted_append]
  · simp [quoted_append]
  · simp [number_append]
  · simp [List.takeWhile_append_dropWhile]
  · split
    · next sign kind h =>
      obtain ⟨tail, htail⟩ := (sign?_some h).2
      simp [← htail]
    · simp

/-- A token that is no white space and holds no line break. -/
structure IsInline (token : Token) : Prop where
  nonempty : token.text ≠ []
  notEnd : token.kind ≠ .endOfFile
  notSpace : token.kind ≠ .whitespace
  notReturn : ∀ c ∈ token.text, isReturn c = false

/-- All tokens but white space and block comments are without line breaks. -/
theorem next_isInline {c : Char} {rest : Text} (hspace : ¬ isSpace c = true)
    (hblock : ¬ (c = '/' ∧ rest.head? = some '*')) : (next c rest).1.IsInline := by
  unfold next scanned
  rw [if_neg hspace]
  split_ifs with hline hstring hchar hnumber hname
  · -- a line comment
    obtain ⟨rfl, -⟩ := hline
    refine ⟨by simp, by simp, by simp, fun d hd => ?_⟩
    rcases List.mem_cons.1 hd with rfl | hd
    · rfl
    · simpa using mem_run hd
  · -- a string literal
    subst hstring
    refine ⟨by simp, by simp, by simp, fun d hd => ?_⟩
    rcases List.mem_cons.1 hd with rfl | hd
    · rfl
    · exact mem_quoted hd
  · -- a character literal
    subst hchar
    refine ⟨by simp, by simp, by simp, fun d hd => ?_⟩
    rcases List.mem_cons.1 hd with rfl | hd
    · rfl
    · exact mem_quoted hd
  · -- a number
    refine ⟨by simp, by simp, by simp, fun d hd => ?_⟩
    rcases List.mem_cons.1 hd with rfl | hd
    · simp only [isSpace, isReturn] at hspace ⊢
      grind
    · exact mem_number hd
  · -- a name
    obtain ⟨hend, hkind⟩ := kindOfName_ne (c :: rest.takeWhile isNamePart)
    refine ⟨by simp, hend, hkind, fun d hd => ?_⟩
    rcases List.mem_cons.1 hd with rfl | hd
    · exact isReturn_of_isNamePart (isNamePart_of_isNameStart hname)
    · exact isReturn_of_isNamePart (List.mem_takeWhile_imp hd)
  · -- a sign, or what is none
    split
    · next sign kind h =>
      obtain ⟨⟨entry, hmem, rfl, rfl⟩, -⟩ := sign?_some h
      obtain ⟨htext, hend, hkind, hreturn⟩ := signs_lawful entry hmem
      exact ⟨htext, hend, hkind, hreturn⟩
    · refine ⟨by simp, by simp, by simp, fun d hd => ?_⟩
      rw [List.mem_singleton] at hd
      subst hd
      simp only [isSpace, isReturn] at hspace ⊢
      grind

theorem next_of_isSpace {c : Char} (rest : Text) (h : isSpace c = true) :
    next c rest = scanned .whitespace [c] (run isSpace rest) := by
  rw [next, if_pos h]

theorem next_of_opens (rest : Text) :
    next '/' ('*' :: rest) = scanned .blockComment ['/', '*'] (blockComment rest) := by
  rw [next, if_neg (by decide), if_neg (by simp), if_pos (by simp), List.tail_cons]

theorem next_of_opensLine {rest : Text} (h : rest.head? = some '/') :
    next '/' rest = scanned .lineComment ['/'] (run (fun c => !isReturn c) rest) := by
  rw [next, if_neg (by decide), if_pos ⟨rfl, h⟩]

theorem next_isCutFrom (c : Char) (rest : Text) : (next c rest).1.IsCutFrom (next c rest).2 := by
  by_cases hspace : isSpace c = true
  · rw [next_of_isSpace rest hspace]
    refine ⟨by simp [scanned], by simp [scanned], fun _ d hd => ?_, fun _ hhead => ?_⟩
    · rcases List.mem_cons.1 hd with rfl | hd
      · exact hspace
      · exact mem_run hd
    · -- a line feed behind white space would be in it
      exact absurd (head_run hhead) (by decide)
  by_cases hblock : c = '/' ∧ rest.head? = some '*'
  · obtain ⟨rfl, hhead⟩ := hblock
    obtain ⟨rest, rfl⟩ := List.head?_eq_some_iff.1 hhead
    rw [next_of_opens]
    refine ⟨by simp [scanned], by simp [scanned], by simp [scanned], fun hlast hhead => ?_⟩
    -- a closed comment ends with a slash, an open one with the text
    rcases blockComment_end rest with hend | hend
    · simp [scanned, hend] at hhead
    · simp [scanned, List.getLast?_cons, hend] at hlast
  · have hinline := next_isInline hspace hblock
    exact ⟨hinline.nonempty, hinline.notEnd, fun hkind => absurd hkind hinline.notSpace,
      keepsReturns_of_forall hinline.notReturn⟩

theorem isConstruct_kindOfName (name : Text) : (kindOfName name).isConstruct = false := by
  have hwords : ∀ entry ∈ reservedWords, entry.2.isConstruct = false := by decide
  unfold kindOfName
  split
  · next word kind h => exact hwords _ (List.mem_of_find?_eq_some h)
  · rfl

/-- No token is of the kind of a construct. -/
theorem isConstruct_next (c : Char) (rest : Text) : (next c rest).1.kind.isConstruct = false := by
  have hsigns : ∀ entry ∈ signs, entry.2.isConstruct = false := by decide
  unfold next scanned
  split_ifs with hspace hline hblock hstring hchar hnumber hname
  · rfl
  · rfl
  · rfl
  · rfl
  · rfl
  · rfl
  · exact isConstruct_kindOfName _
  · split
    · next sign kind h =>
      obtain ⟨⟨entry, hmem, rfl, rfl⟩, -⟩ := sign?_some h
      exact hsigns entry hmem
    · rfl

theorem isTrivia_kindOfName (name : Text) : (kindOfName name).isTrivia = false := by
  have hwords : ∀ entry ∈ reservedWords, entry.2.isTrivia = false := by decide
  unfold kindOfName
  split
  · next word kind h => exact hwords _ (List.mem_of_find?_eq_some h)
  · rfl

/-- White space and comments are told by their first characters. -/
theorem opens_of_isTrivia_next {c : Char} {rest : Text} (h : (next c rest).1.kind.isTrivia = true) :
    isSpace c = true ∨ c = '/' ∧ rest.head? = some '/' ∨ c = '/' ∧ rest.head? = some '*' := by
  have hsigns : ∀ entry ∈ signs, entry.2.isTrivia = false := by decide
  by_contra hnone
  obtain ⟨hspace, hline, hblock⟩ : ¬ isSpace c = true ∧ ¬ (c = '/' ∧ rest.head? = some '/')
      ∧ ¬ (c = '/' ∧ rest.head? = some '*') := by
    rwa [not_or, not_or] at hnone
  unfold next scanned at h
  rw [if_neg hspace, if_neg hline, if_neg hblock] at h
  split_ifs at h with hstring hchar hnumber hname
  · cases h
  · cases h
  · cases h
  · exact absurd h (by simp [isTrivia_kindOfName])
  · split at h
    · next sign kind hsign =>
      obtain ⟨⟨entry, hmem, rfl, rfl⟩, -⟩ := sign?_some hsign
      rw [hsigns entry hmem] at h
      cases h
    · cases h

/-! ## All tokens -/

theorem isConstruct_of_mem_ofTextWithin {n : Nat} {text : Text} :
    ∀ token ∈ ofTextWithin n text, token.kind.isConstruct = false := by
  induction n generalizing text with
  | zero => simp [ofTextWithin]
  | succ n ih =>
    cases text with
    | nil => simp [ofTextWithin]
    | cons c rest => exact List.forall_mem_cons.2 ⟨isConstruct_next c rest, ih⟩

theorem ofTextWithin_spells (n : Nat) (text : Text) (h : text.length ≤ n) :
    Spells (ofTextWithin n text) text := by
  induction n generalizing text with
  | zero =>
    rw [List.eq_nil_of_length_eq_zero (Nat.le_zero.1 h)]
    exact .nil
  | succ n ih =>
    cases text with
    | nil => exact .nil
    | cons c rest =>
      have hcut := next_isCutFrom c rest
      have happend := next_append c rest
      have hlength : (next c rest).2.length ≤ n := by
        have hpos : 0 < (next c rest).1.text.length := List.length_pos_iff.2 hcut.nonempty
        have htotal := congrArg List.length happend
        simp only [List.length_append, List.length_cons] at htotal h
        omega
      have hspells := Spells.cons hcut (ih _ hlength)
      rwa [happend] at hspells

/-- The tokens of a text spell the text. -/
theorem ofText_spells (text : Text) : Spells (ofText text) text :=
  ofTextWithin_spells _ text (Nat.le_refl _)

/-! ## What spelling gives -/

theorem Spells.flatMap_text {tokens : List Token} {text : Text} (h : Spells tokens text) :
    tokens.flatMap (·.text) = text := by
  induction h with
  | nil => rfl
  | cons _ _ ih => simp [ih]

theorem Spells.nonempty {tokens : List Token} {text : Text} (h : Spells tokens text) :
    ∀ token ∈ tokens, token.text ≠ [] := by
  induction h with
  | nil => simp
  | cons hcut _ ih => exact List.forall_mem_cons.2 ⟨hcut.nonempty, ih⟩

theorem Spells.notEnd {tokens : List Token} {text : Text} (h : Spells tokens text) :
    ∀ token ∈ tokens, token.kind ≠ .endOfFile := by
  induction h with
  | nil => simp
  | cons hcut _ ih => exact List.forall_mem_cons.2 ⟨hcut.notEnd, ih⟩

theorem Spells.spaces {tokens : List Token} {text : Text} (h : Spells tokens text) :
    ∀ token ∈ tokens, token.kind = .whitespace → ∀ c ∈ token.text, isSpace c = true := by
  induction h with
  | nil => simp
  | cons hcut _ ih => exact List.forall_mem_cons.2 ⟨hcut.spaces, ih⟩

end Token

end StatementCompletion
