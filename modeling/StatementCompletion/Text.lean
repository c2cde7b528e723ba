/-!
# Texts and their byte offsets

A text is the list of its characters.  Positions in a text are byte offsets into its UTF-8 form, so
the length of a text is measured in bytes, and an offset is good only if the text can be cut there.
`splitAt?` is that cut: it succeeds exactly on the boundaries between characters, and everything
that reads or edits a text at an offset goes through it.
-/

namespace StatementCompletion

/-- A text is the list of its characters. -/
abbrev Text := List Char

namespace Text

/-! ## Length and cuts -/

/-- The number of bytes of the UTF-8 form. -/
def size : Text → Nat
  | [] => 0
  | c :: rest => c.utf8Size + size rest

/-- The two parts of a text before and after a byte offset, if a character starts or the text ends
there. -/
def splitAt? : Nat → Text → Option (Text × Text)
  | 0, text => some ([], text)
  | _ + 1, [] => none
  | n + 1, c :: rest =>
    if c.utf8Size ≤ n + 1 then
      (splitAt? (n + 1 - c.utf8Size) rest).map fun (before, after) => (c :: before, after)
    else
      none

/-- Whether a text can be cut at a byte offset. -/
def isBoundary (text : Text) (offset : Nat) : Bool :=
  (splitAt? offset text).isSome

/-- The largest offset at or before the given one where the text can be cut. -/
def floorBoundary : Nat → Text → Nat
  | _, [] => 0
  | n, c :: rest =>
    if c.utf8Size ≤ n then c.utf8Size + floorBoundary (n - c.utf8Size) rest else 0

/-- The character that starts at a byte offset. -/
def charAt? (text : Text) (offset : Nat) : Option Char :=
  match splitAt? offset text with
  | some (_, c :: _) => some c
  | _ => none

/-- Whether the text goes on with `part` at a byte offset. -/
def matchesAt (text : Text) (offset : Nat) (part : Text) : Bool :=
  match splitAt? offset text with
  | some (_, after) => part.isPrefixOf after
  | none => false

/-! ## Blanks -/

/-- A space or a tab. -/
def isBlank (c : Char) : Bool :=
  c = ' ' || c = '\t'

/-- The spaces and tabs a text begins with. -/
def indentation (text : Text) : Text :=
  text.takeWhile isBlank

/-- A text written `n` times. -/
def times (text : Text) (n : Nat) : Text :=
  (List.replicate n text).flatten

/-! ## Small laws -/

theorem size_append (a b : Text) : size (a ++ b) = size a + size b := by
  induction a with
  | nil => simp [size]
  | cons c rest ih => simp [size, ih, Nat.add_assoc]

/-- A cut loses nothing, and its first part ends at the offset. -/
theorem append_of_splitAt? {n : Nat} {text before after : Text}
    (h : splitAt? n text = some (before, after)) : before ++ after = text ∧ size before = n := by
  induction text generalizing n before with
  | nil =>
    cases n with
    | zero => simp_all [splitAt?, size]
    | succ n => simp [splitAt?] at h
  | cons c rest ih =>
    cases n with
    | zero =>
      simp only [splitAt?, Option.some.injEq, Prod.mk.injEq] at h
      obtain ⟨rfl, rfl⟩ := h
      simp [size]
    | succ n =>
      simp only [splitAt?] at h
      split at h
      · next hc =>
        obtain ⟨⟨b, a⟩, hb, hab⟩ := Option.map_eq_some_iff.1 h
        simp only [Prod.mk.injEq] at hab
        obtain ⟨rfl, rfl⟩ := hab
        obtain ⟨h1, h2⟩ := ih hb
        refine ⟨by simp [h1], ?_⟩
        simp only [size, h2]
        omega
      · simp at h

end Text

end StatementCompletion
