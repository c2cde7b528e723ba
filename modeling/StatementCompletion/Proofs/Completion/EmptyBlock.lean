import StatementCompletion.Completion.Pass
import StatementCompletion.Proofs.Text.Bytes

/-!
# The empty block next to a caret

The search for an empty block looks at the bytes around the caret.  What it finds is the block that
starts at the caret, or else the one that ends in front of it with nothing but blanks between.
-/

namespace StatementCompletion

/-! ## What is around a place in a text -/

namespace Text

/-- A text goes on with a part behind its front. -/
theorem matchesAt_size_iff (before after part : Text) :
    (before ++ after).matchesAt before.size part = true ↔ part <+: after := by
  rw [matchesAt_iff]
  constructor
  · rintro ⟨front, back, heq, hsize⟩
    rw [List.append_assoc] at heq
    obtain ⟨-, rfl⟩ := append_inj_of_size heq hsize.symm
    exact List.prefix_append _ _
  · rintro ⟨back, rfl⟩
    exact ⟨before, back, (List.append_assoc _ _ _).symm, rfl⟩

/-- The front of a text ends with a part. -/
theorem matchesAt_sub_iff (before after part : Text) :
    part.size ≤ before.size ∧ (before ++ after).matchesAt (before.size - part.size) part = true
      ↔ part <:+ before := by
  rw [matchesAt_iff]
  constructor
  · rintro ⟨hle, front, back, heq, hsize⟩
    obtain ⟨rfl, -⟩ := append_inj_of_size heq (by rw [size_append]; omega)
    exact List.suffix_append _ _
  · rintro ⟨front, rfl⟩
    rw [size_append]
    exact ⟨Nat.le_add_left _ _, front, after, rfl, by omega⟩

end Text

namespace Completion

variable {text block : Text} {caret opened : Nat}

/-! ## The empty block next to the caret -/

/-- The texts of an empty block. -/
def emptyBlocks : List Text :=
  [closedBlock, openedBlock]

theorem mem_emptyBlocks : block ∈ emptyBlocks ↔ block = closedBlock ∨ block = openedBlock := by
  simp [emptyBlocks]

/-- The text up to the caret, with an empty block that starts there. -/
def upToBlock (before after : Text) : Text :=
  if closedBlock <+: after then before ++ closedBlock
  else if openedBlock <+: after then before ++ openedBlock
  else before

/-- The offset of the empty block that a text ends with. -/
def blockAtEnd? (text : Text) : Option Nat :=
  if closedBlock <:+ text then some (text.size - 2)
  else if openedBlock <:+ text then some (text.size - 3)
  else none

/-- What the search looks at is the text up to the caret, with an empty block that starts there and
without the blanks at its end. -/
theorem emptyBlockNear?_append (before after : Text) :
    emptyBlockNear? (before ++ after) before.size
      = blockAtEnd? (Text.trimBlanks (upToBlock before after)) := by
  obtain ⟨rest, hrest⟩ : ∃ rest, before ++ after = upToBlock before after ++ rest := by
    unfold upToBlock
    split_ifs with hclosed hopened
    · obtain ⟨rest, rfl⟩ := hclosed
      exact ⟨rest, by simp⟩
    · obtain ⟨rest, rfl⟩ := hopened
      exact ⟨rest, by simp⟩
    · exact ⟨after, rfl⟩
  have hbehind : (if (before ++ after).matchesAt before.size closedBlock then before.size + 2
      else if (before ++ after).matchesAt before.size openedBlock then before.size + 3
      else before.size) = (upToBlock before after).size := by
    simp only [Text.matchesAt_size_iff]
    unfold upToBlock
    split_ifs
    · rw [Text.size_append]
      rfl
    · rw [Text.size_append]
      rfl
    · rfl
  obtain ⟨blank, hblank, -⟩ := Text.exists_trimBlanks_append (upToBlock before after)
  unfold emptyBlockNear?
  rw [hbehind, hrest]
  generalize upToBlock before after = reach at *
  by_cases hnil : reach = []
  · subst hnil
    rfl
  · have hstop := Text.endOfInk_append rest hnil
    obtain ⟨last, hlast⟩ := Nat.exists_eq_add_of_lt (Text.size_pos hnil)
    rw [Nat.zero_add] at hlast
    rw [hlast, Nat.add_sub_cancel] at hstop
    simp only [hlast, hstop]
    -- the search ends where the text without its blanks does
    generalize Text.trimBlanks reach = kept at *
    rw [hblank, List.append_assoc]
    have hclosed := Text.matchesAt_sub_iff kept (blank ++ rest) closedBlock
    have hopened := Text.matchesAt_sub_iff kept (blank ++ rest) openedBlock
    rw [blockAtEnd?]
    simp only [← hclosed, ← hopened]
    rfl

/-- An empty block does not end with a blank. -/
theorem trimBlanks_append_block (hblock : block ∈ emptyBlocks) (before : Text) :
    Text.trimBlanks (before ++ block) = before ++ block := by
  obtain ⟨front, rfl⟩ : ∃ front, block = front ++ ['\x7d'] := by
    rcases mem_emptyBlocks.1 hblock with rfl | rfl
    · exact ⟨['\x7b'], rfl⟩
    · exact ⟨['\x7b', '\n'], rfl⟩
  rw [← List.append_assoc, Text.trimBlanks_concat]
  rfl

theorem upToBlock_of_block (hblock : block ∈ emptyBlocks) (before after : Text) :
    upToBlock before (block ++ after) = before ++ block := by
  unfold upToBlock
  rcases mem_emptyBlocks.1 hblock with rfl | rfl
  · rw [if_pos (List.prefix_append _ _)]
  · rw [if_neg, if_pos (List.prefix_append _ _)]
    rintro ⟨rest, hrest⟩
    cases hrest

theorem upToBlock_of_none {before after : Text} (hnone : ∀ block ∈ emptyBlocks, ¬block <+: after) :
    upToBlock before after = before := by
  rw [upToBlock, if_neg (hnone _ (mem_emptyBlocks.2 (.inl rfl))),
    if_neg (hnone _ (mem_emptyBlocks.2 (.inr rfl)))]

theorem blockAtEnd?_of_block (hblock : block ∈ emptyBlocks) (before : Text) :
    blockAtEnd? (before ++ block) = some before.size := by
  unfold blockAtEnd?
  rcases mem_emptyBlocks.1 hblock with rfl | rfl
  · rw [if_pos (List.suffix_append _ _), Text.size_append]
    exact congrArg some (Nat.add_sub_cancel _ 2)
  · rw [if_neg, if_pos (List.suffix_append _ _), Text.size_append]
    · exact congrArg some (Nat.add_sub_cancel _ 3)
    · rintro ⟨front, hfront⟩
      have hboth : (front ++ ['\x7b']) ++ ['\x7d'] = (before ++ ['\x7b', '\n']) ++ ['\x7d'] := by
        simpa [closedBlock, openedBlock] using hfront
      have hlast := congrArg List.getLast? (List.append_cancel_right hboth)
      simp at hlast

/-- A text ends with the block that is found at its end. -/
theorem exists_of_blockAtEnd? (h : blockAtEnd? text = some opened) :
    ∃ before, ∃ block ∈ emptyBlocks, text = before ++ block ∧ before.size = opened := by
  unfold blockAtEnd? at h
  split_ifs at h with hclosed hopened
  · obtain ⟨before, rfl⟩ := hclosed
    rw [Text.size_append] at h
    exact ⟨before, closedBlock, mem_emptyBlocks.2 (.inl rfl), rfl, Option.some.inj h⟩
  · obtain ⟨before, rfl⟩ := hopened
    rw [Text.size_append] at h
    exact ⟨before, openedBlock, mem_emptyBlocks.2 (.inr rfl), rfl, Option.some.inj h⟩

/-- An empty block is next to a caret: it starts at the caret, or else it ends in front of the caret
with nothing but blanks between. -/
inductive BlockNear (text : Text) (caret : Nat) : Nat → Prop where
  | starts {before block after : Text} (htext : text = before ++ block ++ after)
      (hblock : block ∈ emptyBlocks) (hcaret : before.size = caret) :
      BlockNear text caret before.size
  | ends {before block blank after : Text} (htext : text = before ++ block ++ blank ++ after)
      (hblock : block ∈ emptyBlocks) (hblank : ∀ c ∈ blank, Text.isBlank c = true)
      (hcaret : Text.size (before ++ block ++ blank) = caret)
      (hnone : ∀ block ∈ emptyBlocks, ¬block <+: after) : BlockNear text caret before.size

/-- **The block that is found is the one next to the caret.** -/
theorem emptyBlockNear?_eq_some_iff (hcaret : text.isBoundary caret = true) :
    emptyBlockNear? text caret = some opened ↔ BlockNear text caret opened := by
  obtain ⟨front, back, rfl, rfl⟩ := Text.isBoundary_iff.1 hcaret
  rw [emptyBlockNear?_append]
  constructor
  · intro h
    by_cases hstarts : ∃ block ∈ emptyBlocks, block <+: back
    · obtain ⟨block, hblock, rest, rfl⟩ := hstarts
      rw [upToBlock_of_block hblock, trimBlanks_append_block hblock,
        blockAtEnd?_of_block hblock] at h
      obtain rfl := Option.some.inj h
      exact .starts (List.append_assoc _ _ _).symm hblock rfl
    · have hnone : ∀ block ∈ emptyBlocks, ¬block <+: back := fun block hblock hprefix =>
        hstarts ⟨block, hblock, hprefix⟩
      rw [upToBlock_of_none hnone] at h
      obtain ⟨before, block, hblock, hkept, rfl⟩ := exists_of_blockAtEnd? h
      obtain ⟨blank, hblank, hblanks⟩ := Text.exists_trimBlanks_append front
      rw [hkept] at hblank
      exact .ends (by rw [← hblank]) hblock hblanks (by rw [← hblank]) hnone
  · rintro (⟨htext, hblock, hcaret⟩ | ⟨htext, hblock, hblank, hcaret, hnone⟩)
    · rw [List.append_assoc] at htext
      obtain ⟨rfl, rfl⟩ := Text.append_inj_of_size htext hcaret.symm
      rw [upToBlock_of_block hblock, trimBlanks_append_block hblock, blockAtEnd?_of_block hblock]
    · obtain ⟨rfl, rfl⟩ := Text.append_inj_of_size htext hcaret.symm
      rw [upToBlock_of_none hnone, Text.trimBlanks_append _ hblank, trimBlanks_append_block hblock,
        blockAtEnd?_of_block hblock]

/-- An empty block has nothing but white space between its braces. -/
theorem exists_inside_of_block (hblock : block ∈ emptyBlocks) :
    ∃ inside, block = '\x7b' :: (inside ++ ['\x7d']) ∧ ∀ c ∈ inside, Token.isSpace c = true := by
  rcases mem_emptyBlocks.1 hblock with rfl | rfl
  · exact ⟨[], rfl, List.forall_mem_nil _⟩
  · exact ⟨['\n'], rfl, List.forall_mem_singleton.2 rfl⟩

/-- The text has an empty block where the caret is next to one. -/
theorem BlockNear.exists_parts (h : BlockNear text caret opened) :
    ∃ before, ∃ block ∈ emptyBlocks, ∃ after, text = before ++ block ++ after
      ∧ before.size = opened := by
  cases h with
  | starts htext hblock _ => exact ⟨_, _, hblock, _, htext, rfl⟩
  | ends htext hblock _ _ _ => exact ⟨_, _, hblock, _, by rw [htext, List.append_assoc _ _ _], rfl⟩

/-- The block is in the text. -/
theorem BlockNear.lt_size (h : BlockNear text caret opened) : opened < text.size := by
  obtain ⟨before, block, hblock, after, rfl, rfl⟩ := h.exists_parts
  obtain ⟨inside, rfl, -⟩ := exists_inside_of_block hblock
  rw [List.append_assoc, Text.size_append]
  exact Nat.lt_add_of_pos_right (Text.size_pos (List.cons_ne_nil _ _))

end Completion

end StatementCompletion
