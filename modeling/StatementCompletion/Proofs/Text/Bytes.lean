import Mathlib.Data.List.Induction
import Mathlib.Data.List.TakeWhile
import StatementCompletion.Proofs.Text.Cuts
import StatementCompletion.Text.Bytes

/-!
# The blanks around a cut

The searches over the bytes next to a cut find the blanks next to it: a blank is a single byte, and
no byte of another character is that of a blank.  So an edge that is found is
the edge of a character.
-/

namespace StatementCompletion.Text

/-! ## The bytes of blanks -/

theorem contains_blanks_iff (byte : UInt8) :
    blanks.bytes.contains byte = true ↔ byte = 0x20 ∨ byte = 0x09 := by
  rw [show blanks.bytes = [0x20, 0x09] from rfl]
  simp

theorem utf8EncodeChar_of_isBlank {c : Char} (h : isBlank c = true) :
    ∃ byte, String.utf8EncodeChar c = [byte] ∧ blanks.bytes.contains byte = true := by
  simp only [isBlank, Bool.or_eq_true, decide_eq_true_eq] at h
  rcases h with rfl | rfl
  · exact ⟨0x20, rfl, rfl⟩
  · exact ⟨0x09, rfl, rfl⟩

/-- No byte of a character that is not blank is that of a blank. -/
theorem not_contains_of_mem_utf8EncodeChar {c : Char} (h : isBlank c = false) {byte : UInt8}
    (hbyte : byte ∈ String.utf8EncodeChar c) : blanks.bytes.contains byte = false := by
  by_contra hcontains
  rw [Bool.not_eq_false, contains_blanks_iff] at hcontains
  have hvalue : byte.toNat = 0x20 ∨ byte.toNat = 0x09 := by
    rcases hcontains with rfl | rfl
    · exact .inl rfl
    · exact .inr rfl
  have hchar : c.val.toNat ≠ 0x20 ∧ c.val.toNat ≠ 0x09 := by
    refine ⟨fun hc => ?_, fun hc => ?_⟩
    · rw [show c = ' ' from Char.ext (UInt32.toNat_inj.1 hc)] at h
      cases h
    · rw [show c = '\t' from Char.ext (UInt32.toNat_inj.1 hc)] at h
      cases h
  simp only [String.utf8EncodeChar] at hbyte
  split_ifs at hbyte <;> simp only [List.mem_cons, List.not_mem_nil, or_false] at hbyte
  · subst hbyte
    simp only [UInt8.toNat_ofNat'] at hvalue
    omega
  · rcases hbyte with rfl | rfl <;> simp at hvalue <;> omega
  · rcases hbyte with rfl | rfl | rfl <;> simp at hvalue <;> omega
  · rcases hbyte with rfl | rfl | rfl | rfl <;> simp at hvalue <;> omega

/-! ## The edges of the blanks -/

theorem bytes_append (a b : Text) : bytes (a ++ b) = bytes a ++ bytes b :=
  List.flatMap_append

theorem bytes_cons (c : Char) (rest : Text) :
    bytes (c :: rest) = String.utf8EncodeChar c ++ bytes rest :=
  List.flatMap_cons

/-- A text without the blanks at its end. -/
def trimBlanks (text : Text) : Text :=
  (text.reverse.dropWhile isBlank).reverse

theorem trimBlanks_concat (text : Text) (c : Char) :
    trimBlanks (text ++ [c]) = if isBlank c then trimBlanks text else text ++ [c] := by
  simp only [trimBlanks, List.reverse_append, List.reverse_cons, List.reverse_nil, List.nil_append,
    List.cons_append, List.dropWhile_cons]
  split <;> simp

theorem trimBlanks_append (text : Text) {blank : Text} (h : ∀ c ∈ blank, isBlank c = true) :
    trimBlanks (text ++ blank) = trimBlanks text := by
  rw [trimBlanks, List.reverse_append,
    List.dropWhile_append_of_pos fun c hc => h c (List.mem_reverse.1 hc), trimBlanks]

/-- What is trimmed is blank. -/
theorem exists_trimBlanks_append (text : Text) :
    ∃ blank, text = trimBlanks text ++ blank ∧ ∀ c ∈ blank, isBlank c = true := by
  refine ⟨(text.reverse.takeWhile isBlank).reverse, ?_, fun c hc => ?_⟩
  · rw [trimBlanks, ← List.reverse_append, List.takeWhile_append_dropWhile, List.reverse_reverse]
  · exact List.mem_takeWhile_imp (List.mem_reverse.1 hc)

theorem length_dropWhile_bytes (text : Text) :
    (text.bytes.reverse.dropWhile (blanks.bytes.contains ·)).length = (trimBlanks text).size := by
  induction text using List.reverseRecOn with
  | nil => rfl
  | append_singleton front c ih =>
    rw [bytes_append, List.reverse_append, trimBlanks_concat]
    cases hc : isBlank c with
    | true =>
      obtain ⟨byte, hencode, hblank⟩ := utf8EncodeChar_of_isBlank hc
      have hone : bytes [c] = [byte] := by
        rw [bytes_cons, hencode]
        rfl
      rw [hone, List.reverse_singleton, List.singleton_append,
        List.dropWhile_cons_of_pos hblank, ih, if_pos rfl]
    | false =>
      have hne : (bytes [c]).reverse ≠ [] := by
        simp [bytes]
      obtain ⟨byte, rest, hbytes⟩ := List.exists_cons_of_ne_nil hne
      have hmem : byte ∈ String.utf8EncodeChar c := by
        have hmem : byte ∈ (bytes [c]).reverse := by simp [hbytes]
        simpa [bytes] using hmem
      have hsize := length_bytes (front ++ [c])
      rw [bytes_append] at hsize
      rw [hbytes, List.cons_append,
        List.dropWhile_cons_of_neg
          (Bool.eq_false_iff.1 (not_contains_of_mem_utf8EncodeChar hc hmem)),
        ← List.cons_append, ← hbytes, ← List.reverse_append, List.length_reverse, hsize]
      rfl

/-- Behind a cut the search to the left finds what the blanks in front of the cut follow. -/
theorem endOfInk_append {before : Text} (after : Text) (h : before ≠ []) :
    (before ++ after).endOfInk (before.size - 1) = (trimBlanks before).size := by
  have htake : (before ++ after).bytes.take (before.size - 1 + 1) = before.bytes := by
    rw [bytes_append, Nat.sub_add_cancel (size_pos h), ← length_bytes, List.take_left]
  rw [endOfInk, lastByteOutside?, htake]
  have hlength := length_dropWhile_bytes before
  cases hkept : before.bytes.reverse.dropWhile (blanks.bytes.contains ·) with
  | nil =>
    rw [hkept] at hlength
    simpa using hlength
  | cons byte rest =>
    rw [hkept] at hlength
    simpa using hlength

theorem length_takeWhile_bytes (text : Text) :
    (text.bytes.takeWhile (blanks.bytes.contains ·)).length = text.indentation.size := by
  induction text with
  | nil => rfl
  | cons c rest ih =>
    rw [bytes_cons, indentation, List.takeWhile_cons]
    cases hc : isBlank c with
    | true =>
      obtain ⟨byte, hencode, hblank⟩ := utf8EncodeChar_of_isBlank hc
      have hone : c.utf8Size = 1 := by
        rw [← String.length_utf8EncodeChar, hencode, List.length_singleton]
      rw [hencode, List.singleton_append, List.takeWhile_cons_of_pos hblank, List.length_cons, ih,
        if_pos rfl, size, hone, Nat.add_comm]
      rfl
    | false =>
      obtain ⟨byte, more, hencode⟩ :=
        List.exists_cons_of_ne_nil (String.utf8EncodeChar_ne_nil (c := c))
      have hmem : byte ∈ String.utf8EncodeChar c := by simp [hencode]
      rw [hencode, List.cons_append,
        List.takeWhile_cons_of_neg
          (Bool.eq_false_iff.1 (not_contains_of_mem_utf8EncodeChar hc hmem))]
      rfl

/-- At a cut the search to the right finds what follows the blanks behind the cut. -/
theorem firstByteOutside_append (before after : Text) :
    (before ++ after).firstByteOutside before.size blanks
      = before.size + after.indentation.size := by
  have hmin : min before.size (before ++ after).bytes.length = before.size := by
    rw [length_bytes, size_append]
    omega
  have hdrop : (before ++ after).bytes.drop before.size = after.bytes := by
    rw [bytes_append, ← length_bytes, List.drop_left]
  simp only [firstByteOutside, hmin, hdrop, length_takeWhile_bytes]

end StatementCompletion.Text
