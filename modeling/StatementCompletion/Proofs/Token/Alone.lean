import StatementCompletion.Proofs.Token.Program

/-!
# Tokens on their own

A scanner looks ahead to find out where a token ends, but what it has taken it takes again
when nothing is behind it.  So a token depends on what surrounds it in its end only:
`Cuts.alone` cuts the text of a token, without the rest, into that same token, and
`ofText_stable` says so of all the tokens of a text.
-/

namespace StatementCompletion.Token

/-! ## Scanners take what they took -/

theorem run_taken (inClass : Char → Bool) (text : Text) :
    run inClass (run inClass text).1 = ((run inClass text).1, []) := by
  have htaken : run inClass ((run inClass text).1 ++ []) = ((run inClass text).1, []) :=
    run_eq_of_forall (fun _ => mem_run) nofun
  rwa [List.append_nil] at htaken

theorem blockComment_taken (text : Text) :
    blockComment (blockComment text).1 = ((blockComment text).1, []) := by
  have htaken : blockComment ((blockComment text).1 ++ []) = ((blockComment text).1, []) :=
    blockComment_eq (Prod.eta (blockComment text)).symm fun _ => rfl
  rwa [List.append_nil] at htaken

/-- A backslash that a line break stopped takes nothing along at the end of the text either. -/
theorem quoted_taken (quote : Char) (text : Text) :
    quoted quote (quoted quote text).1 = ((quoted quote text).1, []) := by
  fun_induction quoted quote text with
  | case1 => rfl
  | case2 c rest hc => rfl
  | case3 => rfl
  | case4 c rest hc => rfl
  | case5 d rest hd taken left heq hslash ih =>
    rw [heq] at ih
    rw [quoted.eq_def]
    simp [hslash, hd, ih]
  | case6 rest hquote hslash =>
    rw [quoted.eq_def]
    simp [hquote, hslash]
  | case7 c rest hc hslash hquote taken left heq ih =>
    rw [heq] at ih
    rw [quoted.eq_def]
    simp [hc, hslash, hquote, ih]

/-! ## A token without what is behind it -/

variable {token : Token} {left : Text}

theorem Cuts.ofText_text (h : Cuts token []) : ofText token.text = [token] := by
  have htokens := h.ofText_append
  rwa [List.append_nil] at htokens

/-- A scanner that takes again what it took stops at the end of a text. -/
theorem stops_nil {scan : Text → Text × Text}
    (htaken : ∀ text, scan (scan text).1 = ((scan text).1, []))
    (left : Text) : Stops scan left [] := by
  intro taken h
  have htail := htaken (taken ++ left)
  rw [List.append_nil]
  rwa [h] at htail

/-- **A token is cut off its own text.** -/
theorem Cuts.alone (h : Cuts token left) : Cuts token [] :=
  h.stops (joins_nil left) (fun _ => stops_nil (run_taken isSpace) left)
    (fun _ => stops_nil (run_taken (!isReturn ·)) left) (fun _ => stops_nil blockComment_taken left)
    fun quote taken _ _ => stops_nil (quoted_taken quote) left taken

/-! ## All tokens -/

theorem Spells.length_le {tokens : List Token} {text : Text} (h : Spells tokens text) :
    tokens.length ≤ text.length := by
  induction h with
  | nil => exact Nat.le_refl 0
  | @cons token tokens rest hcut _ ih =>
    have hpos : 0 < token.text.length := List.length_pos_iff.2 hcut.nonempty
    rw [List.length_cons, List.length_append]
    omega

/-- **Tokens are stable.**  The tokens of a text spell it, and there are no more of them than
characters, for none is empty.  The text of each of them is read as that one token. -/
theorem ofText_stable (text : Text) :
    (ofText text).flatMap (·.text) = text ∧ (ofText text).length ≤ text.length
      ∧ ∀ token ∈ ofText text, token.text ≠ [] ∧ ofText token.text = [token] := by
  have hspells := ofText_spells text
  refine ⟨hspells.flatMap_text, hspells.length_le, fun token htoken => ?_⟩
  obtain ⟨front, back, htokens⟩ := List.append_of_mem htoken
  have hlexed := lexed_ofText text
  rw [htokens] at hlexed
  obtain ⟨hcuts, -⟩ := hlexed.of_append.of_cons
  exact ⟨hcuts.text_ne_nil, hcuts.alone.ofText_text⟩

end StatementCompletion.Token
