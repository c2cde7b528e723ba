import StatementCompletion.Proofs.Grammar.Agreement.Expressions
import StatementCompletion.Proofs.Grammar.Truncation.Combinators

/-!
# The rules for types on a truncated text

No rule for a type knows a closing parenthesis or a semicolon, so a type that is read up to the seam
ends there in both runs, and neither gets into the tail.
-/

namespace StatementCompletion.Grammar

/-- The constructs inside the rules of the two sides agree on a truncated text. -/
structure Inner.Truncate (σ : Seam) (inner inner' : Inner) : Prop where
  agree : inner.Agree inner
  agree' : inner'.Agree inner'
  typeReference : ∀ {f}, Truncates σ 0 f (inner .typeReference) (inner' .typeReference)
  expression : ∀ {f}, Truncates σ σ.tail.length f (inner .expression) (inner' .expression)
  conditional : ∀ {f}, Truncates σ σ.tail.length f (inner .conditional) (inner' .conditional)
  operation :
  ∀ {least f}, Truncates σ σ.tail.length f (inner (.operation least)) (inner' (.operation least))
  unary : ∀ {f}, Truncates σ σ.tail.length f (inner .unary) (inner' .unary)

variable {σ : Seam} {least : Nat} {wanted : Kind → Prop} {f : Nat} {inner inner' : Inner}

/-- The kinds of closing tokens. -/
theorem Kind.isClosing_cases {kind : Kind} (h : kind.isClosing = true) :
    kind = .rightParen ∨ kind = .semicolon ∨ kind = .endOfFile := by
  revert h
  cases kind <;> decide

theorem dottedName_truncates : Truncates σ 0 f dottedName dottedName :=
  pair_truncates rfl rfl

theorem dimension_truncates : Truncates σ 0 f dimension dimension :=
  pair_truncates rfl rfl

theorem typeBound_truncates (h : inner.Truncate σ inner') :
    Truncates σ 0 f (typeBound inner) (typeBound inner') := by
  have hbound {kind : Kind} (hkind : kind.isInner = true) : TruncatesAt σ 0 (· = kind) f
      (do take; discard (inner .typeReference)) (do take; discard (inner' .typeReference)) :=
    (take_truncates_of hkind).bind fun _ => h.typeReference.discard
  exact .isAtEither_ite rfl rfl (hbound rfl) (hbound rfl) (.pure ())

theorem typeArgument_truncates (h : inner.Truncate σ inner') :
    Truncates σ 0 f (typeArgument inner) (typeArgument inner') := by
  refine (takeIf_truncates rfl).ite ?_ h.typeReference
  exact (typeBound_truncates h).bind fun _ => .pure true

theorem typeArguments_truncates (h : inner.Truncate σ inner') :
    TruncatesAt σ 0 (· = .less) f (typeArguments inner) (typeArguments inner') := by
  refine (take_truncates_of rfl).bind fun _ => ?_
  refine (takeIf_truncates rfl).ite (.pure true) ?_
  exact (separated_truncates rfl (typeArgument_truncates h)).ite
    (takeIf_truncates rfl) (.pure false)

theorem className_truncates (h : inner.Truncate σ inner') :
    TruncatesAt σ 0 (· = .identifier) f (className inner) (className inner') := by
  refine (take_truncates_of rfl).bind fun _ => ?_
  refine (loop_truncates dottedName_truncates).bind fun _ => whenAt_truncates rfl ?_
  refine attempt_truncates (typeArguments_truncates h) ?_ ?_ (by decide)
  · exact typeArguments_opens h.agree
  · exact typeArguments_opens h.agree'

theorem typeReference_truncates (h : inner.Truncate σ inner') :
    Truncates σ 0 f (typeReference inner) (typeReference inner') := by
  refine .marker_bind fun m => .current_bind (fun kind _ => ?_) fun kind hclosing => ?_
  · have hrest (a : Unit) : Truncates σ 0 m
        (do loop dimension; wrap m .typeReference; return true)
        (do loop dimension; wrap m .typeReference; return true) := by
      refine (loop_truncates dimension_truncates).bind fun _ => ?_
      exact (wrap_truncates rfl).bind fun _ => .pure true
    split
    · exact (take_truncates_of rfl).bind hrest
    · exact (take_truncates_of rfl).bind hrest
    · exact (className_truncates h).bind hrest
    · exact .pure false
  · rcases Kind.isClosing_cases hclosing with rfl | rfl | rfl <;> exact .pure false

end StatementCompletion.Grammar
