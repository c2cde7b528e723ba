import StatementCompletion.Repair.Remedy

/-!
# The kinds that remedies are for

Every remedy first looks at the kind of a node, and most kinds are those of nodes that no remedy, or
only a few of them, do anything about.
-/

namespace StatementCompletion

open Repair

variable {d : Document} {c : Cursor}

namespace Remedy

/-- What may have to end with a semicolon. -/
def mayNeedSemicolon : Kind → Bool
  | .expressionStatement | .declarationStatement | .returnStatement | .throwStatement
  | .breakStatement | .continueStatement | .doWhileStatement | .field | .method => true
  | _ => false

/-- Whether a remedy may do anything about a node of a kind. -/
def isFor : Remedy → Kind → Bool
  | .literal, kind => (closingQuote? kind).isSome
  | .call, kind => kind = .methodCall || kind = .newExpression
  | .ifCondition, kind | .ifBranches, kind => kind = .ifStatement
  | .whileCondition, kind | .whileBody, kind => kind = .whileStatement
  | .doWhileCondition, kind => kind = .doWhileStatement
  | .switchSelector, kind | .switchBlock, kind => kind = .switchStatement
  | .catchParameter, kind | .catchBlock, kind => kind = .catchSection
  | .unbracedBody, kind => ownsUnbracedBody kind
  | .synchronizedBlock, kind => kind = .synchronizedStatement
  | .forLoop, kind => kind = .forStatement
  | .foreachLoop, kind => kind = .foreachStatement
  | .methodBody, kind => kind = .method
  | .returnValue, kind => kind = .returnStatement
  | .thrownValue, kind => kind = .throwStatement
  | .parameters, kind => kind = .parameterList
  | .parentheses, kind => kind = .parenthesized
  | .semicolon, kind => mayNeedSemicolon kind
  | .arrayElements, kind => kind = .arrayInitializer
  | .enumSeparator, kind => kind = .enumConstant

/-- About a node of another kind it does nothing. -/
theorem actions_of_not_isFor {remedy : Remedy} (h : remedy.isFor c.kind = false) :
    remedy.actions d c = .ok [] := by
  have hne {kind : Kind} (hkind : decide (c.kind = kind) = false) : c.kind ≠ kind :=
    of_decide_eq_false hkind
  have hlist {kind delimiter : Kind} {closer : Text} (hkind : decide (c.kind = kind) = false) :
      closeWith kind delimiter closer c = [] := if_neg fun hlacks => hne hkind hlacks.1
  have hblock {kind : Kind} (hkind : decide (c.kind = kind) = false) : addBlock kind c = [] :=
    if_neg fun hlacks => hne hkind hlacks.1
  cases remedy with
  | literal =>
    rw [actions, closeLiteral, Option.isNone_iff_eq_none.1 (Option.isSome_eq_false_iff.1 h)]
  | call =>
    obtain ⟨hcall, hnew⟩ := Bool.or_eq_false_iff.1 h
    exact congrArg _ (if_neg (not_or.2 ⟨hne hcall, hne hnew⟩))
  | semicolon =>
    have hneeds : needsSemicolon c = false := by
      unfold needsSemicolon
      split <;> first | rfl | (next hkind => rw [hkind] at h; cases h)
    exact congrArg _ (if_neg fun hlacks => Bool.false_ne_true (hneeds.symm.trans hlacks.1))
  | unbracedBody =>
    have hbody : ownsUnbracedBody c.kind = false := h
    rw [actions, braceBody, hbody]
    rfl
  | returnValue =>
    rw [actions, recordReturnValue, keywordWithoutValue?, if_neg fun hlacks => hne h hlacks.1]
  | thrownValue =>
    rw [actions, recordThrownValue, keywordWithoutValue?, if_neg fun hlacks => hne h hlacks.1]
  | parameters => exact congrArg _ (hlist h)
  | arrayElements => exact congrArg _ (hlist h)
  | switchBlock => exact congrArg _ (hblock h)
  | catchBlock => exact congrArg _ (hblock h)
  | methodBody => exact congrArg _ (if_neg fun hlacks => hne h hlacks.1)
  | _ => exact congrArg _ (if_neg (hne h))

end Remedy

end StatementCompletion
