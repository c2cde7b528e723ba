import StatementCompletion.Document

/-!
# Why a completion fails

A completion fails when an edit is refused, when the tree and the text disagree, or when the stamp
kept for its session is gone.
-/

namespace StatementCompletion

/-- The reasons for which a completion fails. -/
inductive Failure where
  | refusedEdit (reason : EditError)
  | noBlockAt (offset : Nat)
  | targetLost
  | stampMissing
deriving DecidableEq

/-- The reason in words. -/
def Failure.message : Failure → String
  | .refusedEdit reason => "edit failed: " ++ reason.message
  | .noBlockAt offset =>
    "incorrect tree operation: no block owns `\x7b` at " ++ toString offset
  | .targetLost => "incorrect tree operation: target marker was released"
  | .stampMissing => "smart enter session stamp is missing"

end StatementCompletion
