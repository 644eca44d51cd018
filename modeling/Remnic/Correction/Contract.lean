import Remnic.Text.CodeUnits

/-!
Correction plans and their outcomes.
-/

namespace Remnic.Correction.Contract

open Text.CodeUnits

structure MemoryDraft where
  content : JsString
  deriving DecidableEq, Repr

inductive CorrectionAction where
  | supersede (loserId : JsString) (replacement : Option MemoryDraft) (winnerId : Option JsString)
  | edit (memoryId newContent : JsString)
  | retract (memoryId : JsString)
  | rescope (memoryId toNamespace : JsString)
  | redactionRule (pattern : JsString)
  deriving DecidableEq, Repr

/-- The life of a plan; `partly` is the status `partial`. -/
inductive PlanStatus where
  | pending
  | applying
  | applied
  | discarded
  | partly
  deriving DecidableEq, Repr

structure CorrectionPlan where
  nameSpace : JsString
  actions : List CorrectionAction
  expiresAt : Option Int
  status : Option PlanStatus
  deriving DecidableEq, Repr

/-- The checks of drafts and patterns that look into their texts. -/
structure Host where
  validateMemoryDraft : MemoryDraft → Bool
  validateRedactionPattern : JsString → Bool

def validateCorrectionAction (host : Host) : CorrectionAction → Bool
  | .supersede loserId replacement winnerId =>
    loserId ≠ [] && replacement.all host.validateMemoryDraft &&
      winnerId.all fun winner => trim winner ≠ [] && winner = trim winner && winner ≠ loserId && replacement.isNone
  | .edit memoryId newContent => memoryId ≠ [] && newContent ≠ []
  | .retract memoryId => memoryId ≠ []
  | .rescope memoryId toNamespace => memoryId ≠ [] && trim toNamespace ≠ []
  | .redactionRule pattern => host.validateRedactionPattern pattern

inductive ResultStatus where
  | applied
  | failed
  | skipped
  deriving DecidableEq, Repr

/-- The text of an error; `thrown` is the message of a caught one. -/
inductive Failure where
  | loserNotFound (loserId : JsString)
  | memoryNotFound (memoryId : JsString)
  | winnerNotFound (winnerId : JsString)
  | winnerNotActive (winnerId status : JsString)
  | destinationNotWritable (toNamespace : JsString)
  | cancelled
  | thrown
  deriving DecidableEq, Repr

structure TombstoneId where
  value : JsString
  notEmpty : value ≠ []
  deriving DecidableEq, Repr

/-- A result names its action by the position in the plan. -/
structure CorrectionActionResult where
  action : Nat
  status : ResultStatus
  memoryId : Option JsString := none
  tombstoneId : Option TombstoneId := none
  error : Option Failure := none
  deriving DecidableEq, Repr

inductive Warning where
  | propagationFailed
  | auditFailed
  | markConsumedFailed
  deriving DecidableEq, Repr

/-- `partial` is `partly`; the audit id is filled in after the audit record. -/
structure CorrectionOutcome where
  status : PlanStatus
  results : List CorrectionActionResult
  auditMemoryId : JsString := []
  warnings : List Warning := []
  deriving DecidableEq, Repr

end Remnic.Correction.Contract
