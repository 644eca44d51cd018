import Remnic.Buffer.SnapshotSharing
import Remnic.Text.JsonPrint

/-! The key of a turn, by which a merge finds the turns it has, in place of a comparison of two turns. -/

namespace Remnic.Buffer.IdentityKey

open Text.CodeUnits Text.JsonText Text.JsonPrint Turn ScopeGroups SnapshotSharing List

def Role.value : Role → JsString
  | .user => text "user"
  | .assistant => text "assistant"

def OriginRole.value : OriginRole → JsString
  | .user => text "user"
  | .assistant => text "assistant"
  | .tool => text "tool"

def undefinedMark : JsString := unit 1 :: text "undefined"

def nullMark : JsString := unit 1 :: text "null"

/-- A value that may be undefined, and may be `null`. -/
def opt : Option (Option JsString) → JsString
  | none => undefinedMark
  | some none => nullMark
  | some (some value) => jsonStringify value

def optFlag : Option Bool → JsString
  | none => undefinedMark
  | some value => if value then text "true" else text "false"

variable {Value : Type}

def identityFields (turn : SnapshotTurn Value) : List JsString :=
  [Role.value turn.role,
    turn.content,
    turn.timestamp,
    opt (turn.sessionKey.map some),
    opt (turn.sessionOwnerPrincipal.map some),
    opt (turn.logicalSessionKey.map some),
    opt turn.providerThreadId,
    opt (turn.turnFingerprint.map some),
    optFlag turn.persistProcessedFingerprint,
    opt (turn.sourceConnector.map some),
    opt (turn.originRole.map fun role => some (OriginRole.value role)),
    optFlag turn.ambientCapture,
    opt (turn.sourceValidAt.map some),
    optFlag turn.acceptedCapture,
    opt (turn.codingContext.map fun ctx => some ctx.projectId),
    opt (turn.codingContext.map fun ctx => some ctx.rootPath),
    opt (turn.codingContext.map CodingContext.branch),
    opt (turn.codingContext.map CodingContext.defaultBranch),
    opt (turn.writeNamespaceOverride.map some),
    opt (turn.principalOverride.map some),
    opt (turn.scopeProfileWritePlan.join.map fun plan => some (scopeProfilePlanIdentity (some (some plan))))]

def bufferTurnIdentityKey (turn : SnapshotTurn Value) : JsString := stringify (.array ((identityFields turn).map .string))

/-- `seen` holds the keys of what is merged. -/
def mergeFrom (seen : List JsString) (merged : List (SnapshotTurn Value)) : List (SnapshotTurn Value) → List (SnapshotTurn Value)
  | [] => merged
  | turn :: rest =>
      let key := bufferTurnIdentityKey turn
      if key ∈ seen then mergeFrom seen merged rest else mergeFrom (seen ++ [key]) (merged ++ [turn]) rest

def mergeBufferTurnsByIdentity (existing incoming : List (SnapshotTurn Value)) : List (SnapshotTurn Value) :=
  mergeFrom (existing.map bufferTurnIdentityKey) existing incoming

/-- A merge that compares every turn with those before it. -/
def mergePairwise (merged : List (SnapshotTurn Value)) : List (SnapshotTurn Value) → List (SnapshotTurn Value)
  | [] => merged
  | turn :: rest =>
      if merged.any (bufferTurnsEqual · turn) then mergePairwise merged rest else mergePairwise (merged ++ [turn]) rest

theorem stringify_inj (one other : Message) (same : stringify one.val = stringify other.val) : one.val = other.val := by
  have read := congrArg parse same
  rwa [parse_stringify, parse_stringify, Option.some.injEq] at read

theorem jsonStringify_inj (one other : JsString) : jsonStringify one = jsonStringify other ↔ one = other :=
  ⟨fun same => Json.string.inj (stringify_inj ⟨.string one, rfl⟩ ⟨.string other, rfl⟩ same), congrArg _⟩

theorem marked_ne (rest value : JsString) : unit 1 :: rest ≠ jsonStringify value := fun same =>
  absurd (List.cons.inj same).1 (by decide)

theorem opt_inj (one other : Option (Option JsString)) : opt one = opt other ↔ one = other := by
  have apart : text "undefined" ≠ text "null" := by decide
  rcases one with _ | _ | one <;> rcases other with _ | _ | other <;>
    simp [opt, undefinedMark, nullMark, jsonStringify_inj, apart, apart.symm, marked_ne, (marked_ne _ _).symm]

theorem optFlag_inj (one other : Option Bool) : optFlag one = optFlag other ↔ one = other := by
  rcases one with _ | _ | _ <;> rcases other with _ | _ | _ <;> decide

theorem role_inj (one other : Role) : Role.value one = Role.value other ↔ one = other := by
  cases one <;> cases other <;> decide

theorem originRole_inj (one other : Option OriginRole) :
    (one.map fun role => some (OriginRole.value role)) = (other.map fun role => some (OriginRole.value role)) ↔ one = other := by
  rcases one with _ | _ | _ | _ <;> rcases other with _ | _ | _ | _ <;> decide

theorem given_inj (one other : Option JsString) : one.map some = other.map some ↔ one = other :=
  (Option.map_injective (Option.some_injective _)).eq_iff

/-- A plan's identity is never empty, so it is a plan's or none's. -/
theorem plan_inj (one other : Option (Option ResolvedScopeProfilePlan)) :
    (one.join.map fun plan => some (scopeProfilePlanIdentity (some (some plan)))) =
        (other.join.map fun plan => some (scopeProfilePlanIdentity (some (some plan)))) ↔
      scopeProfilePlanIdentity one = scopeProfilePlanIdentity other := by
  rcases one with _ | _ | one <;> rcases other with _ | _ | other <;> simp [scopeProfilePlanIdentity]

theorem context_inj (one other : Option CodingContext) :
    (one.map fun ctx => some ctx.projectId) = (other.map fun ctx => some ctx.projectId) ∧
        (one.map fun ctx => some ctx.rootPath) = (other.map fun ctx => some ctx.rootPath) ∧
        one.map CodingContext.branch = other.map CodingContext.branch ∧
        one.map CodingContext.defaultBranch = other.map CodingContext.defaultBranch ↔
      one = other := by
  rcases one with _ | ⟨⟨⟩⟩ <;> rcases other with _ | ⟨⟨⟩⟩ <;> simp
  tauto

theorem areWritten_strings (values : List JsString) : areWritten (values.map .string) = true := by
  induction values with
  | nil => rfl
  | cons value values ih => exact ih

theorem key_inj (left right : SnapshotTurn Value) :
    bufferTurnIdentityKey left = bufferTurnIdentityKey right ↔ identityFields left = identityFields right := by
  refine ⟨fun same => ?_, fun same => by rw [bufferTurnIdentityKey, same, bufferTurnIdentityKey]⟩
  have arrays := Json.array.inj (stringify_inj ⟨.array _, areWritten_strings _⟩ ⟨.array _, areWritten_strings _⟩ same)
  exact map_injective_iff.mpr (fun _ _ => Json.string.inj) arrays

theorem key_decides (left right : SnapshotTurn Value) :
    bufferTurnIdentityKey left = bufferTurnIdentityKey right ↔ bufferTurnsEqual left right = true := by
  rw [key_inj, bufferTurnsEqual, decide_eq_true_iff]
  simp only [identityFields, SnapshotTurn.compared, cons.injEq, and_true, BufferTurn.mk.injEq, role_inj, opt_inj, given_inj,
    optFlag_inj, originRole_inj, plan_inj, ← context_inj left.codingContext]
  tauto

theorem mergeFrom_pairwise (merged incoming : List (SnapshotTurn Value)) :
    mergeFrom (merged.map bufferTurnIdentityKey) merged incoming = mergePairwise merged incoming := by
  induction incoming generalizing merged with
  | nil => rfl
  | cons turn rest ih =>
    have known : bufferTurnIdentityKey turn ∈ merged.map bufferTurnIdentityKey ↔ merged.any (bufferTurnsEqual · turn) := by
      simp only [mem_map, any_eq_true, key_decides]
    have grown := ih (merged ++ [turn])
    rw [map_append] at grown
    by_cases old : merged.any (bufferTurnsEqual · turn)
    · simp only [mergeFrom, mergePairwise, if_pos (known.mpr old), if_pos old, ih]
    · simp only [mergeFrom, mergePairwise, if_neg (mt known.mp old), if_neg old]
      exact grown

/-- The key tells turns apart as the comparison does, and the merge by keys is the pairwise one. -/
theorem keys_decide_equality :
    (∀ left right : SnapshotTurn Value, bufferTurnIdentityKey left = bufferTurnIdentityKey right ↔ bufferTurnsEqual left right = true) ∧
      ∀ existing incoming : List (SnapshotTurn Value),
        mergeBufferTurnsByIdentity existing incoming = mergePairwise existing incoming :=
  ⟨key_decides, fun existing incoming => mergeFrom_pairwise existing incoming⟩

end Remnic.Buffer.IdentityKey
