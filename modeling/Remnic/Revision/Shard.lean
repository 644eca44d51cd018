import Remnic.Text.IsoDate

/-!
The receipt shard of one managed path: the file as it stands, the view the store
takes of it, and the standing revision token.
-/

namespace Remnic.Revision.Shard

open Text.CodeUnits Text.IsoDate Option

abbrev Bytes := List (Fin 256)

def isLowerHex (c : CodeUnit) : Bool := (0x30 ≤ c.val && c.val ≤ 0x39) || (0x61 ≤ c.val && c.val ≤ 0x66)

/-- `SHA256_HEX`. -/
def isSha256Hex (value : JsString) : Bool := value.length = 64 && value.all isLowerHex

abbrev Digest := { value : JsString // isSha256Hex value = true }

/-- What the store takes from its host: the hash, the two directions of UTF-8 and
the reader of texts that are not the ISO text of a time value. -/
structure Host where
  sha256 : Bytes → Digest
  toText : Bytes → JsString
  toBytes : JsString → Bytes
  otherTime : JsString → Option Int

/-- A value of a field after `JSON.parse`; an absent field is `undefined`. -/
inductive JsonValue where
  | text (value : JsString)
  | number (value : Int)
  | boolean (value : Bool)
  | null
  | composite
  deriving DecidableEq, Repr

/-- `CasRevisionShard` as it is read, before any check. -/
structure ShardFields where
  version : Option JsonValue := none
  path : Option JsonValue := none
  revision : Option JsonValue := none
  state : Option JsonValue := none
  previous : Option JsonValue := none
  baselineDigest : Option JsonValue := none
  expectedDigest : Option JsonValue := none
  writeLanded : Option JsonValue := none
  committedDigest : Option JsonValue := none
  committedSemanticFingerprint : Option JsonValue := none
  deriving DecidableEq, Repr

inductive ShardFile where
  | invalid
  | notObject
  | object (fields : ShardFields)
  deriving DecidableEq, Repr

/-- A digest field: absent, `null` for an absent file, or a digest. -/
abbrev Evidence := Option (Option Digest)

structure PendingMarker where
  revision : JsString
  previous : Option JsString
  foreign : Bool
  baselineDigest : Evidence
  expectedDigest : Evidence
  writeLanded : Option Bool
  deriving DecidableEq

structure CommittedReceipt where
  revision : JsString
  committedDigest : Option JsString
  committedSemanticFingerprint : Option JsString
  foreign : Bool
  deriving DecidableEq, Repr

/-- `CasShardView`. -/
inductive ShardView where
  | missing
  | foreign
  | committed (receipt : CommittedReceipt)
  | pending (marker : PendingMarker)
  deriving DecidableEq

def stringField : Option JsonValue → Option JsString
  | some (.text value) => some value
  | _ => none

/-- `isDigestOrNullOrUndefined`, with the evidence the field stands for. -/
def evidenceField : Option JsonValue → Option Evidence
  | none => some none
  | some .null => some (some none)
  | some (.text value) => if isDigest : isSha256Hex value = true then some (some (some ⟨value, isDigest⟩)) else none
  | some _ => none

def nonEmptyField (field : Option JsonValue) : Option JsString := (stringField field).filter (· ≠ [])

/-- `previous`: absent, or a string that is not empty. -/
def previousField : Option JsonValue → Option (Option JsString)
  | none => some none
  | field => (nonEmptyField field).map some

def landedField : Option JsonValue → Option (Option Bool)
  | none => some none
  | some (.boolean landed) => some (some landed)
  | some _ => none

def receiptOf (fields : ShardFields) (revision : JsString) (foreign : Bool) : CommittedReceipt where
  revision := revision
  committedDigest := stringField fields.committedDigest
  committedSemanticFingerprint := stringField fields.committedSemanticFingerprint
  foreign := foreign

def versionOne : Option JsonValue := some (.number 1)

/-- A shard that bears a state: a shape that does not validate is corruption. -/
def readTwoPhase (fields : ShardFields) (path : JsString) : Option ShardView := do
  if fields.version ≠ versionOne then none
  let named ← stringField fields.path
  let revision ← nonEmptyField fields.revision
  let previous ← previousField fields.previous
  let baselineDigest ← evidenceField fields.baselineDigest
  let expectedDigest ← evidenceField fields.expectedDigest
  let writeLanded ← landedField fields.writeLanded
  let foreign := decide (named ≠ path)
  if fields.state = some (.text (text "pending")) then
    some (.pending { revision, previous, foreign, baselineDigest, expectedDigest, writeLanded })
  else if fields.state = some (.text (text "committed")) then
    some (.committed (receiptOf fields revision foreign))
  else none

def readLegacyShard (fields : ShardFields) (path : JsString) : ShardView :=
  match nonEmptyField fields.revision with
  | some revision =>
    if fields.version = versionOne ∧ fields.path = some (.text path) then .committed (receiptOf fields revision false)
    else .foreign
  | none => .foreign

def unreadableShard : JsString := text "CAS revision shard is unreadable."

def readShardView (file : Option ShardFile) (path : JsString) : Except JsString ShardView :=
  match file with
  | none => .ok .missing
  | some .invalid => .error unreadableShard
  | some .notObject => .ok .foreign
  | some (.object fields) =>
    if fields.state ≠ none then
      match readTwoPhase fields path with
      | some view => .ok view
      | none => .error unreadableShard
    else .ok (readLegacyShard fields path)

/-- An entry of the legacy metadata; an empty revision does not validate there. -/
abbrev LegacyEntry := { revision : JsString // revision ≠ [] }

/-- A standing receipt as `readStandingRevisionStrict` returns it. -/
structure StandingReceipt where
  revision : JsString
  committedDigest : Option JsString
  committedSemanticFingerprint : Option JsString
  deriving DecidableEq, Repr

def pendingFinalization (path : JsString) : JsString :=
  text "CAS revision receipt for " ++ path ++ text " is pending finalization (recovery needed)."

/-- `legacy` is what the global legacy metadata holds for the path, if it is readable. -/
def readStandingRevisionStrict (file : Option ShardFile) (legacy : Except JsString (Option LegacyEntry)) (path : JsString) :
    Except JsString (Option StandingReceipt) := do
  let fallback := legacy.map (·.map fun entry => ⟨entry.val, none, none⟩)
  match ← readShardView file path with
  | .pending _ => .error (pendingFinalization path)
  | .committed receipt =>
    if receipt.foreign then fallback
    else .ok (some ⟨receipt.revision, receipt.committedDigest, receipt.committedSemanticFingerprint⟩)
  | .missing | .foreign => fallback

/-- `CasRevisionReadStatus`. -/
inductive ReadStatus where
  | present (receipt : StandingReceipt)
  | absent
  | unavailable (reason : JsString)
  deriving DecidableEq, Repr

def readRevisionStatus (file : Option ShardFile) (legacy : Except JsString (Option LegacyEntry)) (path : JsString) :
    ReadStatus :=
  match readStandingRevisionStrict file legacy path with
  | .ok none => .absent
  | .ok (some receipt) => .present receipt
  | .error reason => .unavailable reason

/-- `nextCasRevisionIso`; a time value out of range throws. -/
def nextCasRevisionIso (host : Host) (previous : Option JsString) (now : Int) : Option JsString :=
  match previous.bind (getTime host.otherTime) with
  | some previousMs => if now ≤ previousMs then toISOString (previousMs + 1) else toISOString now
  | none => toISOString now

def evidenceJson : Evidence → Option JsonValue
  | none => none
  | some none => some .null
  | some (some digest) => some (.text digest.val)

/-- The payload `writeShard` writes in the committed state. -/
def committedFields (path revision : JsString) (committedDigest committedSemanticFingerprint : Evidence) : ShardFields where
  version := versionOne
  path := some (.text path)
  revision := some (.text revision)
  state := some (.text (text "committed"))
  committedDigest := evidenceJson committedDigest
  committedSemanticFingerprint := evidenceJson committedSemanticFingerprint

/-- The payload `writeShard` writes in the pending state. -/
def pendingFields (path : JsString) (marker : PendingMarker) : ShardFields where
  version := versionOne
  path := some (.text path)
  revision := some (.text marker.revision)
  state := some (.text (text "pending"))
  previous := marker.previous.map .text
  baselineDigest := evidenceJson marker.baselineDigest
  expectedDigest := evidenceJson marker.expectedDigest
  writeLanded := marker.writeLanded.map .boolean

variable {fields : ShardFields} {path : JsString} {marker : PendingMarker} {previous : Option JsString} {value : JsString}
  {field : Option JsonValue}

@[simp] theorem evidenceField_evidenceJson (evidence : Evidence) : evidenceField (evidenceJson evidence) = some evidence := by
  match evidence with
  | none => rfl
  | some none => rfl
  | some (some digest) => exact dif_pos digest.property

theorem nonEmptyField_text (nonempty : value ≠ []) : nonEmptyField (some (.text value)) = some value := by
  simp [nonEmptyField, stringField, nonempty]

theorem previousField_text (nonempty : ∀ value ∈ previous, value ≠ []) : previousField (previous.map .text) = some previous := by
  cases previous with
  | none => rfl
  | some value =>
    show (nonEmptyField (some (.text value))).map some = _
    rw [nonEmptyField_text (nonempty value rfl)]
    rfl

theorem landedField_boolean (landed : Option Bool) : landedField (landed.map .boolean) = some landed := by
  cases landed <;> rfl

/-- A marker as the store writes it: its own path and tokens that are not empty. -/
structure WellFormed (marker : PendingMarker) : Prop where
  own : marker.foreign = false
  revision : marker.revision ≠ []
  previous : ∀ previous ∈ marker.previous, previous ≠ []

theorem readShardView_pendingFields (path : JsString) (wellFormed : WellFormed marker) :
    readShardView (some (.object (pendingFields path marker))) path = .ok (.pending marker) := by
  obtain ⟨own, revision, previous⟩ := wellFormed
  have view : readTwoPhase (pendingFields path marker) path = some (.pending { marker with foreign := false }) := by
    simp [readTwoPhase, pendingFields, stringField, nonEmptyField_text revision, previousField_text previous,
      landedField_boolean]
  rw [← own] at view
  rw [readShardView, if_pos (by simp [pendingFields]), view]

theorem readShardView_committedFields (path : JsString) {revision : JsString} (nonempty : revision ≠ [])
    (digest fingerprint : Evidence) :
    readShardView (some (.object (committedFields path revision digest fingerprint))) path =
      .ok (.committed (receiptOf (committedFields path revision digest fingerprint) revision false)) := by
  have other : text "committed" ≠ text "pending" := by decide
  have view : readTwoPhase (committedFields path revision digest fingerprint) path =
      some (.committed (receiptOf (committedFields path revision digest fingerprint) revision false)) := by
    simp [readTwoPhase, committedFields, stringField, nonEmptyField_text nonempty, previousField, evidenceField,
      landedField, other]
  rw [readShardView, if_pos (by simp [committedFields]), view]

theorem nonEmptyField_eq_some (read : nonEmptyField field = some value) : field = some (.text value) ∧ value ≠ [] := by
  obtain ⟨isText, nonempty⟩ := filter_eq_some_iff.mp read
  match field, isText with
  | some (.text _), rfl => exact ⟨rfl, of_decide_eq_true nonempty⟩

theorem previousField_eq_some (read : previousField field = some previous) : ∀ value ∈ previous, value ≠ [] := by
  cases field with
  | none =>
    cases read
    exact nofun
  | some json =>
    obtain ⟨value, isText, same⟩ := map_eq_some_iff.mp read
    rw [← same]
    intro other held
    cases held
    exact (nonEmptyField_eq_some isText).2

/-- What a shard holds where it is read as a pending marker. -/
structure HoldsMarker (fields : ShardFields) (marker : PendingMarker) : Prop where
  state : fields.state = some (.text (text "pending"))
  revision : fields.revision = some (.text marker.revision)
  nonempty : marker.revision ≠ []
  previous : ∀ previous ∈ marker.previous, previous ≠ []

theorem readTwoPhase_pending (read : readTwoPhase fields path = some (.pending marker)) : HoldsMarker fields marker := by
  simp only [readTwoPhase, bind_eq_bind] at read
  split at read
  · contradiction
  simp only [bind_eq_some_iff] at read
  obtain ⟨_, _, revision, hasRevision, _, hasPrevious, _, _, _, _, _, _, rest⟩ := read
  split at rest
  next pending =>
    cases rest
    have revision := nonEmptyField_eq_some hasRevision
    exact ⟨pending, revision.1, revision.2, previousField_eq_some hasPrevious⟩
  next =>
    split at rest
    · cases rest
    · contradiction

theorem readShardView_pending (read : readShardView (some (.object fields)) path = .ok (.pending marker)) :
    HoldsMarker fields marker := by
  rw [readShardView] at read
  split at read
  · split at read
    next view shaped =>
      cases read
      exact readTwoPhase_pending shaped
    next => contradiction
  · have legacy : readLegacyShard fields path = .pending marker := Except.ok.inj read
    simp only [readLegacyShard] at legacy
    split at legacy
    · split at legacy <;> contradiction
    · contradiction

theorem pending_tokens {shard : Option ShardFile} (read : readShardView shard path = .ok (.pending marker)) :
    marker.revision ≠ [] ∧ ∀ previous ∈ marker.previous, previous ≠ [] := by
  match shard with
  | none | some .notObject => exact nomatch Except.ok.inj read
  | some .invalid => contradiction
  | some (.object fields) =>
    have holds := readShardView_pending read
    exact ⟨holds.nonempty, holds.previous⟩

theorem committedFields_not_pending (path revision : JsString) (digest fingerprint : Evidence) (marker : PendingMarker) :
    readShardView (some (.object (committedFields path revision digest fingerprint))) path ≠ .ok (.pending marker) := by
  intro read
  have state := (readShardView_pending read).state
  simp only [committedFields, some.injEq, JsonValue.text.injEq] at state
  have other : text "committed" ≠ text "pending" := by decide
  exact other state

theorem pendingFields_revision {seen : PendingMarker}
    (read : readShardView (some (.object (pendingFields path marker))) path = .ok (.pending seen)) :
    seen.revision = marker.revision := by
  have revision := (readShardView_pending read).revision
  simp only [pendingFields, some.injEq, JsonValue.text.injEq] at revision
  exact revision.symm

/-- The time value of the next token: the clock, or one past the token it starts from. -/
def nextTime (previous : Option Int) (now : Int) : Int :=
  match previous with
  | some previousMs => if now ≤ previousMs then previousMs + 1 else now
  | none => now

theorem getTime_nextCasRevisionIso {host : Host} {now : Int} {next : JsString}
    (minted : nextCasRevisionIso host previous now = some next) :
    getTime host.otherTime next = some (nextTime (previous.bind (getTime host.otherTime)) now) := by
  rw [nextCasRevisionIso] at minted
  cases known : previous.bind (getTime host.otherTime) with
  | none =>
    simp only [known] at minted
    exact getTime_toISOString _ minted
  | some previousMs =>
    simp only [known] at minted
    rw [nextTime]
    split at minted
    next behind =>
      rw [if_pos behind]
      exact getTime_toISOString _ minted
    next past =>
      rw [if_neg past]
      exact getTime_toISOString _ minted

end Remnic.Revision.Shard
