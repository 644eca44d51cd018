import Remnic.Revision.Shard

/-!
Share links of the support passport: their identifiers, digests and stored
states, and the checks that a request passes before the store is touched.
-/

namespace Remnic.SupportPassport.Grants
open Text.CodeUnits
open Revision.Shard (isLowerHex isSha256Hex)

/-- `SAFE_GRANT_ID`, unit by unit. -/
def safeUnitAt (index : Nat) (c : CodeUnit) : Bool :=
  if index = 8 ∨ index = 13 ∨ index = 18 ∨ index = 23 then c.val = 0x2D
  else if index = 14 then 0x31 ≤ c.val && c.val ≤ 0x38
  else if index = 19 then c.val = 0x38 || c.val = 0x39 || c.val = 0x61 || c.val = 0x62
  else isLowerHex c

def isSafeGrantId (value : JsString) : Bool :=
  value.length = 36 && value.zipIdx.all fun entry => safeUnitAt entry.2 entry.1

structure GrantId where
  text : JsString
  safe : isSafeGrantId text = true
  deriving DecidableEq

/-- `UUID_INPUT` ignores case, so it is `SAFE_GRANT_ID` on the lower-cased text. -/
def grantIdOf (value : JsString) : Option GrantId :=
  if safe : isSafeGrantId (asciiLower value) = true then some ⟨asciiLower value, safe⟩ else none

/-- A digest in the form `digest("hex")` gives it. -/
structure Digest where
  hex : JsString
  wellFormed : isSha256Hex hex = true
  deriving DecidableEq

/-- What the store takes from the platform: SHA-256, the tables of Unicode, and the results of
successive calls of `makeSecret` and `makeGrantId`. -/
structure Host where
  sha256 : JsString → Digest
  tables : UnicodeTables
  makeSecret : Nat → List (Fin 256)
  makeGrantId : Nat → JsString

inductive SupportPassportErrorCode where
  | grantExpired
  | grantGone
  | grantNotFound
  | grantStale
  | invalidInput
  | stateConflict
  | storageConflict
  deriving DecidableEq

structure SupportPassportError where
  code : SupportPassportErrorCode
  message : JsString
  status : Nat
  deriving DecidableEq

/-- What a file operation reports instead of an answer. -/
inductive Fault where
  | enoent
  | failed
  deriving DecidableEq

inductive StoreError where
  | support (error : SupportPassportError)
  | ownerIndexLockLost
  | malformedGrantState (message : JsString)
  | invalid (message : JsString)
  | fault (fault : Fault)
  deriving DecidableEq

def grantNotFound : StoreError := .support ⟨.grantNotFound, text "The share link was not found.", 404⟩

def grantGone : StoreError := .support ⟨.grantGone, text "The share link is no longer active.", 410⟩

def grantExpired : StoreError := .support ⟨.grantExpired, text "The share link has expired.", 410⟩

def grantStale : StoreError := .support ⟨.grantStale, text "The shared support guide has changed.", 410⟩

def invalidRequest : StoreError := .support ⟨.invalidInput, text "The share link request is invalid.", 400⟩

def tooManyActive : StoreError :=
  .support ⟨.invalidInput, text "A support passport can contain at most 100 active share links.", 400⟩

def storeTooManyActive : StoreError :=
  .support ⟨.storageConflict, text "The share link store contains too many active links.", 409⟩

def storeBusy : StoreError := .support ⟨.storageConflict, text "The share link store is busy. Try again.", 409⟩

def storeChanged : StoreError :=
  .support ⟨.storageConflict, text "The share link store changed during the request.", 409⟩

def notAllocated : StoreError :=
  .support ⟨.storageConflict, text "A new share link could not be allocated.", 409⟩

def changedAfterLoad : StoreError :=
  .support ⟨.stateConflict, text "The share link changed after it was loaded.", 409⟩

structure CardRef where
  cardId : JsString
  revision : JsString
  deriving DecidableEq

/-- `/^[A-Za-z0-9._:-]+$/`, one unit. -/
def isMemoryIdUnit (c : CodeUnit) : Bool :=
  (0x41 ≤ c.val && c.val ≤ 0x5A) || (0x61 ≤ c.val && c.val ≤ 0x7A) || (0x30 ≤ c.val && c.val ≤ 0x39) ||
    c.val = 0x2E || c.val = 0x5F || c.val = 0x3A || c.val = 0x2D

def isCardRef (card : CardRef) : Bool :=
  card.cardId ≠ [] && card.cardId.length ≤ 128 && card.cardId.all isMemoryIdUnit && isSha256Hex card.revision

/-- Between one and eight cards, no card twice. -/
structure GrantCards where
  cards : List CardRef
  some_card : cards ≠ []
  at_most_eight : cards.length ≤ 8
  refs : cards.all isCardRef = true
  distinct : (cards.map CardRef.cardId).Nodup
  deriving DecidableEq

/-- The card part of the schemas; `trim` is part of the schema of a card identifier. -/
def parseCards (cards : List CardRef) : Option GrantCards :=
  let trimmed := cards.map fun card => { card with cardId := trim card.cardId }
  if accepted : trimmed ≠ [] ∧ trimmed.length ≤ 8 ∧ trimmed.all isCardRef = true ∧ (trimmed.map CardRef.cardId).Nodup then
    some ⟨trimmed, accepted.1, accepted.2.1, accepted.2.2.1, accepted.2.2.2⟩
  else none

/-- `SupportPassportNamespaceSchema` and the hash of the owner's principal. -/
structure Owner where
  space : JsString
  principalHash : Digest
  deriving DecidableEq

/-- `SupportPassportGrantState`, with its time stamps in milliseconds. -/
structure GrantState where
  stateVersion : Nat
  grantId : GrantId
  owner : Owner
  ownerLockKey : Digest
  secretHash : Digest
  cards : GrantCards
  createdAt : Int
  expiresAt : Int
  revokedAt : Option Int
  positive : 0 < stateVersion
  lasting : createdAt < expiresAt
  deriving DecidableEq

namespace GrantState

def isActive (cutoff : Int) (state : GrantState) : Bool := state.revokedAt.isNone && decide (cutoff < state.expiresAt)

def revokedAs (state : GrantState) (time : Int) : GrantState :=
  { state with stateVersion := state.stateVersion + 1, revokedAt := some time, positive := Nat.succ_pos _ }

variable (state : GrantState) (time : Int)

@[simp] theorem revokedAs_grantId : (state.revokedAs time).grantId = state.grantId := rfl

@[simp] theorem revokedAs_revokedAt : (state.revokedAs time).revokedAt = some time := rfl

@[simp] theorem revokedAs_stateVersion : (state.revokedAs time).stateVersion = state.stateVersion + 1 := rfl

@[simp] theorem revokedAs_owner : (state.revokedAs time).owner = state.owner := rfl

theorem isActive_iff {cutoff : Int} {state : GrantState} :
    state.isActive cutoff = true ↔ state.revokedAt = none ∧ cutoff < state.expiresAt := by
  rw [isActive, Bool.and_eq_true, Option.isNone_iff_eq_none, decide_eq_true_iff]

theorem isActive_mono {earlier later : Int} {state : GrantState} (passed : earlier ≤ later)
    (active : state.isActive later = true) : state.isActive earlier = true := by
  rw [isActive_iff] at active ⊢
  exact ⟨active.1, by omega⟩

end GrantState

/-- `newestGrantFirst`; identifiers of one shape compare by their units. -/
def newestGrantFirst (left right : GrantState) : Bool :=
  decide (right.createdAt < left.createdAt) ||
    (decide (right.createdAt = left.createdAt) && decide (left.grantId.text ≤ right.grantId.text))

def sortNewest (states : List GrantState) : List GrantState := states.mergeSort newestGrantFirst

def maxOwnerGrantHistory : Nat := 100

def maxOwnerIndexRecoveryAttempts : Nat := 3

section Digests

variable (host : Host)

def domainHash (domain value : JsString) : Digest := host.sha256 (domain ++ unit 0 :: value)

def secretHash (secret : JsString) : Digest := domainHash host (text "support-passport-secret:v1") secret

def computeSupportPassportOwnerKey (principal : JsString) : Digest := host.sha256 principal

def computeSupportPassportOwnerLockKey (space principal : JsString) : Digest :=
  host.sha256 (text "[" ++ jsonStringify space ++ text "," ++ jsonStringify principal ++ text "]")

def ownerHash (owner : Owner) : Digest :=
  domainHash host (text "support-passport-owner-index:v1") (owner.space ++ unit 0 :: owner.principalHash.hex)

/-- `normalizeNamespaceIdentity` leaves a namespace that the schema accepts as it is. -/
def isCanonicalNamespace (space : JsString) : Bool := space ≠ [] && host.tables.normalizeNfc (trim space) = space

def normalizeNamespace (space : JsString) : Except StoreError JsString :=
  if isCanonicalNamespace host space then .ok space else .error invalidRequest

end Digests

def normalizeGrantId (grantId : JsString) : Except StoreError GrantId :=
  match grantIdOf grantId with
  | some normalized => .ok normalized
  | none => .error grantNotFound

def normalizePrincipal (principal : JsString) : Except StoreError JsString :=
  if (trim principal).length < 1 ∨ (trim principal).length > 512 then .error invalidRequest else .ok (trim principal)

def base64urlDigit (value : Nat) : CodeUnit :=
  if value < 26 then unit (0x41 + value)
  else if value < 52 then unit (0x61 + (value - 26))
  else if value < 62 then unit (0x30 + (value - 52))
  else if value = 62 then unit 0x2D
  else unit 0x5F

def base64url : List (Fin 256) → JsString
  | [] => []
  | [a] => [base64urlDigit (a.val / 4), base64urlDigit (a.val % 4 * 16)]
  | [a, b] => [base64urlDigit (a.val / 4), base64urlDigit (a.val % 4 * 16 + b.val / 16), base64urlDigit (b.val % 16 * 4)]
  | a :: b :: c :: rest =>
    base64urlDigit (a.val / 4) :: base64urlDigit (a.val % 4 * 16 + b.val / 16) ::
      base64urlDigit (b.val % 16 * 4 + c.val / 64) :: base64urlDigit (c.val % 64) :: base64url rest

/-- A `Date`; `none` is an invalid one. -/
abbrev JsDate := Option Int

/-- `expiresAt` is absent or the instant that its text names. -/
structure CreateStoredGrantInput where
  space : JsString
  principal : JsString
  cards : List CardRef
  expiresAt : Option Int
  requestedAt : Option JsDate

/-- A create request after `SupportPassportCreateGrantInputSchema` and the check of its duration. -/
structure ParsedInput where
  space : JsString
  principal : JsString
  cards : GrantCards
  expiresAt : Int
  requestedAt : Int

def minDurationMs : Int := 300000

def maxDurationMs : Int := 604800000

/-- The part of `create` before its first lock, given the time that `now()` answers. -/
def parseCreateInput (host : Host) (input : CreateStoredGrantInput) (now : Int) : Except StoreError ParsedInput := do
  let space ← normalizeNamespace host input.space
  match normalizePrincipal input.principal, parseCards input.cards, input.expiresAt, input.requestedAt.getD (some now) with
  | .ok principal, some cards, some expiresAt, some requestedAt =>
    if expiresAt - requestedAt < minDurationMs ∨ expiresAt - requestedAt > maxDurationMs then .error invalidRequest
    else .ok ⟨space, principal, cards, expiresAt, requestedAt⟩
  | _, _, _, _ => .error invalidRequest

def ParsedInput.owner (host : Host) (input : ParsedInput) : Owner :=
  ⟨input.space, computeSupportPassportOwnerKey host input.principal⟩

/-- The new state, when the time still fits the request. -/
def newGrantState (host : Host) (input : ParsedInput) (grantId : GrantId) (secret : JsString) (createdAt : Int) :
    Except StoreError GrantState :=
  if input.requestedAt > createdAt ∨ input.expiresAt - createdAt > maxDurationMs then .error invalidRequest
  else if lasting : createdAt < input.expiresAt then
    .ok {
      stateVersion := 1
      grantId := grantId
      owner := input.owner host
      ownerLockKey := computeSupportPassportOwnerLockKey host input.space input.principal
      secretHash := secretHash host secret
      cards := input.cards
      createdAt := createdAt
      expiresAt := input.expiresAt
      revokedAt := none
      positive := Nat.one_pos
      lasting := lasting }
  else .error invalidRequest

theorem newGrantState_ok {host : Host} {input : ParsedInput} {grantId : GrantId} {secret : JsString} {createdAt : Int}
    {state : GrantState} (made : newGrantState host input grantId secret createdAt = .ok state) :
    state.grantId = grantId ∧ state.owner = input.owner host ∧ state.stateVersion = 1 ∧ state.revokedAt = none := by
  simp only [newGrantState] at made
  split at made
  · cases made
  · split at made
    · obtain rfl := Except.ok.inj made
      exact ⟨rfl, rfl, rfl, rfl⟩
    · cases made

end Remnic.SupportPassport.Grants
