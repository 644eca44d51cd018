import Remnic.Library.AppendNew
import Remnic.Library.LikePattern
import Remnic.Text.CodeUnits

/-!
The `session_id` under which a conversation is archived: the frame that
`lcmSessionKeyForNamespace` puts around a session key, the normalization of the
engine, and the two comparisons that the archive makes against the column.
-/

namespace Remnic.Lcm.SessionKey
open Text.CodeUnits Library.AppendNew Library.LikePattern

/-- `LCM_NS_SENTINEL`, the unit separator. -/
def sentinel : CodeUnit := unit 0x1F

def escapeDefaultLcmKey (sessionKey : JsString) : JsString :=
  if startsWith sessionKey [sentinel] then sentinel :: sessionKey else sessionKey

def lcmSessionKeyForNamespace (store sessionKey : Option JsString) (defaultNamespace : JsString) : Option JsString :=
  match sessionKey with
  | none => none
  | some [] => some []
  | some key =>
    match store with
    | some name =>
      if name ≠ [] ∧ name ≠ defaultNamespace then some (sentinel :: name ++ sentinel :: key)
      else some (escapeDefaultLcmKey key)
    | none => some (escapeDefaultLcmKey key)

/-- The ids of a same-session reader, in the order of the namespaces and without repeats. -/
def lcmReadSessionIdsForNamespaces (stores : List JsString) (sessionKey : Option JsString)
    (defaultNamespace : JsString) : List (Option JsString) :=
  match sessionKey with
  | none => [none]
  | some [] => [none]
  | some key =>
    (appendNew [] (stores.map fun store =>
      (lcmSessionKeyForNamespace (some store) (some key) defaultNamespace).getD key)).map some

theorem key_of_nonempty (store : JsString) {key : JsString} (nonempty : key ≠ []) (defaultNamespace : JsString) :
    ∃ id, lcmSessionKeyForNamespace (some store) (some key) defaultNamespace = some id := by
  cases key with
  | nil => exact absurd rfl nonempty
  | cons head rest =>
    simp only [lcmSessionKeyForNamespace]
    split_ifs
    · exact ⟨_, rfl⟩
    · exact ⟨_, rfl⟩

def normalizeLcmSessionId (sessionId : JsString) : JsString := trim sessionId

def normalizeOptionalLcmSessionId (sessionId : Option JsString) : Option JsString :=
  match sessionId with
  | none => none
  | some id => if (normalizeLcmSessionId id).length > 0 then some (normalizeLcmSessionId id) else none

/-- The marks of `LIKE ? ESCAPE '\\'`, which folds the case of ASCII letters only. -/
def likeMarks : Wildcards CodeUnit where
  anything := unit 0x25
  single := unit 0x5F
  escape := backslash
  fold := asciiLowerUnit
  separate := by decide

def escapeSqlLike (value : JsString) : JsString := escaped likeMarks value

/-- The session filter of `search` and `searchWithContent` on one row. -/
def archiveAdmits (sessionId sessionPrefix : Option JsString) (row : JsString) : Bool :=
  match sessionId, sessionPrefix with
  | some id, _ => row = id
  | none, some start => like likeMarks false (escapeSqlLike start ++ [unit 0x25]) row
  | none, none => true

/-- Whether `searchContext` or `searchContextFull` may return a row of this session id. -/
def searchAdmits (sessionId sessionPrefix : Option JsString) (row : JsString) : Bool :=
  if sessionId.isSome && (normalizeOptionalLcmSessionId sessionId).isNone then false
  else if sessionPrefix.isSome && (normalizeOptionalLcmSessionId sessionPrefix).isNone then false
  else archiveAdmits (normalizeOptionalLcmSessionId sessionId) (normalizeOptionalLcmSessionId sessionPrefix) row

def isRouteCharacter (c : CodeUnit) : Bool :=
  (0x30 ≤ c.val && c.val ≤ 0x39) || (0x41 ≤ c.val && c.val ≤ 0x5A) || (0x61 ≤ c.val && c.val ≤ 0x7A) ||
  c.val = 0x2E || c.val = 0x5F || c.val = 0x2D

/-- `isSafeRouteNamespace` on ASCII names, which normalization leaves alone and whose token fits. -/
def isSafeRouteNamespace (value : JsString) : Bool :=
  value.length ≠ 0 && value.length ≤ 64 && value ≠ [dot] && !(value.tails.any fun rest => startsWith rest [dot, dot]) &&
  value.all isRouteCharacter

/-- The namespace and session key of a call, as the access layer hands them on. -/
structure Request (defaultNamespace : JsString) where
  store : Option JsString
  admitted : ∀ name ∈ store, name = defaultNamespace ∨ isSafeRouteNamespace name = true
  sessionKey : JsString
  nonBlank : trim sessionKey ≠ []

namespace Request

variable {defaultNamespace : JsString}

/-- The namespace that is framed, for a request outside the default store. -/
def overlay (request : Request defaultNamespace) : Option JsString :=
  request.store.filter fun name => name ≠ defaultNamespace

def effective (request : Request defaultNamespace) : JsString := request.overlay.getD defaultNamespace

/-- The id of the request's turns in the archive, and of its exact reads, deletes and summaries. -/
def archiveId (request : Request defaultNamespace) : JsString :=
  normalizeLcmSessionId
    ((lcmSessionKeyForNamespace request.store (some request.sessionKey) defaultNamespace).getD request.sessionKey)

/-- The row filter of a prefix search of this request. -/
def searchedBy (request : Request defaultNamespace) (start row : JsString) : Bool :=
  searchAdmits none (lcmSessionKeyForNamespace request.store (some start) defaultNamespace) row

end Request

end Remnic.Lcm.SessionKey
