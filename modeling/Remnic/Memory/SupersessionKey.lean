import Remnic.Text.CodeUnits

/-!
Structured attributes of a memory and the keys under which they supersede each
other: one key for each pair of an entity and an attribute name.
-/

namespace Remnic.Memory.SupersessionKey

open Library Text.CodeUnits

inductive MemoryStatus where
  | active
  | pendingReview
  | rejected
  | quarantined
  | superseded
  | archived
  | forgotten
  deriving DecidableEq, Repr

/-- `structuredAttributes`, in the order of `Object.keys`. -/
abbrev Attributes := OrderedMap JsString JsString

def hyphen : CodeUnit := unit 0x2D

def isSeparator (c : CodeUnit) : Bool := isWhiteSpace c || c = hyphen

def collapseSeparators : Bool → JsString → JsString
  | _, [] => []
  | inRun, c :: rest =>
    if isSeparator c then
      if inRun then collapseSeparators true rest else hyphen :: collapseSeparators true rest
    else c :: collapseSeparators false rest

def stripLeading (value : JsString) : JsString := if value.head? = some hyphen then value.tail else value

def stripTrailing (value : JsString) : JsString := if value.getLast? = some hyphen then value.dropLast else value

variable (tables : UnicodeTables)

def normalizeSupersessionKey (raw : JsString) : JsString :=
  stripTrailing (stripLeading (collapseSeparators false (tables.toLowerCase (trim raw))))

def computeSupersessionKey (entityRef : Option JsString) (attributeName : JsString) : Option JsString :=
  match entityRef with
  | none => none
  | some ref =>
    if ref = [] || attributeName = [] then none
    else
      let entity := normalizeSupersessionKey tables ref
      let attr := normalizeSupersessionKey tables attributeName
      if entity = [] || attr = [] then none else some (entity ++ text "::" ++ attr)

def supersessionKeysForFact (entityRef : Option JsString) (structuredAttributes : Option Attributes) : List JsString :=
  match structuredAttributes with
  | none => []
  | some attributes => attributes.keys.filterMap (computeSupersessionKey tables entityRef)

/-- The first attribute whose name has the normal form of a raw key. -/
def lookupAttributeByNormalizedKey (attributes : Attributes) (rawKey : JsString) : Option JsString :=
  (attributes.entries.find? fun entry =>
    normalizeSupersessionKey tables entry.1 = normalizeSupersessionKey tables rawKey).map Prod.snd

end Remnic.Memory.SupersessionKey
