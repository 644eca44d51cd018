import Remnic.Library.Links
import Remnic.Memory.SupersessionKey
import Remnic.Tombstone.Scan

/-!
The migration of entity ids: a tombstone's entity and its key are rewritten along
the journal's mappings, and a candidate fact's entity is resolved along them.
-/

namespace Remnic.Tombstone.IdMigration
open Library Library.Links Library.Newest Text.CodeUnits Memory.SupersessionKey Entry Lookup Scan

/-- The units that `assertSafeEntityId` refuses: path separators, controls, line and paragraph separators. -/
def isUnsafeUnit (c : CodeUnit) : Bool :=
  c = slash || c = backslash || c.val < 0x20 || (0x7F ≤ c.val && c.val ≤ 0x9F) || c.val = 0x2028 || c.val = 0x2029

def isSafeEntityId (id : JsString) : Bool := id ≠ [] && !id.any isUnsafeUnit

/-- The names that every object has properties of. -/
def objectPropertyNames : List JsString :=
  ["constructor", "__defineGetter__", "__defineSetter__", "hasOwnProperty", "__lookupGetter__", "__lookupSetter__",
    "isPrototypeOf", "propertyIsEnumerable", "toString", "valueOf", "__proto__", "toLocaleString"].map text

/-- A journal of id mappings, in the order of `Object.entries`. An object has no entry `__proto__`. -/
structure Journal where
  mappings : OrderedMap JsString JsString
  safe : ∀ entry ∈ mappings.entries, isSafeEntityId entry.1 = true ∧ isSafeEntityId entry.2 = true
  plain : text "__proto__" ∉ mappings.keys
  acyclic : Acyclic fun legacyId canonicalId => mappings.lookup legacyId = some canonicalId

/-- The loop of `resolveHistoricalEntityCanonicalId`, which comes to an id for the second time or to one without a
mapping before it has passed every mapping twice. -/
def resolveFrom (mappings : OrderedMap JsString JsString) : Nat → List JsString → JsString → JsString
  | 0, _, current => current
  | rounds + 1, seen, current =>
    if current ∈ seen then current
    else
      match mappings.lookup current with
      | none => current
      | some next => if next = [] ∨ next = current then current else resolveFrom mappings rounds (current :: seen) next

def resolveHistoricalEntityCanonicalId (normalized : JsString) (mappings : OrderedMap JsString JsString) : JsString :=
  resolveFrom mappings (mappings.entries.length + 1) [] normalized

/-- `indexOf("::")` and the two slices around it. -/
def splitKey : JsString → Option (JsString × JsString)
  | [] => none
  | c :: rest =>
    if startsWith (c :: rest) (text "::") then some ([], rest.drop 1)
    else (splitKey rest).map fun parts => (c :: parts.1, parts.2)

variable (tables : UnicodeTables)

/-- The canonical id of the first legacy id with each normal form. -/
def normalizedMappings (mappings : OrderedMap JsString JsString) : OrderedMap JsString JsString :=
  mappings.entries.foldl (fun normalized entry =>
    let normalizedLegacyId := normalizeSupersessionKey tables entry.1
    if normalizedLegacyId ≠ [] ∧ !normalized.contains normalizedLegacyId then normalized.set normalizedLegacyId entry.2
    else normalized) .empty

/-- A property that an object inherits is truthy and no text, so that the entity is not written. -/
def rewriteEntityRef (mappings : OrderedMap JsString JsString) (entityRef : JsString) : Option JsString :=
  match truthy (mappings.lookup entityRef) with
  | some canonicalId => some canonicalId
  | none => if entityRef ∈ objectPropertyNames then none else some entityRef

def rewriteSupersessionKey (normalized : OrderedMap JsString JsString) (supersessionKey : JsString) : JsString :=
  match splitKey supersessionKey with
  | none => supersessionKey
  | some (legacyId, attributeName) =>
    match normalized.lookup (normalizeSupersessionKey tables legacyId) with
    | none => supersessionKey
    | some canonicalId => (computeSupersessionKey tables (some canonicalId) attributeName).getD supersessionKey

/-- `rewriteTombstoneLine`, on the object of a line. -/
def rewriteTombstoneLine (tombstone : TombstoneEntry) (mappings : OrderedMap JsString JsString) : TombstoneEntry :=
  { tombstone with
    entityRef := tombstone.entityRef.bind (rewriteEntityRef mappings)
    supersessionKey := tombstone.supersessionKey.map (rewriteSupersessionKey tables (normalizedMappings tables mappings)) }

structure TombstoneIdentity where
  entityRef : Option JsString
  supersessionKey : Option JsString
  deriving DecidableEq

def canonicalizeTombstoneIdentity (identity : TombstoneIdentity) (refIds : OrderedMap JsString JsString) :
    TombstoneIdentity :=
  match identity.entityRef with
  | none => identity
  | some entityRef =>
    let canonical := resolveHistoricalEntityCanonicalId entityRef refIds
    if canonical = entityRef then identity
    else
      let stalePrefix := normalizeSupersessionKey tables entityRef ++ text "::"
      ⟨some canonical, identity.supersessionKey.map fun key =>
        if startsWith key stalePrefix then
          normalizeSupersessionKey tables canonical ++ text "::" ++ key.drop stalePrefix.length
        else key⟩

def identityOf (tombstone : TombstoneEntry) : TombstoneIdentity := ⟨tombstone.entityRef, tombstone.supersessionKey⟩

def withIdentity (tombstone : TombstoneEntry) (identity : TombstoneIdentity) : TombstoneEntry :=
  { tombstone with entityRef := identity.entityRef, supersessionKey := identity.supersessionKey }

/-- A fact with structured attributes that is to be written. -/
structure CandidateFact where
  nameSpace : JsString
  entityRef : Option JsString
  structuredAttributes : Attributes

def canonicalizeEntityRefOption (options : CandidateFact) (mappings : OrderedMap JsString JsString) : CandidateFact :=
  { options with
    entityRef := options.entityRef.map fun entityRef => resolveHistoricalEntityCanonicalId entityRef mappings }

def keyedQuery (fact : CandidateFact) : TombstoneLookupQuery where
  entityRef := fact.entityRef
  supersessionKeys := supersessionKeysForFact tables fact.entityRef (some fact.structuredAttributes)
  nameSpace := fact.nameSpace

/-- A tombstone blocks a fact through the keyed tier. -/
def blocks (tombstone : TombstoneEntry) (fact : CandidateFact) : Bool :=
  (lookupEntries (indexOf [tombstone]) (keyedQuery tables fact)).isSome

end Remnic.Tombstone.IdMigration
