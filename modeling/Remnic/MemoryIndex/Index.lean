import Remnic.Text.IsoDate
import Remnic.MemoryIndex.Tags

/-!
The date index and the tag graph, with the edits that index and deindex a memory. The
objects of the source are maps of their own properties; a read of any other name finds what
every object inherits, and there the source throws.
-/

namespace Remnic.MemoryIndex.Index

open Text.CodeUnits Text.IsoDate Text.Replace Library Library.AppendNew Tags

/-- The Unicode tables, `Date.parse` on other texts, and the fingerprints of a search text. -/
structure Host where
  tables : UnicodeTables
  otherDate : JsString → Option Int
  temporalSearchTokenHashes : Option JsString → List JsString

structure TemporalIndexEvent where
  path : JsString
  eventAt : JsString
  observedAt : Option JsString
  sessionKey : Option JsString
  validUntil : Option JsString
  searchTokenHashes : List JsString
  deriving DecidableEq

structure TemporalIndexEntry where
  path : JsString
  createdAt : JsString
  tags : List JsString
  validAt : Option JsString
  observedAt : Option JsString
  sessionKey : Option JsString
  validUntil : Option JsString
  searchText : Option JsString
  deriving DecidableEq

abbrev PathSets := OrderedMap JsString (List JsString)

structure TemporalIndex where
  dates : PathSets
  events : OrderedMap JsString TemporalIndexEvent
  deriving DecidableEq

structure TagNode where
  paths : List JsString
  aliases : List JsString
  parents : List JsString
  deriving DecidableEq

structure TagIndex where
  tags : OrderedMap JsString TagNode
  aliases : PathSets
  deriving DecidableEq

def TemporalIndex.empty : TemporalIndex := ⟨OrderedMap.empty, OrderedMap.empty⟩

def TagIndex.empty : TagIndex := ⟨OrderedMap.empty, OrderedMap.empty⟩

/-- The names that every plain object inherits. -/
def inheritedNames : List JsString :=
  ["constructor", "__defineGetter__", "__defineSetter__", "hasOwnProperty", "__lookupGetter__", "__lookupSetter__",
    "isPrototypeOf", "propertyIsEnumerable", "toString", "valueOf", "__proto__", "toLocaleString"].map text

def inherited (name : JsString) : Bool := name ∈ inheritedNames

def protoName : JsString := text "__proto__"

/-- A calendar day, in ten characters. -/
abbrev Day := { day : JsString // day.length = 10 }

/-- The date of a timestamp; of one that is too short, the present day. -/
def isoDateFromTimestamp (today : Day) (isoString : JsString) : JsString :=
  if isoString.length < 10 then today.val else isoString.take 10

def normalizedIsoTimestamp (host : Host) (value : Option JsString) : Option JsString :=
  (value.filter fun given => trim given ≠ []).bind fun given => (getTime host.otherDate given).bind toISOString

def isControl (c : CodeUnit) : Bool := c.val ≤ 0x1F || c.val = 0x7F

def temporalEventFromEntry (host : Host) (entry : TemporalIndexEntry) : TemporalIndexEvent :=
  let createdAt := (normalizedIsoTimestamp host (some entry.createdAt)).getD (text "1970-01-01T00:00:00.000Z")
  { path := entry.path
    eventAt := (normalizedIsoTimestamp host entry.validAt).getD createdAt
    observedAt := normalizedIsoTimestamp host entry.observedAt
    sessionKey := ((entry.sessionKey.filter fun key => trim key ≠ []).map fun key =>
      trim (replaceRuns isControl space key)).filter (· ≠ [])
    validUntil := normalizedIsoTimestamp host entry.validUntil
    searchTokenHashes := host.temporalSearchTokenHashes entry.searchText }

/-- Nothing where an inherited name is taken for a set. -/
def addPathToSet (record : PathSets) (key path : JsString) : Option PathSets :=
  match record.lookup key with
  | some paths => some (if path ∈ paths then record else record.set key (paths ++ [path]))
  | none => if inherited key then none else some (record.set key [path])

/-- The paths without one; nothing if none is left. -/
def withoutPath (path : JsString) (paths : List JsString) : Option (List JsString) :=
  if paths.filter (· ≠ path) = [] then none else some (paths.filter (· ≠ path))

def removePathFromSet (record : PathSets) (key path : JsString) : Option PathSets :=
  match record.lookup key with
  | some paths =>
    match withoutPath path paths with
    | some kept => some (record.set key kept)
    | none => some (record.erase key)
  | none => if inherited key then none else some record

def removePathFromAllSets (record : PathSets) (path : JsString) : PathSets :=
  record.filterMap fun _ paths => withoutPath path paths

/-- `events[path] = event`: of the name `__proto__` no property is made. -/
def setEvent (events : OrderedMap JsString TemporalIndexEvent) (path : JsString) (event : TemporalIndexEvent) :
    OrderedMap JsString TemporalIndexEvent :=
  if path = protoName then events else events.set path event

variable (tables : UnicodeTables)

def pushAlias (canonical : JsString) (aliases : PathSets) (key : JsString) : Option PathSets :=
  match aliases.lookup key with
  | some canonicals => some (aliases.set key (appendNew canonicals [canonical]))
  | none => if inherited key then none else some (aliases.set key [canonical])

def aliasKeys (names : List JsString) : List JsString := (names.map (normalizeAliasKey tables)).filter (· ≠ [])

def ensureTagNode (index : TagIndex) (canonical : JsString) : Option TagNode :=
  match index.tags.lookup canonical with
  | some node => some node
  | none => if inherited canonical then none else some ⟨[], [], deriveParentTags canonical⟩

def addTagGraphEntry (index : TagIndex) (rawTag path : JsString) : Option TagIndex :=
  let canonical := normalizeCanonicalTag tables rawTag
  if canonical = [] then some index
  else do
    let node ← ensureTagNode index canonical
    let keys := aliasKeys tables (deriveTagAliases tables rawTag canonical)
    let aliases ← keys.foldlM (pushAlias canonical) index.aliases
    return {
      tags := index.tags.set canonical
        { node with paths := appendNew node.paths [path], aliases := appendNew node.aliases keys }
      aliases }

/-- An alias keeps the tags that are there. -/
def keptCanonicals (index : TagIndex) (canonicals : List JsString) : Option (List JsString) :=
  let kept := (appendNew [] (canonicals.map (normalizeCanonicalTag tables))).filter fun canonical =>
    canonical ≠ [] ∧ (index.tags.contains canonical = true ∨ inherited canonical = true)
  if kept = [] then none else some kept

def pruneTagAliases (index : TagIndex) : TagIndex :=
  { index with aliases := index.aliases.filterMap fun _ canonicals => keptCanonicals tables index canonicals }

def removeTagGraphEntry (index : TagIndex) (rawTag path : JsString) : Option TagIndex :=
  let canonical := normalizeCanonicalTag tables rawTag
  if canonical = [] then some index
  else
    match index.tags.lookup canonical with
    | some node =>
      match withoutPath path node.paths with
      | some kept => some { index with tags := index.tags.set canonical { node with paths := kept } }
      | none => some (pruneTagAliases tables { index with tags := index.tags.erase canonical })
    | none => if inherited canonical then none else some index

def removePathFromAllTagEntries (index : TagIndex) (path : JsString) : TagIndex :=
  pruneTagAliases tables
    { index with
      tags := index.tags.filterMap fun _ node => (withoutPath path node.paths).map fun kept => { node with paths := kept } }

def normalizeTagEntry (index : TagIndex) (entry : JsString × TagNode) : Option TagIndex :=
  let canonical := normalizeCanonicalTag tables entry.1
  if canonical = [] then some index
  else do
    let node : TagNode := ⟨appendNew [] entry.2.paths, appendNew [] entry.2.aliases, appendNew [] entry.2.parents⟩
    let merged ← match index.tags.lookup canonical with
      | some existing => some ⟨appendNew existing.paths node.paths, appendNew existing.aliases node.aliases,
          appendNew existing.parents node.parents⟩
      | none => if inherited canonical then none else some node
    let derived ← (deriveTagAliases tables canonical canonical).foldlM (pushAlias canonical) index.aliases
    let aliases ← (aliasKeys tables node.aliases).foldlM (pushAlias canonical) derived
    return ⟨index.tags.set canonical merged, aliases⟩

def normalizeAliasEntry (index : TagIndex) (entry : JsString × List JsString) : Option TagIndex :=
  let key := normalizeAliasKey tables entry.1
  if key = [] then some index
  else
    let canonicals := (entry.2.map (normalizeCanonicalTag tables)).filter (· ≠ [])
    match index.aliases.lookup key with
    | some known => some { index with aliases := index.aliases.set key (appendNew known canonicals) }
    | none => if inherited key then none else some { index with aliases := index.aliases.set key (appendNew [] canonicals) }

def normalizeTagIndex (raw : TagIndex) : Option TagIndex := do
  let index ← raw.tags.entries.foldlM (normalizeTagEntry tables) TagIndex.empty
  raw.aliases.entries.foldlM (normalizeAliasEntry tables) index

end Remnic.MemoryIndex.Index
