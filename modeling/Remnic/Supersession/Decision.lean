import Remnic.Memory.SupersessionKey
import Remnic.Text.IsoDate
import Remnic.Tombstone.Entry

/-!
Which memories a memory supersedes, and how a superseded memory is marked.
-/

namespace Remnic.Supersession.Decision

open Library Text.CodeUnits Text.IsoDate Memory.SupersessionKey
open Tombstone.Entry (truthy)

inductive EventTimeSource where
  | extracted | assumed
  deriving DecidableEq

structure MemoryFrontmatter where
  id : JsString
  created : JsString
  updated : JsString
  validAt : Option JsString := none
  invalidAt : Option JsString := none
  eventTimeSource : Option EventTimeSource := none
  status : Option MemoryStatus := none
  entityRef : Option JsString := none
  structuredAttributes : Option Attributes := none
  supersededBy : Option JsString := none
  supersededAt : Option JsString := none
  parentId : Option JsString := none
  deriving DecidableEq

structure MemoryFile where
  path : JsString
  frontmatter : MemoryFrontmatter
  deriving DecidableEq

/-- The case tables, and `Date.parse` with time values as results. -/
structure Host where
  tables : UnicodeTables
  dateParse : JsString → Option Int
  inRange : ∀ value time, dateParse value = some time → -maxTime ≤ time ∧ time ≤ maxTime

def MemoryFrontmatter.isActive (frontmatter : MemoryFrontmatter) : Bool := frontmatter.status.getD .active = .active

def effectiveValidAt (frontmatter : MemoryFrontmatter) : JsString :=
  (truthy (frontmatter.validAt.map trim)).getD frontmatter.created

variable (host : Host)

def normalizeValue (value : JsString) : JsString := host.tables.toLowerCase (trim value)

/-- The key of a new attribute to which a candidate gives another value. -/
def conflictingKey (candidateAttributes : Attributes) (newEntityRef : JsString) (entry : JsString × JsString) :
    Option JsString :=
  match lookupAttributeByNormalizedKey host.tables candidateAttributes entry.1 with
  | none => none
  | some candidateValue =>
    if normalizeValue host candidateValue = normalizeValue host entry.2 then none
    else computeSupersessionKey host.tables (some newEntityRef) entry.1

/-- The matched keys, if the candidate is to be superseded. -/
def shouldSupersedeExisting (candidate : MemoryFrontmatter) (newEntityRef : JsString) (newAttributes : Attributes)
    (newCreatedAt newMemoryId : JsString) : Option (List JsString) :=
  if candidate.id = newMemoryId || !candidate.isActive then none
  else
    match truthy candidate.entityRef, candidate.structuredAttributes with
    | some entityRef, some attributes =>
      if normalizeSupersessionKey host.tables entityRef ≠ normalizeSupersessionKey host.tables newEntityRef then none
      else
        match host.dateParse (effectiveValidAt candidate), host.dateParse newCreatedAt with
        | some candidateCreated, some newCreated =>
          if newCreated ≤ candidateCreated then none
          else
            let matchedKeys := newAttributes.entries.filterMap (conflictingKey host attributes newEntityRef)
            if matchedKeys = [] then none else some matchedKeys
        | _, _ => none
    | _, _ => none

structure SupersessionArgs where
  newMemoryId : JsString
  entityRef : Option JsString
  structuredAttributes : Option Attributes
  createdAt : JsString
  enabled : Bool := true
  useCallerTimestamp : Bool := false
  deriving DecidableEq

/-- The checks before the first read: the entity and the attributes of a call that goes on. -/
def accepted (args : SupersessionArgs) : Option (JsString × Attributes) :=
  match host.dateParse args.createdAt, truthy args.entityRef, args.structuredAttributes with
  | some _, some entityRef, some attributes =>
    if args.enabled && attributes.entries ≠ [] &&
        supersessionKeysForFact host.tables (some entityRef) (some attributes) ≠ [] then
      some (entityRef, attributes)
    else none
  | _, _, _ => none

/-- What a call has fixed once it has read the memories of both tiers. -/
structure Scan where
  newMemoryId : JsString
  entityRef : JsString
  structuredAttributes : Attributes
  createdAt : JsString
  persistedCreatedAt : JsString
  useCallerTimestamp : Bool
  replacement : Option MemoryFile
  allCandidates : List MemoryFile
  deriving DecidableEq

def findById (memories : List MemoryFile) (id : JsString) : Option MemoryFile :=
  memories.find? (·.frontmatter.id = id)

def scanOf (args : SupersessionArgs) (entityRef : JsString) (attributes : Attributes)
    (hotMemories coldMemories : List MemoryFile) : Scan where
  newMemoryId := args.newMemoryId
  entityRef
  structuredAttributes := attributes
  createdAt := args.createdAt
  persistedCreatedAt :=
    if args.useCallerTimestamp then args.createdAt
    else ((findById hotMemories args.newMemoryId).map fun memory => effectiveValidAt memory.frontmatter).getD args.createdAt
  useCallerTimestamp := args.useCallerTimestamp
  replacement := findById (hotMemories ++ coldMemories) args.newMemoryId
  allCandidates := hotMemories ++ coldMemories

/-- What the scan makes of a candidate it has listed. -/
inductive Verdict where
  | skipped
  | unaffected
  | conflicting (matchedKeys : List JsString)
  deriving DecidableEq, Repr

def verdict (scan : Scan) (processedIds : List JsString) (memory : MemoryFrontmatter) : Verdict :=
  if memory.id = scan.newMemoryId || memory.id ∈ processedIds || !memory.isActive then .skipped
  else
    match shouldSupersedeExisting host memory scan.entityRef scan.structuredAttributes scan.persistedCreatedAt
      scan.newMemoryId with
    | none => .unaffected
    | some matchedKeys => .conflicting matchedKeys

/-- A candidate read again is still to be marked. -/
def stillOpen (fresh : MemoryFrontmatter) : Bool := fresh.isActive && truthy fresh.supersededBy = none

structure TemporalSupersessionMutation where
  supersededAt : JsString
  invalidAt : Option JsString
  matchedKeys : List JsString
  deriving DecidableEq, Repr

/-- The latest of the three dates, which are time values or count as zero. -/
def supersededAt (scan : Scan) (fresh : MemoryFrontmatter) : JsString :=
  let latest := max (max ((host.dateParse fresh.created).getD 0) ((host.dateParse scan.persistedCreatedAt).getD 0))
    ((host.dateParse scan.createdAt).getD 0)
  (toISOString latest).getD []

def invalidAtPatch (scan : Scan) (fresh : MemoryFrontmatter) : Option JsString :=
  if (truthy fresh.invalidAt).isSome then none
  else if scan.useCallerTimestamp then some scan.persistedCreatedAt
  else
    some ((truthy ((scan.replacement.bind fun memory => memory.frontmatter.validAt).map trim)).getD scan.persistedCreatedAt)

def mutationOf (scan : Scan) (fresh : MemoryFrontmatter) (matchedKeys : List JsString) : TemporalSupersessionMutation where
  supersededAt := supersededAt host scan fresh
  invalidAt := truthy (invalidAtPatch scan fresh)
  matchedKeys

def temporalMutationPatch (replacementId : JsString) (mutation : TemporalSupersessionMutation)
    (frontmatter : MemoryFrontmatter) : MemoryFrontmatter :=
  { frontmatter with
    status := some .superseded
    supersededBy := some replacementId
    supersededAt := some mutation.supersededAt
    updated := mutation.supersededAt
    invalidAt := (truthy mutation.invalidAt).or frontmatter.invalidAt }

/-- The dates with which the chunks of a superseded memory expire. -/
def childMutation (mutation : TemporalSupersessionMutation) (parent : MemoryFrontmatter) : TemporalSupersessionMutation where
  supersededAt := mutation.supersededAt
  invalidAt := truthy (mutation.invalidAt.or parent.invalidAt)
  matchedKeys := []

/-- The patch of a chunk keeps an end date that is there. -/
def childPatch (replacementId : JsString) (mutation : TemporalSupersessionMutation) (frontmatter : MemoryFrontmatter) :
    MemoryFrontmatter :=
  { frontmatter with
    status := some .superseded
    supersededBy := some replacementId
    supersededAt := some mutation.supersededAt
    updated := mutation.supersededAt
    invalidAt :=
      if (truthy frontmatter.invalidAt).isSome then frontmatter.invalidAt
      else (truthy mutation.invalidAt).or frontmatter.invalidAt }

/-- A chunk expires while it is active, or again when this memory has superseded it. -/
def expires (replacementId : JsString) (chunk : MemoryFrontmatter) : Bool :=
  chunk.isActive || (chunk.status = some .superseded && chunk.supersededBy = some replacementId)

/-- A memory is marked and keeps what its keys are made of. -/
structure Marks (replacementId : JsString) (old new : MemoryFrontmatter) : Prop where
  id : new.id = old.id
  status : new.status = some .superseded
  supersededBy : new.supersededBy = some replacementId
  entityRef : new.entityRef = old.entityRef
  structuredAttributes : new.structuredAttributes = old.structuredAttributes

variable (replacementId : JsString) (mutation : TemporalSupersessionMutation) (frontmatter : MemoryFrontmatter)

theorem marks_temporalMutationPatch : Marks replacementId frontmatter (temporalMutationPatch replacementId mutation frontmatter) :=
  ⟨rfl, rfl, rfl, rfl, rfl⟩

theorem marks_childPatch : Marks replacementId frontmatter (childPatch replacementId mutation frontmatter) :=
  ⟨rfl, rfl, rfl, rfl, rfl⟩

theorem Marks.not_active {replacementId : JsString} {old new : MemoryFrontmatter} (marks : Marks replacementId old new) :
    new.isActive = false := by
  simp [MemoryFrontmatter.isActive, marks.status]

theorem getTime_inRange {value : JsString} {time : Int} (read : getTime (fun _ => none) value = some time) :
    -maxTime ≤ time ∧ time ≤ maxTime := by
  unfold getTime at read
  simp only at read
  split_ifs at read with text
  unfold toISOString at text
  split_ifs at text with range
  exact Option.some.inj read ▸ range

/-- A host that reads the texts `toISOString` writes, and lower-case letters. -/
def sampleHost : Host := ⟨plainTables, getTime fun _ => none, fun _ _ read => getTime_inRange read⟩

/-- A memory of one entity, written on a day of January. -/
def sampleMemory (id : String) (day : String) (attributes : Attributes) : MemoryFile where
  path := text "facts/" ++ text id
  frontmatter :=
    { id := text id
      created := text "2026-01-0" ++ text day ++ text "T00:00:00.000Z"
      updated := text "2026-01-0" ++ text day ++ text "T00:00:00.000Z"
      entityRef := some (text "user")
      structuredAttributes := some attributes }

def sampleAttribute (name value : String) : Attributes := ⟨[(text name, text value)], List.nodup_singleton _⟩

def sampleArgs (memory : MemoryFile) : SupersessionArgs where
  newMemoryId := memory.frontmatter.id
  entityRef := memory.frontmatter.entityRef
  structuredAttributes := memory.frontmatter.structuredAttributes
  createdAt := memory.frontmatter.created

end Remnic.Supersession.Decision
