import Remnic.Contradiction.Review

/-!
The verbs that answer a contradiction pair: a keep supersedes the other memory,
a merge supersedes both by a third, and every failure is undone by hand.
-/

namespace Remnic.Contradiction.Resolution
open Library Text.CodeUnits Text.IsoDate Review

inductive MemoryStatus where
  | active | pendingReview | rejected | quarantined | superseded | archived | forgotten
deriving DecidableEq

def MemoryStatus.name : MemoryStatus → JsString
  | .active => text "active"
  | .pendingReview => text "pending_review"
  | .rejected => text "rejected"
  | .quarantined => text "quarantined"
  | .superseded => text "superseded"
  | .archived => text "archived"
  | .forgotten => text "forgotten"

/-- A memory, with what a resolution reads and writes of its frontmatter. -/
structure MemoryFile where
  content : JsString
  category : JsString
  confidence : Option ℚ := none
  status : Option MemoryStatus := none
  supersededBy : Option JsString := none
  supersededAt : Option JsString := none
deriving DecidableEq

abbrev Memories := OrderedMap JsString MemoryFile

def MemoryFile.effectiveStatus (memory : MemoryFile) : MemoryStatus := memory.status.getD .active

/-- What befalls a call: it does its work, it returns false or null and does nothing, or it throws, with its work done
or not. -/
inductive Fate where
  | works | refuses | fails (landed : Bool)
deriving DecidableEq

inductive Side where
  | a | b
deriving DecidableEq

def Side.other : Side → Side
  | .a => .b
  | .b => .a

inductive Site where
  | snapshot (side : Side) | replacement | create | verify | supersede (side : Side)
  | restoreRead (side : Side) | restoreWrite (side : Side) | cleanupRead | invalidate
deriving DecidableEq

/-- What surrounds a resolution. Others may answer the pair while it works on the memories. -/
structure Host where
  faults : Site → Fate
  supersessionTime : Side → JsString
  mintId : Memories → JsString
  mintFresh : ∀ memories : Memories, memories.lookup (mintId memories) = none
  /-- The content of a new memory is that of a tombstone. -/
  tombstoneBlocked : Bool
  env : ReviewEnv
  meanwhile : List ReviewEvent
  /-- The pair's file cannot be read when the answer is to be written. -/
  pairUnreadable : Bool
  moment : Moment
  /-- The verbs of preference drift, which change no pair's memories but the first's. -/
  resolvePreferenceDrift : ContradictionPair → ResolutionVerb → Memories → Memories × List JsString × JsString

structure ExecuteResolutionOptions where
  mergedMemoryId : Option JsString := none
  mergedContent : Option JsString := none
  mergedCategory : Option JsString := none
  /-- What befalls `storageForNamespace`, if it is given. -/
  storageForNamespace : Option Fate := none

inductive ResolutionMessage where
  | pairNotFound
  | alreadyResolved (verb : ResolutionVerb)
  | notValid (verb : ResolutionVerb)
  | keptNotFound (id : JsString)
  | keptInactive (id : JsString) (status : MemoryStatus)
  | kept (id loser : JsString)
  | supersedeFailedRestored (id : JsString)
  | supersedeFailedIncomplete (id : JsString)
  | mergeSourcesMissing
  | replacementNotDistinct
  | replacementNotFound (id : JsString)
  | replacementInactive (id : JsString) (status : MemoryStatus)
  | mergeNeedsContent
  | mergedBlocked
  | mergedNotCreated
  | mergedNotVerified (id : JsString)
  | mergeFailedRestored (id : JsString) (restored : List JsString)
  | mergeFailedIncomplete (id : JsString) (unrestored : List JsString)
  | merged (id : JsString)
  | bothValid
  | deferred
  | notPersistedRolledBack
  | notPersistedIncomplete
  | notPersisted
  | drift (message : JsString)
deriving DecidableEq

structure ResolutionResult where
  pairId : JsString
  verb : ResolutionVerb
  affectedIds : List JsString
  message : ResolutionMessage

def ResolutionVerb.name : ResolutionVerb → JsString
  | .keepA => text "keep-a"
  | .keepB => text "keep-b"
  | .merge => text "merge"
  | .bothValid => text "both-valid"
  | .needsMoreContext => text "needs-more-context"
  | .keep => text "keep"
  | .supersede => text "supersede"
  | .archive => text "archive"

def ResolutionMessage.render (pairId : JsString) : ResolutionMessage → JsString
  | .pairNotFound => text "Pair " ++ pairId ++ text " not found"
  | .alreadyResolved verb => text "Pair already resolved with verb \"" ++ ResolutionVerb.name verb ++ text "\""
  | .notValid verb => text "Verb \"" ++ ResolutionVerb.name verb ++ text "\" is not valid"
  | .keptNotFound id => text "Kept memory " ++ id ++ text " not found; not resolving " ++ pairId
  | .keptInactive id status => text "Kept memory " ++ id ++ text " is " ++ status.name ++ text "; not resolving " ++ pairId
  | .kept id loser => text "Kept " ++ id ++ text ", superseded " ++ loser
  | .supersedeFailedRestored id =>
    text "Supersede failed for " ++ id ++ text "; restored " ++ id ++ text " and did not resolve"
  | .supersedeFailedIncomplete id => text "Supersede failed for " ++ id ++ text "; rollback incomplete for " ++ id ++
      text " and pair is not resolved"
  | .mergeSourcesMissing => text "Merge requires both source memories to exist; not resolving " ++ pairId
  | .replacementNotDistinct => text "Merge replacement must be distinct from both source memories; not resolving"
  | .replacementNotFound id => text "Merged memory " ++ id ++ text " not found; not resolving"
  | .replacementInactive id status => text "Merged memory " ++ id ++ text " is " ++ status.name ++ text "; not resolving"
  | .mergeNeedsContent => text "Merge requires mergedMemoryId or mergedContent; no memories changed"
  | .mergedBlocked => text "Merged memory for " ++ pairId ++
      text " was tombstone-blocked (pending_review); not resolving — sources kept active"
  | .mergedNotCreated => text "Merged memory could not be created; not resolving " ++ pairId
  | .mergedNotVerified id => text "Merged memory " ++ id ++ text " could not be verified; not resolving"
  | .mergeFailedRestored id restored => text "Merge failed for " ++ id ++ text "; restored " ++
      (text " and ").intercalate restored ++ text " and did not resolve"
  | .mergeFailedIncomplete id unrestored => text "Merge failed for " ++ id ++ text "; rollback incomplete for " ++
      (text ", ").intercalate unrestored ++ text " and pair is not resolved"
  | .merged id => text "Both memories superseded by merged " ++ id
  | .bothValid => text "Pair marked as both-valid; cooldown applied"
  | .deferred => text "Deferred; no action taken, short cooldown applied"
  | .notPersistedRolledBack =>
    text "Resolution persistence failed; rolled back memory changes and did not resolve " ++ pairId
  | .notPersistedIncomplete => text "Resolution persistence failed; rollback incomplete and pair is not resolved"
  | .notPersisted => text "Resolution persistence failed; pair is not resolved"
  | .drift message => message

def ResolutionMessage.reportsIncompleteRollback : ResolutionMessage → Bool
  | .supersedeFailedIncomplete _ | .mergeFailedIncomplete _ _ | .notPersistedIncomplete => true
  | _ => false

section Storage

def getMemoryById (fate : Fate) (memories : Memories) (id : JsString) : Except JsString (Option MemoryFile) :=
  match fate with
  | .works => .ok (memories.lookup id)
  | .refuses => .ok none
  | .fails _ => .error (text "read failed")

def supersededMemory (newId time : JsString) (memory : MemoryFile) : MemoryFile :=
  { memory with status := some .superseded, supersededBy := some newId, supersededAt := some time }

/-- What a call does whose work is a change of the memories. -/
def attempt (fate : Fate) (work : Memories) (memories : Memories) : Memories × Except JsString Bool :=
  match fate with
  | .works => (work, .ok true)
  | .refuses => (memories, .ok false)
  | .fails landed => (if landed then work else memories, .error (text "write failed"))

/-- It refuses a memory that something has superseded already. -/
def supersedeMemory (fate : Fate) (oldId newId time : JsString) (memories : Memories) : Memories × Except JsString Bool :=
  match memories.lookup oldId with
  | none => (memories, .ok false)
  | some memory =>
    if memory.supersededBy.isSome then (memories, .ok false)
    else attempt fate (memories.set oldId (supersededMemory newId time memory)) memories

def invalidateMemory (fate : Fate) (id : JsString) (memories : Memories) : Memories × Except JsString Bool :=
  if memories.contains id then attempt fate (memories.erase id) memories else (memories, .ok false)

def mergedMemoryCategory (sourceA sourceB : MemoryFile) : JsString :=
  if sourceA.category = sourceB.category then sourceA.category else text "fact"

def mergedMemory (host : Host) (content : JsString) (category : Option JsString) (sourceA sourceB : MemoryFile) :
    MemoryFile where
  content := content
  category := category.getD (mergedMemoryCategory sourceA sourceB)
  confidence := some (min (sourceA.confidence.getD (4 / 5)) (sourceB.confidence.getD (4 / 5)))
  status := if host.tombstoneBlocked then some .pendingReview else none

end Storage

section Steps

variable (host : Host)

def loadSourceSnapshot (side : Side) (id : JsString) (memories : Memories) : Option MemoryFile :=
  match getMemoryById (host.faults (.snapshot side)) memories id with
  | .ok found => found
  | .error _ => none

def validateKeepTarget (side : Side) (id : JsString) (memories : Memories) : Option ResolutionMessage :=
  match loadSourceSnapshot host side id memories with
  | none => some (.keptNotFound id)
  | some target => if target.effectiveStatus = .active then none else some (.keptInactive id target.effectiveStatus)

def supersedeSafe (side : Side) (oldId newId : JsString) (memories : Memories) : Memories × Bool :=
  match supersedeMemory (host.faults (.supersede side)) oldId newId (host.supersessionTime side) memories with
  | (memories, .ok result) => (memories, result)
  | (memories, .error _) => (memories, false)

/-- The content stays as it is found; the frontmatter becomes the snapshot's. -/
def restoreMemorySnapshot (side : Side) (id : JsString) (snapshot : MemoryFile) (memories : Memories) : Memories × Bool :=
  match getMemoryById (host.faults (.restoreRead side)) memories id with
  | .ok (some current) =>
    match attempt (host.faults (.restoreWrite side)) (memories.set id { snapshot with content := current.content }) memories with
    | (memories, .ok result) => (memories, result)
    | (memories, .error _) => (memories, false)
  | _ => (memories, false)

/-- The hashes of facts, which the cleanup removes too, are no part of the memories. -/
def cleanupMemoryId (id : JsString) (memories : Memories) : Memories :=
  match getMemoryById (host.faults .cleanupRead) memories id with
  | .error _ => memories
  | .ok _ => (invalidateMemory (host.faults .invalidate) id memories).1

inductive MergeReplacement where
  | ready (mergedId : JsString) (sourceA sourceB : MemoryFile) (created : Bool)
  | unready (message : ResolutionMessage)

def cleanupCreatedReplacement (mergedId : JsString) (created : Bool) (memories : Memories) : Memories :=
  if created then cleanupMemoryId host mergedId memories else memories

/-- The merged memory is made and looked up again. -/
def createReplacement (options : ExecuteResolutionOptions) (content : JsString) (sourceA sourceB : MemoryFile)
    (memories : Memories) : Memories × Except JsString MergeReplacement :=
  let mergedId := host.mintId memories
  match attempt (host.faults .create)
      (memories.set mergedId (mergedMemory host content options.mergedCategory sourceA sourceB)) memories with
  | (memories, .ok true) =>
    if host.tombstoneBlocked then (cleanupMemoryId host mergedId memories, .ok (.unready .mergedBlocked))
    else match getMemoryById (host.faults .verify) memories mergedId with
      | .error fault => (memories, .error fault)
      | .ok none => (cleanupMemoryId host mergedId memories, .ok (.unready (.mergedNotVerified mergedId)))
      | .ok (some _) => (memories, .ok (.ready mergedId sourceA sourceB true))
  | (memories, _) => (memories, .ok (.unready .mergedNotCreated))

def prepareMergeReplacement (idA idB : JsString) (options : ExecuteResolutionOptions) (memories : Memories) :
    Memories × Except JsString MergeReplacement :=
  match getMemoryById (host.faults (.snapshot .a)) memories idA, getMemoryById (host.faults (.snapshot .b)) memories idB with
  | .error fault, _ => (memories, .error fault)
  | _, .error fault => (memories, .error fault)
  | .ok (some sourceA), .ok (some sourceB) =>
    let requestedMergedId := trim (options.mergedMemoryId.getD [])
    if requestedMergedId ≠ [] then
      if requestedMergedId = idA ∨ requestedMergedId = idB then (memories, .ok (.unready .replacementNotDistinct))
      else match getMemoryById (host.faults .replacement) memories requestedMergedId with
        | .error fault => (memories, .error fault)
        | .ok none => (memories, .ok (.unready (.replacementNotFound requestedMergedId)))
        | .ok (some replacement) =>
          if replacement.effectiveStatus = .active then
            (memories, .ok (.ready requestedMergedId sourceA sourceB false))
          else (memories, .ok (.unready (.replacementInactive requestedMergedId replacement.effectiveStatus)))
    else if trim (options.mergedContent.getD []) = [] then (memories, .ok (.unready .mergeNeedsContent))
    else createReplacement host options (options.mergedContent.getD []) sourceA sourceB memories
  | _, _ => (memories, .ok (.unready .mergeSourcesMissing))

end Steps

inductive Undo where
  | nothing
  | keep (loser : Side) (id : JsString) (snapshot : MemoryFile)
  | merge (mergedId : JsString) (sourceA sourceB : MemoryFile) (created : Bool)

inductive Mutation where
  | failed (message : ResolutionMessage)
  | done (affectedIds : List JsString) (message : ResolutionMessage) (undo : Undo)

section Verbs

variable (host : Host)

def keep (side : Side) (keptId loserId : JsString) (memories : Memories) : Memories × Mutation :=
  match validateKeepTarget host side keptId memories with
  | some message => (memories, .failed message)
  | none => match loadSourceSnapshot host side.other loserId memories with
    | none => (memories, .failed (.supersedeFailedIncomplete loserId))
    | some source => match supersedeSafe host side.other loserId keptId memories with
      | (memories, true) => (memories, .done [loserId] (.kept keptId loserId) (.keep side.other loserId source))
      | (memories, false) => match restoreMemorySnapshot host side.other loserId source memories with
        | (memories, true) => (memories, .failed (.supersedeFailedRestored loserId))
        | (memories, false) => (memories, .failed (.supersedeFailedIncomplete loserId))

def mergeInto (idA idB mergedId : JsString) (sourceA sourceB : MemoryFile) (created : Bool) (memories : Memories) :
    Memories × Mutation :=
  match supersedeSafe host .a idA mergedId memories with
  | (memories, false) => match restoreMemorySnapshot host .a idA sourceA memories with
    | (memories, true) => (cleanupCreatedReplacement host mergedId created memories, .failed (.mergeFailedRestored idA [idA]))
    | (memories, false) => (memories, .failed (.mergeFailedIncomplete idA [idA]))
  | (memories, true) => match supersedeSafe host .b idB mergedId memories with
    | (memories, true) =>
      (memories, .done [idA, idB] (.merged mergedId) (.merge mergedId sourceA sourceB created))
    | (memories, false) =>
      let (memories, rolledBackA) := restoreMemorySnapshot host .a idA sourceA memories
      let (memories, rolledBackB) := restoreMemorySnapshot host .b idB sourceB memories
      if rolledBackA && rolledBackB then
        (cleanupCreatedReplacement host mergedId created memories, .failed (.mergeFailedRestored idB [idA, idB]))
      else (memories, .failed (.mergeFailedIncomplete idB
        ((if rolledBackA then [] else [idA]) ++ if rolledBackB then [] else [idB])))

def merge (idA idB : JsString) (options : ExecuteResolutionOptions) (memories : Memories) :
    Memories × Except JsString Mutation :=
  match prepareMergeReplacement host idA idB options memories with
  | (memories, .error fault) => (memories, .error fault)
  | (memories, .ok (.unready message)) => (memories, .ok (.failed message))
  | (memories, .ok (.ready mergedId sourceA sourceB created)) =>
    let (memories, mutation) := mergeInto host idA idB mergedId sourceA sourceB created memories
    (memories, .ok mutation)

/-- `rollbackAfterResolveFailure`. -/
def rollback (idA idB : JsString) (undo : Undo) (memories : Memories) : Memories × Bool :=
  match undo with
  | .nothing => (memories, true)
  | .keep loser id snapshot => restoreMemorySnapshot host loser id snapshot memories
  | .merge mergedId sourceA sourceB created =>
    let (memories, rolledBackA) := restoreMemorySnapshot host .a idA sourceA memories
    let (memories, rolledBackB) := restoreMemorySnapshot host .b idB sourceB memories
    if rolledBackA && rolledBackB then (cleanupCreatedReplacement host mergedId created memories, true)
    else (memories, false)

/-- The memories and the review queue when a resolution is over. -/
structure Settlement where
  memories : Memories
  dir : ReviewDir
  result : Except JsString ResolutionResult

/-- `resolvePair`, on the queue as it is by then. -/
def persistAnswer (pairId : JsString) (verb : ResolutionVerb) (dir : ReviewDir) : ReviewDir × Bool :=
  if host.pairUnreadable then (dir, false)
  else match resolvePair host.moment pairId verb dir with
    | (dir, .ok (some _)) => (dir, true)
    | (dir, _) => (dir, false)

def concludeResolution (pairId : JsString) (verb : ResolutionVerb) (idA idB : JsString) (dir : ReviewDir) :
    Memories × Mutation → Settlement
  | (memories, .failed message) => ⟨memories, dir, .ok ⟨pairId, verb, [], message⟩⟩
  | (memories, .done affectedIds message undo) => match persistAnswer host pairId verb dir with
    | (dir, true) => ⟨memories, dir, .ok ⟨pairId, verb, affectedIds, message⟩⟩
    | (dir, false) => match undo with
      | .nothing => ⟨memories, dir, .ok ⟨pairId, verb, affectedIds, .notPersisted⟩⟩
      | undo => match rollback host idA idB undo memories with
        | (memories, true) => ⟨memories, dir, .ok ⟨pairId, verb, [], .notPersistedRolledBack⟩⟩
        | (memories, false) => ⟨memories, dir, .ok ⟨pairId, verb, [], .notPersistedIncomplete⟩⟩

def laterDir (dir : ReviewDir) : ReviewDir := run host.env host.meanwhile dir

/-- The verbs of a contradiction pair, on its memories; `dir` is the later queue. -/
def resolveContradiction (pairId : JsString) (pair : ContradictionPair) (verb : ResolutionVerb)
    (options : ExecuteResolutionOptions) (memories : Memories) (dir : ReviewDir) : Settlement :=
  let idA := pair.memoryIds.1
  let idB := pair.memoryIds.2
  match verb with
  | .keepA => concludeResolution host pairId verb idA idB dir (keep host .a idA idB memories)
  | .keepB => concludeResolution host pairId verb idA idB dir (keep host .b idB idA memories)
  | .merge => match merge host idA idB options memories with
    | (memories, .error fault) => ⟨memories, dir, .error fault⟩
    | (memories, .ok mutation) => concludeResolution host pairId verb idA idB dir (memories, mutation)
  | .needsMoreContext => concludeResolution host pairId verb idA idB dir (memories, .done [] .deferred .nothing)
  | _ => concludeResolution host pairId verb idA idB dir (memories, .done [] .bothValid .nothing)

/-- A drift item is answered once a memory has changed. -/
def resolveDrift (pairId : JsString) (pair : ContradictionPair) (verb : ResolutionVerb) (memories : Memories)
    (dir : ReviewDir) : Settlement :=
  let (memories, affectedIds, message) := host.resolvePreferenceDrift pair verb memories
  let result : ResolutionResult := ⟨pairId, verb, affectedIds, .drift message⟩
  if affectedIds = [] ∨ host.pairUnreadable then ⟨memories, dir, .ok result⟩
  else match resolvePair host.moment pairId verb dir with
    | (dir, .ok _) => ⟨memories, dir, .ok result⟩
    | (dir, .error fault) => ⟨memories, dir, .error fault⟩

def contradictionVerbs : List ResolutionVerb := [.keepA, .keepB, .merge, .bothValid, .needsMoreContext]

def preferenceDriftVerbs : List ResolutionVerb := [.keep, .supersede, .archive]

/-- The answer to an item that is resolved, or to a verb that is none of its kind's. -/
def refusal (pair : ContradictionPair) (verb : ResolutionVerb) : Option ResolutionMessage :=
  match pair.resolution.filter fun answer => answer ≠ .needsMoreContext with
  | some answer => some (.alreadyResolved answer)
  | none =>
    if verb ∈ (if pair.kind = some .preferenceDrift then preferenceDriftVerbs else contradictionVerbs) then none
    else some (.notValid verb)

def storageReady (pair : ContradictionPair) (options : ExecuteResolutionOptions) : Bool :=
  match options.storageForNamespace with
  | none => pair.namespaceName.getD [] = []
  | some fate => fate = .works

def executeResolution (pairId : JsString) (verb : ResolutionVerb) (options : ExecuteResolutionOptions)
    (memories : Memories) (dir : ReviewDir) : Settlement :=
  let later := laterDir host dir
  match readPair dir pairId with
  | .error fault => ⟨memories, later, .error fault⟩
  | .ok none => ⟨memories, later, .ok ⟨pairId, verb, [], .pairNotFound⟩⟩
  | .ok (some pair) =>
    if !storageReady pair options then ⟨memories, later, .error (text "no storage for the pair's namespace")⟩
    else match refusal pair verb with
      | some message => ⟨memories, later, .ok ⟨pairId, verb, [], message⟩⟩
      | none =>
        if pair.kind = some .preferenceDrift then resolveDrift host pairId pair verb memories later
        else resolveContradiction host pairId pair verb options memories later

end Verbs

end Remnic.Contradiction.Resolution
