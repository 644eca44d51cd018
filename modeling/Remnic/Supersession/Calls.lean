import Remnic.Library.Transition
import Remnic.Supersession.Store

/-!
Calls of `applyTemporalSupersession` over shared memory files, one read or write at
a time. The memories a call lists may be those of an earlier time.
-/

namespace Remnic.Supersession.Calls

open Text.CodeUnits Memory.SupersessionKey Decision Store

structure Position where
  scan : Scan
  rest : List MemoryFile
  processedIds : List JsString
  deriving DecidableEq

def Position.skip (position : Position) (rest : List MemoryFile) : Position := { position with rest }

def Position.settle (position : Position) (rest : List MemoryFile) (id : JsString) : Position :=
  { position with rest, processedIds := id :: position.processedIds }

/-- Where a call is in the chunks of a memory it has marked. -/
structure Expiry where
  position : Position
  mutation : TemporalSupersessionMutation
  chunks : List MemoryFile
  processedChunkIds : List JsString
  deriving DecidableEq

inductive Phase where
  | idle
  | readingHot (args : SupersessionArgs) (entityRef : JsString) (attributes : Attributes)
  | readingCold (args : SupersessionArgs) (entityRef : JsString) (attributes : Attributes) (hotMemories : List MemoryFile)
  | scanning (position : Position)
  | marking (position : Position) (fresh : MemoryFile) (mutation : TemporalSupersessionMutation)
  | expiring (expiry : Expiry)
  | expiringChunk (expiry : Expiry) (chunk : MemoryFile)
  | finished
  deriving DecidableEq

/-- The memory files now and at earlier times, and the calls. -/
structure World (Call : Type) where
  store : MemoryStore
  past : List MemoryStore
  phases : Call → Phase

def initial {Call : Type} (store : MemoryStore) : World Call := ⟨store, [store], fun _ => .idle⟩

/-- Each flag says whether the storage answers. -/
inductive Action (Call : Type) where
  | persist (file : MemoryFile)
  | begin (call : Call) (args : SupersessionArgs)
  | readHot (call : Call) (age : Option Nat)
  | readCold (call : Call) (age : Option Nat)
  | next (call : Call) (read : Bool)
  | mark (call : Call) (written : Bool)
  | nextChunk (call : Call) (read : Bool) (recorded : Bool)
  | expire (call : Call) (written : Bool)
  | giveUp (call : Call)

variable {Call : Type} [DecidableEq Call] (host : Host)

def World.at (world : World Call) (call : Call) (phase : Phase) : World Call :=
  { world with phases := Function.update world.phases call phase }

def World.stored (world : World Call) (store : MemoryStore) : World Call :=
  { world with store, past := store :: world.past }

/-- The next candidate: it is judged as it was listed, then read again. -/
def nextCandidate (store : MemoryStore) (position : Position) (read : Bool) : Phase :=
  match position.rest with
  | [] => .finished
  | memory :: rest =>
    match verdict host position.scan position.processedIds memory.frontmatter with
    | .skipped => .scanning (position.skip rest)
    | .unaffected => .scanning (position.settle rest memory.frontmatter.id)
    | .conflicting matchedKeys =>
      match if read then readMemoryByPath store memory.path else none with
      | none => .scanning (position.skip rest)
      | some fresh =>
        if stillOpen fresh.frontmatter then
          .marking (position.settle rest memory.frontmatter.id) fresh (mutationOf host position.scan fresh.frontmatter matchedKeys)
        else .scanning (position.settle rest memory.frontmatter.id)

def chunksOf (candidates : List MemoryFile) (parentId : JsString) : List MemoryFile :=
  candidates.filter (·.frontmatter.parentId = some parentId)

def expiryOf (position : Position) (fresh : MemoryFrontmatter) (mutation : TemporalSupersessionMutation) : Expiry where
  position
  mutation := childMutation mutation fresh
  chunks := chunksOf position.scan.allCandidates fresh.id
  processedChunkIds := []

/-- The next chunk, read again; `recorded` if its timeline has the change already. -/
def nextChunk (store : MemoryStore) (expiry : Expiry) (read recorded : Bool) : Phase :=
  match expiry.chunks with
  | [] => .scanning expiry.position
  | chunk :: chunks =>
    if chunk.frontmatter.id ∈ expiry.processedChunkIds then .expiring { expiry with chunks }
    else if !read then .scanning expiry.position
    else
      match readMemoryByPath store chunk.path with
      | none => .expiring { expiry with chunks }
      | some fresh =>
        let after := { expiry with chunks, processedChunkIds := chunk.frontmatter.id :: expiry.processedChunkIds }
        if expires expiry.position.scan.newMemoryId fresh.frontmatter && !recorded then .expiringChunk after fresh
        else .expiring after

def step (world : World Call) : Action Call → Option (World Call)
  | .persist file =>
    if fresh : file.path ∉ world.store.files.map MemoryFile.path then
      if file.frontmatter.id ∉ world.store.files.map (·.frontmatter.id) ∧ stillOpen file.frontmatter then
        some (world.stored (persist world.store file fresh))
      else none
    else none
  | .begin call args =>
    if world.phases call ≠ .idle then none
    else
      match accepted host args with
      | none => some (world.at call .finished)
      | some (entityRef, attributes) => some (world.at call (.readingHot args entityRef attributes))
  | .readHot call age =>
    match world.phases call with
    | .readingHot args entityRef attributes =>
      match age.bind (world.past[·]?) with
      | none => some (world.at call .finished)
      | some listed => some (world.at call (.readingCold args entityRef attributes listed.hot))
    | _ => none
  | .readCold call age =>
    match world.phases call with
    | .readingCold args entityRef attributes hotMemories =>
      let coldMemories := ((age.bind (world.past[·]?)).map MemoryStore.cold).getD []
      let scan := scanOf args entityRef attributes hotMemories coldMemories
      some (world.at call (.scanning ⟨scan, scan.allCandidates, []⟩))
    | _ => none
  | .next call read =>
    match world.phases call with
    | .scanning position => some (world.at call (nextCandidate host world.store position read))
    | _ => none
  | .mark call written =>
    match world.phases call with
    | .marking position fresh mutation =>
      match
        if written then
          writeMemoryFrontmatterIfUnchanged world.store fresh (temporalMutationPatch position.scan.newMemoryId mutation)
        else none with
      | none => some (world.at call (.scanning position))
      | some store => some ((world.stored store).at call (.expiring (expiryOf position fresh.frontmatter mutation)))
    | _ => none
  | .nextChunk call read recorded =>
    match world.phases call with
    | .expiring expiry => some (world.at call (nextChunk world.store expiry read recorded))
    | _ => none
  | .expire call written =>
    match world.phases call with
    | .expiringChunk expiry chunk =>
      match
        if written then
          writeMemoryFrontmatterIfUnchanged world.store chunk (childPatch expiry.position.scan.newMemoryId expiry.mutation)
        else none with
      | none => some (world.at call (.scanning expiry.position))
      | some store => some ((world.stored store).at call (.expiring expiry))
    | _ => none
  | .giveUp call =>
    match world.phases call with
    | .expiring expiry | .expiringChunk expiry _ => some (world.at call (.scanning expiry.position))
    | _ => none

end Remnic.Supersession.Calls
