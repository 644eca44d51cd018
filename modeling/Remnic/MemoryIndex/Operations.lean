import Remnic.MemoryIndex.Index

/-!
The operations on both indexes. Each edits the date index first; where the edit of the tag
index throws, the tag index stays as it was.
-/

namespace Remnic.MemoryIndex.Operations

open Text.CodeUnits Library Tags Index

structure Call where
  entry : TemporalIndexEntry
  today : Day
  deriving DecidableEq

def Call.dateKey (call : Call) : JsString := isoDateFromTimestamp call.today call.entry.createdAt

/-- The tag index comes from the cache as it was written, or is parsed and normalized; what cannot be normalized counts as
empty, and throws in the synchronous functions. -/
inductive Loading where
  | cached
  | parsed
  | compatibility
  deriving DecidableEq

/-- The two files. Beside these: each indexed path, with the call that indexed it last. -/
structure World where
  temporalFile : Option TemporalIndex
  tagFile : Option TagIndex
  live : JsString → Option Call

def initial : World := ⟨none, none, fun _ => none⟩

def World.temporal (world : World) : TemporalIndex := world.temporalFile.getD TemporalIndex.empty

def World.tags (world : World) : TagIndex := world.tagFile.getD TagIndex.empty

variable (host : Host)

def loadTags (loading : Loading) (file : Option TagIndex) : Option TagIndex :=
  match file, loading with
  | none, _ => some TagIndex.empty
  | some index, .cached => some index
  | some index, .parsed => some ((normalizeTagIndex host.tables index).getD TagIndex.empty)
  | some index, .compatibility => normalizeTagIndex host.tables index

def indexDates (index : TemporalIndex) (call : Call) : Option TemporalIndex :=
  (addPathToSet (removePathFromAllSets index.dates call.entry.path) call.dateKey call.entry.path).map fun dates =>
    { dates, events := setEvent index.events call.entry.path (temporalEventFromEntry host call.entry) }

def deindexDates (index : TemporalIndex) (call : Call) : Option TemporalIndex :=
  (removePathFromSet index.dates call.dateKey call.entry.path).map fun dates =>
    { dates, events := index.events.erase call.entry.path }

def indexTags (index : TagIndex) (call : Call) : Option TagIndex :=
  (call.entry.tags.filter (· ≠ [])).foldlM (fun index tag => addTagGraphEntry host.tables index tag call.entry.path)
    (removePathFromAllTagEntries host.tables index call.entry.path)

def deindexTags (index : TagIndex) (call : Call) : Option TagIndex :=
  (call.entry.tags.filter (· ≠ [])).foldlM (fun index tag => removeTagGraphEntry host.tables index tag call.entry.path) index

/-- `updateTemporalIndex`, and `updateTagIndex` if that succeeds. -/
def mutate (world : World) (loading : Loading) (dates : TemporalIndex → Option TemporalIndex)
    (tags : TagIndex → Option TagIndex) (live : JsString → Option Call) : World :=
  match dates world.temporal with
  | none => { world with live := live }
  | some temporal =>
    match (loadTags host loading world.tagFile).bind tags with
    | none => { world with temporalFile := some temporal, live := live }
    | some index => ⟨some temporal, some index, live⟩

def indexed (live : JsString → Option Call) (call : Call) : JsString → Option Call :=
  Function.update live call.entry.path (some call)

def deindexed (live : JsString → Option Call) (call : Call) : JsString → Option Call :=
  Function.update live call.entry.path none

def indexMemory (world : World) (call : Call) (loading : Loading) : World :=
  mutate host world loading (fun index => indexDates host index call) (fun index => indexTags host index call)
    (indexed world.live call)

def indexMemoriesBatch (world : World) (calls : List Call) (loading : Loading) : World :=
  if calls = [] then world
  else
    mutate host world loading (fun index => calls.foldlM (indexDates host) index)
      (fun index => calls.foldlM (indexTags host) index) (calls.foldl indexed world.live)

def deindexMemory (world : World) (call : Call) (loading : Loading) : World :=
  mutate host world loading (fun index => deindexDates index call) (fun index => deindexTags host index call)
    (deindexed world.live call)

def deindexMemoriesBatch (world : World) (calls : List Call) (loading : Loading) : World :=
  if calls = [] then world
  else
    mutate host world loading (fun index => calls.foldlM deindexDates index)
      (fun index => calls.foldlM (deindexTags host) index) (calls.foldl deindexed world.live)

def clearIndexes (world : World) (loading : Loading) : World :=
  mutate host world loading (fun _ => some TemporalIndex.empty) (fun _ => some TagIndex.empty) fun _ => none

inductive Action where
  | indexMemory (call : Call) (loading : Loading)
  | indexMemoriesBatch (calls : List Call) (loading : Loading)
  | deindexMemory (call : Call) (loading : Loading)
  | deindexMemoriesBatch (calls : List Call) (loading : Loading)
  | clearIndexes (loading : Loading)

def step (world : World) : Action → Option World
  | .indexMemory call loading => some (indexMemory host world call loading)
  | .indexMemoriesBatch calls loading => some (indexMemoriesBatch host world calls loading)
  | .deindexMemory call loading => some (deindexMemory host world call loading)
  | .deindexMemoriesBatch calls loading => some (deindexMemoriesBatch host world calls loading)
  | .clearIndexes loading => some (clearIndexes host world loading)

end Remnic.MemoryIndex.Operations
