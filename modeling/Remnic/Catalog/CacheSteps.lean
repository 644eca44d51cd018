import Remnic.Catalog.Operations

/-!
The catalog operations of one process, one file operation at a time, among the appends and
rewrites of other processes. A call takes its turn when the one before has ended; the
catalog lock keeps the other writers out.
-/

namespace Remnic.Catalog.CacheSteps

open Text.CodeUnits Text.IsoDate Library Record Log Operations

structure CatalogFileIdentity where
  size : Nat
  mtimeMs : Nat
  ctimeMs : Nat
  ino : Nat
  deriving DecidableEq, Repr

structure LogFile where
  content : JsString
  identity : CatalogFileIdentity
  deriving DecidableEq

structure CompactedCatalogCache where
  identity : CatalogFileIdentity
  records : Records
  incomplete : Option JsString
  deriving DecidableEq

/-- What `loadCompacted` returns: the records and the health report. -/
structure Loaded where
  records : Records
  incomplete : Option JsString
  malformed : Bool
  deriving DecidableEq

inductive Purpose where
  | read
  | touch (accepted : Accepted)
  | compact (size : Nat)
  | repair
  | scan (rebuild : Rebuild) (nowIso : JsString) (mutates : Bool)
  | finish (rebuild : Rebuild) (rebuilt : Records)

/-- What the process does next. A handle whose file has been replaced keeps the content the file had then. -/
inductive Stage where
  | idle
  | opening (purpose : Purpose)
  | parsing (purpose : Purpose) (opened : Option CatalogFileIdentity) (replaced : Option JsString)
  | loaded (purpose : Purpose) (result : Loaded)
  | waiting (rebuild : Rebuild) (rebuilt : Records)
  | appending (record : NamespaceRecord)
  | appended (record : NamespaceRecord)
  | checking
  | rewriting (records : List NamespaceRecord) (compacted : Option Nat)
  | rewritten (records : List NamespaceRecord) (compacted : Option Nat)

def Purpose.locked : Purpose → Bool
  | .read | .scan _ _ _ => false
  | _ => true

def Stage.locked : Stage → Bool
  | .idle | .waiting _ _ => false
  | .opening purpose | .parsing purpose _ _ | .loaded purpose _ => purpose.locked
  | _ => true

def Purpose.forceFresh : Purpose → Bool
  | .repair | .finish _ _ => true
  | _ => false

/-- The log, the cache of the process and its turn. Beside these: every identity the log has had, and the loads that were
answered from the cache or left it, each with the content of the log at that moment. -/
structure World where
  file : Option LogFile
  used : List CatalogFileIdentity
  compactedCache : Option CompactedCatalogCache
  lastCompactedSize : Nat
  stage : Stage
  answers : List (Loaded × JsString)

inductive Operation where
  | read
  | touch (touch : Touch)
  | repair
  | rebuild (rebuild : Rebuild) (dryRun : Bool)

/-- How a file operation ends: it works, and a write leaves the log with an identity; the file is opened, but its identity
cannot be read; or it fails, and an append may leave a part of its text. -/
inductive Outcome where
  | works (identity : CatalogFileIdentity)
  | unidentified
  | fails (torn : Option (JsString × CatalogFileIdentity))
  deriving DecidableEq

inductive Action where
  | start (operation : Operation)
  | proceed (outcome : Outcome)
  | otherAppends (appendix : JsString) (identity : CatalogFileIdentity)
  | otherRewrites (content : JsString) (identity : CatalogFileIdentity)

def initial (file : Option LogFile) : World where
  file := file
  used := file.toList.map LogFile.identity
  compactedCache := none
  lastCompactedSize := 0
  stage := .idle
  answers := []

def freshRead (host : Host) (content : JsString) : Loaded :=
  let compacted := foldLog host content
  ⟨compacted.records, compacted.incomplete, compacted.incomplete.isSome⟩

def CompactedCatalogCache.read (cache : CompactedCatalogCache) : Loaded :=
  ⟨cache.records, cache.incomplete, cache.incomplete.isSome⟩

def nothingRead : Loaded := ⟨OrderedMap.empty, none, false⟩

def unreadable : Loaded := ⟨OrderedMap.empty, some (text "catalog unreadable"), false⟩

def World.content (world : World) : JsString := (world.file.map LogFile.content).getD []

def World.write (world : World) (content : JsString) (identity : CatalogFileIdentity) : World :=
  { world with file := some ⟨content, identity⟩, used := identity :: world.used }

/-- What `refreshCacheAfterAppend` makes of the cache: the identity of the log after the append, and one more record. -/
def refreshCacheAfterAppend (host : Host) (cache : CompactedCatalogCache) (identity : CatalogFileIdentity)
    (record : NamespaceRecord) : Option CompactedCatalogCache :=
  if identity.size ≠ cache.identity.size + byteLength (serializeRecord record ++ [newline]) ∨
    identity.ino ≠ cache.identity.ino then none
  else some ⟨identity, foldRecord host cache.records record, none⟩

/-- Whether `maybeAutoCompact` compacts, and from which size. -/
def compactionSize (settings : Settings) (world : World) : Option Nat :=
  match world.compactedCache with
  | none => none
  | some cache =>
    if settings.compactBytesLimit = 0 ∨ cache.identity.size ≤ settings.compactBytesLimit then none
    else if 0 < world.lastCompactedSize ∧
      cache.identity.size < world.lastCompactedSize + settings.compactBytesLimit then none
    else some cache.identity.size

def World.uncached (world : World) (purpose : Purpose) (result : Loaded) : World :=
  { world with compactedCache := none, stage := .loaded purpose result }

def openLog (world : World) (purpose : Purpose) : Outcome → World
  | .fails _ => world.uncached purpose unreadable
  | .unidentified =>
    match world.file with
    | none => world.uncached purpose nothingRead
    | some _ => { world with stage := .parsing purpose none none }
  | .works _ =>
    match world.file with
    | none => world.uncached purpose nothingRead
    | some file =>
      match world.compactedCache with
      | some cache =>
        if purpose.forceFresh = false ∧ cache.identity = file.identity then
          { world with
            stage := .loaded purpose cache.read
            answers := world.answers ++ [(cache.read, file.content)] }
        else { world with stage := .parsing purpose (some file.identity) none }
      | none => { world with stage := .parsing purpose (some file.identity) none }

/-- The log is parsed to its end, and the cache keeps what was parsed. -/
def parseLog (host : Host) (world : World) (purpose : Purpose) (opened : Option CatalogFileIdentity)
    (replaced : Option JsString) : Outcome → World
  | .fails _ => world.uncached purpose unreadable
  | _ =>
    let content := replaced.getD world.content
    let result := freshRead host content
    { world with
      compactedCache := opened.map fun identity => ⟨identity, result.records, result.incomplete⟩
      stage := .loaded purpose result
      answers := if opened.isSome then world.answers ++ [(result, content)] else world.answers }

def useLoaded (settings : Settings) (result : Loaded) : Purpose → Stage
  | .read => .idle
  | .touch accepted => .appending (touchRecord settings (result.records.lookup accepted.name) accepted)
  | .compact size => .rewriting (values result.records) (some size)
  | .repair =>
    if result.malformed = true ∧ result.records.entries ≠ [] then .rewriting (values result.records) none else .idle
  | .scan rebuild nowIso mutates =>
    if mutates then .waiting rebuild (rebuiltRecords settings result.records nowIso rebuild.roots) else .idle
  | .finish rebuild rebuilt => .rewriting (finishRebuild settings rebuild.live rebuilt result.records) none

/-- `refreshCacheIdentity` after a rewrite, and what a compaction remembers of it. -/
def refreshRewritten (world : World) (records : List NamespaceRecord) (compacted : Option Nat) (outcome : Outcome) : World :=
  let cache : Option CompactedCatalogCache :=
    match outcome with
    | .works _ => world.file.map fun file => ⟨file.identity, recordsOf records, none⟩
    | _ => none
  { world with
    compactedCache := cache
    lastCompactedSize :=
      match compacted with
      | none => world.lastCompactedSize
      | some size => (cache.map fun refreshed => refreshed.identity.size).getD size
    stage := .idle }

def proceed (settings : Settings) (world : World) (outcome : Outcome) : Option World :=
  match world.stage with
  | .idle => none
  | .opening purpose => some (openLog world purpose outcome)
  | .parsing purpose opened replaced => some (parseLog settings.host world purpose opened replaced outcome)
  | .loaded purpose result => some { world with stage := useLoaded settings result purpose }
  | .waiting rebuild rebuilt =>
    match outcome with
    | .works _ => some { world with stage := .opening (.finish rebuild rebuilt) }
    | _ => some { world with stage := .idle }
  | .appending record =>
    match outcome with
    | .works identity =>
      some { world.write (world.content ++ (serializeRecord record ++ [newline])) identity with stage := .appended record }
    | .unidentified => none
    | .fails none => some { world with stage := .idle }
    | .fails (some (torn, identity)) => some { world.write (world.content ++ torn) identity with stage := .idle }
  | .appended record =>
    match world.compactedCache, world.file, outcome with
    | some cache, some file, .works _ =>
      some { world with
        compactedCache := refreshCacheAfterAppend settings.host cache file.identity record
        stage := .checking }
    | _, _, _ => some { world with compactedCache := none, stage := .checking }
  | .checking =>
    match compactionSize settings world with
    | some size => some { world with stage := .opening (.compact size) }
    | none => some { world with stage := .idle }
  | .rewriting records compacted =>
    match outcome with
    | .works identity => some { world.write (rewriteBody records) identity with stage := .rewritten records compacted }
    | _ => some { world with stage := .idle }
  | .rewritten records compacted => some (refreshRewritten world records compacted outcome)

def start (settings : Settings) (world : World) : Operation → Option World
  | .read => some { world with stage := .opening .read }
  | .touch touch => (accept settings touch).map fun accepted => { world with stage := .opening (.touch accepted) }
  | .repair => some { world with stage := .opening .repair }
  | .rebuild rebuild dryRun =>
    (toISOString rebuild.time).map fun nowIso => { world with stage := .opening (.scan rebuild nowIso (!dryRun)) }

/-- Another process replaces the log; a handle that is open keeps the old content. -/
def Stage.replaceFile (content : JsString) : Stage → Stage
  | .parsing purpose opened none => .parsing purpose opened (some content)
  | stage => stage

def step (settings : Settings) (world : World) : Action → Option World
  | .start operation =>
    match world.stage with
    | .idle => start settings world operation
    | _ => none
  | .proceed outcome => proceed settings world outcome
  | .otherAppends appendix identity =>
    if world.stage.locked then none else some (world.write (world.content ++ appendix) identity)
  | .otherRewrites content identity =>
    if world.stage.locked then none
    else some { world.write content identity with stage := world.stage.replaceFile world.content }

end Remnic.Catalog.CacheSteps
