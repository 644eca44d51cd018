import Remnic.Wearables.SyncState

/-!
Runs of `syncWearableSource` over one transcript store and one ledger, one asynchronous step
at a time. A run loads the ledger when it starts and saves it when it ends; it may stop at
any point in between.
-/

namespace Remnic.Wearables.Sync

open Text.CodeUnits Library SyncState

inductive MemoryMode where
  | off | review | auto | smart
  deriving DecidableEq, Repr

/-- The settings of the source, the options of the call, and whether an extraction engine is there. -/
structure Settings where
  memoryMode : MemoryMode
  forceMemories : Bool
  memoryGen : Bool
  deriving DecidableEq

/-- What fetching and cleaning a day gives. An elided day had conversations, and cleaning left none. -/
inductive Fetched where
  | nothing
  | elided
  | transcript (body : JsString)

structure Host where
  hashTranscriptBody : JsString → JsString

structure DayTranscript where
  contentHash : JsString
  syncedAt : JsString
  body : JsString
  deriving DecidableEq

inductive Stage where
  | fetching
  | comparing (date body : JsString) (allElided : Bool)
  | writing (date body : JsString) (allElided : Bool)
  | remembering (date body : JsString)
  | passing (date body : JsString) (began : Nat)
  deriving DecidableEq

/-- A run and its local state. Beside it: when it loaded the ledger, and when the pass began that completed a day. -/
structure Run where
  sourceId : JsString
  settings : Settings
  now : JsString
  days : List JsString
  dates : List JsString
  stage : Stage
  syncState : Sources
  dayHashes : DayHashes
  memoryDayHashes : DayHashes
  failedMemoryDays : List JsString
  transcriptsWritten : List JsString
  loadedAt : Nat
  began : JsString → Option Nat

structure Write where
  source : JsString
  day : JsString
  time : Nat
  deriving DecidableEq

structure Pass where
  source : JsString
  day : JsString
  body : JsString
  began : Nat
  deriving DecidableEq

/-- A run that saved or stopped, with the days whose transcripts it wrote. -/
structure Ending where
  source : JsString
  days : List JsString
  time : Nat
  deriving DecidableEq

/-- The ledger, the transcripts and the runs in progress. Beside these: a clock, and what was written, passed and ended. -/
structure World where
  clock : Nat
  ledger : Sources
  transcripts : JsString → JsString → Option DayTranscript
  runs : OrderedMap Nat Run
  writes : List Write
  passes : List Pass
  endings : List Ending

inductive Action where
  | start (process : Nat) (sourceId : JsString) (settings : Settings) (now : JsString) (days : List JsString)
  | fetch (process : Nat) (fetched : Fetched)
  | compare (process : Nat)
  | write (process : Nat)
  | begin (process : Nat)
  | remember (process : Nat) (passClean : Bool)
  | finish (process : Nat) (importedNativeIds : List JsString)
  | stop (process : Nat)

def initial : World := ⟨0, OrderedMap.empty, fun _ _ => none, OrderedMap.empty, [], [], []⟩

/-- The replacement body of a day whose every segment was elided. -/
def emptyDayBody (sourceId date : JsString) : JsString :=
  text "# " ++ sourceId ++ text " transcript — " ++ date ++
    text "\n\n_No storable conversation content for this day (all segments were elided or dropped)._\n"

def Run.start (world : World) (sourceId : JsString) (settings : Settings) (now : JsString) (days : List JsString) : Run where
  sourceId := sourceId
  settings := settings
  now := now
  days := days
  dates := days
  stage := .fetching
  syncState := world.ledger
  dayHashes := OrderedMap.empty
  memoryDayHashes := OrderedMap.empty
  failedMemoryDays := []
  transcriptsWritten := []
  loadedAt := world.clock
  began := fun _ => none

/-- The next day. Nothing is stored when the provider has nothing. -/
def Run.fetch (run : Run) (date : JsString) (dates : List JsString) : Fetched → Run
  | .nothing => { run with dates := dates }
  | .elided => { run with dates := dates, stage := .comparing date (emptyDayBody run.sourceId date) true }
  | .transcript body => { run with dates := dates, stage := .comparing date body false }

/-- The day is stored: whether its memory pass runs, is carried forward from the ledger, or neither. -/
def Run.stored (host : Host) (run : Run) (date body : JsString) (allElided changed : Bool) : Run :=
  let bodyHash := host.hashTranscriptBody body
  let run := { run with dayHashes := run.dayHashes.set date bodyHash, stage := .fetching }
  let memoryPassComplete := completion run.syncState run.sourceId date = some bodyHash
  if allElided then run
  else if run.settings.memoryMode ≠ .off ∧ (changed ∨ run.settings.forceMemories ∨ ¬ memoryPassComplete) then
    if run.settings.memoryGen then { run with stage := .remembering date body } else run
  else if run.settings.memoryMode ≠ .off ∧ memoryPassComplete then
    { run with
      memoryDayHashes := run.memoryDayHashes.set date bodyHash
      began := Function.update run.began date none }
  else run

def Run.remember (host : Host) (run : Run) (date body : JsString) (began : Nat) (passClean : Bool) : Run :=
  if passClean then
    { run with
      stage := .fetching
      memoryDayHashes := run.memoryDayHashes.set date (host.hashTranscriptBody body)
      began := Function.update run.began date (some began) }
  else { run with stage := .fetching, failedMemoryDays := run.failedMemoryDays ++ [date] }

/-- The ledger a run saves: its own results over the ledger it loaded, and the other sources' completions of the days it
wrote cleared. -/
def Run.saved (run : Run) (importedNativeIds : List JsString) : Sources :=
  clearOthers
    (updateSourceSyncState run.syncState run.sourceId
      { syncedAt := run.now
        days := run.days
        dayHashes := run.dayHashes
        memoryDayHashes := run.memoryDayHashes
        clearMemoryDays := run.failedMemoryDays
        importedNativeMemoryIds := importedNativeIds })
    run.sourceId run.transcriptsWritten

def World.advance (world : World) (process : Nat) (run : Run) : World :=
  { world with clock := world.clock + 1, runs := world.runs.set process run }

def World.finished (world : World) (process : Nat) (run : Run) (ledger : Sources) : World :=
  { world with
    clock := world.clock + 1
    ledger := ledger
    runs := world.runs.erase process
    endings := ⟨run.sourceId, run.transcriptsWritten, world.clock⟩ :: world.endings }

/-- `readDayContentHash`. -/
def World.contentHash (world : World) (source day : JsString) : Option JsString :=
  (world.transcripts source day).map DayTranscript.contentHash

/-- The comparison with the stored file. An elided day replaces a file, and makes none. -/
def World.compare (host : Host) (world : World) (process : Nat) (run : Run) (date body : JsString) (allElided : Bool) : World :=
  let existingHash := world.contentHash run.sourceId date
  let changed := decide (existingHash ≠ some (host.hashTranscriptBody body))
  if changed ∧ (¬ allElided ∨ existingHash ≠ none) then
    world.advance process { run with stage := .writing date body allElided }
  else world.advance process (run.stored host date body allElided changed)

def World.write (host : Host) (world : World) (process : Nat) (run : Run) (date body : JsString) (allElided : Bool) : World :=
  let file : DayTranscript := ⟨host.hashTranscriptBody body, run.now, body⟩
  let run := { run with transcriptsWritten := run.transcriptsWritten ++ [date] }
  { world.advance process (run.stored host date body allElided true) with
    transcripts := fun source day => if source = run.sourceId ∧ day = date then some file else world.transcripts source day
    writes := ⟨run.sourceId, date, world.clock⟩ :: world.writes }

def World.remember (host : Host) (world : World) (process : Nat) (run : Run) (date body : JsString) (began : Nat)
    (passClean : Bool) : World :=
  { world.advance process (run.remember host date body began passClean) with
    passes := if passClean then ⟨run.sourceId, date, body, began⟩ :: world.passes else world.passes }

/-- One step. `stop` is a crash, or anything that throws out of the run: the provider, a read or a write of a file. -/
def step (host : Host) (world : World) : Action → Option World
  | .start process sourceId settings now days =>
      if world.runs.contains process then none
      else some (world.advance process (Run.start world sourceId settings now days))
  | .fetch process fetched => do
      let run ← world.runs.lookup process
      match run.stage, run.dates with
      | .fetching, date :: dates => some (world.advance process (run.fetch date dates fetched))
      | _, _ => none
  | .compare process => do
      let run ← world.runs.lookup process
      match run.stage with
      | .comparing date body allElided => some (world.compare host process run date body allElided)
      | _ => none
  | .write process => do
      let run ← world.runs.lookup process
      match run.stage with
      | .writing date body allElided => some (world.write host process run date body allElided)
      | _ => none
  | .begin process => do
      let run ← world.runs.lookup process
      match run.stage with
      | .remembering date body => some (world.advance process { run with stage := .passing date body world.clock })
      | _ => none
  | .remember process passClean => do
      let run ← world.runs.lookup process
      match run.stage with
      | .passing date body began => some (world.remember host process run date body began passClean)
      | _ => none
  | .finish process importedNativeIds => do
      let run ← world.runs.lookup process
      match run.stage, run.dates with
      | .fetching, [] => some (world.finished process run (run.saved importedNativeIds))
      | _, _ => none
  | .stop process => do
      let run ← world.runs.lookup process
      some (world.finished process run world.ledger)

end Remnic.Wearables.Sync
