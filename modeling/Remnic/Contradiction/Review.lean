import Mathlib.Data.Rat.Floor
import Remnic.Text.IsoDate

/-! The contradiction review queue: one record for each pair of memories and namespace, in a file named by the pair id. -/

namespace Remnic.Contradiction.Review
open Library Text.CodeUnits Text.IsoDate

inductive ResolutionVerb where
  | keepA | keepB | merge | bothValid | needsMoreContext | keep | supersede | archive
deriving DecidableEq

inductive ReviewItemKind where
  | contradiction | preferenceDrift
deriving DecidableEq

inductive ContradictionVerdict where
  | contradicts | independent | duplicates | needsUser
deriving DecidableEq

structure DetectedPair where
  memoryIds : JsString × JsString
  kind : Option ReviewItemKind := none
  verdict : ContradictionVerdict
  rationale : JsString := []
  confidence : ℚ
  detectedAt : JsString
  lastReviewedAt : Option JsString := none
  resolution : Option ResolutionVerb := none
  deferredUntil : Option JsString := none
  memoryContentHashes : Option (OrderedMap JsString JsString) := none
  namespaceName : Option JsString := none

structure ContradictionPair extends DetectedPair where
  pairId : JsString

structure WritePairOptions where
  cooldownDays : Option ℚ := none

structure ReviewEnv where
  sha256 : JsString → JsString
  /-- How the host reads a time that is no ISO text. -/
  readTime : JsString → Option Int
  localeLe : JsString → JsString → Bool

/-- What surrounds one call: the readings of the clock in their order, the order of the directory, and which of its
writes and removals fail. -/
structure Moment where
  clock : Nat → Int
  order : List JsString → List JsString
  writeFails : JsString → Bool
  removeFails : JsString → Bool
  markerWriteFails : Bool
  markersStay : Bool

/-- The review directory: its records by their file's pair id, and the namespaces' migration markers. -/
structure ReviewDir where
  created : Bool
  files : OrderedMap JsString ContradictionPair
  markers : List JsString

def ReviewDir.empty : ReviewDir := ⟨false, OrderedMap.empty, []⟩

variable (env : ReviewEnv)

def dayMs : Int := 24 * 60 * 60 * 1000

def needsMoreContextCooldownMs : Int := dayMs

def computePairId (memoryIdA memoryIdB : JsString) (namespaceName : Option JsString) : JsString :=
  let sorted := if memoryIdB < memoryIdA then [memoryIdB, memoryIdA] else [memoryIdA, memoryIdB]
  let normalizedNamespace := (namespaceName.map trim).getD []
  let scope := if normalizedNamespace = [] then [] else text "ns:" ++ normalizedNamespace ++ text "::"
  (env.sha256 (scope ++ (text "::").intercalate sorted)).take 24

def DetectedPair.id (pair : DetectedPair) : JsString :=
  computePairId env pair.memoryIds.1 pair.memoryIds.2 pair.namespaceName

def isTerminalResolution : Option ResolutionVerb → Bool
  | some .keepA | some .keepB | some .merge | some .keep | some .supersede | some .archive => true
  | _ => false

def preservesDirectResolution (resolution : Option ResolutionVerb) : Bool :=
  isTerminalResolution resolution || resolution = some .bothValid

def isDormantReviewedPair (pair : ContradictionPair) : Bool :=
  pair.verdict = .independent || pair.resolution = some .bothValid

def parseIsoMillis : Option JsString → Option Int
  | none => none
  | some value => if value = [] then none else getTime env.readTime value

def isDeferred (pair : ContradictionPair) : Bool :=
  pair.resolution = some .needsMoreContext || (pair.deferredUntil.getD []) ≠ []

def deferralUntilMillis (pair : ContradictionPair) : Option Int :=
  match parseIsoMillis env pair.deferredUntil with
  | some deferredUntil => some deferredUntil
  | none =>
    if pair.resolution = some .needsMoreContext then
      (parseIsoMillis env pair.lastReviewedAt).map (· + needsMoreContextCooldownMs)
    else none

def isDeferralActive (now : Int) (pair : ContradictionPair) : Bool :=
  (deferralUntilMillis env pair).any fun deferredUntil => now < deferredUntil

def isCoolingDown (now : Int) (pair : ContradictionPair) (cooldownDays : ℚ) : Bool :=
  if cooldownDays ≤ 0 then false
  else match deferralUntilMillis env pair with
    | some deferredUntil => now < deferredUntil
    | none => (parseIsoMillis env pair.lastReviewedAt).any fun lastReviewed =>
        decide ((now : ℚ) < lastReviewed + cooldownDays * dayMs)

def reviewStateRank (deferralNow coolingNow : Int) (cooldownDays : Option ℚ) (pair : ContradictionPair) : Nat :=
  if isTerminalResolution pair.resolution then 5
  else if pair.resolution = some .bothValid then 4
  else if isDeferralActive env deferralNow pair then 3
  else if isDormantReviewedPair pair then
    match cooldownDays with
    | none => 2
    | some days => if isCoolingDown env coolingNow pair days then 2 else 0
  else 1

def isReviewActionable (now : Int) (pair : ContradictionPair) : Bool :=
  !isTerminalResolution pair.resolution && !isDeferralActive env now pair && pair.resolution ≠ some .bothValid &&
    pair.verdict ≠ .independent

def localeEq (first second : JsString) : Bool := env.localeLe first second && env.localeLe second first

/-- `compareReviewPairs` puts the first pair no later than the second. -/
def reviewPairLe (now : Int) (first second : ContradictionPair) : Bool :=
  let firstDetectedAt := parseIsoMillis env (some first.detectedAt)
  let secondDetectedAt := parseIsoMillis env (some second.detectedAt)
  if isReviewActionable env now first ≠ isReviewActionable env now second then isReviewActionable env now first
  else if firstDetectedAt ≠ secondDetectedAt then
    match firstDetectedAt, secondDetectedAt with
    | some earlier, some later => earlier < later
    | some _, none => true
    | none, _ => false
  else if !localeEq env first.pairId second.pairId then env.localeLe first.pairId second.pairId
  else env.localeLe (first.memoryIds.1 ++ [unit 0] ++ first.memoryIds.2) (second.memoryIds.1 ++ [unit 0] ++ second.memoryIds.2)

/-- Whether a time is later than another; no time stands for negative infinity. -/
def laterThan : Option Int → Option Int → Bool
  | some first, some second => second < first
  | some _, none => true
  | none, _ => false

def reviewStateMillis (pair : ContradictionPair) : Option Int :=
  [parseIsoMillis env pair.lastReviewedAt, parseIsoMillis env (some pair.detectedAt)].foldl
    (fun latest time => if laterThan time latest then time else latest) (parseIsoMillis env pair.deferredUntil)

/-- `clock` holds the four readings that the two ranks take. -/
def mergeMigratedPair (clock : Nat → Int) (existing migrated : ContradictionPair) (options : WritePairOptions) :
    ContradictionPair :=
  let existingRank := reviewStateRank env (clock 0) (clock 1) options.cooldownDays existing
  let migratedRank := reviewStateRank env (clock 2) (clock 3) options.cooldownDays migrated
  let selected :=
    if migratedRank > existingRank then migrated
    else if migratedRank < existingRank then existing
    else if laterThan (reviewStateMillis env migrated) (reviewStateMillis env existing) then migrated
    else existing
  { selected with pairId := migrated.pairId, namespaceName := migrated.namespaceName }

def pairPath (pairId : JsString) : Except JsString JsString :=
  if pairId.contains slash || pairId.contains backslash || pairId.tails.any fun rest => startsWith rest (text "..") then
    .error (text "Invalid pairId: " ++ pairId)
  else .ok pairId

def migrationMarkerKey (namespaceName : JsString) : JsString := (env.sha256 namespaceName).take 16

def clearUnscopedMigrationMarkers (moment : Moment) (dir : ReviewDir) : ReviewDir :=
  if moment.markersStay then dir else { dir with markers := [] }

def writePairFile (moment : Moment) (file : JsString) (pair : ContradictionPair) (dir : ReviewDir) :
    Except JsString ReviewDir :=
  if moment.writeFails file then .error (text "write failed") else .ok { dir with files := dir.files.set file pair }

def suppliedMemoryHashesChanged (existing : ContradictionPair) (pair : DetectedPair) : Bool :=
  match existing.memoryContentHashes, pair.memoryContentHashes with
  | some known, some supplied => [pair.memoryIds.1, pair.memoryIds.2].any fun memoryId =>
      (supplied.lookup memoryId).any fun current => known.lookup memoryId ≠ some current
  | _, _ => false

/-- What `writePair` finds out about the record that is there. -/
structure Standing where
  contentChanged : Bool
  existingDeferralExpired : Bool
  deferralActive : Bool
  existingDormantCooldownActive : Bool
  existingDormantExpired : Bool

def standing (clock : Nat → Int) (existing : ContradictionPair) (pair : DetectedPair) (options : WritePairOptions) :
    Standing :=
  let coolingDown := options.cooldownDays.any fun days => isCoolingDown env (clock 2) existing days
  { contentChanged := suppliedMemoryHashesChanged existing pair
    existingDeferralExpired := isDeferred existing && !isDeferralActive env (clock 0) existing
    deferralActive := isDeferralActive env (clock 1) existing
    existingDormantCooldownActive := isDormantReviewedPair existing && coolingDown
    existingDormantExpired := isDormantReviewedPair existing && options.cooldownDays.isSome && !coolingDown }

/-- The record that is there is returned as it is. -/
def preservesExisting (clock : Nat → Int) (existing : ContradictionPair) (pair : DetectedPair)
    (options : WritePairOptions) : Bool :=
  let state := standing env clock existing pair options
  isTerminalResolution existing.resolution ||
  (existing.resolution = some .bothValid && options.cooldownDays.isNone && !state.contentChanged) ||
  (state.deferralActive && !state.contentChanged) ||
  (!state.existingDeferralExpired &&
    ((state.existingDormantCooldownActive && !state.contentChanged) ||
      (!state.existingDormantExpired && !state.contentChanged && decide (existing.confidence ≥ pair.confidence))))

def refreshed (clock : Nat → Int) (existing : Option ContradictionPair) (pair : DetectedPair)
    (options : WritePairOptions) (pairId : JsString) : ContradictionPair :=
  let fresh := existing.any fun there =>
    let state := standing env clock there pair options
    state.existingDeferralExpired || state.existingDormantExpired || state.contentChanged
  { pair with
    pairId := pairId
    lastReviewedAt := if fresh then pair.lastReviewedAt
      else ((existing.bind fun there => there.lastReviewedAt) <|> pair.lastReviewedAt)
    resolution := none
    deferredUntil := if fresh then none else existing.bind fun there => there.deferredUntil }

def readPair (dir : ReviewDir) (pairId : JsString) : Except JsString (Option ContradictionPair) := do
  let file ← pairPath pairId
  return dir.files.lookup file

def writePair (moment : Moment) (clock : Nat → Int) (pair : DetectedPair) (options : WritePairOptions) (dir : ReviewDir) :
    ReviewDir × Except JsString ContradictionPair :=
  let made := { dir with created := true }
  let dir := if pair.namespaceName = none then clearUnscopedMigrationMarkers moment made else made
  let pairId := pair.id env
  match readPair dir pairId with
  | .error fault => (dir, .error fault)
  | .ok existing =>
    match existing.filter fun there => preservesExisting env clock there pair options with
    | some there => (dir, .ok there)
    | none =>
      let full := refreshed env clock existing pair options pairId
      match writePairFile moment pairId full dir with
      | .error fault => (dir, .error fault)
      | .ok written => (written, .ok full)

/-- The readings of the clock from the given one on. -/
def later (clock : Nat → Int) (start : Nat) (reading : Nat) : Int := clock (start + reading)

/-- `writePairs` from its given pair on; a fault ends it with the pairs before it written. -/
def writePairsFrom (moment : Moment) (options : WritePairOptions) :
    List DetectedPair → Nat → List JsString → ReviewDir → ReviewDir × Except JsString (List ContradictionPair)
  | [], _, _, dir => (dir, .ok [])
  | pair :: rest, index, seen, dir =>
    let key := pair.id env
    if seen.contains key then writePairsFrom moment options rest (index + 1) seen dir
    else match writePair env moment (later moment.clock (3 * index)) pair options dir with
      | (dir, .error fault) => (dir, .error fault)
      | (dir, .ok result) =>
        let (last, results) := writePairsFrom moment options rest (index + 1) (key :: seen) dir
        (last, results.map (result :: ·))

def writePairs (moment : Moment) (pairs : List DetectedPair) (options : WritePairOptions) (dir : ReviewDir) :
    ReviewDir × Except JsString (List ContradictionPair) :=
  writePairsFrom env moment options pairs 0 [] dir

inductive ContradictionFilter where
  | verdict (verdict : ContradictionVerdict) | all | unresolved

structure ListPairsOptions where
  filter : ContradictionFilter := .all
  namespaceName : Option JsString := none
  includeUnscopedForNamespace : Bool := false
  limit : ℚ := 50

def inNamespace (options : ListPairsOptions) (pair : ContradictionPair) : Bool :=
  (options.namespaceName.getD []) = [] || pair.namespaceName = options.namespaceName ||
    (options.includeUnscopedForNamespace && pair.namespaceName = none)

def passesFilter (now : Int) (pair : ContradictionPair) : ContradictionFilter → Bool
  | .unresolved => isReviewActionable env now pair
  | .all => true
  | .verdict verdict => pair.verdict = verdict

structure ContradictionListResult where
  pairs : List ContradictionPair
  total : Nat
  durationMs : Int

def listPairs (moment : Moment) (options : ListPairsOptions) (dir : ReviewDir) : ContradictionListResult :=
  let entries := (moment.order dir.files.keys).filterMap dir.files.lookup
  let matchingPairs := (entries.zipIdx.filter fun entry =>
    inNamespace options entry.1 && passesFilter env (moment.clock (3 + entry.2)) entry.1 options.filter).map Prod.fst
  let sorted := matchingPairs.mergeSort (reviewPairLe env (moment.clock 2))
  ⟨sorted.take ⌈options.limit⌉₊, matchingPairs.length, moment.clock 1 - moment.clock 0⟩

structure MigrationRun where
  dir : ReviewDir
  migrated : Nat
  hadMigrationFailure : Bool

def MigrationRun.failed (run : MigrationRun) : MigrationRun := { run with hadMigrationFailure := true }

/-- What a pair of the given file becomes under its id in the namespace. -/
def migratedContent (resolvedNamespace : JsString) (options : WritePairOptions) (clock : Nat → Int) (file : JsString)
    (pair : ContradictionPair) (dir : ReviewDir) : ContradictionPair :=
  let pairId := computePairId env pair.memoryIds.1 pair.memoryIds.2 (some resolvedNamespace)
  let migratedPair := { pair with namespaceName := some resolvedNamespace, pairId := pairId }
  if pairId = file then migratedPair
  else match dir.files.lookup pairId with
    | none => migratedPair
    | some existing => mergeMigratedPair env clock existing migratedPair options

/-- One file of the directory as it was read at the start; `clock` holds its readings. -/
def migrateEntry (moment : Moment) (resolvedNamespace : JsString) (options : WritePairOptions) (clock : Nat → Int)
    (file : JsString) (run : MigrationRun) : MigrationRun :=
  match run.dir.files.lookup file with
  | none => run
  | some pair =>
    if pair.namespaceName.isSome then run
    else match pairPath (computePairId env pair.memoryIds.1 pair.memoryIds.2 (some resolvedNamespace)) with
      | .error _ => run
      | .ok target =>
        match writePairFile moment target (migratedContent env resolvedNamespace options clock file pair run.dir) run.dir with
        | .error _ => run.failed
        | .ok written =>
          if target = file then { run with dir := written, migrated := run.migrated + 1 }
          else if moment.removeFails file then { run with dir := written }.failed
          else { run with dir := { written with files := written.files.erase file }, migrated := run.migrated + 1 }

def migrateUnscopedPairsToNamespace (moment : Moment) (namespaceName : JsString) (options : WritePairOptions)
    (dir : ReviewDir) : ReviewDir × Nat :=
  let resolvedNamespace := trim namespaceName
  if resolvedNamespace = [] then (dir, 0)
  else if !dir.created then (dir, 0)
  else if dir.markers.contains (migrationMarkerKey env resolvedNamespace) then (dir, 0)
  else
    let run := (moment.order dir.files.keys).zipIdx.foldl (fun run entry =>
      migrateEntry env moment resolvedNamespace options (later moment.clock (4 * entry.2)) entry.1 run) ⟨dir, 0, false⟩
    if run.hadMigrationFailure || moment.markerWriteFails then (run.dir, run.migrated)
    else ({ run.dir with markers := migrationMarkerKey env resolvedNamespace :: run.dir.markers }, run.migrated)

def isoNow (time : Int) : Except JsString JsString :=
  match toISOString time with
  | some value => .ok value
  | none => .error (text "Invalid time value")

/-- The write that ends `resolvePair` and `deferPair`, unless the record keeps its answer. -/
def answerPair (moment : Moment) (pairId : JsString) (change : ContradictionPair → Except JsString ContradictionPair)
    (dir : ReviewDir) : ReviewDir × Except JsString (Option ContradictionPair) :=
  match readPair dir pairId with
  | .error fault => (dir, .error fault)
  | .ok none => (dir, .ok none)
  | .ok (some existing) =>
    if preservesDirectResolution existing.resolution then (dir, .ok (some existing))
    else match change existing with
      | .error fault => (dir, .error fault)
      | .ok updated => match writePairFile moment pairId updated dir with
        | .error fault => (dir, .error fault)
        | .ok written => (written, .ok (some updated))

/-- Without a time, the deferral ends a day from now. -/
def deferPair (moment : Moment) (pairId : JsString) (deferredUntil : Option JsString) (dir : ReviewDir) :
    ReviewDir × Except JsString (Option ContradictionPair) :=
  match deferredUntil.elim (isoNow (moment.clock 0 + needsMoreContextCooldownMs)) .ok with
  | .error fault => (dir, .error fault)
  | .ok deferredUntil => answerPair moment pairId (fun existing => do
      let lastReviewedAt ← isoNow (moment.clock 1)
      return { existing with
        lastReviewedAt := some lastReviewedAt
        resolution := none
        deferredUntil := some deferredUntil }) dir

def resolvePair (moment : Moment) (pairId : JsString) (verb : ResolutionVerb) (dir : ReviewDir) :
    ReviewDir × Except JsString (Option ContradictionPair) :=
  if verb = .needsMoreContext then deferPair moment pairId none dir
  else answerPair moment pairId (fun existing => do
    let lastReviewedAt ← isoNow (moment.clock 0)
    return { existing with
      lastReviewedAt := some lastReviewedAt
      resolution := some verb
      deferredUntil := none }) dir

inductive ReviewCall where
  | writePair (pair : DetectedPair) (options : WritePairOptions)
  | writePairs (pairs : List DetectedPair) (options : WritePairOptions)
  | resolvePair (pairId : JsString) (verb : ResolutionVerb)
  | deferPair (pairId : JsString) (deferredUntil : Option JsString)
  | migrateUnscopedPairsToNamespace (namespaceName : JsString) (options : WritePairOptions)

structure ReviewEvent where
  moment : Moment
  call : ReviewCall

/-- The directory after a call, whether it returns or throws. -/
def step (dir : ReviewDir) (event : ReviewEvent) : ReviewDir :=
  match event.call with
  | .writePair pair options => (writePair env event.moment event.moment.clock pair options dir).1
  | .writePairs pairs options => (writePairs env event.moment pairs options dir).1
  | .resolvePair pairId verb => (resolvePair event.moment pairId verb dir).1
  | .deferPair pairId deferredUntil => (deferPair event.moment pairId deferredUntil dir).1
  | .migrateUnscopedPairsToNamespace namespaceName options =>
    (migrateUnscopedPairsToNamespace env event.moment namespaceName options dir).1

def run (events : List ReviewEvent) (dir : ReviewDir) : ReviewDir := events.foldl (step env) dir

end Remnic.Contradiction.Review
