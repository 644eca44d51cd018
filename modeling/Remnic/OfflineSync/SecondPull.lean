import Remnic.OfflineSync.PullVerdict
import Remnic.OfflineSync.ThreeWay

/-! What a pull of the same snapshot decides and does on the root and the base that a first pull left. -/

namespace Remnic.OfflineSync.SecondPull
open Library Library.AppendNew Library.GuardedFold Library.LocalSteps Text.CodeUnits Reconcile.Census Paths SyncRoot List
open Changeset Patch Receive FaithfulPatch Snapshot Pull PullVerdict ThreeWay

variable {Content : Type}

structure OfflineSyncState where
  remoteId : JsString
  namespaceName : Option JsString
  includeTranscripts : Bool
  lastSyncedAt : JsString
  baseFiles : List OfflineSyncFileState

/-- `isoTimestamp` is `parseFlexibleIsoTimestamp` followed by `toISOString`. -/
def normalizeIsoString (isoTimestamp : JsString → Option JsString) (value field : JsString) : Except Failure JsString :=
  if (trim value).length = 0 then .error (.message (field ++ text " must be an ISO timestamp string"))
  else match isoTimestamp (trim value) with
    | none => .error (.message (field ++ text " must be a parseable ISO timestamp"))
    | some normal => .ok normal

def normalizeOfflineSyncState (tables : UnicodeTables) (isoTimestamp : JsString → Option JsString)
    (state : OfflineSyncState) : Except Failure OfflineSyncState := do
  let files ← normalizeFileStates state.baseFiles
  let baseFiles := files.mergeSort (compareByPath tables)
  assertUniquePaths tables (text "offline sync state") [] (baseFiles.map OfflineSyncFileState.path)
  let remoteId ← normalizeSourceId state.remoteId (text "remoteId")
  let lastSyncedAt ← normalizeIsoString isoTimestamp state.lastSyncedAt (text "lastSyncedAt")
  return {
    remoteId := remoteId
    namespaceName := state.namespaceName.bind fun name => if (trim name).length > 0 then some (trim name) else none
    includeTranscripts := state.includeTranscripts
    lastSyncedAt := lastSyncedAt
    baseFiles := baseFiles }

structure Identified (isoTimestamp : JsString → Option JsString) (state : OfflineSyncState) : Prop where
  remote : ∃ remoteId, normalizeSourceId state.remoteId (text "remoteId") = .ok remoteId
  synced : ∃ lastSyncedAt, normalizeIsoString isoTimestamp state.lastSyncedAt (text "lastSyncedAt") = .ok lastSyncedAt

variable (tables : UnicodeTables)

theorem normalizeOfflineSyncState_ok_iff {isoTimestamp : JsString → Option JsString} {state : OfflineSyncState} :
    (∃ checked, normalizeOfflineSyncState tables isoTimestamp state = .ok checked) ↔
      Identified isoTimestamp state ∧ (∀ file ∈ state.baseFiles, IsArchivePath file.path) ∧
        ((state.baseFiles.map OfflineSyncFileState.path).map tables.toLowerCase).Nodup := by
  have unique : assertUniquePaths tables (text "offline sync state") []
      ((state.baseFiles.mergeSort (compareByPath tables)).map OfflineSyncFileState.path) = .ok () ↔
        ((state.baseFiles.map OfflineSyncFileState.path).map tables.toLowerCase).Nodup := by
    rw [assertUniquePaths_ok_iff, ((((mergeSort_perm state.baseFiles (compareByPath tables)).map
      OfflineSyncFileState.path).map tables.toLowerCase).nodup_iff)]
    simp
  constructor
  · intro accepted
    obtain ⟨checked, accepted⟩ := accepted
    unfold normalizeOfflineSyncState at accepted
    obtain ⟨files, read, rest⟩ := bind_ok_iff.mp accepted
    obtain ⟨_, apart, rest⟩ := bind_ok_iff.mp rest
    obtain ⟨remoteId, named, rest⟩ := bind_ok_iff.mp rest
    obtain ⟨lastSyncedAt, synced, _⟩ := bind_ok_iff.mp rest
    obtain ⟨archive, same⟩ := (normalizeFileStates_ok_iff _ _).mp read
    rw [same] at apart
    exact ⟨⟨⟨remoteId, named⟩, lastSyncedAt, synced⟩, archive, unique.mp apart⟩
  · intro facts
    obtain ⟨⟨⟨remoteId, named⟩, lastSyncedAt, synced⟩, archive, apart⟩ := facts
    have read := (normalizeFileStates_ok_iff state.baseFiles state.baseFiles).mpr ⟨archive, rfl⟩
    unfold normalizeOfflineSyncState
    simp only [bind_ok_iff, pure_ok_iff]
    exact ⟨_, _, read, (), unique.mpr apart, remoteId, named, lastSyncedAt, synced, rfl⟩

structure Accepted (tables : UnicodeTables) (received snapshot : OfflineSyncSnapshot Content) : Prop where
  mode : snapshot.includeTranscripts = received.includeTranscripts
  among : ∀ record ∈ snapshot.files, record ∈ received.files
  archive : ∀ record ∈ snapshot.files, IsArchivePath record.state.path
  included : ∀ record ∈ snapshot.files, shouldExcludeRelPath record.state.path received.includeTranscripts = false
  unique : (snapshot.paths.map tables.toLowerCase).Nodup

theorem included_of_mode {path : JsString} {includeTranscripts : Bool} (included : shouldExcludeRelPath path true = false)
    (apart : includeTranscripts = false → isTranscriptPath path = false) :
    shouldExcludeRelPath path includeTranscripts = false := by
  cases includeTranscripts with
  | true => exact included
  | false =>
    have apart := apart rfl
    unfold isTranscriptPath at apart
    unfold shouldExcludeRelPath at included ⊢
    grind

theorem accepted_of_ok {tables : UnicodeTables} {received snapshot : OfflineSyncSnapshot Content}
    (done : normalizeOfflineSyncSnapshot tables received = .ok snapshot) : Accepted tables received snapshot := by
  have reads (records out : List (OfflineSyncFileRecord Content)) (start : Nat) :
      ((records.zipIdx start).mapM fun entry => normalizeFileRecord entry.1 (indexed (text "files") entry.2)) = .ok out ↔
        (∀ record ∈ records, IsArchivePath record.state.path) ∧ out = records :=
    mapM_zipIdx_ok_iff (fun record _ out => normalizeFileRecord_ok_iff record out _) records out start
  unfold normalizeOfflineSyncSnapshot at done
  simp only [bind_ok_iff, reads, pure_ok_iff] at done
  obtain ⟨sourceId, _, read, ⟨archive, same⟩, recorded, _, _, checked, omitted, _, shape⟩ := done
  obtain ⟨unique, apart, clear⟩ := (assertEntryPaths_ok_iff _ _).mp checked
  rw [same] at unique apart clear shape
  rw [map_append, nodup_append] at unique
  have listed (record : OfflineSyncFileRecord Content) (member : record ∈ snapshot.files) :
      record ∈ (received.files.filter fun record => !shouldIgnoreIncomingRuntimePath record.state.path).mergeSort
        (fun first second => compareByPath tables first.state second.state) := by
    rw [shape] at member
    exact member
  have inside (record : OfflineSyncFileRecord Content) (member : record ∈ snapshot.files) : record ∈ received.files :=
    (mem_filter.mp (mem_mergeSort.mp (listed record member))).1
  have entry (record : OfflineSyncFileRecord Content) (member : record ∈ snapshot.files) :=
    mem_append_left ((recorded.map fun entries => entries.filter fun deletion =>
      !shouldIgnoreIncomingRuntimePath deletion.path).getD [] |>.map OfflineSyncDeletionRevision.path)
      (mem_map_of_mem (f := fun record => record.state.path) (listed record member))
  refine ⟨by rw [shape], inside, fun record member => archive record (inside record member), fun record member => ?_, ?_⟩
  · exact included_of_mode (clear _ (entry record member)) fun hidden => apart hidden _ (entry record member)
  · unfold OfflineSyncSnapshot.paths
    rw [shape, map_map (f := OfflineSyncFileRecord.state)]
    exact unique.1

theorem lookup_census (hashing : Hashing Content) (excluded : JsString → Bool) (tree : SyncTree Content) (path : JsString) :
    (byPath (census tables hashing excluded tree)).lookup path =
      if walked excluded path then (tree.file path).map (hashing.stateOf path) else none := by
  cases found : (byPath (census tables hashing excluded tree)).lookup path with
  | some file =>
    obtain ⟨member, same⟩ := lookup_byPath found
    obtain ⟨seen, stored, present, shape⟩ := census_path.mp member
    rw [same] at seen present shape
    rw [if_pos seen, present, shape]
    rfl
  | none =>
    split
    next seen =>
      cases present : tree.file path with
      | none => rfl
      | some stored =>
        have member : hashing.stateOf path stored ∈ census tables hashing excluded tree :=
          census_path.mpr ⟨seen, stored, present, rfl⟩
        obtain ⟨last, held⟩ := lookup_byPath_of_mem member
        cases found.symm.trans held
    next hidden => rfl

def reached (received : OfflineSyncSnapshot Content) (path : JsString) : Bool :=
  walked (fun other => shouldExcludeRelPath other received.includeTranscripts) path

/-- The three sides as a pull sets them out, where no side names a generation member. -/
def sidesOf (env : Environment Content) (tree : SyncTree Content) (options : PullOptions Content)
    (snapshot : OfflineSyncSnapshot Content) (buffers : OrderedMap JsString Content) : PullInputs Content where
  sourceId := snapshot.sourceId
  base := byPath (filterBaseFilesForMode options.baseFiles snapshot.includeTranscripts)
  incoming := byPath (snapshot.files.map OfflineSyncFileRecord.state)
  current := byPath (census env.tables env.hashing
    (fun path => shouldExcludeRelPath path snapshot.includeTranscripts) tree)
  buffers := buffers
  deletions := snapshot.deletions
  omittedGenerationDirs := snapshot.omittedEmbeddingGenerationDirs.getD []
  deferredPaths := options.deferredPaths

def routingOf (options : PullOptions Content) (inputs : PullInputs Content) : PullRouting :=
  ⟨options.deferredPaths, options.deferredPaths.filterMap embeddingGenerationMembership, [], inputs.base, 0, 0⟩

def startOf (tree : SyncTree Content) (inputs : PullInputs Content) : PullState Content :=
  ⟨tree, inputs.base, [], 0, 0, 0, 0⟩

structure Begins (env : Environment Content) (tree : SyncTree Content) (options : PullOptions Content)
    (received snapshot : OfflineSyncSnapshot Content) (buffers : OrderedMap JsString Content) : Prop where
  accepted : normalizeOfflineSyncSnapshot env.tables received = .ok snapshot
  archive : ∀ file ∈ options.baseFiles, IsArchivePath file.path
  verified : verifyRecordContents env.hashing (text "offline sync snapshot") options.readIncomingFile snapshot.files =
    .ok buffers
  recorded : recordDeletions options (sidesOf env tree options snapshot buffers) tree = .ok ()

/-- No side names a member of an embedding generation. -/
structure Apart (options : PullOptions Content) (received : OfflineSyncSnapshot Content) (tree : SyncTree Content) :
    Prop where
  base : ∀ file ∈ options.baseFiles, embeddingGenerationMembership file.path = none
  incoming : ∀ record ∈ received.files, embeddingGenerationMembership record.state.path = none
  current : ∀ path ∈ tree.files.keys, reached received path = true → embeddingGenerationMembership path = none

/-- The local files of a pull are those of a census, its own or the one its caller hands over. -/
def Truthful (env : Environment Content) (tree : SyncTree Content) (options : PullOptions Content)
    (received : OfflineSyncSnapshot Content) : Prop :=
  pullCurrentFiles env tree options received.includeTranscripts =
    .ok (census env.tables env.hashing (fun path => shouldExcludeRelPath path received.includeTranscripts) tree)

theorem preparePull_ok_iff {env : Environment Content} {generations : SnapshotGenerations Content}
    {tree : SyncTree Content} {options : PullOptions Content} {received : OfflineSyncSnapshot Content}
    (truthful : Truthful env tree options received) (apart : Apart options received tree)
    (parts : PullInputs Content × PullRouting × PullState Content) :
    preparePull env generations tree options received = .ok parts ↔ ∃ snapshot buffers,
      Begins env tree options received snapshot buffers ∧
      parts = (sidesOf env tree options snapshot buffers, routingOf options (sidesOf env tree options snapshot buffers),
        startOf tree (sidesOf env tree options snapshot buffers)) := by
  have idle (snapshot : OfflineSyncSnapshot Content) (buffers : OrderedMap JsString Content)
      (accepted : normalizeOfflineSyncSnapshot env.tables received = .ok snapshot) :=
    generations.idle (sidesOf env tree options snapshot buffers) tree fun path listed => by
      have facts := accepted_of_ok accepted
      rcases listed with base | incoming | current
      · exact apart_byPath (fun file member => apart.base file (mem_filter.mp member).1) base
      · refine apart_byPath (fun file member => ?_) incoming
        obtain ⟨record, inside, shape⟩ := mem_map.mp member
        exact shape ▸ apart.incoming record (facts.among record inside)
      · refine apart_byPath (fun file member => ?_) current
        obtain ⟨seen, stored, present, _⟩ := census_path.mp member
        rw [facts.mode] at seen
        exact apart.current file.path ((OrderedMap.mem_keys_iff _ _).mpr ⟨stored, present⟩) seen
  have handed (snapshot : OfflineSyncSnapshot Content)
      (accepted : normalizeOfflineSyncSnapshot env.tables received = .ok snapshot) :
      pullCurrentFiles env tree options snapshot.includeTranscripts =
        .ok (census env.tables env.hashing (fun path => shouldExcludeRelPath path snapshot.includeTranscripts) tree) := by
    rw [(accepted_of_ok accepted).mode]
    exact truthful
  unfold preparePull
  simp only [bind_ok_iff, normalizeFileStates_ok_iff]
  constructor
  · intro done
    obtain ⟨snapshot, accepted, files, ⟨archive, same⟩, buffers, verified, currents, known, _, recorded, route, routed, last⟩ :=
      done
    rw [same, Except.ok.inj (known.symm.trans (handed snapshot accepted))] at recorded routed last
    have calm := idle snapshot buffers accepted
    unfold sidesOf at calm
    rw [calm.1, append_nil] at recorded routed last
    rw [calm.2] at routed
    rw [← Except.ok.inj routed] at last
    exact ⟨snapshot, buffers, ⟨accepted, archive, verified, recorded⟩, (Except.ok.inj last).symm⟩
  · intro facts
    obtain ⟨snapshot, buffers, begins, shape⟩ := facts
    have calm := idle snapshot buffers begins.accepted
    have recorded := begins.recorded
    unfold sidesOf at calm recorded
    refine ⟨snapshot, begins.accepted, _, ⟨begins.archive, rfl⟩, buffers, begins.verified, _,
      handed snapshot begins.accepted, (), ?_,
      ([], options.deferredPaths.filterMap embeddingGenerationMembership, tree), ?_, ?_⟩
    · rw [calm.1, append_nil]
      exact recorded
    · rw [calm.1, append_nil]
      exact calm.2
    · rw [calm.1, append_nil, shape]
      rfl

/-- A verdict that leaves its path as it is; only a runtime file which no census reaches is taken once more. -/
def Quiet (buffers : OrderedMap JsString Content) (received : OfflineSyncSnapshot Content) (path : JsString)
    (side : Option (Stored Content) × Option OfflineSyncFileState) : Verdict → Prop
  | .forget => side.2 = none
  | .level incoming => (∃ stored, side.1 = some stored ∧ Near stored incoming) ∧ side.2 = some incoming
  | .look _ => ∃ stored, side.1 = some stored
  | .take incoming => reached received path = false ∧ shouldPreferIncomingOfflineRuntimeFile path = true ∧
      ∃ content, buffers.lookup path = some content ∧ side = (some ⟨content, incoming.mtimeMs⟩, some incoming)
  | .drop => False
  | _ => True

section Again

variable {hashing : Hashing Content} {received : OfflineSyncSnapshot Content} {inputs : PullInputs Content}
  {path : JsString} {before : Option (Stored Content)} {after : Option (Stored Content) × Option OfflineSyncFileState}
  {incoming : OfflineSyncFileState}

def seen (hashing : Hashing Content) (received : OfflineSyncSnapshot Content) (path : JsString)
    (file : Option (Stored Content)) : Option OfflineSyncFileState :=
  if reached received path then file.map (hashing.stateOf path) else none

theorem seen_none : seen hashing received path none = none := by
  unfold seen
  split
  next => rfl
  next => rfl

theorem sha_seen {stored : Stored Content} (reaches : reached received path = true) :
    (seen hashing received path (some stored)).map OfflineSyncFileState.sha256 = some (hashing.sha256 stored.content) := by
  unfold seen
  rw [if_pos reaches]
  rfl

theorem reached_of_sha {sha : Sha256}
    (known : (seen hashing received path before).map OfflineSyncFileState.sha256 = some sha) :
    reached received path = true ∧ ∃ stored, before = some stored ∧ hashing.sha256 stored.content = sha := by
  unfold seen at known
  split at known
  next reaches =>
    cases before with
    | none => cases known
    | some stored => exact ⟨reaches, stored, rfl, Option.some.inj known⟩
  next hidden => cases known

theorem near_self {content : Content} : Near ⟨content, incoming.mtimeMs⟩ incoming := by
  unfold Near
  rw [sub_self, abs_zero]
  exact tolerance_nonneg

theorem again_of_taken (received : OfflineSyncSnapshot Content) (plain : isEmbeddingGenerationMarkerPath path = false)
    (carried : ∀ content, inputs.buffers.lookup path = some content → incoming.sha256 = hashing.sha256 content)
    (taken : Taken inputs path incoming after) :
    contested (verdictIncoming path after.2 (seen hashing received path after.1) incoming) = [] ∧
      Quiet inputs.buffers received path after
        (verdictIncoming path after.2 (seen hashing received path after.1) incoming) := by
  obtain ⟨content, known, same⟩ := taken
  unfold verdictIncoming
  rw [plain, if_neg (by decide), same]
  by_cases reaches : reached received path = true
  · have level : (seen hashing received path (some ⟨content, incoming.mtimeMs⟩)).map OfflineSyncFileState.sha256 =
        some incoming.sha256 := by rw [sha_seen reaches, carried content known]
    rw [if_pos level]
    exact ⟨rfl, ⟨_, rfl, near_self⟩, rfl⟩
  · have hidden : seen hashing received path (some ⟨content, incoming.mtimeMs⟩) = none := if_neg reaches
    rw [hidden, if_neg (by simp)]
    by_cases runtime : shouldPreferIncomingOfflineRuntimeFile path = true
    · rw [if_pos runtime, if_neg (by simp)]
      exact ⟨rfl, Bool.eq_false_iff.mpr reaches, runtime, content, known, rfl⟩
    · rw [if_neg runtime]
      dsimp only [verdictPlain]
      rw [if_pos rfl]
      exact ⟨rfl, trivial⟩

theorem verdictIncoming_again
    (carried : ∀ content, inputs.buffers.lookup path = some content → incoming.sha256 = hashing.sha256 content)
    (lands : Lands inputs path before after
      (verdictIncoming path (inputs.base.lookup path) (seen hashing received path before) incoming)) :
    contested (verdictIncoming path after.2 (seen hashing received path after.1) incoming) =
        contested (verdictIncoming path (inputs.base.lookup path) (seen hashing received path before) incoming) ∧
      Quiet inputs.buffers received path after
        (verdictIncoming path after.2 (seen hashing received path after.1) incoming) := by
  -- A path that stays as it is meets the same decision again.
  have stays (same : after = (before, inputs.base.lookup path)) :
      verdictIncoming path after.2 (seen hashing received path after.1) incoming =
        verdictIncoming path (inputs.base.lookup path) (seen hashing received path before) incoming := by rw [same]
  have comes := @comes_verdictIncoming path (inputs.base.lookup path) (seen hashing received path before) incoming
  generalize verdictIncoming path (inputs.base.lookup path) (seen hashing received path before) incoming = v
    at comes lands stays ⊢
  cases comes with
  | marker marker =>
    have forgets : verdictIncoming path after.2 (seen hashing received path after.1) incoming = .forget := by
      unfold verdictIncoming
      rw [if_pos marker]
    rw [forgets]
    exact ⟨rfl, congrArg Prod.snd lands⟩
  | level plain equal =>
    obtain ⟨⟨stored, file, same, near⟩, entry⟩ := lands
    obtain ⟨reaches, old, was, digest⟩ := reached_of_sha equal
    rw [was] at same
    have now : (seen hashing received path after.1).map OfflineSyncFileState.sha256 = some incoming.sha256 := by
      rw [file, sha_seen reaches, ← Option.some.inj same, digest]
    unfold verdictIncoming
    rw [if_neg (by rw [plain]; decide), if_pos now]
    exact ⟨rfl, ⟨stored, file, near⟩, entry⟩
  | replace plain | take plain => exact again_of_taken received plain carried lands
  | look plain =>
    rcases lands with ⟨there, same⟩ | taken
    · rw [stays same]
      exact ⟨rfl, by rw [same]; exact Option.ne_none_iff_exists'.mp there⟩
    · exact again_of_taken received plain carried taken
  | keep | wait | contest =>
    rw [stays lands]
    exact ⟨rfl, trivial⟩

theorem verdictAbsent_again {dirs : List JsString}
    (lands : Lands inputs path before after
      (verdictAbsent path (inputs.base.lookup path) (seen hashing received path before) dirs)) :
    contested (verdictAbsent path after.2 (seen hashing received path after.1) dirs) =
        contested (verdictAbsent path (inputs.base.lookup path) (seen hashing received path before) dirs) ∧
      Quiet inputs.buffers received path after (verdictAbsent path after.2 (seen hashing received path after.1) dirs) := by
  have stays (same : after = (before, inputs.base.lookup path)) :
      verdictAbsent path after.2 (seen hashing received path after.1) dirs =
        verdictAbsent path (inputs.base.lookup path) (seen hashing received path before) dirs := by rw [same]
  have forgets {base current : Option OfflineSyncFileState}
      (gone : matchesOfflineSyncDefaultExclude path = true ∨ current = none) : verdictAbsent path base current dirs = .forget := by
    unfold verdictAbsent
    rcases gone with excluded | rfl
    · rw [if_pos excluded]
    · split_ifs <;> rfl
  have goes := @goes_verdictAbsent path (inputs.base.lookup path) (seen hashing received path before) dirs
  generalize verdictAbsent path (inputs.base.lookup path) (seen hashing received path before) dirs = v
    at goes lands stays ⊢
  cases goes with
  | forget gone =>
    rw [forgets (gone.imp_right fun absent => by rw [show after.1 = before from congrArg Prod.fst lands, absent])]
    exact ⟨rfl, congrArg Prod.snd lands⟩
  | drop =>
    rw [forgets (.inr (by rw [show after = (none, none) from lands, seen_none]))]
    exact ⟨rfl, congrArg Prod.snd lands⟩
  | wait | contest =>
    rw [stays lands]
    exact ⟨rfl, trivial⟩

end Again
section Sides

variable {env later : Environment Content} {tree : SyncTree Content} {options : PullOptions Content}
  {received snapshot : OfflineSyncSnapshot Content} {buffers : OrderedMap JsString Content} {path : JsString}

theorem current_sidesOf (begins : Begins env tree options received snapshot buffers) (path : JsString) :
    (sidesOf env tree options snapshot buffers).current.lookup path =
      seen env.hashing received path (tree.file path) := by
  unfold sidesOf seen reached
  rw [lookup_census, (accepted_of_ok begins.accepted).mode]

variable {file : OfflineSyncFileState}

section

variable (begins : Begins env tree options received snapshot buffers)
include begins

theorem incoming_sidesOf (found : (sidesOf env tree options snapshot buffers).incoming.lookup path = some file) :
    file.path = path ∧ IsArchivePath path ∧ shouldExcludeRelPath path received.includeTranscripts = false ∧
      ∃ record ∈ received.files, record.state = file := by
  have facts := accepted_of_ok begins.accepted
  obtain ⟨member, same⟩ := lookup_byPath found
  obtain ⟨record, listed, shape⟩ := mem_map.mp member
  have named : record.state.path = path := shape ▸ same
  exact ⟨same, named ▸ facts.archive record listed, named ▸ facts.included record listed, record,
    facts.among record listed, shape⟩

theorem base_sidesOf (found : (sidesOf env tree options snapshot buffers).base.lookup path = some file) :
    file.path = path ∧ file ∈ options.baseFiles ∧ shouldExcludeRelPath path received.includeTranscripts = false := by
  obtain ⟨member, same⟩ := lookup_byPath found
  obtain ⟨listed, kept⟩ := mem_filter.mp member
  rw [(accepted_of_ok begins.accepted).mode, same] at kept
  exact ⟨same, listed, by simpa using kept⟩

theorem carried_sidesOf {content : Content} {incoming : OfflineSyncFileState}
    (found : (sidesOf env tree options snapshot buffers).incoming.lookup path = some incoming)
    (known : buffers.lookup path = some content) : incoming.sha256 = env.hashing.sha256 content := by
  have unique := (accepted_of_ok begins.accepted).unique
  have once : snapshot.paths.Nodup := Nodup.of_map _ unique
  obtain ⟨record, member, named, digest⟩ := verifyRecordContents_ok begins.verified path content known
  have held := (lookup_byPath_iff once path record.state).mpr ⟨mem_map_of_mem member, named⟩
  rw [← Option.some.inj (held.symm.trans found), digest]

theorem included_of_listed (listed : path ∈ pullPaths (sidesOf env tree options snapshot buffers)) :
    shouldExcludeRelPath path received.includeTranscripts = false := by
  obtain ⟨keys, among, member⟩ := (mem_unionPaths _).mp listed
  rw [mem_cons, mem_cons, mem_singleton] at among
  rcases among with base | incoming | current
  · rw [base, OrderedMap.mem_keys_iff] at member
    obtain ⟨file, found⟩ := member
    exact (base_sidesOf begins found).2.2
  · rw [incoming, OrderedMap.mem_keys_iff] at member
    obtain ⟨file, found⟩ := member
    exact (incoming_sidesOf begins found).2.2.1
  · rw [current, OrderedMap.mem_keys_iff] at member
    obtain ⟨file, found⟩ := member
    rw [current_sidesOf begins] at found
    unfold seen at found
    split at found
    next reaches => exact not_excluded_of_walked reaches
    next hidden => cases found

theorem watched_of_listed (listed : path ∈ pullPaths (sidesOf env tree options snapshot buffers)) : Watched path :=
  watched_of_included (included_of_listed begins listed)

end

theorem verdict_unlisted (unlisted : path ∉ pullPaths (sidesOf env tree options snapshot buffers)) :
    (sidesOf env tree options snapshot buffers).base.lookup path = none ∧
      (verdict (sidesOf env tree options snapshot buffers)
          (routingOf options (sidesOf env tree options snapshot buffers)) path = .keep false ∨
        verdict (sidesOf env tree options snapshot buffers)
          (routingOf options (sidesOf env tree options snapshot buffers)) path = .forget) := by
  have absent (map : OrderedMap JsString OfflineSyncFileState)
      (among : map.keys ∈ [(sidesOf env tree options snapshot buffers).base.keys,
        (sidesOf env tree options snapshot buffers).incoming.keys,
        (sidesOf env tree options snapshot buffers).current.keys]) : map.lookup path = none := by
    rw [OrderedMap.lookup_eq_none_iff]
    exact fun member => unlisted ((mem_unionPaths _).mpr ⟨_, among, member⟩)
  have base := absent (sidesOf env tree options snapshot buffers).base (by simp)
  have incoming := absent (sidesOf env tree options snapshot buffers).incoming (by simp)
  have current := absent (sidesOf env tree options snapshot buffers).current (by simp)
  refine ⟨base, ?_⟩
  unfold verdict
  split_ifs with deferred handled generation
  · exact .inl rfl
  · exact absurd handled (by simp [routingOf])
  · exact .inl rfl
  · rw [incoming, base, current]
    unfold verdictAbsent
    dsimp only
    split_ifs
    · exact .inr rfl
    · exact .inr rfl

end Sides

section FirstPull

variable {env : Environment Content} {tree : SyncTree Content} {options : PullOptions Content}
  {received snapshot : OfflineSyncSnapshot Content} {buffers : OrderedMap JsString Content} {path : JsString}

theorem lands_pullRun (begins : Begins env tree options received snapshot buffers) (watched : Watched path)
    (ended : (pullRun env options (sidesOf env tree options snapshot buffers)
      (routingOf options (sidesOf env tree options snapshot buffers))
      (startOf tree (sidesOf env tree options snapshot buffers))).2 = none) :
    Lands (sidesOf env tree options snapshot buffers) path (tree.file path)
      (sideAt path (pullRun env options (sidesOf env tree options snapshot buffers)
        (routingOf options (sidesOf env tree options snapshot buffers))
        (startOf tree (sidesOf env tree options snapshot buffers))).1)
      (verdict (sidesOf env tree options snapshot buffers)
        (routingOf options (sidesOf env tree options snapshot buffers)) path) := by
  have confined := mergePath_sides env options (sidesOf env tree options snapshot buffers)
    (routingOf options (sidesOf env tree options snapshot buffers))
  by_cases listed : path ∈ pullPaths (sidesOf env tree options snapshot buffers)
  · obtain ⟨before, after, same, round, last, _⟩ := stepped confined (once_pullPaths _) watched listed ended
    rw [mergePath_eq] at round
    have file : before.tree.file path = tree.file path := congrArg Prod.fst same
    have fresh : before.nextBase.lookup path = (sidesOf env tree options snapshot buffers).base.lookup path :=
      congrArg Prod.snd same
    have lands := enforce_lands round watched fresh fun incoming level => by
      rw [file]
      have level := level_of_verdict level
      rw [current_sidesOf begins] at level
      obtain ⟨_, stored, held, _⟩ := reached_of_sha level
      exact ⟨stored, held⟩
    rw [file] at lands
    exact (show sideAt path _ = sideAt path after from last) ▸ lands
  · have absent : path ∉ (pullPaths (sidesOf env tree options snapshot buffers)).map id := by rwa [map_id]
    have same := untouched confined watched absent (startOf tree (sidesOf env tree options snapshot buffers))
    obtain ⟨base, verdicts⟩ := verdict_unlisted listed
    have side : sideAt path (startOf tree (sidesOf env tree options snapshot buffers)) = (tree.file path, none) :=
      Prod.ext rfl base
    unfold pullRun
    rw [same, side]
    rcases verdicts with keeps | forgets
    · rw [keeps]
      exact Prod.ext rfl base.symm
    · rw [forgets]
      exact rfl

end FirstPull
section SecondPull

variable {env : Environment Content} {tree root : SyncTree Content} {options : PullOptions Content}
  {received : OfflineSyncSnapshot Content} {inputs : PullInputs Content} {routing : PullRouting}
  {path : JsString} {state next : PullState Content}

variable {base : Option OfflineSyncFileState} {v : Verdict}

theorem restoreBase_same (held : state.nextBase.lookup path = base) : (state.restoreBase path base).nextBase = state.nextBase := by
  unfold PullState.restoreBase
  cases base with
  | some file => exact OrderedMap.set_held held
  | none => exact OrderedMap.erase_absent held

/-- Where the second pull stands: every watched file and the base as it began, and nothing deleted. -/
structure Steady (received : OfflineSyncSnapshot Content) (root : SyncTree Content) (inputs : PullInputs Content)
    (state : PullState Content) : Prop where
  files : ∀ path, Watched path → state.tree.file path = root.file path
  base : state.nextBase = inputs.base
  deleted : state.deleted = 0
  upserted : (∀ path file, inputs.incoming.lookup path = some file → shouldPreferIncomingOfflineRuntimeFile path = true →
    reached received path = true) → state.upserted = 0

theorem Steady.restored (steady : Steady received root inputs state) (held : inputs.base.lookup path = base) :
    Steady received root inputs (state.restoreBase path base) where
  files := steady.files
  base := (restoreBase_same (steady.base ▸ held)).trans steady.base
  deleted := steady.deleted
  upserted := steady.upserted

theorem Steady.skip (steady : Steady received root inputs state) : Steady received root inputs state.skip :=
  ⟨steady.files, steady.base, steady.deleted, steady.upserted⟩

theorem Steady.pending (steady : Steady received root inputs state) : Steady received root inputs state.pending :=
  ⟨steady.files, steady.base, steady.deleted, steady.upserted⟩

theorem touch_near {tree : SyncTree Content} {stored : Stored Content} {incoming : OfflineSyncFileState}
    {touched : Bool × SyncTree Content} (present : tree.file path = some stored) (near : Near stored incoming)
    (done : setSafeFileMtime tree pullPrefix path incoming.mtimeMs = .ok touched) : touched = (true, tree) := by
  rcases setSafeFileMtime_cases done with ⟨missing, _⟩ | ⟨_, there, rfl⟩
  · cases missing.symm.trans present
  · cases there.symm.trans present
    rw [if_pos (show |stored.mtimeMs.val - incoming.mtimeMs.val| ≤ mtimeToleranceMs from near)]

theorem upserted_takeIncoming {incoming : OfflineSyncFileState} (done : takeIncoming inputs path incoming state = .ok next) :
    next.deleted = state.deleted ∧ next.nextBase = state.nextBase.set path incoming := by
  obtain ⟨content, tree, _, _, rfl⟩ := takeIncoming_spec done
  exact ⟨rfl, rfl⟩

/-- The step lemma of the second pull: a quiet verdict keeps it where it stands. -/
theorem steady_enforce (steady : Steady received root inputs state) (watched : Watched path)
    (acts : ∀ incoming, acting v = some incoming → inputs.incoming.lookup path = some incoming)
    (quiet : Quiet inputs.buffers received path (root.file path, inputs.base.lookup path) v)
    (done : enforce env options inputs path state v = .ok next) : Steady received root inputs next := by
  have file := steady.files path watched
  cases v with
  | keep waits =>
    cases waits with
    | true =>
      rw [← Except.ok.inj done]
      exact (steady.restored rfl).pending
    | false =>
      rw [← Except.ok.inj done]
      exact (steady.restored rfl).skip
  | forget =>
    rw [← Except.ok.inj done]
    have held : inputs.base.lookup path = none := quiet
    have kept : Steady received root inputs (state.restoreBase path none) := steady.restored held
    exact kept.skip
  | wait =>
    rw [← Except.ok.inj done]
    exact steady.pending
  | settled =>
    rw [← Except.ok.inj done]
    exact steady
  | level incoming =>
    obtain ⟨⟨stored, present, near⟩, held⟩ : (∃ stored, root.file path = some stored ∧ Near stored incoming) ∧
        inputs.base.lookup path = some incoming := quiet
    obtain ⟨touched, marked, rest⟩ := bind_ok_iff.mp done
    rw [touch_near (file.trans present) near marked] at rest
    rw [if_pos rfl] at rest
    rw [pure_ok_iff.mp rest]
    exact (steady.restored held).skip
  | look incoming =>
    obtain ⟨stored, present⟩ : ∃ stored, root.file path = some stored := quiet
    obtain ⟨found, probed, rest⟩ := bind_ok_iff.mp done
    have there : found = true := by
      rw [regular_present probed, file, present]
      rfl
    rw [if_pos there] at rest
    rw [pure_ok_iff.mp rest]
    exact steady.pending
  | take incoming =>
    obtain ⟨hidden, runtime, content, known, side⟩ := quiet
    obtain ⟨held, entry⟩ := Prod.mk.inj side
    obtain ⟨other, same, sides⟩ := sideAt_takeIncoming done
    obtain ⟨deleted, base⟩ := upserted_takeIncoming done
    have same : other = content := Option.some.inj (same.symm.trans known)
    refine ⟨fun name seen => ?_, ?_, deleted.trans steady.deleted, fun reaches => ?_⟩
    · have file : next.tree.file name = _ := congrArg Prod.fst (sides name)
      split at file
      next equal => rw [file, equal, held, same]
      next different => exact file.trans (steady.files name seen)
    · rw [base, steady.base]
      exact OrderedMap.set_held entry
    · exact absurd (reaches path incoming (acts incoming rfl) runtime) (by rw [hidden]; decide)
  | drop => exact absurd quiet id
  | contest report =>
    obtain ⟨after, conflicted, shape⟩ := bind_ok_iff.mp done
    obtain ⟨_, base, upserted, deleted, files⟩ := pullConflict_keeps conflicted
    have kept : Steady received root inputs after :=
      ⟨fun name seen => (files name seen).trans (steady.files name seen), base.trans steady.base,
        deleted.trans steady.deleted, fun reaches => upserted.trans (steady.upserted reaches)⟩
    rw [pure_ok_iff.mp shape]
    split_ifs
    · exact kept.restored rfl
    · exact kept
  | contestAbsent report =>
    rw [← Except.ok.inj done]
    have kept : Steady received root inputs (state.conflicted (report, state.tree)) :=
      ⟨steady.files, steady.base, steady.deleted, steady.upserted⟩
    exact kept.restored rfl

theorem enforce_succeeds (steady : Steady received root inputs state) (watched : Watched path)
    (archive : ∀ incoming, acting v = some incoming → IsArchivePath path)
    (quiet : Quiet inputs.buffers received path (root.file path, inputs.base.lookup path) v)
    (plain : options.writeConflictCopies = false) : ∃ next, enforce env options inputs path state v = .ok next := by
  have file := steady.files path watched
  have clear {stored : Stored Content} (present : root.file path = some stored) : state.tree.through path = false ∧
      path ∉ state.tree.directories := by
    have member : path ∈ state.tree.files.keys := (OrderedMap.mem_keys_iff _ _).mpr ⟨stored, file.trans present⟩
    exact ⟨state.tree.file_not_through member, state.tree.disjoint path member⟩
  cases v with
  | keep waits =>
    cases waits with
    | true => exact ⟨_, rfl⟩
    | false => exact ⟨_, rfl⟩
  | forget => exact ⟨_, rfl⟩
  | wait => exact ⟨_, rfl⟩
  | settled => exact ⟨_, rfl⟩
  | level incoming =>
    obtain ⟨⟨stored, present, near⟩, held⟩ : (∃ stored, root.file path = some stored ∧ Near stored incoming) ∧
        inputs.base.lookup path = some incoming := quiet
    have safe := (resolve_ok_iff state.tree pullPrefix path path).mpr ⟨archive incoming rfl, (clear present).1, rfl⟩
    have marked : setSafeFileMtime state.tree pullPrefix path incoming.mtimeMs = .ok (true, state.tree) := by
      unfold setSafeFileMtime
      rw [safe]
      have stat : state.tree.lstat path = .ok (.regular stored) :=
        SyncTree.lstat_ok_iff.mpr ⟨(clear present).1, by rw [SyncTree.stat, file, present]⟩
      exact bind_ok_iff.mpr ⟨path, rfl, bind_ok_iff.mpr ⟨_, stat, by
        dsimp only
        rw [if_pos (show |stored.mtimeMs.val - incoming.mtimeMs.val| ≤ mtimeToleranceMs from near)]
        rfl⟩⟩
    exact ⟨_, bind_ok_iff.mpr ⟨_, marked, rfl⟩⟩
  | look incoming =>
    obtain ⟨stored, present⟩ : ∃ stored, root.file path = some stored := quiet
    have probed : offlineSyncRegularFilePresent state.tree pullPrefix path = .ok true := by
      unfold offlineSyncRegularFilePresent
      have stat : state.tree.lstat path = .ok (.regular stored) :=
        SyncTree.lstat_ok_iff.mpr ⟨(clear present).1, by rw [SyncTree.stat, file, present]⟩
      exact bind_ok_iff.mpr ⟨path, throwing_ok_iff.mpr (validate_ok_iff.mpr ⟨archive incoming rfl, rfl⟩),
        bind_ok_iff.mpr ⟨_, stat, rfl⟩⟩
    exact ⟨_, bind_ok_iff.mpr ⟨_, probed, rfl⟩⟩
  | take incoming =>
    obtain ⟨_, _, content, known, side⟩ := quiet
    have present := (Prod.mk.inj side).1
    obtain ⟨written, done⟩ := SyncTree.write_ok (clear present).1 (clear present).2 ⟨content, incoming.mtimeMs⟩
    have required : requiredBuffer inputs path = .ok content := by
      unfold requiredBuffer
      rw [known]
    exact ⟨_, bind_ok_iff.mpr ⟨content, required, bind_ok_iff.mpr
      ⟨written, writeSafeFile_ok_iff.mpr ⟨archive incoming rfl, done⟩, rfl⟩⟩⟩
  | drop => exact absurd quiet id
  | contest report =>
    have buffer : conflictIncomingBuffer options inputs report.path = .ok none := by
      unfold conflictIncomingBuffer
      rw [plain]
      rfl
    have conflicted : pullConflict env options inputs report state = .ok (state.conflicted (report, state.tree)) :=
      bind_ok_iff.mpr ⟨none, buffer, rfl⟩
    exact ⟨_, bind_ok_iff.mpr ⟨_, conflicted, rfl⟩⟩
  | contestAbsent report => exact ⟨_, rfl⟩

theorem reports_pullRun {paths : List JsString}
    (ended : (runSteps (mergePath env options inputs routing) paths state).2 = none) :
    (runSteps (mergePath env options inputs routing) paths state).1.conflicts.map unstamped =
      (state.conflicts ++ paths.flatMap fun path => contested (verdict inputs routing path)).map unstamped := by
  induction paths generalizing state with
  | nil => simp [runSteps]
  | cons path rest ih =>
    cases round : mergePath env options inputs routing path state with
    | error failure =>
      rw [runSteps_cons_error round] at ended
      cases ended
    | ok next =>
      rw [runSteps_cons_ok round] at ended ⊢
      rw [mergePath_eq] at round
      obtain ⟨reports, grown, named⟩ := enforce_reports round
      rw [ih ended, grown, flatMap_cons]
      simp only [map_append, named, append_assoc]

end SecondPull

end Remnic.OfflineSync.SecondPull
