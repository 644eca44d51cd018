import Remnic.OfflineSync.Pull

/-! A pull followed by the push of what it leaves: no edit of either side is lost. -/

namespace Remnic.OfflineSync.ThreeWay
open Library Library.AppendNew Library.GuardedFold Library.LocalSteps Text.CodeUnits Reconcile.Census Paths SyncRoot List OrderedMap
open Changeset Patch Receive FaithfulPatch Snapshot PullVerdict Pull

variable {Content : Type}

/-- A base, a local root and a remote root of ordinary files, with the remote's snapshot. -/
structure Merge (Content : Type) where
  localEnv : Environment Content
  remoteEnv : Environment Content
  digests : remoteEnv.hashing = localEnv.hashing
  pullGenerations : SnapshotGenerations Content
  pushGenerations : ChangesetGenerations Content
  localRoot : SyncTree Content
  remoteRoot : SyncTree Content
  snapshot : OfflineSyncSnapshot Content
  options : PullOptions Content
  sourceId : JsString
  deletions : Option (List OfflineSyncDeletionRevision)
  excludePaths : List JsString
  userExcludes : UserExcludes
  applyOptions : ApplyOptions
  ownCensus : applyOptions.currentFiles = none
  baseOrdinary : ∀ file ∈ options.baseFiles, Ordinary snapshot.includeTranscripts file.path
  remoteOrdinary : ∀ record ∈ snapshot.files, Ordinary snapshot.includeTranscripts record.state.path
  localOrdinary : ∀ path ∈ localRoot.files.keys,
    walked (fun other => shouldExcludeRelPath other snapshot.includeTranscripts) path = true →
      Ordinary snapshot.includeTranscripts path
  handedOrdinary : ∀ files, options.currentFiles = some files → ∀ file ∈ files,
    Ordinary snapshot.includeTranscripts file.path
  handedTruthful : ∀ files, options.currentFiles = some files → ∀ path, Ordinary snapshot.includeTranscripts path →
    shaAt (byPath files) path = (contentAt localRoot path).map localEnv.hashing.sha256
  snapshotOfRemote : ∀ path, Ordinary snapshot.includeTranscripts path →
    shaAt (byPath (snapshot.files.map OfflineSyncFileRecord.state)) path =
      (contentAt remoteRoot path).map localEnv.hashing.sha256

namespace Merge

variable (merge : Merge Content)

def ordinary (path : JsString) : Prop := Ordinary merge.snapshot.includeTranscripts path

def baseSha (path : JsString) : Option Sha256 := shaAt (byPath merge.options.baseFiles) path

def localSha (path : JsString) : Option Sha256 := (contentAt merge.localRoot path).map merge.localEnv.hashing.sha256

def remoteSha (path : JsString) : Option Sha256 := (contentAt merge.remoteRoot path).map merge.localEnv.hashing.sha256

def pull : SyncTree Content × Except Failure ApplySnapshotResult :=
  applyOfflineSyncSnapshot merge.localEnv merge.pullGenerations merge.localRoot merge.options merge.snapshot

/-- The arguments of the push: the files that the pull left and the base that it returned. -/
def pushOptions (nextBaseFiles : List OfflineSyncFileState) : BuildOptions where
  sourceId := merge.sourceId
  currentFiles := census merge.localEnv.tables merge.localEnv.hashing
    (fun path => shouldExcludePushRelPath path merge.snapshot.includeTranscripts merge.userExcludes) merge.pull.1
  baseFiles := nextBaseFiles
  deletions := merge.deletions
  excludePaths := merge.excludePaths
  includeTranscripts := merge.snapshot.includeTranscripts
  userExcludes := merge.userExcludes

def pushed (nextBaseFiles : List OfflineSyncFileState) : SyncTree Content :=
  match buildOfflineSyncChangesetFromSnapshot merge.localEnv merge.pull.1 (merge.pushOptions nextBaseFiles) with
  | .error _ => merge.remoteRoot
  | .ok changeset => (applyOfflineSyncChangeset merge.remoteEnv merge.pushGenerations merge.remoteRoot
      merge.applyOptions changeset).1

end Merge

variable {includeTranscripts : Bool}

theorem watched_of_included {path : JsString} (included : shouldExcludeRelPath path includeTranscripts = false) : Watched path := by
  refine Bool.eq_false_iff.mpr fun excluded => ?_
  rw [excluded_without_transcripts excluded includeTranscripts] at included
  cases included

theorem filter_ordinary {files : List OfflineSyncFileState} (ordinary : ∀ file ∈ files, Ordinary includeTranscripts file.path) :
    filterBaseFilesForMode files includeTranscripts = files := by
  refine filter_eq_self.mpr fun file member => ?_
  rw [(ordinary file member).included]
  rfl

namespace Merge

variable {merge : Merge Content} {inputs : PullInputs Content} {routing : PullRouting} {start : PullState Content}
  {path : JsString}

variable {files : List OfflineSyncFileState}

theorem ordinary_of_current
    (read : pullCurrentFiles merge.localEnv merge.localRoot merge.options merge.snapshot.includeTranscripts = .ok files)
    {file : OfflineSyncFileState} (member : file ∈ files) : merge.ordinary file.path := by
  unfold pullCurrentFiles at read
  cases handed : merge.options.currentFiles with
  | some given =>
    rw [handed] at read
    obtain ⟨checked, accepted, shape⟩ := bind_ok_iff.mp read
    obtain ⟨_, same⟩ := (normalizeFileStates_ok_iff _ _).mp accepted
    rw [pure_ok_iff.mp shape, same] at member
    exact merge.handedOrdinary given handed file (mem_filter.mp member).1
  | none =>
    rw [handed] at read
    rw [← Except.ok.inj read] at member
    obtain ⟨seen, stored, present, _⟩ := census_path.mp member
    exact merge.localOrdinary file.path ((mem_keys_iff _ _).mpr ⟨stored, present⟩) seen

theorem sha_of_current
    (read : pullCurrentFiles merge.localEnv merge.localRoot merge.options merge.snapshot.includeTranscripts = .ok files)
    (ordinary : merge.ordinary path) : shaAt (byPath files) path = merge.localSha path := by
  unfold pullCurrentFiles at read
  cases handed : merge.options.currentFiles with
  | some given =>
    rw [handed] at read
    obtain ⟨checked, accepted, shape⟩ := bind_ok_iff.mp read
    obtain ⟨_, same⟩ := (normalizeFileStates_ok_iff _ _).mp accepted
    rw [pure_ok_iff.mp shape, same, filter_ordinary (merge.handedOrdinary given handed)]
    exact merge.handedTruthful given handed path ordinary
  | none =>
    rw [handed] at read
    rw [← Except.ok.inj read]
    exact shaAt_census (fun _ _ => Iff.rfl) ordinary.seen

theorem prepared (ready : preparePull merge.localEnv merge.pullGenerations merge.localRoot merge.options merge.snapshot =
    .ok (inputs, routing, start)) :
    PullPrepared merge.localEnv merge.localRoot merge.options merge.snapshot inputs routing start := by
  refine preparePull_ok ?_ ?_ ?_ ?_ ready
  · intro record member
    refine Bool.eq_false_iff.mpr fun ignored => ?_
    have hidden := excluded_of_ignored ignored merge.snapshot.includeTranscripts
    rw [(merge.remoteOrdinary record member).included] at hidden
    cases hidden
  · exact fun file member => (merge.baseOrdinary file member).plain.notGeneration
  · exact fun record member => (merge.remoteOrdinary record member).plain.notGeneration
  · exact fun files read file member => (ordinary_of_current read member).plain.notGeneration

section Prepared

variable (ready : PullPrepared merge.localEnv merge.localRoot merge.options merge.snapshot inputs routing start)

include ready

theorem sha_base : shaAt inputs.base path = merge.baseSha path := by
  rw [ready.base, filter_ordinary merge.baseOrdinary]
  rfl

theorem sha_incoming (ordinary : merge.ordinary path) : shaAt inputs.incoming path = merge.remoteSha path := by
  unfold shaAt
  rw [ready.incoming path]
  exact merge.snapshotOfRemote path ordinary

theorem sha_current (ordinary : merge.ordinary path) : shaAt inputs.current path = merge.localSha path := by
  obtain ⟨files, read, same⟩ := ready.current
  rw [same]
  exact sha_of_current read ordinary

theorem ordinary_of_listed (listed : path ∈ pullPaths inputs) : merge.ordinary path := by
  obtain ⟨keys, among, member⟩ := (mem_unionPaths _).mp listed
  rw [mem_cons, mem_cons, mem_singleton] at among
  rcases among with base | incoming | current
  · rw [base, ready.base, mem_keys_iff] at member
    obtain ⟨file, found⟩ := member
    obtain ⟨inside, same⟩ := lookup_byPath found
    exact same ▸ merge.baseOrdinary file (mem_filter.mp inside).1
  · rw [incoming, mem_keys_iff] at member
    obtain ⟨file, found⟩ := member
    rw [ready.incoming path] at found
    obtain ⟨inside, same⟩ := lookup_byPath found
    obtain ⟨record, held, shape⟩ := mem_map.mp inside
    exact same ▸ shape ▸ merge.remoteOrdinary record held
  · obtain ⟨files, read, same⟩ := ready.current
    rw [current, same, mem_keys_iff] at member
    obtain ⟨file, found⟩ := member
    obtain ⟨inside, named⟩ := lookup_byPath found
    exact named ▸ ordinary_of_current read inside

omit ready in
theorem same_of_side {before after : PullState Content} (same : sideAt path after = sideAt path before) :
    contentAt after.tree path = contentAt before.tree path ∧ shaAt after.nextBase path = shaAt before.nextBase path :=
  ⟨content_of_side same, sha_of_side same⟩

theorem ready_round (ordinary : merge.ordinary path) {before : PullState Content}
    (seen : sideAt path before = sideAt path start) : Ready merge.localEnv inputs path before where
  watched := watched_of_included ordinary.included
  plain := ordinary.plain
  shared := ordinary.shared
  seen := by
    rw [sha_current ready ordinary, (same_of_side seen).1, ready.root]
    rfl
  fresh := (congrArg Prod.snd seen).trans (congrArg (OrderedMap.lookup · path) ready.fresh)
  carried := ready.carried path

theorem kept_pullRun (ordinary : merge.ordinary path) (edited : merge.localSha path ≠ merge.baseSha path) :
    contentAt (pullRun merge.localEnv merge.options inputs routing start).1.tree path =
      contentAt merge.localRoot path := by
  have begun : contentAt start.tree path = contentAt merge.localRoot path := by rw [ready.root]
  rcases kept_or_stepped (mergePath_sides merge.localEnv merge.options inputs routing) (once_pullPaths inputs)
    (watched_of_included ordinary.included) start with kept | stepped
  · exact (same_of_side kept).1.trans begun
  · obtain ⟨key, _, named, before, after, seen, round, last⟩ := stepped
    have named : key = path := named
    rw [named] at round
    have merged := mergePath_merged (ready_round ready ordinary seen) ready.handled round
    rw [← sha_current ready ordinary, ← sha_base ready] at edited
    exact (same_of_side last).1.trans ((merged.kept edited).trans ((same_of_side seen).1.trans begun))

theorem based_pullRun (ordinary : merge.ordinary path)
    (ended : (pullRun merge.localEnv merge.options inputs routing start).2 = none) :
    shaAt (pullRun merge.localEnv merge.options inputs routing start).1.nextBase path = merge.baseSha path ∨
      shaAt (pullRun merge.localEnv merge.options inputs routing start).1.nextBase path =
        (contentAt (pullRun merge.localEnv merge.options inputs routing start).1.tree path).map
          merge.localEnv.hashing.sha256 := by
  have watched := watched_of_included ordinary.included
  have confined := mergePath_sides merge.localEnv merge.options inputs routing
  by_cases listed : path ∈ pullPaths inputs
  · obtain ⟨before, after, seen, round, last, _⟩ := stepped confined (once_pullPaths inputs) watched listed ended
    have merged := mergePath_merged (ready_round ready ordinary seen) ready.handled round
    obtain ⟨content, base⟩ := same_of_side last
    rw [← sha_base ready]
    rcases merged.based with old | now
    · exact .inl (base.trans old)
    · exact .inr (base.trans (now.trans (congrArg _ content).symm))
  · have absent : path ∉ (pullPaths inputs).map id := by rwa [map_id]
    have same := untouched confined watched absent start
    refine .inl ((same_of_side same).2.trans ?_)
    rw [← sha_base ready, ready.fresh]

theorem reported_pullRun (ordinary : merge.ordinary path) (undeferred : path ∉ merge.options.deferredPaths)
    (ended : (pullRun merge.localEnv merge.options inputs routing start).2 = none)
    (edited : merge.localSha path ≠ merge.baseSha path) (changed : merge.remoteSha path ≠ merge.baseSha path)
    (apart : merge.localSha path ≠ merge.remoteSha path) :
    ∃ report ∈ (pullRun merge.localEnv merge.options inputs routing start).1.conflicts, report.path = path := by
  rw [← sha_current ready ordinary, ← sha_base ready] at edited
  rw [← sha_incoming ready ordinary, ← sha_base ready] at changed
  rw [← sha_current ready ordinary, ← sha_incoming ready ordinary] at apart
  have listed : path ∈ pullPaths inputs := by
    rw [pullPaths, mem_unionPaths]
    by_cases known : shaAt inputs.base path = none
    · exact ⟨_, by simp, mem_keys_of_shaAt fun absent => edited (absent.trans known.symm)⟩
    · exact ⟨_, by simp, mem_keys_of_shaAt known⟩
  obtain ⟨before, after, seen, round, _, later, tail⟩ :=
    stepped (mergePath_sides merge.localEnv merge.options inputs routing) (once_pullPaths inputs)
      (watched_of_included ordinary.included) listed ended
  have merged := mergePath_merged (ready_round ready ordinary seen) ready.handled round
  obtain ⟨report, member, named⟩ := merged.reported (ready.deferred ▸ undeferred) edited changed apart
  refine ⟨report, ?_, named⟩
  unfold pullRun
  rw [tail]
  exact reports_runSteps later after member

end Prepared

section Pushing

variable {result : ApplySnapshotResult}
  (ready : PullPrepared merge.localEnv merge.localRoot merge.options merge.snapshot inputs routing start)
  (root : merge.pull.1 = (pullRun merge.localEnv merge.options inputs routing start).1.tree)
  (bases : result.nextBaseFiles = ((pullRun merge.localEnv merge.options inputs routing start).1.nextBase.entries.map
    Prod.snd).mergeSort (compareByPath merge.localEnv.tables))

include ready

theorem keyed_nextBase (path : JsString) (file : OfflineSyncFileState)
    (found : (pullRun merge.localEnv merge.options inputs routing start).1.nextBase.lookup path = some file) :
    file.path = path ∧ merge.ordinary path := by
  have listed : path ∈ inputs.base.keys ∨ path ∈ inputs.incoming.keys := by
    rw [mem_keys_iff, mem_keys_iff]
    exact (entries_pullRun ready.fresh path file found).imp (fun known => ⟨file, known⟩) fun known => ⟨file, known⟩
  refine ⟨?_, ordinary_of_listed ready ?_⟩
  · rcases entries_pullRun ready.fresh path file found with base | incoming
    · rw [ready.base] at base
      exact (lookup_byPath base).2
    · rw [ready.incoming path] at incoming
      exact (lookup_byPath incoming).2
  · rw [pullPaths, mem_unionPaths]
    exact listed.elim (fun known => ⟨_, by simp, known⟩) fun known => ⟨_, by simp, known⟩

include bases

theorem nextBase_ordinary {file : OfflineSyncFileState} (member : file ∈ result.nextBaseFiles) :
    merge.ordinary file.path := by
  rw [bases, mem_mergeSort] at member
  obtain ⟨entry, inside, shape⟩ := mem_map.mp member
  have found := (lookup_eq_some_iff _ _ _).mpr inside
  obtain ⟨named, ordinary⟩ := keyed_nextBase ready entry.1 entry.2 found
  rw [← shape, named]
  exact ordinary

theorem sha_nextBase (path : JsString) : shaAt (baseOf (merge.pushOptions result.nextBaseFiles)) path =
    shaAt (pullRun merge.localEnv merge.options inputs routing start).1.nextBase path := by
  have all : filterBaseFilesForMode result.nextBaseFiles merge.snapshot.includeTranscripts = result.nextBaseFiles :=
    filter_ordinary fun file member => nextBase_ordinary ready bases member
  have shape : baseOf (merge.pushOptions result.nextBaseFiles) = byPath result.nextBaseFiles := congrArg byPath all
  unfold shaAt
  rw [shape, bases, lookup_byPath_values fun path file found => (keyed_nextBase ready path file found).1]

include root

/-- A pushed path is ordinary: the pull brings no other file to a place that the walk of a push reaches. -/
theorem ordinary_of_pushed (listed : path ∈ (baseOf (merge.pushOptions result.nextBaseFiles)).keys ∨
    path ∈ (currentOf (merge.pushOptions result.nextBaseFiles)).keys) : merge.ordinary path := by
  rcases listed with base | current
  · obtain ⟨file, found⟩ := (mem_keys_iff _ _).mp base
    obtain ⟨member, same⟩ := lookup_byPath found
    exact same ▸ nextBase_ordinary ready bases (mem_filter.mp member).1
  · obtain ⟨file, found⟩ := (mem_keys_iff _ _).mp current
    obtain ⟨member, same⟩ := lookup_byPath found
    obtain ⟨seen, stored, present, _⟩ := census_path.mp (mem_filter.mp member).1
    rw [same] at seen present
    by_cases merged : path ∈ pullPaths inputs
    · exact ordinary_of_listed ready merged
    have hidden := kept_of_pushed (not_excluded_of_walked seen)
    have absent : path ∉ (pullPaths inputs).map id := by rwa [map_id]
    have same := untouched (mergePath_sides merge.localEnv merge.options inputs routing) (watched_of_included hidden)
      absent start
    have content : contentAt merge.pull.1 path = contentAt merge.localRoot path := by
      rw [root, ← ready.root]
      exact (same_of_side same).1
    have held : contentAt merge.localRoot path = some stored.content := by
      rw [← content, contentAt, present]
      rfl
    obtain ⟨before, known, _⟩ := Option.map_eq_some_iff.mp held
    refine merge.localOrdinary path ((mem_keys_iff _ _).mpr ⟨before, known⟩) ?_
    exact walked_of_pushed seen

theorem kept_pushed (ended : (pullRun merge.localEnv merge.options inputs routing start).2 = none)
    (ordinary : merge.ordinary path) (changed : merge.remoteSha path ≠ merge.baseSha path) :
    contentAt (merge.pushed result.nextBaseFiles) path = contentAt merge.remoteRoot path := by
  unfold pushed
  cases done : buildOfflineSyncChangesetFromSnapshot merge.localEnv merge.pull.1
      (merge.pushOptions result.nextBaseFiles) with
  | error failure => rfl
  | ok changeset =>
    have built := build_ok done
    have plain : ∀ change ∈ changeset.changes, IsPlain change.path := by
      intro change member
      have differs := differs_of_contributes (built.comes change member).2.2
      refine (ordinary_of_pushed ready root bases ?_).plain
      by_cases known : shaAt (baseOf (merge.pushOptions result.nextBaseFiles)) change.path = none
      · exact .inr (mem_keys_of_shaAt fun absent => differs (absent.trans known.symm))
      · exact .inl (mem_keys_of_shaAt known)
    rcases apply_keeps merge.remoteEnv merge.pushGenerations merge.remoteRoot
      merge.ownCensus (fun change member => (plain change member).notGeneration)
      (fun change member => (plain change member).notMarker) (watched_of_included ordinary.included) with kept | followed
    · exact kept
    · obtain ⟨change, member, named, same⟩ := followed
      obtain ⟨from', to', differs⟩ := shas_of_contributes (built.comes change member).2.2
      rw [sha_nextBase ready bases, named] at from'
      rw [named, root] at to'
      have digest : merge.remoteSha path = Receive.baseSha change := by
        rw [merge.digests] at same
        exact same
      rcases based_pullRun ready ordinary ended with old | now
      · exact absurd (digest.trans (from'.trans old)) changed
      · exact absurd (to'.trans (now.symm.trans from'.symm)) differs

end Pushing

/-- Whatever the pull and the push come to, a content that differs from the base stays where it is, on both sides;
and a pull that returns reports each path that the two sides changed apart. -/
theorem merge_loses_nothing (merge : Merge Content) (path : JsString) (ordinary : merge.ordinary path) :
    (merge.localSha path ≠ merge.baseSha path → contentAt merge.pull.1 path = contentAt merge.localRoot path) ∧
      ∀ result, merge.pull.2 = .ok result →
        (merge.remoteSha path ≠ merge.baseSha path →
          contentAt (merge.pushed result.nextBaseFiles) path = contentAt merge.remoteRoot path) ∧
        (path ∉ merge.options.deferredPaths → merge.localSha path ≠ merge.baseSha path →
          merge.remoteSha path ≠ merge.baseSha path → merge.localSha path ≠ merge.remoteSha path →
          ∃ report ∈ result.conflicts, report.path = path) := by
  rcases pull_runs merge.localEnv merge.pullGenerations merge.localRoot merge.options merge.snapshot with refused | ran
  · obtain ⟨root, failure, failed⟩ := refused
    refine ⟨fun _ => congrArg (contentAt · path) root, fun result done => ?_⟩
    cases failed.symm.trans done
  · obtain ⟨inputs, routing, start, done, root, returns⟩ := ran
    have ready := prepared done
    constructor
    · intro edited
      rw [show merge.pull.1 = _ from root]
      exact kept_pullRun ready ordinary edited
    · intro result returned
      obtain ⟨ended, conflicts, bases⟩ := returns result returned
      refine ⟨kept_pushed ready root bases ended ordinary, fun undeferred edited changed apart => ?_⟩
      rw [conflicts]
      exact reported_pullRun ready ordinary undeferred ended edited changed apart

end Merge

theorem sample_ordinary {path : JsString} (named : path = upperCaseName ∨ path = lowerCaseName) : Ordinary true path := by
  have upper : Ordinary true upperCaseName := ⟨sample_pushable.1.1, by decide +kernel, walked_of_pushed sample_pushable.1.2⟩
  have lower : Ordinary true lowerCaseName := ⟨sample_pushable.2.1, by decide +kernel, walked_of_pushed sample_pushable.2.2⟩
  exact named.elim (fun same => same ▸ upper) fun same => same ▸ lower

def sampleSnapshot (root : SyncTree Sha256) : OfflineSyncSnapshot Sha256 where
  sourceId := text "server"
  includeTranscripts := true
  files := (census sampleEnvironment.tables sampleEnvironment.hashing everything root).map
    fun state => ⟨state, some state.sha256⟩

theorem states_sampleSnapshot (root : SyncTree Sha256) : (sampleSnapshot root).files.map OfflineSyncFileRecord.state =
    census sampleEnvironment.tables sampleEnvironment.hashing everything root := by
  unfold sampleSnapshot
  rw [map_map]
  exact map_id _

theorem paths_sampleSnapshot {root : SyncTree Sha256} {path : JsString} (member : path ∈ root.files.keys) :
    path ∈ (sampleSnapshot root).paths := by
  obtain ⟨stored, present⟩ := (mem_keys_iff _ _).mp member
  unfold OfflineSyncSnapshot.paths
  rw [states_sampleSnapshot]
  exact mem_map.mpr ⟨sampleEnvironment.hashing.stateOf path stored,
    census_path.mpr ⟨walked_everything path, stored, present, rfl⟩, rfl⟩

/-- A pull and a push between two roots of files with the sample's names. -/
def sampleMerge (base : List OfflineSyncFileState) (localRoot remoteRoot : SyncTree Sha256)
    (bases : ∀ file ∈ base, file.path = upperCaseName ∨ file.path = lowerCaseName)
    (locals : ∀ path ∈ localRoot.files.keys, path = upperCaseName ∨ path = lowerCaseName)
    (remotes : ∀ path ∈ remoteRoot.files.keys, path = upperCaseName ∨ path = lowerCaseName) : Merge Sha256 where
  localEnv := sampleEnvironment
  remoteEnv := sampleEnvironment
  digests := rfl
  pullGenerations := ⟨fun _ => [], fun inputs tree =>
    .ok ([], inputs.deferredPaths.filterMap embeddingGenerationMembership, tree), fun _ _ _ => ⟨rfl, rfl⟩⟩
  pushGenerations := caseRename.generations
  localRoot := localRoot
  remoteRoot := remoteRoot
  snapshot := sampleSnapshot remoteRoot
  options := { baseFiles := base }
  sourceId := text "laptop"
  deletions := none
  excludePaths := []
  userExcludes := everything
  applyOptions := caseRename.applyOptions
  ownCensus := caseRename.ownCensus
  baseOrdinary := fun file member => sample_ordinary (bases file member)
  remoteOrdinary := by
    intro record member
    obtain ⟨state, listed, shape⟩ := mem_map.mp member
    obtain ⟨_, stored, present, _⟩ := census_path.mp listed
    rw [← shape]
    exact sample_ordinary (remotes state.path ((mem_keys_iff _ _).mpr ⟨stored, present⟩))
  localOrdinary := fun path member _ => sample_ordinary (locals path member)
  handedOrdinary := fun _ handed => by cases handed
  handedTruthful := fun _ handed => by cases handed
  snapshotOfRemote := by
    intro path _
    rw [states_sampleSnapshot]
    exact shaAt_census (fun _ _ => Iff.rfl) (walked_everything path)

def oneFile (content : Sha256) : SyncTree Sha256 :=
  flatRoot ⟨[(lowerCaseName, { sampleText with content := content })], nodup_singleton _⟩ fun path member => by
    rw [show path = lowerCaseName from mem_singleton.mp member]
    decide +kernel

theorem named_oneFile {content : Sha256} {path : JsString} (member : path ∈ (oneFile content).files.keys) :
    path = upperCaseName ∨ path = lowerCaseName := .inr (mem_singleton.mp member)

def bothEdited : Merge Sha256 :=
  sampleMerge [⟨lowerCaseName, digestC, 1, sampleText.mtimeMs⟩] (oneFile digestA) (oneFile digestB)
    (fun file member => .inr (by rw [mem_singleton.mp member])) (fun _ => named_oneFile) fun _ => named_oneFile

theorem bothEdited_loses_nothing :
    contentAt bothEdited.pull.1 lowerCaseName = some digestA ∧ ∃ result, bothEdited.pull.2 = .ok result ∧
      contentAt (bothEdited.pushed result.nextBaseFiles) lowerCaseName = some digestB ∧
      ∃ report ∈ result.conflicts, report.path = lowerCaseName := by
  obtain ⟨locals, returns⟩ := Merge.merge_loses_nothing bothEdited lowerCaseName (sample_ordinary (.inr rfl))
  have edited : bothEdited.localSha lowerCaseName ≠ bothEdited.baseSha lowerCaseName := by decide +kernel
  have changed : bothEdited.remoteSha lowerCaseName ≠ bothEdited.baseSha lowerCaseName := by decide +kernel
  have apart : bothEdited.localSha lowerCaseName ≠ bothEdited.remoteSha lowerCaseName := by decide +kernel
  have accepted : bothEdited.pull.2.isOk = true := by decide +kernel
  refine ⟨(locals edited).trans (by decide +kernel), ?_⟩
  cases returned : bothEdited.pull.2 with
  | error failure =>
    rw [returned] at accepted
    cases accepted
  | ok result =>
    obtain ⟨remotes, reports⟩ := returns result returned
    exact ⟨result, rfl, (remotes changed).trans (by decide +kernel),
      reports not_mem_nil edited changed apart⟩

def twinRoot : SyncTree Sha256 :=
  flatRoot ⟨[(lowerCaseName, { sampleText with content := digestB }), (upperCaseName, { sampleText with content := digestC })],
    by decide +kernel⟩ (by decide +kernel)

/-- A file that both sides created, beside a remote file whose name differs from its own by case. -/
def caseTwins : Merge Sha256 :=
  sampleMerge [] (oneFile digestA) twinRoot (fun _ member => absurd member not_mem_nil) (fun _ => named_oneFile)
    fun path member => by
      have listed : path ∈ [lowerCaseName, upperCaseName] := member
      rw [mem_cons, mem_singleton] at listed
      exact listed.symm

/-- The pull refuses the snapshot as a whole, so the path that both sides created apart is reported nowhere. -/
theorem caseTwins_unreported :
    caseTwins.ordinary lowerCaseName ∧ lowerCaseName ∉ caseTwins.options.deferredPaths ∧
      caseTwins.localSha lowerCaseName ≠ caseTwins.baseSha lowerCaseName ∧
      caseTwins.remoteSha lowerCaseName ≠ caseTwins.baseSha lowerCaseName ∧
      caseTwins.localSha lowerCaseName ≠ caseTwins.remoteSha lowerCaseName ∧
      ¬∃ result, caseTwins.pull.2 = .ok result ∧ ∃ report ∈ result.conflicts, report.path = lowerCaseName := by
  refine ⟨sample_ordinary (.inr rfl), not_mem_nil, by decide +kernel, by decide +kernel, by decide +kernel, ?_⟩
  intro reported
  obtain ⟨result, returned, _⟩ := reported
  rcases pull_runs caseTwins.localEnv caseTwins.pullGenerations caseTwins.localRoot caseTwins.options
    caseTwins.snapshot with refused | ran
  · obtain ⟨_, failure, failed⟩ := refused
    cases failed.symm.trans returned
  · obtain ⟨inputs, routing, start, done, _⟩ := ran
    have unique := (Merge.prepared done).unique
    have lower : lowerCaseName ∈ (sampleSnapshot twinRoot).paths := paths_sampleSnapshot (by decide +kernel)
    have upper : upperCaseName ∈ (sampleSnapshot twinRoot).paths := paths_sampleSnapshot (by decide +kernel)
    exact absurd (inj_on_of_nodup_map unique lower upper (by decide +kernel)) (by decide)

end Remnic.OfflineSync.ThreeWay
