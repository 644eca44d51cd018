import Remnic.OfflineSync.PullVerdict

/-! What the merge of a snapshot does to one path, and to every other. -/

namespace Remnic.OfflineSync.Pull
open Library Library.AppendNew Library.GuardedFold Library.LocalSteps Text.CodeUnits Reconcile.Census Paths SyncRoot List
open Changeset Patch Receive FaithfulPatch Snapshot PullVerdict

variable {Content : Type}

section Rounds

variable {env : Environment Content} {options : PullOptions Content} {inputs : PullInputs Content}
  {routing : PullRouting} {path : JsString} {state next : PullState Content}

theorem mergePath_sides (env : Environment Content) (options : PullOptions Content) (inputs : PullInputs Content)
    (routing : PullRouting) : Local id sideAt Watched (mergePath env options inputs routing) := by
  intro path state next done other watched different
  rw [mergePath_eq] at done
  exact enforce_frame done other watched different

theorem mergePath_entries (done : mergePath env options inputs routing path state = .ok next) (other : JsString)
    (file : OfflineSyncFileState) (found : next.nextBase.lookup other = some file) : state.nextBase.lookup other = some file ∨
      inputs.base.lookup other = some file ∨ inputs.incoming.lookup other = some file := by
  rw [mergePath_eq] at done
  rcases enforce_base done with same | ⟨base, same, known⟩
  · exact .inl (same ▸ found)
  rw [same] at found
  have side := sideAt_restoreBase state path base other
  by_cases here : other = path
  · subst here
    rw [if_pos rfl] at side
    exact .inr ((known file ((congrArg Prod.snd side).symm.trans found)).imp_right listed_of_acting)
  · rw [if_neg here] at side
    exact .inl ((congrArg Prod.snd side).symm.trans found)

theorem mergePath_reports (done : mergePath env options inputs routing path state = .ok next) :
    state.conflicts ⊆ next.conflicts := by
  rw [mergePath_eq] at done
  obtain ⟨reports, shape, _⟩ := enforce_reports done
  exact shape ▸ subset_append_left _ _

end Rounds

/-- An ordinary path: no runtime state, no node-local exclude, no generation member, and seen by a census. -/
structure Ordinary (includeTranscripts : Bool) (path : JsString) : Prop where
  plain : IsPlain path
  shared : matchesOfflineSyncDefaultExclude path = false
  seen : walked (fun other => shouldExcludeRelPath other includeTranscripts) path = true

variable {includeTranscripts : Bool}

theorem Ordinary.included {path : JsString} (ordinary : Ordinary includeTranscripts path) :
    shouldExcludeRelPath path includeTranscripts = false := not_excluded_of_walked ordinary.seen

theorem walked_of_pushed {path : JsString} {userExcludes : UserExcludes}
    (seen : walked (fun other => shouldExcludePushRelPath other includeTranscripts userExcludes) path = true) :
    walked (fun other => shouldExcludeRelPath other includeTranscripts) path = true := by
  unfold walked at seen ⊢
  simp only [Bool.and_eq_true, Bool.not_eq_true', all_eq_true] at seen ⊢
  exact ⟨kept_of_pushed seen.1, fun above member => kept_of_pushed (seen.2 above member)⟩

/-- What a round does at its own path: an edited content stays, the next base is the old one or what is there now,
and a path that both sides changed apart is reported. -/
structure Merged (env : Environment Content) (inputs : PullInputs Content) (routing : PullRouting) (path : JsString)
    (state next : PullState Content) : Prop where
  kept : shaAt inputs.current path ≠ shaAt inputs.base path → contentAt next.tree path = contentAt state.tree path
  based : shaAt next.nextBase path = shaAt inputs.base path ∨
    shaAt next.nextBase path = (contentAt next.tree path).map env.hashing.sha256
  reported : path ∉ routing.deferredPaths → shaAt inputs.current path ≠ shaAt inputs.base path →
    shaAt inputs.incoming path ≠ shaAt inputs.base path → shaAt inputs.current path ≠ shaAt inputs.incoming path →
    ∃ report ∈ next.conflicts, report.path = path

section OwnPath

variable {env : Environment Content} {options : PullOptions Content} {inputs : PullInputs Content}
  {routing : PullRouting} {path : JsString} {state next : PullState Content} {incoming : OfflineSyncFileState}

theorem content_of_side {side : Option (Stored Content) × Option OfflineSyncFileState} (same : sideAt path state = side) :
    contentAt state.tree path = side.1.map Stored.content :=
  congrArg (fun side => side.1.map Stored.content) same

theorem sha_of_side {side : Option (Stored Content) × Option OfflineSyncFileState} (same : sideAt path state = side) :
    shaAt state.nextBase path = side.2.map OfflineSyncFileState.sha256 :=
  congrArg (fun side => side.2.map OfflineSyncFileState.sha256) same

theorem merged_settled (side : sideAt path next = (state.tree.file path, inputs.base.lookup path))
    (agreed : path ∈ routing.deferredPaths ∨ shaAt inputs.current path = shaAt inputs.base path ∨
      shaAt inputs.incoming path = shaAt inputs.base path ∨ ∃ report ∈ next.conflicts, report.path = path) :
    Merged env inputs routing path state next where
  kept := fun _ => content_of_side side
  based := .inl (sha_of_side side)
  reported := by
    intro undeferred edited changed apart
    rcases agreed with held | unedited | unchanged | reported
    · exact absurd held undeferred
    · exact absurd unedited edited
    · exact absurd unchanged changed
    · exact reported

theorem merged_unedited (unedited : shaAt inputs.current path = shaAt inputs.base path)
    (based : shaAt next.nextBase path = (contentAt next.tree path).map env.hashing.sha256) :
    Merged env inputs routing path state next where
  kept := fun edited => absurd unedited edited
  based := .inr based
  reported := fun _ edited => absurd unedited edited

structure Ready (env : Environment Content) (inputs : PullInputs Content) (path : JsString) (state : PullState Content) :
    Prop where
  watched : Watched path
  plain : IsPlain path
  shared : matchesOfflineSyncDefaultExclude path = false
  seen : shaAt inputs.current path = (contentAt state.tree path).map env.hashing.sha256
  fresh : state.nextBase.lookup path = inputs.base.lookup path
  carried : ∀ content, inputs.buffers.lookup path = some content →
    shaAt inputs.incoming path = some (env.hashing.sha256 content)

variable (ready : Ready env inputs path state)
include ready

theorem merged_taken (arrives : shaAt inputs.incoming path = some incoming.sha256)
    (unedited : shaAt inputs.current path = shaAt inputs.base path) (taken : Taken inputs path incoming (sideAt path next)) :
    Merged env inputs routing path state next := by
  obtain ⟨content, known, side⟩ := taken
  refine merged_unedited unedited ?_
  rw [sha_of_side side, content_of_side side]
  exact arrives.symm.trans (ready.carried content known)

/-- A round that leaves the content, and the base at what both sides have now. -/
theorem merged_agreed (content : contentAt next.tree path = contentAt state.tree path)
    (base : shaAt next.nextBase path = shaAt inputs.current path)
    (agreed : shaAt inputs.current path = shaAt inputs.incoming path) : Merged env inputs routing path state next where
  kept := fun _ => content
  based := .inr (by rw [base, ready.seen, content])
  reported := fun _ _ _ apart => absurd agreed apart

theorem mergePath_merged (handled : routing.transactionHandled = [])
    (done : mergePath env options inputs routing path state = .ok next) : Merged env inputs routing path state next := by
  rw [mergePath_eq] at done
  have lands := enforce_lands done ready.watched ready.fresh fun incoming level => by
    obtain ⟨content, held, _⟩ := Option.map_eq_some_iff.mp (ready.seen.symm.trans (level_of_verdict level))
    obtain ⟨stored, found, _⟩ := Option.map_eq_some_iff.mp held
    exact ⟨stored, found⟩
  rcases verdict_cases inputs routing path with ⟨deferred, keeps⟩ | ⟨settled, _⟩ | ⟨incoming, listed, same⟩ | ⟨lacking, same⟩
  · rw [keeps] at lands
    exact merged_settled lands (.inl (deferred.resolve_right fun generation => generation ready.plain.notGeneration))
  · rw [handled] at settled
    cases settled
  · have arrives : shaAt inputs.incoming path = some incoming.sha256 := congrArg (Option.map _) listed
    have comes : Comes path (inputs.base.lookup path) (inputs.current.lookup path) incoming (verdict inputs routing path) :=
      same ▸ comes_verdictIncoming
    generalize verdict inputs routing path = v at comes lands done
    cases comes with
    | marker marker => cases ready.plain.notMarker.symm.trans marker
    | keep runtime | replace _ runtime => cases ready.plain.notRuntime.symm.trans runtime
    | level _ equal =>
      obtain ⟨⟨stored, file, content, _⟩, entry⟩ := lands
      refine merged_agreed ready ?_ (Eq.trans ?_ equal.symm) (Eq.trans equal arrives.symm)
      · exact (congrArg (Option.map Stored.content) file).trans content.symm
      · exact congrArg (Option.map OfflineSyncFileState.sha256) entry
    | look _ unedited =>
      rcases lands with ⟨_, side⟩ | taken
      · exact merged_settled side (.inr (.inl unedited))
      · exact merged_taken ready arrives unedited taken
    | take _ unedited => exact merged_taken ready arrives unedited lands
    | wait unchanged => exact merged_settled lands (.inr (.inr (.inl (arrives.trans unchanged))))
    | contest named =>
      exact merged_settled lands (.inr (.inr (.inr (named ▸ reported_of_contested done (mem_singleton_self _)))))
  · have removed : shaAt inputs.incoming path = none := congrArg (Option.map _) lacking
    have goes : Goes path (inputs.base.lookup path) (inputs.current.lookup path) (verdict inputs routing path) :=
      same ▸ goes_verdictAbsent
    generalize verdict inputs routing path = v at goes lands done
    cases goes with
    | forget gone =>
      have gone : shaAt inputs.current path = none := congrArg (Option.map OfflineSyncFileState.sha256)
        (gone.resolve_left fun excluded => Bool.noConfusion (ready.shared.symm.trans excluded))
      exact merged_agreed ready (content_of_side lands) ((sha_of_side lands).trans gone.symm) (gone.trans removed.symm)
    | wait held =>
      have fresh : shaAt inputs.base path = none := congrArg (Option.map OfflineSyncFileState.sha256)
        (held.resolve_left fun runtime => Bool.noConfusion (ready.plain.notRuntime.symm.trans runtime))
      exact merged_settled lands (.inr (.inr (.inl (removed.trans fresh.symm))))
    | drop free =>
      have unedited := free.resolve_left fun runtime => Bool.noConfusion (ready.plain.notRuntime.symm.trans runtime)
      exact merged_unedited unedited (by rw [sha_of_side lands, content_of_side lands]; rfl)
    | contest named =>
      exact merged_settled lands (.inr (.inr (.inr (named ▸ reported_of_contested done (mem_singleton_self _)))))

end OwnPath

section Preparing

variable {env : Environment Content} {generations : SnapshotGenerations Content} {tree : SyncTree Content}
  {options : PullOptions Content} {received : OfflineSyncSnapshot Content}

theorem normalizeFileRecord_ok_iff (record out : OfflineSyncFileRecord Content) (field : JsString) :
    normalizeFileRecord record field = .ok out ↔ IsArchivePath record.state.path ∧ out = record := by
  unfold normalizeFileRecord
  simp only [bind_ok_iff, normalizeFileState_ok_iff, pure_ok_iff]
  constructor
  · intro done
    obtain ⟨state, ⟨archive, same⟩, shape⟩ := done
    exact ⟨archive, by rw [shape, same]⟩
  · intro facts
    exact ⟨record.state, ⟨facts.1, rfl⟩, facts.2⟩

theorem normalizeOfflineSyncSnapshot_ok {snapshot : OfflineSyncSnapshot Content}
    (kept : ∀ record ∈ received.files, shouldIgnoreIncomingRuntimePath record.state.path = false)
    (done : normalizeOfflineSyncSnapshot env.tables received = .ok snapshot) :
    snapshot.files.Perm received.files ∧ snapshot.includeTranscripts = received.includeTranscripts ∧
      (snapshot.paths.map env.tables.toLowerCase).Nodup := by
  have reads (records out : List (OfflineSyncFileRecord Content)) (start : Nat) :
      ((records.zipIdx start).mapM fun entry => normalizeFileRecord entry.1 (indexed (text "files") entry.2)) = .ok out ↔
        (∀ record ∈ records, IsArchivePath record.state.path) ∧ out = records :=
    mapM_zipIdx_ok_iff (fun record _ out => normalizeFileRecord_ok_iff record out _) records out start
  unfold normalizeOfflineSyncSnapshot at done
  simp only [bind_ok_iff, reads, pure_ok_iff] at done
  obtain ⟨sourceId, _, read, ⟨_, same⟩, recorded, _, _, checked, omitted, _, shape⟩ := done
  have all : read.filter (fun record => !shouldIgnoreIncomingRuntimePath record.state.path) = received.files := by
    rw [same, filter_eq_self]
    intro record member
    rw [kept record member]
    rfl
  rw [all] at checked shape
  rw [shape]
  refine ⟨mergeSort_perm _ _, rfl, ?_⟩
  obtain ⟨unique, _, _⟩ := (assertEntryPaths_ok_iff _ _).mp checked
  rw [map_append, nodup_append] at unique
  unfold OfflineSyncSnapshot.paths
  rw [map_map (f := OfflineSyncFileRecord.state)]
  exact unique.1

/-- A content at hand has the digest of the record that names its path. -/
def Verified (hashing : Hashing Content) (records : List (OfflineSyncFileRecord Content))
    (buffers : OrderedMap JsString Content) : Prop :=
  ∀ path content, buffers.lookup path = some content →
    ∃ record ∈ records, record.state.path = path ∧ record.state.sha256 = hashing.sha256 content

variable {records : List (OfflineSyncFileRecord Content)} {buffers : OrderedMap JsString Content}
  {hashing : Hashing Content}

theorem verified_set (holds : Verified hashing records buffers) {record : OfflineSyncFileRecord Content}
    (member : record ∈ records) {content : Content} (digest : hashing.sha256 content = record.state.sha256) :
    Verified hashing records (buffers.set record.state.path content) := by
  intro path other found
  rw [OrderedMap.lookup_set] at found
  split at found
  next same => exact ⟨record, member, same.symm, by rw [← Option.some.inj found, digest]⟩
  next different => exact holds path other found

theorem verifyRecordContents_ok {context : JsString} {readIncomingFile : OfflineSyncFileState → Option Content}
    (done : verifyRecordContents hashing context readIncomingFile records = .ok buffers) : Verified hashing records buffers := by
  have empty : Verified hashing records OrderedMap.empty := fun path content found => by cases found
  refine foldlM_invariant ?_ empty done
  intro record member before after holds round
  cases held : record.content with
  | some content =>
    rw [held] at round
    obtain ⟨_, checked, shape⟩ := bind_ok_iff.mp round
    rw [pure_ok_iff.mp shape]
    unfold verifyContent at checked
    split_ifs at checked with same
    exact verified_set holds member same.1
  | none =>
    rw [held] at round
    dsimp only at round
    cases fetched : readIncomingFile record.state with
    | none =>
      rw [fetched] at round
      rw [← Except.ok.inj round]
      exact holds
    | some incoming =>
      rw [fetched] at round
      dsimp only at round
      split_ifs at round with same
      rw [← Except.ok.inj round]
      exact verified_set holds member same.1

/-- A receiver that starts its merge: the three sides as they were handed over, and no path settled ahead. -/
structure PullPrepared (env : Environment Content) (tree : SyncTree Content) (options : PullOptions Content)
    (received : OfflineSyncSnapshot Content) (inputs : PullInputs Content) (routing : PullRouting)
    (start : PullState Content) : Prop where
  unique : (received.paths.map env.tables.toLowerCase).Nodup
  root : start.tree = tree
  handled : routing.transactionHandled = []
  deferred : routing.deferredPaths = options.deferredPaths
  fresh : start.nextBase = inputs.base
  base : inputs.base = byPath (filterBaseFilesForMode options.baseFiles received.includeTranscripts)
  incoming : ∀ path, inputs.incoming.lookup path = (byPath (received.files.map OfflineSyncFileRecord.state)).lookup path
  current : ∃ files, pullCurrentFiles env tree options received.includeTranscripts = .ok files ∧
    inputs.current = byPath files
  carried : ∀ path content, inputs.buffers.lookup path = some content →
    shaAt inputs.incoming path = some (env.hashing.sha256 content)

theorem apart_byPath {files : List OfflineSyncFileState}
    (apart : ∀ file ∈ files, embeddingGenerationMembership file.path = none) {path : JsString}
    (listed : path ∈ (byPath files).keys) : embeddingGenerationMembership path = none := by
  rw [OrderedMap.mem_keys_iff] at listed
  obtain ⟨file, found⟩ := listed
  obtain ⟨member, same⟩ := lookup_byPath found
  exact same ▸ apart file member

theorem preparePull_ok {inputs : PullInputs Content} {routing : PullRouting} {start : PullState Content}
    (kept : ∀ record ∈ received.files, shouldIgnoreIncomingRuntimePath record.state.path = false)
    (bases : ∀ file ∈ options.baseFiles, embeddingGenerationMembership file.path = none)
    (records : ∀ record ∈ received.files, embeddingGenerationMembership record.state.path = none)
    (currents : ∀ files, pullCurrentFiles env tree options received.includeTranscripts = .ok files →
      ∀ file ∈ files, embeddingGenerationMembership file.path = none)
    (done : preparePull env generations tree options received = .ok (inputs, routing, start)) :
    PullPrepared env tree options received inputs routing start := by
  unfold preparePull at done
  obtain ⟨snapshot, accepted, rest⟩ := bind_ok_iff.mp done
  obtain ⟨baseFiles, based, rest⟩ := bind_ok_iff.mp rest
  obtain ⟨buffers, verified, rest⟩ := bind_ok_iff.mp rest
  obtain ⟨currentFiles, current, rest⟩ := bind_ok_iff.mp rest
  obtain ⟨_, recorded, rest⟩ := bind_ok_iff.mp rest
  obtain ⟨routed, route, last⟩ := bind_ok_iff.mp rest
  obtain ⟨perm, mode, unique⟩ := normalizeOfflineSyncSnapshot_ok kept accepted
  have once : snapshot.paths.Nodup := Nodup.of_map _ unique
  have paths : snapshot.paths.Perm received.paths := (perm.map _).map _
  obtain ⟨_, same⟩ := (normalizeFileStates_ok_iff _ _).mp based
  rw [same, mode] at route last
  rw [mode] at current
  have sides (deferredPaths : List JsString) := generations.idle {
      sourceId := snapshot.sourceId
      base := byPath (filterBaseFilesForMode options.baseFiles received.includeTranscripts)
      incoming := byPath (snapshot.files.map OfflineSyncFileRecord.state)
      current := byPath currentFiles
      buffers := buffers
      deletions := snapshot.deletions
      omittedGenerationDirs := snapshot.omittedEmbeddingGenerationDirs.getD []
      deferredPaths := deferredPaths } tree fun path listed => by
    rcases listed with base | incoming | current'
    · exact apart_byPath (fun file member => bases file (mem_filter.mp member).1) base
    · refine apart_byPath (fun file member => ?_) incoming
      obtain ⟨record, inside, shape⟩ := mem_map.mp member
      exact shape ▸ records record (perm.mem_iff.mp inside)
    · exact apart_byPath (currents currentFiles current) current'
  rw [(sides options.deferredPaths).1, append_nil] at route last
  rw [(sides options.deferredPaths).2] at route
  rw [← Except.ok.inj route] at last
  obtain ⟨input, pair⟩ := Prod.mk.inj (Except.ok.inj last)
  obtain ⟨routings, starts⟩ := Prod.mk.inj pair
  rw [← input, ← routings, ← starts]
  refine ⟨(paths.map _).nodup_iff.mp unique, rfl, rfl, rfl, rfl, rfl, fun path => ?_, ⟨currentFiles, current, rfl⟩,
    fun path content known => ?_⟩
  · exact lookup_byPath_perm (perm.map _) once path
  · obtain ⟨record, member, named, digest⟩ := verifyRecordContents_ok verified path content known
    have found := (lookup_byPath_iff once path record.state).mpr ⟨mem_map_of_mem member, named⟩
    unfold shaAt
    rw [found, Option.map_some, digest]

end Preparing

section Running

variable {env : Environment Content} {generations : SnapshotGenerations Content} {tree : SyncTree Content}
  {options : PullOptions Content} {received : OfflineSyncSnapshot Content} {inputs : PullInputs Content}
  {routing : PullRouting} {start : PullState Content}

def pullPaths (inputs : PullInputs Content) : List JsString :=
  unionPaths [inputs.base.keys, inputs.incoming.keys, inputs.current.keys]

def pullRun (env : Environment Content) (options : PullOptions Content) (inputs : PullInputs Content)
    (routing : PullRouting) (start : PullState Content) : PullState Content × Option Failure :=
  runSteps (mergePath env options inputs routing) (pullPaths inputs) start

theorem once_pullPaths (inputs : PullInputs Content) : ((pullPaths inputs).map id).Nodup := by
  rw [map_id]
  exact nodup_unionPaths _

theorem entries_pullRun (begun : start.nextBase = inputs.base) (path : JsString) (file : OfflineSyncFileState)
    (found : (pullRun env options inputs routing start).1.nextBase.lookup path = some file) :
    inputs.base.lookup path = some file ∨ inputs.incoming.lookup path = some file := by
  have keeps : ∀ key ∈ pullPaths inputs, ∀ state next : PullState Content,
      (∀ other file, state.nextBase.lookup other = some file →
        inputs.base.lookup other = some file ∨ inputs.incoming.lookup other = some file) →
      mergePath env options inputs routing key state = .ok next →
      ∀ other file, next.nextBase.lookup other = some file →
        inputs.base.lookup other = some file ∨ inputs.incoming.lookup other = some file :=
    fun _ _ _ _ known done other file found => (mergePath_entries done other file found).elim
      (known other file) id
  exact runSteps_invariant (pullPaths inputs) keeps (fun other file known => .inl (begun ▸ known)) path file found

theorem reports_runSteps (paths : List JsString) (state : PullState Content) :
    state.conflicts ⊆ (runSteps (mergePath env options inputs routing) paths state).1.conflicts := by
  have keeps : ∀ key ∈ paths, ∀ before next : PullState Content, state.conflicts ⊆ before.conflicts →
      mergePath env options inputs routing key before = .ok next → state.conflicts ⊆ next.conflicts :=
    fun _ _ _ _ known done => Subset.trans known (mergePath_reports done)
  exact runSteps_invariant paths keeps (Subset.refl _)

theorem lookup_byPath_values {map : OrderedMap JsString OfflineSyncFileState}
    (keyed : ∀ path file, map.lookup path = some file → file.path = path)
    (order : OfflineSyncFileState → OfflineSyncFileState → Bool) (path : JsString) :
    (byPath ((map.entries.map Prod.snd).mergeSort order)).lookup path = map.lookup path := by
  have under : ∀ entry ∈ map.entries, entry.2.path = entry.1 := fun entry member =>
    keyed entry.1 entry.2 ((OrderedMap.lookup_eq_some_iff _ _ _).mpr member)
  have names : (map.entries.map Prod.snd).map OfflineSyncFileState.path = map.keys := by
    rw [map_map]
    exact map_congr_left fun entry member => under entry member
  have once : ((map.entries.map Prod.snd).map OfflineSyncFileState.path).Nodup := names ▸ map.keysNodup
  rw [lookup_byPath_perm (mergeSort_perm _ order) (((mergeSort_perm _ order).map _).nodup_iff.mpr once)]
  refine Option.ext fun file => ?_
  rw [lookup_byPath_iff once, OrderedMap.lookup_eq_some_iff, mem_map]
  constructor
  · intro facts
    obtain ⟨⟨entry, member, same⟩, named⟩ := facts
    have key := under entry member
    rw [same, named] at key
    have shape : entry = (path, file) := Prod.ext key.symm same
    exact shape ▸ member
  · intro member
    exact ⟨⟨(path, file), member, rfl⟩, under (path, file) member⟩

/-- A pull that gets as far as its loop leaves the root of the loop's last state, and a base made of its entries. -/
theorem pull_runs (env : Environment Content) (generations : SnapshotGenerations Content) (tree : SyncTree Content)
    (options : PullOptions Content) (received : OfflineSyncSnapshot Content) :
    (applyOfflineSyncSnapshot env generations tree options received).1 = tree ∧
        (∃ failure, (applyOfflineSyncSnapshot env generations tree options received).2 = .error failure) ∨
      ∃ inputs routing start,
        preparePull env generations tree options received = .ok (inputs, routing, start) ∧
        (applyOfflineSyncSnapshot env generations tree options received).1 =
          (pullRun env options inputs routing start).1.tree ∧
        ∀ result, (applyOfflineSyncSnapshot env generations tree options received).2 = .ok result →
          (pullRun env options inputs routing start).2 = none ∧
          result.conflicts = (pullRun env options inputs routing start).1.conflicts ∧
          result.nextBaseFiles = ((pullRun env options inputs routing start).1.nextBase.entries.map
            Prod.snd).mergeSort (compareByPath env.tables) := by
  unfold applyOfflineSyncSnapshot
  cases ready : preparePull env generations tree options received with
  | error failure => exact .inl ⟨rfl, failure, rfl⟩
  | ok parts =>
    obtain ⟨inputs, routing, start⟩ := parts
    refine .inr ⟨inputs, routing, start, rfl, ?_⟩
    dsimp only
    have run : runSteps (mergePath env options inputs routing)
        (unionPaths [inputs.base.keys, inputs.incoming.keys, inputs.current.keys]) start =
      pullRun env options inputs routing start := rfl
    rw [run]
    cases ended : (pullRun env options inputs routing start).2 with
    | some failure => exact ⟨rfl, fun result done => by cases done⟩
    | none =>
      refine ⟨rfl, fun result done => ?_⟩
      rw [← Except.ok.inj done]
      exact ⟨rfl, rfl, rfl⟩

end Running

end Remnic.OfflineSync.Pull
