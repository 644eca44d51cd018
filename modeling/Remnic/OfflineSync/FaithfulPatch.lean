import Remnic.OfflineSync.Receive

/-! A push to a receiver that still holds the base. -/

namespace Remnic.OfflineSync.FaithfulPatch
open Library Library.AppendNew Library.GuardedFold Library.LocalSteps Text.CodeUnits Reconcile.Census Paths SyncRoot List
open Changeset Patch Receive

variable {Content : Type}

/-- An ordinary path that a push sends, reached through directories that it walks. -/
def Pushable (includeTranscripts : Bool) (userExcludes : UserExcludes) (path : JsString) : Prop :=
  IsPlain path ∧ walked (fun other => shouldExcludePushRelPath other includeTranscripts userExcludes) path = true

/-- A base, a local root and a receiver whose ordinary files are the base's. -/
structure Push (Content : Type) where
  env : Environment Content
  generations : ChangesetGenerations Content
  sourceId : JsString
  validSource : (trim sourceId).length ≠ 0 ∧ sourceId.length ≤ 512
  includeTranscripts : Bool
  userExcludes : UserExcludes
  deletions : Option (List OfflineSyncDeletionRevision)
  validDeletions : ∃ out, normalizeDeletionRevisions env.tables deletions (text "deletions") = .ok out
  applyOptions : ApplyOptions
  ownCensus : applyOptions.currentFiles = none
  base : List OfflineSyncFileState
  localRoot : SyncTree Content
  remoteRoot : SyncTree Content
  basePushable : ∀ file ∈ base, Pushable includeTranscripts userExcludes file.path
  localPlain : ∀ path ∈ localRoot.files.keys,
    walked (fun other => shouldExcludePushRelPath other includeTranscripts userExcludes) path = true → IsPlain path
  remoteIsBase : ∀ path, Pushable includeTranscripts userExcludes path →
    (contentAt remoteRoot path).map env.hashing.sha256 = shaAt (byPath base) path

namespace Push

variable (push : Push Content)

def pushes (path : JsString) : Prop := Pushable push.includeTranscripts push.userExcludes path

def localSha (path : JsString) : Option Sha256 := (contentAt push.localRoot path).map push.env.hashing.sha256

def baseSha (path : JsString) : Option Sha256 := shaAt (byPath push.base) path

/-- The arguments of the builder: the local census and the base. -/
def options : BuildOptions where
  sourceId := push.sourceId
  currentFiles := census push.env.tables push.env.hashing
    (fun path => shouldExcludePushRelPath path push.includeTranscripts push.userExcludes) push.localRoot
  baseFiles := push.base
  deletions := push.deletions
  includeTranscripts := push.includeTranscripts
  userExcludes := push.userExcludes

def built : Except Failure (OfflineSyncChangeset Content) :=
  buildOfflineSyncChangesetFromSnapshot push.env push.localRoot push.options

def received (changeset : OfflineSyncChangeset Content) : SyncTree Content × Except Failure ApplyChangesetResult :=
  applyOfflineSyncChangeset push.env push.generations push.remoteRoot push.applyOptions changeset

/-- The changeset is accepted and applied without conflict, and the receiver ends with the local files. -/
def Faithful : Prop :=
  ∃ changeset normalized result, push.built = .ok changeset ∧
    normalizeOfflineSyncChangeset push.env.tables changeset = .ok normalized ∧
    (push.received changeset).2 = .ok result ∧ result.conflicts = [] ∧
    ∀ path, push.pushes path →
      (contentAt (push.received changeset).1 path).map push.env.hashing.sha256 = push.localSha path

def Changed (path : JsString) : Prop := push.pushes path ∧ push.localSha path ≠ push.baseSha path

/-- No two changed paths fold to one, and no file takes the place of a directory or stands above a path
that comes or goes. -/
structure Patchable : Prop where
  unique : ∀ path other, push.Changed path → push.Changed other →
    push.env.tables.toLowerCase path = push.env.tables.toLowerCase other → path = other
  removable : ∀ path, push.Changed path → push.localSha path = none → push.localRoot.through path = false
  creatable : ∀ path, push.Changed path → push.baseSha path = none →
    push.remoteRoot.through path = false ∧ path ∉ push.remoteRoot.directories

end Push

variable {tables : UnicodeTables} {hashing : Hashing Content} {excluded : JsString → Bool} {tree : SyncTree Content}

theorem census_path {file : OfflineSyncFileState} :
    file ∈ census tables hashing excluded tree ↔ walked excluded file.path = true ∧
      ∃ stored, tree.file file.path = some stored ∧ file = hashing.stateOf file.path stored := by
  unfold census
  rw [mem_mergeSort, mem_map]
  constructor
  · intro listed
    obtain ⟨entry, member, shape⟩ := listed
    rw [mem_filter] at member
    rw [← shape]
    exact ⟨member.2, entry.2, (OrderedMap.lookup_eq_some_iff _ _ _).mpr member.1, rfl⟩
  · intro facts
    obtain ⟨seen, stored, present, shape⟩ := facts
    refine ⟨(file.path, stored), mem_filter.mpr ⟨(OrderedMap.lookup_eq_some_iff _ _ _).mp present, seen⟩, ?_⟩
    exact shape.symm

theorem shaAt_census {files : List OfflineSyncFileState} {path : JsString}
    (listed : ∀ file, file.path = path → (file ∈ files ↔ file ∈ census tables hashing excluded tree))
    (seen : walked excluded path = true) :
    shaAt (byPath files) path = (contentAt tree path).map hashing.sha256 := by
  unfold shaAt contentAt
  cases present : tree.file path with
  | none =>
    rw [lookup_byPath_none]
    · rfl
    · intro file known same
      obtain ⟨_, stored, held, _⟩ := census_path.mp ((listed file same).mp known)
      rw [same, present] at held
      cases held
  | some stored =>
    have known : hashing.stateOf path stored ∈ files :=
      (listed (hashing.stateOf path stored) rfl).mpr (census_path.mpr ⟨seen, stored, present, rfl⟩)
    obtain ⟨last, held⟩ := lookup_byPath_of_mem known
    obtain ⟨among, same⟩ := lookup_byPath held
    have same : last.path = path := same
    obtain ⟨_, stored', held', shape⟩ := census_path.mp ((listed last same).mp among)
    rw [same, present] at held'
    have held : (byPath files).lookup path = some last := held
    rw [held, Option.map_some, shape, ← Option.some.inj held']
    rfl

theorem not_excluded_of_walked {path : JsString} (seen : walked excluded path = true) :
    excluded path = false := by
  unfold walked at seen
  rw [Bool.and_eq_true, Bool.not_eq_true'] at seen
  exact seen.1

namespace Push

variable {push : Push Content} {path : JsString}

theorem not_withheld (pushed : push.pushes path) : ¬Withheld push.options push.options.excludePaths path := by
  intro withheld
  rcases withheld with listed | excluded | runtime
  · cases listed
  · have kept := not_excluded_of_walked pushed.2
    have excluded : shouldExcludePushRelPath path push.includeTranscripts push.userExcludes = true := excluded
    rw [kept] at excluded
    cases excluded
  · rw [pushed.1.notRuntime] at runtime
    cases runtime

theorem included (pushed : push.pushes path) : shouldExcludeRelPath path push.includeTranscripts = false :=
  kept_of_pushed (not_excluded_of_walked pushed.2)

theorem watched (pushed : push.pushes path) : Watched path := by
  refine Bool.eq_false_iff.mpr fun excluded => ?_
  have hidden := excluded_without_transcripts excluded push.includeTranscripts
  rw [included pushed] at hidden
  cases hidden

theorem shaAt_current (pushed : push.pushes path) : shaAt (currentOf push.options) path = push.localSha path := by
  refine shaAt_census (fun file same => mem_filter.trans (and_iff_left ?_)) pushed.2
  rw [same, Bool.not_eq_true']
  exact included pushed

theorem baseOf_options : baseOf push.options = byPath push.base := by
  refine congrArg byPath (filter_eq_self.mpr fun file member => ?_)
  rw [Bool.not_eq_true']
  exact included (push.basePushable file member)

theorem shaAt_base : shaAt (baseOf push.options) path = push.baseSha path := by
  rw [baseOf_options]
  rfl

theorem pushes_of_listed (listed : path ∈ (baseOf push.options).keys ∨ path ∈ (currentOf push.options).keys) :
    push.pushes path := by
  rcases listed with base | current
  · rw [baseOf_options, OrderedMap.mem_keys_iff] at base
    obtain ⟨file, found⟩ := base
    obtain ⟨member, same⟩ := lookup_byPath found
    exact same ▸ push.basePushable file member
  · rw [OrderedMap.mem_keys_iff] at current
    obtain ⟨file, found⟩ := current
    obtain ⟨member, same⟩ := lookup_byPath found
    obtain ⟨seen, stored, present, _⟩ := census_path.mp (mem_filter.mp member).1
    rw [same] at seen present
    exact ⟨push.localPlain path ((OrderedMap.mem_keys_iff _ _).mpr ⟨stored, present⟩) seen, seen⟩

theorem changed_iff : push.Changed path ↔ shaAt (currentOf push.options) path ≠ shaAt (baseOf push.options) path := by
  constructor
  · intro changed
    rw [shaAt_current changed.1, shaAt_base]
    exact changed.2
  · intro differs
    have pushed : push.pushes path := by
      refine pushes_of_listed ?_
      by_cases known : shaAt (baseOf push.options) path = none
      · exact .inr (mem_keys_of_shaAt fun absent => differs (absent.trans known.symm))
      · exact .inl (mem_keys_of_shaAt known)
    rw [shaAt_current pushed, shaAt_base] at differs
    exact ⟨pushed, differs⟩

theorem remote_sha (pushed : push.pushes path) :
    (contentAt push.remoteRoot path).map push.env.hashing.sha256 = push.baseSha path := push.remoteIsBase path pushed

theorem file_of_sha {tree : SyncTree Content} {hashing : Hashing Content} {sha : Sha256}
    (known : (contentAt tree path).map hashing.sha256 = some sha) : path ∈ tree.files.keys := by
  unfold contentAt at known
  rw [OrderedMap.mem_keys_iff]
  obtain ⟨content, held, _⟩ := Option.map_eq_some_iff.mp known
  obtain ⟨stored, present, _⟩ := Option.map_eq_some_iff.mp held
  exact ⟨stored, present⟩

section Building

variable {changeset : OfflineSyncChangeset Content}

section

variable (built : Built push.env push.localRoot push.options changeset)
include built

variable {change : OfflineSyncChange Content} {normalized : OfflineSyncChangeset Content}

theorem changed_of_member (member : change ∈ changeset.changes) : push.Changed change.path :=
  changed_iff.mpr (differs_of_contributes (built.comes change member).2.2)

theorem member_of_changed (changed : push.Changed path) : ∃ change ∈ changeset.changes, change.path = path := by
  rcases built.covers path (not_withheld changed.1) (changed_iff.mp changed) with found | missed
  · exact found
  · obtain ⟨gone, present⟩ := missed
    rw [shaAt_current changed.1] at gone
    have absent : push.localRoot.file path = none := Option.map_eq_none_iff.mp (Option.map_eq_none_iff.mp gone)
    exact absurd absent present

theorem shas_of_member (member : change ∈ changeset.changes) :
    Receive.baseSha change = push.baseSha change.path ∧ newSha change = push.localSha change.path := by
  have pushed := (changed_of_member built member).1
  rcases (built.comes change member).2.2 with upsert | delete
  · obtain ⟨stored, known, _, _, shape⟩ := upsert
    rw [shaAt_current pushed] at known
    constructor
    · rw [← shaAt_base, shape]
      rfl
    · rw [known, shape]
      rfl
  · obtain ⟨sha, mtimeMs, known, gone, _, shape⟩ := delete
    rw [shaAt_current pushed] at gone
    rw [shaAt_base] at known
    constructor
    · rw [known, shape]
      rfl
    · rw [gone, shape]
      rfl

theorem change_plain (member : change ∈ changeset.changes) : IsPlain change.path :=
  (changed_of_member built member).1.1

theorem generations_apart :
    ∀ change ∈ changeset.changes, embeddingGenerationMembership change.path = none := fun _ member =>
  (change_plain built member).notGeneration

theorem markers_apart :
    ∀ change ∈ changeset.changes, isEmbeddingGenerationMarkerPath change.path = false := fun _ member =>
  (change_plain built member).notMarker

theorem none_ignored :
    changeset.changes.filter (fun change => !shouldIgnoreIncomingRuntimePath change.path) = changeset.changes := by
  refine filter_eq_self.mpr fun change member => ?_
  rw [Bool.not_eq_true']
  refine Bool.eq_false_iff.mpr fun ignored => ?_
  have hidden := excluded_of_ignored ignored push.includeTranscripts
  rw [included (changed_of_member built member).1] at hidden
  cases hidden

theorem accepted_members (accepted : normalizeOfflineSyncChangeset push.env.tables changeset = .ok normalized)
    {change : OfflineSyncChange Content} : change ∈ normalized.changes ↔ change ∈ changeset.changes := by
  obtain ⟨kept, same, _, _, _, _, _, _, sorted⟩ := (normalizeOfflineSyncChangeset_ok_iff _).mp accepted
  rw [sorted, mem_mergeSort, same, none_ignored built]

theorem unique_of_accepted
    (accepted : normalizeOfflineSyncChangeset push.env.tables changeset = .ok normalized) {other : JsString}
    (changed : push.Changed path) (changed' : push.Changed other)
    (fold : push.env.tables.toLowerCase path = push.env.tables.toLowerCase other) : path = other := by
  obtain ⟨kept, same, _, _, unique, _, _, _, _⟩ := (normalizeOfflineSyncChangeset_ok_iff _).mp accepted
  rw [same, none_ignored built] at unique
  obtain ⟨change, member, named⟩ := member_of_changed built changed
  obtain ⟨change', member', named'⟩ := member_of_changed built changed'
  rw [← named, ← named'] at fold ⊢
  exact inj_on_of_nodup_map unique (mem_map_of_mem member) (mem_map_of_mem member') fold

end

end Building

theorem patchable_of_faithful (faithful : push.Faithful) : push.Patchable := by
  obtain ⟨changeset, normalized, result, done, accepted, applied, _, same⟩ := faithful
  have built := build_ok done
  rcases apply_runs push.env push.generations push.remoteRoot
    push.ownCensus (generations_apart built) with refused | ran
  · obtain ⟨failure, failed⟩ := refused.2
    cases failed.symm.trans applied
  · obtain ⟨normal, start, prepared, _, root, _, _⟩ := ran
    have members := @accepted_members _ push changeset built normal prepared.accepted
    refine ⟨fun path other => unique_of_accepted built accepted, ?_, ?_⟩
    · intro path changed _
      exact built.reached path (not_withheld changed.1) (changed_iff.mp changed)
    · intro path changed new
      obtain ⟨change, member, named⟩ := member_of_changed built changed
      have clear := prepared.reached change (members.mpr member)
      rw [named] at clear
      refine ⟨clear, fun directory => ?_⟩
      -- A new path ends as a file, so it was no directory before.
      have known : push.localSha path ≠ none := fun gone => changed.2 (gone.trans new.symm)
      obtain ⟨sha, value⟩ := Option.ne_none_iff_exists'.mp known
      have file := file_of_sha ((same path changed.1).trans value)
      refine SyncTree.disjoint _ path file ?_
      have grown := directories_kept push.env push.applyOptions push.remoteRoot
        normal.sourceId normal.changes (fun change inside => markers_apart built change (members.mp inside)) start
      have start : path ∈ start.tree.directories := by
        rw [prepared.root]
        exact directory
      exact root ▸ grown start

section Sending

theorem archive_of_listed {file : OfflineSyncFileState}
    (listed : file ∈ push.options.baseFiles ++ push.options.currentFiles) : IsArchivePath file.path := by
  rcases mem_append.mp listed with base | current
  · exact (push.basePushable file base).1.archive
  · obtain ⟨seen, stored, present, _⟩ := census_path.mp current
    exact (push.localPlain file.path ((OrderedMap.mem_keys_iff _ _).mpr ⟨stored, present⟩) seen).archive

theorem builds_of_patchable (patchable : push.Patchable) : ∃ changeset, push.built = .ok changeset := by
  obtain ⟨deletions, recorded⟩ := push.validDeletions
  have source : normalizeSourceId push.sourceId (text "sourceId") = .ok (trim push.sourceId) := by
    unfold normalizeSourceId
    rw [if_neg]
    rw [not_or, not_lt]
    exact push.validSource
  refine build_succeeds rfl (fun file listed => archive_of_listed listed) recorded source fun path listed => ?_
  have pushed : push.pushes path := by
    obtain ⟨keys, among, member⟩ := (mem_unionPaths _).mp listed
    rcases mem_cons.mp among with base | current
    · exact pushes_of_listed (.inl (base ▸ member))
    · exact pushes_of_listed (.inr (mem_singleton.mp current ▸ member))
  have seen : shaAt (currentOf push.options) path =
      (push.localRoot.file path).map fun stored => push.env.hashing.sha256 stored.content := by
    rw [shaAt_current pushed]
    exact Option.map_map _ _ _
  refine changeFor_succeeds (not_withheld pushed) pushed.1.archive seen fun differs => ?_
  have changed := changed_iff.mpr differs
  cases present : push.localSha path with
  | none => exact patchable.removable path changed present
  | some sha => exact push.localRoot.file_not_through (file_of_sha present)

theorem remote_reached (patchable : push.Patchable) (changed : push.Changed path) :
    push.remoteRoot.through path = false ∧ path ∉ push.remoteRoot.directories := by
  cases known : push.baseSha path with
  | none => exact patchable.creatable path changed known
  | some sha =>
    have file := file_of_sha ((remote_sha changed.1).trans known)
    exact ⟨push.remoteRoot.file_not_through file, push.remoteRoot.disjoint path file⟩

theorem changed_apart (patchable : push.Patchable) {other : JsString} (changed : push.Changed path)
    (written : push.localSha path ≠ none) (changed' : push.Changed other) :
    path ∉ ancestors other ∧ other ∉ ancestors path := by
  obtain ⟨sha, value⟩ := Option.ne_none_iff_exists'.mp written
  have file := file_of_sha value
  cases gone : push.localSha other with
  | some sha' =>
    have file' := file_of_sha gone
    exact ⟨fun above => push.localRoot.disjoint path file (push.localRoot.parents other file' path above),
      fun below => push.localRoot.disjoint other file' (push.localRoot.parents path file other below)⟩
  | none =>
    constructor
    · intro above
      have crossed := SyncTree.through_eq_true.mpr ⟨path, above, file⟩
      rw [patchable.removable other changed' gone] at crossed
      cases crossed
    · intro below
      have based : push.baseSha other ≠ none := fun absent => changed'.2 (gone.trans absent.symm)
      obtain ⟨sha', value'⟩ := Option.ne_none_iff_exists'.mp based
      have crossed := SyncTree.through_eq_true.mpr ⟨other, below, file_of_sha ((remote_sha changed'.1).trans value')⟩
      rw [(remote_reached patchable changed).1] at crossed
      cases crossed

variable {changeset : OfflineSyncChangeset Content}

theorem wellFormed (built : Built push.env push.localRoot push.options changeset) :
    ∀ change ∈ changeset.changes, WellFormed change := by
  intro change member
  refine ⟨(built.comes change member).2.1, fun path base file content shape => ?_⟩
  rcases (built.comes change member).2.2 with upsert | delete
  · obtain ⟨stored, _, _, _, same⟩ := upsert
    rw [shape] at same
    injection same with paths _ files _
    rw [files]
    rfl
  · obtain ⟨sha, mtimeMs, _, _, _, same⟩ := delete
    rw [shape] at same
    cases same

theorem accepts_of_patchable (patchable : push.Patchable)
    (built : Built push.env push.localRoot push.options changeset) :
    ∃ normalized, normalizeOfflineSyncChangeset push.env.tables changeset = .ok normalized := by
  have hidden : ∀ change ∈ changeset.changes, shouldExcludeRelPath change.path push.includeTranscripts = false :=
    fun change member => included (changed_of_member built member).1
  refine ⟨⟨changeset.sourceId, changeset.includeTranscripts, changeset.changes.mergeSort (compareChanges push.env.tables)⟩,
    (normalizeOfflineSyncChangeset_ok_iff _).mpr
      ⟨_, rfl, normalizeSourceId_again built.source, wellFormed built, ?_, ?_, ?_, rfl, ?_⟩⟩
  · rw [none_ignored built]
    refine Nodup.map_on ?_ built.once
    intro path member other member' fold
    obtain ⟨change, inside, named⟩ := mem_map.mp member
    obtain ⟨change', inside', named'⟩ := mem_map.mp member'
    exact patchable.unique path other (named ▸ changed_of_member built inside) (named' ▸ changed_of_member built inside') fold
  · intro mode change member
    rw [none_ignored built] at member
    refine Bool.eq_false_iff.mpr fun transcript => ?_
    have excluded := transcript_excluded (of_decide_eq_true transcript)
    have kept := hidden change member
    rw [← show changeset.includeTranscripts = push.includeTranscripts from built.mode, mode, excluded] at kept
    cases kept
  · intro change member
    rw [none_ignored built] at member
    exact watched (changed_of_member built member).1
  · rw [none_ignored built]

/-- The receiver reaches its loop: every content has its digest and every path can be read. -/
theorem prepares_of_patchable (patchable : push.Patchable)
    (built : Built push.env push.localRoot push.options changeset) {normalized : OfflineSyncChangeset Content}
    (accepted : normalizeOfflineSyncChangeset push.env.tables changeset = .ok normalized) :
    ∃ start, prepareChangeset push.env push.generations push.remoteRoot push.applyOptions changeset =
      .ok (normalized, GenerationRouting.none push.remoteRoot, start) := by
  have members := @accepted_members _ push changeset built normalized accepted
  have mode : normalized.includeTranscripts = push.includeTranscripts := by
    obtain ⟨_, _, _, _, _, _, _, kept, _⟩ := (normalizeOfflineSyncChangeset_ok_iff _).mp accepted
    exact kept.trans built.mode
  have reads : ∀ path ∈ appendNew [] (normalized.changes.map OfflineSyncChange.path),
      ∃ found, snapshotForPath push.env.hashing (fun path => shouldExcludeRelPath path normalized.includeTranscripts)
        push.remoteRoot path = .ok found := by
    intro path listed
    rcases (mem_appendNew _ _ _).mp listed with empty | named
    · cases empty
    · obtain ⟨change, member, same⟩ := mem_map.mp named
      have changed := changed_of_member built (members.mp member)
      rw [same] at changed
      refine ⟨_, snapshotForPath_ok_iff.mpr ⟨changed.1.1.archive, ?_, (remote_reached patchable changed).1, rfl⟩⟩
      rw [mode]
      exact included changed.1
  obtain ⟨found, mapped⟩ := mapM_total reads
  have current : currentFilesFor push.env push.remoteRoot push.applyOptions normalized =
      .ok ((found.filterMap id).map Prod.fst) := by
    unfold currentFilesFor
    rw [push.ownCensus]
    exact bind_ok_iff.mpr ⟨found, mapped, rfl⟩
  have idle := push.generations.idle normalized (byPath ((found.filterMap id).map Prod.fst)) push.remoteRoot
    fun change member => generations_apart built change (members.mp member)
  unfold prepareChangeset
  refine ⟨_, bind_ok_iff.mpr ⟨normalized, accepted, bind_ok_iff.mpr ⟨(), (forM_ok_iff _ _).mpr fun change member => ?_,
    bind_ok_iff.mpr ⟨_, current, bind_ok_iff.mpr ⟨_, idle, rfl⟩⟩⟩⟩⟩
  rcases (built.comes change (members.mp member)).2.2 with upsert | delete
  · obtain ⟨stored, _, _, _, shape⟩ := upsert
    rw [shape]
    exact if_pos ⟨rfl, rfl⟩
  · obtain ⟨sha, mtimeMs, _, _, _, shape⟩ := delete
    rw [shape]

/-- The loop's invariant: no conflict so far, and every changed path can still be written. -/
structure Applying (push : Push Content) (state : ApplyState Content) : Prop where
  calm : state.conflicts = []
  reached : ∀ path, push.Changed path → state.tree.through path = false ∧ path ∉ state.tree.directories

variable {state next : ApplyState Content}

theorem applying_write (patchable : push.Patchable) (applying : Applying push state)
    (changed : push.Changed path) (written : push.localSha path ≠ none) {stored : Stored Content}
    (done : state.tree.write path stored = .ok next.tree) (calm : next.conflicts = state.conflicts) :
    Applying push next := by
  refine ⟨calm.trans applying.calm, fun other changed' => ?_⟩
  obtain ⟨above, below⟩ := changed_apart patchable changed written changed'
  obtain ⟨clear, free⟩ := applying.reached other changed'
  constructor
  · refine Bool.eq_false_iff.mpr fun crossed => ?_
    obtain ⟨middle, inside, member⟩ := SyncTree.through_eq_true.mp crossed
    obtain ⟨held, present⟩ := (OrderedMap.mem_keys_iff _ _).mp member
    have shape := SyncTree.file_write done middle
    have different : middle ≠ path := fun same => above (same ▸ inside)
    rw [if_neg different] at shape
    have file := (OrderedMap.mem_keys_iff _ _).mpr ⟨held, shape.symm.trans present⟩
    rw [SyncTree.through_eq_true.mpr ⟨middle, inside, file⟩] at clear
    cases clear
  · rw [SyncTree.directories_write done, mem_append, not_or]
    exact ⟨free, below⟩

theorem applying_unlink (applying : Applying push state)
    (done : state.tree.unlink path = .ok next.tree) (calm : next.conflicts = state.conflicts) : Applying push next := by
  refine ⟨calm.trans applying.calm, fun other changed' => ?_⟩
  obtain ⟨clear, free⟩ := applying.reached other changed'
  constructor
  · refine Bool.eq_false_iff.mpr fun crossed => ?_
    obtain ⟨middle, inside, member⟩ := SyncTree.through_eq_true.mp crossed
    obtain ⟨held, present⟩ := (OrderedMap.mem_keys_iff _ _).mp member
    have shape := SyncTree.file_unlink done middle
    split at shape
    next same => cases present.symm.trans shape
    next different =>
      have file := (OrderedMap.mem_keys_iff _ _).mpr ⟨held, shape.symm.trans present⟩
      rw [SyncTree.through_eq_true.mpr ⟨middle, inside, file⟩] at clear
      cases clear
  · rw [SyncTree.directories_unlink done]
    exact free

/-- The step lemma: the receiver follows each change, and stays able to follow the others. -/
theorem applying_step (patchable : push.Patchable) (built : Built push.env push.localRoot push.options changeset)
    {change : OfflineSyncChange Content} (member : change ∈ changeset.changes) {sourceId : JsString}
    (applying : Applying push state)
    (seen : shaAt state.currentMap change.path =
      (contentAt push.remoteRoot change.path).map push.env.hashing.sha256) :
    ∃ next, applyChange push.env sourceId push.applyOptions (GenerationRouting.none push.remoteRoot) change state =
      .ok next ∧ Applying push next := by
  have changed := changed_of_member built member
  obtain ⟨base, new⟩ := shas_of_member built member
  obtain ⟨clear, free⟩ := applying.reached change.path changed
  have seen := seen.trans (remote_sha changed.1)
  have differs : shaAt state.currentMap change.path ≠ newSha change := by
    rw [seen, new]
    exact changed.2.symm
  have plain := change_plain built member
  obtain ⟨next, round, calm, written | removed⟩ :=
    applyChange_follows plain.notMarker differs (seen.trans base.symm) plain.archive clear free
  · obtain ⟨present, stored, done⟩ := written
    exact ⟨next, round, applying_write patchable applying changed (new ▸ present) done calm⟩
  · exact ⟨next, round, applying_unlink applying removed.2 calm⟩

theorem faithful_of_patchable (patchable : push.Patchable) : push.Faithful := by
  obtain ⟨changeset, done⟩ := builds_of_patchable patchable
  have built := build_ok done
  obtain ⟨normalized, accepted⟩ := accepts_of_patchable patchable built
  have members := @accepted_members _ push changeset built normalized accepted
  obtain ⟨start, ready⟩ := prepares_of_patchable patchable built accepted
  obtain ⟨prepared, _⟩ := prepare_ok push.ownCensus (generations_apart built) ready
  obtain ⟨among, once⟩ := accepted_changes prepared.accepted
  have begins : Applying push start := by
    refine ⟨prepared.calm, fun path changed => ?_⟩
    rw [prepared.root]
    exact remote_reached patchable changed
  obtain ⟨ended, ends⟩ := finishes
    (applyChange_local push.env push.applyOptions push.remoteRoot normalized.sourceId) once
    (fun change member => watched (changed_of_member built (members.mp member)).1)
    (fun change member state applying same => applying_step patchable built (members.mp member) applying
      ((congrArg Prod.snd same).trans (prepared.seen change member)))
    (fun _ _ => rfl) begins
  obtain ⟨result, applied, conflicts⟩ := apply_finished ready ended
  refine ⟨changeset, normalized, result, done, accepted, congrArg Prod.snd applied, conflicts.trans ends.calm, ?_⟩
  intro path pushed
  have root : (push.received changeset).1 = _ := congrArg Prod.fst applied
  rw [root]
  by_cases changed : push.Changed path
  · obtain ⟨change, member, named⟩ := member_of_changed built changed
    obtain ⟨base, new⟩ := shas_of_member built member
    rcases apply_settles prepared (markers_apart built) ended (members.mpr member)
      (watched (changed_of_member built member).1) with settled | moved
    · rw [← named, ← new]
      exact settled
    · exact absurd ((remote_sha (changed_of_member built member).1).trans base.symm) moved
  · have absent : path ∉ normalized.changes.map OfflineSyncChange.path := by
      intro listed
      obtain ⟨change, member, same⟩ := mem_map.mp listed
      exact changed (same ▸ changed_of_member built (members.mp member))
    have kept := untouched (applyChange_local push.env push.applyOptions push.remoteRoot normalized.sourceId) (watched pushed) absent start
    have same : push.localSha path = push.baseSha path := not_not.mp fun differs => changed ⟨pushed, differs⟩
    rw [show contentAt _ path = contentAt start.tree path from congrArg Prod.fst kept, prepared.root, same]
    exact remote_sha pushed

/-- A push is faithful exactly when its changed paths differ by more than case and no file and directory
trade places. -/
theorem faithful_iff_patchable (push : Push Content) : push.Faithful ↔ push.Patchable :=
  ⟨patchable_of_faithful, faithful_of_patchable⟩

end Sending

end Push

def flatRoot (files : OrderedMap JsString (Stored Content)) (top : ∀ path ∈ files.keys, ancestors path = []) :
    SyncTree Content where
  files := files
  directories := []
  parents := by
    intro path member above inside
    rw [top path member] at inside
    exact inside
  disjoint := fun _ _ => not_mem_nil

def everything : JsString → Bool := fun _ => false

theorem walked_everything (path : JsString) : walked everything path = true := by
  unfold walked everything
  simp

def upperCaseName : JsString := text "A.md"

def lowerCaseName : JsString := text "a.md"

def sampleText : Stored Sha256 := ⟨digestA, 0, by decide, by decide⟩

/-- Contents told by their digests, and the case fold of ASCII names. -/
def sampleEnvironment : Environment Sha256 where
  tables := { plainTables with toLowerCase := asciiLower }
  hashing := ⟨id, fun _ => 1⟩
  hashText := id
  stamp := id
  now := ⟨0, by decide, by decide⟩

theorem sample_pushable : Pushable true everything upperCaseName ∧ Pushable true everything lowerCaseName := by
  have upper : IsArchivePath upperCaseName := ⟨by decide, by decide, by decide, by decide +kernel⟩
  have lower : IsArchivePath lowerCaseName := ⟨by decide, by decide, by decide, by decide +kernel⟩
  refine ⟨⟨⟨upper, ?_, ?_, ?_⟩, ?_⟩, ⟨⟨lower, ?_, ?_, ?_⟩, ?_⟩⟩
  all_goals decide +kernel

def upperCaseRoot : SyncTree Sha256 := flatRoot ⟨[(upperCaseName, sampleText)], nodup_singleton _⟩ (by decide +kernel)

def lowerCaseRoot : SyncTree Sha256 := flatRoot ⟨[(lowerCaseName, sampleText)], nodup_singleton _⟩ (by decide +kernel)

/-- `A.md`, which the receiver holds, renamed to `a.md`. -/
def caseRename : Push Sha256 where
  env := sampleEnvironment
  generations := ⟨fun _ _ tree => .ok (GenerationRouting.none tree), fun _ _ _ _ => rfl⟩
  sourceId := text "laptop"
  validSource := by decide
  includeTranscripts := true
  userExcludes := everything
  deletions := none
  validDeletions := ⟨none, rfl⟩
  applyOptions := {}
  ownCensus := rfl
  base := census sampleEnvironment.tables sampleEnvironment.hashing everything upperCaseRoot
  localRoot := lowerCaseRoot
  remoteRoot := upperCaseRoot
  basePushable := by
    intro file member
    obtain ⟨_, stored, present, _⟩ := census_path.mp member
    have named := (OrderedMap.mem_keys_iff _ _).mpr ⟨stored, present⟩
    rw [show file.path = upperCaseName from mem_singleton.mp named]
    exact sample_pushable.1
  localPlain := by
    intro path member _
    rw [show path = lowerCaseName from mem_singleton.mp member]
    exact sample_pushable.2.1
  remoteIsBase := fun path _ => (shaAt_census (fun _ _ => Iff.rfl) (walked_everything path)).symm

/-- The removal and the new file fold to one path, so the receiver refuses the changeset. -/
theorem caseRename_refused : ¬caseRename.Faithful := by
  intro faithful
  have unique := (Push.patchable_of_faithful faithful).unique
  have gone : caseRename.Changed upperCaseName := ⟨sample_pushable.1, by decide +kernel⟩
  have new : caseRename.Changed lowerCaseName := ⟨sample_pushable.2, by decide +kernel⟩
  exact absurd (unique upperCaseName lowerCaseName gone new (by decide +kernel)) (by decide)

end Remnic.OfflineSync.FaithfulPatch
