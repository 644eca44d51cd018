import Remnic.OfflineSync.Patch

/-! What the receiver of a changeset does to one path, and to every other. -/

namespace Remnic.OfflineSync.Receive
open Library Library.AppendNew Library.GuardedFold Library.LocalSteps Text.CodeUnits Reconcile.Census Paths SyncRoot List Option
open Changeset Patch

variable {Content : Type}

def contentAt (tree : SyncTree Content) (path : JsString) : Option Content := (tree.file path).map Stored.content

/-- A path outside the directory in which copies of conflicting contents are kept. -/
def Watched (path : JsString) : Prop := shouldExcludeRelPath path true = false

theorem conflictPath_unwatched (rest : JsString) : ¬Watched (syncInternalDir ++ text "/conflicts/" ++ rest) := by
  intro watched
  have inside : syncInternalDir ∈ split slash (syncInternalDir ++ text "/conflicts/" ++ rest) := by
    have shape : syncInternalDir ++ text "/conflicts/" ++ rest =
        syncInternalDir ++ slash :: (text "conflicts/" ++ rest) := by
      rw [append_assoc]
      rfl
    rw [shape, split, splitOn_append_cons_self]
    exact mem_append_left _ (by decide)
  unfold Watched at watched
  rw [internal_excluded inside true] at watched
  cases watched

variable {next : ApplyState Content} {report : OfflineSyncConflict} {path : JsString} {state : ApplyState Content}
  {incoming : Option Content} {sourceId : JsString} {change : OfflineSyncChange Content}
  (map : OrderedMap JsString OfflineSyncFileState)

theorem contentAt_write {tree next : SyncTree Content} {stored : Stored Content} (done : tree.write path stored = .ok next)
    (other : JsString) : contentAt next other = if other = path then some stored.content else contentAt tree other := by
  unfold contentAt
  rw [SyncTree.file_write done]
  split
  next same => rfl
  next different => rfl

theorem contentAt_unlink {tree next : SyncTree Content} (done : tree.unlink path = .ok next) (other : JsString) :
    contentAt next other = if other = path then none else contentAt tree other := by
  unfold contentAt
  rw [SyncTree.file_unlink done]
  split
  next same => rfl
  next different => rfl

theorem recordConflict_ok {env : Environment Content} {tree : SyncTree Content} {errorPrefix : JsString} {copies : Bool}
    {recorded : OfflineSyncConflict × SyncTree Content}
    (done : recordConflict env tree errorPrefix sourceId copies incoming report = .ok recorded) :
    (∀ path, Watched path → contentAt recorded.2 path = contentAt tree path) ∧
      recorded.1.path = report.path ∧ recorded.1.reason = report.reason ∧
      tree.directories ⊆ recorded.2.directories ∧
      (∀ content, incoming = some content → copies = true →
        ∃ copy, recorded.1.conflictPath = some copy ∧ contentAt recorded.2 copy = some content) := by
  unfold recordConflict at done
  cases incoming with
  | none =>
    rw [← Except.ok.inj done]
    exact ⟨fun _ _ => rfl, rfl, rfl, Subset.refl _, fun _ same => by cases same⟩
  | some content =>
    dsimp only at done
    split_ifs at done with copying
    · obtain ⟨next, written, shape⟩ := bind_ok_iff.mp done
      rw [pure_ok_iff.mp shape]
      have written := (writeSafeFile_ok_iff.mp written).2
      refine ⟨fun path watched => ?_, rfl, rfl, ?_, fun other same _ => ⟨_, rfl, ?_⟩⟩
      · rw [contentAt_write written]
        split
        next same =>
          rw [same, append_assoc, append_assoc, append_assoc, append_assoc] at watched
          exact absurd watched (by rw [← append_assoc]; exact conflictPath_unwatched _)
        next different => rfl
      · rw [SyncTree.directories_write written]
        exact subset_append_left _ _
      · rw [contentAt_write written, if_pos rfl, some.inj same]
    · rw [← Except.ok.inj done]
      exact ⟨fun _ _ => rfl, rfl, rfl, Subset.refl _, fun _ _ enabled => absurd enabled copying⟩

/-- The digest a change starts from, and the one it leads to. -/
def baseSha : OfflineSyncChange Content → Option Sha256
  | .upsert _ base _ _ => base
  | .delete _ base _ => some base

def newSha : OfflineSyncChange Content → Option Sha256
  | .upsert _ _ file _ => some file.sha256
  | .delete _ _ _ => none

def newContent : OfflineSyncChange Content → Option Content
  | .upsert _ _ _ content => some content
  | .delete _ _ _ => none

theorem shas_of_contributes {env : Environment Content} {tree : SyncTree Content}
    {base current : OrderedMap JsString OfflineSyncFileState} (contributes : Contributes env tree base current path change) :
    baseSha change = shaAt base path ∧ newSha change = (contentAt tree path).map env.hashing.sha256 ∧
      newSha change ≠ baseSha change := by
  rcases contributes with upsert | delete
  · obtain ⟨stored, known, differs, present, shape⟩ := upsert
    rw [known] at differs
    rw [shape, contentAt, present]
    exact ⟨rfl, rfl, differs⟩
  · obtain ⟨sha, mtimeMs, known, gone, absent, shape⟩ := delete
    rw [shape, contentAt, absent]
    exact ⟨known.symm, rfl, some_ne_none _ ∘ Eq.symm⟩

def viewAt (path : JsString) (state : ApplyState Content) : Option Content × Option Sha256 :=
  (contentAt state.tree path, shaAt state.currentMap path)

theorem shaAt_set (path other : JsString) (file : OfflineSyncFileState) :
    shaAt (map.set path file) other = if other = path then some file.sha256 else shaAt map other := by
  unfold shaAt
  rw [OrderedMap.lookup_set]
  split
  next same => rfl
  next different => rfl

theorem shaAt_erase (path other : JsString) : shaAt (map.erase path) other = if other = path then none else shaAt map other := by
  unfold shaAt
  rw [OrderedMap.lookup_erase]
  split
  next same => rfl
  next different => rfl

/-- What one round can do: settle an equal path, follow the change from its base, or report a conflict. -/
structure Settled (change : OfflineSyncChange Content) (state next : ApplyState Content) : Prop where
  frame : ∀ path, Watched path → path ≠ change.path → viewAt path next = viewAt path state
  grows : state.tree.directories ⊆ next.tree.directories
  own : Watched change.path →
    (shaAt state.currentMap change.path = newSha change ∧ next.conflicts = state.conflicts ∧
      (contentAt next.tree change.path = contentAt state.tree change.path ∨
        contentAt state.tree change.path = none ∧ contentAt next.tree change.path = newContent change)) ∨
    (shaAt state.currentMap change.path ≠ newSha change ∧ shaAt state.currentMap change.path = baseSha change ∧
      next.conflicts = state.conflicts ∧ contentAt next.tree change.path = newContent change) ∨
    (shaAt state.currentMap change.path ≠ newSha change ∧ shaAt state.currentMap change.path ≠ baseSha change ∧
      (∃ report, next.conflicts = state.conflicts ++ [report] ∧ report.path = change.path) ∧
      contentAt next.tree change.path = contentAt state.tree change.path)

theorem applyUpsertWrite_ok {file : OfflineSyncFileState} {content : Content}
    (done : applyUpsertWrite path file content state = .ok next) :
    next.conflicts = state.conflicts ∧ state.tree.directories ⊆ next.tree.directories ∧
      ∀ other, viewAt other next = if other = path then (some content, some file.sha256) else viewAt other state := by
  unfold applyUpsertWrite at done
  obtain ⟨tree, written, shape⟩ := bind_ok_iff.mp done
  rw [pure_ok_iff.mp shape]
  have written := (writeSafeFile_ok_iff.mp written).2
  refine ⟨rfl, ?_, fun other => ?_⟩
  · unfold ApplyState.upserted
    rw [SyncTree.directories_write written]
    exact subset_append_left _ _
  · unfold viewAt ApplyState.upserted
    rw [contentAt_write written, shaAt_set]
    split
    next same => rfl
    next different => rfl

theorem applyConflict_ok {env : Environment Content} {options : ApplyOptions}
    (done : applyConflict env sourceId options incoming report state = .ok next) :
    (∃ recorded, next.conflicts = state.conflicts ++ [recorded] ∧ recorded.path = report.path) ∧
      state.tree.directories ⊆ next.tree.directories ∧
      ∀ path, Watched path → viewAt path next = viewAt path state := by
  unfold applyConflict at done
  obtain ⟨recorded, written, shape⟩ := bind_ok_iff.mp done
  obtain ⟨kept, named, _, grows, _⟩ := recordConflict_ok written
  rw [pure_ok_iff.mp shape]
  exact ⟨⟨recorded.1, rfl, named⟩, grows, fun path watched => Prod.ext (kept path watched) rfl⟩

theorem settled_equal (equal : shaAt state.currentMap change.path = newSha change) (calm : next.conflicts = state.conflicts)
    (same : ∀ path, contentAt next.tree path = contentAt state.tree path) (map : next.currentMap = state.currentMap)
    (grows : state.tree.directories ⊆ next.tree.directories) : Settled change state next where
  grows := grows
  frame := fun path _ _ => Prod.ext (same path) (by rw [viewAt, viewAt, map])
  own := fun _ => .inl ⟨equal, calm, .inl (same _)⟩

theorem settled_followed (differs : shaAt state.currentMap change.path ≠ newSha change)
    (based : shaAt state.currentMap change.path = baseSha change) (calm : next.conflicts = state.conflicts)
    (views : ∀ other, viewAt other next =
      if other = change.path then (newContent change, newSha change) else viewAt other state)
    (grows : state.tree.directories ⊆ next.tree.directories) : Settled change state next where
  grows := grows
  frame := fun path _ other => (views path).trans (if_neg other)
  own := fun _ => .inr (.inl ⟨differs, based, calm, congrArg Prod.fst ((views change.path).trans (if_pos rfl))⟩)

theorem settled_conflict (differs : shaAt state.currentMap change.path ≠ newSha change)
    (moved : shaAt state.currentMap change.path ≠ baseSha change)
    (reported : ∃ report, next.conflicts = state.conflicts ++ [report] ∧ report.path = change.path)
    (views : ∀ path, Watched path → viewAt path next = viewAt path state)
    (grows : state.tree.directories ⊆ next.tree.directories) : Settled change state next where
  grows := grows
  frame := fun path watched _ => views path watched
  own := fun watched => .inr (.inr ⟨differs, moved, reported, congrArg Prod.fst (views change.path watched)⟩)

theorem applyChange_settled {env : Environment Content} {options : ApplyOptions} {tree : SyncTree Content}
    (plain : isEmbeddingGenerationMarkerPath change.path = false)
    (done : applyChange env sourceId options (GenerationRouting.none tree) change state = .ok next) : Settled change state next := by
  unfold applyChange GenerationRouting.none at done
  rw [if_neg (by simp), if_neg (by simp), if_neg (by rw [plain]; decide)] at done
  cases change with
  | upsert path base file content =>
    dsimp only [OfflineSyncChange.path] at done
    split_ifs at done with equal
    · obtain ⟨touched, marked, rest⟩ := bind_ok_iff.mp done
      obtain ⟨same, level, missing⟩ := setSafeFileMtime_ok marked
      cases found : touched.1 with
      | true =>
        rw [found, if_pos rfl] at rest
        rw [pure_ok_iff.mp rest]
        exact settled_equal equal rfl same rfl (level ▸ Subset.refl _)
      | false =>
        rw [found, if_neg Bool.false_ne_true] at rest
        obtain ⟨calm, grows, views⟩ := applyUpsertWrite_ok rest
        refine ⟨fun other _ different => ?_, level ▸ grows, fun _ => .inl ⟨equal, calm, .inr ⟨?_, ?_⟩⟩⟩
        · refine (views other).trans ((if_neg different).trans ?_)
          exact Prod.ext (same other) rfl
        · unfold contentAt
          rw [OfflineSyncChange.path, missing found]
          rfl
        · exact congrArg Prod.fst ((views path).trans (if_pos rfl))
    · have differs : shaAt state.currentMap path ≠ newSha (.upsert path base file content) := equal
      cases base with
      | none =>
        cases present : (state.currentMap.lookup path).map OfflineSyncFileState.sha256 with
        | none =>
          rw [present] at done
          obtain ⟨calm, grows, views⟩ := applyUpsertWrite_ok done
          exact settled_followed differs present calm views grows
        | some current =>
          rw [present] at done
          obtain ⟨reported, grows, views⟩ := applyConflict_ok done
          refine settled_conflict differs ?_ reported views grows
          intro based
          rw [OfflineSyncChange.path, shaAt, present] at based
          cases based
      | some base =>
        dsimp only at done
        by_cases based : (state.currentMap.lookup path).map OfflineSyncFileState.sha256 = some base
        · rw [if_pos based] at done
          obtain ⟨calm, grows, views⟩ := applyUpsertWrite_ok done
          exact settled_followed differs based calm views grows
        · rw [if_neg based] at done
          obtain ⟨reported, grows, views⟩ := applyConflict_ok done
          exact settled_conflict differs based reported views grows
  | delete path base mtimeMs =>
    dsimp only [OfflineSyncChange.path] at done
    cases present : (state.currentMap.lookup path).map OfflineSyncFileState.sha256 with
    | none =>
      rw [present] at done
      rw [← Except.ok.inj done]
      exact settled_equal present rfl (fun _ => rfl) rfl (Subset.refl _)
    | some current =>
      rw [present] at done
      have differs : shaAt state.currentMap path ≠ newSha (.delete path base mtimeMs : OfflineSyncChange Content) := by
        rw [shaAt, present]
        exact some_ne_none current
      dsimp only at done
      split_ifs at done with based
      · obtain ⟨tree, removed, shape⟩ := bind_ok_iff.mp done
        rw [pure_ok_iff.mp shape]
        refine settled_followed differs (present.trans (congrArg some based)) rfl (fun other => ?_)
          (SyncTree.directories_unlink (deleteSafeFile_ok_iff.mp removed).2.2 ▸ Subset.refl _)
        unfold viewAt ApplyState.deleted
        rw [contentAt_unlink (deleteSafeFile_ok_iff.mp removed).2.2, shaAt_erase]
        by_cases same : other = path
        · rw [if_pos same, if_pos same]
          exact (if_pos same).symm
        · rw [if_neg same, if_neg same]
          exact (if_neg same).symm
      · obtain ⟨reported, grows, views⟩ := applyConflict_ok done
        refine settled_conflict differs ?_ reported views grows
        intro same
        rw [OfflineSyncChange.path, shaAt, present] at same
        exact based (some.inj same)

/-- A change whose base the root still holds is followed, if its path can be reached and is no directory. -/
theorem applyChange_follows {env : Environment Content} {options : ApplyOptions} {tree : SyncTree Content}
    (plain : isEmbeddingGenerationMarkerPath change.path = false) (differs : shaAt state.currentMap change.path ≠ newSha change)
    (based : shaAt state.currentMap change.path = baseSha change) (archive : IsArchivePath change.path)
    (clear : state.tree.through change.path = false) (free : change.path ∉ state.tree.directories) :
    ∃ next, applyChange env sourceId options (GenerationRouting.none tree) change state = .ok next ∧
      next.conflicts = state.conflicts ∧
      ((newSha change ≠ none ∧ ∃ stored, state.tree.write change.path stored = .ok next.tree) ∨
        newSha change = none ∧ state.tree.unlink change.path = .ok next.tree) := by
  unfold applyChange GenerationRouting.none
  rw [if_neg (by simp), if_neg (by simp), if_neg (by rw [plain]; decide)]
  unfold shaAt at differs based
  cases change with
  | upsert path base file content =>
    dsimp only [OfflineSyncChange.path, newSha, baseSha] at differs based archive clear free ⊢
    obtain ⟨next, written⟩ := SyncTree.write_ok clear free ⟨content, file.mtimeMs⟩
    have round : applyUpsertWrite path file content state = .ok (state.upserted path file next) := by
      have done : writeSafeFile state.tree applyPrefix path content file.mtimeMs = .ok next :=
        writeSafeFile_ok_iff.mpr ⟨archive, written⟩
      unfold applyUpsertWrite
      rw [done]
      rfl
    refine ⟨state.upserted path file next, ?_, rfl, .inl ⟨some_ne_none _, _, written⟩⟩
    rw [if_neg differs]
    cases base with
    | none =>
      rw [based]
      exact round
    | some base =>
      dsimp only
      rw [if_pos based]
      exact round
  | delete path base mtimeMs =>
    dsimp only [OfflineSyncChange.path, newSha, baseSha] at differs based archive clear free ⊢
    obtain ⟨next, removed⟩ := SyncTree.unlink_ok free
    have round : deleteSafeFile state.tree applyPrefix path = .ok next :=
      deleteSafeFile_ok_iff.mpr ⟨archive, clear, removed⟩
    refine ⟨state.deleted path next, ?_, rfl, .inr ⟨rfl, removed⟩⟩
    rw [based]
    dsimp only
    rw [if_pos rfl, round]
    rfl

section Running

variable {env : Environment Content} {generations : ChangesetGenerations Content} {options : ApplyOptions}
  {tree : SyncTree Content} {received : OfflineSyncChangeset Content}

theorem applyChange_local (env : Environment Content) (options : ApplyOptions) (tree : SyncTree Content)
    (sourceId : JsString) :
    Local OfflineSyncChange.path viewAt Watched (applyChange env sourceId options (GenerationRouting.none tree)) := by
  intro change state next done path watched other
  by_cases plain : isEmbeddingGenerationMarkerPath change.path = true
  · unfold applyChange GenerationRouting.none at done
    rw [if_neg (by simp), if_neg (by simp), if_pos plain] at done
    rw [← Except.ok.inj done]
    rfl
  · exact (applyChange_settled (Bool.eq_false_iff.mpr plain) done).frame path watched other

theorem directories_kept (env : Environment Content) (options : ApplyOptions) (tree : SyncTree Content)
    (sourceId : JsString) (changes : List (OfflineSyncChange Content))
    (plain : ∀ change ∈ changes, isEmbeddingGenerationMarkerPath change.path = false) (start : ApplyState Content) :
    start.tree.directories ⊆ (runSteps (applyChange env sourceId options (GenerationRouting.none tree))
      changes start).1.tree.directories := by
  have kept : ∀ change ∈ changes, ∀ state next : ApplyState Content, start.tree.directories ⊆ state.tree.directories →
      applyChange env sourceId options (GenerationRouting.none tree) change state = .ok next →
      start.tree.directories ⊆ next.tree.directories := fun change member state next grown round =>
    Subset.trans grown (applyChange_settled (plain change member) round).grows
  exact runSteps_invariant changes kept (Subset.refl _)

theorem verified {changes : List (OfflineSyncChange Content)}
    (done : (changes.forM fun change => match change with
      | .upsert _ _ file content => verifyContent env.hashing (text "offline sync changeset") file content
      | .delete _ _ _ => (.ok () : Except Failure Unit)) = .ok ()) :
    ∀ change ∈ changes, (newContent change).map env.hashing.sha256 = newSha change := by
  rw [forM_ok_iff] at done
  intro change member
  have checked := done change member
  cases change with
  | upsert path base file content =>
    dsimp only [verifyContent] at checked
    split_ifs at checked with same
    exact congrArg some same.1
  | delete path base mtimeMs => rfl

/-- A receiver that starts its loop has accepted every change and sees what its root holds at their paths. -/
structure Prepared (env : Environment Content) (tree : SyncTree Content) (received changeset : OfflineSyncChangeset Content)
    (start : ApplyState Content) : Prop where
  accepted : normalizeOfflineSyncChangeset env.tables received = .ok changeset
  contents : ∀ change ∈ changeset.changes, (newContent change).map env.hashing.sha256 = newSha change
  root : start.tree = tree
  calm : start.conflicts = []
  reached : ∀ change ∈ changeset.changes, tree.through change.path = false
  seen : ∀ change ∈ changeset.changes,
    shaAt start.currentMap change.path = (contentAt tree change.path).map env.hashing.sha256

variable {start : ApplyState Content} {changeset : OfflineSyncChangeset Content}

theorem currentFiles_ok {files : List OfflineSyncFileState} (own : options.currentFiles = none)
    (done : currentFilesFor env tree options changeset = .ok files) :
    ∀ change ∈ changeset.changes, tree.through change.path = false ∧
      shaAt (byPath files) change.path = (contentAt tree change.path).map env.hashing.sha256 := by
  unfold currentFilesFor at done
  rw [own] at done
  obtain ⟨found, mapped, shape⟩ := bind_ok_iff.mp done
  have read := mapM_ok_iff.mp mapped
  rw [pure_ok_iff.mp shape]
  have entry : ∀ file ∈ (found.filterMap id).map Prod.fst, ∃ stored, tree.file file.path = some stored ∧
      file = env.hashing.stateOf file.path stored := by
    intro file member
    obtain ⟨pair, inside, first⟩ := mem_map.mp member
    obtain ⟨out, listed, same⟩ := mem_filterMap.mp inside
    obtain ⟨path, _, snapshot⟩ := forall₂_mem_right read listed
    obtain ⟨_, _, _, value⟩ := snapshotForPath_ok_iff.mp snapshot
    have value : some pair = (tree.file path).map fun stored => (env.hashing.stateOf path stored, stored.content) :=
      same.symm.trans value
    obtain ⟨stored, present, equal⟩ := map_eq_some_iff.mp value.symm
    rw [← first, ← equal]
    exact ⟨stored, present, rfl⟩
  intro change member
  have listed : change.path ∈ appendNew [] (changeset.changes.map OfflineSyncChange.path) :=
    (mem_appendNew _ _ _).mpr (.inr (mem_map_of_mem member))
  obtain ⟨out, inside, snapshot⟩ := forall₂_mem_left read listed
  obtain ⟨_, _, clear, value⟩ := snapshotForPath_ok_iff.mp snapshot
  refine ⟨clear, ?_⟩
  unfold shaAt contentAt
  cases present : tree.file change.path with
  | none =>
    rw [lookup_byPath_none]
    · rfl
    · intro file known same
      obtain ⟨stored, held, _⟩ := entry file known
      rw [same, present] at held
      cases held
  | some stored =>
    have known : env.hashing.stateOf change.path stored ∈ (found.filterMap id).map Prod.fst := by
      rw [present] at value
      exact mem_map.mpr ⟨_, mem_filterMap.mpr ⟨out, inside, value⟩, rfl⟩
    obtain ⟨last, held⟩ := lookup_byPath_of_mem known
    obtain ⟨among, same⟩ := lookup_byPath held
    obtain ⟨stored', held', shape⟩ := entry last among
    have path : last.path = change.path := same
    rw [path, present] at held'
    have held : (byPath ((found.filterMap id).map Prod.fst)).lookup change.path = some last := held
    rw [held, map_some, shape, ← some.inj held']
    rfl

theorem prepare_ok {routing : GenerationRouting Content} (own : options.currentFiles = none)
    (apart : ∀ change ∈ received.changes, embeddingGenerationMembership change.path = none)
    (done : prepareChangeset env generations tree options received = .ok (changeset, routing, start)) :
    Prepared env tree received changeset start ∧ routing = GenerationRouting.none tree := by
  unfold prepareChangeset at done
  obtain ⟨normal, accepted, rest⟩ := bind_ok_iff.mp done
  obtain ⟨_, checked, rest⟩ := bind_ok_iff.mp rest
  obtain ⟨files, current, rest⟩ := bind_ok_iff.mp rest
  obtain ⟨routed, route, last⟩ := bind_ok_iff.mp rest
  obtain ⟨kept, same, _, _, _, _, _, _, sorted⟩ := (normalizeOfflineSyncChangeset_ok_iff _).mp accepted
  have among : ∀ change ∈ normal.changes, change ∈ received.changes := by
    intro change member
    rw [sorted, mem_mergeSort, same] at member
    exact (mem_filter.mp member).1
  rw [generations.idle normal (byPath files) tree fun change member => apart change (among change member)] at route
  have idle := Except.ok.inj route
  rw [← idle] at last
  obtain ⟨changesets, pair⟩ := Prod.mk.inj (Except.ok.inj last)
  obtain ⟨routings, starts⟩ := Prod.mk.inj pair
  have seen := currentFiles_ok own current
  rw [← changesets, ← starts]
  exact ⟨⟨accepted, verified checked, rfl, rfl, fun change member => (seen change member).1,
    fun change member => (seen change member).2⟩, routings.symm⟩

theorem accepted_changes (accepted : normalizeOfflineSyncChangeset env.tables received = .ok changeset) :
    (∀ change ∈ changeset.changes, change ∈ received.changes) ∧
      (changeset.changes.map OfflineSyncChange.path).Nodup := by
  obtain ⟨kept, same, _, _, unique, _, _, _, sorted⟩ := (normalizeOfflineSyncChangeset_ok_iff _).mp accepted
  constructor
  · intro change member
    rw [sorted, mem_mergeSort, same] at member
    exact (mem_filter.mp member).1
  · rw [sorted]
    exact ((mergeSort_perm _ _).map _).nodup_iff.mpr (Nodup.of_map _ unique)

theorem apply_runs (env : Environment Content) (generations : ChangesetGenerations Content) (tree : SyncTree Content)
    (own : options.currentFiles = none)
    (apart : ∀ change ∈ received.changes, embeddingGenerationMembership change.path = none) :
    (applyOfflineSyncChangeset env generations tree options received).1 = tree ∧
        (∃ failure, (applyOfflineSyncChangeset env generations tree options received).2 = .error failure) ∨
      ∃ changeset start, Prepared env tree received changeset start ∧
        prepareChangeset env generations tree options received =
          .ok (changeset, GenerationRouting.none tree, start) ∧
        (applyOfflineSyncChangeset env generations tree options received).1 =
          (runSteps (applyChange env changeset.sourceId options (GenerationRouting.none tree)) changeset.changes
            start).1.tree ∧
        ((∃ result, (applyOfflineSyncChangeset env generations tree options received).2 = .ok result) ↔
          (runSteps (applyChange env changeset.sourceId options (GenerationRouting.none tree)) changeset.changes
            start).2 = none) ∧
        ∀ result, (applyOfflineSyncChangeset env generations tree options received).2 = .ok result →
          result.conflicts = (runSteps (applyChange env changeset.sourceId options (GenerationRouting.none tree))
            changeset.changes start).1.conflicts := by
  cases ready : prepareChangeset env generations tree options received with
  | error failure =>
    refine .inl ⟨?_, failure, ?_⟩
    · unfold applyOfflineSyncChangeset
      rw [ready]
    · unfold applyOfflineSyncChangeset
      rw [ready]
  | ok parts =>
    obtain ⟨changeset, routing, start⟩ := parts
    obtain ⟨prepared, idle⟩ := prepare_ok own apart ready
    rw [idle] at ready
    refine .inr ⟨changeset, start, prepared, by rw [idle], ?_⟩
    unfold applyOfflineSyncChangeset
    rw [ready]
    dsimp only
    cases ended : (runSteps (applyChange env changeset.sourceId options (GenerationRouting.none tree))
        changeset.changes start).2 with
    | some failure => exact ⟨rfl, by simp, fun result done => by cases done⟩
    | none =>
      refine ⟨rfl, by simp, fun result done => ?_⟩
      rw [← Except.ok.inj done]
      rfl

theorem apply_finished
    (ready : prepareChangeset env generations tree options received =
      .ok (changeset, GenerationRouting.none tree, start))
    (ended : (runSteps (applyChange env changeset.sourceId options (GenerationRouting.none tree)) changeset.changes
      start).2 = none) :
    ∃ result, applyOfflineSyncChangeset env generations tree options received =
        ((runSteps (applyChange env changeset.sourceId options (GenerationRouting.none tree)) changeset.changes
          start).1.tree, .ok result) ∧
      result.conflicts = (runSteps (applyChange env changeset.sourceId options (GenerationRouting.none tree))
        changeset.changes start).1.conflicts := by
  unfold applyOfflineSyncChangeset
  rw [ready]
  dsimp only
  rw [ended]
  exact ⟨_, rfl, rfl⟩

theorem apply_keeps (env : Environment Content) (generations : ChangesetGenerations Content) (tree : SyncTree Content)
    (own : options.currentFiles = none)
    (apart : ∀ change ∈ received.changes, embeddingGenerationMembership change.path = none)
    (plain : ∀ change ∈ received.changes, isEmbeddingGenerationMarkerPath change.path = false) {path : JsString}
    (watched : Watched path) :
    contentAt (applyOfflineSyncChangeset env generations tree options received).1 path = contentAt tree path ∨
      ∃ change ∈ received.changes, change.path = path ∧
        (contentAt tree path).map env.hashing.sha256 = baseSha change := by
  rcases apply_runs env generations tree own apart with refused | ran
  · exact .inl (by rw [refused.1])
  · obtain ⟨changeset, start, prepared, _, root, _, _⟩ := ran
    obtain ⟨among, once⟩ := accepted_changes prepared.accepted
    have start' : contentAt start.tree path = contentAt tree path := by rw [prepared.root]
    rcases kept_or_stepped (applyChange_local env options tree changeset.sourceId) once watched start with kept | stepped
    · exact .inl (by rw [root]; exact (congrArg Prod.fst kept).trans start')
    · obtain ⟨change, member, named, before, after, seen, round, last⟩ := stepped
      have settled := applyChange_settled (plain change (among change member)) round
      have last := congrArg Prod.fst last
      rw [← named] at seen last watched start' ⊢
      have sha : shaAt before.currentMap change.path = (contentAt tree change.path).map env.hashing.sha256 :=
        (congrArg Prod.snd seen).trans (prepared.seen change member)
      have content : contentAt before.tree change.path = contentAt tree change.path :=
        (congrArg Prod.fst seen).trans start'
      rw [root]
      rcases settled.own watched with equal | followed | conflict
      · obtain ⟨same, _, kept | new⟩ := equal
        · exact .inl (last.trans (kept.trans content))
        · rw [sha, ← content, new.1] at same
          refine .inl (last.trans (new.2.trans ?_))
          rw [← content, new.1]
          exact map_eq_none_iff.mp ((prepared.contents change member).trans same.symm)
      · exact .inr ⟨change, among change member, rfl, sha ▸ followed.2.1⟩
      · exact .inl (last.trans (conflict.2.2.2.trans content))

/-- A call that returns has brought each changed path to its new digest, or found it moved from the base. -/
theorem apply_settles (prepared : Prepared env tree received changeset start)
    (plain : ∀ change ∈ received.changes, isEmbeddingGenerationMarkerPath change.path = false)
    (ended : (runSteps (applyChange env changeset.sourceId options (GenerationRouting.none tree)) changeset.changes start).2 = none)
    {change : OfflineSyncChange Content} (member : change ∈ changeset.changes) (watched : Watched change.path) :
    (contentAt (runSteps (applyChange env changeset.sourceId options (GenerationRouting.none tree)) changeset.changes
        start).1.tree change.path).map env.hashing.sha256 = newSha change ∨
      (contentAt tree change.path).map env.hashing.sha256 ≠ baseSha change := by
  obtain ⟨among, once⟩ := accepted_changes prepared.accepted
  obtain ⟨before, after, seen, round, last, _⟩ :=
    stepped (applyChange_local env options tree changeset.sourceId) once watched member ended
  have settled := applyChange_settled (plain change (among change member)) round
  have last := congrArg Prod.fst last
  have sha : shaAt before.currentMap change.path = (contentAt tree change.path).map env.hashing.sha256 :=
    (congrArg Prod.snd seen).trans (prepared.seen change member)
  have content : contentAt before.tree change.path = contentAt tree change.path :=
    (congrArg Prod.fst seen).trans (congrArg (contentAt · change.path) prepared.root)
  have last : contentAt (runSteps (applyChange env changeset.sourceId options (GenerationRouting.none tree))
      changeset.changes start).1.tree change.path = contentAt after.tree change.path := last
  rw [last]
  rcases settled.own watched with equal | followed | conflict
  · obtain ⟨same, _, kept | new⟩ := equal
    · exact .inl (by rw [kept, content, ← sha, same])
    · exact .inl (by rw [new.2, prepared.contents change member])
  · exact .inl (by rw [followed.2.2.2, prepared.contents change member])
  · exact .inr (sha ▸ conflict.2.1)

end Running

end Remnic.OfflineSync.Receive
