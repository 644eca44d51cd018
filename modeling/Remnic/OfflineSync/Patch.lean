import Remnic.OfflineSync.Changeset

/-! What each stage of a push does to one path. -/

namespace Remnic.OfflineSync.Patch
open Library Library.AppendNew Library.GuardedFold Library.LocalSteps Text.CodeUnits Reconcile.Census Paths SyncRoot List
open Changeset

variable {Content : Type}

theorem normalizeRelativePath_ok_iff (path field safe : JsString) :
    normalizeRelativePath path field = .ok safe ↔ IsArchivePath path ∧ safe = path := by
  unfold normalizeRelativePath
  rw [throwing_ok_iff, validate_ok_iff]

theorem normalizeFileState_ok_iff (file out : OfflineSyncFileState) (field : JsString) :
    normalizeFileState file field = .ok out ↔ IsArchivePath file.path ∧ out = file := by
  unfold normalizeFileState
  simp only [bind_ok_iff, normalizeRelativePath_ok_iff, pure_ok_iff]
  constructor
  · intro done
    obtain ⟨path, ⟨archive, same⟩, shape⟩ := done
    exact ⟨archive, by rw [shape, same]⟩
  · intro facts
    exact ⟨file.path, ⟨facts.1, rfl⟩, facts.2⟩

theorem normalizeFileStates_ok_iff (files out : List OfflineSyncFileState) :
    normalizeFileStates files = .ok out ↔ (∀ file ∈ files, IsArchivePath file.path) ∧ out = files :=
  mapM_zipIdx_ok_iff (fun file _ out => normalizeFileState_ok_iff file out _) files out 0

variable {file : OfflineSyncFileState} {files : List OfflineSyncFileState} {sourceId : JsString}
  {change : OfflineSyncChange Content} {paths : List JsString} {field : JsString} (tables : UnicodeTables)
  (keys : List (List JsString)) (context : JsString)

theorem assertUniquePaths_ok_iff (seen paths : List JsString) :
    assertUniquePaths tables context seen paths = .ok () ↔
      (paths.map tables.toLowerCase).Nodup ∧ ∀ path ∈ paths, tables.toLowerCase path ∉ seen := by
  induction paths generalizing seen with
  | nil => simp [assertUniquePaths]
  | cons path rest ih =>
    unfold assertUniquePaths
    rw [map_cons, nodup_cons, forall_mem_cons]
    split
    next known =>
      rw [contains_iff_mem] at known
      simp [known]
    next fresh =>
      rw [contains_iff_mem] at fresh
      rw [ih]
      constructor
      · intro facts
        refine ⟨⟨?_, facts.1⟩, fresh, fun later member inside => facts.2 later member (mem_cons_of_mem _ inside)⟩
        intro again
        obtain ⟨later, member, same⟩ := mem_map.mp again
        exact facts.2 later member (same ▸ mem_cons_self)
      · intro facts
        refine ⟨facts.1.2, fun later member inside => ?_⟩
        rcases mem_cons.mp inside with same | known
        · exact facts.1.1 (same ▸ mem_map_of_mem member)
        · exact facts.2.2 later member known

theorem find_none_iff {bad : JsString → Bool} : paths.find? bad = none ↔ ∀ path ∈ paths, bad path = false := by
  rw [find?_eq_none]
  simp

theorem assertEntryPaths_ok_iff {includeTranscripts : Bool} {paths : List JsString} :
    assertEntryPaths tables context includeTranscripts paths = .ok () ↔
      (paths.map tables.toLowerCase).Nodup ∧
        (includeTranscripts = false → ∀ path ∈ paths, isTranscriptPath path = false) ∧
        ∀ path ∈ paths, shouldExcludeRelPath path true = false := by
  have unique := assertUniquePaths_ok_iff tables context [] paths
  have transcripts : assertNoTranscripts context includeTranscripts paths = .ok () ↔
      (includeTranscripts = false → ∀ path ∈ paths, isTranscriptPath path = false) := by
    unfold assertNoTranscripts
    cases includeTranscripts with
    | true => simp
    | false =>
      rw [← find_none_iff]
      cases found : paths.find? isTranscriptPath with
      | none => simp
      | some path => simp
  have excluded : assertNoExcludedPath context paths = .ok () ↔
      ∀ path ∈ paths, shouldExcludeRelPath path true = false := by
    unfold assertNoExcludedPath
    rw [← find_none_iff]
    cases found : paths.find? fun path => shouldExcludeRelPath path true with
    | none => simp
    | some path => simp
  unfold assertEntryPaths
  rw [guard_bind_ok_iff, guard_bind_ok_iff, unique, transcripts, excluded]
  simp

theorem normalizeChange_ok_iff (change out : OfflineSyncChange Content) (index : Nat) :
    normalizeChange change index = .ok out ↔
      (IsArchivePath change.path ∧ ∀ path base file content, change = .upsert path base file content → file.path = path) ∧
        out = change := by
  cases change with
  | upsert path base file content =>
    unfold normalizeChange
    simp only [bind_ok_iff, normalizeRelativePath_ok_iff, normalizeFileState_ok_iff, OfflineSyncChange.path]
    constructor
    · intro done
      obtain ⟨relPath, ⟨archive, same⟩, state, ⟨_, kept⟩, last⟩ := done
      split at last
      next different => cases last
      next equal =>
        rw [not_not, kept, same] at equal
        refine ⟨⟨archive, ?_⟩, ?_⟩
        · intro path' base' file' content' shape
          injection shape with paths _ files _
          rw [← files, ← paths, equal]
        · rw [pure_ok_iff.mp last, same, kept]
    · intro facts
      obtain ⟨⟨archive, agree⟩, same⟩ := facts
      have equal := agree path base file content rfl
      refine ⟨path, ⟨archive, rfl⟩, file, ⟨by rw [equal]; exact archive, rfl⟩, ?_⟩
      rw [if_neg (not_not.mpr equal), same]
      rfl
  | delete path base mtimeMs =>
    unfold normalizeChange
    simp only [bind_ok_iff, normalizeRelativePath_ok_iff, OfflineSyncChange.path]
    constructor
    · intro done
      obtain ⟨relPath, ⟨archive, same⟩, last⟩ := done
      rw [pure_ok_iff.mp last, same]
      exact ⟨⟨archive, fun _ _ _ _ shape => by cases shape⟩, rfl⟩
    · intro facts
      obtain ⟨⟨archive, _⟩, same⟩ := facts
      exact ⟨path, ⟨archive, rfl⟩, by rw [same]; rfl⟩

def compareChanges (tables : UnicodeTables) (first second : OfflineSyncChange Content) : Bool :=
  tables.localeLe first.path second.path

/-- A change as the receiver reads it back: its path is valid and its file carries the same path. -/
def WellFormed (change : OfflineSyncChange Content) : Prop :=
  IsArchivePath change.path ∧ ∀ path base file content, change = .upsert path base file content → file.path = path

/-- The receiver accepts a changeset and keeps every change, but for the ones it ignores. -/
theorem normalizeOfflineSyncChangeset_ok_iff {changeset out : OfflineSyncChangeset Content} :
    normalizeOfflineSyncChangeset tables changeset = .ok out ↔
      ∃ kept, kept = changeset.changes.filter (fun change => !shouldIgnoreIncomingRuntimePath change.path) ∧
        normalizeSourceId changeset.sourceId (text "sourceId") = .ok out.sourceId ∧
        (∀ change ∈ changeset.changes, WellFormed change) ∧
        ((kept.map OfflineSyncChange.path).map tables.toLowerCase).Nodup ∧
        (changeset.includeTranscripts = false → ∀ change ∈ kept, isTranscriptPath change.path = false) ∧
        (∀ change ∈ kept, shouldExcludeRelPath change.path true = false) ∧
        out.includeTranscripts = changeset.includeTranscripts ∧
        out.changes = kept.mergeSort (compareChanges tables) := by
  have reads (changes out : List (OfflineSyncChange Content)) (start : Nat) :
      ((changes.zipIdx start).mapM fun entry => normalizeChange entry.1 entry.2) = .ok out ↔
        (∀ change ∈ changes, WellFormed change) ∧ out = changes :=
    mapM_zipIdx_ok_iff (fun change index out => normalizeChange_ok_iff change out index) changes out start
  unfold normalizeOfflineSyncChangeset
  simp only [bind_ok_iff, reads, pure_ok_iff]
  constructor
  · intro done
    obtain ⟨sourceId, source, read, ⟨wellFormed, same⟩, _, checked, shape⟩ := done
    obtain ⟨unique, transcripts, excluded⟩ := (assertEntryPaths_ok_iff _ _).mp checked
    simp only [forall_mem_map] at transcripts excluded
    rw [same] at unique transcripts excluded shape
    exact ⟨_, rfl, by rw [shape]; exact source, wellFormed, unique, transcripts, excluded, by rw [shape], by rw [shape]; rfl⟩
  · intro facts
    obtain ⟨kept, same, source, wellFormed, unique, transcripts, excluded, mode, sorted⟩ := facts
    rw [same] at unique transcripts excluded sorted
    refine ⟨_, source, _, ⟨wellFormed, rfl⟩, (), (assertEntryPaths_ok_iff _ _).mpr ⟨unique, ?_, ?_⟩, ?_⟩
    · simpa only [forall_mem_map] using transcripts
    · simpa only [forall_mem_map] using excluded
    cases out
    simp only at mode sorted
    rw [mode, sorted]
    rfl

theorem lookup_byPath {path : JsString} (found : (byPath files).lookup path = some file) : file ∈ files ∧ file.path = path := by
  suffices general : ∀ (rest : List OfflineSyncFileState) (start : OrderedMap JsString OfflineSyncFileState),
      (rest.foldl (fun out file => out.set file.path file) start).lookup path = some file →
        (file ∈ rest ∧ file.path = path) ∨ start.lookup path = some file by
    rcases general files OrderedMap.empty found with listed | empty
    · exact listed
    · cases empty
  intro rest
  induction rest with
  | nil => exact fun start held => .inr held
  | cons head rest ih =>
    intro start held
    rcases ih (start.set head.path head) held with listed | before
    · exact .inl ⟨mem_cons_of_mem _ listed.1, listed.2⟩
    · rw [OrderedMap.lookup_set] at before
      split at before
      next same =>
        have equal : head = file := Option.some.inj before
        exact .inl ⟨equal ▸ mem_cons_self, by rw [← equal, same]⟩
      next other => exact .inr before

theorem lookup_byPath_of_mem (member : file ∈ files) : ∃ last, (byPath files).lookup file.path = some last := by
  suffices general : ∀ (rest : List OfflineSyncFileState) (start : OrderedMap JsString OfflineSyncFileState),
      (file ∈ rest ∨ ∃ last, start.lookup file.path = some last) →
        ∃ last, (rest.foldl (fun out file => out.set file.path file) start).lookup file.path = some last by
    exact general files OrderedMap.empty (.inl member)
  intro rest
  induction rest with
  | nil =>
    intro start held
    exact held.resolve_left not_mem_nil
  | cons head rest ih =>
    intro start held
    apply ih
    rw [OrderedMap.lookup_set]
    split
    next same => exact .inr ⟨head, rfl⟩
    next other =>
      rcases held with listed | before
      · exact .inl ((mem_cons.mp listed).resolve_left fun equal => other (by rw [equal]))
      · exact .inr before

theorem lookup_byPath_iff (once : (files.map OfflineSyncFileState.path).Nodup) (path : JsString) (file : OfflineSyncFileState) :
    (byPath files).lookup path = some file ↔ file ∈ files ∧ file.path = path := by
  constructor
  · exact lookup_byPath
  · intro facts
    obtain ⟨last, found⟩ := lookup_byPath_of_mem facts.1
    obtain ⟨listed, same⟩ := lookup_byPath found
    rw [← facts.2, found, inj_on_of_nodup_map once listed facts.1 same]

theorem lookup_byPath_perm {others : List OfflineSyncFileState} (perm : files.Perm others)
    (once : (files.map OfflineSyncFileState.path).Nodup) (path : JsString) :
    (byPath files).lookup path = (byPath others).lookup path := by
  refine Option.ext fun file => ?_
  rw [lookup_byPath_iff once, lookup_byPath_iff ((perm.map _).nodup_iff.mp once), perm.mem_iff]

theorem lookup_byPath_none {path : JsString} (absent : ∀ file ∈ files, file.path ≠ path) : (byPath files).lookup path = none := by
  cases found : (byPath files).lookup path with
  | none => rfl
  | some file =>
    obtain ⟨listed, same⟩ := lookup_byPath found
    exact absurd same (absent file listed)

theorem mem_unionPaths {path : JsString} : path ∈ unionPaths keys ↔ ∃ list ∈ keys, path ∈ list := by
  unfold unionPaths
  rw [mem_mergeSort, mem_appendNew, mem_flatten]
  simp

theorem nodup_unionPaths : (unionPaths keys).Nodup :=
  (mergeSort_perm _ _).nodup_iff.mpr (nodup_appendNew nodup_nil _)

theorem snapshotForPath_ok_iff {hashing : Hashing Content} {excluded : JsString → Bool} {tree : SyncTree Content}
    {path : JsString} {found : Option (OfflineSyncFileState × Content)} :
    snapshotForPath hashing excluded tree path = .ok found ↔
      IsArchivePath path ∧ excluded path = false ∧ tree.through path = false ∧
        found = (tree.file path).map fun stored => (hashing.stateOf path stored, stored.content) := by
  unfold snapshotForPath
  simp only [bind_ok_iff, normalizeRelativePath_ok_iff]
  constructor
  · intro done
    obtain ⟨relPath, ⟨archive, same⟩, rest⟩ := done
    rw [same] at rest
    cases skipped : excluded path with
    | true =>
      rw [skipped, if_pos rfl] at rest
      cases rest
    | false =>
      rw [skipped, if_neg Bool.false_ne_true] at rest
      simp only [bind_ok_iff, resolve_ok_iff, SyncTree.lstat_ok_iff] at rest
      obtain ⟨target, ⟨_, clear, equal⟩, stat, ⟨_, shape⟩, last⟩ := rest
      refine ⟨archive, rfl, clear, ?_⟩
      rw [shape, equal] at last
      unfold SyncTree.stat at last
      cases present : tree.file path with
      | some stored =>
        rw [present] at last
        exact (Except.ok.inj last).symm
      | none =>
        rw [present] at last
        by_cases directory : path ∈ tree.directories
        · rw [if_pos directory] at last
          exact (Except.ok.inj last).symm
        · rw [if_neg directory] at last
          exact (Except.ok.inj last).symm
  · intro facts
    obtain ⟨archive, kept, clear, shape⟩ := facts
    refine ⟨path, ⟨archive, rfl⟩, ?_⟩
    rw [kept, if_neg Bool.false_ne_true]
    simp only [bind_ok_iff, resolve_ok_iff, SyncTree.lstat_ok_iff]
    refine ⟨path, ⟨archive, clear, rfl⟩, tree.stat path, ⟨clear, rfl⟩, ?_⟩
    rw [shape]
    unfold SyncTree.stat
    cases present : tree.file path with
    | some stored => rfl
    | none =>
      by_cases directory : path ∈ tree.directories
      · rw [if_pos directory]
        rfl
      · rw [if_neg directory]
        rfl

theorem regularFilePresent_ok_iff {tree : SyncTree Content} {errorPrefix path : JsString} {found : Bool} :
    offlineSyncRegularFilePresent tree errorPrefix path = .ok found ↔
      IsArchivePath path ∧ tree.through path = false ∧ found = (tree.file path).isSome := by
  unfold offlineSyncRegularFilePresent
  simp only [bind_ok_iff, throwing_ok_iff, validate_ok_iff, SyncTree.lstat_ok_iff]
  constructor
  · intro done
    obtain ⟨safe, ⟨archive, same⟩, stat, ⟨clear, shape⟩, last⟩ := done
    rw [same] at clear shape
    rw [shape, SyncTree.stat] at last
    refine ⟨archive, clear, ?_⟩
    cases held : tree.file path with
    | some stored =>
      rw [held] at last
      exact pure_ok_iff.mp last
    | none =>
      rw [held] at last
      dsimp only at last
      split_ifs at last
      · exact pure_ok_iff.mp last
      · exact pure_ok_iff.mp last
  · intro facts
    refine ⟨path, ⟨facts.1, rfl⟩, tree.stat path, ⟨facts.2.1, rfl⟩, ?_⟩
    rw [facts.2.2, SyncTree.stat]
    cases tree.file path with
    | some stored => rfl
    | none =>
      dsimp only
      split_ifs
      · rfl
      · rfl

def shaAt (map : OrderedMap JsString OfflineSyncFileState) (path : JsString) : Option Sha256 :=
  (map.lookup path).map OfflineSyncFileState.sha256

/-- The change at a path whose two digests differ: the file that is there now, or its removal. -/
def Contributes (env : Environment Content) (tree : SyncTree Content)
    (base current : OrderedMap JsString OfflineSyncFileState) (path : JsString) (change : OfflineSyncChange Content) :
    Prop :=
  (∃ stored, shaAt current path = some (env.hashing.sha256 stored.content) ∧ shaAt current path ≠ shaAt base path ∧
      tree.file path = some stored ∧
      change = .upsert path (shaAt base path) (env.hashing.stateOf path stored) stored.content) ∨
    ∃ baseSha mtimeMs, shaAt base path = some baseSha ∧ shaAt current path = none ∧ tree.file path = none ∧
      change = .delete path baseSha mtimeMs

section Building

variable {env : Environment Content} {tree : SyncTree Content} {options : BuildOptions} {excludedPaths : List JsString}
  {base current : OrderedMap JsString OfflineSyncFileState} {deletions : Option (List OfflineSyncDeletionRevision)}
  {path : JsString}

def Withheld (options : BuildOptions) (excludedPaths : List JsString) (path : JsString) : Prop :=
  path ∈ excludedPaths ∨ shouldExcludePushRelPath path options.includeTranscripts options.userExcludes = true ∨
    shouldPreferIncomingOfflineRuntimeFile path = true

theorem changeFor_withheld (withheld : Withheld options excludedPaths path) :
    changeFor env tree options excludedPaths base current deletions path = .ok none := by
  unfold changeFor
  by_cases listed : path ∈ excludedPaths
  · rw [if_pos (contains_iff_mem.mpr listed)]
  · rw [if_neg fun found => listed (contains_iff_mem.mp found)]
    by_cases excluded : shouldExcludePushRelPath path options.includeTranscripts options.userExcludes = true
    · rw [if_pos excluded]
    · rw [if_neg excluded, if_pos ((withheld.resolve_left listed).resolve_left excluded)]

/-- The part of `changeFor` that a path reaches when nothing withholds it. -/
theorem changeFor_kept (kept : ¬Withheld options excludedPaths path) :
    changeFor env tree options excludedPaths base current deletions path =
      match current.lookup path with
      | some currentEntry =>
        if some currentEntry.sha256 ≠ shaAt base path then do
          match ← snapshotForPath env.hashing
            (fun path => shouldExcludePushRelPath path options.includeTranscripts options.userExcludes) tree path with
          | none => .error (changedWhileBuilding path)
          | some record =>
            if record.1.sha256 ≠ currentEntry.sha256 then .error (changedWhileBuilding path)
            else return some (.upsert path (shaAt base path) record.1 record.2)
        else .ok none
      | none =>
        match base.lookup path with
        | none => .ok none
        | some baseEntry => do
          if ← offlineSyncRegularFilePresent tree (text "buildOfflineSyncChangesetFromSnapshot") path then
            return none
          else
            let recorded := (deletions.getD []).reverse.find? fun deletion => deletion.path = path
            return some (.delete path baseEntry.sha256 (recorded.map OfflineSyncDeletionRevision.mtimeMs)) := by
  unfold Withheld at kept
  push Not at kept
  obtain ⟨unlisted, pushed, ordinary⟩ := kept
  unfold changeFor
  rw [if_neg fun found => unlisted (contains_iff_mem.mp found), if_neg pushed, if_neg ordinary]
  rfl

theorem changeFor_ok (kept : ¬Withheld options excludedPaths path) {out : Option (OfflineSyncChange Content)}
    (done : changeFor env tree options excludedPaths base current deletions path = .ok out) :
    (∃ change, out = some change ∧ Contributes env tree base current path change ∧ IsArchivePath path ∧
        tree.through path = false) ∨
      out = none ∧ (shaAt current path = shaAt base path ∨ shaAt current path = none ∧ tree.file path ≠ none) := by
  rw [changeFor_kept kept] at done
  cases listed : current.lookup path with
  | some currentEntry =>
    have sha : shaAt current path = some currentEntry.sha256 := congrArg (Option.map _) listed
    rw [listed] at done
    dsimp only at done
    split_ifs at done with differs
    · obtain ⟨found, snapshot, rest⟩ := bind_ok_iff.mp done
      obtain ⟨archive, _, clear, shape⟩ := snapshotForPath_ok_iff.mp snapshot
      cases present : tree.file path with
      | none =>
        rw [shape, present] at rest
        cases rest
      | some stored =>
        rw [shape, present] at rest
        dsimp only [Option.map_some] at rest
        split_ifs at rest with moved
        refine .inl ⟨_, (Except.ok.inj rest).symm, .inl ⟨stored, ?_, by rw [sha]; exact differs, present, rfl⟩, archive, clear⟩
        rw [sha, ← not_not.mp moved]
        rfl
    · refine .inr ⟨(Except.ok.inj done).symm, .inl ?_⟩
      rw [sha]
      exact not_not.mp differs
  | none =>
    have sha : shaAt current path = none := congrArg (Option.map _) listed
    rw [listed] at done
    cases known : base.lookup path with
    | none =>
      rw [known] at done
      refine .inr ⟨(Except.ok.inj done).symm, .inl ?_⟩
      rw [sha]
      exact (congrArg (Option.map _) known).symm
    | some baseEntry =>
      rw [known] at done
      obtain ⟨found, present, rest⟩ := bind_ok_iff.mp done
      obtain ⟨archive, clear, shape⟩ := regularFilePresent_ok_iff.mp present
      cases found with
      | true =>
        refine .inr ⟨(Except.ok.inj rest).symm, .inr ⟨sha, fun gone => ?_⟩⟩
        rw [gone] at shape
        cases shape
      | false =>
        refine .inl ⟨_, (Except.ok.inj rest).symm, .inr ⟨baseEntry.sha256, _, ?_, sha, ?_, rfl⟩, archive, clear⟩
        · exact congrArg (Option.map _) known
        · exact Option.not_isSome_iff_eq_none.mp (by rw [← shape]; exact Bool.false_ne_true)

/-- A path that can be reached is diffed without fail when the census tells what the root holds. -/
theorem changeFor_succeeds (kept : ¬Withheld options excludedPaths path) (archive : IsArchivePath path)
    (seen : shaAt current path = (tree.file path).map fun stored => env.hashing.sha256 stored.content)
    (clear : shaAt current path ≠ shaAt base path → tree.through path = false) :
    ∃ out, changeFor env tree options excludedPaths base current deletions path = .ok out := by
  have pushed : shouldExcludePushRelPath path options.includeTranscripts options.userExcludes = false :=
    Bool.eq_false_iff.mpr fun excluded => kept (.inr (.inl excluded))
  rw [changeFor_kept kept]
  cases listed : current.lookup path with
  | some currentEntry =>
    have sha : shaAt current path = some currentEntry.sha256 := congrArg (Option.map _) listed
    dsimp only
    split_ifs with differs
    · rw [sha] at seen clear
      obtain ⟨stored, present, same⟩ := Option.map_eq_some_iff.mp seen.symm
      have snapshot : snapshotForPath env.hashing
          (fun path => shouldExcludePushRelPath path options.includeTranscripts options.userExcludes) tree path =
            .ok (some (env.hashing.stateOf path stored, stored.content)) :=
        snapshotForPath_ok_iff.mpr ⟨archive, pushed, clear differs, by rw [present]; rfl⟩
      refine ⟨some (.upsert path (shaAt base path) (env.hashing.stateOf path stored) stored.content),
        bind_ok_iff.mpr ⟨_, snapshot, ?_⟩⟩
      dsimp only
      have unmoved : (env.hashing.stateOf path stored).sha256 = currentEntry.sha256 := same
      rw [if_neg (not_not.mpr unmoved)]
      rfl
    · exact ⟨none, rfl⟩
  | none =>
    have sha : shaAt current path = none := congrArg (Option.map _) listed
    cases known : base.lookup path with
    | none => exact ⟨none, rfl⟩
    | some baseEntry =>
      have differs : shaAt current path ≠ shaAt base path := by
        rw [sha]
        unfold shaAt
        rw [known]
        exact Option.some_ne_none _ ∘ Eq.symm
      rw [sha] at seen
      have gone : tree.file path = none := Option.map_eq_none_iff.mp seen.symm
      have present : offlineSyncRegularFilePresent tree (text "buildOfflineSyncChangesetFromSnapshot") path = .ok false :=
        regularFilePresent_ok_iff.mpr ⟨archive, clear differs, by rw [gone]; rfl⟩
      exact ⟨_, bind_ok_iff.mpr ⟨_, present, rfl⟩⟩

end Building

theorem path_of_contributes {env : Environment Content} {tree : SyncTree Content}
    {base current : OrderedMap JsString OfflineSyncFileState} {path : JsString}
    (contributes : Contributes env tree base current path change) : change.path = path := by
  rcases contributes with upsert | delete
  · obtain ⟨stored, _, _, _, shape⟩ := upsert
    rw [shape]
    rfl
  · obtain ⟨baseSha, mtimeMs, _, _, _, shape⟩ := delete
    rw [shape]
    rfl

theorem differs_of_contributes {env : Environment Content} {tree : SyncTree Content}
    {base current : OrderedMap JsString OfflineSyncFileState} {path : JsString}
    (contributes : Contributes env tree base current path change) : shaAt current path ≠ shaAt base path := by
  rcases contributes with upsert | delete
  · obtain ⟨stored, _, differs, _, _⟩ := upsert
    exact differs
  · obtain ⟨baseSha, mtimeMs, known, gone, _, _⟩ := delete
    rw [known, gone]
    exact Option.some_ne_none _ ∘ Eq.symm

def baseOf (options : BuildOptions) : OrderedMap JsString OfflineSyncFileState :=
  byPath (filterBaseFilesForMode options.baseFiles options.includeTranscripts)

def currentOf (options : BuildOptions) : OrderedMap JsString OfflineSyncFileState :=
  byPath (filterBaseFilesForMode options.currentFiles options.includeTranscripts)

/-- A built changeset has one change for each path that contributes, and no other. -/
structure Built (env : Environment Content) (tree : SyncTree Content) (options : BuildOptions)
    (changeset : OfflineSyncChangeset Content) : Prop where
  source : normalizeSourceId options.sourceId (text "sourceId") = .ok changeset.sourceId
  mode : changeset.includeTranscripts = options.includeTranscripts
  once : (changeset.changes.map OfflineSyncChange.path).Nodup
  comes : ∀ change ∈ changeset.changes, ¬Withheld options options.excludePaths change.path ∧
    IsArchivePath change.path ∧ Contributes env tree (baseOf options) (currentOf options) change.path change
  covers : ∀ path, ¬Withheld options options.excludePaths path →
    shaAt (currentOf options) path ≠ shaAt (baseOf options) path →
    (∃ change ∈ changeset.changes, change.path = path) ∨
      shaAt (currentOf options) path = none ∧ tree.file path ≠ none
  archives : ∀ file ∈ options.baseFiles ++ options.currentFiles, IsArchivePath file.path
  reached : ∀ path, ¬Withheld options options.excludePaths path →
    shaAt (currentOf options) path ≠ shaAt (baseOf options) path → tree.through path = false

theorem filterMap_paths_sublist {read : JsString → Except Failure (Option (OfflineSyncChange Content))}
    (named : ∀ path change, read path = .ok (some change) → change.path = path)
    {outs : List (Option (OfflineSyncChange Content))} (done : Forall₂ (fun path out => read path = .ok out) paths outs) :
    ((outs.filterMap id).map OfflineSyncChange.path).Sublist paths := by
  induction done with
  | nil => exact Sublist.slnil
  | @cons path out paths outs head tail ih =>
    cases out with
    | none => exact ih.cons path
    | some change =>
      have shape : (some change :: outs).filterMap id = change :: outs.filterMap id := rfl
      rw [shape, map_cons, named path change head]
      exact ih.cons_cons path

theorem mem_keys_of_shaAt {map : OrderedMap JsString OfflineSyncFileState} {path : JsString}
    (known : shaAt map path ≠ none) : path ∈ map.keys := by
  rw [OrderedMap.mem_keys_iff]
  unfold shaAt at known
  exact Option.ne_none_iff_exists'.mp fun absent => known (by rw [absent]; rfl)

theorem normalizeRelativePaths_ok {out : List JsString}
    (read : Forall₂ (fun path safe => normalizeRelativePath path field = .ok safe) paths out) : out = paths := by
  induction read with
  | nil => rfl
  | cons head _ ih => rw [((normalizeRelativePath_ok_iff _ _ _).mp head).2, ih]

theorem build_ok {env : Environment Content} {tree : SyncTree Content} {options : BuildOptions}
    {changeset : OfflineSyncChangeset Content}
    (done : buildOfflineSyncChangesetFromSnapshot env tree options = .ok changeset) :
    Built env tree options changeset := by
  unfold buildOfflineSyncChangesetFromSnapshot at done
  simp only [bind_ok_iff, normalizeFileStates_ok_iff] at done
  obtain ⟨excludedPaths, excluded, baseFiles, ⟨bases, baseSame⟩, currentFiles, ⟨currents, currentSame⟩, deletions, _,
    outs, mapped, sourceId, source, shape⟩ := done
  have excludedSame := normalizeRelativePaths_ok (mapM_ok_iff.mp excluded)
  have read := mapM_ok_iff.mp mapped
  rw [excludedSame, baseSame, currentSame] at read
  rw [pure_ok_iff.mp shape]
  have member : ∀ change, change ∈ ((outs.filterMap id).mergeSort
      fun first second => env.tables.localeLe first.path second.path) ↔ some change ∈ outs := by
    intro change
    rw [mem_mergeSort, mem_filterMap]
    simp
  have fromPath : ∀ path change, changeFor env tree options options.excludePaths (baseOf options) (currentOf options)
      deletions path = .ok (some change) → ¬Withheld options options.excludePaths path ∧
        Contributes env tree (baseOf options) (currentOf options) path change ∧ IsArchivePath path := by
    intro path change own
    have kept : ¬Withheld options options.excludePaths path := by
      intro withheld
      rw [changeFor_withheld withheld] at own
      cases own
    rcases changeFor_ok kept own with some | none
    · obtain ⟨found, same, contributes, archive, _⟩ := some
      exact ⟨kept, (Option.some.inj same) ▸ contributes, archive⟩
    · cases none.1
  have atPath : ∀ path, shaAt (currentOf options) path ≠ shaAt (baseOf options) path → ∃ out ∈ outs,
      changeFor env tree options options.excludePaths (baseOf options) (currentOf options) deletions path = .ok out := by
    intro path differs
    have listed : path ∈ unionPaths [(baseOf options).keys, (currentOf options).keys] := by
      rw [mem_unionPaths]
      by_cases known : shaAt (baseOf options) path = none
      · exact ⟨_, by simp, mem_keys_of_shaAt fun absent => differs (absent.trans known.symm)⟩
      · exact ⟨_, by simp, mem_keys_of_shaAt known⟩
    exact forall₂_mem_left read listed
  refine ⟨source, rfl, ?_, ?_, ?_, ?_, ?_⟩
  · have sub := filterMap_paths_sublist (fun path change own => path_of_contributes (fromPath path change own).2.1) read
    exact ((mergeSort_perm _ _).map _).nodup_iff.mpr (sub.nodup (nodup_unionPaths _))
  · intro change inside
    obtain ⟨path, _, own⟩ := forall₂_mem_right read ((member change).mp inside)
    obtain ⟨kept, contributes, archive⟩ := fromPath path change own
    rw [path_of_contributes contributes]
    exact ⟨kept, archive, contributes⟩
  · intro path kept differs
    obtain ⟨out, inside, own⟩ := atPath path differs
    rcases changeFor_ok kept own with some | none
    · obtain ⟨change, same, contributes, _, _⟩ := some
      exact .inl ⟨change, (member change).mpr (same ▸ inside), path_of_contributes contributes⟩
    · exact .inr (none.2.resolve_left differs)
  · intro file inside
    exact (mem_append.mp inside).elim (bases file) (currents file)
  · intro path kept differs
    obtain ⟨out, inside, own⟩ := atPath path differs
    rcases changeFor_ok kept own with some | none
    · obtain ⟨change, _, _, _, clear⟩ := some
      exact clear
    · refine tree.file_not_through ((OrderedMap.mem_keys_iff _ _).mpr ?_)
      exact Option.ne_none_iff_exists'.mp (none.2.resolve_left differs).2

/-- The builder ends when its arguments pass their checks and every path can be diffed. -/
theorem build_succeeds {env : Environment Content} {tree : SyncTree Content} {options : BuildOptions}
    (nothing : options.excludePaths = [])
    (archives : ∀ file ∈ options.baseFiles ++ options.currentFiles, IsArchivePath file.path)
    {deletions : Option (List OfflineSyncDeletionRevision)}
    (recorded : normalizeDeletionRevisions env.tables options.deletions (text "deletions") = .ok deletions)
    (source : normalizeSourceId options.sourceId (text "sourceId") = .ok sourceId)
    (each : ∀ path ∈ unionPaths [(baseOf options).keys, (currentOf options).keys],
      ∃ out, changeFor env tree options [] (baseOf options) (currentOf options) deletions path = .ok out) :
    ∃ changeset, buildOfflineSyncChangesetFromSnapshot env tree options = .ok changeset := by
  obtain ⟨outs, mapped⟩ := mapM_total each
  have bases := (normalizeFileStates_ok_iff options.baseFiles _).mpr
    ⟨fun file member => archives file (mem_append_left _ member), rfl⟩
  have currents := (normalizeFileStates_ok_iff options.currentFiles _).mpr
    ⟨fun file member => archives file (mem_append_right _ member), rfl⟩
  unfold buildOfflineSyncChangesetFromSnapshot
  rw [nothing]
  exact ⟨_, bind_ok_iff.mpr ⟨[], rfl, bind_ok_iff.mpr ⟨_, bases, bind_ok_iff.mpr ⟨_, currents,
    bind_ok_iff.mpr ⟨_, recorded, bind_ok_iff.mpr ⟨outs, mapped,
      bind_ok_iff.mpr ⟨_, source, rfl⟩⟩⟩⟩⟩⟩⟩

theorem normalizeSourceId_again {normal other : JsString} (accepted : normalizeSourceId sourceId field = .ok normal) :
    normalizeSourceId normal other = .ok normal := by
  unfold normalizeSourceId at accepted
  split_ifs at accepted with bad
  rw [not_or, not_lt] at bad
  rw [← Except.ok.inj accepted]
  unfold normalizeSourceId
  have shorter : (trim sourceId).length ≤ sourceId.length :=
    (( rdropWhile_prefix _ _).sublist.trans (dropWhile_sublist _)).length_le
  rw [trim_trim, if_neg]
  rw [not_or, not_lt]
  exact ⟨bad.1, shorter.trans bad.2⟩

end Remnic.OfflineSync.Patch
