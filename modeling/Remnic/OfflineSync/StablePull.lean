import Remnic.OfflineSync.SecondPull

/-! A pull repeated on what it left: nothing moves a second time, and the base it returns is a valid state. -/

namespace Remnic.OfflineSync.StablePull
open Library Library.AppendNew Library.GuardedFold Library.LocalSteps Text.CodeUnits Reconcile.Census Paths SyncRoot List OrderedMap
open Changeset Patch Receive FaithfulPatch Snapshot Pull PullVerdict ThreeWay SecondPull

variable {Content : Type}

section Orders

/-- `localeCompare` is a total preorder. -/
structure Collates (tables : UnicodeTables) : Prop where
  total : ∀ first second, tables.localeLe first second = true ∨ tables.localeLe second first = true
  trans : ∀ first second third, tables.localeLe first second = true → tables.localeLe second third = true →
    tables.localeLe first third = true

theorem sort_again {tables : UnicodeTables} (collates : Collates tables) (files : List OfflineSyncFileState) :
    (files.mergeSort (compareByPath tables)).mergeSort (compareByPath tables) =
      files.mergeSort (compareByPath tables) := by
  refine mergeSort_of_pairwise (pairwise_mergeSort ?_ ?_ files)
  · exact fun first second third => collates.trans first.path second.path third.path
  · intro first second
    rw [Bool.or_eq_true]
    exact collates.total first.path second.path

theorem flatMap_sides {Out : Type} (f : JsString → List Out) (first second : List (List JsString))
    (same : ∀ path, f path ≠ [] → (path ∈ unionPaths first ↔ path ∈ unionPaths second)) :
    (unionPaths first).flatMap f = (unionPaths second).flatMap f := by
  have busy (paths : List JsString) : paths.flatMap f = (paths.filter fun path => !(f path).isEmpty).flatMap f := by
    induction paths with
    | nil => rfl
    | cons path rest ih =>
      cases made : f path with
      | nil => simp [made, ih]
      | cons head tail => simp [made, ih]
  have ordered (keys : List (List JsString)) : ((unionPaths keys).filter fun path => !(f path).isEmpty).Pairwise (· ≤ ·) := by
    refine Pairwise.filter _ ?_
    have sorted : ((appendNew [] keys.flatten).mergeSort fun a b => decide (a ≤ b)).Pairwise fun a b => decide (a ≤ b) = true :=
      pairwise_mergeSort (fun a b c below above => by simpa using le_trans (by simpa using below) (by simpa using above))
        (fun a b => by simpa using le_total a b) (appendNew [] keys.flatten)
    exact sorted.imp fun below => by simpa using below
  have perm : ((unionPaths first).filter fun path => !(f path).isEmpty).Perm
      ((unionPaths second).filter fun path => !(f path).isEmpty) := by
    refine (perm_ext_iff_of_nodup ((nodup_unionPaths first).filter _) ((nodup_unionPaths second).filter _)).mpr ?_
    intro path
    rw [mem_filter, mem_filter]
    refine and_congr_left fun made => same path ?_
    intro empty
    rw [empty] at made
    cases made
  rw [busy (unionPaths first), busy (unionPaths second)]
  exact congrArg (List.flatMap f) (perm.eq_of_pairwise (fun a b _ _ => le_antisymm) (ordered first) (ordered second))

theorem entries_byPath {files : List OfflineSyncFileState} (once : (files.map OfflineSyncFileState.path).Nodup) :
    (byPath files).entries.map Prod.snd = files := by
  have grows (map : OrderedMap JsString OfflineSyncFileState) (rest : List OfflineSyncFileState)
      (fresh : (map.keys ++ rest.map OfflineSyncFileState.path).Nodup) :
      (rest.foldl (fun out file => out.set file.path file) map).entries.map Prod.snd =
        map.entries.map Prod.snd ++ rest := by
    induction rest generalizing map with
    | nil => simp
    | cons file rest ih =>
      have absent : file.path ∉ map.keys := by
        rw [map_cons, nodup_append] at fresh
        exact fun known => fresh.2.2 _ known _ mem_cons_self rfl
      have entries : (map.set file.path file).entries = map.entries ++ [(file.path, file)] :=
        entries_set_fresh map file.path file ((lookup_eq_none_iff _ _).mpr absent)
      rw [foldl_cons, ih, entries]
      · simp
      · unfold OrderedMap.keys at fresh ⊢
        rw [entries]
        simpa using fresh
  have all := grows OrderedMap.empty files (by simpa [OrderedMap.keys] using once)
  exact all

end Orders

section Repeating

variable {env later : Environment Content} {tree : SyncTree Content} {options : PullOptions Content}
  {received snapshot : OfflineSyncSnapshot Content} {buffers : OrderedMap JsString Content} {path : JsString}
  {currentFiles : Option (List OfflineSyncFileState)}

def firstRun (env : Environment Content) (tree : SyncTree Content) (options : PullOptions Content)
    (snapshot : OfflineSyncSnapshot Content) (buffers : OrderedMap JsString Content) :
    PullState Content × Option Failure :=
  pullRun env options (sidesOf env tree options snapshot buffers)
    (routingOf options (sidesOf env tree options snapshot buffers))
    (startOf tree (sidesOf env tree options snapshot buffers))

def returnedBase (env : Environment Content) (run : PullState Content) : List OfflineSyncFileState :=
  (run.nextBase.entries.map Prod.snd).mergeSort (compareByPath env.tables)

def resumed (options : PullOptions Content) (baseFiles : List OfflineSyncFileState)
    (currentFiles : Option (List OfflineSyncFileState)) : PullOptions Content :=
  { options with baseFiles := baseFiles, currentFiles := currentFiles }

section Ran

variable (begins : Begins env tree options received snapshot buffers)

include begins

variable {file : OfflineSyncFileState}

theorem entries_firstRun (found : (firstRun env tree options snapshot buffers).1.nextBase.lookup path = some file) :
    file.path = path ∧ IsArchivePath path ∧ shouldExcludeRelPath path received.includeTranscripts = false ∧
      (file ∈ options.baseFiles ∨ ∃ record ∈ received.files, record.state = file) := by
  rcases entries_pullRun rfl path file found with base | incoming
  · obtain ⟨same, listed, included⟩ := base_sidesOf begins base
    exact ⟨same, same ▸ begins.archive file listed, included, .inl listed⟩
  · obtain ⟨same, archive, included, listed⟩ := incoming_sidesOf begins incoming
    exact ⟨same, archive, included, .inr listed⟩

theorem mem_returnedBase (member : file ∈ returnedBase env (firstRun env tree options snapshot buffers).1) :
    (firstRun env tree options snapshot buffers).1.nextBase.lookup file.path = some file := by
  obtain ⟨entry, inside, shape⟩ := mem_map.mp (mem_mergeSort.mp member)
  have found := (lookup_eq_some_iff _ _ _).mpr inside
  rw [← shape, (entries_firstRun begins found).1]
  exact found

theorem filter_returnedBase : filterBaseFilesForMode
    (returnedBase env (firstRun env tree options snapshot buffers).1) snapshot.includeTranscripts =
      returnedBase env (firstRun env tree options snapshot buffers).1 := by
  refine filter_eq_self.mpr fun file member => ?_
  rw [(accepted_of_ok begins.accepted).mode, (entries_firstRun begins (mem_returnedBase begins member)).2.2.1]
  rfl

theorem base_resumed (root : SyncTree Content) (path : JsString) :
    (sidesOf later root (resumed options (returnedBase env (firstRun env tree options snapshot buffers).1) currentFiles) snapshot
      buffers).base.lookup path = (firstRun env tree options snapshot buffers).1.nextBase.lookup path := by
  have shape : (sidesOf later root (resumed options (returnedBase env (firstRun env tree options snapshot buffers).1)
      currentFiles) snapshot buffers).base = byPath (returnedBase env (firstRun env tree options snapshot buffers).1) :=
    congrArg byPath (filter_returnedBase begins)
  rw [shape]
  exact lookup_byPath_values (fun path file found => (entries_firstRun begins found).1) _ path

theorem once_returnedBase :
    ((returnedBase env (firstRun env tree options snapshot buffers).1).map OfflineSyncFileState.path).Nodup := by
  refine ((mergeSort_perm _ _).map _).nodup_iff.mpr ?_
  rw [map_map]
  have names : (firstRun env tree options snapshot buffers).1.nextBase.entries.map
      (OfflineSyncFileState.path ∘ Prod.snd) = (firstRun env tree options snapshot buffers).1.nextBase.keys :=
    map_congr_left fun entry member =>
      (entries_firstRun begins ((lookup_eq_some_iff _ entry.1 entry.2).mpr member)).1
  rw [names]
  exact (firstRun env tree options snapshot buffers).1.nextBase.keysNodup

variable (hashing : later.hashing = env.hashing)
  (ended : (firstRun env tree options snapshot buffers).2 = none)

include hashing ended

theorem verdict_again (watched : Watched path) :
    let next := resumed options (returnedBase env (firstRun env tree options snapshot buffers).1) currentFiles
    let sides := sidesOf later (firstRun env tree options snapshot buffers).1.tree next snapshot buffers
    contested (verdict sides (routingOf next sides) path) =
        contested (verdict (sidesOf env tree options snapshot buffers)
          (routingOf options (sidesOf env tree options snapshot buffers)) path) ∧
      Quiet buffers received path
        ((firstRun env tree options snapshot buffers).1.tree.file path, sides.base.lookup path)
        (verdict sides (routingOf next sides) path) := by
  intro next sides
  have lands := lands_pullRun begins watched ended
  have base : sides.base.lookup path = (firstRun env tree options snapshot buffers).1.nextBase.lookup path :=
    base_resumed begins _ path
  have current : sides.current.lookup path =
      seen env.hashing received path ((firstRun env tree options snapshot buffers).1.tree.file path) := by
    have known : sides.current.lookup path = _ := lookup_census _ _ _ _ path
    rw [known, hashing, (accepted_of_ok begins.accepted).mode]
    rfl
  rw [base]
  unfold verdict at lands ⊢
  have incoming : sides.incoming = (sidesOf env tree options snapshot buffers).incoming := rfl
  have deferred : (routingOf next sides).deferredPaths =
      (routingOf options (sidesOf env tree options snapshot buffers)).deferredPaths := rfl
  have handled : (routingOf next sides).transactionHandled =
      (routingOf options (sidesOf env tree options snapshot buffers)).transactionHandled := rfl
  have dirs : (routingOf next sides).deferredGenerationDirs =
      (routingOf options (sidesOf env tree options snapshot buffers)).deferredGenerationDirs := rfl
  rw [incoming, deferred, handled, dirs, base, current]
  split_ifs at lands ⊢
  · exact ⟨rfl, trivial⟩
  · exact ⟨rfl, trivial⟩
  · exact ⟨rfl, trivial⟩
  · cases found : (sidesOf env tree options snapshot buffers).incoming.lookup path with
    | some file =>
      rw [found, current_sidesOf begins] at lands
      dsimp only
      rw [current_sidesOf begins]
      exact verdictIncoming_again (fun content known => carried_sidesOf begins found known) lands
    | none =>
      rw [found, current_sidesOf begins] at lands
      dsimp only
      rw [current_sidesOf begins]
      exact verdictAbsent_again lands

end Ran

/-- No path of the base and another of the snapshot differ by case alone. -/
def Untwinned (tables : UnicodeTables) (options : PullOptions Content) (received : OfflineSyncSnapshot Content) : Prop :=
  ∀ file ∈ options.baseFiles, ∀ record ∈ received.files,
    tables.toLowerCase file.path = tables.toLowerCase record.state.path → file.path = record.state.path

theorem returnedBase_valid {isoTimestamp : JsString → Option JsString} {state : OfflineSyncState}
    (begins : Begins env tree options received snapshot buffers)
    (valid : ∃ checked, normalizeOfflineSyncState env.tables isoTimestamp state = .ok checked)
    (based : options.baseFiles = state.baseFiles) (untwinned : Untwinned env.tables options received) :
    ∃ checked, normalizeOfflineSyncState env.tables isoTimestamp
      { state with baseFiles := returnedBase env (firstRun env tree options snapshot buffers).1 } = .ok checked := by
  obtain ⟨identified, _, once⟩ := (normalizeOfflineSyncState_ok_iff _).mp valid
  rw [← based] at once
  refine (normalizeOfflineSyncState_ok_iff _).mpr ⟨⟨identified.remote, identified.synced⟩, ?_, ?_⟩
  · intro file member
    exact (entries_firstRun begins (mem_returnedBase begins member)).2.1
  · have facts := accepted_of_ok begins.accepted
    refine (nodup_map_iff_inj_on (once_returnedBase begins)).mpr ?_
    intro path listed other among folded
    obtain ⟨file, member, named⟩ := mem_map.mp listed
    obtain ⟨peer, inside, called⟩ := mem_map.mp among
    have found := mem_returnedBase begins member
    have known := mem_returnedBase begins inside
    rw [← named, ← called] at folded ⊢
    rcases entries_pullRun rfl file.path file found with base | incoming
    · obtain ⟨_, listed, _⟩ := base_sidesOf begins base
      rcases entries_pullRun rfl peer.path peer known with base | incoming
      · obtain ⟨_, also, _⟩ := base_sidesOf begins base
        exact inj_on_of_nodup_map once (mem_map_of_mem listed) (mem_map_of_mem also) folded
      · obtain ⟨_, _, _, record, held, shape⟩ := incoming_sidesOf begins incoming
        rw [← shape] at folded ⊢
        exact untwinned file listed record held folded
    · obtain ⟨_, _, _, record, held, shape⟩ := incoming_sidesOf begins incoming
      rcases entries_pullRun rfl peer.path peer known with base | incoming'
      · obtain ⟨_, also, _⟩ := base_sidesOf begins base
        rw [← shape] at folded ⊢
        exact (untwinned peer also record held folded.symm).symm
      · have first := (lookup_byPath incoming).1
        have second := (lookup_byPath incoming').1
        exact inj_on_of_nodup_map facts.unique (mem_map_of_mem first) (mem_map_of_mem second) folded

end Repeating

section Main

variable {env later : Environment Content} {tree : SyncTree Content} {options : PullOptions Content}
  {received : OfflineSyncSnapshot Content}

def resultOf (env : Environment Content) (run : PullState Content) : ApplySnapshotResult where
  upserted := run.upserted
  deleted := run.deleted
  skipped := run.skipped
  pendingLocal := run.pendingLocal
  conflicts := run.conflicts
  nextBaseFiles := returnedBase env run

variable (generations : SnapshotGenerations Content)

theorem pull_cases (truthful : Truthful env tree options received) (apart : Apart options received tree) :
    ((∃ failure, applyOfflineSyncSnapshot env generations tree options received = (tree, .error failure)) ∧
      ¬∃ snapshot buffers, Begins env tree options received snapshot buffers) ∨
    ∃ snapshot buffers, Begins env tree options received snapshot buffers ∧
      applyOfflineSyncSnapshot env generations tree options received =
        ((firstRun env tree options snapshot buffers).1.tree,
          match (firstRun env tree options snapshot buffers).2 with
          | some failure => .error failure
          | none => .ok (resultOf env (firstRun env tree options snapshot buffers).1)) := by
  unfold applyOfflineSyncSnapshot
  cases ready : preparePull env generations tree options received with
  | error failure =>
    refine .inl ⟨⟨failure, rfl⟩, fun some => ?_⟩
    obtain ⟨snapshot, buffers, begins⟩ := some
    cases ready.symm.trans ((preparePull_ok_iff truthful apart _).mpr ⟨snapshot, buffers, begins, rfl⟩)
  | ok parts =>
    obtain ⟨snapshot, buffers, begins, shape⟩ := (preparePull_ok_iff truthful apart parts).mp ready
    refine .inr ⟨snapshot, buffers, begins, ?_⟩
    rw [shape]
    dsimp only
    have run : runSteps (mergePath env options (sidesOf env tree options snapshot buffers)
        (routingOf options (sidesOf env tree options snapshot buffers)))
        (unionPaths [(sidesOf env tree options snapshot buffers).base.keys,
          (sidesOf env tree options snapshot buffers).incoming.keys,
          (sidesOf env tree options snapshot buffers).current.keys])
        (startOf tree (sidesOf env tree options snapshot buffers)) = firstRun env tree options snapshot buffers := rfl
    rw [run]
    cases (firstRun env tree options snapshot buffers).2 with
    | some failure => rfl
    | none => rfl

theorem apart_resumed {snapshot : OfflineSyncSnapshot Content} {buffers : OrderedMap JsString Content}
    {currentFiles : Option (List OfflineSyncFileState)}
    (begins : Begins env tree options received snapshot buffers) (apart : Apart options received tree) :
    Apart (resumed options (returnedBase env (firstRun env tree options snapshot buffers).1) currentFiles) received
      (firstRun env tree options snapshot buffers).1.tree where
  base := by
    intro file member
    rcases (entries_firstRun begins (mem_returnedBase begins member)).2.2.2 with base | incoming
    · exact apart.base file base
    · obtain ⟨record, held, shape⟩ := incoming
      exact shape ▸ apart.incoming record held
  incoming := apart.incoming
  current := by
    intro path member reaches
    by_cases listed : path ∈ pullPaths (sidesOf env tree options snapshot buffers)
    · obtain ⟨keys, among, inside⟩ := (mem_unionPaths _).mp listed
      rw [mem_cons, mem_cons, mem_singleton] at among
      rcases among with base | incoming | current
      · rw [base] at inside
        exact apart_byPath (fun file held => apart.base file (mem_filter.mp held).1) inside
      · rw [incoming, mem_keys_iff] at inside
        obtain ⟨file, found⟩ := inside
        obtain ⟨same, _, _, record, held, shape⟩ := incoming_sidesOf begins found
        rw [← same, ← shape]
        exact apart.incoming record held
      · rw [current, mem_keys_iff] at inside
        obtain ⟨file, found⟩ := inside
        rw [current_sidesOf begins] at found
        unfold seen at found
        rw [if_pos reaches] at found
        obtain ⟨stored, present, _⟩ := Option.map_eq_some_iff.mp found
        exact apart.current path ((mem_keys_iff _ _).mpr ⟨stored, present⟩) reaches
    · have absent : path ∉ (pullPaths (sidesOf env tree options snapshot buffers)).map id := by rwa [map_id]
      have same := untouched (mergePath_sides env options (sidesOf env tree options snapshot buffers)
        (routingOf options (sidesOf env tree options snapshot buffers)))
        (watched_of_included (not_excluded_of_walked reaches)) absent
        (startOf tree (sidesOf env tree options snapshot buffers))
      obtain ⟨stored, present⟩ := (mem_keys_iff _ _).mp member
      have held : tree.file path = some stored := (congrArg Prod.fst same).symm.trans present
      exact apart.current path ((mem_keys_iff _ _).mpr ⟨stored, held⟩) reaches

/-- What a second pull of the same snapshot does, on the root and the base that the first one left: every watched file
stays with its time, nothing is deleted or taken, and the reports and the base come out the same. -/
structure Repeats (received : OfflineSyncSnapshot Content) (options : PullOptions Content) (first : ApplySnapshotResult)
    (root : SyncTree Content) (again : SyncTree Content × Except Failure ApplySnapshotResult) : Prop where
  files : ∀ path, Watched path → again.1.file path = root.file path
  results : ∀ result, again.2 = .ok result →
    result.deleted = 0 ∧ result.conflicts.map unstamped = first.conflicts.map unstamped ∧
      result.nextBaseFiles = first.nextBaseFiles ∧
      ((∀ record ∈ received.files, shouldPreferIncomingOfflineRuntimeFile record.state.path = true →
        reached received record.state.path = true) → result.upserted = 0)
  returns : options.recordDeletionRevision = none → options.writeConflictCopies = false → ∃ result, again.2 = .ok result

section Second

variable {snapshot : OfflineSyncSnapshot Content} {buffers : OrderedMap JsString Content} {root : SyncTree Content}
  {currentFiles : Option (List OfflineSyncFileState)} {next : PullOptions Content}
  (begins : Begins env tree options received snapshot buffers)
  (rooted : root = (firstRun env tree options snapshot buffers).1.tree)
  (follows : next = resumed options (returnedBase env (firstRun env tree options snapshot buffers).1) currentFiles)
  (hashing : later.hashing = env.hashing) (ended : (firstRun env tree options snapshot buffers).2 = none)

include begins follows hashing

theorem begins_again (tables : later.tables = env.tables) (unhooked : options.recordDeletionRevision = none) :
    Begins later root next received snapshot buffers where
  accepted := tables ▸ begins.accepted
  archive := by
    rw [follows]
    exact fun file member => (entries_firstRun begins (mem_returnedBase begins member)).2.1
  verified := by
    rw [follows, hashing]
    exact begins.verified
  recorded := by
    have hook : next.recordDeletionRevision = none := by
      rw [follows]
      exact unhooked
    unfold recordDeletions
    rw [hook]
    cases (sidesOf later root next snapshot buffers).deletions with
    | none => rfl
    | some deletions => rfl

include rooted ended

theorem quiet_again {path : JsString} (watched : Watched path) :
    contested (verdict (sidesOf later root next snapshot buffers)
        (routingOf next (sidesOf later root next snapshot buffers)) path) =
      contested (verdict (sidesOf env tree options snapshot buffers)
        (routingOf options (sidesOf env tree options snapshot buffers)) path) ∧
    Quiet buffers received path (root.file path, (sidesOf later root next snapshot buffers).base.lookup path)
      (verdict (sidesOf later root next snapshot buffers)
        (routingOf next (sidesOf later root next snapshot buffers)) path) := by
  subst rooted follows
  exact verdict_again begins hashing ended watched

theorem steady_round {path : JsString} {state after : PullState Content} (watched : Watched path)
    (steady : Steady received root (sidesOf later root next snapshot buffers) state)
    (round : mergePath later next (sidesOf later root next snapshot buffers)
      (routingOf next (sidesOf later root next snapshot buffers)) path state = .ok after) :
    Steady received root (sidesOf later root next snapshot buffers) after := by
  rw [mergePath_eq] at round
  exact steady_enforce steady watched (fun incoming acts => listed_of_acting acts)
    (quiet_again begins rooted follows hashing ended watched).2 round

omit begins rooted follows hashing ended in
theorem steady_start (received : OfflineSyncSnapshot Content) : Steady received root (sidesOf later root next snapshot buffers)
    (startOf root (sidesOf later root next snapshot buffers)) := ⟨fun _ _ => rfl, rfl, rfl, fun _ => rfl⟩

variable (again : Begins later root next received snapshot buffers)

include again

theorem steady_run : Steady received root (sidesOf later root next snapshot buffers)
    (firstRun later root next snapshot buffers).1 :=
  runSteps_invariant _ (fun _ listed _ _ steady round => steady_round begins rooted follows hashing ended
    (watched_of_listed again listed) steady round) (steady_start received)

theorem finishes_again (plain : options.writeConflictCopies = false) :
    (firstRun later root next snapshot buffers).2 = none := by
  have uncopied : next.writeConflictCopies = false := by
    rw [follows]
    exact plain
  refine (finishes (mergePath_sides _ _ _ _) (once_pullPaths _) (fun path listed => watched_of_listed again listed)
    ?_ (fun path _ => Eq.refl (sideAt path (startOf _ _))) (steady_start received)).1
  intro path listed state steady _
  have watched := watched_of_listed again listed
  obtain ⟨after, done⟩ : ∃ after, enforce later next (sidesOf later root next snapshot buffers) path state
      (verdict (sidesOf later root next snapshot buffers) (routingOf next (sidesOf later root next snapshot buffers))
        path) = .ok after :=
    enforce_succeeds steady watched (fun incoming acts => (incoming_sidesOf again (listed_of_acting acts)).2.1)
      (quiet_again begins rooted follows hashing ended watched).2 uncopied
  have round := (mergePath_eq (routingOf next (sidesOf later root next snapshot buffers))).trans done
  exact ⟨after, round, steady_round begins rooted follows hashing ended watched steady round⟩

theorem reports_again (finished : (firstRun later root next snapshot buffers).2 = none) :
    (firstRun later root next snapshot buffers).1.conflicts.map unstamped =
      (firstRun env tree options snapshot buffers).1.conflicts.map unstamped := by
  have same (path : JsString) (watched : Watched path) := (quiet_again begins rooted follows hashing ended watched).1
  have uncontested (tree : SyncTree Content) (env : Environment Content) (options : PullOptions Content)
      (path : JsString) (contests : contested (verdict (sidesOf env tree options snapshot buffers)
        (routingOf options (sidesOf env tree options snapshot buffers)) path) ≠ []) :
      path ∈ pullPaths (sidesOf env tree options snapshot buffers) := by
    by_contra unlisted
    rcases (verdict_unlisted unlisted).2 with keeps | forgets
    · exact contests (by rw [keeps]; rfl)
    · exact contests (by rw [forgets]; rfl)
  have first : (firstRun env tree options snapshot buffers).1.conflicts.map unstamped = _ := reports_pullRun ended
  have second : (firstRun later root next snapshot buffers).1.conflicts.map unstamped = _ := reports_pullRun finished
  rw [first, second]
  refine congrArg (List.map unstamped) (congrArg ([] ++ ·) ?_)
  have alike : (pullPaths (sidesOf later root next snapshot buffers)).flatMap (fun path =>
      contested (verdict (sidesOf later root next snapshot buffers)
        (routingOf next (sidesOf later root next snapshot buffers)) path)) =
      (pullPaths (sidesOf later root next snapshot buffers)).flatMap (fun path =>
        contested (verdict (sidesOf env tree options snapshot buffers)
          (routingOf options (sidesOf env tree options snapshot buffers)) path)) :=
    flatMap_congr fun path listed => same path (watched_of_listed again listed)
  rw [alike]
  refine flatMap_sides _ _ _ fun path contests => ?_
  have listed := uncontested tree env options path contests
  rw [← same path (watched_of_listed begins listed)] at contests
  exact iff_of_true (uncontested root later next path contests) listed

theorem bases_again (collates : Collates env.tables) (tables : later.tables = env.tables) :
    returnedBase later (firstRun later root next snapshot buffers).1 =
      returnedBase env (firstRun env tree options snapshot buffers).1 := by
  have steady := (steady_run begins rooted follows hashing ended again).base
  have base : (sidesOf later root next snapshot buffers).base =
      byPath (returnedBase env (firstRun env tree options snapshot buffers).1) := by
    rw [follows]
    exact congrArg byPath (filter_returnedBase begins)
  rw [returnedBase, steady, base, entries_byPath (once_returnedBase begins), tables]
  exact sort_again collates _

end Second

/-- The second pull of an accepted snapshot, with the files that the first left and the base that it returned, at
whatever later time. -/
theorem repeats_of_begins {snapshot : OfflineSyncSnapshot Content} {buffers : OrderedMap JsString Content}
    {currentFiles : Option (List OfflineSyncFileState)} (begins : Begins env tree options received snapshot buffers)
    (apart : Apart options received tree) (hashing : later.hashing = env.hashing) (tables : later.tables = env.tables)
    (collates : Collates env.tables) (ended : (firstRun env tree options snapshot buffers).2 = none)
    (truthful : Truthful later (firstRun env tree options snapshot buffers).1.tree
      (resumed options (returnedBase env (firstRun env tree options snapshot buffers).1) currentFiles) received) :
    Repeats received options (resultOf env (firstRun env tree options snapshot buffers).1)
      (firstRun env tree options snapshot buffers).1.tree
      (applyOfflineSyncSnapshot later generations (firstRun env tree options snapshot buffers).1.tree
        (resumed options (returnedBase env (firstRun env tree options snapshot buffers).1) currentFiles) received) := by
  rcases pull_cases generations truthful (apart_resumed begins apart) with refused | ran
  · obtain ⟨⟨failure, same⟩, nowhere⟩ := refused
    rw [same]
    refine ⟨fun _ _ => rfl, fun _ returned => (by cases returned), fun unhooked _ => ?_⟩
    exact absurd ⟨snapshot, buffers, begins_again begins rfl hashing tables unhooked⟩ nowhere
  · obtain ⟨other, held, again, same⟩ := ran
    have snapshots : other = snapshot := Except.ok.inj (again.accepted.symm.trans (tables ▸ begins.accepted))
    subst snapshots
    have contents : held = buffers := Except.ok.inj (again.verified.symm.trans (by rw [hashing]; exact begins.verified))
    subst contents
    have steady := steady_run begins rfl rfl hashing ended again
    rw [same]
    refine ⟨steady.files, fun result returned => ?_, fun _ plain => ?_⟩
    · dsimp only at returned
      split at returned
      next => cases returned
      next finished =>
        rw [← Except.ok.inj returned]
        refine ⟨steady.deleted, reports_again begins rfl rfl hashing ended again finished,
          bases_again begins rfl rfl hashing ended again collates tables, fun reaches => steady.upserted ?_⟩
        intro path file found runtime
        obtain ⟨named, _, _, record, listed, shape⟩ := incoming_sidesOf again found
        rw [← named, ← shape] at runtime ⊢
        exact reaches record listed runtime
    · rw [finishes_again begins rfl rfl hashing ended again plain]
      exact ⟨_, rfl⟩

end Main

section Samples

def laterEnvironment : Environment Sha256 := { sampleEnvironment with stamp := fun source => source ++ text "-later" }

def sampleState : OfflineSyncState where
  remoteId := text "server"
  namespaceName := none
  includeTranscripts := true
  lastSyncedAt := text "2026-05-01T00:00:00.000Z"
  baseFiles := bothEdited.options.baseFiles

theorem sampleState_valid : ∃ checked, normalizeOfflineSyncState sampleEnvironment.tables some sampleState = .ok checked := by
  refine (normalizeOfflineSyncState_ok_iff _).mpr
    ⟨⟨⟨text "server", by decide +kernel⟩, sampleState.lastSyncedAt, by decide +kernel⟩, ?_, by decide⟩
  intro file member
  rw [mem_singleton.mp member]
  exact ⟨by decide, by decide, by decide, by decide +kernel⟩

theorem sample_apart : Apart bothEdited.options bothEdited.snapshot bothEdited.localRoot where
  base := by decide +kernel
  incoming := by decide +kernel
  current := by decide +kernel

theorem sample_collates : Collates sampleEnvironment.tables where
  total := fun first second => (le_total first second).imp (by simp [sampleEnvironment, plainTables])
    (by simp [sampleEnvironment, plainTables])
  trans := fun first second third below above => by
    simp only [sampleEnvironment, plainTables, decide_eq_true_eq] at below above ⊢
    exact le_trans below above

/-- The second pull of the sample, on what the first left, with no files handed over. -/
def sampleAgain (result : ApplySnapshotResult) : SyncTree Sha256 × Except Failure ApplySnapshotResult :=
  applyOfflineSyncSnapshot laterEnvironment bothEdited.pullGenerations bothEdited.pull.1
    (resumed bothEdited.options result.nextBaseFiles none) bothEdited.snapshot


def laterCopy : JsString := text ".offline-sync/conflicts/a.md-later-server/a.md"

end Samples

end Remnic.OfflineSync.StablePull
