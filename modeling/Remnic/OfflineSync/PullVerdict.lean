import Remnic.OfflineSync.FaithfulPatch
import Remnic.OfflineSync.Snapshot

/-! What the merge of a snapshot decides about a path, apart from carrying it out. -/

namespace Remnic.OfflineSync.PullVerdict
open Library Library.GuardedFold Library.LocalSteps Text.CodeUnits Reconcile.Census Paths SyncRoot List OrderedMap
open Changeset Patch Receive FaithfulPatch Snapshot

variable {Content : Type}

inductive Verdict where
  /-- The base entry stays, and the path waits for a push or is done with. -/
  | keep (waits : Bool)
  | forget
  | wait
  | settled
  | level (incoming : OfflineSyncFileState)
  /-- Taken unless a file is there which the census missed. -/
  | look (incoming : OfflineSyncFileState)
  | take (incoming : OfflineSyncFileState)
  | drop
  | contest (report : OfflineSyncConflict)
  | contestAbsent (report : OfflineSyncConflict)

/-- The decision about a file that differs from the snapshot's and is no runtime state. -/
def verdictPlain (relPath : JsString) (incoming : OfflineSyncFileState) :
    Option OfflineSyncFileState → Option OfflineSyncFileState → Verdict
  | none, none => .look incoming
  | none, some baseEntry =>
    if incoming.sha256 = baseEntry.sha256 then .keep true
    else .contest { path := relPath, reason := .localDeletedRemoteModified, baseSha256 := some baseEntry.sha256,
                    incomingSha256 := some incoming.sha256 }
  | some currentEntry, some baseEntry =>
    if currentEntry.sha256 = baseEntry.sha256 then .take incoming
    else if incoming.sha256 = baseEntry.sha256 then .keep true
    else .contest { path := relPath, reason := .bothModified, baseSha256 := some baseEntry.sha256,
                    localSha256 := some currentEntry.sha256, incomingSha256 := some incoming.sha256 }
  | some currentEntry, none =>
    .contest { path := relPath, reason := .remoteExistsForLocalCreate, localSha256 := some currentEntry.sha256,
               incomingSha256 := some incoming.sha256 }

@[irreducible] def verdictIncoming (relPath : JsString) (base current : Option OfflineSyncFileState)
    (incoming : OfflineSyncFileState) : Verdict :=
  if isEmbeddingGenerationMarkerPath relPath then .forget
  else if current.map OfflineSyncFileState.sha256 = some incoming.sha256 then .level incoming
  else if shouldPreferIncomingOfflineRuntimeFile relPath then
    if current.isSome ∧ base.map OfflineSyncFileState.sha256 = some incoming.sha256 then .keep false
    else .take incoming
  else verdictPlain relPath incoming current base

@[irreducible] def verdictAbsent (relPath : JsString) (base current : Option OfflineSyncFileState)
    (omittedGenerationDirs : List JsString) : Verdict :=
  if matchesOfflineSyncDefaultExclude relPath then .forget
  else match current with
    | none => .forget
    | some currentEntry =>
      if shouldPreferIncomingOfflineRuntimeFile relPath then
        if (embeddingGenerationMembership relPath).any omittedGenerationDirs.contains then .wait
        else if base.isSome ∨ shouldDeleteAbsentIncomingOfflineRuntimeFile relPath = true then .drop
        else .wait
      else match base with
        | none => .wait
        | some baseEntry =>
          if currentEntry.sha256 = baseEntry.sha256 then .drop
          else .contestAbsent { path := relPath, reason := .localModifiedRemoteDeleted,
                                baseSha256 := some baseEntry.sha256, localSha256 := some currentEntry.sha256 }

def verdict (inputs : PullInputs Content) (routing : PullRouting) (relPath : JsString) : Verdict :=
  if routing.deferredPaths.contains relPath then .keep false
  else if routing.transactionHandled.contains relPath then .settled
  else if (embeddingGenerationMembership relPath).any routing.deferredGenerationDirs.contains then .keep false
  else match inputs.incoming.lookup relPath with
    | some incoming => verdictIncoming relPath (inputs.base.lookup relPath) (inputs.current.lookup relPath) incoming
    | none => verdictAbsent relPath (inputs.base.lookup relPath) (inputs.current.lookup relPath)
        inputs.omittedGenerationDirs

def enforce (env : Environment Content) (options : PullOptions Content) (inputs : PullInputs Content)
    (relPath : JsString) (state : PullState Content) : Verdict → Except Failure (PullState Content)
  | .keep true => .ok (state.restoreBase relPath (inputs.base.lookup relPath)).pending
  | .keep false => .ok (state.restoreBase relPath (inputs.base.lookup relPath)).skip
  | .forget => .ok (state.forget relPath).skip
  | .wait => .ok state.pending
  | .settled => .ok state
  | .level incoming => do
    let touched ← setSafeFileMtime state.tree pullPrefix relPath incoming.mtimeMs
    if touched.1 then return ({ state with tree := touched.2 }.restoreBase relPath (some incoming)).skip
    else return ({ state with tree := touched.2 }.restoreBase relPath (inputs.base.lookup relPath)).pending
  | .look incoming => do
    if ← offlineSyncRegularFilePresent state.tree pullPrefix relPath then return state.pending
    else takeIncoming inputs relPath incoming state
  | .take incoming => takeIncoming inputs relPath incoming state
  | .drop => dropLocal relPath state
  | .contest report => do
    let next ← pullConflict env options inputs report state
    return if (inputs.base.lookup relPath).isSome then next.restoreBase relPath (inputs.base.lookup relPath) else next
  | .contestAbsent report =>
    .ok ((state.conflicted (report, state.tree)).restoreBase relPath (inputs.base.lookup relPath))

section Rounds

variable {env : Environment Content} {options : PullOptions Content} {inputs : PullInputs Content}
  {routing : PullRouting} {path : JsString} {state next : PullState Content}

theorem mergeIncoming_eq (incoming : OfflineSyncFileState) :
    mergeIncoming env options inputs path incoming state = enforce env options inputs path state
      (verdictIncoming path (inputs.base.lookup path) (inputs.current.lookup path) incoming) := by
  unfold mergeIncoming verdictIncoming
  dsimp only
  split_ifs
  · rfl
  · rfl
  · rfl
  · rfl
  · cases current : inputs.current.lookup path with
    | none =>
      cases base : inputs.base.lookup path with
      | none => rfl
      | some baseEntry =>
        dsimp only [verdictPlain]
        split_ifs
        · simp only [enforce, base]
        · simp only [enforce, base, Option.isSome_some, if_true]
    | some currentEntry =>
      cases base : inputs.base.lookup path with
      | none => simp [verdictPlain, enforce, base]
      | some baseEntry =>
        dsimp only [verdictPlain]
        split_ifs
        · rfl
        · simp only [enforce, base]
        · simp only [enforce, base, Option.isSome_some, if_true]

theorem mergeAbsent_eq : mergeAbsent inputs path state = enforce env options inputs path state
    (verdictAbsent path (inputs.base.lookup path) (inputs.current.lookup path) inputs.omittedGenerationDirs) := by
  unfold mergeAbsent verdictAbsent
  by_cases excluded : matchesOfflineSyncDefaultExclude path = true
  · simp only [if_pos excluded]
    rfl
  · simp only [if_neg excluded]
    cases current : inputs.current.lookup path with
    | none => rfl
    | some currentEntry =>
      by_cases runtime : shouldPreferIncomingOfflineRuntimeFile path = true
      · simp only [if_pos runtime]
        split_ifs
        · rfl
        · rfl
        · rfl
      · simp only [if_neg runtime]
        cases base : inputs.base.lookup path with
        | none => rfl
        | some baseEntry =>
          dsimp only
          split_ifs
          · rfl
          · simp only [enforce, base]

theorem mergePath_eq (routing : PullRouting) : mergePath env options inputs routing path state =
    enforce env options inputs path state (verdict inputs routing path) := by
  unfold mergePath verdict
  split_ifs
  · rfl
  · rfl
  · rfl
  · cases inputs.incoming.lookup path with
    | some incoming => exact mergeIncoming_eq incoming
    | none => exact mergeAbsent_eq

end Rounds

/-- Why a file of the snapshot gets its verdict. -/
inductive Comes (relPath : JsString) (base current : Option OfflineSyncFileState) (incoming : OfflineSyncFileState) :
    Verdict → Prop
  | marker (marker : isEmbeddingGenerationMarkerPath relPath = true) : Comes relPath base current incoming .forget
  | level (plain : isEmbeddingGenerationMarkerPath relPath = false)
      (equal : current.map OfflineSyncFileState.sha256 = some incoming.sha256) :
      Comes relPath base current incoming (.level incoming)
  | keep (runtime : shouldPreferIncomingOfflineRuntimeFile relPath = true) : Comes relPath base current incoming (.keep false)
  | replace (plain : isEmbeddingGenerationMarkerPath relPath = false)
      (runtime : shouldPreferIncomingOfflineRuntimeFile relPath = true) : Comes relPath base current incoming (.take incoming)
  | look (plain : isEmbeddingGenerationMarkerPath relPath = false)
      (unedited : current.map OfflineSyncFileState.sha256 = base.map OfflineSyncFileState.sha256) :
      Comes relPath base current incoming (.look incoming)
  | take (plain : isEmbeddingGenerationMarkerPath relPath = false)
      (unedited : current.map OfflineSyncFileState.sha256 = base.map OfflineSyncFileState.sha256) :
      Comes relPath base current incoming (.take incoming)
  | wait (unchanged : some incoming.sha256 = base.map OfflineSyncFileState.sha256) :
      Comes relPath base current incoming (.keep true)
  | contest {report : OfflineSyncConflict} (named : report.path = relPath) :
      Comes relPath base current incoming (.contest report)

/-- Why a path the snapshot lacks gets its verdict. -/
inductive Goes (relPath : JsString) (base current : Option OfflineSyncFileState) : Verdict → Prop
  | forget (gone : matchesOfflineSyncDefaultExclude relPath = true ∨ current = none) : Goes relPath base current .forget
  | wait (held : shouldPreferIncomingOfflineRuntimeFile relPath = true ∨ base = none) : Goes relPath base current .wait
  | drop (free : shouldPreferIncomingOfflineRuntimeFile relPath = true ∨
        current.map OfflineSyncFileState.sha256 = base.map OfflineSyncFileState.sha256) : Goes relPath base current .drop
  | contest {report : OfflineSyncConflict} (named : report.path = relPath) : Goes relPath base current (.contestAbsent report)

section Inversion

variable {inputs : PullInputs Content} {routing : PullRouting} {relPath : JsString}
  {base current : Option OfflineSyncFileState} {incoming : OfflineSyncFileState} {dirs : List JsString}

theorem comes_verdictIncoming : Comes relPath base current incoming (verdictIncoming relPath base current incoming) := by
  unfold verdictIncoming
  split_ifs with marker level runtime held
  · exact .marker marker
  · exact .level (Bool.eq_false_iff.mpr marker) level
  · exact .keep runtime
  · exact .replace (Bool.eq_false_iff.mpr marker) runtime
  have plain := Bool.eq_false_iff.mpr marker
  cases current with
  | none =>
    cases base with
    | none => exact .look plain rfl
    | some baseEntry =>
      dsimp only [verdictPlain]
      split_ifs with unchanged
      · exact .wait (congrArg some unchanged)
      · exact .contest rfl
  | some currentEntry =>
    cases base with
    | none => exact .contest rfl
    | some baseEntry =>
      dsimp only [verdictPlain]
      split_ifs with unedited unchanged
      · exact .take plain (congrArg some unedited)
      · exact .wait (congrArg some unchanged)
      · exact .contest rfl

theorem goes_verdictAbsent : Goes relPath base current (verdictAbsent relPath base current dirs) := by
  unfold verdictAbsent
  by_cases excluded : matchesOfflineSyncDefaultExclude relPath = true
  · rw [if_pos excluded]
    exact .forget (.inl excluded)
  rw [if_neg excluded]
  cases current with
  | none => exact .forget (.inr rfl)
  | some currentEntry =>
    dsimp only
    by_cases runtime : shouldPreferIncomingOfflineRuntimeFile relPath = true
    · rw [if_pos runtime]
      split_ifs
      · exact .wait (.inl runtime)
      · exact .drop (.inl runtime)
      · exact .wait (.inl runtime)
    · rw [if_neg runtime]
      cases base with
      | none => exact .wait (.inr rfl)
      | some baseEntry =>
        dsimp only
        split_ifs with unedited
        · exact .drop (.inr (congrArg some unedited))
        · exact .contest rfl

theorem verdict_cases (inputs : PullInputs Content) (routing : PullRouting) (path : JsString) :
    (path ∈ routing.deferredPaths ∨ embeddingGenerationMembership path ≠ none) ∧ verdict inputs routing path = .keep false ∨
      path ∈ routing.transactionHandled ∧ verdict inputs routing path = .settled ∨
      (∃ file, inputs.incoming.lookup path = some file ∧ verdict inputs routing path =
        verdictIncoming path (inputs.base.lookup path) (inputs.current.lookup path) file) ∨
      (inputs.incoming.lookup path = none ∧ verdict inputs routing path =
        verdictAbsent path (inputs.base.lookup path) (inputs.current.lookup path) inputs.omittedGenerationDirs) := by
  unfold verdict
  split_ifs with deferred handled generation
  · exact .inl ⟨.inl (contains_iff_mem.mp deferred), rfl⟩
  · exact .inr (.inl ⟨contains_iff_mem.mp handled, rfl⟩)
  · have member : embeddingGenerationMembership path ≠ none := by
      intro outside
      rw [outside] at generation
      cases generation
    exact .inl ⟨.inr member, rfl⟩
  · cases found : inputs.incoming.lookup path with
    | none => exact .inr (.inr (.inr ⟨rfl, rfl⟩))
    | some file => exact .inr (.inr (.inl ⟨file, rfl, rfl⟩))

def acting : Verdict → Option OfflineSyncFileState
  | .level incoming => some incoming
  | .look incoming => some incoming
  | .take incoming => some incoming
  | _ => none

theorem acting_of_comes {v : Verdict} {file : OfflineSyncFileState} (comes : Comes relPath base current file v)
    (acts : acting v = some incoming) : file = incoming := by
  cases comes with
  | level | replace | look | take => exact Option.some.inj acts
  | marker | keep | wait | contest => cases acts

theorem idle_of_goes {v : Verdict} (goes : Goes relPath base current v) : acting v = none := by
  cases goes <;> rfl

theorem listed_of_acting (acts : acting (verdict inputs routing relPath) = some incoming) :
    inputs.incoming.lookup relPath = some incoming := by
  rcases verdict_cases inputs routing relPath with ⟨_, keeps⟩ | ⟨_, settled⟩ | ⟨file, found, same⟩ | ⟨_, same⟩
  · rw [keeps] at acts
    cases acts
  · rw [settled] at acts
    cases acts
  · rw [same] at acts
    exact found.trans (congrArg some (acting_of_comes comes_verdictIncoming acts))
  · rw [same, idle_of_goes goes_verdictAbsent] at acts
    cases acts

theorem level_of_verdict (level : verdict inputs routing relPath = .level incoming) :
    (inputs.current.lookup relPath).map OfflineSyncFileState.sha256 = some incoming.sha256 := by
  rcases verdict_cases inputs routing relPath with ⟨_, keeps⟩ | ⟨_, settled⟩ | ⟨file, _, same⟩ | ⟨_, same⟩
  · cases keeps.symm.trans level
  · cases settled.symm.trans level
  · have comes : Comes relPath _ _ file (.level incoming) := same.symm.trans level ▸ comes_verdictIncoming
    cases comes with
    | level _ equal => exact equal
  · have goes : Goes relPath _ _ (.level incoming) := same.symm.trans level ▸ goes_verdictAbsent
    cases goes

end Inversion

/-- A report without the name of its copy, which tells the time. -/
def unstamped (report : OfflineSyncConflict) : OfflineSyncConflict := { report with conflictPath := none }

def contested : Verdict → List OfflineSyncConflict
  | .contest report => [report]
  | .contestAbsent report => [report]
  | _ => []

def sideAt (path : JsString) (state : PullState Content) : Option (Stored Content) × Option OfflineSyncFileState :=
  (state.tree.file path, state.nextBase.lookup path)

def Taken (inputs : PullInputs Content) (path : JsString) (incoming : OfflineSyncFileState)
    (after : Option (Stored Content) × Option OfflineSyncFileState) : Prop :=
  ∃ content, inputs.buffers.lookup path = some content ∧ after = (some ⟨content, incoming.mtimeMs⟩, some incoming)

/-- A time that `setSafeFileMtime` leaves alone. -/
def Near (stored : Stored Content) (incoming : OfflineSyncFileState) : Prop :=
  |stored.mtimeMs.val - incoming.mtimeMs.val| ≤ mtimeToleranceMs

def Lands (inputs : PullInputs Content) (path : JsString) (before : Option (Stored Content))
    (after : Option (Stored Content) × Option OfflineSyncFileState) : Verdict → Prop
  | .forget => after = (before, none)
  | .level incoming => (∃ stored, after.1 = some stored ∧ before.map Stored.content = some stored.content ∧
      Near stored incoming) ∧ after.2 = some incoming
  | .look incoming => (before ≠ none ∧ after = (before, inputs.base.lookup path)) ∨ Taken inputs path incoming after
  | .take incoming => Taken inputs path incoming after
  | .drop => after = (none, none)
  | _ => after = (before, inputs.base.lookup path)

section Enforcing

variable {env : Environment Content} {options : PullOptions Content} {inputs : PullInputs Content}
  {path : JsString} {state next : PullState Content}

theorem sideAt_restoreBase (state : PullState Content) (path : JsString) (base : Option OfflineSyncFileState)
    (other : JsString) : sideAt other (state.restoreBase path base) =
      if other = path then (state.tree.file path, base) else sideAt other state := by
  unfold sideAt PullState.restoreBase
  cases base with
  | some file =>
    dsimp only
    rw [lookup_set]
    split
    next same => rw [same]
    next different => rfl
  | none =>
    dsimp only
    rw [lookup_erase]
    split
    next same => rw [same]
    next different => rfl

variable {report : OfflineSyncConflict} {touched : Bool × SyncTree Content} {incoming : OfflineSyncFileState}
  {tree : SyncTree Content} {v : Verdict}

theorem takeIncoming_spec (done : takeIncoming inputs path incoming state = .ok next) :
    ∃ content tree, inputs.buffers.lookup path = some content ∧
      writeSafeFile state.tree pullPrefix path content incoming.mtimeMs = .ok tree ∧
        next = { state with tree, nextBase := state.nextBase.set path incoming, upserted := state.upserted + 1 } := by
  unfold takeIncoming at done
  obtain ⟨content, required, rest⟩ := bind_ok_iff.mp done
  obtain ⟨tree, written, shape⟩ := bind_ok_iff.mp rest
  refine ⟨content, tree, ?_, written, pure_ok_iff.mp shape⟩
  unfold requiredBuffer at required
  split at required
  next held found => rw [found, Except.ok.inj required]
  next absent => cases required

theorem sideAt_takeIncoming (done : takeIncoming inputs path incoming state = .ok next) :
    ∃ content, inputs.buffers.lookup path = some content ∧ ∀ other, sideAt other next =
      if other = path then (some ⟨content, incoming.mtimeMs⟩, some incoming) else sideAt other state := by
  obtain ⟨content, tree, known, written, rfl⟩ := takeIncoming_spec done
  refine ⟨content, known, fun other => ?_⟩
  unfold sideAt
  rw [SyncTree.file_write (writeSafeFile_ok_iff.mp written).2, lookup_set]
  split
  next same => rfl
  next different => rfl

theorem dropLocal_spec (done : dropLocal path state = .ok next) : ∃ tree, deleteSafeFile state.tree pullPrefix path = .ok tree ∧
    next = { state with tree, nextBase := state.nextBase.erase path, deleted := state.deleted + 1 } := by
  unfold dropLocal at done
  obtain ⟨tree, removed, shape⟩ := bind_ok_iff.mp done
  exact ⟨tree, removed, pure_ok_iff.mp shape⟩

theorem sideAt_dropLocal (done : dropLocal path state = .ok next) (other : JsString) :
    sideAt other next = if other = path then (none, none) else sideAt other state := by
  obtain ⟨tree, removed, rfl⟩ := dropLocal_spec done
  unfold sideAt
  rw [SyncTree.file_unlink (deleteSafeFile_ok_iff.mp removed).2.2, lookup_erase]
  split
  next same => rfl
  next different => rfl

theorem recordConflict_keeps {sourceId : JsString} {copies : Bool} {incoming : Option Content}
    {recorded : OfflineSyncConflict × SyncTree Content}
    (done : recordConflict env tree pullPrefix sourceId copies incoming report = .ok recorded) :
    unstamped recorded.1 = unstamped report ∧ ∀ path, Watched path → recorded.2.file path = tree.file path := by
  unfold recordConflict at done
  cases incoming with
  | none =>
    rw [← Except.ok.inj done]
    exact ⟨rfl, fun _ _ => rfl⟩
  | some content =>
    dsimp only at done
    split_ifs at done with copying
    · obtain ⟨next, written, shape⟩ := bind_ok_iff.mp done
      rw [pure_ok_iff.mp shape]
      refine ⟨rfl, fun path watched => ?_⟩
      rw [SyncTree.file_write (writeSafeFile_ok_iff.mp written).2]
      split
      next same =>
        rw [same, append_assoc, append_assoc, append_assoc, append_assoc] at watched
        exact absurd watched (by rw [← append_assoc]; exact conflictPath_unwatched _)
      next different => rfl
    · rw [← Except.ok.inj done]
      exact ⟨rfl, fun _ _ => rfl⟩

theorem pullConflict_keeps (done : pullConflict env options inputs report state = .ok next) :
    (∃ recorded, next.conflicts = state.conflicts ++ [recorded] ∧ unstamped recorded = unstamped report) ∧
      next.nextBase = state.nextBase ∧
      next.upserted = state.upserted ∧ next.deleted = state.deleted ∧
      ∀ other, Watched other → next.tree.file other = state.tree.file other := by
  unfold pullConflict at done
  obtain ⟨buffer, _, rest⟩ := bind_ok_iff.mp done
  obtain ⟨recorded, written, shape⟩ := bind_ok_iff.mp rest
  obtain ⟨named, kept⟩ := recordConflict_keeps written
  rw [pure_ok_iff.mp shape]
  exact ⟨⟨recorded.1, rfl, named⟩, rfl, rfl, rfl, kept⟩

theorem tolerance_nonneg : 0 ≤ mtimeToleranceMs := by
  unfold mtimeToleranceMs
  norm_num

theorem touch_frame (done : setSafeFileMtime tree pullPrefix path incoming.mtimeMs = .ok touched) (other : JsString)
    (different : other ≠ path) : touched.2.file other = tree.file other := by
  rcases setSafeFileMtime_cases done with ⟨_, same⟩ | ⟨stored, _, rfl⟩
  · rw [same]
  · dsimp only
    split_ifs
    · rfl
    · exact SyncTree.file_touch_of_ne tree incoming.mtimeMs different

/-- Setting the time of a regular file: the file is found, keeps its content, and is near the time from then on. -/
theorem touch_regular {stored : Stored Content} (present : tree.file path = some stored)
    (done : setSafeFileMtime tree pullPrefix path incoming.mtimeMs = .ok touched) :
    touched.1 = true ∧ ∃ after, touched.2.file path = some after ∧ after.content = stored.content ∧ Near after incoming := by
  rcases setSafeFileMtime_cases done with ⟨missing, _⟩ | ⟨_, there, rfl⟩
  · cases missing.symm.trans present
  · cases there.symm.trans present
    dsimp only
    split_ifs with near
    · exact ⟨rfl, stored, present, rfl, near⟩
    · refine ⟨rfl, _, SyncTree.file_touch_self present incoming.mtimeMs, rfl, ?_⟩
      unfold Near
      rw [sub_self, abs_zero]
      exact tolerance_nonneg

theorem regular_present {found : Bool} (done : offlineSyncRegularFilePresent tree pullPrefix path = .ok found) :
    found = (tree.file path).isSome := by
  unfold offlineSyncRegularFilePresent at done
  obtain ⟨target, resolved, rest⟩ := bind_ok_iff.mp done
  obtain ⟨stat, reached, last⟩ := bind_ok_iff.mp rest
  obtain ⟨_, same⟩ := validate_ok_iff.mp (throwing_ok_iff.mp resolved)
  obtain ⟨_, shape⟩ := SyncTree.lstat_ok_iff.mp reached
  rw [same] at shape
  unfold SyncTree.stat at shape
  cases present : tree.file path with
  | some stored =>
    rw [present] at shape
    rw [shape] at last
    exact pure_ok_iff.mp last
  | none =>
    rw [present] at shape
    dsimp only at shape
    split_ifs at shape
    · rw [shape] at last
      exact pure_ok_iff.mp last
    · rw [shape] at last
      exact pure_ok_iff.mp last

section

variable (done : enforce env options inputs path state v = .ok next)
include done

theorem enforce_frame (other : JsString) (watched : Watched other) (different : other ≠ path) : sideAt other next = sideAt other state := by
  have kept (before : PullState Content) (base : Option OfflineSyncFileState) :
      sideAt other (before.restoreBase path base) = sideAt other before :=
    (sideAt_restoreBase before path base other).trans (if_neg different)
  cases v with
  | keep waits =>
    cases waits with
    | true =>
      rw [← Except.ok.inj done]
      exact kept state _
    | false =>
      rw [← Except.ok.inj done]
      exact kept state _
  | forget =>
    rw [← Except.ok.inj done]
    exact kept state none
  | wait => rw [← Except.ok.inj done]; rfl
  | settled => rw [← Except.ok.inj done]
  | level incoming =>
    obtain ⟨touched, marked, rest⟩ := bind_ok_iff.mp done
    have level : sideAt other { state with tree := touched.2 } = sideAt other state :=
      Prod.ext (touch_frame marked other different) rfl
    split_ifs at rest
    · rw [pure_ok_iff.mp rest]
      exact (kept { state with tree := touched.2 } (some incoming)).trans level
    · rw [pure_ok_iff.mp rest]
      exact (kept { state with tree := touched.2 } (inputs.base.lookup path)).trans level
  | look incoming =>
    obtain ⟨found, _, rest⟩ := bind_ok_iff.mp done
    split_ifs at rest
    · rw [pure_ok_iff.mp rest]
      rfl
    · obtain ⟨_, _, sides⟩ := sideAt_takeIncoming rest
      exact (sides other).trans (if_neg different)
  | take incoming =>
    obtain ⟨_, _, sides⟩ := sideAt_takeIncoming done
    exact (sides other).trans (if_neg different)
  | drop => exact (sideAt_dropLocal done other).trans (if_neg different)
  | contest report =>
    obtain ⟨after, conflicted, shape⟩ := bind_ok_iff.mp done
    obtain ⟨_, base, _, _, files⟩ := pullConflict_keeps conflicted
    have same : sideAt other after = sideAt other state :=
      Prod.ext (files other watched) (congrArg (OrderedMap.lookup · other) base)
    rw [pure_ok_iff.mp shape]
    split_ifs
    · exact (kept after _).trans same
    · exact same
  | contestAbsent report =>
    rw [← Except.ok.inj done]
    exact kept _ _

theorem enforce_lands (watched : Watched path) (fresh : state.nextBase.lookup path = inputs.base.lookup path)
    (present : ∀ incoming, v = .level incoming → ∃ stored, state.tree.file path = some stored) :
    Lands inputs path (state.tree.file path) (sideAt path next) v := by
  have restored (before : PullState Content) (base : Option OfflineSyncFileState) :
      sideAt path (before.restoreBase path base) = (before.tree.file path, base) :=
    (sideAt_restoreBase before path base path).trans (if_pos rfl)
  have unmoved : sideAt path state = (state.tree.file path, inputs.base.lookup path) := Prod.ext rfl fresh
  cases v with
  | keep waits =>
    cases waits with
    | true =>
      rw [← Except.ok.inj done]
      exact restored state _
    | false =>
      rw [← Except.ok.inj done]
      exact restored state _
  | forget =>
    rw [← Except.ok.inj done]
    exact restored state none
  | wait =>
    rw [← Except.ok.inj done]
    exact unmoved
  | settled =>
    rw [← Except.ok.inj done]
    exact unmoved
  | level incoming =>
    obtain ⟨stored, known⟩ := present incoming rfl
    obtain ⟨touched, marked, rest⟩ := bind_ok_iff.mp done
    obtain ⟨found, ⟨after, file, same, near⟩⟩ := touch_regular known marked
    rw [if_pos found] at rest
    rw [pure_ok_iff.mp rest]
    have side := restored { state with tree := touched.2 } (some incoming)
    refine ⟨⟨after, (congrArg Prod.fst side).trans file, ?_, near⟩, congrArg Prod.snd side⟩
    rw [known, same]
    rfl
  | look incoming =>
    obtain ⟨found, probed, rest⟩ := bind_ok_iff.mp done
    split_ifs at rest with there
    · rw [pure_ok_iff.mp rest]
      refine .inl ⟨fun absent => ?_, unmoved⟩
      rw [regular_present probed, absent] at there
      cases there
    · obtain ⟨content, known, sides⟩ := sideAt_takeIncoming rest
      exact .inr ⟨content, known, (sides path).trans (if_pos rfl)⟩
  | take incoming =>
    obtain ⟨content, known, sides⟩ := sideAt_takeIncoming done
    exact ⟨content, known, (sides path).trans (if_pos rfl)⟩
  | drop => exact (sideAt_dropLocal done path).trans (if_pos rfl)
  | contest report =>
    obtain ⟨after, conflicted, shape⟩ := bind_ok_iff.mp done
    obtain ⟨_, base, _, _, files⟩ := pullConflict_keeps conflicted
    rw [pure_ok_iff.mp shape]
    split_ifs
    · exact (restored after _).trans (Prod.ext (files path watched) rfl)
    · exact Prod.ext (files path watched) ((congrArg (OrderedMap.lookup · path) base).trans fresh)
  | contestAbsent report =>
    rw [← Except.ok.inj done]
    exact restored _ _

theorem enforce_reports : ∃ reports, next.conflicts = state.conflicts ++ reports ∧
    reports.map unstamped = (contested v).map unstamped := by
  have calm {same : PullState Content} (kept : same.conflicts = state.conflicts) :
      ∃ reports, same.conflicts = state.conflicts ++ reports ∧ reports.map unstamped = [] := ⟨[], by rw [kept, append_nil], rfl⟩
  cases v with
  | keep waits => cases waits <;> (rw [← Except.ok.inj done]; exact calm rfl)
  | forget | wait | settled => rw [← Except.ok.inj done]; exact calm rfl
  | level incoming =>
    obtain ⟨touched, _, rest⟩ := bind_ok_iff.mp done
    split_ifs at rest <;> (rw [pure_ok_iff.mp rest]; exact calm rfl)
  | look incoming =>
    obtain ⟨found, _, rest⟩ := bind_ok_iff.mp done
    split_ifs at rest
    · rw [pure_ok_iff.mp rest]
      exact calm rfl
    · obtain ⟨_, _, _, _, rfl⟩ := takeIncoming_spec rest
      exact calm rfl
  | take incoming =>
    obtain ⟨_, _, _, _, rfl⟩ := takeIncoming_spec done
    exact calm rfl
  | drop =>
    obtain ⟨_, _, rfl⟩ := dropLocal_spec done
    exact calm rfl
  | contest report =>
    obtain ⟨after, conflicted, shape⟩ := bind_ok_iff.mp done
    obtain ⟨recorded, grown, named⟩ := (pullConflict_keeps conflicted).1
    have reports : ∃ reports, after.conflicts = state.conflicts ++ reports ∧
        reports.map unstamped = (contested (.contest report)).map unstamped := ⟨[recorded], grown, congrArg (fun one => [one]) named⟩
    rw [pure_ok_iff.mp shape]
    split_ifs <;> exact reports
  | contestAbsent report =>
    rw [← Except.ok.inj done]
    exact ⟨[report], rfl, rfl⟩

theorem reported_of_contested {report : OfflineSyncConflict} (member : report ∈ contested v) :
    ∃ recorded ∈ next.conflicts, recorded.path = report.path := by
  obtain ⟨reports, shape, stamped⟩ := enforce_reports done
  obtain ⟨recorded, held, same⟩ := mem_map.mp (stamped ▸ mem_map_of_mem member)
  exact ⟨recorded, shape ▸ mem_append_right _ held, (congrArg OfflineSyncConflict.path same :)⟩

/-- The base changes at the path only, to an entry of one of the two sides. -/
theorem enforce_base : next.nextBase = state.nextBase ∨ ∃ base, next.nextBase = (state.restoreBase path base).nextBase ∧
    ∀ file, base = some file → inputs.base.lookup path = some file ∨ acting v = some file := by
  have restored {same : PullState Content} (kept : same.nextBase = (state.restoreBase path (inputs.base.lookup path)).nextBase) :
      ∃ base, same.nextBase = (state.restoreBase path base).nextBase ∧
        ∀ file, base = some file → inputs.base.lookup path = some file ∨ acting v = some file :=
    ⟨_, kept, fun _ => .inl⟩
  cases v with
  | keep waits => cases waits <;> (rw [← Except.ok.inj done]; exact .inr (restored rfl))
  | forget => rw [← Except.ok.inj done]; exact .inr ⟨none, rfl, nofun⟩
  | wait | settled => rw [← Except.ok.inj done]; exact .inl rfl
  | level incoming =>
    obtain ⟨touched, _, rest⟩ := bind_ok_iff.mp done
    split_ifs at rest
    · rw [pure_ok_iff.mp rest]
      exact .inr ⟨some incoming, rfl, fun _ => .inr⟩
    · rw [pure_ok_iff.mp rest]
      exact .inr (restored rfl)
  | look incoming =>
    obtain ⟨found, _, rest⟩ := bind_ok_iff.mp done
    split_ifs at rest
    · rw [pure_ok_iff.mp rest]
      exact .inl rfl
    · obtain ⟨_, _, _, _, rfl⟩ := takeIncoming_spec rest
      exact .inr ⟨some incoming, rfl, fun _ => .inr⟩
  | take incoming =>
    obtain ⟨_, _, _, _, rfl⟩ := takeIncoming_spec done
    exact .inr ⟨some incoming, rfl, fun _ => .inr⟩
  | drop =>
    obtain ⟨_, _, rfl⟩ := dropLocal_spec done
    exact .inr ⟨none, rfl, nofun⟩
  | contest report =>
    obtain ⟨after, conflicted, shape⟩ := bind_ok_iff.mp done
    have base := (pullConflict_keeps conflicted).2.1
    rw [pure_ok_iff.mp shape]
    split_ifs
    · exact .inr (restored (by unfold PullState.restoreBase; rw [base]))
    · exact .inl base
  | contestAbsent report =>
    rw [← Except.ok.inj done]
    exact .inr (restored rfl)

end

end Enforcing

end Remnic.OfflineSync.PullVerdict
