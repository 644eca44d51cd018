import Remnic.CodingGraph.Reindex
import Remnic.CodingGraph.Layers

/-!
What a run of `executeReindex` may claim about the index: each path has the content of the
stored head, or is kept for a retry.
-/

namespace Remnic.CodingGraph.Freshness

open Text.CodeUnits Library Library.Transition Schema Upsert Heuristic Reindex List

variable {engine : Engine} {index : Index} {run : Run} {store next : Store} {path head : JsString}

/-- A tracked entry; a link is anything that is no plain file. -/
inductive Entry where
  | file (content : Bytes)
  | link (target : JsString)
  deriving DecidableEq, Repr

/-- The trees of the commits, and what a checkout reads inside the root at a path that is no tracked file. -/
structure Repository where
  tree : JsString → OrderedMap JsString Entry
  through : JsString → JsString → Option Bytes

def Repository.content (repo : Repository) (head path : JsString) : Option Bytes :=
  match (repo.tree head).lookup path with
  | some (.file content) => some content
  | _ => repo.through head path

/-- What a commit has at a path: nothing, or a tracked entry with the content that is read there. -/
def Repository.view (repo : Repository) (head path : JsString) : Option (Option Bytes) :=
  ((repo.tree head).lookup path).map fun _ => repo.content head path

/-- A disk with the commit checked out. A read of what is there may fail, but not as if it were gone. -/
def CleanDisk (repo : Repository) (head : JsString) (disk : Disk) : Prop :=
  ∀ path, match repo.content head path with
  | some content => disk.symlinkEscapesRoot path = false ∧
      (disk.readFile path = .ok content ∨ ∃ code, code ≠ text "ENOENT" ∧ disk.readFile path = .error code)
  | none => disk.symlinkEscapesRoot path = true ∨ ∃ code, disk.readFile path = .error code

/-- A run against a clean worktree of a commit, with the tracked files as candidates. -/
structure CleanRun (engine : Engine) (repo : Repository) (head : JsString) (run : Run) : Prop where
  revParseHead : run.revParseHead = .ok (some head) ∨ ∃ code, run.revParseHead = .error code
  diffNameStatus : ∀ last entries, run.diffNameStatus last head = .ok entries →
    ∀ path, (repo.tree last).lookup path ≠ (repo.tree head).lookup path → path ∈ entries.flatMap changedPathsOf
  candidatePaths : run.candidatePaths = some (repo.tree head).keys
  probing : CleanDisk repo head run.probing
  ingesting : CleanDisk repo head run.ingesting
  parseFile : ∀ path content ir, run.parseFile path content = some ir →
    ir.path = path ∧ ir.contentHash = engine.hashContent content

/-- What is stored for a path is what the commit has there. -/
def Fits (engine : Engine) (seen : Option (Option Bytes)) (stored : Option JsString) : Prop :=
  match seen with
  | none => stored = none
  | some content => ∀ bytes ∈ content, stored = some (engine.hashContent bytes)

/-- Each path fits the commit or is kept for a retry. -/
def Fresh (engine : Engine) (repo : Repository) (head : JsString) (index : Index) : Prop :=
  ∀ path, Fits engine (repo.view head path) (storedHash index.store path) ∨ path ∈ index.pendingParseFailures

/-- The index, and beside it the commits of the runs that wrote data since the head was last written. -/
structure World where
  index : Index
  unfinished : List JsString

def World.after (engine : Engine) (world : World) (head : JsString) (run : Run) : World :=
  let attempt := executeReindex engine world.index run
  { index := attempt.index
    unfinished :=
      if attempt.index.lastIndexedHead ≠ world.index.lastIndexedHead then []
      else if attempt.committed then head :: world.unfinished
      else world.unfinished }

def step (engine : Engine) (world : World) (action : JsString × Run) : Option World := some (world.after engine action.1 action.2)

def examined (index : Index) (run : Run) : ReindexPlan → List JsString
  | .noop _ => index.pendingParseFailures
  | .full _ => run.candidatePaths.getD [] ++ index.pendingParseFailures
  | .incremental changedPaths => changedPaths ++ index.pendingParseFailures
  | .hashScan _ => run.candidatePaths.getD [] ++ index.store.files.keys ++ index.pendingParseFailures

/-- Whether a plan hands a path that has no content to `ingestFiles`. -/
def handsOver (run : Run) (path : JsString) : ReindexPlan → Bool
  | .noop _ | .full _ => true
  | .incremental _ => probeRead run.probing path = .unknown
  | .hashScan _ => false

/-- Whether a run with a plan may return with the head that is stored then. -/
def mayReport (index : Index) (run : Run) : ReindexPlan → Bool
  | .noop _ => index.pendingParseFailures = [] || run.faults.writes = .all || run.faults.writes = .closed
  | .full _ => false
  | .incremental _ => run.faults.writes = .all
  | .hashScan _ => run.faults.writes = .all || run.faults.writes = .closed

def ReindexPlan.isScan : ReindexPlan → Bool
  | .incremental _ | .hashScan _ => true
  | _ => false

def ReindexPlan.isPartial : ReindexPlan → Bool
  | .noop _ | .incremental _ => true
  | _ => false

structure Regular (repo : Repository) (world : World) (head : JsString) (run : Run) (plan : ReindexPlan) : Prop where
  /-- A path that is not tracked but has content, through a link. -/
  shadowed : ∀ path ∈ examined world.index run plan, repo.view head path = none → isCanonicalRelativePath path = true →
    repo.content head path = none
  /-- A stored path that is not tracked and leaves the root when it is ingested. -/
  escaped : ∀ path ∈ examined world.index run plan, repo.view head path = none → isCanonicalRelativePath path = true →
    world.index.store.files.contains path = true → handsOver run path plan = true → run.ingesting.symlinkEscapesRoot path = false
  /-- A tracked path that a scan refuses for its name. -/
  canonical : ReindexPlan.isScan plan = true → ∀ path ∈ examined world.index run plan, repo.view head path ≠ none →
    repo.content head path ≠ none → isCanonicalRelativePath path = true
  /-- A tracked link that reads otherwise than at the stored head, though the link is the same. -/
  relinked : ∀ changedPaths, plan = .incremental changedPaths → ∀ last ∈ world.index.lastIndexedHead,
    ∀ path ∉ examined world.index run plan, repo.view head path ≠ none → repo.content last path = repo.content head path
  /-- Data of an unfinished run of another commit, at a path that this run does not look at. -/
  unfinished : ReindexPlan.isPartial plan = true → mayReport world.index run plan = true → ∀ old ∈ world.unfinished,
    ∀ path ∉ examined world.index run plan, repo.view old path = repo.view head path
  /-- A scan of a commit that tracks nothing, while the stored head tracks something. -/
  emptied : ∀ reason, plan = .hashScan reason → (repo.tree head).keys = [] → mayReport world.index run plan = true →
    ∀ last ∈ world.index.lastIndexedHead, (repo.tree last).keys = [] ∧
      (run.faults.writes = .closed → ∀ old ∈ world.unfinished, (repo.tree old).keys = [])

/-- A run against a clean worktree that meets none of these. -/
def Meets (engine : Engine) (repo : Repository) (world : World) (action : JsString × Run) : Prop :=
  CleanRun engine repo action.1 action.2 ∧
    ∀ facts plan, planOf world.index action.2 = .ok (facts, plan) → Regular repo world action.1 action.2 plan

section store

variable {host : Host}

theorem files_upsertFileNodes (host : Host) (store : Store) (ir : StoreFileIR) (path : JsString) :
    storedHash (upsertFileNodes host store ir).1 path = if path = ir.path then some ir.contentHash else storedHash store path := by
  have nodes : ∀ existing fileId (entries : List (NodeId × SymbolIR)) (store : Store),
      (entries.foldl (upsertNode existing ir fileId) store).files = store.files := by
    intro existing fileId entries
    induction entries with
    | nil => exact fun _ => rfl
    | cons entry entries ih =>
      intro store
      rw [foldl_cons, ih]
      unfold upsertNode
      split <;> rfl
  have written : storedHash (upsertFile store ir).1 path = if path = ir.path then some ir.contentHash else storedHash store path := by
    unfold upsertFile storedHash
    cases store.files.lookup ir.path <;> (dsimp only; rw [OrderedMap.lookup_set]; split <;> rfl)
  calc
    _ = storedHash (upsertFile store ir).1 path := by
      unfold upsertFileNodes storedHash
      exact congrArg (fun files => Option.map FileRow.contentHash (OrderedMap.lookup files path)) (nodes _ _ _ _)
    _ = _ := written

theorem storedHash_upsertBatchNodes (host : Host) (store : Store) (files : List StoreFileIR) (path : JsString)
    (distinct : (files.map StoreFileIR.path).Nodup) :
    storedHash (upsertBatchNodes host store files).1 path =
      ((files.find? fun file => file.path = path).map StoreFileIR.contentHash).or (storedHash store path) := by
  refine upsertBatchNodes_tracks (fun done state => (done.map StoreFileIR.path).Nodup → storedHash state.1 path =
    ((done.find? fun file => file.path = path).map StoreFileIR.contentHash).or (storedHash store path)) ?_ (fun _ => rfl) files distinct
  intro done state ir before once
  rw [map_append, nodup_append] at once
  obtain ⟨first, _, apart⟩ := once
  rw [files_upsertFileNodes, find?_append, before first]
  by_cases same : ir.path = path
  · have absent : done.find? (fun file => file.path = path) = none := by
      rw [find?_eq_none]
      intro other member found
      exact apart _ (mem_map_of_mem member) _ (mem_singleton_self _) ((of_decide_eq_true found).trans same.symm)
    simp [absent, same]
  · simp [same, Ne.symm same]

theorem storedHash_runUpsert {files : List StoreFileIR} {deletePaths : List JsString}
    (ran : runUpsert host store files deletePaths = some next) (path : JsString) :
    storedHash next path = ((files.find? fun file => file.path = path).map StoreFileIR.contentHash).or
      (if path ∈ deletePaths then none else storedHash store path) := by
  unfold runUpsert at ran
  split at ran
  next valid =>
    obtain ⟨edged, edges, last⟩ := Option.bind_eq_some_iff.mp ran
    cases last
    have attributes : ∀ (pending : List Pending) (store : Store), (pending.foldl upsertFileAttributes store).files = store.files := by
      intro pending
      induction pending with
      | nil => exact fun _ => rfl
      | cons first pending ih =>
        intro store
        rw [foldl_cons, ih]
        unfold upsertFileAttributes
        split <;> rfl
    have edges_files : ∀ (pending : List Pending) (store next : Store), pending.foldlM upsertFileEdges store = some next →
        next.files = store.files := by
      intro pending
      induction pending with
      | nil =>
        intro store next same
        cases same
        rfl
      | cons first pending ih =>
        intro store next done
        rw [foldlM_cons] at done
        obtain ⟨middle, one, rest⟩ := Option.bind_eq_some_iff.mp done
        exact (ih middle next rest).trans (Layers.tables_upsertFileEdges one).2
    have pruned : ∀ (pending : List Pending) (store : Store), (pending.foldl pruneFileNodes store).files = store.files := by
      intro pending
      induction pending with
      | nil => exact fun _ => rfl
      | cons first pending ih => exact fun store => (ih _).trans rfl
    have same : ∀ {one other : Store}, one.files = other.files → storedHash one path = storedHash other path := by
      intro one other files
      unfold storedHash
      rw [files]
    calc
      _ = storedHash (upsertBatchNodes host (store.deleteFiles deletePaths) files).1 path :=
        (same (attributes _ _)).trans ((same (edges_files _ _ _ edges)).trans (same (pruned _ _)))
      _ = _ := storedHash_upsertBatchNodes host _ files path valid.1
      _ = _ := by
        congr 1
        show ((store.files.eraseAll deletePaths).lookup path).map FileRow.contentHash = _
        rw [OrderedMap.lookup_eraseAll]
        split <;> rfl
  next => cases ran

end store

section ingest

theorem parsed_of_ir {ir : FileIR} (read : (ingestFile run path).ir? = some ir) :
    isCanonicalRelativePath path = true ∧ run.ingesting.symlinkEscapesRoot path = false ∧
      ∃ content, run.ingesting.readFile path = .ok content ∧ run.parseFile path content = some ir := by
  unfold ingestFile at read
  split at read
  · cases read
  next canonical =>
    split at read
    · cases read
    next inside =>
      split at read
      · cases read
      next content found =>
        split at read
        · cases read
        next parsed =>
          cases read
          exact ⟨by simpa using canonical, by simpa using inside, content, found, parsed⟩

theorem find_derived {parsed : List FileIR} {files : List StoreFileIR} (derived : deriveHeuristicEdges parsed = some files)
    (path : JsString) : ((files.map withHeuristicScope).find? fun file => file.path = path).map StoreFileIR.contentHash =
      (parsed.find? fun ir => ir.path = path).map FileIR.contentHash := by
  unfold deriveHeuristicEdges at derived
  induction parsed generalizing files with
  | nil =>
    cases derived
    rfl
  | cons ir parsed ih =>
    rw [mapM_cons] at derived
    obtain ⟨file, one, derived⟩ := Option.bind_eq_some_iff.mp derived
    obtain ⟨rest, many, same⟩ := Option.bind_eq_some_iff.mp derived
    cases same
    obtain ⟨samePath, sameHash, _⟩ := deriveFile_keeps one
    have scope : (withHeuristicScope file).path = ir.path := samePath
    rw [map_cons, find?_cons, find?_cons, scope]
    by_cases found : ir.path = path
    · simpa [found, withHeuristicScope] using sameHash
    · simpa [found] using ih many

variable {repo : Repository}

theorem find_parsed (clean : CleanRun engine repo head run) (paths : List JsString) (path : JsString) :
    ((parsedFiles run paths).find? fun ir => ir.path = path) = if path ∈ paths then (ingestFile run path).ir? else none := by
  induction paths with
  | nil => rfl
  | cons first paths ih =>
    unfold parsedFiles at ih ⊢
    rw [filterMap_cons]
    by_cases same : path = first
    · rw [same] at ih ⊢
      cases read : (ingestFile run first).ir? with
      | none => simpa [read] using ih
      | some ir =>
        obtain ⟨_, _, content, _, parsed⟩ := parsed_of_ir read
        simp [(clean.parseFile first content ir parsed).1]
    · cases read : (ingestFile run first).ir? with
      | none => simpa [read, same] using ih
      | some ir =>
        obtain ⟨_, _, content, _, parsed⟩ := parsed_of_ir read
        simpa [read, same, (clean.parseFile first content ir parsed).1, Ne.symm same] using ih

theorem storedHash_ingestFiles (clean : CleanRun engine repo head run) {paths deletePaths : List JsString} {ingested : Ingested}
    (done : ingestFiles engine run store paths deletePaths = .ok ingested) (path : JsString) :
    storedHash ingested.store path = ((if path ∈ paths then (ingestFile run path).ir? else none).map FileIR.contentHash).or
      (if path ∈ deletePaths then none else storedHash store path) := by
  unfold ingestFiles at done
  split at done
  · cases done
  · cases done
  next files derived _ =>
    split at done
    next next ran =>
      cases done
      rw [storedHash_runUpsert ran, find_derived derived, find_parsed clean]
    next => cases done

theorem mem_computeNextPending {prior failed extra ingested deleted : List JsString} :
    path ∈ computeNextPending prior failed extra ingested deleted ↔
      (path ∈ prior ∨ path ∈ failed ∨ path ∈ extra) ∧ (path ∈ ingested → path ∈ failed) ∧ path ∉ deleted := by
  unfold computeNextPending
  rw [mem_filter, mem_eraseDups, mem_append, mem_append]
  simp [or_assoc, imp_iff_not_or]

theorem stored_of_contains (store : Store) (path : JsString) : store.files.contains path = true ↔ storedHash store path ≠ none := by
  unfold storedHash OrderedMap.contains
  cases store.files.lookup path <;> simp

end ingest

section disk

variable {repo : Repository} {disk : Disk}

variable {bytes : Bytes}

section

variable (clean : CleanDisk repo head disk)
include clean

theorem content_of_read (inside : disk.symlinkEscapesRoot path = false) (read : disk.readFile path = .ok bytes) : repo.content head path = some bytes := by
  have there := clean path
  split at there
  next content known =>
    rcases there.2 with found | ⟨code, _, failed⟩
    · rw [known, Option.some_inj]
      exact Except.ok.inj (found.symm.trans read)
    · cases failed.symm.trans read
  next =>
    rcases there with escapes | ⟨code, failed⟩
    · cases escapes.symm.trans inside
    · cases failed.symm.trans read

theorem inside_of_content (known : repo.content head path ≠ none) : disk.symlinkEscapesRoot path = false := by
  have there := clean path
  split at there
  · exact there.1
  next none => exact absurd none known

theorem content_of_present (present : probeRead disk path = .present bytes) :
    isCanonicalRelativePath path = true ∧ repo.content head path = some bytes := by
  unfold probeRead at present
  split at present
  · cases present
  next passed =>
    obtain ⟨canonical, inside⟩ : isCanonicalRelativePath path = true ∧ disk.symlinkEscapesRoot path = false := by
      simpa using passed
    split at present
    next content found =>
      cases present
      exact ⟨canonical, content_of_read clean inside found⟩
    next => split at present <;> cases present

theorem readable_of_content (canonical : isCanonicalRelativePath path = true) (known : repo.content head path ≠ none) : (probeRead disk path).isGone = false := by
  have there := clean path
  split at there
  next content same =>
    obtain ⟨inside, found | ⟨code, present, failed⟩⟩ := there
    · simp [probeRead, canonical, inside, found, ProbeRead.isGone]
    · simp [probeRead, canonical, inside, failed, present, ProbeRead.isGone]
  next none => exact absurd none known

end

end disk

section fates

variable {repo : Repository} {world : World} {plan : ReindexPlan}

/-- A path that a run looks at has the content of the commit afterwards, or stays as it is. -/
def Handled (engine : Engine) (repo : Repository) (head path : JsString) (store next : Store) (retry : List JsString) : Prop :=
  Fits engine (repo.view head path) (storedHash next path) ∨ (storedHash next path = storedHash store path ∧ path ∈ retry)

/-- What an untracked path must be for `ingestFiles` to do it no harm. -/
def Harmless (repo : Repository) (head path : JsString) (run : Run) (store : Store) : Prop :=
  repo.view head path = none → isCanonicalRelativePath path = true →
    repo.content head path = none ∧ (store.files.contains path = true → run.ingesting.symlinkEscapesRoot path = false)

theorem fits_of_no_content {stored : Option JsString} (tracked : repo.view head path ≠ none) (none : repo.content head path = none) :
    Fits engine (repo.view head path) stored := by
  unfold Repository.view at tracked ⊢
  cases found : (repo.tree head).lookup path with
  | none => exact absurd (by rw [found]; rfl) tracked
  | some entry =>
    rw [Option.map_some, none]
    exact fun _ member => by cases member

theorem fits_of_content {bytes : Bytes} (tracked : repo.view head path ≠ none) (known : repo.content head path = some bytes) :
    Fits engine (repo.view head path) (some (engine.hashContent bytes)) := by
  unfold Repository.view at tracked ⊢
  cases found : (repo.tree head).lookup path with
  | none => exact absurd (by rw [found]; rfl) tracked
  | some entry =>
    rw [Option.map_some, known]
    intro other member
    cases member
    rfl

variable {reason : JsString} {retry : List JsString} {ingested : Ingested} {work : Work} {paths deletePaths : List JsString}

theorem handled_ingested (clean : CleanRun engine repo head run)
    (done : ingestFiles engine run store paths deletePaths = .ok ingested) (member : path ∈ paths) (kept : path ∉ deletePaths)
    (retried : path ∈ parseFailedPaths run paths → path ∈ retry) (harmless : Harmless repo head path run store) :
    Handled engine repo head path store ingested.store retry := by
  have stored := storedHash_ingestFiles clean done path
  rw [if_pos member, if_neg kept] at stored
  unfold Handled
  cases fate : ingestFile run path with
  | parseFailed =>
    have failed : path ∈ parseFailedPaths run paths := mem_filter.mpr ⟨member, by rw [fate]; rfl⟩
    rw [fate] at stored
    exact .inr ⟨stored, retried failed⟩
  | escaped =>
    rw [fate] at stored
    obtain ⟨canonical, escapes⟩ : isCanonicalRelativePath path = true ∧ run.ingesting.symlinkEscapesRoot path = true := by
      unfold ingestFile at fate
      split at fate
      · cases fate
      next canonical =>
        split at fate
        next escapes => exact ⟨by simpa using canonical, escapes⟩
        next => (split at fate <;> first | cases fate | (split at fate <;> cases fate))
    by_cases tracked : repo.view head path = none
    · obtain ⟨_, inside⟩ := harmless tracked canonical
      have absent : storedHash store path = none := by
        by_contra there
        cases (inside ((stored_of_contains store path).mpr there)).symm.trans escapes
      rw [tracked]
      exact .inl (stored.trans absent)
    · have none : repo.content head path = none := by
        by_contra known
        cases (inside_of_content clean.ingesting known).symm.trans escapes
      exact .inl (fits_of_no_content tracked none)
  | parsed ir =>
    have read : (ingestFile run path).ir? = some ir := by rw [fate]; rfl
    obtain ⟨canonical, inside, content, found, parsed⟩ := parsed_of_ir read
    have known := content_of_read clean.ingesting inside found
    have tracked : repo.view head path ≠ none := by
      intro untracked
      cases (harmless untracked canonical).1.symm.trans known
    rw [read, Option.map_some, Option.some_or, (clean.parseFile path content ir parsed).2] at stored
    rw [stored]
    exact .inl (fits_of_content tracked known)

theorem handled_gone (clean : CleanRun engine repo head run)
    (done : ingestFiles engine run store paths deletePaths = .ok ingested) (left : path ∉ paths)
    (deleted : store.files.contains path = true → path ∈ deletePaths)
    (contentless : repo.view head path ≠ none → repo.content head path = none) :
    Handled engine repo head path store ingested.store retry := by
  have stored := storedHash_ingestFiles clean done path
  rw [if_neg left, Option.map_none, Option.none_or] at stored
  have absent : storedHash ingested.store path = none := by
    by_cases known : store.files.contains path = true
    · rw [stored, if_pos (deleted known)]
    · rw [stored_of_contains, not_not] at known
      rw [stored, known, ite_self]
  by_cases tracked : repo.view head path = none
  · exact .inl (by rw [tracked]; exact absent)
  · exact .inl (fits_of_no_content tracked (contentless tracked))

theorem harmless_of_regular (regular : Regular repo world head run plan) (looked : path ∈ examined world.index run plan)
    (hands : isCanonicalRelativePath path = true → repo.view head path = none → handsOver run path plan = true) :
    Harmless repo head path run world.index.store := fun untracked canonical =>
  ⟨regular.shadowed path looked untracked canonical,
    fun stored => regular.escaped path looked untracked canonical stored (hands canonical untracked)⟩

section

variable (clean : CleanRun engine repo head run)
include clean

theorem handled_noop (regular : Regular repo world head run (.noop reason))
    (done : ingestFiles engine run world.index.store world.index.pendingParseFailures [] = .ok ingested)
    (looked : path ∈ world.index.pendingParseFailures) :
    Handled engine repo head path world.index.store ingested.store (parseFailedPaths run world.index.pendingParseFailures) :=
  handled_ingested clean done looked not_mem_nil id (harmless_of_regular regular looked fun _ _ => rfl)

theorem handled_full (regular : Regular repo world head run (.full reason)) (work : Work)
    (same : work = fullWork world.index run)
    (done : ingestFiles engine run world.index.store work.toIngest work.toDelete = .ok ingested)
    (looked : path ∈ examined world.index run (.full reason)) :
    Handled engine repo head path world.index.store ingested.store (work.nextPending (parseFailedPaths run work.toIngest)) := by
  subst same
  have member : path ∈ (fullWork world.index run).toIngest := mem_eraseDups.mpr looked
  have kept : path ∉ (fullWork world.index run).toDelete := by
    intro deleted
    dsimp only [fullWork] at deleted
    split at deleted
    · exact of_decide_eq_true (mem_filter.mp deleted).2 member
    · cases deleted
  refine handled_ingested clean done member kept (fun failed => ?_) (harmless_of_regular regular looked fun _ _ => rfl)
  exact mem_computeNextPending.mpr ⟨.inr (.inl failed), fun _ => failed, kept⟩

theorem contentless_of_gone (regular : Regular repo world head run plan) (scan : ReindexPlan.isScan plan = true)
    (looked : path ∈ examined world.index run plan) (gone : (probeRead run.probing path).isGone = true) : repo.view head path ≠ none → repo.content head path = none := by
  intro tracked
  by_contra known
  have canonical := regular.canonical scan path looked tracked known
  cases (readable_of_content clean.probing canonical known).symm.trans gone

theorem handled_incremental {changedPaths : List JsString}
    (regular : Regular repo world head run (.incremental changedPaths)) (work : Work)
    (same : work = incrementalWork world.index run changedPaths)
    (done : ingestFiles engine run world.index.store work.toIngest work.toDelete = .ok ingested)
    (looked : path ∈ examined world.index run (.incremental changedPaths)) :
    Handled engine repo head path world.index.store ingested.store (work.nextPending (parseFailedPaths run work.toIngest)) := by
  subst same
  have seen : path ∈ (changedPaths ++ world.index.pendingParseFailures).eraseDups := mem_eraseDups.mpr looked
  by_cases gone : (probeRead run.probing path).isGone = true
  · refine handled_gone clean done (fun member => ?_) (fun stored => ?_) (contentless_of_gone clean regular rfl looked gone)
    · have readable := (mem_filter.mp member).2
      cases probed : probeRead run.probing path <;> simp [probed, ProbeRead.isReadable, ProbeRead.isGone] at readable gone
    · exact mem_filter.mpr ⟨seen, by rw [gone, stored]; rfl⟩
  · have member : path ∈ (incrementalWork world.index run changedPaths).toIngest := by
      refine mem_filter.mpr ⟨seen, ?_⟩
      cases probed : probeRead run.probing path <;> simp [probed, ProbeRead.isReadable, ProbeRead.isGone] at gone ⊢
    have kept : path ∉ (incrementalWork world.index run changedPaths).toDelete := by
      intro deleted
      have both := (mem_filter.mp deleted).2
      rw [Bool.and_eq_true] at both
      exact gone both.1
    refine handled_ingested clean done member kept (fun failed => ?_) (harmless_of_regular regular looked fun canonical untracked => ?_)
    · exact mem_computeNextPending.mpr ⟨.inr (.inl failed), fun _ => failed, kept⟩
    · have none := regular.shadowed path looked untracked canonical
      cases probed : probeRead run.probing path with
      | present content => cases (content_of_present clean.probing probed).2.symm.trans none
      | unknown => simp [handsOver, probed]
      | missing => exact absurd (by rw [probed]; rfl) gone
      | skip => exact absurd (by rw [probed]; rfl) gone

theorem handled_hashScan (regular : Regular repo world head run (.hashScan reason)) (work : Work)
    (same : work = hashScanWork engine world.index run)
    (done : ingestFiles engine run world.index.store work.toIngest work.toDelete = .ok ingested)
    (looked : path ∈ examined world.index run (.hashScan reason)) :
    Handled engine repo head path world.index.store ingested.store (work.nextPending (parseFailedPaths run work.toIngest)) := by
  subst same
  have seen : path ∈ (run.candidatePaths.getD [] ++ world.index.store.files.keys ++ world.index.pendingParseFailures).eraseDups :=
    mem_eraseDups.mpr looked
  have stays : (probeRead run.probing path).isGone = false → path ∉ (hashScanWork engine world.index run).toDelete := by
    intro there deleted
    have both := (mem_filter.mp deleted).2
    rw [there] at both
    cases both
  cases probed : probeRead run.probing path with
  | present content =>
    have kept := stays (by rw [probed]; rfl)
    obtain ⟨canonical, known⟩ := content_of_present clean.probing probed
    have tracked : repo.view head path ≠ none := by
      intro untracked
      cases (regular.shadowed path looked untracked canonical).symm.trans known
    by_cases unchanged : storedHash world.index.store path = some (engine.hashContent content)
    · have left : path ∉ (hashScanWork engine world.index run).toIngest := by
        intro member
        have mismatch := (mem_filter.mp member).2
        simp [probed, isMismatch, unchanged] at mismatch
      have stored := storedHash_ingestFiles clean done path
      rw [if_neg left, if_neg kept, Option.map_none, Option.none_or, unchanged] at stored
      unfold Handled
      rw [stored]
      exact .inl (fits_of_content tracked known)
    · have member : path ∈ (hashScanWork engine world.index run).toIngest :=
        mem_filter.mpr ⟨seen, by simp [probed, isMismatch, unchanged]⟩
      refine handled_ingested clean done member kept (fun failed => ?_) fun untracked => absurd untracked tracked
      exact mem_computeNextPending.mpr ⟨.inr (.inl failed), fun _ => failed, kept⟩
  | unknown =>
    have kept := stays (by rw [probed]; rfl)
    have left : path ∉ (hashScanWork engine world.index run).toIngest := by
      intro member
      have mismatch := (mem_filter.mp member).2
      rw [probed] at mismatch
      cases mismatch
    have stored := storedHash_ingestFiles clean done path
    rw [if_neg left, if_neg kept] at stored
    refine .inr ⟨stored, mem_computeNextPending.mpr ⟨.inr (.inr ?_), fun member => absurd member left, kept⟩⟩
    exact mem_filter.mpr ⟨seen, by simp [probed]⟩
  | missing | skip =>
    have gone : (probeRead run.probing path).isGone = true := by rw [probed]; rfl
    refine handled_gone clean done (fun member => ?_) (fun stored => ?_) (contentless_of_gone clean regular rfl looked gone)
    · have mismatch := (mem_filter.mp member).2
      rw [probed] at mismatch
      cases mismatch
    · exact mem_filter.mpr ⟨seen, by rw [gone, stored]; rfl⟩

theorem handled_work (regular : Regular repo world head run plan) (planned : workOf engine world.index run plan = some work)
    (done : ingestFiles engine run world.index.store work.toIngest work.toDelete = .ok ingested)
    (looked : path ∈ examined world.index run plan) :
    Handled engine repo head path world.index.store ingested.store (work.nextPending (parseFailedPaths run work.toIngest)) := by
  cases plan with
  | noop reason =>
    simp only [workOf] at planned
    split at planned
    · cases planned
    · cases planned
      exact handled_noop clean regular done looked
  | full reason =>
    simp only [workOf] at planned
    split at planned
    · cases planned
    · exact handled_full clean regular work (Option.some.inj planned).symm done looked
  | incremental changedPaths => exact handled_incremental clean regular work (Option.some.inj planned).symm done looked
  | hashScan reason => exact handled_hashScan clean regular work (Option.some.inj planned).symm done looked

theorem left_alone (isPartial : ReindexPlan.isPartial plan = true)
    (planned : workOf engine world.index run plan = some work)
    (done : ingestFiles engine run world.index.store work.toIngest work.toDelete = .ok ingested)
    (other : path ∉ examined world.index run plan) :
    storedHash ingested.store path = storedHash world.index.store path ∧ path ∉ world.index.pendingParseFailures := by
  have stored := storedHash_ingestFiles clean done path
  cases plan with
  | noop reason =>
    simp only [workOf] at planned
    split at planned
    · cases planned
    · cases planned
      rw [if_neg (show path ∉ (noopWork world.index.pendingParseFailures).toIngest from other),
        if_neg (show path ∉ (noopWork world.index.pendingParseFailures).toDelete from not_mem_nil)] at stored
      exact ⟨stored, other⟩
  | full reason => cases isPartial
  | incremental changedPaths =>
    cases planned
    have unseen : path ∉ (changedPaths ++ world.index.pendingParseFailures).eraseDups := fun seen => other (mem_eraseDups.mp seen)
    rw [if_neg (show path ∉ (incrementalWork world.index run changedPaths).toIngest from fun member => unseen (mem_of_mem_filter member)),
      if_neg (show path ∉ (incrementalWork world.index run changedPaths).toDelete from
        fun member => unseen (mem_of_mem_filter member))] at stored
    exact ⟨stored, fun pending => other (mem_append_right _ pending)⟩
  | hashScan reason => cases isPartial

/-- A plan that looks at every path leaves nothing at the others, which the commit does not have. -/
theorem fits_unexamined (whole : ReindexPlan.isPartial plan = false)
    (planned : workOf engine world.index run plan = some work)
    (provided : ∀ reason, plan = .full reason → candidatesProvided run = true)
    (done : ingestFiles engine run world.index.store work.toIngest work.toDelete = .ok ingested)
    (other : path ∉ examined world.index run plan) : Fits engine (repo.view head path) (storedHash ingested.store path) := by
  have stored := storedHash_ingestFiles clean done path
  have untracked : path ∉ run.candidatePaths.getD [] → repo.view head path = none := by
    intro absent
    rw [clean.candidatePaths, Option.getD_some] at absent
    unfold Repository.view
    rw [(OrderedMap.lookup_eq_none_iff _ _).mpr absent]
    rfl
  cases plan with
  | noop reason => cases whole
  | incremental changedPaths => cases whole
  | full reason =>
    simp only [workOf] at planned
    split at planned
    · cases planned
    · cases planned
      have left : path ∉ (fullWork world.index run).toIngest := fun member => other (mem_eraseDups.mp member)
      rw [untracked fun member => other (mem_append_left _ member)]
      rw [if_neg left, Option.map_none, Option.none_or] at stored
      by_cases known : storedHash world.index.store path = none
      · exact stored.trans (by rw [known, ite_self])
      · have deleted : path ∈ (fullWork world.index run).toDelete := by
          dsimp only [fullWork]
          rw [if_pos (provided reason rfl), mem_filter]
          exact ⟨(OrderedMap.mem_keys_iff _ _).mpr ((OrderedMap.contains_iff _ _).mp ((stored_of_contains _ _).mpr known)),
            decide_eq_true left⟩
        exact stored.trans (if_pos deleted)
  | hashScan reason =>
    cases planned
    have unseen : path ∉ (run.candidatePaths.getD [] ++ world.index.store.files.keys ++ world.index.pendingParseFailures).eraseDups :=
      fun seen => other (mem_eraseDups.mp seen)
    have absent : storedHash world.index.store path = none := by
      by_contra known
      refine other (mem_append_left _ (mem_append_right _ ?_))
      exact (OrderedMap.mem_keys_iff _ _).mpr ((OrderedMap.contains_iff _ _).mp ((stored_of_contains _ _).mpr known))
    rw [untracked fun member => other (mem_append_left _ (mem_append_left _ member))]
    rw [if_neg (show path ∉ (hashScanWork engine world.index run).toIngest from fun member => unseen (mem_of_mem_filter member)),
      absent, ite_self] at stored
    exact stored

end

end fates

end Remnic.CodingGraph.Freshness
