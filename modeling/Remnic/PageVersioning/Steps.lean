import Remnic.PageVersioning.History

/-!
`createVersion`, `pruneVersions`, `removeVersion` and `recordStrandedCommit`, one file
operation at a time. The manifest lock is exclusive, the rename of a manifest atomic; every
operation may fail and every call may crash, which frees its lock.
-/

namespace Remnic.PageVersioning.Steps

open Text.CodeUnits History

variable {Hash Call : Type}

inductive Operation where
  | createVersion (content : JsString) (deferPrune : Bool) (maxVersionsPerPage : Nat)
  | pruneVersions (committedVersionId : Option Nat) (maxVersionsPerPage : Nat)
  | removeVersion (versionId : Nat)
  | recordStrandedCommit (versionId : Nat)
  deriving DecidableEq, Repr

/-- The page of each call, as a path in the memory directory, and what is done to its history. -/
structure Calls (Call : Type) where
  page : Call → JsString
  operation : Call → Operation

/-- One pruning: the versions it starts from, what stays and what goes. -/
structure Pruning (Hash : Type) where
  before : List (PageVersion Hash)
  kept : List (PageVersion Hash)
  dropped : List (PageVersion Hash)
  maxVersionsPerPage : Nat

/-- What a call is about to publish, with the ids of the snapshots that go afterwards. The rest is not stored: the pruning
it contains, and the versions whose write it knows to be committed. -/
structure Plan (Hash : Type) where
  history : VersionHistory Hash
  removed : List Nat
  pruning : Option (Pruning Hash)
  commits : List Nat

inductive Stage (Hash : Type) where
  | idle
  | locking
  | reading
  | snapshotting (history : VersionHistory Hash)
  | marking (history : VersionHistory Hash)
  | publishing (plan : Plan Hash)
  | unlinking (ids : List Nat)
  | releasing
  | stranding
  | finished
  | crashed

/-- The sidecar directories, by their names. Beside the files: how many snapshots have been taken, for which page each was,
which versions' writes have been committed, and the prunings published. -/
structure World (Hash Call : Type) where
  manifests : JsString → Option (VersionHistory Hash)
  snapshots : JsString → Nat × JsString → Option JsString
  markers : JsString → List Nat
  locks : JsString → Option Call
  stages : Call → Stage Hash
  taken : Nat
  recorded : List (JsString × Nat × JsString)
  committed : List Nat
  prunings : List (Pruning Hash)

def initial : World Hash Call where
  manifests _ := none
  snapshots _ _ := none
  markers _ := []
  locks _ := none
  stages _ := .idle
  taken := 0
  recorded := []
  committed := []
  prunings := []

/-- How an operation ends. A failed write may leave the file with any content. -/
inductive Outcome where
  | works
  | fails (left : Option JsString)
  deriving DecidableEq, Repr

inductive Action (Call : Type) where
  | start (call : Call)
  | proceed (call : Call) (outcome : Outcome)
  | crash (call : Call)

def World.listed (world : World Hash Call) (dir : JsString) : List (PageVersion Hash) :=
  ((world.manifests dir).getD .empty).versions

/-- `createVersion`, once the snapshot is written. -/
def createPlan (contentHash : JsString → Hash) (history : VersionHistory Hash) (content : JsString) (deferPrune : Bool)
    (maxVersionsPerPage created : Nat) : Plan Hash :=
  let version : PageVersion Hash := ⟨nextId history.versions, contentHash content, deferPrune, created⟩
  let pushed := history.versions ++ [version]
  let pruned := if deferPrune then (pushed, []) else pruneExcessVersions pushed maxVersionsPerPage
  { history := ⟨pruned.1, version.versionId⟩
    removed := pruned.2.map PageVersion.versionId
    pruning := if deferPrune then none else some ⟨pushed, pruned.1, pruned.2, maxVersionsPerPage⟩
    commits := if deferPrune then [] else [created] }

/-- The flags that `pruneVersions` clears: of the version it is told about, and of those in the marker. -/
def clearFlags (versions : List (PageVersion Hash)) (committedVersionId : Option Nat) (stranded : List Nat) :
    List (PageVersion Hash) :=
  stranded.foldl (fun versions versionId => clearPending versionId versions)
    (committedVersionId.elim versions fun versionId => clearPending versionId versions)

def prunePlan (history : VersionHistory Hash) (committedVersionId : Option Nat) (maxVersionsPerPage : Nat)
    (stranded : List Nat) : Plan Hash :=
  let cleared := clearFlags history.versions committedVersionId stranded
  let pruned := pruneExcessVersions cleared maxVersionsPerPage
  { history := ⟨pruned.1, history.currentVersion⟩
    removed := pruned.2.map PageVersion.versionId
    pruning := some ⟨cleared, pruned.1, pruned.2, maxVersionsPerPage⟩
    commits := (history.versions.filter fun version => version.pending && committedVersionId = some version.versionId).map
      PageVersion.created }

/-- Whether `pruneVersions` has dropped a version or cleared a flag. -/
def Plan.changes (plan : Plan Hash) (history : VersionHistory Hash) : Bool :=
  plan.removed ≠ [] || committedCount plan.history.versions ≠ committedCount history.versions

def removePlan (history : VersionHistory Hash) (versionId : Nat) : Plan Hash :=
  let versions := removeId versionId history.versions
  { history := ⟨versions, maxId versions⟩
    removed := [versionId]
    pruning := none
    commits := [] }

variable [DecidableEq Call]

def World.at (world : World Hash Call) (call : Call) (stage : Stage Hash) : World Hash Call :=
  { world with stages := Function.update world.stages call stage }

def World.lock (world : World Hash Call) (dir : JsString) (holder : Option Call) : World Hash Call :=
  { world with locks := Function.update world.locks dir holder }

def World.store (world : World Hash Call) (dir : JsString) (name : Nat × JsString) (content : Option JsString) :
    World Hash Call :=
  { world with snapshots := Function.update world.snapshots dir (Function.update (world.snapshots dir) name content) }

def World.publish (world : World Hash Call) (dir : JsString) (plan : Plan Hash) : World Hash Call :=
  { world with
    manifests := Function.update world.manifests dir (some plan.history)
    committed := world.committed ++ plan.commits
    prunings := world.prunings ++ plan.pruning.toList }

def lockedStep (contentHash : JsString → Hash) (calls : Calls Call) (world : World Hash Call) (call : Call)
    (outcome : Outcome) : Stage Hash → Option (World Hash Call)
  | .reading =>
    let history := (world.manifests (sidecarDir (calls.page call))).getD .empty
    match outcome, calls.operation call with
    | .fails _, _ => some (world.at call .releasing)
    | .works, .createVersion _ _ _ => some (world.at call (.snapshotting history))
    | .works, .pruneVersions _ _ => some (world.at call (.marking history))
    | .works, .removeVersion versionId =>
      if history.versions.any fun version => version.versionId = versionId then
        some (world.at call (.publishing (removePlan history versionId)))
      else some (world.at call .releasing)
    | .works, .recordStrandedCommit _ => none
  | .snapshotting history =>
    match outcome, calls.operation call with
    | .works, .createVersion content deferPrune maxVersionsPerPage =>
      let name := (nextId history.versions, snapshotExt (calls.page call))
      some ({ world.store (sidecarDir (calls.page call)) name (some content) with
        taken := world.taken + 1
        recorded := world.recorded ++ [(calls.page call, name.1, content)] }.at call
          (.publishing (createPlan contentHash history content deferPrune maxVersionsPerPage world.taken)))
    | .fails left, .createVersion _ _ _ =>
      let name := (nextId history.versions, snapshotExt (calls.page call))
      some ((world.store (sidecarDir (calls.page call)) name left).at call .releasing)
    | _, _ => none
  | .marking history =>
    match calls.operation call with
    | .pruneVersions committedVersionId maxVersionsPerPage =>
      let stranded := if outcome = .works then world.markers (sidecarDir (calls.page call)) else []
      let plan := prunePlan history committedVersionId maxVersionsPerPage stranded
      some (world.at call (if plan.changes history then .publishing plan else .releasing))
    | _ => none
  | .publishing plan =>
    match outcome with
    | .works => some ((world.publish (sidecarDir (calls.page call)) plan).at call (.unlinking plan.removed))
    | .fails _ => some (world.at call .releasing)
  | .unlinking [] => some (world.at call .releasing)
  | .unlinking (versionId :: ids) =>
    match outcome with
    | .works =>
      some ((world.store (sidecarDir (calls.page call)) (versionId, snapshotExt (calls.page call)) none).at call
        (.unlinking ids))
    | .fails _ => some (world.at call (.unlinking ids))
  | .releasing => some ((world.lock (sidecarDir (calls.page call)) none).at call .finished)
  | _ => none

def proceed (contentHash : JsString → Hash) (calls : Calls Call) (world : World Hash Call) (call : Call)
    (outcome : Outcome) : Option (World Hash Call) :=
  match world.stages call with
  | .locking =>
    match outcome with
    | .works =>
      if world.locks (sidecarDir (calls.page call)) = none then
        some ((world.lock (sidecarDir (calls.page call)) (some call)).at call .reading)
      else none
    | .fails _ => some (world.at call .finished)
  | .stranding =>
    match outcome, calls.operation call with
    | .works, .recordStrandedCommit versionId =>
      let dir := sidecarDir (calls.page call)
      let named := (world.listed dir).filter fun version => version.versionId = versionId
      some ({ world with
        markers := Function.update world.markers dir (world.markers dir ++ [versionId])
        committed := world.committed ++ named.map PageVersion.created }.at call .finished)
    | .works, _ => none
    | .fails _, _ => some (world.at call .finished)
  | .idle | .finished | .crashed => none
  | stage => lockedStep contentHash calls world call outcome stage

def step (contentHash : JsString → Hash) (calls : Calls Call) (world : World Hash Call) :
    Action Call → Option (World Hash Call)
  | .start call =>
    match world.stages call, calls.operation call with
    | .idle, .recordStrandedCommit _ => some (world.at call .stranding)
    | .idle, _ => some (world.at call .locking)
    | _, _ => none
  | .proceed call outcome => proceed contentHash calls world call outcome
  | .crash call =>
    let dir := sidecarDir (calls.page call)
    some ((if world.locks dir = some call then world.lock dir none else world).at call .crashed)

end Remnic.PageVersioning.Steps
