import Remnic.Text.CodeUnits

/-!
The version history of a page: where its sidecar directory lies, how an id is chosen, and
which versions pruning drops. Of a version only what these decisions read is kept.
-/

namespace Remnic.PageVersioning.History

open Text.CodeUnits List

variable {Hash : Type}

/-- A version in a manifest. `created` numbers the snapshots as they were taken; it is not stored. -/
structure PageVersion (Hash : Type) where
  versionId : Nat
  contentHash : Hash
  pending : Bool
  created : Nat
  deriving DecidableEq, Repr

structure VersionHistory (Hash : Type) where
  versions : List (PageVersion Hash)
  currentVersion : Nat
  deriving DecidableEq, Repr

def VersionHistory.empty : VersionHistory Hash := ⟨[], 0⟩

/-- The page path without an extension `.md` in any case. -/
def withoutExt (pagePath : JsString) : JsString :=
  if asciiLower (pagePath.drop (pagePath.length - 3)) = text ".md" then pagePath.take (pagePath.length - 3) else pagePath

def sidecarKey (pagePath : JsString) : JsString :=
  (withoutExt pagePath).flatMap fun c => if c = slash ∨ c = backslash then text "__" else [c]

/-- The sidecar directory, named by its key; the key `.` names the directory that holds them. -/
def sidecarDir (pagePath : JsString) : JsString :=
  if sidecarKey pagePath = text "." then [] else sidecarKey pagePath

def basename (pagePath : JsString) : JsString := (split slash pagePath).getLast?.getD []

/-- `path.extname`: from the last dot of the base name, unless that begins it. -/
def extname (pagePath : JsString) : JsString :=
  let base := basename pagePath
  let afterDot := base.reverse.takeWhile fun c => c ≠ dot
  if afterDot.length + 1 ≥ base.length ∨ base = text ".." then [] else base.drop (base.length - afterDot.length - 1)

def snapshotExt (pagePath : JsString) : JsString := if extname pagePath = [] then text ".md" else extname pagePath

def maxId (versions : List (PageVersion Hash)) : Nat := (versions.map PageVersion.versionId).foldr max 0

def nextId (versions : List (PageVersion Hash)) : Nat := if versions = [] then 1 else maxId versions + 1

/-- The oldest committed versions are dropped until the excess is gone: what stays, and what goes. -/
def dropExcess : Nat → List (PageVersion Hash) → List (PageVersion Hash) × List (PageVersion Hash)
  | 0, versions => (versions, [])
  | _ + 1, [] => ([], [])
  | excess + 1, version :: versions =>
    if version.pending then
      (version :: (dropExcess (excess + 1) versions).1, (dropExcess (excess + 1) versions).2)
    else ((dropExcess excess versions).1, version :: (dropExcess excess versions).2)

def committedCount (versions : List (PageVersion Hash)) : Nat := (versions.filter fun version => !version.pending).length

def pruneExcessVersions (versions : List (PageVersion Hash)) (maxVersionsPerPage : Nat) :
    List (PageVersion Hash) × List (PageVersion Hash) :=
  if maxVersionsPerPage = 0 then (versions, [])
  else dropExcess (committedCount versions - maxVersionsPerPage) versions

/-- The first pending version with an id is not pending any more. -/
def clearPending (versionId : Nat) : List (PageVersion Hash) → List (PageVersion Hash)
  | [] => []
  | version :: versions =>
    if version.versionId = versionId ∧ version.pending then { version with pending := false } :: versions
    else version :: clearPending versionId versions

def removeId (versionId : Nat) (versions : List (PageVersion Hash)) : List (PageVersion Hash) :=
  versions.eraseP fun version => version.versionId = versionId

/-- The ids of a manifest grow, in the order in which the snapshots were taken. -/
def Ascending (versions : List (PageVersion Hash)) : Prop :=
  versions.Pairwise fun first second => first.versionId < second.versionId ∧ first.created < second.created

variable {versions rest : List (PageVersion Hash)} {version other : PageVersion Hash} {versionId excess : Nat}

theorem le_maxId (listed : version ∈ versions) : version.versionId ≤ maxId versions := by
  induction versions with
  | nil => cases listed
  | cons first versions ih =>
    rcases mem_cons.mp listed with rfl | later
    · exact Nat.le_max_left _ _
    · exact (ih later).trans (Nat.le_max_right _ _)

theorem lt_nextId (listed : version ∈ versions) : version.versionId < nextId versions := by
  unfold nextId
  rw [if_neg (ne_nil_of_mem listed)]
  exact Nat.lt_succ_of_le (le_maxId listed)

theorem Ascending.nodup (ascending : Ascending versions) : (versions.map PageVersion.versionId).Nodup :=
  pairwise_map.mpr (ascending.imp fun less => Nat.ne_of_lt less.1)

theorem ne_of_mem_removeId (ascending : Ascending versions) (stays : version ∈ removeId versionId versions) :
    version.versionId ≠ versionId := by
  induction versions with
  | nil => cases stays
  | cons first versions ih =>
    unfold removeId at stays
    rw [eraseP_cons] at stays
    by_cases found : first.versionId = versionId
    · simp only [found, decide_true, if_true] at stays
      have later := ((pairwise_cons.mp ascending).1 version stays).1
      omega
    · simp only [found, decide_false, Bool.false_eq_true, if_false] at stays
      rcases mem_cons.mp stays with rfl | rest
      · exact found
      · exact ih ascending.tail rest

theorem Ascending.push (ascending : Ascending versions) (fresh : version.versionId = nextId versions)
    (latest : ∀ earlier ∈ versions, earlier.created < version.created) : Ascending (versions ++ [version]) := by
  apply pairwise_append.mpr
  refine ⟨ascending, pairwise_singleton _ _, fun earlier listed last itself => ?_⟩
  rw [mem_singleton.mp itself, fresh]
  exact ⟨lt_nextId listed, latest earlier listed⟩

theorem dropExcess_zero (versions : List (PageVersion Hash)) : dropExcess 0 versions = (versions, []) := by
  cases versions <;> rfl

theorem dropExcess_perm (excess : Nat) (versions : List (PageVersion Hash)) :
    ((dropExcess excess versions).1 ++ (dropExcess excess versions).2).Perm versions := by
  induction versions generalizing excess with
  | nil => cases excess <;> exact Perm.refl _
  | cons version versions ih =>
    cases excess with
    | zero => exact Perm.of_eq (append_nil _)
    | succ excess =>
      unfold dropExcess
      split_ifs
      · exact (ih _).cons version
      · exact perm_middle.trans ((ih _).cons version)

theorem dropExcess_sublist (excess : Nat) (versions : List (PageVersion Hash)) :
    ((dropExcess excess versions).1).Sublist versions := by
  induction versions generalizing excess with
  | nil => cases excess <;> exact Sublist.refl _
  | cons version versions ih =>
    cases excess with
    | zero => exact Sublist.refl _
    | succ excess =>
      unfold dropExcess
      split_ifs
      · exact (ih _).cons_cons version
      · exact (ih _).cons version

theorem not_pending_of_dropped (dropped : version ∈ (dropExcess excess versions).2) : version.pending = false := by
  induction versions generalizing excess with
  | nil => cases excess <;> cases dropped
  | cons first versions ih =>
    cases excess with
    | zero => cases dropped
    | succ excess =>
      unfold dropExcess at dropped
      split_ifs at dropped with pending
      · exact ih dropped
      · rcases mem_cons.mp dropped with rfl | later
        · exact Bool.eq_false_iff.mpr pending
        · exact ih later

theorem older_of_dropped (ascending : Ascending versions) (dropped : version ∈ (dropExcess excess versions).2)
    (stays : other ∈ (dropExcess excess versions).1) (committed : other.pending = false) :
    version.created < other.created := by
  induction versions generalizing excess with
  | nil => cases excess <;> cases dropped
  | cons first versions ih =>
    cases excess with
    | zero => cases dropped
    | succ excess =>
      unfold dropExcess at dropped stays
      split_ifs at dropped stays with pending
      · rcases mem_cons.mp stays with rfl | later
        · rw [committed] at pending
          cases pending
        · exact ih ascending.tail dropped later
      · rcases mem_cons.mp dropped with rfl | later
        · exact ((pairwise_cons.mp ascending).1 other ((dropExcess_sublist excess versions).subset stays)).2
        · exact ih ascending.tail later stays

theorem committed_dropExcess (excess : Nat) (versions : List (PageVersion Hash)) :
    (dropExcess excess versions).1.filter (fun version => !version.pending) =
      (versions.filter fun version => !version.pending).drop excess := by
  induction versions generalizing excess with
  | nil => cases excess <;> simp [dropExcess]
  | cons version versions ih =>
    cases excess with
    | zero => rfl
    | succ excess =>
      unfold dropExcess
      split_ifs with pending
      · rw [filter_cons_of_neg (by simp [pending]), filter_cons_of_neg (by simp [pending])]
        exact ih (excess + 1)
      · rw [filter_cons_of_pos (by simp [pending]), drop_succ_cons]
        exact ih excess

theorem committedCount_dropExcess (excess : Nat) (versions : List (PageVersion Hash)) :
    committedCount (dropExcess excess versions).1 = committedCount versions - excess := by
  unfold committedCount
  rw [committed_dropExcess, length_drop]

theorem pruneExcessVersions_perm (versions : List (PageVersion Hash)) (maximum : Nat) :
    ((pruneExcessVersions versions maximum).1 ++ (pruneExcessVersions versions maximum).2).Perm versions := by
  unfold pruneExcessVersions
  split_ifs
  · exact Perm.of_eq (append_nil _)
  · exact dropExcess_perm _ _

theorem pruneExcessVersions_sublist (versions : List (PageVersion Hash)) (maximum : Nat) :
    (pruneExcessVersions versions maximum).1.Sublist versions := by
  unfold pruneExcessVersions
  split_ifs
  · exact Sublist.refl _
  · exact dropExcess_sublist _ _

theorem mem_clearPending (listed : version ∈ clearPending versionId versions) :
    version ∈ versions ∨
      ∃ cleared ∈ versions, cleared.versionId = versionId ∧ cleared.pending = true ∧
        version = { cleared with pending := false } := by
  induction versions with
  | nil => cases listed
  | cons first versions ih =>
    unfold clearPending at listed
    split_ifs at listed with found
    · rcases mem_cons.mp listed with rfl | later
      · exact .inr ⟨first, mem_cons_self, found.1, found.2, rfl⟩
      · exact .inl (mem_cons_of_mem _ later)
    · rcases mem_cons.mp listed with rfl | later
      · exact .inl mem_cons_self
      · rcases ih later with before | ⟨cleared, member, facts⟩
        · exact .inl (mem_cons_of_mem _ before)
        · exact .inr ⟨cleared, mem_cons_of_mem _ member, facts⟩

theorem clearPending_map (versionId : Nat) (versions : List (PageVersion Hash)) :
    (clearPending versionId versions).map (fun version => (version.versionId, version.created)) =
      versions.map fun version => (version.versionId, version.created) := by
  induction versions with
  | nil => rfl
  | cons first versions ih =>
    unfold clearPending
    split_ifs
    · rfl
    · rw [map_cons, map_cons, ih]

theorem Ascending.clearPending (ascending : Ascending versions) (versionId : Nat) :
    Ascending (clearPending versionId versions) := by
  have pairs : ((History.clearPending versionId versions).map fun version =>
      (version.versionId, version.created)).Pairwise fun first second => first.1 < second.1 ∧ first.2 < second.2 := by
    rw [clearPending_map]
    exact pairwise_map.mpr ascending
  exact pairwise_map.mp pairs

end Remnic.PageVersioning.History
