import Remnic.Library.Transition
import Remnic.PageVersioning.Steps

/-!
What a manifest says of the files beside it, and what a call that holds its lock knows.
-/

namespace Remnic.PageVersioning.Invariant

open Text.CodeUnits History Steps

variable {Hash Call : Type}

/-- Each version has a snapshot whose content has its hash, and was recorded for the page. -/
def Backed (contentHash : JsString → Hash) (world : World Hash Call) (page : JsString)
    (versions : List (PageVersion Hash)) : Prop :=
  ∀ version ∈ versions, ∃ content,
    world.snapshots (sidecarDir page) (version.versionId, snapshotExt page) = some content ∧
      contentHash content = version.contentHash ∧ (page, version.versionId, content) ∈ world.recorded

/-- A pruning drops committed versions only, those taken first, and keeps the maximum of them. -/
structure Lawful (committed : List Nat) (pruning : Pruning Hash) : Prop where
  perm : (pruning.kept ++ pruning.dropped).Perm pruning.before
  written : ∀ version ∈ pruning.dropped, version.pending = false ∧ version.created ∈ committed
  oldest : ∀ version ∈ pruning.dropped, ∀ other ∈ pruning.kept, other.pending = false → version.created < other.created
  enough : pruning.dropped ≠ [] → pruning.maxVersionsPerPage ≤ committedCount pruning.kept

/-- The history of a page while nobody changes it. -/
structure Good (contentHash : JsString → Hash) (world : World Hash Call) (page : JsString) : Prop where
  ascending : Ascending (world.listed (sidecarDir page))
  early : ∀ version ∈ world.listed (sidecarDir page), version.created < world.taken
  backed : Backed contentHash world page (world.listed (sidecarDir page))
  flagged : ∀ version ∈ world.listed (sidecarDir page), version.pending = false → version.created ∈ world.committed
  marked : ∀ version ∈ world.listed (sidecarDir page), version.versionId ∈ world.markers (sidecarDir page) →
    version.created ∈ world.committed

def Operation.defers : Operation → Bool
  | .createVersion _ deferPrune _ => deferPrune
  | _ => false

/-- A plan that may be published. Each version it lists is listed already, is committed by the plan, or is the new one of a
deferred `createVersion`. -/
structure Ready (contentHash : JsString → Hash) (operation : Operation) (world : World Hash Call) (page : JsString)
    (plan : Plan Hash) : Prop where
  ascending : Ascending plan.history.versions
  early : ∀ version ∈ plan.history.versions, version.created < world.taken
  backed : Backed contentHash world page plan.history.versions
  flagged : ∀ version ∈ plan.history.versions, version.pending = false → version.created ∈ world.committed ++ plan.commits
  origin : ∀ version ∈ plan.history.versions,
    (∃ listed ∈ world.listed (sidecarDir page), listed.versionId = version.versionId ∧ listed.created = version.created) ∨
      version.created ∈ plan.commits ∨
      Operation.defers operation = true ∧ version.versionId = plan.history.currentVersion
  removed : ∀ versionId ∈ plan.removed, versionId ∉ plan.history.versions.map PageVersion.versionId
  lawful : ∀ pruning ∈ plan.pruning, Lawful (world.committed ++ plan.commits) pruning

def Stage.holds : Stage Hash → Bool
  | .idle | .locking | .stranding | .finished | .crashed => false
  | _ => true

def Facts (contentHash : JsString → Hash) (operation : Operation) (world : World Hash Call) (page : JsString) :
    Stage Hash → Prop
  | .snapshotting history | .marking history => history.versions = world.listed (sidecarDir page)
  | .publishing plan => Ready contentHash operation world page plan
  | .unlinking ids => ∀ versionId ∈ ids, versionId ∉ (world.listed (sidecarDir page)).map PageVersion.versionId
  | _ => True

variable {contentHash : JsString → Hash} {world next : World Hash Call} {page content : JsString}
variable {versions : List (PageVersion Hash)} {committed more : List Nat} {operation : Operation}

theorem Lawful.mono {pruning : Pruning Hash} (lawful : Lawful committed pruning) (grows : committed ⊆ more) :
    Lawful more pruning :=
  ⟨lawful.perm, fun version dropped => ⟨(lawful.written version dropped).1, grows (lawful.written version dropped).2⟩,
    lawful.oldest, lawful.enough⟩

theorem lawful_pruneExcessVersions (ascending : Ascending versions) (maximum : Nat)
    (flagged : ∀ version ∈ versions, version.pending = false → version.created ∈ committed) :
    Lawful committed ⟨versions, (pruneExcessVersions versions maximum).1, (pruneExcessVersions versions maximum).2, maximum⟩ := by
  have perm := pruneExcessVersions_perm versions maximum
  unfold pruneExcessVersions at perm ⊢
  split_ifs at perm ⊢ with unbounded
  · exact ⟨perm, nofun, nofun, nofun⟩
  · apply Lawful.mk perm
    · intro version dropped
      have settled := not_pending_of_dropped dropped
      exact ⟨settled, flagged version (perm.subset (List.mem_append_right _ dropped)) settled⟩
    · exact fun version dropped other stays => older_of_dropped ascending dropped stays
    · intro nonempty
      have excess : committedCount versions - maximum ≠ 0 := by
        intro zero
        apply nonempty
        show (dropExcess _ versions).2 = []
        rw [zero, dropExcess_zero]
      show maximum ≤ committedCount (dropExcess _ versions).1
      rw [committedCount_dropExcess]
      omega

theorem not_kept_of_dropped (ascending : Ascending versions) (maximum versionId : Nat)
    (dropped : versionId ∈ (pruneExcessVersions versions maximum).2.map PageVersion.versionId) :
    versionId ∉ (pruneExcessVersions versions maximum).1.map PageVersion.versionId := by
  have ids := ((pruneExcessVersions_perm versions maximum).map PageVersion.versionId).nodup_iff.mpr ascending.nodup
  rw [List.map_append] at ids
  exact fun kept => (List.nodup_append.mp ids).2.2 _ kept _ dropped rfl

variable {allowed : Nat → Prop} {fewer : List (PageVersion Hash)} (stranded : List Nat)

theorem Backed.mono (backed : Backed contentHash world page versions) (fewer_subset : ∀ version ∈ fewer, ∃ other ∈ versions,
      other.versionId = version.versionId ∧ other.contentHash = version.contentHash)
    (stays : ∀ version ∈ fewer, next.snapshots (sidecarDir page) (version.versionId, snapshotExt page) =
      world.snapshots (sidecarDir page) (version.versionId, snapshotExt page)) (recorded : world.recorded ⊆ next.recorded) :
    Backed contentHash next page fewer := by
  intro version member
  obtain ⟨other, listed, ids, hashes⟩ := fewer_subset version member
  obtain ⟨content, file, hashed, records⟩ := backed other listed
  rw [ids] at file records
  exact ⟨content, (stays version member).trans file, hashed.trans hashes, recorded records⟩

theorem Backed.subset (backed : Backed contentHash world page versions) (subset : fewer ⊆ versions) :
    Backed contentHash world page fewer :=
  fun version member => backed version (subset member)

/-- The versions of a list are those of another, with flags cleared for some ids only. -/
def Cleared (allowed : Nat → Prop) (versions cleared : List (PageVersion Hash)) : Prop :=
  ∀ version ∈ cleared, ∃ before ∈ versions, before.versionId = version.versionId ∧
    before.contentHash = version.contentHash ∧ before.created = version.created ∧
      (before.pending = version.pending ∨ before.pending = true ∧ allowed version.versionId)

theorem Cleared.refl (allowed : Nat → Prop) (versions : List (PageVersion Hash)) : Cleared allowed versions versions :=
  fun version member => ⟨version, member, rfl, rfl, rfl, .inl rfl⟩

theorem Cleared.trans {cleared last : List (PageVersion Hash)} (first : Cleared allowed versions cleared)
    (second : Cleared allowed cleared last) : Cleared allowed versions last := by
  intro version member
  obtain ⟨middle, found, ids, hashes, created, flags⟩ := second version member
  obtain ⟨before, member', ids', hashes', created', flags'⟩ := first middle found
  refine ⟨before, member', ids'.trans ids, hashes'.trans hashes, created'.trans created, ?_⟩
  rw [ids] at flags'
  rcases flags' with same' | ⟨pending, may⟩
  · exact flags.imp same'.trans fun cleared => ⟨same'.trans cleared.1, cleared.2⟩
  · exact .inr ⟨pending, may⟩

theorem cleared_clearPending {versionId : Nat} (may : allowed versionId) (versions : List (PageVersion Hash)) :
    Cleared allowed versions (clearPending versionId versions) := by
  intro version member
  rcases mem_clearPending member with same | ⟨cleared, found, rfl, pending, rfl⟩
  · exact ⟨version, same, rfl, rfl, rfl, .inl rfl⟩
  · exact ⟨cleared, found, rfl, rfl, rfl, .inr ⟨pending, may⟩⟩

theorem cleared_foldl (may : ∀ versionId ∈ stranded, allowed versionId) (versions : List (PageVersion Hash)) :
    Cleared allowed versions (stranded.foldl (fun versions versionId => clearPending versionId versions) versions) := by
  induction stranded generalizing versions with
  | nil => exact Cleared.refl allowed versions
  | cons versionId stranded ih =>
    have first := cleared_clearPending (may versionId List.mem_cons_self) versions
    exact first.trans (ih (fun other member => may other (List.mem_cons_of_mem _ member)) _)

theorem cleared_clearFlags (versions : List (PageVersion Hash)) (committedVersionId : Option Nat) (stranded : List Nat) :
    Cleared (fun versionId => committedVersionId = some versionId ∨ versionId ∈ stranded) versions
      (clearFlags versions committedVersionId stranded) := by
  unfold clearFlags
  apply Cleared.trans _ (cleared_foldl stranded (fun versionId member => .inr member) _)
  cases committedVersionId with
  | none => exact Cleared.refl _ versions
  | some versionId => exact cleared_clearPending (.inl rfl) versions

theorem ascending_foldl (ascending : Ascending versions) :
    Ascending (stranded.foldl (fun versions versionId => clearPending versionId versions) versions) := by
  induction stranded generalizing versions with
  | nil => exact ascending
  | cons versionId stranded ih => exact ih (ascending.clearPending versionId)

theorem Ascending.clearFlags (ascending : Ascending versions) (committedVersionId : Option Nat) (stranded : List Nat) :
    Ascending (clearFlags versions committedVersionId stranded) := by
  cases committedVersionId with
  | none => exact ascending_foldl stranded ascending
  | some versionId => exact ascending_foldl stranded (ascending.clearPending versionId)

end Remnic.PageVersioning.Invariant
