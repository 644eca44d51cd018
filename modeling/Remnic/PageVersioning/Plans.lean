import Remnic.PageVersioning.Invariant

/-! The plan of each operation may be published. -/

namespace Remnic.PageVersioning.Plans

open Text.CodeUnits History Steps Invariant List

variable {Hash Call : Type} {contentHash : JsString → Hash} {world next : World Hash Call} {page content : JsString}
variable {history : VersionHistory Hash}

theorem listed_congr {dir : JsString} (same : next.manifests dir = world.manifests dir) : next.listed dir = world.listed dir := by
  unfold World.listed
  rw [same]

/-- A world where the new snapshot has been written, and no other file of the page has changed. -/
structure Written (world next : World Hash Call) (page : JsString) (versionId : Nat) (content : JsString) : Prop where
  manifest : next.manifests (sidecarDir page) = world.manifests (sidecarDir page)
  file : next.snapshots (sidecarDir page) (versionId, snapshotExt page) = some content
  others : ∀ name ≠ (versionId, snapshotExt page), next.snapshots (sidecarDir page) name = world.snapshots (sidecarDir page) name
  markers : next.markers (sidecarDir page) = world.markers (sidecarDir page)
  committed : next.committed = world.committed
  taken : next.taken = world.taken + 1
  recorded : next.recorded = world.recorded ++ [(page, versionId, content)]

variable {versionId maxVersionsPerPage : Nat}

theorem Written.backed {versions : List (PageVersion Hash)} (written : Written world next page versionId content)
    (backed : Backed contentHash world page versions) (fresh : ∀ version ∈ versions, version.versionId ≠ versionId) :
    Backed contentHash next page versions := by
  apply backed.mono (fun version member => ⟨version, member, rfl, rfl⟩)
  · intro version member
    apply written.others
    intro same
    exact fresh version member (congrArg Prod.fst same)
  · rw [written.recorded]
    exact subset_append_left _ _

theorem Written.good (written : Written world next page versionId content) (good : Good contentHash world page)
    (fresh : ∀ version ∈ world.listed (sidecarDir page), version.versionId ≠ versionId) : Good contentHash next page := by
  have listed := listed_congr written.manifest
  refine ⟨listed ▸ good.ascending, fun version member => ?_, listed ▸ written.backed good.backed fresh, ?_, ?_⟩
  · rw [listed] at member
    rw [written.taken]
    exact Nat.lt_succ_of_lt (good.early version member)
  · rw [listed, written.committed]
    exact good.flagged
  · rw [listed, written.committed, written.markers]
    exact good.marked

theorem ready_createPlan {deferPrune : Bool} (written : Written world next page (nextId history.versions) content)
    (good : Good contentHash world page) (current : history.versions = world.listed (sidecarDir page)) :
    Ready contentHash (.createVersion content deferPrune maxVersionsPerPage) next page
      (createPlan contentHash history content deferPrune maxVersionsPerPage world.taken) := by
  let version : PageVersion Hash := ⟨nextId history.versions, contentHash content, deferPrune, world.taken⟩
  have fresh : ∀ other ∈ history.versions, other.versionId ≠ nextId history.versions :=
    fun other listed => Nat.ne_of_lt (lt_nextId listed)
  have ascending : Ascending (history.versions ++ [version]) := by
    refine Ascending.push (current ▸ good.ascending) rfl ?_
    intro earlier listed
    exact good.early earlier (current ▸ listed)
  have early : ∀ other ∈ history.versions ++ [version], other.created < next.taken := by
    intro other member
    rw [written.taken]
    rcases mem_append.mp member with listed | last
    · exact Nat.lt_succ_of_lt (good.early other (current ▸ listed))
    · rw [mem_singleton.mp last]
      exact Nat.lt_succ_self _
  have backed : Backed contentHash next page (history.versions ++ [version]) := by
    intro other member
    rcases mem_append.mp member with listed | last
    · exact written.backed (current ▸ good.backed) fresh other listed
    · rw [mem_singleton.mp last]
      refine ⟨content, written.file, rfl, ?_⟩
      rw [written.recorded]
      exact mem_append_right _ (mem_singleton_self _)
  have flagged : ∀ other ∈ history.versions ++ [version], other.pending = false →
      other.created ∈ next.committed ++ if deferPrune = true then [] else [world.taken] := by
    intro other member settled
    rcases mem_append.mp member with listed | last
    · rw [written.committed]
      exact mem_append_left _ (good.flagged other (current ▸ listed) settled)
    · rw [mem_singleton.mp last] at settled ⊢
      rw [if_neg (Bool.eq_false_iff.mp settled)]
      exact mem_append_right _ (mem_singleton_self _)
  have origin : ∀ other ∈ history.versions ++ [version],
      (∃ listed ∈ next.listed (sidecarDir page), listed.versionId = other.versionId ∧ listed.created = other.created) ∨
        (other.created ∈ if deferPrune = true then [] else [world.taken]) ∨
        deferPrune = true ∧ other.versionId = nextId history.versions := by
    intro other member
    rcases mem_append.mp member with listed | last
    · rw [listed_congr written.manifest, ← current]
      exact .inl ⟨other, listed, rfl, rfl⟩
    · rw [mem_singleton.mp last]
      cases deferPrune with
      | true => exact .inr (.inr ⟨rfl, rfl⟩)
      | false => exact .inr (.inl (mem_singleton_self _))
  cases deferPrune with
  | true => exact ⟨ascending, early, backed, flagged, origin, nofun, nofun⟩
  | false =>
    have sublist := pruneExcessVersions_sublist (history.versions ++ [version]) maxVersionsPerPage
    refine ⟨ascending.sublist sublist, fun other kept => early other (sublist.subset kept), backed.subset sublist.subset,
      fun other kept => flagged other (sublist.subset kept), fun other kept => origin other (sublist.subset kept),
      fun versionId => not_kept_of_dropped ascending _ versionId, ?_⟩
    intro pruning itself
    cases itself
    exact lawful_pruneExcessVersions ascending _ flagged

theorem ready_prunePlan {committedVersionId : Option Nat} {stranded : List Nat} (good : Good contentHash world page)
    (current : history.versions = world.listed (sidecarDir page)) (marked : stranded ⊆ world.markers (sidecarDir page)) :
    Ready contentHash (.pruneVersions committedVersionId maxVersionsPerPage) world page
      (prunePlan history committedVersionId maxVersionsPerPage stranded) := by
  have cleared := cleared_clearFlags history.versions committedVersionId stranded
  have ascending : Ascending (clearFlags history.versions committedVersionId stranded) :=
    Ascending.clearFlags (current ▸ good.ascending) committedVersionId stranded
  have sublist := pruneExcessVersions_sublist (clearFlags history.versions committedVersionId stranded) maxVersionsPerPage
  have flagged : ∀ version ∈ clearFlags history.versions committedVersionId stranded, version.pending = false →
      version.created ∈ world.committed ++
        (history.versions.filter fun version => version.pending && committedVersionId = some version.versionId).map
          PageVersion.created := by
    intro version member settled
    obtain ⟨before, found, ids, _, created, flags⟩ := cleared version member
    rw [← created]
    rcases flags with same | ⟨pending, named | inMarker⟩
    · exact mem_append_left _ (good.flagged before (current ▸ found) (same.trans settled))
    · apply mem_append_right
      apply mem_map_of_mem
      simp [found, pending, ids, named]
    · rw [← ids] at inMarker
      exact mem_append_left _ (good.marked before (current ▸ found) (marked inMarker))
  have backed : Backed contentHash world page (clearFlags history.versions committedVersionId stranded) := by
    apply good.backed.mono (fun version member => ?_) (fun _ _ => rfl) (Subset.refl _)
    obtain ⟨before, found, ids, hashes, _⟩ := cleared version member
    exact ⟨before, current ▸ found, ids, hashes⟩
  refine ⟨ascending.sublist sublist, fun version kept => ?_, backed.subset sublist.subset,
    fun version kept => flagged version (sublist.subset kept), fun version kept => ?_,
    fun versionId => not_kept_of_dropped ascending _ versionId, ?_⟩
  · obtain ⟨before, found, _, _, created, _⟩ := cleared version (sublist.subset kept)
    rw [← created]
    exact good.early before (current ▸ found)
  · obtain ⟨before, found, ids, _, created, _⟩ := cleared version (sublist.subset kept)
    exact .inl ⟨before, current ▸ found, ids, created⟩
  · intro pruning itself
    cases itself
    exact lawful_pruneExcessVersions ascending _ flagged

theorem ready_removePlan (good : Good contentHash world page) (current : history.versions = world.listed (sidecarDir page)) :
    Ready contentHash (.removeVersion versionId) world page (removePlan history versionId) := by
  have sublist : (removeId versionId history.versions).Sublist history.versions := eraseP_sublist
  have ascending : Ascending history.versions := current ▸ good.ascending
  refine ⟨ascending.sublist sublist, fun version kept => ?_, ?_, fun version kept settled => ?_, fun version kept => ?_, ?_,
    nofun⟩
  · exact good.early version (current ▸ sublist.subset kept)
  · exact good.backed.subset (current ▸ sublist.subset)
  · exact mem_append_left _ (good.flagged version (current ▸ sublist.subset kept) settled)
  · exact .inl ⟨version, current ▸ sublist.subset kept, rfl, rfl⟩
  · intro other itself kept
    obtain ⟨version, stays, same⟩ := mem_map.mp kept
    rw [mem_singleton.mp itself] at same
    exact ne_of_mem_removeId ascending stays same

end Remnic.PageVersioning.Plans
