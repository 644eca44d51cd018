import Remnic.Capsule.Keeping

/-!
The snapshots of a merge. A directory lists the last versions of those it started with and
those the merge has taken, as many as the cap allows, and the ones taken keep their texts.
-/

namespace Remnic.Capsule.Snapshots

open Text.CodeUnits Text.Utf8 Text.Utf8Encode Library PageVersioning.History Merge Keeping List Function

variable {Hash : Type} {sha256 : List Byte → Hash} {archive : Archive} {options : Options} {journal : Journal}
variable {histories next : Histories Hash} {page dir : JsString} {content : JsString} {texts : List JsString} {cap : Nat}
variable {started taken : List (PageVersion Hash)} {records : List MemoryRecord} {files : OrderedMap JsString (List Byte)}

section kept

variable {Item Other : Type} {items later : List Item} {item : Item}

theorem kept_of_le (fits : cap = 0 ∨ items.length ≤ cap) : kept cap items = items := by
  unfold kept
  split_ifs with unbounded
  · rfl
  · rw [Nat.sub_eq_zero_of_le (fits.resolve_left unbounded), drop_zero]

theorem mem_of_mem_kept (member : item ∈ kept cap items) : item ∈ items := by
  unfold kept at member
  split_ifs at member
  · exact member
  · exact mem_of_mem_drop member

theorem map_kept (f : Item → Other) : (kept cap items).map f = kept cap (items.map f) := by
  unfold kept
  split_ifs
  · rfl
  · rw [map_drop, length_map]

theorem kept_push (items : List Item) (item : Item) : kept cap (kept cap items ++ [item]) = kept cap (items ++ [item]) := by
  unfold kept
  split_ifs with unbounded
  · rfl
  · rw [← drop_append_of_le_length (Nat.sub_le _ _), drop_drop]
    congr 1
    simp only [length_drop, length_append, length_cons, length_nil]
    omega

theorem kept_append_of_le (capped : cap ≠ 0) (filled : cap ≤ later.length) : kept cap (items ++ later) = kept cap later := by
  unfold kept
  rw [if_neg capped, if_neg capped, drop_append, length_append, drop_of_length_le (by omega), nil_append]
  congr 1
  omega

theorem mem_kept_append (member : item ∈ kept cap later) : item ∈ kept cap (items ++ later) := by
  by_cases filled : cap = 0 ∨ later.length ≤ cap
  · rw [kept_of_le filled] at member
    unfold kept
    split_ifs with unbounded
    · exact mem_append_right _ member
    · rw [drop_append_of_le_length]
      · exact mem_append_right _ member
      · rw [length_append]
        have := filled.resolve_left unbounded
        omega
  · rw [not_or] at filled
    rwa [kept_append_of_le filled.1 (by omega)]

end kept

theorem committed_pruneExcessVersions (versions : List (PageVersion Hash)) :
    (pruneExcessVersions versions cap).1.filter (fun version => !version.pending) =
      kept cap (versions.filter fun version => !version.pending) := by
  unfold pruneExcessVersions kept
  split_ifs
  · rfl
  · exact committed_dropExcess _ _

/-- What is known of a directory that held some committed versions, when versions of some texts have been taken. -/
structure Tracked (sha256 : List Byte → Hash) (cap : Nat) (started : List (PageVersion Hash)) (texts : List JsString)
    (histories : Histories Hash) (dir : JsString) (taken : List (PageVersion Hash)) : Prop where
  hashes : taken.map PageVersion.contentHash = texts.map fun content => sha256 (encode content)
  committed : (histories.versions dir).filter (fun version => !version.pending) = if taken = [] then started else kept cap (started ++ taken)
  apart : (histories.versions dir).Pairwise fun first second =>
    first ∈ taken ∨ second ∈ taken → first.versionId ≠ second.versionId
  stored : ∀ version ∈ taken, version ∈ histories.versions dir → ∃ ext, ∃ content ∈ texts,
    histories.snapshots dir (version.versionId, ext) = some content ∧ sha256 (encode content) = version.contentHash

theorem foldl_update_none (files : Nat × JsString → Option JsString) (ext : JsString) (ids : List Nat) (name : Nat × JsString)
    (stays : name.1 ∉ ids) : ids.foldl (fun files versionId => Function.update files (versionId, ext) none) files name = files name := by
  induction ids generalizing files with
  | nil => rfl
  | cons versionId ids ih =>
    rw [mem_cons, not_or] at stays
    rw [foldl_cons, ih _ stays.2, update_of_ne]
    exact fun same => stays.1 (congrArg Prod.fst same)

theorem versions_of_manifest {history : VersionHistory Hash} (manifest : histories.manifests dir = some history) :
    histories.versions dir = history.versions := by
  unfold Histories.versions
  rw [manifest]
  rfl

theorem createVersion_of_ne (created : createVersion sha256 histories page content cap = some next) (apart : dir ≠ sidecarDir page) :
    next.manifests dir = histories.manifests dir ∧ next.snapshots dir = histories.snapshots dir := by
  unfold createVersion at created
  dsimp only at created
  split_ifs at created
  cases created
  exact ⟨update_of_ne apart _ _, update_of_ne apart _ _⟩

theorem Tracked.congr (tracked : Tracked sha256 cap started texts histories dir taken) (manifests : next.manifests dir = histories.manifests dir)
    (snapshots : next.snapshots dir = histories.snapshots dir) : Tracked sha256 cap started texts next dir taken := by
  have versions : next.versions dir = histories.versions dir := by
    unfold Histories.versions
    rw [manifests]
  refine ⟨tracked.hashes, ?_, ?_, ?_⟩
  · rw [versions]
    exact tracked.committed
  · rw [versions]
    exact tracked.apart
  · rw [versions, snapshots]
    exact tracked.stored

theorem Tracked.create (tracked : Tracked sha256 cap started texts histories (sidecarDir page) taken)
    (created : createVersion sha256 histories page content cap = some next) :
    ∃ version, Tracked sha256 cap started (texts ++ [content]) next (sidecarDir page) (taken ++ [version]) := by
  unfold createVersion at created
  dsimp only at created
  split_ifs at created
  cases created
  let versions := histories.versions (sidecarDir page)
  let version : PageVersion Hash := ⟨nextId versions, sha256 (encode content), false, 0⟩
  have fresh : ∀ earlier ∈ versions, earlier.versionId ≠ version.versionId := fun earlier listed => Nat.ne_of_lt (lt_nextId listed)
  have apart : (versions ++ [version]).Pairwise fun first second =>
      first ∈ taken ++ [version] ∨ second ∈ taken ++ [version] → first.versionId ≠ second.versionId := by
    refine pairwise_append.mpr ⟨?_, pairwise_singleton _ _, ?_⟩
    · refine tracked.apart.imp_of_mem fun {first second} firstListed secondListed apart own => apart ?_
      refine own.imp (fun member => ?_) fun member => ?_
      · exact (mem_append.mp member).resolve_right fun last => fresh first firstListed (congrArg _ (mem_singleton.mp last))
      · exact (mem_append.mp member).resolve_right fun last => fresh second secondListed (congrArg _ (mem_singleton.mp last))
    · intro first listed second last _
      rw [mem_singleton.mp last]
      exact fresh first listed
  have sublist := pruneExcessVersions_sublist (versions ++ [version]) cap
  refine ⟨version, ⟨?_, ?_, ?_, ?_⟩⟩
  · rw [map_append, map_append, tracked.hashes]
    rfl
  · rw [versions_of_manifest (update_self _ _ _)]
    refine (committed_pruneExcessVersions (versions ++ [version])).trans ?_
    rw [filter_append, tracked.committed, if_neg (append_ne_nil_of_right_ne_nil _ (cons_ne_nil _ _))]
    split_ifs with none
    · rw [none]
      rfl
    · exact (kept_push _ _).trans (congrArg _ (append_assoc _ _ _))
  · rw [versions_of_manifest (update_self _ _ _)]
    exact apart.sublist sublist
  · rw [versions_of_manifest (update_self _ _ _)]
    dsimp only
    rw [update_self]
    intro held member listed
    have parts := ((pruneExcessVersions_perm (versions ++ [version]) cap).pairwise_iff (by
      intro first second apart own
      exact (apart own.symm).symm)).mpr apart
    have stays : held.versionId ∉ (pruneExcessVersions (versions ++ [version]) cap).2.map PageVersion.versionId := by
      intro dropped
      obtain ⟨other, dropped, same⟩ := mem_map.mp dropped
      exact (pairwise_append.mp parts).2.2 held listed other dropped (.inl member) same.symm
    rcases mem_append.mp (sublist.subset listed) with earlier | last
    · have taken := (mem_append.mp member).resolve_right fun last => fresh held earlier (congrArg _ (mem_singleton.mp last))
      obtain ⟨ext, content, known, stored, hash⟩ := tracked.stored held taken earlier
      refine ⟨ext, content, mem_append_left _ known, ?_, hash⟩
      refine (foldl_update_none _ _ _ _ stays).trans ?_
      rw [update_of_ne]
      · exact stored
      · exact fun same => fresh held earlier (congrArg Prod.fst same)
    · rw [mem_singleton.mp last] at stays ⊢
      refine ⟨snapshotExt page, content, mem_append_right _ mem_cons_self, ?_, rfl⟩
      exact (foldl_update_none _ _ _ _ stays).trans (update_self _ _ _)

theorem Tracked.merge [DecidableEq Hash] (tracked : Tracked sha256 cap started texts histories dir taken) (mode : options.conflictMode = .preferSource)
    (capped : options.cap = some cap)
    (run : records.foldlM (fun histories record =>
      historiesAfter sha256 archive options journal histories record (files.lookup (targetPath record.path))) histories = some next) :
    ∃ taken, Tracked sha256 cap started (texts ++ conflictingTexts sha256 archive journal files records dir) next dir taken := by
  induction records generalizing histories texts taken with
  | nil =>
    cases run
    refine ⟨taken, ?_⟩
    rw [conflictingTexts, filterMap_nil, append_nil]
    exact tracked
  | cons record records ih =>
    rw [foldlM_cons] at run
    obtain ⟨later, stepped, run⟩ := Option.bind_eq_some_iff.mp run
    have passed (versions : later.manifests dir = histories.manifests dir ∧ later.snapshots dir = histories.snapshots dir)
        (apart : conflictingText sha256 archive journal files dir record = none) :
        ∃ taken, Tracked sha256 cap started (texts ++ conflictingTexts sha256 archive journal files (record :: records) dir) next dir taken := by
      rw [conflictingTexts, filterMap_cons_none apart]
      exact ih (tracked.congr versions.1 versions.2) run
    unfold historiesAfter at stepped
    cases held : files.lookup (targetPath record.path) with
    | none =>
      rw [held] at stepped
      cases stepped
      exact passed ⟨rfl, rfl⟩ (by simp [conflictingText, held])
    | some bytes =>
      rw [held, capped] at stepped
      dsimp only at stepped
      by_cases conflicting : standing sha256 archive journal record bytes = .conflicting
      · rw [if_pos ⟨conflicting, mode⟩] at stepped
        by_cases own : sidecarDir (targetPath record.path) = dir
        · subst own
          obtain ⟨version, tracked⟩ := tracked.create stepped
          obtain ⟨taken, tracked⟩ := ih tracked run
          refine ⟨taken, ?_⟩
          rw [conflictingTexts, filterMap_cons_some (b := decode bytes) (by simp [conflictingText, held, conflicting]), append_cons]
          exact tracked
        · exact passed (createVersion_of_ne stepped fun same => own same.symm) (by simp [conflictingText, held, own])
      · rw [if_neg fun both => conflicting both.1] at stepped
        cases stepped
        exact passed ⟨rfl, rfl⟩ (by simp [conflictingText, held, conflicting])

theorem tracked_start (sha256 : List Byte → Hash) (cap : Nat) (histories : Histories Hash) (dir : JsString) :
    Tracked sha256 cap ((histories.versions dir).filter fun version => !version.pending) [] histories dir [] where
  hashes := rfl
  committed := (if_pos rfl).symm
  apart := pairwise_of_forall fun _ _ own => absurd own (by simp)
  stored _ member := absurd member not_mem_nil

theorem isVersion_iff {bytes : List Byte} (tracked : Tracked sha256 cap started texts next (sidecarDir page) taken) (own : decode bytes ∈ texts)
    (free : ∀ content ∈ texts, sha256 (encode content) = sha256 bytes → encode content = bytes) :
    IsVersion sha256 next page bytes ↔ ∃ content ∈ kept cap texts, encode content = bytes := by
  have hashes : (kept cap taken).map PageVersion.contentHash = (kept cap texts).map fun content => sha256 (encode content) := by
    rw [map_kept, map_kept, tracked.hashes]
  have lengths : taken.length = texts.length := by simpa using congrArg List.length tracked.hashes
  have committed : ∀ version, version ∈ next.versions (sidecarDir page) ∧ version.pending = false ↔ version ∈ kept cap (started ++ taken) := by
    intro version
    have some : taken ≠ [] := ne_nil_of_length_pos (lengths ▸ length_pos_of_mem own)
    have listed := tracked.committed
    rw [if_neg some] at listed
    rw [← listed, mem_filter, Bool.not_eq_true']
  constructor
  · rintro ⟨version, listed, done, hash, ext, content, stored, rfl⟩
    by_cases filled : cap = 0 ∨ texts.length ≤ cap
    · rw [kept_of_le filled]
      exact ⟨_, own, encode_decode_encode content⟩
    · rw [not_or] at filled
      have member := (committed version).mp ⟨listed, done⟩
      rw [kept_append_of_le filled.1 (by omega)] at member
      have known := hashes ▸ mem_map_of_mem (f := PageVersion.contentHash) member
      obtain ⟨text, member, same⟩ := mem_map.mp known
      exact ⟨text, member, free text (mem_of_mem_kept member) (same.trans hash)⟩
  · rintro ⟨content, member, rfl⟩
    have known : sha256 (encode content) ∈ (kept cap taken).map PageVersion.contentHash :=
      hashes ▸ mem_map_of_mem (f := fun content => sha256 (encode content)) member
    obtain ⟨version, taken, hash⟩ := mem_map.mp known
    obtain ⟨listed, done⟩ := (committed version).mpr (mem_kept_append taken)
    obtain ⟨ext, snapshot, known, stored, same⟩ := tracked.stored version (mem_of_mem_kept taken) listed
    exact ⟨version, listed, done, hash, ext, snapshot, stored, free snapshot known (same.trans hash)⟩

end Remnic.Capsule.Snapshots
