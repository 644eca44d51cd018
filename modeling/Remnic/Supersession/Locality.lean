import Remnic.Supersession.Apply

/-!
Whole memories are marked for one conflicting attribute. Each pair of an entity and an
attribute keeps an active holder exactly if the marked memories set none of their own.
-/

namespace Remnic.Supersession.Locality

open Library Text.CodeUnits Memory.SupersessionKey Decision Store Calls Apply List
open Tombstone.Entry (truthy)

variable (host : Host)

/-- The pairs of an entity and an attribute that a memory sets, in normal form. -/
def pairsOf (frontmatter : MemoryFrontmatter) : List (JsString × JsString) :=
  match truthy frontmatter.entityRef, frontmatter.structuredAttributes with
  | some entityRef, some attributes =>
    attributes.keys.map fun name => (normalizeSupersessionKey host.tables entityRef, normalizeSupersessionKey host.tables name)
  | _, _ => []

/-- Each pair that some memory sets has an active holder. -/
def AllHeld (store : MemoryStore) : Prop :=
  ∀ file ∈ store.files, ∀ pair ∈ pairsOf host file.frontmatter,
    ∃ holder ∈ store.files, holder.frontmatter.isActive ∧ pair ∈ pairsOf host holder.frontmatter

/-- The first memory of each id that has not been processed. -/
def firsts : List JsString → List MemoryFile → List MemoryFile
  | _, [] => []
  | processedIds, file :: files =>
    if file.frontmatter.id ∈ processedIds then firsts processedIds files
    else file :: firsts (file.frontmatter.id :: processedIds) files

def isCandidate (newMemoryId : JsString) (file : MemoryFile) : Bool :=
  file.frontmatter.id ≠ newMemoryId && file.frontmatter.isActive

def conflicts (scan : Scan) (file : MemoryFile) : Bool :=
  stillOpen file.frontmatter && (shouldSupersedeExisting host file.frontmatter scan.entityRef scan.structuredAttributes
    scan.persistedCreatedAt scan.newMemoryId).isSome

def expiringChunks (scan : Scan) (parentId : JsString) : List MemoryFile :=
  (firsts [] (chunksOf scan.allCandidates parentId)).filter fun chunk => expires scan.newMemoryId chunk.frontmatter

/-- A conflicting memory is retired with its chunks unless it is retired as a chunk. -/
def retire (scan : Scan) (retired : List MemoryFile) (memory : MemoryFile) : List MemoryFile :=
  if memory ∈ retired then retired else retired ++ memory :: expiringChunks scan memory.frontmatter.id

/-- The memories in conflict with the new one, and their chunks. -/
def retirement (store : MemoryStore) (args : SupersessionArgs) : List MemoryFile :=
  match accepted host args with
  | none => []
  | some (entityRef, attributes) =>
    let scan := scanOf args entityRef attributes store.hot store.cold
    ((firsts [] (scan.allCandidates.filter (isCandidate scan.newMemoryId))).filter (conflicts host scan)).foldl (retire scan) []

/-- Each pair of a retired memory is set by an active memory that is not retired. -/
def Covered (store : MemoryStore) (retired : List MemoryFile) : Prop :=
  ∀ memory ∈ retired, ∀ pair ∈ pairsOf host memory.frontmatter,
    ∃ holder ∈ store.files, holder.frontmatter.isActive ∧ holder ∉ retired ∧ pair ∈ pairsOf host holder.frontmatter

/-- A file of the start is marked if it is retired and is otherwise as it was. -/
structure Turned (newMemoryId : JsString) (retired : List MemoryFile) (file now : MemoryFile) : Prop where
  path : now.path = file.path
  marked : file ∈ retired → Marks newMemoryId file.frontmatter now.frontmatter
  kept : file ∉ retired → now = file

/-- The retired files of the start are marked, and no others. -/
def Marked (newMemoryId : JsString) (start current : MemoryStore) (retired : List MemoryFile) : Prop :=
  retired ⊆ start.files ∧ ∃ now : MemoryFile → MemoryFile, current.files = start.files.map now ∧
    ∀ file ∈ start.files, Turned newMemoryId retired file (now file)

variable {host : Host} {newMemoryId : JsString} {start current : MemoryStore} {retired : List MemoryFile}

theorem marked_refl {newMemoryId : JsString} {start : MemoryStore} : Marked newMemoryId start start [] :=
  ⟨nil_subset _, id, (map_id _).symm, fun _ _ => ⟨rfl, nofun, fun _ => rfl⟩⟩

theorem Marked.congr {others : List MemoryFile} (marked : Marked newMemoryId start current retired)
    (same : ∀ file, file ∈ others ↔ file ∈ retired) : Marked newMemoryId start current others := by
  obtain ⟨within, now, files, turned⟩ := marked
  refine ⟨fun file listed => within ((same file).mp listed), now, files, fun file stored => ?_⟩
  have before := turned file stored
  exact ⟨before.path, fun listed => before.marked ((same file).mp listed),
    fun unlisted => before.kept fun listed => unlisted ((same file).mpr listed)⟩

variable {patch : MemoryFrontmatter → MemoryFrontmatter} {now : MemoryFile} {scan : Scan} {fresh file : MemoryFile}

theorem readMemoryByPath_stored {store : MemoryStore} (stored : file ∈ store.files) :
    readMemoryByPath store file.path = some file := by
  cases read : readMemoryByPath store file.path with
  | none =>
    have absent := find?_eq_none.mp read file stored
    simp at absent
  | some other =>
    have listed : other ∈ store.files := mem_of_find?_eq_some read
    rw [inj_on_of_nodup_map store.distinct listed stored (readMemoryByPath_path read)]

theorem Marked.read (marked : Marked newMemoryId start current retired) (stored : file ∈ start.files) :
    ∃ now, readMemoryByPath current file.path = some now ∧ Turned newMemoryId retired file now := by
  obtain ⟨_, now, files, turned⟩ := marked
  have listed : now file ∈ current.files := by
    rw [files]
    exact mem_map_of_mem stored
  refine ⟨now file, ?_, turned file stored⟩
  rw [← (turned file stored).path]
  exact readMemoryByPath_stored listed

theorem Turned.patched (turned : Turned newMemoryId retired file fresh)
    (marks : Marks newMemoryId fresh.frontmatter (patch fresh.frontmatter)) :
    Marks newMemoryId file.frontmatter (patch fresh.frontmatter) := by
  by_cases listed : file ∈ retired
  · have before := turned.marked listed
    exact ⟨marks.id.trans before.id, marks.status, marks.supersededBy, marks.entityRef.trans before.entityRef,
      marks.structuredAttributes.trans before.structuredAttributes⟩
  · rwa [turned.kept listed] at marks ⊢

theorem Marked.write (marked : Marked newMemoryId start current retired) (stored : file ∈ start.files)
    (read : readMemoryByPath current file.path = some fresh)
    (marks : Marks newMemoryId fresh.frontmatter (patch fresh.frontmatter)) :
    Marked newMemoryId start (writeMemoryFrontmatter current fresh.path patch) (file :: retired) := by
  obtain ⟨now, there, turned⟩ := marked.read stored
  rw [read, Option.some.injEq] at there
  subst there
  obtain ⟨within, now, files, turns⟩ := marked
  have itself : now file = fresh := by
    have listed : now file ∈ current.files := by
      rw [files]
      exact mem_map_of_mem stored
    have again := readMemoryByPath_stored listed
    rw [(turns file stored).path, read] at again
    exact (Option.some.inj again).symm
  refine ⟨cons_subset.mpr ⟨stored, within⟩, patchAt fresh.path patch ∘ now, ?_, fun other listed => ?_⟩
  · rw [files_write, files, map_map]
  · have before := turns other listed
    by_cases same : other = file
    · rw [same, Function.comp_apply, itself, patchAt, if_pos rfl]
      exact ⟨turned.path, fun _ => turned.patched marks, fun absent => absurd mem_cons_self absent⟩
    · have apart : (now other).path ≠ fresh.path := by
        rw [before.path, turned.path]
        exact fun equal => same (inj_on_of_nodup_map start.distinct listed stored equal)
      rw [Function.comp_apply, patchAt, if_neg apart]
      exact ⟨before.path, fun member => before.marked ((mem_cons.mp member).resolve_left same),
        fun absent => before.kept fun member => absent (mem_cons_of_mem _ member)⟩

theorem Turned.expires_iff (turned : Turned newMemoryId retired file now) :
    expires newMemoryId now.frontmatter = true ↔ file ∈ retired ∨ expires newMemoryId file.frontmatter = true := by
  by_cases listed : file ∈ retired
  · have marks := turned.marked listed
    simp [listed, expires, marks.status, marks.supersededBy]
  · rw [turned.kept listed]
    simp only [listed, false_or]

theorem Turned.stillOpen_iff (turned : Turned newMemoryId retired file now) :
    stillOpen now.frontmatter = true ↔ file ∉ retired ∧ stillOpen file.frontmatter = true := by
  by_cases listed : file ∈ retired
  · have inactive := (turned.marked listed).not_active
    simp [listed, stillOpen, inactive]
  · rw [turned.kept listed]
    simp only [listed, not_false_eq_true, true_and]

theorem marked_expireChildChunks (mutation : TemporalSupersessionMutation) (chunks : List MemoryFile)
    (stored : chunks ⊆ start.files) : ∀ (processedChunkIds : List JsString) (current : MemoryStore) (retired : List MemoryFile),
      Marked newMemoryId start current retired →
        Marked newMemoryId start (expireChildChunks newMemoryId mutation chunks processedChunkIds current)
          (retired ++ (firsts processedChunkIds chunks).filter fun chunk => expires newMemoryId chunk.frontmatter) := by
  induction chunks with
  | nil =>
    intro processedChunkIds current retired marked
    simpa only [expireChildChunks, firsts, filter_nil, append_nil] using marked
  | cons chunk chunks ih =>
    intro processedChunkIds current retired marked
    have rest := ih (subset_of_cons_subset stored)
    unfold expireChildChunks firsts
    split_ifs with done
    · exact rest processedChunkIds current retired marked
    · obtain ⟨fresh, read, turned⟩ := marked.read (stored mem_cons_self)
      rw [read]
      simp only
      split_ifs with due
      · have written := marked.write (stored mem_cons_self) read (marks_childPatch newMemoryId mutation _)
        refine (rest _ _ _ written).congr fun file => ?_
        have known := turned.expires_iff.mp due
        by_cases expired : expires newMemoryId chunk.frontmatter = true
        · simp only [filter_cons, expired, if_true, mem_append, mem_cons]
          tauto
        · have listed := known.resolve_right expired
          simp only [filter_cons, if_neg expired, mem_append, mem_cons]
          constructor
          · tauto
          · rintro ((rfl | before) | later)
            · exact .inl listed
            · exact .inl before
            · exact .inr later
      · have unknown := mt turned.expires_iff.mpr due
        rw [filter_cons, if_neg fun expired => unknown (.inr expired)]
        exact rest _ _ _ marked

theorem marked_applyPrimaryMutation {memory : MemoryFile} {mutation : TemporalSupersessionMutation}
    (listed : scan.allCandidates ⊆ start.files) (marked : Marked scan.newMemoryId start current retired)
    (stored : memory ∈ start.files) (read : readMemoryByPath current memory.path = some fresh)
    (same : fresh.frontmatter.id = memory.frontmatter.id) :
    Marked scan.newMemoryId start (applyPrimaryMutation scan fresh mutation current)
      (retired ++ memory :: expiringChunks scan memory.frontmatter.id) := by
  have written := marked.write stored read (marks_temporalMutationPatch scan.newMemoryId mutation _)
  have chunks : chunksOf scan.allCandidates fresh.frontmatter.id ⊆ start.files :=
    Subset.trans filter_sublist.subset listed
  have expired := marked_expireChildChunks (childMutation mutation fresh.frontmatter) _ chunks [] _ _ written
  refine expired.congr fun file => ?_
  rw [expiringChunks, same]
  simp only [mem_append, mem_cons]
  tauto

theorem verdict_cases (scan : Scan) (processedIds : List JsString) (memory : MemoryFile) :
    verdict host scan processedIds memory.frontmatter = .skipped ∧
        (isCandidate scan.newMemoryId memory = false ∨ memory.frontmatter.id ∈ processedIds) ∨
      isCandidate scan.newMemoryId memory = true ∧ memory.frontmatter.id ∉ processedIds ∧
        verdict host scan processedIds memory.frontmatter =
          match shouldSupersedeExisting host memory.frontmatter scan.entityRef scan.structuredAttributes
            scan.persistedCreatedAt scan.newMemoryId with
          | none => .unaffected
          | some matchedKeys => .conflicting matchedKeys := by
  unfold verdict isCandidate
  split_ifs with skips
  · refine .inl ⟨rfl, ?_⟩
    simp only [Bool.or_eq_true, decide_eq_true_eq, Bool.not_eq_true', Bool.and_eq_false_iff, decide_eq_false_iff_not,
      not_not] at skips ⊢
    tauto
  · refine .inr ⟨?_, ?_, rfl⟩
    · simp only [Bool.or_eq_true, decide_eq_true_eq, Bool.not_eq_true', not_or, Bool.and_eq_true, Bool.not_eq_false] at skips ⊢
      exact ⟨skips.1.1, skips.2⟩
    · simp only [Bool.or_eq_true, decide_eq_true_eq, not_or] at skips
      exact skips.1.2

theorem marked_supersedeCandidates (listed : scan.allCandidates ⊆ start.files) (rest : List MemoryFile)
    (stored : rest ⊆ start.files) :
    ∀ (processedIds : List JsString) (result : TemporalSupersessionResult) (retired : List MemoryFile),
      Marked scan.newMemoryId start result.store retired →
        Marked scan.newMemoryId start (supersedeCandidates host scan rest processedIds result).store
          (((firsts processedIds (rest.filter (isCandidate scan.newMemoryId))).filter (conflicts host scan)).foldl
            (retire scan) retired) := by
  induction rest with
  | nil =>
    intro processedIds result retired marked
    simpa only [supersedeCandidates, filter_nil, firsts, foldl_nil] using marked
  | cons memory rest ih =>
    intro processedIds result retired marked
    have later := ih (subset_of_cons_subset stored)
    have there : memory ∈ start.files := stored mem_cons_self
    unfold supersedeCandidates
    rcases verdict_cases scan processedIds memory with ⟨skipped, out⟩ | ⟨candidate, unprocessed, judged⟩
    · rw [skipped]
      rcases out with stranger | done
      · rw [filter_cons, if_neg (by simp [stranger])]
        exact later _ _ _ marked
      · rw [filter_cons]
        split_ifs
        · rw [firsts, if_pos done]
          exact later _ _ _ marked
        · exact later _ _ _ marked
    · rw [judged, filter_cons, if_pos candidate, firsts, if_neg unprocessed, filter_cons]
      cases decided : shouldSupersedeExisting host memory.frontmatter scan.entityRef scan.structuredAttributes
        scan.persistedCreatedAt scan.newMemoryId with
      | none =>
        rw [if_neg (by simp [conflicts, decided])]
        exact later _ _ _ marked
      | some matchedKeys =>
        obtain ⟨fresh, read, turned⟩ := marked.read there
        simp only [read]
        have conflict : conflicts host scan memory = stillOpen memory.frontmatter := by simp [conflicts, decided]
        rw [conflict]
        by_cases still : stillOpen fresh.frontmatter = true
        · obtain ⟨unlisted, opens⟩ := turned.stillOpen_iff.mp still
          rw [if_pos still, if_pos opens, foldl_cons, retire, if_neg unlisted]
          refine later _ _ _ (marked_applyPrimaryMutation listed marked there read ?_)
          rw [turned.kept unlisted]
        · rw [if_neg still]
          by_cases opens : stillOpen memory.frontmatter = true
          · have known : memory ∈ retired := by
              by_contra unlisted
              exact still (turned.stillOpen_iff.mpr ⟨unlisted, opens⟩)
            rw [if_pos opens, foldl_cons, retire, if_pos known]
            exact later _ _ _ marked
          · rw [if_neg opens]
            exact later _ _ _ marked

theorem marked_apply (store : MemoryStore) (args : SupersessionArgs) :
    Marked args.newMemoryId store (applyTemporalSupersession host store args).store (retirement host store args) := by
  unfold applyTemporalSupersession retirement
  cases accepted host args with
  | none => exact marked_refl
  | some goesOn =>
    have all : store.hot ++ store.cold ⊆ store.files := Subset.refl _
    exact marked_supersedeCandidates all _ all _ _ _ marked_refl

theorem pairsOf_turned (turned : Turned newMemoryId retired file now) :
    pairsOf host now.frontmatter = pairsOf host file.frontmatter := by
  by_cases listed : file ∈ retired
  · have marks := turned.marked listed
    unfold pairsOf
    rw [marks.entityRef, marks.structuredAttributes]
  · rw [turned.kept listed]

theorem isActive_turned_iff (turned : Turned newMemoryId retired file now) :
    now.frontmatter.isActive = true ↔ file.frontmatter.isActive = true ∧ file ∉ retired := by
  by_cases listed : file ∈ retired
  · simp [listed, (turned.marked listed).not_active]
  · rw [turned.kept listed]
    simp only [listed, not_false_eq_true, and_true]

theorem Marked.holder_iff (marked : Marked newMemoryId start current retired) (pair : JsString × JsString) :
    (∃ holder ∈ current.files, holder.frontmatter.isActive ∧ pair ∈ pairsOf host holder.frontmatter) ↔
      ∃ holder ∈ start.files, holder.frontmatter.isActive ∧ holder ∉ retired ∧ pair ∈ pairsOf host holder.frontmatter := by
  obtain ⟨_, now, files, turned⟩ := marked
  constructor
  · rintro ⟨holder, listed, active, holds⟩
    rw [files] at listed
    obtain ⟨file, stored, rfl⟩ := mem_map.mp listed
    obtain ⟨before, unretired⟩ := (isActive_turned_iff (turned file stored)).mp active
    exact ⟨file, stored, before, unretired, by rwa [← pairsOf_turned (turned file stored)]⟩
  · rintro ⟨file, stored, active, unretired, holds⟩
    refine ⟨now file, by rw [files]; exact mem_map_of_mem stored, ?_, ?_⟩
    · exact (isActive_turned_iff (turned file stored)).mpr ⟨active, unretired⟩
    · rwa [pairsOf_turned (turned file stored)]

instance (store : MemoryStore) : Decidable (AllHeld host store) := by
  unfold AllHeld
  infer_instance

instance (store : MemoryStore) (retired : List MemoryFile) : Decidable (Covered host store retired) := by
  unfold Covered
  infer_instance

def newCity : MemoryFile := sampleMemory "nyc" "2" (sampleAttribute "city" "nyc")

def sameAttribute : MemoryStore := ⟨[newCity, sampleMemory "austin" "1" (sampleAttribute "city" "austin")], [], by decide⟩

def cityAndTool : Attributes := ⟨[(text "city", text "austin"), (text "tool", text "vim")], by decide⟩

/-- The older memory sets a tool besides the city. -/
def moreAttributes : MemoryStore := ⟨[newCity, sampleMemory "austin" "1" cityAndTool], [], by decide⟩

end Remnic.Supersession.Locality
