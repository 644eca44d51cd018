import Remnic.Capsule.Snapshots

/-!
What a merge does to local content, and what the same merge does again. A merge that throws has
merged the records before; all is said of the records that are merged.
-/

namespace Remnic.Capsule.LocalContent

open Text.CodeUnits Text.Utf8 Text.Utf8Encode Library PageVersioning.History Merge Keeping Snapshots List

variable {Hash : Type} [DecidableEq Hash] {sha256 : List Byte → Hash} {archive : Archive} {options : Options}
  {journal : Journal}
variable {before after world : World Hash} {record : MemoryRecord} {records : List MemoryRecord}
  {outcomes : List (Outcome Hash)}

/-- Every record is merged or skipped, and the conflicts are those left out, or those overwritten where the source is preferred. -/
structure IsConsistent (options : Options) (records : List MemoryRecord) (result : MergeCapsuleResult Hash) : Prop where
  placed : (result.merged.map Prod.fst ++ result.skipped.map Prod.fst).Perm (records.map MemoryRecord.path)
  conflicts :
    if options.conflictMode = .preferSource then
      (∀ entry ∈ result.skipped, entry.2 = .identical) ∧ (result.conflicts.map Prod.fst).Sublist (result.merged.map Prod.fst)
    else result.conflicts.map Prod.fst = (result.skipped.filter fun entry => entry.2 = .conflict).map Prod.fst

/-- No local content is lost, the result is consistent, and another merge changes nothing. -/
structure KeepsLocalContent (sha256 : List Byte → Hash) (archive : Archive) (options : Options) (journal : Journal)
    (records : List MemoryRecord) (before after : World Hash) (outcomes : List (Outcome Hash)) : Prop where
  kept : ∀ path bytes, before.files.lookup path = some bytes → after.files.lookup path = some bytes ∨
    ∃ record ∈ records, targetPath record.path = path ∧
      (bytes = encode record.content ∨ bytes = encode (canonicalContent archive journal record) ∨
        options.conflictMode = .preferSource ∧ ∀ cap ∈ options.cap, IsVersion sha256 after.histories path bytes)
  consistent : IsConsistent options records (resultOf outcomes)
  repeated : ∃ again said, applyRecords sha256 archive options journal after records = some (again, said) ∧
    (∀ path, again.files.lookup path = after.files.lookup path) ∧
    (resultOf said).conflicts.map Prod.fst = ((resultOf outcomes).skipped.filter fun entry => entry.2 = .conflict).map Prod.fst

/-- The byte strings whose digests a merge compares, and the local ones. -/
def inPlay (archive : Archive) (journal : Journal) (files : OrderedMap JsString (List Byte)) (records : List MemoryRecord) : List (List Byte) :=
  records.flatMap fun record =>
    [encode record.content, encode (canonicalContent archive journal record)] ++
      ((files.lookup (targetPath record.path)).toList.flatMap fun bytes => [bytes, encode (decode bytes)])

/-- Different byte strings in play have different digests. -/
def CollisionFree (sha256 : List Byte → Hash) (archive : Archive) (journal : Journal) (files : OrderedMap JsString (List Byte))
    (records : List MemoryRecord) : Prop :=
  ∀ first ∈ inPlay archive journal files records, ∀ second ∈ inPlay archive journal files records, sha256 first = sha256 second → first = second

/-- What a record's target may hold once it is merged. -/
def Settled (sha256 : List Byte → Hash) (archive : Archive) (options : Options) (journal : Journal) (record : MemoryRecord)
    (bytes : List Byte) : Prop :=
  match standing sha256 archive journal record bytes with
  | .identical => True
  | .upgraded => bytes = encode (canonicalContent archive journal record)
  | .conflicting => options.conflictMode ≠ .preferSource

section settled

theorem standing_canonical (sha256 : List Byte → Hash) (archive : Archive) (journal : Journal) (record : MemoryRecord) :
    standing sha256 archive journal record (encode (canonicalContent archive journal record)) =
      if journal.isSome then .identical else .upgraded := by
  unfold standing
  rw [encode_decode_encode]
  by_cases readable : journal.isSome = true
  · simp [readable]
  · simp [readable]

theorem settled_canonical (sha256 : List Byte → Hash) (archive : Archive) (options : Options) (journal : Journal) (record : MemoryRecord) :
    Settled sha256 archive options journal record (encode (canonicalContent archive journal record)) := by
  unfold Settled
  rw [standing_canonical]
  split_ifs
  · trivial
  · rfl

theorem bytesAfter_cases (sha256 : List Byte → Hash) (archive : Archive) (options : Options) (journal : Journal) (record : MemoryRecord)
    (bytes : List Byte) :
    (bytesAfter sha256 archive options journal record (some bytes) = bytes ∧
      (standing sha256 archive journal record bytes = .identical ∨
        standing sha256 archive journal record bytes = .conflicting ∧ options.conflictMode ≠ .preferSource)) ∨
    (bytesAfter sha256 archive options journal record (some bytes) = encode (canonicalContent archive journal record) ∧
      (standing sha256 archive journal record bytes = .upgraded ∨
        standing sha256 archive journal record bytes = .conflicting ∧ options.conflictMode = .preferSource)) := by
  unfold bytesAfter
  cases stands : standing sha256 archive journal record bytes with
  | identical => simp [stands]
  | upgraded => simp [stands]
  | conflicting => by_cases mode : options.conflictMode = .preferSource <;> simp [stands, mode]

theorem settled_bytesAfter (held : Option (List Byte)) :
    Settled sha256 archive options journal record (bytesAfter sha256 archive options journal record held) := by
  cases held with
  | none => exact settled_canonical sha256 archive options journal record
  | some bytes =>
    obtain ⟨same, stands⟩ | ⟨written, _⟩ := bytesAfter_cases sha256 archive options journal record bytes
    · rw [same]
      unfold Settled
      rcases stands with stands | ⟨stands, mode⟩
      · rw [stands]
        trivial
      · rw [stands]
        exact mode
    · rw [written]
      exact settled_canonical sha256 archive options journal record

theorem mergeRecord_settled {bytes : List Byte} (held : world.files.lookup (targetPath record.path) = some bytes)
    (settled : Settled sha256 archive options journal record bytes) :
    ∃ next outcome, mergeRecord sha256 archive options journal world record = some (next, outcome) ∧
      ∀ path, next.files.lookup path = world.files.lookup path := by
  have rewritten : bytes = encode (canonicalContent archive journal record) →
      ∀ path, (writeCanonicalRecord archive journal world record).files.lookup path = world.files.lookup path := by
    intro same path
    refine (OrderedMap.lookup_set _ _ _ _).trans ?_
    split
    next own => rw [own, held, same, writtenContent_eq]
    next => rfl
  unfold Settled standing at settled
  unfold mergeRecord
  simp only [held] at settled ⊢
  split_ifs at settled ⊢ with identical upgraded
  · exact ⟨_, _, rfl, fun _ => rfl⟩
  · exact ⟨_, _, rfl, rewritten settled⟩
  · cases mode : options.conflictMode with
    | preferSource => exact absurd mode settled
    | skipConflicts => exact ⟨_, _, rfl, fun _ => rfl⟩
    | preferLocal => exact ⟨_, _, rfl, fun _ => rfl⟩

theorem applyRecords_settled (world : World Hash) (settled : ∀ record ∈ records, ∃ bytes, world.files.lookup (targetPath record.path) = some bytes ∧
      Settled sha256 archive options journal record bytes) :
    ∃ next said, applyRecords sha256 archive options journal world records = some (next, said) ∧
      ∀ path, next.files.lookup path = world.files.lookup path := by
  induction records generalizing world with
  | nil => exact ⟨world, [], rfl, fun _ => rfl⟩
  | cons record records ih =>
    obtain ⟨bytes, held, first⟩ := settled record mem_cons_self
    obtain ⟨next, outcome, merged, same⟩ := mergeRecord_settled held first
    have still : ∀ other ∈ records, ∃ bytes, next.files.lookup (targetPath other.path) = some bytes ∧
        Settled sha256 archive options journal other bytes := fun other member => by
      rw [same]
      exact settled other (mem_cons_of_mem _ member)
    obtain ⟨final, said, run, unchanged⟩ := ih next still
    refine ⟨final, outcome :: said, ?_, fun path => (unchanged path).trans (same path)⟩
    unfold applyRecords
    rw [merged]
    simp [run]

end settled

section result

omit [DecidableEq Hash]

theorem resultOf_placed (outcomes : List (Outcome Hash)) :
    ((resultOf outcomes).merged.map Prod.fst ++ (resultOf outcomes).skipped.map Prod.fst).Perm (outcomes.map Outcome.path) := by
  induction outcomes with
  | nil => exact Perm.refl _
  | cons outcome outcomes ih =>
    unfold resultOf at ih ⊢
    cases said : outcome.verdict with
    | merged snapshotted => simpa [said] using ih
    | skipped reason => simpa [said] using perm_middle.trans (ih.cons outcome.path)

theorem skipped_conflicts (outcomes : List (Outcome Hash)) :
    ((resultOf outcomes).skipped.filter fun entry => entry.2 = .conflict).map Prod.fst =
      (outcomes.filter fun outcome => outcome.verdict = .skipped .conflict).map Outcome.path := by
  induction outcomes with
  | nil => rfl
  | cons outcome outcomes ih =>
    unfold resultOf at ih ⊢
    cases said : outcome.verdict with
    | merged snapshotted => simpa [said] using ih
    | skipped reason => cases reason <;> simpa [said] using ih

theorem conflicts_paths (outcomes : List (Outcome Hash)) :
    (resultOf outcomes).conflicts.map Prod.fst = (outcomes.filter fun outcome => outcome.conflict.isSome).map Outcome.path := by
  induction outcomes with
  | nil => rfl
  | cons outcome outcomes ih =>
    unfold resultOf at ih ⊢
    cases said : outcome.conflict with
    | none => simpa [said] using ih
    | some digests => simpa [said] using ih

theorem conflicts_sublist (overwritten : ∀ outcome ∈ outcomes, outcome.conflict.isSome = true → ∃ snapshotted, outcome.verdict = .merged snapshotted) :
    ((resultOf outcomes).conflicts.map Prod.fst).Sublist ((resultOf outcomes).merged.map Prod.fst) := by
  induction outcomes with
  | nil => exact Sublist.refl _
  | cons outcome outcomes ih =>
    have rest := ih fun other member => overwritten other (mem_cons_of_mem _ member)
    unfold resultOf at rest ⊢
    cases said : outcome.conflict with
    | none =>
      cases placed : outcome.verdict with
      | merged snapshotted => simpa [said, placed] using rest.cons outcome.path
      | skipped reason => simpa [said, placed] using rest
    | some digests =>
      obtain ⟨snapshotted, merged⟩ := overwritten outcome mem_cons_self (by rw [said]; rfl)
      simpa [said, merged] using rest.cons_cons outcome.path

end result

section outcomes

variable {held : Option (List Byte)}

theorem outcomeOf_conflict (mode : options.conflictMode ≠ .preferSource) :
    (outcomeOf sha256 archive options journal record held).conflict.isSome =
      decide ((outcomeOf sha256 archive options journal record held).verdict = .skipped .conflict) := by
  unfold outcomeOf
  cases held with
  | none => simp
  | some bytes => cases stands : standing sha256 archive journal record bytes <;> simp [stands, mode]

theorem outcomeOf_preferSource (mode : options.conflictMode = .preferSource) :
    (outcomeOf sha256 archive options journal record held).verdict ≠ .skipped .conflict ∧
      ((outcomeOf sha256 archive options journal record held).conflict.isSome = true →
        ∃ snapshotted, (outcomeOf sha256 archive options journal record held).verdict = .merged snapshotted) := by
  unfold outcomeOf
  cases held with
  | none => simp
  | some bytes => cases stands : standing sha256 archive journal record bytes <;> simp [stands, mode]

theorem outcomeOf_again :
    (outcomeOf sha256 archive options journal record (some (bytesAfter sha256 archive options journal record held))).conflict.isSome =
      decide ((outcomeOf sha256 archive options journal record held).verdict = .skipped .conflict) := by
  have canonical : (outcomeOf sha256 archive options journal record (some (encode (canonicalContent archive journal record)))).conflict =
      none := by
    unfold outcomeOf
    dsimp only
    rw [standing_canonical]
    cases journal.isSome <;> rfl
  cases held with
  | none =>
    refine (congrArg Option.isSome canonical).trans ?_
    simp [outcomeOf]
  | some bytes =>
    obtain ⟨same, stands⟩ | ⟨written, stands⟩ := bytesAfter_cases sha256 archive options journal record bytes
    · rw [same]
      rcases stands with stands | ⟨stands, mode⟩
      · simp [outcomeOf, stands]
      · exact outcomeOf_conflict mode
    · rw [written, canonical]
      rcases stands with stands | ⟨stands, mode⟩ <;> simp [outcomeOf, *]

theorem outcomeOf_path : (outcomeOf sha256 archive options journal record held).path = record.path := by
  unfold outcomeOf
  cases held with
  | none => rfl
  | some bytes => cases stands : standing sha256 archive journal record bytes <;> simp [stands]

theorem isConsistent_outcomes (held : MemoryRecord → Option (List Byte)) (records : List MemoryRecord) :
    IsConsistent options records (resultOf (records.map fun record => outcomeOf sha256 archive options journal record (held record))) := by
  refine ⟨?_, ?_⟩
  · refine (resultOf_placed _).trans (Perm.of_eq ?_)
    rw [map_map]
    exact map_congr_left fun record _ => outcomeOf_path
  · rw [conflicts_paths, skipped_conflicts]
    split_ifs with mode
    · refine ⟨fun entry listed => ?_, ?_⟩
      · obtain ⟨outcome, member, said⟩ := mem_filterMap.mp listed
        obtain ⟨record, _, rfl⟩ := mem_map.mp member
        have apart : (outcomeOf sha256 archive options journal record (held record)).verdict ≠ .skipped .conflict := (outcomeOf_preferSource mode).1
        revert said apart
        cases (outcomeOf sha256 archive options journal record (held record)).verdict with
        | merged snapshotted => simp
        | skipped reason => cases reason <;> simp +contextual [eq_comm]
      · rw [← conflicts_paths]
        refine conflicts_sublist fun outcome member conflicting => ?_
        obtain ⟨record, _, rfl⟩ := mem_map.mp member
        exact (outcomeOf_preferSource mode).2 conflicting
    · congr 1
      refine filter_congr fun outcome member => ?_
      obtain ⟨record, _, rfl⟩ := mem_map.mp member
      exact outcomeOf_conflict mode

end outcomes

section claim

variable {bytes : List Byte}

omit [DecidableEq Hash] in
theorem mem_inPlay (member : record ∈ records) : encode record.content ∈ inPlay archive journal before.files records ∧
    encode (canonicalContent archive journal record) ∈ inPlay archive journal before.files records :=
  ⟨mem_flatMap.mpr ⟨record, member, by simp⟩, mem_flatMap.mpr ⟨record, member, by simp⟩⟩

omit [DecidableEq Hash] in
theorem local_mem_inPlay (member : record ∈ records) (held : before.files.lookup (targetPath record.path) = some bytes) :
    bytes ∈ inPlay archive journal before.files records ∧ encode (decode bytes) ∈ inPlay archive journal before.files records :=
  ⟨mem_flatMap.mpr ⟨record, member, by simp [held]⟩, mem_flatMap.mpr ⟨record, member, by simp [held]⟩⟩

theorem ne_of_conflicting (conflicting : standing sha256 archive journal record bytes = .conflicting) :
    bytes ≠ encode record.content ∧ bytes ≠ encode (canonicalContent archive journal record) := by
  unfold standing at conflicting
  dsimp only at conflicting
  split_ifs at conflicting with identical upgraded
  rw [not_or] at upgraded
  refine ⟨?_, ?_⟩
  · rintro rfl
    exact upgraded.2 (by rw [encode_decode_encode])
  · rintro rfl
    exact upgraded.1 (by rw [encode_decode_encode])

theorem eq_of_upgraded (free : CollisionFree sha256 archive journal before.files records) (member : record ∈ records)
    (held : before.files.lookup (targetPath record.path) = some bytes) (upgraded : standing sha256 archive journal record bytes = .upgraded)
    (written : IsText bytes) : bytes = encode record.content ∨ bytes = encode (canonicalContent archive journal record) := by
  unfold standing at upgraded
  dsimp only at upgraded
  rw [written] at upgraded
  split_ifs at upgraded with identical equal
  rcases equal with canonical | same
  · exact .inr (free _ (local_mem_inPlay member held).1 _ (mem_inPlay member).2 canonical)
  · exact .inl (free _ (local_mem_inPlay member held).1 _ (mem_inPlay member).1 same)

theorem conflictingTexts_mem_inPlay {dir content : JsString} (member : content ∈ conflictingTexts sha256 archive journal before.files records dir) :
    encode content ∈ inPlay archive journal before.files records := by
  obtain ⟨record, listed, said⟩ := mem_filterMap.mp member
  unfold conflictingText at said
  cases held : before.files.lookup (targetPath record.path) with
  | none =>
    rw [held] at said
    cases said
  | some bytes =>
    rw [held] at said
    dsimp only at said
    split_ifs at said
    cases said
    exact (local_mem_inPlay listed held).2

theorem isVersion_conflicting {cap : Nat} (mode : options.conflictMode = .preferSource) (capped : options.cap = some cap)
    (free : CollisionFree sha256 archive journal before.files records)
    (run : records.foldlM (fun histories record =>
      historiesAfter sha256 archive options journal histories record (before.files.lookup (targetPath record.path))) before.histories =
        some after.histories)
    (member : record ∈ records) (held : before.files.lookup (targetPath record.path) = some bytes)
    (conflicting : standing sha256 archive journal record bytes = .conflicting) :
    IsVersion sha256 after.histories (targetPath record.path) bytes ↔
      ∃ content ∈ kept cap (conflictingTexts sha256 archive journal before.files records (sidecarDir (targetPath record.path))),
        encode content = bytes := by
  obtain ⟨taken, tracked⟩ := (tracked_start sha256 cap before.histories (sidecarDir (targetPath record.path))).merge mode capped run
  rw [nil_append] at tracked
  refine isVersion_iff tracked ?_ fun content known same => ?_
  · exact mem_filterMap.mpr ⟨record, member, by simp [conflictingText, held, conflicting]⟩
  · exact free _ (conflictingTexts_mem_inPlay known) _ (local_mem_inPlay member held).1 same

end claim

section samples

def sampleArchive : Archive where
  records := [⟨text "notes/a.md", text "new"⟩]
  targets := nodup_singleton _

def sampleOptions : Options := ⟨.preferSource, some ⟨true, 5, text ".versions"⟩⟩

def sampleWorld (bytes : List Byte) : World (List Byte) where
  files := OrderedMap.empty.set (text "notes/a.md") bytes
  histories := ⟨fun _ => none, fun _ => false, fun _ _ => none⟩

end samples

end Remnic.Capsule.LocalContent
