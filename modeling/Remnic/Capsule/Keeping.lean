import Remnic.Capsule.Merge

/-!
What a merge keeps of the local files. A file is overwritten without a snapshot where its text
is the archive's, and a snapshot holds its text; both keep the bytes only if the text is written
as the bytes again.
-/

namespace Remnic.Capsule.Keeping

open Text.CodeUnits Text.Utf8 Text.Utf8Encode Library PageVersioning.History Merge List

variable {Hash : Type} [DecidableEq Hash] {sha256 : List Byte → Hash} {archive : Archive} {options : Options}
  {journal : Journal}
variable {before world next after : World Hash} {record : MemoryRecord} {records : List MemoryRecord}

/-- The bytes are what their text is written as. -/
def IsText (bytes : List Byte) : Prop := encode (decode bytes) = bytes

instance (bytes : List Byte) : Decidable (IsText bytes) := by
  unfold IsText
  infer_instance

theorem isText_encode (value : JsString) : IsText (encode value) := encode_decode_encode value

def IsVersion (sha256 : List Byte → Hash) (histories : Histories Hash) (page : JsString) (bytes : List Byte) : Prop :=
  ∃ version ∈ histories.versions (sidecarDir page), version.pending = false ∧ version.contentHash = sha256 bytes ∧
    ∃ ext content, histories.snapshots (sidecarDir page) (version.versionId, ext) = some content ∧ encode content = bytes

inductive Standing where
  | identical
  | upgraded
  | conflicting
  deriving DecidableEq, Repr

def standing (sha256 : List Byte → Hash) (archive : Archive) (journal : Journal) (record : MemoryRecord) (bytes : List Byte) : Standing :=
  let localSha256 := sha256 (encode (decode bytes))
  let canonicalSha256 := sha256 (encode (canonicalContent archive journal record))
  if localSha256 = canonicalSha256 ∧ journal.isSome then .identical
  else if localSha256 = canonicalSha256 ∨ localSha256 = sha256 (encode record.content) then .upgraded
  else .conflicting

/-- The last items, as many as a cap allows; none is no cap. -/
def kept {Item : Type} (cap : Nat) (items : List Item) : List Item := if cap = 0 then items else items.drop (items.length - cap)

/-- The text of a conflicting file, where its page has its versions in a directory. -/
def conflictingText (sha256 : List Byte → Hash) (archive : Archive) (journal : Journal) (files : OrderedMap JsString (List Byte))
    (dir : JsString) (record : MemoryRecord) : Option JsString :=
  match files.lookup (targetPath record.path) with
  | none => none
  | some bytes =>
      if standing sha256 archive journal record bytes = .conflicting ∧ sidecarDir (targetPath record.path) = dir then some (decode bytes)
      else none

/-- The texts of the conflicting files whose pages share a sidecar directory. -/
def conflictingTexts (sha256 : List Byte → Hash) (archive : Archive) (journal : Journal) (files : OrderedMap JsString (List Byte))
    (records : List MemoryRecord) (dir : JsString) : List JsString :=
  records.filterMap (conflictingText sha256 archive journal files dir)

/-- Whether the merge may take the place of a local file: it overwrites only text, unless it prefers the source
and keeps no versions, and the snapshot of a conflicting one is not pruned by those that follow. -/
def IsSafe (sha256 : List Byte → Hash) (archive : Archive) (options : Options) (journal : Journal) (files : OrderedMap JsString (List Byte))
    (records : List MemoryRecord) (record : MemoryRecord) (bytes : List Byte) : Prop :=
  match standing sha256 archive journal record bytes with
  | .identical => True
  | .upgraded => IsText bytes ∨ options.conflictMode = .preferSource ∧ options.cap = none
  | .conflicting => options.conflictMode = .preferSource → ∀ cap ∈ options.cap,
      ∃ content ∈ kept cap (conflictingTexts sha256 archive journal files records (sidecarDir (targetPath record.path))),
        encode content = bytes

section records

variable (sha256 archive options journal)

/-- What is said of a record whose target holds some bytes, or none. -/
def outcomeOf (record : MemoryRecord) (held : Option (List Byte)) : Outcome Hash :=
  match held with
  | none => ⟨record.path, .merged false, none⟩
  | some bytes =>
      match standing sha256 archive journal record bytes with
      | .identical => ⟨record.path, .skipped .identical, none⟩
      | .upgraded => ⟨record.path, .merged false, none⟩
      | .conflicting =>
          ⟨record.path, if options.conflictMode = .preferSource then .merged options.cap.isSome else .skipped .conflict,
            some (sha256 (encode record.content), sha256 (encode (decode bytes)))⟩

def bytesAfter (record : MemoryRecord) (held : Option (List Byte)) : List Byte :=
  match held with
  | none => encode (canonicalContent archive journal record)
  | some bytes =>
      match standing sha256 archive journal record bytes with
      | .identical => bytes
      | .upgraded => encode (canonicalContent archive journal record)
      | .conflicting => if options.conflictMode = .preferSource then encode (canonicalContent archive journal record) else bytes

def historiesAfter (histories : Histories Hash) (record : MemoryRecord) (held : Option (List Byte)) : Option (Histories Hash) :=
  match held with
  | none => some histories
  | some bytes =>
      match options.cap with
      | none => some histories
      | some cap =>
          if standing sha256 archive journal record bytes = .conflicting ∧ options.conflictMode = .preferSource then
            createVersion sha256 histories (targetPath record.path) (decode bytes) cap
          else some histories

end records

theorem mergeRecord_eq_some {outcome : Outcome Hash} (merged : mergeRecord sha256 archive options journal world record = some (next, outcome)) :
    outcome = outcomeOf sha256 archive options journal record (world.files.lookup (targetPath record.path)) ∧
      (∀ path, next.files.lookup path = if path = targetPath record.path then
        some (bytesAfter sha256 archive options journal record (world.files.lookup (targetPath record.path))) else world.files.lookup path) ∧
      historiesAfter sha256 archive options journal world.histories record (world.files.lookup (targetPath record.path)) =
        some next.histories := by
  have written : ∀ (world : World Hash) path, (writeCanonicalRecord archive journal world record).files.lookup path =
      if path = targetPath record.path then some (encode (canonicalContent archive journal record)) else world.files.lookup path := by
    intro world path
    rw [← writtenContent_eq]
    exact OrderedMap.lookup_set _ _ _ _
  have unchanged : ∀ {bytes} path, world.files.lookup (targetPath record.path) = some bytes →
      world.files.lookup path = if path = targetPath record.path then some bytes else world.files.lookup path := by
    intro bytes path held
    split
    next same => rw [same, held]
    next => rfl
  unfold mergeRecord at merged
  unfold outcomeOf bytesAfter historiesAfter
  cases held : world.files.lookup (targetPath record.path) with
  | none =>
    simp only [held] at merged
    split at merged
    · cases merged
    · cases merged
      exact ⟨rfl, written world, rfl⟩
  | some bytes =>
    simp only [held] at merged
    unfold standing
    dsimp only
    by_cases identical : sha256 (encode (decode bytes)) = sha256 (encode (canonicalContent archive journal record)) ∧ journal.isSome = true
    · rw [if_pos identical] at merged
      cases merged
      rw [if_pos identical]
      refine ⟨rfl, fun path => unchanged path held, ?_⟩
      cases options.cap <;> simp
    · rw [if_neg identical] at merged ⊢
      by_cases upgraded : sha256 (encode (decode bytes)) = sha256 (encode (canonicalContent archive journal record)) ∨
          sha256 (encode (decode bytes)) = sha256 (encode record.content)
      · rw [if_pos upgraded] at merged ⊢
        cases merged
        refine ⟨rfl, written world, ?_⟩
        cases options.cap <;> simp [writeCanonicalRecord]
      · rw [if_neg upgraded] at merged ⊢
        cases mode : options.conflictMode with
        | preferSource =>
          cases kept : options.cap with
          | none =>
            rw [mode, kept] at merged
            cases merged
            exact ⟨rfl, written world, rfl⟩
          | some cap =>
            rw [mode, kept] at merged
            obtain ⟨histories, created, last⟩ := Option.bind_eq_some_iff.mp merged
            cases last
            exact ⟨rfl, written { world with histories := histories }, by simpa [writeCanonicalRecord] using created⟩
        | skipConflicts =>
          rw [mode] at merged
          cases merged
          refine ⟨rfl, fun path => unchanged path held, ?_⟩
          cases options.cap <;> simp
        | preferLocal =>
          rw [mode] at merged
          cases merged
          refine ⟨rfl, fun path => unchanged path held, ?_⟩
          cases options.cap <;> simp

theorem foldlM_congr {Item State : Type} {f g : State → Item → Option State} {items : List Item} {start : State}
    (same : ∀ state, ∀ item ∈ items, f state item = g state item) : items.foldlM f start = items.foldlM g start := by
  induction items generalizing start with
  | nil => rfl
  | cons item items ih =>
    rw [foldlM_cons, foldlM_cons, same start item mem_cons_self]
    congr 1
    funext next
    exact ih fun state item member => same state item (mem_cons_of_mem _ member)

/-- A run over some records, by what their targets hold before it. -/
theorem applyRecords_eq_some {outcomes : List (Outcome Hash)} (distinct : (records.map fun record => targetPath record.path).Nodup)
    (run : applyRecords sha256 archive options journal before records = some (after, outcomes)) :
    outcomes = records.map (fun record =>
        outcomeOf sha256 archive options journal record (before.files.lookup (targetPath record.path))) ∧
      (∀ record ∈ records, after.files.lookup (targetPath record.path) =
        some (bytesAfter sha256 archive options journal record (before.files.lookup (targetPath record.path)))) ∧
      (∀ path, path ∉ records.map (fun record => targetPath record.path) → after.files.lookup path = before.files.lookup path) ∧
      records.foldlM (fun histories record =>
        historiesAfter sha256 archive options journal histories record (before.files.lookup (targetPath record.path))) before.histories =
          some after.histories := by
  induction records generalizing before outcomes with
  | nil =>
    cases run
    exact ⟨rfl, by simp, by simp, rfl⟩
  | cons record records ih =>
    obtain ⟨⟨next, outcome⟩, merged, rest⟩ := Option.bind_eq_some_iff.mp run
    obtain ⟨⟨final, later⟩, others, last⟩ := Option.bind_eq_some_iff.mp rest
    cases last
    obtain ⟨fresh, distinct⟩ := nodup_cons.mp distinct
    obtain ⟨said, files, histories⟩ := mergeRecord_eq_some merged
    obtain ⟨outcomes, held, others, snapshots⟩ := ih distinct others
    have same : ∀ other ∈ records, next.files.lookup (targetPath other.path) = before.files.lookup (targetPath other.path) := by
      intro other member
      rw [files, if_neg]
      exact fun equal => fresh (mem_map.mpr ⟨other, member, equal⟩)
    refine ⟨?_, ?_, ?_, ?_⟩
    · rw [said, outcomes, map_cons]
      congr 1
      exact map_congr_left fun other member => by rw [same other member]
    · intro other member
      rcases mem_cons.mp member with rfl | member
      · rw [others _ fresh, files, if_pos rfl]
      · rw [held other member, same other member]
    · intro path outside
      rw [map_cons, mem_cons, not_or] at outside
      obtain ⟨apart, outside⟩ := outside
      rw [others path outside, files, if_neg apart]
    · rw [foldlM_cons, histories]
      refine Eq.trans ?_ snapshots
      exact foldlM_congr fun histories other member => by rw [same other member]

end Remnic.Capsule.Keeping
