import Remnic.Supersession.Decision

/-!
The memory files of both tiers, each at a path of its own.
-/

namespace Remnic.Supersession.Store

open Library Text.CodeUnits Memory.SupersessionKey Decision List
open Tombstone.Entry (truthy)

structure MemoryStore where
  hot : List MemoryFile
  cold : List MemoryFile
  distinct : ((hot ++ cold).map MemoryFile.path).Nodup

def MemoryStore.files (store : MemoryStore) : List MemoryFile := store.hot ++ store.cold

def readMemoryByPath (store : MemoryStore) (path : JsString) : Option MemoryFile := store.files.find? (·.path = path)

def patchAt (path : JsString) (patch : MemoryFrontmatter → MemoryFrontmatter) (file : MemoryFile) : MemoryFile :=
  if file.path = path then { file with frontmatter := patch file.frontmatter } else file

theorem patchAt_path (path : JsString) (patch : MemoryFrontmatter → MemoryFrontmatter) (file : MemoryFile) :
    (patchAt path patch file).path = file.path := by
  unfold patchAt
  split <;> rfl

def writeMemoryFrontmatter (store : MemoryStore) (path : JsString) (patch : MemoryFrontmatter → MemoryFrontmatter) :
    MemoryStore where
  hot := store.hot.map (patchAt path patch)
  cold := store.cold.map (patchAt path patch)
  distinct := by
    have same : (store.hot.map (patchAt path patch) ++ store.cold.map (patchAt path patch)).map MemoryFile.path =
        (store.hot ++ store.cold).map MemoryFile.path := by
      rw [← map_append, map_map]
      exact map_congr_left fun file _ => patchAt_path path patch file
    rw [same]
    exact store.distinct

/-- The file is patched if it is still what the caller has read. -/
def writeMemoryFrontmatterIfUnchanged (store : MemoryStore) (expected : MemoryFile)
    (patch : MemoryFrontmatter → MemoryFrontmatter) : Option MemoryStore :=
  if readMemoryByPath store expected.path = some expected then some (writeMemoryFrontmatter store expected.path patch) else none

def persist (store : MemoryStore) (file : MemoryFile) (fresh : file.path ∉ store.files.map MemoryFile.path) : MemoryStore where
  hot := file :: store.hot
  cold := store.cold
  distinct := nodup_cons.mpr ⟨fresh, store.distinct⟩

variable {store : MemoryStore} {path : JsString} {patch : MemoryFrontmatter → MemoryFrontmatter} {file : MemoryFile}

theorem readMemoryByPath_path {fresh : MemoryFile} (read : readMemoryByPath store path = some fresh) : fresh.path = path := by
  simpa using find?_some read

theorem writeMemoryFrontmatterIfUnchanged_fresh {fresh : MemoryFile} (read : readMemoryByPath store path = some fresh)
    (patch : MemoryFrontmatter → MemoryFrontmatter) :
    writeMemoryFrontmatterIfUnchanged store fresh patch = some (writeMemoryFrontmatter store fresh.path patch) := by
  rw [writeMemoryFrontmatterIfUnchanged, if_pos]
  rw [readMemoryByPath_path read, read]

theorem files_write : (writeMemoryFrontmatter store path patch).files = store.files.map (patchAt path patch) :=
  (map_append ..).symm

theorem mem_files_write {expected : MemoryFile} (read : readMemoryByPath store expected.path = some expected) :
    file ∈ (writeMemoryFrontmatter store expected.path patch).files ↔
      file = { expected with frontmatter := patch expected.frontmatter } ∨ file ∈ store.files ∧ file ≠ expected := by
  have stored : expected ∈ store.files := mem_of_find?_eq_some read
  have alone (other : MemoryFile) (listed : other ∈ store.files) (same : other.path = expected.path) : other = expected :=
    inj_on_of_nodup_map store.distinct listed stored same
  rw [files_write, mem_map]
  constructor
  · rintro ⟨other, listed, rfl⟩
    by_cases same : other.path = expected.path
    · rw [alone other listed same, patchAt, if_pos rfl]
      exact .inl rfl
    · rw [patchAt, if_neg same]
      exact .inr ⟨listed, fun equal => same (congrArg MemoryFile.path equal)⟩
  · rintro (rfl | ⟨listed, different⟩)
    · exact ⟨expected, stored, by rw [patchAt, if_pos rfl]⟩
    · refine ⟨file, listed, ?_⟩
      rw [patchAt, if_neg fun same => different (alone file listed same)]

variable (host : Host)

def keysOf (frontmatter : MemoryFrontmatter) : List JsString :=
  match truthy frontmatter.entityRef with
  | none => []
  | some entityRef => supersessionKeysForFact host.tables (some entityRef) frontmatter.structuredAttributes

theorem keysOf_of_marks {replacementId : JsString} {old new : MemoryFrontmatter} (marks : Marks replacementId old new) :
    keysOf host new = keysOf host old := by
  unfold keysOf
  rw [marks.entityRef, marks.structuredAttributes]

/-- The memory that a file names as its successor. -/
def link (frontmatter : MemoryFrontmatter) : Option JsString := truthy frontmatter.supersededBy

end Remnic.Supersession.Store
