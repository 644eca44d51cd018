import Remnic.OfflineSync.Paths

/-!
The regular files and directories below a sync root, with the errors that the
file system gives for a path through a file or onto a directory.
-/

namespace Remnic.OfflineSync.SyncRoot
open Library Library.GuardedFold Text.CodeUnits Reconcile.Census Paths List OrderedMap

variable {Content : Type}

/-- The directories a path runs through, outermost first. -/
def ancestors (path : JsString) : List JsString :=
  path.inits.filter fun start => startsWith path (start ++ [slash])

structure Stored (Content : Type) where
  content : Content
  mtimeMs : CensusMtime

/-- Every file's ancestors are directories, and nothing is both. -/
structure SyncTree (Content : Type) where
  files : OrderedMap JsString (Stored Content)
  directories : List JsString
  parents : ∀ path ∈ files.keys, ∀ above ∈ ancestors path, above ∈ directories
  disjoint : ∀ path ∈ files.keys, path ∉ directories

inductive Failure where
  | notDirectory
  | isDirectory
  | message (text : JsString)
deriving DecidableEq

inductive Stat (Content : Type) where
  | absent
  | directory
  | regular (file : Stored Content)

variable {next : SyncTree Content} {mtimeMs : CensusMtime} {path : JsString} {tree : SyncTree Content}
  {errorPrefix : JsString}

theorem length_of_ancestor {above : JsString} (member : above ∈ ancestors path) : above.length < path.length := by
  unfold ancestors at member
  rw [mem_filter] at member
  have longer := ( isPrefixOf_iff_prefix.mp member.2).length_le
  rw [length_append, length_singleton] at longer
  omega

theorem not_own_ancestor (path : JsString) : path ∉ ancestors path := fun member =>
  absurd (length_of_ancestor member) (Nat.lt_irrefl _)

namespace SyncTree

def file (tree : SyncTree Content) (path : JsString) : Option (Stored Content) := tree.files.lookup path

def through (tree : SyncTree Content) (path : JsString) : Bool := (ancestors path).any tree.files.contains

variable {next : SyncTree Content} {path : JsString} {tree : SyncTree Content} {stored : Stored Content}

theorem through_eq_true : tree.through path = true ↔ ∃ above ∈ ancestors path, above ∈ tree.files.keys := by
  unfold through
  rw [any_eq_true]
  refine exists_congr fun above => and_congr_right fun _ => ?_
  rw [OrderedMap.contains, Option.isSome_iff_exists, ← mem_keys_iff]

theorem file_not_through (tree : SyncTree Content) (member : path ∈ tree.files.keys) : tree.through path = false := by
  rw [← Bool.not_eq_true, through_eq_true]
  intro below
  obtain ⟨above, inside, known⟩ := below
  exact tree.disjoint above known (tree.parents path member above inside)

def stat (tree : SyncTree Content) (path : JsString) : Stat Content :=
  match tree.file path with
  | some found => .regular found
  | none => if path ∈ tree.directories then .directory else .absent

/-- `lstat`, which fails on a path through a regular file. -/
def lstat (tree : SyncTree Content) (path : JsString) : Except Failure (Stat Content) :=
  if tree.through path then .error .notDirectory else .ok (tree.stat path)

theorem lstat_ok_iff {found : Stat Content} : tree.lstat path = .ok found ↔ tree.through path = false ∧ found = tree.stat path := by
  unfold lstat
  cases crossing : tree.through path with
  | true => simp
  | false => simp [eq_comm]

/-- A temporary file renamed to the path, after `mkdir` of its ancestors. -/
def write (tree : SyncTree Content) (path : JsString) (stored : Stored Content) : Except Failure (SyncTree Content) :=
  if crossing : tree.through path = true then .error .notDirectory
  else if onto : path ∈ tree.directories then .error .isDirectory
  else .ok {
    files := tree.files.set path stored
    directories := tree.directories ++ ancestors path
    parents := by
      intro other member above inside
      rw [mem_keys_iff] at member
      by_cases same : other = path
      · exact mem_append_right _ (same ▸ inside)
      · rw [lookup_set_of_ne _ _ _ _ same, ← mem_keys_iff] at member
        exact mem_append_left _ (tree.parents other member above inside)
    disjoint := by
      intro other member inside
      rw [mem_keys_iff] at member
      by_cases same : other = path
      · rw [same] at inside
        exact (mem_append.mp inside).elim onto (not_own_ancestor path)
      · rw [lookup_set_of_ne _ _ _ _ same, ← mem_keys_iff] at member
        rcases mem_append.mp inside with known | created
        · exact tree.disjoint other member known
        · exact crossing (through_eq_true.mpr ⟨other, created, member⟩) }

/-- `unlink`, for which an absent path is done already. -/
def unlink (tree : SyncTree Content) (path : JsString) : Except Failure (SyncTree Content) :=
  if path ∈ tree.directories then .error .isDirectory
  else .ok {
    files := tree.files.erase path
    directories := tree.directories
    parents := fun other member => tree.parents other
      ((filter_sublist.map Prod.fst).subset member)
    disjoint := fun other member => tree.disjoint other
      ((filter_sublist.map Prod.fst).subset member) }

def touch (tree : SyncTree Content) (path : JsString) (mtimeMs : CensusMtime) : SyncTree Content :=
  match known : tree.file path with
  | none => tree
  | some stored => {
    files := tree.files.set path { stored with mtimeMs := mtimeMs }
    directories := tree.directories
    parents := by
      intro other member above inside
      refine tree.parents other ?_ above inside
      rw [mem_keys_iff] at member ⊢
      by_cases same : other = path
      · exact ⟨stored, same ▸ known⟩
      · rwa [lookup_set_of_ne _ _ _ _ same] at member
    disjoint := by
      intro other member
      refine tree.disjoint other ?_
      rw [mem_keys_iff] at member ⊢
      by_cases same : other = path
      · exact ⟨stored, same ▸ known⟩
      · rwa [lookup_set_of_ne _ _ _ _ same] at member }

theorem file_write (done : tree.write path stored = .ok next) (other : JsString) :
    next.file other = if other = path then some stored else tree.file other := by
  unfold write at done
  split_ifs at done with crossing onto
  rw [← Except.ok.inj done]
  exact lookup_set tree.files path other stored

theorem directories_write (done : tree.write path stored = .ok next) : next.directories = tree.directories ++ ancestors path := by
  unfold write at done
  split_ifs at done with crossing onto
  rw [← Except.ok.inj done]

theorem write_ok (clear : tree.through path = false) (free : path ∉ tree.directories) (stored : Stored Content) :
    ∃ next, tree.write path stored = .ok next := by
  unfold write
  rw [dif_neg (by rw [clear]; decide), dif_neg free]
  exact ⟨_, rfl⟩

theorem file_unlink (done : tree.unlink path = .ok next) (other : JsString) :
    next.file other = if other = path then none else tree.file other := by
  unfold unlink at done
  split_ifs at done with onto
  rw [← Except.ok.inj done]
  exact lookup_erase tree.files path other

theorem directories_unlink (done : tree.unlink path = .ok next) : next.directories = tree.directories := by
  unfold unlink at done
  split_ifs at done with onto
  rw [← Except.ok.inj done]

theorem unlink_ok (free : path ∉ tree.directories) : ∃ next, tree.unlink path = .ok next := by
  unfold unlink
  rw [if_neg free]
  exact ⟨_, rfl⟩

theorem directories_touch (tree : SyncTree Content) (path : JsString) (mtimeMs : CensusMtime) :
    (tree.touch path mtimeMs).directories = tree.directories := by
  unfold touch
  split
  next absent => rfl
  next stored known => rfl

theorem file_touch_self (present : tree.file path = some stored) (mtimeMs : CensusMtime) :
    (tree.touch path mtimeMs).file path = some { stored with mtimeMs := mtimeMs } := by
  unfold touch
  split
  next absent => cases absent.symm.trans present
  next found known =>
    have same : found = stored := Option.some.inj (known.symm.trans present)
    exact (lookup_set_self _ _ _).trans (by rw [same])

theorem file_touch_of_ne (tree : SyncTree Content) {other : JsString} (mtimeMs : CensusMtime) (different : other ≠ path) :
    (tree.touch path mtimeMs).file other = tree.file other := by
  unfold touch
  split
  next absent => rfl
  next stored known => exact lookup_set_of_ne _ _ _ _ different

theorem file_touch (tree : SyncTree Content) (path : JsString) (mtimeMs : CensusMtime) (other : JsString) :
    ((tree.touch path mtimeMs).file other).map Stored.content = (tree.file other).map Stored.content := by
  unfold touch
  split
  next absent => rfl
  next stored known =>
    by_cases same : other = path
    · rw [same]
      exact (congrArg (Option.map Stored.content) (lookup_set_self _ _ _)).trans (by rw [known]; rfl)
    · exact congrArg _ (lookup_set_of_ne _ _ _ _ same)

end SyncTree

def throwing {Result : Type} : Except JsString Result → Except Failure Result
  | .ok result => .ok result
  | .error message => .error (.message message)

/-- The path a file operation uses, once it is valid and can be reached. -/
def resolveSafeArchiveTarget (tree : SyncTree Content) (errorPrefix relPath : JsString) : Except Failure JsString := do
  let safe ← throwing (validateArchiveRelativePath relPath errorPrefix)
  let _ ← tree.lstat safe
  return safe

/-- `OFFLINE_SYNC_FAST_BASE_MTIME_TOLERANCE_MS`. -/
def mtimeToleranceMs : ℚ := 1000

/-- False when there is nothing at the path. -/
def setSafeFileMtime (tree : SyncTree Content) (errorPrefix relPath : JsString) (mtimeMs : CensusMtime) :
    Except Failure (Bool × SyncTree Content) := do
  let target ← resolveSafeArchiveTarget tree errorPrefix relPath
  match ← tree.lstat target with
  | .absent => return (false, tree)
  | .directory => return (true, tree)
  | .regular stored =>
    if |stored.mtimeMs.val - mtimeMs.val| ≤ mtimeToleranceMs then return (true, tree)
    else return (true, tree.touch target mtimeMs)

def writeSafeFile (tree : SyncTree Content) (errorPrefix relPath : JsString) (content : Content)
    (mtimeMs : CensusMtime) : Except Failure (SyncTree Content) := do
  let target ← resolveSafeArchiveTarget tree errorPrefix relPath
  tree.write target ⟨content, mtimeMs⟩

def deleteSafeFile (tree : SyncTree Content) (errorPrefix relPath : JsString) : Except Failure (SyncTree Content) := do
  let target ← resolveSafeArchiveTarget tree errorPrefix relPath
  tree.unlink target

def offlineSyncRegularFilePresent (tree : SyncTree Content) (errorPrefix relPath : JsString) :
    Except Failure Bool := do
  let target ← throwing (validateArchiveRelativePath relPath errorPrefix)
  match ← tree.lstat target with
  | .regular _ => return true
  | .directory => return false
  | .absent => return false

structure OfflineSyncFileState where
  path : JsString
  sha256 : Sha256
  bytes : Nat
  mtimeMs : CensusMtime
deriving DecidableEq

/-- `sha256Bytes`: the digest and the length of a content. -/
structure Hashing (Content : Type) where
  sha256 : Content → Sha256
  bytes : Content → Nat

def Hashing.stateOf (hashing : Hashing Content) (path : JsString) (stored : Stored Content) : OfflineSyncFileState :=
  ⟨path, hashing.sha256 stored.content, hashing.bytes stored.content, stored.mtimeMs⟩

/-- The walk of a root: a file counts when neither it nor a directory above it is excluded. -/
def walked (excluded : JsString → Bool) (path : JsString) : Bool :=
  !excluded path && (ancestors path).all fun above => !excluded above

def compareByPath (tables : UnicodeTables) (first second : OfflineSyncFileState) : Bool :=
  tables.localeLe first.path second.path

/-- The files of `buildOfflineSyncSnapshot` without their contents. -/
def census (tables : UnicodeTables) (hashing : Hashing Content) (excluded : JsString → Bool)
    (tree : SyncTree Content) : List OfflineSyncFileState :=
  ((tree.files.entries.filter fun entry => walked excluded entry.1).map
    fun entry => hashing.stateOf entry.1 entry.2).mergeSort (compareByPath tables)

theorem validate_ok_iff {path errorPrefix safe : JsString} :
    validateArchiveRelativePath path errorPrefix = .ok safe ↔ IsArchivePath path ∧ safe = path := by
  have accepts := assertArchivePath_ok_iff path errorPrefix
  unfold assertArchivePath at accepts
  cases checked : validateArchiveRelativePath path errorPrefix with
  | error message =>
    rw [checked] at accepts
    constructor
    · intro ok
      cases ok
    · intro archive
      cases accepts.mpr archive.1
  | ok normal =>
    rw [checked] at accepts
    have archive := accepts.mp rfl
    have value : normal = posixNormalize path := by
      unfold validateArchiveRelativePath at checked
      split_ifs at checked
      exact (Except.ok.inj checked).symm
    rw [value, posixNormalize_safe path archive]
    constructor
    · intro same
      exact ⟨archive, (Except.ok.inj same).symm⟩
    · intro same
      rw [same.2]

theorem throwing_ok_iff {Result : Type} {checked : Except JsString Result} {result : Result} :
    throwing checked = .ok result ↔ checked = .ok result := by
  cases checked with
  | error message => simp [throwing]
  | ok value => simp [throwing]

theorem resolve_ok_iff (tree : SyncTree Content) (errorPrefix path target : JsString) :
    resolveSafeArchiveTarget tree errorPrefix path = .ok target ↔
      IsArchivePath path ∧ tree.through path = false ∧ target = path := by
  unfold resolveSafeArchiveTarget
  simp only [bind_ok_iff, throwing_ok_iff, validate_ok_iff, SyncTree.lstat_ok_iff, pure_ok_iff]
  constructor
  · intro done
    obtain ⟨safe, ⟨archive, self⟩, stat, ⟨clear, _⟩, last⟩ := done
    rw [self] at clear last
    exact ⟨archive, clear, last⟩
  · intro facts
    exact ⟨path, ⟨facts.1, rfl⟩, tree.stat path, ⟨facts.2.1, rfl⟩, facts.2.2⟩

theorem writeSafeFile_ok_iff {content : Content} :
    writeSafeFile tree errorPrefix path content mtimeMs = .ok next ↔
      IsArchivePath path ∧ tree.write path ⟨content, mtimeMs⟩ = .ok next := by
  unfold writeSafeFile
  rw [bind_ok_iff]
  constructor
  · intro done
    obtain ⟨target, resolved, written⟩ := done
    obtain ⟨archive, _, same⟩ := (resolve_ok_iff _ _ _ _).mp resolved
    exact ⟨archive, same ▸ written⟩
  · intro facts
    obtain ⟨archive, written⟩ := facts
    have clear : tree.through path = false := by
      unfold SyncTree.write at written
      split_ifs at written with crossing
      exact Bool.eq_false_iff.mpr crossing
    exact ⟨path, (resolve_ok_iff _ _ _ _).mpr ⟨archive, clear, rfl⟩, written⟩

theorem deleteSafeFile_ok_iff :
    deleteSafeFile tree errorPrefix path = .ok next ↔
      IsArchivePath path ∧ tree.through path = false ∧ tree.unlink path = .ok next := by
  unfold deleteSafeFile
  rw [bind_ok_iff]
  constructor
  · intro done
    obtain ⟨target, resolved, removed⟩ := done
    obtain ⟨archive, clear, same⟩ := (resolve_ok_iff _ _ _ _).mp resolved
    exact ⟨archive, clear, same ▸ removed⟩
  · intro facts
    exact ⟨path, (resolve_ok_iff _ _ _ _).mpr ⟨facts.1, facts.2.1, rfl⟩, facts.2.2⟩

theorem setSafeFileMtime_cases {touched : Bool × SyncTree Content}
    (done : setSafeFileMtime tree errorPrefix path mtimeMs = .ok touched) : tree.file path = none ∧ touched.2 = tree ∨
      ∃ stored, tree.file path = some stored ∧ touched =
        (true, if |stored.mtimeMs.val - mtimeMs.val| ≤ mtimeToleranceMs then tree else tree.touch path mtimeMs) := by
  unfold setSafeFileMtime at done
  obtain ⟨target, resolved, rest⟩ := bind_ok_iff.mp done
  obtain ⟨stat, reached, last⟩ := bind_ok_iff.mp rest
  obtain ⟨_, _, same⟩ := (resolve_ok_iff _ _ _ _).mp resolved
  rw [same] at reached last
  obtain ⟨_, rfl⟩ := SyncTree.lstat_ok_iff.mp reached
  unfold SyncTree.stat at last
  cases present : tree.file path with
  | none =>
    rw [present] at last
    dsimp only at last
    split_ifs at last <;> exact .inl ⟨rfl, by rw [pure_ok_iff.mp last]⟩
  | some stored =>
    rw [present] at last
    dsimp only at last
    refine .inr ⟨stored, rfl, ?_⟩
    split_ifs at last ⊢ <;> exact pure_ok_iff.mp last

/-- Setting a time keeps every content, and finds the path absent only where no file is. -/
theorem setSafeFileMtime_ok {found : Bool} (done : setSafeFileMtime tree errorPrefix path mtimeMs = .ok (found, next)) :
    (∀ other, (next.file other).map Stored.content = (tree.file other).map Stored.content) ∧
      next.directories = tree.directories ∧ (found = false → tree.file path = none) := by
  rcases setSafeFileMtime_cases done with ⟨missing, rfl⟩ | ⟨stored, _, same⟩
  · exact ⟨fun _ => rfl, rfl, fun _ => missing⟩
  · obtain ⟨rfl, rfl⟩ := Prod.mk.inj same
    refine ⟨fun other => ?_, ?_, nofun⟩ <;> split_ifs
    · rfl
    · exact SyncTree.file_touch tree path mtimeMs other
    · rfl
    · exact SyncTree.directories_touch tree path mtimeMs

end Remnic.OfflineSync.SyncRoot
