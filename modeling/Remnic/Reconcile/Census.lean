import Remnic.Text.CodeUnits
import Remnic.Library.GuardedFold

/-!
The acceptance checks of the reconciliation planner. A census arrives untrusted:
each check either refuses it with the message the planner reports, or returns
the field in its canonical form.
-/

namespace Remnic.Reconcile.Census
open Text.CodeUnits Library Library.GuardedFold List

/-- A census the planner refuses to reason about. -/
structure ReconcilePlanInputError where
  message : JsString
deriving DecidableEq

abbrev Checked := Except ReconcilePlanInputError

def refuse {Result : Type} (message : JsString) : Checked Result := .error ⟨message⟩

inductive CensusSide where
  | localSide
  | peerSide
  | baseSide
deriving DecidableEq

def CensusSide.label : CensusSide → JsString
  | .localSide => text "local"
  | .peerSide => text "peer"
  | .baseSide => text "base"

/-- What an untyped `mtimeMs` can hold: numbers that are not finite and values
that are not numbers are refused alike. -/
inductive MtimeValue where
  | absent
  | finite (ms : ℚ)
  | notFinite
deriving DecidableEq

/-- An untyped census record; a field that is not a string is `none`. -/
structure ReconcileFileState where
  path : Option JsString
  sha256 : Option JsString
  mtimeMs : MtimeValue
deriving DecidableEq

/-- An untyped collection argument. -/
inductive RawCollection (Item : Type) where
  | absent
  | bareString
  | notIterable
  | items (values : List Item)

def isHexUnit (c : CodeUnit) : Bool :=
  (0x30 ≤ c.val && c.val ≤ 0x39) || (0x41 ≤ c.val && c.val ≤ 0x46) || (0x61 ≤ c.val && c.val ≤ 0x66)

/-- `SHA256_HEX_PATTERN`: 64 hexadecimal digits in either case. -/
def isSha256Hex (value : JsString) : Bool := value.length = 64 && value.all isHexUnit

def IsCanonicalDigest (value : JsString) : Prop := isSha256Hex value = true ∧ asciiLower value = value

instance (value : JsString) : Decidable (IsCanonicalDigest value) :=
  inferInstanceAs (Decidable (_ ∧ _))

/-- A digest in its stored, lower-case form. -/
abbrev Sha256 := { value : JsString // IsCanonicalDigest value }

private theorem asciiLowerUnit_hex (c : CodeUnit) (hex : isHexUnit c = true) :
    isHexUnit (asciiLowerUnit c) = true ∧ asciiLowerUnit (asciiLowerUnit c) = asciiLowerUnit c := by
  unfold asciiLowerUnit
  by_cases upper : 0x41 ≤ c.val ∧ c.val ≤ 0x5A
  · have bound : c.val + 0x20 < 65536 := by omega
    have value : (unit (c.val + 0x20)).val = c.val + 0x20 := Nat.mod_eq_of_lt bound
    simp only [isHexUnit, Bool.or_eq_true, Bool.and_eq_true, decide_eq_true_eq] at hex
    refine ⟨?_, ?_⟩
    · simp only [if_pos upper, isHexUnit, value, Bool.or_eq_true, Bool.and_eq_true, decide_eq_true_eq]
      omega
    · rw [if_pos upper, if_neg]
      rw [value]
      omega
  · simp only [if_neg upper, hex, and_self]

theorem asciiLower_canonical (value : JsString) (hex : isSha256Hex value = true) :
    IsCanonicalDigest (asciiLower value) := by
  simp only [isSha256Hex, Bool.and_eq_true, decide_eq_true_eq, all_eq_true] at hex
  refine ⟨?_, ?_⟩
  · simp only [isSha256Hex, asciiLower, length_map, hex.1, decide_true, Bool.true_and, all_map,
      all_eq_true]
    intro c present
    exact (asciiLowerUnit_hex c (hex.2 c present)).1
  · rw [asciiLower, asciiLower, map_map]
    apply map_congr_left
    intro c present
    exact (asciiLowerUnit_hex c (hex.2 c present)).2

def censusMaxMtimeMs : ℚ := 8640000000000000

/-- A revision time `newest-wins` may order. -/
abbrev CensusMtime := { ms : ℚ // 0 ≤ ms ∧ ms ≤ censusMaxMtimeMs }

structure CensusRecord where
  path : JsString
  sha256 : Sha256
  mtimeMs : Option CensusMtime
deriving DecidableEq

/-- The fields of a revision that a decision reads. -/
structure RevisionStamp where
  sha256 : Sha256
  mtimeMs : Option CensusMtime
deriving DecidableEq

def CensusRecord.stamp (file : CensusRecord) : RevisionStamp := ⟨file.sha256, file.mtimeMs⟩

def assertDigest (value : Option JsString) (context : JsString) : Checked Sha256 :=
  match value with
  | none => refuse (text "reconcile: " ++ context ++ text " must carry a 64-character sha256 hex digest")
  | some digest =>
    if hex : isSha256Hex digest = true then .ok ⟨asciiLower digest, asciiLower_canonical digest hex⟩
    else refuse (text "reconcile: " ++ context ++ text " must carry a 64-character sha256 hex digest")

def mtimeMessage (context : JsString) : JsString :=
  text "reconcile: " ++ context ++
    text " has an out-of-range mtimeMs; expected a finite value between 0 and 8640000000000000"

def assertMtimeMs (value : MtimeValue) (context : JsString) : Checked CensusMtime :=
  match value with
  | .absent => refuse (mtimeMessage context)
  | .notFinite => refuse (mtimeMessage context)
  | .finite ms =>
    if inRange : 0 ≤ ms ∧ ms ≤ censusMaxMtimeMs then .ok ⟨ms, inRange⟩ else refuse (mtimeMessage context)

def currentSegment : JsString := [dot]

def parentSegment : JsString := [dot, dot]

/-- `path.posix.normalize` on the segments of a relative path; the stack is reversed. -/
def normalizeSegments : List JsString → List JsString → List JsString
  | stack, [] => stack.reverse
  | stack, segment :: rest =>
    if segment = [] ∨ segment = currentSegment then normalizeSegments stack rest
    else if segment = parentSegment then
      match stack with
      | [] => normalizeSegments [parentSegment] rest
      | top :: below =>
        if top = parentSegment then normalizeSegments (parentSegment :: stack) rest
        else normalizeSegments below rest
    else normalizeSegments (segment :: stack) rest

/-- `path.posix.normalize` of a non-empty relative path. -/
def posixNormalize (relPath : JsString) : JsString :=
  let joined := [slash].intercalate (normalizeSegments [] (split slash relPath))
  if joined = [] then (if endsWith relPath slash then currentSegment ++ [slash] else currentSegment)
  else if endsWith relPath slash then joined ++ [slash] else joined

def isUnsafeSegment (segment : JsString) : Bool :=
  segment = [] || segment = currentSegment || segment = parentSegment

def escapesRoot (normalized : JsString) : Bool :=
  normalized = currentSegment || normalized = parentSegment ||
    startsWith normalized (parentSegment ++ [slash]) || startsWith normalized [slash]

/-- The check every archive path passes; its caller rewraps the message. -/
def validateArchiveRelativePath (relPath errorPrefix : JsString) : Except JsString JsString :=
  if relPath = [] then .error (errorPrefix ++ text ": record path must not be empty")
  else if relPath.contains backslash then
    .error (errorPrefix ++ text ": record path must use POSIX separators: " ++ relPath)
  else if startsWith relPath [slash] then
    .error (errorPrefix ++ text ": record path must be relative: " ++ relPath)
  else if (split slash relPath).any isUnsafeSegment then
    .error (errorPrefix ++ text ": record path contains unsafe segments: " ++ relPath)
  else if escapesRoot (posixNormalize relPath) then
    .error (errorPrefix ++ text ": record path escapes target root: " ++ relPath)
  else .ok (posixNormalize relPath)

def isWin32InvalidUnit (c : CodeUnit) : Bool :=
  c.val < 0x20 || (text "<>:\"|?*").contains c

def win32DeviceStems : List JsString := [text "con", text "prn", text "aux", text "nul"]

def isDevicePortUnit (c : CodeUnit) : Bool :=
  (0x31 ≤ c.val && c.val ≤ 0x39) || c.val = 0xB9 || c.val = 0xB2 || c.val = 0xB3

/-- `WIN32_RESERVED_NAMES`, with its ASCII case folding. -/
def isWin32ReservedName (stem : JsString) : Bool :=
  let folded := asciiLower stem
  win32DeviceStems.contains folded ||
    match folded with
    | [a, b, c, port] => ([a, b, c] = text "com" || [a, b, c] = text "lpt") && isDevicePortUnit port
    | _ => false

def assertPortableSegment (place : JsString) (isWindows : Bool) (segment : JsString) : Checked Unit :=
  if segment = [] then .ok ()
  else if isWindows && (endsWith segment dot || endsWith segment space) then
    refuse (place ++ text " has a segment ending in a dot or space; " ++
      text "Windows strips those and would alias it onto another file")
  else if hasLoneSurrogate segment then refuse (place ++ text " contains an unpaired surrogate")
  else if isWindows && segment.any isWin32InvalidUnit then
    refuse (place ++ text " contains a character Windows cannot store")
  else if isWindows && isWin32ReservedName ((split dot segment).headD []) then
    refuse (place ++ text " uses a reserved Windows device name")
  else .ok ()

/-- Participants whose file systems the plan must be storable on. -/
abbrev Platforms := List (Option JsString)

def isWindowsPlan (platforms : Platforms) : Bool := platforms.contains (some (text "win32"))

def assertPortablePathSegments (path side nameSpace : JsString) (platforms : Platforms) : Checked Unit :=
  (split slash path).forM (assertPortableSegment
    (text "reconcile: " ++ side ++ text " census for namespace " ++ nameSpace ++ text " path " ++ path)
    (isWindowsPlan platforms))

def assertArchivePath (path errorPrefix : JsString) : Checked Unit :=
  match validateArchiveRelativePath path errorPrefix with
  | .error message => refuse message
  | .ok _ => .ok ()

def assertCensusMtime (value : MtimeValue) (context : JsString) : Checked (Option CensusMtime) :=
  match value with
  | .absent => .ok none
  | present => (assertMtimeMs present context).map some

def assertCensusRecord (file : ReconcileFileState) (side : CensusSide) (nameSpace : JsString)
    (platforms : Platforms) : Checked CensusRecord := do
  let place := side.label ++ text " census for namespace " ++ nameSpace
  match file.path with
  | none => refuse (text "reconcile: " ++ place ++ text " contains a record with no path")
  | some [] => refuse (text "reconcile: " ++ place ++ text " contains a record with no path")
  | some path =>
    assertArchivePath path (text "reconcile: " ++ place)
    assertPortablePathSegments path side.label nameSpace platforms
    let sha256 ← assertDigest file.sha256 (place ++ text " entry " ++ path)
    let mtimeMs ← assertCensusMtime file.mtimeMs (place ++ text " entry " ++ path)
    return ⟨path, sha256, mtimeMs⟩

def normalizeNamespaceIdentity (tables : UnicodeTables) (nameSpace : JsString) : JsString :=
  tables.normalizeNfc (trim nameSpace)

def assertNamespace (tables : UnicodeTables) (value : Option JsString) : Checked JsString :=
  match value with
  | none => refuse (text "reconcile: every namespace input needs a non-empty namespace")
  | some nameSpace =>
    if nameSpace = [] then refuse (text "reconcile: every namespace input needs a non-empty namespace")
    else if hasLoneSurrogate nameSpace then
      refuse (text "reconcile: namespace contains an unpaired surrogate; " ++
        text "it would collide with another namespace on disk")
    else if normalizeNamespaceIdentity tables nameSpace ≠ nameSpace then
      refuse (text "reconcile: namespace " ++ jsonStringify nameSpace ++ text " is not canonical; pass " ++
        jsonStringify (normalizeNamespaceIdentity tables nameSpace))
    else .ok nameSpace

def assertIterable {Item : Type} (value : RawCollection Item) (side : CensusSide) (nameSpace : JsString) :
    Checked (List Item) :=
  match value with
  | .items values => .ok values
  | _ => refuse (text "reconcile: " ++ side.label ++ text " census for namespace " ++ nameSpace ++
      text " must be iterable")

inductive ConvergeConflictPolicy where
  | newestWins
  | manual
deriving DecidableEq

def ConvergeConflictPolicy.parse (value : JsString) : Option ConvergeConflictPolicy :=
  if value = text "newest-wins" then some .newestWins
  else if value = text "manual" then some .manual
  else none

def defaultConvergeConflictPolicy : ConvergeConflictPolicy := .newestWins

def assertConflictPolicy (value : Option JsString) : Checked ConvergeConflictPolicy :=
  match value with
  | none => .ok defaultConvergeConflictPolicy
  | some policy =>
    match ConvergeConflictPolicy.parse policy with
    | some parsed => .ok parsed
    | none => refuse (text "reconcile: unknown conflictPolicy " ++ jsonStringify policy ++
        text "; expected one of newest-wins, manual")

def IsArchivePath (path : JsString) : Prop :=
  path ≠ [] ∧ path.contains backslash = false ∧ startsWith path [slash] = false ∧
    (split slash path).any isUnsafeSegment = false

private theorem normalizeSegments_safe (segments stack : List JsString)
    (safe : ∀ segment ∈ segments, isUnsafeSegment segment = false) :
    normalizeSegments stack segments = stack.reverse ++ segments := by
  induction segments generalizing stack with
  | nil => simp [normalizeSegments]
  | cons segment segments ih =>
    have head := safe segment mem_cons_self
    simp only [isUnsafeSegment, Bool.or_eq_false_iff, decide_eq_false_iff_not] at head
    rw [normalizeSegments.eq_def]
    simp only [head.1.1, head.1.2, head.2, or_self, if_false]
    rw [ih _ (fun later member => safe later (mem_cons_of_mem _ member)), reverse_cons,
      append_assoc, singleton_append]

/-- A path with safe segments is its own normal form, so the escape check behind
the segment check never fires. -/
theorem posixNormalize_safe (path : JsString) (archive : IsArchivePath path) : posixNormalize path = path := by
  obtain ⟨present, _, _, safe⟩ := archive
  simp only [any_eq_false, Bool.not_eq_true] at safe
  have joined : [slash].intercalate (normalizeSegments [] (split slash path)) = path := by
    rw [normalizeSegments_safe _ _ safe, reverse_nil, nil_append, join_split]
  have trailing : endsWith path slash = false := by
    by_contra ends
    simp only [endsWith, Bool.not_eq_false, decide_eq_true_eq] at ends
    obtain ⟨start, rfl⟩ := getLast?_eq_some_iff.mp ends
    have empty : ([] : JsString) ∈ split slash (start ++ [slash]) := by
      rw [split, splitOn_append_cons_self]
      exact mem_append_right _ (mem_singleton_self _)
    exact absurd (safe [] empty) (by decide)
  simp only [posixNormalize, joined, present, trailing, if_false, Bool.false_eq_true]

private theorem escapesRoot_safe (path : JsString) (archive : IsArchivePath path) : escapesRoot path = false := by
  obtain ⟨_, _, relative, safe⟩ := archive
  simp only [any_eq_false, Bool.not_eq_true] at safe
  simp only [escapesRoot, relative, Bool.or_false, Bool.or_eq_false_iff, decide_eq_false_iff_not]
  refine ⟨⟨?_, ?_⟩, ?_⟩
  · rintro rfl
    exact absurd (safe currentSegment (by decide)) (by decide)
  · rintro rfl
    exact absurd (safe parentSegment (by decide)) (by decide)
  · rw [startsWith, ← Bool.not_eq_true, isPrefixOf_iff_prefix]
    rintro ⟨rest, rfl⟩
    refine absurd (safe parentSegment ?_) (by decide)
    rw [split, append_assoc, singleton_append, splitOn_append_cons_self]
    exact mem_append_left _ (by decide)

theorem assertArchivePath_ok_iff (path errorPrefix : JsString) :
    assertArchivePath path errorPrefix = .ok () ↔ IsArchivePath path := by
  by_cases archive : IsArchivePath path
  · have facts := archive
    obtain ⟨present, posix, relative, safe⟩ := facts
    simp only [assertArchivePath, validateArchiveRelativePath, present, posix, relative, safe,
      posixNormalize_safe path archive, escapesRoot_safe path archive, if_false, Bool.false_eq_true, archive]
  · simp only [archive, iff_false]
    intro accepted
    apply archive
    unfold assertArchivePath validateArchiveRelativePath at accepted
    split_ifs at accepted with missing windows absolute hazard escape
    · cases accepted
    · cases accepted
    · cases accepted
    · cases accepted
    · cases accepted
    · simp only [Bool.not_eq_true] at windows absolute hazard
      exact ⟨missing, windows, absolute, hazard⟩

def isPortableSegment (isWindows : Bool) (segment : JsString) : Bool :=
  segment = [] ||
    (!(isWindows && (endsWith segment dot || endsWith segment space)) && !hasLoneSurrogate segment &&
      !(isWindows && segment.any isWin32InvalidUnit) &&
      !(isWindows && isWin32ReservedName ((split dot segment).headD [])))

def IsPortablePath (platforms : Platforms) (path : JsString) : Prop :=
  ∀ segment ∈ split slash path, isPortableSegment (isWindowsPlan platforms) segment = true

private theorem assertPortableSegment_ok_iff (place : JsString) (isWindows : Bool) (segment : JsString) :
    assertPortableSegment place isWindows segment = .ok () ↔ isPortableSegment isWindows segment = true := by
  unfold assertPortableSegment isPortableSegment
  split_ifs with missing trailing lone invalid reserved
  · simp [missing]
  · simp [refuse, missing, trailing]
  · simp [refuse, missing, lone]
  · simp [refuse, missing, invalid]
  · simp only [refuse, reduceCtorEq, missing, reserved, decide_false, Bool.not_true, Bool.and_false, Bool.or_self,
      Bool.false_eq_true]
  · simp only [Bool.not_eq_true] at trailing lone invalid reserved
    simp only [trailing, lone, invalid, reserved, Bool.not_false, Bool.and_self, Bool.or_true]

theorem assertPortablePathSegments_ok_iff (path side nameSpace : JsString) (platforms : Platforms) :
    assertPortablePathSegments path side nameSpace platforms = .ok () ↔ IsPortablePath platforms path := by
  rw [assertPortablePathSegments, forM_ok_iff]
  exact forall₂_congr (fun segment _ => assertPortableSegment_ok_iff _ _ segment)

def MtimeValue.ofCensus : Option CensusMtime → MtimeValue
  | none => .absent
  | some mtime => .finite mtime.val

theorem assertDigest_ok_iff (value : Option JsString) (context : JsString) (digest : Sha256) :
    assertDigest value context = .ok digest ↔
      ∃ raw, value = some raw ∧ isSha256Hex raw = true ∧ asciiLower raw = digest.val := by
  cases value with
  | none => simp [assertDigest, refuse]
  | some raw =>
    by_cases hex : isSha256Hex raw = true
    · rw [assertDigest, dif_pos hex, Except.ok.injEq, Subtype.ext_iff]
      simp only [Option.some.injEq, exists_eq_left', hex, true_and]
    · simp [assertDigest, refuse, hex]

theorem assertMtimeMs_ok_iff (value : MtimeValue) (context : JsString) (mtime : CensusMtime) :
    assertMtimeMs value context = .ok mtime ↔ value = .finite mtime.val := by
  cases value with
  | absent => simp [assertMtimeMs, refuse]
  | notFinite => simp [assertMtimeMs, refuse]
  | finite ms =>
    by_cases inRange : 0 ≤ ms ∧ ms ≤ censusMaxMtimeMs
    · simp only [assertMtimeMs, dif_pos inRange, Except.ok.injEq, Subtype.ext_iff, MtimeValue.finite.injEq]
    · simp only [assertMtimeMs, dif_neg inRange, refuse, MtimeValue.finite.injEq, reduceCtorEq, false_iff]
      rintro rfl
      exact inRange mtime.property

private theorem assertCensusMtime_ok_iff (value : MtimeValue) (context : JsString) (mtime : Option CensusMtime) :
    assertCensusMtime value context = .ok mtime ↔ value = .ofCensus mtime := by
  cases value with
  | absent => cases mtime <;> simp [assertCensusMtime, MtimeValue.ofCensus]
  | notFinite => cases mtime <;> simp [assertCensusMtime, assertMtimeMs, refuse, Except.map, MtimeValue.ofCensus]
  | finite ms =>
    simp only [assertCensusMtime, map_ok_iff, assertMtimeMs_ok_iff]
    cases mtime with
    | none => simp [MtimeValue.ofCensus]
    | some mtime => simp only [Option.some.injEq, exists_eq_right, MtimeValue.ofCensus]

/-- A raw record and the record its checks return, on given platforms. -/
structure Accepts (platforms : Platforms) (file : ReconcileFileState) (record : CensusRecord) : Prop where
  path : file.path = some record.path
  archive : IsArchivePath record.path
  portable : IsPortablePath platforms record.path
  digest : ∃ raw, file.sha256 = some raw ∧ isSha256Hex raw = true ∧ asciiLower raw = record.sha256.val
  mtime : file.mtimeMs = .ofCensus record.mtimeMs

theorem assertCensusRecord_ok_iff (file : ReconcileFileState) (side : CensusSide) (nameSpace : JsString)
    (platforms : Platforms) (record : CensusRecord) :
    assertCensusRecord file side nameSpace platforms = .ok record ↔ Accepts platforms file record := by
  obtain ⟨filePath, fileSha, fileMtime⟩ := file
  match filePath with
  | none =>
    simp only [assertCensusRecord, refuse, reduceCtorEq, false_iff]
    intro accepted
    exact absurd accepted.path (by simp)
  | some [] =>
    simp only [assertCensusRecord, refuse, reduceCtorEq, false_iff]
    intro accepted
    exact accepted.archive.1 (Option.some.inj accepted.path).symm
  | some (c :: rest) =>
    simp only [assertCensusRecord, guard_bind_ok_iff, assertPortablePathSegments_ok_iff, assertArchivePath_ok_iff]
    simp only [bind_ok_iff, assertDigest_ok_iff, assertCensusMtime_ok_iff, pure_ok_iff]
    constructor
    · rintro ⟨archive, portable, digest, read, mtime, rfl, rfl⟩
      exact ⟨rfl, archive, portable, read, rfl⟩
    · rintro ⟨samePath, archive, portable, read, mtime⟩
      obtain ⟨path, digest, time⟩ := record
      cases samePath
      exact ⟨archive, portable, digest, read, time, mtime, rfl⟩

theorem assertNamespace_ok {tables : UnicodeTables} {value : Option JsString} {nameSpace : JsString}
    (accepted : assertNamespace tables value = .ok nameSpace) : value = some nameSpace := by
  cases value with
  | none => cases accepted
  | some held =>
    unfold assertNamespace at accepted
    dsimp only at accepted
    split_ifs at accepted
    · cases accepted
    · cases accepted
    · cases accepted
    · rw [Except.ok.inj accepted]

def CensusRecord.raw (record : CensusRecord) : ReconcileFileState :=
  ⟨some record.path, some record.sha256.val, .ofCensus record.mtimeMs⟩

theorem accepts_raw (platforms : Platforms) (record : CensusRecord) (archive : IsArchivePath record.path)
    (portable : IsPortablePath platforms record.path) : Accepts platforms record.raw record :=
  ⟨rfl, archive, portable, ⟨_, rfl, record.sha256.property.1, record.sha256.property.2⟩, rfl⟩

/-- Digests for the small runs that accompany general results. -/
def digestA : Sha256 := ⟨List.replicate 64 (unit 0x61), by decide +kernel⟩

def digestB : Sha256 := ⟨List.replicate 64 (unit 0x62), by decide +kernel⟩

def digestC : Sha256 := ⟨List.replicate 64 (unit 0x63), by decide +kernel⟩

end Remnic.Reconcile.Census
