import Remnic.Catalog.Log

/-!
The record that a touch appends, and the records that a rebuild writes. What the disk
shows of the storage roots is given.
-/

namespace Remnic.Catalog.Operations

open Text.CodeUnits Text.IsoDate Library Record Log Option

/-- The configuration, and the functions of it that are not opened here: which names are safe routes, the kind that a name
tells, and `path.resolve`. -/
structure Settings where
  host : Host
  defaultNamespace : JsString
  isSafeRouteNamespace : JsString → Bool
  inferKind : JsString → NamespaceKind
  resolvePath : JsString → JsString
  compactBytesLimit : Nat
  readCoalesceMs : Nat
  writeCoalesceMs : Nat

/-- A resolved storage directory. -/
abbrev StorageDir := { dir : JsString // dir ≠ [] }

inductive TouchKind where
  | read
  | write
  | maintenance (jobName : JsString)
  | register
  deriving DecidableEq, Repr

/-- A touch, with the storage directory that `resolveTouchStorageDir` gives it. -/
structure Touch where
  name : JsString
  kind : TouchKind
  time : Int
  discoveredBy : Option NamespaceDiscoverySource
  namespaceKind : Option NamespaceKind
  storageDir : StorageDir
  deriving DecidableEq

structure Accepted where
  name : JsString
  nowIso : JsString
  touch : Touch
  deriving DecidableEq

def Settings.defaultNamespaceIdentity (settings : Settings) : JsString :=
  normalizeNamespaceIdentity settings.host settings.defaultNamespace

/-- Nothing where an unsafe name throws. -/
def validateNamespace (settings : Settings) (name : JsString) : Option JsString :=
  let ns := normalizeNamespaceIdentity settings.host name
  if ns = [] then none
  else if ns ≠ settings.defaultNamespaceIdentity ∧ settings.isSafeRouteNamespace ns = false then none
  else some ns

def accept (settings : Settings) (touch : Touch) : Option Accepted := do
  let name ← validateNamespace settings touch.name
  let nowIso ← toISOString touch.time
  return { name, nowIso, touch }

def createdRecord (settings : Settings) (accepted : Accepted) : NamespaceRecord where
  name := accepted.name
  identityToken := namespaceIdentityToken settings.host accepted.name
  kind := accepted.touch.namespaceKind.getD (settings.inferKind accepted.name)
  createdAt := accepted.nowIso
  lastReadAt := none
  lastWriteAt := none
  lastMaintenanceAt := SortedMap.empty
  storageDir := accepted.touch.storageDir.val
  discoveredBy := accepted.touch.discoveredBy.getD
    (match accepted.touch.kind with
    | .register => .config
    | .maintenance _ => .scan
    | .read => .read
    | .write => .write)

/-- A write upgrades a record that was registered from the configuration. -/
def upgraded (kind : TouchKind) (source : NamespaceDiscoverySource) : NamespaceDiscoverySource :=
  if kind = .write ∧ source = .config then .write else source

def touchFields (kind : TouchKind) (nowIso : JsString) (record : NamespaceRecord) : NamespaceRecord :=
  match kind with
  | .read => { record with lastReadAt := some nowIso }
  | .write => { record with lastWriteAt := some nowIso }
  | .maintenance jobName => { record with lastMaintenanceAt := record.lastMaintenanceAt.set jobName nowIso }
  | .register => record

/-- The known record with its new root, kind and source, or a new one. -/
def touchedRecord (settings : Settings) (existing : Option NamespaceRecord) (accepted : Accepted) : NamespaceRecord :=
  match existing with
  | none => createdRecord settings accepted
  | some record =>
    { record with
      storageDir := accepted.touch.storageDir.val
      kind := accepted.touch.namespaceKind.getD record.kind
      discoveredBy := upgraded accepted.touch.kind record.discoveredBy }

def touchRecord (settings : Settings) (existing : Option NamespaceRecord) (accepted : Accepted) : NamespaceRecord :=
  touchFields accepted.touch.kind accepted.nowIso (touchedRecord settings existing accepted)

/-- A namespace that the configuration names, or whose root the scan has found. -/
structure Root where
  name : JsString
  storageDir : StorageDir
  kind : NamespaceKind
  discoveredBy : NamespaceDiscoverySource
  deriving DecidableEq

/-- A rebuild: the roots in the order in which they are recorded, and where the root of another namespace turns out to be alive
when its row is about to be purged. -/
structure Rebuild where
  roots : List Root
  live : JsString → Option StorageDir
  time : Int

def mergeForRebuild (prior : Option NamespaceRecord) (fresh : NamespaceRecord) : NamespaceRecord :=
  match prior with
  | none => fresh
  | some prior =>
    { fresh with
      createdAt := prior.createdAt
      discoveredBy := prior.discoveredBy
      lastReadAt := prior.lastReadAt.or fresh.lastReadAt
      lastWriteAt := prior.lastWriteAt.or fresh.lastWriteAt
      lastMaintenanceAt := if prior.lastMaintenanceAt.entries = [] then fresh.lastMaintenanceAt else prior.lastMaintenanceAt }

def rootRecord (settings : Settings) (existing : Records) (nowIso : JsString) (root : Root) : NamespaceRecord :=
  let name := normalizeNamespaceIdentity settings.host root.name
  mergeForRebuild (existing.lookup name)
    { name
      identityToken := namespaceIdentityToken settings.host name
      kind := root.kind
      createdAt := nowIso
      lastReadAt := none
      lastWriteAt := none
      lastMaintenanceAt := SortedMap.empty
      storageDir := root.storageDir.val
      discoveredBy := root.discoveredBy }

/-- One configured or scanned namespace is recorded, with what was known of it. -/
def recordRoot (settings : Settings) (existing : Records) (nowIso : JsString) (rebuilt : Records) (root : Root) : Records :=
  let name := normalizeNamespaceIdentity settings.host root.name
  if name = [] then rebuilt else rebuilt.set name (rootRecord settings existing nowIso root)

def rebuiltRecords (settings : Settings) (existing : Records) (nowIso : JsString) (roots : List Root) : Records :=
  roots.foldl (recordRoot settings existing nowIso) OrderedMap.empty

/-- The namespace that already owns a storage root. -/
def owningNamespace (settings : Settings) (rebuilt : Records) (name : JsString) (safeDir : JsString) :
    Option NamespaceRecord :=
  (rebuilt.entries.find? fun entry =>
    entry.1 ≠ name ∧ settings.resolvePath entry.2.storageDir = settings.resolvePath safeDir).map Prod.snd

/-- One row of the log that was read under the lock: it gives its newer touch fields, or is kept because its root is alive, or
is purged. -/
def finishRow (settings : Settings) (live : JsString → Option StorageDir) (rebuilt : Records) (fresh : NamespaceRecord) :
    Records :=
  match rebuilt.lookup fresh.name with
  | some current => rebuilt.set fresh.name (mergeNewerTouchFields settings.host current fresh)
  | none =>
    if fresh.name ≠ settings.defaultNamespaceIdentity ∧ settings.isSafeRouteNamespace fresh.name = false then rebuilt
    else
      match live fresh.name with
      | none => rebuilt
      | some safeDir =>
        match owningNamespace settings rebuilt fresh.name safeDir.val with
        | some owner => rebuilt.set owner.name (mergeNewerTouchFields settings.host owner fresh)
        | none =>
          rebuilt.set fresh.name
            { fresh with
              storageDir := safeDir.val
              identityToken := namespaceIdentityToken settings.host fresh.name }

def finishRecords (settings : Settings) (live : JsString → Option StorageDir) (rebuilt latest : Records) : Records :=
  (values latest).foldl (finishRow settings live) rebuilt

def recordLe (host : Host) (first second : NamespaceRecord) : Bool :=
  if host.tables.localeLe first.name second.name && host.tables.localeLe second.name first.name then
    host.tables.localeLe first.identityToken second.identityToken
  else host.tables.localeLe first.name second.name

/-- The records that a rebuild writes, in their order. -/
def finishRebuild (settings : Settings) (live : JsString → Option StorageDir) (rebuilt latest : Records) :
    List NamespaceRecord :=
  (values (finishRecords settings live rebuilt latest)).insertionSort fun first second =>
    recordLe settings.host first second = true

variable {settings : Settings} {existing rebuilt latest : Records} {record fresh : NamespaceRecord} {accepted : Accepted}
variable {live : JsString → Option StorageDir} {nowIso : JsString}

theorem dated_empty (host : Host) : Dated host SortedMap.empty := nofun

theorem valid_toISOString {time : Int} (written : toISOString time = some nowIso) (host : Host) :
    isValidIsoTimestamp host nowIso = true := by
  rw [isValidIsoTimestamp, dateParse, getTime_toISOString host.otherDate written]
  rfl

theorem toISOString_ne_nil {time : Int} (written : toISOString time = some nowIso) : nowIso ≠ [] := by
  rintro rfl
  unfold toISOString at written
  split_ifs at written
  have length := congrArg List.length (some.inj written)
  rw [fieldsText, List.length_append, length_afterYear] at length
  simp at length

structure Proper (settings : Settings) (accepted : Accepted) : Prop where
  normal : normalizeNamespaceIdentity settings.host accepted.name = accepted.name
  named : accepted.name ≠ []
  some : accepted.nowIso ≠ []
  valid : isValidIsoTimestamp settings.host accepted.nowIso = true

theorem proper_accept (normalizes : Normalizes settings.host) {touch : Touch} (passed : accept settings touch = some accepted) :
    Proper settings accepted := by
  unfold accept at passed
  simp only [bind_eq_bind, bind_eq_some_iff, pure_def] at passed
  obtain ⟨name, valid, nowIso, written, whole⟩ := passed
  cases some.inj whole
  unfold validateNamespace at valid
  dsimp only at valid
  split_ifs at valid with empty
  cases valid
  exact ⟨normalizes _, empty, toISOString_ne_nil written, valid_toISOString written _⟩

theorem canonical_touchedRecord {existing : Option NamespaceRecord} (proper : Proper settings accepted)
    (known : ∀ record ∈ existing, Canonical settings.host record) :
    Canonical settings.host (touchedRecord settings existing accepted) := by
  cases existing with
  | none =>
    exact ⟨proper.normal, proper.named, rfl, accepted.touch.storageDir.property, ⟨proper.some, proper.valid⟩, nofun, nofun,
      dated_empty _⟩
  | some record =>
    have before := known record rfl
    exact ⟨before.normal, before.named, before.token, accepted.touch.storageDir.property, before.dated, before.read,
      before.write, before.jobs⟩

theorem canonical_touchFields {kind : TouchKind} (canonical : Canonical settings.host record)
    (valid : isValidIsoTimestamp settings.host nowIso = true)
    (plain : (touchFields kind nowIso record).lastMaintenanceAt.lookup protoKey = none) :
    Canonical settings.host (touchFields kind nowIso record) := by
  cases kind with
  | read => exact { canonical with read := by rintro _ ⟨⟩; exact valid }
  | write => exact { canonical with write := by rintro _ ⟨⟩; exact valid }
  | register => exact canonical
  | maintenance jobName =>
    have other : jobName ≠ protoKey := by
      rintro rfl
      simp [touchFields, SortedMap.lookup_set] at plain
    exact { canonical with jobs := Dated.set canonical.jobs other valid }

theorem canonical_touchRecord {existing : Option NamespaceRecord} (proper : Proper settings accepted)
    (known : ∀ record ∈ existing, Canonical settings.host record)
    (plain : (touchRecord settings existing accepted).lastMaintenanceAt.lookup protoKey = none) :
    Canonical settings.host (touchRecord settings existing accepted) :=
  canonical_touchFields (canonical_touchedRecord proper known) proper.valid plain

theorem name_mergeForRebuild (prior : Option NamespaceRecord) (fresh : NamespaceRecord) :
    (mergeForRebuild prior fresh).name = fresh.name := by
  cases prior <;> rfl

theorem canonical_mergeForRebuild {prior : Option NamespaceRecord} (canonical : Canonical settings.host fresh)
    (known : ∀ record ∈ prior, Canonical settings.host record) : Canonical settings.host (mergeForRebuild prior fresh) := by
  cases prior with
  | none => exact canonical
  | some prior =>
    have before := known prior rfl
    refine { canonical with dated := before.dated, read := ?_, write := ?_, jobs := ?_ }
    · intro time later
      rcases or_eq_some_iff.mp later with held | ⟨_, held⟩
      · exact before.read time held
      · exact canonical.read time held
    · intro time later
      rcases or_eq_some_iff.mp later with held | ⟨_, held⟩
      · exact before.write time held
      · exact canonical.write time held
    · unfold mergeForRebuild
      dsimp only
      split_ifs
      · exact canonical.jobs
      · exact before.jobs

section

variable (normalizes : Normalizes settings.host) (sane : Sane settings.host existing)
  (dated : nowIso ≠ [] ∧ isValidIsoTimestamp settings.host nowIso = true)
include normalizes sane dated

theorem sane_recordRoot (root : Root) (before : Sane settings.host rebuilt) : Sane settings.host (recordRoot settings existing nowIso rebuilt root) := by
  unfold recordRoot
  dsimp only
  split_ifs with empty
  · exact before
  · have same : (rootRecord settings existing nowIso root).name = normalizeNamespaceIdentity settings.host root.name :=
      name_mergeForRebuild _ _
    rw [← same]
    apply before.set
    apply canonical_mergeForRebuild
    · exact ⟨normalizes _, empty, rfl, root.storageDir.property, dated, nofun, nofun, dated_empty _⟩
    · exact fun record held => (sane _ record held).2

theorem sane_rebuiltRecords (roots : List Root) : Sane settings.host (rebuiltRecords settings existing nowIso roots) := by
  have steps : ∀ (roots : List Root) (rebuilt : Records), Sane settings.host rebuilt →
      Sane settings.host (roots.foldl (recordRoot settings existing nowIso) rebuilt) := by
    intro roots
    induction roots with
    | nil => exact fun _ sane => sane
    | cons root roots ih => exact fun rebuilt before => ih _ (sane_recordRoot normalizes sane dated root before)
  exact steps roots _ sane_empty

end

theorem owningNamespace_mem {name safeDir : JsString} {owner : NamespaceRecord}
    (owned : owningNamespace settings rebuilt name safeDir = some owner) : owner ∈ values rebuilt := by
  obtain ⟨entry, found, rfl⟩ := map_eq_some_iff.mp owned
  exact List.mem_map_of_mem (List.mem_of_find?_eq_some found)

theorem sane_finishRow (sane : Sane settings.host rebuilt) (canonical : Canonical settings.host fresh) :
    Sane settings.host (finishRow settings live rebuilt fresh) := by
  unfold finishRow
  split
  · rename_i current held
    obtain ⟨same, before⟩ := sane _ _ held
    rw [← same]
    have merged : Canonical settings.host (mergeNewerTouchFields settings.host current fresh) := before.merge canonical
    exact sane.set merged
  · split_ifs
    · exact sane
    · split
      · exact sane
      · rename_i safeDir _
        split
        · rename_i owner owned
          have before := (sane.of_mem_values (owningNamespace_mem owned)).2
          have merged : Canonical settings.host (mergeNewerTouchFields settings.host owner fresh) := before.merge canonical
          exact sane.set merged
        · have kept : Canonical settings.host { fresh with
              storageDir := safeDir.val
              identityToken := namespaceIdentityToken settings.host fresh.name } :=
            { canonical with token := rfl, stored := safeDir.property }
          exact sane.set kept

theorem sane_finishRecords (sane : Sane settings.host rebuilt) (saneLatest : Sane settings.host latest) :
    Sane settings.host (finishRecords settings live rebuilt latest) := by
  have steps : ∀ (rows : List NamespaceRecord) (rebuilt : Records), (∀ row ∈ rows, Canonical settings.host row) →
      Sane settings.host rebuilt → Sane settings.host (rows.foldl (finishRow settings live) rebuilt) := by
    intro rows
    induction rows with
    | nil => exact fun _ _ sane => sane
    | cons row rows ih =>
      intro rebuilt canonical before
      exact ih _ (fun other member => canonical other (List.mem_cons_of_mem _ member))
        (sane_finishRow before (canonical row List.mem_cons_self))
  exact steps _ _ (fun row member => (saneLatest.of_mem_values member).2) sane

theorem finishRebuild_writes (sane : Sane settings.host rebuilt) (saneLatest : Sane settings.host latest) :
    (∀ record ∈ finishRebuild settings live rebuilt latest, Canonical settings.host record) ∧
      ((finishRebuild settings live rebuilt latest).map NamespaceRecord.name).Nodup := by
  have whole : Sane settings.host (finishRecords settings live rebuilt latest) := sane_finishRecords sane saneLatest
  have sorted : (finishRebuild settings live rebuilt latest).Perm (values (finishRecords settings live rebuilt latest)) :=
    List.perm_insertionSort _ _
  refine ⟨fun record member => (whole.of_mem_values (sorted.subset member)).2, ?_⟩
  apply (sorted.map NamespaceRecord.name).nodup_iff.mpr
  rw [whole.names_values]
  exact (finishRecords settings live rebuilt latest).keysNodup

end Remnic.Catalog.Operations
