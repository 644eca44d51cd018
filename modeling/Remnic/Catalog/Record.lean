import Remnic.Library.SortedMap
import Remnic.Text.IsoDate
import Remnic.Text.JsonText

/-!
A row of the namespace catalog: how its touch fields are merged, how it is written, and
what is read back from its text.
-/

namespace Remnic.Catalog.Record

open Text.CodeUnits Text.IsoDate Text.JsonText Library List

inductive NamespaceKind where
  | default
  | shared
  | project
  | branch
  | teamProject
  | explicit
  deriving DecidableEq, Repr

inductive NamespaceDiscoverySource where
  | config
  | write
  | read
  | scan
  | migration
  deriving DecidableEq, Repr

def NamespaceKind.word : NamespaceKind → JsString
  | .default => text "default"
  | .shared => text "shared"
  | .project => text "project"
  | .branch => text "branch"
  | .teamProject => text "team-project"
  | .explicit => text "explicit"

def NamespaceDiscoverySource.word : NamespaceDiscoverySource → JsString
  | .config => text "config"
  | .write => text "write"
  | .read => text "read"
  | .scan => text "scan"
  | .migration => text "migration"

def isNamespaceKind (value : JsString) : Option NamespaceKind :=
  [.default, .shared, .project, .branch, .teamProject, .explicit].find? fun kind : NamespaceKind => kind.word = value

def isNamespaceDiscoverySource (value : JsString) : Option NamespaceDiscoverySource :=
  [.config, .write, .read, .scan, .migration].find? fun source : NamespaceDiscoverySource => source.word = value

/-- What the host supplies: its Unicode tables, and `Date.parse` on the texts that `toISOString` does not write. -/
structure Host where
  tables : UnicodeTables
  otherDate : JsString → Option Int

/-- The timestamps of the maintenance jobs. No job stands for `undefined`; the order of the keys is never read. -/
abbrev Jobs := SortedMap JsString JsString

/-- A record; `name` is the field `namespace`. -/
structure NamespaceRecord where
  name : JsString
  identityToken : JsString
  kind : NamespaceKind
  createdAt : JsString
  lastReadAt : Option JsString
  lastWriteAt : Option JsString
  lastMaintenanceAt : Jobs
  storageDir : JsString
  discoveredBy : NamespaceDiscoverySource
  deriving DecidableEq

def normalizeNamespaceIdentity (host : Host) (name : JsString) : JsString := host.tables.normalizeNfc (trim name)

def pointBytes (point : Nat) : List Nat :=
  if point < 0x80 then [point]
  else if point < 0x800 then [0xC0 + point / 0x40, 0x80 + point % 0x40]
  else if point < 0x10000 then [0xE0 + point / 0x1000, 0x80 + point / 0x40 % 0x40, 0x80 + point % 0x40]
  else [0xF0 + point / 0x40000, 0x80 + point / 0x1000 % 0x40, 0x80 + point / 0x40 % 0x40, 0x80 + point % 0x40]

def unitBytes (c : CodeUnit) : List Nat :=
  if isHighSurrogate c || isLowSurrogate c then pointBytes 0xFFFD else pointBytes c.val

/-- `TextEncoder`: an unpaired surrogate becomes the replacement character. -/
def utf8 : JsString → List Nat
  | [] => []
  | [c] => unitBytes c
  | c :: next :: rest =>
    if isHighSurrogate c && isLowSurrogate next then
      pointBytes (0x10000 + (c.val - 0xD800) * 0x400 + (next.val - 0xDC00)) ++ utf8 rest
    else unitBytes c ++ utf8 (next :: rest)

def byteLength (value : JsString) : Nat := (utf8 value).length

def namespaceIdentityToken (host : Host) (name : JsString) : JsString :=
  let hex := (utf8 (normalizeNamespaceIdentity host name)).flatMap fun byte => [hexDigit (byte / 16), hexDigit (byte % 16)]
  text "ns-" ++ if hex = [] then text "default" else hex

def dateParse (host : Host) (value : JsString) : Option Int := getTime host.otherDate value

def isValidIsoTimestamp (host : Host) (value : JsString) : Bool := (dateParse host value).isSome

def protoKey : JsString := text "__proto__"

/-- `jobs[job] = at` on a plain object: without an own property, `__proto__` takes no string. -/
def assignJob (jobs : Jobs) (job time : JsString) : Jobs :=
  if job = protoKey ∧ jobs.lookup job = none then jobs else jobs.set job time

/-- The members of an object, the last one with each key. -/
def lastMembers : List (JsString × Json) → List (JsString × Json)
  | [] => []
  | member :: members =>
    if member.1 ∈ members.map Prod.fst then lastMembers members else member :: lastMembers members

/-- `Object.entries`, with the indices of an array in decimal. -/
def objectEntries : Json → List (JsString × Json)
  | .object members => lastMembers members
  | .array items => items.zipIdx.map fun item => (text (toString item.2), item.1)
  | _ => []

def coerceJob (host : Host) (jobs : Jobs) (entry : JsString × Json) : Jobs :=
  match entry.2 with
  | .string time => if isValidIsoTimestamp host time then assignJob jobs entry.1 time else jobs
  | _ => jobs

def stringField (value : Json) (key : String) : Option JsString :=
  match value.get (text key) with
  | some (.string field) => some field
  | _ => none

/-- An optional timestamp is left out where it is none. -/
def timestampField (host : Host) (value : Json) (key : String) : Option JsString :=
  (stringField value key).filter (isValidIsoTimestamp host)

def kindField (value : Json) : NamespaceKind := ((stringField value "kind").bind isNamespaceKind).getD .explicit

def discoveredByField (value : Json) : Option NamespaceDiscoverySource :=
  match value.get (text "discoveredBy") with
  | none => some .scan
  | some (.string source) => isNamespaceDiscoverySource source
  | some _ => none

def coerceRecord (host : Host) (value : Json) : Option NamespaceRecord := do
  let raw ← stringField value "namespace"
  let name := normalizeNamespaceIdentity host raw
  guard (name ≠ [])
  let identityToken ← stringField value "identityToken"
  guard (identityToken = namespaceIdentityToken host name)
  let storageDir ← stringField value "storageDir"
  guard (storageDir ≠ [])
  let createdAt ← stringField value "createdAt"
  guard (createdAt ≠ [] ∧ isValidIsoTimestamp host createdAt = true)
  let discoveredBy ← discoveredByField value
  return {
    name, identityToken, kind := kindField value, createdAt, storageDir, discoveredBy
    lastReadAt := timestampField host value "lastReadAt"
    lastWriteAt := timestampField host value "lastWriteAt"
    lastMaintenanceAt :=
      (((value.get (text "lastMaintenanceAt")).map objectEntries).getD []).foldl (coerceJob host) SortedMap.empty }

/-- The later of two optional timestamps; the first where they are equal. -/
def laterIso (host : Host) (first second : Option JsString) : Option JsString :=
  match first.filter (· ≠ []), second.filter (· ≠ []) with
  | none, _ => second
  | some _, none => first
  | some one, some other =>
    match dateParse host one, dateParse host other with
    | none, _ => second
    | some _, none => first
    | some oneMs, some otherMs => if otherMs > oneMs then second else first

/-- A field takes the later timestamp, if there is any. -/
def mergeField (host : Host) (base fresh : Option JsString) : Option JsString :=
  match (laterIso host base fresh).filter (· ≠ []) with
  | some later => some later
  | none => base

def mergeJob (host : Host) (jobs : Jobs) (entry : JsString × JsString) : Jobs :=
  match (laterIso host (jobs.lookup entry.1) (some entry.2)).filter (· ≠ []) with
  | some latest => assignJob jobs entry.1 latest
  | none => jobs

def mergeNewerTouchFields (host : Host) (base fresh : NamespaceRecord) : NamespaceRecord :=
  { base with
    lastReadAt := mergeField host base.lastReadAt fresh.lastReadAt
    lastWriteAt := mergeField host base.lastWriteAt fresh.lastWriteAt
    lastMaintenanceAt := fresh.lastMaintenanceAt.entries.foldl (mergeJob host) base.lastMaintenanceAt }

/-- The jobs as they are written: `sortedJobs[job] = at` on a plain object. -/
def writtenJobs (jobs : Jobs) : List (JsString × JsString) := jobs.entries.filter fun entry => entry.1 ≠ protoKey

/-- The members of a record in the order of their keys, each with its value as text. -/
def recordMembers (record : NamespaceRecord) : List (JsString × JsString) :=
  [(text "createdAt", jsonStringify record.createdAt),
    (text "discoveredBy", jsonStringify record.discoveredBy.word),
    (text "identityToken", jsonStringify record.identityToken),
    (text "kind", jsonStringify record.kind.word)] ++
  (if record.lastMaintenanceAt.entries = [] then []
    else [(text "lastMaintenanceAt",
      objectText ((writtenJobs record.lastMaintenanceAt).map fun entry => (entry.1, jsonStringify entry.2)))]) ++
  record.lastReadAt.toList.map (fun time => (text "lastReadAt", jsonStringify time)) ++
  record.lastWriteAt.toList.map (fun time => (text "lastWriteAt", jsonStringify time)) ++
  [(text "namespace", jsonStringify record.name), (text "storageDir", jsonStringify record.storageDir)]

def serializeRecord (record : NamespaceRecord) : JsString := objectText (recordMembers record)

structure Canonical (host : Host) (record : NamespaceRecord) : Prop where
  normal : normalizeNamespaceIdentity host record.name = record.name
  named : record.name ≠ []
  token : record.identityToken = namespaceIdentityToken host record.name
  stored : record.storageDir ≠ []
  dated : record.createdAt ≠ [] ∧ isValidIsoTimestamp host record.createdAt = true
  read : ∀ time ∈ record.lastReadAt, isValidIsoTimestamp host time = true
  write : ∀ time ∈ record.lastWriteAt, isValidIsoTimestamp host time = true
  jobs : ∀ entry ∈ record.lastMaintenanceAt.entries, entry.1 ≠ protoKey ∧ isValidIsoTimestamp host entry.2 = true

variable {host : Host} {record base fresh : NamespaceRecord}

theorem isNamespaceKind_word (kind : NamespaceKind) : isNamespaceKind kind.word = some kind := by
  cases kind <;> decide

theorem isNamespaceDiscoverySource_word (source : NamespaceDiscoverySource) :
    isNamespaceDiscoverySource source.word = some source := by
  cases source <;> decide

def recordValues (record : NamespaceRecord) : List (JsString × Json × JsString) :=
  [(text "createdAt", .string record.createdAt, jsonStringify record.createdAt),
    (text "discoveredBy", .string record.discoveredBy.word, jsonStringify record.discoveredBy.word),
    (text "identityToken", .string record.identityToken, jsonStringify record.identityToken),
    (text "kind", .string record.kind.word, jsonStringify record.kind.word)] ++
  (if record.lastMaintenanceAt.entries = [] then []
    else [(text "lastMaintenanceAt",
      .object ((writtenJobs record.lastMaintenanceAt).map fun entry => (entry.1, .string entry.2)),
      objectText ((writtenJobs record.lastMaintenanceAt).map fun entry => (entry.1, jsonStringify entry.2)))]) ++
  record.lastReadAt.toList.map (fun time => (text "lastReadAt", .string time, jsonStringify time)) ++
  record.lastWriteAt.toList.map (fun time => (text "lastWriteAt", .string time, jsonStringify time)) ++
  [(text "namespace", .string record.name, jsonStringify record.name),
    (text "storageDir", .string record.storageDir, jsonStringify record.storageDir)]

theorem recordMembers_eq (record : NamespaceRecord) :
    recordMembers record = (recordValues record).map fun member => (member.1, member.2.2) := by
  unfold recordMembers recordValues
  split_ifs <;> simp [Function.comp_def]

/-- What `JSON.parse` gives for the text of a record. -/
def recordJson (record : NamespaceRecord) : Json := .object ((recordValues record).map fun member => (member.1, member.2.1))

theorem reads_jobs (jobs : List (JsString × JsString)) :
    Reads (.object (jobs.map fun entry => (entry.1, .string entry.2)))
      (objectText (jobs.map fun entry => (entry.1, jsonStringify entry.2))) := by
  have reads := reads_object (jobs.map fun entry => (entry.1, Json.string entry.2, jsonStringify entry.2)) (by
    intro member listed
    obtain ⟨entry, _, rfl⟩ := mem_map.mp listed
    exact reads_string entry.2)
  simpa [map_map, Function.comp_def] using reads

theorem reads_recordValues {member : JsString × Json × JsString} (listed : member ∈ recordValues record) :
    Reads member.2.1 member.2.2 := by
  unfold recordValues at listed
  simp only [mem_append, mem_cons, mem_map, not_mem_nil, or_false] at listed
  rcases listed with ((((rfl | rfl | rfl | rfl) | jobs) | ⟨time, _, rfl⟩) | ⟨time, _, rfl⟩) | rfl | rfl
  all_goals first | exact reads_string _ | skip
  split_ifs at jobs
  · cases jobs
  · rw [mem_singleton.mp jobs]
    exact reads_jobs _

theorem parse_serializeRecord (record : NamespaceRecord) : parse (serializeRecord record) = some (recordJson record) := by
  apply parse_of_reads
  rw [serializeRecord, recordMembers_eq]
  exact reads_object (recordValues record) fun member listed => reads_recordValues listed

theorem get_object (members : List (JsString × Json)) (key : JsString) :
    Json.get (.object members) key = (members.reverse.find? fun member => member.1 = key).map Prod.snd := rfl

theorem get_recordJson (record : NamespaceRecord) :
    (recordJson record).get (text "namespace") = some (.string record.name) ∧
      (recordJson record).get (text "storageDir") = some (.string record.storageDir) ∧
      (recordJson record).get (text "createdAt") = some (.string record.createdAt) ∧
      (recordJson record).get (text "identityToken") = some (.string record.identityToken) ∧
      (recordJson record).get (text "kind") = some (.string record.kind.word) ∧
      (recordJson record).get (text "discoveredBy") = some (.string record.discoveredBy.word) ∧
      (recordJson record).get (text "lastReadAt") = record.lastReadAt.map .string ∧
      (recordJson record).get (text "lastWriteAt") = record.lastWriteAt.map .string ∧
      (recordJson record).get (text "lastMaintenanceAt") =
        if record.lastMaintenanceAt.entries = [] then none
        else some (.object ((writtenJobs record.lastMaintenanceAt).map fun entry => (entry.1, .string entry.2))) := by
  simp only [recordJson, get_object, recordValues]
  cases record.lastReadAt <;> cases record.lastWriteAt <;> split_ifs <;> refine ⟨?_, ?_, ?_, ?_, ?_, ?_, ?_, ?_, ?_⟩ <;> rfl

variable {first : Option JsString} {key : String} {time : JsString} {jobs : Jobs} {second : Option JsString}
  {job : JsString}
  {value : Json}

theorem stringField_eq {field : JsString} (found : value.get (text key) = some (.string field)) :
    stringField value key = some field := by
  rw [stringField, found]

theorem timestampField_eq {field : Option JsString} (found : value.get (text key) = field.map .string)
    (valid : ∀ time ∈ field, isValidIsoTimestamp host time = true) : timestampField host value key = field := by
  unfold timestampField stringField
  rw [found]
  cases field with
  | none => rfl
  | some time => exact Option.filter_some_pos (valid time rfl)

theorem lastMembers_eq {members : List (JsString × Json)} (distinct : (members.map Prod.fst).Nodup) :
    lastMembers members = members := by
  induction members with
  | nil => rfl
  | cons member members ih =>
    obtain ⟨fresh, rest⟩ := nodup_cons.mp distinct
    unfold lastMembers
    rw [if_neg fresh, ih rest]

theorem coerceJobs_written (valid : ∀ entry ∈ jobs.entries, entry.1 ≠ protoKey ∧ isValidIsoTimestamp host entry.2 = true) :
    (objectEntries (.object ((writtenJobs jobs).map fun entry => (entry.1, .string entry.2)))).foldl (coerceJob host)
      SortedMap.empty = jobs := by
  have written : writtenJobs jobs = jobs.entries :=
    filter_eq_self.mpr fun entry member => decide_eq_true (valid entry member).1
  have keys : ((jobs.entries.map fun entry => (entry.1, Json.string entry.2)).map Prod.fst).Nodup := by
    rw [map_map]
    exact pairwise_map.mpr (jobs.ascending.imp fun less => ne_of_lt less)
  rw [written, objectEntries, lastMembers_eq keys, foldl_map]
  have steps : ∀ (entries : List (JsString × JsString)) (start : Jobs),
      (∀ entry ∈ entries, entry.1 ≠ protoKey ∧ isValidIsoTimestamp host entry.2 = true) →
        entries.foldl (fun jobs entry => coerceJob host jobs (entry.1, .string entry.2)) start =
          entries.foldl (fun map entry => map.set entry.1 entry.2) start := by
    intro entries
    induction entries with
    | nil => exact fun _ _ => rfl
    | cons entry entries ih =>
      intro start all
      have first := all entry mem_cons_self
      have set : coerceJob host start (entry.1, .string entry.2) = start.set entry.1 entry.2 := by
        simp only [coerceJob, assignJob, first.2, if_true]
        exact if_neg fun proto => first.1 proto.1
      rw [foldl_cons, foldl_cons, set]
      exact ih _ fun other member => all other (mem_cons_of_mem _ member)
  rw [steps jobs.entries SortedMap.empty valid]
  exact SortedMap.ofList_entries jobs

theorem coerceRecord_recordJson (canonical : Canonical host record) : coerceRecord host (recordJson record) = some record := by
  obtain ⟨name, storageDir, createdAt, token, kind, source, read, write, jobs⟩ := get_recordJson record
  have kinds : kindField (recordJson record) = record.kind := by
    rw [kindField, stringField_eq kind, Option.bind_some, isNamespaceKind_word, Option.getD_some]
  have sources : discoveredByField (recordJson record) = some record.discoveredBy := by
    rw [discoveredByField, source]
    exact isNamespaceDiscoverySource_word _
  have maintained : (((recordJson record).get (text "lastMaintenanceAt")).map objectEntries).getD [] =
      objectEntries (.object ((writtenJobs record.lastMaintenanceAt).map fun entry => (entry.1, .string entry.2))) := by
    rw [jobs]
    split_ifs with empty
    · simp [writtenJobs, empty, objectEntries, lastMembers]
    · rfl
  unfold coerceRecord
  rw [stringField_eq name, stringField_eq token, stringField_eq storageDir, stringField_eq createdAt, sources, kinds,
    timestampField_eq read canonical.read, timestampField_eq write canonical.write, maintained,
    coerceJobs_written canonical.jobs]
  simp only [canonical.normal, canonical.token, canonical.stored, canonical.dated, canonical.named, ne_eq, not_false_eq_true,
    and_self, guard_true, Option.pure_def, Option.bind_eq_bind, Option.bind_some]
  rw [← canonical.token]

/-- Normalizing a name twice changes nothing more. -/
def Normalizes (host : Host) : Prop :=
  ∀ name, normalizeNamespaceIdentity host (normalizeNamespaceIdentity host name) = normalizeNamespaceIdentity host name

theorem valid_timestampField (found : time ∈ timestampField host value key) : isValidIsoTimestamp host time = true := by
  obtain ⟨_, valid⟩ := Option.filter_eq_some_iff.mp found
  exact valid

def Dated (host : Host) (jobs : Jobs) : Prop :=
  ∀ entry ∈ jobs.entries, entry.1 ≠ protoKey ∧ isValidIsoTimestamp host entry.2 = true

theorem Dated.set (dated : Dated host jobs) (other : job ≠ protoKey) (valid : isValidIsoTimestamp host time = true) :
    Dated host (jobs.set job time) := by
  intro entry member
  rcases SortedMap.mem_insertEntry member with rfl | before
  · exact ⟨other, valid⟩
  · exact dated entry before

theorem Dated.assignJob (dated : Dated host jobs) (valid : isValidIsoTimestamp host time = true) :
    Dated host (assignJob jobs job time) := by
  unfold Record.assignJob
  split_ifs with proto
  · exact dated
  · apply dated.set _ valid
    intro same
    apply proto
    refine ⟨same, ?_⟩
    cases found : jobs.lookup job with
    | none => rfl
    | some time => exact absurd same (dated _ ((SortedMap.lookup_eq_some_iff jobs job time).mp found)).1

theorem dated_coerceJobs (entries : List (JsString × Json)) {start : Jobs} (dated : Dated host start) :
    Dated host (entries.foldl (coerceJob host) start) := by
  induction entries generalizing start with
  | nil => exact dated
  | cons entry entries ih =>
    apply ih
    unfold coerceJob
    split
    · split_ifs with valid
      · exact dated.assignJob valid
      · exact dated
    · exact dated

theorem canonical_coerceRecord (normalizes : Normalizes host) (coerced : coerceRecord host value = some record) :
    Canonical host record := by
  unfold coerceRecord at coerced
  simp only [Option.bind_eq_bind, Option.bind_eq_some_iff, Option.guard_eq_some', Option.pure_def] at coerced
  obtain ⟨raw, _, _, named, token, _, _, same, storageDir, _, _, stored, createdAt, _, _, dated, source, _, whole⟩ := coerced
  cases Option.some.inj whole
  exact ⟨normalizes raw, named, same, stored, dated, fun time => valid_timestampField, fun time => valid_timestampField,
    dated_coerceJobs _ nofun⟩

theorem laterIso_mem (later : time ∈ laterIso host first second) : time ∈ first ∨ time ∈ second := by
  unfold laterIso at later
  split at later
  · exact .inr later
  · exact .inl later
  · split at later
    · exact .inr later
    · exact .inl later
    · split_ifs at later
      · exact .inr later
      · exact .inl later

theorem mergeField_mem (later : time ∈ mergeField host first second) : time ∈ first ∨ time ∈ second := by
  unfold mergeField at later
  split at later
  · rename_i found latest
    cases later
    exact laterIso_mem (Option.filter_eq_some_iff.mp latest).1
  · exact .inl later

theorem Dated.mergeJob {entry : JsString × JsString} (dated : Dated host jobs) (valid : isValidIsoTimestamp host entry.2 = true) :
    Dated host (mergeJob host jobs entry) := by
  unfold Record.mergeJob
  split
  · rename_i latest found
    apply dated.assignJob
    rcases laterIso_mem (Option.filter_eq_some_iff.mp found).1 with held | given
    · exact (dated _ ((SortedMap.lookup_eq_some_iff jobs entry.1 latest).mp held)).2
    · cases given
      exact valid
  · exact dated

theorem Dated.merge (entries : List (JsString × JsString)) (valid : ∀ entry ∈ entries, isValidIsoTimestamp host entry.2 = true)
    (dated : Dated host jobs) : Dated host (entries.foldl (Record.mergeJob host) jobs) := by
  induction entries generalizing jobs with
  | nil => exact dated
  | cons entry entries ih =>
    exact ih (fun other member => valid other (mem_cons_of_mem _ member))
      (dated.mergeJob (valid entry mem_cons_self))

theorem Canonical.merge (one : Canonical host base) (other : Canonical host fresh) :
    Canonical host (mergeNewerTouchFields host base fresh) where
  normal := one.normal
  named := one.named
  token := one.token
  stored := one.stored
  dated := one.dated
  read time later := (mergeField_mem later).elim (one.read time) (other.read time)
  write time later := (mergeField_mem later).elim (one.write time) (other.write time)
  jobs := Dated.merge _ (fun entry member => (other.jobs entry member).2) one.jobs

theorem printable_serializeRecord (record : NamespaceRecord) : Printable (serializeRecord record) := by
  apply printable_objectText
  intro member listed
  rw [recordMembers_eq] at listed
  obtain ⟨value, found, rfl⟩ := mem_map.mp listed
  unfold recordValues at found
  simp only [mem_append, mem_cons, mem_map, not_mem_nil, or_false] at found
  rcases found with ((((rfl | rfl | rfl | rfl) | jobs) | ⟨time, _, rfl⟩) | ⟨time, _, rfl⟩) | rfl | rfl
  all_goals first | exact printable_jsonStringify _ | skip
  split_ifs at jobs
  · cases jobs
  · rw [mem_singleton.mp jobs]
    apply printable_objectText
    intro entry member
    obtain ⟨job, _, rfl⟩ := mem_map.mp member
    exact printable_jsonStringify _

end Remnic.Catalog.Record
