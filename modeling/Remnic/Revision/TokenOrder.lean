import Remnic.Revision.Transaction

/-!
The committed revision tokens of a path over whole runs: a token is later than
all tokens committed before it exactly when its reservation starts from the last
committed token or reads a clock that is past it.
-/

namespace Remnic.Revision.TokenOrder

open Library.Transition Text.CodeUnits Text.IsoDate Shard Transaction List

variable (host : Host) (path shardPath : JsString)

inductive Action where
  | begin (now : Int) (expectedContent : Option Bytes)
  | writeLanded (token : JsString)
  | finalize (token : JsString) (outcome : Finalization) (later : Option Bytes)
  | reconcile (fileWriteLanded : Bool) (later : Option Bytes)
  | recover (onlyWithWriteEvidence : Bool) (later : Option Bytes)
  | remove
  | writeFile (content : Option Bytes)
  deriving DecidableEq, Repr

/-- What is durable for the path, and the tokens committed so far, the last one first. -/
structure Receipts where
  target : Target
  committed : List JsString

def initial (legacy : Except JsString (Option LegacyEntry)) (file : Option Bytes) : Receipts :=
  ⟨⟨none, legacy, file⟩, []⟩

def call (target : Target) : Action → Except JsString Change
  | .begin now expectedContent => (beginRevisionTransaction host path target now expectedContent).map .mark
  | .writeLanded token => recordPendingWriteLanded host path target token
  | .finalize token outcome later => finalizeRevisionTransaction host path target token outcome later
  | .reconcile fileWriteLanded later => (reconcilePendingRevision host path target fileWriteLanded later).map (·.2)
  | .recover onlyWithWriteEvidence later =>
    (recoverPendingRevision host path shardPath target onlyWithWriteEvidence later).map (·.2)
  | .remove => (removeRevisionShard path target).map (·.2)
  | .writeFile _ => .ok .keep

def durableChange (target : Target) (action : Action) : Change :=
  match call host path shardPath target action with
  | .ok change => change
  | .error _ => .keep

def Change.published : Change → List JsString
  | .publish revision _ _ => [revision]
  | .keep | .mark _ | .restore _ | .unlink => []

def fileAfter (target : Target) : Action → Option Bytes
  | .writeFile content => content
  | _ => target.file

def step (state : Receipts) (action : Action) : Option Receipts :=
  let change := durableChange host path shardPath state.target action
  some
    { target := { state.target with
        shard := change.apply path state.target.shard
        file := fileAfter state.target action }
      committed := Change.published change ++ state.committed }

/-- A token whose time value is greater than that of another. -/
def Later (newer older : JsString) : Prop :=
  ∃ newerTime olderTime, getTime host.otherTime newer = some newerTime ∧
    getTime host.otherTime older = some olderTime ∧ olderTime < newerTime

/-- The time value of the token a reservation starts from. -/
def standingTime (target : Target) : Option Int :=
  match readStandingRevisionStrict target.shard target.legacy path with
  | .ok (some receipt) => getTime host.otherTime receipt.revision
  | .ok none | .error _ => none

/-- A clock reading past a time, or a standing token that is not before it. -/
def Ahead (state : Receipts) (now time : Int) : Prop :=
  time < now ∨ ∃ standing ∈ standingTime host path state.target, time ≤ standing

/-- Every reservation reads a clock past the last committed token or starts from a
token that is not before it. -/
def ClockAhead (state : Receipts) : Action → Prop
  | .begin now _ => ∀ last ∈ state.committed.head?, ∀ time ∈ getTime host.otherTime last, Ahead host path state now time
  | _ => True

theorem Later.trans {host : Host} {newest middle oldest : JsString} (first : Later host newest middle)
    (second : Later host middle oldest) : Later host newest oldest := by
  obtain ⟨newestTime, middleTime, newestRead, middleRead, newer⟩ := first
  obtain ⟨middleTime', oldestTime, middleRead', oldestRead, older⟩ := second
  have same : middleTime = middleTime' := Option.some.inj (middleRead.symm.trans middleRead')
  exact ⟨newestTime, oldestTime, newestRead, oldestRead, by omega⟩

inductive Called (target : Target) : Action → Change → Prop where
  | keep {action : Action} : Called target action .keep
  | begin {now : Int} {expectedContent : Option Bytes} (marker : PendingMarker) :
      beginRevisionTransaction host path target now expectedContent = .ok marker →
        Called target (.begin now expectedContent) (.mark marker)
  | landed {action : Action} (marker landed : PendingMarker) :
      readShardView target.shard path = .ok (.pending marker) → landed.revision = marker.revision →
        Called target action (.mark landed)
  | publish {action : Action} (marker : PendingMarker) (digest fingerprint : Option Digest) :
      readShardView target.shard path = .ok (.pending marker) →
        Called target action (.publish marker.revision digest fingerprint)
  | restore {action : Action} (previous : Option JsString) : Called target action (.restore previous)
  | unlink {action : Action} : Called target action .unlink

variable {host : Host} {path shardPath : JsString}

variable {Result : Type} {now : Int} {token : JsString} {marker : PendingMarker} {state : Receipts} {later : Option Bytes}
  {target : Target} {change : Change} {action : Action} {expectedContent : Option Bytes}

theorem bind_view {rest : ShardView → Except JsString Result} {result : Result}
    (done : (readShardView target.shard path >>= rest) = .ok result) :
    ∃ view, readShardView target.shard path = .ok view ∧ rest view = .ok result := by
  cases read : readShardView target.shard path with
  | error reason =>
    rw [read] at done
    contradiction
  | ok view =>
    rw [read] at done
    exact ⟨view, rfl, done⟩

theorem called_writeLanded (done : recordPendingWriteLanded host path target token = .ok change) :
    Called host path target (.writeLanded token) change := by
  obtain ⟨view, read, rest⟩ := bind_view done
  cases view with
  | pending marker =>
    simp only at rest
    repeat' split at rest
    all_goals cases rest
    · exact .keep
    · exact .landed marker _ read rfl
  | missing | foreign | committed => contradiction

theorem called_finalize {outcome : Finalization}
    (done : finalizeRevisionTransaction host path target token outcome later = .ok change) :
    Called host path target (.finalize token outcome later) change := by
  obtain ⟨view, read, rest⟩ := bind_view done
  cases view with
  | pending marker =>
    simp only at rest
    repeat' split at rest
    all_goals cases rest
    · exact .publish marker _ _ read
    · exact .restore _
  | committed receipt =>
    cases outcome with
    | abort => contradiction
    | commit =>
      simp only at rest
      split at rest <;> cases rest
      exact .keep
  | missing =>
    cases outcome with
    | commit => contradiction
    | abort =>
      cases rest
      exact .keep
  | foreign => contradiction

theorem called_reconcile {fileWriteLanded : Bool} {result : Reconciliation × Change}
    (done : reconcilePendingRevision host path target fileWriteLanded later = .ok result) :
    Called host path target (.reconcile fileWriteLanded later) result.2 := by
  obtain ⟨view, read, rest⟩ := bind_view done
  cases view with
  | pending marker =>
    simp only at rest
    repeat' split at rest
    all_goals cases rest
    · exact .publish marker _ _ read
    · exact .restore _
  | missing | foreign | committed =>
    cases rest
    exact .keep

theorem called_recover {onlyWithWriteEvidence : Bool} {result : Recovery × Change}
    (done : recoverPendingRevision host path shardPath target onlyWithWriteEvidence later = .ok result) :
    Called host path target (.recover onlyWithWriteEvidence later) result.2 := by
  obtain ⟨view, read, rest⟩ := bind_view done
  cases view with
  | pending marker =>
    simp only at rest
    repeat' split at rest
    all_goals cases rest
    · exact .keep
    · exact .publish marker _ _ read
    · exact .restore _
  | missing | foreign | committed =>
    cases rest
    exact .keep

theorem called_remove {result : Removal × Change} (done : removeRevisionShard path target = .ok result) :
    Called host path target .remove result.2 := by
  obtain ⟨view, read, rest⟩ := bind_view done
  cases view with
  | committed receipt =>
    simp only at rest
    split at rest <;> cases rest
    · exact .keep
    · exact .unlink
  | missing | foreign | pending =>
    cases rest
    exact .keep

theorem map_ok {Error Image : Type} {f : Result → Image} {outcome : Except Error Result} {image : Image}
    (done : outcome.map f = .ok image) : ∃ result, outcome = .ok result ∧ f result = image := by
  cases outcome with
  | error reason => contradiction
  | ok result => exact ⟨result, rfl, Except.ok.inj done⟩

theorem called_durableChange (target : Target) (action : Action) :
    Called host path target action (durableChange host path shardPath target action) := by
  unfold durableChange
  split
  next change done =>
    cases action with
    | begin now expectedContent =>
      obtain ⟨marker, reserved, same⟩ := map_ok done
      exact same ▸ .begin marker reserved
    | writeLanded token => exact called_writeLanded done
    | finalize token outcome later => exact called_finalize done
    | reconcile fileWriteLanded later =>
      obtain ⟨result, ended, same⟩ := map_ok done
      exact same ▸ called_reconcile ended
    | recover onlyWithWriteEvidence later =>
      obtain ⟨result, ended, same⟩ := map_ok done
      exact same ▸ called_recover ended
    | remove =>
      obtain ⟨result, ended, same⟩ := map_ok done
      exact same ▸ called_remove ended
    | writeFile content =>
      cases done
      exact .keep
  next => exact .keep

theorem getTime_reserved (reserved : beginRevisionTransaction host path target now expectedContent = .ok marker) :
    getTime host.otherTime marker.revision = some (nextTime (standingTime host path target) now) := by
  unfold beginRevisionTransaction at reserved
  unfold standingTime
  cases standing : readStandingRevisionStrict target.shard target.legacy path with
  | error reason =>
    rw [standing] at reserved
    contradiction
  | ok receipt =>
    simp only [standing, bind, Except.bind] at reserved
    split at reserved
    next => contradiction
    next next minted =>
      cases reserved
      have time := getTime_nextCasRevisionIso minted
      cases receipt <;> exact time

/-- The committed tokens have times and increase; a reserved token is past them all. -/
structure Increasing (host : Host) (path : JsString) (state : Receipts) : Prop where
  timed : ∀ token ∈ state.committed, ∃ time, getTime host.otherTime token = some time
  sorted : state.committed.Pairwise (Later host)
  reservedTimed : ∀ marker, readShardView state.target.shard path = .ok (.pending marker) →
    ∃ time, getTime host.otherTime marker.revision = some time
  reserved : ∀ marker, readShardView state.target.shard path = .ok (.pending marker) →
    ∀ older ∈ state.committed, Later host marker.revision older

theorem nextTime_past {standing : Option Int} {now time : Int} :
    time < nextTime standing now ↔ time < now ∨ ∃ ms ∈ standing, time ≤ ms := by
  cases standing with
  | none => simp [nextTime]
  | some standingMs =>
    simp only [nextTime, Option.mem_def, Option.some.injEq, exists_eq_left']
    split <;> omega

theorem reserved_later_iff (increasing : Increasing host path state)
    (reserved : beginRevisionTransaction host path state.target now expectedContent = .ok marker) :
    (∀ older ∈ state.committed, Later host marker.revision older) ↔
      ClockAhead host path state (.begin now expectedContent) := by
  have time := getTime_reserved reserved
  constructor
  · intro later last first lastTime lastRead
    obtain ⟨newerTime, olderTime, newerRead, olderRead, past⟩ := later last (mem_of_mem_head? first)
    rw [time] at newerRead
    rw [lastRead] at olderRead
    cases newerRead
    cases olderRead
    exact nextTime_past.mp past
  · intro ahead
    cases tokens : state.committed with
    | nil => exact fun older member => absurd member not_mem_nil
    | cons last earlier =>
      have member : last ∈ state.committed := tokens ▸ mem_cons_self
      obtain ⟨lastTime, lastRead⟩ := increasing.timed last member
      have past := nextTime_past.mpr (ahead last (by rw [tokens]; rfl) lastTime lastRead)
      have first : Later host marker.revision last := ⟨_, _, time, lastRead, past⟩
      have sorted := increasing.sorted
      rw [tokens] at sorted
      intro older listed
      rcases mem_cons.mp listed with same | before
      · exact same ▸ first
      · exact first.trans (rel_of_pairwise_cons sorted before)

theorem increasing_change (increasing : Increasing host path state) (ahead : ClockAhead host path state action)
    (called : Called host path state.target action change) (file : Option Bytes) :
    Increasing host path
      ⟨{ state.target with shard := change.apply path state.target.shard, file },
        Change.published change ++ state.committed⟩ := by
  obtain ⟨timed, sorted, reservedTimed, reserved⟩ := increasing
  cases called with
  | keep => exact ⟨timed, sorted, reservedTimed, reserved⟩
  | begin marker begun =>
    refine ⟨timed, sorted, fun seen read => ?_, fun seen read => ?_⟩
    · rw [pendingFields_revision read]
      exact ⟨_, getTime_reserved begun⟩
    · rw [pendingFields_revision read]
      exact (reserved_later_iff ⟨timed, sorted, reservedTimed, reserved⟩ begun).mpr ahead
  | landed marker landed read same =>
    refine ⟨timed, sorted, fun seen readAgain => ?_, fun seen readAgain => ?_⟩
    · rw [pendingFields_revision readAgain, same]
      exact reservedTimed marker read
    · rw [pendingFields_revision readAgain, same]
      exact reserved marker read
  | publish marker digest fingerprint read =>
    have settled (seen : PendingMarker) := committedFields_not_pending path marker.revision (some digest)
      (some fingerprint) seen
    refine ⟨?_, pairwise_cons.mpr ⟨reserved marker read, sorted⟩, fun seen again => absurd again (settled seen),
      fun seen again => absurd again (settled seen)⟩
    intro token member
    rcases mem_cons.mp member with same | before
    · exact same ▸ reservedTimed marker read
    · exact timed token before
  | restore previous =>
    have settled (seen : PendingMarker) :
        readShardView ((Change.restore previous).apply path state.target.shard) path ≠ .ok (.pending seen) := by
      cases previous with
      | none => exact nofun
      | some revision => exact committedFields_not_pending path revision none none seen
    exact ⟨timed, sorted, fun seen again => absurd again (settled seen), fun seen again => absurd again (settled seen)⟩
  | unlink => exact ⟨timed, sorted, nofun, nofun⟩

theorem increasing_step {next : Receipts} (increasing : Increasing host path state) (ahead : ClockAhead host path state action)
    (stepped : step host path shardPath state action = some next) : Increasing host path next := by
  cases stepped
  exact increasing_change increasing ahead (called_durableChange state.target action) _

theorem increasing_reaches {legacy : Except JsString (Option LegacyEntry)} {file : Option Bytes}
    (reached : Reaches (step host path shardPath) (ClockAhead host path) (initial legacy file) state) :
    Increasing host path state := by
  apply reached.invariant (Increasing host path)
  · exact ⟨nofun, Pairwise.nil, nofun, nofun⟩
  · exact fun _ _ _ increasing ahead stepped => increasing_step increasing ahead stepped

/-- In every run whose reservations meet the condition the committed tokens strictly
increase, and the next reservation is past them all exactly if it meets it too. -/
theorem committed_increasing {legacy : Except JsString (Option LegacyEntry)} {file : Option Bytes} {state : Receipts}
    (reached : Reaches (step host path shardPath) (ClockAhead host path) (initial legacy file) state) :
    state.committed.Pairwise (Later host) ∧ ∀ now expectedContent marker,
      beginRevisionTransaction host path state.target now expectedContent = .ok marker →
        ((∀ older ∈ state.committed, Later host marker.revision older) ↔
          ClockAhead host path state (.begin now expectedContent)) :=
  have increasing := increasing_reaches reached
  ⟨increasing.sorted, fun _ _ _ reserved => reserved_later_iff increasing reserved⟩

instance (state : Receipts) (action : Action) : Decidable (ClockAhead host path state action) := by
  cases action <;> unfold ClockAhead Ahead <;> infer_instance

/-- A host whose hash is never asked here: the memory file stays absent. -/
theorem sampleDigest_isSha256Hex : isSha256Hex (List.replicate 64 (unit 0x30)) = true := by decide

def sampleHost : Host where
  sha256 _ := ⟨List.replicate 64 (unit 0x30), sampleDigest_isSha256Hex⟩
  toText bytes := bytes.map fun byte => unit byte.val
  toBytes value := value.map fun c => Fin.ofNat 256 c.val
  otherTime _ := none

def samplePath : JsString := text "facts/a.md"

def firstToken : JsString := text "2026-01-01T00:00:00.000Z"

def secondToken : JsString := text "2026-01-01T00:00:00.001Z"

def twoCommits : List Action :=
  [.begin 1767225600000 none, .finalize firstToken .commit none, .begin 1767225600000 none,
    .finalize secondToken .commit none]

theorem committed_increasing_twice : ∃ state,
    Reaches (step sampleHost samplePath []) (ClockAhead sampleHost samplePath) (initial (.ok none) none) state ∧
      state.committed = [secondToken, firstToken] ∧ state.committed.Pairwise (Later sampleHost) := by
  refine exists_reached (fun state => state.committed = [secondToken, firstToken]) twoCommits (by decide +kernel) ?_
  intro state reached tokens
  exact ⟨tokens, (committed_increasing reached).1⟩

/-- The memory is deleted and its path used again within the same millisecond. -/
def reusedPath : List Action :=
  [.begin 1767225600000 none, .finalize firstToken .commit none, .remove, .begin 1767225600000 none,
    .finalize firstToken .commit none]

theorem removed_token_reused :
    ∃ state, run (step sampleHost samplePath []) reusedPath (initial (.ok none) none) = some state ∧
      state.committed = [firstToken, firstToken] ∧ ¬ state.committed.Pairwise (Later sampleHost) := by
  refine exists_run (fun state => state.committed = [firstToken, firstToken]) (by decide +kernel) ?_
  intro state same
  refine ⟨same, fun sorted => ?_⟩
  rw [same] at sorted
  obtain ⟨newerTime, olderTime, newerRead, olderRead, past⟩ :=
    rel_of_pairwise_cons sorted (mem_singleton_self firstToken)
  rw [newerRead] at olderRead
  cases olderRead
  omega

end Remnic.Revision.TokenOrder
