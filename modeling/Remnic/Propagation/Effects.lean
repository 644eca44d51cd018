import Remnic.Propagation.Plans

/-! Every plan is one of a few changes of one job's logical state, or a prune. -/

namespace Remnic.Propagation.Effects
open Library Text.CodeUnits Queue Workers Plans List Bool

variable {Event : Type} {env : QueueEnv Event} {world : World Event} {move : Move Event} {files : QueueFiles Event}
  {job current : DependencyPropagationJob Event} {entry : JobEntry Event} {path : QueuePath} {jobId : JsString}
  {status : JobStatus}

/-- What `validateJob` asks of the fields that name a job, which no plan changes. -/
structure Named (env : QueueEnv Event) (job : DependencyPropagationJob Event) : Prop where
  jobId : job.jobId ≠ []
  namespaceName : job.namespaceName ≠ []
  sourceId : job.sourceId ≠ []
  event : env.isPropagationEvent job.event = true
  sameId : job.jobId = env.eventJobId job.event
  sameNamespace : job.namespaceName = env.namespaceScope job.event
  sameSource : job.sourceId = env.sourceId job.event
  fingerprint : job.preparedReplacementFingerprint ≠ some []

/-- What `validateJob` asks of the other fields. -/
structure Recorded (job : DependencyPropagationJob Event) : Prop where
  plain : ∀ reservationId ∈ job.reservationIds, trim reservationId ≠ []
  once : job.reservationIds.Nodup
  counted : job.reservations = job.reservationIds.length
  retryable : job.status = .retryable → job.nextAttemptAt ≠ none
  leased : job.status = .leased → job.leaseOwner ≠ none ∧ job.leaseExpiresAt ≠ none

theorem validateJob_iff : validateJob env status job = true ↔ job.status = status ∧ Named env job ∧ Recorded job := by
  constructor
  · intro valid
    unfold validateJob at valid
    simp only [and_eq_true, decide_eq_true_eq, all_eq_true, not_eq_true', and_eq_false_iff,
      decide_eq_false_iff_not, Option.isNone_eq_false_iff, or_eq_false_iff] at valid
    obtain ⟨⟨⟨⟨⟨⟨⟨⟨⟨⟨⟨⟨⟨id, namespaceName⟩, source⟩, event⟩, sameId⟩, sameNamespace⟩, sameSource⟩, same⟩, plain⟩, once⟩, counted⟩,
      fingerprint⟩, retryable⟩, leased⟩ := valid
    refine ⟨same, ⟨id, namespaceName, source, event, sameId, sameNamespace, sameSource, fingerprint⟩,
      ⟨fun value member => plain value member, once, counted, fun waits => ?_, fun holds => ?_⟩⟩
    · exact Option.isSome_iff_ne_none.mp (retryable.resolve_left (not_not.mpr waits))
    · have both := leased.resolve_left (not_not.mpr holds)
      exact ⟨Option.isSome_iff_ne_none.mp both.1, Option.isSome_iff_ne_none.mp both.2⟩
  · intro facts
    obtain ⟨same, named, recorded⟩ := facts
    unfold validateJob
    simp only [and_eq_true, decide_eq_true_eq, all_eq_true, not_eq_true', and_eq_false_iff,
      decide_eq_false_iff_not, Option.isNone_eq_false_iff, or_eq_false_iff]
    refine ⟨⟨⟨⟨⟨⟨⟨⟨⟨⟨⟨⟨⟨named.jobId, named.namespaceName⟩, named.sourceId⟩, named.event⟩, named.sameId⟩, named.sameNamespace⟩,
      named.sameSource⟩, same⟩, fun value member => recorded.plain value member⟩, recorded.once⟩, recorded.counted⟩,
      named.fingerprint⟩, ?_⟩, ?_⟩
    · by_cases waits : job.status = .retryable
      · exact .inr (Option.isSome_iff_ne_none.mpr (recorded.retryable waits))
      · exact .inl waits
    · by_cases holds : job.status = .leased
      · obtain ⟨owner, expires⟩ := recorded.leased holds
        exact .inr ⟨Option.isSome_iff_ne_none.mpr owner, Option.isSome_iff_ne_none.mpr expires⟩
      · exact .inl holds

theorem Named.congr (named : Named env current) (id : job.jobId = current.jobId)
    (namespaceName : job.namespaceName = current.namespaceName) (source : job.sourceId = current.sourceId)
    (event : job.event = current.event)
    (fingerprint : job.preparedReplacementFingerprint = current.preparedReplacementFingerprint) : Named env job := by
  obtain ⟨jobId, name, sourceId, sound, sameId, sameNamespace, sameSource, print⟩ := named
  exact ⟨id ▸ jobId, namespaceName ▸ name, source ▸ sourceId, event ▸ sound, by rw [id, event, sameId],
    by rw [namespaceName, event, sameNamespace], by rw [source, event, sameSource], fingerprint ▸ print⟩

def OwnerOf (env : QueueEnv Event) (drawn : Nat) (owner : JsString) : Prop :=
  ∃ holder, owner = holder ++ unit 0x3A :: env.randomUUID drawn

variable {now : Int} {ids : List JsString} {reservationId : JsString} (worker : Worker) (drawn : Nat)

theorem ownerOf_delivery : OwnerOf env drawn (deliveryOwner worker (env.randomUUID drawn)) := by
  refine ⟨worker.workerId, ?_⟩
  unfold deliveryOwner
  rw [append_assoc]
  rfl

theorem ownerOf_recovery : OwnerOf env drawn (recoveryOwner worker (env.randomUUID drawn)) := by
  refine ⟨worker.workerId ++ text ":recovery", ?_⟩
  unfold recoveryOwner
  rw [append_assoc, append_assoc]
  rfl

def lastPart (owner : JsString) : JsString := (owner.reverse.takeWhile (· ≠ unit 0x3A)).reverse

theorem lastPart_append (holder : JsString) {last : JsString} (plain : unit 0x3A ∉ last) :
    lastPart (holder ++ unit 0x3A :: last) = last := by
  unfold lastPart
  rw [reverse_append, reverse_cons, append_assoc, takeWhile_append_of_pos, singleton_append,
    takeWhile_cons_of_neg, append_nil, reverse_reverse]
  · simp
  · intro unit_ member
    exact decide_eq_true fun same => plain (same ▸ mem_reverse.mp member)

theorem draw_of_owner {first second : Nat} {owner : JsString} (made : OwnerOf env first owner)
    (also : OwnerOf env second owner) : first = second := by
  obtain ⟨holder, shape⟩ := made
  obtain ⟨other, same⟩ := also
  have last := lastPart_append holder (env.uuidWithoutColon first)
  rw [← shape, same, lastPart_append other (env.uuidWithoutColon second)] at last
  exact (env.uuidInjective last).symm

/-- A reservation id that was drawn in an earlier move, or is this one's. -/
def Drawn (env : QueueEnv Event) (drawn : Nat) (reservationId : JsString) : Prop :=
  ∃ earlier < drawn, reservationId = env.randomUUID earlier

theorem Drawn.mono {drawn : Nat} (drawnBefore : Drawn env drawn reservationId) : Drawn env (drawn + 1) reservationId := by
  obtain ⟨earlier, below, same⟩ := drawnBefore
  exact ⟨earlier, by omega, same⟩

theorem drawn_now (env : QueueEnv Event) (drawn : Nat) : Drawn env (drawn + 1) (env.randomUUID drawn) :=
  ⟨drawn, by omega, rfl⟩

theorem Drawn.plain {drawn : Nat} (drawnBefore : Drawn env drawn reservationId) : trim reservationId ≠ [] := by
  obtain ⟨earlier, _, same⟩ := drawnBefore
  rw [same]
  exact env.uuidPlain earlier

theorem not_drawn_now (env : QueueEnv Event) (drawn : Nat) : ¬Drawn env drawn (env.randomUUID drawn) := by
  intro drawnBefore
  obtain ⟨earlier, below, same⟩ := drawnBefore
  have := env.uuidInjective same
  omega

def Reads (env : QueueEnv Event) (files : QueueFiles Event) (path : QueuePath) (job : DependencyPropagationJob Event) : Prop :=
  files.lookup path = some job ∧ validateJob env path.1 job = true

/-- What holds of the files of every reachable world, whatever its crashes. -/
structure Sound (env : QueueEnv Event) (world : World Event) : Prop where
  placed : ∀ path job, world.files.lookup path = some job → job.jobId = path.2
  ranked : ∀ first second, ∀ job other, Reads env world.files first job → Reads env world.files second other →
    first.2 = second.2 → job.revision = other.revision → first = second
  drawn : ∀ path job, world.files.lookup path = some job → ∀ reservationId ∈ job.reservationIds,
    Drawn env world.drawn reservationId

/-- Where a lease comes from: it was the job's before, or its owner is drawn now. -/
def Leases (env : QueueEnv Event) (drawn : Nat) (current next : DependencyPropagationJob Event) : Prop :=
  next.status = .leased → (current.status = .leased ∧ next.leaseOwner = current.leaseOwner) ∨
    ∃ owner, next.leaseOwner = some owner ∧ OwnerOf env drawn owner

structure Succeeds (env : QueueEnv Event) (world : World Event) (entry : JobEntry Event)
    (next : DependencyPropagationJob Event) : Prop where
  found : logicalEntry env world.files next.jobId = some entry
  unsettled : entry.job.status ≠ .completed ∧ entry.job.status ≠ .deadLetter
  valid : validateJob env next.status next = true
  revision : next.revision = entry.job.revision + 1
  drawn : ∀ reservationId ∈ next.reservationIds, Drawn env (world.drawn + 1) reservationId
  leases : Leases env world.drawn entry.job next

inductive Effect (env : QueueEnv Event) (world : World Event) : List (FileOp Event) → Prop where
  | idle : Effect env world []
  | creates (job : DependencyPropagationJob Event) (absent : logicalEntry env world.files job.jobId = none)
      (drawn : ∀ reservationId ∈ job.reservationIds, Drawn env (world.drawn + 1) reservationId) :
      Effect env world [.write (.prepared, job.jobId) job]
  | rewrites (entry : JobEntry Event) (job : DependencyPropagationJob Event)
      (found : logicalEntry env world.files job.jobId = some entry) (prepared : entry.job.status = .prepared)
      (valid : validateJob env .prepared job = true) (revision : job.revision = entry.job.revision)
      (drawn : ∀ reservationId ∈ job.reservationIds, Drawn env (world.drawn + 1) reservationId) :
      Effect env world [.write (.prepared, job.jobId) job]
  | moves (entry : JobEntry Event) (next : DependencyPropagationJob Event) (succeeds : Succeeds env world entry next)
      (paths : List QueuePath) (tolerant : Bool)
      (others : ∀ path ∈ paths, path ≠ (next.status, next.jobId) ∧ path.2 = next.jobId)
      (covers : entry.path ≠ (next.status, next.jobId) → entry.path ∈ paths) :
      Effect env world (.write (next.status, next.jobId) next :: paths.map fun path => .unlink path tolerant)

section Operations

variable (sound : Sound env world)
include sound

section

variable (found : logicalEntry env world.files jobId = some entry)
include found

theorem Sound.logical_path : entry.path = (entry.job.status, jobId) := by
  have logical := logical_of_entry found
  rw [logical.status, ← logical.named, sound.placed _ _ logical.held]

theorem Sound.logical_drawn :
    ∀ reservationId ∈ entry.job.reservationIds, Drawn env world.drawn reservationId :=
  sound.drawn entry.path entry.job (logical_of_entry found).held

theorem effect_transition (now : Int) (status : JobStatus) (patched : DependencyPropagationJob Event)
    (sameId : patched.jobId = entry.job.jobId) (sameRevision : patched.revision = entry.job.revision)
    (unsettled : entry.job.status ≠ .completed ∧ entry.job.status ≠ .deadLetter) (named : Named env patched)
    (recorded : Recorded { patched with status := status, updatedAt := now, revision := patched.revision + 1 })
    (drawn : ∀ reservationId ∈ patched.reservationIds, Drawn env world.drawn reservationId)
    (leases : Leases env world.drawn entry.job { patched with status := status }) :
    Effect env world (transitionUnlocked now (matching env world.files jobId) status patched).ops := by
  have logical := logical_of_entry found
  have sameJob : patched.jobId = jobId := sameId.trans logical.named
  unfold transitionUnlocked
  have shape (entries : List (JobEntry Event)) (tolerant : Bool) :
      (entries.map fun other => (.unlink other.path tolerant : FileOp Event)) =
        (entries.map fun other => other.path).map fun path => .unlink path tolerant := by
    rw [map_map]
    rfl
  dsimp only
  rw [shape]
  refine .moves entry { patched with status := status, updatedAt := now, revision := patched.revision + 1 }
    ⟨by rw [sameJob]; exact found, unsettled, ?_, ?_, fun id member => (drawn id member).mono, leases⟩ _ status.terminal ?_ ?_
  · exact validateJob_iff.mpr ⟨rfl, named.congr rfl rfl rfl rfl rfl, recorded⟩
  · exact congrArg (· + 1) sameRevision
  · intro path member
    obtain ⟨other, inside, same⟩ := mem_map.mp member
    obtain ⟨seen, apart⟩ := mem_filter.mp inside
    obtain ⟨⟨held, _⟩, called⟩ := mem_matching.mp seen
    rw [← same]
    refine ⟨of_decide_eq_true apart, ?_⟩
    rw [← sound.placed _ _ held, called, sameJob]
  · intro apart
    refine mem_map.mpr ⟨entry, mem_filter.mpr ⟨?_, decide_eq_true apart⟩, rfl⟩
    exact mem_matching.mpr ⟨⟨logical.held, logical.valid⟩, logical.named⟩

end

end Operations

theorem Recorded.kept (recorded : Recorded current) (ids : job.reservationIds = current.reservationIds)
    (count : job.reservations = current.reservations) (retryable : job.status = .retryable → job.nextAttemptAt ≠ none)
    (leased : job.status = .leased → job.leaseOwner ≠ none ∧ job.leaseExpiresAt ≠ none) : Recorded job :=
  ⟨ids ▸ recorded.plain, ids ▸ recorded.once, by rw [count, ids, recorded.counted], retryable, leased⟩

theorem recorded_reserved (prepared : current.status = .prepared) (plain : ∀ id ∈ ids, trim id ≠ []) (once : ids.Nodup) :
    Recorded (reserved now ids current) :=
  ⟨plain, once, rfl, fun same => (by cases prepared.symm.trans same), fun same => (by cases prepared.symm.trans same)⟩

theorem Logical.facts (found : logicalEntry env files jobId = some entry) : Named env entry.job ∧ Recorded entry.job :=
  ((validateJob_iff).mp (logical_of_entry found).valid).2

theorem tokenStands_facts {token : PreparationToken} (stands : ¬(!tokenStands token current) = true) :
    current.status = .prepared ∧ token.reservationId ∈ current.reservationIds := by
  have facts : tokenStands token current = true := by simpa using stands
  unfold tokenStands at facts
  rw [and_eq_true, and_eq_true, decide_eq_true_eq] at facts
  exact ⟨facts.1.1, contains_iff_mem.mp facts.2⟩

theorem leaseStands_facts {claimed : DependencyPropagationJob Event} (stands : ¬(!leaseStands now claimed current) = true) :
    current.status = .leased ∧ current.leaseOwner = claimed.leaseOwner := by
  have facts : leaseStands now claimed current = true := by simpa using stands
  unfold leaseStands at facts
  rw [and_eq_true, and_eq_true, decide_eq_true_eq, decide_eq_true_eq] at facts
  exact facts.1

theorem unsettled_of_claimable (due : claimable now current = true) : current.status ≠ .completed ∧ current.status ≠ .deadLetter := by
  unfold claimable expiredLease at due
  constructor <;> intro same <;> rw [same] at due <;> simp at due

theorem length_filter_ne {id : JsString} (once : ids.Nodup) (member : id ∈ ids) :
    (ids.filter fun other => other ≠ id).length = ids.length - 1 := by
  have erased : ids.erase id = ids.filter fun other => other ≠ id := by
    rw [once.erase_eq_filter]
    congr 1
    funext other
    by_cases same : other = id
    · simp [same]
    · simp [same, bne, beq_eq_false_iff_ne]
  rw [← erased, length_erase_of_mem member]

section Deeds

variable (sound : Sound env world) (clock : Nat → Int)
include sound

theorem effect_reserved (found : logicalEntry env world.files jobId = some entry) (prepared : entry.job.status = .prepared)
    (now : Int) {ids : List JsString} (drawn : ∀ id ∈ ids, Drawn env (world.drawn + 1) id) (once : ids.Nodup) :
    Effect env world [.write entry.path (reserved now ids entry.job)] := by
  have logical := logical_of_entry found
  have named := (Logical.facts found).1
  have valid : validateJob env .prepared (reserved now ids entry.job) = true :=
    validateJob_iff.mpr ⟨prepared, named.congr rfl rfl rfl rfl rfl,
      recorded_reserved prepared (fun id member => (drawn id member).plain) once⟩
  rw [sound.logical_path found, prepared, ← logical.named]
  refine .rewrites entry (reserved now ids entry.job) ?_ prepared valid rfl drawn
  exact (congrArg (logicalEntry env world.files) logical.named).trans found

theorem effect_reopened (found : logicalEntry env world.files jobId = some entry) (canceled : entry.job.status = .canceled)
    (now : Int) : Effect env world
      [.write (.prepared, jobId) (reopened now (env.randomUUID world.drawn) entry.job), .unlink entry.path false] := by
  have logical := logical_of_entry found
  obtain ⟨named, recorded⟩ := Logical.facts found
  have path : entry.path = (.canceled, jobId) := by rw [sound.logical_path found, canceled]
  rw [← logical.named]
  have fresh : Recorded (reopened now (env.randomUUID world.drawn) entry.job) := by
    refine ⟨fun id member => ?_, nodup_singleton _, rfl, nofun, nofun⟩
    rw [mem_singleton.mp member]
    exact env.uuidPlain world.drawn
  refine .moves entry (reopened now (env.randomUUID world.drawn) entry.job) ⟨?_, ?_, ?_, rfl, ?_, nofun⟩
    [entry.path] false ?_ fun _ => mem_singleton_self _
  · exact (congrArg (logicalEntry env world.files) logical.named).trans found
  · rw [canceled]
    exact ⟨nofun, nofun⟩
  · exact validateJob_iff.mpr ⟨rfl, named.congr rfl rfl rfl rfl rfl, fresh⟩
  · intro id member
    exact mem_singleton.mp member ▸ drawn_now env world.drawn
  · intro other member
    rw [mem_singleton.mp member, path]
    exact ⟨fun same => (by cases congrArg Prod.fst same), logical.named.symm⟩

variable (event : Event) (token : PreparationToken) (worker : Worker) (claimed scanned : DependencyPropagationJob Event)

theorem effect_prepare (fingerprint : Option JsString) :
    Effect env world (prepare env clock event (env.randomUUID world.drawn) fingerprint world.files).ops := by
  unfold prepare
  dsimp only
  split
  next => exact .idle
  next propagation =>
    split
    next absent =>
      refine .creates (newJob env (clock 0) (env.canonicalEvent event) (env.randomUUID world.drawn) fingerprint) absent ?_
      intro id member
      exact mem_singleton.mp member ▸ drawn_now env world.drawn
    next existing found =>
      split
      next canceled => exact effect_reopened sound found canceled _
      next =>
        split
        next prepared =>
          refine effect_reserved sound found prepared _ ?_ ?_
          · intro id member
            rcases mem_append.mp member with old | new
            · exact (sound.logical_drawn found id old).mono
            · exact mem_singleton.mp new ▸ drawn_now env world.drawn
          · refine nodup_append'.mpr ⟨(Logical.facts found).2.once, nodup_singleton _, ?_⟩
            intro id old new
            exact not_drawn_now env world.drawn (mem_singleton.mp new ▸ sound.logical_drawn found id old)
        next => exact .idle

theorem effect_prepareReadback {reservationId : JsString} (drawn : Drawn env world.drawn reservationId) :
    Effect env world (prepareReadback env clock event reservationId world.files).ops := by
  unfold prepareReadback
  split
  next => exact .idle
  next =>
    split
    next => exact .idle
    next existing found =>
      split
      next => exact .idle
      next fresh =>
        obtain ⟨prepared, unknown⟩ := not_or.mp fresh
        refine effect_reserved sound found (not_not.mp prepared) _ ?_ ?_
        · intro id member
          rcases mem_append.mp member with old | new
          · exact (sound.logical_drawn found id old).mono
          · exact mem_singleton.mp new ▸ drawn.mono
        · refine nodup_append'.mpr ⟨(Logical.facts found).2.once, nodup_singleton _, ?_⟩
          intro id old new
          exact unknown (mem_singleton.mp new ▸ old)

theorem effect_afterMutation : Effect env world (afterMutation env clock token world.files).ops := by
  unfold afterMutation
  refine plan_of_current (motive := fun plan => Effect env world plan.ops) .idle fun current found stands => ?_
  obtain ⟨named, recorded⟩ := Logical.facts found
  obtain ⟨prepared, reserves⟩ := tokenStands_facts stands
  have counted : current.job.reservationIds.length - 1 =
      (current.job.reservationIds.filter fun id => id ≠ token.reservationId).length :=
    (length_filter_ne recorded.once reserves).symm
  refine effect_transition sound found _ _ _ rfl rfl ?_ (named.congr rfl rfl rfl rfl rfl) ?_ ?_ nofun
  · rw [prepared]
    exact ⟨nofun, nofun⟩
  · exact ⟨fun id member => recorded.plain id (mem_of_mem_filter member), recorded.once.filter _, counted, nofun, nofun⟩
  · intro id member
    exact sound.logical_drawn found id (mem_of_mem_filter member)

theorem effect_cancel : Effect env world (cancel env clock token world.files).ops := by
  unfold cancel
  refine plan_of_current (motive := fun plan => Effect env world plan.ops) .idle fun current found stands => ?_
  obtain ⟨named, recorded⟩ := Logical.facts found
  obtain ⟨prepared, _⟩ := tokenStands_facts stands
  split
  next =>
    refine effect_reserved sound found prepared _ (fun id member => ?_) (recorded.once.filter _)
    exact (sound.logical_drawn found id (mem_of_mem_filter member)).mono
  next =>
    refine effect_transition sound found _ _ _ rfl rfl ?_ (named.congr rfl rfl rfl rfl rfl) ?_ nofun nofun
    · rw [prepared]
      exact ⟨nofun, nofun⟩
    · exact ⟨nofun, nodup_nil, rfl, nofun, nofun⟩

section

variable (found : logicalEntry env world.files jobId = some entry)
include found

theorem effect_kept (now : Int) (status : JobStatus) (patched : DependencyPropagationJob Event)
    (sameId : patched.jobId = entry.job.jobId) (sameRevision : patched.revision = entry.job.revision)
    (unsettled : entry.job.status ≠ .completed ∧ entry.job.status ≠ .deadLetter) (named : Named env patched)
    (ids : patched.reservationIds = entry.job.reservationIds) (count : patched.reservations = entry.job.reservations)
    (retryable : status = .retryable → patched.nextAttemptAt ≠ none)
    (leased : status = .leased → patched.leaseOwner ≠ none ∧ patched.leaseExpiresAt ≠ none)
    (leases : Leases env world.drawn entry.job { patched with status := status }) :
    Effect env world (transitionUnlocked now (matching env world.files jobId) status patched).ops :=
  effect_transition sound found now status patched sameId sameRevision unsettled named
    ((Logical.facts found).2.kept ids count retryable leased)
    (fun id member => sound.logical_drawn found id (ids ▸ member)) leases

theorem effect_leased (unsettled : entry.job.status ≠ .completed ∧ entry.job.status ≠ .deadLetter) {owner : JsString}
    (drawn : OwnerOf env world.drawn owner) (now expiresAt : Int) (attempts : Nat) :
    Effect env world (transitionUnlocked now (matching env world.files jobId) .leased
      (leased owner expiresAt { entry.job with attempts := attempts })).ops :=
  effect_kept sound found now .leased _ rfl rfl unsettled ((Logical.facts found).1.congr rfl rfl rfl rfl rfl) rfl rfl nofun
    (fun _ => ⟨nofun, nofun⟩) fun _ => .inr ⟨owner, rfl, drawn⟩

theorem effect_renewed (held : entry.job.status = .leased) (now expiresAt : Int) :
    Effect env world (transitionUnlocked now (matching env world.files jobId) .leased
      { entry.job with leaseExpiresAt := some expiresAt }).ops := by
  obtain ⟨named, recorded⟩ := Logical.facts found
  refine effect_kept sound found now .leased _ rfl rfl ?_ (named.congr rfl rfl rfl rfl rfl) rfl rfl nofun
    (fun _ => ⟨(recorded.leased held).1, nofun⟩) fun _ => .inl ⟨held, rfl⟩
  rw [held]
  exact ⟨nofun, nofun⟩

end

theorem effect_claimPrepared :
    Effect env world (claimPrepared env worker clock (env.randomUUID world.drawn) scanned world.files).ops := by
  unfold claimPrepared
  refine plan_of_current (motive := fun plan => Effect env world plan.ops) .idle fun current found same => ?_
  have prepared := not_not.mp (not_or.mp same).1
  refine effect_leased sound found ?_ (ownerOf_recovery worker world.drawn) _ _ current.job.attempts
  rw [prepared]
  exact ⟨nofun, nofun⟩

theorem effect_claimExpiredRecoveryLease :
    Effect env world (claimExpiredRecoveryLease env worker clock (env.randomUUID world.drawn) scanned world.files).ops := by
  unfold claimExpiredRecoveryLease
  split
  next => exact .idle
  next =>
    refine plan_of_current (motive := fun plan => Effect env world plan.ops) .idle fun current found same => ?_
    split
    next => exact .idle
    next =>
      refine effect_leased sound found ?_ (ownerOf_recovery worker world.drawn) _ _ current.job.attempts
      rw [not_not.mp (not_or.mp same).1]
      exact ⟨nofun, nofun⟩

theorem effect_claimNext : Effect env world (claimNext env worker clock (env.randomUUID world.drawn) world.files).ops := by
  unfold claimNext
  split
  next => exact .idle
  next current chosen =>
    obtain ⟨jobId, _, given⟩ := exists_of_findSome?_eq_some chosen
    obtain ⟨found, due⟩ := Option.filter_eq_some_iff.mp given
    have logical := logical_of_entry found
    rw [logical.named]
    refine effect_leased sound found ?_ (ownerOf_delivery worker world.drawn) _ _ (current.job.attempts + 1)
    exact unsettled_of_claimable due

theorem effect_renewAfterWrite : Effect env world (renewAfterWrite env worker clock claimed world.files).ops := by
  unfold renewAfterWrite
  refine plan_of_current (motive := fun plan => Effect env world plan.ops) .idle fun current found same => ?_
  exact effect_renewed sound found (not_not.mp (not_or.mp same).1) _ _

theorem effect_renewLease : Effect env world (renewLease env worker clock claimed world.files).ops := by
  unfold renewLease
  refine plan_of_current (motive := fun plan => Effect env world plan.ops) .idle fun current found stands => ?_
  exact effect_renewed sound found (leaseStands_facts stands).1 _ _

theorem effect_moveToReady : Effect env world (moveToReady env clock claimed world.files).ops := by
  unfold moveToReady
  refine plan_of_current (motive := fun plan => Effect env world plan.ops) .idle fun current found stands => ?_
  refine effect_kept sound found _ .ready _ rfl rfl ?_ ((Logical.facts found).1.congr rfl rfl rfl rfl rfl) rfl rfl
    nofun nofun nofun
  rw [(leaseStands_facts stands).1]
  exact ⟨nofun, nofun⟩

theorem effect_retainPreparedJob (error : JsString) :
    Effect env world (retainPreparedJob env worker clock claimed error world.files).ops := by
  unfold retainPreparedJob
  refine plan_of_current (motive := fun plan => Effect env world plan.ops) .idle fun current found same => ?_
  have held := not_not.mp (not_or.mp same).1
  dsimp only
  have unsettled : current.job.status ≠ .completed ∧ current.job.status ≠ .deadLetter := by
    rw [held]
    exact ⟨nofun, nofun⟩
  have named := (Logical.facts found).1
  split
  next => exact effect_kept sound found _ .deadLetter _ rfl rfl unsettled (named.congr rfl rfl rfl rfl rfl) rfl rfl nofun nofun nofun
  next => exact effect_kept sound found _ .prepared _ rfl rfl unsettled (named.congr rfl rfl rfl rfl rfl) rfl rfl nofun nofun nofun

theorem effect_finishAttempt (error : Option JsString) :
    Effect env world (finishAttempt env worker clock claimed error world.files).ops := by
  unfold finishAttempt
  refine plan_of_current (motive := fun plan => Effect env world plan.ops) .idle fun current found stands => ?_
  have unsettled : current.job.status ≠ .completed ∧ current.job.status ≠ .deadLetter := by
    rw [(leaseStands_facts stands).1]
    exact ⟨nofun, nofun⟩
  have named := (Logical.facts found).1
  dsimp only
  split
  next => exact effect_kept sound found _ .completed _ rfl rfl unsettled (named.congr rfl rfl rfl rfl rfl) rfl rfl nofun nofun nofun
  next =>
    split
    next => exact effect_kept sound found _ .deadLetter _ rfl rfl unsettled (named.congr rfl rfl rfl rfl rfl) rfl rfl nofun nofun nofun
    next =>
      exact effect_kept sound found _ .retryable _ rfl rfl unsettled (named.congr rfl rfl rfl rfl rfl) rfl rfl
        (fun _ => nofun) nofun nofun

end Deeds

theorem effect_plan (sound : Sound env world) (allowed : Allowed env world move)
    (deed : ∀ status cleared, move.deed ≠ .pruneTerminalStatus status cleared) :
    Effect env world (planOf env world move).ops := by
  unfold planOf
  cases shape : move.deed with
  | prepare event fingerprint => exact effect_prepare sound _ event fingerprint
  | prepareReadback event reservationId =>
    unfold Allowed at allowed
    rw [shape] at allowed
    exact effect_prepareReadback sound _ event allowed
  | afterMutation token => exact effect_afterMutation sound _ token
  | cancel token => exact effect_cancel sound _ token
  | deferPrepared token => exact .idle
  | claimPrepared scanned => exact effect_claimPrepared sound _ _ scanned
  | claimExpiredRecoveryLease scanned => exact effect_claimExpiredRecoveryLease sound _ _ scanned
  | replayPrimaryMutation claimed outcome =>
    dsimp only
    split
    next => exact effect_renewAfterWrite sound _ _ claimed
    next => exact .idle
  | moveToReady claimed => exact effect_moveToReady sound _ claimed
  | retainPreparedJob claimed error => exact effect_retainPreparedJob sound _ _ claimed error
  | claimNext => exact effect_claimNext sound _ _
  | dependentWrite claimed throws =>
    dsimp only
    split
    next => exact effect_renewAfterWrite sound _ _ claimed
    next => exact .idle
  | renewLease claimed => exact effect_renewLease sound _ _ claimed
  | finishAttempt claimed error => exact effect_finishAttempt sound _ _ claimed error
  | pruneTerminalStatus status cleared => exact absurd shape (deed status cleared)

end Remnic.Propagation.Effects
