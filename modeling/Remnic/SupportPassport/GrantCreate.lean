import Remnic.SupportPassport.GrantIndex

/-!
`create`, from the check for a free place to the reconciliation after a lost
lock: what a grant that was handed out has left in the store.
-/

namespace Remnic.SupportPassport.GrantCreate
open Library.Interleaving Library.Interleaving.Contract Text.CodeUnits Grants GrantStore GrantHistory GrantGuard GrantMoves List
open GrantContract GrantReads GrantWrites GrantIndex

variable {host : Host} {w later : World} {process : Nat} {state : GrantState}

/-- The grant has been in an index of its owner, or is no longer active. -/
def Settled (host : Host) (w : World) (state : GrantState) : Prop :=
  Indexed w (ownerHash host state.owner) state.grantId ∨ state.isActive w.now = false

theorem Settled.mono (grown : Grown w later) (settled : Settled host w state) : Settled host later state := by
  refine settled.imp (Indexed.mono grown) fun ended => ?_
  by_contra active
  rw [GrantState.isActive_mono grown.clock (by simpa using active)] at ended
  cases ended

section Reconcile

variable {states : List GrantState}

variable {cutoff : Int} {committed : Created} {remaining : List GrantState} {Value : Type} {item : GrantState}

theorem mem_withCommitted (member : item ∈ withCommitted states state) : item = state ∨ item ∈ states := by
  simp only [withCommitted] at member
  split_ifs at member
  · obtain ⟨other, listed, same⟩ := mem_map.mp member
    split_ifs at same
    · exact .inl same.symm
    · exact .inr (same ▸ listed)
  · rcases mem_append.mp member with listed | own
    · exact .inr listed
    · exact .inl (mem_singleton.mp own)

theorem self_mem_withCommitted (states : List GrantState) (state : GrantState) : state ∈ withCommitted states state := by
  simp only [withCommitted]
  split_ifs with known
  · obtain ⟨other, listed, same⟩ := any_eq_true.mp known
    exact mem_map.mpr ⟨other, listed, if_pos (of_decide_eq_true same)⟩
  · exact mem_append_right _ (mem_singleton_self _)

theorem mem_withCommitted_of_ne (listed : item ∈ states) (differs : item.grantId ≠ state.grantId) :
    item ∈ withCommitted states state := by
  simp only [withCommitted]
  split_ifs
  · exact mem_map.mpr ⟨item, listed, if_neg differs⟩
  · exact mem_append_left _ listed

theorem withCommitted_distinct (distinct : (states.map GrantState.grantId).Nodup) (state : GrantState) :
    ((withCommitted states state).map GrantState.grantId).Nodup := by
  simp only [withCommitted]
  split_ifs with known
  · have same : (states.map fun item => if item.grantId = state.grantId then state else item).map GrantState.grantId =
        states.map GrantState.grantId := by
      rw [map_map]
      apply map_congr_left
      intro item _
      simp only [Function.comp_apply]
      split_ifs with named
      · exact named.symm
      · rfl
    rw [same]
    exact distinct
  · rw [map_append, nodup_append]
    refine ⟨distinct, nodup_singleton _, fun left leftIn right rightIn same => known ?_⟩
    obtain ⟨item, listed, rfl⟩ := mem_map.mp leftIn
    have own : right = state.grantId := by simpa using rightIn
    exact any_eq_true.mpr ⟨item, listed, decide_eq_true (same.trans own)⟩

/-- The states that `reconcileCommittedGrant` goes on with. -/
structure Remaining (host : Host) (process : Nat) (state : GrantState) (w : World) (remaining : List GrantState) : Prop where
  held : w.locks (.owner (ownerHash host state.owner)) = some process
  recorded : ∀ item ∈ remaining, item ∈ history w item.grantId
  enrolled : ∀ item ∈ remaining, Event.enrolled (ownerHash host state.owner) item.grantId ∈ w.log
  distinct : (remaining.map GrantState.grantId).Nodup
  covers : NoCollision host w → ∀ item, ActiveMember w (ownerHash host state.owner) item → item ∈ remaining

theorem Remaining.mono (known : Remaining host process state w remaining) (inv : Invariant host w) (next : Invariant host later)
    (kept : Kept process w later) :
    Remaining host process state later remaining where
  held := kept.held _ known.held
  recorded item member := (kept.history_grows _).subset (known.recorded item member)
  enrolled item member := kept.mem (known.enrolled item member)
  distinct := known.distinct
  covers apart item active := by
    have members := kept.members _ known.held
    have before := inv.active_back next.toRecorded kept.toGrown (members active.listed) active.stored active.active
    exact known.covers (apart.back kept.toGrown) item ⟨members active.listed, before.1, before.2⟩

theorem remaining_all (inv : Invariant host later) (committed : Committed host process later state)
    (held : later.locks (.owner (ownerHash host state.owner)) = some process)
    (heldBefore : w.locks (.owner (ownerHash host state.owner)) = some process)
    (listing : Listing host process state.owner w states later) :
    Remaining host process state later (withCommitted states state) where
  held := held
  recorded item member := by
    rcases mem_withCommitted member with rfl | listed
    · exact committed.recorded
    · exact (listing.owned item listed).2.1
  enrolled item member := by
    rcases mem_withCommitted member with rfl | listed
    · exact committed.enrolled
    · exact (listing.owned item listed).2.2
  distinct := withCommitted_distinct listing.distinct state
  covers apart item active := by
    by_cases named : item.grantId = state.grantId
    · have only := inv.toRecorded.history_eq active.stored (GrantState.isActive_iff.mp active.active).1
      have recorded := committed.recorded
      rw [← named, only] at recorded
      rw [← mem_singleton.mp recorded]
      exact self_mem_withCommitted states state
    · have owned := active_member_owner inv apart active committed.recorded
      exact mem_withCommitted_of_ne (listing.covers heldBefore item active owned) named

theorem Remaining.without (known : Remaining host process state w remaining) (gone : Gone w state.grantId) :
    Remaining host process state w (remaining.filter fun item => decide (item.grantId ≠ state.grantId)) where
  held := known.held
  recorded item member := known.recorded item (mem_filter.mp member).1
  enrolled item member := known.enrolled item (mem_filter.mp member).1
  distinct := (filter_sublist.map GrantState.grantId).nodup known.distinct
  covers apart item active := by
    refine mem_filter.mpr ⟨known.covers apart item active, decide_eq_true fun named => ?_⟩
    have stored := active.stored
    rw [named] at stored
    have since := gone item stored
    rw [(GrantState.isActive_iff.mp active.active).1] at since
    cases since

theorem Remaining.indexable {retained : List GrantState} (known : Remaining host process state w remaining)
    (passed : cutoff ≤ w.now) (retains : Retains remaining cutoff retained maxOwnerGrantHistory) :
    Indexable host process w (ownerHash host state.owner) (retained.map GrantState.grantId) where
  held := known.held
  nodup := retains.nodup known.distinct
  short := by
    rw [length_map]
    exact retains.short
  enrolled grantId member := by
    obtain ⟨item, picked, rfl⟩ := mem_map.mp member
    exact known.enrolled item (retains.subset item picked)
  covers apart item active :=
    mem_map_of_mem (retains.active item (known.covers apart item active) (GrantState.isActive_mono passed active.active))

theorem holds_rewriteIndex (inv : Invariant host w) (known : Remaining host process state w remaining) (passed : cutoff ≤ w.now)
    {last : Store Value} {Returns : Value → World → Prop}
    (ends : ∀ retained later, Retains remaining cutoff retained maxOwnerGrantHistory → Grown w later → Invariant host later →
      (∀ item ∈ retained, Indexed later (ownerHash host state.owner) item.grantId) →
        (grantContract host).Holds process last Returns (fun _ final => Grown w final) later) :
    (grantContract host).Holds process
      (checked (retainedOwnerStates remaining cutoff) >>= fun retained =>
        writeOwnerIndexWhileLocked (ownerHash host state.owner) (retained.map GrantState.grantId) >>= fun _ =>
          removeEachLocked host (remaining.filter fun item => decide (item.grantId ∉ retained.map GrantState.grantId)) >>=
            fun _ => last) Returns (fun _ later => Grown w later) w := by
  refine holds_checked.bind (fun retained first firstInv chosen => ?_) fun _ _ _ relied => relied.toGrown
  obtain ⟨relied, picked⟩ := chosen
  have retains := retainedOwnerStates_ok picked
  have current := known.mono inv firstInv (Kept.of_rely relied)
  refine (holds_writeOwnerIndexWhileLocked firstInv (current.indexable (passed.trans relied.clock) retains)).bind
    (fun _ second _ written => ?_) fun _ _ _ kept => relied.toGrown.trans kept.toGrown
  have grown := relied.toGrown.trans written.1.toGrown
  have spent : AllSpent process second
      (remaining.filter fun item => decide (item.grantId ∉ retained.map GrantState.grantId)) := by
    apply retains.spent (passed.trans grown.clock)
    · exact fun item member => (grown.history_grows _).subset (known.recorded item member)
    · exact fun item member => mem_map_of_mem member
  refine (holds_removeEachLocked _ second spent).bind (fun _ third thirdInv kept => ?_)
    fun _ _ _ kept => grown.trans kept.toGrown
  refine ends retained third retains (grown.trans kept.toGrown) thirdInv fun item member => ?_
  have indexed : Indexed second (ownerHash host state.owner) item.grantId :=
    ⟨_, written.2, mem_map_of_mem member⟩
  exact indexed.mono kept.toGrown

theorem holds_reconcileCommittedGrant (known : Committed host process w committed.state)
    (held : w.locks (.owner (ownerHash host committed.state.owner)) = some process) :
    (grantContract host).Holds process (reconcileCommittedGrant host committed)
      (fun finalized later => Grown w later ∧ finalized = committed ∧ Settled host later committed.state)
      (fun _ later => Grown w later) w := by
  refine (holds_readState _).attempt_bind (fun persisted first _ seen => ?_) fun _ _ _ failed =>
    Holds.throw fun after last _ => (failed.1.trans last).toGrown
  have firstRely := seen.rely
  simp only
  split_ifs with differs
  · exact Holds.throw fun after last _ => (firstRely.trans last).toGrown
  · have heldFirst := (firstRely.locks _).mpr held
    refine (holds_readOwnerMembershipStates committed.state.owner).bind (fun members second secondInv listing => ?_)
      fun _ _ _ relied => (firstRely.trans relied).toGrown
    refine holds_now_then fun cutoff third thirdRely thirdInv passed => ?_
    have relied := (firstRely.trans listing.relied).trans thirdRely
    have here := known.mono relied.toGrown
    have remaining := remaining_all thirdInv here ((relied.locks _).mpr held) heldFirst
      (listing.mono secondInv thirdInv thirdRely)
    by_cases full : ((withCommitted members committed.state).filter (·.isActive cutoff)).length > maxOwnerGrantHistory
    · simp only [full, decide_true, if_true]
      refine (holds_removeLocked here.spent.1 here.spent.2).bind (fun _ fourth fourthInv removed => ?_)
        fun _ _ _ kept => relied.toGrown.trans kept.toGrown
      have without := (remaining.mono thirdInv fourthInv removed.1).without removed.2.1
      refine (holds_rewriteIndex fourthInv without (passed.trans removed.1.clock) ?_).mono (fun _ _ _ done => done)
        fun _ _ _ grown => (relied.toGrown.trans removed.1.toGrown).trans grown
      exact fun retained later _ grown _ _ => Holds.throw fun after last _ => grown.trans last.toGrown
    · simp only [full, decide_false, Bool.false_eq_true, if_false]
      have ended : ∀ retained later, Retains (withCommitted members committed.state) cutoff retained maxOwnerGrantHistory →
          Grown third later → Invariant host later →
          (∀ item ∈ retained, Indexed later (ownerHash host committed.state.owner) item.grantId) →
            (grantContract host).Holds process (pure committed)
              (fun finalized later => Grown w later ∧ finalized = committed ∧ Settled host later committed.state)
              (fun _ final => Grown third final) later := by
        intro retained later retains grown _ indexed
        refine Holds.pure fun after last _ => ⟨(relied.toGrown.trans grown).trans last.toGrown, rfl, ?_⟩
        have settled : Settled host later committed.state := by
          by_cases active : committed.state.isActive cutoff = true
          · exact .inl (indexed _ (retains.active _ (self_mem_withCommitted members committed.state) active))
          · refine .inr ?_
            by_contra still
            exact active (GrantState.isActive_mono (passed.trans grown.clock) (by simpa using still))
        exact settled.mono last.toGrown
      exact (holds_rewriteIndex thirdInv remaining passed ended).mono (fun _ _ _ done => done)
        fun _ _ _ grown => relied.toGrown.trans grown

theorem holds_withOwnerIndexLock {hash : Digest} {task : Store Value} (Known : Value → World → Prop)
    (stable : ∀ value (a b : World), Grown a b → Invariant host a → Invariant host b → Known value a → Known value b)
    (body : ∀ inside, Grown w inside → inside.locks (.owner hash) = some process → Invariant host inside →
      (grantContract host).Holds process task (fun value later => Grown inside later ∧ Known value later)
        (fun _ later => Grown inside later) inside) :
    (grantContract host).Holds process (withOwnerIndexLock hash task) (fun value later => Grown w later ∧ Known value later)
      (fun _ later => Grown w later) w :=
  holds_withExclusiveLock (passing_grown process _) Known (Grown w) stable (fun _ _ passed grown => grown.trans passed)
    (fun _ passed => passed) fun inside enters held inv =>
      have entered := enters _ (passing_grown process _)
      (body inside entered held inv).mono (fun _ _ _ done => done) fun _ _ _ grown => entered.trans grown

theorem holds_reconcileAttempts (attempts : Nat) (w : World) (known : Committed host process w committed.state) :
    (grantContract host).Holds process (reconcileAttempts host committed attempts)
      (fun finalized later => Grown w later ∧ finalized = committed ∧ Settled host later committed.state)
      (fun _ later => Grown w later) w := by
  induction attempts generalizing w with
  | zero => exact Holds.throw fun after last _ => last.toGrown
  | succ attempts ih =>
    refine (holds_withOwnerIndexLock (fun finalized later => finalized = committed ∧ Settled host later committed.state)
      (fun _ _ _ grown _ _ done => ⟨done.1, done.2.mono grown⟩)
      fun inside grown held _ => holds_reconcileCommittedGrant (known.mono grown) held).attempt_bind
      (fun _ _ _ done => ?_) fun error middle _ before => ?_
    · exact Holds.pure fun after last _ => ⟨done.1.trans last.toGrown, done.2.1, done.2.2.mono last.toGrown⟩
    · cases error with
      | ownerIndexLockLost =>
        exact (ih middle (known.mono before)).mono (fun _ _ _ ended => ⟨before.trans ended.1, ended.2⟩)
          fun _ _ _ grown => before.trans grown
      | support | malformedGrantState | invalid | fault => exact Holds.throw fun after last _ => before.trans last.toGrown

end Reconcile

section Allocate

/-- An identifier that the call has drawn and not used yet. -/
structure Reserved (process : Nat) (w : World) (grantId : GrantId) : Prop where
  drew : Drew w process grantId
  unborn : history w grantId = []
  unenrolled : ∀ hash, Event.enrolled hash grantId ∉ w.log

variable {grantId : GrantId}

theorem Reserved.mono (relied : Rely process w later) (reserved : Reserved process w grantId) :
    Reserved process later grantId where
  drew := relied.toGrown.drew reserved.drew
  unborn := relied.reserved _ reserved.drew reserved.unborn
  unenrolled := relied.unenrolled _ reserved.drew reserved.unenrolled

theorem reserved_of_drawn {raw : JsString} (inv : Invariant host w) (log : later.log = w.log ++ [.drew process raw])
    (named : grantIdOf raw = some grantId) (distinct : DistinctIds later) : Reserved process later grantId := by
  have fresh : ∀ other, ¬ Drew w other grantId := by
    rintro other ⟨earlier, member, same⟩
    have listed : grantId ∈ w.log.filterMap drawnId := mem_filterMap.mpr ⟨_, member, same⟩
    have last : [Event.drew process raw].filterMap drawnId = [grantId] := by
      simp only [filterMap_cons, drawnId, named, filterMap_nil]
    rw [DistinctIds, log, filterMap_append, last, nodup_append] at distinct
    exact distinct.2.2 grantId listed grantId (mem_singleton_self _) rfl
  have unborn : history w grantId = [] := by
    by_contra born
    obtain ⟨other, drew⟩ := inv.born grantId born
    exact fresh other drew
  refine ⟨⟨raw, ?_, named⟩, ?_, fun hash member => ?_⟩
  · rw [log]
    exact mem_append_right _ (mem_singleton_self _)
  · rw [history, log, filterMap_append, ← history, unborn]
    rfl
  · rw [log, mem_append, mem_singleton] at member
    have before := member.resolve_right fun same => by cases same
    obtain ⟨first, listed, _⟩ := inv.enrolledBorn hash grantId before
    rw [unborn] at listed
    cases listed

/-- A state that is in place and not yet listed. -/
structure Placed (process : Nat) (w : World) (state : GrantState) : Prop where
  drew : Drew w process state.grantId
  recorded : state ∈ history w state.grantId
  unenrolled : ∀ hash, Event.enrolled hash state.grantId ∉ w.log

theorem Placed.mono (relied : Rely process w later) (placed : Placed process w state) : Placed process later state where
  drew := relied.toGrown.drew placed.drew
  recorded := (relied.toGrown.history_grows _).subset placed.recorded
  unenrolled := relied.unenrolled _ placed.drew placed.unenrolled

theorem placed_of_changed (reserved : Reserved process w state.grantId) (changed : Changed host process w (.putState state) later) :
    Placed process later state := by
  obtain ⟨now, relied, _, further⟩ := changed
  have before := reserved.mono relied
  have landed : Placed process (now.land state) state := by
    refine ⟨(grown_land now state).drew before.drew, ?_, fun hash member => ?_⟩
    · rw [history_land, if_pos rfl, before.unborn]
      exact mem_singleton_self _
    · exact before.unenrolled hash ((mem_land member).resolve_right fun same => by cases same)
  exact landed.mono further

theorem holds_writeState (requireAbsent : Bool) {Lands : World → Prop}
    (permitted : ∀ now, Rely process w now → Invariant host now → DistinctIds now →
      Permitted host process now (now.apply process (.putState state)))
    (landed : ∀ later, Changed host process w (.putState state) later → Lands later) :
    (grantContract host).Holds process (writeState state requireAbsent)
      (fun _ later => Kept process w later ∧ Lands later)
      (fun _ later => Kept process w later ∧ (Lands later ∨ Rely process w later)) w := by
  have seen : (grantContract host).Holds process (fallible (ask (.lstatState state.grantId)))
      (fun _ later => Rely process w later) (fun _ later => Rely process w later) w := by
    refine holds_look_then rfl fun now choice answer later relied _ _ further _ => ?_
    cases answer with
    | ok value => exact Holds.pure fun after last _ => (relied.trans further).trans last
    | error fault => exact Holds.throw fun after last _ => (relied.trans further).trans last
  refine seen.bind (fun present middle _ relied => ?_) fun _ _ _ relied => ⟨Kept.of_rely relied, .inr relied⟩
  split_ifs with refused
  · exact Holds.throw fun after last _ => ⟨Kept.of_rely (relied.trans last), .inr (relied.trans last)⟩
  · have back : ∀ later, Changed host process middle (.putState state) later → Changed host process w (.putState state) later := by
      rintro later ⟨now, first, inv, further⟩
      exact ⟨now, relied.trans first, inv, further⟩
    refine (holds_change fun now first inv distinct => permitted now (relied.trans first) inv distinct).mono
      (fun _ later _ changed => ?_) fun _ later _ outcome => ?_
    · exact ⟨kept_of_changed (back later changed) rfl, landed later (back later changed)⟩
    · rcases outcome with changed | further
      · exact ⟨kept_of_changed (back later changed) rfl, .inl (landed later (back later changed))⟩
      · exact ⟨Kept.of_rely (relied.trans further), .inr (relied.trans further)⟩

theorem holds_storeNewState (reserved : Reserved process w state.grantId) (active : state.revokedAt = none)
    (first : state.stateVersion = 1) :
    (grantContract host).Holds process (storeNewState state)
      (fun _ later => Kept process w later ∧ Placed process later state) (fun _ _ => True) w := by
  have permitted : ∀ now, Rely process w now → Invariant host now → DistinctIds now →
      Permitted host process now (now.apply process (.putState state)) := fun now relied inv distinct =>
    have there := reserved.mono relied
    permitted_create inv distinct there.drew there.unborn active first
  refine (holds_writeState true permitted fun _ changed => placed_of_changed reserved changed).attempt_bind
    (fun _ _ _ done => Holds.pure fun after last _ => ⟨done.1.trans (Kept.of_rely last), done.2.mono last⟩)
    fun error middle _ done => ?_
  refine (holds_readState _).attempt_bind (fun persisted third _ seen => ?_)
    fun _ _ _ _ => Holds.throw fun _ _ _ => trivial
  simp only
  split_ifs with differs
  · exact Holds.throw fun _ _ _ => trivial
  · have same : persisted = state := by simpa using differs
    have here : Placed process third state := by
      rcases done.2 with placed | relied
      · exact placed.mono seen.rely
      · have there := seen.mem
        rw [(reserved.mono (relied.trans seen.rely)).unborn] at there
        cases there
    refine (holds_outside .syncDirectory).attempt_bind (fun _ _ _ relied => ?_) fun _ fourth _ relied => ?_
    · exact Holds.pure fun after last _ =>
        ⟨done.1.trans (Kept.of_rely ((seen.rely.trans relied).trans last)), here.mono (relied.trans last)⟩
    · have placed := here.mono relied
      exact (holds_removeGrantStates (.inl placed.drew) (ne_nil_of_mem placed.recorded)).attempt_bind
        (fun _ _ _ _ => Holds.throw fun _ _ _ => trivial) fun _ _ _ _ => Holds.throw fun _ _ _ => trivial

theorem room_mono {owner : Owner} (inv : Invariant host w) (next : Invariant host later) (kept : Kept process w later)
    (held : w.locks (.owner (ownerHash host owner)) = some process) (room : Room host owner w) : Room host owner later :=
  (activeMembers_length_le next.distinctMembers
    (inv.activeMembers_subset next.toRecorded kept.toGrown (kept.members _ held))).trans_lt room

theorem holding_of_changed {change : FileChange} (changed : Changed host process w change later) :
    Holding process w later := by
  obtain ⟨now, relied, _, further⟩ := changed
  have moved : Holding process now (now.apply process change) :=
    ⟨grown_apply now process change, fun hash held => by cases change <;> exact held⟩
  exact (Kept.of_rely relied).toHolding.trans (moved.trans (Kept.of_rely further).toHolding)

theorem holds_writeOwnerMembership (placed : Placed process w state) (inv : Invariant host w)
    (held : w.locks (.owner (ownerHash host state.owner)) = some process) (room : Room host state.owner w) :
    (grantContract host).Holds process (writeOwnerMembership host state)
      (fun _ later => Holding process w later ∧ Committed host process later state)
      (fun _ later => Grown w later) w := by
  have permitted : ∀ now, Rely process w now → Invariant host now → DistinctIds now → Permitted host process now
      (now.apply process (.putMembership (ownerHash host state.owner) state.grantId)) := by
    intro now relied next distinct
    have there := placed.mono relied
    refine permitted_enroll next distinct there.drew ((relied.locks _).mpr held) there.unenrolled
      ⟨state, there.recorded, rfl⟩ fun owner stored found owned _ => ?_
    have same := (next.lineage state.grantId).owner_eq (next.toRecorded.mem found) there.recorded
    rw [← owned, same]
    exact room_mono inv next (Kept.of_rely relied) held room
  refine (holds_change permitted).mono (fun _ later _ changed => ?_) fun _ later _ outcome => ?_
  · have grown := (holding_of_changed changed).toGrown
    refine ⟨holding_of_changed changed, grown.drew placed.drew, (grown.history_grows _).subset placed.recorded, ?_⟩
    obtain ⟨now, _, _, further⟩ := changed
    exact further.toGrown.mem (mem_append_right _ (mem_singleton_self _))
  · rcases outcome with changed | relied
    · exact (holding_of_changed changed).toGrown
    · exact relied.toGrown

theorem holds_allocate {input : ParsedInput} (inv : Invariant host w)
    (held : w.locks (.owner (ownerHash host (input.owner host))) = some process) (room : Room host (input.owner host) w) :
    (grantContract host).Holds process (allocate host input)
      (fun committed later => Holding process w later ∧ Committed host process later committed.state ∧
        committed.state.owner = input.owner host) (fun _ _ => True) w := by
  refine holds_stir_then rfl fun now choice secretBytes after first relied _ _ performed further _ => ?_
  have calm := calm_of_stirs rfl performed
  obtain rfl := (Prod.mk.inj (Option.some.inj performed)).2
  have drewSecret : Kept process w first :=
    (Kept.of_rely relied).trans ((Kept.of_calm calm fun _ held => held).trans (Kept.of_rely further))
  split_ifs
  · exact Holds.throw fun _ _ _ => trivial
  · refine holds_stir_then rfl fun now choice raw after second relied before distinct performed further _ => ?_
    have calm := calm_of_stirs rfl performed
    obtain ⟨rfl, rfl⟩ := Prod.mk.inj (Option.some.inj performed)
    have drewId : Kept process first second :=
      (Kept.of_rely relied).trans ((Kept.of_calm calm fun _ held => held).trans (Kept.of_rely further))
    split
    · exact Holds.throw fun _ _ _ => trivial
    · next grantId named =>
      have reserved : Reserved process second grantId :=
        (reserved_of_drawn before rfl named distinct).mono further
      refine holds_now_then fun createdAt third thirdRely _ _ => ?_
      refine holds_checked.bind (fun state fourth _ made => ?_) fun _ _ _ _ => trivial
      obtain ⟨rfl, owned, version, active⟩ := newGrantState_ok made.2
      refine holds_requireMutationLock.bind (fun _ fifth _ fifthRely => ?_) fun _ _ _ _ => trivial
      refine (holds_outside _).bind (fun _ sixth _ sixthRely => ?_) fun _ _ _ _ => trivial
      refine holds_requireMutationLock.bind (fun _ seventh _ seventhRely => ?_) fun _ _ _ _ => trivial
      have waited := (((thirdRely.trans made.1).trans fifthRely).trans sixthRely).trans seventhRely
      refine (holds_storeNewState (reserved.mono waited) active version).bind (fun _ eighth next stored => ?_)
        fun _ _ _ _ => trivial
      have kept := ((drewSecret.trans drewId).trans (Kept.of_rely waited)).trans stored.1
      have heldThere : eighth.locks (.owner (ownerHash host state.owner)) = some process := by
        rw [owned]
        exact kept.held _ held
      have roomThere : Room host state.owner eighth := by
        rw [owned]
        exact room_mono inv next kept held room
      refine (holds_writeOwnerMembership stored.2 next heldThere roomThere).attempt_bind (fun _ ninth _ done => ?_)
        fun _ ninth _ grown => ?_
      · exact Holds.pure fun after last _ =>
          ⟨kept.toHolding.trans (done.1.trans (Kept.of_rely last).toHolding), done.2.mono last.toGrown, owned⟩
      · have born := grown.born (ne_nil_of_mem stored.2.recorded)
        exact (holds_removeStoredGrant (.inl (grown.drew stored.2.drew)) born).attempt_bind
          (fun _ _ _ _ => Holds.throw fun _ _ _ => trivial) fun _ _ _ _ => Holds.throw fun _ _ _ => trivial

end Allocate

theorem passing_holding {key : LockKey} (other : ∀ hash, key ≠ .owner hash) : Passing process key (Holding process) where
  trans := Holding.trans
  relied relied := (Kept.of_rely relied).toHolding
  moved a holder := (kept_setLock other a holder).toHolding

theorem holds_createLocked {input : ParsedInput} (held : w.locks (.owner (ownerHash host (input.owner host))) = some process) :
    (grantContract host).Holds process (createLocked host input)
      (fun result later => Committed host process later result.1.state ∧
        (result.2 = .ok () → Indexed later (ownerHash host result.1.state.owner) result.1.state.grantId)) (fun _ _ => True) w := by
  refine (holds_requireAvailableOwnerGrantSlot _).bind (fun _ first inv available => ?_) fun _ _ _ _ => trivial
  have heldFirst := (available.1.locks _).mpr held
  have other : ∀ hash, LockKey.mutation ≠ .owner hash := fun hash same => by cases same
  have allocated : (grantContract host).Holds process (withMutationLock (allocate host input))
      (fun committed later => Holding process first later ∧ Committed host process later committed.state ∧
        committed.state.owner = input.owner host) (fun _ _ => True) first := by
    have known : ∀ (committed : Created) (a b : World), Grown a b → Invariant host a → Invariant host b →
        Committed host process a committed.state ∧ committed.state.owner = input.owner host →
          Committed host process b committed.state ∧ committed.state.owner = input.owner host :=
      fun _ _ _ grown _ _ known => ⟨known.1.mono grown, known.2⟩
    refine holds_withExclusiveLock (passing_holding other) _ (fun _ => True) known (fun _ _ _ _ => trivial)
      (fun _ _ => trivial) fun inside enters _ insideInv => ?_
    have entered := enters _ (passing_kept other)
    have room := room_mono inv insideInv entered heldFirst (available.2 held)
    exact holds_allocate insideInv (entered.held _ heldFirst) room
  refine allocated.bind (fun committed second _ known => ?_) fun _ _ _ _ => trivial
  obtain ⟨holding, committed_known, owned⟩ := known
  have heldSecond : second.locks (.owner (ownerHash host committed.state.owner)) = some process := by
    rw [owned]
    exact holding.held _ heldFirst
  refine (holds_indexCommitted committed_known heldSecond).attempt_bind (fun _ third _ done => ?_) fun _ third _ grown => ?_
  · exact Holds.pure fun after last _ =>
      ⟨committed_known.mono (done.1.trans last.toGrown), fun _ => done.2.mono last.toGrown⟩
  · exact Holds.pure fun after last _ => ⟨committed_known.mono (grown.trans last.toGrown), fun same => by cases same⟩

/-- What is left of a grant that `create` has handed out. -/
structure HandedOut (host : Host) (process : Nat) (w : World) (state : GrantState) : Prop where
  committed : Committed host process w state
  settled : Settled host w state

theorem HandedOut.mono (grown : Grown w later) (handed : HandedOut host process w state) : HandedOut host process later state :=
  ⟨handed.committed.mono grown, handed.settled.mono grown⟩

theorem holds_finishCreate {committed : Created} {indexed : Except StoreError Unit}
    (known : Committed host process w committed.state)
    (listed : indexed = .ok () → Indexed w (ownerHash host committed.state.owner) committed.state.grantId) :
    (grantContract host).Holds process (finishCreate host committed indexed)
      (fun finalized later => HandedOut host process later finalized.state) (fun _ later => Grown w later) w := by
  cases indexed with
  | ok _ => exact Holds.pure fun after last _ => ⟨known.mono last.toGrown, .inl ((listed rfl).mono last.toGrown)⟩
  | error error =>
    cases error with
    | ownerIndexLockLost =>
      refine (holds_reconcileAttempts _ w known).mono (fun finalized later _ done => ?_) fun _ _ _ grown => grown
      obtain ⟨grown, rfl, settled⟩ := done
      exact ⟨known.mono grown, settled⟩
    | support | malformedGrantState | invalid | fault => exact Holds.throw fun after last _ => last.toGrown

theorem passing_any {process : Nat} {key : LockKey} : Passing process key fun _ _ => True :=
  ⟨fun _ _ => trivial, fun _ => trivial, fun _ _ => trivial⟩

theorem holds_create (input : CreateStoredGrantInput) :
    (grantContract host).Holds process (create host input)
      (fun created later => HandedOut host process later created.state) (fun _ _ => True) w := by
  refine holds_now_then fun time first _ _ _ => ?_
  refine holds_checked.bind (fun parsed second _ _ => ?_) fun _ _ _ _ => trivial
  have locked : (grantContract host).Holds process
      (withOwnerIndexLock (ownerHash host (parsed.owner host)) (createLocked host parsed))
      (fun result later => True ∧ Committed host process later result.1.state ∧
        (result.2 = .ok () → Indexed later (ownerHash host result.1.state.owner) result.1.state.grantId))
      (fun _ _ => True) second := by
    have known : ∀ (result : Created × Except StoreError Unit) (a b : World), Grown a b → Invariant host a →
        Invariant host b → (Committed host process a result.1.state ∧
          (result.2 = .ok () → Indexed a (ownerHash host result.1.state.owner) result.1.state.grantId)) →
            Committed host process b result.1.state ∧
              (result.2 = .ok () → Indexed b (ownerHash host result.1.state.owner) result.1.state.grantId) :=
      fun _ _ _ grown _ _ known => ⟨known.1.mono grown, fun fine => (known.2 fine).mono grown⟩
    refine holds_withExclusiveLock passing_any _ (fun _ => True) known (fun _ _ _ _ => trivial)
      (fun _ _ => trivial) fun inside _ held _ => ?_
    exact (holds_createLocked held).mono (fun _ _ _ done => ⟨trivial, done⟩) fun _ _ _ _ => trivial
  refine locked.bind (fun result third _ done => ?_) fun _ _ _ _ => trivial
  obtain ⟨committed, indexed⟩ := result
  have known : Committed host process third committed.state := done.2.1
  refine (holds_finishCreate known done.2.2).attempt_bind
    (fun _ _ _ handed => Holds.pure fun after last _ => handed.mono last.toGrown) fun error fourth _ grown => ?_
  have spent := (known.mono grown).spent
  exact (holds_removeLocked spent.1 spent.2).attempt_bind
    (fun _ _ _ _ => Holds.throw fun _ _ _ => trivial) fun _ _ _ _ => Holds.throw fun _ _ _ => trivial

end Remnic.SupportPassport.GrantCreate
