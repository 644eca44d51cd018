import Remnic.SupportPassport.GrantReads

/-!
The parts of the store that write: the removal of a grant, the index of an
owner, and what they keep for the call that runs them.
-/

namespace Remnic.SupportPassport.GrantWrites
open Library.Interleaving Library.Interleaving.Contract Text.CodeUnits Grants GrantStore GrantHistory GrantGuard GrantMoves List Option
open GrantContract GrantReads

variable {host : Host} {w middle later after : World} {process : Nat} {grantId : GrantId} {state : GrantState}

/-- The owner locks that the call holds stay held. -/
structure Holding (process : Nat) (w later : World) : Prop extends Grown w later where
  held : ∀ hash, w.locks (.owner hash) = some process → later.locks (.owner hash) = some process

/-- Besides, the owners whose locks the call holds gain no member. -/
structure Kept (process : Nat) (w later : World) : Prop extends Holding process w later where
  members : ∀ hash, w.locks (.owner hash) = some process → later.members hash ⊆ w.members hash

theorem Holding.trans (first : Holding process w middle) (second : Holding process middle later) :
    Holding process w later where
  toGrown := first.toGrown.trans second.toGrown
  held _ before := second.held _ (first.held _ before)

theorem Kept.trans (first : Kept process w middle) (second : Kept process middle later) : Kept process w later where
  toHolding := first.toHolding.trans second.toHolding
  members _ before := Subset.trans (second.members _ (first.held _ before)) (first.members _ before)

theorem Kept.of_rely (relied : Rely process w later) : Kept process w later where
  toGrown := relied.toGrown
  held _ before := (relied.locks _).mpr before
  members hash before := (relied.owned hash before).1

theorem Kept.of_calm (calm : Calm process w later)
    (locks : ∀ hash, w.locks (.owner hash) = some process → later.locks (.owner hash) = some process) :
    Kept process w later where
  toGrown := calm.grown
  held := locks
  members hash _ := by rw [calm.members]; exact Subset.refl _

def enrols : FileChange → Bool
  | .putMembership _ _ => true
  | _ => false

variable {hash : Digest} {key : LockKey} {change : FileChange} {grantIds : List GrantId} (states : List GrantState)

theorem Kept.apply (steady : enrols change = false) (w : World) : Kept process w (w.apply process change) := by
  refine ⟨⟨grown_apply w process change, ?_⟩, ?_⟩
  · intro hash before
    cases change <;> exact before
  · intro hash _
    cases change with
    | removeMembership other member => exact (dismiss_members hash).subset
    | putMembership => cases steady
    | putState | removeState | putIndex => exact Subset.refl _

theorem kept_of_changed (changed : Changed host process w change later) (steady : enrols change = false) : Kept process w later := by
  obtain ⟨now, relied, _, further⟩ := changed
  exact (Kept.of_rely relied).trans ((Kept.apply steady now).trans (Kept.of_rely further))

/-- A relation that survives the moves of the others and the moves of one lock. -/
structure Passing (process : Nat) (key : LockKey) (Passes : World → World → Prop) : Prop where
  trans {a b c : World} : Passes a b → Passes b c → Passes a c
  relied {a b : World} : Rely process a b → Passes a b
  moved (a : World) (holder : Option Nat) : Passes a (a.setLock key holder)

theorem acquire_cases {choice : Choice} {answer : Except Fault Bool}
    (performed : perform host process (.acquire key) choice w = some (answer, later)) :
    answer = .ok true ∧ later = w.setLock key (some process) ∨ answer ≠ .ok true ∧ later = w := by
  cases choice <;> simp only [perform] at performed
  · split_ifs at performed
    obtain ⟨rfl, rfl⟩ := Prod.mk.inj (some.inj performed)
    exact .inl ⟨rfl, rfl⟩
  · obtain ⟨rfl, rfl⟩ := Prod.mk.inj (some.inj performed)
    exact .inr ⟨by simp, rfl⟩
  · obtain ⟨rfl, rfl⟩ := Prod.mk.inj (some.inj performed)
    exact .inr ⟨by simp, rfl⟩
  · cases performed

theorem holds_withExclusiveLock {Value : Type} {task : Store Value} {Passes : World → World → Prop}
    (passing : Passing process key Passes) (Known : Value → World → Prop) (Fails : World → Prop)
    (stable : ∀ value (a b : World), Grown a b → Invariant host a → Invariant host b → Known value a → Known value b)
    (failed : ∀ a b, Passes a b → Fails a → Fails b) (refused : ∀ later, Passes w later → Fails later)
    (body : ∀ inside, (∀ Enters : World → World → Prop, Passing process key Enters → Enters w inside) →
      inside.locks key = some process → Invariant host inside →
        (grantContract host).Holds process task (fun value later => Passes inside later ∧ Known value later)
          (fun _ later => Fails later) inside) :
    (grantContract host).Holds process (withExclusiveLock key task) (fun value later => Passes w later ∧ Known value later)
      (fun _ later => Fails later) w := by
  refine holds_stir_then rfl fun now choice answer after later first inv _ performed further next => ?_
  have throws : after = now → ∀ error, (grantContract host).Holds process (throw error : Store Value)
      (fun value later => Passes w later ∧ Known value later) (fun _ later => Fails later) later := by
    intro same error
    subst same
    exact Holds.throw fun final last _ =>
      refused final (passing.trans (passing.relied first) (passing.trans (passing.relied further) (passing.relied last)))
  rcases acquire_cases performed with ⟨rfl, rfl⟩ | ⟨refusal, same⟩
  · have enters : ∀ Enters : World → World → Prop, Passing process key Enters → Enters w later := fun Enters passing =>
      passing.trans (passing.relied first) (passing.trans (passing.moved now _) (passing.relied further))
    have entered := enters Passes passing
    have held : later.locks key = some process := by
      rw [further.locks]
      exact Function.update_self ..
    refine (body later enters held next).ensuring fun now choice answer after inv _ released => ?_
    obtain rfl := (Prod.mk.inj (some.inj released)).2
    have calm := calm_unlock process now key
    have permitted := calm.permitted inv
    have passed : Passes now (if now.locks key = some process then now.setLock key none else now) := by
      split_ifs
      · exact passing.moved now none
      · exact passing.relied (Rely.refl process now)
    refine ⟨permitted.1, permitted.2, fun value known final last done => ?_, fun error known final last _ => ?_⟩
    · exact ⟨passing.trans entered (passing.trans known.1 (passing.trans passed (passing.relied last))),
        stable value now final (calm.grown.trans last.toGrown) inv done known.2⟩
    · exact failed now final (passing.trans passed (passing.relied last)) known
  · cases answer with
    | error fault => exact throws same _
    | ok acquired =>
      cases acquired with
      | false => exact throws same _
      | true => exact absurd rfl refusal

theorem kept_setLock (other : ∀ hash, key ≠ .owner hash) (w : World) (holder : Option Nat) :
    Kept process w (w.setLock key holder) where
  clock := le_rfl
  log := prefix_rfl
  vanished _ absent _ := absent
  held hash before := by
    simp only [World.setLock, Function.update_of_ne (other hash).symm]
    exact before
  members hash _ := Subset.refl _

theorem passing_kept (other : ∀ hash, key ≠ .owner hash) : Passing process key (Kept process) :=
  ⟨Kept.trans, Kept.of_rely, kept_setLock other⟩

theorem passing_grown (process : Nat) (key : LockKey) : Passing process key Grown where
  trans := Grown.trans
  relied relied := relied.toGrown
  moved _ _ := ⟨le_rfl, prefix_rfl, fun _ absent _ => absent⟩

/-- The call may remove the grant: it made it, or the grant is over. -/
def Spent (process : Nat) (w : World) (grantId : GrantId) : Prop :=
  Drew w process grantId ∨ ∃ state ∈ history w grantId, state.isActive w.now = false

theorem Spent.mono (grown : Grown w later) (spent : Spent process w grantId) : Spent process later grantId := by
  rcases spent with drew | ⟨state, member, ended⟩
  · exact .inl (grown.drew drew)
  · refine .inr ⟨state, (grown.history_grows grantId).subset member, ?_⟩
    by_contra active
    rw [GrantState.isActive_mono grown.clock (by simpa using active)] at ended
    cases ended

theorem Spent.drew (inv : Invariant host w) (spent : Spent process w grantId) (stored : w.states grantId = some state)
    (active : state.isActive w.now = true) : Drew w process grantId := by
  refine spent.resolve_right ?_
  rintro ⟨other, member, ended⟩
  rw [inv.toRecorded.history_eq stored (GrantState.isActive_iff.mp active).1] at member
  obtain rfl := mem_singleton.mp member
  rw [active] at ended
  cases ended

def Gone (w : World) (grantId : GrantId) : Prop := ∀ state, w.states grantId = some state → state.revokedAt.isSome = true

theorem Gone.mono (inv : Invariant host w) (next : Invariant host later) (grown : Grown w later)
    (born : history w grantId ≠ []) (gone : Gone w grantId) : Gone later grantId := by
  intro state stored
  by_contra active
  have active : state.revokedAt = none := by simpa using active
  have there := gone state (inv.toRecorded.back next.toRecorded grown born stored active)
  rw [active] at there
  cases there

theorem holds_removeGrantStates (spent : Spent process w grantId) (born : history w grantId ≠ []) :
    (grantContract host).Holds process (removeGrantStates grantId)
      (fun _ later => Kept process w later ∧ Gone later grantId) (fun _ later => Kept process w later) w := by
  have permitted : ∀ now, Rely process w now → Invariant host now → DistinctIds now →
      Permitted host process now (now.apply process (.removeState grantId)) := fun now relied inv _ =>
    permitted_remove inv fun state stored active => (spent.mono relied.toGrown).drew inv stored active
  refine (holds_change permitted).mono (fun _ later next changed => ?_) fun _ later _ outcome => ?_
  · refine ⟨kept_of_changed changed rfl, ?_⟩
    obtain ⟨now, relied, inv, further⟩ := changed
    intro state stored
    by_contra active
    have active : state.revokedAt = none := by simpa using active
    have removed : (now.remove process grantId).states grantId = none := by
      simp only [World.remove, Function.update_self]
    have whole := next.toRecorded.history_eq stored active
    have here : history now grantId ≠ [] := relied.toGrown.born born
    have same : history later grantId = history (now.remove process grantId) grantId := by
      have grew := further.toGrown.history_grows grantId
      refine (List.IsPrefix.eq_of_length_le grew ?_).symm
      change (history later grantId).length ≤ (history (now.remove process grantId) grantId).length
      rw [whole, history_remove]
      exact length_pos_iff.mpr here
    rw [further.toGrown.vanished grantId removed same] at stored
    cases stored
  · rcases outcome with changed | relied
    · exact kept_of_changed changed rfl
    · exact Kept.of_rely relied

theorem holds_removeStoredGrant (spent : Spent process w state.grantId) (born : history w state.grantId ≠ []) :
    (grantContract host).Holds process (removeStoredGrant host state)
      (fun _ later => Kept process w later ∧ Gone later state.grantId) (fun _ later => Kept process w later) w := by
  refine (holds_removeGrantStates spent born).bind (fun _ middle before removed => ?_) fun _ _ _ kept => kept
  have here : history middle state.grantId ≠ [] := removed.1.toGrown.born born
  have permitted : ∀ now, Rely process middle now → Invariant host now → DistinctIds now →
      Permitted host process now (now.apply process (.removeMembership (ownerHash host state.owner) state.grantId)) :=
    fun now relied inv _ => permitted_dismiss inv (removed.2.mono before inv relied.toGrown here)
  refine (holds_change permitted).mono (fun _ later next changed => ?_) fun _ later _ outcome => ?_
  · have kept := kept_of_changed changed rfl
    exact ⟨removed.1.trans kept, removed.2.mono before next kept.toGrown here⟩
  · rcases outcome with changed | relied
    · exact removed.1.trans (kept_of_changed changed rfl)
    · exact removed.1.trans (Kept.of_rely relied)

theorem holds_removeLocked (spent : Spent process w state.grantId) (born : history w state.grantId ≠ []) :
    (grantContract host).Holds process (removeLocked host state)
      (fun _ later => Kept process w later ∧ Gone later state.grantId ∧ history later state.grantId ≠ [])
      (fun _ later => Kept process w later) w := by
  have other : ∀ hash, LockKey.grant state.grantId ≠ .owner hash := fun hash same => by cases same
  apply holds_withExclusiveLock (passing_kept other)
    (fun _ later => Gone later state.grantId ∧ history later state.grantId ≠ []) (Kept process w)
  · intro _ a b grown inv next known
    exact ⟨known.1.mono inv next grown known.2, grown.born known.2⟩
  · exact fun a b passed kept => kept.trans passed
  · exact fun later passed => passed
  · intro inside enters _ _
    have entered := enters _ (passing_kept other)
    refine holds_requireMutationLock.bind (fun _ middle _ relied => ?_)
      fun _ _ _ relied => entered.trans (Kept.of_rely relied)
    have grown := entered.toGrown.trans relied.toGrown
    refine (holds_removeStoredGrant (spent.mono grown) (grown.born born)).mono (fun _ later _ removed => ?_)
      fun _ _ _ kept => entered.trans ((Kept.of_rely relied).trans kept)
    exact ⟨(Kept.of_rely relied).trans removed.1, removed.2, (grown.trans removed.1.toGrown).born born⟩

def AllSpent (process : Nat) (w : World) (states : List GrantState) : Prop :=
  ∀ state ∈ states, Spent process w state.grantId ∧ history w state.grantId ≠ []

theorem AllSpent.mono {states : List GrantState} (grown : Grown w later) (spent : AllSpent process w states) :
    AllSpent process later states :=
  fun state member => ⟨(spent state member).1.mono grown, grown.born (spent state member).2⟩

theorem holds_removeAllLocked (w : World) (spent : AllSpent process w states) :
    (grantContract host).Holds process (removeAllLocked host states) (fun _ later => Kept process w later)
      (fun _ later => Kept process w later) w := by
  induction states generalizing w with
  | nil => exact Holds.pure fun _ last _ => Kept.of_rely last
  | cons state rest ih =>
    have first := spent state mem_cons_self
    refine (holds_removeLocked first.1 first.2).bind (fun _ middle _ removed => ?_) fun _ _ _ kept => kept
    have others : AllSpent process middle rest :=
      AllSpent.mono removed.1.toGrown fun item member => spent item (mem_cons_of_mem _ member)
    exact (ih middle others).mono (fun _ _ _ kept => removed.1.trans kept) fun _ _ _ kept => removed.1.trans kept

theorem holds_removeEachLocked (w : World) (spent : AllSpent process w states) :
    (grantContract host).Holds process (removeEachLocked host states) (fun _ later => Kept process w later)
      (fun _ later => Kept process w later) w := by
  induction states generalizing w with
  | nil => exact Holds.pure fun _ last _ => Kept.of_rely last
  | cons state rest ih =>
    have first := spent state mem_cons_self
    have goes_on : ∀ middle, Kept process w middle → (grantContract host).Holds process (removeEachLocked host rest)
        (fun _ later => Kept process w later) (fun _ later => Kept process w later) middle := by
      intro middle kept
      have others : AllSpent process middle rest :=
        AllSpent.mono kept.toGrown fun item member => spent item (mem_cons_of_mem _ member)
      exact (ih middle others).mono (fun _ _ _ further => kept.trans further) fun _ _ _ further => kept.trans further
    exact (holds_removeLocked first.1 first.2).attempt_bind (fun _ middle _ removed => goes_on middle removed.1)
      fun _ middle _ kept => goes_on middle kept

/-- Some index of the owner that was written names the grant. -/
def Indexed (w : World) (hash : Digest) (grantId : GrantId) : Prop :=
  ∃ grantIds, Event.indexed hash grantIds ∈ w.log ∧ grantId ∈ grantIds

theorem Indexed.mono (grown : Grown w later) (indexed : Indexed w hash grantId) : Indexed later hash grantId := by
  obtain ⟨grantIds, written, listed⟩ := indexed
  exact ⟨grantIds, grown.mem written, listed⟩

/-- The conditions of an index, at the moment before it is written. -/
structure Indexable (host : Host) (process : Nat) (w : World) (hash : Digest) (grantIds : List GrantId) : Prop where
  held : w.locks (.owner hash) = some process
  nodup : grantIds.Nodup
  short : grantIds.length ≤ maxOwnerGrantHistory
  enrolled : ∀ grantId ∈ grantIds, Event.enrolled hash grantId ∈ w.log
  covers : NoCollision host w → ∀ state, ActiveMember w hash state → state.grantId ∈ grantIds

theorem Indexable.mono (indexable : Indexable host process w hash grantIds) (inv : Invariant host w)
    (next : Invariant host later) (relied : Rely process w later) :
    Indexable host process later hash grantIds where
  held := (relied.locks _).mpr indexable.held
  nodup := indexable.nodup
  short := indexable.short
  enrolled grantId member := relied.toGrown.mem (indexable.enrolled grantId member)
  covers apart state member := by
    have members := (relied.owned hash indexable.held).1
    have before := inv.active_back next.toRecorded relied.toGrown (members member.listed) member.stored member.active
    exact indexable.covers (apart.back relied.toGrown) state ⟨members member.listed, before.1, before.2⟩

theorem holds_writeOwnerIndexWhileLocked (inv : Invariant host w) (indexable : Indexable host process w hash grantIds) :
    (grantContract host).Holds process (writeOwnerIndexWhileLocked hash grantIds)
      (fun _ later => Kept process w later ∧ Event.indexed hash grantIds ∈ later.log)
      (fun _ later => Kept process w later) w := by
  refine (holds_requireOwnerIndexLock hash).bind (fun _ start startInv first => ?_) fun _ _ _ relied => Kept.of_rely relied
  have ready := indexable.mono inv startInv first
  have permitted : ∀ now, Rely process start now → Invariant host now → DistinctIds now →
      Permitted host process now (now.apply process (.putIndex hash grantIds)) := fun now relied next _ =>
    have there := ready.mono startInv next relied
    permitted_setIndex next there.held there.nodup there.short there.enrolled there.covers
  refine (holds_change permitted).bind (fun _ middle _ changed => ?_) fun _ later _ outcome => ?_
  · have kept := (Kept.of_rely first).trans (kept_of_changed changed rfl)
    have written : Event.indexed hash grantIds ∈ middle.log := by
      obtain ⟨now, _, _, further⟩ := changed
      exact further.toGrown.mem (mem_append_right _ (mem_singleton_self _))
    refine (holds_requireOwnerIndexLock hash).mono (fun _ later _ relied => ?_)
      fun _ _ _ relied => kept.trans (Kept.of_rely relied)
    exact ⟨kept.trans (Kept.of_rely relied), relied.toGrown.mem written⟩
  · rcases outcome with changed | relied
    · exact (Kept.of_rely first).trans (kept_of_changed changed rfl)
    · exact (Kept.of_rely first).trans (Kept.of_rely relied)

end Remnic.SupportPassport.GrantWrites
