import Mathlib.Data.Fintype.Basic
import Remnic.Idempotency.KeyLock
import Remnic.Library.Transition

/-!
When two callbacks for one lock path never run at the same time, over all interleavings of
the file-system operations of any number of calls.
-/

namespace Remnic.Idempotency.KeyLockExclusion

open Library.Transition KeyLock Option

variable {Call : Type}

/-- The lock file a call works under, from its creation to the end of the callback. -/
def Stage.held : Stage → Option Nat
  | .writing own | .undoing own | .critical own => some own
  | _ => none

def Purpose.left : Purpose → Option Nat
  | .unlinkLockIfOwner ownerToken _ => some ownerToken
  | .unlinkStaleLockIfUnchanged _ => none

def Stage.made : Stage → Option Nat
  | .writing own | .undoing own | .critical own => some own
  | .openingReclaim purpose | .stattingReclaim purpose | .judgingReclaim purpose _ | .unlinkingReclaim purpose
  | .reopeningReclaim purpose | .writingReclaim purpose _ => Purpose.left purpose
  | .openingOwn ownerToken _ _ | .readingOwn ownerToken _ _ _ | .stattingOwn ownerToken _ _ _
  | .unlinkingOwn ownerToken _ _ _ => some ownerToken
  | _ => none

def Stage.reclaim : Stage → Option Nat
  | .writingReclaim _ reclaim | .restatting _ reclaim | .rejudging _ reclaim _ | .rereading _ reclaim _
  | .unlinkingStale _ reclaim _ | .openingOwn _ _ reclaim | .readingOwn _ _ reclaim _ | .stattingOwn _ _ reclaim _
  | .unlinkingOwn _ _ reclaim _ | .dropping _ reclaim _ => some reclaim
  | _ => none

/-- The reclaim file under which a call is about to remove the lock. -/
def Stage.removesUnder : Stage → Option Nat
  | .unlinkingStale _ reclaim _ | .unlinkingOwn _ _ reclaim _ => some reclaim
  | _ => none

/-- Each live holder has refreshed its lock within the stale window. -/
def Refreshed (settings : Settings) (world : World Call) : Prop :=
  ∀ call, ∀ own ∈ Stage.held (world.stages call), world.lockPath = some own →
    isStale settings world (world.mtimeMs own) = false

/-- A call removes the lock while the reclaim file it has created is still in place. -/
def Reclaiming (world : World Call) : Action Call → Prop
  | .proceed call true => ∀ reclaim ∈ Stage.removesUnder (world.stages call), world.reclaimPath = some reclaim
  | _ => True

def Careful (settings : Settings) (world : World Call) (action : Action Call) : Prop :=
  Refreshed settings world ∧ Reclaiming world action

def Excludes (world : World Call) : Prop :=
  ∀ first second one two, world.stages first = .critical one → world.stages second = .critical two → first = second

/-- The lock is a file that no live call works under. -/
def Doomed (world : World Call) (inode : Nat) : Prop :=
  world.lockPath = some inode ∧ ∀ call, inode ∉ Stage.held (world.stages call)

def Judged (settings : Settings) (world : World Call) : Purpose → Prop
  | .unlinkStaleLockIfUnchanged observation => isStale settings world observation.observedMtimeMs = true
  | .unlinkLockIfOwner _ _ => True

/-- What a call has found out: the time it has seen is stale, and while its reclaim file is in place, the lock it is about
to remove is the file it has checked, which no live call works under. -/
def Knows (settings : Settings) (world : World Call) : Stage → Prop
  | .openingReclaim purpose | .stattingReclaim purpose | .judgingReclaim purpose _ | .unlinkingReclaim purpose
  | .reopeningReclaim purpose | .writingReclaim purpose _ => Judged settings world purpose
  | .restatting observation _ => isStale settings world observation.observedMtimeMs = true
  | .rejudging observation reclaim currentStat =>
    world.reclaimPath = some reclaim → currentStat.mtimeMs = observation.observedMtimeMs → Doomed world currentStat.inode
  | .rereading _ reclaim currentStat | .unlinkingStale _ reclaim currentStat =>
    world.reclaimPath = some reclaim → Doomed world currentStat.inode
  | .stattingOwn ownerToken _ _ opened => opened = ownerToken
  | .unlinkingOwn _ _ reclaim opened => world.reclaimPath = some reclaim → Doomed world opened
  | _ => True

structure Guarded (settings : Settings) (world : World Call) : Prop where
  placed : ∀ inode ∈ world.lockPath, inode < world.nextInode
  created : ∀ call, ∀ own ∈ Stage.made (world.stages call), own < world.nextInode
  apart : ∀ first second own, own ∈ Stage.made (world.stages first) → own ∈ Stage.made (world.stages second) → first = second
  holds : ∀ call, ∀ own ∈ Stage.held (world.stages call), world.lockPath = some own
  signed : ∀ inode token, world.content inode = some token → token = inode
  reclaimed : ∀ call, ∀ reclaim ∈ Stage.reclaim (world.stages call), reclaim < world.nextInode
  reclaimsApart : ∀ first second reclaim, reclaim ∈ Stage.reclaim (world.stages first) →
    reclaim ∈ Stage.reclaim (world.stages second) → first = second
  knows : ∀ call, Knows settings world (world.stages call)

variable {settings : Settings} {world next : World Call} {call : Call} {stage : Stage}

variable {inode own : Nat} (purpose : Purpose) (failed : Bool)

theorem made_of_held (held : own ∈ Stage.held stage) : own ∈ Stage.made stage := by
  cases stage <;> first | exact held | contradiction

theorem isStale_later (later : world.now ≤ next.now) {mtimeMs : Int} (stale : isStale settings world mtimeMs = true) :
    isStale settings next mtimeMs = true := by
  have late : settings.staleLockMs < world.now - mtimeMs := of_decide_eq_true stale
  exact decide_eq_true (by omega)

theorem Judged.later (later : world.now ≤ next.now) {purpose : Purpose} (judged : Judged settings world purpose) :
    Judged settings next purpose := by
  cases purpose with
  | unlinkLockIfOwner => trivial
  | unlinkStaleLockIfUnchanged => exact isStale_later later judged

theorem Knows.later (knows : Knows settings world stage) (later : world.now ≤ next.now)
    (doomed : ∀ reclaim ∈ Stage.reclaim stage, next.reclaimPath = some reclaim →
      world.reclaimPath = some reclaim ∧ ∀ inode, Doomed world inode → Doomed next inode) : Knows settings next stage := by
  have kept {reclaim inode : Nat} (mine : Stage.reclaim stage = some reclaim)
      (known : world.reclaimPath = some reclaim → Doomed world inode) (placed : next.reclaimPath = some reclaim) :
      Doomed next inode := by
    obtain ⟨before, keeps⟩ := doomed reclaim mine placed
    exact keeps inode (known before)
  cases stage with
  | openingReclaim | stattingReclaim | judgingReclaim | unlinkingReclaim | reopeningReclaim | writingReclaim =>
    exact Judged.later later knows
  | restatting => exact isStale_later later knows
  | rejudging => exact fun placed same => kept rfl (fun before => knows before same) placed
  | rereading | unlinkingStale | unlinkingOwn => exact kept rfl knows
  | stattingOwn => exact knows
  | _ => trivial

theorem knows_after : Knows settings world (purpose.after failed) := by
  cases purpose with
  | unlinkLockIfOwner ownerToken startsOver => cases startsOver <;> cases failed <;> trivial
  | unlinkStaleLockIfUnchanged => trivial

theorem made_after : Stage.made (purpose.after failed) = none := by
  cases purpose with
  | unlinkLockIfOwner ownerToken startsOver => cases startsOver <;> cases failed <;> rfl
  | unlinkStaleLockIfUnchanged => rfl

theorem reclaim_after : Stage.reclaim (purpose.after failed) = none := by
  cases purpose with
  | unlinkLockIfOwner ownerToken startsOver => cases startsOver <;> cases failed <;> rfl
  | unlinkStaleLockIfUnchanged => rfl

structure Moves (settings : Settings) (world next : World Call) (call : Call) : Prop where
  others : ∀ other, other ≠ call → next.stages other = world.stages other
  now : world.now ≤ next.now
  nextInode : world.nextInode ≤ next.nextInode
  placed : ∀ inode ∈ next.lockPath, inode < next.nextInode
  made : ∀ own ∈ Stage.made (next.stages call),
    own ∈ Stage.made (world.stages call) ∨ world.nextInode ≤ own ∧ own < next.nextInode
  holds : ∀ own ∈ Stage.held (next.stages call), next.lockPath = some own
  kept : ∀ other, other ≠ call → ∀ own ∈ Stage.held (world.stages other), next.lockPath = some own
  signed : ∀ inode token, next.content inode = some token → token = inode
  reclaim : ∀ reclaim ∈ Stage.reclaim (next.stages call),
    reclaim ∈ Stage.reclaim (world.stages call) ∨ world.nextInode ≤ reclaim ∧ reclaim < next.nextInode
  knows : Knows settings next (next.stages call)
  doomed : ∀ other, other ≠ call → ∀ reclaim ∈ Stage.reclaim (world.stages other), next.reclaimPath = some reclaim →
    world.reclaimPath = some reclaim ∧ ∀ inode, Doomed world inode → Doomed next inode

theorem apart_of_moves {file : Stage → Option Nat} {bound : Nat} (others : ∀ other, other ≠ call → next.stages other = world.stages other)
    (created : ∀ call, ∀ inode ∈ file (world.stages call), inode < world.nextInode)
    (apart : ∀ first second inode, inode ∈ file (world.stages first) → inode ∈ file (world.stages second) → first = second)
    (made : ∀ inode ∈ file (next.stages call), inode ∈ file (world.stages call) ∨ world.nextInode ≤ inode ∧ inode < bound)
    (first second : Call) (inode : Nat) (one : inode ∈ file (next.stages first)) (two : inode ∈ file (next.stages second)) :
    first = second := by
  by_cases mine : first = call
  · by_cases again : second = call
    · exact mine.trans again.symm
    · rw [others second again] at two
      rw [mine] at one ⊢
      rcases made inode one with before | fresh
      · exact apart call second inode before two
      · exact absurd (created second inode two) (by omega)
  · rw [others first mine] at one
    by_cases again : second = call
    · rw [again] at two ⊢
      rcases made inode two with before | fresh
      · exact apart first call inode one before
      · exact absurd (created first inode one) (by omega)
    · rw [others second again] at two
      exact apart first second inode one two

theorem Guarded.moves (guarded : Guarded settings world) (call : Call) (moves : Moves settings world next call) :
    Guarded settings next where
  placed := moves.placed
  created := by
    intro other own owned
    by_cases same : other = call
    · rw [same] at owned
      rcases moves.made own owned with before | fresh
      · exact Nat.lt_of_lt_of_le (guarded.created call own before) moves.nextInode
      · exact fresh.2
    · rw [moves.others other same] at owned
      exact Nat.lt_of_lt_of_le (guarded.created other own owned) moves.nextInode
  apart := apart_of_moves moves.others guarded.created guarded.apart moves.made
  holds := by
    intro other own owned
    by_cases same : other = call
    · rw [same] at owned
      exact moves.holds own owned
    · rw [moves.others other same] at owned
      exact moves.kept other same own owned
  signed := moves.signed
  reclaimed := by
    intro other reclaim owned
    by_cases same : other = call
    · rw [same] at owned
      rcases moves.reclaim reclaim owned with before | fresh
      · exact Nat.lt_of_lt_of_le (guarded.reclaimed call reclaim before) moves.nextInode
      · exact fresh.2
    · rw [moves.others other same] at owned
      exact Nat.lt_of_lt_of_le (guarded.reclaimed other reclaim owned) moves.nextInode
  reclaimsApart := apart_of_moves moves.others guarded.reclaimed guarded.reclaimsApart moves.reclaim
  knows := by
    intro other
    by_cases same : other = call
    · rw [same]
      exact moves.knows
    · rw [moves.others other same]
      exact (guarded.knows other).later moves.now (moves.doomed other same)

theorem Guarded.knowsAt (guarded : Guarded settings world) (reached : world.stages call = stage) :
    Knows settings world stage := reached ▸ guarded.knows call

theorem guarded_initial (now : Int) : Guarded settings (initial now : World Call) :=
  ⟨nofun, nofun, nofun, nofun, nofun, nofun, nofun, fun _ => trivial⟩

section

variable (guarded : Guarded settings world)
include guarded

theorem guarded_tick (elapsed : Nat) :
    Guarded settings { world with now := world.now + elapsed } where
  placed := guarded.placed
  created := guarded.created
  apart := guarded.apart
  holds := guarded.holds
  signed := guarded.signed
  reclaimed := guarded.reclaimed
  reclaimsApart := guarded.reclaimsApart
  knows call := (guarded.knows call).later (Int.le_add_of_nonneg_right (Int.natCast_nonneg elapsed))
    fun _ _ placed => ⟨placed, fun _ doomed => doomed⟩

theorem Guarded.retimed (mtimeMs : Nat → Int) (startedAt : Call → Int) (beats : Call → List Int) : Guarded settings { world with mtimeMs, startedAt, beats } where
  placed := guarded.placed
  created := guarded.created
  apart := guarded.apart
  holds := guarded.holds
  signed := guarded.signed
  reclaimed := guarded.reclaimed
  reclaimsApart := guarded.reclaimsApart
  knows call := (guarded.knows call).later (Int.le_refl world.now) fun _ _ placed => ⟨placed, fun _ doomed => doomed⟩

theorem excludes_of_guarded : Excludes world := by
  intro first second one two inside within
  have held : world.lockPath = some one := guarded.holds first one (by rw [inside]; rfl)
  have again : world.lockPath = some two := guarded.holds second two (by rw [within]; rfl)
  have same : two = one := some.inj (again.symm.trans held)
  apply guarded.apart first second one
  · rw [inside]
    rfl
  · rw [within, same]
    rfl

theorem guarded_write {content : Content} (own : ∀ token, content = some token → token = inode) : Guarded settings (world.write inode content) where
  placed := guarded.placed
  created := guarded.created
  apart := guarded.apart
  holds := guarded.holds
  signed := by
    intro other token written
    unfold World.write at written
    by_cases same : other = inode
    · rw [same] at written ⊢
      exact own token (by simpa only [Function.update_self] using written)
    · exact guarded.signed other token (by simpa only [Function.update_of_ne same] using written)
  reclaimed := guarded.reclaimed
  reclaimsApart := guarded.reclaimsApart
  knows call := (guarded.knows call).later (Int.le_refl world.now) fun _ _ placed => ⟨placed, fun _ doomed => doomed⟩

end

theorem doomed_of_refreshed (refreshed : Refreshed settings world) (there : world.lockPath = some inode)
    (stale : isStale settings world (world.mtimeMs inode) = true) : Doomed world inode := by
  refine ⟨there, fun other held => ?_⟩
  have fresh := refreshed other inode held there
  rw [stale] at fresh
  cases fresh

variable [DecidableEq Call]

@[simp] theorem stages_at (world : World Call) (call : Call) (stage : Stage) : (world.at call stage).stages call = stage :=
  Function.update_self ..

theorem others_at (world : World Call) (call : Call) (stage : Stage) (other : Call) (different : other ≠ call) :
    (world.at call stage).stages other = world.stages other := Function.update_of_ne different ..

theorem Doomed.at (doomed : Doomed world inode) (held : ∀ own ∈ Stage.held stage, own ∈ Stage.held (world.stages call)) :
    Doomed (world.at call stage) inode := by
  refine ⟨doomed.1, fun other owned => ?_⟩
  by_cases same : other = call
  · rw [same, stages_at] at owned
    exact doomed.2 call (held inode owned)
  · rw [others_at _ _ _ _ same] at owned
    exact doomed.2 other owned

section

variable (guarded : Guarded settings world) (made : ∀ own ∈ Stage.made stage, own ∈ Stage.made (world.stages call))
include guarded made

theorem Guarded.waits (held : ∀ own ∈ Stage.held stage, own ∈ Stage.held (world.stages call))
    (reclaim : ∀ reclaim ∈ Stage.reclaim stage, reclaim ∈ Stage.reclaim (world.stages call))
    (knows : Knows settings world stage) : Guarded settings (world.at call stage) := by
  apply guarded.moves call
  exact {
    others := others_at world call stage
    now := Int.le_refl _
    nextInode := Nat.le_refl _
    placed := guarded.placed
    made := fun own owned => .inl (made own (stages_at world call stage ▸ owned))
    holds := fun own owned => guarded.holds call own (held own (stages_at world call stage ▸ owned))
    kept := fun other _ => guarded.holds other
    signed := guarded.signed
    reclaim := fun file owned => .inl (reclaim file (stages_at world call stage ▸ owned))
    knows := by
      rw [stages_at]
      exact knows.later (Int.le_refl _) fun _ _ placed => ⟨placed, fun _ doomed => doomed.at held⟩
    doomed := fun _ _ _ _ placed => ⟨placed, fun _ doomed => doomed.at held⟩ }

theorem Guarded.unlinks (free : Stage.held stage = none)
    (reclaim : ∀ reclaim ∈ Stage.reclaim stage, reclaim ∈ Stage.reclaim (world.stages call))
    (knows : ∀ next : World Call, Knows settings next stage)
    (alone : ∀ other, other ≠ call → Stage.held (world.stages other) = none)
    (undecided : ∀ other, other ≠ call → ∀ reclaim ∈ Stage.reclaim (world.stages other),
      world.reclaimPath = some reclaim → ∀ inode, ¬ Doomed world inode) :
    Guarded settings ({ world with lockPath := none }.at call stage) := by
  apply guarded.moves call
  exact {
    others := others_at { world with lockPath := none } call stage
    now := Int.le_refl _
    nextInode := Nat.le_refl _
    placed := nofun
    made := fun own owned => .inl (made own (stages_at { world with lockPath := none } call stage ▸ owned))
    holds := by
      intro own owned
      rw [stages_at, free] at owned
      cases owned
    kept := by
      intro other different own owned
      rw [alone other different] at owned
      cases owned
    signed := guarded.signed
    reclaim := fun file owned => .inl (reclaim file (stages_at { world with lockPath := none } call stage ▸ owned))
    knows := by
      rw [stages_at]
      exact knows _
    doomed := fun other different file owned placed =>
      ⟨placed, fun inode doomed => absurd doomed (undecided other different file owned placed inode)⟩ }

theorem Guarded.drops (free : Stage.held stage = none) (bare : Stage.reclaim stage = none)
    (knows : ∀ next : World Call, next.now = world.now → Knows settings next stage) :
    Guarded settings ({ world with reclaimPath := none }.at call stage) := by
  apply guarded.moves call
  exact {
    others := others_at { world with reclaimPath := none } call stage
    now := Int.le_refl _
    nextInode := Nat.le_refl _
    placed := guarded.placed
    made := fun own owned => .inl (made own (stages_at { world with reclaimPath := none } call stage ▸ owned))
    holds := by
      intro own owned
      rw [stages_at, free] at owned
      cases owned
    kept := fun other _ => guarded.holds other
    signed := guarded.signed
    reclaim := by
      intro file owned
      rw [stages_at, bare] at owned
      cases owned
    knows := by
      rw [stages_at]
      exact knows _ rfl
    doomed := nofun }

end

section

variable (guarded : Guarded settings world)
include guarded

theorem guarded_createLock (free : world.lockPath = none) :
    Guarded settings ({ world.create with lockPath := some world.nextInode }.at call (.writing world.nextInode)) := by
  apply guarded.moves call
  exact {
    others := others_at { world.create with lockPath := some world.nextInode } call _
    now := Int.le_refl _
    nextInode := Nat.le_succ _
    placed := by
      intro inode placed
      cases placed
      exact Nat.lt_succ_self _
    made := by
      intro own owned
      rw [stages_at] at owned
      cases owned
      exact .inr ⟨Nat.le_refl _, Nat.lt_succ_self _⟩
    holds := by
      intro own owned
      rw [stages_at] at owned
      cases owned
      rfl
    kept := by
      intro other _ own owned
      have held := guarded.holds other own owned
      rw [free] at held
      cases held
    signed := guarded.signed
    reclaim := by
      intro file owned
      rw [stages_at] at owned
      cases owned
    knows := by
      rw [stages_at]
      trivial
    doomed := by
      intro other _ file _ placed
      refine ⟨placed, fun inode doomed => ?_⟩
      have there := doomed.1
      rw [free] at there
      cases there }

theorem guarded_createReclaim {purpose : Purpose}
    (made : ∀ own ∈ Purpose.left purpose, own ∈ Stage.made (world.stages call)) (judged : Judged settings world purpose) :
    Guarded settings
      ({ world.create with reclaimPath := some world.nextInode }.at call (.writingReclaim purpose world.nextInode)) := by
  apply guarded.moves call
  exact {
    others := others_at { world.create with reclaimPath := some world.nextInode } call _
    now := Int.le_refl _
    nextInode := Nat.le_succ _
    placed := fun inode placed => Nat.lt_succ_of_lt (guarded.placed inode placed)
    made := by
      intro own owned
      rw [stages_at] at owned
      exact .inl (made own owned)
    holds := by
      intro own owned
      rw [stages_at] at owned
      cases owned
    kept := fun other _ => guarded.holds other
    signed := guarded.signed
    reclaim := by
      intro file owned
      rw [stages_at] at owned
      cases owned
      exact .inr ⟨Nat.le_refl _, Nat.lt_succ_self _⟩
    knows := by
      rw [stages_at]
      exact Judged.later (Int.le_refl _) judged
    doomed := by
      intro other _ file owned placed
      have older := guarded.reclaimed other file owned
      exact absurd (some.inj placed) (Nat.ne_of_gt older) }

theorem Guarded.rests (bare : Stage.made stage = none) (empty : Stage.reclaim stage = none)
    (knows : Knows settings world stage) : Guarded settings (world.at call stage) := by
  apply guarded.waits
  · intro own owned
    rw [bare] at owned
    cases owned
  · intro own owned
    have made := made_of_held owned
    rw [bare] at made
    cases made
  · intro file owned
    rw [empty] at owned
    cases owned
  · exact knows

theorem Guarded.keeps (made : Stage.made stage = Stage.made (world.stages call)) (free : Stage.held stage = none)
    (reclaim : Stage.reclaim stage = Stage.reclaim (world.stages call)) (knows : Knows settings world stage) : Guarded settings (world.at call stage) := by
  apply guarded.waits
  · exact fun own owned => made ▸ owned
  · intro own owned
    rw [free] at owned
    cases owned
  · exact fun file owned => reclaim ▸ owned
  · exact knows

theorem Guarded.gives_up {reclaim : Nat} (mine : Stage.reclaim (world.stages call) = some reclaim) (purpose : Purpose)
    (failed : Bool) : Guarded settings (world.at call (.dropping purpose reclaim failed)) := by
  have bare : ∀ own, own ∉ Stage.made (.dropping purpose reclaim failed) := nofun
  apply guarded.waits
  · exact fun own owned => absurd owned (bare own)
  · exact fun own owned => absurd (made_of_held owned) (bare own)
  · exact fun file owned => mine ▸ owned
  · trivial

theorem Guarded.rests_after (purpose : Purpose) (failed : Bool) :
    Guarded settings (world.at call (purpose.after failed)) :=
  guarded.rests (made_after purpose failed) (reclaim_after purpose failed) (knows_after purpose failed)

theorem guarded_undo (reached : world.stages call = .undoing own) :
    Guarded settings ({ world with lockPath := none }.at call .finished) := by
  have mine : own ∈ Stage.held (world.stages call) := by
    rw [reached]
    rfl
  have there := guarded.holds call own mine
  have bare : ∀ inode, inode ∉ Stage.made .finished ∧ inode ∉ Stage.reclaim .finished := fun _ => ⟨nofun, nofun⟩
  apply guarded.unlinks
  · exact fun inode owned => absurd owned (bare inode).1
  · rfl
  · exact fun inode owned => absurd owned (bare inode).2
  · exact fun _ => trivial
  · intro other different
    by_contra holding
    obtain ⟨inode, held⟩ := ne_none_iff_exists'.mp holding
    have again := guarded.holds other inode held
    rw [there, some.injEq] at again
    exact different (guarded.apart other call own (made_of_held (again ▸ held)) (made_of_held mine))
  · intro other _ file _ _ inode doomed
    have same := doomed.1
    rw [there, some.injEq] at same
    exact doomed.2 call (same ▸ mine)

theorem guarded_remove {reclaim : Nat} (mine : Stage.reclaim (world.stages call) = some reclaim)
    (placed : world.reclaimPath = some reclaim) (doomed : Doomed world inode) (purpose : Purpose) (failed : Bool) :
    Guarded settings ({ world with lockPath := none }.at call (.dropping purpose reclaim failed)) := by
  have bare : ∀ own, own ∉ Stage.made (.dropping purpose reclaim failed) := nofun
  apply guarded.unlinks
  · exact fun own owned => absurd owned (bare own)
  · rfl
  · exact fun file owned => mine ▸ owned
  · exact fun _ => trivial
  · intro other _
    by_contra holding
    obtain ⟨own, held⟩ := ne_none_iff_exists'.mp holding
    have there := guarded.holds other own held
    rw [doomed.1, some.injEq] at there
    exact doomed.2 other (there ▸ held)
  · intro other different file owned again
    rw [placed, some.injEq] at again
    exact absurd (guarded.reclaimsApart other call reclaim (again ▸ owned) mine) different

end

section Steps

variable {works : Bool}

section

variable (guarded : Guarded settings world)
include guarded

theorem guarded_lock (reached : world.stages call = stage) (stepped : lockStep settings world call works stage = some next) : Guarded settings next := by
  cases stage with
  | opening =>
    simp only [lockStep] at stepped
    split_ifs at stepped
    · cases stepped
      exact guarded.rests rfl rfl trivial
    · split at stepped
      next free =>
        cases stepped
        exact guarded_createLock guarded free
      next =>
        cases stepped
        exact guarded.rests rfl rfl trivial
  | writing own =>
    simp only [lockStep] at stepped
    split_ifs at stepped
    · cases stepped
      have written : Guarded settings (world.write own (some own)) :=
        guarded_write guarded fun token same => (some.inj same).symm
      apply written.waits
      · exact fun file owned => reached ▸ owned
      · exact fun file owned => reached ▸ owned
      · nofun
      · trivial
    · cases stepped
      apply guarded.waits
      · exact fun file owned => reached ▸ owned
      · exact fun file owned => reached ▸ owned
      · nofun
      · trivial
  | undoing own =>
    cases works with
    | true =>
      cases stepped
      exact guarded_undo guarded reached
    | false =>
      cases stepped
      exact guarded.rests rfl rfl trivial
  | statting =>
    simp only [lockStep] at stepped
    split at stepped
    · cases stepped
      exact guarded.rests rfl rfl trivial
    · cases stepped
      exact guarded.rests rfl rfl trivial
  | readingOwner mtimeMs =>
    cases stepped
    exact guarded.rests rfl rfl trivial
  | judging observation =>
    simp only [lockStep] at stepped
    split_ifs at stepped with stale
    · cases stepped
      exact guarded.rests rfl rfl stale
    · cases stepped
      exact guarded.rests rfl rfl trivial
    · cases stepped
      exact guarded.rests rfl rfl trivial
  | _ => cases stepped

theorem guarded_reclaim (reached : world.stages call = stage)
    (stepped : reclaimStep settings world call works stage = some next) : Guarded settings next := by
  cases stage with
  | openingReclaim purpose =>
    have judged : Judged settings world purpose := guarded.knowsAt reached
    simp only [reclaimStep] at stepped
    split_ifs at stepped
    · cases stepped
      exact guarded.rests_after purpose true
    · split at stepped
      next =>
        cases stepped
        exact guarded_createReclaim guarded (fun own left => reached ▸ left) judged
      next =>
        cases stepped
        exact guarded.keeps (reached ▸ rfl) rfl (reached ▸ rfl) judged
  | stattingReclaim purpose =>
    have judged : Judged settings world purpose := guarded.knowsAt reached
    simp only [reclaimStep] at stepped
    split at stepped
    next =>
      cases stepped
      exact guarded.keeps (reached ▸ rfl) rfl (reached ▸ rfl) judged
    next =>
      cases stepped
      exact guarded.rests_after purpose false
  | judgingReclaim purpose mtimeMs =>
    have judged : Judged settings world purpose := guarded.knowsAt reached
    simp only [reclaimStep] at stepped
    split_ifs at stepped
    · cases stepped
      exact guarded.keeps (reached ▸ rfl) rfl (reached ▸ rfl) judged
    · cases stepped
      exact guarded.rests_after purpose false
  | unlinkingReclaim purpose =>
    have judged : Judged settings world purpose := guarded.knowsAt reached
    simp only [reclaimStep] at stepped
    split at stepped
    next =>
      cases stepped
      exact guarded.drops (fun own left => reached ▸ left) rfl rfl
        fun _ same => Judged.later (Int.le_of_eq same.symm) judged
    next =>
      cases stepped
      exact guarded.rests_after purpose false
  | reopeningReclaim purpose =>
    have judged : Judged settings world purpose := guarded.knowsAt reached
    simp only [reclaimStep] at stepped
    split_ifs at stepped
    · cases stepped
      exact guarded.rests_after purpose true
    · split at stepped
      next =>
        cases stepped
        exact guarded_createReclaim guarded (fun own left => reached ▸ left) judged
      next =>
        cases stepped
        exact guarded.rests_after purpose false
  | writingReclaim purpose reclaim =>
    have judged : Judged settings world purpose := guarded.knowsAt reached
    simp only [reclaimStep] at stepped
    split_ifs at stepped
    · cases stepped
      have written : Guarded settings (world.write reclaim none) := guarded_write guarded nofun
      cases purpose with
      | unlinkLockIfOwner ownerToken startsOver => exact written.keeps (reached ▸ rfl) rfl (reached ▸ rfl) trivial
      | unlinkStaleLockIfUnchanged observation => exact written.keeps (reached ▸ rfl) rfl (reached ▸ rfl) judged
    · cases stepped
      exact guarded.gives_up (reached ▸ rfl) _ _
  | _ => cases stepped

theorem guarded_stale (refreshed : Refreshed settings world) (reclaiming : Reclaiming world (.proceed call works))
    (reached : world.stages call = stage) (stepped : staleStep settings world call works stage = some next) : Guarded settings next := by
  cases stage with
  | restatting observation reclaim =>
    have stale : isStale settings world observation.observedMtimeMs = true := guarded.knowsAt reached
    simp only [staleStep] at stepped
    split at stepped
    next inode there =>
      cases stepped
      apply guarded.keeps (reached ▸ rfl) rfl (reached ▸ rfl)
      intro _ same
      rw [← same] at stale
      exact doomed_of_refreshed refreshed there stale
    next =>
      cases stepped
      exact guarded.keeps (reached ▸ rfl) rfl (reached ▸ rfl) trivial
  | rejudging observation reclaim currentStat =>
    have knows := guarded.knowsAt reached
    simp only [staleStep] at stepped
    split_ifs at stepped with unchanged
    · cases stepped
      exact guarded.keeps (reached ▸ rfl) rfl (reached ▸ rfl) fun placed => knows placed unchanged.1
    · cases stepped
      exact guarded.keeps (reached ▸ rfl) rfl (reached ▸ rfl) trivial
  | rereading observation reclaim currentStat =>
    have knows : world.reclaimPath = some reclaim → Doomed world currentStat.inode := guarded.knowsAt reached
    simp only [staleStep] at stepped
    split_ifs at stepped
    all_goals cases stepped
    · exact guarded.keeps (reached ▸ rfl) rfl (reached ▸ rfl) knows
    · exact guarded.keeps (reached ▸ rfl) rfl (reached ▸ rfl) trivial
    · exact guarded.keeps (reached ▸ rfl) rfl (reached ▸ rfl) knows
    · exact guarded.keeps (reached ▸ rfl) rfl (reached ▸ rfl) trivial
  | unlinkingStale observation reclaim currentStat =>
    have knows : world.reclaimPath = some reclaim → Doomed world currentStat.inode := guarded.knowsAt reached
    cases works with
    | true =>
      cases stepped
      have placed : world.reclaimPath = some reclaim := reclaiming reclaim (reached ▸ rfl)
      exact guarded_remove guarded (reached ▸ rfl) placed (knows placed) _ _
    | false =>
      cases stepped
      exact guarded.keeps (reached ▸ rfl) rfl (reached ▸ rfl) trivial
  | _ => cases stepped

theorem guarded_own (reclaiming : Reclaiming world (.proceed call works)) (reached : world.stages call = stage)
    (stepped : ownStep world call works stage = some next) : Guarded settings next := by
  cases stage with
  | openingOwn ownerToken startsOver reclaim =>
    simp only [ownStep] at stepped
    split at stepped
    next =>
      cases stepped
      exact guarded.keeps (reached ▸ rfl) rfl (reached ▸ rfl) trivial
    next =>
      cases stepped
      exact guarded.gives_up (reached ▸ rfl) _ _
  | readingOwn ownerToken startsOver reclaim opened =>
    simp only [ownStep] at stepped
    split_ifs at stepped with read
    · cases stepped
      simp only [Bool.and_eq_true, decide_eq_true_eq] at read
      exact guarded.keeps (reached ▸ rfl) rfl (reached ▸ rfl) (guarded.signed opened ownerToken read.2).symm
    · cases stepped
      exact guarded.gives_up (reached ▸ rfl) _ _
  | stattingOwn ownerToken startsOver reclaim opened =>
    have mine : opened = ownerToken := guarded.knowsAt reached
    simp only [ownStep] at stepped
    split_ifs at stepped with same
    · cases stepped
      simp only [Bool.and_eq_true, decide_eq_true_eq] at same
      apply guarded.keeps (reached ▸ rfl) rfl (reached ▸ rfl)
      refine fun _ => ⟨same.2, fun other held => ?_⟩
      have again : other = call := by
        apply guarded.apart other call opened (made_of_held held)
        rw [reached, mine]
        rfl
      rw [again, reached] at held
      cases held
    · cases stepped
      exact guarded.gives_up (reached ▸ rfl) _ _
  | unlinkingOwn ownerToken startsOver reclaim opened =>
    have knows : world.reclaimPath = some reclaim → Doomed world opened := guarded.knowsAt reached
    cases works with
    | true =>
      cases stepped
      have placed : world.reclaimPath = some reclaim := reclaiming reclaim (reached ▸ rfl)
      exact guarded_remove guarded (reached ▸ rfl) placed (knows placed) _ _
    | false =>
      cases stepped
      exact guarded.gives_up (reached ▸ rfl) _ _
  | dropping purpose reclaim failed =>
    cases works with
    | true =>
      cases stepped
      apply guarded.drops
      · intro own owned
        rw [made_after] at owned
        cases owned
      · by_contra holding
        obtain ⟨own, held⟩ := ne_none_iff_exists'.mp holding
        have made := made_of_held held
        rw [made_after] at made
        cases made
      · exact reclaim_after purpose failed
      · exact fun next _ => knows_after purpose failed
    | false =>
      cases stepped
      exact guarded.rests_after purpose failed
  | _ => cases stepped

theorem guarded_proceed (refreshed : Refreshed settings world) (reclaiming : Reclaiming world (.proceed call works))
    (stepped : proceed settings world call works = some next) : Guarded settings next := by
  unfold proceed at stepped
  split at stepped
  all_goals first
    | exact guarded_lock guarded rfl stepped
    | exact guarded_reclaim guarded rfl stepped
    | exact guarded_stale guarded refreshed reclaiming rfl stepped
    | exact guarded_own guarded reclaiming rfl stepped
    | cases stepped

end

end Steps

theorem guarded_step {action : Action Call} (guarded : Guarded settings world) (careful : Careful settings world action)
    (stepped : step settings world action = some next) : Guarded settings next := by
  cases action with
  | tick elapsed =>
    cases stepped
    exact guarded_tick guarded elapsed
  | acquire call madeDir =>
    simp only [step] at stepped
    split_ifs at stepped
    · cases stepped
      exact (guarded.retimed world.mtimeMs _ world.beats).rests rfl rfl trivial
    · cases stepped
      exact guarded.rests rfl rfl trivial
  | proceed call works => exact guarded_proceed guarded careful.1 careful.2 stepped
  | leave call startsOver =>
    simp only [step] at stepped
    split at stepped
    next own reached =>
      cases stepped
      exact guarded.keeps (reached ▸ rfl) rfl (reached ▸ rfl) trivial
    next => cases stepped
  | crash call =>
    cases stepped
    exact guarded.rests rfl rfl trivial
  | beat call =>
    simp only [step] at stepped
    split at stepped
    next =>
      cases stepped
      exact guarded.retimed world.mtimeMs world.startedAt _
    next => cases stepped
  | utimes call date =>
    simp only [step] at stepped
    split_ifs at stepped
    split at stepped
    next =>
      cases stepped
      exact guarded.retimed _ world.startedAt _
    next =>
      cases stepped
      exact guarded.retimed world.mtimeMs world.startedAt _

/-- In every run in which a call removes the lock only while its own reclaim file is in place, no two callbacks run at the
same time. -/
theorem key_lock_excludes {now : Int} (reached : Reaches (step settings) (Careful settings) (initial now) world) :
    Excludes world := by
  have guarded : Guarded settings world := by
    apply reached.invariant (Guarded settings)
    · exact guarded_initial now
    · exact fun _ _ _ guarded careful stepped => guarded_step guarded careful stepped
  exact excludes_of_guarded guarded

instance [Fintype Call] (settings : Settings) (world : World Call) : Decidable (Refreshed settings world) := by
  unfold Refreshed
  infer_instance

instance (world : World Call) (action : Action Call) : Decidable (Reclaiming world action) := by
  unfold Reclaiming
  split <;> infer_instance

instance [Fintype Call] (settings : Settings) (world : World Call) (action : Action Call) :
    Decidable (Careful settings world action) := inferInstanceAs (Decidable (_ ∧ _))

def sampleSettings : Settings := ⟨10, 1000⟩

def proceeds (call : Fin 4) (count : Nat) : List (Action (Fin 4)) := List.replicate count (.proceed call true)

/-- A holder of the lock and a call about to break it crash: both files stay, and become stale. -/
def leftBehind : List (Action (Fin 4)) :=
  [.acquire 0 true] ++ proceeds 0 2 ++ [.crash 0, .tick 100, .acquire 1 true] ++ proceeds 1 5 ++ [.crash 1, .tick 100]

/-- A call finds both files stale, and is about to remove the reclaim file. -/
def findsStale (call : Fin 4) : List (Action (Fin 4)) := .acquire call true :: proceeds call 7

def breaksAlone : List (Action (Fin 4)) := leftBehind ++ findsStale 2 ++ proceeds 2 10

theorem key_lock_excludes_breaksAlone : ∃ world : World (Fin 4),
    Reaches (step sampleSettings) (Careful sampleSettings) (initial 0) world ∧ (∃ own, world.stages 2 = .critical own) ∧
      Excludes world := by
  refine exists_reached (fun world => world.stages 2 = .critical 3) breaksAlone (by decide +kernel) ?_
  intro world reached inside
  exact ⟨⟨3, inside⟩, key_lock_excludes reached⟩

/-- Two calls find both files stale. One removes the reclaim file and has checked the lock when the other removes the new
reclaim file, breaks the lock and enters; the first then removes the lock of the second. -/
def breakTwice : List (Action (Fin 4)) :=
  leftBehind ++ findsStale 2 ++ findsStale 3 ++ proceeds 3 6 ++ proceeds 2 10 ++ proceeds 3 4

/-- Every holder is fresh at every step of the run, and two callbacks run at its end. -/
theorem two_callbacks_run : ∃ world : World (Fin 4),
    Reaches (step sampleSettings) (fun world _ => Refreshed sampleSettings world) (initial 0) world ∧
      Refreshed sampleSettings world ∧ ¬ Excludes world := by
  refine exists_reached (fun world => Refreshed sampleSettings world ∧ world.stages 2 = .critical 4 ∧
    world.stages 3 = .critical 5) breakTwice (by decide +kernel) ?_
  intro world _ ⟨refreshed, first, second⟩
  refine ⟨refreshed, fun excludes => ?_⟩
  have same := excludes 2 3 4 5 first second
  exact absurd same (by decide)

end Remnic.Idempotency.KeyLockExclusion
