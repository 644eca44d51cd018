import Mathlib.Tactic.SplitIfs
import Remnic.FileLock.Steps
import Remnic.Library.Transition

/-!
Who may be in its critical section beside whom, over all interleavings of the
file-system operations of any number of calls.
-/

namespace Remnic.FileLock.Exclusion

open Library.Transition Steps Option Function

variable {Call : Type}

/-- The inode a call holds the lock with, from the start of its task to the end of the release. -/
def Stage.held : Stage Call → Option Nat
  | .critical own | .prechecking own | .claiming own => some own
  | _ => none

/-- The inode a call is about to enter with. -/
def Stage.entered : Stage Call → Option Nat
  | .entering own => some own
  | _ => none

/-- The inode a call is about to remove from the lock path as its own. -/
def Stage.removed : Stage Call → Option Nat
  | .undoing own | .claiming own => some own
  | _ => none

/-- What a call that is about to rename has judged stale. -/
def Stage.judged : Stage Call → Option Judgement
  | .renaming judgement _ => some judgement
  | _ => none

/-- The condition of each operation: a call enters while its own file is at the lock path;
a rename of a stale lock moves the file that was judged, which is still stale; a call that
removes its own file finds it at the path; a refresh sets no file back. -/
def Careful (settings : Settings) (world : World Call) : Action Call → Prop
  | .enter call => ∀ own ∈ Stage.entered (world.stages call), world.lockPath = some own
  | .rename call => ∀ judgement ∈ Stage.judged (world.stages call), ∀ inode ∈ world.lockPath,
    inode = judgement.inode ∧ isStale settings world (world.mtimeMs inode) = true
  | .unlinkMalformed call | .claim call => ∀ own ∈ Stage.removed (world.stages call), ∀ inode ∈ world.lockPath, inode = own
  | .utimes _ date => ∀ inode ∈ world.lockPath, world.mtimeMs inode ≤ date
  | _ => True

def Fresh (settings : Settings) (world : World Call) (call : Call) : Prop :=
  world.now - world.refreshedAt call ≤ settings.staleMs

/-- No call enters while another holds a fresh lock, and no lock is renamed away that is
younger than the decision to break it. -/
def Excludes (settings : Settings) (world : World Call) : Action Call → Prop
  | .enter call => ∀ own ∈ Stage.entered (world.stages call),
    ∀ other, other ≠ call → (Stage.held (world.stages other)).isSome → ¬ Fresh settings world other
  | .rename call => ∀ judgement ∈ Stage.judged (world.stages call), ∀ inode ∈ world.lockPath, inode < judgement.since
  | _ => True

/-- The files a call has looked at or moved exist, and what it judged was there by then. -/
def Stage.Known (count : Nat) : Stage Call → Prop
  | .judging inode _ | .verifying inode _ | .statingTrash inode | .judgingTrash inode _ | .restoring inode | .rechecking inode
  | .returning inode => inode < count
  | .reading judgement | .rereading judgement _ | .restatting judgement _ | .rejudging judgement _ _
  | .renaming judgement _ => judgement.inode < judgement.since
  | _ => True

/-- A call that holds the lock has its file at the lock path unless it is overdue. -/
structure Guarded (settings : Settings) (world : World Call) : Prop where
  placed : ∀ inode ∈ world.lockPath, inode < world.nextInode
  known : ∀ call, Stage.Known world.nextInode (world.stages call)
  created : ∀ call, ∀ own ∈ (world.stages call).own, own < world.nextInode
  dated : ∀ call, ∀ own ∈ (world.stages call).own, world.refreshedAt call ≤ world.mtimeMs own
  distinct : ∀ first second own, own ∈ (world.stages first).own → own ∈ (world.stages second).own → first = second
  holds : ∀ call, ∀ own ∈ Stage.held (world.stages call), world.lockPath = some own ∨ ¬ Fresh settings world call

variable {stage : Stage Call} {own inode : Nat} {action : Action Call}

theorem own_of_held (held : own ∈ Stage.held stage) : own ∈ stage.own := by
  cases stage <;> first | exact held | contradiction

theorem known_of_own (owned : stage.own = some own) (count : Nat) : Stage.Known count stage := by
  cases stage <;> trivial

theorem Stage.Known.succ {count : Nat} (known : Stage.Known count stage) : Stage.Known (count + 1) stage := by
  cases stage <;> first | exact Nat.lt_succ_of_lt known | exact known

variable {settings : Settings} {world next : World Call} {call : Call}

/-- A step of one call that leaves every file and the clock as they are. -/
structure Moves (world next : World Call) (call : Call) (stage : Stage Call) : Prop where
  mtimeMs : next.mtimeMs = world.mtimeMs
  nextInode : next.nextInode = world.nextInode
  now : next.now = world.now
  refreshedAt : next.refreshedAt = world.refreshedAt
  reached : next.stages call = stage
  others : ∀ other, other ≠ call → next.stages other = world.stages other

section

variable (guarded : Guarded settings world)
include guarded

theorem Guarded.moves (moves : Moves world next call stage) (placed : ∀ inode ∈ next.lockPath, inode < world.nextInode)
    (known : Stage.Known world.nextInode stage) (own : ∀ inode ∈ stage.own, inode ∈ (world.stages call).own)
    (held : ∀ inode ∈ Stage.held stage, next.lockPath = some inode ∨ ¬ Fresh settings world call)
    (path : ∀ other, other ≠ call → ∀ inode ∈ Stage.held (world.stages other), world.lockPath = some inode →
      next.lockPath = some inode ∨ ¬ Fresh settings world other) : Guarded settings next := by
  have kept (other : Call) (inode : Nat) (owned : inode ∈ (next.stages other).own) : inode ∈ (world.stages other).own := by
    by_cases same : other = call
    · rw [same, moves.reached] at owned
      exact same ▸ own inode owned
    · rwa [moves.others other same] at owned
  have fresh (other : Call) : Fresh settings next other ↔ Fresh settings world other := by
    rw [Fresh, Fresh, moves.now, moves.refreshedAt]
  refine ⟨fun inode there => ?_, fun other => ?_, fun other inode owned => ?_, fun other inode owned => ?_,
    fun first second inode one two => ?_, fun other inode holds => ?_⟩
  · rw [moves.nextInode]
    exact placed inode there
  · rw [moves.nextInode]
    by_cases same : other = call
    · rw [same, moves.reached]
      exact known
    · rw [moves.others other same]
      exact guarded.known other
  · rw [moves.nextInode]
    exact guarded.created other inode (kept other inode owned)
  · rw [moves.refreshedAt, moves.mtimeMs]
    exact guarded.dated other inode (kept other inode owned)
  · exact guarded.distinct first second inode (kept first inode one) (kept second inode two)
  · rw [fresh]
    by_cases same : other = call
    · rw [same, moves.reached] at holds
      exact same ▸ held inode holds
    · rw [moves.others other same] at holds
      rcases guarded.holds other inode holds with there | overdue
      · exact path other same inode holds there
      · exact .inr overdue

theorem overdue_of_stale (stale : isStale settings world (world.mtimeMs inode) = true) (other : Call)
    (owned : inode ∈ (world.stages other).own) : ¬ Fresh settings world other := by
  have dated := guarded.dated other inode owned
  have late : settings.staleMs < world.now - world.mtimeMs inode := of_decide_eq_true stale
  unfold Fresh
  omega

theorem Guarded.knows (reached : world.stages call = stage) :
    Stage.Known world.nextInode stage := reached ▸ guarded.known call

theorem guarded_tick (elapsed : Nat) : Guarded settings { world with now := world.now + elapsed } := by
  refine ⟨guarded.placed, guarded.known, guarded.created, guarded.dated, guarded.distinct, fun other own holds => ?_⟩
  rcases guarded.holds other own holds with there | overdue
  · exact .inl there
  · unfold Fresh at overdue
    refine .inr fun fresh => ?_
    unfold Fresh at fresh
    simp only at fresh
    omega

end

theorem guarded_initial (now : Int) : Guarded settings (initial now : World Call) :=
  ⟨nofun, fun _ => trivial, nofun, nofun, nofun, nofun⟩

theorem excludes_of_guarded (guarded : Guarded settings world) (careful : Careful settings world action) :
    Excludes settings world action := by
  cases action with
  | enter call =>
    intro own entering other different holding
    obtain ⟨inode, held⟩ := isSome_iff_exists.mp holding
    have entered : own ∈ (world.stages call).own := by
      generalize world.stages call = stage at entering
      cases stage <;> first | exact entering | contradiction
    rcases guarded.holds other inode held with there | overdue
    · rw [careful own entering, some.injEq] at there
      exact absurd (guarded.distinct other call own (there ▸ own_of_held held) entered) different
    · exact overdue
  | rename call =>
    intro judgement judged inode there
    have known : judgement.inode < judgement.since := by
      have knows := guarded.known call
      generalize world.stages call = stage at judged knows
      cases stage <;> first | contradiction | (cases judged; exact knows)
    exact (careful judgement judged inode there).1 ▸ known
  | _ => trivial

variable [DecidableEq Call]

theorem moves_at (world : World Call) (lockPath : Option Nat) (call : Call) (stage : Stage Call) :
    Moves world ({ world with lockPath }.at call stage) call stage where
  mtimeMs := rfl
  nextInode := rfl
  now := rfl
  refreshedAt := rfl
  reached := update_self _ _ _
  others _ other := update_of_ne other _ _

section

variable (guarded : Guarded settings world)
include guarded

theorem Guarded.waits (free : stage.own = none) (known : Stage.Known world.nextInode stage) :
    Guarded settings (world.at call stage) := by
  refine guarded.moves (moves_at world world.lockPath call stage) guarded.placed known (fun inode owned => ?_)
    (fun inode held => ?_) fun _ _ _ _ there => .inl there
  · rw [free] at owned
    contradiction
  · have owned := own_of_held held
    rw [free] at owned
    contradiction

theorem Guarded.keeps (before : (world.stages call).own = some own) (after : stage.own = some own)
    (held : ∀ inode ∈ Stage.held stage, world.lockPath = some inode ∨ ¬ Fresh settings world call) :
    Guarded settings (world.at call stage) :=
  guarded.moves (moves_at world world.lockPath call stage) guarded.placed (known_of_own after _)
    (fun inode owned => by rw [before, ← after]; exact owned) held fun _ _ _ _ there => .inl there

theorem Guarded.unlinks (free : stage.own = none) (known : Stage.Known world.nextInode stage)
    (overdue : ∀ inode, world.lockPath = some inode → ∀ other, other ≠ call → inode ∈ (world.stages other).own →
      ¬ Fresh settings world other) : Guarded settings ({ world with lockPath := none }.at call stage) := by
  refine guarded.moves (moves_at world none call stage) nofun known (fun inode owned => ?_) (fun inode held => ?_)
    fun other different inode held there => .inr (overdue inode there other different (own_of_held held))
  · rw [free] at owned
    contradiction
  · have owned := own_of_held held
    rw [free] at owned
    contradiction

theorem Guarded.relinks {moved : Nat} (created : moved < world.nextInode) (free : stage.own = none)
    (known : Stage.Known world.nextInode stage) : Guarded settings ((world.relink moved).at call stage) := by
  refine guarded.moves (moves_at world _ call stage) (fun inode there => ?_) known (fun inode owned => ?_)
    (fun inode held => ?_)
    fun other different inode held there => .inl (by simp only [World.at, World.relink, there, getD_some])
  · cases path : world.lockPath with
    | none =>
      simp only [World.at, World.relink, path, getD_none, mem_def, some.injEq] at there
      exact there ▸ created
    | some placed =>
      simp only [World.at, World.relink, path, getD_some, mem_def, some.injEq] at there
      exact there ▸ guarded.placed placed path
  · rw [free] at owned
    contradiction
  · have owned := own_of_held held
    rw [free] at owned
    contradiction

theorem guarded_create (free : world.lockPath = none) : Guarded settings (world.create call) := by
  have own (other : Call) (inode : Nat) (owned : inode ∈ ((world.create call).stages other).own) :
      other = call ∧ inode = world.nextInode ∨ other ≠ call ∧ inode ∈ (world.stages other).own := by
    by_cases same : other = call
    · simp only [same, World.create, update_self] at owned
      exact .inl ⟨same, (some.inj owned).symm⟩
    · simp only [World.create, update_of_ne same] at owned
      exact .inr ⟨same, owned⟩
  refine ⟨fun inode there => ?_, fun other => ?_, fun other inode owned => ?_, fun other inode owned => ?_,
    fun first second inode one two => ?_, fun other inode holds => ?_⟩
  · exact some.inj there ▸ Nat.lt_succ_self _
  · by_cases same : other = call
    · simp only [same, World.create, update_self]
      exact known_of_own rfl _
    · simp only [World.create, update_of_ne same]
      exact (guarded.known other).succ
  · rcases own other inode owned with ⟨_, fresh⟩ | ⟨_, before⟩
    · exact fresh ▸ Nat.lt_succ_self _
    · exact Nat.lt_succ_of_lt (guarded.created other inode before)
  · rcases own other inode owned with ⟨same, fresh⟩ | ⟨different, before⟩
    · rw [same, fresh]
      simp [World.create]
    · have old := Nat.ne_of_lt (guarded.created other inode before)
      simp only [World.create, update_of_ne different, update_of_ne old]
      exact guarded.dated other inode before
  · rcases own first inode one with ⟨same, fresh⟩ | ⟨_, before⟩
    · rcases own second inode two with ⟨again, _⟩ | ⟨_, other⟩
      · exact same.trans again.symm
      · exact absurd (guarded.created second inode other) (by omega)
    · rcases own second inode two with ⟨_, fresh⟩ | ⟨_, other⟩
      · exact absurd (guarded.created first inode before) (by omega)
      · exact guarded.distinct first second inode before other
  · by_cases same : other = call
    · simp only [same, World.create, update_self] at holds
      contradiction
    · simp only [World.create, update_of_ne same] at holds
      rcases guarded.holds other inode holds with there | overdue
      · rw [free] at there
        contradiction
      · refine .inr ?_
        simp only [Fresh, World.create, update_of_ne same]
        exact overdue

theorem guarded_writeMeta (stage : world.stages call = .writing own) : Guarded settings (world.writeMeta call own) := by
  have written : (world.stages call).own = some own := by rw [stage]; rfl
  have kept (other : Call) (inode : Nat) (owned : inode ∈ ((world.writeMeta call own).stages other).own) :
      inode ∈ (world.stages other).own := by
    by_cases same : other = call
    · simp only [same, World.writeMeta, update_self] at owned
      rw [same, written]
      exact owned
    · simpa only [World.writeMeta, update_of_ne same] using owned
  refine ⟨guarded.placed, fun other => ?_, fun other inode owned => guarded.created other inode (kept other inode owned),
    fun other inode owned => ?_,
    fun first second inode one two => guarded.distinct first second inode (kept first inode one) (kept second inode two),
    fun other inode holds => ?_⟩
  · by_cases same : other = call
    · simp only [same, World.writeMeta, update_self]
      exact known_of_own rfl _
    · simp only [World.writeMeta, update_of_ne same]
      exact guarded.known other
  · have before := kept other inode owned
    by_cases same : other = call
    · have itself : inode = own := some.inj (before.symm.trans (same ▸ written))
      simp only [same, itself, World.writeMeta, update_self]
      exact Int.le_refl _
    · have different : inode ≠ own := fun itself => same (guarded.distinct other call inode before (itself ▸ written))
      simp only [World.writeMeta, update_of_ne same, update_of_ne different]
      exact guarded.dated other inode before
  · by_cases same : other = call
    · simp only [same, World.writeMeta, update_self] at holds
      contradiction
    · simp only [World.writeMeta, update_of_ne same] at holds
      simp only [Fresh, World.writeMeta, update_of_ne same]
      exact guarded.holds other inode holds

theorem guarded_touch {date : Int} (there : world.lockPath = some inode) (later : world.mtimeMs inode ≤ date) : Guarded settings (world.touch call inode date) := by
  have others (other : Call) (own : Nat) (owned : own ∈ (world.stages other).own) (elsewhere : own ≠ inode) :
      (world.touch call inode date).refreshedAt other = world.refreshedAt other := by
    simp only [World.touch]
    split
    next mine =>
      have different : other ≠ call := fun same => elsewhere (some.inj (owned.symm.trans (same ▸ mine)))
      rw [update_of_ne different]
    next => rfl
  refine ⟨guarded.placed, guarded.known, guarded.created, fun other own owned => ?_, guarded.distinct,
    fun other own holds => ?_⟩
  · have dated := guarded.dated other own owned
    by_cases path : own = inode
    · have bound : world.refreshedAt other ≤ date := Int.le_trans dated (path ▸ later)
      simp only [World.touch, path, update_self]
      split
      next mine =>
        by_cases same : other = call
        · rw [same, update_self]
          exact Int.max_le.mpr ⟨same ▸ bound, Int.le_refl _⟩
        · rw [update_of_ne same]
          exact bound
      next => exact bound
    · rw [others other own owned path]
      simp only [World.touch, update_of_ne path]
      exact dated
  · rcases guarded.holds other own holds with path | overdue
    · exact .inl path
    · by_cases path : own = inode
      · exact .inl (path ▸ there)
      · refine .inr ?_
        unfold Fresh at overdue ⊢
        rw [others other own (own_of_held holds) path]
        exact overdue

theorem guarded_acquire (careful : Careful settings world action) (stepped : acquireStep settings world action = some next) : Guarded settings next := by
  cases action with
  | acquire call madeDir =>
    simp only [acquireStep] at stepped
    split_ifs at stepped with idle made
    · cases stepped
      have timed : ∀ deadlines, Guarded settings { world with deadlines } := fun _ =>
        ⟨guarded.placed, guarded.known, guarded.created, guarded.dated, guarded.distinct, guarded.holds⟩
      exact (timed _).waits rfl trivial
    · cases stepped
      exact guarded.waits rfl trivial
  | openExclusive call failed =>
    simp only [acquireStep] at stepped
    split_ifs at stepped with opening fails
    · cases stepped
      exact guarded.waits rfl trivial
    · split at stepped
      next free =>
        cases stepped
        exact guarded_create guarded free
      next =>
        cases stepped
        exact guarded.waits rfl trivial
  | writeMeta call written =>
    simp only [acquireStep] at stepped
    split at stepped
    next own stage =>
      cases stepped
      split_ifs
      · exact guarded_writeMeta guarded stage
      · exact guarded.keeps (by rw [stage]; rfl) rfl nofun
    next => contradiction
  | close call closed =>
    simp only [acquireStep] at stepped
    split at stepped
    next own wroteMeta stage =>
      cases stepped
      split_ifs
      · exact guarded.keeps (by rw [stage]; rfl) rfl nofun
      · exact guarded.keeps (by rw [stage]; rfl) rfl nofun
    next => contradiction
  | unlinkMalformed call =>
    simp only [acquireStep] at stepped
    split at stepped
    next own stage =>
      cases stepped
      refine guarded.unlinks rfl trivial fun inode there other different owned => ?_
      have mine : inode = own := careful own (by rw [stage]; rfl) inode there
      exact absurd (guarded.distinct other call inode owned (by rw [stage, mine]; rfl)) different
    next => contradiction
  | enter call =>
    simp only [acquireStep] at stepped
    split at stepped
    next own stage =>
      cases stepped
      have mine : (world.stages call).own = some own := by rw [stage]; rfl
      refine guarded.keeps mine rfl fun inode held => .inl ?_
      rw [← some.inj held]
      exact careful own (by rw [stage]; rfl)
    next => contradiction
  | poll call =>
    simp only [acquireStep] at stepped
    split at stepped
    next stage =>
      cases stepped
      split_ifs
      · exact guarded.waits rfl trivial
      · exact guarded.waits rfl trivial
    next => contradiction
  | _ => contradiction

theorem guarded_check (stepped : checkStep settings world action = some next) : Guarded settings next := by
  cases action with
  | stat call =>
    simp only [checkStep] at stepped
    split at stepped
    next inode stage there =>
      cases stepped
      exact guarded.waits rfl (guarded.placed inode there)
    next =>
      cases stepped
      exact guarded.waits rfl trivial
    next => contradiction
  | judge call =>
    simp only [checkStep] at stepped
    split at stepped
    next inode mtimeMs stage =>
      cases stepped
      have knows := guarded.knows stage
      split_ifs
      · exact guarded.waits rfl knows
      · exact guarded.waits rfl trivial
    next => contradiction
  | readIdentity call =>
    simp only [checkStep] at stepped
    split at stepped
    next judgement inode stage there =>
      cases stepped
      have knows := guarded.knows stage
      exact guarded.waits rfl knows
    next =>
      cases stepped
      exact guarded.waits rfl trivial
    next => contradiction
  | reread call =>
    simp only [checkStep] at stepped
    split at stepped
    next judgement staleIdentity inode stage there =>
      cases stepped
      have knows := guarded.knows stage
      split_ifs
      · exact guarded.waits rfl knows
      · exact guarded.waits rfl trivial
    next =>
      cases stepped
      exact guarded.waits rfl trivial
    next => contradiction
  | restat call =>
    simp only [checkStep] at stepped
    split at stepped
    next judgement staleIdentity inode stage there =>
      cases stepped
      have knows := guarded.knows stage
      exact guarded.waits rfl knows
    next =>
      cases stepped
      exact guarded.waits rfl trivial
    next => contradiction
  | rejudge call =>
    simp only [checkStep] at stepped
    split at stepped
    next judgement staleIdentity mtimeMs stage =>
      cases stepped
      have knows := guarded.knows stage
      split_ifs
      · exact guarded.waits rfl knows
      · exact guarded.waits rfl trivial
    next => contradiction
  | breakFails call =>
    simp only [checkStep] at stepped
    split at stepped
    case h_6 => contradiction
    all_goals
      cases stepped
      exact guarded.waits rfl trivial
  | _ => contradiction

end

section

variable (guarded : Guarded settings world) (careful : Careful settings world action)
include guarded careful

theorem guarded_break (stepped : breakStep settings world action = some next) : Guarded settings next := by
  cases action with
  | rename call =>
    simp only [breakStep] at stepped
    split at stepped
    next judgement staleIdentity inode stage there =>
      cases stepped
      have stale := (careful judgement (by rw [stage]; rfl) inode there).2
      refine guarded.unlinks rfl (guarded.placed inode there) fun other path _ _ owned => ?_
      rw [there, some.injEq] at path
      exact overdue_of_stale guarded stale _ (path ▸ owned)
    next =>
      cases stepped
      exact guarded.waits rfl trivial
    next => contradiction
  | readTrash call read =>
    simp only [breakStep] at stepped
    split at stepped
    next moved staleIdentity stage =>
      cases stepped
      have knows := guarded.knows stage
      split_ifs
      · exact guarded.waits rfl trivial
      · exact guarded.waits rfl knows
      · exact guarded.waits rfl knows
    next => contradiction
  | statTrash call known =>
    simp only [breakStep] at stepped
    split at stepped
    next moved stage =>
      cases stepped
      have knows := guarded.knows stage
      split_ifs
      · exact guarded.waits rfl knows
      · exact guarded.waits rfl trivial
    next => contradiction
  | judgeTrash call =>
    simp only [breakStep] at stepped
    split at stepped
    next moved mtimeMs stage =>
      cases stepped
      have knows := guarded.knows stage
      split_ifs
      · exact guarded.waits rfl trivial
      · exact guarded.waits rfl knows
    next => contradiction
  | restore call =>
    simp only [breakStep] at stepped
    split at stepped
    next moved stage =>
      cases stepped
      have knows := guarded.knows stage
      exact guarded.relinks knows rfl trivial
    next => contradiction
  | discard call =>
    simp only [breakStep] at stepped
    split at stepped
    next stage =>
      cases stepped
      exact guarded.waits rfl trivial
    next => contradiction
  | _ => contradiction

theorem guarded_release (stepped : releaseStep world action = some next) : Guarded settings next := by
  cases action with
  | leave call =>
    simp only [releaseStep] at stepped
    split at stepped
    next own stage =>
      cases stepped
      exact guarded.keeps (by rw [stage]; rfl) rfl fun inode held => guarded.holds call inode (by rw [stage]; exact held)
    next => contradiction
  | precheck call read =>
    simp only [releaseStep] at stepped
    split at stepped
    next own stage =>
      cases stepped
      split_ifs
      · exact guarded.keeps (by rw [stage]; rfl) rfl fun inode held => guarded.holds call inode (by rw [stage]; exact held)
      · exact guarded.waits rfl trivial
    next => contradiction
  | claim call =>
    simp only [releaseStep] at stepped
    split at stepped
    next own inode stage there =>
      cases stepped
      refine guarded.unlinks rfl (guarded.placed inode there) fun other path holder different owned => ?_
      have mine : other = own := careful own (by rw [stage]; rfl) other path
      exact absurd (guarded.distinct holder call other owned (by rw [stage, mine]; rfl)) different
    next =>
      cases stepped
      exact guarded.waits rfl trivial
    next => contradiction
  | recheck call read =>
    simp only [releaseStep] at stepped
    split at stepped
    next moved stage =>
      cases stepped
      have knows := guarded.knows stage
      split_ifs
      · exact guarded.waits rfl knows
      · exact guarded.waits rfl trivial
    next => contradiction
  | giveBack call =>
    simp only [releaseStep] at stepped
    split at stepped
    next moved stage =>
      cases stepped
      have knows := guarded.knows stage
      exact guarded.relinks knows rfl trivial
    next => contradiction
  | _ => contradiction

theorem guarded_refresh (stepped : refreshStep world action = some next) : Guarded settings next := by
  have answered : ∀ ownershipReads, Guarded settings { world with ownershipReads } := fun _ =>
    ⟨guarded.placed, guarded.known, guarded.created, guarded.dated, guarded.distinct, guarded.holds⟩
  cases action with
  | readOwner call =>
    simp only [refreshStep] at stepped
    split_ifs at stepped
    cases stepped
    exact answered _
  | utimes call date =>
    simp only [refreshStep] at stepped
    split at stepped
    next => contradiction
    next read found =>
      split_ifs at stepped
      split at stepped
      next inode there =>
        cases stepped
        exact guarded_touch (answered _) there (careful inode there)
      next =>
        cases stepped
        exact answered _
  | _ => contradiction

theorem guarded_step (stepped : step settings world action = some next) : Guarded settings next := by
  unfold step at stepped
  split at stepped
  next elapsed =>
    cases stepped
    exact guarded_tick guarded elapsed
  all_goals first
    | exact guarded_acquire guarded careful stepped
    | exact guarded_check guarded stepped
    | exact guarded_break guarded careful stepped
    | exact guarded_release guarded careful stepped
    | exact guarded_refresh guarded careful stepped

end

/-- In every run of careful operations no call enters beside a fresh holder, and no rename
takes away a lock that is younger than the decision to break it. -/
theorem lock_excludes {now : Int} {action : Action Call}
    (reached : Reaches (step settings) (Careful settings) (initial now) world) (careful : Careful settings world action) :
    Excludes settings world action := by
  have guarded : Guarded settings world := by
    apply reached.invariant (Guarded settings)
    · exact guarded_initial now
    · exact fun _ _ _ guarded careful stepped => guarded_step guarded careful stepped
  exact excludes_of_guarded guarded careful

instance (world : World Call) (action : Action Call) : Decidable (Careful settings world action) := by
  cases action <;> unfold Careful <;> infer_instance

def sampleSettings : Settings := ⟨10, 1000⟩

/-- A call takes a free lock, up to its return from `acquireLock`. -/
def take (call : Nat) : List (Action Nat) := [.openExclusive call false, .writeMeta call true, .close call true]

/-- A call finds the lock taken and judges it stale, up to the rename. -/
def judgeStale (call : Nat) : List (Action Nat) :=
  [.acquire call true, .openExclusive call false, .stat call, .judge call, .readIdentity call, .reread call, .restat call,
    .rejudge call]

def breakAndTake (call : Nat) : List (Action Nat) :=
  [.rename call, .readTrash call true, .statTrash call true, .judgeTrash call, .discard call, .poll call] ++ take call

def breakStopped : List (Action Nat) :=
  [.acquire 0 true] ++ take 0 ++ [.enter 0, .tick 100] ++ judgeStale 1 ++ breakAndTake 1

theorem lock_excludes_breakStopped : ∃ world : World Nat,
    Reaches (step sampleSettings) (Careful sampleSettings) (initial 0) world ∧
      (∃ own, Stage.held (world.stages 0) = some own) ∧ (∃ own, Stage.entered (world.stages 1) = some own) ∧
        Excludes sampleSettings world (.enter 1) := by
  refine exists_reached (fun world => (Stage.held (world.stages 0)).isSome ∧ (Stage.entered (world.stages 1)).isSome ∧
    Careful sampleSettings world (.enter 1)) breakStopped (by decide +kernel) ?_
  intro world reached ⟨holding, entering, careful⟩
  exact ⟨isSome_iff_exists.mp holding, isSome_iff_exists.mp entering, lock_excludes reached careful⟩

/-- Two calls judge the stopped holder stale; one breaks its lock and enters, then the other
renames that fresh lock away, and a third call takes the free lock. -/
def breakTwice : List (Action Nat) :=
  [.acquire 0 true] ++ take 0 ++ [.enter 0, .tick 100] ++ judgeStale 2 ++ judgeStale 1 ++ breakAndTake 1 ++
    [.enter 1, .rename 2, .acquire 3 true] ++ take 3

theorem fresh_lock_renamed_away : ∃ world : World Nat,
    run (step sampleSettings) breakTwice (initial 0) = some world ∧ ¬ Excludes sampleSettings world (.enter 3) := by
  refine exists_run (fun world => (Stage.held (world.stages 1)).isSome ∧ (Stage.entered (world.stages 3)).isSome ∧
    world.now - world.refreshedAt 1 ≤ sampleSettings.staleMs) (by decide +kernel) ?_
  intro world ⟨holding, entering, fresh⟩ excludes
  obtain ⟨own, entered⟩ := isSome_iff_exists.mp entering
  exact excludes own entered 1 (by decide) holding fresh

end Remnic.FileLock.Exclusion
