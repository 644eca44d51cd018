import Remnic.Library.AppendNew
import Remnic.Library.Transition
import Remnic.Text.CodeUnits

/-!
`LcmWorkQueue`: sessions wait once each, a coalesced microtask starts workers up to a limit, and a worker that ends wakes the
queue or its waiters. Between two steps of the start loop a worker that has just been called may do anything; that a worker
fails is no different from its end. The hooks only observe.
-/

namespace Remnic.Lcm.WorkQueue

open Text.CodeUnits Library.AppendNew Library.Transition
open List hiding beq_eq_decide

inductive Event where
  | enqueued (sessionId : JsString)
  | started (sessionId : JsString)
  deriving DecidableEq, Repr

/-- The fields of the queue. Beside them: whether the microtask is in its start loop, the workers that run, and the events. -/
structure Queue where
  pending : List JsString
  inFlight : Nat
  inFlightSessions : List JsString
  idleWaiters : List Nat
  sessionIdleWaiters : JsString → List Nat
  drainScheduled : Bool
  draining : Bool
  workers : List JsString
  events : List Event

def initial : Queue := ⟨[], 0, [], [], fun _ => [], false, false, [], []⟩

/-- The limit: one job at least, whatever number is asked for. -/
def concurrencyOf (concurrency : Option Rat) : Int := max 1 (concurrency.getD 1).floor

inductive Action where
  | enqueue (sessionId : JsString)
  | whenIdle (waiter : Nat)
  | whenSessionIdle (sessionId : JsString) (waiter : Nat)
  | abortIdle (waiter : Nat)
  | abortSessionIdle (sessionId : JsString) (waiter : Nat)
  | drain
  | startAvailableJob
  | finish (sessionId : JsString)

def Queue.scheduleDrain (queue : Queue) : Queue := { queue with drainScheduled := true }

def Queue.resolveIdleWaitersIfNeeded (queue : Queue) : Queue :=
  if queue.pending ≠ [] ∨ queue.inFlight ≠ 0 then queue else { queue with idleWaiters := [] }

def Queue.waitsFor (queue : Queue) (sessionId : JsString) (waiters : List Nat) : Queue :=
  { queue with sessionIdleWaiters := Function.update queue.sessionIdleWaiters sessionId waiters }

def Queue.resolveSessionIdleWaitersIfNeeded (queue : Queue) (sessionId : JsString) : Queue :=
  if sessionId ∈ queue.pending ∨ sessionId ∈ queue.inFlightSessions then queue else queue.waitsFor sessionId []

def Queue.enqueue (queue : Queue) (sessionId : JsString) : Queue :=
  if sessionId = [] then queue
  else Queue.scheduleDrain { queue with
    pending := appendNew queue.pending [sessionId]
    events := queue.events ++ [.enqueued sessionId] }

/-- One round of the start loop: the first session without a job of its own is started, or the loop ends. -/
def Queue.startAvailableJob (concurrency : Option Rat) (queue : Queue) : Queue :=
  match if (queue.inFlight : Int) < concurrencyOf concurrency then
      queue.pending.find? fun sessionId => sessionId ∉ queue.inFlightSessions else none with
  | some sessionId =>
    { queue with
      pending := queue.pending.filter (· ≠ sessionId)
      inFlight := queue.inFlight + 1
      inFlightSessions := queue.inFlightSessions ++ [sessionId]
      workers := queue.workers ++ [sessionId]
      events := queue.events ++ [.started sessionId] }
  | none => Queue.resolveIdleWaitersIfNeeded { queue with draining := false }

def Queue.finish (queue : Queue) (sessionId : JsString) : Queue :=
  let left := { queue with
    inFlight := queue.inFlight - 1
    inFlightSessions := queue.inFlightSessions.filter (· ≠ sessionId)
    workers := queue.workers.erase sessionId }
  let woken := if left.pending.length > 0 then left.scheduleDrain else left.resolveIdleWaitersIfNeeded
  woken.resolveSessionIdleWaitersIfNeeded sessionId

def step (concurrency : Option Rat) (queue : Queue) : Action → Option Queue
  | .enqueue sessionId => some (queue.enqueue sessionId)
  | .whenIdle waiter =>
    some (if queue.pending = [] ∧ queue.inFlight = 0 then queue else { queue with idleWaiters := queue.idleWaiters ++ [waiter] })
  | .whenSessionIdle sessionId waiter =>
    some (if sessionId ∈ queue.pending ∨ sessionId ∈ queue.inFlightSessions then
      queue.waitsFor sessionId (queue.sessionIdleWaiters sessionId ++ [waiter]) else queue)
  | .abortIdle waiter => some { queue with idleWaiters := queue.idleWaiters.filter (· ≠ waiter) }
  | .abortSessionIdle sessionId waiter =>
    some (queue.waitsFor sessionId ((queue.sessionIdleWaiters sessionId).filter (· ≠ waiter)))
  | .drain =>
    if queue.drainScheduled ∧ queue.draining = false then some { queue with drainScheduled := false, draining := true } else none
  | .startAvailableJob => if queue.draining then some (queue.startAvailableJob concurrency) else none
  | .finish sessionId => if sessionId ∈ queue.workers then some (queue.finish sessionId) else none

/-- Nothing more can happen by itself: no microtask is left, and no worker runs. -/
def Quiet (queue : Queue) : Prop := queue.drainScheduled = false ∧ queue.draining = false ∧ queue.workers = []

/-- Nothing is lost: each session has been started since it was last enqueued, and nobody waits. -/
structure Settled (queue : Queue) : Prop where
  started : ∀ before sessionId after, queue.events = before ++ .enqueued sessionId :: after → .started sessionId ∈ after
  idle : queue.idleWaiters = []
  sessionsIdle : ∀ sessionId, queue.sessionIdleWaiters sessionId = []

structure Sound (concurrency : Option Rat) (queue : Queue) : Prop where
  limit : (queue.workers.length : Int) ≤ concurrencyOf concurrency
  single : queue.workers.Nodup
  settles : Quiet queue → Settled queue

/-- What holds between the steps. A session that is owed a start is pending, what is pending has a wake-up ahead, and whoever
waits, waits for something. -/
structure Inv (concurrency : Option Rat) (queue : Queue) : Prop where
  counted : queue.inFlight = queue.workers.length
  sessions : queue.inFlightSessions = queue.workers
  limit : (queue.workers.length : Int) ≤ concurrencyOf concurrency
  single : queue.workers.Nodup
  wakes : queue.pending ≠ [] → queue.drainScheduled = false → queue.draining = false → queue.workers ≠ []
  owed : ∀ before sessionId after, queue.events = before ++ .enqueued sessionId :: after →
    .started sessionId ∈ after ∨ sessionId ∈ queue.pending
  idle : queue.idleWaiters ≠ [] → queue.pending ≠ [] ∨ queue.workers ≠ []
  sessionsIdle : ∀ sessionId, queue.sessionIdleWaiters sessionId ≠ [] → sessionId ∈ queue.pending ∨ sessionId ∈ queue.workers

variable {concurrency : Option Rat} {queue next : Queue} {sessionId : JsString} {action : Action}

theorem Inv.sound (inv : Inv concurrency queue) : Sound concurrency queue where
  limit := inv.limit
  single := inv.single
  settles := by
    rintro ⟨unscheduled, ended, none⟩
    have empty : queue.pending = [] := by
      by_contra some
      exact inv.wakes some unscheduled ended none
    refine ⟨fun before sessionId after whole => ?_, ?_, fun sessionId => ?_⟩
    · exact (inv.owed before sessionId after whole).resolve_right (empty ▸ not_mem_nil)
    · by_contra waits
      exact (inv.idle waits).elim (absurd empty) (absurd none)
    · by_contra waits
      rcases inv.sessionsIdle sessionId waits with pending | running
      · exact not_mem_nil (empty ▸ pending)
      · exact not_mem_nil (none ▸ running)

theorem concurrencyOf_pos (concurrency : Option Rat) : 0 < concurrencyOf concurrency := by
  unfold concurrencyOf
  omega

theorem enqueued_snoc {events before after : List Event} {event : Event}
    (whole : events ++ [event] = before ++ .enqueued sessionId :: after) :
    event = .enqueued sessionId ∨ ∃ earlier, after = earlier ++ [event] ∧ events = before ++ .enqueued sessionId :: earlier := by
  rcases eq_nil_or_concat after with rfl | ⟨earlier, last, rfl⟩
  · exact .inl (singleton_inj.mp (append_inj' whole rfl).2)
  · rw [concat_eq_append, ← cons_append, ← append_assoc] at whole
    obtain ⟨same, ended⟩ := append_inj' whole rfl
    exact .inr ⟨earlier, by rw [singleton_inj.mp ended, concat_eq_append], same⟩

section

variable (inv : Inv concurrency queue)
include inv

theorem Inv.enqueue (sessionId : JsString) : Inv concurrency (queue.enqueue sessionId) := by
  unfold Queue.enqueue
  split_ifs with empty
  · exact inv
  · have kept {other : JsString} (pending : other ∈ queue.pending) : other ∈ appendNew queue.pending [sessionId] :=
      (mem_appendNew _ _ _).mpr (.inl pending)
    have here : sessionId ∈ appendNew queue.pending [sessionId] :=
      (mem_appendNew _ _ _).mpr (.inr (mem_singleton_self _))
    refine ⟨inv.counted, inv.sessions, inv.limit, inv.single, fun _ => nofun, fun before other after whole => ?_,
      fun _ => .inl (ne_nil_of_mem here), fun other waits => (inv.sessionsIdle other waits).imp_left kept⟩
    rcases enqueued_snoc whole with same | ⟨earlier, rfl, events⟩
    · cases same
      exact .inr here
    · exact (inv.owed before other earlier events).imp (mem_append_left _) kept

theorem Inv.start (draining : queue.draining = true) : Inv concurrency (queue.startAvailableJob concurrency) := by
  unfold Queue.startAvailableJob
  split
  next sessionId found =>
    split_ifs at found with room
    have free : sessionId ∉ queue.workers := by
      have apart := find?_some found
      rw [inv.sessions] at apart
      exact of_decide_eq_true apart
    have moved {other : JsString} (pending : other ∈ queue.pending) :
        other = sessionId ∨ other ∈ queue.pending.filter (· ≠ sessionId) :=
      or_iff_not_imp_left.mpr fun apart => mem_filter.mpr ⟨pending, decide_eq_true apart⟩
    refine ⟨?_, ?_, ?_, ?_, fun _ _ ended => absurd (draining.symm.trans ended) nofun, fun before other after whole => ?_,
      fun _ => .inr (append_ne_nil_of_right_ne_nil _ (cons_ne_nil _ _)), fun other waits => ?_⟩
    · rw [inv.counted, length_append, length_singleton]
    · rw [inv.sessions]
    · rw [inv.counted] at room
      rw [length_append, length_singleton]
      exact room
    · exact nodup_append.mpr ⟨inv.single, nodup_singleton _, fun other running last itself => by
        rw [mem_singleton.mp itself]
        exact fun same => free (same ▸ running)⟩
    · rcases enqueued_snoc whole with same | ⟨earlier, rfl, events⟩
      · cases same
      · rcases inv.owed before other earlier events with started | pending
        · exact .inl (mem_append_left _ started)
        · rcases moved pending with rfl | later
          · exact .inl (mem_append_right _ (mem_singleton_self _))
          · exact .inr later
    · rcases inv.sessionsIdle other waits with pending | running
      · rcases moved pending with rfl | later
        · exact .inr (mem_append_right _ (mem_singleton_self _))
        · exact .inl later
      · exact .inr (mem_append_left _ running)
  next blocked =>
    have busy : queue.pending ≠ [] → queue.workers ≠ [] := by
      intro some none
      have room : (queue.inFlight : Int) < concurrencyOf concurrency := by
        rw [inv.counted, none]
        exact concurrencyOf_pos concurrency
      rw [if_pos room, inv.sessions, none] at blocked
      obtain ⟨first, rest, pending⟩ := exists_cons_of_ne_nil some
      rw [pending] at blocked
      simp at blocked
    unfold Queue.resolveIdleWaitersIfNeeded
    split_ifs
    · exact ⟨inv.counted, inv.sessions, inv.limit, inv.single, fun some _ _ => busy some, inv.owed, inv.idle, inv.sessionsIdle⟩
    · exact ⟨inv.counted, inv.sessions, inv.limit, inv.single, fun some _ _ => busy some, inv.owed, nofun, inv.sessionsIdle⟩

theorem Inv.finish (running : sessionId ∈ queue.workers) : Inv concurrency (queue.finish sessionId) := by
  have sessions : queue.inFlightSessions.filter (· ≠ sessionId) = queue.workers.erase sessionId := by
    rw [inv.sessions, inv.single.erase_eq_filter]
    exact filter_congr fun other _ => by simp [bne, beq_eq_decide]
  have counted : queue.inFlight - 1 = (queue.workers.erase sessionId).length := by
    rw [length_erase_of_mem running, inv.counted]
  have limit : ((queue.workers.erase sessionId).length : Int) ≤ concurrencyOf concurrency :=
    (Int.ofNat_le.mpr length_erase_le).trans inv.limit
  have single := inv.single.erase sessionId
  have others (other : JsString) (apart : other ≠ sessionId) (waits : queue.sessionIdleWaiters other ≠ []) :
      other ∈ queue.pending ∨ other ∈ queue.workers.erase sessionId :=
    (inv.sessionsIdle other waits).imp_right (mem_erase_of_ne apart).mpr
  have cleared (other : JsString) (waits : Function.update queue.sessionIdleWaiters sessionId [] other ≠ []) :
      other ∈ queue.pending ∨ other ∈ queue.workers.erase sessionId := by
    by_cases same : other = sessionId
    · rw [same, Function.update_self] at waits
      exact absurd rfl waits
    · rw [Function.update_of_ne same] at waits
      exact others other same waits
  have gone : sessionId ∉ queue.inFlightSessions.filter (· ≠ sessionId) := by simp
  unfold Queue.finish Queue.resolveSessionIdleWaitersIfNeeded
  dsimp only
  by_cases waiting : queue.pending.length > 0
  · have some := ne_nil_of_length_pos waiting
    rw [if_pos waiting]
    split_ifs with again
    · have pending : sessionId ∈ queue.pending := again.resolve_right gone
      refine ⟨counted, sessions, limit, single, fun _ => nofun, inv.owed, fun _ => .inl some, fun other waits => ?_⟩
      by_cases same : other = sessionId
      · exact .inl (same ▸ pending)
      · exact others other same waits
    · exact ⟨counted, sessions, limit, single, fun _ => nofun, inv.owed, fun _ => .inl some, cleared⟩
  · have none : queue.pending = [] := length_eq_zero_iff.mp (Nat.eq_zero_of_not_pos waiting)
    have absent : ¬ (sessionId ∈ queue.pending ∨ sessionId ∈ queue.inFlightSessions.filter (· ≠ sessionId)) :=
      not_or.mpr ⟨none ▸ not_mem_nil, gone⟩
    rw [if_neg waiting]
    unfold Queue.resolveIdleWaitersIfNeeded
    split_ifs with busy
    · refine ⟨counted, sessions, limit, single, fun some => absurd none some, inv.owed, fun _ => .inr ?_, cleared⟩
      exact ne_nil_of_length_pos (counted ▸ Nat.pos_of_ne_zero (busy.resolve_left (absurd none)))
    · exact ⟨counted, sessions, limit, single, fun some => absurd none some, inv.owed, nofun, cleared⟩

theorem Inv.waitsFor {waiters : List Nat} (waits : waiters ≠ [] → sessionId ∈ queue.pending ∨ sessionId ∈ queue.workers) :
    Inv concurrency (queue.waitsFor sessionId waiters) := by
  refine ⟨inv.counted, inv.sessions, inv.limit, inv.single, inv.wakes, inv.owed, inv.idle, fun other some => ?_⟩
  by_cases same : other = sessionId
  · subst same
    exact waits (Function.update_self other waiters queue.sessionIdleWaiters ▸ some)
  · exact inv.sessionsIdle other (Function.update_of_ne same waiters queue.sessionIdleWaiters ▸ some)

theorem inv_step (stepped : step concurrency queue action = some next) : Inv concurrency next := by
  cases action with
  | enqueue sessionId =>
    cases stepped
    exact inv.enqueue sessionId
  | whenIdle waiter =>
    cases stepped
    split_ifs with idle
    · exact inv
    · refine ⟨inv.counted, inv.sessions, inv.limit, inv.single, inv.wakes, inv.owed, fun _ => ?_, inv.sessionsIdle⟩
      by_contra none
      rw [not_or, not_not, not_not] at none
      exact idle ⟨none.1, inv.counted.trans (none.2 ▸ rfl)⟩
  | whenSessionIdle sessionId waiter =>
    cases stepped
    split_ifs with held
    · exact inv.waitsFor fun _ => inv.sessions ▸ held
    · exact inv
  | abortIdle waiter =>
    cases stepped
    refine ⟨inv.counted, inv.sessions, inv.limit, inv.single, inv.wakes, inv.owed, fun waits => inv.idle ?_, inv.sessionsIdle⟩
    rintro none
    simp [none] at waits
  | abortSessionIdle sessionId waiter =>
    cases stepped
    refine inv.waitsFor fun some => inv.sessionsIdle sessionId fun none => ?_
    simp [none] at some
  | drain =>
    simp only [step] at stepped
    split_ifs at stepped
    cases stepped
    exact ⟨inv.counted, inv.sessions, inv.limit, inv.single, fun _ _ => nofun, inv.owed, inv.idle, inv.sessionsIdle⟩
  | startAvailableJob =>
    simp only [step] at stepped
    split_ifs at stepped with draining
    cases stepped
    exact inv.start draining
  | finish sessionId =>
    simp only [step] at stepped
    split_ifs at stepped with running
    cases stepped
    exact inv.finish running

end

/-- In every run: no more workers than the limit, no two of one session, and nothing is left undone once the queue is quiet. -/
theorem queue_loses_nothing (concurrency : Option Rat) (queue : Queue)
    (reached : Reaches (step concurrency) (fun _ _ => True) initial queue) : Sound concurrency queue :=
  (reached.invariant (Inv concurrency) ⟨rfl, rfl, (concurrencyOf_pos concurrency).le, nodup_nil, (absurd rfl ·),
      fun before _ _ whole => absurd whole.symm (by simp [initial]), (absurd rfl ·), fun _ => (absurd rfl ·)⟩
    fun _ _ _ inv _ stepped => inv_step inv stepped).sound

/-- Two sessions under a limit of one and a half, and the first of them again while it runs. -/
def sampleActions : List Action :=
  [.enqueue [1], .enqueue [2], .drain, .startAvailableJob, .enqueue [1], .whenIdle 0, .whenSessionIdle [1] 1, .startAvailableJob,
    .finish [1], .drain, .startAvailableJob, .startAvailableJob, .finish [2], .drain, .startAvailableJob, .startAvailableJob,
    .finish [1]]

theorem queue_loses_nothing_sample : ∃ queue : Queue, Reaches (step (some (3 / 2))) (fun _ _ => True) initial queue ∧
    Quiet queue ∧ queue.events.drop 3 = [.enqueued [1], .started [2], .started [1]] ∧ Sound (some (3 / 2)) queue := by
  refine exists_reached (fun queue => (queue.drainScheduled = false ∧ queue.draining = false ∧ queue.workers = []) ∧
    queue.events.drop 3 = [.enqueued [1], .started [2], .started [1]]) sampleActions (by decide +kernel) ?_
  intro queue reached ⟨quiet, events⟩
  exact ⟨quiet, events, queue_loses_nothing _ queue reached⟩

end Remnic.Lcm.WorkQueue
