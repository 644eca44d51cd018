import Remnic.Correction.Accounting
import Remnic.Correction.Ledger

/-!
A memory is retired only after what replaces it, and an outcome accounts for every action.
-/

namespace Remnic.Correction.Order

open Library.Transition Text.CodeUnits Contract Executor Accounting Ledger List Bool

/-- The action whose memory an event retires, whether or not the storage has confirmed it. -/
def retires : Event → Option Nat
  | .retired position _ | .unanswered position .retirement => some position
  | _ => none

/-- The replacement of an action is written, or its surviving memory has been found active. -/
def Backed (actions : List CorrectionAction) (events : List Event) (position : Nat) : Prop :=
  match actions[position]? with
  | some (.supersede _ (some _) _) => ∃ memoryId, .replaced position memoryId ∈ events
  | some (.supersede _ none (some _)) => .verified position ∈ events
  | some (.supersede _ none none) | some (.retract _) => True
  | _ => False

def NonDestructive (actions : List CorrectionAction) (events : List Event) : Prop :=
  ∀ before event, before ++ [event] <+: events → ∀ position ∈ retires event, Backed actions before position

structure Concluded (actions : List CorrectionAction) (outcome : CorrectionOutcome) : Prop where
  settled : ∀ position action, actions[position]? = some action → Settled action (statuses outcome.results position)
  within : ∀ result ∈ outcome.results, result.action < actions.length
  applied : outcome.status = .applied ↔
    ∀ position < actions.length, ∀ status ∈ statuses outcome.results position, status = .applied

abbrev Stands (world : World) (action : CorrectionAction) (position : Nat) : Place → Prop :=
  Holds (position ∈ world.retiredReplacementActions) action (statuses world.results position)

/-- A retirement that runs is backed, and it is the turn of its action. -/
def Underway (world : World) (retirement : Retirement) : Prop :=
  Backed world.actions world.events retirement.position ∧
    ∃ action, world.actions[retirement.position]? = some action ∧
      if retirement.firstPhase then replaces action = true
      else Outstanding (retirement.position ∈ world.retiredReplacementActions) action
        (statuses world.results retirement.position)

/-- The operation that runs suits the action at its position. -/
def Suits (world : World) : Stage → Prop
  | .preflighting position _ | .replacing position _ =>
    ∃ action, world.actions[position]? = some action ∧ replaces action = true
  | .editing position | .registering position => ∃ action, world.actions[position]? = some action ∧ writes action = true
  | .fetching retirement | .tombstoning retirement | .retiring retirement _ => Underway world retirement
  | .verifying position loserId winnerId => world.actions[position]? = some (.supersede loserId none (some winnerId))
  | .authorizing position _ _ | .rescoping position _ =>
    ∃ memoryId toNamespace, world.actions[position]? = some (.rescope memoryId toNamespace)
  | _ => True

/-- The stages that no cancelled call is in. -/
def busy : Stage → Bool
  | .removing _ | .settling | .propagating | .closing | .auditing _ | .consuming _ | .returned _ | .resetting | .thrown => false
  | _ => true

def ongoing : Stage → Bool
  | .loading | .auditing _ | .consuming _ | .returned _ => false
  | _ => true

def uncut : Stage → Bool
  | .fetching retirement | .tombstoning retirement | .retiring retirement _ => !retirement.firstPhase
  | .auditing _ | .consuming _ | .returned _ | .resetting | .thrown => false
  | _ => true

/-- What a cancelled call leaves: some action is without a result or has failed. -/
structure Halted (world : World) : Prop where
  aborted : world.aborted = true
  left : ∀ position action, world.actions[position]? = some action →
    statuses world.results position = [] ∨ Removed action (statuses world.results position)
  stopped : ∃ position < world.actions.length, Stopped (statuses world.results position)

structure Ordered (world : World) : Prop where
  fresh : world.stage = .loading → world.results = [] ∧ world.retiredReplacementActions = [] ∧ world.events = []
  suits : Suits world world.stage
  attested : ∀ result ∈ world.results, result.status = .applied → ∀ action, world.actions[result.action]? = some action →
    replaces action = true → ∃ memoryId, .replaced result.action memoryId ∈ world.events
  backed : NonDestructive world.actions world.events
  within : ∀ result ∈ world.results, result.action < world.actions.length ∧ result.status ≠ .skipped
  steady : busy world.stage = true → world.cancellationRequestedAfterCommit = false
  tallied : world.cancellationRequestedAfterCommit = false → Tallied world
  halted : world.cancellationRequestedAfterCommit = true → Halted world
  concluded : ∀ outcome ∈ outcomeAt world.stage, Concluded world.actions outcome

theorem ongoing_begun {stage : Stage} (here : ongoing stage = true) : stage ≠ .loading := by
  rintro rfl
  contradiction

theorem ongoing_outcomeAt {stage : Stage} (here : ongoing stage = true) : outcomeAt stage = none := by
  cases stage <;> first | rfl | contradiction

theorem ongoing_next (retirement : Retirement) : ongoing retirement.next = true := by
  unfold Retirement.next
  split_ifs <;> rfl

theorem place_uncut {stage : Stage} (here : uncut stage = true) (position : Nat) :
    ∃ stands ∈ place stage position, stands ≠ .halfway := by
  have whole (behind onwards : Place) (cursor : Nat) (first : behind ≠ .halfway) (second : onwards ≠ .halfway) :
      passing behind onwards cursor position ≠ .halfway := by
    unfold passing
    split_ifs
    · exact first
    · exact second
  cases stage with
  | auditing | consuming | returned | resetting | thrown => contradiction
  | loading | discarding | marking | starting | settling | propagating | closing => exact ⟨_, rfl, nofun⟩
  | writing | preflighting | replacing | editing | registering => exact ⟨_, rfl, whole _ _ _ nofun nofun⟩
  | removing | verifying | authorizing | rescoping | propagatingDestination => exact ⟨_, rfl, whole _ _ _ nofun nofun⟩
  | fetching retirement | tombstoning retirement | retiring retirement =>
    have second : retirement.firstPhase = false := by simpa [uncut] using here
    refine ⟨passing .removed .written retirement.position position, ?_, whole _ _ _ nofun nofun⟩
    simp [place, second]

theorem Backed.mono {actions : List CorrectionAction} {events later : List Event} {position : Nat}
    (backed : Backed actions events position) (kept : events ⊆ later) : Backed actions later position := by
  unfold Backed at *
  split at backed
  next =>
    obtain ⟨memoryId, replaced⟩ := backed
    exact ⟨memoryId, kept replaced⟩
  next => exact kept backed
  next => trivial
  next => trivial
  next => contradiction

theorem backed_replaces {actions : List CorrectionAction} {events : List Event} {position : Nat} {action : CorrectionAction}
    (there : actions[position]? = some action) (replacing : replaces action = true) :
    Backed actions events position ↔ ∃ memoryId, .replaced position memoryId ∈ events := by
  cases action with
  | supersede loserId replacement winnerId =>
    cases replacement with
    | none => contradiction
    | some draft => rw [Backed, there]
  | edit | retract | rescope | redactionRule => contradiction

theorem NonDestructive.append {actions : List CorrectionAction} {events : List Event} {event : Event}
    (ordered : NonDestructive actions events) (backed : ∀ position ∈ retires event, Backed actions events position) :
    NonDestructive actions (events ++ [event]) := by
  intro before last first position retiring
  rcases prefix_concat_iff.mp first with whole | earlier
  · obtain ⟨same, ended⟩ := append_inj' whole rfl
    cases ended
    exact same ▸ backed position retiring
  · exact ordered before last earlier position retiring

variable {world next : World}

theorem Underway.record {retirement : Retirement} (underway : Underway world retirement) (event : Event) :
    Underway (world.record event) retirement :=
  ⟨underway.1.mono (subset_append_left _ _), underway.2⟩

theorem suits_record {stage : Stage} (suits : Suits world stage) (event : Event) : Suits (world.record event) stage := by
  cases stage with
  | fetching | tombstoning | retiring => exact Underway.record suits event
  | _ => exact suits

theorem suits_to {stage : Stage} (suits : Suits world stage) : Suits (world.to stage) stage := by
  cases stage <;> exact suits

theorem Ordered.record {event : Event} (ordered : Ordered world) (begun : world.stage ≠ .loading)
    (backed : ∀ position ∈ retires event, Backed world.actions world.events position) : Ordered (world.record event) where
  fresh loading := absurd loading begun
  suits := suits_record ordered.suits event
  attested result member applied action there replacing := by
    obtain ⟨memoryId, replaced⟩ := ordered.attested result member applied action there replacing
    exact ⟨memoryId, mem_append_left _ replaced⟩
  backed := ordered.backed.append backed
  within := ordered.within
  steady := ordered.steady
  tallied := ordered.tallied
  halted cancelled := ⟨(ordered.halted cancelled).aborted, (ordered.halted cancelled).left, (ordered.halted cancelled).stopped⟩
  concluded := ordered.concluded

theorem recordIf_stage (committed : Bool) (event : Event) : (world.recordIf committed event).stage = world.stage := by
  cases committed <;> rfl

theorem recordIf_actions (committed : Bool) (event : Event) :
    (world.recordIf committed event).actions = world.actions := by
  cases committed <;> rfl

section

variable (ordered : Ordered world)
include ordered

theorem Ordered.recordIf {event : Event} (begun : world.stage ≠ .loading) (committed : Bool)
    (backed : ∀ position ∈ retires event, Backed world.actions world.events position) :
    Ordered (world.recordIf committed event) := by
  unfold World.recordIf
  split_ifs
  · exact ordered.record begun backed
  · exact ordered

theorem Ordered.suits_at {was : Stage} (here : world.stage = was) : Suits world was := here ▸ ordered.suits

theorem Ordered.moves {stage : Stage} (suits : Suits world stage) (later : ongoing stage = true)
    (steady : busy stage = true → world.cancellationRequestedAfterCommit = false)
    (tallied : world.cancellationRequestedAfterCommit = false → Tallied (world.to stage)) : Ordered (world.to stage) where
  fresh loading := absurd loading (ongoing_begun later)
  suits := suits_to suits
  attested := ordered.attested
  backed := ordered.backed
  within := ordered.within
  steady := steady
  tallied := tallied
  halted cancelled := ⟨(ordered.halted cancelled).aborted, (ordered.halted cancelled).left, (ordered.halted cancelled).stopped⟩
  concluded := by
    rw [World.to, ongoing_outcomeAt later]
    intro outcome ended
    cases ended

theorem Ordered.stays {was stage : Stage} (here : world.stage = was) (suits : Suits world stage)
    (working : busy stage = true → busy was = true) (later : ongoing stage = true) (places : place stage = place was) :
    Ordered (world.to stage) := by
  subst here
  exact ordered.moves suits later (fun busied => ordered.steady (working busied)) fun calm => (ordered.tallied calm).same places

theorem Ordered.turn {position : Nat} {action : CorrectionAction} (there : world.actions[position]? = some action)
    (calm : world.cancellationRequestedAfterCommit = false) (actions : next.actions = world.actions)
    (uncancelled : next.cancellationRequestedAfterCommit = false) (kept : world.events ⊆ next.events)
    (backed : NonDestructive next.actions next.events)
    (members : ∀ result ∈ next.results, result ∈ world.results ∨ result.action = position ∧ result.status ≠ .skipped ∧
      (result.status = .applied → replaces action = true → ∃ memoryId, .replaced position memoryId ∈ next.events))
    (others : ∀ other, other ≠ position → statuses next.results other = statuses world.results other ∧
      (other ∈ next.retiredReplacementActions ↔ other ∈ world.retiredReplacementActions) ∧
        place next.stage other = place world.stage other)
    (mine : ∀ stands ∈ place next.stage position,
      Holds (position ∈ next.retiredReplacementActions) action (statuses next.results position) stands)
    (suits : Suits next next.stage) (later : ongoing next.stage = true) : Ordered next where
  fresh loading := absurd loading (ongoing_begun later)
  suits := suits
  attested result member applied found present replacing := by
    rw [actions] at present
    rcases members result member with before | ⟨rfl, _, attested⟩
    · obtain ⟨memoryId, replaced⟩ := ordered.attested result before applied found present replacing
      exact ⟨memoryId, kept replaced⟩
    · rw [there] at present
      cases present
      exact attested applied replacing
  backed := backed
  within result member := by
    rw [actions]
    rcases members result member with before | ⟨rfl, ran, _⟩
    · exact ordered.within result before
    · exact ⟨(List.getElem?_eq_some_iff.mp there).1, ran⟩
  steady _ := uncancelled
  tallied _ other found present stands standing := by
    by_cases same : other = position
    · subst same
      rw [actions, there] at present
      cases present
      exact mine stands standing
    · obtain ⟨results, retired, places⟩ := others other same
      rw [results, propext retired]
      rw [places] at standing
      exact ordered.tallied calm other found (actions ▸ present) stands standing
  halted cancelled := by
    rw [uncancelled] at cancelled
    contradiction
  concluded := by
    rw [ongoing_outcomeAt later]
    exact nofun

theorem Ordered.fail {position : Nat} {action : CorrectionAction} {stage : Stage} {was now : Place} {failure : Failure}
    (there : world.actions[position]? = some action) (calm : world.cancellationRequestedAfterCommit = false)
    (here : place world.stage position = some was) (onwards : place stage position = some now)
    (others : ∀ other, other ≠ position → place stage other = place world.stage other)
    (failed : Stands world action position was →
      Holds (position ∈ world.retiredReplacementActions) action (statuses world.results position ++ [.failed]) now)
    (suits : ∀ world, Suits world stage) (later : ongoing stage = true) :
    Ordered ((world.fail position failure).to stage) := by
  refine ordered.turn there calm rfl calm (List.Subset.refl _) ordered.backed ?_ ?_ ?_ (suits _) later
  · intro result member
    rcases mem_append.mp member with before | added
    · exact .inl before
    · rw [mem_singleton] at added
      subst added
      exact .inr ⟨rfl, nofun, nofun⟩
  · exact fun other apart => ⟨statuses_push _ apart, .rfl, others other apart⟩
  · intro stands standing
    change stands ∈ place stage position at standing
    rw [onwards] at standing
    cases standing
    have holds := failed (ordered.tallied calm position action there was here)
    exact statuses_push_self _ _ ▸ holds

theorem Ordered.interrupt {resume : Stage} (aborted : world.aborted = true)
    (whole : world.cancellationRequestedAfterCommit = false →
      ∀ position, ∃ stands ∈ place world.stage position, stands ≠ .halfway)
    (stopped : world.cancellationRequestedAfterCommit = false →
      ∃ position < world.actions.length, Stopped (statuses world.results position))
    (suits : ∀ world, Suits world resume) (idle : busy resume = false) (later : ongoing resume = true) :
    Ordered (world.interrupt resume) := by
  have halted : Halted world := by
    cases calm : world.cancellationRequestedAfterCommit with
    | true => exact ordered.halted calm
    | false =>
      refine ⟨aborted, fun position action there => ?_, stopped calm⟩
      obtain ⟨stands, here, between⟩ := whole calm position
      exact holds_halted (ordered.tallied calm position action there stands here) between
  unfold World.interrupt
  split_ifs
  · exact {
      fresh := fun loading => absurd loading (ongoing_begun later)
      suits := suits _
      attested := ordered.attested
      backed := ordered.backed
      within := ordered.within
      steady := fun working => by
        rw [idle] at working
        contradiction
      tallied := nofun
      halted := fun _ => ⟨halted.aborted, halted.left, halted.stopped⟩
      concluded := by
        rw [ongoing_outcomeAt later]
        exact nofun }
  · exact ordered.moves trivial rfl nofun fun _ _ _ _ _ => nofun

/-- A change of what no condition reads. -/
theorem Ordered.congr (stage : next.stage = world.stage) (actions : next.actions = world.actions) (results : next.results = world.results)
    (retired : next.retiredReplacementActions = world.retiredReplacementActions) (events : next.events = world.events)
    (cancelled : next.cancellationRequestedAfterCommit = world.cancellationRequestedAfterCommit)
    (aborted : world.aborted = true → next.aborted = true) : Ordered next := by
  have suits : Suits next next.stage := by
    have before := ordered.suits
    rw [stage]
    generalize world.stage = held at before ⊢
    cases held <;> first | trivial | simpa only [Suits, Underway, actions, results, retired, events] using before
  obtain ⟨⟩ := world
  obtain ⟨⟩ := next
  cases stage; cases actions; cases results; cases retired; cases events; cases cancelled
  refine ⟨ordered.fresh, suits, ordered.attested, ordered.backed, ordered.within, ordered.steady, ordered.tallied,
    fun cancelled => ?_, ordered.concluded⟩
  obtain ⟨before, left, stopped⟩ := ordered.halted cancelled
  exact ⟨aborted before, left, stopped⟩

theorem Ordered.touch (memoryId : JsString) : Ordered (world.touch memoryId) := ordered.congr rfl rfl rfl rfl rfl rfl id

theorem Ordered.mark (status : PlanStatus) : Ordered (world.mark status) := ordered.congr rfl rfl rfl rfl rfl rfl id

theorem Ordered.commit {position : Nat} {action : CorrectionAction} {stage : Stage} {event : Event} {was now : Place}
    {memoryId : Option JsString} (there : world.actions[position]? = some action)
    (calm : world.cancellationRequestedAfterCommit = false) (here : place world.stage position = some was)
    (onwards : place stage position = some now)
    (others : ∀ other, other ≠ position → place stage other = place world.stage other)
    (applied : Stands world action position was →
      Holds (position ∈ world.retiredReplacementActions) action (statuses world.results position ++ [.applied]) now)
    (harmless : retires event = none)
    (attested : replaces action = true → ∃ memoryId, .replaced position memoryId ∈ world.events ++ [event])
    (suits : Suits (world.commit event position memoryId) stage) (later : ongoing stage = true) :
    Ordered ((world.commit event position memoryId).to stage) := by
  refine ordered.turn there calm rfl calm (subset_append_left _ _) ?_ ?_ ?_ ?_ (suits_to suits) later
  · apply ordered.backed.append
    rw [harmless]
    exact nofun
  · intro result member
    rcases mem_append.mp member with before | added
    · exact .inl before
    · rw [mem_singleton] at added
      subst added
      exact .inr ⟨rfl, nofun, fun _ => attested⟩
  · exact fun other apart => ⟨statuses_push _ apart, .rfl, others other apart⟩
  · intro stands standing
    change stands ∈ place stage position at standing
    rw [onwards] at standing
    cases standing
    have holds := applied (ordered.tallied calm position action there was here)
    exact statuses_push_self _ _ ▸ holds

end

/-- The turn of one action, between two places for all the others. -/
def Turn (world : World) (behind onwards : Place) (position : Nat) : Prop :=
  ∀ other, place world.stage other = some (passing behind onwards position other)

section Turns

variable {behind onwards : Place} {position : Nat} {action : CorrectionAction} {stage : Stage}

theorem Turn.here (turn : Turn world behind onwards position) : place world.stage position = some onwards := by
  rw [turn, passing_self]

theorem turn_over (goes : Turn (world.to stage) behind onwards (position + 1)) : place stage position = some behind := by
  have now := goes position
  rw [passing_succ_self] at now
  exact now

theorem Turn.others (turn : Turn world behind onwards position) (goes : Turn (world.to stage) behind onwards (position + 1))
    (other : Nat) (apart : other ≠ position) : place stage other = place world.stage other := by
  have now := goes other
  rw [passing_succ _ _ apart, ← turn other] at now
  exact now

theorem Ordered.passes (ordered : Ordered world) (there : world.actions[position]? = some action)
    (turn : Turn world behind onwards position) (goes : Turn (world.to stage) behind onwards (position + 1))
    (steady : busy stage = true → world.cancellationRequestedAfterCommit = false)
    (passed : Stands world action position onwards →
      Stands world action position behind)
    (suits : Suits world stage) (later : ongoing stage = true) : Ordered (world.to stage) :=
  ordered.moves suits later steady fun calm =>
    (ordered.tallied calm).passes there turn.here (turn_over goes) (turn.others goes) passed

section

variable {was : Stage} (ordered : Ordered world) (here : world.stage = was) (there : world.actions[position]? = some action)
  (turn : ∀ other, place was other = some (passing behind onwards position other))
include ordered here there turn

section

variable (working : busy was = true) (goes : Turn (world.to stage) behind onwards (position + 1))
include working goes

theorem Ordered.fails {failure : Failure}
    (failed : Stands world action position onwards →
      Holds (position ∈ world.retiredReplacementActions) action (statuses world.results position ++ [.failed]) behind)
    (suits : ∀ world, Suits world stage) (later : ongoing stage = true) :
    Ordered ((world.fail position failure).to stage) := by
  subst here
  have turned : Turn world behind onwards position := turn
  exact ordered.fail there (ordered.steady working) turned.here (turn_over goes) (turned.others goes) failed suits later

theorem Ordered.commits {event : Event} {memoryId : Option JsString}
    (applied : Stands world action position onwards →
      Holds (position ∈ world.retiredReplacementActions) action (statuses world.results position ++ [.applied]) behind)
    (harmless : retires event = none) (single : replaces action = false) (suits : ∀ world, Suits world stage)
    (later : ongoing stage = true) : Ordered ((world.commit event position memoryId).to stage) := by
  subst here
  have turned : Turn world behind onwards position := turn
  refine ordered.commit there (ordered.steady working) turned.here (turn_over goes) (turned.others goes) applied harmless ?_
    (suits _) later
  rw [single]
  exact nofun

end

variable (whole : uncut was = true) (stopped : Stands world action position onwards → Stopped (statuses world.results position))
include whole stopped

theorem Ordered.stops {resume : Stage} (aborted : world.aborted = true) (suits : ∀ world, Suits world resume)
    (idle : busy resume = false) (later : ongoing resume = true) : Ordered (world.interrupt resume) := by
  subst here
  refine ordered.interrupt aborted (fun _ => place_uncut whole) (fun calm => ?_) suits idle later
  have stops := stopped (ordered.tallied calm position action there onwards (Turn.here turn))
  exact ⟨position, (List.getElem?_eq_some_iff.mp there).1, stops⟩

theorem Ordered.caught {resume : Stage} (working : busy was = true) (goes : Turn (world.to stage) behind onwards (position + 1))
    (failed : Stands world action position onwards →
      Holds (position ∈ world.retiredReplacementActions) action (statuses world.results position ++ [.failed]) behind)
    (resumed : ∀ world, Suits world resume) (idle : busy resume = false) (resumes : ongoing resume = true)
    (suits : ∀ world, Suits world stage) (later : ongoing stage = true) : Ordered (world.caught position resume stage) := by
  unfold World.caught
  split_ifs with aborted
  · exact ordered.stops here there turn whole stopped aborted resumed idle resumes
  · exact ordered.fails here there turn working goes failed suits later

end

end Turns

theorem Ordered.throws (ordered : Ordered world) : Ordered (world.to .thrown) :=
  ordered.moves trivial rfl nofun fun _ _ _ _ _ => nofun

theorem Ordered.resets (ordered : Ordered world) : Ordered (world.to .resetting) :=
  ordered.moves trivial rfl nofun fun _ _ _ _ _ => nofun

theorem Ordered.starts (ordered : Ordered world) (stage : world.stage = .loading) (actions : List CorrectionAction) :
    Ordered ({ world with actions }.to .marking) := by
  obtain ⟨results, retired, events⟩ := ordered.fresh stage
  have calm := ordered.steady (by rw [stage]; rfl)
  refine ⟨nofun, trivial, ?_, ?_, ?_, fun _ => calm, fun _ position action _ stands standing => ?_, fun cancelled => ?_, nofun⟩
  · change ∀ result ∈ world.results, _
    rw [results]
    exact nofun
  · change NonDestructive actions world.events
    rw [events]
    intro before event first
    have none := prefix_nil.mp first
    simp at none
  · change ∀ result ∈ world.results, _
    rw [results]
    exact nofun
  · cases standing
    change statuses world.results position = [] ∧ position ∉ world.retiredReplacementActions
    rw [results, retired]
    exact ⟨rfl, nofun⟩
  · change world.cancellationRequestedAfterCommit = true at cancelled
    rw [calm] at cancelled
    contradiction

variable {host : Host} {answer : Answer}

theorem ordered_start (ordered : Ordered world) (stepped : startStep host world answer = some next) : Ordered next := by
  unfold startStep at stepped
  split at stepped
  next now stage =>
    split at stepped
    next =>
      cases stepped
      exact ordered.throws
    next plan _ =>
      split_ifs at stepped
      · cases stepped
        exact ordered.throws
      · cases stepped
        exact ordered.stays stage trivial (fun _ => rfl) rfl rfl
      · cases stepped
        exact ordered.starts stage plan.actions
      · cases stepped
        exact ordered.throws
  next late stage =>
    cases stepped
    exact ordered.throws
  next stage =>
    cases stepped
    exact (ordered.mark _).throws
  next late stage =>
    cases stepped
    cases late
    · exact ordered.throws
    · exact (ordered.mark _).throws
  next stage =>
    cases stepped
    exact (ordered.mark .applying).stays stage trivial (fun _ => rfl) rfl rfl
  next late stage =>
    cases stepped
    cases late
    · exact ordered.throws
    · exact (ordered.mark _).throws
  next stage =>
    cases stepped
    split_ifs
    · exact ordered.resets
    · refine ordered.stays stage trivial (fun _ => rfl) rfl ?_
      funext position
      simp [place, passing]
  next stage =>
    cases stepped
    exact (ordered.mark _).throws
  next late stage =>
    cases stepped
    cases late
    · exact ordered.throws
    · exact (ordered.mark _).throws
  next => contradiction

theorem ahead_stopped {retired : Prop} {action : CorrectionAction} {statuses : List ResultStatus}
    (ahead : Holds retired action statuses .ahead) : Stopped statuses := .inl ahead.1

theorem Ordered.unwritten {position : Nat} {action : CorrectionAction} {event : Event} {was : Stage} (ordered : Ordered world)
    (here : world.stage = was) (there : world.actions[position]? = some action)
    (eager : replaces action = true ∨ writes action = true) (working : busy was = true) (begun : was ≠ .loading)
    (turn : ∀ other, place was other = some (passing .written .ahead position other)) (whole : uncut was = true)
    (harmless : retires event = none) (late : Bool) :
    Ordered ((world.recordIf late event).caught position (.removing 0) (.writing (position + 1))) := by
  subst here
  have recorded : Ordered (world.recordIf late event) := ordered.recordIf begun late (by rw [harmless]; exact nofun)
  rw [← recordIf_actions late event] at there
  exact recorded.caught (recordIf_stage late event) there turn whole ahead_stopped working (fun _ => rfl) (ahead_failed eager)
    (fun _ => trivial) rfl rfl (fun _ => trivial) rfl

theorem Ordered.begins_removing {position : Nat} (ordered : Ordered world) (stage : world.stage = .writing position)
    (beyond : world.actions[position]? = none) : Ordered (world.to (.removing 0)) := by
  refine ordered.moves trivial rfl nofun fun calm other action there stands standing => ?_
  have before : other < position := by
    have inside : other < world.actions.length := (List.getElem?_eq_some_iff.mp there).1
    have outside := List.getElem?_eq_none_iff.mp beyond
    omega
  have here : place world.stage other = some .written := by
    rw [stage, place, passing, if_pos before]
  cases standing
  exact ordered.tallied calm other action there .written here

theorem Ordered.replaced {position : Nat} {action : CorrectionAction} {loserId : JsString} (ordered : Ordered world)
    (stage : world.stage = .replacing position loserId) (there : world.actions[position]? = some action)
    (replacing : replaces action = true) (newId : JsString) :
    Ordered ((world.commit (.replaced position newId) position (some newId)).to
      (.fetching ⟨position, loserId, some newId, true⟩)) := by
  have calm := ordered.steady (by rw [stage]; rfl)
  have written : ∃ memoryId, .replaced position memoryId ∈ world.events ++ [.replaced position newId] :=
    ⟨newId, mem_append_right _ (mem_singleton_self _)⟩
  have turn : Turn world .written .ahead position := fun _ => by rw [stage]; rfl
  have halfway : place (.fetching ⟨position, loserId, some newId, true⟩) position = some .halfway := by simp [place]
  refine ordered.commit there calm turn.here halfway ?_ ahead_replaced rfl (fun _ => written) ?_ rfl
  · intro other apart
    rw [turn other]
    simp [place, apart]
  · exact ⟨(backed_replaces there replacing).mpr written, action, there, replacing⟩

theorem ordered_write (ordered : Ordered world) (stepped : writeStep world answer = some next) : Ordered next := by
  unfold writeStep at stepped
  split at stepped
  next position stage =>
    split at stepped
    next beyond =>
      cases stepped
      exact ordered.begins_removing stage beyond
    next action there =>
      split_ifs at stepped with aborted
      · cases stepped
        exact ordered.stops stage there (fun _ => rfl) rfl ahead_stopped aborted (fun _ => trivial) rfl rfl
      · split at stepped
        next =>
          cases stepped
          exact ordered.stays stage ⟨_, there, rfl⟩ (fun _ => rfl) rfl rfl
        next =>
          cases stepped
          exact ordered.stays stage ⟨_, there, rfl⟩ (fun _ => rfl) rfl rfl
        next =>
          cases stepped
          exact ordered.stays stage ⟨_, there, rfl⟩ (fun _ => rfl) rfl rfl
        next unreplaced unedited unruled =>
          cases stepped
          have calm := ordered.steady (by rw [stage]; rfl)
          refine ordered.passes there (fun _ => by rw [stage]; rfl) (fun _ => rfl) (fun _ => calm) (fun ahead => ?_) trivial rfl
          cases action with
          | supersede loserId replacement winnerId =>
            cases replacement with
            | none => exact ahead
            | some draft => exact absurd rfl (unreplaced _ _ _)
          | edit => exact absurd rfl (unedited _ _)
          | redactionRule => exact absurd rfl (unruled _)
          | retract | rescope => exact ahead
  next position loserId stage =>
    cases stepped
    obtain ⟨action, there, replacing⟩ := ordered.suits_at stage
    exact ordered.fails stage there (fun _ => rfl) rfl (fun _ => rfl) (ahead_failed (.inl replacing)) (fun _ => trivial) rfl
  next position loserId found stage =>
    cases stepped
    have suits := ordered.suits_at stage
    exact ordered.stays stage suits (fun _ => rfl) rfl rfl
  next position loserId late stage =>
    cases stepped
    obtain ⟨action, there, replacing⟩ := ordered.suits_at stage
    split_ifs with aborted
    · exact ordered.stops stage there (fun _ => rfl) rfl ahead_stopped aborted (fun _ => trivial) rfl rfl
    · exact ordered.throws
  next position loserId newId stage =>
    cases stepped
    obtain ⟨action, there, replacing⟩ := ordered.suits_at stage
    exact (ordered.replaced stage there replacing newId).touch newId
  next position loserId late stage =>
    cases stepped
    obtain ⟨action, there, replacing⟩ := ordered.suits_at stage
    exact ordered.unwritten stage there (.inl replacing) rfl nofun (fun _ => rfl) rfl rfl late
  next position editedId stage =>
    cases stepped
    obtain ⟨action, there, writing⟩ := ordered.suits_at stage
    have committed : Ordered ((world.commit (.edited position editedId) position (some editedId)).to (.writing (position + 1))) :=
      ordered.commits stage there (fun _ => rfl) rfl (fun _ => rfl) (ahead_applied writing) rfl (single_of_writes writing)
        (fun _ => trivial) rfl
    exact committed.touch editedId
  next position late stage =>
    cases stepped
    obtain ⟨action, there, writing⟩ := ordered.suits_at stage
    exact ordered.unwritten stage there (.inr writing) rfl nofun (fun _ => rfl) rfl rfl late
  next position stage =>
    cases stepped
    obtain ⟨action, there, writing⟩ := ordered.suits_at stage
    exact ordered.commits stage there (fun _ => rfl) rfl (fun _ => rfl) (ahead_applied writing) rfl (single_of_writes writing)
      (fun _ => trivial) rfl
  next position late stage =>
    cases stepped
    obtain ⟨action, there, writing⟩ := ordered.suits_at stage
    exact ordered.unwritten stage there (.inr writing) rfl nofun (fun _ => rfl) rfl rfl late
  next => contradiction

section Retiring

variable {retirement : Retirement}

theorem place_retiring_first (first : retirement.firstPhase = true) :
    place (.fetching retirement) retirement.position = some .halfway ∧
      ∀ other, other ≠ retirement.position →
        place (.writing (retirement.position + 1)) other = place (.fetching retirement) other := by
  constructor
  · simp [place, first]
  · intro other apart
    simp [place, first, apart, passing_succ _ _ apart]

theorem turn_retiring (second : retirement.firstPhase = false) (places : place world.stage = place (.fetching retirement)) :
    Turn world .removed .written retirement.position := by
  intro other
  rw [places]
  simp [place, second]

section

variable {was : Stage} (ordered : Ordered world) (here : world.stage = was) (underway : Underway world retirement)
  (working : busy was = true) (places : place was = place (.fetching retirement))
include ordered here underway working places

theorem Ordered.unretired {failure : Failure} : Ordered ((world.fail retirement.position failure).to retirement.next) := by
  subst here
  obtain ⟨_, action, there, turn⟩ := underway
  have calm := ordered.steady working
  unfold Retirement.next
  split_ifs with first
  · rw [if_pos first] at turn
    obtain ⟨here, others⟩ := place_retiring_first first
    rw [← places] at here others
    have onwards : place (.writing (retirement.position + 1)) retirement.position = some .written := by
      rw [place, passing_succ_self]
    exact ordered.fail there calm here onwards others (halfway_failed turn) (fun _ => trivial) rfl
  · rw [if_neg first] at turn
    have second : retirement.firstPhase = false := by simpa using first
    exact ordered.fails rfl there (turn_retiring second places) working (fun _ => rfl) (written_failed turn) (fun _ => trivial) rfl

theorem Ordered.retirementFailed (whole : uncut was = !retirement.firstPhase) : Ordered (world.retirementFailed retirement) := by
  subst here
  unfold World.retirementFailed
  split_ifs with first
  · exact ordered.unretired rfl underway working places
  · have second : retirement.firstPhase = false := by simpa using first
    obtain ⟨_, action, there, turn⟩ := underway
    rw [if_neg first] at turn
    rw [second] at whole
    have goes : Turn (world.to retirement.next) .removed .written (retirement.position + 1) := by
      intro other
      rw [World.to, Retirement.next, if_neg first, place]
    refine ordered.caught rfl there (turn_retiring second places) whole
      (fun written => outstanding_stopped written turn.1 turn.2.1) working goes (written_failed turn) (fun _ => trivial) rfl rfl
      (fun _ => ?_) (ongoing_next _)
    rw [Retirement.next, if_neg first]
    trivial

end

theorem members_retired {action : CorrectionAction} (backed : Backed world.actions world.events retirement.position)
    (there : world.actions[retirement.position]? = some action) (tombstoneId : Option TombstoneId) :
    ∀ result ∈ world.results ++ [⟨retirement.position, .applied, some retirement.memoryId, tombstoneId, none⟩],
      result ∈ world.results ∨ result.action = retirement.position ∧ result.status ≠ .skipped ∧
        (result.status = .applied → replaces action = true → ∃ memoryId, .replaced retirement.position memoryId ∈
          world.events ++ [.retired retirement.position retirement.memoryId]) := by
  intro result member
  rcases mem_append.mp member with before | added
  · exact .inl before
  · rw [mem_singleton] at added
    subst added
    refine .inr ⟨rfl, nofun, fun _ replacing => ?_⟩
    obtain ⟨memoryId, replaced⟩ := (backed_replaces there replacing).mp backed
    exact ⟨memoryId, mem_append_left _ replaced⟩

theorem Ordered.backed_retired (ordered : Ordered world)
    (backed : Backed world.actions world.events retirement.position) :
    NonDestructive world.actions (world.events ++ [.retired retirement.position retirement.memoryId]) := by
  apply ordered.backed.append
  intro position same
  cases same
  exact backed

section

variable {was : Stage} (ordered : Ordered world) (here : world.stage = was) (underway : Underway world retirement)
  (working : busy was = true) (places : place was = place (.fetching retirement))
include ordered here underway working places

theorem Ordered.retired_first (first : retirement.firstPhase = true) (tombstoneId : Option TombstoneId) :
    Ordered (world.retired retirement tombstoneId) := by
  subst here
  obtain ⟨backed, action, there, replacing⟩ := underway
  rw [if_pos first] at replacing
  have calm := ordered.steady working
  obtain ⟨here, others⟩ := place_retiring_first first
  rw [← places] at here others
  have onwards : retirement.next = .writing (retirement.position + 1) := if_pos first
  have halfway := ordered.tallied calm retirement.position action there .halfway here
  have holds : Holds (retirement.position ∈ retirement.position :: world.retiredReplacementActions) action
      (statuses world.results retirement.position ++ [.applied]) .written :=
    halfway_retired replacing halfway (mem_cons_self ..)
  rw [World.retired, if_pos first, onwards]
  refine ordered.turn there calm rfl calm (subset_append_left _ _) (ordered.backed_retired backed)
    (members_retired backed there tombstoneId) ?_ ?_ trivial rfl
  · intro other apart
    refine ⟨statuses_push _ apart, ?_, others other apart⟩
    exact ⟨fun member => (mem_cons.mp member).resolve_left apart, mem_cons_of_mem _⟩
  · intro stands standing
    change stands ∈ place (.writing (retirement.position + 1)) retirement.position at standing
    rw [place, passing_succ_self] at standing
    cases standing
    exact statuses_push_self _ _ ▸ holds

theorem Ordered.retired_second (second : retirement.firstPhase = false) (tombstoneId : Option TombstoneId) :
    Ordered (world.retired retirement tombstoneId) := by
  subst here
  obtain ⟨backed, action, there, outstanding⟩ := underway
  have unfirst : ¬ retirement.firstPhase = true := by simpa using second
  rw [if_neg unfirst] at outstanding
  have calm := ordered.steady working
  have turn := turn_retiring second places
  have goes : Turn (world.to (.removing (retirement.position + 1))) .removed .written (retirement.position + 1) :=
    fun _ => rfl
  have onwards : retirement.next = .removing (retirement.position + 1) := if_neg unfirst
  have holds := written_retired outstanding (ordered.tallied calm retirement.position action there .written turn.here)
  rw [World.retired, if_neg unfirst, onwards]
  refine ordered.turn there calm rfl calm (subset_append_left _ _) (ordered.backed_retired backed) ?_ ?_ ?_ trivial rfl
  · exact fun result kept => members_retired backed there tombstoneId result (mem_filter.mp kept).1
  · intro other apart
    exact ⟨(statuses_removeFailedResultsFor _ apart).trans (statuses_push _ apart), .rfl, turn.others goes other apart⟩
  · intro stands standing
    change stands ∈ place (.removing (retirement.position + 1)) retirement.position at standing
    rw [place, passing_succ_self] at standing
    cases standing
    have same := statuses_removeFailedResultsFor_self retirement.position
      (world.results ++ [⟨retirement.position, .applied, some retirement.memoryId, tombstoneId, none⟩])
    rw [statuses_append, if_pos rfl] at same
    exact same ▸ holds

theorem Ordered.retired (tombstoneId : Option TombstoneId) : Ordered (world.retired retirement tombstoneId) := by
  cases phase : retirement.firstPhase with
  | true => exact ordered.retired_first here underway working places phase tombstoneId
  | false => exact ordered.retired_second here underway working places phase tombstoneId

theorem Ordered.unconfirmed {event : Event} (begun : was ≠ .loading) (whole : uncut was = !retirement.firstPhase)
    (backed : ∀ position ∈ retires event, Backed world.actions world.events position) (late : Bool) :
    Ordered ((world.recordIf late event).retirementFailed retirement) := by
  subst here
  cases late
  · exact ordered.retirementFailed rfl underway working places whole
  · exact (ordered.record begun backed).retirementFailed rfl (underway.record event) working places whole

end

theorem ordered_retire (ordered : Ordered world) (stepped : retireStep world answer = some next) : Ordered next := by
  unfold retireStep at stepped
  split at stepped
  next retirement stage =>
    cases stepped
    exact ordered.unretired stage (ordered.suits_at stage) rfl rfl
  next retirement found stage =>
    cases stepped
    have suits := ordered.suits_at stage
    exact ordered.stays stage suits (fun _ => rfl) rfl rfl
  next retirement late stage =>
    cases stepped
    exact ordered.retirementFailed stage (ordered.suits_at stage) rfl rfl rfl
  next retirement stage =>
    cases stepped
    have suits := ordered.suits_at stage
    exact ordered.stays stage suits (fun _ => rfl) rfl rfl
  next retirement tombstoneId stage =>
    cases stepped
    have recorded : Ordered (world.record (.tombstoned retirement.position tombstoneId)) :=
      ordered.record (by rw [stage]; nofun) nofun
    exact recorded.stays stage (Underway.record (ordered.suits_at stage) _) (fun _ => rfl) rfl rfl
  next retirement late stage =>
    cases stepped
    exact ordered.unconfirmed stage (ordered.suits_at stage) rfl rfl nofun rfl (fun _ same => by cases same) late
  next retirement tombstoneId stage =>
    cases stepped
    exact ordered.retired stage (ordered.suits_at stage) rfl rfl tombstoneId
  next retirement tombstoneId late stage =>
    cases stepped
    have suits : Underway world retirement := ordered.suits_at stage
    refine ordered.unconfirmed stage suits rfl rfl nofun rfl (fun position same => ?_) late
    cases same
    exact suits.1
  next => contradiction

end Retiring

theorem written_outstanding {retired : Prop} {action : CorrectionAction} {statuses : List ResultStatus}
    (single : replaces action = false) (late : writes action = false) (written : Holds retired action statuses .written) :
    Outstanding retired action statuses := by
  rcases written_cases written with ⟨replacing, _⟩ | ⟨_, writing, _⟩ | ⟨_, _, _, unretired⟩
  · rw [single] at replacing
    contradiction
  · rw [late] at writing
    contradiction
  · refine ⟨unretired, late, fun replacing => ?_⟩
    rw [single] at replacing
    contradiction

theorem written_stopped {retired : Prop} {action : CorrectionAction} {statuses : List ResultStatus}
    (single : replaces action = false) (late : writes action = false) (written : Holds retired action statuses .written) :
    Stopped statuses := by
  have outstanding := written_outstanding single late written
  exact outstanding_stopped written outstanding.1 outstanding.2.1

theorem needed_stopped {position : Nat} {action : CorrectionAction} (needed : needsPhase2Work world position action = true)
    (written : Stands world action position .written) :
    Stopped (statuses world.results position) := by
  cases action with
  | supersede loserId replacement winnerId =>
    have unretired : position ∉ world.retiredReplacementActions := by simpa [needsPhase2Work] using needed
    exact outstanding_stopped written unretired rfl
  | retract | rescope => exact .inl written.1
  | edit | redactionRule => contradiction

theorem Ordered.begins_settling {position : Nat} (ordered : Ordered world) (stage : world.stage = .removing position)
    (beyond : world.actions[position]? = none) : Ordered (world.to .settling) := by
  refine ordered.moves trivial rfl nofun fun calm other action there stands standing => ?_
  have before : other < position := by
    have inside : other < world.actions.length := (List.getElem?_eq_some_iff.mp there).1
    have outside := List.getElem?_eq_none_iff.mp beyond
    omega
  have here : place world.stage other = some .removed := by
    rw [stage, place, passing, if_pos before]
  cases standing
  exact ordered.tallied calm other action there .removed here

theorem replacementResult_isSome {position : Nat} (found : (replacementResult world position).isSome = true) :
    ∃ result ∈ world.results, result.action = position ∧ result.status = .applied := by
  obtain ⟨result, same⟩ := Option.isSome_iff_exists.mp found
  have member := mem_of_find?_eq_some same
  have matched := List.find?_some same
  simp only [and_eq_true, decide_eq_true_eq] at matched
  exact ⟨result, member, matched⟩

theorem replacementResult_isNone {position : Nat} (missing : (replacementResult world position).isNone = true) :
    .applied ∉ statuses world.results position := by
  intro applied
  obtain ⟨result, member, same, status⟩ := mem_statuses.mp applied
  have unmatched := List.find?_eq_none.mp (Option.isNone_iff_eq_none.mp missing) result member
  simp [same, status] at unmatched

section

variable (ordered : Ordered world)
include ordered

theorem Ordered.superseding {position : Nat} {loserId : JsString} {replacement : Option MemoryDraft}
    {winnerId : Option JsString} (there : world.actions[position]? = some (.supersede loserId replacement winnerId))
    (unretired : position ∉ world.retiredReplacementActions)
    (replaced : ¬ (replacement.isSome && (replacementResult world position).isNone) = true)
    (unwon : replacement = none → winnerId = none) (supersededBy : Option JsString) :
    Underway world ⟨position, loserId, supersededBy, false⟩ := by
  refine ⟨?_, _, there, ?_⟩
  · cases replacement with
    | none =>
      rw [unwon rfl] at there
      rw [Backed, there]
      trivial
    | some draft =>
      have found : (replacementResult world position).isSome = true := by simpa [Option.isSome_iff_ne_none] using replaced
      obtain ⟨result, member, rfl, applied⟩ := replacementResult_isSome found
      exact (backed_replaces there rfl).mpr (ordered.attested result member applied _ there rfl)
  · refine ⟨unretired, rfl, fun replacing => ?_⟩
    cases replacement with
    | none => contradiction
    | some draft =>
      have found : (replacementResult world position).isSome = true := by simpa [Option.isSome_iff_ne_none] using replaced
      exact mem_statuses.mpr (replacementResult_isSome found)

theorem Ordered.remove {position : Nat} {action : CorrectionAction} (stage : world.stage = .removing position)
    (there : world.actions[position]? = some action)
    (going : ¬ (needsPhase2Work world position action && world.aborted) = true) :
    Ordered (world.remove position action) := by
  have turn : Turn world .removed .written position := fun _ => by rw [stage]; rfl
  have calm : needsPhase2Work world position action = true → world.cancellationRequestedAfterCommit = false := by
    intro needed
    by_contra cancelled
    have aborted := (ordered.halted (not_eq_false _ ▸ cancelled)).aborted
    exact going (by rw [needed, aborted]; rfl)
  have passes (passed : ¬ Outstanding (position ∈ world.retiredReplacementActions) action (statuses world.results position)) :
      Ordered (world.to (.removing (position + 1))) :=
    ordered.passes there turn (fun _ => rfl) nofun (written_passed passed) trivial rfl
  have takes {later : Stage} (needed : needsPhase2Work world position action = true) (suits : Suits world later)
      (goes : ongoing later = true) (places : place later = place world.stage) : Ordered (world.to later) :=
    ordered.moves suits goes (fun _ => calm needed) fun calm => (ordered.tallied calm).same places
  cases action with
  | supersede loserId replacement winnerId =>
    unfold World.remove
    dsimp only
    split_ifs with retired unreplaced
    · exact passes fun outstanding => outstanding.1 retired
    · obtain ⟨replacing, missing⟩ := and_eq_true_iff.mp unreplaced
      refine passes fun outstanding => replacementResult_isNone missing (outstanding.2.2 ?_)
      obtain ⟨draft, rfl⟩ := Option.isSome_iff_exists.mp replacing
      rfl
    · have needed : needsPhase2Work world position (.supersede loserId replacement winnerId) = true := by
        simpa [needsPhase2Work] using retired
      split
      next winner =>
        have suits : Suits world (.verifying position loserId winner) := there
        exact takes needed suits rfl (by rw [stage]; rfl)
      next unverified =>
        have unwon : replacement = none → winnerId = none := by
          rintro rfl
          cases winnerId with
          | none => rfl
          | some winner => exact absurd rfl (unverified winner rfl)
        exact takes needed (ordered.superseding there retired unreplaced unwon _) rfl (by rw [stage]; rfl)
  | retract memoryId =>
    have written := ordered.tallied (calm rfl) position _ there .written turn.here
    have underway : Underway world ⟨position, memoryId, none, false⟩ := by
      refine ⟨?_, _, there, written_outstanding rfl rfl written⟩
      rw [Backed, there]
      trivial
    exact takes rfl underway rfl (by rw [stage]; rfl)
  | rescope memoryId toNamespace =>
    have suits : Suits world (.rescoping position memoryId) := ⟨_, _, there⟩
    unfold World.remove
    dsimp only
    split_ifs
    · exact takes rfl suits rfl (by rw [stage]; rfl)
    · exact takes rfl suits rfl (by rw [stage]; rfl)
  | edit => exact passes nofun
  | redactionRule => exact passes nofun

section

variable {position : Nat} {action : CorrectionAction} {was : Stage} (here : world.stage = was)
  (there : world.actions[position]? = some action) (single : replaces action = false) (late : writes action = false)
  (working : busy was = true) (turn : ∀ other, place was other = some (passing .removed .written position other))
include here there single late working turn

theorem Ordered.unmoved (whole : uncut was = true) : Ordered (world.caught position .settling (.removing (position + 1))) := by
  have failed (written : Stands world action position .written) :
      Holds (position ∈ world.retiredReplacementActions) action (statuses world.results position ++ [.failed]) .removed :=
    written_failed (written_outstanding single late written) written
  exact ordered.caught here there turn whole (written_stopped single late) working (fun _ => rfl) failed (fun _ => trivial) rfl rfl
    (fun _ => trivial) rfl

theorem Ordered.refused {failure : Failure} : Ordered ((world.fail position failure).to (.removing (position + 1))) :=
  ordered.fails here there turn working (fun _ => rfl)
    (fun written => written_failed (written_outstanding single late written) written) (fun _ => trivial) rfl

end

theorem Ordered.verified {position : Nat} {loserId winnerId : JsString}
    (stage : world.stage = .verifying position loserId winnerId) :
    Ordered ((world.record (.verified position)).to (.fetching ⟨position, loserId, some winnerId, false⟩)) := by
  have there : world.actions[position]? = some (.supersede loserId none (some winnerId)) := ordered.suits_at stage
  have calm := ordered.steady (by rw [stage]; rfl)
  have turn : Turn world .removed .written position := fun _ => by rw [stage]; rfl
  have written := ordered.tallied calm position _ there .written turn.here
  have recorded : Ordered (world.record (.verified position)) := ordered.record (by rw [stage]; nofun) nofun
  have underway : Underway (world.record (.verified position)) ⟨position, loserId, some winnerId, false⟩ := by
    refine ⟨?_, _, there, written_outstanding rfl rfl written⟩
    change Backed world.actions (world.events ++ [.verified position]) position
    rw [Backed, there]
    exact mem_append_right _ (mem_singleton_self _)
  exact recorded.stays stage underway (fun _ => rfl) rfl rfl

theorem ordered_remove (stepped : removeStep world answer = some next) : Ordered next := by
  unfold removeStep at stepped
  split at stepped
  next position stage =>
    split at stepped
    next beyond =>
      cases stepped
      exact ordered.begins_settling stage beyond
    next action there =>
      split_ifs at stepped with stopping
      · cases stepped
        obtain ⟨needed, aborted⟩ := and_eq_true_iff.mp stopping
        exact ordered.stops stage there (fun _ => rfl) rfl (needed_stopped needed) aborted (fun _ => trivial) rfl rfl
      · cases stepped
        exact ordered.remove stage there stopping
  next position loserId winnerId stage =>
    cases stepped
    have suits := ordered.suits_at stage
    exact ordered.refused stage suits rfl rfl rfl fun _ => rfl
  next position loserId winnerId winner stage =>
    have suits := ordered.suits_at stage
    dsimp only at stepped
    split_ifs at stepped
    · cases stepped
      exact ordered.verified stage
    · cases stepped
      exact ordered.refused stage suits rfl rfl rfl fun _ => rfl
  next position loserId winnerId late stage =>
    cases stepped
    have suits := ordered.suits_at stage
    split_ifs with aborted
    · exact ordered.stops stage suits (fun _ => rfl) rfl (written_stopped rfl rfl) aborted (fun _ => trivial) rfl rfl
    · exact ordered.throws
  next position memoryId toNamespace allowed stage =>
    obtain ⟨_, _, there⟩ := ordered.suits_at stage
    split_ifs at stepped
    · cases stepped
      exact ordered.stays stage ⟨_, _, there⟩ (fun _ => rfl) rfl rfl
    · cases stepped
      exact ordered.refused stage there rfl rfl rfl fun _ => rfl
  next position memoryId toNamespace late stage =>
    cases stepped
    obtain ⟨_, _, there⟩ := ordered.suits_at stage
    exact ordered.unmoved stage there rfl rfl rfl (fun _ => rfl) rfl
  next position memoryId destinationId stage =>
    cases stepped
    obtain ⟨_, _, there⟩ := ordered.suits_at stage
    have moved : Ordered ((world.commit (.rescoped position destinationId) position (some destinationId)).to
        (.propagatingDestination position)) :=
      ordered.commits stage there (fun _ => rfl) rfl (fun _ => rfl)
        (fun written => written_applied rfl (written_outstanding rfl rfl written) written) rfl rfl (fun _ => trivial) rfl
    exact moved.touch memoryId
  next position memoryId late stage =>
    cases stepped
    obtain ⟨_, _, there⟩ := ordered.suits_at stage
    have recorded : Ordered (world.recordIf late (.unanswered position .rescope)) :=
      ordered.recordIf (by rw [stage]; nofun) late nofun
    have after : (world.recordIf late (.unanswered position .rescope)).stage = .rescoping position memoryId :=
      (recordIf_stage _ _).trans stage
    rw [← recordIf_actions late (.unanswered position .rescope)] at there
    exact recorded.unmoved after there rfl rfl rfl (fun _ => rfl) rfl
  next position stage =>
    cases stepped
    exact ordered.stays stage trivial nofun rfl rfl
  next position late stage =>
    cases stepped
    exact ordered.stays stage trivial nofun rfl rfl
  next => contradiction

end

theorem Concluded.agrees {actions : List CorrectionAction} {outcome later : CorrectionOutcome}
    (concluded : Concluded actions outcome) (results : later.results = outcome.results)
    (status : later.status = outcome.status) : Concluded actions later where
  settled := results ▸ concluded.settled
  within := results ▸ concluded.within
  applied := by
    rw [results, status]
    exact concluded.applied

theorem Ordered.concludes {later : CorrectionOutcome} (ordered : Ordered world) (actions : next.actions = world.actions)
    (results : next.results = world.results) (events : next.events = world.events)
    (cancelled : next.cancellationRequestedAfterCommit = world.cancellationRequestedAfterCommit)
    (aborted : next.aborted = world.aborted) (there : outcomeAt next.stage = some later)
    (concluded : Concluded world.actions later) : Ordered next := by
  obtain ⟨begun, suits, idle, unplaced⟩ : next.stage ≠ .loading ∧ Suits next next.stage ∧ busy next.stage = false ∧
      ∀ position, place next.stage position = none := by
    generalize next.stage = stage at there
    cases stage <;> first | exact ⟨nofun, trivial, rfl, fun _ => rfl⟩ | contradiction
  refine ⟨fun loading => absurd loading begun, suits, ?_, ?_, ?_, ?_, ?_, ?_, ?_⟩
  · rw [actions, results, events]
    exact ordered.attested
  · rw [actions, events]
    exact ordered.backed
  · rw [actions, results]
    exact ordered.within
  · rw [idle]
    exact nofun
  · intro _ position action _ stands standing
    rw [unplaced] at standing
    contradiction
  · rw [cancelled]
    intro cancelled
    obtain ⟨before, left, stopped⟩ := ordered.halted cancelled
    refine ⟨aborted ▸ before, ?_, ?_⟩
    · rw [actions, results]
      exact left
    · rw [actions, results]
      exact stopped
  · intro outcome found
    rw [there] at found
    cases found
    rw [actions]
    exact concluded

theorem filter_range (length position : Nat) :
    (List.range length).filter (· = position) = if position < length then [position] else [] := by
  induction length with
  | zero => rfl
  | succ length ih =>
    rw [range_succ, filter_append, ih]
    by_cases last : length = position
    · simp [last]
    · have same : position < length + 1 ↔ position < length := by omega
      simp [last, same]

theorem statuses_eq_nil {results : List CorrectionActionResult} {position : Nat} :
    statuses results position = [] ↔ position ∉ results.map (·.action) := by
  simp [statuses, filter_eq_nil_iff]

theorem statuses_skippedResults (cancelled : world.cancellationRequestedAfterCommit = true) {position : Nat}
    (inside : position < world.actions.length) :
    statuses (skippedResults world) position = if statuses world.results position = [] then [.skipped] else [] := by
  rw [skippedResults, if_pos cancelled, statuses, filter_map, map_map]
  have chosen : ((List.range world.actions.length).filter fun other => other ∉ world.results.map (·.action)).filter
      (· = position) = [position].filter fun other => other ∉ world.results.map (·.action) := by
    rw [filter_comm, filter_range, if_pos inside]
  have selected := congrArg (List.map fun _ => ResultStatus.skipped) chosen
  refine selected.trans ?_
  by_cases recorded : position ∈ world.results.map (·.action)
  · have some : statuses world.results position ≠ [] := fun nothing => statuses_eq_nil.mp nothing recorded
    rw [if_neg some, filter_cons_of_neg (by simpa only [decide_eq_true_eq] using not_not_intro recorded)]
    rfl
  · rw [if_pos (statuses_eq_nil.mpr recorded), filter_cons_of_pos (by simpa only [decide_eq_true_eq] using recorded)]
    rfl

theorem statuses_concat (results later : List CorrectionActionResult) (position : Nat) :
    statuses (results ++ later) position = statuses results position ++ statuses later position := by
  simp [statuses]

section

variable (ordered : Ordered world)
include ordered

theorem concluded_completed (stage : world.stage = .closing) (calm : world.cancellationRequestedAfterCommit = false) : Concluded world.actions (outcomeOf world) := by
  have results : (outcomeOf world).results = world.results := by
    simp [outcomeOf, skippedResults, calm]
  have status : (outcomeOf world).status = .applied ↔ ∀ result ∈ world.results, result.status ≠ .failed := by
    simp [outcomeOf, calm]
  constructor
  · intro position action there
    rw [results]
    exact settled_of_removed (ordered.tallied calm position action there .removed (by rw [stage]; rfl))
  · intro result member
    rw [results] at member
    exact (ordered.within result member).1
  · rw [results, status]
    constructor
    · intro unfailed position _ status found
      obtain ⟨result, member, _, rfl⟩ := mem_statuses.mp found
      have ran := (ordered.within result member).2
      cases same : result.status with
      | applied => rfl
      | failed => exact absurd same (unfailed result member)
      | skipped => exact absurd same ran
    · intro applied result member failed
      have found := applied result.action (ordered.within result member).1 result.status
        (mem_statuses.mpr ⟨result, member, rfl, rfl⟩)
      rw [failed] at found
      contradiction

theorem concluded_cancelled (cancelled : world.cancellationRequestedAfterCommit = true) :
    Concluded world.actions (outcomeOf world) := by
  obtain ⟨_, left, stopped⟩ := ordered.halted cancelled
  have all (position : Nat) : statuses (outcomeOf world).results position =
      statuses world.results position ++ statuses (skippedResults world) position := statuses_concat _ _ _
  constructor
  · intro position action there
    have inside : position < world.actions.length := (List.getElem?_eq_some_iff.mp there).1
    rw [all, statuses_skippedResults cancelled inside]
    rcases left position action there with nothing | removed
    · rw [nothing, if_pos rfl]
      exact settled_skipped action
    · rw [if_neg (removed_ne_nil removed), append_nil]
      exact settled_of_removed removed
  · intro result member
    rcases mem_append.mp member with before | skipped
    · exact (ordered.within result before).1
    · rw [skippedResults, if_pos cancelled] at skipped
      obtain ⟨position, chosen, rfl⟩ := mem_map.mp skipped
      exact mem_range.mp (mem_filter.mp chosen).1
  · have partly : (outcomeOf world).status ≠ .applied := by
      simp [outcomeOf, cancelled]
    refine ⟨fun applied => absurd applied partly, fun applied => ?_⟩
    obtain ⟨position, inside, stops⟩ := stopped
    have found := applied position inside
    rw [all, statuses_skippedResults cancelled inside] at found
    rcases stops with nothing | failed
    · have skipped := found .skipped (by simp [nothing])
      contradiction
    · have same := found .failed (mem_append_left _ failed)
      contradiction

theorem Ordered.unlessAborted (otherwise : Ordered next) : Ordered (world.unlessAborted next) := by
  unfold World.unlessAborted
  split_ifs
  · exact ordered.resets
  · exact otherwise

theorem Ordered.warn (stage : world.stage = .propagating) (warnings : List Warning) :
    Ordered ({ world with warnings }.to .closing) := by
  have closing : Ordered (world.to .closing) := ordered.stays stage trivial nofun rfl rfl
  exact closing.congr rfl rfl rfl rfl rfl rfl id

theorem ordered_close (stepped : closeStep world answer = some next) : Ordered next := by
  unfold closeStep at stepped
  split at stepped
  next stage =>
    cases stepped
    refine ordered.unlessAborted ?_
    split_ifs
    · exact ordered.stays stage trivial nofun rfl rfl
    · exact ordered.stays stage trivial nofun rfl rfl
  next stage =>
    cases stepped
    exact ordered.stays stage trivial nofun rfl rfl
  next late stage =>
    split_ifs at stepped
    · cases stepped
      exact ordered.throws
    · cases stepped
      exact ordered.warn stage _
  next stage =>
    cases stepped
    refine ordered.unlessAborted (ordered.concludes rfl rfl rfl rfl rfl rfl ?_)
    cases cancelled : world.cancellationRequestedAfterCommit with
    | false => exact concluded_completed ordered stage cancelled
    | true => exact concluded_cancelled ordered cancelled
  next outcome auditMemoryId stage =>
    cases stepped
    have concluded := ordered.concluded outcome (by rw [stage]; rfl)
    exact ordered.concludes rfl rfl rfl rfl rfl rfl (concluded.agrees rfl rfl)
  next outcome late stage =>
    cases stepped
    have concluded := ordered.concluded outcome (by rw [stage]; rfl)
    exact ordered.unlessAborted (ordered.concludes rfl rfl rfl rfl rfl rfl (concluded.agrees rfl rfl))
  next outcome stage =>
    cases stepped
    have concluded := ordered.concluded outcome (by rw [stage]; rfl)
    exact ordered.concludes rfl rfl rfl rfl rfl rfl concluded
  next outcome late stage =>
    cases stepped
    have concluded := ordered.concluded outcome (by rw [stage]; rfl)
    split_ifs
    · exact ordered.concludes rfl rfl rfl rfl rfl rfl (concluded.agrees rfl rfl)
    · exact ordered.concludes rfl rfl rfl rfl rfl rfl (concluded.agrees rfl rfl)
  next => contradiction

end

theorem ordered_initial (nameSpace : JsString) (plan : Option CorrectionPlan) (hasDestinationCheck aborted : Bool) :
    Ordered (initial nameSpace plan hasDestinationCheck aborted) where
  fresh _ := ⟨rfl, rfl, rfl⟩
  suits := trivial
  attested := nofun
  backed before event first := by
    have nothing := prefix_nil.mp first
    simp at nothing
  within := nofun
  steady _ := rfl
  tallied := nofun
  halted := nofun
  concluded := nofun

theorem ordered_step {action : Action} (ordered : Ordered world) (stepped : step host world action = some next) :
    Ordered next := by
  cases action with
  | abort =>
    cases stepped
    exact ordered.congr rfl rfl rfl rfl rfl rfl fun _ => rfl
  | answer answer =>
    unfold step at stepped
    dsimp only at stepped
    split at stepped
    all_goals first
      | exact ordered_start ordered stepped
      | exact ordered_write ordered stepped
      | exact ordered_retire ordered stepped
      | exact ordered_remove ordered stepped
      | exact ordered_close ordered stepped
      | contradiction

end Remnic.Correction.Order
