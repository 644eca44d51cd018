import Remnic.RateLimit.Window

/-!
The limiter over a run of calls. The reads that stand are the reservations of the replies that no
release has taken back; the readings of the clock do not go back.
-/

namespace Remnic.RateLimit.SlidingBound

open Text.CodeUnits Library Limiter Window List

variable {config : Config} {budget first second : Budget} {principal : JsString} {call : Call} {calls later : List Call}

structure Read where
  reservation : BudgetReservation
  ts : Int
  deriving DecidableEq

/-- The reads after a call that is decided with a reading, allowed or not. -/
def afterRecord (reads : List Read) (decision : BudgetDecision) (now : Int) : List Read :=
  match decision.reservation with
  | some reservation => reads ++ [⟨reservation, now⟩]
  | none => reads

def standingAfter (reads : List Read) (call : Call) (reply : Reply) : List Read :=
  match call, reply with
  | .release (some reservation), _ => reads.filter fun read => !decide (read.reservation = reservation)
  | .record _ now, .decision decision => afterRecord reads decision (normalizeClock now)
  | .check args, .decision decision => afterRecord reads decision (normalizeClock args.now)
  | _, _ => reads

def standing (config : Config) : Budget → List Read → List Call → List Read
  | _, reads, [] => reads
  | budget, reads, call :: calls =>
      standing config (answer config budget call).1 (standingAfter reads call (answer config budget call).2) calls

def decisions (replies : List Reply) : List BudgetDecision :=
  replies.filterMap fun reply =>
    match reply with
    | .decision decision => some decision
    | _ => none

def Monotone (calls : List Call) : Prop := (calls.filterMap Call.reading).Pairwise (· ≤ ·)

structure KeepsBudget (config : Config) (calls : List Call) : Prop where
  bounded : ∀ principal (now : Int), ((standing config initial [] calls).countP fun read =>
    decide (read.reservation.principal = principal ∧ now - config.windowMs ≤ (read.ts : ℚ) ∧ read.ts ≤ now)) < config.hardLimit
  released : ∀ reservation principal, (release (answers config initial calls).1 (some reservation)).entries principal =
    ((answers config initial calls).1.entries principal).filter fun entry => !decide (reservation = ⟨principal, entry.id⟩)
  collected : ∀ now later, Monotone (calls ++ .gc now :: later) →
    decisions (answers config (gc config (answers config initial calls).1 now).1 later).2 =
      decisions (answers config (answers config initial calls).1 later).2
  peeked : ∀ args, { peek config (answers config initial calls).1 args with reservation := none } =
    { (check config (answers config initial calls).1 args).2 with reservation := none }

variable {reads : List Read} {now next : Int}

def readsOf (reads : List Read) (principal : JsString) : List Entry :=
  (reads.filter fun read => decide (read.reservation.principal = principal)).map fun read => ⟨read.reservation.id, read.ts⟩

/-- The buckets hold the reads that stand, less some that are too old at the last reading. -/
structure Tracked (config : Config) (budget : Budget) (reads : List Read) (now : Int) : Prop where
  known : ∀ read ∈ reads, read.reservation.id ≤ budget.reservationSeq
  distinct : (reads.map fun read => read.reservation.id).Nodup
  past : ∀ read ∈ reads, read.ts ≤ now
  ordered : reads.Pairwise fun first second => first.ts ≤ second.ts
  held : ∀ principal, ∃ dropped, readsOf reads principal = dropped ++ budget.entries principal ∧ ∀ entry ∈ dropped, isLive config now entry = false
  bounded : ∀ principal (last : Int), (reads.countP fun read =>
    decide (read.reservation.principal = principal ∧ last - config.windowMs ≤ (read.ts : ℚ) ∧ read.ts ≤ last)) < config.hardLimit

section tracked

theorem tracked_initial (config : Config) (now : Int) : Tracked config initial [] now where
  known _ member := absurd member not_mem_nil
  distinct := nodup_nil
  past _ member := absurd member not_mem_nil
  ordered := Pairwise.nil
  held _ := ⟨[], rfl, fun _ member => absurd member not_mem_nil⟩
  bounded _ _ := config.hard_pos

section

variable (tracked : Tracked config budget reads now)
include tracked

theorem readsOf_ordered (principal : JsString) : Ordered (readsOf reads principal) :=
  pairwise_map.mpr (tracked.ordered.filter _)

theorem readsOf_distinct (principal : JsString) : ((readsOf reads principal).map Entry.id).Nodup := by
  unfold readsOf
  rw [map_map]
  exact (filter_sublist.map _).nodup tracked.distinct

theorem Tracked.entries_ordered (principal : JsString) : Ordered (budget.entries principal) := by
  obtain ⟨dropped, parts, _⟩ := tracked.held principal
  have ordered := readsOf_ordered tracked principal
  rw [parts] at ordered
  exact (pairwise_append.mp ordered).2.1

theorem Tracked.entries_distinct (principal : JsString) : ((budget.entries principal).map Entry.id).Nodup := by
  obtain ⟨dropped, parts, _⟩ := tracked.held principal
  have distinct := readsOf_distinct tracked principal
  rw [parts, map_append] at distinct
  exact (nodup_append.mp distinct).2.1

theorem Tracked.live_eq (later : now ≤ next) (principal : JsString) :
    live config next budget principal = (readsOf reads principal).filter (isLive config next) := by
  obtain ⟨dropped, parts, expired⟩ := tracked.held principal
  rw [parts, filter_append, filter_eq_nil_iff.mpr, nil_append]
  · rfl
  · intro entry member alive
    exact absurd (isLive_later later alive) (Bool.eq_false_iff.mp (expired entry member))

theorem Tracked.prune {pruned : Budget} (later : now ≤ next) (seq : budget.reservationSeq ≤ pruned.reservationSeq)
    (parts : ∀ principal, pruned.entries principal = budget.entries principal ∨ pruned.entries principal = live config next budget principal) :
    Tracked config pruned reads next where
  known read member := (tracked.known read member).trans seq
  distinct := tracked.distinct
  past read member := (tracked.past read member).trans later
  ordered := tracked.ordered
  bounded := tracked.bounded
  held principal := by
    obtain ⟨dropped, whole, expired⟩ := tracked.held principal
    have still : ∀ entry ∈ dropped, isLive config next entry = false := fun entry member =>
      Bool.eq_false_iff.mpr fun alive => absurd (isLive_later later alive) (Bool.eq_false_iff.mp (expired entry member))
    rcases parts principal with same | pruned
    · exact ⟨dropped, by rw [same, whole], still⟩
    · have shifted := shiftExpired_eq_filter config next (tracked.entries_ordered principal)
      refine ⟨dropped ++ (budget.entries principal).takeWhile fun entry => decide ((entry.ts : ℚ) < next - config.windowMs), ?_, ?_⟩
      · rw [pruned, whole, append_assoc]
        unfold live
        rw [← shifted]
        exact congrArg _ takeWhile_append_dropWhile.symm
      · intro entry member
        rcases mem_append.mp member with early | early
        · exact still entry early
        · have expired := mem_takeWhile_imp early
          exact decide_eq_false (not_le.mpr (of_decide_eq_true expired))

end

theorem Tracked.push {pushed : Budget} (principal : JsString) (tracked : Tracked config budget reads now)
    (live : ∀ entry ∈ budget.entries principal, isLive config now entry = true) (few : (budget.entries principal).length + 1 < config.hardLimit)
    (seq : pushed.reservationSeq = budget.reservationSeq + 1)
    (parts : ∀ other, pushed.entries other =
      if other = principal then budget.entries principal ++ [⟨budget.reservationSeq + 1, now⟩] else budget.entries other) :
    Tracked config pushed (reads ++ [⟨⟨principal, budget.reservationSeq + 1⟩, now⟩]) now where
  known read member := by
    rw [seq]
    rcases mem_append.mp member with earlier | last
    · exact (tracked.known read earlier).trans (Nat.le_succ _)
    · rw [mem_singleton.mp last]
  distinct := by
    rw [map_append]
    refine nodup_append.mpr ⟨tracked.distinct, nodup_singleton _, fun id member other last same => ?_⟩
    obtain ⟨read, earlier, rfl⟩ := mem_map.mp member
    have known := tracked.known read earlier
    rw [same, mem_singleton.mp last] at known
    exact absurd known (Nat.not_succ_le_self _)
  past read member := by
    rcases mem_append.mp member with earlier | last
    · exact tracked.past read earlier
    · rw [mem_singleton.mp last]
  ordered := by
    refine pairwise_append.mpr ⟨tracked.ordered, pairwise_singleton _ _, fun read earlier other last => ?_⟩
    rw [mem_singleton.mp last]
    exact tracked.past read earlier
  held other := by
    obtain ⟨dropped, whole, expired⟩ := tracked.held other
    refine ⟨dropped, ?_, expired⟩
    rw [parts]
    unfold readsOf at whole ⊢
    rw [filter_append, map_append, whole]
    split_ifs with own
    · subst own
      simp
    · have apart : ¬ principal = other := fun same => own same.symm
      simp [apart]
  bounded other last := by
    rw [countP_append]
    by_cases counted : principal = other ∧ last - config.windowMs ≤ (now : ℚ) ∧ now ≤ last
    · obtain ⟨rfl, _, reached⟩ := counted
      have within : (reads.countP fun read =>
          decide (read.reservation.principal = principal ∧ last - config.windowMs ≤ (read.ts : ℚ) ∧ read.ts ≤ last)) ≤
            (readsOf reads principal).countP (isLive config now) := by
        unfold readsOf
        rw [countP_map, countP_filter]
        refine countP_mono_left fun read _ counts => ?_
        obtain ⟨own, recent, _⟩ := of_decide_eq_true counts
        rw [Bool.and_eq_true]
        refine ⟨decide_eq_true ?_, decide_eq_true own⟩
        have order : (now : ℚ) ≤ last := by exact_mod_cast reached
        show (now : ℚ) - config.windowMs ≤ (read.ts : ℚ)
        linarith
      obtain ⟨dropped, whole, expired⟩ := tracked.held principal
      rw [whole, countP_append, countP_eq_zero.mpr fun entry member => Bool.eq_false_iff.mp (expired entry member)] at within
      have total := countP_le_length (p := isLive config now) (l := budget.entries principal)
      have one := countP_le_length (p := fun read : Read =>
        decide (read.reservation.principal = principal ∧ last - config.windowMs ≤ (read.ts : ℚ) ∧ read.ts ≤ last))
        (l := [⟨⟨principal, budget.reservationSeq + 1⟩, now⟩])
      rw [length_singleton] at one
      omega
    · rw [countP_singleton, if_neg (by simpa using counted), Nat.add_zero]
      exact tracked.bounded other last

theorem Tracked.release (tracked : Tracked config budget reads now) (reservation : BudgetReservation) :
    Tracked config (Limiter.release budget (some reservation)) (reads.filter fun read => !decide (read.reservation = reservation)) now := by
  obtain ⟨seq, parts⟩ := release_spec tracked.entries_distinct (some reservation)
  have sublist := filter_sublist (l := reads) (p := fun read => !decide (read.reservation = reservation))
  refine ⟨fun read member => ?_, (sublist.map _).nodup tracked.distinct, fun read member => tracked.past read (sublist.subset member),
    tracked.ordered.sublist sublist, fun principal => ?_, fun principal last => (sublist.countP_le).trans_lt (tracked.bounded principal last)⟩
  · rw [seq]
    exact tracked.known read (sublist.subset member)
  · obtain ⟨dropped, whole, expired⟩ := tracked.held principal
    refine ⟨dropped.filter fun entry => !decide (some reservation = some ⟨principal, entry.id⟩), ?_,
      fun entry member => expired entry (mem_of_mem_filter member)⟩
    rw [parts, ← filter_append, ← whole]
    unfold readsOf
    rw [filter_map, filter_filter, filter_filter]
    congr 1
    refine filter_congr fun read _ => ?_
    simp only [Function.comp_apply, Option.some_inj]
    by_cases own : read.reservation.principal = principal
    · subst own
      simp only [decide_true, Bool.true_and, Bool.and_true]
      exact congrArg _ (decide_eq_decide.mpr ⟨Eq.symm, Eq.symm⟩)
    · simp [own]

theorem Tracked.record (tracked : Tracked config budget reads now) (principal : JsString) (clock : Clock) (later : now ≤ normalizeClock clock)
    (enabled : config.enabled = true) :
    let decision := decisionOf config ((readsOf reads (attributed principal)).filter (isLive config (normalizeClock clock))).length
      (some ⟨attributed principal, budget.reservationSeq + 1⟩)
    (Limiter.record config budget principal clock).2 = decision ∧
      (Limiter.record config budget principal clock).1.reservationSeq = budget.reservationSeq + 1 ∧
      Tracked config (Limiter.record config budget principal clock).1
        (match decision.reservation with
          | some reservation => reads ++ [⟨reservation, normalizeClock clock⟩]
          | none => reads) (normalizeClock clock) := by
  obtain ⟨decided, seq, parts⟩ := record_spec clock enabled (tracked.entries_ordered (attributed principal))
  dsimp only
  rw [← tracked.live_eq later, ← decided]
  refine ⟨rfl, seq, ?_⟩
  rw [decided]
  unfold decisionOf
  by_cases denied : config.hardLimit ≤ (live config (normalizeClock clock) budget (attributed principal)).length + 1
  · rw [if_pos denied]
    refine tracked.prune later (by rw [seq]; exact Nat.le_succ _) fun other => ?_
    rw [parts, if_pos denied]
    split_ifs with own
    · exact .inr (by rw [own])
    · exact .inl rfl
  · rw [if_neg denied]
    let pruned : Budget := ⟨storeEntries budget.buckets (attributed principal) (live config (normalizeClock clock) budget (attributed principal)),
      budget.reservationSeq⟩
    have shown (other : JsString) : pruned.entries other =
        if other = attributed principal then live config (normalizeClock clock) budget (attributed principal) else budget.entries other :=
      entries_storeEntries _ _
    have kept : Tracked config pruned reads (normalizeClock clock) := by
      refine tracked.prune later le_rfl fun other => ?_
      rw [shown]
      split_ifs with own
      · exact .inr (by rw [own])
      · exact .inl rfl
    have own := shown (attributed principal)
    rw [if_pos rfl] at own
    refine kept.push (attributed principal) ?_ ?_ seq fun other => ?_
    · rw [own]
      exact fun entry member => (mem_filter.mp member).2
    · rw [own]
      exact not_le.mp denied
    · rw [parts, if_neg denied, own, shown other]
      split_ifs <;> rfl

end tracked

section runs

theorem Tracked.age (tracked : Tracked config budget reads now) (later : now ≤ next) : Tracked config budget reads next :=
  tracked.prune later le_rfl fun _ => .inl rfl

theorem tracked_record (tracked : Tracked config budget reads now) (clock : Clock) (later : now ≤ normalizeClock clock) :
    Tracked config (record config budget principal clock).1
      (afterRecord reads (record config budget principal clock).2 (normalizeClock clock)) (normalizeClock clock) := by
  by_cases enabled : config.enabled = true
  · obtain ⟨decided, -, kept⟩ := tracked.record principal clock later enabled
    unfold afterRecord
    rw [decided]
    exact kept
  · unfold Limiter.record
    rw [if_pos (by simpa using enabled)]
    exact tracked.age later

theorem tracked_answer (tracked : Tracked config budget reads now) (call : Call) (later : ∀ reading ∈ call.reading, now ≤ reading) :
    Tracked config (answer config budget call).1 (standingAfter reads call (answer config budget call).2) (call.reading.getD now) := by
  cases call with
  | record principal clock => exact tracked_record tracked clock (later _ rfl)
  | check args =>
    show Tracked config (check config budget args).1 (afterRecord reads (check config budget args).2 (normalizeClock args.now)) (normalizeClock args.now)
    unfold check
    by_cases same : sameNamespace args = true
    · rw [if_pos same]
      exact tracked.age (later _ rfl)
    · rw [if_neg same]
      exact tracked_record tracked args.now (later _ rfl)
  | peek args => exact tracked.age (later _ rfl)
  | release reservation =>
    cases reservation with
    | none => exact tracked
    | some reservation => exact tracked.release reservation
  | gc clock =>
    obtain ⟨seq, parts⟩ := gc_spec config clock tracked.entries_ordered
    exact tracked.prune (later _ rfl) seq.symm.le fun principal => .inr (parts principal)

theorem record_congr (principal : JsString) (one : Tracked config first reads now) (two : Tracked config second reads now)
    (seq : first.reservationSeq = second.reservationSeq) (clock : Clock) (later : now ≤ normalizeClock clock) :
    (record config first principal clock).2 = (record config second principal clock).2 ∧
      (record config first principal clock).1.reservationSeq = (record config second principal clock).1.reservationSeq := by
  by_cases enabled : config.enabled = true
  · obtain ⟨decided, counted, -⟩ := one.record principal clock later enabled
    obtain ⟨decided', counted', -⟩ := two.record principal clock later enabled
    rw [decided, decided', counted, counted', seq]
    exact ⟨rfl, rfl⟩
  · unfold Limiter.record
    rw [if_pos (by simpa using enabled), if_pos (by simpa using enabled)]
    exact ⟨rfl, seq⟩

theorem answer_congr (one : Tracked config first reads now) (two : Tracked config second reads now)
    (seq : first.reservationSeq = second.reservationSeq) (call : Call) (later : ∀ reading ∈ call.reading, now ≤ reading) :
    decisions [(answer config first call).2] = decisions [(answer config second call).2] ∧
      (answer config first call).1.reservationSeq = (answer config second call).1.reservationSeq ∧
      standingAfter reads call (answer config first call).2 = standingAfter reads call (answer config second call).2 := by
  cases call with
  | record principal clock =>
    obtain ⟨decided, counted⟩ := record_congr principal one two seq clock (later _ rfl)
    unfold answer
    dsimp only
    rw [decided]
    exact ⟨rfl, counted, rfl⟩
  | check args =>
    have same : (check config first args).2 = (check config second args).2 ∧
        (check config first args).1.reservationSeq = (check config second args).1.reservationSeq := by
      unfold check
      by_cases same : sameNamespace args = true
      · rw [if_pos same, if_pos same]
        exact ⟨rfl, seq⟩
      · rw [if_neg same, if_neg same]
        exact record_congr _ one two seq args.now (later _ rfl)
    unfold answer
    dsimp only
    rw [same.1]
    exact ⟨rfl, same.2, rfl⟩
  | peek args =>
    have decided : peek config first args = peek config second args := by
      by_cases apart : sameNamespace args = false
      · by_cases enabled : config.enabled = true
        · rw [peek_eq enabled args apart, peek_eq enabled args apart, one.live_eq (later _ rfl), two.live_eq (later _ rfl)]
        · unfold peek
          simp only [Bool.not_eq_true] at enabled
          simp [enabled]
      · unfold peek
        simp only [Bool.not_eq_false] at apart
        simp [apart]
    unfold answer
    dsimp only
    rw [decided]
    exact ⟨rfl, seq, rfl⟩
  | release reservation =>
    refine ⟨rfl, ?_, rfl⟩
    exact (release_spec one.entries_distinct reservation).1.trans (seq.trans (release_spec two.entries_distinct reservation).1.symm)
  | gc clock => exact ⟨rfl, seq, rfl⟩

theorem tracked_answers (tracked : Tracked config budget reads now) (monotone : Monotone calls)
    (later : ∀ reading ∈ calls.filterMap Call.reading, now ≤ reading) :
    ∃ last, Tracked config (answers config budget calls).1 (standing config budget reads calls) last ∧
      ∀ reading, now ≤ reading → (∀ earlier ∈ calls.filterMap Call.reading, earlier ≤ reading) → last ≤ reading := by
  induction calls generalizing budget reads now with
  | nil => exact ⟨now, tracked, fun reading reached _ => reached⟩
  | cons call calls ih =>
    unfold Monotone at monotone
    rw [filterMap_cons] at monotone later
    have step := tracked_answer tracked call
    cases read : call.reading with
    | none =>
      rw [read] at monotone later step
      obtain ⟨last, kept, bound⟩ := ih (step (by simp)) monotone later
      refine ⟨last, kept, fun reading reached all => bound reading reached ?_⟩
      rwa [filterMap_cons_none read] at all
    | some reading =>
      rw [read] at monotone later step
      obtain ⟨ahead, monotone⟩ := pairwise_cons.mp monotone
      obtain ⟨last, kept, bound⟩ := ih (step fun value same => later value (by simp_all)) monotone ahead
      refine ⟨last, kept, fun value reached all => ?_⟩
      rw [filterMap_cons_some read] at all
      exact bound value (all reading mem_cons_self) fun earlier member => all earlier (mem_cons_of_mem _ member)

theorem answers_congr (one : Tracked config first reads now) (two : Tracked config second reads now)
    (seq : first.reservationSeq = second.reservationSeq) (monotone : Monotone calls)
    (later : ∀ reading ∈ calls.filterMap Call.reading, now ≤ reading) :
    decisions (answers config first calls).2 = decisions (answers config second calls).2 := by
  induction calls generalizing first second reads now with
  | nil => rfl
  | cons call calls ih =>
    unfold Monotone at monotone
    rw [filterMap_cons] at monotone later
    have own : ∀ reading ∈ call.reading, now ≤ reading := by
      intro reading read
      rw [read] at later
      exact later reading mem_cons_self
    obtain ⟨decided, counted, reads'⟩ := answer_congr one two seq call own
    have kept := tracked_answer two call own
    rw [← reads'] at kept
    have rest : decisions (answers config (answer config first call).1 calls).2 = decisions (answers config (answer config second call).1 calls).2 := by
      refine ih (tracked_answer one call own) kept counted ?_ ?_
      · cases read : call.reading with
        | none =>
          rw [read] at monotone
          exact monotone
        | some reading =>
          rw [read] at monotone
          exact (pairwise_cons.mp monotone).2
      · cases read : call.reading with
        | none =>
          rw [read] at later
          exact later
        | some reading =>
          rw [read] at monotone
          exact (pairwise_cons.mp monotone).1
    have parts (reply : Reply) (replies : List Reply) : decisions (reply :: replies) = decisions [reply] ++ decisions replies :=
      filterMap_append (l := [reply])
    exact (parts _ _).trans ((congrArg₂ List.append decided rest).trans (parts _ _).symm)

end runs

theorem exists_start (monotone : Monotone calls) : ∃ start, ∀ reading ∈ calls.filterMap Call.reading, start ≤ reading := by
  cases readings : calls.filterMap Call.reading with
  | nil => exact ⟨0, by simp⟩
  | cons first rest =>
    unfold Monotone at monotone
    rw [readings] at monotone
    refine ⟨first, fun reading member => ?_⟩
    rcases mem_cons.mp member with rfl | member
    · exact le_rfl
    · exact (pairwise_cons.mp monotone).1 reading member

/-- The readings of a run do not go back, and then the limiter keeps its promises. -/
theorem keeps_budget (config : Config) (monotone : Monotone calls) : KeepsBudget config calls := by
  obtain ⟨start, early⟩ := exists_start monotone
  obtain ⟨last, tracked, -⟩ := tracked_answers (tracked_initial config start) monotone early
  refine ⟨tracked.bounded, fun reservation principal => ?_, fun clock later whole => ?_, fun args => ?_⟩
  · rw [(release_spec tracked.entries_distinct (some reservation)).2]
    exact filter_congr fun entry _ => congrArg _ (decide_eq_decide.mpr Option.some_inj)
  · obtain ⟨start, early⟩ := exists_start whole
    unfold Monotone at whole
    rw [filterMap_append, filterMap_cons_some (f := Call.reading) (b := normalizeClock clock) rfl] at whole early
    obtain ⟨-, after, before⟩ := pairwise_append.mp whole
    obtain ⟨ahead, rest⟩ := pairwise_cons.mp after
    obtain ⟨last, tracked, bound⟩ := tracked_answers (tracked_initial config start) monotone fun reading member =>
      early reading (mem_append_left _ member)
    have reached : last ≤ normalizeClock clock :=
      bound _ (early _ (mem_append_right _ mem_cons_self)) fun earlier member => before earlier member _ mem_cons_self
    obtain ⟨seq, parts⟩ := gc_spec config clock tracked.entries_ordered
    exact answers_congr (tracked.prune reached seq.symm.le fun principal => .inr (parts principal)) (tracked.age reached) seq rest ahead
  · unfold check
    by_cases same : sameNamespace args = true
    · rw [if_pos same]
      unfold peek
      rw [if_pos same]
    · rw [if_neg same]
      by_cases enabled : config.enabled = true
      · obtain ⟨decided, -⟩ := record_spec args.now enabled (tracked.entries_ordered (attributed args.principal))
        rw [peek_eq enabled args (Bool.eq_false_iff.mpr same), decided]
        unfold decisionOf
        split_ifs <;> rfl
      · unfold peek record
        rw [if_neg same, if_pos (by simpa using enabled), if_pos (by simpa using enabled)]

def sampleConfig : Config := effectiveConfig (some ⟨some true, none, none, none⟩)

theorem keeps_budget_of_sample :
    KeepsBudget sampleConfig [.record (text "alice") (.dateNow 0), .gc (.dateNow 60001), .record (text "alice") (.dateNow 60001)] :=
  keeps_budget sampleConfig (by unfold Monotone; decide)

/-- A reading that goes back leaves a stale entry behind the first one: the look counts it out, the call counts it in. -/
theorem clock_goes_back :
    ¬ KeepsBudget sampleConfig [.record (text "alice") (.dateNow 100000), .record (text "alice") (.dateNow 0)] := by
  intro keeps
  have peeked := congrArg BudgetDecision.count (keeps.peeked ⟨text "alice", text "a", text "b", .dateNow 100000⟩)
  revert peeked
  decide +kernel

end Remnic.RateLimit.SlidingBound
