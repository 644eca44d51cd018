import Remnic.RateLimit.Limiter

/-!
The limiter on entries that stand in the order of their readings: pruning from the front is then
a filter, and a decision depends on the live entries alone.
-/

namespace Remnic.RateLimit.Window

open Text.CodeUnits Library Limiter List

variable {config : Config} {budget : Budget} {principal other : JsString} {entries : List Entry} {clock : Clock}
  {now earlier : Int}

/-- Whether an entry is in the window that ends at a reading, or later. -/
def isLive (config : Config) (now : Int) (entry : Entry) : Bool := decide (now - config.windowMs ≤ (entry.ts : ℚ))

def live (config : Config) (now : Int) (budget : Budget) (principal : JsString) : List Entry :=
  (budget.entries principal).filter (isLive config now)

/-- The decision with some live entries, and the reservation where it is made. -/
def decisionOf (config : Config) (count : Nat) (reservation : Option BudgetReservation) : BudgetDecision :=
  if config.hardLimit ≤ count + 1 then ⟨false, .denyOverHard, count, config.limit, none⟩
  else ⟨true, if config.softLimit < count + 1 then .warnOverSoft else .allowedUnderSoft, count + 1, config.limit, reservation⟩

def Ordered (entries : List Entry) : Prop := entries.Pairwise fun first second => first.ts ≤ second.ts

theorem isLive_later (before : earlier ≤ now) {entry : Entry} (alive : isLive config now entry = true) : isLive config earlier entry = true := by
  unfold isLive at alive ⊢
  have sooner : (earlier : ℚ) ≤ now := by exact_mod_cast before
  have reached := of_decide_eq_true alive
  exact decide_eq_true (by linarith)

theorem shiftExpired_eq_filter (config : Config) (now : Int) (ordered : Ordered entries) : shiftExpired config now entries = entries.filter (isLive config now) := by
  unfold shiftExpired
  induction entries with
  | nil => rfl
  | cons entry entries ih =>
    obtain ⟨first, rest⟩ := pairwise_cons.mp ordered
    by_cases expired : (entry.ts : ℚ) < now - config.windowMs
    · have dead : ¬ isLive config now entry = true := fun alive => absurd (of_decide_eq_true alive) (not_le.mpr expired)
      rw [dropWhile_cons, if_pos (decide_eq_true expired), filter_cons_of_neg dead]
      exact ih rest
    · rw [dropWhile_cons, if_neg (by simpa using expired)]
      refine (filter_eq_self.mpr fun later member => ?_).symm
      unfold isLive
      rcases mem_cons.mp member with rfl | member
      · exact decide_eq_true (not_lt.mp expired)
      · have order : (entry.ts : ℚ) ≤ later.ts := by exact_mod_cast first later member
        exact decide_eq_true ((not_lt.mp expired).trans order)

variable (buckets : OrderedMap JsString (List Entry)) (seq : Nat)

theorem entries_set {principal other : JsString} {entries : List Entry} :
    Budget.entries ⟨buckets.set principal entries, seq⟩ other = if other = principal then entries else Budget.entries ⟨buckets, seq⟩ other := by
  unfold Budget.entries
  dsimp only
  rw [OrderedMap.lookup_set]
  split_ifs <;> rfl

theorem entries_storeEntries {principal other : JsString} {entries : List Entry} :
    Budget.entries ⟨storeEntries buckets principal entries, seq⟩ other = if other = principal then entries else Budget.entries ⟨buckets, seq⟩ other := by
  unfold storeEntries
  by_cases none : entries = []
  · rw [if_pos none, none]
    unfold Budget.entries
    dsimp only
    rw [OrderedMap.lookup_erase]
    split_ifs <;> rfl
  · rw [if_neg none]
    exact entries_set _ _

theorem record_spec (clock : Clock) (enabled : config.enabled = true) (ordered : Ordered (budget.entries (attributed principal))) :
    let window := live config (normalizeClock clock) budget (attributed principal)
    let id := budget.reservationSeq + 1
    (record config budget principal clock).2 = decisionOf config window.length (some ⟨attributed principal, id⟩) ∧
      (record config budget principal clock).1.reservationSeq = id ∧
      ∀ other, (record config budget principal clock).1.entries other =
        if other = attributed principal then
          if config.hardLimit ≤ window.length + 1 then window else window ++ [⟨id, normalizeClock clock⟩]
        else budget.entries other := by
  have shifted : shiftExpired config (normalizeClock clock) (budget.entries (attributed principal)) =
      live config (normalizeClock clock) budget (attributed principal) := shiftExpired_eq_filter config _ ordered
  unfold record decisionOf
  simp only [enabled, Bool.not_true, Bool.false_eq_true, if_false, shifted, length_append, length_singleton]
  split_ifs with denied
  · exact ⟨rfl, rfl, fun other => entries_storeEntries _ _⟩
  all_goals exact ⟨rfl, rfl, fun other => entries_set _ _⟩

theorem peek_eq (enabled : config.enabled = true) (args : NamespaceArgs) (apart : sameNamespace args = false) :
    peek config budget args = decisionOf config (live config (normalizeClock args.now) budget (attributed args.principal)).length none := by
  unfold peek decisionOf live
  simp only [apart, enabled, Bool.not_true, Bool.false_eq_true, if_false, countP_eq_length_filter]
  rfl

theorem mem_of_lookup {found : List Entry} (held : budget.buckets.lookup principal = some found) : budget.entries principal = found := by
  unfold Budget.entries
  rw [held]
  rfl

theorem eraseP_eq_filter (distinct : (entries.map Entry.id).Nodup) (id : Nat) :
    entries.eraseP (fun entry => entry.id = id) = entries.filter fun entry => !decide (entry.id = id) := by
  induction entries with
  | nil => rfl
  | cons entry entries ih =>
    obtain ⟨fresh, distinct⟩ := nodup_cons.mp distinct
    rw [eraseP_cons, filter_cons]
    by_cases found : entry.id = id
    · simp only [found, decide_true, cond_true, Bool.not_true, Bool.false_eq_true, if_false]
      refine (filter_eq_self.mpr fun later member => ?_).symm
      rw [Bool.not_eq_true', decide_eq_false_iff_not]
      exact fun same => fresh (mem_map.mpr ⟨later, member, same.trans found.symm⟩)
    · simp only [found, decide_false, cond_false, Bool.not_false, if_true]
      rw [ih distinct]

theorem release_spec (distinct : ∀ principal, ((budget.entries principal).map Entry.id).Nodup) (reservation : Option BudgetReservation) :
    (release budget reservation).reservationSeq = budget.reservationSeq ∧
      ∀ other, (release budget reservation).entries other =
        (budget.entries other).filter fun entry => !decide (reservation = some ⟨other, entry.id⟩) := by
  cases reservation with
  | none => exact ⟨rfl, fun other => (filter_eq_self.mpr fun _ _ => rfl).symm⟩
  | some reservation =>
    have unchanged (absent : ∀ entry ∈ budget.entries reservation.principal, entry.id ≠ reservation.id) (other : JsString) :
        budget.entries other = (budget.entries other).filter fun entry => !decide (some reservation = some ⟨other, entry.id⟩) := by
      refine (filter_eq_self.mpr fun entry member => ?_).symm
      rw [Bool.not_eq_true', decide_eq_false_iff_not]
      rintro ⟨⟩
      exact absent entry member rfl
    unfold release
    dsimp only
    cases held : budget.buckets.lookup reservation.principal with
    | none =>
      have empty : budget.entries reservation.principal = [] := by
        unfold Budget.entries
        rw [held]
        rfl
      exact ⟨rfl, unchanged (by simp [empty])⟩
    | some found =>
      have here := mem_of_lookup held
      dsimp only
      split_ifs with listed
      · refine ⟨rfl, fun other => (entries_storeEntries _ _).trans ?_⟩
        split_ifs with same
        · have own := distinct reservation.principal
          rw [here] at own
          rw [same, here, eraseP_eq_filter own]
          refine filter_congr fun entry _ => congrArg _ (decide_eq_decide.mpr ⟨fun found => ?_, fun found => ?_⟩)
          · rw [found]
          · exact (congrArg BudgetReservation.id (Option.some_inj.mp found)).symm
        · refine (filter_eq_self.mpr fun entry _ => ?_).symm
          rw [Bool.not_eq_true', decide_eq_false_iff_not]
          rintro ⟨⟩
          exact same rfl
      · refine ⟨rfl, unchanged fun entry member same => ?_⟩
        rw [here] at member
        exact listed (any_eq_true.mpr ⟨entry, member, decide_eq_true same⟩)

theorem gc_spec (config : Config) (clock : Clock) (ordered : ∀ principal, Ordered (budget.entries principal)) :
    (gc config budget clock).1.reservationSeq = budget.reservationSeq ∧
      ∀ other, (gc config budget clock).1.entries other = live config (normalizeClock clock) budget other := by
  refine ⟨rfl, fun other => ?_⟩
  have shifted := shiftExpired_eq_filter config (normalizeClock clock) (ordered other)
  unfold live
  rw [← shifted]
  unfold gc Budget.entries
  dsimp only
  rw [OrderedMap.lookup_filterMap]
  cases held : budget.buckets.lookup other with
  | none => rfl
  | some entries =>
    simp only [Option.bind_some, Option.getD_some]
    split_ifs with none
    · exact none.symm
    · rfl

end Remnic.RateLimit.Window
