import Mathlib.Data.Rat.Floor
import Remnic.Text.CodeUnits

/-!
`CrossNamespaceBudget`: a sliding window of reads for each principal. The clock belongs to the
callers; a call without a reading takes the time of day. Numbers are exact.
-/

namespace Remnic.RateLimit.Limiter

open Text.CodeUnits Library

inductive JsNumber where
  | finite (value : ℚ)
  | nonFinite
  deriving DecidableEq

structure CrossNamespaceBudgetConfig where
  enabled : Option Bool
  windowMs : Option JsNumber
  softLimit : Option JsNumber
  hardLimit : Option JsNumber

structure Config where
  enabled : Bool
  windowMs : ℚ
  softLimit : Nat
  hardLimit : Nat
  window_pos : 0 < windowMs
  hard_pos : 1 ≤ hardLimit
  soft_le_hard : softLimit ≤ hardLimit

def defaultConfig : Config where
  enabled := false
  windowMs := 60000
  softLimit := 10
  hardLimit := 30
  window_pos := by norm_num
  hard_pos := by decide
  soft_le_hard := by decide

/-- A number as it is, if it is finite and passes a check. -/
def accepted (raw : Option JsNumber) (check : ℚ → Bool) : Option ℚ :=
  match raw with
  | some (.finite value) => if check value then some value else none
  | _ => none

def effectiveConfig : Option CrossNamespaceBudgetConfig → Config
  | none => defaultConfig
  | some raw =>
      let windowMs := (accepted raw.windowMs fun value => decide (0 < value)).getD defaultConfig.windowMs
      let softLimit := ((accepted raw.softLimit fun value => decide (0 ≤ value)).map fun value => ⌊value⌋.toNat).getD defaultConfig.softLimit
      let hardLimit := (((accepted raw.hardLimit fun value => decide (1 ≤ value)).map fun value => ⌊value⌋.toNat).filter
        fun floored => decide (1 ≤ floored)).getD defaultConfig.hardLimit
      { enabled := raw.enabled.getD defaultConfig.enabled
        windowMs := windowMs
        softLimit := min softLimit hardLimit
        hardLimit := hardLimit
        window_pos := by
          show 0 < (accepted raw.windowMs fun value => decide (0 < value)).getD defaultConfig.windowMs
          cases given : accepted raw.windowMs fun value => decide (0 < value) with
          | none => exact defaultConfig.window_pos
          | some value =>
            unfold accepted at given
            split at given
            · split_ifs at given with positive
              cases given
              exact of_decide_eq_true positive
            · cases given
        hard_pos := by
          show 1 ≤ (Option.filter _ _).getD defaultConfig.hardLimit
          cases given : Option.filter (fun floored => decide (1 ≤ floored))
              ((accepted raw.hardLimit fun value => decide (1 ≤ value)).map fun value => ⌊value⌋.toNat) with
          | none => exact defaultConfig.hard_pos
          | some floored => exact of_decide_eq_true (Option.filter_eq_some_iff.mp given).2
        soft_le_hard := Nat.min_le_right _ _ }

/-- The clock reading that a caller passes, or the time of day. -/
inductive Clock where
  | given (now : JsNumber)
  | dateNow (reading : Int)

def normalizeClock : Clock → Int
  | .given (.finite value) => ⌊value⌋
  | .given .nonFinite => 0
  | .dateNow reading => reading

inductive BudgetDecisionReason where
  | allowedSameNamespace
  | allowedNoLimit
  | allowedUnderSoft
  | warnOverSoft
  | denyOverHard
  deriving DecidableEq, Repr

structure BudgetReservation where
  principal : JsString
  id : Nat
  deriving DecidableEq, Repr

structure Limit where
  softLimit : Nat
  hardLimit : Nat
  windowMs : ℚ
  deriving DecidableEq

structure BudgetDecision where
  allowed : Bool
  reason : BudgetDecisionReason
  count : Nat
  limit : Limit
  reservation : Option BudgetReservation
  deriving DecidableEq

structure Entry where
  id : Nat
  ts : Int
  deriving DecidableEq, Repr

structure Budget where
  buckets : OrderedMap JsString (List Entry)
  reservationSeq : Nat

def initial : Budget := ⟨OrderedMap.empty, 0⟩

structure NamespaceArgs where
  principal : JsString
  principalNamespace : JsString
  queryNamespace : JsString
  now : Clock

/-- Calls without a principal share one. -/
def attributed (principal : JsString) : JsString := if principal = [] then text "__anonymous__" else principal

def Budget.entries (budget : Budget) (principal : JsString) : List Entry := (budget.buckets.lookup principal).getD []

variable (config : Config)

def Config.limit : Limit := ⟨config.softLimit, config.hardLimit, config.windowMs⟩

/-- Entries are shifted out while the first of them is too old. -/
def shiftExpired (now : Int) (entries : List Entry) : List Entry :=
  entries.dropWhile fun entry => decide ((entry.ts : ℚ) < now - config.windowMs)

/-- The buckets with the entries of a principal; an empty bucket goes. -/
def storeEntries (buckets : OrderedMap JsString (List Entry)) (principal : JsString) (entries : List Entry) : OrderedMap JsString (List Entry) :=
  if entries = [] then buckets.erase principal else buckets.set principal entries

def record (budget : Budget) (caller : JsString) (clock : Clock) : Budget × BudgetDecision :=
  let now := normalizeClock clock
  if !config.enabled then (budget, ⟨true, .allowedNoLimit, 0, config.limit, none⟩)
  else
    let principal := attributed caller
    let live := shiftExpired config now (budget.entries principal)
    let id := budget.reservationSeq + 1
    let pushed := live ++ [⟨id, now⟩]
    let count := pushed.length
    if config.hardLimit ≤ count then
      (⟨storeEntries budget.buckets principal live, id⟩, ⟨false, .denyOverHard, live.length, config.limit, none⟩)
    else
      (⟨budget.buckets.set principal pushed, id⟩,
        ⟨true, if config.softLimit < count then .warnOverSoft else .allowedUnderSoft, count, config.limit, some ⟨principal, id⟩⟩)

def sameNamespace (args : NamespaceArgs) : Bool :=
  let bothPresent := args.principalNamespace ≠ [] ∧ args.queryNamespace ≠ []
  decide (bothPresent ∧ args.principalNamespace = args.queryNamespace)

def peek (budget : Budget) (args : NamespaceArgs) : BudgetDecision :=
  if sameNamespace args then ⟨true, .allowedSameNamespace, 0, config.limit, none⟩
  else if !config.enabled then ⟨true, .allowedNoLimit, 0, config.limit, none⟩
  else
    let now := normalizeClock args.now
    let liveCount := (budget.entries (attributed args.principal)).countP fun entry => decide (now - config.windowMs ≤ (entry.ts : ℚ))
    let projected := liveCount + 1
    if config.hardLimit ≤ projected then ⟨false, .denyOverHard, liveCount, config.limit, none⟩
    else ⟨true, if config.softLimit < projected then .warnOverSoft else .allowedUnderSoft, projected, config.limit, none⟩

def check (budget : Budget) (args : NamespaceArgs) : Budget × BudgetDecision :=
  if sameNamespace args then (budget, ⟨true, .allowedSameNamespace, 0, config.limit, none⟩)
  else record config budget args.principal args.now

def release (budget : Budget) : Option BudgetReservation → Budget
  | none => budget
  | some reservation =>
      match budget.buckets.lookup reservation.principal with
      | none => budget
      | some entries =>
          if entries.any fun entry => entry.id = reservation.id then
            { budget with
              buckets := storeEntries budget.buckets reservation.principal (entries.eraseP fun entry => entry.id = reservation.id) }
          else budget

/-- `gc`, and how many buckets it evicts. -/
def gc (budget : Budget) (clock : Clock) : Budget × Nat :=
  let buckets := budget.buckets.filterMap fun _ entries =>
    let live := shiftExpired config (normalizeClock clock) entries
    if live = [] then none else some live
  ({ budget with buckets := buckets }, budget.buckets.entries.length - buckets.entries.length)

inductive Call where
  | record (principal : JsString) (now : Clock)
  | check (args : NamespaceArgs)
  | peek (args : NamespaceArgs)
  | release (reservation : Option BudgetReservation)
  | gc (now : Clock)

inductive Reply where
  | decision (decision : BudgetDecision)
  | released
  | evicted (buckets : Nat)
  deriving DecidableEq

def answer (budget : Budget) : Call → Budget × Reply
  | .record principal now => ((record config budget principal now).1, .decision (record config budget principal now).2)
  | .check args => ((check config budget args).1, .decision (check config budget args).2)
  | .peek args => (budget, .decision (peek config budget args))
  | .release reservation => (release budget reservation, .released)
  | .gc now => ((gc config budget now).1, .evicted (gc config budget now).2)

def answers : Budget → List Call → Budget × List Reply
  | budget, [] => (budget, [])
  | budget, call :: calls =>
      let step := answer config budget call
      let rest := answers step.1 calls
      (rest.1, step.2 :: rest.2)

def Call.reading : Call → Option Int
  | .record _ now => some (normalizeClock now)
  | .check args => some (normalizeClock args.now)
  | .peek args => some (normalizeClock args.now)
  | .release _ => none
  | .gc now => some (normalizeClock now)

end Remnic.RateLimit.Limiter
