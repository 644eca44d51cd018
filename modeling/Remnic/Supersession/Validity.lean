import Remnic.Supersession.Decision

/-!
The interval in which a memory is valid: it includes its start and excludes its end.
-/

namespace Remnic.Supersession.Validity
open Text.CodeUnits Memory.SupersessionKey Decision Option
open Tombstone.Entry (truthy)

def explicitValidAt (frontmatter : MemoryFrontmatter) : Option JsString := truthy (frontmatter.validAt.map trim)

/-- An end of its own, or for an older record the time at which it was superseded. -/
def effectiveInvalidAt (frontmatter : MemoryFrontmatter) : Option JsString :=
  match truthy (frontmatter.invalidAt.map trim) with
  | some explicit => some explicit
  | none => if frontmatter.status = some .superseded then truthy (frontmatter.supersededAt.map trim) else none

variable (host : Host)

/-- The end of a memory that is valid since ever: an end was extracted for it, and no start. -/
def openStartEnd (frontmatter : MemoryFrontmatter) : Option Int :=
  if explicitValidAt frontmatter = none ∧ frontmatter.eventTimeSource = some .extracted then
    (effectiveInvalidAt frontmatter).bind host.dateParse
  else none

/-- `isValidAsOf`, at a finite time. -/
def isValidAsOf (frontmatter : MemoryFrontmatter) (asOf : ℚ) : Bool :=
  match openStartEnd host frontmatter with
  | some invalidAt => asOf < invalidAt
  | none =>
    match host.dateParse (effectiveValidAt frontmatter) with
    | none => false
    | some validAt =>
      if asOf < validAt then false
      else
        match (effectiveInvalidAt frontmatter).bind host.dateParse with
        | none => true
        | some invalidAt => asOf < invalidAt

variable {host} {frontmatter : MemoryFrontmatter} {asOf : ℚ}

theorem before_end {invalidAt : Int} (ends : (effectiveInvalidAt frontmatter).bind host.dateParse = some invalidAt)
    (valid : isValidAsOf host frontmatter asOf = true) : asOf < invalidAt := by
  unfold isValidAsOf at valid
  cases opens : openStartEnd host frontmatter with
  | some openEnd =>
    rw [opens] at valid
    unfold openStartEnd at opens
    split_ifs at opens
    rw [ends] at opens
    cases opens
    exact of_decide_eq_true valid
  | none =>
    rw [opens] at valid
    dsimp only at valid
    split at valid
    next => cases valid
    next =>
      split_ifs at valid
      rw [ends] at valid
      exact of_decide_eq_true valid

theorem from_start (closed : openStartEnd host frontmatter = none) (valid : isValidAsOf host frontmatter asOf = true) :
    ∃ validAt, host.dateParse (effectiveValidAt frontmatter) = some validAt ∧ validAt ≤ asOf := by
  unfold isValidAsOf at valid
  rw [closed] at valid
  cases start : host.dateParse (effectiveValidAt frontmatter) with
  | none =>
    rw [start] at valid
    cases valid
  | some validAt =>
    rw [start] at valid
    dsimp only at valid
    split_ifs at valid with before
    exact ⟨validAt, rfl, not_lt.mp before⟩

theorem trim_effectiveValidAt (trimmed : trim frontmatter.created = frontmatter.created) :
    trim (effectiveValidAt frontmatter) = effectiveValidAt frontmatter := by
  unfold effectiveValidAt
  cases explicit : truthy (frontmatter.validAt.map trim) with
  | none => exact trimmed
  | some validAt =>
    obtain ⟨held, _⟩ := filter_eq_some_iff.mp explicit
    obtain ⟨written, _, same⟩ := map_eq_some_iff.mp held
    rw [getD_some, ← same, trim_trim]

theorem apart_of_end {first second : MemoryFrontmatter} (blank : host.dateParse [] = none)
    (ends : truthy first.invalidAt = truthy (some (effectiveValidAt second)))
    (trimmed : trim second.created = second.created) (closed : openStartEnd host second = none) (asOf : ℚ) :
    ¬(isValidAsOf host first asOf = true ∧ isValidAsOf host second asOf = true) := by
  intro both
  obtain ⟨validAt, start, reached⟩ := from_start closed both.2
  have some_ : effectiveValidAt second ≠ [] := by
    intro empty
    rw [empty, blank] at start
    cases start
  have shown : truthy (some (effectiveValidAt second)) = some (effectiveValidAt second) :=
    filter_eq_some_iff.mpr ⟨rfl, decide_eq_true some_⟩
  obtain ⟨held, _⟩ := filter_eq_some_iff.mp (ends.trans shown)
  have ended : effectiveInvalidAt first = some (effectiveValidAt second) := by
    unfold effectiveInvalidAt
    rw [held, map_some, trim_effectiveValidAt trimmed, shown]
  have before : asOf < validAt := before_end (by rw [ended]; exact start) both.1
  exact absurd before (not_lt.mpr reached)

end Remnic.Supersession.Validity
