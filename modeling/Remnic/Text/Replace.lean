import Mathlib.Data.List.Chain
import Remnic.Text.CodeUnits

/-!
The replacements that `String.prototype.replace` makes with a global expression for a run
of characters, or for separators and the blanks around them.
-/

namespace Remnic.Text.Replace

open CodeUnits List

def replaceRunsAfter (units : CodeUnit → Bool) (replacement : CodeUnit) : Bool → JsString → JsString
  | _, [] => []
  | inRun, c :: rest =>
    if units c then
      if inRun then replaceRunsAfter units replacement true rest
      else replacement :: replaceRunsAfter units replacement true rest
    else c :: replaceRunsAfter units replacement false rest

/-- `replace(/[…]+/g, replacement)`. -/
def replaceRuns (units : CodeUnit → Bool) (replacement : CodeUnit) (value : JsString) : JsString :=
  replaceRunsAfter units replacement false value

/-- Where a scan for separators stands: after blanks that are not yet decided, within a match, or behind its separators. -/
inductive Phase where
  | outside (blanks : JsString)
  | separator
  | behind
  deriving DecidableEq

/-- The blanks that stay if no separator follows. -/
def Phase.pending : Phase → JsString
  | .outside blanks => blanks
  | _ => []

def Phase.blank (c : CodeUnit) : Phase → Phase
  | .outside blanks => .outside (blanks ++ [c])
  | _ => .behind

def replaceAroundFrom (separates : CodeUnit → Bool) (repeated : Bool) (replacement : CodeUnit) : Phase → JsString → JsString
  | phase, [] => phase.pending
  | phase, c :: rest =>
    if separates c then
      if repeated && phase = .separator then replaceAroundFrom separates repeated replacement .separator rest
      else replacement :: replaceAroundFrom separates repeated replacement .separator rest
    else if isWhiteSpace c then replaceAroundFrom separates repeated replacement (phase.blank c) rest
    else phase.pending ++ c :: replaceAroundFrom separates repeated replacement (.outside []) rest

/-- `replace(/\s*[…]+\s*/g, replacement)`, or with one separator in each match. -/
def replaceAround (separates : CodeUnit → Bool) (repeated : Bool) (replacement : CodeUnit) (value : JsString) : JsString :=
  replaceAroundFrom separates repeated replacement (.outside []) value

variable {units separates : CodeUnit → Bool} {replacement c : CodeUnit} {value : JsString}

def Apart (units : CodeUnit → Bool) (value : JsString) : Prop :=
  value.IsChain fun one other => ¬ (units one = true ∧ units other = true)

theorem mem_replaceRunsAfter {inRun : Bool} (member : c ∈ replaceRunsAfter units replacement inRun value) :
    c = replacement ∨ (c ∈ value ∧ units c = false) := by
  induction value generalizing inRun with
  | nil => cases member
  | cons first value ih =>
    unfold replaceRunsAfter at member
    split_ifs at member with found _
    · exact (ih member).imp_right fun later => ⟨mem_cons_of_mem _ later.1, later.2⟩
    · rcases mem_cons.mp member with rfl | later
      · exact .inl rfl
      · exact (ih later).imp_right fun later => ⟨mem_cons_of_mem _ later.1, later.2⟩
    · rcases mem_cons.mp member with rfl | later
      · exact .inr ⟨mem_cons_self, by simpa using found⟩
      · exact (ih later).imp_right fun later => ⟨mem_cons_of_mem _ later.1, later.2⟩

theorem mem_replaceRuns (member : c ∈ replaceRuns units replacement value) :
    c = replacement ∨ (c ∈ value ∧ units c = false) :=
  mem_replaceRunsAfter member

/-- After a run the text goes on with another unit, and runs stay apart. -/
theorem apart_replaceRunsAfter (inRun : Bool) :
    Apart units (replaceRunsAfter units replacement inRun value) ∧
      (inRun = true → ∀ first ∈ (replaceRunsAfter units replacement inRun value).head?, units first = false) := by
  induction value generalizing inRun with
  | nil => exact ⟨isChain_nil, nofun⟩
  | cons first value ih =>
    unfold replaceRunsAfter
    split_ifs with found within
    · exact ⟨(ih true).1, fun _ => (ih true).2 rfl⟩
    · refine ⟨?_, fun inside => absurd inside within⟩
      exact isChain_cons.mpr ⟨fun next head both => by simp [(ih true).2 rfl next head] at both, (ih true).1⟩
    · have other : units first = false := by simpa using found
      refine ⟨isChain_cons.mpr ⟨fun next _ both => by simp [other] at both, (ih false).1⟩, fun _ => ?_⟩
      rintro _ ⟨⟩
      exact other

theorem apart_replaceRuns : Apart units (replaceRuns units replacement value) := (apart_replaceRunsAfter false).1

/-- Runs of one unit that is its own replacement stay. -/
theorem replaceRuns_eq_self (only : ∀ c ∈ value, units c = true → c = replacement) (apart : Apart units value) :
    replaceRuns units replacement value = value := by
  have scan : ∀ (rest : JsString) (inRun : Bool), (∀ c ∈ rest, units c = true → c = replacement) → Apart units rest →
      (inRun = true → ∀ first ∈ rest.head?, units first = false) → replaceRunsAfter units replacement inRun rest = rest := by
    intro rest
    induction rest with
    | nil => exact fun _ _ _ _ => rfl
    | cons first rest ih =>
      intro inRun only apart starts
      obtain ⟨next, chain⟩ := isChain_cons.mp apart
      have later := fun c member => only c (mem_cons_of_mem _ member)
      unfold replaceRunsAfter
      split_ifs with found within
      · exact absurd found (by simp [starts within first rfl])
      · rw [ih true later chain fun _ other head => ?_, only first mem_cons_self found]
        by_contra both
        exact next other head ⟨found, by simpa using both⟩
      · rw [ih false later chain nofun]
  exact scan value false only apart nofun

theorem apart_of_absent (absent : ∀ c ∈ value, units c = false) : Apart units value := by
  induction value with
  | nil => exact isChain_nil
  | cons first value ih =>
    refine isChain_cons.mpr ⟨fun next _ both => ?_, ih fun c member => absent c (mem_cons_of_mem _ member)⟩
    simp [absent first mem_cons_self] at both

theorem replaceRuns_absent (absent : ∀ c ∈ value, units c = false) : replaceRuns units replacement value = value := by
  apply replaceRuns_eq_self _ (apart_of_absent absent)
  intro c member found
  exact absurd found (by simp [absent c member])

theorem replaceAroundFrom_absent {repeated : Bool} (absent : ∀ c ∈ value, separates c = false) (blanks : JsString) :
    replaceAroundFrom separates repeated replacement (.outside blanks) value = blanks ++ value := by
  induction value generalizing blanks with
  | nil => exact (append_nil blanks).symm
  | cons first value ih =>
    have later := fun c member => absent c (mem_cons_of_mem _ member)
    have other : ¬ separates first = true := by simp [absent first mem_cons_self]
    unfold replaceAroundFrom
    rw [if_neg other]
    split_ifs
    · exact (ih later (blanks ++ [first])).trans (append_assoc blanks [first] value)
    · rw [ih later]
      rfl

theorem replaceAround_absent {repeated : Bool} (absent : ∀ c ∈ value, separates c = false) :
    replaceAround separates repeated replacement value = value :=
  replaceAroundFrom_absent absent []

theorem replaceAround_eq_self (only : ∀ c ∈ value, separates c = true → c = replacement)
    (solid : ∀ c ∈ value, isWhiteSpace c = false) : replaceAround separates false replacement value = value := by
  have scan : ∀ (rest : JsString) (phase : Phase), phase.pending = [] →
      (∀ c ∈ rest, separates c = true → c = replacement) → (∀ c ∈ rest, isWhiteSpace c = false) →
      replaceAroundFrom separates false replacement phase rest = rest := by
    intro rest
    induction rest with
    | nil => exact fun phase start _ _ => start
    | cons first rest ih =>
      intro phase start only solid
      have laterOnly := fun c member => only c (mem_cons_of_mem _ member)
      have laterSolid := fun c member => solid c (mem_cons_of_mem _ member)
      have notBlank : ¬ isWhiteSpace first = true := by simp [solid first mem_cons_self]
      unfold replaceAroundFrom
      by_cases found : separates first = true
      · simp only [if_pos found, Bool.false_and, Bool.false_eq_true, if_false]
        rw [ih .separator rfl laterOnly laterSolid, only first mem_cons_self found]
      · rw [if_neg found, if_neg notBlank, start, ih (.outside []) rfl laterOnly laterSolid]
        rfl
  exact scan value (.outside []) rfl only solid

end Remnic.Text.Replace
