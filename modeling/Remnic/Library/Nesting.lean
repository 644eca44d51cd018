import Mathlib.Order.ConditionallyCompleteLattice.Basic
import Mathlib.Data.Int.ConditionallyCompleteOrder
import Mathlib.Data.List.MinMax
import Mathlib.Data.List.Nodup
import Mathlib.Data.List.Perm.Subperm

/-!
Families of spans that are nested or disjoint. What covers a place is a chain, and the smallest
of it is the innermost.
-/

namespace Remnic.Library.Nesting

open List

/-- From a start to a stop that is not of it. -/
structure Span where
  start : Int
  stop : Int
  deriving DecidableEq, Repr

def Span.size (span : Span) : Int := span.stop - span.start

def Span.Filled (span : Span) : Prop := span.start < span.stop

def Span.Covers (outer inner : Span) : Prop := outer.start ≤ inner.start ∧ inner.stop ≤ outer.stop

def Span.StrictlyCovers (outer inner : Span) : Prop := outer.Covers inner ∧ outer ≠ inner

def Span.Disjoint (first second : Span) : Prop := first.stop ≤ second.start ∨ second.stop ≤ first.start

instance (span : Span) : Decidable span.Filled := inferInstanceAs (Decidable (_ < _))

instance (outer inner : Span) : Decidable (outer.Covers inner) := inferInstanceAs (Decidable (_ ∧ _))

instance (outer inner : Span) : Decidable (outer.StrictlyCovers inner) := inferInstanceAs (Decidable (_ ∧ _))

instance (first second : Span) : Decidable (first.Disjoint second) := inferInstanceAs (Decidable (_ ∨ _))

namespace Span

theorem Covers.refl (span : Span) : span.Covers span := ⟨Int.le_refl _, Int.le_refl _⟩

variable {second inner outer middle : Span}

theorem Covers.trans (first : outer.Covers middle) (second : middle.Covers inner) : outer.Covers inner :=
  ⟨first.1.trans second.1, second.2.trans first.2⟩

theorem Covers.antisymm {first : Span} (one : first.Covers second) (two : second.Covers first) : first = second := by
  obtain ⟨start, stop⟩ := first
  obtain ⟨otherStart, otherStop⟩ := second
  obtain ⟨start_le, stop_le⟩ := one
  obtain ⟨le_start, le_stop⟩ := two
  dsimp only at *
  congr <;> omega

theorem Covers.eq_of_size_le (covers : outer.Covers inner) (size : outer.size ≤ inner.size) : outer = inner := by
  refine covers.antisymm ?_
  obtain ⟨start, stop⟩ := covers
  unfold Span.size at size
  constructor <;> omega

theorem Covers.trans_strictly (first : outer.Covers middle) (second : middle.StrictlyCovers inner) : outer.StrictlyCovers inner := by
  refine ⟨first.trans second.1, ?_⟩
  rintro rfl
  exact second.2 (second.1.antisymm first)

theorem StrictlyCovers.not_covers (strictly : outer.StrictlyCovers inner) : ¬ inner.Covers outer :=
  fun back => strictly.2 (strictly.1.antisymm back)

theorem not_disjoint {first place : Span} (filled : place.Filled) (one : first.Covers place) (two : second.Covers place) :
    ¬ first.Disjoint second := by
  obtain ⟨start, stop⟩ := one
  obtain ⟨otherStart, otherStop⟩ := two
  unfold Filled at filled
  unfold Disjoint
  omega

end Span

variable {Item : Type} (span : Item → Span)

/-- Filled spans, no two of them the same, each two nested or disjoint. -/
structure Nested (items : List Item) : Prop where
  filled : ∀ item ∈ items, (span item).Filled
  distinct : (items.map span).Nodup
  nested : ∀ first ∈ items, ∀ second ∈ items,
    (span first).Covers (span second) ∨ (span second).Covers (span first) ∨ (span first).Disjoint (span second)

/-- The innermost of the items that cover a place. -/
structure Innermost (items : List Item) (place : Span) (item : Item) : Prop where
  member : item ∈ items
  covers : (span item).Covers place
  inside : ∀ other ∈ items, (span other).Covers place → (span other).Covers (span item)

/-- The innermost of the items around another one; none when there is none around it. -/
def IsParent (items : List Item) (item : Item) : Option Item → Prop
  | some parent => parent ∈ items ∧ (span parent).StrictlyCovers (span item) ∧
      ∀ other ∈ items, (span other).StrictlyCovers (span item) → (span other).Covers (span parent)
  | none => ∀ other ∈ items, ¬ (span other).StrictlyCovers (span item)

variable {span} {items : List Item}

namespace Nested

theorem perm {others : List Item} (nested : Nested span items) (same : items.Perm others) : Nested span others where
  filled := fun item member => nested.filled item (same.mem_iff.mpr member)
  distinct := (same.map span).nodup_iff.mp nested.distinct
  nested := fun first firstIn second secondIn => nested.nested first (same.mem_iff.mpr firstIn) second (same.mem_iff.mpr secondIn)

variable {first second : Item} {place : Span}

section

variable (nested : Nested span items)
include nested

theorem eq_of_span_eq (one : first ∈ items) (two : second ∈ items) (same : span first = span second) : first = second :=
  inj_on_of_nodup_map nested.distinct one two same

theorem nodup : items.Nodup := Nodup.of_map span nested.distinct

theorem covers_or_covers (filled : place.Filled) (firstIn : first ∈ items) (secondIn : second ∈ items)
    (one : (span first).Covers place) (two : (span second).Covers place) :
    (span first).Covers (span second) ∨ (span second).Covers (span first) := by
  rcases nested.nested first firstIn second secondIn with covers | covers | disjoint
  · exact .inl covers
  · exact .inr covers
  · exact absurd disjoint (Span.not_disjoint filled one two)

theorem argmin_eq_some_iff (filled : place.Filled) {pick : Item → Bool}
    (covering : ∀ item ∈ items, pick item = true → (span item).Covers place) (item : Item) :
    (items.filter pick).argmin (fun item => (span item).size) = some item ↔
      item ∈ items ∧ pick item = true ∧ ∀ other ∈ items, pick other = true → (span other).Covers (span item) := by
  have least : ∀ found, (items.filter pick).argmin (fun item => (span item).size) = some found →
      found ∈ items ∧ pick found = true ∧ ∀ other ∈ items, pick other = true → (span other).Covers (span found) := by
    intro found minimal
    obtain ⟨foundIn, picked⟩ := mem_filter.mp (argmin_mem minimal)
    refine ⟨foundIn, picked, fun other otherIn otherPicked => ?_⟩
    have size : (span found).size ≤ (span other).size :=
      le_of_mem_argmin (f := fun item => (span item).size) (mem_filter.mpr ⟨otherIn, otherPicked⟩) minimal
    rcases nested.covers_or_covers filled otherIn foundIn (covering other otherIn otherPicked) (covering found foundIn picked) with covers | covers
    · exact covers
    · rw [covers.eq_of_size_le size]
      exact Span.Covers.refl _
  refine ⟨least item, fun ⟨itemIn, picked, inside⟩ => ?_⟩
  cases minimal : (items.filter pick).argmin (fun item => (span item).size) with
  | none =>
    rw [argmin_eq_none] at minimal
    exact absurd (mem_filter.mpr ⟨itemIn, picked⟩) (by simp [minimal])
  | some found =>
    obtain ⟨foundIn, foundPicked, foundInside⟩ := least found minimal
    have same := (inside found foundIn foundPicked).antisymm (foundInside item itemIn picked)
    rw [nested.eq_of_span_eq foundIn itemIn same]

theorem argmin_covers (filled : place.Filled) (item : Item) :
    (items.filter fun other => decide ((span other).Covers place)).argmin (fun item => (span item).size) = some item ↔
      Innermost span items place item := by
  rw [nested.argmin_eq_some_iff filled fun _ _ picked => of_decide_eq_true picked]
  simp only [decide_eq_true_eq]
  exact ⟨fun ⟨itemIn, covers, inside⟩ => ⟨itemIn, covers, inside⟩, fun ⟨itemIn, covers, inside⟩ => ⟨itemIn, covers, inside⟩⟩

theorem argmin_parent {item : Item} (itemIn : item ∈ items) (parent : Option Item) :
    (items.filter fun other => decide ((span other).StrictlyCovers (span item))).argmin (fun item => (span item).size) = parent ↔
      IsParent span items item parent := by
  cases parent with
  | none => simp [IsParent, filter_eq_nil_iff]
  | some parent =>
    rw [nested.argmin_eq_some_iff (nested.filled item itemIn) fun _ _ picked => (of_decide_eq_true picked).1]
    simp only [decide_eq_true_eq, IsParent]

end

end Nested

theorem Innermost.unique (nested : Nested span items) {place : Span} {first second : Item} (one : Innermost span items place first)
    (two : Innermost span items place second) : first = second :=
  nested.eq_of_span_eq one.member two.member
    ((two.inside first one.member one.covers).antisymm (one.inside second two.member two.covers))

inductive Outward (span : Item → Span) (items : List Item) : Item → List Item → Prop
  | top {item : Item} (parent : IsParent span items item none) : Outward span items item []
  | step {item parent : Item} {rest : List Item} (isParent : IsParent span items item (some parent)) (outer : Outward span items parent rest) :
      Outward span items item (parent :: rest)

namespace Outward

variable {rest : List Item} {item : Item}

theorem mem_iff (nested : Nested span items) (outward : Outward span items item rest) (other : Item) :
    other ∈ rest ↔ other ∈ items ∧ (span other).StrictlyCovers (span item) := by
  induction outward with
  | top parent => exact iff_of_false not_mem_nil fun ⟨otherIn, covers⟩ => parent other otherIn covers
  | @step item parent rest isParent outer ih =>
    obtain ⟨parentIn, strictly, inside⟩ := isParent
    rw [mem_cons, ih]
    constructor
    · rintro (rfl | ⟨otherIn, covers⟩)
      · exact ⟨parentIn, strictly⟩
      · exact ⟨otherIn, covers.1.trans_strictly strictly⟩
    · rintro ⟨otherIn, covers⟩
      by_cases same : other = parent
      · exact .inl same
      · exact .inr ⟨otherIn, inside other otherIn covers, fun equal => same (nested.eq_of_span_eq otherIn parentIn equal)⟩

theorem pairwise (nested : Nested span items) (outward : Outward span items item rest) :
    (item :: rest).Pairwise fun inner outer => (span outer).StrictlyCovers (span inner) := by
  induction outward with
  | top parent => exact pairwise_singleton _ _
  | @step item parent rest isParent outer ih =>
    refine pairwise_cons.mpr ⟨fun other member => ?_, ih⟩
    exact (((Outward.step isParent outer).mem_iff nested other).mp member).2

theorem length_lt (nested : Nested span items) (itemIn : item ∈ items) (outward : Outward span items item rest) :
    rest.length < items.length := by
  have apart : (item :: rest).Nodup := by
    refine (outward.pairwise nested).imp fun strictly same => ?_
    rw [same] at strictly
    exact strictly.2 rfl
  have inside : item :: rest ⊆ items := by
    intro other member
    rcases mem_cons.mp member with rfl | later
    · exact itemIn
    · exact ((outward.mem_iff nested other).mp later).1
  exact (subperm_of_subset apart inside).length_le

/-- Every item has its parents, since fewer items are around each next one. -/
theorem exists_outward (nested : Nested span items) (itemIn : item ∈ items) : ∃ rest, Outward span items item rest := by
  have bounded : ∀ bound, ∀ item ∈ items,
      (items.filter fun other => decide ((span other).StrictlyCovers (span item))).length ≤ bound → ∃ rest, Outward span items item rest := by
    intro bound
    induction bound with
    | zero =>
      intro item itemIn short
      have empty := eq_nil_of_length_eq_zero (Nat.le_zero.mp short)
      exact ⟨[], .top ((nested.argmin_parent itemIn none).mp (by rw [empty, argmin_nil]))⟩
    | succ bound ih =>
      intro item itemIn short
      cases parent : (items.filter fun other => decide ((span other).StrictlyCovers (span item))).argmin fun item => (span item).size with
      | none => exact ⟨[], .top ((nested.argmin_parent itemIn none).mp parent)⟩
      | some found =>
        have isParent := (nested.argmin_parent itemIn (some found)).mp parent
        have foundIn := isParent.1
        have fewer : (items.filter fun other => decide ((span other).StrictlyCovers (span found))).length <
            (items.filter fun other => decide ((span other).StrictlyCovers (span item))).length := by
          have apart : (found :: items.filter fun other => decide ((span other).StrictlyCovers (span found))).Nodup :=
            nodup_cons.mpr ⟨by simp [Span.StrictlyCovers], nested.nodup.filter _⟩
          refine (subperm_of_subset apart fun other member => ?_).length_le
          rcases mem_cons.mp member with rfl | later
          · exact mem_filter.mpr ⟨foundIn, decide_eq_true isParent.2.1⟩
          · obtain ⟨otherIn, around⟩ := mem_filter.mp later
            exact mem_filter.mpr ⟨otherIn, decide_eq_true ((of_decide_eq_true around).1.trans_strictly isParent.2.1)⟩
        obtain ⟨rest, outer⟩ := ih found foundIn (by omega)
        exact ⟨found :: rest, .step isParent outer⟩
  exact bounded _ item itemIn (Nat.le_refl _)

end Outward

end Remnic.Library.Nesting
