import Remnic.Library.OrderedMap

/-!
Loops that may refuse an element. A loop specification splits the body into the
part that reads one raw element, the agreement required between an element and
every earlier one, and the state change of an accepted element. The fold then
succeeds exactly when all elements parse and agree pairwise.
-/

namespace Remnic.Library.GuardedFold

open List

variable {Fault Value Result State Raw Item : Type}

theorem bind_ok_iff {first : Except Fault Value} {next : Value → Except Fault Result} {result : Result} :
    (first >>= next) = .ok result ↔ ∃ value, first = .ok value ∧ next value = .ok result := by
  cases first with
  | error fault => simp [bind, Except.bind]
  | ok value => simp [bind, Except.bind]

theorem guard_bind_ok_iff (check : Except Fault Unit) (next : Unit → Except Fault Result) (result : Result) :
    (check >>= next) = .ok result ↔ check = .ok () ∧ next () = .ok result := by
  rw [bind_ok_iff]
  exact ⟨fun ⟨_, passed, rest⟩ => ⟨passed, rest⟩, fun ⟨passed, rest⟩ => ⟨(), passed, rest⟩⟩

theorem map_ok_iff {first : Except Fault Value} {change : Value → Result} {result : Result} :
    first.map change = .ok result ↔ ∃ value, first = .ok value ∧ change value = result := by
  cases first with
  | error fault => simp [Except.map]
  | ok value => simp [Except.map]

theorem pure_ok_iff {value result : Value} :
    (pure value : Except Fault Value) = .ok result ↔ result = value := by
  constructor
  · intro same
    exact (Except.ok.inj same).symm
  · rintro rfl
    rfl

theorem forM_ok_iff (items : List Item) (check : Item → Except Fault PUnit) :
    items.forM check = .ok () ↔ ∀ item ∈ items, check item = .ok () := by
  induction items with
  | nil => simp [pure, Except.pure]
  | cons item items ih =>
    rw [forM_eq_forM] at ih
    rw [forM_eq_forM, forM_cons, guard_bind_ok_iff, forall_mem_cons, ih]

variable {Read : Raw → Item → Prop} {raws : List Raw} {items : List Item} {state : State}

theorem forall₂_and_right {Holds : Item → Prop} {raws : List Raw} {items : List Item} :
    Forall₂ (fun raw item => Read raw item ∧ Holds item) raws items ↔
      Forall₂ Read raws items ∧ ∀ item ∈ items, Holds item := by
  constructor
  · intro both
    induction both with
    | nil => exact ⟨.nil, by simp⟩
    | cons head _ ih => exact ⟨.cons head.1 ih.1, forall_mem_cons.mpr ⟨head.2, ih.2⟩⟩
  · rintro ⟨read, holds⟩
    induction read with
    | nil => exact .nil
    | cons head _ ih =>
      have parts := forall_mem_cons.mp holds
      exact .cons ⟨head, parts.1⟩ (ih parts.2)

theorem forall₂_mem_right
    (read : Forall₂ Read raws items) {item : Item} (member : item ∈ items) : ∃ raw ∈ raws, Read raw item := by
  induction read with
  | nil => cases member
  | cons head _ ih =>
    rcases mem_cons.mp member with rfl | member
    · exact ⟨_, mem_cons_self, head⟩
    · obtain ⟨raw, listed, held⟩ := ih member
      exact ⟨raw, mem_cons_of_mem _ listed, held⟩

theorem forall₂_mem_left
    (read : Forall₂ Read raws items) {raw : Raw} (member : raw ∈ raws) : ∃ item ∈ items, Read raw item := by
  obtain ⟨item, listed, held⟩ := forall₂_mem_right read.flip member
  exact ⟨item, listed, held⟩

theorem foldlM_ok_congr (first second : State → Raw → Except Fault State) (raws : List Raw) (state final : State)
    (same : ∀ state raw next, first state raw = .ok next ↔ second state raw = .ok next) :
    raws.foldlM first state = .ok final ↔ raws.foldlM second state = .ok final := by
  induction raws generalizing state with
  | nil => exact Iff.rfl
  | cons raw raws ih =>
    rw [foldlM_cons, foldlM_cons, bind_ok_iff, bind_ok_iff]
    exact exists_congr (fun next => and_congr (same state raw next) (ih next))

theorem foldlM_invariant {Holds : State → Prop} {round : State → Raw → Except Fault State}
    (keeps : ∀ raw ∈ raws, ∀ state next, Holds state → round state raw = .ok next → Holds next) {final : State}
    (holds : Holds state) (done : raws.foldlM round state = .ok final) : Holds final := by
  induction raws generalizing state with
  | nil => exact pure_ok_iff.mp done ▸ holds
  | cons raw raws ih =>
    rw [foldlM_cons, bind_ok_iff] at done
    obtain ⟨next, head, rest⟩ := done
    exact ih (fun later member => keeps later (mem_cons_of_mem _ member))
      (keeps raw mem_cons_self state next holds head) rest

theorem mapM_ok_iff {raws : List Raw} {read : Raw → Except Fault Item} {items : List Item} :
    raws.mapM read = .ok items ↔ Forall₂ (fun raw item => read raw = .ok item) raws items := by
  induction raws generalizing items with
  | nil =>
    rw [mapM_nil, forall₂_nil_left_iff]
    exact pure_ok_iff
  | cons raw raws ih =>
    simp only [mapM_cons, bind_ok_iff, pure_ok_iff, ih]
    constructor
    · rintro ⟨item, head, rest, tail, rfl⟩
      exact .cons head tail
    · intro read
      cases read with
      | cons head tail => exact ⟨_, head, _, tail, rfl⟩

theorem mapM_total {read : Raw → Except Fault Item}
    (each : ∀ raw ∈ raws, ∃ item, read raw = .ok item) : ∃ items, raws.mapM read = .ok items := by
  induction raws with
  | nil => exact ⟨[], mapM_nil⟩
  | cons raw raws ih =>
    obtain ⟨item, head⟩ := each raw mem_cons_self
    obtain ⟨items, tail⟩ := ih fun later member => each later (mem_cons_of_mem _ member)
    refine ⟨item :: items, ?_⟩
    rw [mapM_cons, head, tail]
    rfl

theorem mapM_zipIdx_ok_iff {read : Item × Nat → Except Fault Item} {Good : Item → Prop}
    (reads : ∀ item index out, read (item, index) = .ok out ↔ Good item ∧ out = item) (items out : List Item) (start : Nat) :
    (items.zipIdx start).mapM read = .ok out ↔ (∀ item ∈ items, Good item) ∧ out = items := by
  induction items generalizing start out with
  | nil =>
    rw [zipIdx_nil, mapM_nil, pure_ok_iff]
    simp
  | cons item items ih =>
    rw [zipIdx_cons, mapM_cons]
    simp only [bind_ok_iff, reads, ih, pure_ok_iff, forall_mem_cons]
    constructor
    · intro done
      obtain ⟨first, ⟨good, same⟩, rest, ⟨all, kept⟩, shape⟩ := done
      exact ⟨⟨good, all⟩, by rw [shape, same, kept]⟩
    · intro facts
      exact ⟨item, ⟨facts.1.1, rfl⟩, items, ⟨facts.1.2, rfl⟩, facts.2⟩

/-- The rule for a loop that cannot refuse: what a round keeps, the whole run keeps. -/
theorem foldl_tracks (body : State → Item → State) (Tracks : List Item → State → Prop)
    (round : ∀ done state item, Tracks done state → Tracks (done ++ [item]) (body state item))
    (items done : List Item) (state : State) (tracked : Tracks done state) :
    Tracks (done ++ items) (items.foldl body state) := by
  induction items generalizing done state with
  | nil => simpa using tracked
  | cons item items ih =>
    have next := ih (done ++ [item]) (body state item) (round done state item tracked)
    simpa only [append_assoc, singleton_append, foldl_cons] using next

/-- What one round of a refusing loop does, relative to the elements accepted so far. -/
structure LoopSpec (Item : Type) (body : State → Raw → Except Fault State) where
  Parses : Raw → Item → Prop
  Agrees : Item → Item → Prop
  Tracks : List Item → State → Prop
  advance : State → Item → State
  roundOk : ∀ done state raw next, Tracks done state →
    (body state raw = .ok next ↔
      ∃ item, Parses raw item ∧ (∀ earlier ∈ done, Agrees earlier item) ∧ next = advance state item)
  keeps : ∀ done state raw item, Tracks done state → Parses raw item → (∀ earlier ∈ done, Agrees earlier item) →
    Tracks (done ++ [item]) (advance state item)

namespace LoopSpec

variable {body : State → Raw → Except Fault State} (spec : LoopSpec Item body)

private theorem agrees_snoc (Agrees : Item → Item → Prop) (done items : List Item) (item : Item)
    (tail : ∀ later ∈ items, ∀ earlier ∈ done ++ [item], Agrees earlier later)
    (head : ∀ earlier ∈ done, Agrees earlier item) :
    ∀ later ∈ item :: items, ∀ earlier ∈ done, Agrees earlier later := by
  intro later member earlier known
  rcases mem_cons.mp member with rfl | member
  · exact head earlier known
  · exact tail later member earlier (mem_append_left _ known)

/-- The run rule: parsing and pairwise agreement decide success, and the final
state is the plain fold of the accepted elements. -/
theorem fold_ok_iff (raws : List Raw) (done : List Item) (state final : State) (tracked : spec.Tracks done state) :
    raws.foldlM body state = .ok final ↔
      ∃ items, Forall₂ spec.Parses raws items ∧ items.Pairwise spec.Agrees ∧
        (∀ later ∈ items, ∀ earlier ∈ done, spec.Agrees earlier later) ∧
        final = items.foldl spec.advance state := by
  induction raws generalizing done state with
  | nil =>
    rw [foldlM_nil, pure_ok_iff]
    constructor
    · rintro rfl
      exact ⟨[], .nil, .nil, by simp, rfl⟩
    · rintro ⟨items, parsed, _, _, same⟩
      cases parsed
      exact same
  | cons raw raws ih =>
    rw [foldlM_cons, bind_ok_iff]
    constructor
    · rintro ⟨next, round, rest⟩
      obtain ⟨item, parsed, head, rfl⟩ := (spec.roundOk done state raw next tracked).mp round
      obtain ⟨items, parsedRest, pairwise, tail, same⟩ :=
        (ih (done ++ [item]) _ (spec.keeps done state raw item tracked parsed head)).mp rest
      refine ⟨item :: items, .cons parsed parsedRest, pairwise_cons.mpr ⟨?_, pairwise⟩,
        agrees_snoc _ done items item tail head, same⟩
      exact fun later member => tail later member item (mem_append_right _ (mem_singleton_self _))
    · rintro ⟨items, parsed, pairwise, agreed, same⟩
      cases parsed with
      | @cons _ item _ rest parsed parsedRest =>
        have head := agreed item mem_cons_self
        have pairs := pairwise_cons.mp pairwise
        refine ⟨spec.advance state item,
          (spec.roundOk done state raw _ tracked).mpr ⟨item, parsed, head, rfl⟩, ?_⟩
        rw [ih (done ++ [item]) _ (spec.keeps done state raw item tracked parsed head)]
        refine ⟨rest, parsedRest, pairs.2, ?_, same⟩
        intro later member earlier known
        rcases mem_append.mp known with known | known
        · exact agreed later (mem_cons_of_mem _ member) earlier known
        · exact mem_singleton.mp known ▸ pairs.1 later member

theorem tracks_foldl (raws : List Raw) (items done : List Item) (state : State) (tracked : spec.Tracks done state)
    (parsed : Forall₂ spec.Parses raws items) (pairwise : items.Pairwise spec.Agrees)
    (agreed : ∀ later ∈ items, ∀ earlier ∈ done, spec.Agrees earlier later) :
    spec.Tracks (done ++ items) (items.foldl spec.advance state) := by
  induction parsed generalizing done state with
  | nil => simpa using tracked
  | @cons raw item raws items head _ ih =>
    have pairs := pairwise_cons.mp pairwise
    have next := spec.keeps done state raw item tracked head (agreed item mem_cons_self)
    have run := ih (done ++ [item]) _ next pairs.2 (by
      intro later member earlier known
      rcases mem_append.mp known with known | known
      · exact agreed later (mem_cons_of_mem _ member) earlier known
      · exact mem_singleton.mp known ▸ pairs.1 later member)
    simpa only [append_assoc, singleton_append, foldl_cons] using run

/-- A finished run read its elements, and its final state tracks them. -/
theorem run_reads (raws : List Raw) (state final : State) (tracked : spec.Tracks [] state)
    (run : raws.foldlM body state = .ok final) :
    ∃ items, Forall₂ spec.Parses raws items ∧ items.Pairwise spec.Agrees ∧ spec.Tracks items final := by
  obtain ⟨items, parsed, pairwise, _, rfl⟩ := (spec.fold_ok_iff raws [] state final tracked).mp run
  exact ⟨items, parsed, pairwise, spec.tracks_foldl raws items [] state tracked parsed pairwise (by simp)⟩

theorem run_finishes (raws : List Raw) (items : List Item) (state : State) (tracked : spec.Tracks [] state)
    (parsed : Forall₂ spec.Parses raws items) (pairwise : items.Pairwise spec.Agrees) :
    ∃ final, raws.foldlM body state = .ok final ∧ spec.Tracks items final :=
  ⟨_, (spec.fold_ok_iff raws [] state _ tracked).mpr ⟨items, parsed, pairwise, by simp, rfl⟩,
    spec.tracks_foldl raws items [] state tracked parsed pairwise (by simp)⟩

end LoopSpec

theorem foldlM_simulates {Model : Type} {round : State → Item → Option State} {change : Model → Item → Model}
    {Means : State → Model → Prop} (Fits : Model → Item → Prop)
    (rounds : ∀ state model item, Means state model → Fits model item →
      ∃ next, round state item = some next ∧ Means next (change model item))
    (keeps : ∀ model item other, Fits model other → Fits (change model item) other)
    {model : Model} (means : Means state model) (fits : ∀ item ∈ items, Fits model item) :
    ∃ final, items.foldlM round state = some final ∧ Means final (items.foldl change model) := by
  induction items generalizing state model with
  | nil => exact ⟨state, rfl, means⟩
  | cons item items ih =>
    obtain ⟨next, stepped, first⟩ := rounds state model item means (fits item mem_cons_self)
    obtain ⟨final, run, rest⟩ :=
      ih first fun other member => keeps model item other (fits other (mem_cons_of_mem _ member))
    refine ⟨final, ?_, rest⟩
    rw [foldlM_cons, stepped]
    exact run

end Remnic.Library.GuardedFold
