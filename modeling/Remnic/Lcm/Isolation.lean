import Remnic.Lcm.SessionKey
import Remnic.Text.Lines

/-! What the archive's one text column keeps apart, and which keys get past it. -/

namespace Remnic.Lcm.Isolation
open Text.CodeUnits Text.Trim Library.LikePattern SessionKey List

def trimEnd (value : JsString) : JsString := value.rdropWhile isWhiteSpace

/-- The text of a framed id, before or after trimming. -/
def framed (name body : JsString) : JsString := sentinel :: name ++ sentinel :: body

theorem sentinel_not_blank : isWhiteSpace sentinel = false := by decide

theorem trimEnd_append (value rest : JsString) :
    trimEnd (value ++ sentinel :: rest) = value ++ sentinel :: trimEnd rest := by
  unfold trimEnd List.rdropWhile
  rw [reverse_append, reverse_cons, append_assoc, dropWhile_append]
  split
  next blank =>
    have gone : rest.reverse.dropWhile isWhiteSpace = [] := by simpa using blank
    rw [gone]
    simp [sentinel_not_blank]
  next solid => simp

theorem trim_sentinel (rest : JsString) : trim (sentinel :: rest) = sentinel :: trimEnd rest := by
  have front : (sentinel :: rest).dropWhile isWhiteSpace = sentinel :: rest := by
    simp [sentinel_not_blank]
  rw [trim_eq_rdropWhile, front]
  exact trimEnd_append [] rest

theorem trimEnd_sentinel (rest : JsString) : trimEnd (sentinel :: rest) = sentinel :: trimEnd rest :=
  trimEnd_append [] rest

theorem trim_framed (name body : JsString) : trim (framed name body) = framed name (trimEnd body) := by
  unfold framed
  rw [cons_append, trim_sentinel, trimEnd_append]
  rfl

theorem trim_trimEnd (value : JsString) : trim (trimEnd value) = trim value := by
  have parts : value = trimEnd value ++ (value.reverse.takeWhile isWhiteSpace).reverse := by
    unfold trimEnd List.rdropWhile
    rw [← reverse_append, takeWhile_append_dropWhile, reverse_reverse]
  conv_rhs => rw [parts]
  refine (trim_append_blank fun c member => ?_).symm
  exact mem_takeWhile_imp (mem_reverse.mp member)

theorem startsWith_sentinel {value : JsString} :
    startsWith value [sentinel] = true ↔ ∃ rest, value = sentinel :: rest := by
  cases value with
  | nil => simp [startsWith]
  | cons head rest =>
    simp only [startsWith, isPrefixOf_cons_cons, isPrefixOf_nil_left, Bool.and_true, beq_iff_eq,
      List.cons.injEq, exists_and_left, exists_eq', and_true]
    exact eq_comm

variable {c : CodeUnit} {name one two body other key start row rest : JsString}

theorem lower_sentinel : asciiLowerUnit c = sentinel ↔ c = sentinel := by
  unfold asciiLowerUnit
  split
  next upper =>
    constructor
    · intro same
      have value := congrArg Fin.val same
      simp only [unit, Fin.ofNat, sentinel] at value
      omega
    · intro same
      rw [same] at upper
      exact absurd upper (by decide)
  next => rfl

theorem asciiLower_framed (name body : JsString) :
    asciiLower (framed name body) = framed (asciiLower name) (asciiLower body) := by
  have kept : asciiLowerUnit sentinel = sentinel := by decide
  simp [asciiLower, framed, kept]

theorem sentinel_notMem_lower (absent : sentinel ∉ name) : sentinel ∉ asciiLower name := by
  intro member
  obtain ⟨c, inside, same⟩ := mem_map.mp member
  exact absent (lower_sentinel.mp same ▸ inside)

theorem cut_at_sentinel (plain : sentinel ∉ one) (clean : sentinel ∉ two)
    (same : one ++ sentinel :: body = two ++ sentinel :: other) : one = two ∧ body = other := by
  induction one generalizing two with
  | nil =>
    cases two with
    | nil => exact ⟨rfl, (List.cons.inj same).2⟩
    | cons head two =>
      have first : sentinel = head := (List.cons.inj same).1
      exact absurd (first ▸ mem_cons_self) clean
  | cons head one ih =>
    cases two with
    | nil =>
      have first : head = sentinel := (List.cons.inj same).1
      exact absurd (first ▸ mem_cons_self) plain
    | cons next two =>
      obtain ⟨first, rest⟩ := List.cons.inj same
      obtain ⟨names, bodies⟩ := ih (fun member => plain (mem_cons_of_mem _ member))
        (fun member => clean (mem_cons_of_mem _ member)) rest
      exact ⟨by rw [first, names], bodies⟩

theorem framed_injective (plain : sentinel ∉ one) (clean : sentinel ∉ two)
    (same : framed one body = framed two other) : one = two ∧ body = other :=
  cut_at_sentinel plain clean (List.cons.inj same).2

theorem framed_prefix (plain : sentinel ∉ one) (clean : sentinel ∉ two) :
    framed one body <+: framed two other ↔ one = two ∧ body <+: other := by
  constructor
  · intro start
    obtain ⟨tail, same⟩ := start
    have longer : framed one (body ++ tail) = framed two other := by
      rw [← same]
      simp [framed]
    obtain ⟨names, bodies⟩ := framed_injective plain clean longer
    exact ⟨names, tail, bodies⟩
  · intro parts
    obtain ⟨names, tail, bodies⟩ := parts
    exact ⟨tail, by simp [framed, names, ← bodies]⟩

theorem routeCharacter_ne_sentinel (safe : isRouteCharacter c = true) : c ≠ sentinel := by
  intro same
  rw [same] at safe
  exact absurd safe (by decide)

theorem safe_notMem (safe : isSafeRouteNamespace name = true) : sentinel ∉ name := by
  unfold isSafeRouteNamespace at safe
  rw [Bool.and_eq_true, all_eq_true] at safe
  intro member
  exact routeCharacter_ne_sentinel (safe.2 sentinel member) rfl

theorem safe_ne_nil (safe : isSafeRouteNamespace name = true) : name ≠ [] := by
  intro empty
  rw [empty] at safe
  exact absurd safe (by decide)

variable {defaultNamespace : JsString} {request first second : Request defaultNamespace}

theorem overlay_eq_some (framing : request.overlay = some name) :
    request.store = some name ∧ name ≠ defaultNamespace ∧ isSafeRouteNamespace name = true := by
  unfold Request.overlay at framing
  rw [Option.filter_eq_some_iff, decide_eq_true_iff] at framing
  obtain ⟨stored, other⟩ := framing
  refine ⟨stored, other, ?_⟩
  rcases request.admitted name stored with usual | safe
  · exact absurd usual other
  · exact safe

theorem overlay_eq_none (plain : request.overlay = none) :
    ∀ name ∈ request.store, name = defaultNamespace := by
  intro name stored
  unfold Request.overlay at plain
  rw [Option.filter_eq_none_iff] at plain
  simpa using plain name stored

theorem key_framed (framing : request.overlay = some name)
    (nonempty : key ≠ []) :
    lcmSessionKeyForNamespace request.store (some key) defaultNamespace = some (framed name key) := by
  obtain ⟨stored, other, safe⟩ := overlay_eq_some framing
  cases key with
  | nil => exact absurd rfl nonempty
  | cons head rest =>
    simp only [lcmSessionKeyForNamespace, stored]
    rw [if_pos ⟨safe_ne_nil safe, other⟩]
    rfl

theorem key_escaped (plain : request.overlay = none)
    (nonempty : key ≠ []) :
    lcmSessionKeyForNamespace request.store (some key) defaultNamespace = some (escapeDefaultLcmKey key) := by
  have usual := overlay_eq_none plain
  cases key with
  | nil => exact absurd rfl nonempty
  | cons head rest =>
    cases stored : request.store with
    | none => rfl
    | some name =>
      simp only [lcmSessionKeyForNamespace]
      rw [if_neg fun both => both.2 (usual name stored)]

theorem key_empty (request : Request defaultNamespace) :
    lcmSessionKeyForNamespace request.store (some []) defaultNamespace = some [] := rfl

theorem sessionKey_ne_nil (request : Request defaultNamespace) : request.sessionKey ≠ [] := by
  intro empty
  exact request.nonBlank (by rw [empty]; rfl)

theorem archiveId_framed (framing : request.overlay = some name) :
    request.archiveId = framed name (trimEnd request.sessionKey) := by
  unfold Request.archiveId normalizeLcmSessionId
  rw [key_framed framing (sessionKey_ne_nil request), Option.getD_some, trim_framed]

theorem archiveId_default (plain : request.overlay = none) :
    request.archiveId = trim (escapeDefaultLcmKey request.sessionKey) := by
  unfold Request.archiveId normalizeLcmSessionId
  rw [key_escaped plain (sessionKey_ne_nil request), Option.getD_some]

theorem searchAdmits_start (start row : JsString) :
    searchAdmits none (some start) row = true ↔ trim start ≠ [] ∧ asciiLower (trim start) <+: asciiLower row := by
  unfold searchAdmits normalizeOptionalLcmSessionId normalizeLcmSessionId
  rw [if_neg (by decide)]
  by_cases blank : trim start = []
  · simp [blank]
  · have long : (trim start).length > 0 := length_pos_of_ne_nil blank
    simp only [long, if_true, Option.isSome_some, Option.isNone_some, Bool.and_false, Bool.false_eq_true, if_false,
      ne_eq, blank, not_false_eq_true, true_and]
    exact like_escaped_anything likeMarks (trim start) row

theorem searchedBy_framed (framing : request.overlay = some name) :
    request.searchedBy start row = true ↔
      start ≠ [] ∧ asciiLower (framed name (trimEnd start)) <+: asciiLower row := by
  unfold Request.searchedBy
  by_cases empty : start = []
  · rw [empty, key_empty, searchAdmits_start]
    simp [trim]
  · rw [key_framed framing empty, searchAdmits_start, trim_framed]
    simp [empty, framed]

theorem searchedBy_default (plain : request.overlay = none) :
    request.searchedBy start row = true ↔
      trim (escapeDefaultLcmKey start) ≠ [] ∧ asciiLower (trim (escapeDefaultLcmKey start)) <+: asciiLower row := by
  unfold Request.searchedBy
  by_cases empty : start = []
  · rw [empty, key_empty, searchAdmits_start]
    rfl
  · rw [key_escaped plain empty, searchAdmits_start]

/-- A raw key that gets past the escape and shows the sentinel only once it is trimmed. -/
def Intrudes (key : JsString) : Prop :=
  startsWith key [sentinel] = false ∧ startsWith (trim key) [sentinel] = true

theorem escape_cases (key : JsString) :
    (startsWith key [sentinel] = true ∧ trim (escapeDefaultLcmKey key) = sentinel :: trim key ∧
        ∃ rest, trim key = sentinel :: rest) ∨
      (startsWith key [sentinel] = false ∧ trim (escapeDefaultLcmKey key) = trim key) := by
  cases marked : startsWith key [sentinel] with
  | true =>
    obtain ⟨rest, shape⟩ := startsWith_sentinel.mp marked
    refine .inl ⟨rfl, ?_, trimEnd rest, by rw [shape, trim_sentinel]⟩
    unfold escapeDefaultLcmKey
    rw [if_pos marked, trim_sentinel, shape, trimEnd_sentinel, trim_sentinel]
  | false =>
    refine .inr ⟨rfl, ?_⟩
    unfold escapeDefaultLcmKey
    rw [marked, if_neg (by decide)]

theorem framed_not_doubled (nonempty : name ≠ [])
    (clean : sentinel ∉ name) : ¬framed name body <+: sentinel :: sentinel :: rest := by
  intro start
  obtain ⟨head, tail, shape⟩ := exists_cons_of_ne_nil nonempty
  rw [shape] at start clean
  unfold framed at start
  rw [cons_append, cons_append, cons_prefix_cons, cons_prefix_cons] at start
  exact clean (start.2.1 ▸ mem_cons_self)

theorem doubled_not_framed (nonempty : name ≠ []) (clean : sentinel ∉ name) :
    ¬sentinel :: sentinel :: rest <+: framed name body := by
  intro start
  obtain ⟨head, tail, shape⟩ := exists_cons_of_ne_nil nonempty
  rw [shape] at start clean
  unfold framed at start
  rw [cons_append, cons_append, cons_prefix_cons, cons_prefix_cons] at start
  exact clean (start.2.1 ▸ mem_cons_self)

theorem asciiLower_doubled (rest : JsString) :
    asciiLower (sentinel :: sentinel :: rest) = sentinel :: sentinel :: asciiLower rest := by
  have kept : asciiLowerUnit sentinel = sentinel := by decide
  simp [asciiLower, kept]

theorem escape_eq_framed (safe : isSafeRouteNamespace name = true) :
    trim (escapeDefaultLcmKey key) = framed name body ↔ Intrudes key ∧ trim key = framed name body := by
  rcases escape_cases key with escaped | raw
  · obtain ⟨marked, shape, rest, front⟩ := escaped
    constructor
    · intro same
      rw [shape, front] at same
      exact absurd ⟨[], by rw [append_nil, same]⟩ (framed_not_doubled (safe_ne_nil safe) (safe_notMem safe))
    · intro both
      exact absurd marked (by rw [both.1.1]; decide)
  · obtain ⟨unmarked, shape⟩ := raw
    rw [shape]
    constructor
    · intro same
      exact ⟨⟨unmarked, startsWith_sentinel.mpr ⟨_, same⟩⟩, same⟩
    · exact And.right

theorem framed_prefix_escape (safe : isSafeRouteNamespace name = true) :
    asciiLower (framed name body) <+: asciiLower (trim (escapeDefaultLcmKey key)) ↔
      Intrudes key ∧ asciiLower (framed name body) <+: asciiLower (trim key) := by
  have nonempty : asciiLower name ≠ [] := fun empty => safe_ne_nil safe (map_eq_nil_iff.mp empty)
  have clean := sentinel_notMem_lower (safe_notMem safe)
  rcases escape_cases key with escaped | raw
  · obtain ⟨marked, shape, rest, front⟩ := escaped
    rw [asciiLower_framed]
    constructor
    · intro start
      rw [shape, front, asciiLower_doubled] at start
      exact absurd start (framed_not_doubled nonempty clean)
    · intro both
      exact absurd marked (by rw [both.1.1]; decide)
  · obtain ⟨unmarked, shape⟩ := raw
    rw [shape]
    refine ⟨fun start => ⟨⟨unmarked, ?_⟩, start⟩, And.right⟩
    obtain ⟨tail, same⟩ := start
    rw [asciiLower_framed] at same
    cases front : trim key with
    | nil =>
      rw [front] at same
      exact absurd same (by simp [framed, asciiLower])
    | cons head rest =>
      rw [front] at same
      have first : sentinel = asciiLowerUnit head := (List.cons.inj same).1
      exact startsWith_sentinel.mpr ⟨rest, by rw [lower_sentinel.mp first.symm]⟩

theorem escape_prefix_framed (safe : isSafeRouteNamespace name = true) :
    trim (escapeDefaultLcmKey start) ≠ [] ∧
        asciiLower (trim (escapeDefaultLcmKey start)) <+: asciiLower (framed name body) ↔
      Intrudes start ∧ asciiLower (trim start) <+: asciiLower (framed name body) := by
  have nonempty : asciiLower name ≠ [] := fun empty => safe_ne_nil safe (map_eq_nil_iff.mp empty)
  have clean := sentinel_notMem_lower (safe_notMem safe)
  rw [asciiLower_framed]
  rcases escape_cases start with escaped | raw
  · obtain ⟨marked, shape, rest, front⟩ := escaped
    constructor
    · intro both
      have within := both.2
      rw [shape, front, asciiLower_doubled] at within
      exact absurd within (doubled_not_framed nonempty clean)
    · intro both
      exact absurd marked (by rw [both.1.1]; decide)
  · obtain ⟨unmarked, shape⟩ := raw
    rw [shape]
    constructor
    · intro both
      refine ⟨⟨unmarked, ?_⟩, both.2⟩
      obtain ⟨head, rest, front⟩ := exists_cons_of_ne_nil both.1
      have within := both.2
      rw [front] at within
      have first : asciiLowerUnit head = sentinel := (cons_prefix_cons.mp within).1
      exact startsWith_sentinel.mpr ⟨rest, by rw [front, lower_sentinel.mp first]⟩
    · intro both
      obtain ⟨rest, front⟩ := startsWith_sentinel.mp both.1.2
      exact ⟨by rw [front]; exact cons_ne_nil _ _, both.2⟩

/-- Two keys of the default store share an id although they differ after trimming. -/
def Doubles (escaped raw : JsString) : Prop :=
  startsWith escaped [sentinel] = true ∧ Intrudes raw ∧ trim raw = sentinel :: trim escaped

theorem escape_injective_iff {key other : JsString} :
    (trim (escapeDefaultLcmKey key) = trim (escapeDefaultLcmKey other) → trim key = trim other) ↔
      ¬Doubles key other ∧ ¬Doubles other key := by
  have grows : ∀ value : JsString, value ≠ sentinel :: value := fun value same => by
    have lengths := congrArg List.length same
    rw [length_cons] at lengths
    omega
  rcases escape_cases key with escaped | raw
  · obtain ⟨marked, shape, rest, front⟩ := escaped
    rcases escape_cases other with escaped' | raw'
    · obtain ⟨marked', shape', rest', front'⟩ := escaped'
      rw [shape, shape']
      refine ⟨fun _ => ⟨fun doubled => ?_, fun doubled => ?_⟩, fun _ same => (List.cons.inj same).2⟩
      · exact absurd marked' (by rw [doubled.2.1.1]; decide)
      · exact absurd marked (by rw [doubled.2.1.1]; decide)
    · obtain ⟨unmarked, shape'⟩ := raw'
      rw [shape, shape']
      constructor
      · intro safe
        refine ⟨fun doubled => ?_, fun doubled => absurd doubled.1 (by rw [unmarked]; decide)⟩
        exact grows _ ((safe doubled.2.2.symm).trans doubled.2.2)
      · intro clear same
        exact absurd ⟨marked, ⟨unmarked, startsWith_sentinel.mpr ⟨_, same.symm⟩⟩, same.symm⟩ clear.1
  · obtain ⟨unmarked, shape⟩ := raw
    rcases escape_cases other with escaped' | raw'
    · obtain ⟨marked', shape', rest', front'⟩ := escaped'
      rw [shape, shape']
      constructor
      · intro safe
        refine ⟨fun doubled => absurd doubled.1 (by rw [unmarked]; decide), fun doubled => ?_⟩
        exact grows _ ((safe doubled.2.2).symm.trans doubled.2.2)
      · intro clear same
        exact absurd ⟨marked', ⟨unmarked, startsWith_sentinel.mpr ⟨_, same⟩⟩, same⟩ clear.2
    · obtain ⟨unmarked', shape'⟩ := raw'
      rw [shape, shape']
      refine ⟨fun _ => ⟨fun doubled => ?_, fun doubled => ?_⟩, fun _ same => same⟩
      · exact absurd doubled.1 (by rw [unmarked]; decide)
      · exact absurd doubled.1 (by rw [unmarked']; decide)

/-- The archive keeps the two requests apart: neither an exact use of the second's id nor its prefix
search reaches the first's turns from another namespace, and one namespace merges no two keys. -/
def Separated (first second : Request defaultNamespace) (start : JsString) : Prop :=
  (first.effective ≠ second.effective →
    first.archiveId ≠ second.archiveId ∧ second.searchedBy start first.archiveId = false) ∧
  (first.effective = second.effective → first.archiveId = second.archiveId →
    trim first.sessionKey = trim second.sessionKey)

/-- No name differs from the other by case alone under a common prefix, and no key or prefix of the
default store is blank text before a sentinel that spells the other request's frame. -/
def KeysClear (first second : Request defaultNamespace) (start : JsString) : Prop :=
  match first.overlay, second.overlay with
  | some one, some two =>
    one ≠ two → start ≠ [] →
      ¬(asciiLower one = asciiLower two ∧
        asciiLower (trimEnd start) <+: asciiLower (trimEnd first.sessionKey))
  | none, some two =>
    Intrudes first.sessionKey →
      trim first.sessionKey ≠ framed two (trimEnd second.sessionKey) ∧
      (start ≠ [] → ¬asciiLower (framed two (trimEnd start)) <+: asciiLower (trim first.sessionKey))
  | some one, none =>
    (Intrudes second.sessionKey → trim second.sessionKey ≠ framed one (trimEnd first.sessionKey)) ∧
    (Intrudes start → ¬asciiLower (trim start) <+: asciiLower (framed one (trimEnd first.sessionKey)))
  | none, none =>
    ¬Doubles first.sessionKey second.sessionKey ∧ ¬Doubles second.sessionKey first.sessionKey

theorem effective_overlay (framing : request.overlay = some name) : request.effective = name := by
  unfold Request.effective
  rw [framing, Option.getD_some]

theorem effective_default (plain : request.overlay = none) :
    request.effective = defaultNamespace := by
  unfold Request.effective
  rw [plain, Option.getD_none]

theorem overlays_separated (framing : first.overlay = some one) (other : second.overlay = some two) :
    Separated first second start ↔ KeysClear first second start := by
  have plain := safe_notMem (overlay_eq_some framing).2.2
  have clean := safe_notMem (overlay_eq_some other).2.2
  have found : second.searchedBy start first.archiveId = true ↔ start ≠ [] ∧ asciiLower one = asciiLower two ∧
      asciiLower (trimEnd start) <+: asciiLower (trimEnd first.sessionKey) := by
    rw [searchedBy_framed other, archiveId_framed framing, asciiLower_framed, asciiLower_framed,
      framed_prefix (sentinel_notMem_lower clean) (sentinel_notMem_lower plain)]
    exact and_congr_right fun _ => and_congr_left fun _ => eq_comm
  unfold Separated KeysClear
  rw [framing, other, effective_overlay framing, effective_overlay other, ← Bool.not_eq_true, found]
  constructor
  · intro separated differ filled alike
    exact (separated.1 differ).2 ⟨filled, alike⟩
  · intro clear
    refine ⟨fun differ => ⟨fun same => ?_, fun reached => clear differ reached.1 reached.2⟩, fun _ same => ?_⟩
    · rw [archiveId_framed framing, archiveId_framed other] at same
      exact differ (framed_injective plain clean same).1
    · rw [archiveId_framed framing, archiveId_framed other] at same
      rw [← trim_trimEnd, (framed_injective plain clean same).2, trim_trimEnd]

theorem default_separated_overlay (plain : first.overlay = none) (other : second.overlay = some two) :
    Separated first second start ↔ KeysClear first second start := by
  have safe := (overlay_eq_some other).2.2
  have differ : defaultNamespace ≠ two := fun same => (overlay_eq_some other).2.1 same.symm
  have shared : first.archiveId = second.archiveId ↔
      Intrudes first.sessionKey ∧ trim first.sessionKey = framed two (trimEnd second.sessionKey) := by
    rw [archiveId_default plain, archiveId_framed other, escape_eq_framed safe]
  have found : second.searchedBy start first.archiveId = true ↔ start ≠ [] ∧ Intrudes first.sessionKey ∧
      asciiLower (framed two (trimEnd start)) <+: asciiLower (trim first.sessionKey) := by
    rw [searchedBy_framed other, archiveId_default plain, framed_prefix_escape safe]
  unfold Separated KeysClear
  rw [plain, other, effective_default plain, effective_overlay other, ← Bool.not_eq_true, found]
  constructor
  · intro separated intrudes
    obtain ⟨apart, unseen⟩ := separated.1 differ
    exact ⟨fun same => apart (shared.mpr ⟨intrudes, same⟩), fun filled reached => unseen ⟨filled, intrudes, reached⟩⟩
  · intro clear
    refine ⟨fun _ => ⟨fun same => ?_, ?_⟩, fun same => absurd same differ⟩
    · obtain ⟨intrudes, spelled⟩ := shared.mp same
      exact (clear intrudes).1 spelled
    · intro reached
      exact (clear reached.2.1).2 reached.1 reached.2.2

theorem overlay_separated_default (framing : first.overlay = some one) (plain : second.overlay = none) :
    Separated first second start ↔ KeysClear first second start := by
  have safe := (overlay_eq_some framing).2.2
  have differ : one ≠ defaultNamespace := (overlay_eq_some framing).2.1
  have shared : first.archiveId = second.archiveId ↔
      Intrudes second.sessionKey ∧ trim second.sessionKey = framed one (trimEnd first.sessionKey) := by
    rw [archiveId_framed framing, archiveId_default plain, eq_comm, escape_eq_framed safe]
  have found : second.searchedBy start first.archiveId = true ↔ Intrudes start ∧
      asciiLower (trim start) <+: asciiLower (framed one (trimEnd first.sessionKey)) := by
    rw [searchedBy_default plain, archiveId_framed framing, escape_prefix_framed safe]
  unfold Separated KeysClear
  rw [framing, plain, effective_overlay framing, effective_default plain, ← Bool.not_eq_true, found]
  constructor
  · intro separated
    obtain ⟨apart, unseen⟩ := separated.1 differ
    exact ⟨fun intrudes same => apart (shared.mpr ⟨intrudes, same⟩), fun intrudes reached => unseen ⟨intrudes, reached⟩⟩
  · intro clear
    refine ⟨fun _ => ⟨fun same => ?_, ?_⟩, fun same => absurd same differ⟩
    · obtain ⟨intrudes, spelled⟩ := shared.mp same
      exact clear.1 intrudes spelled
    · intro reached
      exact clear.2 reached.1 reached.2

theorem defaults_separated (plain : first.overlay = none) (usual : second.overlay = none) :
    Separated first second start ↔ KeysClear first second start := by
  unfold Separated KeysClear
  rw [plain, usual, effective_default plain, effective_default usual, archiveId_default plain,
    archiveId_default usual]
  constructor
  · intro separated
    exact escape_injective_iff.mp (separated.2 rfl)
  · intro clear
    exact ⟨fun differ => absurd rfl differ, fun _ => escape_injective_iff.mpr clear⟩

/-- The archive separates two requests exactly when no key or prefix of the default store intrudes on
the other's frame and no two namespaces differ by case alone under a searched prefix. -/
theorem separated_iff_keysClear (first second : Request defaultNamespace) (start : JsString) :
    Separated first second start ↔ KeysClear first second start := by
  cases framing : first.overlay with
  | none =>
    cases other : second.overlay with
    | none => exact defaults_separated framing other
    | some two => exact default_separated_overlay framing other
  | some one =>
    cases other : second.overlay with
    | none => exact overlay_separated_default framing other
    | some two => exact overlays_separated framing other

def defaultStore : JsString := text "default"

def overlaid (name : JsString) (safe : isSafeRouteNamespace name = true) : Request defaultStore where
  store := some name
  admitted := by
    intro other stored
    rw [Option.mem_some] at stored
    exact .inr (stored ▸ safe)
  sessionKey := text "s"
  nonBlank := by decide

/-- A raw key of the default store: a blank, then the id of the session in the namespace `victim`. -/
def forged : Request defaultStore where
  store := none
  admitted := by
    intro name stored
    exact absurd stored (Option.not_mem_none name)
  sessionKey := space :: framed (text "victim") (text "s")
  nonBlank := by decide

/-- The forged key is the victim's id, and a prefix search of `alpha` reads the turns of `Alpha`. -/
theorem forged_key_and_folded_case :
    ¬Separated (overlaid (text "victim") (by decide)) forged (text "s") ∧
      ¬Separated (overlaid (text "Alpha") (by decide)) (overlaid (text "alpha") (by decide)) (text "s") := by
  constructor
  · intro separated
    exact (separated.1 (by decide)).1 (by decide)
  · intro separated
    exact absurd (separated.1 (by decide)).2 (by decide)

end Remnic.Lcm.Isolation
