import Mathlib.Data.List.Nodup
import Mathlib.Data.List.Induction

/-!
Networks of nodes and hops, their paths and distances. A path that is as short as the
distance of its end takes no edge twice.
-/

namespace Remnic.Library.Paths

open List

/-- Which hops leave a node, with their targets and the edges that they take. -/
structure Network (Node Hop Edge : Type) where
  leaves : Node → Hop → Prop
  target : Hop → Node
  edge : Hop → Edge

variable {Node Hop Edge : Type} {net : Network Node Hop Edge} {start node : Node} {path rest : List Hop}

def IsPath (net : Network Node Hop Edge) : Node → List Hop → Prop
  | _, [] => True
  | node, hop :: rest => net.leaves node hop ∧ IsPath net (net.target hop) rest

def endpoint (net : Network Node Hop Edge) : Node → List Hop → Node
  | node, [] => node
  | _, hop :: rest => endpoint net (net.target hop) rest

def IsTrail (net : Network Node Hop Edge) (start : Node) (path : List Hop) : Prop :=
  IsPath net start path ∧ (path.map net.edge).Nodup

theorem isPath_append : IsPath net start (path ++ rest) ↔ IsPath net start path ∧ IsPath net (endpoint net start path) rest := by
  induction path generalizing start with
  | nil => simp [IsPath, endpoint]
  | cons hop path ih => rw [cons_append, IsPath, IsPath, ih, endpoint, and_assoc]

theorem endpoint_append : endpoint net start (path ++ rest) = endpoint net (endpoint net start path) rest := by
  induction path generalizing start with
  | nil => rfl
  | cons hop path ih => exact ih

theorem isPath_append_singleton {hop : Hop} :
    IsPath net start (path ++ [hop]) ↔ IsPath net start path ∧ net.leaves (endpoint net start path) hop := by
  rw [isPath_append, IsPath, IsPath, and_true]

theorem endpoint_append_singleton {hop : Hop} : endpoint net start (path ++ [hop]) = net.target hop := by
  rw [endpoint_append]
  rfl

section distance

def Reaches (net : Network Node Hop Edge) (start : Node) (length : Nat) (node : Node) : Prop :=
  ∃ path, IsPath net start path ∧ endpoint net start path = node ∧ path.length = length

def IsDistance (net : Network Node Hop Edge) (start node : Node) (length : Nat) : Prop :=
  Reaches net start length node ∧ ∀ less < length, ¬Reaches net start less node

variable {length other : Nat}

theorem reaches_succ : Reaches net start (length + 1) node ↔
    ∃ before, Reaches net start length before ∧ ∃ hop, net.leaves before hop ∧ net.target hop = node := by
  constructor
  · rintro ⟨path, valid, ends, long⟩
    induction path using List.reverseRecOn with
    | nil => cases long
    | append_singleton path hop _ =>
      obtain ⟨valid, last⟩ := isPath_append_singleton.mp valid
      rw [endpoint_append_singleton] at ends
      rw [length_append, length_singleton, Nat.add_right_cancel_iff] at long
      exact ⟨_, ⟨path, valid, rfl, long⟩, hop, last, ends⟩
  · rintro ⟨_, ⟨path, valid, rfl, rfl⟩, hop, last, rfl⟩
    exact ⟨path ++ [hop], isPath_append_singleton.mpr ⟨valid, last⟩, endpoint_append_singleton, by simp⟩

theorem isDistance_unique (one : IsDistance net start node length) (two : IsDistance net start node other) : length = other := by
  rcases Nat.lt_trichotomy length other with less | same | more
  · exact absurd one.1 (two.2 _ less)
  · exact same
  · exact absurd two.1 (one.2 _ more)

theorem isDistance_zero : IsDistance net start node 0 ↔ node = start := by
  constructor
  · rintro ⟨⟨path, _, ends, long⟩, _⟩
    rw [length_eq_zero_iff.mp long] at ends
    exact ends.symm
  · rintro rfl
    exact ⟨⟨[], trivial, rfl, rfl⟩, fun _ less => absurd less (Nat.not_lt_zero _)⟩

theorem exists_isDistance (reached : Reaches net start length node) : ∃ least ≤ length, IsDistance net start node least := by
  induction length using Nat.strongRecOn with
  | ind length ih =>
    by_cases shortest : ∃ less < length, Reaches net start less node
    · obtain ⟨less, shorter, reached⟩ := shortest
      obtain ⟨least, most, short⟩ := ih less shorter reached
      exact ⟨least, Nat.le_trans most (Nat.le_of_lt shorter), short⟩
    · exact ⟨length, Nat.le_refl _, reached, fun less shorter reached => shortest ⟨less, shorter, reached⟩⟩

theorem isDistance_succ : IsDistance net start node (length + 1) ↔
    (∃ before, IsDistance net start before length ∧ ∃ hop, net.leaves before hop ∧ net.target hop = node) ∧
      ∀ near ≤ length, ¬IsDistance net start node near := by
  constructor
  · rintro ⟨reached, shortest⟩
    obtain ⟨before, way, hop, leaves, ends⟩ := reaches_succ.mp reached
    refine ⟨⟨before, ⟨way, fun less shorter reached => ?_⟩, hop, leaves, ends⟩, fun near less short => ?_⟩
    · exact shortest (less + 1) (Nat.succ_lt_succ shorter) (reaches_succ.mpr ⟨before, reached, hop, leaves, ends⟩)
    · exact shortest near (Nat.lt_succ_of_le less) short.1
  · rintro ⟨⟨before, short, hop, leaves, ends⟩, far⟩
    refine ⟨reaches_succ.mpr ⟨before, short.1, hop, leaves, ends⟩, fun less shorter reached => ?_⟩
    obtain ⟨least, most, near⟩ := exists_isDistance reached
    exact far least (Nat.le_trans most (Nat.le_of_lt_succ shorter)) near

theorem exists_isDistance_of_le (short : IsDistance net start node length) (near : other ≤ length) :
    ∃ between, IsDistance net start between other := by
  induction length generalizing node with
  | zero => exact ⟨node, Nat.le_zero.mp near ▸ short⟩
  | succ length ih =>
    rcases Nat.lt_or_eq_of_le near with less | rfl
    · obtain ⟨⟨before, nearer, _⟩, _⟩ := isDistance_succ.mp short
      exact ih nearer (Nat.le_of_lt_succ less)
    · exact ⟨node, short⟩

theorem isDistance_of_append (short : IsDistance net start (endpoint net start (path ++ rest)) (path ++ rest).length)
    (valid : IsPath net start (path ++ rest)) : IsDistance net start (endpoint net start path) path.length := by
  obtain ⟨front, back⟩ := isPath_append.mp valid
  refine ⟨⟨path, front, rfl, rfl⟩, ?_⟩
  rintro less shorter ⟨detour, detoured, meets, long⟩
  refine short.2 (less + rest.length) (by rw [length_append]; omega) ⟨detour ++ rest, ?_, ?_, ?_⟩
  · exact isPath_append.mpr ⟨detoured, meets ▸ back⟩
  · rw [endpoint_append, endpoint_append, meets]
  · rw [length_append, long]

/-- The hops of one edge join the same two nodes, in the one or the other way. -/
def JoinsByEdge (net : Network Node Hop Edge) : Prop :=
  ∀ one hop, net.leaves one hop → ∀ two step, net.leaves two step → net.edge hop = net.edge step →
    (one = two ∧ net.target hop = net.target step) ∨ (one = net.target step ∧ net.target hop = two)

theorem nodup_of_shortest (joins : JoinsByEdge net) (valid : IsPath net start path)
    (short : IsDistance net start (endpoint net start path) path.length) : (path.map net.edge).Nodup := by
  induction path using List.reverseRecOn with
  | nil => exact nodup_nil
  | append_singleton path hop ih =>
    obtain ⟨front, last⟩ := isPath_append_singleton.mp valid
    have before := isDistance_of_append short valid
    rw [map_append, map_singleton, nodup_append]
    refine ⟨ih front before, nodup_singleton _, ?_⟩
    intro taken member new isNew same
    rw [mem_singleton] at isNew
    obtain ⟨step, listed, rfl⟩ := mem_map.mp member
    obtain ⟨head, tail, rfl⟩ := append_of_mem listed
    have early : IsPath net start (head ++ [step] ++ tail) := by simpa using front
    have here : IsDistance net start (endpoint net start (head ++ [step] ++ tail)) (head ++ [step] ++ tail).length := by
      simpa using before
    have middle := isDistance_of_append here early
    have first := isDistance_of_append middle (isPath_append.mp early).1
    have leaves := (isPath_append_singleton.mp (isPath_append.mp early).1).2
    rw [endpoint_append_singleton] at middle short
    have length : (head ++ step :: tail).length = head.length + tail.length + 1 := by simp; omega
    rcases joins _ step leaves _ hop last (same.trans isNew) with ⟨sources, _⟩ | ⟨crossed, _⟩
    · rw [sources] at first
      have equal := isDistance_unique first before
      omega
    · rw [crossed] at first
      have equal := isDistance_unique first short
      rw [length_append, length_singleton] at equal
      omega

end distance

end Remnic.Library.Paths
