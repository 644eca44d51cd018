import Mathlib.Data.List.Infix

/-!
The `LIKE ? ESCAPE ?` comparison of a relational store, over any alphabet: two
wild cards, an escape that makes the next letter literal, and a folding under
which letters are compared.
-/

namespace Remnic.Library.LikePattern

open List

variable {Letter : Type} [DecidableEq Letter]

structure Wildcards (Letter : Type) where
  anything : Letter
  single : Letter
  escape : Letter
  fold : Letter → Letter
  separate : anything ≠ escape ∧ single ≠ escape ∧ single ≠ anything

variable (marks : Wildcards Letter)

/-- The flag says that the letter before was the escape. -/
def like : Bool → List Letter → List Letter → Bool
  | false, [], value => value.isEmpty
  | true, [], _ => false
  | true, mark :: pattern, value =>
    match value with
    | [] => false
    | letter :: rest => marks.fold mark = marks.fold letter && like false pattern rest
  | false, mark :: pattern, value =>
    if mark = marks.escape then like true pattern value
    else if mark = marks.anything then value.tails.any (like false pattern)
    else match value with
      | [] => false
      | letter :: rest =>
        (mark = marks.single || marks.fold mark = marks.fold letter) && like false pattern rest

def special (letter : Letter) : Bool :=
  letter = marks.escape || letter = marks.anything || letter = marks.single

def escaped (value : List Letter) : List Letter :=
  value.flatMap fun letter => if special marks letter then [marks.escape, letter] else [letter]

theorem escaped_cons (letter : Letter) (value : List Letter) :
    escaped marks (letter :: value) =
      (if special marks letter then [marks.escape, letter] else [letter]) ++ escaped marks value := rfl

theorem like_anything (value : List Letter) : like marks false [marks.anything] value = true := by
  have other := marks.separate.1
  simp only [like, if_neg other, if_true, any_eq_true, mem_tails]
  exact ⟨[], nil_suffix, rfl⟩

theorem like_escaped_cons (letter : Letter) (value pattern target : List Letter) :
    like marks false (escaped marks (letter :: value) ++ pattern) target =
      match target with
      | [] => false
      | first :: rest =>
        marks.fold letter = marks.fold first && like marks false (escaped marks value ++ pattern) rest := by
  rw [escaped_cons]
  cases marked : special marks letter with
  | true => simp only [if_true, cons_append, nil_append, like]
  | false =>
    simp only [special, Bool.or_eq_false_iff, decide_eq_false_iff_not] at marked
    obtain ⟨⟨plain, narrow⟩, one⟩ := marked
    cases target with
    | nil => simp [like, plain, narrow]
    | cons first rest => simp [like, plain, narrow, one]

theorem like_escaped_anything (start value : List Letter) :
    like marks false (escaped marks start ++ [marks.anything]) value = true ↔
      start.map marks.fold <+: value.map marks.fold := by
  induction start generalizing value with
  | nil =>
    constructor
    · intro _
      exact nil_prefix
    · intro _
      exact like_anything marks value
  | cons letter start ih =>
    rw [like_escaped_cons]
    cases value with
    | nil => simp
    | cons first rest =>
      rw [Bool.and_eq_true, decide_eq_true_iff, ih rest, map_cons, map_cons, cons_prefix_cons]

end Remnic.Library.LikePattern
