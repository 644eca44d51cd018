import Mathlib.Data.List.Sort

/-!
Finite maps whose entries stand in the order of their keys, so that two maps
with the same values are equal.
-/

namespace Remnic.Library

open List

structure SortedMap (Key Value : Type) [LinearOrder Key] where
  entries : List (Key × Value)
  ascending : entries.Pairwise fun first second => first.1 < second.1
deriving DecidableEq

namespace SortedMap

variable {Key Value : Type} [LinearOrder Key]

def empty : SortedMap Key Value := ⟨[], Pairwise.nil⟩

def lookup (map : SortedMap Key Value) (key : Key) : Option Value := map.entries.lookup key

/-- The entry takes its place, or that of an entry with the same key. -/
def insertEntry (key : Key) (value : Value) : List (Key × Value) → List (Key × Value)
  | [] => [(key, value)]
  | entry :: entries =>
    if key < entry.1 then (key, value) :: entry :: entries
    else if key = entry.1 then (key, value) :: entries
    else entry :: insertEntry key value entries

variable {entries : List (Key × Value)} {value : Value} (map : SortedMap Key Value) (key other : Key)

theorem mem_insertEntry {key : Key} {entry : Key × Value} (member : entry ∈ insertEntry key value entries) :
    entry = (key, value) ∨ entry ∈ entries := by
  induction entries with
  | nil => exact .inl (mem_singleton.mp member)
  | cons first entries ih =>
    unfold insertEntry at member
    split_ifs at member
    · exact mem_cons.mp member
    · exact (mem_cons.mp member).imp_right (mem_cons_of_mem first)
    · rcases mem_cons.mp member with rfl | later
      · exact .inr mem_cons_self
      · exact (ih later).imp_right (mem_cons_of_mem first)

theorem ascending_insertEntry {key : Key} (ascending : entries.Pairwise fun first second => first.1 < second.1) :
    (insertEntry key value entries).Pairwise fun first second => first.1 < second.1 := by
  induction entries with
  | nil => exact pairwise_singleton _ _
  | cons first entries ih =>
    obtain ⟨before, rest⟩ := pairwise_cons.mp ascending
    unfold insertEntry
    split_ifs with less same
    · refine pairwise_cons.mpr ⟨fun entry member => ?_, ascending⟩
      rcases mem_cons.mp member with rfl | later
      · exact less
      · exact less.trans (before entry later)
    · exact pairwise_cons.mpr ⟨fun entry member => same ▸ before entry member, rest⟩
    · refine pairwise_cons.mpr ⟨fun entry member => ?_, ih rest⟩
      rcases mem_insertEntry member with rfl | later
      · exact lt_of_le_of_ne (not_lt.mp less) (Ne.symm same)
      · exact before entry later

def set (map : SortedMap Key Value) (key : Key) (value : Value) : SortedMap Key Value :=
  ⟨insertEntry key value map.entries, ascending_insertEntry map.ascending⟩

/-- The last entry with a key is the one that counts. -/
def ofList (entries : List (Key × Value)) : SortedMap Key Value :=
  entries.foldl (fun map entry => map.set entry.1 entry.2) empty

theorem lookup_cons (first : Key × Value) (entries : List (Key × Value)) :
    (first :: entries).lookup key = if key = first.1 then some first.2 else entries.lookup key := by
  by_cases found : key = first.1
  · rw [if_pos found, found]
    exact lookup_cons_self
  · have differs : (key == first.1) = false := beq_false_of_ne found
    rw [if_neg found, List.lookup_cons, differs]

theorem lookup_insertEntry (value : Value) (entries : List (Key × Value)) :
    (insertEntry key value entries).lookup other = if other = key then some value else entries.lookup other := by
  induction entries with
  | nil => exact lookup_cons other (key, value) []
  | cons first entries ih =>
    unfold insertEntry
    by_cases less : key < first.1
    · rw [if_pos less, lookup_cons]
    · rw [if_neg less]
      by_cases same : key = first.1
      · rw [if_pos same, lookup_cons, lookup_cons]
        by_cases asked : other = key
        · rw [if_pos asked, if_pos asked]
        · rw [if_neg asked, if_neg asked, if_neg (same ▸ asked)]
      · rw [if_neg same, lookup_cons, lookup_cons, ih]
        by_cases asked : other = key
        · subst asked
          rw [if_neg same, if_pos rfl, if_pos rfl]
        · rw [if_neg asked, if_neg asked]

@[simp] theorem lookup_empty : (empty : SortedMap Key Value).lookup key = none := rfl

@[simp] theorem lookup_set (value : Value) :
    (map.set key value).lookup other = if other = key then some value else map.lookup other :=
  lookup_insertEntry key other value map.entries

theorem lookup_eq_some_iff (value : Value) : map.lookup key = some value ↔ (key, value) ∈ map.entries := by
  obtain ⟨entries, ascending⟩ := map
  show entries.lookup key = some value ↔ (key, value) ∈ entries
  induction entries with
  | nil => simp
  | cons first entries ih =>
    obtain ⟨before, rest⟩ := pairwise_cons.mp ascending
    rw [lookup_cons, mem_cons]
    by_cases found : key = first.1
    · subst found
      rw [if_pos rfl, Option.some.injEq]
      constructor
      · rintro rfl
        exact .inl rfl
      · rintro (same | later)
        · exact (congrArg Prod.snd same).symm
        · exact absurd (before _ later) (lt_irrefl _)
    · rw [if_neg found, ih rest]
      refine ⟨.inr, fun listed => listed.resolve_left ?_⟩
      rintro rfl
      exact found rfl

theorem ext_lookup {first second : SortedMap Key Value} (same : ∀ key, first.lookup key = second.lookup key) :
    first = second := by
  have entries : first.entries = second.entries := by
    have irreflexive : Std.Irrefl fun one other : Key × Value => one.1 < other.1 := ⟨fun entry => lt_irrefl entry.1⟩
    have antisymmetric : Std.Antisymm fun one other : Key × Value => one.1 < other.1 :=
      ⟨fun one other less greater => absurd (less.trans greater) (lt_irrefl _)⟩
    apply Pairwise.eq_of_mem_iff first.ascending second.ascending
    intro entry
    rw [← lookup_eq_some_iff first entry.1 entry.2, same entry.1, lookup_eq_some_iff]
  cases first
  cases second
  cases entries
  rfl

theorem insertEntry_last {key : Key} (last : ∀ entry ∈ entries, entry.1 < key) :
    insertEntry key value entries = entries ++ [(key, value)] := by
  induction entries with
  | nil => rfl
  | cons first entries ih =>
    have before := last first mem_cons_self
    unfold insertEntry
    rw [if_neg before.asymm, if_neg before.ne', ih fun entry member => last entry (mem_cons_of_mem _ member)]
    rfl

theorem ofList_entries : ofList map.entries = map := by
  have grows : ∀ (rest : List (Key × Value)) (start : SortedMap Key Value),
      (start.entries ++ rest).Pairwise (fun first second => first.1 < second.1) →
        (rest.foldl (fun map entry => map.set entry.1 entry.2) start).entries = start.entries ++ rest := by
    intro rest
    induction rest with
    | nil => exact fun start _ => (append_nil _).symm
    | cons entry rest ih =>
      intro start ascending
      have last : (start.set entry.1 entry.2).entries = start.entries ++ [entry] :=
        insertEntry_last fun other member => (pairwise_append.mp ascending).2.2 other member entry mem_cons_self
      rw [append_cons] at ascending ⊢
      rw [← last] at ascending ⊢
      exact ih _ ascending
  have whole := grows map.entries empty map.ascending
  cases map
  exact ext_lookup fun key => congrArg (List.lookup key) whole

end SortedMap

end Remnic.Library
