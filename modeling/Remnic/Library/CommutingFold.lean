import Mathlib.Data.List.Perm.Basic

/-!
Passes over a list of updates whose order does not matter: two updates of the list can change
places, and an update that was made already changes nothing.
-/

namespace Remnic.Library.CommutingFold

variable {Value Item : Type} {update : Value → Item → Value} {items others : List Item} {item : Item}

def Commuting (update : Value → Item → Value) (items : List Item) : Prop :=
  ∀ one ∈ items, ∀ other ∈ items, ∀ value, update (update value one) other = update (update value other) one

def Repeatable (update : Value → Item → Value) (items : List Item) : Prop :=
  ∀ item ∈ items, ∀ value, update (update value item) item = update value item

theorem commuting_of_owners (owns : Item → Prop) (idle : ∀ item ∈ items, ¬ owns item → ∀ value, update value item = value)
    (once : ∀ one ∈ items, ∀ other ∈ items, owns one → owns other → one = other) : Commuting update items := by
  intro one member other listed value
  by_cases first : owns one
  · by_cases second : owns other
    · rw [once one member other listed first second]
    · rw [idle other listed second, idle other listed second]
  · rw [idle one member first, idle one member first]

theorem Commuting.perm (commuting : Commuting update items) (same : items.Perm others) (value : Value) :
    items.foldl update value = others.foldl update value :=
  same.foldl_eq' (fun one member other listed value => commuting one member other listed value) value

theorem foldl_update (swaps : ∀ other ∈ items, ∀ value, update (update value item) other = update (update value other) item)
    (value : Value) : items.foldl update (update value item) = update (items.foldl update value) item := by
  induction items generalizing value with
  | nil => rfl
  | cons other items ih =>
    rw [List.foldl_cons, List.foldl_cons, swaps other List.mem_cons_self]
    exact ih (fun later member => swaps later (List.mem_cons_of_mem _ member)) _

theorem Commuting.again (commuting : Commuting update items) (repeatable : Repeatable update items) (value : Value) :
    items.foldl update (items.foldl update value) = items.foldl update value := by
  induction items generalizing value with
  | nil => rfl
  | cons item items ih =>
    have later : ∀ other ∈ items, other ∈ item :: items := fun _ member => List.mem_cons_of_mem _ member
    have rest : Commuting update items := fun one member other listed => commuting one (later one member) other (later other listed)
    have moved : ∀ value, items.foldl update (update value item) = update (items.foldl update value) item :=
      foldl_update fun other member => commuting item List.mem_cons_self other (later other member)
    calc
      _ = update (items.foldl update (items.foldl update (update value item))) item := moved _
      _ = update (items.foldl update (update value item)) item := by rw [ih rest fun other member => repeatable other (later other member)]
      _ = update (update (items.foldl update value) item) item := by rw [moved]
      _ = update (items.foldl update value) item := repeatable item List.mem_cons_self _
      _ = items.foldl update (update value item) := (moved value).symm

end Remnic.Library.CommutingFold
