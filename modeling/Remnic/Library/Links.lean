import Mathlib.Logic.Relation

/-!
Links that lead nowhere in a circle. A link into a node without links of its own
closes no circle.
-/

namespace Remnic.Library.Links

variable {Node : Type} {old new : Node → Node → Prop} {last : Node}

def Acyclic (links : Node → Node → Prop) : Prop := ∀ node, ¬ Relation.TransGen links node node

theorem acyclic_of_unlinked (unlinked : ∀ first second, ¬ old first second) : Acyclic old := by
  intro node circle
  obtain ⟨next, link, _⟩ := Relation.TransGen.head'_iff.mp circle
  exact unlinked node next link

/-- A walk along the new links runs along the old ones or ends in the last node. -/
theorem walk_of_last (grows : ∀ first second, new first second → old first second ∨ second = last)
    (ends : ∀ second, ¬ new last second) {first second : Node} (walk : Relation.TransGen new first second) :
    Relation.TransGen old first second ∨ second = last := by
  induction walk with
  | single link =>
    rcases grows _ _ link with before | added
    · exact .inl (.single before)
    · exact .inr added
  | tail _ link ih =>
    rcases ih with before | reached
    · rcases grows _ _ link with again | added
      · exact .inl (before.tail again)
      · exact .inr added
    · exact absurd (reached ▸ link) (ends _)

theorem acyclic_of_last (acyclic : Acyclic old) (grows : ∀ first second, new first second → old first second ∨ second = last)
    (ends : ∀ second, ¬ new last second) : Acyclic new := by
  intro node circle
  rcases walk_of_last grows ends circle with before | reached
  · exact acyclic node before
  · obtain ⟨next, link, _⟩ := Relation.TransGen.head'_iff.mp circle
    exact ends next (reached ▸ link)

theorem acyclic_mono (acyclic : Acyclic old) (fewer : ∀ first second, new first second → old first second) : Acyclic new :=
  fun node circle => acyclic node (Relation.TransGen.mono fewer node node circle)

end Remnic.Library.Links
