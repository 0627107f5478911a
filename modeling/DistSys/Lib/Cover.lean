import Mathlib.Data.Set.Lattice

/-! A set cut into nonempty parts that may overlap. Work that is handed around in parts is all
there as long as the parts, wherever they are, cover it. -/
namespace DistSys.Lib

variable {X : Type} {S a b c : Set X} {A B : Set (Set X)} {x : X}

/-- The parts are nonempty and together they are the whole. -/
structure Covers (A : Set (Set X)) (S : Set X) : Prop where
  proper : ∀ a ∈ A, a.Nonempty
  whole : ⋃₀ A = S

namespace Covers

theorem single (proper : S.Nonempty) : Covers {S} S where
  proper := by simpa using proper
  whole := Set.sUnion_singleton S

theorem part_subset (cover : Covers A S) (part : a ∈ A) : a ⊆ S :=
  cover.whole ▸ Set.subset_sUnion_of_mem part

theorem exists_part (cover : Covers A S) (inside : x ∈ S) : ∃ a ∈ A, x ∈ a := by
  rwa [← cover.whole] at inside

/-- One part is cut in two. -/
theorem cut (cover : Covers (insert a A) S) (left : b.Nonempty) (right : c.Nonempty)
    (both : b ∪ c = a) : Covers (insert b (insert c A)) S where
  proper := by
    intro part member
    rcases member with rfl | rfl | old
    · exact left
    · exact right
    · exact cover.proper part (.inr old)
  whole := by
    have whole := cover.whole
    rw [Set.sUnion_insert] at whole
    rw [Set.sUnion_insert, Set.sUnion_insert, ← Set.union_assoc, both, whole]

end Covers

end DistSys.Lib
