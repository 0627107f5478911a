import Mathlib.Order.Lattice

/-! A register that takes over a version when the stamp of the version is larger than that of its
own. What it holds in the end depends on which versions came, not on their order or number. -/
namespace DistSys.Lib

variable {V L : Type} [LinearOrder L] {stamp : V → L} {old mid held held' : Option V}
  {come come' : V → Prop}

variable (stamp) in
/-- `held` is the newest of the version that was there, `old`, and of those that have come. -/
structure Newest (old : Option V) (come : V → Prop) (held : Option V) : Prop where
  among : ∀ {v}, held = some v → old = some v ∨ come v
  largest : ∀ {v}, old = some v ∨ come v → ∃ u, held = some u ∧ stamp v ≤ stamp u
  /-- A version with the stamp of the one that was there does not replace it. -/
  stays : ∀ {u v}, old = some u → held = some v → stamp v ≤ stamp u → v = u

namespace Newest

theorem refl (none : ∀ v, ¬come v) : Newest stamp old come old where
  among := .inl
  largest := by
    rintro v (here | comes)
    · exact ⟨v, here, le_rfl⟩
    · exact absurd comes (none v)
  stays := by
    intro u v was is _
    exact Option.some.inj (is.symm.trans was)

theorem trans (first : Newest stamp old come mid) (second : Newest stamp mid come' held) :
    Newest stamp old (fun v => come v ∨ come' v) held where
  among := by
    intro v is
    rcases second.among is with was | comes
    · exact (first.among was).imp_right .inl
    · exact .inr (.inr comes)
  largest := by
    intro v here
    have early : (old = some v ∨ come v) ∨ come' v := or_assoc.mpr here
    rcases early with early | comes
    · obtain ⟨u, was, le⟩ := first.largest early
      obtain ⟨u', is, le'⟩ := second.largest (.inl was)
      exact ⟨u', is, le.trans le'⟩
    · exact second.largest (.inr comes)
  stays := by
    intro u v was is le
    obtain ⟨m, between, above⟩ := first.largest (.inl was)
    obtain ⟨v', is', above'⟩ := second.largest (.inl between)
    cases is.symm.trans is'
    have same := first.stays was between (above'.trans le)
    rw [second.stays between is (le.trans above), same]

theorem congr (same : ∀ v, come v ↔ come' v) (newest : Newest stamp old come held) :
    Newest stamp old come' held where
  among := fun is => (newest.among is).imp_right (same _).mp
  largest := fun here => newest.largest (here.imp_right (same _).mpr)
  stays := newest.stays

/-- When no two of the versions that come have one stamp, there is one newest. -/
theorem unique (distinct : ∀ u v, come u → come v → stamp u = stamp v → u = v)
    (one : Newest stamp old come held) (two : Newest stamp old come held') : held = held' := by
  -- a version that stays wins a tie, so only two versions that have come are compared
  have agree : ∀ {h h'} {u v : V}, Newest stamp old come h → Newest stamp old come h' →
      h = some u → h' = some v → u = v := by
    intro h h' u v one two is is'
    have le : stamp u ≤ stamp v := by
      obtain ⟨w, here, le⟩ := two.largest (one.among is)
      cases is'.symm.trans here
      exact le
    have ge : stamp v ≤ stamp u := by
      obtain ⟨w, here, le⟩ := one.largest (two.among is')
      cases is.symm.trans here
      exact le
    rcases one.among is with was | comes
    · exact (two.stays was is' ge).symm
    · rcases two.among is' with was | comes'
      · exact one.stays was is le
      · exact distinct u v comes comes' (le_antisymm le ge)
  cases is : held with
  | some u =>
    obtain ⟨v, is', _⟩ := two.largest (one.among is)
    rw [is', agree one two is is']
  | none =>
    cases is' : held' with
    | none => rfl
    | some v =>
      obtain ⟨u, here, _⟩ := one.largest (two.among is')
      cases is.symm.trans here

end Newest

theorem countP_lt {E : Type} {xs : List E} {x : E} {p q : E → Bool}
    (less : ∀ y, q y = true → p y = true) (member : x ∈ xs) (was : p x = true) (gone : ¬q x = true) :
    xs.countP q < xs.countP p := by
  obtain ⟨early, late, rfl⟩ := List.append_of_mem member
  have before : early.countP q ≤ early.countP p := List.countP_mono_left fun y _ => less y
  have after : late.countP q ≤ late.countP p := List.countP_mono_left fun y _ => less y
  rw [List.countP_append, List.countP_append, List.countP_cons_of_pos was,
    List.countP_cons_of_neg gone]
  omega

end DistSys.Lib
