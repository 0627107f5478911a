import DistSys.Lib.Maps
import Mathlib.Logic.Relation

/-! A table whose entries get consecutive numbers, with an index that finds the number of an
entry by a key of it. What an entry must have to do with its number is a parameter. -/
namespace DistSys.Lib

structure Registry (K V : Type) where
  next : Int
  table : Map Int V
  index : Map K Int

namespace Registry

variable {K V : Type}

/-- No number is given twice: an entry that is there later was there before under the same
number, or its number was not given before. -/
structure Later (key : V → K) (r r' : Registry K V) : Prop where
  counter : r.next ≤ r'.next
  kept : ∀ id v', r'.table.lookup id = some v' →
    r.next ≤ id ∨ ∃ v, r.table.lookup id = some v ∧ key v = key v'

variable {key : V → K} {fits : Int → V → Prop} {r r' r'' : Registry K V}

theorem Later.refl (r : Registry K V) : Later key r r :=
  ⟨Int.le_refl _, fun _ v there => .inr ⟨v, there, rfl⟩⟩

theorem Later.trans (one : Later key r r') (two : Later key r' r'') : Later key r r'' := by
  refine ⟨Int.le_trans one.counter two.counter, ?_⟩
  intro id v'' there
  rcases two.kept id v'' there with new | ⟨v', between, same'⟩
  · exact .inl (Int.le_trans one.counter new)
  · rcases one.kept id v' between with new | ⟨v, before, same⟩
    · exact .inl new
    · exact .inr ⟨v, before, same.trans same'⟩

variable [DecidableEq K]

/-- An entry is replaced by one with the same key, removed from both maps, or enrolled under the
next number if its key is new. -/
inductive Edit (key : V → K) (fits : Int → V → Prop) (r : Registry K V) : Registry K V → Prop where
  | replace (id : Int) (v v' : V) (found : r.table.lookup id = some v) (same : key v' = key v)
      (fit : 1 ≤ id → fits id v → fits id v') :
      Edit key fits r { r with table := r.table.insert id v' }
  | remove (id : Int) (v : V) (found : r.table.lookup id = some v) :
      Edit key fits r { r with table := r.table.erase id, index := r.index.erase (key v) }
  | enrol (v : V) (new : r.index.lookup (key v) = none) (fit : 1 ≤ r.next → fits r.next v) :
      Edit key fits r
        ⟨r.next + 1, r.table.insert r.next v, r.index.insert (key v) r.next⟩

def Edits (key : V → K) (fits : Int → V → Prop) : Registry K V → Registry K V → Prop :=
  Relation.ReflTransGen (Edit key fits)

structure Sound (key : V → K) (fits : Int → V → Prop) (r : Registry K V) : Prop where
  counter : 1 ≤ r.next
  inverse : ∀ k id, r.index.lookup k = some id ↔ ∃ v, r.table.lookup id = some v ∧ key v = k
  ids : ∀ id v, r.table.lookup id = some v → 1 ≤ id ∧ id < r.next ∧ fits id v

theorem sound_empty : Sound key fits ⟨1, ∅, ∅⟩ := by
  constructor
  · exact Int.le_refl 1
  · simp
  · simp

theorem Sound.replace (h : Sound key fits r) {id : Int} {v v' : V}
    (found : r.table.lookup id = some v) (same : key v' = key v)
    (fit : 1 ≤ id → fits id v → fits id v') :
    Sound key fits { r with table := r.table.insert id v' } := by
  refine ⟨h.counter, ?_, ?_⟩
  · intro k i
    rw [h.inverse]
    by_cases here : i = id
    · subst here
      simp only [Map.lookup_insert, if_true, found, Option.some.injEq, exists_eq_left', same]
    · simp only [Map.lookup_insert, if_neg here]
  · intro i w there
    rw [Map.lookup_insert] at there
    split at there
    · rename_i here
      subst here
      cases Option.some.inj there
      obtain ⟨positive, given, fine⟩ := h.ids i v found
      exact ⟨positive, given, fit positive fine⟩
    · exact h.ids i w there

theorem Sound.remove (h : Sound key fits r) {id : Int} {v : V}
    (found : r.table.lookup id = some v) :
    Sound key fits { r with table := r.table.erase id, index := r.index.erase (key v) } := by
  -- the index knows the entry under its key, so no other entry has this key
  have alone : ∀ w i, r.table.lookup i = some w → key w = key v → i = id := by
    intro w i there same
    have first := (h.inverse (key v) i).mpr ⟨w, there, same⟩
    have second := (h.inverse (key v) id).mpr ⟨v, found, rfl⟩
    exact Option.some.inj (first.symm.trans second)
  refine ⟨h.counter, ?_, ?_⟩
  · intro k i
    simp only [Map.lookup_erase]
    by_cases here : k = key v
    · subst here
      simp only [if_true, reduceCtorEq, false_iff, not_exists, not_and]
      intro w there same
      split at there
      · cases there
      · rename_i other
        exact other (alone w i there same)
    · rw [if_neg here, h.inverse]
      by_cases mine : i = id
      · subst mine
        simp [found, Ne.symm here]
      · simp only [if_neg mine]
  · intro i w there
    rw [Map.lookup_erase] at there
    split at there
    · cases there
    · exact h.ids i w there

theorem Sound.enrol (h : Sound key fits r) {v : V} (new : r.index.lookup (key v) = none)
    (fit : 1 ≤ r.next → fits r.next v) : Sound key fits
      ⟨r.next + 1, r.table.insert r.next v, r.index.insert (key v) r.next⟩ := by
  have fresh : r.table.lookup r.next = none := by
    cases there : r.table.lookup r.next with
    | none => rfl
    | some w => exact absurd (h.ids _ w there).2.1 (Int.lt_irrefl _)
  have counter := h.counter
  refine ⟨Int.le_trans counter (Int.le_add_one (Int.le_refl _)), ?_, ?_⟩
  · intro k i
    simp only [Map.lookup_insert]
    by_cases mine : i = r.next
    · subst mine
      simp only [if_true, Option.some.injEq, exists_eq_left']
      split
      · rename_i here
        simp [here]
      · rename_i other
        rw [h.inverse, fresh]
        simp [Ne.symm other]
    · rw [if_neg mine]
      split
      · rename_i here
        subst here
        rw [← h.inverse, new]
        simp [Ne.symm mine]
      · exact h.inverse k i
  · intro i w there
    rw [Map.lookup_insert] at there
    dsimp only
    split at there
    · rename_i here
      subst here
      cases Option.some.inj there
      exact ⟨counter, by omega, fit counter⟩
    · obtain ⟨positive, given, fine⟩ := h.ids i w there
      exact ⟨positive, by omega, fine⟩

theorem Sound.edit (h : Sound key fits r) (edit : Edit key fits r r') : Sound key fits r' := by
  cases edit with
  | replace id v v' found same fit => exact h.replace found same fit
  | remove id v found => exact h.remove found
  | enrol v new fit => exact h.enrol new fit

theorem Sound.edits (h : Sound key fits r) (edits : Edits key fits r r') : Sound key fits r' := by
  induction edits with
  | refl => exact h
  | tail _ last ih => exact ih.edit last

theorem Edit.later (edit : Edit key fits r r') : Later key r r' := by
  cases edit with
  | replace id v v' found same fit =>
    refine ⟨Int.le_refl _, ?_⟩
    intro i w there
    rw [Map.lookup_insert] at there
    split at there
    · rename_i here
      subst here
      cases Option.some.inj there
      exact .inr ⟨v, found, same.symm⟩
    · exact .inr ⟨w, there, rfl⟩
  | remove id v found =>
    refine ⟨Int.le_refl _, ?_⟩
    intro i w there
    rw [Map.lookup_erase] at there
    split at there
    · cases there
    · exact .inr ⟨w, there, rfl⟩
  | enrol v new fit =>
    refine ⟨Int.le_add_one (Int.le_refl _), ?_⟩
    intro i w there
    rw [Map.lookup_insert] at there
    split at there
    · rename_i here
      exact .inl (Int.le_of_eq here.symm)
    · exact .inr ⟨w, there, rfl⟩

theorem Edits.later (edits : Edits key fits r r') : Later key r r' := by
  induction edits with
  | refl => exact .refl r
  | tail _ last ih => exact ih.trans last.later

end Registry

end DistSys.Lib
