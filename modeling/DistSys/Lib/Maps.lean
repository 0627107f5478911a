import Mathlib.Data.List.AList

/-! Finite maps as association lists without a repeated key: what a program's map type is used
for. `size` is the number of keys. -/
namespace DistSys.Lib

abbrev Map (K V : Type) := AList (fun _ : K => V)

namespace Map

variable {K V : Type}

def size (m : Map K V) : Nat := m.entries.length

theorem size_keys (m : Map K V) : size m = m.keys.length := by
  simp [size, AList.keys, List.keys]

theorem eq_empty_of_size {m : Map K V} (none : size m = 0) : m = ∅ :=
  AList.ext (List.eq_nil_of_length_eq_zero none)

/-- The sum of a number for each entry. -/
def total (f : V → Nat) (m : Map K V) : Nat := m.entries.foldr (fun entry sum => f entry.2 + sum) 0

theorem total_perm (f : V → Nat) {m m' : Map K V} (perm : m.entries.Perm m'.entries) :
    total f m = total f m' := by
  apply perm.foldr_eq'
  intro x _ y _ sum
  omega

variable [DecidableEq K]

theorem lookup_insert (m : Map K V) (a k : K) (v : V) :
    (m.insert a v).lookup k = if k = a then some v else m.lookup k := by
  split
  · rename_i here
    subst here
    exact AList.lookup_insert m
  · rename_i other
    exact AList.lookup_insert_ne other

theorem lookup_erase (m : Map K V) (a k : K) :
    (m.erase a).lookup k = if k = a then none else m.lookup k := by
  split
  · rename_i here
    subst here
    exact AList.lookup_erase k m
  · rename_i other
    exact AList.lookup_erase_ne other

theorem mem_of_lookup {m : Map K V} {k : K} {v : V} (found : m.lookup k = some v) : k ∈ m :=
  AList.lookup_isSome.mp (by simp [found])

theorem lookup_of_mem {m : Map K V} {k : K} (member : k ∈ m) : ∃ v, m.lookup k = some v :=
  Option.isSome_iff_exists.mp (AList.lookup_isSome.mpr member)

theorem mem_entries {m : Map K V} {k : K} {v : V} : ⟨k, v⟩ ∈ m.entries ↔ m.lookup k = some v :=
  AList.mem_lookup_iff.symm

theorem size_erase {m : Map K V} {k : K} (member : k ∈ m) : size (m.erase k) + 1 = size m := by
  rw [size_keys, size_keys, AList.keys_erase]
  exact List.length_erase_add_one member

theorem size_erase_le (m : Map K V) (k : K) : size (m.erase k) ≤ size m := by
  rw [size_keys, size_keys, AList.keys_erase]
  exact List.length_erase_le

theorem size_insert {m : Map K V} {k : K} (v : V) (fresh : k ∉ m) :
    size (m.insert k v) = size m + 1 := by
  rw [size, AList.entries_insert_of_notMem fresh]
  rfl

theorem insert_erase (m : Map K V) (k : K) (v : V) : (m.erase k).insert k v = m.insert k v := by
  have gone : k ∉ m.erase k := by simp [AList.mem_erase]
  apply AList.ext
  rw [AList.entries_insert_of_notMem gone]
  rfl

theorem erase_insert (m : Map K V) (k : K) (v : V) : (m.insert k v).erase k = m.erase k := by
  apply AList.ext
  exact List.kerase_cons_eq rfl

theorem erase_insert_ne (m : Map K V) {a k : K} (v : V) (other : k ≠ a) :
    (m.insert a v).erase k = (m.erase k).insert a v := by
  have comm := List.kerase_comm a k m.entries
  apply AList.ext
  calc ((m.insert a v).erase k).entries
      = List.kerase k (⟨a, v⟩ :: List.kerase a m.entries) := rfl
    _ = ⟨a, v⟩ :: List.kerase k (List.kerase a m.entries) := List.kerase_cons_ne other
    _ = ⟨a, v⟩ :: List.kerase a (List.kerase k m.entries) := by rw [comm]
    _ = ((m.erase k).insert a v).entries := rfl

/-! ### All the entries of a map -/

theorem entries_perm {m : Map K V} {k : K} {v : V} (found : m.lookup k = some v) :
    m.entries.Perm (⟨k, v⟩ :: (m.erase k).entries) := by
  have gone : k ∉ m.erase k := by simp [AList.mem_erase]
  rw [← AList.entries_insert_of_notMem gone]
  refine List.lookup_ext m.nodupKeys ((m.erase k).insert k v).nodupKeys fun j w => ?_
  have same : ((m.erase k).insert k v).lookup j = m.lookup j := by
    rw [lookup_insert, lookup_erase]
    split
    · rename_i here
      rw [here, found]
    · rfl
  exact (congrArg (w ∈ ·) same.symm).to_iff

theorem total_found (f : V → Nat) {m : Map K V} {k : K} {v : V} (found : m.lookup k = some v) :
    total f m = f v + total f (m.erase k) := by
  have gone : k ∉ m.erase k := by simp [AList.mem_erase]
  have perm := entries_perm found
  rw [← AList.entries_insert_of_notMem gone] at perm
  rw [total_perm f perm, total, AList.entries_insert_of_notMem gone]
  rfl

theorem total_congr (f : V → Nat) {m m' : Map K V} (same : ∀ k, m.lookup k = m'.lookup k) :
    total f m = total f m' := by
  apply total_perm
  apply List.lookup_ext m.nodupKeys m'.nodupKeys
  intro k v
  exact (congrArg (v ∈ ·) (same k)).to_iff

theorem total_insert (f : V → Nat) (m : Map K V) (k : K) (v : V) :
    total f (m.insert k v) = f v + total f (m.erase k) := by
  rw [total_found f (AList.lookup_insert m), erase_insert]

theorem total_erase_le (f : V → Nat) (m : Map K V) (k : K) : total f (m.erase k) ≤ total f m := by
  cases found : m.lookup k with
  | some v =>
    rw [total_found f found]
    exact Nat.le_add_left _ _
  | none =>
    have same : m.erase k = m :=
      AList.ext (List.kerase_of_notMem_keys (AList.lookup_eq_none.mp found))
    rw [same]

/-- The same keys with other values. -/
def mapValues {W : Type} (f : V → W) (m : Map K V) : Map K W where
  entries := m.entries.map fun entry => ⟨entry.1, f entry.2⟩
  nodupKeys := by
    rw [List.NodupKeys, List.keys, List.map_map]
    exact m.nodupKeys

theorem lookup_mapValues {W : Type} (f : V → W) (m : Map K V) (k : K) :
    (mapValues f m).lookup k = (m.lookup k).map f := by
  obtain ⟨entries, nodup⟩ := m
  simp only [AList.lookup, mapValues]
  clear nodup
  induction entries with
  | nil => rfl
  | cons entry rest ih =>
    obtain ⟨key, value⟩ := entry
    rw [List.map_cons]
    by_cases same : k = key
    · subst same
      rw [List.dlookup_cons_eq, List.dlookup_cons_eq, Option.map_some]
    · rw [List.dlookup_cons_ne _ _ same, List.dlookup_cons_ne _ _ same, ih]

/-- A loop over a map whose turn for a key changes only what is seen of the state at that key:
the order in which it meets the keys does not matter. -/
theorem view_foldl {S O : Type} {body : S → K → V → S} (view : S → K → O) (turn : V → O → O)
    (own : ∀ s k v, view (body s k v) k = turn v (view s k))
    (other : ∀ s k v j, j ≠ k → view (body s k v) j = view s j) (s : S) (m : Map K V) (k : K) :
    view (m.foldl body s) k = match m.lookup k with
      | some v => turn v (view s k)
      | none => view s k := by
  obtain ⟨entries, nodup⟩ := m
  simp only [AList.lookup, AList.foldl]
  induction entries generalizing s with
  | nil => rfl
  | cons entry rest ih =>
    obtain ⟨key, value⟩ := entry
    obtain ⟨new, nodup⟩ := List.nodupKeys_cons.mp nodup
    rw [List.foldl_cons, ih _ nodup]
    by_cases same : k = key
    · subst same
      rw [List.dlookup_cons_eq, List.dlookup_eq_none.mpr new]
      exact own s k value
    · rw [List.dlookup_cons_ne _ _ same, other s key value k same]

end Map

end DistSys.Lib
