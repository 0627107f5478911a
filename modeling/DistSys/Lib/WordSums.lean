import Mathlib.Data.List.Basic

/-! Sums of bytes as little-endian 16-bit words, and the carry that is added in again at the other
end. Neither can hide that one byte has changed: such a sum is kept modulo 65535, and a byte weighs 1
or 256 in it. -/
namespace DistSys.Lib

/-- Two bytes make a word, the lower one first; an odd last byte stands alone. -/
def wordSum : List UInt8 → Nat
  | [] => 0
  | [last] => last.toNat
  | lower :: upper :: rest => lower.toNat + 256 * upper.toNat + wordSum rest

theorem wordSum_le (bytes : List UInt8) : wordSum bytes ≤ 65535 * ((bytes.length + 1) / 2) := by
  fun_induction wordSum bytes with
  | case1 => simp
  | case2 last =>
    have bound := last.toNat_lt
    simp only [List.length_singleton]
    omega
  | case3 lower upper rest ih =>
    have low := lower.toNat_lt
    have high := upper.toNat_lt
    simp only [List.length_cons]
    omega

/-- A byte counts once or 256 times, by its place. -/
theorem wordSum_set (bytes : List UInt8) {i : Nat} (inside : i < bytes.length) (b : UInt8) :
    ∃ weight, (weight = 1 ∨ weight = 256) ∧
      wordSum (bytes.set i b) + weight * bytes[i].toNat = wordSum bytes + weight * b.toNat := by
  fun_induction wordSum bytes generalizing i with
  | case1 => simp at inside
  | case2 last =>
    have first : i = 0 := by simpa using inside
    subst first
    exact ⟨1, .inl rfl, by simp [wordSum]; omega⟩
  | case3 lower upper rest ih =>
    match i with
    | 0 => exact ⟨1, .inl rfl, by simp [wordSum]; omega⟩
    | 1 => exact ⟨256, .inr rfl, by simp [wordSum]; omega⟩
    | i + 2 =>
      obtain ⟨weight, which, moved⟩ := ih (i := i) (by simpa using inside)
      refine ⟨weight, which, ?_⟩
      simp only [List.set_cons_succ, wordSum, List.getElem_cons_succ]
      omega

/-- With one byte changed, the sum leaves another rest. -/
theorem wordSum_set_mod (bytes : List UInt8) {i : Nat} (inside : i < bytes.length) {b : UInt8}
    (changed : b ≠ bytes[i]) (offset : Nat) :
    (offset + wordSum (bytes.set i b)) % 65535 ≠ (offset + wordSum bytes) % 65535 := by
  obtain ⟨weight, which, moved⟩ := wordSum_set bytes inside b
  have other : b.toNat ≠ bytes[i].toNat := fun same => changed (UInt8.toNat_inj.mp same)
  have new := b.toNat_lt
  have old := bytes[i].toNat_lt
  -- the two sums differ by at most 256 * 255
  rcases which with rfl | rfl
  · omega
  · omega

/-- The carry out of the lower 16 bits is added to them. -/
def endAround (sum : Nat) : Nat := sum / 65536 + sum % 65536

theorem endAround_mod (sum : Nat) : endAround sum % 65535 = sum % 65535 := by
  unfold endAround
  omega

end DistSys.Lib
