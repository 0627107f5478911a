import DistSys.Lsp.Endpoint

/-! Damaged payloads: one that is too short is dropped by its size, one that is too long is cut down
again, and one with a wrong byte fails the checksum. -/
namespace DistSys.Lsp

open DistSys.Lib

/-! ### The checksum -/

theorem int2Checksum_le (value : Int) : (int2Checksum value).toNat ≤ 65535 := by
  have bound := ((UInt32.ofInt value).toUInt16 + (UInt32.ofInt value >>> 16).toUInt16).toNat_lt
  rw [int2Checksum, uint2Checksum, UInt16.toNat_toUInt32]
  omega

/-- The sum of a payload that is not too long does not wrap around. -/
theorem byteArray2Checksum_toNat {payload : Payload} (short : payload.length ≤ 1500) :
    (byteArray2Checksum payload).toNat = wordSum payload := by
  fun_induction byteArray2Checksum payload with
  | case1 => rfl
  | case2 last => exact UInt8.toNat_toUInt32 last
  | case3 lower upper rest ih =>
    simp only [List.length_cons] at short
    have tail := ih (by omega)
    have low := lower.toNat_lt
    have high := upper.toNat_lt
    have bound := wordSum_le rest
    have shifted : (upper.toUInt32 <<< 8).toNat = 256 * upper.toNat := by
      rw [UInt32.toNat_shiftLeft, UInt8.toNat_toUInt32]
      simp only [UInt32.reduceToNat, Nat.reduceMod, Nat.shiftLeft_eq]
      omega
    rw [UInt32.toNat_add, UInt32.toNat_add, UInt8.toNat_toUInt32, shifted, tail, wordSum]
    omega

/-- The header and the payload add up without wrapping around. -/
theorem checksum_sum (connID seqNum size : Int) {payload : Payload}
    (short : payload.length ≤ 1500) :
    (int2Checksum connID + int2Checksum seqNum + int2Checksum size +
      byteArray2Checksum payload).toNat =
    (int2Checksum connID).toNat + (int2Checksum seqNum).toNat + (int2Checksum size).toNat +
      wordSum payload := by
  have first := int2Checksum_le connID
  have second := int2Checksum_le seqNum
  have third := int2Checksum_le size
  have bound := wordSum_le payload
  rw [UInt32.toNat_add, UInt32.toNat_add, UInt32.toNat_add, byteArray2Checksum_toNat short]
  omega

/-- Sums with different rests have different checksums. -/
theorem foldSum_ne {a b : UInt32} (rests : a.toNat % 65535 ≠ b.toNat % 65535) :
    ~~~ (foldSum 2 a).toUInt16 ≠ ~~~ (foldSum 2 b).toUInt16 := by
  intro same
  have folded := congrArg UInt16.toNat (UInt16.not_inj.mp same)
  have first := foldSum_done a
  have second := foldSum_done b
  rw [UInt32.le_iff_toNat_le] at first second
  simp only [UInt32.toNat_toUInt16, UInt32.reduceToNat] at folded first second
  have left := foldSum_mod 2 a
  have right := foldSum_mod 2 b
  omega

theorem checksum_set (connID seqNum size : Int) {payload : Payload} (short : payload.length ≤ 1500)
    {i : Nat} (inside : i < payload.length) {b : UInt8} (changed : b ≠ payload[i]) :
    calculateChecksum connID seqNum size (payload.set i b) ≠
      calculateChecksum connID seqNum size payload := by
  refine foldSum_ne ?_
  rw [checksum_sum connID seqNum size short,
    checksum_sum connID seqNum size (by simpa using short)]
  exact wordSum_set_mod payload inside changed _

/-! ### What arrives -/

/-- Nothing but the note that something came in is changed by data with a wrong checksum. -/
theorem bvmndthe_wrong {m : Message}
    (wrong : calculateChecksum m.connID m.seqNum m.size m.payload ≠ m.checksum) (l : Bxnzsdj) :
    l.bvmndthe m = l := by
  unfold Bxnzsdj.bvmndthe
  split
  · rfl
  split
  · rfl
  · rfl

/-- The data message of a payload that arrives with another one. -/
def damaged (connID seqNum : Int) (payload arrived : Payload) : Message :=
  { dataMessage connID seqNum payload with payload := arrived }

/-- A damaged payload is never delivered: the message is dropped, or it is the undamaged one again. -/
theorem damaged_payload (connID seqNum : Int) (payload : Payload) (short : payload.length ≤ 1500) :
    (∀ arrived : Payload, arrived.length < payload.length →
      ciqlyoibuh (damaged connID seqNum payload arrived) = some none) ∧
    (∀ extension : Payload, extension ≠ [] →
      ciqlyoibuh (damaged connID seqNum payload (payload ++ extension)) =
        some (some (dataMessage connID seqNum payload))) ∧
    ∀ (i : Nat) (inside : i < payload.length) (b : UInt8), b ≠ payload[i] →
      ∃ m, ciqlyoibuh (damaged connID seqNum payload (payload.set i b)) = some (some m) ∧
        ∀ l : Bxnzsdj, l.bvmndthe m = l ∧ l.qtbejekw m = some { l with tttbejw := true } := by
  refine ⟨?_, ?_, ?_⟩
  · intro arrived shorter
    have less : (arrived.length : Int) < payload.length := by omega
    simp [ciqlyoibuh, damaged, dataMessage, newData, less]
  · intro extension some_
    have more : 0 < extension.length := List.length_pos_of_ne_nil some_
    have whole : ¬ (extension.length : Int) < 0 := by omega
    have sized : ¬ (payload.length : Int) < 0 := by omega
    simp [ciqlyoibuh, damaged, dataMessage, newData, more, whole, sized]
  · intro i inside b changed
    refine ⟨damaged connID seqNum payload (payload.set i b), ?_, ?_⟩
    · simp [ciqlyoibuh, damaged, dataMessage, newData]
    · intro l
      have wrong := checksum_set connID seqNum payload.length short inside changed
      have same : l.bvmndthe (damaged connID seqNum payload (payload.set i b)) = l := by
        apply bvmndthe_wrong
        simp only [damaged, dataMessage, newData]
        exact wrong
      refine ⟨same, ?_⟩
      simp only [Bxnzsdj.qtbejekw]
      rw [same]
      rfl

/-- Three bytes, of which the second is changed. -/
theorem damaged_middle_byte : ∃ m, ciqlyoibuh (damaged 1 1 [1, 2, 3] [1, 9, 3]) = some (some m) ∧
    ∀ l : Bxnzsdj, l.bvmndthe m = l ∧ l.qtbejekw m = some { l with tttbejw := true } :=
  (damaged_payload 1 1 [1, 2, 3] (by decide)).2.2 1 (by decide) 9 (by decide)

end DistSys.Lsp
