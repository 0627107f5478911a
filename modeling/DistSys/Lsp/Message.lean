import DistSys.Lib.WordSums
import Mathlib.Data.BitVec

/-! The messages of the Live Sequence Protocol and the checksum of a data message. A datagram
is modelled as the message it holds: encoding it and decoding it again gives it back. Go's
`int` fields are integers. -/
namespace DistSys.Lsp

open DistSys.Lib

abbrev Payload := List UInt8

/-- The four types, and whatever other code a datagram may hold. -/
inductive MsgType where
  | connect
  | data
  | ack
  | cAck
  | other (code : Int)
  deriving DecidableEq, Repr

structure Message where
  type : MsgType
  connID : Int
  seqNum : Int
  size : Int
  checksum : UInt16
  payload : Payload
  deriving DecidableEq, Repr

def newConnect (initialSeqNum : Int) : Message := ⟨.connect, 0, initialSeqNum, 0, 0, []⟩

def newData (connID seqNum size : Int) (payload : Payload) (checksum : UInt16) : Message :=
  ⟨.data, connID, seqNum, size, checksum, payload⟩

def newAck (connID seqNum : Int) : Message := ⟨.ack, connID, seqNum, 0, 0, []⟩

def newCAck (connID seqNum : Int) : Message := ⟨.cAck, connID, seqNum, 0, 0, []⟩

/-! ### The checksum -/

/-- The halves are added as 16-bit numbers, so a carry out of them is lost. -/
def uint2Checksum (value : UInt32) : UInt32 :=
  (value.toUInt16 + (value >>> 16).toUInt16).toUInt32

def int2Checksum (value : Int) : UInt32 := uint2Checksum (UInt32.ofInt value)

/-- Two bytes at a time, the lower one first; an odd last byte is padded with a zero. -/
def byteArray2Checksum : Payload → UInt32
  | [] => 0
  | [last] => last.toUInt32
  | lower :: upper :: rest =>
    lower.toUInt32 + (upper.toUInt32 <<< 8) + byteArray2Checksum rest

/-- The loop that adds the upper half to the lower one, at most `fuel` times. -/
def foldSum : Nat → UInt32 → UInt32
  | 0, sum => sum
  | fuel + 1, sum =>
    if 0xffff < sum then foldSum fuel ((sum >>> 16 &&& 0xffff) + (sum &&& 0xffff)) else sum

def calculateChecksum (connID seqNum size : Int) (payload : Payload) : UInt16 :=
  let sum := int2Checksum connID + int2Checksum seqNum + int2Checksum size +
    byteArray2Checksum payload
  ~~~ (foldSum 2 sum).toUInt16

/-- One round is an end-around carry. -/
theorem fold_endAround (s : UInt32) :
    ((s >>> 16 &&& 0xffff) + (s &&& 0xffff)).toNat = endAround s.toNat := by
  have bound := s.toNat_lt
  have upper : (s >>> 16 &&& 0xffff).toNat = s.toNat / 65536 := by
    rw [UInt32.toNat_and, UInt32.toNat_shiftRight]
    simp only [UInt32.reduceToNat, Nat.reduceMod, Nat.shiftRight_eq_div_pow, Nat.reducePow]
    rw [show (65535 : Nat) = 2 ^ 16 - 1 from rfl, Nat.and_two_pow_sub_one_eq_mod]
    omega
  have lower : (s &&& 0xffff).toNat = s.toNat % 65536 := by
    rw [UInt32.toNat_and]
    simp only [UInt32.reduceToNat]
    rw [show (65535 : Nat) = 2 ^ 16 - 1 from rfl, Nat.and_two_pow_sub_one_eq_mod]
  rw [UInt32.toNat_add, upper, lower, endAround]
  omega

/-- Two rounds are enough: the first leaves at most 17 bits. -/
theorem foldSum_done (sum : UInt32) : foldSum 2 sum ≤ 0xffff := by
  have bound := sum.toNat_lt
  rw [UInt32.le_iff_toNat_le]
  simp only [foldSum, UInt32.lt_iff_toNat_lt]
  split
  · split
    · rename_i first second
      rw [fold_endAround] at second ⊢
      rw [fold_endAround]
      simp only [UInt32.reduceToNat, endAround] at first second ⊢
      omega
    · rename_i first second
      exact Nat.le_of_not_lt second
  · rename_i first
    exact Nat.le_of_not_lt first

theorem foldSum_mod (fuel : Nat) (sum : UInt32) :
    (foldSum fuel sum).toNat % 65535 = sum.toNat % 65535 := by
  induction fuel generalizing sum with
  | zero => rfl
  | succ fuel ih =>
    unfold foldSum
    split
    · rw [ih, fold_endAround, endAround_mod]
    · rfl

/-- A data message as an endpoint builds it. -/
def dataMessage (connID seqNum : Int) (payload : Payload) : Message :=
  newData connID seqNum payload.length payload
    (calculateChecksum connID seqNum payload.length payload)

/-- The check of a decoded message. `none` is a slice out of range: a size below zero. The
inner `none` is a message that is dropped. -/
def ciqlyoibuh (m : Message) : Option (Option Message) :=
  if m.type ≠ .data then some (some m)
  else if (m.payload.length : Int) < m.size then some none
  else if m.size < (m.payload.length : Int) then
    if m.size < 0 then none else some (some { m with payload := m.payload.take m.size.toNat })
  else some (some m)

/-- What is built by an endpoint passes unchanged. -/
theorem ciqlyoibuh_data (connID seqNum : Int) (payload : Payload) :
    ciqlyoibuh (dataMessage connID seqNum payload) =
      some (some (dataMessage connID seqNum payload)) := by
  simp [ciqlyoibuh, dataMessage, newData]

/-- At most the payload is changed. -/
theorem ciqlyoibuh_kind {m m' : Message} (passes : ciqlyoibuh m = some (some m')) :
    m'.type = m.type ∧ m'.seqNum = m.seqNum ∧ m'.connID = m.connID := by
  unfold ciqlyoibuh at passes
  split at passes
  · cases Option.some.inj (Option.some.inj passes)
    exact ⟨rfl, rfl, rfl⟩
  split at passes
  · cases Option.some.inj passes
  split at passes
  · split at passes
    · contradiction
    · cases Option.some.inj (Option.some.inj passes)
      exact ⟨rfl, rfl, rfl⟩
  · cases Option.some.inj (Option.some.inj passes)
    exact ⟨rfl, rfl, rfl⟩

end DistSys.Lsp
