import DistSys.Lsp.Message
import DistSys.Lib.Maps
import Mathlib.Logic.Function.Basic

/-! One end of a connection. The source's names are kept: they are scrambled there, so each
field says what it holds. The epoch goroutine `zguucznusf` only serialises the two counters
`qbnwkal` and `wbjkdfjd`; its channels are reads and writes of them here. Go's `int` counters
are integers; the two window tests add the window size in 64 bits, as Go does, and no payload
with a number above the largest `int` passes them. `none` is a panic or a call that does not
return. -/
namespace DistSys.Lsp

open Function (update)
open DistSys.Lib

/-- The function that the source adds to, and indexes with, almost everywhere. In Go the
operators of its test have one precedence. -/
def kpgmmcbeep (uedqdqolaf : BitVec 64) : BitVec 64 :=
  let ehfvvwjohz := 9921
  if (((uedqdqolaf ^^^ uedqdqolaf) ||| ehfvvwjohz) ^^^ ehfvvwjohz) + 1 = 5 then
    uedqdqolaf ^^^ (uedqdqolaf &&& ehfvvwjohz)
  else uedqdqolaf ^^^ uedqdqolaf

/-- It is zero, and below the zero is put in wherever the source calls it. -/
theorem kpgmmcbeep_zero (uedqdqolaf : BitVec 64) : kpgmmcbeep uedqdqolaf = 0 := by
  simp [kpgmmcbeep]

/-- The largest value of Go's `int`. -/
def maxInt : Int := 2 ^ 63 - 1

/-- What an `int` holds after arithmetic: 64 bits of it. -/
def goInt (i : Int) : Int := (i + 9223372036854775808) % 18446744073709551616 - 9223372036854775808

theorem goInt_range (i : Int) : -9223372036854775808 ≤ goInt i ∧ goInt i ≤ maxInt := by
  simp only [goInt, maxInt]
  omega

theorem goInt_of_range {i : Int} (low : -9223372036854775808 ≤ i) (high : i ≤ maxInt) :
    goInt i = i := by
  simp only [goInt, maxInt] at high ⊢
  omega

theorem goInt_le {i : Int} (low : -9223372036854775808 ≤ i) : goInt i ≤ i := by
  simp only [goInt]
  omega

structure Bxnzsdj where
  /-- the window size -/
  heee8w : Int
  /-- the number of silent epochs after which the connection is lost -/
  lksdkwkq : Int
  /-- the longest back-off, in epochs -/
  ppwens : Int
  /-- the current epoch -/
  qbnwkal : Int
  /-- the epoch of the last datagram -/
  wbjkdfjd : Int
  /-- how many messages may be unacknowledged -/
  mmgkelwz : Int
  /-- something has come in during this epoch -/
  tttbejw : Bool
  /-- the connection id, 0 while it is not known -/
  rdcppgudji : Int
  /-- stops the end from taking messages; nothing sets it -/
  hhwhhqnhh : Bool
  /-- payloads that wait to be sent -/
  ffieiqwlhhh : List Payload
  /-- payloads that were sent and not acknowledged -/
  qqbakktl : Map Int Payload
  /-- the back-off of each sent message -/
  ssssshhwhh : Int → Int
  /-- the epochs until each sent message is sent again -/
  rrrrrqwrqrkk : Int → Int
  /-- the sequence number behind the last payload that was written -/
  hooppjkl : Int
  /-- datagrams that wait for the socket -/
  rfxtuoncvn : List Message
  /-- payloads in order that wait to be read -/
  asdfghj : List Payload
  /-- payloads that came out of order -/
  aptnek : Map Int Payload
  /-- the sequence number that is expected next -/
  bnmslkllh : Int
  /-- the initial sequence number -/
  gksmgskml : Int

structure Params where
  epochLimit : Int
  windowSize : Int
  maxBackOffInterval : Int
  maxUnackedMessages : Int
  deriving DecidableEq, Repr

/-- `lbzxtomtos`: a message is put into the buffer of the socket. -/
def Bxnzsdj.lbzxtomtos (l : Bxnzsdj) (m : Message) : Bxnzsdj :=
  { l with rfxtuoncvn := l.rfxtuoncvn ++ [m] }

/-- The end of a client: it does not know its connection id and asks for one. -/
def fnlwefjbun (gksmgskml : Int) (params : Params) : Bxnzsdj where
  heee8w := params.windowSize
  lksdkwkq := params.epochLimit
  ppwens := params.maxBackOffInterval
  qbnwkal := 0
  wbjkdfjd := 0
  mmgkelwz := params.maxUnackedMessages
  tttbejw := false
  rdcppgudji := 0
  hhwhhqnhh := false
  ffieiqwlhhh := []
  qqbakktl := ∅
  ssssshhwhh := fun _ => 0
  rrrrrqwrqrkk := fun _ => 0
  hooppjkl := gksmgskml + 1
  rfxtuoncvn := [newConnect gksmgskml]
  asdfghj := []
  aptnek := ∅
  bnmslkllh := 1 + gksmgskml
  gksmgskml := gksmgskml

/-- The end that a server makes for a connect message: it acknowledges it. -/
def nfkdlws (gksmgskml : Int) (params : Params) (connId : Int) : Bxnzsdj :=
  { fnlwefjbun gksmgskml params with
    rdcppgudji := connId
    rfxtuoncvn := [newAck connId gksmgskml] }

/-- Whether the connection is lost. -/
def Bxnzsdj.jfkdl (l : Bxnzsdj) : Bool := l.lksdkwkq ≤ l.qbnwkal - l.wbjkdfjd

/-- `bbjdkslwoorun`: a datagram has come in. -/
def Bxnzsdj.bbjdkslwoorun (l : Bxnzsdj) : Bxnzsdj := { l with wbjkdfjd := l.qbnwkal }

/-- Whether there is something to read. -/
def Bxnzsdj.rkdlxleik (l : Bxnzsdj) : Bool := l.asdfghj ≠ []

def Bxnzsdj.odkejnfsa (l : Bxnzsdj) : Option (Payload × Bxnzsdj) :=
  if l.rdcppgudji = 0 then none
  else match l.asdfghj with
    | [] => none
    | payload :: rest => some (payload, { l with asdfghj := rest })

/-- Whether all that was written has been acknowledged. -/
def Bxnzsdj.agabsdjgdfj (l : Bxnzsdj) : Bool :=
  Map.size l.qqbakktl + l.ffieiqwlhhh.length = 0

def Bxnzsdj.bnmgrlr (l : Bxnzsdj) : List Message × Bxnzsdj :=
  (l.rfxtuoncvn, { l with rfxtuoncvn := [] })

/-! ### Sending -/

/-- The number of the first payload that waits. -/
def Bxnzsdj.frontSeqNum (l : Bxnzsdj) : Int := l.hooppjkl - l.ffieiqwlhhh.length

def Bxnzsdj.minPendingSeqNum (l : Bxnzsdj) : Int :=
  l.qqbakktl.keys.foldl
    (fun least seqnum => if seqnum < least ∨ least = 0 then seqnum else least) l.frontSeqNum

/-- The first payload that waits is sent. -/
def Bxnzsdj.sendFront (l : Bxnzsdj) (payload : Payload) (rest : List Payload) : Bxnzsdj :=
  let frontSeqNum := l.frontSeqNum
  { l with
    qqbakktl := l.qqbakktl.insert frontSeqNum payload
    ssssshhwhh := update l.ssssshhwhh frontSeqNum (if l.ppwens < 1 then l.ppwens else 1)
    rrrrrqwrqrkk := update l.rrrrrqwrqrkk frontSeqNum 0
    rfxtuoncvn := l.rfxtuoncvn ++ [dataMessage l.rdcppgudji frontSeqNum payload]
    ffieiqwlhhh := rest }

/-- The loop of `ngkdlse`; every round takes one payload that waits. -/
def fillWindow : Nat → Int → Bxnzsdj → Bxnzsdj
  | 0, _, l => l
  | fuel + 1, minPendingSeqNum, l => match l.ffieiqwlhhh with
    | [] => l
    | payload :: rest =>
      if l.frontSeqNum < goInt (minPendingSeqNum + l.heee8w) ∧
          (Map.size l.qqbakktl : Int) < l.mmgkelwz then
        fillWindow fuel
          (if l.frontSeqNum < minPendingSeqNum then l.frontSeqNum else minPendingSeqNum)
          (l.sendFront payload rest)
      else l

def Bxnzsdj.ngkdlse (l : Bxnzsdj) : Bxnzsdj :=
  fillWindow l.ffieiqwlhhh.length l.minPendingSeqNum l

def Bxnzsdj.gkxcls (l : Bxnzsdj) (payload : Payload) : Option Bxnzsdj :=
  if l.rdcppgudji = 0 then none
  else if l.jfkdl then none
  else some { l with
    ffieiqwlhhh := l.ffieiqwlhhh ++ [payload]
    hooppjkl := l.hooppjkl + 1 }.ngkdlse

/-! ### Receiving -/

/-- The payload that is expected moves to the read queue. -/
def Bxnzsdj.pass (l : Bxnzsdj) (payload : Payload) : Bxnzsdj :=
  { l with
    asdfghj := l.asdfghj ++ [payload]
    aptnek := l.aptnek.erase l.bnmslkllh
    bnmslkllh := l.bnmslkllh + 1 }

/-- The loop of `bvmndthe`; every round takes one payload out of `aptnek`. -/
def drain : Nat → Bxnzsdj → Bxnzsdj
  | 0, l => l
  | fuel + 1, l => match l.aptnek.lookup l.bnmslkllh with
    | none => l
    | some payload => drain fuel (l.pass payload)

def Bxnzsdj.keep (l : Bxnzsdj) (seqNum : Int) (payload : Payload) : Bxnzsdj :=
  { l with aptnek := l.aptnek.insert seqNum payload }

/-- A data message: it is acknowledged if it is not beyond the window, and kept if it is new. -/
def Bxnzsdj.bvmndthe (l : Bxnzsdj) (m : Message) : Bxnzsdj :=
  if l.hhwhhqnhh = true ∨ l.rdcppgudji = 0 then l
  else if goInt (l.bnmslkllh + l.heee8w) ≤ m.seqNum then l
  else if calculateChecksum m.connID m.seqNum m.size m.payload ≠ m.checksum then l
  else
    let acked := l.lbzxtomtos (newAck l.rdcppgudji m.seqNum)
    if m.seqNum < l.bnmslkllh then acked
    else
      let kept := acked.keep m.seqNum m.payload
      drain (Map.size kept.aptnek) kept

def Bxnzsdj.forget (l : Bxnzsdj) (seqNum : Int) : Bxnzsdj :=
  { l with qqbakktl := l.qqbakktl.erase seqNum }

/-- The least number that a cumulative acknowledgement looks at. -/
def Bxnzsdj.minPendingSeq (l : Bxnzsdj) : Int :=
  l.qqbakktl.keys.foldl
    (fun least seq => if seq < least then seq else if least = 0 then seq else least) l.frontSeqNum

/-- An acknowledgement. Without a connection id it can only bring one. The loop of a
cumulative one runs up to its number; it does not end if that is the largest `int`. -/
def Bxnzsdj.vvvjlurqbu (l : Bxnzsdj) (m : Message) : Option Bxnzsdj :=
  if l.hhwhhqnhh then some l
  else if l.rdcppgudji = 0 then
    if m.seqNum = l.gksmgskml then some { l with rdcppgudji := m.connID } else some l
  else if m.seqNum ≠ 0 then
    if m.type = .ack then
      if m.seqNum ∈ l.qqbakktl then some (l.forget m.seqNum).ngkdlse else some l
    else if m.type = .cAck then
      if m.seqNum = maxInt then none
      else
        let covered := l.qqbakktl.keys.filter fun i => l.minPendingSeq ≤ i ∧ i ≤ m.seqNum
        if covered ≠ [] then some (covered.foldl Bxnzsdj.forget l).ngkdlse else some l
    else some l
  else some l

def Bxnzsdj.qtbejekw (l : Bxnzsdj) (m : Message) : Option Bxnzsdj :=
  match m.type with
  | .connect => some { l with tttbejw := true }
  | .data => some { l.bvmndthe m with tttbejw := true }
  | .ack | .cAck => l.vvvjlurqbu m
  | .other _ => none

/-! ### The epoch -/

/-- One unacknowledged message in an epoch: it is sent again when its back-off is over. -/
def resend (l : Bxnzsdj) (seqNum : Int) (payload : Payload) : Bxnzsdj :=
  if l.rrrrrqwrqrkk seqNum = 0 then
    { l with
      rfxtuoncvn := l.rfxtuoncvn ++ [dataMessage l.rdcppgudji seqNum payload]
      rrrrrqwrqrkk := update l.rrrrrqwrqrkk seqNum (l.ssssshhwhh seqNum)
      ssssshhwhh := update l.ssssshhwhh seqNum
        (if l.ppwens < l.ssssshhwhh seqNum + l.ssssshhwhh seqNum then l.ppwens
          else l.ssssshhwhh seqNum + l.ssssshhwhh seqNum) }
  else { l with rrrrrqwrqrkk := update l.rrrrrqwrqrkk seqNum (l.rrrrrqwrqrkk seqNum - 1) }

def resendAll (l : Bxnzsdj) (entries : List (Σ _ : Int, Payload)) : Bxnzsdj :=
  entries.foldl (fun l entry => resend l entry.1 entry.2) l

/-- The part of an epoch for a connection that lives. -/
def Bxnzsdj.speakUp (l : Bxnzsdj) : Bxnzsdj :=
  let resent := resendAll l l.qqbakktl.entries
  if resent.tttbejw then resent else resent.lbzxtomtos (newAck resent.rdcppgudji 0)

/-- `llehwkas`: the epoch goroutine counts one more epoch. -/
def Bxnzsdj.llehwkas (l : Bxnzsdj) : Bxnzsdj := { l with qbnwkal := l.qbnwkal + 1 }

/-- What `tyhdjska` does once the epoch is counted. -/
def Bxnzsdj.sayEpoch (l : Bxnzsdj) : Bxnzsdj :=
  let spoken := if 0 < l.rdcppgudji ∧ ¬ l.jfkdl then l.speakUp else l
  let asked := if spoken.rdcppgudji = 0 then spoken.lbzxtomtos (newConnect spoken.gksmgskml) else spoken
  { asked with tttbejw := false }

def Bxnzsdj.tyhdjska (l : Bxnzsdj) : Bxnzsdj := l.llehwkas.sayEpoch

end DistSys.Lsp
