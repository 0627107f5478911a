import DistSys.Lsp.Endpoint
import Mathlib.Data.List.Perm.Basic

/-! The loops that a received message starts, round by round. Out of fuel is `none`: the loop has
not ended. With enough fuel they give what the functions of the endpoint say. -/
namespace DistSys.Lsp

open DistSys.Lib

variable {l l' : Bxnzsdj} {m : Message} {seqNum i : Int} {fuel : Nat}

/-- The loop of `bvmndthe`. -/
def drainRounds : Nat → Bxnzsdj → Option Bxnzsdj
  | 0, _ => none
  | fuel + 1, l => match l.aptnek.lookup l.bnmslkllh with
    | none => some l
    | some payload => drainRounds fuel (l.pass payload)

/-- The loop of `ngkdlse`. -/
def fillRounds : Nat → Int → Bxnzsdj → Option Bxnzsdj
  | 0, _, _ => none
  | fuel + 1, minPendingSeqNum, l => match l.ffieiqwlhhh with
    | [] => some l
    | payload :: rest =>
      if l.frontSeqNum < goInt (minPendingSeqNum + l.heee8w) ∧
          (Map.size l.qqbakktl : Int) < l.mmgkelwz then
        fillRounds fuel
          (if l.frontSeqNum < minPendingSeqNum then l.frontSeqNum else minPendingSeqNum)
          (l.sendFront payload rest)
      else some l

/-- The loop of `vvvjlurqbu` over the numbers up to that of a cumulative acknowledgement; the flag
is whether one of them was waited for. -/
def ackRounds (seqNum : Int) : Nat → Int → Bxnzsdj → Bool → Option (Bxnzsdj × Bool)
  | 0, _, _, _ => none
  | fuel + 1, i, l, sfgokpsfksp =>
    if i ≤ seqNum then
      if i ∈ l.qqbakktl then ackRounds seqNum fuel (goInt (i + 1)) (l.forget i) true
      else ackRounds seqNum fuel (goInt (i + 1)) l sfgokpsfksp
    else some (l, sfgokpsfksp)

namespace Bxnzsdj

def ngkdlseRounds (fuel : Nat) (l : Bxnzsdj) : Option Bxnzsdj :=
  fillRounds fuel l.minPendingSeqNum l

def bvmndtheRounds (fuel : Nat) (l : Bxnzsdj) (m : Message) : Option Bxnzsdj :=
  if l.hhwhhqnhh = true ∨ l.rdcppgudji = 0 then some l
  else if goInt (l.bnmslkllh + l.heee8w) ≤ m.seqNum then some l
  else if calculateChecksum m.connID m.seqNum m.size m.payload ≠ m.checksum then some l
  else
    let acked := l.lbzxtomtos (newAck l.rdcppgudji m.seqNum)
    if m.seqNum < l.bnmslkllh then some acked
    else drainRounds fuel (acked.keep m.seqNum m.payload)

def vvvjlurqbuRounds (fuel : Nat) (l : Bxnzsdj) (m : Message) : Option Bxnzsdj :=
  if l.hhwhhqnhh then some l
  else if l.rdcppgudji = 0 then
    if m.seqNum = l.gksmgskml then some { l with rdcppgudji := m.connID } else some l
  else if m.seqNum ≠ 0 then
    if m.type = .ack then
      if m.seqNum ∈ l.qqbakktl then (l.forget m.seqNum).ngkdlseRounds fuel else some l
    else if m.type = .cAck then do
      let (acked, sfgokpsfksp) ← ackRounds m.seqNum fuel (goInt l.minPendingSeq) l false
      if sfgokpsfksp then acked.ngkdlseRounds fuel else some acked
    else some l
  else some l

def qtbejekwRounds (fuel : Nat) (l : Bxnzsdj) (m : Message) : Option Bxnzsdj :=
  match m.type with
  | .connect => some { l with tttbejw := true }
  | .data => (l.bvmndtheRounds fuel m).map fun l => { l with tttbejw := true }
  | .ack | .cAck => l.vvvjlurqbuRounds fuel m
  | .other _ => none

end Bxnzsdj

/-! ### Loops that take something out in every round -/

theorem drain_missing (missing : l.aptnek.lookup l.bnmslkllh = none) (fuel : Nat) :
    drain fuel l = l := by
  cases fuel with
  | zero => rfl
  | succ fuel =>
    unfold drain
    rw [missing]

theorem drainRounds_enough (enough : Map.size l.aptnek < fuel) :
    drainRounds fuel l = some (drain (Map.size l.aptnek) l) := by
  induction fuel generalizing l with
  | zero => exact absurd enough (Nat.not_lt_zero _)
  | succ fuel ih =>
    unfold drainRounds
    split
    · rename_i missing
      rw [drain_missing missing]
    · rename_i payload found
      have size := Map.size_erase (Map.mem_of_lookup found)
      have passed : Map.size (l.pass payload).aptnek + 1 = Map.size l.aptnek := size
      rw [ih (by omega), ← passed]
      conv_rhs => rw [drain, found]

theorem fillRounds_enough {minPendingSeqNum : Int} (enough : l.ffieiqwlhhh.length < fuel) :
    fillRounds fuel minPendingSeqNum l =
      some (fillWindow l.ffieiqwlhhh.length minPendingSeqNum l) := by
  induction fuel generalizing l minPendingSeqNum with
  | zero => exact absurd enough (Nat.not_lt_zero _)
  | succ fuel ih =>
    unfold fillRounds
    cases waits : l.ffieiqwlhhh with
    | nil => rfl
    | cons payload rest =>
      rw [waits] at enough
      simp only [List.length_cons, fillWindow, waits]
      split
      · exact ih (Nat.lt_of_succ_lt_succ enough)
      · rfl

theorem ngkdlseRounds_enough (enough : l.ffieiqwlhhh.length < fuel) :
    l.ngkdlseRounds fuel = some l.ngkdlse :=
  fillRounds_enough enough

/-! ### The loop that counts up -/

/-- Below the largest `int` the loop comes to its end, and the numbers it takes out are those that
were waited for between the two ends. -/
theorem ackRounds_enough (low : -9223372036854775808 ≤ i) (high : i ≤ maxInt)
    (below : seqNum < maxInt) (fuel : Nat) (enough : (seqNum + 1 - i).toNat < fuel)
    (sfgokpsfksp : Bool) :
    ∃ acked : List Int, acked.Nodup ∧
      (∀ k, k ∈ acked ↔ k ∈ l.qqbakktl ∧ i ≤ k ∧ k ≤ seqNum) ∧
      ackRounds seqNum fuel i l sfgokpsfksp =
        some (acked.foldl Bxnzsdj.forget l, sfgokpsfksp || !acked.isEmpty) := by
  induction fuel generalizing i l sfgokpsfksp with
  | zero => exact absurd enough (Nat.not_lt_zero _)
  | succ fuel ih =>
    unfold ackRounds
    by_cases more : i ≤ seqNum
    · have next : goInt (i + 1) = i + 1 := goInt_of_range (by omega) (by omega)
      rw [if_pos more, next]
      by_cases waited : i ∈ l.qqbakktl
      · rw [if_pos waited]
        obtain ⟨acked, nodup, members, done⟩ :=
          ih (i := i + 1) (l := l.forget i) (by omega) (by omega) (by omega) true
        refine ⟨i :: acked, List.nodup_cons.mpr ⟨?_, nodup⟩, ?_, ?_⟩
        · intro again
          have later := ((members i).mp again).2.1
          omega
        · intro k
          rw [List.mem_cons, members]
          simp only [Bxnzsdj.forget, AList.mem_erase]
          constructor
          · rintro (rfl | ⟨⟨-, there⟩, above, under⟩)
            · exact ⟨waited, Int.le_refl _, more⟩
            · exact ⟨there, by omega, under⟩
          · rintro ⟨there, above, under⟩
            by_cases first : k = i
            · exact .inl first
            · exact .inr ⟨⟨first, there⟩, by omega, under⟩
        · rw [done]
          simp
      · rw [if_neg waited]
        obtain ⟨acked, nodup, members, done⟩ :=
          ih (i := i + 1) (l := l) (by omega) (by omega) (by omega) sfgokpsfksp
        refine ⟨acked, nodup, ?_, done⟩
        intro k
        rw [members]
        constructor
        · rintro ⟨there, above, under⟩
          exact ⟨there, by omega, under⟩
        · rintro ⟨there, above, under⟩
          have other : k ≠ i := by
            rintro rfl
            exact waited there
          exact ⟨there, by omega, under⟩
    · rw [if_neg more]
      refine ⟨[], List.nodup_nil, ?_, by simp⟩
      intro k
      simp only [List.not_mem_nil, false_iff, not_and]
      intro _ above
      omega

/-- No `int` is above the largest one: the loop never ends. -/
theorem ackRounds_stuck (last : maxInt ≤ seqNum) (high : i ≤ maxInt) (fuel : Nat)
    (sfgokpsfksp : Bool) : ackRounds seqNum fuel i l sfgokpsfksp = none := by
  induction fuel generalizing i l sfgokpsfksp with
  | zero => rfl
  | succ fuel ih =>
    unfold ackRounds
    rw [if_pos (Int.le_trans high last)]
    split
    · exact ih (goInt_range _).2 _
    · exact ih (goInt_range _).2 _

theorem forget_pending (acked : List Int) (l : Bxnzsdj) :
    (acked.foldl Bxnzsdj.forget l).ffieiqwlhhh = l.ffieiqwlhhh := by
  induction acked generalizing l with
  | nil => rfl
  | cons k rest ih => exact ih (l.forget k)

/-- The order in which numbers are acknowledged does not matter. -/
instance : RightCommutative Bxnzsdj.forget where
  right_comm l i k := by simp only [Bxnzsdj.forget, AList.erase_erase]

/-! ### A received message -/

theorem bvmndtheRounds_enough (enough : Map.size l.aptnek + 1 < fuel) :
    l.bvmndtheRounds fuel m = some (l.bvmndthe m) := by
  unfold Bxnzsdj.bvmndtheRounds Bxnzsdj.bvmndthe
  split
  · rfl
  split
  · rfl
  split
  · rfl
  dsimp only
  split
  · rfl
  · apply drainRounds_enough
    have kept : Map.size (((l.lbzxtomtos (newAck l.rdcppgudji m.seqNum)).keep
        m.seqNum m.payload).aptnek) ≤ Map.size l.aptnek + 1 := by
      simp only [Bxnzsdj.keep, Bxnzsdj.lbzxtomtos]
      by_cases old : m.seqNum ∈ l.aptnek
      · rw [← Map.insert_erase, Map.size_insert _ (by simp [AList.mem_erase]), Map.size_erase old]
        exact Nat.le_succ _
      · rw [Map.size_insert _ old]
    omega

/-- The loop of a cumulative acknowledgement takes out the keys that `vvvjlurqbu` says, in another
order, if the numbers of the endpoint are `int`s. -/
theorem ackRounds_covers (l : Bxnzsdj) (below : seqNum < maxInt) :
    ∃ fuel acked, l.ffieiqwlhhh.length < fuel ∧
      ackRounds seqNum fuel (goInt l.minPendingSeq) l false =
        some (acked.foldl Bxnzsdj.forget l, !acked.isEmpty) ∧
      (-9223372036854775808 ≤ l.minPendingSeq → l.minPendingSeq ≤ maxInt →
        (l.qqbakktl.keys.filter fun i => l.minPendingSeq ≤ i ∧ i ≤ seqNum).Perm acked) := by
  obtain ⟨low, high⟩ := goInt_range l.minPendingSeq
  have enough : ∃ fuel, (seqNum + 1 - goInt l.minPendingSeq).toNat < fuel ∧
      l.ffieiqwlhhh.length < fuel :=
    ⟨(seqNum + 1 - goInt l.minPendingSeq).toNat + l.ffieiqwlhhh.length + 1, by omega, by omega⟩
  obtain ⟨fuel, time, room⟩ := enough
  obtain ⟨acked, nodup, members, done⟩ :=
    ackRounds_enough (l := l) low high below fuel time false
  refine ⟨fuel, acked, room, by simpa using done, ?_⟩
  intro low high
  rw [List.perm_ext_iff_of_nodup (l.qqbakktl.keys_nodup.filter _) nodup]
  intro k
  rw [members, goInt_of_range low high, List.mem_filter, decide_eq_true_iff]
  exact Iff.rfl

/-- An acknowledgement whose number is not the largest `int` is done after finitely many rounds,
and if the numbers of the endpoint are `int`s it has done what `vvvjlurqbu` says. -/
theorem vvvjlurqbuRounds_ends (l : Bxnzsdj) (m : Message)
    (below : m.type = .cAck → m.seqNum < maxInt) :
    ∃ fuel l', l.vvvjlurqbuRounds fuel m = some l' ∧
      (-9223372036854775808 ≤ l.minPendingSeq → l.minPendingSeq ≤ maxInt →
        l.vvvjlurqbu m = some l') := by
  unfold Bxnzsdj.vvvjlurqbuRounds Bxnzsdj.vvvjlurqbu
  split
  · exact ⟨0, l, rfl, fun _ _ => rfl⟩
  split
  · split
    · exact ⟨0, _, rfl, fun _ _ => rfl⟩
    · exact ⟨0, l, rfl, fun _ _ => rfl⟩
  split
  · split
    · split
      · exact ⟨_, _, ngkdlseRounds_enough (Nat.lt_succ_self _), fun _ _ => rfl⟩
      · exact ⟨0, l, rfl, fun _ _ => rfl⟩
    split
    · rename_i cumulative
      have number := below cumulative
      obtain ⟨fuel, acked, room, done, same⟩ := ackRounds_covers l number
      have ends : ∀ l', (if acked ≠ [] then (acked.foldl Bxnzsdj.forget l).ngkdlse else l) = l' →
          ((ackRounds m.seqNum fuel (goInt l.minPendingSeq) l false).bind fun acked =>
            if acked.2 = true then acked.1.ngkdlseRounds fuel else some acked.1) = some l' := by
        rintro l' rfl
        rw [done, Option.bind_some]
        cases acked with
        | nil => rfl
        | cons k rest =>
          have sends : ((k :: rest).foldl Bxnzsdj.forget l).ngkdlseRounds fuel = _ :=
            ngkdlseRounds_enough (by rwa [forget_pending])
          simpa using sends
      refine ⟨fuel, _, ends _ rfl, ?_⟩
      intro low high
      have perm := same low high
      rw [if_neg (Int.ne_of_lt number)]
      dsimp only
      rw [perm.foldl_eq l]
      by_cases none : acked = []
      · subst none
        rw [perm.eq_nil]
        rfl
      · have some : (l.qqbakktl.keys.filter fun i => l.minPendingSeq ≤ i ∧ i ≤ m.seqNum) ≠ [] := by
          intro empty
          rw [empty] at perm
          exact none perm.symm.eq_nil
        rw [if_pos none, if_pos some]
    · exact ⟨0, l, rfl, fun _ _ => rfl⟩
  · exact ⟨0, l, rfl, fun _ _ => rfl⟩

/-- A cumulative acknowledgement of the largest `int` never comes to an end at an endpoint with an
id. -/
theorem vvvjlurqbuRounds_stuck (takes : l.hhwhhqnhh = false) (id : l.rdcppgudji ≠ 0)
    (cumulative : m.type = .cAck) (number : maxInt ≤ m.seqNum) (fuel : Nat) :
    l.vvvjlurqbuRounds fuel m = none := by
  have nonzero : m.seqNum ≠ 0 := by
    rw [maxInt] at number
    omega
  simp [Bxnzsdj.vvvjlurqbuRounds, takes, id, cumulative, nonzero,
    ackRounds_stuck number (goInt_range l.minPendingSeq).2]

/-- What keeps a message from panicking and from running for ever: its type is known, and the number
of a cumulative acknowledgement is not the largest `int`. -/
def Message.Answerable (m : Message) : Prop :=
  (∀ code, m.type ≠ .other code) ∧ (m.type = .cAck → m.seqNum < maxInt)

theorem qtbejekwRounds_ends (l : Bxnzsdj) (answerable : m.Answerable) :
    ∃ fuel l', l.qtbejekwRounds fuel m = some l' ∧
      (-9223372036854775808 ≤ l.minPendingSeq → l.minPendingSeq ≤ maxInt →
        l.qtbejekw m = some l') := by
  cases kind : m.type with
  | connect =>
    simp only [Bxnzsdj.qtbejekwRounds, Bxnzsdj.qtbejekw, kind]
    exact ⟨0, _, rfl, fun _ _ => rfl⟩
  | data =>
    simp only [Bxnzsdj.qtbejekwRounds, Bxnzsdj.qtbejekw, kind]
    have drained := bvmndtheRounds_enough (l := l) (m := m) (Nat.lt_succ_self _)
    exact ⟨_, _, by rw [drained]; rfl, fun _ _ => rfl⟩
  | ack | cAck =>
    simp only [Bxnzsdj.qtbejekwRounds, Bxnzsdj.qtbejekw, kind]
    exact vvvjlurqbuRounds_ends l m answerable.2
  | other code => exact absurd kind (answerable.1 code)

end DistSys.Lsp
