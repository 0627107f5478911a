import DistSys.Lib.Runs
import DistSys.Lsp.Window

/-! One end of a connection by itself: whoever holds it calls it in any order, and any message may
come. With it the numbers of the messages that it has sent, and what keeps the other end waiting for
it: the heartbeat. -/
namespace DistSys.Lsp

open DistSys.Lib

/-! ### An end and its callers -/

/-- `epoch` and `speak` are the two halves of `tyhdjska`: the goroutine that reads the socket may say
that something was `heard` between them. -/
inductive EndAction
  | write (payload : Payload)
  | read
  | hear (m : Message)
  | heard
  | flush
  | epoch
  | speak
  deriving DecidableEq

def endStep (l : Bxnzsdj) : EndAction → Option Bxnzsdj
  | .write payload => l.gkxcls payload
  | .read => l.odkejnfsa.map Prod.snd
  | .hear m => l.qtbejekw m
  | .heard => some l.bbjdkslwoorun
  | .flush => some l.bnmgrlr.2
  | .epoch => some l.llehwkas
  | .speak => some l.sayEpoch

/-- An end as a client or a server makes it. -/
inductive NewEnd (isn : Int) (params : Params) : Bxnzsdj → Prop where
  | client : NewEnd isn params (fnlwefjbun isn params)
  | server (connId : Int) : NewEnd isn params (nfkdlws isn params connId)

/-- One call, with what is known where it is taken. -/
inductive EndTurn (l : Bxnzsdj) : EndAction → Bxnzsdj → Prop where
  | write {payload} (known : l.rdcppgudji ≠ 0) : EndTurn l (.write payload) { l with
      ffieiqwlhhh := l.ffieiqwlhhh ++ [payload]
      hooppjkl := l.hooppjkl + 1 }.ngkdlse
  | read {rest} : EndTurn l .read { l with asdfghj := rest }
  | connect {m} (kind : m.type = .connect) : EndTurn l (.hear m) { l with tttbejw := true }
  | data {m} (kind : m.type = .data) : EndTurn l (.hear m) { l.bvmndthe m with tttbejw := true }
  | ignored {m} : EndTurn l (.hear m) l
  | connected {m} (unknown : l.rdcppgudji = 0) : EndTurn l (.hear m) { l with rdcppgudji := m.connID }
  | settled {m} {acked : List Int} (known : l.rdcppgudji ≠ 0) (unacked : ∀ s ∈ acked, s ∈ l.qqbakktl) :
      EndTurn l (.hear m) (acked.foldl Bxnzsdj.forget l).ngkdlse
  | heard : EndTurn l .heard l.bbjdkslwoorun
  | flush : EndTurn l .flush l.bnmgrlr.2
  | epoch : EndTurn l .epoch l.llehwkas
  | speak : EndTurn l .speak l.sayEpoch

variable {isn : Int} {params : Params} {l l' : Bxnzsdj} {a : EndAction} {acts : List EndAction}

theorem qtbejekw_turn {m : Message} (taken : l.qtbejekw m = some l') : EndTurn l (.hear m) l' := by
  unfold Bxnzsdj.qtbejekw at taken
  have acks : ∀ {l'}, AckStep l m l' → EndTurn l (.hear m) l' := by
    intro l' step
    cases step with
    | ignored => exact .ignored
    | connected unknown => exact .connected unknown
    | settled known acked _ unacked => exact .settled known unacked
  split at taken
  · rename_i kind
    cases Option.some.inj taken
    exact .connect kind
  · rename_i kind
    cases Option.some.inj taken
    exact .data kind
  · exact acks (vvvjlurqbu_cases taken)
  · exact acks (vvvjlurqbu_cases taken)
  · contradiction

theorem endStep_cases (taken : endStep l a = some l') : EndTurn l a l' := by
  cases a with
  | write payload =>
    obtain ⟨known, -, rfl⟩ := gkxcls_cases taken
    exact .write known
  | read =>
    obtain ⟨⟨payload, l''⟩, read, rfl⟩ := Option.map_eq_some_iff.mp taken
    rw [(odkejnfsa_cases read).2.2]
    exact .read
  | hear m => exact qtbejekw_turn taken
  | heard =>
    cases Option.some.inj taken
    exact .heard
  | flush =>
    cases Option.some.inj taken
    exact .flush
  | epoch =>
    cases Option.some.inj taken
    exact .epoch
  | speak =>
    cases Option.some.inj taken
    exact .speak

theorem EndMove.step {arrives : Message → Prop} {w r : List Payload} {sent : List Message}
    (move : EndMove arrives l l' w r sent) : ∃ a, endStep l a = some l' := by
  cases move with
  | write taken => exact ⟨.write _, taken⟩
  | read taken => exact ⟨.read, by simp [endStep, taken]⟩
  | epoch => exact ⟨.epoch, rfl⟩
  | speak => exact ⟨.speak, rfl⟩
  | flush => exact ⟨.flush, rfl⟩
  | heard => exact ⟨.heard, rfl⟩
  | deliver _ taken => exact ⟨.hear _, taken⟩

/-- All that a client or a server does with an end is a run of it. -/
theorem EndMoves.run {arrives : Message → Prop} {w r : List Payload} {sent : List Message}
    (moves : EndMoves arrives l l' w r sent) : ∃ acts, run endStep l acts = some l' := by
  induction moves with
  | none => exact ⟨[], rfl⟩
  | next before last ih =>
    obtain ⟨acts, reached⟩ := ih
    obtain ⟨a, taken⟩ := last.step
    exact ⟨acts ++ [a], run_append.mpr ⟨_, reached, by simp [Lib.run, taken]⟩⟩

/-! ### The numbers of the messages that were sent -/

/-- What was sent has a number behind the initial one and before the first that waits. -/
structure Numbered (isn : Int) (l : Bxnzsdj) : Prop where
  front : isn < l.frontSeqNum
  unacked : ∀ s ∈ l.qqbakktl, isn < s ∧ s < l.frontSeqNum

theorem numbered_new (new : NewEnd isn params l) : Numbered isn l := by
  cases new with
  | client =>
    refine ⟨by simp [fnlwefjbun, Bxnzsdj.frontSeqNum], ?_⟩
    intro s member
    exact absurd member (AList.notMem_empty s)
  | server connId =>
    refine ⟨by simp [fnlwefjbun, nfkdlws, Bxnzsdj.frontSeqNum], ?_⟩
    intro s member
    exact absurd member (AList.notMem_empty s)

theorem sendFront_front {payload : Payload} {rest : List Payload}
    (waits : l.ffieiqwlhhh = payload :: rest) :
    (l.sendFront payload rest).frontSeqNum = l.frontSeqNum + 1 := by
  simp only [Bxnzsdj.frontSeqNum, Bxnzsdj.sendFront, waits, List.length_cons]
  omega

theorem forgetAll_mem {acked : List Int} {s : Int}
    (member : s ∈ (acked.foldl Bxnzsdj.forget l).qqbakktl) : s ∈ l.qqbakktl := by
  induction acked generalizing l with
  | nil => exact member
  | cons first rest ih => exact (AList.mem_erase.mp (ih member)).2

theorem forgetAll_front (acked : List Int) (l : Bxnzsdj) :
    (acked.foldl Bxnzsdj.forget l).frontSeqNum = l.frontSeqNum := by
  induction acked generalizing l with
  | nil => rfl
  | cons first rest ih => exact ih _

namespace Numbered

theorem frame (h : Numbered isn l) (unacked : ∀ s ∈ l'.qqbakktl, s ∈ l.qqbakktl)
    (front : l'.frontSeqNum = l.frontSeqNum) : Numbered isn l' := by
  constructor
  · rw [front]
    exact h.front
  · intro s member
    rw [front]
    exact h.unacked s (unacked s member)

theorem sendFront (h : Numbered isn l) {payload : Payload} {rest : List Payload}
    (waits : l.ffieiqwlhhh = payload :: rest) : Numbered isn (l.sendFront payload rest) := by
  have next := sendFront_front waits
  have low := h.front
  constructor
  · omega
  · intro s member
    rcases (AList.mem_insert _).mp member with rfl | old
    · omega
    · have between := h.unacked s old
      omega

theorem ngkdlse (h : Numbered isn l) : Numbered isn l.ngkdlse :=
  ngkdlse_rule (fun _ _ _ numbered waits => numbered.sendFront waits) h

theorem forgetAll (h : Numbered isn l) (acked : List Int) :
    Numbered isn (acked.foldl Bxnzsdj.forget l) :=
  h.frame (fun _ member => forgetAll_mem member) (forgetAll_front acked l)

theorem same (h : Numbered isn l) (same : l.SameWriter l') : Numbered isn l' := by
  refine h.frame (fun s member => same.unacked ▸ member) ?_
  rw [Bxnzsdj.frontSeqNum, same.counter, same.pending, Bxnzsdj.frontSeqNum]

theorem turn (h : Numbered isn l) (turn : EndTurn l a l') : Numbered isn l' := by
  cases turn with
  | write =>
    refine Numbered.ngkdlse (h.frame (fun s member => member) ?_)
    simp only [Bxnzsdj.frontSeqNum, List.length_append, List.length_singleton]
    omega
  | settled => exact (h.forgetAll _).ngkdlse
  | data => exact h.same (unheard_writer (bvmndthe_unheard l _))
  | speak => exact h.same (sayEpoch_utters l).writer
  | ignored => exact h
  | read | connect | connected | heard | flush | epoch => exact h.same ⟨rfl, rfl, rfl, rfl, rfl⟩

end Numbered

theorem numbered_run (new : NewEnd isn params l) (reached : run endStep l acts = some l') :
    Numbered isn l' :=
  run_keeps (Numbered isn) (fun _ _ _ h taken => h.turn (endStep_cases taken)) (numbered_new new)
    acts reached

/-! ### The counters are `int`s -/

/-- The numbers of an end are within Go's `int`. -/
structure Bxnzsdj.InInt (l : Bxnzsdj) : Prop where
  front : l.frontSeqNum ≤ maxInt
  expected : l.bnmslkllh ≤ maxInt
  stored : ∀ s ∈ l.aptnek, s < maxInt

theorem fillWindow_front (fuel : Nat) (base : Int) (inside : l.frontSeqNum ≤ maxInt) :
    (fillWindow fuel base l).frontSeqNum ≤ maxInt := by
  induction fuel generalizing l base with
  | zero => exact inside
  | succ fuel ih =>
    unfold fillWindow
    split
    · exact inside
    · rename_i payload rest waits
      split
      · rename_i room
        have next := sendFront_front waits
        have last := (goInt_range (base + l.heee8w)).2
        exact ih _ (by omega)
      · exact inside

theorem drain_inInt (fuel : Nat) (expected : l.bnmslkllh ≤ maxInt)
    (stored : ∀ s ∈ l.aptnek, s < maxInt) :
    (drain fuel l).bnmslkllh ≤ maxInt ∧ ∀ s ∈ (drain fuel l).aptnek, s < maxInt := by
  induction fuel generalizing l with
  | zero => exact ⟨expected, stored⟩
  | succ fuel ih =>
    unfold drain
    split
    · exact ⟨expected, stored⟩
    · rename_i payload found
      have next := stored _ (Map.mem_of_lookup found)
      exact ih (Int.add_one_le_of_lt next) fun s member => stored s (AList.mem_erase.mp member).2

namespace Bxnzsdj.InInt

theorem of_unsent (h : l.InInt) (same : l'.unsent = l.unsent) (front : l'.frontSeqNum ≤ maxInt) :
    l'.InInt := by
  have expected : l'.bnmslkllh = l.bnmslkllh := (congrArg Bxnzsdj.bnmslkllh same :)
  have stored : l'.aptnek = l.aptnek := (congrArg Bxnzsdj.aptnek same :)
  exact ⟨front, expected ▸ h.expected, stored ▸ h.stored⟩

theorem ngkdlse (h : l.InInt) : l.ngkdlse.InInt :=
  h.of_unsent (ngkdlse_unsent l) (fillWindow_front _ _ h.front)

/-- A payload is kept only if it is before the end of the window, which is an `int`. -/
theorem bvmndthe (h : l.InInt) (m : Message) : (l.bvmndthe m).InInt := by
  have writer := unheard_writer (bvmndthe_unheard l m)
  have front : (l.bvmndthe m).frontSeqNum ≤ maxInt := by
    rw [Bxnzsdj.frontSeqNum, writer.counter, writer.pending]
    exact h.front
  have received : (l.bvmndthe m).bnmslkllh ≤ maxInt ∧ ∀ s ∈ (l.bvmndthe m).aptnek, s < maxInt := by
    unfold Bxnzsdj.bvmndthe
    split
    · exact ⟨h.expected, h.stored⟩
    split
    · exact ⟨h.expected, h.stored⟩
    rename_i near
    split
    · exact ⟨h.expected, h.stored⟩
    dsimp only
    split
    · exact ⟨h.expected, h.stored⟩
    · refine drain_inInt _ h.expected fun s member => ?_
      have last := (goInt_range (l.bnmslkllh + l.heee8w)).2
      rcases (AList.mem_insert _).mp member with rfl | old
      · omega
      · exact h.stored s old
  exact ⟨front, received.1, received.2⟩

theorem turn (h : l.InInt) (turn : EndTurn l a l') : l'.InInt := by
  cases turn with
  | @write payload known =>
    refine ngkdlse ⟨?_, h.expected, h.stored⟩
    have front := h.front
    simp only [Bxnzsdj.frontSeqNum, List.length_append, List.length_singleton] at front ⊢
    omega
  | settled known unacked =>
    refine ngkdlse (h.of_unsent (forgetAll_unsent _ l) ?_)
    rw [forgetAll_front]
    exact h.front
  | @data m kind =>
    have heard := h.bvmndthe m
    exact ⟨heard.front, heard.expected, heard.stored⟩
  | speak =>
    have writer := (sayEpoch_utters l).writer
    refine h.of_unsent (sayEpoch_unsent l) ?_
    rw [Bxnzsdj.frontSeqNum, writer.counter, writer.pending]
    exact h.front
  | ignored => exact h
  | read | connect | connected | heard | flush | epoch => exact ⟨h.front, h.expected, h.stored⟩

end Bxnzsdj.InInt

/-- An end that starts below the largest `int` never counts beyond it: the end of a window is an `int`,
and what is not before it is neither sent nor kept. So the integers here are those of the source; only
`hooppjkl` may wrap there, and it is read in the difference alone that `frontSeqNum` is. -/
theorem counters_in_int (start : isn < maxInt) (new : NewEnd isn params l)
    (reached : run endStep l acts = some l') : l'.InInt := by
  have first : l.InInt := by
    cases new with
    | client | server =>
      refine ⟨?_, ?_, fun s member => absurd member (AList.notMem_empty s)⟩
      · simp [fnlwefjbun, nfkdlws, Bxnzsdj.frontSeqNum]
        omega
      · simp only [fnlwefjbun, nfkdlws]
        omega
  exact run_keeps Bxnzsdj.InInt (fun _ _ _ h taken => h.turn (endStep_cases taken)) first acts reached

/-! ### What is put into the buffer -/

/-- The messages that one call has put into the buffer of the socket. -/
def Bxnzsdj.said (l l' : Bxnzsdj) : List Message := l'.rfxtuoncvn.drop l.rfxtuoncvn.length

/-- The messages that a run has put there. -/
def uttered (l : Bxnzsdj) (acts : List EndAction) : List Message :=
  (trace endStep (fun l _ l' => l.said l') l acts).flatten

theorem said_append {new : List Message} (grown : l'.rfxtuoncvn = l.rfxtuoncvn ++ new) :
    l.said l' = new := by
  simp [Bxnzsdj.said, grown]

/-- Filling the window only adds to the buffer. -/
theorem ngkdlse_grows (l : Bxnzsdj) :
    l.rfxtuoncvn <+: l.ngkdlse.rfxtuoncvn ∧ l.ngkdlse.tttbejw = l.tttbejw := by
  refine ngkdlse_rule (P := fun l' => l.rfxtuoncvn <+: l'.rfxtuoncvn ∧ l'.tttbejw = l.tttbejw) ?_
    ⟨List.prefix_rfl, rfl⟩
  rintro l' payload rest ⟨grown, flag⟩ -
  exact ⟨grown.trans (List.prefix_append _ _), flag⟩

theorem resendAll_grows (entries : List (Σ _ : Int, Payload)) (l : Bxnzsdj) :
    l.rfxtuoncvn <+: (resendAll l entries).rfxtuoncvn ∧
      (resendAll l entries).tttbejw = l.tttbejw := by
  induction entries generalizing l with
  | nil => exact ⟨List.prefix_rfl, rfl⟩
  | cons entry rest ih =>
    have first : l.rfxtuoncvn <+: (resend l entry.1 entry.2).rfxtuoncvn ∧
        (resend l entry.1 entry.2).tttbejw = l.tttbejw := by
      unfold resend
      split
      · exact ⟨List.prefix_append _ _, rfl⟩
      · exact ⟨List.prefix_rfl, rfl⟩
    obtain ⟨grown, flag⟩ := ih (resend l entry.1 entry.2)
    exact ⟨first.1.trans grown, flag.trans first.2⟩

theorem bvmndthe_grows (l : Bxnzsdj) (m : Message) : l.rfxtuoncvn <+: (l.bvmndthe m).rfxtuoncvn := by
  unfold Bxnzsdj.bvmndthe
  split
  · exact List.prefix_rfl
  split
  · exact List.prefix_rfl
  split
  · exact List.prefix_rfl
  dsimp only
  split
  · exact List.prefix_append _ _
  · rw [(drain_expected _ _).2]
    exact List.prefix_append _ _

theorem sayEpoch_grows (l : Bxnzsdj) : l.rfxtuoncvn <+: l.sayEpoch.rfxtuoncvn := by
  have adds : ∀ (l : Bxnzsdj) (m : Message), l.rfxtuoncvn <+: (l.lbzxtomtos m).rfxtuoncvn :=
    fun _ _ => List.prefix_append _ _
  have spoken : l.rfxtuoncvn <+: l.speakUp.rfxtuoncvn := by
    have resent := (resendAll_grows l.qqbakktl.entries l).1
    unfold Bxnzsdj.speakUp
    dsimp only
    split
    · exact resent
    · exact resent.trans (adds _ _)
  have asked : ∀ l : Bxnzsdj, l.rfxtuoncvn <+: (if l.rdcppgudji = 0 then
      l.lbzxtomtos (newConnect l.gksmgskml) else l).rfxtuoncvn := by
    intro l
    split
    · exact adds _ _
    · exact List.prefix_rfl
  unfold Bxnzsdj.sayEpoch
  dsimp only
  split
  · exact spoken.trans (asked _)
  · exact asked l

/-- The buffer is only added to, until it is handed over. -/
theorem EndTurn.grows (turn : EndTurn l a l') (keeps : a ≠ .flush) :
    l.rfxtuoncvn <+: l'.rfxtuoncvn := by
  cases turn with
  | write =>
    rename_i payload known
    exact (ngkdlse_grows { l with
      ffieiqwlhhh := l.ffieiqwlhhh ++ [payload], hooppjkl := l.hooppjkl + 1 }).1
  | settled =>
    rename_i m acked known unacked
    have forgotten := forgetAll_sent acked l
    rw [← forgotten]
    exact (ngkdlse_grows _).1
  | data => exact bvmndthe_grows l _
  | speak => exact sayEpoch_grows l
  | flush => exact absurd rfl keeps
  | read | connect | ignored | connected | heard | epoch => exact List.prefix_rfl

theorem forgetAll_flag (acked : List Int) (l : Bxnzsdj) :
    (acked.foldl Bxnzsdj.forget l).tttbejw = l.tttbejw := by
  induction acked generalizing l with
  | nil => rfl
  | cons first rest ih => exact ih _

/-! ### What stays as it is -/

/-- What no call changes. An id is never replaced. -/
structure Bxnzsdj.SameEnd (l l' : Bxnzsdj) : Prop where
  id : l.rdcppgudji ≠ 0 → l'.rdcppgudji = l.rdcppgudji
  backOff : l'.ppwens = l.ppwens
  takes : l'.hhwhhqnhh = l.hhwhhqnhh

theorem Bxnzsdj.SameEnd.of_unsent (same : l'.unsent = l.unsent) : l.SameEnd l' :=
  ⟨fun _ => (congrArg Bxnzsdj.rdcppgudji same :), (congrArg Bxnzsdj.ppwens same :),
    (congrArg Bxnzsdj.hhwhhqnhh same :)⟩

theorem Bxnzsdj.SameEnd.trans {l'' : Bxnzsdj} (one : l.SameEnd l') (two : l'.SameEnd l'') :
    l.SameEnd l'' := by
  refine ⟨fun known => ?_, two.backOff.trans one.backOff, two.takes.trans one.takes⟩
  have kept := one.id known
  exact (two.id (kept ▸ known)).trans kept

theorem EndTurn.sameEnd (turn : EndTurn l a l') : l.SameEnd l' := by
  cases turn with
  | write => exact .of_unsent (ngkdlse_unsent _)
  | settled => exact .of_unsent (settled_unsent _ l)
  | data =>
    have same := bvmndthe_unheard l
    exact ⟨fun _ => (congrArg Bxnzsdj.rdcppgudji (same _) :),
      (congrArg Bxnzsdj.ppwens (same _) :), (congrArg Bxnzsdj.hhwhhqnhh (same _) :)⟩
  | speak => exact .of_unsent (sayEpoch_unsent l)
  | connected unknown => exact ⟨fun known => absurd unknown known, rfl, rfl⟩
  | read | connect | ignored | heard | flush | epoch => exact ⟨fun _ => rfl, rfl, rfl⟩

theorem sameEnd_run (reached : run endStep l acts = some l') : l.SameEnd l' :=
  run_keeps (fun l' => l.SameEnd l') (fun _ _ _ same taken => same.trans (endStep_cases taken).sameEnd)
    ⟨fun _ => rfl, rfl, rfl⟩ acts reached

theorem newEnd_fixed (new : NewEnd isn params l) :
    l.ppwens = params.maxBackOffInterval ∧ l.hhwhhqnhh = false := by
  cases new with
  | client | server => exact ⟨rfl, rfl⟩

/-! ### The heartbeat -/

/-- A message that counts as traffic though nothing is said for it: a connect message, or data that
is beyond the window or has a wrong checksum. -/
def Bxnzsdj.silent (l : Bxnzsdj) (m : Message) : Bool :=
  m.type = .connect ∨ m.type = .data ∧ (goInt (l.bnmslkllh + l.heee8w) ≤ m.seqNum ∨
    calculateChecksum m.connID m.seqNum m.size m.payload ≠ m.checksum)

/-- The call is no tick, and no message that it hears is passed over in silence. -/
def answered (l : Bxnzsdj) : EndAction → Bool
  | .hear m => !l.silent m
  | .speak => false
  | .write _ | .read | .heard | .flush | .epoch => true

/-- Data that is not passed over is acknowledged, whether it is new or not. -/
theorem bvmndthe_says {m : Message} (known : l.rdcppgudji ≠ 0) (takes : l.hhwhhqnhh = false)
    (near : m.seqNum < goInt (l.bnmslkllh + l.heee8w))
    (intact : calculateChecksum m.connID m.seqNum m.size m.payload = m.checksum) :
    (l.bvmndthe m).rfxtuoncvn = l.rfxtuoncvn ++ [newAck l.rdcppgudji m.seqNum] := by
  unfold Bxnzsdj.bvmndthe
  rw [if_neg (by simp [known, takes]), if_neg (by omega), if_neg (by simpa using intact)]
  dsimp only
  split
  · rfl
  · exact (drain_expected _ _).2

/-- Between two ticks the flag is set only by a message for which something is said. -/
theorem EndTurn.flag (turn : EndTurn l a l') (known : l.rdcppgudji ≠ 0) (takes : l.hhwhhqnhh = false)
    (loud : answered l a = true) (flag : l'.tttbejw = true) :
    l.tttbejw = true ∨ l.said l' ≠ [] := by
  cases turn with
  | write =>
    rw [(ngkdlse_grows _).2] at flag
    exact .inl flag
  | settled =>
    rw [(ngkdlse_grows _).2, forgetAll_flag] at flag
    exact .inl flag
  | connect kind => simp [answered, Bxnzsdj.silent, kind] at loud
  | data kind =>
    rename_i m
    simp only [answered, Bxnzsdj.silent, kind] at loud
    simp at loud
    have said := bvmndthe_says known takes loud.1 loud.2
    exact .inr (by simp [Bxnzsdj.said, said])
  | speak => simp [answered] at loud
  | read | ignored | connected | heard | flush | epoch => exact .inl flag

/-- At a tick of a connection that lives, either the flag is set or something is said. -/
theorem sayEpoch_says (positive : 0 < l.rdcppgudji) (lives : l.jfkdl = false)
    (quiet : l.tttbejw = false) : l.said l.sayEpoch ≠ [] := by
  obtain ⟨grown, flag⟩ := resendAll_grows l.qqbakktl.entries l
  have same : (resendAll l l.qqbakktl.entries).rdcppgudji = l.rdcppgudji :=
    (congrArg Bxnzsdj.rdcppgudji (resendAll_unsent l.qqbakktl.entries l) :)
  obtain ⟨resent, grown⟩ := grown
  have known : ¬ l.rdcppgudji = 0 := by omega
  have spoken : l.sayEpoch.rfxtuoncvn = l.rfxtuoncvn ++ (resent ++ [newAck l.rdcppgudji 0]) := by
    simp [Bxnzsdj.sayEpoch, Bxnzsdj.speakUp, positive, lives, flag, quiet, same,
      Bxnzsdj.lbzxtomtos, known, ← grown]
  rw [said_append spoken]
  simp

theorem sayEpoch_flag (l : Bxnzsdj) : l.sayEpoch.tttbejw = false := rfl

/-- From one tick to the end of the next something is put into the buffer, if every message that
came in between was answered. -/
theorem keep_alive (isn : Int) (params : Params) (new : NewEnd isn params l)
    (before acts : List EndAction) {l₁ l₂ l₃ l₄ : Bxnzsdj}
    (reached : run endStep l before = some l₁) (positive : 0 < l₁.rdcppgudji)
    (tick : endStep l₁ .speak = some l₂) (loud : Along endStep answered l₂ acts)
    (between : run endStep l₂ acts = some l₃) (lives : l₃.jfkdl = false)
    (next : endStep l₃ .speak = some l₄) : uttered l₂ (acts ++ [.speak]) ≠ [] := by
  have start := (sameEnd_run reached).trans (endStep_cases tick).sameEnd
  have known : l₂.rdcppgudji = l₁.rdcppgudji := (endStep_cases tick).sameEnd.id (by omega)
  cases Option.some.inj tick
  cases Option.some.inj next
  -- while the flag is set, something has been said since the last tick
  have said := trace_invariant (fun l _ l' => l.said l')
    (fun l seen => l₁.sayEpoch.SameEnd l ∧ (l.tttbejw = true → seen.flatten ≠ [])) (by
      rintro l a l' seen ⟨same, flagged⟩ loud taken
      have turn := endStep_cases taken
      refine ⟨same.trans turn.sameEnd, fun flag => ?_⟩
      have opened := same.id (by omega)
      rw [List.flatten_append, List.flatten_singleton]
      rcases turn.flag (by omega) (by rw [same.takes, start.takes, (newEnd_fixed new).2]) loud flag
        with old | new
      · exact List.append_ne_nil_of_left_ne_nil (flagged old) _
      · exact List.append_ne_nil_of_right_ne_nil _ new)
    ⟨⟨fun _ => rfl, rfl, rfl⟩, fun flag => absurd flag (by simp [sayEpoch_flag])⟩
    acts loud between
  have still := said.1.id (by omega)
  rw [uttered, trace_append between, List.flatten_append]
  cases quiet : l₃.tttbejw with
  | true => exact List.append_ne_nil_of_left_ne_nil (said.2 quiet) _
  | false =>
    refine List.append_ne_nil_of_right_ne_nil _ ?_
    simpa [trace, endStep] using sayEpoch_says (by omega) lives quiet

/-- The parameters of the cases below. -/
def plainParams : Params := ⟨5, 1, 0, 1⟩

/-- Nothing comes in, and the heartbeat is sent. -/
theorem keep_alive_idle : uttered ((nfkdlws 0 plainParams 1).tyhdjska) [.flush, .epoch, .speak] ≠ [] :=
  keep_alive 0 plainParams (.server 1) [.epoch] [.flush, .epoch] rfl (by decide) rfl (by decide) rfl
    (by decide) rfl

/-- A connect message that comes once more keeps the end silent for an epoch. -/
theorem duplicate_connect_silences : ∃ l l', run endStep (nfkdlws 0 plainParams 1) [.epoch, .speak] = some l ∧
    run endStep l [.hear (newConnect 0), .heard, .epoch] = some l' ∧ 0 < l'.rdcppgudji ∧
    l'.jfkdl = false ∧ uttered l ([.hear (newConnect 0), .heard, .epoch] ++ [.speak]) = [] :=
  ⟨_, _, rfl, rfl, by decide, by decide, by decide⟩

end DistSys.Lsp
