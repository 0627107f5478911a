import DistSys.Lsp.Frames
import DistSys.Lib.Transfer

/-! One end of a connection against the two transfers it takes part in: `out` carries what is
written here, `inn` what is read here. Item `i` of a transfer has the number `isn + 1 + i`. -/
namespace DistSys.Lsp

open Function (update update_apply)
open DistSys.Lib

/-- The messages that an end sends: data that `out` has put on the network, and
acknowledgements of `inn`. -/
inductive Genuine (isn : Int) (out inn : Transfer Payload) : Message → Prop where
  | connect : Genuine isn out inn (newConnect isn)
  | greeting (connID : Int) : Genuine isn out inn (newAck connID isn)
  | alive (connID : Int) : Genuine isn out inn (newAck connID 0)
  | data (connID : Int) (i : Nat) (payload : Payload) (flying : out.flying i payload) :
      Genuine isn out inn (dataMessage connID (isn + 1 + i) payload)
  | ack (connID : Int) (i : Nat) (acked : inn.acks i) :
      Genuine isn out inn (newAck connID (isn + 1 + i))

/-- The counter, the queue and the unacknowledged messages of a sender. -/
structure Writes (isn hooppjkl : Int) (ffieiqwlhhh : List Payload) (qqbakktl : Map Int Payload)
    (out : Transfer Payload) : Prop where
  counter : hooppjkl = isn + 1 + out.written.length
  pending : ffieiqwlhhh <:+ out.written
  unacked : ∀ s p, qqbakktl.lookup s = some p →
    ∃ i : Nat, s = isn + 1 + i ∧ out.written[i]? = some p
  settled : ∀ i : Nat, i + ffieiqwlhhh.length < out.written.length →
    isn + 1 + i ∈ qqbakktl ∨ out.settled i

/-- The expected number, the early messages and the read queue of a receiver. -/
structure Reads (isn bnmslkllh : Int) (aptnek : Map Int Payload) (asdfghj read : List Payload)
    (inn : Transfer Payload) : Prop where
  expected : bnmslkllh = isn + 1 + inn.delivered.length
  stored : ∀ i : Nat, aptnek.lookup (isn + 1 + i) = inn.stored i
  delivered : inn.delivered = read ++ asdfghj

structure Speaks (isn : Int) (l : Bxnzsdj) (wrote read : List Payload)
    (out inn : Transfer Payload) : Prop where
  start : l.gksmgskml = isn
  written : out.written = wrote
  writes : Writes isn l.hooppjkl l.ffieiqwlhhh l.qqbakktl out
  reads : Reads isn l.bnmslkllh l.aptnek l.asdfghj read inn
  outgoing : ∀ m ∈ l.rfxtuoncvn, Genuine isn out inn m

variable {isn : Int} {l l' : Bxnzsdj} {wrote read : List Payload}
  {out out' inn inn' : Transfer Payload}

theorem Genuine.mono {m : Message} (h : Genuine isn out inn m) (sends : Transfer.Sends out out')
    (receives : Transfer.Receives inn inn') : Genuine isn out' inn' m := by
  cases h with
  | connect => exact .connect
  | greeting connID => exact .greeting connID
  | alive connID => exact .alive connID
  | data connID i payload flying =>
    exact .data connID i payload (sends.frame.2.2.2 i payload flying)
  | ack connID i acked => exact .ack connID i (receives.frame.2.2.2 i acked)

theorem Genuine.frame {m : Message} (h : Genuine isn out inn m)
    (receives : Transfer.Receives out out') (sends : Transfer.Sends inn inn') :
    Genuine isn out' inn' m := by
  cases h with
  | connect => exact .connect
  | greeting connID => exact .greeting connID
  | alive connID => exact .alive connID
  | data connID i payload flying =>
    exact .data connID i payload (by rwa [receives.frame.2.1])
  | ack connID i acked => exact .ack connID i (by rwa [sends.frame.2.2.1])

/-- What was sent passes the reader's check unchanged. -/
theorem Genuine.passes {m : Message} (h : Genuine isn out inn m) :
    ciqlyoibuh m = some (some m) := by
  cases h with
  | connect => rfl
  | greeting => rfl
  | alive => rfl
  | data connID i payload => exact ciqlyoibuh_data connID _ payload
  | ack => rfl

/-- What one end does leaves the other end in its place. -/
theorem Speaks.frame (h : Speaks isn l wrote read out inn) (receives : Transfer.Receives out out')
    (sends : Transfer.Sends inn inn') : Speaks isn l wrote read out' inn' := by
  obtain ⟨written, -, settled, -⟩ := receives.frame
  obtain ⟨delivered, stored, -, -⟩ := sends.frame
  constructor
  · exact h.start
  · rw [written, h.written]
  · constructor
    · rw [written, h.writes.counter]
    · rw [written]
      exact h.writes.pending
    · rw [written]
      exact h.writes.unacked
    · rw [written, settled]
      exact h.writes.settled
  · constructor
    · rw [delivered, h.reads.expected]
    · rw [stored]
      exact h.reads.stored
    · rw [delivered, h.reads.delivered]
  · intro m member
    exact (h.outgoing m member).frame receives sends

/-- An end that has not spoken. -/
theorem speaks_new (params : Params) (connID : Int) (messages : List Message)
    (genuine : ∀ m ∈ messages, Genuine isn .new .new m) :
    Speaks isn { fnlwefjbun isn params with rdcppgudji := connID, rfxtuoncvn := messages }
      [] [] .new .new := by
  constructor
  · rfl
  · rfl
  · constructor
    · simp [fnlwefjbun, Transfer.new]
    · exact List.nil_suffix
    · intro s p found
      simp [fnlwefjbun] at found
    · intro i short
      simp [Transfer.new] at short
  · constructor
    · simp [fnlwefjbun, Transfer.new, Int.add_comm]
    · intro i
      simp [fnlwefjbun, Transfer.new]
    · rfl
  · exact genuine

section

variable (h : Speaks isn l wrote read out inn)
include h

/-- The messages that were sent before are still genuine after the end's own moves. -/
theorem Speaks.sent (sends : Transfer.Sends out out') (receives : Transfer.Receives inn inn')
    {m : Message} (genuine : Genuine isn out' inn' m) :
    ∀ other ∈ l.rfxtuoncvn ++ [m], Genuine isn out' inn' other := by
  intro other member
  rcases List.mem_append.mp member with old | new
  · exact (h.outgoing other old).mono sends receives
  · exact List.mem_singleton.mp new ▸ genuine

/-! ### Sending -/

/-- The first payload that waits stands in `written` at the place its number says. -/
theorem Speaks.front {payload : Payload} {rest : List Payload}
    (pending : l.ffieiqwlhhh = payload :: rest) :
    ∃ i : Nat, l.frontSeqNum = isn + 1 + i ∧ out.written[i]? = some payload ∧
      i + rest.length + 1 = out.written.length := by
  obtain ⟨sent, whole⟩ := h.writes.pending
  refine ⟨sent.length, ?_, ?_, ?_⟩
  · have length := congrArg List.length whole
    simp only [Bxnzsdj.frontSeqNum, h.writes.counter, List.length_append] at length ⊢
    omega
  · rw [← whole, pending]
    simp
  · rw [← whole, pending]
    simp
    omega

theorem Speaks.sendFront {payload : Payload} {rest : List Payload}
    (pending : l.ffieiqwlhhh = payload :: rest) :
    ∃ out', Transfer.Sends out out' ∧ Speaks isn (l.sendFront payload rest) wrote read out' inn := by
  obtain ⟨i, number, place, length⟩ := h.front pending
  have first := Transfer.Send.item i payload place
  refine ⟨_, .single first, ⟨h.start, h.written, ?_, h.reads, ?_⟩⟩
  · constructor
    · exact h.writes.counter
    · have all := h.writes.pending
      rw [pending] at all
      exact (List.suffix_cons payload rest).trans all
    · intro s p found
      simp only [Bxnzsdj.sendFront, Map.lookup_insert] at found
      split at found
      · rename_i here
        cases Option.some.inj found
        exact ⟨i, here.trans number, place⟩
      · exact h.writes.unacked s p found
    · intro j short
      simp only [Bxnzsdj.sendFront, AList.mem_insert] at short ⊢
      by_cases here : j = i
      · exact .inl (.inl (by rw [here, number]))
      · rcases h.writes.settled j (by rw [pending, List.length_cons]; omega) with waits | done
        · exact .inl (.inr waits)
        · exact .inr done
  · simp only [Bxnzsdj.sendFront, number]
    exact h.sent (.single first) .refl (.data _ i payload (.inr ⟨rfl, rfl⟩))

theorem Speaks.ngkdlse :
    ∃ out', Transfer.Sends out out' ∧ Speaks isn l.ngkdlse wrote read out' inn := by
  refine ngkdlse_rule
    (P := fun l' => ∃ out', Transfer.Sends out out' ∧ Speaks isn l' wrote read out' inn) ?_
    ⟨out, .refl, h⟩
  rintro l' payload rest ⟨mid, first, speaks⟩ pending
  obtain ⟨out', later, done⟩ := speaks.sendFront pending
  exact ⟨out', first.trans later, done⟩

theorem Speaks.gkxcls {payload : Payload} (taken : l.gkxcls payload = some l') :
    ∃ out', Transfer.Sends out out' ∧ Speaks isn l' (wrote ++ [payload]) read out' inn := by
  simp only [Bxnzsdj.gkxcls] at taken
  split at taken
  · contradiction
  · split at taken
    · contradiction
    · cases Option.some.inj taken
      have first := Transfer.Send.write (t := out) payload
      have speaks : Speaks isn { l with
          ffieiqwlhhh := l.ffieiqwlhhh ++ [payload], hooppjkl := l.hooppjkl + 1 }
          (wrote ++ [payload]) read { out with written := out.written ++ [payload] } inn := by
        refine ⟨h.start, by simp only [h.written], ?_, h.reads, ?_⟩
        · constructor
          · simp only [h.writes.counter, List.length_append, List.length_singleton]
            omega
          · obtain ⟨sent, whole⟩ := h.writes.pending
            exact ⟨sent, by rw [← List.append_assoc, whole]⟩
          · intro s p found
            obtain ⟨i, number, place⟩ := h.writes.unacked s p found
            have bound := (List.getElem?_eq_some_iff.mp place).1
            exact ⟨i, number, by rw [List.getElem?_append_left bound, place]⟩
          · intro i short
            simp only [List.length_append, List.length_singleton] at short
            exact h.writes.settled i (by omega)
        · intro m member
          exact (h.outgoing m member).mono (.single first) .refl
      obtain ⟨out', later, done⟩ := speaks.ngkdlse
      exact ⟨out', .head first later, done⟩

/-- An acknowledged message leaves the unacknowledged ones. -/
theorem Speaks.settle {i : Nat} (acked : out.acks i) :
    ∃ out', Transfer.Sends out out' ∧
      Speaks isn (l.forget (isn + 1 + i)) wrote read out' inn := by
  have first := Transfer.Send.settle i acked
  refine ⟨_, .single first, ⟨h.start, h.written, ?_, h.reads, ?_⟩⟩
  · constructor
    · exact h.writes.counter
    · exact h.writes.pending
    · intro s p found
      simp only [Bxnzsdj.forget, Map.lookup_erase] at found
      split at found
      · contradiction
      · exact h.writes.unacked s p found
    · intro j short
      by_cases here : j = i
      · exact .inr (.inr here)
      · rcases h.writes.settled j short with waits | done
        · exact .inl (AList.mem_erase.mpr ⟨by omega, waits⟩)
        · exact .inr (.inl done)
  · intro m member
    exact (h.outgoing m member).mono (.single first) .refl

/-! ### The epoch -/

theorem Speaks.resend {s : Int} {p : Payload} (waits : l.qqbakktl.lookup s = some p) :
    ∃ out', Transfer.Sends out out' ∧ Speaks isn (Lsp.resend l s p) wrote read out' inn := by
  obtain ⟨i, number, place⟩ := h.writes.unacked s p waits
  have first := Transfer.Send.item i p place
  unfold Lsp.resend
  split
  · refine ⟨_, .single first, ⟨h.start, h.written, ?_, h.reads, ?_⟩⟩
    · exact ⟨h.writes.counter, h.writes.pending, h.writes.unacked, h.writes.settled⟩
    · simp only [number]
      exact h.sent (.single first) .refl (.data _ i p (.inr ⟨rfl, rfl⟩))
  · exact ⟨out, .refl, h.start, h.written, h.writes, h.reads, h.outgoing⟩

end

theorem resend_unacked (l : Bxnzsdj) (s : Int) (p : Payload) :
    (resend l s p).qqbakktl = l.qqbakktl := by
  unfold resend
  split
  · rfl
  · rfl

section

variable (h : Speaks isn l wrote read out inn)
include h

theorem Speaks.resendAll {entries : List (Σ _ : Int, Payload)}
    (wait : ∀ entry ∈ entries, l.qqbakktl.lookup entry.1 = some entry.2) :
    ∃ out', Transfer.Sends out out' ∧ Speaks isn (Lsp.resendAll l entries) wrote read out' inn := by
  induction entries generalizing l out with
  | nil => exact ⟨out, .refl, h⟩
  | cons entry rest ih =>
    obtain ⟨mid, first, speaks⟩ := h.resend (wait entry List.mem_cons_self)
    have later := ih speaks fun other member => by
      rw [resend_unacked]
      exact wait other (List.mem_cons_of_mem _ member)
    obtain ⟨out', rest, done⟩ := later
    exact ⟨out', first.trans rest, done⟩

theorem Speaks.lbzxtomtos {m : Message} (genuine : Genuine isn out inn m) :
    Speaks isn (l.lbzxtomtos m) wrote read out inn :=
  ⟨h.start, h.written, h.writes, h.reads, h.sent .refl .refl genuine⟩

theorem Speaks.speakUp :
    ∃ out', Transfer.Sends out out' ∧ Speaks isn l.speakUp wrote read out' inn := by
  have wait : ∀ entry ∈ l.qqbakktl.entries, l.qqbakktl.lookup entry.1 = some entry.2 :=
    fun _ member => Map.mem_entries.mp member
  obtain ⟨out', sends, resent⟩ := h.resendAll wait
  refine ⟨out', sends, ?_⟩
  simp only [Bxnzsdj.speakUp]
  split
  · exact resent
  · exact resent.lbzxtomtos (.alive _)

theorem Speaks.sayEpoch :
    ∃ out', Transfer.Sends out out' ∧ Speaks isn l.sayEpoch wrote read out' inn := by
  have ask : ∀ {l out}, Speaks isn l wrote read out inn →
      Speaks isn { (if l.rdcppgudji = 0 then l.lbzxtomtos (newConnect l.gksmgskml) else l) with
        tttbejw := false } wrote read out inn := by
    intro l out h
    split
    · have question : Genuine isn out inn (newConnect l.gksmgskml) := by
        rw [h.start]
        exact .connect
      have asked := h.lbzxtomtos question
      exact ⟨asked.start, asked.written, asked.writes, asked.reads, asked.outgoing⟩
    · exact ⟨h.start, h.written, h.writes, h.reads, h.outgoing⟩
  simp only [Bxnzsdj.sayEpoch]
  split
  · obtain ⟨out', sends, spoken⟩ := h.speakUp
    exact ⟨out', sends, ask spoken⟩
  · exact ⟨out, .refl, ask h⟩

/-! ### Receiving -/

/-- As many rounds as there are early messages put in order all that can be. -/
theorem Speaks.drain {fuel : Nat} (enough : Map.size l.aptnek ≤ fuel) :
    ∃ inn', Transfer.Receives inn inn' ∧ Speaks isn (Lsp.drain fuel l) wrote read out inn' ∧
      inn'.Drained := by
  induction fuel generalizing l inn with
  | zero =>
    have empty := Map.eq_empty_of_size (Nat.le_zero.mp enough)
    refine ⟨inn, .refl, h, ?_⟩
    have last := h.reads.stored inn.delivered.length
    rw [empty, AList.lookup_empty] at last
    exact last.symm
  | succ fuel ih =>
    have front := h.reads.stored inn.delivered.length
    rw [← h.reads.expected] at front
    unfold Lsp.drain
    split
    · rename_i missing
      exact ⟨inn, .refl, h, front.symm.trans missing⟩
    · rename_i payload found
      have first := Transfer.Receive.deliver payload (front.symm.trans found)
      have size := Map.size_erase (Map.mem_of_lookup found)
      have speaks : Speaks isn (l.pass payload) wrote read out { inn with
          delivered := inn.delivered ++ [payload]
          stored := update inn.stored inn.delivered.length none } := by
        refine ⟨h.start, h.written, h.writes, ?_, ?_⟩
        · constructor
          · simp only [Bxnzsdj.pass, h.reads.expected, List.length_append, List.length_singleton]
            omega
          · intro i
            simp only [Bxnzsdj.pass, Map.lookup_erase, h.reads.stored, h.reads.expected,
              update_apply]
            congr 1
            simp
          · simp only [Bxnzsdj.pass, h.reads.delivered, List.append_assoc]
        · intro m member
          exact (h.outgoing m member).mono .refl (.single first)
      obtain ⟨inn', later, done⟩ := ih speaks (by simp only [Bxnzsdj.pass]; omega)
      exact ⟨inn', .head first later, done⟩

/-- A data message that was sent is acknowledged only once it is here. -/
theorem Speaks.bvmndthe (drained : inn.Drained) {m : Message} {i : Nat}
    (number : m.seqNum = isn + 1 + i) (arrives : inn.flying i m.payload) :
    ∃ inn', Transfer.Receives inn inn' ∧ Speaks isn (l.bvmndthe m) wrote read out inn' ∧
      inn'.Drained := by
  unfold Bxnzsdj.bvmndthe
  split
  · exact ⟨inn, .refl, h, drained⟩
  split
  · exact ⟨inn, .refl, h, drained⟩
  split
  · exact ⟨inn, .refl, h, drained⟩
  dsimp only
  split
  · rename_i old
    have known : inn.Has i := .inl (by have := h.reads.expected; omega)
    have first := Transfer.Receive.ack i known
    rw [number]
    exact ⟨_, .single first, ⟨h.start, h.written, h.writes,
      ⟨h.reads.expected, h.reads.stored, h.reads.delivered⟩,
      h.sent .refl (.single first) (.ack _ i (.inr rfl))⟩, drained⟩
  · rename_i ahead
    have first := Transfer.Receive.store i m.payload arrives (by have := h.reads.expected; omega)
    have second := Transfer.Receive.ack
      (t := { inn with stored := update inn.stored i (some m.payload) }) i (.inr (by simp))
    have receives : Transfer.Receives inn _ := .tail (.single first) second
    have speaks : Speaks isn ((l.lbzxtomtos (newAck l.rdcppgudji m.seqNum)).keep
        m.seqNum m.payload) wrote read out { inn with
        stored := update inn.stored i (some m.payload)
        acks := fun j => inn.acks j ∨ j = i } := by
      rw [number]
      refine ⟨h.start, h.written, h.writes, ⟨h.reads.expected, ?_, h.reads.delivered⟩, ?_⟩
      · intro j
        simp only [Bxnzsdj.keep, Bxnzsdj.lbzxtomtos, Map.lookup_insert, h.reads.stored,
          update_apply]
        congr 1
        simp
      · exact h.sent .refl receives (.ack _ i (.inr rfl))
    obtain ⟨inn', later, done⟩ := speaks.drain (Nat.le_refl _)
    exact ⟨inn', receives.trans later, done⟩

/-- An acknowledgement that was sent settles its own number at most. -/
theorem Speaks.vvvjlurqbu {m : Message} (kind : m.type = .ack)
    (known : ∀ i : Nat, m.seqNum = isn + 1 + i → out.acks i ∨ m.seqNum = 0)
    (taken : l.vvvjlurqbu m = some l') :
    ∃ out', Transfer.Sends out out' ∧ Speaks isn l' wrote read out' inn := by
  unfold Bxnzsdj.vvvjlurqbu at taken
  split at taken
  · cases Option.some.inj taken
    exact ⟨out, .refl, h⟩
  split at taken
  · split at taken
    · cases Option.some.inj taken
      exact ⟨out, .refl, h.start, h.written, h.writes, h.reads, h.outgoing⟩
    · cases Option.some.inj taken
      exact ⟨out, .refl, h⟩
  split at taken
  · rename_i numbered
    split at taken
    · rename_i waits
      cases Option.some.inj taken
      obtain ⟨p, found⟩ := Map.lookup_of_mem waits
      obtain ⟨i, number, -⟩ := h.writes.unacked _ p found
      have acked : out.acks i := (known i number).resolve_right numbered
      rw [number]
      obtain ⟨mid, first, speaks⟩ := h.settle acked
      obtain ⟨out', later, done⟩ := speaks.ngkdlse
      exact ⟨out', first.trans later, done⟩
    · cases Option.some.inj taken
      exact ⟨out, .refl, h⟩
  · cases Option.some.inj taken
    exact ⟨out, .refl, h⟩

theorem Speaks.qtbejekw (drained : inn.Drained) {m : Message} (genuine : Genuine isn inn out m)
    (taken : l.qtbejekw m = some l') :
    ∃ out' inn', Transfer.Sends out out' ∧ Transfer.Receives inn inn' ∧
      Speaks isn l' wrote read out' inn' ∧ inn'.Drained := by
  have flagged : ∀ {l inn}, Speaks isn l wrote read out inn →
      Speaks isn { l with tttbejw := true } wrote read out inn :=
    fun h => ⟨h.start, h.written, h.writes, h.reads, h.outgoing⟩
  cases genuine with
  | connect =>
    cases Option.some.inj taken
    exact ⟨out, inn, .refl, .refl, flagged h, drained⟩
  | greeting connID =>
    obtain ⟨out', sends, speaks⟩ := h.vvvjlurqbu rfl (fun i same => by simp only [newAck] at same; omega) taken
    exact ⟨out', inn, sends, .refl, speaks, drained⟩
  | alive connID =>
    obtain ⟨out', sends, speaks⟩ := h.vvvjlurqbu rfl (fun _ _ => .inr rfl) taken
    exact ⟨out', inn, sends, .refl, speaks, drained⟩
  | data connID i payload flying =>
    cases Option.some.inj taken
    obtain ⟨inn', receives, speaks, done⟩ :=
      h.bvmndthe (m := dataMessage connID (isn + 1 + i) payload) drained rfl flying
    exact ⟨out, inn', .refl, receives, flagged speaks, done⟩
  | ack connID i acked =>
    have known : ∀ j : Nat, isn + 1 + i = isn + 1 + j → out.acks j ∨ isn + 1 + i = 0 := by
      intro j same
      cases show i = j by omega
      exact .inl acked
    obtain ⟨out', sends, speaks⟩ := h.vvvjlurqbu rfl known taken
    exact ⟨out', inn, sends, .refl, speaks, drained⟩

theorem Speaks.odkejnfsa {payload : Payload} (taken : l.odkejnfsa = some (payload, l')) :
    Speaks isn l' wrote (read ++ [payload]) out inn := by
  simp only [Bxnzsdj.odkejnfsa] at taken
  split at taken
  · contradiction
  split at taken
  · contradiction
  · rename_i first rest queue
    cases Option.some.inj taken
    refine ⟨h.start, h.written, h.writes, ⟨h.reads.expected, h.reads.stored, ?_⟩, h.outgoing⟩
    simp [h.reads.delivered, queue]

end

/-! ### All that an end does -/

/-- One call at an end, with the payloads that went in and out and the datagrams that were
handed over. -/
inductive EndMove (arrives : Message → Prop) (l : Bxnzsdj) :
    Bxnzsdj → List Payload → List Payload → List Message → Prop where
  | write {payload l'} (taken : l.gkxcls payload = some l') : EndMove arrives l l' [payload] [] []
  | read {payload l'} (taken : l.odkejnfsa = some (payload, l')) :
      EndMove arrives l l' [] [payload] []
  | epoch : EndMove arrives l l.llehwkas [] [] []
  | speak : EndMove arrives l l.sayEpoch [] [] []
  | flush : EndMove arrives l l.bnmgrlr.2 [] [] l.bnmgrlr.1
  | heard : EndMove arrives l l.bbjdkslwoorun [] [] []
  | deliver {m l'} (comes : arrives m) (taken : l.qtbejekw m = some l') :
      EndMove arrives l l' [] [] []

inductive EndMoves (arrives : Message → Prop) (l : Bxnzsdj) :
    Bxnzsdj → List Payload → List Payload → List Message → Prop where
  | none : EndMoves arrives l l [] [] []
  | next {l' l'' w w' r r' m m'} (before : EndMoves arrives l l' w r m)
      (last : EndMove arrives l' l'' w' r' m') :
      EndMoves arrives l l'' (w ++ w') (r ++ r') (m ++ m')

variable {arrives : Message → Prop} {w r : List Payload} {sent : List Message}

theorem EndMove.single (move : EndMove arrives l l' w r sent) : EndMoves arrives l l' w r sent := by
  simpa using EndMoves.next .none move

theorem EndMove.mono {arrives' : Message → Prop} (move : EndMove arrives l l' w r sent)
    (comes : ∀ m, arrives m → arrives' m) : EndMove arrives' l l' w r sent := by
  cases move with
  | write taken => exact .write taken
  | read taken => exact .read taken
  | epoch => exact .epoch
  | speak => exact .speak
  | flush => exact .flush
  | heard => exact .heard
  | deliver arrived taken => exact .deliver (comes _ arrived) taken

theorem EndMoves.mono {arrives' : Message → Prop} (moves : EndMoves arrives l l' w r sent)
    (comes : ∀ m, arrives m → arrives' m) : EndMoves arrives' l l' w r sent := by
  induction moves with
  | none => exact .none
  | next _ last ih => exact ih.next (last.mono comes)

theorem EndMoves.trans {l'' : Bxnzsdj} {w' r' : List Payload} {sent' : List Message}
    (first : EndMoves arrives l l' w r sent) (second : EndMoves arrives l' l'' w' r' sent') :
    EndMoves arrives l l'' (w ++ w') (r ++ r') (sent ++ sent') := by
  induction second with
  | none => simpa using first
  | next _ last ih => simpa using ih.next last

theorem EndMoves.tick : EndMoves arrives l l.tyhdjska [] [] [] :=
  .next (EndMove.single .epoch) .speak

theorem Speaks.move (h : Speaks isn l wrote read out inn) (drained : inn.Drained)
    (genuine : ∀ m, arrives m → Genuine isn inn out m) (move : EndMove arrives l l' w r sent) :
    ∃ out' inn', Transfer.Sends out out' ∧ Transfer.Receives inn inn' ∧
      Speaks isn l' (wrote ++ w) (read ++ r) out' inn' ∧ inn'.Drained ∧
      ∀ m ∈ sent, Genuine isn out' inn' m := by
  cases move with
  | write taken =>
    obtain ⟨out', sends, after⟩ := h.gkxcls taken
    exact ⟨out', inn, sends, .refl, by simpa using after, drained, nofun⟩
  | read taken =>
    have after := h.odkejnfsa taken
    exact ⟨out, inn, .refl, .refl, by simpa using after, drained, nofun⟩
  | epoch =>
    simp only [List.append_nil]
    exact ⟨out, inn, .refl, .refl, ⟨h.start, h.written, h.writes, h.reads, h.outgoing⟩, drained,
      nofun⟩
  | speak =>
    obtain ⟨out', sends, after⟩ := h.sayEpoch
    exact ⟨out', inn, sends, .refl, by simpa using after, drained, nofun⟩
  | flush =>
    simp only [List.append_nil]
    exact ⟨out, inn, .refl, .refl, ⟨h.start, h.written, h.writes, h.reads, nofun⟩, drained,
      h.outgoing⟩
  | heard =>
    simp only [List.append_nil]
    exact ⟨out, inn, .refl, .refl, ⟨h.start, h.written, h.writes, h.reads, h.outgoing⟩, drained,
      nofun⟩
  | deliver comes taken =>
    obtain ⟨out', inn', sends, receives, after, done⟩ := h.qtbejekw drained (genuine _ comes) taken
    exact ⟨out', inn', sends, receives, by simpa using after, done, nofun⟩

theorem Speaks.moves (h : Speaks isn l wrote read out inn) (drained : inn.Drained)
    (genuine : ∀ m, arrives m → Genuine isn inn out m) (moves : EndMoves arrives l l' w r sent) :
    ∃ out' inn', Transfer.Sends out out' ∧ Transfer.Receives inn inn' ∧
      Speaks isn l' (wrote ++ w) (read ++ r) out' inn' ∧ inn'.Drained ∧
      ∀ m ∈ sent, Genuine isn out' inn' m := by
  induction moves with
  | none => exact ⟨out, inn, .refl, .refl, by simpa using h, drained, nofun⟩
  | next before last ih =>
    obtain ⟨mid, mid', first, first', speaks, between, old⟩ := ih
    obtain ⟨out', inn', second, second', after, done, new⟩ := speaks.move between
      (fun m comes => (genuine m comes).frame first' first) last
    refine ⟨out', inn', first.trans second, first'.trans second', by simpa using after, done, ?_⟩
    intro m member
    rcases List.mem_append.mp member with was | now
    · exact (old m was).mono second second'
    · exact new m now

end DistSys.Lsp
