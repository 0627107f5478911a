import DistSys.Lsp.Ends

/-! The back-off: at which ticks a message that stays unacknowledged is sent again. -/
namespace DistSys.Lsp

open Function (update)
open DistSys.Lib

/-! ### The schedule -/

/-- The ticks that pass in silence before the retransmission with this index. -/
def gap (M : Int) : Nat → Nat
  | 0 => 0
  | k + 1 => min (2 ^ k) M.toNat

/-- What is seen at the ticks, one number of transmissions for each: the first `k` retransmissions,
and `rest` ticks in silence after them. -/
def schedule (M : Int) (k rest : Nat) : List Nat :=
  ((List.range k).flatMap fun i => List.replicate (gap M i) 0 ++ [1]) ++ List.replicate rest 0

theorem gap_le {M : Int} (patient : 0 ≤ M) (k : Nat) : (gap M k : Int) ≤ M := by
  cases k with
  | zero => simpa [gap] using patient
  | succ k =>
    have capped : gap M (k + 1) ≤ M.toNat := Nat.min_le_right _ _
    omega

/-- The source doubles the back-off and cuts it down to the longest one. -/
theorem gap_double {M : Int} (patient : 0 ≤ M) (k : Nat) :
    (if M < (gap M (k + 1) : Int) + gap M (k + 1) then M
      else (gap M (k + 1) : Int) + gap M (k + 1)) = gap M (k + 2) := by
  have once : gap M (k + 1) = min (2 ^ k) M.toNat := rfl
  have twice : gap M (k + 2) = min (2 * 2 ^ k) M.toNat := by rw [gap, Nat.pow_succ, Nat.mul_comm]
  have positive : 0 < 2 ^ k := Nat.two_pow_pos k
  split
  · omega
  · omega

theorem schedule_silent (M : Int) (k rest : Nat) :
    schedule M k rest ++ [0] = schedule M k (rest + 1) := by
  simp [schedule, List.replicate_succ']

theorem schedule_sends (M : Int) (k : Nat) :
    schedule M k (gap M k) ++ [1] = schedule M (k + 1) 0 := by
  simp [schedule, List.range_succ]

/-! ### What is known of one message -/

def Message.carries (m : Message) (s : Int) : Bool := m.type = .data ∧ m.seqNum = s

/-- The counters of the message `s`, and how often it stands in the buffer. -/
@[ext]
structure Pace where
  countdown : Int
  backOff : Int
  longest : Int
  copies : Nat

def Bxnzsdj.pace (l : Bxnzsdj) (s : Int) : Pace :=
  ⟨l.rrrrrqwrqrkk s, l.ssssshhwhh s, l.ppwens, l.rfxtuoncvn.countP (·.carries s)⟩

/-- The message at a tick. -/
def Pace.ticked (p : Pace) : Pace :=
  if p.countdown = 0 then
    ⟨p.backOff, if p.longest < p.backOff + p.backOff then p.longest else p.backOff + p.backOff,
      p.longest, p.copies + 1⟩
  else { p with countdown := p.countdown - 1 }

variable {isn : Int} {params : Params} {l l' : Bxnzsdj} {a : EndAction} {s k : Int}
  {payload : Payload} {rest : List Payload}

theorem data_carries (connID : Int) (payload : Payload) :
    (dataMessage connID k payload).carries s = decide (k = s) := by
  simp [Message.carries, dataMessage, newData]

theorem sendFront_pace (other : s ≠ l.frontSeqNum) : (l.sendFront payload rest).pace s = l.pace s := by
  ext
  · exact Function.update_of_ne other _ _
  · exact Function.update_of_ne other _ _
  · rfl
  · simp [Bxnzsdj.pace, Bxnzsdj.sendFront, data_carries, other.symm]

theorem sendFront_pace_front : (l.sendFront payload rest).pace l.frontSeqNum =
    ⟨0, if l.ppwens < 1 then l.ppwens else 1, l.ppwens, (l.pace l.frontSeqNum).copies + 1⟩ := by
  ext
  · exact Function.update_self _ _ _
  · exact Function.update_self _ _ _
  · rfl
  · simp [Bxnzsdj.pace, Bxnzsdj.sendFront, data_carries]

theorem resend_pace_other (other : s ≠ k) : (resend l k payload).pace s = l.pace s := by
  unfold resend
  split
  · ext
    · exact Function.update_of_ne other _ _
    · exact Function.update_of_ne other _ _
    · rfl
    · simp [Bxnzsdj.pace, data_carries, other.symm]
  · ext
    · exact Function.update_of_ne other _ _
    · rfl
    · rfl
    · rfl

theorem resend_pace (l : Bxnzsdj) (s : Int) (payload : Payload) :
    (resend l s payload).pace s = (l.pace s).ticked := by
  unfold resend Pace.ticked
  split
  · rename_i now
    rw [if_pos (show (l.pace s).countdown = 0 from now)]
    ext
    · exact Function.update_self _ _ _
    · exact Function.update_self _ _ _
    · rfl
    · simp [Bxnzsdj.pace, data_carries]
  · rename_i later
    rw [if_neg (show ¬ (l.pace s).countdown = 0 from later)]
    ext
    · exact Function.update_self _ _ _
    · rfl
    · rfl
    · rfl

/-- Every unacknowledged message is looked at once, whatever the order. -/
theorem resendAll_pace (waits : s ∈ l.qqbakktl) :
    (resendAll l l.qqbakktl.entries).pace s = (l.pace s).ticked := by
  obtain ⟨payload, found⟩ := Map.lookup_of_mem waits
  have loop := Map.view_foldl Bxnzsdj.pace (fun _ p => p.ticked)
    resend_pace (fun _ _ _ _ other => resend_pace_other other) l l.qqbakktl s
  rw [found] at loop
  exact loop

theorem lbzxtomtos_pace {m : Message} (other : m.type ≠ .data) : (l.lbzxtomtos m).pace s = l.pace s := by
  ext
  · rfl
  · rfl
  · rfl
  · simp [Bxnzsdj.pace, Bxnzsdj.lbzxtomtos, Message.carries, other]

theorem sayEpoch_pace (positive : 0 < l.rdcppgudji) (lives : l.jfkdl = false)
    (waits : s ∈ l.qqbakktl) : l.sayEpoch.pace s = (l.pace s).ticked := by
  have known : l.speakUp.rdcppgudji ≠ 0 := by
    have kept : l.speakUp.rdcppgudji = l.rdcppgudji :=
      (congrArg Bxnzsdj.rdcppgudji (speakUp_unsent l) :)
    omega
  have spoken : l.sayEpoch.pace s = l.speakUp.pace s := by
    simp [Bxnzsdj.sayEpoch, positive, lives, known]
    rfl
  rw [spoken]
  unfold Bxnzsdj.speakUp
  dsimp only
  split
  · exact resendAll_pace waits
  · exact (lbzxtomtos_pace (by simp [newAck])).trans (resendAll_pace waits)

/-! ### The other calls -/

/-- A message that was sent is not sent again when the window is filled. -/
theorem ngkdlse_pace (below : s < l.frontSeqNum) : l.ngkdlse.pace s = l.pace s := by
  have both := ngkdlse_rule (P := fun l' => s < l'.frontSeqNum ∧ l'.pace s = l.pace s) (by
      rintro l' payload rest ⟨below, same⟩ waits
      have next := sendFront_front waits
      exact ⟨by omega, (sendFront_pace (by omega)).trans same⟩) ⟨below, rfl⟩
  exact both.2

theorem forgetAll_pace (acked : List Int) (l : Bxnzsdj) :
    (acked.foldl Bxnzsdj.forget l).pace s = l.pace s := by
  induction acked generalizing l with
  | nil => rfl
  | cons first rest ih => exact ih _

theorem drain_pace (fuel : Nat) (l : Bxnzsdj) : (drain fuel l).pace s = l.pace s := by
  induction fuel generalizing l with
  | zero => rfl
  | succ fuel ih =>
    unfold drain
    split
    · rfl
    · exact ih _

theorem bvmndthe_pace (l : Bxnzsdj) (m : Message) : (l.bvmndthe m).pace s = l.pace s := by
  have acked : (l.lbzxtomtos (newAck l.rdcppgudji m.seqNum)).pace s = l.pace s :=
    lbzxtomtos_pace (by simp [newAck])
  unfold Bxnzsdj.bvmndthe
  split
  · rfl
  split
  · rfl
  split
  · rfl
  dsimp only
  split
  · exact acked
  · exact (drain_pace _ _).trans acked

/-! ### Transmissions -/

/-- How often one call has sent the message `s`. -/
def transmissions (s : Int) (l l' : Bxnzsdj) : Nat := (l.said l').countP (·.carries s)

/-- The transmissions at the ticks of a run, one number for each tick. -/
def atTicks (s : Int) (l : Bxnzsdj) (acts : List EndAction) : List Nat :=
  (trace endStep (fun l a l' => if a = .speak then [transmissions s l l'] else []) l acts).flatten

/-- The transmissions at the other calls. -/
def offTicks (s : Int) (l : Bxnzsdj) (acts : List EndAction) : List Nat :=
  (trace endStep (fun l a l' => if a = .speak then [] else [transmissions s l l']) l acts).flatten

/-- The message is unacknowledged, and the connection is not lost when it ticks. -/
def unackedAlive (s : Int) (l : Bxnzsdj) (a : EndAction) : Bool :=
  s ∈ l.qqbakktl ∧ (a = .speak → l.jfkdl = false)

theorem transmissions_copies (grown : l.rfxtuoncvn <+: l'.rfxtuoncvn) :
    (l'.pace s).copies = (l.pace s).copies + transmissions s l l' := by
  obtain ⟨new, grown⟩ := grown
  rw [transmissions, said_append grown.symm]
  simp [Bxnzsdj.pace, ← grown]

theorem transmissions_same (grown : l.rfxtuoncvn <+: l'.rfxtuoncvn) (same : l'.pace s = l.pace s) :
    transmissions s l l' = 0 := by
  have copies := transmissions_copies (s := s) grown
  rw [same] at copies
  omega

/-- A call that is no tick does nothing to a message that was sent. -/
theorem EndTurn.apart (turn : EndTurn l a l') (other : a ≠ .speak) (below : s < l.frontSeqNum) :
    (l'.pace s).countdown = (l.pace s).countdown ∧ (l'.pace s).backOff = (l.pace s).backOff ∧
      transmissions s l l' = 0 := by
  have quiet : a ≠ .flush → l'.pace s = l.pace s →
      (l'.pace s).countdown = (l.pace s).countdown ∧ (l'.pace s).backOff = (l.pace s).backOff ∧
        transmissions s l l' = 0 := by
    intro keeps same
    exact ⟨by rw [same], by rw [same], transmissions_same (turn.grows keeps) same⟩
  cases turn with
  | flush => exact ⟨rfl, rfl, by simp [transmissions, Bxnzsdj.said, Bxnzsdj.bnmgrlr]⟩
  | speak => exact absurd rfl other
  | write =>
    refine quiet (by simp) (ngkdlse_pace ?_)
    simp only [Bxnzsdj.frontSeqNum, List.length_append, List.length_singleton] at below ⊢
    omega
  | settled =>
    rename_i m acked known unacked
    rw [← forgetAll_front acked l] at below
    exact quiet (by simp) ((ngkdlse_pace below).trans (forgetAll_pace acked l))
  | data => exact quiet (by simp) (bvmndthe_pace l _)
  | read | connect | ignored | connected | heard | epoch => exact quiet (by simp) rfl

/-- The window is filled, and a message is sent for the first time. -/
theorem ngkdlse_first (fresh : s ∉ l.qqbakktl) (sent : s ∈ l.ngkdlse.qqbakktl) :
    l.ngkdlse.pace s =
      ⟨0, if l.ppwens < 1 then l.ppwens else 1, l.ppwens, (l.pace s).copies + 1⟩ := by
  have either := ngkdlse_rule (l := l) (P := fun l' => l'.ppwens = l.ppwens ∧
      (s ∉ l'.qqbakktl ∧ (l'.pace s).copies = (l.pace s).copies ∨ s < l'.frontSeqNum ∧ l'.pace s =
        ⟨0, if l.ppwens < 1 then l.ppwens else 1, l.ppwens, (l.pace s).copies + 1⟩)) (by
    rintro l' payload rest ⟨longest, state⟩ waits
    have next := sendFront_front waits
    refine ⟨longest, ?_⟩
    rcases state with ⟨absent, copies⟩ | ⟨below, done⟩
    · by_cases here : s = l'.frontSeqNum
      · subst here
        refine .inr ⟨by omega, ?_⟩
        rw [sendFront_pace_front, longest, copies]
      · refine .inl ⟨?_, by rw [sendFront_pace here, copies]⟩
        intro member
        exact ((AList.mem_insert _).mp member).elim here absent
    · exact .inr ⟨by omega, (sendFront_pace (by omega)).trans done⟩) ⟨rfl, .inl ⟨fresh, rfl⟩⟩
  rcases either.2 with ⟨absent, -⟩ | ⟨-, done⟩
  · exact absurd sent absent
  · exact done

/-- A message comes to be unacknowledged when it is sent for the first time. -/
theorem EndTurn.sends (turn : EndTurn l a l') (fresh : s ∉ l.qqbakktl) (sent : s ∈ l'.qqbakktl) :
    (l'.pace s).countdown = 0 ∧
      (l'.pace s).backOff = (if l.ppwens < 1 then l.ppwens else 1) ∧ transmissions s l l' = 1 := by
  have once : a ≠ .flush → l'.pace s =
      ⟨0, if l.ppwens < 1 then l.ppwens else 1, l.ppwens, (l.pace s).copies + 1⟩ →
      (l'.pace s).countdown = 0 ∧ (l'.pace s).backOff = (if l.ppwens < 1 then l.ppwens else 1) ∧
        transmissions s l l' = 1 := by
    intro keeps first
    have copies := transmissions_copies (s := s) (turn.grows keeps)
    rw [first] at copies
    refine ⟨by rw [first], by rw [first], ?_⟩
    dsimp only at copies
    omega
  have same : l.SameWriter l' → False := fun same => fresh (same.unacked ▸ sent)
  cases turn with
  | write => exact once (by simp) (ngkdlse_first fresh sent)
  | settled =>
    rename_i m acked known unacked
    have same := forgetAll_pace (s := s) acked l
    have longest : (acked.foldl Bxnzsdj.forget l).ppwens = l.ppwens := congrArg Pace.longest same
    have first := ngkdlse_first (fun member => fresh (forgetAll_mem member)) sent
    rw [longest, same] at first
    exact once (by simp) first
  | data => exact (same (unheard_writer (bvmndthe_unheard l _))).elim
  | speak => exact (same (sayEpoch_utters l).writer).elim
  | ignored => exact absurd sent fresh
  | read | connect | connected | heard | flush | epoch =>
    exact (same ⟨rfl, rfl, rfl, rfl, rfl⟩).elim

/-! ### A run -/

/-- The message has been sent `k` times again, and since then `rest` ticks have passed. -/
structure Paced (isn M : Int) (s : Int) (k rest : Nat) (l : Bxnzsdj) : Prop where
  numbered : Numbered isn l
  connected : 0 < l.rdcppgudji
  longest : l.ppwens = M
  countdown : l.rrrrrqwrqrkk s = gap M k - rest
  backOff : l.ssssshhwhh s = gap M (k + 1)
  within : rest ≤ gap M k

/-- What a tick does to the message. -/
theorem Paced.tick {M : Int} {n rest : Nat} (h : Paced isn M s n rest l) (patient : 0 ≤ M)
    (waits : s ∈ l.qqbakktl) (lives : l.jfkdl = false) :
    ∃ n' rest', Paced isn M s n' rest' l.sayEpoch ∧
      schedule M n rest ++ [transmissions s l l.sayEpoch] = schedule M n' rest' := by
  have turn : EndTurn l .speak l.sayEpoch := .speak
  have same := turn.sameEnd
  have connected := h.connected
  have id := same.id (by omega)
  have ticked := sayEpoch_pace h.connected lives waits
  have copies := transmissions_copies (s := s) (turn.grows (by simp))
  have counter : (l.pace s).countdown = gap M n - rest := h.countdown
  have within := h.within
  by_cases now : (l.pace s).countdown = 0
  · rw [Pace.ticked, if_pos now] at ticked
    rw [ticked] at copies
    have whole : rest = gap M n := by omega
    refine ⟨n + 1, 0, ⟨h.numbered.turn turn, by omega, same.backOff.trans h.longest, ?_, ?_,
      Nat.zero_le _⟩, ?_⟩
    · have next : l.sayEpoch.rrrrrqwrqrkk s = l.ssssshhwhh s := congrArg Pace.countdown ticked
      rw [next, h.backOff]
      simp
    · have next := congrArg Pace.backOff ticked
      simp only [Bxnzsdj.pace, h.backOff, h.longest] at next
      rw [next, gap_double patient]
    · dsimp only at copies
      rw [whole, ← schedule_sends, show transmissions s l l.sayEpoch = 1 by omega]
  · rw [Pace.ticked, if_neg now] at ticked
    rw [ticked] at copies
    refine ⟨n, rest + 1, ⟨h.numbered.turn turn, by omega, same.backOff.trans h.longest, ?_, ?_,
      by omega⟩, ?_⟩
    · have next : l.sayEpoch.rrrrrqwrqrkk s = l.rrrrrqwrqrkk s - 1 := congrArg Pace.countdown ticked
      rw [next, h.countdown]
      omega
    · have next : l.sayEpoch.ssssshhwhh s = l.ssssshhwhh s := congrArg Pace.backOff ticked
      rw [next, h.backOff]
    · dsimp only at copies
      rw [← schedule_silent, show transmissions s l l.sayEpoch = 0 by omega]

theorem Paced.other {M : Int} {n rest : Nat} (h : Paced isn M s n rest l) (turn : EndTurn l a l')
    (other : a ≠ .speak) (waits : s ∈ l.qqbakktl) :
    Paced isn M s n rest l' ∧ transmissions s l l' = 0 := by
  obtain ⟨countdown, backOff, silent⟩ := turn.apart other (h.numbered.unacked s waits).2
  have same := turn.sameEnd
  have connected := h.connected
  have id := same.id (by omega)
  exact ⟨⟨h.numbered.turn turn, by omega, same.backOff.trans h.longest, countdown.trans h.countdown,
    backOff.trans h.backOff, h.within⟩, silent⟩

theorem Paced.step {M : Int} {n rest : Nat} (h : Paced isn M s n rest l) (patient : 0 ≤ M)
    (stays : unackedAlive s l a = true) (taken : endStep l a = some l') :
    ∃ n' rest', Paced isn M s n' rest' l' ∧
      schedule M n rest ++ (if a = .speak then [transmissions s l l'] else []) =
        schedule M n' rest' ∧
      ∀ m ∈ (if a = .speak then [] else [transmissions s l l']), m = 0 := by
  obtain ⟨waits, lives⟩ := of_decide_eq_true stays
  by_cases tick : a = .speak
  · subst tick
    cases Option.some.inj taken
    obtain ⟨n', rest', next, seen⟩ := h.tick patient waits (lives rfl)
    exact ⟨n', rest', next, seen, by simp⟩
  · obtain ⟨next, silent⟩ := h.other (endStep_cases taken) tick waits
    exact ⟨n, rest, next, by simp [tick], by simp [tick, silent]⟩

/-- A message is sent once when it comes to be unacknowledged. While it stays so and the connection
lives, it is sent again at ticks only, with the gaps of the schedule between them. -/
theorem backoff_schedule (isn : Int) (params : Params) (patient : 0 ≤ params.maxBackOffInterval)
    (new : NewEnd isn params l) (before : List EndAction) {l₁ l₂ l₃ : Bxnzsdj}
    (reached : run endStep l before = some l₁) (a : EndAction) (sends : endStep l₁ a = some l₂)
    (s : Int) (fresh : s ∉ l₁.qqbakktl) (sent : s ∈ l₂.qqbakktl) (connected : 0 < l₂.rdcppgudji)
    (after : List EndAction) (stays : Along endStep (unackedAlive s) l₂ after)
    (goes : run endStep l₂ after = some l₃) :
    transmissions s l₁ l₂ = 1 ∧ (∀ n ∈ offTicks s l₂ after, n = 0) ∧
      (∃ k rest, rest ≤ gap params.maxBackOffInterval k ∧
        atTicks s l₂ after = schedule params.maxBackOffInterval k rest) ∧
      ∀ k, (gap params.maxBackOffInterval k : Int) ≤ params.maxBackOffInterval := by
  have turn := endStep_cases sends
  have longest := (sameEnd_run reached).backOff.trans (newEnd_fixed new).1
  obtain ⟨countdown, backOff, once⟩ := turn.sends fresh sent
  have start : Paced isn params.maxBackOffInterval s 0 0 l₂ := by
    refine ⟨(numbered_run new reached).turn turn, connected, turn.sameEnd.backOff.trans longest,
      countdown, ?_, Nat.zero_le _⟩
    refine backOff.trans ?_
    rw [longest, gap]
    split
    · omega
    · omega
  have off := trace_invariant (fun l a l' => if a = .speak then [] else [transmissions s l l'])
    (fun l seen => (∃ n rest, Paced isn params.maxBackOffInterval s n rest l) ∧
      ∀ n ∈ seen.flatten, n = 0) (by
      rintro l a l' seen ⟨⟨n, rest, h⟩, quiet⟩ stays taken
      obtain ⟨n', rest', next, -, silent⟩ := h.step patient stays taken
      refine ⟨⟨n', rest', next⟩, ?_⟩
      intro m member
      rw [List.flatten_append, List.flatten_singleton] at member
      exact (List.mem_append.mp member).elim (quiet m) (silent m))
    ⟨⟨0, 0, start⟩, by simp⟩ after stays goes
  have ticks := trace_invariant (fun l a l' => if a = .speak then [transmissions s l l'] else [])
    (fun l seen => ∃ n rest, Paced isn params.maxBackOffInterval s n rest l ∧
      seen.flatten = schedule params.maxBackOffInterval n rest) (by
      rintro l a l' seen ⟨n, rest, h, shown⟩ stays taken
      obtain ⟨n', rest', next, grown, -⟩ := h.step patient stays taken
      refine ⟨n', rest', next, ?_⟩
      rw [List.flatten_append, List.flatten_singleton, shown, grown])
    ⟨0, 0, start, rfl⟩ after stays goes
  obtain ⟨k, rest, paced, shown⟩ := ticks
  exact ⟨once, off.2, ⟨k, rest, paced.within, shown⟩, gap_le patient⟩

/-- A message with a longest back-off of two, over seven ticks: it is sent again at the first, the
third and the sixth. -/
theorem backoff_of_two :
    atTicks 1 (((nfkdlws 0 ⟨10, 1, 2, 1⟩ 1).gkxcls [7]).getD (nfkdlws 0 ⟨10, 1, 2, 1⟩ 1))
        (List.replicate 7 [.epoch, .speak]).flatten = [1, 0, 1, 0, 0, 1, 0] ∧
      ∃ k rest, rest ≤ gap 2 k ∧
        atTicks 1 (((nfkdlws 0 ⟨10, 1, 2, 1⟩ 1).gkxcls [7]).getD (nfkdlws 0 ⟨10, 1, 2, 1⟩ 1))
          (List.replicate 7 [.epoch, .speak]).flatten = schedule 2 k rest := by
  refine ⟨by decide, ?_⟩
  exact (backoff_schedule 0 ⟨10, 1, 2, 1⟩ (by decide) (.server 1) [] rfl (.write [7]) rfl 1 (by decide)
    (by decide) (by decide) (List.replicate 7 [.epoch, .speak]).flatten (by decide) rfl).2.2.1

end DistSys.Lsp
