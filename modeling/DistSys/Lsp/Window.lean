import DistSys.Lsp.Frames
import DistSys.Lsp.Link

/-! The sliding window: how far the unacknowledged messages of an end reach, and that the other end
never finds a message beyond its own window. -/
namespace DistSys.Lsp

open DistSys.Lib

variable {isn : Int} {params : Params} {wrote : List Payload} {l l' : Bxnzsdj}

/-! ### The unacknowledged messages -/

/-- The payloads `wrote` have been written at this end. The unacknowledged ones are not more than
allowed and span less than a window; each stands under the number it was written with, and those
that wait come behind them and are the last that were written. -/
structure Windowed (isn : Int) (params : Params) (wrote : List Payload) (l : Bxnzsdj) : Prop where
  size : (Map.size l.qqbakktl : Int) ≤ params.maxUnackedMessages
  span : ∀ s ∈ l.qqbakktl, ∀ s' ∈ l.qqbakktl, s' < s + params.windowSize
  unacked : ∀ s p, l.qqbakktl.lookup s = some p → ∃ i : Nat, s = isn + 1 + i ∧ wrote[i]? = some p
  below : ∀ s ∈ l.qqbakktl, s < l.frontSeqNum
  pending : l.ffieiqwlhhh <:+ wrote

/-- With the counter and the limits of the end. -/
structure Windows (isn : Int) (params : Params) (wrote : List Payload) (l : Bxnzsdj) : Prop
    extends Windowed isn params wrote l where
  counter : l.hooppjkl = isn + 1 + wrote.length
  window : l.heee8w = params.windowSize
  limit : l.mmgkelwz = params.maxUnackedMessages

/-- The fields that the window is about. -/
structure Bxnzsdj.SameWriter (l l' : Bxnzsdj) : Prop where
  unacked : l'.qqbakktl = l.qqbakktl
  pending : l'.ffieiqwlhhh = l.ffieiqwlhhh
  counter : l'.hooppjkl = l.hooppjkl
  window : l'.heee8w = l.heee8w
  limit : l'.mmgkelwz = l.mmgkelwz

theorem Windows.same (h : Windows isn params wrote l) (same : l.SameWriter l') :
    Windows isn params wrote l' := by
  have front : l'.frontSeqNum = l.frontSeqNum := by
    rw [Bxnzsdj.frontSeqNum, same.counter, same.pending, Bxnzsdj.frontSeqNum]
  constructor
  · constructor
    · rw [same.unacked]
      exact h.size
    · rw [same.unacked]
      exact h.span
    · rw [same.unacked]
      exact h.unacked
    · rw [same.unacked, front]
      exact h.below
    · rw [same.pending]
      exact h.pending
  · rw [same.counter, h.counter]
  · rw [same.window, h.window]
  · rw [same.limit, h.limit]

/-- The number of the first payload that waits is the number of those before it. -/
theorem Windows.front (h : Windows isn params wrote l) :
    ∃ sent, sent ++ l.ffieiqwlhhh = wrote ∧ l.frontSeqNum = isn + 1 + sent.length := by
  obtain ⟨sent, whole⟩ := h.pending
  refine ⟨sent, whole, ?_⟩
  have length := congrArg List.length whole
  rw [List.length_append] at length
  rw [Bxnzsdj.frontSeqNum, h.counter]
  omega

theorem Windows.number (h : Windows isn params wrote l) {s : Int} (member : s ∈ l.qqbakktl) :
    isn + 1 ≤ s := by
  obtain ⟨p, found⟩ := Map.lookup_of_mem member
  obtain ⟨i, rfl, -⟩ := h.unacked s p found
  omega

/-! ### The loop that fills the window -/

/-- Of numbers that are all positive the fold keeps the least: its test for zero is never met. -/
theorem least_foldl (keys : List Int) (least : Int) (positive : 0 < least)
    (all : ∀ k ∈ keys, 0 < k) :
    0 < keys.foldl (fun least seqnum => if seqnum < least ∨ least = 0 then seqnum else least) least ∧
      keys.foldl (fun least seqnum => if seqnum < least ∨ least = 0 then seqnum else least) least ≤
        least ∧
      ∀ k ∈ keys, keys.foldl
        (fun least seqnum => if seqnum < least ∨ least = 0 then seqnum else least) least ≤ k := by
  induction keys generalizing least with
  | nil => simp [positive]
  | cons first rest ih =>
    have first_pos := all first List.mem_cons_self
    have rest_pos : ∀ k ∈ rest, 0 < k := fun k member => all k (List.mem_cons_of_mem _ member)
    simp only [List.foldl_cons]
    split
    · rename_i less
      obtain ⟨still, low, others⟩ := ih first first_pos rest_pos
      refine ⟨still, by omega, ?_⟩
      intro k member
      rcases List.mem_cons.mp member with rfl | later
      · exact low
      · exact others k later
    · rename_i more
      obtain ⟨still, low, others⟩ := ih least positive rest_pos
      refine ⟨still, low, ?_⟩
      intro k member
      rcases List.mem_cons.mp member with rfl | later
      · omega
      · exact others k later

section

variable (h : Windows isn params wrote l)
include h

theorem Windows.minPendingSeqNum (start : 0 ≤ isn) :
    0 < l.minPendingSeqNum ∧ l.minPendingSeqNum ≤ l.frontSeqNum ∧
      ∀ s ∈ l.qqbakktl, l.minPendingSeqNum ≤ s := by
  obtain ⟨sent, -, front⟩ := h.front
  have least := least_foldl l.qqbakktl.keys l.frontSeqNum (by omega) fun k member => by
    have number := h.number (AList.mem_keys.mpr member)
    omega
  exact ⟨least.1, least.2.1, fun s member => least.2.2 s (AList.mem_keys.mp member)⟩

/-- The first payload that waits is sent. The window is counted from a number that no unacknowledged
one is below. -/
theorem Windows.sendFront (wide : 1 ≤ params.windowSize) {payload : Payload} {rest : List Payload}
    (waits : l.ffieiqwlhhh = payload :: rest) {base : Int} (least : ∀ s ∈ l.qqbakktl, base ≤ s)
    (inside : l.frontSeqNum < base + l.heee8w) (few : (Map.size l.qqbakktl : Int) < l.mmgkelwz) :
    Windows isn params wrote (l.sendFront payload rest) := by
  obtain ⟨sent, whole, front⟩ := h.front
  have fresh : l.frontSeqNum ∉ l.qqbakktl := by
    intro member
    have below := h.below _ member
    omega
  rw [h.window] at inside
  constructor
  · constructor
    · simp only [Bxnzsdj.sendFront]
      rw [Map.size_insert payload fresh, ← h.limit]
      omega
    · intro s member s' member'
      simp only [Bxnzsdj.sendFront, AList.mem_insert] at member member'
      rcases member with rfl | old
      · rcases member' with rfl | old'
        · omega
        · have below := h.below s' old'
          omega
      · rcases member' with rfl | old'
        · have low := least s old
          omega
        · exact h.span s old s' old'
    · intro s p found
      simp only [Bxnzsdj.sendFront, Map.lookup_insert] at found
      split at found
      · rename_i here
        cases Option.some.inj found
        refine ⟨sent.length, here.trans front, ?_⟩
        rw [← whole, waits]
        simp
      · exact h.unacked s p found
    · intro s member
      simp only [Bxnzsdj.sendFront, AList.mem_insert] at member
      have next : (l.sendFront payload rest).frontSeqNum = l.frontSeqNum + 1 := by
        simp only [Bxnzsdj.frontSeqNum, Bxnzsdj.sendFront, waits, List.length_cons]
        omega
      rw [next]
      rcases member with rfl | old
      · omega
      · have below := h.below s old
        omega
    · have all := h.pending
      rw [waits] at all
      exact (List.suffix_cons payload rest).trans all
  · exact h.counter
  · exact h.window
  · exact h.limit

theorem Windows.fillWindow (wide : 1 ≤ params.windowSize) (fuel : Nat) {base : Int}
    (positive : 0 < base) (low : base ≤ l.frontSeqNum) (least : ∀ s ∈ l.qqbakktl, base ≤ s) :
    Windows isn params wrote (Lsp.fillWindow fuel base l) := by
  induction fuel generalizing l with
  | zero => exact h
  | succ fuel ih =>
    unfold Lsp.fillWindow
    split
    · exact h
    · rename_i payload rest waits
      split
      · rename_i room
        have inside : l.frontSeqNum < base + l.heee8w := by
          rw [h.window] at room ⊢
          exact Int.lt_of_lt_of_le room.1 (goInt_le (by omega))
        have next := h.sendFront wide waits least inside room.2
        rw [if_neg (by omega)]
        apply ih next
        · simp only [Bxnzsdj.frontSeqNum, Bxnzsdj.sendFront, waits, List.length_cons] at low ⊢
          omega
        · intro s member
          simp only [Bxnzsdj.sendFront, AList.mem_insert] at member
          rcases member with rfl | old
          · exact low
          · exact least s old
      · exact h

theorem Windows.ngkdlse (start : 0 ≤ isn) (wide : 1 ≤ params.windowSize) :
    Windows isn params wrote l.ngkdlse := by
  obtain ⟨positive, low, least⟩ := h.minPendingSeqNum start
  exact h.fillWindow wide _ positive low least

/-! ### The other calls -/

theorem Windows.gkxcls (start : 0 ≤ isn) (wide : 1 ≤ params.windowSize) {payload : Payload}
    (written : l.gkxcls payload = some l') : Windows isn params (wrote ++ [payload]) l' := by
  obtain ⟨-, -, rfl⟩ := gkxcls_cases written
  refine Windows.ngkdlse ?_ start wide
  obtain ⟨sent, whole⟩ := h.pending
  constructor
  · refine ⟨h.size, h.span, ?_, ?_, ⟨sent, by rw [← List.append_assoc, whole]⟩⟩
    · intro s p found
      obtain ⟨i, number, place⟩ := h.unacked s p found
      have inside := (List.getElem?_eq_some_iff.mp place).1
      exact ⟨i, number, by rw [List.getElem?_append_left inside, place]⟩
    · intro s member
      have below := h.below s member
      simp only [Bxnzsdj.frontSeqNum, List.length_append, List.length_singleton] at below ⊢
      omega
  · simp only [h.counter, List.length_append, List.length_singleton]
    omega
  · exact h.window
  · exact h.limit

theorem Windows.forget (seqNum : Int) : Windows isn params wrote (l.forget seqNum) := by
  have still : ∀ s ∈ (l.forget seqNum).qqbakktl, s ∈ l.qqbakktl :=
    fun s member => (AList.mem_erase.mp member).2
  constructor
  · refine ⟨?_, ?_, ?_, fun s member => h.below s (still s member), h.pending⟩
    · have size := h.size
      have fewer := Map.size_erase_le l.qqbakktl seqNum
      simp only [Bxnzsdj.forget]
      omega
    · intro s member s' member'
      exact h.span s (still s member) s' (still s' member')
    · intro s p found
      simp only [Bxnzsdj.forget, Map.lookup_erase] at found
      split at found
      · contradiction
      · exact h.unacked s p found
  · exact h.counter
  · exact h.window
  · exact h.limit

theorem Windows.settled (start : 0 ≤ isn) (wide : 1 ≤ params.windowSize) (acked : List Int) :
    Windows isn params wrote (acked.foldl Bxnzsdj.forget l).ngkdlse := by
  have fewer : Windows isn params wrote (acked.foldl Bxnzsdj.forget l) := by
    induction acked generalizing l with
    | nil => exact h
    | cons first rest ih => exact ih (h.forget first)
  exact fewer.ngkdlse start wide

end

/-- Something is said: messages come into the buffer, and data only for what is unacknowledged. -/
structure Bxnzsdj.Utters (l l' : Bxnzsdj) : Prop where
  writer : l.SameWriter l'
  sent : ∀ m ∈ l'.rfxtuoncvn, m ∈ l.rfxtuoncvn ∨ (m.type = .data → m.seqNum ∈ l.qqbakktl)

theorem Bxnzsdj.SameWriter.refl (l : Bxnzsdj) : l.SameWriter l := ⟨rfl, rfl, rfl, rfl, rfl⟩

theorem Bxnzsdj.Utters.refl (l : Bxnzsdj) : l.Utters l := ⟨.refl l, fun _ => .inl⟩

theorem Bxnzsdj.Utters.trans {l'' : Bxnzsdj} (one : l.Utters l') (two : l'.Utters l'') : l.Utters l'' := by
  have first := one.writer
  have second := two.writer
  refine ⟨⟨second.unacked.trans first.unacked, second.pending.trans first.pending,
    second.counter.trans first.counter, second.window.trans first.window,
    second.limit.trans first.limit⟩, ?_⟩
  intro m member
  rcases two.sent m member with before | new
  · exact one.sent m before
  · rw [first.unacked] at new
    exact .inr new

theorem lbzxtomtos_utters {m : Message} (other : m.type ≠ .data) : l.Utters (l.lbzxtomtos m) := by
  refine ⟨⟨rfl, rfl, rfl, rfl, rfl⟩, ?_⟩
  intro m' member
  rcases List.mem_append.mp member with old | new
  · exact .inl old
  · cases List.mem_singleton.mp new
    exact .inr fun data => absurd data other

theorem resend_utters {s : Int} {p : Payload} (waits : s ∈ l.qqbakktl) : l.Utters (resend l s p) := by
  unfold resend
  split
  · refine ⟨⟨rfl, rfl, rfl, rfl, rfl⟩, ?_⟩
    intro m member
    rcases List.mem_append.mp member with old | new
    · exact .inl old
    · cases List.mem_singleton.mp new
      exact .inr fun _ => waits
  · exact ⟨⟨rfl, rfl, rfl, rfl, rfl⟩, fun _ => .inl⟩

theorem resendAll_utters {entries : List (Σ _ : Int, Payload)}
    (wait : ∀ entry ∈ entries, entry.1 ∈ l.qqbakktl) : l.Utters (resendAll l entries) := by
  induction entries generalizing l with
  | nil => exact .refl l
  | cons entry rest ih =>
    have first := resend_utters (p := entry.2) (wait entry List.mem_cons_self)
    have later := ih (l := resend l entry.1 entry.2) fun other member => by
      rw [resend_unacked]
      exact wait other (List.mem_cons_of_mem _ member)
    exact first.trans later

theorem speakUp_utters (l : Bxnzsdj) : l.Utters l.speakUp := by
  have resent : l.Utters (resendAll l l.qqbakktl.entries) := resendAll_utters fun entry member =>
    Map.mem_of_lookup (Map.mem_entries.mp member)
  unfold Bxnzsdj.speakUp
  dsimp only
  split
  · exact resent
  · exact resent.trans (lbzxtomtos_utters (by simp [newAck]))

theorem sayEpoch_utters (l : Bxnzsdj) : l.Utters l.sayEpoch := by
  have unflag : ∀ {l l' : Bxnzsdj}, l.Utters l' → l.Utters { l' with tttbejw := false } := by
    intro l l' uttered
    exact ⟨⟨uttered.writer.unacked, uttered.writer.pending, uttered.writer.counter, uttered.writer.window,
      uttered.writer.limit⟩, uttered.sent⟩
  have asks : ∀ {l l' : Bxnzsdj}, l.Utters l' → l.Utters (if l'.rdcppgudji = 0 then
      l'.lbzxtomtos (newConnect l'.gksmgskml) else l') := by
    intro l l' uttered
    split
    · exact uttered.trans (lbzxtomtos_utters (by simp [newConnect]))
    · exact uttered
  unfold Bxnzsdj.sayEpoch
  dsimp only
  split
  · exact unflag (asks (speakUp_utters l))
  · exact unflag (asks (.refl l))

theorem unheard_writer (same : l'.unheard = l.unheard) : l.SameWriter l' :=
  ⟨(congrArg Bxnzsdj.qqbakktl same :), (congrArg Bxnzsdj.ffieiqwlhhh same :),
    (congrArg Bxnzsdj.hooppjkl same :), (congrArg Bxnzsdj.heee8w same :),
    (congrArg Bxnzsdj.mmgkelwz same :)⟩

theorem Windows.qtbejekw (h : Windows isn params wrote l) (start : 0 ≤ isn)
    (wide : 1 ≤ params.windowSize) {m : Message} (taken : l.qtbejekw m = some l') :
    Windows isn params wrote l' := by
  cases qtbejekw_cases taken with
  | connect => exact h.same ⟨rfl, rfl, rfl, rfl, rfl⟩
  | data =>
    have same := unheard_writer (bvmndthe_unheard l m)
    exact h.same ⟨same.unacked, same.pending, same.counter, same.window, same.limit⟩
  | ack _ step =>
    cases step with
    | ignored => exact h
    | connected => exact h.same ⟨rfl, rfl, rfl, rfl, rfl⟩
    | settled _ acked => exact h.settled start wide acked

theorem Windows.move (h : Windows isn params wrote l) (start : 0 ≤ isn)
    (wide : 1 ≤ params.windowSize) {arrives : Message → Prop} {w r : List Payload}
    {sent : List Message} (move : EndMove arrives l l' w r sent) :
    Windows isn params (wrote ++ w) l' := by
  cases move with
  | write taken => exact h.gkxcls start wide taken
  | read taken =>
    rw [List.append_nil, (odkejnfsa_cases taken).2.2]
    exact h.same ⟨rfl, rfl, rfl, rfl, rfl⟩
  | epoch =>
    rw [List.append_nil]
    exact h.same ⟨rfl, rfl, rfl, rfl, rfl⟩
  | speak =>
    rw [List.append_nil]
    exact h.same (sayEpoch_utters l).writer
  | flush | heard =>
    rw [List.append_nil]
    exact h.same ⟨rfl, rfl, rfl, rfl, rfl⟩
  | deliver _ taken =>
    rw [List.append_nil]
    exact h.qtbejekw start wide taken

theorem Windows.moves (h : Windows isn params wrote l) (start : 0 ≤ isn)
    (wide : 1 ≤ params.windowSize) {arrives : Message → Prop} {w r : List Payload}
    {sent : List Message} (moves : EndMoves arrives l l' w r sent) :
    Windows isn params (wrote ++ w) l' := by
  induction moves with
  | none =>
    rw [List.append_nil]
    exact h
  | next _ last ih =>
    rw [← List.append_assoc]
    exact ih.move start wide last

theorem windows_new (isn : Int) (params : Params) (limit : 1 ≤ params.maxUnackedMessages) :
    Windows isn params [] (fnlwefjbun isn params) := by
  constructor
  · refine ⟨?_, ?_, ?_, ?_, List.nil_suffix⟩
    · simp only [fnlwefjbun]
      exact Int.le_trans (by decide) limit
    · intro s member
      exact absurd member (AList.notMem_empty s)
    · intro s p found
      simp [fnlwefjbun] at found
    · intro s member
      exact absurd member (AList.notMem_empty s)
  · simp [fnlwefjbun]
  · rfl
  · rfl

/-! ### The other end -/

/-- After a call, a data message that has come into the buffer is unacknowledged. The expected number
only grows. -/
structure Bxnzsdj.Onward (l l' : Bxnzsdj) : Prop where
  sent : ∀ m ∈ l'.rfxtuoncvn, m ∈ l.rfxtuoncvn ∨ (m.type = .data → m.seqNum ∈ l'.qqbakktl)
  expected : l.bnmslkllh ≤ l'.bnmslkllh

theorem ngkdlse_sent (l : Bxnzsdj) : (∀ s ∈ l.qqbakktl, s ∈ l.ngkdlse.qqbakktl) ∧
    ∀ m ∈ l.ngkdlse.rfxtuoncvn, m ∈ l.rfxtuoncvn ∨ m.seqNum ∈ l.ngkdlse.qqbakktl := by
  refine ngkdlse_rule (P := fun l' => (∀ s ∈ l.qqbakktl, s ∈ l'.qqbakktl) ∧
    ∀ m ∈ l'.rfxtuoncvn, m ∈ l.rfxtuoncvn ∨ m.seqNum ∈ l'.qqbakktl) ?_
    ⟨fun _ member => member, fun _ => .inl⟩
  rintro l' payload rest ⟨keeps, sent⟩ -
  refine ⟨fun s member => (AList.mem_insert _).mpr (.inr (keeps s member)), ?_⟩
  intro m member
  rcases List.mem_append.mp member with before | front
  · exact (sent m before).imp_right fun old => (AList.mem_insert _).mpr (.inr old)
  · cases List.mem_singleton.mp front
    exact .inr ((AList.mem_insert _).mpr (.inl rfl))

theorem ngkdlse_onward (l : Bxnzsdj) : l.Onward l.ngkdlse := by
  have expected : l.ngkdlse.bnmslkllh = l.bnmslkllh :=
    (congrArg Bxnzsdj.bnmslkllh (ngkdlse_unsent l) :)
  refine ⟨?_, Int.le_of_eq expected.symm⟩
  intro m member
  exact ((ngkdlse_sent l).2 m member).imp_right fun new _ => new

theorem Bxnzsdj.Onward.of_eq (same : l'.rfxtuoncvn = l.rfxtuoncvn)
    (expected : l'.bnmslkllh = l.bnmslkllh) : l.Onward l' :=
  ⟨fun _ member => .inl (same ▸ member), Int.le_of_eq expected.symm⟩

theorem forgetAll_sent (acked : List Int) (l : Bxnzsdj) :
    (acked.foldl Bxnzsdj.forget l).rfxtuoncvn = l.rfxtuoncvn := by
  induction acked generalizing l with
  | nil => rfl
  | cons first rest ih => exact ih _

theorem drain_expected (fuel : Nat) (l : Bxnzsdj) :
    l.bnmslkllh ≤ (drain fuel l).bnmslkllh ∧ (drain fuel l).rfxtuoncvn = l.rfxtuoncvn := by
  induction fuel generalizing l with
  | zero => exact ⟨Int.le_refl _, rfl⟩
  | succ fuel ih =>
    unfold drain
    split
    · exact ⟨Int.le_refl _, rfl⟩
    · rename_i payload _
      obtain ⟨grows, same⟩ := ih (l.pass payload)
      have next : (l.pass payload).bnmslkllh = l.bnmslkllh + 1 := rfl
      exact ⟨by omega, same⟩

theorem bvmndthe_onward (l : Bxnzsdj) (m : Message) : l.Onward (l.bvmndthe m) := by
  have acks : ∀ number, ∀ m' ∈ l.rfxtuoncvn ++ [newAck l.rdcppgudji number],
      m' ∈ l.rfxtuoncvn ∨ m'.type ≠ .data := by
    intro number m' member
    rcases List.mem_append.mp member with old | new
    · exact .inl old
    · cases List.mem_singleton.mp new
      exact .inr (by simp [newAck])
  unfold Bxnzsdj.bvmndthe
  split
  · exact .of_eq rfl rfl
  split
  · exact .of_eq rfl rfl
  split
  · exact .of_eq rfl rfl
  dsimp only
  split
  · refine ⟨?_, Int.le_refl _⟩
    intro m' member
    exact (acks _ m' member).imp_right fun other data => absurd data other
  · obtain ⟨grows, same⟩ := drain_expected
      (Map.size ((l.lbzxtomtos (newAck l.rdcppgudji m.seqNum)).keep m.seqNum m.payload).aptnek)
      ((l.lbzxtomtos (newAck l.rdcppgudji m.seqNum)).keep m.seqNum m.payload)
    refine ⟨?_, grows⟩
    intro m' member
    rw [same] at member
    exact (acks _ m' member).imp_right fun other data => absurd data other

theorem qtbejekw_onward {m : Message} (taken : l.qtbejekw m = some l') : l.Onward l' := by
  cases qtbejekw_cases taken with
  | connect => exact .of_eq rfl rfl
  | data =>
    have step := bvmndthe_onward l m
    exact ⟨step.sent, step.expected⟩
  | ack _ step =>
    cases step with
    | ignored | connected => exact .of_eq rfl rfl
    | settled _ acked =>
      have step := ngkdlse_onward (acked.foldl Bxnzsdj.forget l)
      have same : (acked.foldl Bxnzsdj.forget l).bnmslkllh = l.bnmslkllh :=
        (congrArg Bxnzsdj.bnmslkllh (forgetAll_unsent acked l) :)
      refine ⟨?_, same ▸ step.expected⟩
      intro m' member
      rw [← forgetAll_sent acked l]
      exact step.sent m' member

theorem sayEpoch_onward (l : Bxnzsdj) : l.Onward l.sayEpoch := by
  have uttered := sayEpoch_utters l
  have expected : l.sayEpoch.bnmslkllh = l.bnmslkllh :=
    (congrArg Bxnzsdj.bnmslkllh (sayEpoch_unsent l) :)
  refine ⟨?_, Int.le_of_eq expected.symm⟩
  rw [uttered.writer.unacked]
  exact uttered.sent

theorem EndMove.onward {arrives : Message → Prop} {w r : List Payload} {sent : List Message}
    (move : EndMove arrives l l' w r sent) : l.Onward l' ∧ ∀ m ∈ sent, m ∈ l.rfxtuoncvn := by
  cases move with
  | @write payload _ taken =>
    obtain ⟨-, -, rfl⟩ := gkxcls_cases taken
    have step := ngkdlse_onward { l with
      ffieiqwlhhh := l.ffieiqwlhhh ++ [payload], hooppjkl := l.hooppjkl + 1 }
    exact ⟨⟨step.sent, step.expected⟩, by simp⟩
  | read taken =>
    have same := (odkejnfsa_cases taken).2.2
    exact ⟨.of_eq (congrArg Bxnzsdj.rfxtuoncvn same :) (congrArg Bxnzsdj.bnmslkllh same :), by simp⟩
  | epoch => exact ⟨.of_eq rfl rfl, by simp⟩
  | speak => exact ⟨sayEpoch_onward l, by simp⟩
  | flush => exact ⟨⟨by simp [Bxnzsdj.bnmgrlr], Int.le_refl _⟩, fun _ member => member⟩
  | heard => exact ⟨.of_eq rfl rfl, by simp⟩
  | deliver _ taken => exact ⟨qtbejekw_onward taken, by simp⟩

section Link

variable {params : Side → Params} {connId W : Int} {k k' : Link} {t : Side → Transfer Payload}

/-- No unacknowledged number is a window beyond the one that the other end waits for: that one is
unacknowledged too, or everything is below it. -/
theorem Linked.reach (h : Linked params isn k t) {side : Side}
    (windows : Windows isn (params side) (k.wrote side) (k.endAt params isn side))
    (wide : 1 ≤ (params side).windowSize) {s : Int}
    (member : s ∈ (k.endAt params isn side).qqbakktl) :
    s < (k.endAt params isn side.other).bnmslkllh + (params side).windowSize := by
  have own := h.speaks side
  have other := (h.speaks side.other).reads.expected
  rw [Side.other_other] at other
  by_cases old : s < (k.endAt params isn side.other).bnmslkllh
  · omega
  have below := windows.below s member
  have front : (t side).delivered.length + (k.endAt params isn side).ffieiqwlhhh.length <
      (t side).written.length := by
    have counter := own.writes.counter
    rw [Bxnzsdj.frontSeqNum] at below
    omega
  rcases own.writes.settled _ front with waits | settled
  · rw [← other] at waits
    exact windows.span _ waits s member
  · exact absurd settled ((h.sound side).next_open (h.drained side))

/-- Both ends keep their windows, and no data message that was sent is a window beyond what the
receiver waits for. -/
structure InWindow (params : Side → Params) (isn W : Int) (k : Link) : Prop where
  windows : ∀ side, Windows isn (params side) (k.wrote side) (k.endAt params isn side)
  sent : ∀ side, ∀ m ∈ k.net side ++ (k.endAt params isn side).rfxtuoncvn, m.type = .data →
    m.seqNum < (k.endAt params isn side.other).bnmslkllh + W

theorem InWindow.move (h : InWindow params isn W k) (wide : 1 ≤ W)
    (window : ∀ side, (params side).windowSize = W) {side : Side} {e e' : Bxnzsdj}
    {wrote read : List Payload} {sent : List Message} (there : k.endAt params isn side = e)
    (onward : e.Onward e') (flushed : ∀ m ∈ sent, m ∈ e.rfxtuoncvn)
    (windows : Windows isn (params side) (k.wrote side ++ wrote) e')
    (linked : ∃ t, Linked params isn (k.move side e' wrote read sent) t) :
    InWindow params isn W (k.move side e' wrote read sent) := by
  obtain ⟨t, linked⟩ := linked
  subst there
  have own : (k.move side e' wrote read sent).endAt params isn side = e' := by
    simp [Link.endAt, Link.move]
  have away : (k.move side e' wrote read sent).endAt params isn side.other =
      k.endAt params isn side.other := by
    simp [Link.endAt, Link.move]
  have mine : Windows isn (params side) ((k.move side e' wrote read sent).wrote side)
      ((k.move side e' wrote read sent).endAt params isn side) := by
    rw [own]
    simpa [Link.move] using windows
  constructor
  · intro s
    by_cases here : s = side
    · subst here
      exact mine
    · cases Side.eq_other here
      rw [away]
      simpa [Link.move] using h.windows side.other
  · intro s m member data
    by_cases here : s = side
    · subst here
      rw [own] at member
      rw [away]
      have before : ∀ m ∈ (k.endAt params isn s).rfxtuoncvn, m.type = .data →
          m.seqNum < (k.endAt params isn s.other).bnmslkllh + W :=
        fun m waits => h.sent s m (List.mem_append_right _ waits)
      rcases List.mem_append.mp member with out | waits
      · simp only [Link.move, Function.update_self, List.mem_append] at out
        rcases out with old | new
        · exact h.sent s m (List.mem_append_left _ old) data
        · exact before m (flushed m new) data
      · rcases onward.sent m waits with old | new
        · exact before m old data
        · have unacked := new data
          rw [← own] at unacked
          have reach := linked.reach mine (by rw [window]; exact wide) unacked
          rw [away, window] at reach
          exact reach
    · cases Side.eq_other here
      rw [away] at member
      rw [Side.other_other, own]
      have old := h.sent side.other m (by simpa [Link.move] using member) data
      rw [Side.other_other] at old
      have grows := onward.expected
      omega

theorem InWindow.step (h : InWindow params isn W k) (linked : ∃ t, Linked params isn k t)
    (start : 0 ≤ isn) (wide : 1 ≤ W) (window : ∀ side, (params side).windowSize = W)
    {a : LinkAction} (taken : linkStep params connId k a = some k') : InWindow params isn W k' := by
  obtain ⟨t, linked⟩ := linked
  have after := linked.step taken
  have wider : ∀ side, 1 ≤ (params side).windowSize := fun side => by rw [window]; exact wide
  cases linkStep_cases taken with
  | ignored => exact h
  | @call side e e' wrote read sent there move =>
    have here : k.endAt params isn side = e := Link.endAt_some there
    obtain ⟨onward, flushed⟩ := move.onward
    have windows := (here ▸ h.windows side).move start (wider side) move
    exact h.move wide window here onward flushed windows after
  | @epoch side e there =>
    have here : k.endAt params isn side = e := Link.endAt_some there
    have ticks : EndMoves (fun _ => True) e e.tyhdjska [] [] [] := .tick
    have windows := (here ▸ h.windows side).moves start (wider side) ticks
    have uttered := sayEpoch_onward e.llehwkas
    exact h.move wide window here ⟨uttered.sent, uttered.expected⟩ (by simp) windows after
  | @greeted side m missing comes connect =>
    have here : k.endAt params isn side = silent isn (params side) := by
      simp [Link.endAt, missing]
    have number : m.seqNum = isn := by
      cases linked.net side.other m comes with
      | connect => rfl
      | _ => contradiction
    have windows := h.windows side
    rw [here] at windows
    rw [number] at after ⊢
    refine h.move wide window here ⟨?_, Int.le_refl _⟩ (by simp) ?_ after
    · intro m' member
      cases List.mem_singleton.mp member
      exact .inr (by simp [newAck])
    · rw [List.append_nil]
      exact windows.same ⟨rfl, rfl, rfl, rfl, rfl⟩

theorem inWindow_new (isn : Int) (params : Side → Params)
    (limit : ∀ side, 1 ≤ (params side).maxUnackedMessages) :
    InWindow params isn W (newLink params isn) := by
  have start : ∀ side, Windows isn (params side) [] ((newLink params isn).endAt params isn side) := by
    intro side
    cases side with
    | client => exact windows_new isn _ (limit .client)
    | server => exact (windows_new isn _ (limit .server)).same ⟨rfl, rfl, rfl, rfl, rfl⟩
  refine ⟨start, ?_⟩
  intro side m member data
  cases side with
  | client =>
    cases List.mem_singleton.mp member
    simp [newConnect] at data
  | server => cases member

theorem inWindow_run (start : 0 ≤ isn) (wide : 1 ≤ W)
    (window : ∀ side, (params side).windowSize = W)
    (limit : ∀ side, 1 ≤ (params side).maxUnackedMessages) {acts : List LinkAction}
    (reached : run (linkStep params connId) (newLink params isn) acts = some k) :
    InWindow params isn W k := by
  have both := run_keeps (fun k => InWindow params isn W k ∧ ∃ t, Linked params isn k t)
    (fun _ _ _ h taken => ⟨h.1.step h.2 start wide window taken, h.2.elim fun _ l => l.step taken⟩)
    ⟨inWindow_new isn params limit, _, linked_new params isn⟩ acts reached
  exact both.1

/-- What one end waits for has been written at the other. -/
theorem Linked.expected_le (h : Linked params isn k t) (side : Side) :
    (k.endAt params isn side.other).bnmslkllh ≤ isn + 1 + (k.wrote side).length := by
  have expected := (h.speaks side.other).reads.expected
  rw [Side.other_other] at expected
  have length := (h.sound side).delivered.length_le
  rw [(h.speaks side).written] at length
  omega

end Link

/-- Whatever calls and messages come to an end, of a client or of a server, its window is kept. Between
two ends with the same window no data message is ever rejected as beyond the window of its receiver,
however the network loses, repeats and reorders, as long as no window that begins at what has been
written reaches behind the largest `int`. -/
theorem sliding_window (params : Side → Params) (isn connId W : Int) (start : 0 ≤ isn) (wide : 1 ≤ W)
    (window : ∀ side, (params side).windowSize = W)
    (limit : ∀ side, 1 ≤ (params side).maxUnackedMessages) :
    (∀ side first l wrote read sent,
      first = fnlwefjbun isn (params side) ∨ first = nfkdlws isn (params side) connId →
      EndMoves (fun _ => True) first l wrote read sent → Windowed isn (params side) wrote l) ∧
    ∀ acts k, run (linkStep params connId) (newLink params isn) acts = some k →
      ∀ side e m, isn + 1 + (k.wrote side).length + W ≤ maxInt → k.ends side.other = some e →
        m ∈ k.net side → m.type = .data → m.seqNum < goInt (e.bnmslkllh + e.heee8w) := by
  constructor
  · intro side first l wrote read sent new moves
    have begins : Windows isn (params side) [] first := by
      have fresh := windows_new isn (params side) (limit side)
      rcases new with rfl | rfl
      · exact fresh
      · exact fresh.same ⟨rfl, rfl, rfl, rfl, rfl⟩
    have windows := begins.moves start (by rw [window]; exact wide) moves
    rw [List.nil_append] at windows
    exact windows.toWindowed
  · intro acts k reached side e m range there member data
    have inside := inWindow_run start wide window limit reached
    obtain ⟨t, linked⟩ := linked_run reached
    have here : k.endAt params isn side.other = e := Link.endAt_some there
    have below := inside.sent side m (List.mem_append_left _ member) data
    have size := (inside.windows side.other).window
    have expected := (linked.speaks side.other).reads.expected
    have within := linked.expected_le side
    rw [here] at below size expected within
    rw [size, window, goInt_of_range (by omega) (by omega)]
    exact below

/-- Three payloads are written, and the window is full with two. -/
def threeWrites : List LinkAction :=
  greet ++ [.write .client [1], .write .client [2], .write .client [3], .flush .client]

theorem full_window : ∃ k e, run (linkStep smallWindow 1) (newLink smallWindow 7) threeWrites = some k ∧
    k.ends .server = some e ∧ (k.net .client).length = 3 ∧ dataMessage 1 9 [2] ∈ k.net .client ∧
    (dataMessage 1 9 [2]).seqNum < goInt (e.bnmslkllh + e.heee8w) := by
  have window := sliding_window smallWindow 7 1 2 (by decide) (by decide) (fun _ => rfl)
    (fun _ => show (1 : Int) ≤ 2 by decide)
  exact ⟨_, _, rfl, rfl, rfl, by decide,
    window.2 threeWrites _ rfl .client _ _ (by decide) rfl (by decide) rfl⟩

/-- Two payloads with the numbers `2^63 - 4` and `2^63 - 3` arrive. The end of the window of the
receiver wraps then, and the first of the two messages is rejected when it comes again. -/
theorem repeated_message_rejected : ∃ k e,
    run (linkStep smallWindow 1) (newLink smallWindow (2 ^ 63 - 5)) (greet ++ [.write .client [1],
      .write .client [2], .flush .client, .deliver .server 1, .deliver .server 2]) = some k ∧
    k.ends .server = some e ∧ dataMessage 1 (2 ^ 63 - 4) [1] ∈ k.net .client ∧
    goInt (e.bnmslkllh + e.heee8w) ≤ (dataMessage 1 (2 ^ 63 - 4) [1]).seqNum :=
  ⟨_, _, rfl, rfl, by decide, by decide⟩

end DistSys.Lsp
