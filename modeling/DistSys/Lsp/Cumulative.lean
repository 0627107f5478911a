import DistSys.Lsp.Ends
import Mathlib.Order.Bounds.Basic

/-! A cumulative acknowledgement does what plain ones do: filling the window after every one of them
is filling it once. -/
namespace DistSys.Lsp

open DistSys.Lib

variable {isn : Int} {params : Params} {l l' : Bxnzsdj} {payload : Payload} {rest : List Payload}

/-! ### Where the window begins -/

/-- The numbers that the window is counted from the least of. -/
def Bxnzsdj.outstanding (l : Bxnzsdj) : Set Int := { n | n = l.frontSeqNum ∨ n ∈ l.qqbakktl }

theorem minPendingSeq_eq (l : Bxnzsdj) : l.minPendingSeq = l.minPendingSeqNum := by
  unfold Bxnzsdj.minPendingSeq Bxnzsdj.minPendingSeqNum
  congr 1
  funext least seq
  by_cases less : seq < least
  · simp [less]
  · simp [less]

theorem least_mem (keys : List Int) (least : Int) :
    keys.foldl (fun least seqnum => if seqnum < least ∨ least = 0 then seqnum else least) least =
        least ∨
      keys.foldl (fun least seqnum => if seqnum < least ∨ least = 0 then seqnum else least) least ∈
        keys := by
  induction keys generalizing least with
  | nil => exact .inl rfl
  | cons first rest ih =>
    rw [List.foldl_cons]
    split
    · refine .inr ?_
      rcases ih first with same | later
      · rw [same]
        exact List.mem_cons_self
      · exact List.mem_cons_of_mem _ later
    · exact (ih least).imp_right (List.mem_cons_of_mem _)

theorem Numbered.least (h : Numbered isn l) (start : 0 ≤ isn) :
    IsLeast l.outstanding l.minPendingSeqNum := by
  have front := h.front
  obtain ⟨-, low, below⟩ := least_foldl l.qqbakktl.keys l.frontSeqNum (by omega) fun k member => by
    have between := h.unacked k (AList.mem_keys.mpr member)
    omega
  constructor
  · exact (least_mem l.qqbakktl.keys l.frontSeqNum).imp_right AList.mem_keys.mp
  · rintro n (rfl | member)
    · exact low
    · exact below n (AList.mem_keys.mp member)

theorem Numbered.minPendingSeqNum_pos (h : Numbered isn l) (start : 0 ≤ isn) :
    0 < l.minPendingSeqNum := by
  have front := h.front
  rcases (h.least start).1 with same | member
  · omega
  · have between := h.unacked _ member
    omega

/-! ### One payload more -/

/-- The first payload that waits fits into the window. -/
structure Bxnzsdj.Ready (l : Bxnzsdj) (payload : Payload) (rest : List Payload) : Prop where
  waits : l.ffieiqwlhhh = payload :: rest
  near : l.frontSeqNum < goInt (l.minPendingSeqNum + l.heee8w)
  few : (Map.size l.qqbakktl : Int) < l.mmgkelwz

theorem ngkdlse_stops (full : ∀ payload rest, ¬ l.Ready payload rest) : l.ngkdlse = l := by
  unfold Bxnzsdj.ngkdlse
  cases waits : l.ffieiqwlhhh with
  | nil => rfl
  | cons payload rest =>
    simp only [List.length_cons, fillWindow, waits]
    exact if_neg fun room => full payload rest ⟨waits, room.1, room.2⟩

/-- The window still begins where it did. -/
theorem Numbered.sendFront_least (h : Numbered isn l) (start : 0 ≤ isn)
    (waits : l.ffieiqwlhhh = payload :: rest) :
    (l.sendFront payload rest).minPendingSeqNum = l.minPendingSeqNum := by
  refine ((h.sendFront waits).least start).unique ?_
  obtain ⟨here, below⟩ := h.least start
  have front := sendFront_front waits
  constructor
  · exact .inr ((AList.mem_insert _).mpr here)
  · rintro n (rfl | member)
    · have low := below (.inl rfl)
      omega
    · exact below ((AList.mem_insert _).mp member)

theorem Numbered.ngkdlse_sends (h : Numbered isn l) (start : 0 ≤ isn) (ready : l.Ready payload rest) :
    l.ngkdlse = (l.sendFront payload rest).ngkdlse := by
  have low := (h.least start).2 (.inl rfl)
  unfold Bxnzsdj.ngkdlse
  rw [h.sendFront_least start ready.waits]
  simp only [ready.waits, List.length_cons, fillWindow]
  rw [if_pos ⟨ready.near, ready.few⟩, if_neg (by omega)]
  rfl

/-! ### Forgetting and sending -/

theorem forget_forget (l : Bxnzsdj) (a b : Int) : (l.forget a).forget b = (l.forget b).forget a := by
  simp only [Bxnzsdj.forget, AList.erase_erase a b]

theorem sendFront_forget {k : Int} (other : k ≠ l.frontSeqNum) :
    (l.sendFront payload rest).forget k = (l.forget k).sendFront payload rest := by
  simp only [Bxnzsdj.sendFront, Bxnzsdj.forget, Map.erase_insert_ne _ _ other]
  rfl

/-- The window size is an `int`, and no window of what has been written reaches behind the largest
one. -/
structure Bxnzsdj.InRange (l : Bxnzsdj) : Prop where
  low : -maxInt - 1 ≤ l.heee8w
  high : l.hooppjkl + l.heee8w ≤ maxInt

/-- Where there is room, there is still room when something is acknowledged: the window begins later,
and its end does not wrap. -/
theorem Numbered.forget_ready (h : Numbered isn l) (start : 0 ≤ isn) (range : l.InRange)
    (ready : l.Ready payload rest) (k : Int) : (l.forget k).Ready payload rest := by
  have fewer := Map.size_erase_le l.qqbakktl k
  have near := ready.near
  have few := ready.few
  have less : Numbered isn (l.forget k) := h.forgetAll [k]
  have later : l.minPendingSeqNum ≤ (l.forget k).minPendingSeqNum := by
    refine (h.least start).2 ?_
    exact (less.least start).1.imp_right fun member => (AList.mem_erase.mp member).2
  have positive := h.minPendingSeqNum_pos start
  have behind := (less.least start).2 (.inl rfl)
  refine ⟨ready.waits, ?_, ?_⟩
  · have low := range.low
    have high := range.high
    have front : (l.forget k).frontSeqNum ≤ l.hooppjkl := by
      simp only [Bxnzsdj.frontSeqNum, Bxnzsdj.forget]
      omega
    have span : goInt (l.minPendingSeqNum + l.heee8w) ≤
        goInt ((l.forget k).minPendingSeqNum + l.heee8w) := by
      simp only [maxInt] at low
      rw [goInt_of_range (by omega) (by omega), goInt_of_range (by omega) (by omega)]
      omega
    exact Int.lt_of_lt_of_le near span
  · simp only [Bxnzsdj.forget]
    omega

/-- It does not matter whether the window was filled before a message was acknowledged and it was
filled again. -/
theorem Numbered.ngkdlse_forget (h : Numbered isn l) (start : 0 ≤ isn) (range : l.InRange) {k : Int}
    (below : k < l.frontSeqNum) : (l.ngkdlse.forget k).ngkdlse = (l.forget k).ngkdlse := by
  -- by induction on the payloads that wait: each of them that is sent before can be sent after
  induction waiting : l.ffieiqwlhhh.length generalizing l with
  | zero =>
    rw [ngkdlse_stops (l := l)]
    intro payload rest ready
    simp [ready.waits] at waiting
  | succ n ih =>
    by_cases room : ∃ payload rest, l.Ready payload rest
    · obtain ⟨payload, rest, ready⟩ := room
      have front := sendFront_front ready.waits
      have later := ih (h.sendFront ready.waits) ⟨range.low, range.high⟩ (by omega)
        (by simpa [ready.waits, Bxnzsdj.sendFront] using waiting)
      calc (l.ngkdlse.forget k).ngkdlse
          = ((l.sendFront payload rest).ngkdlse.forget k).ngkdlse := by
            rw [h.ngkdlse_sends start ready]
        _ = ((l.sendFront payload rest).forget k).ngkdlse := later
        _ = ((l.forget k).sendFront payload rest).ngkdlse := by rw [sendFront_forget (by omega)]
        _ = (l.forget k).ngkdlse :=
            ((h.forgetAll [k]).ngkdlse_sends start (h.forget_ready start range ready k)).symm
    · rw [ngkdlse_stops (l := l)]
      intro payload rest ready
      exact room ⟨payload, rest, ready⟩

/-! ### The acknowledgements -/

theorem ngkdlse_mem {s : Int} (member : s ∈ l.qqbakktl) : s ∈ l.ngkdlse.qqbakktl :=
  ngkdlse_rule (P := fun l' => s ∈ l'.qqbakktl)
    (fun _ _ _ there _ => (AList.mem_insert _).mpr (.inr there)) member

/-- The end is connected and takes messages. -/
structure Bxnzsdj.Listens (l : Bxnzsdj) : Prop where
  takes : l.hhwhhqnhh = false
  known : l.rdcppgudji ≠ 0

theorem Bxnzsdj.Listens.same (h : l.Listens) (same : l.SameEnd l') : l'.Listens :=
  ⟨same.takes.trans h.takes, same.id h.known ▸ h.known⟩

theorem Bxnzsdj.Listens.ack (h : l.Listens) {m : Message} (kind : m.type = .ack)
    (positive : 0 < m.seqNum) (member : m.seqNum ∈ l.qqbakktl) :
    endStep l (.hear m) = some (l.forget m.seqNum).ngkdlse := by
  have number : m.seqNum ≠ 0 := by omega
  simp [endStep, Bxnzsdj.qtbejekw, Bxnzsdj.vvvjlurqbu, kind, h.takes, h.known, number, member]

/-- All that has a number up to the one of a cumulative acknowledgement is forgotten. -/
theorem Bxnzsdj.Listens.cAck (h : l.Listens) (numbered : Numbered isn l) (start : 0 ≤ isn)
    {m : Message} (kind : m.type = .cAck) (low : 1 ≤ m.seqNum) (high : m.seqNum < maxInt) :
    endStep l (.hear m) =
      if l.qqbakktl.keys.filter (· ≤ m.seqNum) ≠ [] then
        some ((l.qqbakktl.keys.filter (· ≤ m.seqNum)).foldl Bxnzsdj.forget l).ngkdlse
      else some l := by
  have number : m.seqNum ≠ 0 := by omega
  have inside : m.seqNum ≠ maxInt := by omega
  have covered : (l.qqbakktl.keys.filter fun i => l.minPendingSeq ≤ i ∧ i ≤ m.seqNum) =
      l.qqbakktl.keys.filter (· ≤ m.seqNum) := by
    refine List.filter_congr fun i member => ?_
    have below := (numbered.least start).2 (.inr (AList.mem_keys.mpr member))
    simp [minPendingSeq_eq, below]
  simp only [endStep, Bxnzsdj.qtbejekw, Bxnzsdj.vvvjlurqbu, kind, h.takes, h.known, inside, covered]
  simp [number]

/-- Different unacknowledged messages are acknowledged by these. -/
structure Bxnzsdj.Acks (l : Bxnzsdj) (acks : List Message) : Prop where
  kinds : ∀ m ∈ acks, m.type = .ack
  unacked : ∀ m ∈ acks, m.seqNum ∈ l.qqbakktl
  distinct : (acks.map Message.seqNum).Nodup

theorem Bxnzsdj.Acks.others {m : Message} {acks : List Message} (h : l.Acks (m :: acks)) :
    (l.forget m.seqNum).Acks acks := by
  obtain ⟨fresh, distinct⟩ := List.nodup_cons.mp h.distinct
  refine ⟨fun m' later => h.kinds m' (List.mem_cons_of_mem _ later), ?_, distinct⟩
  intro m' later
  refine AList.mem_erase.mpr ⟨?_, h.unacked m' (List.mem_cons_of_mem _ later)⟩
  intro same
  exact fresh (same ▸ List.mem_map_of_mem later)

/-- Plain acknowledgements, heard with a full window: the messages are forgotten, and the window is
full again. -/
theorem Numbered.acks (h : Numbered isn l) (start : 0 ≤ isn) (range : l.InRange) (listens : l.Listens)
    {acks : List Message} (plain : l.Acks acks) :
    run endStep l.ngkdlse (acks.map EndAction.hear) =
      some ((acks.map Message.seqNum).foldl Bxnzsdj.forget l).ngkdlse := by
  induction acks generalizing l with
  | nil => rfl
  | cons m others ih =>
    have member := plain.unacked m List.mem_cons_self
    have between := h.unacked m.seqNum member
    have full := listens.same (.of_unsent (ngkdlse_unsent l))
    have first := full.ack (plain.kinds m List.mem_cons_self) (by omega) (ngkdlse_mem member)
    rw [h.ngkdlse_forget start range between.2] at first
    exact (run_cons first).mpr
      (ih (h.forgetAll [m.seqNum]) ⟨range.low, range.high⟩ (listens.same ⟨fun _ => rfl, rfl, rfl⟩) plain.others)

theorem Numbered.acks_settle (h : Numbered isn l) (start : 0 ≤ isn) (range : l.InRange)
    (listens : l.Listens) {acks : List Message} (plain : l.Acks acks) (some_ : acks ≠ []) :
    run endStep l (acks.map EndAction.hear) =
      some ((acks.map Message.seqNum).foldl Bxnzsdj.forget l).ngkdlse := by
  cases acks with
  | nil => exact absurd rfl some_
  | cons m others =>
    have member := plain.unacked m List.mem_cons_self
    have between := h.unacked m.seqNum member
    have first := listens.ack (plain.kinds m List.mem_cons_self) (by omega) member
    exact (run_cons first).mpr ((h.forgetAll [m.seqNum]).acks start ⟨range.low, range.high⟩
      (listens.same ⟨fun _ => rfl, rfl, rfl⟩) plain.others)

theorem forgetAll_perm {xs ys : List Int} (same : xs.Perm ys) (l : Bxnzsdj) :
    xs.foldl Bxnzsdj.forget l = ys.foldl Bxnzsdj.forget l := by
  have commutes : RightCommutative Bxnzsdj.forget := ⟨forget_forget⟩
  exact same.foldl_eq l

/-- A cumulative acknowledgement leaves the end as plain ones do, one for each unacknowledged message
up to its number and in any order, as long as no window that begins at what has been written reaches
behind the largest `int`. -/
theorem cumulative_ack_is_acks (isn : Int) (params : Params) (start : 0 ≤ isn)
    (new : NewEnd isn params l) (before : List EndAction) (reached : run endStep l before = some l')
    (known : l'.rdcppgudji ≠ 0) (range : l'.InRange) (m : Message) (kind : m.type = .cAck)
    (low : 1 ≤ m.seqNum) (high : m.seqNum < maxInt) (acks : List Message)
    (kinds : ∀ ack ∈ acks, ack.type = .ack)
    (each : (acks.map Message.seqNum).Perm (l'.qqbakktl.keys.filter (· ≤ m.seqNum))) :
    ∃ l'', run endStep l' [.hear m] = some l'' ∧
      run endStep l' (acks.map EndAction.hear) = some l'' := by
  have numbered := numbered_run new reached
  have listens : l'.Listens := ⟨(sameEnd_run reached).takes.trans (newEnd_fixed new).2, known⟩
  have plain : l'.Acks acks := by
    refine ⟨kinds, ?_, each.nodup_iff.mpr (l'.qqbakktl.keys_nodup.filter _)⟩
    intro ack member
    have covered := each.mem_iff.mp (List.mem_map_of_mem member)
    exact AList.mem_keys.mpr (List.mem_of_mem_filter covered)
  have whole := listens.cAck numbered start kind low high
  by_cases none : acks = []
  · subst none
    rw [List.nil_perm.mp each, if_neg (by simp)] at whole
    exact ⟨l', by simp [run, whole], rfl⟩
  · have some_ : l'.qqbakktl.keys.filter (· ≤ m.seqNum) ≠ [] := by
      intro empty
      rw [empty, List.perm_nil] at each
      exact none (List.map_eq_nil_iff.mp each)
    rw [if_pos some_, ← forgetAll_perm each] at whole
    exact ⟨_, by simp [run, whole], numbered.acks_settle start range listens plain none⟩

/-- Three writes with room for two messages, and the first two are acknowledged: the third is sent. -/
theorem cumulative_ack_of_two : ∃ l l', run endStep (nfkdlws 0 ⟨5, 2, 0, 2⟩ 1)
      [.write [1], .write [2], .write [3]] = some l ∧ l.qqbakktl.keys = [2, 1] ∧
    run endStep l [.hear (newCAck 1 2)] = some l' ∧
      run endStep l [.hear (newAck 1 1), .hear (newAck 1 2)] = some l' := by
  obtain ⟨l', whole, plain⟩ := cumulative_ack_is_acks 0 ⟨5, 2, 0, 2⟩ (by decide) (.server 1)
    [.write [1], .write [2], .write [3]] rfl (by decide) ⟨by decide, by decide⟩ (newCAck 1 2) rfl
    (by decide) (by decide) [newAck 1 1, newAck 1 2] (by decide) (by decide)
  exact ⟨_, l', rfl, by decide, whole, plain⟩

/-- Four writes from the number `2^63 - 5` on, with a window of three and room for two messages. After
both are acknowledged at once the window begins at `2^63 - 3` and its end wraps, so that nothing is
sent; after the first of them alone its end is the largest `int`, and the third payload is sent. -/
theorem window_end_wraps : ∃ l l₁ l₂, run endStep (nfkdlws (2 ^ 63 - 6) ⟨5, 3, 0, 2⟩ 1)
      [.write [1], .write [2], .write [3], .write [4]] = some l ∧
    l.qqbakktl.keys = [2 ^ 63 - 4, 2 ^ 63 - 5] ∧
    run endStep l [.hear (newCAck 1 (2 ^ 63 - 4))] = some l₁ ∧ l₁.qqbakktl.keys = [] ∧
    run endStep l [.hear (newAck 1 (2 ^ 63 - 5)), .hear (newAck 1 (2 ^ 63 - 4))] = some l₂ ∧
    l₂.qqbakktl.keys = [2 ^ 63 - 3] :=
  ⟨_, _, _, rfl, by decide, rfl, by decide, rfl, by decide⟩

end DistSys.Lsp
