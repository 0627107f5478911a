import DistSys.Lsp.Endpoint

/-! What the calls at an endpoint leave alone: sending does not touch the receiver's fields, and
receiving does not touch the sender's. -/
namespace DistSys.Lsp

variable {l l' : Bxnzsdj} {m : Message}

/-- The fields that sending leaves alone, the others blank. -/
def Bxnzsdj.unsent (l : Bxnzsdj) : Bxnzsdj :=
  { l with
    tttbejw := false
    ffieiqwlhhh := []
    qqbakktl := ∅
    ssssshhwhh := fun _ => 0
    rrrrrqwrqrkk := fun _ => 0
    hooppjkl := 0
    rfxtuoncvn := [] }

/-- The fields that a data message leaves alone, the others blank. -/
def Bxnzsdj.unheard (l : Bxnzsdj) : Bxnzsdj :=
  { l with
    tttbejw := false
    rfxtuoncvn := []
    asdfghj := []
    aptnek := ∅
    bnmslkllh := 0 }

/-! ### Sending -/

/-- What holds before the window is filled, and whenever one more payload has been sent, holds after
it. -/
theorem fillWindow_rule {P : Bxnzsdj → Prop}
    (sends : ∀ l payload rest, P l → l.ffieiqwlhhh = payload :: rest → P (l.sendFront payload rest))
    (fuel : Nat) (base : Int) (start : P l) : P (fillWindow fuel base l) := by
  induction fuel generalizing l base with
  | zero => exact start
  | succ fuel ih =>
    unfold fillWindow
    split
    · exact start
    · rename_i payload rest waits
      split
      · exact ih _ (sends l payload rest start waits)
      · exact start

theorem ngkdlse_rule {P : Bxnzsdj → Prop}
    (sends : ∀ l payload rest, P l → l.ffieiqwlhhh = payload :: rest → P (l.sendFront payload rest))
    (start : P l) : P l.ngkdlse :=
  fillWindow_rule sends _ _ start

theorem ngkdlse_unsent (l : Bxnzsdj) : l.ngkdlse.unsent = l.unsent :=
  ngkdlse_rule (P := fun l' => l'.unsent = l.unsent) (fun _ _ _ same _ => same) rfl

/-- A write needs an id and a connection that lives. -/
theorem gkxcls_cases {payload : Payload} (written : l.gkxcls payload = some l') :
    l.rdcppgudji ≠ 0 ∧ l.jfkdl = false ∧ l' = { l with
      ffieiqwlhhh := l.ffieiqwlhhh ++ [payload]
      hooppjkl := l.hooppjkl + 1 }.ngkdlse := by
  simp only [Bxnzsdj.gkxcls] at written
  split at written
  · contradiction
  · rename_i id
    split at written
    · contradiction
    · rename_i lives
      exact ⟨id, by simpa using lives, (Option.some.inj written).symm⟩

theorem gkxcls_unsent {payload : Payload} (written : l.gkxcls payload = some l') :
    l'.unsent = l.unsent := by
  rw [(gkxcls_cases written).2.2]
  exact ngkdlse_unsent _

theorem resendAll_unsent (entries : List (Σ _ : Int, Payload)) (l : Bxnzsdj) :
    (resendAll l entries).unsent = l.unsent := by
  induction entries generalizing l with
  | nil => rfl
  | cons entry rest ih =>
    have first : (resend l entry.1 entry.2).unsent = l.unsent := by
      unfold resend
      split
      · rfl
      · rfl
    exact (ih _).trans first

theorem speakUp_unsent (l : Bxnzsdj) : l.speakUp.unsent = l.unsent := by
  unfold Bxnzsdj.speakUp
  have resent := resendAll_unsent l.qqbakktl.entries l
  dsimp only
  split
  · exact resent
  · exact resent

theorem sayEpoch_unsent (l : Bxnzsdj) : l.sayEpoch.unsent = l.unsent := by
  have asks : ∀ l : Bxnzsdj, Bxnzsdj.unsent { (if l.rdcppgudji = 0 then
      l.lbzxtomtos (newConnect l.gksmgskml) else l) with tttbejw := false } = l.unsent := by
    intro l
    split
    · rfl
    · rfl
  unfold Bxnzsdj.sayEpoch
  dsimp only
  split
  · exact (asks _).trans (speakUp_unsent l)
  · exact asks l

theorem forgetAll_unsent (seqNums : List Int) (l : Bxnzsdj) :
    (seqNums.foldl Bxnzsdj.forget l).unsent = l.unsent := by
  induction seqNums generalizing l with
  | nil => rfl
  | cons seqNum rest ih => exact ih _

/-- What an acknowledgement does: nothing, or it brings the id, or some messages are no longer
unacknowledged and the window is filled again. -/
inductive AckStep (l : Bxnzsdj) (m : Message) : Bxnzsdj → Prop where
  | ignored : AckStep l m l
  | connected (unknown : l.rdcppgudji = 0) (number : m.seqNum = l.gksmgskml) :
      AckStep l m { l with rdcppgudji := m.connID }
  | settled (known : l.rdcppgudji ≠ 0) (acked : List Int) (some : acked ≠ [])
      (unacked : ∀ s ∈ acked, s ∈ l.qqbakktl) : AckStep l m (acked.foldl Bxnzsdj.forget l).ngkdlse

theorem vvvjlurqbu_cases (taken : l.vvvjlurqbu m = some l') : AckStep l m l' := by
  unfold Bxnzsdj.vvvjlurqbu at taken
  split at taken
  · cases Option.some.inj taken
    exact .ignored
  split at taken
  · rename_i unknown
    split at taken
    · rename_i number
      cases Option.some.inj taken
      exact .connected unknown number
    · cases Option.some.inj taken
      exact .ignored
  rename_i known
  split at taken
  · split at taken
    · split at taken
      · rename_i waits
        cases Option.some.inj taken
        exact .settled known [m.seqNum] (List.cons_ne_nil _ _) (by simpa using waits)
      · cases Option.some.inj taken
        exact .ignored
    split at taken
    · split at taken
      · contradiction
      dsimp only at taken
      split at taken
      · rename_i some
        cases Option.some.inj taken
        refine .settled known _ some ?_
        intro s member
        exact AList.mem_keys.mp (List.mem_filter.mp member).1
      · cases Option.some.inj taken
        exact .ignored
    · cases Option.some.inj taken
      exact .ignored
  · cases Option.some.inj taken
    exact .ignored

theorem settled_unsent (acked : List Int) (l : Bxnzsdj) :
    (acked.foldl Bxnzsdj.forget l).ngkdlse.unsent = l.unsent :=
  (ngkdlse_unsent _).trans (forgetAll_unsent acked l)

/-! ### Receiving -/

/-- A read needs an id and something to read. -/
theorem odkejnfsa_cases {payload : Payload} (read : l.odkejnfsa = some (payload, l')) :
    l.rdcppgudji ≠ 0 ∧ l.asdfghj = payload :: l'.asdfghj ∧
      l' = { l with asdfghj := l'.asdfghj } := by
  simp only [Bxnzsdj.odkejnfsa] at read
  split at read
  · contradiction
  rename_i id
  split at read
  · contradiction
  · rename_i queue
    cases Option.some.inj read
    exact ⟨id, queue, rfl⟩

theorem drain_unheard (fuel : Nat) (l : Bxnzsdj) : (drain fuel l).unheard = l.unheard := by
  induction fuel generalizing l with
  | zero => rfl
  | succ fuel ih =>
    unfold drain
    split
    · rfl
    · exact ih _

theorem bvmndthe_unheard (l : Bxnzsdj) (m : Message) : (l.bvmndthe m).unheard = l.unheard := by
  unfold Bxnzsdj.bvmndthe
  split
  · rfl
  split
  · rfl
  split
  · rfl
  dsimp only
  split
  · rfl
  · exact drain_unheard _ _

/-- What a message does. -/
inductive HearStep (l : Bxnzsdj) (m : Message) : Bxnzsdj → Prop where
  | connect : HearStep l m { l with tttbejw := true }
  | data (kind : m.type = .data) : HearStep l m { l.bvmndthe m with tttbejw := true }
  | ack {l' : Bxnzsdj} (kind : m.type ≠ .data) (step : AckStep l m l') : HearStep l m l'

theorem qtbejekw_cases (taken : l.qtbejekw m = some l') : HearStep l m l' := by
  unfold Bxnzsdj.qtbejekw at taken
  split at taken
  · cases Option.some.inj taken
    exact .connect
  · rename_i kind
    cases Option.some.inj taken
    exact .data kind
  · rename_i kind
    exact .ack (by simp [kind]) (vvvjlurqbu_cases taken)
  · rename_i kind
    exact .ack (by simp [kind]) (vvvjlurqbu_cases taken)
  · contradiction

end DistSys.Lsp
