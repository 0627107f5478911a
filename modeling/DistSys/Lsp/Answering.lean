import DistSys.Lsp.Dialling
import DistSys.Lsp.Window

/-! What a server says to a client that has a connection and does not know it. A connect message is
acknowledged once, when it makes the connection; after that the server only says in its epochs that it
is alive. -/
namespace DistSys.Lsp

open DistSys.Lib

variable {l l' : Bxnzsdj} {P : Message → Prop} {hears : Message → Prop} {out : List Message}

/-! ### What an endpoint says -/

/-- Filling the window puts only data into the buffer. -/
theorem ngkdlse_buffer (data : ∀ s p, P (dataMessage l.rdcppgudji s p))
    (held : ∀ m ∈ l.rfxtuoncvn, P m) : ∀ m ∈ l.ngkdlse.rfxtuoncvn, P m := by
  have rule : l.ngkdlse.rdcppgudji = l.rdcppgudji ∧ ∀ m ∈ l.ngkdlse.rfxtuoncvn, P m := by
    refine ngkdlse_rule (P := fun l' => l'.rdcppgudji = l.rdcppgudji ∧ ∀ m ∈ l'.rfxtuoncvn, P m) ?_
      ⟨rfl, held⟩
    rintro t payload rest ⟨id, said⟩ -
    refine ⟨id, fun m member => ?_⟩
    rcases List.mem_append.mp member with old | new
    · exact said m old
    · rw [List.mem_singleton.mp new, id]
      exact data _ _
  exact rule.2

theorem resendAll_buffer (entries : List (Σ _ : Int, Payload))
    (data : ∀ s p, P (dataMessage l.rdcppgudji s p)) (held : ∀ m ∈ l.rfxtuoncvn, P m) :
    (resendAll l entries).tttbejw = l.tttbejw ∧ ∀ m ∈ (resendAll l entries).rfxtuoncvn, P m := by
  induction entries generalizing l with
  | nil => exact ⟨rfl, held⟩
  | cons entry rest ih =>
    have first : (resend l entry.1 entry.2).tttbejw = l.tttbejw ∧
        (resend l entry.1 entry.2).rdcppgudji = l.rdcppgudji ∧
        ∀ m ∈ (resend l entry.1 entry.2).rfxtuoncvn, P m := by
      unfold resend
      split
      · refine ⟨rfl, rfl, fun m member => ?_⟩
        rcases List.mem_append.mp member with old | new
        · exact held m old
        · rw [List.mem_singleton.mp new]
          exact data _ _
      · exact ⟨rfl, rfl, held⟩
    obtain ⟨flag, id, said⟩ := first
    obtain ⟨later, last⟩ := ih (l := resend l entry.1 entry.2) (by rwa [id]) said
    exact ⟨later.trans flag, last⟩

theorem bvmndthe_buffer {m : Message} (ack : P (newAck l.rdcppgudji m.seqNum))
    (held : ∀ m ∈ l.rfxtuoncvn, P m) : ∀ m' ∈ (l.bvmndthe m).rfxtuoncvn, P m' := by
  have acked : ∀ m' ∈ l.rfxtuoncvn ++ [newAck l.rdcppgudji m.seqNum], P m' := by
    intro m' member
    rcases List.mem_append.mp member with old | new
    · exact held m' old
    · rw [List.mem_singleton.mp new]
      exact ack
  unfold Bxnzsdj.bvmndthe
  split
  · exact held
  split
  · exact held
  split
  · exact held
  dsimp only
  split
  · exact acked
  · rw [(drain_expected _ _).2]
    exact acked

/-- In an epoch an end resends data, and says that it is alive if it has heard nothing and is not lost
by then. -/
theorem tyhdjska_buffer (known : l.rdcppgudji ≠ 0) (data : ∀ s p, P (dataMessage l.rdcppgudji s p))
    (alive : l.tttbejw = false → 2 ≤ l.epochsLeft → P (newAck l.rdcppgudji 0))
    (held : ∀ m ∈ l.rfxtuoncvn, P m) : ∀ m ∈ l.tyhdjska.rfxtuoncvn, P m := by
  have id : l.llehwkas.rdcppgudji ≠ 0 := known
  obtain ⟨flag, resent⟩ := resendAll_buffer (l := l.llehwkas) l.llehwkas.qqbakktl.entries data held
  have same : l.llehwkas.speakUp.rdcppgudji = l.rdcppgudji :=
    (congrArg Bxnzsdj.rdcppgudji (speakUp_unsent l.llehwkas) :)
  intro m member
  simp only [Bxnzsdj.tyhdjska, Bxnzsdj.sayEpoch] at member
  by_cases lives : 0 < l.llehwkas.rdcppgudji ∧ ¬ l.llehwkas.jfkdl = true
  · rw [if_pos lives, if_neg (by rw [same]; exact known)] at member
    simp only [Bxnzsdj.speakUp] at member
    split at member
    · exact resent m member
    · rename_i silent
      rcases List.mem_append.mp member with old | new
      · exact resent m old
      · have left : 2 ≤ l.epochsLeft := by
          have lost : l.llehwkas.jfkdl = false := by simpa using lives.2
          have before := of_decide_eq_false lost
          simp only [Bxnzsdj.epochsLeft, Bxnzsdj.llehwkas] at before ⊢
          omega
        have number : (resendAll l.llehwkas l.llehwkas.qqbakktl.entries).rdcppgudji = l.rdcppgudji :=
          (congrArg Bxnzsdj.rdcppgudji (resendAll_unsent l.llehwkas.qqbakktl.entries l.llehwkas) :)
        rw [List.mem_singleton.mp new, number]
        exact alive (flag.symm.trans (by simpa using silent)) left
  · rw [if_neg lives, if_neg id] at member
    exact held m member

/-- All that a connection puts into its buffer, and what it hands to the socket. -/
theorem ConnMove.buffer (move : ConnMove hears l l' out) (known : l.rdcppgudji ≠ 0)
    (data : ∀ s p, P (dataMessage l.rdcppgudji s p))
    (ack : ∀ m, hears m → m.type = .data → P (newAck l.rdcppgudji m.seqNum))
    (alive : l.tttbejw = false → 2 ≤ l.epochsLeft → P (newAck l.rdcppgudji 0))
    (held : ∀ m ∈ l.rfxtuoncvn, P m) : (∀ m ∈ l'.rfxtuoncvn, P m) ∧ ∀ m ∈ out, P m := by
  cases move with
  | marked | read => exact ⟨held, by simp⟩
  | tick => exact ⟨tyhdjska_buffer known data alive held, by simp⟩
  | flush => exact ⟨by simp [Bxnzsdj.bnmgrlr], held⟩
  | write taken =>
    rw [(gkxcls_cases taken).2.2]
    exact ⟨ngkdlse_buffer data held, by simp⟩
  | @hear m _ comes taken =>
    refine ⟨?_, by simp⟩
    cases qtbejekw_cases taken with
    | connect => exact held
    | data kind => exact bvmndthe_buffer (l := l.bbjdkslwoorun) (ack m comes kind) held
    | ack _ step =>
      cases step with
      | ignored => exact held
      | connected unknown => exact held
      | settled _ acked =>
        have id : (acked.foldl Bxnzsdj.forget l.bbjdkslwoorun).rdcppgudji = l.rdcppgudji :=
          (congrArg Bxnzsdj.rdcppgudji (forgetAll_unsent acked l.bbjdkslwoorun) :)
        refine ngkdlse_buffer (by rwa [id]) ?_
        rw [forgetAll_sent]
        exact held

/-! ### What a server says -/

section Server

variable {z z' : Zx} {iqu : Int} {conn : Zqqx} {orders : Orders} {order : List Int}
  {f : Zx → Int → Zqqx → Option Zx} {comes : Addr → Message → Prop}

/-- What every call at a connection keeps, and every new connection has, holds of all of them, and
what they send has the property that they can give it. -/
theorem Zx.Moves.keeps {I : Int → Addr → Bxnzsdj → Prop} {O : Addr → Message → Prop}
    (moves : z.Moves comes z')
    (ends : ∀ iqu d l l' out, I iqu d l → ConnMove (comes d) l l' out →
      I iqu d l' ∧ ∀ m ∈ out, O d m)
    (greets : ∀ t : Zx, ∀ d msg, comes d msg → z.jjeqqw ≤ t.jjeqqw →
      I t.jjeqqw d (nfkdlws msg.seqNum t.cz t.jjeqqw))
    (start : ∀ iqu conn, z.c.lookup iqu = some conn → I iqu conn.d conn.a) :
    (∀ iqu conn, z'.c.lookup iqu = some conn → I iqu conn.d conn.a) ∧
      ∃ new, z'.sent = z.sent ++ new ∧ ∀ entry ∈ new, O entry.1 entry.2 := by
  induction moves with
  | refl => exact ⟨start, [], by simp, by simp⟩
  | @tail t t' before last ih =>
    obtain ⟨all, new, sent, said⟩ := ih
    have counter : z.jjeqqw ≤ t.jjeqqw := (Zx.Moves.edits before).later.counter
    cases last with
    | @conn iqu conn out conn' found address move table more =>
      have table : t'.c = t.c.insert iqu conn' := congrArg Registry.table table
      obtain ⟨kept, sends⟩ := ends iqu conn.d conn.a conn'.a out (all iqu conn found) move
      refine ⟨?_, new ++ out.map fun m => (conn.d, m), by rw [more, sent, List.append_assoc], ?_⟩
      · intro j other there
        rw [table, Map.lookup_insert] at there
        split at there
        · rename_i here
          cases Option.some.inj there
          rw [here, address]
          exact kept
        · exact all j other there
      · intro entry member
        rcases List.mem_append.mp member with old | fresh
        · exact said entry old
        · obtain ⟨m, mine, rfl⟩ := List.mem_map.mp fresh
          exact sends m mine
    | @greet d msg comes _ table same =>
      have table : t'.c = (t.greet d msg).c := congrArg Registry.table table
      refine ⟨?_, new, same.trans sent, said⟩
      intro j other there
      rw [table, Zx.greet, Map.lookup_insert] at there
      split at there
      · rename_i here
        cases Option.some.inj there
        rw [here]
        exact greets t d msg comes counter
      · exact all j other there
    | @remove iqu conn _ table same =>
      have table : t'.c = t.c.erase iqu := congrArg Registry.table table
      refine ⟨?_, new, same.trans sent, said⟩
      intro j other there
      rw [table, Map.lookup_erase] at there
      split at there
      · contradiction
      · exact all j other there
    | beside table same =>
      have table : t'.c = t.c := congrArg Registry.table table
      rw [table]
      exact ⟨all, new, same.trans sent, said⟩

theorem regular_ack (connID seqNum : Int) : (newAck connID seqNum).Regular :=
  ⟨rfl, by simp [newAck]⟩

theorem regular_data (connID seqNum : Int) (payload : Payload) :
    (dataMessage connID seqNum payload).Regular :=
  ⟨ciqlyoibuh_data connID seqNum payload, by simp [dataMessage, newData]⟩

/-- Where nothing waits for the socket, all that is sent next can be read. -/
theorem Zx.Moves.regular (moves : z.Moves (fun _ _ => True) z') (sound : z.Sound)
    (settled : ∀ iqu conn, z.c.lookup iqu = some conn → conn.Settled) :
    ∃ new, z'.sent = z.sent ++ new ∧ ∀ entry ∈ new, entry.2.Regular := by
  refine (moves.keeps (I := fun _ _ l => l.rdcppgudji ≠ 0 ∧ ∀ m ∈ l.rfxtuoncvn, m.Regular)
    (O := fun _ m => m.Regular) ?_ ?_ ?_).2
  · rintro iqu d l l' out ⟨known, held⟩ move
    obtain ⟨buffer, sends⟩ := move.buffer known (fun _ _ => regular_data _ _ _)
      (fun _ _ _ => regular_ack _ _) (fun _ _ => regular_ack _ _) held
    exact ⟨⟨by rwa [move.id known], buffer⟩, sends⟩
  · intro t d msg _ later
    have counter := sound.counter
    refine ⟨?_, ?_⟩
    · simp only [nfkdlws, Zx.registry] at counter ⊢
      omega
    · intro m member
      rw [List.mem_singleton.mp member]
      exact regular_ack _ _
  · intro iqu conn found
    refine ⟨sound.id found, ?_⟩
    simp [(settled iqu conn found).flushed]

/-! ### One connection in a turn -/

/-- The buffer of every connection goes to its address. -/
theorem hgi_sends (ranged : z.rangeIn Zx.hgiConn order = some z') (visited : iqu ∈ order)
    (found : z.c.lookup iqu = some conn) :
    ∃ new, z'.sent = z.sent ++ new ∧ ∀ m ∈ conn.a.rfxtuoncvn, (conn.d, m) ∈ new := by
  have grows : ∀ {order : List Int} {z z' : Zx}, z.rangeIn Zx.hgiConn order = some z' →
      ∃ new, z'.sent = z.sent ++ new := by
    intro order z z' ranged
    refine rangeIn_keeps (fun t => ∃ new, t.sent = z.sent ++ new) ?_ ⟨[], by simp⟩ ranged
    rintro t j conn t' ⟨new, sent⟩ _ visit
    cases Option.some.inj visit
    refine ⟨new ++ conn.a.rfxtuoncvn.map fun m => (conn.d, m), ?_⟩
    rw [← List.append_assoc, ← sent]
    rfl
  obtain ⟨before, after, u, v, -, fresh, first, visit, last⟩ := rangeIn_visits visited ranged
  have still : u.c.lookup iqu = some conn := by
    refine (rangeIn_away ?_ first fresh).trans found
    intro s j other s' _ visit
    cases Option.some.inj visit
    exact fun k away => AList.lookup_insert_ne away
  simp only [still] at visit
  cases Option.some.inj visit
  obtain ⟨earlier, sent⟩ := grows first
  obtain ⟨later, sends⟩ := grows last
  refine ⟨earlier ++ (conn.a.rfxtuoncvn.map fun m => (conn.d, m)) ++ later, ?_, ?_⟩
  · rw [sends, ← List.append_assoc, ← List.append_assoc, ← sent]
    rfl
  · intro m waits
    exact List.mem_append_left _ (List.mem_append_right _ (List.mem_map_of_mem waits))

/-- Only `hgi` sends. -/
theorem unsent_range (visits : ∀ s j conn s', f s j conn = some s' → s'.sent = s.sent)
    (ranged : z.rangeIn f order = some z') : z'.sent = z.sent := by
  refine rangeIn_keeps (fun t => t.sent = z.sent) ?_ rfl ranged
  intro t j conn t' same _ visit
  exact (visits t j conn t' visit).trans same

theorem qieeConn_cases (visit : z.qieeConn iqu conn = some z') :
    z'.sent = z.sent ∧ (∃ queue, z'.c.lookup iqu =
        some { conn with a := { conn.a with asdfghj := queue } }) ∧
      ∀ other, other ≠ iqu → z'.c.lookup other = z.c.lookup other := by
  simp only [Zx.qieeConn, Option.bind_eq_bind, Option.bind_eq_some_iff] at visit
  obtain ⟨⟨payloads, rest⟩, all, result⟩ := visit
  cases Option.some.inj result
  refine ⟨by simp [Zx.moveConn], ⟨rest.asdfghj, ?_⟩, fun _ away => AList.lookup_insert_ne away⟩
  rw [← (readAll_spec all).2]
  exact AList.lookup_insert _

theorem ngbConn_sent (z : Zx) (iqu : Int) (conn : Zqqx) : (z.ngbConn iqu conn).sent = z.sent := by
  have visit := ngbConn_cases z iqu conn
  generalize z.ngbConn iqu conn = t at visit ⊢
  cases visit with
  | stays => rfl
  | closed => rfl
  | lost => rfl

theorem finishTurn_sent (z : Zx) : z.finishTurn.sent = z.sent := by
  unfold Zx.finishTurn
  split
  · rfl
  · have step := hvi_cases z
    generalize z.hvi = t at step ⊢
    cases step with
    | waits => rfl
    | handed => rfl

theorem ngbConn_stays (lives : conn.a.jfkdl = false)
    (waits : conn.c = true → conn.a.agabsdjgdfj = false) : z.ngbConn iqu conn = z := by
  have open_ : ¬ ((conn.c = true ∧ conn.a.agabsdjgdfj = true) ∨ conn.a.jfkdl = true) := by
    rintro (⟨closes, sent⟩ | lost)
    · rw [waits closes] at sent
      cases sent
    · rw [lives] at lost
      cases lost
  have unreported : z.report iqu conn = z := if_neg (by simp [lives])
  have unmarked : (if conn.a.jfkdl ∧ z.neowem then { z with ytiqeqe := true } else z) = z :=
    if_neg (by simp [lives])
  simp only [Zx.ngbConn, unreported, unmarked, if_neg open_]

/-- The rest of a turn at a connection that is neither lost nor ready to be closed: it is read out,
and its buffer is sent. -/
theorem turnIn_conn (turned : z.turnIn orders = some z') (found : z.c.lookup iqu = some conn)
    (lives : conn.a.jfkdl = false) (waits : conn.c = true → conn.a.agabsdjgdfj = false) :
    (∃ queue, z'.c.lookup iqu =
      some { conn with a := { conn.a with asdfghj := queue, rfxtuoncvn := [] } }) ∧
    ∃ new, z'.sent = z.sent ++ new ∧ ∀ m ∈ conn.a.rfxtuoncvn, (conn.d, m) ∈ new := by
  obtain ⟨read, flushed, cleaned, steps⟩ := turnIn_cases turned
  obtain ⟨-, reads⟩ := rangeOver_cases steps.reads
  obtain ⟨whole, flushes⟩ := rangeOver_cases steps.flushes
  obtain ⟨-, cleans⟩ := rangeOver_cases steps.cleans
  have first : ∃ conn₁, read.c.lookup iqu = some conn₁ ∧
      ∃ queue, conn₁ = { conn with a := { conn.a with asdfghj := queue } } := by
    refine rangeIn_holds _ ?_ ⟨conn, found, _, rfl⟩ reads
    intro s j other s' _ visit
    obtain ⟨-, ⟨queue, own⟩, others⟩ := qieeConn_cases visit
    refine ⟨?_, others⟩
    rintro ⟨before, rfl⟩
    exact ⟨_, own, queue, rfl⟩
  obtain ⟨conn₁, found₁, queue, rfl⟩ := first
  have visited : iqu ∈ orders.hgi :=
    whole.mem_iff.mpr (AList.mem_keys.mp (Map.mem_of_lookup found₁))
  obtain ⟨conn₂, same⟩ : ∃ conn₂ : Zqqx,
    conn₂ = { conn with a := { conn.a with asdfghj := queue, rfxtuoncvn := [] } } := ⟨_, rfl⟩
  have second : flushed.c.lookup iqu = some conn₂ := by
    rw [rangeIn_lookup (fun conn => { conn with a := conn.a.bnmgrlr.2 }) ?_
      (whole.nodup_iff.mpr read.c.keys_nodup) flushes visited, found₁, same]
    · rfl
    · intro s j other s' _ visit
      cases Option.some.inj visit
      rfl
  have third : ∃ conn₃, cleaned.c.lookup iqu = some conn₃ ∧ conn₃ = conn₂ := by
    refine rangeIn_holds _ ?_ ⟨_, second, rfl⟩ cleans
    intro s j other s' there visit
    cases Option.some.inj visit
    refine ⟨?_, fun _ away => ngbConn_others away⟩
    rintro rfl
    have lives : other.a.jfkdl = false := by
      rw [same]
      exact lives
    have waits : other.c = true → other.a.agabsdjgdfj = false := by
      rw [same]
      exact waits
    rw [ngbConn_stays lives waits]
    exact ⟨other, there, rfl⟩
  obtain ⟨_, found₃, rfl⟩ := third
  obtain ⟨new, sends, sent⟩ := hgi_sends flushes visited found₁
  refine ⟨⟨queue, ?_⟩, new, ?_, sent⟩
  · rw [steps.ends, finishTurn_table, found₃, same]
  · rw [steps.ends, finishTurn_sent,
      unsent_range (fun _ _ _ _ visit => Option.some.inj visit ▸ ngbConn_sent _ _ _) cleans, sends,
      unsent_range (fun _ _ _ _ visit => (qieeConn_cases visit).1) reads]

/-! ### Between two turns -/

/-- Every connection is settled, and the main loop goes on while there is one. -/
def Zx.Calm (z : Zx) : Prop :=
  ∀ iqu conn, z.c.lookup iqu = some conn → conn.Settled ∧ z.main = .select

theorem Zx.Calm.step {a : ServerAction} (h : z.Calm)
    (stepped : orderedStep z (a, orders) = some z') : z'.Calm := by
  have lives : z.Alive := fun j other there => (h j other there).1.lives
  intro iqu conn found
  cases orderedStep_cases stepped with
  | dropped | datagram => exact h iqu conn found
  | stop waits =>
    rw [hvi_table] at found
    rw [(h iqu conn found).2] at waits
    cases waits
  | blocked _ _ select event stuck =>
    rw [(eventIn_requests lives event).2, select] at stuck
    cases stuck
  | turn _ handled _ select event _ turned =>
    refine ⟨turnIn_settled turned found, ?_⟩
    rcases (turnIn_end turned).2.2 with ⟨-, none⟩ | ⟨same, -⟩
    · rw [Map.eq_empty_of_size none, AList.lookup_empty] at found
      cases found
    · rw [same, (eventIn_requests lives event).2, select]

/-- The reader holds what it held before, or what it has just got out of the socket. -/
theorem reader_step {a : ServerAction} {d : Addr} {msg : Message}
    (stepped : orderedStep z (a, orders) = some z') (now : z'.reader = .handing d msg) :
    z.reader = .handing d msg ∨ ∃ m, a = .datagram d m ∧ msg.type = m.type := by
  have evented : ∀ {handled}, eventIn orders z a = some handled → handled.reader = .handing d msg →
      z.reader = .handing d msg := by
    intro handled event now
    rcases eventIn_reader event with ⟨-, same⟩ | ⟨-, free⟩
    · exact same.symm.trans now
    · rw [free] at now
      cases now
  cases orderedStep_cases stepped with
  | dropped => exact .inl now
  | datagram _ m _ passes =>
    cases now
    exact .inr ⟨m, rfl, (ciqlyoibuh_kind passes).1⟩
  | stop => cases now
  | blocked _ _ _ event => exact .inl (evented event now)
  | turn _ _ _ _ event _ turned => exact .inl (evented event ((turnIn_end turned).2.1.symm.trans now))

/-! ### Epochs and messages -/

/-- An end that has heard nothing since the last epoch says that it is alive. -/
theorem tyhdjska_speaks (id : 0 < l.rdcppgudji) (left : 2 ≤ l.epochsLeft)
    (silent : l.tttbejw = false) : newAck l.rdcppgudji 0 ∈ l.tyhdjska.rfxtuoncvn := by
  have still : l.llehwkas.jfkdl = false := by
    apply decide_eq_false
    simp only [Bxnzsdj.epochsLeft, Bxnzsdj.llehwkas] at left ⊢
    omega
  have flag : (resendAll l.llehwkas l.llehwkas.qqbakktl.entries).tttbejw = false :=
    (resendAll_buffer (P := fun _ => True) _ (by simp) (by simp)).1.trans silent
  have same : (resendAll l.llehwkas l.llehwkas.qqbakktl.entries).rdcppgudji = l.rdcppgudji :=
    (congrArg Bxnzsdj.rdcppgudji (resendAll_unsent l.llehwkas.qqbakktl.entries l.llehwkas) :)
  have spoken : newAck l.rdcppgudji 0 ∈ l.llehwkas.speakUp.rfxtuoncvn := by
    simp only [Bxnzsdj.speakUp, flag, Bool.false_eq_true, ↓reduceIte, Bxnzsdj.lbzxtomtos, same]
    exact List.mem_append_right _ List.mem_cons_self
  have alive : 0 < l.llehwkas.rdcppgudji ∧ ¬ l.llehwkas.jfkdl = true := ⟨id, by simp [still]⟩
  simp only [Bxnzsdj.tyhdjska, Bxnzsdj.sayEpoch, if_pos alive]
  split
  · exact List.mem_append_left _ spoken
  · exact spoken

theorem lives_of_left (left : 1 ≤ l.epochsLeft) : l.jfkdl = false := by
  apply decide_eq_false
  simp only [Bxnzsdj.epochsLeft] at left
  omega

theorem emu_ticked (ranged : z.rangeOver Zx.emuConn order = some z')
    (found : z.c.lookup iqu = some conn) :
    z'.c.lookup iqu = some { conn with a := conn.a.tyhdjska } ∧ z'.sent = z.sent := by
  obtain ⟨whole, ranged⟩ := rangeOver_cases ranged
  have member : iqu ∈ order :=
    whole.mem_iff.mpr (AList.mem_keys.mp (Map.mem_of_lookup found))
  have once : order.Nodup := whole.nodup_iff.mpr z.c.keys_nodup
  constructor
  · rw [rangeIn_lookup (fun conn => { conn with a := conn.a.tyhdjska }) ?_ once ranged member, found]
    · rfl
    · intro s j conn s' _ visit
      cases Option.some.inj visit
      rfl
  · refine unsent_range ?_ ranged
    intro s j conn s' visit
    cases Option.some.inj visit
    simp [Zx.moveConn]

/-- An epoch at a connection that lives for another one. -/
theorem Zx.Sound.ticks (h : z.Sound) (select : z.main = .select)
    (found : z.c.lookup iqu = some conn) (settled : conn.Settled) (left : 2 ≤ conn.a.epochsLeft) :
    ∃ orders z' new conn', orderedStep z (.tick, orders) = some z' ∧ z'.sent = z.sent ++ new ∧
      (conn.a.tttbejw = false → (conn.d, newAck iqu 0) ∈ new) ∧ z'.c.lookup iqu = some conn' ∧
      conn'.d = conn.d ∧ conn'.a.tttbejw = false ∧ conn'.a.epochsLeft = conn.a.epochsLeft - 1 := by
  obtain ⟨orders, handled, z', event, turned, -, stepped⟩ := h.tick select
  obtain ⟨positive, -, named⟩ := h.ids iqu conn found
  have named : conn.a.rdcppgudji = iqu := named
  obtain ⟨ticked, unsent⟩ := emu_ticked event found
  have less : conn.a.tyhdjska.epochsLeft = conn.a.epochsLeft - 1 := tyhdjska_epochsLeft conn.a
  have writer := (sayEpoch_utters conn.a.llehwkas).writer
  have pending : conn.a.tyhdjska.agabsdjgdfj = conn.a.agabsdjgdfj := by
    simp only [Bxnzsdj.agabsdjgdfj, Bxnzsdj.tyhdjska, writer.unacked, writer.pending]
    rfl
  have lives : conn.a.tyhdjska.jfkdl = false := lives_of_left (by omega)
  obtain ⟨⟨queue, there⟩, new, sent, out⟩ := turnIn_conn turned ticked lives
    fun closes => pending.trans (settled.waits closes)
  refine ⟨orders, z', new, _, stepped, by rw [sent, unsent], ?_, there, rfl, rfl, less⟩
  intro silent
  refine out _ ?_
  rw [← named]
  exact tyhdjska_speaks (by omega) left silent

/-- The main loop takes what the reader holds, and makes its turn. -/
theorem Zx.Sound.handles (h : z.Sound) (select : z.main = .select) {d : Addr} {msg : Message}
    (handing : z.reader = .handing d msg) (handled : z.qip d msg = some z')
    (found : z'.c.lookup iqu = some conn) (lives : conn.a.jfkdl = false)
    (waits : conn.c = true → conn.a.agabsdjgdfj = false) :
    ∃ orders z'' new queue, orderedStep z (.message, orders) = some z'' ∧
      z''.reader = .polling ∧ z''.sent = z.sent ++ new ∧
      z''.c.lookup iqu = some { conn with a := { conn.a with asdfghj := queue, rfxtuoncvn := [] } } := by
  let free := { z' with reader := .polling }
  have event : ∀ orders, eventIn orders z .message = some free := by
    intro orders
    simp [eventIn, serverEvent, handing, handled, free]
  have quiet := qip_quiet handled
  have goes : free.main ≠ .blocked := by
    rw [show free.main = .select from quiet.main.trans select]
    simp
  have unsent : free.sent = z.sent := by
    cases qip_cases handled with
    | ignored | greeted => rfl
    | handled => simp [free, Zx.moveConn]
  have sound : free.Sound := h.edits (eventIn_edits (event ⟨[], [], [], []⟩))
  obtain ⟨orders, z'', -, turned⟩ := sound.turns []
  obtain ⟨⟨queue, there⟩, new, sent, -⟩ := turnIn_conn (z := free) turned found lives waits
  refine ⟨orders, z'', new, queue, ?_, (turnIn_end turned).2.1, by rw [sent, unsent], there⟩
  simp [orderedStep, select, event, goes, turned]

end Server

end DistSys.Lsp
