import DistSys.Lsp.Calls
import DistSys.Lsp.Table

/-! The end of a client and of a server: the main loop asks the socket reader to stop, and each of
the two can be at a channel where it waits for the other. -/
namespace DistSys.Lsp

open DistSys.Lib

/-! ### The client -/

section Client

variable {c c' : Rtvbvojjbl} {a : ClientAction}

/-- The main loop sends its stop request, and the reader sends to the main loop, or to an epoch
goroutine that has returned. -/
def Rtvbvojjbl.Deadlocked (c : Rtvbvojjbl) : Prop :=
  c.main = .xrwedxzgjd ∧
    ((∃ m, c.reader = .handing m) ∨ (∃ bytes, c.reader = .telling bytes) ∧ c.zguucznusf = false)

/-- Nothing ever happens again. -/
theorem Rtvbvojjbl.Deadlocked.stuck (h : c.Deadlocked) (a : ClientAction) :
    clientStep c a = none := by
  obtain ⟨main, ⟨m, reader⟩ | ⟨⟨bytes, reader⟩, gone⟩⟩ := h
  · cases a with
    | step => simp [clientStep, mainStep, main]
    | _ => simp [clientStep, main, reader]
  · cases a with
    | step => simp [clientStep, mainStep, main]
    | _ => simp [clientStep, main, reader, gone]

/-- The main loop comes to its end only while the reader is at the socket. A datagram that comes
between the answer of `cxpdkaxytf` and the end of the socket is one that comes before it. -/
def endsBetween (c : Rtvbvojjbl) (a : ClientAction) : Bool :=
  match clientStep c a with
  | some c' => c'.main ≠ .xrwedxzgjd ∨ c.main = .xrwedxzgjd ∨ c.reader = .polling
  | none => true

/-- What a close request means along a run: only a client that was returned can be closed, and the
end is not reached without an answer. -/
structure Rtvbvojjbl.Tidy (c : Rtvbvojjbl) : Prop where
  waiting : c.pztumoofep = true → c.kmpyqgmcyl = false
  failing : c.main = .cxpdkaxytf true → c.pztumoofep = true
  answered : c.main = .xrwedxzgjd ∨ c.main = .returned → c.kmpyqgmcyl = true →
    ∃ ok, .closed ok ∈ c.answers

theorem tidy_new (isn : Int) (params : Params) : (newClient isn params).Tidy :=
  ⟨fun _ => rfl, fun _ => rfl, fun _ asked => by cases asked⟩

theorem Rtvbvojjbl.Tidy.elsewhere (h : c.Tidy) (waits : c'.pztumoofep = c.pztumoofep)
    (asked : c'.kmpyqgmcyl = c.kmpyqgmcyl) (fails : c'.main ≠ .cxpdkaxytf true)
    (ends : c'.main ≠ .xrwedxzgjd) (returns : c'.main ≠ .returned) : c'.Tidy := by
  refine ⟨?_, fun here => absurd here fails, ?_⟩
  · rw [waits, asked]
    exact h.waiting
  · rintro (here | here)
    · exact absurd here ends
    · exact absurd here returns

theorem Rtvbvojjbl.Tidy.move (h : c.Tidy) (move : LoopMove c c') : c'.Tidy := by
  cases move with
  | noClose bgikdrftzz pc idle =>
    cases bgikdrftzz with
    | false =>
      exact h.elsewhere rfl rfl (by simp [Rtvbvojjbl.goto]) (by simp [Rtvbvojjbl.goto])
        (by simp [Rtvbvojjbl.goto])
    | true =>
      have unasked := h.waiting (h.failing pc)
      refine ⟨h.waiting, fun here => by simp [Rtvbvojjbl.goto] at here, fun _ asked => ?_⟩
      simp only [Rtvbvojjbl.goto] at asked
      rw [unasked] at asked
      cases asked
  | closedWell =>
    exact ⟨h.waiting, by simp [Rtvbvojjbl.goto], fun _ _ =>
      ⟨true, by simp [Rtvbvojjbl.goto, Rtvbvojjbl.answer]⟩⟩
  | closedLost =>
    exact ⟨h.waiting, by simp [Rtvbvojjbl.goto], fun _ _ =>
      ⟨false, by simp [Rtvbvojjbl.goto, Rtvbvojjbl.answer]⟩⟩
  | connected | connectedLost =>
    exact ⟨by simp [Rtvbvojjbl.goto, Rtvbvojjbl.answer], by simp [Rtvbvojjbl.goto],
      by simp [Rtvbvojjbl.goto]⟩
  | connectFailed _ waits =>
    exact ⟨h.waiting, fun _ => waits, by simp [Rtvbvojjbl.goto]⟩
  | _ =>
    exact h.elsewhere rfl rfl (by simp [Rtvbvojjbl.goto, Rtvbvojjbl.writeSocket])
      (by simp [Rtvbvojjbl.goto, Rtvbvojjbl.writeSocket])
      (by simp [Rtvbvojjbl.goto, Rtvbvojjbl.writeSocket])

theorem Rtvbvojjbl.Tidy.step (h : c.Tidy) (stepped : clientStep c a = some c') : c'.Tidy := by
  cases clientStep_inv stepped with
  | step move => exact h.move move
  | close _ connected =>
    refine ⟨fun waits => ?_, by simp [Rtvbvojjbl.goto], by simp [Rtvbvojjbl.goto]⟩
    simp only [Rtvbvojjbl.goto] at waits
    rw [connected] at waits
    cases waits
  | stop waits => exact ⟨h.waiting, by simp, fun _ => h.answered (.inl waits)⟩
  | datagram | dropped | passed => exact ⟨h.waiting, h.failing, h.answered⟩
  | write | read | tick | message =>
    exact h.elsewhere rfl rfl (by simp [Rtvbvojjbl.goto]) (by simp [Rtvbvojjbl.goto])
      (by simp [Rtvbvojjbl.goto])

/-- The main loop is neither at its end nor in a write request. -/
def LoopPc.looping : LoopPc → Bool
  | .flush | .kbiorathrz | .msltdjocir | .cxpdkaxytf _ | .select | .tyhdjska => true
  | .ujuassxdjg _ | .gkxcls _ _ | .xrwedxzgjd | .returned | .blocked => false

/-- The silent epochs until the connection is lost. -/
def Bxnzsdj.epochsLeft (l : Bxnzsdj) : Nat := (l.lksdkwkq - (l.qbnwkal - l.wbjkdfjd)).toNat

/-- The steps until the loop is at its `select`, or at `cxpdkaxytf` with a lost connection. -/
def Rtvbvojjbl.stepsLeft (c : Rtvbvojjbl) : Nat :=
  match c.main with
  | .select => if c.uygovtfegl.jfkdl then 6 else 0
  | .tyhdjska => 5
  | .flush => 4
  | .kbiorathrz => 3
  | .msltdjocir => 2
  | .cxpdkaxytf _ => 1
  | _ => 0

def Rtvbvojjbl.left (c : Rtvbvojjbl) : Nat := 6 * c.uygovtfegl.epochsLeft + c.stepsLeft

/-- A close request waits, and the loop goes around. -/
structure Closing (reader : ReaderPc) (c : Rtvbvojjbl) : Prop where
  looping : c.main.looping = true
  asked : c.kmpyqgmcyl = true
  reader : c.reader = reader
  sane : c.Sane
  tidy : c.Tidy

/-- The close request has been answered, and the main loop asks the reader to stop. -/
structure Closed (reader : ReaderPc) (c : Rtvbvojjbl) : Prop where
  main : c.main = .xrwedxzgjd
  reader : c.reader = reader
  answered : ∃ ok, .closed ok ∈ c.answers

variable {reader : ReaderPc}

theorem Closing.connected (h : Closing reader c) : c.pztumoofep = false := by
  cases waits : c.pztumoofep with
  | false => rfl
  | true =>
    have unasked := h.tidy.waiting waits
    rw [h.asked] at unasked
    cases unasked

theorem Closing.nearer (h : Closing reader c) (move : LoopMove c c')
    (asked : c'.kmpyqgmcyl = c.kmpyqgmcyl) (same : c'.reader = c.reader)
    (looping : c'.main.looping = true) (fewer : c'.stepsLeft < c.stepsLeft) :
    Closing reader c' ∧ c'.left < c.left := by
  refine ⟨⟨looping, asked.trans h.asked, same.trans h.reader, h.sane.move move, h.tidy.move move⟩, ?_⟩
  have clock := move.clock
  have epochs : c'.uygovtfegl.epochsLeft = c.uygovtfegl.epochsLeft := by
    simp only [Bxnzsdj.epochsLeft, clock.epoch, clock.heard, clock.limit]
  simp only [Rtvbvojjbl.left, epochs]
  omega

theorem Closing.move (h : Closing reader c) (move : LoopMove c c') :
    Closed reader c' ∨ Closing reader c' ∧ c'.left < c.left := by
  have looping := h.looping
  have connected := h.connected
  have steps := h.nearer move
  cases move with
  | flush pc =>
    exact .inr (steps rfl rfl rfl (by simp [Rtvbvojjbl.stepsLeft, Rtvbvojjbl.writeSocket, pc]))
  | noRead pc | readPayload _ _ pc | readFailed pc | noConnect pc | epoch pc =>
    exact .inr (steps rfl rfl rfl (by simp [Rtvbvojjbl.stepsLeft, Rtvbvojjbl.goto, pc]))
  | noClose bgikdrftzz pc idle =>
    have lives := (idle h.asked).2
    cases bgikdrftzz with
    | true =>
      have waits := h.tidy.failing pc
      rw [connected] at waits
      cases waits
    | false =>
      refine .inr (steps rfl rfl rfl ?_)
      simp [Rtvbvojjbl.stepsLeft, Rtvbvojjbl.goto, pc, lives]
  | closedWell => exact .inl ⟨rfl, h.reader, true, by simp [Rtvbvojjbl.goto, Rtvbvojjbl.answer]⟩
  | closedLost => exact .inl ⟨rfl, h.reader, false, by simp [Rtvbvojjbl.goto, Rtvbvojjbl.answer]⟩
  | connected _ waits | connectedLost _ waits | connectFailed _ waits =>
    rw [connected] at waits; cases waits
  | takes _ pc | refused _ pc | refusedTwice _ pc | wrote _ _ pc | wroteTwice _ _ pc =>
    rw [pc] at looping; cases looping

/-- A read that finds a payload needs an id. -/
theorem kbiorathrz_goes (id : c.uygovtfegl.rdcppgudji ≠ 0) : ∃ c', c.kbiorathrz = some c' := by
  simp only [Rtvbvojjbl.kbiorathrz]
  split
  · exact ⟨_, rfl⟩
  split
  · rename_i ready
    cases queue : c.uygovtfegl.asdfghj with
    | nil => simp [Bxnzsdj.rkdlxleik, queue] at ready
    | cons payload rest => simp [Bxnzsdj.odkejnfsa, id, queue]
  split
  · exact ⟨_, rfl⟩
  split
  · exact ⟨_, rfl⟩
  · exact ⟨_, rfl⟩

theorem Closing.goes (h : Closing reader c) (busy : c.main ≠ .select) :
    ∃ c', clientStep c .step = some c' := by
  have id := h.sane.id h.connected
  have looping := h.looping
  simp only [clientStep, mainStep]
  cases pc : c.main with
  | kbiorathrz => exact kbiorathrz_goes (by omega)
  | select => exact absurd pc busy
  | flush | msltdjocir | cxpdkaxytf | tyhdjska => exact ⟨_, rfl⟩
  | ujuassxdjg | gkxcls | xrwedxzgjd | returned | blocked => rw [pc] at looping; cases looping

theorem Closing.tick (h : Closing reader c) (select : c.main = .select) :
    ∃ c', clientStep c .tick = some c' ∧ Closing reader c' ∧ c'.left < c.left := by
  have ticks : clientStep c .tick =
      some ({ c with uygovtfegl := c.uygovtfegl.llehwkas }.goto .tyhdjska) := by
    simp [clientStep, select]
  refine ⟨_, ticks, ⟨rfl, h.asked, h.reader, h.sane.step ticks, h.tidy.step ticks⟩, ?_⟩
  simp only [Rtvbvojjbl.left, Rtvbvojjbl.stepsLeft, Rtvbvojjbl.goto, select,
    Bxnzsdj.epochsLeft, Bxnzsdj.llehwkas]
  split
  · rename_i lost
    have lost := of_decide_eq_true lost
    omega
  · rename_i lives
    have lives : ¬ c.uygovtfegl.lksdkwkq ≤ c.uygovtfegl.qbnwkal - c.uygovtfegl.wbjkdfjd := by
      simpa [Bxnzsdj.jfkdl] using lives
    omega

/-- A close request is answered once the connection has been silent for long enough. -/
theorem Closing.completes (h : Closing reader c) : ∃ more e,
    (∀ a ∈ more, a = .step ∨ a = .tick) ∧ run clientStep c more = some e ∧ Closed reader e := by
  refine run_progress _ (Closing reader) (Closed reader) Rtvbvojjbl.left ?_ h
  intro c h
  by_cases select : c.main = .select
  · obtain ⟨c', taken, next⟩ := h.tick select
    exact ⟨.tick, c', .inr rfl, taken, .inr next⟩
  · obtain ⟨c', taken⟩ := h.goes select
    exact ⟨.step, c', .inl rfl, taken, h.move (mainStep_cases taken)⟩

/-- What the end of a client is like. A close request that waits is answered by steps of the loop and
silent epochs, and when the reader is at the socket then both goroutines return. -/
structure Rtvbvojjbl.Shuts (c : Rtvbvojjbl) : Prop where
  free : ¬ c.Deadlocked
  stops : c.main = .xrwedxzgjd →
    ∃ e, clientStep c .stop = some e ∧ e.main = .returned ∧ e.reader = .returned
  answered : c.kmpyqgmcyl = true → c.main = .xrwedxzgjd ∨ c.main = .returned →
    ∃ ok, .closed ok ∈ c.answers
  completes : c.kmpyqgmcyl = true → c.main.looping = true →
    ∃ more e, (∀ a ∈ more, a = .step ∨ a = .tick) ∧ run clientStep c more = some e ∧
      (∃ ok, .closed ok ∈ e.answers) ∧
      (c.reader = .polling →
        ∃ f, clientStep e .stop = some f ∧ f.main = .returned ∧ f.reader = .returned)

/-- At the end of the main loop the reader is at the socket. -/
def Rtvbvojjbl.Between (c : Rtvbvojjbl) : Prop := c.main = .xrwedxzgjd → c.reader = .polling

theorem Rtvbvojjbl.Between.step (h : c.Between) (ends : endsBetween c a = true)
    (stepped : clientStep c a = some c') : c'.Between := by
  intro last
  have polling : c.reader = .polling := by
    have entered : c.main = .xrwedxzgjd ∨ c.reader = .polling := by
      simpa [endsBetween, stepped, last] using ends
    rcases entered with there | polling
    · exact h there
    · exact polling
  cases clientStep_inv stepped with
  | step move => exact move.step.reader.trans polling
  | datagram _ runs => exact absurd last runs.1
  | passed _ _ telling =>
    rw [polling] at telling
    cases telling
  | dropped => rfl
  | write | read | close | tick | message => simp [Rtvbvojjbl.goto] at last
  | stop => cases last

theorem stop_returns (last : c.main = .xrwedxzgjd) (polling : c.reader = .polling) :
    ∃ e, clientStep c .stop = some e ∧ e.main = .returned ∧ e.reader = .returned :=
  ⟨{ c with main := .returned, reader := .returned }, by simp [clientStep, last, polling], rfl, rfl⟩

theorem client_shuts {isn : Int} {params : Params} {acts : List ClientAction}
    (ends : Along clientStep endsBetween (newClient isn params) acts)
    (reached : run clientStep (newClient isn params) acts = some c) : c.Shuts := by
  have between : c.Between := run_invariant Rtvbvojjbl.Between
    (fun _ _ _ h ends stepped => h.step ends stepped) (by simp [Rtvbvojjbl.Between, newClient])
    acts ends reached
  have tidy : c.Tidy := run_keeps Rtvbvojjbl.Tidy (fun _ _ _ h stepped => h.step stepped)
    (tidy_new isn params) acts reached
  refine ⟨?_, fun last => stop_returns last (between last), fun asked ends => tidy.answered ends asked,
    ?_⟩
  · rintro ⟨last, ⟨m, handing⟩ | ⟨⟨bytes, telling⟩, -⟩⟩
    · rw [between last] at handing
      cases handing
    · rw [between last] at telling
      cases telling
  · intro asked looping
    have closing : Closing c.reader c := ⟨looping, asked, rfl, sane_run reached, tidy⟩
    obtain ⟨more, e, own, later, closed⟩ := closing.completes
    exact ⟨more, e, own, later, closed.answered, fun polling =>
      stop_returns closed.main (closed.reader.trans polling)⟩

end Client

/-! ### The server -/

section Server

variable {s s' : Zx} {a : ServerAction} {orders : Orders}

/-- The main loop is in `ini` at its stop request, and the reader has a message for it. -/
def Zx.Deadlocked (s : Zx) : Prop := s.main = .ini ∧ ∃ d msg, s.reader = .handing d msg

/-- Nothing ever happens again. -/
theorem Zx.Deadlocked.stuck (h : s.Deadlocked) (act : ServerAction × Orders) :
    orderedStep s act = none := by
  obtain ⟨main, d, msg, reader⟩ := h
  obtain ⟨a, orders⟩ := act
  cases a with
  | datagram | stop => simp [orderedStep, serverStep, reader]
  | _ => simp [orderedStep, main]

/-- The main loop comes to `ini` only while the reader is at the socket, or with the message that the
reader had for it. -/
def iniBetween (s : Zx) (act : ServerAction × Orders) : Bool :=
  match orderedStep s act with
  | some s' => s'.main ≠ .ini ∨ s.main = .ini ∨ s.reader = .polling ∨ act.1 = .message
  | none => true

theorem hvi_quiet (s : Zx) : s.hvi.main = s.main ∧ s.hvi.neowem = s.neowem ∧
    s.hvi.reader = s.reader := by
  have step := hvi_cases s
  generalize s.hvi = t at step ⊢
  cases step with
  | waits | handed => exact ⟨rfl, rfl, rfl⟩

/-- A turn touches neither the close request nor the reader, and a server with a close request and no
connection is at its end. -/
theorem turnIn_end (turned : s.turnIn orders = some s') :
    s'.neowem = s.neowem ∧ s'.reader = s.reader ∧
      (s'.main = .ini ∧ Map.size s'.c = 0 ∨
        s'.main = s.main ∧ ¬ (s'.neowem = true ∧ Map.size s'.c = 0)) := by
  obtain ⟨read, flushed, cleaned, steps⟩ := turnIn_cases turned
  have reads := rangeIn_quiet (fun _ _ _ _ => qieeConn_quiet) (rangeOver_cases steps.reads).2
  have flushes := rangeIn_quiet (fun _ _ _ _ => hgiConn_quiet) (rangeOver_cases steps.flushes).2
  have cleans := rangeIn_quiet (fun _ _ _ _ visit => Option.some.inj visit ▸ ngbConn_quiet _ _ _)
    (rangeOver_cases steps.cleans).2
  have neowem := cleans.neowem.trans (flushes.neowem.trans reads.neowem)
  have reader := cleans.reader.trans (flushes.reader.trans reads.reader)
  have main := cleans.main.trans (flushes.main.trans reads.main)
  rw [steps.ends, Zx.finishTurn]
  split
  · rename_i none
    exact ⟨neowem, reader, .inl ⟨rfl, none.2⟩⟩
  · rename_i more
    obtain ⟨same, request, holds⟩ := hvi_quiet cleaned
    refine ⟨request.trans neowem, holds.trans reader, .inr ⟨same.trans main, ?_⟩⟩
    rw [request, hvi_table]
    exact more

theorem eventIn_reader (event : eventIn orders s a = some s') :
    a ≠ .message ∧ s'.reader = s.reader ∨ a = .message ∧ s'.reader = .polling := by
  cases a with
  | read =>
    cases Option.some.inj event
    simp only [Zx.mxp]
    split
    · exact .inl ⟨by simp, rfl⟩
    · exact .inl ⟨by simp, (hvi_quiet _).2.2⟩
  | write iqu payload =>
    cases qck_cases event with
    | refused | written => exact .inl ⟨by simp, rfl⟩
  | close =>
    have same := rangeIn_quiet (fun _ _ _ _ => mmieqConn_quiet) (rangeOver_cases event).2
    exact .inl ⟨by simp, same.reader⟩
  | closeConn iqu =>
    cases Option.some.inj event
    have step := qzc_cases s iqu
    generalize s.qzc iqu = t at step ⊢
    cases step with
    | refused | stuck | closing => exact .inl ⟨by simp, rfl⟩
  | tick =>
    have same := rangeIn_quiet (fun _ _ _ _ => emuConn_quiet) (rangeOver_cases event).2
    exact .inl ⟨by simp, same.reader⟩
  | message =>
    simp only [eventIn, serverEvent] at event
    split at event
    · obtain ⟨handled, taken, rfl⟩ := Option.map_eq_some_iff.mp event
      exact .inr ⟨rfl, rfl⟩
    · contradiction
  | datagram => contradiction
  | stop => contradiction

/-- In `ini` the reader is at the socket. -/
def Zx.Between (s : Zx) : Prop := s.main = .ini → s.reader = .polling

theorem OrderedStep.between (step : OrderedStep s orders a s') (runs : s.main ≠ .ini)
    (polling : s'.main = .ini → s.reader = .polling ∨ a = .message) : s'.Between := by
  intro last
  cases step with
  | dropped | datagram => exact absurd last runs
  | stop => cases last
  | blocked =>
    rename_i stuck _
    rw [stuck] at last
    cases last
  | turn =>
    rename_i handled _ _ event turned
    rw [(turnIn_end turned).2.1]
    rcases eventIn_reader event with ⟨other, same⟩ | ⟨-, free⟩
    · rcases polling last with before | message
      · exact same.trans before
      · exact absurd message other
    · exact free

theorem orderedStep_between {act : ServerAction × Orders} (ends : iniBetween s act = true)
    (stepped : orderedStep s act = some s') : s'.Between := by
  obtain ⟨a, orders⟩ := act
  by_cases there : s.main = .ini
  · -- in `ini` only the stop of the reader is left
    cases a with
    | datagram => simp [orderedStep, serverStep, there] at stepped
    | stop =>
      have stopped : serverStep s .stop = some s' := stepped
      cases serverStep_cases stopped with
      | stop =>
        intro last
        cases last
      | blocked _ _ select | turn _ _ _ select => rw [there] at select; cases select
    | _ => simp [orderedStep, there] at stepped
  · refine (orderedStep_cases stepped).between there fun last => ?_
    simpa [iniBetween, stepped, last, there] using ends

/-! ### A close request at the server -/

theorem readAll_clock {fuel : Nat} {l l' : Bxnzsdj} {payloads : List Payload}
    (read : Zx.readAll fuel l = some (payloads, l')) : l.SameClock l' := by
  rw [(readAll_spec read).2]
  exact ⟨rfl, rfl, rfl, rfl⟩

theorem Bxnzsdj.SameClock.epochsLeft {l l' : Bxnzsdj} (same : l.SameClock l') :
    l'.epochsLeft = l.epochsLeft := by
  simp only [Bxnzsdj.epochsLeft, same.epoch, same.heard, same.limit]

theorem tyhdjska_epochsLeft (l : Bxnzsdj) : l.tyhdjska.epochsLeft = l.epochsLeft - 1 := by
  have clock := Bxnzsdj.SameClock.of_unsent (sayEpoch_unsent l.llehwkas)
  rw [Bxnzsdj.tyhdjska, clock.epochsLeft]
  simp only [Bxnzsdj.epochsLeft, Bxnzsdj.llehwkas]
  omega

/-- No connection is further than this from its loss. -/
def Zx.Within (n : Nat) (s : Zx) : Prop :=
  ∀ iqu conn, s.c.lookup iqu = some conn → conn.a.epochsLeft ≤ n

theorem Zx.Within.replace {n : Nat} {iqu : Int} {conn : Zqqx} (h : s.Within n)
    (table : s'.c = s.c.insert iqu conn) (bound : conn.a.epochsLeft ≤ n) : s'.Within n := by
  intro other conn' found
  rw [table, Map.lookup_insert] at found
  split at found
  · cases Option.some.inj found
    exact bound
  · exact h other conn' found

theorem emu_within {n : Nat} {order : List Int} (h : s.Within n)
    (ranged : s.rangeOver Zx.emuConn order = some s') : s'.Within (n - 1) := by
  obtain ⟨whole, ranged⟩ := rangeOver_cases ranged
  intro iqu conn there
  have visits := rangeIn_each (fun conn => conn.a.epochsLeft ≤ n)
    (fun conn => conn.a.epochsLeft ≤ n - 1) (fun _ less => by omega) ?_ h ranged there
  · rcases visits with less | ⟨away, before⟩
    · exact less
    · exact absurd (whole.mem_iff.mpr (Map.mem_of_lookup before)) away
  · intro t iqu conn t' found bound visit
    cases Option.some.inj visit
    constructor
    · intro after there
      simp only [Zx.moveConn, Map.lookup_insert, ↓reduceIte, Option.some.injEq] at there
      subst there
      rw [tyhdjska_epochsLeft]
      omega
    · intro other away
      simp [Zx.moveConn, AList.lookup_insert_ne away]

theorem turnIn_within {n : Nat} (h : s.Within n) (turned : s.turnIn orders = some s') :
    s'.Within n := by
  obtain ⟨read, flushed, cleaned, steps⟩ := turnIn_cases turned
  have reads : read.Within n := by
    refine rangeIn_keeps (Zx.Within n) ?_ h (rangeOver_cases steps.reads).2
    intro t iqu conn t' h found visit
    simp only [Zx.qieeConn, Option.bind_eq_bind, Option.bind_eq_some_iff] at visit
    obtain ⟨⟨payloads, rest⟩, all, result⟩ := visit
    cases Option.some.inj result
    refine h.replace rfl ?_
    rw [(readAll_clock all).epochsLeft]
    exact h iqu conn found
  have flushes : flushed.Within n := by
    refine rangeIn_keeps (Zx.Within n) ?_ reads (rangeOver_cases steps.flushes).2
    intro t iqu conn t' h found visit
    cases Option.some.inj visit
    exact h.replace rfl (h iqu conn found)
  have cleans : cleaned.Within n := by
    refine rangeIn_keeps (Zx.Within n) ?_ flushes (rangeOver_cases steps.cleans).2
    intro t iqu conn t' h found visit
    cases Option.some.inj visit
    have removed : ∀ t' : Zx, t'.c = t.c.erase iqu → t'.Within n := by
      intro t' table other conn' there
      rw [table, Map.lookup_erase] at there
      split at there
      · contradiction
      · exact h other conn' there
    have visit := ngbConn_cases t iqu conn
    generalize t.ngbConn iqu conn = t' at visit ⊢
    cases visit with
    | stays => exact h
    | closed | lost => exact removed _ rfl
  intro iqu conn there
  rw [steps.ends, finishTurn_table] at there
  exact cleans iqu conn there

/-- A server with a close request that waits for its connections. -/
structure Draining (reader : ServerReader) (n : Nat) (s : Zx) : Prop where
  select : s.main = .select
  asked : s.neowem = true
  reader : s.reader = reader
  sound : s.Sound
  within : s.Within n

theorem visits_total {f : Zx → Int → Zqqx → Option Zx} (goes : ∀ s iqu conn, (f s iqu conn).isSome)
    (s : Zx) (order : List Int) : ∃ s', s.rangeIn f order = some s' := by
  refine rangeIn_total (fun _ => True) ?_ trivial order
  intro s iqu conn _ _
  obtain ⟨s', visit⟩ := Option.isSome_iff_exists.mp (goes s iqu conn)
  exact ⟨s', visit, trivial⟩

/-- After every branch of the `select` the turn can be finished. -/
theorem Zx.Sound.turns (h : s.Sound) (event : List Int) :
    ∃ orders s', orders.event = event ∧ s.turnIn orders = some s' := by
  obtain ⟨read, reads⟩ := qiee_total h s.c.keys
  obtain ⟨flushed, flushes⟩ := visits_total (f := Zx.hgiConn) (fun _ _ _ => rfl) read read.c.keys
  obtain ⟨cleaned, cleans⟩ := visits_total (f := fun s iqu conn => some (s.ngbConn iqu conn))
    (fun _ _ _ => rfl) flushed flushed.c.keys
  have turned : s.turn = some cleaned.finishTurn := by
    simp only [Zx.turn, Zx.qiee, Zx.hgi, Zx.ngb, Zx.eachConn, reads, flushes, cleans,
      Option.bind_eq_bind, Option.bind_some]
  obtain ⟨orders, keys, done⟩ := turn_ordered turned event
  exact ⟨orders, _, keys, done⟩

/-- An epoch passes. -/
theorem Zx.Sound.tick (h : s.Sound) (select : s.main = .select) :
    ∃ orders handled s', eventIn orders s .tick = some handled ∧ handled.turnIn orders = some s' ∧
      handled.main = .select ∧ orderedStep s (.tick, orders) = some s' := by
  obtain ⟨handled, ticks⟩ := visits_total (f := Zx.emuConn) (fun _ _ _ => rfl) s s.c.keys
  have event : s.eachConn Zx.emuConn = some handled := ticks
  have sound : handled.Sound := h.edits (rangeIn_edits (fun _ _ _ _ => emuConn_moves) ticks)
  have selected : handled.main = .select :=
    (rangeIn_quiet (fun _ _ _ _ => emuConn_quiet) ticks).main.trans select
  obtain ⟨orders, s', keys, done⟩ := sound.turns s.c.keys
  have ticked : eventIn orders s .tick = some handled := (eventIn_keys keys .tick).trans event
  exact ⟨orders, handled, _, ticked, done, selected, by simp [orderedStep, select, ticked, selected, done]⟩

/-- An epoch brings every connection nearer to its loss, and a turn removes those that are lost. -/
theorem Draining.tick {reader : ServerReader} {n : Nat} (h : Draining reader n s) :
    ∃ orders s', orderedStep s (.tick, orders) = some s' ∧
      (s'.main = .ini ∧ s'.reader = reader ∨ Draining reader (n - 1) s' ∧ 0 < n) := by
  obtain ⟨orders, handled, s', event, turned, selected, stepped⟩ := h.sound.tick h.select
  have ticks := rangeIn_quiet (fun _ _ _ _ => emuConn_quiet) (rangeOver_cases event).2
  obtain ⟨neowem, holds, main⟩ := turnIn_end turned
  have within : s'.Within (n - 1) := turnIn_within (emu_within h.within event) turned
  have asked : s'.neowem = true := neowem.trans (ticks.neowem.trans h.asked)
  have held : s'.reader = reader := holds.trans (ticks.reader.trans h.reader)
  refine ⟨orders, s', stepped, ?_⟩
  rcases main with ⟨last, -⟩ | ⟨same, more⟩
  · exact .inl ⟨last, held⟩
  -- some connection is left, and it is not lost
  have nonempty : s'.c.keys ≠ [] := by
    intro none
    refine more ⟨asked, ?_⟩
    rw [Map.size_keys, none]
    rfl
  obtain ⟨iqu, rest, keys⟩ := List.exists_cons_of_ne_nil nonempty
  have member : iqu ∈ s'.c := by
    refine AList.mem_keys.mpr ?_
    rw [keys]
    exact List.mem_cons_self
  obtain ⟨conn, found⟩ := Map.lookup_of_mem member
  have lives := of_decide_eq_false (turnIn_alive turned iqu conn found)
  have bound := within iqu conn found
  simp only [Bxnzsdj.epochsLeft] at bound
  refine .inr ⟨⟨same.trans selected, asked, held, ?_, within⟩, by omega⟩
  exact h.sound.edits ((orderedStep_cases stepped).edits)

theorem Draining.completes {reader : ServerReader} {n : Nat} (h : Draining reader n s) :
    ∃ more e, (∀ act ∈ more, act.1 = .tick) ∧ run orderedStep s more = some e ∧ e.main = .ini ∧
      e.reader = reader := by
  induction n generalizing s with
  | zero =>
    obtain ⟨orders, s', stepped, last | ⟨-, positive⟩⟩ := h.tick
    · exact ⟨[(.tick, orders)], s', by simp, by simp [run, stepped], last⟩
    · omega
  | succ n ih =>
    obtain ⟨orders, s', stepped, last | ⟨next, -⟩⟩ := h.tick
    · exact ⟨[(.tick, orders)], s', by simp, by simp [run, stepped], last⟩
    · obtain ⟨more, e, ticks, later, ends⟩ := ih next
      exact ⟨(.tick, orders) :: more, e, by simpa using ticks, (run_cons stepped).mpr later, ends⟩

/-- There are only finitely many connections. -/
theorem Zx.exists_within (s : Zx) : ∃ n, s.Within n := by
  have bounded : ∀ entries : List (Σ _ : Int, Zqqx), ∃ n, ∀ entry ∈ entries,
      entry.2.a.epochsLeft ≤ n := by
    intro entries
    induction entries with
    | nil => exact ⟨0, by simp⟩
    | cons first rest ih =>
      obtain ⟨n, bound⟩ := ih
      refine ⟨max first.2.a.epochsLeft n, ?_⟩
      intro entry member
      rcases List.mem_cons.mp member with rfl | later
      · exact Nat.le_max_left _ _
      · exact Nat.le_trans (bound entry later) (Nat.le_max_right _ _)
  obtain ⟨n, bound⟩ := bounded s.c.entries
  exact ⟨n, fun iqu conn found => bound ⟨iqu, conn⟩ (Map.mem_entries.mpr found)⟩

/-- What the end of a server is like. In `ini` both goroutines can return, and then `Close` is
answered. A close request that waits comes there by silent epochs. -/
structure Zx.Shuts (s : Zx) : Prop where
  free : ¬ s.Deadlocked
  stops : s.main = .ini → ∀ orders, ∃ e, orderedStep s (.stop, orders) = some e ∧
    e.main = .returned ∧ e.reader = .returned ∧ ∃ ok, .closed ok ∈ e.answers
  completes : s.neowem = true → s.main = .select →
    ∃ more e, (∀ act ∈ more, act.1 = .tick) ∧ run orderedStep s more = some e ∧ e.main = .ini ∧
      (s.reader = .polling → ∀ orders, ∃ f, orderedStep e (.stop, orders) = some f ∧
        f.main = .returned ∧ f.reader = .returned ∧ ∃ ok, .closed ok ∈ f.answers)

theorem ini_returns (last : s.main = .ini) (polling : s.reader = .polling) (orders : Orders) :
    ∃ e, orderedStep s (.stop, orders) = some e ∧ e.main = .returned ∧ e.reader = .returned ∧
      ∃ ok, .closed ok ∈ e.answers := by
  refine ⟨{ (s.answer (.closed !s.ytiqeqe)).hvi with main := .returned, reader := .returned },
    by simp [orderedStep, serverStep, last, polling], rfl, rfl, !s.ytiqeqe, ?_⟩
  have step := hvi_cases (s.answer (.closed !s.ytiqeqe))
  generalize (s.answer (.closed !s.ytiqeqe)).hvi = t at step ⊢
  cases step with
  | waits | handed => simp [Zx.answer]

theorem server_shuts {params : Params} {acts : List (ServerAction × Orders)}
    (ends : Along orderedStep iniBetween (newServer params) acts)
    (reached : run orderedStep (newServer params) acts = some s) : s.Shuts := by
  have between : s.Between := run_invariant Zx.Between
    (fun _ _ _ _ ends stepped => orderedStep_between ends stepped) (by simp [Zx.Between, newServer])
    acts ends reached
  refine ⟨?_, fun last => ini_returns last (between last), ?_⟩
  · rintro ⟨last, d, msg, handing⟩
    rw [between last] at handing
    cases handing
  · intro asked select
    obtain ⟨n, within⟩ := s.exists_within
    have draining : Draining s.reader n s := ⟨select, asked, rfl, sound_run reached, within⟩
    obtain ⟨more, e, ticks, later, last, same⟩ := draining.completes
    exact ⟨more, e, ticks, later, last, fun polling => ini_returns last (same.trans polling)⟩

end Server

/-! ### Both -/

/-- Over every run of a client and every run of a server in which the main loop comes to its end only
between two datagrams: neither is ever deadlocked, the goroutines can return, and `Close` is
answered. -/
theorem shutdown_completes (isn : Int) (params : Params) (acts : List ClientAction) (c : Rtvbvojjbl)
    (served : Params) (serverActs : List (ServerAction × Orders)) (s : Zx)
    (reached : run clientStep (newClient isn params) acts = some c)
    (ends : Along clientStep endsBetween (newClient isn params) acts)
    (serverReached : run orderedStep (newServer served) serverActs = some s)
    (serverEnds : Along orderedStep iniBetween (newServer served) serverActs) :
    c.Shuts ∧ s.Shuts :=
  ⟨client_shuts ends reached, server_shuts serverEnds serverReached⟩

/-- A client that connects and is closed at once. -/
def dialAndClose : List ClientAction := dial ++ [.close] ++ loopRound

/-- A server with one client is closed. -/
def greetAndClose : List (ServerAction × Orders) :=
  [inOrder [] (.datagram 7 (newConnect 0)), inOrder [1] .message, inOrder [1] .close]

theorem quiet_shutdown : ∃ c s,
    run clientStep (newClient 0 twoEpochs) dialAndClose = some c ∧
    run orderedStep (newServer twoEpochs) greetAndClose = some s ∧
    c.main = .xrwedxzgjd ∧ s.main = .ini ∧ c.Shuts ∧ s.Shuts := by
  refine ⟨_, _, rfl, rfl, rfl, rfl, ?_⟩
  exact shutdown_completes 0 twoEpochs dialAndClose _ twoEpochs greetAndClose _ rfl (by decide) rfl
    (by decide)

/-- A datagram is read while the main loop is about to stop. The reader of the client waits for the
epoch goroutine, which is gone. The reader of the server waits for the main loop, and `Close` is not
answered. -/
theorem datagram_at_the_end :
    (∃ c, run clientStep (newClient 0 twoEpochs)
        (dial ++ [.close, .step, .step, .step, .datagram none, .step]) = some c ∧
      c.Deadlocked ∧ ∀ a, clientStep c a = none) ∧
    ∃ s, run orderedStep (newServer twoEpochs)
        [inOrder [] (.datagram 7 (newConnect 0)), inOrder [1] .message,
          inOrder [] (.datagram 7 (newAck 1 0)), inOrder [1] .close] = some s ∧
      s.Deadlocked ∧ s.neowem = true ∧ s.answers = [] ∧ ∀ act, orderedStep s act = none := by
  constructor
  · refine ⟨_, rfl, ⟨rfl, .inr ⟨⟨none, rfl⟩, rfl⟩⟩, ?_⟩
    exact Rtvbvojjbl.Deadlocked.stuck ⟨rfl, .inr ⟨⟨none, rfl⟩, rfl⟩⟩
  · refine ⟨_, rfl, ⟨rfl, 7, newAck 1 0, rfl⟩, rfl, rfl, ?_⟩
    exact Zx.Deadlocked.stuck ⟨rfl, 7, newAck 1 0, rfl⟩

end DistSys.Lsp
