import DistSys.Lsp.Client
import DistSys.Lib.Runs

/-! The calls of a client: what `Write` answers, and what a lost connection means for the calls
that follow. -/
namespace DistSys.Lsp

open DistSys.Lib

variable {c c' d d' : Rtvbvojjbl} {a : ClientAction} {l l' : Bxnzsdj} {payload : Payload}

/-! ### Clock and id -/

/-- The epochs, the limit and the id are what they were. -/
structure Bxnzsdj.SameClock (l l' : Bxnzsdj) : Prop where
  epoch : l'.qbnwkal = l.qbnwkal
  heard : l'.wbjkdfjd = l.wbjkdfjd
  limit : l'.lksdkwkq = l.lksdkwkq
  id : l'.rdcppgudji = l.rdcppgudji

theorem Bxnzsdj.SameClock.of_unsent (same : l'.unsent = l.unsent) : l.SameClock l' :=
  ⟨(congrArg qbnwkal same :), (congrArg wbjkdfjd same :), (congrArg lksdkwkq same :),
    (congrArg rdcppgudji same :)⟩

theorem Bxnzsdj.SameClock.of_unheard (same : l'.unheard = l.unheard) : l.SameClock l' :=
  ⟨(congrArg qbnwkal same :), (congrArg wbjkdfjd same :), (congrArg lksdkwkq same :),
    (congrArg rdcppgudji same :)⟩

theorem Bxnzsdj.SameClock.jfkdl (same : l.SameClock l') : l'.jfkdl = l.jfkdl := by
  simp only [Bxnzsdj.jfkdl, same.epoch, same.heard, same.limit]

theorem odkejnfsa_clock (read : l.odkejnfsa = some (payload, l')) : l.SameClock l' := by
  rw [(odkejnfsa_cases read).2.2]
  exact ⟨rfl, rfl, rfl, rfl⟩

/-- Outside the `select` the main loop does not touch the clock. -/
theorem LoopMove.clock (move : LoopMove c c') : c.uygovtfegl.SameClock c'.uygovtfegl := by
  cases move with
  | readPayload _ _ _ _ taken => exact odkejnfsa_clock taken
  | wrote _ _ _ written | wroteTwice _ _ _ written => exact .of_unsent (gkxcls_unsent written)
  | epoch => exact .of_unsent (sayEpoch_unsent c.uygovtfegl)
  | _ => exact ⟨rfl, rfl, rfl, rfl⟩

/-- The id of a client is set once, by an acknowledgement; a message does not touch the epochs. -/
theorem qtbejekw_clock {m : Message} (taken : l.qtbejekw m = some l') :
    l.SameClock l' ∨ l.rdcppgudji = 0 ∧ m.type ≠ .data ∧
      l' = { l with rdcppgudji := m.connID } := by
  cases qtbejekw_cases taken with
  | connect => exact .inl ⟨rfl, rfl, rfl, rfl⟩
  | data =>
    have same := Bxnzsdj.SameClock.of_unheard (bvmndthe_unheard l m)
    exact .inl ⟨same.epoch, same.heard, same.limit, same.id⟩
  | ack kind step =>
    cases step with
    | ignored => exact .inl ⟨rfl, rfl, rfl, rfl⟩
    | connected unknown => exact .inr ⟨unknown, kind, rfl⟩
    | settled known acked => exact .inl (.of_unsent (settled_unsent acked l))

/-- No datagram was heard in a later epoch than the current one, and a client that `NewClient`
has returned knows its id. -/
structure Rtvbvojjbl.Sane (c : Rtvbvojjbl) : Prop where
  heard : c.uygovtfegl.wbjkdfjd ≤ c.uygovtfegl.qbnwkal
  id : c.pztumoofep = false → 0 < c.uygovtfegl.rdcppgudji

theorem sane_new (isn : Int) (params : Params) : (newClient isn params).Sane :=
  ⟨Int.le_refl _, by simp [newClient]⟩

theorem Rtvbvojjbl.Sane.clock (h : c.Sane) (same : c.uygovtfegl.SameClock c'.uygovtfegl)
    (waits : c'.pztumoofep = c.pztumoofep) : c'.Sane := by
  constructor
  · rw [same.heard, same.epoch]
    exact h.heard
  · rw [waits, same.id]
    exact h.id

theorem Rtvbvojjbl.Sane.move (h : c.Sane) (move : LoopMove c c') : c'.Sane := by
  have same := move.clock
  cases move with
  | connected _ _ id | connectedLost _ _ id => exact ⟨h.heard, fun _ => id⟩
  | _ => exact h.clock same rfl

theorem Rtvbvojjbl.Sane.step (h : c.Sane) (stepped : clientStep c a = some c') : c'.Sane := by
  cases clientStep_inv stepped with
  | step move => exact h.move move
  | tick =>
    refine ⟨?_, h.id⟩
    have heard := h.heard
    simp only [Rtvbvojjbl.goto, Bxnzsdj.llehwkas]
    omega
  | message m l _ _ handled =>
    rcases qtbejekw_clock handled with same | ⟨unknown, _, rfl⟩
    · exact h.clock same rfl
    · refine ⟨h.heard, fun connected => ?_⟩
      have id := h.id connected
      omega
  | dropped | passed => exact ⟨Int.le_refl _, h.id⟩
  | write | read | close | datagram | stop => exact ⟨h.heard, h.id⟩

theorem sane_run {isn : Int} {params : Params} {acts : List ClientAction}
    (reached : run clientStep (newClient isn params) acts = some c) : c.Sane :=
  run_keeps Rtvbvojjbl.Sane (fun _ _ _ h stepped => h.step stepped) (sane_new isn params) acts
    reached

/-! ### Write -/

/-- A write request is being handled: nobody has been answered yet, and of the endpoint at most
the epoch of the last datagram has changed. -/
structure Handling (c : Rtvbvojjbl) (payload : Payload) (d : Rtvbvojjbl) : Prop where
  pc : d.main = .ujuassxdjg payload ∨ d.main = .gkxcls payload false
  answers : d.answers = c.answers
  wrote : d.wrote = c.wrote
  sent : d.sent = c.sent
  endpoint : d.uygovtfegl = { c.uygovtfegl with wbjkdfjd := d.uygovtfegl.wbjkdfjd }
  lives : d.uygovtfegl.jfkdl = false
  unclosed : d.kmpyqgmcyl = false
  connected : d.pztumoofep = false

/-- The request has been answered, and the payload is behind the ones that wait. -/
structure Written (c : Rtvbvojjbl) (payload : Payload) (d : Rtvbvojjbl) : Prop where
  pc : d.main = .flush
  answers : d.answers = c.answers ++ [.wrote true]
  wrote : d.wrote = c.wrote ++ [payload]
  endpoint : d.uygovtfegl = { c.uygovtfegl with
    wbjkdfjd := d.uygovtfegl.wbjkdfjd
    ffieiqwlhhh := c.uygovtfegl.ffieiqwlhhh ++ [payload]
    hooppjkl := c.uygovtfegl.hooppjkl + 1 }.ngkdlse

section

variable (h : Handling c payload d)
include h

theorem Handling.id (sane : d.Sane) : d.uygovtfegl.rdcppgudji ≠ 0 := by
  have positive := sane.id h.connected
  omega

/-- A datagram that is heard meanwhile. -/
theorem Handling.hears (sane : d.Sane) (reader : ReaderPc) :
    Handling c payload { d with uygovtfegl := d.uygovtfegl.bbjdkslwoorun, reader := reader } := by
  have lives : d.uygovtfegl.bbjdkslwoorun.jfkdl = false := by
    have before := of_decide_eq_false h.lives
    have heard := sane.heard
    apply decide_eq_false
    simp only [Bxnzsdj.bbjdkslwoorun]
    omega
  refine ⟨h.pc, h.answers, h.wrote, h.sent, ?_, lives, h.unclosed, h.connected⟩
  simp only [Bxnzsdj.bbjdkslwoorun]
  rw [h.endpoint]

/-- The payload is appended. -/
theorem Handling.written (written : d.uygovtfegl.gkxcls payload = some l) :
    Written c payload (({ d with uygovtfegl := l, wrote := d.wrote ++ [payload] }.answer
      (.wrote true)).goto .flush) := by
  obtain ⟨_, _, result⟩ := gkxcls_cases written
  have clock := Bxnzsdj.SameClock.of_unsent (gkxcls_unsent written)
  refine ⟨rfl, by rw [← h.answers]; rfl, by rw [← h.wrote]; rfl, ?_⟩
  simp only [Rtvbvojjbl.goto, Rtvbvojjbl.answer]
  rw [clock.heard, result, h.endpoint]

theorem Handling.last (sane : d.Sane) (pc : d.main = .gkxcls payload false) :
    ∃ e, run clientStep d [.step] = some e ∧ Written c payload e := by
  have goes : ∃ l, d.uygovtfegl.gkxcls payload = some l := by
    simp [Bxnzsdj.gkxcls, h.id sane, h.lives]
  obtain ⟨l, written⟩ := goes
  exact ⟨_, by simp [run, clientStep, mainStep, pc, Rtvbvojjbl.gkxcls, written], h.written written⟩

/-- With an id and a connection that lives, both looks at `jfkdl` let the request pass. -/
theorem Handling.finishes (sane : d.Sane) :
    ∃ n e, run clientStep d (List.replicate n .step) = some e ∧ Written c payload e := by
  rcases h.pc with first | second
  · have passes : clientStep d .step = some (d.goto (.gkxcls payload false)) := by
      simp [clientStep, mainStep, first, Rtvbvojjbl.ujuassxdjg, h.lives, h.unclosed]
    have next : Handling c payload (d.goto (.gkxcls payload false)) :=
      ⟨.inr rfl, h.answers, h.wrote, h.sent, h.endpoint, h.lives, h.unclosed, h.connected⟩
    obtain ⟨e, finished, written⟩ := next.last ⟨sane.heard, sane.id⟩ rfl
    exact ⟨2, e, (run_cons passes).mpr finished, written⟩
  · obtain ⟨e, finished, written⟩ := h.last sane second
    exact ⟨1, e, finished, written⟩

theorem Handling.move (move : LoopMove d d') : Handling c payload d' ∨ Written c payload d' := by
  have elsewhere : ∀ {pc}, d.main = pc → pc ≠ .ujuassxdjg payload → pc ≠ .gkxcls payload false →
      Handling c payload d' ∨ Written c payload d' := by
    intro pc at_pc first second
    rcases h.pc with here | here
    · exact absurd (at_pc.symm.trans here) first
    · exact absurd (at_pc.symm.trans here) second
  cases move with
  | takes other pc =>
    have same : other = payload := by
      rcases h.pc with here | here
      · exact (LoopPc.ujuassxdjg.inj (pc.symm.trans here))
      · cases pc.symm.trans here
    subst same
    exact .inl ⟨.inr rfl, h.answers, h.wrote, h.sent, h.endpoint, h.lives, h.unclosed, h.connected⟩
  | wrote other l pc written =>
    have same : other = payload := by
      rcases h.pc with here | here
      · cases pc.symm.trans here
      · exact (LoopPc.gkxcls.inj (pc.symm.trans here)).1
    subst same
    exact .inr (h.written written)
  | refused _ _ one =>
    rw [h.lives, h.unclosed] at one
    cases one
  | refusedTwice _ _ lost =>
    rw [h.lives] at lost
    cases lost
  | flush pc | noRead pc | readPayload _ _ pc | readFailed pc | noConnect pc | connected pc
  | connectedLost pc | connectFailed pc | noClose _ pc | closedWell _ pc | closedLost _ pc
  | wroteTwice _ _ pc | epoch pc => exact elsewhere pc (by simp) (by simp)

/-- The main loop is in the handler, so besides its own steps there are only the reader's. -/
theorem Handling.step (sane : d.Sane) (stepped : clientStep d a = some d') :
    Handling c payload d' ∨ Written c payload d' := by
  have busy : d.main ≠ .select ∧ d.main ≠ .xrwedxzgjd := by
    rcases h.pc with here | here
    · simp [here]
    · simp [here]
  cases clientStep_inv stepped with
  | step move => exact h.move move
  | datagram =>
    exact .inl ⟨h.pc, h.answers, h.wrote, h.sent, h.endpoint, h.lives, h.unclosed, h.connected⟩
  | dropped => exact .inl (h.hears sane .polling)
  | passed _ m' => exact .inl (h.hears sane (.handing m'))
  | write select | read select | close select | tick select | message _ _ select =>
    exact absurd select busy.1
  | stop waits => exact absurd waits busy.2

end

/-- The error has been answered, and the handler is stuck: at the second answer, which nobody takes, or
before a call of `gkxcls` that panics. -/
structure RefusedAndStuck (c : Rtvbvojjbl) (payload : Payload) (d : Rtvbvojjbl) : Prop where
  answers : d.answers = c.answers ++ [.wrote false]
  stuck : d.main = .blocked ∨ (d.main = .gkxcls payload true ∧ clientStep d .step = none)

/-- On a connection that is lost or being closed the handler does not end with its error answer. -/
theorem refused_write_sticks (sane : c.Sane) (connected : c.pztumoofep = false)
    (refuses : c.uygovtfegl.jfkdl = true ∨ c.kmpyqgmcyl = true) :
    ∃ n d, run clientStep (c.goto (.ujuassxdjg payload)) (List.replicate n .step) = some d ∧
      RefusedAndStuck c payload d := by
  have first : clientStep (c.goto (.ujuassxdjg payload)) .step =
      some ((c.goto (.ujuassxdjg payload)).ujuassxdjg payload) := rfl
  cases lost : c.uygovtfegl.jfkdl with
  | true =>
    cases closing : c.kmpyqgmcyl with
    | true =>
      have blocks : (c.goto (.ujuassxdjg payload)).ujuassxdjg payload =
          (c.answer (.wrote false)).goto .blocked := by
        simp [Rtvbvojjbl.ujuassxdjg, Rtvbvojjbl.goto, Rtvbvojjbl.answer, lost, closing]
      exact ⟨1, _, (run_cons first).mpr rfl, by rw [blocks]; exact ⟨rfl, .inl rfl⟩⟩
    | false =>
      have refused : (c.goto (.ujuassxdjg payload)).ujuassxdjg payload =
          (c.answer (.wrote false)).goto (.gkxcls payload true) := by
        simp [Rtvbvojjbl.ujuassxdjg, Rtvbvojjbl.goto, Rtvbvojjbl.answer, lost, closing]
      refine ⟨1, _, (run_cons first).mpr rfl, ?_⟩
      rw [refused]
      refine ⟨rfl, .inr ⟨rfl, ?_⟩⟩
      simp [clientStep, mainStep, Rtvbvojjbl.gkxcls, Rtvbvojjbl.goto, Rtvbvojjbl.answer,
        Bxnzsdj.gkxcls, lost]
  | false =>
    have closing : c.kmpyqgmcyl = true := refuses.resolve_left (by simp [lost])
    have known : c.uygovtfegl.rdcppgudji ≠ 0 := by
      have positive := sane.id connected
      omega
    have refused : (c.goto (.ujuassxdjg payload)).ujuassxdjg payload =
        (c.answer (.wrote false)).goto (.gkxcls payload true) := by
      simp [Rtvbvojjbl.ujuassxdjg, Rtvbvojjbl.goto, Rtvbvojjbl.answer, lost, closing]
    obtain ⟨l, written⟩ : ∃ l, c.uygovtfegl.gkxcls payload = some l := by
      simp [Bxnzsdj.gkxcls, known, lost]
    have second : clientStep ((c.answer (.wrote false)).goto (.gkxcls payload true)) .step =
        some ({ c.answer (.wrote false) with
          uygovtfegl := l, wrote := c.wrote ++ [payload] }.goto .blocked) := by
      simp [clientStep, mainStep, Rtvbvojjbl.gkxcls, Rtvbvojjbl.goto, Rtvbvojjbl.answer, written]
    rw [refused] at first
    exact ⟨2, _, (run_cons first).mpr ((run_cons second).mpr rfl), rfl, .inl rfl⟩

/-- On a connection that lives and is not being closed, a write request is answered once, with
success and with the payload appended once: the handler is still at it and comes to its end by
itself, or it has come there on the way. On any other connection it answers with an error and, by its
own steps, panics or blocks. -/
theorem write_answered_once (isn : Int) (params : Params) (acts : List ClientAction)
    (c c₁ : Rtvbvojjbl) (payload : Payload)
    (reached : run clientStep (newClient isn params) acts = some c)
    (asked : clientStep c (.write payload) = some c₁) :
    (c.uygovtfegl.jfkdl = false → c.kmpyqgmcyl = false → ∀ more d, run clientStep c₁ more = some d →
      (Handling c payload d ∧
        ∃ n e, run clientStep d (List.replicate n .step) = some e ∧ Written c payload e) ∨
      ∃ i e, run clientStep c₁ (more.take i) = some e ∧ Written c payload e) ∧
    (c.uygovtfegl.jfkdl = true ∨ c.kmpyqgmcyl = true →
      ∃ n d, run clientStep c₁ (List.replicate n .step) = some d ∧ RefusedAndStuck c payload d) := by
  have sane := sane_run reached
  have after := sane.step asked
  simp only [clientStep, Option.ite_none_right_eq_some, Option.some.injEq] at asked
  obtain ⟨⟨_, connected⟩, rfl⟩ := asked
  have connected := Bool.eq_false_iff.mpr connected
  constructor
  · intro lives unclosed more d later
    have start : Handling c payload (c.goto (.ujuassxdjg payload)) :=
      ⟨.inl rfl, rfl, rfl, rfl, rfl, lives, unclosed, connected⟩
    have phase := run_until (fun d => Handling c payload d ∧ d.Sane) (Written c payload)
      (fun _ _ _ h stepped =>
        (h.1.step h.2 stepped).imp_left fun still => ⟨still, h.2.step stepped⟩)
      ⟨start, after⟩ more later
    exact phase.imp_left fun still => ⟨still.1, still.1.finishes still.2⟩
  · exact refused_write_sticks sane connected

/-- The main loop goes once around. -/
def loopRound : List ClientAction := List.replicate 4 .step

def clientHears (m : Message) : List ClientAction :=
  [.datagram (some m), .heard, .message] ++ loopRound

def epochPasses : List ClientAction := [.tick, .step] ++ loopRound

/-- `NewClient` returns. -/
def dial : List ClientAction := loopRound ++ clientHears (newAck 1 0)

/-- A connection is lost after two epochs. -/
def twoEpochs : Params := ⟨2, 1, 0, 1⟩

/-- A datagram comes in while the request is handled. -/
theorem write_while_heard : ∃ c c₁ d,
    run clientStep (newClient 0 twoEpochs) dial = some c ∧
    clientStep c (.write [1]) = some c₁ ∧
    c.uygovtfegl.jfkdl = false ∧ c.kmpyqgmcyl = false ∧
    run clientStep c₁ [.datagram none, .step, .heard] = some d ∧
    ((Handling c [1] d ∧
      ∃ n e, run clientStep d (List.replicate n .step) = some e ∧ Written c [1] e) ∨
    ∃ i e, run clientStep c₁ ([.datagram none, .step, .heard].take i) = some e ∧
      Written c [1] e) :=
  ⟨_, _, _, rfl, rfl, rfl, rfl, rfl,
    (write_answered_once 0 twoEpochs dial _ _ [1] rfl rfl).1 rfl rfl [.datagram none, .step, .heard] _
      rfl⟩

/-- After the error answer `ujuassxdjg` goes on. On a lost connection `gkxcls` then panics. On one
that is being closed the refused payload is appended, and the second answer blocks. -/
theorem refused_write_goes_on :
    (∃ c d, run clientStep (newClient 0 twoEpochs) (dial ++ epochPasses ++ epochPasses) = some c ∧
      run clientStep c [.write [1], .step] = some d ∧
      d.answers = c.answers ++ [.wrote false] ∧ d.main = .gkxcls [1] true ∧
      clientStep d .step = none) ∧
    ∃ c d, run clientStep (newClient 0 twoEpochs)
        (dial ++ [.write [1], .step, .step] ++ loopRound ++ [.close] ++ loopRound) = some c ∧
      run clientStep c [.write [2], .step, .step] = some d ∧
      d.answers = c.answers ++ [.wrote false] ∧ d.wrote = c.wrote ++ [[2]] ∧
      d.uygovtfegl.ffieiqwlhhh = [[2]] ∧ d.main = .blocked :=
  ⟨⟨_, _, rfl, rfl, rfl, rfl, rfl⟩, ⟨_, _, rfl, rfl, rfl, rfl, rfl, rfl⟩⟩

/-! ### A lost connection -/

/-- What has been accepted from the network is what it was: the payloads that were read or wait to
be read, those that came too early, and the number that is expected next. -/
structure Rtvbvojjbl.SameAccepted (c d : Rtvbvojjbl) : Prop where
  queue : d.taken ++ d.uygovtfegl.asdfghj = c.taken ++ c.uygovtfegl.asdfghj
  early : d.uygovtfegl.aptnek = c.uygovtfegl.aptnek
  expected : d.uygovtfegl.bnmslkllh = c.uygovtfegl.bnmslkllh

theorem Rtvbvojjbl.SameAccepted.of_unsent (same : c'.uygovtfegl.unsent = c.uygovtfegl.unsent)
    (taken : c'.taken = c.taken) : c.SameAccepted c' := by
  refine ⟨?_, (congrArg Bxnzsdj.aptnek same :), (congrArg Bxnzsdj.bnmslkllh same :)⟩
  have queue : c'.uygovtfegl.asdfghj = c.uygovtfegl.asdfghj := (congrArg Bxnzsdj.asdfghj same :)
  rw [queue, taken]

theorem Rtvbvojjbl.SameAccepted.trans (one : c.SameAccepted d) (two : d.SameAccepted d') :
    c.SameAccepted d' :=
  ⟨two.queue.trans one.queue, two.early.trans one.early, two.expected.trans one.expected⟩

/-- A read takes the first of the payloads that wait; no other branch of the main loop touches
them. -/
theorem LoopMove.accepted (move : LoopMove c c') : c.SameAccepted c' := by
  cases move with
  | readPayload payload rest _ _ taken =>
    obtain ⟨_, queue, result⟩ := odkejnfsa_cases taken
    refine ⟨?_, (congrArg Bxnzsdj.aptnek result :), (congrArg Bxnzsdj.bnmslkllh result :)⟩
    simp [Rtvbvojjbl.goto, Rtvbvojjbl.answer, queue]
  | wrote _ _ _ written | wroteTwice _ _ _ written => exact .of_unsent (gkxcls_unsent written) rfl
  | epoch => exact .of_unsent (sayEpoch_unsent c.uygovtfegl) rfl
  | _ => exact .of_unsent rfl rfl

/-- A message that holds no data does not touch the clock or what was accepted. -/
theorem qtbejekw_unsent {m : Message} (other : m.type ≠ .data) (taken : l.qtbejekw m = some l') :
    { l' with rdcppgudji := l.rdcppgudji }.unsent = l.unsent := by
  cases qtbejekw_cases taken with
  | connect => rfl
  | data kind => exact absurd kind other
  | ack _ step =>
    cases step with
    | ignored => rfl
    | connected => rfl
    | settled _ acked =>
      exact congrArg (fun r : Bxnzsdj => { r with rdcppgudji := l.rdcppgudji })
        (settled_unsent acked l)

/-- Nothing is heard any more, and the reader has no data message left to hand over. -/
def silence (c : Rtvbvojjbl) : ClientAction → Bool
  | .heard => false
  | .message => match c.reader with
    | .handing m => m.type ≠ .data
    | .polling | .telling _ | .returned => true
  | _ => true

/-- The connection is lost, and nothing was accepted since `c`. -/
structure Lost (c d : Rtvbvojjbl) : Prop where
  lost : d.uygovtfegl.jfkdl = true
  same : c.SameAccepted d

theorem Lost.step (h : Lost c d) (silent : silence d a = true)
    (stepped : clientStep d a = some d') : Lost c d' := by
  cases clientStep_inv stepped with
  | step move => exact ⟨move.clock.jfkdl.trans h.lost, h.same.trans move.accepted⟩
  | tick =>
    have before := of_decide_eq_true h.lost
    refine ⟨decide_eq_true ?_, h.same.trans ⟨rfl, rfl, rfl⟩⟩
    simp only [Rtvbvojjbl.goto, Bxnzsdj.llehwkas]
    omega
  | message m l _ handing handled =>
    have other : m.type ≠ .data := by simpa [silence, handing] using silent
    have unsent := qtbejekw_unsent other handled
    have lost := (Bxnzsdj.SameClock.of_unsent unsent).jfkdl.trans h.lost
    refine ⟨lost, h.same.trans ⟨?_, (congrArg Bxnzsdj.aptnek unsent :),
      (congrArg Bxnzsdj.bnmslkllh unsent :)⟩⟩
    exact congrArg (d.taken ++ ·) (congrArg Bxnzsdj.asdfghj unsent :)
  | dropped => cases silent
  | passed => cases silent
  | write | read | close | datagram | stop => exact ⟨h.lost, h.same.trans (.of_unsent rfl rfl)⟩

/-- The close has been answered: the main loop is at its end and the epoch goroutine is gone. -/
structure Ended (c : Rtvbvojjbl) : Prop where
  main : c.main = .xrwedxzgjd ∨ c.main = .returned
  epochs : c.zguucznusf = false

theorem Ended.step (h : Ended c) (stepped : clientStep c a = some c') :
    silence c a = true ∧ Ended c' := by
  have behind : c.main ≠ .select := by
    rcases h.main with here | here
    · simp [here]
    · simp [here]
  cases clientStep_inv stepped with
  | step move =>
    rcases h.main with here | here
    · simp [clientStep, mainStep, here] at stepped
    · simp [clientStep, mainStep, here] at stepped
  | dropped _ _ runs | passed _ _ _ runs => rw [h.epochs] at runs; cases runs
  | datagram _ runs => exact ⟨rfl, h.main, h.epochs⟩
  | stop => exact ⟨rfl, .inr rfl, h.epochs⟩
  | write select | read select | close select | tick select | message _ _ select =>
    exact absurd select behind

theorem Ended.silent (h : Ended c) (acts : List ClientAction) : Along clientStep silence c acts := by
  induction acts generalizing c with
  | nil => trivial
  | cons a rest ih =>
    cases taken : clientStep c a with
    | none => simp [Along, taken]
    | some d =>
      obtain ⟨silent, ended⟩ := h.step taken
      exact (along_cons taken).mpr ⟨silent, ih ended⟩

/-- An error of `Close` is the end of both goroutines. -/
theorem LoopMove.closed_ended (move : LoopMove c c')
    (answered : c'.answers = c.answers ++ [.closed false]) : Ended c' := by
  cases move with
  | closedWell | closedLost => exact ⟨.inl rfl, rfl⟩
  | _ => simp [Rtvbvojjbl.goto, Rtvbvojjbl.answer, Rtvbvojjbl.writeSocket] at answered

/-- From any state in which the main loop answers a call on a lost connection: when nothing is heard
any more, or when the call was `Close`, the connection stays lost, nothing more is accepted, and a
read that finds nothing is answered with an error. -/
theorem loss_is_final (more : List ClientAction) (c c' d : Rtvbvojjbl) (failed : ClientAnswer)
    (lost : c.uygovtfegl.jfkdl = true) (stepped : clientStep c .step = some c')
    (answered : c'.answers = c.answers ++ [failed])
    (silent : failed = .closed false ∨ Along clientStep silence c' more)
    (later : run clientStep c' more = some d) :
    c'.SameAccepted d ∧ d.uygovtfegl.jfkdl = true ∧
      (d.main = .kbiorathrz → d.lcuzvoeeux = true → d.uygovtfegl.asdfghj = [] →
        ∃ e, clientStep d .step = some e ∧ e.answers = d.answers ++ [.read none]) := by
  have move := mainStep_cases stepped
  have quiet : Along clientStep silence c' more := by
    rcases silent with closed | quiet
    · subst closed
      exact (move.closed_ended answered).silent more
    · exact quiet
  have start : Lost c' c' := ⟨move.clock.jfkdl.trans lost, .of_unsent rfl rfl⟩
  have now := run_invariant (Lost c') (fun _ _ _ h silent stepped => h.step silent stepped) start
    more quiet later
  refine ⟨now.same, now.lost, ?_⟩
  intro pc waits empty
  refine ⟨({ d with lcuzvoeeux := false }.answer (.read none)).goto .msltdjocir, ?_, rfl⟩
  simp [clientStep, mainStep, pc, Rtvbvojjbl.kbiorathrz, waits, Bxnzsdj.rkdlxleik, empty, now.lost]

/-- A read that is about to be looked at after two silent epochs. -/
def lateRead : List ClientAction := dial ++ epochPasses ++ epochPasses ++ [.read, .step]

/-- The read fails after two silent epochs, and so does the next one. -/
theorem second_read_fails : ∃ c c' d,
    run clientStep (newClient 0 twoEpochs) lateRead = some c ∧ clientStep c .step = some c' ∧
    c'.answers = c.answers ++ [.read none] ∧
    run clientStep c' [.step, .step, .read, .step] = some d ∧
    (c'.SameAccepted d ∧ d.uygovtfegl.jfkdl = true ∧
      (d.main = .kbiorathrz → d.lcuzvoeeux = true → d.uygovtfegl.asdfghj = [] →
        ∃ e, clientStep d .step = some e ∧ e.answers = d.answers ++ [.read none])) := by
  refine ⟨_, _, _, rfl, rfl, rfl, rfl, ?_⟩
  exact loss_is_final [.step, .step, .read, .step]
    ((run clientStep (newClient 0 twoEpochs) lateRead).get rfl) _ _ (.read none) rfl rfl rfl
    (.inr ⟨rfl, rfl, rfl, rfl, trivial⟩) rfl

/-- A data message comes in after a read has failed. The next read returns its payload. -/
theorem read_after_loss : ∃ c c' d,
    run clientStep (newClient 0 twoEpochs) lateRead = some c ∧ clientStep c .step = some c' ∧
    c.uygovtfegl.jfkdl = true ∧ c'.answers = c.answers ++ [.read none] ∧
    run clientStep c' ([.step, .step] ++ clientHears (dataMessage 1 1 [7]) ++
      [.read, .step, .step]) = some d ∧
    d.answers = c'.answers ++ [.read (some [7])] ∧ d.uygovtfegl.jfkdl = false :=
  ⟨_, _, _, rfl, rfl, rfl, rfl, rfl, rfl, rfl⟩

end DistSys.Lsp
