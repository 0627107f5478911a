import DistSys.Lsp.Shutdown

/-! A client that waits for its connection: its main loop goes around until it is lost, and its id is
that of the first acknowledgement of its connect message that its reader gets. -/
namespace DistSys.Lsp

open DistSys.Lib

variable {c c' : Rtvbvojjbl} {l l' : Bxnzsdj} {isn : Int} {a : ClientAction} {m : Message}

/-! ### The endpoint of a client without an id -/

/-- What is fixed when an endpoint is made. -/
structure Bxnzsdj.SameSetup (l l' : Bxnzsdj) : Prop where
  start : l'.gksmgskml = l.gksmgskml
  takes : l'.hhwhhqnhh = l.hhwhhqnhh
  limit : l'.lksdkwkq = l.lksdkwkq

theorem Bxnzsdj.SameSetup.of_unsent (same : l'.unsent = l.unsent) : l.SameSetup l' :=
  ⟨(congrArg gksmgskml same :), (congrArg hhwhhqnhh same :), (congrArg lksdkwkq same :)⟩

section Moves

variable {arrives : Message → Prop} {w r : List Payload} {sent : List Message}

theorem EndMove.setup (move : EndMove arrives l l' w r sent) : l.SameSetup l' := by
  cases move with
  | write taken => exact .of_unsent (gkxcls_unsent taken)
  | read taken =>
    rw [(odkejnfsa_cases taken).2.2]
    exact ⟨rfl, rfl, rfl⟩
  | speak => exact .of_unsent (sayEpoch_unsent l)
  | epoch | flush | heard => exact ⟨rfl, rfl, rfl⟩
  | @deliver m _ _ taken =>
    cases qtbejekw_cases taken with
    | connect => exact ⟨rfl, rfl, rfl⟩
    | data =>
      have same := bvmndthe_unheard l m
      exact ⟨(congrArg Bxnzsdj.gksmgskml same :), (congrArg Bxnzsdj.hhwhhqnhh same :),
        (congrArg Bxnzsdj.lksdkwkq same :)⟩
    | ack _ step =>
      cases step with
      | ignored | connected => exact ⟨rfl, rfl, rfl⟩
      | settled _ acked => exact .of_unsent (settled_unsent acked l)

theorem EndMoves.setup (moves : EndMoves arrives l l' w r sent) : l.SameSetup l' := by
  induction moves with
  | none => exact ⟨rfl, rfl, rfl⟩
  | next _ last ih =>
    exact ⟨last.setup.start.trans ih.start, last.setup.takes.trans ih.takes,
      last.setup.limit.trans ih.limit⟩

/-- The end has no id, and only asks for one. -/
structure Bxnzsdj.Shy (l : Bxnzsdj) : Prop where
  unknown : l.rdcppgudji = 0
  asks : ∀ m ∈ l.rfxtuoncvn, m.type = .connect

/-- As long as it gets no id it sends nothing else, and an id is kept. -/
theorem EndMove.shy (move : EndMove arrives l l' w r sent) (still : l'.rdcppgudji = 0) :
    l.rdcppgudji = 0 ∧ (l.Shy → l'.Shy ∧ ∀ m ∈ sent, m.type = .connect) := by
  cases move with
  | write taken => exact absurd ((gkxcls_id taken).symm.trans still) (gkxcls_cases taken).1
  | read taken =>
    rw [(odkejnfsa_cases taken).2.2] at still
    exact absurd still (odkejnfsa_cases taken).1
  | epoch | heard => exact ⟨still, fun h => ⟨⟨still, h.asks⟩, by simp⟩⟩
  | flush =>
    refine ⟨still, fun h => ⟨⟨still, ?_⟩, h.asks⟩⟩
    simp [Bxnzsdj.bnmgrlr]
  | speak =>
    have unknown : l.rdcppgudji = 0 :=
      (congrArg Bxnzsdj.rdcppgudji (sayEpoch_unsent l) :).symm.trans still
    refine ⟨unknown, fun h => ⟨⟨still, ?_⟩, by simp⟩⟩
    intro m member
    simp only [Bxnzsdj.sayEpoch, unknown, Int.lt_irrefl, false_and, if_false, if_true,
      Bxnzsdj.lbzxtomtos] at member
    rcases List.mem_append.mp member with old | new
    · exact h.asks m old
    · rw [List.mem_singleton.mp new]
      rfl
  | @deliver m _ _ taken =>
    have unknown : l.rdcppgudji = 0 := by
      by_contra known
      exact known (((qtbejekw_hears taken).id known).symm.trans still)
    refine ⟨unknown, fun h => ⟨⟨still, ?_⟩, by simp⟩⟩
    cases qtbejekw_cases taken with
    | connect => exact h.asks
    | data =>
      have same : l.bvmndthe m = l := if_pos (.inr unknown)
      rw [same]
      exact h.asks
    | ack _ step =>
      cases step with
      | ignored => exact h.asks
      | connected => exact h.asks
      | settled known => exact absurd unknown known

theorem EndMoves.shy (moves : EndMoves arrives l l' w r sent) (still : l'.rdcppgudji = 0) :
    l.rdcppgudji = 0 ∧ (l.Shy → l'.Shy ∧ ∀ m ∈ sent, m.type = .connect) := by
  induction moves with
  | none => exact ⟨still, fun h => ⟨h, by simp⟩⟩
  | next _ last ih =>
    obtain ⟨between, asks⟩ := last.shy still
    obtain ⟨unknown, before⟩ := ih between
    refine ⟨unknown, fun h => ?_⟩
    obtain ⟨shy, first⟩ := before h
    obtain ⟨shy, second⟩ := asks shy
    refine ⟨shy, fun m member => ?_⟩
    rcases List.mem_append.mp member with old | new
    · exact first m old
    · exact second m new

end Moves

/-! ### The id of a client -/

/-- The id that a message has for a client without one, 0 if it has none. -/
def Message.brings (isn : Int) (m : Message) : Int :=
  if (m.type = .ack ∨ m.type = .cAck) ∧ m.seqNum = isn then m.connID else 0

/-- The id that the reader holds. -/
def ReaderPc.brings (isn : Int) : ReaderPc → Int
  | .telling (some m) | .handing m => m.brings isn
  | .polling | .telling none | .returned => 0

/-- The client's id, or the one that it will take. -/
def Rtvbvojjbl.fate (isn : Int) (c : Rtvbvojjbl) : Int :=
  if c.uygovtfegl.rdcppgudji = 0 then c.reader.brings isn else c.uygovtfegl.rdcppgudji

theorem fate_unknown (unknown : c.uygovtfegl.rdcppgudji = 0) : c.fate isn = c.reader.brings isn :=
  if_pos unknown

/-- Data brings no id. -/
theorem brings_data (data : m.type = .data) : m.brings isn = 0 :=
  if_neg fun acks => by simp [data] at acks

theorem vvvjlurqbu_id (unknown : l.rdcppgudji = 0) (takes : l.hhwhhqnhh = false) :
    l.vvvjlurqbu m = some (if m.seqNum = l.gksmgskml then { l with rdcppgudji := m.connID } else l) := by
  unfold Bxnzsdj.vvvjlurqbu
  rw [takes, if_neg (by simp), if_pos unknown]
  split
  · rfl
  · rfl

/-- A client without an id looks for it in every message of a known type, and does nothing else. -/
theorem qtbejekw_unknown (unknown : l.rdcppgudji = 0) (takes : l.hhwhhqnhh = false)
    (start : l.gksmgskml = isn) (known : ∀ k, m.type ≠ .other k) :
    ∃ l', l.qtbejekw m = some l' ∧ l'.rdcppgudji = m.brings isn ∧ l'.jfkdl = l.jfkdl := by
  unfold Bxnzsdj.qtbejekw Message.brings
  cases type : m.type with
  | other k => exact absurd type (known k)
  | connect => exact ⟨_, rfl, by simpa using unknown, rfl⟩
  | data =>
    have same : l.bvmndthe m = l := if_pos (.inr unknown)
    exact ⟨_, rfl, by simpa [same] using unknown, by rw [same]; rfl⟩
  | ack | cAck =>
    refine ⟨_, vvvjlurqbu_id unknown takes, ?_, ?_⟩
    all_goals
      by_cases answers : m.seqNum = isn
      · simp [start, answers, Bxnzsdj.jfkdl]
      · simp [start, answers, unknown]

/-- A client takes what its reader holds, and keeps what it has taken. -/
theorem fate_message (takes : c.uygovtfegl.hhwhhqnhh = false) (start : c.uygovtfegl.gksmgskml = isn)
    (handing : c.reader = .handing m) (handled : c.uygovtfegl.qtbejekw m = some l) :
    l.rdcppgudji = c.fate isn := by
  unfold Rtvbvojjbl.fate
  split
  · rename_i unknown
    have known : ∀ k, m.type ≠ .other k := by
      intro k type
      simp [Bxnzsdj.qtbejekw, type] at handled
    obtain ⟨l', taken, id, -⟩ := qtbejekw_unknown unknown takes start known
    cases Option.some.inj (taken.symm.trans handled)
    rw [handing]
    exact id
  · rename_i known
    exact (qtbejekw_hears handled).id known

theorem fate_same (id : c'.uygovtfegl.rdcppgudji = c.uygovtfegl.rdcppgudji)
    (reader : c'.reader.brings isn = c.reader.brings isn) : c'.fate isn = c.fate isn := by
  unfold Rtvbvojjbl.fate
  rw [id, reader]

/-- Only a datagram that the reader gets decides on the id of a client, and no other does after it. -/
theorem fate_step (takes : c.uygovtfegl.hhwhhqnhh = false) (start : c.uygovtfegl.gksmgskml = isn)
    (stepped : clientStep c a = some c') : c'.fate isn = c.fate isn ∨
      c.fate isn = 0 ∧ ∃ m, a = .datagram (some m) ∧ c'.fate isn = m.brings isn := by
  cases clientStep_inv stepped with
  | step move =>
    refine .inl (fate_same move.clock.id ?_)
    rw [move.step.reader]
  | write | read | close | tick => exact .inl rfl
  | message m l _ handing handled =>
    refine .inl ?_
    have id := fate_message takes start handing handled
    change (if l.rdcppgudji = 0 then 0 else l.rdcppgudji) = c.fate isn
    rw [← id]
    split
    · rename_i none
      exact none.symm
    · rfl
  | dropped bytes telling _ drops =>
    refine .inl (fate_same rfl ?_)
    rw [telling]
    cases bytes with
    | none => rfl
    | some m =>
      have data : m.type = .data := by
        by_contra other
        simp [ciqlyoibuh, other] at drops
      exact (brings_data data).symm
  | passed m m' telling _ passes =>
    refine .inl (fate_same rfl ?_)
    obtain ⟨type, number, id⟩ := ciqlyoibuh_kind passes
    rw [telling]
    simp only [ReaderPc.brings, Message.brings, type, number, id]
  | stop _ polling => exact .inl (fate_same rfl (by rw [polling]; rfl))
  | @datagram bytes polling =>
    cases bytes with
    | none => exact .inl (fate_same rfl (by rw [polling]; rfl))
    | some m =>
      by_cases unknown : c.uygovtfegl.rdcppgudji = 0
      · refine .inr ⟨?_, m, rfl, ?_⟩
        · rw [fate_unknown unknown, polling]
          rfl
        · exact fate_unknown unknown
      · exact .inl (by simp [Rtvbvojjbl.fate, unknown])

/-! ### The main loop until there is a connection -/

/-- The main loop goes around. -/
def LoopPc.dials : LoopPc → Bool
  | .flush | .kbiorathrz | .msltdjocir | .cxpdkaxytf false | .select | .tyhdjska => true
  | _ => false

/-- Until `NewClient` has returned there is no call, and the loop goes around until it fails. -/
structure Rtvbvojjbl.Young (isn : Int) (c : Rtvbvojjbl) : Prop where
  start : c.uygovtfegl.gksmgskml = isn
  takes : c.uygovtfegl.hhwhhqnhh = false
  unread : c.pztumoofep = true → c.lcuzvoeeux = false
  unasked : c.pztumoofep = true → c.kmpyqgmcyl = false
  epochs : c.pztumoofep = true → c.zguucznusf = true
  dials : c.pztumoofep = true → .connected false ∉ c.answers → c.main.dials = true

theorem young_new (isn : Int) (params : Params) : (newClient isn params).Young isn :=
  ⟨rfl, rfl, fun _ => rfl, fun _ => rfl, fun _ => rfl, fun _ _ => rfl⟩

theorem young_connected (start : c.uygovtfegl.gksmgskml = isn) (takes : c.uygovtfegl.hhwhhqnhh = false)
    (connected : c.pztumoofep = false) : c.Young isn := by
  constructor
  · exact start
  · exact takes
  all_goals simp [connected]

theorem Rtvbvojjbl.Young.connected (h : c.Young isn) (asked : c.kmpyqgmcyl = true) :
    c.pztumoofep = false := by
  cases waits : c.pztumoofep with
  | false => rfl
  | true =>
    rw [h.unasked waits] at asked
    cases asked

theorem Rtvbvojjbl.Young.move (h : c.Young isn) (setup : c.uygovtfegl.SameSetup c'.uygovtfegl)
    (move : LoopMove c c') : c'.Young isn := by
  have start := setup.start.trans h.start
  have takes := setup.takes.trans h.takes
  -- outside the branches that go around, the loop had failed before
  have failed : ∀ {pc}, c.main = pc → pc.dials = false → c.pztumoofep = true →
      .connected false ∉ c.answers → c'.main.dials = true := by
    intro pc at_pc elsewhere waits unanswered
    have dials := h.dials waits unanswered
    rw [at_pc, elsewhere] at dials
    cases dials
  cases move with
  | flush | noRead | noConnect | epoch | wrote =>
    exact ⟨start, takes, h.unread, h.unasked, h.epochs, fun _ _ => rfl⟩
  | readPayload | readFailed =>
    exact ⟨start, takes, fun _ => rfl, h.unasked, h.epochs, fun _ _ => rfl⟩
  | connected | connectedLost => exact young_connected start takes rfl
  | connectFailed =>
    refine ⟨start, takes, h.unread, h.unasked, h.epochs, fun _ unanswered => ?_⟩
    exact absurd (List.mem_append_right _ List.mem_cons_self) unanswered
  | noClose bgikdrftzz pc =>
    refine ⟨start, takes, h.unread, h.unasked, h.epochs, ?_⟩
    cases bgikdrftzz with
    | false => exact fun _ _ => rfl
    | true => exact failed pc rfl
  | closedWell _ _ asked | closedLost _ _ asked =>
    exact young_connected start takes (h.connected asked)
  | takes _ pc | wroteTwice _ _ pc =>
    exact ⟨start, takes, h.unread, h.unasked, h.epochs, failed pc rfl⟩
  | refused _ pc | refusedTwice _ pc =>
    refine ⟨start, takes, h.unread, h.unasked, h.epochs, fun waits unanswered => ?_⟩
    exact failed pc rfl waits fun before => unanswered (List.mem_append_left _ before)

theorem Rtvbvojjbl.Young.step {a : ClientAction} (h : c.Young isn)
    (stepped : clientStep c a = some c') : c'.Young isn := by
  have moved : ClientStep (fun _ => False) c a c' := clientStep_cases (by simp) stepped
  obtain ⟨w, r, m, moves, -⟩ := moved.moves
  have setup := moves.setup
  have start := setup.start.trans h.start
  have takes := setup.takes.trans h.takes
  cases clientStep_inv stepped with
  | step move => exact h.move setup move
  | tick | message => exact ⟨start, takes, h.unread, h.unasked, h.epochs, fun _ _ => rfl⟩
  | datagram | dropped | passed => exact ⟨start, takes, h.unread, h.unasked, h.epochs, h.dials⟩
  | write _ connected | read _ connected | close _ connected =>
    exact young_connected start takes connected
  | stop last =>
    refine ⟨start, takes, h.unread, h.unasked, h.epochs, fun waits unanswered => ?_⟩
    have dials := h.dials waits unanswered
    rw [last] at dials
    cases dials

/-- The reader stops with the main loop. -/
def Rtvbvojjbl.Stops (c : Rtvbvojjbl) : Prop := c.reader = .returned → c.main = .returned

theorem Rtvbvojjbl.Stops.step (h : c.Stops) (stepped : clientStep c a = some c') : c'.Stops := by
  intro gone
  cases clientStep_inv stepped with
  | step move =>
    have last := h (move.step.reader.symm.trans gone)
    simp [clientStep, mainStep, last] at stepped
  | write select | read select | close select | tick select =>
    have last := h gone
    rw [select] at last
    cases last
  | message | datagram | dropped | passed => cases gone
  | stop => rfl

/-- The client waits for its id. -/
structure Dialling (isn : Int) (c : Rtvbvojjbl) : Prop where
  young : c.Young isn
  sane : c.Sane
  stops : c.Stops
  waits : c.pztumoofep = true
  unknown : c.uygovtfegl.rdcppgudji = 0
  /-- it has not been lost from the start -/
  opens : 0 < c.uygovtfegl.lksdkwkq
  dials : c.main.dials = true

theorem Dialling.step (h : Dialling isn c) (stepped : clientStep c a = some c')
    (waits : c'.pztumoofep = c.pztumoofep) (unknown : c'.uygovtfegl.rdcppgudji = 0)
    (dials : c'.main.dials = true) : Dialling isn c' := by
  have moved : ClientStep (fun _ => False) c a c' := clientStep_cases (by simp) stepped
  obtain ⟨w, r, m, moves, -⟩ := moved.moves
  refine ⟨h.young.step stepped, h.sane.step stepped, h.stops.step stepped, waits.trans h.waits,
    unknown, ?_, dials⟩
  rw [moves.setup.limit]
  exact h.opens

theorem Dialling.move (h : Dialling isn c) (lives : c.uygovtfegl.jfkdl = false)
    (stepped : clientStep c .step = some c') : Dialling isn c' ∧ c'.uygovtfegl.jfkdl = false ∧
      c'.stepsLeft < c.stepsLeft := by
  have move := mainStep_cases stepped
  have unknown := move.clock.id.trans h.unknown
  have still := move.clock.jfkdl.trans lives
  have next := fun waits dials => h.step stepped waits unknown dials
  have dials := h.dials
  have unread := h.young.unread h.waits
  have unasked := h.young.unasked h.waits
  have zero := h.unknown
  cases move with
  | flush pc =>
    refine ⟨next rfl rfl, still, ?_⟩
    simp [Rtvbvojjbl.stepsLeft, Rtvbvojjbl.writeSocket, pc]
  | noRead pc | noConnect pc | epoch pc =>
    refine ⟨next rfl rfl, still, ?_⟩
    simp [Rtvbvojjbl.stepsLeft, Rtvbvojjbl.goto, pc]
  | noClose bgikdrftzz pc =>
    cases bgikdrftzz with
    | true => rw [pc] at dials; cases dials
    | false =>
      refine ⟨next rfl rfl, still, ?_⟩
      simp [Rtvbvojjbl.stepsLeft, Rtvbvojjbl.goto, pc, lives]
  | readPayload _ _ _ waits | readFailed _ waits => rw [unread] at waits; cases waits
  | connected _ _ id => omega
  | connectedLost _ _ id => omega
  | connectFailed _ _ _ lost => rw [lives] at lost; cases lost
  | closedWell _ _ asked | closedLost _ _ asked => rw [unasked] at asked; cases asked
  | takes _ pc | refused _ pc | refusedTwice _ pc | wrote _ _ pc | wroteTwice _ _ pc =>
    rw [pc] at dials; cases dials

theorem Dialling.goes (h : Dialling isn c) (lives : c.uygovtfegl.jfkdl = false)
    (busy : c.main ≠ .select) : ∃ c', clientStep c .step = some c' ∧ Dialling isn c' ∧
      c'.uygovtfegl.jfkdl = false ∧ c'.reader = c.reader ∧ c'.stepsLeft < c.stepsLeft := by
  have goes : ∃ c', clientStep c .step = some c' := by
    have dials := h.dials
    simp only [clientStep, mainStep]
    cases pc : c.main with
    | kbiorathrz =>
      exact ⟨c.goto .msltdjocir, by simp [Rtvbvojjbl.kbiorathrz, h.young.unread h.waits]⟩
    | select => exact absurd pc busy
    | flush | msltdjocir | cxpdkaxytf | tyhdjska => exact ⟨_, rfl⟩
    | ujuassxdjg | gkxcls | xrwedxzgjd | returned | blocked => rw [pc] at dials; cases dials
  obtain ⟨c', stepped⟩ := goes
  obtain ⟨next, still, nearer⟩ := h.move lives stepped
  exact ⟨c', stepped, next, still, (mainStep_cases stepped).step.reader, nearer⟩

/-- An epoch passes, and the client asks again, even if that was its last epoch. -/
theorem Dialling.asks (h : Dialling isn c) (select : c.main = .select) :
    ∃ c', run clientStep c [.tick, .step, .step] = some c' ∧ Dialling isn c' ∧
      c'.reader = c.reader ∧ ∃ new, c'.sent = c.sent ++ new ∧ newConnect isn ∈ new := by
  let ticked := { c with uygovtfegl := c.uygovtfegl.llehwkas }.goto .tyhdjska
  have ticks : clientStep c .tick = some ticked := by simp [clientStep, select, ticked]
  have first : Dialling isn ticked := h.step ticks rfl h.unknown rfl
  let asked := { ticked with uygovtfegl := ticked.uygovtfegl.sayEpoch }.goto .flush
  have speaks : clientStep ticked .step = some asked := rfl
  have id : asked.uygovtfegl.rdcppgudji = 0 :=
    (congrArg Bxnzsdj.rdcppgudji (sayEpoch_unsent ticked.uygovtfegl) :).trans h.unknown
  have second : Dialling isn asked := first.step speaks rfl id rfl
  have sends : clientStep asked .step = some asked.writeSocket := rfl
  refine ⟨asked.writeSocket, ?_, second.step sends rfl id rfl, rfl, _, rfl, ?_⟩
  · simp only [run, ticks, speaks, sends]
  · have start : ticked.uygovtfegl.gksmgskml = isn := first.young.start
    have unknown : ticked.uygovtfegl.rdcppgudji = 0 := h.unknown
    simp [asked, Rtvbvojjbl.goto, Bxnzsdj.bnmgrlr, Bxnzsdj.sayEpoch, unknown, Bxnzsdj.lbzxtomtos, start]

/-! ### What the reader holds -/

/-- The message gets through the reader as it is, and has a known type. -/
structure Message.Regular (m : Message) : Prop where
  passes : ciqlyoibuh m = some (some m)
  known : ∀ k, m.type ≠ .other k

/-- The reader tells the epoch goroutine, which ends the silence. -/
theorem Dialling.hears (h : Dialling isn c) {bytes : Option Message}
    (telling : c.reader = .telling bytes) (regular : ∀ m, bytes = some m → m.Regular) :
    ∃ c', clientStep c .heard = some c' ∧ Dialling isn c' ∧ c'.uygovtfegl.jfkdl = false ∧
      c'.fate isn = c.fate isn ∧
      (c'.reader = .polling ∨ ∃ m, c'.reader = .handing m ∧ bytes = some m) := by
  have runs := h.young.epochs h.waits
  obtain ⟨reader, stepped, holds⟩ : ∃ reader, clientStep c .heard =
        some { c with uygovtfegl := c.uygovtfegl.bbjdkslwoorun, reader := reader } ∧
      (reader = .polling ∨ ∃ m, reader = .handing m ∧ bytes = some m) := by
    cases bytes with
    | none => exact ⟨.polling, by simp [clientStep, telling, runs], .inl rfl⟩
    | some m =>
      have passes := (regular m rfl).passes
      exact ⟨.handing m, by simp [clientStep, telling, runs, passes], .inr ⟨m, rfl, rfl⟩⟩
  refine ⟨_, stepped, h.step stepped rfl h.unknown h.dials, ?_, ?_, holds⟩
  · have opens := h.opens
    refine decide_eq_false ?_
    simp only [Bxnzsdj.bbjdkslwoorun]
    omega
  · rcases fate_step h.young.takes h.young.start stepped with same | ⟨-, m, other, -⟩
    · exact same
    · cases other

/-- The main loop takes what the reader holds. -/
theorem Dialling.takes (h : Dialling isn c) (lives : c.uygovtfegl.jfkdl = false)
    (select : c.main = .select) (handing : c.reader = .handing m) (regular : m.Regular) :
    ∃ c', clientStep c .message = some c' ∧ c'.uygovtfegl.rdcppgudji = c.fate isn ∧
      c'.reader = .polling ∧ (c.fate isn = 0 → Dialling isn c' ∧ c'.uygovtfegl.jfkdl = false) := by
  obtain ⟨l', handled, -, same⟩ :=
    qtbejekw_unknown h.unknown h.young.takes h.young.start regular.known
  have stepped : clientStep c .message =
      some ({ c with uygovtfegl := l', reader := .polling }.goto .flush) := by
    simp [clientStep, select, handing, handled]
  have id := fate_message h.young.takes h.young.start handing handled
  refine ⟨_, stepped, id, rfl, fun none => ?_⟩
  exact ⟨h.step stepped rfl (id.trans none) rfl, same.trans lives⟩

end DistSys.Lsp
