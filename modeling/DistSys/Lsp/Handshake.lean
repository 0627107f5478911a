import DistSys.Lsp.Answering

/-! A client that connects to a server. The datagrams that are under way between the two may be lost
and repeated, and arrive in any order. -/
namespace DistSys.Lsp

open Function (update)
open DistSys.Lib

/-- `way` holds the datagrams that are under way to each side. -/
structure Handshake where
  client : Rtvbvojjbl
  server : Zx
  way : Side → List Message

inductive HandshakeAction where
  | client (a : ClientAction)
  | server (a : ServerAction) (orders : Orders)
  /-- the `k`-th datagram that is under way arrives -/
  | arrives (side : Side) (k : Nat)
  | lost (side : Side) (k : Nat)
  | repeated (side : Side) (k : Nat)
  deriving DecidableEq, Repr

def newHandshake (params : Side → Params) (isn : Int) : Handshake where
  client := newClient isn (params .client)
  server := newServer (params .server)
  way := fun _ => []

def sentTo (here : Addr) (sent : List (Addr × Message)) : List Message :=
  (sent.filter fun entry => entry.1 = here).map Prod.snd

/-- A step of the client puts what it sends on its way. -/
def Handshake.withClient (s : Handshake) (client : Rtvbvojjbl) : Handshake :=
  { s with
    client := client
    way := update s.way .server (s.way .server ++ client.sent.drop s.client.sent.length) }

def Handshake.withServer (s : Handshake) (here : Addr) (server : Zx) : Handshake :=
  { s with
    server := server
    way := update s.way .client
      (s.way .client ++ sentTo here (server.sent.drop s.server.sent.length)) }

/-- The client's address is `here`. From other addresses anything may come to the server. -/
def handshakeStep (here : Addr) (s : Handshake) : HandshakeAction → Option Handshake
  | .client (.datagram _) => none
  | .client a => (clientStep s.client a).map s.withClient
  | .server (.datagram d msg) _ =>
    if d = here then none
    else (serverStep s.server (.datagram d msg)).map fun server => { s with server := server }
  | .server a orders => (orderedStep s.server (a, orders)).map (s.withServer here)
  | .arrives .client k => do
    let m ← (s.way .client)[k]?
    let client ← clientStep s.client (.datagram (some m))
    some { s with client := client, way := update s.way .client ((s.way .client).eraseIdx k) }
  | .arrives .server k => do
    let m ← (s.way .server)[k]?
    let server ← serverStep s.server (.datagram here m)
    some { s with server := server, way := update s.way .server ((s.way .server).eraseIdx k) }
  | .lost side k => some { s with way := update s.way side ((s.way side).eraseIdx k) }
  | .repeated side k => do
    let m ← (s.way side)[k]?
    some { s with way := update s.way side (s.way side ++ [m]) }

/-- Epochs, deliveries, and what the goroutines do with them: nothing is lost and nobody calls. -/
def HandshakeAction.lossless : HandshakeAction → Bool
  | .client .step | .client .tick | .client .heard | .client .message => true
  | .server .tick _ | .server .message _ => true
  | .arrives _ _ => true
  | _ => false

variable {here : Addr} {s t : Handshake} {c : Rtvbvojjbl} {isn iqu : Int}

/-- One list of messages under way is replaced, by no new ones. -/
theorem way_update {side : Side} {ms : List Message} (fewer : ∀ m ∈ ms, m ∈ s.way side) (other : Side) :
    ∀ m ∈ update s.way side ms other, m ∈ s.way other := by
  by_cases same : other = side
  · subst same
    simpa using fewer
  · simp [same]

theorem way_erased (s : Handshake) (side : Side) (k : Nat) (other : Side) :
    ∀ m ∈ update s.way side ((s.way side).eraseIdx k) other, m ∈ s.way other :=
  way_update (fun _ member => (List.eraseIdx_sublist _ k).subset member) other

/-- One of the two makes a step, and nothing is under way but what was before and what it sends; or
only what is under way changes. -/
inductive HandshakeStep (here : Addr) (s : Handshake) : Handshake → Prop where
  | client (a : ClientAction) (c : Rtvbvojjbl) (way : Side → List Message)
      (stepped : clientStep s.client a = some c)
      (comes : ∀ m, a = .datagram (some m) → m ∈ s.way .client)
      (under : ∀ m ∈ way .client, m ∈ s.way .client)
      (asks : ∀ m ∈ way .server, m ∈ s.way .server ∨ m ∈ c.sent.drop s.client.sent.length) :
      HandshakeStep here s { s with client := c, way := way }
  | server (a : ServerAction) (orders : Orders) (z : Zx) (way : Side → List Message)
      (stepped : orderedStep s.server (a, orders) = some z)
      (comes : ∀ m, a = .datagram here m → m ∈ s.way .server)
      (under : ∀ m ∈ way .client,
        m ∈ s.way .client ∨ (here, m) ∈ z.sent.drop s.server.sent.length)
      (asks : ∀ m ∈ way .server, m ∈ s.way .server) :
      HandshakeStep here s { s with server := z, way := way }
  | way (way : Side → List Message) (fewer : ∀ side, ∀ m ∈ way side, m ∈ s.way side) :
      HandshakeStep here s { s with way := way }

theorem handshakeStep_cases {a : HandshakeAction} (taken : handshakeStep here s a = some t) :
    HandshakeStep here s t := by
  unfold handshakeStep at taken
  split at taken
  · contradiction
  · rename_i a own
    obtain ⟨c, stepped, rfl⟩ := Option.map_eq_some_iff.mp taken
    exact .client a c _ stepped (fun m comes => absurd comes (own _)) (by simp) (by simp)
  · split at taken
    · contradiction
    · rename_i d msg orders away
      obtain ⟨z, stepped, rfl⟩ := Option.map_eq_some_iff.mp taken
      refine .server (.datagram d msg) orders z _ stepped ?_ (fun _ => .inl) fun _ => id
      intro m comes
      cases comes
      exact absurd rfl away
  · rename_i a orders own
    obtain ⟨z, stepped, rfl⟩ := Option.map_eq_some_iff.mp taken
    refine .server a orders z _ stepped (fun m comes => absurd comes (own _ _)) ?_ (by simp)
    simp only [Function.update_self, List.mem_append]
    rintro m (old | new)
    · exact .inl old
    · obtain ⟨⟨d, _⟩, sends, rfl⟩ := List.mem_map.mp new
      obtain ⟨sends, address⟩ := List.mem_filter.mp sends
      exact .inr (of_decide_eq_true address ▸ sends)
  · simp only [Option.bind_eq_bind, Option.bind_eq_some_iff] at taken
    obtain ⟨m, under, c, stepped, result⟩ := taken
    cases Option.some.inj result
    refine .client (.datagram (some m)) c _ stepped ?_ (way_erased s .client _ .client) fun m member =>
      .inl (way_erased s .client _ .server m member)
    rintro m' ⟨⟩
    exact List.mem_of_getElem? under
  · simp only [Option.bind_eq_bind, Option.bind_eq_some_iff] at taken
    obtain ⟨m, under, z, stepped, result⟩ := taken
    cases Option.some.inj result
    refine .server (.datagram here m) ⟨[], [], [], []⟩ z _ stepped ?_
      (fun m member => .inl (way_erased s .server _ .client m member)) (way_erased s .server _ .server)
    rintro m' ⟨⟩
    exact List.mem_of_getElem? under
  · cases Option.some.inj taken
    exact .way _ (way_erased s _ _)
  · simp only [Option.bind_eq_bind, Option.bind_eq_some_iff] at taken
    obtain ⟨m, under, result⟩ := taken
    cases Option.some.inj result
    refine .way _ (way_update fun m' member => ?_)
    rcases List.mem_append.mp member with old | new
    · exact old
    · exact List.mem_singleton.mp new ▸ List.mem_of_getElem? under

/-! ### What holds in every state -/

/-- A client without an id has sent nothing but connect messages, and the server has read nothing
else from it. -/
structure Handshake.Early (here : Addr) (s : Handshake) : Prop where
  shy : s.client.uygovtfegl.Shy
  asks : ∀ m ∈ s.way .server, m.type = .connect
  handing : ∀ msg, s.server.reader = .handing here msg → msg.type = .connect

structure Handshake.Proper (isn : Int) (here : Addr) (s : Handshake) : Prop where
  young : s.client.Young isn
  sane : s.client.Sane
  stops : s.client.Stops
  holds : s.client.reader.Holds Message.Regular
  sound : s.server.Sound
  calm : s.server.Calm
  way : ∀ m ∈ s.way .client, m.Regular
  early : s.client.uygovtfegl.rdcppgudji = 0 → s.Early here

theorem proper_new (params : Side → Params) (isn : Int) (here : Addr) :
    (newHandshake params isn).Proper isn here := by
  refine ⟨young_new isn _, sane_new isn _, ?_, trivial, Registry.sound_empty, ?_, ?_, fun _ => ?_⟩
  · intro gone
    cases gone
  · simp [Zx.Calm, newHandshake, newServer]
  · simp [newHandshake]
  · exact ⟨⟨rfl, by simp [newHandshake, newClient, fnlwefjbun, newConnect]⟩, by simp [newHandshake],
      by simp [newHandshake, newServer]⟩

theorem Handshake.Proper.step {a : HandshakeAction} (h : s.Proper isn here)
    (taken : handshakeStep here s a = some t) : t.Proper isn here := by
  cases handshakeStep_cases taken with
  | client a c way stepped comes under asks =>
    have step : ClientStep Message.Regular s.client a c :=
      clientStep_cases (fun _ regular => regular.passes) stepped
    obtain ⟨w, r, new, moves, -, -, sent⟩ := step.moves
    refine ⟨h.young.step stepped, h.sane.step stepped, h.stops.step stepped,
      step.holds h.holds fun m arrives => h.way m (comes m arrives), h.sound, h.calm,
      fun m member => h.way m (under m member), fun still => ?_⟩
    obtain ⟨unknown, shy⟩ := moves.shy still
    have early := h.early unknown
    refine ⟨(shy early.shy).1, fun m member => ?_, early.handing⟩
    rcases asks m member with old | new
    · exact early.asks m old
    · rw [sent, List.drop_left] at new
      exact (shy early.shy).2 m new
  | server a orders z way stepped comes under asks =>
    have moves := (orderedStep_cases stepped).moves (brings_any s.server)
    obtain ⟨new, sent, regular⟩ := moves.regular h.sound fun j conn there => (h.calm j conn there).1
    refine ⟨h.young, h.sane, h.stops, h.holds, h.sound.edits moves.edits, h.calm.step stepped,
      fun m member => ?_, fun still => ?_⟩
    · rcases under m member with old | sends
      · exact h.way m old
      · rw [sent, List.drop_left] at sends
        exact regular _ sends
    · have early := h.early still
      refine ⟨early.shy, fun m member => early.asks m (asks m member), fun msg now => ?_⟩
      rcases reader_step stepped now with before | ⟨m, rfl, type⟩
      · exact early.handing msg before
      · exact type.trans (early.asks m (comes m rfl))
  | way way fewer =>
    exact ⟨h.young, h.sane, h.stops, h.holds, h.sound, h.calm,
      fun m member => h.way m (fewer _ m member),
      fun still => ⟨(h.early still).shy, fun m member => (h.early still).asks m (fewer _ m member),
        (h.early still).handing⟩⟩

theorem proper_run {params : Side → Params} {acts : List HandshakeAction}
    (reached : run (handshakeStep here) (newHandshake params isn) acts = some s) :
    s.Proper isn here :=
  run_keeps (Handshake.Proper isn here) (fun _ _ _ h taken => h.step taken)
    (proper_new params isn here) acts reached

/-! ### Without a loss -/

/-- `t` comes after `s`, and nothing is lost in between. -/
def Lossless (here : Addr) (s t : Handshake) : Prop :=
  ∃ more, (∀ a ∈ more, a.lossless = true) ∧ run (handshakeStep here) s more = some t

theorem Lossless.refl (s : Handshake) : Lossless here s s := ⟨[], by simp, rfl⟩

theorem Lossless.single {a : HandshakeAction} (lossless : a.lossless = true)
    (taken : handshakeStep here s a = some t) : Lossless here s t :=
  ⟨[a], by simpa using lossless, (run_cons taken).mpr rfl⟩

theorem Lossless.trans {u : Handshake} (first : Lossless here s u) (second : Lossless here u t) :
    Lossless here s t := by
  obtain ⟨one, lossless, reached⟩ := first
  obtain ⟨two, lossless', reached'⟩ := second
  refine ⟨one ++ two, ?_, run_append.mpr ⟨u, reached, reached'⟩⟩
  intro a member
  exact (List.mem_append.mp member).elim (lossless a) (lossless' a)

theorem Handshake.Proper.lossless (h : s.Proper isn here) (runs : Lossless here s t) :
    t.Proper isn here := by
  obtain ⟨more, -, reached⟩ := runs
  exact run_keeps (Handshake.Proper isn here) (fun _ _ _ h taken => h.step taken) h more reached

/-! ### The client's part -/

/-- Only the client moves. -/
structure ClientRuns (here : Addr) (s t : Handshake) : Prop where
  runs : Lossless here s t
  server : t.server = s.server
  way : t.way .client = s.way .client
  sends : ∃ new, t.client.sent = s.client.sent ++ new ∧ t.way .server = s.way .server ++ new

theorem ClientRuns.refl (s : Handshake) : ClientRuns here s s :=
  ⟨.refl s, rfl, rfl, [], by simp, by simp⟩

theorem ClientRuns.trans {u : Handshake} (first : ClientRuns here s u) (second : ClientRuns here u t) :
    ClientRuns here s t := by
  obtain ⟨one, sent, way⟩ := first.sends
  obtain ⟨two, sent', way'⟩ := second.sends
  refine ⟨first.runs.trans second.runs, second.server.trans first.server, second.way.trans first.way,
    one ++ two, ?_, ?_⟩
  · rw [sent', sent, List.append_assoc]
  · rw [way', way, List.append_assoc]

theorem ClientRuns.step {a : ClientAction} (lossless : (HandshakeAction.client a).lossless = true)
    (stepped : clientStep s.client a = some c) (rest : ClientRuns here (s.withClient c) t) :
    ClientRuns here s t := by
  have step : ClientStep (fun _ => False) s.client a c := clientStep_cases (by simp) stepped
  obtain ⟨w, r, new, -, -, -, sent⟩ := step.moves
  have taken : handshakeStep here s (.client a) = some (s.withClient c) := by
    cases a with
    | datagram bytes => cases lossless
    | _ => simp [handshakeStep, stepped]
  refine .trans ⟨.single lossless taken, rfl, ?_, new, sent, ?_⟩ rest
  · simp [Handshake.withClient]
  · simp [Handshake.withClient, sent]

theorem ClientRuns.run {as : List ClientAction}
    (lossless : ∀ a ∈ as, (HandshakeAction.client a).lossless = true)
    (reached : run clientStep s.client as = some c) : ∃ t, ClientRuns here s t ∧ t.client = c := by
  induction as generalizing s with
  | nil => exact ⟨s, .refl s, Option.some.inj reached⟩
  | cons a rest ih =>
    obtain ⟨c', stepped, later⟩ := run_first reached
    obtain ⟨t, runs, same⟩ := ih (s := s.withClient c')
      (fun b member => lossless b (List.mem_cons_of_mem a member)) later
    exact ⟨t, .step (lossless a List.mem_cons_self) stepped runs, same⟩

/-- The loop of the client comes to its `select`. -/
theorem dialling_selects (here : Addr) (h : Dialling isn s.client)
    (lives : s.client.uygovtfegl.jfkdl = false) :
    ∃ t, ClientRuns here s t ∧ Dialling isn t.client ∧ t.client.uygovtfegl.jfkdl = false ∧
      t.client.main = .select ∧ t.client.reader = s.client.reader := by
  induction left : s.client.stepsLeft using Nat.strong_induction_on generalizing s with
  | _ n ih =>
    subst left
    by_cases select : s.client.main = .select
    · exact ⟨s, .refl s, h, lives, select, rfl⟩
    obtain ⟨c, stepped, next, still, reader, nearer⟩ := h.goes lives select
    obtain ⟨t, runs, rest⟩ := ih _ nearer (s := s.withClient c) next still rfl
    exact ⟨t, .step rfl stepped runs, rest.1, rest.2.1, rest.2.2.1, rest.2.2.2.trans reader⟩

/-- The client takes the message that its reader holds, and with it the id, if that has one. -/
theorem dialling_frees (here : Addr) (h : Dialling isn s.client)
    (lives : (∀ bytes, s.client.reader ≠ .telling bytes) → s.client.uygovtfegl.jfkdl = false)
    (holds : s.client.reader.Holds Message.Regular) :
    ∃ t, ClientRuns here s t ∧ t.client.uygovtfegl.rdcppgudji = s.client.fate isn ∧
      (s.client.fate isn = 0 → Dialling isn t.client ∧ t.client.uygovtfegl.jfkdl = false ∧
        t.client.reader = .polling) := by
  have hands : ∀ {s : Handshake} {m : Message}, Dialling isn s.client →
      s.client.uygovtfegl.jfkdl = false → s.client.reader = .handing m → m.Regular →
      ∃ t, ClientRuns here s t ∧ t.client.uygovtfegl.rdcppgudji = s.client.fate isn ∧
        (s.client.fate isn = 0 → Dialling isn t.client ∧ t.client.uygovtfegl.jfkdl = false ∧
          t.client.reader = .polling) := by
    intro s m h lives handing regular
    obtain ⟨u, runs, dialling, alive, select, reader⟩ := dialling_selects here h lives
    have same : u.client.fate isn = s.client.fate isn :=
      fate_same (dialling.unknown.trans h.unknown.symm) (by rw [reader])
    obtain ⟨c, stepped, id, polling, none⟩ := dialling.takes alive select (reader.trans handing) regular
    rw [same] at id none
    exact ⟨u.withClient c, runs.trans (.step rfl stepped (.refl _)), id,
      fun unknown => ⟨(none unknown).1, (none unknown).2, polling⟩⟩
  cases reader : s.client.reader with
  | polling =>
    have none : s.client.fate isn = 0 := by rw [fate_unknown h.unknown, reader]; rfl
    exact ⟨s, .refl s, h.unknown.trans none.symm, fun _ => ⟨h, lives (by simp [reader]), reader⟩⟩
  | handing m =>
    rw [reader] at holds
    exact hands h (lives (by simp [reader])) reader holds
  | returned =>
    have dials := h.dials
    rw [h.stops reader] at dials
    cases dials
  | telling bytes =>
    have regular : ∀ m, bytes = some m → m.Regular := by
      rintro m rfl
      rwa [reader] at holds
    obtain ⟨c, stepped, dialling, alive, same, polling | ⟨m, handing, comes⟩⟩ :=
      h.hears reader regular
    · have none : c.fate isn = 0 := by rw [fate_unknown dialling.unknown, polling]; rfl
      refine ⟨s.withClient c, .step rfl stepped (.refl _), ?_, fun _ => ⟨dialling, alive, polling⟩⟩
      exact (dialling.unknown.trans none.symm).trans same
    · obtain ⟨t, runs, rest⟩ :=
        hands (s := s.withClient c) dialling alive handing (regular m comes)
      rw [show (s.withClient c).client.fate isn = s.client.fate isn from same] at rest
      exact ⟨t, .step rfl stepped runs, rest⟩

/-- A message that is under way brings the id. -/
theorem dialling_learns (h : Dialling isn s.client) (proper : s.Proper isn here)
    (polling : s.client.reader = .polling) {m : Message} (under : m ∈ s.way .client) :
    ∃ t, Lossless here s t ∧ t.client.uygovtfegl.rdcppgudji = m.brings isn := by
  obtain ⟨k, there⟩ := List.mem_iff_getElem?.mp under
  let told : Handshake := { s with
    client := { s.client with reader := .telling (some m) }
    way := update s.way .client ((s.way .client).eraseIdx k) }
  have dials := h.dials
  have runs : s.client.main ≠ .xrwedxzgjd ∧ s.client.main ≠ .returned := by
    constructor <;> intro last <;> rw [last] at dials <;> cases dials
  have stepped : clientStep s.client (.datagram (some m)) = some told.client := by
    simp [clientStep, polling, runs, told]
  have arrives : handshakeStep here s (.arrives .client k) = some told := by
    simp [handshakeStep, there, stepped, told]
  obtain ⟨t, runs, id, -⟩ := dialling_frees (s := told) here (h.step stepped rfl h.unknown h.dials)
    (fun other => absurd rfl (other (some m))) (proper.way m under)
  refine ⟨t, (Lossless.single rfl arrives).trans runs.runs, id.trans ?_⟩
  exact fate_unknown h.unknown

/-! ### The server's part -/

/-- The reader of the server is at the socket, or the main loop can take what it holds. -/
def Zx.Takes (z : Zx) : Prop :=
  match z.reader with
  | .polling => True
  | .handing d msg => (z.qip d msg).isSome
  | .returned => False

/-- The server will say that it is alive, in the next epoch or in the one after it, or then when it
has heard the connect message again. -/
def Zx.WillSpeak (z : Zx) (iqu : Int) : Prop :=
  ∃ conn, z.c.lookup iqu = some conn ∧
    (conn.a.tttbejw = false ∧ 2 ≤ conn.a.epochsLeft ∨ 3 ≤ conn.a.epochsLeft ∨
      3 ≤ conn.a.lksdkwkq ∧ z.Takes)

theorem server_step {a : ServerAction} {orders : Orders} {z : Zx}
    (lossless : (HandshakeAction.server a orders).lossless = true)
    (stepped : orderedStep s.server (a, orders) = some z) : Lossless here s (s.withServer here z) := by
  refine .single lossless ?_
  cases a with
  | datagram => cases lossless
  | _ => simp [handshakeStep, stepped]

section

variable {conn : Zqqx}

theorem alive_next (h : s.Proper isn here) (found : s.server.c.lookup iqu = some conn)
    (address : conn.d = here) (silent : conn.a.tttbejw = false) (left : 2 ≤ conn.a.epochsLeft) :
    ∃ t, Lossless here s t ∧ t.client = s.client ∧ newAck iqu 0 ∈ t.way .client := by
  obtain ⟨settled, select⟩ := h.calm iqu conn found
  obtain ⟨orders, z, new, -, stepped, sent, speaks, -⟩ := h.sound.ticks select found settled left
  refine ⟨s.withServer here z, server_step rfl stepped, rfl, ?_⟩
  have member : newAck iqu 0 ∈ sentTo here new := by
    have spoken := speaks silent
    rw [address] at spoken
    exact List.mem_map.mpr ⟨_, List.mem_filter.mpr ⟨spoken, by simp⟩, rfl⟩
  simp only [Handshake.withServer, Function.update_self, sent, List.drop_left]
  exact List.mem_append_right _ member

theorem alive_soon (h : s.Proper isn here) (found : s.server.c.lookup iqu = some conn)
    (address : conn.d = here) (left : 3 ≤ conn.a.epochsLeft) :
    ∃ t, Lossless here s t ∧ t.client = s.client ∧ newAck iqu 0 ∈ t.way .client := by
  obtain ⟨settled, select⟩ := h.calm iqu conn found
  obtain ⟨orders, z, new, conn', stepped, -, -, found', same, silent, less⟩ :=
    h.sound.ticks select found settled (by omega)
  have runs : Lossless here s (s.withServer here z) := server_step rfl stepped
  obtain ⟨t, later, client, under⟩ :=
    alive_next (h.lossless runs) found' (same.trans address) silent (by omega)
  exact ⟨t, runs.trans later, client, under⟩

/-- What the server does with a message leaves the client's connection as it is, unless it is a
connect message of this client. -/
theorem qip_conn {z z' : Zx} {d : Addr} {msg : Message} (sound : z.Sound)
    (found : z.c.lookup iqu = some conn) (asks : d = conn.d → msg.type = .connect)
    (handled : z.qip d msg = some z') : d ≠ conn.d ∧ z'.c.lookup iqu = some conn ∨ z'.c.lookup iqu =
      some { conn with a := { conn.a.bbjdkslwoorun with tttbejw := true } } := by
  have named : z.nemwea.lookup conn.d = some iqu := (sound.inverse _ iqu).mpr ⟨conn, found, rfl⟩
  have away : z.nemwea.lookup d = none → d ≠ conn.d := by
    rintro unknown rfl
    rw [named] at unknown
    cases unknown
  cases qip_cases handled with
  | ignored unknown => exact .inl ⟨away unknown, found⟩
  | greeted unknown =>
    have old := (sound.ids iqu conn found).2.1
    have other : iqu ≠ z.jjeqqw := Int.ne_of_lt old
    exact .inl ⟨away unknown, by simp [Zx.greet, other, found]⟩
  | handled j conn' a named' found' hears =>
    by_cases same : j = iqu
    · subst same
      cases Option.some.inj (found.symm.trans found')
      obtain ⟨_, there, rfl⟩ := (sound.inverse d j).mp named'
      cases Option.some.inj (found.symm.trans there)
      simp only [Bxnzsdj.qtbejekw, asks rfl, Option.some.injEq] at hears
      subst hears
      exact .inr (by simp [Zx.moveConn])
    · refine .inl ⟨?_, by simp [Zx.moveConn, Ne.symm same, found]⟩
      rintro rfl
      exact same (Option.some.inj (named'.symm.trans named))

/-- The server takes the message that its reader holds. One of this client ends the silence. -/
theorem server_frees (h : s.Proper isn here) (early : s.Early here)
    (found : s.server.c.lookup iqu = some conn) (address : conn.d = here)
    (limit : 3 ≤ conn.a.lksdkwkq) {d : Addr} {msg : Message}
    (handing : s.server.reader = .handing d msg) (takes : (s.server.qip d msg).isSome) :
    ∃ t conn', Lossless here s t ∧ t.client = s.client ∧ t.way .server = s.way .server ∧
      t.server.reader = .polling ∧ t.server.c.lookup iqu = some conn' ∧ conn'.d = here ∧
      conn'.a.lksdkwkq = conn.a.lksdkwkq ∧
      (d = here → conn'.a.epochsLeft = conn.a.lksdkwkq.toNat) := by
  obtain ⟨settled, select⟩ := h.calm iqu conn found
  obtain ⟨z, handled⟩ := Option.isSome_iff_exists.mp takes
  subst address
  have asks : d = conn.d → msg.type = .connect := by
    rintro rfl
    exact early.handing msg handing
  rcases qip_conn h.sound found asks handled with ⟨away, same⟩ | heard
  · obtain ⟨orders, z', new, queue, stepped, polling, sent, there⟩ :=
      h.sound.handles select handing handled same settled.lives settled.waits
    exact ⟨_, _, server_step rfl stepped, rfl, by simp [Handshake.withServer], polling, there, rfl, rfl,
      fun here => absurd here away⟩
  · have lives : { conn.a.bbjdkslwoorun with tttbejw := true }.jfkdl = false := by
      refine decide_eq_false ?_
      simp only [Bxnzsdj.bbjdkslwoorun]
      omega
    obtain ⟨orders, z', new, queue, stepped, polling, sent, there⟩ :=
      h.sound.handles select handing handled heard lives settled.waits
    exact ⟨_, _, server_step rfl stepped, rfl, by simp [Handshake.withServer], polling, there, rfl, rfl,
      fun _ => by simp [Bxnzsdj.epochsLeft, Bxnzsdj.bbjdkslwoorun]⟩

/-- The connect message that is under way makes the server speak again. -/
theorem alive_again (h : s.Proper isn here) (early : s.Early here) (takes : s.server.Takes)
    (found : s.server.c.lookup iqu = some conn) (address : conn.d = here)
    (limit : 3 ≤ conn.a.lksdkwkq) (asked : newConnect isn ∈ s.way .server) :
    ∃ t, Lossless here s t ∧ t.client = s.client ∧ newAck iqu 0 ∈ t.way .client := by
  obtain ⟨u, conn₁, runs, client, way, polling, found₁, address₁, limit₁⟩ : ∃ u conn₁,
      Lossless here s u ∧ u.client = s.client ∧ u.way .server = s.way .server ∧
      u.server.reader = .polling ∧ u.server.c.lookup iqu = some conn₁ ∧ conn₁.d = here ∧
      conn₁.a.lksdkwkq = conn.a.lksdkwkq := by
    unfold Zx.Takes at takes
    split at takes
    · rename_i polling
      exact ⟨s, conn, .refl s, rfl, rfl, polling, found, address, rfl⟩
    · rename_i d msg handing
      obtain ⟨u, conn₁, runs, client, way, polling, there, same, limit', -⟩ :=
        server_frees h early found address limit handing takes
      exact ⟨u, conn₁, runs, client, way, polling, there, same, limit'⟩
    · cases takes
  have select := ((h.lossless runs).calm iqu conn₁ found₁).2
  obtain ⟨k, there⟩ := List.mem_iff_getElem?.mp (way ▸ asked)
  let told : Handshake := { u with
    server := { u.server with reader := .handing here (newConnect isn) }
    way := update u.way .server ((u.way .server).eraseIdx k) }
  have arrives : handshakeStep here u (.arrives .server k) = some told := by
    simp [handshakeStep, there, serverStep, polling, select, ciqlyoibuh, newConnect, told]
  have comes := runs.trans (Lossless.single rfl arrives)
  have proper := h.lossless comes
  have named : told.server.nemwea.lookup here = some iqu :=
    (proper.sound.inverse _ iqu).mpr ⟨conn₁, found₁, address₁⟩
  have takes : (told.server.qip here (newConnect isn)).isSome := by
    have found : told.server.c.lookup iqu = some conn₁ := found₁
    simp [Zx.qip, named, found, Bxnzsdj.qtbejekw, newConnect]
  obtain ⟨v, conn₂, later, client', -, -, found₂, address₂, -, left⟩ := server_frees proper
    (proper.early (client ▸ early.shy.unknown)) found₁ address₁ (by omega) rfl takes
  have left := left rfl
  have last := comes.trans later
  obtain ⟨t, ends, client'', under⟩ := alive_soon (h.lossless last) found₂ address₂ (by omega)
  exact ⟨t, last.trans ends, client''.trans (client'.trans client), under⟩

end

/-- The id is with the client's reader or under way, or the first sequence number is 0, the number of
the messages that say that an end is alive, and the server will send one. -/
def Answerable (isn iqu : Int) (s : Handshake) : Prop :=
  s.client.fate isn = iqu ∨ s.client.fate isn = 0 ∧
    ((∃ m ∈ s.way .client, m.brings isn = iqu) ∨ isn = 0 ∧ s.server.WillSpeak iqu)

theorem Answerable.completes (answerable : Answerable isn iqu s) (h : s.Proper isn here)
    (dialling : Dialling isn s.client) (lives : s.client.uygovtfegl.jfkdl = false)
    (made : s.server.nemwea.lookup here = some iqu) :
    ∃ t, Lossless here s t ∧ t.client.uygovtfegl.rdcppgudji = iqu := by
  obtain ⟨u, first, id, free⟩ := dialling_frees here dialling (fun _ => lives) h.holds
  rcases answerable with fate | ⟨none, ⟨m, under, brings⟩ | ⟨rfl, conn, found, speaks⟩⟩
  · exact ⟨u, first.runs, id.trans fate⟩
  · obtain ⟨waiting, -, polling⟩ := free none
    obtain ⟨t, later, id⟩ :=
      dialling_learns waiting (h.lossless first.runs) polling (first.way ▸ under)
    exact ⟨t, first.runs.trans later, id.trans brings⟩
  · obtain ⟨waiting, alive, polling⟩ := free none
    obtain ⟨_, there, address⟩ := (h.sound.inverse here iqu).mp made
    cases Option.some.inj (found.symm.trans there)
    -- the client asks again in any case, so that its connect message is there when it is needed
    obtain ⟨v, second, waiting, -, select, reader⟩ := dialling_selects here waiting alive
    obtain ⟨c, asks, waiting, same, new, sent, asked⟩ := waiting.asks select
    obtain ⟨w, third, client⟩ : ∃ w, ClientRuns here v w ∧ w.client = c :=
      ClientRuns.run (by simp [HandshakeAction.lossless]) asks
    have under : newConnect 0 ∈ w.way .server := by
      obtain ⟨new', sent', way⟩ := third.sends
      rw [client, sent] at sent'
      rw [way, ← List.append_cancel_left sent']
      exact List.mem_append_right _ asked
    have before := (first.trans second).trans third
    have runs := before.runs
    have proper := h.lossless runs
    have server := before.server
    have early := proper.early (client ▸ waiting.unknown)
    rw [← server] at found
    obtain ⟨x, later, client', spoken⟩ : ∃ t, Lossless here w t ∧ t.client = w.client ∧
        newAck iqu 0 ∈ t.way .client := by
      rcases speaks with ⟨silent, left⟩ | left | ⟨limit, takes⟩
      · exact alive_next proper found address silent left
      · exact alive_soon proper found address left
      · exact alive_again proper early (server ▸ takes) found address limit under
    have same : x.client = c := client'.trans client
    obtain ⟨t, last, id⟩ := dialling_learns (same ▸ waiting) (proper.lossless later)
      (by rw [same, ‹c.reader = _›, reader, polling]) spoken
    refine ⟨t, (runs.trans later).trans last, id.trans ?_⟩
    simp [Message.brings, newAck]


/-! ### When nothing brings the id any more -/

/-- The end speaks in no epoch, not even after a connect message. -/
structure Bxnzsdj.Faint (l : Bxnzsdj) : Prop where
  limit : l.lksdkwkq ≤ 2
  left : l.epochsLeft ≤ 2
  silent : l.tttbejw = false → l.epochsLeft ≤ 1

theorem ConnMove.faint {l l' : Bxnzsdj} {hears : Message → Prop} {out : List Message}
    (move : ConnMove hears l l' out) (asks : ∀ m, hears m → m.type = .connect) (h : l.Faint) :
    l'.Faint := by
  cases move with
  | marked | read | flush => exact ⟨h.limit, h.left, h.silent⟩
  | tick =>
    have limit : l.tyhdjska.lksdkwkq = l.lksdkwkq :=
      (congrArg Bxnzsdj.lksdkwkq (sayEpoch_unsent l.llehwkas) :)
    have less : l.tyhdjska.epochsLeft = l.epochsLeft - 1 := tyhdjska_epochsLeft l
    have left := h.left
    exact ⟨limit ▸ h.limit, by omega, fun _ => by omega⟩
  | write taken =>
    have same := gkxcls_unsent taken
    have limit : l'.lksdkwkq = l.lksdkwkq := (congrArg Bxnzsdj.lksdkwkq same :)
    have left : l'.epochsLeft = l.epochsLeft := (congrArg Bxnzsdj.epochsLeft same :)
    have flag : l'.tttbejw = l.tttbejw := by
      rw [(gkxcls_cases taken).2.2]
      exact ngkdlse_rule (P := fun l' => l'.tttbejw = l.tttbejw) (fun _ _ _ same _ => same) rfl
    exact ⟨limit ▸ h.limit, left ▸ h.left, by rw [flag, left]; exact h.silent⟩
  | hear comes taken =>
    simp only [Bxnzsdj.qtbejekw, asks _ comes, Option.some.injEq] at taken
    subst taken
    have limit := h.limit
    refine ⟨limit, ?_, fun silent => by cases silent⟩
    simp only [Bxnzsdj.epochsLeft, Bxnzsdj.bbjdkslwoorun]
    omega

/-- The id `iqu` has been given, and the client will never have it. -/
structure Deaf (isn iqu : Int) (here : Addr) (s : Handshake) : Prop where
  proper : s.Proper isn here
  positive : 0 < iqu
  made : iqu < s.server.jjeqqw
  other : s.client.fate isn ≠ iqu
  way : s.client.fate isn = 0 → ∀ m ∈ s.way .client, m.brings isn ≠ iqu
  faint : s.client.fate isn = 0 → ∀ conn, s.server.c.lookup iqu = some conn →
    conn.d = here ∧ (isn = 0 → conn.a.Faint)

/-- What goes out for the client does not bring the id. -/
theorem Deaf.server {a : ServerAction} {orders : Orders} {z : Zx} (h : Deaf isn iqu here s)
    (none : s.client.fate isn = 0) (stepped : orderedStep s.server (a, orders) = some z) :
    (∀ conn, z.c.lookup iqu = some conn → conn.d = here ∧ (isn = 0 → conn.a.Faint)) ∧
      ∃ new, z.sent = s.server.sent ++ new ∧
        ∀ entry ∈ new, entry.1 = here → entry.2.brings isn ≠ iqu := by
  have positive := h.positive
  have unknown : s.client.uygovtfegl.rdcppgudji = 0 := by
    by_contra known
    rw [Rtvbvojjbl.fate, if_neg known] at none
    exact known none
  have early := h.proper.early unknown
  have moves := (orderedStep_cases stepped).moves (h.proper.sound.brings fun d msg handing => handing)
  have kept := moves.keeps
    (I := fun j d l => l.rdcppgudji = j ∧ j ≠ 0 ∧
      (∀ m ∈ l.rfxtuoncvn, d = here → m.brings isn ≠ iqu) ∧
      (j = iqu → d = here ∧ (isn = 0 → l.Faint)))
    (O := fun d m => d = here → m.brings isn ≠ iqu) ?_ ?_ ?_
  · exact ⟨fun conn found => (kept.1 iqu conn found).2.2.2 rfl, kept.2⟩
  · rintro j d l l' out ⟨rfl, known, held, faint⟩ move
    have asks : d = here → ∀ m, s.server.reader = .handing d m → m.type = .connect := by
      rintro rfl
      exact early.handing
    obtain ⟨buffer, sends⟩ := move.buffer (P := fun m => d = here → m.brings isn ≠ iqu) known
      (fun number payload _ => by rw [brings_data rfl]; omega)
      (fun m comes data here => by rw [asks here m comes] at data; cases data)
      (fun silent left here => by
        simp only [Message.brings, newAck]
        split
        · rename_i zero
          intro same
          have := ((faint same).2 zero.2.symm).silent silent
          omega
        · omega) held
    refine ⟨⟨move.id known, known, buffer, fun same => ⟨(faint same).1, fun zero => ?_⟩⟩, sends⟩
    exact move.faint (asks (faint same).1) ((faint same).2 zero)
  · intro t d msg _ later
    have made := h.made
    refine ⟨rfl, by omega, ?_, fun same => by omega⟩
    simp only [nfkdlws, List.mem_singleton, forall_eq, Message.brings, newAck]
    intro _
    split <;> omega
  · intro j conn found
    obtain ⟨given, -, named⟩ := h.proper.sound.ids j conn found
    refine ⟨named, by omega, ?_, ?_⟩
    · simp [(h.proper.calm j conn found).1.flushed]
    · rintro rfl
      exact h.faint none conn found

theorem Deaf.step {a : HandshakeAction} (h : Deaf isn iqu here s)
    (taken : handshakeStep here s a = some t) : Deaf isn iqu here t := by
  have proper := h.proper.step taken
  cases handshakeStep_cases taken with
  | client a c way stepped comes under asks =>
    obtain ⟨other, earlier⟩ : c.fate isn ≠ iqu ∧ (c.fate isn = 0 → s.client.fate isn = 0) := by
      rcases fate_step h.proper.young.takes h.proper.young.start stepped with
        same | ⟨none, m, rfl, now⟩
      · exact ⟨same ▸ h.other, fun none => same ▸ none⟩
      · exact ⟨now ▸ h.way none m (comes m rfl), fun _ => none⟩
    exact ⟨proper, h.positive, h.made, other,
      fun none m member => h.way (earlier none) m (under m member), fun none => h.faint (earlier none)⟩
  | server a orders z way stepped comes under asks =>
    have later : s.server.jjeqqw ≤ z.jjeqqw := (orderedStep_cases stepped).edits.later.counter
    refine ⟨proper, h.positive, h.made.trans_le later, h.other, fun none m member => ?_,
      fun none => (h.server none stepped).1⟩
    obtain ⟨new, sent, brings⟩ := (h.server none stepped).2
    rcases under m member with old | sends
    · exact h.way none m old
    · rw [sent, List.drop_left] at sends
      exact brings _ sends rfl
  | way way fewer =>
    exact ⟨proper, h.positive, h.made, h.other, fun none m member => h.way none m (fewer _ m member),
      h.faint⟩

/-- Whatever happens, the client does not get the id. -/
theorem Deaf.never (h : Deaf isn iqu here s) {more : List HandshakeAction}
    (reached : run (handshakeStep here) s more = some t) : t.client.uygovtfegl.rdcppgudji ≠ iqu := by
  have last := run_keeps (Deaf isn iqu here) (fun _ _ _ h taken => h.step taken) h more reached
  intro id
  have positive := h.positive
  refine last.other ?_
  rw [Rtvbvojjbl.fate, if_neg (by omega), id]

theorem deaf_of_unanswerable (h : s.Proper isn here) (made : s.server.nemwea.lookup here = some iqu)
    (takes : s.server.Takes) (unanswerable : ¬ Answerable isn iqu s) : Deaf isn iqu here s := by
  obtain ⟨conn, found, address⟩ := (h.sound.inverse here iqu).mp made
  obtain ⟨positive, given, -⟩ := h.sound.ids iqu conn found
  refine ⟨h, by omega, given, fun fate => unanswerable (.inl fate), ?_, ?_⟩
  · exact fun none m under brings => unanswerable (.inr ⟨none, .inl ⟨m, under, brings⟩⟩)
  · intro none conn' found'
    cases Option.some.inj (found.symm.trans found')
    refine ⟨address, fun zero => ?_⟩
    have mute : ¬ (conn.a.tttbejw = false ∧ 2 ≤ conn.a.epochsLeft ∨ 3 ≤ conn.a.epochsLeft ∨
        3 ≤ conn.a.lksdkwkq ∧ s.server.Takes) :=
      fun speaks => unanswerable (.inr ⟨none, .inr ⟨zero, conn, found, speaks⟩⟩)
    simp only [takes, and_true, not_or, not_and, Nat.not_le, Int.not_le] at mute
    exact ⟨by omega, by omega, fun silent => by have := mute.1 silent; omega⟩

/-- A client that waits for its id and a server that has made its connection. Without a loss the client
gets the id in the end, by some order of events, if and only if the id is with the client's reader or
under way, or the first sequence number is 0 and the server will speak. -/
theorem handshake_completes (params : Side → Params) (isn : Int) (here : Addr)
    (acts : List HandshakeAction) (s : Handshake) (iqu : Int)
    (reached : run (handshakeStep here) (newHandshake params isn) acts = some s)
    (unknown : s.client.uygovtfegl.rdcppgudji = 0) (lives : s.client.uygovtfegl.jfkdl = false)
    (waits : .connected false ∉ s.client.answers)
    (made : s.server.nemwea.lookup here = some iqu) :
    (Answerable isn iqu s →
      ∃ t, Lossless here s t ∧ t.client.uygovtfegl.rdcppgudji = iqu) ∧
    (s.server.Takes → (∃ t, Lossless here s t ∧ t.client.uygovtfegl.rdcppgudji = iqu) →
      Answerable isn iqu s) := by
  have proper := proper_run reached
  have waiting : s.client.pztumoofep = true := by
    cases connected : s.client.pztumoofep with
    | true => rfl
    | false =>
      have id := proper.sane.id connected
      omega
  have opens : 0 < s.client.uygovtfegl.lksdkwkq := by
    have heard := proper.sane.heard
    have open_ := of_decide_eq_false lives
    omega
  constructor
  · intro answerable
    exact answerable.completes proper ⟨proper.young, proper.sane, proper.stops, waiting, unknown, opens,
      proper.young.dials waiting waits⟩ lives made
  · rintro takes ⟨t, ⟨more, -, later⟩, id⟩
    by_contra unanswerable
    exact (deaf_of_unanswerable proper made takes unanswerable).never later id

/-- The client's connect message has made a connection, and the acknowledgement is under way. -/
def greeting : List HandshakeAction :=
  List.replicate 4 (.client .step) ++
    [.arrives .server 0, .server .message ⟨[1], [1], [1], [1]⟩]

def fiveEpochs : Side → Params := fun _ => ⟨5, 1, 0, 1⟩

/-- The acknowledgement is lost. The first sequence number is 0, so the next sign of life brings the
id. -/
theorem lost_greeting_made_good : ∃ s t,
    run (handshakeStep 7) (newHandshake fiveEpochs 0) (greeting ++ [.lost .client 0]) = some s ∧
    s.way .client = [] ∧ s.server.nemwea.lookup 7 = some 1 ∧ Lossless 7 s t ∧
    t.client.uygovtfegl.rdcppgudji = 1 := by
  have reached : ∃ s, run (handshakeStep 7) (newHandshake fiveEpochs 0)
      (greeting ++ [.lost .client 0]) = some s ∧ s.way .client = [] ∧
      s.client.uygovtfegl.rdcppgudji = 0 ∧ s.client.uygovtfegl.jfkdl = false ∧
      .connected false ∉ s.client.answers ∧ s.server.nemwea.lookup 7 = some 1 ∧
      s.client.fate 0 = 0 ∧ s.server.WillSpeak 1 :=
    ⟨_, rfl, rfl, rfl, rfl, List.not_mem_nil, rfl, rfl, _, rfl, .inr (.inl (by decide))⟩
  obtain ⟨s, reached, empty, unknown, lives, waits, made, none, speaks⟩ := reached
  obtain ⟨t, lossless, id⟩ := (handshake_completes fiveEpochs 0 7 (greeting ++ [.lost .client 0]) s 1
    reached unknown lives waits made).1 (.inr ⟨none, .inr ⟨rfl, speaks⟩⟩)
  exact ⟨s, t, reached, empty, made, lossless, id⟩

/-- The first sequence number is 1 and the acknowledgement is lost. The server has made the connection
1 and keeps silent when the connect message comes again; whatever else is delivered and however many
epochs pass, the client does not get this id. -/
theorem lost_greeting_for_good : ∃ s,
    run (handshakeStep 7) (newHandshake fiveEpochs 1) (greeting ++ [.lost .client 0]) = some s ∧
    s.client.uygovtfegl.rdcppgudji = 0 ∧ s.client.uygovtfegl.jfkdl = false ∧
    .connected false ∉ s.client.answers ∧ s.server.nemwea.lookup 7 = some 1 ∧
    ∀ t, Lossless 7 s t → t.client.uygovtfegl.rdcppgudji ≠ 1 := by
  have reached : ∃ s, run (handshakeStep 7) (newHandshake fiveEpochs 1)
      (greeting ++ [.lost .client 0]) = some s ∧ s.client.uygovtfegl.rdcppgudji = 0 ∧
      s.client.uygovtfegl.jfkdl = false ∧ .connected false ∉ s.client.answers ∧
      s.server.nemwea.lookup 7 = some 1 ∧ s.way .client = [] ∧ s.client.fate 1 = 0 ∧
      s.server.Takes :=
    ⟨_, rfl, rfl, rfl, List.not_mem_nil, rfl, rfl, rfl, trivial⟩
  obtain ⟨s, reached, unknown, lives, waits, made, way, none, takes⟩ := reached
  refine ⟨s, reached, unknown, lives, waits, made, ?_⟩
  rintro t ⟨more, -, later⟩
  refine (deaf_of_unanswerable (proper_run reached) made takes ?_).never later
  simp [Answerable, none, way]

end DistSys.Lsp
