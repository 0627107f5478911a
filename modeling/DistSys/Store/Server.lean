import DistSys.Lib.Channels
import DistSys.Store.Requests

/-! The goroutines of the key-value server: `accept`, `mainRoutine`, a `readRoutine` and a
`writeRoutine` for every client, and the callers of `CountActive`, `CountDropped` and `Close`. -/
namespace DistSys.Store

open DistSys.Lib

/-! ### The goroutines -/

/-- The two channels that a count is asked and answered on. -/
inductive Counter
  | activeClient | droppedClientChan
  deriving DecidableEq, Repr

/-- A value on one of the unbuffered channels. -/
inductive Signal
  | connections (connection : Conn)
  | keyValueRequest (r : KvRequest)
  | count (counter : Counter) (n : Nat)
  | closeSignal
  deriving DecidableEq, Repr

inductive Accept
  | select
  | accepting
  | sending (connection : Conn)
  | returned
  deriving DecidableEq, Repr

/-- `range` is the loop over the values of a `Get`. A message is tested for room before it is
sent. -/
inductive MainRoutine
  | select
  | range (r : KvRequest) (result : List Bytes)
  | sending (r : KvRequest) (message : Bytes) (result : List Bytes)
  | answering (counter : Counter) (n : Nat)
  | returned
  deriving DecidableEq, Repr

inductive ReadRoutine
  | reading
  | sending (r : KvRequest)
  | returned
  deriving DecidableEq, Repr

/-- A client with its two goroutines. `writing` is the message that `writeRoutine` is about to write
to the connection, `written` what it has written. -/
structure Client where
  closed : Bool := false
  writeChan : List Bytes := []
  reader : ReadRoutine := .reading
  writing : Option Bytes := none
  written : List Bytes := []
  deriving DecidableEq, Repr

inductive Call
  | count (counter : Counter)
  | close
  deriving DecidableEq, Repr

def countActive : Call := .count .activeClient

def countDropped : Call := .count .droppedClientChan

/-- A goroutine that calls the server: it waits to send its question, waits for the answer, or has
returned. -/
inductive Caller
  | calling (call : Call)
  | waiting (counter : Counter)
  | counted (n : Nat)
  | closed
  deriving DecidableEq, Repr

/-- `client` has every client that was ever made, `clients` is the slice of the server. -/
structure KeyValueServer where
  store : Impl
  clients : List Conn := []
  droppedClient : Nat := 0
  accept : Accept := .select
  main : MainRoutine := .select
  client : Map Conn Client := ∅
  callers : Map Nat Caller := ∅
  panicked : Bool := false

inductive Goroutine
  | accept
  | main
  | reader (c : Conn)
  | caller (id : Nat)
  deriving DecidableEq, Repr

/-! ### The main routine -/

namespace KeyValueServer

def count (s : KeyValueServer) : Counter → Nat
  | .activeClient => s.clients.length
  | .droppedClientChan => s.droppedClient

/-- The connections are closed one after the other; `Close` fails on one that is closed already. -/
def closeAll : List Conn → Map Conn Client → Map Conn Client
  | [], client => client
  | c :: rest, client => match client.lookup c with
    | none => client
    | some cl =>
      if cl.closed then client else closeAll rest (client.insert c { cl with closed := true })

/-- The connection of a client that has gone is closed, and it is taken out of the slice. The
process panics if it is not found there. -/
def terminate (s : KeyValueServer) (currentClient : Conn) : KeyValueServer :=
  match s.clients.findIdx? (· == currentClient), s.client.lookup currentClient with
  | some indexOfClient, some cl =>
    { s with
      droppedClient := s.droppedClient + 1
      client := s.client.insert currentClient { cl with closed := true }
      clients := s.clients.eraseIdx indexOfClient }
  | _, _ => { s with droppedClient := s.droppedClient + 1, panicked := true }

def handle (s : KeyValueServer) (r : KvRequest) : KeyValueServer :=
  match r.requestType with
  | .put => { s with store := s.store.put r.key r.newValue }
  | .get => { s with main := .range r (s.store.get r.key) }
  | .delete => { s with store := s.store.delete r.key }
  | .update => { s with store := s.store.update r.key r.oldValue r.newValue }
  | .terminate => s.terminate r.currentClient

/-- The case of `mainRoutine` for the value that its `select` has received. -/
def select (s : KeyValueServer) : Signal → KeyValueServer
  | .closeSignal => { s with client := closeAll s.clients s.client, main := .returned }
  | .connections connection =>
    { s with clients := s.clients ++ [connection], client := s.client.insert connection {} }
  | .keyValueRequest r => s.handle r
  | .count counter _ => { s with main := .answering counter (s.count counter) }

def replyMessage (r : KvRequest) (v : Bytes) : Bytes := r.key ++ [colon] ++ v ++ [newline]

/-- The capacity of a `writeChan`. -/
def capacity : Nat := 500

/-- The loop of a `Get`. A message for a client whose buffer is full is dropped; a send to a full
buffer waits. -/
def reply (s : KeyValueServer) : Option KeyValueServer :=
  match s.main with
  | .range _ [] => some { s with main := .select }
  | .range r (v :: result) => do
    let cl ← s.client.lookup r.currentClient
    if cl.writeChan.length < capacity then
      return { s with main := .sending r (replyMessage r v) result }
    else
      return { s with main := .range r result }
  | .sending r message result => do
    let cl ← s.client.lookup r.currentClient
    if cl.writeChan.length < capacity then
      return { s with
        main := .range r result
        client := s.client.insert r.currentClient
          { cl with writeChan := cl.writeChan ++ [message] } }
    else
      none
  | .select | .answering _ _ | .returned => none

end KeyValueServer

/-! ### Who meets whom -/

def Accept.offers : Accept → Option Signal
  | .sending connection => some (.connections connection)
  | .select | .accepting | .returned => none

def MainRoutine.offers : MainRoutine → Option Signal
  | .answering counter n => some (.count counter n)
  | .select | .range _ _ | .sending _ _ _ | .returned => none

def ReadRoutine.offers : ReadRoutine → Option Signal
  | .sending r => some (.keyValueRequest r)
  | .reading | .returned => none

/-- `readRoutine` returns after it has said that its client is gone. -/
def ReadRoutine.sent : ReadRoutine → ReadRoutine
  | .sending r => if r.requestType = .terminate then .returned else .reading
  | .reading => .reading
  | .returned => .returned

/-- A question is the number 1 on the channel of the answer. -/
def Call.signal : Call → Signal
  | .count counter => .count counter 1
  | .close => .closeSignal

def Call.sent : Call → Caller
  | .count counter => .waiting counter
  | .close => .closed

def Caller.offers : Caller → Option Signal
  | .calling call => some call.signal
  | .waiting _ | .counted _ | .closed => none

def Caller.sent : Caller → Caller
  | .calling call => call.sent
  | .waiting counter => .waiting counter
  | .counted n => .counted n
  | .closed => .closed

namespace KeyValueServer

def offers (s : KeyValueServer) : Goroutine → Option Signal
  | .accept => s.accept.offers
  | .main => s.main.offers
  | .reader c => (s.client.lookup c).bind fun cl => cl.reader.offers
  | .caller id => (s.callers.lookup id).bind Caller.offers

def sent (s : KeyValueServer) : Goroutine → KeyValueServer
  | .accept => { s with accept := .select }
  | .main => { s with main := .select }
  | .reader c => match s.client.lookup c with
    | some cl => { s with client := s.client.insert c { cl with reader := cl.reader.sent } }
    | none => s
  | .caller id => match s.callers.lookup id with
    | some caller => { s with callers := s.callers.insert id caller.sent }
    | none => s

/-- `mainRoutine` receives on every channel, `accept` looks for the close signal, and a caller that
waits for its count receives whatever is sent on that channel. -/
def receives (s : KeyValueServer) : Goroutine → Signal → Option KeyValueServer
  | .main, signal => if s.main = .select then some (s.select signal) else none
  | .accept, .closeSignal =>
    if s.accept = .select then some { s with accept := .returned } else none
  | .caller id, .count counter n =>
    if s.callers.lookup id = some (.waiting counter) then
      some { s with callers := s.callers.insert id (.counted n) }
    else none
  | _, _ => none

def channels : Rendezvous Goroutine Signal KeyValueServer := ⟨offers, sent, receives⟩

/-- Somebody waits to send the close signal. -/
def closing (s : KeyValueServer) : Bool :=
  s.callers.entries.any fun entry => entry.2 = .calling .close

end KeyValueServer

/-! ### Steps -/

/-- `line` and `readFails` are what `ReadBytes` returns, `accepted` and `acceptFails` what `Accept`
returns. `poll` is the default case of `accept`, and `takes` and `wrote` are `writeRoutine`. -/
inductive Action
  | call (id : Nat) (call : Call)
  | poll
  | accepted (connection : Conn)
  | acceptFails
  | line (c : Conn) (text : Bytes)
  | readFails (c : Conn)
  | reply
  | takes (c : Conn)
  | wrote (c : Conn)
  | meet (sender receiver : Goroutine)
  deriving DecidableEq

open KeyValueServer in
/-- One step of one goroutine, or of two that meet. The default case of `accept` is for when no
close signal is waiting. -/
def step (s : KeyValueServer) (a : Action) : Option KeyValueServer :=
  if s.panicked then none else
  match a with
  | .call id call =>
    if id ∈ s.callers then none
    else some { s with callers := s.callers.insert id (.calling call) }
  | .poll =>
    if s.accept = .select ∧ s.closing = false then some { s with accept := .accepting } else none
  | .accepted connection =>
    if s.accept = .accepting ∧ connection ∉ s.client then
      some { s with accept := .sending connection }
    else none
  | .acceptFails =>
    if s.accept = .accepting then some { s with accept := .returned } else none
  | .line c text => do
    let cl ← s.client.lookup c
    if cl.reader = .reading ∧ newline ∉ text then
      match parseRequest c (text ++ [newline]) with
      | none => some { s with panicked := true }
      | some none => some s
      | some (some r) =>
        some { s with client := s.client.insert c { cl with reader := .sending r } }
    else none
  | .readFails c => do
    let cl ← s.client.lookup c
    if cl.reader = .reading then
      let r : KvRequest := { currentClient := c, requestType := .terminate }
      some { s with client := s.client.insert c { cl with reader := .sending r } }
    else none
  | .reply => s.reply
  | .takes c => do
    let cl ← s.client.lookup c
    match cl.writing, cl.writeChan with
    | none, message :: rest =>
      some { s with
        client := s.client.insert c { cl with writing := some message, writeChan := rest } }
    | _, _ => none
  | .wrote c => do
    let cl ← s.client.lookup c
    let message ← cl.writing
    some { s with
      client := s.client.insert c
        { cl with writing := none, written := cl.written ++ [message] } }
  | .meet sender receiver => channels.meet s sender receiver

/-- The server after `Start`. -/
def start (store : Impl) : KeyValueServer := { store := store }

/-! ### What a step can do -/

/-- One step. The state of every goroutine that takes part is given before and after it. -/
inductive Move (s : KeyValueServer) : Action → KeyValueServer → Prop
  | called {id call} (fresh : id ∉ s.callers) :
      Move s (.call id call) { s with callers := s.callers.insert id (.calling call) }
  | polled (here : s.accept = .select) (idle : s.closing = false) :
      Move s .poll { s with accept := .accepting }
  | accepted {connection} (here : s.accept = .accepting) (fresh : connection ∉ s.client) :
      Move s (.accepted connection) { s with accept := .sending connection }
  | failed (here : s.accept = .accepting) : Move s .acceptFails { s with accept := .returned }
  | panics {c text} : Move s (.line c text) { s with panicked := true }
  | ignored {c text} : Move s (.line c text) s
  | requested {c text cl r} (found : s.client.lookup c = some cl) (here : cl.reader = .reading)
      (own : r.currentClient = c) (lives : r.requestType ≠ .terminate) :
      Move s (.line c text)
        { s with client := s.client.insert c { cl with reader := .sending r } }
  | lost {c cl r} (found : s.client.lookup c = some cl) (here : cl.reader = .reading)
      (own : r.currentClient = c) (gone : r.requestType = .terminate) :
      Move s (.readFails c)
        { s with client := s.client.insert c { cl with reader := .sending r } }
  | replied {r} (here : s.main = .range r []) : Move s .reply { s with main := .select }
  | tested {r v result cl} (here : s.main = .range r (v :: result))
      (found : s.client.lookup r.currentClient = some cl)
      (room : cl.writeChan.length < KeyValueServer.capacity) :
      Move s .reply { s with main := .sending r (KeyValueServer.replyMessage r v) result }
  | dropped {r v result cl} (here : s.main = .range r (v :: result))
      (found : s.client.lookup r.currentClient = some cl)
      (full : ¬ cl.writeChan.length < KeyValueServer.capacity) :
      Move s .reply { s with main := .range r result }
  | pushed {r message result cl} (here : s.main = .sending r message result)
      (found : s.client.lookup r.currentClient = some cl)
      (room : cl.writeChan.length < KeyValueServer.capacity) :
      Move s .reply
        { s with
          main := .range r result
          client := s.client.insert r.currentClient
            { cl with writeChan := cl.writeChan ++ [message] } }
  | took {c cl message rest} (found : s.client.lookup c = some cl) (free : cl.writing = none)
      (buffered : cl.writeChan = message :: rest) :
      Move s (.takes c)
        { s with
          client := s.client.insert c { cl with writing := some message, writeChan := rest } }
  | wrote {c cl message} (found : s.client.lookup c = some cl) (busy : cl.writing = some message) :
      Move s (.wrote c)
        { s with
          client := s.client.insert c
            { cl with writing := none, written := cl.written ++ [message] } }
  | asked {id counter} (calls : s.callers.lookup id = some (.calling (.count counter)))
      (here : s.main = .select) :
      Move s (.meet (.caller id) .main)
        { s with
          main := .answering counter (s.count counter)
          callers := s.callers.insert id (.waiting counter) }
  | crossed {id d counter} (two : id ≠ d)
      (calls : s.callers.lookup id = some (.calling (.count counter)))
      (waits : s.callers.lookup d = some (.waiting counter)) :
      Move s (.meet (.caller id) (.caller d))
        { s with callers := (s.callers.insert id (.waiting counter)).insert d (.counted 1) }
  | answered {id counter n} (here : s.main = .answering counter n)
      (waits : s.callers.lookup id = some (.waiting counter)) :
      Move s (.meet .main (.caller id))
        { s with main := .select, callers := s.callers.insert id (.counted n) }
  | heard {id} (calls : s.callers.lookup id = some (.calling .close)) (here : s.main = .select) :
      Move s (.meet (.caller id) .main)
        { s with
          main := .returned
          client := KeyValueServer.closeAll s.clients s.client
          callers := s.callers.insert id .closed }
  | misheard {id} (calls : s.callers.lookup id = some (.calling .close))
      (here : s.accept = .select) :
      Move s (.meet (.caller id) .accept)
        { s with accept := .returned, callers := s.callers.insert id .closed }
  | registered {connection} (sends : s.accept = .sending connection) (here : s.main = .select) :
      Move s (.meet .accept .main)
        { s with
          accept := .select
          clients := s.clients ++ [connection]
          client := s.client.insert connection {} }
  | handled {c cl r} (found : s.client.lookup c = some cl) (sends : cl.reader = .sending r)
      (here : s.main = .select) :
      Move s (.meet (.reader c) .main)
        (KeyValueServer.handle
          { s with client := s.client.insert c { cl with reader := cl.reader.sent } } r)

variable {s s' : KeyValueServer} {a : Action} {c : Conn}

theorem reply_cases (taken : s.reply = some s') : Move s .reply s' := by
  unfold KeyValueServer.reply at taken
  cases here : s.main with
  | select | answering counter n | returned => simp [here] at taken
  | range r result =>
    cases result with
    | nil =>
      simp only [here, Option.some.injEq] at taken
      subst taken
      exact .replied here
    | cons v result =>
      simp only [here, Option.bind_eq_bind, Option.bind_eq_some_iff, Option.pure_def] at taken
      obtain ⟨cl, found, taken⟩ := taken
      split at taken
      · rename_i room
        cases Option.some.inj taken
        exact .tested here found room
      · rename_i full
        cases Option.some.inj taken
        exact .dropped here found full
  | sending r message result =>
    simp only [here, Option.bind_eq_bind, Option.bind_eq_some_iff, Option.pure_def,
      Option.ite_none_right_eq_some, Option.some.injEq] at taken
    obtain ⟨cl, found, room, rfl⟩ := taken
    exact .pushed here found room

theorem line_cases {text : Bytes} (taken : step s (.line c text) = some s') :
    Move s (.line c text) s' := by
  simp only [step, Option.ite_none_left_eq_some, Option.bind_eq_bind, Option.bind_eq_some_iff,
    Option.ite_none_right_eq_some] at taken
  obtain ⟨_, cl, found, ⟨here, _⟩, taken⟩ := taken
  cases parsed : parseRequest c (text ++ [newline]) with
  | none =>
    simp only [parsed, Option.some.injEq] at taken
    subst taken
    exact .panics
  | some made =>
    cases made with
    | none =>
      simp only [parsed, Option.some.injEq] at taken
      subst taken
      exact .ignored
    | some r =>
      simp only [parsed, Option.some.injEq] at taken
      subst taken
      have own := parseRequest_client parsed
      exact .requested found here own.1 own.2

/-- What the sender of a signal waits for. -/
theorem offers_cases {g : Goroutine} {signal : Signal} (offered : s.offers g = some signal) :
    (∃ connection, g = .accept ∧ s.accept = .sending connection ∧
      signal = .connections connection) ∨
    (∃ counter n, g = .main ∧ s.main = .answering counter n ∧ signal = .count counter n) ∨
    (∃ c cl r, g = .reader c ∧ s.client.lookup c = some cl ∧ cl.reader = .sending r ∧
      signal = .keyValueRequest r) ∨
    ∃ id call, g = .caller id ∧ s.callers.lookup id = some (.calling call) ∧
      signal = call.signal := by
  cases g with
  | accept =>
    cases here : s.accept with
    | sending connection =>
      simp only [KeyValueServer.offers, here, Accept.offers, Option.some.injEq] at offered
      exact .inl ⟨connection, rfl, rfl, offered.symm⟩
    | select | accepting | returned => simp [KeyValueServer.offers, here, Accept.offers] at offered
  | main =>
    cases here : s.main with
    | answering counter n =>
      simp only [KeyValueServer.offers, here, MainRoutine.offers, Option.some.injEq] at offered
      exact .inr (.inl ⟨counter, n, rfl, rfl, offered.symm⟩)
    | select | range | sending | returned =>
      simp [KeyValueServer.offers, here, MainRoutine.offers] at offered
  | reader c =>
    simp only [KeyValueServer.offers, Option.bind_eq_some_iff] at offered
    obtain ⟨cl, found, offered⟩ := offered
    cases here : cl.reader with
    | sending r =>
      simp only [here, ReadRoutine.offers, Option.some.injEq] at offered
      exact .inr (.inr (.inl ⟨c, cl, r, rfl, found, here, offered.symm⟩))
    | reading | returned => simp [here, ReadRoutine.offers] at offered
  | caller id =>
    simp only [KeyValueServer.offers, Option.bind_eq_some_iff] at offered
    obtain ⟨caller, found, offered⟩ := offered
    cases caller with
    | calling call =>
      simp only [Caller.offers, Option.some.injEq] at offered
      exact .inr (.inr (.inr ⟨id, call, rfl, found, offered.symm⟩))
    | waiting counter | counted n | closed => simp [Caller.offers] at offered

/-- Who can receive the signal. -/
theorem receives_cases {g : Goroutine} {signal : Signal} (received : s.receives g signal = some s') :
    (g = .main ∧ s.main = .select ∧ s' = s.select signal) ∨
    (g = .accept ∧ signal = .closeSignal ∧ s.accept = .select ∧
      s' = { s with accept := .returned }) ∨
    ∃ d counter n, g = .caller d ∧ signal = .count counter n ∧
      s.callers.lookup d = some (.waiting counter) ∧
      s' = { s with callers := s.callers.insert d (.counted n) } := by
  unfold KeyValueServer.receives at received
  split at received
  · simp only [Option.ite_none_right_eq_some, Option.some.injEq] at received
    exact .inl ⟨rfl, received.1, received.2.symm⟩
  · simp only [Option.ite_none_right_eq_some, Option.some.injEq] at received
    exact .inr (.inl ⟨rfl, rfl, received.1, received.2.symm⟩)
  · simp only [Option.ite_none_right_eq_some, Option.some.injEq] at received
    exact .inr (.inr ⟨_, _, _, rfl, rfl, received.1, received.2.symm⟩)
  · contradiction

theorem meet_moves {sender receiver : Goroutine}
    (met : KeyValueServer.channels.meet s sender receiver = some s') :
    Move s (.meet sender receiver) s' := by
  obtain ⟨two, signal, offered, received⟩ := Rendezvous.meet_cases met
  have receiver := receives_cases received
  rcases offers_cases offered with ⟨connection, rfl, sends, rfl⟩ | ⟨counter, n, rfl, sends, rfl⟩ |
    ⟨c, cl, r, rfl, found, sends, rfl⟩ | ⟨id, call, rfl, calls, rfl⟩
  · rcases receiver with ⟨rfl, here, rfl⟩ | ⟨_, other, _⟩ | ⟨_, _, _, _, other, _⟩
    · exact .registered sends here
    · cases other
    · cases other
  · rcases receiver with ⟨rfl, _⟩ | ⟨_, other, _⟩ | ⟨id, _, _, rfl, same, waits, rfl⟩
    · exact absurd rfl two
    · cases other
    · cases same
      exact .answered sends waits
  · rcases receiver with ⟨rfl, here, rfl⟩ | ⟨_, other, _⟩ | ⟨_, _, _, _, other, _⟩
    · simp only [KeyValueServer.channels, KeyValueServer.sent, found] at here ⊢
      exact .handled found sends here
    · cases other
    · cases other
  · have after : KeyValueServer.channels.sent s (.caller id) =
        { s with callers := s.callers.insert id call.sent } := by
      simp [KeyValueServer.channels, KeyValueServer.sent, calls, Caller.sent]
    rw [after] at receiver
    cases call with
    | count counter =>
      rcases receiver with ⟨rfl, here, rfl⟩ | ⟨_, other, _⟩ | ⟨d, _, _, rfl, same, waits, rfl⟩
      · exact .asked calls here
      · cases other
      · cases same
        have apart : id ≠ d := fun same => two (congrArg Goroutine.caller same)
        rw [Map.lookup_insert, if_neg (Ne.symm apart)] at waits
        exact .crossed apart calls waits
    | close =>
      rcases receiver with ⟨rfl, here, rfl⟩ | ⟨rfl, _, here, rfl⟩ | ⟨_, _, _, _, other, _⟩
      · exact .heard calls here
      · exact .misheard calls here
      · cases other

theorem step_cases (taken : step s a = some s') : Move s a s' := by
  cases a with
  | call id call =>
    simp only [step, Option.ite_none_left_eq_some, Option.some.injEq] at taken
    obtain ⟨_, fresh, rfl⟩ := taken
    exact .called fresh
  | poll =>
    simp only [step, Option.ite_none_left_eq_some, Option.ite_none_right_eq_some,
      Option.some.injEq] at taken
    obtain ⟨_, ⟨here, idle⟩, rfl⟩ := taken
    exact .polled here idle
  | accepted connection =>
    simp only [step, Option.ite_none_left_eq_some, Option.ite_none_right_eq_some,
      Option.some.injEq] at taken
    obtain ⟨_, ⟨here, fresh⟩, rfl⟩ := taken
    exact .accepted here fresh
  | acceptFails =>
    simp only [step, Option.ite_none_left_eq_some, Option.ite_none_right_eq_some,
      Option.some.injEq] at taken
    obtain ⟨_, here, rfl⟩ := taken
    exact .failed here
  | line c text => exact line_cases taken
  | readFails c =>
    simp only [step, Option.ite_none_left_eq_some, Option.bind_eq_bind, Option.bind_eq_some_iff,
      Option.ite_none_right_eq_some, Option.some.injEq] at taken
    obtain ⟨_, cl, found, here, rfl⟩ := taken
    exact .lost found here rfl rfl
  | reply =>
    simp only [step, Option.ite_none_left_eq_some] at taken
    exact reply_cases taken.2
  | takes c =>
    simp only [step, Option.ite_none_left_eq_some, Option.bind_eq_bind,
      Option.bind_eq_some_iff] at taken
    obtain ⟨_, cl, found, taken⟩ := taken
    split at taken
    · rename_i free buffered
      cases Option.some.inj taken
      exact .took found free buffered
    · contradiction
  | wrote c =>
    simp only [step, Option.ite_none_left_eq_some, Option.bind_eq_bind,
      Option.bind_eq_some_iff, Option.some.injEq] at taken
    obtain ⟨_, cl, found, message, busy, rfl⟩ := taken
    exact .wrote found busy
  | meet sender receiver =>
    simp only [step, Option.ite_none_left_eq_some] at taken
    exact meet_moves taken.2

end DistSys.Store
