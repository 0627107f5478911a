import DistSys.Lsp.Frames
import DistSys.Lsp.Refine

/-! The server: its main loop `qb` with a table of connections, and its socket reader `qz`.
Only the main loop touches the endpoints, so one turn of the loop is one step; the reader
meets it at the channels `meqoq` and `pppo`. A `range` over a map visits the keys in the order
in which the map has them. -/
namespace DistSys.Lsp

open Function (update)
open DistSys.Lib

/-- An address is its text in the source; only equality of addresses is used. -/
abbrev Addr := Nat

structure Zqqx where
  /-- the endpoint -/
  a : Bxnzsdj
  /-- the address of the client -/
  d : Addr
  /-- its loss was reported -/
  b : Bool
  /-- it is to be closed -/
  c : Bool

/-- What `Read` returns; `pv` is whether it is an error. -/
structure Oppoqiet where
  iqu : Int
  a : Payload
  pv : Bool
  deriving DecidableEq, Repr

inductive ServerAnswer where
  | read (result : Oppoqiet)
  | wrote (iqu : Int) (ok : Bool)
  | closedConn (iqu : Int) (ok : Bool)
  | closed (ok : Bool)
  deriving DecidableEq, Repr

/-- Where the main loop stands. -/
inductive ServerPc where
  | select
  /-- in `ini`: the socket is closed and the reader is asked to stop -/
  | ini
  | returned
  /-- at a channel that nobody will ever take from -/
  | blocked
  deriving DecidableEq, Repr

inductive ServerReader where
  | polling
  | handing (d : Addr) (msg : Message)
  | returned
  deriving DecidableEq, Repr

/-- The last four fields are a record: what was sent to which address, what was accepted for
writing and taken out of the endpoint for each connection, and what was answered. -/
structure Zx where
  jjeqqw : Int
  c : Map Int Zqqx
  nemwea : Map Addr Int
  cz : Params
  neowem : Bool
  ytiqeqe : Bool
  moocow : Bool
  vorbpe : List Oppoqiet
  main : ServerPc
  reader : ServerReader
  sent : List (Addr × Message)
  wrote : Int → List Payload
  taken : Int → List Payload
  answers : List ServerAnswer

def newServer (params : Params) : Zx where
  jjeqqw := 1
  c := ∅
  nemwea := ∅
  cz := params
  neowem := false
  ytiqeqe := false
  moocow := false
  vorbpe := []
  main := .select
  reader := .polling
  sent := []
  wrote := fun _ => []
  taken := fun _ => []
  answers := []

namespace Zx

def answer (s : Zx) (a : ServerAnswer) : Zx := { s with answers := s.answers ++ [a] }

/-- The endpoint of a connection has become `a`, with what went in, out and to the socket. -/
def moveConn (s : Zx) (iqu : Int) (conn : Zqqx) (a : Bxnzsdj) (wrote taken : List Payload)
    (sent : List Message) : Zx :=
  { s with
    c := s.c.insert iqu { conn with a := a }
    wrote := update s.wrote iqu (s.wrote iqu ++ wrote)
    taken := update s.taken iqu (s.taken iqu ++ taken)
    sent := s.sent ++ sent.map fun m => (conn.d, m) }

/-- A `range` over the table that comes to the keys in this order. -/
def rangeIn (f : Zx → Int → Zqqx → Option Zx) (order : List Int) (s : Zx) : Option Zx :=
  order.foldlM (fun s iqu => match s.c.lookup iqu with
    | some conn => f s iqu conn
    | none => some s) s

/-- A `range` over the table. -/
def eachConn (f : Zx → Int → Zqqx → Option Zx) (s : Zx) : Option Zx := s.rangeIn f s.c.keys

/-! ### The branches of the `select` -/

def emuConn (s : Zx) (iqu : Int) (conn : Zqqx) : Option Zx :=
  some (s.moveConn iqu conn conn.a.tyhdjska [] [] [])

def emu (s : Zx) : Option Zx := s.eachConn emuConn

def qck (s : Zx) (iqu : Int) (payload : Payload) : Option Zx :=
  if s.neowem then some (s.answer (.wrote iqu false))
  else match s.c.lookup iqu with
    | none => some (s.answer (.wrote iqu false))
    | some conn =>
      if conn.a.jfkdl then some (s.answer (.wrote iqu false))
      else if conn.c then some (s.answer (.wrote iqu false))
      else do
        let written ← conn.a.gkxcls payload
        some ((s.moveConn iqu conn written [payload] [] []).answer (.wrote iqu true))

/-- The read request that waits gets the first result. -/
def hvi (s : Zx) : Zx :=
  if ¬ s.moocow then s
  else match s.vorbpe with
    | [] => s
    | readResult :: rest =>
      { s with vorbpe := rest, moocow := false }.answer (.read readResult)

def mxp (s : Zx) : Zx :=
  if s.neowem then s.answer (.read ⟨0, [], true⟩) else { s with moocow := true }.hvi

/-- A lost connection gets two answers, and nobody takes the second one. -/
def qzc (s : Zx) (iqu : Int) : Zx :=
  match s.c.lookup iqu with
  | none => s.answer (.closedConn iqu false)
  | some conn =>
    if conn.c then s.answer (.closedConn iqu false)
    else
      let closing := { s with c := s.c.insert iqu { conn with c := true } }
      if conn.a.jfkdl then { closing.answer (.closedConn iqu false) with main := .blocked }
      else closing.answer (.closedConn iqu true)

/-- The connection that a connect message makes. -/
def greet (s : Zx) (d : Addr) (msg : Message) : Zx :=
  { s with
    c := s.c.insert s.jjeqqw ⟨nfkdlws msg.seqNum s.cz s.jjeqqw, d, false, false⟩
    nemwea := s.nemwea.insert d s.jjeqqw
    jjeqqw := s.jjeqqw + 1 }

/-- A message goes to the connection of its address; a connect message from a new address makes
one. A connection that the address table names and the table lacks is a nil pointer. -/
def qip (s : Zx) (d : Addr) (msg : Message) : Option Zx :=
  match s.nemwea.lookup d with
  | some iqu => match s.c.lookup iqu with
    | none => none
    | some conn => do
      let handled ← conn.a.bbjdkslwoorun.qtbejekw msg
      some (s.moveConn iqu conn handled [] [] [])
  | none =>
    if s.neowem then some s
    else if msg.type = .connect then some (s.greet d msg)
    else some s

def mmieqConn (s : Zx) (iqu : Int) (conn : Zqqx) : Option Zx :=
  some { s with c := s.c.insert iqu { conn with c := true } }

def mmieq (s : Zx) : Option Zx := { s with neowem := true }.eachConn mmieqConn

/-! ### The rest of a turn -/

/-- All that an endpoint has for its reader. -/
def readAll : Nat → Bxnzsdj → Option (List Payload × Bxnzsdj)
  | 0, l => some ([], l)
  | fuel + 1, l =>
    if l.rkdlxleik then do
      let (payload, rest) ← l.odkejnfsa
      let (payloads, last) ← readAll fuel rest
      some (payload :: payloads, last)
    else some ([], l)

def qieeConn (s : Zx) (iqu : Int) (conn : Zqqx) : Option Zx := do
  let (payloads, rest) ← readAll conn.a.asdfghj.length conn.a
  let moved := s.moveConn iqu conn rest [] payloads []
  some { moved with vorbpe := moved.vorbpe ++ payloads.map fun payload => ⟨iqu, payload, false⟩ }

def qiee (s : Zx) : Option Zx := s.eachConn qieeConn

def hgiConn (s : Zx) (iqu : Int) (conn : Zqqx) : Option Zx :=
  some (s.moveConn iqu conn conn.a.bnmgrlr.2 [] [] conn.a.bnmgrlr.1)

def hgi (s : Zx) : Option Zx := s.eachConn hgiConn

/-- The loss of a connection is reported once. -/
def report (s : Zx) (iqu : Int) (conn : Zqqx) : Zx :=
  if ¬ conn.b ∧ conn.a.jfkdl then
    { s with
      c := s.c.insert iqu { conn with b := true }
      vorbpe := s.vorbpe ++ [⟨iqu, [], true⟩] }
  else s

/-- The visit of `ngb`: a lost connection is removed, and a closed one when it has nothing left
to send. -/
def ngbConn (s : Zx) (iqu : Int) (conn : Zqqx) : Zx :=
  let reported := s.report iqu conn
  let marked := if conn.a.jfkdl ∧ reported.neowem then { reported with ytiqeqe := true }
    else reported
  if (conn.c ∧ conn.a.agabsdjgdfj) ∨ conn.a.jfkdl then
    { marked with c := marked.c.erase iqu, nemwea := marked.nemwea.erase conn.d }
  else marked

def ngb (s : Zx) : Option Zx := s.eachConn fun s iqu conn => some (s.ngbConn iqu conn)

/-- The turn ends with `ini` and `hvi`; `ini` waits for the reader when the server is done. -/
def finishTurn (s : Zx) : Zx :=
  if s.neowem ∧ Map.size s.c = 0 then
    { s with vorbpe := s.vorbpe ++ [⟨0, [], true⟩], main := .ini }
  else s.hvi

def turn (s : Zx) : Option Zx := do
  let read ← s.qiee
  let flushed ← read.hgi
  let cleaned ← flushed.ngb
  some cleaned.finishTurn

end Zx

inductive ServerAction where
  | read
  | write (iqu : Int) (payload : Payload)
  | close
  | closeConn (iqu : Int)
  | tick
  /-- the main loop takes the reader's message -/
  | message
  /-- the reader gets a datagram out of the socket -/
  | datagram (d : Addr) (msg : Message)
  /-- the reader takes the request to stop -/
  | stop
  deriving DecidableEq, Repr

/-- The branch of the `select`. -/
def serverEvent (s : Zx) : ServerAction → Option Zx
  | .read => some s.mxp
  | .write iqu payload => s.qck iqu payload
  | .close => s.mmieq
  | .closeConn iqu => some (s.qzc iqu)
  | .tick => s.emu
  | .message => match s.reader with
    | .handing d msg => (s.qip d msg).map fun s => { s with reader := .polling }
    | _ => none
  | .datagram _ _ | .stop => none

/-- `none` also stands for a panic. -/
def serverStep (s : Zx) : ServerAction → Option Zx
  | .datagram d msg =>
    if s.reader = .polling ∧ s.main ≠ .ini ∧ s.main ≠ .returned then match ciqlyoibuh msg with
      | none => none
      | some none => some s
      | some (some msg) => some { s with reader := .handing d msg }
    else none
  | .stop =>
    if s.main = .ini ∧ s.reader = .polling then
      some { (s.answer (.closed !s.ytiqeqe)).hvi with main := .returned, reader := .returned }
    else none
  | event => if s.main = .select then do
      let handled ← serverEvent s event
      if handled.main = .blocked then some handled else handled.turn
    else none

variable {s s' : Zx} {f : Zx → Int → Zqqx → Option Zx}

/-- The reader gets a datagram, the reader is stopped, or the main loop makes a turn. -/
inductive ServerStep (s : Zx) : ServerAction → Zx → Prop where
  | dropped (d : Addr) (msg : Message) : ServerStep s (.datagram d msg) s
  | datagram (d : Addr) (msg msg' : Message) (runs : s.main ≠ .ini ∧ s.main ≠ .returned)
      (passes : ciqlyoibuh msg = some (some msg')) :
      ServerStep s (.datagram d msg) { s with reader := .handing d msg' }
  | stop (waits : s.main = .ini) : ServerStep s .stop
      { (s.answer (.closed !s.ytiqeqe)).hvi with main := .returned, reader := .returned }
  | blocked (a : ServerAction) (handled : Zx) (select : s.main = .select)
      (event : serverEvent s a = some handled) (stuck : handled.main = .blocked) :
      ServerStep s a handled
  | turn (a : ServerAction) (handled s' : Zx) (select : s.main = .select)
      (event : serverEvent s a = some handled) (free : handled.main ≠ .blocked)
      (turned : handled.turn = some s') : ServerStep s a s'

theorem serverStep_cases {a : ServerAction} (taken : serverStep s a = some s') :
    ServerStep s a s' := by
  unfold serverStep at taken
  split at taken
  · split at taken
    · rename_i ready
      split at taken
      · contradiction
      · cases Option.some.inj taken
        exact .dropped _ _
      · rename_i passes
        cases Option.some.inj taken
        exact .datagram _ _ _ ready.2 passes
    · contradiction
  · split at taken
    · rename_i ready
      cases Option.some.inj taken
      exact .stop ready.1
    · contradiction
  · split at taken
    · rename_i select
      simp only [Option.bind_eq_bind, Option.bind_eq_some_iff] at taken
      obtain ⟨handled, event, taken⟩ := taken
      split at taken
      · rename_i stuck
        cases Option.some.inj taken
        exact .blocked _ _ select event stuck
      · rename_i free
        exact .turn _ _ _ select event free taken
    · contradiction

/-! ### What each branch can do -/

/-- A waiting read request is answered with the first result, or nothing happens. -/
inductive HviStep (s : Zx) : Zx → Prop where
  | waits : HviStep s s
  | handed (result : Oppoqiet) (rest : List Oppoqiet) (ready : s.vorbpe = result :: rest) :
      HviStep s ({ s with vorbpe := rest, moocow := false }.answer (.read result))

theorem hvi_cases (s : Zx) : HviStep s s.hvi := by
  unfold Zx.hvi
  split
  · exact .waits
  split
  · exact .waits
  · rename_i result rest ready
    exact .handed result rest ready

/-- A write is refused, or its payload goes to the endpoint. -/
inductive QckStep (s : Zx) (iqu : Int) (payload : Payload) : Zx → Prop where
  | refused : QckStep s iqu payload (s.answer (.wrote iqu false))
  | written (conn : Zqqx) (a : Bxnzsdj) (found : s.c.lookup iqu = some conn)
      (writes : conn.a.gkxcls payload = some a) :
      QckStep s iqu payload ((s.moveConn iqu conn a [payload] [] []).answer (.wrote iqu true))

theorem qck_cases {iqu : Int} {payload : Payload} (taken : s.qck iqu payload = some s') :
    QckStep s iqu payload s' := by
  unfold Zx.qck at taken
  split at taken
  · cases Option.some.inj taken
    exact .refused
  split at taken
  · cases Option.some.inj taken
    exact .refused
  rename_i conn found
  split at taken
  · cases Option.some.inj taken
    exact .refused
  split at taken
  · cases Option.some.inj taken
    exact .refused
  simp only [Option.bind_eq_bind, Option.bind_eq_some_iff] at taken
  obtain ⟨written, writes, result⟩ := taken
  cases Option.some.inj result
  exact .written conn written found writes

/-- The connection is marked, and a lost one leaves the main loop at its second answer. -/
inductive QzcStep (s : Zx) (iqu : Int) : Zx → Prop where
  | refused : QzcStep s iqu (s.answer (.closedConn iqu false))
  | stuck (conn : Zqqx) (found : s.c.lookup iqu = some conn) (lost : conn.a.jfkdl = true) :
      QzcStep s iqu { { s with c := s.c.insert iqu { conn with c := true } }.answer
        (.closedConn iqu false) with main := .blocked }
  | closing (conn : Zqqx) (found : s.c.lookup iqu = some conn) :
      QzcStep s iqu ({ s with c := s.c.insert iqu { conn with c := true } }.answer
        (.closedConn iqu true))

theorem qzc_cases (s : Zx) (iqu : Int) : QzcStep s iqu (s.qzc iqu) := by
  unfold Zx.qzc
  split
  · exact .refused
  rename_i conn found
  split
  · exact .refused
  dsimp only
  split
  · rename_i lost
    exact .stuck conn found lost
  · exact .closing conn found

/-- The message is ignored, makes a connection, or goes to the endpoint of its connection. -/
inductive QipStep (s : Zx) (d : Addr) (msg : Message) : Zx → Prop where
  | ignored (unknown : s.nemwea.lookup d = none) : QipStep s d msg s
  | greeted (unknown : s.nemwea.lookup d = none) (running : ¬ s.neowem = true)
      (connect : msg.type = .connect) : QipStep s d msg (s.greet d msg)
  | handled (iqu : Int) (conn : Zqqx) (a : Bxnzsdj) (named : s.nemwea.lookup d = some iqu)
      (found : s.c.lookup iqu = some conn) (hears : conn.a.bbjdkslwoorun.qtbejekw msg = some a) :
      QipStep s d msg (s.moveConn iqu conn a [] [] [])

theorem qip_cases {d : Addr} {msg : Message} (taken : s.qip d msg = some s') :
    QipStep s d msg s' := by
  unfold Zx.qip at taken
  split at taken
  · rename_i iqu named
    split at taken
    · contradiction
    rename_i conn found
    simp only [Option.bind_eq_bind, Option.bind_eq_some_iff] at taken
    obtain ⟨handled, hears, result⟩ := taken
    cases Option.some.inj result
    exact .handled iqu conn handled named found hears
  · rename_i unknown
    split at taken
    · cases Option.some.inj taken
      exact .ignored unknown
    rename_i running
    split at taken
    · rename_i connect
      cases Option.some.inj taken
      exact .greeted unknown running connect
    · cases Option.some.inj taken
      exact .ignored unknown

/-! ### A turn over the table -/

/-- What every visit keeps, the whole `range` keeps. -/
theorem rangeIn_keeps (inv : Zx → Prop)
    (keeps : ∀ s iqu conn s', inv s → s.c.lookup iqu = some conn → f s iqu conn = some s' → inv s')
    {order : List Int} (start : inv s) (ranged : s.rangeIn f order = some s') : inv s' := by
  unfold Zx.rangeIn at ranged
  induction order generalizing s with
  | nil => exact Option.some.inj ranged ▸ start
  | cons iqu rest ih =>
    simp only [List.foldlM_cons, Option.bind_eq_bind, Option.bind_eq_some_iff] at ranged
    obtain ⟨visited, visit, later⟩ := ranged
    apply ih _ later
    split at visit
    · rename_i conn found
      exact keeps s iqu conn visited start found visit
    · exact Option.some.inj visit ▸ start

theorem eachConn_keeps (inv : Zx → Prop)
    (keeps : ∀ s iqu conn s', inv s → s.c.lookup iqu = some conn → f s iqu conn = some s' → inv s')
    (start : inv s) (ranged : s.eachConn f = some s') : inv s' :=
  rangeIn_keeps inv keeps start ranged

/-- What a visit brings about for its own connection and leaves alone for the others holds in the
end of all that were visited. A visit may use what held of its connection before. -/
theorem rangeIn_each (before good : Zqqx → Prop) (still : ∀ conn, good conn → before conn)
    (visits : ∀ s iqu conn s', s.c.lookup iqu = some conn → before conn → f s iqu conn = some s' →
      (∀ after, s'.c.lookup iqu = some after → good after) ∧
        ∀ other, other ≠ iqu → s'.c.lookup other = s.c.lookup other)
    (start : ∀ iqu conn, s.c.lookup iqu = some conn → before conn)
    {order : List Int} (ranged : s.rangeIn f order = some s') {iqu : Int} {conn : Zqqx}
    (there : s'.c.lookup iqu = some conn) :
    good conn ∨ iqu ∉ order ∧ s.c.lookup iqu = some conn := by
  unfold Zx.rangeIn at ranged
  induction order generalizing s with
  | nil => exact .inr ⟨List.not_mem_nil, Option.some.inj ranged ▸ there⟩
  | cons k rest ih =>
    simp only [List.foldlM_cons, Option.bind_eq_bind, Option.bind_eq_some_iff] at ranged
    obtain ⟨visited, visit, later⟩ := ranged
    split at visit
    · rename_i old found
      obtain ⟨own, others⟩ := visits s k old visited found (start k old found) visit
      have kept : ∀ iqu conn, visited.c.lookup iqu = some conn → before conn := by
        intro iqu conn there
        by_cases here : iqu = k
        · subst here
          exact still conn (own conn there)
        · exact start iqu conn (others iqu here ▸ there)
      rcases ih kept later with fine | ⟨away, before⟩
      · exact .inl fine
      by_cases here : iqu = k
      · subst here
        exact .inl (own conn before)
      · exact .inr ⟨by simp [here, away], others iqu here ▸ before⟩
    · rename_i missing
      cases Option.some.inj visit
      rcases ih start later with fine | ⟨away, before⟩
      · exact .inl fine
      refine .inr ⟨?_, before⟩
      rw [List.mem_cons, not_or]
      refine ⟨?_, away⟩
      rintro rfl
      rw [missing] at before
      cases before

theorem rangeIn_all (good : Zqqx → Prop)
    (visits : ∀ s iqu conn s', s.c.lookup iqu = some conn → f s iqu conn = some s' →
      (∀ after, s'.c.lookup iqu = some after → good after) ∧
        ∀ other, other ≠ iqu → s'.c.lookup other = s.c.lookup other)
    {order : List Int} (ranged : s.rangeIn f order = some s') {iqu : Int} {conn : Zqqx}
    (there : s'.c.lookup iqu = some conn) :
    good conn ∨ iqu ∉ order ∧ s.c.lookup iqu = some conn :=
  rangeIn_each (fun _ => True) good (fun _ _ => trivial)
    (fun s iqu conn s' found _ visit => visits s iqu conn s' found visit) (fun _ _ _ => trivial)
    ranged there

/-- Before a `range` comes to a connection for the first time, there, and after it. -/
theorem rangeIn_visits {order : List Int} {iqu : Int} (visited : iqu ∈ order)
    (ranged : s.rangeIn f order = some s') :
    ∃ before after u v, order = before ++ iqu :: after ∧ iqu ∉ before ∧
      s.rangeIn f before = some u ∧
      (match u.c.lookup iqu with
        | some conn => f u iqu conn
        | none => some u) = some v ∧
      v.rangeIn f after = some s' := by
  obtain ⟨before, after, rfl, fresh⟩ := List.eq_append_cons_of_mem visited
  simp only [Zx.rangeIn, List.foldlM_append, List.foldlM_cons, Option.bind_eq_bind,
    Option.bind_eq_some_iff] at ranged
  obtain ⟨u, first, v, visit, last⟩ := ranged
  exact ⟨before, after, u, v, rfl, fresh, first, visit, last⟩

/-- A `range` leaves alone what it does not come to. -/
theorem rangeIn_away (visits : ∀ s j conn s', s.c.lookup j = some conn → f s j conn = some s' →
      ∀ other, other ≠ j → s'.c.lookup other = s.c.lookup other)
    {order : List Int} (ranged : s.rangeIn f order = some s') {iqu : Int} (away : iqu ∉ order) :
    s'.c.lookup iqu = s.c.lookup iqu := by
  unfold Zx.rangeIn at ranged
  induction order generalizing s with
  | nil => rw [Option.some.inj ranged]
  | cons j rest ih =>
    simp only [List.foldlM_cons, Option.bind_eq_bind, Option.bind_eq_some_iff] at ranged
    obtain ⟨u, visit, later⟩ := ranged
    rw [List.mem_cons, not_or] at away
    rw [ih later away.2]
    split at visit
    · rename_i conn found
      exact visits s j conn u found visit iqu away.1
    · rw [Option.some.inj visit]

/-- A `range` that comes to a connection once. -/
theorem rangeIn_lookup (g : Zqqx → Zqqx)
    (visits : ∀ s j conn s', s.c.lookup j = some conn → f s j conn = some s' →
      s'.c = s.c.insert j (g conn)) {order : List Int} (once : order.Nodup)
    (ranged : s.rangeIn f order = some s') {iqu : Int} (visited : iqu ∈ order) :
    s'.c.lookup iqu = (s.c.lookup iqu).map g := by
  have others : ∀ s j conn s', s.c.lookup j = some conn → f s j conn = some s' →
      ∀ other, other ≠ j → s'.c.lookup other = s.c.lookup other := by
    intro s j conn s' found visit other away
    rw [visits s j conn s' found visit, AList.lookup_insert_ne away]
  obtain ⟨before, after, u, v, rfl, fresh, first, visit, last⟩ := rangeIn_visits visited ranged
  have later : iqu ∉ after := (List.nodup_cons.mp (List.nodup_append.mp once).2.1).1
  rw [rangeIn_away others last later, ← rangeIn_away others first fresh]
  split at visit
  · rename_i conn found
    rw [visits u iqu conn v found visit, AList.lookup_insert, found]
    rfl
  · rename_i missing
    cases Option.some.inj visit
    rw [missing]
    rfl

/-- What every visit keeps of its own connection. -/
theorem rangeIn_holds (good : Zqqx → Prop)
    (visits : ∀ s j conn s', s.c.lookup j = some conn → f s j conn = some s' →
      (good conn → ∃ after, s'.c.lookup j = some after ∧ good after) ∧
        ∀ other, other ≠ j → s'.c.lookup other = s.c.lookup other)
    {order : List Int} {iqu : Int} (start : ∃ conn, s.c.lookup iqu = some conn ∧ good conn)
    (ranged : s.rangeIn f order = some s') : ∃ conn, s'.c.lookup iqu = some conn ∧ good conn := by
  refine rangeIn_keeps (fun t => ∃ conn, t.c.lookup iqu = some conn ∧ good conn) ?_ start ranged
  rintro t j conn t' ⟨mine, there, fine⟩ found visit
  obtain ⟨own, others⟩ := visits t j conn t' found visit
  by_cases here : iqu = j
  · subst here
    cases Option.some.inj (there.symm.trans found)
    exact own fine
  · exact ⟨mine, (others iqu here).trans there, fine⟩

theorem readAll_empties {fuel : Nat} {l l' : Bxnzsdj} {payloads : List Payload}
    (enough : l.asdfghj.length ≤ fuel) (read : Zx.readAll fuel l = some (payloads, l')) :
    l'.asdfghj = [] := by
  induction fuel generalizing l payloads with
  | zero =>
    cases Option.some.inj read
    exact List.eq_nil_of_length_eq_zero (Nat.le_zero.mp enough)
  | succ fuel ih =>
    simp only [Zx.readAll] at read
    split at read
    · simp only [Option.bind_eq_bind, Option.bind_eq_some_iff] at read
      obtain ⟨⟨payload, rest⟩, first, ⟨later, last⟩, more, result⟩ := read
      cases Option.some.inj result
      have queue := (odkejnfsa_cases first).2.1
      rw [queue, List.length_cons] at enough
      exact ih (Nat.le_of_succ_le_succ enough) more
    · rename_i empty
      cases Option.some.inj read
      simpa [Bxnzsdj.rkdlxleik] using empty

/-- What holds of reading nothing, and of one read before others, holds of all that is read. -/
theorem readAll_rule (motive : Bxnzsdj → List Payload → Bxnzsdj → Prop)
    (nothing : ∀ l, motive l [] l)
    (first : ∀ l payload rest later last, l.odkejnfsa = some (payload, rest) →
      motive rest later last → motive l (payload :: later) last)
    {fuel : Nat} {l l' : Bxnzsdj} {payloads : List Payload}
    (read : Zx.readAll fuel l = some (payloads, l')) : motive l payloads l' := by
  induction fuel generalizing l payloads with
  | zero =>
    cases Option.some.inj read
    exact nothing _
  | succ fuel ih =>
    simp only [Zx.readAll] at read
    split at read
    · simp only [Option.bind_eq_bind, Option.bind_eq_some_iff] at read
      obtain ⟨⟨payload, rest⟩, one, ⟨later, last⟩, more, result⟩ := read
      cases Option.some.inj result
      exact first l payload rest later last one (ih more)
    · cases Option.some.inj read
      exact nothing _

theorem readAll_moves {arrives : Message → Prop} {fuel : Nat} {l l' : Bxnzsdj}
    {payloads : List Payload} (read : Zx.readAll fuel l = some (payloads, l')) :
    EndMoves arrives l l' [] payloads [] := by
  refine readAll_rule (fun l payloads l' => EndMoves arrives l l' [] payloads []) ?_ ?_ read
  · exact fun _ => .none
  · intro l payload rest later last one more
    exact (EndMove.single (.read one)).trans more

/-- Reading takes from the front of the queue and touches nothing else. -/
theorem readAll_spec {fuel : Nat} {l l' : Bxnzsdj} {payloads : List Payload}
    (read : Zx.readAll fuel l = some (payloads, l')) :
    l.asdfghj = payloads ++ l'.asdfghj ∧ l' = { l with asdfghj := l'.asdfghj } := by
  refine readAll_rule (fun l payloads l' =>
    l.asdfghj = payloads ++ l'.asdfghj ∧ l' = { l with asdfghj := l'.asdfghj }) ?_ ?_ read
  · exact fun _ => ⟨rfl, rfl⟩
  · rintro l payload rest later last one ⟨parts, same⟩
    obtain ⟨-, queue, left⟩ := odkejnfsa_cases one
    rw [left] at same
    exact ⟨by rw [queue, parts, List.cons_append], same⟩

/-- The `range` of `qiee` empties the read queues, in whatever order it comes to them. -/
theorem qieeConn_empties {order : List Int} (whole : order.Perm s.c.keys)
    (ranged : s.rangeIn Zx.qieeConn order = some s') {iqu : Int} {conn : Zqqx}
    (there : s'.c.lookup iqu = some conn) : conn.a.asdfghj = [] := by
  have visits : ∀ s iqu conn s', s.c.lookup iqu = some conn → Zx.qieeConn s iqu conn = some s' →
      (∀ after, s'.c.lookup iqu = some after → after.a.asdfghj = []) ∧
        ∀ other, other ≠ iqu → s'.c.lookup other = s.c.lookup other := by
    intro s iqu conn s' _ visit
    simp only [Zx.qieeConn, Option.bind_eq_bind, Option.bind_eq_some_iff] at visit
    obtain ⟨⟨payloads, rest⟩, read, result⟩ := visit
    cases Option.some.inj result
    refine ⟨?_, fun other away => AList.lookup_insert_ne away⟩
    intro after found
    rw [Zx.moveConn, AList.lookup_insert] at found
    cases Option.some.inj found
    exact readAll_empties (Nat.le_refl _) read
  rcases rangeIn_all (fun conn => conn.a.asdfghj = []) visits ranged there with empty | ⟨away, found⟩
  · exact empty
  · exact absurd (whole.mem_iff.mpr (Map.mem_of_lookup found)) away

theorem qiee_empties (ranged : s.qiee = some s') {iqu : Int} {conn : Zqqx}
    (there : s'.c.lookup iqu = some conn) : conn.a.asdfghj = [] :=
  qieeConn_empties (.refl _) ranged there

/-- What waits has been moved to the server's own queue. -/
def Emptied (s : Zx) : Prop := ∀ iqu conn, s.c.lookup iqu = some conn → conn.a.asdfghj = []

theorem Emptied.insert {iqu j : Int} {conn other : Zqqx} (h : Emptied s)
    (empty : conn.a.asdfghj = [])
    (there : (s.c.insert iqu conn).lookup j = some other) : other.a.asdfghj = [] := by
  rw [Map.lookup_insert] at there
  split at there
  · exact Option.some.inj there ▸ empty
  · exact h j other there

theorem hgiConn_emptied {iqu : Int} {conn : Zqqx} (h : Emptied s)
    (found : s.c.lookup iqu = some conn) (visit : s.hgiConn iqu conn = some s') : Emptied s' := by
  cases Option.some.inj visit
  intro j other there
  have empty : ({ conn with a := conn.a.bnmgrlr.2 } : Zqqx).a.asdfghj = [] := h iqu conn found
  exact h.insert empty there

end DistSys.Lsp
