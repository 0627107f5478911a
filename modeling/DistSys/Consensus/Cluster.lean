import DistSys.Consensus.Peer
import DistSys.Lib.Runs
import Mathlib.Logic.Function.Basic

/-! A cluster of `n` peers, their goroutines and their calls. A step is one section under
some peer's `mux`, or one channel operation outside of it; the label of a step makes every
choice of the scheduler and of the network. A call is handled at most once and its reply is
taken at most once. A lost message is one that is never handled or taken, and nothing
relates the order of two calls. -/
namespace DistSys.Consensus

open Function (update)

variable {n : Nat} {Command : Type}

/-- One RPC: not sent, on its way, handled with the reply on its way back, or done. -/
inductive Rpc (Reply : Type) where
  | idle
  | requested
  | replied (reply : Reply)
  | returned (reply : Reply)
  deriving DecidableEq, Repr

def Rpc.answer {Reply : Type} : Rpc Reply → Option Reply
  | .idle | .requested => none
  | .replied reply | .returned reply => some reply

/-- Where a `startElect` stands after its first section: in its `select`, before the
section of the higher reply term, before the `beLeader` section, or returned. -/
inductive ElectPc where
  | collecting
  | higherTerm (term : Nat)
  | won
  | returned
  deriving DecidableEq, Repr

/-- One `startElect`, with its calls. `args` holds the captured term and peer. -/
structure Election (n : Nat) where
  args : RequestVoteArgs n
  calls : Fin n → Rpc RequestVoteReply
  totalVotes : Nat
  pc : ElectPc

/-- One `sendAppendEntriesHelper`. Its sender is `args.leaderId`. It is `idle` until `Call` has
encoded its arguments. -/
structure AppendCall (n : Nat) (Command : Type) where
  server : Fin n
  args : AppendEntriesArgs n Command
  isHeartbeat : Bool
  rpc : Rpc AppendEntriesReply

/-- Where `mainRoutine` stands: in its `select`, holding a value from `receivedHb` or from
`beLeader`, or in `startAppendEntries` at the leadership check or in front of peer `i`.
`beLeader` is annotated with the term of the election that sent it; no step reads that. -/
inductive MainPc where
  | select
  | receivedHb
  | beLeader (term : Nat)
  | checkLeader
  | broadcast (i : Nat)
  deriving DecidableEq, Repr

/-- `elects` and `applies` count the goroutines that have been started and not yet run;
`receivedHb` counts the values buffered in that channel; `applyCh` is all that was sent on it.
Nothing is ever sent on `lostAppend`, so it does not occur. -/
structure Cluster (n : Nat) (Command : Type) where
  raft : Fin n → Raft n Command
  main : Fin n → MainPc
  receivedHb : Fin n → Nat
  elects : Fin n → Nat
  elections : List (Election n)
  appends : List (AppendCall n Command)
  applies : Fin n → Nat
  applyCh : Fin n → List (ApplyCommand Command)
  crashed : Bool

def newCluster (n : Nat) (Command : Type) [Inhabited Command] : Cluster n Command where
  raft := fun _ => newPeer
  main := fun _ => .select
  receivedHb := fun _ => 0
  elects := fun _ => 0
  elections := []
  appends := []
  applies := fun _ => 0
  applyCh := fun _ => []
  crashed := false

/-- `e` and `k` are positions in `elections` and in `appends`. -/
inductive Action (n : Nat) (Command : Type) where
  | electionTimeout (p : Fin n)
  | startElect (p : Fin n)
  | requestVote (e : Nat) (v : Fin n)
  | voteReply (e : Nat) (v : Fin n)
  | higherTerm (e : Nat)
  | handOff (e : Nat)
  | receiveHb (p : Fin n)
  | heartbeat (p : Fin n) (lost : Nat)
  | becomeLeader (p : Fin n)
  | checkLeader (p : Fin n)
  | broadcast (p : Fin n)
  | encode (k : Nat)
  | appendEntries (k : Nat)
  | appendReply (k : Nat)
  | putCommand (p : Fin n) (command : Command)
  | applyCommit (p : Fin n)
  deriving Repr

def Election.owner (el : Election n) : Fin n := el.args.candidateId

/-- A new `startElect` that has asked every other peer and counted its own vote. -/
def newElection (args : RequestVoteArgs n) : Election n where
  args := args
  calls := fun i => if i = args.candidateId then .idle else .requested
  totalVotes := 1
  pc := .collecting

/-- The reply case of `startElect`'s `select`, up to the next lock. -/
def Election.receive (el : Election n) (v : Fin n) (reply : RequestVoteReply) : Election n :=
  let el := { el with calls := update el.calls v (.returned reply) }
  if el.args.term < reply.term then { el with pc := .higherTerm reply.term }
  else if reply.voteGranted then
    if n / 2 < el.totalVotes + 1 then { el with totalVotes := el.totalVotes + 1, pc := .won }
    else { el with totalVotes := el.totalVotes + 1 }
  else el

def Cluster.crash (c : Cluster n Command) : Cluster n Command := { c with crashed := true }

/-- The end of the part of its sender's log that a message has for entries. -/
def AppendCall.sliceEnd (call : AppendCall n Command) : Nat :=
  call.args.prevLogIndex + 1 + call.args.entries.length

/-- Until it is encoded, `Entries` is a slice of the array behind the log of its sender (from
`nextIndex`, which is never 0). After a write to that log it shows the log as far as that reaches;
behind its end the array is as before. If `append` moves the log to another array, the old one stays
as it is: as if all slices of it had been encoded just before. -/
def AppendCall.refresh (p : Fin n) (log : List (Logs Command)) (call : AppendCall n Command) :
    AppendCall n Command :=
  if call.rpc = .idle ∧ call.args.leaderId = p then
    { call with args := { call.args with entries := call.args.entries.mapIdx fun j e =>
      (log[call.args.prevLogIndex + 1 + j]?).getD e } }
  else call

/-- The handler behind an `AppendEntries` call, with the channels it uses. It waits while
`receivedHb` is full. -/
def Cluster.handleAppend (c : Cluster n Command) (k : Nat) (call : AppendCall n Command) :
    Option (Cluster n Command) :=
  let v := call.server
  let result := appendEntries (c.raft v) call.args
  if result.receivedHb = true ∧ n ≤ c.receivedHb v then none
  else some { c with
    raft := update c.raft v result.rf
    receivedHb := update c.receivedHb v (c.receivedHb v + if result.receivedHb then 1 else 0)
    applies := update c.applies v (c.applies v + if result.applyCommit then 1 else 0)
    appends := (c.appends.set k { call with rpc := .replied result.reply }).map
      (AppendCall.refresh v result.rf.log) }

def Cluster.handleReply (c : Cluster n Command) (k : Nat) (call : AppendCall n Command)
    (reply : AppendEntriesReply) : Cluster n Command :=
  let p := call.args.leaderId
  match processAppendEntriesReply p (c.raft p) call.server call.args reply call.isHeartbeat with
  | none => c.crash
  | some (rf, applied) => { c with
    raft := update c.raft p rf
    applies := update c.applies p (c.applies p + if applied then 1 else 0)
    appends := c.appends.set k { call with rpc := .returned reply } }

/-- One iteration of the broadcast loop; behind the last peer the routine sleeps and
checks again. -/
def Cluster.broadcast (c : Cluster n Command) (p : Fin n) (i : Nat) : Cluster n Command :=
  if h : i < n then
    if i = p then { c with main := update c.main p (.broadcast (i + 1)) }
    else match buildAppendEntries p (c.raft p) ⟨i, h⟩ with
      | none => c.crash
      | some (args, isHeartbeat) => { c with
        main := update c.main p (.broadcast (i + 1))
        appends := c.appends ++ [⟨⟨i, h⟩, args, isHeartbeat, .idle⟩] }
  else { c with main := update c.main p .checkLeader }

def step (c : Cluster n Command) (a : Action n Command) : Option (Cluster n Command) :=
  if c.crashed then none else
  match a with
  | .electionTimeout p =>
    if c.main p = .select then some { c with elects := update c.elects p (c.elects p + 1) }
    else none
  | .startElect p =>
    if 0 < c.elects p then
      let started := startElect p (c.raft p)
      some { c with
        raft := update c.raft p started.1
        elects := update c.elects p (c.elects p - 1)
        elections := c.elections ++ [newElection started.2] }
    else none
  | .requestVote e v =>
    match c.elections[e]? with
    | none => none
    | some el =>
      if el.calls v = .requested then
        match requestVote (c.raft v) el.args with
        | none => some c.crash
        | some (rf, reply) => some { c with
          raft := update c.raft v rf
          elections := c.elections.set e
            { el with calls := update el.calls v (.replied reply) } }
      else none
  | .voteReply e v =>
    match c.elections[e]? with
    | none => none
    | some el =>
      match el.pc, el.calls v with
      | .collecting, .replied reply =>
        some { c with elections := c.elections.set e (el.receive v reply) }
      | _, _ => none
  | .higherTerm e =>
    match c.elections[e]? with
    | none => none
    | some el =>
      match el.pc with
      | .higherTerm term => some { c with
        raft := update c.raft el.owner ((c.raft el.owner).stepDown term)
        elections := c.elections.set e { el with pc := .returned } }
      | _ => none
  | .handOff e =>
    match c.elections[e]? with
    | none => none
    | some el =>
      -- beLeader is unbuffered: the two routines meet
      if el.pc = .won ∧ c.main el.owner = .select then some { c with
        main := update c.main el.owner (.beLeader el.args.term)
        elections := c.elections.set e { el with pc := .returned } }
      else none
  | .receiveHb p =>
    if c.main p = .select ∧ 0 < c.receivedHb p then some { c with
      main := update c.main p .receivedHb
      receivedHb := update c.receivedHb p (c.receivedHb p - 1) }
    else none
  | .heartbeat p lost =>
    if c.main p = .receivedHb then
      if (c.raft p).electionState = .candidate then
        -- lostElect is unbuffered too: some startElect of this peer takes it and returns
        match c.elections[lost]? with
        | none => none
        | some el =>
          if el.owner = p ∧ el.pc = .collecting then some { c with
            raft := update c.raft p (loseElection (c.raft p))
            main := update c.main p .select
            elections := c.elections.set lost { el with pc := .returned } }
          else none
      else some { c with main := update c.main p .select }
    else none
  | .becomeLeader p =>
    match c.main p with
    | .beLeader _ => some { c with
      raft := update c.raft p (becomeLeader (c.raft p))
      main := update c.main p .checkLeader }
    | _ => none
  | .checkLeader p =>
    if c.main p = .checkLeader then
      if (c.raft p).electionState = .leader then
        some { c with main := update c.main p (.broadcast 0) }
      else some { c with main := update c.main p .select }
    else none
  | .broadcast p =>
    match c.main p with
    | .broadcast i => some (c.broadcast p i)
    | _ => none
  | .encode k =>
    -- outside of mux: whatever the slice shows now is sent
    match c.appends[k]? with
    | none => none
    | some call =>
      if call.rpc = .idle then some { c with
        appends := c.appends.set k { call with rpc := .requested } }
      else none
  | .appendEntries k =>
    match c.appends[k]? with
    | none => none
    | some call => if call.rpc = .requested then c.handleAppend k call else none
  | .appendReply k =>
    match c.appends[k]? with
    | none => none
    | some call =>
      match call.rpc with
      | .replied reply => some (c.handleReply k call reply)
      | _ => none
  | .putCommand p command =>
    let rf := (putCommand (c.raft p) command).1
    some { c with
      raft := update c.raft p rf
      appends := c.appends.map (AppendCall.refresh p rf.log) }
  | .applyCommit p =>
    if 0 < c.applies p then
      let applied := applyCommit (c.raft p)
      let c := { c with applyCh := update c.applyCh p (c.applyCh p ++ applied.1) }
      match applied.2 with
      | none => some c.crash
      | some rf => some { c with
        raft := update c.raft p rf
        applies := update c.applies p (c.applies p - 1) }
    else none

/-! ### Runs of three peers -/

/-- `p` asks for votes and gets the one of `v`; `e` elections were started before. -/
def elect (p v : Fin 3) (e : Nat) : List (Action 3 Nat) :=
  [.electionTimeout p, .startElect p, .requestVote e v, .voteReply e v, .handOff e, .becomeLeader p]

def round (p : Fin 3) : List (Action 3 Nat) :=
  [.checkLeader p, .broadcast p, .broadcast p, .broadcast p, .broadcast p]

/-- Peer 0 is elected in term 1, takes a command and sends it to peer 1. -/
def firstEntryRun : List (Action 3 Nat) :=
  [.electionTimeout 0, .startElect 0, .requestVote 0 1, .voteReply 0 1, .handOff 0,
    .becomeLeader 0, .putCommand 0 7, .checkLeader 0, .broadcast 0, .broadcast 0]

/-- Peer 0 brings a command to peer 1 and commits it. -/
def commitRun : List (Action 3 Nat) :=
  elect 0 1 0 ++ [.putCommand 0 7] ++ round 0 ++ [.encode 0, .appendEntries 0, .appendReply 0]

/-- Peer 0 brings a command to peer 1, commits and applies it, and then a second one. -/
def applyRun : List (Action 3 Nat) :=
  elect 0 1 0 ++ [.putCommand 0 7] ++ round 0 ++ [.encode 0, .appendEntries 0, .appendReply 0,
    .applyCommit 0, .putCommand 0 8] ++ round 0 ++ [.encode 2, .appendEntries 2, .appendReply 2,
    .applyCommit 0]

/-- Peer 0 sends two entries of term 1 from the beginning of its log, or only the second one. -/
def bothEntries : AppendEntriesArgs 3 Nat := ⟨1, 0, 0, 0, [⟨1, 7⟩, ⟨1, 8⟩], 0⟩

def secondEntry : AppendEntriesArgs 3 Nat := ⟨1, 0, 1, 1, [⟨1, 8⟩], 0⟩

end DistSys.Consensus
