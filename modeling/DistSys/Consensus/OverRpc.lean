import DistSys.Consensus.Steps
import DistSys.Rpc.Calls

/-! The peers on the simulated network. Here arguments and replies travel through the network, a
method runs at the server where the network has brought its request, and a caller goes on with what
its `Call` has returned. Nothing says beforehand that a call is handled once, by the peer it is meant
for, or that a reply belongs to its request. -/
namespace DistSys.Consensus

open Function (update)
open DistSys.Lib

variable {n : Nat} {Name Command : Type}

inductive MethodArgs (n : Nat) (Command : Type)
  | requestVote (args : RequestVoteArgs n)
  | appendEntries (args : AppendEntriesArgs n Command)

inductive MethodReply
  | requestVote (reply : RequestVoteReply)
  | appendEntries (reply : AppendEntriesReply)

abbrev Net (n : Nat) (Name Command : Type) :=
  Rpc.Network Name (Fin n) (MethodArgs n Command) MethodReply

/-- A goroutine that makes one `Call`: the `sendRequestVoteChan` of a `startElect` for a peer, or a
`sendAppendEntriesHelper`. -/
inductive Caller (n : Nat)
  | vote (e : Nat) (v : Fin n)
  | append (k : Nat)
  deriving DecidableEq

/-- `cluster` has the peers with their goroutines, `callers` the goroutine of each call of `net`. When
a method returns, its call is marked as replied in `cluster`; no step reads that mark. -/
structure System (n : Nat) (Name Command : Type) where
  cluster : Cluster n Command
  callers : List (Caller n)
  net : Net n Name Command

/-- `peer` is a step of a peer that sends and receives nothing, `take` goes on with the reply of a
call, `method` is the body of the method of a call, and `net` is any step of the network but a new
call and the return of a method. -/
inductive SystemAction (n : Nat) (Name Command : Type)
  | peer (a : Action n Command)
  | take (c : Nat)
  | method (c : Nat)
  | net (a : Rpc.Action Name (Fin n) (MethodArgs n Command) MethodReply)

/-- The steps that are not the two ends of a call. -/
def Action.isLocal : Action n Command → Bool
  | .requestVote _ _ | .voteReply _ _ | .appendEntries _ | .appendReply _ => false
  | _ => true

/-- The network's own steps. -/
def ofNetwork : Rpc.Action Name (Fin n) (MethodArgs n Command) MethodReply → Bool
  | .call _ => false
  | .turn _ (.invoke _) => false
  | _ => true

def others (p : Fin n) : List (Fin n) := (List.finRange n).filter (· ≠ p)

/-- `endname p v` is the name of `peers[v]` at peer `p`. -/
def voteRequest (endname : Fin n → Fin n → Name) (args : RequestVoteArgs n) (v : Fin n) :
    Rpc.ReqMsg Name (MethodArgs n Command) :=
  ⟨endname args.candidateId v, "Raft.RequestVote", .requestVote args⟩

def appendRequest (endname : Fin n → Fin n → Name) (args : AppendEntriesArgs n Command) (v : Fin n) :
    Rpc.ReqMsg Name (MethodArgs n Command) :=
  ⟨endname args.leaderId v, "Raft.AppendEntries", .appendEntries args⟩

/-- The calls that a step of a peer hands to the network: those of a new `startElect`, whose arguments
nobody writes to afterwards, or the one of a message of the broadcast loop that `Call` has encoded. -/
def newCalls (endname : Fin n → Fin n → Name) (c c' : Cluster n Command) :
    Action n Command → List (Caller n × Rpc.ReqMsg Name (MethodArgs n Command))
  | .startElect _ => (c'.elections[c.elections.length]?).toList.flatMap fun el =>
    (others el.owner).map fun v => (.vote c.elections.length v, voteRequest endname el.args v)
  | .encode k => (c'.appends[k]?).toList.map fun call =>
    (.append k, appendRequest endname call.args call.server)
  | _ => []

/-- New goroutines stand at the channel of the network with their requests. -/
def submit (rn : Net n Name Command) (reqs : List (Rpc.ReqMsg Name (MethodArgs n Command))) :
    Net n Name Command :=
  { rn with calls := rn.calls ++ reqs.map fun req => ⟨req, .sending, .unstarted⟩ }

/-- The caller is still in its `Call`. -/
def Rpc.pending {Reply : Type} : Rpc Reply → Bool
  | .requested | .replied _ => true
  | .idle | .returned _ => false

def Cluster.mark (c : Cluster n Command) : Option (Caller n) → MethodReply → Cluster n Command
  | some (.vote e v), .requestVote reply => match c.elections[e]? with
    | none => c
    | some el => { c with
      elections := c.elections.set e { el with calls := update el.calls v (.replied reply) } }
  | some (.append k), .appendEntries reply => match c.appends[k]? with
    | none => c
    | some call => { c with appends := c.appends.set k { call with rpc := .replied reply } }
  | _, _ => c

namespace System

/-- A goroutine goes on with the reply that its `Call` has returned. -/
def take (s : System n Name Command) : Option (Caller n) → MethodReply → Option (System n Name Command)
  | some (.vote e v), .requestVote reply => match s.cluster.elections[e]? with
    | none => none
    | some el =>
      if el.pc = .collecting ∧ (el.calls v).pending = true then some { s with
        cluster := { s.cluster with elections := s.cluster.elections.set e (el.receive v reply) } }
      else none
  | some (.append k), .appendEntries reply => match s.cluster.appends[k]? with
    | none => none
    | some call =>
      if call.rpc.pending = true then some { s with cluster := s.cluster.handleReply k call reply }
      else none
  | _, _ => none

variable [DecidableEq Name]

/-- The method returns, and its reply is on the way back. -/
def invoke (s : System n Name Command) (c : Nat) (reply : MethodReply) :
    Option (System n Name Command) :=
  (Rpc.step s.net (.turn c (.invoke reply))).map fun net =>
    { s with cluster := s.cluster.mark s.callers[c]? reply, net := net }

/-- The body of the method that a call runs at a receiver. -/
def method (s : System n Name Command) (c : Nat) (v : Fin n) :
    String → MethodArgs n Command → Option (System n Name Command)
  | "RequestVote", .requestVote args => match requestVote (s.cluster.raft v) args with
    | none => some { s with cluster := s.cluster.crash }
    | some (rf, reply) =>
      { s with cluster := { s.cluster with raft := update s.cluster.raft v rf } }.invoke c
        (.requestVote reply)
  | "AppendEntries", .appendEntries args =>
    let result := appendEntries (s.cluster.raft v) args
    if result.receivedHb = true ∧ n ≤ s.cluster.receivedHb v then none
    else { s with
      cluster := { s.cluster with
        raft := update s.cluster.raft v result.rf
        receivedHb := update s.cluster.receivedHb v
          (s.cluster.receivedHb v + if result.receivedHb then 1 else 0)
        applies := update s.cluster.applies v
          (s.cluster.applies v + if result.applyCommit then 1 else 0)
        appends := s.cluster.appends.map (AppendCall.refresh v result.rf.log) } }.invoke c
            (.appendEntries result.reply)
  | _, _ => none

def step (endname : Fin n → Fin n → Name) (s : System n Name Command)
    (a : SystemAction n Name Command) : Option (System n Name Command) :=
  if s.cluster.crashed = true ∨ s.net.crashed = true then none else
  match a with
  | .peer a =>
    if a.isLocal = true then (Consensus.step s.cluster a).map fun c' =>
      let calls := newCalls endname s.cluster c' a
      ⟨c', s.callers ++ calls.map Prod.fst, submit s.net (calls.map Prod.snd)⟩
    else none
  | .take c => match (s.net.calls[c]?).map Rpc.Call.pc with
    | some (.returned (some reply)) => s.take s.callers[c]? reply
    | _ => none
  | .method c => match s.net.calls[c]? with
    | none => none
    | some call => match call.handler with
      | .running v method => s.method c v method call.req.args
      | _ => none
  | .net a =>
    if ofNetwork a = true then (Rpc.step s.net a).map fun net => { s with net := net } else none

end System

end DistSys.Consensus
