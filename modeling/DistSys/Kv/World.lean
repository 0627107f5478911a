import DistSys.Actor.Reliable
import DistSys.Kv.QueryActor

/-! Servers of the key-value store with their query actors and RPC clients, over actor systems
that stay up. Every Tell, every hop of a message between systems and every step of an RPC is a
step of its own. -/
namespace DistSys.Kv

open DistSys.Lib DistSys.Actor

/-- A query actor, and what its current `OnMessage` has still to send. -/
structure Running where
  actor : QueryActor
  sends : List Send

/-- A call of `NewServer`: its references, and what it has still to tell. It has returned its
description, `actorRep`, when nothing is left. -/
structure Server where
  address : String
  actorRep : ActorRef
  actorList : List ActorRef
  remoteServers : List ActorRef
  tells : List (ActorRef × Msg)

inductive Args where
  | get (key : String)
  | put (key value : String)
  | list (start : String)
  deriving DecidableEq, Repr

inductive Reply where
  | get (value : String) (ok : Bool)
  | put
  | list (entries : Map String String)

/-- Where a method of the query receiver is; `none` is a failed type assertion. -/
inductive CallPc where
  | started
  | hasChannel (chanRef : ActorRef)
  | waiting (chanRef : ActorRef)
  | returned (reply : Option Reply)

/-- An RPC to the query receiver of an actor. -/
structure Call where
  ref : ActorRef
  args : Args
  pc : CallPc

/-- `timers` are the sleeping goroutines of `TellAfter`. `puts` are the MPut steps and `entered`
the RPCs whose messages have come into a mailbox, in the order of the steps. -/
structure World where
  net : Net Msg
  running : Map ActorRef Running
  timers : List (String × ActorRef × Msg)
  servers : List Server
  calls : Map Nat Call
  puts : List (String × Content)
  entered : List Nat

def newWorld : World := ⟨.new, ∅, [], [], ∅, [], []⟩

/-- `StartActor(newQueryActor)` some times. -/
def startActors : Nat → Net Msg → String → Option (List ActorRef × Net Msg)
  | 0, n, _ => some ([], n)
  | count + 1, n, address => match n.startActor address with
    | none => none
    | some (ref, n) => (startActors count n address).map fun rest => (ref :: rest.1, rest.2)

/-- What `NewServer` tells: MIntro to each of its actors, then MRIntro to each remote
representative. -/
def introductions (actorRep : ActorRef) (actorList remoteServers : List ActorRef) :
    List (ActorRef × Msg) :=
  actorList.map (fun ref => (ref, .mIntro actorList remoteServers)) ++
    remoteServers.map fun ref => (ref, .mRIntro actorRep)

/-- The actors begin with empty maps. -/
def hire (running : Map ActorRef Running) (actorList : List ActorRef) : Map ActorRef Running :=
  actorList.foldl (fun running ref => running.insert ref ⟨newQueryActor ref, []⟩) running

/-- `NewServer` up to its first Tell; without an actor it panics at `actorList[0]`. A description
comes from a call of `NewServer` that has returned. -/
def newServer (w : World) (address : String) (queryActorCount : Nat)
    (remoteServers : List ActorRef) : Option World :=
  match w.net.newActorSystem address with
  | none => none
  | some n => match startActors queryActorCount n address with
    | some (actorRep :: others, n) =>
      if ∀ ref ∈ remoteServers, ∃ server ∈ w.servers, server.actorRep = ref ∧
          server.tells.isEmpty then
        let actorList := actorRep :: others
        some { w with
          net := n
          running := hire w.running actorList
          servers := w.servers ++ [⟨address, actorRep, actorList, remoteServers,
            introductions actorRep actorList remoteServers⟩] }
      else none
    | _ => none

def Args.message (args : Args) (chanRef : ActorRef) : Msg :=
  match args with
  | .get key => .mGet chanRef key
  | .put key value => .mPut chanRef key value
  | .list start => .mList chanRef start

/-- The type assertion on the response. -/
def Args.reply : Args → Msg → Option Reply
  | .get _, .getReply value ok => some (.get value ok)
  | .put _ _, .putReply => some .put
  | .list _, .listReply entries => some (.list entries)
  | _, _ => none

inductive Action where
  | newServer (address : String) (queryActorCount : Nat) (remoteServers : List ActorRef)
  | startup (i : Nat)
  | handle (ref : ActorRef) (now : Nat)
  | send (ref : ActorRef)
  | wake (i : Nat)
  | dial (src dst : String)
  | remoteSend (src dst : String)
  | serveRequest (src dst : String)
  | call (id : Nat) (ref : ActorRef) (args : Args)
  | newChannel (id : Nat)
  | ask (id : Nat)
  | answer (id : Nat)

/-- The Put that a message is. -/
def Msg.put (now : Nat) : Msg → List (String × Content)
  | .mPut sender key value => [(key, ⟨sender, value, now⟩)]
  | _ => []

/-- `runActor` takes a message and hands it to `OnMessage`; an error changes nothing. -/
def handle (w : World) (ref : ActorRef) (now : Nat) : Option World :=
  match w.running.lookup ref with
  | some ⟨actor, []⟩ => match w.net.pop ref with
    | none => none
    | some (m, n) => match actor.onMessage now m with
      | .ok (actor, sends) => some { w with
          net := n
          running := w.running.insert ref ⟨actor, sends⟩
          puts := w.puts ++ m.put now }
      | .error _ => some { w with net := n }
  | _ => none

def send (w : World) (ref : ActorRef) : Option World :=
  match w.running.lookup ref with
  | some ⟨actor, .tell target m :: rest⟩ => some { w with
      net := w.net.tell ref.address target m
      running := w.running.insert ref ⟨actor, rest⟩ }
  | some ⟨actor, .tellAfter target m :: rest⟩ => some { w with
      timers := w.timers ++ [(ref.address, target, m)]
      running := w.running.insert ref ⟨actor, rest⟩ }
  | _ => none

def step (w : World) : Action → Option World
  | .newServer address queryActorCount remoteServers =>
    newServer w address queryActorCount remoteServers
  | .startup i => match w.servers[i]? with
    | some server => match server.tells with
      | (ref, m) :: rest => some { w with
          net := w.net.tell server.address ref m
          servers := w.servers.set i { server with tells := rest } }
      | [] => none
    | none => none
  | .handle ref now => handle w ref now
  | .send ref => send w ref
  | .wake i => match w.timers[i]? with
    | some (src, ref, m) => some { w with
        net := w.net.tell src ref m
        timers := w.timers.eraseIdx i }
    | none => none
  | .dial src dst => (w.net.dial src dst true).map fun n => { w with net := n }
  | .remoteSend src dst => (w.net.remoteSend src dst).map fun n => { w with net := n }
  | .serveRequest src dst => (w.net.serveRequest src dst).map fun n => { w with net := n }
  | .call id ref args =>
    if id ∉ w.calls ∧ ref ∈ w.running then
      some { w with calls := w.calls.insert id ⟨ref, args, .started⟩ }
    else none
  | .newChannel id => match w.calls.lookup id with
    | some ⟨ref, args, .started⟩ => (w.net.newChannelRef ref.address).map fun made =>
        { w with
          net := made.2
          calls := w.calls.insert id ⟨ref, args, .hasChannel made.1⟩ }
    | _ => none
  | .ask id => match w.calls.lookup id with
    | some ⟨ref, args, .hasChannel chanRef⟩ => some { w with
        net := w.net.tell ref.address ref (args.message chanRef)
        calls := w.calls.insert id ⟨ref, args, .waiting chanRef⟩
        entered := w.entered ++ [id] }
    | _ => none
  | .answer id => match w.calls.lookup id with
    | some ⟨ref, args, .waiting chanRef⟩ => (w.net.receive chanRef).map fun received =>
        { w with
          net := received.2
          calls := w.calls.insert id ⟨ref, args, .returned (args.reply received.1)⟩ }
    | _ => none

/-! ### What is undelivered -/

/-- Every message in a mailbox or between two systems, with the reference it goes to. -/
def letters (n : Net Msg) : List (ActorRef × Msg) :=
  (n.systems.entries.flatMap fun system =>
    (system.2.infos.entries.flatMap fun info => match info.2 with
      | .mailbox mailbox => mailbox.queue.map fun m => (⟨system.1, info.1⟩, m)
      | .respCh => []) ++
    system.2.remotes.entries.flatMap fun remote => remote.2.queue.map fun x => (x.ref, x.mars)) ++
  n.conns.entries.flatMap fun conn => conn.2.stream.map fun x => (x.ref, x.mars)

/-- The Tells among the sends. -/
def Send.told : Send → List (ActorRef × Msg)
  | .tell ref m => [(ref, m)]
  | .tellAfter _ _ => []

/-- What has been told or is about to be told and has not been handed over. -/
def World.undelivered (w : World) : List (ActorRef × Msg) :=
  letters w.net ++ (w.running.entries.flatMap fun entry => entry.2.sends.flatMap Send.told) ++
    w.servers.flatMap fun server => server.tells

def World.flushed (w : World) : Bool :=
  w.running.entries.all fun entry => Map.size entry.2.actor.putList = 0

def Msg.isUpdate : Msg → Bool
  | .mUpdate _ => true
  | _ => false

def Msg.isIntro : Msg → Bool
  | .mIntro _ _ => true
  | .mRIntro _ => true
  | _ => false

/-- No MUpdate is undelivered and every putList is empty. -/
def World.settled (w : World) : Bool :=
  w.undelivered.all (fun letter => !letter.2.isUpdate) && w.flushed

/-- No message other than MSync is undelivered and every putList is empty. -/
def World.quiet (w : World) : Bool :=
  w.undelivered.all (fun letter => match letter.2 with
    | .mSync => true
    | _ => false) && w.flushed

end DistSys.Kv
