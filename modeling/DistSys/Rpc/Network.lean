import DistSys.Lib.Maps
import DistSys.Lib.Runs

/-! The simulated network under the Raft peers. Every `Call` has a `ProcessReq` goroutine, and that
starts one more goroutine for the handler. A step is one section under a lock, one meeting at a
channel or one random draw; sleeps are left out, and with them the two settings that only make them
longer. The sleep of `LongReordering` comes after the last look at the server, so it stretches
`answering`: an end disabled or a server deleted there is not noticed any more. A `replyMsg` that is
not `ok` is `none`. -/
namespace DistSys.Rpc

open DistSys.Lib

variable {Name Rcvr Args Reply : Type}

/-- `methods` are the names of the methods that `MakeService` found suitable. -/
structure Service (Rcvr : Type) where
  name : String
  rcvr : Rcvr
  methods : List String

structure Server (Rcvr : Type) where
  services : Map String (Service Rcvr)
  count : Nat

def makeServer : Server Rcvr where
  services := ∅
  count := 0

def Server.addService (rs : Server Rcvr) (svc : Service Rcvr) : Server Rcvr :=
  { rs with services := rs.services.insert svc.name svc }

/-- The two parts of a text around its last dot. -/
def cutLastDot (svcMeth : String) : Option (String × String) :=
  match svcMeth.toList.reverse.span (· ≠ '.') with
  | (_, []) => none
  | (method, _ :: service) => some (String.ofList service.reverse, String.ofList method.reverse)

/-- The receiver and the method that `svcMeth` names. Without a dot the slice is out of range, and an
unknown service or method is fatal. -/
def Server.find (rs : Server Rcvr) (svcMeth : String) : Option (Rcvr × String) := do
  let (serviceName, methodName) ← cutLastDot svcMeth
  let service ← rs.services.lookup serviceName
  if methodName ∈ service.methods then some (service.rcvr, methodName) else none

structure ReqMsg (Name Args : Type) where
  endname : Name
  svcMeth : String
  args : Args

/-- What `ReadEndnameInfo` has found for a request that can be delivered. `server` is a pointer. -/
structure Route (Name : Type) where
  servername : Name
  server : Nat
  reliable : Bool
  deriving DecidableEq

/-- Where `Call` and its `ProcessReq` stand: at `endCh`, before the routing, before the draw that may
lose the request, in the loop around `ech`, before the last look at the server, at `replyCh`, or
returned to the caller. -/
inductive ReqPc (Name Reply : Type)
  | sending
  | started
  | sleeping (route : Route Name)
  | waiting (route : Route Name)
  | checking (route : Route Name) (reply : Option Reply)
  | answering (reply : Option Reply)
  | returned (reply : Option Reply)

/-- Where the goroutine of the handler stands: not there, before `dispatch`, in the method, at `ech`,
or gone. `fatal` has ended the process. -/
inductive HandlerPc (Rcvr Reply : Type)
  | unstarted
  | dispatching (server : Nat)
  | fatal
  | running (rcvr : Rcvr) (method : String)
  | replying (reply : Reply)
  | ended (reply : Reply)

structure Call (Name Rcvr Args Reply : Type) where
  req : ReqMsg Name Args
  pc : ReqPc Name Reply
  handler : HandlerPc Rcvr Reply

/-- `objects` are all servers that `MakeServer` has made, a pointer is a position there. -/
structure Network (Name Rcvr Args Reply : Type) where
  reliable : Bool
  ends : List Name
  enabled : Map Name Bool
  servers : Map Name (Option Nat)
  connections : Map Name (Option Name)
  objects : List (Server Rcvr)
  calls : List (Call Name Rcvr Args Reply)
  crashed : Bool

def makeNetwork : Network Name Rcvr Args Reply where
  reliable := true
  ends := []
  enabled := ∅
  servers := ∅
  connections := ∅
  objects := []
  calls := []
  crashed := false

/-- What one of the two goroutines of a call does. `drop` and the flag of `check` are draws of an
unreliable network; `invoke` is the return of the method. -/
inductive Turn (Reply : Type)
  | accept
  | route
  | drop
  | forward
  | invoke (reply : Reply)
  | collect
  | timeout
  | check (lost : Bool)
  | reply

inductive Action (Name Rcvr Args Reply : Type)
  | reliable (yes : Bool)
  | makeEnd (endname : Name)
  | makeServer
  | addService (server : Nat) (svc : Service Rcvr)
  | addServer (servername : Name) (server : Nat)
  | deleteServer (servername : Name)
  | connect (endname servername : Name)
  | enable (endname : Name) (enabled : Bool)
  | call (req : ReqMsg Name Args)
  | turn (c : Nat) (turn : Turn Reply)
  | dispatch (c : Nat)

variable [DecidableEq Name]

namespace Network

def isEnabled (rn : Network Name Rcvr Args Reply) (endname : Name) : Bool :=
  (rn.enabled.lookup endname).getD false

/-- The pointer under a name; a missing one is nil. -/
def serverOf (rn : Network Name Rcvr Args Reply) (servername : Name) : Option Nat :=
  (rn.servers.lookup servername).join

def connectionOf (rn : Network Name Rcvr Args Reply) (endname : Name) : Option Name :=
  (rn.connections.lookup endname).join

def readEndnameInfo (rn : Network Name Rcvr Args Reply) (endname : Name) : Option (Route Name) := do
  if rn.isEnabled endname then
    let servername ← rn.connectionOf endname
    let server ← rn.serverOf servername
    some ⟨servername, server, rn.reliable⟩
  else none

def isServerDead (rn : Network Name Rcvr Args Reply) (endname servername : Name) (server : Nat) :
    Bool :=
  rn.isEnabled endname = false ∨ rn.serverOf servername ≠ some server

/-- `none` is the nil pointer of a name without a server. -/
def getCount (rn : Network Name Rcvr Args Reply) (servername : Name) : Option Nat := do
  let server ← rn.serverOf servername
  let rs ← rn.objects[server]?
  some rs.count

def crash (rn : Network Name Rcvr Args Reply) : Network Name Rcvr Args Reply :=
  { rn with crashed := true }

end Network

/-- The turns that change nothing but the call itself. -/
def Call.turn (rn : Network Name Rcvr Args Reply) (call : Call Name Rcvr Args Reply) :
    Turn Reply → Option (Call Name Rcvr Args Reply)
  | .accept => match call.pc with
    | .sending => some { call with pc := .started }
    | _ => none
  | .route => match call.pc with
    | .started => match rn.readEndnameInfo call.req.endname with
      | some route => some { call with pc := .sleeping route }
      | none => some { call with pc := .answering none }
    | _ => none
  | .drop => match call.pc with
    | .sleeping route => if route.reliable then none else some { call with pc := .answering none }
    | _ => none
  | .forward => match call.pc with
    | .sleeping route =>
      some { call with pc := .waiting route, handler := .dispatching route.server }
    | _ => none
  | .invoke reply => match call.handler with
    | .running _ _ => some { call with handler := .replying reply }
    | _ => none
  | .collect => match call.pc, call.handler with
    | .waiting route, .replying reply =>
      some { call with pc := .checking route (some reply), handler := .ended reply }
    | _, _ => none
  | .timeout => match call.pc with
    | .waiting route =>
      if rn.isServerDead call.req.endname route.servername route.server then
        some { call with pc := .checking route none }
      else some call
    | _ => none
  | .check lost => match call.pc with
    | .checking route reply =>
      if rn.isServerDead call.req.endname route.servername route.server then
        some { call with pc := .answering none }
      else if route.reliable = false ∧ lost = true then some { call with pc := .answering none }
      else some { call with pc := .answering reply }
    | _ => none
  | .reply => match call.pc with
    | .answering reply => some { call with pc := .returned reply }
    | _ => none

/-- The locked section of `dispatch` and the two look-ups behind it. -/
def Network.dispatch (rn : Network Name Rcvr Args Reply) (c : Nat)
    (call : Call Name Rcvr Args Reply) (server : Nat) (rs : Server Rcvr) :
    Network Name Rcvr Args Reply :=
  let rn := { rn with objects := rn.objects.set server { rs with count := rs.count + 1 } }
  match rs.find call.req.svcMeth with
  | some (rcvr, method) =>
    { rn with calls := rn.calls.set c { call with handler := .running rcvr method } }
  | none => { rn with calls := rn.calls.set c { call with handler := .fatal } }.crash

def step (rn : Network Name Rcvr Args Reply) (a : Action Name Rcvr Args Reply) :
    Option (Network Name Rcvr Args Reply) :=
  if rn.crashed then none else
  match a with
  | .reliable yes => some { rn with reliable := yes }
  | .makeEnd endname =>
    if endname ∈ rn.ends then some rn.crash
    else some { rn with
      ends := endname :: rn.ends
      enabled := rn.enabled.insert endname false
      connections := rn.connections.insert endname none }
  | .makeServer => some { rn with objects := rn.objects ++ [makeServer] }
  | .addService server svc => match rn.objects[server]? with
    | none => none
    | some rs => some { rn with objects := rn.objects.set server (rs.addService svc) }
  | .addServer servername server =>
    if server < rn.objects.length then
      some { rn with servers := rn.servers.insert servername (some server) }
    else none
  | .deleteServer servername => some { rn with servers := rn.servers.insert servername none }
  | .connect endname servername =>
    some { rn with connections := rn.connections.insert endname (some servername) }
  | .enable endname enabled => some { rn with enabled := rn.enabled.insert endname enabled }
  | .call req => some { rn with calls := rn.calls ++ [⟨req, .sending, .unstarted⟩] }
  | .turn c turn => match rn.calls[c]? with
    | none => none
    | some call => match call.turn rn turn with
      | none => none
      | some call => some { rn with calls := rn.calls.set c call }
  | .dispatch c => match rn.calls[c]? with
    | none => none
    | some call => match call.handler with
      | .dispatching server => match rn.objects[server]? with
        | none => none
        | some rs => some (rn.dispatch c call server rs)
      | _ => none

end DistSys.Rpc
