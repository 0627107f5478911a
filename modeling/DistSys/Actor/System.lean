import DistSys.Lib.Maps

/-! The actor package: systems with the mailboxes of their actors and the mailboxes in which
messages to other systems wait, and the connections between systems. A message stands for its
marshalled bytes. -/
namespace DistSys.Actor

open DistSys.Lib

/-- A reference to an actor or to a response channel; makes sense in every system. -/
structure ActorRef where
  address : String
  counter : Int
  deriving DecidableEq, Repr

def ActorRef.uid (ref : ActorRef) : String := ref.address ++ "/" ++ toString ref.counter

/-! ### Mailboxes -/

structure Mailbox (α : Type) where
  queue : List α
  isClosed : Bool
  deriving DecidableEq, Repr

namespace Mailbox

variable {α : Type}

def new : Mailbox α := ⟨[], false⟩

def push (mailbox : Mailbox α) (message : α) : Mailbox α :=
  if mailbox.isClosed then mailbox else { mailbox with queue := mailbox.queue ++ [message] }

/-- `none` while the call blocks; once the mailbox is closed there is no message, whatever the
queue holds. -/
def pop (mailbox : Mailbox α) : Option (Option α × Mailbox α) :=
  if mailbox.isClosed then some (none, mailbox)
  else match mailbox.queue with
    | [] => none
    | message :: rest => some (some message, { mailbox with queue := rest })

def close (mailbox : Mailbox α) : Mailbox α := { mailbox with isClosed := true }

end Mailbox

/-! ### Actor systems -/

structure RemoteMessage (M : Type) where
  ref : ActorRef
  mars : M
  deriving DecidableEq, Repr

inductive ActorRefInfo (M : Type) where
  | mailbox (mailbox : Mailbox M)
  | respCh

def ActorRefInfo.close {M : Type} : ActorRefInfo M → ActorRefInfo M
  | .mailbox box => .mailbox box.close
  | .respCh => .respCh

/-- `respChs` is what stands in the response channels; each holds one message. -/
structure ActorSystem (M : Type) where
  nextCounter : Int
  infos : Map Int (ActorRefInfo M)
  respChs : Map Int M
  remotes : Map String (Mailbox (RemoteMessage M))
  closed : Bool

namespace ActorSystem

variable {M : Type}

def new : ActorSystem M := ⟨0, ∅, ∅, ∅, false⟩

/-- A closed system returns a fake reference. -/
def startActor (s : ActorSystem M) (address : String) : ActorRef × ActorSystem M :=
  if s.closed then (⟨address, -1⟩, s)
  else (⟨address, s.nextCounter⟩, { s with
    nextCounter := s.nextCounter + 1
    infos := s.infos.insert s.nextCounter (.mailbox .new) })

def newChannelRef (s : ActorSystem M) (address : String) : ActorRef × ActorSystem M :=
  if s.closed then (⟨address, -1⟩, s)
  else (⟨address, s.nextCounter⟩, { s with
    nextCounter := s.nextCounter + 1
    infos := s.infos.insert s.nextCounter .respCh })

/-- `address` is that of the system itself. -/
def tellMarshalled (s : ActorSystem M) (address : String) (ref : ActorRef) (mars : M) :
    ActorSystem M :=
  if ref.address = address then
    match s.infos.lookup ref.counter with
    -- no such reference, or a channel used twice: dropped
    | none => s
    | some (.mailbox mailbox) =>
      { s with infos := s.infos.insert ref.counter (.mailbox (mailbox.push mars)) }
    | some .respCh =>
      { s with
        infos := s.infos.erase ref.counter
        respChs := s.respChs.insert ref.counter mars }
  else
    match s.remotes.lookup ref.address with
    | some mailbox =>
      { s with remotes := s.remotes.insert ref.address (mailbox.push ⟨ref, mars⟩) }
    | none =>
      if s.closed then s
      else { s with remotes := s.remotes.insert ref.address (Mailbox.new.push ⟨ref, mars⟩) }

def close (s : ActorSystem M) : ActorSystem M :=
  if s.closed then s
  else { s with
    closed := true
    infos := Map.mapValues ActorRefInfo.close s.infos
    remotes := Map.mapValues Mailbox.close s.remotes }

end ActorSystem

/-! ### The systems and the connections between them -/

/-- The RPC connection of a `remoteSendRoutine`: the requests that `Client.Go` has written and
`ServeRequest` has not served. `broken`: writes fail. `hungUp`: nothing more is served. -/
structure Conn (M : Type) where
  stream : List (RemoteMessage M)
  broken : Bool
  hungUp : Bool

def Conn.write {M : Type} (conn : Conn M) (message : RemoteMessage M) : Conn M :=
  if conn.broken then conn else { conn with stream := conn.stream ++ [message] }

structure Net (M : Type) where
  systems : Map String (ActorSystem M)
  conns : Map (String × String) (Conn M)

namespace Net

variable {M : Type}

def new : Net M := ⟨∅, ∅⟩

def setSystem (n : Net M) (address : String) (s : ActorSystem M) : Net M :=
  { n with systems := n.systems.insert address s }

/-- Another system cannot listen at the same address. -/
def newActorSystem (n : Net M) (address : String) : Option (Net M) :=
  if address ∈ n.systems then none else some (n.setSystem address .new)

def startActor (n : Net M) (address : String) : Option (ActorRef × Net M) :=
  (n.systems.lookup address).map fun s =>
    ((s.startActor address).1, n.setSystem address (s.startActor address).2)

def newChannelRef (n : Net M) (address : String) : Option (ActorRef × Net M) :=
  (n.systems.lookup address).map fun s =>
    ((s.newChannelRef address).1, n.setSystem address (s.newChannelRef address).2)

def close (n : Net M) (address : String) : Option (Net M) :=
  (n.systems.lookup address).map fun s => n.setSystem address s.close

/-- `Tell` in one of the systems. -/
def tell (n : Net M) (src : String) (ref : ActorRef) (m : M) : Net M :=
  match n.systems.lookup src with
  | none => n
  | some s => n.setSystem src (s.tellMarshalled src ref m)

/-- `runActor` takes the next message. -/
def pop (n : Net M) (ref : ActorRef) : Option (M × Net M) :=
  match n.systems.lookup ref.address with
  | none => none
  | some s => match s.infos.lookup ref.counter with
    | some (.mailbox mailbox) => match mailbox.pop with
      | some (some m, rest) => some (m, n.setSystem ref.address
          { s with infos := s.infos.insert ref.counter (.mailbox rest) })
      | _ => none
    | _ => none

/-- The holder of a response channel receives from it. -/
def receive (n : Net M) (ref : ActorRef) : Option (M × Net M) :=
  match n.systems.lookup ref.address with
  | none => none
  | some s => match s.respChs.lookup ref.counter with
    | none => none
    | some m => some (m, n.setSystem ref.address
        { s with respChs := s.respChs.erase ref.counter })

/-- `remoteSendRoutine` dials; when that fails it closes the mailbox and ends. -/
def dial (n : Net M) (src dst : String) (success : Bool) : Option (Net M) :=
  match n.systems.lookup src with
  | none => none
  | some s => match s.remotes.lookup dst, n.conns.lookup (src, dst) with
    | some mailbox, none =>
      if success then
        if dst ∈ n.systems then
          some { n with conns := n.conns.insert (src, dst) ⟨[], false, false⟩ }
        else none
      else some (n.setSystem src { s with remotes := s.remotes.insert dst mailbox.close })
    | _, _ => none

/-- A turn of the loop in `remoteSendRoutine`. -/
def remoteSend (n : Net M) (src dst : String) : Option (Net M) :=
  match n.systems.lookup src with
  | none => none
  | some s => match s.remotes.lookup dst, n.conns.lookup (src, dst) with
    | some mailbox, some conn => match mailbox.pop with
      | some (some message, rest) => some
          { n.setSystem src { s with remotes := s.remotes.insert dst rest } with
            conns := n.conns.insert (src, dst) (conn.write message) }
      | _ => none
    | _, _ => none

/-- `ServeRequest` serves the next request: `RemoteTell`, `tellFromRemote`. -/
def serveRequest (n : Net M) (src dst : String) : Option (Net M) :=
  match n.conns.lookup (src, dst) with
  | none => none
  | some conn =>
    if conn.hungUp then none
    else match conn.stream with
      | [] => none
      | message :: rest =>
        some ({ n with conns := n.conns.insert (src, dst) { conn with stream := rest } }.tell
          dst message.ref message.mars)

/-- A connection fails, for the side that writes or for the side that serves. -/
def fail (n : Net M) (src dst : String) (writer : Bool) : Option (Net M) :=
  match n.conns.lookup (src, dst) with
  | none => none
  | some conn =>
    let failed := if writer then { conn with broken := true } else { conn with hungUp := true }
    some { n with conns := n.conns.insert (src, dst) failed }

end Net

end DistSys.Actor
