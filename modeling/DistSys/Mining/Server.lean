import DistSys.Lib.Maps
import Mathlib.Logic.Function.Basic

/-! The mining server: the loop of `main` over the messages and connection errors that
`lspServer.Read` returns, and around it the clients and the miners. -/
namespace DistSys.Mining

open Function (update)
open DistSys.Lib

/-- What a miner is to mine, both ends included. -/
structure MinerData where
  lower : UInt64
  upper : UInt64
  deriving DecidableEq, Repr

/-- A part of a client's request that waits for a miner. -/
structure RequestData where
  clientId : Int
  data : String
  lower : UInt64
  upper : UInt64
  deriving DecidableEq, Repr

structure TaskData where
  data : String
  minerNum : Int
  minerInfo : Map Int MinerData
  currValue : UInt64
  currNonce : UInt64

/-- The data of a Request message to a miner. -/
structure Job where
  data : String
  interval : MinerData
  deriving DecidableEq, Repr

/-- What the server has written: to each miner the Request that it has not answered, and every
Result with the client it went to. -/
structure LspServer where
  requests : Int → Option Job
  results : List (Int × UInt64 × UInt64)

structure Server where
  lspServer : LspServer
  freeMiner : List Int
  workMiner : Map Int Int
  taskMap : Map Int TaskData
  requestQueue : List RequestData

def startServer : Server where
  lspServer := { requests := fun _ => none, results := [] }
  freeMiner := []
  workMiner := ∅
  taskMap := ∅
  requestQueue := []

/-- The running minimum of a task; a value of zero stands for none. -/
def TaskData.improve (task : TaskData) (value nonce : UInt64) : TaskData :=
  if task.currValue = 0 ∨ value < task.currValue then
    { task with currValue := value, currNonce := nonce }
  else task

namespace Server

def writeRequest (s : Server) (id : Int) (job : Job) : Server :=
  { s with lspServer.requests := update s.lspServer.requests id (some job) }

def writeResult (s : Server) (id : Int) (hash nonce : UInt64) : Server :=
  { s with lspServer.results := s.lspServer.results ++ [(id, hash, nonce)] }

/-- A miner has answered, or is gone. -/
def heard (s : Server) (id : Int) : Server :=
  { s with lspServer.requests := update s.lspServer.requests id none }

/-- The task of a client with one more miner; without one, a new task. -/
def taskWith (s : Server) (cid id : Int) (data : String) (interval : MinerData) : TaskData :=
  match s.taskMap.lookup cid with
  | some task =>
    { task with
      minerInfo := task.minerInfo.insert id interval
      minerNum := task.minerNum + 1 }
  | none => ⟨data, 1, (∅ : Map Int MinerData).insert id interval, 0, 0⟩

/-- A miner gets an interval of a client's request. -/
def assign (s : Server) (id cid : Int) (data : String) (lower upper : UInt64) : Server :=
  { s.writeRequest id ⟨data, ⟨lower, upper⟩⟩ with
    workMiner := s.workMiner.insert id cid
    taskMap := s.taskMap.insert cid (s.taskWith cid id data ⟨lower, upper⟩) }

/-- The first request of the queue goes to a miner, whole if it is small; else the first 10000,
and the remaining portion to the end of the queue. -/
def assignFirst (s : Server) (id : Int) (request : RequestData) (rest : List RequestData) :
    Server :=
  let ⟨cid, data, low, upper⟩ := request
  if upper - low + 1 ≤ 10000 then
    { s.assign id cid data low upper with requestQueue := rest }
  else
    { s.assign id cid data low (low + 10000) with
      requestQueue := rest ++ [⟨cid, data, low + 10000, upper⟩] }

def join (s : Server) (id : Int) : Server :=
  match s.requestQueue with
  | [] => { s with freeMiner := s.freeMiner ++ [id] }
  | request :: rest => s.assignFirst id request rest

/-- The loop of a large request over `s.freeMiner`, and the lower bound it ends with. -/
def handOut (id : Int) (data : String) (upper : UInt64) :
    List Int → Server → UInt64 → Server × UInt64
  | [], s, lowerBound => (s, lowerBound)
  | miner :: rest, s, lowerBound =>
    if lowerBound < upper then
      let minerUpper := if upper < lowerBound + 10000 then upper else lowerBound + 10000
      handOut id data upper rest
        ({ s with freeMiner := rest }.assign miner id data lowerBound minerUpper) minerUpper
    else (s, lowerBound)

def request (s : Server) (id : Int) (data : String) (lower upper : UInt64) : Server :=
  match s.freeMiner with
  | [] => { s with requestQueue := s.requestQueue ++ [⟨id, data, lower, upper⟩] }
  | miner :: rest =>
    if upper - lower + 1 ≤ 10000 then
      -- no look here whether the client has a task already
      { s.writeRequest miner ⟨data, ⟨lower, upper⟩⟩ with
        freeMiner := rest
        workMiner := s.workMiner.insert miner id
        taskMap := s.taskMap.insert id
          ⟨data, 1, (∅ : Map Int MinerData).insert miner ⟨lower, upper⟩, 0, 0⟩ }
    else
      let (s, lowerBound) := handOut id data upper s.freeMiner s lower
      if s.freeMiner = [] ∧ lowerBound < upper then
        { s with requestQueue := s.requestQueue ++ [⟨id, data, lowerBound, upper⟩] }
      else s

/-- A miner is taken off its task. -/
def settle (s : Server) (id cid : Int) : Server :=
  match s.taskMap.lookup cid with
  | some task =>
    let task := { task with
      minerInfo := task.minerInfo.erase id
      minerNum := task.minerNum - 1 }
    { s with taskMap := s.taskMap.insert cid task }
  | none => s

/-- A miner that has answered is free again or gets the first request of the queue. -/
def reuse (s : Server) (id : Int) : Server :=
  match s.requestQueue with
  | [] =>
    { s with
      freeMiner := s.freeMiner ++ [id]
      workMiner := s.workMiner.erase id }
  | request :: rest => s.assignFirst id request rest

/-- The value goes into the task; the task is over when no miner is assigned to it. -/
def conclude (s : Server) (cid : Int) (value nonce : UInt64) : Server :=
  match s.taskMap.lookup cid with
  | some task =>
    let task := task.improve value nonce
    if task.minerNum = 0 then
      { s.writeResult cid task.currValue task.currNonce with taskMap := s.taskMap.erase cid }
    else { s with taskMap := s.taskMap.insert cid task }
  | none => s

/-- The client that a miner works for; a key that the map lacks gives zero. -/
def clientOf (s : Server) (id : Int) : Int := (s.workMiner.lookup id).getD 0

def result (s : Server) (id : Int) (value nonce : UInt64) : Server :=
  let cid := s.clientOf id
  let reused := (s.settle id cid).reuse id
  if cid ∈ s.taskMap then reused.conclude cid value nonce else reused

/-- The error of a miner that is not free: its interval goes to a free miner or to the head of
the queue. `none` is a nil pointer dereferenced. -/
def minerFailed (s : Server) (id : Int) : Option Server :=
  match s.workMiner.lookup id with
  | none => some s
  | some cid => match s.taskMap.lookup cid with
    | none => none
    | some task => match task.minerInfo.lookup id with
      | none => none
      | some ⟨low, upper⟩ =>
        let removed := { s.settle id cid with workMiner := s.workMiner.erase id }
        match removed.freeMiner with
        | miner :: rest =>
          some ({ removed with freeMiner := rest }.assign miner cid task.data low upper)
        | [] =>
          some { removed with
            requestQueue := ⟨cid, task.data, low, upper⟩ :: removed.requestQueue }

/-- The error of a connection: of a client whose request waits or is assigned, or of a miner.
Only the first waiting request of the client is removed. -/
def failed (s : Server) (id : Int) : Option Server :=
  let unassignedDisconnect := s.requestQueue.any fun request => request.clientId = id
  if id ∈ s.taskMap ∨ unassignedDisconnect then
    some { s with
      requestQueue := s.requestQueue.eraseP fun request => request.clientId = id
      taskMap := s.taskMap.erase id }
  else if id ∈ s.freeMiner then some { s with freeMiner := s.freeMiner.erase id }
  else s.minerFailed id

end Server

/-! ### The clients and the miners -/

/-- What a connection has turned out to be. -/
inductive Role where
  | unknown
  | miner
  | client (data : String) (lower upper : UInt64)
  deriving DecidableEq, Repr

/-- A Result that the server has read: the client it counts for, the interval that the miner was
sent, and the answer. -/
structure Received where
  client : Int
  interval : MinerData
  hash : UInt64
  nonce : UInt64
  deriving DecidableEq, Repr

/-- `lost` are the connections whose error the server has read. -/
structure World where
  server : Server
  crashed : Bool
  role : Int → Role
  lost : Int → Bool
  received : List Received

def newWorld : World where
  server := startServer
  crashed := false
  role := fun _ => .unknown
  lost := fun _ => false
  received := []

inductive Action where
  | join (id : Int)
  | request (id : Int) (data : String) (lower upper : UInt64)
  | result (id : Int) (hash nonce : UInt64)
  | error (id : Int)
  deriving DecidableEq, Repr

/-- The server handles what it reads next. A connection is a miner, which joins once and then
answers each Request that it is sent with one Result, or a client with one Request; its error is
the last that is read from it. -/
def step (w : World) : Action → Option World
  | .join id =>
    if w.crashed = false ∧ w.lost id = false ∧ w.role id = .unknown then
      some { w with
        server := w.server.join id
        role := update w.role id .miner }
    else none
  | .request id data lower upper =>
    if w.crashed = false ∧ w.lost id = false ∧ w.role id = .unknown then
      some { w with
        server := w.server.request id data lower upper
        role := update w.role id (.client data lower upper) }
    else none
  | .result id hash nonce =>
    match w.server.lspServer.requests id with
    | none => none
    | some job =>
      if w.crashed = false ∧ w.lost id = false then
        some { w with
          server := (w.server.heard id).result id hash nonce
          received := w.received ++ [⟨w.server.clientOf id, job.interval, hash, nonce⟩] }
      else none
  | .error id =>
    if w.crashed = false ∧ w.lost id = false then
      match (w.server.heard id).failed id with
      | none => some { w with crashed := true }
      | some server => some { w with
          server := server
          lost := update w.lost id true }
    else none

end DistSys.Mining
