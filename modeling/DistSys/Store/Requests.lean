import DistSys.Lib.Maps
import Mathlib.Data.List.DropRight

/-! The key-value store `kv_impl`, and the requests that `readRoutine` makes of the lines that a
client sends. -/
namespace DistSys.Store

open DistSys.Lib

abbrev Bytes := List UInt8

/-- The values of every key, in the order in which they were stored. -/
abbrev Impl := Map Bytes (List Bytes)

namespace Impl

def put (im : Impl) (key value : Bytes) : Impl :=
  im.insert key ((im.lookup key).getD [] ++ [value])

def get (im : Impl) (key : Bytes) : List Bytes := (im.lookup key).getD []

def delete (im : Impl) (key : Bytes) : Impl := im.erase key

def update (im : Impl) (key oldVal newVal : Bytes) : Impl :=
  match im.lookup key with
  | none => im.insert key [newVal]
  | some valueList => match valueList.findIdx? (· == oldVal) with
    | some markedIndex => im.insert key (valueList.eraseIdx markedIndex ++ [newVal])
    | none => im.insert key (valueList ++ [newVal])

end Impl

/-- A connection, and the client that is made for it: no connection is accepted twice. -/
abbrev Conn := Nat

inductive RequestType
  | put | get | delete | update | terminate
  deriving DecidableEq, Repr

structure KvRequest where
  currentClient : Conn
  requestType : RequestType
  key : Bytes := []
  oldValue : Bytes := []
  newValue : Bytes := []
  deriving DecidableEq, Repr

def newline : UInt8 := 10

def colon : UInt8 := 58

def word (text : List Char) : Bytes := text.map Char.toUInt8

/-- `bytes.Trim` of line ends. -/
def trim (request : Bytes) : Bytes :=
  (request.dropWhile (· == newline)).rdropWhile (· == newline)

/-- What `readRoutine` makes of a line. `some none` is a line that it ignores. `none` is an index
beyond the fields, which is a panic. -/
def parseRequest (currClient : Conn) (request : Bytes) : Option (Option KvRequest) := do
  let parsedRequest := (trim request).splitOn colon
  let requestType ← parsedRequest[0]?
  if requestType = word ['P', 'u', 't'] then
    let key ← parsedRequest[1]?
    let newValue ← parsedRequest[2]?
    return some { currentClient := currClient, requestType := .put, key, newValue }
  else if requestType = word ['G', 'e', 't'] then
    let key ← parsedRequest[1]?
    return some { currentClient := currClient, requestType := .get, key }
  else if requestType = word ['D', 'e', 'l', 'e', 't', 'e'] then
    let key ← parsedRequest[1]?
    return some { currentClient := currClient, requestType := .delete, key }
  else if requestType = word ['U', 'p', 'd', 'a', 't', 'e'] then
    let key ← parsedRequest[1]?
    let oldValue ← parsedRequest[2]?
    let newValue ← parsedRequest[3]?
    return some { currentClient := currClient, requestType := .update, key, oldValue, newValue }
  else
    return none

/-- A line's request is for its own client, and no line ends the connection. -/
theorem parseRequest_client {currClient : Conn} {request : Bytes} {r : KvRequest}
    (parsed : parseRequest currClient request = some (some r)) :
    r.currentClient = currClient ∧ r.requestType ≠ .terminate := by
  simp only [parseRequest, Option.bind_eq_bind, Option.pure_def, Option.bind_eq_some_iff] at parsed
  obtain ⟨requestType, _, parsed⟩ := parsed
  split at parsed
  · simp only [Option.bind_eq_some_iff, Option.some.injEq] at parsed
    obtain ⟨_, _, _, _, rfl⟩ := parsed
    exact ⟨rfl, nofun⟩
  split at parsed
  · simp only [Option.bind_eq_some_iff, Option.some.injEq] at parsed
    obtain ⟨_, _, rfl⟩ := parsed
    exact ⟨rfl, nofun⟩
  split at parsed
  · simp only [Option.bind_eq_some_iff, Option.some.injEq] at parsed
    obtain ⟨_, _, rfl⟩ := parsed
    exact ⟨rfl, nofun⟩
  split at parsed
  · simp only [Option.bind_eq_some_iff, Option.some.injEq] at parsed
    obtain ⟨_, _, _, _, _, _, rfl⟩ := parsed
    exact ⟨rfl, nofun⟩
  · simp at parsed

end DistSys.Store
