import DistSys.Mining.Coverage

/-! What the clients are told. A task is over when no miner is assigned to it; whether that is the
end of the request depends on what still waits in the queue. -/
namespace DistSys.Mining

open Function (update)
open DistSys.Lib

variable {w w' : World} {a : Action} {s s' : Server} {id cid c : Int} {hash nonce : UInt64}

/-! ### The last result of a task -/

namespace Server

/-- The first request of the queue is of this client. -/
def servesNext (s : Server) (cid : Int) : Bool :=
  match s.requestQueue with
  | [] => false
  | r :: _ => r.clientId = cid

/-- With the result of this miner no miner is assigned to its client's task: it was the last,
and it does not get the next part of the same request. -/
def finishes (s : Server) (id : Int) : Bool :=
  match s.taskMap.lookup (s.clientOf id) with
  | some task => task.minerNum - 1 + (if s.servesNext (s.clientOf id) then 1 else 0) = 0
  | none => false

end Server

theorem join_num : (s.join id).num c = s.num c + if s.servesNext c then 1 else 0 := by
  cases queue : s.requestQueue with
  | nil =>
    simp only [Server.join, Server.servesNext, queue, Bool.false_eq_true, if_false, Int.add_zero]
    rfl
  | cons r rest =>
    have assigned : (s.assignFirst id r rest).num c =
        if c = r.clientId then s.num r.clientId + 1 else s.num c := by
      simp only [Server.assignFirst]
      split <;> exact Server.assign_num
    simp only [Server.join, Server.servesNext, queue, assigned, decide_eq_true_eq]
    by_cases same : c = r.clientId
    · rw [if_pos same, if_pos same.symm, same]
    · rw [if_neg same, if_neg (Ne.symm same), Int.add_zero]

/-- A result that ends a task was one that finishes it. -/
theorem finishes_of_last {task : TaskData} (working : s.workMiner.lookup id = some cid)
    (known : cid ∈ s.taskMap)
    (found : ((s.release id cid).join id).taskMap.lookup cid = some task)
    (last : task.minerNum = 0) : s.finishes id = true := by
  have of := Server.clientOf_eq working
  have zero : ((s.release id cid).join id).num cid = 0 := by
    simp only [Server.num, found, last]
  have next : (s.release id cid).servesNext cid = s.servesNext cid := by
    simp only [Server.servesNext, Server.release_queue]
  rw [join_num, next, Server.release_num known, if_pos rfl] at zero
  obtain ⟨old, before⟩ := Map.lookup_of_mem known
  simp only [Server.num, before] at zero
  rw [Server.finishes, of, before]
  exact decide_eq_true zero

/-- A task is finished only when no part of the request waits. -/
def nothingWaits (w : World) : Action → Bool
  | .result id _ _ =>
    !w.server.finishes id ||
      w.server.requestQueue.all fun r => r.clientId ≠ w.server.clientOf id
  | _ => true

/-- A result after which the task is over and the client is answered. -/
structure Ends (w : World) (id cid : Int) (hash nonce : UInt64) (job : Job) (task : TaskData)
    (w' : World) : Prop where
  working : w.server.workMiner.lookup id = some cid
  sent : w.server.lspServer.requests id = some job
  known : cid ∈ w.server.taskMap
  moves : Moves w.Miner (fun _ => True) ⟨w.server.release id cid, []⟩
    ⟨(w.server.release id cid).join id, []⟩
  found : ((w.server.release id cid).join id).taskMap.lookup cid = some task
  last : task.minerNum = 0
  after : w' = { w with
    server := { ((w.server.release id cid).join id).writeResult cid
        (task.improve hash nonce).currValue (task.improve hash nonce).currNonce with
      taskMap := ((w.server.release id cid).join id).taskMap.erase cid }
    received := w.received ++ [⟨cid, job.interval, hash, nonce⟩] }

theorem released_results {miner fits : Int → Prop} {h : List RequestData}
    (moves : Moves miner fits ⟨s.release id cid, h⟩ ⟨s', []⟩) :
    s'.lspServer.results = s.lspServer.results := by
  rw [Moves.results moves, Server.release_lsp]
  rfl

theorem Turn.results (turn : Turn w a w') :
    w'.server.lspServer.results = w.server.lspServer.results ∨
    ∃ id cid hash nonce job task, a = .result id hash nonce ∧
      Ends w id cid hash nonce job task w' := by
  cases turn with
  | join new books moves | request new there books moves => exact .inl (Moves.results moves)
  | @result id cid hash nonce job s working sent books moves ends =>
    have before := released_results moves
    rcases ends with ⟨_, rfl⟩ | ⟨known, done⟩
    · exact .inl before
    · cases done with
      | goesOn found more => exact .inl before
      | isOver found last =>
        exact .inr ⟨id, cid, hash, nonce, job, _, rfl, working, sent, known, moves, found, last,
          rfl⟩
  | abandon pending notMine => exact .inl rfl
  | quit settled none => exact .inl rfl
  | fail working sent known books moves => exact .inl (released_results moves)
  | crash working missing => exact .inl rfl

section

variable {job : Job} {task : TaskData}

theorem Ends.results (ends : Ends w id cid hash nonce job task w') :
    w'.server.lspServer.results = w.server.lspServer.results ++
      [(cid, (task.improve hash nonce).currValue, (task.improve hash nonce).currNonce)] := by
  rw [ends.after]
  simp only [Server.writeResult, released_results ends.moves]

/-- Nothing of the request is left when the client is answered. -/
theorem Ends.gone (ends : Ends w id cid hash nonce job task w')
    (ok : nothingWaits w (.result id hash nonce) = true) : Gone ⟨w'.server, []⟩ cid := by
  have of := Server.clientOf_eq ends.working
  have finished := finishes_of_last ends.working ends.known ends.found ends.last
  simp only [nothingWaits, finished, Bool.not_true, Bool.false_or, of, List.all_eq_true,
    decide_eq_true_eq] at ok
  have before : NoneWaits ⟨w.server, []⟩ cid := by
    rintro r (queued | inHand)
    · exact ok r queued
    · cases inHand
  have after := Moves.noneWaits ends.moves before.release
  rw [ends.after]
  exact ⟨AList.lookup_erase .., after⟩

end

/-! ### At most one answer -/

/-- The answers that went to a client. -/
def Server.answersTo (s : Server) (c : Int) : List (Int × UInt64 × UInt64) :=
  s.lspServer.results.filter fun result => result.1 = c

/-- A client is answered once, and then nothing of its request is left. -/
structure Once (w : World) : Prop where
  kept : w.Kept
  once : ∀ c, (w.server.answersTo c).length ≤ 1
  gone : ∀ result ∈ w.server.lspServer.results, Gone ⟨w.server, []⟩ result.1 ∧
    ∃ data, w.Client result.1 data

theorem newWorld_once : Once newWorld where
  kept := newWorld_kept
  once := fun _ => Nat.zero_le 1
  gone := by simp [newWorld, startServer]

/-- A client with a task has not been answered. -/
theorem Once.no_answer (once : Once w) (known : c ∈ w.server.taskMap) :
    w.server.answersTo c = [] := by
  rw [Server.answersTo, List.filter_eq_nil_iff]
  intro result member own
  obtain ⟨task, found⟩ := Map.lookup_of_mem known
  have none := (once.gone result member).1.task
  rw [of_decide_eq_true own] at none
  cases none.symm.trans found

theorem Once.next (once : Once w) (ok : nothingWaits w a = true) (taken : step w a = some w') :
    Once w' := by
  have turn := turn_of_step once.kept taken
  have kept := turn.kept once.kept
  have old : ∀ result ∈ w.server.lspServer.results, Gone ⟨w'.server, []⟩ result.1 ∧
      ∃ data, w'.Client result.1 data := by
    intro result member
    obtain ⟨gone, data, known⟩ := once.gone result member
    exact ⟨turn.gone known gone, data, turn.keeps_client known⟩
  rcases turn.results with same | ⟨id, cid, hash, nonce, job, task, rfl, ends⟩
  · refine ⟨kept, fun c => ?_, same ▸ old⟩
    simpa only [Server.answersTo, same] using once.once c
  · have first := once.no_answer ends.known
    refine ⟨kept, fun c => ?_, ?_⟩
    · simp only [Server.answersTo, ends.results, List.filter_append]
      by_cases own : cid = c
      · subst own
        rw [Server.answersTo] at first
        rw [first]
        simp
      · simpa [own, Server.answersTo] using once.once c
    · intro result member
      rw [ends.results] at member
      rcases List.mem_append.mp member with before | new
      · exact old result before
      · cases List.mem_singleton.mp new
        obtain ⟨_, _, _, known⟩ := once.kept.worker ends.working
        exact ⟨ends.gone ok, _, turn.keeps_client known⟩

theorem at_most_one_answer (acts : List Action) (w : World)
    (reached : run step newWorld acts = some w) (ok : Along step nothingWaits newWorld acts)
    (c : Int) : (w.server.answersTo c).length ≤ 1 := by
  have once : Once w := by
    refine run_invariant Once ?_ newWorld_once acts ok reached
    exact fun s a t inv ok taken => inv.next ok taken
  exact once.once c

/-- One miner serves two clients; the first one's request is large. -/
def takesTurns : List Action :=
  [.request 1 "msg" 0 15000, .join 3, .result 3 7 0, .request 2 "msg" 0 5, .result 3 5 12000,
    .result 3 9 3]

theorem takes_turns_answered_once : ∃ w, run step newWorld takesTurns = some w ∧
    w.server.answersTo 1 = [(1, 5, 12000)] ∧ (w.server.answersTo 1).length ≤ 1 :=
  ⟨_, rfl, by decide, at_most_one_answer takesTurns _ rfl (by decide) 1⟩

/-- The rest of the request waits behind another client's while its first part is mined. The
client is answered for the first part, and again for the rest. -/
theorem answered_twice : ∃ w, run step newWorld
    [.request 1 "msg" 0 15000, .request 2 "msg" 0 5, .join 3, .result 3 7 0, .result 3 9 3,
      .result 3 5 12000] = some w ∧
    w.server.answersTo 1 = [(1, 7, 0), (1, 5, 12000)] :=
  ⟨_, rfl, by decide⟩

end DistSys.Mining
