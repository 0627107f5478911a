import DistSys.Mining.Moves

/-! The handlers of the server as lists of moves, and with them what one step of the world is. -/
namespace DistSys.Mining

open Function (update)
open DistSys.Lib

variable {miner : Int → Prop} {client : Int → String → Prop} {fits : Int → Prop}
variable {s s' : Server} {id cid c : Int} {data : String} {lower upper : UInt64}

/-! ### Join and Result -/

theorem cut_large {low : UInt64} (large : ¬upper - low + 1 ≤ 10000) (proper : low ≤ upper) :
    low ≤ low + 10000 ∧ low + 10000 ≤ upper := by
  have small := UInt64.toNat_lt upper
  simp only [UInt64.le_iff_toNat_le, UInt64.toNat_add, UInt64.toNat_sub_of_le _ _ proper,
    UInt64.reduceToNat] at *
  omega

theorem assignFirst_moves {r : RequestData} {rest : List RequestData}
    (first : s.requestQueue = r :: rest) (idle : Idle miner s id) :
    Moves miner (fun _ => True) ⟨s, []⟩ ⟨s.assignFirst id r rest, []⟩ := by
  have popped : Move miner (fun _ => True) ⟨s, []⟩ ⟨{ s with requestQueue := rest }, [r]⟩ :=
    .pop first
  have still : Idle miner { s with requestQueue := rest } id := ⟨idle.miner, idle.free, idle.work⟩
  obtain ⟨cid, data, low, upper⟩ := r
  simp only [Server.assignFirst]
  split
  · exact (Relation.ReflTransGen.single popped).tail (.assign still)
  · rename_i large
    have halved := (Relation.ReflTransGen.single popped).tail
      (.cut (low + 10000) fun _ proper => cut_large large proper)
    exact (halved.tail (.assign still)).tail .back

theorem join_moves (idle : Idle miner s id) :
    Moves miner (fun _ => True) ⟨s, []⟩ ⟨s.join id, []⟩ := by
  unfold Server.join
  split
  · exact .single (.rest idle)
  · rename_i first
    exact assignFirst_moves first idle

theorem reuse_eq : s.reuse id = { s with workMiner := s.workMiner.erase id }.join id := by
  unfold Server.reuse Server.join
  split
  · rename_i empty
    simp only [empty]
  · rename_i first
    simp only [first, Server.assignFirst, Server.assign, Server.writeRequest, Map.insert_erase]
    rfl

/-- A Result of a working miner: it is released and then placed as if it had just joined. -/
theorem result_eq {hash nonce : UInt64} (working : s.workMiner.lookup id = some cid) :
    (s.heard id).result id hash nonce =
      if cid ∈ s.taskMap then ((s.release id cid).join id).conclude cid hash nonce
      else (s.release id cid).join id := by
  have of : (s.heard id).clientOf id = cid := Server.clientOf_eq working
  simp only [Server.result, of, reuse_eq]
  rw [Server.settle_frame.2.2.2]
  rfl

/-! ### Request -/

/-- The sums of the loop over the free miners do not overflow, or it is not entered. -/
def Fits (s : Server) (lower upper : UInt64) : Prop :=
  s.freeMiner = [] ∨ upper - lower + 1 ≤ 10000 ∨ upper.toNat + 10000 < UInt64.size

theorem handOut_stays (free : List Int) {lowerBound : UInt64} (done : ¬lowerBound < upper) :
    Server.handOut id data upper free s lowerBound = (s, lowerBound) := by
  cases free with
  | nil => rfl
  | cons first rest => simp only [Server.handOut, done, if_false]

variable (fits) in
/-- The loop leaves a rest in hand when the free miners run out, or nothing. -/
theorem handOut_moves (free : List Int) {s : Server} {lowerBound : UInt64}
    (start : s.freeMiner = free) (room : fits id → upper.toNat + 10000 < UInt64.size)
    (books : Books miner client ⟨s, [⟨id, data, lowerBound, upper⟩]⟩) (more : lowerBound < upper) :
    let out := Server.handOut id data upper free s lowerBound
    (out.2 < upper ∧ out.1.freeMiner = [] ∧
      Moves miner fits ⟨s, [⟨id, data, lowerBound, upper⟩]⟩ ⟨out.1, [⟨id, data, out.2, upper⟩]⟩) ∨
    (¬out.2 < upper ∧ Moves miner fits ⟨s, [⟨id, data, lowerBound, upper⟩]⟩ ⟨out.1, []⟩) := by
  induction free generalizing s lowerBound with
  | nil => exact .inl ⟨more, start, .refl⟩
  | cons first rest ih =>
    have taken : Move miner fits ⟨s, [⟨id, data, lowerBound, upper⟩]⟩
        ⟨{ s with freeMiner := rest }, [⟨id, data, lowerBound, upper⟩]⟩ := .take start
    have idle := books.taken start
    simp only [Server.handOut, more, if_true]
    by_cases last : lowerBound + 10000 < upper
    · -- a full part goes to this miner, the loop goes on with the rest
      have notOver : ¬upper < lowerBound + 10000 := UInt64.not_lt.mpr (UInt64.le_of_lt last)
      simp only [notOver, if_false]
      have given := ((Relation.ReflTransGen.single taken).tail
        (.cut (lowerBound + 10000) fun fit _ => by
          have := room fit
          simp only [UInt64.lt_iff_toNat_lt, UInt64.le_iff_toNat_le, UInt64.toNat_add,
            UInt64.reduceToNat, UInt64.size] at *
          omega)).tail (.assign idle)
      rcases ih rfl (Moves.books given books) last with ⟨left, none, moves⟩ | ⟨done, moves⟩
      · exact .inl ⟨left, none, given.trans moves⟩
      · exact .inr ⟨done, given.trans moves⟩
    · -- the rest is given whole and the loop ends
      have whole : (if upper < lowerBound + 10000 then upper else lowerBound + 10000) = upper := by
        split
        · rfl
        · exact UInt64.le_antisymm (UInt64.not_lt.mp ‹_›) (UInt64.not_lt.mp last)
      have stop : ¬upper < upper := UInt64.lt_irrefl upper
      simp only [whole, handOut_stays rest stop]
      exact .inr ⟨stop, (Relation.ReflTransGen.single taken).tail (.assign idle)⟩

/-- Without an older task, the new one that a small request stores is an assignment. -/
theorem assign_fresh {miner : Int} {rest : List Int} (fresh : s.taskMap.lookup id = none) :
    { s with freeMiner := rest }.assign miner id data lower upper =
      { s.writeRequest miner ⟨data, ⟨lower, upper⟩⟩ with
        freeMiner := rest
        workMiner := s.workMiner.insert miner id
        taskMap := s.taskMap.insert id
          ⟨data, 1, (∅ : Map Int MinerData).insert miner ⟨lower, upper⟩, 0, 0⟩ } := by
  simp only [Server.assign, Server.taskWith, fresh]
  rfl

theorem request_moves (books : Books miner client ⟨s, [⟨id, data, lower, upper⟩]⟩)
    (fresh : s.taskMap.lookup id = none) :
    Moves miner (fun c => c = id → Fits s lower upper) ⟨s, [⟨id, data, lower, upper⟩]⟩
      ⟨s.request id data lower upper, []⟩ := by
  unfold Server.request
  split
  · exact .single .back
  · rename_i first rest start
    have idle := books.taken start
    split
    · rw [← assign_fresh fresh]
      exact (Relation.ReflTransGen.single (.take start)).tail (.assign idle)
    · rename_i large
      by_cases more : lower < upper
      · have room : (id = id → Fits s lower upper) → upper.toNat + 10000 < UInt64.size := by
          intro fit
          rcases fit rfl with none | small | room
          · rw [start] at none
            cases none
          · exact absurd small large
          · exact room
        rcases handOut_moves (fun c => c = id → Fits s lower upper) s.freeMiner rfl room books more
          with ⟨left, none, moves⟩ | ⟨done, moves⟩
        · dsimp only
          rw [if_pos ⟨none, left⟩]
          exact moves.tail .back
        · dsimp only
          rw [if_neg fun both => done both.2]
          exact moves
      · -- nothing is handed out: the bounds are the wrong way round
        simp only [handOut_stays s.freeMiner more, more, and_false, if_false]
        refine .single (.drop ?_)
        rcases UInt64.lt_or_eq_of_le (UInt64.not_lt.mp more) with less | same
        · exact less
        · cases same
          exact absurd (by simp) large

/-! ### A connection error -/

namespace Server

/-- A client with a request is gone. -/
def abandon (s : Server) (id : Int) : Server :=
  { s with
    requestQueue := s.requestQueue.eraseP fun request => request.clientId = id
    taskMap := s.taskMap.erase id }

/-- The client has a task or a part of its request waits. -/
def Pending (s : Server) (id : Int) : Prop :=
  id ∈ s.taskMap ∨ ∃ r ∈ s.requestQueue, r.clientId = id

end Server

theorem heard_eq (none : s.lspServer.requests id = none) : s.heard id = s := by
  simp only [Server.heard]
  rw [← none, Function.update_eq_self]

theorem minerFailed_moves {miner' : Int → Prop} {job : Job} (kept : Books miner client ⟨s, []⟩)
    (single : ∀ c data data', client c data → client c data' → data = data')
    (working : s.workMiner.lookup id = some cid) (sent : s.lspServer.requests id = some job)
    (books : Books miner' client
      ⟨s.release id cid, [⟨cid, job.data, job.interval.lower, job.interval.upper⟩]⟩)
    (after : (s.heard id).minerFailed id = some s') :
    cid ∈ s.taskMap ∧ Moves miner' (fun _ => True)
      ⟨s.release id cid, [⟨cid, job.data, job.interval.lower, job.interval.upper⟩]⟩ ⟨s', []⟩ := by
  have known : ∃ task interval, s.taskMap.lookup cid = some task ∧
      task.minerInfo.lookup id = some interval := by
    simp only [Server.minerFailed, Server.heard, working] at after
    split at after
    · cases after
    · split at after
      · cases after
      · exact ⟨_, _, ‹_›, ‹_›⟩
  obtain ⟨task, interval, found, here⟩ := known
  have listed : (s.info cid).lookup id = some interval := by
    simp only [Server.info, found]
    exact here
  have asSent : job.interval = interval := by
    obtain ⟨_, held, same, of⟩ := kept.info listed
    cases sent.symm.trans same
    exact of
  have asTold : job.data = task.data := by
    obtain ⟨_, held, same, of⟩ := kept.worker working
    cases sent.symm.trans same
    exact single cid _ _ of (kept.task found)
  obtain ⟨low, upper⟩ := interval
  refine ⟨Map.mem_of_lookup found, ?_⟩
  rw [asSent, asTold] at books ⊢
  unfold Server.minerFailed at after
  have working' : (s.heard id).workMiner.lookup id = some cid := working
  have found' : (s.heard id).taskMap.lookup cid = some task := found
  simp only [working', found', here] at after
  split at after
  · rename_i first rest start
    cases after
    exact (Relation.ReflTransGen.single (.take start)).tail (.assign (books.taken start))
  · cases after
    exact .single .front

/-! ### The world -/

def World.Miner (w : World) (m : Int) : Prop := w.role m = .miner ∧ w.lost m = false

def World.Client (w : World) (c : Int) (data : String) : Prop :=
  ∃ lower upper, w.role c = .client data lower upper

/-- The books are in order between two messages. -/
def World.Kept (w : World) : Prop := Books w.Miner w.Client ⟨w.server, []⟩

/-- What a step does, in the terms of the moves. -/
inductive Turn (w : World) : Action → World → Prop where
  | join {id : Int} {s : Server} (new : w.role id = .unknown)
      (books : Books (World.Miner { w with role := update w.role id .miner })
        (World.Client { w with role := update w.role id .miner }) ⟨w.server, []⟩)
      (moves : Moves (World.Miner { w with role := update w.role id .miner }) (fun _ => True)
        ⟨w.server, []⟩ ⟨s, []⟩) :
    Turn w (.join id) { w with server := s, role := update w.role id .miner }
  | request {id : Int} {data : String} {lower upper : UInt64} {s : Server}
      (new : w.role id = .unknown) (there : w.lost id = false)
      (books : Books w.Miner
        (World.Client { w with role := update w.role id (.client data lower upper) })
        ⟨w.server, [⟨id, data, lower, upper⟩]⟩)
      (moves : Moves w.Miner (fun c => c = id → Fits w.server lower upper)
        ⟨w.server, [⟨id, data, lower, upper⟩]⟩ ⟨s, []⟩) :
    Turn w (.request id data lower upper)
      { w with server := s, role := update w.role id (.client data lower upper) }
  | result {id cid : Int} {hash nonce : UInt64} {job : Job} {s : Server}
      (working : w.server.workMiner.lookup id = some cid)
      (sent : w.server.lspServer.requests id = some job)
      (books : Books w.Miner w.Client ⟨w.server.release id cid, []⟩)
      (moves : Moves w.Miner (fun _ => True) ⟨w.server.release id cid, []⟩
        ⟨(w.server.release id cid).join id, []⟩)
      (ends : cid ∉ w.server.taskMap ∧ s = (w.server.release id cid).join id ∨
        cid ∈ w.server.taskMap ∧ Concluded ((w.server.release id cid).join id) cid hash nonce s) :
    Turn w (.result id hash nonce) { w with
      server := s
      received := w.received ++ [⟨cid, job.interval, hash, nonce⟩] }
  | abandon {id : Int} (pending : w.server.Pending id) (notMine : ¬w.Miner id) :
    Turn w (.error id) { w with server := w.server.abandon id, lost := update w.lost id true }
  | quit {id : Int} (settled : ¬w.server.Pending id)
      (none : w.server.workMiner.lookup id = none) :
    Turn w (.error id) { w with
      server := { w.server with freeMiner := w.server.freeMiner.erase id }
      lost := update w.lost id true }
  | fail {id cid : Int} {job : Job} {s : Server}
      (working : w.server.workMiner.lookup id = some cid)
      (sent : w.server.lspServer.requests id = some job) (known : cid ∈ w.server.taskMap)
      (books : Books (World.Miner { w with lost := update w.lost id true }) w.Client
        ⟨w.server.release id cid,
          [⟨cid, job.data, job.interval.lower, job.interval.upper⟩]⟩)
      (moves : Moves (World.Miner { w with lost := update w.lost id true }) (fun _ => True)
        ⟨w.server.release id cid,
          [⟨cid, job.data, job.interval.lower, job.interval.upper⟩]⟩ ⟨s, []⟩) :
    Turn w (.error id) { w with server := s, lost := update w.lost id true }
  | crash {id cid : Int} (working : w.server.workMiner.lookup id = some cid)
      (missing : id ∉ w.server.info cid) : Turn w (.error id) { w with crashed := true }

variable {w w' : World} {a : Action}

theorem World.Client.single {c : Int} {data data' : String} (one : w.Client c data)
    (two : w.Client c data') : data = data' := by
  obtain ⟨_, _, one⟩ := one
  obtain ⟨_, _, two⟩ := two
  cases one.symm.trans two
  rfl

theorem World.Miner.not_client {m : Int} {data : String} (one : w.Miner m)
    (two : w.Client m data) : False := by
  obtain ⟨_, _, two⟩ := two
  cases one.1.symm.trans two

theorem World.Kept.pending_client (kept : w.Kept) (pending : w.server.Pending id) :
    ∃ data, w.Client id data := by
  rcases pending with task | ⟨r, queued, rfl⟩
  · obtain ⟨task, found⟩ := Map.lookup_of_mem task
    exact ⟨task.data, kept.task found⟩
  · exact ⟨r.data, kept.waiting r (.inl queued)⟩

theorem World.Kept.not_pending (kept : w.Kept) (mine : w.Miner id) : ¬w.server.Pending id := by
  intro pending
  obtain ⟨data, known⟩ := kept.pending_client pending
  exact mine.not_client known

theorem World.Kept.no_work (kept : w.Kept) (notMine : ¬w.Miner id) :
    w.server.workMiner.lookup id = none ∧ id ∉ w.server.freeMiner := by
  constructor
  · by_contra some
    obtain ⟨c, working⟩ := Option.ne_none_iff_exists'.mp some
    exact notMine (kept.worker working).1
  · exact fun free => notMine (kept.free id free).1

theorem World.not_client {data : String} (new : w.role c = .unknown) : ¬w.Client c data := by
  rintro ⟨_, _, role⟩
  cases new.symm.trans role

/-- A connection that has not said what it is has no task and no miners. -/
theorem World.Kept.agrees_unknown (kept : w.Kept) (new : w.role c = .unknown) :
    Agrees w.server c ∧ w.server.taskMap.lookup c = none := by
  have task : w.server.taskMap.lookup c = none := by
    by_contra some
    obtain ⟨task, found⟩ := Option.ne_none_iff_exists'.mp some
    exact w.not_client new (kept.task found)
  refine ⟨⟨?_, ?_⟩, task⟩
  · intro m working
    obtain ⟨_, _, _, known⟩ := kept.worker working
    exact absurd known (w.not_client new)
  · simp only [Server.num, Server.info, task]
    rfl

/-- A connection that has said nothing so far gets its role; the others keep theirs. -/
theorem World.Client.to_role (role : Role) {data : String} (new : w.role id = .unknown)
    (known : w.Client c data) : World.Client { w with role := update w.role id role } c data := by
  obtain ⟨lower, upper, known⟩ := known
  refine ⟨lower, upper, ?_⟩
  have other : c ≠ id := by
    rintro rfl
    cases known.symm.trans new
  simp only [Function.update_of_ne other, known]

theorem World.Miner.to_role (role : Role) {m : Int} (new : w.role id = .unknown)
    (known : w.Miner m) : World.Miner { w with role := update w.role id role } m := by
  have other : m ≠ id := by
    rintro rfl
    cases known.1.symm.trans new
  exact ⟨by simp only [Function.update_of_ne other, known.1], known.2⟩

theorem World.Miner.to_lost {m : Int} (other : m ≠ id) (known : w.Miner m) :
    World.Miner { w with lost := update w.lost id true } m :=
  ⟨known.1, by simp only [Function.update_of_ne other, known.2]⟩

theorem turn_of_join (kept : w.Kept) (taken : step w (.join id) = some w') :
    Turn w (.join id) w' := by
  simp only [step] at taken
  split at taken
  · rename_i guard
    obtain ⟨_, there, new⟩ := guard
    cases taken
    have none := kept.no_work fun mine => by cases mine.1.symm.trans new
    have mine : World.Miner { w with role := update w.role id .miner } id :=
      ⟨Function.update_self .., there⟩
    exact .join new (kept.mono (fun _ here => here.to_role _ new) fun _ _ here =>
      here.to_role _ new) (join_moves ⟨mine, none.2, none.1⟩)
  · cases taken

theorem turn_of_request (kept : w.Kept)
    (taken : step w (.request id data lower upper) = some w') :
    Turn w (.request id data lower upper) w' := by
  simp only [step] at taken
  split at taken
  · rename_i guard
    obtain ⟨_, there, new⟩ := guard
    cases taken
    have books : Books w.Miner
        (World.Client { w with role := update w.role id (.client data lower upper) })
        ⟨w.server, [⟨id, data, lower, upper⟩]⟩ := by
      have wider := kept.mono (fun _ here => here) fun _ _ here => 
        here.to_role (.client data lower upper) new
      refine { wider with waiting := ?_ }
      intro r member
      rcases member with queued | inHand
      · exact wider.waiting r (.inl queued)
      · cases List.mem_singleton.mp inHand
        exact ⟨lower, upper, Function.update_self ..⟩
    exact .request new there books (request_moves books (kept.agrees_unknown new).2)
  · cases taken

theorem turn_of_result {hash nonce : UInt64} (kept : w.Kept)
    (taken : step w (.result id hash nonce) = some w') : Turn w (.result id hash nonce) w' := by
  simp only [step] at taken
  split at taken
  · cases taken
  · rename_i job sent
    split at taken
    · cases taken
      cases working : w.server.workMiner.lookup id with
      | none =>
        rw [kept.idle working] at sent
        cases sent
      | some cid =>
        have of := Server.clientOf_eq working
        have moves := join_moves (kept.released working (kept.worker working).1)
        rw [result_eq working, of]
        refine .result working sent (kept.release working sent fun _ _ here => here).clear moves ?_
        split
        · rename_i known
          exact .inr ⟨known, concluded (Moves.known moves (Server.release_known known))⟩
        · exact .inl ⟨‹_›, rfl⟩
    · cases taken

/-- A connection without work: a client, a free miner, or one that has said nothing. -/
theorem turn_of_error_idle (kept : w.Kept) (working : w.server.workMiner.lookup id = none)
    {s : Server} (after : (w.server.heard id).failed id = some s) :
    Turn w (.error id) { w with server := s, lost := update w.lost id true } := by
  rw [heard_eq (kept.idle working)] at after
  by_cases pending : w.server.Pending id
  · have failed : w.server.failed id = some (w.server.abandon id) := by
      simp only [Server.failed]
      rw [if_pos (by simpa [Server.Pending] using pending)]
      rfl
    cases failed.symm.trans after
    exact .abandon pending fun mine => kept.not_pending mine pending
  · have failed : w.server.failed id =
        some { w.server with freeMiner := w.server.freeMiner.erase id } := by
      simp only [Server.failed]
      rw [if_neg (by simpa [Server.Pending] using pending)]
      split
      · rfl
      · rename_i busy
        rw [List.erase_of_not_mem busy]
        simp only [Server.minerFailed, working]
    cases failed.symm.trans after
    exact .quit pending working

theorem failed_idle (working : s.workMiner.lookup id = none) : (s.heard id).failed id ≠ none := by
  have working' : (s.heard id).workMiner.lookup id = none := working
  simp only [Server.failed, Server.minerFailed, working']
  split
  · simp
  · split <;> simp

theorem minerFailed_missing (working : s.workMiner.lookup id = some cid)
    (nil : (s.heard id).minerFailed id = none) : id ∉ s.info cid := by
  intro member
  obtain ⟨interval, found⟩ := Map.lookup_of_mem member
  simp only [Server.info] at found
  simp only [Server.minerFailed, Server.heard, working] at nil
  split at nil
  · rename_i missing
    simp only [missing] at found
    cases found
  · rename_i task here
    simp only [here] at found
    simp only [found] at nil
    split at nil <;> cases nil

theorem turn_of_error (kept : w.Kept) (taken : step w (.error id) = some w') :
    Turn w (.error id) w' := by
  simp only [step] at taken
  split at taken
  swap
  · cases taken
  cases working : w.server.workMiner.lookup id with
  | none =>
    split at taken
    · exact absurd ‹_› (failed_idle working)
    · cases taken
      exact turn_of_error_idle kept working ‹_›
  | some cid =>
    obtain ⟨mine, job, sent, _⟩ := kept.worker working
    have failed : (w.server.heard id).failed id = (w.server.heard id).minerFailed id := by
      simp only [Server.failed]
      rw [if_neg (by simpa [Server.Pending, Server.heard] using kept.not_pending mine), if_neg]
      intro free
      rw [(kept.free id free).2] at working
      cases working
    rw [failed] at taken
    split at taken
    · cases taken
      exact .crash working (minerFailed_missing working ‹_›)
    · rename_i s after
      cases taken
      have books := kept.release working sent fun _ other (here : w.Miner _) =>
        here.to_lost other
      obtain ⟨known, moves⟩ := minerFailed_moves kept (fun _ _ _ one two => one.single two)
        working sent books after
      exact .fail working sent known books moves

theorem turn_of_step (kept : w.Kept) (taken : step w a = some w') : Turn w a w' := by
  cases a with
  | join => exact turn_of_join kept taken
  | request => exact turn_of_request kept taken
  | result => exact turn_of_result kept taken
  | error => exact turn_of_error kept taken

/-! ### The books stay in order -/

theorem newWorld_kept : newWorld.Kept where
  nodup := List.nodup_nil
  free := by simp [newWorld, startServer]
  worker := by
    intro m c working
    cases working
  idle := fun _ => rfl
  waiting := by simp [newWorld, startServer]
  task := by
    intro c task found
    cases found
  info := by
    intro c m interval found
    cases found

theorem abandon_info : (s.abandon id).info c = if c = id then ∅ else s.info c := by
  by_cases same : c = id
  · simp only [Server.info, Server.abandon, Map.lookup_erase, same, if_true]
  · simp only [Server.info, Server.abandon, Map.lookup_erase, same, if_false]

theorem World.Kept.abandon (kept : w.Kept) (notMine : ¬w.Miner id) :
    World.Kept { w with server := w.server.abandon id, lost := update w.lost id true } := by
  have others : ∀ m, w.Miner m → World.Miner { w with lost := update w.lost id true } m := by
    intro m mine
    exact mine.to_lost (by rintro rfl; exact notMine mine)
  have books := kept.mono others fun _ _ here => here
  refine { books with waiting := ?_, task := ?_, info := ?_ }
  · intro r member
    exact books.waiting r (member.imp_left List.mem_of_mem_eraseP)
  · intro c task found
    simp only [Server.abandon, Map.lookup_erase] at found
    split at found
    · cases found
    · exact books.task found
  · intro c m interval found
    rw [abandon_info] at found
    split at found
    · cases found
    · exact books.info found

theorem World.Kept.quit (kept : w.Kept) (none : w.server.workMiner.lookup id = none) :
    World.Kept { w with
      server := { w.server with freeMiner := w.server.freeMiner.erase id }
      lost := update w.lost id true } := by
  refine { kept with nodup := kept.nodup.erase id, free := ?_, worker := ?_ }
  · intro m member
    obtain ⟨other, free⟩ := (kept.nodup.mem_erase_iff).mp member
    exact ⟨(kept.free m free).1.to_lost other, (kept.free m free).2⟩
  · intro m c working
    have other : m ≠ id := by
      rintro rfl
      cases none.symm.trans working
    exact ⟨(kept.worker working).1.to_lost other, (kept.worker working).2⟩

theorem Turn.keeps_role (turn : Turn w a w') (role : w.role c = .client data lower upper) :
    w'.role c = .client data lower upper := by
  have other : ∀ {id role'}, w.role id = .unknown → update w.role id role' c = w.role c := by
    intro id role' new
    apply Function.update_of_ne
    rintro rfl
    cases new.symm.trans role
  cases turn with
  | join new books moves | request new there books moves => exact (other new).trans role
  | result | abandon | quit | fail | crash => exact role

theorem Turn.keeps_client (turn : Turn w a w') (known : w.Client c data) : w'.Client c data := by
  obtain ⟨lower, upper, role⟩ := known
  exact ⟨lower, upper, turn.keeps_role role⟩

theorem Turn.kept (turn : Turn w a w') (kept : w.Kept) : w'.Kept := by
  cases turn with
  | join new books moves => exact Moves.books moves books
  | request new there books moves =>
    exact (Moves.books moves books).mono (fun _ here => here.to_role _ new) fun _ _ here => here
  | result working sent books moves ends =>
    have after := Moves.books moves books
    rcases ends with ⟨_, rfl⟩ | ⟨_, done⟩
    · exact after
    · exact done.books after
  | abandon pending notMine => exact kept.abandon notMine
  | quit settled none => exact kept.quit none
  | fail working sent known books moves => exact Moves.books moves books
  | crash working missing => exact kept

end DistSys.Mining
