import DistSys.Lib.Runs
import DistSys.Mining.Turns

/-! What the server's maps say of one another in every reachable state, and what a disconnect can
do to them: a client that goes while miners work for it leaves entries behind. -/
namespace DistSys.Mining

open Function (update)
open DistSys.Lib

variable {w w' : World} {a : Action} {s : Server} {id cid c : Int}

theorem abandon_other (other : c ≠ id) :
    (s.abandon id).taskMap.lookup c = s.taskMap.lookup c := by
  simp only [Server.abandon, Map.lookup_erase, other, if_false]

/-- Only its own disconnect can put a client's task out of step with the miners. -/
theorem Turn.agrees (turn : Turn w a w') (agrees : Agrees w.server c) (stays : a ≠ .error c) :
    Agrees w'.server c := by
  cases turn with
  | join new books moves | request new there books moves => exact Moves.agrees moves books agrees
  | result working sent books moves ends =>
    have after := Moves.agrees moves books (agrees.release working)
    rcases ends with ⟨_, rfl⟩ | ⟨_, done⟩
    · exact after
    · exact done.agrees after
  | @abandon id pending notMine =>
    have other : c ≠ id := by
      rintro rfl
      exact stays rfl
    have same := abandon_other (s := w.server) other
    constructor
    · intro m working
      simpa only [Server.info, same] using agrees.workers working
    · simpa only [Server.num, Server.info, same] using agrees.count
  | quit settled none => exact ⟨agrees.workers, agrees.count⟩
  | fail working sent known books moves => exact Moves.agrees moves books (agrees.release working)
  | crash working missing => exact agrees

theorem newWorld_agrees : Agrees newWorld.server c where
  workers := by
    intro m working
    cases working
  count := rfl

/-! ### No nil pointer -/

/-- Every client that is still there has its task in step. -/
structure Present (w : World) : Prop where
  kept : w.Kept
  agrees : ∀ c, w.lost c = false → Agrees w.server c

theorem newWorld_present : Present newWorld where
  kept := newWorld_kept
  agrees := fun _ _ => newWorld_agrees

theorem Turn.lost (turn : Turn w a w') (gone : w.lost c = true) : w'.lost c = true := by
  cases turn with
  | join | request | result | crash => exact gone
  | abandon | quit | fail =>
    simp only [Function.update_apply]
    split
    · rfl
    · exact gone

/-- A client that is there was there before, and it was not its error that was read, or the
server has crashed on it. -/
theorem Turn.stays (turn : Turn w a w') (there : w'.lost c = false) :
    w.lost c = false ∧ (a ≠ .error c ∨ w' = { w with crashed := true }) := by
  constructor
  · rw [← Bool.not_eq_true]
    intro gone
    cases there.symm.trans (turn.lost gone)
  · by_cases own : a = .error c
    · subst own
      cases turn with
      | abandon | quit | fail =>
        simp only [Function.update_self] at there
        cases there
      | crash => exact .inr rfl
    · exact .inl own

theorem Present.next (present : Present w) (taken : step w a = some w') : Present w' where
  kept := (turn_of_step present.kept taken).kept present.kept
  agrees := by
    intro c there
    have turn := turn_of_step present.kept taken
    obtain ⟨before, stays | rfl⟩ := turn.stays there
    · exact turn.agrees (present.agrees c before) stays
    · exact present.agrees c before

/-- When the connection of a working miner fails, the client it works for is still there. -/
def clientThere (w : World) : Action → Bool
  | .error id => match w.server.workMiner.lookup id with
    | some cid => !w.lost cid
    | none => true
  | _ => true

theorem Present.not_crashed (present : Present w) (there : clientThere w a = true)
    (up : w.crashed = false) (taken : step w a = some w') : w'.crashed = false := by
  cases turn_of_step present.kept taken with
  | @crash id cid working missing =>
    simp only [clientThere, working, Bool.not_eq_true'] at there
    exact absurd ((present.agrees cid there).workers working) missing
  | join | request | result | abandon | quit | fail => exact up

theorem disconnects_never_crash (acts : List Action) (w : World)
    (reached : run step newWorld acts = some w) (there : Along step clientThere newWorld acts) :
    w.crashed = false := by
  have both : Present w ∧ w.crashed = false := by
    refine run_invariant (fun w => Present w ∧ w.crashed = false) ?_
      ⟨newWorld_present, rfl⟩ acts there reached
    intro s a t inv ok taken
    exact ⟨inv.1.next taken, inv.1.not_crashed ok inv.2 taken⟩
  exact both.2

/-- A miner fails while its client waits, and another takes over. -/
def minerReplaced : List Action :=
  [.join 1, .request 2 "msg" 0 5, .error 1, .join 3, .result 3 7 0, .error 2, .error 3]

theorem replaced_miner_no_crash : ∃ w, run step newWorld minerReplaced = some w ∧
    w.server.lspServer.results = [(2, 7, 0)] ∧ w.crashed = false :=
  ⟨_, rfl, rfl, disconnects_never_crash minerReplaced _ rfl (by decide)⟩

/-- The client goes first and its task with it; then its miner fails. -/
theorem client_then_miner_crashes : ∃ w, run step newWorld
    [.join 1, .request 2 "msg" 0 5, .error 2, .error 1] = some w ∧ w.crashed = true :=
  ⟨_, rfl, rfl⟩

/-! ### The books agree -/

/-- A client that goes has at most one part of its request in the queue, or no miner at work. -/
def leavesClean (w : World) : Action → Bool
  | .error id =>
    (w.server.requestQueue.filter fun r => r.clientId = id).length ≤ 1 ||
      w.server.workMiner.entries.all fun entry => entry.2 ≠ id
  | _ => true

theorem eraseP_none {queue : List RequestData}
    (one : (queue.filter fun r => r.clientId = id).length ≤ 1) :
    ∀ r ∈ queue.eraseP fun r => r.clientId = id, r.clientId ≠ id := by
  induction queue with
  | nil => simp
  | cons first rest ih =>
    by_cases here : first.clientId = id
    · simp only [List.filter_cons, here, decide_true, if_true, List.length_cons] at one
      have none := List.eq_nil_of_length_eq_zero (Nat.le_zero.mp (Nat.le_of_succ_le_succ one))
      intro r member own
      simp only [List.eraseP_cons, here, decide_true, cond_true] at member
      exact List.not_mem_nil (none ▸ List.mem_filter.mpr ⟨member, by simpa using own⟩)
    · simp only [List.filter_cons, here, decide_false, Bool.false_eq_true, if_false] at one
      simp only [List.eraseP_cons, here, decide_false, cond_false]
      exact List.forall_mem_cons.mpr ⟨here, ih one⟩

theorem Turn.gone {data : String} (turn : Turn w a w') (known : w.Client c data)
    (gone : Gone ⟨w.server, []⟩ c) : Gone ⟨w'.server, []⟩ c := by
  cases turn with
  | join new books moves => exact Moves.gone moves gone
  | @request id data lower upper s new there books moves =>
    apply Moves.gone moves
    refine ⟨gone.task, ?_⟩
    rintro r (queued | inHand)
    · exact gone.waiting r (.inl queued)
    · cases List.mem_singleton.mp inHand
      rintro rfl
      obtain ⟨_, _, role⟩ := known
      cases new.symm.trans role
  | result working sent books moves ends =>
    have after := Moves.gone moves gone.release
    rcases ends with ⟨_, rfl⟩ | ⟨_, done⟩
    · exact after
    · exact done.gone after
  | @abandon id pending notMine =>
    refine ⟨?_, fun r member => gone.waiting r (member.imp_left List.mem_of_mem_eraseP)⟩
    simp only [Server.abandon, Map.lookup_erase]
    split
    · rfl
    · exact gone.task
  | quit settled none => exact ⟨gone.task, gone.waiting⟩
  | @fail id cid job s working sent assigned books moves =>
    apply Moves.gone moves
    refine ⟨gone.release.task, ?_⟩
    rintro r (queued | inHand)
    · exact gone.release.waiting r (.inl queued)
    · cases List.mem_singleton.mp inHand
      rintro rfl
      obtain ⟨task, found⟩ := Map.lookup_of_mem assigned
      cases gone.task.symm.trans found
  | crash working missing => exact gone

/-- Every client has its task in step, or nothing of it is left to be assigned. -/
structure InStep (w : World) : Prop where
  kept : w.Kept
  each : ∀ c, Agrees w.server c ∨ Gone ⟨w.server, []⟩ c ∧ ∃ data, w.Client c data

/-- With at most one part waiting, the disconnect of a client removes all that is left of it. -/
theorem abandon_gone (one : (s.requestQueue.filter fun r => r.clientId = c).length ≤ 1) :
    Gone ⟨s.abandon c, []⟩ c where
  task := AList.lookup_erase ..
  waiting := by
    rintro r (queued | inHand)
    · exact eraseP_none one r queued
    · cases inHand

theorem Turn.own (turn : Turn w (.error c) w') (kept : w.Kept)
    (clean : leavesClean w (.error c) = true) (agrees : Agrees w.server c) :
    Agrees w'.server c ∨ Gone ⟨w'.server, []⟩ c ∧ ∃ data, w.Client c data := by
  cases turn with
  | abandon pending notMine =>
    simp only [leavesClean, Bool.or_eq_true, decide_eq_true_eq, List.all_eq_true] at clean
    rcases clean with one | none
    · exact .inr ⟨abandon_gone one, kept.pending_client pending⟩
    · left
      constructor
      · intro m working
        exact absurd rfl (none ⟨m, c⟩ (Map.mem_entries.mpr working))
      · have task : (w.server.abandon c).taskMap.lookup c = Option.none := AList.lookup_erase ..
        simp only [Server.num, Server.info, task]
        rfl
  | quit settled none => exact .inl ⟨agrees.workers, agrees.count⟩
  | fail working sent known books moves =>
    exact .inl (Moves.agrees moves books (agrees.release working))
  | crash working missing => exact .inl agrees

theorem InStep.next (inStep : InStep w) (clean : leavesClean w a = true)
    (taken : step w a = some w') : InStep w' where
  kept := (turn_of_step inStep.kept taken).kept inStep.kept
  each := by
    intro c
    have turn := turn_of_step inStep.kept taken
    rcases inStep.each c with agrees | ⟨gone, data, known⟩
    · by_cases own : a = .error c
      · subst own
        rcases turn.own inStep.kept clean agrees with agrees | ⟨gone, data, known⟩
        · exact .inl agrees
        · exact .inr ⟨gone, data, turn.keeps_client known⟩
      · exact .inl (turn.agrees agrees own)
    · exact .inr ⟨turn.gone known gone, data, turn.keeps_client known⟩

theorem InStep.task (inStep : InStep w) {task : TaskData}
    (found : w.server.taskMap.lookup c = some task) :
    task.minerNum = Map.size task.minerInfo ∧
      ∀ m, m ∈ task.minerInfo ↔ w.server.workMiner.lookup m = some c := by
  have info : w.server.info c = task.minerInfo := by simp only [Server.info, found]
  have num : w.server.num c = task.minerNum := by simp only [Server.num, found]
  rcases inStep.each c with agrees | ⟨gone, _⟩
  · rw [← info, ← num]
    refine ⟨agrees.count, fun m => ⟨?_, agrees.workers⟩⟩
    intro member
    obtain ⟨interval, listed⟩ := Map.lookup_of_mem member
    exact (inStep.kept.info listed).1
  · cases gone.task.symm.trans found

theorem bookkeeping_agrees (acts : List Action) (w : World)
    (reached : run step newWorld acts = some w) (clean : Along step leavesClean newWorld acts) :
    w.server.freeMiner.Nodup ∧
    (∀ m ∈ w.server.freeMiner, m ∉ w.server.workMiner) ∧
    ∀ c task, w.server.taskMap.lookup c = some task →
      task.minerNum = Map.size task.minerInfo ∧
      ∀ m, m ∈ task.minerInfo ↔ w.server.workMiner.lookup m = some c := by
  have inStep : InStep w := by
    refine run_invariant InStep ?_ ?_ acts clean reached
    · exact fun s a t inv ok taken => inv.next ok taken
    · exact ⟨newWorld_kept, fun c => .inl newWorld_agrees⟩
  refine ⟨inStep.kept.nodup, ?_, fun c task found => inStep.task found⟩
  intro m free working
  obtain ⟨c, found⟩ := Map.lookup_of_mem working
  cases (inStep.kept.free m free).2.symm.trans found

/-- Two miners share a request, one of them fails, and then the client goes. -/
def sharedRequest : List Action :=
  [.join 1, .join 2, .request 3 "msg" 0 15000, .error 1, .error 3, .join 4]

theorem shared_request_agrees : ∃ w, run step newWorld sharedRequest = some w ∧
    w.server.freeMiner = [4] ∧ w.server.workMiner.keys = [2] ∧
    w.server.freeMiner.Nodup ∧
    (∀ m ∈ w.server.freeMiner, m ∉ w.server.workMiner) ∧
    ∀ c task, w.server.taskMap.lookup c = some task →
      task.minerNum = Map.size task.minerInfo ∧
      ∀ m, m ∈ task.minerInfo ↔ w.server.workMiner.lookup m = some c :=
  ⟨_, rfl, rfl, rfl, bookkeeping_agrees sharedRequest _ rfl (by decide)⟩

/-- The same with a longer request: a part of it outlives the client, its task comes back for
miner 4 and does not list miner 2, which still works for it. -/
theorem orphan_not_listed : ∃ w task, run step newWorld
    [.join 1, .join 2, .request 3 "msg" 0 25000, .error 1, .error 3, .join 4] = some w ∧
    w.server.taskMap.lookup 3 = some task ∧ w.server.workMiner.lookup 2 = some 3 ∧
    2 ∉ task.minerInfo :=
  ⟨_, _, rfl, rfl, rfl, by decide⟩

/-! ### No more work for a client that is gone -/

/-- Nothing has been sent to a miner for the client: who works for it did so before, on the same
Request. -/
def NoNewWork (c : Int) (s s' : Server) : Prop :=
  ∀ m, s'.workMiner.lookup m = some c →
    s.workMiner.lookup m = some c ∧ s'.lspServer.requests m = s.lspServer.requests m

theorem NoNewWork.refl (s : Server) : NoNewWork c s s := fun _ working => ⟨working, rfl⟩

theorem NoNewWork.trans {s t u : Server} (first : NoNewWork c s t) (second : NoNewWork c t u) :
    NoNewWork c s u := by
  intro m working
  obtain ⟨between, sent⟩ := second m working
  obtain ⟨before, same⟩ := first m between
  exact ⟨before, sent.trans same⟩

theorem NoNewWork.release (s : Server) : NoNewWork c s (s.release id cid) := by
  intro m working
  simp only [Server.release, Map.lookup_erase] at working
  split at working
  · cases working
  · rename_i other
    simp only [Server.release_lsp, Server.heard]
    exact ⟨working, Function.update_of_ne other ..⟩

theorem Move.noNewWork {miner fits : Int → Prop} {d d' : Desk} (move : Move miner fits d d')
    (none : NoneWaits d c) : NoNewWork c d.server d'.server := by
  cases move with
  | @assign s r h id idle =>
    intro m working
    simp only [Server.assign, Map.lookup_insert] at working
    split at working
    · -- the miner that is assigned now works for another client
      exact absurd (Option.some.inj working) (none r (.inr List.mem_cons_self))
    · rename_i other
      exact ⟨working, Function.update_of_ne other ..⟩
  | rest | take | pop | back | front | cut | drop => exact .refl _

theorem Moves.noNewWork {miner fits : Int → Prop} {d d' : Desk} (moves : Moves miner fits d d')
    (none : NoneWaits d c) : NoNewWork c d.server d'.server := by
  induction moves with
  | refl => exact .refl _
  | tail before move ih => exact ih.trans (move.noNewWork (Moves.noneWaits before none))

theorem Concluded.noNewWork {value nonce : UInt64} {s' : Server}
    (done : Concluded s cid value nonce s') : NoNewWork c s s' := by
  cases done <;> exact .refl s

theorem Gone.in_hand {r : RequestData} (gone : Gone ⟨s, []⟩ c) (other : r.clientId ≠ c) :
    NoneWaits ⟨s, [r]⟩ c := by
  rintro q (queued | inHand)
  · exact gone.waiting q (.inl queued)
  · exact List.mem_singleton.mp inHand ▸ other

theorem Turn.noNewWork {data : String} (turn : Turn w a w') (known : w.Client c data)
    (gone : Gone ⟨w.server, []⟩ c) : NoNewWork c w.server w'.server := by
  cases turn with
  | join new books moves => exact Moves.noNewWork moves gone.waiting
  | @request id data lower upper s new there books moves =>
    refine Moves.noNewWork moves (gone.in_hand ?_)
    rintro rfl
    exact w.not_client new known
  | result working sent books moves ends =>
    have placed := (NoNewWork.release w.server).trans
      (Moves.noNewWork moves gone.release.waiting)
    rcases ends with ⟨_, rfl⟩ | ⟨_, done⟩
    · exact placed
    · exact placed.trans done.noNewWork
  | abandon | quit | crash => exact .refl _
  | @fail id cid job s working sent assigned books moves =>
    refine (NoNewWork.release w.server).trans (Moves.noNewWork moves (gone.release.in_hand ?_))
    rintro rfl
    obtain ⟨task, found⟩ := Map.lookup_of_mem assigned
    cases gone.task.symm.trans found

/-- A miner whose Result is read does not work for the client after it. -/
theorem Turn.not_by_result {hash nonce : UInt64}
    (turn : Turn w (.result id hash nonce) w') (gone : Gone ⟨w.server, []⟩ c) :
    w'.server.workMiner.lookup id ≠ some c := by
  intro still
  cases turn with
  | @result id cid hash nonce job s working sent books moves ends =>
    have placed : NoNewWork c (w.server.release id cid) s := by
      have joined := Moves.noNewWork moves gone.release.waiting
      rcases ends with ⟨_, rfl⟩ | ⟨_, done⟩
      · exact joined
      · exact joined.trans done.noNewWork
    have held := (placed id still).1
    simp only [Server.release, Map.lookup_erase, if_true] at held
    cases held

/-- The error of a client with at most one part of its request in the queue leaves nothing of
it behind. -/
theorem Turn.leaves_nothing {data : String} (turn : Turn w (.error c) w') (kept : w.Kept)
    (known : w.Client c data)
    (one : (w.server.requestQueue.filter fun r => r.clientId = c).length ≤ 1) :
    Gone ⟨w'.server, []⟩ c := by
  cases turn with
  | abandon pending notMine => exact abandon_gone one
  | quit settled none =>
    constructor
    · by_contra some
      obtain ⟨task, found⟩ := Option.ne_none_iff_exists'.mp some
      exact settled (.inl (Map.mem_of_lookup found))
    · rintro r (queued | inHand)
      · exact fun own => settled (.inr ⟨r, queued, own⟩)
      · cases inHand
  | fail working sent assigned books moves | crash working missing =>
    exact absurd known fun known => (kept.worker working).1.not_client known

theorem departed_client_gets_no_work (before after : List Action) (u v w w' : World) (a : Action)
    (c : Int) (data : String) (lower upper : UInt64)
    (reached : run step newWorld before = some u) (client : u.role c = .client data lower upper)
    (one : (u.server.requestQueue.filter fun r => r.clientId = c).length ≤ 1)
    (departs : step u (.error c) = some v) (later : run step v after = some w)
    (next : step w a = some w') :
    w'.server.taskMap.lookup c = none ∧
    ∀ m, w'.server.workMiner.lookup m = some c →
      w.server.workMiner.lookup m = some c ∧
      w'.server.lspServer.requests m = w.server.lspServer.requests m ∧
      ∀ hash nonce, a ≠ .result m hash nonce := by
  have kept : u.Kept := run_keeps World.Kept
    (fun _ _ _ kept taken => (turn_of_step kept taken).kept kept) newWorld_kept before reached
  have known : u.Client c data := ⟨lower, upper, client⟩
  have turn := turn_of_step kept departs
  have settled : w.Kept ∧ w.Client c data ∧ Gone ⟨w.server, []⟩ c := by
    refine run_keeps (fun w : World => w.Kept ∧ w.Client c data ∧ Gone ⟨w.server, []⟩ c) ?_
      ⟨turn.kept kept, turn.keeps_client known, turn.leaves_nothing kept known one⟩ after later
    rintro s a t ⟨kept, known, gone⟩ taken
    have turn := turn_of_step kept taken
    exact ⟨turn.kept kept, turn.keeps_client known, turn.gone known gone⟩
  obtain ⟨kept, known, gone⟩ := settled
  have turn := turn_of_step kept next
  refine ⟨(turn.gone known gone).task, fun m working => ?_⟩
  obtain ⟨held, sent⟩ := turn.noNewWork known gone m working
  refine ⟨held, sent, ?_⟩
  rintro hash nonce rfl
  exact turn.not_by_result gone working

/-- The client of a shared request goes after one of its miners; then a new miner joins. -/
theorem shared_request_departed : ∃ u v w w', run step newWorld (sharedRequest.take 4) = some u ∧
    (u.server.requestQueue.filter fun r => r.clientId = 3).length = 1 ∧
    step u (.error 3) = some v ∧ run step v [] = some w ∧ step w (.join 4) = some w' ∧
    w'.server.taskMap.lookup 3 = none ∧
    ∀ m, w'.server.workMiner.lookup m = some 3 →
      w.server.workMiner.lookup m = some 3 ∧
      w'.server.lspServer.requests m = w.server.lspServer.requests m ∧
      ∀ hash nonce, Action.join 4 ≠ .result m hash nonce :=
  ⟨_, _, _, _, rfl, rfl, rfl, rfl, rfl,
    departed_client_gets_no_work (sharedRequest.take 4) [] _ _ _ _ (.join 4) 3 "msg" 0 15000 rfl rfl
      (by decide) rfl rfl rfl⟩

/-- Two parts of a longer request wait when its client goes; the second is sent to miner 4 and
brings the task back. -/
theorem departed_client_gets_work : ∃ u v w, run step newWorld
      [.join 1, .join 2, .request 3 "msg" 0 25000, .error 1] = some u ∧
    step u (.error 3) = some v ∧ step v (.join 4) = some w ∧
    v.server.lspServer.requests 4 = none ∧
    w.server.lspServer.requests 4 = some ⟨"msg", ⟨20000, 25000⟩⟩ ∧
    w.server.workMiner.lookup 4 = some 3 ∧ 3 ∈ w.server.taskMap :=
  ⟨_, _, _, rfl, rfl, rfl, rfl, by decide, rfl, by decide⟩

/-! ### No idle miner while work waits -/

/-- No request waits or no miner is free. -/
def Server.Busy (s : Server) : Prop := s.requestQueue = [] ∨ s.freeMiner = []

theorem assignFirst_free {r : RequestData} {rest : List RequestData} :
    (s.assignFirst id r rest).freeMiner = s.freeMiner := by
  simp only [Server.assignFirst]
  split <;> rfl

theorem Server.Busy.join (busy : s.Busy) : (s.join id).Busy := by
  unfold Server.join
  split
  · exact .inl ‹_›
  · rename_i r rest first
    right
    rw [assignFirst_free]
    rcases busy with none | none
    · cases first.symm.trans none
    · exact none

theorem Server.Busy.settle (busy : s.Busy) : (s.settle id cid).Busy := by
  unfold Server.Busy
  rw [Server.settle_frame.1, Server.settle_frame.2.1]
  exact busy

theorem Server.Busy.conclude {value nonce : UInt64} (busy : s.Busy) :
    (s.conclude cid value nonce).Busy := by
  unfold Server.conclude
  split
  · dsimp only
    split <;> exact busy
  · exact busy

theorem Server.Busy.result {value nonce : UInt64} (busy : s.Busy) :
    (s.result id value nonce).Busy := by
  have placed : ((s.settle id (s.clientOf id)).reuse id).Busy := by
    rw [reuse_eq]
    exact Server.Busy.join busy.settle
  unfold Server.result
  dsimp only
  split
  · exact placed.conclude
  · exact placed

theorem handOut_queue (free : List Int) {data : String} {upper lowerBound : UInt64} :
    (Server.handOut id data upper free s lowerBound).1.requestQueue = s.requestQueue := by
  induction free generalizing s lowerBound with
  | nil => rfl
  | cons first rest ih =>
    simp only [Server.handOut]
    split
    · exact ih
    · rfl

theorem Server.Busy.request {data : String} {lower upper : UInt64} (busy : s.Busy) :
    (s.request id data lower upper).Busy := by
  unfold Server.request
  split
  · exact .inr ‹_›
  · rename_i first rest free
    -- a miner is free, so nothing waits
    have none : s.requestQueue = [] := by
      rcases busy with none | none
      · exact none
      · cases free.symm.trans none
    split
    · exact .inl none
    · dsimp only
      split
      · exact .inr (And.left ‹_›)
      · left
        rw [handOut_queue]
        exact none

theorem Server.Busy.minerFailed {s' : Server} (busy : s.Busy)
    (after : s.minerFailed id = some s') : s'.Busy := by
  unfold Server.minerFailed at after
  split at after
  · cases after
    exact busy
  · split at after
    · cases after
    · split at after
      · cases after
      · dsimp only at after
        split at after
        · rename_i free
          cases after
          rcases busy.settle with none | none
          · exact .inl none
          · cases free.symm.trans none
        · cases after
          exact .inr ‹_›

theorem Server.Busy.failed {s' : Server} (busy : s.Busy) (after : s.failed id = some s') :
    s'.Busy := by
  simp only [Server.failed] at after
  split at after
  · cases after
    exact busy.imp_left fun none => by simp only [none, List.eraseP_nil]
  · split at after
    · cases after
      exact busy.imp_right fun none => by simp only [none, List.erase_nil]
    · exact busy.minerFailed after

theorem Server.Busy.next (busy : w.server.Busy) (taken : step w a = some w') : w'.server.Busy := by
  cases a with
  | join id =>
    simp only [step] at taken
    split at taken
    · cases taken
      exact busy.join
    · cases taken
  | request id data lower upper =>
    simp only [step] at taken
    split at taken
    · cases taken
      exact busy.request
    · cases taken
  | result id hash nonce =>
    simp only [step] at taken
    split at taken
    · cases taken
    · split at taken
      · cases taken
        exact Server.Busy.result busy
      · cases taken
  | error id =>
    simp only [step] at taken
    split at taken
    · split at taken
      · cases taken
        exact busy
      · cases taken
        exact Server.Busy.failed (s := w.server.heard id) busy ‹_›
    · cases taken

theorem no_idle_miner_while_work_waits (acts : List Action) (w : World)
    (reached : run step newWorld acts = some w) :
    w.server.requestQueue = [] ∨ w.server.freeMiner = [] :=
  run_keeps (fun w : World => w.server.Busy) (fun _ _ _ busy taken => busy.next taken)
    (.inl rfl) acts reached

/-- Two miners take a part each, and the rest waits for the first that is free again. -/
def restWaits : List Action := [.join 1, .join 2, .request 3 "msg" 0 25000]

theorem rest_waits_for_miner : ∃ w, run step newWorld restWaits = some w ∧
    w.server.requestQueue = [⟨3, "msg", 20000, 25000⟩] ∧
    (w.server.requestQueue = [] ∨ w.server.freeMiner = []) :=
  ⟨_, rfl, by decide, no_idle_miner_while_work_waits restWaits _ rfl⟩

end DistSys.Mining
