import DistSys.Lib.Cover
import DistSys.Mining.Server
import Mathlib.Logic.Relation

/-! What the handlers of the server are made of. A handler takes parts of requests in hand, cuts
them, and gives them to miners or puts them in the queue; every handler is a list of such moves,
and an invariant is looked at one move at a time. -/
namespace DistSys.Mining

open Function (update)
open DistSys.Lib

namespace Server

variable {s : Server} {id cid c m : Int} {data : String} {lower upper : UInt64}

/-- The intervals that miners mine for a client. -/
def info (s : Server) (c : Int) : Map Int MinerData :=
  match s.taskMap.lookup c with
  | some task => task.minerInfo
  | none => ∅

def num (s : Server) (c : Int) : Int :=
  match s.taskMap.lookup c with
  | some task => task.minerNum
  | none => 0

/-- The least value so far and its nonce. -/
def best (s : Server) (c : Int) : UInt64 × UInt64 :=
  match s.taskMap.lookup c with
  | some task => (task.currValue, task.currNonce)
  | none => (0, 0)

/-- A miner stops working for a client: it has answered or its connection has failed. -/
def release (s : Server) (id cid : Int) : Server :=
  { (s.heard id).settle id cid with workMiner := s.workMiner.erase id }

theorem clientOf_eq (working : s.workMiner.lookup id = some cid) : s.clientOf id = cid := by
  simp only [clientOf, working, Option.getD_some]

theorem assign_info : (s.assign id cid data lower upper).info c =
    if c = cid then (s.info cid).insert id ⟨lower, upper⟩ else s.info c := by
  by_cases same : c = cid
  · cases same
    simp only [info, assign, Map.lookup_insert, if_true, taskWith]
    cases s.taskMap.lookup cid <;> rfl
  · simp only [info, assign, Map.lookup_insert, same, if_false]

theorem assign_num : (s.assign id cid data lower upper).num c =
    if c = cid then s.num cid + 1 else s.num c := by
  by_cases same : c = cid
  · cases same
    simp only [num, assign, Map.lookup_insert, if_true, taskWith]
    cases s.taskMap.lookup cid <;> rfl
  · simp only [num, assign, Map.lookup_insert, same, if_false]

theorem assign_best : (s.assign id cid data lower upper).best c = s.best c := by
  by_cases same : c = cid
  · cases same
    simp only [best, assign, Map.lookup_insert, if_true, taskWith]
    cases s.taskMap.lookup cid <;> rfl
  · simp only [best, assign, Map.lookup_insert, same, if_false]

theorem settle_frame : (s.settle id cid).freeMiner = s.freeMiner ∧
    (s.settle id cid).requestQueue = s.requestQueue ∧
    (s.settle id cid).lspServer = s.lspServer ∧
    (s.settle id cid).workMiner = s.workMiner := by
  unfold settle
  split <;> exact ⟨rfl, rfl, rfl, rfl⟩

theorem release_free : (s.release id cid).freeMiner = s.freeMiner := settle_frame.1

theorem release_queue : (s.release id cid).requestQueue = s.requestQueue := settle_frame.2.1

theorem release_lsp : (s.release id cid).lspServer = (s.heard id).lspServer := settle_frame.2.2.1

theorem release_task : (s.release id cid).taskMap = (s.settle id cid).taskMap := by
  simp only [release, settle, heard]
  split <;> rfl

theorem release_info : (s.release id cid).info c =
    if c = cid then (s.info cid).erase id else s.info c := by
  by_cases same : c = cid
  · cases same
    simp only [info, release_task, settle, if_true]
    cases found : s.taskMap.lookup cid with
    | none => simp only [found]; rfl
    | some task => simp only [Map.lookup_insert, if_true]
  · simp only [info, release_task, settle, same, if_false]
    cases s.taskMap.lookup cid with
    | none => rfl
    | some task => simp only [Map.lookup_insert, same, if_false]

theorem release_num (known : cid ∈ s.taskMap) : (s.release id cid).num c =
    if c = cid then s.num cid - 1 else s.num c := by
  obtain ⟨task, found⟩ := Map.lookup_of_mem known
  by_cases same : c = cid
  · cases same
    simp only [num, release_task, settle, found, Map.lookup_insert, if_true]
  · simp only [num, release_task, settle, found, Map.lookup_insert, same, if_false]

theorem release_best : (s.release id cid).best c = s.best c := by
  simp only [best, release_task, settle]
  cases found : s.taskMap.lookup cid with
  | none => rfl
  | some task =>
    by_cases same : c = cid
    · cases same
      simp only [Map.lookup_insert, if_true, found]
    · simp only [Map.lookup_insert, same, if_false]

theorem release_known (known : c ∈ s.taskMap) : c ∈ (s.release id cid).taskMap := by
  rw [release_task, settle]
  split
  · exact (AList.mem_insert _).mpr (.inr known)
  · exact known

theorem release_data {task : TaskData} (found : (s.release id cid).taskMap.lookup c = some task) :
    ∃ old, s.taskMap.lookup c = some old ∧ task.data = old.data := by
  simp only [release_task, settle] at found
  cases here : s.taskMap.lookup cid with
  | none => exact ⟨task, by simpa only [here] using found, rfl⟩
  | some old =>
    simp only [here, Map.lookup_insert] at found
    split at found
    · rename_i same
      cases found
      exact ⟨old, same ▸ here, rfl⟩
    · exact ⟨task, found, rfl⟩

end Server

/-! ### The books -/

/-- The server with the parts of requests that its handler has in hand. -/
structure Desk where
  server : Server
  hand : List RequestData

section

variable (miner : Int → Prop) (client : Int → String → Prop)

/-- What the maps say of one another whoever has gone. -/
structure Books (d : Desk) : Prop where
  nodup : d.server.freeMiner.Nodup
  free : ∀ m ∈ d.server.freeMiner, miner m ∧ d.server.workMiner.lookup m = none
  worker : ∀ {m c}, d.server.workMiner.lookup m = some c →
    miner m ∧ ∃ job, d.server.lspServer.requests m = some job ∧ client c job.data
  idle : ∀ {m}, d.server.workMiner.lookup m = none → d.server.lspServer.requests m = none
  waiting : ∀ r, r ∈ d.server.requestQueue ∨ r ∈ d.hand → client r.clientId r.data
  task : ∀ {c task}, d.server.taskMap.lookup c = some task → client c task.data
  info : ∀ {c m interval}, (d.server.info c).lookup m = some interval →
    d.server.workMiner.lookup m = some c ∧
      ∃ job, d.server.lspServer.requests m = some job ∧ job.interval = interval

/-- A miner that is in no list. -/
structure Idle (s : Server) (id : Int) : Prop where
  miner : miner id
  free : id ∉ s.freeMiner
  work : s.workMiner.lookup id = none

/-- One move of a handler. `fits` is what the parts of a client's request have to satisfy for
the sums that cut them not to overflow. -/
inductive Move (fits : Int → Prop) : Desk → Desk → Prop where
  | rest {s h id} (idle : Idle miner s id) :
    Move fits ⟨s, h⟩ ⟨{ s with freeMiner := s.freeMiner ++ [id] }, h⟩
  | take {s h id rest} (first : s.freeMiner = id :: rest) :
    Move fits ⟨s, h⟩ ⟨{ s with freeMiner := rest }, h⟩
  | pop {s h r rest} (first : s.requestQueue = r :: rest) :
    Move fits ⟨s, h⟩ ⟨{ s with requestQueue := rest }, r :: h⟩
  | back {s r h} :
    Move fits ⟨s, r :: h⟩ ⟨{ s with requestQueue := s.requestQueue ++ [r] }, h⟩
  | front {s r h} :
    Move fits ⟨s, r :: h⟩ ⟨{ s with requestQueue := r :: s.requestQueue }, h⟩
  | cut {s r h} (mid : UInt64)
      (within : fits r.clientId → r.lower ≤ r.upper → r.lower ≤ mid ∧ mid ≤ r.upper) :
    Move fits ⟨s, r :: h⟩ ⟨s, { r with upper := mid } :: { r with lower := mid } :: h⟩
  | drop {s r h} (empty : r.upper < r.lower) : Move fits ⟨s, r :: h⟩ ⟨s, h⟩
  | assign {s r h id} (idle : Idle miner s id) :
    Move fits ⟨s, r :: h⟩ ⟨s.assign id r.clientId r.data r.lower r.upper, h⟩

abbrev Moves (fits : Int → Prop) : Desk → Desk → Prop := Relation.ReflTransGen (Move miner fits)

end

variable {miner miner' : Int → Prop} {client client' : Int → String → Prop} {fits : Int → Prop}
variable {d d' : Desk} {s : Server} {h : List RequestData} {r : RequestData} {id cid c : Int}

theorem Books.mono (books : Books miner client d) (miners : ∀ m, miner m → miner' m)
    (clients : ∀ c data, client c data → client' c data) : Books miner' client' d where
  nodup := books.nodup
  free := fun m member => ⟨miners m (books.free m member).1, (books.free m member).2⟩
  worker := by
    intro m c working
    obtain ⟨here, job, sent, of⟩ := books.worker working
    exact ⟨miners m here, job, sent, clients c job.data of⟩
  idle := books.idle
  waiting := fun r member => clients _ _ (books.waiting r member)
  task := fun found => clients _ _ (books.task found)
  info := books.info

theorem Books.assign (books : Books miner client ⟨s, r :: h⟩) (idle : Idle miner s id) :
    Books miner client ⟨s.assign id r.clientId r.data r.lower r.upper, h⟩ where
  nodup := books.nodup
  free := by
    intro m member
    have other : m ≠ id := by
      rintro rfl
      exact idle.free member
    refine ⟨(books.free m member).1, ?_⟩
    simp only [Server.assign, Map.lookup_insert, other, if_false]
    exact (books.free m member).2
  worker := by
    intro m c working
    simp only [Server.assign, Map.lookup_insert] at working
    simp only [Server.assign, Server.writeRequest]
    split at working
    · rename_i same
      cases same
      cases working
      exact ⟨idle.miner, _, Function.update_self .., books.waiting r (.inr List.mem_cons_self)⟩
    · rename_i other
      rw [Function.update_of_ne other]
      exact books.worker working
  idle := by
    intro m none
    simp only [Server.assign, Map.lookup_insert] at none
    simp only [Server.assign, Server.writeRequest]
    split at none
    · cases none
    · rename_i other
      rw [Function.update_of_ne other]
      exact books.idle none
  waiting := fun q member => books.waiting q (member.imp_right (List.mem_cons_of_mem r))
  task := by
    intro c task found
    simp only [Server.assign, Map.lookup_insert, Server.taskWith] at found
    split at found
    · rename_i same
      cases same
      split at found
      · rename_i old here
        have same := books.task here
        cases found
        exact same
      · cases found
        exact books.waiting r (.inr List.mem_cons_self)
    · exact books.task found
  info := by
    intro c m interval found
    rw [Server.assign_info] at found
    simp only [Server.assign, Server.writeRequest, Map.lookup_insert]
    by_cases same : m = id
    · cases same
      rw [if_pos rfl, Function.update_self]
      split at found
      · rename_i here
        rw [Map.lookup_insert, if_pos rfl] at found
        exact ⟨by rw [here], _, rfl, Option.some.inj found⟩
      · -- a miner in another client's task would be working
        have working := (books.info found).1
        rw [idle.work] at working
        cases working
    · rw [if_neg same, Function.update_of_ne same]
      split at found
      · rename_i here
        rw [Map.lookup_insert, if_neg same] at found
        exact here ▸ books.info found
      · exact books.info found

/-- What waits or is in hand after a move is a part of what was there before. -/
theorem Move.from_waiting (move : Move miner fits d d') {r : RequestData}
    (member : r ∈ d'.server.requestQueue ∨ r ∈ d'.hand) :
    ∃ q, (q ∈ d.server.requestQueue ∨ q ∈ d.hand) ∧ r.clientId = q.clientId ∧
      r.data = q.data := by
  cases move with
  | rest | take => exact ⟨r, member, rfl, rfl⟩
  | pop first =>
    refine ⟨r, ?_, rfl, rfl⟩
    rw [first]
    grind
  | back | front =>
    refine ⟨r, ?_, rfl, rfl⟩
    grind
  | @cut s whole h mid within =>
    rcases member with queued | inHand
    · exact ⟨r, .inl queued, rfl, rfl⟩
    · rcases List.mem_cons.mp inHand with rfl | inHand
      · exact ⟨whole, .inr List.mem_cons_self, rfl, rfl⟩
      · rcases List.mem_cons.mp inHand with rfl | old
        · exact ⟨whole, .inr List.mem_cons_self, rfl, rfl⟩
        · exact ⟨r, .inr (List.mem_cons_of_mem whole old), rfl, rfl⟩
  | drop | assign => exact ⟨r, member.imp_right (List.mem_cons_of_mem _), rfl, rfl⟩

theorem Move.books (move : Move miner fits d d') (books : Books miner client d) :
    Books miner client d' := by
  have waiting : ∀ r, r ∈ d'.server.requestQueue ∨ r ∈ d'.hand → client r.clientId r.data := by
    intro r member
    obtain ⟨q, old, sameClient, sameData⟩ := move.from_waiting member
    rw [sameClient, sameData]
    exact books.waiting q old
  cases move with
  | @rest s h id idle =>
    refine { books with nodup := ?_, free := ?_ }
    · exact List.nodup_append.mpr ⟨books.nodup, List.nodup_singleton id, by
        rintro a member b here rfl
        exact idle.free (List.mem_singleton.mp here ▸ member)⟩
    · intro m member
      rcases List.mem_append.mp member with old | new
      · exact books.free m old
      · cases List.mem_singleton.mp new
        exact ⟨idle.miner, idle.work⟩
  | @take s h id rest first =>
    have nodup := first ▸ books.nodup
    refine { books with nodup := (List.nodup_cons.mp nodup).2, free := ?_ }
    intro m member
    exact books.free m (first ▸ List.mem_cons_of_mem id member)
  | pop | back | front | cut | drop => exact { books with waiting := waiting }
  | assign idle => exact books.assign idle

theorem Moves.books (moves : Moves miner fits d d') (books : Books miner client d) :
    Books miner client d' := by
  induction moves with
  | refl => exact books
  | tail _ move ih => exact move.books ih

theorem Books.release {job : Job} (books : Books miner client ⟨s, h⟩)
    (working : s.workMiner.lookup id = some cid) (sent : s.lspServer.requests id = some job)
    (miners : ∀ m, m ≠ id → miner m → miner' m) :
    Books miner' client ⟨s.release id cid,
      ⟨cid, job.data, job.interval.lower, job.interval.upper⟩ :: h⟩ where
  nodup := by simpa only [Server.release_free] using books.nodup
  free := by
    intro m member
    simp only [Server.release_free] at member
    obtain ⟨here, none⟩ := books.free m member
    have other : m ≠ id := by
      rintro rfl
      rw [working] at none
      cases none
    refine ⟨miners m other here, ?_⟩
    simp only [Server.release, Map.lookup_erase, other, if_false]
    exact none
  worker := by
    intro m c busy
    simp only [Server.release, Map.lookup_erase] at busy
    split at busy
    · cases busy
    · rename_i other
      obtain ⟨here, job, held, of⟩ := books.worker busy
      refine ⟨miners m other here, job, ?_, of⟩
      simp only [Server.release_lsp, Server.heard]
      rw [Function.update_of_ne other]
      exact held
  idle := by
    intro m none
    simp only [Server.release, Map.lookup_erase] at none
    simp only [Server.release_lsp, Server.heard]
    by_cases same : m = id
    · rw [same, Function.update_self]
    · rw [Function.update_of_ne same]
      rw [if_neg same] at none
      exact books.idle none
  waiting := by
    intro r member
    simp only [Server.release_queue] at member
    rcases member with queued | inHand
    · exact books.waiting r (.inl queued)
    · rcases List.mem_cons.mp inHand with rfl | old
      · obtain ⟨_, held, same, of⟩ := books.worker working
        cases sent.symm.trans same
        exact of
      · exact books.waiting r (.inr old)
  task := by
    intro c task found
    obtain ⟨old, before, same⟩ := Server.release_data found
    exact same ▸ books.task before
  info := by
    intro c m interval found
    rw [Server.release_info] at found
    have found' : m ≠ id ∧ (s.info c).lookup m = some interval := by
      split at found
      · rename_i same
        rw [Map.lookup_erase] at found
        split at found
        · cases found
        · exact ⟨‹_›, same ▸ found⟩
      · rename_i other
        refine ⟨?_, found⟩
        rintro rfl
        exact other (Option.some.inj ((books.info found).1.symm.trans working))
    obtain ⟨other, before⟩ := found'
    simp only [Server.release_lsp, Server.heard]
    rw [Function.update_of_ne other]
    simp only [Server.release, Map.lookup_erase, other, if_false]
    exact books.info before

/-- The hand is put away; what was in it is accounted for elsewhere. -/
theorem Books.clear (books : Books miner client ⟨s, h⟩) : Books miner client ⟨s, []⟩ :=
  { books with waiting := fun r member => books.waiting r (.inl (by simpa using member)) }

theorem Books.released (books : Books miner client ⟨s, h⟩)
    (working : s.workMiner.lookup id = some cid) (mine : miner id) :
    Idle miner (s.release id cid) id where
  miner := mine
  free := by
    rw [Server.release_free]
    intro member
    rw [(books.free id member).2] at working
    cases working
  work := by simp only [Server.release, Map.lookup_erase, if_true]

theorem Books.taken {rest : List Int} (books : Books miner client ⟨s, h⟩)
    (first : s.freeMiner = id :: rest) : Idle miner { s with freeMiner := rest } id where
  miner := (books.free id (first ▸ List.mem_cons_self)).1
  free := (List.nodup_cons.mp (first ▸ books.nodup)).1
  work := (books.free id (first ▸ List.mem_cons_self)).2

/-! ### The books of one client -/

/-- The task of a client counts exactly the miners that work for it. -/
structure Agrees (s : Server) (c : Int) : Prop where
  workers : ∀ {m}, s.workMiner.lookup m = some c → m ∈ s.info c
  count : s.num c = Map.size (s.info c)

/-- No part of a client's request waits. -/
def NoneWaits (d : Desk) (c : Int) : Prop :=
  ∀ r, r ∈ d.server.requestQueue ∨ r ∈ d.hand → r.clientId ≠ c

/-- Nothing of a client's request is left for the server to assign. -/
structure Gone (d : Desk) (c : Int) : Prop where
  task : d.server.taskMap.lookup c = none
  waiting : NoneWaits d c

theorem Move.agrees (move : Move miner fits d d') (books : Books miner client d)
    (agrees : Agrees d.server c) : Agrees d'.server c := by
  cases move with
  | @assign s r h id idle =>
    have fresh : id ∉ s.info r.clientId := by
      intro member
      obtain ⟨interval, found⟩ := Map.lookup_of_mem member
      have working := (books.info found).1
      rw [idle.work] at working
      cases working
    constructor
    · intro m working
      simp only [Server.assign, Map.lookup_insert] at working
      simp only [Server.assign_info]
      split at working
      · rename_i same
        cases same
        cases working
        simp
      · have member := agrees.workers working
        split
        · rename_i same
          exact (AList.mem_insert _).mpr (.inr (same ▸ member))
        · exact member
    · simp only [Server.assign_info, Server.assign_num]
      split
      · rename_i same
        rw [Map.size_insert _ fresh, ← same, agrees.count]
        rfl
      · exact agrees.count
  | rest | take | pop | back | front | cut | drop => exact ⟨agrees.workers, agrees.count⟩

theorem Moves.agrees (moves : Moves miner fits d d') (books : Books miner client d)
    (agrees : Agrees d.server c) : Agrees d'.server c := by
  induction moves with
  | refl => exact agrees
  | tail before move ih => exact move.agrees (Moves.books before books) ih

theorem Agrees.known (agrees : Agrees s c) (working : s.workMiner.lookup id = some c) :
    c ∈ s.taskMap := by
  have member := agrees.workers working
  unfold Server.info at member
  split at member
  · rename_i task found
    exact Map.mem_of_lookup found
  · cases member

theorem Agrees.release (agrees : Agrees s c)
    (working : s.workMiner.lookup id = some cid) : Agrees (s.release id cid) c := by
  constructor
  · intro m busy
    simp only [Server.release, Map.lookup_erase] at busy
    rw [Server.release_info]
    split at busy
    · cases busy
    · rename_i other
      have member := agrees.workers busy
      split
      · rename_i same
        exact AList.mem_erase.mpr ⟨other, same ▸ member⟩
      · exact member
  · by_cases same : c = cid
    · cases same
      have less := Map.size_erase (agrees.workers working)
      rw [Server.release_num (agrees.known working), Server.release_info, if_pos rfl, if_pos rfl,
        agrees.count]
      omega
    · have untouched : (s.release id cid).num c = s.num c := by
        simp only [Server.num, Server.release_task, Server.settle]
        cases s.taskMap.lookup cid with
        | none => rfl
        | some task => simp only [Map.lookup_insert, same, if_false]
      rw [untouched, Server.release_info, if_neg same, agrees.count]

theorem Move.noneWaits (move : Move miner fits d d') (none : NoneWaits d c) :
    NoneWaits d' c := by
  intro r member
  obtain ⟨q, old, same, _⟩ := move.from_waiting member
  rw [same]
  exact none q old

theorem Moves.noneWaits (moves : Moves miner fits d d') (none : NoneWaits d c) :
    NoneWaits d' c := by
  induction moves with
  | refl => exact none
  | tail _ move ih => exact move.noneWaits ih

theorem Moves.gone (moves : Moves miner fits d d') (gone : Gone d c) : Gone d' c := by
  refine ⟨?_, Moves.noneWaits moves gone.waiting⟩
  induction moves with
  | refl => exact gone.task
  | tail before move ih =>
    have none := Moves.noneWaits before gone.waiting
    cases move with
    | @assign s r h id idle =>
      have other : c ≠ r.clientId := Ne.symm (none r (.inr List.mem_cons_self))
      simp only [Server.assign, Map.lookup_insert, other, if_false]
      exact ih
    | rest | take | pop | back | front | cut | drop => exact ih

theorem NoneWaits.release (none : NoneWaits ⟨s, h⟩ c) : NoneWaits ⟨s.release id cid, h⟩ c := by
  intro r member
  simp only [Server.release_queue] at member
  exact none r member

theorem Gone.release (gone : Gone ⟨s, h⟩ c) : Gone ⟨s.release id cid, h⟩ c where
  task := by
    by_contra some
    obtain ⟨task, found⟩ := Option.ne_none_iff_exists'.mp some
    obtain ⟨old, before, _⟩ := Server.release_data found
    cases gone.task.symm.trans before
  waiting := gone.waiting.release

theorem Moves.best (moves : Moves miner fits d d') : d'.server.best c = d.server.best c := by
  induction moves with
  | refl => rfl
  | tail _ move ih =>
    rw [← ih]
    cases move with
    | assign idle => exact Server.assign_best
    | rest | take | pop | back | front | cut | drop => rfl

theorem Moves.known (moves : Moves miner fits d d') (known : c ∈ d.server.taskMap) :
    c ∈ d'.server.taskMap := by
  induction moves with
  | refl => exact known
  | tail _ move ih =>
    cases move with
    | assign idle => exact (AList.mem_insert _).mpr (.inr ih)
    | rest | take | pop | back | front | cut | drop => exact ih

theorem Moves.results (moves : Moves miner fits d d') :
    d'.server.lspServer.results = d.server.lspServer.results := by
  induction moves with
  | refl => rfl
  | tail _ move ih =>
    rw [← ih]
    cases move <;> rfl

/-! ### The end of a task -/

@[simp] theorem TaskData.improve_frame (task : TaskData) (value nonce : UInt64) :
    (task.improve value nonce).data = task.data ∧
    (task.improve value nonce).minerNum = task.minerNum ∧
    (task.improve value nonce).minerInfo = task.minerInfo := by
  unfold TaskData.improve
  split <;> exact ⟨rfl, rfl, rfl⟩

/-- A value that comes in: the task goes on, or it ends and its client is answered. -/
inductive Concluded (s : Server) (cid : Int) (value nonce : UInt64) : Server → Prop where
  | goesOn {task : TaskData} (found : s.taskMap.lookup cid = some task) (more : task.minerNum ≠ 0) :
    Concluded s cid value nonce
      { s with taskMap := s.taskMap.insert cid (task.improve value nonce) }
  | isOver {task : TaskData} (found : s.taskMap.lookup cid = some task) (last : task.minerNum = 0) :
    Concluded s cid value nonce
      { s.writeResult cid (task.improve value nonce).currValue
          (task.improve value nonce).currNonce with
        taskMap := s.taskMap.erase cid }

theorem concluded {value nonce : UInt64} (known : cid ∈ s.taskMap) :
    Concluded s cid value nonce (s.conclude cid value nonce) := by
  obtain ⟨task, found⟩ := Map.lookup_of_mem known
  simp only [Server.conclude, found, TaskData.improve_frame]
  split
  · exact .isOver found ‹_›
  · exact .goesOn found ‹_›

section

variable {value nonce : UInt64} {s' : Server}

theorem Concluded.info (done : Concluded s cid value nonce s') :
    s'.info c = s.info c ∨ s'.info c = ∅ ∧ c = cid ∧ s.num c = 0 := by
  cases done with
  | @goesOn task found more =>
    left
    simp only [Server.info, Map.lookup_insert]
    by_cases same : c = cid
    · subst same
      simp only [if_true, found, TaskData.improve_frame]
    · simp only [same, if_false]
  | @isOver task found last =>
    simp only [Server.info, Server.num, Map.lookup_erase]
    by_cases same : c = cid
    · subst same
      simp only [if_true, found, last, and_self, or_true]
    · simp only [same, if_false, true_or]

theorem Concluded.books (done : Concluded s cid value nonce s')
    (books : Books miner client ⟨s, h⟩) : Books miner client ⟨s', h⟩ := by
  have info : ∀ {c m interval}, (s'.info c).lookup m = some interval →
      (s.info c).lookup m = some interval := by
    intro c m interval found
    rcases done.info with same | ⟨none, _⟩
    · exact same ▸ found
    · rw [none] at found
      cases found
  cases done with
  | @goesOn task found more =>
    refine { books with task := ?_, info := fun found => books.info (info found) }
    intro c task' found'
    simp only [Map.lookup_insert] at found'
    split at found'
    · rename_i same
      cases found'
      rw [(TaskData.improve_frame task value nonce).1, same]
      exact books.task found
    · exact books.task found'
  | @isOver task found last =>
    refine { books with task := ?_, info := fun found => books.info (info found) }
    intro c task' found'
    simp only [Map.lookup_erase] at found'
    split at found'
    · cases found'
    · exact books.task found'

theorem Concluded.agrees (done : Concluded s cid value nonce s') (agrees : Agrees s c) :
    Agrees s' c := by
  have num : s'.num c = s.num c := by
    cases done with
    | @goesOn task found more =>
      simp only [Server.num, Map.lookup_insert]
      by_cases same : c = cid
      · subst same
        simp only [if_true, found, TaskData.improve_frame]
      · simp only [same, if_false]
    | @isOver task found last =>
      simp only [Server.num, Map.lookup_erase]
      by_cases same : c = cid
      · subst same
        simp only [if_true, found, last]
      · simp only [same, if_false]
  have work : s'.workMiner = s.workMiner := by cases done <;> rfl
  rcases done.info (c := c) with same | ⟨none, _, zero⟩
  · exact ⟨fun working => same ▸ agrees.workers (work ▸ working), by rw [num, same, agrees.count]⟩
  · -- the count is zero, so no miner works for the client
    have empty : s.info c = ∅ := Map.eq_empty_of_size (by
      have := agrees.count
      omega)
    constructor
    · intro m working
      have member := agrees.workers (work ▸ working)
      rw [none, ← empty]
      exact member
    · rw [num, zero, none]
      rfl

theorem Concluded.gone (done : Concluded s cid value nonce s') (gone : Gone ⟨s, h⟩ c) :
    Gone ⟨s', h⟩ c := by
  cases done with
  | @goesOn task found more =>
    refine ⟨?_, gone.waiting⟩
    simp only [Map.lookup_insert]
    split
    · rename_i same
      cases (same ▸ gone.task).symm.trans found
    · exact gone.task
  | @isOver task found last =>
    refine ⟨?_, gone.waiting⟩
    simp only [Map.lookup_erase]
    split
    · rfl
    · exact gone.task

end

end DistSys.Mining
