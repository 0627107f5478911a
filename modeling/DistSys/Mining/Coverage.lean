import DistSys.Mining.Disconnects

/-! Where the nonces of a request are: its parts wait in the queue, are with miners, or have been
answered, and together they always cover the request. -/
namespace DistSys.Mining

open Function (update)
open DistSys.Lib

/-- The nonces of an interval, both ends included. -/
def between (lower upper : UInt64) : Set UInt64 := { x | lower ≤ x ∧ x ≤ upper }

theorem between_nonempty {lower upper : UInt64} :
    (between lower upper).Nonempty ↔ lower ≤ upper := by
  constructor
  · rintro ⟨x, above, below⟩
    exact UInt64.le_trans above below
  · exact fun proper => ⟨lower, UInt64.le_refl lower, proper⟩

theorem between_union {lower mid upper : UInt64} (left : lower ≤ mid) (right : mid ≤ upper) :
    between lower mid ∪ between mid upper = between lower upper := by
  ext x
  constructor
  · rintro (⟨above, below⟩ | ⟨above, below⟩)
    · exact ⟨above, UInt64.le_trans below right⟩
    · exact ⟨UInt64.le_trans left above, below⟩
  · rintro ⟨above, below⟩
    rcases UInt64.le_total x mid with small | large
    · exact .inl ⟨above, small⟩
    · exact .inr ⟨large, below⟩

/-- The parts of a client's request that wait, are in hand or are with miners. -/
def parts (d : Desk) (c : Int) : Set (Set UInt64) :=
  { A | (∃ r, (r ∈ d.server.requestQueue ∨ r ∈ d.hand) ∧ r.clientId = c ∧
      A = between r.lower r.upper) ∨
    ∃ m job, d.server.workMiner.lookup m = some c ∧ d.server.lspServer.requests m = some job ∧
      A = between job.interval.lower job.interval.upper }

/-- The parts that have been answered. -/
def answered (received : List Received) (c : Int) : Set (Set UInt64) :=
  { A | ∃ r ∈ received, r.client = c ∧ A = between r.interval.lower r.interval.upper }

section

variable {miner : Int → Prop} {client : Int → String → Prop} {fits : Int → Prop} {d d' : Desk}
variable {s : Server} {h h' : List RequestData} {r : RequestData} {id cid c : Int}
variable {S : Set UInt64} {D : Set (Set UInt64)}

theorem parts_congr {queue : List RequestData}
    (same : ∀ r, r ∈ queue ∨ r ∈ h' ↔ r ∈ s.requestQueue ∨ r ∈ h) :
    parts ⟨{ s with requestQueue := queue }, h'⟩ c = parts ⟨s, h⟩ c := by
  simp only [parts, same]

theorem parts_own (own : r.clientId = c) :
    parts ⟨s, r :: h⟩ c = insert (between r.lower r.upper) (parts ⟨s, h⟩ c) := by
  ext A
  constructor
  · rintro (⟨q, member, of, rfl⟩ | working)
    · rcases member with queued | inHand
      · exact .inr (.inl ⟨q, .inl queued, of, rfl⟩)
      · rcases List.mem_cons.mp inHand with rfl | old
        · exact .inl rfl
        · exact .inr (.inl ⟨q, .inr old, of, rfl⟩)
    · exact .inr (.inr working)
  · rintro (rfl | ⟨q, member, of, rfl⟩ | working)
    · exact .inl ⟨r, .inr List.mem_cons_self, own, rfl⟩
    · exact .inl ⟨q, member.imp_right (List.mem_cons_of_mem r), of, rfl⟩
    · exact .inr working

theorem parts_other (other : r.clientId ≠ c) : parts ⟨s, r :: h⟩ c = parts ⟨s, h⟩ c := by
  ext A
  constructor
  · rintro (⟨q, member, of, rfl⟩ | working)
    · refine .inl ⟨q, member.imp_right fun inHand => ?_, of, rfl⟩
      rcases List.mem_cons.mp inHand with rfl | old
      · exact absurd of other
      · exact old
    · exact .inr working
  · rintro (⟨q, member, of, rfl⟩ | working)
    · exact .inl ⟨q, member.imp_right (List.mem_cons_of_mem r), of, rfl⟩
    · exact .inr working

/-- What is assigned goes from the hand to a miner. -/
theorem parts_assign (idle : Idle miner s id) :
    parts ⟨s.assign id r.clientId r.data r.lower r.upper, h⟩ c = parts ⟨s, r :: h⟩ c := by
  ext A
  simp only [parts, Server.assign, Server.writeRequest, Map.lookup_insert]
  constructor
  · rintro (⟨q, member, of, rfl⟩ | ⟨m, job, working, sent, rfl⟩)
    · exact .inl ⟨q, member.imp_right (List.mem_cons_of_mem r), of, rfl⟩
    · by_cases same : m = id
      · rw [if_pos same] at working
        rw [same, Function.update_self] at sent
        cases working
        cases sent
        exact .inl ⟨r, .inr List.mem_cons_self, rfl, rfl⟩
      · rw [if_neg same] at working
        rw [Function.update_of_ne same] at sent
        exact .inr ⟨m, job, working, sent, rfl⟩
  · rintro (⟨q, member, of, rfl⟩ | ⟨m, job, working, sent, rfl⟩)
    · rcases member with queued | inHand
      · exact .inl ⟨q, .inl queued, of, rfl⟩
      · rcases List.mem_cons.mp inHand with rfl | old
        · exact .inr ⟨id, _, by rw [if_pos rfl, of], Function.update_self .., rfl⟩
        · exact .inl ⟨q, .inr old, of, rfl⟩
    · have other : m ≠ id := by
        rintro rfl
        cases idle.work.symm.trans working
      exact .inr ⟨m, job, by rw [if_neg other, working],
        by rw [Function.update_of_ne other, sent], rfl⟩

/-- What a released miner had is in hand again. -/
theorem parts_release {job : Job} (working : s.workMiner.lookup id = some cid)
    (sent : s.lspServer.requests id = some job) :
    parts ⟨s.release id cid, ⟨cid, job.data, job.interval.lower, job.interval.upper⟩ :: h⟩ c =
      parts ⟨s, h⟩ c := by
  have work : ∀ m, (s.release id cid).workMiner.lookup m =
      if m = id then none else s.workMiner.lookup m := fun m => Map.lookup_erase _ id m
  ext A
  simp only [parts, Server.release_queue, Server.release_lsp, Server.heard, work]
  constructor
  · rintro (⟨q, member, of, rfl⟩ | ⟨m, job', working', sent', rfl⟩)
    · rcases member with queued | inHand
      · exact .inl ⟨q, .inl queued, of, rfl⟩
      · rcases List.mem_cons.mp inHand with rfl | old
        · exact .inr ⟨id, job, of ▸ working, sent, rfl⟩
        · exact .inl ⟨q, .inr old, of, rfl⟩
    · split at working'
      · cases working'
      · rename_i other
        rw [Function.update_of_ne other] at sent'
        exact .inr ⟨m, job', working', sent', rfl⟩
  · rintro (⟨q, member, of, rfl⟩ | ⟨m, job', working', sent', rfl⟩)
    · exact .inl ⟨q, member.imp_right (List.mem_cons_of_mem _), of, rfl⟩
    · by_cases same : m = id
      · subst same
        cases sent.symm.trans sent'
        cases working.symm.trans working'
        exact .inl ⟨_, .inr List.mem_cons_self, rfl, rfl⟩
      · exact .inr ⟨m, job', by rw [if_neg same, working'],
          by rw [Function.update_of_ne same, sent'], rfl⟩

theorem Move.covers (move : Move miner fits d d') (fit : fits c)
    (cover : Covers (parts d c ∪ D) S) : Covers (parts d' c ∪ D) S := by
  cases move with
  | rest idle => exact cover
  | take first => exact cover
  | @pop s h r rest first => rwa [parts_congr (h := h) (by rw [first]; grind)]
  | @back s r h | @front s r h => rwa [parts_congr (h := r :: h) (by grind)]
  | @cut s r h mid within =>
    by_cases own : r.clientId = c
    · rw [parts_own own, Set.insert_union] at cover
      have proper := between_nonempty.mp (cover.proper _ (Set.mem_insert _ _))
      have bounds := within (own ▸ fit) proper
      rw [parts_own (r := { r with upper := mid }) own, parts_own (r := { r with lower := mid }) own,
        Set.insert_union, Set.insert_union]
      exact cover.cut (between_nonempty.mpr bounds.1) (between_nonempty.mpr bounds.2)
        (between_union bounds.1 bounds.2)
    · rw [parts_other own] at cover
      rwa [parts_other (r := { r with upper := mid }) own,
        parts_other (r := { r with lower := mid }) own]
  | @drop s r h empty =>
    by_cases own : r.clientId = c
    · rw [parts_own own, Set.insert_union] at cover
      have proper := between_nonempty.mp (cover.proper _ (Set.mem_insert _ _))
      exact absurd empty (UInt64.not_lt.mpr proper)
    · rwa [parts_other own] at cover
  | assign idle => rwa [parts_assign idle]

theorem Moves.covers (moves : Moves miner fits d d') (fit : fits c)
    (cover : Covers (parts d c ∪ D) S) : Covers (parts d' c ∪ D) S := by
  induction moves with
  | refl => exact cover
  | tail _ move ih => exact move.covers fit ih

end

/-! ### The world -/

section

variable {w w' : World} {a : Action} {c : Int} {S : Set UInt64}

/-- All parts of a client's request, wherever they are. -/
def World.parts (w : World) (c : Int) : Set (Set UInt64) :=
  Mining.parts ⟨w.server, []⟩ c ∪ answered w.received c

theorem answered_append {received : List Received} {r : Received} :
    answered (received ++ [r]) c = if r.client = c then
      insert (between r.interval.lower r.interval.upper) (answered received c)
    else answered received c := by
  ext A
  split
  · rename_i own
    constructor
    · rintro ⟨q, member, of, rfl⟩
      rcases List.mem_append.mp member with old | new
      · exact .inr ⟨q, old, of, rfl⟩
      · cases List.mem_singleton.mp new
        exact .inl rfl
    · rintro (rfl | ⟨q, old, of, rfl⟩)
      · exact ⟨r, by simp, own, rfl⟩
      · exact ⟨q, List.mem_append_left _ old, of, rfl⟩
  · rename_i other
    constructor
    · rintro ⟨q, member, of, rfl⟩
      rcases List.mem_append.mp member with old | new
      · exact ⟨q, old, of, rfl⟩
      · cases List.mem_singleton.mp new
        exact absurd of other
    · rintro ⟨q, old, of, rfl⟩
      exact ⟨q, List.mem_append_left _ old, of, rfl⟩

/-- A Result takes the part of a miner to those that have been answered. -/
theorem parts_answered {s : Server} {id cid : Int} {job : Job} {received : List Received}
    {hash nonce : UInt64} (working : s.workMiner.lookup id = some cid)
    (sent : s.lspServer.requests id = some job) :
    parts ⟨s.release id cid, []⟩ c ∪ answered (received ++ [⟨cid, job.interval, hash, nonce⟩]) c =
      parts ⟨s, []⟩ c ∪ answered received c := by
  rw [← parts_release working sent, answered_append]
  by_cases own : cid = c
  · rw [if_pos own, parts_own own, Set.insert_union, Set.union_insert]
  · rw [if_neg own, parts_other own]

theorem Concluded.parts {s s' : Server} {cid : Int} {hash nonce : UInt64}
    (done : Concluded s cid hash nonce s') : parts ⟨s', []⟩ c = parts ⟨s, []⟩ c := by
  cases done <;> rfl

theorem parts_abandon {s : Server} {id : Int} (other : id ≠ c) :
    parts ⟨s.abandon id, []⟩ c = parts ⟨s, []⟩ c := by
  have same : ∀ r, r.clientId = c → (r ∈ s.requestQueue.eraseP (fun r => r.clientId = id) ↔
      r ∈ s.requestQueue) := by
    intro r of
    apply List.mem_eraseP_of_neg
    simpa [of] using Ne.symm other
  ext A
  simp only [parts, Server.abandon]
  constructor
  · rintro (⟨r, queued | inHand, of, rfl⟩ | working)
    · exact .inl ⟨r, .inl ((same r of).mp queued), of, rfl⟩
    · cases inHand
    · exact .inr working
  · rintro (⟨r, queued | inHand, of, rfl⟩ | working)
    · exact .inl ⟨r, .inl ((same r of).mpr queued), of, rfl⟩
    · cases inHand
    · exact .inr working

/-- A client's parts cover its request until it goes itself. -/
theorem Turn.covers {data : String} (turn : Turn w a w') (known : w.Client c data)
    (stays : a ≠ .error c) (cover : Covers (w.parts c) S) : Covers (w'.parts c) S := by
  cases turn with
  | join new books moves => exact Moves.covers moves trivial cover
  | @request id data lower upper s new there books moves =>
    obtain ⟨_, _, role⟩ := known
    have other : id ≠ c := by
      rintro rfl
      cases new.symm.trans role
    refine Moves.covers moves (fun own => absurd own.symm other) ?_
    rwa [parts_other (r := ⟨id, data, lower, upper⟩) other]
  | result working sent books moves ends =>
    rw [World.parts, ← parts_answered working sent] at cover
    have after := Moves.covers moves trivial cover
    rcases ends with ⟨_, rfl⟩ | ⟨_, done⟩
    · exact after
    · rwa [World.parts, done.parts]
  | @abandon id pending notMine =>
    have other : id ≠ c := by
      rintro rfl
      exact stays rfl
    rwa [World.parts, parts_abandon other]
  | quit settled none => exact cover
  | fail working sent known books moves =>
    rw [World.parts, ← parts_release working sent] at cover
    exact Moves.covers moves trivial cover
  | crash working missing => exact cover

/-- Every Result was for a client. -/
def World.Heard (w : World) : Prop := ∀ r ∈ w.received, ∃ data, w.Client r.client data

theorem Turn.heard (turn : Turn w a w') (kept : w.Kept) (heard : w.Heard) : w'.Heard := by
  have old : ∀ r ∈ w.received, ∃ data, w'.Client r.client data := by
    intro r member
    obtain ⟨data, known⟩ := heard r member
    exact ⟨data, turn.keeps_client known⟩
  cases turn with
  | result working sent books moves ends =>
    intro r member
    rcases List.mem_append.mp member with before | new
    · exact old r before
    · cases List.mem_singleton.mp new
      obtain ⟨_, job, _, known⟩ := kept.worker working
      exact ⟨job.data, known⟩
  | join | request | abandon | quit | fail | crash => exact old

/-- Nothing is there yet of a client that has not sent its request. -/
theorem World.Kept.parts_unknown (kept : w.Kept) (heard : w.Heard) (new : w.role c = .unknown) :
    w.parts c = ∅ := by
  rw [Set.eq_empty_iff_forall_notMem]
  rintro A ((⟨r, member, rfl, _⟩ | ⟨m, job, working, _⟩) | ⟨r, member, rfl, _⟩)
  · exact w.not_client new (kept.waiting r member)
  · obtain ⟨_, _, _, known⟩ := kept.worker working
    exact w.not_client new known
  · obtain ⟨_, known⟩ := heard r member
    exact w.not_client new known

/-- A new request is covered by its parts, unless the bounds of the loop overflow. -/
theorem Turn.covers_new {data : String} {lower upper : UInt64}
    (turn : Turn w (.request c data lower upper) w') (kept : w.Kept) (heard : w.Heard)
    (proper : lower ≤ upper) (fits : Fits w.server lower upper) :
    Covers (w'.parts c) (between lower upper) := by
  cases turn with
  | request new there books moves =>
    refine Moves.covers moves (fun _ => fits) ?_
    have only : parts ⟨w.server, [⟨c, data, lower, upper⟩]⟩ c ∪ answered w.received c =
        {between lower upper} := by
      have none := kept.parts_unknown heard new
      rw [World.parts] at none
      rw [parts_own rfl, Set.insert_union, none]
      simp
    rw [only]
    exact .single (between_nonempty.mpr proper)

/-- The requests of the clients that are there are covered by their parts. -/
structure Tracked (w : World) : Prop where
  present : Present w
  heard : w.Heard
  covered : ∀ c data lower upper, w.role c = .client data lower upper → w.lost c = false →
    lower ≤ upper → upper.toNat + 10000 < UInt64.size → Covers (w.parts c) (between lower upper)

theorem newWorld_tracked : Tracked newWorld where
  present := newWorld_present
  heard := by simp [World.Heard, newWorld]
  covered := by
    intro c data lower upper role
    cases role

theorem Turn.role {data : String} {lower upper : UInt64} (turn : Turn w a w')
    (role : w'.role c = .client data lower upper) :
    w.role c = .client data lower upper ∨ a = .request c data lower upper := by
  cases turn with
  | @join id s new books moves =>
    simp only [Function.update_apply] at role
    split at role
    · cases role
    · exact .inl role
  | @request id data lower upper s new there books moves =>
    simp only [Function.update_apply] at role
    split at role
    · rename_i same
      cases same
      cases role
      exact .inr rfl
    · exact .inl role
  | result | abandon | quit | fail | crash => exact .inl role

theorem Tracked.next (tracked : Tracked w) (taken : step w a = some w') : Tracked w' := by
  have kept := tracked.present.kept
  have turn := turn_of_step kept taken
  refine ⟨tracked.present.next taken, turn.heard kept tracked.heard, ?_⟩
  intro c data lower upper role there proper room
  obtain ⟨before, stays | rfl⟩ := turn.stays there
  · rcases turn.role role with old | rfl
    · exact turn.covers ⟨lower, upper, old⟩ stays
        (tracked.covered c data lower upper old before proper room)
    · exact turn.covers_new kept tracked.heard proper (.inr (.inr room))
  · exact tracked.covered c data lower upper role before proper room

theorem no_nonce_lost (acts : List Action) (w : World) (reached : run step newWorld acts = some w)
    (c : Int) (data : String) (lower upper : UInt64)
    (role : w.role c = .client data lower upper) (there : w.lost c = false)
    (proper : lower ≤ upper) (room : upper.toNat + 10000 < UInt64.size)
    (x : UInt64) (above : lower ≤ x) (below : x ≤ upper) :
    (∃ r ∈ w.server.requestQueue, r.clientId = c ∧ r.lower ≤ x ∧ x ≤ r.upper) ∨
    (∃ task m interval, w.server.taskMap.lookup c = some task ∧
      task.minerInfo.lookup m = some interval ∧ w.server.workMiner.lookup m = some c ∧
      interval.lower ≤ x ∧ x ≤ interval.upper) ∨
    (∃ r ∈ w.received, r.client = c ∧ r.interval.lower ≤ x ∧ x ≤ r.interval.upper) := by
  have tracked : Tracked w :=
    run_keeps Tracked (fun _ _ _ inv taken => inv.next taken) newWorld_tracked acts reached
  have cover := tracked.covered c data lower upper role there proper room
  obtain ⟨A, part, inside⟩ := cover.exists_part (x := x) ⟨above, below⟩
  rcases part with (⟨r, queued | inHand, of, rfl⟩ | ⟨m, job, working, sent, rfl⟩) |
    ⟨r, member, of, rfl⟩
  · exact .inl ⟨r, queued, of, inside⟩
  · cases inHand
  · -- the task lists what the miner was sent
    have agrees := tracked.present.agrees c there
    obtain ⟨task, found⟩ := Map.lookup_of_mem (agrees.known working)
    obtain ⟨interval, listed⟩ := Map.lookup_of_mem (agrees.workers working)
    obtain ⟨_, job', sent', same⟩ := tracked.present.kept.info listed
    cases sent.symm.trans sent'
    simp only [Server.info, found] at listed
    exact .inr (.inl ⟨task, m, interval, found, listed, working, same ▸ inside⟩)
  · exact .inr (.inr ⟨r, member, of, inside⟩)

/-- Of 25001 nonces a part waits, a part has come back from a miner that failed, one is with a
miner and one is answered. -/
def splitRequest : List Action :=
  [.join 1, .join 2, .request 3 "msg" 0 25000, .error 1, .result 2 7 10000]

theorem split_request_covered : ∃ w, run step newWorld splitRequest = some w ∧
    w.server.requestQueue = [⟨3, "msg", 20000, 25000⟩, ⟨3, "msg", 10000, 10000⟩] ∧
    ((∃ r ∈ w.server.requestQueue, r.clientId = 3 ∧ r.lower ≤ 12345 ∧ 12345 ≤ r.upper) ∨
    (∃ task m interval, w.server.taskMap.lookup 3 = some task ∧
      task.minerInfo.lookup m = some interval ∧ w.server.workMiner.lookup m = some 3 ∧
      interval.lower ≤ 12345 ∧ 12345 ≤ interval.upper) ∨
    (∃ r ∈ w.received, r.client = 3 ∧ r.interval.lower ≤ 12345 ∧ 12345 ≤ r.interval.upper)) :=
  ⟨_, rfl, by decide, no_nonce_lost splitRequest _ rfl 3 "msg" 0 25000 rfl rfl (by decide)
    (by decide) 12345 (by decide) (by decide)⟩

end

end DistSys.Mining
