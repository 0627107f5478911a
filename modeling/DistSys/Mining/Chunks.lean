import DistSys.Mining.Miner

/-! The parts that a request is shared out in, as long as no connection fails. -/
namespace DistSys.Mining

open Function (update)
open DistSys.Lib

variable {lower upper : UInt64} {given : List MinerData} {rest : Option UInt64}

/-! ### Sharing out one request -/

/-- The parts that were given out, the latest first, and where the rest begins that waits; `none`
if nothing is left. A part that is not the last ends where the next one begins. -/
inductive Dealt (lower upper : UInt64) : List MinerData → Option UInt64 → Prop where
  | start : Dealt lower upper [] (some lower)
  | part {given low} (before : Dealt lower upper given (some low))
      (large : low.toNat + 10000 ≤ upper.toNat) :
      Dealt lower upper (⟨low, low + 10000⟩ :: given) (some (low + 10000))
  | last {given low} (before : Dealt lower upper given (some low))
      (near : upper.toNat ≤ low.toNat + 10000) : Dealt lower upper (⟨low, upper⟩ :: given) none

theorem cut_toNat {low : UInt64} (large : low.toNat + 10000 ≤ upper.toNat) :
    (low + 10000).toNat = low.toNat + 10000 := by
  have bound := upper.toNat_lt
  rw [UInt64.toNat_add]
  exact Nat.mod_eq_of_lt (by simp only [UInt64.reduceToNat]; omega)

/-- Where the rest begins; all of the request is behind it when nothing is left. -/
def restFrom (upper : UInt64) (rest : Option UInt64) : Nat := (rest.getD upper).toNat

namespace Dealt

section

variable (h : Dealt lower upper given rest)
include h

theorem from_le (proper : lower ≤ upper) :
    lower.toNat ≤ restFrom upper rest ∧ restFrom upper rest ≤ upper.toNat := by
  have ordered := UInt64.le_iff_toNat_le.mp proper
  induction h with
  | start => exact ⟨Nat.le_refl _, ordered⟩
  | part _ large ih =>
    simp only [restFrom, Option.getD_some, cut_toNat large] at ih ⊢
    omega
  | last _ near ih =>
    simp only [restFrom, Option.getD_none, Option.getD_some] at ih ⊢
    omega

/-- Each part lies before the rest and has at most 10001 nonces. -/
theorem parts (proper : lower ≤ upper) :
    ∀ p ∈ given, lower.toNat ≤ p.lower.toNat ∧ p.lower.toNat ≤ p.upper.toNat ∧
      p.upper.toNat ≤ restFrom upper rest ∧ p.upper.toNat ≤ p.lower.toNat + 10000 := by
  induction h with
  | start => simp
  | part before large ih =>
    have start := before.from_le proper
    intro p member
    have cut := cut_toNat large
    simp only [restFrom, Option.getD_some] at ih start ⊢
    rcases List.mem_cons.mp member with rfl | old
    · simp only
      omega
    · have bounds := ih p old
      omega
  | last before near ih =>
    have start := before.from_le proper
    intro p member
    simp only [restFrom, Option.getD_some, Option.getD_none] at ih start ⊢
    rcases List.mem_cons.mp member with rfl | old
    · simp only
      omega
    · have bounds := ih p old
      omega

/-- Two parts share at most the nonce where one ends and the other begins. -/
theorem pairwise (proper : lower ≤ upper) : given.Pairwise fun a b => b.upper ≤ a.lower := by
  induction h with
  | start => exact .nil
  | part before _ ih | last before _ ih =>
    refine .cons ?_ ih
    intro p member
    exact UInt64.le_iff_toNat_le.mpr (before.parts proper p member).2.2.1

/-- A nonce of the request is in a part or in the rest. -/
theorem covers {x : UInt64} (above : lower ≤ x) (below : x ≤ upper) :
    (∃ p ∈ given, p.lower ≤ x ∧ x ≤ p.upper) ∨ ∃ low, rest = some low ∧ low ≤ x := by
  induction h with
  | start => exact .inr ⟨lower, rfl, above⟩
  | @part given low before large ih =>
    rcases ih with ⟨p, member, inside⟩ | ⟨low', same, onward⟩
    · exact .inl ⟨p, List.mem_cons_of_mem _ member, inside⟩
    · cases same
      rcases UInt64.le_total x (low + 10000) with here | later
      · exact .inl ⟨_, List.mem_cons_self, onward, here⟩
      · exact .inr ⟨_, rfl, later⟩
  | last before near ih =>
    rcases ih with ⟨p, member, inside⟩ | ⟨low', same, onward⟩
    · exact .inl ⟨p, List.mem_cons_of_mem _ member, inside⟩
    · cases same
      exact .inl ⟨_, List.mem_cons_self, onward, below⟩

/-- A small request is given out whole. -/
theorem small (few : upper.toNat - lower.toNat + 1 ≤ 10000) :
    given = [] ∧ rest = some lower ∨ given = [⟨lower, upper⟩] ∧ rest = none := by
  induction h with
  | start => exact .inl ⟨rfl, rfl⟩
  | part before large ih =>
    rcases ih with ⟨-, start⟩ | ⟨-, done⟩
    · cases start
      omega
    · cases done
  | last before near ih =>
    rcases ih with ⟨rfl, start⟩ | ⟨-, done⟩
    · cases start
      exact .inr ⟨rfl, rfl⟩
    · cases done

/-- The first part of a large request has 10001 nonces. -/
theorem large (many : 10000 < upper.toNat - lower.toNat + 1) :
    given = [] ∧ rest = some lower ∨ ∃ p ∈ given, p.upper.toNat = p.lower.toNat + 10000 := by
  induction h with
  | start => exact .inl ⟨rfl, rfl⟩
  | part before large ih => exact .inr ⟨_, List.mem_cons_self, cut_toNat large⟩
  | last before near ih =>
    rcases ih with ⟨rfl, start⟩ | ⟨p, member, length⟩
    · cases start
      exact .inr ⟨_, List.mem_cons_self, by simp only; omega⟩
    · exact .inr ⟨p, List.mem_cons_of_mem _ member, length⟩

end

end Dealt

/-! ### The server -/

/-- The parts that miners work on for a client. -/
def Server.outstanding (s : Server) (c : Int) : List MinerData :=
  s.workMiner.entries.filterMap fun entry =>
    if entry.2 = c then (s.lspServer.requests entry.1).map Job.interval else none

/-- The parts of a client's request in the queue. -/
def Server.waits (s : Server) (c : Int) : List RequestData :=
  s.requestQueue.filter fun request => request.clientId = c

/-- The request is shared out: some parts are answered, some are with miners, and the rest waits. -/
def Shared (s : Server) (c : Int) (data : String) (lower upper : UInt64)
    (answered : List MinerData) : Prop :=
  ∃ given rest, Dealt lower upper given rest ∧ given.Perm (s.outstanding c ++ answered) ∧
    s.waits c = rest.toList.map fun low => ⟨c, data, low, upper⟩

variable {s s' : Server} {id cid c : Int} {data text : String} {low high : UInt64}
  {answered : List MinerData}

theorem Shared.frame (h : Shared s c data lower upper answered)
    (outstanding : s'.outstanding c = s.outstanding c) (waits : s'.waits c = s.waits c) :
    Shared s' c data lower upper answered := by
  obtain ⟨given, rest, dealt, all, waiting⟩ := h
  exact ⟨given, rest, dealt, outstanding ▸ all, waits.trans waiting⟩

/-- What a miner works on is not changed by what another one gets. -/
theorem outstanding_assign (idle : s.workMiner.lookup id = none) :
    (s.assign id cid text low high).outstanding c =
      if cid = c then ⟨low, high⟩ :: s.outstanding c else s.outstanding c := by
  have fresh : id ∉ s.workMiner := by
    rw [← AList.lookup_eq_none]
    exact idle
  have others : ∀ entry ∈ s.workMiner.entries, entry.1 ≠ id := by
    intro entry member same
    exact fresh (same ▸ Map.mem_of_lookup (Map.mem_entries.mp member))
  have kept : s.workMiner.entries.filterMap (fun entry => if entry.2 = c then
      (update s.lspServer.requests id (some ⟨text, ⟨low, high⟩⟩) entry.1).map Job.interval
      else none) = s.outstanding c := by
    refine List.filterMap_congr fun entry member => ?_
    rw [Function.update_of_ne (others entry member)]
  unfold Server.outstanding
  simp only [Server.assign, Server.writeRequest]
  rw [AList.entries_insert_of_notMem fresh, List.filterMap_cons, kept]
  by_cases own : cid = c
  · simp [own, Server.outstanding]
  · simp [own, Server.outstanding]

/-- The part of a miner that has answered is no longer with it. -/
theorem outstanding_release {job : Job} (working : s.workMiner.lookup id = some cid)
    (sent : s.lspServer.requests id = some job) :
    (s.outstanding c).Perm (if cid = c then job.interval :: (s.release id cid).outstanding c
      else (s.release id cid).outstanding c) := by
  have others : ∀ entry ∈ (s.workMiner.erase id).entries, entry.1 ≠ id := by
    intro entry member
    exact (AList.mem_erase.mp (Map.mem_of_lookup (Map.mem_entries.mp member))).1
  have kept : (s.workMiner.erase id).entries.filterMap (fun entry => if entry.2 = c then
      (s.lspServer.requests entry.1).map Job.interval else none) =
      (s.release id cid).outstanding c := by
    refine List.filterMap_congr fun entry member => ?_
    have same : (s.release id cid).lspServer.requests entry.1 = s.lspServer.requests entry.1 := by
      rw [Server.release_lsp]
      exact Function.update_of_ne (others entry member) _ _
    rw [same]
  have split : (s.outstanding c).Perm _ := (Map.entries_perm working).filterMap _
  rw [List.filterMap_cons, kept] at split
  by_cases own : cid = c
  · simpa [own, sent] using split
  · simpa [own] using split

theorem waits_cons {r : RequestData} {queue : List RequestData}
    (first : s.requestQueue = r :: queue) :
    s.waits c = if r.clientId = c then r :: { s with requestQueue := queue }.waits c
      else { s with requestQueue := queue }.waits c := by
  simp [Server.waits, first, List.filter_cons]

theorem waits_append (s : Server) (c : Int) (r : RequestData) (queue : List RequestData) :
    { s with requestQueue := queue ++ [r] }.waits c =
      { s with requestQueue := queue }.waits c ++ if r.clientId = c then [r] else [] := by
  by_cases own : r.clientId = c
  · simp [Server.waits, own]
  · simp [Server.waits, own]

/-- One more part is with a miner. -/
theorem assign_perm (all : given.Perm (s.outstanding c ++ answered))
    (idle : s.workMiner.lookup id = none) :
    (⟨low, high⟩ :: given).Perm ((s.assign id c text low high).outstanding c ++ answered) := by
  rw [outstanding_assign idle, if_pos rfl]
  exact all.cons _

section

variable (h : Shared s c data lower upper answered)
include h

/-- A miner gets the first request of the queue, or a part of it. -/
theorem Shared.assignFirst (proper : lower ≤ upper) (room : upper.toNat + 1 < UInt64.size)
    {r : RequestData} {queue : List RequestData} (first : s.requestQueue = r :: queue)
    (idle : s.workMiner.lookup id = none) :
    Shared (s.assignFirst id r queue) c data lower upper answered := by
  obtain ⟨cid, text, low, high⟩ := r
  by_cases own : cid = c
  · obtain ⟨given, rest, dealt, all, waiting⟩ := h
    rw [waits_cons first, if_pos own] at waiting
    cases rest with
    | none => cases waiting
    | some from_ =>
      obtain ⟨here, others⟩ := List.cons.inj waiting
      cases here
      have bounds := dealt.from_le proper
      have size := small_iff (UInt64.le_iff_toNat_le.mpr bounds.2) (by omega)
      simp only [Option.getD_some] at size
      simp only [Server.assignFirst]
      split
      · rename_i small
        have few := size.mp small
        exact ⟨_, none, dealt.last (by omega), assign_perm all idle, others⟩
      · rename_i large
        have many := mt size.mpr large
        refine ⟨_, some (low + 10000), dealt.part (by omega), assign_perm all idle, ?_⟩
        rw [waits_append, if_pos rfl]
        exact congrArg (· ++ [_]) others
  · have elsewhere : ∀ high, (s.assign id cid text low high).outstanding c = s.outstanding c := by
      intro high
      rw [outstanding_assign idle, if_neg own]
    have same := waits_cons (c := c) first
    rw [if_neg own] at same
    simp only [Server.assignFirst]
    split
    · exact h.frame (elsewhere _) same.symm
    · refine h.frame (elsewhere _) ?_
      rw [waits_append, if_neg own, List.append_nil]
      exact same.symm

/-- A miner joins, or is placed again after its answer. -/
theorem Shared.join (proper : lower ≤ upper) (room : upper.toNat + 1 < UInt64.size)
    (idle : s.workMiner.lookup id = none) : Shared (s.join id) c data lower upper answered := by
  unfold Server.join
  split
  · exact h.frame rfl rfl
  · rename_i first
    exact h.assignFirst proper room first idle

/-- The part of a miner that has answered. -/
theorem Shared.release {job : Job} (working : s.workMiner.lookup id = some cid)
    (sent : s.lspServer.requests id = some job) :
    Shared (s.release id cid) c data lower upper
      (answered ++ if cid = c then [job.interval] else []) := by
  obtain ⟨given, rest, dealt, all, waiting⟩ := h
  have moved := outstanding_release (c := c) working sent
  refine ⟨given, rest, dealt, ?_, ?_⟩
  · by_cases own : cid = c
    · rw [if_pos own] at moved ⊢
      have back := (List.perm_append_singleton job.interval
        ((s.release id cid).outstanding c ++ answered)).symm
      rw [List.append_assoc] at back
      exact all.trans ((moved.append_right answered).trans back)
    · rw [if_neg own] at moved ⊢
      rw [List.append_nil]
      exact all.trans (moved.append_right _)
  · simp only [Server.waits, Server.release_queue] at waiting ⊢
    exact waiting

theorem Shared.concluded {value nonce : UInt64} (done : Concluded s cid value nonce s') :
    Shared s' c data lower upper answered := by
  cases done with
  | goesOn | isOver => exact h.frame rfl rfl

end

/-! ### A request comes in -/

/-- The free miners, none of which works. -/
structure FreeIdle (s : Server) (free : List Int) : Prop where
  list : s.freeMiner = free
  nodup : free.Nodup
  idle : ∀ m ∈ free, s.workMiner.lookup m = none

theorem FreeIdle.next {m : Int} {free : List Int} (h : FreeIdle s (m :: free)) :
    FreeIdle ({ s with freeMiner := free }.assign m cid text low high) free := by
  obtain ⟨fresh, nodup⟩ := List.nodup_cons.mp h.nodup
  refine ⟨rfl, nodup, ?_⟩
  intro other member
  have apart : other ≠ m := by
    rintro rfl
    exact fresh member
  simp only [Server.assign, Map.lookup_insert, if_neg apart]
  exact h.idle other (List.mem_cons_of_mem _ member)

/-- The loop of another client's request. -/
theorem handOut_other {free : List Int} (other : cid ≠ c) (h : FreeIdle s free) :
    (Server.handOut cid text high free s low).1.outstanding c = s.outstanding c ∧
      (Server.handOut cid text high free s low).1.requestQueue = s.requestQueue := by
  induction free generalizing s low with
  | nil => exact ⟨rfl, rfl⟩
  | cons m free ih =>
    simp only [Server.handOut]
    split
    · refine ⟨(ih h.next).1.trans ?_, (ih h.next).2⟩
      have idle : { s with freeMiner := free }.workMiner.lookup m = none :=
        h.idle m List.mem_cons_self
      rw [outstanding_assign idle, if_neg other]
      rfl
    · exact ⟨rfl, rfl⟩

/-- The loop of the client's own request: a rest is left when the miners run out. -/
theorem handOut_deals (data : String) {free : List Int} (room : upper.toNat + 10000 < UInt64.size)
    (h : FreeIdle s free) (dealt : Dealt lower upper given (some low)) (more : low < upper)
    (all : given.Perm (s.outstanding c ++ answered)) :
    ∃ given' rest, Dealt lower upper given' rest ∧
      given'.Perm ((Server.handOut c data upper free s low).1.outstanding c ++ answered) ∧
      (Server.handOut c data upper free s low).1.requestQueue = s.requestQueue ∧
      (rest = none ∧ ¬ (Server.handOut c data upper free s low).2 < upper ∨
        rest = some (Server.handOut c data upper free s low).2 ∧
          (Server.handOut c data upper free s low).2 < upper ∧
          (Server.handOut c data upper free s low).1.freeMiner = []) := by
  induction free generalizing s low given with
  | nil => exact ⟨given, some low, dealt, all, rfl, .inr ⟨rfl, more, h.list⟩⟩
  | cons m free ih =>
    have idle : { s with freeMiner := free }.workMiner.lookup m = none := h.idle m List.mem_cons_self
    have before := UInt64.lt_iff_toNat_lt.mp more
    have cut : (low + 10000).toNat = low.toNat + 10000 := by
      rw [UInt64.toNat_add]
      exact Nat.mod_eq_of_lt (by simp only [UInt64.reduceToNat, UInt64.size] at *; omega)
    simp only [Server.handOut, more, if_true]
    by_cases full : low + 10000 < upper
    · have large := UInt64.lt_iff_toNat_lt.mp full
      rw [if_neg (UInt64.not_lt.mpr (UInt64.le_of_lt full))]
      exact ih h.next (dealt.part (by omega)) full (assign_perm all idle)
    · have whole : (if upper < low + 10000 then upper else low + 10000) = upper := by
        split
        · rfl
        · rename_i notOver
          exact UInt64.le_antisymm (UInt64.not_lt.mp notOver) (UInt64.not_lt.mp full)
      have near := UInt64.le_iff_toNat_le.mp (UInt64.not_lt.mp full)
      rw [whole, handOut_stays free (UInt64.lt_irrefl upper)]
      exact ⟨_, none, dealt.last (by omega), assign_perm all idle, rfl,
        .inl ⟨rfl, UInt64.lt_irrefl upper⟩⟩

/-- The request of another client. -/
theorem Shared.request (h : Shared s c data lower upper answered) (other : cid ≠ c)
    (free : FreeIdle s s.freeMiner) : Shared (s.request cid text low high) c data lower upper answered := by
  have queued : ∀ (s : Server) (r : RequestData), r.clientId = cid →
      { s with requestQueue := s.requestQueue ++ [r] }.waits c = s.waits c := by
    intro s r of
    rw [waits_append, if_neg (of ▸ other), List.append_nil]
  unfold Server.request
  split
  · exact h.frame rfl (queued s _ rfl)
  · rename_i m rest list
    have idle : s.workMiner.lookup m = none := free.idle m (list ▸ List.mem_cons_self)
    split
    · have assigned : (s.assign m cid text low high).outstanding c = s.outstanding c := by
        rw [outstanding_assign idle, if_neg other]
      exact h.frame assigned rfl
    · obtain ⟨outstanding, queue⟩ := handOut_other other free
      have waits : (Server.handOut cid text high s.freeMiner s low).1.waits c = s.waits c := by
        rw [Server.waits, queue, Server.waits]
      dsimp only
      split
      · exact h.frame outstanding ((queued _ _ rfl).trans waits)
      · exact h.frame outstanding waits

/-- The client's own request. -/
theorem request_shared (data : String) (proper : lower ≤ upper) (room : upper.toNat + 10000 < UInt64.size)
    (free : FreeIdle s s.freeMiner) (none : s.outstanding c = []) (waits : s.waits c = []) :
    Shared (s.request c data lower upper) c data lower upper [] := by
  have start : (([] : List MinerData)).Perm (s.outstanding c ++ []) := by simp [none]
  unfold Server.request
  split
  · refine ⟨[], some lower, .start, start, ?_⟩
    rw [waits_append, if_pos rfl]
    exact congrArg (· ++ [_]) waits
  · rename_i m rest list
    have idle : s.workMiner.lookup m = Option.none := free.idle m (list ▸ List.mem_cons_self)
    have size := small_iff proper (by omega)
    split
    · rename_i small
      have few := size.mp small
      refine ⟨[⟨lower, upper⟩], Option.none, .last .start (by omega), ?_, waits⟩
      exact assign_perm start idle
    · rename_i large
      have many := mt size.mpr large
      have more : lower < upper := UInt64.lt_iff_toNat_lt.mpr (by omega)
      obtain ⟨given, rest', dealt, all, queue, ends⟩ :=
        handOut_deals data room free .start more start
      have still : (Server.handOut c data upper s.freeMiner s lower).1.waits c = [] := by
        rw [Server.waits, queue]
        exact waits
      dsimp only
      rcases ends with ⟨rfl, past⟩ | ⟨rfl, left, used⟩
      · rw [if_neg fun both => past both.2]
        exact ⟨given, Option.none, dealt, all, still⟩
      · rw [if_pos ⟨used, left⟩]
        refine ⟨given, _, dealt, all, ?_⟩
        rw [waits_append, if_pos rfl]
        exact congrArg (· ++ [_]) still

/-! ### The world -/

/-- The parts of a client's request that were answered. -/
def World.answeredParts (w : World) (c : Int) : List MinerData :=
  (w.received.filter fun r => r.client = c).map Received.interval

/-- The parts of a client's request that were given to miners, as long as none of them fails. -/
def World.chunks (w : World) (c : Int) : List MinerData :=
  w.server.outstanding c ++ w.answeredParts c

/-- The action of a connection that works. -/
def Action.works : Action → Bool
  | .error _ => false
  | .join _ | .request _ _ _ _ | .result _ _ _ => true

variable {w w' : World} {a : Action}

theorem World.Kept.freeIdle (kept : w.Kept) : FreeIdle w.server w.server.freeMiner :=
  ⟨rfl, kept.nodup, fun m member => (kept.free m member).2⟩

/-- The books are in order, and the request of the client is shared out. -/
structure SharedOut (w : World) (c : Int) (data : String) (lower upper : UInt64) : Prop where
  kept : w.Kept
  role : w.role c = .client data lower upper
  shared : Shared w.server c data lower upper (w.answeredParts c)

theorem SharedOut.result {hash nonce : UInt64} (h : SharedOut w c data lower upper)
    (proper : lower ≤ upper) (room : upper.toNat + 1 < UInt64.size)
    (taken : step w (.result id hash nonce) = some w') :
    Shared w'.server c data lower upper (w'.answeredParts c) := by
  have turn := turn_of_step h.kept taken
  cases turn with
  | @result _ cid _ _ job s working sent books moves ends =>
    have released := h.shared.release working sent
    have idle : (w.server.release id cid).workMiner.lookup id = none := by
      simp [Server.release]
    have placed := released.join proper room idle
    have parts : World.answeredParts { w with
        server := s, received := w.received ++ [⟨cid, job.interval, hash, nonce⟩] } c =
        w.answeredParts c ++ if cid = c then [job.interval] else [] := by
      by_cases own : cid = c
      · simp [World.answeredParts, own]
      · simp [World.answeredParts, own]
    rw [parts]
    rcases ends with ⟨-, rfl⟩ | ⟨-, done⟩
    · exact placed
    · exact placed.concluded done

theorem SharedOut.step (h : SharedOut w c data lower upper) (proper : lower ≤ upper)
    (room : upper.toNat + 1 < UInt64.size) (works : a.works = true) (taken : step w a = some w') :
    SharedOut w' c data lower upper := by
  have turn := turn_of_step h.kept taken
  refine ⟨turn.kept h.kept, turn.keeps_role h.role, ?_⟩
  cases a with
  | error id => cases works
  | result id hash nonce => exact h.result proper room taken
  | join id =>
    simp only [Mining.step] at taken
    split at taken
    · rename_i guard
      cases taken
      have idle := h.kept.no_work fun mine => by cases mine.1.symm.trans guard.2.2
      exact h.shared.join proper room idle.1
    · cases taken
  | request id text low high =>
    simp only [Mining.step] at taken
    split at taken
    · rename_i guard
      cases taken
      have other : id ≠ c := by
        rintro rfl
        cases guard.2.2.symm.trans h.role
      exact h.shared.request other h.kept.freeIdle
    · cases taken

/-- Right after the request. -/
theorem sharedOut_request (kept : w.Kept) (heard : w.Heard) (proper : lower ≤ upper)
    (room : upper.toNat + 10000 < UInt64.size)
    (taken : step w (.request c data lower upper) = some w') :
    SharedOut w' c data lower upper := by
  have turn := turn_of_step kept taken
  simp only [Mining.step] at taken
  split at taken
  · rename_i guard
    cases taken
    have new := guard.2.2
    refine ⟨turn.kept kept, Function.update_self .., ?_⟩
    have working : w.server.outstanding c = [] := by
      refine List.filterMap_eq_nil_iff.mpr fun entry member => ?_
      rw [if_neg]
      rintro rfl
      obtain ⟨_, _, _, known⟩ := kept.worker (Map.mem_entries.mp member)
      exact w.not_client new known
    have waiting : w.server.waits c = [] := by
      refine List.filter_eq_nil_iff.mpr fun r member => ?_
      have known := kept.waiting r (.inl member)
      intro own
      rw [of_decide_eq_true own] at known
      exact w.not_client new known
    have answered : w.answeredParts c = [] := by
      refine List.map_eq_nil_iff.mpr (List.filter_eq_nil_iff.mpr fun r member => ?_)
      obtain ⟨_, known⟩ := heard r member
      intro own
      rw [of_decide_eq_true own] at known
      exact w.not_client new known
    have shared := request_shared data proper room kept.freeIdle working waiting
    rw [← answered] at shared
    exact shared
  · cases taken

/-- A request that is given out completely, while all connections work. -/
theorem chunks_dealt {before after : List Action} {w₀ w₁ w : World}
    (reached : run step newWorld before = some w₀)
    (asks : step w₀ (.request c data lower upper) = some w₁) (proper : lower ≤ upper)
    (room : upper.toNat + 10000 < UInt64.size) (works : ∀ a ∈ after, a.works = true)
    (goes : run step w₁ after = some w) (out : w.server.waits c = []) :
    ∃ given, Dealt lower upper given none ∧ given.Perm (w.chunks c) := by
  have tracked : Tracked w₀ :=
    run_keeps Tracked (fun _ _ _ inv taken => inv.next taken) newWorld_tracked before reached
  have start := sharedOut_request tracked.present.kept tracked.heard proper room asks
  have shared := run_allowed (fun a => a.works = true) (fun w => SharedOut w c data lower upper)
    (fun _ _ _ h works taken => h.step proper (by omega) works taken) start after works goes
  obtain ⟨given, rest, dealt, all, waiting⟩ := shared.shared
  rw [out] at waiting
  cases rest with
  | some low => cases waiting
  | none => exact ⟨given, dealt, all⟩

/-- The parts cover the request and none has more than 10001 nonces. Two of them share at most the
nonce where one ends and the other begins. -/
theorem chunks_touch (before after : List Action) {w₀ w₁ w : World}
    (reached : run step newWorld before = some w₀) (c : Int) (data : String) (lower upper : UInt64)
    (asks : step w₀ (.request c data lower upper) = some w₁) (proper : lower ≤ upper)
    (room : upper.toNat + 10000 < UInt64.size) (works : ∀ a ∈ after, a.works = true)
    (goes : run step w₁ after = some w) (out : w.server.waits c = []) :
    (∀ x, (∃ p ∈ w.chunks c, p.lower ≤ x ∧ x ≤ p.upper) ↔ lower ≤ x ∧ x ≤ upper) ∧
    ((w.chunks c).Pairwise fun a b => a.upper ≤ b.lower ∨ b.upper ≤ a.lower) ∧
    (∀ p ∈ w.chunks c, p.upper.toNat - p.lower.toNat + 1 ≤ 10001) ∧
    (10000 < upper.toNat - lower.toNat + 1 →
      ∃ p ∈ w.chunks c, p.upper.toNat - p.lower.toNat + 1 = 10001) := by
  obtain ⟨given, dealt, all⟩ := chunks_dealt reached asks proper room works goes out
  have bounds := dealt.parts proper
  refine ⟨?_, ?_, ?_, ?_⟩
  · intro x
    constructor
    · rintro ⟨p, member, above, below⟩
      have inside := bounds p (all.mem_iff.mpr member)
      simp only [restFrom, Option.getD_none] at inside
      simp only [UInt64.le_iff_toNat_le] at above below ⊢
      omega
    · rintro ⟨above, below⟩
      rcases dealt.covers above below with ⟨p, member, inside⟩ | ⟨low, none, -⟩
      · exact ⟨p, all.mem_iff.mp member, inside⟩
      · cases none
  · refine (all.pairwise_iff fun either => either.symm).mp ?_
    exact (dealt.pairwise proper).imp fun later => .inr later
  · intro p member
    have inside := bounds p (all.mem_iff.mpr member)
    omega
  · intro many
    rcases dealt.large many with ⟨-, none⟩ | ⟨p, member, length⟩
    · cases none
    · exact ⟨p, all.mem_iff.mp member, by omega⟩

/-- Exactly the requests of at most 10000 nonces are partitioned by the parts that they are given out
in, with at most 10000 nonces in each. -/
theorem chunks_partition (before after : List Action) {w₀ w₁ w : World}
    (reached : run step newWorld before = some w₀) (c : Int) (data : String) (lower upper : UInt64)
    (asks : step w₀ (.request c data lower upper) = some w₁) (proper : lower ≤ upper)
    (room : upper.toNat + 10000 < UInt64.size) (works : ∀ a ∈ after, a.works = true)
    (goes : run step w₁ after = some w) (out : w.server.waits c = []) :
    (((w.chunks c).Pairwise fun a b =>
        ∀ x, ¬ ((a.lower ≤ x ∧ x ≤ a.upper) ∧ b.lower ≤ x ∧ x ≤ b.upper)) ∧
      (∀ x, (∃ p ∈ w.chunks c, p.lower ≤ x ∧ x ≤ p.upper) ↔ lower ≤ x ∧ x ≤ upper) ∧
      ∀ p ∈ w.chunks c, p.upper.toNat - p.lower.toNat + 1 ≤ 10000) ↔
    upper.toNat - lower.toNat + 1 ≤ 10000 := by
  constructor
  · rintro ⟨-, -, small⟩
    by_contra many
    obtain ⟨-, -, -, large⟩ :=
      chunks_touch before after reached c data lower upper asks proper room works goes out
    obtain ⟨p, member, size⟩ := large (by omega)
    have few := small p member
    omega
  · intro few
    obtain ⟨given, dealt, all⟩ := chunks_dealt reached asks proper room works goes out
    rcases dealt.small few with ⟨-, none⟩ | ⟨rfl, -⟩
    · cases none
    · rw [← List.singleton_perm.mp all]
      simpa using few

/-- Two miners are free, one of them gets the request, and it answers. -/
theorem chunks_of_small : ∃ w,
    run step newWorld [.join 1, .join 2, .request 3 "msg" 0 9999, .result 1 7 5] = some w ∧
      w.chunks 3 = [⟨0, 9999⟩] ∧
      ∀ p ∈ w.chunks 3, p.upper.toNat - p.lower.toNat + 1 ≤ 10000 :=
  ⟨_, rfl, by decide, ((chunks_partition [.join 1, .join 2] [.result 1 7 5] rfl 3 "msg" 0 9999 rfl
    (by decide) (by decide) (by decide) rfl (by decide)).mpr (by decide)).2.2⟩

/-- With 20001 nonces both miners get 10001 of them, and the nonce 10000 is mined twice. -/
theorem chunks_overlap : ∃ w,
    run step newWorld [.join 1, .join 2, .request 3 "msg" 0 20000] = some w ∧
      w.server.waits 3 = [] ∧ w.chunks 3 = [⟨10000, 20000⟩, ⟨0, 10000⟩] ∧
      (∀ p ∈ w.chunks 3, p.lower ≤ 10000 ∧ 10000 ≤ p.upper) ∧
      ∀ p ∈ w.chunks 3, p.upper.toNat - p.lower.toNat + 1 = 10001 :=
  ⟨_, rfl, by decide, by decide, by decide, by decide⟩

end DistSys.Mining
