import DistSys.Consensus.Broadcast

/-! Indices. The sections read `log`, `nextIndex` and `matchIndex` at positions that other
sections have written. Where a message may not shorten the log below such a position, and no
late success may name one behind its end, none of them is ever out of range. -/
namespace DistSys.Consensus

open Function (update)
open DistSys.Lib

variable {n : Nat} {Command : Type} {c c' : Cluster n Command} {a : Action n Command}

/-! ### When a section does not panic -/

theorem sendCommands_done {log : List (Logs Command)} {i count : Nat}
    (inside : i + count ≤ log.length) : (sendCommands log i count).2 = true := by
  induction count generalizing i with
  | zero => rfl
  | succ count ih =>
    have there : log[i]? = some log[i] := List.getElem?_eq_getElem (by omega)
    simp only [sendCommands, there]
    exact ih (by omega)

theorem applyCommit_inside {rf : Raft n Command} (inside : rf.commitIndex < rf.log.length) :
    (applyCommit rf).2 ≠ none := by
  have done : (sendCommands rf.log (rf.lastApplied + 1) (rf.commitIndex - rf.lastApplied)).2 =
      true := by
    rcases Nat.lt_or_ge rf.lastApplied rf.commitIndex with more | none
    · exact sendCommands_done (by omega)
    · simp [Nat.sub_eq_zero_of_le none, sendCommands]
  simp [applyCommit, done]

theorem requestVote_inside {rf : Raft n Command} (inside : 0 < rf.log.length)
    (args : RequestVoteArgs n) : requestVote rf args ≠ none := by
  have last : rf.log.getLast? = some (rf.log.getLast (List.ne_nil_of_length_pos inside)) :=
    List.getLast?_eq_some_getLast _
  simp only [requestVote, last]
  split
  · simp
  · split <;> simp

theorem buildAppendEntries_inside {rf : Raft n Command} {me i : Fin n} {next : Nat}
    (found : rf.nextIndex[i.val]? = some next) (positive : 0 < next)
    (inside : next ≤ rf.log.length) : buildAppendEntries me rf i ≠ none := by
  have there : rf.log[next - 1]? = some rf.log[next - 1] := List.getElem?_eq_getElem (by omega)
  have nonempty : 0 < rf.log.length := by omega
  simp [buildAppendEntries, found, there, positive, nonempty]

/-- `nextIndex` and `matchIndex` have been made. -/
structure Served (rf : Raft n Command) : Prop where
  next : rf.nextIndex.length = n
  matched : rf.matchIndex.length = n

theorem recordReply_served {rf : Raft n Command} (h : Served rf) (server : Fin n)
    (args : AppendEntriesArgs n Command) (reply : AppendEntriesReply) (isHeartbeat : Bool) :
    recordReply rf server args reply isHeartbeat ≠ none := by
  have first : server.val < rf.nextIndex.length := h.next.symm ▸ server.isLt
  have second : server.val < rf.matchIndex.length := h.matched.symm ▸ server.isLt
  have there : rf.nextIndex[server.val]? = some rf.nextIndex[server.val] :=
    List.getElem?_eq_getElem first
  unfold recordReply
  split
  · simp [first, second]
  · simp only [there]
    split <;> simp

theorem mapM_ne_none {α β : Type} {f : α → Option β} {xs : List α} (all : ∀ x ∈ xs, f x ≠ none) :
    xs.mapM f ≠ none := by
  induction xs with
  | nil => simp
  | cons x xs ih =>
    obtain ⟨y, at_x⟩ := Option.ne_none_iff_exists'.mp (all x List.mem_cons_self)
    obtain ⟨ys, rest⟩ :=
      Option.ne_none_iff_exists'.mp (ih fun z member => all z (List.mem_cons_of_mem x member))
    simp [at_x, rest]

theorem countReplicas_served {rf : Raft n Command} (h : Served rf) (me : Fin n) (entryIdx : Nat) :
    countReplicas me rf entryIdx ≠ none := by
  have read : ((List.finRange n).filter (· ≠ me)).mapM (fun p => rf.matchIndex[p.val]?) ≠ none := by
    apply mapM_ne_none
    intro p _
    simp [h.matched]
  simpa [countReplicas] using read

theorem findCommit_served {rf : Raft n Command} (h : Served rf) (me : Fin n) {indices : List Nat}
    (inside : ∀ i ∈ indices, i < rf.log.length) : findCommit me rf indices ≠ none := by
  induction indices with
  | nil => simp [findCommit]
  | cons i rest ih =>
    have later := ih fun j member => inside j (List.mem_cons_of_mem i member)
    have there : rf.log[i]? = some (rf.log.get ⟨i, inside i List.mem_cons_self⟩) :=
      List.getElem?_eq_getElem _
    obtain ⟨vote, counted⟩ := Option.ne_none_iff_exists'.mp (countReplicas_served h me i)
    simp only [findCommit, there, counted]
    split
    · exact later
    · split
      · simp
      · exact later

theorem Served.record {rf rf' : Raft n Command} (h : Served rf) {server : Fin n}
    {args : AppendEntriesArgs n Command} {reply : AppendEntriesReply} {isHeartbeat : Bool}
    (done : recordReply rf server args reply isHeartbeat = some rf') : Served rf' := by
  unfold recordReply at done
  split at done
  · split at done
    · cases Option.some.inj done
      exact ⟨by simpa using h.next, by simpa using h.matched⟩
    · contradiction
  · split at done
    · contradiction
    · split at done <;> cases Option.some.inj done
      · exact ⟨by simpa using h.next, h.matched⟩
      · exact h

theorem Served.process {rf rf' : Raft n Command} (h : Served rf) {me server : Fin n}
    {args : AppendEntriesArgs n Command} {reply : AppendEntriesReply} {isHeartbeat applied : Bool}
    (done : processAppendEntriesReply me rf server args reply isHeartbeat = some (rf', applied)) :
    Served rf' := by
  obtain ⟨recorded, eq, rfl | ⟨entryIdx, rfl, _⟩⟩ := processAppendEntriesReply_cases done
  · exact h.record eq
  · exact ⟨(h.record eq).next, (h.record eq).matched⟩

theorem processAppendEntriesReply_served {rf : Raft n Command} (h : Served rf) (me server : Fin n)
    (args : AppendEntriesArgs n Command) (reply : AppendEntriesReply) (isHeartbeat : Bool) :
    processAppendEntriesReply me rf server args reply isHeartbeat ≠ none := by
  obtain ⟨recorded, done⟩ :=
    Option.ne_none_iff_exists'.mp (recordReply_served h server args reply isHeartbeat)
  obtain ⟨found, searched⟩ := Option.ne_none_iff_exists'.mp
    (findCommit_served (h.record done) me fun i member => (mem_uncommitted.mp member).2)
  simp only [processAppendEntriesReply, done, searched]
  cases found <;> simp

/-! ### What a step does to the tables -/

theorem step_served (step : Step c a c') {q : Fin n} (h : Served (c.raft q)) :
    Served (c'.raft q) := by
  have change := step_peer step q
  generalize c'.raft q = rf at change ⊢
  cases change with
  | adopted | followed | stored => exact ⟨by simpa using h.next, by simpa using h.matched⟩
  | crowned => exact ⟨by simp [becomeLeader], by simp [becomeLeader]⟩
  | answered k call reply rf applied act found replied sender processed => exact h.process processed
  | _ => exact ⟨h.next, h.matched⟩

theorem recordReply_nextIndex {rf rf' : Raft n Command} {server : Fin n}
    {args : AppendEntriesArgs n Command} {reply : AppendEntriesReply} {isHeartbeat : Bool}
    (done : recordReply rf server args reply isHeartbeat = some rf') {i : Nat}
    (member : i ∈ rf'.nextIndex) :
    (∃ j ∈ rf.nextIndex, i ≤ j) ∨
      (reply.success = true ∧ i = args.prevLogIndex + args.entries.length + 1) := by
  unfold recordReply at done
  split at done
  · rename_i success
    split at done
    · cases Option.some.inj done
      rcases List.mem_or_eq_of_mem_set member with old | rfl
      · exact .inl ⟨i, old, Nat.le_refl i⟩
      · exact .inr ⟨success, rfl⟩
    · contradiction
  · split at done
    · contradiction
    · rename_i next found
      split at done <;> cases Option.some.inj done
      · rcases List.mem_or_eq_of_mem_set member with old | rfl
        · exact .inl ⟨i, old, Nat.le_refl i⟩
        · exact .inl ⟨next, List.mem_of_getElem? found, Nat.sub_le next 1⟩
      · exact .inl ⟨i, member, Nat.le_refl i⟩

/-- Where a next index after a step comes from. -/
theorem step_nextIndex (step : Step c a c') {q : Fin n} {i : Nat}
    (member : i ∈ (c'.raft q).nextIndex) :
    (∃ j ∈ (c.raft q).nextIndex, i ≤ j) ∨ i = (c'.raft q).log.length ∨
    ∃ k call reply, a = .appendReply k ∧ c.appends[k]? = some call ∧ call.rpc = .replied reply ∧
      call.args.leaderId = q ∧ reply.success = true ∧
      i = call.args.prevLogIndex + call.args.entries.length + 1 := by
  have change := step_peer step q
  generalize c'.raft q = rf at member change ⊢
  cases change with
  | adopted | followed | stored => exact .inl ⟨i, by simpa using member, Nat.le_refl i⟩
  | crowned => exact .inr (.inl (List.eq_of_mem_replicate member))
  | answered k call reply rf applied act found replied sender processed =>
    obtain ⟨recorded, done, eq⟩ := processAppendEntriesReply_cases processed
    have there : i ∈ recorded.nextIndex := by
      rcases eq with rfl | ⟨entryIdx, rfl, _⟩ <;> exact member
    rcases recordReply_nextIndex done there with old | ⟨success, eq⟩
    · exact .inl old
    · exact .inr (.inr ⟨k, call, reply, act, found, replied, sender, success, eq⟩)
  | _ => exact .inl ⟨i, member, Nat.le_refl i⟩

/-! ### The invariant -/

/-- `mainRoutine` is in `startAppendEntries`. -/
def serving (c : Cluster n Command) (p : Fin n) : Bool :=
  match c.main p with
  | .checkLeader | .broadcast _ => true
  | _ => false

structure Indexed (c : Cluster n Command) : Prop where
  commit : ∀ p, (c.raft p).commitIndex < (c.raft p).log.length
  next : ∀ p, (c.raft p).electionState = .leader ∨ inRound c p = true →
    ∀ i ∈ (c.raft p).nextIndex, i ≤ (c.raft p).log.length
  served : ∀ p, serving c p = true → Served (c.raft p)
  calls : ∀ call ∈ c.appends, Served (c.raft call.args.leaderId)

theorem step_serving (step : Step c a c') (h : ∀ p, serving c p = true → Served (c.raft p))
    (q : Fin n) (within : serving c' q = true) : Served (c'.raft q) := by
  have moved : ∀ {p : Fin n} {pc : MainPc}, c'.main = update c.main p pc →
      (q = p → serving c p = true ∨ Served (c'.raft p) ∨
        (pc ≠ .checkLeader ∧ ∀ i, pc ≠ .broadcast i)) → Served (c'.raft q) := by
    intro p pc main here
    by_cases same : q = p
    · subst same
      rcases here rfl with before | now | ⟨out, out'⟩
      · exact step_served step (h q before)
      · exact now
      · cases pc <;> simp [serving, main] at within out out'
    · have before : serving c q = true := by
        simpa only [serving, main, Function.update_of_ne same] using within
      exact step_served step (h q before)
  have still : c'.main = c.main → Served (c'.raft q) := by
    intro main
    exact step_served step (h q (by simpa only [serving, main] using within))
  cases step with
  | handOff | receiveHb | loseElection | ignoreHb | stopAppend =>
    exact moved rfl fun _ => .inr (.inr ⟨by simp, by simp⟩)
  | becomeLeader p won received =>
    exact moved rfl fun _ => .inr (.inl ⟨by simp [becomeLeader], by simp [becomeLeader]⟩)
  | startRound p at_check leader => exact moved rfl fun _ => .inl (by simp [serving, at_check])
  | skipSelf p at_self => exact moved rfl fun _ => .inl (by simp [serving, at_self])
  | send p i args isHeartbeat at_peer other built =>
    exact moved rfl fun _ => .inl (by simp [serving, at_peer])
  | endRound p i at_end behind => exact moved rfl fun _ => .inl (by simp [serving, at_end])
  | _ => exact still rfl

theorem build_sender {rf : Raft n Command} {me i : Fin n} {args : AppendEntriesArgs n Command}
    {isHeartbeat : Bool} (built : buildAppendEntries me rf i = some (args, isHeartbeat)) :
    args.leaderId = me := by
  unfold buildAppendEntries at built
  split at built
  · contradiction
  · simp only [Option.map_eq_some_iff, Prod.mk.injEq] at built
    obtain ⟨_, _, rfl, _⟩ := built
    rfl

theorem stored_indices {k : Nat} {call : AppendCall n Command} (found : c.appends[k]? = some call)
    (ok : indicesKept c (.appendEntries k) = true)
    (le : (c.raft call.server).currentTerm ≤ call.args.term)
    (matches_prev : prevMatches (c.raft call.server).log call.args = true) :
    ((c.raft call.server).commitIndex < call.args.leaderCommit ∨
      (c.raft call.server).commitIndex < call.args.prevLogIndex + 1 + call.args.entries.length) ∧
    (((c.raft call.server).electionState = .leader ∧
        call.args.term ≤ (c.raft call.server).currentTerm) ∨ inRound c call.server = true →
      ∀ next ∈ (c.raft call.server).nextIndex,
        next ≤ call.args.prevLogIndex + 1 + call.args.entries.length) := by
  obtain ⟨server, args, isHeartbeat, rpc⟩ := call
  simp only [indicesKept, found, decide_eq_true_eq] at ok
  exact ok le matches_prev

theorem answered_index {k : Nat} {call : AppendCall n Command} {reply : AppendEntriesReply}
    (found : c.appends[k]? = some call) (replied : call.rpc = .replied reply)
    (ok : indicesKept c (.appendReply k) = true) (success : reply.success = true)
    (leads : (c.raft call.args.leaderId).electionState = .leader ∨
      inRound c call.args.leaderId = true) :
    call.args.prevLogIndex + call.args.entries.length < (c.raft call.args.leaderId).log.length := by
  obtain ⟨server, args, isHeartbeat, rpc⟩ := call
  dsimp only at replied
  subst replied
  simp only [indicesKept, found, decide_eq_true_eq] at ok
  exact ok success leads

section

variable (step : Step c a c') (h : Indexed c) (ok : indicesKept c a = true)
include step h ok

theorem step_commit_inside (p : Fin n) : (c'.raft p).commitIndex < (c'.raft p).log.length := by
  have old := h.commit p
  cases step_replica step p with
  | kept log commit matched idle => rwa [log, commit]
  | crowned act eq => rwa [eq]
  | appended command act leader eq =>
    rw [eq, List.length_append]
    exact Nat.lt_add_right _ old
  | stored k call act found server le matches_prev eq =>
    subst act server
    have inside := (stored_indices found ok le matches_prev).1
    have size := storeEntries_length matches_prev
    rw [eq]
    dsimp only
    split <;> omega
  | answered k call reply applied act found replied sender processed =>
    obtain ⟨recorded, done, eq | ⟨entryIdx, eq, committed⟩⟩ :=
      processAppendEntriesReply_cases processed
    · rw [eq, recordReply_eq done]
      exact old
    · rw [eq]
      exact (mem_uncommitted.mp (findCommit_spec committed).1).2

omit h ok in
/-- A peer that leads or sends after a step did so before, or has just been made leader. -/
theorem step_leads {p : Fin n}
    (leads : (c'.raft p).electionState = .leader ∨ inRound c' p = true) :
    ((c.raft p).electionState = .leader ∨ inRound c p = true) ∨
      c'.raft p = becomeLeader (c.raft p) := by
  rcases leads with leader | within
  · obtain ⟨_, before | ⟨_, _, _, now⟩⟩ := step_leader step leader
    · exact .inl (.inl before)
    · exact .inr now
  · rcases step_inRound step within with before | ⟨leader, _⟩
    · exact .inl (.inr before)
    · exact .inl (.inl leader)

theorem step_next_inside (p : Fin n)
    (leads : (c'.raft p).electionState = .leader ∨ inRound c' p = true) (i : Nat)
    (member : i ∈ (c'.raft p).nextIndex) : i ≤ (c'.raft p).log.length := by
  rcases step_leads step leads with before | crowned
  · -- where the log does not get shorter, a next index stays inside or is checked
    have grown : (c.raft p).log.length ≤ (c'.raft p).log.length →
        i ≤ (c'.raft p).log.length := by
      intro longer
      rcases step_nextIndex step member with ⟨j, old, le⟩ | eq | ⟨k, call, reply, rfl, found,
        replied, rfl, success, eq⟩
      · have inside := h.next p before j old
        omega
      · omega
      · have inside := answered_index found replied ok success before
        omega
    cases step_replica step p with
    | kept log commit matched idle => exact grown (by rw [log])
    | crowned act eq => exact grown (by rw [eq]; exact Nat.le_refl _)
    | appended command act leader eq => exact grown (by rw [eq]; simp)
    | answered k call reply applied act found replied sender processed =>
      exact grown (by rw [processAppendEntriesReply_eq processed])
    | stored k call act found server le matches_prev eq =>
      subst act server
      have size := storeEntries_length matches_prev
      have still : ((c.raft call.server).electionState = .leader ∧
          call.args.term ≤ (c.raft call.server).currentTerm) ∨ inRound c call.server = true ∨
          c'.raft = c.raft := by
        rcases leads with leader | within
        · rw [eq] at leader
          obtain ⟨was, same⟩ := follow_leader leader
          rw [follow_term] at same
          exact .inl ⟨was, by omega⟩
        · exact .inr ((step_inRound step within).imp id And.right)
      have checked : ((c.raft call.server).electionState = .leader ∧
          call.args.term ≤ (c.raft call.server).currentTerm) ∨ inRound c call.server = true →
          i ≤ (c'.raft call.server).log.length := by
        intro leads
        have bound := (stored_indices found ok le matches_prev).2 leads
        rcases step_nextIndex step member with ⟨j, old, le⟩ | same | ⟨_, _, _, act, _⟩
        · have inside := bound j old
          rw [eq]
          dsimp only
          omega
        · exact Nat.le_of_eq same
        · cases act
      rcases still with leader | within | same
      · exact checked (.inl leader)
      · exact checked (.inr within)
      · exact grown (by rw [same])
  · rw [crowned] at member ⊢
    exact Nat.le_of_eq (List.eq_of_mem_replicate member)

theorem step_indexed : Indexed c' := by
  refine ⟨step_commit_inside step h ok, step_next_inside step h ok,
    step_serving step h.served, ?_⟩
  intro call member
  rcases step_calls step member with ⟨old, before, like⟩ | ⟨p, i, at_peer, other, _, built⟩
  · rw [like.args]
    exact step_served step (h.calls old before)
  · rw [build_sender built]
    exact step_served step (h.served p (by simp [serving, at_peer]))

end

theorem indexed_new [Inhabited Command] : Indexed (newCluster n Command) :=
  ⟨fun _ => Nat.one_pos, fun _ _ => nofun, nofun, nofun⟩

theorem Indexed.next_at [Inhabited Command] (h : Indexed c) (rooted : ∀ p, Rooted (c.raft p))
    {p i : Fin n} (at_peer : c.main p = .broadcast i) (other : i ≠ p) :
    ∃ next, (c.raft p).nextIndex[i.val]? = some next ∧ 0 < next ∧
      next ≤ (c.raft p).log.length := by
  have within := (inRound_broadcast at_peer).mpr ⟨i, Nat.le_refl _, other⟩
  have served := h.served p (by simp [serving, at_peer])
  have inside : i.val < (c.raft p).nextIndex.length := served.next.symm ▸ i.isLt
  have member := List.getElem_mem inside
  exact ⟨_, List.getElem?_eq_getElem inside, (rooted p).next _ member,
    h.next p (.inr within) _ member⟩

/-- In such a state no section panics. -/
theorem Indexed.no_crash [Inhabited Command] (h : Indexed c) (rooted : ∀ p, Rooted (c.raft p))
    (step : Step c a c') (alive : c.crashed = false) : c'.crashed = false := by
  cases step with
  | crash a panics =>
    exfalso
    cases a with
    | requestVote e v =>
      obtain ⟨el, _, _, none⟩ := panics
      exact requestVote_inside (rooted v).length_pos el.args none
    | broadcast p =>
      obtain ⟨i, at_peer, other, none⟩ := panics
      obtain ⟨next, found, positive, inside⟩ := h.next_at rooted at_peer other
      exact buildAppendEntries_inside found positive inside none
    | appendReply k =>
      obtain ⟨call, reply, found, _, none⟩ := panics
      exact processAppendEntriesReply_served (h.calls call (List.mem_of_getElem? found)) _ _ _ _ _
        none
    | _ => exact panics
  | applyCrash p spawned panics => exact absurd panics (applyCommit_inside (h.commit p))
  | _ => exact alive

/-- No index is out of range when it is used, so no process stops: the log starts with the
zero entry, what is to be applied is there, the next index of whoever a message is built for
lies between 1 and the end of the log, and whoever has sent a message has both tables. -/
theorem indices_in_range [Inhabited Command] (acts : List (Action n Command))
    (met : Along step indicesKept (newCluster n Command) acts) (c : Cluster n Command)
    (reached : run step (newCluster n Command) acts = some c) :
    c.crashed = false ∧ ∀ p,
      (c.raft p).log.head? = some ⟨0, default⟩ ∧
      (∀ i, (c.raft p).lastApplied < i → i ≤ (c.raft p).commitIndex →
        i < (c.raft p).log.length) ∧
      (∀ i : Fin n, c.main p = .broadcast i → i ≠ p → ∃ next,
        (c.raft p).nextIndex[i.val]? = some next ∧ 0 < next ∧ next ≤ (c.raft p).log.length) ∧
      (∀ call ∈ c.appends, call.args.leaderId = p →
        (c.raft p).nextIndex.length = n ∧ (c.raft p).matchIndex.length = n) := by
  have inv : (c.crashed = false ∧ Indexed c) ∧ ∀ p, Rooted (c.raft p) := by
    refine run_invariant (fun c => (c.crashed = false ∧ Indexed c) ∧ ∀ p, Rooted (c.raft p)) ?_
      ⟨⟨rfl, indexed_new⟩, rooted_new⟩ acts met reached
    rintro s a t ⟨⟨alive, indexed⟩, rooted⟩ ok taken
    have step := (step_cases taken).2
    exact ⟨⟨indexed.no_crash rooted step alive, step_indexed step indexed ok⟩,
      step_rooted step rooted⟩
  obtain ⟨⟨alive, indexed⟩, rooted⟩ := inv
  refine ⟨alive, fun p => ⟨?_, ?_, ?_, ?_⟩⟩
  · have root := (rooted p).root
    cases eq : (c.raft p).log with
    | nil => simp [eq] at root
    | cons e rest => simpa [eq] using root
  · intro i _ committed
    exact Nat.lt_of_le_of_lt committed (indexed.commit p)
  · intro i at_peer other
    exact indexed.next_at rooted at_peer other
  · rintro call member rfl
    exact ⟨(indexed.calls call member).next, (indexed.calls call member).matched⟩

theorem applied_in_range : ∃ c : Cluster 3 Nat,
    run step (newCluster 3 Nat) applyRun = some c ∧ (c.raft 0).lastApplied = 2 ∧
    c.crashed = false :=
  ⟨_, rfl, by decide, (indices_in_range applyRun (by decide) _ rfl).1⟩

/-- Peer 1 has been told to apply entry 1, when a heartbeat that was sent before it cuts it
off. -/
theorem applies_behind_log : ∃ s t : Cluster 3 Nat,
    run step (newCluster 3 Nat) (elect 0 1 0 ++ round 0 ++ [.putCommand 0 7] ++ round 0 ++
      [.encode 2, .appendEntries 2, .appendReply 2] ++ round 0 ++
      [.encode 4, .appendEntries 4, .encode 0, .appendEntries 0]) = some s ∧
    step s (.applyCommit 1) = some t ∧ (s.raft 1).lastApplied = 0 ∧ (s.raft 1).commitIndex = 1 ∧
    (s.raft 1).log.length = 1 ∧ t.crashed = true :=
  ⟨_, _, rfl, rfl, by decide, by decide, by decide, by decide⟩

end DistSys.Consensus
