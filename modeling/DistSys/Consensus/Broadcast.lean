import DistSys.Consensus.Steps
import DistSys.Consensus.Conditions

/-! The broadcast loop. It checks for leadership once a round and builds each message under
a lock of its own; between two of them the peer may have stepped down. -/
namespace DistSys.Consensus

open Function (update)
open DistSys.Lib

variable {n : Nat} {Command : Type} {c c' : Cluster n Command} {a : Action n Command}

/-! ### The log starts with the zero entry and no next index is zero -/

structure Rooted [Inhabited Command] (rf : Raft n Command) : Prop where
  root : rf.log.take 1 = [⟨0, default⟩]
  next : ∀ i ∈ rf.nextIndex, 0 < i

section

variable [Inhabited Command] {rf rf' : Raft n Command}

theorem Rooted.length_pos (h : Rooted rf) : 0 < rf.log.length := by
  cases eq : rf.log with
  | nil =>
    have root := h.root
    rw [eq] at root
    cases root
  | cons e rest => exact Nat.succ_pos _

theorem Rooted.of_eq (h : Rooted rf) (log : rf'.log = rf.log)
    (next : rf'.nextIndex = rf.nextIndex) : Rooted rf' :=
  ⟨by rw [log]; exact h.root, by rw [next]; exact h.next⟩

theorem Rooted.store (h : Rooted rf) (args : AppendEntriesArgs n Command) :
    (storeEntries rf.log args).take 1 = [⟨0, default⟩] := by
  unfold storeEntries
  have positive := h.length_pos
  dsimp only
  rw [List.take_append_of_le_length (by rw [List.length_take]; omega), List.take_take,
    Nat.min_eq_left (by omega), h.root]

theorem Rooted.record (h : Rooted rf) {server : Fin n} {args : AppendEntriesArgs n Command}
    {reply : AppendEntriesReply} {isHeartbeat : Bool}
    (done : recordReply rf server args reply isHeartbeat = some rf') : Rooted rf' := by
  unfold recordReply at done
  split at done
  · split at done
    · cases Option.some.inj done
      refine ⟨h.root, ?_⟩
      intro i member
      rcases List.mem_or_eq_of_mem_set member with old | rfl
      · exact h.next i old
      · exact Nat.succ_pos _
    · contradiction
  · split at done
    · contradiction
    · split at done
      · rename_i more
        cases Option.some.inj done
        refine ⟨h.root, ?_⟩
        intro i member
        rcases List.mem_or_eq_of_mem_set member with old | rfl
        · exact h.next i old
        · omega
      · cases Option.some.inj done
        exact h

theorem Rooted.process (h : Rooted rf) {me server : Fin n} {args : AppendEntriesArgs n Command}
    {reply : AppendEntriesReply} {isHeartbeat applied : Bool}
    (done : processAppendEntriesReply me rf server args reply isHeartbeat = some (rf', applied)) :
    Rooted rf' := by
  obtain ⟨recorded, eq, rfl | ⟨entryIdx, rfl, _⟩⟩ := processAppendEntriesReply_cases done
  · exact h.record eq
  · exact ⟨(h.record eq).root, (h.record eq).next⟩

theorem step_rooted (step : Step c a c') (h : ∀ p, Rooted (c.raft p)) :
    ∀ p, Rooted (c'.raft p) := by
  intro p
  have old := h p
  have change := step_peer step p
  generalize c'.raft p = rf at change ⊢
  cases change with
  | adopted => exact old.of_eq (adopt_log _ _) (adopt_nextIndex _ _)
  | crowned =>
    refine ⟨old.root, ?_⟩
    intro i member
    rw [List.eq_of_mem_replicate member]
    exact old.length_pos
  | followed => exact old.of_eq (follow_log _ _) (follow_nextIndex _ _)
  | stored k call act found server le matches_prev =>
    exact ⟨old.store call.args, by simpa using old.next⟩
  | answered k call reply rf applied act found replied sender processed => exact old.process processed
  | appended command act leader =>
    refine ⟨?_, old.next⟩
    rw [List.take_append_of_le_length (Nat.succ_le_of_lt old.length_pos), old.root]
  | _ => exact old.of_eq rfl rfl

theorem rooted_new (p : Fin n) : Rooted ((newCluster n Command).raft p) :=
  ⟨rfl, fun i none => by cases none⟩

theorem rooted {acts : List (Action n Command)}
    (reached : run step (newCluster n Command) acts = some c) (p : Fin n) : Rooted (c.raft p) := by
  exact run_keeps (fun c => ∀ p, Rooted (c.raft p))
    (fun _ _ _ h taken => step_rooted (step_cases taken).2 h) rooted_new acts reached p

/-- What a message says about the log of its sender at the moment it is built. -/
theorem build_spec (h : Rooted rf) {me i : Fin n} {args : AppendEntriesArgs n Command}
    {isHeartbeat : Bool} (built : buildAppendEntries me rf i = some (args, isHeartbeat)) :
    args.term = rf.currentTerm ∧ args.leaderId = me ∧ args.leaderCommit = rf.commitIndex ∧
    (∃ e, rf.log[args.prevLogIndex]? = some e ∧ e.term = args.prevLogTerm) ∧
    args.entries = rf.log.drop (args.prevLogIndex + 1) := by
  unfold buildAppendEntries at built
  split at built
  · contradiction
  · rename_i next found
    have positive := h.next next (List.mem_of_getElem? found)
    simp only [h.length_pos, positive, and_self, if_true, Option.map_map,
      Option.map_eq_some_iff, Function.comp_apply, Prod.mk.injEq] at built
    obtain ⟨e, at_prev, rfl, _⟩ := built
    refine ⟨rfl, rfl, rfl, ⟨e, at_prev, rfl⟩, ?_⟩
    dsimp only
    rw [Nat.sub_add_cancel positive]
    split
    · rfl
    · rename_i behind
      exact (List.drop_eq_nil_of_le (Nat.le_of_not_lt behind)).symm

end

/-! ### Who is in a round is leader -/

theorem inRound_of_main {q : Fin n} (same : c'.main q = c.main q) : inRound c' q = inRound c q := by
  unfold inRound
  rw [same]

theorem inRound_broadcast {q : Fin n} {i : Nat} (at_i : c.main q = .broadcast i) :
    inRound c q = true ↔ ∃ j : Fin n, i ≤ j.val ∧ j ≠ q := by
  simp [inRound, at_i]

/-- `main` and the state after a step, for a peer that is in a round after it: it was in
the round before, or has just passed the leadership check. -/
theorem step_inRound (step : Step c a c') {q : Fin n} (within : inRound c' q = true) :
    inRound c q = true ∨ ((c.raft q).electionState = .leader ∧ c'.raft = c.raft) := by
  have moved : ∀ {p : Fin n} {pc : MainPc}, c'.main = update c.main p pc →
      (q = p → inRound c p = true ∨ ((c.raft p).electionState = .leader ∧ c'.raft = c.raft)) →
      inRound c q = true ∨ ((c.raft q).electionState = .leader ∧ c'.raft = c.raft) := by
    intro p pc main here
    by_cases same : q = p
    · subst same
      exact here rfl
    · have eq : inRound c' q = inRound c q :=
        inRound_of_main (by rw [main, Function.update_of_ne same])
      exact .inl (eq.symm.trans within)
  have out : ∀ {p : Fin n} {pc : MainPc}, c'.main = update c.main p pc →
      (∀ i, pc ≠ .broadcast i) →
      inRound c q = true ∨ ((c.raft q).electionState = .leader ∧ c'.raft = c.raft) := by
    intro p pc main other
    refine moved main ?_
    intro same
    subst same
    unfold inRound at within
    rw [main, Function.update_self] at within
    split at within
    · rename_i i
      exact (other i rfl).elim
    · cases within
  cases step with
  | handOff | receiveHb | loseElection | ignoreHb | becomeLeader | stopAppend | endRound =>
    exact out rfl (by intro i eq; cases eq)
  | startRound p at_check leader =>
    exact moved rfl (fun _ => .inr ⟨leader, rfl⟩)
  | skipSelf p at_self =>
    refine moved rfl ?_
    rintro rfl
    obtain ⟨j, after, other⟩ := (inRound_broadcast (i := q + 1) (by simp)).mp within
    exact .inl ((inRound_broadcast at_self).mpr ⟨j, by omega, other⟩)
  | send p i args isHeartbeat at_peer other built =>
    refine moved rfl ?_
    rintro rfl
    exact .inl ((inRound_broadcast at_peer).mpr ⟨i, Nat.le_refl _, other⟩)
  | _ => exact .inl within

theorem adopt_same {rf : Raft n Command} {term : Nat} (le : ¬ rf.currentTerm < term) :
    rf.adopt term = rf := by
  rw [Raft.adopt, if_neg le]

theorem follow_same {rf : Raft n Command} {term : Nat} (le : ¬ rf.currentTerm < term) :
    rf.follow term = rf := by
  rw [Raft.follow, if_neg le]

theorem step_state_in_round (step : Step c a c') (ok : roundUndisturbed c a = true) {q : Fin n}
    (within : inRound c q = true) (leader : (c.raft q).electionState = .leader) :
    (c'.raft q).electionState = .leader := by
  have change := step_peer step q
  generalize c'.raft q = rf at change ⊢
  cases change with
  | stands act =>
    subst act
    simp [roundUndisturbed, within] at ok
  | adopted e el votedFor act found =>
    subst act
    have stays : ¬ (c.raft q).currentTerm < el.args.term := by
      simpa [roundUndisturbed, found, within] using ok
    rw [adopt_same stays]
    exact leader
  | steppedDown e el term act found pc owner =>
    subst act owner
    simp [roundUndisturbed, found, within] at ok
  | lost candidate =>
    rw [leader] at candidate
    cases candidate
  | crowned => rfl
  | followed k call act found server | stored k call act found server le matches_prev =>
    subst act server
    have stays : ¬ (c.raft call.server).currentTerm < call.args.term := by
      simpa [roundUndisturbed, found, within] using ok
    rw [follow_same stays]
    exact leader
  | answered k call reply rf applied act found replied sender processed =>
    rw [processAppendEntriesReply_eq processed]
    exact leader
  | kept | appended | applied => exact leader

def RoundLed (c : Cluster n Command) : Prop :=
  ∀ p, inRound c p = true → (c.raft p).electionState = .leader

theorem step_roundLed (step : Step c a c') (h : RoundLed c) (ok : roundUndisturbed c a = true) :
    RoundLed c' := by
  intro q within
  rcases step_inRound step within with before | ⟨leader, same⟩
  · exact step_state_in_round step ok before (h q before)
  · rwa [same]

theorem roundLed [Inhabited Command] {acts : List (Action n Command)}
    (met : Along step roundUndisturbed (newCluster n Command) acts)
    (reached : run step (newCluster n Command) acts = some c) : RoundLed c := by
  refine run_invariant RoundLed ?_ ?_ acts met reached
  · exact fun _ _ _ h ok taken => step_roundLed (step_cases taken).2 h ok
  · intro p within
    cases within

theorem step_new_call (step : Step c a c') {k : Nat} {call : AppendCall n Command}
    (new : c.appends[k]? = none) (there : c'.appends[k]? = some call) :
    ∃ p i, a = .broadcast p ∧ c.main p = .broadcast i.val ∧ i ≠ p ∧ call.server = i ∧
      buildAppendEntries p (c.raft p) i = some (call.args, call.isHeartbeat) := by
  have outside := List.getElem?_eq_none_iff.mp new
  have inside := (List.getElem?_eq_some_iff.mp there).1
  cases step with
  | send p i args isHeartbeat at_peer other built =>
    rw [List.getElem?_append_right outside] at there
    have here : (⟨i, args, isHeartbeat, .idle⟩ : AppendCall n Command) = call := by
      have eq : k - c.appends.length = 0 := by
        have := (List.getElem?_eq_some_iff.mp there).1
        rw [List.length_singleton] at this
        omega
      rw [eq] at there
      simpa using there
    subst here
    exact ⟨p, i, rfl, at_peer, other, rfl, built⟩
  | encode | appendEntries | appendReply | putCommand =>
    simp only [List.length_map, List.length_set] at inside
    omega
  | _ =>
    dsimp only [Cluster.crash] at inside
    omega

/-- Whatever message a run puts in flight, its sender was leader of the message's term at
that moment, and the message was read off its log. -/
theorem only_leader_speaks [Inhabited Command] (acts : List (Action n Command))
    (met : Along step roundUndisturbed (newCluster n Command) acts) (i : Nat)
    (a : Action n Command) (s t : Cluster n Command)
    (at_i : run step (newCluster n Command) (acts.take i) = some s) (next : acts[i]? = some a)
    (taken : step s a = some t) (k : Nat) (call : AppendCall n Command)
    (new : s.appends[k]? = none) (there : t.appends[k]? = some call) :
    a = .broadcast call.args.leaderId ∧
      (s.raft call.args.leaderId).electionState = .leader ∧
      (s.raft call.args.leaderId).currentTerm = call.args.term ∧
      (∃ e, (s.raft call.args.leaderId).log[call.args.prevLogIndex]? = some e ∧
        e.term = call.args.prevLogTerm) ∧
      call.args.entries = (s.raft call.args.leaderId).log.drop (call.args.prevLogIndex + 1) := by
  obtain ⟨p, j, rfl, at_peer, other, _, built⟩ := step_new_call (step_cases taken).2 new there
  have led := roundLed (along_take met i at_i).1 at_i
  obtain ⟨term, sender, _, prev, entries⟩ := build_spec (rooted at_i p) built
  have within : inRound s p = true := (inRound_broadcast at_peer).mpr ⟨j, Nat.le_refl _, other⟩
  rw [sender]
  exact ⟨rfl, led p within, term.symm, prev, entries⟩

theorem leader_sends_first_entry : ∃ s t : Cluster 3 Nat, ∃ call : AppendCall 3 Nat,
    run step (newCluster 3 Nat) (firstEntryRun.take 9) = some s ∧
    step s (.broadcast 0) = some t ∧ t.appends[0]? = some call ∧ call.args.entries = [⟨1, 7⟩] ∧
    (s.raft call.args.leaderId).electionState = .leader ∧
    (s.raft call.args.leaderId).currentTerm = call.args.term := by
  refine ⟨_, _, ⟨1, ⟨1, 0, 0, 0, [⟨1, 7⟩], 0⟩, false, .idle⟩, rfl, rfl, rfl, rfl, ?_⟩
  have spoken := only_leader_speaks firstEntryRun (by decide) 9 (.broadcast 0) _ _ rfl rfl rfl 0
    ⟨1, ⟨1, 0, 0, 0, [⟨1, 7⟩], 0⟩, false, .idle⟩ rfl rfl
  exact ⟨spoken.2.1, spoken.2.2.1⟩

/-- Peer 0 leads term 1. Between its leadership check and its first message it adopts term
2 from a request of peer 1, and then speaks for term 2 as a follower. -/
theorem follower_speaks_for_term : ∃ s t : Cluster 3 Nat, ∃ call : AppendCall 3 Nat,
    run step (newCluster 3 Nat) [.electionTimeout 0, .startElect 0, .requestVote 0 1,
      .voteReply 0 1, .handOff 0, .becomeLeader 0, .checkLeader 0, .broadcast 0,
      .electionTimeout 1, .startElect 1, .requestVote 1 0] = some s ∧
    step s (.broadcast 0) = some t ∧ s.appends[0]? = none ∧ t.appends[0]? = some call ∧
    call.args.leaderId = 0 ∧ call.args.term = 2 ∧ (s.raft 0).electionState = .follower :=
  ⟨_, _, ⟨1, ⟨2, 0, 0, 0, [], 0⟩, true, .idle⟩, rfl, rfl, rfl, rfl, rfl, rfl, by decide⟩

end DistSys.Consensus
