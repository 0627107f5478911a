import DistSys.Consensus.Commit

/-! What replication guarantees over whole runs: a committed entry stays, every later leader
starts with it, and no two peers apply different commands at one index. -/
namespace DistSys.Consensus

open Function (update)
open DistSys.Lib

variable {n : Nat} {Command : Type} {c c' : Cluster n Command} {a : Action n Command}

/-! ### Commit durability -/

/-- Commit indices lie inside the log in every state, and no step takes one back or changes
an entry up to it. -/
theorem commit_durable [Inhabited Command] (acts : List (Action n Command))
    (met : Along step replicationSound (newCluster n Command) acts) :
    (∀ i s, run step (newCluster n Command) (acts.take i) = some s →
      ∀ p, (s.raft p).commitIndex < (s.raft p).log.length) ∧
    (∀ i s a t, run step (newCluster n Command) (acts.take i) = some s → acts[i]? = some a →
      step s a = some t → ∀ p, (s.raft p).commitIndex ≤ (t.raft p).commitIndex ∧
        (t.raft p).log.take ((s.raft p).commitIndex + 1) =
          (s.raft p).log.take ((s.raft p).commitIndex + 1)) := by
  constructor
  · intro i s reached p
    obtain ⟨m, safe⟩ := safe_of_run (along_take met i reached).1 reached
    exact safe.committed.inside p
  · intro i s a t reached next taken p
    obtain ⟨m, safe⟩ := safe_of_run (along_take met i reached).1 reached
    obtain ⟨_, _, _, durable⟩ := step_safe (step_cases taken).2 safe (along_at met reached next taken)
    exact ⟨(durable p).commit, (durable p).entries⟩

theorem command_committed : ∃ s t : Cluster 3 Nat,
    run step (newCluster 3 Nat) (commitRun.take 14) = some s ∧
    step s (.appendReply 0) = some t ∧ (t.raft 0).commitIndex = 1 ∧
    (s.raft 0).commitIndex ≤ (t.raft 0).commitIndex ∧
    (t.raft 0).log.take ((s.raft 0).commitIndex + 1) =
      (s.raft 0).log.take ((s.raft 0).commitIndex + 1) :=
  ⟨_, _, rfl, rfl, by decide, (commit_durable commitRun (by decide)).2 14 _ _ _ rfl rfl rfl 0⟩

/-- Peer 1 has committed entry 1 when a heartbeat arrives that was sent before it. -/
theorem heartbeat_cuts_committed : ∃ s t : Cluster 3 Nat,
    run step (newCluster 3 Nat) (elect 0 1 0 ++ round 0 ++ [.putCommand 0 7] ++ round 0 ++
      [.encode 2, .appendEntries 2, .appendReply 2] ++ round 0 ++
      [.encode 4, .appendEntries 4, .encode 0]) = some s ∧
    step s (.appendEntries 0) = some t ∧ (s.raft 1).commitIndex = 1 ∧
    (s.raft 1).log = [⟨0, 0⟩, ⟨1, 7⟩] ∧ (t.raft 1).commitIndex = 1 ∧ (t.raft 1).log = [⟨0, 0⟩] :=
  ⟨_, _, rfl, rfl, by decide, by decide, by decide, by decide⟩

/-! ### Commit counting -/

/-- A step of `processAppendEntriesReply` that moves a commit index is one of a leader, and a
majority has stored the prefix it commits. -/
theorem appendReply_commits [Inhabited Command] {m : History n Command} {k : Nat}
    (step : Step c (.appendReply k) c') (safe : Safe c m)
    (office : replyInOffice c (.appendReply k) = true) {p : Fin n}
    (moves : (c'.raft p).commitIndex ≠ (c.raft p).commitIndex) :
    (c.raft p).electionState = .leader ∧
    (∃ e, (c.raft p).log[(c'.raft p).commitIndex]? = some e ∧
      e.term = (c.raft p).currentTerm) ∧
    ∃ r, m.Chosen (c.raft p).currentTerm ((c'.raft p).commitIndex + 1) r ∧
      r.log = (c.raft p).log := by
  cases step_replica step p with
  | kept log commit matched idle => exact absurd commit moves
  | crowned act eq | appended command act leader eq
  | stored k call act found server le matches_prev eq => cases act
  | answered k call reply applied act found replied sender processed =>
    cases act
    subst sender
    obtain ⟨recorded, done, eq | ⟨entryIdx, eq, committed⟩⟩ :=
      processAppendEntriesReply_cases processed
    · exact absurd (by rw [eq, recordReply_eq done]) moves
    · have same := recordReply_eq done
      obtain ⟨member, ⟨e, at_idx, current⟩, _⟩ := findCommit_spec committed
      rw [same] at at_idx current
      have unchanged : uncommitted recorded = uncommitted (c.raft call.args.leaderId) := by
        rw [same]
        rfl
      have leader : (c.raft call.args.leaderId).electionState = .leader := by
        by_contra other
        exact (reply_office found replied office).2 other entryIdx (unchanged ▸ member) e at_idx
          current
      have matched := (answered_settled safe.led safe.faithful safe.committed found replied office
        done).1 leader
      have chosen := commit_chosen safe.led safe.faithful leader same matched committed
      rw [eq]
      exact ⟨leader, ⟨e, at_idx, current⟩, chosen⟩

theorem appendReply_raft {k : Nat} (step : Step c (.appendReply k) c') (p : Fin n) :
    (c'.raft p).electionState = (c.raft p).electionState ∧
      (c'.raft p).currentTerm = (c.raft p).currentTerm ∧ (c'.raft p).log = (c.raft p).log := by
  cases step with
  | appendReply k call reply rf applied found answered processed =>
    exact update_rel (fun a b => b.electionState = a.electionState ∧
      b.currentTerm = a.currentTerm ∧ b.log = a.log) (fun _ => ⟨rfl, rfl, rfl⟩)
      (by rw [processAppendEntriesReply_eq processed]; exact ⟨rfl, rfl, rfl⟩) p
  | crash a panics => exact ⟨rfl, rfl, rfl⟩

/-- Whenever an append reply moves the commit index of a peer, that peer is leader, the entry
it commits is of its own term, and a majority of the peers has this entry at that moment. -/
theorem commit_counting [Inhabited Command] (acts : List (Action n Command))
    (met : Along step replicationSound (newCluster n Command) acts) (i k : Nat)
    (s t : Cluster n Command) (at_i : run step (newCluster n Command) (acts.take i) = some s)
    (next : acts[i]? = some (.appendReply k)) (taken : step s (.appendReply k) = some t)
    (p : Fin n) (moves : (t.raft p).commitIndex ≠ (s.raft p).commitIndex) :
    (t.raft p).electionState = .leader ∧
    ∃ e, (t.raft p).log[(t.raft p).commitIndex]? = some e ∧
      e.term = (t.raft p).currentTerm ∧
      ∃ holders : Finset (Fin n), n < 2 * holders.card ∧ p ∈ holders ∧
        ∀ v ∈ holders, (t.raft v).log[(t.raft p).commitIndex]? = some e := by
  obtain ⟨m, safe⟩ := safe_of_run (along_take met i at_i).1 at_i
  have ok := along_at met at_i next taken
  simp only [replicationSound, Bool.and_eq_true] at ok
  have step := (step_cases taken).2
  obtain ⟨leader, ⟨e, at_idx, current⟩, r, chosen, log⟩ :=
    appendReply_commits step safe ok.2 moves
  obtain ⟨holders, major, fronts⟩ :=
    chosen.held origin_term safe.led.refines.coherent safe.faithful
  rw [(appendReply_raft step p).1, (appendReply_raft step p).2.1, (appendReply_raft step p).2.2]
  refine ⟨leader, e, at_idx, current, insert p holders, ?_, Finset.mem_insert_self _ _, ?_⟩
  · have larger := Finset.card_le_card (Finset.subset_insert p holders)
    rw [Majority, Fintype.card_fin] at major
    omega
  · intro v member
    rw [(appendReply_raft step v).2.2]
    rcases Finset.mem_insert.mp member with rfl | other
    · exact at_idx
    · rw [← safe.led.refines.log v]
      refine getElem?_of_front (fronts v other) ?_
      rw [List.getElem?_take_of_lt (Nat.lt_succ_self _), log, at_idx]

theorem first_commit_counted : ∃ s t : Cluster 3 Nat,
    run step (newCluster 3 Nat) (commitRun.take 14) = some s ∧
    step s (.appendReply 0) = some t ∧ (t.raft 0).commitIndex = 1 ∧
    (t.raft 0).electionState = .leader ∧
    ∃ e, (t.raft 0).log[(t.raft 0).commitIndex]? = some e ∧ e.term = (t.raft 0).currentTerm ∧
      ∃ holders : Finset (Fin 3), 3 < 2 * holders.card ∧ 0 ∈ holders ∧
        ∀ v ∈ holders, (t.raft v).log[(t.raft 0).commitIndex]? = some e :=
  ⟨_, _, rfl, rfl, by decide,
    commit_counting commitRun (by decide) 14 0 _ _ rfl rfl rfl 0 (by decide)⟩

/-- Peer 1 has stored entry 1 and its answer is on the way when an older heartbeat cuts the
entry off again. The answer then commits an entry that only the leader has. -/
theorem commits_what_one_peer_has : ∃ s t : Cluster 3 Nat,
    run step (newCluster 3 Nat) (elect 0 1 0 ++ round 0 ++ [.putCommand 0 7] ++ round 0 ++
      [.encode 2, .appendEntries 2, .encode 0, .appendEntries 0]) = some s ∧
    step s (.appendReply 2) = some t ∧ (s.raft 0).commitIndex = 0 ∧ (t.raft 0).commitIndex = 1 ∧
    (t.raft 0).log[1]? = some ⟨1, 7⟩ ∧ (t.raft 1).log[1]? = none ∧ (t.raft 2).log[1]? = none :=
  ⟨_, _, rfl, rfl, by decide, by decide, by decide, by decide, by decide⟩

/-! ### Leader completeness -/

theorem step_becomeLeader {q : Fin n} (step : Step c (.becomeLeader q) c') :
    (c'.raft q).electionState = .leader := by
  cases step with
  | becomeLeader p won received => simp [becomeLeader]
  | crash a panics => exact panics.elim

/-- What a peer has committed in some term, at whatever moment of a run, is in the log of
every peer that is made leader of a later term, at whatever moment that is. -/
theorem leader_completeness [Inhabited Command] (acts : List (Action n Command))
    (met : Along step replicationSound (newCluster n Command) acts) (i j : Nat)
    (s u t : Cluster n Command) (at_i : run step (newCluster n Command) (acts.take i) = some s)
    (at_j : run step (newCluster n Command) (acts.take j) = some u) (p q : Fin n)
    (next : acts[j]? = some (.becomeLeader q)) (taken : step u (.becomeLeader q) = some t)
    (later : (s.raft p).currentTerm < (t.raft q).currentTerm) (k : Nat)
    (committed : k ≤ (s.raft p).commitIndex) :
    ∃ e, (s.raft p).log[k]? = some e ∧ (t.raft q).log[k]? = some e := by
  obtain ⟨hs, ht, final, w, safe, safe', below, below', last⟩ :=
    run_moments Safe Chronicle.Below Chronicle.Below.refl (fun _ _ _ => Chronicle.Below.trans)
      (fun _ _ _ _ related ok taken =>
        let ⟨m', grown, kept, _⟩ := step_safe (step_cases taken).2 related ok
        ⟨m', grown, kept⟩)
      safe_new acts met at_i (run_take_succ at_j next taken)
  obtain ⟨r, rules, _, log⟩ :=
    safe'.led.refines.own_reign (step_becomeLeader (step_cases taken).2)
  obtain ⟨r', rules', grows⟩ := below'.reign _ r rules
  have settled := (safe.committed.settled p).mono below (Nat.le_refl _)
  have front := settled.complete origin_term last.led.refines.coherent last.faithful rules' later
  rw [grows.base] at front
  have bound : k < (s.raft p).log.length := Nat.lt_of_le_of_lt committed (safe.committed.inside p)
  have there : (s.raft p).log[k]? = some (s.raft p).log[k] := List.getElem?_eq_getElem bound
  refine ⟨(s.raft p).log[k], there, ?_⟩
  rw [log]
  refine getElem?_of_front (front.trans r.base_front) ?_
  rw [List.getElem?_take_of_lt (Nat.lt_succ_of_le committed), there]

theorem next_leader_has_committed : ∃ s u t : Cluster 3 Nat,
    run step (newCluster 3 Nat) commitRun = some s ∧
    run step (newCluster 3 Nat) ((commitRun ++ elect 1 2 1).take 20) = some u ∧
    step u (.becomeLeader 1) = some t ∧ (s.raft 0).commitIndex = 1 ∧
    ∃ e, (s.raft 0).log[1]? = some e ∧ (t.raft 1).log[1]? = some e :=
  ⟨_, _, _, rfl, rfl, rfl, by decide, leader_completeness (commitRun ++ elect 1 2 1) (by decide)
    15 20 _ _ _ rfl rfl 0 1 rfl rfl (by decide) 1 (by decide)⟩

/-- The leader of term 1 commits entry 2 with the answer of peer 1. Peer 2 has only entry 1;
peer 1 votes for it all the same, and it is made leader of term 2. -/
theorem leader_lacks_committed : ∃ s t u v : Cluster 3 Nat,
    run step (newCluster 3 Nat) (elect 0 1 0 ++ [.putCommand 0 7] ++ round 0 ++
      [.encode 0, .appendEntries 0, .encode 1, .appendEntries 1, .appendReply 0, .putCommand 0 8] ++
      round 0 ++ [.encode 2, .appendEntries 2]) = some s ∧
    step s (.appendReply 2) = some t ∧ (s.raft 0).electionState = .leader ∧
    (s.raft 0).currentTerm = 1 ∧ (s.raft 0).commitIndex = 1 ∧ (t.raft 0).commitIndex = 2 ∧
    run step t [.electionTimeout 2, .startElect 2, .requestVote 1 1, .voteReply 1 1,
      .handOff 1] = some u ∧
    step u (.becomeLeader 2) = some v ∧ (v.raft 2).currentTerm = 2 ∧
    (t.raft 0).log[2]? = some ⟨1, 8⟩ ∧ (v.raft 2).log[2]? = none :=
  ⟨_, _, _, _, rfl, rfl, by decide, by decide, by decide, by decide, rfl, rfl, by decide, by decide,
    by decide⟩

/-! ### State machine safety -/

/-- No two commands are ever applied at one index. -/
theorem state_machine_safety [Inhabited Command] (acts : List (Action n Command))
    (met : Along step replicationSound (newCluster n Command) acts) (c : Cluster n Command)
    (reached : run step (newCluster n Command) acts = some c) (p q : Fin n) (i : Nat)
    (x y : Command) (at_p : ⟨i, x⟩ ∈ c.applyCh p) (at_q : ⟨i, y⟩ ∈ c.applyCh q) : x = y := by
  obtain ⟨m, safe⟩ := safe_of_run met reached
  obtain ⟨small, e, at_i, command⟩ := safe.committed.applied p _ at_p
  obtain ⟨small', d, at_i', command'⟩ := safe.committed.applied q _ at_q
  dsimp only at small small' at_i at_i' command command'
  have there : ((c.raft p).log.take ((c.raft p).commitIndex + 1))[i]? = some e := by
    rw [List.getElem?_take_of_lt (Nat.lt_succ_of_le small), at_i]
  have there' : ((c.raft q).log.take ((c.raft q).commitIndex + 1))[i]? = some d := by
    rw [List.getElem?_take_of_lt (Nat.lt_succ_of_le small'), at_i']
  have same : e = d := by
    rcases (safe.committed.settled p).agree origin_term safe.led.refines.coherent safe.faithful
      (safe.committed.settled q) with front | front
    · exact Option.some.inj ((getElem?_of_front front there).symm.trans there')
    · exact Option.some.inj (there.symm.trans (getElem?_of_front front there'))
  rw [← command, ← command', same]

theorem one_command_at_index_one : ∃ c : Cluster 3 Nat,
    run step (newCluster 3 Nat) (commitRun ++ [.applyCommit 0] ++ round 0 ++
      [.encode 2, .appendEntries 2, .applyCommit 1]) = some c ∧
    ⟨1, 7⟩ ∈ c.applyCh 0 ∧ ∀ y, ⟨1, y⟩ ∈ c.applyCh 1 → 7 = y :=
  ⟨_, rfl, by decide, fun y at_one => state_machine_safety (commitRun ++ [.applyCommit 0] ++
    round 0 ++ [.encode 2, .appendEntries 2, .applyCommit 1]) (by decide) _ rfl 0 1 1 7 y (by decide)
    at_one⟩

/-- The leader that lacks the committed entry 2 makes another one. -/
theorem two_commands_at_index_two : ∃ c : Cluster 3 Nat,
    run step (newCluster 3 Nat) (elect 0 1 0 ++ [.putCommand 0 7] ++ round 0 ++
      [.encode 0, .appendEntries 0, .encode 1, .appendEntries 1, .appendReply 0, .putCommand 0 8] ++
      round 0 ++ [.encode 2, .appendEntries 2, .appendReply 2] ++ elect 2 1 1 ++
      [.applyCommit 0, .putCommand 2 9] ++ round 2 ++ [.encode 5, .appendEntries 5, .appendReply 5, .applyCommit 2]) = some c ∧
    ⟨2, 8⟩ ∈ c.applyCh 0 ∧ ⟨2, 9⟩ ∈ c.applyCh 2 :=
  ⟨_, rfl, by decide +kernel, by decide +kernel⟩

end DistSys.Consensus
