import DistSys.Consensus.Steps
import DistSys.Consensus.Conditions

/-! The apply stream. `applyCommit` runs at any time after it was started, sends what lies
between `lastApplied` and `commitIndex` then, and sets the one to the other. -/
namespace DistSys.Consensus

open Function (update)
open DistSys.Lib

variable {n : Nat} {Command : Type} {c c' : Cluster n Command} {a : Action n Command}

/-- The stream of a peer counts up to `lastApplied`, which commits have passed. A process
that died while sending has sent a bit more than it has noted. -/
structure Streamed (c : Cluster n Command) (p : Fin n) : Prop where
  order : (c.raft p).lastApplied ≤ (c.raft p).commitIndex
  stream : ∃ k, (c.applyCh p).map ApplyCommand.index = List.range' 1 k ∧
    (c.crashed = false → k = (c.raft p).lastApplied)

/-- The condition is what keeps `commitIndex` from falling behind `lastApplied`. -/
theorem appendEntries_order {rf : Raft n Command} {args : AppendEntriesArgs n Command}
    (ok : rf.currentTerm ≤ args.term → prevMatches rf.log args = true →
      rf.commitIndex < args.leaderCommit → rf.lastApplied ≤ args.prevLogIndex + args.entries.length)
    (order : rf.lastApplied ≤ rf.commitIndex) :
    (appendEntries rf args).rf.lastApplied = rf.lastApplied ∧
      rf.lastApplied ≤ (appendEntries rf args).rf.commitIndex := by
  rcases appendEntries_cases rf args with ⟨_, eq⟩ | ⟨_, _, eq⟩ | ⟨le, found, eq⟩ <;> rw [eq]
  · exact ⟨rfl, order⟩
  · exact ⟨by simp, by simpa using order⟩
  · refine ⟨by simp, ?_⟩
    have length := storeEntries_length found
    dsimp only
    split
    · rename_i news
      have reach := ok le found news
      omega
    · exact order

theorem streamed_kept {p q : Fin n} {rf : Raft n Command} (h : Streamed c q)
    (raft : c'.raft = update c.raft p rf) (stream : c'.applyCh = c.applyCh)
    (alive : c'.crashed = c.crashed)
    (here : q = p → rf.lastApplied = (c.raft p).lastApplied ∧
      (c.raft p).lastApplied ≤ rf.commitIndex) : Streamed c' q := by
  obtain ⟨k, indices, last⟩ := h.stream
  by_cases same : q = p
  · subst same
    have eq : c'.raft q = rf := by rw [raft, Function.update_self]
    obtain ⟨applied, order⟩ := here rfl
    refine ⟨by rw [eq, applied]; exact order, k, by rw [stream]; exact indices, ?_⟩
    intro up
    rw [eq, applied]
    exact last (alive ▸ up)
  · have eq : c'.raft q = c.raft q := by rw [raft, Function.update_of_ne same]
    refine ⟨by rw [eq]; exact h.order, k, by rw [stream]; exact indices, ?_⟩
    intro up
    rw [eq]
    exact last (alive ▸ up)

theorem Streamed.same {q : Fin n} (h : Streamed c q) (raft : c'.raft = c.raft)
    (stream : c'.applyCh = c.applyCh) (alive : c'.crashed = false → c.crashed = false) :
    Streamed c' q := by
  obtain ⟨k, indices, last⟩ := h.stream
  exact ⟨by rw [raft]; exact h.order, k, by rw [stream]; exact indices,
    fun up => by rw [raft]; exact last (alive up)⟩

theorem stream_append {rf : Raft n Command} {sent : List (ApplyCommand Command)}
    (indices : sent.map ApplyCommand.index = List.range' 1 rf.lastApplied)
    (order : rf.lastApplied ≤ rf.commitIndex) :
    ∃ k, (sent ++ (applyCommit rf).1).map ApplyCommand.index = List.range' 1 k ∧
      ((applyCommit rf).2 ≠ none → k = rf.commitIndex) := by
  obtain ⟨more, new, all⟩ :=
    sendCommands_index rf.log (rf.lastApplied + 1) (rf.commitIndex - rf.lastApplied)
  refine ⟨rf.lastApplied + more, ?_, ?_⟩
  · rw [List.map_append, indices, applyCommit, new, Nat.add_comm rf.lastApplied 1,
      List.range'_append_1]
  · intro done
    have sentAll : (sendCommands rf.log (rf.lastApplied + 1)
        (rf.commitIndex - rf.lastApplied)).2 = true := by
      by_contra stopped
      exact done (by simp [applyCommit, stopped])
    rw [all sentAll]
    omega

theorem step_streamed (step : Step c a c') (alive : c.crashed = false) (h : ∀ p, Streamed c p)
    (ok : commitNotBehind c a = true) : ∀ p, Streamed c' p := by
  intro q
  have kept := h q
  cases step with
  | startElect p spawned => exact streamed_kept kept rfl rfl rfl (fun _ => ⟨rfl, (h p).order⟩)
  | requestVote e v el rf reply found asked handled =>
    refine streamed_kept kept rfl rfl rfl (fun _ => ?_)
    rcases requestVote_cases handled with ⟨_, rfl, _⟩ | ⟨_, rfl, _⟩ | ⟨_, rfl, _⟩
    · exact ⟨rfl, (h v).order⟩
    · exact ⟨by simp, by simpa using (h v).order⟩
    · exact ⟨by simp, by simpa using (h v).order⟩
  | higherTerm e el term found pc =>
    exact streamed_kept kept rfl rfl rfl (fun _ => ⟨rfl, (h el.owner).order⟩)
  | loseElection p lost el at_hb candidate found owner pc | becomeLeader p won received =>
    exact streamed_kept kept rfl rfl rfl (fun _ => ⟨rfl, (h p).order⟩)
  | appendEntries k call found asked room =>
    refine streamed_kept kept rfl rfl rfl (fun _ => appendEntries_order ?_ (h call.server).order)
    simp only [commitNotBehind, found, decide_eq_true_eq] at ok
    exact ok
  | appendReply k call reply rf applied found answered processed =>
    have same := congrArg Raft.lastApplied (processAppendEntriesReply_eq processed)
    have order := Nat.le_trans (h _).order (processAppendEntriesReply_commit processed)
    exact streamed_kept kept rfl rfl rfl (fun _ => ⟨same, order⟩)
  | putCommand p command =>
    refine streamed_kept kept rfl rfl rfl (fun _ => ?_)
    rcases putCommand_cases (c.raft p) command with ⟨_, eq⟩ | ⟨_, eq⟩ <;> rw [eq] <;>
      exact ⟨rfl, (h p).order⟩
  | applyCommit p rf spawned done =>
    obtain ⟨k, indices, last⟩ := kept.stream
    have eq := applyCommit_done done
    subst eq
    by_cases same : q = p
    · subst same
      rw [last alive] at indices
      obtain ⟨k', indices', all⟩ := stream_append indices kept.order
      have reached : k' = (c.raft q).commitIndex := all (by rw [done]; intro none; cases none)
      exact ⟨by simp, k', by simpa using indices', fun _ => by simpa using reached⟩
    · exact ⟨by simpa [same] using kept.order, k, by simpa [same] using indices,
        fun _ => by simpa [same] using last alive⟩
  | applyCrash p spawned panics =>
    obtain ⟨k, indices, last⟩ := kept.stream
    by_cases same : q = p
    · subst same
      rw [last alive] at indices
      obtain ⟨k', indices', _⟩ := stream_append indices kept.order
      exact ⟨kept.order, k', by simpa using indices', fun up => by cases up⟩
    · exact ⟨kept.order, k, by simpa [same] using indices, fun up => by cases up⟩
  | crash a panics => exact kept.same rfl rfl (fun up => by cases up)
  | _ => exact kept.same rfl rfl id

theorem streamed_new [Inhabited Command] (p : Fin n) : Streamed (newCluster n Command) p :=
  ⟨Nat.le_refl _, 0, rfl, fun _ => rfl⟩

/-- On every peer the stream counts 1, 2, 3 and so on. -/
theorem apply_stream_counts [Inhabited Command] (acts : List (Action n Command))
    (met : Along step commitNotBehind (newCluster n Command) acts) (c : Cluster n Command)
    (reached : run step (newCluster n Command) acts = some c) (p : Fin n) :
    (c.applyCh p).map ApplyCommand.index = List.range' 1 (c.applyCh p).length := by
  have streamed := run_invariant (fun c => ∀ p, Streamed c p)
    (fun _ _ _ h ok taken => step_streamed (step_cases taken).2 (step_cases taken).1 h ok)
    streamed_new acts met reached
  obtain ⟨k, indices, _⟩ := (streamed p).stream
  have length := congrArg List.length indices
  rw [List.length_map, List.length_range'] at length
  rw [length, indices]

theorem two_commands_applied : ∃ c : Cluster 3 Nat,
    run step (newCluster 3 Nat) applyRun = some c ∧ c.applyCh 0 = [⟨1, 7⟩, ⟨2, 8⟩] ∧
    (c.applyCh 0).map ApplyCommand.index = List.range' 1 (c.applyCh 0).length :=
  ⟨_, rfl, by decide, apply_stream_counts applyRun (by decide) _ rfl 0⟩

/-- Peer 2 has applied entry 1. Two heartbeats that were sent before any entry then cut the
logs of peers 1 and 2. Peer 1 leads term 2 without the entry; its heartbeat names a commit
index above its log, so that peer 2 falls back to 0 and applies another entry 1. -/
theorem index_one_applied_twice : ∃ c : Cluster 3 Nat,
    run step (newCluster 3 Nat) (elect 0 1 0 ++ round 0 ++ [.putCommand 0 7, .putCommand 0 8] ++
      round 0 ++ [.encode 2, .appendEntries 2, .appendReply 2] ++ round 0 ++
      [.encode 5, .appendEntries 5, .applyCommit 2, .appendReply 5] ++ round 0 ++
      [.encode 6, .appendEntries 6, .encode 0, .appendEntries 0, .encode 1, .appendEntries 1] ++
      elect 1 2 1 ++ round 1 ++
      [.encode 9, .appendEntries 9, .applyCommit 2, .putCommand 1 9] ++ round 1 ++
      [.receiveHb 2, .heartbeat 2 0, .encode 11, .appendEntries 11, .applyCommit 2]) = some c ∧
    c.applyCh 2 = [⟨1, 7⟩, ⟨1, 9⟩] :=
  ⟨_, rfl, by decide +kernel⟩

end DistSys.Consensus
