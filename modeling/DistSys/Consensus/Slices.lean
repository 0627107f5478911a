import DistSys.Consensus.Broadcast

/-! The entries of a message before it is encoded. They are a slice of the sender's array, and show
what is written there. -/
namespace DistSys.Consensus

open Function (update)
open DistSys.Lib

variable {n : Nat} {Command : Type} {c c' : Cluster n Command} {a : Action n Command}

/-- A slice shows the log of its sender as far as that reaches. -/
def Shown (c : Cluster n Command) : Prop :=
  ∀ call ∈ c.appends, call.rpc = .idle → ∀ j e l, call.args.entries[j]? = some e →
    (c.raft call.args.leaderId).log[call.args.prevLogIndex + 1 + j]? = some l → e = l

theorem refresh_rpc (p : Fin n) (log : List (Logs Command)) (call : AppendCall n Command) :
    (call.refresh p log).rpc = call.rpc := by
  unfold AppendCall.refresh
  split <;> rfl

theorem refresh_other {p : Fin n} {log : List (Logs Command)} {call : AppendCall n Command}
    (other : ¬ (call.rpc = .idle ∧ call.args.leaderId = p)) : call.refresh p log = call :=
  if_neg other

/-- What a slice of the log's own array shows after the write. -/
theorem refresh_entries {p : Fin n} {log : List (Logs Command)} {call : AppendCall n Command}
    (own : call.rpc = .idle ∧ call.args.leaderId = p) (j : Nat) :
    (call.refresh p log).args.entries[j]? =
      call.args.entries[j]?.map fun e => (log[call.args.prevLogIndex + 1 + j]?).getD e := by
  rw [AppendCall.refresh, if_pos own]
  exact List.getElem?_mapIdx

theorem refresh_shows {p : Fin n} {rf : Raft n Command} {calls : List (AppendCall n Command)}
    (others : ∀ call ∈ calls, call.rpc = .idle → call.args.leaderId ≠ p → ∀ j e l,
      call.args.entries[j]? = some e →
      (c.raft call.args.leaderId).log[call.args.prevLogIndex + 1 + j]? = some l → e = l)
    (raft : c'.raft = update c.raft p rf)
    (appends : c'.appends = calls.map (AppendCall.refresh p rf.log)) : Shown c' := by
  intro call member idle j e l entry there
  rw [appends] at member
  obtain ⟨old, before, rfl⟩ := List.mem_map.mp member
  rw [refresh_rpc] at idle
  have like := old.refresh_like p rf.log
  rw [like.args, raft] at there
  by_cases own : old.args.leaderId = p
  · rw [refresh_entries ⟨idle, own⟩] at entry
    obtain ⟨d, -, rfl⟩ := Option.map_eq_some_iff.mp entry
    rw [own, Function.update_self] at there
    rw [there]
    rfl
  · rw [refresh_other fun both => own both.2] at entry
    rw [Function.update_of_ne own] at there
    exact others old before idle own j e l entry there

theorem step_shown [Inhabited Command] (step : Step c a c') (h : Shown c)
    (rooted : ∀ p, Rooted (c.raft p)) : Shown c' := by
  -- no log changes, and a message that is not sent was there before
  have still : (∀ p, (c'.raft p).log = (c.raft p).log) →
      (∀ call ∈ c'.appends, call.rpc = .idle → call ∈ c.appends) → Shown c' := by
    intro logs old call member idle j e l entry there
    rw [logs] at there
    exact h call (old call member idle) idle j e l entry there
  have set : ∀ {k : Nat} {new : AppendCall n Command}, new.rpc ≠ .idle →
      ∀ call ∈ c.appends.set k new, call.rpc = .idle → call ∈ c.appends := by
    intro k new sent call member idle
    rcases List.mem_or_eq_of_mem_set member with before | rfl
    · exact before
    · exact absurd idle sent
  have logs : (∀ q command, a ≠ .putCommand q command) → (∀ k, a ≠ .appendEntries k) →
      ∀ p, (c'.raft p).log = (c.raft p).log := by
    intro noPut noStore p
    cases step_replica step p with
    | kept log => exact log
    | crowned act eq => rw [eq]; rfl
    | appended command act => exact absurd act (noPut p command)
    | stored k call act => exact absurd act (noStore k)
    | answered k call reply applied act found replied sender processed =>
      rw [processAppendEntriesReply_eq processed]
  cases step with
  | send p i args isHeartbeat at_peer other built =>
    intro call member idle j e l entry there
    rcases List.mem_append.mp member with before | new
    · exact h call before idle j e l entry there
    · cases List.mem_singleton.mp new
      obtain ⟨-, sender, -, -, entries⟩ := build_spec (rooted p) built
      dsimp only at entry there
      rw [entries, List.getElem?_drop] at entry
      rw [sender] at there
      exact Option.some.inj (entry.symm.trans there)
  | encode k call found unsent => exact still (logs nofun nofun) (set (by simp))
  | appendReply k call reply rf applied found answered processed =>
    exact still (logs nofun nofun) (set (by simp))
  | appendEntries k call found asked room =>
    refine refresh_shows (fun d member idle _ => ?_) rfl rfl
    exact h d (set (by simp) d member idle) idle
  | putCommand p command => exact refresh_shows (fun d member idle _ => h d member idle) rfl rfl
  | crash a panics =>
    exact still (fun _ => rfl) fun call member _ => member
  | _ => exact still (logs nofun nofun) fun call member _ => member

theorem shown_new [Inhabited Command] : Shown (newCluster n Command) := nofun

/-- A write that changes no place of a slice leaves them as they are. -/
theorem refresh_same (h : Shown c) {p : Fin n} {log : List (Logs Command)}
    (common : ∀ call ∈ c.appends, call.rpc = .idle → call.args.leaderId = p →
      ∀ i < call.sliceEnd, ∀ l, log[i]? = some l → (c.raft p).log[i]? = some l) :
    c.appends.map (AppendCall.refresh p log) = c.appends := by
  refine (List.map_congr_left ?_).trans (List.map_id _)
  intro call member
  by_cases own : call.rpc = .idle ∧ call.args.leaderId = p
  · have same : (call.refresh p log).args.entries = call.args.entries := by
      apply List.ext_getElem?
      intro j
      rw [refresh_entries own]
      cases entry : call.args.entries[j]? with
      | none => rfl
      | some e =>
        have inside := (List.getElem?_eq_some_iff.mp entry).1
        cases there : log[call.args.prevLogIndex + 1 + j]? with
        | none => rfl
        | some l =>
          have old := common call member own.1 own.2 _ (Nat.add_lt_add_left inside _) l there
          rw [← own.2] at old
          rw [h call member own.1 j e l entry old]
          rfl
    have rest : call.refresh p log =
        { call with args := { call.args with entries := (call.refresh p log).args.entries } } := by
      rw [AppendCall.refresh, if_pos own]
    rw [rest, same]
    rfl
  · exact refresh_other own

theorem slicesBefore_spec {p : Fin n} {place : Nat} (before : c.slicesBefore p place = true)
    {call : AppendCall n Command} (member : call ∈ c.appends) (idle : call.rpc = .idle)
    (own : call.args.leaderId = p) : call.sliceEnd ≤ place := by
  simp only [Cluster.slicesBefore, List.all_eq_true, decide_eq_true_eq] at before
  exact before call member idle own

/-- Up to the place where new entries are put, and everywhere if there are none, a message leaves what
was there. -/
theorem storeEntries_common {log : List (Logs Command)} {args : AppendEntriesArgs n Command} {i : Nat}
    {l : Logs Command} (found : prevMatches log args = true)
    (there : (storeEntries log args)[i]? = some l)
    (early : matchedEntries args.entries (log.drop (args.prevLogIndex + 1)) < args.entries.length →
      i < args.prevLogIndex + 1 + matchedEntries args.entries (log.drop (args.prevLogIndex + 1))) :
    log[i]? = some l := by
  obtain ⟨e, at_prev, _⟩ := prevMatches_iff.mp found
  have inside := (List.getElem?_eq_some_iff.mp at_prev).1
  have bound := (matchedEntries_le args.entries (log.drop (args.prevLogIndex + 1))).2
  rw [List.length_drop] at bound
  unfold storeEntries at there
  generalize matchedEntries args.entries (log.drop (args.prevLogIndex + 1)) = matched
    at there early bound
  have old : i < args.prevLogIndex + 1 + matched := by
    by_cases new : matched < args.entries.length
    · exact early new
    · have size := (List.getElem?_eq_some_iff.mp there).1
      rw [List.length_append, List.length_take, List.length_drop] at size
      omega
  rwa [List.getElem?_append_left (by rw [List.length_take]; omega),
    List.getElem?_take_of_lt old] at there

/-- Where the condition holds, `AppendEntries` writes into no slice. -/
theorem appendEntries_slices (h : Shown c) {k : Nat} {call : AppendCall n Command}
    (found : c.appends[k]? = some call) (intact : slicesIntact c (.appendEntries k) = true)
    (reply : AppendEntriesReply) :
    (c.appends.set k { call with rpc := .replied reply }).map
        (AppendCall.refresh call.server (appendEntries (c.raft call.server) call.args).rf.log) =
      c.appends.set k { call with rpc := .replied reply } := by
  rw [List.map_set, refresh_other (by simp), refresh_same h]
  intro d member idle own i inside l there
  rcases appendEntries_cases (c.raft call.server) call.args with
    ⟨_, eq⟩ | ⟨_, _, eq⟩ | ⟨le, matches_prev, eq⟩
  · rwa [eq] at there
  · rw [eq] at there
    rwa [← follow_log (c.raft call.server) call.args.term]
  · rw [eq] at there
    refine storeEntries_common matches_prev there fun new => ?_
    simp only [slicesIntact, found, decide_eq_true_eq] at intact
    exact Nat.lt_of_lt_of_le inside (slicesBefore_spec (intact le matches_prev new) member idle own)

theorem putCommand_slices (h : Shown c) {p : Fin n} {command : Command}
    (intact : slicesIntact c (.putCommand p command) = true) :
    c.appends.map (AppendCall.refresh p (putCommand (c.raft p) command).1.log) = c.appends := by
  apply refresh_same h
  intro call member idle own i inside l there
  rcases putCommand_cases (c.raft p) command with ⟨_, eq⟩ | ⟨leader, eq⟩
  · rwa [eq] at there
  · simp only [slicesIntact, decide_eq_true_eq] at intact
    have early := Nat.lt_of_lt_of_le inside (slicesBefore_spec (intact leader) member idle own)
    rw [eq] at there
    rwa [← List.getElem?_append_left early]

end DistSys.Consensus
