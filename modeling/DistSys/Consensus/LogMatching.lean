import DistSys.Consensus.History

/-! Two consequences of the refinement: equal terms at one index mean equal logs up to it,
and a leader's log only grows by the commands it is given. -/
namespace DistSys.Consensus

open Function (update)
open DistSys.Lib

variable {n : Nat} {Command : Type} {c c' : Cluster n Command} {a : Action n Command}

/-- In every state of the run, logs with one term at an index are equal up to it. -/
theorem log_matching [Inhabited Command] (acts : List (Action n Command))
    (met : Along step logSound (newCluster n Command) acts) (c : Cluster n Command)
    (reached : run step (newCluster n Command) acts = some c) (p q : Fin n) (i : Nat)
    (e d : Logs Command) (at_p : (c.raft p).log[i]? = some e) (at_q : (c.raft q).log[i]? = some d)
    (same : e.term = d.term) : ∀ j ≤ i, (c.raft p).log[j]? = (c.raft q).log[j]? := by
  obtain ⟨m, led⟩ := led_of_run met reached
  have traced := fun v => led.refines.log v ▸ led.refines.coherent.traced v
  have equal := (traced p).matching (traced q) at_p at_q same
  intro j le
  rw [← List.getElem?_take_of_lt (Nat.lt_succ_of_le le), equal,
    List.getElem?_take_of_lt (Nat.lt_succ_of_le le)]

theorem first_entry_matches : ∃ c : Cluster 3 Nat,
    run step (newCluster 3 Nat) (firstEntryRun ++ [.encode 0, .appendEntries 0]) = some c ∧
    (c.raft 0).log[1]? = some ⟨1, 7⟩ ∧ (c.raft 1).log[1]? = some ⟨1, 7⟩ ∧
    ∀ j ≤ 1, (c.raft 0).log[j]? = (c.raft 1).log[j]? :=
  ⟨_, rfl, by decide, by decide,
    log_matching (firstEntryRun ++ [.encode 0, .appendEntries 0]) (by decide) _ rfl 0 1 1 ⟨1, 7⟩
      ⟨1, 7⟩ (by decide) (by decide) rfl⟩

/-- Peers 0 and 1 are both made leaders of term 2, and each takes a command. -/
theorem logs_differ_in_one_term : ∃ c : Cluster 3 Nat,
    run step (newCluster 3 Nat) ([.electionTimeout 0, .startElect 0, .requestVote 0 1,
      .voteReply 0 1, .handOff 0] ++ elect 1 2 1 ++ [.requestVote 1 0, .becomeLeader 0,
      .putCommand 0 7, .putCommand 1 8]) = some c ∧
    (c.raft 0).log[1]? = some ⟨2, 7⟩ ∧ (c.raft 1).log[1]? = some ⟨2, 8⟩ :=
  ⟨_, rfl, by decide, by decide⟩

/-! ### Leaders append -/

def Cluster.leads (c : Cluster n Command) (p : Fin n) (term : Nat) : Bool :=
  (c.raft p).electionState = .leader ∧ (c.raft p).currentTerm = term

def putBy (p : Fin n) : Action n Command → Option Command
  | .putCommand q command => if q = p then some command else none
  | _ => none

/-- Messages come from the elected leader of their term. What they carry does not matter here. -/
structure Sent [Inhabited Command] (c : Cluster n Command) : Prop where
  election : ElectionInv c
  round : RoundLed c
  rooted : ∀ p, Rooted (c.raft p)
  calls : ∀ call ∈ c.appends,
    (ballots c).Elected call.args.term call.args.leaderId ∧ call.args.leaderId ≠ call.server

theorem step_sent [Inhabited Command] (step : Step c a c') (h : Sent c)
    (ok : leadershipSound c a = true) : Sent c' := by
  rw [leadershipSound, Bool.and_eq_true] at ok
  refine ⟨step_election step h.election ok.1, step_roundLed step h.round ok.2,
    step_rooted step h.rooted, ?_⟩
  intro call member
  have news : replyIsNews c a = true := by
    have both := ok.1
    rw [electionSound, Bool.and_eq_true] at both
    exact both.1
  have kept := (step_ballots step news).kept
  rcases step_calls step member with ⟨old, there, like⟩ | ⟨p, i, at_peer, other, server, built⟩
  · rw [like.args, like.server]
    exact ⟨(h.calls old there).1.mono kept, (h.calls old there).2⟩
  · obtain ⟨term, sender, _⟩ := build_spec (h.rooted p) built
    have leader := h.round p ((inRound_broadcast at_peer).mpr ⟨i, Nat.le_refl _, other⟩)
    rw [term, sender, server]
    exact ⟨(h.election.leader p leader).mono kept, Ne.symm other⟩

theorem sent_new [Inhabited Command] : Sent (newCluster n Command) :=
  ⟨election_new, (fun _ within => by cases within), rooted_new, by simp [newCluster]⟩

/-- No message of its own term reaches a leader, since only the leader itself sends them. -/
theorem step_leader_log [Inhabited Command] (step : Step c a c') (h : Sent c) {p : Fin n}
    {term : Nat} (before : c.leads p term = true) (after : c'.leads p term = true) :
    (c'.raft p).log = (c.raft p).log ++ (putBy p a).toList.map (⟨term, ·⟩) := by
  simp only [Cluster.leads, decide_eq_true_eq] at before after
  cases step_replica step p with
  | kept log commit matched idle =>
    have none : putBy p a = none := by
      cases a with
      | putCommand q command =>
        have apart : q ≠ p := fun here => idle before.1 command (here ▸ rfl)
        simp [putBy, apart]
      | _ => rfl
    simp [log, none]
  | crowned act eq => simp [act, eq, putBy, becomeLeader]
  | appended command act leader eq => simp [act, eq, putBy, before.2]
  | stored k call act found server le matches_prev eq =>
    obtain ⟨elected, other⟩ := h.calls call (List.mem_of_getElem? found)
    have mine := h.election.leader p before.1
    have now : call.args.term = term := by
      rw [← after.2, eq]
      simp only [follow_term]
      omega
    rw [now] at elected
    rw [before.2] at mine
    exact absurd ((h.election.sound.elected_unique elected mine).trans server.symm) other
  | answered k call reply applied act found replied sender processed =>
    have log := congrArg Raft.log (processAppendEntriesReply_eq processed)
    dsimp only at log
    simp [act, log, putBy]

theorem run_leader_log [Inhabited Command] {p : Fin n} {term : Nat}
    (acts : List (Action n Command)) {s t : Cluster n Command} (h : Sent s) (met : Along step leadershipSound s acts)
    (reached : run step s acts = some t) (leads : Along step (fun u _ => u.leads p term) s acts)
    (last : t.leads p term = true) :
    (t.raft p).log = (s.raft p).log ++ (acts.filterMap (putBy p)).map (⟨term, ·⟩) := by
  induction acts generalizing s with
  | nil =>
    cases Option.some.inj reached
    simp
  | cons a rest ih =>
    obtain ⟨u, taken, tail⟩ := run_first reached
    have sound := (along_cons taken).mp met
    have led := (along_cons taken).mp leads
    have now : u.leads p term = true := by
      cases rest with
      | nil => exact Option.some.inj tail ▸ last
      | cons b rest =>
        obtain ⟨v, taken', _⟩ := run_first tail
        exact ((along_cons taken').mp led.2).1
    have next := step_sent (step_cases taken).2 h sound.1
    rw [ih next sound.2 tail led.2, step_leader_log (step_cases taken).2 h led.1 now]
    cases given : putBy p a <;> simp [given]

/-- While a peer leads a term, its log grows by the commands it is given, under that term,
and in no other way. -/
theorem leader_append_only [Inhabited Command] (before during : List (Action n Command))
    (met : Along step leadershipSound (newCluster n Command) (before ++ during))
    (s t : Cluster n Command) (first : run step (newCluster n Command) before = some s)
    (reached : run step s during = some t) (p : Fin n) (term : Nat)
    (leads : Along step (fun u _ => u.leads p term) s during) (last : t.leads p term = true) :
    (t.raft p).log = (s.raft p).log ++ (during.filterMap (putBy p)).map (⟨term, ·⟩) := by
  have parts := along_append met first
  have sent := run_invariant Sent (fun _ _ _ h ok taken => step_sent (step_cases taken).2 h ok)
    sent_new before parts.1 first
  exact run_leader_log during sent parts.2 reached leads last

theorem leader_takes_two_commands : ∃ s t : Cluster 3 Nat,
    run step (newCluster 3 Nat) (elect 0 1 0) = some s ∧
    run step s (.putCommand 0 7 :: round 0 ++ [.encode 0, .appendEntries 0, .putCommand 0 8]) = some t ∧
    (t.raft 0).log = (s.raft 0).log ++ [⟨1, 7⟩, ⟨1, 8⟩] :=
  ⟨_, _, rfl, rfl, leader_append_only (elect 0 1 0)
    (.putCommand 0 7 :: round 0 ++ [.encode 0, .appendEntries 0, .putCommand 0 8]) (by decide) _ _
    rfl rfl 0 1 (by decide) (by decide)⟩

/-- Peer 0 led term 1 and, as a follower, has sent a heartbeat for term 2 with an empty log.
Peer 1 leads term 2 and has taken a command when the heartbeat arrives: its entry is cut. -/
theorem leader_log_cut : ∃ s t : Cluster 3 Nat,
    run step (newCluster 3 Nat) (elect 0 1 0 ++ [.checkLeader 0, .broadcast 0, .electionTimeout 1,
      .startElect 1, .requestVote 1 0, .broadcast 0, .requestVote 1 2, .voteReply 1 2, .handOff 1,
      .becomeLeader 1, .putCommand 1 8, .encode 0]) = some s ∧
    step s (.appendEntries 0) = some t ∧ s.leads 1 2 = true ∧ t.leads 1 2 = true ∧
    (s.raft 1).log = [⟨0, 0⟩, ⟨2, 8⟩] ∧ (t.raft 1).log = [⟨0, 0⟩] :=
  ⟨_, _, rfl, rfl, by decide, by decide, by decide, by decide⟩

/-! ### What PutCommand promises -/

/-- The history of a state goes on in the histories of later states. -/
theorem Led.later [Inhabited Command] {m : History n Command} {acts : List (Action n Command)}
    (h : Led c m) (met : Along step logSound c acts) (reached : run step c acts = some c') :
    ∃ m', m.Below m' ∧ Led c' m' := by
  refine run_invariant (fun c' => ∃ m', m.Below m' ∧ Led c' m') ?_ ⟨m, .refl m, h⟩ acts met reached
  rintro s a t ⟨m', below, led⟩ ok taken
  obtain ⟨m'', steps, led'⟩ := step_led False (step_cases taken).2 led ok False.elim
  exact ⟨m'', below.trans steps.below, led'⟩

/-- `PutCommand` has answered with an index and a term. Whoever has an entry of that term at that index
later on has this command there, behind the log that the leader had before it. -/
theorem put_command_index [Inhabited Command] (before later : List (Action n Command))
    (s t : Cluster n Command) (p : Fin n) (command : Command)
    (met : Along step logSound (newCluster n Command) (before ++ .putCommand p command :: later))
    (first : run step (newCluster n Command) before = some s)
    (reached : run step s (.putCommand p command :: later) = some t) (index term : Nat)
    (answer : (putCommand (s.raft p) command).2 = (↑index, term, true)) (q : Fin n)
    (e : Logs Command) (there : (t.raft q).log[index]? = some e) (same : e.term = term) :
    (t.raft q).log.take (index + 1) = (s.raft p).log ++ [⟨term, command⟩] := by
  obtain ⟨u, taken, tail⟩ := run_first reached
  have parts := along_append met first
  have sound := (along_cons taken).mp parts.2
  obtain ⟨m, led⟩ := led_of_run parts.1 first
  obtain ⟨m₁, -, led₁⟩ := step_led False (step_cases taken).2 led sound.1 False.elim
  obtain ⟨m₂, below, led₂⟩ := led₁.later sound.2 tail
  have log : (u.raft p).log = (s.raft p).log ++ [⟨term, command⟩] ∧ index = (s.raft p).log.length := by
    cases (step_cases taken).2 with
    | putCommand =>
      by_cases leader : (s.raft p).electionState = .leader
      · simp only [putCommand, leader, ne_eq, not_true_eq_false, if_false, Prod.mk.injEq,
          Int.natCast_inj, and_true] at answer
        simp [putCommand, leader, answer]
      · simp [putCommand, leader] at answer
    | crash a panics => exact panics.elim
  have traced : Traced Logs.term _ m₂.reign (u.raft p).log :=
    (led₁.refines.log p ▸ led₁.refines.coherent.traced p).extend below.reign
  have traced' := led₂.refines.log q ▸ led₂.refines.coherent.traced q
  have put : (u.raft p).log[index]? = some ⟨term, command⟩ := by simp [log]
  rw [traced'.matching traced there put same, log.1]
  exact List.take_of_length_le (by simp [log.2])

/-- The command of a new leader arrives at another peer, at the index that it was given. -/
theorem first_command_index : ∃ s t : Cluster 3 Nat,
    run step (newCluster 3 Nat) (elect 0 1 0) = some s ∧
    run step s (.putCommand 0 7 :: round 0 ++ [.encode 0, .appendEntries 0]) = some t ∧
    (putCommand (s.raft 0) 7).2 = (1, 1, true) ∧
    (t.raft 1).log.take 2 = (s.raft 0).log ++ [⟨1, 7⟩] :=
  ⟨_, _, rfl, rfl, by decide,
    put_command_index (elect 0 1 0) (round 0 ++ [.encode 0, .appendEntries 0]) _ _ 0 7 (by decide)
      rfl rfl 1 1 (by decide) 1 ⟨1, 7⟩ (by decide) rfl⟩

end DistSys.Consensus
