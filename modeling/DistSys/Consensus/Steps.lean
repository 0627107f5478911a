import DistSys.Consensus.Cluster

/-! What a step can do, said once: one case for each way a step ends, with everything that
was tested on the way and the state it leaves. The invariants are proved from these cases. -/
namespace DistSys.Consensus

open Function (update)

variable {n : Nat} {Command : Type}

/-- The sections, apart from `applyCommit`, that index out of range. -/
def Panics (c : Cluster n Command) : Action n Command → Prop
  | .requestVote e v => ∃ el, c.elections[e]? = some el ∧ el.calls v = .requested ∧
      requestVote (c.raft v) el.args = none
  | .broadcast p => ∃ i : Fin n, c.main p = .broadcast i ∧ i ≠ p ∧
      buildAppendEntries p (c.raft p) i = none
  | .appendReply k => ∃ call reply, c.appends[k]? = some call ∧ call.rpc = .replied reply ∧
      processAppendEntriesReply call.args.leaderId (c.raft call.args.leaderId)
        call.server call.args reply call.isHeartbeat = none
  | _ => False

inductive Step (c : Cluster n Command) : Action n Command → Cluster n Command → Prop where
  | electionTimeout (p : Fin n) (idle : c.main p = .select) :
      Step c (.electionTimeout p) { c with elects := update c.elects p (c.elects p + 1) }
  | startElect (p : Fin n) (spawned : 0 < c.elects p) :
      Step c (.startElect p) { c with
        raft := update c.raft p (startElect p (c.raft p)).1
        elects := update c.elects p (c.elects p - 1)
        elections := c.elections ++ [newElection (startElect p (c.raft p)).2] }
  | requestVote (e : Nat) (v : Fin n) (el : Election n) (rf : Raft n Command)
      (reply : RequestVoteReply) (found : c.elections[e]? = some el)
      (asked : el.calls v = .requested)
      (handled : requestVote (c.raft v) el.args = some (rf, reply)) :
      Step c (.requestVote e v) { c with
        raft := update c.raft v rf
        elections := c.elections.set e { el with calls := update el.calls v (.replied reply) } }
  | voteReply (e : Nat) (v : Fin n) (el : Election n) (reply : RequestVoteReply)
      (found : c.elections[e]? = some el) (pc : el.pc = .collecting)
      (answered : el.calls v = .replied reply) :
      Step c (.voteReply e v) { c with elections := c.elections.set e (el.receive v reply) }
  | higherTerm (e : Nat) (el : Election n) (term : Nat) (found : c.elections[e]? = some el)
      (pc : el.pc = .higherTerm term) :
      Step c (.higherTerm e) { c with
        raft := update c.raft el.owner ((c.raft el.owner).stepDown term)
        elections := c.elections.set e { el with pc := .returned } }
  | handOff (e : Nat) (el : Election n) (found : c.elections[e]? = some el) (pc : el.pc = .won)
      (idle : c.main el.owner = .select) :
      Step c (.handOff e) { c with
        main := update c.main el.owner (.beLeader el.args.term)
        elections := c.elections.set e { el with pc := .returned } }
  | receiveHb (p : Fin n) (idle : c.main p = .select) (waiting : 0 < c.receivedHb p) :
      Step c (.receiveHb p) { c with
        main := update c.main p .receivedHb
        receivedHb := update c.receivedHb p (c.receivedHb p - 1) }
  | loseElection (p : Fin n) (lost : Nat) (el : Election n) (at_hb : c.main p = .receivedHb)
      (candidate : (c.raft p).electionState = .candidate) (found : c.elections[lost]? = some el)
      (owner : el.owner = p) (pc : el.pc = .collecting) :
      Step c (.heartbeat p lost) { c with
        raft := update c.raft p (loseElection (c.raft p))
        main := update c.main p .select
        elections := c.elections.set lost { el with pc := .returned } }
  | ignoreHb (p : Fin n) (lost : Nat) (at_hb : c.main p = .receivedHb)
      (other : (c.raft p).electionState ≠ .candidate) :
      Step c (.heartbeat p lost) { c with main := update c.main p .select }
  | becomeLeader (p : Fin n) (won : Nat) (received : c.main p = .beLeader won) :
      Step c (.becomeLeader p) { c with
        raft := update c.raft p (becomeLeader (c.raft p))
        main := update c.main p .checkLeader }
  | startRound (p : Fin n) (at_check : c.main p = .checkLeader)
      (leader : (c.raft p).electionState = .leader) :
      Step c (.checkLeader p) { c with main := update c.main p (.broadcast 0) }
  | stopAppend (p : Fin n) (at_check : c.main p = .checkLeader)
      (other : (c.raft p).electionState ≠ .leader) :
      Step c (.checkLeader p) { c with main := update c.main p .select }
  | skipSelf (p : Fin n) (at_self : c.main p = .broadcast p) :
      Step c (.broadcast p) { c with main := update c.main p (.broadcast (p + 1)) }
  | send (p i : Fin n) (args : AppendEntriesArgs n Command) (isHeartbeat : Bool)
      (at_peer : c.main p = .broadcast i) (other : i ≠ p)
      (built : buildAppendEntries p (c.raft p) i = some (args, isHeartbeat)) :
      Step c (.broadcast p) { c with
        main := update c.main p (.broadcast (i + 1))
        appends := c.appends ++ [⟨i, args, isHeartbeat, .idle⟩] }
  | endRound (p : Fin n) (i : Nat) (at_end : c.main p = .broadcast i) (behind : n ≤ i) :
      Step c (.broadcast p) { c with main := update c.main p .checkLeader }
  | encode (k : Nat) (call : AppendCall n Command) (found : c.appends[k]? = some call)
      (unsent : call.rpc = .idle) :
      Step c (.encode k) { c with appends := c.appends.set k { call with rpc := .requested } }
  | appendEntries (k : Nat) (call : AppendCall n Command) (found : c.appends[k]? = some call)
      (asked : call.rpc = .requested)
      (room : (appendEntries (c.raft call.server) call.args).receivedHb = true →
        c.receivedHb call.server < n) :
      Step c (.appendEntries k) { c with
        raft := update c.raft call.server (appendEntries (c.raft call.server) call.args).rf
        receivedHb := update c.receivedHb call.server (c.receivedHb call.server +
          if (appendEntries (c.raft call.server) call.args).receivedHb then 1 else 0)
        applies := update c.applies call.server (c.applies call.server +
          if (appendEntries (c.raft call.server) call.args).applyCommit then 1 else 0)
        appends := (c.appends.set k { call with
          rpc := .replied (appendEntries (c.raft call.server) call.args).reply }).map
          (AppendCall.refresh call.server (appendEntries (c.raft call.server) call.args).rf.log) }
  | appendReply (k : Nat) (call : AppendCall n Command) (reply : AppendEntriesReply)
      (rf : Raft n Command) (applied : Bool) (found : c.appends[k]? = some call)
      (answered : call.rpc = .replied reply)
      (processed : processAppendEntriesReply call.args.leaderId (c.raft call.args.leaderId)
        call.server call.args reply call.isHeartbeat = some (rf, applied)) :
      Step c (.appendReply k) { c with
        raft := update c.raft call.args.leaderId rf
        applies := update c.applies call.args.leaderId (c.applies call.args.leaderId +
          if applied then 1 else 0)
        appends := c.appends.set k { call with rpc := .returned reply } }
  | putCommand (p : Fin n) (command : Command) :
      Step c (.putCommand p command) { c with
        raft := update c.raft p (putCommand (c.raft p) command).1
        appends := c.appends.map (AppendCall.refresh p (putCommand (c.raft p) command).1.log) }
  | applyCommit (p : Fin n) (rf : Raft n Command) (spawned : 0 < c.applies p)
      (done : (applyCommit (c.raft p)).2 = some rf) :
      Step c (.applyCommit p) { c with
        applyCh := update c.applyCh p (c.applyCh p ++ (applyCommit (c.raft p)).1)
        raft := update c.raft p rf
        applies := update c.applies p (c.applies p - 1) }
  | crash (a : Action n Command) (panics : Panics c a) : Step c a c.crash
  | applyCrash (p : Fin n) (spawned : 0 < c.applies p) (panics : (applyCommit (c.raft p)).2 = none) :
      Step c (.applyCommit p) { c with
        applyCh := update c.applyCh p (c.applyCh p ++ (applyCommit (c.raft p)).1)
        crashed := true }

variable {c c' : Cluster n Command} {a : Action n Command}

theorem step_broadcast (p : Fin n) (i : Nat) (at_i : c.main p = .broadcast i) :
    Step c (.broadcast p) (c.broadcast p i) := by
  unfold Cluster.broadcast
  split
  · rename_i inside
    split
    · rename_i self
      subst self
      exact .skipSelf p at_i
    · rename_i other
      have apart : (⟨i, inside⟩ : Fin n) ≠ p := fun eq => other (congrArg Fin.val eq)
      split
      · rename_i panics
        exact .crash _ ⟨⟨i, inside⟩, at_i, apart, panics⟩
      · rename_i args isHeartbeat built
        exact .send p ⟨i, inside⟩ args isHeartbeat at_i apart built
  · rename_i behind
    exact .endRound p i at_i (Nat.le_of_not_lt behind)

theorem step_cases (taken : step c a = some c') :
    c.crashed = false ∧ Step c a c' := by
  unfold step at taken
  split at taken
  · contradiction
  rename_i alive
  refine ⟨by simpa using alive, ?_⟩
  cases a with
  | electionTimeout p =>
    simp only [Option.ite_none_right_eq_some, Option.some.injEq] at taken
    obtain ⟨idle, rfl⟩ := taken
    exact .electionTimeout p idle
  | startElect p =>
    simp only [Option.ite_none_right_eq_some, Option.some.injEq] at taken
    obtain ⟨spawned, rfl⟩ := taken
    exact .startElect p spawned
  | requestVote e v =>
    dsimp only at taken
    split at taken
    · contradiction
    rename_i el found
    split at taken
    · rename_i asked
      split at taken
      · rename_i panics
        cases Option.some.inj taken
        exact .crash _ ⟨el, found, asked, panics⟩
      · rename_i rf reply handled
        cases Option.some.inj taken
        exact .requestVote e v el rf reply found asked handled
    · contradiction
  | voteReply e v =>
    dsimp only at taken
    split at taken
    · contradiction
    rename_i el found
    split at taken
    · rename_i reply pc answered
      cases Option.some.inj taken
      exact .voteReply e v el reply found pc answered
    · contradiction
  | higherTerm e =>
    dsimp only at taken
    split at taken
    · contradiction
    rename_i el found
    split at taken
    · rename_i term pc
      cases Option.some.inj taken
      exact .higherTerm e el term found pc
    · contradiction
  | handOff e =>
    dsimp only at taken
    split at taken
    · contradiction
    rename_i el found
    simp only [Option.ite_none_right_eq_some, Option.some.injEq] at taken
    obtain ⟨⟨pc, idle⟩, rfl⟩ := taken
    exact .handOff e el found pc idle
  | receiveHb p =>
    simp only [Option.ite_none_right_eq_some, Option.some.injEq] at taken
    obtain ⟨⟨idle, waiting⟩, rfl⟩ := taken
    exact .receiveHb p idle waiting
  | heartbeat p lost =>
    dsimp only at taken
    split at taken
    · rename_i at_hb
      split at taken
      · rename_i candidate
        split at taken
        · contradiction
        rename_i el found
        simp only [Option.ite_none_right_eq_some, Option.some.injEq] at taken
        obtain ⟨⟨owner, pc⟩, rfl⟩ := taken
        exact .loseElection p lost el at_hb candidate found owner pc
      · rename_i other
        cases Option.some.inj taken
        exact .ignoreHb p lost at_hb other
    · contradiction
  | becomeLeader p =>
    dsimp only at taken
    split at taken
    · rename_i won received
      cases Option.some.inj taken
      exact .becomeLeader p won received
    · contradiction
  | checkLeader p =>
    dsimp only at taken
    split at taken
    · rename_i at_check
      split at taken
      · rename_i leader
        cases Option.some.inj taken
        exact .startRound p at_check leader
      · rename_i other
        cases Option.some.inj taken
        exact .stopAppend p at_check other
    · contradiction
  | broadcast p =>
    dsimp only at taken
    split at taken
    · rename_i i at_i
      cases Option.some.inj taken
      exact step_broadcast p i at_i
    · contradiction
  | encode k =>
    dsimp only at taken
    split at taken
    · contradiction
    rename_i call found
    simp only [Option.ite_none_right_eq_some, Option.some.injEq] at taken
    obtain ⟨unsent, rfl⟩ := taken
    exact .encode k call found unsent
  | appendEntries k =>
    dsimp only at taken
    split at taken
    · contradiction
    rename_i call found
    split at taken
    · rename_i asked
      simp only [Cluster.handleAppend, Option.ite_none_left_eq_some, Option.some.injEq] at taken
      obtain ⟨room, rfl⟩ := taken
      exact .appendEntries k call found asked (fun hb => Nat.lt_of_not_le fun full => room ⟨hb, full⟩)
    · contradiction
  | appendReply k =>
    dsimp only at taken
    split at taken
    · contradiction
    rename_i call found
    split at taken
    · rename_i reply answered
      cases Option.some.inj taken
      simp only [Cluster.handleReply]
      split
      · rename_i panics
        exact .crash _ ⟨call, reply, found, answered, panics⟩
      · rename_i rf applied processed
        exact .appendReply k call reply rf applied found answered processed
    · contradiction
  | putCommand p command =>
    cases Option.some.inj taken
    exact .putCommand p command
  | applyCommit p =>
    simp only [Option.ite_none_right_eq_some] at taken
    obtain ⟨spawned, taken⟩ := taken
    split at taken
    · rename_i panics
      cases Option.some.inj taken
      exact .applyCrash p spawned panics
    · rename_i rf done
      cases Option.some.inj taken
      exact .applyCommit p rf spawned done

/-- A section changes the record of one peer: what it does to that record, and what holds of
an untouched one, holds of every peer. -/
theorem update_rel {p : Fin n} {rf : Raft n Command}
    (rel : Raft n Command → Raft n Command → Prop) (refl : ∀ rf, rel rf rf)
    (here : rel (c.raft p) rf) (q : Fin n) : rel (c.raft q) (update c.raft p rf q) := by
  by_cases same : q = p
  · subst same
    rw [Function.update_self]
    exact here
  · rw [Function.update_of_ne same]
    exact refl _

/-- What a step can do to the record of one peer. -/
inductive PeerStep (c : Cluster n Command) (a : Action n Command) (q : Fin n) :
    Raft n Command → Prop where
  | kept (idle : (c.raft q).electionState = .leader → ∀ command, a ≠ .putCommand q command) :
      PeerStep c a q (c.raft q)
  | stands (act : a = .startElect q) : PeerStep c a q (startElect q (c.raft q)).1
  -- with a vote or without one
  | adopted (e : Nat) (el : Election n) (votedFor : Option (Fin n)) (act : a = .requestVote e q)
      (found : c.elections[e]? = some el) :
      PeerStep c a q { (c.raft q).adopt el.args.term with votedFor := votedFor }
  | steppedDown (e : Nat) (el : Election n) (term : Nat) (act : a = .higherTerm e)
      (found : c.elections[e]? = some el) (pc : el.pc = .higherTerm term) (owner : el.owner = q) :
      PeerStep c a q ((c.raft q).stepDown term)
  | lost (candidate : (c.raft q).electionState = .candidate) :
      PeerStep c a q (loseElection (c.raft q))
  | crowned (won : Nat) (act : a = .becomeLeader q) (received : c.main q = .beLeader won) :
      PeerStep c a q (becomeLeader (c.raft q))
  | followed (k : Nat) (call : AppendCall n Command) (act : a = .appendEntries k)
      (found : c.appends[k]? = some call) (server : call.server = q) :
      PeerStep c a q ((c.raft q).follow call.args.term)
  | stored (k : Nat) (call : AppendCall n Command) (act : a = .appendEntries k)
      (found : c.appends[k]? = some call) (server : call.server = q)
      (le : (c.raft q).currentTerm ≤ call.args.term)
      (matches_prev : prevMatches (c.raft q).log call.args = true) :
      PeerStep c a q { (c.raft q).follow call.args.term with
        log := storeEntries (c.raft q).log call.args
        commitIndex := if (c.raft q).commitIndex < call.args.leaderCommit then
          min ((storeEntries (c.raft q).log call.args).length - 1) call.args.leaderCommit
          else (c.raft q).commitIndex }
  | answered (k : Nat) (call : AppendCall n Command) (reply : AppendEntriesReply)
      (rf : Raft n Command) (applied : Bool) (act : a = .appendReply k)
      (found : c.appends[k]? = some call) (replied : call.rpc = .replied reply)
      (sender : call.args.leaderId = q)
      (processed : processAppendEntriesReply q (c.raft q) call.server call.args reply
        call.isHeartbeat = some (rf, applied)) : PeerStep c a q rf
  | appended (command : Command) (act : a = .putCommand q command)
      (leader : (c.raft q).electionState = .leader) : PeerStep c a q
        { c.raft q with log := (c.raft q).log ++ [⟨(c.raft q).currentTerm, command⟩] }
  | applied (act : a = .applyCommit q) :
      PeerStep c a q { c.raft q with lastApplied := (c.raft q).commitIndex }

theorem step_peer (step : Step c a c') (q : Fin n) : PeerStep c a q (c'.raft q) := by
  -- a section of `p`: what it does to `p`, and that no other peer takes a command in it
  have section_of : ∀ {p : Fin n} {rf : Raft n Command},
      (q = p → PeerStep c a q rf) → (q ≠ p → ∀ command, a ≠ .putCommand q command) →
      PeerStep c a q (update c.raft p rf q) := by
    intro p rf here idle
    by_cases same : q = p
    · rw [same, Function.update_self, ← same]
      exact here same
    · rw [Function.update_of_ne same]
      exact .kept fun _ => idle same
  cases step with
  | startElect p spawned => exact section_of (by rintro rfl; exact .stands rfl) (fun _ => nofun)
  | requestVote e v el rf reply found asked handled =>
    refine section_of ?_ (fun _ => nofun)
    rintro rfl
    rcases requestVote_cases handled with ⟨_, rfl, _⟩ | ⟨_, rfl, _⟩ | ⟨_, rfl, _⟩
    · exact .kept (fun _ => nofun)
    · exact .adopted e el _ rfl found
    · exact .adopted e el _ rfl found
  | higherTerm e el term found pc =>
    exact section_of (by rintro rfl; exact .steppedDown e el term rfl found pc rfl) (fun _ => nofun)
  | loseElection p lost el at_hb candidate found owner pc =>
    exact section_of (by rintro rfl; exact .lost candidate) (fun _ => nofun)
  | becomeLeader p won received =>
    exact section_of (by rintro rfl; exact .crowned won rfl received) (fun _ => nofun)
  | appendEntries k call found asked room =>
    refine section_of ?_ (fun _ => nofun)
    rintro rfl
    rcases appendEntries_cases (c.raft call.server) call.args with
      ⟨_, eq⟩ | ⟨_, _, eq⟩ | ⟨le, matches_prev, eq⟩ <;> rw [eq]
    · exact .kept (fun _ => nofun)
    · exact .followed k call rfl found rfl
    · exact .stored k call rfl found rfl le matches_prev
  | appendReply k call reply rf applied found answered processed =>
    refine section_of ?_ (fun _ => nofun)
    rintro rfl
    exact .answered k call reply rf applied rfl found answered rfl processed
  | putCommand p command =>
    refine section_of ?_ ?_
    · rintro rfl
      rcases putCommand_cases (c.raft q) command with ⟨other, eq⟩ | ⟨leader, eq⟩ <;> rw [eq]
      · exact .kept (fun now => absurd now other)
      · exact .appended command rfl leader
    · rintro apart command' ⟨⟩
      exact apart rfl
  | applyCommit p rf spawned done =>
    exact section_of (by rintro rfl; exact applyCommit_done done ▸ .applied rfl) (fun _ => nofun)
  | crash a panics =>
    refine .kept ?_
    rintro _ command rfl
    exact panics.elim
  | _ => exact .kept (fun _ => nofun)

/-- A peer that is leader after a step was leader of the same term before it, unless the
step is the one of `mainRoutine` that makes it leader. -/
theorem step_leader (step : Step c a c') {q : Fin n}
    (leader : (c'.raft q).electionState = .leader) :
    (c'.raft q).currentTerm = (c.raft q).currentTerm ∧
      ((c.raft q).electionState = .leader ∨
        (a = .becomeLeader q ∧ ∃ won, c.main q = .beLeader won ∧
          c'.raft q = becomeLeader (c.raft q))) := by
  have change := step_peer step q
  generalize c'.raft q = rf at leader change ⊢
  cases change with
  | stands | steppedDown | lost => cases leader
  | adopted e el votedFor act found =>
    have before := adopt_leader leader
    exact ⟨before.2, .inl before.1⟩
  | crowned won act received => exact ⟨rfl, .inr ⟨act, won, received, rfl⟩⟩
  | followed k call act found server | stored k call act found server le matches_prev =>
    have before := follow_leader leader
    exact ⟨before.2, .inl before.1⟩
  | answered k call reply rf applied act found replied sender processed =>
    rw [processAppendEntriesReply_eq processed] at leader ⊢
    exact ⟨rfl, .inl leader⟩
  | kept | appended | applied => exact ⟨rfl, .inl leader⟩

/-- A peer that is candidate after a step was one before it, unless the step starts an
election. -/
theorem step_candidate (step : Step c a c') {q : Fin n}
    (now : (c'.raft q).electionState = .candidate) :
    (c.raft q).electionState = .candidate ∨ a = .startElect q := by
  have change := step_peer step q
  generalize c'.raft q = rf at now change
  cases change with
  | stands act => exact .inr act
  | adopted e el votedFor act found => exact .inl (adopt_candidate now)
  | steppedDown | crowned => cases now
  | lost candidate => exact .inl candidate
  | followed k call act found server | stored k call act found server le matches_prev =>
    exact .inl (follow_candidate now)
  | answered k call reply rf applied act found replied sender processed =>
    have state := congrArg Raft.electionState (processAppendEntriesReply_eq processed)
    exact .inl (state.symm.trans now)
  | kept | appended | applied => exact .inl now

/-- What a step can do to the log, the commit index and the match indices of one peer. -/
inductive Replica (c : Cluster n Command) (a : Action n Command) (q : Fin n) (rf : Raft n Command) :
    Prop where
  | kept (log : rf.log = (c.raft q).log) (commit : rf.commitIndex = (c.raft q).commitIndex)
      (matched : rf.matchIndex = (c.raft q).matchIndex)
      (idle : (c.raft q).electionState = .leader → ∀ command, a ≠ .putCommand q command)
  | crowned (act : a = .becomeLeader q) (eq : rf = becomeLeader (c.raft q))
  | appended (command : Command) (act : a = .putCommand q command)
      (leader : (c.raft q).electionState = .leader)
      (eq : rf = { c.raft q with log := (c.raft q).log ++ [⟨(c.raft q).currentTerm, command⟩] })
  | stored (k : Nat) (call : AppendCall n Command) (act : a = .appendEntries k)
      (found : c.appends[k]? = some call) (server : call.server = q)
      (le : (c.raft q).currentTerm ≤ call.args.term)
      (matches_prev : prevMatches (c.raft q).log call.args = true)
      (eq : rf = { (c.raft q).follow call.args.term with
        log := storeEntries (c.raft q).log call.args
        commitIndex := if (c.raft q).commitIndex < call.args.leaderCommit then
          min ((storeEntries (c.raft q).log call.args).length - 1) call.args.leaderCommit
          else (c.raft q).commitIndex })
  | answered (k : Nat) (call : AppendCall n Command) (reply : AppendEntriesReply) (applied : Bool)
      (act : a = .appendReply k) (found : c.appends[k]? = some call)
      (replied : call.rpc = .replied reply) (sender : call.args.leaderId = q)
      (processed : processAppendEntriesReply q (c.raft q) call.server call.args reply
        call.isHeartbeat = some (rf, applied))

theorem step_replica (step : Step c a c') (q : Fin n) : Replica c a q (c'.raft q) := by
  have change := step_peer step q
  generalize c'.raft q = rf at change ⊢
  cases change with
  | kept idle => exact .kept rfl rfl rfl idle
  | stands act => exact .kept rfl rfl rfl (fun _ => by rintro _ rfl; cases act)
  | adopted e el votedFor act found =>
    exact .kept (adopt_log _ _) (adopt_commitIndex _ _) (adopt_matchIndex _ _)
      (fun _ => by rintro _ rfl; cases act)
  | steppedDown e el term act found pc owner =>
    exact .kept rfl rfl rfl (fun _ => by rintro _ rfl; cases act)
  | lost candidate => exact .kept rfl rfl rfl (fun now => by rw [candidate] at now; cases now)
  | crowned won act received => exact .crowned act rfl
  | followed k call act found server =>
    exact .kept (follow_log _ _) (follow_commitIndex _ _) (follow_matchIndex _ _)
      (fun _ => by rintro _ rfl; cases act)
  | stored k call act found server le matches_prev =>
    exact .stored k call act found server le matches_prev rfl
  | answered k call reply rf applied act found replied sender processed =>
    exact .answered k call reply applied act found replied sender processed
  | appended command act leader => exact .appended command act leader rfl
  | applied act => exact .kept rfl rfl rfl (fun _ => by rintro _ rfl; cases act)

/-- The same message, up to what a slice shows. -/
structure AppendCall.Like (call old : AppendCall n Command) : Prop where
  server : call.server = old.server
  args : call.args = { old.args with entries := call.args.entries }
  length : call.args.entries.length = old.args.entries.length

theorem AppendCall.refresh_like (p : Fin n) (log : List (Logs Command)) (call : AppendCall n Command) :
    (call.refresh p log).Like call := by
  unfold AppendCall.refresh
  split
  · exact ⟨rfl, rfl, List.length_mapIdx⟩
  · exact ⟨rfl, rfl, rfl⟩

theorem AppendCall.Like.trans {a b d : AppendCall n Command} (first : a.Like b) (second : b.Like d) :
    a.Like d :=
  ⟨first.server.trans second.server, by rw [first.args, second.args], first.length.trans second.length⟩

theorem step_calls (step : Step c a c')
    {call : AppendCall n Command} (member : call ∈ c'.appends) :
    (∃ old ∈ c.appends, call.Like old) ∨
    ∃ p i : Fin n, c.main p = .broadcast i ∧ i ≠ p ∧ call.server = i ∧
      buildAppendEntries p (c.raft p) i = some (call.args, call.isHeartbeat) := by
  have set : ∀ {k : Nat} {old new d : AppendCall n Command}, c.appends[k]? = some old →
      d ∈ c.appends.set k new → new.Like old → ∃ old ∈ c.appends, d.Like old := by
    intro k old new d found there same
    rcases List.mem_or_eq_of_mem_set there with before | rfl
    · exact ⟨d, before, rfl, rfl, rfl⟩
    · exact ⟨old, List.mem_of_getElem? found, same⟩
  cases step with
  | send p i args isHeartbeat at_peer other built =>
    rcases List.mem_append.mp member with before | new
    · exact .inl ⟨call, before, rfl, rfl, rfl⟩
    · cases List.mem_singleton.mp new
      exact .inr ⟨p, i, at_peer, other, rfl, built⟩
  | encode k call' found unsent => exact .inl (set found member ⟨rfl, rfl, rfl⟩)
  | appendEntries k call' found asked room =>
    obtain ⟨d, there, rfl⟩ := List.mem_map.mp member
    obtain ⟨old, before, same⟩ := set found there ⟨rfl, rfl, rfl⟩
    exact .inl ⟨old, before, (d.refresh_like _ _).trans same⟩
  | appendReply k call' reply rf applied found answered processed =>
    exact .inl (set found member ⟨rfl, rfl, rfl⟩)
  | putCommand p command =>
    obtain ⟨old, before, rfl⟩ := List.mem_map.mp member
    exact .inl ⟨old, before, old.refresh_like _ _⟩
  | _ => exact .inl ⟨call, member, rfl, rfl, rfl⟩

theorem step_applyCh (step : Step c a c')
    {q : Fin n} {x : ApplyCommand Command} (sent : x ∈ c'.applyCh q) :
    x ∈ c.applyCh q ∨ x ∈ (applyCommit (c.raft q)).1 := by
  have grown : ∀ {p : Fin n}, x ∈ update c.applyCh p (c.applyCh p ++ (applyCommit (c.raft p)).1) q →
      x ∈ c.applyCh q ∨ x ∈ (applyCommit (c.raft q)).1 := by
    intro p there
    by_cases here : q = p
    · subst here
      simpa using there
    · exact .inl (by simpa [here] using there)
  cases step with
  | applyCommit | applyCrash => exact grown sent
  | _ => exact .inl sent

/-- `mainRoutine` holds a value from `beLeader` only if an election of its own that has
won has just sent it. -/
theorem step_beLeader (step : Step c a c')
    {q : Fin n} {t : Nat} (received : c'.main q = .beLeader t) :
    c.main q = .beLeader t ∨ ∃ el ∈ c.elections, el.pc = .won ∧ el.owner = q ∧ el.args.term = t := by
  have elsewhere : ∀ {p : Fin n} {pc : MainPc}, update c.main p pc q = .beLeader t →
      pc ≠ .beLeader t → c.main q = .beLeader t := by
    intro p pc after other
    by_cases same : q = p
    · subst same
      exact (other (by simpa using after)).elim
    · simpa [same] using after
  cases step with
  | handOff e el found pc idle =>
    by_cases same : q = el.owner
    · subst same
      have term : el.args.term = t := by simpa using received
      exact .inr ⟨el, List.mem_of_getElem? found, pc, rfl, term⟩
    · exact .inl (by simpa [same] using received)
  | receiveHb | loseElection | ignoreHb | becomeLeader | startRound | stopAppend | skipSelf | send
  | endRound => exact .inl (elsewhere received (by intro eq; cases eq))
  | _ => exact .inl received

end DistSys.Consensus
