import DistSys.Lib.Ballots
import Mathlib.Data.List.FinRange

/-! One Raft peer: its record and the sections of its code that run under `mux`.
Every function below is the body of one such section, so it is one atomic step.
`peers` and `me` are fixed by `NewPeer`: here they are the cluster size `n` and the
argument `me`. Go's `int` counters are natural numbers, and `none` is an index out of
range, which stops the process. -/
namespace DistSys.Consensus

open DistSys.Lib

variable {n : Nat} {Command : Type}

inductive ElectionState where
  | follower | leader | candidate
  deriving DecidableEq, Repr

structure Logs (Command : Type) where
  term : Nat
  command : Command
  deriving DecidableEq, Repr

structure ApplyCommand (Command : Type) where
  index : Nat
  command : Command
  deriving DecidableEq, Repr

structure RequestVoteArgs (n : Nat) where
  term : Nat
  candidateId : Fin n
  lastLogIndex : Nat
  lastLogTerm : Nat
  deriving DecidableEq, Repr

structure RequestVoteReply where
  term : Nat
  voteGranted : Bool
  deriving DecidableEq, Repr

structure AppendEntriesArgs (n : Nat) (Command : Type) where
  term : Nat
  leaderId : Fin n
  prevLogIndex : Nat
  prevLogTerm : Nat
  entries : List (Logs Command)
  leaderCommit : Nat
  deriving DecidableEq, Repr

structure AppendEntriesReply where
  term : Nat
  success : Bool
  deriving DecidableEq, Repr

/-- The fields of the Go object that its sections read or write. A `votedFor` of -1 is
`none`; `nextIndex` and `matchIndex` are nil until the peer first becomes leader. -/
structure Raft (n : Nat) (Command : Type) where
  currentTerm : Nat
  votedFor : Option (Fin n)
  electionState : ElectionState
  log : List (Logs Command)
  commitIndex : Nat
  lastApplied : Nat
  nextIndex : List Nat
  matchIndex : List Nat
  deriving DecidableEq, Repr

/-- `make([]Logs, 1)` holds the zero entry: term 0 and the nil command. -/
def newPeer [Inhabited Command] : Raft n Command where
  currentTerm := 0
  votedFor := none
  electionState := .follower
  log := [⟨0, default⟩]
  commitIndex := 0
  lastApplied := 0
  nextIndex := []
  matchIndex := []

/-- The three assignments that `RequestVote` and the reply branch of `startElect` share. -/
def Raft.stepDown (rf : Raft n Command) (term : Nat) : Raft n Command :=
  { rf with currentTerm := term, votedFor := none, electionState := .follower }

def Raft.adopt (rf : Raft n Command) (term : Nat) : Raft n Command :=
  if rf.currentTerm < term then rf.stepDown term else rf

/-- `AppendEntries` adopts a higher term as well, but leaves `votedFor` as it is. -/
def Raft.follow (rf : Raft n Command) (term : Nat) : Raft n Command :=
  if rf.currentTerm < term then { rf with currentTerm := term, electionState := .follower } else rf

section Terms

variable (rf : Raft n Command) (term : Nat)

@[simp] theorem adopt_log : (rf.adopt term).log = rf.log := by
  unfold Raft.adopt
  split <;> rfl

@[simp] theorem adopt_commitIndex : (rf.adopt term).commitIndex = rf.commitIndex := by
  unfold Raft.adopt
  split <;> rfl

@[simp] theorem adopt_term : (rf.adopt term).currentTerm = max rf.currentTerm term := by
  unfold Raft.adopt
  split
  · simp only [Raft.stepDown]
    omega
  · omega

@[simp] theorem adopt_lastApplied : (rf.adopt term).lastApplied = rf.lastApplied := by
  unfold Raft.adopt
  split <;> rfl

@[simp] theorem adopt_nextIndex : (rf.adopt term).nextIndex = rf.nextIndex := by
  unfold Raft.adopt
  split <;> rfl

@[simp] theorem adopt_matchIndex : (rf.adopt term).matchIndex = rf.matchIndex := by
  unfold Raft.adopt
  split <;> rfl

@[simp] theorem follow_log : (rf.follow term).log = rf.log := by
  unfold Raft.follow
  split <;> rfl

@[simp] theorem follow_commitIndex : (rf.follow term).commitIndex = rf.commitIndex := by
  unfold Raft.follow
  split <;> rfl

@[simp] theorem follow_lastApplied : (rf.follow term).lastApplied = rf.lastApplied := by
  unfold Raft.follow
  split <;> rfl

@[simp] theorem follow_votedFor : (rf.follow term).votedFor = rf.votedFor := by
  unfold Raft.follow
  split <;> rfl

@[simp] theorem follow_nextIndex : (rf.follow term).nextIndex = rf.nextIndex := by
  unfold Raft.follow
  split <;> rfl

@[simp] theorem follow_matchIndex : (rf.follow term).matchIndex = rf.matchIndex := by
  unfold Raft.follow
  split <;> rfl

@[simp] theorem follow_term : (rf.follow term).currentTerm = max rf.currentTerm term := by
  unfold Raft.follow
  split
  · simp only
    omega
  · omega

variable {rf term}

theorem adopt_leader (leader : (rf.adopt term).electionState = .leader) :
    rf.electionState = .leader ∧ (rf.adopt term).currentTerm = rf.currentTerm := by
  unfold Raft.adopt at leader ⊢
  split at leader
  · cases leader
  · rename_i same
    rw [if_neg same]
    exact ⟨leader, rfl⟩

theorem follow_leader (leader : (rf.follow term).electionState = .leader) :
    rf.electionState = .leader ∧ (rf.follow term).currentTerm = rf.currentTerm := by
  unfold Raft.follow at leader ⊢
  split at leader
  · cases leader
  · rename_i same
    rw [if_neg same]
    exact ⟨leader, rfl⟩

theorem adopt_candidate (candidate : (rf.adopt term).electionState = .candidate) :
    rf.electionState = .candidate := by
  unfold Raft.adopt at candidate
  split at candidate
  · cases candidate
  · exact candidate

theorem follow_candidate (candidate : (rf.follow term).electionState = .candidate) :
    rf.electionState = .candidate := by
  unfold Raft.follow at candidate
  split at candidate
  · cases candidate
  · exact candidate

end Terms

/-! ### RequestVote -/

/-- The condition of the last `if` of `RequestVote`, with its `case1` and `case2`. -/
def grantsVote (rf : Raft n Command) (last : Logs Command) (args : RequestVoteArgs n) : Bool :=
  (rf.votedFor = none ∨ rf.votedFor = some args.candidateId) ∧
    (last.term < args.lastLogTerm ∨
      (args.lastLogTerm = last.term ∧ rf.log.length ≤ args.lastLogIndex + 1))

def requestVote (rf : Raft n Command) (args : RequestVoteArgs n) :
    Option (Raft n Command × RequestVoteReply) :=
  if args.term < rf.currentTerm then some (rf, ⟨rf.currentTerm, false⟩)
  else
    match rf.log.getLast? with
    | none => none
    | some last =>
      let adopted := rf.adopt args.term
      if grantsVote adopted last args then
        some ({ adopted with votedFor := some args.candidateId }, ⟨adopted.currentTerm, true⟩)
      -- the reply of a refusal names the term before the call, or none when it is the same
      else some (adopted, ⟨if rf.currentTerm < args.term then rf.currentTerm else 0, false⟩)

theorem requestVote_cases {rf rf' : Raft n Command} {args : RequestVoteArgs n}
    {reply : RequestVoteReply} (handled : requestVote rf args = some (rf', reply)) :
    (args.term < rf.currentTerm ∧ rf' = rf ∧ reply.voteGranted = false) ∨
    (rf.currentTerm ≤ args.term ∧ rf' = rf.adopt args.term ∧ reply.voteGranted = false) ∨
    (rf.currentTerm ≤ args.term ∧ rf' = { rf.adopt args.term with votedFor := some args.candidateId } ∧
      reply = ⟨args.term, true⟩ ∧
      ∃ last, rf.log.getLast? = some last ∧ grantsVote (rf.adopt args.term) last args = true) := by
  unfold requestVote at handled
  split at handled
  · rename_i stale
    cases Option.some.inj handled
    exact .inl ⟨stale, rfl, rfl⟩
  · rename_i fresh
    have le : rf.currentTerm ≤ args.term := Nat.le_of_not_lt fresh
    split at handled
    · contradiction
    · rename_i last found
      dsimp only at handled
      split at handled
      · rename_i grants
        cases Option.some.inj handled
        have term : (rf.adopt args.term).currentTerm = args.term := by
          rw [adopt_term]
          omega
        exact .inr (.inr ⟨le, rfl, by rw [term], last, found, grants⟩)
      · cases Option.some.inj handled
        exact .inr (.inl ⟨le, rfl, rfl⟩)

/-- What a call means for the vote: the term does not go back, a vote in it stands, and a
granted vote is one for the candidate in the candidate's term. -/
theorem requestVote_vote {rf rf' : Raft n Command} {args : RequestVoteArgs n}
    {reply : RequestVoteReply} (handled : requestVote rf args = some (rf', reply)) :
    rf.currentTerm ≤ rf'.currentTerm ∧
    (∀ x, rf'.currentTerm = rf.currentTerm → rf.votedFor = some x → rf'.votedFor = some x) ∧
    (reply.voteGranted = true → rf'.currentTerm = args.term ∧
      rf'.votedFor = some args.candidateId) := by
  rcases requestVote_cases handled with ⟨_, rfl, refused⟩ | ⟨le, rfl, refused⟩ |
    ⟨le, rfl, _, last, _, grants⟩
  · exact ⟨Nat.le_refl _, fun _ _ chosen => chosen, fun granted => by simp [refused] at granted⟩
  · refine ⟨by simp, ?_, fun granted => by simp [refused] at granted⟩
    intro x same chosen
    rw [adopt_term] at same
    have stays : ¬ rf.currentTerm < args.term := by omega
    simpa [Raft.adopt, stays] using chosen
  · refine ⟨by simp, ?_, fun _ => ⟨by simp only [adopt_term]; omega, rfl⟩⟩
    intro x same chosen
    simp only [adopt_term] at same
    have stays : ¬ rf.currentTerm < args.term := by omega
    simp only [Raft.adopt, stays, if_false, grantsVote, chosen, decide_eq_true_eq] at grants
    rcases grants.1 with none | same
    · cases none
    · exact same.symm

/-! ### AppendEntries -/

/-- The loop of `AppendEntries`: how many entries agree, by term alone, with the log
behind `PrevLogIndex`. It ends at the first conflict or at the end of either list. -/
def matchedEntries : List (Logs Command) → List (Logs Command) → Nat
  | e :: entries, l :: log => if e.term = l.term then matchedEntries entries log + 1 else 0
  | _, _ => 0

/-- What a call leaves behind: the record, the reply, whether it sent on `receivedHb`
and whether it started an `applyCommit`. -/
structure AppendResult (n : Nat) (Command : Type) where
  rf : Raft n Command
  reply : AppendEntriesReply
  receivedHb : Bool
  applyCommit : Bool
  deriving DecidableEq, Repr

/-- `log[:rfIdx]` followed by `Entries[argIdx:]`. -/
def storeEntries (log : List (Logs Command)) (args : AppendEntriesArgs n Command) :
    List (Logs Command) :=
  let argIdx := matchedEntries args.entries (log.drop (args.prevLogIndex + 1))
  log.take (args.prevLogIndex + 1 + argIdx) ++ args.entries.drop argIdx

/-- The negation of the test that makes `AppendEntries` return failure. -/
def prevMatches (log : List (Logs Command)) (args : AppendEntriesArgs n Command) : Bool :=
  match log[args.prevLogIndex]? with
  | none => false
  | some e => e.term = args.prevLogTerm

def appendEntries (rf : Raft n Command) (args : AppendEntriesArgs n Command) :
    AppendResult n Command :=
  if args.term < rf.currentTerm then ⟨rf, ⟨rf.currentTerm, false⟩, false, false⟩
  else if prevMatches rf.log args then
    let stored := { rf.follow args.term with log := storeEntries rf.log args }
    if rf.commitIndex < args.leaderCommit then
      ⟨{ stored with commitIndex := min (stored.log.length - 1) args.leaderCommit },
        ⟨rf.currentTerm, true⟩, true, true⟩
    else ⟨stored, ⟨rf.currentTerm, true⟩, true, false⟩
  else ⟨rf.follow args.term, ⟨rf.currentTerm, false⟩, true, false⟩

theorem matchedEntries_le (entries log : List (Logs Command)) :
    matchedEntries entries log ≤ entries.length ∧ matchedEntries entries log ≤ log.length := by
  induction entries generalizing log with
  | nil => simp [matchedEntries]
  | cons e entries ih =>
    cases log with
    | nil => simp [matchedEntries]
    | cons l log =>
      have h := ih log
      unfold matchedEntries
      split
      · exact ⟨Nat.succ_le_succ h.1, Nat.succ_le_succ h.2⟩
      · exact ⟨Nat.zero_le _, Nat.zero_le _⟩

theorem matchedEntries_term {entries log : List (Logs Command)} {i : Nat}
    (passed : i < matchedEntries entries log) :
    ∃ e l, entries[i]? = some e ∧ log[i]? = some l ∧ e.term = l.term := by
  induction entries generalizing log i with
  | nil => simp [matchedEntries] at passed
  | cons e entries ih =>
    cases log with
    | nil => simp [matchedEntries] at passed
    | cons l log =>
      unfold matchedEntries at passed
      split at passed
      · rename_i same
        cases i with
        | zero => exact ⟨e, l, rfl, rfl, same⟩
        | succ i => exact ih (Nat.lt_of_succ_lt_succ passed)
      · exact absurd passed (Nat.not_lt_zero i)

theorem matchedEntries_all {entries log : List (Logs Command)} (there : entries <+: log) :
    matchedEntries entries log = entries.length := by
  obtain ⟨rest, rfl⟩ := there
  induction entries with
  | nil => simp [matchedEntries]
  | cons e entries ih => simp [matchedEntries, ih]

theorem prevMatches_iff {log : List (Logs Command)} {args : AppendEntriesArgs n Command} :
    prevMatches log args = true ↔
      ∃ e, log[args.prevLogIndex]? = some e ∧ e.term = args.prevLogTerm := by
  unfold prevMatches
  split <;> simp_all

theorem storeEntries_length {log : List (Logs Command)} {args : AppendEntriesArgs n Command}
    (found : prevMatches log args = true) :
    (storeEntries log args).length = args.prevLogIndex + 1 + args.entries.length := by
  obtain ⟨e, at_prev, _⟩ := prevMatches_iff.mp found
  have inside := (List.getElem?_eq_some_iff.mp at_prev).1
  have bound := matchedEntries_le args.entries (log.drop (args.prevLogIndex + 1))
  rw [List.length_drop] at bound
  simp only [storeEntries, List.length_append, List.length_take, List.length_drop]
  omega

theorem appendEntries_cases (rf : Raft n Command) (args : AppendEntriesArgs n Command) :
    (args.term < rf.currentTerm ∧
      appendEntries rf args = ⟨rf, ⟨rf.currentTerm, false⟩, false, false⟩) ∨
    (rf.currentTerm ≤ args.term ∧ prevMatches rf.log args = false ∧
      appendEntries rf args = ⟨rf.follow args.term, ⟨rf.currentTerm, false⟩, true, false⟩) ∨
    (rf.currentTerm ≤ args.term ∧ prevMatches rf.log args = true ∧
      appendEntries rf args = ⟨{ rf.follow args.term with
        log := storeEntries rf.log args
        commitIndex := if rf.commitIndex < args.leaderCommit then
          min ((storeEntries rf.log args).length - 1) args.leaderCommit else rf.commitIndex },
        ⟨rf.currentTerm, true⟩, true, decide (rf.commitIndex < args.leaderCommit)⟩) := by
  unfold appendEntries
  by_cases stale : args.term < rf.currentTerm
  · exact .inl ⟨stale, by simp [stale]⟩
  · have le : rf.currentTerm ≤ args.term := Nat.le_of_not_lt stale
    by_cases found : prevMatches rf.log args = true
    · refine .inr (.inr ⟨le, found, ?_⟩)
      by_cases news : rf.commitIndex < args.leaderCommit
      · simp [stale, found, news]
      · simp only [stale, found, news, if_true, if_false, decide_false]
        congr 1
        rw [← follow_commitIndex rf args.term]
    · exact .inr (.inl ⟨le, by simpa using found, by simp [stale, found]⟩)

/-! ### applyCommit -/

/-- Sends for the indices from `i` on; the flag is false when the log ends before
`count` commands are sent. What was sent before that moment has been sent. -/
def sendCommands (log : List (Logs Command)) (i : Nat) : Nat → List (ApplyCommand Command) × Bool
  | 0 => ([], true)
  | count + 1 =>
    match log[i]? with
    | none => ([], false)
    | some e =>
      let rest := sendCommands log (i + 1) count
      (⟨i, e.command⟩ :: rest.1, rest.2)

def applyCommit (rf : Raft n Command) : List (ApplyCommand Command) × Option (Raft n Command) :=
  let sent := sendCommands rf.log (rf.lastApplied + 1) (rf.commitIndex - rf.lastApplied)
  (sent.1, if sent.2 then some { rf with lastApplied := rf.commitIndex } else none)

theorem sendCommands_index (log : List (Logs Command)) (i count : Nat) :
    ∃ sent, (sendCommands log i count).1.map ApplyCommand.index = List.range' i sent ∧
      ((sendCommands log i count).2 = true → sent = count) := by
  induction count generalizing i with
  | zero => exact ⟨0, rfl, fun _ => rfl⟩
  | succ count ih =>
    unfold sendCommands
    split
    · exact ⟨0, rfl, fun none => by cases none⟩
    · obtain ⟨sent, indices, all⟩ := ih (i + 1)
      refine ⟨sent + 1, ?_, fun done => by rw [all done]⟩
      rw [List.map_cons, indices, List.range'_succ]

theorem mem_sendCommands {log : List (Logs Command)} {i count : Nat} {x : ApplyCommand Command}
    (sent : x ∈ (sendCommands log i count).1) :
    x.index < i + count ∧ ∃ e, log[x.index]? = some e ∧ e.command = x.command := by
  induction count generalizing i with
  | zero => cases sent
  | succ count ih =>
    unfold sendCommands at sent
    split at sent
    · cases sent
    · rename_i e at_i
      rcases List.mem_cons.mp sent with rfl | later
      · exact ⟨by dsimp only; omega, e, at_i, rfl⟩
      · obtain ⟨small, there⟩ := ih later
        exact ⟨by omega, there⟩

theorem mem_applyCommit {rf : Raft n Command} {x : ApplyCommand Command}
    (sent : x ∈ (applyCommit rf).1) :
    x.index ≤ rf.commitIndex ∧ ∃ e, rf.log[x.index]? = some e ∧ e.command = x.command := by
  rcases Nat.lt_or_ge rf.lastApplied rf.commitIndex with more | none
  · obtain ⟨small, there⟩ := mem_sendCommands sent
    exact ⟨by omega, there⟩
  · rw [applyCommit, Nat.sub_eq_zero_of_le none] at sent
    cases sent

theorem applyCommit_done {rf rf' : Raft n Command} (done : (applyCommit rf).2 = some rf') :
    rf' = { rf with lastApplied := rf.commitIndex } := by
  simp only [applyCommit, Option.ite_none_right_eq_some, Option.some.injEq] at done
  exact done.2.symm

/-! ### PutCommand -/

def putCommand (rf : Raft n Command) (command : Command) : Raft n Command × Int × Nat × Bool :=
  if rf.electionState ≠ .leader then (rf, -1, rf.currentTerm, false)
  else ({ rf with log := rf.log ++ [⟨rf.currentTerm, command⟩] },
    rf.log.length, rf.currentTerm, true)

theorem putCommand_cases (rf : Raft n Command) (command : Command) :
    (rf.electionState ≠ .leader ∧ (putCommand rf command).1 = rf) ∨
    (rf.electionState = .leader ∧
      (putCommand rf command).1 = { rf with log := rf.log ++ [⟨rf.currentTerm, command⟩] }) := by
  unfold putCommand
  by_cases leader : rf.electionState = .leader
  · exact .inr ⟨leader, by simp [leader]⟩
  · exact .inl ⟨leader, by simp [leader]⟩

/-! ### mainRoutine and startElect -/

/-- The section of `mainRoutine` behind `receivedHb`, once `lostElect` has been sent. -/
def loseElection (rf : Raft n Command) : Raft n Command :=
  { rf with electionState := .follower }

/-- The section of `mainRoutine` behind `beLeader`: it reads neither term nor state. -/
def becomeLeader (rf : Raft n Command) : Raft n Command :=
  { rf with
    nextIndex := List.replicate n rf.log.length
    matchIndex := List.replicate n 0
    electionState := .leader }

/-- The first section of `startElect`, with the arguments it sends to every other peer.
`LastLogIndex` is the length of the log, one more than the index of its last entry. -/
def startElect (me : Fin n) (rf : Raft n Command) : Raft n Command × RequestVoteArgs n :=
  ({ rf with
      electionState := .candidate
      currentTerm := rf.currentTerm + 1
      votedFor := some me },
    { term := rf.currentTerm + 1
      candidateId := me
      lastLogIndex := rf.log.length
      lastLogTerm := (rf.log.getLast?.map Logs.term).getD 0 })

/-! ### startAppendEntries and its replies -/

/-- One iteration of the broadcast loop, for peer `i`. It does not look at
`electionState` again. The entries are what the slice shows at this moment. -/
def buildAppendEntries (me : Fin n) (rf : Raft n Command) (i : Fin n) :
    Option (AppendEntriesArgs n Command × Bool) :=
  match rf.nextIndex[i.val]? with
  | none => none
  | some next =>
    let prev : Option (Nat × Nat) :=
      if 0 < rf.log.length ∧ 0 < next then
        (rf.log[next - 1]?).map fun e => (next - 1, e.term)
      else some (0, 0)
    prev.map fun (prevLogIndex, prevLogTerm) =>
      ({ term := rf.currentTerm
         leaderId := me
         prevLogIndex := prevLogIndex
         prevLogTerm := prevLogTerm
         entries := if next < rf.log.length then rf.log.drop next else []
         leaderCommit := rf.commitIndex },
       decide (¬ next < rf.log.length))

/-- `vote` of the commit loop: this peer and the others whose `matchIndex` reaches. -/
def countReplicas (me : Fin n) (rf : Raft n Command) (entryIdx : Nat) : Option Nat :=
  (((List.finRange n).filter (· ≠ me)).mapM fun p => rf.matchIndex[p.val]?).map
    fun others => 1 + (others.filter (entryIdx ≤ ·)).length

/-- The commit loop over the indices still to be looked at: the first one of the current
term that a majority holds. -/
def findCommit (me : Fin n) (rf : Raft n Command) : List Nat → Option (Option Nat)
  | [] => some none
  | entryIdx :: rest =>
    match rf.log[entryIdx]? with
    | none => none
    | some e =>
      if e.term ≠ rf.currentTerm then findCommit me rf rest
      else
        match countReplicas me rf entryIdx with
        | none => none
        | some vote => if n / 2 < vote then some (some entryIdx) else findCommit me rf rest

theorem countReplicas_spec {me : Fin n} {rf : Raft n Command} {entryIdx vote : Nat}
    (counted : countReplicas me rf entryIdx = some vote) :
    ∃ s : Finset (Fin n), me ∉ s ∧ s.card + 1 = vote ∧
      ∀ v ∈ s, ∃ k, rf.matchIndex[v.val]? = some k ∧ entryIdx ≤ k := by
  simp only [countReplicas, Option.map_eq_some_iff] at counted
  obtain ⟨others, read, rfl⟩ := counted
  obtain ⟨s, count, members⟩ :=
    mapM_count (fun k => entryIdx ≤ k) ((List.nodup_finRange n).filter _) read
  refine ⟨s, ?_, by rw [count, Nat.add_comm], ?_⟩
  · intro there
    have apart := (List.mem_filter.mp (members me there).1).2
    simp at apart
  · intro v there
    obtain ⟨k, at_v, enough⟩ := (members v there).2
    exact ⟨k, at_v, of_decide_eq_true enough⟩

def uncommitted (rf : Raft n Command) : List Nat :=
  List.range' (rf.commitIndex + 1) (rf.log.length - (rf.commitIndex + 1))

theorem findCommit_spec {me : Fin n} {rf : Raft n Command} {indices : List Nat} {entryIdx : Nat}
    (found : findCommit me rf indices = some (some entryIdx)) :
    entryIdx ∈ indices ∧ (∃ e, rf.log[entryIdx]? = some e ∧ e.term = rf.currentTerm) ∧
      ∃ vote, countReplicas me rf entryIdx = some vote ∧ n / 2 < vote := by
  induction indices with
  | nil => cases found
  | cons i rest ih =>
    unfold findCommit at found
    split at found
    · contradiction
    · rename_i e at_i
      split at found
      · have later := ih found
        exact ⟨List.mem_cons_of_mem _ later.1, later.2⟩
      · rename_i current
        split at found
        · contradiction
        · rename_i vote counted
          split at found
          · rename_i enough
            cases Option.some.inj (Option.some.inj found)
            exact ⟨List.mem_cons_self, ⟨e, at_i, not_not.mp current⟩, vote, counted, enough⟩
          · have later := ih found
            exact ⟨List.mem_cons_of_mem _ later.1, later.2⟩

theorem mem_uncommitted {rf : Raft n Command} {i : Nat} :
    i ∈ uncommitted rf ↔ rf.commitIndex < i ∧ i < rf.log.length := by
  simp only [uncommitted, List.mem_range'_1]
  omega

/-- The bookkeeping for `server`. Neither the term of the request or of the reply nor
`electionState` is looked at. -/
def recordReply (rf : Raft n Command) (server : Fin n) (args : AppendEntriesArgs n Command)
    (reply : AppendEntriesReply) (isHeartbeat : Bool) : Option (Raft n Command) :=
  if reply.success then
    if server.val < rf.nextIndex.length ∧ server.val < rf.matchIndex.length then
      some { rf with
        nextIndex := rf.nextIndex.set server (args.prevLogIndex + args.entries.length + 1)
        matchIndex := rf.matchIndex.set server (args.prevLogIndex + args.entries.length) }
    else none
  else
    match rf.nextIndex[server.val]? with
    | none => none
    | some next =>
      if 1 < next ∧ isHeartbeat = false then
        some { rf with nextIndex := rf.nextIndex.set server (next - 1) }
      else some rf

theorem recordReply_eq {rf rf' : Raft n Command} {server : Fin n}
    {args : AppendEntriesArgs n Command} {reply : AppendEntriesReply} {isHeartbeat : Bool}
    (done : recordReply rf server args reply isHeartbeat = some rf') :
    rf' = { rf with nextIndex := rf'.nextIndex, matchIndex := rf'.matchIndex } := by
  unfold recordReply at done
  split at done
  · split at done
    · cases Option.some.inj done
      rfl
    · contradiction
  · split at done
    · contradiction
    · split at done <;> cases Option.some.inj done <;> rfl

/-- The flag says whether an `applyCommit` was started. -/
def processAppendEntriesReply (me : Fin n) (rf : Raft n Command) (server : Fin n)
    (args : AppendEntriesArgs n Command) (reply : AppendEntriesReply) (isHeartbeat : Bool) :
    Option (Raft n Command × Bool) :=
  match recordReply rf server args reply isHeartbeat with
  | none => none
  | some rf =>
    match findCommit me rf (uncommitted rf) with
    | none => none
    | some none => some (rf, false)
    | some (some entryIdx) => some ({ rf with commitIndex := entryIdx }, true)

section Replies

variable {me server : Fin n} {rf rf' : Raft n Command} {args : AppendEntriesArgs n Command}
  {reply : AppendEntriesReply} {isHeartbeat applied : Bool}

theorem processAppendEntriesReply_cases
    (done : processAppendEntriesReply me rf server args reply isHeartbeat = some (rf', applied)) :
    ∃ recorded, recordReply rf server args reply isHeartbeat = some recorded ∧
      (rf' = recorded ∨ ∃ entryIdx, rf' = { recorded with commitIndex := entryIdx } ∧
        findCommit me recorded (uncommitted recorded) = some (some entryIdx)) := by
  unfold processAppendEntriesReply at done
  split at done
  · contradiction
  · rename_i recorded eq
    refine ⟨recorded, eq, ?_⟩
    split at done
    · contradiction
    · cases Option.some.inj done
      exact .inl rfl
    · rename_i entryIdx found
      cases Option.some.inj done
      exact .inr ⟨entryIdx, rfl, found⟩

theorem processAppendEntriesReply_eq
    (done : processAppendEntriesReply me rf server args reply isHeartbeat = some (rf', applied)) :
    rf' = { rf with
      nextIndex := rf'.nextIndex
      matchIndex := rf'.matchIndex
      commitIndex := rf'.commitIndex } := by
  obtain ⟨recorded, eq, rfl | ⟨entryIdx, rfl, _⟩⟩ := processAppendEntriesReply_cases done <;>
    rw [recordReply_eq eq]

theorem processAppendEntriesReply_commit
    (done : processAppendEntriesReply me rf server args reply isHeartbeat = some (rf', applied)) :
    rf.commitIndex ≤ rf'.commitIndex := by
  obtain ⟨recorded, eq, last⟩ := processAppendEntriesReply_cases done
  have same : recorded.commitIndex = rf.commitIndex := by rw [recordReply_eq eq]
  rcases last with rfl | ⟨entryIdx, rfl, found⟩
  · exact Nat.le_of_eq same.symm
  · have above := (mem_uncommitted.mp (findCommit_spec found).1).1
    exact Nat.le_of_lt (same ▸ above)

end Replies

end DistSys.Consensus
