import DistSys.Consensus.Cluster

/-! Conditions on a step, read off the state before it. Each of them fails exactly on the
steps in which one section goes on where its comments, or a sibling section, would stop. All
of them can be evaluated. -/
namespace DistSys.Consensus

variable {n : Nat} {Command : Type}

/-- `startElect` compares a reply's term with the term it captured, not with the current
one. Here the current term is not above it. -/
def replyNotOlder (c : Cluster n Command) : Action n Command → Bool
  | .higherTerm e => match c.elections[e]? with
    | some ⟨args, _, _, .higherTerm term⟩ => (c.raft args.candidateId).currentTerm ≤ term
    | _ => true
  | _ => true

/-- Here the reply's term is above the current one, or there is no vote to forget. -/
def replyIsNews (c : Cluster n Command) : Action n Command → Bool
  | .higherTerm e => match c.elections[e]? with
    | some ⟨args, _, _, .higherTerm term⟩ =>
      (c.raft args.candidateId).currentTerm < term ∨
        ((c.raft args.candidateId).currentTerm = term ∧ (c.raft args.candidateId).votedFor = none)
    | _ => true
  | _ => true

/-- `mainRoutine` makes itself leader of whatever the current term is. Here it is still
the term of the election that was won. -/
def handOffInTerm (c : Cluster n Command) : Action n Command → Bool
  | .becomeLeader p => match c.main p with
    | .beLeader term => (c.raft p).currentTerm = term
    | _ => true
  | _ => true

/-- A broadcast round of `p` has passed its leadership check and has messages to build. -/
def inRound (c : Cluster n Command) (p : Fin n) : Bool :=
  match c.main p with
  | .broadcast i => (List.finRange n).any fun j => i ≤ j.val ∧ j ≠ p
  | _ => false

/-- Nothing that ends a leadership or starts a new term comes into such a round. -/
def roundUndisturbed (c : Cluster n Command) : Action n Command → Bool
  | .startElect p => ¬ inRound c p
  | .requestVote e v => match c.elections[e]? with
    | some el => ¬ (inRound c v ∧ (c.raft v).currentTerm < el.args.term)
    | none => true
  | .higherTerm e => match c.elections[e]? with
    | some el => ¬ inRound c el.owner
    | none => true
  | .appendEntries k => match c.appends[k]? with
    | some call => ¬ (inRound c call.server ∧ (c.raft call.server).currentTerm < call.args.term)
    | none => true
  | _ => true

/-- `LastLogIndex` is a length, and `RequestVote` adds one to it again. Here no vote goes
to a candidate whose log is one entry shorter than the voter's with the same last term. -/
def voteNotBehind (c : Cluster n Command) : Action n Command → Bool
  | .requestVote e v => match c.elections[e]?, (c.raft v).log.getLast? with
    | some el, some last =>
      ¬ ((c.raft v).currentTerm ≤ el.args.term ∧
        grantsVote ((c.raft v).adopt el.args.term) last el.args ∧
        el.args.lastLogTerm = last.term ∧ el.args.lastLogIndex + 1 = (c.raft v).log.length)
    | _, _ => true
  | _ => true

/-- `AppendEntries` cuts the log behind the last entry that matches. Here it only does so
at a conflict: a message that agrees in every entry reaches the end of the log. -/
def cutsAtConflict (c : Cluster n Command) : Action n Command → Bool
  | .appendEntries k => match c.appends[k]? with
    | some ⟨server, args, _, _⟩ =>
      let log := (c.raft server).log
      ¬ ((c.raft server).currentTerm ≤ args.term ∧ prevMatches log args ∧
        matchedEntries args.entries (log.drop (args.prevLogIndex + 1)) = args.entries.length ∧
        args.prevLogIndex + 1 + args.entries.length < log.length)
    | none => true
  | _ => true

/-- The slices of `p` that are still to be encoded end before this place of its array. -/
def Cluster.slicesBefore (c : Cluster n Command) (p : Fin n) (place : Nat) : Bool :=
  c.appends.all fun call => call.rpc = .idle → call.args.leaderId = p → call.sliceEnd ≤ place

/-- `Entries` is a slice of the log until `Call` encodes it, outside of `mux`. Here neither
`AppendEntries` nor `PutCommand` writes into a slice that is still to be encoded. -/
def slicesIntact (c : Cluster n Command) : Action n Command → Bool
  | .appendEntries k => match c.appends[k]? with
    | some ⟨server, args, _, _⟩ =>
      let log := (c.raft server).log
      let matched := matchedEntries args.entries (log.drop (args.prevLogIndex + 1))
      (c.raft server).currentTerm ≤ args.term → prevMatches log args →
        matched < args.entries.length → c.slicesBefore server (args.prevLogIndex + 1 + matched)
    | none => true
  | .putCommand p _ =>
    (c.raft p).electionState = .leader → c.slicesBefore p (c.raft p).log.length
  | _ => true

/-- `processAppendEntriesReply` looks at no term and at no state. Here a leader only counts
replies to requests of its own term, and a peer that is no leader has nothing to count. -/
def replyInOffice (c : Cluster n Command) : Action n Command → Bool
  | .appendReply k => match c.appends[k]? with
    | some ⟨_, args, _, .replied reply⟩ =>
      let rf := c.raft args.leaderId
      if rf.electionState = .leader then reply.success → args.term = rf.currentTerm
      else (uncommitted rf).all fun i => (rf.log[i]?).all fun e => e.term ≠ rf.currentTerm
    | _ => true
  | _ => true

/-- A message that brings a higher commit index does not end below what was applied. -/
def commitNotBehind (c : Cluster n Command) : Action n Command → Bool
  | .appendEntries k => match c.appends[k]? with
    | some ⟨server, args, _, _⟩ =>
      let rf := c.raft server
      rf.currentTerm ≤ args.term → prevMatches rf.log args → rf.commitIndex < args.leaderCommit →
        rf.lastApplied ≤ args.prevLogIndex + args.entries.length
    | none => true
  | _ => true

/-- No message that is stored leaves the log shorter than the commit index or, at a peer that
goes on as leader or is in a round, than a next index; and no success that such a peer takes
is for entries behind the end of its log. -/
def indicesKept (c : Cluster n Command) : Action n Command → Bool
  | .appendEntries k => match c.appends[k]? with
    | some ⟨server, args, _, _⟩ =>
      let rf := c.raft server
      let size := args.prevLogIndex + 1 + args.entries.length
      rf.currentTerm ≤ args.term → prevMatches rf.log args →
        (rf.commitIndex < args.leaderCommit ∨ rf.commitIndex < size) ∧
        ((rf.electionState = .leader ∧ args.term ≤ rf.currentTerm) ∨ inRound c server →
          ∀ next ∈ rf.nextIndex, next ≤ size)
    | none => true
  | .appendReply k => match c.appends[k]? with
    | some ⟨_, args, _, .replied reply⟩ =>
      let rf := c.raft args.leaderId
      reply.success → rf.electionState = .leader ∨ inRound c args.leaderId →
        args.prevLogIndex + args.entries.length < rf.log.length
    | _ => true
  | _ => true

def electionSound (c : Cluster n Command) (a : Action n Command) : Bool :=
  replyIsNews c a && handOffInTerm c a

def leadershipSound (c : Cluster n Command) (a : Action n Command) : Bool :=
  electionSound c a && roundUndisturbed c a

def logSound (c : Cluster n Command) (a : Action n Command) : Bool :=
  leadershipSound c a && slicesIntact c a

def replicationSound (c : Cluster n Command) (a : Action n Command) : Bool :=
  logSound c a && voteNotBehind c a && cutsAtConflict c a && replyInOffice c a

end DistSys.Consensus
