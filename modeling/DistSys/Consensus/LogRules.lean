import DistSys.Consensus.Cluster

/-! Two rules about logs. A vote goes to a candidate whose log is at least as up-to-date as the
voter's. `AppendEntries` removes entries only where they conflict with new ones. -/
namespace DistSys.Consensus

variable {n : Nat} {Command : Type}

/-! ### Up-to-date logs -/

def lastTerm (log : List (Logs Command)) : Nat := (log.getLast?.map Logs.term).getD 0

/-- Last terms decide, and lengths when they are equal. -/
def AtLeastUpToDate (candidate voter : List (Logs Command)) : Prop :=
  Prod.Lex (· < ·) (· ≤ ·) (lastTerm voter, voter.length) (lastTerm candidate, candidate.length)

theorem lastTerm_of_getLast {log : List (Logs Command)} {last : Logs Command}
    (found : log.getLast? = some last) : lastTerm log = last.term := by
  simp [lastTerm, found]

/-- What a granted vote says about the two logs: the candidate's counts as one entry longer. -/
theorem granted_logs {me : Fin n} {candidate voter voter' : Raft n Command}
    {reply : RequestVoteReply}
    (handled : requestVote voter (startElect me candidate).2 = some (voter', reply))
    (granted : reply.voteGranted = true) :
    lastTerm voter.log < lastTerm candidate.log ∨
      lastTerm candidate.log = lastTerm voter.log ∧
        voter.log.length ≤ candidate.log.length + 1 := by
  rcases requestVote_cases handled with ⟨_, _, refused⟩ | ⟨_, _, refused⟩ |
    ⟨_, _, _, last, found, grants⟩
  · simp [refused] at granted
  · simp [refused] at granted
  · have newer := (of_decide_eq_true grants).2
    rw [adopt_log] at newer
    rw [lastTerm_of_getLast found]
    exact newer

theorem not_upToDate_of_shorter {candidate voter : List (Logs Command)}
    (same : lastTerm candidate = lastTerm voter) (short : candidate.length < voter.length) :
    ¬ AtLeastUpToDate candidate voter := by
  intro ordered
  rw [AtLeastUpToDate, Prod.lex_iff, same] at ordered
  rcases ordered with later | ⟨_, long⟩
  · exact absurd later (Nat.lt_irrefl _)
  · exact absurd long (Nat.not_le_of_lt short)

/-- A voter of an earlier term that has not voted, with any log. -/
def freshVoter (rf : Raft n Command) (log : List (Logs Command)) : Raft n Command :=
  { rf with currentTerm := 0, votedFor := none, log := log }

/-- Such a voter grants its vote also to a log that is one entry shorter. -/
theorem freshVoter_grants (me : Fin n) (candidate : Raft n Command) {log : List (Logs Command)}
    (same : lastTerm candidate.log = lastTerm log) (short : candidate.log.length + 1 = log.length) :
    ∃ voter' reply, requestVote (freshVoter candidate log) (startElect me candidate).2 =
      some (voter', reply) ∧ reply.voteGranted = true := by
  obtain ⟨last, found⟩ : ∃ last, log.getLast? = some last := by
    cases none : log.getLast? with
    | none =>
      rw [List.getLast?_eq_none_iff.mp none] at short
      cases short
    | some last => exact ⟨last, rfl⟩
  rw [lastTerm_of_getLast found, lastTerm] at same
  have grants : grantsVote ((freshVoter candidate log).adopt (startElect me candidate).2.term) last
      (startElect me candidate).2 = true := by
    simp [grantsVote, freshVoter, Raft.adopt, Raft.stepDown, startElect, same]
    omega
  have at_end : (freshVoter candidate log).log.getLast? = some last := found
  have newer : ¬ (startElect me candidate).2.term < (freshVoter candidate log).currentTerm :=
    Nat.not_lt_zero _
  unfold requestVote
  rw [if_neg newer, at_end]
  dsimp only
  rw [if_pos grants]
  exact ⟨_, _, rfl, rfl⟩

/-- Votes go to candidates with a log at least as up-to-date as the voter's, for every state of the
voter, exactly if the candidate's log is not one entry shorter with the same last term. -/
theorem vote_goes_up_to_date (me : Fin n) (candidate : Raft n Command) (log : List (Logs Command)) :
    (∀ voter voter' reply, voter.log = log →
      requestVote voter (startElect me candidate).2 = some (voter', reply) →
      reply.voteGranted = true → AtLeastUpToDate candidate.log log) ↔
    ¬ (lastTerm candidate.log = lastTerm log ∧ candidate.log.length + 1 = log.length) := by
  constructor
  · rintro upToDate ⟨same, short⟩
    obtain ⟨voter', reply, handled, granted⟩ := freshVoter_grants me candidate same short
    exact not_upToDate_of_shorter same (by omega) (upToDate _ voter' reply rfl handled granted)
  · rintro notOneShort voter voter' reply rfl handled granted
    unfold AtLeastUpToDate
    rcases granted_logs handled granted with later | ⟨same, length⟩
    · exact .left _ _ later
    · have long : voter.log.length ≤ candidate.log.length := by
        by_contra short
        exact notOneShort ⟨same, by omega⟩
      rw [same]
      exact .right _ long

/-- A peer of term 1 with this log. -/
def peerWith (log : List (Logs Nat)) : Raft 3 Nat :=
  { (newPeer : Raft 3 Nat) with currentTerm := 1, log := log }

theorem vote_for_equal_log :
    requestVote (peerWith [⟨0, 0⟩, ⟨1, 7⟩]) (startElect 0 (peerWith [⟨0, 0⟩, ⟨1, 7⟩])).2 =
      some ({ peerWith [⟨0, 0⟩, ⟨1, 7⟩] with currentTerm := 2, votedFor := some 0 }, ⟨2, true⟩) ∧
    AtLeastUpToDate (peerWith [⟨0, 0⟩, ⟨1, 7⟩]).log [⟨0, 0⟩, ⟨1, 7⟩] :=
  ⟨by decide, (vote_goes_up_to_date 0 (peerWith [⟨0, 0⟩, ⟨1, 7⟩]) [⟨0, 0⟩, ⟨1, 7⟩]).mpr (by decide)
    (peerWith [⟨0, 0⟩, ⟨1, 7⟩])
    { peerWith [⟨0, 0⟩, ⟨1, 7⟩] with currentTerm := 2, votedFor := some 0 } ⟨2, true⟩ rfl
    (by decide) rfl⟩

/-- The voter has one more entry of the same term. -/
theorem vote_for_shorter_log : ∃ voter,
    requestVote (peerWith [⟨0, 0⟩, ⟨1, 7⟩, ⟨1, 8⟩])
      (startElect 0 (peerWith [⟨0, 0⟩, ⟨1, 7⟩])).2 = some (voter, ⟨2, true⟩) ∧
    ¬ AtLeastUpToDate (peerWith [⟨0, 0⟩, ⟨1, 7⟩]).log (peerWith [⟨0, 0⟩, ⟨1, 7⟩, ⟨1, 8⟩]).log := by
  refine ⟨{ peerWith [⟨0, 0⟩, ⟨1, 7⟩, ⟨1, 8⟩] with currentTerm := 2, votedFor := some 0 },
    by decide, ?_⟩
  intro ordered
  cases ordered with
  | left _ _ later => exact absurd later (by decide)
  | right _ long => exact absurd long (by decide)

/-! ### The conflict rule -/

variable {log log' : List (Logs Command)} {args : AppendEntriesArgs n Command}

/-- The new entry `i` and the one that stands in its place have different terms. -/
def ConflictAt (log : List (Logs Command)) (args : AppendEntriesArgs n Command) (i : Nat) : Prop :=
  ∃ e l, args.entries[i]? = some e ∧ log[args.prevLogIndex + 1 + i]? = some l ∧ e.term ≠ l.term

/-- How an accepted message changes a log. -/
structure ConflictRule (log : List (Logs Command)) (args : AppendEntriesArgs n Command)
    (log' : List (Logs Command)) : Prop where
  before : log'.take (args.prevLogIndex + 1) = log.take (args.prevLogIndex + 1)
  kept : ∀ i l, i < args.entries.length → log[args.prevLogIndex + 1 + i]? = some l →
    (∀ j ≤ i, ¬ ConflictAt log args j) → log'[args.prevLogIndex + 1 + i]? = some l
  new : ∀ i < args.entries.length,
    log.length ≤ args.prevLogIndex + 1 + i ∨ (∃ j ≤ i, ConflictAt log args j) →
    log'[args.prevLogIndex + 1 + i]? = args.entries[i]?
  beyond : (∀ i, ¬ ConflictAt log args i) →
    log'.drop (args.prevLogIndex + 1 + args.entries.length) =
      log.drop (args.prevLogIndex + 1 + args.entries.length)

/-- The loop of `AppendEntries` passes over exactly the entries before the first conflict. -/
theorem lt_matchedEntries_iff {entries log : List (Logs Command)} {i : Nat} :
    i < matchedEntries entries log ↔ i < entries.length ∧ i < log.length ∧
      ∀ j ≤ i, ∀ e l, entries[j]? = some e → log[j]? = some l → e.term = l.term := by
  induction entries generalizing log i with
  | nil => simp [matchedEntries]
  | cons e entries ih =>
    cases log with
    | nil => simp [matchedEntries]
    | cons l log =>
      unfold matchedEntries
      by_cases same : e.term = l.term
      · rw [if_pos same]
        cases i with
        | zero => simp [same]
        | succ i =>
          rw [Nat.succ_lt_succ_iff, ih]
          simp only [List.length_cons, Nat.succ_lt_succ_iff]
          refine and_congr_right fun _ => and_congr_right fun _ => ⟨fun agree j le => ?_, ?_⟩
          · cases j with
            | zero => simp [same]
            | succ j => exact agree j (Nat.le_of_succ_le_succ le)
          · intro agree j le
            exact agree (j + 1) (Nat.succ_le_succ le)
      · rw [if_neg same]
        constructor
        · intro none
          exact absurd none (Nat.not_lt_zero i)
        · rintro ⟨_, _, agree⟩
          exact absurd (agree 0 (Nat.zero_le i) e l rfl rfl) same

theorem lt_matched_iff {i : Nat} :
    i < matchedEntries args.entries (log.drop (args.prevLogIndex + 1)) ↔
      i < args.entries.length ∧ args.prevLogIndex + 1 + i < log.length ∧
        ∀ j ≤ i, ¬ ConflictAt log args j := by
  rw [lt_matchedEntries_iff, List.length_drop]
  simp only [List.getElem?_drop, ConflictAt, not_exists, not_and, not_not]
  constructor
  · rintro ⟨inside, there, agree⟩
    exact ⟨inside, by omega, agree⟩
  · rintro ⟨inside, there, agree⟩
    exact ⟨inside, by omega, agree⟩

/-- Where the entry at a place behind `PrevLogIndex` comes from. -/
theorem storeEntries_get (found : prevMatches log args = true) (i : Nat) :
    (storeEntries log args)[args.prevLogIndex + 1 + i]? =
      if i < matchedEntries args.entries (log.drop (args.prevLogIndex + 1))
      then log[args.prevLogIndex + 1 + i]? else args.entries[i]? := by
  obtain ⟨e, at_prev, _⟩ := prevMatches_iff.mp found
  have inside := (List.getElem?_eq_some_iff.mp at_prev).1
  have bound := (matchedEntries_le args.entries (log.drop (args.prevLogIndex + 1))).2
  rw [List.length_drop] at bound
  unfold storeEntries
  generalize matchedEntries args.entries (log.drop (args.prevLogIndex + 1)) = k at bound ⊢
  have length : (log.take (args.prevLogIndex + 1 + k)).length = args.prevLogIndex + 1 + k := by
    rw [List.length_take]
    omega
  split
  · rw [List.getElem?_append_left (by omega), List.getElem?_take_of_lt (by omega)]
  · rw [List.getElem?_append_right (by omega), List.getElem?_drop, length]
    congr 1
    omega

theorem storeEntries_before (found : prevMatches log args = true) :
    (storeEntries log args).take (args.prevLogIndex + 1) = log.take (args.prevLogIndex + 1) := by
  obtain ⟨e, at_prev, _⟩ := prevMatches_iff.mp found
  have inside := (List.getElem?_eq_some_iff.mp at_prev).1
  unfold storeEntries
  rw [List.take_append_of_le_length (by rw [List.length_take]; omega), List.take_take]
  congr 1
  omega

/-- All of the rule but its last part is kept by every accepted message. -/
theorem storeEntries_rule (found : prevMatches log args = true)
    (reaches : (∀ i, ¬ ConflictAt log args i) →
      log.length ≤ args.prevLogIndex + 1 + args.entries.length) :
    ConflictRule log args (storeEntries log args) := by
  constructor
  · exact storeEntries_before found
  · intro i l inside there agree
    have stands := (List.getElem?_eq_some_iff.mp there).1
    rw [storeEntries_get found, if_pos (lt_matched_iff.mpr ⟨inside, stands, agree⟩), there]
  · intro i inside gone
    rw [storeEntries_get found, if_neg]
    intro matched
    obtain ⟨_, there, agree⟩ := lt_matched_iff.mp matched
    rcases gone with ended | ⟨j, le, conflict⟩
    · omega
    · exact agree j le conflict
  · intro agree
    rw [List.drop_eq_nil_of_le (reaches agree),
      List.drop_eq_nil_of_le (Nat.le_of_eq (storeEntries_length found))]

/-- A message whose entries all stand in their places, by term, and which reaches the end of the
log changes nothing. -/
theorem storeEntries_same (agree : ∀ i, ¬ ConflictAt log args i)
    (ends : log.length = args.prevLogIndex + 1 + args.entries.length) :
    storeEntries log args = log := by
  have all : matchedEntries args.entries (log.drop (args.prevLogIndex + 1)) =
      args.entries.length := by
    refine Nat.le_antisymm (matchedEntries_le _ _).1 (Nat.le_of_not_lt fun short => ?_)
    exact Nat.lt_irrefl _ (lt_matched_iff.mpr ⟨short, by omega, fun j _ => agree j⟩)
  simp only [storeEntries, all, ← ends, List.take_length, List.drop_length, List.append_nil]

def termAt (log : List (Logs Command)) (i : Nat) : Option Nat := (log[i]?).map Logs.term

/-- Behind `PrevLogIndex` the terms are those of the message. -/
theorem termAt_stored (found : prevMatches log args = true) (i : Nat) :
    termAt (storeEntries log args) (args.prevLogIndex + 1 + i) = termAt args.entries i := by
  unfold termAt
  rw [storeEntries_get found]
  split
  · rename_i matched
    obtain ⟨e, l, new, old, same⟩ := matchedEntries_term matched
    rw [List.getElem?_drop] at old
    rw [new, old, Option.map_some, Option.map_some, same]
  · rfl

theorem termAt_before (found : prevMatches log args = true) {i : Nat}
    (early : i ≤ args.prevLogIndex) : termAt (storeEntries log args) i = termAt log i := by
  have same := congrArg (fun front : List (Logs Command) => front[i]?) (storeEntries_before found)
  simp only [List.getElem?_take_of_lt (Nat.lt_succ_of_le early)] at same
  rw [termAt, same, termAt]

theorem not_conflict_of_termAt {i : Nat}
    (same : termAt log (args.prevLogIndex + 1 + i) = termAt args.entries i) :
    ¬ ConflictAt log args i := by
  rintro ⟨e, l, new, old, differ⟩
  rw [termAt, termAt, new, old] at same
  exact differ (Option.some.inj same).symm

/-- The same message again. -/
theorem storeEntries_twice (found : prevMatches log args = true) :
    storeEntries (storeEntries log args) args = storeEntries log args := by
  apply storeEntries_same
  · intro i
    exact not_conflict_of_termAt (termAt_stored found i)
  · exact storeEntries_length found

/-- What a message of a leader has from the leader's log. -/
structure ReadOff (leader : List (Logs Command)) (args : AppendEntriesArgs n Command) : Prop where
  prev : termAt leader args.prevLogIndex = some args.prevLogTerm
  entries : args.entries <+: leader.drop (args.prevLogIndex + 1)

theorem buildAppendEntries_readOff {me i : Fin n} {rf : Raft n Command} {isHeartbeat : Bool}
    (filled : 0 < rf.log.length) (started : ∀ next ∈ rf.nextIndex, 0 < next)
    (built : buildAppendEntries me rf i = some (args, isHeartbeat)) : ReadOff rf.log args := by
  unfold buildAppendEntries at built
  split at built
  · cases built
  · rename_i next there
    have positive := started next (List.mem_of_getElem? there)
    obtain ⟨⟨prevLogIndex, prevLogTerm⟩, prev, built⟩ := Option.map_eq_some_iff.mp built
    cases built
    rw [if_pos ⟨filled, positive⟩] at prev
    obtain ⟨e, at_prev, pair⟩ := Option.map_eq_some_iff.mp prev
    cases pair
    refine ⟨by simp only [termAt, at_prev, Option.map_some], ?_⟩
    rw [Nat.sub_add_cancel positive]
    dsimp only
    split
    · exact List.prefix_rfl
    · exact List.nil_prefix

/-- A leader only appends, so what it read off earlier still stands in its log. -/
theorem ReadOff.grown {older leader : List (Logs Command)} (read : ReadOff older args)
    (grown : older <+: leader) : ReadOff leader args := by
  obtain ⟨more, rfl⟩ := grown
  have inside : args.prevLogIndex < older.length := by
    obtain ⟨e, there, _⟩ := Option.map_eq_some_iff.mp read.prev
    exact (List.getElem?_eq_some_iff.mp there).1
  constructor
  · rw [termAt, List.getElem?_append_left inside]
    exact read.prev
  · rw [List.drop_append_of_le_length inside]
    exact read.entries.trans (List.prefix_append _ _)

theorem ReadOff.termAt {leader : List (Logs Command)} (read : ReadOff leader args) {i : Nat}
    (inside : i < args.entries.length) :
    Consensus.termAt args.entries i = Consensus.termAt leader (args.prevLogIndex + 1 + i) := by
  obtain ⟨more, whole⟩ := read.entries
  rw [Consensus.termAt, Consensus.termAt, ← List.getElem?_drop, ← whole,
    List.getElem?_append_left inside]

/-- After a message of a leader, another one of the same leader that does not end later. -/
theorem older_agrees {leader : List (Logs Command)} {older : AppendEntriesArgs n Command}
    (found : prevMatches log args = true) (read : ReadOff leader args)
    (readOlder : ReadOff leader older)
    (between : ∀ j, older.prevLogIndex < j → j ≤ args.prevLogIndex →
      termAt log j = termAt leader j)
    (shorter : older.prevLogIndex + older.entries.length ≤
      args.prevLogIndex + args.entries.length) (i : Nat) :
    ¬ ConflictAt (storeEntries log args) older i := by
  by_cases inside : i < older.entries.length
  · apply not_conflict_of_termAt
    rw [readOlder.termAt inside]
    rcases Nat.lt_or_ge args.prevLogIndex (older.prevLogIndex + 1 + i) with behind | before
    · -- the first message has put the leader's terms here
      obtain ⟨k, place⟩ : ∃ k, older.prevLogIndex + 1 + i = args.prevLogIndex + 1 + k :=
        Nat.exists_eq_add_of_le behind
      rw [place, termAt_stored found, read.termAt (by omega)]
    · rw [termAt_before found before]
      exact between _ (by omega) before
  · rintro ⟨e, _, new, _⟩
    exact inside (List.getElem?_eq_some_iff.mp new).1

/-- The log that a message leaves, accepted or not. -/
theorem appendEntries_log (rf : Raft n Command) (args : AppendEntriesArgs n Command) :
    (appendEntries rf args).rf.log =
      if rf.currentTerm ≤ args.term ∧ prevMatches rf.log args = true
      then storeEntries rf.log args else rf.log := by
  rcases appendEntries_cases rf args with ⟨stale, result⟩ | ⟨_, missing, result⟩ |
    ⟨fresh, found, result⟩
  · rw [result, if_neg fun both => absurd both.1 (Nat.not_le_of_lt stale)]
  · rw [result, if_neg fun both => by simp [missing] at both]
    exact follow_log rf args.term
  · rw [result]
    exact (if_pos ⟨fresh, found⟩).symm

/-- Where nothing conflicts, an accepted message leaves nothing behind its own end. -/
theorem ConflictRule.reaches (found : prevMatches log args = true)
    (rule : ConflictRule log args (storeEntries log args)) (agree : ∀ i, ¬ ConflictAt log args i) :
    log.length ≤ args.prevLogIndex + 1 + args.entries.length := by
  have beyond := rule.beyond agree
  rw [List.drop_eq_nil_of_le (Nat.le_of_eq (storeEntries_length found))] at beyond
  exact List.drop_eq_nil_iff.mp beyond.symm

/-- After a message of a leader, an older and shorter one of the same leader changes nothing exactly if
it ends where the log does, and the follower had the leader's terms between the two. -/
theorem older_changes_nothing {leader : List (Logs Command)} {older : AppendEntriesArgs n Command}
    (found : prevMatches log args = true) (read : ReadOff leader args)
    (readOlder : ReadOff leader older) (foundOlder : prevMatches (storeEntries log args) older = true)
    (shorter : older.prevLogIndex + older.entries.length ≤ args.prevLogIndex + args.entries.length) :
    storeEntries (storeEntries log args) older = storeEntries log args ↔
      (storeEntries log args).length ≤ older.prevLogIndex + 1 + older.entries.length ∧
      ∀ j, older.prevLogIndex < j → j ≤ args.prevLogIndex → termAt log j = termAt leader j := by
  have length := storeEntries_length found
  constructor
  · intro unchanged
    have ends := storeEntries_length foundOlder
    rw [unchanged] at ends
    refine ⟨Nat.le_of_eq ends, fun j low high => ?_⟩
    obtain ⟨i, rfl⟩ : ∃ i, j = older.prevLogIndex + 1 + i := Nat.exists_eq_add_of_le low
    rw [← termAt_before found high, ← unchanged, termAt_stored foundOlder,
      readOlder.termAt (by omega)]
  · rintro ⟨reaches, between⟩
    exact storeEntries_same (older_agrees found read readOlder between shorter) (by omega)

/-- An accepted message follows the conflict rule exactly if the log does not reach behind its entries,
unless at a conflict. The same message again changes nothing, and an older one of the same leader
exactly if the log does not reach behind it and the follower had the leader's terms in between. -/
theorem append_follows_conflict_rule (rf : Raft n Command) (args : AppendEntriesArgs n Command)
    (fresh : rf.currentTerm ≤ args.term) (found : prevMatches rf.log args = true) :
    let rf' := (appendEntries rf args).rf
    (ConflictRule rf.log args rf'.log ↔ ((∀ i, ¬ ConflictAt rf.log args i) →
      rf.log.length ≤ args.prevLogIndex + 1 + args.entries.length)) ∧
    (appendEntries rf' args).rf.log = rf'.log ∧
    ∀ (me i : Fin n) (lead leadThen : Raft n Command) (older : AppendEntriesArgs n Command)
      (isHeartbeat wasHeartbeat : Bool),
      0 < leadThen.log.length → leadThen.log <+: lead.log →
      (∀ next ∈ lead.nextIndex, 0 < next) → (∀ next ∈ leadThen.nextIndex, 0 < next) →
      buildAppendEntries me lead i = some (args, isHeartbeat) →
      buildAppendEntries me leadThen i = some (older, wasHeartbeat) →
      older.prevLogIndex + older.entries.length ≤ args.prevLogIndex + args.entries.length →
      ((appendEntries rf' older).rf.log = rf'.log ↔
        (rf'.currentTerm ≤ older.term → prevMatches rf'.log older = true →
          rf'.log.length ≤ older.prevLogIndex + 1 + older.entries.length ∧
          ∀ j, older.prevLogIndex < j → j ≤ args.prevLogIndex →
            termAt rf.log j = termAt lead.log j)) := by
  intro rf'
  have stored : rf'.log = storeEntries rf.log args := by
    rw [appendEntries_log, if_pos ⟨fresh, found⟩]
  rw [stored]
  refine ⟨⟨ConflictRule.reaches found, storeEntries_rule found⟩, ?_, ?_⟩
  · rw [appendEntries_log, stored, storeEntries_twice found]
    exact ite_self _
  · intro me i lead leadThen older isHeartbeat wasHeartbeat filled grown started startedThen
      built builtThen shorter
    have longer := grown.length_le
    have read := buildAppendEntries_readOff (by omega) started built
    have readOlder := (buildAppendEntries_readOff filled startedThen builtThen).grown grown
    rw [appendEntries_log, stored]
    by_cases accepted : rf'.currentTerm ≤ older.term ∧ prevMatches (storeEntries rf.log args) older = true
    · rw [if_pos accepted, older_changes_nothing found read readOlder accepted.2 shorter]
      exact ⟨fun both _ _ => both, fun both => both accepted.1 accepted.2⟩
    · rw [if_neg accepted]
      exact ⟨fun _ first second => absurd ⟨first, second⟩ accepted, fun _ => rfl⟩

/-- A leader of term 1 that has put two commands into its log. -/
def leaderOfTwo (next : Nat) : Raft 3 Nat :=
  { peerWith [⟨0, 0⟩, ⟨1, 7⟩, ⟨1, 8⟩] with nextIndex := [next, next, next] }

/-- A follower that has the first entry gets the second one, and then both in an older message. -/
theorem second_entry_stored : ∃ rf : Raft 3 Nat,
    rf = (appendEntries (peerWith [⟨0, 0⟩, ⟨1, 7⟩]) secondEntry).rf ∧
    rf.log = [⟨0, 0⟩, ⟨1, 7⟩, ⟨1, 8⟩] ∧
    ConflictRule (peerWith [⟨0, 0⟩, ⟨1, 7⟩]).log secondEntry rf.log ∧
    (appendEntries rf bothEntries).rf.log = rf.log := by
  have rule := append_follows_conflict_rule (peerWith [⟨0, 0⟩, ⟨1, 7⟩]) secondEntry (by decide)
    (by decide)
  refine ⟨_, rfl, by decide, rule.1.mpr fun _ => by decide, ?_⟩
  refine (rule.2.2 0 1 (leaderOfTwo 2) (leaderOfTwo 1) bothEntries false false (by decide)
    List.prefix_rfl (by decide) (by decide) (by decide) (by decide) (by decide)).mpr ?_
  intro _ _
  refine ⟨by decide, fun j low high => ?_⟩
  cases Nat.le_antisymm high low
  rfl

/-- A heartbeat that was sent before the second entry comes after it. -/
theorem heartbeat_cuts_tail :
    buildAppendEntries (0 : Fin 3) { peerWith [⟨0, 0⟩, ⟨1, 7⟩] with nextIndex := [2, 2, 2] } 1 =
      some (⟨1, 0, 1, 1, [], 0⟩, true) ∧
    (∀ i, ¬ ConflictAt (peerWith [⟨0, 0⟩, ⟨1, 7⟩, ⟨1, 8⟩]).log
      (⟨1, 0, 1, 1, [], 0⟩ : AppendEntriesArgs 3 Nat) i) ∧
    (appendEntries (peerWith [⟨0, 0⟩, ⟨1, 7⟩, ⟨1, 8⟩]) ⟨1, 0, 1, 1, [], 0⟩).rf.log =
      [⟨0, 0⟩, ⟨1, 7⟩] := by
  refine ⟨by decide, ?_, by decide⟩
  rintro i ⟨e, l, new, _⟩
  cases new

end DistSys.Consensus
