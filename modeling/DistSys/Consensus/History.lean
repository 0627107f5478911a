import DistSys.Consensus.Votes
import DistSys.Consensus.Slices
import DistSys.Lib.Completeness

/-! The cluster refines the chronicle. Every step of a run with sound leaderships is a few
steps of a chronicle, which remembers what the cluster forgets: the log each leader started
with, who has stored which part of it, and on which log a vote was given. -/
namespace DistSys.Consensus

open Function (update)
open DistSys.Lib

variable {n : Nat} {Command : Type} {c c' : Cluster n Command} {a : Action n Command}

abbrev History (n : Nat) (Command : Type) := Chronicle (Fin n) (Logs Command)

/-- What an election may count on while nobody leads its term: its owner still has the log
it asked with, and whoever supports it has pledged for that log. -/
structure Asked (m : History n Command) (el : Election n) : Prop where
  positive : 0 < el.args.term
  owner : m.term el.owner = el.args.term →
    el.args.lastLogTerm = lastLabel Logs.term (m.log el.owner) ∧
      el.args.lastLogIndex = (m.log el.owner).length
  support : ∀ v, v = el.owner ∨ el.granted v = true →
    m.pledged v el.args.term el.args.lastLogTerm el.args.lastLogIndex

/-- A message shows a part of its sender's reign, and a success answers for that part. -/
structure Carried (m : History n Command) (call : AppendCall n Command)
    (r : Reign (Fin n) (Logs Command)) : Prop where
  rules : m.reign call.args.term = some r
  sender : r.leader = call.args.leaderId
  other : call.args.leaderId ≠ call.server
  prev : ∃ e, r.log[call.args.prevLogIndex]? = some e ∧ e.term = call.args.prevLogTerm
  entries : call.args.entries <+: r.log.drop (call.args.prevLogIndex + 1)
  stored : ∀ reply, call.rpc.answer = some reply → reply.success = true →
    ∀ k ≤ call.args.prevLogIndex + 1 + call.args.entries.length,
      m.acked call.server call.args.term k

structure Refines [Inhabited Command] (c : Cluster n Command) (m : History n Command) : Prop where
  term : ∀ p, m.term p = (c.raft p).currentTerm
  log : ∀ p, m.log p = (c.raft p).log
  coherent : m.Coherent Logs.term ⟨0, default⟩
  elected : ∀ t r, m.reign t = some r → (ballots c).Elected t r.leader
  leader : ∀ p, (c.raft p).electionState = .leader →
    ∃ r, m.reign (c.raft p).currentTerm = some r ∧ r.leader = p
  asked : ∀ el ∈ c.elections, m.reign el.args.term = none → Asked m el
  carried : ∀ call ∈ c.appends, ∃ r, Carried m call r

variable {m m' : History n Command} {strict : Prop}

/-! ### What stays true of elections and messages -/

theorem Asked.mono {el : Election n} (h : Asked m el) (steps : m.Steps Logs.term strict m')
    (le : el.args.term ≤ m.term el.owner) (vacant : m'.reign el.args.term = none) :
    Asked m' el := by
  have below := Chronicle.Steps.below steps
  refine ⟨h.positive, ?_, fun v vote => below.pledged _ _ _ _ (h.support v vote)⟩
  intro now
  have before : m.term el.owner = el.args.term :=
    Nat.le_antisymm (now ▸ below.term el.owner) le
  rw [Chronicle.Steps.still steps (now.trans before.symm) (before ▸ vacant)]
  exact h.owner before

theorem Asked.of_eq {el el' : Election n} (h : Asked m el) (args : el'.args = el.args)
    (votes : ∀ v, el'.granted v = true → el.granted v = true) : Asked m el' := by
  have owner : el'.owner = el.owner := by rw [Election.owner, args]; rfl
  refine ⟨by rw [args]; exact h.positive, by rw [args, owner]; exact h.owner, ?_⟩
  rw [args, owner]
  exact fun v vote => h.support v (vote.imp id (votes v))

theorem Carried.mono {call : AppendCall n Command} {r : Reign (Fin n) (Logs Command)}
    (h : Carried m call r) (below : m.Below m') : ∃ r', Carried m' call r' := by
  obtain ⟨r', rules, grows⟩ := below.reign _ r h.rules
  obtain ⟨e, at_prev, term⟩ := h.prev
  obtain ⟨rest, longer⟩ := grows.log
  have inside := (List.getElem?_eq_some_iff.mp at_prev).1
  refine ⟨r', rules, grows.leader.trans h.sender, h.other, ⟨e, ?_, term⟩, ?_, ?_⟩
  · rw [← longer, List.getElem?_append_left inside, at_prev]
  · rw [← longer, List.drop_append_of_le_length (Nat.succ_le_of_lt inside)]
    exact h.entries.trans (List.prefix_append _ _)
  · exact fun reply answer success k le => below.acked _ _ _ (h.stored reply answer success k le)

theorem Carried.status {call : AppendCall n Command} {r : Reign (Fin n) (Logs Command)}
    (h : Carried m call r) (rpc : Rpc AppendEntriesReply)
    (stored : ∀ reply, rpc.answer = some reply → reply.success = true →
      ∀ k ≤ call.args.prevLogIndex + 1 + call.args.entries.length,
        m.acked call.server call.args.term k) : Carried m { call with rpc := rpc } r :=
  ⟨h.rules, h.sender, h.other, h.prev, h.entries, stored⟩

/-! ### What a step of the cluster owes the chronicle -/

theorem Refines.asked_le [Inhabited Command] (h : Refines c m) (inv : ElectionInv c)
    {el : Election n} (member : el ∈ c.elections) : el.args.term ≤ m.term el.owner := by
  rw [h.term]
  exact inv.sound.bound el.owner _ _ ⟨el, member, rfl, rfl, .inl rfl⟩

/-- The parts of the relation that follow from what every step keeps. A step shows its new
terms and logs, who is crowned, and its new elections and messages. -/
theorem Refines.next [Inhabited Command] (h : Refines c m) (inv : ElectionInv c)
    (step : Step c a c') (ok : replyIsNews c a = true) (strict : Prop) (m' : History n Command)
    (steps : m.Steps Logs.term strict m')
    (term : ∀ p, m'.term p = (c'.raft p).currentTerm) (log : ∀ p, m'.log p = (c'.raft p).log)
    (elected : ∀ t r', m'.reign t = some r' →
      (∃ r, m.reign t = some r ∧ r.leader = r'.leader) ∨ (ballots c).Elected t r'.leader)
    (crowned : ∀ p, a = .becomeLeader p →
      ∃ r, m'.reign (c'.raft p).currentTerm = some r ∧ r.leader = p)
    (asked : ∀ el' ∈ c'.elections, (∃ el ∈ c.elections, el'.args = el.args ∧
        ∀ v, el'.granted v = true → el.granted v = true) ∨
      (m'.reign el'.args.term = none → Asked m' el'))
    (carried : ∀ call ∈ c'.appends, call ∈ c.appends ∨ ∃ r, Carried m' call r) :
    Refines c' m' := by
  have below := Chronicle.Steps.below steps
  have kept := (step_ballots step ok).kept
  refine ⟨term, log, h.coherent.steps rfl steps, ?_, ?_, ?_, ?_⟩
  · intro t r' rules
    rcases elected t r' rules with ⟨r, before, same⟩ | now
    · exact same ▸ (h.elected t r before).mono kept
    · exact now.mono kept
  · intro p leader
    obtain ⟨same, before | ⟨now, _⟩⟩ := step_leader step leader
    · obtain ⟨r, rules, office⟩ := h.leader p before
      obtain ⟨r', rules', grows⟩ := below.reign _ r rules
      exact ⟨r', same ▸ rules', grows.leader.trans office⟩
    · exact crowned p now
  · intro el' member vacant
    rcases asked el' member with ⟨el, old, args, votes⟩ | new
    · have before := h.asked el old (below.vacant (args ▸ vacant))
      exact (before.mono steps (h.asked_le inv old) (args ▸ vacant)).of_eq args votes
    · exact new vacant
  · intro call member
    rcases carried call member with old | new
    · obtain ⟨r, before⟩ := h.carried call old
      exact before.mono below
    · exact new

theorem Refines.quiet [Inhabited Command] (h : Refines c m) (inv : ElectionInv c)
    (step : Step c a c') (ok : replyIsNews c a = true)
    (same : ∀ p, (c'.raft p).currentTerm = (c.raft p).currentTerm ∧ (c'.raft p).log = (c.raft p).log)
    (crowned : ∀ p, a = .becomeLeader p →
      ∃ r, m.reign (c'.raft p).currentTerm = some r ∧ r.leader = p)
    (asked : ∀ el' ∈ c'.elections, ∃ el ∈ c.elections, el'.args = el.args ∧
      ∀ v, el'.granted v = true → el.granted v = true)
    (carried : ∀ call ∈ c'.appends, call ∈ c.appends ∨ ∃ r, Carried m call r) : Refines c' m :=
  h.next inv step ok False m .refl (fun p => (h.term p).trans (same p).1.symm)
    (fun p => (h.log p).trans (same p).2.symm) (fun _ r rules => .inl ⟨r, rules, rfl⟩) crowned
    (fun el member => .inl (asked el member)) carried

theorem update_same {p : Fin n} {rf : Raft n Command}
    (term : rf.currentTerm = (c.raft p).currentTerm) (log : rf.log = (c.raft p).log) (q : Fin n) :
    (update c.raft p rf q).currentTerm = (c.raft q).currentTerm ∧
      (update c.raft p rf q).log = (c.raft q).log :=
  update_rel (fun a b => b.currentTerm = a.currentTerm ∧ b.log = a.log) (fun _ => ⟨rfl, rfl⟩)
    ⟨term, log⟩ q

theorem elections_kept (el : Election n) (member : el ∈ c.elections) :
    ∃ d ∈ c.elections, el.args = d.args ∧ ∀ v, el.granted v = true → d.granted v = true :=
  ⟨el, member, rfl, fun _ vote => vote⟩

theorem elections_set {e : Nat} {el el' : Election n} (found : c.elections[e]? = some el)
    (args : el'.args = el.args) (votes : ∀ v, el'.granted v = true → el.granted v = true)
    (d : Election n) (member : d ∈ c.elections.set e el') :
    ∃ d' ∈ c.elections, d.args = d'.args ∧ ∀ v, d.granted v = true → d'.granted v = true := by
  rcases List.mem_or_eq_of_mem_set member with old | rfl
  · exact elections_kept d old
  · exact ⟨el, List.mem_of_getElem? found, args, votes⟩

theorem Refines.carried_set [Inhabited Command] (h : Refines c m) (below : m.Below m') {k : Nat}
    {call : AppendCall n Command} (found : c.appends[k]? = some call) (rpc : Rpc AppendEntriesReply)
    (stored : ∀ reply, rpc.answer = some reply → reply.success = true →
      ∀ k ≤ call.args.prevLogIndex + 1 + call.args.entries.length,
        m'.acked call.server call.args.term k)
    (d : AppendCall n Command) (member : d ∈ c.appends.set k { call with rpc := rpc }) :
    d ∈ c.appends ∨ ∃ r, Carried m' d r := by
  rcases List.mem_or_eq_of_mem_set member with old | rfl
  · exact .inl old
  · obtain ⟨r, before⟩ := h.carried call (List.mem_of_getElem? found)
    obtain ⟨r', after⟩ := before.mono below
    exact .inr ⟨r', after.status rpc stored⟩

/-! ### Votes -/

/-- A granted request is not behind the voter's log, if it is not one entry short of it. -/
theorem grants_upToDate {e : Nat} {v : Fin n} {el : Election n} {last : Logs Command}
    (found : c.elections[e]? = some el) (le : (c.raft v).currentTerm ≤ el.args.term)
    (at_end : (c.raft v).log.getLast? = some last)
    (grants : grantsVote ((c.raft v).adopt el.args.term) last el.args = true)
    (ok : voteNotBehind c (.requestVote e v) = true) :
    UpToDate Logs.term (c.raft v).log el.args.lastLogTerm el.args.lastLogIndex := by
  have label : lastLabel Logs.term (c.raft v).log = last.term := by simp [lastLabel, at_end]
  simp only [voteNotBehind, found, at_end, grants, true_and, decide_eq_true_eq, le] at ok
  simp only [grantsVote, adopt_log, decide_eq_true_eq] at grants
  rw [UpToDate, label]
  rcases grants.2 with newer | ⟨same, long⟩
  · exact .inl newer
  · refine .inr ⟨same.symm, ?_⟩
    have distinct := fun short => ok ⟨same, short⟩
    omega

/-- The votes that elect a peer in a vacant term are pledges for the log it has. -/
theorem Refines.voters [Inhabited Command] (h : Refines c m) {p : Fin n}
    (vacant : m.reign (m.term p) = none) (elected : (ballots c).Elected (m.term p) p) :
    0 < m.term p ∧ ∃ voters : Finset (Fin n), Majority voters ∧ ∀ u ∈ voters,
      m.pledged u (m.term p) (lastLabel Logs.term (m.log p)) (m.log p).length := by
  obtain ⟨voters, major, votes⟩ := elected
  have one : ∀ u ∈ voters, 0 < m.term p ∧
      m.pledged u (m.term p) (lastLabel Logs.term (m.log p)) (m.log p).length := by
    intro u voter
    obtain ⟨el, member, term, owner, vote⟩ := votes u voter
    have asked := h.asked el member (term ▸ vacant)
    have pledge := asked.support u (owner ▸ vote)
    have own := asked.owner (by rw [owner, term])
    rw [owner] at own
    rw [own.1, own.2, term] at pledge
    exact ⟨term ▸ asked.positive, pledge⟩
  obtain ⟨u, voter, _⟩ := major.common major
  exact ⟨(one u voter).1, voters, major, fun u voter => (one u voter).2⟩

/-! ### Entries -/

/-- A message from a reign makes the log of a peer that has its previous entry the reign's
log, up to the end of the message. The loop compares terms only; that this is enough is log
matching. -/
theorem store_eq_take [Inhabited Command] {l : List (Logs Command)} {call : AppendCall n Command}
    {r : Reign (Fin n) (Logs Command)} (carried : Carried m call r)
    (coherent : m.Coherent Logs.term ⟨0, default⟩)
    (traced : Traced Logs.term ⟨0, default⟩ m.reign l) (found : prevMatches l call.args = true) :
    storeEntries l call.args =
      r.log.take (call.args.prevLogIndex + 1 + call.args.entries.length) := by
  obtain ⟨e, at_prev, term⟩ := prevMatches_iff.mp found
  obtain ⟨d, there, term'⟩ := carried.prev
  have shown := (coherent.proper _ r carried.rules).traced
  obtain ⟨rest, split⟩ := carried.entries
  generalize sizes : matchedEntries call.args.entries (l.drop (call.args.prevLogIndex + 1)) = matched
  have common : l.take (call.args.prevLogIndex + 1 + matched) =
      r.log.take (call.args.prevLogIndex + 1 + matched) := by
    cases matched with
    | zero => exact traced.matching shown at_prev there (term.trans term'.symm)
    | succ i =>
      obtain ⟨x, y, entry, at_i, same⟩ := matchedEntries_term (Nat.lt_of_succ_le sizes.ge)
      rw [List.getElem?_drop] at at_i
      have in_reign : r.log[call.args.prevLogIndex + 1 + i]? = some x := by
        rw [← List.getElem?_drop, ← split, List.getElem?_append_left, entry]
        exact (List.getElem?_eq_some_iff.mp entry).1
      exact traced.matching shown at_i in_reign same.symm
  have bound := (matchedEntries_le call.args.entries (l.drop (call.args.prevLogIndex + 1))).1
  rw [sizes] at bound
  have entries : call.args.entries =
      (r.log.drop (call.args.prevLogIndex + 1)).take call.args.entries.length := by
    rw [← split, List.take_left]
  calc storeEntries l call.args
      = r.log.take (call.args.prevLogIndex + 1 + matched) ++ call.args.entries.drop matched := by
        simp only [storeEntries, sizes, common]
    _ = r.log.take (call.args.prevLogIndex + 1 + matched) ++
          (r.log.drop (call.args.prevLogIndex + 1 + matched)).take
            (call.args.entries.length - matched) := by
        congr 1
        conv_lhs => rw [entries]
        rw [List.drop_take, List.drop_drop]
    _ = r.log.take (call.args.prevLogIndex + 1 + call.args.entries.length) := by
        rw [← List.take_add]
        congr 1
        omega

theorem Carried.fits {call : AppendCall n Command} {r : Reign (Fin n) (Logs Command)}
    (h : Carried m call r) :
    call.args.prevLogIndex + 1 + call.args.entries.length ≤ r.log.length := by
  obtain ⟨e, at_prev, _⟩ := h.prev
  have inside := (List.getElem?_eq_some_iff.mp at_prev).1
  have length := h.entries.length_le
  rw [List.length_drop] at length
  omega

theorem cuts_conflict {k : Nat} {call : AppendCall n Command} {r : Reign (Fin n) (Logs Command)}
    (carried : Carried m call r) (found : c.appends[k]? = some call)
    (le : (c.raft call.server).currentTerm ≤ call.args.term)
    (matches_prev : prevMatches (c.raft call.server).log call.args = true)
    (ok : cutsAtConflict c (.appendEntries k) = true) :
    (c.raft call.server).log.length ≤ call.args.prevLogIndex + 1 + call.args.entries.length ∨
      ¬ r.log.take (call.args.prevLogIndex + 1 + call.args.entries.length) <+:
        (c.raft call.server).log := by
  by_contra other
  rw [not_or, not_not, Nat.not_le] at other
  obtain ⟨longer, rest, split⟩ := other
  obtain ⟨rest', entries⟩ := carried.entries
  have fits := carried.fits
  have again : call.args.entries <+: (c.raft call.server).log.drop (call.args.prevLogIndex + 1) := by
    rw [← split, List.drop_append_of_le_length (by rw [List.length_take]; omega), List.drop_take,
      ← entries, Nat.add_sub_cancel_left, List.take_left]
    exact List.prefix_append _ _
  simp only [cutsAtConflict, found, decide_eq_true_eq] at ok
  exact ok ⟨le, matches_prev, matchedEntries_all again, longer⟩

/-! ### The simulation -/

theorem Refines.setTerm [Inhabited Command] (h : Refines c m) {p : Fin n} (rf : Raft n Command)
    (log : rf.log = (c.raft p).log) (q : Fin n) :
    (m.setTerm p rf.currentTerm).term q = (update c.raft p rf q).currentTerm ∧
      (m.setTerm p rf.currentTerm).log q = (update c.raft p rf q).log := by
  by_cases same : q = p
  · subst same
    simp [Chronicle.setTerm, h.log, log]
  · simp [Chronicle.setTerm, same, h.term, h.log]

theorem Refines.advance [Inhabited Command] (h : Refines c m) (inv : ElectionInv c)
    (step : Step c a c') (ok : replyIsNews c a = true) (strict : Prop) (p : Fin n)
    (rf : Raft n Command) (raft : c'.raft = update c.raft p rf)
    (later : (c.raft p).currentTerm ≤ rf.currentTerm) (log : rf.log = (c.raft p).log)
    (other : ∀ q, a ≠ .becomeLeader q)
    (asked : ∀ el' ∈ c'.elections, ∃ el ∈ c.elections, el'.args = el.args ∧
      ∀ v, el'.granted v = true → el.granted v = true)
    (carried : ∀ call ∈ c'.appends, call ∈ c.appends ∨
      ∃ r, Carried (m.setTerm p rf.currentTerm) call r) :
    ∃ m', m.Steps Logs.term strict m' ∧ Refines c' m' := by
  have steps : m.Steps Logs.term strict (m.setTerm p rf.currentTerm) :=
    .single (.advance p _ (h.term p ▸ later))
  refine ⟨_, steps, h.next inv step ok strict _ steps ?_ ?_ (fun _ r now => .inl ⟨r, now, rfl⟩)
    (fun q now => absurd now (other q)) (fun el member => .inl (asked el member)) carried⟩
  · exact fun q => raft ▸ (h.setTerm rf log q).1
  · exact fun q => raft ▸ (h.setTerm rf log q).2

theorem Refines.vote [Inhabited Command] (h : Refines c m) (strict : Prop) (p : Fin n)
    (rf : Raft n Command) (later : (c.raft p).currentTerm ≤ rf.currentTerm)
    (log : rf.log = (c.raft p).log)
    {last length : Nat} (fair : strict → UpToDate Logs.term (c.raft p).log last length) :
    ∃ m', m.Steps Logs.term strict m' ∧
      (∀ q, m'.term q = (update c.raft p rf q).currentTerm) ∧
      (∀ q, m'.log q = (update c.raft p rf q).log) ∧ m'.reign = m.reign ∧
      (m'.reign rf.currentTerm = none → m'.pledged p rf.currentTerm last length) := by
  have first : m.Step Logs.term strict (m.setTerm p rf.currentTerm) :=
    .advance p _ (h.term p ▸ later)
  have own : (m.setTerm p rf.currentTerm).term p = rf.currentTerm := by simp [Chronicle.setTerm]
  obtain ⟨m', steps, term', log', reign', pledged⟩ :=
    Chronicle.pledge_if_vacant (m.setTerm p rf.currentTerm) p (fun s => h.log p ▸ fair s)
  refine ⟨m', .head first steps, ?_, ?_, reign', ?_⟩
  · exact fun q => term' ▸ (h.setTerm rf log q).1
  · exact fun q => log' ▸ (h.setTerm rf log q).2
  · rw [own] at pledged
    exact fun vacant => pledged (reign' ▸ vacant)

theorem asked_new {p : Fin n} (log : m.log p = (c.raft p).log)
    (pledge : m.pledged p ((c.raft p).currentTerm + 1) (lastLabel Logs.term (c.raft p).log)
      (c.raft p).log.length) : Asked m (newElection (startElect p (c.raft p)).2) := by
  refine ⟨Nat.succ_pos _, ?_, ?_⟩
  · intro _
    change _ = lastLabel Logs.term (m.log p) ∧ _ = (m.log p).length
    rw [log]
    exact ⟨rfl, rfl⟩
  · rintro v (rfl | granted)
    · exact pledge
    · rw [granted_newElection] at granted
      cases granted

theorem refused_votes {el : Election n} {v : Fin n} {reply : RequestVoteReply}
    (refused : reply.voteGranted = false) (u : Fin n)
    (vote : ({ el with calls := update el.calls v (.replied reply) } : Election n).granted u = true) :
    el.granted u = true := by
  rw [granted_update] at vote
  split at vote
  · simp [Rpc.answer, refused] at vote
  · exact vote

theorem Asked.vote {el : Election n} (h : Asked m el) {v : Fin n} {rpc : Rpc RequestVoteReply}
    (pledge : m.pledged v el.args.term el.args.lastLogTerm el.args.lastLogIndex) :
    Asked m { el with calls := update el.calls v rpc } := by
  refine ⟨h.positive, h.owner, ?_⟩
  intro u vote
  rw [granted_update] at vote
  split at vote
  · rename_i same
    rw [same]
    exact pledge
  · exact h.support u vote

section

variable [Inhabited Command] (h : Refines c m)
include h

theorem Refines.own_reign {p : Fin n} (leader : (c.raft p).electionState = .leader) :
    ∃ r, m.reign (c.raft p).currentTerm = some r ∧ r.leader = p ∧ (c.raft p).log = r.log := by
  obtain ⟨r, rules, office⟩ := h.leader p leader
  refine ⟨r, rules, office, ?_⟩
  rw [← h.log, ← office]
  exact (h.coherent.office _ r rules).2 (office ▸ h.term p)

theorem Refines.built {p i : Fin n} (root : Rooted (c.raft p))
    (leader : (c.raft p).electionState = .leader) (other : i ≠ p)
    {args : AppendEntriesArgs n Command} {isHeartbeat : Bool}
    (built : buildAppendEntries p (c.raft p) i = some (args, isHeartbeat)) :
    ∃ r, Carried m ⟨i, args, isHeartbeat, .idle⟩ r := by
  obtain ⟨r, rules, office, log⟩ := h.own_reign leader
  obtain ⟨term, sender, _, prev, entries⟩ := build_spec root built
  refine ⟨r, term ▸ rules, office.trans sender.symm, sender ▸ other.symm, log ▸ prev, ?_, nofun⟩
  rw [← log, entries]

/-- Storing a message takes its receiver to the message's term and then makes its log a
part of the sender's. -/
theorem Refines.accept {call : AppendCall n Command}
    {r : Reign (Fin n) (Logs Command)} (carried : Carried m call r)
    (le : (c.raft call.server).currentTerm ≤ call.args.term)
    (conflict : strict → (c.raft call.server).log.length ≤
        call.args.prevLogIndex + 1 + call.args.entries.length ∨
      ¬ r.log.take (call.args.prevLogIndex + 1 + call.args.entries.length) <+:
        (c.raft call.server).log) (rf : Raft n Command) (term : rf.currentTerm = call.args.term)
    (log : rf.log = r.log.take (call.args.prevLogIndex + 1 + call.args.entries.length)) :
    ∃ m', m.Steps Logs.term strict m' ∧
      (∀ q, m'.term q = (update c.raft call.server rf q).currentTerm) ∧
      (∀ q, m'.log q = (update c.raft call.server rf q).log) ∧ m'.reign = m.reign ∧
      ∀ k ≤ call.args.prevLogIndex + 1 + call.args.entries.length,
        m'.acked call.server call.args.term k := by
  have first : m.Step Logs.term strict (m.setTerm call.server call.args.term) :=
    .advance call.server _ (h.term call.server ▸ le)
  have own : (m.setTerm call.server call.args.term).term call.server = call.args.term := by
    simp [Chronicle.setTerm]
  have second : Chronicle.Step Logs.term strict (m.setTerm call.server call.args.term) _ :=
    .accept call.server r (call.args.prevLogIndex + 1 + call.args.entries.length)
      (own.symm ▸ carried.rules) (carried.sender ▸ carried.other) (by omega) carried.fits
      (fun s => h.log call.server ▸ conflict s)
  refine ⟨_, .head first (.single second), ?_, ?_, rfl, ?_⟩
  · intro q
    by_cases same : q = call.server
    · subst same
      simp [Chronicle.store, Chronicle.setTerm, term]
    · simp [Chronicle.store, Chronicle.setTerm, same, h.term]
  · intro q
    by_cases same : q = call.server
    · subst same
      simp [Chronicle.store, log]
    · simp [Chronicle.store, Chronicle.setTerm, same, h.log]
  · exact fun k small => .inr ⟨rfl, own.symm, small⟩

theorem Refines.crown (inv : ElectionInv c) (strict : Prop) {p : Fin n}
    (elected : (ballots c).Elected (m.term p) p) :
    ∃ m', m.Steps Logs.term strict m' ∧ m'.term = m.term ∧ m'.log = m.log ∧
      (∀ t r', m'.reign t = some r' →
        (∃ r, m.reign t = some r ∧ r.leader = r'.leader) ∨ (ballots c).Elected t r'.leader) ∧
      ∃ r, m'.reign (m.term p) = some r ∧ r.leader = p := by
  cases vacant : m.reign (m.term p) with
  | some r =>
    have office := inv.sound.elected_unique (h.elected _ r vacant) elected
    exact ⟨m, .refl, rfl, rfl, fun _ r' now => .inl ⟨r', now, rfl⟩, r, vacant, office⟩
  | none =>
    obtain ⟨positive, voters, major, votes⟩ := h.voters vacant elected
    refine ⟨_, .single (.crown p voters vacant positive major votes), rfl, rfl, ?_,
      ⟨p, voters, m.log p, []⟩, Function.update_self _ _ _, rfl⟩
    intro t r now
    rcases reign_update now with ⟨rfl, rfl⟩ | ⟨_, old⟩
    · exact .inr elected
    · exact .inl ⟨r, old, rfl⟩

theorem Refines.append (strict : Prop) {p : Fin n} (leader : (c.raft p).electionState = .leader)
    (command : Command) :
    ∃ m', m.Steps Logs.term strict m' ∧
      (∀ q, m'.term q = (update c.raft p { c.raft p with
        log := (c.raft p).log ++ [⟨(c.raft p).currentTerm, command⟩] } q).currentTerm) ∧
      (∀ q, m'.log q = (update c.raft p { c.raft p with
        log := (c.raft p).log ++ [⟨(c.raft p).currentTerm, command⟩] } q).log) ∧
      ∀ t r', m'.reign t = some r' →
        (∃ r, m.reign t = some r ∧ r.leader = r'.leader) ∨ (ballots c).Elected t r'.leader := by
  obtain ⟨r, rules, office⟩ := h.leader p leader
  rw [← h.term p] at rules
  refine ⟨m.addEntry p r ⟨(c.raft p).currentTerm, command⟩,
    .single (.append p r _ rules office (h.term p).symm), ?_, ?_, ?_⟩
  · intro q
    refine (h.term q).trans ?_
    by_cases same : q = p
    · subst same
      simp
    · simp [same]
  · intro q
    by_cases same : q = p
    · subst same
      simp [Chronicle.addEntry, h.log]
    · simp [Chronicle.addEntry, same, h.log]
  · intro t r' after
    rcases reign_update after with ⟨rfl, rfl⟩ | ⟨_, old⟩
    · exact .inl ⟨r, rules, rfl⟩
    · exact .inl ⟨r', old, rfl⟩

/-- A vote that is granted is a pledge for the log of the candidate. -/
theorem Refines.requestVote (inv : ElectionInv c) {e : Nat} {v : Fin n} {el : Election n}
    {rf : Raft n Command} {reply : RequestVoteReply} (found : c.elections[e]? = some el)
    (asked : el.calls v = .requested)
    (handled : Consensus.requestVote (c.raft v) el.args = some (rf, reply))
    (fair : strict → voteNotBehind c (.requestVote e v) = true) :
    ∃ m', m.Steps Logs.term strict m' ∧ Refines { c with
      raft := update c.raft v rf
      elections := c.elections.set e { el with calls := update el.calls v (.replied reply) } } m' := by
  have step := Step.requestVote e v el rf reply found asked handled
  rcases requestVote_cases handled with ⟨_, rfl, refused⟩ | ⟨le, rfl, refused⟩ |
    ⟨le, rfl, rfl, last, at_end, grants⟩
  · exact ⟨m, .refl, h.quiet inv step rfl (update_same rfl rfl) (by rintro _ ⟨⟩)
      (elections_set found rfl (refused_votes refused)) (fun _ => .inl)⟩
  · exact h.advance inv step rfl strict v _ rfl (by simp) (adopt_log _ _) (by rintro _ ⟨⟩)
      (elections_set found rfl (refused_votes refused)) (fun _ => .inl)
  · have now : ((c.raft v).adopt el.args.term).currentTerm = el.args.term := by
      rw [adopt_term]
      omega
    obtain ⟨m', steps, term, log, reign, pledged⟩ := h.vote strict v
      { (c.raft v).adopt el.args.term with votedFor := some el.args.candidateId } (by simp)
      (adopt_log _ _) (fun s => grants_upToDate found le at_end grants (fair s))
    refine ⟨m', steps, h.next inv step rfl strict m' steps term log ?_ (by rintro _ ⟨⟩) ?_
      (fun _ => .inl)⟩
    · exact fun t r now => .inl ⟨r, reign ▸ now, rfl⟩
    · intro d member
      rcases List.mem_or_eq_of_mem_set member with old | rfl
      · exact .inl (elections_kept d old)
      · refine .inr fun vacant => ?_
        have mem := List.mem_of_getElem? found
        have before := h.asked el mem (reign ▸ vacant)
        have mine := before.mono steps (h.asked_le inv mem) vacant
        dsimp only at pledged
        rw [now] at pledged
        exact mine.vote (pledged vacant)

/-- The winner of an election begins its reign with the log it has. -/
theorem Refines.becomeLeader (inv : ElectionInv c) {p : Fin n} {won : Nat}
    (received : c.main p = .beLeader won) (term : (c.raft p).currentTerm = won) :
    ∃ m', m.Steps Logs.term strict m' ∧ Refines { c with
      raft := update c.raft p (Consensus.becomeLeader (c.raft p))
      main := update c.main p .checkLeader } m' := by
  have elected : (ballots c).Elected (m.term p) p := by
    rw [h.term, term]
    exact inv.handOff p won received
  obtain ⟨m', steps, same_term, same_log, reigns, crowned⟩ := h.crown inv strict elected
  have same : ∀ q, (update c.raft p (Consensus.becomeLeader (c.raft p)) q).currentTerm =
      (c.raft q).currentTerm ∧ (update c.raft p (Consensus.becomeLeader (c.raft p)) q).log =
      (c.raft q).log := update_same rfl rfl
  refine ⟨m', steps, h.next inv (.becomeLeader p won received) rfl strict m' steps ?_ ?_ reigns ?_
    (fun d old => .inl (elections_kept d old)) (fun _ => .inl)⟩
  · intro q
    rw [same_term, h.term, (same q).1]
  · intro q
    rw [same_log, h.log, (same q).2]
  · rintro q ⟨⟩
    rw [(same p).1, ← h.term]
    exact crowned

/-- A message that has been encoded with what it was built with makes the log of its receiver a part
of the sender's, or is refused. -/
theorem Refines.appendEntries (inv : ElectionInv c) {k : Nat}
    (step : Step c (.appendEntries k) c') {call : AppendCall n Command}
    (found : c.appends[k]? = some call)
    (raft : c'.raft = update c.raft call.server
      (Consensus.appendEntries (c.raft call.server) call.args).rf)
    (elections : c'.elections = c.elections)
    (appends : c'.appends = c.appends.set k { call with
      rpc := .replied (Consensus.appendEntries (c.raft call.server) call.args).reply })
    (cuts : strict → cutsAtConflict c (.appendEntries k) = true) :
    ∃ m', m.Steps Logs.term strict m' ∧ Refines c' m' := by
  obtain ⟨r, carried⟩ := h.carried call (List.mem_of_getElem? found)
  have kept : ∀ el ∈ c'.elections, ∃ d ∈ c.elections, el.args = d.args ∧
      ∀ v, el.granted v = true → d.granted v = true := by
    rw [elections]
    exact elections_kept
  have failed : ∀ (m' : History n Command) {reply : AppendEntriesReply}, reply.success = false →
      ∀ reply', (Rpc.replied reply).answer = some reply' → reply'.success = true →
      ∀ k ≤ call.args.prevLogIndex + 1 + call.args.entries.length,
        m'.acked call.server call.args.term k := by
    rintro m' reply no reply' ⟨⟩ yes
    rw [no] at yes
    cases yes
  rcases appendEntries_cases (c.raft call.server) call.args with
    ⟨_, eq⟩ | ⟨le, _, eq⟩ | ⟨le, matches_prev, eq⟩
  · refine ⟨m, .refl, h.quiet inv step rfl ?_ (by rintro _ ⟨⟩) kept ?_⟩
    · rw [raft, eq]
      exact update_same rfl rfl
    · rw [appends, eq]
      exact h.carried_set (.refl m) found _ (failed m rfl)
  · have later : (c.raft call.server).currentTerm ≤
        (Consensus.appendEntries (c.raft call.server) call.args).rf.currentTerm := by
      rw [eq]
      simp
    refine h.advance inv step rfl strict call.server _ raft later (by rw [eq]; simp)
      (by rintro _ ⟨⟩) kept ?_
    rw [appends]
    exact h.carried_set (Chronicle.below_setTerm (h.term call.server ▸ later)) found _
      (failed _ (by rw [eq]))
  · have conflict := fun s => cuts_conflict carried found le matches_prev (cuts s)
    have log : (Consensus.appendEntries (c.raft call.server) call.args).rf.log =
        r.log.take (call.args.prevLogIndex + 1 + call.args.entries.length) := by
      rw [eq]
      exact store_eq_take carried h.coherent (h.log call.server ▸ h.coherent.traced call.server)
        matches_prev
    have term : (Consensus.appendEntries (c.raft call.server) call.args).rf.currentTerm =
        call.args.term := by
      rw [eq]
      simp only [follow_term]
      omega
    obtain ⟨m', steps, term', log', reign, acked⟩ := h.accept carried le conflict _ term log
    rw [← raft] at term' log'
    refine ⟨m', steps, h.next inv step rfl strict m' steps term' log'
      (fun t r now => .inl ⟨r, reign ▸ now, rfl⟩) (by rintro _ ⟨⟩)
      (fun d old => .inl (kept d old)) ?_⟩
    rw [appends]
    exact h.carried_set (Chronicle.Steps.below steps) found _ (fun _ _ _ => acked)

end

theorem step_refines [Inhabited Command] (step : Step c a c') (h : Refines c m)
    (inv : ElectionInv c) (led : RoundLed c) (root : ∀ p, Rooted (c.raft p)) (shown : Shown c)
    (ok : electionSound c a = true) (intact : slicesIntact c a = true)
    (rules : strict → voteNotBehind c a = true ∧ cutsAtConflict c a = true) :
    ∃ m', m.Steps Logs.term strict m' ∧ Refines c' m' := by
  rw [electionSound, Bool.and_eq_true] at ok
  have next := h.next inv step ok.1 strict
  have quiet := h.quiet inv step ok.1
  have advance := h.advance inv step ok.1 strict
  cases step with
  | startElect p spawned =>
    obtain ⟨m', steps, term, log, reign, pledged⟩ := h.vote strict p
      (startElect p (c.raft p)).1 (Nat.le_succ _) rfl (fun _ => .inr ⟨rfl, Nat.le_refl _⟩)
    refine ⟨m', steps, next m' steps term log ?_ (by rintro _ ⟨⟩) ?_ (fun _ => .inl)⟩
    · exact fun t r now => .inl ⟨r, reign ▸ now, rfl⟩
    · intro el member
      rcases List.mem_append.mp member with old | new
      · exact .inl (elections_kept el old)
      · rw [List.mem_singleton.mp new]
        exact .inr fun vacant => asked_new (by rw [log]; simp [startElect]) (pledged vacant)
  | requestVote e v el rf reply found asked handled =>
    exact h.requestVote inv found asked handled fun s => (rules s).1
  | voteReply e v el reply found pc answered =>
    exact ⟨m, .refl, quiet (fun _ => ⟨rfl, rfl⟩) (by rintro _ ⟨⟩)
      (elections_set found (receive_args _ _ _)
        (fun u vote => (receive_granted answered u).symm.trans vote)) (fun _ => .inl)⟩
  | higherTerm e el term found pc =>
    refine advance el.owner _ rfl ?_ rfl (by rintro _ ⟨⟩)
      (elections_set found rfl (fun _ vote => vote)) (fun _ => .inl)
    obtain ⟨args, calls, votes, pc'⟩ := el
    dsimp only at pc
    subst pc
    simp only [replyIsNews, found, decide_eq_true_eq] at ok
    simp only [Raft.stepDown, Election.owner]
    omega
  | handOff e el found pc idle =>
    exact ⟨m, .refl, quiet (fun _ => ⟨rfl, rfl⟩) (by rintro _ ⟨⟩)
      (elections_set found rfl (fun _ vote => vote)) (fun _ => .inl)⟩
  | loseElection p lost el at_hb candidate found owner pc =>
    exact ⟨m, .refl, quiet (update_same rfl rfl) (by rintro _ ⟨⟩)
      (elections_set found rfl (fun _ vote => vote)) (fun _ => .inl)⟩
  | becomeLeader p won received =>
    exact h.becomeLeader inv received (by simpa [handOffInTerm, received] using ok.2)
  | send p i args isHeartbeat at_peer other built =>
    have leader := led p ((inRound_broadcast at_peer).mpr ⟨i, Nat.le_refl _, other⟩)
    refine ⟨m, .refl, quiet (fun _ => ⟨rfl, rfl⟩) (by rintro _ ⟨⟩) elections_kept ?_⟩
    intro call member
    rcases List.mem_append.mp member with old | new
    · exact .inl old
    · rw [List.mem_singleton.mp new]
      exact .inr (h.built (root p) leader other built)
  | encode k call found unsent =>
    exact ⟨m, .refl, quiet (fun _ => ⟨rfl, rfl⟩) (by rintro _ ⟨⟩) elections_kept
      (h.carried_set (.refl m) found _ (by rintro _ ⟨⟩))⟩
  | appendEntries k call found asked room =>
    exact h.appendEntries inv (.appendEntries k call found asked room) found rfl rfl
      (appendEntries_slices shown found intact _) fun s => (rules s).2
  | appendReply k call reply rf applied found answered processed =>
    have term := congrArg Raft.currentTerm (processAppendEntriesReply_eq processed)
    have log := congrArg Raft.log (processAppendEntriesReply_eq processed)
    obtain ⟨r, carried⟩ := h.carried call (List.mem_of_getElem? found)
    refine ⟨m, .refl, quiet (update_same term log) (by rintro _ ⟨⟩) elections_kept
      (h.carried_set (.refl m) found _ ?_)⟩
    intro reply' answer
    exact carried.stored reply' (by rw [answered]; exact answer)
  | putCommand p command =>
    have same := putCommand_slices shown intact
    rcases putCommand_cases (c.raft p) command with ⟨_, eq⟩ | ⟨leader, eq⟩
    · refine ⟨m, .refl, quiet (update_same (by rw [eq]) (by rw [eq])) (by rintro _ ⟨⟩)
        elections_kept ?_⟩
      rw [same]
      exact fun _ => .inl
    · obtain ⟨m', steps, term, log, reigns⟩ := h.append strict leader command
      rw [same, eq] at next ⊢
      exact ⟨m', steps, next m' steps term log reigns (by rintro _ ⟨⟩)
        (fun d old => .inl (elections_kept d old)) (fun _ => .inl)⟩
  | applyCommit p rf spawned done =>
    have eq := applyCommit_done done
    exact ⟨m, .refl, quiet (update_same (by rw [eq]) (by rw [eq])) (by rintro _ ⟨⟩) elections_kept
      (fun _ => .inl)⟩
  | crash a panics =>
    refine ⟨m, .refl, quiet (fun _ => ⟨rfl, rfl⟩) ?_ elections_kept (fun _ => .inl)⟩
    rintro q rfl
    exact panics.elim
  | _ => exact ⟨m, .refl, quiet (fun _ => ⟨rfl, rfl⟩) (by rintro _ ⟨⟩) elections_kept (fun _ => .inl)⟩

structure Led [Inhabited Command] (c : Cluster n Command) (m : History n Command) : Prop where
  refines : Refines c m
  election : ElectionInv c
  round : RoundLed c
  rooted : ∀ p, Rooted (c.raft p)
  shown : Shown c

theorem led_new [Inhabited Command] : Led (newCluster n Command) (.new ⟨0, default⟩) := by
  refine ⟨⟨fun _ => rfl, fun _ => rfl, Chronicle.coherent_new rfl, nofun, nofun, nofun, nofun⟩,
    election_new, ?_, rooted_new, shown_new⟩
  intro p within
  cases within

theorem step_led [Inhabited Command] (strict : Prop) (step : Step c a c') (h : Led c m)
    (ok : logSound c a = true)
    (rules : strict → voteNotBehind c a = true ∧ cutsAtConflict c a = true) :
    ∃ m', m.Steps Logs.term strict m' ∧ Led c' m' := by
  simp only [logSound, leadershipSound, Bool.and_eq_true] at ok
  obtain ⟨m', steps, refines⟩ :=
    step_refines step h.refines h.election h.round h.rooted h.shown ok.1.1 ok.2 rules
  exact ⟨m', steps, refines, step_election step h.election ok.1.1, step_roundLed step h.round ok.1.2,
    step_rooted step h.rooted, step_shown step h.shown h.rooted⟩

theorem led_of_run [Inhabited Command] {acts : List (Action n Command)}
    (met : Along step logSound (newCluster n Command) acts)
    (reached : run step (newCluster n Command) acts = some c) : ∃ m, Led c m := by
  refine run_invariant (fun c => ∃ m, Led c m) ?_ ⟨_, led_new⟩ acts met reached
  rintro s a t ⟨m, led⟩ ok taken
  obtain ⟨m', _, led'⟩ := step_led False (step_cases taken).2 led ok False.elim
  exact ⟨m', led'⟩

end DistSys.Consensus
