import DistSys.Consensus.Steps
import DistSys.Consensus.Conditions
import DistSys.Lib.Ballots

/-! Terms, votes and elections. The table of calls keeps every answer, so the votes that a
peer has ever given can be read off a state; they are the record of a ballot. -/
namespace DistSys.Consensus

open Function (update)
open DistSys.Lib

variable {n : Nat} {Command : Type} {c c' : Cluster n Command} {a : Action n Command}

theorem update_term_le {p : Fin n} {rf : Raft n Command}
    (le : (c.raft p).currentTerm ≤ rf.currentTerm) (q : Fin n) :
    (c.raft q).currentTerm ≤ (update c.raft p rf q).currentTerm :=
  update_rel (fun a b => a.currentTerm ≤ b.currentTerm) (fun _ => Nat.le_refl _) le q

theorem replyNotOlder_iff {e term : Nat} {el : Election n} (found : c.elections[e]? = some el)
    (pc : el.pc = .higherTerm term) :
    replyNotOlder c (.higherTerm e) = true ↔ (c.raft el.owner).currentTerm ≤ term := by
  obtain ⟨args, calls, votes, pc'⟩ := el
  dsimp only at pc
  subst pc
  simp [replyNotOlder, found, Election.owner]

theorem step_term_iff (step : Step c a c') :
    replyNotOlder c a = true ↔ ∀ p, (c.raft p).currentTerm ≤ (c'.raft p).currentTerm := by
  constructor
  · intro ok p
    have change := step_peer step p
    generalize c'.raft p = rf at change ⊢
    cases change with
    | stands => exact Nat.le_succ _
    | adopted e el votedFor act found =>
      exact (adopt_term (c.raft p) el.args.term) ▸ Nat.le_max_left _ _
    | steppedDown e el term act found pc owner =>
      subst act owner
      exact (replyNotOlder_iff found pc).mp ok
    | followed k call act found server | stored k call act found server le matches_prev =>
      exact (follow_term (c.raft p) call.args.term) ▸ Nat.le_max_left _ _
    | answered k call reply rf applied act found replied sender processed =>
      exact Nat.le_of_eq (congrArg Raft.currentTerm (processAppendEntriesReply_eq processed)).symm
    | kept | lost | crowned | appended | applied => exact Nat.le_refl _
  · intro all
    cases a with
    | higherTerm e =>
      cases step with
      | higherTerm _ el term found pc =>
        exact (replyNotOlder_iff found pc).mpr (by simpa [Raft.stepDown] using all el.owner)
      | crash _ panics => exact False.elim panics
    | _ => rfl

/-- In a run no peer's term ever goes down exactly when no `startElect` acts on a reply
whose term has been passed meanwhile. -/
theorem terms_monotone_iff [Inhabited Command] (acts : List (Action n Command)) :
    (∀ i s a t, run step (newCluster n Command) (acts.take i) = some s → acts[i]? = some a →
      step s a = some t → ∀ p, (s.raft p).currentTerm ≤ (t.raft p).currentTerm) ↔
    Along step replyNotOlder (newCluster n Command) acts := by
  constructor
  · intro all
    apply along_of_all
    intro i s a t reached next taken
    exact (step_term_iff (step_cases taken).2).mpr (all i s a t reached next taken)
  · intro met i s a t reached next taken
    exact (step_term_iff (step_cases taken).2).mp (along_at met reached next taken)

/-- Peer 0 asks in term 1, is answered from term 2, goes on to term 3 by another request
and then takes the answer. -/
theorem term_goes_back : ∃ (acts : List (Action 3 Nat)) (s t : Cluster 3 Nat) (a : Action 3 Nat),
    run step (newCluster 3 Nat) acts = some s ∧ step s a = some t ∧
      (s.raft 0).currentTerm = 3 ∧ (t.raft 0).currentTerm = 2 := by
  let acts : List (Action 3 Nat) :=
    [.electionTimeout 1, .electionTimeout 1, .startElect 1, .startElect 1,
      .electionTimeout 0, .startElect 0, .requestVote 2 1,
      .electionTimeout 2, .electionTimeout 2, .electionTimeout 2,
      .startElect 2, .startElect 2, .startElect 2, .requestVote 5 0, .voteReply 2 1]
  exact ⟨acts, _, _, .higherTerm 2, rfl, rfl, by decide, by decide⟩

/-! ### The ballot -/

/-- The peer has answered this election with its vote, whether or not the answer arrived. -/
def Election.granted (el : Election n) (v : Fin n) : Bool :=
  match (el.calls v).answer with
  | some reply => reply.voteGranted
  | none => false

/-- `v` supports `x` in term `t`: it is `x` and has started an election in `t`, or it has
granted such a request of `x`. -/
def supports (els : List (Election n)) (v : Fin n) (t : Nat) (x : Fin n) : Prop :=
  ∃ el ∈ els, el.args.term = t ∧ el.owner = x ∧ (v = x ∨ el.granted v = true)

instance (els : List (Election n)) (v : Fin n) (t : Nat) (x : Fin n) :
    Decidable (supports els v t x) :=
  inferInstanceAs (Decidable (∃ el ∈ els, _))

def ballots (c : Cluster n Command) : Ballots (Fin n) where
  term := fun v => (c.raft v).currentTerm
  choice := fun v => (c.raft v).votedFor
  cast := supports c.elections

structure Election.Continues (el el' : Election n) : Prop where
  args : el'.args = el.args
  kept : ∀ v, el.granted v = true → el'.granted v = true

theorem mem_set_of_mem {α : Type} {xs : List α} {e : Nat} {x y z : α} (found : xs[e]? = some x)
    (member : z ∈ xs) : z ∈ xs.set e y ∨ z = x := by
  obtain ⟨i, bound, rfl⟩ := List.getElem_of_mem member
  by_cases same : i = e
  · subst same
    rw [List.getElem?_eq_getElem bound] at found
    exact .inr (Option.some.inj found)
  · left
    have at_i : (xs.set e y)[i]? = some xs[i] := by
      rw [List.getElem?_set_ne (Ne.symm same), List.getElem?_eq_getElem bound]
    exact List.mem_of_getElem? at_i

theorem mem_set_self {α : Type} {xs : List α} {e : Nat} {x y : α} (found : xs[e]? = some x) :
    y ∈ xs.set e y := by
  obtain ⟨bound, _⟩ := List.getElem?_eq_some_iff.mp found
  exact List.mem_set bound y

variable {els : List (Election n)} {e : Nat} {el el' : Election n}

theorem supports_set (found : els[e]? = some el) (continues : el.Continues el') {v : Fin n}
    {t : Nat} {x : Fin n} (h : supports els v t x) : supports (els.set e el') v t x := by
  obtain ⟨d, member, term, owner, vote⟩ := h
  rcases mem_set_of_mem (y := el') found member with there | rfl
  · exact ⟨d, there, term, owner, vote⟩
  · refine ⟨el', mem_set_self found, by rw [continues.args, term], ?_,
      vote.imp id (continues.kept v)⟩
    rw [Election.owner, continues.args]
    exact owner

theorem supports_of_set (found : els[e]? = some el) (continues : el.Continues el') {v : Fin n}
    {t : Nat} {x : Fin n} (h : supports (els.set e el') v t x) :
    supports els v t x ∨ (t = el.args.term ∧ x = el.owner ∧ el'.granted v = true) := by
  obtain ⟨d, member, term, owner, vote⟩ := h
  rcases List.mem_or_eq_of_mem_set member with there | rfl
  · exact .inl ⟨d, there, term, owner, vote⟩
  · rw [continues.args] at term
    rw [Election.owner, continues.args] at owner
    rcases vote with self | granted
    · exact .inl ⟨el, List.mem_of_getElem? found, term, owner, .inl self⟩
    · exact .inr ⟨term.symm, owner.symm, granted⟩

theorem supports_append {v : Fin n} {t : Nat} {x : Fin n} : supports (els ++ [el]) v t x ↔
      supports els v t x ∨ (el.args.term = t ∧ el.owner = x ∧ (v = x ∨ el.granted v = true)) := by
  simp only [supports, List.mem_append, List.mem_singleton, or_and_right, exists_or,
    exists_eq_left]

theorem granted_newElection (args : RequestVoteArgs n) (v : Fin n) :
    (newElection args).granted v = false := by
  simp only [Election.granted, newElection]
  split <;> split at * <;> simp_all [Rpc.answer]

theorem granted_update (el : Election n) (v u : Fin n) (rpc : Rpc RequestVoteReply) :
    ({ el with calls := update el.calls v rpc } : Election n).granted u =
      if u = v then (rpc.answer.map RequestVoteReply.voteGranted).getD false
      else el.granted u := by
  by_cases same : u = v
  · subst same
    simp only [Election.granted, Function.update_self, if_true]
    cases rpc.answer <;> rfl
  · simp [Election.granted, same]

theorem receive_args (el : Election n) (v : Fin n) (reply : RequestVoteReply) :
    (el.receive v reply).args = el.args := by
  unfold Election.receive
  dsimp only
  split
  · rfl
  · split
    · split <;> rfl
    · rfl

theorem receive_calls (el : Election n) (v : Fin n) (reply : RequestVoteReply) :
    (el.receive v reply).calls = update el.calls v (.returned reply) := by
  unfold Election.receive
  dsimp only
  split
  · rfl
  · split
    · split <;> rfl
    · rfl

theorem receive_granted {el : Election n} {v : Fin n} {reply : RequestVoteReply}
    (answered : el.calls v = .replied reply) (u : Fin n) :
    (el.receive v reply).granted u = el.granted u := by
  simp only [Election.granted, receive_calls]
  by_cases same : u = v
  · subst same
    simp [answered, Rpc.answer]
  · simp [same]

theorem continues_receive {el : Election n} {v : Fin n} {reply : RequestVoteReply}
    (answered : el.calls v = .replied reply) : el.Continues (el.receive v reply) :=
  ⟨receive_args el v reply, fun u h => (receive_granted answered u).trans h⟩

theorem continues_pc (el : Election n) (pc : ElectPc) : el.Continues { el with pc := pc } :=
  ⟨rfl, fun _ h => h⟩

theorem continues_replied {el : Election n} {v : Fin n} (asked : el.calls v = .requested)
    (reply : RequestVoteReply) :
    el.Continues { el with calls := update el.calls v (.replied reply) } := by
  refine ⟨rfl, ?_⟩
  intro u h
  rw [granted_update]
  split
  · rename_i same
    subst same
    simp [Election.granted, asked, Rpc.answer] at h
  · exact h

theorem supports_replied {v : Fin n} {reply : RequestVoteReply} (found : els[e]? = some el)
    (asked : el.calls v = .requested) {u : Fin n} {t : Nat} {x : Fin n}
    (h : supports (els.set e { el with calls := update el.calls v (.replied reply) }) u t x) :
    supports els u t x ∨
      (u = v ∧ t = el.args.term ∧ x = el.owner ∧ reply.voteGranted = true) := by
  rcases supports_of_set found (continues_replied asked reply) h with old | ⟨rfl, rfl, granted⟩
  · exact .inl old
  · rw [granted_update] at granted
    split at granted
    · rename_i same
      exact .inr ⟨same, rfl, rfl, by simpa [Rpc.answer] using granted⟩
    · exact .inl ⟨el, List.mem_of_getElem? found, rfl, rfl, .inr granted⟩

theorem ballots_next {p : Fin n} {rf : Raft n Command} (raft : c'.raft = update c.raft p rf)
    (le : (c.raft p).currentTerm ≤ rf.currentTerm)
    (stands : ∀ x, rf.currentTerm = (c.raft p).currentTerm → (c.raft p).votedFor = some x →
      rf.votedFor = some x)
    (kept : ∀ v t x, supports c.elections v t x → supports c'.elections v t x)
    (fresh : ∀ v t x, supports c'.elections v t x → supports c.elections v t x ∨
      (v = p ∧ t = rf.currentTerm ∧ rf.votedFor = some x)) :
    (ballots c).Next (ballots c') := by
  constructor
  · intro v
    simp only [ballots, raft]
    exact update_term_le le v
  · intro v x same chosen
    simp only [ballots, raft] at same chosen ⊢
    by_cases eq : v = p
    · subst eq
      simp only [Function.update_self] at same ⊢
      exact stands x same chosen
    · simpa [eq] using chosen
  · exact kept
  · intro v t x h
    rcases fresh v t x h with old | ⟨rfl, now, chosen⟩
    · exact .inl old
    · exact .inr (by simpa [ballots, raft] using ⟨now, chosen⟩)

theorem ballots_same {p : Fin n} {rf : Raft n Command} (raft : c'.raft = update c.raft p rf)
    (term : rf.currentTerm = (c.raft p).currentTerm) (vote : rf.votedFor = (c.raft p).votedFor)
    (same : ∀ v t x, supports c'.elections v t x ↔ supports c.elections v t x) :
    (ballots c).Next (ballots c') :=
  ballots_next raft (Nat.le_of_eq term.symm) (fun _ _ chosen => vote.trans chosen)
    (fun v t x => (same v t x).mpr) (fun v t x h => .inl ((same v t x).mp h))

theorem Ballots.Next.of_eq {b b' : Ballots (Fin n)} (same : b' = b) : b.Next b' := by
  subst same
  exact ⟨fun _ => Nat.le_refl _, fun _ _ _ h => h, fun _ _ _ h => h, fun _ _ _ h => .inl h⟩

theorem supports_of_pc (pc : ElectPc) (found : els[e]? = some el) (v : Fin n) (t : Nat)
    (x : Fin n) : supports (els.set e { el with pc := pc }) v t x ↔ supports els v t x := by
  refine ⟨?_, supports_set found (continues_pc el pc)⟩
  intro h
  rcases supports_of_set found (continues_pc el pc) h with old | ⟨rfl, rfl, vote⟩
  · exact old
  · exact ⟨el, List.mem_of_getElem? found, rfl, rfl, .inr vote⟩

/-- Every step of the cluster is a step of the ballot, when no vote reply from the past
makes a peer forget its vote. -/
theorem step_ballots (step : Step c a c') (ok : replyIsNews c a = true) :
    (ballots c).Next (ballots c') := by
  cases step with
  | startElect p spawned =>
    refine ballots_next rfl (Nat.le_succ _) ?_ ?_ ?_
    · intro x same
      simp [startElect] at same
    · exact fun v t x h => supports_append.mpr (.inl h)
    · intro v t x h
      rcases supports_append.mp h with old | ⟨term, owner, self | granted⟩
      · exact .inl old
      · subst self
        exact .inr ⟨owner.symm, term.symm, congrArg some owner⟩
      · rw [granted_newElection] at granted
        cases granted
  | requestVote e v el rf reply found asked handled =>
    obtain ⟨le, stands, granted⟩ := requestVote_vote handled
    refine ballots_next rfl le stands
      (fun u t x => supports_set found (continues_replied asked reply)) ?_
    intro u t x h
    rcases supports_replied found asked h with old | ⟨rfl, rfl, rfl, given⟩
    · exact .inl old
    · exact .inr ⟨rfl, (granted given).1.symm, (granted given).2⟩
  | voteReply e v el reply found pc answered =>
    have continues := continues_receive answered
    refine ⟨fun _ => Nat.le_refl _, fun _ _ _ h => h,
      fun u t x => supports_set found continues, ?_⟩
    intro u t x h
    rcases supports_of_set found continues h with old | ⟨rfl, rfl, vote⟩
    · exact .inl old
    · rw [receive_granted answered] at vote
      exact .inl ⟨el, List.mem_of_getElem? found, rfl, rfl, .inr vote⟩
  | higherTerm e el term found pc =>
    have same := fun v t x => supports_of_pc .returned found v t x
    obtain ⟨args, calls, votes, pc'⟩ := el
    dsimp only at pc
    subst pc
    simp only [replyIsNews, found, decide_eq_true_eq] at ok
    refine ballots_next rfl ?_ ?_ (fun v t x => (same v t x).mpr)
      (fun v t x h => .inl ((same v t x).mp h))
    · simp only [Raft.stepDown, Election.owner]
      omega
    · intro x now chosen
      simp only [Raft.stepDown, Election.owner] at now chosen
      rcases ok with news | ⟨_, unvoted⟩
      · omega
      · rw [unvoted] at chosen
        cases chosen
  | handOff e el found pc idle =>
    have same := fun v t x => supports_of_pc .returned found v t x
    exact ⟨fun _ => Nat.le_refl _, fun _ _ _ h => h, fun v t x => (same v t x).mpr,
      fun v t x h => .inl ((same v t x).mp h)⟩
  | loseElection p lost el at_hb candidate found owner pc =>
    exact ballots_same rfl rfl rfl (supports_of_pc .returned found)
  | becomeLeader p won received => exact ballots_same rfl rfl rfl (fun _ _ _ => Iff.rfl)
  | appendEntries k call found asked room =>
    rcases appendEntries_cases (c.raft call.server) call.args with
      ⟨_, eq⟩ | ⟨_, _, eq⟩ | ⟨_, _, eq⟩ <;>
      refine ballots_next rfl ?_ ?_ (fun _ _ _ h => h) (fun _ _ _ h => .inl h) <;> rw [eq]
    · exact fun _ _ h => h
    · simp
    · exact fun _ _ h => by simpa using h
    · simp
    · exact fun _ _ h => by simpa using h
  | appendReply k call reply rf applied found answered processed =>
    have term := congrArg Raft.currentTerm (processAppendEntriesReply_eq processed)
    have vote := congrArg Raft.votedFor (processAppendEntriesReply_eq processed)
    exact ballots_same rfl term vote (fun _ _ _ => Iff.rfl)
  | putCommand p command =>
    rcases putCommand_cases (c.raft p) command with ⟨_, eq⟩ | ⟨_, eq⟩ <;>
      exact ballots_same rfl (by rw [eq]) (by rw [eq]) (fun _ _ _ => Iff.rfl)
  | applyCommit p rf spawned done =>
    exact ballots_same rfl (by rw [applyCommit_done done]) (by rw [applyCommit_done done])
      (fun _ _ _ => Iff.rfl)
  | _ => exact Ballots.Next.of_eq rfl

theorem ballots_new [Inhabited Command] : (ballots (newCluster n Command)).Sound := by
  have none : ∀ v t x, ¬ (ballots (newCluster n Command)).cast v t x := by
    rintro v t x ⟨_, member, _⟩
    cases member
  exact ⟨fun v t x h => (none v t x h).elim, fun v x h => (none v _ x h).elim,
    fun v t x _ h => (none v t x h).elim⟩

theorem ballots_sound [Inhabited Command] {acts : List (Action n Command)}
    (met : Along step replyIsNews (newCluster n Command) acts)
    (reached : run step (newCluster n Command) acts = some c) : (ballots c).Sound :=
  run_invariant (fun c => (ballots c).Sound)
    (fun _ _ _ sound ok taken => (step_ballots (step_cases taken).2 ok).sound sound)
    ballots_new acts met reached

/-- A peer supports at most one candidate in a term, over the whole run. -/
theorem one_vote_per_term [Inhabited Command] (acts : List (Action n Command))
    (met : Along step replyIsNews (newCluster n Command) acts) (c : Cluster n Command)
    (reached : run step (newCluster n Command) acts = some c) (v : Fin n) (t : Nat) (x y : Fin n)
    (hx : supports c.elections v t x) (hy : supports c.elections v t y) : x = y :=
  (ballots_sound met reached).unique v t x y hx hy

/-- Peer 1 is in term 2 when peer 0 asks it in term 1. Peer 0 adopts term 2 from the answer
and votes for peer 1 there. -/
theorem one_vote_in_term_two : ∃ c : Cluster 3 Nat,
    run step (newCluster 3 Nat) [.electionTimeout 1, .electionTimeout 1, .startElect 1,
      .startElect 1, .electionTimeout 0, .startElect 0, .requestVote 2 1, .voteReply 2 1,
      .higherTerm 2, .requestVote 1 0] = some c ∧
    supports c.elections 0 2 1 ∧ ∀ y, supports c.elections 0 2 y → y = 1 := by
  refine ⟨_, rfl, by decide, ?_⟩
  intro y hy
  refine one_vote_per_term [.electionTimeout 1, .electionTimeout 1, .startElect 1,
      .startElect 1, .electionTimeout 0, .startElect 0, .requestVote 2 1, .voteReply 2 1,
      .higherTerm 2, .requestVote 1 0] (by decide) _ rfl 0 2 y 1 hy (by decide)

/-- The same two elections, but peer 0 votes for peer 1 before it takes the old answer: it
forgets the vote and gives it to peer 2 as well. -/
theorem votes_twice_in_one_term : ∃ c : Cluster 3 Nat,
    run step (newCluster 3 Nat) [.electionTimeout 1, .electionTimeout 1, .startElect 1,
      .startElect 1, .electionTimeout 0, .startElect 0, .requestVote 2 1, .requestVote 1 0,
      .voteReply 2 1, .higherTerm 2, .electionTimeout 2, .electionTimeout 2, .startElect 2,
      .startElect 2, .requestVote 4 0] = some c ∧
    supports c.elections 0 2 1 ∧ supports c.elections 0 2 2 :=
  ⟨_, rfl, by decide, by decide⟩

/-! ### Elections -/

def Rpc.broughtVote : Rpc RequestVoteReply → Bool
  | .returned reply => reply.voteGranted
  | _ => false

def countedVotes (calls : Fin n → Rpc RequestVoteReply) : Finset (Fin n) :=
  Finset.univ.filter fun v => (calls v).broughtVote = true

structure Election.Tallied (el : Election n) : Prop where
  owner : el.calls el.owner = .idle
  tally : el.totalVotes ≤ (countedVotes el.calls).card + 1
  majority : el.pc = .won → n / 2 < el.totalVotes

theorem tallied_new (args : RequestVoteArgs n) : (newElection args).Tallied := by
  refine ⟨?_, Nat.le_add_left _ _, ?_⟩
  · simp [newElection, Election.owner]
  · intro won
    cases won

theorem Election.Tallied.returned (h : el.Tallied) :
    ({ el with pc := .returned } : Election n).Tallied :=
  ⟨h.owner, h.tally, fun won => by cases won⟩

theorem countedVotes_update (calls : Fin n → Rpc RequestVoteReply) {v : Fin n}
    (before : (calls v).broughtVote = false) (rpc : Rpc RequestVoteReply) :
    (countedVotes calls).card + (if rpc.broughtVote then 1 else 0) ≤
      (countedVotes (update calls v rpc)).card := by
  have old : countedVotes calls ⊆ countedVotes (update calls v rpc) := by
    intro u member
    simp only [countedVotes, Finset.mem_filter, Finset.mem_univ, true_and] at member ⊢
    have other : u ≠ v := by
      rintro rfl
      rw [before] at member
      cases member
    rwa [Function.update_of_ne other]
  by_cases brings : rpc.broughtVote = true
  · have absent : v ∉ countedVotes calls := by simp [countedVotes, before]
    rw [if_pos brings, ← Finset.card_insert_of_notMem absent]
    apply Finset.card_le_card
    intro u member
    rcases Finset.mem_insert.mp member with rfl | there
    · simpa [countedVotes] using brings
    · exact old there
  · rw [if_neg brings]
    exact Finset.card_le_card old

theorem Election.Tallied.apart (h : el.Tallied) {v : Fin n} (called : el.calls v ≠ .idle) :
    el.owner ≠ v :=
  fun eq => called (eq ▸ h.owner)

theorem Election.Tallied.replied (h : el.Tallied) {v : Fin n} (asked : el.calls v = .requested)
    (reply : RequestVoteReply) :
    ({ el with calls := update el.calls v (.replied reply) } : Election n).Tallied := by
  have apart := h.apart (v := v) (by rw [asked]; intro eq; cases eq)
  have counted := countedVotes_update el.calls (v := v) (by rw [asked]; rfl)
    (.replied reply)
  refine ⟨(Function.update_of_ne apart _ _).trans h.owner, ?_, h.majority⟩
  exact Nat.le_trans h.tally (Nat.succ_le_succ counted)

/-- What the reply case does to the count: it grows only by a vote, and the election is
won only beyond half of the peers. -/
theorem receive_count (el : Election n) (v : Fin n) (reply : RequestVoteReply) :
    (el.receive v reply).totalVotes ≤ el.totalVotes + (if reply.voteGranted then 1 else 0) ∧
    ((el.receive v reply).pc = .won → el.pc = .won ∨ n / 2 < (el.receive v reply).totalVotes) := by
  unfold Election.receive
  dsimp only
  split
  · refine ⟨Nat.le_add_right _ _, ?_⟩
    intro won
    cases won
  · split
    · split
      · rename_i enough
        exact ⟨Nat.le_refl _, fun _ => .inr enough⟩
      · exact ⟨Nat.le_refl _, .inl⟩
    · exact ⟨Nat.le_add_right _ _, .inl⟩

theorem Election.Tallied.receive (h : el.Tallied) {v : Fin n} {reply : RequestVoteReply}
    (pc : el.pc = .collecting) (answered : el.calls v = .replied reply) :
    (el.receive v reply).Tallied := by
  have apart := h.apart (v := v) (by rw [answered]; intro eq; cases eq)
  have counted := countedVotes_update el.calls (v := v) (by rw [answered]; rfl)
    (.returned reply)
  have count := receive_count el v reply
  refine ⟨?_, ?_, ?_⟩
  · rw [Election.owner, receive_args, receive_calls]
    exact (Function.update_of_ne apart _ _).trans h.owner
  · rw [receive_calls]
    calc (el.receive v reply).totalVotes
        ≤ el.totalVotes + (if reply.voteGranted then 1 else 0) := count.1
      _ ≤ (countedVotes el.calls).card + 1 + (if reply.voteGranted then 1 else 0) :=
        Nat.add_le_add_right h.tally _
      _ = (countedVotes el.calls).card + (if reply.voteGranted then 1 else 0) + 1 := by omega
      _ ≤ _ := Nat.succ_le_succ counted
  · intro won
    rcases count.2 won with before | enough
    · rw [pc] at before
      cases before
    · exact enough

theorem Election.Tallied.elected (h : el.Tallied) (member : el ∈ c.elections) (won : el.pc = .won) :
    (ballots c).Elected el.args.term el.owner := by
  have absent : el.owner ∉ countedVotes el.calls := by
    intro counted
    rw [countedVotes, Finset.mem_filter, h.owner] at counted
    cases counted.2
  refine ⟨insert el.owner (countedVotes el.calls), ?_, ?_⟩
  · have enough := h.majority won
    have tally := h.tally
    rw [Majority, Finset.card_insert_of_notMem absent, Fintype.card_fin]
    omega
  · intro v voter
    rcases Finset.mem_insert.mp voter with rfl | counted
    · exact ⟨el, member, rfl, rfl, .inl rfl⟩
    · refine ⟨el, member, rfl, rfl, .inr ?_⟩
      simp only [countedVotes, Finset.mem_filter, Finset.mem_univ, true_and] at counted
      unfold Election.granted
      cases call : el.calls v with
      | idle | requested | replied => rw [call] at counted; cases counted
      | returned reply => rw [call] at counted; exact counted

theorem step_tallied (step : Step c a c') (h : ∀ el ∈ c.elections, el.Tallied) :
    ∀ el ∈ c'.elections, el.Tallied := by
  have changed : ∀ {e : Nat} {el el' : Election n}, c.elections[e]? = some el → el'.Tallied →
      ∀ d ∈ c.elections.set e el', d.Tallied := by
    intro e el el' found new d member
    rcases List.mem_or_eq_of_mem_set member with old | rfl
    · exact h d old
    · exact new
  cases step with
  | startElect p spawned =>
    intro el member
    rcases List.mem_append.mp member with old | new
    · exact h el old
    · rw [List.mem_singleton.mp new]
      exact tallied_new _
  | requestVote e v el rf reply found asked handled =>
    exact changed found ((h el (List.mem_of_getElem? found)).replied asked reply)
  | voteReply e v el reply found pc answered =>
    exact changed found ((h el (List.mem_of_getElem? found)).receive pc answered)
  | higherTerm e el term found pc | handOff e el found pc idle
  | loseElection p lost el at_hb candidate found owner pc =>
    exact changed found (h el (List.mem_of_getElem? found)).returned
  | _ => exact h

structure ElectionInv (c : Cluster n Command) : Prop where
  sound : (ballots c).Sound
  tallied : ∀ el ∈ c.elections, el.Tallied
  handOff : ∀ p t, c.main p = .beLeader t → (ballots c).Elected t p
  leader : ∀ p, (c.raft p).electionState = .leader →
    (ballots c).Elected (c.raft p).currentTerm p

theorem step_election (step : Step c a c') (h : ElectionInv c) (ok : electionSound c a = true) :
    ElectionInv c' := by
  rw [electionSound, Bool.and_eq_true] at ok
  have next := step_ballots step ok.1
  have kept := fun t x => Ballots.Elected.mono (t := t) (x := x) next.kept
  refine ⟨next.sound h.sound, step_tallied step h.tallied, ?_, ?_⟩
  · intro p t received
    rcases step_beLeader step received with before | ⟨el, member, won, rfl, rfl⟩
    · exact kept _ _ (h.handOff p t before)
    · exact kept _ _ ((h.tallied el member).elected member won)
  · intro p leader
    obtain ⟨term, before | ⟨rfl, won, received, _⟩⟩ := step_leader step leader
    · rw [term]
      exact kept _ _ (h.leader p before)
    · have same : (c.raft p).currentTerm = won := by simpa [handOffInTerm, received] using ok.2
      rw [term, same]
      exact kept _ _ (h.handOff p won received)

theorem election_new [Inhabited Command] : ElectionInv (newCluster n Command) := by
  refine ⟨ballots_new, ?_, ?_, ?_⟩
  · intro el member
    cases member
  · intro p t received
    cases received
  · intro p leader
    cases leader

theorem election_inv [Inhabited Command] {acts : List (Action n Command)}
    (met : Along step electionSound (newCluster n Command) acts)
    (reached : run step (newCluster n Command) acts = some c) : ElectionInv c :=
  run_invariant ElectionInv (fun _ _ _ h ok taken => step_election (step_cases taken).2 h ok)
    election_new acts met reached

theorem elected_kept {acts : List (Action n Command)} {t : Nat} {x : Fin n}
    (met : Along step electionSound c acts) (reached : run step c acts = some c')
    (elected : (ballots c).Elected t x) : (ballots c').Elected t x := by
  refine run_invariant (fun c => (ballots c).Elected t x) ?_ elected acts met reached
  intro s a s' won ok taken
  rw [electionSound, Bool.and_eq_true] at ok
  exact won.mono (step_ballots (step_cases taken).2 ok.1).kept

/-- Two peers that lead one term, at whatever moments of a run, are one. -/
theorem election_safety [Inhabited Command] (acts : List (Action n Command))
    (met : Along step electionSound (newCluster n Command) acts) (i j : Nat)
    (s t : Cluster n Command) (at_i : run step (newCluster n Command) (acts.take i) = some s)
    (at_j : run step (newCluster n Command) (acts.take j) = some t) (p q : Fin n)
    (leader : (s.raft p).electionState = .leader) (leader' : (t.raft q).electionState = .leader)
    (same : (s.raft p).currentTerm = (t.raft q).currentTerm) : p = q := by
  have ordered : ∀ {i j : Nat} {s t : Cluster n Command} {p q : Fin n}, i ≤ j →
      run step (newCluster n Command) (acts.take i) = some s →
      run step (newCluster n Command) (acts.take j) = some t →
      (s.raft p).electionState = .leader → (t.raft q).electionState = .leader →
      (s.raft p).currentTerm = (t.raft q).currentTerm → p = q := by
    intro i j s t p q le at_i at_j leader leader' same
    obtain ⟨k, rfl⟩ := Nat.exists_eq_add_of_le le
    have before := election_inv (along_take met i at_i).1 at_i
    have after := election_inv (along_take met (i + k) at_j).1 at_j
    obtain ⟨between, met'⟩ := run_between met at_i at_j
    have first := elected_kept met' between (before.leader p leader)
    exact after.sound.elected_unique first (same ▸ after.leader q leader')
  rcases Nat.le_total i j with le | le
  · exact ordered le at_i at_j leader leader' same
  · exact (ordered le at_j at_i leader' leader same.symm).symm

/-- Peer 0 leads term 1, then peer 1 wins term 2 and leads it while peer 0 still believes
in term 1. -/
theorem leaders_of_two_terms : ∃ c : Cluster 3 Nat,
    run step (newCluster 3 Nat) [.electionTimeout 0, .startElect 0, .requestVote 0 1,
      .voteReply 0 1, .handOff 0, .becomeLeader 0, .electionTimeout 1, .startElect 1,
      .requestVote 1 2, .voteReply 1 2, .handOff 1, .becomeLeader 1] = some c ∧
    (c.raft 0).electionState = .leader ∧ (c.raft 1).electionState = .leader ∧
    (c.raft 0).currentTerm ≠ (c.raft 1).currentTerm := by
  refine ⟨_, rfl, by decide, by decide, ?_⟩
  intro same
  have one : (0 : Fin 3) = 1 := election_safety [.electionTimeout 0, .startElect 0,
    .requestVote 0 1, .voteReply 0 1, .handOff 0, .becomeLeader 0, .electionTimeout 1,
    .startElect 1, .requestVote 1 2, .voteReply 1 2, .handOff 1, .becomeLeader 1] (by decide)
    12 12 _ _ rfl rfl 0 1 (by decide) (by decide) same
  cases one

/-- Peer 0 wins term 1 and hands off. Before `mainRoutine` goes on, peer 1 wins term 2 and
peer 0 adopts that term from its request: both are leaders of term 2. -/
theorem two_leaders_in_one_term : ∃ c : Cluster 3 Nat,
    run step (newCluster 3 Nat) [.electionTimeout 0, .startElect 0, .requestVote 0 1,
      .voteReply 0 1, .handOff 0, .electionTimeout 1, .startElect 1, .requestVote 1 2,
      .voteReply 1 2, .handOff 1, .becomeLeader 1, .requestVote 1 0, .becomeLeader 0] = some c ∧
    (c.raft 0).electionState = .leader ∧ (c.raft 0).currentTerm = 2 ∧
    (c.raft 1).electionState = .leader ∧ (c.raft 1).currentTerm = 2 :=
  ⟨_, rfl, by decide, by decide, by decide, by decide⟩

end DistSys.Consensus
