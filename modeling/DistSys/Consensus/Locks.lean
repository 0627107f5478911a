import DistSys.Consensus.Votes

/-! The lock under the sections. Three sections send on a channel while they hold `mux`: the
one of `mainRoutine` that gives up an election, the one of `startElect` that hands its victory
over, and `AppendEntries`. Here such a section takes `mux` in a step of its own and then waits
for its partner; every other section takes `mux` and gives it back in one step. The cluster
below is left as it is. -/
namespace DistSys.Consensus

open Function (update)
open DistSys.Lib

variable {n : Nat} {Command : Type} {c c' : Cluster n Command} {a : Action n Command}

/-- Who holds `mux` across a channel operation: `mainRoutine` at `lostElect`, the election `e`
at `beLeader`, or the handler of the call `k` at a full `receivedHb`. -/
inductive Holder where
  | free
  | lostElect
  | beLeader (e : Nat)
  | receivedHb (k : Nat)
  deriving DecidableEq, Repr

structure Locked (n : Nat) (Command : Type) where
  cluster : Cluster n Command
  mux : Fin n → Holder

def newLocked (n : Nat) (Command : Type) [Inhabited Command] : Locked n Command where
  cluster := newCluster n Command
  mux := fun _ => .free

/-- A whole section, or what is left of one that holds `mux`; or the first part of a section
that sends, up to the channel operation. -/
inductive LockAction (n : Nat) (Command : Type) where
  | act (a : Action n Command)
  | lockLostElect (p : Fin n)
  | lockBeLeader (e : Nat)
  | lockReceivedHb (k : Nat)

/-- The peer under whose `mux` an action runs. -/
def muxOf (c : Cluster n Command) : Action n Command → Option (Fin n)
  | .electionTimeout _ | .voteReply _ _ | .receiveHb _ | .encode _ => none
  | .startElect p | .heartbeat p _ | .becomeLeader p | .checkLeader p | .putCommand p _
  | .applyCommit p => some p
  | .requestVote _ v => some v
  | .higherTerm e | .handOff e => c.elections[e]?.map Election.owner
  | .broadcast p => match c.main p with
    | .broadcast i => if i < n ∧ i ≠ p then some p else none
    | _ => none
  | .appendEntries k => c.appends[k]?.map AppendCall.server
  | .appendReply k => c.appends[k]?.map fun call => call.args.leaderId

/-- Whether an action can go on when `mux` is held like this. -/
def mayRun (c : Cluster n Command) : Action n Command → Holder → Bool
  | .handOff e, holder => holder = .beLeader e
  | .heartbeat p _, holder =>
    if (c.raft p).electionState = .candidate then holder = .lostElect else holder = .free
  | .appendEntries k, holder => holder = .free ∨ (holder = .receivedHb k ∧
    c.appends[k]?.any fun call => c.receivedHb call.server < n)
  | _, holder => holder = .free

def lockStep (l : Locked n Command) : LockAction n Command → Option (Locked n Command)
  | .act a => match muxOf l.cluster a with
    | none => (step l.cluster a).map fun c => { l with cluster := c }
    | some p =>
      if mayRun l.cluster a (l.mux p) then
        (step l.cluster a).map fun c => { cluster := c, mux := update l.mux p .free }
      else none
  | .lockLostElect p =>
    if l.mux p = .free ∧ l.cluster.main p = .receivedHb ∧
        (l.cluster.raft p).electionState = .candidate then
      some { l with mux := update l.mux p .lostElect }
    else none
  | .lockBeLeader e => match l.cluster.elections[e]? with
    | none => none
    | some el =>
      if l.mux el.owner = .free ∧ el.pc = .won then
        some { l with mux := update l.mux el.owner (.beLeader e) }
      else none
  | .lockReceivedHb k => match l.cluster.appends[k]? with
    | none => none
    | some call =>
      if l.mux call.server = .free ∧ call.rpc = .requested ∧
          (l.cluster.raft call.server).currentTerm ≤ call.args.term ∧
          n ≤ l.cluster.receivedHb call.server then
        some { l with mux := update l.mux call.server (.receivedHb k) }
      else none

def collects (p : Fin n) (el : Election n) : Bool := el.owner = p ∧ el.pc = .collecting

/-- `mainRoutine` stands in front of a section. -/
def waitsForMux (c : Cluster n Command) (p : Fin n) : Bool :=
  match c.main p with
  | .select => false
  | .receivedHb | .beLeader _ | .checkLeader => true
  | .broadcast i => i < n ∧ i ≠ p

/-- Somebody holds `mux` at a channel operation, and whoever could be the partner waits for
`mux`. A `startElect` that is not in its `select` waits for `mux` or has returned. -/
def wedged (l : Locked n Command) (p : Fin n) : Bool :=
  match l.mux p with
  | .free => false
  | .lostElect => ¬ l.cluster.elections.any (collects p)
  | .beLeader _ => waitsForMux l.cluster p
  | .receivedHb _ => n ≤ l.cluster.receivedHb p ∧ waitsForMux l.cluster p

/-- A `startElect` that has left its `select` for its last section, as the winner or to step down. -/
def Election.decided (el : Election n) : Bool := el.pc ≠ .collecting ∧ el.pc ≠ .returned

/-- A reply that takes `startElect` out of its `select`: it has a higher term or brings the majority. -/
def Election.decides (el : Election n) (reply : RequestVoteReply) : Bool :=
  el.args.term < reply.term ∨ (reply.voteGranted = true ∧ n / 2 < el.totalVotes + 1)

/-- No election of `p` is decided and has its last section before it. -/
def noneDecided (c : Cluster n Command) (p : Fin n) : Bool :=
  c.elections.all fun el => el.owner ≠ p ∨ ¬ el.decided

/-- Elections and heartbeats keep apart at each peer. A reply that decides an election is taken
while `mainRoutine` is in its `select`, no heartbeat waits and no other election is decided; a
heartbeat comes while no election is decided. -/
def electionsApart (c : Cluster n Command) : Action n Command → Bool
  | .voteReply e v => match c.elections[e]? with
    | some el => match el.calls v with
      | .replied reply => el.decides reply →
        c.main el.owner = .select ∧ c.receivedHb el.owner = 0 ∧ noneDecided c el.owner
      | _ => true
    | none => true
  | .appendEntries k => match c.appends[k]? with
    | some call => (c.raft call.server).currentTerm ≤ call.args.term → noneDecided c call.server
    | none => true
  | _ => true

/-- Also, no heartbeat finds `receivedHb` full. -/
def heartbeatsApart (l : Locked n Command) : LockAction n Command → Bool
  | .act a => electionsApart l.cluster a
  | .lockReceivedHb _ => false
  | .lockLostElect _ | .lockBeLeader _ => true

/-! ### What happens beside a lock -/

/-- What a step does to a peer whose `mux` it does not use. -/
structure Aside (c c' : Cluster n Command) (p : Fin n) : Prop where
  raft : c'.raft p = c.raft p
  at_hb : c.main p = .receivedHb → c'.main p = .receivedHb
  won : ∀ (e : Nat) el, c.elections[e]? = some el → el.owner = p → el.pc = .won →
    ∃ el', c'.elections[e]? = some el' ∧ el'.owner = p ∧ el'.pc = .won

section

variable {els : List (Election n)} {e : Nat} {el el' : Election n} {p : Fin n}

theorem won_of_set (found : els[e]? = some el)
    (still : el.owner = p → el.pc = .won → el'.owner = p ∧ el'.pc = .won) (d : Nat) (x : Election n)
    (there : els[d]? = some x) (owner : x.owner = p) (won : x.pc = .won) :
    ∃ x', (els.set e el')[d]? = some x' ∧ x'.owner = p ∧ x'.pc = .won := by
  have inside := (List.getElem?_eq_some_iff.mp found).1
  by_cases same : e = d
  · subst same
    cases Option.some.inj (found.symm.trans there)
    exact ⟨el', List.getElem?_set_self inside, still owner won⟩
  · exact ⟨x, by rw [List.getElem?_set_ne same, there], owner, won⟩

end

theorem Aside.of_eq {p : Fin n} (raft : c'.raft p = c.raft p) (main : c'.main p = c.main p)
    (els : c'.elections = c.elections) : Aside c c' p :=
  ⟨raft, main.trans, fun _ el found owner won => ⟨el, els ▸ found, owner, won⟩⟩

/-- An election goes on, and the peer's own part of the cluster stays as it is. -/
theorem Aside.of_set {p : Fin n} {e : Nat} {el el' : Election n} (raft : c'.raft p = c.raft p)
    (main : c'.main p = c.main p) (els : c'.elections = c.elections.set e el')
    (found : c.elections[e]? = some el)
    (still : el.owner = p → el.pc = .won → el'.owner = p ∧ el'.pc = .won) : Aside c c' p := by
  refine ⟨raft, main.trans, ?_⟩
  rw [els]
  exact won_of_set found still

/-- `mainRoutine` of `q` moves, from a place where it does not wait for `mux`. -/
theorem Aside.moved {p q : Fin n} {pc : MainPc} (raft : c'.raft p = c.raft p)
    (main : c'.main = update c.main q pc) (els : c'.elections = c.elections)
    (here : q = p → waitsForMux c p = false) : Aside c c' p := by
  refine ⟨raft, fun now => ?_, fun _ el found owner won => ⟨el, els ▸ found, owner, won⟩⟩
  have apart : p ≠ q := by
    rintro rfl
    have idle := here rfl
    simp [waitsForMux, now] at idle
  rw [main, Function.update_of_ne apart, now]

theorem step_aside (step : Step c a c') {p : Fin n} (other : muxOf c a ≠ some p) : Aside c c' p := by
  cases step with
  | startElect q spawned =>
    have apart : p ≠ q := fun eq => other (by simp [muxOf, eq])
    refine ⟨by simp [apart], id, ?_⟩
    intro e el found owner won
    exact ⟨el, by rw [List.getElem?_append_left (List.getElem?_eq_some_iff.mp found).1, found],
      owner, won⟩
  | requestVote e v el rf reply found asked handled =>
    have apart : p ≠ v := fun eq => other (by simp [muxOf, eq])
    exact .of_set (by simp [apart]) rfl rfl found fun owner won => ⟨owner, won⟩
  | voteReply e v el reply found pc answered =>
    refine .of_set rfl rfl rfl found ?_
    intro _ won
    rw [pc] at won
    cases won
  | higherTerm e el term found pc | handOff e el found pc idle =>
    have apart : p ≠ el.owner := fun eq => other (by simp [muxOf, found, eq])
    exact .of_set (by simp [apart]) (by simp [apart]) rfl found fun owner => absurd owner.symm apart
  | receiveHb q idle waiting =>
    exact .moved rfl rfl rfl (by rintro rfl; simp [waitsForMux, idle])
  | loseElection q lost el at_hb candidate found owner pc =>
    have apart : p ≠ q := fun eq => other (by simp [muxOf, eq])
    exact .of_set (by simp [apart]) (by simp [apart]) rfl found
      fun now => absurd (now.symm.trans owner) apart
  | becomeLeader q won received | ignoreHb q lost at_hb state | startRound q at_check leader
  | stopAppend q at_check state =>
    have apart : p ≠ q := fun eq => other (by simp [muxOf, eq])
    exact .moved (by simp [apart]) rfl rfl (fun eq => absurd eq.symm apart)
  | skipSelf q at_self => exact .moved rfl rfl rfl (by rintro rfl; simp [waitsForMux, at_self])
  | send q i args isHeartbeat at_peer away built =>
    have apart : q ≠ p := by
      rintro rfl
      exact other (by simp [muxOf, at_peer, Fin.val_ne_of_ne away])
    exact .moved rfl rfl rfl (fun eq => absurd eq apart)
  | endRound q i at_end behind =>
    refine .moved rfl rfl rfl ?_
    rintro rfl
    simp [waitsForMux, at_end]
    omega
  | appendEntries k call found asked room =>
    have apart : p ≠ call.server := fun eq => other (by simp [muxOf, found, eq])
    exact .of_eq (by simp [apart]) rfl rfl
  | appendReply k call reply rf applied found answered processed =>
    have apart : p ≠ call.args.leaderId := fun eq => other (by simp [muxOf, found, eq])
    exact .of_eq (by simp [apart]) rfl rfl
  | putCommand q command | applyCommit q rf spawned done =>
    have apart : p ≠ q := fun eq => other (by simp [muxOf, eq])
    exact .of_eq (by simp [apart]) rfl rfl
  | _ => exact .of_eq rfl rfl rfl

/-! ### What a locked step is -/

variable {l l' : Locked n Command}

/-- A locked step takes `mux` and waits, or runs an action of the cluster: beside every lock,
or under one `mux` that is free for it and free afterwards. -/
inductive LockStep (l : Locked n Command) : LockAction n Command → Locked n Command → Prop where
  | lockLostElect (p : Fin n) (free : l.mux p = .free) (at_hb : l.cluster.main p = .receivedHb)
      (candidate : (l.cluster.raft p).electionState = .candidate) :
      LockStep l (.lockLostElect p) { l with mux := update l.mux p .lostElect }
  | lockBeLeader (e : Nat) (el : Election n) (found : l.cluster.elections[e]? = some el)
      (free : l.mux el.owner = .free) (pc : el.pc = .won) :
      LockStep l (.lockBeLeader e) { l with mux := update l.mux el.owner (.beLeader e) }
  | lockReceivedHb (k : Nat) (call : AppendCall n Command)
      (found : l.cluster.appends[k]? = some call) (free : l.mux call.server = .free)
      (full : n ≤ l.cluster.receivedHb call.server) :
      LockStep l (.lockReceivedHb k) { l with mux := update l.mux call.server (.receivedHb k) }
  | beside (a : Action n Command) (c' : Cluster n Command) (taken : step l.cluster a = some c')
      (outside : muxOf l.cluster a = none) : LockStep l (.act a) { l with cluster := c' }
  | under (a : Action n Command) (c' : Cluster n Command) (taken : step l.cluster a = some c')
      (p : Fin n) (inside : muxOf l.cluster a = some p)
      (may : mayRun l.cluster a (l.mux p) = true) :
      LockStep l (.act a) { cluster := c', mux := update l.mux p .free }

theorem lockStep_cases {b : LockAction n Command} (taken : lockStep l b = some l') :
    LockStep l b l' := by
  cases b with
  | act a =>
    simp only [lockStep] at taken
    split at taken
    · rename_i outside
      obtain ⟨c', done, rfl⟩ := Option.map_eq_some_iff.mp taken
      exact .beside a c' done outside
    · rename_i p inside
      simp only [Option.ite_none_right_eq_some] at taken
      obtain ⟨may, taken⟩ := taken
      obtain ⟨c', done, rfl⟩ := Option.map_eq_some_iff.mp taken
      exact .under a c' done p inside may
  | lockLostElect p =>
    simp only [lockStep, Option.ite_none_right_eq_some, Option.some.injEq] at taken
    obtain ⟨⟨free, at_hb, candidate⟩, rfl⟩ := taken
    exact .lockLostElect p free at_hb candidate
  | lockBeLeader e =>
    simp only [lockStep] at taken
    split at taken
    · contradiction
    · rename_i el found
      simp only [Option.ite_none_right_eq_some, Option.some.injEq] at taken
      obtain ⟨⟨free, pc⟩, rfl⟩ := taken
      exact .lockBeLeader e el found free pc
  | lockReceivedHb k =>
    simp only [lockStep] at taken
    split at taken
    · contradiction
    · rename_i call found
      simp only [Option.ite_none_right_eq_some, Option.some.injEq] at taken
      obtain ⟨⟨free, _, _, full⟩, rfl⟩ := taken
      exact .lockReceivedHb k call found free full

/-- The lock only takes runs away: what holds of every run of the cluster holds here. -/
theorem locked_run [Inhabited Command] {bs : List (LockAction n Command)}
    (reached : run lockStep (newLocked n Command) bs = some l) :
    ∃ acts, run step (newCluster n Command) acts = some l.cluster := by
  refine run_keeps (fun l => ∃ acts, run step (newCluster n Command) acts = some l.cluster) ?_
    ⟨[], rfl⟩ bs reached
  rintro s b t ⟨acts, before⟩ taken
  cases lockStep_cases taken with
  | lockLostElect | lockBeLeader | lockReceivedHb => exact ⟨acts, before⟩
  | beside a c' done outside | under a c' done p inside may =>
    exact ⟨acts ++ [a], run_append.mpr ⟨_, before, by simp [run, done]⟩⟩

/-! ### Elections and heartbeats apart -/

/-- While an election is decided, `mainRoutine` is in its `select` and no heartbeat waits; a peer has
one such election at most. A candidate has an election that goes on, or is on its way to be leader. -/
structure Apart (c : Cluster n Command) : Prop where
  calm : ∀ el ∈ c.elections, el.decided = true →
    c.main el.owner = .select ∧ c.receivedHb el.owner = 0
  one : ∀ (e d : Nat) el el', c.elections[e]? = some el → c.elections[d]? = some el' →
    el.decided = true → el'.decided = true → el.owner = el'.owner → e = d
  candidate : ∀ p, (c.raft p).electionState = .candidate →
    (∃ el ∈ c.elections, el.owner = p ∧ el.pc ≠ .returned) ∨ ∃ t, c.main p = .beLeader t

theorem noneDecided_iff {p : Fin n} : noneDecided c p = true ↔
    ∀ el ∈ c.elections, el.owner = p → el.decided = false := by
  simp only [noneDecided, List.all_eq_true, decide_eq_true_eq, Bool.not_eq_true]
  exact forall₂_congr fun el _ => by tauto

theorem receive_pc {el : Election n} {v : Fin n} {reply : RequestVoteReply}
    (goes_on : el.decides reply = false) : (el.receive v reply).pc = el.pc := by
  simp only [Election.decides, decide_eq_false_iff_not, not_or, not_and] at goes_on
  unfold Election.receive
  dsimp only
  rw [if_neg goes_on.1]
  split
  · rename_i granted
    rw [if_neg (goes_on.2 granted)]
  · rfl

/-- `Apart` is kept when each election that is decided now was decided before, at a peer that is as
calm as it was, and each candidate was one before and still has what it had. -/
theorem Apart.kept (h : Apart c)
    (old : ∀ (d : Nat) el', c'.elections[d]? = some el' → el'.decided = true →
      ∃ el, c.elections[d]? = some el ∧ el.decided = true ∧ el.owner = el'.owner ∧
        (c.main el.owner = .select → c.receivedHb el.owner = 0 →
          c'.main el.owner = .select ∧ c'.receivedHb el.owner = 0))
    (goes_on : ∀ p, (c'.raft p).electionState = .candidate →
      (c.raft p).electionState = .candidate ∧
      (∀ el ∈ c.elections, el.owner = p → el.pc ≠ .returned →
        (∃ el' ∈ c'.elections, el'.owner = p ∧ el'.pc ≠ .returned) ∨ ∃ t, c'.main p = .beLeader t) ∧
      ∀ t, c.main p = .beLeader t → c'.main p = .beLeader t) : Apart c' := by
  constructor
  · intro el' member decided
    obtain ⟨d, there⟩ := List.getElem?_of_mem member
    obtain ⟨el, before, was, owner, still⟩ := old d el' there decided
    obtain ⟨main, hb⟩ := h.calm el (List.mem_of_getElem? before) was
    exact owner ▸ still main hb
  · intro e d x y at_e at_d first second owner
    obtain ⟨x', at_e', was, same, _⟩ := old e x at_e first
    obtain ⟨y', at_d', was', same', _⟩ := old d y at_d second
    exact h.one e d x' y' at_e' at_d' was was' (same.trans (owner.trans same'.symm))
  · intro p now
    obtain ⟨was, elections, main⟩ := goes_on p now
    rcases h.candidate p was with ⟨el, member, owner, running⟩ | ⟨t, at_leader⟩
    · exact elections el member owner running
    · exact .inr ⟨t, main t at_leader⟩

/-- The step leaves the elections as they are. -/
theorem Apart.same_elections (h : Apart c) (els : c'.elections = c.elections)
    (still : ∀ el ∈ c.elections, el.decided = true → c.main el.owner = .select →
      c.receivedHb el.owner = 0 → c'.main el.owner = .select ∧ c'.receivedHb el.owner = 0)
    (goes_on : ∀ p, (c'.raft p).electionState = .candidate →
      (c.raft p).electionState = .candidate ∧
      ∀ t, c.main p = .beLeader t → c'.main p = .beLeader t) : Apart c' := by
  refine h.kept ?_ ?_
  · intro d el there decided
    rw [els] at there
    exact ⟨el, there, decided, rfl, still el (List.mem_of_getElem? there) decided⟩
  · intro p now
    exact ⟨(goes_on p now).1, fun el member owner running => .inl ⟨el, els ▸ member, owner, running⟩,
      (goes_on p now).2⟩

/-- `mainRoutine` of `q` moves from where it neither selects nor is on its way to be leader. -/
theorem Apart.moved {q : Fin n} {pc : MainPc} (h : Apart c) (els : c'.elections = c.elections)
    (main : c'.main = update c.main q pc) (hb : c'.receivedHb = c.receivedHb)
    (away : c.main q ≠ .select)
    (goes_on : ∀ p, (c'.raft p).electionState = .candidate →
      (c.raft p).electionState = .candidate ∧ (p = q → ∀ t, c.main q ≠ .beLeader t)) :
    Apart c' := by
  refine h.same_elections els ?_ ?_
  · intro el _ _ select none
    have apart : el.owner ≠ q := fun eq => away (eq ▸ select)
    rw [main, Function.update_of_ne apart, hb]
    exact ⟨select, none⟩
  · intro p now
    refine ⟨(goes_on p now).1, fun t at_leader => ?_⟩
    have apart : p ≠ q := fun eq => (goes_on p now).2 eq t (eq ▸ at_leader)
    rw [main, Function.update_of_ne apart, at_leader]

/-- One election goes on, and is not decided by it. -/
theorem Apart.of_set {e : Nat} {el el' : Election n} (h : Apart c)
    (found : c.elections[e]? = some el) (els : c'.elections = c.elections.set e el')
    (owner : el'.owner = el.owner) (undecided : el'.decided = true → el.decided = true)
    (still : ∀ (d : Nat) x, c.elections[d]? = some x → x.decided = true →
      d ≠ e ∨ el'.decided = true → c.main x.owner = .select → c.receivedHb x.owner = 0 →
      c'.main x.owner = .select ∧ c'.receivedHb x.owner = 0)
    (goes_on : ∀ p, (c'.raft p).electionState = .candidate →
      (c.raft p).electionState = .candidate ∧
      (el.owner = p → el.pc ≠ .returned → el'.pc = .returned → ∃ t, c'.main p = .beLeader t) ∧
      ∀ t, c.main p = .beLeader t → c'.main p = .beLeader t) : Apart c' := by
  have inside := (List.getElem?_eq_some_iff.mp found).1
  refine h.kept ?_ ?_
  · intro d x there decided
    rw [els] at there
    by_cases same : e = d
    · subst same
      rw [List.getElem?_set_self inside] at there
      cases Option.some.inj there
      exact ⟨el, found, undecided decided, owner.symm,
        still e el found (undecided decided) (.inr decided)⟩
    · rw [List.getElem?_set_ne same] at there
      exact ⟨x, there, decided, rfl, still d x there decided (.inl (Ne.symm same))⟩
  · intro p now
    obtain ⟨was, concluded, main⟩ := goes_on p now
    refine ⟨was, fun x member mine running => ?_, main⟩
    rw [els]
    rcases mem_set_of_mem (y := el') found member with there | rfl
    · exact .inl ⟨x, there, mine, running⟩
    · by_cases returned : el'.pc = .returned
      · exact .inr (concluded mine running returned)
      · exact .inl ⟨el', mem_set_self found, owner.trans mine, returned⟩

/-- A reply decides an election, at a calm peer without another decided election. -/
theorem Apart.voteReply {e : Nat} {v : Fin n} {el : Election n} {reply : RequestVoteReply}
    (h : Apart c) (found : c.elections[e]? = some el) (pc : el.pc = .collecting)
    (main : c.main el.owner = .select) (hb : c.receivedHb el.owner = 0)
    (none : noneDecided c el.owner = true) :
    Apart { c with elections := c.elections.set e (el.receive v reply) } := by
  have inside := (List.getElem?_eq_some_iff.mp found).1
  have owner : (el.receive v reply).owner = el.owner := by simp [Election.owner, receive_args]
  have only : ∀ (d : Nat) x, (c.elections.set e (el.receive v reply))[d]? = some x →
      x.decided = true → x.owner = el.owner → d = e := by
    intro d x there decided mine
    by_contra other
    rw [List.getElem?_set_ne (Ne.symm other)] at there
    simp [noneDecided_iff.mp none x (List.mem_of_getElem? there) mine] at decided
  have before : ∀ (d : Nat) x, (c.elections.set e (el.receive v reply))[d]? = some x →
      x.owner ≠ el.owner → c.elections[d]? = some x := by
    intro d x there other
    by_cases same : e = d
    · subst same
      rw [List.getElem?_set_self inside] at there
      exact absurd (Option.some.inj there ▸ owner) other
    · rwa [List.getElem?_set_ne same] at there
  constructor
  · intro x member decided
    by_cases mine : x.owner = el.owner
    · exact mine ▸ ⟨main, hb⟩
    · obtain ⟨d, there⟩ := List.getElem?_of_mem member
      exact h.calm x (List.mem_of_getElem? (before d x there mine)) decided
  · intro d d' x y at_d at_d' first second same
    by_cases mine : x.owner = el.owner
    · rw [only d x at_d first mine, only d' y at_d' second (same ▸ mine)]
    · exact h.one d d' x y (before d x at_d mine) (before d' y at_d' (same ▸ mine)) first second same
  · intro p now
    rcases h.candidate p now with ⟨x, member, mine, running⟩ | at_leader
    · rcases mem_set_of_mem (y := el.receive v reply) found member with there | rfl
      · exact .inl ⟨x, there, mine, running⟩
      · refine .inl ⟨_, mem_set_self found, owner.trans mine, ?_⟩
        unfold Election.receive
        dsimp only
        split
        · simp
        · split
          · split <;> simp [pc]
          · simp [pc]
    · exact .inr at_leader

/-- A new election is not decided. -/
theorem Apart.startElect {q : Fin n} (h : Apart c) (new : Election n) (fresh : new.pc = .collecting)
    (els : c'.elections = c.elections ++ [new]) (owner : new.owner = q) (main : c'.main = c.main)
    (hb : c'.receivedHb = c.receivedHb)
    (candidate : ∀ p, p ≠ q → (c'.raft p).electionState = .candidate →
      (c.raft p).electionState = .candidate) : Apart c' := by
  have old : ∀ (d : Nat) x, c'.elections[d]? = some x → x.decided = true →
      c.elections[d]? = some x := by
    intro d x there decided
    rw [els, List.getElem?_append] at there
    split at there
    · exact there
    · rw [List.mem_singleton.mp (List.mem_of_getElem? there)] at decided
      simp [Election.decided, fresh] at decided
  constructor
  · intro x member decided
    obtain ⟨d, there⟩ := List.getElem?_of_mem member
    rw [main, hb]
    exact h.calm x (List.mem_of_getElem? (old d x there decided)) decided
  · intro d d' x y at_d at_d' first second
    exact h.one d d' x y (old d x at_d first) (old d' y at_d' second) first second
  · intro p now
    rw [els, main]
    by_cases mine : p = q
    · exact .inl ⟨new, by simp, owner.trans mine.symm, by simp [fresh]⟩
    · rcases h.candidate p (candidate p mine now) with ⟨x, member, rest⟩ | at_leader
      · exact .inl ⟨x, List.mem_append_left _ member, rest⟩
      · exact .inr at_leader

/-- The winner has handed over, and it was the only decided election of its peer. -/
theorem Apart.handOff {e : Nat} {el : Election n} (h : Apart c) (found : c.elections[e]? = some el)
    (pc : el.pc = .won) (idle : c.main el.owner = .select) :
    Apart { c with
      main := update c.main el.owner (.beLeader el.args.term)
      elections := c.elections.set e { el with pc := .returned } } := by
  have decided : el.decided = true := by simp [Election.decided, pc]
  refine h.of_set found rfl rfl (by simp [Election.decided]) ?_ fun p now => ?_
  · intro d x there second other main hb
    have apart : x.owner ≠ el.owner := fun eq =>
      (other.resolve_right (by simp [Election.decided])) (h.one d e x el there found second decided eq)
    simp [apart, main, hb]
  · refine ⟨now, ?_, fun t at_leader => ?_⟩
    · rintro rfl _ _
      exact ⟨_, Function.update_self ..⟩
    · have apart : p ≠ el.owner := by
        rintro rfl
        simp [idle] at at_leader
      simpa [apart] using at_leader

/-- `mainRoutine` is not in its `select`, so that none of its elections is decided, and its peer is no
candidate afterwards. -/
theorem Apart.loseElection {q : Fin n} {e : Nat} {el : Election n} (h : Apart c)
    (at_hb : c.main q = .receivedHb) (found : c.elections[e]? = some el) (owner : el.owner = q) :
    Apart { c with
      raft := update c.raft q (Consensus.loseElection (c.raft q))
      main := update c.main q .select
      elections := c.elections.set e { el with pc := .returned } } := by
  have busy : ∀ x : Election n, c.main x.owner = .select → x.owner ≠ q := by
    intro x select eq
    simp [eq, at_hb] at select
  refine h.of_set found rfl rfl (by simp [Election.decided]) ?_ fun p now => ?_
  · intro d x there second other main hb
    simp [busy x main, main, hb]
  · by_cases mine : p = q
    · subst mine
      simp [Consensus.loseElection] at now
    · refine ⟨by simpa [mine] using now, fun eq => absurd (eq.symm.trans owner) mine,
        fun t at_leader => ?_⟩
      simpa [mine] using at_leader

/-- A message that comes while an election of its receiver is decided is an old one, and no
heartbeat. -/
theorem stale_while_decided {call : AppendCall n Command} {el : Election n}
    (ok : (c.raft call.server).currentTerm ≤ call.args.term → noneDecided c call.server = true)
    (member : el ∈ c.elections) (decided : el.decided = true) (mine : el.owner = call.server) :
    (appendEntries (c.raft call.server) call.args).receivedHb = false := by
  have stale : ¬ (c.raft call.server).currentTerm ≤ call.args.term := by
    intro current
    simp [noneDecided_iff.mp (ok current) el member mine] at decided
  rcases appendEntries_cases (c.raft call.server) call.args with ⟨_, eq⟩ | ⟨current, _⟩ | ⟨current, _⟩
  · rw [eq]
  · exact absurd current stale
  · exact absurd current stale

theorem step_apart (step : Step c a c') (ok : electionsApart c a = true) (h : Apart c) :
    Apart c' := by
  have was : ∀ p, (c'.raft p).electionState = .candidate → a ≠ .startElect p →
      (c.raft p).electionState = .candidate := fun _ now other =>
    (step_candidate step now).resolve_right other
  cases step with
  | startElect q spawned =>
    refine h.startElect (q := q) _ rfl rfl rfl rfl rfl fun p other now => was p now ?_
    simpa using Ne.symm other
  | requestVote e v el rf reply found asked handled =>
    refine h.of_set found rfl rfl id (fun _ _ _ _ _ main hb => ⟨main, hb⟩) fun p now => ?_
    exact ⟨was p now (by simp), fun _ running returned => absurd returned running, fun _ => id⟩
  | voteReply e v el reply found pc answered =>
    simp only [electionsApart, found, answered, decide_eq_true_eq] at ok
    by_cases decides : el.decides reply = true
    · obtain ⟨main, hb, none⟩ := ok decides
      exact h.voteReply found pc main hb none
    · have same : (el.receive v reply).pc = .collecting :=
        (receive_pc (by simpa using decides)).trans pc
      refine h.of_set found rfl (by simp [Election.owner, receive_args]) (by simp [Election.decided, same])
        (fun _ _ _ _ _ main hb => ⟨main, hb⟩) fun p now => ?_
      exact ⟨now, by simp [same], fun _ => id⟩
  | higherTerm e el term found pc =>
    refine h.of_set found rfl rfl (by simp [Election.decided])
      (fun _ _ _ _ _ main hb => ⟨main, hb⟩) fun p now => ?_
    refine ⟨was p now (by simp), ?_, fun _ => id⟩
    rintro rfl
    simp [Raft.stepDown] at now
  | handOff e el found pc idle => exact h.handOff found pc idle
  | receiveHb q idle waiting =>
    refine h.same_elections rfl ?_ fun p now => ⟨now, fun t at_leader => ?_⟩
    · intro el _ _ main none
      have apart : el.owner ≠ q := by
        rintro rfl
        omega
      simp [apart, main, none]
    · have apart : p ≠ q := by
        rintro rfl
        simp [idle] at at_leader
      simpa [apart] using at_leader
  | loseElection q lost el at_hb candidate found owner pc => exact h.loseElection at_hb found owner
  | ignoreHb q lost at_hb other =>
    exact h.moved rfl rfl rfl (by simp [at_hb]) fun p now => ⟨now, by simp [at_hb]⟩
  | becomeLeader q won received =>
    refine h.moved rfl rfl rfl (by simp [received]) fun p now => ⟨was p now (by simp), ?_⟩
    rintro rfl
    simp [becomeLeader] at now
  | startRound q at_check leader | stopAppend q at_check other =>
    exact h.moved rfl rfl rfl (by simp [at_check]) fun p now => ⟨now, by simp [at_check]⟩
  | skipSelf q at_self =>
    exact h.moved rfl rfl rfl (by simp [at_self]) fun p now => ⟨now, by simp [at_self]⟩
  | send q i args isHeartbeat at_peer other built =>
    exact h.moved rfl rfl rfl (by simp [at_peer]) fun p now => ⟨now, by simp [at_peer]⟩
  | endRound q i at_end behind =>
    exact h.moved rfl rfl rfl (by simp [at_end]) fun p now => ⟨now, by simp [at_end]⟩
  | appendEntries k call found asked room =>
    refine h.same_elections rfl ?_ fun p now => ⟨was p now (by simp), fun _ => id⟩
    intro el member decided main none
    simp only [electionsApart, found, decide_eq_true_eq] at ok
    refine ⟨main, ?_⟩
    by_cases mine : el.owner = call.server
    · rw [mine] at none
      simp [mine, stale_while_decided ok member decided mine, none]
    · simp [mine, none]
  | crash a panics =>
    exact h.same_elections rfl (fun _ _ _ main hb => ⟨main, hb⟩) fun p now => ⟨now, fun _ => id⟩
  | _ =>
    exact h.same_elections rfl (fun _ _ _ main hb => ⟨main, hb⟩)
      fun p now => ⟨was p now (by simp), fun _ => id⟩

/-- What is so while `mux` is held for a channel operation. -/
def Held (l : Locked n Command) (p : Fin n) : Prop :=
  match l.mux p with
  | .free => True
  | .lostElect => l.cluster.main p = .receivedHb ∧ (l.cluster.raft p).electionState = .candidate
  | .beLeader e => ∃ el, l.cluster.elections[e]? = some el ∧ el.owner = p ∧ el.pc = .won
  | .receivedHb _ => False

theorem Held.not_wedged {p : Fin n} (h : Held l p) (apart : Apart l.cluster) :
    wedged l p = false := by
  unfold Held at h
  unfold wedged
  split at h
  · rfl
  · rcases apart.candidate p h.2 with ⟨el, member, owner, running⟩ | ⟨t, at_leader⟩
    · have collecting : el.pc = .collecting := by
        by_contra other
        have calm := apart.calm el member (by simp [Election.decided, other, running])
        rw [owner, h.1] at calm
        cases calm.1
      have there : l.cluster.elections.any (collects p) = true :=
        List.any_eq_true.mpr ⟨el, member, by simp [collects, owner, collecting]⟩
      simp [there]
    · rw [h.1] at at_leader
      cases at_leader
  · obtain ⟨el, found, owner, won⟩ := h
    have calm := apart.calm el (List.mem_of_getElem? found) (by simp [Election.decided, won])
    rw [owner] at calm
    simp [waitsForMux, calm.1]
  · exact h.elim

theorem Held.aside {p : Fin n} (h : Held l p) (aside : Aside l.cluster l'.cluster p)
    (mux : l'.mux p = l.mux p) : Held l' p := by
  unfold Held at h ⊢
  rw [mux]
  split at h
  · trivial
  · exact ⟨aside.at_hb h.1, aside.raft ▸ h.2⟩
  · obtain ⟨el, found, owner, won⟩ := h
    exact aside.won _ el found owner won
  · exact h

theorem Held.taken {p q : Fin n} {holder : Holder} (h : Held l p) (cluster : l'.cluster = l.cluster)
    (mux : l'.mux = update l.mux q holder) (here : p = q → Held l' p) : Held l' p := by
  by_cases same : p = q
  · exact here same
  · unfold Held at h ⊢
    rwa [mux, Function.update_of_ne same, cluster]

/-- A step keeps what the holders of `mux` rely on. -/
theorem step_held {b : LockAction n Command} (step : LockStep l b l')
    (ok : heartbeatsApart l b = true) (h : ∀ p, Held l p) (p : Fin n) : Held l' p := by
  cases step with
  | lockLostElect q free at_hb candidate =>
    refine (h p).taken rfl rfl ?_
    rintro rfl
    simp [Held, at_hb, candidate]
  | lockBeLeader e el found free pc =>
    refine (h p).taken rfl rfl ?_
    rintro rfl
    simp [Held, found, pc]
  | lockReceivedHb k call found free full => cases ok
  | beside a c' done outside =>
    exact (h p).aside (step_aside (step_cases done).2 (by simp [outside])) rfl
  | under a c' done q inside may =>
    by_cases same : p = q
    · simp [Held, same]
    · refine (h p).aside (step_aside (step_cases done).2 ?_) (by simp [same])
      rw [inside]
      exact fun eq => same (Option.some.inj eq).symm

theorem lockStep_apart {b : LockAction n Command} (step : LockStep l b l')
    (ok : heartbeatsApart l b = true) (h : Apart l.cluster) : Apart l'.cluster := by
  cases step with
  | lockLostElect | lockBeLeader | lockReceivedHb => exact h
  | beside a c' done outside | under a c' done q inside may =>
    exact step_apart (step_cases done).2 ok h

/-- As long as elections and heartbeats keep apart, no section holds `mux` for ever. -/
theorem peer_never_wedges [Inhabited Command] (bs : List (LockAction n Command))
    (apart : Along lockStep heartbeatsApart (newLocked n Command) bs) (l : Locked n Command)
    (reached : run lockStep (newLocked n Command) bs = some l) (p : Fin n) : wedged l p = false := by
  have inv := run_invariant (fun l => (∀ p, Held l p) ∧ Apart l.cluster)
    (fun _ _ _ before ok taken => ⟨step_held (lockStep_cases taken) ok before.1,
      lockStep_apart (lockStep_cases taken) ok before.2⟩)
    ⟨fun _ => by simp [Held, newLocked], by simp [newLocked, newCluster], by simp [newLocked, newCluster],
      by simp [newLocked, newCluster, newPeer]⟩ bs apart reached
  exact (inv.1 p).not_wedged inv.2

theorem winner_hands_over : ∃ l : Locked 3 Nat,
    run lockStep (newLocked 3 Nat) [.act (.electionTimeout 0), .act (.startElect 0),
      .act (.requestVote 0 1), .act (.voteReply 0 1), .lockBeLeader 0] = some l ∧
    l.mux 0 = .beLeader 0 ∧ wedged l 0 = false :=
  ⟨_, rfl, by decide, peer_never_wedges [.act (.electionTimeout 0), .act (.startElect 0),
    .act (.requestVote 0 1), .act (.voteReply 0 1), .lockBeLeader 0] (by decide) _ rfl 0⟩

/-- Peer 1 leads term 1 and its heartbeat waits in `receivedHb` of peer 0, whose timer fires.
Its `startElect` wins term 2 and holds `mux` at `beLeader`, while `mainRoutine` has taken the
heartbeat and waits for `mux`. -/
theorem winner_wedges_peer : ∃ l : Locked 3 Nat,
    run lockStep (newLocked 3 Nat) [.act (.electionTimeout 1), .act (.startElect 1),
      .act (.requestVote 0 2), .act (.voteReply 0 2), .lockBeLeader 0, .act (.handOff 0),
      .act (.becomeLeader 1), .act (.checkLeader 1), .act (.broadcast 1), .act (.encode 0),
      .act (.appendEntries 0),
      .act (.electionTimeout 0), .act (.startElect 0), .act (.requestVote 1 2),
      .act (.voteReply 1 2), .act (.receiveHb 0), .lockBeLeader 1] = some l ∧
    l.mux 0 = .beLeader 1 ∧ l.cluster.main 0 = .receivedHb ∧ wedged l 0 = true :=
  ⟨_, rfl, by decide, by decide, by decide⟩

end DistSys.Consensus
