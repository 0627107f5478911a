import DistSys.Kv.Convergence
import DistSys.Lib.Versions

/-! The gossip of the query actors dies out: without new contents and new neighbours, actors tell
each other a bounded number of updates, in whatever order the messages are delivered. An actor
passes on only what it has taken over, and of the versions that there are it takes over each at
most once. -/
namespace DistSys.Kv

open DistSys.Lib DistSys.Actor

variable {a b : QueryActor} {key : String} {content : Content} {m : Msg} {now : Nat}
  {pool : List (String × Content)}

/-- The messages that bring a new content or a new neighbour. -/
def Msg.stirs : Msg → Bool
  | .mPut .. => true
  | .mIntro .. => true
  | .mRIntro _ => true
  | _ => false

/-- The contents that a message spreads. -/
def Msg.versions : Msg → List (String × Content)
  | .mUpdate putList => putList.entries.map fun entry => (entry.1, entry.2)
  | _ => []

theorem mem_versions {putList : Map String Content} :
    (key, content) ∈ (Msg.mUpdate putList).versions ↔ putList.lookup key = some content := by
  rw [Msg.versions, List.mem_map, ← Map.mem_entries]
  constructor
  · rintro ⟨⟨_, _⟩, member, ⟨⟩⟩
    exact member
  · exact fun member => ⟨_, member, rfl⟩

/-! ### What an actor has left to pass on -/

namespace QueryActor

/-- The number of versions of a pool that the actor would take over. -/
def ahead (pool : List (String × Content)) (a : QueryActor) : Nat :=
  pool.countP fun version => newer (a.storage.lookup version.1) version.2

/-- The updates that the actor can still tell: to each target one for what it has to pass on now,
and one for each version that it would take over. -/
def budget (pool : List (String × Content)) (a : QueryActor) : Nat :=
  a.targets.length * (a.ahead pool + if 0 < Map.size a.putList then 1 else 0)

end QueryActor

theorem merge_cases : a.merge key content = a ∨
    newer (a.storage.lookup key) content ∧ a.merge key content = a.store key content := by
  rw [merge_eq]
  split
  · rename_i wins
    exact .inr ⟨wins, rfl⟩
  · exact .inl rfl

theorem ahead_store (wins : newer (a.storage.lookup key) content)
    (known : (key, content) ∈ pool) : (a.store key content).ahead pool < a.ahead pool := by
  unfold QueryActor.ahead
  refine countP_lt ?_ known (decide_eq_true wins) ?_
  · rintro ⟨k, con⟩ still
    rw [decide_eq_true_eq, store_storage] at still
    rw [decide_eq_true_eq]
    split at still
    · rename_i same
      have same : k = key := same
      subst same
      intro old was
      exact (wins old was).trans (still content rfl)
    · exact still
  · rw [decide_eq_true_eq, store_storage, if_pos rfl]
    intro still
    exact lt_irrefl _ (still content rfl)

/-- A message leaves the actor as it is, or there is less that it would take over. -/
theorem ahead_merged (putList : Map String Content)
    (known : ∀ version ∈ (Msg.mUpdate putList).versions, version ∈ pool) :
    putList.foldl QueryActor.merge a = a ∨
      (putList.foldl QueryActor.merge a).ahead pool < a.ahead pool := by
  obtain ⟨entries, nodup⟩ := putList
  simp only [AList.foldl]
  simp only [Msg.versions] at known
  clear nodup
  induction entries generalizing a with
  | nil => exact .inl rfl
  | cons entry rest ih =>
    have here : (entry.1, entry.2) ∈ pool := known _ List.mem_cons_self
    have later := fun version member => known version (List.mem_cons_of_mem _ member)
    rw [List.foldl_cons]
    rcases merge_cases (a := a) with same | ⟨wins, stored⟩
    · rw [same]
      exact ih later
    · right
      rw [stored]
      have less := ahead_store wins here
      rcases ih (a := a.store entry.1 entry.2) later with same | lower
      · rwa [same]
      · exact lower.trans less

def Send.isUpdate (send : Send) : Bool := send.letter.2.isUpdate

theorem targets_merged (putList : Map String Content) :
    (putList.foldl QueryActor.merge a).targets = a.targets := by
  obtain ⟨self, actors, remotes⟩ := merge_frame (a := a) putList
  simp only [QueryActor.targets, self, actors, remotes]

/-- The updates that an actor tells in one step come out of its budget. -/
theorem react_pays (calm : m.stirs = false) (known : ∀ version ∈ m.versions, version ∈ pool) :
    (a.react now m).2.countP Send.isUpdate + (a.react now m).1.budget pool ≤ a.budget pool := by
  cases m with
  | mPut | mIntro | mRIntro => cases calm
  | getReply | putReply | listReply | mList => exact Nat.le_of_eq (Nat.zero_add _)
  | mGet sender key =>
    have told : (a.react now (.mGet sender key)).2.countP Send.isUpdate = 0 := by
      simp only [QueryActor.react, QueryActor.onMessage]
      cases a.storage.lookup key <;> rfl
    rw [told]
    exact Nat.le_of_eq (Nat.zero_add _)
  | mUpdate putList =>
    have targets := targets_merged (a := a) putList
    show 0 + (putList.foldl QueryActor.merge a).budget pool ≤ a.budget pool
    rcases ahead_merged (a := a) putList known with same | lower
    · rw [same, Nat.zero_add]
    -- the putList may have become non-empty, which the version that was taken over pays for
    · rw [Nat.zero_add, QueryActor.budget, QueryActor.budget, targets]
      apply Nat.mul_le_mul_left
      split <;> omega
  | mSync =>
    by_cases some : 0 < Map.size a.putList
    · have updates : (a.targets.map fun ref => Send.tell ref (.mUpdate a.putList)).countP
          Send.isUpdate = a.targets.length := by
        rw [List.countP_map]
        exact List.countP_eq_length.mpr fun _ _ => rfl
      have tick : [Send.tellAfter a.self .mSync].countP Send.isUpdate = 0 := rfl
      have left : QueryActor.budget pool { a with putList := ∅ } =
          a.targets.length * a.ahead pool := rfl
      simp only [QueryActor.react, QueryActor.onMessage, if_pos some]
      rw [List.countP_append, updates, tick, left, QueryActor.budget, if_pos some, Nat.mul_add]
      omega
    · simp only [QueryActor.react, QueryActor.onMessage, if_neg some]
      simp only [QueryActor.budget, if_neg some]
      exact Nat.le_of_eq (Nat.zero_add _)

/-- What an actor has to pass on, and the updates that it tells, are from the pool. -/
theorem react_known (now : Nat) (calm : m.stirs = false) (known : ∀ version ∈ m.versions, version ∈ pool)
    (own : ∀ version ∈ (Msg.mUpdate a.putList).versions, version ∈ pool) :
    (∀ version ∈ (Msg.mUpdate (a.react now m).1.putList).versions, version ∈ pool) ∧
    ∀ send ∈ (a.react now m).2, ∀ version ∈ send.letter.2.versions, version ∈ pool := by
  cases m with
  | mPut | mIntro | mRIntro => cases calm
  | getReply | putReply | listReply =>
    refine ⟨own, ?_⟩
    intro send none
    cases none
  | mList =>
    refine ⟨own, ?_⟩
    intro send member version spread
    cases List.mem_singleton.mp member
    cases spread
  | mGet sender key =>
    refine ⟨own, ?_⟩
    intro send member version spread
    cases List.mem_singleton.mp member
    revert spread
    cases a.storage.lookup key <;> exact fun spread => nomatch spread
  | mUpdate putList =>
    refine ⟨?_, ?_⟩
    · rintro ⟨key, content⟩ member
      have entry := congrArg Prod.snd (merge_all (a := a) (k := key) putList)
      have after : (putList.foldl QueryActor.merge a).putList.lookup key = some content :=
        mem_versions.mp member
      simp only [QueryActor.entry, after] at entry
      split at entry
      · rename_i con comes
        split at entry
        · cases entry
          exact known _ (mem_versions.mpr comes)
        · exact own _ (mem_versions.mpr entry.symm)
      · exact own _ (mem_versions.mpr entry.symm)
    · intro send none
      cases none
  | mSync =>
    refine ⟨?_, ?_⟩
    · intro version none
      cases none
    · intro send member version spread
      rcases List.mem_append.mp member with update | tick
      · split at update
        · obtain ⟨ref, _, rfl⟩ := List.mem_map.mp update
          exact own version spread
        · cases update
      · cases List.mem_singleton.mp tick
        cases spread

/-! ### Any actors, any order -/

/-- Query actors with any neighbours, and the messages on their way. -/
structure Swarm where
  actors : Map ActorRef QueryActor
  flight : List (ActorRef × Msg)

namespace Swarm

/-- `tell`: a message from outside. `deliver`: any message that is on its way, also a tick that
`TellAfter` holds back. `lose`: a message that never arrives. -/
inductive Action where
  | tell (ref : ActorRef) (message : Msg)
  | deliver (i now : Nat)
  | lose (i : Nat)

def step (s : Swarm) : Action → Option Swarm
  | .tell ref message => some { s with flight := s.flight ++ [(ref, message)] }
  | .deliver i now => match s.flight[i]? with
    | none => none
    | some (ref, message) => match s.actors.lookup ref with
      -- a response channel, or no actor of the swarm
      | none => some { s with flight := s.flight.eraseIdx i }
      | some a => some {
          actors := s.actors.insert ref (a.react now message).1
          flight := s.flight.eraseIdx i ++ (a.react now message).2.map Send.letter }
  | .lose i => some { s with flight := s.flight.eraseIdx i }

/-- No MPut, MIntro or MRIntro is delivered, and only the actors tell updates. -/
def calm (s : Swarm) : Action → Bool
  | .tell _ message => !message.isUpdate
  | .deliver i _ => match s.flight[i]? with
    | some (_, message) => !message.stirs
    | none => true
  | .lose _ => true

/-- The updates among the sends. -/
def told (sends : List Send) : List (ActorRef × Msg) :=
  (sends.filter Send.isUpdate).map Send.letter

/-- The updates that are told in a step. -/
def updates (s : Swarm) (action : Action) (_ : Swarm) : List (ActorRef × Msg) :=
  match action with
  | .deliver i now => match s.flight[i]? with
    | some (ref, message) => match s.actors.lookup ref with
      | some a => told (a.react now message).2
      | none => []
    | none => []
  | _ => []

theorem told_length (sends : List Send) : (told sends).length = sends.countP Send.isUpdate := by
  rw [told, List.length_map, List.countP_eq_length_filter]

/-- Every version that the actors pass on is from the pool. -/
structure Pooled (pool : List (String × Content)) (s : Swarm) : Prop where
  own : ∀ {ref a}, s.actors.lookup ref = some a →
    ∀ version ∈ (Msg.mUpdate a.putList).versions, version ∈ pool
  flight : ∀ {letter}, letter ∈ s.flight → ∀ version ∈ letter.2.versions, version ∈ pool

def versions (s : Swarm) : List (String × Content) :=
  (s.actors.entries.flatMap fun entry => (Msg.mUpdate entry.2.putList).versions) ++
    s.flight.flatMap fun letter => letter.2.versions

theorem pooled (s : Swarm) : s.Pooled s.versions where
  own := by
    intro ref a found version member
    apply List.mem_append_left
    exact List.mem_flatMap.mpr ⟨_, Map.mem_entries.mpr found, member⟩
  flight := by
    intro letter here version member
    apply List.mem_append_right
    exact List.mem_flatMap.mpr ⟨letter, here, member⟩

def left (pool : List (String × Content)) (s : Swarm) : Nat :=
  Map.total (QueryActor.budget pool) s.actors

variable {s t : Swarm} {action : Action}

theorem versions_quiet (quiet : m.isUpdate = false) : m.versions = [] := by
  cases m <;> first | rfl | cases quiet

theorem Pooled.fewer (pooled : s.Pooled pool) {flight : List (ActorRef × Msg)}
    (fewer : ∀ letter ∈ flight, letter ∈ s.flight ∨ letter.2.versions = []) :
    Pooled pool { s with flight := flight } where
  own := pooled.own
  flight := by
    intro letter here version member
    rcases fewer letter here with old | none
    · exact pooled.flight old version member
    · rw [none] at member
      cases member

/-- A message comes to an actor. -/
theorem Pooled.delivered {ref : ActorRef} {i now : Nat} (pooled : s.Pooled pool)
    (found : s.flight[i]? = some (ref, m)) (here : s.actors.lookup ref = some a)
    (quiet : m.stirs = false)
    (after : t = {
      actors := s.actors.insert ref (a.react now m).1
      flight := s.flight.eraseIdx i ++ (a.react now m).2.map Send.letter }) :
    t.Pooled pool ∧ (told (a.react now m).2).length + t.left pool ≤ s.left pool := by
  have known := pooled.flight (List.mem_of_getElem? found)
  obtain ⟨own, sent⟩ := react_known now quiet known (pooled.own here)
  have pays : (a.react now m).2.countP Send.isUpdate + (a.react now m).1.budget pool ≤
    a.budget pool := react_pays quiet known
  subst after
  refine ⟨⟨?_, ?_⟩, ?_⟩
  · intro x b found
    rw [Map.lookup_insert] at found
    split at found
    · cases found
      exact own
    · exact pooled.own found
  · intro letter there
    rcases List.mem_append.mp there with old | new
    · exact pooled.flight (List.mem_of_mem_eraseIdx old)
    · obtain ⟨send, member, rfl⟩ := List.mem_map.mp new
      exact sent send member
  · unfold left
    rw [told_length, Map.total_insert, Map.total_found _ here]
    omega

theorem Pooled.step (pooled : s.Pooled pool) (allowed : s.calm action = true)
    (taken : s.step action = some t) :
    t.Pooled pool ∧ (s.updates action t).length + t.left pool ≤ s.left pool := by
  have fewer : ∀ i, Pooled pool { s with flight := s.flight.eraseIdx i } := fun i =>
    pooled.fewer fun letter here => .inl (List.mem_of_mem_eraseIdx here)
  cases action with
  | tell ref message =>
    cases taken
    simp only [calm, Bool.not_eq_true'] at allowed
    refine ⟨pooled.fewer ?_, Nat.le_of_eq (Nat.zero_add _)⟩
    intro letter here
    rcases List.mem_append.mp here with old | new
    · exact .inl old
    · cases List.mem_singleton.mp new
      exact .inr (versions_quiet allowed)
  | lose i =>
    cases taken
    exact ⟨fewer i, Nat.le_of_eq (Nat.zero_add _)⟩
  | deliver i now =>
    simp only [Swarm.step] at taken
    split at taken
    · cases taken
    · rename_i ref message found
      simp only [calm, found, Bool.not_eq_true'] at allowed
      simp only [updates, found]
      split at taken
      · rename_i none
        cases taken
        simp only [none]
        exact ⟨fewer i, Nat.le_of_eq (Nat.zero_add _)⟩
      · rename_i a here
        simp only [here]
        exact pooled.delivered found here allowed (Option.some.inj taken).symm

/-- The updates that a run tells are bounded by its first state alone. -/
theorem updates_bounded (s : Swarm) {actions : List Action} (met : Along step calm s actions)
    (reached : run step s actions = some t) :
    (trace step updates s actions).flatten.length ≤ s.left s.versions :=
  trace_spends updates (Pooled s.versions) (left s.versions)
    (fun _ _ _ pooled allowed taken => pooled.step allowed taken) s.pooled actions met reached

/-- From every state, with no new content and no new neighbour, there is a bound on the updates that
any run tells. An update is stored to be passed on only when it is newer, and an actor with nothing
to pass on tells nobody but itself. -/
theorem gossip_dies_out (s : Swarm) :
    (∃ most, ∀ actions t, Along step calm s actions → run step s actions = some t →
      (trace step updates s actions).flatten.length ≤ most) ∧
    (∀ (a : QueryActor) (key : String) (content : Content),
      a.merge key content = a ∨
        (∀ con, a.storage.lookup key = some con → con.stamp < content.stamp) ∧
          (a.merge key content).entry key = (some content, some content)) ∧
    ∀ (a : QueryActor) (now : Nat), Map.size a.putList = 0 →
      a.onMessage now .mSync = .ok (a, [.tellAfter a.self .mSync]) := by
  refine ⟨⟨_, fun actions t met reached => updates_bounded s met reached⟩, ?_, ?_⟩
  · intro a key content
    rcases merge_cases (a := a) with same | ⟨wins, stored⟩
    · exact .inl same
    · right
      refine ⟨wins, ?_⟩
      rw [stored, QueryActor.entry, store_storage, store_putList, if_pos rfl, if_pos rfl]
  · intro a now none
    obtain ⟨self, storage, actorList, putList, remoteActorList⟩ := a
    cases Map.eq_empty_of_size none
    rfl

/-- Two actors that know each other; one has a content to pass on. -/
def twoActors : Swarm :=
  let key := (∅ : Map String Content).insert "k" ⟨⟨"localhost:9000", 7⟩, "v", 3⟩
  let both : List ActorRef := [⟨"localhost:9000", 0⟩, ⟨"localhost:9000", 1⟩]
  { actors := ((∅ : Map ActorRef QueryActor).insert ⟨"localhost:9000", 0⟩
        ⟨⟨"localhost:9000", 0⟩, key, both, key, []⟩).insert ⟨"localhost:9000", 1⟩
        ⟨⟨"localhost:9000", 1⟩, ∅, both, ∅, []⟩
    flight := both.map fun ref => (ref, .mSync) }

/-- Each actor ticks and the other one takes its update, and then both tick again. -/
def twoRounds : List Action :=
  [.deliver 0 4, .deliver 1 5, .deliver 0 6, .deliver 1 7, .deliver 0 8, .deliver 0 9]

theorem gossip_dies_out_two : ∃ most t, Along step calm twoActors twoRounds ∧
    run step twoActors twoRounds = some t ∧
    (trace step updates twoActors twoRounds).flatten.length = 2 ∧ 2 ≤ most := by
  obtain ⟨⟨most, bounded⟩, _⟩ := gossip_dies_out twoActors
  exact ⟨most, _, by decide, rfl, rfl, bounded twoRounds _ (by decide) rfl⟩

end Swarm

/-! ### The servers -/

namespace World

/-- No MPut, MIntro or MRIntro is handled. -/
def calm (w : World) : Action → Bool
  | .handle ref _ => match w.net.pop ref with
    | some (message, _) => !message.stirs
    | none => true
  | _ => true

/-- An update is told when it is the next of what a handler has to send. -/
def updates (w : World) (action : Action) (_ : World) : List (ActorRef × Msg) :=
  match action with
  | .send ref => match w.running.lookup ref with
    | some ⟨_, send :: _⟩ => if send.isUpdate then [send.letter] else []
    | _ => []
  | _ => []

/-- Every version that the actors pass on is from the pool. -/
structure Pooled (pool : List (String × Content)) (w : World) : Prop where
  sane : w.Sane
  own : ∀ {ref a}, w.actor ref = some a →
    ∀ version ∈ (Msg.mUpdate a.putList).versions, version ∈ pool
  coming : ∀ {ref m}, w.Coming ref m → ∀ version ∈ m.versions, version ∈ pool

def versions (w : World) : List (String × Content) :=
  (w.running.entries.flatMap fun entry => (Msg.mUpdate entry.2.actor.putList).versions) ++
    w.undelivered.flatMap fun letter => letter.2.versions

variable {w w' : World} {action : Action}

theorem Sane.pooled (sane : w.Sane) : w.Pooled w.versions where
  sane := sane
  own := by
    intro ref a found version member
    obtain ⟨sends, here⟩ := actor_some.mp found
    apply List.mem_append_left
    exact List.mem_flatMap.mpr ⟨_, Map.mem_entries.mpr here, member⟩
  coming := by
    intro ref m coming version member
    have other : m ≠ .mSync := by
      rintro rfl
      cases member
    apply List.mem_append_right
    exact List.mem_flatMap.mpr ⟨_, sane.undelivered coming other, member⟩

theorem versions_request (request : m.isRequest = true) : m.versions = [] := by
  cases m <;> first | rfl | cases request

theorem Pooled.carried {told : Option (ActorRef × Msg)} (pooled : w.Pooled pool) (sane : w'.Sane)
    (carried : Carried w told w') : w'.Pooled pool where
  sane := sane
  own := by
    intro ref a found
    rw [carried.actor] at found
    exact pooled.own found
  coming := by
    intro ref m coming version member
    rcases carried.coming coming with old | request
    · exact pooled.coming old version member
    · rw [versions_request request] at member
      cases member

theorem calm_handled {ref : ActorRef} (handled : Handled w ref now a m w')
    (allowed : w.calm (.handle ref now) = true) : m.stirs = false := by
  simpa only [calm, handled.popped, Bool.not_eq_true'] using allowed

theorem Pooled.step (pooled : w.Pooled pool) (allowed : w.calm action = true)
    (taken : step w action = some w') : w'.Pooled pool := by
  obtain ⟨change, sane⟩ := step_change pooled.sane taken
  cases change with
  | carried carried tame servers => exact pooled.carried sane carried
  | startup found tells carried servers arrives => exact pooled.carried sane carried
  | @handled ref now a m w' handled =>
    have known := pooled.coming (.inl handled.first)
    obtain ⟨after, told⟩ := react_known now (calm_handled handled allowed) known
      (pooled.own handled.before)
    refine ⟨sane, ?_, ?_⟩
    · intro x b found
      rw [handled.actor] at found
      split at found
      · cases found
        exact after
      · exact pooled.own found
    · intro x y coming
      rcases handled.coming coming with old | ⟨send, member, letter⟩
      · exact pooled.coming old
      · have spread := told send member
        rw [letter] at spread
        exact spread
  | hired hired at_address =>
    refine ⟨sane, ?_, ?_⟩
    · intro x b found
      rw [hired.actor] at found
      split at found
      · cases found
        intro version none
        cases none
      · exact pooled.own found
    · intro x y coming version member
      rcases (hired.coming pooled.sane).mp coming with old | new
      · exact pooled.coming old version member
      · rw [hired.tells] at new
        rcases List.mem_append.mp new with intro_ | remote
        · obtain ⟨_, _, same⟩ := List.mem_map.mp intro_
          cases same
          cases member
        · obtain ⟨_, _, same⟩ := List.mem_map.mp remote
          cases same
          cases member

/-- The updates that a query actor has to send and those that it can still tell. -/
def share (pool : List (String × Content)) (entry : Running) : Nat :=
  entry.sends.countP Send.isUpdate + entry.actor.budget pool

def left (pool : List (String × Content)) (w : World) : Nat := Map.total (share pool) w.running

/-- New actors have nobody to tell. -/
theorem total_hire (running : Map ActorRef Running) (refs : List ActorRef) :
    Map.total (share pool) (hire running refs) ≤ Map.total (share pool) running := by
  induction refs generalizing running with
  | nil => exact Nat.le_refl _
  | cons ref rest ih =>
    have idle : share pool ⟨newQueryActor ref, []⟩ = 0 := by
      simp [share, QueryActor.budget, QueryActor.targets, newQueryActor]
    apply (ih (running.insert ref ⟨newQueryActor ref, []⟩)).trans
    rw [Map.total_insert, idle, Nat.zero_add]
    exact Map.total_erase_le _ _ _

theorem send_pays {ref : ActorRef} (sent : send w ref = some w') :
    (w.updates (.send ref) w').length + w'.left pool = w.left pool := by
  -- both kinds of send take the first one off what the actor has to send
  have taken_off : ∀ {actor : QueryActor} {first : Send} {rest : List Send},
      w.running.lookup ref = some ⟨actor, first :: rest⟩ →
      w'.running = w.running.insert ref ⟨actor, rest⟩ →
      (w.updates (.send ref) w').length + w'.left pool = w.left pool := by
    intro actor first rest found running
    rw [left, left, running, Map.total_insert, Map.total_found _ found]
    simp only [updates, found, share, List.countP_cons]
    split
    · rw [List.length_singleton]
      omega
    · rw [List.length_nil]
      omega
  cases send_cases sent with
  | tell actor target m rest found => exact taken_off found rfl
  | tellAfter actor target m rest found => exact taken_off found rfl

theorem handle_pays {ref : ActorRef} (pooled : w.Pooled pool)
    (handled : Handled w ref now a m w') (calm : m.stirs = false) :
    w'.left pool ≤ w.left pool := by
  have known := pooled.coming (.inl handled.first)
  have pays : (a.react now m).2.countP Send.isUpdate + (a.react now m).1.budget pool ≤
    a.budget pool := react_pays calm known
  have after : w'.left pool = Map.total (share pool)
      (w.running.insert ref ⟨(a.react now m).1, (a.react now m).2⟩) := by
    apply Map.total_congr
    intro x
    rw [handled.running, Map.lookup_insert]
  rw [after, left, Map.total_insert, Map.total_found _ handled.idle]
  simp only [share, List.countP_nil]
  omega

theorem step_pays (pooled : w.Pooled pool) (allowed : w.calm action = true)
    (taken : step w action = some w') : (w.updates action w').length + w'.left pool ≤ w.left pool := by
  cases step_cases taken with
  | newServer started =>
    obtain ⟨n, actorRep, others, n', _, _, _, rfl⟩ := newServer_cases started
    exact (Nat.zero_add _).trans_le (total_hire w.running (actorRep :: others))
  | handle handled =>
    obtain ⟨a, m, handled⟩ := handle_spec handled
    exact (Nat.zero_add _).trans_le (handle_pays pooled handled (calm_handled handled allowed))
  | send sent => exact Nat.le_of_eq (send_pays sent)
  | startup | wake | dial | remoteSend | serveRequest | call | newChannel | ask | answer =>
    exact Nat.le_of_eq (Nat.zero_add _)

/-- The servers and their clients, from every state that they reach. -/
theorem updates_bounded {before : List Action} (reached : run step newWorld before = some w) :
    ∃ most, ∀ actions w', Along step calm w actions → run step w actions = some w' →
      (trace step updates w actions).flatten.length ≤ most := by
  have sane : w.Sane := run_keeps Sane
    (fun _ _ _ sane taken => (step_change sane taken).2) sane_new before reached
  refine ⟨w.left w.versions, ?_⟩
  intro actions w' met last
  exact trace_spends updates (Pooled w.versions) (left w.versions)
    (fun _ _ _ pooled allowed taken =>
      ⟨pooled.step allowed taken, step_pays pooled allowed taken⟩) sane.pooled actions met last

end World

end DistSys.Kv
