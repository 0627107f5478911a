import DistSys.Kv.Members
import DistSys.Kv.Replicas

/-! The replicas converge, and a server that joins late catches up. -/
namespace DistSys.Kv

open DistSys.Lib DistSys.Actor

variable {w w' : World} {r x : ActorRef} {m : Msg} {now : Nat} {a : QueryActor} {k : String}
  {action : Action} {s t : Server}

/-! ### What is on its way is undelivered -/

theorem mem_letters_queue {n : Net Msg} (member : m ∈ n.queue r) : (r, m) ∈ letters n := by
  unfold Net.queue at member
  split at member
  · rename_i mailbox found
    obtain ⟨system, here, info⟩ := Option.bind_eq_some_iff.mp (Net.box_mailbox.mp found)
    refine List.mem_append_left _ (List.mem_flatMap.mpr ⟨_, Map.mem_entries.mpr here, ?_⟩)
    refine List.mem_append_left _ (List.mem_flatMap.mpr ⟨_, Map.mem_entries.mpr info, ?_⟩)
    exact List.mem_map.mpr ⟨m, member, rfl⟩
  · cases member

theorem mem_letters_waiting {n : Net Msg} (waiting : n.Waiting r m) : (r, m) ∈ letters n := by
  obtain ⟨src, ⟨mailbox, found, member⟩ | ⟨conn, found, member⟩⟩ := waiting
  · obtain ⟨system, here, remote⟩ := Option.bind_eq_some_iff.mp found
    refine List.mem_append_left _ (List.mem_flatMap.mpr ⟨_, Map.mem_entries.mpr here, ?_⟩)
    refine List.mem_append_right _ (List.mem_flatMap.mpr ⟨_, Map.mem_entries.mpr remote, ?_⟩)
    exact List.mem_map.mpr ⟨_, member, rfl⟩
  · refine List.mem_append_right _ (List.mem_flatMap.mpr ⟨_, Map.mem_entries.mpr found, ?_⟩)
    exact List.mem_map.mpr ⟨_, member, rfl⟩

namespace World

theorem Sane.undelivered (sane : w.Sane) (coming : w.Coming r m) (other : m ≠ .mSync) :
    (r, m) ∈ w.undelivered := by
  rcases coming with queued | waiting | pending
  · exact List.mem_append_left _ (List.mem_append_left _ (mem_letters_queue queued))
  · exact List.mem_append_left _ (List.mem_append_left _ (mem_letters_waiting waiting))
  · rcases pending with @⟨src, entry, send, found, member, letter⟩ | member | ⟨here, member⟩
    · have fits := sane.sends found send member
      refine List.mem_append_left _ (List.mem_append_right _ ?_)
      refine List.mem_flatMap.mpr ⟨_, Map.mem_entries.mpr found, ?_⟩
      refine List.mem_flatMap.mpr ⟨send, member, ?_⟩
      cases send with
      | tell ref y =>
        cases letter
        exact List.mem_cons_self
      | tellAfter ref y =>
        cases letter
        exact absurd fits.2 other
    · exact absurd (sane.timers member).2 other
    · exact List.mem_append_right _ (List.mem_flatMap.mpr ⟨_, here, member⟩)

theorem flushed_spec (flushed : w.flushed = true) (here : w.actor r = some a) :
    a.putList = ∅ := by
  obtain ⟨sends, found⟩ := actor_some.mp here
  have empty := List.all_eq_true.mp flushed _ (Map.mem_entries.mpr found)
  exact Map.eq_empty_of_size (of_decide_eq_true empty)

theorem Sane.settled (sane : w.Sane) (settled : w.settled = true) : (w.gossip k).Settled := by
  obtain ⟨none, flushed⟩ := Bool.and_eq_true_iff.mp settled
  constructor
  · intro r
    cases here : w.actor r with
    | none => simp only [gossip, here, Option.bind_none]
    | some a =>
      rw [fresh_of here, flushed_spec flushed here]
      rfl
  · rintro r content ⟨putList, coming, _⟩
    have absent := List.all_eq_true.mp none _ (sane.undelivered coming (by simp))
    cases absent

/-- In a state without introductions on their way, every actor knows its server. -/
theorem Members.introduced (members : w.Members) (none : ∀ r m, w.Coming r m → m.isIntro = false)
    (here : s ∈ w.servers) (own : r ∈ s.actorList) : ∃ a, w.actor r = some a ∧
      a.actorList = s.actorList ∧ ∀ x ∈ s.remoteServers, x ∈ a.remoteActorList := by
  cases members.phase here own with
  | untold waits =>
    cases none r s.intro (.inr (.inr (.telling here waits)))
  | queued _ queue =>
    cases none r s.intro (.inl (by rw [queue]; simp))
  | introduced _ _ found actorList remotes => exact ⟨_, found, actorList, remotes⟩

/-- An actor that handles MIntro handles it for the first time. -/
theorem Members.alone (members : w.Members) (handled : Handled w r now a m w')
    (intro : m.isMIntro = true) : w.Alone r := by
  obtain ⟨s, here, own⟩ := members.all (mem_running.mpr ⟨a, handled.before⟩)
  cases members.phase here own with
  | untold _ none =>
    cases (isMIntro_of_isIntro (none m handled.first)).symm.trans intro
  | queued _ _ _ _ alone => exact alone
  | introduced _ none => cases (none m handled.first).symm.trans intro

/-- The actors of one server. -/
theorem Members.way_inside (members : w.Members) (sane : w.Sane)
    (none : ∀ r m, w.Coming r m → m.isIntro = false) (here : s ∈ w.servers)
    (one : r ∈ s.actorList) (two : x ∈ s.actorList) :
    Relation.ReflTransGen (w.gossip k).edge r x := by
  by_cases same : r = x
  · rw [same]
  · obtain ⟨a, found, actorList, _⟩ := members.introduced none here one
    refine .single ((edge_of found).mpr (List.mem_append_left _ ?_))
    refine List.mem_filter.mpr ⟨actorList ▸ two, decide_eq_true ?_⟩
    -- they have one address, so it is the counters that differ
    rw [sane.self found]
    intro counter
    apply same
    have address := (members.own here one).1.trans (members.own here two).1.symm
    exact Net.ref_eq_iff.mpr ⟨address, counter.symm⟩

/-- The representatives of a server and of a server that it was given. -/
theorem Members.edges_between (members : w.Members)
    (none : ∀ r m, w.Coming r m → m.isIntro = false) (here : s ∈ w.servers)
    (given : t.actorRep ∈ s.remoteServers) :
    (w.gossip k).edge s.actorRep t.actorRep ∧ (w.gossip k).edge t.actorRep s.actorRep := by
  constructor
  · obtain ⟨a, found, _, remotes⟩ := members.introduced none here (members.rep here)
    exact (edge_of found).mpr (List.mem_append_right _ (remotes _ given))
  · rcases members.joined here given with ⟨a, found, joined⟩ | coming
    · exact (edge_of found).mpr (List.mem_append_right _ joined)
    · cases none _ _ coming

/-- The actors of two servers whose representatives know each other. -/
theorem Members.way_between (members : w.Members) (sane : w.Sane)
    (none : ∀ r m, w.Coming r m → m.isIntro = false) (here : s ∈ w.servers)
    (there : t ∈ w.servers) (edge : (w.gossip k).edge s.actorRep t.actorRep)
    (one : r ∈ s.actorList) (two : x ∈ t.actorList) :
    Relation.ReflTransGen (w.gossip k).edge r x :=
  (members.way_inside sane none here one (members.rep here)).trans
    (.head edge (members.way_inside sane none there (members.rep there) two))

end World

/-! ### Conditions on a run -/

/-- A Put reads its clock later than all Puts before it. -/
def clockAdvances (w : World) : Action → Bool
  | .handle ref now => match w.net.queue ref with
    | .mPut .. :: _ => w.puts.all fun put => put.2.timeStamp < now
    | _ => true
  | _ => true

/-- An actor that handles MRIntro has still to pass on all that it stores. -/
def joinedUnsynced (w : World) : Action → Bool
  | .handle ref _ => match w.net.queue ref, w.running.lookup ref with
    | .mRIntro _ :: _, some ⟨actor, _⟩ =>
      actor.storage.entries.all fun entry => actor.putList.lookup entry.1 = some entry.2
    | _, _ => true
  | _ => true

/-- A new server is given the descriptions of all earlier ones. -/
def descriptionsGiven (w : World) : Action → Bool
  | .newServer _ _ remoteServers => w.servers.all fun server => server.actorRep ∈ remoteServers
  | _ => true

/-- Every MIntro and MRIntro is handled before the first Put. -/
def introducedFirst (w : World) : Action → Bool
  | .newServer .. => w.puts.isEmpty
  | .handle ref _ => match w.net.queue ref with
    | .mPut .. :: _ => w.undelivered.all fun letter => !letter.2.isIntro
    | _ => true
  | _ => true

namespace World

structure Replicated (w : World) : Prop where
  sane : w.Sane
  members : w.Members
  sound : ∀ k, (w.gossip k).Sound Content.stamp

theorem replicated_new : newWorld.Replicated :=
  ⟨sane_new, members_new, fun _ => gossip_new ▸ Gossip.sound_new⟩

theorem Replicated.next (replicated : w.Replicated) (clock : clockAdvances w action = true)
    (joins : joinedUnsynced w action = true) (taken : step w action = some w') :
    w'.Replicated := by
  obtain ⟨sane, members, sound⟩ := replicated
  obtain ⟨change, sane'⟩ := step_change sane taken
  refine ⟨sane', members.change sane change, fun k => ?_⟩
  cases change with
  | carried carried | startup _ _ carried => exact gossip_carried sane carried ▸ sound k
  | hired hired => exact gossip_hired sane hired ▸ sound k
  | handled handled =>
    rename_i r now a m
    refine (sound k).moves (moves_handled (sound k) handled ?_ ?_ ?_)
    · intro put member
      cases m with
      | mPut =>
        simp only [clockAdvances, handled.next, List.all_eq_true, decide_eq_true_eq] at clock
        exact clock
      | mGet | mList | mIntro | mSync | mUpdate | mRIntro | getReply | putReply | listReply =>
        cases member
    · rintro actorList remotes rfl
      obtain ⟨actors, remotes⟩ := (members.alone handled rfl).lists handled.before
      rw [QueryActor.targets, actors, remotes]
      rfl
    · intro intro content stored
      cases m with
      | mIntro => exact (members.alone handled rfl).covered handled.before stored
      | mRIntro =>
        simp only [joinedUnsynced, handled.next, handled.idle, List.all_eq_true,
          decide_eq_true_eq] at joins
        exact joins ⟨k, content⟩ (Map.mem_entries.mpr stored)
      | mGet | mPut | mList | mSync | mUpdate | getReply | putReply | listReply => cases intro

/-- The run of a system whose servers all meet before the first Put. -/
structure Ordered (w : World) : Prop extends w.Replicated where
  chain : w.servers.Pairwise fun s t => s.actorRep ∈ t.remoteServers
  first : w.puts ≠ [] → ∀ r m, w.Coming r m → m.isIntro = false

/-- Before the first Put nothing is stored. -/
theorem Replicated.empty (replicated : w.Replicated) (none : w.puts = [])
    (here : w.actor r = some a) : a.storage.lookup k = Option.none := by
  cases stored : a.storage.lookup k with
  | none => rfl
  | some content =>
    obtain ⟨last, found, _⟩ := (replicated.sound k).latest
      (.inl ⟨r, (held_of here).trans stored⟩)
    have found : lastPut w.puts k = some last := found
    rw [none] at found
    cases found

theorem Ordered.joinedUnsynced (ordered : w.Ordered) : joinedUnsynced w action = true := by
  unfold Kv.joinedUnsynced
  split
  · rename_i ref now
    split
    · rename_i sender rest actor sends queue found
      have none : w.puts = [] := by
        by_contra some
        have intro := ordered.first some ref (.mRIntro sender) (.inl (by rw [queue]; simp))
        cases intro
      apply List.all_eq_true.mpr
      rintro ⟨k, content⟩ entry
      have stored := ordered.empty (k := k) none (actor_some.mpr ⟨sends, found⟩)
      rw [Map.mem_entries.mp entry] at stored
      cases stored
    · rfl
  · rfl

theorem Ordered.chain_step (ordered : w.Ordered) (given : descriptionsGiven w action = true)
    (change : Change w action w') :
    w'.servers.Pairwise fun s t => s.actorRep ∈ t.remoteServers := by
  rcases change.onward with onward | ⟨address, count, s, rfl, _, hired⟩
  · have chain : (w.servers.map Server.fixed).Pairwise fun s t => s.actorRep ∈ t.remoteServers :=
      List.pairwise_map.mpr ordered.chain
    rw [← onward.fixed] at chain
    exact List.pairwise_map.mp chain
  · rw [hired.servers]
    refine List.pairwise_append.mpr ⟨ordered.chain, List.pairwise_singleton _ _, ?_⟩
    intro t old new same
    cases List.mem_singleton.mp same
    simp only [descriptionsGiven, List.all_eq_true, decide_eq_true_eq] at given
    exact given t old

theorem Ordered.first_step (ordered : w.Ordered) (early : introducedFirst w action = true)
    (change : Change w action w') (some : w'.puts ≠ []) :
    ∀ r m, w'.Coming r m → m.isIntro = false := by
  intro x y coming
  cases change with
  | carried carried | startup _ _ carried =>
    rcases carried.coming coming with old | request
    · exact ordered.first (carried.puts ▸ some) x y old
    · exact isRequest_intro request
  | hired hired =>
    rw [hired.puts] at some
    exact absurd (List.isEmpty_iff.mp early) some
  | handled handled =>
    rename_i r now a m
    have fits := ordered.sane.letters (.inl handled.first)
    rcases handled.coming coming with old | ⟨send, member, letter⟩
    · by_cases before : w.puts = []
      · -- this is the first Put, and every introduction has been handled
        have early : ∀ letter ∈ w.undelivered, letter.2.isIntro = false := by
          cases m with
          | mPut =>
            simpa only [introducedFirst, handled.next, List.all_eq_true,
              Bool.not_eq_true'] using early
          | mGet | mList | mIntro | mSync | mUpdate | mRIntro | getReply | putReply | listReply =>
            rw [handled.puts, before] at some
            exact absurd rfl some
        cases y with
        | mSync => rfl
        | mGet | mPut | mList | mIntro | mUpdate | mRIntro | getReply | putReply | listReply =>
          exact early _ (ordered.sane.undelivered old (by simp))
      · exact ordered.first before x y old
    · have tame := ((ordered.sane.reacts now handled.before fits).2.2 send member).1.tame
      rw [letter] at tame
      exact tame

theorem Ordered.next (ordered : w.Ordered) (clock : clockAdvances w action = true)
    (given : descriptionsGiven w action = true) (early : introducedFirst w action = true)
    (taken : step w action = some w') : w'.Ordered where
  toReplicated := ordered.toReplicated.next clock ordered.joinedUnsynced taken
  chain := ordered.chain_step given (step_change ordered.sane taken).1
  first := ordered.first_step early (step_change ordered.sane taken).1

theorem ordered_new : newWorld.Ordered where
  toReplicated := replicated_new
  chain := List.Pairwise.nil
  first := by
    intro some
    exact absurd rfl some

/-- Two servers, in either order. -/
theorem Ordered.way (ordered : w.Ordered) (none : ∀ r m, w.Coming r m → m.isIntro = false)
    (here : s ∈ w.servers) (there : t ∈ w.servers) (one : r ∈ s.actorList)
    (two : x ∈ t.actorList) : Relation.ReflTransGen (w.gossip k).edge r x := by
  have members := ordered.members
  by_cases same : s = t
  · subst same
    exact members.way_inside ordered.sane none here one two
  · have either : w.servers.Pairwise fun s t =>
        s.actorRep ∈ t.remoteServers ∨ t.actorRep ∈ s.remoteServers :=
      ordered.chain.imp .inl
    have : Std.Symm fun s t : Server =>
        s.actorRep ∈ t.remoteServers ∨ t.actorRep ∈ s.remoteServers := ⟨fun _ _ => Or.symm⟩
    have known := either.forall here there same
    have edge : (w.gossip k).edge s.actorRep t.actorRep := by
      rcases known with given | given
      · exact (members.edges_between none there given).2
      · exact (members.edges_between none here given).1
    exact members.way_between ordered.sane none here there edge one two

theorem Ordered.converged (ordered : w.Ordered) (settled : w.settled = true) (here : s ∈ w.servers)
    (own : r ∈ s.actorList) :
    ∃ a, w.actor r = some a ∧ ∀ k, a.storage.lookup k = lastPut w.puts k := by
  have members := ordered.members
  obtain ⟨a, found⟩ := mem_running.mp (members.own here own).2
  refine ⟨a, found, fun k => ?_⟩
  by_cases before : w.puts = []
  · rw [ordered.empty before found, before]
    rfl
  · have none := ordered.first before
    rw [← held_of found]
    apply (ordered.sound k).reached (ordered.sane.settled settled)
    intro n v held
    obtain ⟨b, there, _⟩ := Option.bind_eq_some_iff.mp held
    obtain ⟨t, home, member⟩ := members.all (mem_running.mpr ⟨b, there⟩)
    exact ordered.way none home here member own

end World

/-! ### The replicas converge -/

theorem replicas_converge (actions : List Action) (w : World)
    (clock : Along step clockAdvances newWorld actions)
    (given : Along step descriptionsGiven newWorld actions)
    (introduced : Along step introducedFirst newWorld actions)
    (reached : run step newWorld actions = some w) (settled : w.settled = true) (server : Server)
    (here : server ∈ w.servers) (ref : ActorRef) (own : ref ∈ server.actorList) :
    ∃ actor, w.actor ref = some actor ∧
      ∀ key, actor.storage.lookup key = lastPut w.puts key := by
  have ordered : w.Ordered := by
    refine run_invariant World.Ordered ?_ World.ordered_new actions
      (along_and clock (along_and given introduced)) reached
    intro w action w' ordered met taken
    obtain ⟨clock, met⟩ := Bool.and_eq_true_iff.mp met
    obtain ⟨given, introduced⟩ := Bool.and_eq_true_iff.mp met
    exact ordered.next clock given introduced taken
  exact ordered.converged settled here own

/-- Two servers of one actor, and a Put at the first one. -/
def twoServers : List Action :=
  let r0 : ActorRef := ⟨"localhost:9000", 0⟩
  let r1 : ActorRef := ⟨"localhost:9010", 0⟩
  [.newServer "localhost:9000" 1 [], .startup 0, .handle r0 0, .send r0, .send r0,
    .newServer "localhost:9010" 1 [r0], .startup 1, .startup 1, .handle r1 0, .send r1, .send r1,
    .dial "localhost:9010" "localhost:9000", .remoteSend "localhost:9010" "localhost:9000",
    .serveRequest "localhost:9010" "localhost:9000", .handle r0 0, .send r0, .handle r0 0,
    .handle r0 0, .handle r1 0, .send r1, .handle r1 0,
    .call 0 r0 (.put "k" "v"), .newChannel 0, .ask 0, .handle r0 7, .send r0, .answer 0,
    .wake 0, .handle r0 0, .send r0, .send r0, .dial "localhost:9000" "localhost:9010",
    .remoteSend "localhost:9000" "localhost:9010", .serveRequest "localhost:9000" "localhost:9010",
    .handle r1 0, .wake 0, .handle r1 0, .send r1, .send r1,
    .remoteSend "localhost:9010" "localhost:9000", .serveRequest "localhost:9010" "localhost:9000",
    .handle r0 0]

theorem two_servers_converge : ∃ w, run step newWorld twoServers = some w ∧ w.settled = true ∧
    lastPut w.puts "k" = some ⟨⟨"localhost:9000", 1⟩, "v", 7⟩ ∧
    ∀ server ∈ w.servers, ∀ ref ∈ server.actorList, ∃ actor, w.actor ref = some actor ∧
      ∀ key, actor.storage.lookup key = lastPut w.puts key :=
  ⟨_, rfl, by decide, rfl, fun server here ref own =>
    replicas_converge twoServers _ (by decide) (by decide) (by decide) rfl (by decide) server here
      ref own⟩

/-! ### A server that joins late -/

namespace World

theorem quiet_settled (quiet : w.quiet = true) : w.settled = true := by
  obtain ⟨syncs, flushed⟩ := Bool.and_eq_true_iff.mp quiet
  refine Bool.and_eq_true_iff.mpr ⟨List.all_eq_true.mpr fun letter member => ?_, flushed⟩
  have sync := List.all_eq_true.mp syncs letter member
  split at sync
  · rename_i same
    rw [same]
    rfl
  · cases sync

theorem Sane.quiet (sane : w.Sane) (quiet : w.quiet = true) :
    ∀ r m, w.Coming r m → m.isIntro = false := by
  intro r m coming
  by_cases sync : m = .mSync
  · rw [sync]
    rfl
  · have none := List.all_eq_true.mp (Bool.and_eq_true_iff.mp quiet).1 _
      (sane.undelivered coming sync)
    split at none
    · exact absurd ‹_› sync
    · cases none

theorem Change.forth (change : Change w action w') (here : s ∈ w.servers) :
    ∃ t ∈ w'.servers, s.Later t := by
  rcases change.onward with onward | ⟨_, _, new, _, _, hired⟩
  · exact onward.forth here
  · exact ⟨s, by rw [hired.servers]; exact List.mem_append_left _ here, .refl⟩

/-- A server stays along a run. -/
theorem Replicated.after {actions : List Action} (replicated : w.Replicated)
    (clock : Along step clockAdvances w actions) (joins : Along step joinedUnsynced w actions)
    (reached : run step w actions = some w') :
    w'.Replicated ∧ ∀ {s}, s ∈ w.servers → ∃ t ∈ w'.servers, s.Later t := by
  refine run_invariant (fun u => u.Replicated ∧ ∀ {s}, s ∈ w.servers → ∃ t ∈ u.servers, s.Later t)
    ?_ ⟨replicated, fun here => ⟨_, here, .refl⟩⟩ actions (along_and clock joins) reached
  rintro u action u' ⟨replicated, servers⟩ met taken
  obtain ⟨clock, joins⟩ := Bool.and_eq_true_iff.mp met
  refine ⟨replicated.next clock joins taken, fun here => ?_⟩
  obtain ⟨t, between, later⟩ := servers here
  obtain ⟨t', after, later'⟩ := (step_change replicated.sane taken).1.forth between
  exact ⟨t', after, later.trans later'⟩

/-- Two servers of which one was given the description of the other. -/
theorem Replicated.agree (replicated : w.Replicated) (quiet : w.quiet = true)
    (here : s ∈ w.servers) (there : t ∈ w.servers) (given : t.actorRep ∈ s.remoteServers)
    (one : r ∈ s.actorList) (two : x ∈ t.actorList) :
    (w.gossip k).held r = (w.gossip k).held x := by
  obtain ⟨sane, members, sound⟩ := replicated
  have none := sane.quiet quiet
  obtain ⟨forth, back⟩ := members.edges_between none here given
  exact (sound k).agree (sane.settled (quiet_settled quiet))
    (members.way_between sane none here there forth one two)
    (members.way_between sane none there here back two one)

end World

theorem late_server_catches_up (before after : List Action) (w₀ w₁ w : World) (address : String)
    (queryActorCount : Nat) (remoteServers : List ActorRef)
    (clock : Along step clockAdvances newWorld
      (before ++ .newServer address queryActorCount remoteServers :: after))
    (joins : Along step joinedUnsynced newWorld
      (before ++ .newServer address queryActorCount remoteServers :: after))
    (reached : run step newWorld before = some w₀)
    (started : step w₀ (.newServer address queryActorCount remoteServers) = some w₁)
    (later : run step w₁ after = some w) (quiet : w.quiet = true) (old new : Server)
    (there : old ∈ w₀.servers) (given : old.actorRep ∈ remoteServers) (here : new ∈ w₁.servers)
    (joined : new.address = address) (one two : ActorRef) (first : one ∈ old.actorList)
    (second : two ∈ new.actorList) :
    ∃ a b, w.actor one = some a ∧ w.actor two = some b ∧
      ∀ key content, a.storage.lookup key = some content → b.storage.lookup key = some content := by
  obtain ⟨clock₀, clock⟩ := along_append clock reached
  obtain ⟨joins₀, joins⟩ := along_append joins reached
  obtain ⟨start, -⟩ := World.replicated_new.after clock₀ joins₀ reached
  obtain ⟨clock₁, clock⟩ := (along_cons started).mp clock
  obtain ⟨joins₁, joins⟩ := (along_cons started).mp joins
  have joining := start.next clock₁ joins₁ started
  obtain ⟨replicated, servers⟩ := joining.after clock joins later
  obtain ⟨server, hired, at_address, rfl, _⟩ := World.newServer_spec start.sane.reliable started
  have mem : ∀ {s}, s ∈ w₁.servers ↔ s ∈ w₀.servers ∨ s = server := by
    intro s
    rw [hired.servers, List.mem_append, List.mem_singleton]
  -- the server that has just been started is the one at the address
  have same : new = server := by
    rcases mem.mp here with before | same
    · have address := (start.sane.servers before).2
      have present := start.sane.here (start.sane.servers before).1
      rw [address, joined, ← at_address] at present
      exact absurd present hired.unused
    · exact same
  subst same
  obtain ⟨new', last, onward⟩ := servers here
  obtain ⟨old', still, onward'⟩ := servers (mem.mpr (.inl there))
  rw [← onward.actorList] at second
  rw [← onward'.actorList] at first
  rw [← onward'.actorRep, ← onward.remoteServers] at given
  obtain ⟨a, found⟩ := World.mem_running.mp (replicated.members.own still first).2
  obtain ⟨b, found'⟩ := World.mem_running.mp (replicated.members.own last second).2
  refine ⟨a, b, found, found', fun key content stored => ?_⟩
  have agree := replicated.agree (k := key) quiet last still given second first
  rw [World.held_of found, World.held_of found', stored] at agree
  exact agree

/-- A server with a Put joined by another one: at once, or after a tick of MSync. -/
def lateServer (tick : List Action) : List Action × List Action :=
  let r0 : ActorRef := ⟨"localhost:9000", 0⟩
  let r1 : ActorRef := ⟨"localhost:9010", 0⟩
  ([.newServer "localhost:9000" 1 [], .startup 0, .handle r0 0, .send r0, .send r0, .handle r0 0,
    .send r0, .handle r0 0, .call 0 r0 (.put "k" "v"), .newChannel 0, .ask 0, .handle r0 7,
    .send r0, .answer 0] ++ tick,
  [.startup 1, .startup 1, .dial "localhost:9010" "localhost:9000",
    .remoteSend "localhost:9010" "localhost:9000", .serveRequest "localhost:9010" "localhost:9000",
    .handle r0 0, .handle r1 0, .send r1, .send r1, .handle r1 0, .send r1, .handle r1 0])

/-- r0 synchronises, and then r1 does. -/
def syncs : List Action :=
  let r0 : ActorRef := ⟨"localhost:9000", 0⟩
  let r1 : ActorRef := ⟨"localhost:9010", 0⟩
  [.wake 0, .handle r0 0, .send r0, .send r0, .dial "localhost:9000" "localhost:9010",
    .remoteSend "localhost:9000" "localhost:9010", .serveRequest "localhost:9000" "localhost:9010",
    .handle r1 0, .wake 0, .handle r1 0, .send r1, .send r1,
    .remoteSend "localhost:9010" "localhost:9000", .serveRequest "localhost:9010" "localhost:9000",
    .handle r0 0]

theorem late_server_in_time : ∃ w₀ w₁ w,
    run step newWorld (lateServer []).1 = some w₀ ∧
    step w₀ (.newServer "localhost:9010" 1 [⟨"localhost:9000", 0⟩]) = some w₁ ∧
    run step w₁ ((lateServer []).2 ++ syncs) = some w ∧ w.quiet = true ∧
    ∃ a b, w.actor ⟨"localhost:9000", 0⟩ = some a ∧ w.actor ⟨"localhost:9010", 0⟩ = some b ∧
      ∀ key content, a.storage.lookup key = some content → b.storage.lookup key = some content :=
  ⟨_, _, _, rfl, rfl, rfl, by decide, late_server_catches_up (lateServer []).1
    ((lateServer []).2 ++ syncs) _ _ _ "localhost:9010" 1 [⟨"localhost:9000", 0⟩] (by decide)
    (by decide) rfl rfl rfl (by decide) _ _ (List.mem_singleton.mpr rfl) (by decide)
    (List.mem_append_right _ List.mem_cons_self) rfl _ _ (by decide) (by decide)⟩

/-- MSync empties the putList before MRIntro comes: nobody ever tells the new server the value. -/
theorem late_server_misses_value : ∃ w₀ w₁ w,
    let tick : List Action := [.wake 0, .handle ⟨"localhost:9000", 0⟩ 0,
      .send ⟨"localhost:9000", 0⟩]
    run step newWorld (lateServer tick).1 = some w₀ ∧
    step w₀ (.newServer "localhost:9010" 1 [⟨"localhost:9000", 0⟩]) = some w₁ ∧
    run step w₁ (lateServer tick).2 = some w ∧
    Along step clockAdvances newWorld ((lateServer tick).1 ++
      .newServer "localhost:9010" 1 [⟨"localhost:9000", 0⟩] :: (lateServer tick).2) ∧
    w.quiet = true ∧
    ∃ a b, w.actor ⟨"localhost:9000", 0⟩ = some a ∧ w.actor ⟨"localhost:9010", 0⟩ = some b ∧
      a.storage.lookup "k" = some ⟨⟨"localhost:9000", 1⟩, "v", 7⟩ ∧
      b.storage.lookup "k" = none :=
  ⟨_, _, _, rfl, rfl, rfl, by decide, by decide, _, _, rfl, rfl, rfl, rfl⟩

end DistSys.Kv
