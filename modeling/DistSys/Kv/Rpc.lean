import DistSys.Kv.Convergence

/-! One query actor and its RPC clients: a linearizable map. -/
namespace DistSys.Kv

open DistSys.Lib DistSys.Actor

variable {w w' : World} {r x c : ActorRef} {m : Msg} {now id : Nat} {a : QueryActor} {k : String}
  {action : Action} {args : Args} {reply : Reply} {call : Call} {done pending : List Nat}

/-! ### The sequential map -/

abbrev Store := String → Option String

/-- What an operation makes of the map. -/
def Args.apply (args : Args) (store : Store) : Store :=
  match args with
  | .put key value => Function.update store key (some value)
  | .get _ => store
  | .list _ => store

/-- What the map replies to an operation. -/
def Answers (store : Store) : Args → Reply → Prop
  | .get key, .get value ok => value = (store key).getD "" ∧ ok = (store key).isSome
  | .put _ _, .put => True
  | .list start, .list entries =>
    ∀ key, entries.lookup key = if hasPrefix key start then store key else none
  | _, _ => False

/-- Operations one after the other, from the empty map. -/
def execute (argsOf : Nat → Option Args) (ids : List Nat) : Store :=
  ids.foldl (fun store id => match argsOf id with
    | some args => args.apply store
    | none => store) fun _ => none

def World.argsOf (w : World) (id : Nat) : Option Args := (w.calls.lookup id).map Call.args

theorem execute_append {argsOf : Nat → Option Args} {ids : List Nat} (found : argsOf id = some args) :
    execute argsOf (ids ++ [id]) = args.apply (execute argsOf ids) := by
  simp only [execute, List.foldl_append, List.foldl_cons, List.foldl_nil, found]

theorem execute_congr {argsOf argsOf' : Nat → Option Args} {ids : List Nat}
    (same : ∀ id ∈ ids, argsOf' id = argsOf id) : execute argsOf' ids = execute argsOf ids := by
  unfold execute
  refine List.foldl_ext _ _ _ ?_
  intro store id member
  rw [same id member]

/-! ### The replies of the actor -/

/-- The values of the storage. -/
def QueryActor.values (a : QueryActor) : Store := fun key =>
  (a.storage.lookup key).map Content.value

/-- The loop of MList decides for each key alone. -/
theorem list_lookup {start : String} : (a.list start).lookup k =
    if hasPrefix k start then a.values k else none := by
  let body (entries : Map String String) (key : String) (content : Content) : Map String String :=
    if hasPrefix key start then entries.insert key content.value else entries
  have own : ∀ entries key content, (key, (body entries key content).lookup key) =
      (key, if hasPrefix key start then some content.value else entries.lookup key) := by
    intro entries key content
    simp only [body]
    split
    · rw [Map.lookup_insert, if_pos rfl]
    · rfl
  have other : ∀ entries key content j, j ≠ key →
      (j, (body entries key content).lookup j) = (j, entries.lookup j) := by
    intro entries key content j other
    simp only [body]
    split
    · rw [Map.lookup_insert, if_neg other]
    · rfl
  have loop := congrArg Prod.snd (Map.view_foldl
    (fun (entries : Map String String) key => (key, entries.lookup key))
    (fun content entry => (entry.1,
      if hasPrefix entry.1 start then some content.value else entry.2)) own other ∅ a.storage k)
  unfold QueryActor.values
  cases stored : a.storage.lookup k with
  | none =>
    rw [stored] at loop
    exact loop.trans (ite_self _).symm
  | some content =>
    rw [stored] at loop
    exact loop

/-- An operation is answered at once, in its own channel, from what is stored. -/
theorem react_request (a : QueryActor) (now : Nat) (args : Args) (c : ActorRef) :
    ∃ m reply, (a.react now (args.message c)).2 = [.tell c m] ∧
    args.reply m = some reply ∧ Answers a.values args reply := by
  cases args with
  | get key =>
    cases stored : a.storage.lookup key with
    | none =>
      refine ⟨.getReply "" false, .get "" false, ?_, rfl, ?_⟩
      · simp only [Args.message, QueryActor.react, QueryActor.onMessage, stored]
      · simp [Answers, QueryActor.values, stored]
    | some content =>
      refine ⟨.getReply content.value true, .get content.value true, ?_, rfl, ?_⟩
      · simp only [Args.message, QueryActor.react, QueryActor.onMessage, stored]
      · simp [Answers, QueryActor.values, stored]
  | put key value => exact ⟨.putReply, .put, rfl, rfl, trivial⟩
  | list start =>
    exact ⟨.listReply (a.list start), .list (a.list start), rfl, rfl, fun key => list_lookup⟩

/-- The channel that a call holds. -/
def CallPc.channel : CallPc → Option ActorRef
  | .started => none
  | .hasChannel chanRef => some chanRef
  | .waiting chanRef => some chanRef
  | .returned _ => none

/-! ### One actor on its own -/

/-- The action starts a server. -/
def Action.starts : Action → Bool
  | .newServer .. => true
  | _ => false

namespace World

def sendsOf (w : World) (r : ActorRef) : List Send :=
  match w.running.lookup r with
  | some entry => entry.sends
  | none => []

/-- A single actor, and no message that leaves its system. -/
structure Solo (w : World) (r : ActorRef) : Prop where
  replicated : w.Replicated
  here : r ∈ w.running
  only : ∀ {x}, x ∈ w.running → x = r
  servers : ∀ {s}, s ∈ w.servers → s.remoteServers = []
  unjoined : ∀ {x z}, ¬w.Coming x (.mRIntro z)
  home : ∀ {src dst y}, ¬w.net.Waits src dst y

/-- Without other replicas the last Put of a key is what is stored. -/
theorem Solo.storage (solo : w.Solo r) (found : w.actor r = some a) :
    a.storage.lookup k = lastPut w.puts k := by
  have sound := solo.replicated.sound k
  cases last : lastPut w.puts k with
  | none =>
    cases stored : a.storage.lookup k with
    | none => rfl
    | some content =>
      obtain ⟨l, some, _⟩ := sound.latest (.inl ⟨r, (held_of found).trans stored⟩)
      cases last.symm.trans some
  | some content =>
    obtain ⟨x, held⟩ := sound.kept last
    obtain ⟨b, there, stored⟩ := Option.bind_eq_some_iff.mp held
    cases solo.only (mem_running.mpr ⟨b, there⟩)
    cases found.symm.trans there
    exact stored

theorem Solo.joinedUnsynced (solo : w.Solo r) : joinedUnsynced w action = true := by
  unfold Kv.joinedUnsynced
  split
  · split
    · rename_i sender rest _ _ queue _
      exact absurd (.inl (by rw [queue]; exact List.mem_cons_self)) (solo.unjoined (z := sender))
    · rfl
  · rfl

theorem Solo.unjoined_step (solo : w.Solo r) (change : Change w action w')
    (running : action.starts = false) {z : ActorRef} : ¬w'.Coming x (.mRIntro z) := by
  intro coming
  cases change with
  | carried carried | startup _ _ carried =>
    rcases carried.coming coming with old | request
    · exact solo.unjoined old
    · cases request
  | handled handled =>
    rename_i now a m
    rcases handled.coming coming with old | ⟨send, member, letter⟩
    · exact solo.unjoined old
    · have sane := solo.replicated.sane
      have tame := ((sane.reacts now handled.before
        (sane.letters (.inl handled.first))).2.2 send member).1.tame
      rw [letter] at tame
      cases tame
  | hired => cases running

theorem Solo.next (solo : w.Solo r) (clock : clockAdvances w action = true)
    (running : action.starts = false) (taken : step w action = some w')
    (home : ∀ {src dst y}, ¬w'.net.Waits src dst y) : w'.Solo r := by
  have change := (step_change solo.replicated.sane taken).1
  have member : ∀ {x}, x ∈ w'.running ↔ x ∈ w.running := by
    intro x
    cases change with
    | carried carried | startup _ _ carried => rw [mem_running, mem_running, carried.actor]
    | handled handled => exact handled.member
    | hired => cases running
  constructor
  · exact solo.replicated.next clock solo.joinedUnsynced taken
  · exact member.mpr solo.here
  · exact fun here => solo.only (member.mp here)
  · intro s here
    rcases change.onward with onward | ⟨_, _, _, rfl, _⟩
    · obtain ⟨t, before, later⟩ := onward.back here
      exact later.remoteServers.trans (solo.servers before)
    · cases running
  · exact solo.unjoined_step change running
  · exact home

/-- A message told inside a system waits nowhere. -/
theorem home_tell {n : Net Msg} (home : ∀ {src dst y}, ¬n.Waits src dst y) {src dst : String}
    {y : RemoteMessage Msg} : ¬(n.tell x.address x m).Waits src dst y := by
  rw [Net.Waits, Net.tell_outgoing_same rfl, Net.tell_conns]
  exact home

/-! ### The calls -/

/-- A reply is that of the sequential map, at the place where the call came into the mailbox. -/
def Answered (w : World) (id : Nat) (args : Args) (reply : Reply) : Prop :=
  ∃ before after, w.entered = before ++ id :: after ∧
    Answers (execute w.argsOf before) args reply

/-- The message of a call that waits. -/
def Asks (w : World) (id : Nat) (m : Msg) : Prop :=
  ∃ ref args chanRef, w.calls.lookup id = some ⟨ref, args, .waiting chanRef⟩ ∧
    m = args.message chanRef

/-- The actor is about to send the reply to a call. -/
def Replying (w : World) (r : ActorRef) (id : Nat) (args : Args) (chanRef : ActorRef) : Prop :=
  ∃ m reply, w.sendsOf r = [.tell chanRef m] ∧ w.net.info chanRef = some .respCh ∧
    args.reply m = some reply ∧ w.Answered id args reply

/-- The actor only sends to itself, and no operation. -/
def Busy (w : World) (r : ActorRef) : Prop :=
  ∀ s ∈ w.sendsOf r, s.letter.1 = r ∧ s.letter.2.isRequest = false

/-- The calls that have come into the mailbox are the `done` ones and then the `pending` ones. -/
structure Desk (w : World) (r : ActorRef) (done pending : List Nat) : Prop where
  solo : w.Solo r
  entered : w.entered = done ++ pending
  nodup : w.entered.Nodup
  known : ∀ {id}, id ∈ w.entered → id ∈ w.calls
  requests : List.Forall₂ w.Asks pending ((w.net.queue r).filter Msg.isRequest)
  store : ∀ k, (lastPut w.puts k).map Content.value = execute w.argsOf done k
  unasked : ∀ {id ref args}, w.calls.lookup id = some ⟨ref, args, .started⟩ ∨
    (∃ chanRef, w.calls.lookup id = some ⟨ref, args, .hasChannel chanRef⟩) → id ∉ w.entered
  opened : ∀ {id ref args chanRef}, w.calls.lookup id = some ⟨ref, args, .hasChannel chanRef⟩ →
    w.net.info chanRef = some .respCh
  waiting : ∀ {id ref args chanRef}, w.calls.lookup id = some ⟨ref, args, .waiting chanRef⟩ →
    (id ∈ pending → w.net.info chanRef = some .respCh) ∧
    (id ∈ pending ∨ w.Replying r id args chanRef ∨ ∃ m, w.net.respCh chanRef = some m)
  returned : ∀ {id ref args result}, w.calls.lookup id = some ⟨ref, args, .returned result⟩ →
    ∃ reply, result = some reply ∧ w.Answered id args reply
  channels : ∀ {id call chanRef}, w.calls.lookup id = some call → call.pc.channel = some chanRef →
    chanRef.address = r.address ∧ chanRef ≠ r ∧
    ∀ {next}, w.net.next r.address = some next → chanRef.counter < next
  distinct : ∀ {id id' call call' chanRef}, w.calls.lookup id = some call →
    w.calls.lookup id' = some call' → call.pc.channel = some chanRef →
    call'.pc.channel = some chanRef → id = id'
  sends : w.Busy r ∨ ∃ id ref args chanRef, id ∉ pending ∧
    w.calls.lookup id = some ⟨ref, args, .waiting chanRef⟩ ∧ w.Replying r id args chanRef
  replies : ∀ {chanRef m}, w.net.respCh chanRef = some m →
    w.net.info chanRef ≠ some .respCh ∧ ∃ id ref args reply,
    w.calls.lookup id = some ⟨ref, args, .waiting chanRef⟩ ∧ args.reply m = some reply ∧
    w.Answered id args reply

theorem Answered.mono {tail : List Nat} (answered : w.Answered id args reply)
    (entered : w'.entered = w.entered ++ tail)
    (same : ∀ id ∈ w.entered, w'.argsOf id = w.argsOf id) : w'.Answered id args reply := by
  obtain ⟨before, after, split, answers⟩ := answered
  refine ⟨before, after ++ tail, by rw [entered, split]; simp, ?_⟩
  rw [execute_congr fun id member => same id (by rw [split]; exact List.mem_append_left _ member)]
  exact answers

theorem argsOf_same (calls : w'.calls = w.calls) : w'.argsOf = w.argsOf := by
  funext id
  rw [World.argsOf, calls, World.argsOf]

theorem Answered.same (answered : w.Answered id args reply) (calls : w'.calls = w.calls)
    (entered : w'.entered = w.entered) : w'.Answered id args reply :=
  answered.mono (by rw [entered, List.append_nil]) fun id _ => congrFun (argsOf_same calls) id

namespace Desk

section

variable (desk : w.Desk r done pending)
include desk

/-- A reply goes to a channel, so the actor is not busy with itself. -/
theorem not_busy {ref chanRef : ActorRef}
    (found : w.calls.lookup id = some ⟨ref, args, .waiting chanRef⟩)
    (replying : w.Replying r id args chanRef) : ¬w.Busy r := by
  obtain ⟨m, _, sends, _⟩ := replying
  intro busy
  have own : chanRef = r := (busy (.tell chanRef m) (by rw [sends]; exact List.mem_cons_self)).1
  exact (desk.channels found rfl).2.1 own

/-- No call changes its state and none comes into the mailbox: what is left to show is where the
requests and the replies are. -/
theorem keep (solo : w'.Solo r) (calls : w'.calls = w.calls)
    (entered : w'.entered = w.entered) (next : w'.net.next = w.net.next)
    {done' pending' : List Nat} (split : w.entered = done' ++ pending')
    (requests : List.Forall₂ w.Asks pending' ((w'.net.queue r).filter Msg.isRequest))
    (store : ∀ k, (lastPut w'.puts k).map Content.value = execute w.argsOf done' k)
    (opened : ∀ {id ref args chanRef}, w.calls.lookup id = some ⟨ref, args, .hasChannel chanRef⟩ →
      w'.net.info chanRef = some .respCh)
    (waiting : ∀ {id ref args chanRef}, w.calls.lookup id = some ⟨ref, args, .waiting chanRef⟩ →
      (id ∈ pending' → w'.net.info chanRef = some .respCh) ∧
      (id ∈ pending' ∨ w'.Replying r id args chanRef ∨ ∃ m, w'.net.respCh chanRef = some m))
    (sends : w'.Busy r ∨ ∃ id ref args chanRef, id ∉ pending' ∧
      w.calls.lookup id = some ⟨ref, args, .waiting chanRef⟩ ∧ w'.Replying r id args chanRef)
    (replies : ∀ {chanRef m}, w'.net.respCh chanRef = some m →
      w'.net.info chanRef ≠ some .respCh ∧ ∃ id ref args reply,
      w.calls.lookup id = some ⟨ref, args, .waiting chanRef⟩ ∧ args.reply m = some reply ∧
      w.Answered id args reply) : w'.Desk r done' pending' := by
  constructor
  · exact solo
  · rw [entered, split]
  · rw [entered]
    exact desk.nodup
  · rw [entered, calls]
    exact desk.known
  · refine requests.imp fun id m asks => ?_
    rw [Asks, calls]
    exact asks
  · rw [argsOf_same calls]
    exact store
  · rw [calls, entered]
    exact desk.unasked
  · rw [calls]
    exact opened
  · rw [calls]
    exact waiting
  · intro id ref args result found
    obtain ⟨reply, same, right⟩ := desk.returned (calls ▸ found)
    exact ⟨reply, same, right.same calls entered⟩
  · rw [calls, next]
    exact desk.channels
  · rw [calls]
    exact desk.distinct
  · rw [calls]
    exact sends
  · intro chanRef m ready
    obtain ⟨used, id, ref, args, reply, found, typed, right⟩ := replies ready
    exact ⟨used, id, ref, args, reply, calls ▸ found, typed, right.same calls entered⟩

/-- Nothing changes for the calls. -/
theorem frame (solo : w'.Solo r)
    (requests : (w'.net.queue r).filter Msg.isRequest = (w.net.queue r).filter Msg.isRequest)
    (puts : ∀ k, lastPut w'.puts k = lastPut w.puts k) (calls : w'.calls = w.calls)
    (entered : w'.entered = w.entered)
    (info : ∀ {x}, w'.net.info x = some .respCh ↔ w.net.info x = some .respCh)
    (respCh : w'.net.respCh = w.net.respCh) (next : w'.net.next = w.net.next)
    (sends : w'.sendsOf r = w.sendsOf r ∨ w.Busy r ∧ w'.Busy r) : w'.Desk r done pending := by
  have replying : ∀ {id ref args chanRef}, w.calls.lookup id = some ⟨ref, args, .waiting chanRef⟩ →
      w.Replying r id args chanRef → w'.Replying r id args chanRef := by
    rintro id ref args chanRef found replying
    rcases sends with same | ⟨busy, _⟩
    · obtain ⟨m, reply, sends, isOpen, typed, right⟩ := replying
      exact ⟨m, reply, same.trans sends, info.mpr isOpen, typed, right.same calls entered⟩
    · exact absurd busy (desk.not_busy found replying)
  refine desk.keep solo calls entered next desk.entered ?_ ?_ ?_ ?_ ?_ ?_
  · rw [requests]
    exact desk.requests
  · intro k
    rw [puts]
    exact desk.store k
  · exact fun found => info.mpr (desk.opened found)
  · intro id ref args chanRef found
    obtain ⟨asked, place⟩ := desk.waiting found
    refine ⟨fun member => info.mpr (asked member), ?_⟩
    rcases place with member | answering | ready
    · exact .inl member
    · exact .inr (.inl (replying found answering))
    · exact .inr (.inr (respCh ▸ ready))
  · rcases sends with same | ⟨_, busy⟩
    · rcases desk.sends with busy | ⟨id, ref, args, chanRef, executed, found, answering⟩
      · left
        intro s member
        exact busy s (same ▸ member)
      · exact .inr ⟨id, ref, args, chanRef, executed, found, replying found answering⟩
    · exact .inl busy
  · intro chanRef m ready
    obtain ⟨used, reply⟩ := desk.replies (respCh ▸ ready)
    exact ⟨fun channel => used (info.mp channel), reply⟩

theorem mailbox : w.net.info r ≠ some .respCh := by
  intro channel
  have box := desk.solo.replicated.sane.boxes desk.solo.here
  unfold Net.box at box
  rw [channel] at box
  exact box rfl

theorem channel_tell :
    (w.net.tell r.address r m).info x = some .respCh ↔ w.net.info x = some .respCh := by
  rw [Net.tell_info]
  split
  · rename_i same
    rw [same.1]
    refine ⟨fun channel => ?_, fun channel => absurd channel desk.mailbox⟩
    split at channel
    · cases channel
    · cases channel
  · rfl

/-- A message that is no operation comes into the mailbox. -/
theorem post (solo : w'.Solo r) (net : w'.net = w.net.tell r.address r m)
    (other : m.isRequest = false) (puts : w'.puts = w.puts) (calls : w'.calls = w.calls)
    (entered : w'.entered = w.entered) (sends : w'.sendsOf r = w.sendsOf r ∨ w.Busy r ∧ w'.Busy r) :
    w'.Desk r done pending := by
  have sane := desk.solo.replicated.sane
  refine desk.frame solo ?_ (fun k => by rw [puts]) calls entered ?_ ?_ ?_ sends
  · rw [net, Net.queue_tell sane.reliable (sane.boxes desk.solo.here), List.filter_append]
    simp only [List.filter_cons, other, Bool.false_eq_true, if_false, List.filter_nil,
      List.append_nil]
  · rw [net]
    exact desk.channel_tell
  · rw [net]
    exact Net.tell_respCh fun _ => desk.mailbox
  · rw [net, Net.tell_next]

theorem startup {i : Nat} (taken : step w (.startup i) = some w')
    (clock : clockAdvances w (.startup i) = true) : w'.Desk r done pending := by
  have members := desk.solo.replicated.members
  have next := desk.solo.next clock rfl taken
  cases step_cases taken with
  | startup server ref m rest found tells =>
    have here := List.mem_of_getElem? found
    -- the only thing to tell is MIntro, to the actor itself
    have intro : ref = r ∧ m.isRequest = false ∧ server.address = r.address := by
      have first : (ref, m) ∈ server.tells := by
        rw [tells]
        exact List.mem_cons_self
      rcases mem_introductions.mp ((members.tells here).mem first) with ⟨own, rfl⟩ | ⟨listed, _⟩
      · obtain ⟨address, running⟩ := members.own here own
        have same := desk.solo.only running
        exact ⟨same, rfl, by rw [← address, same]⟩
      · rw [desk.solo.servers here] at listed
        cases listed
    obtain ⟨rfl, other, address⟩ := intro
    have net : w.net.tell server.address ref m = w.net.tell ref.address ref m := by rw [address]
    refine desk.post (next ?_) net other rfl rfl rfl (.inl rfl)
    intro src dst y
    dsimp only
    rw [net]
    exact home_tell desk.solo.home

theorem wake {i : Nat} (taken : step w (.wake i) = some w')
    (clock : clockAdvances w (.wake i) = true) : w'.Desk r done pending := by
  have sane := desk.solo.replicated.sane
  have next := desk.solo.next clock rfl taken
  cases step_cases taken with
  | wake src ref m found =>
    have member := List.mem_of_getElem? found
    obtain ⟨rfl, rfl⟩ := sane.timers member
    have running : ref ∈ w.running := sane.letters (.inr (.inr (.sleeping member)))
    cases desk.solo.only running
    exact desk.post (next (home_tell desk.solo.home)) rfl rfl rfl rfl rfl (.inl rfl)

/-- Nothing is between systems, so nothing moves there. -/
theorem unconnected {src dst : String} :
    w.net.remoteSend src dst = none ∧ w.net.serveRequest src dst = none := by
  constructor
  · cases sent : w.net.remoteSend src dst with
    | none => rfl
    | some n =>
      obtain ⟨mailbox, _, _, message, found, _, taken, _⟩ := Net.remoteSend_spec sent
      refine absurd (.inl ⟨mailbox, found, ?_⟩) (desk.solo.home (y := message))
      rw [(Mailbox.pop_message taken).1]
      exact List.mem_cons_self
  · cases served : w.net.serveRequest src dst with
    | none => rfl
    | some n =>
      obtain ⟨conn, message, _, found, first, _⟩ := Net.serveRequest_spec served
      refine absurd (.inr ⟨conn, found, ?_⟩) (desk.solo.home (y := message))
      rw [first]
      exact List.mem_cons_self

theorem dial {src dst : String} (taken : step w (.dial src dst) = some w')
    (clock : clockAdvances w (.dial src dst) = true) : w'.Desk r done pending := by
  have next := desk.solo.next clock rfl taken
  obtain ⟨n, dialed, rfl⟩ := Option.map_eq_some_iff.mp taken
  obtain ⟨rfl, waits⟩ := Net.dialed_spec dialed
  exact desk.frame (next fun wait => desk.solo.home (waits.mp wait)) rfl (fun _ => rfl) rfl rfl
    Iff.rfl rfl rfl (.inl rfl)

end

/-! ### The actor -/

theorem sendsOf_of {entry : Running} (found : w.running.lookup r = some entry) :
    w.sendsOf r = entry.sends := by
  rw [sendsOf, found]

/-- What an actor sends after a message that is no operation. -/
theorem busy_handled (desk : w.Desk r done pending) (handled : Handled w r now a m w')
    (other : m.isRequest = false) : w'.Busy r := by
  have sane := desk.solo.replicated.sane
  have self := sane.self handled.before
  have fits := sane.letters (.inl handled.first)
  have sends : w'.sendsOf r = (a.react now m).2 := sendsOf_of (by rw [handled.running, if_pos rfl])
  intro s member
  rw [sends] at member
  have target := (sane.reacts now handled.before fits).2.2 s member
  cases m with
  | mIntro actorList remotes =>
    rcases List.mem_cons.mp member with rfl | update
    · exact ⟨self, rfl⟩
    · obtain ⟨x, _, rfl⟩ := List.mem_map.mp update
      exact ⟨desk.solo.only target.2, rfl⟩
  | mSync =>
    rcases List.mem_append.mp member with update | again
    · split at update
      · obtain ⟨x, _, rfl⟩ := List.mem_map.mp update
        exact ⟨desk.solo.only target.2, rfl⟩
      · cases update
    · cases List.mem_singleton.mp again
      exact ⟨self, rfl⟩
  | mGet | mPut | mList => cases other
  | mUpdate | mRIntro | getReply | putReply | listReply => cases member

theorem info_popped (desk : w.Desk r done pending) {rest : Mailbox Msg}
    (info : ∀ x, w'.net.info x = if x = r then some (.mailbox rest) else w.net.info x) :
    w'.net.info x = some .respCh ↔ w.net.info x = some .respCh := by
  rw [info]
  split
  · rename_i same
    rw [same]
    refine ⟨fun channel => ?_, fun channel => absurd channel desk.mailbox⟩
    cases channel
  · rfl

theorem handle_other (desk : w.Desk r done pending) (handled : Handled w r now a m w')
    (other : m.isRequest = false) (solo : w'.Solo r) : w'.Desk r done pending := by
  obtain ⟨mailbox, rest, found, _, info, respCh, _, _, _, next⟩ := Net.pop_spec handled.popped
  refine desk.frame solo ?_ ?_ handled.calls handled.entered ?_ respCh next ?_
  · rw [handled.next, List.filter_cons, other]
    rfl
  · intro k
    have none : m.put now = [] := by
      cases m <;> first | rfl | cases other
    rw [handled.puts, none, List.append_nil]
  · exact desk.info_popped info
  · right
    refine ⟨?_, desk.busy_handled handled other⟩
    intro s member
    rw [sendsOf_of handled.idle] at member
    cases member

/-- The map after an operation. -/
theorem store_handled {args : Args} (handled : Handled w r now a (args.message c) w')
    {store : Store} (before : ∀ k, (lastPut w.puts k).map Content.value = store k) (k : String) :
    (lastPut w'.puts k).map Content.value = args.apply store k := by
  rw [handled.puts]
  cases args with
  | get key | list start => exact (congrArg (fun puts => (lastPut puts k).map Content.value)
      (List.append_nil _)).trans (before k)
  | put key value =>
    show (lastPut (w.puts ++ [(key, ⟨c, value, now⟩)]) k).map Content.value =
      Function.update store key (some value) k
    rw [lastPut_append, Function.update_apply]
    by_cases same : k = key
    · rw [if_pos same, if_pos same.symm]
      rfl
    · rw [if_neg same, if_neg fun eq => same eq.symm]
      exact before k

/-- An operation is executed. -/
theorem handle_request (desk : w.Desk r done pending) (handled : Handled w r now a m w')
    (request : m.isRequest = true) (solo : w'.Solo r) :
    ∃ done pending, w'.Desk r done pending := by
  obtain ⟨_, _, _, _, info, respCh, _, _, _, next⟩ := Net.pop_spec handled.popped
  have requests := desk.requests
  rw [handled.next, List.filter_cons, if_pos request] at requests
  cases requests with
  | @cons id _ pending _ asks requests =>
    obtain ⟨ref, args, chanRef, found, rfl⟩ := asks
    obtain ⟨msg, reply, sends, typed, answers⟩ := react_request a now args chanRef
    have idle : w.sendsOf r = [] := sendsOf_of handled.idle
    have sends : w'.sendsOf r = [.tell chanRef msg] := by
      rw [sendsOf_of (by rw [handled.running, if_pos rfl]), sends]
    have isOpen : ∀ {x}, w'.net.info x = some .respCh ↔ w.net.info x = some .respCh :=
      desk.info_popped info
    have values : a.values = execute w.argsOf done := by
      funext k
      rw [QueryActor.values, desk.solo.storage handled.before, desk.store]
    have replying : w'.Replying r id args chanRef := by
      have channel := (desk.waiting found).1 List.mem_cons_self
      have entered : w'.entered = done ++ id :: pending := by
        rw [handled.entered, desk.entered]
      refine ⟨msg, reply, sends, isOpen.mpr channel, typed, done, pending, entered, ?_⟩
      rw [argsOf_same handled.calls, ← values]
      exact answers
    refine ⟨done ++ [id], pending, desk.keep solo handled.calls handled.entered next ?_ requests
      ?_ ?_ ?_ ?_ ?_⟩
    · rw [desk.entered, List.append_assoc, List.singleton_append]
    · intro k
      have found : w.argsOf id = some args := by
        rw [World.argsOf, found]
        rfl
      rw [execute_append found]
      exact store_handled handled desk.store k
    · exact fun found => isOpen.mpr (desk.opened found)
    · intro id' ref' args' chanRef' found'
      obtain ⟨asked, place⟩ := desk.waiting found'
      refine ⟨fun member => isOpen.mpr (asked (List.mem_cons_of_mem _ member)), ?_⟩
      rcases place with member | ⟨_, _, sends, _⟩ | ready
      · rcases List.mem_cons.mp member with rfl | member
        · cases found.symm.trans found'
          exact .inr (.inl replying)
        · exact .inl member
      · rw [idle] at sends
        cases sends
      · exact .inr (.inr (respCh ▸ ready))
    · have once : id ∉ pending := by
        have nodup := desk.nodup
        rw [desk.entered] at nodup
        exact (List.nodup_cons.mp (List.nodup_append.mp nodup).2.1).1
      exact .inr ⟨id, ref, args, chanRef, once, found, replying⟩
    · intro chanRef m ready
      obtain ⟨used, reply⟩ := desk.replies (respCh ▸ ready)
      exact ⟨fun channel => used (isOpen.mp channel), reply⟩

theorem handle (desk : w.Desk r done pending) {ref : ActorRef}
    (taken : step w (.handle ref now) = some w')
    (clock : clockAdvances w (.handle ref now) = true) : ∃ done pending, w'.Desk r done pending := by
  have next := desk.solo.next clock rfl taken
  obtain ⟨a, m, handled⟩ := handle_spec taken
  rw [desk.solo.only (mem_running.mpr ⟨a, handled.before⟩)] at handled
  obtain ⟨_, _, _, _, _, _, outgoing, conns, _⟩ := Net.pop_spec handled.popped
  have solo : w'.Solo r := by
    apply next
    intro src dst y
    rw [Net.Waits, outgoing, conns]
    exact desk.solo.home
  cases request : m.isRequest with
  | true => exact desk.handle_request handled request solo
  | false => exact ⟨done, pending, desk.handle_other handled request solo⟩

theorem sendsOf_insert {sends : List Send}
    (running : w'.running = w.running.insert r ⟨a, sends⟩) : w'.sendsOf r = sends :=
  sendsOf_of (by rw [running, Map.lookup_insert, if_pos rfl])

/-- The reply goes into its channel. -/
theorem send_reply (desk : w.Desk r done pending) {ref : ActorRef} (solo : w'.Solo r)
    (executed : id ∉ pending) (found : w.calls.lookup id = some ⟨ref, args, .waiting c⟩)
    (channel : w.net.info c = some .respCh)
    (typed : args.reply m = some reply) (right : w.Answered id args reply) (sends : w.sendsOf r = [.tell c m])
    (net : w'.net = w.net.tell r.address c m) (rest : w'.sendsOf r = [])
    (puts : w'.puts = w.puts) (calls : w'.calls = w.calls) (entered : w'.entered = w.entered) :
    w'.Desk r done pending := by
  obtain ⟨address, apart, _⟩ := desk.channels found rfl
  rw [← address] at net
  have respCh : ∀ x, w'.net.respCh x = if x = c then some m else w.net.respCh x := by
    intro x
    rw [net, Net.tell_channel channel]
  have info : ∀ {x}, x ≠ c → w'.net.info x = w.net.info x := by
    intro x other
    rw [net, Net.tell_info, if_neg fun same => other same.1]
  have queue : w'.net.queue r = w.net.queue r := by
    rw [net]
    apply Net.queue_congr
    rw [Net.box_tell, if_neg fun same => apart same.1.symm]
  -- the channel belongs to this call
  have owner : ∀ {id' call}, w.calls.lookup id' = some call → call.pc.channel = some c → id' = id :=
    fun found' own => desk.distinct found' found own rfl
  refine desk.keep solo calls entered ?_ desk.entered ?_ ?_ ?_ ?_ ?_ ?_
  · rw [net, Net.tell_next]
  · rw [queue]
    exact desk.requests
  · rw [puts]
    exact desk.store
  · intro id' ref' args' chanRef found'
    have other : chanRef ≠ c := by
      rintro rfl
      cases owner found' rfl
      cases found.symm.trans found'
    rw [info other]
    exact desk.opened found'
  · intro id' ref' args' chanRef found'
    obtain ⟨asked, place⟩ := desk.waiting found'
    by_cases same : chanRef = c
    · cases owner found' (same ▸ rfl)
      refine ⟨fun member => absurd member executed, .inr (.inr ⟨m, ?_⟩)⟩
      rw [respCh, if_pos same]
    · rw [info same, respCh, if_neg same]
      refine ⟨asked, ?_⟩
      rcases place with member | ⟨_, _, sends', _⟩ | ready
      · exact .inl member
      · cases sends.symm.trans sends'
        exact absurd rfl same
      · exact .inr (.inr ready)
  · left
    intro s member
    rw [rest] at member
    cases member
  · intro chanRef y ready
    rw [respCh] at ready
    split at ready
    · rename_i same
      cases ready
      rw [same]
      refine ⟨?_, id, ref, args, reply, found, typed, right⟩
      rw [net, Net.tell_info, if_pos ⟨rfl, rfl⟩, channel]
      intro used
      cases used
    · rename_i other
      rw [info other]
      exact desk.replies ready

/-- The rest of what a busy actor sends. -/
theorem busy_rest {s : Send} {rest : List Send} (busy : w.Busy r)
    (sends : w.sendsOf r = s :: rest) (after : w'.sendsOf r = rest) : w'.Busy r := by
  intro s member
  rw [after] at member
  exact busy s (by rw [sends]; exact List.mem_cons_of_mem _ member)

theorem send (desk : w.Desk r done pending) {ref : ActorRef}
    (taken : step w (.send ref) = some w') (clock : clockAdvances w (.send ref) = true) :
    w'.Desk r done pending := by
  have next := desk.solo.next clock rfl taken
  cases send_cases taken with
  | tell actor target m rest found =>
    have same : ref = r := desk.solo.only (Map.mem_of_lookup found)
    subst same
    have sends : w.sendsOf ref = .tell target m :: rest := sendsOf_of found
    rcases desk.sends with busy | ⟨id, _, args, c, executed, waits, y, reply, one, channel, typed,
      right⟩
    · obtain ⟨own, other⟩ := busy (.tell target m) (by rw [sends]; exact List.mem_cons_self)
      have own : target = ref := own
      subst own
      exact desk.post (next (home_tell desk.solo.home)) rfl other rfl rfl rfl
        (.inr ⟨busy, busy_rest busy sends (sendsOf_insert rfl)⟩)
    · cases sends.symm.trans one
      have address := (desk.channels waits rfl).1
      refine desk.send_reply (next ?_) executed waits channel typed right sends rfl
        (sendsOf_insert rfl) rfl rfl rfl
      intro src dst y
      dsimp only
      rw [← address]
      exact home_tell desk.solo.home
  | tellAfter actor target m rest found =>
    have same : ref = r := desk.solo.only (Map.mem_of_lookup found)
    subst same
    have sends : w.sendsOf ref = .tellAfter target m :: rest := sendsOf_of found
    rcases desk.sends with busy | ⟨_, _, _, _, _, _, _, _, one, _⟩
    · exact desk.frame (next desk.solo.home) rfl (fun _ => rfl) rfl rfl Iff.rfl rfl rfl
        (.inr ⟨busy, busy_rest busy sends (sendsOf_insert rfl)⟩)
    · cases sends.symm.trans one

end Desk

end World

end DistSys.Kv
