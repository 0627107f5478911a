import DistSys.Kv.Rpc

/-! The RPCs of one query actor: the steps of a call, and that the replies are those of a
sequential map in the order in which the messages came into the mailbox. -/
namespace DistSys.Kv

open DistSys.Lib DistSys.Actor

variable {w w' : World} {r x : ActorRef} {now id : Nat} {action : Action} {args : Args}
  {call : Call} {done pending : List Nat}

namespace World

namespace Desk

/-- A call gets a new state; the other ones keep theirs. `tail` is the call itself when its
message comes into the mailbox. -/
structure Moves (w w' : World) (r : ActorRef) (pending : List Nat) (id : Nat) (call : Call)
    (tail : List Nat) : Prop where
  calls : w'.calls = w.calls.insert id call
  same : ∀ {old}, w.calls.lookup id = some old → old.args = call.args
  entered : w'.entered = w.entered ++ tail
  nodup : w'.entered.Nodup
  itself : ∀ i ∈ tail, i = id
  requests : List.Forall₂ w'.Asks (pending ++ tail) ((w'.net.queue r).filter Msg.isRequest)
  puts : w'.puts = w.puts
  sends : w'.sendsOf r = w.sendsOf r
  info : ∀ {x}, w.net.info x = some .respCh → w'.net.info x = some .respCh
  next : ∀ {next'}, w'.net.next r.address = some next' →
    ∃ next ≤ next', w.net.next r.address = some next
  -- what stands in a channel is for another call
  replies : ∀ {x y}, w'.net.respCh x = some y → w.net.respCh x = some y ∧
    (w'.net.info x = some .respCh → w.net.info x = some .respCh) ∧
    ∀ {ref args}, w.calls.lookup id ≠ some ⟨ref, args, .waiting x⟩
  ready : ∀ {i ref args x y}, i ≠ id → w.calls.lookup i = some ⟨ref, args, .waiting x⟩ →
    w.net.respCh x = some y → w'.net.respCh x = some y
  replied : ∀ {ref args x}, w.calls.lookup id = some ⟨ref, args, .waiting x⟩ →
    w.net.info x ≠ some .respCh
  -- the new state
  unasked : call.pc = .started ∨ (∃ x, call.pc = .hasChannel x) → id ∉ w'.entered
  opened : ∀ {x}, call.pc = .hasChannel x → w'.net.info x = some .respCh
  waiting : ∀ {x}, call.pc = .waiting x → id ∈ pending ++ tail ∧ w'.net.info x = some .respCh
  returned : ∀ {result}, call.pc = .returned result →
    ∃ reply, result = some reply ∧ w'.Answered id call.args reply
  channel : ∀ {x}, call.pc.channel = some x → x.address = r.address ∧ x ≠ r ∧
    (∀ {next}, w'.net.next r.address = some next → x.counter < next) ∧
    ∀ {i other}, i ≠ id → w.calls.lookup i = some other → other.pc.channel ≠ some x

namespace Moves

variable {tail : List Nat}

section

variable (moves : Moves w w' r pending id call tail)
include moves

theorem lookup (i : Nat) : w'.calls.lookup i = if i = id then some call else w.calls.lookup i := by
  rw [moves.calls, Map.lookup_insert]

theorem argsOf (desk : w.Desk r done pending) {i : Nat} (member : i ∈ w.entered) :
    w'.argsOf i = w.argsOf i := by
  obtain ⟨old, found⟩ := Map.lookup_of_mem (desk.known member)
  rw [World.argsOf, moves.lookup, World.argsOf]
  split
  · rename_i same
    subst same
    rw [found, Option.map_some, Option.map_some, moves.same found]
  · rfl

theorem answered (desk : w.Desk r done pending) {i : Nat} {reply : Reply}
    (answered : w.Answered i args reply) : w'.Answered i args reply :=
  answered.mono moves.entered fun _ => moves.argsOf desk

theorem replying (desk : w.Desk r done pending) {i : Nat} (replying : w.Replying r i args x) :
    w'.Replying r i args x := by
  obtain ⟨m, reply, sends, channel, typed, right⟩ := replying
  exact ⟨m, reply, moves.sends.trans sends, moves.info channel, typed, moves.answered desk right⟩

/-- Another call has not come into the mailbox by this step. -/
theorem member {i : Nat} (other : i ≠ id) {before : List Nat} (member : i ∈ before ++ tail) :
    i ∈ before := by
  rcases List.mem_append.mp member with old | new
  · exact old
  · exact absurd (moves.itself i new) other

end

end Moves

theorem moves (desk : w.Desk r done pending) (id : Nat) (call : Call) (solo : w'.Solo r)
    {tail : List Nat} (moves : Moves w w' r pending id call tail) : w'.Desk r done (pending ++ tail) := by
  constructor
  · exact solo
  · rw [moves.entered, desk.entered, List.append_assoc]
  · exact moves.nodup
  · intro i member
    rw [moves.calls, AList.mem_insert]
    rw [moves.entered] at member
    rcases List.mem_append.mp member with old | new
    · exact .inr (desk.known old)
    · exact .inl (moves.itself i new)
  · exact moves.requests
  · intro k
    rw [moves.puts, desk.store, execute_congr]
    intro i member
    symm
    apply moves.argsOf desk
    rw [desk.entered]
    exact List.mem_append_left _ member
  · intro i ref args early
    by_cases this : i = id
    · subst this
      apply moves.unasked
      rcases early with found | ⟨x, found⟩
      · rw [moves.lookup, if_pos rfl] at found
        cases found
        exact .inl rfl
      · rw [moves.lookup, if_pos rfl] at found
        cases found
        exact .inr ⟨x, rfl⟩
    · rw [moves.lookup, if_neg this] at early
      rw [moves.entered]
      exact fun member => desk.unasked early (moves.member this member)
  · intro i ref args x found
    rw [moves.lookup] at found
    split at found
    · cases found
      exact moves.opened rfl
    · exact moves.info (desk.opened found)
  · intro i ref args x found
    rw [moves.lookup] at found
    split at found
    · rename_i this
      cases found
      subst this
      obtain ⟨member, channel⟩ := moves.waiting rfl
      exact ⟨fun _ => channel, .inl member⟩
    · rename_i other
      obtain ⟨asked, place⟩ := desk.waiting found
      refine ⟨fun member => moves.info (asked (moves.member other member)), ?_⟩
      rcases place with member | answering | ⟨y, ready⟩
      · exact .inl (List.mem_append_left _ member)
      · exact .inr (.inl (moves.replying desk answering))
      · exact .inr (.inr ⟨y, moves.ready other found ready⟩)
  · intro i ref args result found
    rw [moves.lookup] at found
    split at found
    · rename_i this
      cases found
      subst this
      exact moves.returned rfl
    · obtain ⟨reply, same, right⟩ := desk.returned found
      exact ⟨reply, same, moves.answered desk right⟩
  · intro i other x found own
    rw [moves.lookup] at found
    split at found
    · cases found
      obtain ⟨address, apart, bound, _⟩ := moves.channel own
      exact ⟨address, apart, bound⟩
    · obtain ⟨address, apart, bound⟩ := desk.channels found own
      refine ⟨address, apart, fun next => ?_⟩
      obtain ⟨old, le, before⟩ := moves.next next
      exact lt_of_lt_of_le (bound before) le
  · intro i j one two x first second own own'
    rw [moves.lookup] at first second
    split at first
    · cases first
      split at second
      · rename_i this that
        rw [this, that]
      · rename_i other
        exact absurd own' ((moves.channel own).2.2.2 other second)
    · rename_i other
      split at second
      · cases second
        exact absurd own ((moves.channel own').2.2.2 other first)
      · exact desk.distinct first second own own'
  · rcases desk.sends with busy | ⟨i, ref, args, x, executed, found, answering⟩
    · left
      intro s member
      exact busy s (moves.sends ▸ member)
    · right
      have other : i ≠ id := by
        rintro rfl
        obtain ⟨_, _, _, channel, _⟩ := answering
        exact moves.replied found channel
      refine ⟨i, ref, args, x, fun member => executed (moves.member other member), ?_,
        moves.replying desk answering⟩
      rw [moves.lookup, if_neg other, found]
  · intro x y ready
    obtain ⟨before, info, other⟩ := moves.replies ready
    obtain ⟨used, i, ref, args, reply, found, typed, right⟩ := desk.replies before
    refine ⟨fun channel => used (info channel), i, ref, args, reply, ?_, typed,
      moves.answered desk right⟩
    have apart : i ≠ id := by
      rintro rfl
      exact other found
    rw [moves.lookup, if_neg apart, found]

/-- The messages of the calls that wait, when another call moves on. -/
theorem asks_insert {i : Nat} {y : Msg} (calls : w'.calls = w.calls.insert id call) (other : i ≠ id)
    (asks : w.Asks i y) : w'.Asks i y := by
  obtain ⟨ref, args, chanRef, found, rfl⟩ := asks
  exact ⟨ref, args, chanRef, by rw [calls, Map.lookup_insert, if_neg other, found], rfl⟩

section

variable (desk : w.Desk r done pending)
include desk

theorem requests_insert (w' : World) (calls : w'.calls = w.calls.insert id call)
    (others : id ∉ pending) :
    List.Forall₂ w'.Asks pending ((w.net.queue r).filter Msg.isRequest) := by
  have apart : ∀ i ∈ pending, i ≠ id := fun i member same => others (same ▸ member)
  refine ((List.forall₂_and_left _ _).mpr ⟨apart, desk.requests⟩).imp ?_
  rintro i y ⟨other, asks⟩
  exact asks_insert calls other asks

theorem pending_entered (member : id ∈ pending) : id ∈ w.entered := by
  rw [desk.entered]
  exact List.mem_append_right _ member

theorem call_step {ref : ActorRef} (taken : step w (.call id ref args) = some w')
    (clock : clockAdvances w (.call id ref args) = true) : w'.Desk r done (pending ++ []) := by
  have next := desk.solo.next clock rfl taken
  cases step_cases taken with
  | call new _ =>
    have fresh : ∀ {old}, w.calls.lookup id ≠ some old := fun found =>
      new (Map.mem_of_lookup found)
    have unentered : id ∉ w.entered := fun member => new (desk.known member)
    refine desk.moves id ⟨ref, args, .started⟩ (next desk.solo.home) ?_
    constructor
    · rfl
    · exact fun found => absurd found fresh
    · exact (List.append_nil _).symm
    · exact desk.nodup
    · simp
    · rw [List.append_nil]
      exact desk.requests_insert _ rfl fun member => unentered (desk.pending_entered member)
    · rfl
    · rfl
    · exact fun channel => channel
    · exact fun next => ⟨_, le_rfl, next⟩
    · exact fun ready => ⟨ready, fun channel => channel, fresh⟩
    · exact fun _ _ ready => ready
    · exact fun found => absurd found fresh
    · exact fun _ => unentered
    · rintro x ⟨⟩
    · rintro x ⟨⟩
    · rintro result ⟨⟩
    · rintro x ⟨⟩

theorem newChannel_step (taken : step w (.newChannel id) = some w')
    (clock : clockAdvances w (.newChannel id) = true) : w'.Desk r done (pending ++ []) := by
  have sane := desk.solo.replicated.sane
  have next := desk.solo.next clock rfl taken
  cases step_cases taken with
  | newChannel ref args chanRef n found made =>
    have here : ref = r := desk.solo.only (sane.calls found)
    subst here
    rcases Net.newChannelRef_spec made with ⟨_, closed⟩ | new
    · cases (sane.reliable.up _).symm.trans closed
    obtain ⟨_, queue, _, own, _⟩ := Net.issued_reliable sane.reliable new (.inr rfl)
    have early : id ∉ w.entered := desk.unasked (.inl found)
    -- the counter of the new channel is above those of all others
    have apart : ∀ {i other}, w.calls.lookup i = some other → other.pc.channel ≠ some chanRef :=
      fun there same => Int.lt_irrefl _ ((desk.channels there same).2.2 new.next)
    have info : ∀ {x}, w.net.info x = some .respCh → n.info x = some .respCh := by
      intro x channel
      rw [new.info]
      split
      · rfl
      · exact channel
    refine desk.moves id ⟨ref, args, .hasChannel chanRef⟩ (next ?_) ?_
    · intro src dst y
      rw [Net.Waits, new.outgoing, new.conns]
      exact desk.solo.home
    constructor
    · rfl
    · intro old there
      cases found.symm.trans there
      rfl
    · exact (List.append_nil _).symm
    · exact desk.nodup
    · simp
    · rw [List.append_nil, queue]
      exact desk.requests_insert _ rfl fun member => early (desk.pending_entered member)
    · rfl
    · rfl
    · exact info
    · intro next' after
      have after : n.next ref.address = some next' := after
      rw [new.after, if_pos rfl] at after
      cases after
      exact ⟨_, by omega, new.next⟩
    · intro x y ready
      have ready : n.respCh x = some y := ready
      rw [new.respCh] at ready
      refine ⟨ready, ?_, ?_⟩
      · intro channel
        have channel : n.info x = some .respCh := channel
        rw [new.info] at channel
        split at channel
        · rename_i same
          obtain ⟨_, i, _, _, _, there, _⟩ := desk.replies ready
          exact absurd (congrArg some same) (apart there)
        · exact channel
      · intro ref' args' there
        cases found.symm.trans there
    · intro i ref' args' x y _ _ ready
      exact (congrFun new.respCh x).trans ready
    · intro ref' args' x there
      cases found.symm.trans there
    · exact fun _ => early
    · rintro x ⟨⟩
      exact (new.info chanRef).trans (if_pos rfl)
    · rintro x ⟨⟩
    · rintro result ⟨⟩
    · rintro x ⟨⟩
      refine ⟨new.address, ?_, ?_, fun _ there => apart there⟩
      · rintro rfl
        exact sane.boxes desk.solo.here own
      · intro next' after
        have after : n.next ref.address = some next' := after
        rw [new.after, if_pos rfl] at after
        cases after
        omega

theorem ask_step (taken : step w (.ask id) = some w') (clock : clockAdvances w (.ask id) = true) :
    w'.Desk r done (pending ++ [id]) := by
  have sane := desk.solo.replicated.sane
  have next := desk.solo.next clock rfl taken
  cases step_cases taken with
  | ask ref args chanRef found =>
    have here : ref = r := desk.solo.only (sane.calls found)
    subst here
    have early : id ∉ w.entered := desk.unasked (.inr ⟨_, found⟩)
    have respCh : (w.net.tell ref.address ref (args.message chanRef)).respCh = w.net.respCh :=
      Net.tell_respCh fun _ => desk.mailbox
    obtain ⟨address, notActor, bound⟩ := desk.channels found rfl
    refine desk.moves id ⟨ref, args, .waiting chanRef⟩ (next (home_tell desk.solo.home)) ?_
    constructor
    · rfl
    · intro old there
      cases found.symm.trans there
      rfl
    · rfl
    · refine List.nodup_append.mpr ⟨desk.nodup, List.nodup_singleton _, ?_⟩
      intro i member j new same
      cases List.mem_singleton.mp new
      exact early (same ▸ member)
    · intro i member
      exact List.mem_singleton.mp member
    · dsimp only
      rw [Net.queue_tell sane.reliable (sane.boxes desk.solo.here), List.filter_append]
      refine List.rel_append (desk.requests_insert _ rfl fun member =>
        early (desk.pending_entered member)) ?_
      rw [List.filter_cons, if_pos isRequest_message, List.filter_nil]
      refine .cons ⟨ref, args, chanRef, ?_, rfl⟩ .nil
      exact (Map.lookup_insert ..).trans (if_pos rfl)
    · rfl
    · rfl
    · exact desk.channel_tell.mpr
    · intro next' after
      exact ⟨next', le_rfl, by rw [← after, Net.tell_next]⟩
    · intro x y ready
      refine ⟨respCh ▸ ready, desk.channel_tell.mp, ?_⟩
      intro ref' args' there
      cases found.symm.trans there
    · exact fun _ _ ready => respCh ▸ ready
    · intro ref' args' x there
      cases found.symm.trans there
    · rintro (none | ⟨x, none⟩)
      · cases none
      · cases none
    · rintro x ⟨⟩
    · rintro x ⟨⟩
      exact ⟨List.mem_append_right _ List.mem_cons_self,
        desk.channel_tell.mpr (desk.opened found)⟩
    · rintro result ⟨⟩
    · rintro x ⟨⟩
      refine ⟨address, notActor, fun next => bound (by rw [← next, Net.tell_next]), ?_⟩
      intro i other apart there own
      exact apart (desk.distinct there found own rfl)

theorem answer_step (taken : step w (.answer id) = some w')
    (clock : clockAdvances w (.answer id) = true) : w'.Desk r done (pending ++ []) := by
  have next := desk.solo.next clock rfl taken
  cases step_cases taken with
  | answer ref args chanRef m n found received =>
    obtain ⟨ready, respCh, info, outgoing, conns, _, next'⟩ := Net.receive_spec received
    obtain ⟨used, i, ref', args', reply, there, typed, right⟩ := desk.replies ready
    -- the channel is that of this call, so the reply is its own
    cases desk.distinct there found rfl rfl
    cases found.symm.trans there
    have executed : id ∉ pending := fun member => used ((desk.waiting found).1 member)
    refine desk.moves id ⟨ref, args, .returned (args.reply m)⟩ (next ?_) ?_
    · intro src dst y
      rw [Net.Waits, outgoing, conns]
      exact desk.solo.home
    constructor
    · rfl
    · intro old there
      cases found.symm.trans there
      rfl
    · exact (List.append_nil _).symm
    · exact desk.nodup
    · simp
    · rw [List.append_nil, Net.queue_congr (Net.box_congr (congrFun info r))]
      exact desk.requests_insert _ rfl executed
    · rfl
    · rfl
    · exact fun channel => (congrFun info _).trans channel
    · exact fun after => ⟨_, le_rfl, (congrFun next' _).symm.trans after⟩
    · intro x y still
      have still : n.respCh x = some y := still
      rw [respCh] at still
      split at still
      · cases still
      · rename_i other
        refine ⟨still, fun channel => (congrFun info _).symm.trans channel, ?_⟩
        intro ref' args' there
        cases found.symm.trans there
        exact other rfl
    · intro j ref' args' x y other theirs still
      have apart : x ≠ chanRef := by
        rintro rfl
        exact other (desk.distinct theirs found rfl rfl)
      show n.respCh x = some y
      rw [respCh, if_neg apart, still]
    · intro ref' args' x there
      cases found.symm.trans there
      exact used
    · rintro (none | ⟨x, none⟩)
      · cases none
      · cases none
    · rintro x ⟨⟩
    · rintro x ⟨⟩
    · rintro result ⟨⟩
      refine ⟨reply, typed, right.mono (List.append_nil _).symm fun i _ => ?_⟩
      simp only [World.argsOf, Map.lookup_insert]
      split
      · rename_i same
        rw [same, found]
        rfl
      · rfl
    · rintro x ⟨⟩

theorem next (clock : clockAdvances w action = true) (running : action.starts = false)
    (taken : step w action = some w') : ∃ done pending, w'.Desk r done pending := by
  cases action with
  | newServer => cases running
  | startup i => exact ⟨_, _, desk.startup taken clock⟩
  | handle ref now => exact desk.handle taken clock
  | send ref => exact ⟨_, _, desk.send taken clock⟩
  | wake i => exact ⟨_, _, desk.wake taken clock⟩
  | dial src dst => exact ⟨_, _, desk.dial taken clock⟩
  | remoteSend src dst =>
    simp only [step, desk.unconnected.1, Option.map_none] at taken
    cases taken
  | serveRequest src dst =>
    simp only [step, desk.unconnected.2, Option.map_none] at taken
    cases taken
  | call id ref args => exact ⟨_, _, desk.call_step taken clock⟩
  | newChannel id => exact ⟨_, _, desk.newChannel_step taken clock⟩
  | ask id => exact ⟨_, _, desk.ask_step taken clock⟩
  | answer id => exact ⟨_, _, desk.answer_step taken clock⟩

end

end Desk

theorem desk_new {address : String} (started : step newWorld (.newServer address 1 []) = some w) :
    ∃ r, w.Desk r [] [] := by
  obtain ⟨server, hired, _, alone, length⟩ := newServer_spec sane_new.reliable started
  have one : server.actorList = [server.actorRep] := by
    obtain ⟨ref, single⟩ := List.length_eq_one_iff.mp length
    have rep := hired.rep
    rw [single] at rep
    rw [single, List.mem_singleton.mp rep]
  have unjoined : ∀ {x z}, ¬w.Coming x (.mRIntro z) := by
    intro x z coming
    rcases (hired.coming sane_new).mp coming with old | told
    · exact nothing_coming old
    · rw [hired.tells, alone] at told
      rcases mem_introductions.mp told with ⟨_, none⟩ | ⟨listed, _⟩
      · cases none
      · cases listed
  have calls : ∀ {id call}, w.calls.lookup id ≠ some call := by
    intro id call found
    rw [hired.calls] at found
    cases found
  have sends : w.sendsOf server.actorRep = [] :=
    Desk.sendsOf_of (by rw [hired.running, if_pos hired.rep])
  refine ⟨server.actorRep, ?_⟩
  constructor
  · constructor
    · exact replicated_new.next rfl rfl started
    · exact hired.member.mpr (.inr hired.rep)
    · intro x member
      rcases hired.member.mp member with old | new
      · cases old
      · rw [one] at new
        exact List.mem_singleton.mp new
    · intro s here
      rw [hired.servers] at here
      cases List.mem_singleton.mp here
      exact alone
    · exact unjoined
    · intro src dst y wait
      have coming : w.net.Waiting y.ref y.mars := ⟨src, hired.reliable.routed wait ▸ wait⟩
      exact nothing_coming (.inr (.inl (hired.waiting.mp coming)))
  · exact hired.entered
  · rw [hired.entered]
    exact List.nodup_nil
  · intro id member
    rw [hired.entered] at member
    cases member
  · rw [hired.queue]
    exact .nil
  · intro k
    rw [hired.puts]
    rfl
  · intro id ref args _ member
    rw [hired.entered] at member
    cases member
  · exact fun found => absurd found calls
  · exact fun found => absurd found calls
  · exact fun found => absurd found calls
  · exact fun found => absurd found calls
  · exact fun found => absurd found calls
  · left
    intro s member
    rw [sends] at member
    cases member
  · intro chanRef m ready
    rw [hired.respCh] at ready
    cases ready

end World

/-- The calls that have come into the mailbox stay in their order. -/
theorem entered_step {u v : World} (taken : step u action = some v) : u.entered <+: v.entered := by
  cases step_cases taken with
  | newServer started =>
    obtain ⟨_, _, _, _, _, _, _, rfl⟩ := newServer_cases started
    exact List.prefix_rfl
  | handle handled =>
    obtain ⟨a, m, handled⟩ := World.handle_spec handled
    exact handled.entered ▸ List.prefix_rfl
  | send sent =>
    cases send_cases sent with
    | tell | tellAfter => exact List.prefix_rfl
  | ask => exact List.prefix_append _ _
  | startup | wake | dial | remoteSend | serveRequest | call | newChannel | answer =>
    exact List.prefix_rfl

theorem entered_run {u v : World} {actions : List Action} (reached : run step u actions = some v) :
    u.entered <+: v.entered :=
  run_keeps (fun t => u.entered <+: t.entered) (fun _ _ _ before taken =>
    before.trans (entered_step taken)) List.prefix_rfl actions reached

theorem World.Desk.run {actions : List Action} (desk : w.Desk r done pending)
    (single : ∀ action ∈ actions, action.starts = false)
    (clock : Along step clockAdvances w actions) (reached : run step w actions = some w') :
    ∃ done pending, w'.Desk r done pending := by
  have calm : Along step (fun _ action => !action.starts) w actions :=
    along_of_all fun i u a t _ next _ => by
      rw [single a (List.mem_of_getElem? next)]
      rfl
  refine run_invariant (fun u => ∃ done pending, u.Desk r done pending) ?_ ⟨done, pending, desk⟩
    actions (along_and clock calm) reached
  rintro u action v ⟨done, pending, desk⟩ met taken
  obtain ⟨clock, calm⟩ := Bool.and_eq_true_iff.mp met
  exact desk.next clock (by simpa using calm) taken

theorem World.asks_mem {messages : List Msg} (requests : List.Forall₂ w.Asks pending messages)
    (member : id ∈ pending) : ∃ m ∈ messages, w.Asks id m := by
  induction requests with
  | nil => cases member
  | @cons i m _ _ asks _ ih =>
    rcases List.mem_cons.mp member with rfl | later
    · exact ⟨m, List.mem_cons_self, asks⟩
    · obtain ⟨m', there, asks'⟩ := ih later
      exact ⟨m', List.mem_cons_of_mem _ there, asks'⟩

/-- Where a call that waits is: in the mailbox, being answered, or answered. -/
theorem World.Desk.place (desk : w.Desk r done pending) {ref chanRef : ActorRef}
    (found : w.calls.lookup id = some ⟨ref, args, .waiting chanRef⟩) :
    args.message chanRef ∈ w.net.queue ref ∨ (∃ m, w.sendsOf ref = [.tell chanRef m]) ∨
    ∃ w', step w (.answer id) = some w' := by
  have here : ref = r := desk.solo.only (desk.solo.replicated.sane.calls found)
  subst here
  rcases (desk.waiting found).2 with member | ⟨m, _, sends, _⟩ | ⟨m, ready⟩
  · left
    obtain ⟨m, queued, _, _, _, same, rfl⟩ := World.asks_mem desk.requests member
    cases found.symm.trans same
    exact (List.mem_filter.mp queued).1
  · exact .inr (.inl ⟨m, sends⟩)
  · obtain ⟨n, received⟩ := Net.receive_ready ready
    refine .inr (.inr ?_)
    simp only [step, found, received, Option.map_some]
    exact ⟨_, rfl⟩

/-- A call that returned before another one began came into the mailbox before it. -/
theorem World.Desk.real_time (desk : w.Desk r done pending) {first second : Nat}
    {ref ref' : ActorRef} {args' : Args} {result : Option Reply} {u : World}
    (returned : w.calls.lookup first = some ⟨ref', args', .returned result⟩)
    (taken : step w (.call second ref args) = some u) (grown : w.entered <+: w'.entered)
    (nodup : w'.entered.Nodup) {i j : Nat} (one : w'.entered[i]? = some first)
    (two : w'.entered[j]? = some second) : i < j := by
  obtain ⟨reply, _, before, after, entered, _⟩ := desk.returned returned
  have new : second ∉ w.entered := by
    intro member
    cases step_cases taken with
    | call fresh => exact fresh (desk.known member)
  obtain ⟨tail, grown⟩ := grown
  rw [← grown] at one two nodup
  have early : i < w.entered.length := by
    by_contra late
    rw [List.getElem?_append_right (by omega)] at one
    have twice := (List.nodup_append.mp nodup).2.2 first (by rw [entered]; simp) first
      (List.mem_of_getElem? one)
    exact twice rfl
  by_contra late
  rw [List.getElem?_append_left (by omega)] at two
  exact new (List.mem_of_getElem? two)

theorem query_actor_linearizable (address : String) (actions : List Action) (w₁ w : World)
    (started : step newWorld (.newServer address 1 []) = some w₁)
    (single : ∀ action ∈ actions, action.starts = false)
    (clock : Along step clockAdvances w₁ actions) (reached : run step w₁ actions = some w) :
    w.entered.Nodup ∧
    (∀ id ref args result, w.calls.lookup id = some ⟨ref, args, .returned result⟩ →
      ∃ reply before after, result = some reply ∧ w.entered = before ++ id :: after ∧
        Answers (execute w.argsOf before) args reply) ∧
    (∀ id ref args chanRef, w.calls.lookup id = some ⟨ref, args, .waiting chanRef⟩ →
      args.message chanRef ∈ w.net.queue ref ∨ (∃ m, w.sendsOf ref = [.tell chanRef m]) ∨
      ∃ w', step w (.answer id) = some w') ∧
    (∀ id id' ref ref' args args' chanRef,
      w.calls.lookup id = some ⟨ref, args, .waiting chanRef⟩ →
      w.calls.lookup id' = some ⟨ref', args', .waiting chanRef⟩ → id = id') ∧
    ∀ before after first second ref ref' args args' result u,
      actions = before ++ .call second ref args :: after → run step w₁ before = some u →
      u.calls.lookup first = some ⟨ref', args', .returned result⟩ →
      ∀ i j : Nat, w.entered[i]? = some first → w.entered[j]? = some second → i < j := by
  obtain ⟨r, start⟩ := World.desk_new started
  obtain ⟨done, pending, desk⟩ := start.run single clock reached
  refine ⟨desk.nodup, ?_, fun _ _ _ _ found => desk.place found, ?_, ?_⟩
  · intro id ref args result found
    obtain ⟨reply, same, before, after, entered, answers⟩ := desk.returned found
    exact ⟨reply, before, after, same, entered, answers⟩
  · exact fun _ _ _ _ _ _ _ one two => desk.distinct one two rfl rfl
  · rintro before after first second ref ref' args args' result u rfl earlier returned i j one two
    obtain ⟨clock, _⟩ := along_append clock earlier
    obtain ⟨v, between, last⟩ := run_append.mp reached
    cases Option.some.inj (earlier.symm.trans between)
    obtain ⟨t, taken, rest⟩ := run_first last
    obtain ⟨_, _, desk'⟩ := start.run (fun a member => single a (List.mem_append_left _ member))
      clock earlier
    exact desk'.real_time returned taken (entered_run last) desk.nodup one two

/-- A Put and a Get at the same time. -/
def twoCalls : List Action :=
  let r : ActorRef := ⟨"localhost:9000", 0⟩
  [.startup 0, .call 0 r (.put "k" "v"), .call 1 r (.get "k"), .newChannel 1, .newChannel 0,
    .ask 0, .handle r 0, .send r, .send r, .ask 1, .handle r 5, .send r, .handle r 0, .send r,
    .handle r 0, .handle r 0, .send r, .answer 1, .answer 0]

theorem two_calls_linearizable : ∃ w₁ w,
    step newWorld (.newServer "localhost:9000" 1 []) = some w₁ ∧
    run step w₁ twoCalls = some w ∧ w.entered = [0, 1] ∧
    w.calls.lookup 1 = some ⟨⟨"localhost:9000", 0⟩, .get "k", .returned (some (.get "v" true))⟩ ∧
    ∃ reply before after, some (Reply.get "v" true) = some reply ∧
      w.entered = before ++ 1 :: after ∧ Answers (execute w.argsOf before) (.get "k") reply :=
  ⟨_, _, rfl, rfl, rfl, rfl, (query_actor_linearizable "localhost:9000" twoCalls _ _ rfl
    (by decide) (by decide) rfl).2.1 1 _ _ _ rfl⟩

end DistSys.Kv
