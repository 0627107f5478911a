import DistSys.Kv.Steps

/-! Every step of the servers is one of four changes, and keeps the references in order. -/
namespace DistSys.Kv

open DistSys.Lib DistSys.Actor

variable {w w' : World} {r x ref : ActorRef} {m y : Msg} {now : Nat} {a : QueryActor}
  {action : Action}

namespace World

inductive Change (w : World) : Action → World → Prop where
  | carried {action : Action} {told : Option (ActorRef × Msg)} {w' : World}
      (carried : Carried w told w') (tame : ∀ r m, told = some (r, m) → m.isIntro = false)
      (servers : w'.servers = w.servers) : Change w action w'
  | startup {i : Nat} {server : Server} {ref : ActorRef} {m : Msg}
      {rest : List (ActorRef × Msg)} {w' : World} (found : w.servers[i]? = some server)
      (tells : server.tells = (ref, m) :: rest) (carried : Carried w (some (ref, m)) w')
      (servers : w'.servers = w.servers.set i { server with tells := rest })
      (arrives : ref ∈ w.running → ref.address = server.address →
        w'.net.queue ref = w.net.queue ref ++ [m] ∧
        ∀ {x y}, w'.net.Waiting x y → w.net.Waiting x y) :
    Change w (.startup i) w'
  | handled {r : ActorRef} {now : Nat} {a : QueryActor} {m : Msg} {w' : World}
      (handled : Handled w r now a m w') : Change w (.handle r now) w'
  | hired {address : String} {count : Nat} {server : Server} {w' : World}
      (hired : Hired w server w') (at_address : server.address = address) :
    Change w (.newServer address count server.remoteServers) w'

section

variable (sane : w.Sane)
include sane

theorem Sane.carried {told : Option (ActorRef × Msg)} (carried : Carried w told w')
    (sends : ∀ {src entry}, w'.running.lookup src = some entry → ∀ s ∈ entry.sends, s.Fits src)
    (timers : ∀ {src r m}, (src, r, m) ∈ w'.timers → src = r.address ∧ m = .mSync)
    (servers : ∀ {server}, server ∈ w'.servers → ∃ old ∈ w.servers,
      server.actorRep = old.actorRep ∧ server.address = old.address)
    (calls : ∀ {id call}, w'.calls.lookup id = some call → call.ref ∈ w.running) : w'.Sane := by
  have member : ∀ {x}, x ∈ w'.running ↔ x ∈ w.running := by
    intro x
    rw [mem_running, mem_running, carried.actor]
  constructor
  · exact carried.reliable
  · intro r running none
    exact sane.boxes (member.mp running) ((carried.box r).mp none)
  · intro r a here
    rw [carried.actor] at here
    exact sane.self here
  · intro r a here x listed
    rw [carried.actor] at here
    exact member.mpr (sane.lists here x listed)
  · intro r m coming
    rcases carried.coming coming with old | request
    · exact (sane.letters old).mono fun _ => member.mpr
    · cases m <;> trivial
  · exact sends
  · exact timers
  · intro server here
    obtain ⟨old, before, rep, address⟩ := servers here
    rw [rep, address]
    exact (sane.servers before).imp_left member.mpr
  · exact fun found => member.mpr (calls found)

/-- What an actor answers to a message about actors is about actors. -/
theorem Sane.reacts (now : Nat) (before : w.actor r = some a) (fits : w.Fits r m) :
    (a.react now m).1.self = r ∧
    (∀ x ∈ (a.react now m).1.actorList ++ (a.react now m).1.remoteActorList, x ∈ w.running) ∧
    ∀ s ∈ (a.react now m).2, s.Fits r ∧ w.Fits s.letter.1 s.letter.2 := by
  have self := sane.self before
  have lists := sane.lists before
  have here : r ∈ w.running := mem_running.mpr ⟨a, before⟩
  cases m with
  | mGet sender key =>
    refine ⟨self, lists, fun s member => ?_⟩
    cases List.mem_singleton.mp member
    cases a.storage.lookup key with
    | none | some content => exact ⟨rfl, trivial⟩
  | mPut sender key value | mList sender start =>
    refine ⟨self, lists, fun s member => ?_⟩
    cases List.mem_singleton.mp member
    exact ⟨rfl, trivial⟩
  | mIntro actorList remoteActorList =>
    refine ⟨self, fits.2, fun s member => ?_⟩
    rcases List.mem_cons.mp member with rfl | member
    · exact ⟨rfl, self ▸ here⟩
    · obtain ⟨x, listed, rfl⟩ := List.mem_map.mp member
      exact ⟨rfl, fits.2 x (List.mem_append_left _ listed)⟩
  | mSync =>
    refine ⟨self, lists, fun s member => ?_⟩
    rcases List.mem_append.mp member with update | again
    · split at update
      · obtain ⟨x, target, rfl⟩ := List.mem_map.mp update
        refine ⟨rfl, lists x ?_⟩
        rcases List.mem_append.mp target with listed | listed
        · exact List.mem_append_left _ (List.mem_filter.mp listed).1
        · exact List.mem_append_right _ listed
      · cases update
    · cases List.mem_singleton.mp again
      exact ⟨⟨self, rfl⟩, self ▸ here⟩
  | mUpdate putList =>
    obtain ⟨self', actors, remotes⟩ := merge_frame (a := a) putList
    refine ⟨self'.trans self, ?_, fun s member => ?_⟩
    · show ∀ x ∈ (putList.foldl QueryActor.merge a).actorList ++
        (putList.foldl QueryActor.merge a).remoteActorList, x ∈ w.running
      rw [actors, remotes]
      exact lists
    · cases member
  | mRIntro sender =>
    refine ⟨self, fun x member => ?_, fun s member => ?_⟩
    · rcases List.mem_append.mp member with listed | listed
      · exact lists x (List.mem_append_left _ listed)
      · rcases List.mem_append.mp listed with listed | new
        · exact lists x (List.mem_append_right _ listed)
        · cases List.mem_singleton.mp new
          exact fits.2
    · cases member
  | getReply | putReply | listReply =>
    refine ⟨self, lists, fun s member => ?_⟩
    cases member

theorem Sane.handled (handled : Handled w r now a m w') : w'.Sane := by
  have fits : w.Fits r m := sane.letters (.inl (by rw [handled.next]; exact List.mem_cons_self))
  obtain ⟨self, lists, sends⟩ := sane.reacts now handled.before fits
  have grows : ∀ x, x ∈ w.running → x ∈ w'.running := fun _ => handled.member.mpr
  constructor
  · exact sane.reliable.pop handled.popped
  · intro x running none
    exact sane.boxes (handled.member.mp running) (handled.box.mp none)
  · intro x b here
    rw [handled.actor] at here
    split at here
    · rename_i same
      cases here
      rw [same]
      exact self
    · exact sane.self here
  · intro x b here z listed
    rw [handled.actor] at here
    split at here
    · cases here
      exact grows z (lists z listed)
    · exact grows z (sane.lists here z listed)
  · intro x z coming
    rcases handled.coming coming with old | ⟨s, member, letter⟩
    · exact (sane.letters old).mono grows
    · have fits := (sends s member).2
      rw [letter] at fits
      exact fits.mono grows
  · intro src entry found s member
    rw [handled.running] at found
    split at found
    · rename_i same
      cases found
      rw [same]
      exact (sends s member).1
    · exact sane.sends found s member
  · intro src x z member
    exact sane.timers (handled.timers ▸ member)
  · intro server here
    exact (sane.servers (handled.servers ▸ here)).imp_left (grows _)
  · intro id call found
    exact grows _ (sane.calls (handled.calls ▸ found))

theorem Sane.hired {server : Server} (hired : Hired w server w') : w'.Sane := by
  have grows : ∀ x, x ∈ w.running → x ∈ w'.running := fun _ old => hired.member.mpr (.inl old)
  have rep : server.actorRep ∈ w'.running := hired.member.mpr (.inr hired.rep)
  have remote : ∀ x ∈ server.remoteServers, x ∈ w'.running := by
    intro x listed
    obtain ⟨other, here, rfl, _⟩ := hired.returned x listed
    exact grows _ (sane.servers here).1
  constructor
  · exact hired.reliable
  · intro x running
    by_cases new : x ∈ server.actorList
    · exact hired.boxes x new
    · rw [hired.others x new]
      exact sane.boxes ((hired.member.mp running).resolve_right new)
  · intro x b here
    rw [hired.actor] at here
    split at here
    · cases here
      rfl
    · exact sane.self here
  · intro x b here z listed
    rw [hired.actor] at here
    split at here
    · cases here
      cases listed
    · exact grows z (sane.lists here z listed)
  · intro x z coming
    rcases (hired.coming sane).mp coming with old | new
    · exact (sane.letters old).mono grows
    · rw [hired.tells, introductions] at new
      rcases List.mem_append.mp new with intro | intro
      · obtain ⟨_, listed, same⟩ := List.mem_map.mp intro
        cases same
        refine ⟨hired.member.mpr (.inr listed), ?_⟩
        intro z named
        rcases List.mem_append.mp named with own | other
        · exact hired.member.mpr (.inr own)
        · exact remote z other
      · obtain ⟨_, listed, same⟩ := List.mem_map.mp intro
        cases same
        exact ⟨remote x listed, rep⟩
  · intro src entry found s member
    rw [hired.running] at found
    split at found
    · cases found
      cases member
    · exact sane.sends found s member
  · intro src x z member
    exact sane.timers (hired.timers ▸ member)
  · intro other here
    rw [hired.servers] at here
    rcases List.mem_append.mp here with old | new
    · exact (sane.servers old).imp_left (grows _)
    · cases List.mem_singleton.mp new
      exact ⟨rep, hired.address _ hired.rep⟩
  · intro id call found
    exact grows _ (sane.calls (hired.calls ▸ found))

/-- The sends of an actor are those that it had, but for the first. -/
theorem sends_insert {s : Send} {rest : List Send}
    (found : w.running.lookup ref = some ⟨a, s :: rest⟩) {src : ActorRef} {entry : Running}
    (here : (w.running.insert ref ⟨a, rest⟩).lookup src = some entry) :
    ∀ s ∈ entry.sends, s.Fits src := by
  rw [Map.lookup_insert] at here
  split at here
  · rename_i same
    cases here
    rw [same]
    exact fun s member => sane.sends found s (List.mem_cons_of_mem _ member)
  · exact sane.sends here

theorem Sane.sent (sent : send w ref = some w') : w'.Sane := by
  obtain ⟨told, carried, _⟩ := carried_send sane sent
  cases send_cases sent with
  | tell _ _ _ _ found =>
    exact sane.carried carried (sends_insert sane found) sane.timers
      (fun here => ⟨_, here, rfl, rfl⟩) sane.calls
  | tellAfter actor target m rest found =>
    refine sane.carried carried (sends_insert sane found) ?_ (fun here => ⟨_, here, rfl, rfl⟩)
      sane.calls
    intro src x y member
    rcases List.mem_append.mp member with old | new
    · exact sane.timers old
    · cases List.mem_singleton.mp new
      obtain ⟨same, sync⟩ : target = ref ∧ m = .mSync := sane.sends found _ List.mem_cons_self
      exact ⟨by rw [same], sync⟩

/-- Only the net and an RPC change. -/
theorem Sane.rpc (carried : Carried w none w') (running : w'.running = w.running)
    (timers : w'.timers = w.timers) (servers : w'.servers = w.servers)
    (calls : ∀ {id call}, w'.calls.lookup id = some call → call.ref ∈ w.running) : w'.Sane :=
  sane.carried carried (fun found => sane.sends (running ▸ found))
    (fun member => sane.timers (timers ▸ member))
    (fun here => ⟨_, servers ▸ here, rfl, rfl⟩) calls

theorem Sane.call_insert {id : Nat} {args : Args} {pc : CallPc} (here : ref ∈ w.running) {id' : Nat}
    {call : Call} (found : (w.calls.insert id ⟨ref, args, pc⟩).lookup id' = some call) :
    call.ref ∈ w.running := by
  rw [Map.lookup_insert] at found
  split at found
  · cases found
    exact here
  · exact sane.calls found

/-- A step that only moves messages or an RPC. -/
theorem change_rpc (carried : Carried w none w') (running : w'.running = w.running)
    (timers : w'.timers = w.timers) (servers : w'.servers = w.servers)
    (calls : ∀ {id call}, w'.calls.lookup id = some call → call.ref ∈ w.running) :
    Change w action w' ∧ w'.Sane :=
  ⟨.carried carried (by rintro _ _ ⟨⟩) servers, sane.rpc carried running timers servers calls⟩

theorem change_hop {n : Net Msg} (hop : Net.Hop w.net n) :
    Change w action { w with net := n } ∧ Sane { w with net := n } :=
  change_rpc sane (carried_hop hop rfl rfl rfl rfl) rfl rfl rfl sane.calls

theorem step_change (taken : step w action = some w') : Change w action w' ∧ w'.Sane := by
  cases step_cases taken with
  | newServer started =>
    obtain ⟨server, hired, at_address, rfl, _⟩ := newServer_spec sane.reliable started
    exact ⟨.hired hired at_address, sane.hired hired⟩
  | startup server ref m rest found tells =>
    have member := List.mem_of_getElem? found
    have carried := carried_startup sane found tells
    refine ⟨.startup found tells carried rfl ?_, ?_⟩
    · intro there own
      rw [← own]
      exact ⟨Net.queue_tell sane.reliable (sane.boxes there), Net.waiting_tell (sane.here there)⟩
    · refine sane.carried carried sane.sends sane.timers ?_ sane.calls
      intro other here
      rcases List.mem_or_eq_of_mem_set here with old | rfl
      · exact ⟨other, old, rfl, rfl⟩
      · exact ⟨server, member, rfl, rfl⟩
  | handle handled =>
    obtain ⟨a, m, handled⟩ := handle_spec handled
    exact ⟨.handled handled, sane.handled handled⟩
  | send sent =>
    obtain ⟨told, carried, tame⟩ := carried_send sane sent
    refine ⟨.carried carried tame ?_, sane.sent sent⟩
    cases send_cases sent with
    | tell => rfl
    | tellAfter => rfl
  | wake src ref m found =>
    have carried := carried_wake sane found
    refine ⟨.carried carried ?_ rfl, ?_⟩
    · rintro x y ⟨⟩
      rw [(sane.timers (List.mem_of_getElem? found)).2]
      rfl
    · exact sane.carried carried sane.sends
        (fun member => sane.timers (List.mem_of_mem_eraseIdx member))
        (fun here => ⟨_, here, rfl, rfl⟩) sane.calls
  | dial n dialed => exact change_hop sane (Net.hop_dial sane.reliable dialed)
  | remoteSend n sent => exact change_hop sane (Net.hop_remoteSend sane.reliable sent)
  | serveRequest n served => exact change_hop sane (Net.hop_serveRequest sane.reliable served)
  | call fresh here =>
    have still : Net.Hop w.net w.net := .still sane.reliable (fun _ => rfl) Iff.rfl
    exact change_rpc sane (carried_hop still rfl rfl rfl rfl) rfl rfl rfl (sane.call_insert here)
  | newChannel ref args chanRef n found made =>
    rcases Net.newChannelRef_spec made with ⟨_, closed⟩ | new
    · cases (sane.reliable.up _).symm.trans closed
    · exact change_rpc sane (carried_hop (Net.hop_channel sane.reliable new) rfl rfl rfl rfl)
        rfl rfl rfl (sane.call_insert (sane.calls found))
  | ask ref args chanRef found =>
    have there : ref ∈ w.running := sane.calls found
    exact change_rpc sane (carried_ask sane there isRequest_message rfl rfl rfl rfl rfl) rfl rfl
      rfl (sane.call_insert there)
  | answer ref args chanRef m n found received =>
    exact change_rpc sane (carried_hop (Net.hop_receive sane.reliable received) rfl rfl rfl rfl)
      rfl rfl rfl (sane.call_insert (sane.calls found))

end

/-! ### The start -/

theorem nothing_coming : ¬newWorld.Coming r m := by
  rintro (queued | ⟨_, ⟨_, found, _⟩ | ⟨_, found, _⟩⟩ | pending)
  · cases queued
  · cases found
  · cases found
  · rcases pending with ⟨found, _⟩ | member | ⟨here, _⟩
    · cases found
    · cases member
    · cases here

theorem actor_new : newWorld.actor r = none := by
  rw [actor]
  rfl

theorem sane_new : newWorld.Sane where
  reliable := Net.reliable_new
  boxes := by
    intro r running
    cases running
  self := by
    intro r a here
    rw [actor_new] at here
    cases here
  lists := by
    intro r a here
    rw [actor_new] at here
    cases here
  letters := fun coming => absurd coming nothing_coming
  sends := by
    intro src entry found
    cases found
  timers := by
    intro src r m member
    cases member
  servers := by
    intro server here
    cases here
  calls := by
    intro id call found
    cases found

end World

end DistSys.Kv
