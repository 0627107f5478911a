import DistSys.Kv.World

/-! What the steps do to the messages on their way and to the actors: a message is handled, a
server is started, or messages move on. -/
namespace DistSys.Kv

open DistSys.Lib DistSys.Actor

def Send.letter : Send → ActorRef × Msg
  | .tell ref m => (ref, m)
  | .tellAfter ref m => (ref, m)

/-- No introductions, and only MSync to the actor itself after a while. -/
def Send.Fits (src : ActorRef) : Send → Prop
  | .tell _ m => m.isIntro = false
  | .tellAfter ref m => ref = src ∧ m = .mSync

/-- `OnMessage` with its error dropped. -/
def QueryActor.react (a : QueryActor) (now : Nat) (m : Msg) : QueryActor × List Send :=
  match a.onMessage now m with
  | .ok result => result
  | .error _ => (a, [])

def Msg.isRequest : Msg → Bool
  | .mGet .. => true
  | .mPut .. => true
  | .mList .. => true
  | _ => false

variable {w w' : World} {r x ref : ActorRef} {m y : Msg} {now : Nat} {a : QueryActor}

/-! ### What each action does -/

/-- The next message of a handler is told, or a timer gets it. -/
inductive SendStep (w : World) (ref : ActorRef) : World → Prop where
  | tell (actor : QueryActor) (target : ActorRef) (m : Msg) (rest : List Send)
      (found : w.running.lookup ref = some ⟨actor, .tell target m :: rest⟩) :
      SendStep w ref { w with
        net := w.net.tell ref.address target m
        running := w.running.insert ref ⟨actor, rest⟩ }
  | tellAfter (actor : QueryActor) (target : ActorRef) (m : Msg) (rest : List Send)
      (found : w.running.lookup ref = some ⟨actor, .tellAfter target m :: rest⟩) :
      SendStep w ref { w with
        timers := w.timers ++ [(ref.address, target, m)]
        running := w.running.insert ref ⟨actor, rest⟩ }

theorem send_cases (sent : send w ref = some w') : SendStep w ref w' := by
  unfold send at sent
  split at sent
  · rename_i found
    cases sent
    exact .tell _ _ _ _ found
  · rename_i found
    cases sent
    exact .tellAfter _ _ _ _ found
  · cases sent

theorem newServer_cases {address : String} {count : Nat} {remoteServers : List ActorRef}
    (started : newServer w address count remoteServers = some w') :
    ∃ n actorRep others n', w.net.newActorSystem address = some n ∧
      startActors count n address = some (actorRep :: others, n') ∧
      (∀ ref ∈ remoteServers, ∃ server ∈ w.servers, server.actorRep = ref ∧
        server.tells.isEmpty = true) ∧
      w' = { w with
        net := n'
        running := hire w.running (actorRep :: others)
        servers := w.servers ++ [⟨address, actorRep, actorRep :: others, remoteServers,
          introductions actorRep (actorRep :: others) remoteServers⟩] } := by
  unfold newServer at started
  split at started
  · cases started
  · rename_i n created
    split at started
    · rename_i actorRep others n' staff
      split at started
      · rename_i returned
        cases started
        exact ⟨n, actorRep, others, n', created, staff, returned, rfl⟩
      · cases started
    · cases started

inductive WorldStep (w : World) : Action → World → Prop where
  | newServer {address : String} {count : Nat} {remoteServers : List ActorRef} {w' : World}
      (started : newServer w address count remoteServers = some w') :
      WorldStep w (.newServer address count remoteServers) w'
  | startup {i : Nat} (server : Server) (ref : ActorRef) (m : Msg) (rest : List (ActorRef × Msg))
      (found : w.servers[i]? = some server) (tells : server.tells = (ref, m) :: rest) :
      WorldStep w (.startup i) { w with
        net := w.net.tell server.address ref m
        servers := w.servers.set i { server with tells := rest } }
  | handle {ref : ActorRef} {now : Nat} {w' : World} (handled : handle w ref now = some w') :
      WorldStep w (.handle ref now) w'
  | send {ref : ActorRef} {w' : World} (sent : send w ref = some w') : WorldStep w (.send ref) w'
  | wake {i : Nat} (src : String) (ref : ActorRef) (m : Msg)
      (found : w.timers[i]? = some (src, ref, m)) : WorldStep w (.wake i) { w with
        net := w.net.tell src ref m
        timers := w.timers.eraseIdx i }
  | dial {src dst : String} (n : Net Msg) (dialed : w.net.dial src dst true = some n) :
      WorldStep w (.dial src dst) { w with net := n }
  | remoteSend {src dst : String} (n : Net Msg) (sent : w.net.remoteSend src dst = some n) :
      WorldStep w (.remoteSend src dst) { w with net := n }
  | serveRequest {src dst : String} (n : Net Msg) (served : w.net.serveRequest src dst = some n) :
      WorldStep w (.serveRequest src dst) { w with net := n }
  | call {id : Nat} {ref : ActorRef} {args : Args} (fresh : id ∉ w.calls)
      (here : ref ∈ w.running) : WorldStep w (.call id ref args) { w with
        calls := w.calls.insert id ⟨ref, args, .started⟩ }
  | newChannel {id : Nat} (ref : ActorRef) (args : Args) (chanRef : ActorRef) (n : Net Msg)
      (found : w.calls.lookup id = some ⟨ref, args, .started⟩)
      (made : w.net.newChannelRef ref.address = some (chanRef, n)) :
      WorldStep w (.newChannel id) { w with
        net := n
        calls := w.calls.insert id ⟨ref, args, .hasChannel chanRef⟩ }
  | ask {id : Nat} (ref : ActorRef) (args : Args) (chanRef : ActorRef)
      (found : w.calls.lookup id = some ⟨ref, args, .hasChannel chanRef⟩) :
      WorldStep w (.ask id) { w with
        net := w.net.tell ref.address ref (args.message chanRef)
        calls := w.calls.insert id ⟨ref, args, .waiting chanRef⟩
        entered := w.entered ++ [id] }
  | answer {id : Nat} (ref : ActorRef) (args : Args) (chanRef : ActorRef) (m : Msg) (n : Net Msg)
      (found : w.calls.lookup id = some ⟨ref, args, .waiting chanRef⟩)
      (received : w.net.receive chanRef = some (m, n)) :
      WorldStep w (.answer id) { w with
        net := n
        calls := w.calls.insert id ⟨ref, args, .returned (args.reply m)⟩ }

theorem step_cases {action : Action} (taken : step w action = some w') : WorldStep w action w' := by
  cases action with
  | newServer => exact .newServer taken
  | startup i =>
    simp only [step] at taken
    split at taken
    · rename_i server found
      split at taken
      · rename_i tells
        cases taken
        exact .startup server _ _ _ found tells
      · cases taken
    · cases taken
  | handle => exact .handle taken
  | send => exact .send taken
  | wake i =>
    simp only [step] at taken
    split at taken
    · rename_i found
      cases taken
      exact .wake _ _ _ found
    · cases taken
  | dial =>
    obtain ⟨n, dialed, rfl⟩ := Option.map_eq_some_iff.mp taken
    exact .dial n dialed
  | remoteSend =>
    obtain ⟨n, sent, rfl⟩ := Option.map_eq_some_iff.mp taken
    exact .remoteSend n sent
  | serveRequest =>
    obtain ⟨n, served, rfl⟩ := Option.map_eq_some_iff.mp taken
    exact .serveRequest n served
  | call =>
    simp only [step] at taken
    split at taken
    · rename_i allowed
      cases taken
      exact .call allowed.1 allowed.2
    · cases taken
  | newChannel =>
    simp only [step] at taken
    split at taken
    · rename_i found
      obtain ⟨⟨chanRef, n⟩, made, rfl⟩ := Option.map_eq_some_iff.mp taken
      exact .newChannel _ _ chanRef n found made
    · cases taken
  | ask =>
    simp only [step] at taken
    split at taken
    · rename_i found
      cases taken
      exact .ask _ _ _ found
    · cases taken
  | answer =>
    simp only [step] at taken
    split at taken
    · rename_i found
      obtain ⟨⟨m, n⟩, received, rfl⟩ := Option.map_eq_some_iff.mp taken
      exact .answer _ _ _ m n found received
    · cases taken

namespace World

/-- A message that its sender, a timer or `NewServer` has still to tell. -/
inductive Pending (w : World) (r : ActorRef) (m : Msg) : Prop where
  | sending {src : ActorRef} {entry : Running} {s : Send}
      (found : w.running.lookup src = some entry) (member : s ∈ entry.sends)
      (letter : s.letter = (r, m))
  | sleeping {src : String} (member : (src, r, m) ∈ w.timers)
  | telling {server : Server} (here : server ∈ w.servers) (member : (r, m) ∈ server.tells)

/-- A message to an actor that is not yet in its mailbox. -/
def Outside (w : World) (r : ActorRef) (m : Msg) : Prop := w.net.Waiting r m ∨ w.Pending r m

def Coming (w : World) (r : ActorRef) (m : Msg) : Prop := m ∈ w.net.queue r ∨ w.Outside r m

def actor (w : World) (r : ActorRef) : Option QueryActor := (w.running.lookup r).map Running.actor

/-- A message that goes to an actor, and that names actors only. -/
def Fits (w : World) (r : ActorRef) : Msg → Prop
  | .mIntro actorList remoteActorList =>
    r ∈ w.running ∧ ∀ x ∈ actorList ++ remoteActorList, x ∈ w.running
  | .mSync => r ∈ w.running
  | .mUpdate _ => r ∈ w.running
  | .mRIntro sender => r ∈ w.running ∧ sender ∈ w.running
  | _ => True

theorem actor_some : w.actor r = some a ↔ ∃ sends, w.running.lookup r = some ⟨a, sends⟩ := by
  unfold actor
  rw [Option.map_eq_some_iff]
  constructor
  · rintro ⟨⟨_, sends⟩, found, rfl⟩
    exact ⟨sends, found⟩
  · rintro ⟨sends, found⟩
    exact ⟨_, found, rfl⟩

theorem mem_running : r ∈ w.running ↔ ∃ a, w.actor r = some a := by
  simp only [actor_some]
  constructor
  · intro member
    obtain ⟨⟨a, sends⟩, found⟩ := Map.lookup_of_mem member
    exact ⟨a, sends, found⟩
  · rintro ⟨_, _, found⟩
    exact Map.mem_of_lookup found

theorem Fits.mono (grows : ∀ x, x ∈ w.running → x ∈ w'.running) (fits : w.Fits r m) :
    w'.Fits r m := by
  cases m with
  | mIntro actorList remoteActorList =>
    exact ⟨grows _ fits.1, fun x member => grows _ (fits.2 x member)⟩
  | mSync | mUpdate => exact grows _ fits
  | mRIntro => exact ⟨grows _ fits.1, grows _ fits.2⟩
  | mGet | mPut | mList | getReply | putReply | listReply => trivial

/-- Every reference is that of a running actor with its mailbox. -/
structure Sane (w : World) : Prop where
  reliable : w.net.Reliable
  boxes : ∀ {r}, r ∈ w.running → w.net.box r ≠ none
  self : ∀ {r a}, w.actor r = some a → a.self = r
  lists : ∀ {r a}, w.actor r = some a → ∀ x ∈ a.actorList ++ a.remoteActorList, x ∈ w.running
  letters : ∀ {r m}, w.Coming r m → w.Fits r m
  sends : ∀ {src entry}, w.running.lookup src = some entry → ∀ s ∈ entry.sends, s.Fits src
  timers : ∀ {src r m}, (src, r, m) ∈ w.timers → src = r.address ∧ m = .mSync
  servers : ∀ {server}, server ∈ w.servers → server.actorRep ∈ w.running ∧
    server.actorRep.address = server.address
  calls : ∀ {id call}, w.calls.lookup id = some call → call.ref ∈ w.running

theorem Sane.here (sane : w.Sane) (member : r ∈ w.running) : r.address ∈ w.net.systems :=
  Net.system_of_box (sane.boxes member)

/-! ### Messages move on -/

/-- `told`: the message that is told in the step, if it is one that was pending. -/
structure Carried (w : World) (told : Option (ActorRef × Msg)) (w' : World) : Prop where
  reliable : w'.net.Reliable
  box : ∀ r, w'.net.box r = none ↔ w.net.box r = none
  actor : ∀ r, w'.actor r = w.actor r
  puts : w'.puts = w.puts
  queue : ∀ r, ∃ tail, w'.net.queue r = w.net.queue r ++ tail ∧
    ∀ m ∈ tail, w.net.Waiting r m ∨ told = some (r, m) ∨ m.isRequest
  was : ∀ {r m}, told = some (r, m) → w.Pending r m
  waiting : ∀ {r m}, w'.net.Waiting r m → w.net.Waiting r m ∨ told = some (r, m)
  less : ∀ {r m}, w'.Pending r m → w.Pending r m
  more : ∀ {r m}, w.net.box r ≠ none → w.Outside r m → w'.Coming r m

theorem Carried.coming {told : Option (ActorRef × Msg)} (carried : Carried w told w')
    (coming : w'.Coming r m) : w.Coming r m ∨ m.isRequest := by
  rcases coming with queued | outside
  · obtain ⟨tail, after, new⟩ := carried.queue r
    rw [after] at queued
    rcases List.mem_append.mp queued with old | late
    · exact .inl (.inl old)
    · rcases new m late with waiting | told | request
      · exact .inl (.inr (.inl waiting))
      · exact .inl (.inr (.inr (carried.was told)))
      · exact .inr request
  · rcases outside with waiting | pending
    · rcases carried.waiting waiting with old | told
      · exact .inl (.inr (.inl old))
      · exact .inl (.inr (.inr (carried.was told)))
    · exact .inl (.inr (.inr (carried.less pending)))

theorem Carried.kept {told : Option (ActorRef × Msg)} (carried : Carried w told w')
    (here : w.net.box r ≠ none) (coming : w.Coming r m) : w'.Coming r m := by
  rcases coming with queued | outside
  · obtain ⟨tail, after, _⟩ := carried.queue r
    left
    rw [after]
    exact List.mem_append_left _ queued
  · exact carried.more here outside

theorem carried_hop (hop : Net.Hop w.net w'.net) (running : w'.running = w.running)
    (timers : w'.timers = w.timers) (servers : w'.servers = w.servers) (puts : w'.puts = w.puts) :
    Carried w none w' := by
  have pending : ∀ {r m}, w'.Pending r m ↔ w.Pending r m := by
    intro r m
    constructor
    · rintro (⟨found, member, letter⟩ | member | ⟨here, member⟩)
      · exact .sending (running ▸ found) member letter
      · exact .sleeping (timers ▸ member)
      · exact .telling (servers ▸ here) member
    · rintro (⟨found, member, letter⟩ | member | ⟨here, member⟩)
      · exact .sending (running ▸ found) member letter
      · exact .sleeping (timers ▸ member)
      · exact .telling (servers ▸ here) member
  constructor
  · exact hop.reliable
  · exact hop.box
  · exact fun r => by rw [World.actor, running, World.actor]
  · exact puts
  · intro r
    obtain ⟨tail, after, waiting⟩ := hop.queue r
    exact ⟨tail, after, fun m member => .inl (waiting m member)⟩
  · intro r m none
    cases none
  · exact fun waiting => .inl (hop.less waiting)
  · exact pending.mp
  · rintro r m here (waiting | still)
    · exact (hop.more here waiting).elim (fun waits => .inr (.inl waits)) .inl
    · exact .inr (.inr (pending.mpr still))

/-- A pending message is told. -/
theorem carried_tell {src : String} (reliable : w.net.Reliable) (here : src ∈ w.net.systems)
    (net : w'.net = w.net.tell src r m) (actor : ∀ r, w'.actor r = w.actor r)
    (puts : w'.puts = w.puts) (pending : w.Pending r m)
    (less : ∀ {x y}, w'.Pending x y → w.Pending x y)
    (more : ∀ {x y}, w.Pending x y → w'.Pending x y ∨ x = r ∧ y = m) :
    Carried w (some (r, m)) w' := by
  have told : Net.Told w.net r m w'.net := net ▸ Net.told_tell reliable here
  constructor
  · exact told.reliable
  · exact told.box
  · exact actor
  · exact puts
  · intro x
    rcases told.queue x with same | ⟨rfl, after⟩
    · exact ⟨[], by rw [same, List.append_nil], by simp⟩
    · refine ⟨[m], after, ?_⟩
      intro y member
      cases List.mem_singleton.mp member
      exact .inr (.inl rfl)
  · intro x y same
    cases same
    exact pending
  · intro x y waiting
    rcases told.less waiting with old | ⟨rfl, rfl⟩
    · exact .inl old
    · exact .inr rfl
  · exact less
  · rintro x y target (waiting | still)
    · exact .inr (.inl (told.more waiting))
    · rcases more still with still | ⟨rfl, rfl⟩
      · exact .inr (.inr still)
      · rcases told.arrives target with queue | waiting
        · left
          rw [queue]
          exact List.mem_append_right _ List.mem_cons_self
        · exact .inr (.inl waiting)

/-- An actor goes on to its next send. -/
theorem pending_sent (w' : World) {s : Send} {rest : List Send}
    (found : w.running.lookup ref = some ⟨a, s :: rest⟩)
    (running : w'.running = w.running.insert ref ⟨a, rest⟩) (servers : w'.servers = w.servers)
    (grows : ∀ entry ∈ w.timers, entry ∈ w'.timers)
    (timers : ∀ {src x y}, (src, x, y) ∈ w'.timers → (src, x, y) ∈ w.timers ∨ s.letter = (x, y)) :
    (∀ x, w'.actor x = w.actor x) ∧ (∀ {x y}, w'.Pending x y → w.Pending x y) ∧
    ∀ {x y}, w.Pending x y → w'.Pending x y ∨ s.letter = (x, y) := by
  have after : ∀ x, w'.running.lookup x =
      if x = ref then some ⟨a, rest⟩ else w.running.lookup x := by
    intro x
    rw [running, Map.lookup_insert]
  refine ⟨?_, ?_, ?_⟩
  · intro x
    rw [World.actor, after, World.actor]
    split
    · rename_i same
      rw [same, found]
      rfl
    · rfl
  · rintro x y (⟨here, member, letter⟩ | member | ⟨here, member⟩)
    · rw [after] at here
      split at here
      · cases here
        exact .sending found (List.mem_cons_of_mem _ member) letter
      · exact .sending here member letter
    · rcases timers member with old | letter
      · exact .sleeping old
      · exact .sending found List.mem_cons_self letter
    · exact .telling (servers ▸ here) member
  · rintro x y (⟨here, member, letter⟩ | member | ⟨here, member⟩)
    · rename_i src entry s'
      by_cases same : src = ref
      · subst same
        cases found.symm.trans here
        rcases List.mem_cons.mp member with rfl | member
        · exact .inr letter
        · exact .inl (.sending (by rw [after, if_pos rfl]) member letter)
      · exact .inl (.sending (by rw [after, if_neg same, here]) member letter)
    · exact .inl (.sleeping (grows _ member))
    · exact .inl (.telling (servers ▸ here) member)

theorem carried_send (sane : w.Sane) (sent : send w ref = some w') :
    ∃ told, Carried w told w' ∧ ∀ r m, told = some (r, m) → m.isIntro = false := by
  cases send_cases sent with
  | tell actor target m rest found =>
    obtain ⟨actor, less, more⟩ := pending_sent { w with
      net := w.net.tell ref.address target m
      running := w.running.insert ref ⟨actor, rest⟩ } found rfl rfl (fun _ old => old) .inl
    refine ⟨some (target, m), ?_, ?_⟩
    · refine carried_tell sane.reliable (sane.here (Map.mem_of_lookup found)) rfl actor rfl
        (.sending found List.mem_cons_self rfl) less ?_
      intro x y pending
      refine (more pending).imp_right ?_
      rintro ⟨⟩
      exact ⟨rfl, rfl⟩
    · rintro r m ⟨⟩
      exact sane.sends found _ List.mem_cons_self
  | tellAfter actor target m rest found =>
    obtain ⟨actor, less, more⟩ := pending_sent { w with
        timers := w.timers ++ [(ref.address, target, m)]
        running := w.running.insert ref ⟨actor, rest⟩ } found rfl rfl
      (fun _ old => List.mem_append_left _ old) (by
        intro src x y member
        refine (List.mem_append.mp member).imp_right ?_
        intro new
        cases List.mem_singleton.mp new
        rfl)
    refine ⟨none, ?_, ?_⟩
    · refine ⟨sane.reliable, fun _ => Iff.rfl, actor, rfl, fun r => ⟨[], ?_, by simp⟩, ?_, .inl,
        less, ?_⟩
      · exact (List.append_nil _).symm
      · rintro r m ⟨⟩
      · rintro r y _ (waiting | pending)
        · exact .inr (.inl waiting)
        · rcases more pending with still | letter
          · exact .inr (.inr still)
          · cases letter
            exact .inr (.inr (.sleeping (List.mem_append_right _ List.mem_cons_self)))
    · rintro r m ⟨⟩

theorem carried_wake (sane : w.Sane) {i : Nat} {src : String}
    (found : w.timers[i]? = some (src, r, m)) : Carried w (some (r, m)) { w with
      net := w.net.tell src r m
      timers := w.timers.eraseIdx i } := by
  have member := List.mem_of_getElem? found
  have there : r ∈ w.running := by
    have fits := sane.letters (.inr (.inr (.sleeping member)))
    rw [(sane.timers member).2] at fits
    exact fits
  have here : src ∈ w.net.systems := by
    rw [(sane.timers member).1]
    exact sane.here there
  refine carried_tell sane.reliable here rfl (fun _ => rfl) rfl (.sleeping member) ?_ ?_
  · rintro x y (⟨here, member, letter⟩ | member | ⟨here, member⟩)
    · exact .sending here member letter
    · exact .sleeping (List.mem_of_mem_eraseIdx member)
    · exact .telling here member
  · rintro x y (⟨here, member, letter⟩ | @⟨src', member⟩ | ⟨here, member⟩)
    · exact .inl (.sending here member letter)
    · obtain ⟨j, there⟩ := List.mem_iff_getElem?.mp member
      by_cases same : j = i
      · subst same
        cases found.symm.trans there
        exact .inr ⟨rfl, rfl⟩
      · exact .inl (.sleeping (List.mem_eraseIdx_iff_getElem?.mpr ⟨j, same, there⟩))
    · exact .inl (.telling here member)

theorem carried_startup (sane : w.Sane) {i : Nat} {server : Server}
    {rest : List (ActorRef × Msg)} (found : w.servers[i]? = some server)
    (tells : server.tells = (r, m) :: rest) : Carried w (some (r, m)) { w with
      net := w.net.tell server.address r m
      servers := w.servers.set i { server with tells := rest } } := by
  have member := List.mem_of_getElem? found
  obtain ⟨there, address⟩ := sane.servers member
  have first : (r, m) ∈ server.tells := by
    rw [tells]
    exact List.mem_cons_self
  refine carried_tell sane.reliable (address ▸ sane.here there) rfl (fun _ => rfl) rfl
    (.telling member first) ?_ ?_
  · rintro x y (⟨here, member, letter⟩ | member | ⟨here, later⟩)
    · exact .sending here member letter
    · exact .sleeping member
    · rcases List.mem_or_eq_of_mem_set here with old | rfl
      · exact .telling old later
      · refine .telling member ?_
        rw [tells]
        exact List.mem_cons_of_mem _ later
  · rintro x y (⟨here, member, letter⟩ | member | @⟨server', here, later⟩)
    · exact .inl (.sending here member letter)
    · exact .inl (.sleeping member)
    · obtain ⟨j, there⟩ := List.mem_iff_getElem?.mp here
      by_cases same : i = j
      · subst same
        cases found.symm.trans there
        rw [tells] at later
        rcases List.mem_cons.mp later with first | later
        · cases first
          exact .inr ⟨rfl, rfl⟩
        · have inside := (List.getElem?_eq_some_iff.mp found).1
          exact .inl (.telling (List.mem_set inside _) later)
      · have still : (w.servers.set i { server with tells := rest })[j]? = some server' := by
          rw [List.getElem?_set_ne same, there]
        exact .inl (.telling (List.mem_of_getElem? still) later)

theorem isRequest_message {args : Args} : (args.message ref).isRequest = true := by
  cases args <;> rfl

/-- The message of an RPC comes into the mailbox at once. -/
theorem carried_ask (sane : w.Sane) (there : r ∈ w.running) (request : m.isRequest = true)
    (net : w'.net = w.net.tell r.address r m) (running : w'.running = w.running)
    (timers : w'.timers = w.timers) (servers : w'.servers = w.servers) (puts : w'.puts = w.puts) :
    Carried w none w' := by
  have here := sane.here there
  have told : Net.Told w.net r m (w.net.tell r.address r m) := Net.told_tell sane.reliable here
  constructor
  · exact net ▸ told.reliable
  · exact net ▸ told.box
  · exact fun r => by rw [World.actor, running, World.actor]
  · exact puts
  · intro x
    rcases told.queue x with same | ⟨rfl, after⟩
    · exact ⟨[], by rw [net, same, List.append_nil], by simp⟩
    · refine ⟨[m], net ▸ after, ?_⟩
      intro y member
      cases List.mem_singleton.mp member
      exact .inr (.inr request)
  · rintro x y ⟨⟩
  · exact fun waiting => .inl (Net.waiting_tell here (net ▸ waiting))
  · rintro x y (⟨found, member, letter⟩ | member | ⟨here, member⟩)
    · exact .sending (running ▸ found) member letter
    · exact .sleeping (timers ▸ member)
    · exact .telling (servers ▸ here) member
  · rintro x y _ (waiting | ⟨found, member, letter⟩ | member | ⟨here, member⟩)
    · exact .inr (.inl (net ▸ told.more waiting))
    · exact .inr (.inr (.sending (running ▸ found) member letter))
    · exact .inr (.inr (.sleeping (timers ▸ member)))
    · exact .inr (.inr (.telling (servers ▸ here) member))

/-! ### A message is handled -/

structure Handled (w : World) (r : ActorRef) (now : Nat) (a : QueryActor) (m : Msg)
    (w' : World) : Prop where
  idle : w.running.lookup r = some ⟨a, []⟩
  popped : w.net.pop r = some (m, w'.net)
  running : ∀ x, w'.running.lookup x =
    if x = r then some ⟨(a.react now m).1, (a.react now m).2⟩ else w.running.lookup x
  puts : w'.puts = w.puts ++ m.put now
  timers : w'.timers = w.timers
  servers : w'.servers = w.servers
  calls : w'.calls = w.calls
  entered : w'.entered = w.entered

theorem handle_spec (handled : handle w r now = some w') : ∃ a m, Handled w r now a m w' := by
  unfold handle at handled
  split at handled
  · rename_i a idle
    split at handled
    · cases handled
    · rename_i m n popped
      refine ⟨a, m, ?_⟩
      split at handled
      · rename_i b sends result
        cases handled
        refine ⟨idle, popped, ?_, rfl, rfl, rfl, rfl, rfl⟩
        intro x
        rw [Map.lookup_insert, QueryActor.react, result]
      · rename_i result
        cases handled
        refine ⟨idle, popped, ?_, ?_, rfl, rfl, rfl, rfl⟩
        · intro x
          rw [QueryActor.react, result]
          split
          · rename_i same
            rw [same, idle]
          · rfl
        · -- OnMessage fails on replies only
          cases m <;> first | exact (List.append_nil _).symm | cases result
  · cases handled

namespace Handled

variable (handled : Handled w r now a m w')
include handled

theorem next : w.net.queue r = m :: w'.net.queue r := (Net.popped_queue handled.popped).1

theorem queue (other : x ≠ r) : w'.net.queue x = w.net.queue x :=
  (Net.popped_queue handled.popped).2.1 x other

theorem waiting : w'.net.Waiting x y ↔ w.net.Waiting x y :=
  (Net.popped_queue handled.popped).2.2.1

theorem box : w'.net.box x = none ↔ w.net.box x = none :=
  (Net.popped_queue handled.popped).2.2.2 x

theorem before : w.actor r = some a := actor_some.mpr ⟨_, handled.idle⟩

theorem actor : w'.actor x = if x = r then some (a.react now m).1 else w.actor x := by
  rw [World.actor, handled.running]
  split <;> rfl

theorem member : x ∈ w'.running ↔ x ∈ w.running := by
  rw [← AList.lookup_isSome, ← AList.lookup_isSome, handled.running]
  split
  · rename_i same
    rw [same, handled.idle]
    rfl
  · rfl

theorem pending : w'.Pending x y ↔
    w.Pending x y ∨ ∃ s ∈ (a.react now m).2, s.letter = (x, y) := by
  constructor
  · rintro (⟨found, member, letter⟩ | member | ⟨here, member⟩)
    · rw [handled.running] at found
      split at found
      · cases found
        exact .inr ⟨_, member, letter⟩
      · exact .inl (.sending found member letter)
    · exact .inl (.sleeping (handled.timers ▸ member))
    · exact .inl (.telling (handled.servers ▸ here) member)
  · rintro ((@⟨src, _, _, found, member, letter⟩ | member | ⟨here, member⟩) | ⟨s, member, letter⟩)
    · have other : src ≠ r := by
        rintro rfl
        cases handled.idle.symm.trans found
        cases member
      exact .sending (by rw [handled.running, if_neg other, found]) member letter
    · exact .sleeping (handled.timers ▸ member)
    · exact .telling (handled.servers ▸ here) member
    · exact .sending (by rw [handled.running, if_pos rfl]) member letter

theorem outside : w'.Outside x y ↔
    w.Outside x y ∨ ∃ s ∈ (a.react now m).2, s.letter = (x, y) := by
  rw [Outside, Outside, handled.waiting, handled.pending, or_assoc]

theorem coming (coming : w'.Coming x y) :
    w.Coming x y ∨ ∃ s ∈ (a.react now m).2, s.letter = (x, y) := by
  rcases coming with queued | outside
  · refine .inl (.inl ?_)
    by_cases same : x = r
    · rw [same, handled.next]
      exact List.mem_cons_of_mem _ (same ▸ queued)
    · exact handled.queue same ▸ queued
  · exact (handled.outside.mp outside).imp_left .inr

theorem kept (coming : w.Coming x y) : w'.Coming x y ∨ x = r ∧ y = m := by
  rcases coming with queued | outside
  · by_cases same : x = r
    · subst same
      rw [handled.next] at queued
      rcases List.mem_cons.mp queued with first | later
      · exact .inr ⟨rfl, first⟩
      · exact .inl (.inl later)
    · exact .inl (.inl (by rw [handled.queue same]; exact queued))
  · exact .inl (.inr (handled.outside.mpr (.inl outside)))

end Handled

/-! ### A server is started -/

end World

/-- New references of a system, with empty mailboxes. -/
structure Staffed (n : Net Msg) (address : String) (refs : List ActorRef) (n' : Net Msg) :
    Prop where
  reliable : n'.Reliable
  nodup : refs.Nodup
  address : ∀ r ∈ refs, r.address = address
  fresh : ∀ r ∈ refs, n.box r = none
  boxes : ∀ r ∈ refs, n'.box r ≠ none
  others : ∀ r, r ∉ refs → n'.box r = n.box r
  queue : ∀ r, n'.queue r = n.queue r
  waiting : ∀ {r m}, n'.Waiting r m ↔ n.Waiting r m
  respCh : n'.respCh = n.respCh

theorem startActors_spec {n n' : Net Msg} {address : String} {count : Nat} {refs : List ActorRef}
    (reliable : n.Reliable) (started : startActors count n address = some (refs, n')) :
    Staffed n address refs n' ∧ refs.length = count := by
  induction count generalizing n refs with
  | zero =>
    cases started
    exact ⟨⟨reliable, List.nodup_nil, by simp, by simp, by simp, fun _ _ => rfl, fun _ => rfl,
      Iff.rfl, rfl⟩, rfl⟩
  | succ count ih =>
    simp only [startActors] at started
    split at started
    · cases started
    · rename_i ref n₁ first
      obtain ⟨⟨rest, n₂⟩, later, same⟩ := Option.map_eq_some_iff.mp started
      cases same
      rcases Net.startActor_spec first with ⟨_, closed⟩ | new
      · cases (reliable.up address).symm.trans closed
      obtain ⟨reliable₁, queue, waiting, own, others⟩ :=
        Net.issued_reliable reliable new (.inl rfl)
      obtain ⟨staffed, length⟩ := ih reliable₁ later
      have here : n₁.box ref ≠ none := by
        have some := Net.box_mailbox.mpr ((new.info ref).trans (if_pos rfl))
        simp [some]
      -- the later references are new after this one
      have late : ref ∉ rest := fun member => here (staffed.fresh ref member)
      refine ⟨?_, by rw [List.length_cons, length]⟩
      constructor
      · exact staffed.reliable
      · exact List.nodup_cons.mpr ⟨late, staffed.nodup⟩
      · intro r member
        rcases List.mem_cons.mp member with rfl | member
        · exact new.address
        · exact staffed.address r member
      · intro r member
        rcases List.mem_cons.mp member with rfl | member
        · exact own
        · have other : r ≠ ref := fun same => late (same ▸ member)
          rw [← others r other]
          exact staffed.fresh r member
      · intro r member
        rcases List.mem_cons.mp member with rfl | member
        · rw [staffed.others r late]
          exact here
        · exact staffed.boxes r member
      · intro r absent
        rw [List.mem_cons, not_or] at absent
        rw [staffed.others r absent.2, others r absent.1]
      · exact fun r => (staffed.queue r).trans (queue r)
      · exact staffed.waiting.trans waiting
      · exact staffed.respCh.trans new.respCh

theorem lookup_hire {running : Map ActorRef Running} {refs : List ActorRef} :
    (hire running refs).lookup x =
      if x ∈ refs then some ⟨newQueryActor x, []⟩ else running.lookup x := by
  unfold hire
  induction refs generalizing running with
  | nil => rfl
  | cons ref rest ih =>
    rw [List.foldl_cons, ih, Map.lookup_insert]
    by_cases later : x ∈ rest
    · rw [if_pos later, if_pos (List.mem_cons_of_mem _ later)]
    · rw [if_neg later]
      by_cases same : x = ref
      · rw [if_pos same, if_pos (same ▸ List.mem_cons_self), same]
      · rw [if_neg same, if_neg (by rw [List.mem_cons, not_or]; exact ⟨same, later⟩)]

namespace World

structure Hired (w : World) (server : Server) (w' : World) : Prop where
  reliable : w'.net.Reliable
  nodup : server.actorList.Nodup
  rep : server.actorRep ∈ server.actorList
  address : ∀ r ∈ server.actorList, r.address = server.address
  unused : server.address ∉ w.net.systems
  boxes : ∀ r ∈ server.actorList, w'.net.box r ≠ none
  others : ∀ r, r ∉ server.actorList → w'.net.box r = w.net.box r
  queue : ∀ r, w'.net.queue r = w.net.queue r
  waiting : ∀ {r m}, w'.net.Waiting r m ↔ w.net.Waiting r m
  respCh : w'.net.respCh = w.net.respCh
  running : ∀ x, w'.running.lookup x =
    if x ∈ server.actorList then some ⟨newQueryActor x, []⟩ else w.running.lookup x
  servers : w'.servers = w.servers ++ [server]
  tells : server.tells = introductions server.actorRep server.actorList server.remoteServers
  returned : ∀ ref ∈ server.remoteServers, ∃ other ∈ w.servers, other.actorRep = ref ∧
    other.tells = []
  puts : w'.puts = w.puts
  timers : w'.timers = w.timers
  calls : w'.calls = w.calls
  entered : w'.entered = w.entered

theorem newServer_spec {address : String} {count : Nat} {remoteServers : List ActorRef}
    (reliable : w.net.Reliable) (started : newServer w address count remoteServers = some w') :
    ∃ server, Hired w server w' ∧ server.address = address ∧
      server.remoteServers = remoteServers ∧ server.actorList.length = count := by
  obtain ⟨n, actorRep, others, n', created, staff, returned, rfl⟩ := newServer_cases started
  have hop := Net.hop_newActorSystem reliable created
  have missing := (Net.newActorSystem_spec created).1
  have still : ∀ r, n.box r = w.net.box r := fun r =>
    Net.box_congr (congrFun (Net.newActorSystem_spec created).2.2.1 r)
  obtain ⟨staffed, length⟩ := startActors_spec hop.reliable staff
  refine ⟨⟨address, actorRep, actorRep :: others, remoteServers,
    introductions actorRep (actorRep :: others) remoteServers⟩, ?_, rfl, rfl, length⟩
  constructor
  · exact staffed.reliable
  · exact staffed.nodup
  · exact List.mem_cons_self
  · exact staffed.address
  · intro present
    obtain ⟨system, found⟩ := Map.lookup_of_mem present
    have next := Net.next_of found
    rw [missing] at next
    cases next
  · exact staffed.boxes
  · exact fun r absent => (staffed.others r absent).trans (still r)
  · exact fun r => (staffed.queue r).trans (Net.queue_congr (still r))
  · intro r m
    refine staffed.waiting.trans ⟨hop.less, ?_⟩
    rintro ⟨src, wait⟩
    refine ⟨src, ?_⟩
    obtain ⟨_, _, _, _, outgoing, conns, _⟩ := Net.newActorSystem_spec created
    rw [Net.Waits, outgoing, conns]
    exact wait
  · exact staffed.respCh.trans (Net.newActorSystem_spec created).2.2.2.1
  · exact fun x => lookup_hire
  · rfl
  · rfl
  · intro ref member
    obtain ⟨other, here, rep, done⟩ := returned ref member
    exact ⟨other, here, rep, List.isEmpty_iff.mp done⟩
  · rfl
  · rfl
  · rfl
  · rfl

namespace Hired

variable {server : Server} (hired : Hired w server w')
include hired

theorem actor : w'.actor x = if x ∈ server.actorList then some (newQueryActor x)
    else w.actor x := by
  rw [World.actor, hired.running]
  split <;> rfl

theorem new (sane : w.Sane) (member : x ∈ server.actorList) : x ∉ w.running := by
  intro running
  have here := sane.here running
  rw [hired.address x member] at here
  exact hired.unused here

theorem member : x ∈ w'.running ↔ x ∈ w.running ∨ x ∈ server.actorList := by
  rw [← AList.lookup_isSome, ← AList.lookup_isSome, hired.running]
  split
  · rename_i member
    simp [member]
  · rename_i absent
    simp [absent]

theorem pending (sane : w.Sane) : w'.Pending x y ↔ w.Pending x y ∨ (x, y) ∈ server.tells := by
  constructor
  · rintro (⟨found, member, letter⟩ | member | ⟨here, member⟩)
    · rw [hired.running] at found
      split at found
      · cases found
        cases member
      · exact .inl (.sending found member letter)
    · exact .inl (.sleeping (hired.timers ▸ member))
    · rw [hired.servers] at here
      rcases List.mem_append.mp here with old | new
      · exact .inl (.telling old member)
      · cases List.mem_singleton.mp new
        exact .inr member
  · rintro ((@⟨src, _, _, found, member, letter⟩ | member | ⟨here, member⟩) | member)
    · have other : src ∉ server.actorList := fun new =>
        hired.new sane new (Map.mem_of_lookup found)
      exact .sending (by rw [hired.running, if_neg other, found]) member letter
    · exact .sleeping (hired.timers ▸ member)
    · refine .telling ?_ member
      rw [hired.servers]
      exact List.mem_append_left _ here
    · refine .telling ?_ member
      rw [hired.servers]
      exact List.mem_append_right _ List.mem_cons_self

theorem outside (sane : w.Sane) : w'.Outside x y ↔ w.Outside x y ∨ (x, y) ∈ server.tells := by
  rw [Outside, Outside, hired.waiting, hired.pending sane, or_assoc]

theorem coming (sane : w.Sane) : w'.Coming x y ↔ w.Coming x y ∨ (x, y) ∈ server.tells := by
  rw [Coming, Coming, hired.queue, hired.outside sane, or_assoc]

end Hired

end World

end DistSys.Kv
