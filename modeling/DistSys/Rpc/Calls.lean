import DistSys.Rpc.Network
import DistSys.Lib.Simulation

/-! What becomes of a call: its handler runs at most once, and a reply that comes back is the one that
this run has given. -/
namespace DistSys.Rpc

open DistSys.Lib

variable {Name Rcvr Args Reply : Type} [DecidableEq Name] {rn rn' : Network Name Rcvr Args Reply}
  {a : Action Name Rcvr Args Reply} {call call' : Call Name Rcvr Args Reply} {turn : Turn Reply}

/-! ### What a step can do -/

/-- One turn of the goroutines of a call. -/
inductive Turned (rn : Network Name Rcvr Args Reply) (call : Call Name Rcvr Args Reply) :
    Turn Reply → Call Name Rcvr Args Reply → Prop
  | accept (here : call.pc = .sending) : Turned rn call .accept { call with pc := .started }
  | route {route} (here : call.pc = .started)
      (found : rn.readEndnameInfo call.req.endname = some route) :
      Turned rn call .route { call with pc := .sleeping route }
  | unreachable (here : call.pc = .started)
      (missing : rn.readEndnameInfo call.req.endname = none) :
      Turned rn call .route { call with pc := .answering none }
  | drop {route} (here : call.pc = .sleeping route) (unreliable : route.reliable = false) :
      Turned rn call .drop { call with pc := .answering none }
  | forward {route} (here : call.pc = .sleeping route) : Turned rn call .forward
      { call with pc := .waiting route, handler := .dispatching route.server }
  | invoke {rcvr method} {reply : Reply} (runs : call.handler = .running rcvr method) :
      Turned rn call (.invoke reply) { call with handler := .replying reply }
  | collect {route reply} (here : call.pc = .waiting route) (there : call.handler = .replying reply) :
      Turned rn call .collect
        { call with pc := .checking route (some reply), handler := .ended reply }
  | giveUp {route} (here : call.pc = .waiting route)
      (dead : rn.isServerDead call.req.endname route.servername route.server = true) :
      Turned rn call .timeout { call with pc := .checking route none }
  | wait {route} (here : call.pc = .waiting route) : Turned rn call .timeout call
  | lose {route reply lost} (here : call.pc = .checking route reply)
      (why : rn.isServerDead call.req.endname route.servername route.server = true ∨
        route.reliable = false) :
      Turned rn call (.check lost) { call with pc := .answering none }
  | pass {route reply lost} (here : call.pc = .checking route reply)
      (lives : rn.isServerDead call.req.endname route.servername route.server = false) :
      Turned rn call (.check lost) { call with pc := .answering reply }
  | reply {reply} (here : call.pc = .answering reply) :
      Turned rn call .reply { call with pc := .returned reply }

theorem turn_cases (turned : call.turn rn turn = some call') : Turned rn call turn call' := by
  cases turn with
  | accept =>
    simp only [Call.turn] at turned
    split at turned
    · rename_i here
      cases Option.some.inj turned
      exact .accept here
    · contradiction
  | route =>
    simp only [Call.turn] at turned
    split at turned
    · rename_i here
      split at turned
      · rename_i route found
        cases Option.some.inj turned
        exact .route here found
      · rename_i missing
        cases Option.some.inj turned
        exact .unreachable here missing
    · contradiction
  | drop =>
    simp only [Call.turn] at turned
    split at turned
    · rename_i route here
      split at turned
      · contradiction
      · rename_i unreliable
        cases Option.some.inj turned
        exact .drop here (Bool.eq_false_iff.mpr unreliable)
    · contradiction
  | forward =>
    simp only [Call.turn] at turned
    split at turned
    · rename_i route here
      cases Option.some.inj turned
      exact .forward here
    · contradiction
  | invoke reply =>
    simp only [Call.turn] at turned
    split at turned
    · rename_i rcvr method runs
      cases Option.some.inj turned
      exact .invoke runs
    · contradiction
  | collect =>
    simp only [Call.turn] at turned
    split at turned
    · rename_i route reply here there
      cases Option.some.inj turned
      exact .collect here there
    · contradiction
  | timeout =>
    simp only [Call.turn] at turned
    split at turned
    · rename_i route here
      split at turned
      · rename_i dead
        cases Option.some.inj turned
        exact .giveUp here dead
      · cases Option.some.inj turned
        exact .wait here
    · contradiction
  | check lost =>
    simp only [Call.turn] at turned
    split at turned
    · rename_i route reply here
      split at turned
      · rename_i dead
        cases Option.some.inj turned
        exact .lose here (.inl dead)
      · rename_i lives
        split at turned
        · rename_i drawn
          cases Option.some.inj turned
          exact .lose here (.inr drawn.1)
        · cases Option.some.inj turned
          exact .pass here (Bool.eq_false_iff.mpr lives)
    · contradiction
  | reply =>
    simp only [Call.turn] at turned
    split at turned
    · rename_i reply here
      cases Option.some.inj turned
      exact .reply here
    · contradiction

inductive Move (rn : Network Name Rcvr Args Reply) :
    Action Name Rcvr Args Reply → Network Name Rcvr Args Reply → Prop
  | reliable {yes} : Move rn (.reliable yes) { rn with reliable := yes }
  | duplicate {endname} (there : endname ∈ rn.ends) : Move rn (.makeEnd endname) rn.crash
  | makeEnd {endname} (new : endname ∉ rn.ends) : Move rn (.makeEnd endname) { rn with
      ends := endname :: rn.ends
      enabled := rn.enabled.insert endname false
      connections := rn.connections.insert endname none }
  | makeServer : Move rn .makeServer { rn with objects := rn.objects ++ [makeServer] }
  | addService {server svc rs} (there : rn.objects[server]? = some rs) :
      Move rn (.addService server svc)
        { rn with objects := rn.objects.set server (rs.addService svc) }
  | addServer {servername server} (there : server < rn.objects.length) :
      Move rn (.addServer servername server)
        { rn with servers := rn.servers.insert servername (some server) }
  | deleteServer {servername} : Move rn (.deleteServer servername)
      { rn with servers := rn.servers.insert servername none }
  | connect {endname servername} : Move rn (.connect endname servername)
      { rn with connections := rn.connections.insert endname (some servername) }
  | enable {endname enabled} : Move rn (.enable endname enabled)
      { rn with enabled := rn.enabled.insert endname enabled }
  | call {req} : Move rn (.call req)
      { rn with calls := rn.calls ++ [⟨req, .sending, .unstarted⟩] }
  | turn {c call call' turn} (there : rn.calls[c]? = some call) (turned : Turned rn call turn call') :
      Move rn (.turn c turn) { rn with calls := rn.calls.set c call' }
  | dispatch {c call server rs} (there : rn.calls[c]? = some call)
      (here : call.handler = .dispatching server) (object : rn.objects[server]? = some rs) :
      Move rn (.dispatch c) (rn.dispatch c call server rs)

theorem step_cases (taken : step rn a = some rn') : rn.crashed = false ∧ Move rn a rn' := by
  unfold step at taken
  split at taken
  · contradiction
  · rename_i lives
    refine ⟨Bool.eq_false_iff.mpr lives, ?_⟩
    cases a with
    | reliable yes =>
      cases Option.some.inj taken
      exact .reliable
    | makeEnd endname =>
      dsimp only at taken
      split at taken
      · rename_i there
        cases Option.some.inj taken
        exact .duplicate there
      · rename_i new
        cases Option.some.inj taken
        exact .makeEnd new
    | makeServer =>
      cases Option.some.inj taken
      exact .makeServer
    | addService server svc =>
      dsimp only at taken
      split at taken
      · contradiction
      · rename_i rs there
        cases Option.some.inj taken
        exact .addService there
    | addServer servername server =>
      dsimp only at taken
      split at taken
      · rename_i there
        cases Option.some.inj taken
        exact .addServer there
      · contradiction
    | deleteServer servername =>
      cases Option.some.inj taken
      exact .deleteServer
    | connect endname servername =>
      cases Option.some.inj taken
      exact .connect
    | enable endname enabled =>
      cases Option.some.inj taken
      exact .enable
    | call req =>
      cases Option.some.inj taken
      exact .call
    | turn c turn =>
      dsimp only at taken
      split at taken
      · contradiction
      · rename_i call there
        split at taken
        · contradiction
        · rename_i call' turned
          cases Option.some.inj taken
          exact .turn there (turn_cases turned)
    | dispatch c =>
      dsimp only at taken
      split at taken
      · contradiction
      · rename_i call there
        split at taken
        · rename_i server here
          split at taken
          · contradiction
          · rename_i rs object
            cases Option.some.inj taken
            exact .dispatch there here object
        · contradiction

/-! ### The two goroutines of a call -/

def ReqPc.route : ReqPc Name Reply → Option (Route Name)
  | .sleeping route | .waiting route | .checking route _ => some route
  | _ => none

/-- The answer, from the moment on that `ProcessReq` has made its last look at the server: it may still
be on its way to `replyCh` when `Call` has not returned. -/
def ReqPc.answer : ReqPc Name Reply → Option (Option Reply)
  | .answering reply | .returned reply => some reply
  | _ => none

/-- The locked section of `dispatch` has run. -/
def HandlerPc.begun : HandlerPc Rcvr Reply → Bool
  | .unstarted | .dispatching _ => false
  | .fatal | .running _ _ | .replying _ | .ended _ => true

def HandlerPc.result : HandlerPc Rcvr Reply → Option Reply
  | .replying reply | .ended reply => some reply
  | _ => none

/-- The goroutine is there. -/
def HandlerPc.active : HandlerPc Rcvr Reply → Bool
  | .unstarted | .ended _ => false
  | .dispatching _ | .fatal | .running _ _ | .replying _ => true

/-- How far the handler is, by how far `ProcessReq` is. -/
def Fits (pc : ReqPc Name Reply) (handler : HandlerPc Rcvr Reply) : Prop :=
  match pc with
  | .sending | .started | .sleeping _ => handler = .unstarted
  | .waiting _ | .checking _ none => handler.active = true
  | .checking _ (some reply) | .answering (some reply) | .returned (some reply) =>
    handler = .ended reply
  | .answering none | .returned none => True

structure Sane (call : Call Name Rcvr Args Reply) : Prop where
  fits : Fits call.pc call.handler
  /-- a handler that is about to begin does so where the request was routed to -/
  server : ∀ server route, call.handler = .dispatching server → call.pc.route = some route →
    route.server = server

theorem Sane.turned (sane : Sane call) (turned : Turned rn call turn call') : Sane call' := by
  obtain ⟨fits, server⟩ := sane
  cases turned with
  | accept here =>
    simp only [Fits, here] at fits
    exact ⟨fits, by simp [fits]⟩
  | route here | unreachable here =>
    simp only [Fits, here] at fits
    exact ⟨by simp [Fits, fits], by simp [fits]⟩
  | drop here =>
    simp only [Fits, here] at fits
    exact ⟨trivial, by simp [fits]⟩
  | forward here =>
    refine ⟨rfl, ?_⟩
    rintro server route' begins routed
    cases begins
    cases routed
    rfl
  | invoke runs =>
    refine ⟨?_, by simp⟩
    simp only [Fits] at fits ⊢
    split at fits <;> simp_all [HandlerPc.active]
  | collect here there => exact ⟨rfl, by simp⟩
  | giveUp here dead =>
    simp only [Fits, here] at fits
    refine ⟨fits, ?_⟩
    intro o route' begins routed
    cases routed
    exact server o _ begins (by simp [here, ReqPc.route])
  | wait here => exact ⟨fits, server⟩
  | lose here why => exact ⟨trivial, by simp [ReqPc.route]⟩
  | @pass route reply lost here lives =>
    refine ⟨?_, by simp [ReqPc.route]⟩
    simp only [Fits, here] at fits ⊢
    cases reply with
    | none => trivial
    | some reply => exact fits
  | @reply reply here =>
    refine ⟨?_, by simp [ReqPc.route]⟩
    simp only [Fits, here] at fits ⊢
    cases reply with
    | none => trivial
    | some reply => exact fits

omit [DecidableEq Name] in
theorem dispatch_frame (rn : Network Name Rcvr Args Reply) (c : Nat)
    (call : Call Name Rcvr Args Reply) (server : Nat) (rs : Server Rcvr) :
    ∃ handler : HandlerPc Rcvr Reply,
      (handler.begun = true ∧ handler.active = true ∧ handler.result = none ∧
        ∀ rcvr method, handler = .running rcvr method →
          rs.find call.req.svcMeth = some (rcvr, method)) ∧
      (rn.dispatch c call server rs).calls = rn.calls.set c { call with handler := handler } ∧
      (rn.dispatch c call server rs).objects =
        rn.objects.set server { rs with count := rs.count + 1 } := by
  unfold Network.dispatch
  cases found : rs.find call.req.svcMeth with
  | none => exact ⟨.fatal, ⟨rfl, rfl, rfl, nofun⟩, rfl, rfl⟩
  | some target =>
    refine ⟨.running target.1 target.2, ⟨rfl, rfl, rfl, ?_⟩, rfl, rfl⟩
    rintro rcvr method ⟨⟩
    rfl

omit [DecidableEq Name] in
theorem Sane.dispatch {server : Nat} {handler : HandlerPc Rcvr Reply} (sane : Sane call)
    (here : call.handler = .dispatching server) (begun : handler.begun = true)
    (active : handler.active = true) : Sane { call with handler := handler } := by
  refine ⟨?_, ?_⟩
  · have fits := sane.fits
    simp only [Fits, here] at fits ⊢
    split at fits <;> simp_all
  · rintro o route begins _
    rw [show handler = .dispatching o from begins] at begun
    cases begun

/-! ### One call after a step -/

theorem getElem?_set_of {α : Type} {xs : List α} {i : Nat} {x : α} (there : xs[i]? = some x) (y : α)
    (j : Nat) : (xs.set i y)[j]? = if j = i then some y else xs[j]? := by
  obtain ⟨inside, -⟩ := List.getElem?_eq_some_iff.mp there
  rw [List.getElem?_set]
  by_cases same : i = j
  · simp [same, same ▸ inside]
  · simp [same, Ne.symm same]

/-- What the call at a position is after a step: what it was, a new one, or what its own turn or the
start of its handler has made of it. -/
inductive Becomes (rn : Network Name Rcvr Args Reply) (a : Action Name Rcvr Args Reply) (c : Nat) :
    Call Name Rcvr Args Reply → Prop
  | kept {old} (there : rn.calls[c]? = some old) (noTurn : ∀ turn, a ≠ .turn c turn)
      (noDispatch : a ≠ .dispatch c) : Becomes rn a c old
  | added {req} (fresh : rn.calls[c]? = none) (made : a = .call req) :
      Becomes rn a c ⟨req, .sending, .unstarted⟩
  | turned {old new t} (there : rn.calls[c]? = some old) (taken : a = .turn c t)
      (turned : Turned rn old t new) : Becomes rn a c new
  | dispatched {old server handler} (there : rn.calls[c]? = some old) (taken : a = .dispatch c)
      (here : old.handler = .dispatching server) (begun : handler.begun = true)
      (active : handler.active = true) (noResult : handler.result = none)
      (target : ∀ rcvr method, handler = .running rcvr method → ∃ rs,
        rn.objects[server]? = some rs ∧ rs.find old.req.svcMeth = some (rcvr, method)) :
      Becomes rn a c { old with handler := handler }

theorem Move.becomes (moves : Move rn a rn') {c : Nat} (after : rn'.calls[c]? = some call') :
    Becomes rn a c call' := by
  cases moves with
  | reliable | duplicate | makeEnd | makeServer | addService | addServer | deleteServer | connect
  | enable => exact .kept after nofun nofun
  | @call req =>
    rw [List.getElem?_append] at after
    split at after
    · exact .kept after nofun nofun
    · rename_i outside
      have last : c = rn.calls.length := by
        have bound := (List.getElem?_eq_some_iff.mp after).1
        simp only [List.length_singleton] at bound
        omega
      subst last
      cases Option.some.inj (by simpa using after)
      exact .added (by simp) rfl
  | @turn d call call'' turn there turned =>
    rw [getElem?_set_of there] at after
    split at after
    · rename_i same
      cases Option.some.inj after
      exact .turned (same ▸ there) (by rw [same]) turned
    · rename_i other
      refine .kept after ?_ nofun
      rintro turn' ⟨⟩
      exact other rfl
  | @dispatch d call server rs there here object =>
    obtain ⟨handler, ⟨begun, active, noResult, target⟩, calls, -⟩ :=
      dispatch_frame rn d call server rs
    rw [calls, getElem?_set_of there] at after
    split at after
    · rename_i same
      cases Option.some.inj after
      exact .dispatched (same ▸ there) (by rw [same]) here begun active noResult
        fun rcvr method runs => ⟨rs, object, target rcvr method runs⟩
    · rename_i other
      refine .kept after nofun ?_
      rintro ⟨⟩
      exact other rfl

theorem Move.length (moves : Move rn a rn') (noCall : ∀ req, a ≠ .call req) :
    rn'.calls.length = rn.calls.length := by
  cases moves with
  | @call req => exact absurd rfl (noCall req)
  | dispatch =>
    obtain ⟨handler, -, calls, -⟩ := dispatch_frame rn _ _ _ _
    rw [calls, List.length_set]
  | _ => simp [Network.crash]

/-- No call is forgotten. -/
theorem Move.persists (moves : Move rn a rn') {c : Nat} (there : rn.calls[c]? = some call) :
    ∃ call', rn'.calls[c]? = some call' := by
  have longer : rn.calls.length ≤ rn'.calls.length := by
    by_cases new : ∃ req, a = .call req
    · obtain ⟨req, rfl⟩ := new
      cases moves
      simp
    · exact Nat.le_of_eq (moves.length (not_exists.mp new)).symm
  obtain ⟨inside, -⟩ := List.getElem?_eq_some_iff.mp there
  exact ⟨_, List.getElem?_eq_getElem (Nat.lt_of_lt_of_le inside longer)⟩

theorem Becomes.sane {c : Nat} (becomes : Becomes rn a c call')
    (before : ∀ call, rn.calls[c]? = some call → Sane call) : Sane call' := by
  cases becomes with
  | kept there => exact before _ there
  | added => exact ⟨rfl, nofun⟩
  | turned there _ turned => exact (before _ there).turned turned
  | dispatched there _ here begun active => exact (before _ there).dispatch here begun active

/-! ### Handlers that have begun -/

/-- The call and the server of a request whose handler begins. -/
def dispatched (rn : Network Name Rcvr Args Reply) :
    Action Name Rcvr Args Reply → Network Name Rcvr Args Reply → List (Nat × Nat)
  | .dispatch c, _ => match (rn.calls[c]?).map Call.handler with
    | some (.dispatching server) => [(c, server)]
    | _ => []
  | _, _ => []

omit [DecidableEq Name] in
theorem mem_dispatched {c server : Nat} : (c, server) ∈ dispatched rn a rn' ↔
    a = .dispatch c ∧ ∃ call, rn.calls[c]? = some call ∧ call.handler = .dispatching server := by
  unfold dispatched
  split
  · rename_i d
    split
    · rename_i server' there
      obtain ⟨call, found, here⟩ := Option.map_eq_some_iff.mp there
      simp only [List.mem_singleton, Prod.mk.injEq, Action.dispatch.injEq]
      constructor
      · rintro ⟨rfl, rfl⟩
        exact ⟨rfl, call, found, here⟩
      · rintro ⟨rfl, call', found', here'⟩
        cases Option.some.inj (found.symm.trans found')
        cases here.symm.trans here'
        exact ⟨rfl, rfl⟩
    · rename_i other
      constructor
      · intro member
        cases member
      · rintro ⟨same, call, found, here⟩
        cases same
        exact absurd (by simp [found, here]) (other server)
  · rename_i other
    constructor
    · intro member
      cases member
    · rintro ⟨rfl, -⟩
      exact absurd rfl (other c)

theorem Turned.begun (turned : Turned rn call turn call') (sane : Sane call) :
    call'.handler.begun = call.handler.begun := by
  cases turned with
  | forward here =>
    have fits := sane.fits
    simp only [Fits, here] at fits
    rw [fits]
    rfl
  | invoke runs =>
    rw [runs]
    rfl
  | collect _ there =>
    rw [there]
    rfl
  | _ => rfl

theorem Turned.route_of {route : Route Name} (turned : Turned rn call turn call') (sane : Sane call)
    (routed : call'.pc.route = some route) :
    call.pc.route = some route ∨ call.handler.begun = false := by
  have fits := sane.fits
  cases turned with
  | route here =>
    simp only [Fits, here] at fits
    exact .inr (by rw [fits]; rfl)
  | forward here | collect here | giveUp here =>
    cases routed
    exact .inl (by rw [here]; rfl)
  | invoke | wait => exact .inl routed
  | accept | unreachable | drop | lose | pass | reply => cases routed

/-- The calls whose handler has begun, and how often each server has been entered. -/
structure Begun (rn : Network Name Rcvr Args Reply) (began : List (Nat × Nat)) : Prop where
  sane : ∀ (c : Nat) call, rn.calls[c]? = some call → Sane call
  begun : ∀ c, c ∈ began.map Prod.fst ↔
    ∃ call, rn.calls[c]? = some call ∧ call.handler.begun = true
  once : (began.map Prod.fst).Nodup
  routed : ∀ c server call route, (c, server) ∈ began → rn.calls[c]? = some call →
    call.pc.route = some route → route.server = server
  known : ∀ c server, (c, server) ∈ began → server < rn.objects.length
  counts : ∀ server rs, rn.objects[server]? = some rs →
    rs.count = began.countP fun entry => entry.2 = server

namespace Begun

variable {began : List (Nat × Nat)}

omit [DecidableEq Name] in
theorem start : Begun (makeNetwork : Network Name Rcvr Args Reply) [] := by
  constructor
  · intro c call there
    cases there
  · intro c
    constructor
    · intro member
      cases member
    · rintro ⟨call, there, -⟩
      cases there
  · exact List.nodup_nil
  · intro c server call route member
    cases member
  · intro c server member
    cases member
  · intro server rs there
    cases there

theorem other (held : Begun rn began) (moves : Move rn a rn') (quiet : ∀ c, a ≠ .dispatch c)
    (known : rn.objects.length ≤ rn'.objects.length)
    (counts : ∀ server rs, rn'.objects[server]? = some rs →
      rs.count = began.countP fun entry => entry.2 = server) : Begun rn' began := by
  constructor
  · intro c call' after
    exact (moves.becomes after).sane (held.sane c)
  · intro c
    rw [held.begun]
    constructor
    · rintro ⟨call, there, begun⟩
      obtain ⟨call', after⟩ := moves.persists there
      refine ⟨call', after, ?_⟩
      cases moves.becomes after with
      | kept there' =>
        cases Option.some.inj (there.symm.trans there')
        exact begun
      | added fresh => exact absurd there (by simp [fresh])
      | turned there' _ turned =>
        cases Option.some.inj (there.symm.trans there')
        rw [turned.begun (held.sane c _ there)]
        exact begun
      | dispatched _ taken => exact absurd taken (quiet c)
    · rintro ⟨call', after, begun⟩
      cases moves.becomes after with
      | kept there => exact ⟨_, there, begun⟩
      | added => cases begun
      | turned there _ turned => exact ⟨_, there, turned.begun (held.sane c _ there) ▸ begun⟩
      | dispatched _ taken => exact absurd taken (quiet c)
  · exact held.once
  · intro c server call' route member after routed
    have begun := (held.begun c).mp (List.mem_map_of_mem member)
    obtain ⟨call, there, begun⟩ := begun
    cases moves.becomes after with
    | kept there' => exact held.routed c server _ route member there' routed
    | added => cases routed
    | turned there' _ turned =>
      cases Option.some.inj (there.symm.trans there')
      rcases turned.route_of (held.sane c _ there) routed with old | unbegun
      · exact held.routed c server _ route member there old
      · exact absurd begun (by simp [unbegun])
    | dispatched _ taken => exact absurd taken (quiet c)
  · intro c server member
    exact Nat.lt_of_lt_of_le (held.known c server member) known
  · exact counts

omit [DecidableEq Name] in
theorem dispatch {c server : Nat} {rs : Server Rcvr} (held : Begun rn began)
    (there : rn.calls[c]? = some call) (here : call.handler = .dispatching server)
    (object : rn.objects[server]? = some rs) :
    Begun (rn.dispatch c call server rs) (began ++ [(c, server)]) := by
  obtain ⟨handler, ⟨begun, active, -⟩, calls, objects⟩ := dispatch_frame rn c call server rs
  have new : c ∉ began.map Prod.fst := by
    intro member
    obtain ⟨call', there', begun'⟩ := (held.begun c).mp member
    cases Option.some.inj (there.symm.trans there')
    rw [here] at begun'
    cases begun'
  have sane := held.sane c call there
  constructor
  · intro d call' after
    rw [calls, getElem?_set_of there] at after
    split at after
    · cases Option.some.inj after
      exact sane.dispatch here begun active
    · exact held.sane d call' after
  · intro d
    rw [calls, List.map_append, List.mem_append, held.begun d, getElem?_set_of there]
    by_cases same : d = c
    · subst same
      simp [begun]
    · simp [same]
  · rw [List.map_append]
    refine List.nodup_append.mpr ⟨held.once, List.nodup_singleton _, ?_⟩
    rintro d member e last rfl
    rw [List.mem_singleton.mp last] at member
    exact new member
  · intro d server' call' route member after routed
    rw [calls, getElem?_set_of there] at after
    rcases List.mem_append.mp member with old | last
    · split at after
      · rename_i same
        exact absurd (List.mem_map_of_mem old) (same ▸ new)
      · exact held.routed d server' call' route old after routed
    · cases List.mem_singleton.mp last
      rw [if_pos rfl] at after
      cases Option.some.inj after
      exact sane.server server route here routed
  · intro d server' member
    rw [objects, List.length_set]
    rcases List.mem_append.mp member with old | last
    · exact held.known d server' old
    · cases List.mem_singleton.mp last
      exact (List.getElem?_eq_some_iff.mp object).1
  · intro server' rs' after
    rw [objects, getElem?_set_of object] at after
    rw [List.countP_append, List.countP_singleton]
    split at after
    · rename_i same
      cases Option.some.inj after
      subst same
      simpa using held.counts server' rs object
    · rename_i other
      rw [held.counts server' rs' after]
      simp [Ne.symm other]

theorem step (held : Begun rn began) (moves : Move rn a rn') :
    Begun rn' (began ++ dispatched rn a rn') := by
  have other := held.other moves
  cases moves with
  | @dispatch c call server rs there here object =>
    have view : dispatched rn (.dispatch c) (rn.dispatch c call server rs) = [(c, server)] := by
      simp [dispatched, there, here]
    rw [view]
    exact held.dispatch there here object
  | makeServer =>
    rw [show dispatched rn .makeServer _ = [] from rfl, List.append_nil]
    refine other nofun (by simp) ?_
    intro server rs after
    rw [List.getElem?_append] at after
    split at after
    · exact held.counts server rs after
    · rename_i outside
      have last : rs = makeServer := by simpa using List.mem_of_getElem? after
      rw [last, eq_comm]
      apply List.countP_eq_zero.mpr
      rintro ⟨c, entered⟩ member
      have inside := held.known c entered member
      simp only [decide_eq_true_eq]
      omega
  | @addService server svc rs there =>
    rw [show dispatched rn (.addService server svc) _ = [] from rfl, List.append_nil]
    refine other nofun (by simp) ?_
    intro server' rs' after
    rw [getElem?_set_of there] at after
    split at after
    · rename_i same
      cases Option.some.inj after
      exact same ▸ held.counts server rs there
    · exact held.counts server' rs' after
  | reliable | duplicate | makeEnd | addServer | deleteServer | connect | enable | call | turn =>
    show Begun _ (began ++ [])
    rw [List.append_nil]
    exact other nofun (Nat.le_refl _) held.counts

end Begun

theorem begun_run {acts : List (Action Name Rcvr Args Reply)}
    (reached : run step makeNetwork acts = some rn) :
    Begun rn (noted step dispatched makeNetwork acts) :=
  noted_keeps Begun (fun _ _ _ _ held taken => held.step (step_cases taken).2) Begun.start acts reached

/-! ### Replies -/

/-- The call of a method that returns, with what it returns. -/
def finished (_ : Network Name Rcvr Args Reply) :
    Action Name Rcvr Args Reply → Network Name Rcvr Args Reply → List (Nat × Reply)
  | .turn c (.invoke reply), _ => [(c, reply)]
  | _, _ => []

structure Finished (rn : Network Name Rcvr Args Reply) (done : List (Nat × Reply)) : Prop where
  sane : ∀ (c : Nat) call, rn.calls[c]? = some call → Sane call
  result : ∀ c reply, (c, reply) ∈ done ↔
    ∃ call, rn.calls[c]? = some call ∧ call.handler.result = some reply
  once : (done.map Prod.fst).Nodup

omit [DecidableEq Name] in
theorem mem_finished {c : Nat} {reply : Reply} :
    (c, reply) ∈ finished rn a rn' ↔ a = .turn c (.invoke reply) := by
  unfold finished
  split
  · simp only [List.mem_singleton, Prod.mk.injEq, Action.turn.injEq, Turn.invoke.injEq]
    exact ⟨fun same => ⟨same.1.symm, same.2.symm⟩, fun same => ⟨same.1.symm, same.2.symm⟩⟩
  · rename_i other
    constructor
    · intro member
      cases member
    · intro same
      exact absurd same (other c reply)

theorem Turned.result (turned : Turned rn call turn call') (sane : Sane call) :
    call'.handler.result = match turn with
      | .invoke value => some value
      | _ => call.handler.result := by
  cases turned with
  | forward here =>
    have fits := sane.fits
    simp only [Fits, here] at fits
    rw [fits]
    rfl
  | collect _ there =>
    rw [there]
    rfl
  | _ => rfl

/-- A method that returns had not returned before. -/
theorem Turned.invoked {reply : Reply} (turned : Turned rn call (.invoke reply) call') :
    call.handler.result = none := by
  cases turned with
  | invoke runs =>
    rw [runs]
    rfl

/-- Only the return of the method gives a call its result. -/
theorem Becomes.result {c : Nat} (becomes : Becomes rn a c call') (there : rn.calls[c]? = some call)
    (sane : Sane call) (quiet : ∀ reply, a ≠ .turn c (.invoke reply)) :
    call'.handler.result = call.handler.result := by
  cases becomes with
  | kept there' =>
    cases Option.some.inj (there.symm.trans there')
    rfl
  | added fresh => exact absurd there (by simp [fresh])
  | @turned _ _ t there' taken turned =>
    cases Option.some.inj (there.symm.trans there')
    rw [turned.result sane]
    cases t with
    | invoke reply => exact absurd taken (quiet reply)
    | _ => rfl
  | dispatched there' _ here _ _ noResult =>
    cases Option.some.inj (there.symm.trans there')
    rw [here]
    exact noResult

theorem Finished.step {done : List (Nat × Reply)} (held : Finished rn done) (moves : Move rn a rn') :
    Finished rn' (done ++ finished rn a rn') := by
  -- a call that is in the notes is not the one whose method returns now
  have settled : ∀ {c reply reply'}, (c, reply) ∈ done → a ≠ .turn c (.invoke reply') := by
    rintro c reply reply' member rfl
    obtain ⟨call, there, result⟩ := (held.result c reply).mp member
    cases moves with
    | turn there' turned =>
      cases Option.some.inj (there.symm.trans there')
      rw [turned.invoked] at result
      cases result
  constructor
  · intro c call' after
    exact (moves.becomes after).sane (held.sane c)
  · intro c reply
    rw [List.mem_append, mem_finished]
    constructor
    · rintro (member | rfl)
      · obtain ⟨call, there, result⟩ := (held.result c reply).mp member
        obtain ⟨call', after⟩ := moves.persists there
        refine ⟨call', after, ?_⟩
        rw [(moves.becomes after).result there (held.sane c call there) fun _ => settled member]
        exact result
      · cases moves with
        | @turn _ call call' _ there turned =>
          refine ⟨call', by simp [getElem?_set_of there], ?_⟩
          exact turned.result (held.sane c call there)
    · rintro ⟨call', after, result⟩
      rw [held.result]
      cases moves.becomes after with
      | kept there => exact .inl ⟨_, there, result⟩
      | added => cases result
      | @turned old _ t there taken turned =>
        rw [turned.result (held.sane c old there)] at result
        split at result
        · cases result
          exact .inr taken
        · exact .inl ⟨old, there, result⟩
      | dispatched _ _ _ _ _ noResult => exact absurd (noResult.symm.trans result) nofun
  · rw [List.map_append]
    refine List.nodup_append.mpr ⟨held.once, ?_, ?_⟩
    · unfold finished
      split
      · exact List.nodup_singleton _
      · exact List.nodup_nil
    · rintro c member d last rfl
      obtain ⟨⟨_, reply⟩, old, rfl⟩ := List.mem_map.mp member
      obtain ⟨⟨_, reply'⟩, new, rfl⟩ := List.mem_map.mp last
      exact settled old (mem_finished.mp new)

theorem finished_run {acts : List (Action Name Rcvr Args Reply)}
    (reached : run step makeNetwork acts = some rn) :
    Finished rn (noted step finished makeNetwork acts) := by
  have start : Finished (makeNetwork : Network Name Rcvr Args Reply) [] := by
    constructor
    · intro c call there
      cases there
    · intro c reply
      constructor
      · intro member
        cases member
      · rintro ⟨call, there, -⟩
        cases there
    · exact List.nodup_nil
  exact noted_keeps Finished (fun _ _ _ _ held taken => held.step (step_cases taken).2) start acts
    reached

/-- In every run each request enters a server at most once and its method returns at most once; a
method that has returned was entered; the reply that a `Call` brings back is what its own method
returned; and `GetCount` is the number of requests that have entered the server. -/
theorem calls_run_once (acts : List (Action Name Rcvr Args Reply)) (rn : Network Name Rcvr Args Reply)
    (reached : run step makeNetwork acts = some rn) :
    ((noted step dispatched makeNetwork acts).map Prod.fst).Nodup ∧
    ((noted step finished makeNetwork acts).map Prod.fst).Nodup ∧
    (∀ c reply, (c, reply) ∈ noted step finished makeNetwork acts →
      ∃ server, (c, server) ∈ noted step dispatched makeNetwork acts) ∧
    (∀ (c : Nat) call reply, rn.calls[c]? = some call → call.pc = .returned (some reply) →
      (c, reply) ∈ noted step finished makeNetwork acts) ∧
    ∀ servername count, rn.getCount servername = some count → ∃ server,
      rn.serverOf servername = some server ∧
      count = (noted step dispatched makeNetwork acts).countP fun entry => entry.2 = server := by
  have began := begun_run reached
  have done := finished_run reached
  refine ⟨began.once, done.once, ?_, ?_, ?_⟩
  · intro c reply member
    obtain ⟨call, there, result⟩ := (done.result c reply).mp member
    have begun : call.handler.begun = true := by
      cases handler : call.handler with
      | replying | ended => rfl
      | _ =>
        rw [handler] at result
        cases result
    obtain ⟨⟨_, server⟩, entered, rfl⟩ :=
      List.mem_map.mp ((began.begun c).mpr ⟨call, there, begun⟩)
    exact ⟨server, entered⟩
  · intro c call reply there returned
    have fits := (done.sane c call there).fits
    simp only [Fits, returned] at fits
    exact (done.result c reply).mpr ⟨call, there, by rw [fits]; rfl⟩
  · intro servername count counted
    simp only [Network.getCount, Option.bind_eq_bind, Option.bind_eq_some_iff] at counted
    obtain ⟨server, registered, rs, object, same⟩ := counted
    cases Option.some.inj same
    exact ⟨server, registered, began.counts server rs object⟩

/-- One end, named 1, and one server, named 7. -/
def oneServer : List (Action Nat Nat Nat Nat) :=
  [.makeEnd 1, .makeServer, .addService 0 ⟨"Raft", 0, ["RequestVote"]⟩, .addServer 7 0, .connect 1 7,
    .enable 1 true]

def request : ReqMsg Nat Nat := ⟨1, "Raft.RequestVote", 5⟩

/-- The request enters the server, and the method returns 9. -/
def answered : List (Action Nat Nat Nat Nat) :=
  [.call request, .turn 0 .accept, .turn 0 .route, .turn 0 .forward, .dispatch 0,
    .turn 0 (.invoke 9)]

/-- The reply goes back to the caller. -/
def handedBack : List (Action Nat Nat Nat Nat) :=
  [.turn 0 .collect, .turn 0 (.check false), .turn 0 .reply]

theorem one_call_once : ∃ rn : Network Nat Nat Nat Nat,
    run step makeNetwork (oneServer ++ answered ++ handedBack) = some rn ∧
    (rn.calls[0]?).map Call.handler = some (.ended 9) ∧
    (0, 9) ∈ noted step finished makeNetwork (oneServer ++ answered ++ handedBack) ∧
    rn.getCount 7 = some 1 := by
  obtain ⟨rn, reached, returned, counted⟩ : ∃ rn : Network Nat Nat Nat Nat,
      run step makeNetwork (oneServer ++ answered ++ handedBack) = some rn ∧
      rn.calls[0]? = some ⟨request, .returned (some 9), .ended 9⟩ ∧ rn.getCount 7 = some 1 :=
    ⟨_, by rfl, by rfl, by rfl⟩
  have once := calls_run_once _ rn reached
  exact ⟨rn, reached, by rw [returned]; rfl, once.2.2.2.1 0 _ 9 returned rfl, counted⟩

end DistSys.Rpc
