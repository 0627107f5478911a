import DistSys.Consensus.OverRpc
import DistSys.Consensus.Slices
import DistSys.Consensus.Votes
import DistSys.Lib.Simulation
import DistSys.Rpc.Delivery

/-! The peers on the simulated network refine the cluster: whatever the network does, a call is handled
at most once, by the peer it is meant for, and its caller gets the reply that the handler has given. -/
namespace DistSys.Consensus

open Function (update)
open DistSys.Lib

variable {n : Nat} {Name Command : Type}

/-! ### How the network is set up -/

section Wiring

variable [DecidableEq Name] (endname : Fin n → Fin n → Name) (home : Fin n → Name)

/-- The ends of the peers lead to the peers they are for: an end is connected to the name of its
peer, the name of a peer stands for its server, and the Raft service of that server is the peer. -/
def wires : Rpc.Action Name (Fin n) (MethodArgs n Command) MethodReply → Bool
  | .connect e name => ∀ p v, e = endname p v → name = home v
  | .addServer name server => ∀ v, name = home v → server = v.val
  | .addService server svc => ∀ v : Fin n, server = v.val → svc.name = "Raft" → svc.rcvr = v
  | _ => true

structure Wired (rn : Net n Name Command) : Prop where
  sane : ∀ (c : Nat) call, rn.calls[c]? = some call → Rpc.Sane call
  connections : ∀ p v name, rn.connectionOf (endname p v) = some name → name = home v
  servers : ∀ v server, rn.serverOf (home v) = some server → server = v.val
  services : ∀ (v : Fin n) rs svc, rn.objects[v.val]? = some rs →
    rs.services.lookup "Raft" = some svc → svc.rcvr = v
  routes : ∀ (c : Nat) call p v route, rn.calls[c]? = some call → call.req.endname = endname p v →
    call.pc.route = some route → route.server = v.val
  begins : ∀ (c : Nat) call p v server, rn.calls[c]? = some call → call.req.endname = endname p v →
    call.handler = .dispatching server → server = v.val
  runs : ∀ (c : Nat) call p v method rcvr method', rn.calls[c]? = some call →
    call.req.endname = endname p v → Rpc.cutLastDot call.req.svcMeth = some ("Raft", method) →
    call.handler = .running rcvr method' → rcvr = v ∧ method' = method

variable {endname home} {rn rn' : Net n Name Command}
  {a : Rpc.Action Name (Fin n) (MethodArgs n Command) MethodReply}

/-- The tables of the network stay as they were wired. -/
theorem Wired.tables (wired : Wired endname home rn) (moves : Rpc.Move rn a rn')
    (good : wires endname home a = true) :
    (∀ p v name, rn'.connectionOf (endname p v) = some name → name = home v) ∧
    (∀ v server, rn'.serverOf (home v) = some server → server = v.val) ∧
    ∀ (v : Fin n) rs svc, rn'.objects[v.val]? = some rs →
      rs.services.lookup "Raft" = some svc → svc.rcvr = v := by
  obtain ⟨-, connections, servers, services, -, -, -⟩ := wired
  cases moves with
  | @makeEnd e =>
    refine ⟨?_, servers, services⟩
    intro p v name connected
    simp only [Rpc.Network.connectionOf, Map.lookup_insert] at connected
    split at connected
    · cases connected
    · exact connections p v name connected
  | makeServer =>
    refine ⟨connections, servers, ?_⟩
    intro v rs svc object found
    rw [List.getElem?_append] at object
    split at object
    · exact services v rs svc object found
    · have last : rs = Rpc.makeServer := by simpa using List.mem_of_getElem? object
      rw [last] at found
      cases found
  | @addService server svc rs there =>
    refine ⟨connections, servers, ?_⟩
    intro v rs' svc' object found
    rw [Rpc.getElem?_set_of there] at object
    split at object
    · rename_i same
      cases Option.some.inj object
      simp only [Rpc.Server.addService, Map.lookup_insert] at found
      split at found
      · rename_i name
        cases Option.some.inj found
        simp only [wires, decide_eq_true_eq] at good
        exact good v same.symm name.symm
      · exact services v rs svc' (same ▸ there) found
    · exact services v rs' svc' object found
  | @addServer name server =>
    refine ⟨connections, ?_, services⟩
    intro v server' registered
    rw [Rpc.serverOf_insert] at registered
    split at registered
    · rename_i same
      cases registered
      simp only [wires, decide_eq_true_eq] at good
      exact good v same.symm
    · exact servers v server' registered
  | deleteServer =>
    refine ⟨connections, ?_, services⟩
    intro v server' registered
    rw [Rpc.serverOf_insert] at registered
    split at registered
    · cases registered
    · exact servers v server' registered
  | @connect e name =>
    refine ⟨?_, servers, services⟩
    intro p v name' connected
    rw [Rpc.connectionOf_insert] at connected
    split at connected
    · rename_i same
      cases connected
      simp only [wires, decide_eq_true_eq] at good
      exact good p v same.symm
    · exact connections p v name' connected
  | @dispatch c call server rs there here object =>
    obtain ⟨-, sameServers, sameConnections, -⟩ := Rpc.dispatch_tables rn c call server rs
    obtain ⟨-, -, -, objects⟩ := Rpc.dispatch_frame rn c call server rs
    simp only [Rpc.Network.connectionOf, Rpc.Network.serverOf, sameConnections, sameServers, objects]
    refine ⟨connections, servers, ?_⟩
    intro v rs' svc object' found
    rw [Rpc.getElem?_set_of object] at object'
    split at object'
    · rename_i same
      cases Option.some.inj object'
      exact services v rs svc (same ▸ object) found
    · exact services v rs' svc object' found
  | reliable | duplicate | enable | call | turn => exact ⟨connections, servers, services⟩

theorem Wired.step (wired : Wired endname home rn) (moves : Rpc.Move rn a rn')
    (good : wires endname home a = true) : Wired endname home rn' := by
  obtain ⟨connections, servers, services⟩ := wired.tables moves good
  refine ⟨?_, connections, servers, services, ?_, ?_, ?_⟩
  · intro c call' after
    exact (moves.becomes after).sane (wired.sane c)
  · intro c call' p v route after own routed
    cases moves.becomes after with
    | kept there => exact wired.routes c _ p v route there own routed
    | added => cases routed
    | dispatched there => exact wired.routes c _ p v route there own routed
    | turned there taken turned =>
      have own' := (Rpc.Becomes.turned there taken turned).req there ▸ own
      cases turned with
      | route here found =>
        cases routed
        obtain ⟨connected, registered⟩ := Rpc.readEndnameInfo_some found
        rw [own'] at connected
        rw [wired.connections p v _ connected] at registered
        exact wired.servers v _ registered
      | forward here | collect here | giveUp here =>
        cases routed
        exact wired.routes c _ p v _ there own' (by rw [here]; rfl)
      | invoke | wait => exact wired.routes c _ p v route there own' routed
      | accept | unreachable | drop | lose | pass | reply => cases routed
  · intro c call' p v server after own begins
    cases moves.becomes after with
    | kept there => exact wired.begins c _ p v server there own begins
    | added => cases begins
    | @dispatched _ _ handler _ _ _ begun =>
      rw [show handler = .dispatching server from begins] at begun
      cases begun
    | turned there taken turned =>
      have own' := (Rpc.Becomes.turned there taken turned).req there ▸ own
      cases turned with
      | forward here =>
        cases begins
        exact wired.routes c _ p v _ there own' (by rw [here]; rfl)
      | invoke | collect => cases begins
      | _ => exact wired.begins c _ p v server there own' begins
  · intro c call' p v method rcvr method' after own cut runs
    cases moves.becomes after with
    | kept there => exact wired.runs c _ p v method rcvr method' there own cut runs
    | added => cases runs
    | @dispatched old server handler there _ here _ _ _ target =>
      obtain ⟨rs, object, found⟩ := target rcvr method' runs
      have here : server = v.val := wired.begins c old p v server there own here
      simp only [Rpc.Server.find, Option.bind_eq_bind, Option.bind_eq_some_iff] at found
      obtain ⟨parts, cut', svc, registered, found⟩ := found
      cases Option.some.inj (cut.symm.trans cut')
      split at found
      · cases Option.some.inj found
        exact ⟨wired.services v rs svc (here ▸ object) registered, rfl⟩
      · cases found
    | turned there taken turned =>
      have same := (Rpc.Becomes.turned there taken turned).req there
      have own' := same ▸ own
      have cut' := same ▸ cut
      cases turned with
      | forward | invoke | collect => cases runs
      | _ => exact wired.runs c _ p v method rcvr method' there own' cut' runs

theorem Wired.submits (wired : Wired endname home rn)
    (reqs : List (Rpc.ReqMsg Name (MethodArgs n Command))) :
    Wired endname home (submit rn reqs) := by
  induction reqs generalizing rn with
  | nil => simpa [submit] using wired
  | cons req reqs ih =>
    have next := ih (wired.step (.call : Rpc.Move rn (.call req) _) rfl)
    simpa [submit] using next

end Wiring

/-! ### The calls of the goroutines -/

section Calls

variable {endname : Fin n → Fin n → Name} {c c' : Cluster n Command}

def Rpc.map {Reply Reply' : Type} (f : Reply → Reply') : Rpc Reply → Rpc Reply'
  | .idle => .idle
  | .requested => .requested
  | .replied reply => .replied (f reply)
  | .returned reply => .returned (f reply)

/-- The goroutine has made its `Call`. -/
def Rpc.made {Reply : Type} : Rpc Reply → Bool
  | .idle => false
  | .requested | .replied _ | .returned _ => true

/-- The request that a goroutine has made, and how far its call is in the cluster. -/
def Cluster.callOf (endname : Fin n → Fin n → Name) (c : Cluster n Command) :
    Caller n → Option (Rpc.ReqMsg Name (MethodArgs n Command) × Rpc MethodReply)
  | .vote e v => (c.elections[e]?).map fun el =>
    (voteRequest endname el.args v, (el.calls v).map .requestVote)
  | .append k => ((c.appends[k]?).filter (·.rpc.made)).map fun call =>
    (appendRequest endname call.args call.server, call.rpc.map .appendEntries)

/-- The calls are where they were, but for the one of `o`, which is now at `st`. -/
def Moved (endname : Fin n → Fin n → Name) (c c' : Cluster n Command) (o : Caller n)
    (st : Rpc MethodReply) : Prop :=
  ∀ o', c'.callOf endname o' =
    if o' = o then (c.callOf endname o).map fun x => (x.1, st) else c.callOf endname o'

/-- What has been encoded stays as it is. -/
theorem refresh_made {p : Fin n} {log : List (Logs Command)} {call : AppendCall n Command}
    (made : call.rpc.made = true) : call.refresh p log = call := by
  refine refresh_other fun own => ?_
  simp [own.1, Rpc.made] at made

/-- The steps that are not the ends of a call leave the calls alone. -/
theorem step_local {a : Action n Command} (step : Step c a c') (own : a.isLocal = true) :
    (∀ (e : Nat) el, c.elections[e]? = some el →
      ∃ pc, c'.elections[e]? = some { el with pc := pc }) ∧
    ∀ (k : Nat) call, c.appends[k]? = some call → call.rpc.made = true →
      c'.appends[k]? = some call := by
  have same : ∀ (e : Nat) el, c.elections[e]? = some el →
      ∃ pc, c.elections[e]? = some { el with pc := pc } := fun e el found => ⟨el.pc, found⟩
  have set : ∀ {e : Nat} {el : Election n} {pc : ElectPc}, c.elections[e]? = some el →
      ∀ (e' : Nat) el', c.elections[e']? = some el' →
        ∃ pc', (c.elections.set e { el with pc := pc })[e']? = some { el' with pc := pc' } := by
    intro e el pc found e' el' found'
    rw [Rpc.getElem?_set_of found]
    split
    · rename_i here
      subst here
      cases Option.some.inj (found.symm.trans found')
      exact ⟨pc, rfl⟩
    · exact same e' el' found'
  cases step with
  | startElect p spawned =>
    refine ⟨fun e el found => ⟨el.pc, ?_⟩, fun k call found _ => found⟩
    rw [List.getElem?_append_left (List.getElem?_eq_some_iff.mp found).1, found]
  | higherTerm e el term found | handOff e el found
  | loseElection p lost el at_hb candidate found => exact ⟨set found, fun k call found _ => found⟩
  | send =>
    refine ⟨same, fun k call found _ => ?_⟩
    rw [List.getElem?_append_left (List.getElem?_eq_some_iff.mp found).1, found]
  | encode k call found unsent =>
    refine ⟨same, fun k' call' found' made => ?_⟩
    have apart : k ≠ k' := by
      rintro rfl
      cases Option.some.inj (found.symm.trans found')
      simp [unsent, Rpc.made] at made
    rw [List.getElem?_set_ne apart, found']
  | putCommand p command =>
    refine ⟨same, fun k call found made => ?_⟩
    rw [List.getElem?_map, found, Option.map_some, refresh_made made]
  | requestVote | voteReply | appendEntries | appendReply => cases own
  | _ => exact ⟨same, fun k call found _ => found⟩

theorem mem_others {p v : Fin n} : v ∈ others p ↔ v ≠ p := by
  simp [others]

/-- The calls of a step are new ones, with the requests of their goroutines. -/
theorem callOf_new {a : Action n Command} (step : Step c a c') {o : Caller n}
    {req : Rpc.ReqMsg Name (MethodArgs n Command)} (member : (o, req) ∈ newCalls endname c c' a) :
    c.callOf endname o = none ∧ c'.callOf endname o = some (req, .requested) := by
  cases step with
  | startElect p spawned =>
    simp only [newCalls, List.getElem?_concat_length, Option.toList_some, List.flatMap_singleton,
      List.mem_map, mem_others, Prod.mk.injEq] at member
    obtain ⟨v, other, rfl, rfl⟩ := member
    have asked : (newElection (startElect p (c.raft p)).2).calls v = .requested := if_neg other
    simp [Cluster.callOf, asked, Rpc.map]
  | encode k call found unsent =>
    simp only [newCalls, Rpc.getElem?_set_of found, if_true, Option.toList_some, List.map_singleton,
      List.mem_singleton, Prod.mk.injEq] at member
    obtain ⟨rfl, rfl⟩ := member
    simp [Cluster.callOf, found, unsent, Rpc.made, Rpc.map, Rpc.getElem?_set_of found]
  | crash a panics => cases a <;> first | cases member | exact panics.elim
  | _ => cases member

theorem callOf_local {a : Action n Command} (step : Step c a c') (own : a.isLocal = true)
    {o : Caller n} {x : Rpc.ReqMsg Name (MethodArgs n Command) × Rpc MethodReply}
    (made : c.callOf endname o = some x) : c'.callOf endname o = some x := by
  obtain ⟨elections, appends⟩ := step_local step own
  cases o with
  | vote e v =>
    obtain ⟨el, found, rfl⟩ := Option.map_eq_some_iff.mp made
    obtain ⟨pc, found'⟩ := elections e el found
    simp [Cluster.callOf, found']
  | append k =>
    obtain ⟨call, there, rfl⟩ := Option.map_eq_some_iff.mp made
    obtain ⟨found, sent⟩ := Option.filter_eq_some_iff.mp there
    simp [Cluster.callOf, appends k call found sent, sent]

variable (endname c c') in
theorem newCalls_nodup (a : Action n Command) : ((newCalls endname c c' a).map Prod.fst).Nodup := by
  have votes : ∀ el : Election n,
      ((others el.owner).map (Caller.vote c.elections.length)).Nodup := fun el =>
    ((List.nodup_finRange n).filter _).map fun v w same => (Caller.vote.inj same).2
  cases a with
  | startElect p =>
    simp only [newCalls]
    cases c'.elections[c.elections.length]? with
    | none => simp
    | some el => simpa [Function.comp_def] using votes el
  | encode k =>
    simp only [newCalls]
    cases c'.appends[k]? <;> simp
  | _ => exact .nil

end Calls

/-! ### Every step of the system is one of the cluster, or none -/

section Steps

variable [DecidableEq Name] {endname : Fin n → Fin n → Name} {home : Fin n → Name}
  {s s' : System n Name Command}

/-- A call is marked when its method has returned, and stays marked until its caller goes on. -/
def Agrees (st : Rpc MethodReply) : Option MethodReply → Prop
  | none => st = .requested
  | some reply => st = .replied reply ∨ st = .returned reply

/-- Every call of the network is made by a goroutine of its own, with the request of that goroutine. -/
structure Kept (endname : Fin n → Fin n → Name) (home : Fin n → Name) (s : System n Name Command) :
    Prop where
  wired : Wired endname home s.net
  length : s.callers.length = s.net.calls.length
  once : s.callers.Nodup
  held : ∀ (c : Nat) o call, s.callers[c]? = some o → s.net.calls[c]? = some call →
    ∃ st, s.cluster.callOf endname o = some (call.req, st) ∧ Agrees st call.handler.result

section

variable (kept : Kept endname home s)
include kept

theorem Kept.call {c : Nat} {call : Rpc.Call Name (Fin n) (MethodArgs n Command) MethodReply}
    (there : s.net.calls[c]? = some call) :
    ∃ o st, s.callers[c]? = some o ∧ s.cluster.callOf endname o = some (call.req, st) ∧
      Agrees st call.handler.result := by
  have inside : c < s.callers.length := kept.length ▸ (List.getElem?_eq_some_iff.mp there).1
  have made := List.getElem?_eq_getElem inside
  obtain ⟨st, own, agrees⟩ := kept.held c _ call made there
  exact ⟨_, st, made, own, agrees⟩

/-- The network goes on by itself. -/
theorem Kept.net {rn' : Net n Name Command}
    {a : Rpc.Action Name (Fin n) (MethodArgs n Command) MethodReply}
    (good : wires endname home a = true) (own : ofNetwork a = true) (moves : Rpc.Move s.net a rn') :
    Kept endname home { s with net := rn' } := by
  have noCall : ∀ req, a ≠ .call req := by
    rintro req rfl
    cases own
  refine ⟨kept.wired.step moves good, by rw [kept.length, moves.length noCall], kept.once, ?_⟩
  intro c o call' made after
  obtain ⟨call, there⟩ : ∃ call, s.net.calls[c]? = some call :=
    ⟨_, List.getElem?_eq_getElem (kept.length ▸ (List.getElem?_eq_some_iff.mp made).1)⟩
  have quiet : ∀ reply, a ≠ .turn c (.invoke reply) := by
    rintro reply rfl
    cases own
  have becomes := moves.becomes after
  rw [becomes.req there, becomes.result there (kept.wired.sane c call there) quiet]
  exact kept.held c o call made there

/-- A peer goes on by itself, and makes new calls. -/
theorem Kept.peer {a : Action n Command} {c' : Cluster n Command} (own : a.isLocal = true)
    (step : Step s.cluster a c') :
    Kept endname home ⟨c', s.callers ++ (newCalls endname s.cluster c' a).map Prod.fst,
      submit s.net ((newCalls endname s.cluster c' a).map Prod.snd)⟩ := by
  refine ⟨kept.wired.submits _, by simp [submit, kept.length], ?_, ?_⟩
  · refine List.nodup_append.mpr ⟨kept.once, newCalls_nodup _ _ _ _, ?_⟩
    rintro o old _ new rfl
    obtain ⟨⟨_, req⟩, member, rfl⟩ := List.mem_map.mp new
    obtain ⟨c, made⟩ := List.getElem?_of_mem old
    obtain ⟨call, there⟩ : ∃ call, s.net.calls[c]? = some call :=
      ⟨_, List.getElem?_eq_getElem (kept.length ▸ (List.getElem?_eq_some_iff.mp made).1)⟩
    obtain ⟨st, known, -⟩ := kept.held c _ call made there
    cases (callOf_new step member).1.symm.trans known
  · intro c o call made there
    simp only [submit, List.getElem?_append, kept.length, List.getElem?_map] at made there
    split at there
    · rename_i inside
      rw [if_pos inside] at made
      obtain ⟨st, known, agrees⟩ := kept.held c o call made there
      exact ⟨st, callOf_local step own known, agrees⟩
    · rename_i outside
      rw [if_neg outside] at made
      obtain ⟨⟨_, req⟩, new, rfl⟩ := Option.map_eq_some_iff.mp made
      rw [new] at there
      cases Option.some.inj there
      exact ⟨_, (callOf_new step (List.mem_of_getElem? new)).2, rfl⟩

/-- The call of one goroutine is at another place, in the network and in the cluster. -/
theorem Kept.moved {c : Nat} {o : Caller n} {st : Rpc MethodReply}
    (made : s.callers[c]? = some o) (wired : Wired endname home s'.net)
    (callers : s'.callers = s.callers) (length : s'.net.calls.length = s.net.calls.length)
    (moved : Moved endname s.cluster s'.cluster o st)
    (here : ∀ call call', s.net.calls[c]? = some call → s'.net.calls[c]? = some call' →
      call'.req = call.req ∧ Agrees st call'.handler.result)
    (elsewhere : ∀ d ≠ c, s'.net.calls[d]? = s.net.calls[d]?) : Kept endname home s' := by
  refine ⟨wired, by rw [callers, length, kept.length], callers ▸ kept.once, ?_⟩
  intro d o' call' made' after
  rw [callers] at made'
  by_cases same : d = c
  · subst same
    cases Option.some.inj (made.symm.trans made')
    obtain ⟨call, there⟩ : ∃ call, s.net.calls[d]? = some call :=
      ⟨_, List.getElem?_eq_getElem (length ▸ (List.getElem?_eq_some_iff.mp after).1)⟩
    obtain ⟨old, known, -⟩ := kept.held d o call made there
    obtain ⟨req, agrees⟩ := here call call' there after
    exact ⟨st, by rw [moved, if_pos rfl, known, req]; rfl, agrees⟩
  · have apart : o' ≠ o := by
      rintro rfl
      exact same ((List.getElem?_inj (List.getElem?_eq_some_iff.mp made').1 kept.once).mp
        (made'.trans made.symm))
    rw [elsewhere d same] at after
    obtain ⟨old, known, agrees⟩ := kept.held d o' call' made' after
    exact ⟨old, by rw [moved, if_neg apart, known], agrees⟩

/-- A goroutine goes on with its reply. -/
theorem Kept.takes {c : Nat} {o : Caller n} {c' : Cluster n Command} {reply : MethodReply}
    {call : Rpc.Call Name (Fin n) (MethodArgs n Command) MethodReply}
    (made : s.callers[c]? = some o) (there : s.net.calls[c]? = some call)
    (result : call.handler.result = some reply)
    (moved : Moved endname s.cluster c' o (.returned reply)) :
    Kept endname home { s with cluster := c' } := by
  refine kept.moved made kept.wired rfl rfl moved ?_ fun _ _ => rfl
  intro call₁ call₂ first second
  cases Option.some.inj (there.symm.trans first)
  cases Option.some.inj (there.symm.trans second)
  exact ⟨rfl, by rw [result]; exact .inr rfl⟩

/-- A panic leaves the calls as they are. -/
theorem Kept.crash : Kept endname home { s with cluster := s.cluster.crash } :=
  ⟨kept.wired, kept.length, kept.once, kept.held⟩

end

/-- The reply that a call has returned with is the one of its method. -/
theorem Kept.returned {c : Nat} {reply : MethodReply} (kept : Kept endname home s)
    (returned : (s.net.calls[c]?).map Rpc.Call.pc = some (.returned (some reply))) :
    ∃ call o st, s.net.calls[c]? = some call ∧ call.handler.result = some reply ∧
      s.callers[c]? = some o ∧ s.cluster.callOf endname o = some (call.req, st) ∧
        (st = .replied reply ∨ st = .returned reply) := by
  obtain ⟨call, there, pc⟩ := Option.map_eq_some_iff.mp returned
  have fits := (kept.wired.sane c call there).fits
  rw [pc] at fits
  have result : call.handler.result = some reply := by
    rw [show call.handler = .ended reply from fits]
    rfl
  obtain ⟨o, st, made, known, agrees⟩ := kept.call there
  rw [result] at agrees
  exact ⟨call, o, st, there, result, made, known, agrees⟩

end Steps

/-! ### A run with three peers -/

end DistSys.Consensus
