import DistSys.Rpc.Calls

/-! A `Call` does not succeed over an end that is cut off, or at a server that was deleted. -/
namespace DistSys.Rpc

open DistSys.Lib

variable {Name Rcvr Args Reply : Type} [DecidableEq Name] {rn rn' : Network Name Rcvr Args Reply}
  {a : Action Name Rcvr Args Reply} {call call' : Call Name Rcvr Args Reply} {turn : Turn Reply}
  {acts later : List (Action Name Rcvr Args Reply)} {c : Nat}

/-! ### The tables of the network -/

theorem isEnabled_insert (rn : Network Name Rcvr Args Reply) (endname e : Name) (enabled : Bool) :
    ({ rn with enabled := rn.enabled.insert endname enabled } : Network Name Rcvr Args Reply).isEnabled
      e = if e = endname then enabled else rn.isEnabled e := by
  simp only [Network.isEnabled, Map.lookup_insert]
  split <;> rfl

theorem serverOf_insert (rn : Network Name Rcvr Args Reply) (servername s : Name)
    (server : Option Nat) :
    ({ rn with servers := rn.servers.insert servername server } : Network Name Rcvr Args Reply).serverOf
      s = if s = servername then server else rn.serverOf s := by
  simp only [Network.serverOf, Map.lookup_insert]
  split <;> rfl

theorem connectionOf_insert (rn : Network Name Rcvr Args Reply) (endname e : Name)
    (servername : Option Name) :
    ({ rn with connections := rn.connections.insert endname servername } :
      Network Name Rcvr Args Reply).connectionOf e =
        if e = endname then servername else rn.connectionOf e := by
  simp only [Network.connectionOf, Map.lookup_insert]
  split <;> rfl

theorem readEndnameInfo_some {endname : Name} {route : Route Name}
    (found : rn.readEndnameInfo endname = some route) :
    rn.connectionOf endname = some route.servername ∧
      rn.serverOf route.servername = some route.server := by
  simp only [Network.readEndnameInfo, Option.bind_eq_bind] at found
  split at found
  · simp only [Option.bind_eq_some_iff, Option.some.injEq] at found
    obtain ⟨name, connected, server, registered, rfl⟩ := found
    exact ⟨connected, registered⟩
  · cases found

omit [DecidableEq Name] in
/-- Calls do not touch the tables. -/
theorem dispatch_tables (rn : Network Name Rcvr Args Reply) (c : Nat)
    (call : Call Name Rcvr Args Reply) (server : Nat) (rs : Server Rcvr) :
    (rn.dispatch c call server rs).enabled = rn.enabled ∧
      (rn.dispatch c call server rs).servers = rn.servers ∧
      (rn.dispatch c call server rs).connections = rn.connections ∧
      (rn.dispatch c call server rs).reliable = rn.reliable := by
  unfold Network.dispatch
  cases rs.find call.req.svcMeth <;> exact ⟨rfl, rfl, rfl, rfl⟩

/-- An end stays disabled until it is enabled. -/
theorem Move.disabled {endname : Name} (moves : Move rn a rn')
    (off : rn.isEnabled endname = false) (quiet : a ≠ .enable endname true) :
    rn'.isEnabled endname = false := by
  cases moves with
  | @makeEnd e =>
    simp only [Network.isEnabled] at off ⊢
    rw [Map.lookup_insert]
    split
    · rfl
    · exact off
  | @enable e enabled =>
    rw [isEnabled_insert]
    split
    · rename_i same
      subst same
      cases enabled with
      | false => rfl
      | true => exact absurd rfl quiet
    · exact off
  | dispatch =>
    rw [Network.isEnabled, (dispatch_tables rn _ _ _ _).1]
    exact off
  | _ => exact off

/-- A server that has no name stays so until it is added again. -/
theorem Move.unregistered {server : Nat} (moves : Move rn a rn')
    (gone : ∀ name, rn.serverOf name ≠ some server) (quiet : ∀ name, a ≠ .addServer name server)
    (name : Name) : rn'.serverOf name ≠ some server := by
  cases moves with
  | @addServer servername added =>
    rw [serverOf_insert]
    split
    · rintro ⟨⟩
      exact quiet servername rfl
    · exact gone name
  | deleteServer =>
    rw [serverOf_insert]
    split
    · simp
    · exact gone name
  | dispatch =>
    rw [Network.serverOf, (dispatch_tables rn _ _ _ _).2.1]
    exact gone name
  | _ => exact gone name

/-! ### No answer from where none can come -/

/-- A positive answer is new only when the last look found the end enabled and the server under its
name. -/
theorem Turned.answers {reply : Reply} (turned : Turned rn call turn call')
    (answer : call'.pc.answer = some (some reply)) :
    call.pc.answer = some (some reply) ∨ ∃ route, call.pc.route = some route ∧
      rn.isServerDead call.req.endname route.servername route.server = false := by
  cases turned with
  | pass here lives => exact .inr ⟨_, by rw [here]; rfl, lives⟩
  | reply here =>
    left
    rw [here]
    exact answer
  | invoke | wait => exact .inl answer
  | accept | route | unreachable | drop | forward | collect | giveUp | lose => cases answer

theorem Becomes.req (becomes : Becomes rn a c call') (there : rn.calls[c]? = some call) :
    call'.req = call.req := by
  cases becomes with
  | kept there' =>
    cases Option.some.inj (there.symm.trans there')
    rfl
  | added fresh => exact absurd there (by simp [fresh])
  | turned there' _ turned =>
    cases Option.some.inj (there.symm.trans there')
    cases turned <;> rfl
  | dispatched there' =>
    cases Option.some.inj (there.symm.trans there')
    rfl

/-- A call gets no positive answer while its server looks dead. -/
theorem Becomes.unanswered (becomes : Becomes rn a c call') (there : rn.calls[c]? = some call)
    (silent : ∀ reply, call.pc.answer ≠ some (some reply))
    (dead : ∀ route, call.pc.route = some route →
      rn.isServerDead call.req.endname route.servername route.server = true) (reply : Reply) :
    call'.pc.answer ≠ some (some reply) := by
  intro answer
  cases becomes with
  | added => cases answer
  | kept there' | dispatched there' =>
    cases Option.some.inj (there.symm.trans there')
    exact silent reply answer
  | turned there' _ turned =>
    cases Option.some.inj (there.symm.trans there')
    rcases turned.answers answer with old | ⟨route, routed, lives⟩
    · exact silent reply old
    · cases (dead route routed).symm.trans lives

omit [DecidableEq Name] in
/-- A handler that is still to begin has no positive answer. -/
theorem Sane.unanswered {server : Nat} (sane : Sane call) (here : call.handler = .dispatching server)
    (reply : Reply) : call.pc.answer ≠ some (some reply) := by
  intro answer
  have fits := sane.fits
  rw [here] at fits
  cases pc : call.pc with
  | answering | returned =>
    rw [pc] at answer fits
    cases answer
    cases fits
  | _ =>
    rw [pc] at answer
    cases answer

/-- The end of a call is disabled, and the call has no positive answer. -/
structure CutEnd (endname : Name) (c : Nat) (rn : Network Name Rcvr Args Reply) : Prop where
  off : rn.isEnabled endname = false
  silent : ∃ call, rn.calls[c]? = some call ∧ call.req.endname = endname ∧
    ∀ reply, call.pc.answer ≠ some (some reply)

theorem CutEnd.step {endname : Name} (cut : CutEnd endname c rn) (moves : Move rn a rn')
    (quiet : a ≠ .enable endname true) : CutEnd endname c rn' := by
  obtain ⟨off, call, there, own, silent⟩ := cut
  obtain ⟨call', after⟩ := moves.persists there
  have becomes := moves.becomes after
  refine ⟨moves.disabled off quiet, call', after, becomes.req there ▸ own, ?_⟩
  apply becomes.unanswered there silent
  intro route _
  simp [Network.isServerDead, own, off]

/-- A server has no name, and a call that has entered it has no positive answer. -/
structure Deleted (server c : Nat) (rn : Network Name Rcvr Args Reply) (began : List (Nat × Nat)) :
    Prop where
  held : Begun rn began
  gone : ∀ name, rn.serverOf name ≠ some server
  silent : ∃ call, rn.calls[c]? = some call ∧
    ((c, server) ∈ began → ∀ reply, call.pc.answer ≠ some (some reply))

theorem Deleted.step {server : Nat} {began : List (Nat × Nat)} (deleted : Deleted server c rn began)
    (moves : Move rn a rn') (quiet : ∀ name, a ≠ .addServer name server) :
    Deleted server c rn' (began ++ dispatched rn a rn') := by
  obtain ⟨held, gone, call, there, silent⟩ := deleted
  obtain ⟨call', after⟩ := moves.persists there
  refine ⟨held.step moves, moves.unregistered gone quiet, call', after, ?_⟩
  intro entered
  have sane := held.sane c call there
  have before : (∀ reply, call.pc.answer ≠ some (some reply)) ∧
      ∀ route, call.pc.route = some route → route.server = server := by
    rcases List.mem_append.mp entered with old | new
    · exact ⟨silent old, fun route routed => held.routed c server call route old there routed⟩
    · obtain ⟨-, call', there', here⟩ := mem_dispatched.mp new
      cases Option.some.inj (there.symm.trans there')
      exact ⟨sane.unanswered here, fun route routed => sane.server server route here routed⟩
  apply (moves.becomes after).unanswered there before.1
  intro route routed
  simp [Network.isServerDead, before.2 route routed, gone]

/-- A `Call` whose `ProcessReq` has not made its last look at the server when its end is disabled, or
when the server that its request enters has lost its name, never succeeds as long as that is not
undone. -/
theorem cut_off_never_succeeds (acts later : List (Action Name Rcvr Args Reply))
    (rn rn' : Network Name Rcvr Args Reply) (reached : run step makeNetwork acts = some rn)
    (goes : run step rn later = some rn') (c : Nat) (call : Call Name Rcvr Args Reply)
    (there : rn.calls[c]? = some call) (before : call.pc.answer = none) :
    ((rn.isEnabled call.req.endname = false ∧ .enable call.req.endname true ∉ later) ∨
      ∃ server, (∀ name, rn.serverOf name ≠ some server) ∧
        (∀ name, .addServer name server ∉ later) ∧
        (c, server) ∈ noted step dispatched makeNetwork (acts ++ later)) →
    ∃ call', rn'.calls[c]? = some call' ∧ ∀ reply, call'.pc ≠ .returned (some reply) := by
  intro cut
  have silent : ∃ call', rn'.calls[c]? = some call' ∧
      ∀ reply, call'.pc.answer ≠ some (some reply) := by
    rcases cut with ⟨off, quiet⟩ | ⟨server, gone, quiet, entered⟩
    · have start : CutEnd call.req.endname c rn := ⟨off, call, there, rfl, by simp [before]⟩
      obtain ⟨-, call', after, -, silent⟩ := run_allowed (· ≠ .enable call.req.endname true)
        (CutEnd call.req.endname c) (fun _ _ _ cut quiet taken => cut.step (step_cases taken).2 quiet)
        start later (fun a member same => quiet (same ▸ member)) goes
      exact ⟨call', after, silent⟩
    · have start : Deleted server c rn (noted step dispatched makeNetwork acts) :=
        ⟨begun_run reached, gone, call, there, by simp [before]⟩
      obtain ⟨-, -, call', after, silent⟩ := noted_allowed
        (fun a => ∀ name, a ≠ .addServer name server) (Deleted server c)
        (fun _ _ _ _ deleted quiet taken => deleted.step (step_cases taken).2 quiet) start later
        (fun a member name same => quiet name (same ▸ member)) goes
      rw [noted_append reached] at entered
      exact ⟨call', after, silent entered⟩
  obtain ⟨call', after, silent⟩ := silent
  refine ⟨call', after, ?_⟩
  intro reply returned
  exact silent reply (by rw [returned]; rfl)

/-- The server is deleted when its method has returned. -/
theorem deleted_server_fails : ∃ rn rn' : Network Nat Nat Nat Nat,
    run step makeNetwork (oneServer ++ answered ++ [.deleteServer 7]) = some rn ∧
    run step rn handedBack = some rn' ∧
    ∃ call, rn'.calls[0]? = some call ∧ ∀ reply, call.pc ≠ .returned (some reply) := by
  obtain ⟨rn, reached, there, servers⟩ : ∃ rn : Network Nat Nat Nat Nat,
      run step makeNetwork (oneServer ++ answered ++ [.deleteServer 7]) = some rn ∧
      rn.calls[0]? = some ⟨request, .waiting ⟨7, 0, true⟩, .replying 9⟩ ∧
      rn.servers.entries = [⟨7, none⟩] :=
    ⟨_, by rfl, by rfl, by rfl⟩
  have gone : ∀ name, rn.serverOf name ≠ some 0 := by
    intro name registered
    have member := Map.mem_entries.mpr (Option.join_eq_some_iff.mp registered)
    simp [servers] at member
  obtain ⟨rn', goes⟩ : ∃ rn', run step rn handedBack = some rn' := by
    cases Option.some.inj (reached.symm.trans rfl)
    exact ⟨_, rfl⟩
  exact ⟨rn, rn', reached, goes, cut_off_never_succeeds _ handedBack rn rn' reached goes 0 _ there rfl
    (.inr ⟨0, gone, by simp [handedBack], by decide⟩)⟩

end DistSys.Rpc
