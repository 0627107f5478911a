import DistSys.Store.Replies

/-! The accounts of the clients: who has come, who has gone, and who is in the slice. -/
namespace DistSys.Store

open DistSys.Lib

variable {s s' t : KeyValueServer} {a : Action} {c : Conn} {cl : Client} {r : KvRequest}
  {store : Impl} {came came' gone gone' : List Conn}

/-- The connection that `mainRoutine` takes from `accept` and makes a client of. -/
def registers (s : KeyValueServer) (a : Action) (_ : KeyValueServer) : List Conn :=
  match a with
  | .meet .accept .main => match s.accept with
    | .sending connection => [connection]
    | _ => []
  | _ => []

/-- The client whose `Terminate` request `mainRoutine` takes from its reader. -/
def terminates (s : KeyValueServer) (a : Action) (_ : KeyValueServer) : List Conn :=
  match a with
  | .meet (.reader c) .main => match s.client.lookup c with
    | some cl => match cl.reader with
      | .sending r => if r.requestType = .terminate then [r.currentClient] else []
      | _ => []
    | none => []
  | _ => []

/-- Everybody who has come is in the slice or has gone, and nobody comes twice. -/
structure Account (came gone : List Conn) (s : KeyValueServer) : Prop where
  balance : (s.clients ++ gone).Perm came
  dropped : s.droppedClient = gone.length
  nodup : came.Nodup
  known : ∀ c ∈ came, c ∈ s.client

namespace Account

theorem start (store : Impl) : Account [] [] (start store) :=
  ⟨.nil, rfl, List.nodup_nil, by simp⟩

/-- Nobody comes or goes. -/
theorem frame (acc : Account came gone s) (clients : s'.clients = s.clients)
    (dropped : s'.droppedClient = s.droppedClient) (client : ∀ c ∈ s.client, c ∈ s'.client) :
    Account (came ++ []) (gone ++ []) s' := by
  rw [List.append_nil, List.append_nil]
  refine ⟨?_, dropped.trans acc.dropped, acc.nodup, fun c member => client c (acc.known c member)⟩
  rw [clients]
  exact acc.balance

/-- A new client comes into the slice. -/
theorem registers (acc : Account came gone s) (new : c ∉ s.client)
    (clients : s'.clients = s.clients ++ [c]) (dropped : s'.droppedClient = s.droppedClient)
    (client : s'.client = s.client.insert c cl) : Account (came ++ [c]) (gone ++ []) s' := by
  have fresh : c ∉ came := fun member => new (acc.known c member)
  rw [List.append_nil]
  refine ⟨?_, dropped.trans acc.dropped, ?_, ?_⟩
  · have moved : (s.clients ++ [c] ++ gone).Perm (s.clients ++ gone ++ [c]) := by
      rw [List.append_assoc, List.append_assoc]
      exact .append_left _ List.perm_append_comm
    rw [clients]
    exact moved.trans (acc.balance.append_right [c])
  · exact List.nodup_append.mpr ⟨acc.nodup, List.nodup_singleton c, by
      intro e member f last same
      rw [List.mem_singleton.mp last] at same
      exact fresh (same ▸ member)⟩
  · intro e member
    rw [client, AList.mem_insert]
    rcases List.mem_append.mp member with old | last
    · exact .inr (acc.known e old)
    · exact .inl (List.mem_singleton.mp last)

/-- A client leaves the slice. -/
theorem leaves (acc : Account came gone s) (listed : c ∈ s.clients)
    (clients : s'.clients = s.clients.erase c) (dropped : s'.droppedClient = s.droppedClient + 1)
    (client : s'.client = s.client.insert c cl) : Account (came ++ []) (gone ++ [c]) s' := by
  rw [List.append_nil]
  refine ⟨?_, ?_, acc.nodup, ?_⟩
  · have moved : (s.clients.erase c ++ (gone ++ [c])).Perm (c :: s.clients.erase c ++ gone) := by
      rw [← List.append_assoc]
      exact List.perm_append_singleton c _
    have back : (c :: s.clients.erase c ++ gone).Perm (s.clients ++ gone) :=
      (List.perm_cons_erase listed).symm.append_right gone
    rw [clients]
    exact (moved.trans back).trans acc.balance
  · rw [dropped, acc.dropped, List.length_append, List.length_singleton]
  · intro e member
    rw [client, AList.mem_insert]
    exact .inr (acc.known e member)

theorem handles (acc : Account came gone s) (reg : Registered s)
    (found : s.client.lookup c = some cl) (sends : cl.reader = .sending r)
    (after : s' = KeyValueServer.handle
      { s with client := s.client.insert c { cl with reader := cl.reader.sent } } r) :
    Account (came ++ []) (gone ++ terminates s (.meet (.reader c) .main) s') s' := by
  have taken : ∀ t, terminates s (.meet (.reader c) .main) t =
      if r.requestType = .terminate then [c] else [] := by
    intro t
    simp only [terminates, found, sends, reg.own found sends]
  have insert : ∀ e ∈ s.client, e ∈ s.client.insert c { cl with reader := .reading } :=
    fun e member => (AList.mem_insert _).mpr (.inr member)
  subst after
  refine reg.handle_cases found sends ?_ ?_ ?_
  · intro type listed
    rw [taken, if_pos type]
    exact acc.leaves listed rfl rfl rfl
  · intro type store
    rw [taken, if_neg type]
    exact acc.frame rfl rfl insert
  · intro type _ result
    rw [taken, if_neg type]
    exact acc.frame rfl rfl insert

theorem step (acc : Account came gone s) (reg : Registered s) (moves : Move s a s') :
    Account (came ++ Store.registers s a s') (gone ++ terminates s a s') s' := by
  have insert : ∀ {c cl}, ∀ e ∈ s.client, e ∈ s.client.insert c cl :=
    fun e member => (AList.mem_insert _).mpr (.inr member)
  cases moves with
  | called | polled | accepted | failed | panics | ignored | crossed | misheard | replied | tested
  | dropped | asked | answered => exact acc.frame rfl rfl fun _ member => member
  | requested | lost | took | wrote | pushed => exact acc.frame rfl rfl insert
  | heard =>
    refine acc.frame rfl rfl ?_
    intro c member
    obtain ⟨cl, found⟩ := Map.lookup_of_mem member
    have same := view_closeAll Client.reader (fun _ => rfl) s.clients s.client c
    rw [found, Option.map_some] at same
    obtain ⟨cl', found', _⟩ := Option.map_eq_some_iff.mp same
    exact Map.mem_of_lookup found'
  | @registered connection sends here =>
    have taken : ∀ t, Store.registers s (.meet .accept .main) t = [connection] := by
      intro t
      simp only [Store.registers, sends]
    rw [taken]
    exact acc.registers (reg.fresh sends) rfl rfl rfl
  | handled found sends => exact acc.handles reg found sends rfl

end Account

theorem account_run {acts : List Action} (acc : Account came gone s) (reg : Registered s)
    (reached : run step s acts = some t) :
    Account (came ++ (trace step registers s acts).flatten)
      (gone ++ (trace step terminates s acts).flatten) t := by
  induction acts generalizing s came gone with
  | nil =>
    cases Option.some.inj reached
    exact acc.frame rfl rfl fun _ member => member
  | cons a rest ih =>
    obtain ⟨u, taken, tail⟩ := run_first reached
    have moves := step_cases taken
    rw [trace_cons taken, trace_cons taken, List.flatten_cons, List.flatten_cons,
      ← List.append_assoc, ← List.append_assoc]
    exact ih (acc.step reg moves) (reg.step moves) tail

/-- In every state that the server reaches, a client is once in the slice when it has been registered
and its one `Terminate` request has not been handled, and otherwise not at all; a client that goes is
found there, and the clients in the slice and those that were dropped are as many as were
registered. -/
theorem clients_accounted (store : Impl) (acts : List Action) (s : KeyValueServer)
    (reached : run step (start store) acts = some s) :
    (trace step registers (start store) acts).flatten.Nodup ∧
    (trace step terminates (start store) acts).flatten.Nodup ∧
    (∀ c ∈ (trace step terminates (start store) acts).flatten,
      c ∈ (trace step registers (start store) acts).flatten) ∧
    (∀ c, s.clients.count c =
      if c ∈ (trace step registers (start store) acts).flatten ∧
        c ∉ (trace step terminates (start store) acts).flatten then 1 else 0) ∧
    (∀ c cl r, s.client.lookup c = some cl → cl.reader = .sending r → r.requestType = .terminate →
      (∃ indexOfClient, s.clients.findIdx? (· == r.currentClient) = some indexOfClient) ∧
      ∀ s', step s (.meet (.reader c) .main) = some s' → s'.panicked = false) ∧
    s.clients.length + s.droppedClient =
      (trace step registers (start store) acts).flatten.length := by
  have reg := registered_run reached
  have acc := account_run (Account.start store) (Registered.start store) reached
  rw [List.nil_append, List.nil_append] at acc
  have parts := List.nodup_append.mp (acc.balance.nodup_iff.mpr acc.nodup)
  refine ⟨acc.nodup, parts.2.1, ?_, ?_, ?_, ?_⟩
  · intro c member
    exact acc.balance.mem_iff.mp (List.mem_append_right _ member)
  · intro c
    have listed : c ∈ s.clients ↔ c ∈ (trace step registers (start store) acts).flatten ∧
        c ∉ (trace step terminates (start store) acts).flatten := by
      rw [← acc.balance.mem_iff, List.mem_append]
      constructor
      · intro member
        exact ⟨.inl member, fun left => parts.2.2 c member c left rfl⟩
      · rintro ⟨member | left, stays⟩
        · exact member
        · exact absurd left stays
    rw [parts.1.count]
    exact if_congr listed rfl rfl
  · intro c cl r found sends type
    have own := reg.own found sends
    have listed : r.currentClient ∈ s.clients := own ▸ reg.listed found (by simp [sends])
    refine ⟨⟨_, findIdx?_client listed⟩, ?_⟩
    intro s' taken
    have lives : s.panicked = false := by
      by_contra panicked
      simp [step, panicked] at taken
    cases step_cases taken with
    | handled found' sends' => exact (reg.handle_panicked found' sends').trans lives
  · rw [acc.dropped, ← List.length_append]
    exact acc.balance.length_eq

/-- Two clients come, and the first one goes. -/
def oneGoes : List Action :=
  connects 7 ++ connects 8 ++ [.readFails 7, .meet (.reader 7) .main]

theorem one_goes_accounted : ∃ s, run step (start ∅) oneGoes = some s ∧
    s.clients.count 7 = 0 ∧ s.clients.count 8 = 1 ∧ s.clients.length + s.droppedClient = 2 := by
  obtain ⟨s, reached⟩ : ∃ s, run step (start ∅) oneGoes = some s := ⟨_, rfl⟩
  have accounted := clients_accounted ∅ oneGoes s reached
  have counts := accounted.2.2.2.1
  exact ⟨s, reached, counts 7, counts 8, accounted.2.2.2.2.2⟩

end DistSys.Store
