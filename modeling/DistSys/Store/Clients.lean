import DistSys.Store.Server

/-! The clients of the server: who is in the slice, which readers are still there, and that there is
room in a buffer when `mainRoutine` sends to it. -/
namespace DistSys.Store

open DistSys.Lib

variable {s s' : KeyValueServer} {a : Action} {c d : Conn} {cl cl' : Client} {r : KvRequest}
  {store : Impl}

/-! ### Requests -/

/-- A request that does not end a connection changes the store, or starts the loop of a `Get`. -/
theorem handle_lives (s : KeyValueServer) (lives : r.requestType ≠ .terminate) :
    (∃ store, s.handle r = { s with store := store }) ∨
      ∃ result, s.handle r = { s with main := .range r result } := by
  unfold KeyValueServer.handle
  cases type : r.requestType with
  | put | delete | update => exact .inl ⟨_, rfl⟩
  | get => exact .inr ⟨_, rfl⟩
  | terminate => exact absurd type lives

/-- The search of the slice finds a client that is there. -/
theorem findIdx?_client (listed : c ∈ s.clients) :
    s.clients.findIdx? (· == c) = some (s.clients.idxOf c) :=
  List.findIdx?_eq_some_iff_findIdx_eq.mpr ⟨List.idxOf_lt_length_of_mem listed, rfl⟩

/-- The reader of a client has said that it is gone, and the client is found in the slice. -/
theorem handle_gone (gone : r.requestType = .terminate) (listed : r.currentClient ∈ s.clients)
    (cl : Client) :
    KeyValueServer.handle { s with client := s.client.insert r.currentClient cl } r = { s with
      droppedClient := s.droppedClient + 1
      client := s.client.insert r.currentClient { cl with closed := true }
      clients := s.clients.erase r.currentClient } := by
  simp only [KeyValueServer.handle, gone, KeyValueServer.terminate, findIdx?_client listed,
    AList.lookup_insert, AList.insert_insert, List.eraseIdx_idxOf_eq_erase]

/-! ### Closing all connections -/

/-- Open connections without repetition are all closed, and nothing else is changed. -/
theorem closeAll_lookup {cs : List Conn} {m : Map Conn Client} (nodup : cs.Nodup)
    (still : ∀ c ∈ cs, ∃ cl, m.lookup c = some cl ∧ cl.closed = false) (d : Conn) :
    (KeyValueServer.closeAll cs m).lookup d =
      if d ∈ cs then (m.lookup d).map fun cl => { cl with closed := true } else m.lookup d := by
  induction cs generalizing m with
  | nil => simp [KeyValueServer.closeAll]
  | cons c rest ih =>
    obtain ⟨new, nodup⟩ := List.nodup_cons.mp nodup
    obtain ⟨cl, found, isOpen⟩ := still c List.mem_cons_self
    have stillRest : ∀ e ∈ rest, ∃ cl',
        (m.insert c { cl with closed := true }).lookup e = some cl' ∧ cl'.closed = false := by
      intro e member
      have other : e ≠ c := fun same => new (same ▸ member)
      rw [AList.lookup_insert_ne other]
      exact still e (List.mem_cons_of_mem c member)
    have turn : KeyValueServer.closeAll (c :: rest) m =
        KeyValueServer.closeAll rest (m.insert c { cl with closed := true }) := by
      simp [KeyValueServer.closeAll, found, isOpen]
    rw [turn, ih nodup stillRest, Map.lookup_insert]
    by_cases same : d = c
    · subst same
      simp [new, found]
    · simp [same]

/-! ### The slice and the readers -/

/-- The clients in the slice are those whose reader has not returned. Their connections are open
until `mainRoutine` returns. -/
structure Registered (s : KeyValueServer) : Prop where
  nodup : s.clients.Nodup
  reads : ∀ {c}, c ∈ s.clients → ∃ cl, s.client.lookup c = some cl ∧ cl.reader ≠ .returned ∧
    (cl.closed = true ↔ s.main = .returned)
  listed : ∀ {c cl}, s.client.lookup c = some cl → cl.reader ≠ .returned → c ∈ s.clients
  own : ∀ {c cl r}, s.client.lookup c = some cl → cl.reader = .sending r → r.currentClient = c
  fresh : ∀ {c}, s.accept = .sending c → c ∉ s.client

namespace Registered

theorem start (store : Impl) : Registered (start store) := by
  constructor
  · exact List.nodup_nil
  · intro c member
    cases member
  · intro c cl found
    cases found
  · intro c cl r found
    cases found
  · intro c sends
    cases sends

section

variable (reg : Registered s)
include reg

/-- The clients are the same, and `accept` has no new connection. -/
theorem frame (clients : s'.clients = s.clients) (client : s'.client = s.client)
    (main : s'.main = .returned ↔ s.main = .returned)
    (fresh : ∀ {c}, s'.accept = .sending c → c ∉ s.client) : Registered s' := by
  constructor
  · rw [clients]
    exact reg.nodup
  · intro c member
    rw [clients] at member
    rw [client, main]
    exact reg.reads member
  · intro c cl found lives
    rw [client] at found
    rw [clients]
    exact reg.listed found lives
  · intro c cl r found sends
    rw [client] at found
    exact reg.own found sends
  · intro c sends
    rw [client]
    exact fresh sends

/-- A connection that `accept` offers is not among the clients, whatever becomes of one of them. -/
theorem fresh_insert (found : s.client.lookup c = some cl) {e : Conn}
    (sends : s.accept = .sending e) : e ∉ s.client.insert c cl' := by
  intro member
  rcases (AList.mem_insert _).mp member with same | old
  · subst same
    exact reg.fresh sends (Map.mem_of_lookup found)
  · exact reg.fresh sends old

/-- One client goes on; it is neither closed nor does its reader return. -/
theorem touch (found : s.client.lookup c = some cl) (closed : cl'.closed = cl.closed)
    (ends : cl'.reader = .returned ↔ cl.reader = .returned)
    (own : ∀ {r}, cl'.reader = .sending r → r.currentClient = c) :
    Registered { s with client := s.client.insert c cl' } := by
  constructor
  · exact reg.nodup
  · intro e member
    have before := reg.reads member
    rw [Map.lookup_insert]
    split
    · rename_i same
      subst same
      obtain ⟨known, there, lives, ended⟩ := before
      cases Option.some.inj (found.symm.trans there)
      exact ⟨cl', rfl, fun finished => lives (ends.mp finished), closed ▸ ended⟩
    · exact before
  · intro e known there lives
    rw [Map.lookup_insert] at there
    split at there
    · rename_i same
      subst same
      cases there
      exact reg.listed found fun finished => lives (ends.mpr finished)
    · exact reg.listed there lives
  · intro e known r there sends
    rw [Map.lookup_insert] at there
    split at there
    · rename_i same
      subst same
      cases there
      exact own sends
    · exact reg.own there sends
  · intro e sends
    exact reg.fresh_insert found sends

/-- A new connection comes into the slice. -/
theorem registers (sends : s.accept = .sending c) (here : s.main = .select) :
    Registered { s with
      accept := .select, clients := s.clients ++ [c], client := s.client.insert c {} } := by
  have new := reg.fresh sends
  have unlisted : c ∉ s.clients := by
    intro member
    obtain ⟨cl, found, _⟩ := reg.reads member
    exact new (Map.mem_of_lookup found)
  constructor
  · exact List.nodup_append.mpr ⟨reg.nodup, List.nodup_singleton c, by
      intro e member f same
      rw [List.mem_singleton.mp same]
      exact fun equal => unlisted (equal ▸ member)⟩
  · intro e member
    rw [Map.lookup_insert]
    split
    · exact ⟨{}, rfl, by simp, by simp [here]⟩
    · rename_i other
      rcases List.mem_append.mp member with old | last
      · exact reg.reads old
      · exact absurd (List.mem_singleton.mp last) other
  · intro e known there lives
    rw [Map.lookup_insert] at there
    split at there
    · rename_i same
      exact List.mem_append_right _ (List.mem_singleton.mpr same)
    · exact List.mem_append_left _ (reg.listed there lives)
  · intro e known r there sends
    rw [Map.lookup_insert] at there
    split at there
    · cases there
      cases sends
    · exact reg.own there sends
  · intro e sends
    cases sends

/-- A client whose reader has said that it is gone is closed and leaves the slice. -/
theorem leaves (found : s.client.lookup c = some cl) (ended : cl'.reader = .returned)
    (dropped : Nat) :
    Registered { s with
      droppedClient := dropped, clients := s.clients.erase c
      client := s.client.insert c cl' } := by
  have mem_erase : ∀ {e}, e ∈ s.clients.erase c ↔ e ≠ c ∧ e ∈ s.clients :=
    reg.nodup.mem_erase_iff
  constructor
  · exact reg.nodup.erase c
  · intro e member
    obtain ⟨other, member⟩ := mem_erase.mp member
    rw [AList.lookup_insert_ne other]
    exact reg.reads member
  · intro e known there lives
    rw [Map.lookup_insert] at there
    split at there
    · cases there
      exact absurd ended lives
    · rename_i other
      exact mem_erase.mpr ⟨other, reg.listed there lives⟩
  · intro e known r there sends
    rw [Map.lookup_insert] at there
    split at there
    · cases there
      cases ended.symm.trans sends
    · exact reg.own there sends
  · intro e sends
    exact reg.fresh_insert found sends

/-- `mainRoutine` has received the close signal. -/
theorem closes (here : s.main = .select) (callers : Map Nat Caller) :
    Registered { s with
      main := .returned, client := KeyValueServer.closeAll s.clients s.client
      callers := callers } := by
  have still : ∀ c ∈ s.clients, ∃ cl, s.client.lookup c = some cl ∧ cl.closed = false := by
    intro c member
    obtain ⟨cl, found, _, ended⟩ := reg.reads member
    exact ⟨cl, found, by simpa [here] using ended⟩
  have closed := closeAll_lookup reg.nodup still
  have before : ∀ {e known}, (KeyValueServer.closeAll s.clients s.client).lookup e = some known →
      ∃ cl, s.client.lookup e = some cl ∧ known.reader = cl.reader := by
    intro e known there
    rw [closed] at there
    split at there
    · obtain ⟨cl, found, rfl⟩ := Option.map_eq_some_iff.mp there
      exact ⟨cl, found, rfl⟩
    · exact ⟨known, there, rfl⟩
  constructor
  · exact reg.nodup
  · intro c member
    obtain ⟨cl, found, lives, _⟩ := reg.reads member
    refine ⟨{ cl with closed := true }, ?_, lives, by simp⟩
    rw [closed, if_pos member, found]
    rfl
  · intro e known there lives
    obtain ⟨cl, found, same⟩ := before there
    exact reg.listed found (same ▸ lives)
  · intro e known r there sends
    obtain ⟨cl, found, same⟩ := before there
    exact reg.own found (same ▸ sends)
  · intro e sends member
    obtain ⟨known, there⟩ := Map.lookup_of_mem member
    obtain ⟨cl, found, _⟩ := before there
    exact reg.fresh sends (Map.mem_of_lookup found)

/-- What a handled request makes of the server: its client leaves the slice, or its reader goes on
and the store changes or the loop of a `Get` starts. -/
@[elab_as_elim]
theorem handle_cases {motive : KeyValueServer → Prop}
    (found : s.client.lookup c = some cl) (sends : cl.reader = .sending r)
    (gone : r.requestType = .terminate → c ∈ s.clients → motive { s with
      droppedClient := s.droppedClient + 1
      client := s.client.insert c { cl with reader := .returned, closed := true }
      clients := s.clients.erase c })
    (stored : r.requestType ≠ .terminate → ∀ store, motive { s with
      client := s.client.insert c { cl with reader := .reading }, store := store })
    (got : r.requestType ≠ .terminate → r.currentClient = c → ∀ result, motive { s with
      client := s.client.insert c { cl with reader := .reading }, main := .range r result }) :
    motive (KeyValueServer.handle
      { s with client := s.client.insert c { cl with reader := cl.reader.sent } } r) := by
  have own := reg.own found sends
  subst own
  by_cases type : r.requestType = .terminate
  · have listed : r.currentClient ∈ s.clients := reg.listed found (by simp [sends])
    have ended : cl.reader.sent = .returned := by simp [sends, ReadRoutine.sent, type]
    rw [ended, handle_gone type listed]
    exact gone type listed
  · have reads : cl.reader.sent = .reading := by simp [sends, ReadRoutine.sent, type]
    rw [reads]
    rcases handle_lives _ type with ⟨store, after⟩ | ⟨result, after⟩
    · rw [after]
      exact stored type store
    · rw [after]
      exact got type rfl result

/-- A request is handled, and its reader goes on or returns. -/
theorem handles (found : s.client.lookup c = some cl) (sends : cl.reader = .sending r)
    (here : s.main = .select) :
    Registered (KeyValueServer.handle
      { s with client := s.client.insert c { cl with reader := cl.reader.sent } } r) := by
  have goes : Registered { s with client := s.client.insert c { cl with reader := .reading } } :=
    reg.touch found rfl (by simp [sends]) (by simp)
  refine reg.handle_cases found sends ?_ ?_ ?_
  · intro _ _
    exact reg.leaves found rfl _
  · intro _ store
    exact goes.frame rfl rfl Iff.rfl goes.fresh
  · intro _ _ result
    exact goes.frame rfl rfl (by simp [here]) goes.fresh

/-- No request makes the process panic: a client that goes is found in the slice. -/
theorem handle_panicked (found : s.client.lookup c = some cl) (sends : cl.reader = .sending r) :
    (KeyValueServer.handle
      { s with client := s.client.insert c { cl with reader := cl.reader.sent } } r).panicked =
        s.panicked :=
  reg.handle_cases found sends (fun _ _ => rfl) (fun _ _ => rfl) (fun _ _ _ => rfl)

theorem step (moves : Move s a s') : Registered s' := by
  cases moves with
  | called | panics | ignored | crossed => exact reg.frame rfl rfl Iff.rfl reg.fresh
  | polled | failed | misheard => exact reg.frame rfl rfl Iff.rfl (by simp)
  | accepted here fresh =>
    refine reg.frame rfl rfl Iff.rfl ?_
    intro c sends
    cases sends
    exact fresh
  | requested found here own | lost found here own =>
    refine reg.touch found rfl (by simp [here]) ?_
    intro r sends
    cases sends
    exact own
  | took found | wrote found => exact reg.touch found rfl Iff.rfl fun sends => reg.own found sends
  | replied here | tested here | dropped here | asked _ here | answered here =>
    exact reg.frame rfl rfl (by simp [here]) reg.fresh
  | pushed here found room =>
    rename_i r message result cl
    have touched : Registered { s with
        client := s.client.insert r.currentClient
          { cl with writeChan := cl.writeChan ++ [message] } } :=
      reg.touch found rfl Iff.rfl fun sends => reg.own found sends
    exact touched.frame rfl rfl (by simp [here]) touched.fresh
  | heard calls here => exact reg.closes here _
  | registered sends here => exact reg.registers sends here
  | handled found sends here => exact reg.handles found sends here

end

end Registered

theorem registered_run {acts : List Action} (reached : run step (start store) acts = some s) :
    Registered s :=
  run_keeps Registered (fun _ _ _ reg taken => reg.step (step_cases taken)) (Registered.start store)
    acts reached

/-- What every step keeps, of a server whose clients are registered. -/
theorem run_registered (inv : KeyValueServer → Prop)
    (keeps : ∀ {s a s'}, inv s → Registered s → Move s a s' → inv s') (begins : inv (start store))
    {acts : List Action} (reached : run step (start store) acts = some s) : inv s := by
  have both := run_keeps (fun s => inv s ∧ Registered s)
    (fun _ _ _ h taken => ⟨keeps h.1 h.2 (step_cases taken), h.2.step (step_cases taken)⟩)
    ⟨begins, Registered.start store⟩ acts reached
  exact both.1

/-! ### Room for a reply -/

/-- `mainRoutine` is the only sender to the buffers, so that there is still room when it sends. -/
structure Room (s : KeyValueServer) : Prop where
  known : ∀ {r result}, s.main = .range r result → r.currentClient ∈ s.client
  tested : ∀ {r message result}, s.main = .sending r message result →
    ∃ cl, s.client.lookup r.currentClient = some cl ∧
      cl.writeChan.length < KeyValueServer.capacity

namespace Room

theorem start (store : Impl) : Room (start store) := by
  constructor
  · intro r result looping
    cases looping
  · intro r message result sends
    cases sends

/-- `mainRoutine` is not in the loop of a `Get`. -/
theorem of_outside (range : ∀ r result, s.main ≠ .range r result)
    (sending : ∀ r message result, s.main ≠ .sending r message result) : Room s :=
  ⟨fun looping => absurd looping (range _ _), fun sends => absurd sends (sending _ _ _)⟩

theorem frame (has : Room s) (main : s'.main = s.main) (client : s'.client = s.client) : Room s' := by
  constructor
  · intro r result looping
    rw [client]
    exact has.known (main ▸ looping)
  · intro r message result sends
    rw [client]
    exact has.tested (main ▸ sends)

/-- The buffer of one client gets no longer. -/
theorem touch (has : Room s) (found : s.client.lookup c = some cl)
    (less : cl'.writeChan.length ≤ cl.writeChan.length) :
    Room { s with client := s.client.insert c cl' } := by
  constructor
  · intro r result looping
    exact (AList.mem_insert _).mpr (.inr (has.known looping))
  · intro r message result sends
    obtain ⟨known, there, room⟩ := has.tested sends
    rw [Map.lookup_insert]
    split
    · rename_i same
      subst same
      cases Option.some.inj (found.symm.trans there)
      exact ⟨cl', rfl, Nat.lt_of_le_of_lt less room⟩
    · exact ⟨known, there, room⟩

theorem step (has : Room s) (reg : Registered s) (moves : Move s a s') : Room s' := by
  cases moves with
  | called | polled | accepted | failed | panics | ignored | crossed | misheard =>
    exact has.frame rfl rfl
  | requested found | lost found | wrote found => exact has.touch found (Nat.le_refl _)
  | took found free buffered => exact has.touch found (by simp [buffered])
  | replied | asked | answered | heard => exact of_outside (by simp) (by simp)
  | registered sends here => exact of_outside (by simp [here]) (by simp [here])
  | tested here found room =>
    constructor
    · intro r result looping
      cases looping
    · intro r message result sends
      cases sends
      exact ⟨_, found, room⟩
  | dropped here found full =>
    constructor
    · intro r result looping
      cases looping
      exact has.known here
    · intro r message result sends
      cases sends
  | pushed here found room =>
    constructor
    · intro r result looping
      cases looping
      exact (AList.mem_insert _).mpr (.inl rfl)
    · intro r message result sends
      cases sends
  | handled found sends here =>
    refine reg.handle_cases found sends ?_ ?_ ?_
    · intro _ _
      exact of_outside (by simp [here]) (by simp [here])
    · intro _ store
      exact of_outside (by simp [here]) (by simp [here])
    · intro _ own result
      constructor
      · intro r' result' looping
        cases looping
        exact (AList.mem_insert _).mpr (.inl own)
      · intro r' message result' sends
        cases sends

end Room

theorem room_run {acts : List Action} (reached : run step (start store) acts = some s) : Room s :=
  run_registered Room Room.step (Room.start store) reached

end DistSys.Store
