import DistSys.Store.Clients
import DistSys.Store.Counts

/-! `Close`. Two goroutines look for the close signal, and nobody receives connections or requests
any more after `mainRoutine` has returned. -/
namespace DistSys.Store

open DistSys.Lib

variable {s s' t : KeyValueServer} {a : Action} {id d : Nat} {c : Conn} {cl : Client}
  {r : KvRequest} {store : Impl}

/-- `mainRoutine` has returned, and every connection in the slice is closed. -/
structure KeyValueServer.Shut (s : KeyValueServer) : Prop where
  returned : s.main = .returned
  closed : ∀ c ∈ s.clients, ∃ cl, s.client.lookup c = some cl ∧ cl.closed = true

theorem Registered.shut (reg : Registered s) (returned : s.main = .returned) : s.Shut := by
  refine ⟨returned, ?_⟩
  intro c member
  obtain ⟨cl, found, _, closed⟩ := reg.reads member
  exact ⟨cl, found, closed.mpr returned⟩

/-! ### The signal is received -/

/-- `accept` does not take the close signal. -/
def notByAccept (_ : KeyValueServer) : Action → Bool
  | .meet (.caller _) .accept => false
  | _ => true

theorem returned_step (returned : s.main = .returned) (moves : Move s a s') :
    s'.main = .returned := by
  cases moves with
  | called | polled | accepted | failed | panics | ignored | requested | lost | took | wrote
  | crossed | misheard => exact returned
  | replied here | tested here | dropped here | pushed here | asked _ here | answered here
  | heard _ here | registered _ here | handled _ _ here => cases returned.symm.trans here

/-- A `Close` call has returned exactly if `mainRoutine` has. -/
structure HeardByMain (s : KeyValueServer) : Prop where
  heard : ∀ {id}, s.callers.lookup id = some .closed → s.main = .returned
  closed : s.main = .returned → ∃ id, s.callers.lookup id = some .closed

namespace HeardByMain

theorem frame (h : HeardByMain s) (main : s'.main = .returned ↔ s.main = .returned)
    (callers : ∀ id, s'.callers.lookup id = some .closed ↔ s.callers.lookup id = some .closed) :
    HeardByMain s' := by
  constructor
  · intro id finished
    exact main.mpr (h.heard ((callers id).mp finished))
  · intro returned
    obtain ⟨id, finished⟩ := h.closed (main.mp returned)
    exact ⟨id, (callers id).mpr finished⟩

/-- A caller whose `Close` has not returned changes to another such state. -/
theorem insert_iff {caller : Caller} {m : Map Nat Caller} (before : m.lookup d ≠ some .closed)
    (after : caller ≠ .closed) (id : Nat) :
    (m.insert d caller).lookup id = some .closed ↔ m.lookup id = some .closed := by
  rw [Map.lookup_insert]
  split
  · rename_i same
    subst same
    simp [before, after]
  · rfl

theorem step (h : HeardByMain s) (ok : notByAccept s a = true) (moves : Move s a s') :
    HeardByMain s' := by
  cases moves with
  | polled | accepted | failed | panics | ignored | requested | lost | took | wrote =>
    exact h.frame Iff.rfl fun _ => Iff.rfl
  | replied here | tested here | dropped here | pushed here =>
    exact h.frame (by simp [here]) fun _ => Iff.rfl
  | registered sends here => exact h.frame Iff.rfl fun _ => Iff.rfl
  | called fresh =>
    refine h.frame Iff.rfl (insert_iff ?_ (by simp))
    intro finished
    exact fresh (Map.mem_of_lookup finished)
  | asked calls here => exact h.frame (by simp [here]) (insert_iff (by simp [calls]) (by simp))
  | answered here waits => exact h.frame (by simp [here]) (insert_iff (by simp [waits]) (by simp))
  | crossed two calls waits =>
    refine h.frame Iff.rfl fun id => ?_
    rw [insert_iff (by rw [AList.lookup_insert_ne two.symm, waits]; simp) (by simp),
      insert_iff (by simp [calls]) (by simp)]
  | misheard => cases ok
  | heard calls here => exact ⟨fun _ => rfl, fun _ => ⟨_, AList.lookup_insert _⟩⟩
  | handled found sends here =>
    refine h.frame ?_ fun id => by rw [handle_callers]
    rcases handle_main _ _ with same | ⟨result, looping⟩
    · rw [same]
    · rw [looping]
      simp [here]

end HeardByMain

theorem heardByMain_run {acts : List Action} (ok : Along step notByAccept (start store) acts)
    (reached : run step (start store) acts = some s) : HeardByMain s := by
  refine run_invariant HeardByMain (fun _ _ _ h ok taken => h.step ok (step_cases taken)) ?_ acts ok
    reached
  constructor
  · intro id finished
    cases finished
  · intro returned
    cases returned

/-! ### `mainRoutine` comes back to its `select` -/

/-- A step of `mainRoutine`, alone or with a caller. -/
def Action.ofMain (a : Action) : Prop :=
  a = .reply ∨ ∃ id, a = .meet .main (.caller id) ∨ a = .meet (.caller id) .main

/-- What `mainRoutine` has to do before it is at its `select`. -/
def MainRoutine.left : MainRoutine → Nat
  | .select | .returned => 0
  | .answering _ _ => 1
  | .range _ result => 2 * result.length + 1
  | .sending _ _ result => 2 * result.length + 2

/-- `Close` waits, and `mainRoutine` can still receive its signal. -/
structure Signalling (id : Nat) (s : KeyValueServer) : Prop where
  reg : Registered s
  room : Room s
  counts : Counts s
  lives : s.panicked = false
  calls : s.callers.lookup id = some (.calling .close)
  runs : s.main ≠ .returned

theorem reply_possible (room : Room s) (lives : s.panicked = false)
    (busy : (∃ r result, s.main = .range r result) ∨
      ∃ r message result, s.main = .sending r message result) :
    ∃ t, step s .reply = some t ∧ t.panicked = false ∧ t.callers = s.callers ∧
      t.main ≠ .returned ∧ t.main.left < s.main.left := by
  rcases busy with ⟨r, result, here⟩ | ⟨r, message, result, here⟩
  · cases result with
    | nil =>
      refine ⟨{ s with main := .select }, ?_, lives, rfl, by simp, ?_⟩
      · simp [step, lives, KeyValueServer.reply, here]
      · simp [here, MainRoutine.left]
    | cons v result =>
      obtain ⟨cl, found⟩ := Map.lookup_of_mem (room.known here)
      by_cases enough : cl.writeChan.length < KeyValueServer.capacity
      · refine ⟨{ s with main := .sending r (KeyValueServer.replyMessage r v) result }, ?_, lives,
          rfl, by simp, ?_⟩
        · simp [step, lives, KeyValueServer.reply, here, found, enough]
        · simp [here, MainRoutine.left]
          omega
      · refine ⟨{ s with main := .range r result }, ?_, lives, rfl, by simp, ?_⟩
        · simp [step, lives, KeyValueServer.reply, here, found, enough]
        · simp [here, MainRoutine.left]
  · obtain ⟨cl, found, enough⟩ := room.tested here
    refine ⟨{ s with
        main := .range r result
        client := s.client.insert r.currentClient
          { cl with writeChan := cl.writeChan ++ [message] } }, ?_, lives, rfl, by simp, ?_⟩
    · simp [step, lives, KeyValueServer.reply, here, found, enough]
    · simp [here, MainRoutine.left]

theorem answer_possible {counter : Counter} {n : Nat} (lives : s.panicked = false)
    (here : s.main = .answering counter n)
    (waits : s.callers.lookup d = some (.waiting counter)) :
    step s (.meet .main (.caller d)) =
      some { s with main := .select, callers := s.callers.insert d (.counted n) } := by
  simp only [step, lives, Bool.false_eq_true, if_false]
  refine Rendezvous.meets (m := .count counter n) (by simp) ?_ ?_
  · simp [KeyValueServer.channels, KeyValueServer.offers, here, MainRoutine.offers]
  · simp [KeyValueServer.channels, KeyValueServer.sent, KeyValueServer.receives, waits, lives]

theorem close_possible (lives : s.panicked = false) (here : s.main = .select)
    (calls : s.callers.lookup id = some (.calling .close)) :
    step s (.meet (.caller id) .main) =
      some { s with
        main := .returned
        client := KeyValueServer.closeAll s.clients s.client
        callers := s.callers.insert id .closed } := by
  simp only [step, lives, Bool.false_eq_true, if_false]
  refine Rendezvous.meets (m := .closeSignal) (by simp) ?_ ?_
  · simp [KeyValueServer.channels, KeyValueServer.offers, calls, Caller.offers, Call.signal]
  · simp [KeyValueServer.channels, KeyValueServer.sent, KeyValueServer.receives, calls, here,
      lives, Caller.sent, Call.sent, KeyValueServer.select]

theorem Signalling.goes (h : Signalling id s) (taken : step s a = some t)
    (lives : t.panicked = false) (calls : t.callers.lookup id = some (.calling .close))
    (runs : t.main ≠ .returned) : Signalling id t :=
  ⟨h.reg.step (step_cases taken), h.room.step h.reg (step_cases taken),
    h.counts.step (step_cases taken), lives, calls, runs⟩

theorem Signalling.next (h : Signalling id s) : ∃ a t, a.ofMain ∧ step s a = some t ∧
    ((t.callers.lookup id = some .closed ∧ t.Shut) ∨
      Signalling id t ∧ t.main.left < s.main.left) := by
  have replies : ((∃ r result, s.main = .range r result) ∨
      ∃ r message result, s.main = .sending r message result) → ∃ a t, a.ofMain ∧
      step s a = some t ∧ ((t.callers.lookup id = some .closed ∧ t.Shut) ∨
        Signalling id t ∧ t.main.left < s.main.left) := by
    intro busy
    obtain ⟨t, taken, lives, callers, runs, less⟩ := reply_possible h.room h.lives busy
    exact ⟨.reply, t, .inl rfl, taken, .inr ⟨h.goes taken lives (callers ▸ h.calls) runs, less⟩⟩
  cases here : s.main with
  | returned => exact absurd here h.runs
  | range r result => exact here ▸ replies (.inl ⟨r, result, here⟩)
  | sending r message result => exact here ▸ replies (.inr ⟨r, message, result, here⟩)
  | answering counter n =>
    obtain ⟨d, waits⟩ := h.counts.asker here
    have taken := answer_possible h.lives here waits
    have other : id ≠ d := by
      rintro rfl
      cases waits.symm.trans h.calls
    refine ⟨_, _, .inr ⟨d, .inl rfl⟩, taken, .inr ⟨h.goes taken h.lives ?_ (by simp), ?_⟩⟩
    · rw [AList.lookup_insert_ne other]
      exact h.calls
    · exact Nat.zero_lt_one
  | select =>
    have taken := close_possible h.lives here h.calls
    refine ⟨_, _, .inr ⟨id, .inr rfl⟩, taken, .inl ⟨AList.lookup_insert _, ?_⟩⟩
    exact (h.reg.step (step_cases taken)).shut rfl

/-! ### Who is left -/

/-- `mainRoutine` has returned, no reader is left, and `accept` has no connection. -/
structure Quiet (s : KeyValueServer) : Prop where
  reg : Registered s
  returned : s.main = .returned
  empty : s.clients = []
  idle : ∀ c, s.accept ≠ .sending c

theorem Quiet.reader (h : Quiet s) (found : s.client.lookup c = some cl) :
    cl.reader = .returned := by
  by_contra lives
  have member := h.reg.listed found lives
  rw [h.empty] at member
  cases member

/-- Neither `accept` nor a reader waits to send. -/
theorem Quiet.unblocked (h : Quiet s) :
    s.offers .accept = none ∧ ∀ c, s.offers (.reader c) = none := by
  constructor
  · cases here : s.accept with
    | sending c => exact absurd here (h.idle c)
    | select | accepting | returned => simp [KeyValueServer.offers, here, Accept.offers]
  · intro c
    cases found : s.client.lookup c with
    | none => simp [KeyValueServer.offers, found]
    | some cl => simp [KeyValueServer.offers, found, h.reader found, ReadRoutine.offers]

theorem Quiet.step (h : Quiet s) (none : ∀ c, a ≠ .accepted c) (moves : Move s a s') :
    Quiet s' := by
  have reg := h.reg.step moves
  have returned := returned_step h.returned moves
  cases moves with
  | called | panics | ignored | requested | lost | took | wrote | crossed =>
    exact ⟨reg, returned, h.empty, h.idle⟩
  | polled | failed | misheard => exact ⟨reg, returned, h.empty, by simp⟩
  | accepted => exact absurd rfl (none _)
  | replied here | tested here | dropped here | pushed here | asked _ here | answered here
  | heard _ here | registered _ here | handled _ _ here => cases h.returned.symm.trans here

/-- If `accept` does not take the signal of the one `Close`, then `mainRoutine` can receive it at any
time, and when `Close` has returned every connection in the slice is closed. Nobody is left at a
channel if there is no client by then and none connects any more. -/
theorem close_shuts_down (store : Impl) (acts : List Action) (s : KeyValueServer) (id : Nat)
    (reached : run step (start store) acts = some s)
    (missed : Along step notByAccept (start store) acts)
    (one : ∀ d, s.callers.lookup d = some (.calling .close) ∨ s.callers.lookup d = some .closed →
      d = id) :
    (s.callers.lookup id = some (.calling .close) → s.panicked = false →
      ∃ more t, (∀ a ∈ more, a.ofMain) ∧ run step s more = some t ∧
        t.callers.lookup id = some .closed ∧ t.Shut) ∧
    (s.callers.lookup id = some .closed → s.Shut) ∧
    (s.main = .returned → s.clients = [] → (∀ c, s.accept ≠ .sending c) →
      ∀ more t, (∀ a ∈ more, ∀ c, a ≠ .accepted c) → run step s more = some t →
        t.offers .accept = none ∧ ∀ c, t.offers (.reader c) = none) := by
  have reg := registered_run reached
  have heard := heardByMain_run missed reached
  refine ⟨?_, ?_, ?_⟩
  · intro calls lives
    have runs : s.main ≠ .returned := by
      intro returned
      obtain ⟨d, finished⟩ := heard.closed returned
      cases one d (.inr finished)
      cases finished.symm.trans calls
    have start : Signalling id s :=
      ⟨reg, room_run reached, counts_run reached, lives, calls, runs⟩
    exact run_progress Action.ofMain (Signalling id)
      (fun t => t.callers.lookup id = some .closed ∧ t.Shut) (fun t => t.main.left)
      (fun _ h => h.next) start
  · intro finished
    exact reg.shut (heard.heard finished)
  · intro returned empty idle more t none later
    have quiet := run_allowed _ Quiet (fun _ _ _ h none taken => h.step none (step_cases taken))
      ⟨reg, returned, empty, idle⟩ more none later
    exact quiet.unblocked

/-- A server without clients is closed while `accept` waits for a connection. -/
def closedInTime : List Action := [.poll, .call 0 .close, .meet (.caller 0) .main]

theorem empty_server_shuts_down : ∃ s t,
    run step (start ∅) (closedInTime.take 2) = some s ∧
    run step (start ∅) closedInTime = some t ∧
    (∃ more u, (∀ a ∈ more, a.ofMain) ∧ run step s more = some u ∧
      u.callers.lookup 0 = some .closed ∧ u.Shut) ∧ t.Shut ∧
    t.offers .accept = none ∧ ∀ c, t.offers (.reader c) = none := by
  have one : ∀ (caller : Caller) (d : Nat),
      ((∅ : Map Nat Caller).insert 0 caller).lookup d = some (.calling .close) ∨
        ((∅ : Map Nat Caller).insert 0 caller).lookup d = some .closed → d = 0 := by
    intro caller d called
    rw [Map.lookup_insert] at called
    split at called
    · rename_i same
      exact same
    · rcases called with called | called <;> cases called
  have waits := close_shuts_down ∅ (closedInTime.take 2) _ 0 rfl (by decide) (one _)
  have shut := close_shuts_down ∅ closedInTime _ 0 rfl (by decide) (one _)
  exact ⟨_, _, rfl, rfl, waits.1 rfl rfl, shut.2.1 rfl,
    shut.2.2 rfl rfl (by intro c sends; cases sends) [] _ (by simp) rfl⟩

/-! ### What goes wrong -/

/-- `mainRoutine` has returned and the reader has a request. -/
structure ReaderBlocked (c : Conn) (s : KeyValueServer) : Prop where
  returned : s.main = .returned
  sends : ∃ cl r, s.client.lookup c = some cl ∧ cl.reader = .sending r

theorem ReaderBlocked.step (h : ReaderBlocked c s) (moves : Move s a s') : ReaderBlocked c s' := by
  have returned := returned_step h.returned moves
  obtain ⟨cl, r, found, sends⟩ := h.sends
  -- a step of another goroutine of any client leaves a reader that sends where it is
  have stays : ∀ {d : Conn} {before after : Client}, s.client.lookup d = some before →
      (∀ r, before.reader = .sending r → after.reader = .sending r) →
      ∃ cl r, (s.client.insert d after).lookup c = some cl ∧ cl.reader = .sending r := by
    intro d before after there keeps
    rw [Map.lookup_insert]
    split
    · rename_i same
      subst same
      cases Option.some.inj (found.symm.trans there)
      exact ⟨after, r, rfl, keeps r sends⟩
    · exact ⟨cl, r, found, sends⟩
  cases moves with
  | called | polled | accepted | failed | panics | ignored | crossed | misheard =>
    exact ⟨returned, cl, r, found, sends⟩
  | requested there here | lost there here =>
    exact ⟨returned, stays there (by simp [here])⟩
  | took there | wrote there => exact ⟨returned, stays there fun _ sends => sends⟩
  | replied here | tested here | dropped here | pushed here | asked _ here | answered here
  | heard _ here | registered _ here | handled _ _ here => cases h.returned.symm.trans here

theorem ReaderBlocked.forever (h : ReaderBlocked c s) :
    KeyValueServer.channels.BlockedForever Store.step s (.reader c) := by
  refine Rendezvous.blockedForever_of_keeps (ReaderBlocked c)
    (fun _ _ _ h taken => h.step (step_cases taken)) ?_ h
  rintro t ⟨_, cl, r, found, sends⟩
  simp [KeyValueServer.channels, KeyValueServer.offers, found, sends, ReadRoutine.offers]

/-- `mainRoutine` has returned and `accept` has a connection. -/
structure AcceptBlocked (s : KeyValueServer) : Prop where
  returned : s.main = .returned
  sends : ∃ c, s.accept = .sending c

theorem AcceptBlocked.step (h : AcceptBlocked s) (moves : Move s a s') : AcceptBlocked s' := by
  have returned := returned_step h.returned moves
  obtain ⟨c, sends⟩ := h.sends
  cases moves with
  | called | panics | ignored | requested | lost | took | wrote | crossed =>
    exact ⟨returned, c, sends⟩
  | polled here | accepted here | failed here | misheard _ here => cases sends.symm.trans here
  | replied here | tested here | dropped here | pushed here | asked _ here | answered here
  | heard _ here | registered _ here | handled _ _ here => cases h.returned.symm.trans here

theorem AcceptBlocked.forever (h : AcceptBlocked s) :
    KeyValueServer.channels.BlockedForever Store.step s .accept := by
  refine Rendezvous.blockedForever_of_keeps AcceptBlocked
    (fun _ _ _ h taken => h.step (step_cases taken)) ?_ h
  rintro t ⟨_, c, sends⟩
  simp [KeyValueServer.channels, KeyValueServer.offers, sends, Accept.offers]

/-- Nobody closes the server, and it has not returned. -/
structure Unclosed (s : KeyValueServer) : Prop where
  runs : s.main ≠ .returned
  nobody : ∀ id, s.callers.lookup id ≠ some (.calling .close)

theorem uncalled_insert {m : Map Nat Caller} {caller : Caller}
    (nobody : ∀ id, m.lookup id ≠ some (.calling .close)) (other : caller ≠ .calling .close)
    (d id : Nat) : (m.insert d caller).lookup id ≠ some (.calling .close) := by
  rw [Map.lookup_insert]
  split
  · simpa using other
  · exact nobody id

theorem Unclosed.step (h : Unclosed s) (none : ∀ id, a ≠ .call id .close) (moves : Move s a s') :
    Unclosed s' := by
  cases moves with
  | polled | accepted | failed | panics | ignored | requested | lost | took | wrote | registered =>
    exact ⟨h.runs, h.nobody⟩
  | replied | tested | dropped | pushed => exact ⟨by simp, h.nobody⟩
  | called fresh =>
    rename_i id call
    refine ⟨h.runs, uncalled_insert h.nobody ?_ id⟩
    intro same
    cases same
    exact none id rfl
  | asked | answered => exact ⟨by simp, uncalled_insert h.nobody (by simp) _⟩
  | crossed =>
    exact ⟨h.runs, uncalled_insert (uncalled_insert h.nobody (by simp) _) (by simp) _⟩
  | heard calls | misheard calls => exact absurd calls (h.nobody _)
  | handled found sends here =>
    refine ⟨?_, by rw [handle_callers]; exact h.nobody⟩
    rcases handle_main _ _ with same | ⟨result, looping⟩
    · rw [same]
      exact h.runs
    · simp [looping]

/-- One client is connected. If `accept` takes the signal then `Close` returns, the connection is
open and `mainRoutine` never returns. If `mainRoutine` takes it then the reader of the client waits
for it forever, and so does `accept` with the next connection. -/
theorem close_goes_wrong :
    (∃ s cl, run step (start ∅) (connects 7 ++ [.call 0 .close, .meet (.caller 0) .accept]) = some s ∧
      s.callers.lookup 0 = some .closed ∧ s.clients = [7] ∧ s.client.lookup 7 = some cl ∧
      cl.closed = false ∧
      ∀ more t, (∀ a ∈ more, ∀ id, a ≠ .call id .close) → run step s more = some t →
        t.main ≠ .returned) ∧
    ∃ s, run step (start ∅) (connects 7 ++ [.poll, .call 0 .close, .meet (.caller 0) .main,
        .readFails 7, .accepted 8]) = some s ∧
      s.Shut ∧ KeyValueServer.channels.BlockedForever step s (.reader 7) ∧
      KeyValueServer.channels.BlockedForever step s .accept := by
  constructor
  · have reached : ∃ s cl,
        run step (start ∅) (connects 7 ++ [.call 0 .close, .meet (.caller 0) .accept]) = some s ∧
        s.callers = AList.insert 0 .closed ∅ ∧ s.clients = [7] ∧ s.client.lookup 7 = some cl ∧
        cl.closed = false ∧ s.main = .select := ⟨_, _, rfl, rfl, rfl, rfl, rfl, rfl⟩
    obtain ⟨s, cl, reached, callers, clients, found, isOpen, here⟩ := reached
    refine ⟨s, cl, reached, callers ▸ AList.lookup_insert _, clients, found, isOpen, ?_⟩
    intro more t none later
    have start : Unclosed s := ⟨by simp [here], callers ▸ uncalled_insert (by simp) (by simp) 0⟩
    have unclosed := run_allowed _ Unclosed
      (fun _ _ _ h none taken => h.step none (step_cases taken)) start more none later
    exact unclosed.runs
  · refine ⟨_, rfl, ⟨rfl, ?_⟩, ReaderBlocked.forever ⟨rfl, _, _, rfl, rfl⟩,
      AcceptBlocked.forever ⟨rfl, _, rfl⟩⟩
    intro c member
    rw [List.mem_singleton.mp member]
    exact ⟨_, rfl, rfl⟩

end DistSys.Store
