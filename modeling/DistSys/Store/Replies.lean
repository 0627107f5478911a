import DistSys.Store.Closing

/-! The lines of the `Get` requests of a client on their way to its connection: `mainRoutine` does not
wait for a slow client, the lines stay in order, and a line is lost only when the buffer is full. -/
namespace DistSys.Store

open DistSys.Lib

variable {s s' t : KeyValueServer} {a : Action} {c d : Conn} {cl cl' : Client} {r : KvRequest}
  {store : Impl}

/-! ### Lines -/

/-- The lines that a step produces for a client: `mainRoutine` takes a `Get` from its reader. -/
def produced (d : Conn) (s : KeyValueServer) (a : Action) (_ : KeyValueServer) : List Bytes :=
  match a with
  | .meet (.reader c) .main => match s.client.lookup c with
    | some cl => match cl.reader with
      | .sending r =>
        if c = d ∧ r.requestType = .get then
          (s.store.get r.key).map (KeyValueServer.replyMessage r)
        else []
      | _ => []
    | none => []
  | _ => []

/-- The line that a step drops: the loop of a `Get` goes past it without sending it. -/
def dropped (d : Conn) (s : KeyValueServer) (a : Action) (s' : KeyValueServer) : List Bytes :=
  match a, s.main, s'.main with
  | .reply, .range r (v :: _), .range _ _ =>
    if r.currentClient = d then [KeyValueServer.replyMessage r v] else []
  | _, _, _ => []

/-- What has come as far as the buffer, the earliest line first. -/
def Client.lines (cl : Client) : List Bytes := cl.written ++ cl.writing.toList ++ cl.writeChan

/-- What the loop of a `Get` has still to send. -/
def MainRoutine.lines (d : Conn) : MainRoutine → List Bytes
  | .range r result =>
    if r.currentClient = d then result.map (KeyValueServer.replyMessage r) else []
  | .sending r message result =>
    if r.currentClient = d then message :: result.map (KeyValueServer.replyMessage r) else []
  | .select | .answering _ _ | .returned => []

namespace KeyValueServer

def written (s : KeyValueServer) (d : Conn) : List Bytes :=
  match s.client.lookup d with
  | some cl => cl.written
  | none => []

def buffered (s : KeyValueServer) (d : Conn) : List Bytes :=
  match s.client.lookup d with
  | some cl => cl.lines
  | none => []

/-- The lines of a client that have not been dropped. -/
def lines (s : KeyValueServer) (d : Conn) : List Bytes := s.buffered d ++ s.main.lines d

end KeyValueServer

theorem buffered_of (found : s.client.lookup d = some cl) : s.buffered d = cl.lines := by
  simp only [KeyValueServer.buffered, found]

theorem buffered_insert (client : s'.client = s.client.insert c cl') :
    s'.buffered d = if d = c then cl'.lines else s.buffered d := by
  rw [KeyValueServer.buffered, client, Map.lookup_insert]
  by_cases here : d = c
  · rw [if_pos here, if_pos here]
  · rw [if_neg here, if_neg here]
    rfl

/-- One client goes on, with the same lines. -/
theorem buffered_touch (found : s.client.lookup c = some cl)
    (client : s'.client = s.client.insert c cl') (same : cl'.lines = cl.lines) : s'.buffered d = s.buffered d := by
  rw [buffered_insert client]
  split
  · rename_i here
    subst here
    rw [same, buffered_of found]
  · rfl

/-- Closing the connections changes nothing else of a client. -/
theorem view_closeAll {O : Type} (view : Client → O)
    (same : ∀ cl : Client, view { cl with closed := true } = view cl) (cs : List Conn)
    (m : Map Conn Client) (d : Conn) :
    ((KeyValueServer.closeAll cs m).lookup d).map view = (m.lookup d).map view := by
  induction cs generalizing m with
  | nil => rfl
  | cons c rest ih =>
    rw [KeyValueServer.closeAll]
    split
    · rfl
    · rename_i cl found
      split
      · rfl
      · rw [ih, Map.lookup_insert]
        split
        · rename_i here
          subst here
          rw [found, Option.map_some, Option.map_some, same]
        · rfl

theorem buffered_congr
    (same : (s'.client.lookup d).map Client.lines = (s.client.lookup d).map Client.lines) :
    s'.buffered d = s.buffered d := by
  have read : ∀ s : KeyValueServer,
      s.buffered d = ((s.client.lookup d).map Client.lines).getD [] := by
    intro s
    unfold KeyValueServer.buffered
    cases s.client.lookup d <;> rfl
  rw [read, read, same]

theorem written_sublist (s : KeyValueServer) (d : Conn) : (s.written d).Sublist (s.lines d) := by
  rw [KeyValueServer.written, KeyValueServer.lines, KeyValueServer.buffered]
  cases s.client.lookup d with
  | none => exact List.nil_sublist _
  | some cl =>
    simp only [Client.lines, List.append_assoc]
    exact List.sublist_append_left _ _

/-! ### What becomes of the lines -/

/-- From one state to a later one `made` lines are produced and `lost` lines are dropped. -/
structure Passed (d : Conn) (s : KeyValueServer) (made lost : List Bytes) (t : KeyValueServer) :
    Prop where
  order : (t.lines d).Sublist (s.lines d ++ made)
  all : (s.lines d ++ made).Perm (t.lines d ++ lost)

namespace Passed

theorem still (same : t.lines d = s.lines d) : Passed d s [] [] t := by
  constructor
  · rw [same, List.append_nil]
  · rw [same]

theorem trans {u : KeyValueServer} {made made' lost lost' : List Bytes}
    (first : Passed d s made lost u) (second : Passed d u made' lost' t) :
    Passed d s (made ++ made') (lost ++ lost') t where
  order := by
    rw [← List.append_assoc]
    exact second.order.trans (first.order.append_right made')
  all := by
    have late : (lost ++ made').Perm (made' ++ lost) := List.perm_append_comm
    have early : (lost' ++ lost).Perm (lost ++ lost') := List.perm_append_comm
    calc (s.lines d ++ (made ++ made')).Perm ((s.lines d ++ made) ++ made') := by
          rw [List.append_assoc]
      _ |>.Perm ((u.lines d ++ lost) ++ made') := first.all.append_right made'
      _ |>.Perm ((u.lines d ++ made') ++ lost) := by
        simpa only [List.append_assoc] using late.append_left (u.lines d)
      _ |>.Perm ((t.lines d ++ lost') ++ lost) := second.all.append_right lost
      _ |>.Perm (t.lines d ++ (lost ++ lost')) := by
        simpa only [List.append_assoc] using early.append_left (t.lines d)

/-- Neither the clients nor the loop of a `Get` are touched. -/
theorem frame (client : t.client = s.client) (main : t.main.lines d = s.main.lines d) :
    Passed d s [] [] t := by
  apply still
  rw [KeyValueServer.lines, KeyValueServer.lines, KeyValueServer.buffered, client, main]
  rfl

/-- One client goes on, with the same lines. -/
theorem touch (found : s.client.lookup c = some cl) (client : t.client = s.client.insert c cl')
    (main : t.main = s.main) (same : cl'.lines = cl.lines) : Passed d s [] [] t := by
  apply still
  rw [KeyValueServer.lines, KeyValueServer.lines, buffered_touch found client same, main]

end Passed

/-- A request is handled: a `Get` of the client produces its lines. -/
theorem passed_handled (reg : Registered s) (found : s.client.lookup c = some cl)
    (sends : cl.reader = .sending r) (here : s.main = .select)
    (after : s' = KeyValueServer.handle
      { s with client := s.client.insert c { cl with reader := cl.reader.sent } } r) :
    Passed d s (produced d s (.meet (.reader c) .main) s') [] s' := by
  have own := reg.own found sends
  subst own
  have kept : ∀ (closed : Bool) {t : KeyValueServer}, t.client = s.client.insert r.currentClient
      { cl with closed := closed, reader := cl.reader.sent } → t.buffered d = s.buffered d := by
    intro closed t client
    exact buffered_touch found client rfl
  -- the loop of the last `Get` is over, so that the new lines come after all the others
  have before : s.lines d = s.buffered d := by
    rw [KeyValueServer.lines, here]
    exact List.append_nil _
  have lines : s'.buffered d = s.buffered d → s'.lines d = s.lines d ++ s'.main.lines d := by
    intro same
    rw [before, KeyValueServer.lines, same]
  have made : produced d s (.meet (.reader r.currentClient) .main) s' = s'.main.lines d ∧
      s'.buffered d = s.buffered d := by
    cases type : r.requestType with
    | get =>
      refine ⟨?_, kept cl.closed ?_⟩
      · simp only [produced, found, sends, type, and_true, after, KeyValueServer.handle,
          MainRoutine.lines]
      · simp only [after, KeyValueServer.handle, type]
    | put | delete | update =>
      refine ⟨?_, kept cl.closed ?_⟩
      · simp [produced, found, sends, type, after, KeyValueServer.handle, here, MainRoutine.lines]
      · simp only [after, KeyValueServer.handle, type]
    | terminate =>
      have listed : r.currentClient ∈ s.clients := reg.listed found (by simp [sends])
      rw [handle_gone type listed] at after
      refine ⟨?_, kept true ?_⟩
      · simp [produced, found, sends, type, after, here, MainRoutine.lines]
      · rw [after]
  rw [made.1]
  exact ⟨by rw [lines made.2], by rw [lines made.2, List.append_nil]⟩

/-- The loop goes past a line: it is gone, and the others stay in order. -/
theorem passed_dropped {v : Bytes} {result : List Bytes} (here : s.main = .range r (v :: result)) :
    Passed d s [] (dropped d s .reply { s with main := .range r result })
      { s with main := .range r result } := by
  have gone : dropped d s .reply { s with main := .range r result } =
      if r.currentClient = d then [KeyValueServer.replyMessage r v] else [] := by
    simp only [dropped, here]
  by_cases own : r.currentClient = d
  · have before : s.lines d = s.buffered d ++
        KeyValueServer.replyMessage r v :: result.map (KeyValueServer.replyMessage r) := by
      rw [KeyValueServer.lines, here, MainRoutine.lines, if_pos own, List.map_cons]
    have after : KeyValueServer.lines { s with main := .range r result } d =
        s.buffered d ++ result.map (KeyValueServer.replyMessage r) := by
      rw [KeyValueServer.lines, MainRoutine.lines, if_pos own]
      rfl
    rw [gone, if_pos own]
    constructor
    · rw [before, after, List.append_nil]
      exact (List.sublist_cons_self _ _).append_left _
    · rw [before, after, List.append_nil, List.append_assoc]
      exact (List.perm_append_singleton _ _).symm.append_left _
  · rw [gone, if_neg own]
    refine Passed.frame rfl ?_
    rw [here, MainRoutine.lines, MainRoutine.lines, if_neg own, if_neg own]

/-- The line that the loop has tested goes into the buffer. -/
theorem passed_pushed {message : Bytes} {result : List Bytes}
    (here : s.main = .sending r message result) (found : s.client.lookup r.currentClient = some cl)
    (sent : s' = { s with
      main := .range r result
      client := s.client.insert r.currentClient
        { cl with writeChan := cl.writeChan ++ [message] } }) :
    Passed d s [] (dropped d s .reply s') s' := by
  have none : dropped d s .reply s' = [] := by
    simp only [dropped, here]
  have client : s'.client = s.client.insert r.currentClient
      { cl with writeChan := cl.writeChan ++ [message] } := by rw [sent]
  have main : s'.main = .range r result := by rw [sent]
  rw [none]
  apply Passed.still
  rw [KeyValueServer.lines, KeyValueServer.lines, here, main, buffered_insert client]
  by_cases own : d = r.currentClient
  · subst own
    rw [buffered_of found]
    simp [MainRoutine.lines, Client.lines]
  · simp [MainRoutine.lines, own, Ne.symm own]

theorem Passed.step (reg : Registered s) (moves : Move s a s') :
    Passed d s (produced d s a s') (dropped d s a s') s' := by
  cases moves with
  | called | polled | accepted | failed | panics | ignored | crossed | misheard =>
    exact Passed.frame rfl rfl
  | requested found | lost found => exact Passed.touch found rfl rfl rfl
  | took found free buffered =>
    refine Passed.touch found rfl rfl ?_
    simp [Client.lines, free, buffered]
  | wrote found busy =>
    refine Passed.touch found rfl rfl ?_
    simp [Client.lines, busy]
  | asked _ here | answered here =>
    refine Passed.frame rfl ?_
    rw [here]
    rfl
  | heard _ here =>
    apply Passed.still
    rw [KeyValueServer.lines, KeyValueServer.lines, here,
      buffered_congr (view_closeAll Client.lines (fun _ => rfl) s.clients s.client d)]
    rfl
  | @registered connection sends here =>
    apply Passed.still
    rw [KeyValueServer.lines, KeyValueServer.lines, buffered_insert rfl]
    split
    · rename_i same
      subst same
      have fresh := AList.lookup_eq_none.mpr (reg.fresh sends)
      simp only [KeyValueServer.buffered, fresh]
      rfl
    · rfl
  | handled found sends here => exact passed_handled reg found sends here rfl
  | replied here =>
    have none : dropped d s .reply { s with main := .select } = [] := by
      simp only [dropped, here]
    rw [none]
    refine Passed.frame rfl ?_
    simp [here, MainRoutine.lines]
  | @tested r v result cl here found room =>
    have none : dropped d s .reply
        { s with main := .sending r (KeyValueServer.replyMessage r v) result } = [] := by
      simp only [dropped, here]
    rw [none]
    refine Passed.frame rfl ?_
    rw [here]
    rfl
  | dropped here => exact passed_dropped here
  | pushed here found => exact passed_pushed here found rfl

theorem passed_run {acts : List Action} (reg : Registered s) (reached : run step s acts = some t) :
    Passed d s (trace step (produced d) s acts).flatten (trace step (dropped d) s acts).flatten
      t := by
  induction acts generalizing s with
  | nil =>
    cases Option.some.inj reached
    exact Passed.still rfl
  | cons a rest ih =>
    obtain ⟨u, taken, tail⟩ := run_first reached
    have moves := step_cases taken
    rw [trace_cons taken, trace_cons taken, List.flatten_cons, List.flatten_cons]
    exact (Passed.step reg moves).trans (ih (reg.step moves) tail)

/-! ### The buffers -/

/-- No buffer holds more than its capacity. -/
def Bounded (s : KeyValueServer) : Prop :=
  ∀ c cl, s.client.lookup c = some cl → cl.writeChan.length ≤ KeyValueServer.capacity

namespace Bounded

theorem start (store : Impl) : Bounded (start store) := by
  intro c cl found
  cases found

theorem frame (bounded : Bounded s) (client : s'.client = s.client) : Bounded s' := by
  intro c cl found
  rw [client] at found
  exact bounded c cl found

theorem insert (bounded : Bounded s) (client : s'.client = s.client.insert c cl')
    (few : cl'.writeChan.length ≤ KeyValueServer.capacity) : Bounded s' := by
  intro e known there
  rw [client, Map.lookup_insert] at there
  split at there
  · cases there
    exact few
  · exact bounded e known there

theorem handles (bounded : Bounded s) (reg : Registered s) (found : s.client.lookup c = some cl)
    (sends : cl.reader = .sending r) : Bounded (KeyValueServer.handle
      { s with client := s.client.insert c { cl with reader := cl.reader.sent } } r) := by
  have few := bounded c cl found
  refine reg.handle_cases found sends ?_ ?_ ?_
  · intro _ _
    exact bounded.insert rfl few
  · intro _ store
    exact bounded.insert rfl few
  · intro _ _ result
    exact bounded.insert rfl few

theorem step (bounded : Bounded s) (reg : Registered s) (moves : Move s a s') : Bounded s' := by
  cases moves with
  | called | polled | accepted | failed | panics | ignored | crossed | misheard | replied | tested
  | dropped | asked | answered => exact bounded.frame rfl
  | requested found | lost found | wrote found =>
    have before := bounded _ _ found
    exact bounded.insert rfl before
  | took found free buffered =>
    have before := bounded _ _ found
    refine bounded.insert rfl ?_
    rw [buffered, List.length_cons] at before
    exact Nat.le_of_succ_le before
  | pushed here found room =>
    refine bounded.insert rfl ?_
    rw [List.length_append, List.length_singleton]
    exact room
  | registered => exact bounded.insert rfl (Nat.zero_le _)
  | heard =>
    intro c cl there
    have same := view_closeAll Client.writeChan (fun _ => rfl) s.clients s.client c
    rw [there, Option.map_some] at same
    obtain ⟨old, found, chan⟩ := Option.map_eq_some_iff.mp same.symm
    rw [← chan]
    exact bounded c old found
  | handled found sends here => exact bounded.handles reg found sends

end Bounded

theorem bounded_run {acts : List Action} (reached : run step (start store) acts = some s) :
    Bounded s :=
  run_registered Bounded Bounded.step (Bounded.start store) reached

/-- A line is dropped when the buffer of its client is full. -/
theorem dropped_full (bounded : Bounded s) (moves : Move s a s') (lost : dropped d s a s' ≠ []) :
    ∃ cl, s.client.lookup d = some cl ∧ cl.writeChan.length = KeyValueServer.capacity := by
  cases moves with
  | @dropped r v result cl here found full =>
    have own : r.currentClient = d := by
      by_contra other
      exact lost (by simp only [Store.dropped, here, if_neg other])
    subst own
    exact ⟨cl, found, Nat.le_antisymm (bounded _ _ found) (Nat.not_lt.mp full)⟩
  | replied here | tested here | pushed here =>
    exact absurd (by simp only [Store.dropped, here]) lost
  | called | polled | accepted | failed | panics | ignored | crossed | misheard | asked | answered
  | requested | lost | wrote | took | registered | heard | handled => exact absurd rfl lost

/-- In every state that the server reaches, `mainRoutine` can send what it is about to send; what was
written to a client is in the order of the lines of its requests; every other line is on its way or
was dropped, and a line is dropped only while 500 lines are in the buffer of the client. -/
theorem slow_client (store : Impl) (acts : List Action) (s : KeyValueServer)
    (reached : run step (start store) acts = some s) :
    (∀ r message result, s.main = .sending r message result → s.panicked = false →
      ∃ t, step s .reply = some t) ∧
    ∀ d, (s.written d).Sublist (trace step (produced d) (start store) acts).flatten ∧
      (trace step (produced d) (start store) acts).flatten.Perm
        (s.lines d ++ (trace step (dropped d) (start store) acts).flatten) ∧
      ∀ a s', step s a = some s' → dropped d s a s' ≠ [] →
        ∃ cl, s.client.lookup d = some cl ∧ cl.writeChan.length = 500 := by
  refine ⟨?_, ?_⟩
  · intro r message result sends lives
    obtain ⟨t, taken, _⟩ := reply_possible (room_run reached) lives (.inr ⟨r, message, result, sends⟩)
    exact ⟨t, taken⟩
  · intro d
    have passed : Passed d (start store) (trace step (produced d) (start store) acts).flatten
      (trace step (dropped d) (start store) acts).flatten s :=
      passed_run (Registered.start store) reached
    refine ⟨(written_sublist s d).trans passed.order, passed.all, ?_⟩
    intro a s' taken lost
    exact dropped_full (bounded_run reached) (step_cases taken) lost

/-- A client asks for a key with two values, and the first line is written while the second one is in
its buffer. -/
def oneGet : List Action :=
  connects 7 ++ [.line 7 (word ['G', 'e', 't', ':', 'k']), .meet (.reader 7) .main, .reply, .reply,
    .takes 7, .reply, .reply, .wrote 7]

def twoValues : Impl := (∅ : Impl).insert (word ['k']) [word ['v'], word ['w']]

theorem slow_client_reads_one : ∃ s, run step (start twoValues) oneGet = some s ∧
    s.written 7 = [word ['k', ':', 'v'] ++ [newline]] ∧
    (s.written 7).Sublist (trace step (produced 7) (start twoValues) oneGet).flatten ∧
    (trace step (produced 7) (start twoValues) oneGet).flatten =
      [word ['k', ':', 'v'] ++ [newline], word ['k', ':', 'w'] ++ [newline]] :=
  ⟨_, rfl, rfl, ((slow_client twoValues oneGet _ rfl).2 7).1, rfl⟩

end DistSys.Store
