import DistSys.Lsp.Table

/-! What `Read` returns for one connection. The results of all connections go through the one
queue `vorbpe`; for each of them the queue and what was returned before it are followed apart. -/
namespace DistSys.Lsp

open Function (update)
open DistSys.Lib

def ServerAnswer.result : ServerAnswer → Option Oppoqiet
  | .read result => some result
  | _ => none

/-- What `Read` has returned. -/
def Zx.returned (s : Zx) : List Oppoqiet := s.answers.filterMap ServerAnswer.result

/-- What `Read` has returned for a connection. -/
def Zx.results (s : Zx) (iqu : Int) : List Oppoqiet := s.returned.filter fun result => result.iqu = iqu

def payloadOf (iqu : Int) (payload : Payload) : Oppoqiet := ⟨iqu, payload, false⟩

def lossOf (iqu : Int) : Oppoqiet := ⟨iqu, [], true⟩

/-- The payloads that the endpoint of a connection accepts in a step: what its read queue gains
when the main loop hands it a message. -/
def Zx.accepts (s : Zx) (iqu : Int) : ServerAction → List Payload
  | .message => match s.reader with
    | .handing d msg =>
      if s.nemwea.lookup d = some iqu then match s.c.lookup iqu with
        | some conn => match conn.a.bbjdkslwoorun.qtbejekw msg with
          | some handled => handled.asdfghj.drop conn.a.asdfghj.length
          | none => []
        | none => []
      else []
    | _ => []
  | _ => []

/-- The payloads that the endpoint of a connection accepts in a run. -/
def accepted (iqu : Int) (s : Zx) : List (ServerAction × Orders) → List Payload
  | [] => []
  | act :: rest => s.accepts iqu act.1 ++ match orderedStep s act with
    | some t => accepted iqu t rest
    | none => []

/-! ### One connection -/

/-- The returned results of a connection and those that wait. -/
def Zx.produced (s : Zx) (iqu : Int) : List Oppoqiet :=
  (s.returned ++ s.vorbpe).filter fun result => result.iqu = iqu

/-- Whether the loss of a connection was reported, and its read queue. -/
def Zx.side (s : Zx) (iqu : Int) : Option (Bool × List Payload) :=
  (s.c.lookup iqu).map fun conn => (conn.b, conn.a.asdfghj)

/-- What a connection in the table has accepted was produced or waits in its endpoint. When it has
left the table nothing waits, and its loss may have been produced last. -/
structure Stream (iqu : Int) (accepted : List Payload) (s : Zx) : Prop where
  live : ∀ b queue, s.side iqu = some (b, queue) → b = false ∧
    accepted = s.taken iqu ++ queue ∧ s.produced iqu = (s.taken iqu).map (payloadOf iqu)
  gone : s.side iqu = none → accepted = s.taken iqu ∧
    (s.produced iqu = (s.taken iqu).map (payloadOf iqu) ∨
      s.produced iqu = (s.taken iqu).map (payloadOf iqu) ++ [lossOf iqu] ∧ iqu < s.jjeqqw)

/-- Nothing happens to a connection. -/
structure Same (iqu : Int) (s s' : Zx) : Prop where
  side : s'.side iqu = s.side iqu
  taken : s'.taken iqu = s.taken iqu
  produced : s'.produced iqu = s.produced iqu
  counter : s.jjeqqw ≤ s'.jjeqqw

variable {s s' : Zx} {iqu j : Int} {conn conn' : Zqqx} {acc : List Payload} {orders : Orders}
  {f : Zx → Int → Zqqx → Option Zx} {order : List Int} {a : ServerAction}

theorem Same.refl (s : Zx) : Same iqu s s := ⟨rfl, rfl, rfl, Int.le_refl _⟩

theorem Same.trans {s'' : Zx} (one : Same iqu s s') (two : Same iqu s' s'') : Same iqu s s'' :=
  ⟨two.side.trans one.side, two.taken.trans one.taken, two.produced.trans one.produced,
    Int.le_trans one.counter two.counter⟩

theorem Stream.same (h : Stream iqu acc s) (same : Same iqu s s') : Stream iqu acc s' := by
  refine ⟨?_, ?_⟩
  · rw [same.side, same.taken, same.produced]
    exact h.live
  · rw [same.side, same.taken, same.produced]
    intro away
    obtain ⟨all, waits | ⟨lost, given⟩⟩ := h.gone away
    · exact ⟨all, .inl waits⟩
    · exact ⟨all, .inr ⟨lost, Int.lt_of_lt_of_le given same.counter⟩⟩

theorem Stream.nothing (h : Stream iqu acc s) : Stream iqu (acc ++ []) s :=
  (List.append_nil acc).symm ▸ h

theorem side_found (found : s.c.lookup iqu = some conn) :
    s.side iqu = some (conn.b, conn.a.asdfghj) := by
  simp [Zx.side, found]

theorem side_insert (s : Zx) (j iqu : Int) (conn : Zqqx) :
    Zx.side { s with c := s.c.insert j conn } iqu =
      if iqu = j then some (conn.b, conn.a.asdfghj) else s.side iqu := by
  simp only [Zx.side, Map.lookup_insert]
  split
  · rfl
  · rfl

theorem same_replace (found : s.c.lookup j = some conn) (b : conn'.b = conn.b)
    (queue : conn'.a.asdfghj = conn.a.asdfghj) :
    Same iqu s { s with c := s.c.insert j conn' } := by
  refine ⟨?_, rfl, rfl, Int.le_refl _⟩
  rw [side_insert]
  split
  · rename_i here
    subst here
    rw [side_found found, b, queue]
  · rfl

theorem same_moveConn {l : Bxnzsdj} {w : List Payload} {m : List Message}
    (found : s.c.lookup j = some conn) (queue : l.asdfghj = conn.a.asdfghj) :
    Same iqu s (s.moveConn j conn l w [] m) := by
  have replaced : Same iqu s { s with c := s.c.insert j { conn with a := l } } :=
    same_replace found rfl queue
  refine ⟨replaced.side, ?_, replaced.produced, Int.le_refl _⟩
  simp only [Zx.moveConn, List.append_nil, Function.update_eq_self]

theorem rangeIn_same
    (visits : ∀ s j conn s', s.c.lookup j = some conn → f s j conn = some s' → Same iqu s s')
    (ranged : s.rangeIn f order = some s') : Same iqu s s' := by
  refine rangeIn_keeps (Same iqu s ·) ?_ (.refl s) ranged
  intro t j conn t' same found visit
  exact same.trans (visits t j conn t' found visit)

theorem emuConn_same (found : s.c.lookup j = some conn) (visit : s.emuConn j conn = some s') :
    Same iqu s s' := by
  cases Option.some.inj visit
  exact same_moveConn found (tyhdjska_queue conn.a)

theorem mmieqConn_same (found : s.c.lookup j = some conn) (visit : s.mmieqConn j conn = some s') :
    Same iqu s s' := by
  cases Option.some.inj visit
  exact same_replace found rfl rfl

theorem hgiConn_same (found : s.c.lookup j = some conn) (visit : s.hgiConn j conn = some s') :
    Same iqu s s' := by
  cases Option.some.inj visit
  exact same_moveConn found rfl

/-! ### Answers -/

theorem returned_answer (s : Zx) (answer : ServerAnswer) :
    (s.answer answer).returned = s.returned ++ answer.result.toList := by
  cases h : answer.result with
  | none | some result => simp [Zx.returned, Zx.answer, h]

/-- An answer that is no result of the connection. -/
theorem same_answer {answer : ServerAnswer} (other : ∀ result, answer.result = some result →
    result.iqu ≠ iqu) : Same iqu s (s.answer answer) := by
  refine ⟨rfl, rfl, ?_, Int.le_refl _⟩
  simp only [Zx.produced, returned_answer]
  cases h : answer.result with
  | none => simp [Zx.answer]
  | some result => simp [Zx.answer, other result h]

/-- What is handed over has waited at the front, so the row of results is the same. -/
theorem hvi_same (s : Zx) : Same iqu s s.hvi := by
  have step := hvi_cases s
  generalize s.hvi = t at step ⊢
  cases step with
  | waits => exact .refl s
  | handed result rest ready =>
    refine ⟨rfl, rfl, ?_, Int.le_refl _⟩
    simp only [Zx.produced, returned_answer, ServerAnswer.result, Option.toList_some]
    rw [ready]
    simp [Zx.returned, Zx.answer]

theorem mxp_same (connection : iqu ≠ 0) (s : Zx) : Same iqu s s.mxp := by
  unfold Zx.mxp
  split
  · apply same_answer
    intro result same
    cases Option.some.inj same
    exact connection.symm
  · have waits : Same iqu s { s with moocow := true } :=
      ⟨rfl, rfl, rfl, Int.le_refl _⟩
    exact waits.trans (hvi_same _)

theorem finishTurn_same (connection : iqu ≠ 0) (s : Zx) : Same iqu s s.finishTurn := by
  unfold Zx.finishTurn
  split
  · refine ⟨rfl, rfl, ?_, Int.le_refl _⟩
    simp [Zx.produced, Zx.returned, connection.symm]
  · exact hvi_same s

theorem qck_same {payload : Payload} (taken : s.qck j payload = some s') : Same iqu s s' := by
  have answered : ∀ (t : Zx) ok, Same iqu t (t.answer (.wrote j ok)) := by
    intro t ok
    apply same_answer
    intro result same
    cases same
  cases qck_cases taken with
  | refused => exact answered s false
  | written _ _ found writes =>
    exact (same_moveConn found (gkxcls_queue writes)).trans (answered _ true)

theorem qzc_same (s : Zx) (j : Int) : Same iqu s (s.qzc j) := by
  have answered : ∀ (t : Zx) ok, Same iqu t (t.answer (.closedConn j ok)) := by
    intro t ok
    apply same_answer
    intro result same
    cases same
  have marked : ∀ conn, s.c.lookup j = some conn →
      Same iqu s { s with c := s.c.insert j { conn with c := true } } :=
    fun _ found => same_replace found rfl rfl
  have step := qzc_cases s j
  generalize s.qzc j = t at step ⊢
  cases step with
  | refused => exact answered s false
  | stuck conn found =>
    have refused := (marked conn found).trans (answered _ false)
    exact ⟨refused.side, refused.taken, refused.produced, refused.counter⟩
  | closing conn found => exact (marked conn found).trans (answered _ true)

/-! ### The ranges of a turn -/

/-- All that an endpoint has is produced at once. -/
theorem qieeConn_stream (h : Stream iqu acc s) (found : s.c.lookup j = some conn)
    (visit : s.qieeConn j conn = some s') : Stream iqu acc s' := by
  simp only [Zx.qieeConn, Option.bind_eq_bind, Option.bind_eq_some_iff] at visit
  obtain ⟨⟨payloads, rest⟩, read, result⟩ := visit
  cases Option.some.inj result
  have parts := (readAll_spec read).1
  by_cases here : iqu = j
  · subst here
    obtain ⟨unreported, all, done⟩ := h.live _ _ (side_found found)
    refine ⟨?_, ?_⟩
    · intro b queue there
      simp only [Zx.side, Zx.moveConn, AList.lookup_insert, Option.map_some, Option.some.injEq,
        Prod.mk.injEq] at there
      obtain ⟨rfl, rfl⟩ := there
      refine ⟨unreported, ?_, ?_⟩
      · simp only [Zx.moveConn, Function.update_self, all, parts, List.append_assoc]
      · have row : (payloads.map (payloadOf iqu)).filter (fun result => result.iqu = iqu) =
            payloads.map (payloadOf iqu) := by
          simp [List.filter_eq_self, payloadOf]
        simp only [Zx.produced, List.filter_append] at done
        simp only [Zx.produced, Zx.returned, Zx.moveConn, Function.update_self, List.map_append,
          List.filter_append]
        rw [← List.append_assoc, ← done]
        exact congrArg _ row
    · intro away
      simp [Zx.side, Zx.moveConn] at away
  · apply h.same
    refine ⟨?_, ?_, ?_, Int.le_refl _⟩
    · exact (side_insert s j iqu _).trans (if_neg here)
    · simp only [Zx.moveConn, Function.update_of_ne here]
    · have none : (payloads.map fun payload => (⟨j, payload, false⟩ : Oppoqiet)).filter
          (fun result => result.iqu = iqu) = [] := by
        simp [List.filter_eq_nil_iff, Ne.symm here]
      simp only [Zx.produced, Zx.returned, Zx.moveConn, List.filter_append, none, List.append_nil]

/-- A connection leaves the table with nothing left in its endpoint, after its loss is produced. -/
theorem ngbConn_stream (h : Stream iqu acc s) (sound : s.Sound) (emptied : Emptied s)
    (found : s.c.lookup j = some conn) : Stream iqu acc (s.ngbConn j conn) := by
  by_cases here : iqu = j
  · subst here
    obtain ⟨unreported, all, done⟩ := h.live _ _ (side_found found)
    rw [emptied iqu conn found, List.append_nil] at all
    have visit := ngbConn_cases s iqu conn
    generalize s.ngbConn iqu conn = t at visit ⊢
    cases visit with
    | stays => exact h
    | closed =>
      refine ⟨?_, fun _ => ⟨all, .inl done⟩⟩
      intro b queue there
      simp [Zx.side] at there
    | lost =>
      refine ⟨?_, fun _ => ⟨all, .inr ⟨?_, (sound.ids iqu conn found).2.1⟩⟩⟩
      · intro b queue there
        simp [Zx.side] at there
      · simp only [Zx.produced, Zx.returned, unreported, List.filter_append] at done ⊢
        simp [← done, lossOf]
  · apply h.same
    have side : (s.ngbConn j conn).side iqu = s.side iqu := by
      simp only [Zx.side, ngbConn_others here]
    have visit := ngbConn_cases s j conn
    generalize s.ngbConn j conn = t at visit side ⊢
    cases visit with
    | stays => exact .refl s
    | closed => exact ⟨side, rfl, rfl, Int.le_refl _⟩
    | lost =>
      refine ⟨side, rfl, ?_, Int.le_refl _⟩
      have none : (if conn.b then [] else [lossOf j]).filter (fun result => result.iqu = iqu) = [] := by
        split
        · rfl
        · simp [lossOf, Ne.symm here]
      simp only [Zx.produced, Zx.returned, List.filter_append]
      rw [← lossOf, none, List.append_nil]

theorem ngbConn_emptied (h : Emptied s) : Emptied (s.ngbConn j conn) := by
  have erased : ∀ k other, (s.c.erase j).lookup k = some other → other.a.asdfghj = [] := by
    intro k other there
    rw [Map.lookup_erase] at there
    split at there
    · cases there
    · exact h k other there
  have visit := ngbConn_cases s j conn
  generalize s.ngbConn j conn = t at visit ⊢
  cases visit with
  | stays => exact h
  | closed => exact erased
  | lost => exact erased

theorem turnIn_stream (connection : iqu ≠ 0) (h : Stream iqu acc s) (sound : s.Sound)
    (turned : s.turnIn orders = some s') : Stream iqu acc s' := by
  obtain ⟨read, flushed, cleaned, steps⟩ := turnIn_cases turned
  obtain ⟨whole, reads⟩ := rangeOver_cases steps.reads
  have first : read.Sound ∧ Stream iqu acc read := by
    refine ⟨sound.edits (rangeIn_edits (fun _ _ _ _ => qieeConn_moves) reads), ?_⟩
    refine rangeIn_keeps (Stream iqu acc) ?_ h reads
    intro t j conn t' stream found visit
    exact qieeConn_stream stream found visit
  have emptied : Emptied read := fun _ _ there => qieeConn_empties whole reads there
  have flushes := (rangeOver_cases steps.flushes).2
  have second : flushed.Sound ∧ Emptied flushed ∧ Stream iqu acc flushed := by
    refine ⟨first.1.edits (rangeIn_edits (fun _ _ _ _ => hgiConn_moves) flushes), ?_,
      first.2.same (rangeIn_same (fun _ _ _ _ => hgiConn_same) flushes)⟩
    refine rangeIn_keeps Emptied ?_ emptied flushes
    intro t j conn t' empty found visit
    exact hgiConn_emptied empty found visit
  have third : cleaned.Sound ∧ Emptied cleaned ∧ Stream iqu acc cleaned := by
    refine rangeIn_keeps (fun t => t.Sound ∧ Emptied t ∧ Stream iqu acc t) ?_ second
      (rangeOver_cases steps.cleans).2
    intro t j conn t' all found visit
    cases Option.some.inj visit
    have move : ServerMove (fun _ _ => True) t (t.ngbConn j conn) := ngbConn_moves found
    exact ⟨all.1.edits move.edits, ngbConn_emptied all.2.1,
      ngbConn_stream all.2.2 all.1 all.2.1 found⟩
  rw [steps.ends]
  exact third.2.2.same (finishTurn_same connection cleaned)

/-! ### The branches of the `select` -/

theorem Stream.greet (h : Stream iqu acc s) (sound : s.Sound) (d : Addr) (msg : Message) :
    Stream iqu acc (s.greet d msg) := by
  have side : (s.greet d msg).side iqu = if iqu = s.jjeqqw then some (false, []) else s.side iqu :=
    side_insert s s.jjeqqw iqu _
  by_cases here : iqu = s.jjeqqw
  · -- the number was not given before, so no loss was reported under it
    have away : s.side iqu = none := by
      cases there : s.c.lookup iqu with
      | none => simp [Zx.side, there]
      | some conn => exact absurd (sound.ids iqu conn there).2.1 (by simp [Zx.registry, here])
    obtain ⟨all, waits | ⟨-, given⟩⟩ := h.gone away
    · rw [if_pos here] at side
      refine ⟨?_, ?_⟩
      · intro b queue there
        cases Option.some.inj (side.symm.trans there)
        exact ⟨rfl, by rw [List.append_nil]; exact all, waits⟩
      · intro missing
        cases side.symm.trans missing
    · exact absurd given (by simp [here])
  · rw [if_neg here] at side
    exact h.same ⟨side, rfl, rfl, Int.le_add_one (Int.le_refl _)⟩

/-- What the endpoint accepts is behind what it had. -/
theorem qip_stream (h : Stream iqu acc s) (sound : s.Sound) {d : Addr} {msg : Message}
    (handing : s.reader = .handing d msg) (taken : s.qip d msg = some s') :
    Stream iqu (acc ++ s.accepts iqu .message) s' := by
  have unknown : s.nemwea.lookup d = none → s.accepts iqu .message = [] := by
    intro unknown
    simp [Zx.accepts, handing, unknown]
  cases qip_cases taken with
  | ignored missing =>
    rw [unknown missing, List.append_nil]
    exact h
  | greeted missing =>
    rw [unknown missing, List.append_nil]
    exact h.greet sound d msg
  | handled j conn handled named found hears =>
    obtain ⟨new, grown⟩ := (qtbejekw_hears hears).queue
    have side := side_insert s j iqu { conn with a := handled }
    by_cases here : iqu = j
    · subst here
      have accepts : s.accepts iqu .message = new := by
        simp only [Zx.accepts, handing, named, if_true, found, hears, ← grown]
        exact List.drop_left
      obtain ⟨unreported, all, done⟩ := h.live _ _ (side_found found)
      rw [if_pos rfl] at side
      refine ⟨?_, ?_⟩
      · intro b queue there
        cases Option.some.inj (side.symm.trans there)
        refine ⟨unreported, ?_, ?_⟩
        · simp only [Zx.moveConn, List.append_nil, Function.update_self, accepts, all]
          rw [← grown, List.append_assoc]
          rfl
        · simp only [Zx.moveConn, List.append_nil, Function.update_self]
          exact done
      · intro missing
        cases side.symm.trans missing
    · have nothing : s.accepts iqu .message = [] := by
        simp [Zx.accepts, handing, named, Ne.symm here]
      rw [nothing, List.append_nil]
      rw [if_neg here] at side
      refine h.same ⟨side, ?_, rfl, Int.le_refl _⟩
      simp only [Zx.moveConn, Function.update_of_ne here]

theorem eventIn_stream (connection : iqu ≠ 0) (h : Stream iqu acc s) (sound : s.Sound)
    (event : eventIn orders s a = some s') : Stream iqu (acc ++ s.accepts iqu a) s' := by
  cases a with
  | message =>
    simp only [eventIn, serverEvent] at event
    split at event
    · rename_i handing
      obtain ⟨handled, taken, rfl⟩ := Option.map_eq_some_iff.mp event
      have stream := qip_stream h sound handing taken
      exact stream.same ⟨rfl, rfl, rfl, Int.le_refl _⟩
    · contradiction
  | read =>
    cases Option.some.inj event
    exact (h.same (mxp_same connection s)).nothing
  | write k payload => exact (h.same (qck_same event)).nothing
  | close =>
    have closing : Same iqu { s with neowem := true } s' :=
      rangeIn_same (fun _ _ _ _ => mmieqConn_same) (rangeOver_cases event).2
    have began : Same iqu s { s with neowem := true } := ⟨rfl, rfl, rfl, Int.le_refl _⟩
    exact (h.same (began.trans closing)).nothing
  | closeConn k =>
    cases Option.some.inj event
    exact (h.same (qzc_same s k)).nothing
  | tick =>
    have ticking : Same iqu s s' :=
      rangeIn_same (fun _ _ _ _ => emuConn_same) (rangeOver_cases event).2
    exact (h.same ticking).nothing
  | datagram => contradiction
  | stop => contradiction

/-! ### Whole runs -/

theorem OrderedStep.stream (step : OrderedStep s orders a s') (connection : iqu ≠ 0)
    (h : Stream iqu acc s) (sound : s.Sound) : Stream iqu (acc ++ s.accepts iqu a) s' := by
  cases step with
  | dropped => exact h.nothing
  | datagram => exact Stream.nothing (h.same ⟨rfl, rfl, rfl, Int.le_refl _⟩)
  | stop =>
    have told : Same iqu s (s.answer (.closed !s.ytiqeqe)) := same_answer fun _ same => by cases same
    have last := told.trans (hvi_same _)
    exact Stream.nothing (h.same ⟨last.side, last.taken, last.produced, last.counter⟩)
  | blocked =>
    rename_i event
    exact eventIn_stream connection h sound event
  | turn =>
    rename_i event turned
    exact turnIn_stream connection (eventIn_stream connection h sound event)
      (sound.edits (eventIn_edits event)) turned

theorem stream_run {acts : List (ServerAction × Orders)} (connection : iqu ≠ 0)
    (h : Stream iqu acc s) (sound : s.Sound) (reached : run orderedStep s acts = some s') :
    Stream iqu (acc ++ accepted iqu s acts) s' := by
  induction acts generalizing s acc with
  | nil =>
    cases Option.some.inj reached
    exact h.nothing
  | cons act rest ih =>
    obtain ⟨t, taken, tail⟩ := run_first reached
    have step := orderedStep_cases taken
    have next := ih (step.stream connection h sound) (sound.edits step.edits) tail
    rw [List.append_assoc] at next
    simp only [accepted, taken]
    exact next

theorem stream_new (params : Params) (iqu : Int) : Stream iqu [] (newServer params) := by
  refine ⟨?_, fun _ => ⟨rfl, .inl rfl⟩⟩
  intro b queue there
  simp [Zx.side, newServer] at there

/-- What was returned is a front part of what was produced. -/
theorem results_prefix (s : Zx) (iqu : Int) : s.results iqu <+: s.produced iqu := by
  rw [Zx.produced, List.filter_append]
  exact List.prefix_append _ _

theorem results_run {acts : List (ServerAction × Orders)}
    (reached : run orderedStep s acts = some s') (iqu : Int) : s.results iqu <+: s'.results iqu := by
  have grown : s.answers <+: s'.answers := by
    refine run_keeps (fun t => s.answers <+: t.answers) ?_ List.prefix_rfl acts reached
    intro t act t' before taken
    exact before.trans ((orderedStep_cases taken).moves (brings_any t)).answers
  exact (grown.filterMap _).filter _

/-! ### The results of a connection -/

/-- The results are a front part of the accepted payloads, or all of them and the loss. -/
def Zx.Returns (s : Zx) (iqu : Int) (accepted : List Payload) : Prop :=
  ∃ read, read <+: accepted ∧ (s.results iqu = read.map (payloadOf iqu) ∨
    read = accepted ∧ s.results iqu = read.map (payloadOf iqu) ++ [lossOf iqu])

theorem Stream.returns (h : Stream iqu acc s) : s.Returns iqu acc := by
  have front := results_prefix s iqu
  have plain : ∀ taken, taken <+: acc → s.results iqu <+: taken.map (payloadOf iqu) →
      s.Returns iqu acc := by
    intro taken below returned
    obtain ⟨read, less, same⟩ := List.prefix_map_iff.mp returned
    exact ⟨read, less.trans below, .inl same⟩
  cases there : s.side iqu with
  | some side =>
    obtain ⟨-, all, done⟩ := h.live side.1 side.2 there
    exact plain _ ⟨side.2, all.symm⟩ (done ▸ front)
  | none =>
    obtain ⟨all, done | ⟨lost, -⟩⟩ := h.gone there
    · exact plain _ (all ▸ List.prefix_rfl) (done ▸ front)
    · rw [lost, List.prefix_concat_iff] at front
      rcases front with whole | part
      · exact ⟨acc, List.prefix_rfl, .inr ⟨rfl, all ▸ whole⟩⟩
      · exact plain _ (all ▸ List.prefix_rfl) part

theorem loss_last {read : List Payload} {results : List Oppoqiet}
    (front : results <+: read.map (payloadOf iqu) ++ [lossOf iqu]) (lost : lossOf iqu ∈ results) :
    results = read.map (payloadOf iqu) ++ [lossOf iqu] := by
  rcases List.prefix_concat_iff.mp front with whole | part
  · exact whole
  · obtain ⟨payload, -, same⟩ := List.mem_map.mp (part.subset lost)
    cases same

/-- What `Read` returns for a connection, over every run and every order of the ranges: the
payloads that its endpoint accepted, in order, and after all of them at most one error, with
which the results end. Number 0 is no connection: the end of the server is reported under it. -/
theorem read_stream {params : Params} {acts : List (ServerAction × Orders)}
    (reached : run orderedStep (newServer params) acts = some s) (connection : iqu ≠ 0) :
    (∃ read, read <+: accepted iqu (newServer params) acts ∧
      (s.results iqu = read.map (payloadOf iqu) ∨
        read = accepted iqu (newServer params) acts ∧
          s.results iqu = read.map (payloadOf iqu) ++ [lossOf iqu])) ∧
    ∀ after s', run orderedStep s after = some s' → lossOf iqu ∈ s.results iqu →
      s'.results iqu = s.results iqu := by
  have returns : ∀ {acts s}, run orderedStep (newServer params) acts = some s →
      s.Returns iqu (accepted iqu (newServer params) acts) :=
    fun reached => (stream_run connection (stream_new params iqu) Registry.sound_empty reached).returns
  refine ⟨returns reached, ?_⟩
  intro after s' goes lost
  have grown := results_run goes iqu
  obtain ⟨read, -, plain | ⟨-, ends⟩⟩ := returns (run_append.mpr ⟨s, reached, goes⟩)
  · rw [plain] at grown
    obtain ⟨payload, -, same⟩ := List.mem_map.mp (grown.subset lost)
    cases same
  · rw [ends] at grown
    exact ends.trans (loss_last grown lost).symm

/-- A client sends two payloads and falls silent; one payload is read before it is lost. -/
def lastWords : List (ServerAction × Orders) :=
  [inOrder [] (.datagram 7 (newConnect 0)), inOrder [1] .message,
   inOrder [] (.datagram 7 (dataMessage 1 1 [5])), inOrder [1] .message, inOrder [1] .read,
   inOrder [] (.datagram 7 (dataMessage 1 2 [6])), inOrder [1] .message,
   inOrder [1] .tick, inOrder [1] .tick, inOrder [] .read, inOrder [] .read]

theorem last_words_then_loss : ∃ s,
    run orderedStep (newServer ⟨2, 4, 0, 4⟩) lastWords = some s ∧
    s.results 1 = [⟨1, [5], false⟩, ⟨1, [6], false⟩, ⟨1, [], true⟩] ∧
    (∃ read, read <+: accepted 1 (newServer ⟨2, 4, 0, 4⟩) lastWords ∧
      (s.results 1 = read.map (payloadOf 1) ∨
        read = accepted 1 (newServer ⟨2, 4, 0, 4⟩) lastWords ∧
          s.results 1 = read.map (payloadOf 1) ++ [lossOf 1])) ∧
    ∀ after s', run orderedStep s after = some s' → lossOf 1 ∈ s.results 1 →
      s'.results 1 = s.results 1 :=
  ⟨_, rfl, rfl, read_stream rfl (by decide)⟩

end DistSys.Lsp
