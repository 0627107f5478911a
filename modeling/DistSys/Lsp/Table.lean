import DistSys.Lsp.Server
import DistSys.Lib.Registry
import DistSys.Lib.Runs

/-! The server with the order of every `range` left open, as Go leaves it. The table of
connections and the table of addresses form a registry; the calls at the endpoints do not change
what the registry asks of an entry. -/
namespace DistSys.Lsp

open Function (update)
open DistSys.Lib

variable {l l' : Bxnzsdj}

/-! ### What the calls at an endpoint leave alone -/

theorem gkxcls_id {payload : Payload} (written : l.gkxcls payload = some l') :
    l'.rdcppgudji = l.rdcppgudji :=
  (congrArg Bxnzsdj.rdcppgudji (gkxcls_unsent written) :)

theorem gkxcls_queue {payload : Payload} (written : l.gkxcls payload = some l') :
    l'.asdfghj = l.asdfghj :=
  (congrArg Bxnzsdj.asdfghj (gkxcls_unsent written) :)

theorem tyhdjska_id (l : Bxnzsdj) : l.tyhdjska.rdcppgudji = l.rdcppgudji :=
  (congrArg Bxnzsdj.rdcppgudji (sayEpoch_unsent l.llehwkas) :)

theorem tyhdjska_queue (l : Bxnzsdj) : l.tyhdjska.asdfghj = l.asdfghj :=
  (congrArg Bxnzsdj.asdfghj (sayEpoch_unsent l.llehwkas) :)

/-- A received message keeps an id that is known, and the read queue only grows. -/
structure Bxnzsdj.Hears (l l' : Bxnzsdj) : Prop where
  id : l.rdcppgudji ≠ 0 → l'.rdcppgudji = l.rdcppgudji
  queue : l.asdfghj <+: l'.asdfghj

theorem drain_queue (fuel : Nat) (l : Bxnzsdj) : l.asdfghj <+: (drain fuel l).asdfghj := by
  induction fuel generalizing l with
  | zero => exact List.prefix_rfl
  | succ fuel ih =>
    unfold drain
    split
    · exact List.prefix_rfl
    · rename_i payload _
      exact (List.prefix_append _ [payload]).trans (ih (l.pass payload))

theorem bvmndthe_queue (l : Bxnzsdj) (m : Message) : l.asdfghj <+: (l.bvmndthe m).asdfghj := by
  unfold Bxnzsdj.bvmndthe
  split
  · exact List.prefix_rfl
  split
  · exact List.prefix_rfl
  split
  · exact List.prefix_rfl
  dsimp only
  split
  · exact List.prefix_rfl
  · exact drain_queue _ ((l.lbzxtomtos (newAck l.rdcppgudji m.seqNum)).keep m.seqNum m.payload)

theorem AckStep.hears {m : Message} (step : AckStep l m l') : l.Hears l' := by
  cases step with
  | ignored => exact ⟨fun _ => rfl, List.prefix_rfl⟩
  | connected unknown => exact ⟨fun known => absurd unknown known, List.prefix_rfl⟩
  | settled known acked =>
    have same := settled_unsent acked l
    have queue : (acked.foldl Bxnzsdj.forget l).ngkdlse.asdfghj = l.asdfghj :=
      (congrArg Bxnzsdj.asdfghj same :)
    exact ⟨fun _ => (congrArg Bxnzsdj.rdcppgudji same :), queue ▸ List.prefix_rfl⟩

theorem qtbejekw_hears {m : Message} (taken : l.qtbejekw m = some l') : l.Hears l' := by
  cases qtbejekw_cases taken with
  | connect => exact ⟨fun _ => rfl, List.prefix_rfl⟩
  | data =>
    exact ⟨fun _ => (congrArg Bxnzsdj.rdcppgudji (bvmndthe_unheard l m) :), bvmndthe_queue l m⟩
  | ack _ step => exact step.hears

/-- With an id all that waits can be read. -/
theorem readAll_total (fuel : Nat) (id : l.rdcppgudji ≠ 0) :
    ∃ payloads l', Zx.readAll fuel l = some (payloads, l') := by
  induction fuel generalizing l with
  | zero => exact ⟨[], l, rfl⟩
  | succ fuel ih =>
    cases queue : l.asdfghj with
    | nil => exact ⟨[], l, by simp [Zx.readAll, Bxnzsdj.rkdlxleik, queue]⟩
    | cons payload rest =>
      obtain ⟨payloads, l', read⟩ := ih (l := { l with asdfghj := rest }) id
      refine ⟨payload :: payloads, l', ?_⟩
      simp [Zx.readAll, Bxnzsdj.rkdlxleik, Bxnzsdj.odkejnfsa, queue, id, read]

/-! ### The server with any order of visits -/

/-- The order in which each `range` of one turn comes to the connections. -/
structure Orders where
  /-- the `range` of `emu` or `mmieq` -/
  event : List Int
  qiee : List Int
  hgi : List Int
  ngb : List Int
  deriving DecidableEq, Repr

namespace Zx

/-- A `range` comes to every key once. -/
def rangeOver (f : Zx → Int → Zqqx → Option Zx) (order : List Int) (s : Zx) : Option Zx :=
  if order.Perm s.c.keys then s.rangeIn f order else none

def turnIn (orders : Orders) (s : Zx) : Option Zx := do
  let read ← s.rangeOver qieeConn orders.qiee
  let flushed ← read.rangeOver hgiConn orders.hgi
  let cleaned ← flushed.rangeOver (fun s iqu conn => some (s.ngbConn iqu conn)) orders.ngb
  some cleaned.finishTurn

end Zx

def eventIn (orders : Orders) (s : Zx) : ServerAction → Option Zx
  | .close => { s with neowem := true }.rangeOver Zx.mmieqConn orders.event
  | .tick => s.rangeOver Zx.emuConn orders.event
  | event => serverEvent s event

def orderedStep (s : Zx) : ServerAction × Orders → Option Zx
  | (.datagram d msg, _) => serverStep s (.datagram d msg)
  | (.stop, _) => serverStep s .stop
  | (event, orders) => if s.main = .select then do
      let handled ← eventIn orders s event
      if handled.main = .blocked then some handled else handled.turnIn orders
    else none

variable {s s' : Zx} {f : Zx → Int → Zqqx → Option Zx} {order : List Int} {orders : Orders}

theorem rangeOver_cases (ranged : s.rangeOver f order = some s') :
    order.Perm s.c.keys ∧ s.rangeIn f order = some s' := by
  unfold Zx.rangeOver at ranged
  split at ranged
  · rename_i whole
    exact ⟨whole, ranged⟩
  · contradiction

/-- The three ranges of a turn and its end. -/
structure TurnSteps (s read flushed cleaned s' : Zx) (orders : Orders) : Prop where
  reads : s.rangeOver Zx.qieeConn orders.qiee = some read
  flushes : read.rangeOver Zx.hgiConn orders.hgi = some flushed
  cleans : flushed.rangeOver (fun s iqu conn => some (s.ngbConn iqu conn)) orders.ngb = some cleaned
  ends : s' = cleaned.finishTurn

theorem turnIn_cases (turned : s.turnIn orders = some s') :
    ∃ read flushed cleaned, TurnSteps s read flushed cleaned s' orders := by
  simp only [Zx.turnIn, Option.bind_eq_bind, Option.bind_eq_some_iff] at turned
  obtain ⟨read, reads, flushed, flushes, cleaned, cleans, result⟩ := turned
  exact ⟨read, flushed, cleaned, reads, flushes, cleans, (Option.some.inj result).symm⟩

/-- The reader gets a datagram, the reader is stopped, or the main loop makes a turn. -/
inductive OrderedStep (s : Zx) (orders : Orders) : ServerAction → Zx → Prop where
  | dropped (d : Addr) (msg : Message) : OrderedStep s orders (.datagram d msg) s
  | datagram (d : Addr) (msg msg' : Message) (passes : ciqlyoibuh msg = some (some msg')) :
      OrderedStep s orders (.datagram d msg) { s with reader := .handing d msg' }
  | stop (waits : s.main = .ini) : OrderedStep s orders .stop
      { (s.answer (.closed !s.ytiqeqe)).hvi with main := .returned, reader := .returned }
  | blocked (a : ServerAction) (handled : Zx) (select : s.main = .select)
      (event : eventIn orders s a = some handled) (stuck : handled.main = .blocked) :
      OrderedStep s orders a handled
  | turn (a : ServerAction) (handled s' : Zx) (select : s.main = .select)
      (event : eventIn orders s a = some handled) (free : handled.main ≠ .blocked)
      (turned : handled.turnIn orders = some s') : OrderedStep s orders a s'

theorem orderedStep_cases {a : ServerAction} (taken : orderedStep s (a, orders) = some s') :
    OrderedStep s orders a s' := by
  unfold orderedStep at taken
  split at taken
  · rename_i same
    cases same
    cases serverStep_cases taken with
    | dropped => exact .dropped _ _
    | datagram _ _ msg' _ passes => exact .datagram _ _ msg' passes
    | blocked =>
      rename_i event
      cases event
    | turn =>
      rename_i event _
      cases event
  · rename_i same
    cases same
    cases serverStep_cases taken with
    | stop waits => exact .stop waits
    | blocked =>
      rename_i event
      cases event
    | turn =>
      rename_i event _
      cases event
  · rename_i same
    cases same
    split at taken
    · rename_i select
      simp only [Option.bind_eq_bind, Option.bind_eq_some_iff] at taken
      obtain ⟨handled, event, taken⟩ := taken
      split at taken
      · rename_i stuck
        cases Option.some.inj taken
        exact .blocked _ _ select event stuck
      · rename_i free
        exact .turn _ _ _ select event free taken
    · contradiction

/-! ### The order of the keys is one of the orders -/

theorem rangeOver_keys (f : Zx → Int → Zqqx → Option Zx) (s : Zx) :
    s.rangeOver f s.c.keys = s.eachConn f :=
  if_pos (.refl _)

theorem eventIn_keys (keys : orders.event = s.c.keys) (a : ServerAction) :
    eventIn orders s a = serverEvent s a := by
  cases a with
  | close =>
    simp only [eventIn, keys]
    exact rangeOver_keys _ { s with neowem := true }
  | tick =>
    simp only [eventIn, keys]
    exact rangeOver_keys _ s
  | _ => rfl

theorem turn_ordered (turned : s.turn = some s') (event : List Int) :
    ∃ orders : Orders, orders.event = event ∧ s.turnIn orders = some s' := by
  simp only [Zx.turn, Option.bind_eq_bind, Option.bind_eq_some_iff] at turned
  obtain ⟨read, reads, flushed, flushes, cleaned, cleans, result⟩ := turned
  refine ⟨⟨event, s.c.keys, read.c.keys, flushed.c.keys⟩, rfl, ?_⟩
  simp only [Zx.qiee, Zx.hgi, Zx.ngb] at reads flushes cleans
  simp [Zx.turnIn, rangeOver_keys, reads, flushes, cleans, Option.some.inj result]

theorem serverStep_ordered {a : ServerAction} (taken : serverStep s a = some s') :
    ∃ orders, orderedStep s (a, orders) = some s' := by
  have turns : ∀ handled, s.main = .select → serverEvent s a = some handled →
      handled.main ≠ .blocked → handled.turn = some s' →
      ∃ orders : Orders, (if s.main = .select then do
        let handled ← eventIn orders s a
        if handled.main = .blocked then some handled else handled.turnIn orders
      else none) = some s' := by
    intro handled select event free turned
    obtain ⟨orders, keys, done⟩ := turn_ordered turned s.c.keys
    exact ⟨orders, by simp [select, eventIn_keys keys, event, free, done]⟩
  have blocks : s.main = .select → serverEvent s a = some s' → s'.main = .blocked →
      ∃ orders : Orders, (if s.main = .select then do
        let handled ← eventIn orders s a
        if handled.main = .blocked then some handled else handled.turnIn orders
      else none) = some s' := by
    intro select event stuck
    exact ⟨⟨s.c.keys, [], [], []⟩, by simp [select, eventIn_keys, event, stuck]⟩
  cases a with
  | datagram d msg | stop => exact ⟨⟨[], [], [], []⟩, taken⟩
  | _ =>
    cases serverStep_cases taken with
    | blocked =>
      rename_i select stuck event
      exact blocks select event stuck
    | turn =>
      rename_i handled select free event turned
      exact turns handled select event free turned

/-- Every run of the server is one with orders. -/
theorem run_ordered {acts : List ServerAction} (reached : run serverStep s acts = some s') :
    ∃ ordered : List (ServerAction × Orders), ordered.map Prod.fst = acts ∧
      run orderedStep s ordered = some s' := by
  induction acts generalizing s with
  | nil => exact ⟨[], rfl, reached⟩
  | cons a rest ih =>
    obtain ⟨t, taken, tail⟩ := run_first reached
    obtain ⟨orders, first⟩ := serverStep_ordered taken
    obtain ⟨ordered, same, later⟩ := ih tail
    exact ⟨(a, orders) :: ordered, by simp [same], (run_cons first).mpr later⟩

/-! ### The two tables as a registry -/

def Zx.registry (s : Zx) : Registry Addr Zqqx := ⟨s.jjeqqw, s.c, s.nemwea⟩

/-- The endpoint bears the number of its connection. -/
def Zqqx.Named (iqu : Int) (conn : Zqqx) : Prop := conn.a.rdcppgudji = iqu

def Zx.Edits (s s' : Zx) : Prop := Registry.Edits Zqqx.d Zqqx.Named s.registry s'.registry

def Zx.Sound (s : Zx) : Prop := Registry.Sound Zqqx.d Zqqx.Named s.registry

/-! ### All that the server does -/

/-- What happens at the end of a connection, with what goes to the socket. `hears` is what can come
in. -/
inductive ConnMove (hears : Message → Prop) (l : Bxnzsdj) : Bxnzsdj → List Message → Prop where
  /-- the flags of the connection are set -/
  | marked : ConnMove hears l l []
  | tick : ConnMove hears l l.tyhdjska []
  | read (queue : List Payload) : ConnMove hears l { l with asdfghj := queue } []
  | flush : ConnMove hears l l.bnmgrlr.2 l.bnmgrlr.1
  | write {payload l'} (taken : l.gkxcls payload = some l') : ConnMove hears l l' []
  | hear {m l'} (comes : hears m) (taken : l.bbjdkslwoorun.qtbejekw m = some l') :
      ConnMove hears l l' []

theorem ConnMove.id {hears : Message → Prop} {out : List Message} (move : ConnMove hears l l' out)
    (known : l.rdcppgudji ≠ 0) : l'.rdcppgudji = l.rdcppgudji := by
  cases move with
  | marked | read | flush => rfl
  | tick => exact tyhdjska_id l
  | write taken => exact gkxcls_id taken
  | hear _ taken => exact (qtbejekw_hears taken).id known

/-- One change to the connections; what else changes is not asked. -/
inductive ServerMove (hears : Addr → Message → Prop) (s s' : Zx) : Prop where
  | conn {iqu conn out} (conn' : Zqqx) (found : s.c.lookup iqu = some conn)
      (address : conn'.d = conn.d)
      (move : ConnMove (hears conn.d) conn.a conn'.a out)
      (table : s'.registry = ⟨s.jjeqqw, s.c.insert iqu conn', s.nemwea⟩)
      (sent : s'.sent = s.sent ++ out.map fun m => (conn.d, m))
      (answers : s.answers <+: s'.answers)
  | greet {d msg} (comes : hears d msg) (unknown : s.nemwea.lookup d = none)
      (table : s'.registry = (s.greet d msg).registry) (sent : s'.sent = s.sent)
      (answers : s.answers <+: s'.answers)
  | remove {iqu conn} (found : s.c.lookup iqu = some conn)
      (table : s'.registry = ⟨s.jjeqqw, s.c.erase iqu, s.nemwea.erase conn.d⟩)
      (sent : s'.sent = s.sent) (answers : s.answers <+: s'.answers)
  | beside (table : s'.registry = s.registry) (sent : s'.sent = s.sent)
      (answers : s.answers <+: s'.answers)

def Zx.Moves (hears : Addr → Message → Prop) : Zx → Zx → Prop :=
  Relation.ReflTransGen (ServerMove hears)

variable {iqu : Int} {conn : Zqqx} {a : ServerAction} {hears : Addr → Message → Prop}

theorem ServerMove.edits (move : ServerMove hears s s') : s.Edits s' := by
  unfold Zx.Edits
  cases move with
  | @conn iqu conn _ conn' found address move table =>
    rw [table]
    refine .single (.replace iqu conn conn' found address ?_)
    intro positive (named : conn.a.rdcppgudji = iqu)
    exact (move.id (by omega)).trans named
  | @greet d msg _ unknown table =>
    rw [table]
    let conn : Zqqx := ⟨nfkdlws msg.seqNum s.cz s.jjeqqw, d, false, false⟩
    exact .single (.enrol conn unknown fun _ => rfl)
  | remove found table =>
    rw [table]
    exact .single (.remove _ _ found)
  | beside table =>
    rw [table]
    exact .refl

theorem Zx.Moves.edits (moves : s.Moves hears s') : s.Edits s' := by
  induction moves with
  | refl => exact .refl
  | tail _ last ih => exact ih.trans last.edits

/-- Answers are never taken back. -/
theorem Zx.Moves.answers (moves : s.Moves hears s') : s.answers <+: s'.answers := by
  induction moves with
  | refl => exact List.prefix_rfl
  | tail _ last ih => cases last <;> exact ih.trans ‹_›

theorem rangeIn_moves (visits : ∀ s iqu conn s', s.c.lookup iqu = some conn →
      f s iqu conn = some s' → ServerMove hears s s')
    (ranged : s.rangeIn f order = some s') : s.Moves hears s' := by
  refine rangeIn_keeps (s.Moves hears ·) ?_ .refl ranged
  intro t iqu conn t' moves found visit
  exact moves.tail (visits t iqu conn t' found visit)

/-- The registry after a `range`. -/
theorem rangeIn_edits (visits : ∀ s iqu conn s', s.c.lookup iqu = some conn →
      f s iqu conn = some s' → ServerMove (fun _ _ => True) s s')
    (ranged : s.rangeIn f order = some s') : s.Edits s' :=
  (rangeIn_moves visits ranged).edits

theorem emuConn_moves (found : s.c.lookup iqu = some conn) (visit : s.emuConn iqu conn = some s') :
    ServerMove hears s s' := by
  cases Option.some.inj visit
  exact .conn { conn with a := conn.a.tyhdjska } found rfl .tick rfl rfl List.prefix_rfl

theorem mmieqConn_moves (found : s.c.lookup iqu = some conn)
    (visit : s.mmieqConn iqu conn = some s') : ServerMove hears s s' := by
  cases Option.some.inj visit
  exact .conn { conn with c := true } found rfl .marked rfl (List.append_nil _).symm List.prefix_rfl

theorem qieeConn_moves (found : s.c.lookup iqu = some conn)
    (visit : s.qieeConn iqu conn = some s') : ServerMove hears s s' := by
  simp only [Zx.qieeConn, Option.bind_eq_bind, Option.bind_eq_some_iff] at visit
  obtain ⟨⟨payloads, rest⟩, read, result⟩ := visit
  cases Option.some.inj result
  have move : ConnMove (hears conn.d) conn.a rest [] := by
    rw [(readAll_spec read).2]
    exact .read _
  exact .conn { conn with a := rest } found rfl move rfl rfl List.prefix_rfl

theorem hgiConn_moves (found : s.c.lookup iqu = some conn)
    (visit : s.hgiConn iqu conn = some s') : ServerMove hears s s' := by
  cases Option.some.inj visit
  exact .conn { conn with a := conn.a.bnmgrlr.2 } found rfl .flush rfl rfl List.prefix_rfl

/-- The visit of `ngb`: the connection stays, it is closed with nothing left to send, or it is lost;
then its loss is reported if it was not before. -/
inductive NgbVisit (s : Zx) (iqu : Int) (conn : Zqqx) : Zx → Prop where
  | stays (alive : conn.a.jfkdl = false) (waits : conn.c = true → conn.a.agabsdjgdfj = false) :
      NgbVisit s iqu conn s
  | closed (alive : conn.a.jfkdl = false) :
      NgbVisit s iqu conn { s with c := s.c.erase iqu, nemwea := s.nemwea.erase conn.d }
  | lost (ytiqeqe : Bool) : NgbVisit s iqu conn { s with
      c := s.c.erase iqu
      nemwea := s.nemwea.erase conn.d
      ytiqeqe := ytiqeqe
      vorbpe := s.vorbpe ++ if conn.b then [] else [⟨iqu, [], true⟩] }

theorem ngbConn_cases (s : Zx) (iqu : Int) (conn : Zqqx) :
    NgbVisit s iqu conn (s.ngbConn iqu conn) := by
  by_cases lost : conn.a.jfkdl = true
  · have reported : (s.report iqu conn).c.erase iqu = s.c.erase iqu ∧
        s.report iqu conn = { s with
          c := (s.report iqu conn).c
          vorbpe := s.vorbpe ++ if conn.b then [] else [⟨iqu, [], true⟩] } := by
      unfold Zx.report
      by_cases known : conn.b = true
      · rw [if_neg (fun reports => reports.1 known)]
        simp [known]
      · rw [if_pos ⟨known, lost⟩]
        simp [known, Map.erase_insert]
    obtain ⟨table, reported⟩ := reported
    simp only [Zx.ngbConn]
    rw [if_pos (.inr lost)]
    split
    · have visit : NgbVisit s iqu conn _ := .lost true
      rw [← table] at visit
      rw [reported]
      exact visit
    · have visit : NgbVisit s iqu conn _ := .lost s.ytiqeqe
      rw [← table] at visit
      rw [reported]
      exact visit
  · have same : s.report iqu conn = s := if_neg fun reports => lost reports.2
    have unmarked : (if conn.a.jfkdl ∧ s.neowem then { s with ytiqeqe := true } else s) = s :=
      if_neg fun marks => lost marks.1
    simp only [Zx.ngbConn, same, unmarked]
    split
    · exact .closed (Bool.eq_false_iff.mpr lost)
    · rename_i stays
      refine .stays (Bool.eq_false_iff.mpr lost) fun closes => Bool.eq_false_iff.mpr fun sent => ?_
      exact stays (.inl ⟨closes, sent⟩)

theorem ngbConn_moves (found : s.c.lookup iqu = some conn) :
    ServerMove hears s (s.ngbConn iqu conn) := by
  have visit := ngbConn_cases s iqu conn
  generalize s.ngbConn iqu conn = t at visit ⊢
  cases visit with
  | stays => exact .beside rfl rfl List.prefix_rfl
  | closed | lost => exact .remove found rfl rfl List.prefix_rfl

theorem hvi_moves (s : Zx) : ServerMove hears s s.hvi := by
  have step := hvi_cases s
  generalize s.hvi = t at step ⊢
  cases step with
  | waits => exact .beside rfl rfl List.prefix_rfl
  | handed => exact .beside rfl rfl (List.prefix_append _ _)

theorem turnIn_moves (turned : s.turnIn orders = some s') : s.Moves hears s' := by
  obtain ⟨read, flushed, cleaned, steps⟩ := turnIn_cases turned
  have reads : s.Moves hears read :=
    rangeIn_moves (fun _ _ _ _ => qieeConn_moves) (rangeOver_cases steps.reads).2
  have flushes : read.Moves hears flushed :=
    rangeIn_moves (fun _ _ _ _ => hgiConn_moves) (rangeOver_cases steps.flushes).2
  have cleans : flushed.Moves hears cleaned := rangeIn_moves
    (fun _ _ _ _ found visit => Option.some.inj visit ▸ ngbConn_moves found)
    (rangeOver_cases steps.cleans).2
  have ends : ServerMove hears cleaned cleaned.finishTurn := by
    unfold Zx.finishTurn
    split
    · exact .beside rfl rfl List.prefix_rfl
    · exact hvi_moves cleaned
  rw [steps.ends]
  exact (reads.trans (flushes.trans cleans)).tail ends

theorem qzc_moves (s : Zx) (iqu : Int) : ServerMove hears s (s.qzc iqu) := by
  have step := qzc_cases s iqu
  generalize s.qzc iqu = t at step ⊢
  cases step with
  | refused => exact .beside rfl rfl (List.prefix_append _ _)
  | stuck conn found | closing conn found =>
    exact .conn { conn with c := true } found rfl .marked rfl (List.append_nil _).symm
      (List.prefix_append _ _)

/-- What the reader holds can come in, at its address and at that of its connection. -/
def Zx.Brings (hears : Addr → Message → Prop) (s : Zx) : Prop :=
  ∀ d msg, s.reader = .handing d msg → hears d msg ∧
    ∀ iqu conn, s.nemwea.lookup d = some iqu → s.c.lookup iqu = some conn → hears conn.d msg

/-- The two addresses are the same. -/
theorem Zx.Sound.brings (h : s.Sound)
    (comes : ∀ d msg, s.reader = .handing d msg → hears d msg) : s.Brings hears := by
  intro d msg handing
  refine ⟨comes d msg handing, ?_⟩
  intro iqu conn named found
  obtain ⟨conn', found', rfl⟩ := (h.inverse d iqu).mp named
  cases Option.some.inj (found.symm.trans found')
  exact comes _ msg handing

theorem eventIn_moves (brings : s.Brings hears) (event : eventIn orders s a = some s') :
    s.Moves hears s' := by
  cases a with
  | read =>
    cases Option.some.inj event
    unfold Zx.mxp
    split
    · exact .single (.beside rfl rfl (List.prefix_append _ _))
    · have waits : ServerMove hears s { s with moocow := true } := .beside rfl rfl List.prefix_rfl
      exact (Relation.ReflTransGen.single waits).tail (hvi_moves _)
  | write iqu payload =>
    cases qck_cases event with
    | refused => exact .single (.beside rfl rfl (List.prefix_append _ _))
    | written conn a found writes =>
      exact .single (.conn { conn with a := a } found rfl (.write writes) rfl rfl (List.prefix_append _ _))
  | close =>
    have closing : ServerMove hears s { s with neowem := true } := .beside rfl rfl List.prefix_rfl
    refine .head closing ?_
    exact rangeIn_moves (fun _ _ _ _ => mmieqConn_moves) (rangeOver_cases event).2
  | closeConn iqu =>
    cases Option.some.inj event
    exact .single (qzc_moves s iqu)
  | tick => exact rangeIn_moves (fun _ _ _ _ => emuConn_moves) (rangeOver_cases event).2
  | message =>
    simp only [eventIn, serverEvent] at event
    split at event
    · rename_i d msg handing
      obtain ⟨handled, taken, rfl⟩ := Option.map_eq_some_iff.mp event
      obtain ⟨comes, known⟩ := brings d msg handing
      refine .single ?_
      cases qip_cases taken with
      | ignored => exact .beside rfl rfl List.prefix_rfl
      | greeted unknown => exact .greet comes unknown rfl rfl List.prefix_rfl
      | handled iqu conn a named found heard =>
        exact .conn { conn with a := a } found rfl (.hear (known iqu conn named found) heard) rfl rfl List.prefix_rfl
    · contradiction
  | datagram => contradiction
  | stop => contradiction

theorem OrderedStep.moves (step : OrderedStep s orders a s') (brings : s.Brings hears) :
    s.Moves hears s' := by
  cases step with
  | dropped => exact .refl
  | datagram => exact .single (.beside rfl rfl List.prefix_rfl)
  | stop =>
    have answered : ServerMove hears s (s.answer (.closed !s.ytiqeqe)) :=
      .beside rfl rfl (List.prefix_append _ _)
    exact ((Relation.ReflTransGen.single answered).tail (hvi_moves _)).tail
      (.beside rfl rfl List.prefix_rfl)
  | blocked =>
    rename_i event
    exact eventIn_moves brings event
  | turn =>
    rename_i event turned
    exact (eventIn_moves brings event).trans (turnIn_moves turned)

theorem brings_any (s : Zx) : s.Brings fun _ _ => True := fun _ _ _ => ⟨trivial, fun _ _ _ _ => trivial⟩

theorem eventIn_edits (event : eventIn orders s a = some s') : s.Edits s' :=
  (eventIn_moves (brings_any s) event).edits

theorem OrderedStep.edits (step : OrderedStep s orders a s') : s.Edits s' :=
  (step.moves (brings_any s)).edits

theorem run_edits {acts : List (ServerAction × Orders)} (reached : run orderedStep s acts = some s') :
    s.Edits s' := by
  refine run_keeps (s.Edits ·) ?_ .refl acts reached
  intro t act t' edits taken
  exact edits.trans (orderedStep_cases taken).edits

theorem sound_run {params : Params} {acts : List (ServerAction × Orders)}
    (reached : run orderedStep (newServer params) acts = some s) : s.Sound :=
  Registry.sound_empty.edits (run_edits reached)

/-! ### What a turn leaves behind -/

def Zx.Alive (s : Zx) : Prop := ∀ iqu conn, s.c.lookup iqu = some conn → conn.a.jfkdl = false

theorem ngbConn_others {other : Int} (away : other ≠ iqu) :
    (s.ngbConn iqu conn).c.lookup other = s.c.lookup other := by
  have visit := ngbConn_cases s iqu conn
  generalize s.ngbConn iqu conn = t at visit ⊢
  cases visit with
  | stays => rfl
  | closed | lost => exact AList.lookup_erase_ne away

/-- Between two turns a connection is not lost, it is not ready to be closed, and nothing waits for the
socket. -/
structure Zqqx.Settled (conn : Zqqx) : Prop where
  lives : conn.a.jfkdl = false
  waits : conn.c = true → conn.a.agabsdjgdfj = false
  flushed : conn.a.rfxtuoncvn = []

theorem ngbConn_settled (found : s.c.lookup iqu = some conn) (flushed : conn.a.rfxtuoncvn = [])
    {after : Zqqx} (there : (s.ngbConn iqu conn).c.lookup iqu = some after) : after.Settled := by
  have visit := ngbConn_cases s iqu conn
  generalize s.ngbConn iqu conn = t at visit there
  cases visit with
  | stays alive waits =>
    cases Option.some.inj (found.symm.trans there)
    exact ⟨alive, waits, flushed⟩
  | closed => simp at there
  | lost => simp at there

theorem hvi_table (s : Zx) : s.hvi.c = s.c := by
  have step := hvi_cases s
  generalize s.hvi = t at step ⊢
  cases step with
  | waits => rfl
  | handed => rfl

theorem finishTurn_table (s : Zx) : s.finishTurn.c = s.c := by
  unfold Zx.finishTurn
  split
  · rfl
  · exact hvi_table s

/-- Every key is visited. -/
theorem rangeOver_each (before good : Zqqx → Prop) (still : ∀ conn, good conn → before conn)
    (visits : ∀ s iqu conn s', s.c.lookup iqu = some conn → before conn → f s iqu conn = some s' →
      (∀ after, s'.c.lookup iqu = some after → good after) ∧
        ∀ other, other ≠ iqu → s'.c.lookup other = s.c.lookup other)
    (start : ∀ iqu conn, s.c.lookup iqu = some conn → before conn)
    (ranged : s.rangeOver f order = some s') (there : s'.c.lookup iqu = some conn) : good conn := by
  obtain ⟨whole, ranged⟩ := rangeOver_cases ranged
  rcases rangeIn_each before good still visits start ranged there with fine | ⟨away, old⟩
  · exact fine
  · exact absurd (whole.mem_iff.mpr (Map.mem_of_lookup old)) away

theorem turnIn_settled (turned : s.turnIn orders = some s') (there : s'.c.lookup iqu = some conn) :
    conn.Settled := by
  obtain ⟨read, flushed, cleaned, steps⟩ := turnIn_cases turned
  rw [steps.ends, finishTurn_table] at there
  refine rangeOver_each (fun conn => conn.a.rfxtuoncvn = []) Zqqx.Settled (fun _ => (·.flushed)) ?_ ?_
    steps.cleans there
  · intro t iqu conn t' found empty visit
    cases Option.some.inj visit
    exact ⟨fun _ => ngbConn_settled found empty, fun _ away => ngbConn_others away⟩
  · intro iqu conn found
    refine rangeOver_each (fun _ => True) (fun conn => conn.a.rfxtuoncvn = []) (fun _ _ => trivial) ?_
      (fun _ _ _ => trivial) steps.flushes found
    intro t iqu conn t' _ _ visit
    cases Option.some.inj visit
    refine ⟨fun after own => ?_, fun _ away => AList.lookup_insert_ne away⟩
    cases Option.some.inj ((AList.lookup_insert _).symm.trans own)
    rfl

theorem turnIn_alive (turned : s.turnIn orders = some s') : s'.Alive :=
  fun _ _ there => (turnIn_settled turned there).lives

/-! ### Requests and their answers -/

/-- A call of `Write` or `CloseConn`. -/
inductive Request where
  | write (iqu : Int)
  | closeConn (iqu : Int)
  deriving DecidableEq, Repr

def ServerAction.request : ServerAction → Option Request
  | .write iqu _ => some (.write iqu)
  | .closeConn iqu => some (.closeConn iqu)
  | _ => none

def ServerAnswer.request : ServerAnswer → Option Request
  | .wrote iqu _ => some (.write iqu)
  | .closedConn iqu _ => some (.closeConn iqu)
  | _ => none

/-- The calls that were answered, in the order of the answers. -/
def Zx.requests (s : Zx) : List Request := s.answers.filterMap ServerAnswer.request

theorem requests_answer (s : Zx) (answer : ServerAnswer) :
    (s.answer answer).requests = s.requests ++ answer.request.toList := by
  cases h : answer.request with
  | none | some request => simp [Zx.requests, Zx.answer, h]

/-- Nobody is answered and the main loop goes on, at its close request and its reader too. -/
structure Zx.Quiet (s s' : Zx) : Prop where
  answers : s'.answers = s.answers
  main : s'.main = s.main
  neowem : s'.neowem = s.neowem
  reader : s'.reader = s.reader

theorem Zx.Quiet.requests (h : s.Quiet s') : s'.requests = s.requests := by
  rw [Zx.requests, h.answers, Zx.requests]

theorem rangeIn_quiet
    (visits : ∀ s iqu conn s', f s iqu conn = some s' → s.Quiet s')
    (ranged : s.rangeIn f order = some s') : s.Quiet s' := by
  refine rangeIn_keeps (s.Quiet ·) ?_ ⟨rfl, rfl, rfl, rfl⟩ ranged
  intro t iqu conn t' quiet _ visit
  have here := visits t iqu conn t' visit
  exact ⟨here.answers.trans quiet.answers, here.main.trans quiet.main,
    here.neowem.trans quiet.neowem, here.reader.trans quiet.reader⟩

theorem emuConn_quiet (visit : s.emuConn iqu conn = some s') : s.Quiet s' := by
  cases Option.some.inj visit
  exact ⟨rfl, rfl, rfl, rfl⟩

theorem mmieqConn_quiet (visit : s.mmieqConn iqu conn = some s') : s.Quiet s' := by
  cases Option.some.inj visit
  exact ⟨rfl, rfl, rfl, rfl⟩

theorem hgiConn_quiet (visit : s.hgiConn iqu conn = some s') : s.Quiet s' := by
  cases Option.some.inj visit
  exact ⟨rfl, rfl, rfl, rfl⟩

theorem qieeConn_quiet (visit : s.qieeConn iqu conn = some s') : s.Quiet s' := by
  simp only [Zx.qieeConn, Option.bind_eq_bind, Option.bind_eq_some_iff] at visit
  obtain ⟨read, -, result⟩ := visit
  cases Option.some.inj result
  exact ⟨rfl, rfl, rfl, rfl⟩

theorem ngbConn_quiet (s : Zx) (iqu : Int) (conn : Zqqx) : s.Quiet (s.ngbConn iqu conn) := by
  have visit := ngbConn_cases s iqu conn
  generalize s.ngbConn iqu conn = t at visit ⊢
  cases visit with
  | stays | closed | lost => exact ⟨rfl, rfl, rfl, rfl⟩

theorem hvi_requests (s : Zx) : s.hvi.requests = s.requests ∧ s.hvi.main = s.main := by
  have step := hvi_cases s
  generalize s.hvi = t at step ⊢
  cases step with
  | waits => exact ⟨rfl, rfl⟩
  | handed => exact ⟨by simp [Zx.requests, Zx.answer, ServerAnswer.request], rfl⟩

theorem turnIn_requests (select : s.main = .select) (turned : s.turnIn orders = some s') :
    s'.requests = s.requests ∧ s'.main ≠ .blocked := by
  obtain ⟨read, flushed, cleaned, steps⟩ := turnIn_cases turned
  have reads := rangeIn_quiet (fun _ _ _ _ => qieeConn_quiet) (rangeOver_cases steps.reads).2
  have flushes := rangeIn_quiet (fun _ _ _ _ => hgiConn_quiet) (rangeOver_cases steps.flushes).2
  have cleans := rangeIn_quiet (fun _ _ _ _ visit => Option.some.inj visit ▸ ngbConn_quiet _ _ _)
    (rangeOver_cases steps.cleans).2
  have same : cleaned.requests = s.requests :=
    cleans.requests.trans (flushes.requests.trans reads.requests)
  have selected : cleaned.main = .select :=
    cleans.main.trans (flushes.main.trans (reads.main.trans select))
  rw [steps.ends, Zx.finishTurn]
  split
  · exact ⟨same, by simp⟩
  · obtain ⟨answers, main⟩ := hvi_requests cleaned
    exact ⟨answers.trans same, by simp [main, selected]⟩

theorem qck_requests {payload : Payload} (taken : s.qck iqu payload = some s') :
    s'.requests = s.requests ++ [.write iqu] ∧ s'.main = s.main := by
  have answered : ∀ (t : Zx) ok, t.answers = s.answers → t.main = s.main →
      (t.answer (.wrote iqu ok)).requests = s.requests ++ [.write iqu] ∧
        (t.answer (.wrote iqu ok)).main = s.main := by
    intro t ok answers main
    rw [requests_answer, Zx.requests, answers]
    exact ⟨rfl, main⟩
  cases qck_cases taken with
  | refused => exact answered s false rfl rfl
  | written => exact answered _ true rfl rfl

/-- A connection that is not lost gets one answer. -/
theorem qzc_requests (alive : s.Alive) (iqu : Int) :
    (s.qzc iqu).requests = s.requests ++ [.closeConn iqu] ∧ (s.qzc iqu).main = s.main := by
  have step := qzc_cases s iqu
  generalize s.qzc iqu = t at step ⊢
  cases step with
  | refused => exact ⟨requests_answer s _, rfl⟩
  | stuck conn found lost => exact absurd lost (by simp [alive iqu conn found])
  | closing => exact ⟨requests_answer _ (.closedConn iqu true), rfl⟩

theorem qip_quiet {d : Addr} {msg : Message} (taken : s.qip d msg = some s') : s.Quiet s' := by
  cases qip_cases taken with
  | ignored | greeted | handled => exact ⟨rfl, rfl, rfl, rfl⟩

theorem eventIn_requests (alive : s.Alive) (event : eventIn orders s a = some s') :
    s'.requests = s.requests ++ a.request.toList ∧ s'.main = s.main := by
  have quiet : ∀ {t : Zx}, t.Quiet s' → t.answers = s.answers → t.main = s.main →
      s'.requests = s.requests ++ [] ∧ s'.main = s.main := by
    intro t same answers main
    rw [List.append_nil, same.requests, Zx.requests, answers]
    exact ⟨rfl, same.main.trans main⟩
  cases a with
  | read =>
    cases Option.some.inj event
    simp only [Zx.mxp]
    split
    · exact ⟨requests_answer s _, rfl⟩
    · obtain ⟨answers, main⟩ := hvi_requests { s with moocow := true }
      exact ⟨by rw [answers]; exact (List.append_nil _).symm, main⟩
  | write iqu payload => exact qck_requests event
  | close =>
    exact quiet (rangeIn_quiet (fun _ _ _ _ => mmieqConn_quiet) (rangeOver_cases event).2) rfl rfl
  | closeConn iqu =>
    cases Option.some.inj event
    exact qzc_requests alive iqu
  | tick =>
    exact quiet (rangeIn_quiet (fun _ _ _ _ => emuConn_quiet) (rangeOver_cases event).2) rfl rfl
  | message =>
    simp only [eventIn, serverEvent] at event
    split at event
    · obtain ⟨handled, taken, rfl⟩ := Option.map_eq_some_iff.mp event
      have same := qip_quiet taken
      exact quiet (t := { s with reader := .polling }) ⟨same.answers, same.main, same.neowem, rfl⟩
        rfl rfl
    · contradiction
  | datagram => contradiction
  | stop => contradiction

/-! ### Whole runs -/

/-- No connection is lost and the main loop is not stuck at an answer that nobody takes. -/
structure Zx.Serving (s : Zx) : Prop where
  alive : s.Alive
  free : s.main ≠ .blocked

theorem OrderedStep.serving (step : OrderedStep s orders a s') (h : s.Serving) :
    s'.Serving ∧ s'.requests = s.requests ++ a.request.toList := by
  cases step with
  | dropped => exact ⟨h, (List.append_nil _).symm⟩
  | datagram => exact ⟨⟨h.alive, h.free⟩, (List.append_nil _).symm⟩
  | stop =>
    refine ⟨⟨?_, by simp⟩, ?_⟩
    · intro iqu conn there
      rw [hvi_table] at there
      exact h.alive iqu conn there
    · exact (hvi_requests _).1.trans (requests_answer s _)
  | blocked =>
    rename_i select stuck event
    have running := (eventIn_requests h.alive event).2
    rw [stuck, select] at running
    cases running
  | turn =>
    rename_i handled select free event turned
    obtain ⟨answered, running⟩ := eventIn_requests h.alive event
    obtain ⟨same, goes⟩ := turnIn_requests (running.trans select) turned
    exact ⟨⟨turnIn_alive turned, goes⟩, same.trans answered⟩

/-- What every visit keeps and what lets every visit go through lets the `range` go through. -/
theorem rangeIn_total (inv : Zx → Prop)
    (goes : ∀ s iqu conn, inv s → s.c.lookup iqu = some conn →
      ∃ s', f s iqu conn = some s' ∧ inv s') (start : inv s) (order : List Int) :
    ∃ s', s.rangeIn f order = some s' := by
  unfold Zx.rangeIn
  induction order generalizing s with
  | nil => exact ⟨s, rfl⟩
  | cons iqu rest ih =>
    simp only [List.foldlM_cons, Option.bind_eq_bind]
    cases found : s.c.lookup iqu with
    | none => exact ih start
    | some conn =>
      obtain ⟨t, visit, kept⟩ := goes s iqu conn start found
      obtain ⟨s', later⟩ := ih kept
      exact ⟨s', by simp only [visit, Option.bind_some, later]⟩

theorem Zx.Sound.id (h : s.Sound) (found : s.c.lookup iqu = some conn) :
    conn.a.rdcppgudji ≠ 0 := by
  obtain ⟨positive, -, named⟩ := h.ids iqu conn found
  rw [show conn.a.rdcppgudji = iqu from named]
  omega

/-- No read panics while the endpoints bear the numbers of their connections. -/
theorem qiee_total (h : s.Sound) (order : List Int) :
    ∃ s', s.rangeIn Zx.qieeConn order = some s' := by
  refine rangeIn_total Zx.Sound ?_ h order
  intro s iqu conn sound found
  obtain ⟨payloads, rest, read⟩ := readAll_total conn.a.asdfghj.length (sound.id found)
  have visit : ∃ s', s.qieeConn iqu conn = some s' := by simp [Zx.qieeConn, read]
  obtain ⟨s', visit⟩ := visit
  have move : ServerMove (fun _ _ => True) s s' := qieeConn_moves found visit
  exact ⟨s', visit, sound.edits move.edits⟩

/-- All the ranges of the turn come to the connections in one order. -/
def inOrder (order : List Int) (a : ServerAction) : ServerAction × Orders :=
  (a, ⟨order, order, order, order⟩)

end DistSys.Lsp
