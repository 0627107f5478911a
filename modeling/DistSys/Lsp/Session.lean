import DistSys.Lsp.Link
import DistSys.Lsp.Client
import DistSys.Lsp.Server

/-! A client and the server it talks to, which may have any other clients. The datagrams between
the two are those that they have sent; from other addresses anything may come. -/
namespace DistSys.Lsp

open Function (update)
open DistSys.Lib

/-- `conn` is the connection that the server has made for the client. -/
structure Session where
  client : Rtvbvojjbl
  server : Zx
  conn : Option Int

inductive SessionAction where
  | client (a : ClientAction)
  | server (a : ServerAction)
  deriving DecidableEq, Repr

def newSession (params : Side → Params) (isn : Int) : Session where
  client := newClient isn (params .client)
  server := newServer (params .server)
  conn := none

/-- The message that the main loop of the server takes next makes a connection for `d`. -/
def makesConn (s : Zx) (d : Addr) : Bool :=
  match s.reader with
  | .handing from_ msg =>
    from_ = d ∧ s.nemwea.lookup d = none ∧ ¬ s.neowem ∧ msg.type = .connect
  | _ => false

/-- The client's address is `here`. The setting has one endpoint at each side: a step that would
make a second connection for the client is not part of it. -/
def sessionStep (here : Addr) (s : Session) : SessionAction → Option Session
  | .client (.datagram (some m)) =>
    if (here, m) ∈ s.server.sent then
      (clientStep s.client (.datagram (some m))).map fun client => { s with client := client }
    else none
  | .client a => (clientStep s.client a).map fun client => { s with client := client }
  | .server (.datagram d msg) =>
    if d = here → msg ∈ s.client.sent then
      (serverStep s.server (.datagram d msg)).map fun server => { s with server := server }
    else none
  | .server .message =>
    if makesConn s.server here then
      if s.conn = none then
        (serverStep s.server .message).map fun server =>
          { s with server := server, conn := some s.server.jjeqqw }
      else none
    else (serverStep s.server .message).map fun server => { s with server := server }
  | .server a => (serverStep s.server a).map fun server => { s with server := server }

/-- All that was put into the read queue of the server's endpoint for the client. -/
def Session.received (s : Session) : List Payload :=
  match s.conn with
  | none => []
  | some iqu => s.server.taken iqu ++ match s.server.c.lookup iqu with
    | some conn => conn.a.asdfghj
    | none => []

/-! ### The session is a link -/

/-- The client's part of a link. -/
structure ClientSide (c : Rtvbvojjbl) (link : Link) : Prop where
  ends : link.ends .client = some c.uygovtfegl
  sent : link.net .client = c.sent
  wrote : link.wrote .client = c.wrote
  taken : link.read .client = c.taken
  holds : c.reader.Holds (· ∈ link.net .server)

/-- The server's endpoint for the client, in the table or as it was when it was removed. With
`closing`, it was in the table when the server's close began. -/
structure Serves (here : Addr) (closing : Bool) (iqu : Int) (s : Zx) (link : Link) (e : Bxnzsdj) :
    Prop where
  ends : link.ends .server = some e
  old : iqu < s.jjeqqw
  wrote : link.wrote .server = s.wrote iqu
  taken : link.read .server = s.taken iqu
  present : ∀ conn, s.c.lookup iqu = some conn → conn.d = here ∧ conn.a = e
  removed : s.c.lookup iqu = none → e.asdfghj = []
  closed : closing = true → s.neowem = true ∧
    (s.c.lookup iqu = none → s.ytiqeqe = true ∨ e.agabsdjgdfj = true)

/-- The server's own bookkeeping: addresses and connections belong together, numbers are given
once, and the close is answered when the table is empty. -/
structure Kept (here : Addr) (tracked : Option Int) (s : Zx) : Prop where
  known : ∀ d iqu, s.nemwea.lookup d = some iqu → ∃ conn, s.c.lookup iqu = some conn ∧ conn.d = d
  fresh : ∀ iqu, s.jjeqqw ≤ iqu → s.c.lookup iqu = none ∧ s.wrote iqu = [] ∧ s.taken iqu = []
  only : ∀ iqu conn, s.c.lookup iqu = some conn → conn.d = here → tracked = some iqu
  answered : .closed true ∈ s.answers →
    s.ytiqeqe = false ∧ Map.size s.c = 0 ∧ s.main = .returned
  done : s.main = .ini → Map.size s.c = 0

/-- The server's part of a link. -/
structure ServerSide (here : Addr) (tracked : Option Int) (closing : Bool) (s : Zx) (link : Link) :
    Prop where
  sent : ∀ m, (here, m) ∈ s.sent → m ∈ link.net .server
  holds : ∀ m, s.reader = .handing here m → m ∈ link.net .client
  absent : tracked = none →
    link.ends .server = none ∧ link.wrote .server = [] ∧ link.read .server = []
  serves : ∀ iqu, tracked = some iqu → ∃ e, Serves here closing iqu s link e

structure Joined (params : Side → Params) (isn : Int) (here : Addr) (tracked : Option Int)
    (closing : Bool) (c : Rtvbvojjbl) (s : Zx) : Prop where
  kept : Kept here tracked s
  link : ∃ link t, Linked params isn link t ∧ ClientSide c link ∧
    ServerSide here tracked closing s link

variable {params : Side → Params} {isn : Int} {here : Addr} {tracked : Option Int}
  {closing : Bool} {c c' : Rtvbvojjbl} {s s' : Zx} {link : Link} {iqu : Int} {conn conn' : Zqqx}

theorem found_nonempty (found : s.c.lookup iqu = some conn) : Map.size s.c ≠ 0 := by
  intro empty
  rw [Map.eq_empty_of_size empty, AList.lookup_empty] at found
  cases found

theorem Kept.number (h : Kept here tracked s) (found : s.c.lookup iqu = some conn) :
    iqu < s.jjeqqw := by
  by_contra late
  rw [(h.fresh iqu (by omega)).1] at found
  cases found

/-- A connection changes in its place. -/
theorem Kept.replace (h : Kept here tracked s) (found : s.c.lookup iqu = some conn)
    (address : conn'.d = conn.d) (table : s'.c = s.c.insert iqu conn')
    (names : s'.nemwea = s.nemwea) (next : s'.jjeqqw = s.jjeqqw)
    (wrote : ∀ j, j ≠ iqu → s'.wrote j = s.wrote j)
    (taken : ∀ j, j ≠ iqu → s'.taken j = s.taken j)
    (answers : .closed true ∈ s'.answers → .closed true ∈ s.answers)
    (main : s'.main = .ini → s.main = .ini) : Kept here tracked s' := by
  have number := h.number found
  constructor
  · intro d j named
    rw [names] at named
    obtain ⟨old, there, belongs⟩ := h.known d j named
    rw [table, Map.lookup_insert]
    split
    · rename_i here
      rw [here, found] at there
      cases Option.some.inj there
      exact ⟨conn', rfl, address.trans belongs⟩
    · exact ⟨old, there, belongs⟩
  · intro j late
    rw [next] at late
    have other : j ≠ iqu := by omega
    rw [table, Map.lookup_insert, if_neg other, wrote j other, taken j other]
    exact h.fresh j late
  · intro j other there belongs
    rw [table, Map.lookup_insert] at there
    split at there
    · rename_i same
      cases Option.some.inj there
      exact same ▸ h.only iqu conn found (address ▸ belongs)
    · exact h.only j other there belongs
  · intro closed
    exact absurd (h.answered (answers closed)).2.1 (found_nonempty found)
  · intro waits
    exact absurd (h.done (main waits)) (found_nonempty found)

/-- The server's moves leave the client in its place. -/
theorem ClientSide.beside (h : ClientSide c link) (e : Bxnzsdj) (w r : List Payload)
    (m : List Message) : ClientSide c (link.move .server e w r m) := by
  constructor
  · simpa [Link.move] using h.ends
  · simpa [Link.move] using h.sent
  · simpa [Link.move] using h.wrote
  · simpa [Link.move] using h.taken
  · apply h.holds.mono
    intro other member
    simp [Link.move, member]

/-- Moves at the endpoint of a connection. For any other connection than the client's nothing is
known of them, and nothing need be. -/
theorem Joined.moveConn (h : Joined params isn here tracked closing c s) {a : Bxnzsdj}
    {w r : List Payload} {m : List Message} (found : s.c.lookup iqu = some conn)
    (moves : tracked = some iqu → EndMoves (· ∈ c.sent) conn.a a w r m) :
    Joined params isn here tracked closing c (s.moveConn iqu conn a w r m) := by
  have kept : Kept here tracked (s.moveConn iqu conn a w r m) := by
    have address : ({ conn with a := a } : Zqqx).d = conn.d := rfl
    refine h.kept.replace found address rfl rfl rfl ?_ ?_ id id
    · intro j other
      simp [Zx.moveConn, other]
    · intro j other
      simp [Zx.moveConn, other]
  obtain ⟨link, t, linked, client, server⟩ := h.link
  refine ⟨kept, ?_⟩
  by_cases mine : tracked = some iqu
  · obtain ⟨e, serves⟩ := server.serves iqu mine
    obtain ⟨address, same⟩ := serves.present conn found
    have ran := moves mine
    rw [← client.sent, same] at ran
    obtain ⟨t', linked'⟩ := linked.moves serves.ends ran
    refine ⟨_, t', linked', client.beside a w r m, ?_, ?_, ?_, ?_⟩
    · intro m' member
      simp only [Zx.moveConn, List.mem_append, List.mem_map] at member
      simp only [Link.move, Function.update_self, List.mem_append]
      rcases member with old | ⟨new, there, pair⟩
      · exact .inl (server.sent m' old)
      · cases pair
        exact .inr there
    · intro m' handing
      simpa [Link.move] using server.holds m' handing
    · intro none
      cases mine.symm.trans none
    · intro j now
      cases Option.some.inj (mine.symm.trans now)
      refine ⟨a, ?_⟩
      constructor
      · simp [Link.move]
      · exact serves.old
      · simp [Link.move, Zx.moveConn, serves.wrote]
      · simp [Link.move, Zx.moveConn, serves.taken]
      · intro other there
        simp only [Zx.moveConn, AList.lookup_insert] at there
        cases Option.some.inj there
        exact ⟨address, rfl⟩
      · intro gone
        simp [Zx.moveConn] at gone
      · intro began
        exact ⟨(serves.closed began).1, fun gone => by simp [Zx.moveConn] at gone⟩
  · refine ⟨link, t, linked, client, ?_, server.holds, server.absent, ?_⟩
    · intro m' member
      simp only [Zx.moveConn, List.mem_append, List.mem_map] at member
      rcases member with old | ⟨new, there, pair⟩
      · exact server.sent m' old
      · exact absurd (h.kept.only iqu conn found (congrArg Prod.fst pair)) mine
    · intro j now
      have other : j ≠ iqu := by
        rintro rfl
        exact mine now
      obtain ⟨e, serves⟩ := server.serves j now
      refine ⟨e, serves.ends, serves.old, ?_, ?_, ?_, ?_, ?_⟩
      · simpa [Zx.moveConn, other] using serves.wrote
      · simpa [Zx.moveConn, other] using serves.taken
      · simpa [Zx.moveConn, Map.lookup_insert, other] using serves.present
      · simpa [Zx.moveConn, Map.lookup_insert, other] using serves.removed
      · simpa [Zx.moveConn, Map.lookup_insert, other] using serves.closed

/-- In the `select` the close has not been answered. -/
theorem Kept.unanswered (h : Kept here tracked s) (select : s.main = .select) :
    .closed true ∉ s.answers := by
  intro closed
  cases select.symm.trans (h.answered closed).2.2

/-- A step within a turn that leaves endpoints, addresses and numbers alone. -/
structure Alike (s s' : Zx) : Prop where
  table : ∀ iqu, (s'.c.lookup iqu).map (fun conn => (conn.a, conn.d)) =
    (s.c.lookup iqu).map (fun conn => (conn.a, conn.d))
  names : s'.nemwea = s.nemwea
  next : s'.jjeqqw = s.jjeqqw
  wrote : s'.wrote = s.wrote
  taken : s'.taken = s.taken
  sent : s'.sent = s.sent
  reader : s'.reader = s.reader ∨ s'.reader = .polling
  closes : s.neowem = true → s'.neowem = true
  fails : s.ytiqeqe = true → s'.ytiqeqe = true
  answers : .closed true ∈ s'.answers → .closed true ∈ s.answers
  main : s'.main ≠ .ini

theorem Alike.found (h : Alike s s') (there : s'.c.lookup iqu = some conn') :
    ∃ conn, s.c.lookup iqu = some conn ∧ conn'.d = conn.d ∧ conn'.a = conn.a := by
  have same := h.table iqu
  rw [there, Option.map_some] at same
  obtain ⟨conn, found, pair⟩ := Option.map_eq_some_iff.mp same.symm
  obtain ⟨endpoint, address⟩ := Prod.mk.inj pair
  exact ⟨conn, found, address.symm, endpoint.symm⟩

theorem Alike.missing (h : Alike s s') : s'.c.lookup iqu = none ↔ s.c.lookup iqu = none := by
  have same := h.table iqu
  rw [← Option.map_eq_none_iff (f := fun conn => (conn.a, conn.d)), same, Option.map_eq_none_iff]

theorem Joined.alike (h : Joined params isn here tracked closing c s) (select : s.main = .select)
    (same : Alike s s') : Joined params isn here tracked closing c s' := by
  constructor
  · constructor
    · intro d iqu named
      rw [same.names] at named
      obtain ⟨conn, found, belongs⟩ := h.kept.known d iqu named
      cases there : s'.c.lookup iqu with
      | none =>
        rw [same.missing.mp there] at found
        cases found
      | some conn' =>
        obtain ⟨old, before, address, -⟩ := same.found there
        cases Option.some.inj (before.symm.trans found)
        exact ⟨conn', rfl, address.trans belongs⟩
    · intro iqu late
      rw [same.next] at late
      rw [same.missing, same.wrote, same.taken]
      exact h.kept.fresh iqu late
    · intro iqu conn' there belongs
      obtain ⟨conn, found, address, -⟩ := same.found there
      exact h.kept.only iqu conn found (address ▸ belongs)
    · intro closed
      exact absurd (same.answers closed) (h.kept.unanswered select)
    · intro waits
      exact absurd waits same.main
  · obtain ⟨link, t, linked, client, server⟩ := h.link
    refine ⟨link, t, linked, client, ?_, ?_, server.absent, ?_⟩
    · rw [same.sent]
      exact server.sent
    · intro m handing
      rcases same.reader with still | gone
      · exact server.holds m (still ▸ handing)
      · cases gone.symm.trans handing
    · intro iqu now
      obtain ⟨e, serves⟩ := server.serves iqu now
      refine ⟨e, serves.ends, same.next ▸ serves.old, same.wrote ▸ serves.wrote,
        same.taken ▸ serves.taken, ?_, ?_, ?_⟩
      · intro conn' there
        obtain ⟨conn, found, address, endpoint⟩ := same.found there
        rw [address, endpoint]
        exact serves.present conn found
      · rw [same.missing]
        exact serves.removed
      · intro began
        obtain ⟨closes, gone⟩ := serves.closed began
        rw [same.missing]
        exact ⟨same.closes closes, fun removed => (gone removed).imp_left same.fails⟩

/-! ### A turn of the server -/

/-- Within a turn, before its end. -/
def Busy (params : Side → Params) (isn : Int) (here : Addr) (tracked : Option Int)
    (closing : Bool) (c : Rtvbvojjbl) (s : Zx) : Prop :=
  Joined params isn here tracked closing c s ∧ s.main = .select

theorem alike_flag (found : s.c.lookup iqu = some conn) (address : conn'.d = conn.d)
    (endpoint : conn'.a = conn.a) (j : Int) :
    ((s.c.insert iqu conn').lookup j).map (fun conn => (conn.a, conn.d)) =
      (s.c.lookup j).map (fun conn => (conn.a, conn.d)) := by
  rw [Map.lookup_insert]
  split
  · rename_i same
    rw [same, found]
    simp [address, endpoint]
  · rfl

theorem hvi_alike (select : s.main ≠ .ini) : Alike s s.hvi := by
  have step := hvi_cases s
  generalize s.hvi = t at step ⊢
  cases step with
  | waits => exact ⟨fun _ => rfl, rfl, rfl, rfl, rfl, rfl, .inl rfl, id, id, id, select⟩
  | handed =>
    exact ⟨fun _ => rfl, rfl, rfl, rfl, rfl, rfl, .inl rfl, id, id, by simp [Zx.answer], select⟩

theorem answer_alike {answer : ServerAnswer} (select : s.main = .select)
    (other : answer ≠ .closed true) : Alike s (s.answer answer) := by
  refine ⟨fun _ => rfl, rfl, rfl, rfl, rfl, rfl, .inl rfl, id, id, ?_, ?_⟩
  · intro closed
    rcases List.mem_append.mp closed with old | new
    · exact old
    · exact absurd (List.mem_singleton.mp new).symm other
  · intro waits
    cases select.symm.trans waits

section

variable (h : Busy params isn here tracked closing c s)
include h

theorem Busy.moveConn {a : Bxnzsdj} {w r : List Payload} {m : List Message}
    (found : s.c.lookup iqu = some conn)
    (moves : tracked = some iqu → EndMoves (· ∈ c.sent) conn.a a w r m) :
    Busy params isn here tracked closing c (s.moveConn iqu conn a w r m) :=
  ⟨h.1.moveConn found moves, h.2⟩

theorem Busy.emu (ticked : s.emu = some s') : Busy params isn here tracked closing c s' := by
  refine eachConn_keeps (Busy params isn here tracked closing c) ?_ h ticked
  intro s iqu conn s' h found visit
  cases Option.some.inj visit
  exact h.moveConn found fun _ => .tick

theorem Busy.hgi (flushed : s.hgi = some s') : Busy params isn here tracked closing c s' := by
  refine eachConn_keeps (Busy params isn here tracked closing c) ?_ h flushed
  intro s iqu conn s' h found visit
  cases Option.some.inj visit
  exact h.moveConn found fun _ => EndMove.single .flush

theorem Busy.qiee (read : s.qiee = some s') : Busy params isn here tracked closing c s' := by
  refine eachConn_keeps (Busy params isn here tracked closing c) ?_ h read
  intro s iqu conn s' h found visit
  simp only [Zx.qieeConn, Option.bind_eq_bind, Option.bind_eq_some_iff] at visit
  obtain ⟨⟨payloads, rest⟩, reads, result⟩ := visit
  cases Option.some.inj result
  have moved := h.moveConn found fun _ => readAll_moves reads
  refine ⟨moved.1.alike moved.2 ?_, moved.2⟩
  exact ⟨fun _ => rfl, rfl, rfl, rfl, rfl, rfl, .inl rfl, id, id, id, by simp [moved.2]⟩

theorem Busy.mmieq (closed : s.mmieq = some s') : Busy params isn here tracked closing c s' := by
  have began : Busy params isn here tracked closing c { s with neowem := true } :=
    ⟨h.1.alike h.2 ⟨fun _ => rfl, rfl, rfl, rfl, rfl, rfl, .inl rfl, fun _ => rfl, id, id,
      by simp [h.2]⟩, h.2⟩
  refine eachConn_keeps (Busy params isn here tracked closing c) ?_ began closed
  intro s iqu conn s' h found visit
  cases Option.some.inj visit
  exact ⟨h.1.alike h.2 ⟨alike_flag found rfl rfl, rfl, rfl, rfl, rfl, rfl, .inl rfl, id, id, id,
    by simp [h.2]⟩, h.2⟩

end

/-- A connection leaves the table with nothing left to read. -/
theorem Joined.remove (h : Joined params isn here tracked closing c s) (select : s.main = .select)
    (found : s.c.lookup iqu = some conn) (empty : conn.a.asdfghj = [])
    (clean : s.neowem = true → s.ytiqeqe = true ∨ conn.a.agabsdjgdfj = true) :
    Joined params isn here tracked closing c
      { s with c := s.c.erase iqu, nemwea := s.nemwea.erase conn.d } := by
  constructor
  · constructor
    · intro d j named
      simp only [Map.lookup_erase] at named ⊢
      split at named
      · contradiction
      · rename_i elsewhere
        obtain ⟨other, there, belongs⟩ := h.kept.known d j named
        rw [if_neg]
        · exact ⟨other, there, belongs⟩
        · rintro rfl
          cases Option.some.inj (there.symm.trans found)
          exact elsewhere belongs.symm
    · intro j late
      obtain ⟨missing, nothing⟩ := h.kept.fresh j late
      refine ⟨?_, nothing⟩
      simp only [Map.lookup_erase, missing, ite_self]
    · intro j other there belongs
      simp only [Map.lookup_erase] at there
      split at there
      · contradiction
      · exact h.kept.only j other there belongs
    · intro closed
      exact absurd closed (h.kept.unanswered select)
    · intro waits
      cases select.symm.trans waits
  · obtain ⟨link, t, linked, client, server⟩ := h.link
    refine ⟨link, t, linked, client, server.sent, server.holds, server.absent, ?_⟩
    intro j now
    obtain ⟨e, serves⟩ := server.serves j now
    refine ⟨e, serves.ends, serves.old, serves.wrote, serves.taken, ?_, ?_, ?_⟩
    · intro other there
      simp only [Map.lookup_erase] at there
      split at there
      · contradiction
      · exact serves.present other there
    · intro gone
      by_cases mine : j = iqu
      · subst mine
        exact (serves.present conn found).2 ▸ empty
      · simp only [Map.lookup_erase, if_neg mine] at gone
        exact serves.removed gone
    · intro began
      obtain ⟨closes, before⟩ := serves.closed began
      refine ⟨closes, ?_⟩
      intro gone
      by_cases mine : j = iqu
      · subst mine
        exact (serves.present conn found).2 ▸ clean closes
      · simp only [Map.lookup_erase, if_neg mine] at gone
        exact before gone

theorem Emptied.hgi (h : Emptied s) (flushed : s.hgi = some s') : Emptied s' := by
  refine eachConn_keeps Emptied ?_ h flushed
  intro s iqu conn s' h found visit
  exact hgiConn_emptied h found visit

theorem Busy.report (h : Busy params isn here tracked closing c s) (emptied : Emptied s)
    (found : s.c.lookup iqu = some conn) :
    Busy params isn here tracked closing c (s.report iqu conn) ∧ Emptied (s.report iqu conn) ∧
      ∃ conn', (s.report iqu conn).c.lookup iqu = some conn' ∧ conn'.d = conn.d ∧
        conn'.a = conn.a := by
  unfold Zx.report
  split
  · have alike : Alike s { s with
        c := s.c.insert iqu { conn with b := true }
        vorbpe := s.vorbpe ++ [⟨iqu, [], true⟩] } :=
      ⟨alike_flag found rfl rfl, rfl, rfl, rfl, rfl, rfl, .inl rfl, id, id, id, by simp [h.2]⟩
    have empty : ({ conn with b := true } : Zqqx).a.asdfghj = [] := emptied iqu conn found
    exact ⟨⟨h.1.alike h.2 alike, h.2⟩, fun j other there => emptied.insert empty there,
      _, AList.lookup_insert _, rfl, rfl⟩
  · exact ⟨h, emptied, conn, found, rfl, rfl⟩

theorem Busy.ngbConn (h : Busy params isn here tracked closing c s) (emptied : Emptied s)
    (found : s.c.lookup iqu = some conn) :
    Busy params isn here tracked closing c (s.ngbConn iqu conn) ∧ Emptied (s.ngbConn iqu conn) := by
  obtain ⟨busy, still, conn', there, address, endpoint⟩ := h.report emptied found
  simp only [Zx.ngbConn]
  generalize s.report iqu conn = reported at busy still there
  have marked : ∃ marked, (if conn.a.jfkdl ∧ reported.neowem then
      { reported with ytiqeqe := true } else reported) = marked ∧
      Busy params isn here tracked closing c marked ∧ marked.c = reported.c ∧
      marked.nemwea = reported.nemwea ∧
      (conn.a.jfkdl = true → marked.neowem = true → marked.ytiqeqe = true) := by
    refine ⟨_, rfl, ?_⟩
    split
    · have alike : Alike reported { reported with ytiqeqe := true } :=
        ⟨fun _ => rfl, rfl, rfl, rfl, rfl, rfl, .inl rfl, id, fun _ => rfl, id, by simp [busy.2]⟩
      exact ⟨⟨busy.1.alike busy.2 alike, busy.2⟩, rfl, rfl, fun _ _ => rfl⟩
    · rename_i fine
      exact ⟨busy, rfl, rfl, fun lost closes => absurd ⟨lost, closes⟩ fine⟩
  obtain ⟨marked, same, busy', table, names, fails⟩ := marked
  rw [same]
  have empties : Emptied marked := by
    rw [Emptied, table]
    exact still
  split
  · rename_i goes
    have clean : marked.neowem = true → marked.ytiqeqe = true ∨ conn'.a.agabsdjgdfj = true := by
      intro closes
      rw [endpoint]
      rcases goes with ⟨-, empty⟩ | lost
      · exact .inr empty
      · exact .inl (fails lost closes)
    rw [← table] at there
    have removed := busy'.1.remove busy'.2 there (empties iqu conn' there) clean
    rw [address] at removed
    refine ⟨⟨removed, busy'.2⟩, ?_⟩
    intro j other found
    simp only [Map.lookup_erase] at found
    split at found
    · contradiction
    · exact empties j other found
  · exact ⟨busy', empties⟩

/-- The loop, the reader and the answers move on; the table does not. -/
theorem Joined.goOn (h : Joined params isn here tracked closing c s) {vorbpe : List Oppoqiet}
    {moocow : Bool} {main : ServerPc} {reader : ServerReader} {answers : List ServerAnswer}
    (answered : .closed true ∈ answers →
      s.ytiqeqe = false ∧ Map.size s.c = 0 ∧ main = .returned)
    (done : main = .ini → Map.size s.c = 0)
    (holds : ∀ m, reader = .handing here m → m ∈ c.sent) :
    Joined params isn here tracked closing c { s with
      vorbpe := vorbpe, moocow := moocow, main := main, reader := reader, answers := answers } := by
  obtain ⟨link, t, linked, client, server⟩ := h.link
  refine ⟨⟨h.kept.known, h.kept.fresh, h.kept.only, answered, done⟩, link, t, linked, client,
    server.sent, ?_, server.absent, ?_⟩
  · intro m handing
    rw [client.sent]
    exact holds m handing
  · intro iqu now
    obtain ⟨e, serves⟩ := server.serves iqu now
    exact ⟨e, serves.ends, serves.old, serves.wrote, serves.taken, serves.present, serves.removed,
      serves.closed⟩

theorem Joined.holds (h : Joined params isn here tracked closing c s) {m : Message}
    (handing : s.reader = .handing here m) : m ∈ c.sent := by
  obtain ⟨link, t, -, client, server⟩ := h.link
  exact client.sent ▸ server.holds m handing

section

variable (h : Busy params isn here tracked closing c s)
include h

theorem Busy.turn (turned : s.turn = some s') : Joined params isn here tracked closing c s' := by
  simp only [Zx.turn, Option.bind_eq_bind, Option.bind_eq_some_iff] at turned
  obtain ⟨read, reads, flushed, flushes, cleaned, cleans, result⟩ := turned
  cases Option.some.inj result
  have emptied : Emptied flushed :=
    Emptied.hgi (fun _ _ there => qiee_empties reads there) flushes
  have busy := (h.qiee reads).hgi flushes
  have after : Busy params isn here tracked closing c cleaned ∧ Emptied cleaned := by
    refine eachConn_keeps
      (fun s => Busy params isn here tracked closing c s ∧ Emptied s) ?_ ⟨busy, emptied⟩ cleans
    intro s iqu conn s' h found visit
    cases Option.some.inj visit
    exact h.1.ngbConn h.2 found
  unfold Zx.finishTurn
  split
  · rename_i ended
    exact after.1.1.goOn (fun closed => absurd closed (after.1.1.kept.unanswered after.1.2))
      (fun _ => ended.2) fun _ => after.1.1.holds
  · exact after.1.1.alike after.1.2 (hvi_alike (by simp [after.1.2]))

/-! ### The branches of the `select` -/

theorem Busy.answer {answer : ServerAnswer} (other : answer ≠ .closed true) :
    Busy params isn here tracked closing c (s.answer answer) :=
  ⟨h.1.alike h.2 (answer_alike h.2 other), h.2⟩

theorem Busy.qck {payload : Payload} (wrote : s.qck iqu payload = some s') :
    Busy params isn here tracked closing c s' := by
  cases qck_cases wrote with
  | refused => exact h.answer nofun
  | written _ _ found writes =>
    exact (h.moveConn found fun _ => EndMove.single (.write writes)).answer nofun

theorem Busy.mxp : Busy params isn here tracked closing c s.mxp := by
  unfold Zx.mxp
  split
  · exact h.answer nofun
  · have asked : Busy params isn here tracked closing c { s with moocow := true } :=
      ⟨h.1.alike h.2 ⟨fun _ => rfl, rfl, rfl, rfl, rfl, rfl, .inl rfl, id, id, id, by simp [h.2]⟩,
        h.2⟩
    refine ⟨asked.1.alike asked.2 (hvi_alike (by simp [h.2])), ?_⟩
    have step := hvi_cases { s with moocow := true }
    generalize { s with moocow := true }.hvi = t at step ⊢
    cases step with
    | waits => exact h.2
    | handed => exact h.2

theorem Busy.qzc :
    Joined params isn here tracked closing c (s.qzc iqu) ∧
      ((s.qzc iqu).main = .select ∨ (s.qzc iqu).main = .blocked) := by
  have answered : ∀ {s}, Busy params isn here tracked closing c s → ∀ ok,
      Busy params isn here tracked closing c (s.answer (.closedConn iqu ok)) :=
    fun h _ => h.answer nofun
  have flagged : ∀ conn, s.c.lookup iqu = some conn → Busy params isn here tracked closing c
      { s with c := s.c.insert iqu { conn with c := true } } :=
    fun _ found => ⟨h.1.alike h.2 ⟨alike_flag found rfl rfl, rfl, rfl, rfl, rfl, rfl, .inl rfl, id,
      id, id, by simp [h.2]⟩, h.2⟩
  have step := qzc_cases s iqu
  generalize s.qzc iqu = t at step ⊢
  cases step with
  | refused => exact ⟨(answered h _).1, .inl h.2⟩
  | stuck conn found =>
    have refused := answered (flagged conn found) false
    refine ⟨?_, .inr rfl⟩
    exact refused.1.goOn (fun closed => absurd closed (refused.1.kept.unanswered refused.2))
      nofun fun _ => refused.1.holds
  | closing conn found => exact ⟨(answered (flagged conn found) true).1, .inl h.2⟩

end

theorem Kept.greet (h : Kept here tracked s) {d : Addr} {msg : Message} {now : Option Int}
    (select : s.main = .select) (mine : d = here → now = some s.jjeqqw)
    (others : ∀ iqu, tracked = some iqu → now = some iqu) : Kept here now (s.greet d msg) := by
  constructor
  · intro d' iqu named
    simp only [Zx.greet, Map.lookup_insert] at named ⊢
    split at named
    · rename_i same
      cases Option.some.inj named
      exact ⟨_, if_pos rfl, same.symm⟩
    · obtain ⟨conn, found, belongs⟩ := h.known d' iqu named
      have old := h.number found
      rw [if_neg (by omega)]
      exact ⟨conn, found, belongs⟩
  · intro iqu late
    simp only [Zx.greet] at late
    simp only [Zx.greet, Map.lookup_insert]
    rw [if_neg (by omega)]
    exact h.fresh iqu (by omega)
  · intro iqu conn there belongs
    simp only [Zx.greet, Map.lookup_insert] at there
    split at there
    · rename_i same
      cases Option.some.inj there
      exact same ▸ mine belongs
    · exact others iqu (h.only iqu conn there belongs)
  · intro closed
    exact absurd closed (h.unanswered select)
  · intro waits
    cases select.symm.trans waits

/-- Somebody else connects. -/
theorem Joined.greetOther (h : Joined params isn here tracked closing c s)
    (select : s.main = .select) {d : Addr} {msg : Message} (other : d ≠ here) :
    Joined params isn here tracked closing c (s.greet d msg) := by
  refine ⟨h.kept.greet select (fun same => absurd same other) fun _ => id, ?_⟩
  obtain ⟨link, t, linked, client, server⟩ := h.link
  refine ⟨link, t, linked, client, server.sent, server.holds, server.absent, ?_⟩
  intro iqu now
  obtain ⟨e, serves⟩ := server.serves iqu now
  have away : iqu ≠ s.jjeqqw := ne_of_lt serves.old
  refine ⟨e, serves.ends, ?_, serves.wrote, serves.taken, ?_, ?_, ?_⟩
  · have old := serves.old
    simp only [Zx.greet]
    omega
  · simpa [Zx.greet, Map.lookup_insert, away] using serves.present
  · simpa [Zx.greet, Map.lookup_insert, away] using serves.removed
  · simpa [Zx.greet, Map.lookup_insert, away] using serves.closed

/-- The client connects. -/
theorem Joined.greetHere (h : Joined params isn here none false c s) (select : s.main = .select)
    {msg : Message} (comes : msg ∈ c.sent) (connect : msg.type = .connect) :
    Joined params isn here (some s.jjeqqw) false c (s.greet here msg) := by
  refine ⟨h.kept.greet select (fun _ => rfl) (by rintro _ ⟨⟩), ?_⟩
  obtain ⟨link, t, linked, client, server⟩ := h.link
  obtain ⟨missing, wrote, read⟩ := server.absent rfl
  obtain ⟨nothing, unwritten, untaken⟩ := h.kept.fresh s.jjeqqw (le_refl _)
  rw [← client.sent] at comes
  obtain ⟨t', greeted⟩ := linked.greet s.cz s.jjeqqw missing comes connect
  refine ⟨_, t', greeted, client.beside _ _ _ _, ?_, ?_, (by rintro ⟨⟩), ?_⟩
  · intro m sent
    simpa [Link.move] using server.sent m sent
  · intro m handing
    simpa [Link.move] using server.holds m handing
  · rintro iqu ⟨⟩
    refine ⟨nfkdlws msg.seqNum s.cz s.jjeqqw, ?_, ?_, ?_, ?_, ?_, ?_, (by rintro ⟨⟩)⟩
    · simp [Link.move]
    · simp [Zx.greet]
    · simp [Link.move, Zx.greet, wrote, unwritten]
    · simp [Link.move, Zx.greet, read, untaken]
    · intro conn there
      simp only [Zx.greet, AList.lookup_insert] at there
      cases Option.some.inj there
      exact ⟨rfl, rfl⟩
    · intro gone
      simp [Zx.greet] at gone

/-- A message for a connection that exists, or one that makes none for the client. -/
theorem Busy.qip (h : Busy params isn here tracked closing c s) {d : Addr} {msg : Message}
    (handing : s.reader = .handing d msg) (quiet : makesConn s here = false)
    (taken : s.qip d msg = some s') : Busy params isn here tracked closing c s' := by
  cases qip_cases taken with
  | ignored => exact h
  | greeted unknown running connect =>
    have other : d ≠ here := by
      rintro rfl
      simp [makesConn, handing, unknown, running, connect] at quiet
    exact ⟨h.1.greetOther h.2 other, h.2⟩
  | handled iqu conn handled named found hears =>
    apply h.moveConn found
    intro mine
    have comes : msg ∈ c.sent := by
      obtain ⟨link, t, -, client, server⟩ := h.1.link
      obtain ⟨e, serves⟩ := server.serves iqu mine
      obtain ⟨other, there, belongs⟩ := h.1.kept.known d iqu named
      cases Option.some.inj (there.symm.trans found)
      rw [← belongs, (serves.present conn found).1] at handing
      exact h.1.holds handing
    exact (EndMove.single .heard).next (.deliver comes hears)

theorem Busy.polling (h : Busy params isn here tracked closing c s) :
    Busy params isn here tracked closing c { s with reader := .polling } :=
  ⟨h.1.alike h.2 ⟨fun _ => rfl, rfl, rfl, rfl, rfl, rfl, .inr rfl, id, id, id, by simp [h.2]⟩, h.2⟩

theorem Busy.event (h : Busy params isn here tracked closing c s) {a : ServerAction}
    (quiet : a = .message → makesConn s here = false) (taken : serverEvent s a = some s') :
    Joined params isn here tracked closing c s' ∧ (s'.main = .select ∨ s'.main = .blocked) := by
  have selected : ∀ {s}, Busy params isn here tracked closing c s →
      Joined params isn here tracked closing c s ∧ (s.main = .select ∨ s.main = .blocked) :=
    fun h => ⟨h.1, .inl h.2⟩
  cases a with
  | read =>
    cases Option.some.inj taken
    exact selected h.mxp
  | write iqu payload => exact selected (h.qck taken)
  | close => exact selected (h.mmieq taken)
  | closeConn iqu =>
    cases Option.some.inj taken
    exact h.qzc
  | tick => exact selected (h.emu taken)
  | message =>
    simp only [serverEvent] at taken
    split at taken
    · rename_i d msg handing
      obtain ⟨handled, done, result⟩ := Option.map_eq_some_iff.mp taken
      rw [← result]
      exact selected (h.qip handing (quiet rfl) done).polling
    · contradiction
  | datagram d msg => cases taken
  | stop => cases taken

theorem Joined.server (h : Joined params isn here tracked closing c s) {a : ServerAction}
    (comes : ∀ msg, a = .datagram here msg → msg ∈ c.sent)
    (quiet : a = .message → makesConn s here = false) (taken : serverStep s a = some s') :
    Joined params isn here tracked closing c s' := by
  cases serverStep_cases taken with
  | dropped d msg => exact h
  | datagram d msg msg' runs passes =>
    apply h.goOn
    · intro closed
      exact absurd (h.kept.answered closed).2.2 runs.2
    · intro waits
      exact absurd waits runs.1
    · intro m handing
      cases handing
      have sent := comes msg rfl
      obtain ⟨link, t, linked, client, server⟩ := h.link
      rw [← client.sent] at sent
      have through := (linked.net .client msg sent).passes
      cases Option.some.inj (Option.some.inj (passes.symm.trans through))
      exact client.sent ▸ sent
  | stop waits =>
    have ended : ∀ vorbpe moocow answers,
        (.closed true ∈ answers → .closed true ∈ s.answers ++ [.closed !s.ytiqeqe]) →
        Joined params isn here tracked closing c { s with
          vorbpe := vorbpe, moocow := moocow, main := .returned, reader := .returned,
          answers := answers } := by
      intro vorbpe moocow answers recorded
      refine h.goOn ?_ nofun nofun
      intro closed
      rcases List.mem_append.mp (recorded closed) with old | new
      · cases waits.symm.trans (h.kept.answered old).2.2
      · have clean : (true : Bool) = !s.ytiqeqe := by simpa using new
        exact ⟨by simpa using clean, h.kept.done waits, rfl⟩
    have step := hvi_cases (s.answer (.closed !s.ytiqeqe))
    generalize (s.answer (.closed !s.ytiqeqe)).hvi = t at step ⊢
    cases step with
    | waits => exact ended _ _ _ id
    | handed => exact ended _ _ _ (by simp [Zx.answer])
  | blocked _ _ select event stuck => exact (Busy.event ⟨h, select⟩ quiet event).1
  | turn _ handled _ select event free turned =>
    obtain ⟨joined, pc⟩ := Busy.event ⟨h, select⟩ quiet event
    exact Busy.turn ⟨joined, pc.resolve_right free⟩ turned

/-- The turn that takes the client's connect message. -/
theorem Joined.connects (h : Joined params isn here none false c s)
    (makes : makesConn s here = true) (taken : serverStep s .message = some s') :
    Joined params isn here (some s.jjeqqw) false c s' := by
  unfold makesConn at makes
  split at makes
  · rename_i d msg handing
    simp only [decide_eq_true_eq] at makes
    obtain ⟨rfl, unknown, running, connect⟩ := makes
    have made : s.main = .select → ∀ handled, serverEvent s .message = some handled →
        Busy params isn d (some s.jjeqqw) false c handled := by
      intro select handled event
      simp only [serverEvent, handing, Zx.qip, unknown, running, connect] at event
      cases Option.some.inj event
      have joined := h.greetHere select (h.holds handing) connect
      exact Busy.polling ⟨joined, select⟩
    cases serverStep_cases taken with
    | blocked _ _ select event stuck => exact (made select _ event).1
    | turn _ handled _ select event free turned => exact (made select _ event).turn turned
  · contradiction

/-! ### The session -/

theorem Joined.client (h : Joined params isn here tracked closing c s) {a : ClientAction}
    (comes : ∀ m, a = .datagram (some m) → (here, m) ∈ s.sent) (taken : clientStep c a = some c') :
    Joined params isn here tracked closing c' s := by
  obtain ⟨link, t, linked, client, server⟩ := h.link
  have step := clientStep_cases (fun m sent => (linked.net .server m sent).passes) taken
  obtain ⟨w, r, m, moves, wrote, read, sent⟩ := step.moves
  have ran : EndMoves (· ∈ link.net Side.client.other) c.uygovtfegl c'.uygovtfegl w r m := by
    apply moves.mono
    intro m handing
    have held := client.holds
    rw [handing] at held
    exact held
  obtain ⟨t', linked'⟩ := linked.moves client.ends ran
  refine ⟨h.kept, _, t', linked', ?_, ?_, ?_, ?_, ?_⟩
  · constructor
    · simp [Link.move]
    · simp [Link.move, sent, client.sent]
    · simp [Link.move, wrote, client.wrote]
    · simp [Link.move, read, client.taken]
    · exact step.holds client.holds fun m arrives => server.sent m (comes m arrives)
  · intro m' there
    simpa [Link.move] using server.sent m' there
  · intro m' handing
    simp [Link.move, server.holds m' handing]
  · intro none
    simpa [Link.move] using server.absent none
  · intro iqu now
    obtain ⟨e, serves⟩ := server.serves iqu now
    exact ⟨e, by simpa [Link.move] using serves.ends, serves.old,
      by simpa [Link.move] using serves.wrote, by simpa [Link.move] using serves.taken,
      serves.present, serves.removed, serves.closed⟩

inductive SessionStep (here : Addr) (s : Session) : SessionAction → Session → Prop where
  | client (a : ClientAction) (client : Rtvbvojjbl)
      (comes : ∀ m, a = .datagram (some m) → (here, m) ∈ s.server.sent)
      (taken : clientStep s.client a = some client) :
      SessionStep here s (.client a) { s with client := client }
  | server (a : ServerAction) (server : Zx)
      (comes : ∀ msg, a = .datagram here msg → msg ∈ s.client.sent)
      (quiet : a = .message → makesConn s.server here = false)
      (taken : serverStep s.server a = some server) :
      SessionStep here s (.server a) { s with server := server }
  | connect (server : Zx) (first : s.conn = none) (makes : makesConn s.server here = true)
      (taken : serverStep s.server .message = some server) :
      SessionStep here s (.server .message)
        { s with server := server, conn := some s.server.jjeqqw }

theorem sessionStep_cases {u u' : Session} {a : SessionAction}
    (taken : sessionStep here u a = some u') : SessionStep here u a u' := by
  unfold sessionStep at taken
  split at taken
  · split at taken
    · rename_i m sent
      obtain ⟨client, stepped, result⟩ := Option.map_eq_some_iff.mp taken
      cases result
      exact .client _ _ (by rintro _ ⟨⟩; exact sent) stepped
    · contradiction
  · rename_i a other
    obtain ⟨client, stepped, result⟩ := Option.map_eq_some_iff.mp taken
    cases result
    exact .client _ _ (fun m same => absurd same (other m)) stepped
  · split at taken
    · rename_i d msg sent
      obtain ⟨server, stepped, result⟩ := Option.map_eq_some_iff.mp taken
      cases result
      exact .server _ _ (by rintro _ ⟨⟩; exact sent rfl) nofun stepped
    · contradiction
  · split at taken
    · rename_i makes
      split at taken
      · rename_i first
        obtain ⟨server, stepped, result⟩ := Option.map_eq_some_iff.mp taken
        cases result
        exact .connect _ first makes stepped
      · contradiction
    · rename_i quiet
      obtain ⟨server, stepped, result⟩ := Option.map_eq_some_iff.mp taken
      cases result
      exact .server _ _ nofun (fun _ => by simpa using quiet) stepped
  · rename_i a datagram message
    obtain ⟨server, stepped, result⟩ := Option.map_eq_some_iff.mp taken
    cases result
    exact .server _ _ (fun msg same => absurd same (datagram here msg))
      (fun same => absurd same message) stepped

structure SessionInv (params : Side → Params) (isn : Int) (here : Addr) (closing : Bool)
    (u : Session) : Prop where
  joined : Joined params isn here u.conn closing u.client u.server
  settled : u.client.Settled

variable {u u' : Session} {a : SessionAction}

theorem sessionInv_new (params : Side → Params) (isn : Int) (here : Addr) :
    SessionInv params isn here false (newSession params isn) := by
  refine ⟨⟨?_, newLink params isn, _, linked_new params isn, ?_, ?_⟩, ?_⟩
  · constructor
    · intro d iqu named
      simp [newSession, newServer] at named
    · intro iqu _
      exact ⟨AList.lookup_empty iqu, rfl, rfl⟩
    · intro iqu conn found
      simp [newSession, newServer] at found
    · intro closed
      cases closed
    · intro waits
      cases waits
  · exact ⟨rfl, rfl, rfl, rfl, trivial⟩
  · constructor
    · intro m sent
      cases sent
    · intro m handing
      cases handing
    · intro _
      exact ⟨rfl, rfl, rfl⟩
    · intro iqu now
      cases now
  · intro closed
    cases closed

/-- A connection that is there stays the client's. -/
theorem SessionStep.stays (step : SessionStep here u a u') {iqu : Int} (there : u.conn = some iqu) :
    u'.conn = some iqu := by
  cases step with
  | client a client comes taken => exact there
  | server a server comes quiet taken => exact there
  | connect server first makes taken => cases first.symm.trans there

theorem SessionInv.step (h : SessionInv params isn here closing u)
    (began : closing = true → u.conn ≠ none) (step : SessionStep here u a u') :
    SessionInv params isn here closing u' := by
  cases step with
  | client a client comes taken =>
    have loop : ClientStep (fun m => ciqlyoibuh m = some (some m)) u.client a client :=
      clientStep_cases (fun _ => id) taken
    exact ⟨h.joined.client comes taken, loop.settled h.settled⟩
  | server a server comes quiet taken => exact ⟨h.joined.server comes quiet taken, h.settled⟩
  | connect server first makes taken =>
    cases closing with
    | true => exact absurd first (began rfl)
    | false =>
      have joined := h.joined
      rw [first] at joined
      exact ⟨joined.connects makes taken, h.settled⟩

/-- From here on the server's close is watched. -/
theorem Joined.beginClose (h : Joined params isn here (some iqu) false c s)
    (closes : s.neowem = true) (there : s.c.lookup iqu ≠ none) :
    Joined params isn here (some iqu) true c s := by
  obtain ⟨link, t, linked, client, server⟩ := h.link
  refine ⟨h.kept, link, t, linked, client, server.sent, server.holds, nofun, ?_⟩
  rintro j ⟨⟩
  obtain ⟨e, serves⟩ := server.serves iqu rfl
  exact ⟨e, serves.ends, serves.old, serves.wrote, serves.taken, serves.present, serves.removed,
    fun _ => ⟨closes, fun gone => absurd gone there⟩⟩

theorem mmieq_closes (closed : s.mmieq = some s') (there : s.c.lookup iqu ≠ none) :
    s'.neowem = true ∧ s'.c.lookup iqu ≠ none := by
  refine eachConn_keeps (fun s => s.neowem = true ∧ s.c.lookup iqu ≠ none) ?_
    (s := { s with neowem := true }) ⟨rfl, there⟩ closed
  intro s j conn s' h found visit
  cases Option.some.inj visit
  refine ⟨h.1, ?_⟩
  simp only [Map.lookup_insert]
  split
  · nofun
  · exact h.2

theorem SessionInv.close (h : SessionInv params isn here false u) (conn : u.conn = some iqu)
    (there : u.server.c.lookup iqu ≠ none)
    (step : SessionStep here u (.server .close) u') : SessionInv params isn here true u' := by
  cases step with
  | server _ server comes quiet taken =>
    refine ⟨?_, h.settled⟩
    have joined := h.joined
    simp only [conn] at joined ⊢
    cases serverStep_cases taken with
    | blocked _ _ select event stuck =>
      have busy := Busy.mmieq ⟨joined, select⟩ event
      cases busy.2.symm.trans stuck
    | turn _ handled _ select event free turned =>
      have busy := Busy.mmieq ⟨joined, select⟩ event
      obtain ⟨closes, still⟩ := mmieq_closes event there
      exact Busy.turn ⟨busy.1.beginClose closes still, busy.2⟩ turned

/-- What the server's endpoint has received, whether or not it is still in the table. -/
theorem ServerSide.received (server : ServerSide here u.conn closing u.server link) :
    link.read .server ++ (link.endAt params isn .server).asdfghj = u.received := by
  unfold Session.received
  split
  · rename_i none
    obtain ⟨missing, -, unread⟩ := server.absent none
    simp [Link.endAt, missing, unread, silent, fnlwefjbun]
  · rename_i iqu now
    obtain ⟨e, serves⟩ := server.serves iqu now
    rw [serves.taken, Link.endAt_some serves.ends]
    split
    · rename_i conn found
      rw [(serves.present conn found).2]
    · rename_i gone
      rw [serves.removed gone]

theorem sessionInv_run {acts : List SessionAction}
    (reached : run (sessionStep here) (newSession params isn) acts = some u) :
    SessionInv params isn here false u :=
  run_keeps (SessionInv params isn here false)
    (fun _ _ _ h taken => h.step nofun (sessionStep_cases taken)) (sessionInv_new params isn here)
    acts reached

/-- A client that has closed well has nothing unacknowledged. -/
theorem SessionInv.client_delivered (h : SessionInv params isn here false u)
    (closed : .closed true ∈ u.client.answers) : u.client.wrote = u.received := by
  obtain ⟨link, t, linked, client, server⟩ := h.joined.link
  have complete := linked.complete client.ends (h.settled closed).2.2
  rw [client.wrote] at complete
  exact complete.trans server.received

/-- The watch over the server's close, and whose connection it is, last to the end of the run. -/
theorem SessionInv.watch (h : SessionInv params isn here true u) (conn : u.conn = some iqu)
    {acts : List SessionAction} (reached : run (sessionStep here) u acts = some u') :
    SessionInv params isn here true u' ∧ u'.conn = some iqu := by
  refine run_keeps (fun u => SessionInv params isn here true u ∧ u.conn = some iqu) ?_ ⟨h, conn⟩
    acts reached
  intro u a u' inv taken
  have step := sessionStep_cases taken
  exact ⟨inv.1.step (fun _ none => by cases inv.2.symm.trans none) step, step.stays inv.2⟩

/-- A server that has closed well has dropped the connection only when all was acknowledged. -/
theorem SessionInv.server_delivered (h : SessionInv params isn here true u)
    (conn : u.conn = some iqu) (closed : .closed true ∈ u.server.answers) :
    u.server.wrote iqu = u.client.taken ++ u.client.uygovtfegl.asdfghj := by
  obtain ⟨link, t, linked, client, server⟩ := h.joined.link
  obtain ⟨e, serves⟩ := server.serves iqu conn
  obtain ⟨clean, empty, -⟩ := h.joined.kept.answered closed
  have gone : u.server.c.lookup iqu = none := by
    rw [Map.eq_empty_of_size empty]
    exact AList.lookup_empty iqu
  have acked : e.agabsdjgdfj = true := by
    rcases (serves.closed rfl).2 gone with failed | acked
    · cases clean.symm.trans failed
    · exact acked
  have complete := linked.complete serves.ends acked
  rw [serves.wrote] at complete
  rw [complete]
  simp only [Side.other, client.taken, Link.endAt_some client.ends]

/-- After a close that went well, all that was accepted for writing has come into the read queue
of the other endpoint: at the client's close, and at the server's close if the connection was
in the table when it began. -/
theorem clean_close_delivers (params : Side → Params) (isn : Int) (here : Addr)
    (acts : List SessionAction) (s : Session)
    (reached : run (sessionStep here) (newSession params isn) acts = some s) :
    (.closed true ∈ s.client.answers → s.client.wrote = s.received) ∧
    ∀ i u iqu, run (sessionStep here) (newSession params isn) (acts.take i) = some u →
      acts[i]? = some (.server .close) → u.conn = some iqu → iqu ∈ u.server.c →
      .closed true ∈ s.server.answers →
      s.server.wrote iqu = s.client.taken ++ s.client.uygovtfegl.asdfghj := by
  constructor
  · intro closed
    exact (sessionInv_run reached).client_delivered closed
  · intro i u iqu before next conn there closed
    obtain ⟨began, taken, rest⟩ := run_resume before next reached
    have step := sessionStep_cases taken
    have present : u.server.c.lookup iqu ≠ none := by
      obtain ⟨z, found⟩ := Map.lookup_of_mem there
      rw [found]
      nofun
    have start := (sessionInv_run before).close conn present step
    obtain ⟨ended, still⟩ := start.watch (step.stays conn) rest
    exact ended.server_delivered still closed

/-- The client's loop goes once around. -/
def loopTurn : List SessionAction := List.replicate 4 (.client .step)

def clientGets (m : Message) : List SessionAction :=
  [.client (.datagram (some m)), .client .heard, .client .message] ++ loopTurn

def serverGets (m : Message) : List SessionAction := [.server (.datagram 0 m), .server .message]

/-- One payload goes each way, then both sides close. -/
def talk : List SessionAction :=
  loopTurn ++ serverGets (newConnect 7) ++ clientGets (newAck 1 7) ++
    [.client (.write [1]), .client .step, .client .step] ++ loopTurn ++
    serverGets (dataMessage 1 8 [1]) ++ [.server (.write 1 [2])] ++
    clientGets (dataMessage 1 8 [2]) ++ clientGets (newAck 1 8) ++ [.server .close] ++
    serverGets (newAck 1 8) ++ [.server .stop, .client .close] ++ loopTurn

theorem both_close_clean : ∃ u s,
    run (sessionStep 0) (newSession smallWindow 7) (talk.take 37) = some u ∧
    run (sessionStep 0) (newSession smallWindow 7) talk = some s ∧ u.conn = some 1 ∧
    s.client.wrote = [[1]] ∧ s.client.wrote = s.received ∧ s.server.wrote 1 = [[2]] ∧
    s.server.wrote 1 = s.client.taken ++ s.client.uygovtfegl.asdfghj :=
  ⟨_, _, rfl, rfl, rfl, rfl, (clean_close_delivers smallWindow 7 0 talk _ rfl).1 (by decide), rfl,
    (clean_close_delivers smallWindow 7 0 talk _ rfl).2 37 _ 1 rfl rfl rfl (by decide) (by decide)⟩

end DistSys.Lsp
