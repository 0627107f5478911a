import DistSys.Actor.Net

/-! Actor systems that are not closed and whose connections hold: what is told to an actor is on
its way to it until it is handed over. -/
namespace DistSys.Actor

open DistSys.Lib

variable {M : Type} {n n' : Net M} {a src dst : String} {r ref : ActorRef} {m x : M}

namespace Net

structure Reliable (n : Net M) : Prop where
  up : ∀ a, n.isClosed a = false
  boxes : ∀ {r mailbox}, n.box r = some mailbox → mailbox.isClosed = false
  out : ∀ {src dst mailbox}, n.outgoing src dst = some mailbox → mailbox.isClosed = false
  wire : ∀ {src dst conn}, n.conns.lookup (src, dst) = some conn → conn.broken = false
  routed : ∀ {src dst x}, n.Waits src dst x → x.ref.address = dst
  fresh : ∀ {r next}, n.next r.address = some next → next ≤ r.counter → n.info r = none

/-- The messages in the mailbox of an actor. -/
def queue (n : Net M) (r : ActorRef) : List M :=
  match n.box r with
  | some mailbox => mailbox.queue
  | none => []

/-- A message to an actor waits between two systems. -/
def Waiting (n : Net M) (r : ActorRef) (m : M) : Prop := ∃ src, n.Waits src r.address ⟨r, m⟩

theorem queue_of {mailbox : Mailbox M} (found : n.box r = some mailbox) :
    n.queue r = mailbox.queue := by
  unfold queue
  rw [found]

theorem queue_congr (same : n'.box r = n.box r) : n'.queue r = n.queue r := by
  unfold queue
  rw [same]

theorem reliable_new : (new : Net M).Reliable where
  up := fun _ => rfl
  boxes := by
    intro r mailbox found
    cases found
  out := by
    intro src dst mailbox found
    cases found
  wire := by
    intro src dst conn found
    cases found
  routed := by
    rintro src dst x (⟨mailbox, found, _⟩ | ⟨conn, found, _⟩)
    · cases found
    · cases found
  fresh := by
    intro r next found
    cases found

theorem push_closed {α : Type} {mailbox : Mailbox α} {y : α} :
    (mailbox.push y).isClosed = mailbox.isClosed := by
  unfold Mailbox.push
  split <;> rfl

theorem push_open {α : Type} {mailbox : Mailbox α} {y : α} (isOpen : mailbox.isClosed = false) :
    (mailbox.push y).queue = mailbox.queue ++ [y] := by
  simp only [Mailbox.push, isOpen, Bool.false_eq_true, if_false]

theorem Reliable.tell (reliable : n.Reliable) (here : src ∈ n.systems) :
    (n.tell src ref m).Reliable where
  up := by
    intro a
    rw [tell_isClosed]
    exact reliable.up a
  boxes := by
    intro r mailbox found
    rw [box_tell] at found
    split at found
    · obtain ⟨old, before, rfl⟩ := Option.map_eq_some_iff.mp found
      rw [push_closed]
      exact reliable.boxes before
    · exact reliable.boxes found
  out := by
    intro a b mailbox found
    by_cases own : ref.address = src
    · rw [tell_outgoing_same own] at found
      exact reliable.out found
    · rw [tell_outgoing here own] at found
      split at found
      · unfold afterTell at found
        split at found
        · rename_i old before
          cases found
          rw [push_closed]
          exact reliable.out before
        · split at found
          · cases found
          · cases found
            exact push_closed
      · exact reliable.out found
  wire := by
    intro a b conn found
    rw [tell_conns] at found
    exact reliable.wire found
  routed := by
    intro a b y wait
    rcases waits_tell here wait with old | ⟨rfl, rfl, _, rfl⟩
    · exact reliable.routed old
    · rfl
  fresh := by
    intro r next found above
    rw [tell_next] at found
    exact tell_info_none (reliable.fresh found above)

theorem waits_mono (reliable : n.Reliable) (here : src ∈ n.systems) {a b : String}
    {y : RemoteMessage M} (wait : n.Waits a b y) : (n.tell src ref m).Waits a b y := by
  rcases wait with ⟨mailbox, found, member⟩ | ⟨conn, found, member⟩
  · by_cases own : ref.address = src
    · exact .inl ⟨mailbox, by rw [tell_outgoing_same own, found], member⟩
    · by_cases route : a = src ∧ b = ref.address
      · obtain ⟨rfl, rfl⟩ := route
        refine .inl ⟨mailbox.push ⟨ref, m⟩, ?_, ?_⟩
        · rw [tell_outgoing here own, if_pos ⟨rfl, rfl⟩, afterTell, found]
        · rw [push_open (reliable.out found)]
          exact List.mem_append_left _ member
      · exact .inl ⟨mailbox, by rw [tell_outgoing here own, if_neg route, found], member⟩
  · exact .inr ⟨conn, by rw [tell_conns, found], member⟩

/-- One message more, at the end of its mailbox or between the systems. -/
structure Told (n : Net M) (ref : ActorRef) (m : M) (n' : Net M) : Prop where
  reliable : n'.Reliable
  box : ∀ r, n'.box r = none ↔ n.box r = none
  queue : ∀ r, n'.queue r = n.queue r ∨ r = ref ∧ n'.queue r = n.queue r ++ [m]
  less : ∀ {r x}, n'.Waiting r x → n.Waiting r x ∨ r = ref ∧ x = m
  more : ∀ {r x}, n.Waiting r x → n'.Waiting r x
  arrives : n.box ref ≠ none → n'.queue ref = n.queue ref ++ [m] ∨ n'.Waiting ref m

theorem told_tell (reliable : n.Reliable) (here : src ∈ n.systems) :
    Told n ref m (n.tell src ref m) where
  reliable := reliable.tell here
  box := fun _ => box_tell_none
  queue := by
    intro r
    by_cases same : r = ref ∧ ref.address = src
    · cases found : n.box ref with
      | none =>
        left
        apply queue_congr
        rw [box_tell, if_pos same, same.1, found]
        rfl
      | some mailbox =>
        refine .inr ⟨same.1, ?_⟩
        have after : (n.tell src ref m).box r = some (mailbox.push m) := by
          rw [box_tell, if_pos same, found]
          rfl
        rw [queue_of after, push_open (reliable.boxes found), same.1, queue_of found]
    · exact .inl (queue_congr (by rw [box_tell, if_neg same]))
  less := by
    rintro r x ⟨from_, wait⟩
    rcases waits_tell here wait with old | ⟨_, _, _, same⟩
    · exact .inl ⟨from_, old⟩
    · cases same
      exact .inr ⟨rfl, rfl⟩
  more := fun ⟨from_, wait⟩ => ⟨from_, waits_mono reliable here wait⟩
  arrives := by
    intro target
    obtain ⟨mailbox, found⟩ := Option.ne_none_iff_exists'.mp target
    by_cases own : ref.address = src
    · left
      have after : (n.tell src ref m).box ref = some (mailbox.push m) := by
        rw [box_tell, if_pos ⟨rfl, own⟩, found]
        rfl
      rw [queue_of after, push_open (reliable.boxes found), queue_of found]
    · refine .inr ⟨src, .inl ?_⟩
      rw [tell_outgoing here own, if_pos ⟨rfl, rfl⟩]
      unfold afterTell
      cases waiting : n.outgoing src ref.address with
      | some mailbox =>
        refine ⟨_, rfl, ?_⟩
        rw [push_open (reliable.out waiting)]
        exact List.mem_append_right _ List.mem_cons_self
      | none =>
        simp only [reliable.up src, Bool.false_eq_true, if_false]
        exact ⟨_, rfl, List.mem_cons_self⟩

/-- In the system of its target a message goes to the mailbox at once. -/
theorem queue_tell (reliable : n.Reliable) (target : n.box ref ≠ none) :
    (n.tell ref.address ref m).queue ref = n.queue ref ++ [m] := by
  obtain ⟨mailbox, found⟩ := Option.ne_none_iff_exists'.mp target
  have after : (n.tell ref.address ref m).box ref = some (mailbox.push m) := by
    rw [box_tell, if_pos ⟨rfl, rfl⟩, found]
    rfl
  rw [queue_of after, push_open (reliable.boxes found), queue_of found]

theorem waiting_tell (here : ref.address ∈ n.systems)
    (wait : (n.tell ref.address ref m).Waiting r x) : n.Waiting r x := by
  obtain ⟨src, wait⟩ := wait
  rcases waits_tell here wait with old | ⟨_, _, away, _⟩
  · exact ⟨src, old⟩
  · exact absurd rfl away

theorem Reliable.pop (reliable : n.Reliable) (popped : n.pop ref = some (m, n')) :
    n'.Reliable := by
  obtain ⟨mailbox, rest, found, taken, info, _, outgoing, conns, closed, next⟩ := pop_spec popped
  constructor
  · exact fun a => closed ▸ reliable.up a
  · intro r other here
    have here := box_mailbox.mp here
    rw [info] at here
    split at here
    · cases here
      exact (Mailbox.pop_message taken).2.2
    · exact reliable.boxes (box_mailbox.mpr here)
  · exact fun here => reliable.out (outgoing ▸ here)
  · exact fun here => reliable.wire (conns ▸ here)
  · intro src dst y wait
    rw [Waits, outgoing, conns] at wait
    exact reliable.routed wait
  · intro r c here above
    rw [next] at here
    have none := reliable.fresh here above
    rw [info]
    split
    · rename_i same
      rw [same, box_mailbox.mp found] at none
      cases none
    · exact none

/-- The message handed over is the first of the mailbox. -/
theorem popped_queue (popped : n.pop ref = some (m, n')) :
    n.queue ref = m :: n'.queue ref ∧ (∀ r, r ≠ ref → n'.queue r = n.queue r) ∧
    (∀ {r x}, n'.Waiting r x ↔ n.Waiting r x) ∧ ∀ r, n'.box r = none ↔ n.box r = none := by
  obtain ⟨mailbox, rest, found, taken, info, _, outgoing, conns, _, _⟩ := pop_spec popped
  have after : n'.box ref = some rest := by rw [box_mailbox, info, if_pos rfl]
  have others : ∀ {r}, r ≠ ref → n'.box r = n.box r := fun other =>
    box_congr (by rw [info, if_neg other])
  refine ⟨?_, fun r other => queue_congr (others other), ?_, ?_⟩
  · rw [queue_of found, queue_of after]
    exact (Mailbox.pop_message taken).1
  · intro r x
    simp only [Waiting, Waits, outgoing, conns]
  · intro r
    by_cases same : r = ref
    · rw [same, found, after]
      simp
    · rw [others same]

theorem waits_remoteSend (reliable : n.Reliable) (sent : n.remoteSend src dst = some n')
    {a b : String} {y : RemoteMessage M} : n'.Waits a b y ↔ n.Waits a b y := by
  obtain ⟨mailbox, rest, conn, first, found, connected, taken, outgoing, conns, _⟩ :=
    remoteSend_spec sent
  have queue := (Mailbox.pop_message taken).1
  have write : (conn.write first).stream = conn.stream ++ [first] := by
    simp only [Conn.write, reliable.wire connected, Bool.false_eq_true, if_false]
  by_cases route : a = src ∧ b = dst
  · obtain ⟨rfl, rfl⟩ := route
    have one : (∃ mailbox', n.outgoing a b = some mailbox' ∧ y ∈ mailbox'.queue) ↔
        y = first ∨ y ∈ rest.queue := by
      simp only [found, Option.some.injEq, exists_eq_left', queue, List.mem_cons]
    have two : (∃ mailbox', n'.outgoing a b = some mailbox' ∧ y ∈ mailbox'.queue) ↔
        y ∈ rest.queue := by
      simp only [outgoing, and_self, if_true, Option.some.injEq, exists_eq_left']
    have three : (∃ conn', n.conns.lookup (a, b) = some conn' ∧ y ∈ conn'.stream) ↔
        y ∈ conn.stream := by
      simp only [connected, Option.some.injEq, exists_eq_left']
    have four : (∃ conn', n'.conns.lookup (a, b) = some conn' ∧ y ∈ conn'.stream) ↔
        y ∈ conn.stream ∨ y = first := by
      simp only [conns, Map.lookup_insert, if_true, Option.some.injEq, exists_eq_left', write,
        List.mem_append, List.mem_singleton]
    rw [Waits, Waits, one, two, three, four, ← or_assoc, or_comm, ← or_assoc]
  · have other : (a, b) ≠ (src, dst) := fun same => route (Prod.mk.inj same)
    rw [Waits, Waits, outgoing, if_neg route, conns, Map.lookup_insert, if_neg other]

theorem Reliable.remoteSend (reliable : n.Reliable) (sent : n.remoteSend src dst = some n') :
    n'.Reliable := by
  have waits {a b : String} {y : RemoteMessage M} := waits_remoteSend (a := a) (b := b) (y := y)
    reliable sent
  obtain ⟨mailbox, rest, conn, first, found, connected, taken, outgoing, conns, info, _, closed,
    next⟩ := remoteSend_spec sent
  constructor
  · exact fun a => closed ▸ reliable.up a
  · intro r other here
    rw [box_congr (congrFun info r)] at here
    exact reliable.boxes here
  · intro a b other here
    rw [outgoing] at here
    split at here
    · cases here
      exact (Mailbox.pop_message taken).2.2
    · exact reliable.out here
  · intro a b other here
    rw [conns, Map.lookup_insert] at here
    split at here
    · cases here
      simp only [Conn.write, reliable.wire connected, Bool.false_eq_true, if_false]
    · exact reliable.wire here
  · exact fun wait => reliable.routed (waits.mp wait)
  · intro r c here above
    rw [info]
    exact reliable.fresh (next ▸ here) above

/-- Messages move on: from between the systems to the end of their mailboxes. What finds no mailbox
is dropped. -/
structure Hop (n n' : Net M) : Prop where
  reliable : n'.Reliable
  box : ∀ r, n'.box r = none ↔ n.box r = none
  queue : ∀ r, ∃ tail, n'.queue r = n.queue r ++ tail ∧ ∀ x ∈ tail, n.Waiting r x
  less : ∀ {r x}, n'.Waiting r x → n.Waiting r x
  more : ∀ {r x}, n.box r ≠ none → n.Waiting r x → n'.Waiting r x ∨ x ∈ n'.queue r

/-- Nothing moves. -/
theorem Hop.still (reliable : n'.Reliable) (box : ∀ r, n'.box r = n.box r)
    (waits : ∀ {a b y}, n'.Waits a b y ↔ n.Waits a b y) : Hop n n' where
  reliable := reliable
  box := fun r => by rw [box r]
  queue := fun r => ⟨[], by rw [queue_congr (box r), List.append_nil], by simp⟩
  less := fun ⟨src, wait⟩ => ⟨src, waits.mp wait⟩
  more := fun _ ⟨src, wait⟩ => .inl ⟨src, waits.mpr wait⟩

theorem hop_remoteSend (reliable : n.Reliable) (sent : n.remoteSend src dst = some n') :
    Hop n n' := by
  refine .still (reliable.remoteSend sent) ?_ (waits_remoteSend reliable sent)
  obtain ⟨_, _, _, _, _, _, _, _, _, info, _⟩ := remoteSend_spec sent
  exact fun r => box_congr (congrFun info r)

/-- No mailbox is closed, no connection breaks and nothing new waits. -/
theorem Reliable.frame (reliable : n.Reliable)
    (box : ∀ r, n'.box r = n.box r ∨ n'.box r = some .new) (outgoing : n'.outgoing = n.outgoing)
    (wire : ∀ {a b conn}, n'.conns.lookup (a, b) = some conn → conn.broken = false)
    (waits : ∀ {a b y}, n'.Waits a b y → n.Waits a b y) (closed : n'.isClosed = n.isClosed)
    (fresh : ∀ {r next}, n'.next r.address = some next → next ≤ r.counter → n'.info r = none) :
    n'.Reliable where
  up := fun a => closed ▸ reliable.up a
  boxes := by
    intro r mailbox found
    rcases box r with same | new
    · exact reliable.boxes (same ▸ found)
    · cases new.symm.trans found
      rfl
  out := fun found => reliable.out (outgoing ▸ found)
  wire := wire
  routed := fun wait => reliable.routed (waits wait)
  fresh := fresh

/-- A connection is replaced. -/
theorem waits_insert {conn : Conn M} {a b : String} {y : RemoteMessage M} :
    ({ n with conns := n.conns.insert (src, dst) conn } : Net M).Waits a b y ↔
      (∃ mailbox, n.outgoing a b = some mailbox ∧ y ∈ mailbox.queue) ∨
      if a = src ∧ b = dst then y ∈ conn.stream
      else ∃ conn, n.conns.lookup (a, b) = some conn ∧ y ∈ conn.stream := by
  unfold Waits
  apply or_congr Iff.rfl
  by_cases route : a = src ∧ b = dst
  · obtain ⟨rfl, rfl⟩ := route
    simp only [Map.lookup_insert, and_self, if_true, Option.some.injEq, exists_eq_left']
  · have other : (a, b) ≠ (src, dst) := fun same => route (Prod.mk.inj same)
    simp only [Map.lookup_insert, other, route, if_false]

theorem Reliable.replace (reliable : n.Reliable) {conn : Conn M} (up : conn.broken = false)
    (waits : ∀ {a b y}, ({ n with conns := n.conns.insert (src, dst) conn } : Net M).Waits a b y →
      n.Waits a b y) : ({ n with conns := n.conns.insert (src, dst) conn } : Net M).Reliable := by
  refine reliable.frame (fun _ => .inl rfl) rfl ?_ waits rfl reliable.fresh
  intro a b other found
  rw [Map.lookup_insert] at found
  split at found
  · cases found
    exact up
  · exact reliable.wire found

/-- A connection is made. -/
theorem dialed_spec (dialed : n.dial src dst true = some n') :
    n' = { n with conns := n.conns.insert (src, dst) ⟨[], false, false⟩ } ∧
    ∀ {a b y}, n'.Waits a b y ↔ n.Waits a b y := by
  have spec : n.conns.lookup (src, dst) = none ∧
      n' = { n with conns := n.conns.insert (src, dst) ⟨[], false, false⟩ } := by
    unfold dial at dialed
    split at dialed
    · cases dialed
    · split at dialed
      · simp only [if_true] at dialed
        split at dialed
        · cases dialed
          exact ⟨‹_›, rfl⟩
        · cases dialed
      · cases dialed
  obtain ⟨missing, rfl⟩ := spec
  refine ⟨rfl, ?_⟩
  intro a b y
  rw [waits_insert]
  apply or_congr Iff.rfl
  split
  · rename_i route
    obtain ⟨rfl, rfl⟩ := route
    simp [missing]
  · rfl

theorem hop_dial (reliable : n.Reliable) (dialed : n.dial src dst true = some n') :
    Hop n n' := by
  obtain ⟨rfl, waits⟩ := dialed_spec dialed
  exact .still (reliable.replace rfl waits.mp) (fun _ => rfl) waits

theorem hop_serveRequest (reliable : n.Reliable) (served : n.serveRequest src dst = some n') :
    Hop n n' := by
  obtain ⟨conn, ⟨ref, m⟩, rest, connected, first, rfl⟩ := serveRequest_spec served
  have wait : n.Waits src dst ⟨ref, m⟩ := .inr ⟨conn, connected, by simp [first]⟩
  have there : ref.address = dst := reliable.routed wait
  subst there
  let n₁ : Net M := { n with
    conns := n.conns.insert (src, ref.address) { conn with stream := rest } }
  show Hop n (n₁.tell ref.address ref m)
  have waits : ∀ {a b y}, n.Waits a b y ↔ n₁.Waits a b y ∨
      a = src ∧ b = ref.address ∧ y = ⟨ref, m⟩ := by
    intro a b y
    rw [waits_insert, Waits, or_assoc]
    apply or_congr Iff.rfl
    by_cases route : a = src ∧ b = ref.address
    · obtain ⟨rfl, rfl⟩ := route
      simp only [connected, Option.some.injEq, exists_eq_left', first, List.mem_cons, and_self,
        if_true, true_and]
      exact or_comm
    · rw [if_neg route]
      constructor
      · exact .inl
      · rintro (still | ⟨rfl, rfl, _⟩)
        · exact still
        · exact absurd ⟨rfl, rfl⟩ route
  have up : conn.broken = false := reliable.wire connected
  have reliable₁ : n₁.Reliable := reliable.replace up fun wait => waits.mpr (.inl wait)
  have less : ∀ {r x}, n₁.Waiting r x → n.Waiting r x := by
    rintro r x ⟨from_, wait⟩
    exact ⟨from_, waits.mpr (.inl wait)⟩
  by_cases here : ref.address ∈ n₁.systems
  · have told : Told n₁ ref m (n₁.tell ref.address ref m) := told_tell reliable₁ here
    constructor
    · exact told.reliable
    · exact told.box
    · intro r
      rcases told.queue r with same | ⟨rfl, after⟩
      · exact ⟨[], by rw [same, List.append_nil]; rfl, by simp⟩
      · refine ⟨[m], after, ?_⟩
        intro x member
        cases List.mem_singleton.mp member
        exact ⟨src, wait⟩
    · exact fun coming => less (waiting_tell here coming)
    · rintro r x target ⟨from_, wait⟩
      rcases waits.mp wait with still | ⟨rfl, _, same⟩
      · exact .inl (told.more ⟨from_, still⟩)
      · cases same
        right
        rw [queue_tell reliable₁ target]
        exact List.mem_append_right _ List.mem_cons_self
  · -- nobody listens at the address
    have dropped : n₁.tell ref.address ref m = n₁ := by
      unfold tell
      rw [AList.lookup_eq_none.mpr here]
    rw [dropped]
    refine ⟨reliable₁, fun _ => Iff.rfl, fun r => ⟨[], (List.append_nil _).symm, by simp⟩, less, ?_⟩
    rintro r x target ⟨from_, wait⟩
    rcases waits.mp wait with still | ⟨_, _, same⟩
    · exact .inl ⟨from_, still⟩
    · cases same
      exact absurd (system_of_box target) here

/-! ### New references and new systems -/

theorem issued_reliable {entry : ActorRefInfo M} (reliable : n.Reliable)
    (new : Issued n a entry ref n') (empty : entry = .mailbox .new ∨ entry = .respCh) :
    n'.Reliable ∧ (∀ r, n'.queue r = n.queue r) ∧ (∀ {r x}, n'.Waiting r x ↔ n.Waiting r x) ∧
    n.box ref = none ∧ ∀ r, r ≠ ref → n'.box r = n.box r := by
  have missing : n.info ref = none := reliable.fresh (new.address ▸ new.next) (Int.le_refl _)
  have others : ∀ {r}, r ≠ ref → n'.box r = n.box r := fun other =>
    box_congr (by rw [new.info, if_neg other])
  have own : n.box ref = none := by
    unfold box
    rw [missing]
  have waits : ∀ {a b y}, n'.Waits a b y ↔ n.Waits a b y := by
    intro a b y
    rw [Waits, Waits, new.outgoing, new.conns]
  have here : n'.box ref = none ∨ n'.box ref = some .new := by
    rcases empty with rfl | rfl
    · exact .inr (by rw [box_mailbox, new.info, if_pos rfl])
    · left
      unfold box
      rw [new.info, if_pos rfl]
  constructor
  · refine reliable.frame ?_ new.outgoing (fun found => reliable.wire (new.conns ▸ found)) waits.mp
      new.isClosed ?_
    · intro r
      by_cases same : r = ref
      · rw [same, own]
        exact here
      · exact .inl (others same)
    · intro r next found above
      rw [new.after] at found
      rw [new.info]
      split at found
      · rename_i at_a
        cases found
        have other : r ≠ ref := by
          rintro rfl
          omega
        rw [if_neg other]
        have before : n.next r.address = some ref.counter := by rw [at_a, new.next]
        exact reliable.fresh before (by omega)
      · rename_i away
        have other : r ≠ ref := by
          rintro rfl
          exact away new.address
        rw [if_neg other]
        exact reliable.fresh found above
  · refine ⟨?_, ?_, own, fun r other => others other⟩
    · intro r
      by_cases same : r = ref
      · subst same
        unfold queue
        rw [own]
        rcases here with none | new
        · rw [none]
        · rw [new]
          rfl
      · exact queue_congr (others same)
    · intro r x
      simp only [Waiting, waits]

theorem hop_channel (reliable : n.Reliable) (new : Issued n a .respCh ref n') : Hop n n' := by
  obtain ⟨reliable', queue, waiting, own, others⟩ := issued_reliable reliable new (.inr rfl)
  refine ⟨reliable', ?_, fun r => ⟨[], by rw [queue, List.append_nil], by simp⟩, waiting.mp,
    fun _ coming => .inl (waiting.mpr coming)⟩
  intro r
  by_cases same : r = ref
  · have none : n'.box ref = Option.none := by
      unfold box
      rw [new.info, if_pos rfl]
    rw [same, own, none]
  · rw [others r same]

/-- No mailbox and no connection is touched. -/
theorem Hop.unmoved (reliable : n.Reliable) (info : n'.info = n.info)
    (outgoing : n'.outgoing = n.outgoing) (conns : n'.conns = n.conns)
    (closed : n'.isClosed = n.isClosed)
    (fresh : ∀ {r next}, n'.next r.address = some next → next ≤ r.counter → n.info r = none) :
    Hop n n' := by
  have box : ∀ r, n'.box r = n.box r := fun r => box_congr (congrFun info r)
  have waits : ∀ {a b y}, n'.Waits a b y ↔ n.Waits a b y := by
    intro a b y
    rw [Waits, Waits, outgoing, conns]
  refine .still ?_ box waits
  exact reliable.frame (fun r => .inl (box r)) outgoing
    (fun found => reliable.wire (conns ▸ found)) waits.mp closed
    fun found above => info ▸ fresh found above

theorem hop_newActorSystem (reliable : n.Reliable) (created : n.newActorSystem a = some n') :
    Hop n n' := by
  obtain ⟨missing, next, info, _, outgoing, conns, closed⟩ := newActorSystem_spec created
  refine .unmoved reliable info outgoing conns closed ?_
  intro r c found above
  rw [next] at found
  split at found
  · -- there was no system at this address
    rename_i at_a
    unfold Net.next at missing
    unfold Net.info
    rw [at_a, Option.map_eq_none_iff.mp missing]
    rfl
  · exact reliable.fresh found above

/-- The holder of a channel has received what stood in it. -/
theorem receive_spec (received : n.receive ref = some (m, n')) :
    n.respCh ref = some m ∧ (∀ r, n'.respCh r = if r = ref then none else n.respCh r) ∧
    n'.info = n.info ∧ n'.outgoing = n.outgoing ∧ n'.conns = n.conns ∧
    n'.isClosed = n.isClosed ∧ n'.next = n.next := by
  unfold receive at received
  split at received
  · cases received
  · rename_i s here
    split at received
    · cases received
    · rename_i found
      cases received
      refine ⟨by rw [respCh_of here rfl, found], ?_, info_same here rfl, outgoing_same here rfl, rfl,
        isClosed_same here rfl, next_same here rfl⟩
      intro r
      rw [respCh_setSystem]
      by_cases same : r = ref
      · subst same
        rw [if_pos rfl, if_pos rfl, Map.lookup_erase, if_pos rfl]
      · rw [if_neg same]
        split
        · rename_i at_ref
          have other : r.counter ≠ ref.counter := fun eq => same (ref_eq_iff.mpr ⟨at_ref, eq⟩)
          rw [Map.lookup_erase, if_neg other, respCh_of here at_ref]
        · rfl

theorem receive_ready (ready : n.respCh ref = some m) : ∃ n', n.receive ref = some (m, n') := by
  obtain ⟨s, here, found⟩ := Option.bind_eq_some_iff.mp ready
  simp only [receive, here, found]
  exact ⟨_, rfl⟩

theorem hop_receive (reliable : n.Reliable) (received : n.receive ref = some (m, n')) :
    Hop n n' := by
  obtain ⟨_, _, info, outgoing, conns, closed, next⟩ := receive_spec received
  exact .unmoved reliable info outgoing conns closed fun found above =>
    reliable.fresh (next ▸ found) above

end Net

end DistSys.Actor
