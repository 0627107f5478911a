import DistSys.Actor.System

/-! What each operation of the actor package does to what can be seen of the systems: the info
behind a reference, the response channels, the mailboxes for other systems, the connections. -/
namespace DistSys.Actor

open DistSys.Lib

variable {M : Type} {n n' : Net M} {s : ActorSystem M} {a b src dst : String} {r ref : ActorRef}
variable {m : M}

theorem Mailbox.pop_message {mailbox rest : Mailbox M}
    (popped : mailbox.pop = some (some m, rest)) :
    mailbox.queue = m :: rest.queue ∧ mailbox.isClosed = false ∧ rest.isClosed = false := by
  unfold Mailbox.pop at popped
  split at popped
  · cases popped
  · rename_i isOpen
    have isOpen := Bool.eq_false_iff.mpr isOpen
    split at popped
    · cases popped
    · cases popped
      exact ⟨‹_›, isOpen, isOpen⟩

namespace Net

/-- What a reference stands for. -/
def info (n : Net M) (ref : ActorRef) : Option (ActorRefInfo M) :=
  (n.systems.lookup ref.address).bind fun s => s.infos.lookup ref.counter

/-- The mailbox of an actor. -/
def box (n : Net M) (ref : ActorRef) : Option (Mailbox M) :=
  match n.info ref with
  | some (.mailbox mailbox) => some mailbox
  | _ => none

/-- What stands in a response channel. -/
def respCh (n : Net M) (ref : ActorRef) : Option M :=
  (n.systems.lookup ref.address).bind fun s => s.respChs.lookup ref.counter

/-- The mailbox in which a system keeps what goes to another one. -/
def outgoing (n : Net M) (src dst : String) : Option (Mailbox (RemoteMessage M)) :=
  (n.systems.lookup src).bind fun s => s.remotes.lookup dst

def isClosed (n : Net M) (address : String) : Bool :=
  match n.systems.lookup address with
  | some s => s.closed
  | none => false

/-- The next number that the system gives to a reference. -/
def next (n : Net M) (address : String) : Option Int :=
  (n.systems.lookup address).map fun s => s.nextCounter

/-! ### One system changes -/

theorem info_setSystem : (n.setSystem a s).info r =
    if r.address = a then s.infos.lookup r.counter else n.info r := by
  unfold info setSystem
  rw [Map.lookup_insert]
  split <;> rfl

theorem respCh_setSystem : (n.setSystem a s).respCh r =
    if r.address = a then s.respChs.lookup r.counter else n.respCh r := by
  unfold respCh setSystem
  rw [Map.lookup_insert]
  split <;> rfl

theorem outgoing_setSystem : (n.setSystem a s).outgoing src dst =
    if src = a then s.remotes.lookup dst else n.outgoing src dst := by
  unfold outgoing setSystem
  rw [Map.lookup_insert]
  split <;> rfl

theorem isClosed_setSystem : (n.setSystem a s).isClosed b =
    if b = a then s.closed else n.isClosed b := by
  unfold isClosed setSystem
  rw [Map.lookup_insert]
  by_cases same : b = a
  · rw [if_pos same, if_pos same]
  · rw [if_neg same, if_neg same]

theorem next_setSystem : (n.setSystem a s).next b =
    if b = a then some s.nextCounter else n.next b := by
  unfold next setSystem
  rw [Map.lookup_insert]
  split <;> rfl

theorem info_of (here : n.systems.lookup a = some s) (at_a : r.address = a) :
    n.info r = s.infos.lookup r.counter := by
  subst at_a
  simp only [info, here, Option.bind_some]

theorem respCh_of (here : n.systems.lookup a = some s) (at_a : r.address = a) :
    n.respCh r = s.respChs.lookup r.counter := by
  subst at_a
  simp only [respCh, here, Option.bind_some]

theorem outgoing_of (here : n.systems.lookup src = some s) :
    n.outgoing src dst = s.remotes.lookup dst := by
  simp only [outgoing, here, Option.bind_some]

/-- One mailbox of one system is replaced. -/
theorem outgoing_replace {s' : ActorSystem M} {mailbox : Mailbox (RemoteMessage M)}
    (here : n.systems.lookup src = some s) (replaced : s'.remotes = s.remotes.insert dst mailbox) :
    (n.setSystem src s').outgoing a b =
      if a = src ∧ b = dst then some mailbox else n.outgoing a b := by
  rw [outgoing_setSystem]
  by_cases at_src : a = src
  · subst at_src
    rw [if_pos rfl, replaced, Map.lookup_insert, outgoing_of here]
    simp only [true_and]
  · rw [if_neg at_src, if_neg fun both => at_src both.1]

theorem isClosed_of (here : n.systems.lookup a = some s) : n.isClosed a = s.closed := by
  simp only [isClosed, here]

theorem next_of (here : n.systems.lookup a = some s) : n.next a = some s.nextCounter := by
  simp only [next, here, Option.map_some]

theorem ref_eq_iff : r = ref ↔ r.address = ref.address ∧ r.counter = ref.counter := by
  cases r
  cases ref
  simp

/-! A field of the system that stays as it was. -/

section

variable (here : n.systems.lookup a = some s)
include here

theorem info_same {s' : ActorSystem M} (same : s'.infos = s.infos) :
    (n.setSystem a s').info = n.info := by
  funext r
  rw [info_setSystem]
  split
  · rw [info_of here ‹_›, same]
  · rfl

theorem respCh_same {s' : ActorSystem M} (same : s'.respChs = s.respChs) :
    (n.setSystem a s').respCh = n.respCh := by
  funext r
  rw [respCh_setSystem]
  split
  · rw [respCh_of here ‹_›, same]
  · rfl

theorem outgoing_same {s' : ActorSystem M} (same : s'.remotes = s.remotes) :
    (n.setSystem a s').outgoing = n.outgoing := by
  funext src dst
  rw [outgoing_setSystem]
  split
  · rename_i at_a
    rw [at_a, outgoing_of here, same]
  · rfl

theorem isClosed_same {s' : ActorSystem M} (same : s'.closed = s.closed) :
    (n.setSystem a s').isClosed = n.isClosed := by
  funext b
  rw [isClosed_setSystem]
  split
  · rename_i at_a
    rw [at_a, isClosed_of here, same]
  · rfl

theorem next_same {s' : ActorSystem M} (same : s'.nextCounter = s.nextCounter) :
    (n.setSystem a s').next = n.next := by
  funext b
  rw [next_setSystem]
  split
  · rename_i at_a
    rw [at_a, next_of here, same]
  · rfl

end

/-! ### Tell -/

theorem tell_conns : (n.tell src ref m).conns = n.conns := by
  unfold tell
  split <;> rfl

theorem tellMarshalled_frame : (s.tellMarshalled src ref m).closed = s.closed ∧
    (s.tellMarshalled src ref m).nextCounter = s.nextCounter := by
  unfold ActorSystem.tellMarshalled
  split
  · split <;> exact ⟨rfl, rfl⟩
  · split
    · exact ⟨rfl, rfl⟩
    · split <;> exact ⟨rfl, rfl⟩

theorem tell_isClosed : (n.tell src ref m).isClosed = n.isClosed := by
  unfold tell
  split
  · rfl
  · exact isClosed_same ‹_› tellMarshalled_frame.1

theorem tell_next : (n.tell src ref m).next = n.next := by
  unfold tell
  split
  · rfl
  · exact next_same ‹_› tellMarshalled_frame.2

/-- A message to a reference of the system itself: it goes into a mailbox, or uses up a
channel. -/
theorem tell_info : (n.tell src ref m).info r =
    if r = ref ∧ ref.address = src then
      match n.info ref with
      | some (.mailbox mailbox) => some (.mailbox (mailbox.push m))
      | _ => none
    else n.info r := by
  unfold tell
  split
  · rename_i missing
    split
    · rename_i here
      obtain ⟨rfl, rfl⟩ := here
      simp only [info, missing, Option.bind_none]
    · rfl
  · rename_i s here
    by_cases local_ : ref.address = src
    · rw [info_setSystem]
      unfold ActorSystem.tellMarshalled
      rw [if_pos local_, info_of here local_]
      by_cases same : r = ref
      · subst same
        rw [if_pos local_, if_pos ⟨rfl, local_⟩]
        cases found : s.infos.lookup r.counter with
        | none => exact found
        | some entry =>
          cases entry with
          | mailbox box => simp only [Map.lookup_insert, if_true]
          | respCh => simp only [Map.lookup_erase, if_true]
      · rw [if_neg fun both : r = ref ∧ ref.address = src => same both.1]
        by_cases at_src : r.address = src
        · have other : r.counter ≠ ref.counter := fun eq =>
            same (ref_eq_iff.mpr ⟨at_src.trans local_.symm, eq⟩)
          rw [if_pos at_src, info_of here at_src]
          cases s.infos.lookup ref.counter with
          | none => rfl
          | some entry =>
            cases entry with
            | mailbox box => simp only [Map.lookup_insert, other, if_false]
            | respCh => simp only [Map.lookup_erase, other, if_false]
        · rw [if_neg at_src]
    · rw [if_neg fun both => local_ both.2]
      refine congrFun (info_same here ?_) r
      unfold ActorSystem.tellMarshalled
      rw [if_neg local_]
      split
      · rfl
      · split <;> rfl

theorem tell_respCh (others : ref.address = src → n.info ref ≠ some .respCh) :
    (n.tell src ref m).respCh = n.respCh := by
  unfold tell
  split
  · rfl
  · rename_i s here
    refine respCh_same here ?_
    unfold ActorSystem.tellMarshalled
    split
    · rename_i own
      have others := others own
      rw [info_of here own] at others
      split
      · rfl
      · rfl
      · exact absurd ‹_› others
    · split
      · rfl
      · split <;> rfl

theorem tell_channel (found : n.info ref = some .respCh) :
    (n.tell ref.address ref m).respCh r = if r = ref then some m else n.respCh r := by
  unfold tell
  split
  · rename_i missing
    simp only [info, missing, Option.bind_none] at found
    cases found
  · rename_i s here
    rw [info_of here rfl] at found
    simp only [respCh_setSystem, ActorSystem.tellMarshalled, if_true, found, Map.lookup_insert]
    by_cases same : r = ref
    · subst same
      rw [if_pos rfl, if_pos rfl, if_pos rfl]
    · rw [if_neg same]
      split
      · rename_i at_src
        rw [if_neg fun eq => same (ref_eq_iff.mpr ⟨at_src, eq⟩), respCh_of here at_src]
      · rfl

theorem tell_outgoing_same (own : ref.address = src) : (n.tell src ref m).outgoing = n.outgoing := by
  unfold tell
  split
  · rfl
  · refine outgoing_same ‹_› ?_
    unfold ActorSystem.tellMarshalled
    rw [if_pos own]
    split <;> rfl

/-- The mailbox for another system, after one more message. -/
def afterTell (n : Net M) (src : String) (ref : ActorRef) (m : M) :
    Option (Mailbox (RemoteMessage M)) :=
  match n.outgoing src ref.address with
  | some mailbox => some (mailbox.push ⟨ref, m⟩)
  | none => if n.isClosed src then none else some (Mailbox.new.push ⟨ref, m⟩)

theorem tell_outgoing (here : src ∈ n.systems) (away : ref.address ≠ src) :
    (n.tell src ref m).outgoing a b =
      if a = src ∧ b = ref.address then n.afterTell src ref m else n.outgoing a b := by
  obtain ⟨s, here⟩ := Map.lookup_of_mem here
  simp only [tell, here, outgoing_setSystem, ActorSystem.tellMarshalled, if_neg away]
  by_cases at_src : a = src
  · subst at_src
    simp only [if_true, true_and, outgoing_of here, afterTell, isClosed_of here]
    cases found : s.remotes.lookup ref.address with
    | some mailbox => exact Map.lookup_insert ..
    | none =>
      dsimp only
      by_cases closed : s.closed = true
      · simp only [closed, if_true]
        split
        · rename_i there
          rw [there, found]
        · rfl
      · simp only [closed, Bool.false_eq_true, if_false]
        exact Map.lookup_insert ..
  · simp only [at_src, false_and, if_false]

/-! ### The mailbox of an actor -/

theorem box_mailbox {mailbox : Mailbox M} : n.box r = some mailbox ↔
    n.info r = some (.mailbox mailbox) := by
  unfold box
  split
  · rename_i found
    simp only [found, Option.some.injEq, ActorRefInfo.mailbox.injEq]
  · rename_i others
    constructor
    · intro none
      cases none
    · exact fun found => absurd found (others mailbox)

theorem box_congr (same : n'.info r = n.info r) : n'.box r = n.box r := by
  unfold box
  rw [same]

theorem box_tell : (n.tell src ref m).box r =
    if r = ref ∧ ref.address = src then (n.box ref).map fun mailbox => mailbox.push m
    else n.box r := by
  split
  · rename_i here
    unfold box
    rw [tell_info, if_pos here]
    cases n.info ref with
    | none => rfl
    | some entry => cases entry <;> rfl
  · rename_i other
    apply box_congr
    rw [tell_info, if_neg other]

theorem box_tell_none : (n.tell src ref m).box r = none ↔ n.box r = none := by
  rw [box_tell]
  split
  · rename_i same
    rw [same.1, Option.map_eq_none_iff]
  · rfl

theorem tell_info_none (missing : n.info r = none) : (n.tell src ref m).info r = none := by
  rw [tell_info]
  split
  · rename_i same
    rw [← same.1, missing]
  · exact missing

theorem system_of_box (found : n.box r ≠ none) : r.address ∈ n.systems := by
  obtain ⟨mailbox, found⟩ := Option.ne_none_iff_exists'.mp found
  have found := box_mailbox.mp found
  unfold info at found
  obtain ⟨system, here, _⟩ := Option.bind_eq_some_iff.mp found
  exact Map.mem_of_lookup here

/-! ### What waits between systems -/

/-- A message waits in a system that another one is to get it from. -/
def Waits (n : Net M) (src dst : String) (x : RemoteMessage M) : Prop :=
  (∃ mailbox, n.outgoing src dst = some mailbox ∧ x ∈ mailbox.queue) ∨
    ∃ conn, n.conns.lookup (src, dst) = some conn ∧ x ∈ conn.stream

theorem mem_push {α : Type} {mailbox : Mailbox α} {x y : α}
    (member : y ∈ (mailbox.push x).queue) : y ∈ mailbox.queue ∨ y = x := by
  unfold Mailbox.push at member
  split at member
  · exact .inl member
  · simpa using member

theorem waits_tell {x : RemoteMessage M} (here : src ∈ n.systems)
    (wait : (n.tell src ref m).Waits a b x) :
    n.Waits a b x ∨ a = src ∧ b = ref.address ∧ ref.address ≠ src ∧ x = ⟨ref, m⟩ := by
  rcases wait with ⟨mailbox, found, member⟩ | ⟨conn, found, member⟩
  · by_cases own : ref.address = src
    · rw [tell_outgoing_same own] at found
      exact .inl (.inl ⟨mailbox, found, member⟩)
    · rw [tell_outgoing here own] at found
      split at found
      · rename_i route
        obtain ⟨rfl, rfl⟩ := route
        unfold afterTell at found
        split at found
        · rename_i old before
          cases found
          rcases mem_push member with member | rfl
          · exact .inl (.inl ⟨old, before, member⟩)
          · exact .inr ⟨rfl, rfl, own, rfl⟩
        · split at found
          · cases found
          · cases found
            exact .inr ⟨rfl, rfl, own, (mem_push member).resolve_left List.not_mem_nil⟩
      · exact .inl (.inl ⟨mailbox, found, member⟩)
  · rw [tell_conns] at found
    exact .inl (.inr ⟨conn, found, member⟩)

/-! ### The other operations, one by one -/

theorem pop_spec (popped : n.pop ref = some (m, n')) : ∃ mailbox rest : Mailbox M,
    n.box ref = some mailbox ∧ mailbox.pop = some (some m, rest) ∧
    (∀ r, n'.info r = if r = ref then some (.mailbox rest) else n.info r) ∧
    n'.respCh = n.respCh ∧ n'.outgoing = n.outgoing ∧ n'.conns = n.conns ∧
    n'.isClosed = n.isClosed ∧ n'.next = n.next := by
  unfold pop at popped
  split at popped
  · cases popped
  · rename_i s here
    split at popped
    · rename_i mailbox found
      split at popped
      · rename_i m rest taken
        cases popped
        refine ⟨mailbox, rest, ?_, taken, ?_, respCh_same here rfl, outgoing_same here rfl, rfl,
          isClosed_same here rfl, next_same here rfl⟩
        · rw [box_mailbox, info_of here rfl, found]
        · intro r
          rw [info_setSystem]
          by_cases same : r = ref
          · subst same
            simp only [Map.lookup_insert, if_true]
          · rw [if_neg same]
            split
            · rename_i at_ref
              have other : r.counter ≠ ref.counter := fun eq => same (ref_eq_iff.mpr ⟨at_ref, eq⟩)
              rw [Map.lookup_insert, if_neg other, info_of here at_ref]
            · rfl
      · cases popped
    · cases popped

theorem remoteSend_spec (sent : n.remoteSend src dst = some n') :
    ∃ (mailbox rest : Mailbox (RemoteMessage M)) (conn : Conn M) (message : RemoteMessage M),
    n.outgoing src dst = some mailbox ∧ n.conns.lookup (src, dst) = some conn ∧
    mailbox.pop = some (some message, rest) ∧
    (∀ a b, n'.outgoing a b = if a = src ∧ b = dst then some rest else n.outgoing a b) ∧
    n'.conns = n.conns.insert (src, dst) (conn.write message) ∧
    n'.info = n.info ∧ n'.respCh = n.respCh ∧ n'.isClosed = n.isClosed ∧ n'.next = n.next := by
  unfold remoteSend at sent
  split at sent
  · cases sent
  · rename_i s here
    split at sent
    · rename_i mailbox conn found connected
      split at sent
      · rename_i message rest taken
        cases sent
        refine ⟨mailbox, rest, conn, message, ?_, connected, taken, ?_, rfl, info_same here rfl,
          respCh_same here rfl, isClosed_same here rfl, next_same here rfl⟩
        · rw [outgoing_of here, found]
        · intro a b
          exact outgoing_replace here rfl
      · cases sent
    · cases sent

theorem serveRequest_spec (served : n.serveRequest src dst = some n') :
    ∃ (conn : Conn M) (message : RemoteMessage M) (rest : List (RemoteMessage M)),
    n.conns.lookup (src, dst) = some conn ∧ conn.stream = message :: rest ∧
    n' = { n with conns := n.conns.insert (src, dst) { conn with stream := rest } }.tell
      dst message.ref message.mars := by
  unfold serveRequest at served
  split at served
  · cases served
  · rename_i conn connected
    split at served
    · cases served
    · split at served
      · cases served
      · rename_i message rest first
        cases served
        exact ⟨conn, message, rest, connected, first, rfl⟩

theorem dial_spec {success : Bool} (dialed : n.dial src dst success = some n') :
    n.conns.lookup (src, dst) = none ∧
    (n' = { n with conns := n.conns.insert (src, dst) ⟨[], false, false⟩ } ∨
    ∃ mailbox, n.outgoing src dst = some mailbox ∧
      (∀ a b, n'.outgoing a b = if a = src ∧ b = dst then some mailbox.close else n.outgoing a b) ∧
      n'.conns = n.conns ∧ n'.info = n.info ∧ n'.isClosed = n.isClosed ∧ n'.next = n.next) := by
  unfold dial at dialed
  split at dialed
  · cases dialed
  · rename_i s here
    split at dialed
    · rename_i mailbox found missing
      refine ⟨missing, ?_⟩
      split at dialed
      · split at dialed
        · cases dialed
          exact .inl rfl
        · cases dialed
      · cases dialed
        right
        refine ⟨mailbox, by rw [outgoing_of here, found], ?_, rfl, info_same here rfl,
          isClosed_same here rfl, next_same here rfl⟩
        intro a b
        exact outgoing_replace here rfl
    · cases dialed

/-! ### Starting and closing -/

/-- Nothing that can be seen differs. -/
structure Alike (n n' : Net M) : Prop where
  info : n'.info = n.info
  respCh : n'.respCh = n.respCh
  outgoing : n'.outgoing = n.outgoing
  conns : n'.conns = n.conns
  isClosed : n'.isClosed = n.isClosed
  next : n'.next = n.next

theorem alike_setSystem (here : n.systems.lookup a = some s) : Alike n (n.setSystem a s) where
  info := info_same here rfl
  respCh := respCh_same here rfl
  outgoing := outgoing_same here rfl
  conns := rfl
  isClosed := isClosed_same here rfl
  next := next_same here rfl

/-- A new reference of a system that is not closed. -/
structure Issued (n : Net M) (a : String) (entry : ActorRefInfo M) (ref : ActorRef) (n' : Net M) :
    Prop where
  next : n.next a = some ref.counter
  address : ref.address = a
  up : n.isClosed a = false
  info : ∀ r, n'.info r = if r = ref then some entry else n.info r
  after : ∀ b, n'.next b = if b = a then some (ref.counter + 1) else n.next b
  respCh : n'.respCh = n.respCh
  outgoing : n'.outgoing = n.outgoing
  conns : n'.conns = n.conns
  isClosed : n'.isClosed = n.isClosed

theorem issued_insert {entry : ActorRefInfo M} (here : n.systems.lookup a = some s)
    (up : s.closed = false) : Issued n a entry ⟨a, s.nextCounter⟩ (n.setSystem a { s with
      nextCounter := s.nextCounter + 1
      infos := s.infos.insert s.nextCounter entry }) where
  next := next_of here
  address := rfl
  up := (isClosed_of here).trans up
  info := by
    intro r
    rw [info_setSystem]
    by_cases same : r = ⟨a, s.nextCounter⟩
    · subst same
      rw [if_pos rfl, if_pos rfl, Map.lookup_insert, if_pos rfl]
    · rw [if_neg same]
      split
      · rename_i at_a
        have other : r.counter ≠ s.nextCounter := fun eq => same (ref_eq_iff.mpr ⟨at_a, eq⟩)
        rw [Map.lookup_insert, if_neg other, info_of here at_a]
      · rfl
  after := fun b => next_setSystem
  respCh := respCh_same here rfl
  outgoing := outgoing_same here rfl
  conns := rfl
  isClosed := isClosed_same here rfl

theorem startActor_spec (started : n.startActor a = some (ref, n')) :
    Alike n n' ∧ n.isClosed a = true ∨ Issued n a (.mailbox .new) ref n' := by
  unfold startActor at started
  obtain ⟨s, here, same⟩ := Option.map_eq_some_iff.mp started
  unfold ActorSystem.startActor at same
  split at same
  · rename_i closed
    cases same
    exact .inl ⟨alike_setSystem here, (isClosed_of here).trans closed⟩
  · rename_i up
    cases same
    exact .inr (issued_insert here (Bool.eq_false_iff.mpr up))

theorem newChannelRef_spec (started : n.newChannelRef a = some (ref, n')) :
    Alike n n' ∧ n.isClosed a = true ∨ Issued n a .respCh ref n' := by
  unfold newChannelRef at started
  obtain ⟨s, here, same⟩ := Option.map_eq_some_iff.mp started
  unfold ActorSystem.newChannelRef at same
  split at same
  · rename_i closed
    cases same
    exact .inl ⟨alike_setSystem here, (isClosed_of here).trans closed⟩
  · rename_i up
    cases same
    exact .inr (issued_insert here (Bool.eq_false_iff.mpr up))

theorem newActorSystem_spec (created : n.newActorSystem a = some n') :
    n.next a = none ∧ (∀ b, n'.next b = if b = a then some 0 else n.next b) ∧
    n'.info = n.info ∧ n'.respCh = n.respCh ∧ n'.outgoing = n.outgoing ∧ n'.conns = n.conns ∧
    n'.isClosed = n.isClosed := by
  unfold newActorSystem at created
  split at created
  · cases created
  · rename_i missing
    cases created
    have missing : n.systems.lookup a = none := AList.lookup_eq_none.mpr missing
    refine ⟨by simp only [next, missing, Option.map_none], fun b => next_setSystem, ?_, ?_, ?_, rfl,
      ?_⟩
    · funext r
      rw [info_setSystem]
      split
      · rename_i at_a
        unfold info
        rw [at_a, missing]
        rfl
      · rfl
    · funext r
      rw [respCh_setSystem]
      split
      · rename_i at_a
        unfold respCh
        rw [at_a, missing]
        rfl
      · rfl
    · funext src dst
      rw [outgoing_setSystem]
      split
      · rename_i at_a
        unfold outgoing
        rw [at_a, missing]
        rfl
      · rfl
    · funext b
      rw [isClosed_setSystem]
      split
      · rename_i at_a
        unfold isClosed
        rw [at_a, missing]
        rfl
      · rfl

theorem close_spec (closes : n.close a = some n') : Alike n n' ∨
    (∀ r, n'.info r = if r.address = a then (n.info r).map ActorRefInfo.close else n.info r) ∧
    (∀ src dst, n'.outgoing src dst =
      if src = a then (n.outgoing src dst).map Mailbox.close else n.outgoing src dst) ∧
    (∀ b, n'.isClosed b = if b = a then true else n.isClosed b) ∧
    n'.conns = n.conns ∧ n'.next = n.next := by
  unfold close at closes
  obtain ⟨s, here, rfl⟩ := Option.map_eq_some_iff.mp closes
  unfold ActorSystem.close
  split
  · exact .inl (alike_setSystem here)
  · right
    refine ⟨?_, ?_, fun b => isClosed_setSystem, rfl, next_same here rfl⟩
    · intro r
      rw [info_setSystem]
      split
      · rename_i at_a
        rw [Map.lookup_mapValues, info_of here at_a]
      · rfl
    · intro src dst
      rw [outgoing_setSystem]
      split
      · rename_i at_a
        rw [Map.lookup_mapValues, at_a, outgoing_of here]
      · rfl

end Net

end DistSys.Actor
