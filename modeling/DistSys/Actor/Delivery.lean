import DistSys.Lib.Pipes
import DistSys.Lib.Runs
import DistSys.Actor.Net

/-! Actors that tell one another messages, in any number of systems that are started, lose their
connections and are closed at any time. What one actor tells another goes through a pipe of
queues, shared with the messages of other actors. -/
namespace DistSys.Actor

open DistSys.Lib

/-- A message with the actor that tells it. -/
structure Letter (M : Type) where
  sender : ActorRef
  body : M
  deriving DecidableEq, Repr

/-- `told` are the messages of all `Tell` calls of actors, `handed` those that `runActor` has
handed to `OnMessage`, in the order of the steps. -/
structure World (M : Type) where
  net : Net (Letter M)
  told : List (RemoteMessage (Letter M))
  handed : List (RemoteMessage (Letter M))

variable {M : Type}

def newWorld : World M := ⟨.new, [], []⟩

/-- Someone has got the reference from `StartActor` or `NewChannelRef`. -/
def Net.issued (n : Net M) (ref : ActorRef) : Bool :=
  match n.next ref.address with
  | some next => ref.counter < next
  | none => false

inductive Action (M : Type) where
  | newActorSystem (address : String)
  | startActor (address : String)
  | newChannelRef (address : String)
  | tell (sender target : ActorRef) (message : M)
  | pop (target : ActorRef)
  | dial (src dst : String) (success : Bool)
  | remoteSend (src dst : String)
  | serveRequest (src dst : String)
  | fail (src dst : String) (writer : Bool)
  | close (address : String)

def step (w : World M) : Action M → Option (World M)
  | .newActorSystem address => (w.net.newActorSystem address).map fun net => { w with net := net }
  | .startActor address => (w.net.startActor address).map fun started =>
      { w with net := started.2 }
  | .newChannelRef address => (w.net.newChannelRef address).map fun started =>
      { w with net := started.2 }
  | .tell sender target message =>
    if w.net.box sender ≠ none ∧ w.net.issued target then
      some { w with
        net := w.net.tell sender.address target ⟨sender, message⟩
        told := w.told ++ [⟨target, ⟨sender, message⟩⟩] }
    else none
  | .pop target => (w.net.pop target).map fun popped =>
      { w with net := popped.2, handed := w.handed ++ [⟨target, popped.1⟩] }
  | .dial src dst success => (w.net.dial src dst success).map fun net => { w with net := net }
  | .remoteSend src dst => (w.net.remoteSend src dst).map fun net => { w with net := net }
  | .serveRequest src dst => (w.net.serveRequest src dst).map fun net => { w with net := net }
  | .fail src dst writer => (w.net.fail src dst writer).map fun net => { w with net := net }
  | .close address => (w.net.close address).map fun net => { w with net := net }

/-! ### The pipe between two actors -/

def Letter.sentBy (sender : ActorRef) (letter : Letter M) : Option M :=
  if letter.sender = sender then some letter.body else none

/-- The message, if it goes from one given actor to another. -/
def between (sender target : ActorRef) (message : RemoteMessage (Letter M)) : Option M :=
  if message.ref = target then message.mars.sentBy sender else none

def World.toldTo (w : World M) (sender target : ActorRef) : List M :=
  w.told.filterMap (between sender target)

def World.handedTo (w : World M) (sender target : ActorRef) : List M :=
  w.handed.filterMap (between sender target)

section

variable {α β : Type} (f : α → Option β)

/-- What is of interest in a mailbox. -/
def Mailbox.stage (mailbox : Mailbox α) : Stage β := ⟨mailbox.queue.filterMap f, mailbox.isClosed⟩

theorem Mailbox.stage_push (mailbox : Mailbox α) (x : α) : (mailbox.push x).stage f =
    match f x with
    | some y => (mailbox.stage f).push y
    | none => mailbox.stage f := by
  unfold Mailbox.push Mailbox.stage Stage.push
  cases here : f x <;> cases closed : mailbox.isClosed <;> simp [closed, here]

theorem Mailbox.stage_pop {mailbox rest : Mailbox α} {x : α}
    (popped : mailbox.pop = some (some x, rest)) : mailbox.stage f =
      match f x with
      | some y => ⟨y :: (rest.stage f).queue, (rest.stage f).shut⟩
      | none => rest.stage f := by
  obtain ⟨queue, isOpen, still⟩ := Mailbox.pop_message popped
  unfold Mailbox.stage
  rw [queue, isOpen, still]
  cases here : f x <;> simp [here]

end

def Conn.stage {β : Type} (f : RemoteMessage M → Option β) (conn : Conn M) : Stage β :=
  ⟨conn.stream.filterMap f, conn.broken⟩

theorem Conn.stage_write {β : Type} (f : RemoteMessage M → Option β) (conn : Conn M)
    (x : RemoteMessage M) : (conn.write x).stage f =
      match f x with
      | some y => (conn.stage f).push y
      | none => conn.stage f := by
  unfold Conn.write Conn.stage Stage.push
  cases here : f x <;> cases broken : conn.broken <;> simp [broken, here]

namespace Net

variable {n n' : Net (Letter M)} {s t : ActorRef}

def inStage (n : Net (Letter M)) (s t : ActorRef) : Stage M :=
  match n.box t with
  | some mailbox => mailbox.stage (Letter.sentBy s)
  | none => ⟨[], false⟩

def wireStage (n : Net (Letter M)) (s t : ActorRef) : Stage M :=
  match n.conns.lookup (s.address, t.address) with
  | some conn => conn.stage (between s t)
  | none => ⟨[], false⟩

def outStage (n : Net (Letter M)) (s t : ActorRef) : Stage M :=
  match n.outgoing s.address t.address with
  | some mailbox => mailbox.stage (between s t)
  | none => ⟨[], n.isClosed s.address⟩

/-- The queues through which the messages of one actor to another go. -/
def pipe (n : Net (Letter M)) (s t : ActorRef) : List (Stage M) :=
  if s.address = t.address then [n.inStage s t]
  else [n.inStage s t, n.wireStage s t, n.outStage s t]

theorem pipe_congr (inbox : n'.inStage s t = n.inStage s t)
    (wire : s.address ≠ t.address → n'.wireStage s t = n.wireStage s t)
    (out : s.address ≠ t.address → n'.outStage s t = n.outStage s t) :
    n'.pipe s t = n.pipe s t := by
  unfold pipe
  split
  · rw [inbox]
  · rename_i away
    rw [inbox, wire away, out away]

/-- The queues of a pipe may be shut. -/
theorem pipe_shuts {got sent : List M} (feeds : Feeds (n.pipe s t) got sent)
    (inbox : (n.inStage s t).Shuts (n'.inStage s t))
    (wire : (n.wireStage s t).Shuts (n'.wireStage s t))
    (out : (n.outStage s t).Shuts (n'.outStage s t)) : Feeds (n'.pipe s t) got sent := by
  refine feeds.shuts ?_
  unfold pipe
  split
  · exact .cons inbox .nil
  · exact .cons inbox (.cons wire (.cons out .nil))

theorem inStage_congr (same : n'.box t = n.box t) : n'.inStage s t = n.inStage s t := by
  unfold inStage
  rw [same]

theorem wireStage_congr (same : n'.conns = n.conns) : n'.wireStage s t = n.wireStage s t := by
  unfold wireStage
  rw [same]

theorem outStage_congr (same : n'.outgoing s.address t.address = n.outgoing s.address t.address)
    (closed : n'.isClosed = n.isClosed) : n'.outStage s t = n.outStage s t := by
  unfold outStage
  rw [same, closed]

/-- A letter that comes to the mailbox of its target. -/
theorem inStage_tell {letter : Letter M} {mailbox : Mailbox (Letter M)}
    (found : n.box t = some mailbox) : (n.tell t.address t letter).inStage s t =
      match letter.sentBy s with
      | some m => (n.inStage s t).push m
      | none => n.inStage s t := by
  unfold inStage
  rw [box_tell, if_pos ⟨rfl, rfl⟩, found]
  exact Mailbox.stage_push ..

/-- A letter that comes to the mailbox for the system of its target. -/
theorem outStage_tell {ref : ActorRef} {letter : Letter M} (here : s.address ∈ n.systems)
    (away : ref.address ≠ s.address) (there : t.address = ref.address) :
    (n.tell s.address ref letter).outStage s t =
      match between s t ⟨ref, letter⟩ with
      | some m => (n.outStage s t).push m
      | none => n.outStage s t := by
  unfold outStage
  rw [tell_outgoing here away, if_pos ⟨rfl, there⟩, there, tell_isClosed]
  unfold afterTell
  cases n.outgoing s.address ref.address with
  | some mailbox => exact Mailbox.stage_push ..
  | none =>
    cases closed : n.isClosed s.address with
    | true =>
      simp only [if_true, Stage.push]
      split <;> rfl
    | false =>
      simp only [Bool.false_eq_true, if_false]
      exact Mailbox.stage_push _ Mailbox.new _

theorem between_eq {s₀ t₀ : ActorRef} {m : M} :
    between s t ⟨t₀, ⟨s₀, m⟩⟩ = if s = s₀ ∧ t = t₀ then some m else none := by
  unfold between Letter.sentBy
  by_cases target : t = t₀
  · by_cases sender : s = s₀
    · simp [target, sender]
    · simp [target, sender, Ne.symm sender]
  · simp [target, Ne.symm target]

/-- A message told goes into the last queue of its pipe. -/
theorem pipe_tell_own {m : M} {got sent : List M} {mailbox : Mailbox (Letter M)}
    (here : s.address ∈ n.systems) (found : n.box t = some mailbox)
    (feeds : Feeds (n.pipe s t) got sent) :
    Feeds ((n.tell s.address t ⟨s, m⟩).pipe s t) got (sent ++ [m]) := by
  unfold pipe at feeds ⊢
  split at feeds
  · rename_i own
    rw [own, if_pos rfl, inStage_tell found]
    simp only [Letter.sentBy, if_true]
    exact feeds.send
  · rename_i away
    have out : (n.tell s.address t ⟨s, m⟩).outStage s t = _ :=
      outStage_tell here (Ne.symm away) rfl
    simp only [between_eq, and_self, if_true] at out
    rw [if_neg away, out, wireStage_congr tell_conns, inStage_congr]
    · exact feeds.upstream fun _ feeds => feeds.upstream fun _ feeds => feeds.send
    · rw [box_tell, if_neg fun both => away both.2.symm]

theorem pipe_tell_other {s₀ t₀ : ActorRef} {m : M} (here : s₀.address ∈ n.systems)
    (other : ¬(s = s₀ ∧ t = t₀)) :
    (n.tell s₀.address t₀ ⟨s₀, m⟩).pipe s t = n.pipe s t := by
  refine pipe_congr ?_ (fun _ => wireStage_congr tell_conns) fun away => ?_
  · by_cases target : t = t₀ ∧ t₀.address = s₀.address
    · obtain ⟨rfl, own⟩ := target
      rw [← own]
      cases found : n.box t with
      | none =>
        apply inStage_congr
        rw [box_tell, if_pos ⟨rfl, rfl⟩, found]
        rfl
      | some mailbox =>
        have sender : s₀ ≠ s := fun same => other ⟨same.symm, rfl⟩
        rw [inStage_tell found]
        simp only [Letter.sentBy, sender, if_false]
    · apply inStage_congr
      rw [box_tell, if_neg target]
  · by_cases route : s.address = s₀.address ∧ t.address = t₀.address
    · rw [← route.1] at here ⊢
      rw [outStage_tell here (route.2 ▸ Ne.symm away) route.2, between_eq, if_neg other]
    · apply outStage_congr _ tell_isClosed
      by_cases own : t₀.address = s₀.address
      · rw [tell_outgoing_same own]
      · rw [tell_outgoing here own, if_neg route]

end Net

/-! ### What holds in every reachable state -/

/-- What waits between two systems: told by an actor of the one to an actor of the other. -/
structure Routed (n : Net (Letter M)) (src dst : String) (x : RemoteMessage (Letter M)) : Prop where
  target : x.ref.address = dst
  sender : x.mars.sender.address = src
  away : src ≠ dst
  issued : n.issued x.ref = true

structure Orderly (w : World M) : Prop where
  pipes : ∀ s t, w.net.box t ≠ none →
    Feeds (w.net.pipe s t) (w.handedTo s t) (w.toldTo s t)
  waits : ∀ src dst x, w.net.Waits src dst x → Routed w.net src dst x
  told : ∀ x ∈ w.told, w.net.issued x.ref = true
  handed : ∀ x ∈ w.handed, w.net.box x.ref ≠ none
  fresh : ∀ r, w.net.issued r = false → w.net.info r = none

variable {w w' : World M} {n n' : Net (Letter M)} {s t : ActorRef} {src dst : String}

/-- The same references stand for actors, and the others that are new still are. -/
structure Keeps (n n' : Net (Letter M)) : Prop where
  issued : n'.issued = n.issued
  box : ∀ t, n'.box t = none ↔ n.box t = none
  info : ∀ t, n.info t = none → n'.info t = none

theorem Keeps.of_info (next : n'.next = n.next) (info : n'.info = n.info) : Keeps n n' where
  issued := by
    funext r
    simp only [Net.issued, next]
  box := by
    intro t
    rw [Net.box_congr (congrFun info t)]
  info := fun t missing => by rw [info, missing]

theorem Keeps.tell {ref : ActorRef} {letter : Letter M} : Keeps n (n.tell src ref letter) where
  issued := by
    funext r
    simp only [Net.issued, Net.tell_next]
  box := fun _ => Net.box_tell_none
  info := fun _ => Net.tell_info_none

theorem Routed.keep {x : RemoteMessage (Letter M)} (routed : Routed n src dst x)
    (keeps : Keeps n n') : Routed n' src dst x :=
  ⟨routed.target, routed.sender, routed.away, keeps.issued ▸ routed.issued⟩

/-- A step of the network alone: it brings nothing new, and every pipe goes on feeding. -/
theorem Orderly.network (orderly : Orderly w) (keeps : Keeps w.net n')
    (waits : ∀ src dst x, n'.Waits src dst x → w.net.Waits src dst x)
    (pipes : ∀ s t got sent, w.net.box t ≠ none → Feeds (w.net.pipe s t) got sent →
      Feeds (n'.pipe s t) got sent) : Orderly { w with net := n' } where
  pipes := by
    intro s t actor
    have actor := mt (keeps.box t).mpr actor
    exact pipes s t _ _ actor (orderly.pipes s t actor)
  waits := fun src dst x wait => (orderly.waits src dst x (waits src dst x wait)).keep keeps
  told := fun x member => keeps.issued ▸ orderly.told x member
  handed := fun x member => mt (keeps.box x.ref).mp (orderly.handed x member)
  fresh := fun r notIssued => keeps.info r (orderly.fresh r (keeps.issued ▸ notIssued))

theorem Orderly.tell (orderly : Orderly w) {m : M} (sender : w.net.box s ≠ none)
    (issued : w.net.issued t = true) : Orderly { w with
      net := w.net.tell s.address t ⟨s, m⟩
      told := w.told ++ [⟨t, ⟨s, m⟩⟩] } := by
  have here := Net.system_of_box sender
  have keeps : Keeps w.net (w.net.tell s.address t ⟨s, m⟩) := .tell
  constructor
  · intro s' t' actor
    have was := mt (keeps.box t').mpr actor
    have feeds := orderly.pipes s' t' was
    by_cases own : s' = s ∧ t' = t
    · obtain ⟨rfl, rfl⟩ := own
      obtain ⟨mailbox, found⟩ := Option.ne_none_iff_exists'.mp was
      have told : World.toldTo { w with
          net := w.net.tell s'.address t' ⟨s', m⟩
          told := w.told ++ [⟨t', ⟨s', m⟩⟩] } s' t' = w.toldTo s' t' ++ [m] := by
        simp [World.toldTo, Net.between_eq]
      rw [told]
      exact Net.pipe_tell_own here found feeds
    · have told : World.toldTo { w with
          net := w.net.tell s.address t ⟨s, m⟩
          told := w.told ++ [⟨t, ⟨s, m⟩⟩] } s' t' = w.toldTo s' t' := by
        simp [World.toldTo, Net.between_eq, own]
      rw [told]
      exact (Net.pipe_tell_other here own).symm ▸ feeds
  · intro a b x wait
    rcases Net.waits_tell here wait with old | ⟨rfl, rfl, away, rfl⟩
    · exact (orderly.waits a b x old).keep keeps
    · exact ⟨rfl, rfl, Ne.symm away, keeps.issued ▸ issued⟩
  · intro x member
    rw [keeps.issued]
    rcases List.mem_append.mp member with old | new
    · exact orderly.told x old
    · cases List.mem_singleton.mp new
      exact issued
  · exact fun x member => mt (keeps.box x.ref).mp (orderly.handed x member)
  · exact fun r notIssued => keeps.info r (orderly.fresh r (keeps.issued ▸ notIssued))

/-- The first message of a mailbox leaves it: the pipe of its sender hands it over. -/
theorem Net.pipe_take {mailbox rest : Mailbox (Letter M)} {letter : Letter M} {got sent : List M}
    (found : n.box t = some mailbox) (taken : mailbox.pop = some (some letter, rest))
    (after : n'.box t = some rest) (conns : n'.conns = n.conns)
    (outgoing : n'.outgoing = n.outgoing) (closed : n'.isClosed = n.isClosed)
    (feeds : Feeds (n.pipe s t) got sent) :
    Feeds (n'.pipe s t) (got ++ (letter.sentBy s).toList) sent := by
  have wire : n'.wireStage s t = n.wireStage s t := wireStage_congr conns
  have out : n'.outStage s t = n.outStage s t := outStage_congr (by rw [outgoing]) closed
  have old : n.inStage s t = mailbox.stage (Letter.sentBy s) := by
    unfold inStage
    rw [found]
  have new : n'.inStage s t = rest.stage (Letter.sentBy s) := by
    unfold inStage
    rw [after]
  rw [Mailbox.stage_pop _ taken] at old
  cases mine : letter.sentBy s with
  | none =>
    simp only [mine] at old
    rw [pipe_congr (new.trans old.symm) (fun _ => wire) fun _ => out]
    simpa using feeds
  | some m =>
    simp only [mine] at old
    unfold pipe at feeds ⊢
    rw [old] at feeds
    rw [new, wire, out]
    split at feeds
    · rw [if_pos ‹_›]
      exact feeds.take
    · rw [if_neg ‹_›]
      exact feeds.take

theorem Orderly.pop (orderly : Orderly w) {letter : Letter M}
    (popped : w.net.pop t = some (letter, n')) :
    Orderly { w with net := n', handed := w.handed ++ [⟨t, letter⟩] } := by
  obtain ⟨mailbox, rest, found, taken, info, _, outgoing, conns, closed, next⟩ :=
    Net.pop_spec popped
  have after : n'.box t = some rest := by rw [Net.box_mailbox, info, if_pos rfl]
  have others : ∀ {r}, r ≠ t → n'.box r = w.net.box r := fun other =>
    Net.box_congr (by rw [info, if_neg other])
  have keeps : Keeps w.net n' := by
    constructor
    · funext r
      simp only [Net.issued, next]
    · intro r
      by_cases same : r = t
      · subst same
        simp [found, after]
      · rw [others same]
    · intro r missing
      rw [info]
      split
      · rename_i same
        rw [same, Net.box_mailbox.mp found] at missing
        cases missing
      · exact missing
  constructor
  · intro s' t' actor
    have feeds := orderly.pipes s' t' (mt (keeps.box t').mpr actor)
    by_cases same : t' = t
    · subst same
      have handed : World.handedTo { w with
          net := n', handed := w.handed ++ [⟨t', letter⟩] } s' t' =
          w.handedTo s' t' ++ (letter.sentBy s').toList := by
        simp only [World.handedTo, between, List.filterMap_append, List.filterMap_cons, if_true]
        cases letter.sentBy s' <;> rfl
      rw [handed]
      exact Net.pipe_take found taken after conns outgoing closed feeds
    · have handed : World.handedTo { w with
          net := n', handed := w.handed ++ [⟨t, letter⟩] } s' t' = w.handedTo s' t' := by
        simp [World.handedTo, between, Ne.symm same]
      rw [handed, Net.pipe_congr (Net.inStage_congr (others same))
        (fun _ => Net.wireStage_congr conns)
        fun _ => Net.outStage_congr (by rw [outgoing]) closed]
      exact feeds
  · intro a b x wait
    rw [Net.Waits, outgoing, conns] at wait
    exact (orderly.waits a b x wait).keep keeps
  · exact fun x member => keeps.issued ▸ orderly.told x member
  · intro x member
    rcases List.mem_append.mp member with old | new
    · exact mt (keeps.box x.ref).mp (orderly.handed x old)
    · cases List.mem_singleton.mp new
      simp [after]
  · exact fun r notIssued => keeps.info r (orderly.fresh r (keeps.issued ▸ notIssued))

theorem Orderly.remoteSend (orderly : Orderly w)
    (sent : w.net.remoteSend src dst = some n') : Orderly { w with net := n' } := by
  obtain ⟨mailbox, rest, conn, x, found, connected, taken, outgoing, conns, info, _, closed, next⟩ :=
    Net.remoteSend_spec sent
  have queue := (Mailbox.pop_message taken).1
  have routed := orderly.waits src dst x (.inl ⟨mailbox, found, by simp [queue]⟩)
  refine orderly.network (.of_info next info) ?_ ?_
  · rintro a b y (⟨other, there, member⟩ | ⟨other, there, member⟩)
    · rw [outgoing] at there
      split at there
      · rename_i same
        obtain ⟨rfl, rfl⟩ := same
        cases there
        exact .inl ⟨mailbox, found, by simp [queue, member]⟩
      · exact .inl ⟨other, there, member⟩
    · rw [conns, Map.lookup_insert] at there
      split at there
      · rename_i same
        cases there
        cases same
        unfold Conn.write at member
        split at member
        · exact .inr ⟨conn, connected, member⟩
        · rcases List.mem_append.mp member with old | new
          · exact .inr ⟨conn, connected, old⟩
          · cases List.mem_singleton.mp new
            exact .inl ⟨mailbox, found, by simp [queue]⟩
      · exact .inr ⟨other, there, member⟩
  · intro s t got sent actor feeds
    have inbox : n'.inStage s t = w.net.inStage s t :=
      Net.inStage_congr (Net.box_congr (by rw [info]))
    by_cases route : s.address = src ∧ t.address = dst
    · obtain ⟨rfl, rfl⟩ := route
      have oldOut : w.net.outStage s t = mailbox.stage (between s t) := by
        unfold Net.outStage
        rw [found]
      have newOut : n'.outStage s t = rest.stage (between s t) := by
        unfold Net.outStage
        rw [outgoing, if_pos ⟨rfl, rfl⟩]
      have oldWire : w.net.wireStage s t = conn.stage (between s t) := by
        unfold Net.wireStage
        rw [connected]
      have newWire : n'.wireStage s t = (conn.write x).stage (between s t) := by
        unfold Net.wireStage
        rw [conns, Map.lookup_insert, if_pos rfl]
      rw [Mailbox.stage_pop _ taken] at oldOut
      rw [Conn.stage_write, ← oldWire] at newWire
      cases mine : between s t x with
      | none =>
        simp only [mine] at oldOut newWire
        rw [Net.pipe_congr inbox (fun _ => newWire) fun _ => newOut.trans oldOut.symm]
        exact feeds
      | some m =>
        simp only [mine] at oldOut newWire
        unfold Net.pipe at feeds ⊢
        rw [if_neg routed.away] at feeds ⊢
        rw [oldOut] at feeds
        rw [inbox, newWire, newOut]
        exact feeds.upstream fun _ feeds => feeds.pass
    · rw [Net.pipe_congr inbox]
      · exact feeds
      · intro _
        unfold Net.wireStage
        rw [conns, Map.lookup_insert, if_neg fun same => route (Prod.mk.inj same)]
      · intro _
        exact Net.outStage_congr (by rw [outgoing, if_neg route]) closed

/-- The view of a connection that is replaced. -/
theorem Net.wireStage_insert {conn : Conn (Letter M)} {systems : Map String (ActorSystem (Letter M))} :
    (Net.mk systems (n.conns.insert (src, dst) conn)).wireStage s t =
      if (s.address, t.address) = (src, dst) then conn.stage (between s t)
      else n.wireStage s t := by
  unfold wireStage
  rw [Map.lookup_insert]
  by_cases route : (s.address, t.address) = (src, dst)
  · rw [if_pos route, if_pos route]
  · rw [if_neg route, if_neg route]

theorem Net.wireStage_of {conn : Conn (Letter M)}
    (connected : n.conns.lookup (s.address, t.address) = some conn) :
    n.wireStage s t = conn.stage (between s t) := by
  unfold wireStage
  rw [connected]

theorem Orderly.serveRequest (orderly : Orderly w)
    (served : w.net.serveRequest src dst = some n') : Orderly { w with net := n' } := by
  obtain ⟨conn, ⟨ref, letter⟩, rest, connected, first, rfl⟩ := Net.serveRequest_spec served
  have routed := orderly.waits src dst ⟨ref, letter⟩ (.inr ⟨conn, connected, by simp [first]⟩)
  obtain ⟨rfl, rfl, away, issued⟩ := routed
  dsimp only at away issued connected ⊢
  -- the request is off the stream, and then it is told in the system it has come to
  let n₁ : Net (Letter M) := { w.net with
    conns := w.net.conns.insert (letter.sender.address, ref.address) { conn with stream := rest } }
  have taken : Keeps w.net n₁ := ⟨rfl, fun _ => Iff.rfl, fun _ missing => missing⟩
  have told : Keeps n₁ (n₁.tell ref.address ref letter) := .tell
  show Orderly { w with net := n₁.tell ref.address ref letter }
  refine orderly.network ?_ ?_ ?_
  · exact ⟨told.issued.trans taken.issued, fun t => (told.box t).trans (taken.box t),
      fun t missing => told.info t missing⟩
  · rintro a b y (⟨mailbox, there, member⟩ | ⟨other, there, member⟩)
    · rw [Net.tell_outgoing_same rfl] at there
      exact .inl ⟨mailbox, there, member⟩
    · rw [Net.tell_conns, Map.lookup_insert] at there
      split at there
      · rename_i same
        cases there
        cases same
        exact .inr ⟨conn, connected, by simp [first, member]⟩
      · exact .inr ⟨other, there, member⟩
  · intro s t got sent actor feeds
    obtain ⟨mailbox, found⟩ := Option.ne_none_iff_exists'.mp actor
    have out : (n₁.tell ref.address ref letter).outStage s t = w.net.outStage s t :=
      Net.outStage_congr (by rw [Net.tell_outgoing_same rfl]; rfl) Net.tell_isClosed
    have wire : (n₁.tell ref.address ref letter).wireStage s t = n₁.wireStage s t :=
      Net.wireStage_congr Net.tell_conns
    rw [Net.wireStage_insert] at wire
    by_cases own : s = letter.sender ∧ t = ref
    · obtain ⟨rfl, rfl⟩ := own
      have inbox : (n₁.tell t.address t letter).inStage letter.sender t = _ :=
        Net.inStage_tell found
      have same : n₁.inStage letter.sender t = w.net.inStage letter.sender t := rfl
      have old := Net.wireStage_of connected
      simp only [Conn.stage, first, List.filterMap_cons, between, Letter.sentBy, if_true] at old
      simp only [Letter.sentBy, if_true, same] at inbox
      simp only [if_true, Conn.stage, between, Letter.sentBy] at wire
      unfold Net.pipe at feeds ⊢
      rw [if_neg away] at feeds ⊢
      rw [old] at feeds
      rw [inbox, wire, out]
      exact feeds.pass
    · have skipped : between s t ⟨ref, letter⟩ = none := by rw [Net.between_eq, if_neg own]
      rw [Net.pipe_congr ?_ ?_ fun _ => out]
      · exact feeds
      · -- a letter of another actor, or to another actor
        by_cases same : t = ref
        · subst same
          have sender : letter.sender ≠ s := fun eq => own ⟨eq.symm, rfl⟩
          have inbox : (n₁.tell t.address t letter).inStage s t = _ := Net.inStage_tell found
          simp only [Letter.sentBy, sender, if_false] at inbox
          exact inbox
        · exact Net.inStage_congr (by rw [Net.box_tell, if_neg fun both => same both.1]; rfl)
      · intro _
        rw [wire]
        split
        · rename_i route
          obtain ⟨here, there⟩ := Prod.mk.inj route
          rw [Net.wireStage_of (here ▸ there ▸ connected)]
          simp only [Conn.stage, first, List.filterMap_cons, skipped]
        · rfl

theorem Orderly.dial (orderly : Orderly w) {success : Bool}
    (dialed : w.net.dial src dst success = some n') : Orderly { w with net := n' } := by
  obtain ⟨missing, rfl | ⟨mailbox, found, outgoing, conns, info, closed, next⟩⟩ :=
    Net.dial_spec dialed
  · refine orderly.network ⟨rfl, fun _ => Iff.rfl, fun _ missing => missing⟩ ?_ ?_
    · rintro a b x (wait | ⟨conn, there, member⟩)
      · exact .inl wait
      · rw [Map.lookup_insert] at there
        split at there
        · cases there
          cases member
        · exact .inr ⟨conn, there, member⟩
    · intro s t got sent actor feeds
      have same : (Net.mk w.net.systems (w.net.conns.insert (src, dst) ⟨[], false, false⟩)).pipe
          s t = w.net.pipe s t := by
        refine Net.pipe_congr rfl (fun _ => ?_) fun _ => rfl
        rw [Net.wireStage_insert]
        split
        · rename_i route
          unfold Net.wireStage
          rw [route, missing]
          rfl
        · rfl
      rw [same]
      exact feeds
  · refine orderly.network (.of_info next info) ?_ ?_
    · rintro a b x (⟨other, there, member⟩ | wait)
      · rw [outgoing] at there
        split at there
        · rename_i same
          obtain ⟨rfl, rfl⟩ := same
          cases there
          exact .inl ⟨mailbox, found, member⟩
        · exact .inl ⟨other, there, member⟩
      · exact .inr (conns ▸ wait)
    · intro s t got sent actor feeds
      have inbox : n'.inStage s t = w.net.inStage s t :=
        Net.inStage_congr (Net.box_congr (by rw [info]))
      have wire : n'.wireStage s t = w.net.wireStage s t := Net.wireStage_congr conns
      by_cases route : s.address = src ∧ t.address = dst
      · obtain ⟨rfl, rfl⟩ := route
        have out : n'.outStage s t = { w.net.outStage s t with shut := true } := by
          unfold Net.outStage
          rw [outgoing, if_pos ⟨rfl, rfl⟩, found]
          rfl
        exact Net.pipe_shuts feeds (inbox ▸ .same) (wire ▸ .same) (out ▸ .shut)
      · rw [Net.pipe_congr inbox (fun _ => wire)
          fun _ => Net.outStage_congr (by rw [outgoing, if_neg route]) closed]
        exact feeds

theorem Orderly.fail (orderly : Orderly w) {writer : Bool}
    (failed : w.net.fail src dst writer = some n') : Orderly { w with net := n' } := by
  unfold Net.fail at failed
  split at failed
  · cases failed
  · rename_i conn connected
    cases failed
    refine orderly.network ⟨rfl, fun _ => Iff.rfl, fun _ missing => missing⟩ ?_ ?_
    · rintro a b x (wait | ⟨other, there, member⟩)
      · exact .inl wait
      · rw [Map.lookup_insert] at there
        split at there
        · rename_i same
          cases same
          cases there
          refine .inr ⟨conn, connected, ?_⟩
          cases writer <;> exact member
        · exact .inr ⟨other, there, member⟩
    · intro s t got sent actor feeds
      refine Net.pipe_shuts feeds .same ?_ .same
      rw [Net.wireStage_insert]
      split
      · rename_i route
        obtain ⟨rfl, rfl⟩ := Prod.mk.inj route
        rw [Net.wireStage_of connected]
        cases writer with
        | true => exact .shut
        | false => exact .same
      · exact .same

/-! ### Starting and closing -/

section

variable {address : String}

/-- The mailboxes of a system that closes. -/
theorem Net.box_close (info : ∀ r, n'.info r =
      if r.address = address then (n.info r).map ActorRefInfo.close else n.info r) (t : ActorRef) :
    n'.box t = if t.address = address then (n.box t).map Mailbox.close else n.box t := by
  unfold Net.box
  rw [info]
  by_cases here : t.address = address
  · rw [if_pos here, if_pos here]
    cases n.info t with
    | none => rfl
    | some entry => cases entry <;> rfl
  · rw [if_neg here, if_neg here]

theorem Net.inStage_close {mailbox : Mailbox (Letter M)} (found : n.box t = some mailbox)
    (box : n'.box t = if t.address = address then (n.box t).map Mailbox.close else n.box t) :
    (n.inStage s t).Shuts (n'.inStage s t) := by
  unfold Net.inStage
  rw [box, found]
  by_cases here : t.address = address
  · rw [if_pos here]
    exact .shut
  · rw [if_neg here]
    exact .same

theorem Net.outStage_close (outgoing : n'.outgoing s.address t.address =
      if s.address = address then (n.outgoing s.address t.address).map Mailbox.close
      else n.outgoing s.address t.address)
    (closed : n'.isClosed s.address = if s.address = address then true else n.isClosed s.address) :
    (n.outStage s t).Shuts (n'.outStage s t) := by
  unfold Net.outStage
  rw [outgoing, closed]
  by_cases here : s.address = address
  · rw [if_pos here, if_pos here]
    cases n.outgoing s.address t.address with
    | none => exact .shut
    | some mailbox => exact .shut
  · rw [if_neg here, if_neg here]
    exact .same

theorem Orderly.close (orderly : Orderly w) (closes : w.net.close address = some n') :
    Orderly { w with net := n' } := by
  rcases Net.close_spec closes with alike | ⟨info, outgoing, closed, conns, next⟩
  · refine orderly.network (.of_info alike.next alike.info) ?_ ?_
    · intro a b x wait
      rw [Net.Waits, alike.outgoing, alike.conns] at wait
      exact wait
    · intro s t got sent actor feeds
      rw [Net.pipe_congr (Net.inStage_congr (Net.box_congr (by rw [alike.info])))
        (fun _ => Net.wireStage_congr alike.conns)
        fun _ => Net.outStage_congr (by rw [alike.outgoing]) alike.isClosed]
      exact feeds
  · refine orderly.network ⟨?_, ?_, ?_⟩ ?_ ?_
    · funext r
      simp only [Net.issued, next]
    · intro t
      rw [Net.box_close info]
      split
      · exact Option.map_eq_none_iff
      · rfl
    · intro t missing
      rw [info]
      split
      · rw [missing]
        rfl
      · exact missing
    · rintro a b x (⟨mailbox, found, member⟩ | wait)
      · rw [outgoing] at found
        split at found
        · obtain ⟨old, before, rfl⟩ := Option.map_eq_some_iff.mp found
          exact .inl ⟨old, before, member⟩
        · exact .inl ⟨mailbox, found, member⟩
      · exact .inr (conns ▸ wait)
    · intro s t got sent actor feeds
      obtain ⟨mailbox, found⟩ := Option.ne_none_iff_exists'.mp actor
      exact Net.pipe_shuts feeds (Net.inStage_close found (Net.box_close info t))
        (Net.wireStage_congr conns ▸ .same) (Net.outStage_close (outgoing _ _) (closed _))

end

/-- A change that no pipe between actors notices. -/
theorem Orderly.frame (orderly : Orderly w)
    (box : ∀ t, n'.box t = w.net.box t) (outgoing : n'.outgoing = w.net.outgoing)
    (conns : n'.conns = w.net.conns) (closed : n'.isClosed = w.net.isClosed)
    (grows : ∀ r, w.net.issued r = true → n'.issued r = true)
    (fresh : ∀ r, n'.issued r = false → n'.info r = none) : Orderly { w with net := n' } where
  pipes := by
    intro s t actor
    show Feeds (n'.pipe s t) (w.handedTo s t) (w.toldTo s t)
    rw [Net.pipe_congr (Net.inStage_congr (box t)) (fun _ => Net.wireStage_congr conns)
      fun _ => Net.outStage_congr (by rw [outgoing]) closed]
    exact orderly.pipes s t (box t ▸ actor)
  waits := by
    intro src dst x wait
    rw [Net.Waits, outgoing, conns] at wait
    have routed := orderly.waits src dst x wait
    exact ⟨routed.target, routed.sender, routed.away, grows _ routed.issued⟩
  told := fun x member => grows _ (orderly.told x member)
  handed := fun x member => box x.ref ▸ orderly.handed x member
  fresh := fresh

section

variable {address : String} {entry : ActorRefInfo (Letter M)} {ref : ActorRef}

theorem issued_new (new : Net.Issued n address entry ref n') : n.issued ref = false := by
  simp [Net.issued, new.address, new.next]

theorem issued_grows (new : Net.Issued n address entry ref n') {r : ActorRef}
    (issued : n.issued r = true) : n'.issued r = true := by
  simp only [Net.issued, new.after] at issued ⊢
  by_cases here : r.address = address
  · simp only [here, new.next, if_true, decide_eq_true_eq] at issued ⊢
    omega
  · rw [if_neg here]
    exact issued

theorem Orderly.fresh_new (orderly : Orderly w) (new : Net.Issued w.net address entry ref n')
    (r : ActorRef) (notIssued : n'.issued r = false) : n'.info r = none := by
  rw [new.info]
  split
  · rename_i same
    have issued : n'.issued r = true := by
      simp only [Net.issued, same, new.address, new.after, if_true, decide_eq_true_eq]
      omega
    cases notIssued.symm.trans issued
  · apply orderly.fresh
    rw [← Bool.not_eq_true]
    intro issued
    cases notIssued.symm.trans (issued_grows new issued)

theorem Orderly.channel (orderly : Orderly w) (new : Net.Issued w.net address .respCh ref n') :
    Orderly { w with net := n' } := by
  refine orderly.frame ?_ new.outgoing new.conns new.isClosed (fun _ => issued_grows new)
    (orderly.fresh_new new)
  intro t
  by_cases same : t = ref
  · unfold Net.box
    rw [new.info, if_pos same, same, orderly.fresh ref (issued_new new)]
  · exact Net.box_congr (by rw [new.info, if_neg same])

/-- Nobody has told a new actor anything. -/
theorem Orderly.actor (orderly : Orderly w) (new : Net.Issued w.net address (.mailbox .new) ref n') :
    Orderly { w with net := n' } := by
  have notIssued := issued_new new
  have missing := orderly.fresh ref notIssued
  have others : ∀ {t}, t ≠ ref → n'.box t = w.net.box t := fun other =>
    Net.box_congr (by rw [new.info, if_neg other])
  have here : n'.box ref = some .new := by rw [Net.box_mailbox, new.info, if_pos rfl]
  have silent : ∀ {xs : List (RemoteMessage (Letter M))} (s : ActorRef),
      (∀ x ∈ xs, w.net.issued x.ref = true) → xs.filterMap (between s ref) = [] := by
    intro xs s issued
    rw [List.filterMap_eq_nil_iff]
    intro x member
    have other : x.ref ≠ ref := by
      rintro rfl
      cases notIssued.symm.trans (issued x member)
    simp [between, other]
  constructor
  · intro s t actor
    show Feeds (n'.pipe s t) (w.handedTo s t) (w.toldTo s t)
    by_cases same : t = ref
    · subst same
      have told : w.toldTo s t = [] := silent s orderly.told
      have handed : w.handedTo s t = [] := by
        apply List.filterMap_eq_nil_iff.mpr
        intro x member
        have other : x.ref ≠ t := by
          rintro rfl
          apply orderly.handed x member
          unfold Net.box
          rw [missing]
        simp [between, other]
      have inbox : (n'.inStage s t).queue = [] := by
        unfold Net.inStage
        rw [here]
        rfl
      have wire : (n'.wireStage s t).queue = [] := by
        unfold Net.wireStage
        rw [new.conns]
        split
        · rename_i conn found
          exact silent s fun x member => (orderly.waits _ _ x (.inr ⟨conn, found, member⟩)).issued
        · rfl
      have out : (n'.outStage s t).queue = [] := by
        unfold Net.outStage
        rw [new.outgoing]
        split
        · rename_i mailbox found
          exact silent s fun x member =>
            (orderly.waits _ _ x (.inl ⟨mailbox, found, member⟩)).issued
        · rfl
      rw [told, handed]
      apply Feeds.new
      unfold Net.pipe
      split <;> simp [inbox, wire, out]
    · rw [Net.pipe_congr (Net.inStage_congr (others same))
        (fun _ => Net.wireStage_congr new.conns)
        fun _ => Net.outStage_congr (by rw [new.outgoing]) new.isClosed]
      exact orderly.pipes s t (others same ▸ actor)
  · intro src dst x wait
    rw [Net.Waits, new.outgoing, new.conns] at wait
    have routed := orderly.waits src dst x wait
    exact ⟨routed.target, routed.sender, routed.away, issued_grows new routed.issued⟩
  · exact fun x member => issued_grows new (orderly.told x member)
  · intro x member
    by_cases same : x.ref = ref
    · simp [same, here]
    · exact others same ▸ orderly.handed x member
  · exact orderly.fresh_new new

end

theorem Orderly.alike (orderly : Orderly w) (alike : Net.Alike w.net n') :
    Orderly { w with net := n' } := by
  have issued : n'.issued = w.net.issued := by
    funext r
    simp only [Net.issued, alike.next]
  refine orderly.frame (fun t => Net.box_congr (by rw [alike.info])) alike.outgoing alike.conns
    alike.isClosed (fun r here => issued ▸ here) fun r notIssued => ?_
  rw [alike.info]
  exact orderly.fresh r (issued ▸ notIssued)

theorem Orderly.newActorSystem (orderly : Orderly w) {address : String}
    (created : w.net.newActorSystem address = some n') : Orderly { w with net := n' } := by
  obtain ⟨missing, next, info, _, outgoing, conns, closed⟩ := Net.newActorSystem_spec created
  have grows : ∀ r, w.net.issued r = true → n'.issued r = true := by
    intro r issued
    simp only [Net.issued, next] at issued ⊢
    by_cases here : r.address = address
    · simp [here, missing] at issued
    · rw [if_neg here]
      exact issued
  refine orderly.frame (fun t => Net.box_congr (by rw [info])) outgoing conns closed grows ?_
  intro r notIssued
  rw [info]
  apply orderly.fresh
  rw [← Bool.not_eq_true]
  intro issued
  cases notIssued.symm.trans (grows r issued)

theorem Orderly.next (orderly : Orderly w) {a : Action M} (taken : step w a = some w') :
    Orderly w' := by
  cases a with
  | newActorSystem address =>
    obtain ⟨n', created, rfl⟩ := Option.map_eq_some_iff.mp taken
    exact orderly.newActorSystem created
  | startActor address =>
    obtain ⟨⟨ref, n'⟩, started, rfl⟩ := Option.map_eq_some_iff.mp taken
    rcases Net.startActor_spec started with ⟨alike, _⟩ | new
    · exact orderly.alike alike
    · exact orderly.actor new
  | newChannelRef address =>
    obtain ⟨⟨ref, n'⟩, started, rfl⟩ := Option.map_eq_some_iff.mp taken
    rcases Net.newChannelRef_spec started with ⟨alike, _⟩ | new
    · exact orderly.alike alike
    · exact orderly.channel new
  | tell sender target message =>
    simp only [step] at taken
    split at taken
    · rename_i guard
      cases taken
      exact orderly.tell guard.1 guard.2
    · cases taken
  | pop target =>
    obtain ⟨⟨letter, n'⟩, popped, rfl⟩ := Option.map_eq_some_iff.mp taken
    exact orderly.pop popped
  | dial src dst success =>
    obtain ⟨n', dialed, rfl⟩ := Option.map_eq_some_iff.mp taken
    exact orderly.dial dialed
  | remoteSend src dst =>
    obtain ⟨n', sent, rfl⟩ := Option.map_eq_some_iff.mp taken
    exact orderly.remoteSend sent
  | serveRequest src dst =>
    obtain ⟨n', served, rfl⟩ := Option.map_eq_some_iff.mp taken
    exact orderly.serveRequest served
  | fail src dst writer =>
    obtain ⟨n', failed, rfl⟩ := Option.map_eq_some_iff.mp taken
    exact orderly.fail failed
  | close address =>
    obtain ⟨n', closes, rfl⟩ := Option.map_eq_some_iff.mp taken
    exact orderly.close closes

theorem newWorld_orderly : Orderly (newWorld : World M) where
  pipes := fun s t actor => absurd rfl actor
  waits := by
    rintro src dst x (⟨mailbox, found, _⟩ | ⟨conn, found, _⟩)
    · cases found
    · cases found
  told := by simp [newWorld]
  handed := by simp [newWorld]
  fresh := fun _ _ => rfl

theorem messages_handed_in_order (acts : List (Action M)) (w : World M)
    (reached : run step newWorld acts = some w) (sender target : ActorRef) :
    w.handedTo sender target <+: w.toldTo sender target := by
  have orderly : Orderly w :=
    run_keeps Orderly (fun _ _ _ orderly taken => orderly.next taken) newWorld_orderly acts reached
  by_cases actor : w.net.box target = none
  · -- nothing is handed to a reference without an actor
    have none : w.handedTo sender target = [] := by
      apply List.filterMap_eq_nil_iff.mpr
      intro x member
      have other : x.ref ≠ target := by
        rintro rfl
        exact orderly.handed x member actor
      simp [between, other]
    rw [none]
    exact List.nil_prefix
  · exact (orderly.pipes sender target actor).beginning

/-- Two systems: three messages to an actor of the other one, the connection breaks after the
second, and the first is handed over. -/
def brokenLink : List (Action Nat) :=
  [.newActorSystem "a", .newActorSystem "b", .startActor "a", .startActor "b",
    .tell ⟨"a", 0⟩ ⟨"b", 0⟩ 1, .tell ⟨"a", 0⟩ ⟨"b", 0⟩ 2, .dial "a" "b" true,
    .remoteSend "a" "b", .remoteSend "a" "b", .fail "a" "b" true, .tell ⟨"a", 0⟩ ⟨"b", 0⟩ 3,
    .remoteSend "a" "b", .serveRequest "a" "b", .pop ⟨"b", 0⟩]

theorem broken_link_in_order : ∃ w, run step newWorld brokenLink = some w ∧
    w.handedTo ⟨"a", 0⟩ ⟨"b", 0⟩ = [1] ∧ w.toldTo ⟨"a", 0⟩ ⟨"b", 0⟩ = [1, 2, 3] ∧
    w.handedTo ⟨"a", 0⟩ ⟨"b", 0⟩ <+: w.toldTo ⟨"a", 0⟩ ⟨"b", 0⟩ :=
  ⟨_, rfl, by decide, by decide, messages_handed_in_order brokenLink _ rfl ⟨"a", 0⟩ ⟨"b", 0⟩⟩

end DistSys.Actor
