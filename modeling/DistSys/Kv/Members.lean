import DistSys.Kv.Changes

/-! The introductions: which actors know each other. MIntro comes into the mailbox of an actor
before every MRIntro, and until it is handled the actor has synchronised nothing. -/
namespace DistSys.Kv

open DistSys.Lib DistSys.Actor

variable {w w' : World} {r x : ActorRef} {m : Msg} {now : Nat} {a : QueryActor}
  {action : Action} {s t : Server}

def Msg.isMIntro : Msg → Bool
  | .mIntro _ _ => true
  | _ => false

namespace Server

/-- What the actors of a server are told first. -/
def intro (s : Server) : Msg := .mIntro s.actorList s.remoteServers

/-- All of a server but what it has to tell. -/
def fixed (s : Server) : Server := { s with tells := [] }

/-- The same call of `NewServer`, with no more to tell. -/
structure Later (s t : Server) : Prop where
  address : t.address = s.address
  actorRep : t.actorRep = s.actorRep
  actorList : t.actorList = s.actorList
  remoteServers : t.remoteServers = s.remoteServers
  tells : t.tells <:+ s.tells

theorem Later.refl : s.Later s := ⟨rfl, rfl, rfl, rfl, List.suffix_rfl⟩

theorem Later.trans {u : Server} (first : s.Later t) (second : t.Later u) : s.Later u :=
  ⟨second.address.trans first.address, second.actorRep.trans first.actorRep,
    second.actorList.trans first.actorList, second.remoteServers.trans first.remoteServers,
    second.tells.trans first.tells⟩

theorem Later.intro (later : s.Later t) : t.intro = s.intro := by
  rw [Server.intro, later.actorList, later.remoteServers, Server.intro]

theorem Later.returned (later : s.Later t) (done : s.tells = []) : t.tells = [] := by
  have tells := later.tells
  rw [done] at tells
  exact List.suffix_nil.mp tells

end Server

theorem mem_introductions {rep : ActorRef} {actorList remoteServers : List ActorRef} :
    (x, m) ∈ introductions rep actorList remoteServers ↔
      x ∈ actorList ∧ m = .mIntro actorList remoteServers ∨
      x ∈ remoteServers ∧ m = .mRIntro rep := by
  simp only [introductions, List.mem_append, List.mem_map, Prod.mk.injEq]
  constructor
  · rintro (⟨_, listed, rfl, rfl⟩ | ⟨_, listed, rfl, rfl⟩)
    · exact .inl ⟨listed, rfl⟩
    · exact .inr ⟨listed, rfl⟩
  · rintro (⟨listed, rfl⟩ | ⟨listed, rfl⟩)
    · exact .inl ⟨x, listed, rfl, rfl⟩
    · exact .inr ⟨x, listed, rfl, rfl⟩

/-- No actor is told MIntro twice. -/
theorem introductions_once {rep : ActorRef} {actorList remoteServers : List ActorRef}
    {rest : List (ActorRef × Msg)} (nodup : actorList.Nodup)
    (tells : (x, m) :: rest <:+ introductions rep actorList remoteServers)
    (intro : m.isMIntro = true) : (x, m) ∉ rest := by
  have apart : (introductions rep actorList remoteServers).Pairwise fun p q =>
      p.2.isMIntro = true → p ≠ q := by
    apply List.pairwise_append.mpr
    refine ⟨?_, ?_, ?_⟩
    · refine List.pairwise_map.mpr (nodup.imp ?_)
      intro y z other _ same
      exact other (Prod.mk.inj same).1
    · refine List.pairwise_map.mpr (List.pairwise_of_forall ?_)
      intro y z none
      cases none
    · intro p first q second _ same
      subst same
      obtain ⟨_, _, rfl⟩ := List.mem_map.mp first
      obtain ⟨_, _, same⟩ := List.mem_map.mp second
      cases same
  have apart := apart.sublist tells.sublist
  exact fun again => (List.pairwise_cons.mp apart).1 _ again intro rfl

namespace World

/-- An actor that knows no other one and has synchronised nothing. -/
structure Alone (w : World) (r : ActorRef) : Prop where
  lists : ∀ {a}, w.actor r = some a → a.actorList = [] ∧ a.remoteActorList = []
  covered : ∀ {a}, w.actor r = some a → ∀ {k content}, a.storage.lookup k = some content →
    a.putList.lookup k = some content
  asleep : ¬w.Coming r .mSync

/-- Where the introduction of an actor is. -/
inductive Phase (w : World) (s : Server) (r : ActorRef) : Prop where
  | untold (waits : (r, s.intro) ∈ s.tells) (none : ∀ m ∈ w.net.queue r, m.isIntro = false)
      (alone : w.Alone r)
  | queued {before after : List Msg} (told : (r, s.intro) ∉ s.tells)
      (queue : w.net.queue r = before ++ s.intro :: after)
      (none : ∀ m ∈ before, m.isIntro = false) (once : ∀ m ∈ after, m.isMIntro = false)
      (alone : w.Alone r)
  | introduced {a : QueryActor} (told : (r, s.intro) ∉ s.tells)
      (none : ∀ m ∈ w.net.queue r, m.isMIntro = false) (here : w.actor r = some a)
      (actorList : a.actorList = s.actorList)
      (remotes : ∀ x ∈ s.remoteServers, x ∈ a.remoteActorList)

structure Members (w : World) : Prop where
  addresses : (w.servers.map Server.address).Nodup
  rep : ∀ {s}, s ∈ w.servers → s.actorRep ∈ s.actorList
  own : ∀ {s}, s ∈ w.servers → ∀ {r}, r ∈ s.actorList → r.address = s.address ∧ r ∈ w.running
  nodup : ∀ {s}, s ∈ w.servers → s.actorList.Nodup
  tells : ∀ {s}, s ∈ w.servers → s.tells <:+ introductions s.actorRep s.actorList s.remoteServers
  all : ∀ {r}, r ∈ w.running → ∃ s ∈ w.servers, r ∈ s.actorList
  returned : ∀ {r}, ((∃ s ∈ w.servers, r ∈ s.remoteServers) ∨ ∃ z, w.Coming r (.mRIntro z)) →
    ∃ t ∈ w.servers, t.actorRep = r ∧ t.tells = []
  waiting : ∀ {r m}, w.net.Waiting r m → m.isMIntro = false
  phase : ∀ {s}, s ∈ w.servers → ∀ {r}, r ∈ s.actorList → w.Phase s r
  joined : ∀ {s}, s ∈ w.servers → ∀ {x}, x ∈ s.remoteServers →
    (∃ a, w.actor x = some a ∧ s.actorRep ∈ a.remoteActorList) ∨ w.Coming x (.mRIntro s.actorRep)

namespace Members

theorem unique (members : w.Members) (one : s ∈ w.servers) (two : t ∈ w.servers)
    (first : r ∈ s.actorList) (second : r ∈ t.actorList) : s = t := by
  apply List.inj_on_of_nodup_map members.addresses one two
  rw [← (members.own one first).1, (members.own two second).1]

/-- A message on its way to an actor that has still to be told MIntro. -/
theorem none_before (members : w.Members) (here : s ∈ w.servers) (own : r ∈ s.actorList)
    (pending : s.tells ≠ []) {z : ActorRef} : ¬w.Coming r (.mRIntro z) := by
  intro coming
  obtain ⟨t, there, rfl, done⟩ := members.returned (.inr ⟨z, coming⟩)
  have same := members.unique here there own (members.rep there)
  rw [same] at pending
  exact pending done

end Members

theorem Alone.same (alone : w.Alone r) (actor : w'.actor r = w.actor r)
    (asleep : w'.Coming r .mSync → w.Coming r .mSync) : w'.Alone r :=
  ⟨fun here => alone.lists (actor ▸ here), fun here => alone.covered (actor ▸ here),
    fun coming => alone.asleep (asleep coming)⟩

/-- The end of a mailbox grows by what is no introduction to come first. -/
theorem Phase.grow {tail : List Msg} (phase : w.Phase s r) (later : s.Later t)
    (queue : w'.net.queue r = w.net.queue r ++ tail) (actor : w'.actor r = w.actor r)
    (asleep : w'.Coming r .mSync → w.Coming r .mSync)
    (still : (r, s.intro) ∈ s.tells → (r, s.intro) ∈ t.tells ∧ ∀ m ∈ tail, m.isIntro = false)
    (none : ∀ m ∈ tail, m.isMIntro = false) : w'.Phase t r := by
  have told : (r, s.intro) ∉ s.tells → (r, t.intro) ∉ t.tells := by
    intro told again
    rw [later.intro] at again
    exact told (later.tells.mem again)
  cases phase with
  | untold waits old alone =>
    refine .untold ?_ ?_ (alone.same actor asleep)
    · rw [later.intro]
      exact (still waits).1
    · intro m member
      rw [queue] at member
      rcases List.mem_append.mp member with before | late
      · exact old m before
      · exact (still waits).2 m late
  | @queued before after done split first once alone =>
    have grown : w'.net.queue r = before ++ t.intro :: (after ++ tail) := by
      rw [queue, split, later.intro, List.append_assoc, List.cons_append]
    refine .queued (told done) grown first ?_ (alone.same actor asleep)
    · intro m member
      rcases List.mem_append.mp member with before | late
      · exact once m before
      · exact none m late
  | introduced done old here actorList remotes =>
    refine .introduced (told done) ?_ (actor.trans here) (actorList.trans later.actorList.symm) ?_
    · intro m member
      rw [queue] at member
      rcases List.mem_append.mp member with before | late
      · exact old m before
      · exact none m late
    · rw [later.remoteServers]
      exact remotes

/-! ### Messages move on -/

theorem Carried.asleep {told : Option (ActorRef × Msg)} (carried : Carried w told w')
    (coming : w'.Coming r .mSync) : w.Coming r .mSync := by
  rcases carried.coming coming with old | request
  · exact old
  · cases request

/-- Each server goes on, and no other one is there. -/
structure Onward (w w' : World) : Prop where
  forth : ∀ {s}, s ∈ w.servers → ∃ t ∈ w'.servers, s.Later t
  back : ∀ {t}, t ∈ w'.servers → ∃ s ∈ w.servers, s.Later t
  fixed : w'.servers.map Server.fixed = w.servers.map Server.fixed

theorem Onward.of_eq (same : w'.servers = w.servers) : Onward w w' where
  forth := fun here => ⟨_, same ▸ here, .refl⟩
  back := fun here => ⟨_, same ▸ here, .refl⟩
  fixed := by rw [same]

theorem Onward.addresses (onward : Onward w w') :
    w'.servers.map Server.address = w.servers.map Server.address := by
  have same := congrArg (List.map Server.address) onward.fixed
  rw [List.map_map, List.map_map] at same
  exact same

/-- All but where the introductions are. -/
theorem Members.onward (members : w.Members) (onward : Onward w w')
    (running : ∀ {x}, x ∈ w'.running ↔ x ∈ w.running)
    (remote : ∀ {r z}, w'.Coming r (.mRIntro z) → w.Coming r (.mRIntro z))
    (waiting : ∀ {r m}, w'.net.Waiting r m → m.isMIntro = false)
    (phase : ∀ {t}, t ∈ w'.servers → ∀ {r}, r ∈ t.actorList → w'.Phase t r)
    (joined : ∀ {s}, s ∈ w.servers → ∀ {x}, x ∈ s.remoteServers →
      (∃ a, w'.actor x = some a ∧ s.actorRep ∈ a.remoteActorList) ∨
      w'.Coming x (.mRIntro s.actorRep)) : w'.Members := by
  constructor
  · rw [onward.addresses]
    exact members.addresses
  · intro t here
    obtain ⟨s, before, later⟩ := onward.back here
    rw [later.actorRep, later.actorList]
    exact members.rep before
  · intro t here r own
    obtain ⟨s, before, later⟩ := onward.back here
    rw [later.actorList] at own
    rw [later.address, running]
    exact members.own before own
  · intro t here
    obtain ⟨s, before, later⟩ := onward.back here
    rw [later.actorList]
    exact members.nodup before
  · intro t here
    obtain ⟨s, before, later⟩ := onward.back here
    rw [later.actorRep, later.actorList, later.remoteServers]
    exact later.tells.trans (members.tells before)
  · intro r here
    obtain ⟨s, before, own⟩ := members.all (running.mp here)
    obtain ⟨t, after, later⟩ := onward.forth before
    exact ⟨t, after, later.actorList ▸ own⟩
  · intro r known
    have known : (∃ s ∈ w.servers, r ∈ s.remoteServers) ∨ ∃ z, w.Coming r (.mRIntro z) := by
      rcases known with ⟨t, here, listed⟩ | ⟨z, coming⟩
      · obtain ⟨s, before, later⟩ := onward.back here
        exact .inl ⟨s, before, later.remoteServers ▸ listed⟩
      · exact .inr ⟨z, remote coming⟩
    obtain ⟨s, before, rep, done⟩ := members.returned known
    obtain ⟨t, after, later⟩ := onward.forth before
    exact ⟨t, after, later.actorRep.trans rep, later.returned done⟩
  · exact waiting
  · exact phase
  · intro t here x listed
    obtain ⟨s, before, later⟩ := onward.back here
    rw [later.actorRep]
    exact joined before (later.remoteServers ▸ listed)

theorem Members.moved {told : Option (ActorRef × Msg)} (members : w.Members) (sane : w.Sane)
    (onward : Onward w w') (carried : Carried w told w')
    (waiting : ∀ {r m}, w'.net.Waiting r m → m.isMIntro = false)
    (phase : ∀ {t}, t ∈ w'.servers → ∀ {r}, r ∈ t.actorList → w'.Phase t r) : w'.Members := by
  refine members.onward onward ?_ ?_ waiting phase ?_
  · intro x
    rw [mem_running, mem_running, carried.actor]
  · intro r z coming
    rcases carried.coming coming with old | request
    · exact old
    · cases request
  · intro s here x listed
    rw [carried.actor]
    refine (members.joined here listed).imp_right ?_
    intro coming
    exact carried.kept (sane.boxes (sane.letters coming).1) coming

theorem isMIntro_of_isIntro (none : m.isIntro = false) : m.isMIntro = false := by
  cases m <;> first | rfl | cases none

theorem isRequest_intro (request : m.isRequest = true) : m.isIntro = false := by
  cases m <;> first | rfl | cases request

/-- Until an actor is told MIntro, nothing else that comes to it is an introduction. -/
theorem Members.none_first (members : w.Members) (here : s ∈ w.servers) (own : r ∈ s.actorList)
    (pending : s.tells ≠ []) (coming : w.Coming r m) (other : m.isMIntro = false) :
    m.isIntro = false := by
  cases m with
  | mIntro => cases other
  | mRIntro z => exact absurd coming (members.none_before here own pending)
  | mGet | mPut | mList | mSync | mUpdate | getReply | putReply | listReply => rfl

/-- A step in which an actor is not told MIntro. -/
theorem Members.grows {told : Option (ActorRef × Msg)} (members : w.Members)
    (carried : Carried w told w') (here : s ∈ w.servers) (own : r ∈ s.actorList)
    (later : s.Later t) (keep : (r, s.intro) ∈ s.tells → (r, s.intro) ∈ t.tells)
    (other : ∀ m, told = some (r, m) → m.isMIntro = false) : w'.Phase t r := by
  obtain ⟨tail, queue, new⟩ := carried.queue r
  refine (members.phase here own).grow later queue (carried.actor r) carried.asleep ?_ ?_
  · refine fun untold => ⟨keep untold, fun m member => ?_⟩
    have first : w.Coming r m → m.isMIntro = false → m.isIntro = false :=
      members.none_first here own (List.ne_nil_of_mem untold)
    rcases new m member with waiting | told | request
    · exact first (.inr (.inl waiting)) (members.waiting waiting)
    · exact first (.inr (.inr (carried.was told))) (other m told)
    · exact isRequest_intro request
  · intro m member
    rcases new m member with waiting | told | request
    · exact members.waiting waiting
    · exact other m told
    · exact isMIntro_of_isIntro (isRequest_intro request)

theorem Members.carried {told : Option (ActorRef × Msg)} (members : w.Members) (sane : w.Sane)
    (carried : Carried w told w') (tame : ∀ r m, told = some (r, m) → m.isIntro = false)
    (servers : w'.servers = w.servers) : w'.Members := by
  refine members.moved sane (.of_eq servers) carried ?_ ?_
  · intro r m waiting
    rcases carried.waiting waiting with old | told
    · exact members.waiting old
    · exact isMIntro_of_isIntro (tame r m told)
  · intro s here r own
    rw [servers] at here
    exact members.grows carried here own .refl id fun m told =>
      isMIntro_of_isIntro (tame r m told)

/-! ### `NewServer` tells -/

theorem later_rest {rest : List (ActorRef × Msg)} (tells : s.tells = (x, m) :: rest) :
    s.Later { s with tells := rest } :=
  ⟨rfl, rfl, rfl, rfl, tells ▸ List.suffix_cons _ _⟩

section
variable {i : Nat} {rest : List (ActorRef × Msg)} (found : w.servers[i]? = some s)
  (tells : s.tells = (x, m) :: rest)
  (servers : w'.servers = w.servers.set i { s with tells := rest })
include found servers

/-- The server that tells, or another one. -/
theorem after_startup (members : w.Members) (here : t ∈ w'.servers) :
    t = { s with tells := rest } ∨ t ∈ w.servers ∧ t.address ≠ s.address := by
  obtain ⟨j, there⟩ := List.mem_iff_getElem?.mp here
  rw [servers] at there
  by_cases same : i = j
  · subst same
    rw [List.getElem?_set_self (List.getElem?_eq_some_iff.mp found).1] at there
    exact .inl (Option.some.inj there).symm
  · rw [List.getElem?_set_ne same] at there
    refine .inr ⟨List.mem_of_getElem? there, fun eq => same ?_⟩
    have inside : i < (w.servers.map Server.address).length := by
      rw [List.length_map]
      exact (List.getElem?_eq_some_iff.mp found).1
    apply (List.getElem?_inj inside members.addresses).mp
    rw [List.getElem?_map, List.getElem?_map, found, there, Option.map_some, Option.map_some, eq]

include tells

theorem onward_startup : Onward w w' where
  forth := by
    intro t here
    obtain ⟨j, there⟩ := List.mem_iff_getElem?.mp here
    by_cases same : i = j
    · subst same
      cases found.symm.trans there
      refine ⟨_, ?_, later_rest tells⟩
      rw [servers]
      exact List.mem_set (List.getElem?_eq_some_iff.mp found).1 _
    · refine ⟨t, ?_, .refl⟩
      have still : w'.servers[j]? = some t := by rw [servers, List.getElem?_set_ne same, there]
      exact List.mem_of_getElem? still
  back := by
    intro t here
    rw [servers] at here
    rcases List.mem_or_eq_of_mem_set here with old | rfl
    · exact ⟨t, old, .refl⟩
    · exact ⟨s, List.mem_of_getElem? found, later_rest tells⟩
  fixed := by
    apply List.ext_getElem?
    intro j
    rw [servers, List.getElem?_map, List.getElem?_map]
    by_cases same : i = j
    · subst same
      rw [List.getElem?_set_self (List.getElem?_eq_some_iff.mp found).1, found]
      rfl
    · rw [List.getElem?_set_ne same]

theorem Members.startup (members : w.Members) (sane : w.Sane)
    (carried : Carried w (some (x, m)) w')
    (arrives : x ∈ w.running → x.address = s.address → w'.net.queue x = w.net.queue x ++ [m] ∧
      ∀ {x y}, w'.net.Waiting x y → w.net.Waiting x y) : w'.Members := by
  have here := List.mem_of_getElem? found
  have first : (x, m) ∈ s.tells := by
    rw [tells]
    exact List.mem_cons_self
  have told := mem_introductions.mp ((members.tells here).mem first)
  refine members.moved sane (onward_startup found tells servers) carried ?_ ?_
  · intro r y waiting
    rcases carried.waiting waiting with old | same
    · exact members.waiting old
    · cases same
      rcases told with ⟨own, rfl⟩ | ⟨_, rfl⟩
      · -- MIntro stays in the system
        obtain ⟨address, running⟩ := members.own here own
        exact members.waiting ((arrives running address).2 waiting)
      · rfl
  · intro t there r own
    rcases after_startup found servers members there with rfl | ⟨there, apart⟩
    · by_cases this : x = r ∧ m.isMIntro = true
      · obtain ⟨rfl, intro⟩ := this
        obtain ⟨address, running⟩ := members.own here own
        have same : m = s.intro := by
          rcases told with ⟨_, same⟩ | ⟨_, rfl⟩
          · exact same
          · cases intro
        subst same
        have once := introductions_once (members.nodup here) (tells ▸ members.tells here) intro
        cases members.phase here own with
        | untold _ none alone =>
          exact .queued once (arrives running address).1 none (by simp)
            (alone.same (carried.actor x) carried.asleep)
        | queued told | introduced told => exact absurd first told
      · refine members.grows carried here own (later_rest tells) ?_ ?_
        · intro waits
          rw [tells] at waits
          rcases List.mem_cons.mp waits with same | later
          · cases same
            exact absurd ⟨rfl, rfl⟩ this
          · exact later
        · intro y same
          cases same
          exact Bool.eq_false_iff.mpr fun intro => this ⟨rfl, intro⟩
    · refine members.grows carried there own .refl id ?_
      intro y same
      cases same
      rcases told with ⟨listed, _⟩ | ⟨_, rfl⟩
      · -- the actors of another server have another address
        exact absurd ((members.own there own).1.symm.trans (members.own here listed).1) apart
      · rfl

end

/-! ### A message is handled -/

end World

theorem Send.Fits.tame {send : Send} {src : ActorRef} (fits : send.Fits src) :
    send.letter.2.isIntro = false := by
  cases send with
  | tell ref m => exact fits
  | tellAfter ref m =>
    obtain ⟨_, rfl⟩ := fits
    rfl

/-- MSync goes to the actor itself, after MIntro and MSync. -/
theorem react_sync {send : Send} (member : send ∈ (a.react now m).2)
    (letter : send.letter = (x, .mSync)) : x = a.self ∧ (m.isMIntro = true ∨ m = .mSync) := by
  cases m with
  | mIntro actorList remotes =>
    rcases List.mem_cons.mp member with rfl | update
    · cases letter
      exact ⟨rfl, .inl rfl⟩
    · obtain ⟨_, _, rfl⟩ := List.mem_map.mp update
      cases letter
  | mSync =>
    rcases List.mem_append.mp member with update | again
    · split at update
      · obtain ⟨_, _, rfl⟩ := List.mem_map.mp update
        cases letter
      · cases update
    · cases List.mem_singleton.mp again
      cases letter
      exact ⟨rfl, .inr rfl⟩
  | mGet sender key =>
    cases List.mem_singleton.mp member
    cases found : a.storage.lookup key with
    | none | some content =>
      rw [found] at letter
      cases letter
  | mPut | mList =>
    cases List.mem_singleton.mp member
    cases letter
  | mUpdate | mRIntro | getReply | putReply | listReply => cases member

theorem react_lists (other : m.isMIntro = false) :
    (a.react now m).1.actorList = a.actorList ∧
    ∀ x ∈ a.remoteActorList, x ∈ (a.react now m).1.remoteActorList := by
  cases m with
  | mIntro => cases other
  | mUpdate putList =>
    obtain ⟨_, actors, remotes⟩ := merge_frame (a := a) putList
    exact ⟨actors, fun x listed => remotes.symm ▸ listed⟩
  | mRIntro sender => exact ⟨rfl, fun x listed => List.mem_append_left _ listed⟩
  | mGet | mPut | mList | mSync | getReply | putReply | listReply => exact ⟨rfl, fun _ => id⟩

theorem react_remotes (other : m.isIntro = false) :
    (a.react now m).1.remoteActorList = a.remoteActorList := by
  cases m with
  | mIntro | mRIntro => cases other
  | mUpdate putList => exact (merge_frame putList).2.2
  | mGet | mPut | mList | mSync | getReply | putReply | listReply => rfl

/-- Only MSync forgets what is to be passed on. -/
theorem react_covered {k : String} (other : m ≠ .mSync)
    (covered : ∀ {content}, a.storage.lookup k = some content → a.putList.lookup k = some content)
    {content : Content} (stored : (a.react now m).1.storage.lookup k = some content) :
    (a.react now m).1.putList.lookup k = some content := by
  cases m with
  | mSync => exact absurd rfl other
  | mPut sender key value =>
    have stored : (a.store key ⟨sender, value, now⟩).storage.lookup k = some content := stored
    show (a.store key ⟨sender, value, now⟩).putList.lookup k = some content
    rw [store_storage] at stored
    rw [store_putList]
    split
    · rename_i same
      rw [if_pos same] at stored
      exact stored
    · rename_i other
      rw [if_neg other] at stored
      exact covered stored
  | mUpdate putList =>
    have entry := merge_all (a := a) (k := k) putList
    have stored : (putList.foldl QueryActor.merge a).storage.lookup k = some content := stored
    show (putList.foldl QueryActor.merge a).putList.lookup k = some content
    rw [QueryActor.entry, stored] at entry
    split at entry
    · split at entry
      · exact (congrArg Prod.snd entry).trans (congrArg Prod.fst entry).symm
      · exact (congrArg Prod.snd entry).trans (covered (congrArg Prod.fst entry).symm)
    · exact (congrArg Prod.snd entry).trans (covered (congrArg Prod.fst entry).symm)
  | mGet | mList | mIntro | mRIntro | getReply | putReply | listReply => exact covered stored

namespace World

theorem Handled.first (handled : Handled w r now a m w') : m ∈ w.net.queue r := by
  rw [handled.next]
  exact List.mem_cons_self

theorem Handled.asleep (handled : Handled w r now a m w') (other : m.isMIntro = false)
    (quiet : m ≠ .mSync) (coming : w'.Coming x .mSync) : w.Coming x .mSync := by
  rcases handled.coming coming with old | ⟨send, member, letter⟩
  · exact old
  · rcases (react_sync member letter).2 with intro | sync
    · cases other.symm.trans intro
    · exact absurd sync quiet

theorem Alone.handled (alone : w.Alone r) (handled : Handled w r now a m w')
    (other : m.isIntro = false) : w'.Alone r := by
  have quiet : m ≠ .mSync := by
    rintro rfl
    exact alone.asleep (.inl handled.first)
  have here : w'.actor r = some (a.react now m).1 := by rw [handled.actor, if_pos rfl]
  obtain ⟨actorList, remotes⟩ := alone.lists handled.before
  constructor
  · intro b found
    cases here.symm.trans found
    rw [(react_lists (isMIntro_of_isIntro other)).1, react_remotes other]
    exact ⟨actorList, remotes⟩
  · intro b found k content stored
    cases here.symm.trans found
    exact react_covered quiet (alone.covered handled.before) stored
  · exact fun coming => alone.asleep (handled.asleep (isMIntro_of_isIntro other) quiet coming)

theorem Phase.handled (phase : w.Phase s r) (handled : Handled w r now a m w') :
    w'.Phase s r := by
  have next := handled.next
  have here : w'.actor r = some (a.react now m).1 := by rw [handled.actor, if_pos rfl]
  cases phase with
  | untold waits none alone =>
    refine .untold waits ?_ (alone.handled handled (none m handled.first))
    intro y member
    exact none y (next ▸ List.mem_cons_of_mem _ member)
  | @queued before after told queue none once alone =>
    rw [next] at queue
    cases before with
    | nil =>
      obtain ⟨rfl, rest⟩ := List.cons.inj queue
      exact .introduced told (rest ▸ once) here rfl fun x listed => listed
    | cons first before =>
      obtain ⟨rfl, rest⟩ := List.cons.inj queue
      exact .queued told rest (fun y member => none y (List.mem_cons_of_mem _ member)) once
        (alone.handled handled (none m List.mem_cons_self))
  | introduced told none old actorList remotes =>
    cases handled.before.symm.trans old
    obtain ⟨kept, grows⟩ := react_lists (none m handled.first)
    refine .introduced told ?_ here (kept.trans actorList) fun x listed =>
      grows x (remotes x listed)
    intro y member
    exact none y (next ▸ List.mem_cons_of_mem _ member)

theorem Members.handled (members : w.Members) (sane : w.Sane)
    (handled : Handled w r now a m w') : w'.Members := by
  have fits := sane.letters (.inl handled.first)
  have sends := (sane.reacts now handled.before fits).2.2
  refine members.onward (.of_eq handled.servers) handled.member ?_ ?_ ?_ ?_
  · intro x z coming
    rcases handled.coming coming with old | ⟨send, member, letter⟩
    · exact old
    · have tame := (sends send member).1.tame
      rw [letter] at tame
      cases tame
  · exact fun waiting => members.waiting (handled.waiting.mp waiting)
  · intro s there x own
    rw [handled.servers] at there
    have phase := members.phase there own
    by_cases same : x = r
    · subst same
      exact phase.handled handled
    · have queue : w'.net.queue x = w.net.queue x ++ [] := by
        rw [handled.queue same, List.append_nil]
      refine phase.grow .refl queue (by rw [handled.actor, if_neg same]) ?_
        (fun waits => ⟨waits, by simp⟩) (by simp)
      intro coming
      rcases handled.coming coming with old | ⟨send, member, letter⟩
      · exact old
      · exact absurd ((react_sync member letter).1.trans (sane.self handled.before)) same
  · intro s there x listed
    rw [handled.actor]
    rcases members.joined there listed with ⟨b, old, joined⟩ | coming
    · left
      by_cases same : x = r
      · subst same
        cases handled.before.symm.trans old
        refine ⟨_, if_pos rfl, ?_⟩
        -- an actor that has joined another server has handled its MIntro
        obtain ⟨t, home, rfl, _⟩ := members.returned (.inl ⟨s, there, listed⟩)
        have other : m.isMIntro = false := by
          cases members.phase home (members.rep home) with
          | untold _ none _ => exact isMIntro_of_isIntro (none m handled.first)
          | queued _ _ _ _ alone =>
            rw [(alone.lists old).2] at joined
            cases joined
          | introduced _ none => exact none m handled.first
        exact (react_lists other).2 _ joined
      · exact ⟨b, by rw [if_neg same, old], joined⟩
    · rcases handled.kept coming with still | ⟨rfl, rfl⟩
      · exact .inr still
      · exact .inl ⟨_, if_pos rfl, List.mem_append_right _ List.mem_cons_self⟩

/-! ### A server is started -/

/-- No actor is told MSync when a server is started. -/
theorem Hired.asleep (hired : Hired w s w') (sane : w.Sane) (coming : w'.Coming x .mSync) :
    w.Coming x .mSync := by
  refine ((hired.coming sane).mp coming).resolve_right fun told => ?_
  rw [hired.tells] at told
  rcases mem_introductions.mp told with ⟨_, none⟩ | ⟨_, none⟩
  · cases none
  · cases none

/-- The system of the new actors is new, so that nothing waits for them. -/
theorem Hired.queue_new (hired : Hired w s w') (own : r ∈ s.actorList) : w'.net.queue r = [] := by
  rw [hired.queue, Net.queue]
  split
  · rename_i mailbox found
    have here := Net.system_of_box (n := w.net) (r := r) (by simp [found])
    rw [hired.address r own] at here
    exact absurd here hired.unused
  · rfl

theorem Hired.phase_new (hired : Hired w s w') (sane : w.Sane) (own : r ∈ s.actorList) :
    w'.Phase s r := by
  have here : w'.actor r = some (newQueryActor r) := by rw [hired.actor, if_pos own]
  refine .untold ?_ (by simp [hired.queue_new own]) ⟨?_, ?_, ?_⟩
  · rw [hired.tells]
    exact mem_introductions.mpr (.inl ⟨own, rfl⟩)
  · intro a found
    cases here.symm.trans found
    exact ⟨rfl, rfl⟩
  · intro a found k content stored
    cases here.symm.trans found
    cases stored
  · intro coming
    exact hired.new sane own (sane.letters (hired.asleep sane coming))

theorem Members.phase_hired (members : w.Members) (sane : w.Sane) (hired : Hired w s w')
    (old : t ∈ w.servers) (own : r ∈ t.actorList) : w'.Phase t r := by
  have other : r ∉ s.actorList := fun new => hired.new sane new (members.own old own).2
  have queue : w'.net.queue r = w.net.queue r ++ [] := by
    rw [hired.queue, List.append_nil]
  exact (members.phase old own).grow .refl queue (by rw [hired.actor, if_neg other])
    (hired.asleep sane) (fun waits => ⟨waits, by simp⟩) (by simp)

theorem Members.hired (members : w.Members) (sane : w.Sane) (hired : Hired w s w') :
    w'.Members := by
  have fresh : ∀ {x}, x ∈ s.actorList → x ∉ w.running := hired.new sane
  have mem : ∀ {t}, t ∈ w'.servers ↔ t ∈ w.servers ∨ t = s := by
    intro t
    rw [hired.servers, List.mem_append, List.mem_singleton]
  constructor
  · rw [hired.servers, List.map_append]
    refine List.nodup_append.mpr ⟨members.addresses, List.nodup_singleton _, ?_⟩
    intro address old other new same
    obtain ⟨t, there, rfl⟩ := List.mem_map.mp old
    cases List.mem_singleton.mp new
    obtain ⟨running, at_address⟩ := sane.servers there
    have here := sane.here running
    rw [at_address, same] at here
    exact hired.unused here
  · intro t there
    rcases mem.mp there with old | rfl
    · exact members.rep old
    · exact hired.rep
  · intro t there r own
    rw [hired.member]
    rcases mem.mp there with old | rfl
    · exact (members.own old own).imp_right .inl
    · exact ⟨hired.address r own, .inr own⟩
  · intro t there
    rcases mem.mp there with old | rfl
    · exact members.nodup old
    · exact hired.nodup
  · intro t there
    rcases mem.mp there with old | rfl
    · exact members.tells old
    · exact hired.tells ▸ List.suffix_rfl
  · intro r running
    rcases hired.member.mp running with old | new
    · obtain ⟨t, there, own⟩ := members.all old
      exact ⟨t, mem.mpr (.inl there), own⟩
    · exact ⟨s, mem.mpr (.inr rfl), new⟩
  · intro r known
    have given : r ∈ s.remoteServers → ∃ t ∈ w'.servers, t.actorRep = r ∧ t.tells = [] := by
      intro listed
      obtain ⟨t, there, rep, done⟩ := hired.returned r listed
      exact ⟨t, mem.mpr (.inl there), rep, done⟩
    have kept : ((∃ t ∈ w.servers, r ∈ t.remoteServers) ∨ ∃ z, w.Coming r (.mRIntro z)) →
        ∃ t ∈ w'.servers, t.actorRep = r ∧ t.tells = [] := by
      intro known
      obtain ⟨t, there, rep, done⟩ := members.returned known
      exact ⟨t, mem.mpr (.inl there), rep, done⟩
    rcases known with ⟨t, there, listed⟩ | ⟨z, coming⟩
    · rcases mem.mp there with old | rfl
      · exact kept (.inl ⟨t, old, listed⟩)
      · exact given listed
    · rcases (hired.coming sane).mp coming with old | told
      · exact kept (.inr ⟨z, old⟩)
      · rw [hired.tells] at told
        rcases mem_introductions.mp told with ⟨_, none⟩ | ⟨listed, _⟩
        · cases none
        · exact given listed
  · exact fun waiting => members.waiting (hired.waiting.mp waiting)
  · intro t there r own
    rcases mem.mp there with old | rfl
    · exact members.phase_hired sane hired old own
    · exact hired.phase_new sane own
  · intro t there x listed
    rcases mem.mp there with old | rfl
    · obtain ⟨other, home, rfl, _⟩ := members.returned (.inl ⟨t, old, listed⟩)
      have running := (members.own home (members.rep home)).2
      rw [hired.actor, if_neg fun new => fresh new running]
      exact (members.joined old listed).imp_right fun coming => (hired.coming sane).mpr (.inl coming)
    · right
      refine (hired.coming sane).mpr (.inr ?_)
      rw [hired.tells]
      exact mem_introductions.mpr (.inr ⟨listed, rfl⟩)

theorem members_new : newWorld.Members where
  addresses := List.nodup_nil
  rep := by
    intro s here
    cases here
  own := by
    intro s here
    cases here
  nodup := by
    intro s here
    cases here
  tells := by
    intro s here
    cases here
  all := by
    intro r running
    cases running
  returned := by
    rintro r (⟨s, here, _⟩ | ⟨z, coming⟩)
    · cases here
    · exact absurd coming nothing_coming
  waiting := fun waiting => absurd (.inr (.inl waiting)) nothing_coming
  phase := by
    intro s here
    cases here
  joined := by
    intro s here
    cases here

theorem Members.change (members : w.Members) (sane : w.Sane) (change : Change w action w') :
    w'.Members := by
  cases change with
  | carried carried tame servers => exact members.carried sane carried tame servers
  | startup found tells carried servers arrives =>
    exact members.startup found tells servers sane carried arrives
  | handled handled => exact members.handled sane handled
  | hired hired => exact members.hired sane hired

theorem Change.onward (change : Change w action w') :
    Onward w w' ∨ ∃ address count s, action = .newServer address count s.remoteServers ∧
      s.address = address ∧ Hired w s w' := by
  cases change with
  | carried _ _ servers => exact .inl (.of_eq servers)
  | startup found tells _ servers => exact .inl (onward_startup found tells servers)
  | handled handled => exact .inl (.of_eq handled.servers)
  | hired hired address => exact .inr ⟨_, _, _, rfl, address, hired⟩

end World

end DistSys.Kv
