import DistSys.Kv.Changes
import DistSys.Lib.Gossip
import Mathlib.Data.List.Induction

/-! The storages of the query actors under one key gossip: every step is a sequence of moves of
the general development. -/
namespace DistSys.Kv

open DistSys.Lib DistSys.Actor Function

variable {w w' : World} {r x : ActorRef} {m : Msg} {now : Nat} {a : QueryActor} {k : String}
  {action : Action}

/-- The last Put of a key. -/
def lastPut (puts : List (String × Content)) (k : String) : Option Content :=
  puts.foldl (fun last put => if put.1 = k then some put.2 else last) none

theorem lastPut_append {puts : List (String × Content)} {put : String × Content} :
    lastPut (puts ++ [put]) k = if put.1 = k then some put.2 else lastPut puts k := by
  simp only [lastPut, List.foldl_append, List.foldl_cons, List.foldl_nil]

theorem lastPut_mem {puts : List (String × Content)} {content : Content}
    (last : lastPut puts k = some content) : (k, content) ∈ puts := by
  induction puts using List.reverseRecOn with
  | nil => cases last
  | append_singleton puts put ih =>
    obtain ⟨key, value⟩ := put
    rw [lastPut_append] at last
    split at last
    · rename_i same
      cases last
      cases same
      exact List.mem_append_right _ List.mem_cons_self
    · exact List.mem_append_left _ (ih last)

namespace World

def gossip (w : World) (k : String) : Gossip ActorRef Content where
  held := fun r => (w.actor r).bind fun a => a.storage.lookup k
  fresh := fun r => (w.actor r).bind fun a => a.putList.lookup k
  transit := fun r content => ∃ putList, w.Coming r (.mUpdate putList) ∧
    putList.lookup k = some content
  edge := fun r x => ∃ a, w.actor r = some a ∧ x ∈ a.targets
  latest := lastPut w.puts k

theorem held_of (here : w.actor r = some a) : (w.gossip k).held r = a.storage.lookup k := by
  simp only [gossip, here, Option.bind_some]

theorem fresh_of (here : w.actor r = some a) : (w.gossip k).fresh r = a.putList.lookup k := by
  simp only [gossip, here, Option.bind_some]

theorem edge_of (here : w.actor r = some a) : (w.gossip k).edge r x ↔ x ∈ a.targets := by
  simp only [gossip, here, Option.some.injEq, exists_eq_left']

theorem gossip_new : newWorld.gossip k = .new := by
  apply Gossip.ext
  · funext r
    simp only [gossip, actor_new, Option.bind_none, Gossip.new]
  · funext r
    simp only [gossip, actor_new, Option.bind_none, Gossip.new]
  · funext r content
    simp only [gossip, Gossip.new, nothing_coming, false_and, exists_const]
  · funext r x
    simp only [gossip, actor_new, Gossip.new, reduceCtorEq, false_and, exists_false]
  · rfl

/-- The same actors and Puts, and the same updates on their way. -/
theorem gossip_same (actor : ∀ r, w'.actor r = w.actor r) (puts : w'.puts = w.puts)
    (updates : ∀ {r putList}, w'.Coming r (.mUpdate putList) ↔ w.Coming r (.mUpdate putList)) :
    w'.gossip k = w.gossip k := by
  simp only [gossip, actor, puts, updates]

theorem gossip_carried {told : Option (ActorRef × Msg)} (sane : w.Sane)
    (carried : Carried w told w') : w'.gossip k = w.gossip k := by
  refine gossip_same carried.actor carried.puts ?_
  intro r putList
  constructor
  · intro coming
    rcases carried.coming coming with old | request
    · exact old
    · cases request
  · intro coming
    exact carried.kept (sane.boxes (sane.letters coming)) coming

theorem gossip_hired {server : Server} (sane : w.Sane) (hired : Hired w server w') :
    w'.gossip k = w.gossip k := by
  have gone : ∀ {x}, x ∈ server.actorList → w.actor x = none := by
    intro x new
    rw [actor, AList.lookup_eq_none.mpr (hired.new sane new), Option.map_none]
  apply Gossip.ext
  · funext r
    simp only [gossip, hired.actor]
    split
    · rw [gone ‹_›]
      rfl
    · rfl
  · funext r
    simp only [gossip, hired.actor]
    split
    · rw [gone ‹_›]
      rfl
    · rfl
  · funext r content
    simp only [gossip, hired.coming sane, eq_iff_iff]
    have none : ∀ putList, (r, Msg.mUpdate putList) ∉ server.tells := by
      intro putList member
      rw [hired.tells, introductions] at member
      rcases List.mem_append.mp member with intro | intro
      · obtain ⟨_, _, same⟩ := List.mem_map.mp intro
        cases same
      · obtain ⟨_, _, same⟩ := List.mem_map.mp intro
        cases same
    simp only [none, or_false]
  · funext r x
    simp only [gossip, hired.actor]
    split
    · rw [gone ‹_›, eq_iff_iff]
      constructor
      · rintro ⟨_, ⟨⟩, target⟩
        cases target
      · rintro ⟨_, ⟨⟩, _⟩
    · rfl
  · simp only [gossip, hired.puts]

/-! ### A message is handled -/

section
variable (handled : Handled w r now a m w')
include handled

theorem held_handled : (w'.gossip k).held =
    update (w.gossip k).held r ((a.react now m).1.storage.lookup k) := by
  funext x
  rw [Function.update_apply]
  simp only [gossip, handled.actor]
  split <;> rfl

theorem fresh_handled : (w'.gossip k).fresh =
    update (w.gossip k).fresh r ((a.react now m).1.putList.lookup k) := by
  funext x
  rw [Function.update_apply]
  simp only [gossip, handled.actor]
  split <;> rfl

theorem edge_handled {b : ActorRef} : (w'.gossip k).edge x b ↔
    if x = r then b ∈ (a.react now m).1.targets else (w.gossip k).edge x b := by
  simp only [gossip, handled.actor]
  split
  · simp only [Option.some.injEq, exists_eq_left']
  · rfl

theorem held_same (storage : (a.react now m).1.storage.lookup k = a.storage.lookup k) :
    (w'.gossip k).held = (w.gossip k).held := by
  rw [held_handled handled, storage, ← held_of handled.before, update_eq_self]

theorem fresh_same (putList : (a.react now m).1.putList.lookup k = a.putList.lookup k) :
    (w'.gossip k).fresh = (w.gossip k).fresh := by
  rw [fresh_handled handled, putList, ← fresh_of handled.before, update_eq_self]

theorem edge_same (targets : (a.react now m).1.targets = a.targets) :
    (w'.gossip k).edge = (w.gossip k).edge := by
  funext x b
  rw [edge_handled handled, eq_iff_iff]
  split
  · rename_i same
    rw [same, targets, edge_of handled.before]
  · rfl

theorem latest_same (none : m.put now = []) : (w'.gossip k).latest = (w.gossip k).latest := by
  simp only [gossip, handled.puts, none, List.append_nil]

/-- The updates on their way after a message that is none. -/
theorem transit_handled (other : m.isUpdate = false) {content : Content} :
    (w'.gossip k).transit x content ↔ (w.gossip k).transit x content ∨
      ∃ putList, (∃ s ∈ (a.react now m).2, s.letter = (x, .mUpdate putList)) ∧
        putList.lookup k = some content := by
  constructor
  · rintro ⟨putList, coming, found⟩
    rcases handled.coming coming with old | new
    · exact .inl ⟨putList, old, found⟩
    · exact .inr ⟨putList, new, found⟩
  · rintro (⟨putList, coming, found⟩ | ⟨putList, new, found⟩)
    · rcases handled.kept coming with still | ⟨_, rfl⟩
      · exact ⟨putList, still, found⟩
      · cases other
    · exact ⟨putList, .inr (handled.outside.mpr (.inr new)), found⟩

/-- A message that leaves the entries of the actor and its lists, and sends no update. -/
theorem gossip_idle (storage : (a.react now m).1.storage.lookup k = a.storage.lookup k)
    (putList : (a.react now m).1.putList.lookup k = a.putList.lookup k)
    (targets : (a.react now m).1.targets = a.targets)
    (put : (w'.gossip k).latest = (w.gossip k).latest) (other : m.isUpdate = false)
    (silent : ∀ s ∈ (a.react now m).2, s.letter.2.isUpdate = false) :
    w'.gossip k = w.gossip k := by
  apply Gossip.ext
  · exact held_same handled storage
  · exact fresh_same handled putList
  · funext x content
    rw [transit_handled handled other, eq_iff_iff]
    constructor
    · rintro (old | ⟨_, ⟨s, member, letter⟩, _⟩)
      · exact old
      · have none := silent s member
        rw [letter] at none
        cases none
    · exact .inl
  · exact edge_same handled targets
  · exact put

end

/-- A Put whose reading of the clock is later than those of all Puts before. -/
theorem moves_put {sender : ActorRef} {key value : String}
    (sound : (w.gossip k).Sound Content.stamp)
    (handled : Handled w r now a (.mPut sender key value) w')
    (clock : ∀ put ∈ w.puts, put.2.timeStamp < now) :
    Gossip.Moves Content.stamp (w.gossip k) (w'.gossip k) := by
  have puts : lastPut w'.puts k =
      if key = k then some ⟨sender, value, now⟩ else lastPut w.puts k := by
    rw [handled.puts]
    exact lastPut_append
  by_cases same : key = k
  · subst same
    rw [if_pos rfl] at puts
    have newest : ∀ u, (w.gossip key).Has u → u.stamp < (⟨sender, value, now⟩ : Content).stamp := by
      intro u has
      obtain ⟨last, found, eq | lt⟩ := sound.latest has
      · rw [eq]
        exact Content.stamp_lt_of_time (clock _ (lastPut_mem found))
      · exact lt.trans (Content.stamp_lt_of_time (clock _ (lastPut_mem found)))
    have after : w'.gossip key = { (w.gossip key).store r ⟨sender, value, now⟩ with
        latest := some ⟨sender, value, now⟩ } := by
      apply Gossip.ext
      · rw [held_handled handled]
        exact congrArg _ (store_storage.trans (if_pos rfl))
      · rw [fresh_handled handled]
        exact congrArg _ (store_putList.trans (if_pos rfl))
      · funext x content
        rw [transit_handled handled rfl, eq_iff_iff]
        constructor
        · rintro (old | ⟨_, ⟨s, member, letter⟩, _⟩)
          · exact old
          · cases List.mem_singleton.mp member
            cases letter
        · exact .inl
      · exact edge_same handled rfl
      · exact puts
    rw [after]
    exact .single (.write r _ newest)
  · rw [if_neg same] at puts
    have other : k ≠ key := fun eq => same eq.symm
    rw [gossip_idle handled (store_storage.trans (if_neg other))
      (store_putList.trans (if_neg other)) rfl puts rfl ?_]
    intro s member
    cases List.mem_singleton.mp member
    rfl

theorem moves_sync (handled : Handled w r now a .mSync w') :
    Gossip.Moves Content.stamp (w.gossip k) (w'.gossip k) := by
  have before := handled.before
  have after : w'.gossip k = { w.gossip k with
      fresh := update (w.gossip k).fresh r none
      transit := fun m u => (w.gossip k).transit m u ∨
        m ∈ a.targets ∧ (w.gossip k).fresh r = some u } := by
    apply Gossip.ext
    · exact held_same handled rfl
    · exact fresh_handled handled
    · funext x content
      rw [transit_handled handled rfl, eq_iff_iff, fresh_of before]
      refine or_congr Iff.rfl ⟨?_, ?_⟩
      · rintro ⟨putList, ⟨s, member, letter⟩, found⟩
        rcases List.mem_append.mp member with update | again
        · split at update
          · obtain ⟨target, listed, rfl⟩ := List.mem_map.mp update
            cases letter
            exact ⟨listed, found⟩
          · cases update
        · cases List.mem_singleton.mp again
          cases letter
      · rintro ⟨listed, found⟩
        have some : 0 < Map.size a.putList := by
          apply Nat.pos_of_ne_zero
          intro empty
          rw [Map.eq_empty_of_size empty] at found
          cases found
        refine ⟨a.putList, ⟨.tell x (.mUpdate a.putList), ?_, rfl⟩, found⟩
        simp only [QueryActor.react, QueryActor.onMessage, some, if_true]
        exact List.mem_append_left _ (List.mem_map_of_mem listed)
    · exact edge_same handled rfl
    · exact latest_same handled rfl
  rw [after]
  exact .single (.flush r (· ∈ a.targets) fun m edge => (edge_of before).mp edge)

theorem moves_update {putList : Map String Content}
    (handled : Handled w r now a (.mUpdate putList) w') :
    Gossip.Moves Content.stamp (w.gossip k) (w'.gossip k) := by
  have before := handled.before
  have arrives : w.Coming r (.mUpdate putList) := by
    left
    rw [handled.next]
    exact List.mem_cons_self
  have entry := merge_all (a := a) (k := k) putList
  obtain ⟨self, actors, remotes⟩ := merge_frame (a := a) putList
  have edge : (w'.gossip k).edge = (w.gossip k).edge := by
    apply edge_same handled
    show (putList.foldl QueryActor.merge a).targets = a.targets
    rw [QueryActor.targets, self, actors, remotes]
    rfl
  have latest : (w'.gossip k).latest = (w.gossip k).latest := latest_same handled rfl
  have less : ∀ x u, (w'.gossip k).transit x u → (w.gossip k).transit x u := by
    rintro x u ⟨other, coming, found⟩
    rcases handled.coming coming with old | ⟨s, member, _⟩
    · exact ⟨other, old, found⟩
    · cases member
  have others : ∀ x u, (w.gossip k).transit x u →
      (w'.gossip k).transit x u ∨ x = r ∧ putList.lookup k = some u := by
    rintro x u ⟨other, coming, found⟩
    rcases handled.kept coming with still | ⟨same, eq⟩
    · exact .inl ⟨other, still, found⟩
    · cases eq
      exact .inr ⟨same, found⟩
  cases found : putList.lookup k with
  | none =>
    have same : w'.gossip k = w.gossip k := by
      simp only [found] at entry
      apply Gossip.ext
      · exact held_same handled (congrArg Prod.fst entry)
      · exact fresh_same handled (congrArg Prod.snd entry)
      · funext x u
        rw [eq_iff_iff]
        refine ⟨less x u, fun old => (others x u old).resolve_right ?_⟩
        rintro ⟨_, some⟩
        cases found.symm.trans some
      · exact edge
      · exact latest
    rw [same]
  | some content =>
    simp only [found] at entry
    have others : ∀ x u, (w.gossip k).transit x u →
        (w'.gossip k).transit x u ∨ x = r ∧ u = content := by
      intro x u old
      refine (others x u old).imp_right ?_
      rintro ⟨same, some⟩
      exact ⟨same, Option.some.inj (some.symm.trans found)⟩
    by_cases wins : newer (a.storage.lookup k) content
    · -- the version is adopted, and is then no longer on its way
      rw [if_pos wins] at entry
      have after : w'.gossip k = { (w.gossip k).store r content with
          transit := (w'.gossip k).transit } := by
        apply Gossip.ext
        · rw [held_handled handled]
          exact congrArg _ (congrArg Prod.fst entry)
        · rw [fresh_handled handled]
          exact congrArg _ (congrArg Prod.snd entry)
        · rfl
        · exact edge
        · exact latest
      rw [after]
      have adopted : Gossip.Move Content.stamp (w.gossip k) ((w.gossip k).store r content) :=
        .adopt r content ⟨putList, arrives, found⟩ fun u held =>
          wins u ((held_of before).symm.trans held)
      exact .tail (.single adopted) (.forget r content _
        ⟨content, by rw [Gossip.held_store, if_pos rfl], le_rfl⟩ less others)
    · rw [if_neg wins] at entry
      have after : w'.gossip k = { w.gossip k with transit := (w'.gossip k).transit } := by
        apply Gossip.ext
        · exact held_same handled (congrArg Prod.fst entry)
        · exact fresh_same handled (congrArg Prod.snd entry)
        · rfl
        · exact edge
        · exact latest
      rw [after]
      refine .single (.forget r content _ ?_ less others)
      simp only [newer, not_forall, not_lt] at wins
      obtain ⟨con, stored, le⟩ := wins
      exact ⟨con, (held_of before).trans stored, le⟩

/-- The first introduction of an actor that has still to pass on all that it stores. -/
theorem moves_intro {actorList remoteActorList : List ActorRef}
    (handled : Handled w r now a (.mIntro actorList remoteActorList) w') (alone : a.targets = [])
    (covered : ∀ content, a.storage.lookup k = some content → a.putList.lookup k = some content) :
    Gossip.Moves Content.stamp (w.gossip k) (w'.gossip k) := by
  have before := handled.before
  let b : QueryActor := { a with actorList := actorList, remoteActorList := remoteActorList }
  let linked : Gossip ActorRef Content := { w.gossip k with
    edge := fun x y => (w.gossip k).edge x y ∨ x = r ∧ y ∈ b.targets }
  have link : Gossip.Move Content.stamp (w.gossip k) linked := by
    refine .link r (· ∈ b.targets) ?_
    intro content
    rw [held_of before, fresh_of before]
    exact covered content
  have after : w'.gossip k = { linked with
      transit := fun x u => (w.gossip k).transit x u ∨
        x ∈ actorList ∧ (w.gossip k).held r = some u } := by
    apply Gossip.ext
    · exact held_same handled rfl
    · exact fresh_same handled rfl
    · funext x content
      rw [transit_handled handled rfl, eq_iff_iff, held_of before]
      refine or_congr Iff.rfl ⟨?_, ?_⟩
      · rintro ⟨putList, ⟨s, member, letter⟩, found⟩
        rcases List.mem_cons.mp member with rfl | member
        · cases letter
        · obtain ⟨target, listed, rfl⟩ := List.mem_map.mp member
          cases letter
          exact ⟨listed, found⟩
      · rintro ⟨listed, found⟩
        exact ⟨a.storage, ⟨_, List.mem_cons_of_mem _ (List.mem_map_of_mem listed), rfl⟩, found⟩
    · funext x y
      rw [edge_handled handled, eq_iff_iff]
      show _ ↔ (w.gossip k).edge x y ∨ x = r ∧ y ∈ b.targets
      split
      · rename_i same
        have none : ¬(w.gossip k).edge r y := by
          rw [edge_of before, alone]
          exact List.not_mem_nil
        simp only [same, none, true_and, false_or]
        rfl
      · rename_i other
        simp only [other, false_and, or_false]
    · exact latest_same handled rfl
  rw [after]
  exact .tail (.single link) (.copy r (· ∈ actorList))

/-- A server more, for an actor that has still to pass on all that it stores. -/
theorem moves_remote {sender : ActorRef} (handled : Handled w r now a (.mRIntro sender) w')
    (covered : ∀ content, a.storage.lookup k = some content → a.putList.lookup k = some content) :
    Gossip.Moves Content.stamp (w.gossip k) (w'.gossip k) := by
  have before := handled.before
  have link : Gossip.Move Content.stamp (w.gossip k) { w.gossip k with
      edge := fun x y => (w.gossip k).edge x y ∨ x = r ∧ y = sender } := by
    refine .link r (· = sender) ?_
    intro content
    rw [held_of before, fresh_of before]
    exact covered content
  have after : w'.gossip k = { w.gossip k with
      edge := fun x y => (w.gossip k).edge x y ∨ x = r ∧ y = sender } := by
    apply Gossip.ext
    · exact held_same handled rfl
    · exact fresh_same handled rfl
    · funext x content
      rw [transit_handled handled rfl, eq_iff_iff]
      constructor
      · rintro (old | ⟨_, ⟨s, member, _⟩, _⟩)
        · exact old
        · cases member
      · exact .inl
    · funext x y
      rw [edge_handled handled, eq_iff_iff]
      show _ ↔ (w.gossip k).edge x y ∨ x = r ∧ y = sender
      split
      · rename_i same
        have targets : (a.react now (.mRIntro sender)).1.targets = a.targets ++ [sender] :=
          (List.append_assoc ..).symm
        simp only [same, targets, edge_of before, List.mem_append, List.mem_singleton, true_and]
      · rename_i other
        simp only [other, false_and, or_false]
    · exact latest_same handled rfl
  rw [after]
  exact .single link

theorem moves_handled (sound : (w.gossip k).Sound Content.stamp)
    (handled : Handled w r now a m w')
    (clock : ∀ put ∈ m.put now, ∀ old ∈ w.puts, old.2.timeStamp < now)
    (alone : ∀ actorList remotes, m = .mIntro actorList remotes → a.targets = [])
    (covered : m.isIntro = true → ∀ content, a.storage.lookup k = some content →
      a.putList.lookup k = some content) :
    Gossip.Moves Content.stamp (w.gossip k) (w'.gossip k) := by
  cases m with
  | mPut sender key value => exact moves_put sound handled (clock _ List.mem_cons_self)
  | mSync => exact moves_sync handled
  | mUpdate putList => exact moves_update handled
  | mIntro actorList remotes => exact moves_intro handled (alone _ _ rfl) (covered rfl)
  | mRIntro sender => exact moves_remote handled (covered rfl)
  | mGet sender key =>
    rw [gossip_idle handled rfl rfl rfl (latest_same handled rfl) rfl]
    intro s member
    cases List.mem_singleton.mp member
    cases a.storage.lookup key <;> rfl
  | mList sender start =>
    rw [gossip_idle handled rfl rfl rfl (latest_same handled rfl) rfl]
    intro s member
    cases List.mem_singleton.mp member
    rfl
  | getReply | putReply | listReply =>
    rw [gossip_idle handled rfl rfl rfl (latest_same handled rfl) rfl]
    intro s member
    cases member

end World

end DistSys.Kv
