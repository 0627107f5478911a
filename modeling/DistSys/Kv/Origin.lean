import DistSys.Kv.Quiescence
import DistSys.Kv.Rpc

/-! Where values come from: whatever a replica stores, passes on or replies with was put before. -/
namespace DistSys.Kv

open DistSys.Lib DistSys.Actor

variable {w w' : World} {m : Msg} {a : QueryActor} {action : Action}
  {pool pool' : List (String × Content)}

/-- What an actor stores and what it has to pass on is from the pool. -/
def QueryActor.Within (pool : List (String × Content)) (a : QueryActor) : Prop :=
  ∀ k content, a.storage.lookup k = some content ∨ a.putList.lookup k = some content →
    (k, content) ∈ pool

theorem QueryActor.Within.mono (within : a.Within pool) (more : pool ⊆ pool') : a.Within pool' :=
  fun k content found => more (within k content found)

/-- An actor stores and tells nothing but what it has stored, what has come in an update, and what is
put in this step. -/
theorem react_within (pool : List (String × Content)) (now : Nat) (own : a.Within pool)
    (known : ∀ version ∈ m.versions, version ∈ pool) (put : ∀ version ∈ m.put now, version ∈ pool) :
    (a.react now m).1.Within pool ∧
    ∀ send ∈ (a.react now m).2, ∀ version ∈ send.letter.2.versions, version ∈ pool := by
  have pending : ∀ version ∈ (Msg.mUpdate a.putList).versions, version ∈ pool :=
    fun version member => own version.1 version.2 (.inr (mem_versions.mp member))
  cases m with
  | mPut sender key value =>
    refine ⟨?_, ?_⟩
    · intro k content found
      have found : (a.store key ⟨sender, value, now⟩).storage.lookup k = some content ∨
          (a.store key ⟨sender, value, now⟩).putList.lookup k = some content := found
      rw [store_storage, store_putList] at found
      split at found
      · rename_i same
        have new : ⟨sender, value, now⟩ = content := by simpa using found
        exact put _ (by simp [Msg.put, same, new])
      · exact own k content found
    · intro send member version spread
      cases List.mem_singleton.mp member
      cases spread
  | mIntro actorList remotes =>
    refine ⟨own, ?_⟩
    intro send member version spread
    rcases List.mem_cons.mp member with rfl | update
    · cases spread
    · obtain ⟨ref, -, rfl⟩ := List.mem_map.mp update
      exact own version.1 version.2 (.inl (mem_versions.mp spread))
  | mUpdate putList =>
    refine ⟨?_, (react_known now rfl known pending).2⟩
    intro k content found
    have found : ((putList.foldl QueryActor.merge a).entry k).1 = some content ∨
        ((putList.foldl QueryActor.merge a).entry k).2 = some content := found
    rw [merge_all] at found
    split at found
    · rename_i con comes
      split at found
      · have same : con = content := by simpa using found
        exact known _ (mem_versions.mpr (same ▸ comes))
      · exact own k content found
    · exact own k content found
  | mSync =>
    refine ⟨?_, (react_known now rfl known pending).2⟩
    rintro k content (stored | none)
    · exact own k content (.inl stored)
    · cases none
  | mRIntro sender => exact ⟨own, fun send none => by cases none⟩
  | mGet | mList | getReply | putReply | listReply =>
    exact ⟨own, (react_known now rfl known pending).2⟩

namespace World

/-- All versions at the actors and on their way were put. -/
structure Genuine (w : World) : Prop where
  sane : w.Sane
  actors : ∀ {r a}, w.actor r = some a → a.Within w.puts
  letters : ∀ {r m}, w.Coming r m → ∀ version ∈ m.versions, version ∈ w.puts

theorem genuine_new : newWorld.Genuine where
  sane := sane_new
  actors := by simp [actor_new]
  letters coming := absurd coming nothing_coming

theorem Genuine.next (genuine : w.Genuine) (taken : step w action = some w') : w'.Genuine := by
  obtain ⟨change, sane⟩ := step_change genuine.sane taken
  have carry : ∀ {told}, Carried w told w' → w'.Genuine := by
    intro told carried
    refine ⟨sane, ?_, ?_⟩
    · intro r a here
      rw [carried.puts]
      exact genuine.actors ((carried.actor r).symm.trans here)
    · intro r m coming
      rw [carried.puts]
      rcases carried.coming coming with old | request
      · exact genuine.letters old
      · cases m with
        | mUpdate => cases request
        | _ => simp [Msg.versions]
  cases change with
  | carried carried | startup _ _ carried => exact carry carried
  | @handled r now a m _ handled =>
    have more : w.puts ⊆ w'.puts := handled.puts ▸ List.subset_append_left _ _
    obtain ⟨own, told⟩ := react_within w'.puts now ((genuine.actors handled.before).mono more)
      (fun version member => more (genuine.letters (.inl handled.first) version member))
      (fun version member => handled.puts ▸ List.mem_append_right _ member)
    refine ⟨sane, ?_, ?_⟩
    · intro x b here
      rw [handled.actor] at here
      split at here
      · cases here
        exact own
      · exact (genuine.actors here).mono more
    · intro x y coming
      rcases handled.coming coming with old | ⟨send, member, letter⟩
      · exact fun version spread => more (genuine.letters old version spread)
      · have versions := told send member
        rwa [letter] at versions
  | hired hired =>
    refine ⟨sane, ?_, ?_⟩
    · intro x b here
      rw [actor, hired.running] at here
      split at here
      · cases here
        rintro k content (none | none) <;> cases none
      · exact hired.puts ▸ genuine.actors here
    · intro x y coming
      rw [hired.puts]
      rcases (hired.coming genuine.sane).mp coming with old | told
      · exact genuine.letters old
      · rw [hired.tells, introductions, List.mem_append] at told
        rcases told with intro | intro
        · obtain ⟨ref, -, same⟩ := List.mem_map.mp intro
          cases same
          simp [Msg.versions]
        · obtain ⟨ref, -, same⟩ := List.mem_map.mp intro
          cases same
          simp [Msg.versions]

end World

/-- Every value in a reply was put under its key. -/
def WasPut (puts : List (String × Content)) : Args → Reply → Prop
  | .get key, .get value true => ∃ content, (key, content) ∈ puts ∧ content.value = value
  | .list _, .list entries => ∀ key value, entries.lookup key = some value →
    ∃ content, (key, content) ∈ puts ∧ content.value = value
  | _, _ => True

/-- With any number of servers, in any run and at any time, every replica replies to a Get or a List with
values only that have been put under their keys, here or elsewhere. -/
theorem replies_were_put (actions : List Action) (w : World)
    (reached : run step newWorld actions = some w) (ref : ActorRef) (actor : QueryActor)
    (here : w.actor ref = some actor) (args : Args) (now : Nat) (chanRef : ActorRef) :
    ∃ m reply, (actor.react now (args.message chanRef)).2 = [.tell chanRef m] ∧
      args.reply m = some reply ∧ WasPut w.puts args reply := by
  have genuine : w.Genuine :=
    run_keeps World.Genuine (fun _ _ _ genuine taken => genuine.next taken) World.genuine_new actions
      reached
  have put : ∀ key value, actor.values key = some value →
      ∃ content, (key, content) ∈ w.puts ∧ content.value = value := by
    intro key value stored
    obtain ⟨content, found, same⟩ := Option.map_eq_some_iff.mp stored
    exact ⟨content, genuine.actors here key content (.inl found), same⟩
  obtain ⟨m, reply, told, typed, answers⟩ := react_request actor now args chanRef
  refine ⟨m, reply, told, typed, ?_⟩
  unfold WasPut
  split
  · rename_i key value
    obtain ⟨same, found⟩ := answers
    obtain ⟨value', stored⟩ := Option.isSome_iff_exists.mp found.symm
    rw [stored] at same
    exact put key value (same ▸ stored)
  · intro key value listed
    rw [answers key] at listed
    split at listed
    · exact put key value listed
    · cases listed
  · trivial

/-- The other server has the value that was put at the first one. -/
theorem remote_reply_was_put : ∃ w actor, run step newWorld twoServers = some w ∧
    w.actor ⟨"localhost:9010", 0⟩ = some actor ∧ actor.values "k" = some "v" ∧
    ∃ m reply, (actor.react 8 (Args.message (.get "k") ⟨"localhost:9010", 1⟩)).2 =
      [.tell ⟨"localhost:9010", 1⟩ m] ∧ Args.reply (.get "k") m = some reply ∧
      WasPut w.puts (.get "k") reply := by
  obtain ⟨w, reached, actor, here, value⟩ : ∃ w, run step newWorld twoServers = some w ∧
      ∃ actor, w.actor ⟨"localhost:9010", 0⟩ = some actor ∧ actor.values "k" = some "v" :=
    ⟨_, rfl, _, rfl, by decide⟩
  exact ⟨w, actor, reached, here, value,
    replies_were_put twoServers w reached _ actor here (.get "k") 8 ⟨"localhost:9010", 1⟩⟩

end DistSys.Kv
