import Mathlib.Logic.Function.Basic
import Mathlib.Logic.Relation
import Mathlib.Order.Lattice

/-! Replicas of one register that gossip. A replica takes over every version that is newer than
its own and keeps it marked until it has passed it on to the replicas that it knows. When nothing
is marked and nothing is on its way, a version that one replica holds is held, or superseded, at
every replica to which there is a way. -/
namespace DistSys.Lib

open Function (update)

/-- `transit n v`: a version is on its way to a replica. `edge n m`: a replica passes on what it
takes over. `latest` is the last version that was written anywhere. -/
@[ext] structure Gossip (N V : Type) where
  held : N → Option V
  fresh : N → Option V
  transit : N → V → Prop
  edge : N → N → Prop
  latest : Option V

namespace Gossip

variable {N V L : Type} [LinearOrder L] {stamp : V → L} {g g' : Gossip N V}

def new : Gossip N V where
  held := fun _ => none
  fresh := fun _ => none
  transit := fun _ _ => False
  edge := fun _ _ => False
  latest := none

/-- The versions that are not forgotten. -/
def Has (g : Gossip N V) (v : V) : Prop := (∃ n, g.held n = some v) ∨ ∃ n, g.transit n v

variable (stamp) in
/-- A version is known at a replica or superseded there. -/
def Knows (g : Gossip N V) (n : N) (v : V) : Prop := ∃ u, g.held n = some u ∧ stamp v ≤ stamp u

variable (stamp) in
structure Sound (g : Gossip N V) : Prop where
  flows : ∀ {n m}, g.edge n m → ∀ {v}, g.held n = some v →
    g.Knows stamp m v ∨ g.fresh n = some v ∨ g.transit m v
  fresh : ∀ {n v}, g.fresh n = some v → g.held n = some v
  distinct : ∀ {u v}, g.Has u → g.Has v → stamp u = stamp v → u = v
  latest : ∀ {u}, g.Has u → ∃ l, g.latest = some l ∧ (u = l ∨ stamp u < stamp l)
  kept : ∀ {l}, g.latest = some l → ∃ n, g.held n = some l

theorem sound_new : (new : Gossip N V).Sound stamp where
  flows := by
    intro n m none
    exact none.elim
  fresh := by
    intro n v none
    cases none
  distinct := by
    rintro u v (⟨_, none⟩ | ⟨_, none⟩)
    · cases none
    · exact none.elim
  latest := by
    rintro u (⟨_, none⟩ | ⟨_, none⟩)
    · cases none
    · exact none.elim
  kept := by
    intro l none
    cases none

/-- Only what is on its way, marked or connected changes, and no version comes back. -/
theorem Sound.change (sound : g.Sound stamp) (held : g'.held = g.held) (last : g'.latest = g.latest)
    (flows : ∀ {n m}, g'.edge n m → ∀ {v}, g.held n = some v →
      g.Knows stamp m v ∨ g'.fresh n = some v ∨ g'.transit m v)
    (fresh : ∀ {n v}, g'.fresh n = some v → g.fresh n = some v)
    (transit : ∀ {n v}, g'.transit n v → g.Has v) : Sound stamp g' := by
  have has : ∀ {u}, g'.Has u → g.Has u := by
    rintro u (⟨m, here⟩ | ⟨m, here⟩)
    · exact .inl ⟨m, held ▸ here⟩
    · exact transit here
  constructor
  · intro n m edge v here
    rw [Knows, held]
    exact flows edge (held ▸ here)
  · exact fun here => held ▸ sound.fresh (fresh here)
  · exact fun one two => sound.distinct (has one) (has two)
  · exact fun here => last ▸ sound.latest (has here)
  · exact fun here => held ▸ sound.kept (last ▸ here)

/-- Nothing is marked and nothing is on its way. -/
structure Settled (g : Gossip N V) : Prop where
  fresh : ∀ n, g.fresh n = none
  transit : ∀ n v, ¬g.transit n v

theorem Sound.along (sound : g.Sound stamp) (settled : g.Settled) {n m : N}
    (path : Relation.ReflTransGen g.edge n m) {v : V} (held : g.held n = some v) :
    g.Knows stamp m v := by
  induction path with
  | refl => exact ⟨v, held, le_rfl⟩
  | @tail a b _ edge ih =>
    obtain ⟨u, here, le⟩ := ih
    rcases sound.flows edge here with ⟨u', there, le'⟩ | fresh | coming
    · exact ⟨u', there, le.trans le'⟩
    · cases (settled.fresh a).symm.trans fresh
    · exact absurd coming (settled.transit b u)

/-- Two replicas with a way from each to the other. -/
theorem Sound.agree (sound : g.Sound stamp) (settled : g.Settled) {n m : N}
    (there : Relation.ReflTransGen g.edge n m) (back : Relation.ReflTransGen g.edge m n) :
    g.held n = g.held m := by
  cases one : g.held n with
  | none =>
    cases two : g.held m with
    | none => rfl
    | some v =>
      obtain ⟨u, held, _⟩ := sound.along settled back two
      cases one.symm.trans held
  | some v =>
    obtain ⟨u, held, le⟩ := sound.along settled there one
    obtain ⟨v', held', ge⟩ := sound.along settled back held
    cases one.symm.trans held'
    rw [held, sound.distinct (.inl ⟨n, one⟩) (.inl ⟨m, held⟩) (le_antisymm le ge)]

/-- With a way from every replica, a replica holds what was written last. -/
theorem Sound.reached (sound : g.Sound stamp) (settled : g.Settled) {m : N}
    (ways : ∀ n v, g.held n = some v → Relation.ReflTransGen g.edge n m) :
    g.held m = g.latest := by
  cases last : g.latest with
  | none =>
    cases held : g.held m with
    | none => rfl
    | some v =>
      obtain ⟨l, some, _⟩ := sound.latest (.inl ⟨m, held⟩)
      cases last.symm.trans some
  | some l =>
    obtain ⟨n, held⟩ := sound.kept last
    obtain ⟨u, there, le⟩ := sound.along settled (ways n l held) held
    obtain ⟨l', last', eq | lt⟩ := sound.latest (.inl ⟨m, there⟩)
    · cases last.symm.trans last'
      rw [there, eq]
    · cases last.symm.trans last'
      exact absurd le lt.not_ge

/-! ### The moves -/

variable [DecidableEq N]

def store (g : Gossip N V) (n : N) (v : V) : Gossip N V :=
  { g with
    held := update g.held n (some v)
    fresh := update g.fresh n (some v) }

/-- What a replica does, in the order of the stamps. -/
inductive Move (stamp : V → L) (g : Gossip N V) : Gossip N V → Prop where
  | write (n : N) (v : V) (newer : ∀ u, g.Has u → stamp u < stamp v) :
    Move stamp g { g.store n v with latest := some v }
  | adopt (n : N) (v : V) (arrives : g.transit n v)
      (newer : ∀ u, g.held n = some u → stamp u < stamp v) : Move stamp g (g.store n v)
  | forget (n : N) (v : V) (transit : N → V → Prop)
      (known : ∃ u, g.held n = some u ∧ stamp v ≤ stamp u)
      (less : ∀ m u, transit m u → g.transit m u)
      (others : ∀ m u, g.transit m u → transit m u ∨ m = n ∧ u = v) :
    Move stamp g { g with transit := transit }
  | flush (n : N) (targets : N → Prop) (all : ∀ m, g.edge n m → targets m) : Move stamp g { g with
      fresh := update g.fresh n none
      transit := fun m u => g.transit m u ∨ targets m ∧ g.fresh n = some u }
  | copy (n : N) (targets : N → Prop) : Move stamp g { g with
      transit := fun m u => g.transit m u ∨ targets m ∧ g.held n = some u }
  | link (n : N) (targets : N → Prop) (told : ∀ v, g.held n = some v → g.fresh n = some v) :
    Move stamp g { g with edge := fun a b => g.edge a b ∨ a = n ∧ targets b }

abbrev Moves (stamp : V → L) : Gossip N V → Gossip N V → Prop :=
  Relation.ReflTransGen (Move stamp)

theorem held_store {n m : N} {v : V} :
    (g.store n v).held m = if m = n then some v else g.held m := by
  simp only [store, Function.update_apply]

theorem fresh_store {n m : N} {v : V} :
    (g.store n v).fresh m = if m = n then some v else g.fresh m := by
  simp only [store, Function.update_apply]

/-- Storing a newer version loses no knowledge. -/
theorem Knows.store {n m : N} {v w : V} (newer : ∀ u, g.held n = some u → stamp u < stamp v)
    (knows : g.Knows stamp m w) : (g.store n v).Knows stamp m w := by
  obtain ⟨u, held, le⟩ := knows
  by_cases same : m = n
  · subst same
    exact ⟨v, by rw [held_store, if_pos rfl], le.trans (newer u held).le⟩
  · exact ⟨u, by rw [held_store, if_neg same, held], le⟩

theorem Sound.flows_store (sound : g.Sound stamp) {n : N} {v : V}
    (newer : ∀ u, g.held n = some u → stamp u < stamp v) {a b : N} (edge : g.edge a b) {w : V}
    (held : (g.store n v).held a = some w) :
    (g.store n v).Knows stamp b w ∨ (g.store n v).fresh a = some w ∨ g.transit b w := by
  by_cases same : a = n
  · subst same
    rw [held_store, if_pos rfl] at held
    exact .inr (.inl (by rw [fresh_store, if_pos rfl, held]))
  · rw [held_store, if_neg same] at held
    rw [fresh_store, if_neg same]
    exact (sound.flows edge held).imp_left fun knows => knows.store newer

theorem Sound.fresh_stored (sound : g.Sound stamp) {n m : N} {v w : V}
    (fresh : (g.store n v).fresh m = some w) : (g.store n v).held m = some w := by
  rw [fresh_store] at fresh
  rw [held_store]
  split
  · rename_i same
    rw [if_pos same] at fresh
    exact fresh
  · rename_i other
    rw [if_neg other] at fresh
    exact sound.fresh fresh

theorem Sound.write (sound : g.Sound stamp) {n : N} {v : V}
    (newer : ∀ u, g.Has u → stamp u < stamp v) :
    Sound stamp { g.store n v with latest := some v } := by
  have has : ∀ {u}, ({ g.store n v with latest := some v } : Gossip N V).Has u →
      u = v ∨ g.Has u := by
    rintro u (⟨m, held⟩ | ⟨m, transit⟩)
    · rw [held_store] at held
      split at held
      · exact .inl (Option.some.inj held).symm
      · exact .inr (.inl ⟨m, held⟩)
    · exact .inr (.inr ⟨m, transit⟩)
  constructor
  · intro a b edge w held
    exact sound.flows_store (fun u held => newer u (.inl ⟨n, held⟩)) edge held
  · exact fun fresh => sound.fresh_stored fresh
  · intro u w one two same
    rcases has one with rfl | one
    · rcases has two with rfl | two
      · rfl
      · exact absurd same (newer w two).ne'
    · rcases has two with rfl | two
      · exact absurd same (newer u ‹g.Has u›).ne
      · exact sound.distinct ‹g.Has u› ‹g.Has w› same
  · intro u here
    exact ⟨v, rfl, (has here).imp_right (newer u)⟩
  · intro l same
    cases same
    exact ⟨n, by rw [held_store, if_pos rfl]⟩

theorem Sound.adopt (sound : g.Sound stamp) {n : N} {v : V} (arrives : g.transit n v)
    (newer : ∀ u, g.held n = some u → stamp u < stamp v) : Sound stamp (g.store n v) := by
  have has : ∀ {u}, (g.store n v).Has u → g.Has u := by
    rintro u (⟨m, held⟩ | ⟨m, transit⟩)
    · rw [held_store] at held
      split at held
      · exact Option.some.inj held ▸ .inr ⟨n, arrives⟩
      · exact .inl ⟨m, held⟩
    · exact .inr ⟨m, transit⟩
  refine ⟨fun edge _ held => sound.flows_store newer edge held,
    fun fresh => sound.fresh_stored fresh, fun one two => sound.distinct (has one) (has two),
    fun here => sound.latest (has here), ?_⟩
  intro l last
  obtain ⟨m, held⟩ := sound.kept last
  by_cases same : m = n
  · -- what is adopted is the last version or an older one, and newer than the last
    subst same
    obtain ⟨l', last', eq | lt⟩ := sound.latest (.inr ⟨m, arrives⟩)
    · cases last.symm.trans last'
      exact ⟨m, by rw [held_store, if_pos rfl, eq]⟩
    · cases last.symm.trans last'
      exact absurd (newer l held) lt.asymm
  · exact ⟨m, by rw [held_store, if_neg same, held]⟩

theorem Sound.move (sound : g.Sound stamp) (move : Move stamp g g') : g'.Sound stamp := by
  cases move with
  | write n v newer => exact sound.write newer
  | adopt n v arrives newer => exact sound.adopt arrives newer
  | forget n v transit known less others =>
    refine sound.change rfl rfl ?_ id fun here => .inr ⟨_, less _ _ here⟩
    intro a b edge w held
    rcases sound.flows edge held with knows | fresh | coming
    · exact .inl knows
    · exact .inr (.inl fresh)
    · rcases others b w coming with still | ⟨rfl, rfl⟩
      · exact .inr (.inr still)
      · exact .inl known
  | flush n targets all =>
    refine sound.change rfl rfl ?_ ?_ ?_
    · intro a b edge w held
      rcases sound.flows edge held with knows | fresh | coming
      · exact .inl knows
      · by_cases same : a = n
        · subst same
          exact .inr (.inr (.inr ⟨all b edge, fresh⟩))
        · right
          left
          dsimp only
          rw [Function.update_of_ne same, fresh]
      · exact .inr (.inr (.inl coming))
    · intro m v fresh
      dsimp only at fresh
      rw [Function.update_apply] at fresh
      split at fresh
      · cases fresh
      · exact fresh
    · rintro m v (coming | ⟨_, fresh⟩)
      · exact .inr ⟨m, coming⟩
      · exact .inl ⟨n, sound.fresh fresh⟩
  | copy n targets =>
    refine sound.change rfl rfl ?_ id ?_
    · intro a b edge w held
      exact (sound.flows edge held).imp_right fun either => either.imp_right .inl
    · rintro m v (coming | ⟨_, held⟩)
      · exact .inr ⟨m, coming⟩
      · exact .inl ⟨n, held⟩
  | link n targets told =>
    refine sound.change rfl rfl ?_ id fun here => .inr ⟨_, here⟩
    rintro a b (edge | ⟨rfl, _⟩) w held
    · exact sound.flows edge held
    · exact .inr (.inl (told w held))

theorem Sound.moves (sound : g.Sound stamp) (moves : Moves stamp g g') : g'.Sound stamp := by
  induction moves with
  | refl => exact sound
  | tail _ move ih => exact ih.move move

end Gossip

end DistSys.Lib
