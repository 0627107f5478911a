import Mathlib.Data.Fintype.Card
import Mathlib.Data.Finset.Card

/-! Voting by terms. A voter holds a term and at most one choice in it; `cast` is the
record of the votes given so far. Nothing here knows what the vote is about. -/
namespace DistSys.Lib

variable {N : Type}

def Majority [Fintype N] (s : Finset N) : Prop := Fintype.card N < 2 * s.card

theorem Majority.common [Fintype N] [DecidableEq N] {s t : Finset N} (hs : Majority s)
    (ht : Majority t) : ∃ v, v ∈ s ∧ v ∈ t := by
  have crowded : (Finset.univ : Finset N).card < s.card + t.card := by
    unfold Majority at hs ht
    rw [Finset.card_univ]
    omega
  obtain ⟨v, hv⟩ := Finset.inter_nonempty_of_card_lt_card_add_card
    (Finset.subset_univ s) (Finset.subset_univ t) crowded
  exact ⟨v, Finset.mem_inter.mp hv⟩

theorem mapM_count {α β : Type} [DecidableEq α] {f : α → Option β} (passes : β → Bool)
    {xs : List α} {ys : List β} (distinct : xs.Nodup) (read : xs.mapM f = some ys) :
    ∃ s : Finset α, s.card = (ys.filter passes).length ∧
      ∀ v ∈ s, v ∈ xs ∧ ∃ y, f v = some y ∧ passes y = true := by
  induction xs generalizing ys with
  | nil =>
    cases Option.some.inj (by simpa using read)
    exact ⟨∅, rfl, nofun⟩
  | cons x xs ih =>
    obtain ⟨fresh, distinct⟩ := List.nodup_cons.mp distinct
    simp only [List.mapM_cons, Option.bind_eq_bind, Option.bind_eq_some_iff, Option.pure_def,
      Option.some.injEq] at read
    obtain ⟨y, at_x, ys, rest, rfl⟩ := read
    obtain ⟨s, count, members⟩ := ih distinct rest
    have later : ∀ v ∈ s, v ∈ x :: xs ∧ ∃ y, f v = some y ∧ passes y = true :=
      fun v there => ⟨List.mem_cons_of_mem _ (members v there).1, (members v there).2⟩
    by_cases good : passes y = true
    · have absent : x ∉ s := fun there => fresh (members x there).1
      refine ⟨insert x s, ?_, ?_⟩
      · rw [Finset.card_insert_of_notMem absent, List.filter_cons_of_pos good, List.length_cons,
          count]
      · intro v there
        rcases Finset.mem_insert.mp there with rfl | old
        · exact ⟨List.mem_cons_self, y, at_x, good⟩
        · exact later v old
    · exact ⟨s, by rw [List.filter_cons_of_neg good, count], later⟩

structure Ballots (N : Type) where
  term : N → Nat
  choice : N → Option N
  cast : N → Nat → N → Prop

/-- What one step may do: terms do not go back, a choice stands while its term does, and
a new vote is the choice of the voter's term. -/
structure Ballots.Next (b b' : Ballots N) : Prop where
  term_le : ∀ v, b.term v ≤ b'.term v
  stands : ∀ v x, b'.term v = b.term v → b.choice v = some x → b'.choice v = some x
  kept : ∀ v t x, b.cast v t x → b'.cast v t x
  fresh : ∀ v t x, b'.cast v t x → b.cast v t x ∨ (t = b'.term v ∧ b'.choice v = some x)

structure Ballots.Sound (b : Ballots N) : Prop where
  bound : ∀ v t x, b.cast v t x → t ≤ b.term v
  current : ∀ v x, b.cast v (b.term v) x → b.choice v = some x
  unique : ∀ v t x y, b.cast v t x → b.cast v t y → x = y

/-- A vote given now cannot contradict an older one of the same term: that one would still
be the voter's choice. -/
theorem Ballots.Next.sound {b b' : Ballots N} (next : b.Next b') (sound : b.Sound) : b'.Sound := by
  have old_current : ∀ v x, b.cast v (b'.term v) x → b'.choice v = some x := by
    intro v x old
    have same : b'.term v = b.term v :=
      Nat.le_antisymm (sound.bound v _ x old) (next.term_le v)
    exact next.stands v x same (sound.current v x (same ▸ old))
  have current : ∀ v x, b'.cast v (b'.term v) x → b'.choice v = some x := by
    intro v x given
    rcases next.fresh v _ x given with old | ⟨_, chosen⟩
    · exact old_current v x old
    · exact chosen
  constructor
  · intro v t x given
    rcases next.fresh v t x given with old | ⟨now, _⟩
    · exact Nat.le_trans (sound.bound v t x old) (next.term_le v)
    · exact Nat.le_of_eq now
  · exact current
  · intro v t x y hx hy
    rcases next.fresh v t x hx with oldx | ⟨now, _⟩
    · rcases next.fresh v t y hy with oldy | ⟨now, _⟩
      · exact sound.unique v t x y oldx oldy
      · subst now
        exact Option.some.inj ((current v x hx).symm.trans (current v y hy))
    · subst now
      exact Option.some.inj ((current v x hx).symm.trans (current v y hy))

/-- A majority has voted for `x` in term `t`. -/
def Ballots.Elected [Fintype N] (b : Ballots N) (t : Nat) (x : N) : Prop :=
  ∃ s : Finset N, Majority s ∧ ∀ v ∈ s, b.cast v t x

theorem Ballots.Elected.mono [Fintype N] {b b' : Ballots N} {t : Nat} {x : N}
    (kept : ∀ v t x, b.cast v t x → b'.cast v t x) (won : b.Elected t x) : b'.Elected t x := by
  obtain ⟨s, major, votes⟩ := won
  exact ⟨s, major, fun v hv => kept v t x (votes v hv)⟩

theorem Ballots.Sound.elected_unique [Fintype N] [DecidableEq N] {b : Ballots N} (sound : b.Sound)
    {t : Nat} {x y : N} (hx : b.Elected t x) (hy : b.Elected t y) : x = y := by
  obtain ⟨s, majors, votes⟩ := hx
  obtain ⟨u, majoru, votesu⟩ := hy
  obtain ⟨v, hs, hu⟩ := majors.common majoru
  exact sound.unique v t x y (votes v hs) (votesu v hu)

end DistSys.Lib
