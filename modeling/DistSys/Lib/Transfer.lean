import Mathlib.Data.List.Infix
import Mathlib.Logic.Function.Basic
import Mathlib.Logic.Relation

/-! Numbered transfer. A sender numbers what is written; its numbered items may arrive at the
receiver at any time, any number of times and in any order, and so may the acknowledgements
on their way back. The receiver stores what is ahead, puts it in order, and acknowledges
only what it has. -/
namespace DistSys.Lib

open Function (update)

/-- `flying` and `acks` are all that was ever put on the network, `settled` is what the sender
takes for acknowledged. -/
structure Transfer (α : Type) where
  written : List α
  flying : Nat → α → Prop
  stored : Nat → Option α
  delivered : List α
  acks : Nat → Prop
  settled : Nat → Prop

namespace Transfer

variable {α : Type} {t t' : Transfer α}

def new : Transfer α where
  written := []
  flying := fun _ _ => False
  stored := fun _ => none
  delivered := []
  acks := fun _ => False
  settled := fun _ => False

def Has (t : Transfer α) (i : Nat) : Prop := i < t.delivered.length ∨ t.stored i ≠ none

/-- The receiver has put in order all it can. -/
def Drained (t : Transfer α) : Prop := t.stored t.delivered.length = none

/-- What the sender does. -/
inductive Send (t : Transfer α) : Transfer α → Prop where
  | write (a : α) : Send t { t with written := t.written ++ [a] }
  | item (i : Nat) (a : α) (numbered : t.written[i]? = some a) :
      Send t { t with flying := fun j b => t.flying j b ∨ j = i ∧ b = a }
  | settle (i : Nat) (heard : t.acks i) :
      Send t { t with settled := fun j => t.settled j ∨ j = i }

/-- What the receiver does. -/
inductive Receive (t : Transfer α) : Transfer α → Prop where
  | store (i : Nat) (a : α) (arrives : t.flying i a) (ahead : t.delivered.length ≤ i) :
      Receive t { t with stored := update t.stored i (some a) }
  | deliver (a : α) (front : t.stored t.delivered.length = some a) :
      Receive t { t with
        delivered := t.delivered ++ [a]
        stored := update t.stored t.delivered.length none }
  | ack (i : Nat) (known : t.Has i) : Receive t { t with acks := fun j => t.acks j ∨ j = i }

abbrev Sends (t t' : Transfer α) : Prop := Relation.ReflTransGen Send t t'

abbrev Receives (t t' : Transfer α) : Prop := Relation.ReflTransGen Receive t t'

/-- The receiver's part is not the sender's to change, and what is on the network stays. -/
theorem Sends.frame (sends : Sends t t') :
    t'.delivered = t.delivered ∧ t'.stored = t.stored ∧ t'.acks = t.acks ∧
      ∀ i a, t.flying i a → t'.flying i a := by
  induction sends with
  | refl => exact ⟨rfl, rfl, rfl, fun _ _ fly => fly⟩
  | tail _ send ih =>
    obtain ⟨delivered, stored, acks, flying⟩ := ih
    cases send with
    | write => exact ⟨delivered, stored, acks, flying⟩
    | item => exact ⟨delivered, stored, acks, fun i a fly => .inl (flying i a fly)⟩
    | settle => exact ⟨delivered, stored, acks, flying⟩

theorem Receives.frame (receives : Receives t t') :
    t'.written = t.written ∧ t'.flying = t.flying ∧ t'.settled = t.settled ∧
      ∀ i, t.acks i → t'.acks i := by
  induction receives with
  | refl => exact ⟨rfl, rfl, rfl, fun _ acked => acked⟩
  | tail _ receive ih =>
    obtain ⟨written, flying, settled, acks⟩ := ih
    cases receive with
    | store | deliver => exact ⟨written, flying, settled, acks⟩
    | ack => exact ⟨written, flying, settled, fun i acked => .inl (acks i acked)⟩

structure Sound (t : Transfer α) : Prop where
  flying : ∀ i a, t.flying i a → t.written[i]? = some a
  stored : ∀ i a, t.stored i = some a → t.written[i]? = some a
  delivered : t.delivered <+: t.written
  acks : ∀ i, t.acks i → t.Has i
  settled : ∀ i, t.settled i → t.acks i

theorem sound_new : Sound (new : Transfer α) :=
  ⟨nofun, nofun, List.nil_prefix, nofun, nofun⟩

theorem front_append {xs ys : List α} {a : α} (front : xs <+: ys)
    (next : ys[xs.length]? = some a) : xs ++ [a] <+: ys := by
  obtain ⟨rest, rfl⟩ := front
  rw [List.getElem?_append_right (Nat.le_refl _), Nat.sub_self] at next
  cases rest with
  | nil => simp at next
  | cons b rest =>
    cases Option.some.inj next
    exact ⟨rest, by simp⟩

theorem Sound.send (h : Sound t) (send : Send t t') : Sound t' := by
  cases send with
  | write a =>
    have longer : ∀ {i : Nat} {b : α}, t.written[i]? = some b →
        (t.written ++ [a])[i]? = some b := by
      intro i b there
      rw [List.getElem?_append_left (List.getElem?_eq_some_iff.mp there).1, there]
    exact ⟨fun i b fly => longer (h.flying i b fly), fun i b kept => longer (h.stored i b kept),
      h.delivered.trans (List.prefix_append _ _), h.acks, h.settled⟩
  | item i a numbered =>
    refine ⟨?_, h.stored, h.delivered, h.acks, h.settled⟩
    rintro j b (old | ⟨rfl, rfl⟩)
    · exact h.flying j b old
    · exact numbered
  | settle i heard =>
    refine ⟨h.flying, h.stored, h.delivered, h.acks, ?_⟩
    rintro j (old | rfl)
    · exact h.settled j old
    · exact heard

theorem Sound.receive (h : Sound t) (receive : Receive t t') : Sound t' := by
  cases receive with
  | store i a arrives ahead =>
    refine ⟨h.flying, ?_, h.delivered, ?_, h.settled⟩
    · intro j b kept
      by_cases here : j = i
      · subst here
        cases Option.some.inj (by simpa using kept)
        exact h.flying j a arrives
      · exact h.stored j b (by simpa [here] using kept)
    · intro j acked
      rcases h.acks j acked with done | kept
      · exact .inl done
      · right
        by_cases here : j = i
        · simp [here]
        · simpa [here] using kept
  | deliver a front =>
    refine ⟨h.flying, ?_, front_append h.delivered (h.stored _ a front), ?_, h.settled⟩
    · intro j b kept
      by_cases here : j = t.delivered.length
      · simp [here] at kept
      · exact h.stored j b (by simpa [here] using kept)
    · intro j acked
      by_cases here : j = t.delivered.length
      · exact .inl (by simp [here])
      · rcases h.acks j acked with done | kept
        · exact .inl (by simp; omega)
        · exact .inr (by simpa [here] using kept)
  | ack i known =>
    refine ⟨h.flying, h.stored, h.delivered, ?_, fun j done => .inl (h.settled j done)⟩
    rintro j (old | rfl)
    · exact h.acks j old
    · exact known

theorem Sound.sends (h : Sound t) (sends : Sends t t') : Sound t' := by
  induction sends with
  | refl => exact h
  | tail _ send ih => exact ih.send send

theorem Sound.receives (h : Sound t) (receives : Receives t t') : Sound t' := by
  induction receives with
  | refl => exact h
  | tail _ receive ih => exact ih.receive receive

/-- The sender does not take for acknowledged what the receiver waits for. -/
theorem Sound.next_open (h : Sound t) (drained : t.Drained) : ¬ t.settled t.delivered.length := by
  intro settled
  rcases h.acks _ (h.settled _ settled) with done | kept
  · exact Nat.lt_irrefl _ done
  · exact kept drained

/-- When everything that was written is settled and the receiver has put in order all it can,
everything has been delivered. -/
theorem Sound.complete (h : Sound t) (drained : t.Drained)
    (all : ∀ i < t.written.length, t.settled i) : t.delivered = t.written := by
  refine h.delivered.eq_of_length_le (Nat.le_of_not_lt fun short => ?_)
  exact h.next_open drained (all t.delivered.length short)

end Transfer

end DistSys.Lib
