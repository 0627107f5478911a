import DistSys.Lib.Runs

/-! Goroutines that meet at unbuffered channels. Which sender meets which receiver is a choice of
the scheduler. -/
namespace DistSys.Lib

/-- The value that a goroutine waits to send, the state after it was taken, and the state after a
goroutine that waits for such a value has received it. The value says which channel it is on. -/
structure Rendezvous (G M S : Type) where
  offers : S → G → Option M
  sent : S → G → S
  receives : S → G → M → Option S

namespace Rendezvous

variable {G M S A : Type} [DecidableEq G] {r : Rendezvous G M S} {step : S → A → Option S}

def meet (r : Rendezvous G M S) (s : S) (sender receiver : G) : Option S :=
  if sender = receiver then none
  else (r.offers s sender).bind (r.receives (r.sent s sender) receiver)

theorem meet_cases {s s' : S} {sender receiver : G} (met : r.meet s sender receiver = some s') :
    sender ≠ receiver ∧ ∃ m, r.offers s sender = some m ∧
      r.receives (r.sent s sender) receiver m = some s' := by
  unfold meet at met
  split at met
  · contradiction
  · rename_i two
    exact ⟨two, Option.bind_eq_some_iff.mp met⟩

theorem meets {s s' : S} {sender receiver : G} {m : M} (two : sender ≠ receiver)
    (offered : r.offers s sender = some m)
    (received : r.receives (r.sent s sender) receiver m = some s') :
    r.meet s sender receiver = some s' := by
  simp [meet, two, offered, received]

omit [DecidableEq G] in
/-- The goroutine waits to send, now and in every later state. -/
def BlockedForever (r : Rendezvous G M S) (step : S → A → Option S) (s : S) (g : G) : Prop :=
  ∀ acts t, run step s acts = some t → (r.offers t g).isSome

omit [DecidableEq G] in
theorem blockedForever_of_keeps {s : S} {g : G} (inv : S → Prop)
    (keeps : ∀ s a t, inv s → step s a = some t → inv t)
    (waits : ∀ s, inv s → (r.offers s g).isSome) (start : inv s) : r.BlockedForever step s g := by
  intro acts t reached
  exact waits t (run_keeps inv keeps start acts reached)

end Rendezvous

end DistSys.Lib
