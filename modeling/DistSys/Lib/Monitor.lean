import Mathlib.Data.List.Basic

/-! A mutex with one condition variable. A locked section is one operation; a call that has to wait
ends its section in the list of waiters, and goes on in another section after it was woken. Other
threads may come in between. -/
namespace DistSys.Lib

/-- `woken` are the threads that were signalled and have not taken the lock again. -/
structure Monitor (T S : Type) where
  shared : S
  waiting : List T
  woken : List T
  deriving DecidableEq, Repr

namespace Monitor

variable {T S : Type} {m m' : Monitor T S} {s : S} {t : T} {i : Nat}
  {need : S → Nat} {body : S → Option S}

def new (s : S) : Monitor T S := ⟨s, [], []⟩

/-- A thread inside a call begins no other one. -/
def busy [DecidableEq T] (m : Monitor T S) (t : T) : Bool := t ∈ m.waiting || t ∈ m.woken

/-- One waiter is woken if there is one; the environment chooses which. -/
def signal (m : Monitor T S) (i : Nat) : Option (Monitor T S) :=
  if m.waiting.isEmpty then some m
  else (m.waiting[i]?).map fun t =>
    { m with waiting := m.waiting.eraseIdx i, woken := m.woken ++ [t] }

def broadcast (m : Monitor T S) : Monitor T S :=
  { m with waiting := [], woken := m.woken ++ m.waiting }

/-- The loop around Wait, from a test of its condition on: the body runs, or the thread waits. -/
def attempt (m : Monitor T S) (body : S → Option S) (t : T) : Monitor T S :=
  match body m.shared with
  | some s => { m with shared := s }
  | none => { m with waiting := m.waiting ++ [t] }

/-- A woken thread takes the lock again. -/
def retake [DecidableEq T] (m : Monitor T S) (t : T) : Option (Monitor T S) :=
  if t ∈ m.woken then some { m with woken := m.woken.erase t } else none

/-- While a thread waits, there are at least as many woken ones as are needed. -/
def Served (need : S → Nat) (m : Monitor T S) : Prop :=
  m.waiting ≠ [] → need m.shared ≤ m.woken.length

theorem signal_shared (signalled : m.signal i = some m') : m'.shared = m.shared := by
  unfold signal at signalled
  split at signalled
  · cases signalled
    rfl
  · obtain ⟨_, _, rfl⟩ := Option.map_eq_some_iff.mp signalled
    rfl

theorem retake_eq [DecidableEq T] (back : m.retake t = some m') :
    t ∈ m.woken ∧ m'.shared = m.shared ∧ m'.waiting = m.waiting := by
  unfold retake at back
  split at back
  · rename_i woken
    cases back
    exact ⟨woken, rfl, rfl⟩
  · cases back

theorem Served.signal (served : m.Served need) (more : need s ≤ need m.shared + 1)
    (signalled : signal { m with shared := s } i = some m') : m'.Served need := by
  unfold Monitor.signal at signalled
  split at signalled
  · rename_i none
    cases signalled
    intro waits
    exact absurd (List.isEmpty_iff.mp none) waits
  · rename_i some
    have waited : m.waiting ≠ [] := fun none => some (List.isEmpty_iff.mpr none)
    obtain ⟨_, _, rfl⟩ := Option.map_eq_some_iff.mp signalled
    intro _
    have before := served waited
    simp only [List.length_append, List.length_singleton]
    omega

theorem served_broadcast : (m.broadcast).Served need := by
  intro waits
  exact absurd rfl waits

/-- A thread that was not woken makes the test. -/
theorem Served.attempt (served : m.Served need)
    (takes : ∀ {s}, body m.shared = some s → need s ≤ need m.shared)
    (blocks : body m.shared = none → need m.shared = 0) : (m.attempt body t).Served need := by
  unfold Monitor.attempt
  split
  · rename_i runs
    intro waits
    exact Nat.le_trans (takes runs) (served waits)
  · rename_i stuck
    intro _
    exact Nat.le_trans (Nat.le_of_eq (blocks stuck)) (Nat.zero_le _)

/-- A woken thread makes the test again: it takes what it was woken for, or another thread has. -/
theorem Served.retake [DecidableEq T] (served : m.Served need) (back : m.retake t = some m')
    (takes : ∀ {s}, body m.shared = some s → need s ≤ need m.shared - 1)
    (blocks : body m.shared = none → need m.shared = 0) : (m'.attempt body t).Served need := by
  unfold Monitor.retake at back
  split at back
  · rename_i woken
    cases back
    unfold Monitor.attempt
    split
    · rename_i runs
      intro waits
      have before := served waits
      have less := takes runs
      have length : (m.woken.erase t).length = m.woken.length - 1 := List.length_erase_of_mem woken
      simp only [length]
      omega
    · rename_i stuck
      intro _
      exact Nat.le_trans (Nat.le_of_eq (blocks stuck)) (Nat.zero_le _)
  · cases back

end Monitor

end DistSys.Lib
