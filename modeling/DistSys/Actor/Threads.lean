import DistSys.Actor.System
import DistSys.Lib.Monitor
import DistSys.Lib.Runs

/-! The calls of `Push`, `Pop` and `Close` by any threads, one locked section after the other. -/
namespace DistSys.Actor

open DistSys.Lib

/-- A mailbox with its mutex and its condition variable. -/
abbrev MailboxThreads (T α : Type) := Monitor T (Mailbox α)

namespace MailboxThreads

/-- `waiter`: the place of the waiter that the Signal of a Push wakes. `pop` is the first section of
a Pop, `popAgain` the one after its Wait. -/
inductive Action (T α : Type) where
  | push (t : T) (message : α) (waiter : Nat)
  | pop (t : T)
  | popAgain (t : T)
  | close (t : T)

variable {T α : Type} {t : T}

/-- What a Pop leaves of the mailbox; `none` while the loop waits. -/
def popped (mailbox : Mailbox α) : Option (Mailbox α) := mailbox.pop.map Prod.snd

/-- What a Pop returns with `ok`. -/
def popValue (mailbox : Mailbox α) : List α :=
  match mailbox.pop with
  | some (some message, _) => [message]
  | _ => []

def step [DecidableEq T] (s : MailboxThreads T α) : Action T α → Option (MailboxThreads T α)
  | .push t message waiter =>
    if s.busy t then none
    else if s.shared.isClosed then some s
    else Monitor.signal { s with shared := s.shared.push message } waiter
  | .pop t => if s.busy t then none else some (s.attempt popped t)
  | .popAgain t => (s.retake t).map fun s => s.attempt popped t
  | .close t =>
    if s.busy t then none
    else if s.shared.isClosed then some s
    else some (Monitor.broadcast { s with shared := s.shared.close })

/-- The message that a step returns to the caller of a Pop. -/
def returned (s : MailboxThreads T α) (action : Action T α) (_ : MailboxThreads T α) : List α :=
  match action with
  | .pop _ => popValue s.shared
  | .popAgain _ => popValue s.shared
  | _ => []

/-- The messages of the Pushes that come before the first Close. -/
def pushedBeforeClose : List (Action T α) → List α
  | [] => []
  | .push _ message _ :: rest => message :: pushedBeforeClose rest
  | .close _ :: _ => []
  | _ :: rest => pushedBeforeClose rest

variable {s s' : MailboxThreads T α} {action : Action T α}

/-- The sections of a Pop. -/
def Action.pops : Action T α → Bool
  | .pop _ => true
  | .popAgain _ => true
  | _ => false

theorem pushed_pops {actions : List (Action T α)} (pops : action.pops = true) :
    pushedBeforeClose (action :: actions) = pushedBeforeClose actions := by
  cases action with
  | pop t => rfl
  | popAgain t => rfl
  | push t message waiter => cases pops
  | close t => cases pops

/-! ### What a section does -/

/-- The mailbox before and after a section, and what the section returns. -/
inductive Section (s : MailboxThreads T α) (s' : MailboxThreads T α) : Action T α → Prop where
  | closed {action : Action T α} (closed : s.shared.isClosed = true)
      (shared : s'.shared = s.shared) (nothing : returned s action s' = []) : Section s s' action
  | push {t : T} {message : α} {waiter : Nat} (isOpen : s.shared.isClosed = false)
      (shared : s'.shared = ⟨s.shared.queue ++ [message], false⟩) :
      Section s s' (.push t message waiter)
  | close {t : T} (isOpen : s.shared.isClosed = false) (shared : s'.shared = s.shared.close) :
      Section s s' (.close t)
  | pop {action : Action T α} {message : α} {rest : List α} (pops : action.pops = true)
      (shared : s.shared = ⟨message :: rest, false⟩) (shared' : s'.shared = ⟨rest, false⟩)
      (value : returned s action s' = [message]) : Section s s' action
  | blocked {action : Action T α} (pops : action.pops = true)
      (shared : s'.shared = s.shared) (nothing : returned s action s' = []) : Section s s' action

theorem section_attempt {u : MailboxThreads T α} (same : u.shared = s.shared)
    (pops : action.pops = true)
    (value : returned s action (u.attempt popped t) = popValue s.shared) :
    Section s (u.attempt popped t) action := by
  obtain ⟨⟨queue, isClosed⟩, waiting, woken⟩ := s
  obtain ⟨_, waiting', woken'⟩ := u
  cases same
  cases isClosed with
  | true => exact .closed rfl rfl value
  | false =>
    cases queue with
    | nil => exact .blocked pops rfl value
    | cons message rest => exact .pop pops rfl rfl value

variable [DecidableEq T]

theorem step_section (taken : step s action = some s') : Section s s' action := by
  cases action with
  | push t message waiter =>
    simp only [step] at taken
    split at taken
    · cases taken
    · split at taken
      · rename_i closed
        cases taken
        exact .closed closed rfl rfl
      · rename_i isOpen
        have isOpen : s.shared.isClosed = false := Bool.not_eq_true _ ▸ isOpen
        refine .push isOpen ?_
        rw [Monitor.signal_shared taken]
        simp only [Mailbox.push, isOpen, Bool.false_eq_true, if_false]
  | pop t =>
    simp only [step] at taken
    split at taken
    · cases taken
    · cases taken
      exact section_attempt rfl rfl rfl
  | popAgain t =>
    obtain ⟨back, retaken, rfl⟩ := Option.map_eq_some_iff.mp taken
    exact section_attempt (Monitor.retake_eq retaken).2.1 rfl rfl
  | close t =>
    simp only [step] at taken
    split at taken
    · cases taken
    · split at taken
      · rename_i closed
        cases taken
        exact .closed closed rfl rfl
      · rename_i isOpen
        cases taken
        exact .close (Bool.not_eq_true _ ▸ isOpen) rfl

/-! ### First in, first out -/

theorem closed_step (closed : s.shared.isClosed = true) (taken : step s action = some s') :
    s'.shared = s.shared ∧ returned s action s' = [] := by
  cases step_section taken with
  | closed _ shared nothing => exact ⟨shared, nothing⟩
  | push isOpen | close isOpen => cases closed.symm.trans isOpen
  | pop _ shared =>
    rw [shared] at closed
    cases closed
  | blocked _ shared nothing => exact ⟨shared, nothing⟩

theorem close_closes (taken : step s (.close t) = some s') : s'.shared.isClosed = true := by
  cases step_section taken with
  | closed closed shared => exact (congrArg _ shared).trans closed
  | close _ shared => exact congrArg Mailbox.isClosed shared
  | pop pops => cases pops
  | blocked pops => cases pops

/-- A closed mailbox stays as it is. -/
theorem closed_run {actions : List (Action T α)} (closed : s.shared.isClosed = true)
    (reached : run step s actions = some s') :
    s'.shared = s.shared ∧ (trace step returned s actions).flatten = [] := by
  induction actions generalizing s with
  | nil =>
    cases Option.some.inj reached
    exact ⟨rfl, rfl⟩
  | cons action rest ih =>
    obtain ⟨u, taken, tail⟩ := run_first reached
    obtain ⟨same, none⟩ := closed_step closed taken
    obtain ⟨later, nothing⟩ := ih (same ▸ closed) tail
    rw [trace_cons taken, List.flatten_cons, none, nothing]
    exact ⟨later.trans same, rfl⟩

/-- What was returned and what is left are what was there and what was pushed. -/
theorem returned_run {actions : List (Action T α)} (isOpen : s.shared.isClosed = false)
    (reached : run step s actions = some s') :
    (trace step returned s actions).flatten ++ s'.shared.queue =
      s.shared.queue ++ pushedBeforeClose actions := by
  induction actions generalizing s with
  | nil =>
    cases Option.some.inj reached
    exact (List.append_nil _).symm
  | cons action rest ih =>
    obtain ⟨u, taken, tail⟩ := run_first reached
    rw [trace_cons taken, List.flatten_cons, List.append_assoc]
    cases step_section taken with
    | closed closed => cases closed.symm.trans isOpen
    | @push t message waiter _ shared =>
      have later := ih (by rw [shared]) tail
      have nothing : returned s (.push t message waiter) u = [] := rfl
      rw [later, shared, nothing, pushedBeforeClose, List.nil_append, List.append_assoc]
      rfl
    | pop pops shared shared' value =>
      have later := ih (by rw [shared']) tail
      rw [later, shared', value, shared, pushed_pops pops]
      rfl
    | blocked pops shared nothing =>
      have later := ih (by rw [shared]; exact isOpen) tail
      rw [later, shared, nothing, pushed_pops pops]
      rfl
    | close _ shared =>
      -- from here on the queue stays as it is, with what was never popped
      have closed : u.shared.isClosed = true := by
        rw [shared]
        rfl
      obtain ⟨same, nothing⟩ := closed_run closed tail
      rw [nothing, same, shared, pushedBeforeClose, List.append_nil]
      rfl

/-! ### No lost wake-ups -/

/-- The number of waiters that could go on. -/
def need (mailbox : Mailbox α) : Nat := if mailbox.isClosed then 0 else mailbox.queue.length

theorem need_popped {mailbox mailbox' : Mailbox α} (runs : popped mailbox = some mailbox') :
    need mailbox' ≤ need mailbox - 1 := by
  obtain ⟨queue, isClosed⟩ := mailbox
  cases isClosed with
  | true =>
    cases runs
    exact Nat.le_refl _
  | false =>
    cases queue with
    | nil => cases runs
    | cons message rest =>
      cases runs
      exact Nat.le_refl _

theorem need_blocked {mailbox : Mailbox α} (stuck : popped mailbox = none) :
    need mailbox = 0 ∧ mailbox.isClosed = false := by
  obtain ⟨queue, isClosed⟩ := mailbox
  cases isClosed with
  | true => cases stuck
  | false =>
    cases queue with
    | nil => exact ⟨rfl, rfl⟩
    | cons message rest => cases stuck

theorem popped_closed {mailbox mailbox' : Mailbox α} (runs : popped mailbox = some mailbox') :
    mailbox'.isClosed = mailbox.isClosed := by
  obtain ⟨queue, isClosed⟩ := mailbox
  cases isClosed with
  | true =>
    cases runs
    rfl
  | false =>
    cases queue with
    | nil => cases runs
    | cons message rest =>
      cases runs
      rfl

/-- A thread waits only for an open mailbox, and for every message a thread is woken while others
wait. -/
structure Watched (s : MailboxThreads T α) : Prop where
  isOpen : s.waiting ≠ [] → s.shared.isClosed = false
  served : s.Served need

omit [DecidableEq T] in
theorem attempt_open (isOpen : s.waiting ≠ [] → s.shared.isClosed = false) (t : T) :
    (s.attempt popped t).waiting ≠ [] → (s.attempt popped t).shared.isClosed = false := by
  unfold Monitor.attempt
  split
  · rename_i runs
    intro waits
    exact (popped_closed runs).trans (isOpen waits)
  · rename_i stuck
    intro _
    exact (need_blocked stuck).2

theorem Watched.step (watched : Watched s) (taken : step s action = some s') : Watched s' := by
  cases action with
  | push t message waiter =>
    simp only [MailboxThreads.step] at taken
    split at taken
    · cases taken
    · split at taken
      · cases taken
        exact watched
      · rename_i isOpen
        have isOpen : s.shared.isClosed = false := Bool.not_eq_true _ ▸ isOpen
        have pushed : s.shared.push message = ⟨s.shared.queue ++ [message], false⟩ := by
          simp only [Mailbox.push, isOpen, Bool.false_eq_true, if_false]
        rw [pushed] at taken
        refine ⟨fun _ => ?_, watched.served.signal ?_ taken⟩
        · rw [Monitor.signal_shared taken]
        · simp [need, isOpen]
  | pop t =>
    simp only [MailboxThreads.step] at taken
    split at taken
    · cases taken
    · cases taken
      refine ⟨attempt_open watched.isOpen t, watched.served.attempt ?_ ?_⟩
      · exact fun runs => Nat.le_trans (need_popped runs) (Nat.sub_le _ _)
      · exact fun stuck => (need_blocked stuck).1
  | popAgain t =>
    obtain ⟨back, retaken, rfl⟩ := Option.map_eq_some_iff.mp taken
    obtain ⟨_, shared, waiting⟩ := Monitor.retake_eq retaken
    refine ⟨attempt_open ?_ t, watched.served.retake retaken need_popped ?_⟩
    · rw [shared, waiting]
      exact watched.isOpen
    · exact fun stuck => (need_blocked stuck).1
  | close t =>
    simp only [MailboxThreads.step] at taken
    split at taken
    · cases taken
    · split at taken
      · cases taken
        exact watched
      · cases taken
        exact ⟨fun waits => absurd rfl waits, Monitor.served_broadcast⟩

theorem watched_run {actions : List (Action T α)}
    (reached : run step (.new .new) actions = some s) : Watched s :=
  run_keeps Watched (fun _ _ _ watched taken => watched.step taken)
    ⟨fun waits => absurd rfl waits, fun waits => absurd rfl waits⟩ actions reached

/-- A woken thread can go on. -/
theorem popAgain_enabled (woken : t ∈ s.woken) : (step s (.popAgain t)).isSome = true := by
  simp [step, Monitor.retake, woken]

/-- Messages come out in the order in which they went in, none comes out after Close, and whenever a
waiting Pop could go on, a woken one is on its way to the lock. -/
theorem mailbox_fifo (actions : List (Action T α)) (s : MailboxThreads T α)
    (reached : run step (.new .new) actions = some s) :
    (trace step returned (.new .new) actions).flatten <+: pushedBeforeClose actions ∧
    (∀ before t after, actions = before ++ .close t :: after →
      ∃ c, run step (.new .new) (before ++ [.close t]) = some c ∧
        (trace step returned c after).flatten = []) ∧
    (s.waiting ≠ [] → s.shared.queue ≠ [] ∨ s.shared.isClosed = true →
      ∃ t ∈ s.woken, (step s (.popAgain t)).isSome = true) := by
  refine ⟨⟨s.shared.queue, returned_run rfl reached⟩, ?_, ?_⟩
  · rintro before t after rfl
    obtain ⟨u, first, later⟩ := run_append.mp reached
    obtain ⟨c, closes, tail⟩ := run_first later
    refine ⟨c, run_append.mpr ⟨u, first, (run_cons closes).mpr rfl⟩, ?_⟩
    exact (closed_run (close_closes closes) tail).2
  · intro waits ready
    have watched := watched_run reached
    have isOpen := watched.isOpen waits
    have served := watched.served waits
    have queued : s.shared.queue ≠ [] := by
      rcases ready with queued | closed
      · exact queued
      · cases closed.symm.trans isOpen
    have some : 0 < s.shared.queue.length := List.length_pos_iff.mpr queued
    simp only [need, isOpen, Bool.false_eq_true, if_false] at served
    obtain ⟨t, woken⟩ := List.exists_mem_of_length_pos (Nat.lt_of_lt_of_le some served)
    exact ⟨t, woken, popAgain_enabled woken⟩

/-- Two Pops wait, two Pushes wake them, and a third Pop takes the first message before they are
back; then the mailbox is closed. -/
def stolen : List (Action Nat String) :=
  [.pop 1, .pop 2, .push 3 "a" 1, .pop 4, .push 3 "b" 0, .popAgain 2, .popAgain 1, .push 3 "c" 0,
    .close 3, .push 3 "d" 0, .popAgain 1, .pop 4]

theorem mailbox_fifo_stolen : ∃ s, run step (.new .new) stolen = some s ∧
    (trace step returned (.new .new) stolen).flatten = ["a", "b"] ∧
    (trace step returned (.new .new) stolen).flatten <+: ["a", "b", "c"] :=
  ⟨_, rfl, rfl, (mailbox_fifo stolen _ rfl).1⟩

end MailboxThreads

end DistSys.Actor
