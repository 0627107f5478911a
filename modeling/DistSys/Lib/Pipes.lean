import Mathlib.Data.List.Infix

/-! A pipe of queues, the one nearest to the receiver first. Each queue is first in, first out; it
may be shut, and what comes to a queue that is shut is lost. However the queues are shut, the
receiver gets a beginning of what was sent. -/
namespace DistSys.Lib

/-- A queue of the pipe. -/
structure Stage (α : Type) where
  queue : List α
  shut : Bool

variable {α : Type} {rest rest' : List (Stage α)} {got sent sent' queue : List α} {shut : Bool}
variable {x : α}

/-- `sent` has gone into the pipe and `got` has come out of it: what is missing stands in the
queues or was lost at a queue that is shut. -/
def Feeds : List (Stage α) → List α → List α → Prop
  | [], got, sent => got = sent
  | stage :: rest, got, sent =>
    ∃ lost, (lost = [] ∨ stage.shut = true) ∧ Feeds rest (got ++ stage.queue ++ lost) sent

/-- What comes to a queue. -/
def Stage.push (stage : Stage α) (x : α) : Stage α :=
  if stage.shut then stage else { stage with queue := stage.queue ++ [x] }

theorem Feeds.new (stages : List (Stage α)) (empty : ∀ stage ∈ stages, stage.queue = []) :
    Feeds stages [] [] := by
  induction stages with
  | nil => rfl
  | cons stage rest ih =>
    refine ⟨[], .inl rfl, ?_⟩
    rw [empty stage List.mem_cons_self]
    exact ih fun stage member => empty stage (List.mem_cons_of_mem _ member)

theorem Feeds.beginning {stages : List (Stage α)} (feeds : Feeds stages got sent) :
    got <+: sent := by
  induction stages generalizing got with
  | nil => exact feeds ▸ List.prefix_rfl
  | cons stage rest ih =>
    obtain ⟨lost, _, further⟩ := feeds
    rw [List.append_assoc] at further
    exact (List.prefix_append _ _).trans (ih further)

/-- A change further up the pipe. -/
theorem Feeds.upstream {stage : Stage α} (feeds : Feeds (stage :: rest) got sent)
    (change : ∀ got, Feeds rest got sent → Feeds rest' got sent') :
    Feeds (stage :: rest') got sent' := by
  obtain ⟨lost, cause, further⟩ := feeds
  exact ⟨lost, cause, change _ further⟩

theorem Feeds.take (feeds : Feeds (⟨x :: queue, shut⟩ :: rest) got sent) :
    Feeds (⟨queue, shut⟩ :: rest) (got ++ [x]) sent := by
  obtain ⟨lost, cause, further⟩ := feeds
  exact ⟨lost, cause, by simpa using further⟩

/-- What comes to a queue that is shut is lost for good: nothing is put behind it. -/
theorem Feeds.arrive {stage : Stage α}
    (feeds : ∃ lost, (lost = [] ∨ stage.shut = true) ∧
      Feeds rest (got ++ stage.queue ++ lost ++ [x]) sent) :
    Feeds (stage.push x :: rest) got sent := by
  obtain ⟨lost, cause, further⟩ := feeds
  unfold Stage.push
  split
  · rename_i isShut
    exact ⟨lost ++ [x], .inr isShut, by simpa using further⟩
  · rename_i isOpen
    have none : lost = [] := cause.resolve_right isOpen
    subst none
    exact ⟨[], .inl rfl, by simpa using further⟩

/-- The first of a queue goes on to the next one. -/
theorem Feeds.pass {stage : Stage α} (feeds : Feeds (stage :: ⟨x :: queue, shut⟩ :: rest) got sent) :
    Feeds (stage.push x :: ⟨queue, shut⟩ :: rest) got sent := by
  obtain ⟨lost, cause, further⟩ := feeds
  exact Feeds.arrive ⟨lost, cause, further.take⟩

/-- One more is sent into the last queue. -/
theorem Feeds.send {stage : Stage α} (feeds : Feeds [stage] got sent) :
    Feeds [stage.push x] got (sent ++ [x]) := by
  obtain ⟨lost, cause, rfl⟩ := feeds
  exact Feeds.arrive ⟨lost, cause, rfl⟩

/-- A queue that stays as it is or is shut. -/
inductive Stage.Shuts (stage : Stage α) : Stage α → Prop where
  | same : Shuts stage stage
  | shut : Shuts stage { stage with shut := true }

/-- However many queues of the pipe are shut, what was lost before is still accounted for. -/
theorem Feeds.shuts {stages stages' : List (Stage α)} (shut : List.Forall₂ Stage.Shuts stages stages')
    (feeds : Feeds stages got sent) : Feeds stages' got sent := by
  induction shut generalizing got with
  | nil => exact feeds
  | cons first _ ih =>
    obtain ⟨lost, cause, further⟩ := feeds
    cases first with
    | same => exact ⟨lost, cause, ih further⟩
    | shut => exact ⟨lost, .inr rfl, ih further⟩

end DistSys.Lib
