import DistSys.Store.Server

/-! `CountActive` and `CountDropped`. Question and answer are on one channel, so that a caller that
waits for its answer can receive the question of another. -/
namespace DistSys.Store

open DistSys.Lib

variable {s s' : KeyValueServer} {a : Action} {id d : Nat} {counter counter' : Counter} {n : Nat}
  {r : KvRequest} {caller : Caller} {store : Impl}

/-! ### What other steps leave alone -/

/-- `mainRoutine` goes back to its `select` after a request, except for a `Get`. -/
theorem handle_main (s : KeyValueServer) (r : KvRequest) :
    (s.handle r).main = s.main ∨ ∃ result, (s.handle r).main = .range r result := by
  unfold KeyValueServer.handle
  cases r.requestType with
  | put | delete | update => exact .inl rfl
  | get => exact .inr ⟨_, rfl⟩
  | terminate =>
    refine .inl ?_
    simp only [KeyValueServer.terminate]
    split <;> rfl

theorem handle_callers (s : KeyValueServer) (r : KvRequest) :
    (s.handle r).callers = s.callers := by
  unfold KeyValueServer.handle
  cases r.requestType with
  | put | delete | update | get => rfl
  | terminate =>
    simp only [KeyValueServer.terminate]
    split <;> rfl

/-- Who waits after a caller has changed to a state in which it does not. -/
theorem waiting_insert {m : Map Nat Caller} (idle : caller ≠ .waiting counter)
    (waits : (m.insert id caller).lookup d = some (.waiting counter)) :
    d ≠ id ∧ m.lookup d = some (.waiting counter) := by
  rw [Map.lookup_insert] at waits
  split at waits
  · exact absurd (Option.some.inj waits) idle
  · rename_i other
    exact ⟨other, waits⟩

/-! ### The answer -/

/-- While `mainRoutine` answers, the value is the one that it would answer now, and one caller waits
for it. At other times nobody waits. -/
structure Counts (s : KeyValueServer) : Prop where
  value : ∀ {counter n}, s.main = .answering counter n → n = s.count counter
  asker : ∀ {counter n}, s.main = .answering counter n →
    ∃ id, s.callers.lookup id = some (.waiting counter)
  answerer : ∀ {counter id}, s.callers.lookup id = some (.waiting counter) →
    ∃ n, s.main = .answering counter n
  single : ∀ {counter id d}, s.callers.lookup id = some (.waiting counter) →
    s.callers.lookup d = some (.waiting counter) → id = d

namespace Counts

/-- `mainRoutine` does not answer and nobody waits. -/
theorem idle (busy : ∀ counter n, s.main ≠ .answering counter n)
    (none : ∀ {id counter}, s.callers.lookup id ≠ some (.waiting counter)) : Counts s := by
  constructor
  · intro counter n answers
    exact absurd answers (busy counter n)
  · intro counter n answers
    exact absurd answers (busy counter n)
  · intro counter id waits
    exact absurd waits none
  · intro counter id d waits
    exact absurd waits none

/-- `mainRoutine` answers and one caller waits. -/
theorem answers (here : s.main = .answering counter (s.count counter))
    (waits : s.callers.lookup id = some (.waiting counter))
    (only : ∀ {d counter'}, s.callers.lookup d = some (.waiting counter') →
      d = id ∧ counter' = counter) : Counts s := by
  constructor
  · intro counter' n answers
    cases here.symm.trans answers
    rfl
  · intro counter' n answers
    cases here.symm.trans answers
    exact ⟨id, waits⟩
  · intro counter' d found
    rw [(only found).2]
    exact ⟨_, here⟩
  · intro counter' d e one two
    exact (only one).1.trans (only two).1.symm

theorem start (store : Impl) : Counts (start store) :=
  idle (by simp [Store.start]) (by simp [Store.start])

/-- Neither `mainRoutine` nor a caller is changed. -/
theorem frame (counts : Counts s) (main : s'.main = s.main) (callers : s'.callers = s.callers)
    (count : s'.count = s.count) : Counts s' := by
  constructor
  · intro counter n answers
    rw [count]
    exact counts.value (main ▸ answers)
  · intro counter n answers
    rw [callers]
    exact counts.asker (main ▸ answers)
  · intro counter id waits
    rw [callers] at waits
    rw [main]
    exact counts.answerer waits
  · intro counter id d one two
    rw [callers] at one two
    exact counts.single one two

/-- While `mainRoutine` does not answer nobody waits. -/
theorem nobody (counts : Counts s) (busy : ∀ counter n, s.main ≠ .answering counter n) :
    s.callers.lookup id ≠ some (.waiting counter) := by
  intro waits
  obtain ⟨n, answers⟩ := counts.answerer waits
  exact busy counter n answers

/-- `mainRoutine` goes from one state to another in which it does not answer either. -/
theorem busy (counts : Counts s) (before : ∀ counter n, s.main ≠ .answering counter n)
    (after : ∀ counter n, s'.main ≠ .answering counter n)
    (waits : ∀ {id counter}, s'.callers.lookup id = some (.waiting counter) →
      ∃ d, s.callers.lookup d = some (.waiting counter)) : Counts s' := by
  have none : ∀ {id counter}, s'.callers.lookup id ≠ some (.waiting counter) := by
    intro id counter here
    obtain ⟨d, there⟩ := waits here
    exact counts.nobody before there
  exact idle after none

/-- A caller that does not wait becomes one that does not wait either. -/
theorem elsewhere (counts : Counts s) (main : s'.main = s.main) (count : s'.count = s.count)
    (callers : s'.callers = s.callers.insert id caller) (after : ∀ counter, caller ≠ .waiting counter)
    (before : ∀ counter, s.callers.lookup id ≠ some (.waiting counter)) : Counts s' := by
  constructor
  · intro counter n answers
    rw [count]
    exact counts.value (main ▸ answers)
  · intro counter n answers
    obtain ⟨d, waits⟩ := counts.asker (main ▸ answers)
    have other : d ≠ id := fun same => before counter (same ▸ waits)
    exact ⟨d, by rw [callers, AList.lookup_insert_ne other, waits]⟩
  · intro counter d waits
    rw [callers] at waits
    rw [main]
    exact counts.answerer (waiting_insert (after counter) waits).2
  · intro counter d e one two
    rw [callers] at one two
    exact counts.single (waiting_insert (after counter) one).2 (waiting_insert (after counter) two).2

/-- The one caller that waits takes the question of another, who then waits in its place. -/
theorem swap (counts : Counts s) (two : id ≠ d)
    (waits : s.callers.lookup d = some (.waiting counter)) (n : Nat) :
    Counts { s with
      callers := (s.callers.insert id (.waiting counter)).insert d (.counted n) } := by
  obtain ⟨m, answers⟩ := counts.answerer waits
  have only : ∀ {e counter'},
      ((s.callers.insert id (.waiting counter)).insert d (.counted n)).lookup e =
        some (.waiting counter') → e = id ∧ counter' = counter := by
    intro e counter' here
    have first := waiting_insert (by simp) here
    by_cases same : e = id
    · subst same
      have found := first.2
      rw [AList.lookup_insert] at found
      cases found
      exact ⟨rfl, rfl⟩
    · have there := first.2
      rw [AList.lookup_insert_ne same] at there
      obtain ⟨m', answers'⟩ := counts.answerer there
      cases answers.symm.trans answers'
      exact absurd (counts.single there waits) first.1
  cases counts.value answers
  refine Counts.answers answers ?_ only
  rw [AList.lookup_insert_ne two, AList.lookup_insert]

theorem step (counts : Counts s) (moves : Move s a s') : Counts s' := by
  cases moves with
  | polled | accepted | failed | panics | ignored | requested | lost | took | wrote =>
    exact counts.frame rfl rfl rfl
  | called fresh =>
    refine counts.elsewhere rfl rfl rfl (by simp) ?_
    intro counter waits
    exact fresh (Map.mem_of_lookup waits)
  | misheard calls here =>
    refine counts.elsewhere rfl rfl rfl (by simp) ?_
    intro counter waits
    cases calls.symm.trans waits
  | replied here | tested here | dropped here | pushed here =>
    exact counts.busy (by simp [here]) (by simp) fun waits => ⟨_, waits⟩
  | asked calls here =>
    have nobody : ∀ {id counter}, s.callers.lookup id ≠ some (.waiting counter) :=
      counts.nobody (by simp [here])
    rename_i id counter
    have only : ∀ {d counter'}, (s.callers.insert id (.waiting counter)).lookup d =
        some (.waiting counter') → d = id ∧ counter' = counter := by
      intro d counter' waits
      rw [Map.lookup_insert] at waits
      split at waits
      · rename_i same
        cases waits
        exact ⟨same, rfl⟩
      · exact absurd waits nobody
    exact answers rfl (AList.lookup_insert _) only
  | crossed two calls waits => exact counts.swap two waits 1
  | answered here waits =>
    rename_i id counter n
    have none : ∀ {d counter'}, (s.callers.insert id (.counted n)).lookup d ≠
        some (.waiting counter') := by
      intro d counter' found
      obtain ⟨other, there⟩ := waiting_insert (by simp) found
      obtain ⟨n', answers⟩ := counts.answerer there
      cases here.symm.trans answers
      exact other (counts.single there waits)
    exact idle (by simp) none
  | heard calls here =>
    refine counts.busy (by simp [here]) (by simp) ?_
    intro d counter waits
    exact ⟨d, (waiting_insert (by simp) waits).2⟩
  | registered sends here =>
    exact counts.busy (by simp [here]) (by simp [here]) fun waits => ⟨_, waits⟩
  | handled found sends here =>
    refine counts.busy (by simp [here]) ?_ ?_
    · intro counter n
      rcases handle_main _ _ with same | ⟨result, looping⟩
      · rw [same]
        simp [here]
      · simp [looping]
    · intro d counter waits
      rw [handle_callers] at waits
      exact ⟨d, waits⟩

end Counts

theorem counts_run {acts : List Action} (reached : run step (start store) acts = some s) :
    Counts s :=
  run_keeps Counts (fun _ _ _ counts taken => counts.step (step_cases taken)) (Counts.start store)
    acts reached

/-! ### A call -/

/-- The call has not returned. -/
def Asking (id : Nat) (counter : Counter) (s : KeyValueServer) : Prop :=
  s.callers.lookup id = some (.calling (.count counter)) ∨
    s.callers.lookup id = some (.waiting counter)

/-- The call returns what the server would have answered in the state before. -/
def Answered (id : Nat) (counter : Counter) (s s' : KeyValueServer) : Prop :=
  s.callers.lookup id = some (.waiting counter) ∧
    s'.callers.lookup id = some (.counted (s.count counter))

/-- The waiting caller does not receive the question of another caller. -/
def notAsked (id : Nat) (_ : KeyValueServer) : Action → Bool
  | .meet (.caller _) (.caller receiver) => receiver ≠ id
  | _ => true

theorem Asking.other (asks : Asking id counter s) (other : id ≠ d)
    (callers : s'.callers = s.callers.insert d caller) : Asking id counter s' := by
  unfold Asking
  rw [callers, AList.lookup_insert_ne other]
  exact asks

theorem Asking.not_close (asks : Asking id counter s)
    (calls : s.callers.lookup d = some (.calling .close)) : id ≠ d := by
  rintro rfl
  rcases asks with asks | waits
  · cases asks.symm.trans calls
  · cases waits.symm.trans calls

theorem Asking.step (asks : Asking id counter s) (counts : Counts s)
    (alone : notAsked id s a = true) (moves : Move s a s') :
    Asking id counter s' ∨ Answered id counter s s' := by
  cases moves with
  | polled | accepted | failed | panics | ignored | requested | lost | took | wrote | replied
  | tested | dropped | pushed | registered => exact .inl asks
  | handled =>
    refine .inl ?_
    unfold Asking
    rw [handle_callers]
    exact asks
  | called fresh =>
    refine .inl (asks.other ?_ rfl)
    rintro rfl
    rcases asks with asks | waits
    · exact fresh (Map.mem_of_lookup asks)
    · exact fresh (Map.mem_of_lookup waits)
  | heard calls here | misheard calls here => exact .inl (asks.other (asks.not_close calls) rfl)
  | asked calls here =>
    rename_i d counter'
    refine .inl ?_
    by_cases same : id = d
    · subst same
      rcases asks with asks | waits
      · cases asks.symm.trans calls
        exact .inr (AList.lookup_insert _)
      · cases waits.symm.trans calls
    · exact asks.other same rfl
  | crossed two calls waits =>
    rename_i sender receiver counter'
    have apart : id ≠ receiver := (of_decide_eq_true alone).symm
    refine .inl ?_
    unfold Asking
    rw [AList.lookup_insert_ne apart]
    by_cases same : id = sender
    · subst same
      rcases asks with asks | waits
      · cases asks.symm.trans calls
        exact .inr (AList.lookup_insert _)
      · cases waits.symm.trans calls
    · rw [AList.lookup_insert_ne same]
      exact asks
  | answered here waits =>
    rename_i d counter' n
    by_cases same : id = d
    · subst same
      rcases asks with asks | waits'
      · cases asks.symm.trans waits
      · cases waits.symm.trans waits'
        refine .inr ⟨waits, ?_⟩
        rw [AList.lookup_insert, counts.value here]
    · exact .inl (asks.other same rfl)

/-- What a call has returned stays. -/
theorem counted_step (counted : s.callers.lookup id = some (.counted n)) (moves : Move s a s') :
    s'.callers.lookup id = some (.counted n) := by
  have other : ∀ {d : Nat} {caller : Caller}, s.callers.lookup d = some caller →
      caller ≠ .counted n → id ≠ d := by
    rintro d caller found differs rfl
    exact differs (Option.some.inj (found.symm.trans counted))
  cases moves with
  | polled | accepted | failed | panics | ignored | requested | lost | took | wrote | replied
  | tested | dropped | pushed | registered => exact counted
  | handled => rwa [handle_callers]
  | called fresh =>
    rw [AList.lookup_insert_ne]
    · exact counted
    · rintro rfl
      exact fresh (Map.mem_of_lookup counted)
  | heard calls | misheard calls | asked calls =>
    rwa [AList.lookup_insert_ne (other calls (by simp))]
  | crossed two calls waits =>
    rwa [AList.lookup_insert_ne (other waits (by simp)), AList.lookup_insert_ne (other calls (by simp))]
  | answered here waits => rwa [AList.lookup_insert_ne (other waits (by simp))]

/-- A call returns the number that there was at a moment before its return, unless it receives the
question of another call. -/
theorem count_between (store : Impl) (acts during : List Action) (s s₁ t : KeyValueServer)
    (id : Nat) (counter : Counter) (n : Nat)
    (reached : run step (start store) acts = some s)
    (called : step s (.call id (.count counter)) = some s₁)
    (alone : Along step (notAsked id) s₁ during)
    (later : run step s₁ during = some t)
    (returned : t.callers.lookup id = some (.counted n)) :
    ∃ before after u, during = before ++ after ∧ run step s₁ before = some u ∧
      u.callers.lookup id = some (.waiting counter) ∧ u.count counter = n := by
  have counts : Counts s₁ := (counts_run reached).step (step_cases called)
  have asks : Asking id counter s₁ := by
    simp only [step, Option.ite_none_left_eq_some, Option.some.injEq] at called
    obtain ⟨_, _, rfl⟩ := called
    exact .inl (AList.lookup_insert _)
  have phase := run_leaves (fun u => Asking id counter u ∧ Counts u) (Answered id counter)
    (fun _ _ _ h alone taken => (h.1.step h.2 alone (step_cases taken)).imp_left
      fun still => ⟨still, h.2.step (step_cases taken)⟩) ⟨asks, counts⟩ during alone later
  rcases phase with ⟨still | still, _⟩ | ⟨before, act, after, u, v, rfl, visited, _, answer, rest⟩
  · cases still.symm.trans returned
  · cases still.symm.trans returned
  · have final := run_keeps _ (fun _ _ _ counted taken => counted_step counted (step_cases taken))
      answer.2 after rest
    cases final.symm.trans returned
    exact ⟨before, act :: after, u, rfl, visited, answer.1, rfl⟩

/-- A connection is accepted and registered. -/
def connects (connection : Conn) : List Action :=
  [.poll, .accepted connection, .meet .accept .main]

theorem one_client_counted : ∃ s s₁ t,
    run step (start ∅) (connects 7) = some s ∧ step s (.call 0 countActive) = some s₁ ∧
    run step s₁ [.meet (.caller 0) .main, .meet .main (.caller 0)] = some t ∧
    t.callers.lookup 0 = some (.counted 1) ∧
    ∃ before after u, [.meet (.caller 0) .main, .meet .main (.caller 0)] = before ++ after ∧
      run step s₁ before = some u ∧ u.callers.lookup 0 = some (.waiting .activeClient) ∧
      u.count .activeClient = 1 :=
  ⟨_, _, _, rfl, rfl, rfl, rfl,
    count_between ∅ (connects 7) [.meet (.caller 0) .main, .meet .main (.caller 0)] _ _ _ 0
      .activeClient 1 rfl rfl (by decide) rfl rfl⟩

/-- Two calls are made at once, and the first one receives the question of the second. -/
def twoCalls (counter : Counter) : List Action :=
  [.meet (.caller 0) .main, .call 1 (.count counter), .meet (.caller 1) (.caller 0)]

/-- The first of two calls returns 1, and the number is 0 all the time. -/
def Mistaken (counter : Counter) : Prop := ∃ s₁ t,
  step (start ∅) (.call 0 (.count counter)) = some s₁ ∧
  run step s₁ (twoCalls counter) = some t ∧ t.callers.lookup 0 = some (.counted 1) ∧
  ∀ before ∈ (twoCalls counter).inits,
    (run step s₁ before).map (fun u => u.count counter) = some 0

/-- No client has ever connected. -/
theorem question_taken_for_answer : Mistaken .activeClient ∧ Mistaken .droppedClientChan :=
  ⟨⟨_, _, rfl, rfl, rfl, by decide⟩, ⟨_, _, rfl, rfl, rfl, by decide⟩⟩

end DistSys.Store
