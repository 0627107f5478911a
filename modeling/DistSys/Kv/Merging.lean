import DistSys.Kv.QueryActor
import DistSys.Lib.Versions

/-! The updates that a query actor is told: what it stores in the end does not depend on how they
are put into messages, on the order of the messages or on how often they come. -/
namespace DistSys.Kv

open DistSys.Lib

variable {a b : QueryActor} {key : String} {updates : List (Nat × Map String Content)}

/-- MUpdate messages, each with the time at which it is handled. -/
def told (updates : List (Nat × Map String Content)) : List (Nat × Msg) :=
  updates.map fun update => (update.1, .mUpdate update.2)

/-- A content that one of the messages has for a key. -/
def Received (updates : List (Nat × Map String Content)) (key : String) (content : Content) :
    Prop :=
  ∃ update ∈ updates, update.2.lookup key = some content

theorem newest_merge (putList : Map String Content) :
    Newest Content.stamp (a.storage.lookup key) (fun content => putList.lookup key = some content)
      ((putList.foldl QueryActor.merge a).storage.lookup key) := by
  have stored := congrArg Prod.fst (merge_all (a := a) (k := key) putList)
  simp only [QueryActor.entry] at stored
  cases comes : putList.lookup key with
  | none =>
    simp only [comes] at stored
    rw [stored]
    apply Newest.refl
    intro content none
    cases none
  | some content =>
    simp only [comes] at stored
    split at stored
    · rename_i wins
      rw [stored]
      constructor
      · exact .inr
      · rintro con (was | ⟨⟨⟩⟩)
        · exact ⟨content, rfl, (wins con was).le⟩
        · exact ⟨content, rfl, le_rfl⟩
      · rintro con _ was ⟨⟩ le
        exact absurd (wins con was) le.not_gt
    · rename_i loses
      obtain ⟨con, was, notOlder⟩ : ∃ con, a.storage.lookup key = some con ∧
          ¬con.stamp < content.stamp := by
        simpa only [newer, not_forall, exists_prop] using loses
      rw [stored]
      constructor
      · exact .inl
      · rintro other (here | ⟨⟨⟩⟩)
        · exact ⟨other, here, le_rfl⟩
        · exact ⟨con, was, not_lt.mp notOlder⟩
      · intro u v was is _
        exact Option.some.inj (is.symm.trans was)

theorem newest_run (key : String) (reached : run hear a (told updates) = some b) :
    Newest Content.stamp (a.storage.lookup key) (Received updates key) (b.storage.lookup key) := by
  induction updates generalizing a with
  | nil =>
    cases Option.some.inj reached
    apply Newest.refl
    rintro content ⟨_, member, _⟩
    cases member
  | cons update rest ih =>
    obtain ⟨c, heard, tail⟩ := run_first reached
    cases heard
    refine ((newest_merge update.2).trans (ih tail)).congr ?_
    intro content
    simp only [Received, List.mem_cons, exists_eq_or_imp]

/-- An actor takes every MUpdate. -/
theorem run_told (a : QueryActor) (updates : List (Nat × Map String Content)) :
    ∃ b, run hear a (told updates) = some b := by
  induction updates generalizing a with
  | nil => exact ⟨a, rfl⟩
  | cons update rest ih => exact ih (update.2.foldl QueryActor.merge a)

/-- Messages that hold the same contents, in whatever order, number and grouping, give the same
storage: for each key the newest of what was there and what came. -/
theorem updates_any_order (a : QueryActor) (updates updates' : List (Nat × Map String Content))
    (same : ∀ key content, Received updates key content ↔ Received updates' key content)
    (distinct : ∀ key con content, Received updates key con → Received updates key content →
      con.timeStamp = content.timeStamp → con.sender.uid = content.sender.uid → con = content) :
    ∃ b c, run hear a (told updates) = some b ∧ run hear a (told updates') = some c ∧
      ∀ key, b.storage.lookup key = c.storage.lookup key ∧
        (∀ content, b.storage.lookup key = some content →
          a.storage.lookup key = some content ∨ Received updates key content) ∧
        ∀ content, a.storage.lookup key = some content ∨ Received updates key content →
          ∃ held, b.storage.lookup key = some held ∧ content.stamp ≤ held.stamp := by
  obtain ⟨b, reached⟩ := run_told a updates
  obtain ⟨c, reached'⟩ := run_told a updates'
  refine ⟨b, c, reached, reached', ?_⟩
  intro key
  have one := newest_run key reached
  have two := (newest_run key reached').congr fun content => (same key content).symm
  refine ⟨?_, fun _ => one.among, fun _ => one.largest⟩
  refine Newest.unique ?_ one two
  intro con content first second tie
  obtain ⟨time, uid⟩ := Prod.mk.inj (toLex.injective tie)
  exact distinct key con content first second time uid

/-- Three contents in two messages and, in another order and with one of them twice, in three. -/
def twoMessages : List (Nat × Map String Content) :=
  [(1, (∅ : Map String Content).insert "k" ⟨⟨"localhost:9000", 1⟩, "old", 3⟩),
    (2, ((∅ : Map String Content).insert "k" ⟨⟨"localhost:9009", 5⟩, "new", 3⟩).insert "l"
      ⟨⟨"localhost:9009", 6⟩, "other", 4⟩)]

def threeMessages : List (Nat × Map String Content) :=
  [(1, ((∅ : Map String Content).insert "l" ⟨⟨"localhost:9009", 6⟩, "other", 4⟩).insert "k"
      ⟨⟨"localhost:9009", 5⟩, "new", 3⟩),
    (5, (∅ : Map String Content).insert "k" ⟨⟨"localhost:9000", 1⟩, "old", 3⟩),
    (6, (∅ : Map String Content).insert "k" ⟨⟨"localhost:9009", 5⟩, "new", 3⟩)]

theorem received_two {key : String} {content : Content} : Received twoMessages key content ↔
    key = "k" ∧ content = ⟨⟨"localhost:9000", 1⟩, "old", 3⟩ ∨
    key = "k" ∧ content = ⟨⟨"localhost:9009", 5⟩, "new", 3⟩ ∨
    key = "l" ∧ content = ⟨⟨"localhost:9009", 6⟩, "other", 4⟩ := by
  simp only [Received, twoMessages, List.mem_cons, List.not_mem_nil, or_false, exists_eq_or_imp,
    exists_eq_left, Map.lookup_insert, AList.lookup_empty]
  by_cases k : key = "k"
  · subst k
    simp [eq_comm]
  · by_cases l : key = "l"
    · subst l
      simp [eq_comm]
    · simp [k, l]

theorem updates_any_order_three : ∃ b c,
    run hear (newQueryActor ⟨"localhost:9000", 0⟩) (told twoMessages) = some b ∧
    run hear (newQueryActor ⟨"localhost:9000", 0⟩) (told threeMessages) = some c ∧
    b.storage.lookup "k" = c.storage.lookup "k" := by
  obtain ⟨b, c, reached, reached', all⟩ := updates_any_order (newQueryActor ⟨"localhost:9000", 0⟩)
    twoMessages threeMessages (by
      intro key content
      rw [received_two]
      simp only [Received, threeMessages, List.mem_cons, List.not_mem_nil, or_false,
        exists_eq_or_imp, exists_eq_left, Map.lookup_insert, AList.lookup_empty]
      by_cases k : key = "k"
      · subst k
        simp [eq_comm, or_comm]
        exact .inr
      · by_cases l : key = "l"
        · subst l
          simp [eq_comm]
        · simp [k, l]) (by
      intro key con content first second _ uid
      rw [received_two] at first second
      rcases first with ⟨rfl, rfl⟩ | ⟨rfl, rfl⟩ | ⟨rfl, rfl⟩ <;>
        rcases second with ⟨same, rfl⟩ | ⟨same, rfl⟩ | ⟨same, rfl⟩ <;>
        first | rfl | (exfalso; revert same; decide) | (exfalso; revert uid; decide))
  exact ⟨b, c, reached, reached', (all "k").1⟩

end DistSys.Kv
