import Mathlib.Data.List.Basic

/-! Partial deterministic transition systems. Every choice of the environment is in the
label, so a run is a list of labels; the theorems are about every list length. -/
namespace DistSys.Lib

variable {S A M O : Type} {step : S → A → Option S} {ok : S → A → Bool}

def run (step : S → A → Option S) (s : S) : List A → Option S
  | [] => some s
  | a :: rest => match step s a with
    | none => none
    | some t => run step t rest

/-- Every step that the run takes meets the condition, in the state before it. -/
def Along (step : S → A → Option S) (ok : S → A → Bool) (s : S) : List A → Prop
  | [] => True
  | a :: rest => match step s a with
    | none => True
    | some t => ok s a = true ∧ Along step ok t rest

def decideAlong (step : S → A → Option S) (ok : S → A → Bool) (s : S) :
    (as : List A) → Decidable (Along step ok s as)
  | [] => isTrue trivial
  | a :: rest =>
    match h : step s a with
    | none => isTrue (by simp [Along, h])
    | some t =>
      have := decideAlong step ok t rest
      decidable_of_iff (ok s a = true ∧ Along step ok t rest) (by simp [Along, h])

instance (s : S) (as : List A) : Decidable (Along step ok s as) := decideAlong step ok s as

theorem run_cons {s t u : S} {a : A} {rest : List A} (taken : step s a = some u) :
    run step s (a :: rest) = some t ↔ run step u rest = some t := by
  simp [run, taken]

theorem along_cons {s u : S} {a : A} {rest : List A} (taken : step s a = some u) :
    Along step ok s (a :: rest) ↔ ok s a = true ∧ Along step ok u rest := by
  simp [Along, taken]

theorem run_first {s t : S} {a : A} {rest : List A} (reached : run step s (a :: rest) = some t) :
    ∃ u, step s a = some u ∧ run step u rest = some t := by
  cases taken : step s a with
  | none => simp [run, taken] at reached
  | some u => exact ⟨u, rfl, (run_cons taken).mp reached⟩

theorem run_append {s t : S} {as bs : List A} :
    run step s (as ++ bs) = some t ↔ ∃ u, run step s as = some u ∧ run step u bs = some t := by
  induction as generalizing s with
  | nil => simp [run]
  | cons a rest ih =>
    cases taken : step s a with
    | none => simp [run, taken]
    | some u => simpa [run, taken] using ih

theorem along_append {s u : S} {as bs : List A} (met : Along step ok s (as ++ bs))
    (reached : run step s as = some u) : Along step ok s as ∧ Along step ok u bs := by
  induction as generalizing s with
  | nil =>
    cases Option.some.inj reached
    exact ⟨trivial, met⟩
  | cons a rest ih =>
    obtain ⟨t, taken, tail⟩ := run_first reached
    have both := (along_cons taken).mp met
    have parts := ih both.2 tail
    exact ⟨(along_cons taken).mpr ⟨both.1, parts.1⟩, parts.2⟩

theorem along_and {ok' : S → A → Bool} {s : S} {as : List A} (one : Along step ok s as)
    (two : Along step ok' s as) : Along step (fun s a => ok s a && ok' s a) s as := by
  induction as generalizing s with
  | nil => trivial
  | cons a rest ih =>
    cases taken : step s a with
    | none => simp [Along, taken]
    | some u =>
      have one := (along_cons taken).mp one
      have two := (along_cons taken).mp two
      exact (along_cons taken).mpr ⟨Bool.and_eq_true_iff.mpr ⟨one.1, two.1⟩, ih one.2 two.2⟩

/-- What holds at the start and is kept by every step that meets the condition holds in
every state that such a run reaches. -/
theorem run_invariant (inv : S → Prop)
    (keeps : ∀ s a t, inv s → ok s a = true → step s a = some t → inv t)
    {s t : S} (start : inv s) (as : List A) (met : Along step ok s as)
    (reached : run step s as = some t) : inv t := by
  induction as generalizing s with
  | nil => exact Option.some.inj reached ▸ start
  | cons a rest ih =>
    obtain ⟨u, taken, tail⟩ := run_first reached
    have both := (along_cons taken).mp met
    exact ih (keeps s a u start both.1 taken) both.2 tail

theorem run_keeps (inv : S → Prop) (keeps : ∀ s a t, inv s → step s a = some t → inv t)
    {s t : S} (start : inv s) (as : List A) (reached : run step s as = some t) : inv t := by
  induction as generalizing s with
  | nil => exact Option.some.inj reached ▸ start
  | cons a rest ih =>
    obtain ⟨u, taken, tail⟩ := run_first reached
    exact ih (keeps s a u start taken) tail

/-- What every allowed action keeps holds after a run of such actions. -/
theorem run_allowed (allowed : A → Prop) (inv : S → Prop)
    (keeps : ∀ s a t, inv s → allowed a → step s a = some t → inv t)
    {s t : S} (start : inv s) (as : List A) (all : ∀ a ∈ as, allowed a)
    (reached : run step s as = some t) : inv t := by
  induction as generalizing s with
  | nil => exact Option.some.inj reached ▸ start
  | cons a rest ih =>
    obtain ⟨u, taken, tail⟩ := run_first reached
    have next := keeps s a u start (all a List.mem_cons_self) taken
    exact ih next (fun b member => all b (List.mem_cons_of_mem a member)) tail

/-- A phase that every step keeps or completes lasts for the whole run, or was completed on the
way. -/
theorem run_until (within done : S → Prop)
    (keeps : ∀ s a t, within s → step s a = some t → within t ∨ done t)
    {s t : S} (start : within s) (as : List A) (reached : run step s as = some t) :
    within t ∨ ∃ i u, run step s (as.take i) = some u ∧ done u := by
  induction as generalizing s with
  | nil => exact .inl (Option.some.inj reached ▸ start)
  | cons a rest ih =>
    obtain ⟨u, taken, tail⟩ := run_first reached
    rcases keeps s a u start taken with still | now
    · refine (ih still tail).imp_right ?_
      rintro ⟨i, v, visited, completed⟩
      exact ⟨i + 1, v, (run_cons taken).mpr visited, completed⟩
    · exact .inr ⟨1, u, by simp [run, taken], now⟩

/-- A phase that every step keeps or leaves lasts for the whole run, or there is the one step that
leaves it. -/
theorem run_leaves (within : S → Prop) (leaves : S → S → Prop)
    (keeps : ∀ s a t, within s → ok s a = true → step s a = some t → within t ∨ leaves s t)
    {s t : S} (start : within s) (as : List A) (met : Along step ok s as)
    (reached : run step s as = some t) :
    within t ∨ ∃ before a after u v, as = before ++ a :: after ∧ run step s before = some u ∧
      step u a = some v ∧ leaves u v ∧ run step v after = some t := by
  induction as generalizing s with
  | nil => exact .inl (Option.some.inj reached ▸ start)
  | cons a rest ih =>
    obtain ⟨u, taken, tail⟩ := run_first reached
    have both := (along_cons taken).mp met
    rcases keeps s a u start both.1 taken with still | now
    · refine (ih still both.2 tail).imp_right ?_
      rintro ⟨before, b, after, v, w, rfl, visited, last, left, later⟩
      exact ⟨a :: before, b, after, v, w, rfl, (run_cons taken).mpr visited, last, left, later⟩
    · exact .inr ⟨[], a, rest, s, u, rfl, rfl, taken, now, tail⟩

/-- A phase in which one of the chosen actions can always be taken and brings the end nearer can be
completed by such actions. -/
theorem run_progress (chosen : A → Prop) (within done : S → Prop) (left : S → Nat)
    (moves : ∀ s, within s → ∃ a t, chosen a ∧ step s a = some t ∧
      (done t ∨ within t ∧ left t < left s)) {s : S} (start : within s) :
    ∃ as t, (∀ a ∈ as, chosen a) ∧ run step s as = some t ∧ done t := by
  induction bound : left s using Nat.strongRecOn generalizing s with
  | ind n ih =>
    obtain ⟨a, t, mine, taken, now | ⟨still, nearer⟩⟩ := moves s start
    · exact ⟨[a], t, by simpa using mine, by simp [run, taken], now⟩
    · obtain ⟨as, u, rest, later, finished⟩ := ih (left t) (bound ▸ nearer) still rfl
      exact ⟨a :: as, u, by simpa using ⟨mine, rest⟩, (run_cons taken).mpr later, finished⟩

/-- Every step that the run takes meets a condition that need not be decidable. -/
def Always (step : S → A → Option S) (P : S → A → Prop) (s : S) : List A → Prop
  | [] => True
  | a :: rest => match step s a with
    | none => True
    | some t => P s a ∧ Always step P t rest

theorem always_cons {P : S → A → Prop} {s u : S} {a : A} {rest : List A}
    (taken : step s a = some u) :
    Always step P s (a :: rest) ↔ P s a ∧ Always step P u rest := by
  simp [Always, taken]

theorem run_always {P : S → A → Prop} (inv : S → Prop)
    (keeps : ∀ s a t, inv s → P s a → ok s a = true → step s a = some t → inv t)
    {s t : S} (start : inv s) (as : List A) (always : Always step P s as)
    (met : Along step ok s as) (reached : run step s as = some t) : inv t := by
  induction as generalizing s with
  | nil => exact Option.some.inj reached ▸ start
  | cons a rest ih =>
    obtain ⟨u, taken, tail⟩ := run_first reached
    have both := (along_cons taken).mp met
    have holds := (always_cons taken).mp always
    exact ih (keeps s a u start holds.1 both.1 taken) holds.2 both.2 tail

theorem along_take {s u : S} {as : List A} (met : Along step ok s as) (i : Nat)
    (reached : run step s (as.take i) = some u) :
    Along step ok s (as.take i) ∧ Along step ok u (as.drop i) :=
  along_append ((List.take_append_drop i as).symm ▸ met) reached

theorem run_between {s u t : S} {as : List A} (met : Along step ok s as) {i k : Nat}
    (first : run step s (as.take i) = some u) (second : run step s (as.take (i + k)) = some t) :
    run step u ((as.drop i).take k) = some t ∧ Along step ok u ((as.drop i).take k) := by
  rw [List.take_add] at second
  obtain ⟨v, before, after⟩ := run_append.mp second
  cases Option.some.inj (first.symm.trans before)
  exact ⟨after, (along_take (along_take met i first).2 k after).1⟩

theorem along_at {s u t : S} {as : List A} (met : Along step ok s as) {i : Nat} {a : A}
    (reached : run step s (as.take i) = some u) (next : as[i]? = some a)
    (taken : step u a = some t) : ok u a = true := by
  have tail := (along_take met i reached).2
  obtain ⟨bound, rfl⟩ := List.getElem?_eq_some_iff.mp next
  rw [List.drop_eq_getElem_cons bound] at tail
  exact ((along_cons taken).mp tail).1

theorem along_of_all {s : S} {as : List A}
    (all : ∀ i u a t, run step s (as.take i) = some u → as[i]? = some a → step u a = some t →
      ok u a = true) : Along step ok s as := by
  induction as generalizing s with
  | nil => trivial
  | cons a rest ih =>
    cases taken : step s a with
    | none => simp [Along, taken]
    | some u =>
      refine (along_cons taken).mpr ⟨all 0 s a u rfl rfl taken, ih ?_⟩
      intro i v b t reached next stepped
      refine all (i + 1) v b t ?_ (by simpa using next) stepped
      rw [List.take_succ_cons]
      exact (run_cons taken).mpr reached

theorem run_take_succ {s u t : S} {as : List A} {i : Nat} {a : A}
    (reached : run step s (as.take i) = some u) (next : as[i]? = some a)
    (taken : step u a = some t) : run step s (as.take (i + 1)) = some t := by
  rw [List.take_add_one, next]
  exact run_append.mpr ⟨u, reached, by simp [run, taken]⟩

/-- A run goes on from each of its moments. -/
theorem run_resume {s u t : S} {as : List A} {i : Nat} {a : A}
    (before : run step s (as.take i) = some u) (next : as[i]? = some a)
    (reached : run step s as = some t) :
    ∃ v, step u a = some v ∧ run step v (as.drop (i + 1)) = some t := by
  obtain ⟨bound, rfl⟩ := List.getElem?_eq_some_iff.mp next
  rw [← List.take_append_drop i as, List.drop_eq_getElem_cons bound] at reached
  obtain ⟨u', same, later⟩ := run_append.mp reached
  cases Option.some.inj (before.symm.trans same)
  exact run_first later

/-- A run carries an abstract history with it that only grows: at every moment the state
is related to a history that lies below the final one. -/
theorem run_history (rel : S → M → Prop) (below : M → M → Prop)
    (refl : ∀ m, below m m) (trans : ∀ a b c, below a b → below b c → below a c)
    (simulates : ∀ s a t m, rel s m → ok s a = true → step s a = some t →
      ∃ m', below m m' ∧ rel t m')
    {s t : S} {m : M} (start : rel s m) (as : List A) (met : Along step ok s as)
    (reached : run step s as = some t) :
    ∃ final, rel t final ∧ below m final ∧
      ∀ i u, run step s (as.take i) = some u → ∃ h, rel u h ∧ below h final := by
  induction as generalizing s m with
  | nil =>
    cases Option.some.inj reached
    refine ⟨m, start, refl m, ?_⟩
    intro i u visited
    cases Option.some.inj (by simpa [run] using visited)
    exact ⟨m, start, refl m⟩
  | cons a rest ih =>
    obtain ⟨u, taken, tail⟩ := run_first reached
    have both := (along_cons taken).mp met
    obtain ⟨m', grown, related⟩ := simulates s a u m start both.1 taken
    obtain ⟨final, last, above, visits⟩ := ih related both.2 tail
    refine ⟨final, last, trans _ _ _ grown above, ?_⟩
    intro i v visited
    cases i with
    | zero =>
      cases Option.some.inj (by simpa [run] using visited)
      exact ⟨m, start, trans _ _ _ grown above⟩
    | succ i =>
      rw [List.take_succ_cons] at visited
      exact visits i v ((run_cons taken).mp visited)

/-- Two moments of a run, in either order, have histories below one that some state of the
run has. -/
theorem run_moments (rel : S → M → Prop) (below : M → M → Prop)
    (refl : ∀ m, below m m) (trans : ∀ a b c, below a b → below b c → below a c)
    (simulates : ∀ s a t m, rel s m → ok s a = true → step s a = some t →
      ∃ m', below m m' ∧ rel t m')
    {s u v : S} {m : M} (start : rel s m) (as : List A) (met : Along step ok s as) {i j : Nat}
    (at_i : run step s (as.take i) = some u) (at_j : run step s (as.take j) = some v) :
    ∃ hu hv final w, rel u hu ∧ rel v hv ∧ below hu final ∧ below hv final ∧ rel w final := by
  have ordered : ∀ {i j : Nat} {u v : S}, i ≤ j → run step s (as.take i) = some u →
      run step s (as.take j) = some v →
      ∃ hu hv, rel u hu ∧ rel v hv ∧ below hu hv := by
    intro i j u v le at_i at_j
    obtain ⟨final, last, _, visits⟩ := run_history rel below refl trans simulates start
      (as.take j) (along_take met j at_j).1 at_j
    obtain ⟨hu, first, lower⟩ := visits i u (by rwa [List.take_take, Nat.min_eq_left le])
    exact ⟨hu, final, first, last, lower⟩
  rcases Nat.le_total i j with le | le
  · obtain ⟨hu, hv, first, second, lower⟩ := ordered le at_i at_j
    exact ⟨hu, hv, hv, v, first, second, lower, refl hv, second⟩
  · obtain ⟨hv, hu, second, first, lower⟩ := ordered le at_j at_i
    exact ⟨hu, hv, hu, u, first, second, refl hu, lower, first⟩

/-! ### What a run shows -/

/-- What is seen of each step of a run, in order. -/
def trace (step : S → A → Option S) (view : S → A → S → O) (s : S) : List A → List O
  | [] => []
  | a :: rest => match step s a with
    | none => []
    | some t => view s a t :: trace step view t rest

theorem trace_cons {view : S → A → S → O} {s t : S} {a : A} {rest : List A}
    (taken : step s a = some t) :
    trace step view s (a :: rest) = view s a t :: trace step view t rest := by
  simp [trace, taken]

theorem trace_append {view : S → A → S → O} {s t : S} {as bs : List A}
    (reached : run step s as = some t) :
    trace step view s (as ++ bs) = trace step view s as ++ trace step view t bs := by
  induction as generalizing s with
  | nil =>
    cases Option.some.inj reached
    rfl
  | cons a rest ih =>
    obtain ⟨u, taken, tail⟩ := run_first reached
    rw [List.cons_append, trace_cons taken, trace_cons taken, ih tail, List.cons_append]

/-- What holds of the state and of all that was seen, when every step that meets the condition keeps
it, holds at the end of such a run. -/
theorem trace_invariant (view : S → A → S → O) (inv : S → List O → Prop)
    (keeps : ∀ s a t seen, inv s seen → ok s a = true → step s a = some t →
      inv t (seen ++ [view s a t]))
    {s t : S} (start : inv s []) (as : List A) (met : Along step ok s as)
    (reached : run step s as = some t) : inv t (trace step view s as) := by
  have later : ∀ (as : List A) (s : S) (seen : List O), inv s seen → Along step ok s as →
      run step s as = some t → inv t (seen ++ trace step view s as) := by
    intro as
    induction as with
    | nil =>
      intro s seen holds _ reached
      cases Option.some.inj reached
      simpa [trace] using holds
    | cons a rest ih =>
      intro s seen holds met reached
      obtain ⟨u, taken, tail⟩ := run_first reached
      have both := (along_cons taken).mp met
      have next := ih u (seen ++ [view s a u]) (keeps s a u seen holds both.1 taken) both.2 tail
      rw [trace_cons taken]
      simpa using next
  exact later as s [] start met reached

/-- Where every step shows no more than what the state has left becomes less, a run shows at most what
its first state has left. -/
theorem trace_spends (view : S → A → S → List O) (inv : S → Prop) (left : S → Nat)
    (pays : ∀ s a t, inv s → ok s a = true → step s a = some t →
      inv t ∧ (view s a t).length + left t ≤ left s)
    {s t : S} (start : inv s) (as : List A) (met : Along step ok s as)
    (reached : run step s as = some t) : (trace step view s as).flatten.length ≤ left s := by
  have spent : inv t ∧ (trace step view s as).flatten.length + left t ≤ left s := by
    apply trace_invariant view (fun t seen => inv t ∧ seen.flatten.length + left t ≤ left s) ?_ ?_ as
      met reached
    · rintro u a v seen ⟨holds, within⟩ allowed taken
      obtain ⟨holds, paid⟩ := pays u a v holds allowed taken
      rw [List.flatten_append, List.flatten_singleton, List.length_append]
      exact ⟨holds, by omega⟩
    · exact ⟨start, by simp⟩
  exact Nat.le_trans (Nat.le_add_right _ _) spent.2

end DistSys.Lib
