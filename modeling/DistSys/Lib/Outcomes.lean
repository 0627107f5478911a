import DistSys.Lib.Programs

/-! The outcomes that a program can have, over all choices of the environment, and rules to show that
every outcome is a result with a given property: that the program does not panic is part of it. -/
namespace DistSys.Lib.Program

variable {K V α β E : Type} [DecidableEq K]

/-- Some choices lead to this outcome and this store. -/
def Leads : Program K V α → Map K V → Except String α → Map K V → Prop
  | done a, store, o, t => o = .ok a ∧ t = store
  | panic message, store, o, t => o = .error message ∧ t = store
  | get key next, store, o, t => (next (store.lookup key)).Leads store o t
  | put key value next, store, o, t => next.Leads (store.insert key value) o t
  | list want next, store, o, t => ∃ keys : List K, keys.Perm (store.keys.filter want) ∧
      (next (entriesAt store keys)).Leads store o t
  | intn n next, store, o, t =>
      n ≤ 0 ∧ o = .error "invalid argument to Intn" ∧ t = store ∨
      ∃ i : Nat, (i : Int) < n ∧ (next i).Leads store o t
  | range keys next, store, o, t => ∃ order : List K, order.Perm keys ∧ (next order).Leads store o t

variable {x : Program K V α} {f : α → Program K V β} {store t : Map K V}
  {choices rest : List (Choice K)} {o : Except String α}

/-! ### Outcomes and runs -/

theorem leads_of_exec (ran : x.exec store choices = some (o, t, rest)) : x.Leads store o t := by
  induction x generalizing store choices with
  | done a | panic message =>
    cases Option.some.inj ran
    exact ⟨rfl, rfl⟩
  | get key next ih => exact ih _ ran
  | put key value next ih => exact ih ran
  | list want next ih =>
    obtain ⟨⟨keys, more⟩, taken, ran⟩ := Option.bind_eq_some_iff.mp ran
    exact ⟨keys, takeOrder_perm taken, ih _ ran⟩
  | intn n next ih =>
    simp only [exec] at ran
    split at ran
    · rename_i none
      cases Option.some.inj ran
      exact .inl ⟨none, rfl, rfl⟩
    · obtain ⟨⟨i, more⟩, taken, ran⟩ := Option.bind_eq_some_iff.mp ran
      exact .inr ⟨i, takeDraw_lt taken, ih _ ran⟩
  | range keys next ih =>
    obtain ⟨⟨order, more⟩, taken, ran⟩ := Option.bind_eq_some_iff.mp ran
    exact ⟨order, takeOrder_perm taken, ih _ ran⟩

theorem exec_of_leads (leads : x.Leads store o t) :
    ∃ choices, x.exec store choices = some (o, t, []) := by
  induction x generalizing store with
  | done a | panic message =>
    obtain ⟨rfl, rfl⟩ := leads
    exact ⟨[], rfl⟩
  | get key next ih => exact ih _ leads
  | put key value next ih => exact ih leads
  | list want next ih =>
    obtain ⟨keys, perm, leads⟩ := leads
    obtain ⟨choices, ran⟩ := ih _ leads
    exact ⟨.order keys :: choices, by simpa [exec, takeOrder, perm] using ran⟩
  | intn n next ih =>
    rcases leads with ⟨none, rfl, rfl⟩ | ⟨i, below, leads⟩
    · exact ⟨[], by simp [exec, none]⟩
    · obtain ⟨choices, ran⟩ := ih _ leads
      have some : ¬ n ≤ 0 := by omega
      exact ⟨.drawn i :: choices, by simpa [exec, takeDraw, some, below] using ran⟩
  | range keys next ih =>
    obtain ⟨order, perm, leads⟩ := leads
    obtain ⟨choices, ran⟩ := ih _ leads
    exact ⟨.order order :: choices, by simpa [exec, takeOrder, perm] using ran⟩

/-- Every program has an outcome. -/
theorem leads_total (x : Program K V α) (store : Map K V) : ∃ o t, x.Leads store o t := by
  induction x generalizing store with
  | done a | panic message => exact ⟨_, _, rfl, rfl⟩
  | get key next ih => exact ih _ store
  | put key value next ih => exact ih _
  | list want next ih =>
    obtain ⟨o, t, leads⟩ := ih (entriesAt store (store.keys.filter want)) store
    exact ⟨o, t, _, .refl _, leads⟩
  | intn n next ih =>
    by_cases none : n ≤ 0
    · exact ⟨_, _, .inl ⟨none, rfl, rfl⟩⟩
    · obtain ⟨o, t, leads⟩ := ih 0 store
      exact ⟨o, t, .inr ⟨0, by omega, leads⟩⟩
  | range keys next ih =>
    obtain ⟨o, t, leads⟩ := ih keys store
    exact ⟨o, t, _, .refl _, leads⟩

/-- Two programs one after the other: the first one ends, or its panic is the outcome. -/
theorem leads_cases {o : Except String β} (leads : (x >>= f).Leads store o t) :
    (∃ a u, x.Leads store (.ok a) u ∧ (f a).Leads u o t) ∨
      ∃ message, o = .error message ∧ x.Leads store (.error message) t := by
  change (x.bind f).Leads store o t at leads
  induction x generalizing store with
  | done a => exact .inl ⟨a, store, ⟨rfl, rfl⟩, leads⟩
  | panic message =>
    obtain ⟨rfl, rfl⟩ := leads
    exact .inr ⟨message, rfl, rfl, rfl⟩
  | get key next ih => exact ih _ leads
  | put key value next ih => exact ih leads
  | list want next ih =>
    obtain ⟨keys, perm, leads⟩ := leads
    rcases ih _ leads with ⟨a, u, first, second⟩ | ⟨message, rfl, first⟩
    · exact .inl ⟨a, u, ⟨keys, perm, first⟩, second⟩
    · exact .inr ⟨message, rfl, keys, perm, first⟩
  | intn n next ih =>
    rcases leads with ⟨none, rfl, rfl⟩ | ⟨i, below, leads⟩
    · exact .inr ⟨_, rfl, .inl ⟨none, rfl, rfl⟩⟩
    · rcases ih _ leads with ⟨a, u, first, second⟩ | ⟨message, rfl, first⟩
      · exact .inl ⟨a, u, .inr ⟨i, below, first⟩, second⟩
      · exact .inr ⟨message, rfl, .inr ⟨i, below, first⟩⟩
  | range keys next ih =>
    obtain ⟨order, perm, leads⟩ := leads
    rcases ih _ leads with ⟨a, u, first, second⟩ | ⟨message, rfl, first⟩
    · exact .inl ⟨a, u, ⟨order, perm, first⟩, second⟩
    · exact .inr ⟨message, rfl, order, perm, first⟩

theorem Leads.bind {a : α} {u : Map K V} {o : Except String β} (first : x.Leads store (.ok a) u)
    (second : (f a).Leads u o t) : (x >>= f).Leads store o t := by
  change (x.bind f).Leads store o t
  induction x generalizing store with
  | done b =>
    obtain ⟨same, rfl⟩ := first
    cases same
    exact second
  | panic message => cases first.1
  | get key next ih => exact ih _ first
  | put key value next ih => exact ih first
  | list want next ih =>
    obtain ⟨keys, perm, first⟩ := first
    exact ⟨keys, perm, ih _ first⟩
  | intn n next ih =>
    rcases first with ⟨_, panics, _⟩ | ⟨i, below, first⟩
    · cases panics
    · exact .inr ⟨i, below, ih _ first⟩
  | range keys next ih =>
    obtain ⟨order, perm, first⟩ := first
    exact ⟨order, perm, ih _ first⟩

theorem Leads.panic {message : String} (panicked : x.Leads store (.error message) t) :
    (x >>= f).Leads store (.error message) t := by
  change (x.bind f).Leads store (.error message) t
  induction x generalizing store with
  | done b => cases panicked.1
  | panic text =>
    obtain ⟨same, rfl⟩ := panicked
    cases same
    exact ⟨rfl, rfl⟩
  | get key next ih => exact ih _ panicked
  | put key value next ih => exact ih panicked
  | list want next ih =>
    obtain ⟨keys, perm, panicked⟩ := panicked
    exact ⟨keys, perm, ih _ panicked⟩
  | intn n next ih =>
    rcases panicked with ⟨none, same, rfl⟩ | ⟨i, below, panicked⟩
    · cases same
      exact .inl ⟨none, rfl, rfl⟩
    · exact .inr ⟨i, below, ih _ panicked⟩
  | range keys next ih =>
    obtain ⟨order, perm, panicked⟩ := panicked
    exact ⟨order, perm, ih _ panicked⟩

/-! ### Every outcome -/

/-- Whatever is chosen, the program ends with a result, and the result and the store have the
property. -/
def Ensures (x : Program K V α) (store : Map K V) (post : α → Map K V → Prop) : Prop :=
  ∀ o t, x.Leads store o t → ∃ a, o = .ok a ∧ post a t

variable {mid : α → Map K V → Prop} {post : β → Map K V → Prop}

namespace Ensures

theorem done {a : α} (holds : mid a store) : (Program.done a : Program K V α).Ensures store mid := by
  rintro o t ⟨rfl, rfl⟩
  exact ⟨a, rfl, holds⟩

theorem bind (first : x.Ensures store mid) (second : ∀ a u, mid a u → (f a).Ensures u post) :
    (x >>= f).Ensures store post := by
  intro o t leads
  rcases leads_cases leads with ⟨a, u, ended, later⟩ | ⟨message, rfl, panicked⟩
  · obtain ⟨b, same, holds⟩ := first _ _ ended
    cases same
    exact second a u holds o t later
  · obtain ⟨b, same, _⟩ := first _ _ panicked
    cases same

theorem mono {after : α → Map K V → Prop} (ensures : x.Ensures store mid)
    (weaker : ∀ a t, mid a t → after a t) : x.Ensures store after := by
  intro o t leads
  obtain ⟨a, same, holds⟩ := ensures o t leads
  exact ⟨a, same, weaker a t holds⟩

/-- A loop over a list. The invariant is about what is left of the list, the accumulator and the
store. -/
theorem foldlM {body : α → E → Program K V α} (inv : List E → α → Map K V → Prop)
    (turn : ∀ entry rest a store, inv (entry :: rest) a store →
      (body a entry).Ensures store (inv rest))
    {entries : List E} {a : α} (start : inv entries a store) :
    (entries.foldlM body a).Ensures store (inv []) := by
  induction entries generalizing a store with
  | nil => exact done start
  | cons entry rest ih =>
    rw [List.foldlM_cons]
    exact (turn entry rest a store start).bind fun b u kept => ih kept

/-- A program that has the property has a result. -/
theorem leads (ensures : x.Ensures store mid) : ∃ a t, x.Leads store (.ok a) t ∧ mid a t := by
  obtain ⟨o, t, leads⟩ := leads_total x store
  obtain ⟨a, rfl, holds⟩ := ensures o t leads
  exact ⟨a, t, leads, holds⟩

theorem exec (ensures : x.Ensures store mid) (ran : x.exec store choices = some (o, t, rest)) :
    ∃ a, o = .ok a ∧ mid a t :=
  ensures o t (leads_of_exec ran)

end Ensures

/-- Whatever is chosen, the program leaves the store as it is and returns something with the
property. -/
def Returns (x : Program K V α) (store : Map K V) (result : α → Prop) : Prop :=
  x.Ensures store fun a t => t = store ∧ result a

namespace Returns

variable {result : α → Prop}

theorem done {a : α} (holds : result a) : (Program.done a : Program K V α).Returns store result :=
  Ensures.done ⟨rfl, holds⟩

theorem ensures (returns : x.Returns store result) (weaker : ∀ a, result a → mid a store) :
    x.Ensures store mid := by
  refine Ensures.mono returns ?_
  rintro a t ⟨rfl, holds⟩
  exact weaker a holds

theorem seq (first : x.Returns store result) (second : ∀ a, result a → (f a).Ensures store post) :
    (x >>= f).Ensures store post := by
  refine Ensures.bind first ?_
  rintro a u ⟨same, holds⟩
  rw [same]
  exact second a holds

/-- What can follow a program that only reads can follow it. -/
theorem leads {o : Except String β} (first : x.Returns store result)
    (second : ∀ a, result a → (f a).Leads store o t) : (x >>= f).Leads store o t := by
  obtain ⟨a, u, ended, rfl, holds⟩ := Ensures.leads first
  exact ended.bind (second a holds)

theorem bind {after : β → Prop} (first : x.Returns store result)
    (second : ∀ a, result a → (f a).Returns store after) : (x >>= f).Returns store after :=
  first.seq second

theorem mono {after : α → Prop} (returns : x.Returns store result)
    (weaker : ∀ a, result a → after a) : x.Returns store after :=
  Ensures.mono returns fun a _ both => ⟨both.1, weaker a both.2⟩

/-- A loop that only reads. -/
theorem foldlM {body : α → E → Program K V α} (inv : List E → α → Prop)
    (turn : ∀ entry rest a, inv (entry :: rest) a → (body a entry).Returns store (inv rest))
    {entries : List E} {a : α} (start : inv entries a) :
    (entries.foldlM body a).Returns store (inv []) := by
  refine Ensures.foldlM (fun rest a t => t = store ∧ inv rest a) ?_ ⟨rfl, start⟩
  rintro entry rest a u ⟨same, holds⟩
  rw [same]
  exact turn entry rest a holds

end Returns

end DistSys.Lib.Program
