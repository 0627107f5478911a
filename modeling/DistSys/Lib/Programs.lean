import DistSys.Lib.Maps
import Mathlib.Data.List.Perm.Basic

/-! Programs of a client of a shared store, and what a program reads and writes. Random numbers and
the order in which a map is ranged over are choices of the environment. -/
namespace DistSys.Lib

/-- A program that reads, writes and lists the store. `list` gives the entries whose key is wanted,
`intn` draws a number below `n`, and `range` puts the keys of a map in some order. -/
inductive Program (K V α : Type)
  | done (a : α)
  | panic (message : String)
  | get (key : K) (next : Option V → Program K V α)
  | put (key : K) (value : V) (next : Program K V α)
  | list (want : K → Bool) (next : List (K × V) → Program K V α)
  | intn (n : Int) (next : Nat → Program K V α)
  | range (keys : List K) (next : List K → Program K V α)

inductive Choice (K : Type)
  | drawn (i : Nat)
  | order (keys : List K)
  deriving DecidableEq, Repr

namespace Program

variable {K V α β : Type}

def bind : Program K V α → (α → Program K V β) → Program K V β
  | done a, f => f a
  | panic message, _ => panic message
  | get key next, f => get key fun value => (next value).bind f
  | put key value next, f => put key value (next.bind f)
  | list want next, f => list want fun entries => (next entries).bind f
  | intn n next, f => intn n fun i => (next i).bind f
  | range keys next, f => range keys fun order => (next order).bind f

instance : Monad (Program K V) where
  pure := done
  bind := bind

variable [DecidableEq K]

/-- The wanted entries of a store in this order. -/
def entriesAt (store : Map K V) (keys : List K) : List (K × V) :=
  keys.filterMap fun key => (store.lookup key).map (Prod.mk key)

def takeOrder (keys : List K) : List (Choice K) → Option (List K × List (Choice K))
  | .order order :: rest => if order.Perm keys then some (order, rest) else none
  | _ => none

omit [DecidableEq K] in
def takeDraw (n : Int) : List (Choice K) → Option (Nat × List (Choice K))
  | .drawn i :: rest => if (i : Int) < n then some (i, rest) else none
  | _ => none

/-- A run to the end: the result or the message of the panic, the store, and the choices that are
left. `none` if a choice is not a possible one. -/
def exec : Program K V α → Map K V → List (Choice K) →
    Option (Except String α × Map K V × List (Choice K))
  | done a, store, choices => some (.ok a, store, choices)
  | panic message, store, choices => some (.error message, store, choices)
  | get key next, store, choices => (next (store.lookup key)).exec store choices
  | put key value next, store, choices => next.exec (store.insert key value) choices
  | list want next, store, choices =>
    (takeOrder (store.keys.filter want) choices).bind fun taken =>
      (next (entriesAt store taken.1)).exec store taken.2
  | intn n next, store, choices =>
    if n ≤ 0 then some (.error "invalid argument to Intn", store, choices)
    else (takeDraw n choices).bind fun taken => (next taken.1).exec store taken.2
  | range keys next, store, choices =>
    (takeOrder keys choices).bind fun taken => (next taken.1).exec store taken.2

variable {x : Program K V α} {f : α → Program K V β} {store store' t : Map K V}
  {choices rest : List (Choice K)} {o : Except String α}

theorem takeOrder_perm {keys order : List K}
    (taken : takeOrder keys choices = some (order, rest)) : order.Perm keys := by
  unfold takeOrder at taken
  split at taken
  · simp only [Option.ite_none_right_eq_some, Option.some.injEq, Prod.mk.injEq] at taken
    exact taken.2.1 ▸ taken.1
  · cases taken

omit [DecidableEq K] in
theorem takeDraw_lt {n : Int} {i : Nat} (taken : takeDraw n choices = some (i, rest)) :
    (i : Int) < n := by
  unfold takeDraw at taken
  split at taken
  · simp only [Option.ite_none_right_eq_some, Option.some.injEq, Prod.mk.injEq] at taken
    exact taken.2.1 ▸ taken.1
  · cases taken

theorem takeOrder_congr {keys keys' : List K} (same : keys.Perm keys') :
    takeOrder keys choices = takeOrder keys' choices := by
  unfold takeOrder
  split
  · rename_i order rest
    have iff : order.Perm keys ↔ order.Perm keys' :=
      ⟨fun perm => perm.trans same, fun perm => perm.trans same.symm⟩
    simp only [iff]
  · rfl

/-- Two programs one after the other. -/
theorem exec_bind (x : Program K V α) (f : α → Program K V β) (store : Map K V)
    (choices : List (Choice K)) :
    (x >>= f).exec store choices = (x.exec store choices).bind fun ended => match ended.1 with
      | .ok a => (f a).exec ended.2.1 ended.2.2
      | .error message => some (.error message, ended.2) := by
  change (x.bind f).exec store choices = _
  induction x generalizing store choices with
  | done a => rfl
  | panic message => rfl
  | get key next ih => exact ih _ _ _
  | put key value next ih => exact ih _ _
  | list want next ih =>
    simp only [bind, exec, Option.bind_assoc]
    exact congrArg _ (funext fun taken => ih _ _ _)
  | intn n next ih =>
    simp only [bind, exec]
    split
    · rfl
    · rw [Option.bind_assoc]
      exact congrArg _ (funext fun taken => ih _ _ _)
  | range keys next ih =>
    simp only [bind, exec, Option.bind_assoc]
    exact congrArg _ (funext fun taken => ih _ _ _)

/-! ### Programs without choices -/

/-- The program draws nothing and ranges over no map. -/
def ChoiceFree : Program K V α → Prop
  | done _ | panic _ => True
  | get _ next => ∀ value, (next value).ChoiceFree
  | put _ _ next => next.ChoiceFree
  | list _ _ | intn _ _ | range _ _ => False

omit [DecidableEq K] in
theorem ChoiceFree.bind (free : x.ChoiceFree) (next : ∀ a, (f a).ChoiceFree) :
    (x >>= f).ChoiceFree := by
  change (x.bind f).ChoiceFree
  induction x with
  | done a => exact next a
  | panic message => trivial
  | get key cont ih => exact fun value => ih value (free value)
  | put key value cont ih => exact ih free
  | list | intn | range => cases free

theorem ChoiceFree.exec (free : x.ChoiceFree) (store : Map K V) (choices : List (Choice K)) :
    ∃ o t, x.exec store choices = some (o, t, choices) := by
  induction x generalizing store with
  | done a | panic message => exact ⟨_, _, rfl⟩
  | get key cont ih => exact ih _ (free _) store
  | put key value cont ih => exact ih free _
  | list | intn | range => cases free

/-! ### What a program uses -/

/-- What a program may read and write, and what is known of every entry of the store. -/
structure Access (K V : Type) where
  good : K → V → Prop
  reads : K → Prop
  writes : K → Prop

/-- The program keeps to its access whatever it reads, and its result has the property. -/
def Uses (access : Access K V) (post : α → Prop) : Program K V α → Prop
  | done a => post a
  | panic _ => True
  | get key next => access.reads key ∧
      ∀ value, (∀ v, value = some v → access.good key v) → (next value).Uses access post
  | put key value next => access.writes key ∧ access.good key value ∧ next.Uses access post
  | list want next => (∀ key, want key = true → access.reads key) ∧
      ∀ entries, (∀ entry ∈ entries, want entry.1 = true ∧ access.good entry.1 entry.2) →
        (next entries).Uses access post
  | intn n next => ∀ i : Nat, (i : Int) < n → (next i).Uses access post
  | range keys next => ∀ order, order.Perm keys → (next order).Uses access post

def Access.Good (access : Access K V) (store : Map K V) : Prop :=
  ∀ key value, store.lookup key = some value → access.good key value

/-- The two stores are the same as far as the program reads them. -/
def Access.Same (access : Access K V) (store store' : Map K V) : Prop :=
  ∀ key, access.reads key → store'.lookup key = store.lookup key

variable {access : Access K V} {post : α → Prop} {after : β → Prop}

omit [DecidableEq K] in
theorem Uses.bind (uses : x.Uses access post) (next : ∀ a, post a → (f a).Uses access after) :
    (x >>= f).Uses access after := by
  change (x.bind f).Uses access after
  induction x with
  | done a => exact next a uses
  | panic message => trivial
  | get key cont ih => exact ⟨uses.1, fun value known => ih value (uses.2 value known)⟩
  | put key value cont ih => exact ⟨uses.1, uses.2.1, ih uses.2.2⟩
  | list want cont ih => exact ⟨uses.1, fun entries known => ih entries (uses.2 entries known)⟩
  | intn n cont ih => exact fun i small => ih i (uses i small)
  | range keys cont ih => exact fun order perm => ih order (uses order perm)

omit [DecidableEq K] in
/-- A loop over a list whose turns keep the invariant. -/
theorem Uses.foldlM {E : Type} {body : α → E → Program K V α} (inv : α → Prop) {entries : List E}
    (turn : ∀ a, ∀ entry ∈ entries, inv a → (body a entry).Uses access inv) {a : α} (start : inv a) :
    (entries.foldlM body a).Uses access inv := by
  induction entries generalizing a with
  | nil => exact start
  | cons entry rest ih =>
    rw [List.foldlM_cons]
    refine Uses.bind (turn a entry List.mem_cons_self start) fun b kept => ?_
    exact ih (fun c e member => turn c e (List.mem_cons_of_mem entry member)) kept

theorem Access.Good.insert (good : access.Good store) {key : K} {value : V}
    (fits : access.good key value) : access.Good (store.insert key value) := by
  intro k v found
  rw [Map.lookup_insert] at found
  split at found
  · rename_i same
    subst same
    cases found
    exact fits
  · exact good k v found

theorem mem_entriesAt {keys : List K} {entry : K × V} (member : entry ∈ entriesAt store keys) :
    entry.1 ∈ keys ∧ store.lookup entry.1 = some entry.2 := by
  obtain ⟨key, there, made⟩ := List.mem_filterMap.mp member
  obtain ⟨value, found, rfl⟩ := Option.map_eq_some_iff.mp made
  exact ⟨there, found⟩

/-- The entries that a program lists are known ones. -/
theorem listed_good (good : access.Good store) {want : K → Bool} {keys : List K}
    (perm : keys.Perm (store.keys.filter want)) :
    ∀ entry ∈ entriesAt store keys, want entry.1 = true ∧ access.good entry.1 entry.2 := by
  intro entry member
  obtain ⟨there, found⟩ := mem_entriesAt member
  exact ⟨(List.mem_filter.mp (perm.mem_iff.mp there)).2, good _ _ found⟩

/-- A program changes only what it may write, keeps what is known of the entries, and a result has
the property. -/
theorem Uses.frame (uses : x.Uses access post) (good : access.Good store)
    (ran : x.exec store choices = some (o, t, rest)) :
    (∀ key, ¬ access.writes key → t.lookup key = store.lookup key) ∧ access.Good t ∧
      ∀ a, o = .ok a → post a := by
  induction x generalizing store choices with
  | done a =>
    cases Option.some.inj ran
    refine ⟨fun _ _ => rfl, good, ?_⟩
    intro b same
    cases same
    exact uses
  | panic message =>
    cases Option.some.inj ran
    exact ⟨fun _ _ => rfl, good, fun _ same => by cases same⟩
  | get key next ih => exact ih _ (uses.2 _ fun v found => good key v found) good ran
  | put key value next ih =>
    obtain ⟨same, kept, result⟩ := ih uses.2.2 (good.insert uses.2.1) ran
    refine ⟨?_, kept, result⟩
    intro k unwritten
    have other : k ≠ key := fun same => unwritten (same ▸ uses.1)
    rw [same k unwritten, AList.lookup_insert_ne other]
  | list want next ih =>
    obtain ⟨⟨keys, more⟩, taken, ran⟩ := Option.bind_eq_some_iff.mp ran
    exact ih _ (uses.2 _ (listed_good good (takeOrder_perm taken))) good ran
  | intn n next ih =>
    simp only [exec] at ran
    split at ran
    · cases Option.some.inj ran
      exact ⟨fun _ _ => rfl, good, fun _ same => by cases same⟩
    · obtain ⟨⟨i, more⟩, taken, ran⟩ := Option.bind_eq_some_iff.mp ran
      exact ih _ (uses i (takeDraw_lt taken)) good ran
  | range keys next ih =>
    obtain ⟨⟨order, more⟩, taken, ran⟩ := Option.bind_eq_some_iff.mp ran
    exact ih _ (uses order (takeOrder_perm taken)) good ran

theorem Access.Same.insert (same : access.Same store store') (key : K) (value : V) :
    access.Same (store.insert key value) (store'.insert key value) := by
  intro k read
  rw [Map.lookup_insert, Map.lookup_insert, same k read]

/-- The same keys are listed in both stores. -/
theorem Access.Same.keys_perm (same : access.Same store store') {want : K → Bool}
    (wanted : ∀ key, want key = true → access.reads key) :
    (store.keys.filter want).Perm (store'.keys.filter want) := by
  refine (List.perm_ext_iff_of_nodup (store.keys_nodup.filter _) (store'.keys_nodup.filter _)).mpr ?_
  intro key
  rw [List.mem_filter, List.mem_filter]
  refine and_congr_left fun here => ?_
  rw [← AList.mem_keys, ← AList.mem_keys, ← AList.lookup_isSome, ← AList.lookup_isSome,
    same key (wanted key here)]

theorem Access.Same.entriesAt_eq (same : access.Same store store') {want : K → Bool} {keys : List K}
    (wanted : ∀ key, want key = true → access.reads key)
    (perm : keys.Perm (store.keys.filter want)) : entriesAt store' keys = entriesAt store keys := by
  refine List.filterMap_congr ?_
  intro key member
  have here := (List.mem_filter.mp (perm.mem_iff.mp member)).2
  rw [same key (wanted key here)]

/-- From stores that are the same as far as the program reads, the same choices lead to the same
result and to such stores again. -/
theorem Uses.agree (uses : x.Uses access post) (good : access.Good store)
    (same : access.Same store store') (ran : x.exec store choices = some (o, t, rest)) :
    ∃ t', x.exec store' choices = some (o, t', rest) ∧ access.Same t t' := by
  induction x generalizing store store' choices with
  | done a | panic message =>
    cases Option.some.inj ran
    exact ⟨store', rfl, same⟩
  | get key next ih =>
    simp only [exec] at ran ⊢
    rw [same key uses.1]
    exact ih _ (uses.2 _ fun v found => good key v found) good same ran
  | put key value next ih =>
    exact ih uses.2.2 (good.insert uses.2.1) (same.insert key value) ran
  | list want next ih =>
    simp only [exec] at ran ⊢
    obtain ⟨⟨keys, more⟩, taken, ran⟩ := Option.bind_eq_some_iff.mp ran
    have perm := takeOrder_perm taken
    rw [← takeOrder_congr (same.keys_perm uses.1), taken, Option.bind_some,
      same.entriesAt_eq uses.1 perm]
    exact ih _ (uses.2 _ (listed_good good perm)) good same ran
  | intn n next ih =>
    simp only [exec] at ran ⊢
    split at ran
    · rename_i none
      cases Option.some.inj ran
      exact ⟨store', if_pos none, same⟩
    · rename_i some
      obtain ⟨⟨i, more⟩, taken, ran⟩ := Option.bind_eq_some_iff.mp ran
      rw [if_neg some, taken]
      exact ih _ (uses i (takeDraw_lt taken)) good same ran
  | range keys next ih =>
    simp only [exec] at ran ⊢
    obtain ⟨⟨order, more⟩, taken, ran⟩ := Option.bind_eq_some_iff.mp ran
    rw [taken]
    exact ih _ (uses order (takeOrder_perm taken)) good same ran

end Program

end DistSys.Lib
