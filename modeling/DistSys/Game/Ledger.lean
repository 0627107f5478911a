import DistSys.Game.Isolation
import DistSys.Game.Purse
import DistSys.Lib.Outcomes

/-! How the purse of a player is stored: numbers as decimal texts under the keys of the player. What
is written under one key is read back, and the other entries are as they were. -/
namespace DistSys.Game

open DistSys.Lib DistSys.Kv

variable {name key value : String} {h g : Hardware} {n : Nat} {store t : Map String String}

/-! ### Numbers -/

/-- The first number that is too large for an `int`. -/
def intLimit : Nat := 9223372036854775808

theorem wrap_of_lt {n : Int} (low : 0 ≤ n) (high : n < intLimit) : wrap n = n := by
  unfold wrap size64
  unfold intLimit at high
  rw [Int.bmod_eq_of_le] <;> omega

theorem wrap_natCast (fits : n < intLimit) : wrap n = n :=
  wrap_of_lt (Int.natCast_nonneg n) (Int.ofNat_lt.mpr fits)

theorem wrap_add_wrap (a b : Int) : wrap (a + wrap b) = wrap (a + b) := Int.add_bmod_bmod

theorem wrap_wrap_add (a b : Int) : wrap (wrap a + b) = wrap (a + b) := Int.bmod_add_bmod

theorem digits_toDigits (n : Nat) : digits (Nat.toDigits 10 n) = some n := by
  have each : ∀ (text : List Char) (m : Nat), (∀ c ∈ text, c.isDigit = true) →
      text.foldlM (fun n c => if c.isDigit then some (10 * n + (c.toNat - 48)) else none) m =
        some (Nat.ofDigitChars 10 text m) := by
    intro text
    induction text with
    | nil =>
      intro m _
      rfl
    | cons c rest ih =>
      intro m decimal
      have first := decimal c List.mem_cons_self
      rw [List.foldlM_cons, if_pos first]
      exact ih _ fun d member => decimal d (List.mem_cons_of_mem c member)
  rw [digits, if_neg Nat.toDigits_ne_nil, each _ 0 fun c member =>
    Nat.isDigit_of_mem_toDigits (by decide) (by decide) member, Nat.ofDigitChars_ten_toDigits]

theorem parseUint_formatUint (fits : n < size64) : parseUint (formatUint n) = some n := by
  simp [parseUint, formatUint, digits_toDigits, fits]

theorem parseUint_lt (parsed : parseUint value = some n) : n < size64 := by
  simpa using (Option.filter_eq_some_iff.mp parsed).2

theorem atoi_itoa (fits : n < intLimit) : atoi (itoa n) = some (n : Int) := by
  have text : (itoa n).toList = Nat.toDigits 10 n := Nat.toList_repr
  have decimal : ∀ c ∈ Nat.toDigits 10 n, c.isDigit = true := fun c member =>
    Nat.isDigit_of_mem_toDigits (by decide) (by decide) member
  simp only [atoi, text]
  split
  · rename_i rest first
    rw [first] at decimal
    exact absurd (decimal '-' List.mem_cons_self) (by decide)
  · rename_i rest first
    rw [first] at decimal
    exact absurd (decimal '+' List.mem_cons_self) (by decide)
  · simp [digits_toDigits, wrap_natCast fits]

/-! ### The keys of one player are apart -/

section

variable (plain : Plain name)
include plain

theorem compKey_inj : compKey name h.text = compKey name g.text ↔ h = g := by
  constructor
  · intro same
    have fields := congrArg split same
    rw [split_compKey plain.whole, split_compKey plain.whole] at fields
    cases h <;> cases g <;> first | rfl | simp [Hardware.text] at fields
  · rintro rfl
    rfl

theorem not_inventory (short : (split key).length < 3) : key ∉ inventory name := by
  intro member
  obtain ⟨h, rfl⟩ := mem_inventory.mp member
  rw [split_compKey plain.whole] at short
  exact absurd short (by simp)

theorem name_not_inventory : name ∉ inventory name :=
  not_inventory plain (by simp [split_name plain.whole])

theorem balanceKey_not_inventory : balanceKey name ∉ inventory name :=
  not_inventory plain (by simp [split_balanceKey plain.whole])

theorem locKey_not_inventory : locKey name ∉ inventory name :=
  not_inventory plain (by simp [split_locKey plain.whole])

theorem balanceKey_ne_name : balanceKey name ≠ name := by
  intro same
  have fields := congrArg split same
  rw [split_balanceKey plain.whole, split_name plain.whole] at fields
  simp at fields

theorem locKey_ne_name : locKey name ≠ name := by
  intro same
  have fields := congrArg split same
  rw [split_locKey plain.whole, split_name plain.whole] at fields
  simp at fields

theorem locKey_ne_balanceKey : locKey name ≠ balanceKey name := by
  intro same
  have fields := congrArg split same
  rw [split_locKey plain.whole, split_balanceKey plain.whole] at fields
  simp at fields

end

/-! ### The purse in the store -/

def balanceOf (name : String) (store : Map String String) : Nat :=
  ((store.lookup (balanceKey name)).bind parseUint).getD 0

/-- A count that is not positive is as good as none. -/
def countOf (name : String) (store : Map String String) (h : Hardware) : Nat :=
  (((store.lookup (compKey name h.text)).bind atoi).getD 0).toNat

def purse (name : String) (store : Map String String) : Purse :=
  ⟨balanceOf name store, countOf name store⟩

theorem purse_congr
    (same : ∀ key, key = balanceKey name ∨ key ∈ inventory name → t.lookup key = store.lookup key) :
    purse name t = purse name store := by
  have balance : balanceOf name t = balanceOf name store := by
    rw [balanceOf, balanceOf, same _ (.inl rfl)]
  have count : countOf name t = countOf name store := by
    funext h
    rw [countOf, countOf, same _ (.inr (mem_inventory.mpr ⟨h, rfl⟩))]
  rw [purse, purse, balance, count]

theorem purse_other (notBalance : key ≠ balanceKey name) (notCount : key ∉ inventory name) :
    purse name (store.insert key value) = purse name store := by
  apply purse_congr
  rintro k (rfl | member)
  · exact AList.lookup_insert_ne notBalance.symm
  · exact AList.lookup_insert_ne fun same => notCount (same ▸ member)

theorem purse_balance (plain : Plain name) (fits : n < size64) :
    purse name (store.insert (balanceKey name) (formatUint n)) =
      { purse name store with balance := n } := by
  have balance : balanceOf name (store.insert (balanceKey name) (formatUint n)) = n := by
    rw [balanceOf, AList.lookup_insert, Option.bind_some, parseUint_formatUint fits, Option.getD_some]
  have count : countOf name (store.insert (balanceKey name) (formatUint n)) = countOf name store := by
    funext h
    have other : compKey name h.text ≠ balanceKey name := fun same =>
      balanceKey_not_inventory plain (same ▸ mem_inventory.mpr ⟨h, rfl⟩)
    rw [countOf, countOf, AList.lookup_insert_ne other]
  rw [purse, purse, balance, count]

theorem purse_count (plain : Plain name) (fits : n < intLimit) :
    purse name (store.insert (compKey name h.text) (itoa n)) = (purse name store).set h n := by
  have balance : balanceOf name (store.insert (compKey name h.text) (itoa n)) =
      balanceOf name store := by
    have other : balanceKey name ≠ compKey name h.text := fun same =>
      balanceKey_not_inventory plain (mem_inventory.mpr ⟨h, same⟩)
    rw [balanceOf, balanceOf, AList.lookup_insert_ne other]
  have count : countOf name (store.insert (compKey name h.text) (itoa n)) =
      Function.update (countOf name store) h n := by
    funext g
    rw [Function.update_apply, countOf, Map.lookup_insert]
    by_cases same : g = h
    · rw [if_pos (by rw [same]), if_pos same, Option.bind_some, atoi_itoa fits, Option.getD_some,
        Int.toNat_natCast]
    · rw [if_neg fun equal => same ((compKey_inj plain).mp equal), if_neg same, countOf]
  rw [purse, balance, count]
  rfl

/-! ### What is known of the entries -/

/-- What is known of an entry. -/
structure Sound (name key value : String) : Prop where
  level : key = name → value ∈ education
  number : key = balanceKey name ∨ key ∈ education → ∃ n, parseUint value = some n
  count : key ∈ inventory name → ∃ n, atoi value = some n
  own : hasPrefix key (compPrefix ++ name) = true → key ∈ inventory name

def AllSound (name : String) (store : Map String String) : Prop :=
  ∀ ⦃key value⦄, store.lookup key = some value → Sound name key value

theorem AllSound.insert (all : AllSound name store) (sound : Sound name key value) :
    AllSound name (store.insert key value) := by
  intro k v found
  rw [Map.lookup_insert] at found
  split at found
  · rename_i same
    subst same
    cases found
    exact sound
  · exact all found

/-- All entries that a player's commands read are there and can be read. -/
structure Books (name : String) (store : Map String String) : Prop where
  sound : AllSound name store
  named : name ∈ store
  funded : balanceKey name ∈ store

namespace Books

theorem insert (books : Books name store) (sound : Sound name key value) :
    Books name (store.insert key value) := by
  constructor
  · exact books.sound.insert sound
  · exact (AList.mem_insert _).mpr (.inr books.named)
  · exact (AList.mem_insert _).mpr (.inr books.funded)

theorem clear (books : Books name store) : Unshadowed name store := by
  intro key member begins
  obtain ⟨value, found⟩ := Map.lookup_of_mem member
  exact (books.sound found).own begins

theorem balance (books : Books name store) : ∃ value,
    store.lookup (balanceKey name) = some value ∧ parseUint value = some (balanceOf name store) := by
  obtain ⟨value, found⟩ := Map.lookup_of_mem books.funded
  obtain ⟨n, parsed⟩ := (books.sound found).number (.inl rfl)
  refine ⟨value, found, ?_⟩
  rw [balanceOf, found, Option.bind_some, parsed, Option.getD_some]

theorem balance_lt (books : Books name store) : balanceOf name store < size64 := by
  obtain ⟨value, _, parsed⟩ := books.balance
  exact parseUint_lt parsed

end Books

theorem sound_balance (plain : Plain name) (fits : n < size64) :
    Sound name (balanceKey name) (formatUint n) := by
  have own : balanceKey name ∈ ownKeys name := mem_ownKeys.mpr (.inr (.inr (.inl rfl)))
  constructor
  · intro same
    exact absurd same (balanceKey_ne_name plain)
  · intro _
    exact ⟨n, parseUint_formatUint fits⟩
  · intro member
    exact absurd member (balanceKey_not_inventory plain)
  · exact own_good own

theorem sound_count (plain : Plain name) (fits : n < intLimit) :
    Sound name (compKey name h.text) (itoa n) := by
  have member : compKey name h.text ∈ inventory name := mem_inventory.mpr ⟨h, rfl⟩
  constructor
  · intro same
    rw [same] at member
    exact absurd member (name_not_inventory plain)
  · rintro (same | problem)
    · rw [same] at member
      exact absurd member (balanceKey_not_inventory plain)
    · exact absurd problem (own_not_problem plain (compKey_own name h))
  · intro _
    exact ⟨n, atoi_itoa fits⟩
  · intro _
    exact member

theorem sound_level (plain : Plain name) (level : value ∈ education) : Sound name name value := by
  constructor
  · intro _
    exact level
  · rintro (same | problem)
    · exact absurd same.symm (balanceKey_ne_name plain)
    · exact absurd problem plain.notProblem
  · intro member
    exact absurd member (name_not_inventory plain)
  · exact own_good (mem_ownKeys.mpr (.inl rfl))

theorem sound_loc (plain : Plain name) : Sound name (locKey name) value := by
  have own : locKey name ∈ ownKeys name := mem_ownKeys.mpr (.inr (.inl rfl))
  constructor
  · intro same
    exact absurd same (locKey_ne_name plain)
  · rintro (same | problem)
    · exact absurd same (locKey_ne_balanceKey plain)
    · exact absurd problem (own_not_problem plain own)
  · intro member
    exact absurd member (locKey_not_inventory plain)
  · exact own_good own

theorem sound_health (plain : Plain name) (problem : key ∈ education) (fits : n < size64) :
    Sound name key (formatUint n) := by
  constructor
  · intro same
    exact absurd (same ▸ problem) plain.notProblem
  · intro _
    exact ⟨n, parseUint_formatUint fits⟩
  · intro member
    exact absurd problem (own_not_problem plain (mem_ownKeys.mpr (.inr (.inr (.inr member)))))
  · intro begins
    rw [hasPrefix_iff, String.toList_append] at begins
    have whole : ∀ problem ∈ education, '/' ∉ problem.toList := by decide
    exact absurd (begins.subset (by simp [compPrefix])) (whole key problem)

end DistSys.Game
