import DistSys.Game.Ledger

/-! What the commands that mine and buy do with the purse of a player, whatever is drawn and in
whatever order the store is listed. -/
namespace DistSys.Game

open DistSys.Lib DistSys.Kv

variable {name key value : String} {h : Hardware} {store t : Map String String} {p : Purse}
  {computers : Map String Int} {order : List String} {α : Type}

/-! ### Single steps -/

theorem get_returns : (get key).Returns store (· = store.lookup key) := by
  rintro o t ⟨rfl, rfl⟩
  exact ⟨_, rfl, rfl, rfl⟩

theorem put_ensures : (put key value).Ensures store fun _ t => t = store.insert key value := by
  rintro o t ⟨rfl, rfl⟩
  exact ⟨(), rfl, rfl⟩

theorem list_returns {start : String} : (list start).Returns store fun entries =>
    ∃ keys : List String, keys.Perm (store.keys.filter (hasPrefix · start)) ∧
      entries = Program.entriesAt store keys := by
  rintro o t ⟨keys, perm, rfl, rfl⟩
  exact ⟨_, rfl, rfl, keys, perm, rfl⟩

theorem intn_returns {n : Int} (positive : 0 < n) :
    (intn n).Returns store fun i => (i : Int) < n := by
  rintro o t (⟨none, _⟩ | ⟨i, below, rfl, rfl⟩)
  · omega
  · exact ⟨i, rfl, rfl, below⟩

theorem range_returns : (range computers).Returns store (·.Perm computers.keys) := by
  rintro o t ⟨order, perm, rfl, rfl⟩
  exact ⟨order, rfl, rfl, perm⟩

theorem orElse_returns {found : Option α} {a : α} {failed : Play α} (there : found = some a) :
    (orElse found failed).Returns store (· = a) := by
  rw [there]
  exact .done rfl

theorem getBalance_returns (books : Books name store) :
    (getBalance name).Returns store (· = (purse name store).balance) := by
  obtain ⟨text, found, parsed⟩ := books.balance
  refine get_returns.bind ?_
  rintro _ rfl
  refine (orElse_returns found).bind ?_
  rintro _ rfl
  exact orElse_returns parsed

/-! ### The computers of a player -/

/-- The map that `getComputers` makes has the computers of which there are any. -/
structure Counted (p : Purse) (computers : Map String Int) : Prop where
  kinds : OfHardware computers
  lookup : ∀ h : Hardware, computers.lookup h.text =
    if 0 < p.count h then some (p.count h : Int) else none

/-- The entries that are left are those of the player, and the others have been counted. -/
structure Counting (name : String) (store : Map String String) (left : List (String × String))
    (computers : Map String Int) : Prop where
  kinds : OfHardware computers
  own : ∀ entry ∈ left, entry.1 ∈ inventory name ∧ store.lookup entry.1 = some entry.2
  right : ∀ (h : Hardware) n, computers.lookup h.text = some n →
    n = countOf name store h ∧ 0 < countOf name store h
  done : ∀ h : Hardware, 0 < countOf name store h →
    (∀ entry ∈ left, entry.1 ≠ compKey name h.text) →
    computers.lookup h.text = some (countOf name store h : Int)

theorem text_inj {h g : Hardware} : h.text = g.text ↔ h = g := by
  cases h <;> cases g <;> decide

theorem hasPrefix_compKey (name comp : String) :
    hasPrefix (compKey name comp) (compPrefix ++ name) = true := by
  rw [hasPrefix_iff]
  simp [compKey]

theorem Counting.counted {computers : Map String Int} (counting : Counting name store [] computers) :
    Counted (purse name store) computers := by
  refine ⟨counting.kinds, ?_⟩
  intro h
  split
  · rename_i some
    exact counting.done h some (by simp)
  · rename_i none
    by_contra there
    obtain ⟨n, found⟩ := Option.ne_none_iff_exists'.mp there
    exact none (counting.right h n found).2

/-- All entries are left. -/
theorem Counting.start (books : Books name store) {keys : List String}
    (perm : keys.Perm (store.keys.filter (hasPrefix · (compPrefix ++ name)))) :
    Counting name store (Program.entriesAt store keys) ∅ := by
  constructor
  · intro comp member
    cases member
  · intro entry member
    obtain ⟨there, found⟩ := Program.mem_entriesAt member
    have begins := (List.mem_filter.mp (perm.mem_iff.mp there)).2
    exact ⟨(books.sound found).own begins, found⟩
  · intro h n found
    cases found
  · intro h positive absent
    -- a kind without an entry would have no computers
    obtain ⟨text, found⟩ : ∃ text, store.lookup (compKey name h.text) = some text := by
      apply Option.ne_none_iff_exists'.mp
      intro empty
      simp [countOf, empty] at positive
    have key : compKey name h.text ∈ keys := by
      refine perm.mem_iff.mpr (List.mem_filter.mpr ⟨?_, hasPrefix_compKey name h.text⟩)
      exact AList.mem_keys.mp (Map.mem_of_lookup found)
    have entry : (compKey name h.text, text) ∈ Program.entriesAt store keys :=
      List.mem_filterMap.mpr ⟨_, key, by rw [found]; rfl⟩
    exact absurd rfl (absent _ entry)

/-- One more entry is counted. -/
theorem Counting.turn (plain : Plain name) {entry : String × String} {left : List (String × String)}
    (counting : Counting name store (entry :: left) computers) (key : entry.1 = compKey name h.text)
    {num : Int} (count : countOf name store h = num.toNat) :
    Counting name store left (if 0 < num then computers.insert h.text num else computers) := by
  have own := fun e member => counting.own e (List.mem_cons_of_mem entry member)
  have others : ∀ g : Hardware, g ≠ h → 0 < countOf name store g →
      (∀ e ∈ left, e.1 ≠ compKey name g.text) →
      computers.lookup g.text = some (countOf name store g : Int) := by
    intro g other positive absent
    refine counting.done g positive (List.forall_mem_cons.mpr ⟨?_, absent⟩)
    rw [key]
    exact fun same => other ((compKey_inj plain).mp same).symm
  split
  · rename_i positive
    have number : num = countOf name store h := by omega
    constructor
    · exact counting.kinds.insert ⟨h, rfl⟩ num
    · exact own
    · intro g n found
      rw [Map.lookup_insert] at found
      split at found
      · rename_i same
        cases text_inj.mp same
        cases found
        exact ⟨number, by omega⟩
      · exact counting.right g n found
    · intro g more absent
      rw [Map.lookup_insert]
      split
      · rename_i same
        cases text_inj.mp same
        rw [number]
      · rename_i other
        exact others g (fun same => other (congrArg Hardware.text same)) more absent
  · rename_i none
    refine ⟨counting.kinds, own, counting.right, ?_⟩
    intro g more absent
    refine others g ?_ more absent
    rintro rfl
    omega

theorem getComputers_returns (plain : Plain name) (books : Books name store) :
    (getComputers name).Returns store (Counted (purse name store)) := by
  refine list_returns.bind ?_
  rintro _ ⟨keys, perm, rfl⟩
  have counted : (List.foldlM countComputer ∅ (Program.entriesAt store keys)).Returns store
      (Counting name store []) := by
    refine Program.Returns.foldlM (Counting name store) ?_ (Counting.start books perm)
    intro entry left computers counting
    obtain ⟨member, found⟩ := counting.own entry List.mem_cons_self
    obtain ⟨h, key⟩ := mem_inventory.mp member
    obtain ⟨num, parsed⟩ := (books.sound found).count member
    have field : (split entry.1)[2]? = some h.text := by
      rw [key, split_compKey plain.whole]
      rfl
    have count : countOf name store h = num.toNat := by
      rw [countOf, ← key, found, Option.bind_some, parsed, Option.getD_some]
    refine (orElse_returns field).bind ?_
    rintro _ rfl
    refine (orElse_returns parsed).bind ?_
    rintro _ rfl
    exact .done (counting.turn plain key count)
  exact counted.mono fun computers counting => counting.counted

/-! ### Sums over the computers -/

theorem Counted.positive (counted : Counted p computers) (member : h.text ∈ computers.keys) :
    0 < p.count h := by
  by_contra none
  have absent := (counted.lookup h).trans (if_neg none)
  exact AList.lookup_eq_none.mp absent (AList.mem_keys.mpr member)

theorem Counted.keys_perm (counted : Counted p computers) :
    computers.keys.Perm ((hardware.filter fun h => 0 < p.count h).map Hardware.text) := by
  have apart : ((hardware.filter fun h => 0 < p.count h).map Hardware.text).Nodup :=
    (List.Nodup.filter _ (by decide)).map fun h g same => text_inj.mp same
  refine (List.perm_ext_iff_of_nodup computers.keys_nodup apart).mpr ?_
  intro comp
  rw [← AList.mem_keys, List.mem_map]
  constructor
  · intro member
    obtain ⟨h, rfl⟩ := counted.kinds comp member
    have positive := counted.positive (AList.mem_keys.mp member)
    exact ⟨h, List.mem_filter.mpr ⟨by cases h <;> decide, by simpa using positive⟩, rfl⟩
  · rintro ⟨h, member, rfl⟩
    have positive : 0 < p.count h := by simpa using (List.mem_filter.mp member).2
    exact Map.mem_of_lookup ((counted.lookup h).trans (if_pos positive))

/-- A sum over the computers that are there is one over all kinds, in whatever order the map is ranged
over. -/
theorem Counted.fold (counted : Counted p computers) (perm : order.Perm computers.keys)
    (f : String → Int) (amount : Hardware → Nat)
    (same : ∀ h, 0 < p.count h → ∀ total, wrap (total + f h.text) = wrap (total + amount h))
    (none : ∀ h, p.count h = 0 → amount h = 0) :
    order.foldl (fun total k => wrap (total + f k)) 0 =
      wrap (hardware.foldr (fun h sum => amount h + sum) 0 : Nat) := by
  have each : ∀ (hs : List Hardware) (total : Int),
      ((hs.filter fun h => 0 < p.count h).map Hardware.text).foldl
          (fun total k => wrap (total + f k)) (wrap total) =
        wrap (total + (hs.foldr (fun h sum => amount h + sum) 0 : Nat)) := by
    intro hs
    induction hs with
    | nil =>
      intro total
      simp
    | cons h rest ih =>
      intro total
      by_cases positive : 0 < p.count h
      · rw [List.filter_cons_of_pos (by simpa using positive), List.map_cons, List.foldl_cons,
          same h positive, wrap_wrap_add, ih, List.foldr_cons, Int.natCast_add, Int.add_assoc]
      · rw [List.filter_cons_of_neg (by simpa using positive), ih, List.foldr_cons,
          none h (by omega), Nat.zero_add]
  -- every addition wraps, so that two of them can be exchanged
  have swap : ∀ x ∈ order, ∀ y ∈ order, ∀ total : Int,
      wrap (wrap (total + f x) + f y) = wrap (wrap (total + f y) + f x) := by
    intro x _ y _ total
    rw [wrap_wrap_add, wrap_wrap_add, Int.add_right_comm]
  rw [(perm.trans counted.keys_perm).foldl_eq' swap]
  have start := each hardware 0
  rwa [Int.zero_add] at start

theorem Counted.number_eq (counted : Counted p computers) (h : Hardware) :
    number computers h.text = p.count h := by
  rw [number, counted.lookup]
  split
  · rfl
  · simp
    omega

theorem powers_text (h : Hardware) : powers h.text = h.power.toNat := by
  cases h <;> decide

/-- The computing power is that of the purse, as far as an `int` can hold it. -/
theorem getComputingPower_returns (plain : Plain name) (books : Books name store) :
    (getComputingPower name).Returns store (· = wrap (purse name store).power) := by
  refine (getComputers_returns plain books).bind fun computers counted => ?_
  refine range_returns.bind fun order perm => ?_
  refine .done (counted.fold perm (fun c => wrap (powers c * number computers c))
    (fun h => h.power.toNat * (purse name store).count h) ?_ ?_)
  · intro h _ total
    rw [wrap_add_wrap, powers_text, counted.number_eq, Int.natCast_mul]
  · intro h zero
    rw [zero, Nat.mul_zero]

/-! ### Mining -/

/-- Some of the turns have found coins, and none of them more than the power allows. -/
def Mined (turns : Nat) (p q : Purse) : Prop :=
  ∃ coins : List Nat, coins.length ≤ turns ∧ (∀ c ∈ coins, 1 ≤ c ∧ c ≤ p.power) ∧
    q = p.earn (coins.foldr (· + ·) 0)

theorem foldr_add (coins : List Nat) (n : Nat) :
    coins.foldr (· + ·) n = coins.foldr (· + ·) 0 + n := by
  induction coins with
  | nil => simp
  | cons c rest ih => rw [List.foldr_cons, List.foldr_cons, ih, Nat.add_assoc]

theorem sum_le {coins : List Nat} {most : Nat} (each : ∀ c ∈ coins, c ≤ most) :
    coins.foldr (· + ·) 0 ≤ coins.length * most := by
  induction coins with
  | nil => simp
  | cons c rest ih =>
    obtain ⟨first, others⟩ := List.forall_mem_cons.mp each
    have tail := ih others
    rw [List.foldr_cons, List.length_cons, Nat.succ_mul]
    omega

namespace Mined

variable {q r : Purse} {turns more : Nat}

theorem power_eq (mined : Mined turns p q) : q.power = p.power := by
  obtain ⟨coins, _, _, rfl⟩ := mined
  exact Purse.power_earn

theorem balance_le (mined : Mined turns p q) : q.balance ≤ p.balance + turns * p.power := by
  obtain ⟨coins, few, each, rfl⟩ := mined
  have most := sum_le fun c member => (each c member).2
  exact Nat.add_le_add_left (Nat.le_trans most (Nat.mul_le_mul_right _ few)) _

theorem trans (first : Mined turns p q) (second : Mined more q r) : Mined (turns + more) p r := by
  have power := first.power_eq
  obtain ⟨coins, few, each, rfl⟩ := first
  obtain ⟨coins', few', each', rfl⟩ := second
  refine ⟨coins ++ coins', ?_, ?_, ?_⟩
  · rw [List.length_append]
    omega
  · intro c member
    rcases List.mem_append.mp member with old | new
    · exact each c old
    · exact power ▸ each' c new
  · rw [List.foldr_append, foldr_add coins (coins'.foldr (· + ·) 0)]
    simp only [Purse.earn, Nat.add_assoc]

end Mined

/-- The new balance of a turn is stored. -/
theorem balance_written (plain : Plain name) (books : Books name store) {n : Nat}
    (fits : n < size64) :
    (put (balanceKey name) (formatUint n)).Ensures store fun _ t =>
      Books name t ∧ purse name t = { purse name store with balance := n } := by
  refine put_ensures.mono ?_
  rintro _ _ rfl
  exact ⟨books.insert (sound_balance plain fits), purse_balance plain fits⟩

theorem mineOnce_ensures (plain : Plain name) (books : Books name store)
    (positive : 0 < (purse name store).power) (int : (purse name store).power < intLimit)
    (room : (purse name store).balance + (purse name store).power < size64) :
    (mineOnce name).Ensures store fun _ t => Books name t ∧
      Mined 1 (purse name store) (purse name t) := by
  have power := wrap_natCast int
  refine (getBalance_returns books).seq ?_
  rintro _ rfl
  refine (intn_returns (by decide)).seq fun mined _ => ?_
  split
  · have coins : (getMinedCoins name).Returns store
        fun c => 1 ≤ c ∧ c ≤ (purse name store).power := by
      refine (getComputingPower_returns plain books).bind fun totalPower same => ?_
      rw [same, power]
      refine (intn_returns (by omega)).bind fun i below => ?_
      exact .done ⟨by omega, by omega⟩
    refine coins.seq fun c found => ?_
    have small : (purse name store).balance + c < size64 := by omega
    rw [Nat.mod_eq_of_lt small]
    refine (balance_written plain books small).mono ?_
    rintro _ t ⟨kept, same⟩
    exact ⟨kept, [c], by simp, by simpa using found, same⟩
  · exact .done ⟨books, [], by simp, by simp, by simp [Purse.earn]⟩

/-- The turns are added up, and the balance is large enough for all of them. -/
theorem mine_ensures (plain : Plain name) (books : Books name store)
    (positive : 0 < (purse name store).power) (int : (purse name store).power < intLimit)
    {num : Int}
    (room : (purse name store).balance + num.toNat * (purse name store).power < size64) :
    (mine name num).Ensures store fun _ t => Books name t ∧
      Mined num.toNat (purse name store) (purse name t) := by
  have turns : (mine name num).Ensures store fun _ t => Books name t ∧
      ∃ turns, turns + 0 = num.toNat ∧ Mined turns (purse name store) (purse name t) := by
    refine Program.Ensures.foldlM (fun left _ t => Books name t ∧
      ∃ turns, turns + left.length = num.toNat ∧ Mined turns (purse name store) (purse name t)) ?_ ?_
    · rintro i left _ u ⟨kept, turns, number, mined⟩
      rw [List.length_cons] at number
      have power := mined.power_eq
      -- this turn is one of those that the balance has room for
      have space : (purse name u).balance + (purse name u).power < size64 := by
        have most := mined.balance_le
        have within : (turns + 1) * (purse name store).power ≤
            num.toNat * (purse name store).power := Nat.mul_le_mul_right _ (by omega)
        rw [Nat.succ_mul] at within
        omega
      refine (mineOnce_ensures plain kept (power ▸ positive) (power ▸ int) space).mono ?_
      rintro _ t ⟨kept, once⟩
      exact ⟨kept, turns + 1, by omega, mined.trans once⟩
    · exact ⟨books, 0, by simp, [], by simp, by simp, by simp [Purse.earn]⟩
  refine turns.mono ?_
  rintro _ t ⟨kept, turns, rfl, mined⟩
  exact ⟨kept, mined⟩

/-! ### Buying -/

/-- The loop in `buy` pays for as many computers as it can. -/
theorem purchase_eq {compPrice : Nat} (cost : 0 < compPrice) (fuel balance : Nat) (n : Int)
    (enough : balance ≤ fuel) (int : wrap n = n) :
    purchase compPrice fuel balance n =
      (balance % compPrice, wrap (n + (balance / compPrice : Nat))) := by
  induction fuel generalizing balance n with
  | zero =>
    obtain rfl : balance = 0 := by omega
    simp [purchase, int]
  | succ fuel ih =>
    rw [purchase]
    split
    · rename_i affordable
      have again : wrap (wrap (n + 1)) = wrap (n + 1) := Int.bmod_bmod
      rw [ih _ _ (by omega) again, wrap_wrap_add, ← Nat.mod_eq_sub_mod affordable,
        Nat.div_eq_sub_div cost affordable, Int.natCast_add, Int.add_assoc, Int.add_comm 1]
      rfl
    · rename_i dear
      rw [Nat.mod_eq_of_lt (by omega), Nat.div_eq_of_lt (by omega)]
      simp [int]

/-- A new number of computers is stored. -/
theorem count_written (plain : Plain name) (books : Books name store) (h : Hardware) {n : Nat}
    (fits : n < intLimit) :
    (put (compKey name h.text) (itoa n)).Ensures store fun _ t =>
      Books name t ∧ purse name t = (purse name store).set h n := by
  refine put_ensures.mono ?_
  rintro _ _ rfl
  exact ⟨books.insert (sound_count plain fits), purse_count plain fits⟩

theorem buy_nothing (dear : p.balance < h.price) : p.buy h = p := by
  have kept : Function.update p.count h (p.count h) = p.count := Function.update_eq_self h p.count
  rw [Purse.buy, Nat.div_eq_of_lt dear, Nat.mod_eq_of_lt dear, Nat.add_zero, Purse.set, kept]

/-- What is left of the balance is stored, and then the computers. -/
theorem bought_written (plain : Plain name) (books : Books name store) (h : Hardware)
    (fits : (purse name store).count h + (purse name store).balance / h.price < intLimit) :
    (do
      put (balanceKey name) (formatUint ((purse name store).balance % h.price))
      put (compKey name h.text)
        (itoa ((purse name store).count h + (purse name store).balance / h.price : Nat))).Ensures
      store fun _ t => Books name t ∧ purse name t = (purse name store).buy h := by
  have small : (purse name store).balance % h.price < size64 :=
    Nat.lt_of_le_of_lt (Nat.mod_le _ _) books.balance_lt
  refine (balance_written plain books small).bind ?_
  rintro _ u ⟨kept, same⟩
  refine (count_written plain kept h fits).mono ?_
  rintro _ t ⟨kept, after⟩
  rw [same] at after
  exact ⟨kept, after⟩

theorem buy_ensures (plain : Plain name) (books : Books name store) (h : Hardware)
    (fits : (purse name store).count h + (purse name store).balance / h.price < intLimit) :
    (buy name h).Ensures store fun _ t => Books name t ∧
      purse name t = (purse name store).buy h := by
  have bought := purchase_eq (Purse.price_pos h) (purse name store).balance
    (purse name store).balance 0 (Nat.le_refl _) rfl
  have written := bought_written plain books h fits
  refine (getBalance_returns books).seq ?_
  rintro _ rfl
  refine (getComputers_returns plain books).seq fun computers counted => ?_
  split
  · by_cases positive : 0 < (purse name store).count h
    · have found := (counted.lookup h).trans (if_pos positive)
      have number : wrap (wrap (0 + ((purse name store).balance / h.price : Nat)) +
          (purse name store).count h) =
          ((purse name store).count h + (purse name store).balance / h.price : Nat) := by
        rw [Int.zero_add, wrap_wrap_add, ← Int.natCast_add, Nat.add_comm, wrap_natCast fits]
      simpa only [found, bought, number] using written
    · have found := (counted.lookup h).trans (if_neg positive)
      have number : wrap (0 + ((purse name store).balance / h.price : Nat)) =
          ((purse name store).count h + (purse name store).balance / h.price : Nat) := by
        have zero : (purse name store).count h = 0 := by omega
        rw [zero, Nat.zero_add] at fits ⊢
        rw [Int.zero_add, wrap_natCast fits]
      simpa only [found, bought, number] using written
  · rename_i dear
    exact .done ⟨books, (buy_nothing (Nat.lt_of_not_le dear)).symm⟩

end DistSys.Game
