import DistSys.Game.Cmud

/-! What a player has, apart from how it is stored: coins, and some computers of every kind. The moves
of the game on it, and how fast they can make it grow. -/
namespace DistSys.Game

@[ext] structure Purse where
  balance : Nat
  count : Hardware → Nat

namespace Purse

variable {p : Purse} {h : Hardware} {n : Nat}

/-- What all computers are worth together. -/
def total (worth : Hardware → Nat) (p : Purse) : Nat :=
  hardware.foldr (fun h sum => worth h * p.count h + sum) 0

/-- The computing power, without a limit. -/
def power (p : Purse) : Nat := p.total fun h => h.power.toNat

/-- The number of computers. -/
def machines (p : Purse) : Nat := p.total fun _ => 1

def set (p : Purse) (h : Hardware) (n : Nat) : Purse :=
  { p with count := Function.update p.count h n }

def earn (p : Purse) (coins : Nat) : Purse := { p with balance := p.balance + coins }

/-- As many computers of the kind as the balance pays for. -/
def buy (p : Purse) (h : Hardware) : Purse :=
  { p.set h (p.count h + p.balance / h.price) with balance := p.balance % h.price }

/-- No coins and one computer. -/
def first : Purse := set ⟨0, fun _ => 0⟩ .cpu 1

/-- A quarter of the computers of the kind is left. -/
def quarter (p : Purse) (h : Hardware) : Purse := p.set h (p.count h / 4)

/-- Computers of the kind break. A player without any gets one to start again. -/
def breakOne (p : Purse) (h : Hardware) : Purse :=
  if (p.quarter h).machines = 0 then (p.quarter h).set .cpu 1 else p.quarter h

/-! ### Sums -/

theorem count_set (p : Purse) (h : Hardware) (n : Nat) (g : Hardware) :
    (p.set h n).count g = if g = h then n else p.count g :=
  Function.update_apply p.count h n g

theorem total_set (worth : Hardware → Nat) (p : Purse) (h : Hardware) (n : Nat) :
    (p.set h n).total worth + worth h * p.count h = p.total worth + worth h * n := by
  cases h <;> simp [total, hardware, count_set] <;> omega

theorem le_total (worth : Hardware → Nat) (p : Purse) (h : Hardware) :
    worth h * p.count h ≤ p.total worth := by
  cases h <;> simp [total, hardware] <;> omega

theorem power_pos (h : Hardware) : 0 < h.power.toNat := by
  cases h <;> decide

theorem price_pos (h : Hardware) : 0 < h.price := by
  cases h <;> decide

theorem total_mono {worth worth' : Hardware → Nat} (le : ∀ h, worth h ≤ worth' h) (p : Purse) :
    p.total worth ≤ p.total worth' := by
  unfold total
  induction hardware with
  | nil => exact Nat.le_refl 0
  | cons h rest ih => exact Nat.add_le_add (Nat.mul_le_mul_right _ (le h)) ih

theorem machines_le_power (p : Purse) : p.machines ≤ p.power :=
  total_mono power_pos p

theorem count_le_machines (p : Purse) (h : Hardware) : p.count h ≤ p.machines := by
  have below := le_total (fun _ => 1) p h
  rwa [Nat.one_mul] at below

theorem total_zero (worth : Hardware → Nat) (none : ∀ h, p.count h = 0) : p.total worth = 0 := by
  simp [total, hardware, none]

theorem machines_pos_iff : 0 < p.machines ↔ ∃ h, 0 < p.count h := by
  constructor
  · intro some
    by_contra none
    have zero : p.machines = 0 := total_zero _ (by simpa using none)
    omega
  · rintro ⟨h, some⟩
    exact Nat.lt_of_lt_of_le some (count_le_machines p h)

/-! ### Moves -/

@[simp] theorem power_earn : (p.earn n).power = p.power := rfl

theorem power_buy : (p.buy h).power = p.power + h.power.toNat * (p.balance / h.price) := by
  have sum := total_set (fun h => h.power.toNat) p h (p.count h + p.balance / h.price)
  rw [Nat.mul_add] at sum
  change (p.set h (p.count h + p.balance / h.price)).total _ = p.total _ + _
  omega

/-- The computers of the kind that is bought are part of the power. -/
theorem bought_le_power : p.count h + p.balance / h.price ≤ (p.buy h).power := by
  have count : (p.buy h).count h = p.count h + p.balance / h.price :=
    (count_set p h _ h).trans (if_pos rfl)
  rw [← count]
  exact Nat.le_trans (count_le_machines _ h) (machines_le_power _)

theorem machines_buy : p.machines ≤ (p.buy h).machines := by
  have sum := total_set (fun _ => 1) p h (p.count h + p.balance / h.price)
  change p.total _ ≤ (p.set h (p.count h + p.balance / h.price)).total _
  generalize p.balance / h.price = bought at sum ⊢
  omega

/-- Something is left after a break. -/
theorem machines_breakOne : 0 < (p.breakOne h).machines := by
  unfold breakOne
  split
  · exact machines_pos_iff.mpr ⟨.cpu, by simp [count_set]⟩
  · rename_i some
    exact Nat.pos_of_ne_zero some

theorem power_quarter_le (p : Purse) (h : Hardware) : (p.quarter h).power ≤ p.power := by
  have sum := total_set (fun h => h.power.toNat) p h (p.count h / 4)
  have below := Nat.mul_le_mul_left h.power.toNat (Nat.div_le_self (p.count h) 4)
  simp only [power, quarter]
  omega

/-- A player with computers does not gain by a break. -/
theorem power_breakOne (some : 0 < p.machines) : (p.breakOne h).power ≤ p.power := by
  unfold breakOne
  split
  · rename_i none
    have zero : ∀ g, (p.quarter h).count g = 0 := fun g =>
      Nat.eq_zero_of_le_zero (none ▸ count_le_machines _ g)
    have sum := total_set (fun h => h.power.toNat) (p.quarter h) .cpu 1
    rw [zero, total_zero _ zero, show Hardware.cpu.power.toNat = 1 from rfl] at sum
    have before := Nat.le_trans some (machines_le_power p)
    simp only [power] at before ⊢
    omega
  · exact power_quarter_le p h

/-! ### Growth -/

/-- A coin counted for the most power that it can buy. -/
def wealth (p : Purse) : Nat := 16 * p.balance + p.power

theorem power_le_price (h : Hardware) : h.power.toNat ≤ 16 * h.price := by
  cases h <;> decide

theorem wealth_buy_le : (p.buy h).wealth ≤ p.wealth := by
  have spent := Nat.mod_add_div p.balance h.price
  have gained := Nat.mul_le_mul_right (p.balance / h.price) (power_le_price h)
  have left : (p.buy h).balance = p.balance % h.price := rfl
  rw [wealth, wealth, power_buy, left]
  rw [Nat.mul_assoc] at gained
  omega

theorem wealth_breakOne_le (some : 0 < p.machines) : (p.breakOne h).wealth ≤ p.wealth := by
  have same : (p.breakOne h).balance = p.balance := by
    unfold breakOne
    split <;> rfl
  have less := power_breakOne (h := h) some
  rw [wealth, wealth, same]
  omega

end Purse

end DistSys.Game
