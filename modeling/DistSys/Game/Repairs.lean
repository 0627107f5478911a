import DistSys.Game.Inventory

/-! What `ComputeProblem` does with the purse of a player: a break takes computers away but never all
of them, and work on a problem leaves them alone. -/
namespace DistSys.Game

open DistSys.Lib DistSys.Kv

variable {name key value problem : String} {h : Hardware} {store t : Map String String}
  {p q : Purse} {computers computers' : Map String Int} {order : List String}

/-! ### The computer that breaks -/

/-- Turns of the loop that break nothing. -/
theorem breakTurns_skip {breakHardware index : Nat} (ks later : List String) {total : Int}
    (outside : breakHardware < index ∨ index + ks.length ≤ breakHardware) :
    (ks ++ later).foldlM (breakTurn breakHardware) (index, computers, total) =
      later.foldlM (breakTurn breakHardware) (index + ks.length, computers,
        ks.foldl (fun total k => wrap (total + number computers k)) total) := by
  induction ks generalizing index total with
  | nil => rfl
  | cons k rest ih =>
    rw [List.length_cons] at outside ⊢
    have turn : breakTurn breakHardware (index, computers, total) k =
        .done (index + 1, computers, wrap (total + number computers k)) := by
      simp only [breakTurn]
      rw [if_neg (by omega)]
      rfl
    rw [List.cons_append, List.foldlM_cons, turn]
    change (rest ++ later).foldlM (breakTurn breakHardware) _ = _
    rw [ih (by omega), List.foldl_cons, Nat.add_assoc, Nat.add_comm 1]

theorem foldl_number_congr {ks : List String} {total : Int}
    (same : ∀ k ∈ ks, number computers' k = number computers k) :
    ks.foldl (fun total k => wrap (total + number computers' k)) total =
      ks.foldl (fun total k => wrap (total + number computers k)) total := by
  induction ks generalizing total with
  | nil => rfl
  | cons k rest ih =>
    obtain ⟨first, others⟩ := List.forall_mem_cons.mp same
    rw [List.foldl_cons, List.foldl_cons, first, ih others]

theorem number_insert (k c : String) (n : Int) :
    number (computers.insert k n) c = if c = k then n else number computers c := by
  rw [number, Map.lookup_insert]
  split
  · rfl
  · rfl

theorem findHardware_text (h : Hardware) : findHardware h.text = some h := by
  cases h <;> decide

/-- The loop breaks the computers at its index and counts what is left of all. -/
theorem breakTurns_returns {breakHardware : Nat} (below : breakHardware < order.length)
    (nodup : order.Nodup) (kinds : ∀ k ∈ order, ∃ h : Hardware, k = h.text) :
    (order.foldlM (breakTurn breakHardware) (0, computers, 0)).Returns store
      fun state => ∃ h : Hardware, h.text ∈ order ∧
        state.2.1 = computers.insert h.text ((number computers h.text).tdiv breakRate) ∧
        state.2.2 = order.foldl (fun total k => wrap (total + number state.2.1 k)) 0 := by
  obtain ⟨before, k, after, rfl, length⟩ : ∃ before k after,
      order = before ++ k :: after ∧ before.length = breakHardware := by
    refine ⟨order.take breakHardware, order[breakHardware], order.drop (breakHardware + 1), ?_, ?_⟩
    · rw [← List.drop_eq_getElem_cons below, List.take_append_drop]
    · rw [List.length_take, Nat.min_eq_left (Nat.le_of_lt below)]
  obtain ⟨h, rfl⟩ := kinds k (by simp)
  have first : h.text ∉ before := by
    intro member
    exact (List.nodup_append.mp nodup).2.2 _ member _ List.mem_cons_self rfl
  have turn : ∀ total, breakTurn breakHardware (breakHardware, computers, total) h.text =
      .done (breakHardware + 1,
        computers.insert h.text ((number computers h.text).tdiv breakRate),
        wrap (total + (number computers h.text).tdiv breakRate)) := by
    intro total
    simp only [breakTurn, if_true, findHardware_text, orElse]
    rfl
  -- nothing breaks before the index and nothing after it
  rw [breakTurns_skip before _ (by omega), List.foldlM_cons, Nat.zero_add, length, turn]
  change (after.foldlM (breakTurn breakHardware) _).Returns store _
  rw [← List.append_nil after, breakTurns_skip after [] (by omega)]
  refine .done ⟨h, by simp, rfl, ?_⟩
  have same : ∀ k ∈ before,
      number (computers.insert h.text ((number computers h.text).tdiv breakRate)) k =
        number computers k := by
    intro k member
    have other : k ≠ h.text := by
      rintro rfl
      exact first member
    rw [number_insert, if_neg other]
  rw [List.append_nil, List.foldl_append, List.foldl_cons, foldl_number_congr same, number_insert,
    if_pos rfl]

/-- What is left of the computers when those of one kind break. -/
theorem Counted.broken (counted : Counted p computers)
    (left : computers' = computers.insert h.text ((number computers h.text).tdiv breakRate)) :
    OfHardware computers' ∧
      ∀ g : Hardware, number computers' g.text = (p.quarter h).count g := by
  subst left
  refine ⟨counted.kinds.insert ⟨h, rfl⟩ _, ?_⟩
  intro g
  have quarter : (p.count h : Int).tdiv breakRate = (p.count h / 4 : Nat) := rfl
  rw [number_insert, counted.number_eq, counted.number_eq, quarter, Purse.quarter,
    Purse.count_set]
  by_cases same : g = h
  · rw [if_pos (congrArg Hardware.text same), if_pos same]
  · rw [if_neg fun equal => same (text_inj.mp equal), if_neg same]

theorem Purse.machines_quarter_lt (p : Purse) (h : Hardware) (int : p.power < intLimit) :
    (p.quarter h).machines < intLimit :=
  calc (p.quarter h).machines ≤ (p.quarter h).power := machines_le_power _
    _ ≤ p.power := power_quarter_le p h
    _ < intLimit := int

/-- The total that the loop counts. -/
theorem Counted.total (counted : Counted p computers) (perm : order.Perm computers.keys)
    (positive : 0 < p.count h) (int : p.power < intLimit)
    (left : ∀ g : Hardware, number computers' g.text = (p.quarter h).count g) :
    order.foldl (fun total k => wrap (total + number computers' k)) 0 =
      (p.quarter h).machines := by
  rw [← wrap_natCast (p.machines_quarter_lt h int)]
  refine counted.fold perm (number computers')
    (fun g => 1 * (p.quarter h).count g) ?_ ?_
  · intro g _ total
    rw [left, Nat.one_mul]
  · intro g none
    have other : g ≠ h := by
      rintro rfl
      omega
    rw [Nat.one_mul, Purse.quarter, Purse.count_set, if_neg other, none]

/-- The counts are stored one after the other. -/
theorem counts_written (plain : Plain name) (books : Books name store)
    (kinds : ∀ k ∈ order, ∃ g : Hardware, k = g.text)
    (left : ∀ g : Hardware, number computers g.text = q.count g) (int : ∀ g, q.count g < intLimit)
    (balance : (purse name store).balance = q.balance)
    (others : ∀ g : Hardware, g.text ∉ order → (purse name store).count g = q.count g) :
    (order.foldlM (fun _ k => put (compKey name k) (itoa (number computers k))) ()).Ensures store
      fun _ t => Books name t ∧ purse name t = q := by
  refine (Program.Ensures.foldlM (fun rest _ t => (∀ k ∈ rest, ∃ g : Hardware, k = g.text) ∧
    Books name t ∧ (purse name t).balance = q.balance ∧
    ∀ g : Hardware, g.text ∉ rest → (purse name t).count g = q.count g) ?_
    ⟨kinds, books, balance, others⟩).mono ?_
  · rintro k rest _ u ⟨kinds, books, balance, others⟩
    obtain ⟨⟨g, rfl⟩, later⟩ := List.forall_mem_cons.mp kinds
    rw [left]
    refine (count_written plain books g (int g)).mono ?_
    rintro _ t ⟨kept, same⟩
    refine ⟨later, kept, ?_, ?_⟩
    · rw [same]
      exact balance
    · intro g' absent
      rw [same, Purse.count_set]
      split
      · rename_i equal
        rw [equal]
      · rename_i other
        refine others g' fun member => ?_
        rcases List.mem_cons.mp member with equal | member
        · exact other (text_inj.mp equal)
        · exact absent member
  · rintro _ t ⟨_, kept, balance, count⟩
    exact ⟨kept, Purse.ext balance (funext fun g => count g List.not_mem_nil)⟩

/-- What is left after a break is stored. -/
theorem quarter_written (plain : Plain name) (books : Books name store)
    (int : (purse name store).power < intLimit) (counted : Counted (purse name store) computers)
    (left : computers' = computers.insert h.text ((number computers h.text).tdiv breakRate))
    (perm : order.Perm computers'.keys) :
    (order.foldlM (fun _ k => put (compKey name k) (itoa (number computers' k))) ()).Ensures store
      fun _ t => Books name t ∧ purse name t = (purse name store).quarter h := by
  obtain ⟨kinds, number⟩ := counted.broken left
  refine counts_written plain books ?_ number ?_ rfl ?_
  · intro k member
    exact kinds k (AList.mem_keys.mpr (perm.mem_iff.mp member))
  · intro g
    exact Nat.lt_of_le_of_lt (Purse.count_le_machines _ g)
      ((purse name store).machines_quarter_lt h int)
  · intro g absent
    -- a kind that is not written is another one than the kind that broke
    have other : g ≠ h := by
      rintro rfl
      refine absent (perm.mem_iff.mpr (AList.mem_keys.mp ?_))
      rw [left]
      exact (AList.mem_insert _).mpr (.inl rfl)
    rw [Purse.quarter, Purse.count_set, if_neg other]

/-- A player without computers gets one. -/
theorem restart_ensures (plain : Plain name) (books : Books name store)
    (left : purse name store = p.quarter h) :
    (if ((p.quarter h).machines : Int) = 0 then do
        put (compKey name "cpu") "1"
        return true
      else return false : Play Bool).Ensures store fun _ t =>
        Books name t ∧ purse name t = p.breakOne h := by
  split
  · rename_i none
    have one : itoa (1 : Nat) = "1" := rfl
    have again := count_written plain books .cpu (n := 1) (by decide)
    rw [one] at again
    refine again.bind ?_
    rintro _ t ⟨kept, after⟩
    refine .done ⟨kept, ?_⟩
    rw [after, left, Purse.breakOne, if_pos (Int.ofNat_eq_zero.mp none)]
  · rename_i some
    refine .done ⟨books, ?_⟩
    rw [left, Purse.breakOne, if_neg fun zero => some (Int.ofNat_eq_zero.mpr zero)]

theorem Counted.keys_pos (counted : Counted p computers) (positive : 0 < p.machines) :
    0 < computers.keys.length := by
  obtain ⟨h, more⟩ := Purse.machines_pos_iff.mp positive
  have there := Map.mem_of_lookup ((counted.lookup h).trans (if_pos more))
  exact List.length_pos_of_mem (AList.mem_keys.mp there)

/-- A roll that breaks something leaves the computers as the abstract move does. -/
theorem brokeHardware_ensures (plain : Plain name) (books : Books name store)
    (positive : 0 < (purse name store).machines) (int : (purse name store).power < intLimit) :
    (brokeHardware name).Ensures store fun _ t => Books name t ∧
      ∃ h, purse name t = (purse name store).breakOne h := by
  refine (getComputers_returns plain books).seq fun computers counted => ?_
  have size := counted.keys_pos positive
  rw [Map.size_keys]
  refine (intn_returns (by omega)).seq fun breakHardware below => ?_
  refine range_returns.seq fun order perm => ?_
  have within : breakHardware < order.length := by
    rw [perm.length_eq]
    omega
  have nodup : order.Nodup := perm.nodup_iff.mpr computers.keys_nodup
  have kinds : ∀ k ∈ order, ∃ g : Hardware, k = g.text := fun k member =>
    counted.kinds k (AList.mem_keys.mpr (perm.mem_iff.mp member))
  refine (breakTurns_returns within nodup kinds).seq ?_
  rintro ⟨index, computers', total⟩ ⟨h, member, left, sum⟩
  dsimp only at left sum ⊢
  have there := counted.positive (perm.mem_iff.mp member)
  rw [counted.total perm there int (counted.broken left).2] at sum
  subst sum
  refine range_returns.seq fun order' perm' => ?_
  refine (quarter_written plain books int counted left perm').bind ?_
  rintro _ u ⟨kept, quarter⟩
  refine (restart_ensures plain kept quarter).mono ?_
  rintro _ t ⟨kept, after⟩
  exact ⟨kept, h, after⟩

/-! ### Work on a problem -/

/-- Something is stored that is not part of the purse. -/
theorem aside_written (books : Books name store) (sound : Sound name key value)
    (notBalance : key ≠ balanceKey name) (notCount : key ∉ inventory name) :
    (put key value).Ensures store fun _ t => Books name t ∧ purse name t = purse name store := by
  refine put_ensures.mono ?_
  rintro _ _ rfl
  exact ⟨books.insert sound, purse_other notBalance notCount⟩

theorem health_written (plain : Plain name) (books : Books name store) (known : problem ∈ education)
    {n : Nat} (fits : n < size64) :
    (put problem (formatUint n)).Ensures store fun _ t =>
      Books name t ∧ purse name t = purse name store := by
  have other : ∀ key ∈ ownKeys name, problem ≠ key := by
    rintro key own rfl
    exact own_not_problem plain own known
  refine aside_written books (sound_health plain known fits) ?_ ?_
  · exact other _ (mem_ownKeys.mpr (.inr (.inr (.inl rfl))))
  · intro member
    exact other _ (mem_ownKeys.mpr (.inr (.inr (.inr member)))) rfl

theorem level_written (plain : Plain name) (books : Books name store) (known : value ∈ education) :
    (put name value).Ensures store fun _ t => Books name t ∧ purse name t = purse name store :=
  aside_written books (sound_level plain known) (balanceKey_ne_name plain).symm
    (name_not_inventory plain)

theorem problemHealth_lt (problem : String) : problemHealth problem < size64 := by
  unfold problemHealth
  split <;> decide

theorem remainingHealth_ensures (plain : Plain name) (books : Books name store)
    (known : problem ∈ education) :
    (remainingHealth problem).Ensures store fun health t =>
      (Books name t ∧ purse name t = purse name store) ∧ health < size64 := by
  refine get_returns.seq fun found same => ?_
  cases found with
  | none =>
    refine (health_written plain books known (problemHealth_lt problem)).bind fun _ t kept => ?_
    exact .done ⟨kept, problemHealth_lt problem⟩
  | some text =>
    obtain ⟨n, parsed⟩ := (books.sound same.symm).number (.inr known)
    refine (orElse_returns parsed).ensures ?_
    rintro _ rfl
    exact ⟨⟨books, rfl⟩, parseUint_lt parsed⟩

theorem solveWith_ensures (plain : Plain name) (books : Books name store)
    (known : problem ∈ education) (computingPower : Nat) :
    (solveWith name problem computingPower).Ensures store fun _ t =>
      Books name t ∧ purse name t = purse name store := by
  have levels : ∀ problem ∈ education, nextEducation problem ∈ education := by decide
  refine (remainingHealth_ensures plain books known).bind ?_
  rintro health u ⟨⟨kept, same⟩, small⟩
  rw [← same]
  split
  · refine (health_written plain kept known (by omega)).bind fun _ t kept => ?_
    exact .done kept
  · refine (health_written plain kept known (problemHealth_lt problem)).bind ?_
    rintro _ t ⟨kept, same⟩
    rw [← same]
    refine (level_written plain kept (levels problem known)).bind fun _ t kept => ?_
    exact .done kept

/-- A try at a problem breaks computers of one kind or leaves all as they are. -/
theorem computeProblem_ensures (plain : Plain name) (books : Books name store)
    (known : problem ∈ education) (positive : 0 < (purse name store).machines)
    (int : (purse name store).power < intLimit) :
    (computeProblem name problem).Ensures store fun _ t => Books name t ∧
      (purse name t = purse name store ∨ ∃ h, purse name t = (purse name store).breakOne h) := by
  refine (intn_returns (by decide)).seq fun roll _ => ?_
  split
  · refine (brokeHardware_ensures plain books positive int).mono ?_
    rintro _ t ⟨kept, broken⟩
    exact ⟨kept, .inr broken⟩
  · split
    · refine (getComputingPower_returns plain books).seq fun computingPower _ => ?_
      refine (solveWith_ensures plain books known _).mono ?_
      rintro _ t ⟨kept, same⟩
      exact ⟨kept, .inl same⟩
    · exact .done ⟨books, .inl rfl⟩

end DistSys.Game
