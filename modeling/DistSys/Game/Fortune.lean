import DistSys.Game.Sessions

/-! How rich a player can get. A few turns of mining cannot leave the range of the numbers, and a
session of thirty commands can. -/
namespace DistSys.Game

open DistSys.Lib DistSys.Kv

variable {name : String} {names : List String} {store s t : Map String String} {p q : Purse}
  {command : Command} {choices : List (Choice String)} {n c : Nat}

/-! ### Short sessions -/

/-- The most that this number of turns can make of a purse. -/
def growth : Nat → Nat
  | 0 => 1
  | turns + 1 => 17 * growth turns

theorem growth_add (m n : Nat) : growth (m + n) = growth m * growth n := by
  induction m with
  | zero => simp [growth]
  | succ m ih => rw [Nat.succ_add, growth, growth, ih, Nat.mul_assoc]

theorem growth_ge (n : Nat) : 16 * n + 1 ≤ growth n := by
  induction n with
  | zero => exact Nat.le_refl 1
  | succ n ih =>
    rw [growth]
    omega

theorem growth_pos (n : Nat) : 1 ≤ growth n :=
  Nat.le_trans (Nat.le_add_left 1 _) (growth_ge n)

theorem Mined.wealth_le (mined : Mined n p q) : q.wealth ≤ growth n * p.wealth := by
  have balance := mined.balance_le
  have power := mined.power_eq
  have turn : n * p.power ≤ n * p.wealth := Nat.mul_le_mul_left n (Nat.le_add_left _ _)
  calc q.wealth = 16 * q.balance + p.power := by rw [Purse.wealth, power]
    _ ≤ p.wealth + 16 * (n * p.wealth) := by
      rw [Purse.wealth] at turn ⊢
      omega
    _ = (16 * n + 1) * p.wealth := by
      rw [Nat.add_mul, Nat.one_mul, Nat.mul_assoc, Nat.add_comm]
    _ ≤ growth n * p.wealth := Nat.mul_le_mul_right _ (growth_ge n)

theorem Broken.wealth_le (solvent : Solvent p) (broken : Broken p q) : q.wealth ≤ p.wealth := by
  obtain ⟨kinds, rfl⟩ := broken
  induction kinds generalizing p with
  | nil => exact Nat.le_refl _
  | cons h rest ih =>
    exact Nat.le_trans (ih (solvent.breakOne h)) (Purse.wealth_breakOne_le solvent.some)

def Command.turns : Command → Nat
  | mine num => num.toNat
  | enter | buy _ | solve _ => 0

theorem Command.Moves.wealth_le (solvent : Solvent p) (moves : command.Moves p q) :
    q.wealth ≤ growth command.turns * p.wealth := by
  cases command with
  | enter =>
    obtain rfl : q = p := moves
    exact Nat.le_of_eq (Nat.one_mul _).symm
  | mine num => exact Mined.wealth_le moves
  | buy comp =>
    obtain rfl : q = p.buy comp := moves
    exact Nat.le_trans Purse.wealth_buy_le (Nat.le_of_eq (Nat.one_mul _).symm)
  | solve lines =>
    exact Nat.le_trans (Broken.wealth_le solvent moves) (Nat.le_of_eq (Nat.one_mul _).symm)

/-- A command fits when the turns that it has cannot make too much of the purse. -/
theorem fits_of_wealth (playing : Playing name store)
    (few : growth command.turns * (purse name store).wealth < intLimit) :
    fits name store command = true := by
  have some : 1 ≤ (purse name store).wealth :=
    Nat.le_trans playing.solvent.power_pos (Nat.le_add_left _ _)
  cases command with
  | enter | solve => rfl
  | mine num =>
    have least := Nat.mul_le_mul_right (purse name store).wealth (growth_ge num.toNat)
    have enough : num.toNat * 1 ≤ num.toNat * (purse name store).wealth :=
      Nat.mul_le_mul_left _ some
    have mined : num.toNat * (purse name store).power ≤ num.toNat * (purse name store).wealth :=
      Nat.mul_le_mul_left _ (Nat.le_add_left _ _)
    have most : growth num.toNat * (purse name store).wealth < intLimit := few
    have limits : intLimit < size64 := by decide
    rw [Nat.add_mul, Nat.one_mul, Nat.mul_assoc] at least
    have balance : 16 * (purse name store).balance ≤ (purse name store).wealth :=
      Nat.le_add_right _ _
    simp only [fits, decide_eq_true_eq]
    omega
  | buy comp =>
    have most : 1 * (purse name store).wealth < intLimit := few
    rw [Nat.one_mul] at most
    simp only [fits, decide_eq_true_eq]
    rw [← Purse.power_buy]
    calc ((purse name store).buy comp).power ≤ ((purse name store).buy comp).wealth :=
          Nat.le_add_left _ _
      _ ≤ (purse name store).wealth := Purse.wealth_buy_le
      _ < intLimit := most

/-- The turns of mining in a session. -/
def turnsOf (acts : List (Command × List (Choice String))) : Nat :=
  acts.foldr (fun typed sum => typed.1.turns + sum) 0

theorem along_short (plain : Plain name) {acts : List (Command × List (Choice String))}
    (playing : Playing name store)
    (few : growth (turnsOf acts) * (purse name store).wealth < intLimit) :
    Along (step name) (fitting name) store acts := by
  induction acts generalizing store with
  | nil => trivial
  | cons typed rest ih =>
    cases taken : step name store typed with
    | none => simp [Along, taken]
    | some u =>
      have split : growth (turnsOf (typed :: rest)) =
          growth (turnsOf rest) * growth typed.1.turns := by
        rw [turnsOf, List.foldr_cons, growth_add, Nat.mul_comm]
        rfl
      rw [split, Nat.mul_assoc] at few
      have fit : fitting name store typed = true := fits_of_wealth playing
        (Nat.lt_of_le_of_lt (Nat.le_mul_of_pos_left _ (growth_pos _)) few)
      obtain ⟨still, moves⟩ := playing.step plain fit taken
      have grown := Nat.mul_le_mul_left (growth (turnsOf rest))
        (Command.Moves.wealth_le playing.solvent moves)
      exact (along_cons taken).mpr ⟨fit, ih still (Nat.lt_of_le_of_lt grown few)⟩

/-- Fifteen turns of mining are not enough to leave the range of the numbers, whatever is drawn. -/
theorem short_sessions_fit (new : Newcomer name names store)
    {acts : List (Command × List (Choice String))} (few : turnsOf acts ≤ 15) :
    Along (step name) (fitting name) store ((.enter, choices) :: acts) := by
  cases entered : step name store (.enter, choices) with
  | none => simp [Along, entered]
  | some u =>
    obtain ⟨_, _, playing, first⟩ := new.enters.exec (step_iff.mp entered)
    refine (along_cons entered).mpr ⟨rfl, along_short new.plain playing ?_⟩
    have most : growth (turnsOf acts) * growth (15 - turnsOf acts) = growth 15 := by
      rw [← growth_add, Nat.add_sub_cancel' few]
    rw [first]
    calc growth (turnsOf acts) * Purse.first.wealth = growth (turnsOf acts) * 1 := rfl
      _ ≤ growth (turnsOf acts) * growth (15 - turnsOf acts) := Nat.mul_le_mul_left _ (growth_pos _)
      _ = growth 15 := most
      _ < intLimit := by decide

/-! ### What can be drawn -/

theorem intn_can {n : Int} {i : Nat} (below : (i : Int) < n) :
    (intn n).Leads store (.ok i) store :=
  .inr ⟨i, below, rfl, rfl⟩

/-- A lucky turn goes on with the coins that it finds. -/
theorem mineOnce_lucky (books : Books name store) {o : Except String Unit}
    (after : (do
      let minedCoins ← getMinedCoins name
      put (balanceKey name)
        (formatUint (((purse name store).balance + minedCoins) % size64)) : Play Unit).Leads
      store o t) : (mineOnce name).Leads store o t := by
  have lucky : ((0 : Nat) : Int) < miningRange := by decide
  refine (getBalance_returns books).leads ?_
  rintro _ rfl
  refine (intn_can lucky).bind ?_
  rw [if_pos (Nat.zero_le _)]
  exact after

/-- A turn can find any number of coins that the power allows. -/
theorem mineOnce_can (plain : Plain name) (books : Books name store) (found : 1 ≤ c)
    (most : c ≤ (purse name store).power) (int : (purse name store).power < intLimit)
    (room : (purse name store).balance + c < size64) :
    ∃ t, (mineOnce name).Leads store (.ok ()) t ∧ Books name t ∧
      purse name t = (purse name store).earn c := by
  obtain ⟨_, t, written, kept, same⟩ := (balance_written plain books room).leads
  have coins : (getMinedCoins name).Leads store (.ok c) store := by
    refine (getComputingPower_returns plain books).leads fun totalPower same => ?_
    rw [same, wrap_natCast int]
    have drawn : (c - 1 : Nat) < ((purse name store).power : Int) := by omega
    refine (intn_can drawn).bind ⟨?_, rfl⟩
    rw [Nat.sub_add_cancel found]
  refine ⟨t, mineOnce_lucky books (coins.bind ?_), kept, same⟩
  rw [Nat.mod_eq_of_lt room]
  exact written

theorem mine_can (plain : Plain name) (books : Books name store) (found : 1 ≤ c)
    (most : c ≤ (purse name store).power) (int : (purse name store).power < intLimit) {num : Int}
    (room : (purse name store).balance + num.toNat * c < size64) :
    ∃ t, (mine name num).Leads store (.ok ()) t ∧ Books name t ∧
      purse name t = (purse name store).earn (num.toNat * c) := by
  have each : ∀ (xs : List Nat) (store : Map String String), Books name store →
      c ≤ (purse name store).power → (purse name store).power < intLimit →
      (purse name store).balance + xs.length * c < size64 →
      ∃ t, (xs.foldlM (fun _ _ => mineOnce name) ()).Leads store (.ok ()) t ∧ Books name t ∧
        purse name t = (purse name store).earn (xs.length * c) := by
    intro xs
    induction xs with
    | nil =>
      intro store books _ _ _
      exact ⟨store, ⟨rfl, rfl⟩, books, by simp [Purse.earn]⟩
    | cons x rest ih =>
      intro store books most int room
      rw [List.length_cons, Nat.succ_mul] at room ⊢
      obtain ⟨u, once, kept, same⟩ := mineOnce_can plain books found most int (by omega)
      obtain ⟨t, later, kept, after⟩ := ih u kept (by rw [same]; exact most) (by rw [same]; exact int)
        (by rw [same]; simp only [Purse.earn]; omega)
      refine ⟨t, ?_, kept, ?_⟩
      · rw [List.foldlM_cons]
        exact once.bind later
      · rw [after, same]
        simp only [Purse.earn, Nat.add_assoc, Nat.add_comm c]
  have turns := each (List.range num.toNat) store books most int (by simpa using room)
  rwa [List.length_range] at turns

/-- Where the power is too large for an `int`, mining panics. -/
theorem mine_panics (plain : Plain name) (books : Books name store)
    (negative : wrap (purse name store).power ≤ 0) :
    (mine name 1).Leads store (.error "invalid argument to Intn") store := by
  have coins : (getMinedCoins name).Leads store (.error "invalid argument to Intn") store := by
    refine (getComputingPower_returns plain books).leads fun totalPower same => ?_
    rw [same]
    have invalid : (intn (wrap (purse name store).power)).Leads store
        (.error "invalid argument to Intn") store := .inl ⟨negative, rfl, rfl⟩
    exact invalid.panic
  have turn := mineOnce_lucky books coins.panic
  exact turn.panic

theorem step_can (command : Command) (leads : (command.play name).Leads store (.ok ()) t) :
    ∃ choices, step name store (command, choices) = some t := by
  obtain ⟨choices, ran⟩ := Program.exec_of_leads leads
  exact ⟨choices, step_iff.mpr ran⟩

/-- The draws for one round: mining and then buying as much dark matter as the balance pays for. -/
def round (p : Purse) (num : Int) (c : Nat) : Purse := (p.earn (num.toNat * c)).buy .darkMatter

/-- Rounds of so many turns with so many coins in each turn. -/
def roundsFit (p : Purse) : List (Int × Nat) → Bool
  | [] => true
  | (num, c) :: rest =>
    1 ≤ c ∧ c ≤ p.power ∧ p.power < intLimit ∧ p.balance + num.toNat * c < size64 ∧
      p.count .darkMatter + (p.balance + num.toNat * c) / Hardware.darkMatter.price < intLimit ∧
      roundsFit (round p num c) rest = true

def commandsOf (rounds : List (Int × Nat)) : List Command :=
  rounds.flatMap fun r => [.mine r.1, .buy .darkMatter]

theorem rounds_can (plain : Plain name) (books : Books name store) {rounds : List (Int × Nat)}
    (fit : roundsFit (purse name store) rounds = true) :
    ∃ acts t, acts.map Prod.fst = commandsOf rounds ∧ run (step name) store acts = some t ∧
      Books name t ∧
      purse name t = rounds.foldl (fun p r => round p r.1 r.2) (purse name store) := by
  induction rounds generalizing store with
  | nil => exact ⟨[], store, rfl, rfl, books, rfl⟩
  | cons r rest ih =>
    simp only [roundsFit, decide_eq_true_eq] at fit
    obtain ⟨found, most, int, room, count, later⟩ := fit
    obtain ⟨u, mined, kept, earned⟩ := mine_can plain books found most int room
    have few : (purse name u).count .darkMatter +
        (purse name u).balance / Hardware.darkMatter.price < intLimit := by
      rw [earned]
      exact count
    obtain ⟨_, v, bought, kept, same⟩ := (buy_ensures plain kept .darkMatter few).leads
    rw [earned] at same
    obtain ⟨first, taken⟩ := step_can (.mine r.1) mined
    obtain ⟨second, taken'⟩ := step_can (.buy .darkMatter) bought
    obtain ⟨acts, t, typed, reached, kept, after⟩ := ih kept (by rw [same]; exact later)
    refine ⟨(.mine r.1, first) :: (.buy .darkMatter, second) :: acts, t, ?_, ?_, kept, ?_⟩
    · simp only [List.map_cons, typed]
      rfl
    · exact (run_cons taken).mpr ((run_cons taken').mpr reached)
    · rw [after, same]
      rfl

/-! ### The player never runs out of computers -/

theorem Playing.stored (playing : Playing name s) : ∃ (h : Hardware) (value : String) (n : Int),
    s.lookup (compKey name h.text) = some value ∧ atoi value = some n ∧ 0 < n := by
  obtain ⟨h, positive⟩ := Purse.machines_pos_iff.mp playing.solvent.some
  have count : 0 < (((s.lookup (compKey name h.text)).bind atoi).getD 0).toNat := positive
  cases found : (s.lookup (compKey name h.text)).bind atoi with
  | none => simp [found] at count
  | some n =>
    rw [found, Option.getD_some] at count
    obtain ⟨value, there, parsed⟩ := Option.bind_eq_some_iff.mp found
    exact ⟨h, value, n, there, parsed, by omega⟩

theorem Playing.power (plain : Plain name) (playing : Playing name s) :
    (getComputingPower name).Returns s fun totalPower => 1 ≤ totalPower := by
  refine (getComputingPower_returns plain playing.books).mono fun totalPower same => ?_
  have positive := playing.solvent.power_pos
  rw [same, wrap_natCast playing.solvent.int]
  omega

/-- After every command of a session whose numbers stay in their range, a new player has a computer in
the store, the computing power is at least 1, and a next command that fits ends without a panic and
moves the purse as if its numbers had no limit. -/
theorem computers_last (name : String) (names : List String) (store : Map String String)
    (new : Newcomer name names store) (entry : List (Choice String))
    (acts : List (Command × List (Choice String))) (s : Map String String)
    (met : Along (step name) (fitting name) store ((.enter, entry) :: acts))
    (reached : run (step name) store ((.enter, entry) :: acts) = some s) :
    (∃ (h : Hardware) (value : String) (n : Int),
      s.lookup (compKey name h.text) = some value ∧ atoi value = some n ∧ 0 < n) ∧
    (∀ choices o t rest, (getComputingPower name).exec s choices = some (o, t, rest) →
      ∃ totalPower : Int, o = .ok totalPower ∧ 1 ≤ totalPower) ∧
    ∀ command, fits name s command = true →
      (∃ choices t, (command.play name).exec s choices = some (.ok (), t, [])) ∧
      ∀ choices o t rest, (command.play name).exec s choices = some (o, t, rest) →
        o = .ok () ∧ command.Moves (purse name s) (purse name t) := by
  have playing := playing_run new met reached
  refine ⟨playing.stored, ?_, ?_⟩
  · intro choices o t rest ran
    obtain ⟨totalPower, same, _, positive⟩ := (playing.power new.plain).exec ran
    exact ⟨totalPower, same, positive⟩
  · intro command fit
    have ensures := play_ensures new.plain playing fit
    refine ⟨?_, ?_⟩
    · obtain ⟨_, t, leads, _⟩ := ensures.leads
      obtain ⟨choices, ran⟩ := Program.exec_of_leads leads
      exact ⟨choices, t, ran⟩
    · intro choices o t rest ran
      obtain ⟨_, same, _, moves⟩ := ensures.exec ran
      exact ⟨same, moves⟩

theorem newcomer_empty (plain : Plain name) : Newcomer name [] ∅ := by
  constructor
  · exact plain
  · intro key _ member
    cases member
  · intro other member
    cases member
  · intro key member
    cases member
  · intro problem _ value found
    cases found

/-- A coin is found, and a second computer is bought for it. -/
def firstCoin : List (Command × List (Choice String)) :=
  [(.mine 1, [.drawn 0, .order ["comp/ann/cpu"], .order ["cpu"], .drawn 0]),
    (.buy .cpu, [.order ["comp/ann/cpu"]])]

theorem ann_has_computers : ∃ s,
    Along (step "ann") (fitting "ann") ∅ ((.enter, []) :: firstCoin) ∧
    run (step "ann") ∅ ((.enter, []) :: firstCoin) = some s ∧
    ∃ (h : Hardware) (value : String) (n : Int),
      s.lookup (compKey "ann" h.text) = some value ∧ atoi value = some n ∧ 0 < n := by
  have new : Newcomer "ann" [] ∅ := newcomer_empty ⟨by decide, by decide⟩
  have met : Along (step "ann") (fitting "ann") ∅ ((.enter, []) :: firstCoin) :=
    short_sessions_fit new (by decide)
  obtain ⟨s, reached⟩ : ∃ s, run (step "ann") ∅ ((.enter, []) :: firstCoin) = some s := ⟨_, by rfl⟩
  exact ⟨s, met, reached, (computers_last "ann" [] ∅ new [] firstCoin s met reached).1⟩

/-- Six hundred and twenty-five coins, and then thirteen lucky draws. -/
def luckyRounds : List (Int × Nat) :=
  (625, 1) :: [10000, 170000, 2890000, 49130000, 835210000, 14198570000, 241375690000, 4103386730000,
    69757574410000, 1185878764970000, 20159939004490000, 342718963076330000,
    212321854034823125].map fun c => (1, c)

/-- A new player becomes so rich that the computing power is negative, and mining panics. A player with
the name of a problem that is already there is welcomed back and has no computers at all. -/
theorem computers_run_out :
    (∃ acts s, acts.map Prod.fst = .enter :: commandsOf luckyRounds ∧
      run (step "ann") ∅ acts = some s ∧
      (∃ choices t,
        (mine "ann" 1).exec s choices = some (.error "invalid argument to Intn", t, [])) ∧
      ∃ choices, (getComputingPower "ann").exec s choices =
        some (.ok (-9223372036854771615), s, [])) ∧
    ∃ t, step "ann" ∅ (.enter, []) = some t ∧ step "PhD" t (.enter, []) = some t ∧
      ((Command.solve [.solve]).play "PhD").exec t [.drawn 0, .order []] =
        some (.error "invalid argument to Intn", t, []) := by
  refine ⟨?_, _, by rfl, by rfl, by rfl⟩
  have plain : Plain "ann" := ⟨by decide, by decide⟩
  obtain ⟨_, u, entered, playing, first⟩ := (newcomer_empty plain).enters.leads
  obtain ⟨choices, taken⟩ := step_can .enter entered
  have fit : roundsFit (purse "ann" u) luckyRounds = true := by
    rw [first]
    decide
  obtain ⟨acts, s, typed, reached, books, rich⟩ := rounds_can plain playing.books fit
  have negative : wrap (purse "ann" s).power = -9223372036854771615 := by
    rw [rich, first]
    decide
  refine ⟨(.enter, choices) :: acts, s, ?_, (run_cons taken).mpr reached, ?_, ?_⟩
  · rw [List.map_cons, typed]
  · obtain ⟨draws, ran⟩ := Program.exec_of_leads (mine_panics plain books (by rw [negative]; decide))
    exact ⟨draws, s, ran⟩
  · obtain ⟨totalPower, t, leads, rfl, same⟩ :=
      Program.Ensures.leads (getComputingPower_returns plain books)
    rw [same, negative] at leads
    exact Program.exec_of_leads leads

end DistSys.Game
