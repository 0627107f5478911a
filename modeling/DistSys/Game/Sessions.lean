import DistSys.Game.Repairs
import DistSys.Lib.Runs

/-! The commands that a player types, one after the other. As long as the numbers stay in the range of
an `int` and a `uint64`, no command panics, and what it does to the purse is the move of the game. -/
namespace DistSys.Game

open DistSys.Lib DistSys.Kv

/-! ### Commands -/

def getEducationIndex (name : String) : Play Nat := do
  let edu ← getEducation name
  if edu ∈ education then
    let i := education.idxOf edu
    return if i = education.length - 1 then i else i + 1
  else error ("Client education: " ++ edu)

/-- What `inv` reads and prints. -/
def printInventory (name : String) : Play Unit := do
  discard (getBalance name)
  discard (getComputers name)
  discard (getEducationIndex name)

/-- What is typed while a problem is being solved. `resign` is the end of the lines, and other lines
do nothing. -/
inductive Line
  | inv
  | solve
  deriving DecidableEq, Repr

/-- The loop in `SolveProblem`. -/
def solveLines (name problem : String) : List Line → Play Unit
  | [] => return ()
  | .inv :: rest => do
    printInventory name
    solveLines name problem rest
  | .solve :: rest => do
    if ← computeProblem name problem then return () else solveLines name problem rest

def solveProblem (name : String) (lines : List Line) : Play Unit := do
  let problem ← getEducation name
  if problem = "Retired" then return () else solveLines name problem lines

/-- Computers of some kinds break on the way. -/
def Broken (p q : Purse) : Prop := ∃ kinds : List Hardware, q = kinds.foldl Purse.breakOne p

/-- `enter` is the name that a player gives at the start. -/
inductive Command
  | enter
  | mine (num : Int)
  | buy (comp : Hardware)
  | solve (lines : List Line)
  deriving DecidableEq, Repr

namespace Command

def play (name : String) : Command → Play Unit
  | enter => do
    initializeCharacter name
    initializeProblems
  | mine num => Game.mine name num
  | buy comp => Game.buy name comp
  | solve lines => solveProblem name lines

/-- What the command does to the purse. -/
def Moves : Command → Purse → Purse → Prop
  | enter, p, q => q = p
  | mine num, p, q => Mined num.toNat p q
  | buy comp, p, q => q = p.buy comp
  | solve _, p, q => Broken p q

end Command

/-- One command with all that is drawn and ranged over. A panic ends the session. -/
def step (name : String) (store : Map String String) (typed : Command × List (Choice String)) :
    Option (Map String String) :=
  match (typed.1.play name).exec store typed.2 with
  | some (.ok _, t, []) => some t
  | _ => none

/-- Whatever is drawn, the balance stays below the limit of a `uint64`, and the power after the
command below that of an `int`. The loop of `mine` does not end at the largest `int`. -/
def fits (name : String) (store : Map String String) : Command → Bool
  | .enter => true
  | .mine num => num + 1 < intLimit ∧
      (purse name store).balance + num.toNat * (purse name store).power < size64
  | .buy comp => (purse name store).power +
      comp.power.toNat * ((purse name store).balance / comp.price) < intLimit
  | .solve _ => true

def fitting (name : String) (store : Map String String) (typed : Command × List (Choice String)) :
    Bool :=
  fits name store typed.1

variable {name problem : String} {names : List String} {store s t : Map String String} {p q : Purse}
  {command : Command} {choices : List (Choice String)}

/-! ### The purse of a player who is in the game -/

/-- There is a computer, and the power is an `int`. -/
structure Solvent (p : Purse) : Prop where
  some : 0 < p.machines
  int : p.power < intLimit

namespace Solvent

theorem power_pos (solvent : Solvent p) : 0 < p.power :=
  Nat.lt_of_lt_of_le solvent.some (Purse.machines_le_power p)

theorem first : Solvent Purse.first := ⟨by decide, by decide⟩

theorem breakOne (solvent : Solvent p) (h : Hardware) : Solvent (p.breakOne h) :=
  ⟨Purse.machines_breakOne, Nat.lt_of_le_of_lt (Purse.power_breakOne solvent.some) solvent.int⟩

theorem mined {turns : Nat} (solvent : Solvent p) (mined : Mined turns p q) : Solvent q := by
  obtain ⟨coins, _, _, rfl⟩ := mined
  exact ⟨solvent.some, solvent.int⟩

theorem buy {h : Hardware} (solvent : Solvent p)
    (fits : p.power + h.power.toNat * (p.balance / h.price) < intLimit) : Solvent (p.buy h) := by
  refine ⟨Nat.lt_of_lt_of_le solvent.some Purse.machines_buy, ?_⟩
  rw [Purse.power_buy]
  exact fits

end Solvent

/-- The player is in the game. -/
structure Playing (name : String) (store : Map String String) : Prop where
  books : Books name store
  solvent : Solvent (purse name store)

/-! ### What the commands do -/

theorem getEducation_returns (books : Books name store) :
    (getEducation name).Returns store (· ∈ education) := by
  obtain ⟨level, found⟩ := Map.lookup_of_mem books.named
  refine get_returns.bind ?_
  rintro _ rfl
  refine (orElse_returns found).mono ?_
  rintro _ rfl
  exact (books.sound found).level rfl

theorem discard_returns {α : Type} {play : Play α} {result : α → Prop}
    (returns : play.Returns store result) : (discard play).Returns store fun _ => True :=
  Program.Returns.bind returns fun _ _ => .done trivial

theorem printInventory_returns (plain : Plain name) (books : Books name store) :
    (printInventory name).Returns store fun _ => True := by
  have index : (getEducationIndex name).Returns store fun _ => True := by
    refine (getEducation_returns books).bind fun level known => ?_
    rw [if_pos known]
    exact .done trivial
  refine (discard_returns (getBalance_returns books)).bind fun _ _ => ?_
  refine (discard_returns (getComputers_returns plain books)).bind fun _ _ => ?_
  exact discard_returns index

theorem Broken.trans {r : Purse} (first : Broken p q) (second : Broken q r) : Broken p r := by
  obtain ⟨kinds, rfl⟩ := first
  obtain ⟨kinds', rfl⟩ := second
  exact ⟨kinds ++ kinds', by rw [List.foldl_append]⟩

theorem solveLines_ensures (plain : Plain name) (known : problem ∈ education) (lines : List Line)
    (playing : Playing name store) :
    (solveLines name problem lines).Ensures store fun _ t =>
      Playing name t ∧ Broken (purse name store) (purse name t) := by
  induction lines generalizing store with
  | nil => exact .done ⟨playing, [], rfl⟩
  | cons line rest ih =>
    cases line with
    | inv => exact (printInventory_returns plain playing.books).seq fun _ _ => ih playing
    | solve =>
      have one : (computeProblem name problem).Ensures store fun _ t =>
          Playing name t ∧ Broken (purse name store) (purse name t) := by
        refine (computeProblem_ensures plain playing.books known playing.solvent.some
          playing.solvent.int).mono ?_
        rintro _ t ⟨books, same | ⟨h, broken⟩⟩
        · exact ⟨⟨books, same ▸ playing.solvent⟩, [], same⟩
        · exact ⟨⟨books, broken ▸ playing.solvent.breakOne h⟩, [h], broken⟩
      refine one.bind ?_
      rintro ended u ⟨still, broken⟩
      cases ended with
      | true => exact .done ⟨still, broken⟩
      | false =>
        refine (ih still).mono ?_
        rintro _ t ⟨playing, more⟩
        exact ⟨playing, broken.trans more⟩

theorem initializeProblems_ensures (plain : Plain name) (books : Books name store) :
    initializeProblems.Ensures store fun _ t =>
      Books name t ∧ purse name t = purse name store := by
  refine (Program.Ensures.foldlM (fun rest _ t => (∀ problem ∈ rest, problem ∈ education) ∧
    Books name t ∧ purse name t = purse name store) ?_
    ⟨fun _ known => known, books, rfl⟩).mono fun _ t kept => kept.2
  rintro problem rest _ u ⟨all, books, same⟩
  obtain ⟨known, later⟩ := List.forall_mem_cons.mp all
  refine get_returns.seq fun found _ => ?_
  cases found with
  | some health => exact .done ⟨later, books, same⟩
  | none =>
    refine (health_written plain books known (problemHealth_lt problem)).mono ?_
    rintro _ t ⟨kept, unchanged⟩
    exact ⟨later, kept, unchanged.trans same⟩

/-- A player who is known is welcomed back. -/
theorem initializeCharacter_returns (books : Books name store) :
    (initializeCharacter name).Returns store fun _ => True := by
  obtain ⟨level, found⟩ := Map.lookup_of_mem books.named
  refine get_returns.bind ?_
  rintro _ rfl
  rw [found]
  exact discard_returns (getEducation_returns books)

/-- A command that fits ends, and does what it does to the purse. -/
theorem play_ensures (plain : Plain name) (playing : Playing name store)
    (fit : fits name store command = true) :
    (command.play name).Ensures store fun _ t =>
      Playing name t ∧ command.Moves (purse name store) (purse name t) := by
  have books := playing.books
  have solvent := playing.solvent
  cases command with
  | enter =>
    refine (initializeCharacter_returns books).seq fun _ _ => ?_
    refine (initializeProblems_ensures plain books).mono ?_
    rintro _ t ⟨kept, same⟩
    exact ⟨⟨kept, same ▸ solvent⟩, same⟩
  | mine num =>
    simp only [fits, decide_eq_true_eq] at fit
    refine (mine_ensures plain books solvent.power_pos solvent.int fit.2).mono ?_
    rintro _ t ⟨kept, mined⟩
    exact ⟨⟨kept, solvent.mined mined⟩, mined⟩
  | buy comp =>
    simp only [fits, decide_eq_true_eq] at fit
    have few := Nat.lt_of_le_of_lt Purse.bought_le_power (Purse.power_buy.trans_lt fit)
    refine (buy_ensures plain books comp few).mono ?_
    rintro _ t ⟨kept, bought⟩
    exact ⟨⟨kept, bought ▸ solvent.buy fit⟩, bought⟩
  | solve lines =>
    refine (getEducation_returns books).seq fun problem known => ?_
    split
    · exact .done ⟨playing, [], rfl⟩
    · exact solveLines_ensures plain known lines playing

/-! ### A new player -/

/-- Nobody has this name yet, and it is not the beginning of the name of somebody who is there. -/
structure Newcomer (name : String) (names : List String) (store : Map String String) : Prop where
  plain : Plain name
  absent : ∀ key ∈ ownKeys name, key ∉ store
  apart : ∀ other ∈ names, ¬ name.toList <+: other.toList
  filled : ∀ key ∈ store, hasPrefix key compPrefix = true → ∃ other ∈ names, key ∈ inventory other
  healths : ∀ problem ∈ education, ∀ value, store.lookup problem = some value →
    ∃ n, parseUint value = some n

namespace Newcomer

theorem sound (new : Newcomer name names store) : AllSound name store := by
  have clear : Unshadowed name store := unshadowed_of_names new.plain.whole
    (fun other member below => absurd below (new.apart other member)) new.filled
  intro key value found
  have member := Map.mem_of_lookup found
  have foreign : key ∉ ownKeys name := fun own => new.absent key own member
  constructor
  · rintro rfl
    exact absurd (mem_ownKeys.mpr (.inl rfl)) foreign
  · rintro (rfl | known)
    · exact absurd (mem_ownKeys.mpr (.inr (.inr (.inl rfl)))) foreign
    · exact new.healths key known value found
  · intro own
    exact absurd (mem_ownKeys.mpr (.inr (.inr (.inr own)))) foreign
  · exact clear key member

theorem purse_eq (new : Newcomer name names store) : purse name store = ⟨0, fun _ => 0⟩ := by
  have none : ∀ key ∈ ownKeys name, store.lookup key = none := fun key own =>
    AList.lookup_eq_none.mpr (new.absent key own)
  refine Purse.ext ?_ (funext fun h => ?_)
  · simp only [purse, balanceOf, none _ (mem_ownKeys.mpr (.inr (.inr (.inl rfl))))]
    rfl
  · simp only [purse, countOf, none _ (compKey_own name h)]
    rfl

/-- A new player begins with one computer. -/
theorem enters (new : Newcomer name names store) :
    (Command.enter.play name).Ensures store fun _ t =>
      Playing name t ∧ purse name t = Purse.first := by
  have plain := new.plain
  have none := AList.lookup_eq_none.mpr (new.absent name (mem_ownKeys.mpr (.inl rfl)))
  have created : (initializeCharacter name).Ensures store fun _ t =>
      Books name t ∧ purse name t = Purse.first := by
    refine get_returns.seq ?_
    rintro _ rfl
    rw [none]
    refine put_ensures.bind ?_
    rintro _ _ rfl
    refine put_ensures.bind ?_
    rintro _ _ rfl
    refine put_ensures.bind ?_
    rintro _ _ rfl
    refine put_ensures.mono ?_
    rintro _ _ rfl
    have level : Sound name name "Undergraduate" := sound_level plain (by decide)
    have loc : Sound name (locKey name) "5" := sound_loc plain
    have balance : Sound name (balanceKey name) "0" := sound_balance plain (n := 0) (by decide)
    have cpu : Sound name (compKey name "cpu") "1" :=
      sound_count plain (h := .cpu) (n := 1) (by decide)
    refine ⟨⟨(((new.sound.insert level).insert loc).insert balance).insert cpu, ?_, ?_⟩, ?_⟩
    · simp [AList.mem_insert]
    · simp [AList.mem_insert]
    · refine (purse_count plain (h := .cpu) (n := 1) (by decide)).trans ?_
      refine congrArg (Purse.set · .cpu 1) ((purse_balance plain (n := 0) (by decide)).trans ?_)
      rw [purse_other (locKey_ne_balanceKey plain) (locKey_not_inventory plain),
        purse_other (balanceKey_ne_name plain).symm (name_not_inventory plain), new.purse_eq]
  refine created.bind ?_
  rintro _ u ⟨books, first⟩
  refine (initializeProblems_ensures plain books).mono ?_
  rintro _ t ⟨kept, same⟩
  rw [first] at same
  exact ⟨⟨kept, same ▸ Solvent.first⟩, same⟩

end Newcomer

/-! ### Sessions -/

theorem step_iff {typed : Command × List (Choice String)} : step name store typed = some t ↔
    (typed.1.play name).exec store typed.2 = some (.ok (), t, []) := by
  unfold step
  constructor
  · intro taken
    split at taken
    · rename_i same
      cases Option.some.inj taken
      exact same
    · contradiction
  · intro ran
    rw [ran]

theorem Playing.step (plain : Plain name) {typed : Command × List (Choice String)}
    (playing : Playing name s) (fit : fitting name s typed = true)
    (taken : step name s typed = some t) :
    Playing name t ∧ typed.1.Moves (purse name s) (purse name t) := by
  obtain ⟨_, _, holds⟩ := (play_ensures plain playing fit).exec (step_iff.mp taken)
  exact holds

/-- A new player who has entered is in the game as long as the commands fit. -/
theorem playing_run (new : Newcomer name names store)
    {acts : List (Command × List (Choice String))}
    (met : Along (step name) (fitting name) store ((.enter, choices) :: acts))
    (reached : run (step name) store ((.enter, choices) :: acts) = some s) : Playing name s := by
  obtain ⟨u, entered, later⟩ := run_first reached
  obtain ⟨_, _, playing, _⟩ := new.enters.exec (step_iff.mp entered)
  exact run_invariant (Playing name)
    (fun _ _ _ playing fit taken => (playing.step new.plain fit taken).1) playing acts
    ((along_cons entered).mp met).2 later

end DistSys.Game
