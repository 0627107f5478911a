import DistSys.Kv.Rpc
import DistSys.Lib.Programs

/-! The game CMUD: what the commands of a player do with the key-value store. The numbers are Go's
`int` and `uint64`; printing and sleeping are left out. -/
namespace DistSys.Game

open DistSys.Lib DistSys.Kv

/-! ### Numbers -/

/-- The values of a `uint64`. -/
def size64 : Nat := 18446744073709551616

/-- An `int` after an operation. -/
def wrap (n : Int) : Int := n.bmod size64

/-- The conversion from `int` to `uint64`. -/
def uint64 (n : Int) : Nat := (n % size64).toNat

def digits (text : List Char) : Option Nat :=
  if text = [] then none
  else text.foldlM (fun n c => if c.isDigit then some (10 * n + (c.toNat - 48)) else none) 0

/-- `strconv.ParseUint` with base 10 and 64 bits. -/
def parseUint (value : String) : Option Nat :=
  (digits value.toList).filter (· < size64)

/-- `strconv.Atoi`. -/
def atoi (value : String) : Option Int :=
  let signed : Option Int := match value.toList with
    | '-' :: text => (digits text).map fun n => -(n : Int)
    | '+' :: text => (digits text).map Int.ofNat
    | text => (digits text).map Int.ofNat
  signed.filter fun n => wrap n = n

def formatUint (n : Nat) : String := n.repr

def itoa (n : Int) : String := n.repr

/-! ### Game constants -/

inductive Hardware
  | cpu | gpu | asic | quantum | darkMatter
  deriving DecidableEq, Repr

namespace Hardware

def text : Hardware → String
  | cpu => "cpu"
  | gpu => "gpu"
  | asic => "asic"
  | quantum => "quantum"
  | darkMatter => "dark_matter"

def price : Hardware → Nat
  | cpu => 1
  | gpu => 5
  | asic => 25
  | quantum => 125
  | darkMatter => 625

def power : Hardware → Int
  | cpu => 1
  | gpu => 10
  | asic => 100
  | quantum => 1000
  | darkMatter => 10000

end Hardware

def hardware : List Hardware := [.cpu, .gpu, .asic, .quantum, .darkMatter]

/-- The hardware with this name: `validateComputer`, and the cases of `PrettifyHardwareName`. -/
def findHardware (comp : String) : Option Hardware := hardware.find? fun h => h.text = comp

/-- The map `powers`, which has 0 for a name that is not there. -/
def powers (comp : String) : Int := ((findHardware comp).map Hardware.power).getD 0

def validLocations : List String :=
  ["fence", "bridge", "1", "2", "3", "4", "5", "6", "7", "8", "9"]

def education : List String :=
  ["Undergraduate", "Masters", "PhD", "PostDoc", "Professor", "Retired"]

/-- The map `problemHealth`, which has 0 for a name that is not there. -/
def problemHealth (problem : String) : Nat :=
  match problem with
  | "Undergraduate" => 100
  | "Masters" => 1000
  | "PhD" => 10000
  | "PostDoc" => 500000
  | "Professor" => 10000000
  | _ => 0

def delim : String := "/"
def locPrefix : String := "loc/"
def balancePrefix : String := "balance/"
def compPrefix : String := "comp/"
def miningSuccessRate : Nat := 8
def miningRange : Int := 10
def breakSuccess : Nat := 2
def breakRate : Int := 4
def solveSuccess : Nat := 18
def solveRange : Int := 20

/-! ### The store -/

abbrev Play (α : Type) := Program String String α

def get (key : String) : Play (Option String) := .get key .done

def put (key value : String) : Play Unit := .put key value (.done ())

/-- `List`, and the range over the entries that it returns. -/
def list (start : String) : Play (List (String × String)) := .list (hasPrefix · start) .done

/-- `rand.Intn`. -/
def intn (n : Int) : Play Nat := .intn n .done

/-- The keys of a map in the order of a range over it. -/
def range (computers : Map String Int) : Play (List String) := .range computers.keys .done

/-- `Error` panics. -/
def error {α : Type} (message : String) : Play α := .panic ("Error -- " ++ message)

/-- A value that has to be there. -/
def orElse {α : Type} (found : Option α) (failed : Play α) : Play α :=
  match found with
  | some a => .done a
  | none => failed

/-- The store of the game as the map of the key-value server. -/
def values (store : Map String String) : Kv.Store := fun key => store.lookup key

/-- A program gets the replies of the key-value server, and its writes are those of the server. -/
theorem store_replies (store : Map String String) (key value : String) :
    Answers (values store) (.get key)
      (.get ((store.lookup key).getD "") (store.lookup key).isSome) ∧
    values (store.insert key value) = (Args.put key value).apply (values store) := by
  refine ⟨⟨rfl, rfl⟩, ?_⟩
  funext k
  simp only [values, Args.apply, Map.lookup_insert, Function.update_apply]

/-- The entries that a program lists are those of a range over the reply of the server. -/
theorem store_lists {store entries : Map String String} {start : String}
    (answers : Answers (values store) (.list start) (.list entries)) (order : List String) :
    (order.Perm (store.keys.filter (hasPrefix · start)) ↔ order.Perm entries.keys) ∧
      (order.Perm entries.keys →
        Program.entriesAt store order = Program.entriesAt entries order) := by
  have listed : ∀ key, key ∈ entries.keys ↔ key ∈ store.keys.filter (hasPrefix · start) := by
    intro key
    have reply := answers key
    rw [List.mem_filter, ← AList.mem_keys, ← AList.mem_keys, ← AList.lookup_isSome,
      ← AList.lookup_isSome, reply]
    cases hasPrefix key start <;> simp [values]
  have same : entries.keys.Perm (store.keys.filter (hasPrefix · start)) :=
    (List.perm_ext_iff_of_nodup entries.keys_nodup (store.keys_nodup.filter _)).mpr listed
  refine ⟨⟨fun perm => perm.trans same.symm, fun perm => perm.trans same⟩, fun perm => ?_⟩
  refine List.filterMap_congr fun key member => ?_
  have here := (List.mem_filter.mp ((listed key).mp (perm.mem_iff.mp member))).2
  have reply := answers key
  rw [if_pos here] at reply
  rw [reply]
  rfl

/-- `strings.Split(key, delim)`. -/
def split (key : String) : List String := (key.toList.splitOn '/').map String.ofList

/-! ### Characters -/

def locKey (name : String) : String := locPrefix ++ name

def balanceKey (name : String) : String := balancePrefix ++ name

def compKey (name comp : String) : String := compPrefix ++ name ++ delim ++ comp

def getEducation (name : String) : Play String := do
  orElse (← get name) (error "Client does not have a level initialized")

def initializeCharacter (name : String) : Play Unit := do
  match ← get name with
  | some _ => discard (getEducation name)
  | none =>
    put name "Undergraduate"
    put (locKey name) "5"
    put (balanceKey name) "0"
    put (compKey name "cpu") "1"

def initializeProblems : Play Unit :=
  education.foldlM (fun _ p => do
    match ← get p with
    | some _ => pure ()
    | none => put p (formatUint (problemHealth p))) ()

def move (name loc : String) : Play Unit :=
  if loc ∈ validLocations then put (locKey name) loc else pure ()

def getBalance (name : String) : Play Nat := do
  let value ← orElse (← get (balanceKey name))
    (error ("default balance should at least be 0 for: " ++ name))
  orElse (parseUint value) (error "Balance was not a uint64")

/-- One turn of the loop in `getComputers`. -/
def countComputer (computers : Map String Int) (entry : String × String) :
    Play (Map String Int) := do
  let comp ← orElse ((split entry.1)[2]?) (.panic "index out of range")
  let num ← orElse (atoi entry.2) (error "Expected computing power to be an int")
  return if 0 < num then computers.insert comp num else computers

def getComputers (name : String) : Play (Map String Int) := do
  let inventory ← list (compPrefix ++ name)
  inventory.foldlM countComputer ∅

def number (computers : Map String Int) (comp : String) : Int := (computers.lookup comp).getD 0

def getComputingPower (name : String) : Play Int := do
  let computers ← getComputers name
  let order ← range computers
  return order.foldl (fun totalPower c =>
    wrap (totalPower + wrap (powers c * number computers c))) 0

def getMinedCoins (name : String) : Play Nat := do
  let totalPower ← getComputingPower name
  return (← intn totalPower) + 1

/-- One turn of the loop in `mine`. -/
def mineOnce (name : String) : Play Unit := do
  let balance ← getBalance name
  let mined ← intn miningRange
  if mined ≤ miningSuccessRate then
    let minedCoins ← getMinedCoins name
    put (balanceKey name) (formatUint ((balance + minedCoins) % size64))

def mine (name : String) (num : Int) : Play Unit :=
  (List.range num.toNat).foldlM (fun _ _ => mineOnce name) ()

/-- The loop in `buy`. It ends within `fuel` turns if this is the balance, as no price is 0. -/
def purchase (compPrice : Nat) : Nat → Nat → Int → Nat × Int
  | 0, balance, newNumComputers => (balance, newNumComputers)
  | fuel + 1, balance, newNumComputers =>
    if compPrice ≤ balance then
      purchase compPrice fuel (balance - compPrice) (wrap (newNumComputers + 1))
    else (balance, newNumComputers)

def buy (name : String) (comp : Hardware) : Play Unit := do
  let balance ← getBalance name
  let computers ← getComputers name
  if comp.price ≤ balance then
    let bought := purchase comp.price balance balance 0
    let newNumComputers := match computers.lookup comp.text with
      | some numComputers => wrap (bought.2 + numComputers)
      | none => bought.2
    put (balanceKey name) (formatUint bought.1)
    put (compKey name comp.text) (itoa newNumComputers)

/-! ### Problems -/

/-- One turn of the loop that breaks hardware: the index, the computers and the total. -/
def breakTurn (breakHardware : Nat) (state : Nat × Map String Int × Int) (k : String) :
    Play (Nat × Map String Int × Int) := do
  let (index, computers, total) := state
  let v := number computers k
  if breakHardware = index then
    let _ ← orElse (findHardware k) (error ("Unknown hardware name: " ++ k))
    return (index + 1, computers.insert k (v.tdiv breakRate), wrap (total + v.tdiv breakRate))
  else
    return (index + 1, computers, wrap (total + v))

/-- A roll of at most `breakSuccess`. -/
def brokeHardware (name : String) : Play Bool := do
  let computers ← getComputers name
  let breakHardware ← intn (Map.size computers)
  let order ← range computers
  let (_, computers, total) ← order.foldlM (breakTurn breakHardware) (0, computers, 0)
  let order ← range computers
  order.foldlM (fun _ k => put (compKey name k) (itoa (number computers k))) ()
  if total = 0 then
    put (compKey name "cpu") "1"
    return true
  else
    return false

/-- The education after a problem, `Retired` if there is no other. -/
def nextEducation (problem : String) : String :=
  let i := education.idxOf problem
  if i < education.length - 2 then education.getD (i + 1) "Retired" else "Retired"

/-- The stored health of the problem, which is made good if it is not there. -/
def remainingHealth (problem : String) : Play Nat := do
  match ← get problem with
  | none =>
    put problem (formatUint (problemHealth problem))
    return problemHealth problem
  | some value => orElse (parseUint value) (error "Remaining health was not an uint64")

/-- What is done with the computing power in `ComputeProblem`. -/
def solveWith (name problem : String) (computingPower : Nat) : Play Bool := do
  let remainingHealth ← remainingHealth problem
  if computingPower < remainingHealth then
    put problem (formatUint (remainingHealth - computingPower))
    return false
  else
    put problem (formatUint (problemHealth problem))
    put name (nextEducation problem)
    return true

/-- A roll of at most `solveSuccess`. -/
def solvedPart (name problem : String) : Play Bool := do
  let computingPower ← getComputingPower name
  solveWith name problem (uint64 computingPower)

def computeProblem (name problem : String) : Play Bool := do
  let roll ← intn solveRange
  if roll ≤ breakSuccess then brokeHardware name
  else if roll ≤ solveSuccess then solvedPart name problem
  else return false

end DistSys.Game
