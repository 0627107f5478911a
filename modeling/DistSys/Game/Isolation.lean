import DistSys.Game.Cmud

/-! Players do not touch each other's state, as long as their names are apart. Keys are put together
from names, read back by a common beginning and taken apart at slashes. -/
namespace DistSys.Game

open DistSys.Lib DistSys.Kv

variable {p q key : String} {store store' t : Map String String} {α : Type} {play : Play α}
  {choices rest : List (Choice String)} {o : Except String α}

/-! ### The keys of a player -/

def inventory (name : String) : List String := hardware.map fun h => compKey name h.text

def ownKeys (name : String) : List String :=
  [name, locKey name, balanceKey name] ++ inventory name

/-- A name without a slash that is not the name of a problem. -/
structure Plain (name : String) : Prop where
  whole : '/' ∉ name.toList
  notProblem : name ∉ education

theorem mem_ownKeys : key ∈ ownKeys p ↔
    key = p ∨ key = locKey p ∨ key = balanceKey p ∨ key ∈ inventory p := by
  simp [ownKeys]

theorem mem_inventory : key ∈ inventory p ↔ ∃ h : Hardware, key = compKey p h.text := by
  unfold inventory
  constructor
  · intro member
    obtain ⟨h, _, rfl⟩ := List.mem_map.mp member
    exact ⟨h, rfl⟩
  · rintro ⟨h, rfl⟩
    exact List.mem_map.mpr ⟨h, by cases h <;> decide, rfl⟩

theorem compKey_own (p : String) (h : Hardware) : compKey p h.text ∈ ownKeys p :=
  mem_ownKeys.mpr (.inr (.inr (.inr (mem_inventory.mpr ⟨h, rfl⟩))))

theorem text_whole (h : Hardware) : '/' ∉ h.text.toList := by
  cases h <;> decide

/-- The fields of a key that was put together from words without slashes. -/
theorem split_words {words : List String} (some : words ≠ [])
    (whole : ∀ word ∈ words, '/' ∉ word.toList)
    (joined : key.toList = ['/'].intercalate (words.map String.toList)) : split key = words := by
  unfold split
  rw [joined, List.splitOn_intercalate '/' ?_ (by simpa using some), List.map_map]
  · simp
  · intro word member
    obtain ⟨text, there, rfl⟩ := List.mem_map.mp member
    exact whole text there

theorem split_name (whole : '/' ∉ p.toList) : split p = [p] :=
  split_words (by simp) (by simpa using whole) (by simp)

theorem split_locKey (whole : '/' ∉ p.toList) : split (locKey p) = ["loc", p] := by
  refine split_words (by simp) ?_ ?_
  · simpa using whole
  · simp [locKey, locPrefix]

theorem split_balanceKey (whole : '/' ∉ p.toList) : split (balanceKey p) = ["balance", p] := by
  refine split_words (by simp) ?_ ?_
  · simpa using whole
  · simp [balanceKey, balancePrefix]

/-- The fields of an inventory key, also for a name with slashes. -/
theorem split_compKey_fields (p : String) (h : Hardware) :
    split (compKey p h.text) = "comp" :: (split p ++ [h.text]) := by
  have joined : (compKey p h.text).toList =
      "comp".toList ++ '/' :: (p.toList ++ '/' :: h.text.toList) := by
    simp [compKey, compPrefix, delim]
  have parts : (compKey p h.text).toList.splitOn '/' =
      "comp".toList.splitOn '/' ++ (p.toList.splitOn '/' ++ h.text.toList.splitOn '/') := by
    rw [joined]
    simp only [List.splitOn]
    rw [List.splitOnP_append_cons _ _ (by simp), List.splitOnP_append_cons _ _ (by simp)]
  have own : split h.text = [h.text] := split_name (text_whole h)
  have first : split "comp" = ["comp"] := split_name (by decide)
  unfold split at own first ⊢
  rw [parts, List.map_append, List.map_append, own, first]
  rfl

theorem split_compKey (whole : '/' ∉ p.toList) (h : Hardware) :
    split (compKey p h.text) = ["comp", p, h.text] := by
  rw [split_compKey_fields, split_name whole]
  rfl

/-- No name is taken apart like another one. -/
theorem split_inj (same : split p = split q) : p = q := by
  have fields : p.toList.splitOn '/' = q.toList.splitOn '/' :=
    List.map_injective_iff.mpr (fun _ _ => String.ofList_injective) same
  have joined : ∀ text : String, ['/'].intercalate (text.toList.splitOn '/') = text.toList :=
    fun _ => List.intercalate_splitOn '/'
  rw [← String.toList_inj, ← joined p, fields, joined q]

theorem compKey_owner {h g : Hardware} (same : compKey p h.text = compKey q g.text) : p = q := by
  have fields := congrArg split same
  rw [split_compKey_fields, split_compKey_fields] at fields
  exact split_inj (List.append_inj_left' (List.cons.inj fields).2 rfl)

/-- The prefixes of the keys are apart, so a key has two owners only if one of them is called like a
key of the other. -/
theorem own_shared (two : p ≠ q) (own : key ∈ ownKeys p) (other : key ∈ ownKeys q) :
    p ∈ ownKeys q ∨ q ∈ ownKeys p := by
  have differ : ∀ {s t : String}, s = t → s.toList.head? = t.toList.head? := fun same => by rw [same]
  rcases mem_ownKeys.mp own with rfl | rfl | rfl | member
  · exact .inl other
  · rcases mem_ownKeys.mp other with rfl | same | same | member
    · exact .inr own
    · exact absurd (by simpa [locKey] using same) two
    · simpa [locKey, locPrefix, balanceKey, balancePrefix] using differ same
    · obtain ⟨h, same⟩ := mem_inventory.mp member
      simpa [locKey, locPrefix, compKey, compPrefix] using differ same
  · rcases mem_ownKeys.mp other with rfl | same | same | member
    · exact .inr own
    · simpa [locKey, locPrefix, balanceKey, balancePrefix] using differ same
    · exact absurd (by simpa [balanceKey] using same) two
    · obtain ⟨h, same⟩ := mem_inventory.mp member
      simpa [balanceKey, balancePrefix, compKey, compPrefix] using differ same
  · obtain ⟨h, rfl⟩ := mem_inventory.mp member
    rcases mem_ownKeys.mp other with rfl | same | same | member'
    · exact .inr own
    · simpa [locKey, locPrefix, compKey, compPrefix] using differ same
    · simpa [balanceKey, balancePrefix, compKey, compPrefix] using differ same
    · obtain ⟨g, same⟩ := mem_inventory.mp member'
      exact absurd (compKey_owner same) two

theorem own_not_education (notProblem : p ∉ education) (own : key ∈ ownKeys p) : key ∉ education := by
  intro problem
  have whole : ∀ name ∈ education, '/' ∉ name.toList := by decide
  refine whole key problem ?_
  rcases mem_ownKeys.mp own with rfl | rfl | rfl | member
  · exact absurd problem notProblem
  · simp [locKey, locPrefix]
  · simp [balanceKey, balancePrefix]
  · obtain ⟨h, rfl⟩ := mem_inventory.mp member
    simp [compKey, compPrefix]

/-- The keys of a player are apart from those of another one and from the problems exactly if neither
name is a key of the other and the name is not that of a problem. -/
theorem keys_apart_iff (two : p ≠ q) :
    (∀ key ∈ ownKeys p, key ∉ ownKeys q ∧ key ∉ education) ↔
      p ∉ ownKeys q ∧ q ∉ ownKeys p ∧ p ∉ education := by
  have name : ∀ name, name ∈ ownKeys name := fun name => mem_ownKeys.mpr (.inl rfl)
  constructor
  · intro apart
    exact ⟨(apart p (name p)).1, fun own => (apart q own).1 (name q), (apart p (name p)).2⟩
  · rintro ⟨first, second, notProblem⟩ key own
    refine ⟨fun other => ?_, own_not_education notProblem own⟩
    rcases own_shared two own other with called | called
    · exact first called
    · exact second called

theorem own_not_problem (plain : Plain p) (own : key ∈ ownKeys p) : key ∉ education :=
  own_not_education plain.notProblem own

/-! ### What is read under the beginning of a player's keys -/

/-- Every key that `getComputers` lists is one of the player's own. -/
def Unshadowed (name : String) (store : Map String String) : Prop :=
  ∀ key ∈ store, hasPrefix key (compPrefix ++ name) = true → key ∈ inventory name

theorem hasPrefix_iff {start : String} :
    hasPrefix key start = true ↔ start.toList <+: key.toList := by
  simp [hasPrefix]

/-- Where all inventories are those of players whose names do not begin with this one, no key stands
in the way. -/
theorem unshadowed_of_names {names : List String} (whole : '/' ∉ p.toList)
    (apart : ∀ name ∈ names, p.toList <+: name.toList → name = p)
    (filled : ∀ key ∈ store, hasPrefix key compPrefix = true →
      ∃ name ∈ names, key ∈ inventory name) : Unshadowed p store := by
  intro key member begins
  rw [hasPrefix_iff, String.toList_append] at begins
  obtain ⟨name, known, own⟩ := filled key member
    (hasPrefix_iff.mpr ((List.prefix_append _ _).trans begins))
  obtain ⟨h, rfl⟩ := mem_inventory.mp own
  have inside : p.toList <+: name.toList ++ '/' :: h.text.toList := by
    simpa [compKey, delim] using begins
  have below : p.toList <+: name.toList := by
    rcases List.prefix_or_prefix_of_prefix inside (List.prefix_append _ _) with below | ⟨tail, joined⟩
    · exact below
    · cases tail with
      | nil => exact ⟨[], by simpa using joined.symm⟩
      | cons c tail =>
        -- the first character of the name that is not in the other one would be the slash
        rw [← joined, List.prefix_append_right_inj, List.cons_prefix_cons] at inside
        refine absurd ?_ whole
        rw [← joined, inside.1]
        simp
  rw [← apart name known below]
  exact own

/-- What a player's commands read, and what they know of the store. -/
def accessOf (name : String) (writes : String → Prop) : Program.Access String String where
  good key _ := hasPrefix key (compPrefix ++ name) = true → key ∈ inventory name
  reads key := key ∈ ownKeys name ∨ hasPrefix key (compPrefix ++ name) = true
  writes := writes

def SameOn (keys : List String) (store store' : Map String String) : Prop :=
  ∀ key ∈ keys, store'.lookup key = store.lookup key

theorem Unshadowed.good (clear : Unshadowed p store) (writes : String → Prop) :
    (accessOf p writes).Good store :=
  fun key _ found => clear key (Map.mem_of_lookup found)

theorem SameOn.access (same : SameOn (ownKeys p) store store') (clear : Unshadowed p store)
    (clear' : Unshadowed p store') (writes : String → Prop) :
    (accessOf p writes).Same store store' := by
  rintro key (own | begins)
  · exact same key own
  · by_cases own : key ∈ ownKeys p
    · exact same key own
    · have absent : ∀ {store : Map String String}, Unshadowed p store →
          store.lookup key = none := by
        intro store clear
        refine AList.lookup_eq_none.mpr fun member => own ?_
        exact mem_ownKeys.mpr (.inr (.inr (.inr (clear key member begins))))
      rw [absent clear, absent clear']

/-- Nothing is wrong with writing one's own keys. -/
theorem own_good (own : key ∈ ownKeys p) (begins : hasPrefix key (compPrefix ++ p) = true) :
    key ∈ inventory p := by
  rw [hasPrefix_iff, String.toList_append] at begins
  rcases mem_ownKeys.mp own with rfl | rfl | rfl | member
  · have longer := begins.length_le
    simp only [compPrefix, List.length_append] at longer
    exact absurd longer (by simp)
  · simp [locKey, locPrefix, compPrefix] at begins
  · simp [balanceKey, balancePrefix, compPrefix] at begins
  · exact member

/-! ### What the commands use -/

section Uses

variable {access : Program.Access String String}

theorem uses_orElse {post : α → Prop} {found : Option α} {message : String}
    (fits : ∀ a, found = some a → post a) : (orElse found (.panic message)).Uses access post := by
  cases found with
  | none => trivial
  | some a => exact fits a rfl

theorem uses_any {found : Option α} {message : String} :
    (orElse found (.panic message)).Uses access fun _ => True :=
  uses_orElse fun _ _ => trivial

theorem uses_intn {n : Int} : (intn n).Uses access fun i : Nat => (i : Int) < n :=
  fun _ small => small

/-- A read of which nothing has to be known. -/
theorem uses_get (reads : access.reads key) : (get key).Uses access fun _ => True :=
  ⟨reads, fun _ _ => trivial⟩

theorem uses_put {value : String} (written : access.writes key) (good : access.good key value) :
    (put key value).Uses access fun _ => True :=
  ⟨written, good, trivial⟩

/-- All computers are of the kinds that there are. -/
def OfHardware (computers : Map String Int) : Prop :=
  ∀ comp ∈ computers, ∃ h : Hardware, comp = h.text

theorem OfHardware.insert {computers : Map String Int} (known : OfHardware computers)
    {comp : String} (kind : ∃ h : Hardware, comp = h.text) (n : Int) :
    OfHardware (computers.insert comp n) := by
  intro other member
  rcases (AList.mem_insert _).mp member with rfl | old
  · exact kind
  · exact known other old

theorem uses_range {computers : Map String Int} :
    (range computers).Uses access fun order => order.Perm computers.keys := fun _ perm => perm

/-- The computers that are read from the player's own keys: their names are third fields of the keys. -/
def Listed (p : String) (computers : Map String Int) : Prop :=
  ∀ comp ∈ computers, ∃ h : Hardware, (split (compKey p h.text))[2]? = some comp

/-- For a name with a slash the third field is a part of the name. -/
theorem Listed.kinds {computers : Map String Int} (listed : Listed p computers) :
    OfHardware computers ∨ ∃ field, ∀ comp ∈ computers, comp = field := by
  simp only [Listed, split_compKey_fields] at listed
  match split p, listed with
  | [], listed => exact .inl fun comp member => by simpa using listed comp member
  | [_], listed => exact .inl fun comp member => by simpa [eq_comm] using listed comp member
  | _ :: second :: _, listed =>
    refine .inr ⟨second, fun comp member => ?_⟩
    obtain ⟨h, third⟩ := listed comp member
    simpa [eq_comm] using third

theorem uses_getComputers (p : String) (writes : String → Prop) :
    (getComputers p).Uses (accessOf p writes) (Listed p) := by
  have listed : (list (compPrefix ++ p)).Uses (accessOf p writes)
      fun entries => ∀ entry ∈ entries, entry.1 ∈ inventory p := by
    refine ⟨fun key begins => .inr begins, ?_⟩
    intro entries known entry member
    exact (known entry member).2 (known entry member).1
  refine listed.bind fun entries own => Program.Uses.foldlM _ ?_ ?_
  · intro computers entry member known
    obtain ⟨h, key⟩ := mem_inventory.mp (own entry member)
    refine (uses_orElse fun comp third => third).bind fun comp third => ?_
    refine uses_any.bind fun num _ => ?_
    change Listed p (if 0 < num then computers.insert comp num else computers)
    split
    · intro other inserted
      rcases (AList.mem_insert _).mp inserted with rfl | old
      · exact ⟨h, key ▸ third⟩
      · exact known other old
    · exact known
  · intro comp empty
    cases empty

theorem uses_getComputingPower (p : String) (writes : String → Prop) :
    (getComputingPower p).Uses (accessOf p writes) fun _ => True := by
  refine (uses_getComputers p _).bind fun computers _ => ?_
  exact uses_range.bind fun order _ => trivial

theorem uses_getBalance {writes : String → Prop} : (getBalance p).Uses (accessOf p writes) fun _ => True := by
  have reads : (accessOf p writes).reads (balanceKey p) :=
    .inl (mem_ownKeys.mpr (.inr (.inr (.inl rfl))))
  refine (uses_get reads).bind fun value _ => ?_
  refine uses_any.bind fun value _ => ?_
  exact uses_any

/-- A player may write its own keys. -/
theorem uses_own {value : String} (own : key ∈ ownKeys p) :
    (put key value).Uses (accessOf p (· ∈ ownKeys p)) fun _ => True :=
  uses_put own (own_good own)

theorem uses_initializeCharacter :
    (initializeCharacter p).Uses (accessOf p (· ∈ ownKeys p)) fun _ => True := by
  have reads : (accessOf p (· ∈ ownKeys p)).reads p := .inl (mem_ownKeys.mpr (.inl rfl))
  refine (uses_get reads).bind fun found _ => ?_
  cases found with
  | some value =>
    have level : (getEducation p).Uses (accessOf p (· ∈ ownKeys p)) fun _ => True :=
      (uses_get reads).bind fun _ _ => uses_any
    exact level.bind fun _ _ => trivial
  | none =>
    refine (uses_own (mem_ownKeys.mpr (.inl rfl))).bind fun _ _ => ?_
    refine (uses_own (mem_ownKeys.mpr (.inr (.inl rfl)))).bind fun _ _ => ?_
    refine (uses_own (mem_ownKeys.mpr (.inr (.inr (.inl rfl))))).bind fun _ _ => ?_
    exact uses_own (compKey_own p .cpu)

/-- The problems are shared, and everybody makes sure that they are there. -/
theorem uses_initializeProblems : initializeProblems.Uses
    (⟨fun _ _ => True, fun _ => True, (· ∈ education)⟩ : Program.Access String String)
    fun _ => True := by
  refine Program.Uses.foldlM _ ?_ trivial
  intro _ problem shared _
  refine (uses_get trivial).bind fun found _ => ?_
  cases found with
  | some value => trivial
  | none => exact uses_put shared trivial

theorem uses_buy (p : String) (comp : Hardware) :
    (buy p comp).Uses (accessOf p (· ∈ ownKeys p)) fun _ => True := by
  refine uses_getBalance.bind fun balance _ => ?_
  refine (uses_getComputers p _).bind fun computers _ => ?_
  split
  · refine (uses_own (mem_ownKeys.mpr (.inr (.inr (.inl rfl))))).bind fun _ _ => ?_
    exact uses_own (compKey_own p comp)
  · trivial

theorem findHardware_some {comp : String} {h : Hardware} (found : findHardware comp = some h) :
    comp = h.text := by
  unfold findHardware at found
  have same : h.text = comp := by simpa using List.find?_some found
  exact same.symm

theorem uses_breakTurn {breakHardware : Nat} {state : Nat × Map String Int × Int} {k : String}
    (known : OfHardware state.2.1) (kind : ∃ h : Hardware, k = h.text) :
    (breakTurn breakHardware state k).Uses access fun state => OfHardware state.2.1 := by
  unfold breakTurn
  dsimp only
  split
  · refine uses_any.bind fun _ _ => ?_
    exact known.insert kind _
  · exact known

/-- The loop that breaks one computer asks for its kind. A name with a slash has one field for all its
computers, so that the one that breaks has this kind or the loop panics. -/
theorem uses_breakLoop {computers : Map String Int} {breakHardware : Nat} {order : List String}
    (listed : Listed p computers) (small : (breakHardware : Int) < (Map.size computers : Nat))
    (perm : order.Perm computers.keys) :
    (order.foldlM (breakTurn breakHardware) (0, computers, 0)).Uses access
      fun state : Nat × Map String Int × Int => OfHardware state.2.1 := by
  have there : ∀ k ∈ order, k ∈ computers := fun k member =>
    AList.mem_keys.mpr (perm.mem_iff.mp member)
  rcases listed.kinds with known | ⟨field, all⟩
  · refine Program.Uses.foldlM _ ?_ known
    intro state k member kept
    exact uses_breakTurn kept (known k (there k member))
  · -- all keys of the map are one, so that index 0 is drawn
    have same : ∀ k ∈ order, k = field := fun k member => all k (there k member)
    have once : order.Nodup := perm.nodup_iff.mpr computers.keys_nodup
    have length : order.length = Map.size computers := by
      rw [perm.length_eq, Map.size_keys]
    match order, same, once, length, there with
    | [], _, _, length, _ =>
      simp only [List.length_nil] at length
      omega
    | [k], same, _, length, _ =>
      simp only [List.length_singleton] at length
      have first : breakHardware = 0 := by omega
      have turn : (breakTurn breakHardware (0, computers, 0) k).Uses access
          fun state => OfHardware state.2.1 := by
        simp only [breakTurn, if_pos first]
        have asked : (orElse (findHardware k) (error ("Unknown hardware name: " ++ k))).Uses access
            fun h => k = h.text :=
          uses_orElse fun h => findHardware_some
        refine asked.bind fun h kind => ?_
        refine OfHardware.insert (fun comp member => ⟨h, ?_⟩) ⟨h, kind⟩ _
        rw [all comp member, ← same k (by simp), kind]
      exact turn.bind fun _ known => known
    | k :: k' :: more, same, once, _, _ =>
      have both : k = k' := (same k (by simp)).trans (same k' (by simp)).symm
      simp [both] at once

theorem uses_brokeHardware (p : String) :
    (brokeHardware p).Uses (accessOf p (· ∈ ownKeys p)) fun _ => True := by
  refine (uses_getComputers p _).bind fun computers listed => ?_
  refine uses_intn.bind fun breakHardware small => ?_
  refine uses_range.bind fun order perm => ?_
  refine (uses_breakLoop listed small perm).bind fun state known => ?_
  refine uses_range.bind fun order perm => ?_
  have stored : (order.foldlM
      (fun _ k => put (compKey p k) (itoa (number state.2.1 k))) ()).Uses
      (accessOf p (· ∈ ownKeys p)) fun _ => True := by
    refine Program.Uses.foldlM _ ?_ trivial
    intro _ k member _
    obtain ⟨h, rfl⟩ := known k (AList.mem_keys.mpr (perm.mem_iff.mp member))
    exact uses_own (compKey_own p h)
  refine stored.bind fun _ _ => ?_
  split
  · exact (uses_own (compKey_own p .cpu)).bind fun _ _ => trivial
  · trivial

theorem uses_solveWith {problem : String} (reads : access.reads problem)
    (written : access.writes problem) (name : access.writes p)
    (good : ∀ value, access.good problem value) (goodName : ∀ value, access.good p value)
    (computingPower : Nat) :
    (solveWith p problem computingPower).Uses access fun _ => True := by
  have health : (remainingHealth problem).Uses access fun _ => True := by
    refine (uses_get reads).bind fun found _ => ?_
    cases found with
    | none => exact (uses_put written (good _)).bind fun _ _ => trivial
    | some value => exact uses_any
  refine health.bind fun remainingHealth _ => ?_
  split
  · exact (uses_put written (good _)).bind fun _ _ => trivial
  · refine (uses_put written (good _)).bind fun _ _ => ?_
    exact (uses_put name (goodName _)).bind fun _ _ => trivial

end Uses

/-! ### Two players -/

/-- From stores with the same own keys, the same draws and orders lead to the same result and to the
same own keys. -/
def DependsOnOwn (p : String) (play : Play α) : Prop :=
  ∀ store store' choices o t rest, Unshadowed p store → Unshadowed p store' →
    SameOn (ownKeys p) store store' → play.exec store choices = some (o, t, rest) →
    ∃ t', play.exec store' choices = some (o, t', rest) ∧ SameOn (ownKeys p) t t'

/-- The same for the inventory only: the result may depend on a problem that others work on too. -/
def InventoryDependsOnOwn (p : String) (play : Play α) : Prop :=
  ∀ store store' choices o t rest, Unshadowed p store → Unshadowed p store' →
    SameOn (ownKeys p) store store' → play.exec store choices = some (o, t, rest) →
    ∃ o' t', play.exec store' choices = some (o', t', rest) ∧ SameOn (inventory p) t t'

def WritesOnly (p : String) (keys : List String) (play : Play α) : Prop :=
  ∀ store choices o t rest, Unshadowed p store → play.exec store choices = some (o, t, rest) →
    ∀ key ∉ keys, t.lookup key = store.lookup key

section Commands

variable {writes : String → Prop} {post : α → Prop} {problem : String}
  {ended : Except String Bool × Map String String × List (Choice String)}

theorem dependsOnOwn (uses : play.Uses (accessOf p writes) post) : DependsOnOwn p play := by
  intro store store' choices o t rest clear clear' same ran
  obtain ⟨t', ran', after⟩ := uses.agree (clear.good writes) (same.access clear clear' writes) ran
  exact ⟨t', ran', fun key own => after key (.inl own)⟩

theorem writesOnly (keys : List String) (uses : play.Uses (accessOf p (· ∈ keys)) post) :
    WritesOnly p keys play := by
  intro store choices o t rest clear ran
  exact (uses.frame (clear.good _) ran).1

theorem DependsOnOwn.inventory (depends : DependsOnOwn p play) : InventoryDependsOnOwn p play := by
  intro store store' choices o t rest clear clear' same ran
  obtain ⟨t', ran', after⟩ := depends store store' choices o t rest clear clear' same ran
  refine ⟨o, t', ran', fun key member => after key ?_⟩
  exact mem_ownKeys.mpr (.inr (.inr (.inr member)))

/-- Reading the computing power changes nothing. -/
theorem power_same (clear : Unshadowed p store)
    {ended : Except String Int}
    (ran : (getComputingPower p).exec store choices = some (ended, t, rest)) (key : String) :
    t.lookup key = store.lookup key :=
  writesOnly [] (uses_getComputingPower p _) store choices ended t rest clear ran key
    List.not_mem_nil

theorem orElse_choiceFree (found : Option α) (message : String) :
    (orElse found (.panic message) : Play α).ChoiceFree := by
  cases found <;> trivial

theorem solveWith_choiceFree (p problem : String) (computingPower : Nat) :
    (solveWith p problem computingPower).ChoiceFree := by
  have written : ∀ key value, (put key value).ChoiceFree := fun _ _ => trivial
  have health : (remainingHealth problem).ChoiceFree := by
    have read : (get problem).ChoiceFree := fun _ => trivial
    refine read.bind fun found => ?_
    cases found with
    | none => exact (written _ _).bind fun _ => trivial
    | some value => exact orElse_choiceFree _ _
  refine health.bind fun remainingHealth => ?_
  split
  · exact (written _ _).bind fun _ => trivial
  · exact (written _ _).bind fun _ => (written _ _).bind fun _ => trivial

/-- Work on a problem changes the problem and the education of the player. -/
theorem solveWith_exec (p problem : String) (computingPower : Nat) (store : Map String String)
    (choices : List (Choice String)) :
    ∃ o t, (solveWith p problem computingPower).exec store choices = some (o, t, choices) ∧
      ∀ key, key ≠ problem → key ≠ p → t.lookup key = store.lookup key := by
  obtain ⟨o, t, ran⟩ := (solveWith_choiceFree p problem computingPower).exec store choices
  let access : Program.Access String String :=
    ⟨fun _ _ => True, fun _ => True, fun key => key = problem ∨ key = p⟩
  have uses : (solveWith p problem computingPower).Uses access fun _ => True :=
    uses_solveWith trivial (Or.inl rfl) (Or.inr rfl) (fun _ => trivial) (fun _ => trivial)
      computingPower
  refine ⟨o, t, ran, fun key notProblem notName => ?_⟩
  refine (uses.frame (fun _ _ _ => trivial) ran).1 key ?_
  rintro (same | same)
  · exact notProblem same
  · exact notName same

/-- The part of `ComputeProblem` that solves: the power is that of the player's own computers, and
no computer is written. -/
theorem solvedPart_inventory :
    InventoryDependsOnOwn p (solvedPart p problem) := by
  by_cases own : problem ∈ ownKeys p
  · have name : p ∈ ownKeys p := mem_ownKeys.mpr (.inl rfl)
    have uses : (solvedPart p problem).Uses (accessOf p (· ∈ ownKeys p)) fun _ => True := by
      refine (uses_getComputingPower p _).bind fun computingPower _ => ?_
      have reads : (accessOf p (· ∈ ownKeys p)).reads problem := .inl own
      exact uses_solveWith reads own name (fun _ => own_good own) (fun _ => own_good name) _
    exact (dependsOnOwn uses).inventory
  · intro store store' choices o t rest clear clear' same ran
    unfold solvedPart at ran ⊢
    rw [Program.exec_bind] at ran ⊢
    obtain ⟨⟨ended, between, left⟩, first, second⟩ := Option.bind_eq_some_iff.mp ran
    obtain ⟨between', first', agree⟩ := dependsOnOwn (uses_getComputingPower p (· ∈ ownKeys p))
      store store' choices ended between left clear clear' same first
    rw [first', Option.bind_some]
    have inside : ∀ key ∈ inventory p, key ∈ ownKeys p := fun key member =>
      mem_ownKeys.mpr (.inr (.inr (.inr member)))
    cases ended with
    | error message =>
      cases Option.some.inj second
      exact ⟨_, _, rfl, fun key member => agree key (inside key member)⟩
    | ok computingPower =>
      obtain ⟨o₁, t₁, ran₁, kept⟩ := solveWith_exec p problem (uint64 computingPower) between left
      obtain ⟨o₂, t₂, ran₂, kept'⟩ := solveWith_exec p problem (uint64 computingPower) between' left
      cases Option.some.inj (ran₁.symm.trans second)
      refine ⟨o₂, t₂, ran₂, fun key member => ?_⟩
      have notProblem : key ≠ problem := fun same => own (same ▸ inside key member)
      have notName : key ≠ p := by
        rintro rfl
        obtain ⟨h, long⟩ := mem_inventory.mp member
        have lengths := congrArg (fun text => text.toList.length) long
        simp [compKey, compPrefix, delim] at lengths
        omega
      rw [kept key notProblem notName, kept' key notProblem notName, agree key (inside key member)]

theorem solvedPart_writes :
    WritesOnly p (problem :: ownKeys p) (solvedPart p problem) := by
  intro store choices o t rest clear ran key unwritten
  unfold solvedPart at ran
  rw [Program.exec_bind] at ran
  obtain ⟨⟨ended, between, left⟩, first, second⟩ := Option.bind_eq_some_iff.mp ran
  have read := power_same clear first key
  cases ended with
  | error message =>
    cases Option.some.inj second
    exact read
  | ok computingPower =>
    obtain ⟨o₁, t₁, ran₁, kept⟩ := solveWith_exec p problem (uint64 computingPower) between left
    cases Option.some.inj (ran₁.symm.trans second)
    rw [kept key ?_ ?_, read]
    · rintro rfl
      exact unwritten List.mem_cons_self
    · rintro rfl
      exact unwritten (List.mem_cons_of_mem _ (mem_ownKeys.mpr (.inl rfl)))

/-- What `ComputeProblem` does is decided by the roll alone. -/
theorem computeProblem_exec (ran : (computeProblem p problem).exec store choices = some ended) :
    ∃ part more, (part = brokeHardware p ∨ part = solvedPart p problem ∨ part = .done false) ∧
      part.exec store more = some ended ∧
      ∀ store', (computeProblem p problem).exec store' choices = part.exec store' more := by
  have rolled : ∀ store, (computeProblem p problem).exec store choices =
      (Program.takeDraw solveRange choices).bind fun taken =>
        (if taken.1 ≤ breakSuccess then brokeHardware p
          else if taken.1 ≤ solveSuccess then solvedPart p problem
          else .done false : Play Bool).exec store taken.2 := fun _ => rfl
  rw [rolled] at ran
  obtain ⟨⟨roll, more⟩, taken, ran⟩ := Option.bind_eq_some_iff.mp ran
  refine ⟨_, more, ?_, ran, fun store' => by rw [rolled, taken]; rfl⟩
  dsimp only
  split
  · exact .inl rfl
  · split
    · exact .inr (.inl rfl)
    · exact .inr (.inr rfl)

theorem computeProblem_inventory :
    InventoryDependsOnOwn p (computeProblem p problem) := by
  intro store store' choices o t rest clear clear' same ran
  obtain ⟨part, more, which, ran, again⟩ := computeProblem_exec ran
  rw [again]
  have depends : InventoryDependsOnOwn p part := by
    rcases which with rfl | rfl | rfl
    · exact (dependsOnOwn (uses_brokeHardware p)).inventory
    · exact solvedPart_inventory
    · have uses : (Program.done false : Play Bool).Uses (accessOf p (· ∈ ownKeys p))
          fun _ => True := trivial
      exact (dependsOnOwn uses).inventory
  exact depends store store' more o t rest clear clear' same ran

theorem computeProblem_writes :
    WritesOnly p (problem :: ownKeys p) (computeProblem p problem) := by
  intro store choices o t rest clear ran key unwritten
  obtain ⟨part, more, which, ran, _⟩ := computeProblem_exec ran
  rcases which with rfl | rfl | rfl
  · exact writesOnly (ownKeys p) (uses_brokeHardware p) store more o t rest clear ran key
      fun own => unwritten (List.mem_cons_of_mem _ own)
  · exact solvedPart_writes store more o t rest clear ran key unwritten
  · cases Option.some.inj ran
    rfl

end Commands

/-! ### Names that are apart -/

/-- A store with nothing but problems and the keys of the players. -/
def StoreOf (players : List String) (store : Map String String) : Prop :=
  ∀ key ∈ store, key ∈ education ∨ ∃ name ∈ players, key ∈ ownKeys name

/-- No player has a key that `getComputers` takes for an entry in the inventory of this one. -/
def Unlisted (p : String) (players : List String) : Prop :=
  ∀ name ∈ players, ∀ key ∈ ownKeys name, hasPrefix key (compPrefix ++ p) = true →
    key ∈ inventory p

theorem Unlisted.unshadowed {players : List String} (apart : Unlisted p players)
    (held : StoreOf players store) : Unshadowed p store := by
  intro key member begins
  rcases held key member with problem | ⟨name, known, own⟩
  · have other : ∀ name ∈ education, ¬ compPrefix.toList <+: name.toList := by decide
    rw [hasPrefix_iff, String.toList_append] at begins
    exact absurd ((List.prefix_append _ _).trans begins) (other key problem)
  · exact apart name known key own begins

/-- Some run of the program ends so. -/
def Gives (play : Play α) (store : Map String String) (o : Except String α) : Prop :=
  ∃ choices t rest, play.exec store choices = some (o, t, rest)

/-- Three of the computers at the key. -/
def threeAt (key : String) : Map String String := (∅ : Map String String).insert key "3"

theorem computers_empty (p : String) : Gives (getComputers p) ∅ (.ok ∅) :=
  ⟨[.order []], ∅, [], rfl⟩

/-- A listed entry is counted, or `getComputers` panics because the key has too few fields. -/
theorem computers_counted (begins : hasPrefix key (compPrefix ++ p) = true) :
    ¬ Gives (getComputers p) (threeAt key) (.ok ∅) := by
  rintro ⟨choices, t, rest, ran⟩
  obtain ⟨⟨order, more⟩, taken, ran⟩ := Option.bind_eq_some_iff.mp ran
  have perm := Program.takeOrder_perm taken
  have keys : (threeAt key).keys.filter (hasPrefix · (compPrefix ++ p)) = [key] := by
    simp [threeAt, begins]
  rw [keys, List.perm_singleton] at perm
  subst perm
  have found : (threeAt key).lookup key = some "3" := AList.lookup_insert _
  have entries : Program.entriesAt (threeAt key) [key] = [(key, "3")] := by
    simp [Program.entriesAt, found]
  rw [entries] at ran
  have turn : (countComputer ∅ (key, "3") >>= pure : Play (Map String Int)).exec (threeAt key) more =
      some (.ok ∅, t, rest) := ran
  have three : atoi "3" = some 3 := by decide
  simp only [countComputer, three] at turn
  cases third : (split key)[2]? with
  | none =>
    rw [third] at turn
    cases turn
  | some comp =>
    rw [third] at turn
    have counted : (.ok ((∅ : Map String Int).insert comp 3) : Except String _) = .ok ∅ :=
      congrArg Prod.fst (Option.some.inj turn)
    have there := congrArg (AList.lookup comp) (Except.ok.inj counted)
    rw [AList.lookup_insert] at there
    cases there

/-- The inventory of a player depends on the player's own keys in all stores of the players exactly if
none of their keys is listed in it. -/
theorem unlisted_iff (p : String) (players : List String) :
    Unlisted p players ↔ ∀ store store', StoreOf players store → StoreOf players store' →
      SameOn (ownKeys p) store store' →
      ∀ o, Gives (getComputers p) store o → Gives (getComputers p) store' o := by
  constructor
  · rintro apart store store' held held' same o ⟨choices, t, rest, ran⟩
    obtain ⟨t', ran', _⟩ := dependsOnOwn (uses_getComputers p (· ∈ ownKeys p)) store store' choices o
      t rest (apart.unshadowed held) (apart.unshadowed held') same ran
    exact ⟨choices, t', rest, ran'⟩
  · intro depends name known key own begins
    by_contra other
    refine computers_counted begins (depends ∅ (threeAt key) ?_ ?_ ?_ _ (computers_empty p))
    · intro _ member
      cases member
    · intro held member
      rcases (AList.mem_insert _).mp member with rfl | old
      · exact .inr ⟨name, known, own⟩
      · cases old
    · intro mine ownMine
      have differ : mine ≠ key := by
        rintro rfl
        exact other (own_good ownMine begins)
      exact AList.lookup_insert_ne differ

/-- The keys of two players are apart from each other and from the problems exactly if neither name is
a key of the other player and the name is no problem. In the stores of some players, the computers of
one depend on that player's own keys exactly if no key of the players begins like the inventory of
this one. In every store without such a key, the inventory depends on the player's own keys, and
nothing but these keys and the problem is written. -/
theorem players_isolated (p q : String) (two : p ≠ q) (players : List String) :
    ((∀ key ∈ ownKeys p, key ∉ ownKeys q ∧ key ∉ education) ↔
      p ∉ ownKeys q ∧ q ∉ ownKeys p ∧ p ∉ education) ∧
    ((∀ store store', StoreOf players store → StoreOf players store' →
        SameOn (ownKeys p) store store' →
        ∀ o, Gives (getComputers p) store o → Gives (getComputers p) store' o) ↔
      Unlisted p players) ∧
    (Unlisted p players → ∀ store, StoreOf players store → Unshadowed p store) ∧
    (DependsOnOwn p (getComputers p) ∧ DependsOnOwn p (getComputingPower p) ∧
      (∀ comp, DependsOnOwn p (buy p comp)) ∧
      ∀ problem, InventoryDependsOnOwn p (computeProblem p problem)) ∧
    WritesOnly p [] (getComputers p) ∧ WritesOnly p [] (getComputingPower p) ∧
      WritesOnly p (ownKeys p) (initializeCharacter p) ∧ WritesOnly p education initializeProblems ∧
      (∀ comp, WritesOnly p (ownKeys p) (buy p comp)) ∧
      ∀ problem, WritesOnly p (problem :: ownKeys p) (computeProblem p problem) := by
  refine ⟨keys_apart_iff two, (unlisted_iff p players).symm, ?_, ⟨?_, ?_, ?_, ?_⟩,
    ?_, ?_, ?_, ?_, ?_, ?_⟩
  · exact fun apart store held => apart.unshadowed held
  · exact dependsOnOwn (uses_getComputers p (· ∈ ownKeys p))
  · exact dependsOnOwn (uses_getComputingPower p (· ∈ ownKeys p))
  · exact fun comp => dependsOnOwn (uses_buy p comp)
  · exact fun problem => computeProblem_inventory
  · exact writesOnly [] (uses_getComputers p _)
  · exact writesOnly [] (uses_getComputingPower p _)
  · exact writesOnly (ownKeys p) uses_initializeCharacter
  · intro store choices o t rest clear ran key unwritten
    exact (uses_initializeProblems.frame (fun _ _ _ => trivial) ran).1 key unwritten
  · exact fun comp => writesOnly (ownKeys p) (uses_buy p comp)
  · exact fun problem => computeProblem_writes

/-- The inventories of two players, as far as they have any. -/
def inventories (entries : List (String × String)) : Map String String :=
  entries.foldl (fun store entry => store.insert entry.1 entry.2) ∅

def annAlone : Map String String := inventories [("comp/ann/cpu", "2")]

def annAndBob : Map String String :=
  inventories [("comp/ann/cpu", "2"), ("comp/bob/gpu", "5")]

/-- What bob has makes no difference to ann. -/
theorem ann_beside_bob :
    (∀ key ∈ ownKeys "ann", key ∉ ownKeys "bob" ∧ key ∉ education) ∧
    (getComputers "ann").exec annAlone [.order ["comp/ann/cpu"]] =
      some (.ok ((∅ : Map String Int).insert "cpu" 2), annAlone, []) ∧
    ∃ t, (getComputers "ann").exec annAndBob [.order ["comp/ann/cpu"]] =
      some (.ok ((∅ : Map String Int).insert "cpu" 2), t, []) ∧
      SameOn (ownKeys "ann") annAlone t := by
  have isolated := players_isolated "ann" "bob" (by decide) ["ann", "bob"]
  have apart : Unlisted "ann" ["ann", "bob"] := by
    unfold Unlisted
    decide
  have clear := isolated.2.2.1 apart
  have first : (getComputers "ann").exec annAlone [.order ["comp/ann/cpu"]] =
      some (.ok ((∅ : Map String Int).insert "cpu" 2), annAlone, []) := by rfl
  refine ⟨isolated.1.mpr (by decide), first, ?_⟩
  refine isolated.2.2.2.1.1 annAlone annAndBob _ _ _ _ (clear _ ?_) (clear _ ?_) ?_ first
  · unfold StoreOf
    decide
  · unfold StoreOf
    decide
  · unfold SameOn
    decide

def alAlone : Map String String := inventories [("comp/al/cpu", "1")]

def alAndAlice : Map String String :=
  inventories [("comp/al/cpu", "1"), ("comp/alice/gpu", "3")]

/-- The computers of alice are counted for al and stored as those of al. The player loc/bob has the
location of bob for a character, and the player PhD has a problem for one. -/
theorem names_collide :
    (SameOn (ownKeys "al") alAlone alAndAlice ∧
      (getComputers "al").exec alAlone [.order ["comp/al/cpu"]] =
        some (.ok ((∅ : Map String Int).insert "cpu" 1), alAlone, []) ∧
      (getComputers "al").exec alAndAlice [.order ["comp/al/cpu", "comp/alice/gpu"]] =
        some (.ok (((∅ : Map String Int).insert "cpu" 1).insert "gpu" 3), alAndAlice, []) ∧
      alAndAlice.lookup "comp/al/gpu" = none ∧
      ∃ t, (computeProblem "al" "Undergraduate").exec alAndAlice
          [.drawn 0, .order ["comp/al/cpu", "comp/alice/gpu"], .drawn 0, .order ["cpu", "gpu"],
            .order ["cpu", "gpu"]] = some (.ok false, t, []) ∧
        t.lookup "comp/al/gpu" = some "3") ∧
    ("loc/bob" ∈ ownKeys "loc/bob" ∧ "loc/bob" ∈ ownKeys "bob" ∧
      ∃ t, (initializeCharacter "bob").exec ∅ [] = some (.ok (), t, []) ∧
        (initializeCharacter "loc/bob").exec t [] = some (.ok (), t, []) ∧
        (getEducation "loc/bob").exec t [] = some (.ok "5", t, [])) ∧
    "PhD" ∈ ownKeys "PhD" ∧ "PhD" ∈ education := by
  refine ⟨⟨?_, by rfl, by rfl, by rfl, _, by rfl, by rfl⟩, ⟨by decide, by decide, _, by rfl, by rfl,
    by rfl⟩, by decide, by decide⟩
  unfold SameOn
  decide

end DistSys.Game
