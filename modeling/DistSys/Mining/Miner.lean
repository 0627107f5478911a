import DistSys.Mining.Minimum

/-! The miner: its search through an interval, and how the server sizes the intervals it sends. -/
namespace DistSys.Mining

open Function (update)
open DistSys.Lib

/-! ### The search -/

/-- The loop of `mining`. `none` is a loop that has not ended when the fuel is used up. -/
def search (hash : String → UInt64 → UInt64) (msg : String) (upper : UInt64) :
    Nat → UInt64 → UInt64 → UInt64 → Option (UInt64 × UInt64)
  | 0, _, _, _ => none
  | fuel + 1, i, resNonce, resHash =>
    if i < upper + 1 then
      let currHash := hash msg i
      if currHash < resHash then search hash msg upper fuel (i + 1) i currHash
      else search hash msg upper fuel (i + 1) resNonce resHash
    else some (resHash, resNonce)

/-- The hash and the nonce of the Result that is sent. -/
def mining (hash : String → UInt64 → UInt64) (msg : String) (lower upper : UInt64) (fuel : Nat) :
    Option (UInt64 × UInt64) :=
  search hash msg upper fuel lower lower (hash msg lower)

variable {hash : String → UInt64 → UInt64} {msg : String} {lower upper i nonce value : UInt64}

theorem succ_toNat {x : UInt64} (room : x.toNat + 1 < UInt64.size) : (x + 1).toNat = x.toNat + 1 := by
  rw [UInt64.toNat_add]
  exact Nat.mod_eq_of_lt room

/-- The best of the nonces before `i`, and the first that has its hash. -/
structure Scanned (hash : String → UInt64 → UInt64) (msg : String) (lower upper i value nonce : UInt64) :
    Prop where
  above : lower ≤ nonce
  below : nonce ≤ upper
  hashes : value = hash msg nonce
  least : ∀ x, lower ≤ x → x < i → value ≤ hash msg x
  first : ∀ x, lower ≤ x → x < nonce → value < hash msg x

theorem scanned_start (hash : String → UInt64 → UInt64) (msg : String) (proper : lower ≤ upper) :
    Scanned hash msg lower upper lower (hash msg lower) lower := by
  refine ⟨UInt64.le_refl lower, proper, rfl, ?_, ?_⟩
  · intro x above below
    exact absurd above (UInt64.not_le.mpr below)
  · intro x above below
    exact absurd above (UInt64.not_le.mpr below)

/-- One turn of the loop. -/
theorem Scanned.turn (h : Scanned hash msg lower upper i value nonce) (above : lower ≤ i)
    (inside : i ≤ upper) (next : (i + 1).toNat = i.toNat + 1) :
    Scanned hash msg lower upper (i + 1) (if hash msg i < value then hash msg i else value)
      (if hash msg i < value then i else nonce) := by
  have before : ∀ x, x < i + 1 → x < i ∨ x = i := by
    intro x less
    rw [UInt64.lt_iff_toNat_lt, next] at less
    rw [UInt64.lt_iff_toNat_lt, ← UInt64.toNat_inj]
    omega
  split
  · rename_i better
    refine ⟨above, inside, rfl, ?_, ?_⟩
    · intro x from_ less
      rcases before x less with old | rfl
      · exact UInt64.le_of_lt (UInt64.lt_of_lt_of_le better (h.least x from_ old))
      · exact UInt64.le_refl _
    · intro x from_ less
      exact UInt64.lt_of_lt_of_le better (h.least x from_ less)
  · rename_i notBetter
    refine ⟨h.above, h.below, h.hashes, ?_, h.first⟩
    intro x from_ less
    rcases before x less with old | rfl
    · exact h.least x from_ old
    · exact UInt64.not_lt.mp notBetter

/-- The loop ends, and then it has looked at the whole interval. -/
theorem Scanned.search (h : Scanned hash msg lower upper i value nonce) (above : lower ≤ i)
    (room : upper.toNat + 1 < UInt64.size) (fuel : Nat) (enough : upper.toNat + 1 - i.toNat < fuel) :
    ∃ value' nonce', Mining.search hash msg upper fuel i nonce value = some (value', nonce') ∧
      Scanned hash msg lower upper (upper + 1) value' nonce' := by
  have last := succ_toNat room
  induction fuel generalizing i value nonce with
  | zero => omega
  | succ fuel ih =>
    unfold Mining.search
    by_cases more : i < upper + 1
    · have less := UInt64.lt_iff_toNat_lt.mp more
      have next : (i + 1).toNat = i.toNat + 1 := succ_toNat (by omega)
      have inside : i ≤ upper := UInt64.le_iff_toNat_le.mpr (by omega)
      have onward : lower ≤ i + 1 := by
        rw [UInt64.le_iff_toNat_le] at above ⊢
        omega
      have turned := ih (h.turn above inside next) onward (by omega)
      rw [if_pos more]
      dsimp only
      split
      · rename_i better
        simpa only [better, if_true] using turned
      · rename_i notBetter
        simpa only [notBetter, if_false] using turned
    · rw [if_neg more]
      refine ⟨value, nonce, rfl, ⟨h.above, h.below, h.hashes, ?_, h.first⟩⟩
      intro x from_ less
      exact h.least x from_ (UInt64.lt_of_lt_of_le less (UInt64.not_lt.mp more))

theorem Scanned.mines (h : Scanned hash msg lower upper (upper + 1) value nonce)
    (room : upper.toNat + 1 < UInt64.size) : Mines hash msg ⟨lower, upper⟩ value nonce := by
  refine ⟨h.above, h.below, h.hashes, ?_⟩
  intro x from_ upto
  refine h.least x from_ ?_
  have least := UInt64.le_iff_toNat_le.mp upto
  rw [UInt64.lt_iff_toNat_lt, succ_toNat room]
  exact Nat.lt_succ_of_le least

/-- The miner finds the least hash of its interval and the first nonce that has it. -/
theorem mining_finds (hash : String → UInt64 → UInt64) (msg : String) (proper : lower ≤ upper)
    (room : upper.toNat + 1 < UInt64.size) {fuel : Nat}
    (enough : upper.toNat - lower.toNat + 1 < fuel) :
    ∃ value nonce, mining hash msg lower upper fuel = some (value, nonce) ∧
      Mines hash msg ⟨lower, upper⟩ value nonce ∧
      ∀ x, lower ≤ x → x < nonce → value < hash msg x := by
  obtain ⟨value, nonce, found, scanned⟩ :=
    (scanned_start hash msg proper).search (UInt64.le_refl lower) room fuel (by omega)
  exact ⟨value, nonce, found, scanned.mines room, scanned.first⟩

/-- Behind the greatest nonce the loop is not entered. -/
theorem mining_greatest (hash : String → UInt64 → UInt64) (msg : String) {fuel : Nat}
    (greatest : upper + 1 = 0) (enough : 0 < fuel) :
    mining hash msg lower upper fuel = some (hash msg lower, lower) := by
  obtain ⟨fuel, rfl⟩ := Nat.exists_eq_add_of_lt enough
  simp [mining, search, greatest]

/-- A miner that runs the search on what it was sent is one that the server can rely on. -/
theorem mining_honest {w : World} {id : Int} {fuel : Nat}
    (mined : ∀ job, w.server.lspServer.requests id = some job →
      job.interval.upper.toNat + 1 < UInt64.size ∧
        mining hash job.data job.interval.lower job.interval.upper fuel = some (value, nonce) ∧
        job.interval.upper.toNat - job.interval.lower.toNat + 1 < fuel) :
    Honest hash w (.result id value nonce) := by
  intro job sent proper
  obtain ⟨room, found, enough⟩ := mined job sent
  obtain ⟨value', nonce', found', mines, -⟩ := mining_finds hash job.data proper room enough
  cases found.symm.trans found'
  exact mines

/-! ### The sizes of the intervals -/

/-- The number of nonces that the server computes is the number there is, if that is a `uint64`. -/
theorem size_toNat (proper : lower ≤ upper) (room : upper.toNat - lower.toNat + 1 < UInt64.size) :
    (upper - lower + 1).toNat = upper.toNat - lower.toNat + 1 := by
  have difference := UInt64.toNat_sub_of_le _ _ proper
  rw [succ_toNat (by omega), difference]

theorem small_iff (proper : lower ≤ upper) (room : upper.toNat - lower.toNat + 1 < UInt64.size) :
    upper - lower + 1 ≤ 10000 ↔ upper.toNat - lower.toNat + 1 ≤ 10000 := by
  rw [UInt64.le_iff_toNat_le, size_toNat proper room]
  rfl

/-- The first interval of a request: all of it, or the first part. -/
def firstPart (lower upper : UInt64) : MinerData :=
  if upper.toNat - lower.toNat + 1 ≤ 10000 then ⟨lower, upper⟩ else ⟨lower, lower + 10000⟩

theorem assignFirst_part (s : Server) (id cid : Int) (data : String) (rest : List RequestData)
    (proper : lower ≤ upper) (room : upper.toNat - lower.toNat + 1 < UInt64.size) :
    (s.assignFirst id ⟨cid, data, lower, upper⟩ rest).lspServer.requests id =
      some ⟨data, firstPart lower upper⟩ := by
  simp only [Server.assignFirst, firstPart, small_iff proper room]
  split
  · exact Function.update_self ..
  · exact Function.update_self ..

/-- The loop over the free miners does not write to the others. -/
theorem handOut_requests {s : Server} {id m : Int} {data : String} {lowerBound : UInt64}
    (free : List Int) (other : m ∉ free) :
    (Server.handOut id data upper free s lowerBound).1.lspServer.requests m =
      s.lspServer.requests m := by
  induction free generalizing s lowerBound with
  | nil => rfl
  | cons first rest ih =>
    obtain ⟨notFirst, notRest⟩ := not_or.mp (mt List.mem_cons.mpr other)
    simp only [Server.handOut]
    split
    · rw [ih notRest]
      exact Function.update_of_ne notFirst _ _
    · rfl

theorem request_part {s : Server} {id m : Int} {data : String} {rest : List Int}
    (free : s.freeMiner = m :: rest) (once : m ∉ rest) (proper : lower ≤ upper)
    (room : upper.toNat - lower.toNat + 1 < UInt64.size) :
    (s.request id data lower upper).lspServer.requests m = some ⟨data, firstPart lower upper⟩ := by
  have size := small_iff proper room
  simp only [Server.request, free, firstPart]
  by_cases small : upper - lower + 1 ≤ 10000
  · rw [if_pos small, if_pos (size.mp small)]
    exact Function.update_self ..
  · obtain ⟨onward, inside⟩ := cut_large small proper
    have more : lower < upper := by
      have large := mt size.mpr small
      rw [UInt64.lt_iff_toNat_lt]
      omega
    rw [if_neg small, if_neg (mt size.mpr small)]
    -- the first turn of the loop is for this miner, the others are not
    have given : (Server.handOut id data upper (m :: rest) s lower).1.lspServer.requests m =
        some ⟨data, ⟨lower, lower + 10000⟩⟩ := by
      simp only [Server.handOut, more, if_true, UInt64.not_lt.mpr inside, if_false]
      rw [handOut_requests rest once]
      exact Function.update_self ..
    split
    · exact given
    · exact given

/-- For every hash the loop ends, and the miner sends the least hash of its interval with the first
nonce that has it. -/
def SearchesInterval (msg : String) (lower upper : UInt64) : Prop :=
  ∀ (hash : String → UInt64 → UInt64) fuel, upper.toNat - lower.toNat + 1 < fuel →
    ∃ value nonce, mining hash msg lower upper fuel = some (value, nonce) ∧
      Mines hash msg ⟨lower, upper⟩ value nonce ∧ ∀ x, lower ≤ x → x < nonce → value < hash msg x

/-- The server computes the number of nonces, and sends an interval whole only if it is small. -/
structure SizesInterval (msg : String) (lower upper : UInt64) : Prop where
  size : (upper - lower + 1).toNat = upper.toNat - lower.toNat + 1
  request : ∀ (s : Server) (id m : Int) (rest : List Int), s.freeMiner = m :: rest → m ∉ rest →
    (s.request id msg lower upper).lspServer.requests m = some ⟨msg, firstPart lower upper⟩
  assigned : ∀ (s : Server) (id cid : Int) (rest : List RequestData),
    (s.assignFirst id ⟨cid, msg, lower, upper⟩ rest).lspServer.requests id =
      some ⟨msg, firstPart lower upper⟩

theorem succ_greatest (last : ¬ upper.toNat + 1 < UInt64.size) : upper + 1 = 0 := by
  have bound := upper.toNat_lt_size
  have wraps : upper.toNat + 1 = UInt64.size := by omega
  rw [← UInt64.toNat_inj, UInt64.toNat_add]
  change (upper.toNat + 1) % UInt64.size = 0
  rw [wraps, Nat.mod_self]

/-- An interval of one nonce is searched before the loop. -/
theorem searches_single (msg : String) (nonce : UInt64) : SearchesInterval msg nonce nonce := by
  intro hash fuel enough
  by_cases room : nonce.toNat + 1 < UInt64.size
  · exact mining_finds hash msg (UInt64.le_refl nonce) room enough
  refine ⟨_, nonce, mining_greatest hash msg (succ_greatest room) (by omega), ?_, ?_⟩
  · refine ⟨UInt64.le_refl _, UInt64.le_refl _, rfl, fun x above below => ?_⟩
    have same : x = nonce := UInt64.le_antisymm below above
    rw [same]
    exact UInt64.le_refl _
  · exact fun x above below => absurd above (UInt64.not_le.mpr below)

/-- Where the loop is not entered, the hashes behind the first nonce are missed. -/
theorem not_searches_greatest (msg : String) (less : lower < upper) (greatest : upper + 1 = 0) :
    ¬ SearchesInterval msg lower upper := by
  intro searches
  obtain ⟨value, nonce, found, mines, -⟩ := searches (fun _ x => if x = lower then 1 else 0)
    (upper.toNat - lower.toNat + 2) (by omega)
  rw [mining_greatest _ _ greatest (by omega)] at found
  cases found
  have least := mines.least upper (UInt64.le_of_lt less) (UInt64.le_refl upper)
  simp [(UInt64.ne_of_lt less).symm] at least

/-- The miner searches its whole interval and the server computes its size exactly for intervals that
end below the greatest nonce, and for the one that is this nonce alone. -/
theorem miner_searches_interval (msg : String) (lower upper : UInt64) (proper : lower ≤ upper) :
    SearchesInterval msg lower upper ∧ SizesInterval msg lower upper ↔
      upper.toNat + 1 < UInt64.size ∨ lower = upper := by
  constructor
  · rintro ⟨searches, -⟩
    by_contra neither
    obtain ⟨last, apart⟩ := not_or.mp neither
    exact not_searches_greatest msg (UInt64.lt_of_le_of_ne proper apart) (succ_greatest last) searches
  · intro below
    have room : upper.toNat - lower.toNat + 1 < UInt64.size := by
      rcases below with below | rfl
      · omega
      · rw [Nat.sub_self]
        decide
    refine ⟨?_, size_toNat proper room, ?_, ?_⟩
    · rcases below with below | rfl
      · exact fun hash fuel enough => mining_finds hash msg proper below enough
      · exact searches_single msg lower
    · exact fun s id m rest free once => request_part free once proper room
    · exact fun s id cid rest => assignFirst_part s id cid msg rest proper room

/-- The hash that is least at the nonce 1. -/
def leastAtOne (_ : String) (nonce : UInt64) : UInt64 := if nonce = 1 then 0 else 5

theorem miner_searches_three : mining leastAtOne "msg" 0 2 4 = some (0, 1) ∧
    SearchesInterval "msg" 0 2 ∧ SizesInterval "msg" 0 2 :=
  ⟨by decide, (miner_searches_interval "msg" 0 2 (by decide)).mpr (.inl (by decide))⟩

/-- A request for all nonces: its size is computed as zero, so that it is sent whole, and the loop of
the miner is not entered. -/
theorem greatest_nonce_not_searched : ∃ w,
    run step newWorld [.join 1, .request 2 "msg" 0 18446744073709551615] = some w ∧
      w.server.lspServer.requests 1 = some ⟨"msg", ⟨0, 18446744073709551615⟩⟩ ∧
      mining leastAtOne "msg" 0 18446744073709551615 1 = some (5, 0) ∧
      leastAtOne "msg" 1 < leastAtOne "msg" 0 :=
  ⟨_, rfl, by decide, by decide, by decide⟩

end DistSys.Mining
