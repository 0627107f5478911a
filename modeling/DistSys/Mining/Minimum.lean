import DistSys.Mining.Answers

/-! Whether the answer is the minimum over the whole request. The hash is any function; the miners
answer with the minimum over the interval that they were sent. -/
namespace DistSys.Mining

open Function (update)
open DistSys.Lib

/-- The minimum over an interval, and a nonce that has it. -/
structure Mines (hash : String → UInt64 → UInt64) (data : String) (interval : MinerData)
    (value nonce : UInt64) : Prop where
  above : interval.lower ≤ nonce
  below : nonce ≤ interval.upper
  hashes : value = hash data nonce
  least : ∀ x, interval.lower ≤ x → x ≤ interval.upper → value ≤ hash data x

/-- The answer of a miner to what it was sent; an interval without a nonce has no minimum. -/
def Honest (hash : String → UInt64 → UInt64) (w : World) : Action → Prop
  | .result id value nonce => ∀ job, w.server.lspServer.requests id = some job →
    job.interval.lower ≤ job.interval.upper → Mines hash job.data job.interval value nonce
  | _ => True

/-! ### The running minimum -/

/-- Zero without a result; else the least of the results. -/
def IsBest (best : UInt64 × UInt64) (results : List Received) : Prop :=
  results = [] ∧ best = (0, 0) ∨
  (∃ r ∈ results, best = (r.hash, r.nonce)) ∧ ∀ r ∈ results, best.1 ≤ r.hash

theorem improve_best (task : TaskData) (value nonce : UInt64) :
    ((task.improve value nonce).currValue, (task.improve value nonce).currNonce) =
      if task.currValue = 0 ∨ value < task.currValue then (value, nonce)
      else (task.currValue, task.currNonce) := by
  unfold TaskData.improve
  split <;> rfl

/-- The running minimum stays one unless a result of zero, which is taken for none, is replaced
by a greater one. -/
theorem IsBest.improve {best : UInt64 × UInt64} {results : List Received}
    (isBest : IsBest best results) (r : Received)
    (zero : best.1 = 0 → results ≠ [] → r.hash = 0) :
    IsBest (if best.1 = 0 ∨ r.hash < best.1 then (r.hash, r.nonce) else best) (results ++ [r]) := by
  right
  split
  · rename_i better
    refine ⟨⟨r, by simp, rfl⟩, ?_⟩
    intro q member
    rcases List.mem_append.mp member with old | new
    · rcases better with unset | less
      · rw [zero unset (List.ne_nil_of_mem old)]
        exact UInt64.zero_le
      · rcases isBest with ⟨none, _⟩ | ⟨_, least⟩
        · rw [none] at old
          cases old
        · exact UInt64.le_trans (UInt64.le_of_lt less) (least q old)
    · cases List.mem_singleton.mp new
      exact UInt64.le_refl _
  · rename_i notBetter
    have ⟨set, notLess⟩ := not_or.mp notBetter
    rcases isBest with ⟨_, rfl⟩ | ⟨⟨b, member, same⟩, least⟩
    · exact absurd rfl set
    · refine ⟨⟨b, List.mem_append_left _ member, same⟩, ?_⟩
      intro q here
      rcases List.mem_append.mp here with old | new
      · exact least q old
      · cases List.mem_singleton.mp new
        exact UInt64.not_lt.mp notLess

/-! ### The conditions -/

/-- The results that counted for a client. -/
def World.resultsOf (w : World) (c : Int) : List Received :=
  w.received.filter fun r => r.client = c

/-- A task whose running minimum is zero after a result gets only zeros. -/
def keepsZero (w : World) : Action → Bool
  | .result id value _ =>
    (w.server.best (w.server.clientOf id)).1 ≠ 0 ||
      (w.resultsOf (w.server.clientOf id)).isEmpty || value = 0
  | _ => true

/-- A large request that free miners share ends more than 10000 below the greatest nonce. -/
def loopFits (w : World) : Action → Bool
  | .request _ _ lower upper => upper < lower || w.server.freeMiner.isEmpty ||
    upper - lower + 1 ≤ 10000 || upper.toNat + 10000 < UInt64.size
  | _ => true

/-- A client that goes has at most one part of its request in the queue. -/
def leavesNothing (w : World) : Action → Bool
  | .error id => (w.server.requestQueue.filter fun r => r.clientId = id).length ≤ 1
  | _ => true

def answersWhole (w : World) (a : Action) : Bool :=
  nothingWaits w a && keepsZero w a && loopFits w a && leavesNothing w a

/-! ### The answer -/

variable {hash : String → UInt64 → UInt64} {w w' : World} {a : Action} {s s' : Server}
variable {id cid c : Int} {data : String} {lower upper value nonce : UInt64}

/-- An answer covers the request and is its minimum. -/
structure Right (hash : String → UInt64 → UInt64) (received : List Received) (c : Int)
    (data : String) (lower upper value nonce : UInt64) : Prop where
  covered : ∀ x, lower ≤ x → x ≤ upper →
    ∃ r ∈ received, r.client = c ∧ r.interval.lower ≤ x ∧ x ≤ r.interval.upper
  mines : Mines hash data ⟨lower, upper⟩ value nonce

theorem Right.mono {received more : List Received}
    (right : Right hash received c data lower upper value nonce)
    (grows : ∀ r ∈ received, r ∈ more) : Right hash more c data lower upper value nonce where
  covered := by
    intro x above below
    obtain ⟨r, member, here⟩ := right.covered x above below
    exact ⟨r, grows r member, here⟩
  mines := right.mines

/-- The least of the results for parts that cover the request is the minimum of the request. -/
theorem right_of_best {received : List Received} {best : UInt64 × UInt64}
    (cover : Covers (answered received c) (between lower upper))
    (some : received.filter (fun r => r.client = c) ≠ [])
    (isBest : IsBest best (received.filter fun r => r.client = c))
    (mined : ∀ r ∈ received.filter (fun r => r.client = c),
      Mines hash data r.interval r.hash r.nonce) :
    Right hash received c data lower upper best.1 best.2 := by
  have covered : ∀ x, lower ≤ x → x ≤ upper →
      ∃ r ∈ received, r.client = c ∧ r.interval.lower ≤ x ∧ x ≤ r.interval.upper := by
    intro x above below
    obtain ⟨A, ⟨r, member, of, rfl⟩, inside⟩ := cover.exists_part (x := x) ⟨above, below⟩
    exact ⟨r, member, of, inside⟩
  rcases isBest with ⟨none, _⟩ | ⟨⟨r, counted, rfl⟩, least⟩
  · exact absurd none some
  · obtain ⟨member, of⟩ := List.mem_filter.mp counted
    have own := mined r counted
    have inside := cover.part_subset ⟨r, member, of_decide_eq_true of, rfl⟩ ⟨own.above, own.below⟩
    refine ⟨covered, inside.1, inside.2, own.hashes, ?_⟩
    intro x above below
    obtain ⟨q, here, of', low, high⟩ := covered x above below
    have counted' : q ∈ received.filter (fun r => r.client = c) :=
      List.mem_filter.mpr ⟨here, decide_eq_true of'⟩
    exact UInt64.le_trans (least q counted') ((mined q counted').least x low high)

/-- A client whose request is being served. -/
structure Serving (hash : String → UInt64 → UInt64) (w : World) (c : Int) (data : String)
    (lower upper : UInt64) : Prop where
  agrees : Agrees w.server c
  cover : Covers (w.parts c) (between lower upper)
  best : IsBest (w.server.best c) (w.resultsOf c)
  mined : ∀ r ∈ w.resultsOf c, Mines hash data r.interval r.hash r.nonce

theorem best_abandon (other : c ≠ id) : (s.abandon id).best c = s.best c := by
  simp only [Server.best, abandon_other other]

theorem Concluded.best_other (done : Concluded s cid value nonce s') (other : c ≠ cid) :
    s'.best c = s.best c := by
  cases done with
  | goesOn found more => simp only [Server.best, Map.lookup_insert, other, if_false]
  | isOver found last => simp only [Server.best, Map.lookup_erase, other, if_false]

theorem released_best {miner fits : Int → Prop} {h : List RequestData}
    (moves : Moves miner fits ⟨s.release id cid, h⟩ ⟨s', []⟩) : s'.best c = s.best c := by
  have same := Moves.best moves (c := c)
  rwa [Server.release_best] at same

/-- What is not a result for a client leaves its running minimum alone. -/
theorem Turn.best (turn : Turn w a w') (stays : a ≠ .error c)
    (others : ∀ id value nonce, a = .result id value nonce →
      w.server.workMiner.lookup id ≠ some c) :
    w'.server.best c = w.server.best c ∧ w'.resultsOf c = w.resultsOf c := by
  cases turn with
  | join new books moves | request new there books moves => exact ⟨Moves.best moves, rfl⟩
  | @result id cid value nonce job s working sent books moves ends =>
    have other : c ≠ cid := by
      rintro rfl
      exact others id value nonce rfl working
    have before := released_best moves (c := c)
    constructor
    · rcases ends with ⟨_, rfl⟩ | ⟨_, done⟩
      · exact before
      · rw [done.best_other other, before]
    · simp [World.resultsOf, Ne.symm other]
  | @abandon id pending notMine =>
    refine ⟨best_abandon ?_, rfl⟩
    rintro rfl
    exact stays rfl
  | quit settled none => exact ⟨rfl, rfl⟩
  | fail working sent known books moves => exact ⟨released_best moves, rfl⟩
  | crash working missing => exact ⟨rfl, rfl⟩

theorem Serving.next_other (serving : Serving hash w c data lower upper) (turn : Turn w a w')
    (known : w.Client c data) (stays : a ≠ .error c)
    (others : ∀ id value nonce, a = .result id value nonce →
      w.server.workMiner.lookup id ≠ some c) : Serving hash w' c data lower upper := by
  obtain ⟨best, results⟩ := turn.best stays others
  refine ⟨turn.agrees serving.agrees stays, turn.covers known stays serving.cover, ?_, ?_⟩
  · rw [best, results]
    exact serving.best
  · rw [results]
    exact serving.mined

/-- A new result for the client, with the running minimum that it leads to. -/
theorem Serving.result {job : Job} {task : TaskData}
    (serving : Serving hash w c data lower upper)
    (told : job.data = data) (working : w.server.workMiner.lookup id = some c)
    (sent : w.server.lspServer.requests id = some job)
    (honest : Honest hash w (.result id value nonce))
    (zero : keepsZero w (.result id value nonce) = true)
    (current : (task.currValue, task.currNonce) = w.server.best c) :
    IsBest ((task.improve value nonce).currValue, (task.improve value nonce).currNonce)
      (w.resultsOf c ++ [⟨c, job.interval, value, nonce⟩]) ∧
    ∀ r ∈ w.resultsOf c ++ [⟨c, job.interval, value, nonce⟩],
      Mines hash data r.interval r.hash r.nonce := by
  have of := Server.clientOf_eq working
  constructor
  · have keeps : (w.server.best c).1 = 0 → w.resultsOf c ≠ [] → value = 0 := by
      intro unset some
      simpa [keepsZero, of, unset, some] using zero
    have better := serving.best.improve ⟨c, job.interval, value, nonce⟩ keeps
    rw [improve_best]
    rwa [← current] at better
  · have part : between job.interval.lower job.interval.upper ∈ w.parts c :=
      .inl (.inr ⟨id, job, working, sent, rfl⟩)
    have proper := between_nonempty.mp (serving.cover.proper _ part)
    intro r member
    rcases List.mem_append.mp member with old | new
    · exact serving.mined r old
    · cases List.mem_singleton.mp new
      exact told ▸ honest job sent proper

theorem resultsOf_append {interval : MinerData} :
    (w.received ++ [(⟨c, interval, value, nonce⟩ : Received)]).filter (fun r => r.client = c) =
      w.resultsOf c ++ [⟨c, interval, value, nonce⟩] := by
  simp [World.resultsOf]

theorem World.Kept.told {job : Job} (kept : w.Kept) (known : w.Client c data)
    (working : w.server.workMiner.lookup id = some c)
    (sent : w.server.lspServer.requests id = some job) : job.data = data := by
  obtain ⟨_, _, same, of⟩ := kept.worker working
  cases sent.symm.trans same
  exact of.single known

theorem best_of_found {task : TaskData} {miner : Int → Prop}
    (moves : Moves miner (fun _ => True) ⟨s.release id cid, []⟩ ⟨s', []⟩)
    (found : s'.taskMap.lookup c = some task) :
    (task.currValue, task.currNonce) = s.best c := by
  rw [← released_best moves]
  simp only [Server.best, found]

/-- When nothing of a request is left to be assigned and its task is in step, all of it has been
answered. -/
theorem parts_of_gone (agrees : Agrees w.server c) (gone : Gone ⟨w.server, []⟩ c) :
    w.parts c = answered w.received c := by
  have none : parts ⟨w.server, []⟩ c = ∅ := by
    rw [Set.eq_empty_iff_forall_notMem]
    rintro A (⟨r, member, of, _⟩ | ⟨m, job, working, _⟩)
    · exact gone.waiting r member of
    · obtain ⟨task, found⟩ := Map.lookup_of_mem (agrees.known working)
      cases gone.task.symm.trans found
  rw [World.parts, none, Set.empty_union]

theorem Serving.next_result (serving : Serving hash w c data lower upper) (kept : w.Kept)
    (known : w.Client c data) (turn : Turn w (.result id value nonce) w')
    (own : w.server.workMiner.lookup id = some c)
    (honest : Honest hash w (.result id value nonce))
    (waits : nothingWaits w (.result id value nonce) = true)
    (zero : keepsZero w (.result id value nonce) = true) :
    Gone ⟨w'.server, []⟩ c ∨ Serving hash w' c data lower upper := by
  have agrees := turn.agrees serving.agrees (c := c) (by rintro ⟨⟩)
  have cover := turn.covers known (by rintro ⟨⟩) serving.cover
  cases turn with
  | @result _ cid _ _ job s working sent books moves ends =>
    cases own.symm.trans working
    have assigned := serving.agrees.known own
    rcases ends with ⟨missing, _⟩ | ⟨_, done⟩
    · exact absurd assigned missing
    · cases done with
      | isOver found last =>
        have ends : Ends w id c value nonce job _ _ :=
          ⟨own, sent, assigned, moves, found, last, rfl⟩
        exact .inl (ends.gone waits)
      | @goesOn task found more =>
        have told := kept.told known own sent
        obtain ⟨isBest, mined⟩ :=
          serving.result told own sent honest zero (best_of_found moves found)
        rw [← resultsOf_append] at isBest mined
        refine .inr ⟨agrees, cover, ?_, mined⟩
        simp only [Server.best, Map.lookup_insert, if_true]
        exact isBest

/-- The answer to a client whose request is being served is right. -/
theorem Ends.right {job : Job} {task : TaskData} (ends : Ends w id c value nonce job task w')
    (turn : Turn w (.result id value nonce) w') (kept : w.Kept) (known : w.Client c data)
    (serving : Serving hash w c data lower upper)
    (honest : Honest hash w (.result id value nonce))
    (waits : nothingWaits w (.result id value nonce) = true)
    (zero : keepsZero w (.result id value nonce) = true) :
    Right hash w'.received c data lower upper (task.improve value nonce).currValue
      (task.improve value nonce).currNonce := by
  have agrees := turn.agrees serving.agrees (c := c) (by rintro ⟨⟩)
  have cover := turn.covers known (by rintro ⟨⟩) serving.cover
  rw [parts_of_gone agrees (ends.gone waits)] at cover
  have received : w'.received = w.received ++ [⟨c, job.interval, value, nonce⟩] := by
    rw [ends.after]
  have told := kept.told known ends.working ends.sent
  obtain ⟨isBest, mined⟩ := serving.result told ends.working ends.sent honest zero
    (best_of_found ends.moves ends.found)
  rw [received] at cover ⊢
  rw [← resultsOf_append] at isBest mined
  refine right_of_best cover ?_ isBest mined
  rw [resultsOf_append]
  simp

/-! ### Every run -/

/-- A client's request is being served until nothing is left of it, and the answers are right. -/
structure Answering (hash : String → UInt64 → UInt64) (w : World) : Prop where
  kept : w.Kept
  heard : w.Heard
  each : ∀ c data lower upper, w.role c = .client data lower upper → lower ≤ upper →
    Gone ⟨w.server, []⟩ c ∨ Serving hash w c data lower upper
  right : ∀ c value nonce, (c, value, nonce) ∈ w.server.lspServer.results →
    ∃ data lower upper, w.role c = .client data lower upper ∧
      (lower ≤ upper → Right hash w.received c data lower upper value nonce)

theorem newWorld_answering : Answering hash newWorld where
  kept := newWorld_kept
  heard := by simp [World.Heard, newWorld]
  each := by
    intro c data lower upper role
    cases role
  right := by
    intro c value nonce member
    cases member

theorem Answering.new (inv : Answering hash w)
    (turn : Turn w (.request c data lower upper) w') (proper : lower ≤ upper)
    (fits : loopFits w (.request c data lower upper) = true) :
    Serving hash w' c data lower upper := by
  have new : w.role c = .unknown := by
    cases turn with
    | request new there books moves => exact new
  obtain ⟨agrees, task⟩ := inv.kept.agrees_unknown new
  have fits' : Fits w.server lower upper := by
    simpa [loopFits, Fits, UInt64.not_lt.mpr proper, or_assoc] using fits
  obtain ⟨best, results⟩ := turn.best (c := c) (by rintro ⟨⟩) (by rintro _ _ _ ⟨⟩)
  have none : w.resultsOf c = [] := by
    rw [World.resultsOf, List.filter_eq_nil_iff]
    intro r member own
    obtain ⟨_, known⟩ := inv.heard r member
    rw [of_decide_eq_true own] at known
    exact w.not_client new known
  refine ⟨turn.agrees agrees (by rintro ⟨⟩), turn.covers_new inv.kept inv.heard proper fits', ?_, ?_⟩
  · rw [best, results, none]
    exact .inl ⟨rfl, by simp only [Server.best, task]⟩
  · rw [results, none]
    intro r member
    cases member

theorem Answering.old (inv : Answering hash w) (turn : Turn w a w') (honest : Honest hash w a)
    (ok : answersWhole w a = true) (role : w.role c = .client data lower upper)
    (proper : lower ≤ upper) :
    Gone ⟨w'.server, []⟩ c ∨ Serving hash w' c data lower upper := by
  have known : w.Client c data := ⟨lower, upper, role⟩
  simp only [answersWhole, Bool.and_eq_true] at ok
  obtain ⟨⟨⟨waits, zero⟩, _⟩, leaves⟩ := ok
  rcases inv.each c data lower upper role proper with gone | serving
  · exact .inl (turn.gone known gone)
  · by_cases own : a = .error c
    · subst own
      cases turn with
      | abandon pending notMine =>
        exact .inl (abandon_gone (of_decide_eq_true leaves))
      | quit settled none =>
        exact .inr ⟨⟨serving.agrees.workers, serving.agrees.count⟩, serving.cover, serving.best,
          serving.mined⟩
      | fail working sent assigned books moves =>
        exact absurd known (inv.kept.worker working).1.not_client
      | crash working missing => exact .inr ⟨serving.agrees, serving.cover, serving.best,
          serving.mined⟩
    · by_cases mine : ∃ id value nonce, a = .result id value nonce ∧
          w.server.workMiner.lookup id = some c
      · obtain ⟨id, value, nonce, rfl, working⟩ := mine
        exact serving.next_result inv.kept known turn working honest waits zero
      · exact .inr (serving.next_other turn known own fun id value nonce same working =>
          mine ⟨id, value, nonce, same, working⟩)

theorem Turn.received (turn : Turn w a w') : ∀ r ∈ w.received, r ∈ w'.received := by
  cases turn with
  | result => exact fun r member => List.mem_append_left _ member
  | join | request | abandon | quit | fail | crash => exact fun _ member => member

theorem Answering.next (inv : Answering hash w) (honest : Honest hash w a)
    (ok : answersWhole w a = true) (taken : step w a = some w') : Answering hash w' := by
  have turn := turn_of_step inv.kept taken
  refine ⟨turn.kept inv.kept, turn.heard inv.kept inv.heard, ?_, ?_⟩
  · intro c data lower upper role proper
    rcases turn.role role with old | rfl
    · exact inv.old turn honest ok old proper
    · simp only [answersWhole, Bool.and_eq_true] at ok
      exact .inr (inv.new turn proper ok.1.2)
  · intro c value nonce member
    have before : (c, value, nonce) ∈ w.server.lspServer.results →
        ∃ data lower upper, w'.role c = .client data lower upper ∧
          (lower ≤ upper → Right hash w'.received c data lower upper value nonce) := by
      intro sent
      obtain ⟨data, lower, upper, role, right⟩ := inv.right c value nonce sent
      exact ⟨data, lower, upper, turn.keeps_role role, fun proper =>
        (right proper).mono turn.received⟩
    rcases turn.results with same | ⟨id, cid, _, _, job, task, rfl, ends⟩
    · exact before (same ▸ member)
    · rw [ends.results] at member
      rcases List.mem_append.mp member with sent | new
      · exact before sent
      · cases List.mem_singleton.mp new
        obtain ⟨_, _, _, lower, upper, role⟩ := inv.kept.worker ends.working
        refine ⟨_, lower, upper, turn.keeps_role role, fun proper => ?_⟩
        simp only [answersWhole, Bool.and_eq_true] at ok
        rcases inv.each c _ lower upper role proper with gone | serving
        · obtain ⟨task, found⟩ := Map.lookup_of_mem ends.known
          cases gone.task.symm.trans found
        · exact ends.right turn inv.kept ⟨lower, upper, role⟩ serving honest ok.1.1.1 ok.1.1.2

theorem answers_are_minimum (hash : String → UInt64 → UInt64) (acts : List Action) (w : World)
    (reached : run step newWorld acts = some w)
    (honest : Always step (Honest hash) newWorld acts)
    (ok : Along step answersWhole newWorld acts)
    (c : Int) (value nonce : UInt64) (sent : (c, value, nonce) ∈ w.server.lspServer.results)
    (data : String) (lower upper : UInt64) (role : w.role c = .client data lower upper)
    (proper : lower ≤ upper) :
    (∀ x, lower ≤ x → x ≤ upper →
      ∃ r ∈ w.received, r.client = c ∧ r.interval.lower ≤ x ∧ x ≤ r.interval.upper) ∧
    lower ≤ nonce ∧ nonce ≤ upper ∧ value = hash data nonce ∧
    ∀ x, lower ≤ x → x ≤ upper → value ≤ hash data x := by
  have inv : Answering hash w := by
    refine run_always (Answering hash) ?_ newWorld_answering acts honest ok reached
    exact fun s a t inv honest ok taken => inv.next honest ok taken
  obtain ⟨data', lower', upper', role', right⟩ := inv.right c value nonce sent
  cases role.symm.trans role'
  obtain ⟨covered, above, below, hashes, least⟩ := right proper
  exact ⟨covered, above, below, hashes, least⟩

/-- Two miners share a request and answer in the other order. -/
def twoShares : List Action :=
  [.join 1, .join 2, .request 3 "msg" 3 12003, .result 2 10003 10003, .result 1 3 3]

/-- The hash is the nonce itself, so the minimum is at the lower end. -/
theorem two_shares_minimum : ∃ w, run step newWorld twoShares = some w ∧
    (3, 3, 3) ∈ w.server.lspServer.results ∧
    (∀ x : UInt64, 3 ≤ x → x ≤ 12003 →
      ∃ r ∈ w.received, r.client = 3 ∧ r.interval.lower ≤ x ∧ x ≤ r.interval.upper) ∧
    (3 : UInt64) ≤ 3 ∧ (3 : UInt64) ≤ 12003 ∧ (3 : UInt64) = 3 ∧
    ∀ x : UInt64, 3 ≤ x → x ≤ 12003 → 3 ≤ x := by
  have honest : Always step (Honest fun _ nonce => nonce) newWorld twoShares := by
    refine (always_cons rfl).mpr ⟨trivial, (always_cons rfl).mpr ⟨trivial,
      (always_cons rfl).mpr ⟨trivial, (always_cons rfl).mpr ⟨?_, (always_cons rfl).mpr ⟨?_,
        trivial⟩⟩⟩⟩⟩
    · intro job sent _
      cases sent
      exact ⟨by decide, by decide, rfl, fun x above _ => above⟩
    · intro job sent _
      cases sent
      exact ⟨by decide, by decide, rfl, fun x above _ => above⟩
  exact ⟨_, rfl, by decide, answers_are_minimum _ twoShares _ rfl honest (by decide) 3 3 3
    (by decide) "msg" 3 12003 rfl (by decide)⟩

/-- The hash falls with the nonce. The miner has mined the first part of a request when another
client's is next in the queue; the client is answered at once, for the first part only. -/
theorem answered_for_first_part : ∃ hash acts w value nonce,
    Always step (Honest hash) newWorld acts ∧ run step newWorld acts = some w ∧
    w.role 1 = .client "msg" 0 15000 ∧ (1, value, nonce) ∈ w.server.lspServer.results ∧
    hash "msg" 15000 < value ∧ ∀ r ∈ w.received, ¬(r.interval.lower ≤ 15000 ∧
      15000 ≤ r.interval.upper) := by
  refine ⟨fun _ nonce => 20000 - nonce, [.request 1 "msg" 0 15000, .request 2 "msg" 0 5, .join 3,
    .result 3 10000 10000], _, 10000, 10000, ?_, rfl, rfl, by decide, by decide, by decide⟩
  refine (always_cons rfl).mpr ⟨trivial, (always_cons rfl).mpr ⟨trivial,
    (always_cons rfl).mpr ⟨trivial, (always_cons rfl).mpr ⟨?_, trivial⟩⟩⟩⟩
  intro job sent _
  cases sent
  refine ⟨by decide, by decide, rfl, ?_⟩
  intro x _ below
  have less : x ≤ 20000 := UInt64.le_trans below (by decide)
  simp only [UInt64.le_iff_toNat_le, UInt64.toNat_sub_of_le _ _ less] at *
  change x.toNat ≤ 10000 at below
  change 10000 ≤ 20000 - x.toNat
  omega

end DistSys.Mining
