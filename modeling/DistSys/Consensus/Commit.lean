import DistSys.Consensus.History

/-! Commitment. What a peer has committed is settled in the chronicle: it starts a prefix that
a majority has stored while its leader was in office. The match indices of a leader are what
carries the count of the code over to the chronicle. -/
namespace DistSys.Consensus

open Function (update)
open DistSys.Lib

variable {n : Nat} {Command : Type} {c c' : Cluster n Command} {a : Action n Command}
variable {m m' : History n Command}

/-- What a leader has noted about the others, they have stored. -/
def Matched (m : History n Command) (term : Nat) (matchIndex : List Nat) : Prop :=
  ∀ (v : Fin n) (k : Nat), matchIndex[v.val]? = some k →
    k = 0 ∨ ∀ j ≤ k + 1, m.acked v term j

theorem Matched.mono {term : Nat} {matchIndex : List Nat} (h : Matched m term matchIndex)
    (below : m.Below m') : Matched m' term matchIndex :=
  fun v k noted => (h v k noted).imp id fun acked j le => below.acked v term j (acked j le)

theorem matched_replicate (m : History n Command) (term : Nat) :
    Matched m term (List.replicate n 0) :=
  fun _ _ noted => .inl (List.eq_of_mem_replicate (List.mem_of_getElem? noted))

theorem Matched.record {rf rf' : Raft n Command} {server : Fin n}
    {args : AppendEntriesArgs n Command} {reply : AppendEntriesReply} {isHeartbeat : Bool}
    {term : Nat} (h : Matched m term rf.matchIndex)
    (done : recordReply rf server args reply isHeartbeat = some rf')
    (stored : reply.success = true →
      ∀ j ≤ args.prevLogIndex + 1 + args.entries.length, m.acked server term j) :
    Matched m term rf'.matchIndex := by
  unfold recordReply at done
  split at done
  · rename_i success
    split at done
    · rename_i bounds
      cases Option.some.inj done
      intro v k noted
      by_cases here : v = server
      · subst here
        rw [List.getElem?_set_self bounds.2] at noted
        cases Option.some.inj noted
        exact .inr fun j le => stored success j (by omega)
      · have apart : server.val ≠ v.val := fun eq => here (Fin.ext eq.symm)
        rw [List.getElem?_set_ne apart] at noted
        exact h v k noted
    · contradiction
  · split at done
    · contradiction
    · split at done <;> cases Option.some.inj done <;> exact h

/-- What a message says about commitment is settled in the reign of its sender. -/
structure Told [Inhabited Command] (m : History n Command) (args : AppendEntriesArgs n Command)
    (r : Reign (Fin n) (Logs Command)) : Prop where
  rules : m.reign args.term = some r
  inside : args.leaderCommit < r.log.length
  settled : m.Settled ⟨0, default⟩ args.term (r.log.take (args.leaderCommit + 1))

structure Committed [Inhabited Command] (c : Cluster n Command) (m : History n Command) : Prop where
  matched : ∀ p, (c.raft p).electionState = .leader →
    Matched m (c.raft p).currentTerm (c.raft p).matchIndex
  inside : ∀ p, (c.raft p).commitIndex < (c.raft p).log.length
  settled : ∀ p, m.Settled ⟨0, default⟩ (c.raft p).currentTerm
    ((c.raft p).log.take ((c.raft p).commitIndex + 1))
  told : ∀ call ∈ c.appends, ∃ r, Told m call.args r
  applied : ∀ p, ∀ x ∈ c.applyCh p, x.index ≤ (c.raft p).commitIndex ∧
    ∃ e, (c.raft p).log[x.index]? = some e ∧ e.command = x.command

/-- A step keeps what the peer had committed. -/
structure Durable (rf rf' : Raft n Command) : Prop where
  commit : rf.commitIndex ≤ rf'.commitIndex
  entries : rf'.log.take (rf.commitIndex + 1) = rf.log.take (rf.commitIndex + 1)

section

variable [Inhabited Command]

theorem Told.mono {args : AppendEntriesArgs n Command} {r : Reign (Fin n) (Logs Command)}
    (h : Told m args r) (below : m.Below m') : ∃ r', Told m' args r' := by
  obtain ⟨r', rules, grows⟩ := below.reign _ r h.rules
  refine ⟨r', rules, Nat.lt_of_lt_of_le h.inside grows.log.length_le, ?_⟩
  rw [grows.take (Nat.succ_le_of_lt h.inside)]
  exact h.settled.mono below (Nat.le_refl _)

omit [Inhabited Command] in
theorem origin_term [Inhabited Command] : (⟨0, default⟩ : Logs Command).term = 0 := rfl

/-! ### What the commit loop finds -/

/-- The commit loop counts a majority of peers that have stored an entry of the leader's
own term. -/
theorem commit_chosen (led : Led c m) (faithful : m.Faithful Logs.term) {p : Fin n}
    (leader : (c.raft p).electionState = .leader) {recorded : Raft n Command}
    (same : recorded = { c.raft p with
      nextIndex := recorded.nextIndex, matchIndex := recorded.matchIndex })
    (matched : Matched m (c.raft p).currentTerm recorded.matchIndex) {entryIdx : Nat}
    (found : findCommit p recorded (uncommitted recorded) = some (some entryIdx)) :
    ∃ r, m.Chosen (c.raft p).currentTerm (entryIdx + 1) r ∧ r.log = (c.raft p).log := by
  obtain ⟨r, rules, office, log⟩ := led.refines.own_reign leader
  obtain ⟨member, ⟨e, at_idx, current⟩, vote, counted, enough⟩ := findCommit_spec found
  have same_log : recorded.log = (c.raft p).log := by rw [same]
  have same_term : recorded.currentTerm = (c.raft p).currentTerm := by rw [same]
  obtain ⟨s, absent, card, noted⟩ := countReplicas_spec counted
  have above : 0 < entryIdx := Nat.zero_lt_of_lt (mem_uncommitted.mp member).1
  rw [same_log, log] at at_idx
  have inside := (List.getElem?_eq_some_iff.mp at_idx).1
  have behind : r.base.length < entryIdx + 1 := by
    have proper := led.refines.coherent.proper _ r rules
    exact Nat.lt_succ_of_le ((proper.label_eq_iff at_idx).mp (current.trans same_term))
  refine ⟨r, ⟨rules, behind, inside, insert p s, ?_, ?_⟩, log.symm⟩
  · rw [Majority, Finset.card_insert_of_notMem absent, Fintype.card_fin]
    omega
  · intro v voter
    rcases Finset.mem_insert.mp voter with rfl | other
    · have own := faithful.leader _ r _ rules behind inside
      rwa [office] at own
    · obtain ⟨k, at_v, reaches⟩ := noted v other
      rcases matched v k at_v with zero | acked
      · omega
      · exact acked _ (by omega)

omit [Inhabited Command] in
theorem reply_office {k : Nat} {call : AppendCall n Command} {reply : AppendEntriesReply}
    (found : c.appends[k]? = some call) (replied : call.rpc = .replied reply)
    (ok : replyInOffice c (.appendReply k) = true) :
    ((c.raft call.args.leaderId).electionState = .leader → reply.success = true →
      call.args.term = (c.raft call.args.leaderId).currentTerm) ∧
    ((c.raft call.args.leaderId).electionState ≠ .leader →
      ∀ i ∈ uncommitted (c.raft call.args.leaderId), ∀ e,
        (c.raft call.args.leaderId).log[i]? = some e →
        e.term ≠ (c.raft call.args.leaderId).currentTerm) := by
  obtain ⟨server, args, isHeartbeat, rpc⟩ := call
  dsimp only at replied
  subst replied
  simp only [replyInOffice, found] at ok
  split at ok
  · rename_i leader
    exact ⟨fun _ => of_decide_eq_true ok, fun other => absurd leader other⟩
  · rename_i other
    refine ⟨fun leader => absurd leader other, fun _ i member e at_i => ?_⟩
    have all := List.all_eq_true.mp ok i member
    simpa [at_i] using all

theorem answered_settled (led : Led c m) (faithful : m.Faithful Logs.term) (h : Committed c m)
    {k : Nat} {call : AppendCall n Command} {reply : AppendEntriesReply}
    (found : c.appends[k]? = some call) (replied : call.rpc = .replied reply)
    (ok : replyInOffice c (.appendReply k) = true) {recorded : Raft n Command}
    (done : recordReply (c.raft call.args.leaderId) call.server call.args reply
      call.isHeartbeat = some recorded) :
    ((c.raft call.args.leaderId).electionState = .leader →
      Matched m (c.raft call.args.leaderId).currentTerm recorded.matchIndex) ∧
    ∀ entryIdx, findCommit call.args.leaderId recorded (uncommitted recorded) =
        some (some entryIdx) →
      m.Settled ⟨0, default⟩ (c.raft call.args.leaderId).currentTerm
        ((c.raft call.args.leaderId).log.take (entryIdx + 1)) := by
  obtain ⟨term, others⟩ := reply_office found replied ok
  have same := recordReply_eq done
  have matched : (c.raft call.args.leaderId).electionState = .leader →
      Matched m (c.raft call.args.leaderId).currentTerm recorded.matchIndex := by
    intro leader
    refine (h.matched _ leader).record done ?_
    intro success
    obtain ⟨r, carried⟩ := led.refines.carried call (List.mem_of_getElem? found)
    rw [← term leader success]
    exact carried.stored reply (by rw [replied]; rfl) success
  refine ⟨matched, ?_⟩
  intro entryIdx committed
  by_cases leader : (c.raft call.args.leaderId).electionState = .leader
  · obtain ⟨r, chosen, log⟩ := commit_chosen led faithful leader same (matched leader) committed
    exact .inr ⟨_, _, r, Nat.le_refl _, chosen, by rw [log]⟩
  · -- nothing of its own term is left to commit
    obtain ⟨member, ⟨e, at_idx, current⟩, _⟩ := findCommit_spec committed
    have unchanged : uncommitted recorded = uncommitted (c.raft call.args.leaderId) := by
      rw [same]
      rfl
    rw [same] at at_idx current
    exact absurd current (others leader entryIdx (unchanged ▸ member) e at_idx)

/-! ### One step -/

/-- Where the committed part of a peer stays and is settled afterwards. -/
structure Secured (m : History n Command) (rf rf' : Raft n Command) : Prop where
  durable : Durable rf rf'
  inside : rf'.commitIndex < rf'.log.length
  settled : m.Settled ⟨0, default⟩ rf'.currentTerm (rf'.log.take (rf'.commitIndex + 1))

theorem Committed.secured (h : Committed c m) (below : m.Below m') {p : Fin n}
    {rf : Raft n Command} (term : (c.raft p).currentTerm ≤ rf.currentTerm)
    (commit : rf.commitIndex = (c.raft p).commitIndex) (log : (c.raft p).log <+: rf.log) :
    Secured m' (c.raft p) rf := by
  have inside := h.inside p
  have same := take_eq_of_front log (Nat.succ_le_of_lt inside)
  refine ⟨⟨Nat.le_of_eq commit.symm, same⟩, ?_, ?_⟩
  · rw [commit]
    exact Nat.lt_of_lt_of_le inside log.length_le
  · rw [commit, same]
    exact (h.settled p).mono below term

/-- A message is stored: what was committed is in the sender's log as well, so it is not
cut, and what the message adds is settled in the sender's reign. -/
theorem Committed.secured_store (h : Committed c m) (led : Led c m)
    (faithful : m.Faithful Logs.term) (below : m.Below m') {k : Nat} {call : AppendCall n Command}
    (found : c.appends[k]? = some call) (ok : cutsAtConflict c (.appendEntries k) = true)
    (le : (c.raft call.server).currentTerm ≤ call.args.term)
    (matches_prev : prevMatches (c.raft call.server).log call.args = true) :
    Secured m' (c.raft call.server) { (c.raft call.server).follow call.args.term with
      log := storeEntries (c.raft call.server).log call.args
      commitIndex := if (c.raft call.server).commitIndex < call.args.leaderCommit then
        min ((storeEntries (c.raft call.server).log call.args).length - 1) call.args.leaderCommit
        else (c.raft call.server).commitIndex } := by
  obtain ⟨r, carried⟩ := led.refines.carried call (List.mem_of_getElem? found)
  obtain ⟨r', told⟩ := h.told call (List.mem_of_getElem? found)
  have same : r' = r := Option.some.inj (told.rules.symm.trans carried.rules)
  subst same
  have coherent := led.refines.coherent
  have stored := store_eq_take carried coherent
    (led.refines.log call.server ▸ coherent.traced call.server) matches_prev
  have size := storeEntries_length matches_prev
  have inside := h.inside call.server
  have conflict := cuts_conflict carried found le matches_prev ok
  rw [← led.refines.log call.server] at conflict
  have old := (h.settled call.server).later origin_term coherent faithful carried.rules le
  have kept := Chronicle.store_keeps conflict
    (led.refines.log call.server ▸ List.take_prefix _ _) old
  rw [← stored] at kept
  have length := kept.length_le
  rw [List.length_take_of_le (Nat.succ_le_of_lt inside), size] at length
  have entries : (storeEntries (c.raft call.server).log call.args).take
      ((c.raft call.server).commitIndex + 1) =
      (c.raft call.server).log.take ((c.raft call.server).commitIndex + 1) := by
    have front := List.prefix_iff_eq_take.mp kept
    rw [List.length_take_of_le (Nat.succ_le_of_lt inside)] at front
    exact front.symm
  refine ⟨⟨?_, entries⟩, ?_, ?_⟩
  · dsimp only
    split <;> omega
  · dsimp only
    split <;> omega
  · have now : ((c.raft call.server).follow call.args.term).currentTerm = call.args.term := by
      rw [follow_term]
      omega
    dsimp only
    rw [now]
    split
    · rw [stored, List.take_take]
      refine (told.settled.shorten (List.take_prefix_take_left ?_) ?_).mono below (Nat.le_refl _)
      · rw [← stored, size]
        omega
      · have there := told.inside
        rw [List.length_take]
        omega
    · rw [entries]
      exact (h.settled call.server).mono below le

variable (step : Step c a c') (led : Led c m) (faithful : m.Faithful Logs.term)
  (h : Committed c m) (below : m.Below m')
include step led faithful h below

theorem step_secured (terms : ∀ p, (c.raft p).currentTerm ≤ (c'.raft p).currentTerm)
    (cuts : cutsAtConflict c a = true) (office : replyInOffice c a = true) (p : Fin n) :
    Secured m' (c.raft p) (c'.raft p) := by
  have term := terms p
  cases step_replica step p with
  | kept log commit matched idle =>
    exact h.secured below term commit (log ▸ List.prefix_rfl)
  | crowned act eq => exact h.secured below term (by rw [eq]; rfl) (by rw [eq]; exact List.prefix_rfl)
  | appended command act leader eq =>
    exact h.secured below term (by rw [eq]) (by rw [eq]; exact List.prefix_append _ _)
  | stored k call act found server le matches_prev eq =>
    subst act server
    rw [eq]
    exact h.secured_store led faithful below found cuts le matches_prev
  | answered k call reply applied act found replied sender processed =>
    subst act sender
    obtain ⟨recorded, done, eq | ⟨entryIdx, eq, committed⟩⟩ :=
      processAppendEntriesReply_cases processed
    · have same := recordReply_eq done
      rw [eq] at term ⊢
      exact h.secured below term (by rw [same]) (by rw [same])
    · have same := recordReply_eq done
      have log : recorded.log = (c.raft call.args.leaderId).log := by rw [same]
      have commit : recorded.commitIndex = (c.raft call.args.leaderId).commitIndex := by rw [same]
      have settled := (answered_settled led faithful h found replied office done).2 _ committed
      obtain ⟨above, inside⟩ := mem_uncommitted.mp (findCommit_spec committed).1
      rw [eq] at term ⊢
      refine ⟨⟨?_, ?_⟩, inside, ?_⟩
      · exact Nat.le_of_lt (commit ▸ above)
      · rw [log]
      · rw [log]
        exact settled.mono below term

theorem step_matched (office : replyInOffice c a = true) (p : Fin n)
    (leader : (c'.raft p).electionState = .leader) :
    Matched m' (c'.raft p).currentTerm (c'.raft p).matchIndex := by
  obtain ⟨same, before | ⟨_, _, _, eq⟩⟩ := step_leader step leader
  · rw [same]
    have old := h.matched p before
    cases step_replica step p with
    | kept log commit matched idle => exact matched ▸ old.mono below
    | crowned act eq =>
      rw [eq]
      exact matched_replicate m' _
    | appended command act leader eq =>
      rw [eq]
      exact old.mono below
    | stored k call act found server le matches_prev eq =>
      rw [eq]
      dsimp only
      rw [follow_matchIndex]
      exact old.mono below
    | answered k call reply applied act found replied sender processed =>
      subst act sender
      obtain ⟨recorded, done, eq⟩ := processAppendEntriesReply_cases processed
      have matched := (answered_settled led faithful h found replied office done).1 before
      rcases eq with eq | ⟨entryIdx, eq, _⟩ <;> rw [eq] <;> exact matched.mono below
  · rw [eq]
    exact matched_replicate m' _

theorem step_committed (terms : ∀ p, (c.raft p).currentTerm ≤ (c'.raft p).currentTerm)
    (cuts : cutsAtConflict c a = true) (office : replyInOffice c a = true) : Committed c' m' := by
  have secured := step_secured step led faithful h below terms cuts office
  refine ⟨step_matched step led faithful h below office, fun p => (secured p).inside,
    fun p => (secured p).settled, ?_, ?_⟩
  · intro call member
    rcases step_calls step member with ⟨old, before, like⟩ | ⟨p, i, at_peer, other, _, built⟩
    · obtain ⟨r, told⟩ := h.told old before
      rw [like.args]
      exact Told.mono ⟨told.rules, told.inside, told.settled⟩ below
    · have leader := led.round p ((inRound_broadcast at_peer).mpr ⟨i, Nat.le_refl _, other⟩)
      obtain ⟨r, rules, _, log⟩ := led.refines.own_reign leader
      obtain ⟨term, _, commit, _, _⟩ := build_spec (led.rooted p) built
      have told : Told m call.args r :=
        ⟨term ▸ rules, by rw [commit, ← log]; exact h.inside p,
          by rw [commit, term, ← log]; exact h.settled p⟩
      exact told.mono below
  · intro p x sent
    have durable := (secured p).durable
    have old : x.index ≤ (c.raft p).commitIndex ∧
        ∃ e, (c.raft p).log[x.index]? = some e ∧ e.command = x.command := by
      rcases step_applyCh step sent with before | now
      · exact h.applied p x before
      · exact mem_applyCommit now
    obtain ⟨small, e, at_index, command⟩ := old
    refine ⟨Nat.le_trans small durable.commit, e, ?_, command⟩
    rw [← List.getElem?_take_of_lt (Nat.lt_succ_of_le small), durable.entries,
      List.getElem?_take_of_lt (Nat.lt_succ_of_le small), at_index]

end

/-! ### Whole runs -/

structure Safe [Inhabited Command] (c : Cluster n Command) (m : History n Command) : Prop where
  led : Led c m
  faithful : m.Faithful Logs.term
  committed : Committed c m

theorem safe_new [Inhabited Command] : Safe (newCluster n Command) (.new ⟨0, default⟩) := by
  refine ⟨led_new, Chronicle.faithful_new, nofun, ?_, ?_, nofun, nofun⟩
  · exact fun _ => Nat.one_pos
  · exact fun _ => .inl rfl

theorem step_safe [Inhabited Command] (step : Step c a c') (h : Safe c m)
    (ok : replicationSound c a = true) :
    ∃ m', m.Below m' ∧ Safe c' m' ∧ ∀ p, Durable (c.raft p) (c'.raft p) := by
  simp only [replicationSound, Bool.and_eq_true] at ok
  obtain ⟨⟨⟨sound, vote⟩, cuts⟩, office⟩ := ok
  obtain ⟨m', steps, led⟩ := step_led True step h.led sound (fun _ => ⟨vote, cuts⟩)
  have below := Chronicle.Steps.below steps
  have terms : ∀ p, (c.raft p).currentTerm ≤ (c'.raft p).currentTerm := by
    intro p
    rw [← h.led.refines.term, ← led.refines.term]
    exact below.term p
  have faithful := h.faithful.steps origin_term h.led.refines.coherent steps
  exact ⟨m', below,
    ⟨led, faithful, step_committed step h.led h.faithful h.committed below terms cuts office⟩,
    fun p => (step_secured step h.led h.faithful h.committed below terms cuts office p).durable⟩

theorem safe_of_run [Inhabited Command] {acts : List (Action n Command)}
    (met : Along step replicationSound (newCluster n Command) acts)
    (reached : run step (newCluster n Command) acts = some c) : ∃ m, Safe c m := by
  refine run_invariant (fun c => ∃ m, Safe c m) ?_ ⟨_, safe_new⟩ acts met reached
  rintro s a t ⟨m, safe⟩ ok taken
  obtain ⟨m', _, safe', _⟩ := step_safe (step_cases taken).2 safe ok
  exact ⟨m', safe'⟩

end DistSys.Consensus
