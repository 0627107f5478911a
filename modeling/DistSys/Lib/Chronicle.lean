import DistSys.Lib.Ballots
import DistSys.Lib.Reigns
import Mathlib.Logic.Function.Basic
import Mathlib.Logic.Relation

/-! Log replication by elected leaders, without messages. A chronicle is what such a
protocol has done so far: every node's term and log, every reign, which prefix of which
reign a node has stored, and which log a node has pledged to vote for. The steps say what a
protocol may do; `strict` adds the two rules that make chosen entries last, that nobody
votes for a log behind its own and that stored entries are only given up on a conflict. -/
namespace DistSys.Lib

open Function (update)

variable {N E : Type}

structure Chronicle (N E : Type) where
  term : N → Nat
  log : N → List E
  reign : Nat → Option (Reign N E)
  acked : N → Nat → Nat → Prop
  pledged : N → Nat → Nat → Nat → Prop

/-- A log with this last label and length is not behind `l`. -/
def UpToDate (label : E → Nat) (l : List E) (last length : Nat) : Prop :=
  lastLabel label l < last ∨ (lastLabel label l = last ∧ l.length ≤ length)

namespace Chronicle

/-- Terms, reigns, acknowledgements and pledges are never taken back. -/
structure Below (m m' : Chronicle N E) : Prop where
  term : ∀ v, m.term v ≤ m'.term v
  reign : Extends m.reign m'.reign
  acked : ∀ v t k, m.acked v t k → m'.acked v t k
  pledged : ∀ v t a b, m.pledged v t a b → m'.pledged v t a b

theorem Below.refl (m : Chronicle N E) : Below m m :=
  ⟨fun _ => Nat.le_refl _, .refl _, fun _ _ _ h => h, fun _ _ _ _ h => h⟩

theorem Below.trans {a b c : Chronicle N E} (h : Below a b) (g : Below b c) : Below a c :=
  ⟨fun v => (h.term v).trans (g.term v), h.reign.trans g.reign,
    fun v t k x => g.acked v t k (h.acked v t k x),
    fun v t x y z => g.pledged v t x y (h.pledged v t x y z)⟩

variable {label : E → Nat} {origin : E} {strict : Prop} {m m' : Chronicle N E}

/-- The invariant of every chronicle, strict or not. -/
structure Coherent (label : E → Nat) (origin : E) (m : Chronicle N E) : Prop where
  traced : ∀ v, Traced label origin m.reign (m.log v)
  bounded : ∀ v, ∀ e ∈ m.log v, label e ≤ m.term v
  proper : ∀ t r, m.reign t = some r → r.Proper label origin m.reign t
  office : ∀ t r, m.reign t = some r →
    t ≤ m.term r.leader ∧ (m.term r.leader = t → m.log r.leader = r.log)

theorem Coherent.older (h : Coherent label origin m) (zero : label origin = 0) {v : N}
    (vacant : m.reign (m.term v) = none) (positive : 0 < m.term v) :
    ∀ e ∈ m.log v, label e < m.term v := by
  intro e member
  refine Nat.lt_of_le_of_ne (h.bounded v e member) ?_
  intro same
  obtain ⟨i, bound, rfl⟩ := List.getElem_of_mem member
  have at_i : (m.log v)[i]? = some (m.log v)[i] := List.getElem?_eq_getElem bound
  cases i with
  | zero =>
    have head := congrArg (fun l => l[0]?) (h.traced v).head
    simp only [List.getElem?_take_of_lt Nat.one_pos, at_i, List.getElem?_cons_zero,
      Option.some.injEq] at head
    rw [head, zero] at same
    omega
  | succ i =>
    obtain ⟨r, hr, _⟩ := (h.traced v).entry _ _ (Nat.succ_pos i) at_i
    rw [same, vacant] at hr
    cases hr

def new (origin : E) : Chronicle N E where
  term := fun _ => 0
  log := fun _ => [origin]
  reign := fun _ => none
  acked := fun _ _ _ => False
  pledged := fun _ _ _ _ => False

theorem coherent_new (zero : label origin = 0) :
    Coherent label origin (new origin : Chronicle N E) := by
  refine ⟨fun _ => ⟨rfl, ?_⟩, ?_, nofun, nofun⟩
  · intro i e positive at_i
    have bound := (List.getElem?_eq_some_iff.mp at_i).1
    simp only [new, List.length_singleton] at bound
    omega
  · intro v e member
    rw [List.mem_singleton.mp member]
    exact Nat.le_of_eq zero

variable [DecidableEq N] [Fintype N]

def setTerm (m : Chronicle N E) (v : N) (t : Nat) : Chronicle N E :=
  { m with term := update m.term v t }

def addPledge (m : Chronicle N E) (v : N) (last length : Nat) : Chronicle N E :=
  { m with pledged := fun u t a b =>
      m.pledged u t a b ∨ (u = v ∧ t = m.term v ∧ a = last ∧ b = length) }

def addReign (m : Chronicle N E) (v : N) (voters : Finset N) : Chronicle N E :=
  { m with reign := update m.reign (m.term v) (some ⟨v, voters, m.log v, []⟩) }

/-- Whatever is stored up to length `k` is acknowledged at every shorter length too. -/
def addEntry (m : Chronicle N E) (v : N) (r : Reign N E) (e : E) : Chronicle N E :=
  { m with
    log := update m.log v (m.log v ++ [e])
    reign := update m.reign (m.term v) (some { r with added := r.added ++ [e] })
    acked := fun u t k => m.acked u t k ∨ (u = v ∧ t = m.term v ∧ k ≤ (m.log v).length + 1) }

def store (m : Chronicle N E) (v : N) (r : Reign N E) (k : Nat) : Chronicle N E :=
  { m with
    log := update m.log v (r.log.take k)
    acked := fun u t j => m.acked u t j ∨ (u = v ∧ t = m.term v ∧ j ≤ k) }

inductive Step (label : E → Nat) (strict : Prop) (m : Chronicle N E) : Chronicle N E → Prop where
  | advance (v : N) (t : Nat) (later : m.term v ≤ t) : Step label strict m (m.setTerm v t)
  | pledge (v : N) (last length : Nat) (vacant : m.reign (m.term v) = none)
      (fair : strict → UpToDate label (m.log v) last length) :
      Step label strict m (m.addPledge v last length)
  | crown (v : N) (voters : Finset N) (vacant : m.reign (m.term v) = none)
      (positive : 0 < m.term v) (major : Majority voters)
      (votes : ∀ u ∈ voters,
        m.pledged u (m.term v) (lastLabel label (m.log v)) (m.log v).length) :
      Step label strict m (m.addReign v voters)
  | append (v : N) (r : Reign N E) (e : E) (rules : m.reign (m.term v) = some r)
      (office : r.leader = v) (current : label e = m.term v) :
      Step label strict m (m.addEntry v r e)
  | accept (v : N) (r : Reign N E) (k : Nat) (rules : m.reign (m.term v) = some r)
      (other : r.leader ≠ v) (positive : 0 < k) (fits : k ≤ r.log.length)
      (conflict : strict → (m.log v).length ≤ k ∨ ¬ r.log.take k <+: m.log v) :
      Step label strict m (m.store v r k)

omit [Fintype N] in
theorem below_setTerm {v : N} {t : Nat} (later : m.term v ≤ t) : Below m (m.setTerm v t) := by
  refine ⟨?_, .refl _, fun _ _ _ h => h, fun _ _ _ _ h => h⟩
  intro u
  by_cases same : u = v
  · subst same
    simpa [setTerm] using later
  · simp [setTerm, same]

theorem Step.below (step : Step label strict m m') : Below m m' := by
  cases step with
  | advance v t later => exact below_setTerm later
  | pledge v last length vacant fair =>
    exact ⟨fun _ => Nat.le_refl _, .refl _, fun _ _ _ h => h, fun _ _ _ _ h => .inl h⟩
  | crown v voters vacant positive major votes =>
    refine ⟨fun _ => Nat.le_refl _, extends_update ?_, fun _ _ _ h => h, fun _ _ _ _ h => h⟩
    intro r hr
    rw [vacant] at hr
    cases hr
  | append v r e rules office current =>
    refine ⟨fun _ => Nat.le_refl _, extends_update ?_, fun _ _ _ h => .inl h, fun _ _ _ _ h => h⟩
    intro r' hr
    rw [rules] at hr
    cases hr
    exact ⟨rfl, rfl, rfl, List.prefix_append _ _⟩
  | accept v r k rules other positive fits conflict =>
    exact ⟨fun _ => Nat.le_refl _, .refl _, fun _ _ _ h => .inl h, fun _ _ _ _ h => h⟩

section

omit [Fintype N]

theorem Coherent.setTerm (h : Coherent label origin m) {v : N} {t : Nat} (later : m.term v ≤ t) :
    Coherent label origin (m.setTerm v t) := by
  refine ⟨h.traced, ?_, h.proper, ?_⟩
  · exact fun u e member => Nat.le_trans (h.bounded u e member) ((below_setTerm later).term u)
  · intro t' r hr
    have office := h.office t' r hr
    by_cases same : r.leader = v
    · subst same
      simp only [Chronicle.setTerm, Function.update_self]
      refine ⟨Nat.le_trans office.1 later, ?_⟩
      intro now
      exact office.2 (Nat.le_antisymm (now ▸ later) office.1)
    · simpa [Chronicle.setTerm, same] using office

omit [DecidableEq N] in
theorem Coherent.addReign (h : Coherent label origin m) (zero : label origin = 0) {v : N}
    (voters : Finset N) (vacant : m.reign (m.term v) = none) (positive : 0 < m.term v) :
    Coherent label origin (m.addReign v voters) := by
  have grown : Extends m.reign (m.addReign v voters).reign := by
    apply extends_update
    intro r hr
    rw [vacant] at hr
    cases hr
  refine ⟨fun u => (h.traced u).extend grown, h.bounded, ?_, ?_⟩
  · intro t r hr
    rcases reign_update hr with ⟨rfl, rfl⟩ | ⟨_, old⟩
    · refine ⟨positive, ?_, (h.traced v).length_pos, h.older zero vacant positive, nofun⟩
      simpa [Reign.log] using (h.traced v).extend grown
    · exact (h.proper t r old).extend grown
  · intro t r hr
    rcases reign_update hr with ⟨rfl, rfl⟩ | ⟨_, old⟩
    · exact ⟨Nat.le_refl _, fun _ => by simp [Chronicle.addReign, Reign.log]⟩
    · exact h.office t r old

/-- Only the leader adds to a reign, while its own log is the reign's. -/
theorem Coherent.addEntry (h : Coherent label origin m) {v : N} {r : Reign N E} {e : E}
    (rules : m.reign (m.term v) = some r) (office : r.leader = v) (current : label e = m.term v) :
    Coherent label origin (m.addEntry v r e) := by
  have own : m.log v = r.log := office ▸ (h.office _ r rules).2 (office ▸ rfl)
  have proper := h.proper _ r rules
  have grown : Extends m.reign (m.addEntry v r e).reign := by
    apply extends_update
    intro r' hr
    rw [rules] at hr
    cases hr
    exact ⟨rfl, rfl, rfl, List.prefix_append _ _⟩
  -- the longer log is traced at its last entry by the very reign that has just grown
  have longer : Traced label origin (m.addEntry v r e).reign (r.log ++ [e]) := by
    refine (proper.traced.extend grown).snoc (r := { r with added := r.added ++ [e] }) ?_ ?_
    · simp [Chronicle.addEntry, current]
    · rw [List.take_of_length_le (by simp [Reign.log]; omega)]
      simp [Reign.log]
  refine ⟨?_, ?_, ?_, ?_⟩
  · intro u
    by_cases same : u = v
    · subst same
      simpa [Chronicle.addEntry, own] using longer
    · simpa [Chronicle.addEntry, same] using (h.traced u).extend grown
  · intro u d member
    by_cases same : u = v
    · subst same
      simp only [Chronicle.addEntry, Function.update_self, List.mem_append,
        List.mem_singleton] at member
      rcases member with old | rfl
      · exact h.bounded u d old
      · exact Nat.le_of_eq current
    · simp only [Chronicle.addEntry, Function.update_of_ne same] at member
      exact h.bounded u d member
  · intro t r' hr
    rcases reign_update hr with ⟨rfl, rfl⟩ | ⟨_, old⟩
    · refine ⟨proper.positive, ?_, proper.nonempty, proper.older, ?_⟩
      · simpa [Reign.log] using longer
      · intro d member
        rcases List.mem_append.mp member with old | new
        · exact proper.own d old
        · rw [List.mem_singleton.mp new, current]
    · exact (h.proper t r' old).extend grown
  · intro t r' hr
    rcases reign_update hr with ⟨rfl, rfl⟩ | ⟨other, old⟩
    · refine ⟨Nat.le_of_eq (office ▸ rfl), ?_⟩
      intro _
      simp only [Chronicle.addEntry, office, Function.update_self, own]
      simp [Reign.log]
    · have older := h.office t r' old
      refine ⟨older.1, ?_⟩
      intro now
      have apart : r'.leader ≠ v := fun eq => other (by rw [← eq]; exact now.symm)
      simpa [Chronicle.addEntry, apart] using older.2 now

theorem Coherent.store (h : Coherent label origin m) {v : N} {r : Reign N E} {k : Nat}
    (rules : m.reign (m.term v) = some r) (other : r.leader ≠ v) (positive : 0 < k) :
    Coherent label origin (m.store v r k) := by
  have proper := h.proper _ r rules
  refine ⟨?_, ?_, h.proper, ?_⟩
  · intro u
    by_cases same : u = v
    · subst same
      simpa [Chronicle.store] using proper.traced.take positive
    · simpa [Chronicle.store, same] using h.traced u
  · intro u d member
    by_cases same : u = v
    · subst same
      simp only [Chronicle.store, Function.update_self] at member
      exact proper.label_le (List.mem_of_mem_take member)
    · simp only [Chronicle.store, Function.update_of_ne same] at member
      exact h.bounded u d member
  · intro t r' hr
    have office := h.office t r' hr
    refine ⟨office.1, ?_⟩
    intro now
    have apart : r'.leader ≠ v := by
      intro eq
      have hr' : m.reign (m.term v) = some r' := by rw [← eq]; exact now ▸ hr
      rw [rules] at hr'
      cases hr'
      exact other eq
    simpa [Chronicle.store, apart] using office.2 now

end

theorem Coherent.step (zero : label origin = 0) (h : Coherent label origin m)
    (step : Step label strict m m') : Coherent label origin m' := by
  cases step with
  | advance v t later => exact h.setTerm later
  | pledge v last length vacant fair => exact ⟨h.traced, h.bounded, h.proper, h.office⟩
  | crown v voters vacant positive major votes => exact h.addReign zero voters vacant positive
  | append v r e rules office current => exact h.addEntry rules office current
  | accept v r k rules other positive fits conflict => exact h.store rules other positive

/-! ### Several steps -/

abbrev Steps (label : E → Nat) (strict : Prop) : Chronicle N E → Chronicle N E → Prop :=
  Relation.ReflTransGen (Step label strict)

theorem Steps.below (steps : Steps label strict m m') : Below m m' := by
  induction steps with
  | refl => exact .refl m
  | tail _ step ih => exact ih.trans step.below

theorem Coherent.steps (zero : label origin = 0) (h : Coherent label origin m)
    (steps : Steps label strict m m') : Coherent label origin m' := by
  induction steps with
  | refl => exact h
  | tail _ step ih => exact ih.step zero step

omit [DecidableEq N] [Fintype N] in
theorem Below.vacant (below : Below m m') {t : Nat} (vacant : m'.reign t = none) :
    m.reign t = none := by
  cases before : m.reign t with
  | none => rfl
  | some r =>
    obtain ⟨r', after, _⟩ := below.reign t r before
    rw [vacant] at after
    cases after

theorem Step.still (step : Step label strict m m') {v : N}
    (vacant : m'.reign (m.term v) = none) : m'.log v = m.log v := by
  have before := step.below.vacant vacant
  cases step with
  | advance | pledge | crown => rfl
  | append u r e rules office current =>
    have apart : v ≠ u := by
      rintro rfl
      rw [rules] at before
      cases before
    simp [addEntry, apart]
  | accept u r k rules other positive fits conflict =>
    have apart : v ≠ u := by
      rintro rfl
      rw [rules] at before
      cases before
    simp [store, apart]

theorem Steps.still (steps : Steps label strict m m') {v : N} (same : m'.term v = m.term v)
    (vacant : m'.reign (m.term v) = none) : m'.log v = m.log v := by
  induction steps with
  | refl => rfl
  | @tail b d before step ih =>
    have middle : b.term v = m.term v :=
      Nat.le_antisymm (same ▸ step.below.term v) (Steps.below before |>.term v)
    rw [step.still (middle ▸ vacant), ih middle (step.below.vacant vacant)]

/-- A vote given in a term that somebody leads already needs no pledge. -/
theorem pledge_if_vacant (m : Chronicle N E) (v : N) {last length : Nat}
    (fair : strict → UpToDate label (m.log v) last length) :
    ∃ m', Steps label strict m m' ∧ m'.term = m.term ∧ m'.log = m.log ∧ m'.reign = m.reign ∧
      (m.reign (m.term v) = none → m'.pledged v (m.term v) last length) := by
  cases vacant : m.reign (m.term v) with
  | none =>
    exact ⟨_, .single (.pledge v last length vacant fair), rfl, rfl, rfl,
      fun _ => .inr ⟨rfl, rfl, rfl, rfl⟩⟩
  | some r => exact ⟨m, .refl, rfl, rfl, rfl, fun none => by cases none⟩

end Chronicle

end DistSys.Lib
