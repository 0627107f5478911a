import Mathlib.Data.List.Basic
import Mathlib.Data.Finset.Basic
import Mathlib.Logic.Function.Basic

/-! Logs whose entries carry a number, the term of the leader that made them. A reign is one
leader's time in office: the log it started with and what it added. A log is traced when each
of its entries, with everything below it, is found in the reign of the entry's own term; this
is the form of log matching that an induction can carry. -/
namespace DistSys.Lib

variable {N E : Type} {label : E → Nat} {origin : E}

structure Reign (N E : Type) where
  leader : N
  voters : Finset N
  base : List E
  added : List E

def Reign.log (r : Reign N E) : List E := r.base ++ r.added

/-- The only change of a reign: its leader appends. -/
structure Reign.Grows (r r' : Reign N E) : Prop where
  leader : r'.leader = r.leader
  voters : r'.voters = r.voters
  base : r'.base = r.base
  added : r.added <+: r'.added

theorem Reign.Grows.refl (r : Reign N E) : r.Grows r := ⟨rfl, rfl, rfl, List.prefix_rfl⟩

theorem Reign.Grows.trans {a b c : Reign N E} (h : a.Grows b) (g : b.Grows c) : a.Grows c :=
  ⟨g.leader.trans h.leader, g.voters.trans h.voters, g.base.trans h.base, h.added.trans g.added⟩

theorem Reign.Grows.log {r r' : Reign N E} (h : r.Grows r') : r.log <+: r'.log := by
  obtain ⟨more, same⟩ := h.added
  exact ⟨more, by rw [Reign.log, Reign.log, h.base, List.append_assoc, same]⟩

theorem take_eq_of_front {xs ys : List E} (h : xs <+: ys) {k : Nat} (fits : k ≤ xs.length) :
    ys.take k = xs.take k := by
  obtain ⟨rest, rfl⟩ := h
  exact List.take_append_of_le_length fits

theorem getElem?_of_front {xs ys : List E} (h : xs <+: ys) {i : Nat} {e : E}
    (at_i : xs[i]? = some e) : ys[i]? = some e := by
  obtain ⟨rest, rfl⟩ := h
  rw [List.getElem?_append_left (List.getElem?_eq_some_iff.mp at_i).1, at_i]

theorem Reign.Grows.take {r r' : Reign N E} (h : r.Grows r') {k : Nat} (fits : k ≤ r.log.length) :
    r'.log.take k = r.log.take k :=
  take_eq_of_front h.log fits

theorem Reign.base_front (r : Reign N E) : r.base <+: r.log := List.prefix_append _ _

def Extends (reign reign' : Nat → Option (Reign N E)) : Prop :=
  ∀ t r, reign t = some r → ∃ r', reign' t = some r' ∧ r.Grows r'

theorem Extends.refl (reign : Nat → Option (Reign N E)) : Extends reign reign :=
  fun _ r h => ⟨r, h, .refl r⟩

theorem Extends.trans {a b c : Nat → Option (Reign N E)} (h : Extends a b) (g : Extends b c) :
    Extends a c := by
  intro t r hr
  obtain ⟨r', hr', grows⟩ := h t r hr
  obtain ⟨r'', hr'', grows'⟩ := g t r' hr'
  exact ⟨r'', hr'', grows.trans grows'⟩

theorem extends_update {reign : Nat → Option (Reign N E)} {t : Nat} {r' : Reign N E}
    (grows : ∀ r, reign t = some r → r.Grows r') :
    Extends reign (Function.update reign t (some r')) := by
  intro u r hr
  by_cases same : u = t
  · subst same
    exact ⟨r', by simp, grows r hr⟩
  · exact ⟨r, by simpa [same] using hr, .refl r⟩

theorem reign_update {reign : Nat → Option (Reign N E)} {t u : Nat} {r r' : Reign N E}
    (h : Function.update reign t (some r') u = some r) :
    (u = t ∧ r = r') ∨ (u ≠ t ∧ reign u = some r) := by
  by_cases same : u = t
  · subst same
    rw [Function.update_self] at h
    exact .inl ⟨rfl, (Option.some.inj h).symm⟩
  · rw [Function.update_of_ne same] at h
    exact .inr ⟨same, h⟩

def lastLabel (label : E → Nat) (l : List E) : Nat := (l.getLast?.map label).getD 0

theorem lastLabel_eq {l : List E} {e : E} (last : l[l.length - 1]? = some e) :
    lastLabel label l = label e := by
  rw [lastLabel, List.getLast?_eq_getElem?, last]
  rfl

structure Traced (label : E → Nat) (origin : E) (reign : Nat → Option (Reign N E))
    (l : List E) : Prop where
  head : l.take 1 = [origin]
  entry : ∀ i e, 0 < i → l[i]? = some e →
    ∃ r, reign (label e) = some r ∧ l.take (i + 1) = r.log.take (i + 1)

variable {reign reign' : Nat → Option (Reign N E)} {l l' : List E}

theorem Traced.length_pos (h : Traced label origin reign l) : 0 < l.length := by
  cases l with
  | nil => cases h.head
  | cons e rest => exact Nat.succ_pos _

theorem getElem?_of_take_eq {i : Nat} {e : E} (at_i : l[i]? = some e)
    (same : l.take (i + 1) = l'.take (i + 1)) : l'[i]? = some e := by
  have h : (l.take (i + 1))[i]? = some e := by
    rw [List.getElem?_take_of_lt (Nat.lt_succ_self i), at_i]
  rw [same, List.getElem?_take_of_lt (Nat.lt_succ_self i)] at h
  exact h

theorem Traced.extend (h : Traced label origin reign l) (grown : Extends reign reign') :
    Traced label origin reign' l := by
  refine ⟨h.head, ?_⟩
  intro i e positive at_i
  obtain ⟨r, hr, same⟩ := h.entry i e positive at_i
  obtain ⟨r', hr', grows⟩ := grown _ r hr
  have inside := (List.getElem?_eq_some_iff.mp (getElem?_of_take_eq at_i same)).1
  exact ⟨r', hr', same.trans (grows.take (Nat.succ_le_of_lt inside)).symm⟩

theorem Traced.take (h : Traced label origin reign l) {k : Nat} (positive : 0 < k) :
    Traced label origin reign (l.take k) := by
  constructor
  · rw [List.take_take, Nat.min_eq_left (Nat.succ_le_of_lt positive), h.head]
  · intro i e hi at_i
    have small : i < k := by
      have := (List.getElem?_eq_some_iff.mp at_i).1
      rw [List.length_take] at this
      omega
    rw [List.getElem?_take_of_lt small] at at_i
    obtain ⟨r, hr, same⟩ := h.entry i e hi at_i
    refine ⟨r, hr, ?_⟩
    rw [List.take_take, Nat.min_eq_left (Nat.succ_le_of_lt small), same]

theorem Traced.snoc (h : Traced label origin reign l) {e : E} {r : Reign N E}
    (rules : reign (label e) = some r) (same : l ++ [e] = r.log.take (l.length + 1)) :
    Traced label origin reign (l ++ [e]) := by
  constructor
  · rw [List.take_append_of_le_length (Nat.succ_le_of_lt h.length_pos), h.head]
  · intro i d positive at_i
    have bound := (List.getElem?_eq_some_iff.mp at_i).1
    rw [List.length_append, List.length_singleton] at bound
    by_cases old : i < l.length
    · rw [List.getElem?_append_left old] at at_i
      obtain ⟨r', hr', eq⟩ := h.entry i d positive at_i
      exact ⟨r', hr', by rw [List.take_append_of_le_length (Nat.succ_le_of_lt old), eq]⟩
    · have last : i = l.length := by omega
      subst last
      have eq : e = d := by simpa using at_i
      subst eq
      refine ⟨r, rules, ?_⟩
      rw [← same]
      exact List.take_of_length_le (by simp)

/-- Log matching: equal labels at one index make the logs equal up to it. -/
theorem Traced.matching (h : Traced label origin reign l) (h' : Traced label origin reign l')
    {i : Nat} {e e' : E} (at_i : l[i]? = some e) (at_i' : l'[i]? = some e')
    (same : label e = label e') : l.take (i + 1) = l'.take (i + 1) := by
  cases i with
  | zero => exact h.head.trans h'.head.symm
  | succ i =>
    obtain ⟨r, hr, eq⟩ := h.entry _ e (Nat.succ_pos i) at_i
    obtain ⟨r', hr', eq'⟩ := h'.entry _ e' (Nat.succ_pos i) at_i'
    rw [same, hr'] at hr
    cases hr
    exact eq.trans eq'.symm

/-- What the reign of a term may hold: older entries first, then its own. -/
structure Reign.Proper (label : E → Nat) (origin : E) (reign : Nat → Option (Reign N E))
    (t : Nat) (r : Reign N E) : Prop where
  positive : 0 < t
  traced : Traced label origin reign r.log
  nonempty : 0 < r.base.length
  older : ∀ e ∈ r.base, label e < t
  own : ∀ e ∈ r.added, label e = t

theorem Reign.Proper.label_le {t : Nat} {r : Reign N E} (h : r.Proper label origin reign t)
    {e : E} (member : e ∈ r.log) : label e ≤ t := by
  rcases List.mem_append.mp member with old | new
  · exact Nat.le_of_lt (h.older e old)
  · exact Nat.le_of_eq (h.own e new)

theorem Reign.Proper.extend {t : Nat} {r : Reign N E} (h : r.Proper label origin reign t)
    (grown : Extends reign reign') : r.Proper label origin reign' t :=
  ⟨h.positive, h.traced.extend grown, h.nonempty, h.older, h.own⟩

/-- Behind the base every entry carries the term of the reign, and only there. -/
theorem Reign.Proper.label_eq_iff {t : Nat} {r : Reign N E} (h : r.Proper label origin reign t)
    {i : Nat} {e : E} (at_i : r.log[i]? = some e) : label e = t ↔ r.base.length ≤ i := by
  by_cases old : i < r.base.length
  · have member : e ∈ r.base := by
      rw [Reign.log, List.getElem?_append_left old] at at_i
      exact List.mem_of_getElem? at_i
    have below := h.older e member
    omega
  · have member : e ∈ r.added := by
      rw [Reign.log, List.getElem?_append_right (Nat.le_of_not_lt old)] at at_i
      exact List.mem_of_getElem? at_i
    exact ⟨fun _ => Nat.le_of_not_lt old, fun _ => h.own e member⟩

variable (proper : ∀ t r, reign t = some r → r.Proper label origin reign t)
include proper

theorem Traced.label_mono (h : Traced label origin reign l) {i j : Nat} {e d : E}
    (le : j ≤ i) (at_i : l[i]? = some e) (at_j : l[j]? = some d) : label d ≤ label e := by
  cases i with
  | zero =>
    have eq : j = 0 := Nat.le_zero.mp le
    subst eq
    rw [at_i] at at_j
    cases at_j
    exact Nat.le_refl _
  | succ i =>
    obtain ⟨r, hr, same⟩ := h.entry _ e (Nat.succ_pos i) at_i
    have member : d ∈ r.log := by
      apply List.mem_of_mem_take (i := i + 2)
      rw [← same]
      apply List.mem_of_getElem? (i := j)
      rw [List.getElem?_take_of_lt (Nat.lt_succ_of_le le), at_j]
    exact (proper _ r hr).label_le member

theorem Traced.label_le_last (h : Traced label origin reign l) {j : Nat} {d : E}
    (at_j : l[j]? = some d) : label d ≤ lastLabel label l := by
  have inside := (List.getElem?_eq_some_iff.mp at_j).1
  have last : l[l.length - 1]? = some l[l.length - 1] := List.getElem?_eq_getElem (by omega)
  rw [lastLabel_eq last]
  exact h.label_mono proper (by omega) last at_j

/-- A traced log that ends in the term of a reign is a prefix of it and holds its base. -/
theorem Traced.ends_in (h : Traced label origin reign l) {t : Nat}
    (positive : 0 < t) (ends : lastLabel label l = t) (zero : label origin = 0) :
    ∃ r, reign t = some r ∧ l = r.log.take l.length ∧ l.length ≤ r.log.length ∧
      r.base.length < l.length := by
  have inside := h.length_pos
  have last : l[l.length - 1]? = some l[l.length - 1] := List.getElem?_eq_getElem (by omega)
  rw [lastLabel_eq last] at ends
  have behind : 0 < l.length - 1 := by
    by_contra first
    have eq : l.length = 1 := by omega
    have head := h.head
    rw [← eq, List.take_length] at head
    simp [head, zero] at ends
    omega
  obtain ⟨r, hr, same⟩ := h.entry _ _ behind last
  rw [ends] at hr
  have step : l.length - 1 + 1 = l.length := by omega
  have there := getElem?_of_take_eq last same
  rw [step, List.take_length] at same
  have bound := (List.getElem?_eq_some_iff.mp there).1
  have own := ((proper t r hr).label_eq_iff there).mp ends
  exact ⟨r, hr, same, by omega, by omega⟩

end DistSys.Lib
