import DistSys.Lib.Chronicle

/-! Chosen entries last. A node that has acknowledged a prefix either still holds it or has
given it up to a later reign that started without it; so does its vote. The first reign
behind a chosen prefix that started without it would have been elected by a majority that
meets the majority of acknowledgements, and the common node rules it out. -/
namespace DistSys.Lib.Chronicle

open Function (update)

variable {N E : Type} {label : E → Nat} {origin : E} {m m' : Chronicle N E}

/-- Some reign behind `t` and before `u` started without the prefix. -/
def Lost (m : Chronicle N E) (t u : Nat) (front : List E) : Prop :=
  ∃ t' r', t < t' ∧ t' < u ∧ m.reign t' = some r' ∧ ¬ front <+: r'.base

theorem Lost.mono (grown : Extends m.reign m'.reign) {t u u' : Nat} {front : List E} (le : u ≤ u')
    (h : m.Lost t u front) : m'.Lost t u' front := by
  obtain ⟨t', r', after, before, hr', without⟩ := h
  obtain ⟨r'', hr'', grows⟩ := grown t' r' hr'
  exact ⟨t', r'', after, Nat.lt_of_lt_of_le before le, hr'', by rwa [grows.base]⟩

structure Held (m : Chronicle N E) (v : N) (t k : Nat) (r : Reign N E) : Prop where
  rules : m.reign t = some r
  fits : k ≤ r.log.length
  late : t ≤ m.term v
  holds : r.log.take k <+: m.log v ∨ m.Lost t (m.term v + 1) (r.log.take k)

structure Faithful [Fintype N] (label : E → Nat) (m : Chronicle N E) : Prop where
  acks : ∀ v t k, m.acked v t k → ∃ r, m.Held v t k r
  pledges : ∀ v u last length, m.pledged v u last length → u ≤ m.term v ∧
    ∀ t k r, t < u → m.acked v t k → m.reign t = some r → r.base.length < k →
      (t < last ∨ (t = last ∧ k ≤ length)) ∨ m.Lost t u (r.log.take k)
  voters : ∀ u r, m.reign u = some r → Majority r.voters ∧
    ∀ v ∈ r.voters, m.pledged v u (lastLabel label r.base) r.base.length
  leader : ∀ t r k, m.reign t = some r → r.base.length < k → k ≤ r.log.length →
    m.acked r.leader t k

theorem Held.mono {v : N} {t k : Nat} {r : Reign N E} (h : m.Held v t k r) (below : Below m m')
    (same : m'.log v = m.log v) : ∃ r', m'.Held v t k r' := by
  obtain ⟨r', hr', grows⟩ := below.reign t r h.rules
  have eq := grows.take h.fits
  refine ⟨r', hr', Nat.le_trans h.fits grows.log.length_le, Nat.le_trans h.late (below.term v), ?_⟩
  rw [eq, same]
  exact h.holds.imp id (Lost.mono below.reign (Nat.succ_le_succ (below.term v)))

section

variable [Fintype N]

/-- A pledge stays fair: its voter has passed every older term, so no acknowledgement of
an older term is new. -/
theorem Faithful.pledge_mono (h : Faithful label m) (below : Below m m')
    (recent : ∀ v t k, m'.acked v t k → m.acked v t k ∨ m.term v ≤ t)
    {v : N} {u last length : Nat} (given : m.pledged v u last length) :
    u ≤ m'.term v ∧ ∀ t k r, t < u → m'.acked v t k → m'.reign t = some r → r.base.length < k →
      (t < last ∨ (t = last ∧ k ≤ length)) ∨ m'.Lost t u (r.log.take k) := by
  have old := h.pledges v u last length given
  refine ⟨Nat.le_trans old.1 (below.term v), ?_⟩
  intro t k r before acked hr behind
  rcases recent v t k acked with acked | late
  · obtain ⟨r', held⟩ := h.acks v t k acked
    obtain ⟨r'', hr'', grows⟩ := below.reign t r' held.rules
    rw [hr] at hr''
    cases hr''
    have fair := old.2 t k r' before acked held.rules (by rwa [← grows.base])
    rw [grows.take held.fits]
    exact fair.imp id (Lost.mono below.reign (Nat.le_refl u))
  · omega

end

/-- A voter whose log is not ahead of the pledged one pledges for all it holds. -/
theorem pledge_fair (coherent : Coherent label origin m)
    {v : N} {t k last length : Nat} {r : Reign N E} (held : m.Held v t k r)
    (fair : UpToDate label (m.log v) last length) (vacant : m.reign (m.term v) = none)
    (behind : r.base.length < k) :
    (t < last ∨ (t = last ∧ k ≤ length)) ∨ m.Lost t (m.term v) (r.log.take k) := by
  rcases held.holds with front | ⟨t', r', after, before, hr', without⟩
  · left
    have inside : k - 1 < r.log.length := by have := held.fits; omega
    have at_k : r.log[k - 1]? = some r.log[k - 1] := List.getElem?_eq_getElem inside
    have own : label r.log[k - 1] = t :=
      ((coherent.proper t r held.rules).label_eq_iff at_k).mpr (by omega)
    have size : (r.log.take k).length = k := List.length_take_of_le held.fits
    have there : (m.log v)[k - 1]? = some r.log[k - 1] := by
      obtain ⟨rest, eq⟩ := front
      rw [← eq, List.getElem?_append_left (by omega), List.getElem?_take_of_lt (by omega), at_k]
    have above := (coherent.traced v).label_le_last coherent.proper there
    have longer := front.length_le
    rw [own] at above
    rcases fair with more | ⟨same, long⟩ <;> omega
  · right
    refine ⟨t', r', after, ?_, hr', without⟩
    have distinct : t' ≠ m.term v := by
      intro eq
      rw [eq, vacant] at hr'
      cases hr'
    omega

/-- What a node stores from a later reign keeps every prefix that reign started with. -/
theorem store_keeps {v : N} {r : Reign N E} {k : Nat} {front : List E}
    (conflict : (m.log v).length ≤ k ∨ ¬ r.log.take k <+: m.log v)
    (held : front <+: m.log v) (there : front <+: r.log) : front <+: r.log.take k := by
  by_cases short : front.length ≤ k
  · exact List.prefix_take_iff.mpr ⟨there, short⟩
  · have inner : r.log.take k <+: front :=
      List.prefix_of_prefix_length_le (List.take_prefix _ _) there
        (by rw [List.length_take]; omega)
    rcases conflict with long | different
    · have := held.length_le
      omega
    · exact False.elim (different (inner.trans held))

variable [Fintype N]

/-- A majority has acknowledged the first `k` entries of the reign of `t`, and the last of
them is its own. -/
structure Chosen (m : Chronicle N E) (t k : Nat) (r : Reign N E) : Prop where
  rules : m.reign t = some r
  behind : r.base.length < k
  fits : k ≤ r.log.length
  major : ∃ s : Finset N, Majority s ∧ ∀ v ∈ s, m.acked v t k

theorem Chosen.mono {t k : Nat} {r : Reign N E} (h : m.Chosen t k r) (below : Below m m') :
    ∃ r', m'.Chosen t k r' ∧ r'.log.take k = r.log.take k := by
  obtain ⟨r', hr', grows⟩ := below.reign t r h.rules
  obtain ⟨s, major, acks⟩ := h.major
  exact ⟨r', ⟨hr', by rw [grows.base]; exact h.behind, Nat.le_trans h.fits grows.log.length_le,
    s, major, fun v hv => below.acked v t k (acks v hv)⟩, grows.take h.fits⟩

theorem Faithful.acks_mono (h : Faithful label m) (below : Below m m')
    (log : m'.log = m.log) {v : N} {t k : Nat} (acked : m.acked v t k) : ∃ r, m'.Held v t k r := by
  obtain ⟨r, held⟩ := h.acks v t k acked
  exact held.mono below (congrFun log v)

theorem Faithful.addPledge (h : Faithful label m) (coherent : Coherent label origin m) {v : N}
    {last length : Nat} (below : Below m (m.addPledge v last length))
    (vacant : m.reign (m.term v) = none) (fair : UpToDate label (m.log v) last length) :
    Faithful label (m.addPledge v last length) := by
  refine ⟨fun _ _ _ acked => h.acks_mono below rfl acked, ?_, ?_, h.leader⟩
  · rintro u t a b (given | ⟨rfl, rfl, rfl, rfl⟩)
    · exact h.pledge_mono below (fun _ _ _ acked => .inl acked) given
    · refine ⟨Nat.le_refl _, ?_⟩
      intro t k r before acked hr behind
      obtain ⟨r', held⟩ := h.acks u t k acked
      have eq : r' = r := Option.some.inj (held.rules.symm.trans hr)
      subst eq
      exact pledge_fair coherent held fair vacant behind
  · intro u r hr
    have old := h.voters u r hr
    exact ⟨old.1, fun w hw => .inl (old.2 w hw)⟩

theorem Faithful.addReign (h : Faithful label m) {v : N} {voters : Finset N}
    (below : Below m (m.addReign v voters)) (major : Majority voters)
    (votes : ∀ u ∈ voters, m.pledged u (m.term v) (lastLabel label (m.log v)) (m.log v).length) :
    Faithful label (m.addReign v voters) := by
  refine ⟨fun _ _ _ acked => h.acks_mono below rfl acked,
    fun _ _ _ _ given => h.pledge_mono below (fun _ _ _ acked => .inl acked) given, ?_, ?_⟩
  · intro t r hr
    rcases reign_update hr with ⟨rfl, rfl⟩ | ⟨_, old⟩
    · exact ⟨major, votes⟩
    · exact h.voters t r old
  · intro t r k hr behind fits
    rcases reign_update hr with ⟨rfl, rfl⟩ | ⟨_, old⟩
    · simp only [Reign.log, List.append_nil] at fits behind
      omega
    · exact h.leader t r k old behind fits

variable [DecidableEq N]

theorem Faithful.setTerm (h : Faithful label m) {v : N} {t : Nat} (below : Below m (m.setTerm v t)) :
    Faithful label (m.setTerm v t) :=
  ⟨fun _ _ _ acked => h.acks_mono below rfl acked,
    fun _ _ _ _ given => h.pledge_mono below (fun _ _ _ acked => .inl acked) given,
    h.voters, h.leader⟩

/-- What the leader appends it has stored itself; its log holds all that it held before. -/
theorem Faithful.addEntry (h : Faithful label m) (coherent : Coherent label origin m) {v : N}
    {r : Reign N E} {e : E} (below : Below m (m.addEntry v r e))
    (rules : m.reign (m.term v) = some r) (office : r.leader = v) :
    Faithful label (m.addEntry v r e) := by
  have own : m.log v = r.log := office ▸ (coherent.office _ r rules).2 (office ▸ rfl)
  have recent : ∀ u t k, (m.addEntry v r e).acked u t k → m.acked u t k ∨ m.term u ≤ t := by
    rintro u t k (old | ⟨rfl, rfl, _⟩)
    · exact .inl old
    · exact .inr (Nat.le_refl _)
  have rules' : (m.addEntry v r e).reign (m.term v) = some { r with added := r.added ++ [e] } := by
    simp [Chronicle.addEntry]
  have size : (Reign.log { r with added := r.added ++ [e] }).length = (m.log v).length + 1 := by
    rw [own]
    simp [Reign.log]
    omega
  have mine : (m.addEntry v r e).log v = Reign.log { r with added := r.added ++ [e] } := by
    simp [Chronicle.addEntry, own, Reign.log]
  refine ⟨?_, fun _ _ _ _ given => h.pledge_mono below recent given, ?_, ?_⟩
  · rintro u t k (old | ⟨rfl, rfl, fits⟩)
    · obtain ⟨r', held⟩ := h.acks u t k old
      by_cases same : u = v
      · subst same
        obtain ⟨r'', hr'', grows⟩ := below.reign t r' held.rules
        refine ⟨r'', hr'', Nat.le_trans held.fits grows.log.length_le, held.late, ?_⟩
        rw [grows.take held.fits]
        refine held.holds.imp ?_ (Lost.mono below.reign (Nat.le_refl _))
        intro front
        simp only [Chronicle.addEntry, Function.update_self]
        exact front.trans (List.prefix_append _ _)
      · exact held.mono below (by simp [Chronicle.addEntry, same])
    · refine ⟨_, rules', by omega, Nat.le_refl _, .inl ?_⟩
      rw [mine]
      exact List.take_prefix _ _
  · intro t r' hr
    rcases reign_update hr with ⟨rfl, rfl⟩ | ⟨_, old⟩
    · exact h.voters _ r rules
    · exact h.voters t r' old
  · intro t r' k hr behind fits
    rcases reign_update hr with ⟨rfl, rfl⟩ | ⟨_, old⟩
    · exact .inr ⟨office, rfl, by omega⟩
    · exact .inl (h.leader t r' k old behind fits)

omit [Fintype N] in
/-- A prefix that a node gives up while it stores is missing in the reign it stores from, and
that reign is a later one. -/
theorem Held.store {v : N} {r : Reign N E} {k : Nat} (rules : m.reign (m.term v) = some r)
    (conflict : (m.log v).length ≤ k ∨ ¬ r.log.take k <+: m.log v) {t j : Nat} {r' : Reign N E}
    (held : m.Held v t j r') : (m.store v r k).Held v t j r' := by
  refine ⟨held.rules, held.fits, held.late, ?_⟩
  rcases held.holds with front | lost
  · by_cases there : r'.log.take j <+: r.log
    · left
      simp only [Chronicle.store, Function.update_self]
      exact store_keeps conflict front there
    · right
      have apart : t ≠ m.term v := by
        rintro rfl
        have eq : r' = r := Option.some.inj (held.rules.symm.trans rules)
        subst eq
        exact there (List.take_prefix _ _)
      have late := held.late
      exact ⟨m.term v, r, by omega, Nat.lt_succ_self _, rules,
        fun start => there (start.trans r.base_front)⟩
  · exact .inr lost

theorem Faithful.store (h : Faithful label m) {v : N} {r : Reign N E} {k : Nat}
    (below : Below m (m.store v r k)) (rules : m.reign (m.term v) = some r)
    (fits : k ≤ r.log.length) (conflict : (m.log v).length ≤ k ∨ ¬ r.log.take k <+: m.log v) :
    Faithful label (m.store v r k) := by
  have recent : ∀ u t j, (m.store v r k).acked u t j → m.acked u t j ∨ m.term u ≤ t := by
    rintro u t j (old | ⟨rfl, rfl, _⟩)
    · exact .inl old
    · exact .inr (Nat.le_refl _)
  refine ⟨?_, fun _ _ _ _ given => h.pledge_mono below recent given, h.voters,
    fun t r' j hr behind inside => .inl (h.leader t r' j hr behind inside)⟩
  rintro u t j (old | ⟨rfl, rfl, shorter⟩)
  · obtain ⟨r', held⟩ := h.acks u t j old
    by_cases same : u = v
    · subst same
      exact ⟨r', held.store rules conflict⟩
    · exact held.mono below (by simp [Chronicle.store, same])
  · refine ⟨r, rules, by omega, Nat.le_refl _, .inl ?_⟩
    simp only [Chronicle.store, Function.update_self]
    exact List.prefix_take_iff.mpr ⟨List.take_prefix _ _, by rw [List.length_take]; omega⟩

theorem Faithful.step (coherent : Coherent label origin m) (h : Faithful label m)
    (step : Step label True m m') : Faithful label m' := by
  have below := step.below
  cases step with
  | advance v t later => exact h.setTerm below
  | pledge v last length vacant fair => exact h.addPledge coherent below vacant (fair trivial)
  | crown v voters vacant positive major votes => exact h.addReign below major votes
  | append v r e rules office current => exact h.addEntry coherent below rules office
  | accept v r k rules other positive fits conflict =>
    exact h.store below rules fits (conflict trivial)

/-- Leader completeness: every later reign starts with the chosen prefix. -/
theorem Chosen.complete (zero : label origin = 0) (coherent : Coherent label origin m)
    (faithful : Faithful label m) {t k : Nat} {r : Reign N E} (chosen : m.Chosen t k r) :
    ∀ u r', m.reign u = some r' → t < u → r.log.take k <+: r'.base := by
  intro u
  induction u using Nat.strong_induction_on with
  | _ u ih =>
    intro r' hr' later
    obtain ⟨s, major, acks⟩ := chosen.major
    obtain ⟨majority, pledges⟩ := faithful.voters u r' hr'
    obtain ⟨v, hs, hv⟩ := major.common majority
    have size : (r.log.take k).length = k := List.length_take_of_le chosen.fits
    have proper := coherent.proper u r' hr'
    have traced : Traced label origin m.reign r'.base := by
      have h := proper.traced.take proper.nonempty
      rwa [Reign.log, List.take_left] at h
    have positive := (coherent.proper t r chosen.rules).positive
    rcases (faithful.pledges v u _ _ (pledges v hv)).2 t k r later (acks v hs) chosen.rules
      chosen.behind with ahead | ⟨t', r'', after, before, hr'', without⟩
    · rcases ahead with newer | ⟨same, long⟩
      · -- the base ends in a reign between the two, and holds all that reign started with
        obtain ⟨r'', hr'', eq, _, more⟩ := traced.ends_in coherent.proper
          (by omega : 0 < lastLabel label r'.base) rfl zero
        have before : lastLabel label r'.base < u := by
          have inside := proper.nonempty
          have last : r'.base[r'.base.length - 1]? = some r'.base[r'.base.length - 1] :=
            List.getElem?_eq_getElem (by omega)
          rw [lastLabel_eq last]
          exact proper.older _ (List.getElem_mem _)
        have front := ih _ before r'' hr'' newer
        have whole : r''.base <+: r'.base := by
          rw [eq]
          exact List.prefix_take_iff.mpr ⟨r''.base_front, Nat.le_of_lt more⟩
        exact front.trans whole
      · -- the base ends in the reign of t itself, and is long enough
        obtain ⟨r'', hr'', eq, _, _⟩ := traced.ends_in coherent.proper positive same.symm zero
        rw [chosen.rules] at hr''
        cases hr''
        rw [eq]
        exact List.prefix_take_iff.mpr ⟨List.take_prefix _ _, by omega⟩
    · exact False.elim (without (ih t' before r'' hr'' after))

theorem Chosen.later (zero : label origin = 0) (coherent : Coherent label origin m)
    (faithful : Faithful label m) {t k u : Nat} {r r' : Reign N E} (chosen : m.Chosen t k r)
    (rules : m.reign u = some r') (le : t ≤ u) : r.log.take k <+: r'.log := by
  rcases Nat.lt_or_eq_of_le le with lt | rfl
  · exact (chosen.complete zero coherent faithful u r' rules lt).trans r'.base_front
  · rw [chosen.rules] at rules
    cases rules
    exact List.take_prefix _ _

/-- Whoever acknowledged a chosen prefix still has it. -/
theorem Chosen.held (zero : label origin = 0) (coherent : Coherent label origin m)
    (faithful : Faithful label m) {t k : Nat} {r : Reign N E} (chosen : m.Chosen t k r) :
    ∃ s : Finset N, Majority s ∧ ∀ v ∈ s, r.log.take k <+: m.log v := by
  obtain ⟨s, major, acks⟩ := chosen.major
  refine ⟨s, major, ?_⟩
  intro v member
  obtain ⟨r', held⟩ := faithful.acks v t k (acks v member)
  cases Option.some.inj (held.rules.symm.trans chosen.rules)
  rcases held.holds with front | ⟨t', r'', after, _, hr'', without⟩
  · exact front
  · exact absurd (chosen.complete zero coherent faithful t' r'' hr'' after) without

omit [DecidableEq N] in
theorem faithful_new : Faithful label (new origin : Chronicle N E) :=
  ⟨nofun, nofun, nofun, nofun⟩

theorem Faithful.steps (zero : label origin = 0) (coherent : Coherent label origin m)
    (h : Faithful label m) (steps : Steps label True m m') : Faithful label m' := by
  induction steps with
  | refl => exact h
  | tail before step ih => exact ih.step (coherent.steps zero before) step

/-! ### Settled lists -/

/-- The list starts a prefix that was chosen in a reign up to `u`. The origin alone needs
no choice. -/
def Settled (origin : E) (m : Chronicle N E) (u : Nat) (front : List E) : Prop :=
  front = [origin] ∨ ∃ t k r, t ≤ u ∧ m.Chosen t k r ∧ front <+: r.log.take k

section

omit [DecidableEq N]

theorem Settled.mono {u u' : Nat} {front : List E} (h : Settled origin m u front)
    (below : Below m m') (le : u ≤ u') : Settled origin m' u' front := by
  rcases h with only | ⟨t, k, r, early, chosen, start⟩
  · exact .inl only
  · obtain ⟨r', chosen', same⟩ := chosen.mono below
    exact .inr ⟨t, k, r', Nat.le_trans early le, chosen', by rwa [same]⟩

theorem Settled.shorten {u : Nat} {front shorter : List E} (h : Settled origin m u front)
    (start : shorter <+: front) (positive : 0 < shorter.length) : Settled origin m u shorter := by
  rcases h with rfl | ⟨t, k, r, early, chosen, whole⟩
  · exact .inl (start.eq_of_length_le positive)
  · exact .inr ⟨t, k, r, early, chosen, start.trans whole⟩

end

variable (zero : label origin = 0) (coherent : Coherent label origin m)
  (faithful : Faithful label m)
include zero coherent faithful

theorem Settled.complete {u u' : Nat} {front : List E} {r : Reign N E}
    (h : Settled origin m u front) (rules : m.reign u' = some r) (later : u < u') :
    front <+: r.base := by
  rcases h with rfl | ⟨t, k, r', early, chosen, start⟩
  · have proper := coherent.proper u' r rules
    have head := proper.traced.head
    rw [Reign.log, List.take_append_of_le_length (Nat.succ_le_of_lt proper.nonempty)] at head
    rw [← head]
    exact List.take_prefix _ _
  · exact start.trans (chosen.complete zero coherent faithful u' r rules (by omega))

theorem Settled.later {u u' : Nat} {front : List E} {r : Reign N E}
    (h : Settled origin m u front) (rules : m.reign u' = some r) (le : u ≤ u') :
    front <+: r.log := by
  rcases h with rfl | ⟨t, k, r', early, chosen, start⟩
  · rw [← (coherent.proper u' r rules).traced.head]
    exact List.take_prefix _ _
  · exact start.trans (chosen.later zero coherent faithful rules (by omega))

theorem Settled.agree {u u' : Nat} {front front' : List E} (h : Settled origin m u front)
    (h' : Settled origin m u' front') : front <+: front' ∨ front' <+: front := by
  have ordered : ∀ {t k t' k' : Nat} {r r' : Reign N E} {l l' : List E}, m.Chosen t k r →
      l <+: r.log.take k → m.Chosen t' k' r' → l' <+: r'.log.take k' → t ≤ t' →
      l <+: l' ∨ l' <+: l := by
    intro t k t' k' r r' l l' chosen start chosen' start' le
    exact List.prefix_or_prefix_of_prefix
      (start.trans (chosen.later zero coherent faithful chosen'.rules le))
      (start'.trans (List.take_prefix _ _))
  have origin_front : ∀ {t k : Nat} {r : Reign N E} {l : List E}, m.Chosen t k r →
      l <+: r.log.take k → [origin] <+: l ∨ l <+: [origin] := by
    intro t k r l chosen start
    have head : Settled origin m t [origin] := .inl rfl
    exact List.prefix_or_prefix_of_prefix (head.later zero coherent faithful chosen.rules le_rfl)
      (start.trans (List.take_prefix _ _))
  rcases h with rfl | ⟨t, k, r, _, chosen, start⟩
  · rcases h' with rfl | ⟨t', k', r', _, chosen', start'⟩
    · exact .inl List.prefix_rfl
    · exact origin_front chosen' start'
  · rcases h' with rfl | ⟨t', k', r', _, chosen', start'⟩
    · exact (origin_front chosen start).symm
    · rcases Nat.le_total t t' with le | le
      · exact ordered chosen start chosen' start' le
      · exact (ordered chosen' start' chosen start le).symm

end DistSys.Lib.Chronicle
