import DistSys.Store.Clients
import DistSys.Store.Counts

/-! What the lines of a client are parsed to, which of them end the process, and that nothing else
does. -/
namespace DistSys.Store

open DistSys.Lib

variable {s s' : KeyValueServer} {a : Action} {c : Conn} {text : Bytes} {store : Impl}

/-! ### The fields of a line -/

/-- The line end that `ReadBytes` leaves is taken off, and nothing else. -/
theorem trim_line (whole : newline ∉ text) : trim (text ++ [newline]) = text := by
  have kept : ∀ b ∈ text, ¬ (b == newline) = true := by
    intro b member same
    exact whole (beq_iff_eq.mp same ▸ member)
  cases text with
  | nil => rfl
  | cons b rest =>
    have front : (b :: rest ++ [newline]).dropWhile (· == newline) = b :: rest ++ [newline] := by
      simp [kept b List.mem_cons_self]
    have back := List.rdropWhile_concat_pos (· == newline) (b :: rest) newline
      (beq_self_eq_true newline)
    rw [trim, front, back, List.rdropWhile_eq_self_iff]
    intro some
    exact kept _ (List.getLast_mem some)

/-- A text has one field more than it has colons. -/
theorem splitOn_colon (text : Bytes) :
    ∃ rest, text.splitOn colon = text.takeWhile (· != colon) :: rest ∧
      rest.length = text.count colon := by
  induction text with
  | nil => exact ⟨[], rfl, rfl⟩
  | cons b text ih =>
    obtain ⟨rest, fields, length⟩ := ih
    rw [List.splitOn_cons_eq_if_modifyHead, fields]
    by_cases same : b = colon
    · exact ⟨text.takeWhile (· != colon) :: rest, by simp [same], by simp [same, length]⟩
    · exact ⟨rest, by simp [same], by simp [same, length]⟩

/-- Neither a colon nor a line end is in the field. -/
abbrev Plain (field : Bytes) : Prop := colon ∉ field ∧ newline ∉ field

/-- The fields of one line, joined as a client sends them. -/
def line (fields : List Bytes) : Bytes := [colon].intercalate fields

theorem newline_line {fields : List Bytes} (plain : ∀ field ∈ fields, Plain field) :
    newline ∉ line fields := by
  induction fields with
  | nil => exact List.not_mem_nil
  | cons field rest ih =>
    obtain ⟨⟨_, first⟩, plain⟩ := List.forall_mem_cons.mp plain
    cases rest with
    | nil => simpa [line] using first
    | cons next rest =>
      have later := ih plain
      have apart : newline ≠ colon := by decide
      simp only [line, List.intercalate_cons_cons] at later ⊢
      simp [first, later, apart]

/-- `readRoutine` finds the fields that were joined. -/
theorem splitOn_line {command : Bytes} {values : List Bytes} (letters : Plain command)
    (plain : ∀ field ∈ values, Plain field) :
    (trim (line (command :: values) ++ [newline])).splitOn colon = command :: values := by
  have all : ∀ field ∈ command :: values, Plain field := List.forall_mem_cons.mpr ⟨letters, plain⟩
  rw [trim_line (newline_line all)]
  exact List.splitOn_intercalate colon (fun field member => (all field member).1)
    (List.cons_ne_nil _ _)

/-! ### Which lines are parsed -/

/-- The number of fields that `readRoutine` takes the request from, by the first of them. -/
def fieldsOf (requestType : Bytes) : Nat :=
  if requestType = word ['P', 'u', 't'] then 3
  else if requestType = word ['G', 'e', 't'] then 2
  else if requestType = word ['D', 'e', 'l', 'e', 't', 'e'] then 2
  else if requestType = word ['U', 'p', 'd', 'a', 't', 'e'] then 4
  else 1

/-- The line has as many fields as its command takes. -/
def complete (text : Bytes) : Bool :=
  fieldsOf (text.takeWhile (· != colon)) ≤ text.count colon + 1

theorem parseRequest_fields {request requestType : Bytes} {rest : List Bytes}
    (fields : (trim request).splitOn colon = requestType :: rest) :
    (parseRequest c request).isSome = true ↔ fieldsOf requestType ≤ rest.length + 1 := by
  simp only [parseRequest, fields, fieldsOf, Option.bind_eq_bind, Option.pure_def,
    List.getElem?_cons_zero, List.getElem?_cons_succ, Option.bind_some]
  split_ifs
  all_goals
    cases rest with
    | nil => simp
    | cons key rest =>
      cases rest with
      | nil => simp
      | cons value rest => cases rest <;> simp

/-- A line is parsed exactly when it has the fields that its command takes. -/
theorem parseRequest_isSome (whole : newline ∉ text) :
    (parseRequest c (text ++ [newline])).isSome = true ↔ complete text = true := by
  obtain ⟨rest, fields, length⟩ := splitOn_colon text
  rw [← trim_line whole] at fields
  rw [parseRequest_fields fields, complete, decide_eq_true_iff, length, trim_line whole]

/-! ### What ends the process -/

/-- The lines of the clients have the fields that their commands take. -/
def completeLines (_ : KeyValueServer) : Action → Bool
  | .line _ text => complete text
  | _ => true

theorem panicked_line (full : complete text = true) (taken : step s (.line c text) = some s') :
    s'.panicked = s.panicked := by
  simp only [step, Option.ite_none_left_eq_some, Option.bind_eq_bind, Option.bind_eq_some_iff,
    Option.ite_none_right_eq_some] at taken
  obtain ⟨_, cl, found, ⟨here, whole⟩, taken⟩ := taken
  obtain ⟨made, parsed⟩ := Option.isSome_iff_exists.mp ((parseRequest_isSome whole).mpr full)
  rw [parsed] at taken
  cases made with
  | none | some r =>
    cases Option.some.inj taken
    rfl

theorem panicked_step (reg : Registered s) (allowed : completeLines s a = true)
    (taken : step s a = some s') : s'.panicked = s.panicked := by
  cases step_cases taken with
  | panics | ignored | requested => exact panicked_line allowed taken
  | handled found sends => exact reg.handle_panicked found sends
  | called | polled | accepted | failed | lost | replied | tested | dropped | pushed | took | wrote
  | asked | crossed | answered | heard | misheard | registered => rfl

theorem panicked_run {acts : List Action} (met : Along step completeLines (start store) acts)
    (reached : run step (start store) acts = some s) : s.panicked = false := by
  have both := run_invariant (fun s => s.panicked = false ∧ Registered s)
    (fun _ _ _ h allowed taken =>
      ⟨(panicked_step h.2 allowed taken).trans h.1, h.2.step (step_cases taken)⟩)
    ⟨rfl, Registered.start store⟩ acts met reached
  exact both.1

/-- The server goes on while the lines of its clients are complete, and a line is parsed only when it
is complete. Where the fields have neither a colon nor a line end, the request of a line has just
these fields. -/
theorem requests_parsed (store : Impl) (acts : List Action) (s : KeyValueServer)
    (met : Along step completeLines (start store) acts)
    (reached : run step (start store) acts = some s) :
    s.panicked = false ∧
    (∀ (c : Conn) (text : Bytes), newline ∉ text →
      ((∃ made, parseRequest c (text ++ [newline]) = some made) ↔ complete text = true)) ∧
    ∀ (c : Conn) (key oldValue newValue : Bytes),
      (∀ field ∈ [key, oldValue, newValue], Plain field) →
      parseRequest c (line [word ['P', 'u', 't'], key, newValue] ++ [newline]) =
        some (some { currentClient := c, requestType := .put, key, newValue }) ∧
      parseRequest c (line [word ['G', 'e', 't'], key] ++ [newline]) =
        some (some { currentClient := c, requestType := .get, key }) ∧
      parseRequest c (line [word ['D', 'e', 'l', 'e', 't', 'e'], key] ++ [newline]) =
        some (some { currentClient := c, requestType := .delete, key }) ∧
      parseRequest c
          (line [word ['U', 'p', 'd', 'a', 't', 'e'], key, oldValue, newValue] ++ [newline]) =
        some (some { currentClient := c, requestType := .update, key, oldValue, newValue }) := by
  refine ⟨panicked_run met reached, ?_, ?_⟩
  · intro c text whole
    rw [← Option.isSome_iff_exists]
    exact parseRequest_isSome whole
  · intro c key oldValue newValue plain
    simp only [List.forall_mem_cons] at plain
    obtain ⟨keyPlain, oldPlain, newPlain, _⟩ := plain
    refine ⟨?_, ?_, ?_, ?_⟩
    · have letters : Plain (word ['P', 'u', 't']) := by decide
      have values : ∀ field ∈ [key, newValue], Plain field := by
        simpa using ⟨keyPlain, newPlain⟩
      simp [parseRequest, splitOn_line letters values]
    · have letters : Plain (word ['G', 'e', 't']) := by decide
      have values : ∀ field ∈ [key], Plain field := by simpa using keyPlain
      simp +decide [parseRequest, splitOn_line letters values]
    · have letters : Plain (word ['D', 'e', 'l', 'e', 't', 'e']) := by decide
      have values : ∀ field ∈ [key], Plain field := by simpa using keyPlain
      simp +decide [parseRequest, splitOn_line letters values]
    · have letters : Plain (word ['U', 'p', 'd', 'a', 't', 'e']) := by decide
      have values : ∀ field ∈ [key, oldValue, newValue], Plain field := by
        simpa using ⟨keyPlain, oldPlain, newPlain⟩
      simp +decide [parseRequest, splitOn_line letters values]

/-- A client that stores a value and reads it. -/
def putAndGet : List Action :=
  connects 7 ++ [.line 7 (line [word ['P', 'u', 't'], word ['k'], word ['v']]),
    .meet (.reader 7) .main, .line 7 (line [word ['G', 'e', 't'], word ['k']])]

theorem put_and_get_parsed : ∃ s,
    Along step completeLines (start ∅) putAndGet ∧ run step (start ∅) putAndGet = some s ∧
    s.panicked = false ∧
    parseRequest 7 (line [word ['P', 'u', 't'], word ['k'], word ['v']] ++ [newline]) =
      some (some
        { currentClient := 7, requestType := .put, key := word ['k'], newValue := word ['v'] }) := by
  have met : Along step completeLines (start ∅) putAndGet := by decide
  obtain ⟨s, reached⟩ : ∃ s, run step (start ∅) putAndGet = some s := ⟨_, rfl⟩
  have parsed := requests_parsed ∅ putAndGet s met reached
  exact ⟨s, met, reached, parsed.1, (parsed.2.2 7 (word ['k']) [] (word ['v']) (by decide)).1⟩

/-- A `Get` without a key ends the process for all clients. -/
theorem short_lines_panic : ∃ s,
    run step (start ∅) (connects 7 ++ [.line 7 (word ['G', 'e', 't'])]) = some s ∧
    s.panicked = true ∧ (∀ a, step s a = none) ∧
    ∀ text ∈ [[word ['G', 'e', 't']], [word ['D', 'e', 'l', 'e', 't', 'e']], [word ['P', 'u', 't']],
        [word ['P', 'u', 't'], word ['k']], [word ['U', 'p', 'd', 'a', 't', 'e'], word ['k']],
        [word ['U', 'p', 'd', 'a', 't', 'e'], word ['k'], word ['v']]],
      parseRequest 7 (line text ++ [newline]) = none := by
  refine ⟨_, rfl, rfl, ?_, by decide⟩
  intro a
  rfl

end DistSys.Store
