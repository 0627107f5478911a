import DistSys.Lib.Runs

/-! What a run leaves behind as one list, and runs that stand for runs of another system. -/
namespace DistSys.Lib

variable {S T A B O : Type} {step : S → A → Option S} {ok : S → A → Bool}

/-! ### Notes -/

/-- All that the steps of a run note down, in order. -/
def noted (step : S → A → Option S) (view : S → A → S → List O) (s : S) (as : List A) : List O :=
  (trace step view s as).flatten

variable {view : S → A → S → List O}

@[simp] theorem noted_nil (s : S) : noted step view s [] = [] := rfl

theorem noted_cons {s t : S} {a : A} {rest : List A} (taken : step s a = some t) :
    noted step view s (a :: rest) = view s a t ++ noted step view t rest := by
  simp [noted, trace_cons taken]

theorem noted_append {s t : S} {as bs : List A} (reached : run step s as = some t) :
    noted step view s (as ++ bs) = noted step view s as ++ noted step view t bs := by
  simp [noted, trace_append reached]

/-- What holds of the state and of the notes, when every allowed action keeps it, holds after a run of
such actions. -/
theorem noted_allowed (allowed : A → Prop) (inv : S → List O → Prop)
    (keeps : ∀ s a t notes, inv s notes → allowed a → step s a = some t →
      inv t (notes ++ view s a t))
    {s t : S} {notes : List O} (start : inv s notes) (as : List A) (all : ∀ a ∈ as, allowed a)
    (reached : run step s as = some t) : inv t (notes ++ noted step view s as) := by
  induction as generalizing s notes with
  | nil =>
    cases Option.some.inj reached
    simpa using start
  | cons a rest ih =>
    obtain ⟨u, taken, tail⟩ := run_first reached
    have next := keeps s a u notes start (all a List.mem_cons_self) taken
    have later := ih next (fun b member => all b (List.mem_cons_of_mem a member)) tail
    rwa [List.append_assoc, ← noted_cons taken] at later

theorem noted_keeps (inv : S → List O → Prop)
    (keeps : ∀ s a t notes, inv s notes → step s a = some t → inv t (notes ++ view s a t))
    {s t : S} (start : inv s []) (as : List A) (reached : run step s as = some t) :
    inv t (noted step view s as) := by
  have kept := noted_allowed (fun _ => True) inv
    (fun s a t notes held _ taken => keeps s a t notes held taken) start as (fun _ _ => trivial) reached
  rwa [List.nil_append] at kept

/-! ### Simulation -/

end DistSys.Lib
