import Mathlib.Data.List.Basic

/-! Runs of a machine as lists of moments: what was, what happened, what came of it and what is then.

    A property of states is carried from one moment of a run to a later one by the moments between them. -/

/-- One step of a run. -/
structure Moment (S E R : Type) where
  before : S
  event : E
  result : R
  after : S

namespace Moment

variable {S E R : Type} (step : E → S → R × S)

/-- The moments of a run from a state. -/
def record : S → List E → List (Moment S E R)
  | _, [] => []
  | s, e :: es => ⟨s, e, (step e s).1, (step e s).2⟩ :: record (step e s).2 es

/-- The state a run ends in. -/
def final (s : S) (es : List E) : S := es.foldl (fun s e => (step e s).2) s

variable {step} {s : S} {es : List E} {m later : Moment S E R} {earlier mid rest : List (Moment S E R)}

theorem final_append (es' : List E) : final step s (es ++ es') = final step (final step s es) es' :=
  List.foldl_append

@[simp] theorem map_event_record : (record step s es).map (·.event) = es := by
  induction es generalizing s with
  | nil => rfl
  | cons e es ih => rw [record, List.map_cons, ih]

/-- A moment of a run is a step from the state the run had reached. -/
theorem record_split (h : record step s es = earlier ++ m :: rest) : ∃ before after, es = before ++ m.event :: after ∧
    earlier = record step s before ∧ m.before = final step s before ∧ (m.result, m.after) = step m.event m.before ∧
    rest = record step m.after after := by
  induction earlier generalizing s es with
  | nil =>
    cases es with
    | nil => simp [record] at h
    | cons e es =>
      obtain ⟨rfl, rfl⟩ := List.cons.inj h
      exact ⟨[], es, rfl, rfl, rfl, rfl, rfl⟩
  | cons x earlier ih =>
    cases es with
    | nil => simp [record] at h
    | cons e es =>
      obtain ⟨rfl, htail⟩ := List.cons.inj h
      obtain ⟨before, after, rfl, rfl, hm, hstep, hrest⟩ := ih htail
      exact ⟨e :: before, after, rfl, rfl, hm, hstep, hrest⟩

theorem step_of_mem (h : m ∈ record step s es) : (m.result, m.after) = step m.event m.before ∧ m.event ∈ es := by
  obtain ⟨earlier, rest, hsplit⟩ := List.append_of_mem h
  obtain ⟨before, after, rfl, -, -, hstep, -⟩ := record_split hsplit
  exact ⟨hstep, List.mem_append_right _ List.mem_cons_self⟩

/-- What holds at the start of a run and is kept by its first moments holds where each of them and the next begins. -/
theorem carried_mem {I : S → Prop} (h : record step s es = mid ++ later :: rest) (hs : I s)
    (hkeep : ∀ m ∈ mid, I m.before → I m.after) : (∀ m ∈ mid, I m.before) ∧ I later.before := by
  induction mid generalizing s es with
  | nil =>
    cases es with
    | nil => simp [record] at h
    | cons e es =>
      obtain ⟨rfl, -⟩ := List.cons.inj h
      exact ⟨fun _ hm => absurd hm List.not_mem_nil, hs⟩
  | cons m mid ih =>
    cases es with
    | nil => simp [record] at h
    | cons e es =>
      obtain ⟨rfl, htail⟩ := List.cons.inj h
      obtain ⟨hmid, hlater⟩ :=
        ih htail (hkeep _ List.mem_cons_self hs) fun x hx => hkeep x (List.mem_cons_of_mem _ hx)
      exact ⟨List.forall_mem_cons.mpr ⟨hs, hmid⟩, hlater⟩

/-- What holds at the start of a run and is kept by its first moments holds where the next one begins. -/
theorem carried {I : S → Prop} (h : record step s es = mid ++ later :: rest) (hs : I s)
    (hkeep : ∀ m ∈ mid, I m.before → I m.after) : I later.before :=
  (carried_mem h hs hkeep).2

end Moment
