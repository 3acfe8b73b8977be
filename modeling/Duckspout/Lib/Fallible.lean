import Mathlib.Logic.Basic

/-! Computations that work on a state and may fail: what they changed before a failure stays changed. -/

namespace Duckspout

/-- A computation on a state `σ` that fails with `ε`. -/
abbrev Fallible (ε σ : Type) := ExceptT ε (StateM σ)

namespace Fallible

variable {ε σ α β : Type}

theorem run_bind (x : Fallible ε σ α) (f : α → Fallible ε σ β) (s : σ) :
    (x >>= f).run s =
      match x.run s with
      | (.ok a, s') => (f a).run s'
      | (.error e, s') => (.error e, s') := by
  change ExceptT.bindCont f (x.run s).1 (x.run s).2 = _
  rcases x.run s with ⟨e | a, s'⟩ <;> rfl

@[simp] theorem run_get (s : σ) : (get : Fallible ε σ σ).run s = (.ok s, s) := rfl

@[simp] theorem run_pure (a : α) (s : σ) : (pure a : Fallible ε σ α).run s = (.ok a, s) := rfl

@[simp] theorem run_modify (f : σ → σ) (s : σ) : (modify f : Fallible ε σ PUnit).run s = (.ok ⟨⟩, f s) := rfl

/-- A result that is already there. -/
def ofExcept (r : Except ε α) : Fallible ε σ α := ExceptT.mk (pure r)

@[simp] theorem run_ofExcept (r : Except ε α) (s : σ) : (ofExcept r : Fallible ε σ α).run s = (r, s) := rfl

theorem mapError_eq_ok {δ : Type} {r : Except δ α} {f : δ → ε} {a : α} : r.mapError f = .ok a ↔ r = .ok a := by
  cases r with
  | ok b => exact ⟨fun h => congrArg _ (Except.ok.inj h), fun h => congrArg _ (Except.ok.inj h)⟩
  | error e => exact ⟨(fun h => by cases h), (fun h => by cases h)⟩

theorem bind_eq_ok {x : Except ε α} {f : α → Except ε β} {b : β} :
    (x >>= f) = .ok b ↔ ∃ a, x = .ok a ∧ f a = .ok b := by
  cases x with
  | ok a => exact ⟨fun h => ⟨a, rfl, h⟩, fun ⟨_, h, hf⟩ => by cases h; exact hf⟩
  | error e => exact ⟨(fun h => by cases h), fun ⟨_, h, _⟩ => by cases h⟩

/-- A sequence succeeds where both parts do. -/
theorem run_bind_ok {x : Fallible ε σ α} {f : α → Fallible ε σ β} {s s'' : σ} {b : β} :
    (x >>= f).run s = (.ok b, s'') ↔ ∃ a s', x.run s = (.ok a, s') ∧ (f a).run s' = (.ok b, s'') := by
  rw [run_bind]
  rcases x.run s with ⟨e | a, s'⟩
  · constructor
    · intro h
      cases h
    · rintro ⟨_, _, h, -⟩
      cases h
  · constructor
    · exact fun h => ⟨a, s', rfl, h⟩
    · rintro ⟨_, _, h, hf⟩
      obtain ⟨ha, rfl⟩ := Prod.mk.inj h
      injection ha with ha
      exact ha ▸ hf

/-! ### Rules -/

/-- From the state the computation succeeds in `Q` or fails in `E`. -/
def Wp (x : Fallible ε σ α) (Q : α → σ → Prop) (E : ε → σ → Prop) (s : σ) : Prop :=
  match x.run s with
  | (.ok a, s') => Q a s'
  | (.error e, s') => E e s'

variable {Q : α → σ → Prop} {E : ε → σ → Prop} {s : σ}

theorem wp_mono {x : Fallible ε σ α} {Q' : α → σ → Prop} {E' : ε → σ → Prop} (hQ : ∀ a s, Q a s → Q' a s)
    (hE : ∀ e s, E e s → E' e s) (h : Wp x Q E s) : Wp x Q' E' s := by
  revert h
  simp only [Wp]
  rcases x.run s with ⟨e | a, s'⟩
  · exact hE e s'
  · exact hQ a s'

theorem wp_and {x : Fallible ε σ α} {Q' : α → σ → Prop} {E' : ε → σ → Prop} (h : Wp x Q E s) (h' : Wp x Q' E' s) :
    Wp x (fun a s => Q a s ∧ Q' a s) (fun e s => E e s ∧ E' e s) s := by
  simp only [Wp] at h h' ⊢
  rcases hx : x.run s with ⟨e | a, s'⟩
  all_goals
    rw [hx] at h h'
    exact ⟨h, h'⟩

theorem wp_bind {x : Fallible ε σ α} {f : α → Fallible ε σ β} {Q : β → σ → Prop}
    (h : Wp x (fun a => Wp (f a) Q E) E s) : Wp (x >>= f) Q E s := by
  revert h
  simp only [Wp]
  rw [run_bind]
  rcases x.run s with ⟨e | a, s'⟩
  · exact id
  · exact id

theorem wp_pure {a : α} (h : Q a s) : Wp (pure a : Fallible ε σ α) Q E s := h

theorem wp_throw {e : ε} (h : E e s) : Wp (throw e : Fallible ε σ α) Q E s := h

theorem wp_get {Q : σ → σ → Prop} (h : Q s s) : Wp (get : Fallible ε σ σ) Q E s := h

theorem wp_modify {f : σ → σ} {Q : PUnit → σ → Prop} (h : Q ⟨⟩ (f s)) :
    Wp (modify f : Fallible ε σ PUnit) Q E s := h

theorem wp_ofExcept {r : Except ε α} (hok : ∀ a, r = .ok a → Q a s) (herror : ∀ e, r = .error e → E e s) :
    Wp (ofExcept r : Fallible ε σ α) Q E s := by
  cases r with
  | ok a => exact hok a rfl
  | error e => exact herror e rfl

/-- The same computation under other errors. -/
theorem wp_adapt {δ : Type} {f : δ → ε} {x : Fallible δ σ α} (h : Wp x Q (fun e => E (f e)) s) :
    Wp (ExceptT.adapt f x : Fallible ε σ α) Q E s := by
  have hrun : (ExceptT.adapt f x : Fallible ε σ α).run s = ((x.run s).1.mapError f, (x.run s).2) := rfl
  simp only [Wp] at h ⊢
  rw [hrun]
  rcases hx : x.run s with ⟨e | a, s'⟩
  · rw [hx] at h
    exact h
  · rw [hx] at h
    exact h

/-- A loop over a list: `I` of the rounds done is kept by every round. -/
theorem wp_forM {f : β → Fallible ε σ PUnit} {I : List β → σ → Prop}
    (hf : ∀ done b s, I done s → Wp (f b) (fun _ => I (done ++ [b])) E s) :
    ∀ (l done : List β) {s : σ}, I done s → Wp (l.forM f) (fun _ => I (done ++ l)) E s := by
  intro l
  induction l with
  | nil =>
    intro done s h
    rw [List.append_nil]
    exact wp_pure h
  | cons b l ih =>
    intro done s h
    refine wp_bind (wp_mono (fun _ s' hs' => ?_) (fun _ _ he => he) (hf done b s h))
    rw [List.append_cons]
    exact ih (done ++ [b]) hs'

end Fallible

end Duckspout
