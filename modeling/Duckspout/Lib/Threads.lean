import Duckspout.Lib.Prog
import Mathlib.Data.List.Induction

/-! Threads over one shared state.

    A system starts programs on free threads, lets any running thread perform its next operation, and
    lets the environment move, which may also stop threads. A run is a list of such events. Every
    started program gets a number, and a program that has ended leaves its result in the record. -/

/-- What a system is made of: the program of a job, the states in which a thread accepts one, the
    effect of an operation by a thread, and the moves of the environment, with the threads each of
    them stops. -/
structure Threads (Tid Job Choice Env S Op : Type) (Res : Op → Type) (α : Type) where
  program : Tid → Job → Prog Op Res α
  accepts : Tid → Job → S → Bool := fun _ _ _ => true
  exec : Tid → (o : Op) → Choice → S → Res o × S
  move : Env → S → S
  stops : Env → Tid → Bool

namespace Threads

/-- A running program with its number and its job. -/
structure Running (Job Op : Type) (Res : Op → Type) (α : Type) where
  id : ℕ
  job : Job
  prog : Prog Op Res α

/-- The state of a run: the shared state, the running programs, the jobs started so far (a program's
    number is its place among them) and what the ended programs returned. -/
structure Pool (Tid Job S Op : Type) (Res : Op → Type) (α : Type) where
  shared : S
  running : Tid → Option (Running Job Op Res α) := fun _ => none
  started : List (Tid × Job) := []
  returned : List (ℕ × Job × α) := []

/-- One event of a run. -/
inductive Event (Tid Job Choice Env : Type) where
  | start (t : Tid) (j : Job)
  | act (t : Tid) (c : Choice)
  | env (e : Env)

variable {Tid Job Choice Env S Op α κ : Type} {Res : Op → Type} [DecidableEq Tid]
  (sys : Threads Tid Job Choice Env S Op Res α)

/-- One event. A job starts only on a free thread that accepts it; a thread without a program does
    nothing. -/
def step (p : Pool Tid Job S Op Res α) : Event Tid Job Choice Env → Pool Tid Job S Op Res α
  | .start t j =>
    match p.running t, sys.accepts t j p.shared with
    | some _, _ => p
    | none, false => p
    | none, true =>
      { p with
        running := Function.update p.running t (some ⟨p.started.length, j, sys.program t j⟩)
        started := p.started ++ [(t, j)] }
  | .act t c =>
    match p.running t with
    | none => p
    | some ⟨n, j, .ret a⟩ =>
      { p with
        running := Function.update p.running t none
        returned := p.returned ++ [(n, j, a)] }
    | some ⟨n, j, .call o next⟩ =>
      { p with
        shared := (sys.exec t o c p.shared).2
        running := Function.update p.running t (some ⟨n, j, next (sys.exec t o c p.shared).1⟩) }
  | .env e =>
    { p with
      shared := sys.move e p.shared
      running := fun t => if sys.stops e t then none else p.running t }

/-- The run of a list of events. -/
def run (p : Pool Tid Job S Op Res α) (es : List (Event Tid Job Choice Env)) :
    Pool Tid Job S Op Res α :=
  es.foldl sys.step p

theorem run_append (p : Pool Tid Job S Op Res α) (es fs : List (Event Tid Job Choice Env)) :
    sys.run p (es ++ fs) = sys.run (sys.run p es) fs :=
  List.foldl_append

theorem run_concat (p : Pool Tid Job S Op Res α) (es : List (Event Tid Job Choice Env))
    (e : Event Tid Job Choice Env) : sys.run p (es ++ [e]) = sys.step (sys.run p es) e :=
  List.foldl_concat _ _ _ _

/-- Every event of the run is admissible where it happens. -/
def Admissible (ok : Pool Tid Job S Op Res α → Event Tid Job Choice Env → Prop) :
    Pool Tid Job S Op Res α → List (Event Tid Job Choice Env) → Prop
  | _, [] => True
  | p, e :: es => ok p e ∧ Admissible ok (sys.step p e) es

variable {sys} {ok : Pool Tid Job S Op Res α → Event Tid Job Choice Env → Prop}

instance instDecidableAdmissible [∀ p e, Decidable (ok p e)] : ∀ p es, Decidable (sys.Admissible ok p es)
  | _, [] => isTrue trivial
  | p, e :: es =>
    have := instDecidableAdmissible (sys.step p e) es
    inferInstanceAs (Decidable (ok p e ∧ sys.Admissible ok (sys.step p e) es))

theorem admissible_append {es fs : List (Event Tid Job Choice Env)} :
    ∀ {p : Pool Tid Job S Op Res α}, sys.Admissible ok p (es ++ fs) ↔
      sys.Admissible ok p es ∧ sys.Admissible ok (sys.run p es) fs := by
  induction es with
  | nil =>
    intro p
    exact ⟨fun h => ⟨trivial, h⟩, fun h => h.2⟩
  | cons e es ih =>
    intro p
    exact ⟨fun h => ⟨⟨h.1, (ih.mp h.2).1⟩, (ih.mp h.2).2⟩, fun h => ⟨h.1.1, ih.mpr ⟨h.1.2, h.2⟩⟩⟩

theorem admissible_concat {p : Pool Tid Job S Op Res α} {es : List (Event Tid Job Choice Env)}
    {e : Event Tid Job Choice Env} :
    sys.Admissible ok p (es ++ [e]) ↔ sys.Admissible ok p es ∧ ok (sys.run p es) e := by
  rw [admissible_append]
  exact ⟨fun h => ⟨h.1, h.2.1⟩, fun h => ⟨h.1, h.2, trivial⟩⟩

theorem admissible_of_forall {es : List (Event Tid Job Choice Env)} (h : ∀ q, ∀ e ∈ es, ok q e) :
    ∀ p : Pool Tid Job S Op Res α, sys.Admissible ok p es := by
  induction es with
  | nil => exact fun _ => trivial
  | cons e es ih =>
    exact fun p => ⟨h p e List.mem_cons_self, ih (fun q a ha => h q a (List.mem_cons_of_mem e ha)) _⟩

/-- What every admissible event keeps holds along an admissible run. -/
theorem invariant_run {J : Pool Tid Job S Op Res α → Prop} (hstep : ∀ q e, J q → ok q e → J (sys.step q e)) :
    ∀ {es : List (Event Tid Job Choice Env)} {p : Pool Tid Job S Op Res α}, J p → sys.Admissible ok p es →
      J (sys.run p es) := by
  intro es
  induction es with
  | nil => exact fun hp _ => hp
  | cons e es ih => exact fun hp hadm => ih (hstep _ e hp hadm.1) hadm.2

/-! ### What an event can do -/

/-- The event is not a step of thread `t` and does not stop it. -/
def Event.Spares (sys : Threads Tid Job Choice Env S Op Res α) (t : Tid) : Event Tid Job Choice Env → Prop
  | .start _ _ => True
  | .act u _ => u ≠ t
  | .env e => sys.stops e t = false

variable {p : Pool Tid Job S Op Res α} {e : Event Tid Job Choice Env}

/-- A running program was running already, has just started, or has just performed an operation. -/
theorem running_step {t : Tid} {r : Running Job Op Res α} (h : (sys.step p e).running t = some r) :
    (p.running t = some r ∧ e.Spares sys t) ∨
    (∃ j, e = .start t j ∧ p.running t = none ∧ sys.accepts t j p.shared = true ∧
      r = ⟨p.started.length, j, sys.program t j⟩) ∨
    (∃ c o next, e = .act t c ∧ p.running t = some ⟨r.id, r.job, .call o next⟩ ∧
      r.prog = next (sys.exec t o c p.shared).1) := by
  cases e with
  | start u j =>
    rcases hu : p.running u with _ | r'
    · rcases ha : sys.accepts u j p.shared with _ | _
      · simp only [step, hu, ha] at h
        exact .inl ⟨h, trivial⟩
      · simp only [step, hu, ha] at h
        rcases eq_or_ne t u with rfl | hne
        · rw [Function.update_self, Option.some.injEq] at h
          exact .inr (.inl ⟨j, rfl, hu, ha, h.symm⟩)
        · rw [Function.update_of_ne hne] at h
          exact .inl ⟨h, trivial⟩
    · simp only [step, hu] at h
      exact .inl ⟨h, trivial⟩
  | act u c =>
    rcases hu : p.running u with _ | ⟨n, j, a | ⟨o, next⟩⟩
    · simp only [step, hu] at h
      refine .inl ⟨h, ?_⟩
      rintro rfl
      rw [hu] at h
      cases h
    · simp only [step, hu] at h
      rcases eq_or_ne t u with rfl | hne
      · rw [Function.update_self] at h
        cases h
      · rw [Function.update_of_ne hne] at h
        exact .inl ⟨h, hne.symm⟩
    · simp only [step, hu] at h
      rcases eq_or_ne t u with rfl | hne
      · rw [Function.update_self, Option.some.injEq] at h
        subst h
        exact .inr (.inr ⟨c, o, next, rfl, hu, rfl⟩)
      · rw [Function.update_of_ne hne] at h
        exact .inl ⟨h, hne.symm⟩
  | env v =>
    simp only [step] at h
    split_ifs at h with hstop
    exact .inl ⟨h, by simpa [Event.Spares] using hstop⟩

/-- A result in the record was there already, or belongs to the program that has just ended. -/
theorem returned_step {x : ℕ × Job × α} (h : x ∈ (sys.step p e).returned) :
    x ∈ p.returned ∨ ∃ t c, e = .act t c ∧ p.running t = some ⟨x.1, x.2.1, .ret x.2.2⟩ := by
  cases e with
  | start u j =>
    rcases hu : p.running u, ha : sys.accepts u j p.shared with ⟨_ | r, _ | _⟩
    all_goals
      simp only [step, hu, ha] at h
      exact .inl h
  | act u c =>
    rcases hu : p.running u with _ | ⟨n, j, a | ⟨o, next⟩⟩
    · simp only [step, hu] at h
      exact .inl h
    · simp only [step, hu, List.mem_append, List.mem_singleton] at h
      rcases h with hold | rfl
      · exact .inl hold
      · exact .inr ⟨u, c, rfl, hu⟩
    · simp only [step, hu] at h
      exact .inl h
  | env v => exact .inl h

theorem shared_start (sys : Threads Tid Job Choice Env S Op Res α) (p : Pool Tid Job S Op Res α) (t : Tid)
    (j : Job) : (sys.step p (.start t j)).shared = p.shared := by
  rcases hu : p.running t, ha : sys.accepts t j p.shared with ⟨_ | r, _ | _⟩
  all_goals simp only [step, hu, ha]

theorem shared_act {t : Tid} {c : Choice} {n : ℕ} {j : Job} {o : Op} {next : Res o → Prog Op Res α}
    (h : p.running t = some ⟨n, j, .call o next⟩) :
    (sys.step p (.act t c)).shared = (sys.exec t o c p.shared).2 := by
  simp only [step, h]

/-- The shared state stands, or a thread has performed an operation, or the environment has moved. -/
theorem shared_step (sys : Threads Tid Job Choice Env S Op Res α) (p : Pool Tid Job S Op Res α)
    (e : Event Tid Job Choice Env) :
    (sys.step p e).shared = p.shared ∨
    (∃ t c n j o next, e = .act t c ∧ p.running t = some ⟨n, j, .call o next⟩ ∧
      (sys.step p e).shared = (sys.exec t o c p.shared).2) ∨
    ∃ v, e = .env v ∧ (sys.step p e).shared = sys.move v p.shared := by
  cases e with
  | start u j => exact .inl (shared_start sys p u j)
  | act u c =>
    rcases hu : p.running u with _ | ⟨n, j, a | ⟨o, next⟩⟩
    · exact .inl (by simp only [step, hu])
    · exact .inl (by simp only [step, hu])
    · exact .inr (.inl ⟨u, c, n, j, o, next, rfl, hu, shared_act hu⟩)
  | env v => exact .inr (.inr ⟨v, rfl, rfl⟩)

theorem started_step (sys : Threads Tid Job Choice Env S Op Res α) (p : Pool Tid Job S Op Res α)
    (e : Event Tid Job Choice Env) : p.started <+: (sys.step p e).started := by
  cases e with
  | start u j =>
    rcases hu : p.running u, ha : sys.accepts u j p.shared with ⟨_ | r, _ | _⟩
    all_goals simp [step, hu, ha]
  | act u c =>
    rcases hu : p.running u with _ | ⟨n, j, a | ⟨o, next⟩⟩
    all_goals simp [step, hu]
  | env v => exact List.prefix_refl _

/-! ### Contracts -/

/-- A contract of the runs from `p₀`: which events are admissible, an invariant of the history, what a thread may
    know, the protocol each job keeps to, and what a returned result means. -/
structure Contract (sys : Threads Tid Job Choice Env S Op Res α) (p₀ : Pool Tid Job S Op Res α) (κ : Type) where
  ok : Pool Tid Job S Op Res α → Event Tid Job Choice Env → Prop
  inv : List (Event Tid Job Choice Env) → Prop
  knows : List (Event Tid Job Choice Env) → Tid → ℕ → Job → κ → Prop
  proto : Job → Protocol Op Res κ
  post : Job → α → κ → Prop
  done : List (Event Tid Job Choice Env) → ℕ → Job → α → Prop

variable {p₀ : Pool Tid Job S Op Res α} {C : Contract sys p₀ κ}

/-- The obligations of a contract. What a thread knows survives the admissible steps of the others, given what its
    program is about to do. -/
structure Contract.Sound (C : Contract sys p₀ κ) : Prop where
  init : C.inv []
  start : ∀ h t j, C.inv h → C.ok (sys.run p₀ h) (.start t j) → (sys.run p₀ h).running t = none →
    sys.accepts t j (sys.run p₀ h).shared = true → ∃ k, C.knows (h ++ [.start t j]) t (sys.run p₀ h).started.length j k ∧
      (C.proto j).Wp (sys.program t j) (C.post j) k
  exec : ∀ h t c n j o next k, C.inv h → C.ok (sys.run p₀ h) (.act t c) →
    (sys.run p₀ h).running t = some ⟨n, j, .call o next⟩ → C.knows h t n j k → (C.proto j).pre o k →
    C.inv (h ++ [.act t c]) ∧ ∃ k', C.knows (h ++ [.act t c]) t n j k' ∧
      (C.proto j).next o k (sys.exec t o c (sys.run p₀ h).shared).1 k'
  idle : ∀ h e, C.inv h → C.ok (sys.run p₀ h) e → (sys.step (sys.run p₀ h) e).shared = (sys.run p₀ h).shared →
    C.inv (h ++ [e])
  env : ∀ h e, C.inv h → C.ok (sys.run p₀ h) (.env e) → C.inv (h ++ [.env e])
  stable : ∀ h e t r k, C.inv h → C.inv (h ++ [e]) → C.ok (sys.run p₀ h) e → (sys.run p₀ h).running t = some r →
    e.Spares sys t → (C.proto r.job).Wp r.prog (C.post r.job) k → C.knows h t r.id r.job k →
    C.knows (h ++ [e]) t r.id r.job k
  ret : ∀ h t c n j a k, C.inv (h ++ [.act t c]) → C.knows h t n j k → C.post j a k →
    C.done (h ++ [.act t c]) n j a
  done_stable : ∀ h e n j a, C.inv (h ++ [e]) → C.done h n j a → C.done (h ++ [e]) n j a

/-- What a contract says of the state its history leads to. -/
structure Contract.Valid (C : Contract sys p₀ κ) (h : List (Event Tid Job Choice Env)) : Prop where
  inv : C.inv h
  threads : ∀ t r, (sys.run p₀ h).running t = some r →
    ∃ k, C.knows h t r.id r.job k ∧ (C.proto r.job).Wp r.prog (C.post r.job) k
  results : ∀ x ∈ (sys.run p₀ h).returned, C.done h x.1 x.2.1 x.2.2

theorem Contract.Sound.valid_concat (hC : C.Sound) {h : List (Event Tid Job Choice Env)}
    (hv : C.Valid h) (hok : C.ok (sys.run p₀ h) e) : C.Valid (h ++ [e]) := by
  have hinv : C.inv (h ++ [e]) := by
    rcases shared_step sys (sys.run p₀ h) e with heq | ⟨t, c, n, j, o, next, rfl, hr, -⟩ | ⟨v, rfl, -⟩
    · exact hC.idle h e hv.inv hok heq
    · obtain ⟨k, hk, hw⟩ := hv.threads t _ hr
      exact (hC.exec h t c n j o next k hv.inv hok hr hk hw.1).1
    · exact hC.env h v hv.inv hok
  refine ⟨hinv, ?_, ?_⟩
  · intro t r hr
    rw [run_concat] at hr
    rcases running_step hr with ⟨hold, hspares⟩ | ⟨j, rfl, hfree, hacc, rfl⟩ | ⟨c, o, next, rfl, hrun, hprog⟩
    · obtain ⟨k, hk, hw⟩ := hv.threads t r hold
      exact ⟨k, hC.stable h e t r k hv.inv hinv hok hold hspares hw hk, hw⟩
    · exact hC.start h t j hv.inv hok hfree hacc
    · obtain ⟨k, hk, hw⟩ := hv.threads t _ hrun
      obtain ⟨-, k', hk', hnext⟩ := hC.exec h t c r.id r.job o next k hv.inv hok hrun hk hw.1
      rw [hprog]
      exact ⟨k', hk', hw.2 _ k' hnext⟩
  · intro x hx
    rw [run_concat] at hx
    rcases returned_step hx with hold | ⟨t, c, rfl, hrun⟩
    · exact hC.done_stable h e _ _ _ hinv (hv.results x hold)
    · obtain ⟨k, hk, hw⟩ := hv.threads t _ hrun
      exact hC.ret h t c _ _ _ k hinv hk hw

/-- The rely-guarantee rule: a sound contract is valid along every admissible run. -/
theorem Contract.Sound.valid_run (hC : C.Sound) (hfree : ∀ t, p₀.running t = none)
    (hnone : p₀.returned = []) (h : List (Event Tid Job Choice Env)) :
    sys.Admissible C.ok p₀ h → C.Valid h := by
  induction h using List.reverseRecOn with
  | nil =>
    intro _
    refine ⟨hC.init, ?_, ?_⟩
    · intro t r hr
      rw [show (sys.run p₀ []).running t = none from hfree t] at hr
      cases hr
    · intro x hx
      rw [show (sys.run p₀ []).returned = [] from hnone] at hx
      cases hx
  | append_singleton h e ih =>
    intro hadm
    obtain ⟨hadm, hok⟩ := admissible_concat.mp hadm
    exact hC.valid_concat (ih hadm) hok

/-! ### Proof outlines -/

/-- A proof outline of the runs from `p₀`: a contract with one protocol for all jobs, where what a thread knows
    survives whatever keeps the invariant. -/
structure Outline (sys : Threads Tid Job Choice Env S Op Res α) (p₀ : Pool Tid Job S Op Res α)
    (κ : Type) where
  ok : Pool Tid Job S Op Res α → Event Tid Job Choice Env → Prop
  inv : List (Event Tid Job Choice Env) → Prop
  knows : List (Event Tid Job Choice Env) → Tid → ℕ → Job → κ → Prop
  proto : Protocol Op Res κ
  post : Job → α → κ → Prop
  done : List (Event Tid Job Choice Env) → ℕ → Job → α → Prop

variable {O : Outline sys p₀ κ}

/-- The obligations of an outline. -/
structure Outline.Sound (O : Outline sys p₀ κ) : Prop where
  init : O.inv []
  start : ∀ h t j, O.inv h → O.ok (sys.run p₀ h) (.start t j) → (sys.run p₀ h).running t = none →
    sys.accepts t j (sys.run p₀ h).shared = true → ∃ k, O.knows (h ++ [.start t j]) t (sys.run p₀ h).started.length j k ∧
      O.proto.Wp (sys.program t j) (O.post j) k
  exec : ∀ h t c n j o next k, O.inv h → O.ok (sys.run p₀ h) (.act t c) →
    (sys.run p₀ h).running t = some ⟨n, j, .call o next⟩ → O.knows h t n j k → O.proto.pre o k →
    O.inv (h ++ [.act t c]) ∧ ∃ k', O.knows (h ++ [.act t c]) t n j k' ∧
      O.proto.next o k (sys.exec t o c (sys.run p₀ h).shared).1 k'
  idle : ∀ h e, O.inv h → (sys.step (sys.run p₀ h) e).shared = (sys.run p₀ h).shared → O.inv (h ++ [e])
  env : ∀ h e, O.inv h → O.ok (sys.run p₀ h) (.env e) → O.inv (h ++ [.env e])
  stable : ∀ h e t r k, O.inv h → O.inv (h ++ [e]) → (sys.run p₀ h).running t = some r → e.Spares sys t →
    O.knows h t r.id r.job k → O.knows (h ++ [e]) t r.id r.job k
  ret : ∀ h t c n j a k, O.inv (h ++ [.act t c]) → O.knows h t n j k → O.post j a k →
    O.done (h ++ [.act t c]) n j a
  done_stable : ∀ h e n j a, O.inv (h ++ [e]) → O.done h n j a → O.done (h ++ [e]) n j a

/-- What an outline says of the state its history leads to. -/
structure Outline.Valid (O : Outline sys p₀ κ) (h : List (Event Tid Job Choice Env)) : Prop where
  inv : O.inv h
  threads : ∀ t r, (sys.run p₀ h).running t = some r →
    ∃ k, O.knows h t r.id r.job k ∧ O.proto.Wp r.prog (O.post r.job) k
  results : ∀ x ∈ (sys.run p₀ h).returned, O.done h x.1 x.2.1 x.2.2

/-- The contract of an outline. -/
def Outline.contract (O : Outline sys p₀ κ) : Contract sys p₀ κ where
  ok := O.ok
  inv := O.inv
  knows := O.knows
  proto _ := O.proto
  post := O.post
  done := O.done

theorem Outline.Sound.contract_sound (hO : O.Sound) : O.contract.Sound where
  init := hO.init
  start := hO.start
  exec := hO.exec
  idle := fun h e hinv _ => hO.idle h e hinv
  env := hO.env
  stable := fun h e t r k hinv hinv' _ hrun hspares _ => hO.stable h e t r k hinv hinv' hrun hspares
  ret := hO.ret
  done_stable := hO.done_stable

/-- A sound outline is valid along every admissible run. -/
theorem Outline.Sound.valid_run (hO : O.Sound) (hfree : ∀ t, p₀.running t = none)
    (hnone : p₀.returned = []) (h : List (Event Tid Job Choice Env)) (hadm : sys.Admissible O.ok p₀ h) :
    O.Valid h := by
  have hv := hO.contract_sound.valid_run hfree hnone h hadm
  exact ⟨hv.inv, hv.threads, hv.results⟩

/-! ### Facts

    The common case of an outline: what a thread knows is a list of facts about the shared state that no
    step of another thread undoes, and every answer adds to it. -/

/-- Conditions on the state before a step: on starting a job, and on performing an operation. -/
def StepOk (job : Tid → Job → S → Prop) (op : Tid → Op → S → Prop) (p : Pool Tid Job S Op Res α) :
    Event Tid Job Choice Env → Prop
  | .start t j => job t j p.shared
  | .act t _ => match p.running t with
    | some ⟨_, _, .call o _⟩ => op t o p.shared
    | _ => True
  | .env _ => True

instance {job : Tid → Job → S → Prop} {op : Tid → Op → S → Prop} [∀ t j s, Decidable (job t j s)]
    [∀ t o s, Decidable (op t o s)] (p : Pool Tid Job S Op Res α) :
    (e : Event Tid Job Choice Env) → Decidable (StepOk job op p e)
  | .start t j => inferInstanceAs (Decidable (job t j p.shared))
  | .env _ => isTrue trivial
  | .act t c =>
    match h : p.running t with
    | some ⟨_, _, .call o _⟩ => decidable_of_iff (op t o p.shared) (by simp only [StepOk, h])
    | some ⟨_, _, .ret _⟩ => isTrue (by simp only [StepOk, h])
    | none => isTrue (by simp only [StepOk, h])

/-- A condition on performing an operation that may depend on the job. -/
def CallOk (op : Tid → Job → Op → S → Prop) (p : Pool Tid Job S Op Res α) : Event Tid Job Choice Env → Prop
  | .act t _ => match p.running t with
    | some ⟨_, j, .call o _⟩ => op t j o p.shared
    | _ => True
  | _ => True

instance {op : Tid → Job → Op → S → Prop} [∀ t j o s, Decidable (op t j o s)] (p : Pool Tid Job S Op Res α) :
    (e : Event Tid Job Choice Env) → Decidable (CallOk op p e)
  | .start _ _ | .env _ => isTrue trivial
  | .act t c =>
    match h : p.running t with
    | some ⟨_, j, .call o _⟩ => decidable_of_iff (op t j o p.shared) (by simp only [CallOk, h])
    | some ⟨_, _, .ret _⟩ => isTrue (by simp only [CallOk, h])
    | none => isTrue (by simp only [CallOk, h])

/-- An invariant of the shared state with the facts the threads rely on: what each operation asks to be
    known, and what its answer teaches. -/
structure Facts (sys : Threads Tid Job Choice Env S Op Res α) (F : Type) where
  job : Tid → Job → S → Prop
  op : Tid → Op → S → Prop
  inv : S → Prop
  holds : S → Tid → F → Prop
  pre : Op → List F → Prop
  learns : (o : Op) → List F → Res o → List F

variable {F : Type}

/-- The protocol of the facts. -/
def Facts.proto (A : Facts sys F) : Protocol Op Res (List F) where
  pre := A.pre
  next o k r k' := k' = A.learns o k r ++ k

/-- The obligations. -/
structure Facts.Sound (A : Facts sys F) : Prop where
  start : ∀ s t j, A.job t j s → A.proto.Wp (sys.program t j) (fun _ _ => True) []
  exec : ∀ s t c o k, A.inv s → A.op t o s → A.pre o k → (∀ f ∈ k, A.holds s t f) →
    A.inv (sys.exec t o c s).2 ∧ ∀ f ∈ A.learns o k (sys.exec t o c s).1, A.holds (sys.exec t o c s).2 t f
  env : ∀ s e, A.inv s → A.inv (sys.move e s)
  exec_stable : ∀ s t u c o f, A.inv s → A.holds s t f → A.holds (sys.exec u o c s).2 t f
  env_stable : ∀ s t e f, A.inv s → sys.stops e t = false → A.holds s t f → A.holds (sys.move e s) t f

/-- Facts survive every event that does not stop their thread. -/
theorem Facts.Sound.stable {A : Facts sys F} (hA : A.Sound) {t : Tid} {f : F} (hinv : A.inv p.shared)
    (hstop : ∀ v, e = .env v → sys.stops v t = false) (hf : A.holds p.shared t f) :
    A.holds (sys.step p e).shared t f := by
  rcases shared_step sys p e with heq | ⟨u, c, n, j, o, next, -, -, heq⟩ | ⟨v, rfl, heq⟩
  · rw [heq]
    exact hf
  · rw [heq]
    exact hA.exec_stable _ t u c o f hinv hf
  · rw [heq]
    exact hA.env_stable _ t v f hinv (hstop v rfl) hf

/-- The outline of the facts. -/
def Facts.outline (A : Facts sys F) (p₀ : Pool Tid Job S Op Res α) : Outline sys p₀ (List F) where
  ok := StepOk A.job A.op
  inv h := A.inv (sys.run p₀ h).shared
  knows h t _ _ k := ∀ f ∈ k, A.holds (sys.run p₀ h).shared t f
  proto := A.proto
  post _ _ _ := True
  done _ _ _ _ := True

theorem Facts.Sound.outline_sound {A : Facts sys F} (hA : A.Sound) (h₀ : A.inv p₀.shared) :
    (A.outline p₀).Sound where
  init := h₀
  start := by
    intro h t j _ hok _ _
    exact ⟨[], (fun f hf => by cases hf), hA.start _ t j hok⟩
  exec := by
    intro h t c n j o next k hinv hok hrun hk hpre
    have hop : A.op t o (sys.run p₀ h).shared := by simpa only [outline, StepOk, hrun] using hok
    have hshared : (sys.run p₀ (h ++ [.act t c])).shared = (sys.exec t o c (sys.run p₀ h).shared).2 := by
      rw [run_concat]
      exact shared_act hrun
    obtain ⟨hinv', hlearn⟩ := hA.exec _ t c o k hinv hop hpre hk
    simp only [outline, hshared]
    refine ⟨hinv', _, fun f hf => ?_, rfl⟩
    rcases List.mem_append.mp hf with hnew | hold
    · exact hlearn f hnew
    · exact hA.exec_stable _ t t c o f hinv (hk f hold)
  idle := by
    intro h e hinv heq
    change A.inv (sys.run p₀ (h ++ [e])).shared
    rw [run_concat, heq]
    exact hinv
  env := by
    intro h e hinv _
    change A.inv (sys.run p₀ (h ++ [.env e])).shared
    rw [run_concat]
    exact hA.env _ e hinv
  stable := by
    intro h e t r k hinv _ _ hspares hk f hf
    rw [run_concat]
    refine hA.stable hinv (fun v hv => ?_) (hk f hf)
    subst hv
    exact hspares
  ret := fun _ _ _ _ _ _ _ _ _ _ => trivial
  done_stable := fun _ _ _ _ _ _ _ => trivial

/-- Along an admissible run the invariant holds, and whoever is about to perform an operation knows what
    it asks for. -/
theorem Facts.Sound.run {A : Facts sys F} (hA : A.Sound) (p₀ : Pool Tid Job S Op Res α) (h₀ : A.inv p₀.shared)
    (hfree : ∀ t, p₀.running t = none) (hnone : p₀.returned = []) {h : List (Event Tid Job Choice Env)}
    (hadm : sys.Admissible (StepOk A.job A.op) p₀ h) :
    A.inv (sys.run p₀ h).shared ∧ ∀ t n j o next, (sys.run p₀ h).running t = some ⟨n, j, .call o next⟩ →
      ∃ k, A.pre o k ∧ ∀ f ∈ k, A.holds (sys.run p₀ h).shared t f := by
  have hv := (hA.outline_sound h₀).valid_run hfree hnone h hadm
  refine ⟨hv.inv, fun t n j o next hrun => ?_⟩
  obtain ⟨k, hk, hw⟩ := hv.threads t _ hrun
  exact ⟨k, hw.1, hk⟩

/-! ### The result of one program -/

/-- What the program on a thread has come to, and the number and the job of the program. -/
def Pool.result (p : Pool Tid Job S Op Res α) (t : Tid) : Option (ℕ × Job × α) :=
  match p.running t with
  | some ⟨n, j, .ret a⟩ => some (n, j, a)
  | _ => none

omit [DecidableEq Tid] in
theorem running_of_result {t : Tid} {n : ℕ} {j : Job} {a : α} (h : p.result t = some (n, j, a)) :
    p.running t = some ⟨n, j, .ret a⟩ := by
  simp only [Pool.result] at h
  split at h
  · next n j a hrun =>
    cases h
    exact hrun
  · cases h

/-! ### The steps of one program -/

/-- The number of the program that takes a step in the event. -/
def stepper (p : Pool Tid Job S Op Res α) : Event Tid Job Choice Env → Option ℕ
  | .act t _ => (p.running t).map (·.id)
  | _ => none

/-- The steps of program `n` along a run, each as the shared state before and after it. -/
def stepsOf (sys : Threads Tid Job Choice Env S Op Res α) (n : ℕ) :
    Pool Tid Job S Op Res α → List (Event Tid Job Choice Env) → List (S × S)
  | _, [] => []
  | p, e :: es =>
    if stepper p e = some n then (p.shared, (sys.step p e).shared) :: stepsOf sys n (sys.step p e) es
    else stepsOf sys n (sys.step p e) es

theorem stepsOf_concat (n : ℕ) (es : List (Event Tid Job Choice Env)) :
    ∀ p : Pool Tid Job S Op Res α, stepsOf sys n p (es ++ [e]) = stepsOf sys n p es ++
      if stepper (sys.run p es) e = some n then [((sys.run p es).shared, (sys.step (sys.run p es) e).shared)]
      else [] := by
  induction es with
  | nil =>
    intro p
    simp only [stepsOf, List.nil_append, run, List.foldl_nil]
    rfl
  | cons a es ih =>
    intro p
    simp only [stepsOf, List.cons_append, ih, run, List.foldl_cons]
    split_ifs
    all_goals rfl

/-- A running program stands in its place among the started jobs. -/
def Numbered (p : Pool Tid Job S Op Res α) : Prop :=
  ∀ t r, p.running t = some r → p.started[r.id]? = some (t, r.job)

theorem numbered_step (hp : Numbered p) : Numbered (sys.step p e) := by
  obtain ⟨more, hmore⟩ := started_step sys p e
  have hkeep : ∀ (n : ℕ) x, p.started[n]? = some x → (sys.step p e).started[n]? = some x := by
    intro n x hx
    rw [← hmore, List.getElem?_append_left (List.getElem?_eq_some_iff.mp hx).1, hx]
  intro t r hr
  rcases running_step hr with ⟨hold, -⟩ | ⟨j, rfl, hfree, hacc, rfl⟩ | ⟨c, o, next, -, hrun, -⟩
  · exact hkeep _ _ (hp t r hold)
  · simp only [step, hfree, hacc, List.getElem?_append_right (Nat.le_refl _), Nat.sub_self,
      List.getElem?_cons_zero]
  · exact hkeep r.id _ (hp t ⟨r.id, r.job, .call o next⟩ hrun)

theorem numbered_run (hp : Numbered p) (es : List (Event Tid Job Choice Env)) : Numbered (sys.run p es) := by
  induction es using List.reverseRecOn with
  | nil => exact hp
  | append_singleton es e ih =>
    rw [run_concat]
    exact numbered_step ih

omit [DecidableEq Tid] in
theorem stepper_lt (hp : Numbered p) {n : ℕ} (h : stepper p e = some n) : n < p.started.length := by
  cases e with
  | start t j => cases h
  | env v => cases h
  | act t c =>
    simp only [stepper, Option.map_eq_some_iff] at h
    obtain ⟨r, hr, rfl⟩ := h
    exact (List.getElem?_eq_some_iff.mp (hp t r hr)).1

/-- A program not yet started has taken no step. -/
theorem stepsOf_unstarted (hp : Numbered p) {n : ℕ} (es : List (Event Tid Job Choice Env)) :
    (sys.run p es).started.length ≤ n → stepsOf sys n p es = [] := by
  induction es using List.reverseRecOn with
  | nil => exact fun _ => rfl
  | append_singleton es e ih =>
    intro hn
    rw [run_concat] at hn
    have hle := (started_step sys (sys.run p es) e).length_le
    have hne : stepper (sys.run p es) e ≠ some n := by
      intro hs
      have hlt := stepper_lt (numbered_run hp es) hs
      omega
    rw [stepsOf_concat, ih (Nat.le_trans hle hn), if_neg hne, List.append_nil]

theorem stepsOf_started (hp : Numbered p) {t : Tid} {j : Job} (es : List (Event Tid Job Choice Env)) :
    stepsOf sys (sys.run p es).started.length p (es ++ [.start t j]) = [] := by
  rw [stepsOf_concat, stepsOf_unstarted hp es (Nat.le_refl _)]
  rfl

/-- The operation a running program performs is its next step. -/
theorem stepsOf_act {t : Tid} {c : Choice} {n : ℕ} {j : Job} {o : Op} {next : Res o → Prog Op Res α}
    {es : List (Event Tid Job Choice Env)} (h : (sys.run p es).running t = some ⟨n, j, .call o next⟩) :
    stepsOf sys n p (es ++ [.act t c]) =
      stepsOf sys n p es ++ [((sys.run p es).shared, (sys.exec t o c (sys.run p es).shared).2)] := by
  have hstep : stepper (sys.run p es) (.act t c : Event Tid Job Choice Env) = some n := by
    rw [stepper, h]
    rfl
  rw [stepsOf_concat, if_pos hstep, shared_act h]

/-- A started job was started by an event. -/
theorem mem_started {x : Tid × Job} (es : List (Event Tid Job Choice Env)) :
    x ∈ (sys.run p es).started → x ∈ p.started ∨ .start x.1 x.2 ∈ es := by
  induction es using List.reverseRecOn with
  | nil => exact .inl
  | append_singleton es e ih =>
    intro hx
    rw [run_concat] at hx
    have hstep : x ∈ (sys.run p es).started ∨ e = .start x.1 x.2 := by
      cases e with
      | start u j =>
        rcases hu : (sys.run p es).running u with _ | r
        · rcases ha : sys.accepts u j (sys.run p es).shared with _ | _
          · simp only [step, hu, ha] at hx
            exact .inl hx
          · simp only [step, hu, ha, List.mem_append, List.mem_singleton] at hx
            rcases hx with hold | rfl
            · exact .inl hold
            · exact .inr rfl
        · simp only [step, hu] at hx
          exact .inl hx
      | act u c =>
        rcases hu : (sys.run p es).running u with _ | ⟨n, j, a | ⟨o, next⟩⟩
        all_goals
          simp only [step, hu] at hx
          exact .inl hx
      | env v => exact .inl hx
    rcases hstep with hold | rfl
    · exact (ih hold).imp id (List.mem_append_left _)
    · exact .inr (List.mem_append_right _ List.mem_cons_self)

/-- A step of a program is taken at a point of the run where it is running. -/
theorem mem_stepsOf {p₀ : Pool Tid Job S Op Res α} {n : ℕ} {x : S × S} (es : List (Event Tid Job Choice Env))
    (h : x ∈ stepsOf sys n p₀ es) : ∃ es' t c r, es' ++ [.act t c] <+: es ∧ (sys.run p₀ es').running t = some r ∧
      r.id = n ∧ x = ((sys.run p₀ es').shared, (sys.run p₀ (es' ++ [.act t c])).shared) := by
  induction es using List.reverseRecOn with
  | nil => cases h
  | append_singleton es e ih =>
    rw [stepsOf_concat] at h
    rcases List.mem_append.mp h with hold | hnew
    · obtain ⟨es', t, c, r, hpre, hrest⟩ := ih hold
      exact ⟨es', t, c, r, hpre.trans (List.prefix_append _ _), hrest⟩
    · split_ifs at hnew with hstep
      · obtain rfl := List.mem_singleton.mp hnew
        cases e with
        | start t j => cases hstep
        | env v => cases hstep
        | act t c =>
          obtain ⟨r, hr, hid⟩ := Option.map_eq_some_iff.mp hstep
          exact ⟨es, t, c, r, List.prefix_refl _, hr, hid, by rw [run_concat]⟩
      · cases hnew

/-- Program `n` performs the operation along the run, from the first shared state to the second. -/
def Performs (sys : Threads Tid Job Choice Env S Op Res α) (p₀ : Pool Tid Job S Op Res α)
    (es : List (Event Tid Job Choice Env)) (n : ℕ) (o : Op) (s s' : S) : Prop :=
  ∃ es' t c j next, es' ++ [.act t c] <+: es ∧ (sys.run p₀ es').running t = some ⟨n, j, .call o next⟩ ∧
    (sys.run p₀ es').shared = s ∧ (sys.run p₀ (es' ++ [.act t c])).shared = s'

theorem Performs.concat {p₀ : Pool Tid Job S Op Res α} {es : List (Event Tid Job Choice Env)} {n : ℕ} {o : Op} {s s' : S}
    (h : sys.Performs p₀ es n o s s') : sys.Performs p₀ (es ++ [e]) n o s s' := by
  obtain ⟨es', t, c, j, next, hpre, hrest⟩ := h
  exact ⟨es', t, c, j, next, hpre.trans (List.prefix_append _ _), hrest⟩

/-- The operation a running program performs next. -/
theorem performs_act {p₀ : Pool Tid Job S Op Res α} {es : List (Event Tid Job Choice Env)} {t : Tid} {c : Choice} {n : ℕ}
    {j : Job} {o : Op} {next : Res o → Prog Op Res α} (h : (sys.run p₀ es).running t = some ⟨n, j, .call o next⟩) :
    sys.Performs p₀ (es ++ [.act t c]) n o (sys.run p₀ es).shared (sys.exec t o c (sys.run p₀ es).shared).2 :=
  ⟨es, t, c, j, next, List.prefix_refl _, h, rfl, by rw [run_concat, shared_act h]⟩

/-- A result was returned at a point of the run where its program was about to end. -/
theorem mem_returned {p₀ : Pool Tid Job S Op Res α} {x : ℕ × Job × α} (es : List (Event Tid Job Choice Env))
    (h : x ∈ (sys.run p₀ es).returned) : x ∈ p₀.returned ∨ ∃ es' t c, es' ++ [.act t c] <+: es ∧
      (sys.run p₀ es').running t = some ⟨x.1, x.2.1, .ret x.2.2⟩ := by
  induction es using List.reverseRecOn with
  | nil => exact .inl h
  | append_singleton es e ih =>
    rw [run_concat] at h
    rcases returned_step h with hold | ⟨t, c, rfl, hrun⟩
    · rcases ih hold with hstart | ⟨es', t, c, hpre, hrun⟩
      · exact .inl hstart
      · exact .inr ⟨es', t, c, hpre.trans (List.prefix_append _ _), hrun⟩
    · exact .inr ⟨es, t, c, List.prefix_refl _, hrun⟩

/-- A program that runs after an event, and was started before it, ran before it too. -/
theorem running_before {t : Tid} {r : Running Job Op Res α} (hn : r.id < p.started.length)
    (h : (sys.step p e).running t = some r) : ∃ r', p.running t = some r' ∧ r'.id = r.id := by
  rcases running_step h with ⟨hold, -⟩ | ⟨j, -, -, -, rfl⟩ | ⟨c, o, next, -, hrun, -⟩
  · exact ⟨r, hold, rfl⟩
  · exact absurd rfl (Nat.ne_of_gt hn)
  · exact ⟨_, hrun, rfl⟩

theorem started_run (p : Pool Tid Job S Op Res α) (es : List (Event Tid Job Choice Env)) :
    p.started <+: (sys.run p es).started := by
  induction es using List.reverseRecOn with
  | nil => exact List.prefix_refl _
  | append_singleton es e ih =>
    rw [run_concat]
    exact ih.trans (started_step sys _ e)

/-- What every event keeps that does not stop a thread, stays while a program runs on it. -/
theorem stays_while_running {P : S → Prop} {t : Tid} (es : List (Event Tid Job Choice Env))
    (hstep : ∀ es' e, es' ++ [e] <+: es → (∀ v, e = .env v → sys.stops v t = false) →
      P (sys.run p es').shared → P (sys.run p (es' ++ [e])).shared)
    (h₀ : P p.shared) : ∀ r, (sys.run p es).running t = some r → r.id < p.started.length →
      P (sys.run p es).shared := by
  induction es using List.reverseRecOn with
  | nil => exact fun _ _ _ => h₀
  | append_singleton es e ih =>
    intro r hr hn
    have hnostop : ∀ v, e = .env v → sys.stops v t = false := by
      rintro v rfl
      simp only [run_concat, step] at hr
      split_ifs at hr with hstop
      exact Bool.not_eq_true _ ▸ hstop
    rw [run_concat] at hr
    obtain ⟨r', hr', hid⟩ := running_before (Nat.lt_of_lt_of_le hn (started_run p es).length_le) hr
    refine hstep es e (List.prefix_refl _) hnostop ?_
    refine ih (fun es' e' hpre => hstep es' e' (hpre.trans (List.prefix_append _ _))) r' hr' ?_
    rw [hid]
    exact hn

omit [DecidableEq Tid] in
/-- A program runs on one thread. -/
theorem thread_unique {q : Pool Tid Job S Op Res α} {t u : Tid} {r r' : Running Job Op Res α} (hp : Numbered p)
    (hq : Numbered q) (hpre : p.started <+: q.started) (h : p.running t = some r) (h' : q.running u = some r')
    (hid : r.id = r'.id) : t = u ∧ r.job = r'.job := by
  have hat := hp t r h
  have hat' := hq u r' h'
  obtain ⟨more, hmore⟩ := hpre
  rw [← hmore, ← hid, List.getElem?_append_left (List.getElem?_eq_some_iff.mp hat).1, hat] at hat'
  exact Prod.mk.inj (Option.some.inj hat')

/-! ### One program at a time -/

/-- No program runs. -/
def Quiet (p : Pool Tid Job S Op Res α) : Prop := ∀ x ∈ p.started, (p.running x.1).isNone

instance (p : Pool Tid Job S Op Res α) : Decidable (Quiet p) :=
  inferInstanceAs (Decidable (∀ x ∈ p.started, (p.running x.1).isNone))

/-- No two programs run. -/
def Solo (p : Pool Tid Job S Op Res α) : Prop := ∀ t u, (p.running t).isSome → (p.running u).isSome → t = u

/-- Where a program starts only when no other one runs, no two of them do. -/
theorem solo_step (hp : Numbered p) (h : Solo p) (hstart : ∀ t j, e = .start t j → Quiet p) : Solo (sys.step p e) := by
  have hbefore : ∀ t, ((sys.step p e).running t).isSome → (p.running t).isSome ∨ ∃ j, e = .start t j := by
    intro t ht
    obtain ⟨r, hr⟩ := Option.isSome_iff_exists.mp ht
    rcases running_step hr with ⟨hold, -⟩ | ⟨j, rfl, -⟩ | ⟨c, o, next, -, hrun, -⟩
    · exact .inl (by rw [hold]; rfl)
    · exact .inr ⟨j, rfl⟩
    · exact .inl (by rw [hrun]; rfl)
  have hquiet : ∀ t u j, e = .start u j → ¬ (p.running t).isSome := by
    rintro t u j rfl ht
    obtain ⟨r, hr⟩ := Option.isSome_iff_exists.mp ht
    have hnone := hstart u j rfl _ (List.mem_of_getElem? (hp t r hr))
    rw [hr] at hnone
    cases hnone
  intro t u ht hu
  rcases hbefore t ht, hbefore u hu with ⟨ht | ⟨j, rfl⟩, hu | ⟨j', hj'⟩⟩
  · exact h t u ht hu
  · exact absurd ht (hquiet t u j' hj')
  · exact absurd hu (hquiet u t j rfl)
  · cases hj'
    rfl

/-- While the only program that runs is spared, the shared state stands or the environment moves. -/
theorem Solo.shared_of_spares {t : Tid} {r : Running Job Op Res α} (h : Solo p) (hrun : p.running t = some r)
    (hspares : e.Spares sys t) :
    (sys.step p e).shared = p.shared ∨
    ∃ v, e = .env v ∧ sys.stops v t = false ∧ (sys.step p e).shared = sys.move v p.shared := by
  rcases shared_step sys p e with heq | ⟨u, c, n, j, o, next, rfl, hu, -⟩ | ⟨v, rfl, heq⟩
  · exact .inl heq
  · exact absurd (h u t (by rw [hu]; rfl) (by rw [hrun]; rfl)) hspares
  · exact .inr ⟨v, rfl, hspares, heq⟩

/-- The steps of the only program that runs stand under an event that spares it. -/
theorem stepsOf_spares {p₀ : Pool Tid Job S Op Res α} {es : List (Event Tid Job Choice Env)} {t : Tid}
    {r : Running Job Op Res α} (h : Solo (sys.run p₀ es)) (hrun : (sys.run p₀ es).running t = some r)
    (hspares : e.Spares sys t) : stepsOf sys r.id p₀ (es ++ [e]) = stepsOf sys r.id p₀ es := by
  have hstep : stepper (sys.run p₀ es) e ≠ some r.id := by
    intro hstep
    cases e with
    | start u j => cases hstep
    | env v => cases hstep
    | act u c =>
      obtain ⟨r', hu, -⟩ := Option.map_eq_some_iff.mp hstep
      exact hspares (h u t (by rw [hu]; rfl) (by rw [hrun]; rfl))
  rw [stepsOf_concat, if_neg hstep, List.append_nil]

end Threads
