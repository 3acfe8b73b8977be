import Duckspout.Daemon.Storage
import Duckspout.Lib.Moments

/-! The boot on a store that crashes (`duckspout-ctk/src/storage.rs`, `duckspout-replication/src/boot.rs`).

    A crash keeps the files whose content and name are both synced. A node may be killed after any storage step of a boot,
    armed faults may fail a sync or tear a write, and whatever else goes on leaves the incarnation file alone. -/

namespace Duckspout

/-! ### Crashes and armed faults -/

/-- What a crash keeps. -/
def FileState.durable (file : FileState) : Bool := file.contentDurable && file.nameDurable

namespace InMemStorage

def armFsyncFailure (store : InMemStorage) : InMemStorage := { store with failNextFsync := true }

def armTornWrite (store : InMemStorage) : InMemStorage := { store with tearNextPut := true }

def crash (store : InMemStorage) : InMemStorage :=
  { store with
    files := fun path => (store.files path).filter FileState.durable
    failNextFsync := false
    tearNextPut := false }

end InMemStorage

/-- A store whose node is killed once it has done some steps: no later one happens. -/
def mortal {S : Type} (store : Store S) : Store (S × ℕ)
  | _, (state, 0) => (.error (.backend "killed"), (state, 0))
  | op, (state, steps + 1) => ((store op state).1, ((store op state).2, steps))

/-- What happens to a node and its store. -/
inductive NodeEvent where
  /-- A boot, killed after some storage steps. -/
  | boot (registry : Except RegistryError U64) (steps : ℕ)
  | other (op : StorageOp)
  | armFsyncFailure
  | armTornWrite
  | crash

abbrev BootResult := Except BootError BootOutcome

section Node

variable (decode : Bytes → FileContent) (path : String)

/-- One event; a boot has a result. The incarnation file is in the directory that the boot syncs. -/
def NodeEvent.step : NodeEvent → InMemStorage → Option BootResult × InMemStorage
  | .boot registry steps, store =>
    let booted := (fenceBootOn (mortal InMemStorage.step) decode registry path (InMemStorage.parentDir path)).run
      (store, steps)
    (some booted.1, booted.2.1)
  | .other op, store => (none, (InMemStorage.step op store).2)
  | .armFsyncFailure, store => (none, store.armFsyncFailure)
  | .armTornWrite, store => (none, store.armTornWrite)
  | .crash, store => (none, store.crash)

abbrev NodeMoment := Moment InMemStorage NodeEvent (Option BootResult)

/-- The moments of a run. -/
abbrev nodeRun (store : InMemStorage) (events : List NodeEvent) : List NodeMoment :=
  Moment.record (NodeEvent.step decode path) store events

end Node

/-- Nothing but a boot writes or removes the incarnation file. -/
def NodeEvent.Spares (path : String) : NodeEvent → Prop
  | .other (.put p _) | .other (.delete p) => p ≠ path
  | _ => True

/-! ### What the incarnation file holds -/

def incarnationBytes (n : U64) : Bytes := (renderU64 n).map fun c => c.toNat.toUInt8

/-- The file was put with the incarnation, whole or torn. -/
def FileState.Carries (file : FileState) (n : U64) : Prop := file.torn = true ∨ file.content = incarnationBytes n

/-- The file is there with `i` or a later incarnation. -/
def Remembers (path : String) (i : ℕ) (store : InMemStorage) : Prop :=
  ∃ file n, store.files path = some file ∧ i ≤ (n : U64).val ∧ file.Carries n

/-- What a boot reads. -/
def Reads (decode : Bytes → FileContent) (path : String) (store : InMemStorage) : Option ℕ → Prop
  | none => store.files path = none
  | some v => ∃ file, store.files path = some file ∧ file.torn = false ∧ decodeIncarnation (decode file.content) = .ok v

/-- Every decoder of UTF-8 reads ASCII as it is. -/
def ReadsAscii (decode : Bytes → FileContent) : Prop :=
  ∀ chars : List Char, (∀ c ∈ chars, c.toNat < 128) → decode (chars.map fun c => c.toNat.toUInt8) = .text chars

theorem decodeIncarnation_bytes {decode : Bytes → FileContent} (hdecode : ReadsAscii decode) (n : U64) :
    decodeIncarnation (decode (incarnationBytes n)) = .ok (n : ℕ) := by
  have hascii : ∀ c ∈ renderU64 n, c.toNat < 128 := by
    intro c hc
    obtain ⟨-, hle⟩ := Char.isDigit_iff_toNat.mp (isDigit_renderU64 n c hc)
    have h9 : '9'.toNat = 57 := rfl
    omega
  rw [incarnationBytes, hdecode _ hascii, decodeIncarnation, parseU64_renderU64]
  rfl

/-- A read of what carries an incarnation gives it. -/
theorem Reads.of_carries {decode : Bytes → FileContent} (hdecode : ReadsAscii decode) {path : String}
    {store : InMemStorage} {file : FileState} {n : U64} (hfile : store.files path = some file) (hn : file.Carries n)
    {prior : Option ℕ} (hreads : Reads decode path store prior) : prior = some (n : ℕ) := by
  rcases prior with _ | v
  · rw [Reads, hfile] at hreads
    cases hreads
  · obtain ⟨file', hfile', hwhole, hv⟩ := hreads
    obtain rfl : file = file' := Option.some.inj (hfile.symm.trans hfile')
    rcases hn with htorn | hcontent
    · rw [htorn] at hwhole
      cases hwhole
    · rw [hcontent, decodeIncarnation_bytes hdecode] at hv
      rw [Except.ok.inj hv]

/-! ### One boot, step by step -/

/-- What a boot does to the incarnation file, by its result. -/
inductive BootEffect (decode : Bytes → FileContent) (path : String) (registry : Except RegistryError U64)
    (store : InMemStorage) : BootResult → InMemStorage → Prop
  | degraded {v : ℕ} (hreads : Reads decode path store (some v)) :
      BootEffect decode path registry store (.ok (.degraded v)) store
  | waiting (hreads : Reads decode path store none) : BootEffect decode path registry store (.ok .waiting) store
  | refused {e : BootError} (he : ∀ error, e ≠ .persistFailed error) : BootEffect decode path registry store (.error e) store
  | active {prior : Option ℕ} {fresh : U64} {after : InMemStorage} {file : FileState} (hdrawn : registry = .ok fresh)
      (hreads : Reads decode path store prior) (hpos : 0 < fresh.val) (habove : ∀ p ∈ prior, p < fresh.val)
      (hfile : after.files path = some file) (hcarries : file.Carries fresh) (hdurable : file.durable = true) :
      BootEffect decode path registry store (.ok (.active fresh)) after
  | failed {prior : Option ℕ} {fresh : U64} {error : StorageError} {after : InMemStorage} (hdrawn : registry = .ok fresh)
      (hreads : Reads decode path store prior) (habove : ∀ p ∈ prior, p < fresh.val)
      (hfile : after.files path = store.files path ∨ ∃ file, after.files path = some file ∧ file.Carries fresh) :
      BootEffect decode path registry store (.error (.persistFailed error)) after

section Rules

variable {S : Type} {store : Store S} {state : S} {steps : ℕ}

/-- A step of a node that may be killed before it. -/
theorem wp_perform_mortal {op : StorageOp} {Q : StorageAnswer → S × ℕ → Prop} {E : BootError → S × ℕ → Prop}
    (hkilled : Q (.error (.backend "killed")) (state, 0)) (hdone : ∀ left, Q (store op state).1 ((store op state).2, left)) :
    Fallible.Wp (perform (mortal store) op) Q E (state, steps) := by
  cases steps with
  | zero => exact hkilled
  | succ left => exact hdone left

theorem wp_persistStep_mortal {op : StorageOp} {Q : Unit → S × ℕ → Prop} {E : BootError → S × ℕ → Prop}
    (hkilled : ∀ error, E (.persistFailed error) (state, 0))
    (hdone : ∀ left, match (store op state).1 with
      | .ok _ => Q () ((store op state).2, left)
      | .error error => E (.persistFailed error) ((store op state).2, left)) :
    Fallible.Wp (persistStep (mortal store) op) Q E (state, steps) := by
  refine Fallible.wp_bind (wp_perform_mortal (hkilled _) fun left => ?_)
  rcases hanswer : (store op state).1 with error | content
  · have h := hdone left
    rw [hanswer] at h
    exact h
  · have h := hdone left
    rw [hanswer] at h
    exact h

end Rules

section Boot

variable {decode : Bytes → FileContent} {path : String} {store : InMemStorage} {steps : ℕ}

theorem step_get (path : String) (store : InMemStorage) : (InMemStorage.step (.get path) store).2 = store := by
  cases hfile : store.files path <;> simp [InMemStorage.step, hfile]

theorem readIncarnationOn_mortal : Fallible.Wp (readIncarnationOn (mortal InMemStorage.step) decode path)
    (fun prior s => s.1 = store ∧ Reads decode path store prior)
    (fun e s => s.1 = store ∧ ∀ error, e ≠ .persistFailed error) (store, steps) := by
  refine Fallible.wp_bind (wp_perform_mortal ⟨rfl, fun _ h => by cases h⟩ fun left => ?_)
  rw [step_get]
  rcases hfile : store.files path with _ | file
  · simp only [InMemStorage.step, hfile]
    exact Fallible.wp_pure ⟨rfl, hfile⟩
  · cases htorn : file.torn with
    | true =>
      simp only [InMemStorage.step, hfile, htorn, if_true]
      exact Fallible.wp_throw ⟨rfl, fun _ h => by cases h⟩
    | false =>
      simp only [InMemStorage.step, hfile, htorn, Bool.false_eq_true, if_false, Option.getD_some]
      refine Fallible.wp_bind (Fallible.wp_ofExcept (fun v hv => ?_) fun e he => ⟨rfl, fun error h => ?_⟩)
      · exact Fallible.wp_pure ⟨rfl, file, hfile, htorn, hv⟩
      · rw [h] at he
        revert he
        rcases decode file.content with chars | message
        · rw [decodeIncarnation]
          rcases parseU64 (trim chars) with text | value
          · exact fun hcorrupt => by cases hcorrupt
          · exact fun hok => by cases hok
        · exact fun hcorrupt => by cases hcorrupt

/-- The three steps of a persist, of which any number may be done. -/
theorem persistIncarnationOn_mortal (fresh : U64) :
    Fallible.Wp (persistIncarnationOn (mortal InMemStorage.step) path (InMemStorage.parentDir path) fresh)
      (fun _ s => ∃ file, s.1.files path = some file ∧ file.Carries fresh ∧ file.durable = true)
      (fun e s => (∃ error, e = .persistFailed error) ∧
        (s.1.files path = store.files path ∨ ∃ file, s.1.files path = some file ∧ file.Carries fresh))
      (store, steps) := by
  obtain ⟨file, hput, hcarries⟩ : ∃ file, (InMemStorage.step (.put path (incarnationBytes fresh)) store).2.files path =
      some file ∧ file.Carries fresh := by
    refine ⟨_, Function.update_self .., ?_⟩
    cases htorn : store.tearNextPut with
    | true => exact Or.inl rfl
    | false => exact Or.inr rfl
  refine Fallible.wp_bind (wp_persistStep_mortal (fun error => ⟨⟨error, rfl⟩, Or.inl rfl⟩) fun left => ?_)
  generalize hstored : (InMemStorage.step (.put path (incarnationBytes fresh)) store).2 = stored at hput
  change Fallible.Wp _ _ _ ((InMemStorage.step (.put path (incarnationBytes fresh)) store).2, left)
  rw [hstored]
  refine Fallible.wp_bind (wp_persistStep_mortal (fun error => ⟨⟨error, rfl⟩, Or.inr ⟨file, hput, hcarries⟩⟩) fun left => ?_)
  cases hfault : stored.failNextFsync with
  | true =>
    simp only [InMemStorage.step, hfault, if_true]
    exact ⟨⟨_, rfl⟩, Or.inr ⟨file, hput, hcarries⟩⟩
  | false =>
    simp only [InMemStorage.step, hfault, hput, Bool.false_eq_true, if_false]
    refine wp_persistStep_mortal (fun error => ⟨⟨error, rfl⟩, Or.inr ⟨_, Function.update_self .., hcarries⟩⟩) fun left => ?_
    refine ⟨{ file with contentDurable := true, nameDurable := true }, ?_, hcarries, rfl⟩
    simp [InMemStorage.step]

theorem fenceBootOn_mortal (decode : Bytes → FileContent) (path : String) (store : InMemStorage) (steps : ℕ)
    (registry : Except RegistryError U64) :
    Fallible.Wp (fenceBootOn (mortal InMemStorage.step) decode registry path (InMemStorage.parentDir path))
      (fun outcome s => BootEffect decode path registry store (.ok outcome) s.1)
      (fun e s => BootEffect decode path registry store (.error e) s.1) (store, steps) := by
  refine Fallible.wp_bind (Fallible.wp_mono ?_ ?_ readIncarnationOn_mortal)
  · rintro prior ⟨_, left⟩ ⟨rfl, hreads⟩
    rcases registry with (text | text) | fresh
    · rcases prior with _ | v
      · exact Fallible.wp_pure (.waiting hreads)
      · exact Fallible.wp_pure (.degraded hreads)
    · exact Fallible.wp_throw (.refused fun _ h => by cases h)
    · dsimp only
      split
      · exact Fallible.wp_throw (.refused fun _ h => by cases h)
      · rename_i hstale
        obtain ⟨hzero, hany⟩ := not_or.mp hstale
        have hpos : 0 < fresh.val := Nat.pos_of_ne_zero fun h => hzero (Fin.ext h)
        have habove : ∀ p ∈ prior, p < fresh.val := by
          intro p hp
          rw [Option.mem_def.mp hp, Option.any_some, decide_eq_true_eq] at hany
          exact not_le.mp hany
        refine Fallible.wp_bind (Fallible.wp_mono ?_ ?_ (persistIncarnationOn_mortal fresh))
        · rintro _ s ⟨file, hfile, hcarries, hdurable⟩
          exact Fallible.wp_pure (.active rfl hreads hpos habove hfile hcarries hdurable)
        · rintro _ s ⟨⟨error, rfl⟩, hfile⟩
          exact .failed rfl hreads habove hfile
  · rintro e ⟨_, left⟩ ⟨rfl, he⟩
    exact .refused he

/-- Everything a boot can do. -/
theorem boot_effect (decode : Bytes → FileContent) (path : String) (registry : Except RegistryError U64) (steps : ℕ)
    (store : InMemStorage) : ∃ r, ((NodeEvent.boot registry steps).step decode path store).1 = some r ∧
      BootEffect decode path registry store r ((NodeEvent.boot registry steps).step decode path store).2 := by
  refine ⟨_, rfl, ?_⟩
  have hwp := fenceBootOn_mortal decode path store steps registry
  simp only [Fallible.Wp] at hwp
  simp only [NodeEvent.step]
  rcases hrun : (fenceBootOn (mortal InMemStorage.step) decode registry path (InMemStorage.parentDir path)).run (store, steps)
    with ⟨e | outcome, state⟩
  all_goals
    rw [hrun] at hwp
    exact hwp

end Boot

/-! ### What a run keeps -/

section Run

variable {decode : Bytes → FileContent} {path : String} {store after : InMemStorage} {i : ℕ}

theorem Remembers.boot (hdecode : ReadsAscii decode) (h : Remembers path i store) {registry : Except RegistryError U64}
    {r : BootResult} (heffect : BootEffect decode path registry store r after) :
    Remembers path i after ∧ (∀ j, r = .ok (.active j) → i < j) ∧ (∀ j, r = .ok (.degraded j) → i ≤ j) ∧
      r ≠ .ok .waiting := by
  obtain ⟨file, n, hfile, hle, hcarries⟩ := h
  -- whatever is drawn and put is above what was read
  have hbelow : ∀ {prior fresh}, Reads decode path store prior → (∀ p ∈ prior, p < (fresh : U64).val) → i < fresh.val := by
    intro prior fresh hreads habove
    exact hle.trans_lt (habove n (hreads.of_carries hdecode hfile hcarries))
  cases heffect with
  | degraded hreads =>
    have hv := Option.some.inj (hreads.of_carries hdecode hfile hcarries)
    refine ⟨⟨file, n, hfile, hle, hcarries⟩, by simp, fun j hj => ?_, by simp⟩
    cases hj
    omega
  | waiting hreads => cases hreads.of_carries hdecode hfile hcarries
  | refused he => exact ⟨⟨file, n, hfile, hle, hcarries⟩, by simp, by simp, by simp⟩
  | active hdrawn hreads hpos habove hnew hcarriesNew hdurable =>
    refine ⟨⟨_, _, hnew, (hbelow hreads habove).le, hcarriesNew⟩, fun j hj => ?_, by simp, by simp⟩
    cases hj
    exact hbelow hreads habove
  | failed hdrawn hreads habove hnew =>
    refine ⟨?_, by simp, by simp, by simp⟩
    rcases hnew with hsame | ⟨new, hnew, hcarriesNew⟩
    · exact ⟨file, n, hsame.trans hfile, hle, hcarries⟩
    · exact ⟨new, _, hnew, (hbelow hreads habove).le, hcarriesNew⟩

/-- A step that spares the file changes its marks at most, and never takes one away. -/
theorem step_spares {op : StorageOp} (store : InMemStorage) (hop : (NodeEvent.other op).Spares path) :
    (store.files path = none → (InMemStorage.step op store).2.files path = none) ∧
      ∀ file, store.files path = some file → ∃ marked, (InMemStorage.step op store).2.files path = some marked ∧
        marked.content = file.content ∧ marked.torn = file.torn ∧ (file.durable = true → marked.durable = true) := by
  have hsame : ∀ {next : InMemStorage}, next.files path = store.files path →
      (store.files path = none → next.files path = none) ∧ ∀ file, store.files path = some file →
        ∃ marked, next.files path = some marked ∧ marked.content = file.content ∧ marked.torn = file.torn ∧
          (file.durable = true → marked.durable = true) :=
    fun hnext => ⟨fun h => hnext.trans h, fun file h => ⟨file, hnext.trans h, rfl, rfl, id⟩⟩
  cases op with
  | put p data => exact hsame (Function.update_of_ne (Ne.symm hop) ..)
  | get p => exact hsame (by rw [step_get])
  | delete p =>
    refine hsame ?_
    cases hp : store.files p with
    | none => simp [InMemStorage.step, hp]
    | some file => simp [InMemStorage.step, hp, Function.update_of_ne (Ne.symm hop)]
  | fsyncFile p =>
    cases hfault : store.failNextFsync with
    | true => exact hsame (by simp [InMemStorage.step, hfault])
    | false =>
      cases hp : store.files p with
      | none => exact hsame (by simp [InMemStorage.step, hfault, hp])
      | some old =>
        by_cases heq : path = p
        · subst heq
          refine ⟨fun hnone => absurd (hp.symm.trans hnone) (by simp), fun file hfile => ?_⟩
          obtain rfl : old = file := Option.some.inj (hp.symm.trans hfile)
          refine ⟨{ old with contentDurable := true }, by simp [InMemStorage.step, hfault, hp], rfl, rfl, ?_⟩
          simp only [FileState.durable, Bool.and_eq_true]
          exact fun h => ⟨trivial, h.2⟩
        · exact hsame (by simp [InMemStorage.step, hfault, hp, Function.update_of_ne heq])
  | fsyncDir dir =>
    refine ⟨fun hnone => by simp [InMemStorage.step, hnone], fun file hfile => ?_⟩
    refine ⟨if InMemStorage.parentDir path = dir then { file with nameDurable := true } else file,
      by simp [InMemStorage.step, hfile], ?_, ?_, ?_⟩
    · split <;> rfl
    · split <;> rfl
    · split
      · simp only [FileState.durable, Bool.and_eq_true]
        exact fun h => ⟨h.1, trivial⟩
      · exact id

/-- The crash takes the incarnation file away. -/
def Loses (path : String) (m : NodeMoment) : Prop :=
  (match m.event with | .crash => True | _ => False) ∧
    ∃ file, m.before.files path = some file ∧ file.durable = false

/-- The boot drew an incarnation and did not get to persist it. -/
def PersistFailed (m : NodeMoment) : Prop := ∃ error, m.result = some (.error (.persistFailed error))

/-- What a moment does to a file that is remembered. -/
theorem Remembers.moment (hdecode : ReadsAscii decode) {m : NodeMoment} (hstep : (m.result, m.after) = m.event.step decode path m.before)
    (hspares : m.event.Spares path) (hkept : ¬Loses path m) (h : Remembers path i m.before) : Remembers path i m.after := by
  obtain ⟨before, event, result, after⟩ := m
  dsimp only at hstep hspares h ⊢
  cases event with
  | boot registry steps =>
    obtain ⟨-, rfl⟩ := Prod.mk.inj hstep
    obtain ⟨r, -, heffect⟩ := boot_effect decode path registry steps before
    exact (h.boot hdecode heffect).1
  | other op =>
    obtain ⟨-, rfl⟩ := Prod.mk.inj hstep
    obtain ⟨file, n, hfile, hle, hcarries⟩ := h
    obtain ⟨marked, hmarked, hcontent, htorn, -⟩ := (step_spares _ hspares).2 file hfile
    exact ⟨marked, n, hmarked, hle, by rwa [FileState.Carries, htorn, hcontent]⟩
  | armFsyncFailure =>
    obtain ⟨-, rfl⟩ := Prod.mk.inj hstep
    exact h
  | armTornWrite =>
    obtain ⟨-, rfl⟩ := Prod.mk.inj hstep
    exact h
  | crash =>
    obtain ⟨-, rfl⟩ := Prod.mk.inj hstep
    obtain ⟨file, n, hfile, hle, hcarries⟩ := h
    have hdurable : file.durable = true := by
      by_contra hlost
      exact hkept ⟨trivial, file, hfile, Bool.not_eq_true _ ▸ hlost⟩
    exact ⟨file, n, by simp [InMemStorage.crash, hfile, hdurable], hle, hcarries⟩

/-- Where the incarnation file is there, a crash keeps it. -/
def Survives (path : String) (store : InMemStorage) : Prop := ∀ file, store.files path = some file → file.durable = true

theorem Survives.moment {m : NodeMoment} (hstep : (m.result, m.after) = m.event.step decode path m.before)
    (hspares : m.event.Spares path) (hpersisted : ¬PersistFailed m) (h : Survives path m.before) : Survives path m.after := by
  obtain ⟨before, event, result, after⟩ := m
  dsimp only at hstep hspares h ⊢
  cases event with
  | boot registry steps =>
    obtain ⟨r, hr, heffect⟩ := boot_effect decode path registry steps before
    rw [← hstep] at hr heffect
    cases heffect with
    | degraded | waiting | refused => exact h
    | active hdrawn hreads hpos habove hfile hcarries hdurable =>
      intro file hnew
      rwa [Option.some.inj (hnew.symm.trans hfile)]
    | failed => exact absurd ⟨_, hr⟩ hpersisted
  | other op =>
    obtain ⟨-, rfl⟩ := Prod.mk.inj hstep
    obtain ⟨hnone, hsome⟩ := step_spares before hspares
    intro file hfile
    rcases hbefore : before.files path with _ | old
    · rw [hnone hbefore] at hfile
      cases hfile
    · obtain ⟨marked, hmarked, -, -, hdurable⟩ := hsome old hbefore
      rw [Option.some.inj (hfile.symm.trans hmarked)]
      exact hdurable (h old hbefore)
  | armFsyncFailure =>
    obtain ⟨-, rfl⟩ := Prod.mk.inj hstep
    exact h
  | armTornWrite =>
    obtain ⟨-, rfl⟩ := Prod.mk.inj hstep
    exact h
  | crash =>
    obtain ⟨-, rfl⟩ := Prod.mk.inj hstep
    exact fun file hfile => (Option.filter_eq_some_iff.mp hfile).2

theorem Survives.not_loses {m : NodeMoment} (h : Survives path m.before) : ¬Loses path m := by
  rintro ⟨-, file, hfile, hlost⟩
  rw [h file hfile] at hlost
  cases hlost

/-- What the file carries some boot among the events drew. -/
def Drawn (path : String) (events : List NodeEvent) (store : InMemStorage) : Prop :=
  ∀ file, store.files path = some file → ∃ n steps, NodeEvent.boot (.ok n) steps ∈ events ∧ file.Carries n

theorem Drawn.step {event : NodeEvent} {events : List NodeEvent} (hspares : event.Spares path)
    (h : Drawn path events store) : Drawn path (events ++ [event]) (event.step decode path store).2 := by
  have hkeep : Drawn path (events ++ [event]) store := by
    intro file hfile
    obtain ⟨n, steps, hmem, hcarries⟩ := h file hfile
    exact ⟨n, steps, List.mem_append_left _ hmem, hcarries⟩
  cases event with
  | boot registry steps =>
    obtain ⟨r, -, heffect⟩ := boot_effect decode path registry steps store
    have hnew : ∀ {n : U64}, registry = .ok n →
        NodeEvent.boot (.ok n) steps ∈ events ++ [NodeEvent.boot registry steps] := by
      rintro n rfl
      exact List.mem_append_right _ List.mem_cons_self
    generalize (NodeEvent.step decode path (.boot registry steps) store).2 = after at heffect
    cases heffect with
    | degraded | waiting | refused => exact hkeep
    | active hdrawn hreads hpos habove hput hcarries hdurable =>
      intro file hfile
      exact ⟨_, steps, hnew hdrawn, Option.some.inj (hfile.symm.trans hput) ▸ hcarries⟩
    | failed hdrawn hreads habove hput =>
      intro file hfile
      rcases hput with hsame | ⟨new, hput, hcarries⟩
      · exact hkeep file (hsame.symm.trans hfile)
      · exact ⟨_, steps, hnew hdrawn, Option.some.inj (hfile.symm.trans hput) ▸ hcarries⟩
  | other op =>
    obtain ⟨hnone, hsome⟩ := step_spares store hspares
    intro file hfile
    rcases hbefore : store.files path with _ | old
    · cases (hnone hbefore).symm.trans hfile
    · obtain ⟨marked, hmarked, hcontent, htorn, -⟩ := hsome old hbefore
      obtain ⟨n, steps, hmem, hcarries⟩ := hkeep old hbefore
      rw [Option.some.inj (hfile.symm.trans hmarked)]
      exact ⟨n, steps, hmem, by rwa [FileState.Carries, htorn, hcontent]⟩
  | armFsyncFailure => exact hkeep
  | armTornWrite => exact hkeep
  | crash => exact fun file hfile => hkeep file (Option.filter_eq_some_iff.mp hfile).1

theorem Drawn.final {events : List NodeEvent} (hspares : ∀ event ∈ events, event.Spares path)
    (hnew : store.files path = none) : Drawn path events (Moment.final (NodeEvent.step decode path) store events) := by
  induction events using List.reverseRecOn with
  | nil => exact fun file hfile => by cases hnew.symm.trans hfile
  | append_singleton events event ih =>
    rw [Moment.final_append]
    exact (ih fun e he => hspares e (List.mem_append_left _ he)).step
      (hspares event (List.mem_append_right _ List.mem_cons_self))

/-- A boot is the only event with a result. -/
theorem boot_of_result {m : NodeMoment} (hstep : (m.result, m.after) = m.event.step decode path m.before) {r : BootResult}
    (hr : m.result = some r) : ∃ registry, BootEffect decode path registry m.before r m.after := by
  obtain ⟨before, event, result, after⟩ := m
  dsimp only at hstep hr ⊢
  subst hr
  cases event with
  | boot registry steps =>
    obtain ⟨r', hr', heffect⟩ := boot_effect decode path registry steps before
    rw [← hstep] at hr' heffect
    exact ⟨registry, Option.some.inj hr' ▸ heffect⟩
  | other | armFsyncFailure | armTornWrite | crash => cases (Prod.mk.inj hstep).1

theorem of_active {m : NodeMoment} (hstep : (m.result, m.after) = m.event.step decode path m.before)
    (hi : m.result = some (.ok (.active i))) : Remembers path i m.after ∧ Survives path m.after := by
  obtain ⟨registry, heffect⟩ := boot_of_result hstep hi
  obtain ⟨before, event, result, after⟩ := m
  dsimp only at heffect ⊢
  generalize hr : (Except.ok (.active i) : BootResult) = r at heffect
  cases heffect with
  | active hdrawn hreads hpos habove hfile hcarries hdurable =>
    cases hr
    exact ⟨⟨_, _, hfile, le_rfl, hcarries⟩, fun file hnew => by rwa [Option.some.inj (hnew.symm.trans hfile)]⟩
  | degraded | waiting | refused | failed => cases hr

theorem Drawn.degraded (hdecode : ReadsAscii decode) {events : List NodeEvent} (h : Drawn path events store)
    {registry : Except RegistryError U64} {j : ℕ} (heffect : BootEffect decode path registry store (.ok (.degraded j)) after) :
    ∃ n steps, NodeEvent.boot (.ok n) steps ∈ events ∧ (n : U64).val = j := by
  cases heffect with
  | degraded hreads =>
    obtain ⟨file, hfile, -, -⟩ := id hreads
    obtain ⟨n, steps, hmem, hcarries⟩ := h file hfile
    exact ⟨n, steps, hmem, (Option.some.inj (hreads.of_carries hdecode hfile hcarries)).symm⟩

end Run

/-- On a store that crashes, where nothing but its boots writes a node's incarnation file: as long as no crash takes the
    file away, an incarnation that a boot activates is above every one activated before it, a degraded boot resumes at
    least the last one, and no boot waits after one was activated; a crash takes the file away only where a boot since has
    failed to persist what it drew; and what a boot resumes, an earlier boot has drawn. -/
theorem crash_safe_boot {decode : Bytes → FileContent} (hdecode : ReadsAscii decode) {path : String} {store : InMemStorage}
    (hnew : store.files path = none) {events : List NodeEvent} (hspares : ∀ event ∈ events, event.Spares path)
    {earlier mid rest : List NodeMoment} {boot later : NodeMoment}
    (hrun : nodeRun decode path store events = earlier ++ boot :: (mid ++ later :: rest)) :
    (∀ i, boot.result = some (.ok (.active i)) → (∀ m ∈ mid, ¬Loses path m) →
      (∀ j, later.result = some (.ok (.active j)) → i < j) ∧ (∀ j, later.result = some (.ok (.degraded j)) → i ≤ j) ∧
        later.result ≠ some (.ok .waiting)) ∧
    (∀ i, boot.result = some (.ok (.active i)) → (∀ m ∈ mid, ¬PersistFailed m) →
      (∀ m ∈ mid, ¬Loses path m) ∧ ¬Loses path later) ∧
    (∀ j, later.result = some (.ok (.degraded j)) →
      ∃ n steps, NodeEvent.boot (.ok n) steps ∈ (earlier ++ boot :: mid).map (·.event) ∧ (n : U64).val = j) := by
  obtain ⟨before, after, rfl, rfl, hbefore, hstep, hrest⟩ := Moment.record_split hrun
  have hspared : ∀ m ∈ mid ++ later :: rest, (m.result, m.after) = m.event.step decode path m.before ∧ m.event.Spares path := by
    intro m hm
    rw [hrest] at hm
    obtain ⟨hstep, hmem⟩ := Moment.step_of_mem hm
    exact ⟨hstep, hspares _ (List.mem_append_right _ (List.mem_cons_of_mem _ hmem))⟩
  obtain ⟨hlater, -⟩ := hspared later (List.mem_append_right _ List.mem_cons_self)
  have hmid : ∀ m ∈ mid, (m.result, m.after) = m.event.step decode path m.before ∧ m.event.Spares path :=
    fun m hm => hspared m (List.mem_append_left _ hm)
  refine ⟨fun i hi hkept => ?_, fun i hi hpersisted => ?_, fun j hj => ?_⟩
  · have hremembers : Remembers path i later.before :=
      Moment.carried hrest.symm (of_active hstep hi).1 fun m hm hbefore =>
        hbefore.moment hdecode (hmid m hm).1 (hmid m hm).2 (hkept m hm)
    refine ⟨fun j hj => ?_, fun j hj => ?_, fun hwaiting => ?_⟩
    · obtain ⟨registry, heffect⟩ := boot_of_result hlater hj
      exact (hremembers.boot hdecode heffect).2.1 j rfl
    · obtain ⟨registry, heffect⟩ := boot_of_result hlater hj
      exact (hremembers.boot hdecode heffect).2.2.1 j rfl
    · obtain ⟨registry, heffect⟩ := boot_of_result hlater hwaiting
      exact (hremembers.boot hdecode heffect).2.2.2 rfl
  · have hsynced := Moment.carried_mem hrest.symm (of_active hstep hi).2 fun m hm hbefore =>
      hbefore.moment (hmid m hm).1 (hmid m hm).2 (hpersisted m hm)
    exact ⟨fun m hm => (hsynced.1 m hm).not_loses, hsynced.2.not_loses⟩
  · obtain ⟨registry, heffect⟩ := boot_of_result hlater hj
    have hsplit : nodeRun decode path store (before ++ boot.event :: after) =
        (Moment.record (NodeEvent.step decode path) store before ++ boot :: mid) ++ later :: rest := by
      rw [hrun, List.append_assoc, List.cons_append]
    obtain ⟨prior, others, hevents, hprior, hstart, -, -⟩ := Moment.record_split hsplit
    rw [hprior, Moment.map_event_record]
    have hdrawn : Drawn path prior later.before := by
      rw [hstart]
      exact Drawn.final (fun e he => hspares e (hevents ▸ List.mem_append_left _ he)) hnew
    exact hdrawn.degraded hdecode heffect

theorem readsAscii_asciiText : ReadsAscii asciiText := by
  intro chars hchars
  rw [asciiText, List.map_map]
  refine congrArg _ ((List.map_congr_left fun c hc => ?_).trans (List.map_id chars))
  have hbyte : c.toNat.toUInt8.toNat = c.toNat := by
    have hlt := hchars c hc
    rw [Nat.toUInt8, UInt8.toNat_ofNat']
    omega
  rw [Function.comp_apply, hbyte, Char.ofNat_toNat, id]

/-- A node boots, its machine crashes, and it boots again. -/
def crashedLife : List NodeEvent := [.boot (.ok 7) 4, .crash, .boot (.ok 9) 4]

theorem spares_crashedLife : ∀ event ∈ crashedLife, event.Spares "incarnation" := by
  simp [crashedLife, NodeEvent.Spares]

theorem crash_safe_boot_crashedLife : ∃ active crash later,
    nodeRun asciiText "incarnation" {} crashedLife = [] ++ active :: ([crash] ++ later :: []) ∧
      active.result = some (.ok (.active 7)) ∧ later.result = some (.ok (.active 9)) ∧ ¬Loses "incarnation" crash ∧
      ∀ j, later.result = some (.ok (.active j)) → 7 < j := by
  obtain ⟨active, crash, later, hrun, hactive, hcrash, hlater⟩ : ∃ active crash later,
      nodeRun asciiText "incarnation" {} crashedLife = [] ++ active :: ([crash] ++ later :: []) ∧
        active.result = some (.ok (.active 7)) ∧ crash.result = none ∧ later.result = some (.ok (.active 9)) :=
    ⟨_, _, _, rfl, rfl, rfl, rfl⟩
  have hnew : ({} : InMemStorage).files "incarnation" = none := rfl
  obtain ⟨hincreases, hkept, -⟩ := crash_safe_boot readsAscii_asciiText hnew spares_crashedLife hrun
  have hmid : ∀ m ∈ [crash], ¬PersistFailed m := by
    intro m hm
    rw [List.mem_singleton.mp hm, PersistFailed, hcrash]
    rintro ⟨_, herror⟩
    cases herror
  obtain ⟨hcrashes, -⟩ := hkept 7 hactive hmid
  exact ⟨active, crash, later, hrun, hactive, hlater, hcrashes crash List.mem_cons_self, (hincreases 7 hactive hcrashes).1⟩

end Duckspout
