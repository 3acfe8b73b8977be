import Duckspout.Staging.Closed
import Duckspout.Staging.Dedup
import Duckspout.Staging.Drop
import Duckspout.Staging.Replay
import Mathlib.Data.Finset.Sort

/-! Window ids. The next id of a partition comes from the durable high-water of the ids given, not from the live windows,
    so a window that was dropped leaves its id behind. With one call at a time the ids given are those from 0 on, each
    once. -/

namespace Duckspout

open Threads

/-! ### The registry in a transaction -/

/-- The same windows are registered and the high-waters are the same. -/
def HotDb.SameWindows (db db' : HotDb) : Prop := (∀ k, k ∈ db'.windows ↔ k ∈ db.windows) ∧ db'.windowHw = db.windowHw

/-- One window more is registered, and the high-water of its dataset and partition is raised to it. -/
structure HotDb.Creates (key : WindowKey) (db db' : HotDb) : Prop where
  fresh : key ∉ db.windows
  windows : ∀ k, k ∈ db'.windows ↔ k = key ∨ k ∈ db.windows
  windowHw : db'.windowHw = raiseHw db.windowHw key

theorem HotDb.SameWindows.refl (db : HotDb) : db.SameWindows db := ⟨fun _ => Iff.rfl, rfl⟩

theorem HotDb.SameWindows.trans {db db' db'' : HotDb} (h : db.SameWindows db') (h' : db'.SameWindows db'') :
    db.SameWindows db'' := ⟨fun k => (h'.1 k).trans (h.1 k), h'.2.trans h.2⟩

theorem HotDb.Creates.then_same {key : WindowKey} {db db' db'' : HotDb} (h : HotDb.Creates key db db')
    (h' : db'.SameWindows db'') : HotDb.Creates key db db'' :=
  ⟨h.fresh, fun k => (h'.1 k).trans (h.windows k), h'.2.trans h.windowHw⟩

/-- The transaction has created no window, or its own. -/
structure Registering (e : StagingEngine) (key : WindowKey) (t : StageTxn) : Prop where
  writer : t.writer = e.writer
  windows : t.pendingWindows = [] ∧ e.db.SameWindows t.view ∨ (t.table? key).isSome ∧ HotDb.Creates key e.db t.view

/-- The dedup window is no part of it. -/
theorem Registering.dedup {e : StagingEngine} {key : WindowKey} {t : StageTxn} (h : Registering e key t)
    (dedup : List DedupRow) : Registering e key { t with view := { t.view with dedup } } where
  writer := h.writer
  windows := h.windows.imp id fun hcreated => ⟨hcreated.1, hcreated.2.then_same ⟨fun _ => Iff.rfl, rfl⟩⟩

section Registering

open Fallible

variable {e : StagingEngine} {key : WindowKey} {t : StageTxn} {faults : Faults} {stmt : Stmt}

theorem wp_executeRegistering {effect : HotDb → Except Fault HotDb} (h : Registering e key t)
    (heffect : ∀ db db', effect db = .ok db' → db.SameWindows db') :
    Wp (StageTxn.execute faults stmt effect) (fun _ => Registering e key) (fun _ _ => True) t := by
  refine wp_execute (fun _ view hview => ⟨h.writer, ?_⟩) (fun _ _ => trivial) fun _ _ => trivial
  rcases h.windows with ⟨hnone, hsame⟩ | ⟨hsome, hcreates⟩
  · exact .inl ⟨hnone, hsame.trans (heffect _ _ hview)⟩
  · exact .inr ⟨hsome, hcreates.then_same (heffect _ _ hview)⟩

theorem sameWindows_appendRows {table : String} {rows : List StagedRow} {db db' : HotDb}
    (h : HotDb.appendRows key table rows db = .ok db') : db.SameWindows db' := by
  simp only [HotDb.appendRows] at h
  split at h
  · cases h
  · cases h
    exact ⟨fun _ => Iff.rfl, rfl⟩

theorem sameWindows_updateBytes {bytes : U64} {db db' : HotDb} (h : HotDb.updateBytes key bytes db = .ok db') :
    db.SameWindows db' := by
  simp only [HotDb.updateBytes] at h
  split at h
  next => cases h; exact ⟨fun _ => Iff.rfl, rfl⟩
  next m hm =>
    split_ifs at h
    cases h
    refine ⟨fun k => ?_, rfl⟩
    simp only [addBytes, hm, Finmap.mem_insert]
    have hkey : key ∈ db.windows := Finmap.mem_iff.mpr ⟨m, hm⟩
    constructor
    · rintro (rfl | hk)
      · exact hkey
      · exact hk
    · exact .inr

theorem creates_withWindow {db view : HotDb} (hfree : key ∉ db.windows) (h : db.SameWindows view) :
    HotDb.Creates key db (view.withWindow key) := by
  refine ⟨hfree, fun k => ?_, ?_⟩
  · simp only [HotDb.withWindow, Finmap.mem_insert, h.1 k]
  · simp only [HotDb.withWindow, h.2]

theorem wp_ensureWindowRegistering (fields : List Field) (hsteady : e.Steady) (h : Registering e key t) :
    Wp (StageTxn.ensureWindow faults key fields) (fun _ => Registering e key) (fun _ _ => True) t := by
  refine wp_bind (wp_get ?_)
  rcases htable : t.table? key with _ | table
  · rcases h.windows with ⟨hnone, hsame⟩ | ⟨hsome, -⟩
    · have hfree : key ∉ e.db.windows := by
        simp only [StageTxn.table?, h.writer, hsteady.windows_eq] at htable
        rcases hm : e.db.windows.lookup key with _ | m
        · exact Finmap.lookup_eq_none.mp hm
        · rw [hm] at htable
          cases htable
      refine wp_bind (wp_checkFields ?_ fun _ => trivial)
      refine wp_bind (wp_execute (fun _ view₁ h₁ => ?_) (fun _ _ => trivial) fun _ _ => trivial)
      refine wp_bind (wp_execute (fun _ view₂ h₂ => ?_) (fun _ _ => trivial) fun _ _ => trivial)
      refine wp_bind (wp_execute (fun _ view₃ h₃ => ?_) (fun _ _ => trivial) fun _ _ => trivial)
      obtain ⟨-, rfl⟩ := withWindow_of_statements h₁ h₂ h₃
      refine wp_bind (wp_modify (wp_pure ⟨h.writer, .inr ⟨?_, creates_withWindow hfree hsame⟩⟩))
      simp only [StageTxn.table?, hnone, List.nil_append]
      split
      · rfl
      · simp
    · rw [htable] at hsome
      cases hsome
  · exact wp_pure h

theorem wp_appendRegistering (batch : RecordBatch) (hsteady : e.Steady) (h : Registering e key t) :
    Wp (StageTxn.append faults key batch) (fun _ => Registering e key) (fun _ _ => True) t := by
  refine wp_bind (wp_mono (fun table t h => ?_) (fun _ _ h => h) (wp_ensureWindowRegistering batch.fields hsteady h))
  split_ifs
  · exact wp_pure h
  refine wp_bind (wp_get ?_)
  dsimp only
  split_ifs
  · exact wp_throw trivial
  refine wp_bind (wp_mono (fun _ t h => ?_) (fun _ _ h => h) (wp_executeRegistering h fun _ _ => sameWindows_appendRows))
  refine wp_bind (wp_mono (fun _ t h => ?_) (fun _ _ h => h) (wp_executeRegistering h fun _ _ => sameWindows_updateBytes))
  exact wp_modify ⟨h.writer, h.windows⟩

/-- A transaction changes no window, or creates its own and commits. -/
theorem transact_registers (libs : StagerLibs) (config : StagerConfig) (fate : StageFate) (request : StageRequest)
    {s : EngineStager} (hsteady : s.engine.Steady) :
    s.engine.db.SameWindows (s.transact libs config fate request).2.engine.db ∨
    HotDb.Creates request.window s.engine.db (s.transact libs config fate request).2.engine.db ∧
      ∃ coverage, (s.transact libs config fate request).1 = .ok (.committed coverage) := by
  have hsame : s.engine.db.SameWindows s.engine.begin.view := .refl _
  have hwp : Wp (stageTxn libs config fate request) _ (fun _ _ => True) s.engine.begin := wp_stageTxnInv
    (I := fun done t => Registering s.engine request.window t ∧ (done = [] → s.engine.db.SameWindows t.view))
    rfl ⟨⟨rfl, .inl ⟨rfl, hsame⟩⟩, fun _ => hsame⟩
    (fun done x t h => wp_mono (fun _ t h => ⟨h, fun hnil => by simp at hnil⟩) (fun _ _ h => h)
      (wp_appendRegistering x.1 hsteady h.1))
    (fun done t dedup h => ⟨h.1.dedup dedup, h.2⟩)
  have hheld : Wp (stageTxn libs config fate request) _ (fun _ => Held s.engine.writer) s.engine.begin :=
    wp_stageTxn rfl rfl rfl
  simp only [Wp] at hwp hheld
  simp only [EngineStager.transact]
  split
  · exact .inl (.refl _)
  · rcases hr : (stageTxn libs config fate request).run s.engine.begin with ⟨e | ⟨outcome, evicted⟩, t⟩
    · rw [hr] at hheld
      dsimp only [StagingEngine.close]
      rw [hheld.finished]
      exact .inl (.refl _)
    · rw [hr] at hwp
      obtain ⟨done, t₀, ⟨hregistering, hnil⟩, hdone, houtcome⟩ := hwp
      dsimp only [StagingEngine.close]
      rw [hdone.finished, if_pos rfl, hdone.view]
      have happlied : t₀.view.SameWindows
          { t₀.view with applied := upsertAll t₀.origin t₀.view.applied t₀.pendingApplied.toList } :=
        ⟨fun _ => Iff.rfl, rfl⟩
      rcases houtcome with ⟨-, rfl⟩ | ⟨rfl, -⟩
      · exact .inl ((hnil rfl).trans happlied)
      · rcases hregistering.windows with ⟨-, hsame⟩ | ⟨-, hcreates⟩
        · exact .inl (hsame.trans happlied)
        · exact .inr ⟨hcreates.then_same happlied, _, rfl⟩

end Registering

/-! ### The registry under the operations -/

/-- What an operation, with its answer, can do to the registry of windows. -/
inductive HotDb.Registry (db db' : HotDb) : (o : StagingOp) → o.Res → Prop where
  | same {o : StagingOp} {r : o.Res} (h : db.SameWindows db') : Registry db db' o r
  | creates {request : StageRequest} {coverage : List StagedCoverage} (h : HotDb.Creates request.window db db') :
      Registry db db' (.transact request) (.ok (.committed coverage))
  | drops {key : WindowKey} {r : Except StagingError Bool} (h : ∀ k, k ∈ db'.windows ↔ k ≠ key ∧ k ∈ db.windows)
      (hhw : db'.windowHw = db.windowHw) : Registry db db' (.dropWindow key) r

theorem exec_registry (setup : StagingSetup) {s : StagingNode} (h : s.stager.engine.Steady) (o : StagingOp)
    (fate : StagingFate) :
    HotDb.Registry s.db (StagingNode.exec setup o fate s).2.db o (StagingNode.exec setup o fate s).1 := by
  have hstep := (exec_windows setup h o fate).2
  cases o with
  | transact request =>
    rcases transact_registers setup.libs setup.config fate.stage request h with hsame | ⟨hcreates, coverage, hanswer⟩
    · exact .same hsame
    · change HotDb.Registry s.db _ (.transact request) (s.stager.transact setup.libs setup.config fate.stage request).1
      rw [hanswer]
      exact .creates hcreates
  | dropWindow key =>
    generalize (StagingNode.exec setup (.dropWindow key) fate s).2.db = db' at hstep ⊢
    cases hstep with
    | same => exact .same (.refl _)
    | drop => exact .drops (fun k => Finmap.mem_erase) rfl
  | deleteCoveredRows table covered =>
    generalize (StagingNode.exec setup (.deleteCoveredRows table covered) fate s).2.db = db' at hstep ⊢
    cases hstep with
    | same => exact .same (.refl _)
    | delete => exact .same ⟨fun _ => Iff.rfl, rfl⟩
  | _ =>
    generalize hdb : (StagingNode.exec setup _ fate s).2.db = db' at hstep ⊢
    cases hstep with
    | same => exact .same (.refl _)

/-! ### The open windows -/

/-- The id after a high-water. -/
def nextId : Option WindowId → WindowId
  | none => 0
  | some w => w + 1

/-- A partition's open window is the highest one created or the one to be created next; the highest is there, and no
    window is above it. -/
structure IdsInv (s : StagingNode) : Prop where
  opened : ∀ d p w, s.stager.openWindows d p = some w →
    w.id = nextId (s.db.windowHw d p) ∨ s.db.windowHw d p = some w.id
  live : ∀ d p w, s.db.windowHw d p = some w → ⟨d, p, w⟩ ∈ s.db.windows
  below : ∀ key ∈ s.db.windows, key.window < nextId (s.db.windowHw key.dataset key.partition)

/-- The call has chosen the window, and the partition's open window is still this one. -/
def Chosen (s : StagingNode) (chosen : Option WindowKey) : Prop :=
  ∀ key, chosen = some key → ∃ w, s.stager.openWindows key.dataset key.partition = some w ∧ w.id = key.window

/-- A call that drops a window drops one that a later one has replaced. -/
def StagingJob.Replaced (db : HotDb) : StagingJob → Prop
  | .drop key _ => db.Below key
  | _ => True

/-- A transaction puts rows into the window its call has chosen, and only a drop takes a window, its own. -/
def StagingJob.windowProto (j : StagingJob) : Protocol StagingOp StagingOp.Res (Option WindowKey) where
  pre o chosen := match o with
    | .transact request => chosen = some request.window ∧ (request.recordBatches.map (·.rows.length)).sum ≠ 0
    | .dropWindow key => ∃ covered, j = .drop key covered
    | _ => True
  next o _ r chosen' := match o, r with
    | .currentWindow d p, w => chosen' = some ⟨d, p, w⟩
    | _, _ => True

theorem HotDb.Step.replaced {db db' : HotDb} {o : StagingOp} {j : StagingJob} (h : db.Step o db') (hj : j.Replaced db) :
    j.Replaced db' := by
  cases j with
  | drop key covered => exact h.below hj
  | stage batch => trivial
  | sealing request => trivial

section Open

variable {setup : StagingSetup} {s s' : StagingNode}

theorem openWindows_transact (libs : StagerLibs) (config : StagerConfig) (fate : StageFate) (request : StageRequest)
    (s : EngineStager) : (s.transact libs config fate request).2.openWindows = s.openWindows := by
  simp only [EngineStager.transact]
  split
  · rfl
  · split
    · rfl
    · rfl

theorem openWindows_exec {o : StagingOp} (fate : StagingFate) (h : ∀ d p, o ≠ .currentWindow d p) :
    (StagingNode.exec setup o fate s).2.stager.openWindows = s.stager.openWindows := by
  cases o with
  | currentWindow d p => exact absurd rfl (h d p)
  | transact request => exact openWindows_transact ..
  | copySealed table path dedupKey =>
    rcases hread : s.read fate table (sealedRows dedupKey) with text | rows
    all_goals simp only [StagingNode.exec, hread]
  | _ => rfl

/-- The current window is the open one, or it is opened with the next id. -/
theorem currentWindow_cases (config : StagerConfig) (d : DatasetId) (p : PartitionId) (now : ℕ) (s : EngineStager) :
    (∃ w, s.openWindows d p = some w ∧ s.currentWindow config d p now = (w.id, s)) ∨
    s.currentWindow config d p now = (nextId (s.engine.writer.windowHw d p), { s with
      openWindows := fun d' p' =>
        if d' = d ∧ p' = p then some ⟨nextId (s.engine.writer.windowHw d p), now⟩ else s.openWindows d' p' }) := by
  simp only [EngineStager.currentWindow]
  rcases s.engine.writer.windowHw d p with _ | hw
  all_goals
    split
    next w hw =>
      split_ifs
      · exact .inl ⟨w, hw, rfl⟩
      · exact .inr rfl
    next => exact .inr rfl

/-- Where no window is created or dropped the ids stand. -/
theorem IdsInv.same (h : IdsInv s) (hsame : s.db.SameWindows s'.db)
    (hopen : ∀ d p w, s'.stager.openWindows d p = some w →
      s.stager.openWindows d p = some w ∨ w.id = nextId (s.db.windowHw d p)) : IdsInv s' where
  opened := by
    intro d p w hw
    rw [hsame.2]
    rcases hopen d p w hw with hold | hnew
    · exact h.opened d p w hold
    · exact .inl hnew
  live := by
    intro d p w hw
    rw [hsame.2] at hw
    exact (hsame.1 _).mpr (h.live d p w hw)
  below := by
    intro key hkey
    rw [hsame.2]
    exact h.below key ((hsame.1 key).mp hkey)

/-- The window that is created has the next id, and then it is the highest. -/
theorem IdsInv.creates {key : WindowKey} (h : IdsInv s) (hchosen : Chosen s (some key))
    (hcreates : HotDb.Creates key s.db s'.db) (hopen : s'.stager.openWindows = s.stager.openWindows) :
    key.window = nextId (s.db.windowHw key.dataset key.partition) ∧
    s'.db.windowHw key.dataset key.partition = some key.window ∧ IdsInv s' := by
  obtain ⟨w, hw, hid⟩ := hchosen key rfl
  have hnext : key.window = nextId (s.db.windowHw key.dataset key.partition) := by
    rcases h.opened _ _ w hw with hnew | hold
    · exact hid.symm.trans hnew
    · rw [hid] at hold
      exact absurd (h.live _ _ _ hold) hcreates.fresh
  have hraised : ∀ d p, s'.db.windowHw d p =
      if d = key.dataset ∧ p = key.partition then some key.window else s.db.windowHw d p := by
    intro d p
    rw [hcreates.windowHw, raiseHw]
    split_ifs with hpair
    · obtain ⟨rfl, rfl⟩ := hpair
      rw [hnext]
      cases s.db.windowHw key.dataset key.partition with
      | none => rfl
      | some hw => exact congrArg some (Nat.max_eq_right (Nat.le_succ hw))
    · rfl
  refine ⟨hnext, by rw [hraised, if_pos ⟨rfl, rfl⟩], ?_, ?_, ?_⟩
  · intro d p w' hw'
    rw [hopen] at hw'
    rw [hraised]
    split_ifs with hpair
    · obtain ⟨rfl, rfl⟩ := hpair
      rw [hw] at hw'
      cases hw'
      exact .inr (congrArg some hid.symm)
    · exact h.opened d p w' hw'
  · intro d p w' hw'
    rw [hraised] at hw'
    split_ifs at hw' with hpair
    · obtain ⟨rfl, rfl⟩ := hpair
      cases hw'
      exact (hcreates.windows _).mpr (.inl rfl)
    · exact (hcreates.windows _).mpr (.inr (h.live d p w' hw'))
  · intro k hk
    rw [hraised]
    rcases (hcreates.windows k).mp hk with rfl | hold
    · rw [if_pos ⟨rfl, rfl⟩]
      exact Nat.lt_succ_self _
    · have hlt := h.below k hold
      split_ifs with hpair
      · rw [hpair.1, hpair.2, ← hnext] at hlt
        exact hlt.trans (Nat.lt_succ_self _)
      · exact hlt

/-- The highest window of a partition is never dropped. -/
theorem IdsInv.drops {key : WindowKey} (h : IdsInv s) (hbelow : s.db.Below key)
    (hwindows : ∀ k, k ∈ s'.db.windows ↔ k ≠ key ∧ k ∈ s.db.windows) (hhw : s'.db.windowHw = s.db.windowHw)
    (hopen : s'.stager.openWindows = s.stager.openWindows) : IdsInv s' where
  opened := by
    intro d p w hw
    rw [hopen] at hw
    rw [hhw]
    exact h.opened d p w hw
  live := by
    intro d p w hw
    rw [hhw] at hw
    refine (hwindows _).mpr ⟨?_, h.live d p w hw⟩
    rintro rfl
    obtain ⟨hw', hsome, hlt⟩ := hbelow
    rw [hw] at hsome
    cases hsome
    exact Nat.lt_irrefl _ hlt
  below := by
    intro k hk
    rw [hhw]
    exact h.below k ((hwindows k).mp hk).2

end Open

/-! ### The ids a run creates -/

/-- The ids of the windows a step has created for a dataset and a partition, in order. -/
def newIds (d : DatasetId) (p : PartitionId) (db db' : HotDb) : List WindowId :=
  Finset.sort (((db'.windows.keys \ db.windows.keys).filter fun k => k.dataset = d ∧ k.partition = p).image (·.window))

/-- The ids of the windows a run creates for a dataset and a partition, in the order of their creation. -/
def createdIds (setup : StagingSetup) (d : DatasetId) (p : PartitionId) : StagingPool → List StagingEvent → List WindowId
  | _, [] => []
  | q, e :: es => newIds d p q.shared.db ((stagers setup).step q e).shared.db ++
      createdIds setup d p ((stagers setup).step q e) es

section Created

variable {setup : StagingSetup} {d : DatasetId} {p : PartitionId} {db db' : HotDb} {key : WindowKey}

theorem mem_newIds {w : WindowId} :
    w ∈ newIds d p db db' ↔ ⟨d, p, w⟩ ∈ db'.windows ∧ (⟨d, p, w⟩ : WindowKey) ∉ db.windows := by
  simp only [newIds, Finset.mem_sort, Finset.mem_image, Finset.mem_filter, Finset.mem_sdiff, Finmap.mem_keys]
  constructor
  · rintro ⟨k, ⟨⟨hnew, hold⟩, rfl, rfl⟩, rfl⟩
    exact ⟨hnew, hold⟩
  · rintro ⟨hnew, hold⟩
    exact ⟨_, ⟨⟨hnew, hold⟩, rfl, rfl⟩, rfl⟩

theorem newIds_eq_nil (h : ∀ k ∈ db'.windows, k ∈ db.windows) : newIds d p db db' = [] := by
  refine List.eq_nil_iff_forall_not_mem.mpr fun w hw => ?_
  obtain ⟨hnew, hold⟩ := mem_newIds.mp hw
  exact hold (h _ hnew)

theorem newIds_creates (h : HotDb.Creates key db db') :
    newIds d p db db' = if d = key.dataset ∧ p = key.partition then [key.window] else [] := by
  split_ifs with hpair
  · obtain ⟨rfl, rfl⟩ := hpair
    have hset : ((db'.windows.keys \ db.windows.keys).filter fun k =>
        k.dataset = key.dataset ∧ k.partition = key.partition).image (·.window) = {key.window} := by
      ext w
      simp only [Finset.mem_image, Finset.mem_filter, Finset.mem_sdiff, Finmap.mem_keys, Finset.mem_singleton, h.windows]
      constructor
      · rintro ⟨k, ⟨⟨rfl | hold, hnot⟩, -⟩, rfl⟩
        · rfl
        · exact absurd hold hnot
      · rintro rfl
        exact ⟨key, ⟨⟨.inl rfl, h.fresh⟩, rfl, rfl⟩, rfl⟩
    rw [newIds, hset, Finset.sort_singleton]
  · refine List.eq_nil_iff_forall_not_mem.mpr fun w hw => ?_
    obtain ⟨hnew, hold⟩ := mem_newIds.mp hw
    rcases (h.windows _).mp hnew with rfl | hmem
    · exact hpair ⟨rfl, rfl⟩
    · exact hold hmem

theorem createdIds_append (q : StagingPool) (es fs : List StagingEvent) :
    createdIds setup d p q (es ++ fs) = createdIds setup d p q es ++ createdIds setup d p ((stagers setup).run q es) fs := by
  induction es generalizing q with
  | nil => rfl
  | cons e es ih => rw [List.cons_append, createdIds, createdIds, ih, List.append_assoc]; rfl

end Created

section Operation

variable {setup : StagingSetup} {s : StagingNode} {o : StagingOp} {j : StagingJob} {chosen : Option WindowKey}

/-- Choosing a window keeps the ids, and the window is open then. -/
theorem ids_currentWindow (fate : StagingFate) (hsteady : s.stager.engine.Steady) (h : IdsInv s) (d : DatasetId)
    (p : PartitionId) :
    IdsInv (StagingNode.exec setup (.currentWindow d p) fate s).2 ∧
    Chosen (StagingNode.exec setup (.currentWindow d p) fate s).2
      (some ⟨d, p, (StagingNode.exec setup (.currentWindow d p) fate s).1⟩) := by
  have hengine := EngineStager.engine_currentWindow setup.config d p fate.stage.monotonicNanos s.stager
  have hsame : s.db.SameWindows (StagingNode.exec setup (.currentWindow d p) fate s).2.db := by
    change s.db.SameWindows (s.stager.currentWindow setup.config d p fate.stage.monotonicNanos).2.engine.db
    rw [hengine]
    exact .refl _
  have hhw : s.stager.engine.writer.windowHw d p = s.db.windowHw d p := congrFun₂ hsteady.windowHw_eq d p
  rcases currentWindow_cases setup.config d p fate.stage.monotonicNanos s.stager with ⟨w, hw, heq⟩ | heq
  · refine ⟨h.same hsame fun d' p' w' hw' => ?_, fun key hkey => ?_⟩
    · simp only [StagingNode.exec, heq] at hw'
      exact .inl hw'
    · cases hkey
      simp only [StagingNode.exec, heq]
      exact ⟨w, hw, rfl⟩
  · rw [hhw] at heq
    refine ⟨h.same hsame fun d' p' w' hw' => ?_, fun key hkey => ?_⟩
    · simp only [StagingNode.exec, heq] at hw'
      split_ifs at hw' with hpair
      · obtain ⟨rfl, rfl⟩ := hpair
        cases hw'
        exact .inr rfl
      · exact .inl hw'
    · cases hkey
      simp only [StagingNode.exec, heq]
      exact ⟨_, if_pos ⟨trivial, trivial⟩, rfl⟩

/-- An operation of a call keeps the ids, and the window it creates has the next one. -/
theorem ids_exec (setup : StagingSetup) (fate : StagingFate) (hsteady : s.stager.engine.Steady) (h : IdsInv s) (hchosen : Chosen s chosen)
    (hreplaced : j.Replaced s.db) (hpre : j.windowProto.pre o chosen) :
    IdsInv (StagingNode.exec setup o fate s).2 ∧
    ∀ d p, List.range (nextId (s.db.windowHw d p)) ++ newIds d p s.db (StagingNode.exec setup o fate s).2.db =
      List.range (nextId ((StagingNode.exec setup o fate s).2.db.windowHw d p)) := by
  have hregistry := exec_registry setup hsteady o fate
  have hopen : (∀ d p, o ≠ .currentWindow d p) →
      (StagingNode.exec setup o fate s).2.stager.openWindows = s.stager.openWindows := openWindows_exec fate
  have hcurrent : ∀ d p, o = .currentWindow d p → IdsInv (StagingNode.exec setup o fate s).2 := by
    rintro d p rfl
    exact (ids_currentWindow fate hsteady h d p).1
  generalize (StagingNode.exec setup o fate s).1 = r at hregistry
  generalize (StagingNode.exec setup o fate s).2 = s' at *
  cases hregistry with
  | same hsame =>
    refine ⟨?_, fun d p => ?_⟩
    · by_cases hchooses : ∃ d p, o = .currentWindow d p
      · obtain ⟨d, p, ho⟩ := hchooses
        exact hcurrent d p ho
      · refine h.same hsame fun d p w hw => .inl ?_
        rwa [hopen fun d p ho => hchooses ⟨d, p, ho⟩] at hw
    · rw [newIds_eq_nil fun k hk => (hsame.1 k).mp hk, List.append_nil, hsame.2]
  | @creates request coverage hcreates =>
    obtain rfl : chosen = some request.window := hpre.1
    obtain ⟨hnext, hraised, hinv⟩ := h.creates hchosen hcreates (hopen fun _ _ ho => by cases ho)
    refine ⟨hinv, fun d p => ?_⟩
    rw [newIds_creates hcreates]
    split_ifs with hpair
    · obtain ⟨rfl, rfl⟩ := hpair
      rw [hraised, nextId, List.range_succ, hnext]
    · rw [List.append_nil, hcreates.windowHw, raiseHw, if_neg hpair]
  | drops hwindows hhw =>
    obtain ⟨covered, rfl⟩ := hpre
    refine ⟨h.drops hreplaced hwindows hhw (hopen fun _ _ ho => by cases ho), fun d p => ?_⟩
    rw [newIds_eq_nil fun k hk => ((hwindows k).mp hk).2, List.append_nil, hhw]

/-- What a call has chosen is what it goes on with. -/
theorem chosen_exec (setup : StagingSetup) (j : StagingJob) (chosen : Option WindowKey) (fate : StagingFate)
    (hsteady : s.stager.engine.Steady) (h : IdsInv s) :
    ∃ chosen', Chosen (StagingNode.exec setup o fate s).2 chosen' ∧
      j.windowProto.next o chosen (StagingNode.exec setup o fate s).1 chosen' := by
  cases o with
  | currentWindow d p => exact ⟨_, (ids_currentWindow fate hsteady h d p).2, rfl⟩
  | _ => exact ⟨none, (fun key hkey => by cases hkey), trivial⟩

end Operation

section Calls

open Protocol

theorem ewp_stageWindow (libs : StagerLibs) (batch : DecodedBatch) (chosen : Option WindowKey) :
    (StagingJob.stage batch).windowProto.Ewp (stageBlocking libs batch) (fun _ _ => True) (fun _ _ => True) chosen := by
  refine ewp_bind (ewp_ask trivial fun _ _ _ => ewp_bind (ewp_orThrow (fun _ _ => ?_) fun _ _ => trivial))
  refine ewp_bind (ewp_orThrow (fun recordBatches _ => ?_) fun _ _ => trivial)
  split_ifs with hrows
  · exact ewp_pure trivial
  · refine ewp_bind (ewp_ask trivial fun window chosen hchosen => ewp_bind (ewp_ask ⟨hchosen, hrows⟩ fun _ _ _ => ?_))
    exact ewp_orThrow (fun _ _ => trivial) fun _ _ => trivial

theorem ewp_dropWindow (key : WindowKey) (covered : List OriginSeqRange) (chosen : Option WindowKey) :
    (StagingJob.drop key covered).windowProto.Ewp (dropStatements key covered) (fun _ _ => True) (fun _ _ => True)
      chosen := by
  refine ewp_bind (ewp_ask trivial fun table _ _ => ?_)
  cases table with
  | none => exact ewp_pure trivial
  | some table =>
    refine ewp_bind (ewp_ask trivial fun _ _ _ => ewp_bind (ewp_orThrow (fun residue _ => ?_) fun _ _ => trivial))
    split_ifs
    · refine ewp_bind (ewp_ask ⟨covered, rfl⟩ fun _ _ _ => ewp_bind (ewp_orThrow (fun _ _ => ?_) fun _ _ => trivial))
      exact ewp_bind (ewp_ask trivial fun _ _ _ => ewp_pure trivial)
    · refine ewp_bind (ewp_ask trivial fun _ _ _ => ewp_bind (ewp_orThrow (fun _ _ => ?_) fun _ _ => trivial))
      exact ewp_pure trivial

/-- Every call keeps to its protocol. -/
theorem wp_windowProto (libs : StagerLibs) (j : StagingJob) (chosen : Option WindowKey) :
    j.windowProto.Wp (j.program libs) (fun _ _ => True) chosen := by
  cases j with
  | stage batch => exact wp_map (wp_mono (fun _ _ _ => trivial) (ewp_stageWindow libs batch chosen))
  | sealing request =>
    refine wp_map (wp_mono (fun _ _ _ => trivial) (ewp_sealStatements (fun o k hreads => ?_) request chosen))
    cases o with
    | transact request => cases hreads
    | dropWindow key => cases hreads
    | _ => trivial
  | drop key covered => exact wp_map (wp_mono (fun _ _ _ => trivial) (ewp_dropWindow key covered chosen))

end Calls

/-! ### Sequential runs -/

instance (db : HotDb) (key : WindowKey) : Decidable (db.Below key) :=
  decidable_of_iff ((db.windowHw key.dataset key.partition).any (key.window < ·) = true) (by
    simp [HotDb.Below, Option.any_eq_true])

instance (db : HotDb) : (j : StagingJob) → Decidable (j.Replaced db)
  | .drop key _ => inferInstanceAs (Decidable (db.Below key))
  | .stage _ | .sealing _ => inferInstanceAs (Decidable True)

/-- A call starts where no other one runs, and a drop only for a window that a later one has replaced. -/
def OneAtATime (q : StagingPool) : StagingEvent → Prop
  | .start _ j => Quiet q ∧ j.Replaced q.shared.db
  | _ => True

instance (q : StagingPool) : (e : StagingEvent) → Decidable (OneAtATime q e)
  | .start _ _ => inferInstanceAs (Decidable (_ ∧ _))
  | .act _ _ | .env _ => inferInstanceAs (Decidable True)

/-- The node after a sequential run: the ids created for a dataset and a partition are those below the next one. -/
structure DenseIds (setup : StagingSetup) (origin : NodeId) (es : List StagingEvent) : Prop where
  solo : Solo (stagedBy setup origin es)
  ids : IdsInv (stagedBy setup origin es).shared
  created : ∀ d p, createdIds setup d p { shared := .fresh origin } es =
    List.range (nextId ((stagedBy setup origin es).shared.db.windowHw d p))

def windowContract (setup : StagingSetup) (origin : NodeId) :
    Contract (stagers setup) { shared := .fresh origin } (Option WindowKey) where
  ok := OneAtATime
  inv h := DenseIds setup origin h
  knows h _ _ j chosen := j.Replaced (stagedBy setup origin h).shared.db ∧ Chosen (stagedBy setup origin h).shared chosen
  proto := StagingJob.windowProto
  post _ _ _ := True
  done _ _ _ _ := True

section Sequential

variable {setup : StagingSetup} {origin : NodeId} {es : List StagingEvent} {e : StagingEvent}

theorem solo_concat (h : Solo (stagedBy setup origin es)) (hok : OneAtATime (stagedBy setup origin es) e) :
    Solo (stagedBy setup origin (es ++ [e])) := by
  rw [stagedBy_concat]
  refine solo_step (numbered_stagedBy setup origin es) h ?_
  rintro t j rfl
  exact hok.1

theorem createdIds_concat (d : DatasetId) (p : PartitionId) :
    createdIds setup d p { shared := .fresh origin } (es ++ [e]) =
      createdIds setup d p { shared := .fresh origin } es ++
        newIds d p (stagedBy setup origin es).shared.db (stagedBy setup origin (es ++ [e])).shared.db := by
  rw [createdIds_append, createdIds, createdIds, List.append_nil, stagedBy_concat]
  rfl

/-- Where no window is created or dropped the ids are dense as before. -/
theorem DenseIds.same (h : DenseIds setup origin es) (hok : OneAtATime (stagedBy setup origin es) e)
    (hids : IdsInv (stagedBy setup origin (es ++ [e])).shared)
    (hdb : (stagedBy setup origin (es ++ [e])).shared.db = (stagedBy setup origin es).shared.db) :
    DenseIds setup origin (es ++ [e]) where
  solo := solo_concat h.solo hok
  ids := hids
  created := by
    intro d p
    rw [createdIds_concat, hdb, newIds_eq_nil fun k hk => hk, List.append_nil]
    exact h.created d p

/-- What a call has found stands while no other one runs. -/
theorem stager_of_spares {t : ℕ} {r : Running StagingJob StagingOp StagingOp.Res StagingAnswer}
    (h : Solo (stagedBy setup origin es)) (hrun : (stagedBy setup origin es).running t = some r)
    (hspares : e.Spares (stagers setup) t) :
    (stagedBy setup origin (es ++ [e])).shared.stager = (stagedBy setup origin es).shared.stager := by
  rw [stagedBy_concat]
  rcases h.shared_of_spares hrun hspares with heq | ⟨v, rfl, hstop, heq⟩
  · rw [heq]
  · rw [heq]
    cases v with
    | noteClosedWindows nowMs => rfl
    | restart origin => cases hstop

theorem ids_move {s : StagingNode} (h : IdsInv s) (v : StagingEnv) : IdsInv (v.move s) := by
  refine h.same (by rw [db_move]; exact .refl _) fun d p w hw => ?_
  cases v with
  | noteClosedWindows nowMs => exact .inl hw
  | restart origin => cases hw

theorem windowContract_sound (setup : StagingSetup) (origin : NodeId) : (windowContract setup origin).Sound where
  init := by
    refine ⟨(fun t u ht => by cases ht), ⟨?_, ?_, ?_⟩, fun d p => rfl⟩
    · intro d p w hw
      cases hw
    · intro d p w hw
      cases hw
    · intro key hkey
      cases Finmap.notMem_empty hkey
  start := by
    intro h t j _ hok _ _
    refine ⟨none, ⟨?_, fun key hkey => by cases hkey⟩, wp_windowProto setup.libs j none⟩
    rw [stagedBy_concat, shared_start]
    exact hok.2
  exec := by
    intro h t c n j o next chosen hinv hok hrun hknows hpre
    have hsteady := steady_stagedBy setup origin h
    have hshared := shared_stagedBy_act (c := c) hrun
    obtain ⟨hids, hcreated⟩ := ids_exec setup c hsteady hinv.ids hknows.2 hknows.1 hpre
    rw [← hshared] at hids hcreated
    refine ⟨⟨solo_concat hinv.solo hok, hids, fun d p => ?_⟩, ?_⟩
    · rw [createdIds_concat, hinv.created d p, hcreated d p]
    · obtain ⟨chosen', hchosen', hnext⟩ := chosen_exec (o := o) setup j chosen c hsteady hinv.ids
      refine ⟨chosen', ⟨?_, ?_⟩, hnext⟩
      · rw [hshared]
        exact (exec_windows setup hsteady o c).2.replaced hknows.1
      · rw [hshared]
        exact hchosen'
  idle := by
    intro h e hinv hok heq
    rw [← stagedBy, ← stagedBy_concat] at heq
    refine hinv.same hok ?_ (congrArg StagingNode.db heq)
    rw [heq]
    exact hinv.ids
  env := by
    intro h v hinv hok
    have hshared : (stagedBy setup origin (h ++ [.env v])).shared = v.move (stagedBy setup origin h).shared := by
      rw [stagedBy_concat]
      rfl
    refine hinv.same hok ?_ (by rw [hshared, db_move])
    rw [hshared]
    exact ids_move hinv.ids v
  stable := by
    intro h e t r chosen hinv _ _ hrun hspares _ hknows
    have hstager := stager_of_spares hinv.solo hrun hspares
    refine ⟨?_, fun key hkey => ?_⟩
    · rw [StagingNode.db, hstager]
      exact hknows.1
    · rw [hstager]
      exact hknows.2 key hkey
  ret := fun _ _ _ _ _ _ _ _ _ _ => trivial
  done_stable := fun _ _ _ _ _ _ _ => trivial

end Sequential

theorem StagingEngine.Steady.mem_windows {engine : StagingEngine} (h : engine.Steady) (key : WindowKey) :
    key ∈ engine.db.windows ↔ (engine.db.tables key.tableName).isSome := by
  have htable := congrArg Option.isSome (h.windowTable key)
  rw [h.windows_eq, Option.isSome_map, Option.isSome_map] at htable
  rw [← htable, Finmap.lookup_isSome]

/-- The event is the step of a transaction that commits and goes into this window. -/
def CommitsInto (setup : StagingSetup) (q : StagingPool) (e : StagingEvent) (key : WindowKey) : Prop :=
  ∃ t c n j request next coverage, e = .act t c ∧ q.running t = some ⟨n, j, .call (.transact request) next⟩ ∧
    request.window = key ∧ (StagingNode.exec setup (.transact request) c q.shared).1 = .ok (.committed coverage)

/-- A window is created by a transaction that commits. -/
theorem commitsInto_of_created {setup : StagingSetup} {origin : NodeId} {es : List StagingEvent} {e : StagingEvent}
    {key : WindowKey} (hold : key ∉ (stagedBy setup origin es).shared.db.windows)
    (hnew : key ∈ (stagedBy setup origin (es ++ [e])).shared.db.windows) :
    CommitsInto setup (stagedBy setup origin es) e key := by
  rw [stagedBy_concat] at hnew
  rcases shared_step (stagers setup) (stagedBy setup origin es) e with
    heq | ⟨t, c, n, j, o, next, rfl, hrun, heq⟩ | ⟨v, -, heq⟩
  · rw [heq] at hnew
    exact absurd hnew hold
  · rw [heq] at hnew
    have hregistry := exec_registry setup (steady_stagedBy setup origin es) o c
    change key ∈ (StagingNode.exec setup o c (stagedBy setup origin es).shared).2.db.windows at hnew
    generalize hanswer : (StagingNode.exec setup o c (stagedBy setup origin es).shared).1 = r at hregistry
    cases hregistry with
    | same hsame => exact absurd ((hsame.1 key).mp hnew) hold
    | @creates request coverage hcreates =>
      rcases (hcreates.windows key).mp hnew with rfl | hmem
      · exact ⟨t, c, n, j, request, next, coverage, rfl, hrun, rfl, hanswer⟩
      · exact absurd hmem hold
    | drops hwindows => exact absurd ((hwindows key).mp hnew).2 hold
  · rw [heq] at hnew
    change key ∈ (v.move (stagedBy setup origin es).shared).db.windows at hnew
    rw [db_move] at hnew
    exact absurd hnew hold

/-- Window ids in a run of one call at a time, where drops are of windows that a later one has replaced. The windows
    created for a dataset and a partition have the ids from 0 on in order, without a gap and each once; they are the
    tables there are; and a window is created by a transaction that commits into it, where it was never before. -/
theorem window_ids_dense (setup : StagingSetup) (origin : NodeId) (es : List StagingEvent)
    (hes : (stagers setup).Admissible OneAtATime { shared := .fresh origin } es) :
    (∀ d p, createdIds setup d p { shared := .fresh origin } es =
      List.range (nextId ((stagedBy setup origin es).shared.db.windowHw d p))) ∧
    (∀ key, key ∈ (stagedBy setup origin es).shared.db.windows ↔
      ((stagedBy setup origin es).shared.db.tables key.tableName).isSome) ∧
    ∀ es' e, es' ++ [e] <+: es → ∀ key, key ∉ (stagedBy setup origin es').shared.db.windows →
      key ∈ (stagedBy setup origin (es' ++ [e])).shared.db.windows →
      CommitsInto setup (stagedBy setup origin es') e key ∧
      ∀ before, before <+: es' → key ∉ (stagedBy setup origin before).shared.db.windows := by
  have hvalid : ∀ fs, fs <+: es → DenseIds setup origin fs := by
    rintro fs ⟨rest, rfl⟩
    exact ((windowContract_sound setup origin).valid_run (fun _ => rfl) rfl fs (admissible_append.mp hes).1).inv
  refine ⟨(hvalid es (List.prefix_refl _)).created, (steady_stagedBy setup origin es).mem_windows, ?_⟩
  rintro es' e hes' ⟨d, p, w⟩ hold hnew
  refine ⟨commitsInto_of_created hold hnew, ?_⟩
  rintro before ⟨rest, rfl⟩ hbefore
  -- the id is among those created before, and no id is created twice
  have hcreated : w ∈ createdIds setup d p { shared := .fresh origin } before := by
    have hdense := hvalid before ((List.prefix_append _ _).trans ((List.prefix_append _ _).trans hes'))
    rw [hdense.created, List.mem_range]
    exact hdense.ids.below _ hbefore
  have hnodup : (createdIds setup d p { shared := .fresh origin } (before ++ rest ++ [e])).Nodup := by
    rw [(hvalid _ hes').created]
    exact List.nodup_range
  rw [createdIds_concat, createdIds_append] at hnodup
  exact List.disjoint_of_nodup_append hnodup (List.mem_append_left _ hcreated) (mem_newIds.mpr ⟨hnew, hold⟩)

/-- The first window is dropped after a second one is there, the store is reopened, and the next window is the third. -/
theorem window_ids_dense_dropped :
    let es := stageAt 1 0 "k1" ++ stageAt 1 1 "k2" ++
      .start 1 (.drop firstWindow [⟨⟨"node-1"⟩, 1, 1⟩]) :: stepsAt 1 5 1 ++ .env (.restart ⟨"node-1"⟩) :: stageAt 1 1 "k3"
    createdIds oneRowSetup ⟨"otlp_logs"⟩ ⟨"acme.0"⟩ { shared := .fresh ⟨"node-1"⟩ } es = [0, 1, 2] ∧
    firstWindow ∉ (stagedBy oneRowSetup ⟨"node-1"⟩ es).shared.db.windows := by
  intro es
  rw [(window_ids_dense oneRowSetup ⟨"node-1"⟩ es (by decide +kernel)).1]
  decide +kernel

/-! ### Ids in 64 bits -/

/-- The number of rows ever staged for a dataset and a partition. -/
def HotDb.rowsFor (db : HotDb) (d : DatasetId) (p : PartitionId) : ℕ :=
  db.everStaged.countP fun x => x.1.dataset = d ∧ x.1.partition = p

/-- There is a row for each id there has been, each window has one of these ids, and no open window is ahead of the next. -/
structure IdsCounted (s : StagingNode) : Prop where
  rows : ∀ d p, nextId (s.db.windowHw d p) ≤ s.db.rowsFor d p
  below : ∀ key ∈ s.db.windows, key.window < nextId (s.db.windowHw key.dataset key.partition)
  opened : ∀ d p w, s.stager.openWindows d p = some w → w.id ≤ nextId (s.db.windowHw d p)

/-- The window that a call has chosen is not ahead of the next id. -/
def NotAhead (s : StagingNode) (chosen : Option WindowKey) : Prop :=
  ∀ key, chosen = some key → key.window ≤ nextId (s.db.windowHw key.dataset key.partition)

section Bounded

variable {db db' : HotDb} {o : StagingOp} {setup : StagingSetup} {s : StagingNode} {j : StagingJob}
  {chosen : Option WindowKey} {origin : NodeId} {es : List StagingEvent}

theorem HotDb.Step.nextId_le (h : db.Step o db') (d : DatasetId) (p : PartitionId) :
    nextId (db.windowHw d p) ≤ nextId (db'.windowHw d p) := by
  cases h with
  | stage hgrown =>
    cases hhw : db.windowHw d p with
    | none => exact Nat.zero_le _
    | some w =>
      obtain ⟨w', hhw', hle⟩ := hgrown.windowHw d p w hhw
      rw [hhw']
      exact Nat.succ_le_succ hle
  | same | drop | delete => exact le_rfl

theorem HotDb.Step.rowsFor_le (h : db.Step o db') (d : DatasetId) (p : PartitionId) : db.rowsFor d p ≤ db'.rowsFor d p := by
  cases h with
  | stage hgrown =>
    rw [HotDb.rowsFor, HotDb.rowsFor, hgrown.everStaged, List.countP_append]
    exact Nat.le_add_right _ _
  | same | drop | delete => exact le_rfl

/-- A window that is created has a row, and takes the next id at most. -/
theorem nextId_creates {key : WindowKey} {coverage : List StagedCoverage} (hcreates : HotDb.Creates key db db')
    (hstages : Stages origin key db db' coverage) (hnext : key.window ≤ nextId (db.windowHw key.dataset key.partition))
    (hrows : nextId (db.windowHw key.dataset key.partition) ≤ db.rowsFor key.dataset key.partition) :
    nextId (db'.windowHw key.dataset key.partition) ≤ db'.rowsFor key.dataset key.partition := by
  obtain ⟨rows, -, -, hne, hstaged, -⟩ := hstages
  have hall : (rows.map (key, ·)).countP (fun x => x.1.dataset = key.dataset ∧ x.1.partition = key.partition) =
      rows.length := by
    rw [List.countP_map, List.countP_eq_length.mpr fun r _ => by simp]
  have hcount : db'.rowsFor key.dataset key.partition = db.rowsFor key.dataset key.partition + rows.length := by
    rw [HotDb.rowsFor, hstaged, List.countP_append, hall]
    rfl
  have hraised : nextId (db'.windowHw key.dataset key.partition) ≤ nextId (db.windowHw key.dataset key.partition) + 1 := by
    rw [hcreates.windowHw, raiseHw, if_pos ⟨rfl, rfl⟩]
    cases hhw : db.windowHw key.dataset key.partition with
    | none =>
      rw [hhw] at hnext
      exact Nat.succ_le_succ hnext
    | some w =>
      rw [hhw] at hnext
      exact Nat.succ_le_succ (max_le (Nat.le_succ w) hnext)
  calc nextId (db'.windowHw key.dataset key.partition) ≤ nextId (db.windowHw key.dataset key.partition) + 1 := hraised
    _ ≤ db.rowsFor key.dataset key.partition + rows.length := Nat.add_le_add hrows (List.length_pos_iff.mpr hne)
    _ = db'.rowsFor key.dataset key.partition := hcount.symm

theorem below_creates {key : WindowKey} (hcreates : HotDb.Creates key db db') :
    key.window < nextId (db'.windowHw key.dataset key.partition) := by
  rw [hcreates.windowHw, raiseHw, if_pos ⟨rfl, rfl⟩]
  cases db.windowHw key.dataset key.partition with
  | none => exact Nat.lt_succ_self _
  | some w => exact Nat.lt_succ_of_le (le_max_right w _)

/-- Where the current window is asked for, it is open then and not ahead. -/
theorem counted_currentWindow (fate : StagingFate) (hsteady : s.stager.engine.Steady) (h : IdsCounted s) (d : DatasetId)
    (p : PartitionId) :
    (∀ d' p' w, (StagingNode.exec setup (.currentWindow d p) fate s).2.stager.openWindows d' p' = some w →
      w.id ≤ nextId (s.db.windowHw d' p')) ∧
    NotAhead s (some ⟨d, p, (StagingNode.exec setup (.currentWindow d p) fate s).1⟩) := by
  have hhw : s.stager.engine.writer.windowHw d p = s.db.windowHw d p := congrFun₂ hsteady.windowHw_eq d p
  rcases currentWindow_cases setup.config d p fate.stage.monotonicNanos s.stager with ⟨w, hw, heq⟩ | heq
  · simp only [StagingNode.exec, heq]
    refine ⟨h.opened, fun key hkey => ?_⟩
    cases hkey
    exact h.opened d p w hw
  · rw [hhw] at heq
    simp only [StagingNode.exec, heq]
    refine ⟨fun d' p' w' hw' => ?_, fun key hkey => ?_⟩
    · split_ifs at hw' with hpair
      · obtain ⟨rfl, rfl⟩ := hpair
        cases hw'
        exact le_rfl
      · exact h.opened d' p' w' hw'
    · cases hkey
      exact le_rfl

theorem counted_exec (setup : StagingSetup) (fate : StagingFate) (hsteady : s.stager.engine.Steady) (h : IdsCounted s)
    (hchosen : NotAhead s chosen) (hpre : j.windowProto.pre o chosen) :
    IdsCounted (StagingNode.exec setup o fate s).2 ∧ ∃ chosen', NotAhead (StagingNode.exec setup o fate s).2 chosen' ∧
      j.windowProto.next o chosen (StagingNode.exec setup o fate s).1 chosen' := by
  have hstep := (exec_windows setup hsteady o fate).2
  have hregistry := exec_registry setup hsteady o fate
  have hbelow : ∀ key ∈ (StagingNode.exec setup o fate s).2.db.windows,
      key.window < nextId ((StagingNode.exec setup o fate s).2.db.windowHw key.dataset key.partition) := by
    have hold : ∀ key ∈ s.db.windows,
        key.window < nextId ((StagingNode.exec setup o fate s).2.db.windowHw key.dataset key.partition) :=
      fun key hkey => (h.below key hkey).trans_le (hstep.nextId_le _ _)
    intro key hkey
    generalize (StagingNode.exec setup o fate s).1 = r at hregistry
    cases hregistry with
    | same hsame => exact hold key ((hsame.1 key).mp hkey)
    | creates hcreates =>
      rcases (hcreates.windows key).mp hkey with rfl | hkey
      · exact below_creates hcreates
      · exact hold key hkey
    | drops hwindows => exact hold key ((hwindows key).mp hkey).2
  have hrows : ∀ d p, nextId ((StagingNode.exec setup o fate s).2.db.windowHw d p) ≤
      (StagingNode.exec setup o fate s).2.db.rowsFor d p := by
    have hkept : (StagingNode.exec setup o fate s).2.db.windowHw = s.db.windowHw → ∀ d p,
        nextId ((StagingNode.exec setup o fate s).2.db.windowHw d p) ≤
          (StagingNode.exec setup o fate s).2.db.rowsFor d p := fun hsame d p => by
      rw [hsame]
      exact (h.rows d p).trans (hstep.rowsFor_le d p)
    generalize hanswer : (StagingNode.exec setup o fate s).1 = r at hregistry
    cases hregistry with
    | same hsame => exact hkept hsame.2
    | @creates request coverage hcreates =>
      obtain ⟨rfl, hsum⟩ := hpre
      have hstages := transact_stages hsum hanswer
      intro d p
      by_cases hpair : d = request.window.dataset ∧ p = request.window.partition
      · obtain ⟨rfl, rfl⟩ := hpair
        exact nextId_creates hcreates hstages (hchosen _ rfl) (h.rows _ _)
      · rw [hcreates.windowHw, raiseHw, if_neg hpair]
        exact (h.rows d p).trans (hstep.rowsFor_le d p)
    | drops _ hhw => exact hkept hhw
  by_cases hchooses : ∃ d p, o = .currentWindow d p
  · obtain ⟨d, p, rfl⟩ := hchooses
    obtain ⟨hopened, hid⟩ := @counted_currentWindow setup s fate hsteady h d p
    refine ⟨⟨hrows, hbelow, fun d' p' w hw => (hopened d' p' w hw).trans (hstep.nextId_le d' p')⟩, _, fun key hkey => ?_, rfl⟩
    obtain rfl := Option.some.inj hkey
    exact (hid _ rfl).trans (hstep.nextId_le d p)
  · refine ⟨⟨hrows, hbelow, fun d p w hw => ?_⟩, none, fun key hkey => (by cases hkey), ?_⟩
    · rw [openWindows_exec fate fun d p ho => hchooses ⟨d, p, ho⟩] at hw
      exact (h.opened d p w hw).trans (hstep.nextId_le d p)
    · cases o with
      | currentWindow d p => exact absurd ⟨d, p, rfl⟩ hchooses
      | _ => trivial

/-- The ids of any run, with as many calls at a time as there are. -/
def countedContract (setup : StagingSetup) (origin : NodeId) :
    Contract (stagers setup) { shared := .fresh origin } (Option WindowKey) where
  ok _ _ := True
  inv h := IdsCounted (stagedBy setup origin h).shared
  knows h _ _ _ chosen := NotAhead (stagedBy setup origin h).shared chosen
  proto := StagingJob.windowProto
  post _ _ _ := True
  done _ _ _ _ := True

theorem nextId_concat (setup : StagingSetup) (origin : NodeId) (es : List StagingEvent) (e : StagingEvent) (d : DatasetId)
    (p : PartitionId) : nextId ((stagedBy setup origin es).shared.db.windowHw d p) ≤
      nextId ((stagedBy setup origin (es ++ [e])).shared.db.windowHw d p) := by
  rw [stagedBy_concat]
  rcases shared_step (stagers setup) (stagedBy setup origin es) e with heq | ⟨t, c, n, j, o, next, -, -, heq⟩ | ⟨v, -, heq⟩
  · rw [heq]
  · rw [heq]
    exact (exec_windows setup (steady_stagedBy setup origin es) o c).2.nextId_le d p
  · rw [heq]
    change _ ≤ nextId ((v.move (stagedBy setup origin es).shared).db.windowHw d p)
    rw [db_move]

theorem countedContract_sound (setup : StagingSetup) (origin : NodeId) : (countedContract setup origin).Sound where
  init := ⟨fun d p => Nat.zero_le _, (fun key hkey => by cases Finmap.notMem_empty hkey), fun d p w hw => by cases hw⟩
  start := fun h t j _ _ _ _ => ⟨none, (fun key hkey => by cases hkey), wp_windowProto setup.libs j none⟩
  exec := by
    intro h t c n j o next chosen hinv _ hrun hknows hpre
    have hshared := shared_stagedBy_act (c := c) hrun
    simp only [countedContract, hshared]
    exact counted_exec setup c (steady_stagedBy setup origin h) hinv hknows hpre
  idle := by
    intro h e hinv _ heq
    rw [← stagedBy, ← stagedBy_concat] at heq
    simp only [countedContract, heq]
    exact hinv
  env := by
    intro h v hinv _
    have hshared : (stagedBy setup origin (h ++ [.env v])).shared = v.move (stagedBy setup origin h).shared := by
      rw [stagedBy_concat]
      rfl
    simp only [countedContract, hshared]
    refine ⟨fun d p => ?_, fun key hkey => ?_, fun d p w hw => ?_⟩
    · rw [db_move]
      exact hinv.rows d p
    · rw [db_move] at hkey ⊢
      exact hinv.below key hkey
    · rw [db_move]
      cases v with
      | noteClosedWindows nowMs => exact hinv.opened d p w hw
      | restart origin => cases hw
  stable := by
    intro h e t r chosen _ _ _ _ _ _ hknows key hkey
    exact (hknows key hkey).trans (nextId_concat setup origin h e _ _)
  ret := fun _ _ _ _ _ _ _ _ _ _ => trivial
  done_stable := fun _ _ _ _ _ _ _ => trivial

theorem idsCounted_stagedBy (setup : StagingSetup) (origin : NodeId) (es : List StagingEvent) :
    IdsCounted (stagedBy setup origin es).shared :=
  ((countedContract_sound setup origin).valid_run (fun _ => rfl) rfl es
    (admissible_of_forall (fun _ _ _ => trivial) _)).inv

/-- **Window ids are 64-bit**, however the calls interleave. Where the rows of a partition are of one node, which has numbered
    them in 64 bits, the next id is in range, and the ids of all windows are below it. -/
theorem windowId_fits (setup : StagingSetup) (origin : NodeId) (es : List StagingEvent) (d : DatasetId) (p : PartitionId)
    (o : NodeId) (hone : ∀ x ∈ (stagedBy setup origin es).shared.db.everStaged, x.1.partition = p → x.2.origin = o) :
    nextId ((stagedBy setup origin es).shared.db.windowHw d p) ≤ u64Max ∧
      ∀ w, ⟨d, p, w⟩ ∈ (stagedBy setup origin es).shared.db.windows →
        w < nextId ((stagedBy setup origin es).shared.db.windowHw d p) := by
  have hcounted := idsCounted_stagedBy setup origin es
  refine ⟨?_, fun w hw => hcounted.below _ hw⟩
  have hlength := congrArg List.length ((steady_stagedBy setup origin es).dense p o)
  rw [seqsOf, List.length_map, List.length_range', ← List.countP_eq_length_filter] at hlength
  have hle : (stagedBy setup origin es).shared.db.rowsFor d p ≤
      (stagedBy setup origin es).shared.db.everStaged.countP fun x => x.1.partition = p ∧ x.2.origin = o := by
    refine List.countP_mono_left fun x hx hin => ?_
    simp only [decide_eq_true_eq] at hin ⊢
    exact ⟨hin.2, hone x hx hin.2⟩
  calc nextId ((stagedBy setup origin es).shared.db.windowHw d p) ≤ _ := hcounted.rows d p
    _ ≤ _ := hle
    _ = _ := hlength
    _ ≤ u64Max := Nat.le_of_lt_succ (Fin.is_lt _)

end Bounded

end Duckspout
