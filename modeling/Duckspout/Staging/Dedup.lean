import Duckspout.Staging.System

/-! A request and its retries (`duckspout-staging/src/stager.rs`): one call after another, each of them whole.

    The entry that guards a batch is written with its rows, in one transaction; as long as it is within its
    time to live and the cap evicts nothing, every later call with its key finds it. -/

namespace Duckspout

open Fallible

/-! ### What the calls do to the dedup window -/

section Frame

/-- The transaction is open and its dedup window is this one. -/
structure Guarding (writer : WriterInner) (dedup : List DedupRow) (t : StageTxn) : Prop extends Held writer t where
  dedup : t.view.dedup = dedup

variable {faults : Faults} {stmt : Stmt} {t : StageTxn} {writer : WriterInner} {dedup : List DedupRow}

theorem wp_executeGuarding {effect : HotDb → Except Fault HotDb} (h : Guarding writer dedup t)
    (heffect : ∀ db db', effect db = .ok db' → db'.dedup = db.dedup) :
    Wp (StageTxn.execute faults stmt effect) (fun _ => Guarding writer dedup) (fun _ => Guarding writer dedup) t :=
  wp_execute (fun _ _ hview => ⟨⟨h.finished, h.writer⟩, (heffect _ _ hview).trans h.dedup⟩) (fun _ _ => h)
    fun _ _ => ⟨⟨h.finished, h.writer⟩, h.dedup⟩

theorem dedup_createTable {table : String} {db db' : HotDb} (h : HotDb.createTable table db = .ok db') :
    db'.dedup = db.dedup := by
  simp only [HotDb.createTable] at h
  split_ifs at h
  cases h
  rfl

theorem dedup_insertWindow {key : WindowKey} {table : String} {db db' : HotDb}
    (h : HotDb.insertWindow key table db = .ok db') : db'.dedup = db.dedup := by
  simp only [HotDb.insertWindow] at h
  split_ifs at h
  cases h
  rfl

theorem dedup_appendRows {key : WindowKey} {table : String} {rows : List StagedRow} {db db' : HotDb}
    (h : HotDb.appendRows key table rows db = .ok db') : db'.dedup = db.dedup := by
  simp only [HotDb.appendRows] at h
  split at h
  · cases h
  · cases h
    rfl

theorem dedup_updateBytes {key : WindowKey} {bytes : U64} {db db' : HotDb}
    (h : HotDb.updateBytes key bytes db = .ok db') : db'.dedup = db.dedup := by
  simp only [HotDb.updateBytes] at h
  split at h
  · cases h
    rfl
  · split_ifs at h
    cases h
    rfl

theorem wp_ensureWindowGuarding {key : WindowKey} {fields : List Field} (h : Guarding writer dedup t) :
    Wp (StageTxn.ensureWindow faults key fields) (fun _ => Guarding writer dedup) (fun _ => Guarding writer dedup) t := by
  refine wp_bind (wp_get ?_)
  rcases t.table? key with _ | table
  · refine wp_bind (wp_checkFields ?_ fun _ => h)
    refine wp_bind (wp_mono (fun _ t h => ?_) (fun _ _ h => h) (wp_executeGuarding h fun _ _ => dedup_createTable))
    refine wp_bind (wp_mono (fun _ t h => ?_) (fun _ _ h => h) (wp_executeGuarding h fun _ _ => dedup_insertWindow))
    refine wp_bind (wp_mono (fun _ t h => ?_) (fun _ _ h => h) (wp_executeGuarding h fun _ _ hdb => ?_))
    · exact ⟨⟨h.finished, h.writer⟩, h.dedup⟩
    · cases hdb
      rfl
  · exact wp_pure h

/-- Appending leaves the dedup window as it is. -/
theorem wp_appendGuarding {key : WindowKey} {batch : RecordBatch} (h : Guarding writer dedup t) :
    Wp (StageTxn.append faults key batch) (fun _ => Guarding writer dedup) (fun _ => Guarding writer dedup) t := by
  refine wp_bind (wp_mono (fun table t h => ?_) (fun _ _ h => h) (wp_ensureWindowGuarding h))
  split_ifs
  · exact wp_pure h
  refine wp_bind (wp_get ?_)
  dsimp only
  split_ifs
  · exact wp_throw h
  refine wp_bind (wp_mono (fun _ t h => ?_) (fun _ _ h => h) (wp_executeGuarding h fun _ _ => dedup_appendRows))
  refine wp_bind (wp_mono (fun _ t h => ?_) (fun _ _ h => h) (wp_executeGuarding h fun _ _ => dedup_updateBytes))
  exact ⟨⟨h.finished, h.writer⟩, h.dedup⟩

end Frame

/-! ### The transaction -/

/-- The instant before which an entry is past its time to live. -/
def StageFate.cutoff (fate : StageFate) (config : StagerConfig) : ℤ := saturatingSub fate.wallUnixMs config.dedupTtlMs

/-- The row a lookup finds. -/
def liveEntry (rows : List DedupRow) (tenant : TenantId) (dedupKey : String) (cutoff : ℤ) : Option DedupRow :=
  rows.find? fun row => row.For tenant dedupKey ∧ cutoff ≤ row.createdWallMs

/-- The rows with a new one and without the expired ones. -/
def keptEntries (rows : List DedupRow) (row : DedupRow) (cutoff : ℤ) : List DedupRow :=
  (upsertDedup row rows).filter fun r => ¬ r.createdWallMs < cutoff

/-- The rows the cap leaves. -/
def cappedEntries (ties : TieOrder) (maxEntries : U64) (rows : List DedupRow) : List DedupRow :=
  if rows.length ≤ maxEntries then rows else evictOldest ties (rows.length - maxEntries) rows

def markAcked (tenant : TenantId) (dedupKey : String) (rows : List DedupRow) : List DedupRow :=
  rows.map fun r => if r.For tenant dedupKey then { r with acked := true } else r

/-- How a transaction that ends well leaves the database. -/
inductive Resolved (libs : StagerLibs) (config : StagerConfig) (fate : StageFate) (request : StageRequest)
    (db db' : HotDb) : StageOutcome → Prop where
  | duplicate (row : DedupRow) (coverage : List StagedCoverage)
      (hlive : liveEntry db.dedup request.tenant request.dedupKey (fate.cutoff config) = some row)
      (hjson : libs.fromJson row.outcome = .ok coverage)
      (hdb : db' = { db with dedup := db'.dedup })
      (hdedup : db'.dedup = db.dedup ∨ db'.dedup = markAcked request.tenant request.dedupKey db.dedup) :
      Resolved libs config fate request db db' (.duplicateAcked coverage)
  | committed (coverage : List StagedCoverage) (text : String)
      (hlive : liveEntry db.dedup request.tenant request.dedupKey (fate.cutoff config) = none)
      (hjson : libs.toJson coverage = .ok text)
      (hdedup : db'.dedup = cappedEntries fate.ties config.dedupMaxEntries
        (keptEntries db.dedup ⟨request.tenant, request.dedupKey, true, text, fate.wallUnixMs⟩ (fate.cutoff config))) :
      Resolved libs config fate request db db' (.committed coverage)

section Transaction

variable {libs : StagerLibs} {config : StagerConfig} {fate : StageFate} {request : StageRequest}

/-- Resolving a duplicate marks its entry at most. -/
theorem wp_resolveDuplicate {t : StageTxn} {entry : DedupEntry} (ht : t.finished = false) :
    Wp (resolveDuplicate libs fate.faults request.tenant request.dedupKey entry atRfV01)
      (fun outcome t' => ∃ coverage view, libs.fromJson entry.outcomeJson = .ok coverage ∧
        outcome = .duplicateAcked coverage ∧ t' = { t with view } ∧
        (view = t.view ∨ view = { t.view with dedup := markAcked request.tenant request.dedupKey t.view.dedup }))
      (fun _ => Held t.writer) t := by
  have hparse : ∀ coverage, parseOutcome libs entry.outcomeJson = .ok coverage →
      libs.fromJson entry.outcomeJson = .ok coverage := fun _ h => mapError_eq_ok.mp h
  simp only [resolveDuplicate]
  split_ifs with hacked hrf
  · refine wp_bind (wp_ofExcept (fun coverage hc => ?_) fun _ _ => ⟨ht, rfl⟩)
    exact wp_pure ⟨coverage, t.view, hparse coverage hc, rfl, rfl, .inl rfl⟩
  · refine wp_bind (wp_execute (fun _ view hview => ?_) (fun _ _ => ⟨ht, rfl⟩) fun _ _ => ⟨ht, rfl⟩)
    cases hview
    refine wp_bind (wp_ofExcept (fun coverage hc => ?_) fun _ _ => ⟨ht, rfl⟩)
    exact wp_pure ⟨coverage, _, hparse coverage hc, rfl, rfl, .inr rfl⟩
  · exact absurd rfl hrf

/-- What is past its time to live goes, and then what the cap takes. -/
theorem wp_evictGuarding {t : StageTxn} (ht : t.finished = false) :
    Wp (StageTxn.dedupEvict fate.faults fate.ties fate.wallUnixMs config.dedupTtlMs config.dedupMaxEntries)
      (fun _ t' => ∃ view, t' = { t with view } ∧
        view.dedup = cappedEntries fate.ties config.dedupMaxEntries
          (t.view.dedup.filter fun r => ¬ r.createdWallMs < fate.cutoff config))
      (fun _ => Held t.writer) t := by
  refine wp_bind (wp_execute (fun _ view hview => ?_) (fun _ _ => ⟨ht, rfl⟩) fun _ _ => ⟨ht, rfl⟩)
  cases hview
  refine wp_bind (wp_executeRead ?_ fun _ _ => ⟨ht, rfl⟩)
  refine wp_bind (wp_get ?_)
  dsimp only
  split_ifs with hcap
  · exact wp_pure ⟨_, rfl, (if_pos hcap).symm⟩
  · refine wp_bind (wp_execute (fun _ view hview => ?_) (fun _ _ => ⟨ht, rfl⟩) fun _ _ => ⟨ht, rfl⟩)
    cases hview
    exact wp_bind (wp_get (wp_pure ⟨_, rfl, (if_neg hcap).symm⟩))

theorem wp_stageTxn {t : StageTxn} {db : HotDb} (hview : t.view = db) (ht : t.finished = false)
    (hpending : t.pendingApplied = ∅) :
    Wp (stageTxn libs config fate request)
      (fun r t' => t'.finished = true ∧ Resolved libs config fate request db t'.view r.1)
      (fun _ => Held t.writer) t := by
  subst hview
  refine wp_bind (wp_adapt (wp_bind (wp_executeRead ?_ fun _ _ => ⟨ht, rfl⟩)))
  refine wp_bind (wp_get (wp_pure ?_))
  split
  next entry hentry =>
    obtain ⟨row, hlive, rfl⟩ := Option.map_eq_some_iff.mp hentry
    refine wp_bind (wp_adapt (wp_mono ?_ (fun _ _ h => h) (wp_resolveDuplicate ht)))
    rintro outcome _ ⟨coverage, view, hjson, rfl, rfl, hmarked⟩
    refine wp_bind (wp_adapt (wp_mono ?_ ?_ (wp_commitTxn _ _)))
    · rintro _ t' ⟨-, hdone⟩
      have hview : t'.view = view := by
        rw [hdone.view]
        simp only [hpending]
        rfl
      refine wp_pure ⟨hdone.finished, .duplicate row coverage hlive hjson ?_ ?_⟩
      · rw [hview]
        rcases hmarked with rfl | rfl
        · rfl
        · rfl
      · rw [hview]
        rcases hmarked with rfl | rfl
        · exact .inl rfl
        · exact .inr rfl
    · rintro _ _ ⟨view', rfl⟩
      exact ⟨ht, rfl⟩
  next hentry =>
    have hlive : liveEntry t.view.dedup request.tenant request.dedupKey (fate.cutoff config) = none :=
      Option.map_eq_none_iff.mp hentry
    have hloop : ∀ (_ : List (RecordBatch × ℕ)) (x : RecordBatch × ℕ) s, Guarding t.writer t.view.dedup s →
        Wp (orBackend (StageTxn.append (fate.appendFaults x.2) request.window x.1))
          (fun _ => Guarding t.writer t.view.dedup) (fun _ => Held t.writer) s := by
      intro _ x s hs
      exact wp_adapt (wp_mono (fun _ _ h => h) (fun _ _ h => h.toHeld) (wp_appendGuarding hs))
    refine wp_bind (wp_mono ?_ (fun _ _ h => h) (wp_forM hloop request.recordBatches.zipIdx [] ⟨⟨ht, rfl⟩, rfl⟩))
    intro _ s hs
    refine wp_bind (wp_get (wp_bind (wp_ofExcept (fun text htext => ?_) fun _ _ => hs.toHeld)))
    refine wp_bind (wp_adapt (wp_execute (fun _ view hview => ?_) (fun _ _ => hs.toHeld)
      fun _ _ => ⟨hs.finished, hs.writer⟩))
    cases hview
    refine wp_bind (wp_adapt (wp_mono ?_ (fun _ _ h => ⟨h.finished, h.writer.trans hs.writer⟩)
      (wp_evictGuarding hs.finished)))
    rintro evicted _ ⟨view, rfl, hkept⟩
    refine wp_bind (wp_adapt (wp_mono ?_ ?_ (wp_commitTxn _ _)))
    · rintro coverage t' ⟨rfl, hdone⟩
      refine wp_pure ⟨hdone.finished, .committed _ text hlive (mapError_eq_ok.mp htext) ?_⟩
      rw [hdone.view]
      rw [hs.dedup] at hkept
      exact hkept
    · rintro _ _ ⟨view', rfl⟩
      exact ⟨hs.finished, hs.writer⟩

/-- What holds of the batches appended so far, and does not read the dedup window, holds where the transaction ends
    well. -/
theorem wp_stageTxnInv {I : List (RecordBatch × ℕ) → StageTxn → Prop} {t : StageTxn} (ht : t.finished = false)
    (hinit : I [] t)
    (happend : ∀ done x s, I done s → Wp (StageTxn.append (fate.appendFaults x.2) request.window x.1)
      (fun _ => I (done ++ [x])) (fun _ _ => True) s)
    (hdedup : ∀ done s dedup, I done s → I done { s with view := { s.view with dedup } }) :
    Wp (stageTxn libs config fate request)
      (fun r t' => ∃ done s, I done s ∧ s.Finishes t' ∧
        ((∃ coverage, r.1 = .duplicateAcked coverage) ∧ done = [] ∨
          r.1 = .committed s.pendingCoverage ∧ done = request.recordBatches.zipIdx))
      (fun _ _ => True) t := by
  refine wp_bind (wp_adapt (wp_bind (wp_executeRead ?_ fun _ _ => trivial)))
  refine wp_bind (wp_get (wp_pure ?_))
  split
  next entry hentry =>
    refine wp_bind (wp_adapt (wp_mono ?_ (fun _ _ _ => trivial) (wp_resolveDuplicate ht)))
    rintro outcome _ ⟨coverage, view, -, rfl, rfl, hmarked⟩
    refine wp_bind (wp_adapt (wp_mono ?_ (fun _ _ _ => trivial) (wp_commitTxn _ _)))
    rintro _ t' ⟨-, hdone⟩
    refine wp_pure ⟨[], _, ?_, hdone, .inl ⟨⟨coverage, rfl⟩, rfl⟩⟩
    rcases hmarked with rfl | rfl
    · exact hinit
    · exact hdedup _ _ _ hinit
  next hentry =>
    refine wp_bind (wp_mono ?_ (fun _ _ h => h)
      (wp_forM (fun done x s hs => wp_adapt (happend done x s hs)) request.recordBatches.zipIdx [] hinit))
    intro _ s hs
    -- the statements on the dedup window leave what holds
    have hexec : ∀ {stmt : Stmt} {s : StageTxn} (f : List DedupRow → List DedupRow), I ([] ++ request.recordBatches.zipIdx) s →
        Wp (StageTxn.execute fate.faults stmt fun db => .ok { db with dedup := f db.dedup })
          (fun _ => I ([] ++ request.recordBatches.zipIdx)) (fun _ _ => True) s := by
      intro stmt s f hs
      refine wp_execute (fun _ view hview => ?_) (fun _ _ => trivial) fun _ _ => trivial
      cases hview
      exact hdedup _ _ _ hs
    refine wp_bind (wp_get (wp_bind (wp_ofExcept (fun text _ => ?_) fun _ _ => trivial)))
    refine wp_bind (wp_adapt (wp_mono (fun _ s hs => ?_) (fun _ _ _ => trivial) (hexec _ hs)))
    refine wp_bind (wp_adapt (wp_bind (wp_mono (fun _ s hs => ?_) (fun _ _ _ => trivial) (hexec _ hs))))
    refine wp_bind (wp_mono (fun _ s hs => ?_) (fun _ _ _ => trivial) (hexec id hs))
    have hcommit : ∀ {evicted : ℕ} {s : StageTxn}, I ([] ++ request.recordBatches.zipIdx) s →
        Wp (do let coverage ← orBackend (StageTxn.commit fate.faults); return (StageOutcome.committed coverage, evicted))
          (fun r t' => ∃ done s, I done s ∧ s.Finishes t' ∧
            ((∃ coverage, r.1 = .duplicateAcked coverage) ∧ done = [] ∨
              r.1 = .committed s.pendingCoverage ∧ done = request.recordBatches.zipIdx))
          (fun _ _ => True) s := by
      intro evicted s hs
      refine wp_bind (wp_adapt (wp_mono ?_ (fun _ _ _ => trivial) (wp_commitTxn _ _)))
      rintro coverage t' ⟨rfl, hdone⟩
      exact wp_pure ⟨_, s, hs, hdone, .inr ⟨rfl, rfl⟩⟩
    refine wp_bind (wp_get ?_)
    dsimp only
    split_ifs
    · exact wp_pure (hcommit hs)
    · refine wp_bind (wp_mono (fun _ s hs => ?_) (fun _ _ _ => trivial) (hexec _ hs))
      exact wp_bind (wp_get (wp_pure (hcommit hs)))

end Transaction

/-! ### One call -/

/-- One call with the clock it reads and what goes wrong in it. -/
structure StageCall where
  batch : DecodedBatch
  fate : StageFate

/-- A call that runs alone. -/
def stageCall (setup : StagingSetup) (call : StageCall) (s : StagingNode) :
    Except StageError StageOutcome × StagingNode :=
  (stageBlocking setup.libs call.batch).run.eval (fun o => StagingNode.exec setup o { stage := call.fate }) s

/-- The node after a list of calls. -/
def stageCalls (setup : StagingSetup) (s : StagingNode) (calls : List StageCall) : StagingNode :=
  calls.foldl (fun s call => (stageCall setup call s).2) s

/-- The records decode to this many rows. -/
def StagerLibs.rows (libs : StagerLibs) (batch : DecodedBatch) : Option ℕ :=
  match libs.readStream batch.records with
  | .ok recordBatches => some (recordBatches.map (·.rows.length)).sum
  | .error _ => none

section Call

variable {setup : StagingSetup} {call : StageCall} {s : StagingNode}

/-- A transaction that fails changes nothing, and one that ends well resolves the request. -/
theorem transact_cases (setup : StagingSetup) (fate : StageFate) (request : StageRequest) (s : EngineStager) :
    (∃ e, (s.transact setup.libs setup.config fate request).1 = .error e ∧
      (s.transact setup.libs setup.config fate request).2.engine.db = s.engine.db ∧
      (s.transact setup.libs setup.config fate request).2.engine.writer = s.engine.writer) ∨
    ∃ outcome, (s.transact setup.libs setup.config fate request).1 = .ok outcome ∧
      Resolved setup.libs setup.config fate request s.engine.db
        (s.transact setup.libs setup.config fate request).2.engine.db outcome := by
  have hwp : Wp (stageTxn setup.libs setup.config fate request)
      (fun r t' => t'.finished = true ∧ Resolved setup.libs setup.config fate request s.engine.db t'.view r.1)
      (fun _ => Held s.engine.writer) s.engine.begin := wp_stageTxn rfl rfl rfl
  simp only [Wp] at hwp
  simp only [EngineStager.transact]
  split
  · exact .inl ⟨_, rfl, rfl, rfl⟩
  · rcases hr : (stageTxn setup.libs setup.config fate request).run s.engine.begin with ⟨e | ⟨outcome, evicted⟩, t⟩
    · rw [hr] at hwp
      refine .inl ⟨e, rfl, ?_, hwp.writer⟩
      change (if t.finished then t.view else s.engine.db) = _
      rw [hwp.finished]
      rfl
    · rw [hr] at hwp
      refine .inr ⟨outcome, rfl, ?_⟩
      change Resolved _ _ _ _ _ (if t.finished then t.view else s.engine.db) _
      rw [hwp.1, if_pos rfl]
      exact hwp.2

/-- The request a call makes of the transaction, in the partition's current window. -/
def StageCall.request (setup : StagingSetup) (call : StageCall) (recordBatches : List RecordBatch) (s : StagingNode) :
    StageRequest :=
  let partition := PartitionId.fromTenantShard call.batch.tenant 0
  let window := (s.stager.currentWindow setup.config call.batch.dataset partition call.fate.monotonicNanos).1
  ⟨call.batch.tenant, dedupKey setup.libs call.batch, ⟨call.batch.dataset, partition, window⟩, recordBatches⟩

/-- The stager once a call has asked for its window. -/
def StageCall.asked (setup : StagingSetup) (call : StageCall) (s : StagingNode) : EngineStager :=
  (s.stager.currentWindow setup.config call.batch.dataset (PartitionId.fromTenantShard call.batch.tenant 0)
    call.fate.monotonicNanos).2

theorem StageCall.engine_asked (setup : StagingSetup) (call : StageCall) (s : StagingNode) :
    (call.asked setup s).engine = s.stager.engine :=
  EngineStager.engine_currentWindow _ _ _ _ s.stager

/-- A call alone, from the gate to the transaction. -/
theorem stageCall_eq (setup : StagingSetup) (call : StageCall) (s : StagingNode) :
    stageCall setup call s =
      match s.stager.admission setup.config, setup.libs.readStream call.batch.records with
      | .error e, _ => (.error e, s)
      | .ok _, .error text => (.error (.malformedRecords text), s)
      | .ok _, .ok recordBatches =>
        if (recordBatches.map (·.rows.length)).sum = 0 then (.ok (.committed []), s)
        else
          let r := (call.asked setup s).transact setup.libs setup.config call.fate (call.request setup recordBatches s)
          (r.1, { s with stager := r.2 }) := by
  simp only [stageCall, stageBlocking]
  rw [eval_ask]
  change Prog.eval _ (ExceptT.run (orThrow id (s.stager.admission setup.config) >>= _)) s = _
  rcases s.stager.admission setup.config with e | _
  · rfl
  rw [eval_orThrow_ok]
  rcases setup.libs.readStream call.batch.records with text | recordBatches
  · rfl
  rw [eval_orThrow_ok]
  dsimp only
  split_ifs with hrows
  · rfl
  rw [eval_ask, eval_ask]
  exact eval_orThrow

/-- A call fails and changes nothing, or has no rows and changes nothing, or resolves its request. -/
theorem stageCall_cases (setup : StagingSetup) (call : StageCall) (s : StagingNode) :
    (∃ e, (stageCall setup call s).1 = .error e ∧ (stageCall setup call s).2.db = s.db ∧
      (stageCall setup call s).2.stager.engine.writer = s.stager.engine.writer) ∨
    ((stageCall setup call s).1 = .ok (.committed []) ∧ (stageCall setup call s).2.db = s.db ∧
      setup.libs.rows call.batch = some 0) ∨
    ∃ outcome recordBatches, (stageCall setup call s).1 = .ok outcome ∧
      Resolved setup.libs setup.config call.fate (call.request setup recordBatches s) s.db
        (stageCall setup call s).2.db outcome := by
  rw [stageCall_eq]
  simp only [StagerLibs.rows]
  rcases s.stager.admission setup.config with e | _
  · exact .inl ⟨e, rfl, rfl, rfl⟩
  rcases setup.libs.readStream call.batch.records with text | recordBatches
  · exact .inl ⟨_, rfl, rfl, rfl⟩
  dsimp only
  split_ifs with hrows
  · exact .inr (.inl ⟨rfl, rfl, congrArg some hrows⟩)
  have hengine := call.engine_asked setup s
  rcases transact_cases setup call.fate (call.request setup recordBatches s) (call.asked setup s) with
    ⟨e, herror, hdb, hwriter⟩ | ⟨outcome, hok, hresolved⟩
  · rw [hengine] at hdb hwriter
    exact .inl ⟨e, herror, hdb, hwriter⟩
  · rw [hengine] at hresolved
    exact .inr (.inr ⟨outcome, recordBatches, hok, hresolved⟩)

end Call

/-! ### Entries -/

theorem mem_upsertDedup {row r : DedupRow} {rows : List DedupRow} :
    r ∈ upsertDedup row rows ↔ r = row ∨ r ∈ rows ∧ ¬ r.For row.tenant row.dedupKey := by
  simp only [upsertDedup]
  split_ifs with hany
  · simp only [List.any_eq_true, decide_eq_true_eq] at hany
    obtain ⟨old, hold, hfor⟩ := hany
    rw [List.mem_map]
    constructor
    · rintro ⟨x, hx, rfl⟩
      split_ifs with hxfor
      · exact .inl rfl
      · exact .inr ⟨hx, hxfor⟩
    · rintro (rfl | ⟨hr, hrfor⟩)
      · exact ⟨old, hold, if_pos hfor⟩
      · exact ⟨r, hr, if_neg hrfor⟩
  · simp only [List.any_eq_true, decide_eq_true_eq, not_exists, not_and] at hany
    rw [List.mem_append, List.mem_singleton, or_comm]
    exact or_congr_right ⟨fun hr => ⟨hr, hany r hr⟩, fun hr => hr.1⟩

theorem mem_keptEntries {row r : DedupRow} {rows : List DedupRow} {cutoff : ℤ} :
    r ∈ keptEntries rows row cutoff ↔
      (r = row ∨ r ∈ rows ∧ ¬ r.For row.tenant row.dedupKey) ∧ cutoff ≤ r.createdWallMs := by
  simp only [keptEntries, List.mem_filter, mem_upsertDedup, decide_eq_true_eq, not_lt]

/-- How many entries are kept does not depend on what the new one says. -/
theorem length_keptEntries (rows : List DedupRow) (row : DedupRow) (acked : Bool) (outcome : String) (cutoff : ℤ) :
    (keptEntries rows { row with acked, outcome } cutoff).length = (keptEntries rows row cutoff).length := by
  unfold keptEntries upsertDedup
  dsimp only
  split_ifs
  · rw [← List.countP_eq_length_filter, ← List.countP_eq_length_filter, List.countP_map, List.countP_map]
    refine List.countP_congr fun r _ => ?_
    simp only [Function.comp_apply]
    split_ifs
    · rfl
    · rfl
  · simp only [List.filter_append, List.length_append, List.filter_cons, List.filter_nil]
    split_ifs
    · rfl
    · rfl

/-- There is an entry of the key, and every such entry has this outcome. -/
structure Guarded (tenant : TenantId) (dedupKey text : String) (rows : List DedupRow) : Prop where
  present : ∃ row ∈ rows, row.For tenant dedupKey
  same : ∀ row ∈ rows, row.For tenant dedupKey → row.outcome = text

namespace Guarded

variable {tenant : TenantId} {key text : String} {rows : List DedupRow} {cutoff : ℤ}

theorem markAcked (h : Guarded tenant key text rows) (tenant' : TenantId) (key' : String) :
    Guarded tenant key text (markAcked tenant' key' rows) := by
  simp only [Duckspout.markAcked]
  constructor
  · obtain ⟨row, hrow, hfor⟩ := h.present
    refine ⟨_, List.mem_map_of_mem hrow, ?_⟩
    split_ifs
    · exact hfor
    · exact hfor
  · simp only [List.mem_map]
    rintro _ ⟨row, hrow, rfl⟩ hfor
    split_ifs at hfor ⊢
    · exact h.same row hrow hfor
    · exact h.same row hrow hfor

/-- A replay leaves the entries, or marks one. -/
theorem of_replay {rows' : List DedupRow} {tenant' : TenantId} {key' : String} (h : Guarded tenant key text rows)
    (hrows : rows' = rows ∨ rows' = Duckspout.markAcked tenant' key' rows) : Guarded tenant key text rows' := by
  rcases hrows with rfl | rfl
  · exact h
  · exact h.markAcked tenant' key'

/-- A new entry of its key guards it. -/
theorem of_new (row : DedupRow) (hcutoff : cutoff ≤ row.createdWallMs) :
    Guarded row.tenant row.dedupKey row.outcome (keptEntries rows row cutoff) where
  present := ⟨row, mem_keptEntries.mpr ⟨.inl rfl, hcutoff⟩, rfl, rfl⟩
  same := by
    intro r hr hfor
    rcases (mem_keptEntries.mp hr).1 with rfl | ⟨-, hnot⟩
    · rfl
    · exact absurd hfor hnot

/-- A new entry of another key leaves the ones within their time to live. -/
theorem of_other {row : DedupRow} (h : Guarded tenant key text rows) (hother : ¬ row.For tenant key)
    (hcutoff : ∀ r ∈ rows, r.For tenant key → cutoff ≤ r.createdWallMs) :
    Guarded tenant key text (keptEntries rows row cutoff) := by
  constructor
  · obtain ⟨r, hr, hfor⟩ := h.present
    refine ⟨r, mem_keptEntries.mpr ⟨.inr ⟨hr, fun hsame => hother ?_⟩, hcutoff r hr hfor⟩, hfor⟩
    exact ⟨hsame.1.symm.trans hfor.1, hsame.2.symm.trans hfor.2⟩
  · intro r hr hfor
    rcases (mem_keptEntries.mp hr).1 with rfl | ⟨hold, -⟩
    · exact absurd hfor hother
    · exact h.same r hold hfor

/-- A lookup within the time to live finds the outcome. -/
theorem liveEntry (h : Guarded tenant key text rows)
    (hcutoff : ∀ r ∈ rows, r.For tenant key → cutoff ≤ r.createdWallMs) :
    ∃ row, liveEntry rows tenant key cutoff = some row ∧ row.outcome = text := by
  obtain ⟨r, hr, hfor⟩ := h.present
  have hsome : (Duckspout.liveEntry rows tenant key cutoff).isSome := by
    rw [Duckspout.liveEntry, List.find?_isSome]
    exact ⟨r, hr, by simpa using ⟨hfor, hcutoff r hr hfor⟩⟩
  obtain ⟨row, hrow⟩ := Option.isSome_iff_exists.mp hsome
  have hrowFor := List.find?_some hrow
  simp only [decide_eq_true_eq] at hrowFor
  exact ⟨row, hrow, h.same row (List.mem_of_find?_eq_some hrow) hrowFor.1⟩

end Guarded

/-! ### A retry that meets no fault -/

section Smooth

variable {setup : StagingSetup} {fate : StageFate}

/-- No statement of the call goes wrong. -/
structure StageFate.Smooth (fate : StageFate) : Prop where
  beginFault : fate.beginFault = none
  faults : ∀ stmt, fate.faults stmt = none

theorem wp_executeSmooth {faults : Faults} {stmt : Stmt} {effect : HotDb → Except Fault HotDb} {t : StageTxn}
    {view : HotDb} {Q : PUnit → StageTxn → Prop} {E : StagingError → StageTxn → Prop} (hfaults : faults stmt = none)
    (hup : t.aborted = false) (heffect : effect t.view = .ok view) (hQ : Q ⟨⟩ { t with view }) :
    Wp (StageTxn.execute faults stmt effect) Q E t := by
  refine wp_bind (wp_get ?_)
  simp only [hup, hfaults, heffect, Option.elim_none, Bool.false_eq_true, if_false]
  exact wp_modify hQ

/-- A transaction that has staged nothing commits. -/
theorem wp_commitSmooth {t : StageTxn} {Q : List StagedCoverage → StageTxn → Prop}
    {E : StagingError → StageTxn → Prop} (hsmooth : fate.Smooth) (hup : t.aborted = false)
    (hpending : t.pendingApplied = ∅) (hQ : ∀ coverage t', Q coverage t') :
    Wp (StageTxn.commit fate.faults) Q E t := by
  refine wp_bind (wp_get (wp_bind ?_))
  have hnil : t.pendingApplied.toList = [] := by
    rw [hpending]
    rfl
  rw [hnil]
  exact wp_pure (wp_bind (wp_executeSmooth (hsmooth.faults _) hup rfl (wp_bind (wp_modify (wp_pure (hQ _ _))))))

theorem wp_resolveSmooth {libs : StagerLibs} {t : StageTxn} {tenant : TenantId} {dedupKey : String} {entry : DedupEntry}
    {coverage : List StagedCoverage} (hsmooth : fate.Smooth) (hup : t.aborted = false)
    (hjson : libs.fromJson entry.outcomeJson = .ok coverage) :
    Wp (resolveDuplicate libs fate.faults tenant dedupKey entry atRfV01)
      (fun outcome t' => outcome = .duplicateAcked coverage ∧ t'.aborted = false ∧ t'.pendingApplied = t.pendingApplied)
      (fun _ _ => False) t := by
  have hparse : parseOutcome libs entry.outcomeJson = .ok coverage := mapError_eq_ok.mpr hjson
  simp only [resolveDuplicate]
  rw [hparse]
  split_ifs with hacked hrf
  · exact wp_pure ⟨rfl, hup, rfl⟩
  · exact wp_bind (wp_executeSmooth (hsmooth.faults _) hup rfl (wp_pure ⟨rfl, hup, rfl⟩))
  · exact absurd rfl hrf

/-- A live entry is replayed. -/
theorem transact_replays {request : StageRequest} {s : EngineStager} {row : DedupRow} {coverage : List StagedCoverage}
    (hsmooth : fate.Smooth)
    (hlive : liveEntry s.engine.db.dedup request.tenant request.dedupKey (fate.cutoff setup.config) = some row)
    (hjson : setup.libs.fromJson row.outcome = .ok coverage) :
    (s.transact setup.libs setup.config fate request).1 = .ok (.duplicateAcked coverage) := by
  have hwp : Wp (stageTxn setup.libs setup.config fate request) (fun r _ => r.1 = .duplicateAcked coverage)
      (fun _ _ => False) s.engine.begin := by
    refine wp_bind (wp_adapt (wp_bind (wp_executeSmooth (hsmooth.faults _) rfl rfl (wp_bind (wp_get (wp_pure ?_))))))
    split
    next entry hentry =>
      obtain ⟨row', hrow', rfl⟩ := Option.map_eq_some_iff.mp hentry
      obtain rfl : row' = row := Option.some.inj (hrow'.symm.trans hlive)
      refine wp_bind (wp_adapt (wp_mono ?_ (fun _ _ h => h) (wp_resolveSmooth hsmooth rfl hjson)))
      rintro outcome t ⟨rfl, hup, hpending⟩
      exact wp_bind (wp_adapt (wp_commitSmooth hsmooth hup hpending fun _ _ => wp_pure rfl))
    next hentry =>
      have hfound := (Option.map_eq_none_iff.mp hentry).symm.trans hlive
      cases hfound
  simp only [Wp] at hwp
  simp only [EngineStager.transact]
  rw [hsmooth.beginFault]
  rcases hr : (stageTxn setup.libs setup.config fate request).run s.engine.begin with ⟨e | ⟨outcome, evicted⟩, t⟩
  · rw [hr] at hwp
    exact hwp.elim
  · rw [hr] at hwp
    exact congrArg Except.ok hwp

end Smooth

/-! ### Retries -/

/-- The call has this tenant and key. -/
def StageCall.Keyed (setup : StagingSetup) (tenant : TenantId) (key : String) (call : StageCall) : Prop :=
  call.batch.tenant = tenant ∧ dedupKey setup.libs call.batch = key

/-- The entry of a call. -/
def StageCall.entry (setup : StagingSetup) (call : StageCall) (text : String) : DedupRow :=
  ⟨call.batch.tenant, dedupKey setup.libs call.batch, true, text, call.fate.wallUnixMs⟩

/-- The entries where the call stages its batch, with its own. -/
def StageCall.entries (setup : StagingSetup) (call : StageCall) (text : String) (s : StagingNode) : List DedupRow :=
  keptEntries s.db.dedup (call.entry setup text) (call.fate.cutoff setup.config)

/-- Where the call stages its batch, the entries are no more than the cap. -/
def StageCall.WithinCap (setup : StagingSetup) (call : StageCall) (s : StagingNode) : Prop :=
  ∀ coverage, (stageCall setup call s).1 = .ok (.committed coverage) →
    (call.entries setup "" s).length ≤ setup.config.dedupMaxEntries

/-- At the call the entries of the key are within their time to live, and the cap is not exceeded. -/
structure Retained (setup : StagingSetup) (tenant : TenantId) (key : String) (call : StageCall) (s : StagingNode) :
    Prop where
  ttl : ∀ row ∈ s.db.dedup, row.For tenant key → call.fate.cutoff setup.config ≤ row.createdWallMs
  cap : call.WithinCap setup s

/-- The same at every call of a list. -/
def RetainedRun (setup : StagingSetup) (tenant : TenantId) (key : String) : StagingNode → List StageCall → Prop
  | _, [] => True
  | s, call :: calls =>
    Retained setup tenant key call s ∧ RetainedRun setup tenant key (stageCall setup call s).2 calls

theorem retainedRun_append {setup : StagingSetup} {tenant : TenantId} {key : String} {calls calls' : List StageCall} :
    ∀ {s : StagingNode}, RetainedRun setup tenant key s (calls ++ calls') ↔
      RetainedRun setup tenant key s calls ∧ RetainedRun setup tenant key (stageCalls setup s calls) calls' := by
  induction calls with
  | nil =>
    intro s
    exact ⟨fun h => ⟨trivial, h⟩, fun h => h.2⟩
  | cons call calls ih =>
    intro s
    exact ⟨fun h => ⟨⟨h.1, (ih.mp h.2).1⟩, (ih.mp h.2).2⟩, fun h => ⟨h.1.1, ih.mpr ⟨h.1.2, h.2⟩⟩⟩

section Retries

variable {setup : StagingSetup} {tenant : TenantId} {key text : String} {call : StageCall} {s : StagingNode}

/-- Where a call stages its batch, the entries are what the cap leaves of those kept with its own. -/
theorem dedup_of_committed {coverage : List StagedCoverage}
    (hok : (stageCall setup call s).1 = .ok (.committed coverage))
    (hrows : setup.libs.rows call.batch ≠ some 0) :
    ∃ text, setup.libs.toJson coverage = .ok text ∧ (stageCall setup call s).2.db.dedup =
      cappedEntries call.fate.ties setup.config.dedupMaxEntries (call.entries setup text s) := by
  rcases stageCall_cases setup call s with ⟨e, herror, -⟩ | ⟨-, -, hnone⟩ | ⟨outcome, recordBatches, hok', hresolved⟩
  · rw [hok] at herror
    cases herror
  · exact absurd hnone hrows
  · rw [hok] at hok'
    cases hok'
    cases hresolved with
    | committed _ text _ hjson hdedup => exact ⟨text, hjson, hdedup⟩

/-- Within the cap no entry is evicted but for its age. -/
theorem dedup_eq_entries {coverage : List StagedCoverage} {rows : List DedupRow} (hcap : call.WithinCap setup s)
    (hok : (stageCall setup call s).1 = .ok (.committed coverage))
    (hrows : rows = cappedEntries call.fate.ties setup.config.dedupMaxEntries (call.entries setup text s)) :
    rows = call.entries setup text s := by
  have hlength : (call.entries setup text s).length = (call.entries setup "" s).length :=
    length_keptEntries s.db.dedup (call.entry setup "") true text _
  have hle := hcap coverage hok
  exact hrows.trans (if_pos (by omega))

/-- The first call leaves its key guarded by its coverage. -/
theorem guarded_first {coverage : List StagedCoverage} (hcap : call.WithinCap setup s)
    (hok : (stageCall setup call s).1 = .ok (.committed coverage)) (hrows : setup.libs.rows call.batch ≠ some 0)
    (hcutoff : call.fate.cutoff setup.config ≤ call.fate.wallUnixMs) :
    ∃ text, setup.libs.toJson coverage = .ok text ∧
      Guarded call.batch.tenant (dedupKey setup.libs call.batch) text (stageCall setup call s).2.db.dedup := by
  obtain ⟨text, hjson, hdedup⟩ := dedup_of_committed hok hrows
  rw [dedup_eq_entries hcap hok hdedup]
  exact ⟨text, hjson, Guarded.of_new (call.entry setup text) hcutoff⟩

/-- A call with a key whose entry is retained stages nothing, whatever it answers. -/
theorem stageCall_guarded (h : Guarded tenant key text s.db.dedup) (hkey : call.Keyed setup tenant key)
    (httl : ∀ row ∈ s.db.dedup, row.For tenant key → call.fate.cutoff setup.config ≤ row.createdWallMs) :
    ((stageCall setup call s).2.db = { s.db with dedup := (stageCall setup call s).2.db.dedup } ∧
      Guarded tenant key text (stageCall setup call s).2.db.dedup) ∧
    ∀ outcome, (stageCall setup call s).1 = .ok outcome → setup.libs.rows call.batch ≠ some 0 →
      ∃ coverage, outcome = .duplicateAcked coverage ∧ setup.libs.fromJson text = .ok coverage := by
  obtain ⟨rfl, rfl⟩ := hkey
  obtain ⟨row, hrow, htext⟩ := h.liveEntry httl
  rcases stageCall_cases setup call s with ⟨e, herror, hdb, -⟩ | ⟨-, hdb, hnone⟩ |
    ⟨outcome, recordBatches, hok, hresolved⟩
  · rw [hdb, herror]
    exact ⟨⟨rfl, h⟩, by rintro _ ⟨⟩⟩
  · rw [hdb]
    exact ⟨⟨rfl, h⟩, fun _ _ hrows => absurd hnone hrows⟩
  · cases hresolved with
    | duplicate row' coverage hlive hjson hdb hdedup =>
      refine ⟨⟨hdb, h.of_replay hdedup⟩, ?_⟩
      rintro outcome' hok' -
      rw [hok] at hok'
      cases hok'
      have hrow' : row' = row := Option.some.inj (hlive.symm.trans hrow)
      exact ⟨coverage, rfl, by rw [← htext, ← hrow', hjson]⟩
    | committed _ _ hlive =>
      have hfound := hlive.symm.trans hrow
      cases hfound

/-- A retained entry stays through any call. -/
theorem guarded_step (h : Guarded tenant key text s.db.dedup) (hret : Retained setup tenant key call s) :
    Guarded tenant key text (stageCall setup call s).2.db.dedup := by
  by_cases hkey : call.Keyed setup tenant key
  · exact (stageCall_guarded h hkey hret.ttl).1.2
  rcases stageCall_cases setup call s with ⟨e, -, hdb, -⟩ | ⟨-, hdb, -⟩ | ⟨outcome, recordBatches, hok, hresolved⟩
  · rw [hdb]
    exact h
  · rw [hdb]
    exact h
  · cases hresolved with
    | duplicate _ _ _ _ _ hdedup => exact h.of_replay hdedup
    | committed coverage text' _ _ hdedup =>
      rw [dedup_eq_entries hret.cap hok hdedup]
      exact h.of_other hkey hret.ttl

theorem guarded_run {calls : List StageCall} : ∀ {s : StagingNode}, Guarded tenant key text s.db.dedup →
    RetainedRun setup tenant key s calls → Guarded tenant key text (stageCalls setup s calls).db.dedup := by
  induction calls with
  | nil => exact fun h _ => h
  | cons call calls ih => exact fun h hrun => ih (guarded_step h hrun.1) hrun.2

/-- A retry that is admitted and meets no fault replays the outcome. -/
theorem stageCall_replays {coverage : List StagedCoverage} {n : ℕ} (h : Guarded tenant key text s.db.dedup)
    (hkey : call.Keyed setup tenant key)
    (httl : ∀ row ∈ s.db.dedup, row.For tenant key → call.fate.cutoff setup.config ≤ row.createdWallMs)
    (hjson : setup.libs.fromJson text = .ok coverage) (hgate : s.stager.admission setup.config = .ok ())
    (hrows : setup.libs.rows call.batch = some (n + 1)) (hsmooth : call.fate.Smooth) :
    (stageCall setup call s).1 = .ok (.duplicateAcked coverage) := by
  obtain ⟨rfl, rfl⟩ := hkey
  obtain ⟨row, hrow, rfl⟩ := h.liveEntry httl
  rw [stageCall_eq, hgate]
  simp only [StagerLibs.rows] at hrows
  rcases hread : setup.libs.readStream call.batch.records with e | recordBatches
  · rw [hread] at hrows
    cases hrows
  · rw [hread] at hrows
    have hsum : (recordBatches.map (·.rows.length)).sum = n + 1 := Option.some.inj hrows
    dsimp only
    rw [hsum, if_neg (Nat.succ_ne_zero n)]
    refine transact_replays hsmooth ?_ hjson
    rw [call.engine_asked]
    exact hrow

/-- A call that fails leaves the database and the mirrors as they were. -/
theorem stageCall_error {e : StageError} (h : (stageCall setup call s).1 = .error e) :
    (stageCall setup call s).2.db = s.db ∧ (stageCall setup call s).2.stager.engine.writer = s.stager.engine.writer := by
  rcases stageCall_cases setup call s with ⟨_, -, hdb, hwriter⟩ | ⟨hok, -⟩ | ⟨outcome, recordBatches, hok, -⟩
  · exact ⟨hdb, hwriter⟩
  · rw [hok] at h
    cases h
  · rw [hok] at h
    cases h

end Retries

/-- Calls one after another, from any state. One that fails changes nothing. Where a batch has been staged and its
    entry is retained, a retry stages nothing; if it succeeds it answers with the coverage of the first call, and it
    does succeed where it is admitted and no statement goes wrong. -/
theorem staged_once_per_key (setup : StagingSetup) :
    (∀ call s e, (stageCall setup call s).1 = .error e →
      (stageCall setup call s).2.db = s.db ∧
      (stageCall setup call s).2.stager.engine.writer = s.stager.engine.writer) ∧
    (setup.libs.RoundTrips → ∀ s first coverage calls retry,
      (stageCall setup first s).1 = .ok (.committed coverage) →
      setup.libs.rows first.batch ≠ some 0 →
      first.fate.cutoff setup.config ≤ first.fate.wallUnixMs →
      first.WithinCap setup s →
      retry.Keyed setup first.batch.tenant (dedupKey setup.libs first.batch) →
      RetainedRun setup first.batch.tenant (dedupKey setup.libs first.batch) (stageCall setup first s).2
        (calls ++ [retry]) →
      let before := stageCalls setup (stageCall setup first s).2 calls
      let after := stageCall setup retry before
      after.2.db = { before.db with dedup := after.2.db.dedup } ∧
      (∀ outcome, after.1 = .ok outcome → setup.libs.rows retry.batch ≠ some 0 →
        outcome = .duplicateAcked coverage) ∧
      (before.stager.admission setup.config = .ok () → (∃ n, setup.libs.rows retry.batch = some (n + 1)) →
        retry.fate.Smooth → after.1 = .ok (.duplicateAcked coverage))) := by
  refine ⟨fun call s e => stageCall_error, ?_⟩
  intro hjson s first coverage calls retry hfirst hrows hcutoff hcap hkey hrun
  obtain ⟨text, htext, hguarded⟩ := guarded_first hcap hfirst hrows hcutoff
  obtain ⟨hcalls, hretained, -⟩ := retainedRun_append.mp hrun
  have hbefore := guarded_run hguarded hcalls
  have hback : setup.libs.fromJson text = .ok coverage := hjson coverage text htext
  obtain ⟨⟨hdb, -⟩, hanswer⟩ := stageCall_guarded hbefore hkey hretained.ttl
  refine ⟨hdb, ?_, ?_⟩
  · intro outcome hok hretry
    obtain ⟨coverage', rfl, hjson'⟩ := hanswer outcome hok hretry
    rw [hback] at hjson'
    cases hjson'
    rfl
  · rintro hgate ⟨n, hn⟩ hsmooth
    exact stageCall_replays hbefore hkey hretained.ttl hback hgate hn hsmooth

/-- A batch, another one, and a retry of the first a second later. -/
theorem retry_replayed :
    let first : StageCall := ⟨oneRowBatch "k1" 1, {}⟩
    let other : StageCall := ⟨oneRowBatch "k2" 2, { wallUnixMs := 500 }⟩
    let retry : StageCall := ⟨oneRowBatch "k1" 1, { wallUnixMs := 1000 }⟩
    let s := StagingNode.fresh ⟨"node-1"⟩
    (stageCall oneRowSetup retry (stageCalls oneRowSetup (stageCall oneRowSetup first s).2 [other])).1 =
      .ok (.duplicateAcked (oneRowOutcome 1).1) := by
  intro first other retry s
  have hfirst : (stageCall oneRowSetup first s).1 = .ok (.committed (oneRowOutcome 1).1) := by decide +kernel
  have hkey : retry.Keyed oneRowSetup first.batch.tenant (dedupKey oneRowLibs first.batch) := ⟨rfl, rfl⟩
  have hcap : first.WithinCap oneRowSetup s := fun _ _ => by decide +kernel
  have hother : Retained oneRowSetup first.batch.tenant (dedupKey oneRowLibs first.batch) other
      (stageCall oneRowSetup first s).2 := ⟨by decide +kernel, fun _ _ => by decide +kernel⟩
  have hretry : Retained oneRowSetup first.batch.tenant (dedupKey oneRowLibs first.batch) retry
      (stageCall oneRowSetup other (stageCall oneRowSetup first s).2).2 :=
    ⟨by decide +kernel, fun _ _ => by decide +kernel⟩
  have hreplay := (staged_once_per_key oneRowSetup).2 oneRowLibs_roundTrips s first (oneRowOutcome 1).1 [other] retry
    hfirst (by decide +kernel) (by decide +kernel) hcap hkey ⟨hother, hretry, trivial⟩
  exact hreplay.2.2 (by decide +kernel) ⟨0, by decide +kernel⟩ ⟨rfl, fun _ => rfl⟩

end Duckspout
