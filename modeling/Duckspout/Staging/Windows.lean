import Duckspout.Staging.Dense
import Duckspout.Staging.System

/-! What a step of a staging node does to its windows: a transaction adds rows to one of them, a drop takes a
    window or its covered rows away, and nothing else changes a table. -/

namespace Duckspout

open Fallible Threads

/-! ### Tables by name -/

theorem WindowKey.tableName_injective {k k' : WindowKey} (h : k.tableName = k'.tableName) : k = k' := by
  obtain ⟨d, p, w⟩ := k
  obtain ⟨d', p', w'⟩ := k'
  obtain ⟨rfl, rfl, rfl⟩ := windowTableName_injective h
  rfl

/-- A registered window has the table of its name, and a window with a table is registered. -/
structure HotDb.Shelved (db : HotDb) : Prop where
  named : ∀ k m, db.windows.lookup k = some m → m.table = k.tableName
  registered : ∀ k, (db.tables k.tableName).isSome → k ∈ db.windows

/-- The rows of a window are those of the table of its name. -/
theorem HotDb.Shelved.staged {db : HotDb} (h : db.Shelved) (key : WindowKey) :
    db.staged key = (db.tables key.tableName).getD [] := by
  simp only [HotDb.staged]
  rcases hm : db.windows.lookup key with _ | m
  · have hnone : db.tables key.tableName = none := by
      by_contra hsome
      exact Finmap.lookup_eq_none.mp hm (h.registered key (Option.isSome_iff_ne_none.mpr hsome))
    rw [hnone]
    rfl
  · rw [Option.bind_some, h.named key m hm]

/-- Rows were added to one window, and the high-waters have not gone down. -/
structure HotDb.Grown (key : WindowKey) (rows : List StagedRow) (db db' : HotDb) : Prop where
  everStaged : db'.everStaged = db.everStaged ++ rows.map (key, ·)
  others : ∀ table, table ≠ key.tableName → db'.tables table = db.tables table
  table : (db'.tables key.tableName).getD [] = (db.tables key.tableName).getD [] ++ rows
  windowHw : ∀ d p w, db.windowHw d p = some w → ∃ w', db'.windowHw d p = some w' ∧ w ≤ w'

namespace HotDb

variable {key : WindowKey} {rows : List StagedRow} {db db' : HotDb}

theorem Grown.refl (key : WindowKey) (db : HotDb) : Grown key [] db db where
  everStaged := by simp
  others := fun _ _ => rfl
  table := by simp
  windowHw := fun _ _ w hw => ⟨w, hw, Nat.le_refl _⟩

theorem windowHw_raiseHw (hw : DatasetId → PartitionId → Option WindowId) (key : WindowKey) (d : DatasetId)
    (p : PartitionId) (w : WindowId) (h : hw d p = some w) : ∃ w', raiseHw hw key d p = some w' ∧ w ≤ w' := by
  simp only [raiseHw]
  split_ifs
  · rw [h]
    exact ⟨_, rfl, Nat.le_max_left _ _⟩
  · exact ⟨w, h, Nat.le_refl _⟩

/-- A window has been created, with an empty table. -/
theorem Grown.withWindow (h : Grown key rows db db') (hfree : db'.tables key.tableName = none) :
    Grown key rows db (db'.withWindow key) where
  everStaged := h.everStaged
  others := fun table hne => (Function.update_of_ne hne ..).trans (h.others table hne)
  table := by
    have hold := h.table
    rw [hfree] at hold
    simpa [HotDb.withWindow] using hold
  windowHw := by
    intro d p w hw
    obtain ⟨w', hw', hle⟩ := h.windowHw d p w hw
    obtain ⟨w'', hw'', hle'⟩ := windowHw_raiseHw db'.windowHw key d p w' hw'
    exact ⟨w'', hw'', hle.trans hle'⟩

theorem Shelved.withWindow (h : db.Shelved) (key : WindowKey) : (db.withWindow key).Shelved where
  named := by
    intro k m hm
    rcases eq_or_ne k key with rfl | hne
    · rw [HotDb.withWindow, Finmap.lookup_insert] at hm
      rw [← Option.some.inj hm]
    · rw [HotDb.withWindow, Finmap.lookup_insert_of_ne _ hne] at hm
      exact h.named k m hm
  registered := by
    intro k hk
    rcases eq_or_ne k key with rfl | hne
    · exact Finmap.mem_insert.mpr (.inl rfl)
    · have hname : k.tableName ≠ key.tableName := fun heq => hne (WindowKey.tableName_injective heq)
      have hsame : (db.withWindow key).tables k.tableName = db.tables k.tableName := Function.update_of_ne hname ..
      rw [hsame] at hk
      exact Finmap.mem_insert.mpr (.inr (h.registered k hk))

/-- Rows have been appended to the window's table. -/
theorem Grown.appendRows {view : HotDb} {more : List StagedRow} (h : Grown key rows db db')
    (hview : HotDb.appendRows key key.tableName more db' = .ok view) : Grown key (rows ++ more) db view := by
  simp only [HotDb.appendRows] at hview
  split at hview
  · cases hview
  next old hold =>
    cases hview
    have htable := h.table
    rw [hold, Option.getD_some] at htable
    exact {
      everStaged := by simp [h.everStaged]
      others := fun table hne => (Function.update_of_ne hne ..).trans (h.others table hne)
      table := by simp [htable]
      windowHw := h.windowHw }

theorem Shelved.appendRows {view : HotDb} {more : List StagedRow} (h : db.Shelved)
    (hview : HotDb.appendRows key key.tableName more db = .ok view) : view.Shelved := by
  simp only [HotDb.appendRows] at hview
  split at hview
  · cases hview
  next old hold =>
    cases hview
    refine ⟨h.named, fun k hk => ?_⟩
    rcases eq_or_ne k key with rfl | hne
    · exact h.registered k (by rw [hold]; rfl)
    · have hname : k.tableName ≠ key.tableName := fun heq => hne (WindowKey.tableName_injective heq)
      exact h.registered k (by simpa [Function.update_of_ne hname] using hk)

/-- Bytes have been registered. -/
theorem grown_updateBytes {view : HotDb} {bytes : U64} (h : Grown key rows db db') (hshelved : db'.Shelved)
    (hview : HotDb.updateBytes key bytes db' = .ok view) : Grown key rows db view ∧ view.Shelved := by
  simp only [HotDb.updateBytes] at hview
  split at hview
  · cases hview
    exact ⟨h, hshelved⟩
  · split_ifs at hview
    cases hview
    refine ⟨⟨h.everStaged, h.others, h.table, h.windowHw⟩, fun k m hm => ?_, fun k hk => ?_⟩
    · rw [lookup_addBytes, Option.map_eq_some_iff] at hm
      obtain ⟨m', hm', rfl⟩ := hm
      exact hshelved.named k m' hm'
    · rw [← Finmap.lookup_isSome, lookup_addBytes, Option.isSome_map, Finmap.lookup_isSome]
      exact hshelved.registered k hk

end HotDb

/-! ### In a transaction -/

/-- An open transaction that writes to one window only. -/
structure Growing (e : StagingEngine) (key : WindowKey) (t : StageTxn) : Prop extends Held e.writer t where
  pending : ∀ x ∈ t.pendingWindows, x.2 = x.1.tableName
  grown : t.aborted = false → ∃ rows, HotDb.Grown key rows e.db t.view ∧ t.view.Shelved

/-- An engine between two transactions. -/
structure StagingEngine.Steady (e : StagingEngine) : Prop extends EngineInv e where
  idle : e.txn = none
  shelved : e.db.Shelved

section Growing

variable {e : StagingEngine} {key : WindowKey} {t : StageTxn} {faults : Faults} {stmt : Stmt}

theorem Growing.abort (h : Growing e key t) (view : HotDb) : Growing e key { t with view, aborted := true } where
  finished := h.finished
  writer := h.writer
  pending := h.pending
  grown := fun habort => by cases habort

theorem StagingEngine.Steady.begin (h : e.Steady) (key : WindowKey) : Growing e key e.begin where
  finished := rfl
  writer := rfl
  pending := fun x hx => by cases hx
  grown := fun _ => ⟨[], .refl key e.db, h.shelved⟩

/-- The table a transaction knows for a window is the one of its name. -/
theorem Growing.table_eq {table : String} (h : Growing e key t) (hsteady : e.Steady)
    (htable : t.table? key = some table) : table = key.tableName := by
  simp only [StageTxn.table?] at htable
  rw [h.writer, hsteady.windows_eq] at htable
  rcases hm : e.db.windows.lookup key with _ | m
  · rw [hm] at htable
    obtain ⟨x, hx, rfl⟩ := Option.map_eq_some_iff.mp htable
    have hkey := List.find?_some hx
    simp only [decide_eq_true_eq] at hkey
    rw [h.pending x (List.mem_of_find?_eq_some hx), hkey]
  · rw [hm] at htable
    cases htable
    exact hsteady.shelved.named key m hm

/-- A statement that keeps what was added to the window. -/
theorem wp_executeGrowing {effect : HotDb → Except Fault HotDb} (h : Growing e key t)
    (heffect : ∀ rows db db', HotDb.Grown key rows e.db db → db.Shelved → effect db = .ok db' →
      ∃ rows', HotDb.Grown key rows' e.db db' ∧ db'.Shelved) :
    Wp (StageTxn.execute faults stmt effect) (fun _ => Growing e key) (fun _ => Growing e key) t := by
  refine wp_execute (fun hup view hview => ?_) (fun _ _ => h) fun _ _ => h.abort _
  obtain ⟨rows, hgrown, hshelved⟩ := h.grown hup
  exact ⟨⟨h.finished, h.writer⟩, h.pending, fun _ => heffect rows _ _ hgrown hshelved hview⟩

theorem wp_ensureWindowGrowing (fields : List Field) (hsteady : e.Steady) (h : Growing e key t) :
    Wp (StageTxn.ensureWindow faults key fields) (fun table t' => table = key.tableName ∧ Growing e key t')
      (fun _ => Growing e key) t := by
  refine wp_bind (wp_get ?_)
  rcases htable : t.table? key with _ | table
  · refine wp_bind (wp_checkFields ?_ fun _ => h)
    refine wp_bind (wp_execute (fun hup view₁ h₁ => ?_) (fun _ _ => h) fun _ _ => h.abort _)
    refine wp_bind (wp_execute (fun _ view₂ h₂ => ?_) (fun hbad => ?_) fun _ _ => h.abort view₁)
    · refine wp_bind (wp_execute (fun _ view₃ h₃ => ?_) (fun hbad => ?_) fun _ _ => h.abort view₂)
      · obtain ⟨hfree, rfl⟩ := withWindow_of_statements h₁ h₂ h₃
        refine ⟨rfl, ⟨h.finished, h.writer⟩, fun x hx => ?_, fun _ => ?_⟩
        · rcases List.mem_append.mp hx with hold | hlast
          · exact h.pending x hold
          · obtain rfl := List.mem_singleton.mp hlast
            rfl
        · obtain ⟨rows, hgrown, hshelved⟩ := h.grown hup
          exact ⟨rows, hgrown.withWindow hfree, hshelved.withWindow key⟩
      · simp [hup, Stmt.binds] at hbad
    · simp [hup, Stmt.binds] at hbad
  · exact wp_pure ⟨h.table_eq hsteady htable, h⟩

/-- A batch goes into the window and nowhere else. -/
theorem wp_appendGrowing (batch : RecordBatch) (hsteady : e.Steady) (h : Growing e key t) :
    Wp (StageTxn.append faults key batch) (fun _ => Growing e key) (fun _ => Growing e key) t := by
  refine wp_bind (wp_mono ?_ (fun _ _ ht => ht) (wp_ensureWindowGrowing batch.fields hsteady h))
  rintro table t ⟨rfl, h⟩
  split_ifs
  · exact wp_pure h
  refine wp_bind (wp_get ?_)
  dsimp only
  split_ifs
  · exact wp_throw h
  refine wp_bind (wp_mono (fun _ t h => ?_) (fun _ _ h => h) (wp_executeGrowing h ?_))
  · refine wp_bind (wp_mono (fun _ t h => ?_) (fun _ _ h => h) (wp_executeGrowing h ?_))
    · exact wp_modify ⟨⟨h.finished, h.writer⟩, h.pending, h.grown⟩
    · exact fun rows _ _ hgrown hshelved hdb => ⟨rows, HotDb.grown_updateBytes hgrown hshelved hdb⟩
  · exact fun rows _ _ hgrown hshelved hdb => ⟨_, hgrown.appendRows hdb, hshelved.appendRows hdb⟩

/-- A change of the dedup window alone. -/
theorem wp_executeDedupGrowing (dedup : List DedupRow → List DedupRow) (h : Growing e key t) :
    Wp (StageTxn.execute faults stmt fun db => .ok { db with dedup := dedup db.dedup }) (fun _ => Growing e key)
      (fun _ => Growing e key) t := by
  refine wp_executeGrowing h fun rows db db' hgrown hshelved hdb => ?_
  cases hdb
  exact ⟨rows, ⟨hgrown.everStaged, hgrown.others, hgrown.table, hgrown.windowHw⟩, hshelved.named, hshelved.registered⟩

theorem wp_dedupEvictGrowing {ties : TieOrder} {wallNowMs ttlMs : ℤ} {maxEntries : U64} (h : Growing e key t) :
    Wp (StageTxn.dedupEvict faults ties wallNowMs ttlMs maxEntries) (fun _ => Growing e key) (fun _ => Growing e key)
      t := by
  refine wp_bind (wp_mono (fun _ t h => ?_) (fun _ _ h => h) (wp_executeDedupGrowing _ h))
  refine wp_bind (wp_mono (fun _ t h => ?_) (fun _ _ h => h) (wp_executeDedupGrowing id h))
  refine wp_bind (wp_get ?_)
  dsimp only
  split_ifs
  · exact wp_pure h
  · refine wp_bind (wp_mono (fun _ t h => ?_) (fun _ _ h => h) (wp_executeDedupGrowing _ h))
    exact wp_bind (wp_get (wp_pure h))

end Growing

section Transaction

variable {e : StagingEngine} {t : StageTxn} {request : StageRequest} {libs : StagerLibs} {config : StagerConfig}
  {fate : StageFate}

/-- A transaction that has not committed leaves the engine as it was. -/
theorem StagingEngine.Steady.close (h : e.Steady) (ht : TxnInv e t) : (e.close t).Steady ∧ (e.close t).db = e.db := by
  have hdb : (e.close t).db = e.db := by
    rw [StagingEngine.close, ht.finished]
    rfl
  exact ⟨⟨h.toEngineInv.close ht, rfl, hdb ▸ h.shelved⟩, hdb⟩

/-- A commit adds the transaction's rows to its window. -/
theorem wp_commitWindows {key : WindowKey} (h : e.Steady) (ht : TxnInv e t) (hgrowing : Growing e key t) :
    Wp (orBackend (StageTxn.commit fate.faults))
      (fun _ t' => (e.close t').Steady ∧ ∃ rows, HotDb.Grown key rows e.db (e.close t').db)
      (fun _ t' => (e.close t').Steady ∧ (e.close t').db = e.db) t := by
  refine wp_adapt (wp_mono ?_ ?_ (wp_commitTxn _ _))
  · rintro coverage t' ⟨-, hc⟩
    obtain ⟨rows, hgrown, hshelved⟩ := hgrowing.grown hc.aborted
    have hdb : (e.close t').db =
        { t.view with applied := upsertAll t.origin t.view.applied t.pendingApplied.toList } := by
      rw [StagingEngine.close, hc.finished, ← hc.view]
      rfl
    refine ⟨⟨(h.toEngineInv.committed ht hc).1, rfl, ?_⟩, rows, ?_⟩
    · rw [hdb]
      exact ⟨hshelved.named, hshelved.registered⟩
    · rw [hdb]
      exact ⟨hgrown.everStaged, hgrown.others, hgrown.table, hgrown.windowHw⟩
  · rintro _ _ ⟨view, rfl⟩
    exact h.close (ht.abort view)

theorem wp_stageTxnWindows (h : e.Steady) :
    Wp (stageTxn libs config fate request)
      (fun _ t' => (e.close t').Steady ∧ ∃ rows, HotDb.Grown request.window rows e.db (e.close t').db)
      (fun _ t' => (e.close t').Steady ∧ (e.close t').db = e.db) e.begin := by
  have hbegin := h.toEngineInv.begin
  have hgrowing := h.begin request.window
  -- a statement on the dedup window leaves both invariants
  have hdedup : ∀ {stmt : Stmt} {t : StageTxn} (dedup : List DedupRow → List DedupRow), TxnInv e t →
      Growing e request.window t →
      Wp (StageTxn.execute fate.faults stmt fun db => .ok { db with dedup := dedup db.dedup })
        (fun _ t' => TxnInv e t' ∧ Growing e request.window t') (fun _ t' => TxnInv e t' ∧ Growing e request.window t') t :=
    fun dedup ht hg => wp_and (wp_executeDedup dedup ht) (wp_executeDedupGrowing dedup hg)
  refine wp_bind (wp_adapt (wp_bind (wp_mono ?_ (fun _ _ ht => h.close ht.1) (hdedup id hbegin hgrowing))))
  rintro _ t ⟨ht, hg⟩
  refine wp_bind (wp_get (wp_pure ?_))
  split
  next entry _ =>
    refine wp_bind (wp_adapt ?_)
    simp only [resolveDuplicate]
    split_ifs with hacked hrf
    · refine wp_bind (wp_ofExcept (fun coverage _ => ?_) fun _ _ => h.close ht)
      exact wp_pure (wp_bind (wp_mono (fun _ _ hdone => wp_pure hdone) (fun _ _ hfail => hfail)
        (wp_commitWindows h ht hg)))
    · refine wp_bind (wp_mono ?_ (fun _ _ ht => h.close ht.1) (hdedup _ ht hg))
      rintro _ t ⟨ht, hg⟩
      refine wp_bind (wp_ofExcept (fun coverage _ => ?_) fun _ _ => h.close ht)
      exact wp_pure (wp_bind (wp_mono (fun _ _ hdone => wp_pure hdone) (fun _ _ hfail => hfail)
        (wp_commitWindows h ht hg)))
    · exact absurd rfl hrf
  next =>
    have hloop : ∀ (_ : List (RecordBatch × ℕ)) (x : RecordBatch × ℕ) t, TxnInv e t ∧ Growing e request.window t →
        Wp (orBackend (StageTxn.append (fate.appendFaults x.2) request.window x.1))
          (fun _ t' => TxnInv e t' ∧ Growing e request.window t')
          (fun _ t' => (e.close t').Steady ∧ (e.close t').db = e.db) t := by
      rintro _ x t ⟨ht, hg⟩
      exact wp_adapt (wp_mono (fun _ _ h => h) (fun _ _ hfail => h.close hfail.1)
        (wp_and (wp_append x.1 ht) (wp_appendGrowing x.1 h hg)))
    refine wp_bind (wp_mono ?_ (fun _ _ hfail => hfail) (wp_forM hloop request.recordBatches.zipIdx [] ⟨ht, hg⟩))
    rintro _ t ⟨ht, hg⟩
    refine wp_bind (wp_get (wp_bind (wp_ofExcept (fun text _ => ?_) fun _ _ => h.close ht)))
    refine wp_bind (wp_adapt (wp_mono ?_ (fun _ _ ht => h.close ht.1) (hdedup _ ht hg)))
    rintro _ t ⟨ht, hg⟩
    refine wp_bind (wp_adapt (wp_mono ?_ (fun _ _ ht => h.close ht.1)
      (wp_and (wp_dedupEvict ht) (wp_dedupEvictGrowing hg))))
    rintro evicted t ⟨ht, hg⟩
    exact wp_bind (wp_mono (fun _ _ hdone => wp_pure hdone) (fun _ _ hfail => hfail) (wp_commitWindows h ht hg))

/-- A staging transaction adds rows to its window, or changes nothing. -/
theorem transact_windows (libs : StagerLibs) (config : StagerConfig) (fate : StageFate) (request : StageRequest)
    (s : EngineStager) (h : s.engine.Steady) :
    (s.transact libs config fate request).2.engine.Steady ∧
    ∃ rows, HotDb.Grown request.window rows s.engine.db (s.transact libs config fate request).2.engine.db := by
  have hwp : Wp (stageTxn libs config fate request) _ _ s.engine.begin := wp_stageTxnWindows h
  simp only [Wp] at hwp
  simp only [EngineStager.transact]
  split
  · exact ⟨h, [], .refl _ _⟩
  · rcases hr : (stageTxn libs config fate request).run s.engine.begin with ⟨e | ⟨outcome, evicted⟩, t⟩
    · rw [hr] at hwp
      refine ⟨hwp.1, [], ?_⟩
      change HotDb.Grown request.window [] s.engine.db (s.engine.close t).db
      rw [hwp.2]
      exact .refl _ _
    · rw [hr] at hwp
      exact hwp

end Transaction

/-! ### Steps of a node -/

/-- What an operation can do to the database. -/
inductive HotDb.Step (db : HotDb) : StagingOp → HotDb → Prop where
  | same (o : StagingOp) : Step db o db
  | stage {request : StageRequest} {rows : List StagedRow} {db' : HotDb} (h : Grown request.window rows db db') :
      Step db (.transact request) db'
  | drop {key : WindowKey} :
      Step db (.dropWindow key)
        { db with tables := Function.update db.tables key.tableName none, windows := db.windows.erase key }
  | delete {table : String} {covered : List OriginSeqRange} {rows : List StagedRow} (h : db.tables table = some rows) :
      Step db (.deleteCoveredRows table covered)
        { db with tables := Function.update db.tables table (some (rows.filter fun r => ¬ r.CoveredBy covered)) }

namespace HotDb

variable {db db' : HotDb} {o : StagingOp} {key : WindowKey} {r : StagedRow}

theorem Grown.staged {rows : List StagedRow} (h : Grown key rows db db') (hs : db.Shelved) (hs' : db'.Shelved)
    (k : WindowKey) : db'.staged k = if k = key then db.staged k ++ rows else db.staged k := by
  rw [hs.staged, hs'.staged]
  split_ifs with hk
  · rw [hk, h.table]
  · rw [h.others _ fun heq => hk (WindowKey.tableName_injective heq)]

/-- A row leaves a window when the window is dropped, or when it is among the covered rows deleted. -/
theorem Step.staged_of_mem (h : db.Step o db') (hs : db.Shelved) (hs' : db'.Shelved) (hr : r ∈ db.staged key) :
    r ∈ db'.staged key ∨ o = .dropWindow key ∨
      ∃ covered, o = .deleteCoveredRows key.tableName covered ∧ r.CoveredBy covered := by
  cases h with
  | same => exact .inl hr
  | stage hgrown =>
    rw [hgrown.staged hs hs']
    split_ifs
    · exact .inl (List.mem_append_left _ hr)
    · exact .inl hr
  | @drop dropped =>
    rcases eq_or_ne key dropped with rfl | hne
    · exact .inr (.inl rfl)
    · have hname : key.tableName ≠ dropped.tableName := fun heq => hne (WindowKey.tableName_injective heq)
      refine .inl ?_
      rw [hs.staged] at hr
      rw [hs'.staged]
      simpa [Function.update_of_ne hname] using hr
  | @delete table covered rows hrows =>
    rcases eq_or_ne key.tableName table with rfl | hne
    · rw [hs.staged, hrows, Option.getD_some] at hr
      by_cases hcovered : r.CoveredBy covered
      · exact .inr (.inr ⟨covered, rfl, hcovered⟩)
      · refine .inl ?_
        rw [hs'.staged]
        simpa using ⟨hr, hcovered⟩
    · refine .inl ?_
      rw [hs.staged] at hr
      rw [hs'.staged]
      simpa [Function.update_of_ne hne] using hr

/-- A row committed by the step is in its window. -/
theorem Step.mem_everStaged (h : db.Step o db') (hs : db.Shelved) (hs' : db'.Shelved)
    (hr : (key, r) ∈ db'.everStaged) : (key, r) ∈ db.everStaged ∨ r ∈ db'.staged key := by
  cases h with
  | same => exact .inl hr
  | stage hgrown =>
    rw [hgrown.everStaged] at hr
    rcases List.mem_append.mp hr with hold | hnew
    · exact .inl hold
    · obtain ⟨r', hr', heq⟩ := List.mem_map.mp hnew
      obtain ⟨rfl, rfl⟩ := Prod.mk.inj heq
      rw [hgrown.staged hs hs', if_pos rfl]
      exact .inr (List.mem_append_right _ hr')
  | drop => exact .inl hr
  | delete => exact .inl hr

end HotDb

section Node

variable {e : StagingEngine} {fault : Option String} {key : WindowKey}

/-- A window is registered, under the name of its table, where there is the table. -/
theorem StagingEngine.Steady.windowTable (h : e.Steady) (key : WindowKey) :
    (e.writer.windows.lookup key).map (·.table) = (e.db.tables key.tableName).map fun _ => key.tableName := by
  rw [h.windows_eq]
  rcases hm : e.db.windows.lookup key with _ | m
  · have hnone : e.db.tables key.tableName = none := by
      by_contra hsome
      exact Finmap.lookup_eq_none.mp hm (h.shelved.registered key (Option.isSome_iff_ne_none.mpr hsome))
    simp [hnone]
  · have htable : m.table = key.tableName := h.shelved.named key m hm
    obtain ⟨rows, hrows, -⟩ := h.tabled.rows key m hm
    rw [htable] at hrows
    simp [htable, hrows]

/-- A drop changes nothing, or takes the table and the registry row. -/
theorem dropWindow_cases (e : StagingEngine) (fault : Option String) (key : WindowKey) :
    (e.dropWindow fault key).2 = e ∨
    ∃ m, e.writer.windows.lookup key = some m ∧ (e.dropWindow fault key).2.txn = e.txn ∧
      (e.dropWindow fault key).2.db =
        { e.db with tables := Function.update e.db.tables m.table none, windows := e.db.windows.erase key } := by
  simp only [StagingEngine.dropWindow]
  split
  · exact .inl rfl
  next m hm =>
    simp only [StagingEngine.dropWindowTxn]
    split
    · exact .inl rfl
    next db hdb =>
      rcases fault with _ | text
      · dsimp only at hdb
        split_ifs at hdb
        cases hdb
        exact .inr ⟨m, hm, rfl, rfl⟩
      · cases hdb

theorem dropWindow_windows (h : e.Steady) (fault : Option String) (key : WindowKey) :
    (e.dropWindow fault key).2.Steady ∧ e.db.Step (.dropWindow key) (e.dropWindow fault key).2.db := by
  have hinv := (h.toEngineInv.dropWindow h.idle fault key).1
  rcases dropWindow_cases e fault key with hsame | ⟨m, hm, htxn, hdb⟩
  · rw [hsame]
    exact ⟨h, .same _⟩
  rw [h.windows_eq] at hm
  rw [h.shelved.named key m hm] at hdb
  refine ⟨⟨hinv, htxn.trans h.idle, ?_⟩, hdb ▸ .drop⟩
  rw [hdb]
  refine ⟨fun k n hk => ?_, fun k hk => ?_⟩
  · rcases eq_or_ne k key with rfl | hne
    · rw [Finmap.lookup_erase] at hk
      cases hk
    · rw [Finmap.lookup_erase_ne hne] at hk
      exact h.shelved.named k n hk
  · rcases eq_or_ne k key with rfl | hne
    · simp at hk
    · have hname : k.tableName ≠ key.tableName := fun heq => hne (WindowKey.tableName_injective heq)
      dsimp only at hk
      rw [Function.update_of_ne hname] at hk
      exact Finmap.mem_erase.mpr ⟨hne, h.shelved.registered k hk⟩

theorem deleteCoveredRows_windows (h : e.Steady) (fault : Option String) (table : String)
    (covered : List OriginSeqRange) :
    (e.deleteCoveredRows fault table covered).2.Steady ∧
    e.db.Step (.deleteCoveredRows table covered) (e.deleteCoveredRows fault table covered).2.db := by
  have hinv := (h.toEngineInv.deleteCoveredRows h.idle fault table covered).1
  revert hinv
  simp only [StagingEngine.deleteCoveredRows]
  split
  · exact fun _ => ⟨h, .same _⟩
  · exact fun _ => ⟨h, .same _⟩
  next rows hrows =>
    intro hinv
    refine ⟨⟨hinv, h.idle, h.shelved.named, fun k hk => h.shelved.registered k ?_⟩, .delete hrows⟩
    rcases eq_or_ne k.tableName table with rfl | hne
    · rw [hrows]
      rfl
    · dsimp only at hk
      rwa [Function.update_of_ne hne] at hk

/-- An operation keeps the engine steady and does to the database what it can do. -/
theorem exec_windows (setup : StagingSetup) {s : StagingNode} (h : s.stager.engine.Steady) (o : StagingOp)
    (fate : StagingFate) : (StagingNode.exec setup o fate s).2.stager.engine.Steady ∧
      s.db.Step o (StagingNode.exec setup o fate s).2.db := by
  cases o with
  | currentWindow dataset partition =>
    have hengine := EngineStager.engine_currentWindow setup.config dataset partition fate.stage.monotonicNanos s.stager
    change (s.stager.currentWindow setup.config dataset partition fate.stage.monotonicNanos).2.engine.Steady ∧
      s.db.Step _ (s.stager.currentWindow setup.config dataset partition fate.stage.monotonicNanos).2.engine.db
    rw [hengine]
    exact ⟨h, .same _⟩
  | transact request =>
    obtain ⟨hsteady, rows, hgrown⟩ := transact_windows setup.libs setup.config fate.stage request s.stager h
    exact ⟨hsteady, .stage hgrown⟩
  | copySealed table path dedupKey =>
    rcases hread : s.read fate table (sealedRows dedupKey) with text | rows
    all_goals
      simp only [StagingNode.exec, hread]
      exact ⟨h, .same _⟩
  | dropWindow key => exact dropWindow_windows h fate.fault key
  | deleteCoveredRows table covered => exact deleteCoveredRows_windows h fate.fault table covered
  | _ => exact ⟨h, .same _⟩

theorem db_move (v : StagingEnv) (s : StagingNode) : (v.move s).db = s.db := by
  cases v with
  | noteClosedWindows nowMs => rfl
  | restart origin => rfl

theorem steady_move (v : StagingEnv) {s : StagingNode} (h : s.stager.engine.Steady) : (v.move s).stager.engine.Steady := by
  cases v with
  | noteClosedWindows nowMs => exact h
  | restart origin => exact ⟨.openDb h.dense h.tabled origin, rfl, h.shelved⟩

end Node

/-- Between any two events the engine is steady. -/
theorem steady_step {setup : StagingSetup}
    {p : StagingPool} (h : p.shared.stager.engine.Steady)
    (e : StagingEvent) : ((stagers setup).step p e).shared.stager.engine.Steady := by
  rcases shared_step (stagers setup) p e with heq | ⟨t, c, n, j, o, next, -, -, heq⟩ | ⟨v, -, heq⟩
  · rw [heq]
    exact h
  · rw [heq]
    exact (exec_windows setup h o c).1
  · rw [heq]
    exact steady_move v h

theorem steady_fresh (origin : NodeId) : (StagingNode.fresh origin).stager.engine.Steady where
  toEngineInv := .openDb (fun _ _ => rfl) tabled_empty origin
  idle := rfl
  shelved := ⟨(fun k m hm => by cases hm), (fun k hk => by cases hk)⟩

theorem steady_stagedBy (setup : StagingSetup) (origin : NodeId) (es : List StagingEvent) :
    (stagedBy setup origin es).shared.stager.engine.Steady := by
  induction es using List.reverseRecOn with
  | nil => exact steady_fresh origin
  | append_singleton es e ih =>
    rw [stagedBy_concat]
    exact steady_step ih e

end Duckspout
