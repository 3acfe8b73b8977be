import Duckspout.Staging.Engine

/-! Every row is staged once, under dense sequence numbers, and the mirrors say what the tables say: over any
    transactions that commit, fail or are rolled back at any point, over drops of windows and deletions of
    covered rows, and over restarts that reopen the store. -/

namespace Duckspout

open Fallible

/-! ### Runs of the engine -/

/-- What happens to an engine. A process may also die when its commit has reached the disk and nothing else. -/
inductive EngineEvent where
  | begin (fault : Option String)
  | append (faults : Faults) (key : WindowKey) (batch : RecordBatch)
  | dedupInsert (faults : Faults) (row : DedupRow)
  | dedupMarkAcked (faults : Faults) (tenant : TenantId) (dedupKey : String)
  | dedupEvict (faults : Faults) (ties : TieOrder) (wallNowMs ttlMs : ℤ) (maxEntries : U64)
  | commit (faults : Faults)
  | rollback
  | dropWindow (fault : Option String) (key : WindowKey)
  | deleteCoveredRows (fault : Option String) (table : String) (covered : List OriginSeqRange)
  | die (origin : NodeId)
  | dieCommitting (faults : Faults) (origin : NodeId)
  | dieDropping (key : WindowKey) (origin : NodeId)

namespace StagingEngine

/-- A call on the open transaction, if there is one. -/
def inTxn {α : Type} (e : StagingEngine) (x : TxnM α) : StagingEngine :=
  { e with txn := e.txn.map fun t => (x.run t).2 }

def commitTxn (e : StagingEngine) (faults : Faults) : StagingEngine :=
  match e.txn with
  | some t => e.close ((StageTxn.commit faults).run t).2
  | none => e

/-- One event. The write connection is held by the open transaction: nothing else writes meanwhile. -/
def step (e : StagingEngine) : EngineEvent → StagingEngine
  | .begin fault => if e.txn.isSome ∨ fault.isSome then e else { e with txn := some e.begin }
  | .append faults key batch => e.inTxn (StageTxn.append faults key batch)
  | .dedupInsert faults row => e.inTxn (StageTxn.dedupInsert faults row)
  | .dedupMarkAcked faults tenant dedupKey => e.inTxn (StageTxn.dedupMarkAcked faults tenant dedupKey)
  | .dedupEvict faults ties wallNowMs ttlMs maxEntries =>
    e.inTxn (StageTxn.dedupEvict faults ties wallNowMs ttlMs maxEntries)
  | .commit faults => e.commitTxn faults
  | .rollback => (e.txn.map e.close).getD e
  | .dropWindow fault key => if e.txn.isSome then e else (e.dropWindow fault key).2
  | .deleteCoveredRows fault table covered => if e.txn.isSome then e else (e.deleteCoveredRows fault table covered).2
  | .die origin => openDb origin e.db
  | .dieCommitting faults origin => openDb origin (e.commitTxn faults).db
  | .dieDropping key origin => openDb origin (if e.txn.isSome then e else (e.dropWindow none key).2).db

/-- The engine of a fresh store after a list of events. -/
def after (origin : NodeId) (es : List EngineEvent) : StagingEngine := es.foldl step (openDb origin {})

end StagingEngine

/-! ### The invariant -/

/-- The sequence numbers given to the rows of a partition and an origin, in order. -/
def seqsOf (staged : List (WindowKey × StagedRow)) (p : PartitionId) (o : NodeId) : List ℕ :=
  (staged.filter fun x => x.1.partition = p ∧ x.2.origin = o).map fun x => (x.2.seq : ℕ)

/-- The sequence numbers ever given are those up to the applied one, each given once. -/
def HotDb.Dense (db : HotDb) : Prop :=
  ∀ p o, seqsOf db.everStaged p o = List.range' 1 ((db.applied p o).getD 0)

/-- A registered window has a table of its own, and its rows were staged for the window. -/
structure HotDb.Tabled (db : HotDb) : Prop where
  rows : ∀ k m, db.windows.lookup k = some m → ∃ rows, db.tables m.table = some rows ∧ ∀ r ∈ rows, (k, r) ∈ db.everStaged
  distinct : ∀ k k' m m', db.windows.lookup k = some m → db.windows.lookup k' = some m' → m.table = m'.table → k = k'

/-- More bytes of a window. -/
def WindowMeta.plus (m : WindowMeta) (bytes : U64) : WindowMeta := { m with bytes := m.bytes + bytes }

def WindowKey.tableName (key : WindowKey) : String := windowTableName key.dataset key.partition key.window

namespace StageTxn

/-- A window as the mirrors have it, or as this transaction has created it. -/
def created (t : StageTxn) (key : WindowKey) : Option WindowMeta :=
  match t.writer.windows.lookup key with
  | some m => some m
  | none => (t.pendingWindows.find? (·.1 = key)).map fun x => ⟨x.2, 0⟩

theorem table?_eq (t : StageTxn) (key : WindowKey) : t.table? key = (t.created key).map (·.table) := by
  simp only [table?, created]
  cases t.writer.windows.lookup key with
  | none =>
    rw [Option.map_map]
    rfl
  | some m => rfl

/-- The view of a transaction that is not aborted: the committed tables with the pending values. -/
structure Pending (db : HotDb) (t : StageTxn) : Prop where
  applied : t.view.applied = db.applied
  own : ∀ p, seqsOf t.view.everStaged p t.origin = List.range' 1 (t.base p)
  other : ∀ p o, o ≠ t.origin → seqsOf t.view.everStaged p o = seqsOf db.everStaged p o
  grows : db.everStaged <+: t.view.everStaged
  tabled : t.view.Tabled
  fresh : ∀ x ∈ t.pendingWindows, x.1 ∉ t.writer.windows ∧ x.2 = x.1.tableName
  windows : ∀ k, t.view.windows.lookup k =
    (t.created k).map fun m => m.plus (Tally.amount k t.pendingBytes)
  unbilled : ∀ k, t.created k = none → Tally.amount k t.pendingBytes = 0
  bytes : t.view.windows.stagedBytes = t.writer.stagedBytes + Tally.sum t.pendingBytes
  windowHw : t.view.windowHw = t.pendingWindows.foldl (fun hw x => raiseHw hw x.1) t.writer.windowHw

end StageTxn

/-- An open transaction of the engine. -/
structure TxnInv (e : StagingEngine) (t : StageTxn) : Prop where
  writer : t.writer = e.writer
  origin : t.origin = e.origin
  finished : t.finished = false
  pending : t.aborted = false → t.Pending e.db

structure EngineInv (e : StagingEngine) : Prop where
  mirrors : e.writer = .load e.db e.origin
  dense : e.db.Dense
  tabled : e.db.Tabled
  txn : ∀ t ∈ e.txn, TxnInv e t

theorem EngineInv.windows_eq {e : StagingEngine} (h : EngineInv e) : e.writer.windows = e.db.windows :=
  congrArg WriterInner.windows h.mirrors

theorem EngineInv.windowHw_eq {e : StagingEngine} (h : EngineInv e) : e.writer.windowHw = e.db.windowHw :=
  congrArg WriterInner.windowHw h.mirrors

/-! ### Sequences -/

section Sequences

variable {staged : List (WindowKey × StagedRow)} {p : PartitionId} {o : NodeId}

theorem seqsOf_append (more : List (WindowKey × StagedRow)) :
    seqsOf (staged ++ more) p o = seqsOf staged p o ++ seqsOf more p o := by
  simp [seqsOf]

/-- A batch gets the sequence numbers from `first` on. -/
theorem seqsOf_augmentBatch {batch : RecordBatch} {key : WindowKey} {origin : NodeId} {first : ℕ}
    (h : first + batch.rows.length ≤ 2 ^ 64) :
    seqsOf ((augmentBatch batch origin first).map (key, ·)) p o =
      if key.partition = p ∧ origin = o then List.range' first batch.rows.length else [] := by
  have horigin : ∀ x ∈ (augmentBatch batch origin first).map (key, ·), x.1 = key ∧ x.2.origin = origin := by
    intro x hx
    obtain ⟨r, hr, rfl⟩ := List.mem_map.mp hx
    obtain ⟨i, hi, rfl⟩ := List.mem_mapIdx.mp hr
    exact ⟨rfl, rfl⟩
  simp only [seqsOf]
  split_ifs with hmine
  · rw [List.filter_eq_self.mpr fun x hx => by simp [horigin x hx, hmine]]
    refine List.ext_getElem (by simp [augmentBatch]) fun i hi hi' => ?_
    have hlt : i < batch.rows.length := by simpa using hi'
    have hmod : (first + i) % 2 ^ 64 = first + i := Nat.mod_eq_of_lt (by omega)
    simpa [augmentBatch] using hmod
  · rw [List.filter_eq_nil_iff.mpr fun x hx => by simpa [horigin x hx] using hmine]
    rfl

end Sequences

/-! ### Creating a window -/

theorem find?_concat_of_none {l : List (WindowKey × String)} {key k : WindowKey} {table : String}
    (h : l.find? (·.1 = key) = none) :
    (l ++ [(key, table)]).find? (·.1 = k) = if key = k then some (key, table) else l.find? (·.1 = k) := by
  rw [List.find?_append]
  split_ifs with hk
  · subst hk
    simp [h]
  · simp [hk]

/-- What a transaction has not registered is neither in the mirrors nor created. -/
theorem created_eq_none {t : StageTxn} {key : WindowKey} :
    t.created key = none ↔ t.writer.windows.lookup key = none ∧ t.pendingWindows.find? (·.1 = key) = none := by
  simp only [StageTxn.created]
  cases t.writer.windows.lookup key with
  | none => simp
  | some m => simp

/-- A transaction after it has created a window. -/
def StageTxn.withWindow (t : StageTxn) (key : WindowKey) (view : HotDb) : StageTxn :=
  { t with view, pendingWindows := t.pendingWindows ++ [(key, key.tableName)] }

theorem created_withWindow {t : StageTxn} {key : WindowKey} (view : HotDb) (h : t.created key = none) (k : WindowKey) :
    (t.withWindow key view).created k = if key = k then some ⟨key.tableName, 0⟩ else t.created k := by
  obtain ⟨hmirror, hpending⟩ := created_eq_none.mp h
  unfold StageTxn.created StageTxn.withWindow
  dsimp only
  rw [find?_concat_of_none hpending]
  split_ifs with hk
  · subst hk
    rw [hmirror]
    rfl
  · rfl

/-- The tables after a window has been created: `CREATE TABLE`, the registry row, the high-water. -/
def HotDb.withWindow (db : HotDb) (key : WindowKey) : HotDb :=
  { db with
    tables := Function.update db.tables key.tableName (some [])
    windows := db.windows.insert key ⟨key.tableName, 0⟩
    windowHw := raiseHw db.windowHw key }

theorem HotDb.Tabled.withWindow {db : HotDb} {key : WindowKey} (h : db.Tabled)
    (hfree : db.tables key.tableName = none) : (db.withWindow key).Tabled := by
  have hold : ∀ k m, db.windows.lookup k = some m → m.table ≠ key.tableName := by
    intro k m hm heq
    obtain ⟨rows, hrows, -⟩ := h.rows k m hm
    rw [heq, hfree] at hrows
    cases hrows
  have hcases : ∀ k m, (db.withWindow key).windows.lookup k = some m →
      (k = key ∧ m = ⟨key.tableName, 0⟩) ∨ db.windows.lookup k = some m := by
    intro k m hm
    rcases eq_or_ne k key with rfl | hne
    · rw [HotDb.withWindow, Finmap.lookup_insert] at hm
      exact .inl ⟨rfl, (Option.some.inj hm).symm⟩
    · rw [HotDb.withWindow, Finmap.lookup_insert_of_ne _ hne] at hm
      exact .inr hm
  refine ⟨fun k m hk => ?_, fun k k' m m' hk hk' heq => ?_⟩
  · rcases hcases k m hk with ⟨rfl, rfl⟩ | hm
    · exact ⟨[], Function.update_self .., fun r hr => by cases hr⟩
    · obtain ⟨rows, hrows, hin⟩ := h.rows k m hm
      exact ⟨rows, (Function.update_of_ne (hold k m hm) ..).trans hrows, hin⟩
  · rcases hcases k m hk, hcases k' m' hk' with ⟨⟨rfl, rfl⟩ | hm, ⟨rfl, rfl⟩ | hm'⟩
    · rfl
    · exact absurd heq.symm (hold k' m' hm')
    · exact absurd heq (hold k m hm)
    · exact h.distinct k k' m m' hm hm' heq

theorem withWindow_of_statements {db db₁ db₂ db₃ : HotDb} {key : WindowKey}
    (h₁ : HotDb.createTable key.tableName db = .ok db₁) (h₂ : HotDb.insertWindow key key.tableName db₁ = .ok db₂)
    (h₃ : HotDb.upsertHw key db₂ = .ok db₃) : db.tables key.tableName = none ∧ db₃ = db.withWindow key := by
  simp only [HotDb.createTable] at h₁
  split_ifs at h₁ with htable
  cases h₁
  simp only [HotDb.insertWindow] at h₂
  split_ifs at h₂
  cases h₂
  cases h₃
  exact ⟨Option.not_isSome_iff_eq_none.mp htable, rfl⟩

/-- A window created in the view and noted as pending. -/
theorem StageTxn.Pending.withWindow {db : HotDb} {t : StageTxn} {key : WindowKey} (h : t.Pending db)
    (hnew : t.created key = none) (hfree : t.view.tables key.tableName = none) :
    (t.withWindow key (t.view.withWindow key)).Pending db where
  applied := h.applied
  own := h.own
  other := h.other
  grows := h.grows
  tabled := h.tabled.withWindow hfree
  fresh := by
    intro x hx
    rcases List.mem_append.mp hx with hold | hlast
    · exact h.fresh x hold
    · obtain rfl := List.mem_singleton.mp hlast
      exact ⟨Finmap.lookup_eq_none.mp (created_eq_none.mp hnew).1, rfl⟩
  windows := by
    intro k
    rw [created_withWindow _ hnew]
    change (t.view.windows.insert key _).lookup k =
      Option.map (fun m : WindowMeta => m.plus (Tally.amount k t.pendingBytes)) _
    split_ifs with hk
    · subst hk
      rw [Finmap.lookup_insert, Option.map_some, h.unbilled key hnew, WindowMeta.plus, add_zero]
    · rw [Finmap.lookup_insert_of_ne _ (Ne.symm hk)]
      exact h.windows k
  unbilled := by
    intro k hk
    rw [created_withWindow _ hnew] at hk
    split_ifs at hk
    exact h.unbilled k hk
  bytes := by
    have habsent : key ∉ t.view.windows := by
      rw [← Finmap.lookup_eq_none, h.windows, hnew]
      rfl
    change Tally.total _ (t.view.windows.insert key _) = _
    rw [Tally.total_insert _ _ habsent, zero_add]
    exact h.bytes
  windowHw := by
    change raiseHw t.view.windowHw key = _
    rw [h.windowHw]
    simp only [StageTxn.withWindow, List.foldl_append, List.foldl_cons, List.foldl_nil]

/-! ### Bytes -/

theorem lookup_addBytes (windows : WindowRegistry) (key k : WindowKey) (bytes : U64) :
    (addBytes windows key bytes).lookup k = (windows.lookup k).map fun m => m.plus (if key = k then bytes else 0) := by
  simp only [addBytes]
  rcases eq_or_ne k key with rfl | hne
  · cases hk : windows.lookup k with
    | none => simp [hk]
    | some m => simp [Finmap.lookup_insert, WindowMeta.plus]
  · have hzero : ∀ m : WindowMeta, m.plus (if key = k then bytes else 0) = m := by
      intro m
      rw [if_neg (Ne.symm hne), WindowMeta.plus, add_zero]
    simp only [hzero, Option.map_id_fun', id]
    cases windows.lookup key with
    | none => rfl
    | some m => exact Finmap.lookup_insert_of_ne _ hne

theorem stagedBytes_addBytes {windows : WindowRegistry} {key : WindowKey} {m : WindowMeta}
    (h : windows.lookup key = some m) (bytes : U64) :
    (addBytes windows key bytes).stagedBytes = windows.stagedBytes + bytes := by
  have hreplace := Tally.total_replace WindowMeta.bytes (m.plus bytes) h
  have hadd : addBytes windows key bytes = windows.insert key (m.plus bytes) := by
    simp only [addBytes, h]
    rfl
  rw [WindowRegistry.stagedBytes, hadd, ← add_right_cancel_iff (a := m.bytes), hreplace]
  change _ + (m.bytes + bytes) = _
  rw [add_assoc, add_comm bytes]
  rfl

/-- Registering bytes changes no table. -/
theorem HotDb.Tabled.addBytes {db : HotDb} (h : db.Tabled) (key : WindowKey) (bytes : U64) :
    HotDb.Tabled { db with windows := Duckspout.addBytes db.windows key bytes } := by
  have hold : ∀ k m, (Duckspout.addBytes db.windows key bytes).lookup k = some m →
      ∃ m', db.windows.lookup k = some m' ∧ m.table = m'.table := by
    intro k m hm
    rw [lookup_addBytes, Option.map_eq_some_iff] at hm
    obtain ⟨m', hm', rfl⟩ := hm
    exact ⟨m', hm', rfl⟩
  refine ⟨fun k m hk => ?_, fun k k' m m' hk hk' heq => ?_⟩
  · obtain ⟨m', hm', htable⟩ := hold k m hk
    rw [htable]
    exact h.rows k m' hm'
  · obtain ⟨n, hn, htable⟩ := hold k m hk
    obtain ⟨n', hn', htable'⟩ := hold k' m' hk'
    exact h.distinct k k' n n' hn hn' (by rw [← htable, ← htable', heq])

/-- Rows put into the table of a window were staged for it. -/
theorem HotDb.Tabled.appendRows {db db' : HotDb} {key : WindowKey} {m : WindowMeta} {rows : List StagedRow}
    (h : db.Tabled) (hkey : db.windows.lookup key = some m) (hdb : HotDb.appendRows key m.table rows db = .ok db') :
    db'.Tabled ∧ db'.windows = db.windows ∧ db'.applied = db.applied ∧ db'.windowHw = db.windowHw ∧
      db'.everStaged = db.everStaged ++ rows.map (key, ·) := by
  obtain ⟨old, hold, hin⟩ := h.rows key m hkey
  simp only [HotDb.appendRows, hold, Except.ok.injEq] at hdb
  subst hdb
  refine ⟨⟨fun k n hk => ?_, h.distinct⟩, rfl, rfl, rfl, rfl⟩
  rcases eq_or_ne n.table m.table with heq | hne
  · obtain rfl := h.distinct k key n m hk hkey heq
    refine ⟨old ++ rows, by simp [heq], fun r hr => ?_⟩
    rcases List.mem_append.mp hr with hr | hr
    · exact List.mem_append_left _ (hin r hr)
    · exact List.mem_append_right _ (List.mem_map_of_mem hr)
  · obtain ⟨rows', hrows, hin'⟩ := h.rows k n hk
    exact ⟨rows', (Function.update_of_ne hne ..).trans hrows, fun r hr => List.mem_append_left _ (hin' r hr)⟩

/-- A transaction after it has appended rows. -/
def StageTxn.withRows (t : StageTxn) (key : WindowKey) (bytes first last : U64) (view : HotDb) : StageTxn :=
  { t with
    view
    pendingBytes := Tally.add key bytes t.pendingBytes
    pendingApplied := t.pendingApplied.insert key.partition
      (match t.pendingApplied[key.partition]? with
        | some (pendingFirst, _) => (pendingFirst, last)
        | none => (first, last)) }

theorem base_withRows (t : StageTxn) (key : WindowKey) (bytes first last : U64) (view : HotDb) (p : PartitionId) :
    (t.withRows key bytes first last view).base p = if key.partition = p then last else t.base p := by
  unfold StageTxn.base StageTxn.withRows
  dsimp only
  rw [OrdMap.get_insert]
  split_ifs with hp
  · subst hp
    rcases t.pendingApplied[key.partition]? with _ | ⟨a, b⟩
    · rfl
    · rfl
  · rfl

/-- Rows appended under the next sequence numbers, with their bytes. -/
theorem StageTxn.Pending.withRows {db view₁ view₂ : HotDb} {t : StageTxn} {key : WindowKey} {m : WindowMeta}
    {batch : RecordBatch} {first last : U64} (h : t.Pending db) (hm : t.created key = some m)
    (hfirst : (first : ℕ) = t.base key.partition + 1)
    (hlast : (last : ℕ) = t.base key.partition + batch.rows.length)
    (h₁ : HotDb.appendRows key m.table (augmentBatch batch t.origin first) t.view = .ok view₁)
    (h₂ : HotDb.updateBytes key batch.contentBytes view₁ = .ok view₂) :
    (t.withRows key batch.contentBytes first last view₂).Pending db := by
  have hkey : t.view.windows.lookup key = some (m.plus (Tally.amount key t.pendingBytes)) := by
    rw [h.windows, hm]
    rfl
  obtain ⟨htabled, hwindows, happlied, hhw, hstaged⟩ := h.tabled.appendRows hkey h₁
  rw [← hwindows] at hkey
  simp only [HotDb.updateBytes] at h₂
  simp only [hkey] at h₂
  split_ifs at h₂
  cases h₂
  have hlt : (first : ℕ) + batch.rows.length ≤ 2 ^ 64 := by
    have := last.isLt
    omega
  have hseqs : ∀ p o, seqsOf view₁.everStaged p o = seqsOf t.view.everStaged p o ++
      if key.partition = p ∧ t.origin = o then List.range' first batch.rows.length else [] := by
    intro p o
    rw [hstaged, seqsOf_append, seqsOf_augmentBatch hlt]
  exact {
    applied := happlied.trans h.applied
    own := by
      intro p
      change seqsOf view₁.everStaged p t.origin = _
      rw [hseqs, h.own, base_withRows]
      by_cases hp : key.partition = p
      · subst hp
        rw [if_pos ⟨rfl, rfl⟩, if_pos rfl, hfirst, hlast, Nat.add_comm _ 1, List.range'_append_1]
      · rw [if_neg (fun hboth => hp hboth.1), if_neg hp, List.append_nil]
    other := by
      intro p o ho
      change seqsOf view₁.everStaged p o = _
      rw [hseqs, if_neg (fun hboth => ho hboth.2.symm), List.append_nil]
      exact h.other p o ho
    grows := by
      change _ <+: view₁.everStaged
      rw [hstaged]
      exact h.grows.trans (List.prefix_append _ _)
    tabled := htabled.addBytes key batch.contentBytes
    fresh := h.fresh
    windows := by
      intro k
      change (addBytes view₁.windows key batch.contentBytes).lookup k =
        (t.created k).map fun m => m.plus (Tally.amount k (Tally.add key batch.contentBytes t.pendingBytes))
      rw [lookup_addBytes, hwindows, h.windows, Option.map_map, Tally.amount_add]
      refine congrArg (Option.map · (t.created k)) (funext fun n => ?_)
      simp [WindowMeta.plus, add_assoc]
    unbilled := by
      intro k hk
      have hne : key ≠ k := by
        rintro rfl
        exact absurd (hm.symm.trans hk) (by simp)
      change Tally.amount k (Tally.add key batch.contentBytes t.pendingBytes) = 0
      rw [Tally.amount_add, if_neg hne, add_zero]
      exact h.unbilled k hk
    bytes := by
      change (addBytes view₁.windows key batch.contentBytes).stagedBytes =
        t.writer.stagedBytes + Tally.sum (Tally.add key batch.contentBytes t.pendingBytes)
      rw [stagedBytes_addBytes hkey, hwindows, h.bytes, Tally.sum_add, add_assoc]
    windowHw := hhw.trans h.windowHw }

/-! ### Calls on a transaction -/

section Calls

variable {e : StagingEngine} {t : StageTxn} {faults : Faults} {key : WindowKey}

/-- An aborted transaction has nothing to say about its view. -/
theorem TxnInv.abort (h : TxnInv e t) (view : HotDb) : TxnInv e { t with view, aborted := true } where
  writer := h.writer
  origin := h.origin
  finished := h.finished
  pending := fun habort => by cases habort

/-- The table of a window, in a transaction that is not aborted. -/
theorem wp_ensureWindow (fields : List Field) (h : TxnInv e t) :
    Wp (StageTxn.ensureWindow faults key fields)
      (fun table t' => TxnInv e t' ∧ (t'.created key).map (·.table) = some table) (fun _ => TxnInv e) t := by
  refine wp_bind (wp_get ?_)
  rcases htable : t.table? key with _ | table
  · have hnew : t.created key = none := by
      rw [StageTxn.table?_eq] at htable
      exact Option.map_eq_none_iff.mp htable
    refine wp_bind (wp_checkFields ?_ fun _ => h)
    refine wp_bind (wp_execute (fun hup view₁ h₁ => ?_) (fun _ _ => h) fun _ _ => h.abort _)
    refine wp_bind (wp_execute (fun _ view₂ h₂ => ?_) (fun hbad => ?_) fun _ _ => h.abort view₁)
    · refine wp_bind (wp_execute (fun _ view₃ h₃ => ?_) (fun hbad => ?_) fun _ _ => h.abort view₂)
      · obtain ⟨hfree, rfl⟩ := withWindow_of_statements h₁ h₂ h₃
        have hwindow : ∀ view, ((t.withWindow key view).created key).map (·.table) = some key.tableName := by
          intro view
          rw [created_withWindow view hnew, if_pos rfl]
          rfl
        exact ⟨⟨h.writer, h.origin, h.finished, fun _ => (h.pending hup).withWindow hnew hfree⟩, hwindow _⟩
      · simp [hup, Stmt.binds] at hbad
    · simp [hup, Stmt.binds] at hbad
  · refine wp_pure ⟨h, ?_⟩
    rw [← StageTxn.table?_eq]
    exact htable

theorem wp_append (batch : RecordBatch) (h : TxnInv e t) :
    Wp (StageTxn.append faults key batch) (fun _ => TxnInv e) (fun _ => TxnInv e) t := by
  refine wp_bind (wp_mono ?_ (fun _ _ ht => ht) (wp_ensureWindow batch.fields h))
  rintro table t ⟨h, htable⟩
  split_ifs with hrows
  · exact wp_pure h
  refine wp_bind (wp_get ?_)
  dsimp only
  split_ifs with hfull
  · exact wp_throw h
  rw [not_or, Nat.not_lt, Nat.not_lt] at hfull
  have hval : ∀ n, n ≤ u64Max → (Fin.ofNat (2 ^ 64) n : ℕ) = n := by
    intro n hn
    exact Nat.mod_eq_of_lt (Nat.lt_of_le_of_lt hn (by decide))
  obtain ⟨m, hm, rfl⟩ := Option.map_eq_some_iff.mp htable
  refine wp_bind (wp_execute (fun hup view₁ h₁ => ?_) (fun _ _ => h) fun _ _ => h.abort _)
  refine wp_bind (wp_execute (fun _ view₂ h₂ => ?_) (fun hbad => ?_) fun _ _ => h.abort view₁)
  · refine wp_modify ⟨h.writer, h.origin, h.finished, fun _ => ?_⟩
    exact (h.pending hup).withRows hm (hval _ hfull.1) (hval _ hfull.2) h₁ h₂
  · simp [hup, Stmt.binds] at hbad

/-- A change of the dedup window alone. -/
theorem TxnInv.dedup (h : TxnInv e t) (dedup : List DedupRow) : TxnInv e { t with view := { t.view with dedup } } where
  writer := h.writer
  origin := h.origin
  finished := h.finished
  pending := by
    intro hup
    have hp := h.pending hup
    exact { hp with tabled := ⟨hp.tabled.rows, hp.tabled.distinct⟩ }

theorem wp_executeDedup {stmt : Stmt} (dedup : List DedupRow → List DedupRow) (h : TxnInv e t) :
    Wp (StageTxn.execute faults stmt fun db => .ok { db with dedup := dedup db.dedup }) (fun _ => TxnInv e) (fun _ => TxnInv e)
      t := by
  refine wp_execute (fun _ view hview => ?_) (fun _ _ => h) fun _ _ => h.abort _
  cases hview
  exact h.dedup _

theorem wp_dedupEvict {ties : TieOrder} {wallNowMs ttlMs : ℤ} {maxEntries : U64} (h : TxnInv e t) :
    Wp (StageTxn.dedupEvict faults ties wallNowMs ttlMs maxEntries) (fun _ => TxnInv e) (fun _ => TxnInv e) t := by
  refine wp_bind (wp_mono (fun _ t h => ?_) (fun _ _ h => h) (wp_executeDedup _ h))
  refine wp_bind (wp_execute (fun _ view hview => ?_) (fun _ _ => h) fun _ _ => h.abort _)
  cases hview
  refine wp_bind (wp_get ?_)
  dsimp only
  split_ifs
  · exact wp_pure h
  · refine wp_bind (wp_mono (fun _ t h => ?_) (fun _ _ h => h) (wp_executeDedup _ h))
    exact wp_bind (wp_get (wp_pure h))

end Calls

/-! ### Committing -/

section Commit

variable {e : StagingEngine} {t : StageTxn}

theorem upsertAll_apply (origin : NodeId) (l : List (PartitionId × U64 × U64)) (p : PartitionId) (o : NodeId) :
    ∀ applied : PartitionId → NodeId → Option U64, upsertAll origin applied l p o =
      if o = origin then (l.foldl (fun (f : PartitionId → Option U64) x => Function.update f x.1 (some x.2.2))
        (applied · origin)) p else applied p o := by
  induction l with
  | nil =>
    intro applied
    split_ifs with ho
    · rw [ho]
      rfl
    · rfl
  | cons x l ih =>
    intro applied
    rw [upsertAll, List.foldl_cons]
    change upsertAll origin _ l p o = _
    rw [ih]
    have hwrite : (fun q => if q = x.1 ∧ origin = origin then some x.2.2 else applied q origin) =
        Function.update (applied · origin) x.1 (some x.2.2) := by
      funext q
      by_cases hq : q = x.1
      · simp [hq]
      · simp [hq]
    split_ifs with ho hp
    · rw [hwrite]
      rfl
    · exact absurd hp.2 ho
    · rfl

/-- The applied sequence of this origin: the pending one, or the one before. -/
theorem upsertAll_pending {db : HotDb} (h : t.Pending db) (hw : t.writer = .load db t.origin) (p : PartitionId) :
    upsertAll t.origin t.view.applied t.pendingApplied.toList p t.origin = t.fold.applied p ∧
    ((upsertAll t.origin t.view.applied t.pendingApplied.toList p t.origin).getD 0 : U64) = t.base p := by
  have hfold : upsertAll t.origin t.view.applied t.pendingApplied.toList p t.origin = t.fold.applied p := by
    rw [upsertAll_apply, if_pos rfl, h.applied, StageTxn.fold, hw]
    rfl
  refine ⟨hfold, ?_⟩
  have hget : t.fold.applied p = (t.pendingApplied[p]?.map Prod.snd).or (t.writer.applied p) :=
    OrdMap.foldl_update_toList t.pendingApplied Prod.snd t.writer.applied p
  rw [hfold, hget, StageTxn.base]
  rcases t.pendingApplied[p]? with _ | ⟨a, b⟩
  · rfl
  · rfl

theorem lookup_insertAll {k : WindowKey} (windows : WindowRegistry) (l : List (WindowKey × String)) :
    (l.foldl (fun windows x => windows.insert x.1 ⟨x.2, 0⟩) windows).lookup k =
      ((l.reverse.find? (·.1 = k)).map fun x => (⟨x.2, 0⟩ : WindowMeta)).or (windows.lookup k) := by
  induction l using List.reverseRecOn with
  | nil => rfl
  | append_singleton l x ih =>
    rw [List.foldl_append, List.foldl_cons, List.foldl_nil, List.reverse_append, List.reverse_singleton,
      List.singleton_append, List.find?_cons]
    by_cases hx : x.1 = k
    · subst hx
      simp [Finmap.lookup_insert]
    · rw [Finmap.lookup_insert_of_ne _ (Ne.symm hx), ih]
      simp [hx]

theorem lookup_addAll {k : WindowKey} (l : List (WindowKey × U64)) : ∀ windows : WindowRegistry,
    (l.foldl (fun windows x => addBytes windows x.1 x.2) windows).lookup k =
      (windows.lookup k).map fun m => m.plus (Tally.amount k l) := by
  induction l with
  | nil =>
    intro windows
    simp [WindowMeta.plus]
  | cons x l ih =>
    intro windows
    rw [List.foldl_cons, ih, lookup_addBytes, Option.map_map, Tally.amount_cons]
    refine congrArg (Option.map · (windows.lookup k)) (funext fun m => ?_)
    simp [WindowMeta.plus, add_assoc]

theorem foldl_add (l : List (WindowKey × U64)) : ∀ bytes : U64,
    l.foldl (fun bytes x => bytes + x.2) bytes = bytes + Tally.sum l := by
  induction l with
  | nil => simp
  | cons x l ih =>
    intro bytes
    rw [List.foldl_cons, ih, Tally.sum_cons, add_assoc]

/-- Created windows have their names, in whichever order they are found. -/
theorem find?_pending {db : HotDb} (h : t.Pending db) (k : WindowKey) :
    ((t.pendingWindows.reverse.find? (·.1 = k)).map fun x => (⟨x.2, 0⟩ : WindowMeta)).or (t.writer.windows.lookup k) =
      t.created k := by
  have hname : ∀ l : List (WindowKey × String), (∀ x ∈ l, x ∈ t.pendingWindows) → ∀ x, l.find? (·.1 = k) = some x →
      t.writer.windows.lookup k = none ∧ x.2 = k.tableName := by
    intro l hl x hx
    obtain ⟨hfree, htable⟩ := h.fresh x (hl x (List.mem_of_find?_eq_some hx))
    obtain rfl : x.1 = k := by simpa using List.find?_some hx
    exact ⟨Finmap.lookup_eq_none.mpr hfree, htable⟩
  simp only [StageTxn.created]
  rcases hrev : t.pendingWindows.reverse.find? (·.1 = k) with _ | x
  · rcases hfind : t.pendingWindows.find? (·.1 = k) with _ | y
    · rw [hrev, hfind]
      cases t.writer.windows.lookup k with
      | none => rfl
      | some m => rfl
    · rw [List.find?_eq_none] at hrev
      exact absurd (List.find?_some hfind) (hrev y (List.mem_reverse.mpr (List.mem_of_find?_eq_some hfind)))
  · obtain ⟨hfree, htable⟩ := hname _ (fun y hy => List.mem_reverse.mp hy) x hrev
    rcases hfind : t.pendingWindows.find? (·.1 = k) with _ | y
    · rw [List.find?_eq_none] at hfind
      exact absurd (List.find?_some hrev) (hfind x (List.mem_reverse.mp (List.mem_of_find?_eq_some hrev)))
    · rw [hrev, hfind, hfree, Option.map_some, htable, ← (hname _ (fun _ hz => hz) y hfind).2]
      rfl

/-- The mirrors with the pending values are those of the view. -/
theorem fold_eq_load {db : HotDb} (h : t.Pending db) (hw : t.writer = .load db t.origin) :
    t.fold = .load { t.view with applied := upsertAll t.origin t.view.applied t.pendingApplied.toList } t.origin := by
  have happlied : t.fold.applied = loadApplied
      { t.view with applied := upsertAll t.origin t.view.applied t.pendingApplied.toList } t.origin :=
    funext fun p => (upsertAll_pending h hw p).1.symm
  have hwindows : t.fold.windows = t.view.windows := by
    refine Finmap.ext_lookup fun k => ?_
    rw [StageTxn.fold, lookup_addAll, lookup_insertAll, find?_pending h]
    exact (h.windows k).symm
  have hbytes : t.fold.stagedBytes = t.view.windows.stagedBytes := by
    rw [StageTxn.fold, foldl_add]
    exact h.bytes.symm
  have hhw : t.fold.windowHw = t.view.windowHw := h.windowHw.symm
  rcases hfold : t.fold with ⟨applied, windows, hw, bytes⟩
  rw [hfold] at happlied hwindows hbytes hhw
  simp only at happlied hwindows hbytes hhw
  rw [happlied, hwindows, hbytes, hhw]
  rfl

/-- A transaction that has not committed leaves the engine as it was. -/
theorem EngineInv.close (h : EngineInv e) (ht : TxnInv e t) : EngineInv (e.close t) := by
  have hclose : e.close t = { e with txn := none } := by
    rw [StagingEngine.close, ht.finished, ht.writer]
    rfl
  rw [hclose]
  exact ⟨h.mirrors, h.dense, h.tabled, fun _ hnone => by cases hnone⟩

/-- A committed transaction leaves dense sequences and true mirrors. -/
theorem EngineInv.committed {t' : StageTxn} (h : EngineInv e) (ht : TxnInv e t) (hc : t.Finishes t') :
    EngineInv (e.close t') ∧ e.db.everStaged <+: (e.close t').db.everStaged := by
  have hp := ht.pending hc.aborted
  have hw : t.writer = .load e.db t.origin := by
    rw [ht.writer, ht.origin]
    exact h.mirrors
  have hclose : e.close t' = { e with
      db := { t.view with applied := upsertAll t.origin t.view.applied t.pendingApplied.toList }
      writer := t.fold
      txn := none } := by
    rw [StagingEngine.close, hc.finished, hc.writer, hc.view]
    rfl
  rw [hclose]
  refine ⟨⟨?_, ?_, ⟨hp.tabled.rows, hp.tabled.distinct⟩, fun _ hnone => by cases hnone⟩, hp.grows⟩
  · have hmirrors := fold_eq_load hp hw
    rw [ht.origin] at hmirrors ⊢
    exact hmirrors
  · intro p o
    rcases eq_or_ne o t.origin with rfl | ho
    · change seqsOf t.view.everStaged p t.origin =
        List.range' 1 ((upsertAll t.origin t.view.applied t.pendingApplied.toList p t.origin).getD 0)
      rw [hp.own, (upsertAll_pending hp hw p).2]
    · change seqsOf t.view.everStaged p o =
        List.range' 1 ((upsertAll t.origin t.view.applied t.pendingApplied.toList p o).getD 0)
      rw [hp.other p o ho, h.dense, upsertAll_apply, if_neg ho, hp.applied]

end Commit

/-! ### One event -/

section Step

variable {e : StagingEngine}

theorem tabled_empty : HotDb.Tabled {} where
  rows := fun k m hm => by cases hm
  distinct := fun k k' m m' hm => by cases hm

/-- A reopened store has the mirrors of its tables. -/
theorem EngineInv.openDb {db : HotDb} (hdense : db.Dense) (htabled : db.Tabled) (origin : NodeId) :
    EngineInv (.openDb origin db) :=
  ⟨rfl, hdense, htabled, fun _ hnone => by cases hnone⟩

/-- A transaction begins with the committed tables. -/
theorem EngineInv.begin (h : EngineInv e) : TxnInv e e.begin where
  writer := rfl
  origin := rfl
  finished := rfl
  pending := fun _ => {
    applied := rfl
    own := by
      intro p
      change seqsOf e.db.everStaged p e.origin = List.range' 1 ((e.writer.applied p).getD 0)
      rw [h.dense, h.mirrors]
      rfl
    other := fun _ _ _ => rfl
    grows := List.prefix_refl _
    tabled := h.tabled
    fresh := fun x hx => by cases hx
    windows := by
      intro k
      have hzero : ∀ m : WindowMeta, m.plus 0 = m := fun m => by rw [WindowMeta.plus, add_zero]
      have hcreated : e.begin.created k = e.db.windows.lookup k := by
        have hmirror : e.begin.writer.windows = e.db.windows := h.windows_eq
        simp only [StageTxn.created]
        rw [hmirror]
        cases e.db.windows.lookup k with
        | none => rfl
        | some m => rfl
      change e.db.windows.lookup k = (e.begin.created k).map fun m : WindowMeta => m.plus 0
      simp [hcreated, hzero]
    unbilled := fun _ _ => rfl
    bytes := by
      change e.db.windows.stagedBytes = e.writer.stagedBytes + 0
      rw [add_zero, h.mirrors]
      rfl
    windowHw := by
      change e.db.windowHw = e.writer.windowHw
      rw [h.mirrors]
      rfl }

/-- A call that keeps the transaction keeps the engine. -/
theorem EngineInv.inTxn {α : Type} {x : TxnM α} (h : EngineInv e)
    (hx : ∀ t, TxnInv e t → Wp x (fun _ => TxnInv e) (fun _ => TxnInv e) t) : EngineInv (e.inTxn x) := by
  refine ⟨h.mirrors, h.dense, h.tabled, fun t ht => ?_⟩
  obtain ⟨t₀, ht₀, rfl⟩ := Option.map_eq_some_iff.mp ht
  have hkept := hx t₀ (h.txn t₀ ht₀)
  have hinv : TxnInv e (x.run t₀).2 := by
    simp only [Wp] at hkept
    rcases hr : x.run t₀ with ⟨_ | a, t'⟩
    · rw [hr] at hkept
      exact hkept
    · rw [hr] at hkept
      exact hkept
  exact ⟨hinv.writer, hinv.origin, hinv.finished, hinv.pending⟩

theorem EngineInv.dropWindow (h : EngineInv e) (hfree : e.txn = none) (fault : Option String) (key : WindowKey) :
    EngineInv (e.dropWindow fault key).2 ∧ (e.dropWindow fault key).2.db.everStaged = e.db.everStaged := by
  simp only [StagingEngine.dropWindow]
  rw [h.windows_eq]
  cases hm : e.db.windows.lookup key with
  | none => exact ⟨h, rfl⟩
  | some m =>
    dsimp only
    simp only [StagingEngine.dropWindowTxn]
    split
    next text heq => exact ⟨h, rfl⟩
    next db heq =>
      rcases fault with _ | text
      · dsimp only at heq
        split_ifs at heq
        cases heq
        refine ⟨⟨?_, h.dense, ⟨fun k n hk => ?_, fun k k' n n' hk hk' => ?_⟩, fun t ht => ?_⟩, rfl⟩
        · have hbytes : e.db.windows.stagedBytes - m.bytes =
              WindowRegistry.stagedBytes (e.db.windows.erase key) := by
            rw [WindowRegistry.stagedBytes, Tally.total_erase _ hm, add_sub_cancel_left]
            rfl
          rw [h.mirrors]
          simp only [WriterInner.load, loadWindows, hbytes]
          rfl
        · have hne : k ≠ key := by
            rintro rfl
            rw [Finmap.lookup_erase] at hk
            cases hk
          rw [Finmap.lookup_erase_ne hne] at hk
          obtain ⟨rows, hrows, hin⟩ := h.tabled.rows k n hk
          have htable : n.table ≠ m.table := fun htable => hne (h.tabled.distinct k key n m hk hm htable)
          exact ⟨rows, (Function.update_of_ne htable ..).trans hrows, hin⟩
        · have hold : ∀ k n, (e.db.windows.erase key).lookup k = some n → e.db.windows.lookup k = some n := by
            intro k n hk
            rcases eq_or_ne k key with rfl | hne
            · rw [Finmap.lookup_erase] at hk
              cases hk
            · rwa [Finmap.lookup_erase_ne hne] at hk
          exact h.tabled.distinct k k' n n' (hold k n hk) (hold k' n' hk')
        · rw [show e.txn = none from hfree] at ht
          cases ht
      · cases heq

theorem EngineInv.deleteCoveredRows (h : EngineInv e) (hfree : e.txn = none) (fault : Option String) (table : String)
    (covered : List OriginSeqRange) : EngineInv (e.deleteCoveredRows fault table covered).2 ∧
      (e.deleteCoveredRows fault table covered).2.db.everStaged = e.db.everStaged := by
  simp only [StagingEngine.deleteCoveredRows]
  split
  · exact ⟨h, rfl⟩
  · exact ⟨h, rfl⟩
  next rows hrows =>
    refine ⟨⟨h.mirrors, h.dense, ⟨fun k m hk => ?_, h.tabled.distinct⟩, fun t ht => ?_⟩, rfl⟩
    · obtain ⟨rows', hrows', hin⟩ := h.tabled.rows k m hk
      rcases eq_or_ne m.table table with rfl | hne
      · obtain rfl := Option.some.inj (hrows.symm.trans hrows')
        exact ⟨_, Function.update_self .., fun r hr => hin r (List.mem_filter.mp hr).1⟩
      · exact ⟨rows', (Function.update_of_ne hne ..).trans hrows', hin⟩
    · rw [show e.txn = none from hfree] at ht
      cases ht

theorem EngineInv.commitTxn (h : EngineInv e) (faults : Faults) :
    EngineInv (e.commitTxn faults) ∧ e.db.everStaged <+: (e.commitTxn faults).db.everStaged := by
  simp only [StagingEngine.commitTxn]
  cases ht : e.txn with
  | none => exact ⟨h, List.prefix_refl _⟩
  | some t =>
    have htxn := h.txn t ht
    have hcommit := wp_commitTxn faults t
    simp only [Wp] at hcommit
    dsimp only
    rcases hr : (StageTxn.commit faults).run t with ⟨_ | coverage, t'⟩
    · rw [hr] at hcommit
      obtain ⟨view, rfl⟩ := hcommit
      have hsame : (e.close { t with view, aborted := true }).db.everStaged = e.db.everStaged := by
        rw [StagingEngine.close, show ({ t with view, aborted := true } : StageTxn).finished = false from htxn.finished]
        rfl
      exact ⟨h.close (htxn.abort view), hsame ▸ List.prefix_refl _⟩
    · rw [hr] at hcommit
      exact h.committed htxn hcommit.2

/-- One event keeps the invariant, and nothing staged is taken back. -/
theorem EngineInv.step (h : EngineInv e) (ev : EngineEvent) :
    EngineInv (e.step ev) ∧ e.db.everStaged <+: (e.step ev).db.everStaged := by
  cases ev with
  | begin fault =>
    simp only [StagingEngine.step]
    split_ifs
    · exact ⟨h, List.prefix_refl _⟩
    · refine ⟨⟨h.mirrors, h.dense, h.tabled, fun t ht => ?_⟩, List.prefix_refl _⟩
      obtain rfl := Option.some.inj ht
      have hbegin := h.begin
      exact ⟨hbegin.writer, hbegin.origin, hbegin.finished, hbegin.pending⟩
  | append faults key batch => exact ⟨h.inTxn fun _ ht => wp_append batch ht, List.prefix_refl _⟩
  | dedupInsert faults row => exact ⟨h.inTxn fun _ ht => wp_executeDedup _ ht, List.prefix_refl _⟩
  | dedupMarkAcked faults tenant dedupKey => exact ⟨h.inTxn fun _ ht => wp_executeDedup _ ht, List.prefix_refl _⟩
  | dedupEvict faults ties wallNowMs ttlMs maxEntries => exact ⟨h.inTxn fun _ ht => wp_dedupEvict ht, List.prefix_refl _⟩
  | commit faults => exact h.commitTxn faults
  | rollback =>
    simp only [StagingEngine.step]
    cases ht : e.txn with
    | none => exact ⟨h, List.prefix_refl _⟩
    | some t =>
      have htxn := h.txn t ht
      have hsame : (e.close t).db = e.db := by
        rw [StagingEngine.close, htxn.finished]
        rfl
      exact ⟨h.close htxn, by rw [Option.map_some, Option.getD_some, hsame]⟩
  | dropWindow fault key =>
    simp only [StagingEngine.step]
    split_ifs with hup
    · exact ⟨h, List.prefix_refl _⟩
    · obtain ⟨hinv, hsame⟩ := h.dropWindow (Option.not_isSome_iff_eq_none.mp hup) fault key
      exact ⟨hinv, hsame ▸ List.prefix_refl _⟩
  | deleteCoveredRows fault table covered =>
    simp only [StagingEngine.step]
    split_ifs with hup
    · exact ⟨h, List.prefix_refl _⟩
    · obtain ⟨hinv, hsame⟩ := h.deleteCoveredRows (Option.not_isSome_iff_eq_none.mp hup) fault table covered
      exact ⟨hinv, hsame ▸ List.prefix_refl _⟩
  | die origin => exact ⟨.openDb h.dense h.tabled origin, List.prefix_refl _⟩
  | dieCommitting faults origin =>
    obtain ⟨hinv, hgrows⟩ := h.commitTxn faults
    exact ⟨.openDb hinv.dense hinv.tabled origin, hgrows⟩
  | dieDropping key origin =>
    simp only [StagingEngine.step]
    split_ifs with hup
    · exact ⟨.openDb h.dense h.tabled origin, List.prefix_refl _⟩
    · obtain ⟨hinv, hsame⟩ := h.dropWindow (Option.not_isSome_iff_eq_none.mp hup) none key
      refine ⟨.openDb hinv.dense hinv.tabled origin, ?_⟩
      change _ <+: (e.dropWindow none key).2.db.everStaged
      rw [hsame]

end Step

/-! ### Whole runs -/

theorem after_concat (origin : NodeId) (es : List EngineEvent) (ev : EngineEvent) :
    StagingEngine.after origin (es ++ [ev]) = (StagingEngine.after origin es).step ev :=
  List.foldl_concat ..

theorem engineInv_after (origin : NodeId) (es : List EngineEvent) : EngineInv (.after origin es) := by
  induction es using List.reverseRecOn with
  | nil => exact .openDb (fun _ _ => rfl) tabled_empty origin
  | append_singleton es ev ih =>
    rw [after_concat]
    exact (ih.step ev).1

theorem everStaged_append (origin : NodeId) (es fs : List EngineEvent) :
    (StagingEngine.after origin es).db.everStaged <+: (StagingEngine.after origin (es ++ fs)).db.everStaged := by
  induction fs using List.reverseRecOn with
  | nil => rw [List.append_nil]
  | append_singleton fs ev ih =>
    rw [← List.append_assoc, after_concat]
    exact ih.trans ((engineInv_after origin (es ++ fs)).step ev).2

/-- The rows staged for a window. -/
def HotDb.staged (db : HotDb) (key : WindowKey) : List StagedRow :=
  ((db.windows.lookup key).bind fun m => db.tables m.table).getD []

/-- In every state of every run: the sequence numbers ever committed for a partition and an origin are those from 1 to
    the applied one, each given to one row; a staged row is one of the rows ever committed, and what was ever
    committed stays so, so that no number is given again; and the mirrors are what the tables say. -/
theorem staged_exactly_once (origin : NodeId) (es fs : List EngineEvent) :
    (∀ p o, seqsOf (StagingEngine.after origin es).db.everStaged p o =
      List.range' 1 (((StagingEngine.after origin es).db.applied p o).getD 0)) ∧
    (∀ key, ∀ r ∈ (StagingEngine.after origin es).db.staged key,
      (key, r) ∈ (StagingEngine.after origin es).db.everStaged) ∧
    (StagingEngine.after origin es).db.everStaged <+: (StagingEngine.after origin (es ++ fs)).db.everStaged ∧
    (∀ p, (StagingEngine.after origin es).writer.applied p =
      (StagingEngine.after origin es).db.applied p (StagingEngine.after origin es).origin) ∧
    (StagingEngine.after origin es).writer.windows = (StagingEngine.after origin es).db.windows ∧
    (StagingEngine.after origin es).writer.windowHw = (StagingEngine.after origin es).db.windowHw ∧
    (StagingEngine.after origin es).writer.stagedBytes = (StagingEngine.after origin es).db.windows.stagedBytes := by
  have h := engineInv_after origin es
  refine ⟨h.dense, fun key r hr => ?_, everStaged_append origin es fs, ?_, ?_, ?_, ?_⟩
  · simp only [HotDb.staged] at hr
    cases hm : (StagingEngine.after origin es).db.windows.lookup key with
    | none =>
      rw [hm] at hr
      cases hr
    | some m =>
      obtain ⟨rows, hrows, hin⟩ := h.tabled.rows key m hm
      rw [hm, Option.bind_some, hrows] at hr
      exact hin r hr
  · intro p
    rw [h.mirrors]
    rfl
  · rw [h.mirrors]
    rfl
  · rw [h.mirrors]
    rfl
  · rw [h.mirrors]
    rfl

end Duckspout
