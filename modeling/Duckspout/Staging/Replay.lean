import Duckspout.Staging.Eviction

/-! What a duplicate's answer is about (`resolve_duplicate` and `dedup_key` in `duckspout-staging/src/stager.rs`). Every
    entry of the dedup window was written by a call that staged rows, and holds the coverage of just these rows. A call
    finds an entry by its tenant and its token, or the digest of its records: the dataset is no part of the key. -/

namespace Duckspout

open Fallible

/-! ### The coverage of a transaction -/

/-- The rows have the numbers after `base`, in order. -/
def Consecutive (origin : NodeId) (base : ℕ) (rows : List StagedRow) : Prop :=
  rows.map (fun r => (r.origin, (r.seq : ℕ))) = (List.range' (base + 1) rows.length).map (origin, ·)

/-- The pending sequences after `n` rows of a partition. -/
def pendingAfter (p : PartitionId) (base n : ℕ) : OrdMap PartitionId (U64 × U64) :=
  if n = 0 then ∅ else (∅ : OrdMap PartitionId (U64 × U64)).insert p (Fin.ofNat _ (base + 1), Fin.ofNat _ (base + n))

theorem consecutive_augmentBatch {origin : NodeId} {base : ℕ} {batch : RecordBatch}
    (h : base + batch.rows.length ≤ u64Max) :
    Consecutive origin base (augmentBatch batch origin (base + 1)) := by
  refine List.ext_getElem (by simp [augmentBatch]) fun i hi hi' => ?_
  have hlt : i < batch.rows.length := by simpa [augmentBatch] using hi
  have hmod : (base + 1 + i) % 2 ^ 64 = base + 1 + i := Nat.mod_eq_of_lt (by simp only [u64Max] at h; omega)
  simpa [augmentBatch] using hmod

theorem Consecutive.append {origin : NodeId} {base : ℕ} {rows rows' : List StagedRow} (h : Consecutive origin base rows)
    (h' : Consecutive origin (base + rows.length) rows') : Consecutive origin base (rows ++ rows') := by
  simp only [Consecutive] at h h' ⊢
  rw [List.map_append, h, h', List.length_append, ← List.map_append, ← Nat.add_right_comm, List.range'_append_1]

theorem get_pendingAfter {p : PartitionId} {base n : ℕ} (hn : n ≠ 0) :
    (pendingAfter p base n)[p]? = some (Fin.ofNat _ (base + 1), Fin.ofNat _ (base + n)) := by
  rw [pendingAfter, if_neg hn, OrdMap.get_insert_self]

theorem insert_pendingAfter {p : PartitionId} {base n m : ℕ} (hm : m ≠ 0) :
    (pendingAfter p base n).insert p (Fin.ofNat _ (base + 1), Fin.ofNat _ (base + m)) = pendingAfter p base m := by
  refine OrdMap.ext fun k => ?_
  rw [pendingAfter, pendingAfter, if_neg hm]
  split_ifs
  · rfl
  · rw [OrdMap.get_insert, OrdMap.get_insert, OrdMap.get_insert]
    split_ifs
    · rfl
    · rfl

theorem toList_pendingAfter {p : PartitionId} {base n : ℕ} (hn : n ≠ 0) :
    (pendingAfter p base n).toList = [(p, Fin.ofNat _ (base + 1), Fin.ofNat _ (base + n))] := by
  rw [pendingAfter, if_neg hn]
  rfl

/-- The transaction has put `n` consecutive rows into one window. -/
structure Covering (e : StagingEngine) (key : WindowKey) (base n : ℕ) (t : StageTxn) : Prop where
  writer : t.writer = e.writer
  origin : t.origin = e.origin
  pending : t.pendingApplied = pendingAfter key.partition base n
  fits : base + n ≤ u64Max
  rows : ∃ rows : List StagedRow, rows.length = n ∧ t.view.everStaged = e.db.everStaged ++ rows.map (key, ·) ∧
    Consecutive e.origin base rows

section Covering

variable {e : StagingEngine} {key : WindowKey} {base n : ℕ} {t : StageTxn} {faults : Faults} {stmt : Stmt}

theorem wp_executeCovering {effect : HotDb → Except Fault HotDb} (h : Covering e key base n t)
    (heffect : ∀ db db', effect db = .ok db' → db'.everStaged = db.everStaged) :
    Wp (StageTxn.execute faults stmt effect) (fun _ => Covering e key base n) (fun _ _ => True) t := by
  refine wp_execute (fun _ view hview => ?_) (fun _ _ => trivial) fun _ _ => trivial
  obtain ⟨rows, hlength, hstaged, hrows⟩ := h.rows
  exact ⟨h.writer, h.origin, h.pending, h.fits, rows, hlength, (heffect _ _ hview).trans hstaged, hrows⟩

theorem everStaged_createTable {table : String} {db db' : HotDb} (h : HotDb.createTable table db = .ok db') :
    db'.everStaged = db.everStaged := by
  simp only [HotDb.createTable] at h
  split_ifs at h
  cases h
  rfl

theorem everStaged_insertWindow {table : String} {db db' : HotDb} (h : HotDb.insertWindow key table db = .ok db') :
    db'.everStaged = db.everStaged := by
  simp only [HotDb.insertWindow] at h
  split_ifs at h
  cases h
  rfl

theorem everStaged_appendRows {table : String} {rows : List StagedRow} {db db' : HotDb}
    (h : HotDb.appendRows key table rows db = .ok db') : db'.everStaged = db.everStaged ++ rows.map (key, ·) := by
  simp only [HotDb.appendRows] at h
  split at h
  · cases h
  · cases h
    rfl

theorem everStaged_updateBytes {bytes : U64} {db db' : HotDb} (h : HotDb.updateBytes key bytes db = .ok db') :
    db'.everStaged = db.everStaged := by
  simp only [HotDb.updateBytes] at h
  split at h
  · cases h
    rfl
  · split_ifs at h
    cases h
    rfl

theorem wp_ensureWindowCovering {fields : List Field} (h : Covering e key base n t) :
    Wp (StageTxn.ensureWindow faults key fields) (fun _ => Covering e key base n) (fun _ _ => True) t := by
  refine wp_bind (wp_get ?_)
  rcases t.table? key with _ | table
  · refine wp_bind (wp_checkFields ?_ fun _ => trivial)
    refine wp_bind (wp_mono (fun _ t h => ?_) (fun _ _ h => h) (wp_executeCovering h fun _ _ => everStaged_createTable))
    refine wp_bind (wp_mono (fun _ t h => ?_) (fun _ _ h => h) (wp_executeCovering h fun _ _ => everStaged_insertWindow))
    refine wp_bind (wp_mono (fun _ t h => ?_) (fun _ _ h => h) (wp_executeCovering h fun _ _ hdb => ?_))
    · exact ⟨h.writer, h.origin, h.pending, h.fits, h.rows⟩
    · cases hdb
      rfl
  · exact wp_pure h

theorem Covering.base_eq (h : Covering e key base n t) (hbase : ((e.writer.applied key.partition).getD 0 : U64) = base) :
    (t.base key.partition : ℕ) = base + n := by
  simp only [StageTxn.base, h.pending]
  rcases eq_or_ne n 0 with rfl | hn
  · rw [h.writer]
    exact hbase
  · rw [get_pendingAfter hn]
    have hfits := h.fits
    exact Nat.mod_eq_of_lt (by simp only [u64Max] at hfits; omega)

/-- Appending a batch goes on from the last number given. -/
theorem wp_appendCovering (hbase : ((e.writer.applied key.partition).getD 0 : U64) = base) (batch : RecordBatch)
    (h : Covering e key base n t) :
    Wp (StageTxn.append faults key batch) (fun _ => Covering e key base (n + batch.rows.length)) (fun _ _ => True) t := by
  refine wp_bind (wp_mono (fun table t h => ?_) (fun _ _ h => h) (wp_ensureWindowCovering h))
  split_ifs with hempty
  · rw [hempty]
    exact wp_pure h
  refine wp_bind (wp_get ?_)
  dsimp only
  rw [h.base_eq hbase]
  split_ifs with hfull
  · exact wp_throw trivial
  have hfits : base + (n + batch.rows.length) ≤ u64Max := by omega
  have hfirst : ((Fin.ofNat (2 ^ 64) (base + n + 1) : U64) : ℕ) = base + n + 1 :=
    Nat.mod_eq_of_lt (by simp only [u64Max] at hfits; omega)
  obtain ⟨rows, hlength, hstaged, hrows⟩ := h.rows
  refine wp_bind (wp_execute (fun _ view hview => ?_) (fun _ _ => trivial) fun _ _ => trivial)
  have happended := everStaged_appendRows hview
  refine wp_bind (wp_execute (fun _ view' hview' => ?_) (fun _ _ => trivial) fun _ _ => trivial)
  refine wp_modify ⟨h.writer, h.origin, ?_, hfits, rows ++ augmentBatch batch e.origin (base + n + 1), ?_, ?_, ?_⟩
  · dsimp only
    rw [h.pending]
    rcases eq_or_ne n 0 with rfl | hn
    · have hnone : (pendingAfter key.partition base 0)[key.partition]? = none := OrdMap.get_empty _
      rw [hnone, Nat.add_zero, Nat.zero_add]
      exact insert_pendingAfter hempty
    · rw [get_pendingAfter hn]
      dsimp only
      rw [Nat.add_assoc]
      exact insert_pendingAfter (by omega)
  · rw [List.length_append, hlength]
    simp [augmentBatch]
  · rw [List.map_append, ← List.append_assoc, ← hstaged]
    refine (everStaged_updateBytes hview').trans ?_
    rw [happended, h.origin, hfirst]
  · rw [← hlength] at hfits ⊢
    exact hrows.append (consecutive_augmentBatch (by omega))

/-- A transaction that stages a request returns the coverage of its rows. -/
def Stages (origin : NodeId) (key : WindowKey) (db db' : HotDb) (coverage : List StagedCoverage) : Prop :=
  ∃ rows first last, rows ≠ [] ∧ db'.everStaged = db.everStaged ++ rows.map (key, ·) ∧
    coverage = [⟨key.partition, origin, first, last⟩] ∧
    rows.map (fun r => (r.origin, (r.seq : ℕ))) = (List.range' first (last + 1 - first)).map (origin, ·)

theorem Covering.stages {db' : HotDb} (h : Covering e key base n t) (hn : n ≠ 0)
    (hdb : db'.everStaged = t.view.everStaged) : Stages e.origin key e.db db' t.pendingCoverage := by
  obtain ⟨rows, hlength, hstaged, hrows⟩ := h.rows
  have hfits := h.fits
  have hval : ∀ m ≤ n, ((Fin.ofNat (2 ^ 64) (base + m) : U64) : ℕ) = base + m := fun m hm =>
    Nat.mod_eq_of_lt (by simp only [u64Max] at hfits; omega)
  refine ⟨rows, Fin.ofNat _ (base + 1), Fin.ofNat _ (base + n), ?_, hdb.trans hstaged, ?_, ?_⟩
  · rintro rfl
    exact hn hlength.symm
  · rw [StageTxn.pendingCoverage, h.pending, toList_pendingAfter hn, h.origin]
    rfl
  · have hone : 1 ≤ n := Nat.one_le_iff_ne_zero.mpr hn
    rw [hval 1 hone, hval n (Nat.le_refl n), hrows, hlength]
    congr 2
    omega

end Covering

section Transaction

variable {libs : StagerLibs} {config : StagerConfig} {fate : StageFate} {request : StageRequest} {e : StagingEngine}

/-- A transaction that stages a batch commits the coverage of its rows. -/
theorem wp_stageTxnStages (hrows : (request.recordBatches.map (·.rows.length)).sum ≠ 0) :
    Wp (stageTxn libs config fate request)
      (fun r t' => ∀ coverage, r.1 = .committed coverage → Stages e.origin request.window e.db t'.view coverage)
      (fun _ _ => True) e.begin := by
  let I : List (RecordBatch × ℕ) → StageTxn → Prop := fun done =>
    Covering e request.window ((e.writer.applied request.window.partition).getD 0 : U64)
      (done.map fun x => x.1.rows.length).sum
  have hbegin : I [] e.begin := ⟨rfl, rfl, rfl, Nat.le_of_lt_succ (Fin.is_lt _), [], rfl, by simp [StagingEngine.begin], rfl⟩
  refine wp_mono ?_ (fun _ _ h => h) (wp_stageTxnInv (I := I) rfl hbegin ?_ ?_)
  · rintro ⟨outcome, _⟩ t' ⟨done, s, hs, hdone, ⟨⟨_, rfl⟩, -⟩ | ⟨rfl, rfl⟩⟩ coverage heq
    · cases heq
    · obtain rfl := StageOutcome.committed.inj heq
      refine Covering.stages hs ?_ (by rw [hdone.view])
      have hfst := congrArg (List.map fun b : RecordBatch => b.rows.length) (List.zipIdx_map_fst 0 request.recordBatches)
      rw [List.map_map] at hfst
      exact fun hzero => hrows ((congrArg List.sum hfst).symm.trans hzero)
  · intro done x s hs
    change Wp _ (fun _ => Covering _ _ _ ((done ++ [x]).map fun x => x.1.rows.length).sum) _ _
    rw [List.map_append, List.sum_append, List.map_singleton, List.sum_singleton]
    exact wp_appendCovering rfl x.1 hs
  · exact fun done s dedup hs => ⟨hs.writer, hs.origin, hs.pending, hs.fits, hs.rows⟩

theorem transact_stages {s : EngineStager} {coverage : List StagedCoverage}
    (hrows : (request.recordBatches.map (·.rows.length)).sum ≠ 0)
    (hok : (s.transact libs config fate request).1 = .ok (.committed coverage)) :
    Stages s.engine.origin request.window s.engine.db (s.transact libs config fate request).2.engine.db coverage := by
  have hresolved : Wp (stageTxn libs config fate request)
      (fun r t' => t'.finished = true ∧ Resolved libs config fate request s.engine.db t'.view r.1)
      (fun _ => Held s.engine.writer) s.engine.begin := wp_stageTxn rfl rfl rfl
  have hwp := wp_and hresolved (wp_stageTxnStages hrows)
  simp only [Wp] at hwp
  simp only [EngineStager.transact] at hok ⊢
  split at hok
  · cases hok
  · rcases hr : (stageTxn libs config fate request).run s.engine.begin with ⟨e | ⟨outcome, evicted⟩, t⟩
    · rw [hr] at hok
      cases hok
    · rw [hr] at hwp hok
      obtain ⟨⟨hfinished, -⟩, hstages⟩ := hwp
      have hdb : (s.engine.close t).db = t.view := if_pos hfinished
      dsimp only
      rw [hdb]
      exact hstages coverage (Except.ok.inj hok)

end Transaction

/-! ### Calls and their entries -/

/-- The window a call's rows go to. -/
def StageCall.window (setup : StagingSetup) (call : StageCall) (s : StagingNode) : WindowKey :=
  (call.request setup [] s).window

/-- A call that commits rows stages them and answers with their coverage. -/
theorem stageCall_stages {setup : StagingSetup} {call : StageCall} {s : StagingNode} {coverage : List StagedCoverage}
    (hok : (stageCall setup call s).1 = .ok (.committed coverage)) (hrows : setup.libs.rows call.batch ≠ some 0) :
    Stages s.stager.engine.origin (call.window setup s) s.db (stageCall setup call s).2.db coverage := by
  rw [stageCall_eq] at hok ⊢
  simp only [StagerLibs.rows] at hrows
  rcases hgate : s.stager.admission setup.config with e | _
  · rw [hgate] at hok
    cases hok
  rcases hread : setup.libs.readStream call.batch.records with text | recordBatches
  · rw [hgate, hread] at hok
    cases hok
  rw [hgate, hread] at hok
  rw [hread] at hrows
  dsimp only at hok hrows ⊢
  have hsum : (recordBatches.map (·.rows.length)).sum ≠ 0 := fun heq => hrows (congrArg some heq)
  rw [if_neg hsum] at hok ⊢
  have hstages := transact_stages hsum hok
  rw [call.engine_asked] at hstages
  exact hstages

/-- A call without rows changes nothing. -/
theorem stageCall_empty {setup : StagingSetup} {call : StageCall} (hrows : setup.libs.rows call.batch = some 0)
    (s : StagingNode) : (stageCall setup call s).2.db = s.db := by
  rw [stageCall_eq]
  simp only [StagerLibs.rows] at hrows
  rcases s.stager.admission setup.config with e | _
  · rfl
  rcases hread : setup.libs.readStream call.batch.records with text | recordBatches
  · rfl
  rw [hread] at hrows
  dsimp only
  rw [if_pos (Option.some.inj hrows)]

/-- One of the calls, with this property, staged rows and was answered with this coverage of them. -/
def StagedEarlier (setup : StagingSetup) (origin : NodeId) (calls : List StageCall) (P : StageCall → Prop)
    (coverage : List StagedCoverage) : Prop :=
  ∃ before call rest, calls = before ++ call :: rest ∧ P call ∧
    let s := stageCalls setup (.fresh origin) before
    (stageCall setup call s).1 = .ok (.committed coverage) ∧
    Stages s.stager.engine.origin (call.window setup s) s.db (stageCall setup call s).2.db coverage

/-- Every entry holds the coverage of rows that a call of its key staged. -/
def EntriesSourced (setup : StagingSetup) (origin : NodeId) (calls : List StageCall) (rows : List DedupRow) : Prop :=
  ∀ row ∈ rows, ∃ coverage, setup.libs.toJson coverage = .ok row.outcome ∧
    StagedEarlier setup origin calls (StageCall.Keyed setup row.tenant row.dedupKey) coverage

section Sources

variable {setup : StagingSetup} {origin : NodeId} {calls : List StageCall} {call : StageCall}

theorem stageCalls_concat (setup : StagingSetup) (s : StagingNode) (calls : List StageCall) (call : StageCall) :
    stageCalls setup s (calls ++ [call]) = (stageCall setup call (stageCalls setup s calls)).2 :=
  List.foldl_concat ..

theorem StagedEarlier.concat {P : StageCall → Prop} {coverage : List StagedCoverage}
    (h : StagedEarlier setup origin calls P coverage) (call : StageCall) :
    StagedEarlier setup origin (calls ++ [call]) P coverage := by
  obtain ⟨before, earlier, rest, rfl, hP, hcommitted⟩ := h
  exact ⟨before, earlier, rest ++ [call], by simp, hP, hcommitted⟩

theorem EntriesSourced.concat {rows : List DedupRow} (h : EntriesSourced setup origin calls rows) (call : StageCall) :
    EntriesSourced setup origin (calls ++ [call]) rows := by
  intro row hrow
  obtain ⟨coverage, hjson, hearlier⟩ := h row hrow
  exact ⟨coverage, hjson, hearlier.concat call⟩

theorem EntriesSourced.markAcked {rows : List DedupRow} (h : EntriesSourced setup origin calls rows) (tenant : TenantId)
    (key : String) : EntriesSourced setup origin calls (markAcked tenant key rows) := by
  intro row hrow
  obtain ⟨old, hold, rfl⟩ := List.mem_map.mp hrow
  split_ifs
  · exact h old hold
  · exact h old hold

theorem entriesSourced_step (h : EntriesSourced setup origin calls (stageCalls setup (.fresh origin) calls).db.dedup) :
    EntriesSourced setup origin (calls ++ [call]) (stageCalls setup (.fresh origin) (calls ++ [call])).db.dedup := by
  rw [stageCalls_concat]
  replace h := h.concat call
  by_cases hrows : setup.libs.rows call.batch = some 0
  · rw [stageCall_empty hrows]
    exact h
  rcases stageCall_cases setup call (stageCalls setup (.fresh origin) calls) with
    ⟨e, -, hdb, -⟩ | ⟨-, hdb, -⟩ | ⟨outcome, recordBatches, hok, hresolved⟩
  · rw [hdb]
    exact h
  · rw [hdb]
    exact h
  · cases hresolved with
    | duplicate _ _ _ _ _ hdedup =>
      rcases hdedup with hdedup | hdedup
      · rw [hdedup]
        exact h
      · rw [hdedup]
        exact h.markAcked _ _
    | committed coverage text _ hjson hdedup =>
      intro row hrow
      rw [hdedup] at hrow
      rcases (mem_keptEntries.mp (cappedEntries_subset hrow)).1 with rfl | ⟨hold, -⟩
      · exact ⟨coverage, hjson, calls, call, [], rfl, ⟨rfl, rfl⟩, hok, stageCall_stages hok hrows⟩
      · exact h row hold

theorem entriesSourced_run (setup : StagingSetup) (origin : NodeId) (calls : List StageCall) :
    EntriesSourced setup origin calls (stageCalls setup (.fresh origin) calls).db.dedup := by
  induction calls using List.reverseRecOn with
  | nil => exact fun row hrow => by cases hrow
  | append_singleton calls call ih => exact entriesSourced_step ih

end Sources

/-! ### Keys -/

theorem hexByte_append_inj {b c : UInt8} {rest rest' : List Char}
    (h : (hexByte b).toList ++ rest = (hexByte c).toList ++ rest') : b = c ∧ rest = rest' := by
  have hb : b.toNat < 256 := b.toNat_lt
  have hc : c.toNat < 256 := c.toNat_lt
  simp only [hexByte, String.toList_ofList, List.cons_append, List.nil_append, List.cons.injEq] at h
  obtain ⟨hhigh, hlow, hrest⟩ := h
  have hhigh := congrArg hexValue hhigh
  have hlow := congrArg hexValue hlow
  rw [hexValue_digitChar _ (by omega), hexValue_digitChar _ (by omega)] at hhigh hlow
  exact ⟨UInt8.toNat_inj.mp (by omega), hrest⟩

theorem flatMap_hexByte_injective {bs : List UInt8} : ∀ {cs : List UInt8},
    (bs.map hexByte).flatMap String.toList = (cs.map hexByte).flatMap String.toList → bs = cs := by
  have hne : ∀ (b : UInt8) (rest : List Char), (hexByte b).toList ++ rest ≠ [] := by
    intro b rest
    simp [hexByte]
  induction bs with
  | nil =>
    intro cs h
    cases cs with
    | nil => rfl
    | cons c cs => exact absurd h.symm (hne c _)
  | cons b bs ih =>
    intro cs h
    cases cs with
    | nil => exact absurd h (hne b _)
    | cons c cs =>
      obtain ⟨rfl, hrest⟩ := hexByte_append_inj h
      rw [ih hrest]

theorem join_hexByte_injective {bs cs : List UInt8}
    (h : String.join (bs.map hexByte) = String.join (cs.map hexByte)) : bs = cs := by
  have hchars := congrArg String.toList h
  rw [String.toList_join, String.toList_join] at hchars
  exact flatMap_hexByte_injective hchars

/-- Two batches of one key have the same token, or none and the same digest. -/
theorem dedupKey_inj {libs : StagerLibs} {a b : DecodedBatch} (h : dedupKey libs a = dedupKey libs b) :
    a.idempotencyKey = b.idempotencyKey ∧ (b.idempotencyKey = none → libs.sha256 a.records = libs.sha256 b.records) := by
  have hkinds : ∀ x y : String, "t:" ++ x ≠ "h:" ++ y := by
    intro x y heq
    have hhead := congrArg (fun s : String => s.toList.head?) heq
    simp at hhead
  simp only [dedupKey] at h
  rcases ha : a.idempotencyKey with _ | token
  · rcases hb : b.idempotencyKey with _ | token
    · rw [ha, hb] at h
      exact ⟨rfl, fun _ => join_hexByte_injective ((String.append_right_inj _).mp h)⟩
    · rw [ha, hb] at h
      exact absurd h.symm (hkinds _ _)
  · rcases hb : b.idempotencyKey with _ | token'
    · rw [ha, hb] at h
      exact absurd h (hkinds _ _)
    · rw [ha, hb] at h
      exact ⟨congrArg some ((String.append_right_inj _).mp h), (fun hnone => by cases hnone)⟩

/-- Calls one after another from an empty store, no two records of which collide with those of the last call under
    SHA-256. Where the last is answered as a duplicate with a coverage, an earlier call of its tenant and partition with
    the same token, or with none and the same records, staged rows and has exactly their coverage for its answer. -/
theorem duplicate_has_source (setup : StagingSetup) (hjson : setup.libs.RoundTrips) (origin : NodeId)
    (calls : List StageCall) (call : StageCall) (coverage : List StagedCoverage)
    (hsha : ∀ earlier ∈ calls, setup.libs.sha256 earlier.batch.records = setup.libs.sha256 call.batch.records →
      earlier.batch.records = call.batch.records)
    (hok : (stageCall setup call (stageCalls setup (.fresh origin) calls)).1 = .ok (.duplicateAcked coverage)) :
    StagedEarlier setup origin calls (fun earlier =>
      earlier.batch.tenant = call.batch.tenant ∧
      (∀ s s', (earlier.window setup s).partition = (call.window setup s').partition) ∧
      earlier.batch.idempotencyKey = call.batch.idempotencyKey ∧
      (call.batch.idempotencyKey = none → earlier.batch.records = call.batch.records)) coverage := by
  rcases stageCall_cases setup call (stageCalls setup (.fresh origin) calls) with
    ⟨e, herror, -⟩ | ⟨hnone, -⟩ | ⟨outcome, recordBatches, hok', hresolved⟩
  · rw [hok] at herror
    cases herror
  · rw [hok] at hnone
    cases hnone
  · rw [hok] at hok'
    cases hok'
    cases hresolved with
    | duplicate row _ hlive hback =>
      have hfor := List.find?_some hlive
      simp only [decide_eq_true_eq] at hfor
      obtain ⟨⟨htenant, hkey⟩, -⟩ := hfor
      obtain ⟨stored, hstored, before, earlier, rest, rfl, hkeyed, hcommitted⟩ :=
        entriesSourced_run setup origin calls row (List.mem_of_find?_eq_some hlive)
      have hsame : stored = coverage := Except.ok.inj ((hjson stored row.outcome hstored).symm.trans hback)
      rw [hsame] at hcommitted
      have htenants : earlier.batch.tenant = call.batch.tenant := hkeyed.1.trans htenant
      obtain ⟨htoken, hdigest⟩ := dedupKey_inj (hkeyed.2.trans hkey)
      refine ⟨before, earlier, rest, rfl, ⟨htenants, fun _ _ => ?_, htoken, fun hnone => ?_⟩, hcommitted⟩
      · exact congrArg (PartitionId.fromTenantShard · 0) htenants
      · exact hsha earlier (by simp) (hdigest hnone)

/-- A retry of a batch under its token. -/
theorem duplicate_has_source_retry :
    StagedEarlier oneRowSetup ⟨"node-1"⟩ [stageAtWall "k1" 0] (fun earlier =>
      earlier.batch.tenant = ⟨"acme"⟩ ∧
      (∀ s s', (earlier.window oneRowSetup s).partition = ((stageAtWall "k1" 1).window oneRowSetup s').partition) ∧
      earlier.batch.idempotencyKey = some "k1" ∧
      (some "k1" = none → earlier.batch.records = oneRowStream 1)) (oneRowOutcome 1).1 :=
  duplicate_has_source oneRowSetup oneRowLibs_roundTrips ⟨"node-1"⟩ [stageAtWall "k1" 0] (stageAtWall "k1" 1)
    (oneRowOutcome 1).1 (by decide +kernel) (by decide +kernel)

/-- The same records for another dataset, under the same token. -/
def otherDatasetCall : StageCall := ⟨⟨⟨"otlp_traces"⟩, ⟨"acme"⟩, some "k1", oneRowStream 1⟩, {}⟩

/-- It is answered with the coverage of the first dataset's row, and no call has staged a row for its own. -/
theorem duplicate_of_other_dataset :
    (stageCall oneRowSetup otherDatasetCall (stageCalls oneRowSetup (.fresh ⟨"node-1"⟩) [stageAtWall "k1" 0])).1 =
      .ok (.duplicateAcked (oneRowOutcome 1).1) ∧
    ¬ StagedEarlier oneRowSetup ⟨"node-1"⟩ [stageAtWall "k1" 0]
      (fun earlier => earlier.batch.dataset = otherDatasetCall.batch.dataset) (oneRowOutcome 1).1 := by
  refine ⟨by decide +kernel, ?_⟩
  rintro ⟨before, earlier, rest, hcalls, hdataset, -⟩
  have hmem : earlier ∈ [stageAtWall "k1" 0] := by
    rw [hcalls]
    simp
  rw [List.mem_singleton.mp hmem] at hdataset
  exact absurd hdataset (by decide)

end Duckspout
