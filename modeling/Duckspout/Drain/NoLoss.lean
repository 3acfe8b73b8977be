import Duckspout.Drain.Outline

/-! When no acknowledged row is lost: a row leaves the staging of a node only if the manifest the lake
    holds for its window covers it.

    The committer fences a window by name alone. Where the lake already holds a manifest under the name of
    a batch, or the watermark has passed the one the batch would have set, the attempt takes its own commit
    to stand and drops its own coverage; this is right only where the stored manifest covers it. -/

namespace Duckspout

open Snapshot Threads

/-- Every sequence number of the first coverage lies in the second. -/
def Within (a b : List OriginSeqRange) : Prop := ∀ o n, Covers a o n → Covers b o n

/-- The inclusion is decided at the first number of each range and after the last ones of the others. -/
theorem within_iff {a b : List OriginSeqRange} : Within a b ↔ ∀ r ∈ a,
    ∀ n ∈ (r.firstSeq : ℕ) :: b.map (fun q => (q.lastSeq : ℕ) + 1), r.Has r.origin n → Covers b r.origin n := by
  constructor
  · intro h r hr n _ hn
    exact h _ n ⟨r, hr, hn⟩
  · rintro h o n ⟨r, hr, rfl, hfirst, hlast⟩
    induction n, hfirst using Nat.le_induction with
    | base => exact h r hr _ List.mem_cons_self ⟨rfl, le_rfl, hlast⟩
    | succ n hn ih =>
      obtain ⟨q, hq, hqo, hqfirst, hqlast⟩ := ih (by omega)
      rcases Nat.lt_or_ge n q.lastSeq with hlt | hge
      · exact ⟨q, hq, hqo, by omega, hlt⟩
      · have hpoint : n + 1 = (q.lastSeq : ℕ) + 1 := by omega
        refine h r hr (n + 1) ?_ ⟨rfl, by omega, hlast⟩
        rw [hpoint]
        exact List.mem_cons_of_mem _ (List.mem_map.mpr ⟨q, hq, rfl⟩)

instance (a b : List OriginSeqRange) : Decidable (Within a b) := decidable_of_iff _ within_iff.symm

/-- The lake stores a manifest of the window that covers `n` of origin `o`. -/
def Lake.Holds (l : Lake) (key : WindowKey) (o : NodeId) (n : ℕ) : Prop :=
  ∃ r ∈ values l.manifests, r.dataset = key.dataset ∧ r.partition = key.partition ∧
    r.windowId = toI64 key.window ∧ Covers r.coverage o n

instance (l : Lake) (key : WindowKey) (o : NodeId) (n : ℕ) : Decidable (l.Holds key o n) :=
  inferInstanceAs (Decidable (∃ r ∈ values l.manifests, r.dataset = key.dataset ∧ r.partition = key.partition ∧
    r.windowId = toI64 key.window ∧ Covers r.coverage o n))

/-- The lake holds all of a coverage. -/
def Lake.HoldsAll (l : Lake) (key : WindowKey) (coverage : List OriginSeqRange) : Prop :=
  ∀ o n, Covers coverage o n → l.Holds key o n

/-- The rows registered under the names of a batch. -/
def Lake.registeredAs (l : Lake) (m : WindowManifest) : List ManifestRow :=
  (values l.manifests).filter fun r => decide (∃ part ∈ m.parts, r.key = (m.partition, toI64 m.windowId, part))

/-- The condition on a call, in the state before it: a batch is submitted, or taken to have landed, only
    where what the lake holds under its name covers it. -/
def CoveredByName : DrainOp → DrainState → Prop
  | .commitFiles m _, s => ∀ r ∈ s.lake.registeredAs m, Within m.originCoverage r.coverage
  | .readWatermarks ps sub, s => sub.observed (readWatermarks s.lake ps) = true →
    s.lake.registeredAs sub.manifest ≠ [] ∧
      ∀ r ∈ s.lake.registeredAs sub.manifest, Within sub.manifest.originCoverage r.coverage
  | _, _ => True

instance : (o : DrainOp) → (s : DrainState) → Decidable (CoveredByName o s)
  | .commitFiles m _, s =>
    inferInstanceAs (Decidable (∀ r ∈ s.lake.registeredAs m, Within m.originCoverage r.coverage))
  | .readWatermarks ps sub, s => inferInstanceAs (Decidable (sub.observed (readWatermarks s.lake ps) = true →
    s.lake.registeredAs sub.manifest ≠ [] ∧
      ∀ r ∈ s.lake.registeredAs sub.manifest, Within sub.manifest.originCoverage r.coverage))
  | .nextWindow _, _ | .completeThroughMs _, _ | .sealWindow _, _ | .advanceFor _, _ | .scratchGet _, _
  | .putPart _ _, _ | .recordCommit _, _ | .scratchDelete _, _ | .recordedCoverage _ _, _
  | .dropWindow _ _, _ => isTrue trivial

section

variable {datasetOf : PartitionId → DatasetId} {config : DuckLakeConfig} {l l' : Lake} {s : DrainState}

/-! ### The lake -/

theorem toI64_mem (n : ℕ) : 0 ≤ toI64 n ∧ toI64 n ≤ i64Max := by
  simp only [toI64]
  split_ifs
  · exact ⟨Int.natCast_nonneg n, by exact_mod_cast ‹n ≤ i64Max›⟩
  · exact ⟨Int.natCast_nonneg _, le_refl _⟩

/-- The window of a row, read and written back. -/
theorem toI64_toWindowId {w : ℤ} (h₀ : 0 ≤ w) (h : w ≤ i64Max) : toI64 (toWindowId w) = w := by
  rw [toWindowId, if_neg (not_lt.mpr h₀), toI64, if_pos (by omega), Int.toNat_of_nonneg h₀]

theorem Lake.Holds.mono {key : WindowKey} {o : NodeId} {n : ℕ} (h : l.Holds key o n)
    (hl : values l.manifests <+: values l'.manifests) : l'.Holds key o n := by
  obtain ⟨r, hr, hkey⟩ := h
  exact ⟨r, hl.subset hr, hkey⟩

theorem Lake.HoldsAll.mono {key : WindowKey} {coverage : List OriginSeqRange} (h : l.HoldsAll key coverage)
    (hl : values l.manifests <+: values l'.manifests) : l'.HoldsAll key coverage :=
  fun o n hn => (h o n hn).mono hl

/-- The rows of the lake: each of the dataset its partition belongs to, with a window id a 64-bit column
    can hold. -/
structure RowsOf (datasetOf : PartitionId → DatasetId) (l : Lake) : Prop where
  dataset : ∀ r ∈ values l.manifests, r.dataset = datasetOf r.partition
  window : ∀ r ∈ values l.manifests, 0 ≤ r.windowId ∧ r.windowId ≤ i64Max

/-- A batch of the partition's dataset. -/
abbrev BatchOf (datasetOf : PartitionId → DatasetId) : WindowManifest → Prop := Batch fun d p => d = datasetOf p

theorem mem_registeredAs {m : WindowManifest} (hm : BatchOf datasetOf m) {r : ManifestRow} :
    r ∈ l.registeredAs m ↔ r ∈ values l.manifests ∧ r.key = (m.partition, toI64 m.windowId, m.windowPart) := by
  simp [Lake.registeredAs, hm.parts]

/-- What is registered under the name of a batch stands for its window. -/
theorem holdsAll_registeredAs {m : WindowManifest} (hrows : RowsOf datasetOf l) (hm : BatchOf datasetOf m)
    {r : ManifestRow} (hr : r ∈ l.registeredAs m) (hcov : Within m.originCoverage r.coverage) :
    l.HoldsAll m.key m.originCoverage := by
  obtain ⟨hmem, hkey⟩ := (mem_registeredAs hm).mp hr
  obtain ⟨hp, hw⟩ : r.partition = m.partition ∧ r.windowId = toI64 m.windowId :=
    ⟨congrArg Prod.fst hkey, congrArg (·.2.1) hkey⟩
  refine fun o n hn => ⟨r, hmem, ?_, hp, hw, hcov o n hn⟩
  rw [hrows.dataset r hmem, hp]
  exact hm.drains.symm

/-- A landed batch is held: by the row it adds, or by the one its name is registered under already. -/
theorem holdsAll_register {m : WindowManifest} {ws : List WatermarkRow} (hrows : RowsOf datasetOf l)
    (hm : BatchOf datasetOf m) (hcov : ∀ r ∈ l.registeredAs m, Within m.originCoverage r.coverage) :
    (l.register config m ws).HoldsAll m.key m.originCoverage := by
  rcases registered_or_there (show m.windowPart ∈ m.parts by simp [hm.parts]) with hnew | ⟨r, hr, hkey⟩
  · exact fun o n hn => ⟨manifestRow m m.windowPart, hnew, rfl, rfl, rfl, hn⟩
  · have hr' := (mem_registeredAs hm).mpr ⟨hr, hkey⟩
    exact (holdsAll_registeredAs hrows hm hr' (hcov r hr')).mono manifests_register

theorem RowsOf.register {m : WindowManifest} {ws : List WatermarkRow} (h : RowsOf datasetOf l)
    (hm : BatchOf datasetOf m) : RowsOf datasetOf (l.register config m ws) := by
  refine ⟨fun r hr => ?_, fun r hr => ?_⟩
  · rcases mem_manifests_register hr with hold | ⟨part, -, rfl⟩
    · exact h.dataset r hold
    · exact hm.drains
  · rcases mem_manifests_register hr with hold | ⟨part, -, rfl⟩
    · exact h.window r hold
    · exact toI64_mem m.windowId

/-! ### The ledgers -/

/-- The ledger has recorded manifests whose coverage the lake holds. -/
def LedgerHeld (datasetOf : PartitionId → DatasetId) (l : Lake) (ledger : WatermarkLedger) : Prop :=
  ∃ ms, Represents ledger ms [] ∧
    ∀ m ∈ ms, m.dataset = datasetOf m.partition ∧ l.HoldsAll m.key m.originCoverage

theorem ledgerHeld_empty : LedgerHeld datasetOf l {} := ⟨[], represents_empty, fun m hm => by cases hm⟩

theorem LedgerHeld.mono {ledger : WatermarkLedger} (h : LedgerHeld datasetOf l ledger)
    (hl : values l.manifests <+: values l'.manifests) : LedgerHeld datasetOf l' ledger := by
  obtain ⟨ms, hrep, hms⟩ := h
  exact ⟨ms, hrep, fun m hm => ⟨(hms m hm).1, (hms m hm).2.mono hl⟩⟩

theorem LedgerHeld.recordCommit {ledger : WatermarkLedger} {m : WindowManifest} (h : LedgerHeld datasetOf l ledger)
    (hd : m.dataset = datasetOf m.partition) (hm : l.HoldsAll m.key m.originCoverage) :
    LedgerHeld datasetOf l (ledger.recordCommit m).2 := by
  obtain ⟨ms, hrep, hms⟩ := h
  exact recordCommit_forall hrep hms ⟨hd, hm⟩

/-- A rebuilt ledger is held by the lake it was read from. -/
theorem ledgerHeld_boot {ledger : WatermarkLedger} (hrows : RowsOf datasetOf l) (h : bootLedger l = some ledger) :
    LedgerHeld datasetOf l ledger := by
  obtain ⟨ms, hrep, hread⟩ := bootLedger_spec h
  refine ⟨ms, hrep, fun m hm => ?_⟩
  obtain ⟨r, hr, hfrom⟩ := hread m hm
  have hp : r.partition = m.partition := (congrArg WindowManifest.partition hfrom.manifest).symm
  have hd : r.dataset = m.dataset := (congrArg WindowManifest.dataset hfrom.manifest).symm
  have hw : m.windowId = toWindowId r.windowId := congrArg WindowManifest.windowId hfrom.manifest
  refine ⟨?_, fun o n hn => ⟨r, hr, hd, hp, ?_, ?_⟩⟩
  · rw [← hd, hrows.dataset r hr, hp]
  · change r.windowId = toI64 m.windowId
    rw [hw, toI64_toWindowId (hrows.window r hr).1 (hrows.window r hr).2]
  · rw [ManifestRow.coverage, hfrom.coverage]
    exact hn

/-- What a held ledger has recorded for a window, the lake holds. -/
theorem LedgerHeld.windowRecord {ledger : WatermarkLedger} (h : LedgerHeld datasetOf l ledger) {p : PartitionId}
    {w : WindowId} {record : WindowRecord} (hrec : ledger.windowRecord p w = some record) :
    l.HoldsAll ⟨datasetOf p, p, w⟩ record.originCoverage := by
  obtain ⟨ms, hrep, hms⟩ := h
  rw [hrep.windowRecord, Option.map_eq_some_iff] at hrec
  obtain ⟨m, hm, rfl⟩ := hrec
  obtain ⟨hmem, hw⟩ := (hrep.dense p).getElem?_iff.mp hm
  obtain ⟨hmem, hp⟩ := mem_commitsOn.mp hmem
  obtain ⟨hd, hall⟩ := hms m hmem
  rw [← hw, ← hp, ← hd]
  exact hall

/-! ### The drainers -/

/-- The invariant: the lake's rows are of their partition's dataset, and every ledger is held. -/
abbrev NoLossInv (datasetOf : PartitionId → DatasetId) : DrainState → Prop :=
  NodesInv (RowsOf datasetOf) (LedgerHeld datasetOf)

/-- What a fact says here: the batch of an attempt that stands, and the coverage the bookkeeping has
    recorded, are held by the lake. -/
def HeldFact (datasetOf : PartitionId → DatasetId) (s : DrainState) : DrainFact → Prop
  | .fits sub => BatchOf datasetOf sub.manifest
  | .stands m => BatchOf datasetOf m ∧ s.lake.HoldsAll m.key m.originCoverage
  | .recorded p w coverage => s.lake.HoldsAll ⟨datasetOf p, p, w⟩ coverage
  | _ => True

/-- Attempts drain the dataset their partition belongs to, and keep the condition on their calls. -/
def noLossFacts (config : DuckLakeConfig) (datasetOf : PartitionId → DatasetId) :
    Facts (drainers config) DrainFact where
  job _ j _ := j.dataset = datasetOf j.partition
  op _ := CoveredByName
  inv := NoLossInv datasetOf
  holds s _ := HeldFact datasetOf s
  pre := drainPre fun d p => d = datasetOf p
  learns := drainLearns

theorem HeldFact.mono {s' : DrainState} {f : DrainFact} (h : HeldFact datasetOf s f)
    (hl : values s.lake.manifests <+: values s'.lake.manifests) : HeldFact datasetOf s' f := by
  cases f with
  | stands m => exact ⟨h.1, h.2.mono hl⟩
  | recorded p w coverage => exact Lake.HoldsAll.mono h hl
  | fits sub => exact h
  | reached p w => trivial
  | priced p w prior => trivial

theorem noLossInv_exec {k : List DrainFact} {i : ℕ} {o : DrainOp} (fate : Fate) (h : NoLossInv datasetOf s)
    (hpre : drainPre (fun d p => d = datasetOf p) o k) (hk : ∀ f ∈ k, HeldFact datasetOf s f) :
    NoLossInv datasetOf (DrainState.exec config i o fate s).2 := by
  refine h.exec ?_ ?_
  · rintro m ws rfl
    obtain ⟨sub, hsub, rfl, -⟩ := hpre
    exact ⟨h.lake.register (hk _ hsub), fun ledger hl => hl.mono manifests_register⟩
  · rintro m rfl
    obtain ⟨hbatch, hall⟩ := hk _ hpre
    exact (h.ledgerOf ledgerHeld_empty i).recordCommit hbatch.drains hall

/-- The lake keeps what it stores. -/
theorem manifests_exec (i : ℕ) (o : DrainOp) (fate : Fate) :
    values s.lake.manifests <+: values (DrainState.exec config i o fate s).2.lake.manifests := by
  rcases lake_exec config i o fate s with heq | ⟨m, ws, -, heq⟩
  · rw [heq]
  · rw [heq]
    exact manifests_register

/-- Every answer teaches what is so. -/
theorem heldFact_learns {k : List DrainFact} {i : ℕ} {o : DrainOp} (fate : Fate) (h : NoLossInv datasetOf s)
    (hop : CoveredByName o s) (hpre : drainPre (fun d p => d = datasetOf p) o k)
    (hk : ∀ f ∈ k, HeldFact datasetOf s f) :
    ∀ f ∈ drainLearns o k (DrainState.exec config i o fate s).1,
      HeldFact datasetOf (DrainState.exec config i o fate s).2 f := by
  intro f hf
  generalize hr : (DrainState.exec config i o fate s).1 = r at hf
  cases learnt_of_mem hf with
  | reached p _ w => trivial
  | priced prior _ => trivial
  | fits previewed _ => exact hpre
  | committed m ws _ =>
    obtain ⟨sub, hsub, rfl, -⟩ := hpre
    have hbatch : BatchOf datasetOf sub.manifest := hk _ hsub
    refine ⟨hbatch, ?_⟩
    rw [exec_committed hr]
    exact holdsAll_register h.lake hbatch hop
  | observed ps _ hobs =>
    obtain ⟨hfits, rfl⟩ := hpre
    obtain rfl := exec_readWatermarks hr
    obtain ⟨hne, hcov⟩ := hop hobs
    obtain ⟨row, hrow⟩ := List.exists_mem_of_ne_nil _ hne
    exact ⟨hk _ hfits, holdsAll_registeredAs h.lake (hk _ hfits) hrow (hcov row hrow)⟩
  | recorded p w _ coverage =>
    obtain ⟨record, hrec, rfl⟩ := Option.map_eq_some_iff.mp hr
    exact (h.ledgerOf ledgerHeld_empty i).windowRecord hrec

theorem noLossFacts_sound : (noLossFacts config datasetOf).Sound where
  start := by
    intro s t j hj
    exact Protocol.wp_mono (fun _ _ _ => trivial) (keeps_drainWindow j.window j.plan hj)
  exec := by
    intro s t c o k hinv hop hpre hk
    exact ⟨noLossInv_exec c hinv hpre hk, heldFact_learns c hinv hop hpre hk⟩
  env := fun _ e hinv => hinv.move e fun _ hboot => ledgerHeld_boot hinv.lake hboot
  exec_stable := by
    intro s t u c o f _ hf
    exact HeldFact.mono hf (manifests_exec u.1 o c)
  env_stable := by
    intro s t e f _ _ hf
    refine HeldFact.mono hf ?_
    rw [show ((drainers config).move e s).lake = s.lake from move_lake e]

theorem rowsOf_empty : RowsOf datasetOf {} := ⟨(fun r hr => by cases hr), (fun r hr => by cases hr)⟩

/-! ### What leaves staging -/

theorem staged_setTable (i u : ℕ) (key key' : WindowKey) (table : Option (List StagedRow)) :
    (s.setTable i key table).staged u key' = if u = i ∧ key' = key then table.getD [] else s.staged u key' := by
  simp only [DrainState.staged, DrainState.setTable, setNode_nodes]
  rcases eq_or_ne u i with rfl | hu
  · rcases eq_or_ne key' key with rfl | hkey
    · simp
    · simp [hkey]
  · simp [hu]

theorem staged_setLedger (i u : ℕ) (key : WindowKey) (ledger : Option WatermarkLedger) :
    (s.setLedger i ledger).staged u key = s.staged u key := by
  simp only [DrainState.staged, DrainState.setLedger, setNode_nodes]
  rcases eq_or_ne u i with rfl | hu
  · simp
  · simp [hu]

/-- Rows leave a window only by a drop of it. -/
theorem leaves_exec {i u : ℕ} {o : DrainOp} {fate : Fate} {key : WindowKey} {r : StagedRow}
    (hin : r ∈ s.staged u key) (hout : r ∉ (DrainState.exec config i o fate s).2.staged u key) :
    ∃ covered, o = .dropWindow key covered ∧ r.CoveredBy covered := by
  rcases exec_cases config i o fate s with hsame | ⟨m, ws, -, heq⟩ | ⟨m, -, heq⟩ | ⟨key', covered, ho, heq⟩
  · rw [DrainState.staged, hsame.staging] at hout
    exact absurd hin hout
  · rw [heq] at hout
    exact absurd hin hout
  · rw [heq, staged_setLedger] at hout
    exact absurd hin hout
  · rw [heq, staged_setTable] at hout
    split_ifs at hout with hwin
    · obtain ⟨rfl, rfl⟩ := hwin
      exact ⟨covered, ho, coveredBy_of_drop hin hout⟩
    · exact absurd hin hout

/-- No row leaves by a move of the environment. -/
theorem mem_staged_move (e : DrainEnv) {u : ℕ} {key : WindowKey} {r : StagedRow} (hin : r ∈ s.staged u key) :
    r ∈ (e.move s).staged u key := by
  cases e with
  | append i key' rows =>
    simp only [DrainEnv.move, staged_setTable, Option.getD_some]
    split_ifs with hwin
    · obtain ⟨rfl, rfl⟩ := hwin
      exact List.mem_append_left _ hin
    · exact hin
  | crash i =>
    rw [DrainEnv.move, staged_setLedger]
    exact hin
  | boot i =>
    simp only [DrainEnv.move]
    split_ifs
    · exact hin
    · rw [staged_setLedger]
      exact hin

/-- What a guarded drop asks for covers the row it removes. -/
theorem holds_of_drop {k : List DrainFact} {key : WindowKey} {covered : List OriginSeqRange} {r : StagedRow}
    (hpre : drainPre (fun d p => d = datasetOf p) (.dropWindow key covered) k)
    (hk : ∀ f ∈ k, HeldFact datasetOf s f) (hr : r.CoveredBy covered) : s.lake.Holds key r.origin r.seq := by
  rcases hpre with rfl | ⟨m, hm, rfl, rfl⟩ | ⟨hd, hrec⟩
  · obtain ⟨range, hrange, -⟩ := hr
    cases hrange
  · exact (hk _ hm).2 _ _ hr
  · obtain ⟨dataset, partition, window⟩ := key
    obtain rfl : dataset = datasetOf partition := hd
    exact hk _ hrec _ _ hr

end

/-- A run in which every attempt is on the dataset its partition belongs to, and every call meets the
    condition. -/
def NoLossRun (config : DuckLakeConfig) (datasetOf : PartitionId → DatasetId) (es : List DrainEvent) : Prop :=
  (drainers config).Admissible (StepOk (fun _ j _ => j.dataset = datasetOf j.partition) fun _ => CoveredByName)
    { shared := {} } es

theorem noLossRun_known {config : DuckLakeConfig} {datasetOf : PartitionId → DatasetId} {es : List DrainEvent}
    (hes : NoLossRun config datasetOf es) : ∀ t n j o next,
    (drained config es).running t = some ⟨n, j, .call o next⟩ →
    ∃ k, drainPre (fun d p => d = datasetOf p) o k ∧ ∀ f ∈ k, HeldFact datasetOf (drained config es).shared f := by
  have hsound : (noLossFacts config datasetOf).Sound := noLossFacts_sound
  exact (hsound.run { shared := {} } (.init rowsOf_empty) (fun _ => rfl) rfl hes).2

/-- One event: a row that leaves is held by then. -/
theorem leaves_step {config : DuckLakeConfig} {datasetOf : PartitionId → DatasetId} {es : List DrainEvent}
    {e : DrainEvent} (hes : NoLossRun config datasetOf es) {i : ℕ} {key : WindowKey} {r : StagedRow}
    (hin : r ∈ (drained config es).shared.staged i key)
    (hout : r ∉ (drained config (es ++ [e])).shared.staged i key) :
    (drained config es).shared.lake.Holds key r.origin r.seq := by
  rcases drained_step config es e with heq | ⟨t, c, n, j, o, next, hrun, heq⟩ | ⟨v, heq⟩
  · rw [heq] at hout
    exact absurd hin hout
  · rw [heq] at hout
    obtain ⟨covered, rfl, hcov⟩ := leaves_exec hin hout
    obtain ⟨k, hpre, hk⟩ := noLossRun_known hes t n j _ next hrun
    exact holds_of_drop hpre hk hcov
  · rw [heq] at hout
    exact absurd (mem_staged_move v hin) hout

/-- The lake keeps what it stores. -/
theorem manifests_step (config : DuckLakeConfig) (es : List DrainEvent) (e : DrainEvent) :
    values (drained config es).shared.lake.manifests <+:
      values (drained config (es ++ [e])).shared.lake.manifests := by
  rcases drained_step config es e with heq | ⟨t, c, n, j, o, next, -, heq⟩ | ⟨v, heq⟩
  · rw [heq]
  · rw [heq]
    exact manifests_exec t.1 o c
  · rw [heq, move_lake]

/-- In every run that meets the condition, a row that has left the staging of a node is covered by the
    manifest the lake stores for its window. -/
theorem dropped_rows_held (config : DuckLakeConfig) (datasetOf : PartitionId → DatasetId)
    (es fs : List DrainEvent) (h : NoLossRun config datasetOf (es ++ fs)) (i : ℕ) (key : WindowKey) (r : StagedRow)
    (hin : r ∈ (drained config es).shared.staged i key)
    (hout : r ∉ (drained config (es ++ fs)).shared.staged i key) :
    (drained config (es ++ fs)).shared.lake.Holds key r.origin r.seq := by
  induction fs using List.reverseRecOn with
  | nil =>
    rw [List.append_nil] at hout
    exact absurd hin hout
  | append_singleton fs e ih =>
    rw [← List.append_assoc] at h hout ⊢
    obtain ⟨hfs, -⟩ := admissible_concat.mp h
    -- the row was gone before the last event, or it goes with it
    by_cases hmid : r ∈ (drained config (es ++ fs)).shared.staged i key
    · exact (leaves_step hfs hmid hout).mono (manifests_step config (es ++ fs) e)
    · exact (ih hfs hmid).mono (manifests_step config (es ++ fs) e)

instance (config : DuckLakeConfig) (datasetOf : PartitionId → DatasetId) (es : List DrainEvent) :
    Decidable (NoLossRun config datasetOf es) :=
  inferInstanceAs (Decidable ((drainers config).Admissible _ _ es))

/-! ### Two drainers of one window -/

/-- Node 0 has staged the rows 1 to 5 of a window and node 1 the rows 1 to 7; both are up. -/
def twoNodes : List DrainEvent :=
  [.env (.append 0 (sampleKey 0) [sampleRow 1, sampleRow 2, sampleRow 3, sampleRow 4, sampleRow 5]),
    .env (.append 1 (sampleKey 0) [sampleRow 1, sampleRow 2, sampleRow 3, sampleRow 4, sampleRow 5, sampleRow 6,
      sampleRow 7]),
    .env (.boot 0), .env (.boot 1), .start (0, 0) (sampleJob 0), .start (1, 0) (sampleJob 0)]

/-- Node 0 commits the window first. Node 1 finds it registered, takes its own commit to stand and drops
    the rows 6 and 7, which no manifest covers. -/
theorem uncovered_row_dropped :
    sampleRow 7 ∈ (drained drainConfig twoNodes).shared.staged 1 (sampleKey 0) ∧
    sampleRow 7 ∉ (drained drainConfig (twoNodes ++ served (0, 0) 11 ++ served (1, 0) 11)).shared.staged 1
      (sampleKey 0) ∧
    ¬ (drained drainConfig (twoNodes ++ served (0, 0) 11 ++ served (1, 0) 11)).shared.lake.Holds (sampleKey 0)
      ⟨"a"⟩ 7 := by
  decide +kernel

/-- In the other order the lake has all seven rows before node 0 finds its window registered, and what both
    drop is held. -/
theorem dropped_rows_held_race :
    (drained drainConfig (twoNodes ++ served (1, 0) 11 ++ served (0, 0) 11)).shared.lake.Holds (sampleKey 0)
      ⟨"a"⟩ 3 :=
  dropped_rows_held drainConfig (fun _ => ⟨"logs"⟩) twoNodes (served (1, 0) 11 ++ served (0, 0) 11)
    (by decide +kernel) 0 (sampleKey 0) (sampleRow 3) (by decide +kernel) (by decide +kernel)

end Duckspout
