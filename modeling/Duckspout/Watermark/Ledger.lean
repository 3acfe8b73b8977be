import Duckspout.Watermark.Coverage

/-! The per-partition watermark ledger (`duckspout-watermark/src/ledger.rs`).

    A mutation returns its answer beside the ledger it leaves behind, so that what a rejected call
    does to the state is a statement about the code and not part of its type. The advance rule is the
    source's incremental walk from the cached cursor; `lastComplete` is the same rule from scratch,
    and `extend_spec` says that the walk computes it. -/

namespace Duckspout

/-- A rejected ledger mutation. -/
inductive AdvanceError where
  | datasetMismatch (partition : PartitionId) (recorded got : DatasetId)
  | windowNotNext (partition : PartitionId) (expected got : WindowId)
  | invalidSeqRange (origin : NodeId) (firstSeq lastSeq : U64)
  | invalidEventTimeRange (minMs maxMs : ℤ)
  | coverageOverlap (origin : NodeId) (firstSeq lastSeq : U64)
  deriving DecidableEq, Repr

/-- The rendered rejection. -/
def AdvanceError.text : AdvanceError → String
  | .datasetMismatch p recorded got =>
    "dataset mismatch for partition " ++ p.raw ++ ": ledger has " ++ recorded.raw ++
      ", manifest has " ++ got.raw
  | .windowNotNext p expected got =>
    "window " ++ toString got ++ " is not the dense-next window of partition " ++ p.raw ++
      " (expected " ++ toString expected ++ ")"
  | .invalidSeqRange o first last =>
    "invalid seq range " ++ toString first ++ "..=" ++ toString last ++ " for origin " ++ o.raw ++
      " (seqs are 1-based, first ≤ last)"
  | .invalidEventTimeRange minMs maxMs =>
    "invalid event-time range: min " ++ toString minMs ++ " > max " ++ toString maxMs
  | .coverageOverlap o first last =>
    "coverage " ++ toString first ++ "..=" ++ toString last ++ " for origin " ++ o.raw ++
      " intersects already-committed coverage"

/-- The ledger's projection of one committed window's manifest. -/
structure WindowRecord where
  originCoverage : List OriginSeqRange
  eventTimeMaxMs : ℤ
  dedupRemoved : U64
  deriving DecidableEq, Repr

/-- The record a manifest leaves. -/
def WindowManifest.record (m : WindowManifest) : WindowRecord :=
  ⟨m.originCoverage, m.eventTimeMaxMs, m.dedupRemoved⟩

/-- The per-origin range a loss row excuses. -/
def LostRange.seqRange (r : LostRange) : OriginSeqRange := ⟨r.origin, r.firstSeq, r.lastSeq⟩

/-- One partition's bookkeeping. The `done` fields and `completeThroughMs` are the cached cursor of
    the advance rule. -/
structure PartitionState where
  dataset : Option DatasetId := none
  windows : OrdMap WindowId WindowRecord := ∅
  committed : OriginCoverage := ∅
  losses : OriginCoverage := ∅
  doneCov : OriginCoverage := ∅
  doneThrough : Option WindowId := none
  completeThroughMs : Option ℤ := none

namespace PartitionState

/-- The dense-next window id. -/
def nextWindowId (s : PartitionState) : WindowId := s.windows.lastKey?.elim 0 (· + 1)

/-- The running event-time maximum. -/
def maxTime (eventMax : Option ℤ) (t : ℤ) : Option ℤ := some (eventMax.elim t (max · t))

/-- The walk of `extend`: fold in window `next`, move the cursor when the coverage so far has no
    unexcused gap, go on. The fuel bounds the number of windows visited. -/
def extendLoop : ℕ → WindowId → OriginCoverage → Option ℤ → PartitionState → PartitionState
  | 0, _, _, _, s => s
  | fuel + 1, next, cov, eventMax, s =>
    match s.windows[next]? with
    | none => s
    | some record =>
      let cov := record.originCoverage.foldl OriginCoverage.add cov
      let eventMax := maxTime eventMax record.eventTimeMaxMs
      if (unexcusedGaps cov s.losses).isEmpty then
        extendLoop fuel (next + 1) cov eventMax
          { s with doneCov := cov, doneThrough := some next, completeThroughMs := eventMax }
      else extendLoop fuel (next + 1) cov eventMax s

/-- Re-runs the advance rule from the cached cursor. No window id reaches `nextWindowId`, so that
    much fuel takes the walk to its end. -/
def extend (s : PartitionState) : PartitionState :=
  extendLoop s.nextWindowId (s.doneThrough.elim 0 (· + 1)) s.doneCov s.completeThroughMs s

/-- The partition's watermark row, once it has a watermark. -/
def watermarkRow (s : PartitionState) (partition : PartitionId) : Option WatermarkRow :=
  s.completeThroughMs.map fun ms => ⟨partition, ms⟩

/-- The mutating half of `record_commit`, after every check has passed. -/
def commit (s : PartitionState) (m : WindowManifest) (probe : OriginCoverage) : PartitionState :=
  extend { s with
    dataset := s.dataset.or (some m.dataset)
    committed := s.committed ∪ probe
    windows := s.windows.insert m.windowId m.record }

/-- The mutating half of `record_loss`. -/
def lose (s : PartitionState) (r : LostRange) : PartitionState :=
  extend { s with losses := OriginCoverage.add s.losses r.seqRange }

end PartitionState

/-! ### The checks of `record_commit`, in their order -/

def checkTimes (m : WindowManifest) : Except AdvanceError Unit :=
  if m.eventTimeMinMs > m.eventTimeMaxMs then
    .error (.invalidEventTimeRange m.eventTimeMinMs m.eventTimeMaxMs)
  else .ok ()

def checkDataset (state : Option PartitionState) (m : WindowManifest) : Except AdvanceError Unit :=
  match state.bind (·.dataset) with
  | some recorded =>
    if recorded ≠ m.dataset then .error (.datasetMismatch m.partition recorded m.dataset) else .ok ()
  | none => .ok ()

def checkWindow (state : Option PartitionState) (m : WindowManifest) : Except AdvanceError Unit :=
  let expected := state.elim 0 PartitionState.nextWindowId
  if m.windowId ≠ expected then .error (.windowNotNext m.partition expected m.windowId) else .ok ()

def checkSeqs (origin : NodeId) (firstSeq lastSeq : U64) : Except AdvanceError Unit :=
  if firstSeq = 0 ∨ firstSeq > lastSeq then .error (.invalidSeqRange origin firstSeq lastSeq)
  else .ok ()

/-- One range of the manifest against the committed coverage and the manifest's earlier ranges. -/
def probeRange (state : Option PartitionState) (probe : OriginCoverage) (range : OriginSeqRange) :
    Except AdvanceError OriginCoverage := do
  checkSeqs range.origin range.firstSeq range.lastSeq
  let set := probe[range.origin]?.getD ((state.bind fun s => s.committed[range.origin]?).getD {})
  if set.overlaps range.firstSeq range.lastSeq then
    .error (.coverageOverlap range.origin range.firstSeq range.lastSeq)
  else .ok (probe.insert range.origin (set.insert range.firstSeq range.lastSeq))

/-- Every check of `record_commit`; the answer is the probe the mutation then merges. -/
def checkCommit (state : Option PartitionState) (m : WindowManifest) :
    Except AdvanceError OriginCoverage := do
  checkTimes m
  checkDataset state m
  checkWindow state m
  m.originCoverage.foldlM (probeRange state) ∅

/-- The lake-neutral watermark ledger. -/
structure WatermarkLedger where
  partitions : OrdMap PartitionId PartitionState := ∅

instance : Inhabited PartitionState := ⟨{}⟩

namespace WatermarkLedger

/-- Records a durably committed window manifest and re-runs the advance rule. -/
def recordCommit (ledger : WatermarkLedger) (m : WindowManifest) :
    Except AdvanceError (Option WatermarkRow) × WatermarkLedger :=
  match checkCommit ledger.partitions[m.partition]? m with
  | .error e => (.error e, ledger)
  | .ok probe =>
    let state := (ledger.partitions[m.partition]?.getD default).commit m probe
    (.ok (state.watermarkRow m.partition), ⟨ledger.partitions.insert m.partition state⟩)

/-- Records a loss-ledger row and re-runs the advance rule. -/
def recordLoss (ledger : WatermarkLedger) (row : LossLedgerRow) :
    Except AdvanceError (Option WatermarkRow) × WatermarkLedger :=
  match checkSeqs row.range.origin row.range.firstSeq row.range.lastSeq with
  | .error e => (.error e, ledger)
  | .ok _ =>
    let state := (ledger.partitions[row.range.partition]?.getD default).lose row.range
    (.ok (state.watermarkRow row.range.partition),
      ⟨ledger.partitions.insert row.range.partition state⟩)

/-- The watermark row a commit of the manifest must carry: the answer of `record_commit` on a copy. -/
def advanceFor (ledger : WatermarkLedger) (m : WindowManifest) :
    Except AdvanceError (Option WatermarkRow) := (ledger.recordCommit m).1

/-- The partition's `complete_through`. -/
def completeThroughMs (ledger : WatermarkLedger) (p : PartitionId) : Option ℤ :=
  ledger.partitions[p]?.bind (·.completeThroughMs)

/-- The highest window the watermark has advanced through. -/
def advancedThrough (ledger : WatermarkLedger) (p : PartitionId) : Option WindowId :=
  ledger.partitions[p]?.bind (·.doneThrough)

/-- The highest committed window recorded for the partition. -/
def recordedThrough (ledger : WatermarkLedger) (p : PartitionId) : Option WindowId :=
  ledger.partitions[p]?.bind (·.windows.lastKey?)

/-- The dense-next window id the ledger will accept. -/
def nextWindow (ledger : WatermarkLedger) (p : PartitionId) : WindowId :=
  ledger.partitions[p]?.elim 0 PartitionState.nextWindowId

/-- The dataset the partition is recorded under. -/
def dataset (ledger : WatermarkLedger) (p : PartitionId) : Option DatasetId :=
  ledger.partitions[p]?.bind (·.dataset)

/-- The ledger's record of one committed window. -/
def windowRecord (ledger : WatermarkLedger) (p : PartitionId) (w : WindowId) : Option WindowRecord :=
  ledger.partitions[p]?.bind (·.windows[w]?)

/-- The unexcused gaps blocking the partition, over its full committed coverage. -/
def blockingGaps (ledger : WatermarkLedger) (p : PartitionId) : List (NodeId × ℕ × ℕ) :=
  ledger.partitions[p]?.elim [] fun s => unexcusedGaps s.committed s.losses

end WatermarkLedger

end Duckspout
