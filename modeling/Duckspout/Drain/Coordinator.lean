import Duckspout.Lake.Committer
import Duckspout.Staging.Seal
import Duckspout.Watermark.Ledger

/-! The drain choreography (`duckspout-drain/src/coordinator.rs`): `drain_window` as a program over the
    ports it is built on.

    Every call on a port is one operation. The trace journal is left out, and so is the schedule that
    offers windows: an attempt may be made on any window at any time. -/

namespace Duckspout

/-! ### The bookkeeping port -/

/-- A manifest the bookkeeping refuses. -/
inductive LedgerRejection where
  | windowNotNext (partition : PartitionId) (expected got : WindowId)
  | rejected (text : String)
  deriving DecidableEq, Repr

/-- The ledger's rejection as the port has it: the fence, or anything else, rendered. -/
def rejection : AdvanceError → LedgerRejection
  | .windowNotNext partition expected got => .windowNotNext partition expected got
  | error => .rejected error.text

/-! ### Attempts -/

/-- The seal parameters of a dataset. -/
structure DatasetDrainPlan where
  orderBy : List String
  eventTimeColumn : String
  dedupKey : Option (List String)
  deriving DecidableEq, Repr

/-- The plan of a declared dataset: a changelog is sorted and deduplicated by its key columns. -/
def DatasetDrainPlan.fromDeclaration (decl : DatasetDeclaration) (eventTimeColumn : String) : DatasetDrainPlan :=
  let defaults := match decl.kind with
    | .event => ([eventTimeColumn], none)
    | .changelog => (decl.keyCols ++ ["origin", "seq"], some decl.keyCols)
  ⟨decl.sortKey.getD defaults.1, eventTimeColumn, defaults.2⟩

inductive RequeueReason where
  | rejectedByBackend
  | commitLost
  | unproven
  | catalogUnavailable
  deriving DecidableEq, Repr

/-- How one drain attempt ended. -/
inductive DrainOutcome where
  | committed (watermark : Option WatermarkRow)
  | alreadyCommitted
  | requeue (reason : RequeueReason)
  deriving DecidableEq, Repr

inductive DrainError where
  | windowAhead (partition : PartitionId) (expected got : WindowId)
  | seal (error : SealError)
  | ledger (rejection : LedgerRejection)
  | scratch (text : String)
  | put (text : String)
  | lake (error : LakeError)
  deriving DecidableEq, Repr

/-- The two outcomes a read-back resolves. -/
inductive Unsettled where
  | aborted
  | indeterminate
  deriving DecidableEq, Repr

/-- A submitted batch whose outcome is open: the manifest, the watermark row it carried and the
    partition's watermark before it. -/
structure Submission where
  manifest : WindowManifest
  previewed : Option WatermarkRow
  prior : Option ℤ
  deriving DecidableEq, Repr

/-- The calls on the ports. A read-back names the submission it resolves; that is no part of the
    request. -/
inductive DrainOp where
  | nextWindow (partition : PartitionId)
  | completeThroughMs (partition : PartitionId)
  | sealWindow (request : SealRequest)
  | advanceFor (m : WindowManifest)
  | scratchGet (path : String)
  | putPart (part : PartName) (data : List StagedRow)
  | commitFiles (m : WindowManifest) (watermarks : List WatermarkRow)
  | readWatermarks (partitions : List PartitionId) (resolves : Submission)
  | recordCommit (m : WindowManifest)
  | scratchDelete (path : String)
  | recordedCoverage (partition : PartitionId) (window : WindowId)
  | dropWindow (key : WindowKey) (covered : List OriginSeqRange)
  deriving DecidableEq, Repr

@[reducible] def DrainOp.Res : DrainOp → Type
  | .nextWindow _ => WindowId
  | .completeThroughMs _ => Option ℤ
  | .sealWindow _ => Except SealError SealedPart
  | .advanceFor _ => Except LedgerRejection (Option WatermarkRow)
  | .scratchGet _ => Except String (List StagedRow)
  | .putPart .. => Except String Unit
  | .commitFiles .. => Except LakeError CommitOutcome
  | .readWatermarks .. => Except LakeError (List WatermarkRow)
  | .recordCommit _ => Except LedgerRejection (Option WatermarkRow)
  | .scratchDelete _ => Except String Unit
  | .recordedCoverage .. => Option (List OriginSeqRange)
  | .dropWindow .. => Except SealError DropOutcome

abbrev DrainProg := Prog DrainOp DrainOp.Res

abbrev DrainM := ExceptT DrainError DrainProg

/-- One call on a port. -/
def call (o : DrainOp) : DrainM o.Res := ExceptT.lift (Prog.perform o)

/-- The answer of a fallible call, its failure turned into one of the attempt. -/
def orFail {ε α : Type} (error : ε → DrainError) : Except ε α → DrainM α
  | .ok a => pure a
  | .error e => throw (error e)

/-- Best-effort cleanup of a scratch file. -/
def discardScratch (path : String) : DrainM PUnit := do
  let _ ← call (.scratchDelete path)

/-- The coverage-guarded drop. -/
def dropCovered (key : WindowKey) (covered : List OriginSeqRange) : DrainM PUnit := do
  let _ ← orFail .seal (← call (.dropWindow key covered))

/-- Completes a window whose commit already stands: drops what the bookkeeping has recorded for it. -/
def finishAlreadyCommitted (dataset : DatasetId) (partition : PartitionId) (window : WindowId)
    (scratch : Option String) : DrainM DrainOutcome := do
  match scratch with
  | some path => discardScratch path
  | none => pure ()
  let covered ← call (.recordedCoverage partition window)
  dropCovered ⟨dataset, partition, window⟩ (covered.getD [])
  return .alreadyCommitted

/-- Records a manifest, unless the window was recorded before: then the current watermark is the
    answer. -/
def recordOnce (m : WindowManifest) : DrainM (Option WatermarkRow) := do
  match ← call (.recordCommit m) with
  | .ok row => return row
  | .error (.windowNotNext partition expected got) =>
    if got < expected then
      let ms ← call (.completeThroughMs m.partition)
      return ms.map fun completeThroughMs => ⟨m.partition, completeThroughMs⟩
    else throw (.ledger (.windowNotNext partition expected got))
  | .error rejection => throw (.ledger rejection)

/-- Completes a durable commit: records the manifest, discards the scratch file and drops the coverage
    of the manifest. -/
def finishCommitted (m : WindowManifest) (scratch : String) : DrainM (Option WatermarkRow) := do
  let watermark ← recordOnce m
  discardScratch scratch
  dropCovered ⟨m.dataset, m.partition, m.windowId⟩ m.originCoverage
  return watermark

/-- The watermark the commit would advance to, if it carried a strict advance. -/
def Submission.strictAdvance (s : Submission) : Option ℤ :=
  (s.previewed.map (·.completeThroughMs)).filter fun advanced => s.prior.all fun p => decide (advanced > p)

/-- The value read back for a partition. -/
def readBack (rows : List WatermarkRow) (partition : PartitionId) : Option ℤ :=
  (rows.find? fun row => row.partition = partition).map (·.completeThroughMs)

/-- The read-back shows the advance of the submission: the commit is taken to stand. -/
def Submission.observed (s : Submission) (rows : List WatermarkRow) : Bool :=
  s.strictAdvance.any fun advanced => (readBack rows s.manifest.partition).any fun v => decide (v ≥ advanced)

/-- Resolves an unsettled outcome by one read-back. -/
def reconcile (unsettled : Unsettled) (s : Submission) (path : String) : DrainM DrainOutcome := do
  match ← call (.readWatermarks [s.manifest.partition] s) with
  | .error _ =>
    discardScratch path
    return .requeue .catalogUnavailable
  | .ok rows =>
  if s.observed rows then
    match unsettled with
    | .indeterminate => return .committed (← finishCommitted s.manifest path)
    | .aborted =>
      let _ ← finishCommitted s.manifest path
      return .alreadyCommitted
  else if s.strictAdvance.isSome then
    discardScratch path
    return .requeue (match unsettled with
      | .aborted => .rejectedByBackend
      | .indeterminate => .commitLost)
  else
    discardScratch path
    return .requeue .unproven

/-- The manifest of a sealed window, under its one part. -/
def sealedManifest (dataset : DatasetId) (partition : PartitionId) (window : WindowId) (sealed : SealedPart) :
    WindowManifest where
  dataset := dataset
  partition := partition
  windowId := window
  originCoverage := sealed.originCoverage
  rows := sealed.rows
  eventTimeMinMs := sealed.eventTimeMinMs
  eventTimeMaxMs := sealed.eventTimeMaxMs
  dedupRemoved := sealed.dedupRemoved
  parts := [partName dataset partition window .window]

/-- Uploads the sealed part, commits it and completes or resolves the commit. -/
def submit (m : WindowManifest) (path : String) (previewed : Option WatermarkRow) (prior : Option ℤ) :
    DrainM DrainOutcome := do
  let data ← orFail .scratch (← call (.scratchGet path))
  let _ ← orFail .put (← call (.putPart (partName m.dataset m.partition m.windowId .window) data))
  match ← orFail .lake (← call (.commitFiles m previewed.toList)) with
  | .committed => return .committed (← finishCommitted m path)
  | .aborted => reconcile .aborted ⟨m, previewed, prior⟩ path
  | .indeterminate => reconcile .indeterminate ⟨m, previewed, prior⟩ path

/-- One drain attempt. -/
def drainWindow (dataset : DatasetId) (partition : PartitionId) (window : WindowId) (plan : DatasetDrainPlan) :
    DrainM DrainOutcome := do
  let expected ← call (.nextWindow partition)
  if window < expected then finishAlreadyCommitted dataset partition window none
  else if window > expected then throw (.windowAhead partition expected window)
  else
    let prior ← call (.completeThroughMs partition)
    let sealed ← orFail .seal
      (← call (.sealWindow ⟨dataset, partition, window, plan.eventTimeColumn, plan.dedupKey⟩))
    let m := sealedManifest dataset partition window sealed
    match ← call (.advanceFor m) with
    | .ok previewed => submit m sealed.path previewed prior
    | .error (.windowNotNext p expected got) =>
      -- recorded by another attempt since the check above
      if got < expected then finishAlreadyCommitted dataset partition window (some sealed.path)
      else throw (.ledger (.windowNotNext p expected got))
    | .error rejection => throw (.ledger rejection)

end Duckspout
