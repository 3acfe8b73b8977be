import Duckspout.Lake.Catalog
import Duckspout.Lib.Threads
import Duckspout.Naming
import Mathlib.Data.List.Infix
import Mathlib.Data.List.Sort

/-! The committer (`duckspout-lake-ducklake/src/lib.rs`): `commit_files` and `expire` as programs over
    a connection, and the two reads of the lake. -/

namespace Duckspout

open Snapshot

/-- The three-valued outcome of a lake commit. -/
inductive CommitOutcome where
  | committed
  | aborted
  | indeterminate
  deriving DecidableEq, Repr

inductive LakeError where
  | notImplemented (operation : String)
  | misconfigured (text : String)
  | backend (text : String)
  deriving DecidableEq, Repr

/-- The rendered error. -/
def LakeError.text : LakeError → String
  | .notImplemented operation => "lake operation not implemented: " ++ operation
  | .misconfigured text => "lake backend misconfigured: " ++ text
  | .backend text => "lake backend: " ++ text

/-- How a catalog is reached and where its data lives. -/
structure DuckLakeConfig where
  catalogUri : String
  dataPath : String
  deriving DecidableEq, Repr

inductive CatalogKind where
  | duckDbFile
  | sqlite
  | postgres
  deriving DecidableEq, Repr

def startsWith (text start : String) : Bool := start.toList.isPrefixOf text.toList

def catalogKind (uri : String) : CatalogKind :=
  if startsWith uri "postgres:" || startsWith uri "postgresql:" then .postgres
  else if startsWith uri "sqlite:" then .sqlite
  else .duckDbFile

/-- The lowered text holds `needle`. -/
def mentions (text needle : String) : Bool :=
  decide (needle.toList <:+: text.toList.map Char.toLower)

/-- Classifies a failed `COMMIT`. -/
def commitErrorOutcome (kind : CatalogKind) (rendered : String) : CommitOutcome :=
  if mentions rendered "conflict" then .aborted
  else match kind with
    | .duckDbFile => .aborted
    | .sqlite => .aborted
    | .postgres => .indeterminate

/-- The lake table of a dataset. -/
def datasetTable (dataset : DatasetId) : String := "ds_" ++ encodeComponent dataset.raw

/-- The object a part's name resolves to. -/
def partPath (config : DuckLakeConfig) (part : PartName) : String := config.dataPath ++ "/" ++ part.raw

/-- Programs over a connection. -/
abbrev SqlProg := Prog Sql Sql.Res

def runQuery (q : Query) : SqlProg (Except String q.Res) := Prog.perform (Sql.run q)

def beginTransaction : SqlProg (Except String Unit) := Prog.perform Sql.begin

def commitTransaction : SqlProg (Except String Unit) := Prog.perform Sql.commit

def rollbackTransaction : SqlProg (Except String Unit) := Prog.perform Sql.rollback

/-- One statement, its failure turned into an error of the committer. -/
def queryOr (error : String → LakeError) (q : Query) : ExceptT LakeError SqlProg q.Res :=
  ExceptT.mk do
    match ← runQuery q with
    | .ok r => return .ok r
    | .error text => return .error (error text)

/-- One statement, its failure a backend error. -/
def query (q : Query) : ExceptT LakeError SqlProg q.Res := queryOr .backend q

/-! ### `commit_files` -/

/-- How one commit transaction's writes resolved before `COMMIT`. -/
inductive Staged where
  | wrote
  | alreadyRegistered
  deriving DecidableEq, Repr

/-- The manifest row of one part. -/
def manifestRow (m : WindowManifest) (part : PartName) : ManifestRow where
  partition := m.partition
  windowId := toI64 m.windowId
  partName := part
  dataset := m.dataset
  rows := toI64 m.rows
  eventTimeMinMs := m.eventTimeMinMs
  eventTimeMaxMs := m.eventTimeMaxMs
  dedupRemoved := toI64 m.dedupRemoved
  originCoverage := .encoded m.originCoverage
  expired := false

/-- The parts without a manifest row in the transaction's view. -/
def absentParts (m : WindowManifest) : ExceptT LakeError SqlProg (List PartName) :=
  m.parts.foldlM (fun absent part => do
    let present ← query (.countManifests m.partition (toI64 m.windowId) part)
    return if present = 0 then absent ++ [part] else absent) []

/-- Registers one part: its file and its manifest row. -/
def registerPart (config : DuckLakeConfig) (m : WindowManifest) (part : PartName) :
    ExceptT LakeError SqlProg PUnit := do
  query (.addDataFiles (datasetTable m.dataset) (partPath config part))
  query (.insertManifest (manifestRow m part))

/-- Updates the partition's watermark row, or inserts it. -/
def upsertWatermark (row : WatermarkRow) : ExceptT LakeError SqlProg PUnit := do
  let updated ← query (.updateWatermarks row)
  if updated = 0 then query (.insertWatermark row)

/-- The writes of one commit transaction. -/
def stageCommitWrites (config : DuckLakeConfig) (m : WindowManifest) (watermarks : List WatermarkRow) :
    ExceptT LakeError SqlProg Staged := do
  let absent ← absentParts m
  if absent = [] ∧ m.parts ≠ [] then return .alreadyRegistered
  absent.forM (registerPart config m)
  watermarks.forM upsertWatermark
  query (.updateFence m.partition (toI64 m.windowId))
  return .wrote

/-- Makes sure that the partition has a fence row. -/
def ensureFence (partition : PartitionId) : ExceptT LakeError SqlProg PUnit := do
  let present ← query (.fenceExists partition)
  if !present then query (.insertFence partition)

/-- One commit attempt. -/
def commitFilesBlocking (config : DuckLakeConfig) (m : WindowManifest) (watermarks : List WatermarkRow) :
    SqlProg (Except LakeError CommitOutcome) := do
  match ← (ensureFence m.partition).run with
  | .error _ => return .ok .aborted
  | .ok _ =>
  match ← beginTransaction with
  | .error text => return .error (.backend text)
  | .ok _ =>
  match ← (stageCommitWrites config m watermarks).run with
  | .ok .wrote =>
    match ← commitTransaction with
    | .ok _ => return .ok .committed
    | .error text =>
      let _ ← rollbackTransaction
      return .ok (commitErrorOutcome (catalogKind config.catalogUri) text)
  | .ok .alreadyRegistered =>
    let _ ← rollbackTransaction
    return .ok .committed
  | .error error =>
    let _ ← rollbackTransaction
    if mentions error.text "conflict" then return .ok .aborted
    -- A retry cannot heal a missing table or column.
    else if mentions error.text "does not exist" || mentions error.text "binder error" ||
        mentions error.text "catalog error" then return .error error
    else return .ok .aborted

/-! ### `expire` -/

/-- Takes one part's rows out of the table and marks its manifest rows, once. -/
def expirePart (config : DuckLakeConfig) (part : PartName) : ExceptT LakeError SqlProg PUnit := do
  let (dataset, alreadyExpired) ← queryOr (fun _ => .backend
    ("expire: part " ++ part.raw ++ " is not registered in duckspout_manifests")) (.selectPart part)
  if alreadyExpired then return
  query (.deleteRows (datasetTable dataset) (partPath config part))
  query (.markExpired part)

/-- The expire transaction. -/
def expireBlocking (config : DuckLakeConfig) (parts : List PartName) : SqlProg (Except LakeError Unit) := do
  match ← beginTransaction with
  | .error text => return .error (.backend text)
  | .ok _ =>
  match ← (parts.forM (expirePart config)).run with
  | .ok _ =>
    match ← commitTransaction with
    | .ok _ => return .ok ()
    | .error text => return .error (.backend text)
  | .error error =>
    let _ ← rollbackTransaction
    return .error error

/-! ### Reads -/

/-- The greatest watermark of each named partition that has one. -/
def readWatermarks (l : Lake) (partitions : List PartitionId) : List WatermarkRow :=
  partitions.filterMap fun p =>
    (((values l.watermarks).filter (·.partition = p)).map (·.completeThroughMs)).max?.map fun ms => ⟨p, ms⟩

/-- `u64::try_from(n).unwrap_or(u64::MAX)`. -/
def toWindowId (n : ℤ) : WindowId := if n < 0 then u64Max else n.toNat

theorem toI64_of_le {w : ℕ} (h : w ≤ i64Max) : toI64 w = w := if_pos h

theorem toWindowId_toI64 {w : ℕ} (h : w ≤ i64Max) : toWindowId (toI64 w) = w := by
  rw [toI64_of_le h, toWindowId, if_neg (not_lt.mpr (Int.natCast_nonneg w)), Int.toNat_natCast]

/-- `u64::try_from(n).unwrap_or(0)`, of a signed 64-bit value. -/
def toU64 (n : ℤ) : U64 := Fin.ofNat (2 ^ 64) n.toNat

/-- Decodes a coverage text. Where it does not decode, the text stands for the decoder's message. -/
def CoverageText.decode : CoverageText → Except String (List OriginSeqRange)
  | .encoded coverage => .ok coverage
  | .other text => .error text

/-- The manifest of a window, from its first row. -/
def ManifestRow.manifest (r : ManifestRow) (coverage : List OriginSeqRange) : WindowManifest where
  dataset := r.dataset
  partition := r.partition
  windowId := toWindowId r.windowId
  originCoverage := coverage
  rows := toU64 r.rows
  eventTimeMinMs := r.eventTimeMinMs
  eventTimeMaxMs := r.eventTimeMaxMs
  dedupRemoved := toU64 r.dedupRemoved
  parts := [r.partName]

/-- The order of the read: by partition, then by window. -/
def rowLe (a b : ManifestRow) : Prop :=
  a.partition < b.partition ∨ (a.partition = b.partition ∧ a.windowId ≤ b.windowId)

instance : DecidableRel rowLe := fun a b =>
  inferInstanceAs (Decidable (a.partition < b.partition ∨ (a.partition = b.partition ∧ a.windowId ≤ b.windowId)))

/-- One row of the ordered read. It adds its part to the manifest last read, if that is of the same
    window; only the first row of a window is decoded. -/
def collectRow (manifests : List WindowManifest) (r : ManifestRow) : Except LakeError (List WindowManifest) :=
  let first := match r.originCoverage.decode with
    | .ok coverage => .ok (manifests ++ [r.manifest coverage])
    | .error text => .error (.backend ("decode origin_coverage for partition " ++ r.partition.raw ++
        " window " ++ toString (toWindowId r.windowId) ++ ": " ++ text))
  match manifests.getLast? with
  | some last =>
    if last.partition = r.partition ∧ last.windowId = toWindowId r.windowId then
      .ok (manifests.dropLast ++ [{ last with parts := last.parts ++ [r.partName] }])
    else first
  | none => first

/-- Every committed window manifest of the lake. -/
def readManifests (l : Lake) : Except LakeError (List WindowManifest) :=
  ((values l.manifests).insertionSort rowLe).foldlM collectRow []

end Duckspout
