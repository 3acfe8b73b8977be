import Duckspout.Types
import Duckspout.Lib.Snapshot
import Mathlib.Logic.Function.Basic

/-! The lake's catalog as the committer uses it: the sidecar tables and the registered data files
    under snapshot-isolated transactions.

    Of the catalog it is assumed that a transaction works on the snapshot of its `BEGIN`, that its
    writes appear together at its `COMMIT` or not at all, and that a `COMMIT` is refused when a fence
    row it updates was updated by another commit since that snapshot. Everything else is left open: any
    statement may fail with any text, and a `COMMIT` that reports a failure may have landed. -/

namespace Duckspout

open Snapshot

/-- The largest signed 64-bit value. -/
def i64Max : ℕ := 2 ^ 63 - 1

/-- `i64::try_from(n).unwrap_or(i64::MAX)`. -/
def toI64 (n : ℕ) : ℤ := if n ≤ i64Max then n else i64Max

/-- The JSON text of a coverage column: an encoded coverage, or any other text. -/
inductive CoverageText where
  | encoded (coverage : List OriginSeqRange)
  | other (text : String)
  deriving DecidableEq, Repr

/-- A row of `duckspout_fence`. -/
structure FenceRow where
  partition : PartitionId
  lastWindow : ℤ
  deriving DecidableEq, Repr

/-- A row of `duckspout_manifests`. -/
structure ManifestRow where
  partition : PartitionId
  windowId : ℤ
  partName : PartName
  dataset : DatasetId
  rows : ℤ
  eventTimeMinMs : ℤ
  eventTimeMaxMs : ℤ
  dedupRemoved : ℤ
  originCoverage : CoverageText
  expired : Bool
  deriving DecidableEq, Repr

/-- A data file registered with a dataset's table. A deleted file stays registered, under a deletion
    record. -/
structure DataFile where
  table : String
  path : String
  deleted : Bool := false
  deriving DecidableEq, Repr

/-- The committed state of the lake. -/
structure Lake where
  fence : Table FenceRow := []
  manifests : Table ManifestRow := []
  watermarks : Table WatermarkRow := []
  files : Table DataFile := []

/-- An open transaction. -/
structure Txn where
  fence : TableTxn FenceRow
  manifests : TableTxn ManifestRow
  watermarks : TableTxn WatermarkRow
  files : TableTxn DataFile

/-- A transaction on the present snapshot. -/
def Txn.start (l : Lake) : Txn :=
  ⟨.start l.fence, .start l.manifests, .start l.watermarks, .start l.files⟩

/-- The lake after the transaction has landed. -/
def Txn.merge (x : Txn) (l : Lake) : Lake :=
  ⟨x.fence.merge l.fence, x.manifests.merge l.manifests, x.watermarks.merge l.watermarks,
    x.files.merge l.files⟩

/-- None of the fence rows the transaction updates was updated since its snapshot. -/
def Txn.fresh (x : Txn) (l : Lake) : Bool := Snapshot.fresh x.fence.snap l.fence

/-- What a manifest row is registered under. -/
def ManifestRow.key (r : ManifestRow) : PartitionId × ℤ × PartName := (r.partition, r.windowId, r.partName)

/-! ### Statements -/

/-- The statements of the committer. The ensure of a fence row is one `INSERT … WHERE NOT EXISTS`;
    its read and its insert stand apart, since two of them may read before either inserts. -/
inductive Query where
  | fenceExists (partition : PartitionId)
  | insertFence (partition : PartitionId)
  | countManifests (partition : PartitionId) (windowId : ℤ) (part : PartName)
  | addDataFiles (table path : String)
  | insertManifest (row : ManifestRow)
  | updateWatermarks (row : WatermarkRow)
  | insertWatermark (row : WatermarkRow)
  | updateFence (partition : PartitionId) (windowId : ℤ)
  | selectPart (part : PartName)
  | deleteRows (table path : String)
  | markExpired (part : PartName)
  deriving DecidableEq, Repr

/-- What a statement answers: a count of rows, a row, or nothing. -/
@[reducible] def Query.Res : Query → Type
  | .fenceExists _ => Bool
  | .countManifests .. => ℕ
  | .updateWatermarks _ => ℕ
  | .selectPart _ => DatasetId × Bool
  | _ => Unit

/-- A statement inside a transaction. `pick` chooses the row of a `LIMIT 1`. -/
def Query.exec : (q : Query) → ℕ → Txn → Except String q.Res × Txn
  | .fenceExists p, _, x => (.ok (x.fence.view.any (·.partition = p)), x)
  | .insertFence p, _, x => (.ok (), { x with fence := x.fence.insert ⟨p, -1⟩ })
  | .countManifests p w part, _, x => (.ok (x.manifests.view.countP (·.key = (p, w, part))), x)
  | .addDataFiles table path, _, x => (.ok (), { x with files := x.files.insert { table, path } })
  | .insertManifest row, _, x => (.ok (), { x with manifests := x.manifests.insert row })
  | .updateWatermarks row, _, x =>
    let watermarks := x.watermarks.update (·.partition = row.partition) fun _ => row
    (.ok (x.watermarks.view.countP (·.partition = row.partition)), { x with watermarks })
  | .insertWatermark row, _, x => (.ok (), { x with watermarks := x.watermarks.insert row })
  | .updateFence p w, _, x =>
    let fence := x.fence.update (·.partition = p) fun r => { r with lastWindow := w }
    (.ok (), { x with fence })
  | .selectPart part, pick, x =>
    let found := x.manifests.view.filter (·.partName = part)
    match found[pick % found.length]? with
    | some row => (.ok (row.dataset, row.expired), x)
    | none => (.error "Query returned no rows", x)
  | .deleteRows table path, _, x =>
    let files := x.files.update (fun f => f.table = table ∧ f.path = path) fun f => { f with deleted := true }
    (.ok (), { x with files })
  | .markExpired part, _, x =>
    let manifests := x.manifests.update (·.partName = part) fun r => { r with expired := true }
    (.ok (), { x with manifests })

/-! ### Connections -/

/-- What a connection is asked to do. -/
inductive Sql where
  | begin
  | commit
  | rollback
  | run (q : Query)
  deriving DecidableEq, Repr

@[reducible] def Sql.Res : Sql → Type
  | .run q => Except String q.Res
  | _ => Except String Unit

/-- How the catalog takes one request: whether it fails and with what text, whether a failed request
    has landed all the same, whether a refused `COMMIT` leaves the transaction open, and which row a
    `LIMIT 1` picks. -/
structure Choice where
  fails : Option String := none
  lands : Bool := false
  staysOpen : Bool := false
  pick : ℕ := 0
  deriving DecidableEq, Repr

/-- One committer: an embedded engine with its own connection. -/
abbrev CommitterId := ℕ

/-- The shared catalog and the open transaction of each connection. -/
structure Catalog where
  lake : Lake := {}
  conn : CommitterId → Option Txn := fun _ => none

def Catalog.setConn (s : Catalog) (t : CommitterId) (x : Option Txn) : Catalog :=
  { s with conn := Function.update s.conn t x }

/-- A statement outside a transaction is one of its own. -/
def Catalog.autocommit (s : Catalog) (q : Query) (pick : ℕ) : Catalog :=
  { s with lake := (q.exec pick (.start s.lake)).2.merge s.lake }

/-- One request on connection `t`. -/
def Catalog.exec (t : CommitterId) : (o : Sql) → Choice → Catalog → o.Res × Catalog
  | .begin, c, s =>
    match s.conn t, c.fails with
    | some _, _ => (.error "cannot start a transaction within a transaction", s)
    | none, some text => (.error text, s)
    | none, none => (.ok (), s.setConn t (some (.start s.lake)))
  | .rollback, c, s =>
    match s.conn t, c.fails with
    | none, _ => (.error "cannot rollback - no transaction is active", s)
    | some _, some text => (.error text, s)
    | some _, none => (.ok (), s.setConn t none)
  | .commit, c, s =>
    match s.conn t with
    | none => (.error "cannot commit - no transaction is active", s)
    | some x =>
      if x.fresh s.lake then
        match c.fails with
        | none => (.ok (), { s.setConn t none with lake := x.merge s.lake })
        | some text =>
          if c.lands then (.error text, { s.setConn t none with lake := x.merge s.lake })
          else (.error text, if c.staysOpen then s else s.setConn t none)
      else
        (.error (c.fails.getD "Transaction conflict"), if c.staysOpen then s else s.setConn t none)
  | .run q, c, s =>
    match s.conn t, c.fails with
    | some x, none => ((q.exec c.pick x).1, s.setConn t (some (q.exec c.pick x).2))
    | some _, some text => (.error text, s)
    | none, none => ((q.exec c.pick (.start s.lake)).1, s.autocommit q c.pick)
    | none, some text => (.error text, if c.lands then s.autocommit q c.pick else s)

end Duckspout
