import Duckspout.Lib.Fallible
import Duckspout.Lib.Tally
import Duckspout.Staging.Seal
import Mathlib.Algebra.Group.Fin.Basic
import Mathlib.Data.Prod.Lex

/-! The staging engine (`duckspout-staging/src/engine.rs`): a persistent database behind one write
    connection, with mirrors of its bookkeeping tables in memory.

    A transaction holds the connection and works on a view of its own until it commits. A statement that
    goes wrong has no effect: one whose input the database refuses leaves the transaction as it was, and
    any other failure aborts it, so that only a rollback goes through. The columns of a window's table
    are left out, and of an Arrow batch only its rows, its fields and its size are kept. -/

namespace Duckspout

/-! ### Tables -/

/-- A live window: its table and the bytes accounted to it. -/
structure WindowMeta where
  table : String
  bytes : U64
  deriving DecidableEq, Repr

abbrev WindowRegistry := Finmap fun _ : WindowKey => WindowMeta

/-- A row of the dedup window. -/
structure DedupRow where
  tenant : TenantId
  dedupKey : String
  acked : Bool
  outcome : String
  createdWallMs : ℤ
  deriving DecidableEq, Repr

/-- The hot database. No statement reads the last field: it has every row ever put into a window. -/
structure HotDb where
  applied : PartitionId → NodeId → Option U64 := fun _ _ => none
  windows : WindowRegistry := ∅
  windowHw : DatasetId → PartitionId → Option WindowId := fun _ _ => none
  dedup : List DedupRow := []
  tables : String → Option (List StagedRow) := fun _ => none
  everStaged : List (WindowKey × StagedRow) := []

/-- The mirrors: the applied sequences of this node's origin, the live windows, the highest window ever
    created, and the bytes of all live windows. -/
structure WriterInner where
  applied : PartitionId → Option U64
  windows : WindowRegistry
  windowHw : DatasetId → PartitionId → Option WindowId
  stagedBytes : U64

def loadApplied (db : HotDb) (origin : NodeId) : PartitionId → Option U64 := fun p => db.applied p origin

def loadWindows (db : HotDb) : WindowRegistry := db.windows

def loadWindowHw (db : HotDb) : DatasetId → PartitionId → Option WindowId := db.windowHw

/-- The sum of the bytes, in 64-bit arithmetic. -/
def WindowRegistry.stagedBytes (windows : WindowRegistry) : U64 := Tally.total WindowMeta.bytes windows

/-- Opens the database. -/
def WriterInner.load (db : HotDb) (origin : NodeId) : WriterInner where
  applied := loadApplied db origin
  windows := loadWindows db
  windowHw := loadWindowHw db
  stagedBytes := (loadWindows db).stagedBytes

/-! ### Batches -/

/-- The Arrow types of the staging subset, and any other. -/
inductive DataType where
  | boolean
  | int8
  | int16
  | int32
  | int64
  | uint8
  | uint16
  | uint32
  | uint64
  | float32
  | float64
  | utf8
  | binary
  | timestampMicros
  | other (rendered : String)
  deriving DecidableEq, Repr

/-- The column type of a payload type, if it is in the subset. -/
def stagingSqlType : DataType → Option String
  | .boolean => some "BOOLEAN"
  | .int8 => some "TINYINT"
  | .int16 => some "SMALLINT"
  | .int32 => some "INTEGER"
  | .int64 => some "BIGINT"
  | .uint8 => some "UTINYINT"
  | .uint16 => some "USMALLINT"
  | .uint32 => some "UINTEGER"
  | .uint64 => some "UBIGINT"
  | .float32 => some "FLOAT"
  | .float64 => some "DOUBLE"
  | .utf8 => some "VARCHAR"
  | .binary => some "BLOB"
  | .timestampMicros => some "TIMESTAMP"
  | .other _ => none

structure Field where
  name : String
  datatype : DataType
  deriving DecidableEq, Repr

/-- A decoded batch: its fields, its rows by column name, and the size of its content, which Arrow reports
    for every valid batch. -/
structure RecordBatch where
  fields : List Field
  rows : List (List (String × Cell))
  contentBytes : U64
  deriving DecidableEq, Repr

/-- The payload with the system columns: the origin, and the sequence numbers from `first` on. -/
def augmentBatch (batch : RecordBatch) (origin : NodeId) (first : ℕ) : List StagedRow :=
  batch.rows.mapIdx fun i payload => ⟨origin, Fin.ofNat (2 ^ 64) (first + i), payload⟩

/-! ### Statements -/

inductive StagingError where
  | engine (text : String)
  | unsupportedColumnType (column datatype : String)
  | reservedColumn (column : String)
  | seqExhausted (partition : PartitionId)
  | corrupt (text : String)
  deriving DecidableEq, Repr

/-- The statements of a staging transaction. -/
inductive Stmt where
  | createTable
  | insertWindow
  | windowHw
  | appender
  | stagedBytes
  | applied (partition : PartitionId)
  | commit
  | dedupLookup
  | dedupInsert
  | dedupMarkAcked
  | dedupExpire
  | dedupCount
  | dedupEvict
  deriving DecidableEq, Repr

/-- Its text depends on the caller's schema, so the database may refuse it before it runs. -/
def Stmt.binds : Stmt → Bool
  | .createTable | .appender => true
  | _ => false

/-- How a statement goes wrong. -/
structure Fault where
  text : String
  refused : Bool := false
  deriving DecidableEq, Repr

/-- The statements that go wrong. -/
abbrev Faults := Stmt → Option Fault

/-- One open transaction, with its view of the database. -/
structure StageTxn where
  writer : WriterInner
  origin : NodeId
  pendingApplied : OrdMap PartitionId (U64 × U64) := ∅
  pendingWindows : List (WindowKey × String) := []
  pendingBytes : List (WindowKey × U64) := []
  finished : Bool := false
  view : HotDb
  aborted : Bool := false

abbrev TxnM := Fallible StagingError StageTxn

/-- Runs a statement, or lets it go wrong. -/
def StageTxn.execute (faults : Faults) (stmt : Stmt) (effect : HotDb → Except Fault HotDb) : TxnM PUnit := do
  let t ← get
  if t.aborted then
    throw (.engine "Current transaction is aborted (please ROLLBACK)")
  else
    match (faults stmt).elim (effect t.view) .error with
    | .ok view => modify fun t => { t with view }
    | .error fault =>
      modify fun t => { t with aborted := !(fault.refused && stmt.binds) }
      throw (.engine fault.text)

namespace HotDb

def createTable (table : String) (db : HotDb) : Except Fault HotDb :=
  if (db.tables table).isSome then .error ⟨"Table with name " ++ table ++ " already exists!", true⟩
  else .ok { db with tables := Function.update db.tables table (some []) }

def insertWindow (key : WindowKey) (table : String) (db : HotDb) : Except Fault HotDb :=
  if key ∈ db.windows then .error { text := "Duplicate key violates primary key constraint" }
  else .ok { db with windows := db.windows.insert key ⟨table, 0⟩ }

end HotDb

/-- The higher of the recorded window id, if any, and the new one. -/
def raiseHw (hw : DatasetId → PartitionId → Option WindowId) (key : WindowKey) :
    DatasetId → PartitionId → Option WindowId :=
  fun d p => if d = key.dataset ∧ p = key.partition then
      some (match hw d p with
        | some w => max w key.window
        | none => key.window)
    else hw d p

/-- Adds to the bytes of a window, if it is registered. -/
def addBytes (windows : WindowRegistry) (key : WindowKey) (bytes : U64) : WindowRegistry :=
  match windows.lookup key with
  | some m => windows.insert key { m with bytes := m.bytes + bytes }
  | none => windows

namespace HotDb

def upsertHw (key : WindowKey) (db : HotDb) : Except Fault HotDb :=
  .ok { db with windowHw := raiseHw db.windowHw key }

def appendRows (key : WindowKey) (table : String) (rows : List StagedRow) (db : HotDb) : Except Fault HotDb :=
  match db.tables table with
  | none => .error ⟨"Table with name " ++ table ++ " does not exist!", true⟩
  | some old => .ok { db with
      tables := Function.update db.tables table (some (old ++ rows))
      everStaged := db.everStaged ++ rows.map (key, ·) }

/-- The column does not wrap: the statement fails where the sum leaves the range. -/
def updateBytes (key : WindowKey) (bytes : U64) (db : HotDb) : Except Fault HotDb :=
  match db.windows.lookup key with
  | none => .ok db
  | some m =>
    if (m.bytes : ℕ) + bytes ≤ u64Max then .ok { db with windows := addBytes db.windows key bytes }
    else .error { text := "Overflow in addition of UINT64" }

def upsertApplied (partition : PartitionId) (origin : NodeId) (last : U64) (db : HotDb) : Except Fault HotDb :=
  .ok { db with applied := fun p o => if p = partition ∧ o = origin then some last else db.applied p o }

end HotDb

/-! ### Transactions -/

def sysColOrigin : String := "origin"

def sysColSeq : String := "seq"

/-- The check of one payload column. -/
def StageTxn.checkField (field : Field) : TxnM PUnit :=
  if field.name.toLower = sysColOrigin ∨ field.name.toLower = sysColSeq then
    throw (.reservedColumn field.name)
  else
    match stagingSqlType field.datatype, field.datatype with
    | none, .other rendered => throw (.unsupportedColumnType field.name rendered)
    | _, _ => pure ⟨⟩

namespace StageTxn

/-- The table of a window that is live or created in this transaction. -/
def table? (t : StageTxn) (key : WindowKey) : Option String :=
  match t.writer.windows.lookup key with
  | some existing => some existing.table
  | none => (t.pendingWindows.find? (·.1 = key)).map (·.2)

/-- The last sequence assigned in the partition. -/
def base (t : StageTxn) (partition : PartitionId) : U64 :=
  match t.pendingApplied[partition]? with
  | some (_, last) => last
  | none => (t.writer.applied partition).getD 0

/-- The coverage a commit returns. -/
def pendingCoverage (t : StageTxn) : List StagedCoverage :=
  t.pendingApplied.toList.map fun x => ⟨x.1, t.origin, x.2.1, x.2.2⟩

/-- The mirrors with what the transaction did. -/
def fold (t : StageTxn) : WriterInner where
  windowHw := t.pendingWindows.foldl (fun hw x => raiseHw hw x.1) t.writer.windowHw
  windows := t.pendingBytes.foldl (fun windows x => addBytes windows x.1 x.2)
    (t.pendingWindows.foldl (fun windows x => windows.insert x.1 ⟨x.2, 0⟩) t.writer.windows)
  stagedBytes := t.pendingBytes.foldl (fun bytes x => bytes + x.2) t.writer.stagedBytes
  applied := t.pendingApplied.toList.foldl (fun applied x => Function.update applied x.1 (some x.2.2)) t.writer.applied

end StageTxn

/-- The table of a window, created on first write. -/
def StageTxn.ensureWindow (faults : Faults) (key : WindowKey) (fields : List Field) : TxnM String := do
  let t ← get
  match t.table? key with
  | some table => return table
  | none =>
    let table := windowTableName key.dataset key.partition key.window
    fields.forM checkField
    execute faults .createTable (HotDb.createTable table)
    execute faults .insertWindow (HotDb.insertWindow key table)
    execute faults .windowHw (HotDb.upsertHw key)
    modify fun t => { t with pendingWindows := t.pendingWindows ++ [(key, table)] }
    return table

/-- Appends a batch to a window under the next sequence numbers of its partition. -/
def StageTxn.append (faults : Faults) (key : WindowKey) (batch : RecordBatch) : TxnM PUnit := do
  let table ← ensureWindow faults key batch.fields
  if batch.rows.length = 0 then
    return
  let t ← get
  let base : ℕ := t.base key.partition
  if u64Max < base + 1 ∨ u64Max < base + batch.rows.length then
    throw (.seqExhausted key.partition)
  let first := Fin.ofNat (2 ^ 64) (base + 1)
  let last := Fin.ofNat (2 ^ 64) (base + batch.rows.length)
  execute faults .appender (HotDb.appendRows key table (augmentBatch batch t.origin first))
  execute faults .stagedBytes (HotDb.updateBytes key batch.contentBytes)
  modify fun t => { t with
    pendingBytes := Tally.add key batch.contentBytes t.pendingBytes
    pendingApplied := t.pendingApplied.insert key.partition
      (match t.pendingApplied[key.partition]? with
        | some (pendingFirst, _) => (pendingFirst, last)
        | none => (first, last)) }

/-- Advances the applied sequences and commits; the mirrors follow. -/
def StageTxn.commit (faults : Faults) : TxnM (List StagedCoverage) := do
  let t ← get
  t.pendingApplied.toList.forM fun x => execute faults (.applied x.1) (HotDb.upsertApplied x.1 t.origin x.2.2)
  execute faults .commit .ok
  modify fun t => { t with finished := true, writer := t.fold }
  return t.pendingCoverage

/-! ### Rules -/

section Rules

open Fallible

variable {faults : Faults} {stmt : Stmt} {effect : HotDb → Except Fault HotDb} {t : StageTxn}
  {E : StagingError → StageTxn → Prop}

/-- A statement takes effect, or leaves the transaction as it was, or aborts it. -/
theorem wp_execute {Q : PUnit → StageTxn → Prop}
    (hok : t.aborted = false → ∀ view, effect t.view = .ok view → Q ⟨⟩ { t with view })
    (hsame : t.aborted = true ∨ stmt.binds = true → ∀ e, E e t)
    (haborts : t.aborted = false → ∀ e, E e { t with aborted := true }) : Wp (StageTxn.execute faults stmt effect) Q E t := by
  refine wp_bind (wp_get ?_)
  rcases ht : t.aborted with _ | _
  · simp only [Bool.false_eq_true, if_false]
    split
    next view heq =>
      refine wp_modify (hok ht view ?_)
      rcases hf : faults stmt with _ | fault
      · rw [hf] at heq
        exact heq
      · rw [hf] at heq
        cases heq
    next fault heq =>
      refine wp_bind (wp_modify (wp_throw ?_))
      rcases hrefused : fault.refused && stmt.binds with _ | _
      · exact haborts ht _
      · have hsameTxn : ({ t with aborted := !true } : StageTxn) = t := by rw [Bool.not_true, ← ht]
        rw [hsameTxn]
        exact hsame (.inr (Bool.and_eq_true_iff.mp hrefused).2) _
  · exact wp_throw (hsame (.inl ht) _)

/-- A statement that reads leaves the transaction as it is. -/
theorem wp_executeRead {Q : PUnit → StageTxn → Prop} (hQ : Q ⟨⟩ t) (hE : ∀ e aborted, E e { t with aborted }) :
    Wp (StageTxn.execute faults stmt .ok) Q E t := by
  refine wp_execute (fun _ view hview => ?_) (fun _ e => hE e t.aborted) fun _ e => hE e true
  cases hview
  exact hQ

/-- The check of the columns changes nothing. -/
theorem wp_checkFields {fields : List Field} {Q : PUnit → StageTxn → Prop} (hQ : Q ⟨⟩ t) (hE : ∀ e, E e t) :
    Wp (fields.forM StageTxn.checkField) Q E t := by
  refine wp_mono (Q := fun _ s => s = t) (E := fun _ s => s = t) (fun _ s hs => hs ▸ hQ) (fun e s hs => hs ▸ hE e) ?_
  refine wp_forM (I := fun _ s => s = t) (fun _ field s hs => ?_) fields [] rfl
  simp only [StageTxn.checkField]
  split_ifs
  · exact wp_throw hs
  · split
    · exact wp_throw hs
    · exact wp_pure hs

/-- The applied table with the rows of a loop over the pending sequences. -/
def upsertAll (origin : NodeId) (applied : PartitionId → NodeId → Option U64) (l : List (PartitionId × U64 × U64)) :
    PartitionId → NodeId → Option U64 :=
  l.foldl (fun applied x p o => if p = x.1 ∧ o = origin then some x.2.2 else applied p o) applied

/-- What a commit leaves: the view with the applied sequences, and the folded mirrors. -/
structure StageTxn.Finishes (t t' : StageTxn) : Prop where
  finished : t'.finished = true
  aborted : t.aborted = false
  writer : t'.writer = t.fold
  view : t'.view = { t.view with applied := upsertAll t.origin t.view.applied t.pendingApplied.toList }

/-- The transaction is open over these mirrors. -/
structure Held (writer : WriterInner) (t : StageTxn) : Prop where
  finished : t.finished = false
  writer : t.writer = writer

/-- A commit finishes the transaction, or leaves it aborted. -/
theorem wp_commitTxn (faults : Faults) (t : StageTxn) :
    Wp (StageTxn.commit faults) (fun coverage t' => coverage = t.pendingCoverage ∧ t.Finishes t')
      (fun _ t' => ∃ view, t' = { t with view, aborted := true }) t := by
  have hdown : ∀ (stmt : Stmt) view, t.aborted = true ∨ stmt.binds = true → stmt.binds = false →
      ∃ view', ({ t with view } : StageTxn) = { t with view := view', aborted := true } := by
    intro stmt view hbad hstmt
    rw [hstmt] at hbad
    exact ⟨view, by rw [← hbad.resolve_right (by decide)]⟩
  refine wp_bind (wp_get (wp_bind ?_))
  -- after some of the partitions, the view has their applied sequences
  have hround : ∀ done x s, s = { t with view := { t.view with applied := upsertAll t.origin t.view.applied done } } →
      Wp (StageTxn.execute faults (.applied x.1) (HotDb.upsertApplied x.1 t.origin x.2.2))
        (fun _ s' => s' = { t with view := { t.view with
          applied := upsertAll t.origin t.view.applied (done ++ [x]) } })
        (fun _ t' => ∃ view, t' = { t with view, aborted := true }) s := by
    rintro done x s rfl
    refine wp_execute (fun _ view hview => ?_) (fun hbad _ => hdown _ _ hbad rfl) fun _ _ => ⟨_, rfl⟩
    cases hview
    simp only [upsertAll, List.foldl_append, List.foldl_cons, List.foldl_nil]
  refine wp_mono ?_ (fun _ _ ht => ht) (wp_forM hround t.pendingApplied.toList [] rfl)
  rintro _ s rfl
  refine wp_bind (wp_execute (fun hup view hview => ?_) (fun hbad _ => hdown _ _ hbad rfl) fun _ _ => ⟨_, rfl⟩)
  cases hview
  exact ⟨rfl, rfl, hup, rfl, rfl⟩

end Rules

/-! ### The dedup window -/

/-- `i64::saturating_sub`. -/
def saturatingSub (a b : ℤ) : ℤ := max (-(2 ^ 63)) (min (2 ^ 63 - 1) (a - b))

/-- One entry as the lookup reads it. -/
structure DedupEntry where
  acked : Bool
  outcomeJson : String
  deriving DecidableEq, Repr

/-- The row is the one of the tenant and the key. -/
def DedupRow.For (row : DedupRow) (tenant : TenantId) (dedupKey : String) : Prop :=
  row.tenant = tenant ∧ row.dedupKey = dedupKey

instance (row : DedupRow) (tenant : TenantId) (dedupKey : String) : Decidable (row.For tenant dedupKey) :=
  inferInstanceAs (Decidable (row.tenant = tenant ∧ row.dedupKey = dedupKey))

/-- The entry of a key; one created before the cutoff reads as absent. -/
def StageTxn.dedupLookup (faults : Faults) (tenant : TenantId) (dedupKey : String) (minCreatedWallMs : ℤ) :
    TxnM (Option DedupEntry) := do
  execute faults .dedupLookup .ok
  let t ← get
  return (t.view.dedup.find? fun row => row.For tenant dedupKey ∧ minCreatedWallMs ≤ row.createdWallMs).map
    fun row => ⟨row.acked, row.outcome⟩

/-- A row inserted, or put in the place of the one with its key. -/
def upsertDedup (row : DedupRow) (rows : List DedupRow) : List DedupRow :=
  if rows.any fun r => r.For row.tenant row.dedupKey then
    rows.map fun r => if r.For row.tenant row.dedupKey then row else r
  else rows ++ [row]

def StageTxn.dedupInsert (faults : Faults) (row : DedupRow) : TxnM PUnit :=
  execute faults .dedupInsert fun db => .ok { db with dedup := upsertDedup row db.dedup }

def StageTxn.dedupMarkAcked (faults : Faults) (tenant : TenantId) (dedupKey : String) : TxnM PUnit :=
  execute faults .dedupMarkAcked fun db =>
    .ok { db with dedup := db.dedup.map fun r => if r.For tenant dedupKey then { r with acked := true } else r }

/-- The order among entries of one instant, which the query leaves to the database: by these ranks, then by key. -/
abbrev TieOrder := TenantId → String → ℕ

/-- What the entries are ordered by, the oldest first. -/
def DedupRow.age (ties : TieOrder) (row : DedupRow) : ℤ ×ₗ ℕ ×ₗ TenantId ×ₗ String :=
  toLex (row.createdWallMs, toLex (ties row.tenant row.dedupKey, toLex (row.tenant, row.dedupKey)))

/-- The rows without the `excess` oldest ones. -/
def evictOldest (ties : TieOrder) (excess : ℕ) (rows : List DedupRow) : List DedupRow :=
  let oldest := (rows.insertionSort (·.age ties ≤ ·.age ties)).take excess
  rows.filter fun r => ¬ oldest.any fun o => r.For o.tenant o.dedupKey

/-- Drops what is past its time to live, then the oldest beyond the cap; answers how many the cap took. -/
def StageTxn.dedupEvict (faults : Faults) (ties : TieOrder) (wallNowMs ttlMs : ℤ) (maxEntries : U64) : TxnM ℕ := do
  let cutoff := saturatingSub wallNowMs ttlMs
  execute faults .dedupExpire fun db => .ok { db with dedup := db.dedup.filter fun r => ¬ r.createdWallMs < cutoff }
  execute faults .dedupCount .ok
  let t ← get
  let count := t.view.dedup.length
  if count ≤ maxEntries then
    return 0
  let excess := count - maxEntries
  execute faults .dedupEvict fun db => .ok { db with dedup := evictOldest ties excess db.dedup }
  let t' ← get
  return count - t'.view.dedup.length

/-! ### The engine -/

/-- The committed database, the mirrors, and the open transaction, which holds the write connection. -/
structure StagingEngine where
  db : HotDb
  writer : WriterInner
  origin : NodeId
  txn : Option StageTxn := none

namespace StagingEngine

/-- Opens the database under an origin. -/
def openDb (origin : NodeId) (db : HotDb) : StagingEngine := ⟨db, .load db origin, origin, none⟩

def begin (e : StagingEngine) : StageTxn where
  writer := e.writer
  origin := e.origin
  view := e.db

/-- A transaction is over: what it did stays if it has committed, and is rolled back otherwise. -/
def close (e : StagingEngine) (t : StageTxn) : StagingEngine :=
  { e with db := if t.finished then t.view else e.db, writer := t.writer, txn := none }

/-- The body of a window's drop, in one transaction. -/
def dropWindowTxn (fault : Option String) (table : String) (key : WindowKey) (db : HotDb) : Except String HotDb :=
  match fault with
  | some text => .error text
  | none =>
    if (db.tables table).isNone then .error ("Table with name " ++ table ++ " does not exist!")
    else .ok { db with tables := Function.update db.tables table none, windows := db.windows.erase key }

/-- Drops a window and its registry row; `false` where it is not registered. -/
def dropWindow (e : StagingEngine) (fault : Option String) (key : WindowKey) :
    Except StagingError Bool × StagingEngine :=
  match e.writer.windows.lookup key with
  | none => (.ok false, e)
  | some m =>
    match dropWindowTxn fault m.table key e.db with
    | .error text => (.error (.engine text), e)
    | .ok db => (.ok true, { e with
        db
        writer := { e.writer with
          windows := e.writer.windows.erase key
          stagedBytes := e.writer.stagedBytes - m.bytes } })

/-- Deletes the covered rows of a table. -/
def deleteCoveredRows (e : StagingEngine) (fault : Option String) (table : String) (covered : List OriginSeqRange) :
    Except StagingError Unit × StagingEngine :=
  match fault, e.db.tables table with
  | some text, _ => (.error (.engine text), e)
  | none, none => (.error (.engine ("Table with name " ++ table ++ " does not exist!")), e)
  | none, some rows => (.ok (), { e with
      db := { e.db with
        tables := Function.update e.db.tables table (some (rows.filter fun r => ¬ r.CoveredBy covered)) } })

end StagingEngine

end Duckspout
