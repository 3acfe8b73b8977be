import Duckspout.Naming
import Mathlib.Data.List.Dedup
import Mathlib.Data.List.MinMax
import Mathlib.Data.List.Sort

/-! The seal surface of staging (`duckspout-staging/src/seal.rs`) on a window nothing writes to: what a
    seal reads and copies, and what a coverage-guarded drop removes.

    A window is a table of staged rows. The sort order of the sealed file is left out: no function here
    reads it. -/

namespace Duckspout

/-- The identity of a staged window. -/
structure WindowKey where
  dataset : DatasetId
  partition : PartitionId
  window : WindowId
  deriving DecidableEq, Repr

/-- One value of a staged row. Instants are Unix microseconds, as the engine compares them; of every other value
    only its identity matters. -/
inductive Cell where
  | null
  | timestamp (micros : ℤ)
  | other (rendered : String)
  deriving DecidableEq, Repr

/-- One staged row: its system columns and its payload by column name. -/
structure StagedRow where
  origin : NodeId
  seq : U64
  payload : List (String × Cell)
  deriving DecidableEq, Repr

/-- The value of a payload column. -/
def StagedRow.cell (r : StagedRow) (column : String) : Cell := (r.payload.lookup column).getD .null

/-- What one seal must do. -/
structure SealRequest where
  dataset : DatasetId
  partition : PartitionId
  window : WindowId
  eventTimeColumn : String
  dedupKey : Option (List String)
  deriving DecidableEq, Repr

def SealRequest.key (r : SealRequest) : WindowKey := ⟨r.dataset, r.partition, r.window⟩

/-- A sealed part with what the manifest needs of it. -/
structure SealedPart where
  path : String
  rows : U64
  eventTimeMinMs : ℤ
  eventTimeMaxMs : ℤ
  dedupRemoved : U64
  originCoverage : List OriginSeqRange
  deriving DecidableEq, Repr

inductive SealError where
  | unknownWindow (dataset : DatasetId) (partition : PartitionId) (window : WindowId)
  | backend (text : String)
  deriving DecidableEq, Repr

/-! ### Sealing -/

/-- `seq - row_number()` beside each of an origin's sequence numbers, which are in order. -/
def runNumbers (seqs : List U64) : List (ℤ × U64) :=
  seqs.zipIdx.map fun x => ((x.1 : ℕ) - ((x.2 : ℤ) + 1), x.1)

/-- One range for each run number: the least and the greatest sequence number that has it. -/
def originRuns (origin : NodeId) (seqs : List U64) : List OriginSeqRange :=
  let numbered := runNumbers seqs
  (numbered.map (·.1)).dedup.filterMap fun run =>
    let members := (numbered.filter (·.1 = run)).map (·.2)
    match members.head?, members.getLast? with
    | some first, some last => some ⟨origin, first, last⟩
    | _, _ => none

/-- The window's coverage by origin, ordered by `(origin, first_seq)`. -/
def coverageRuns (rows : List StagedRow) : List OriginSeqRange :=
  ((rows.map (·.origin)).dedup.insertionSort (· ≤ ·)).flatMap fun origin =>
    let seqs := ((rows.filter (·.origin = origin)).map (·.seq)).insertionSort (· ≤ ·)
    (originRuns origin seqs).insertionSort (·.firstSeq ≤ ·.firstSeq)

/-- The event times of the rows that have one. -/
def eventTimes (column : String) (rows : List StagedRow) : List ℤ :=
  rows.filterMap fun r => match r.cell column with
    | .timestamp micros => some micros
    | _ => none

/-- The engine's `epoch_ms`, which truncates. -/
def epochMs (micros : ℤ) : ℤ := micros.tdiv 1000

/-- Event-time minimum and maximum in milliseconds; `(0, 0)` where there is none. The column is one of the table's: a
    statement over another is refused by the engine's binder, as any statement may fail. -/
def eventTimeBounds (column : String) (rows : List StagedRow) : ℤ × ℤ :=
  (((eventTimes column rows).min?.map epochMs).getD 0, ((eventTimes column rows).max?.map epochMs).getD 0)

/-- The order `(origin, seq)`. -/
def StagedRow.le (a b : StagedRow) : Prop := a.origin < b.origin ∨ (a.origin = b.origin ∧ a.seq ≤ b.seq)

instance : DecidableRel StagedRow.le := fun a b =>
  inferInstanceAs (Decidable (a.origin < b.origin ∨ (a.origin = b.origin ∧ a.seq ≤ b.seq)))

/-- The sealed rows: with a dedup key, of each key the first row by `(origin, seq)`. The key's columns are columns of the
    table, or the binder refuses the statement. -/
def sealedRows (dedupKey : Option (List String)) (rows : List StagedRow) : List StagedRow :=
  match dedupKey with
  | none => rows
  | some columns =>
    (rows.insertionSort StagedRow.le).foldl (fun kept r =>
      if kept.any fun k => columns.map k.cell = columns.map r.cell then kept else kept ++ [r]) []

/-- The scratch directory of sealed parts. -/
def sealScratchDir : String := "seal"

/-- A count of rows; no table has 2^64 of them. -/
def rowCount (rows : List StagedRow) : U64 := Fin.ofNat (2 ^ 64) rows.length

/-- Seals a window: the part's bookkeeping, and the rows copied to the scratch file. -/
def sealBlocking (request : SealRequest) (table : Option (List StagedRow)) :
    Except SealError (SealedPart × List StagedRow) :=
  match table with
  | none => .error (.unknownWindow request.dataset request.partition request.window)
  | some rows =>
    let sealed := sealedRows request.dedupKey rows
    let bounds := eventTimeBounds request.eventTimeColumn rows
    let name := windowTableName request.dataset request.partition request.window
    .ok ({
      path := sealScratchDir ++ "/" ++ name ++ ".parquet"
      rows := rowCount sealed
      eventTimeMinMs := bounds.1
      eventTimeMaxMs := bounds.2
      dedupRemoved := rowCount rows - rowCount sealed
      originCoverage := coverageRuns rows }, sealed)

/-! ### Dropping -/

/-- How a coverage-guarded drop ended. -/
inductive DropOutcome where
  | dropped
  | residueKept (rows : ℕ)
  | alreadyGone
  deriving DecidableEq, Repr

/-- The row's `(origin, seq)` lies in the coverage. -/
def StagedRow.CoveredBy (r : StagedRow) (covered : List OriginSeqRange) : Prop := Covers covered r.origin r.seq

instance (r : StagedRow) (covered : List OriginSeqRange) : Decidable (r.CoveredBy covered) :=
  inferInstanceAs (Decidable (Covers covered r.origin r.seq))

/-- Drops the window if every row is covered, and otherwise its covered rows. -/
def dropBlocking (covered : List OriginSeqRange) (table : Option (List StagedRow)) :
    DropOutcome × Option (List StagedRow) :=
  match table with
  | none => (.alreadyGone, none)
  | some rows =>
    let residue := rows.countP fun r => ¬ r.CoveredBy covered
    if residue = 0 then (.dropped, none)
    else (.residueKept residue, some (rows.filter fun r => ¬ r.CoveredBy covered))

/-- Only covered rows leave a table. -/
theorem coveredBy_of_drop {covered : List OriginSeqRange} {table : Option (List StagedRow)} {r : StagedRow}
    (hin : r ∈ table.getD []) (hout : r ∉ (dropBlocking covered table).2.getD []) : r.CoveredBy covered := by
  cases table with
  | none => cases hin
  | some rows =>
    simp only [Option.getD_some] at hin
    by_contra hnot
    simp only [dropBlocking] at hout
    split_ifs at hout with hres
    · rw [List.countP_eq_zero] at hres
      exact hres r hin (by simpa using hnot)
    · exact hout (List.mem_filter.mpr ⟨hin, by simpa using hnot⟩)

end Duckspout
