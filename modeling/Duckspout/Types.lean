import Duckspout.Lib.OrdMap
import Mathlib.Data.String.Basic
import Mathlib.Data.Fin.Basic
import Mathlib.Order.Fin.Basic

/-! The shared vocabulary: identifiers, sequence ranges, the window manifest a lake commit carries,
    and the watermark and loss rows derived from it.

    Identifiers are opaque strings in their own types. Sequence numbers are 64-bit and unsigned.
    Window ids are dense counters from 0, and instants are Unix milliseconds; neither takes part in
    any wrapping arithmetic, so they are a natural and an integer. -/

namespace Duckspout

/-- An unsigned 64-bit integer. -/
abbrev U64 := Fin (2 ^ 64)

instance instNeZeroU64 : @NeZero ℕ Zero.ofOfNat0 (2 ^ 64) := ⟨by decide⟩

/-- The largest unsigned 64-bit value. -/
def u64Max : ℕ := 2 ^ 64 - 1

/-- `u64::saturating_add(1)`. -/
def saturatingSucc (n : ℕ) : ℕ := min (n + 1) u64Max

/-- A dataset name. -/
structure DatasetId where
  raw : String
  deriving DecidableEq, Repr

/-- A partition identity: the unit of watermarks and drain. -/
structure PartitionId where
  raw : String
  deriving DecidableEq, Repr

/-- A tenant identity. -/
structure TenantId where
  raw : String
  deriving DecidableEq, Repr

/-- The partition of a tenant's shard. -/
def PartitionId.fromTenantShard (tenant : TenantId) (shard : ℕ) : PartitionId := ⟨tenant.raw ++ "." ++ toString shard⟩

/-- A node identity, also the origin of an `(origin, seq)` range. -/
structure NodeId where
  raw : String
  deriving DecidableEq, Repr

/-- A sealed part's object name. -/
structure PartName where
  raw : String
  deriving DecidableEq, Repr

instance : LinearOrder DatasetId := LinearOrder.lift' DatasetId.raw fun ⟨_⟩ ⟨_⟩ h => by simpa using h

instance : LinearOrder PartitionId :=
  LinearOrder.lift' PartitionId.raw fun ⟨_⟩ ⟨_⟩ h => by simpa using h

instance : LinearOrder NodeId := LinearOrder.lift' NodeId.raw fun ⟨_⟩ ⟨_⟩ h => by simpa using h

instance : LinearOrder TenantId := LinearOrder.lift' TenantId.raw fun ⟨_⟩ ⟨_⟩ h => by simpa using h

instance : LinearOrder PartName := LinearOrder.lift' PartName.raw fun ⟨_⟩ ⟨_⟩ h => by simpa using h

/-- The dense per-partition window sequence number, 64-bit in the source. A window that is created has a row, and rows are
    numbered in 64 bits, so no id is out of range (`windowId_fits`). -/
abbrev WindowId := ℕ

/-- Contiguous per-origin sequence coverage, both ends inclusive. -/
structure OriginSeqRange where
  origin : NodeId
  firstSeq : U64
  lastSeq : U64
  deriving DecidableEq, Repr

/-- `n` of origin `o` lies in the range. -/
def OriginSeqRange.Has (r : OriginSeqRange) (o : NodeId) (n : ℕ) : Prop :=
  r.origin = o ∧ (r.firstSeq : ℕ) ≤ n ∧ n ≤ r.lastSeq

instance (r : OriginSeqRange) (o : NodeId) (n : ℕ) : Decidable (r.Has o n) :=
  inferInstanceAs (Decidable (r.origin = o ∧ (r.firstSeq : ℕ) ≤ n ∧ n ≤ r.lastSeq))

/-- `n` of origin `o` lies in one of the ranges of a coverage list. -/
def Covers (cov : List OriginSeqRange) (o : NodeId) (n : ℕ) : Prop := ∃ r ∈ cov, r.Has o n

instance (cov : List OriginSeqRange) (o : NodeId) (n : ℕ) : Decidable (Covers cov o n) :=
  inferInstanceAs (Decidable (∃ r ∈ cov, r.Has o n))

/-- The rows of one partition a staging commit covers. -/
structure StagedCoverage where
  partition : PartitionId
  range : OriginSeqRange
  deriving DecidableEq, Repr

/-- The window manifest carried by every lake commit. -/
structure WindowManifest where
  dataset : DatasetId
  partition : PartitionId
  windowId : WindowId
  originCoverage : List OriginSeqRange
  rows : U64
  eventTimeMinMs : ℤ
  eventTimeMaxMs : ℤ
  dedupRemoved : U64
  parts : List PartName
  deriving DecidableEq, Repr

/-- Append-observations, or keyed state changes with keep-latest semantics on the key columns. -/
inductive DatasetKind where
  | event
  | changelog
  deriving DecidableEq, Repr

/-- A dataset declaration; key columns are required of a changelog. -/
structure DatasetDeclaration where
  dataset : DatasetId
  kind : DatasetKind
  keyCols : List String
  sortKey : Option (List String)
  keyed : kind = .changelog → keyCols ≠ []

/-- A per-partition completeness watermark row. -/
structure WatermarkRow where
  partition : PartitionId
  completeThroughMs : ℤ
  deriving DecidableEq, Repr

/-- The exactly-once apply row: the highest contiguously applied sequence number. -/
structure AppliedWatermarkRow where
  partition : PartitionId
  origin : NodeId
  appliedSeq : U64
  deriving DecidableEq, Repr

/-- One exact lost `(partition, origin, range)`. -/
structure LostRange where
  partition : PartitionId
  origin : NodeId
  firstSeq : U64
  lastSeq : U64
  deriving DecidableEq, Repr

/-- A permanent loss-ledger row. -/
structure LossLedgerRow where
  range : LostRange
  declaredAtMs : ℤ
  deriving DecidableEq, Repr

end Duckspout
