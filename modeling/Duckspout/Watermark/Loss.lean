import Duckspout.Watermark.Reconstruct
import Mathlib.Data.List.MinMax

/-! The guards of the `DeclareLoss` ceremony (`duckspout-watermark/src/loss.rs`).

    A live replica's advertised coverage is the prefix `1..=replicatedThru` of one origin's sequence
    within one partition, so the union of several is the longest of them, and the guard compares that
    one bound with the start of each requested range. What the guard lets through is then ledgered row
    by row with `recordLoss`. -/

namespace Duckspout

open LedgerOp

/-- The ceremony's request; the consent is a field, not a default. -/
structure DeclareLossRequest where
  ranges : List LostRange
  acceptDataLoss : Bool
  deriving DecidableEq, Repr

/-- One live replica's advertised coverage of one origin's sequence within a partition. -/
structure ReplicaCoverage where
  node : NodeId
  partition : PartitionId
  origin : NodeId
  replicatedThru : U64
  deriving DecidableEq, Repr

/-- Why a declaration is refused; one refused range refuses the whole request. -/
inductive LossRefusal where
  | consentNotGiven
  | emptyRequest
  | invalidRange (index : ℕ) (partition : PartitionId) (origin : NodeId) (firstSeq lastSeq : U64)
  | stillRecoverable (index : ℕ) (partition : PartitionId) (origin : NodeId) (firstSeq lastSeq : U64)
      (coveringNode : NodeId) (coveringThru : U64)
  deriving DecidableEq, Repr

/-- `max_by_key(|c| c.replicated_thru)`: of several greatest, the last. -/
def furthest (coverage : List ReplicaCoverage) : Option ReplicaCoverage :=
  coverage.reverse.argmax (·.replicatedThru)

/-- The live entry that reaches furthest for the range's own `(partition, origin)`. -/
def covering (live : List ReplicaCoverage) (range : LostRange) : Option ReplicaCoverage :=
  furthest (live.filter fun c => c.partition = range.partition ∧ c.origin = range.origin)

/-- One range of the request. -/
def checkRange (live : List ReplicaCoverage) (index : ℕ) (range : LostRange) : Except LossRefusal Unit :=
  if range.firstSeq = 0 ∨ range.firstSeq > range.lastSeq then
    .error (.invalidRange index range.partition range.origin range.firstSeq range.lastSeq)
  else
    match covering live range with
    | some c =>
      if c.replicatedThru ≥ range.firstSeq then
        .error (.stillRecoverable index range.partition range.origin range.firstSeq range.lastSeq
          c.node c.replicatedThru)
      else .ok ()
    | none => .ok ()

/-- The ranges of the request from position `index` on. -/
def checkRanges (live : List ReplicaCoverage) : ℕ → List LostRange → Except LossRefusal Unit
  | _, [] => .ok ()
  | index, range :: rest => do
    checkRange live index range
    checkRanges live (index + 1) rest

def checkDeclareLoss (request : DeclareLossRequest) (live : List ReplicaCoverage) :
    Except LossRefusal Unit :=
  if request.acceptDataLoss = false then .error .consentNotGiven
  else if request.ranges = [] then .error .emptyRequest
  else checkRanges live 0 request.ranges

/-! ### What the replicas hold -/

/-- `n` is one of the range's sequence numbers. -/
def LostRange.Names (r : LostRange) (n : ℕ) : Prop := (r.firstSeq : ℕ) ≤ n ∧ n ≤ r.lastSeq

/-- Some live replica's prefix of the `(partition, origin)` contains `n`. -/
def HeldBy (live : List ReplicaCoverage) (p : PartitionId) (o : NodeId) (n : ℕ) : Prop :=
  ∃ c ∈ live, c.partition = p ∧ c.origin = o ∧ 1 ≤ n ∧ n ≤ c.replicatedThru

/-- The range is one a loss may be declared on: 1-based, upright and held by nobody. -/
structure Declarable (live : List ReplicaCoverage) (r : LostRange) : Prop where
  valid : OriginCoverage.ValidRange r.seqRange
  unheld : ∀ n, r.Names n → ¬ HeldBy live r.partition r.origin n

variable {live : List ReplicaCoverage} {r : LostRange}

/-- The entry the guard looks at bounds every entry of the same `(partition, origin)`. -/
theorem covering_spec (live : List ReplicaCoverage) (r : LostRange) :
    (∀ c, covering live r = some c →
      (c ∈ live ∧ c.partition = r.partition ∧ c.origin = r.origin) ∧
      ∀ d ∈ live, d.partition = r.partition → d.origin = r.origin → d.replicatedThru ≤ c.replicatedThru) ∧
    (covering live r = none → ∀ d ∈ live, d.partition = r.partition → d.origin ≠ r.origin) := by
  constructor
  · intro c hc
    refine ⟨?_, fun d hd hp ho => ?_⟩
    · have hmem := List.argmax_mem hc
      simpa using hmem
    · refine List.le_of_mem_argmax (f := ReplicaCoverage.replicatedThru) ?_ hc
      simp [hd, hp, ho]
  · intro hnone d hd hp ho
    have hempty := List.argmax_eq_none.mp hnone
    rw [List.reverse_eq_nil_iff, List.filter_eq_nil_iff] at hempty
    exact hempty d hd (by simp [hp, ho])

/-- A prefix that reaches into a range holds the range's first number, and one that holds any number
    of it reaches its start. -/
theorem unheld_iff (hv : OriginCoverage.ValidRange r.seqRange) :
    (∀ n, r.Names n → ¬ HeldBy live r.partition r.origin n) ↔
      ∀ c ∈ live, c.partition = r.partition → c.origin = r.origin → c.replicatedThru < r.firstSeq := by
  constructor
  · intro h c hc hp ho
    by_contra hle
    have hreach : (r.firstSeq : ℕ) ≤ c.replicatedThru := not_lt.mp hle
    exact h r.firstSeq ⟨le_rfl, hv.2⟩ ⟨c, hc, hp, ho, hv.1, hreach⟩
  · rintro h n ⟨hn, -⟩ ⟨c, hc, hp, ho, -, hthru⟩
    have hlt : (c.replicatedThru : ℕ) < r.firstSeq := h c hc hp ho
    omega

theorem checkRange_ok (index : ℕ) : checkRange live index r = .ok () ↔ Declarable live r := by
  have hseqs : (¬ (r.firstSeq = 0 ∨ r.firstSeq > r.lastSeq)) ↔ OriginCoverage.ValidRange r.seqRange := by
    rw [LostRange.seqRange, ← checkSeqs_ok (o := r.origin), checkSeqs]
    split <;> simp [*]
  by_cases hv : OriginCoverage.ValidRange r.seqRange
  · have hiff : Declarable live r ↔
        ∀ c ∈ live, c.partition = r.partition → c.origin = r.origin → c.replicatedThru < r.firstSeq :=
      ⟨fun h => (unheld_iff hv).mp h.unheld, fun h => ⟨hv, (unheld_iff hv).mpr h⟩⟩
    obtain ⟨hsome, hnone⟩ := covering_spec live r
    rw [checkRange, if_neg (hseqs.mpr hv), hiff]
    cases hc : covering live r with
    | none =>
      have hall := hnone hc
      simp only [true_iff]
      exact fun d hd hp ho => absurd ho (hall d hd hp)
    | some c =>
      obtain ⟨⟨hmem, hp, ho⟩, hmax⟩ := hsome c hc
      by_cases hreach : c.replicatedThru ≥ r.firstSeq
      · simp only [if_pos hreach, reduceCtorEq, false_iff]
        exact fun h => absurd (h c hmem hp ho) (not_lt.mpr hreach)
      · simp only [if_neg hreach, true_iff]
        exact fun d hd hdp hdo => lt_of_le_of_lt (hmax d hd hdp hdo) (not_le.mp hreach)
  · rw [checkRange, if_pos (not_not.mp fun h => hv (hseqs.mp h))]
    simp only [reduceCtorEq, false_iff]
    exact fun h => hv h.valid

theorem checkRanges_ok : ∀ (ranges : List LostRange) (index : ℕ),
    checkRanges live index ranges = .ok () ↔ ∀ r ∈ ranges, Declarable live r
  | [], _ => by simp [checkRanges]
  | range :: rest, index => by
    have ih := checkRanges_ok rest (index + 1)
    rw [List.forall_mem_cons, ← ih, ← checkRange_ok index, checkRanges]
    cases checkRange live index range with
    | ok _ => simp [bind, Except.bind]
    | error e => simp [bind, Except.bind]

theorem checkDeclareLoss_ok (request : DeclareLossRequest) (live : List ReplicaCoverage) :
    checkDeclareLoss request live = .ok () ↔
      request.acceptDataLoss = true ∧ request.ranges ≠ [] ∧ ∀ r ∈ request.ranges, Declarable live r := by
  rw [checkDeclareLoss]
  cases request.acceptDataLoss with
  | false => simp
  | true =>
    by_cases hne : request.ranges = []
    · simp [hne]
    · rw [if_neg (by simp), if_neg hne, checkRanges_ok]
      simp [hne]

/-! ### Ledgering an accepted request -/

/-- Rows with valid ranges are all accepted, one after the other. -/
theorem accepted_losses : ∀ (rows : List LossLedgerRow) {ledger : WatermarkLedger} {ms : List WindowManifest}
    {ls : List LossLedgerRow}, Represents ledger ms ls →
    (∀ row ∈ rows, OriginCoverage.ValidRange row.range.seqRange) →
    accepted ledger (rows.map .loss) = rows.map .loss
  | [], _, _, _, _, _ => rfl
  | row :: rest, ledger, ms, ls, h, hv => by
    obtain ⟨next, heq, hnext⟩ := (recordLoss_spec h row).1 (hv row (List.mem_cons_self ..))
    have ih := accepted_losses rest hnext fun r hr => hv r (List.mem_cons_of_mem _ hr)
    rw [List.map_cons, accepted, apply, heq]
    simp only [ih]

theorem losses_map (rows : List LossLedgerRow) : LedgerOp.losses (rows.map .loss) = rows := by
  simp [LedgerOp.losses, List.filterMap_map]

/-- A declaration is refused exactly when consent, a range or a live holder stands in the way; an
    accepted one can be ledgered in any order on any ledger, and none of its numbers blocks the
    watermark from then on. -/
theorem declareLoss_exact (request : DeclareLossRequest) (live : List ReplicaCoverage) :
    (checkDeclareLoss request live = .ok () ↔
      request.acceptDataLoss = true ∧ request.ranges ≠ [] ∧
      ∀ r ∈ request.ranges, 1 ≤ (r.firstSeq : ℕ) ∧ (r.firstSeq : ℕ) ≤ r.lastSeq ∧
        ∀ n, r.Names n → ¬ HeldBy live r.partition r.origin n) ∧
    (checkDeclareLoss request live = .ok () →
      ∀ (ops : List LedgerOp) (rows : List LossLedgerRow), (rows.map (·.range)).Perm request.ranges →
        accepted (run {} ops) (rows.map .loss) = rows.map .loss ∧
        ∀ (more : List LedgerOp), ∀ r ∈ request.ranges, ∀ n, r.Names n →
          ∀ g ∈ (run {} (ops ++ rows.map .loss ++ more)).blockingGaps r.partition,
            ¬ (g.1 = r.origin ∧ g.2.1 ≤ n ∧ n ≤ g.2.2)) := by
  have hdecl : ∀ r, Declarable live r ↔ 1 ≤ (r.firstSeq : ℕ) ∧ (r.firstSeq : ℕ) ≤ r.lastSeq ∧
      ∀ n, r.Names n → ¬ HeldBy live r.partition r.origin n :=
    fun r => ⟨fun h => ⟨h.valid.1, h.valid.2, h.unheld⟩, fun h => ⟨⟨h.1, h.2.1⟩, h.2.2⟩⟩
  refine ⟨by simp only [checkDeclareLoss_ok, hdecl], fun hok ops rows hperm => ?_⟩
  obtain ⟨-, -, hall⟩ := (checkDeclareLoss_ok request live).mp hok
  have hvalid : ∀ row ∈ rows, OriginCoverage.ValidRange row.range.seqRange := fun row hrow =>
    (hall row.range (hperm.subset (List.mem_map_of_mem hrow))).valid
  have hacc := accepted_losses rows (represents_history ops) hvalid
  refine ⟨hacc, fun more r hr n hn g hg hgap => ?_⟩
  obtain ⟨row, hrow, rfl⟩ := List.mem_map.mp (hperm.symm.subset hr)
  have hrep := represents_run more (represents_run (rows.map .loss) (represents_history ops))
  rw [← run_append, ← run_append, hacc, losses_map] at hrep
  have hlost := (mem_blockingGaps hrep _ _ n).mp ⟨g, by simpa using hg, hgap⟩
  refine hlost.2.2.1 ⟨row, ?_, rfl, rfl, hn⟩
  simp [hrow]

end Duckspout
