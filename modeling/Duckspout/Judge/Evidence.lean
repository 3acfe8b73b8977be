import Duckspout.Judge.LatestView
import Mathlib.Data.Finset.Image
import Mathlib.Data.Finset.Sort

/-! What the judge reads and how it answers (`duckspout-judge/src/journal.rs`, `read_log.rs`, `final_state.rs` and
    `verdict.rs`).

    A journal line carries whichever of four payloads its extra fields spell, whatever its event. What decoding refuses is
    a field of the payload here: an index range past the last `u64`, a part with no arrival range or with an inverted
    one, a residency counter that went backwards. The predicates take a set of lines in any order; that ingestion also
    demands each node's sequence numbers to be dense is used by none of them. -/

namespace Duckspout

/-! ### Journal lines -/

inductive TraceEvent where
  | accept
  | dedupCheck
  | stageCommit
  | clientAck
  | throttle
  | refuse
  | forward
  | peerApply
  | receipt
  | sealPart
  | putPart
  | lakeCommitOk
  | lakeCommitAbort
  | lakeCommitIndeterminate
  | reconcile
  | expire
  | demote
  | evict
  | dropWindow
  | snapshotSeal
  | claimAdvertise
  | heartbeat
  | fenceBoot
  | degradedBoot
  | takeoverDrain
  | declareLoss
  | evolveSchema
  | clientTimeout
  deriving DecidableEq, Repr

inductive PartKind where
  | primary
  | supplement
  | snapshot
  deriving DecidableEq, Repr

/-- The payload identity of a request. -/
structure RequestIdentity where
  requestId : String
  tenant : String
  recordCount : ℕ
  firstIndex : ℕ
  sourceIncarnation : String
  partition : Option PartitionId
  maxEventTimeMs : Option ℤ
  fits : firstIndex + recordCount < 2 ^ 64
  deriving DecidableEq, Repr

/-- A watermark value a node advanced or advertised. -/
structure WatermarkClaim where
  partition : PartitionId
  completeThroughMs : ℤ
  deriving DecidableEq, Repr

/-- A cold part named by a retention action. -/
structure PartRetention where
  dataset : DatasetId
  partition : PartitionId
  part : PartName
  partKind : PartKind
  datasetKind : DatasetKind
  originCoverage : List OriginSeqRange
  covered : originCoverage ≠ []
  upright : ∀ r ∈ originCoverage, r.firstSeq ≤ r.lastSeq
  deriving DecidableEq, Repr

structure JournalLine where
  node : NodeId
  seq : ℕ
  event : TraceEvent
  identity : Option RequestIdentity := none
  watermark : Option WatermarkClaim := none
  changelog : Option ChangelogEntry := none
  part : Option PartRetention := none
  deriving DecidableEq, Repr

/-- The lines of every journal, in the order of ingestion. -/
structure JournalSet where
  lines : List JournalLine
  deriving DecidableEq, Repr

namespace JournalSet

/-- The lines of an event that carry a request's identity. -/
def identityEvents (journals : JournalSet) (event : TraceEvent) : List (JournalLine × RequestIdentity) :=
  journals.lines.filterMap fun line => if line.event = event then line.identity.map (line, ·) else none

/-- The lines of any event that carry a watermark value. -/
def watermarkClaims (journals : JournalSet) : List (JournalLine × WatermarkClaim) :=
  journals.lines.filterMap fun line => line.watermark.map (line, ·)

/-- The lines of an event that name a part. -/
def partEvents (journals : JournalSet) (event : TraceEvent) : List (JournalLine × PartRetention) :=
  journals.lines.filterMap fun line => if line.event = event then line.part.map (line, ·) else none

/-- How many lines journal a `Demote`, an `Evict` or a `DropWindow`. -/
def residencyActionCount (journals : JournalSet) : ℕ :=
  (journals.lines.filter fun line => line.event = .demote ∨ line.event = .evict ∨ line.event = .dropWindow).length

/-- The lines of an event that carry a changelog entry. -/
def changelogEvents (journals : JournalSet) (event : TraceEvent) : List (JournalLine × ChangelogEntry) :=
  journals.lines.filterMap fun line => if line.event = event then line.changelog.map (line, ·) else none

/-- The entries of an event's lines. -/
def changelog (journals : JournalSet) (event : TraceEvent) : List ChangelogEntry :=
  (journals.changelogEvents event).map (·.2)

variable {journals : JournalSet}

theorem mem_changelog {event : TraceEvent} {e : ChangelogEntry} :
    e ∈ journals.changelog event ↔ ∃ line ∈ journals.lines, line.event = event ∧ line.changelog = some e := by
  simp [changelog, changelogEvents]

end JournalSet

/-! ### The read log -/

inductive ReadConcern where
  | complete
  | available
  deriving DecidableEq, Repr

/-- Concerns in the order they are declared in. -/
def ReadConcern.rank : ReadConcern → ℕ
  | .complete => 0
  | .available => 1

instance : LinearOrder ReadConcern := LinearOrder.lift' ReadConcern.rank fun a b h => by
  cases a <;> cases b <;> simp_all [ReadConcern.rank]

inductive ReadOutcome where
  | served (completeThroughMs : ℤ) (recordKeys : Finset String)
  | refused (reason : String)
  deriving DecidableEq

def ReadOutcome.isServed : ReadOutcome → Bool
  | served _ _ => true
  | refused _ => false

/-- The cache state that served a read, as counted in the serving node's own journal. -/
structure CacheProbe where
  query : String
  servingNode : NodeId
  residencyOpsBefore : ℕ
  residencyOpsAfter : ℕ
  latencyMs : ℕ
  monotone : residencyOpsBefore ≤ residencyOpsAfter
  deriving DecidableEq, Repr

/-- The read overlapped a residency action. -/
def CacheProbe.racedResidencyAction (probe : CacheProbe) : Bool := probe.residencyOpsBefore < probe.residencyOpsAfter

structure ReadRecord where
  tenant : String
  partition : PartitionId
  concern : ReadConcern
  outcome : ReadOutcome
  cache : Option CacheProbe
  deriving DecidableEq

/-! ### Read-backs -/

structure ViewQueryError where
  dataset : DatasetId
  reason : String
  deriving DecidableEq, Repr

def ViewQueryError.text (err : ViewQueryError) : String :=
  "latest-view query for dataset " ++ err.dataset.raw ++ " failed: " ++ err.reason

/-- What a view serves: the rows of each tenant by key. -/
abbrev ServedView := OrdMap TenantId (OrdMap String String)

/-- The read-back of a dataset's latest view. -/
abbrev LatestView := DatasetId → Except ViewQueryError ServedView

/-- A committed snapshot part. -/
structure CommittedSnapshot where
  dataset : DatasetId
  partition : PartitionId
  part : PartName
  originCoverage : List OriginSeqRange
  deriving DecidableEq, Repr

structure PartsQueryError where
  dataset : DatasetId
  partition : PartitionId
  reason : String
  deriving DecidableEq, Repr

def PartsQueryError.text (err : PartsQueryError) : String :=
  "committed-parts query for " ++ err.dataset.raw ++ " partition " ++ err.partition.raw ++ " failed: " ++ err.reason

/-- The read-back of the snapshots a partition of a dataset has in the lake. -/
abbrev CommittedParts := DatasetId → PartitionId → Except PartsQueryError (List CommittedSnapshot)

/-! ### Verdicts -/

/-- A predicate's answer over its findings `F`. -/
inductive Verdict (F : Type) where
  | pass (checked : ℕ)
  | violation (findings : List F)
  | noVerdict (reason : String)
  deriving DecidableEq, Repr

namespace Verdict

variable {F : Type}

/-- A pass that has checked something. -/
def passing (checked : ℕ) (noEvidence : String) : Verdict F :=
  if checked = 0 then .noVerdict noEvidence else .pass checked

def exitCode : Verdict F → ℕ
  | pass _ => 0
  | violation _ => 2
  | noVerdict _ => 3

/-- What was found. -/
def findings : Verdict F → List F
  | pass _ => []
  | violation fs => fs
  | noVerdict _ => []

/-- Nothing could be certified. -/
def Inconclusive : Verdict F → Prop
  | noVerdict _ => True
  | _ => False

/-- The same answer, whatever order the findings and whatever words the reason is given in. -/
inductive Agree : Verdict F → Verdict F → Prop
  | pass (checked : ℕ) : Agree (.pass checked) (.pass checked)
  | violation {fs gs : List F} (h : fs.Perm gs) : Agree (.violation fs) (.violation gs)
  | noVerdict (r s : String) : Agree (.noVerdict r) (.noVerdict s)

theorem passing_of_pos {checked : ℕ} (h : 0 < checked) (noEvidence : String) :
    (passing checked noEvidence : Verdict F) = .pass checked := if_neg h.ne'

end Verdict

end Duckspout
