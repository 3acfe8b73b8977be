import Duckspout.Accept.Server
import Duckspout.Judge.AckedLost

/-! The load generator's client (`duckspout-loadgen/src/client.rs` and `outcome.rs`): what it sends, under which identity,
    and what it makes of the answer.

    One process is one incarnation, its node with a nonce. Its requests are numbered, and a record's index counts the
    records of the whole process; both are written behind the incarnation, a dash between them. -/

namespace Duckspout

namespace Loadgen

/-! ### What is sent -/

def sourceIncarnation (node : NodeId) (startNonce : ℕ) : String := node.raw ++ "-" ++ toString startNonce

/-- The id of a request, which is its idempotency key. -/
def requestId (node : NodeId) (startNonce : ℕ) (sequence : U64) : String :=
  node.raw ++ "-" ++ toString startNonce ++ "-" ++ toString sequence

/-- The body of the loop over a batch's records. -/
def syntheticRecord (sourceIncarnation : String) (index : U64) : LogRecord where
  timeUnixNano := index
  observedTimeUnixNano := 0
  severityNumber := 9
  severityText := "INFO"
  body := some (.string ("loadgen record " ++ toString index))
  attributes := [.mk "loadgen.index" (some (.string (sourceIncarnation ++ "-" ++ toString index))) 0]
  droppedAttributesCount := 0
  flags := 0
  traceId := []
  spanId := []
  eventName := ""

def syntheticBatch (sourceIncarnation : String) (recordCount firstIndex : U64) : ExportLogsServiceRequest :=
  let records := (List.range recordCount).map fun i => syntheticRecord sourceIncarnation (firstIndex + Fin.ofNat (2 ^ 64) i)
  ⟨[⟨none, [⟨none, records⟩]⟩]⟩

/-- The records of a request. -/
def sentRecords (request : ExportLogsServiceRequest) : List LogRecord :=
  request.resourceLogs.flatMap fun resource => resource.scopeLogs.flatMap (·.logRecords)

/-- What a record is looked up by: its `loadgen.index`. -/
def indexAttribute (record : LogRecord) : Option String :=
  record.attributes.findSome? fun
    | .mk "loadgen.index" (some (.string key)) _ => some key
    | _ => none

/-! ### What comes back -/

/-- `tonic::Code`. -/
inductive Code where
  | ok
  | cancelled
  | unknown
  | invalidArgument
  | deadlineExceeded
  | notFound
  | alreadyExists
  | permissionDenied
  | resourceExhausted
  | failedPrecondition
  | aborted
  | outOfRange
  | unimplemented
  | internal
  | unavailable
  | dataLoss
  | unauthenticated
  deriving DecidableEq, Repr

/-- A status as the client sees it, be it an answer or made by the transport. -/
structure ClientStatus where
  code : Code
  message : String
  retryInfo : Option ℕ
  deriving DecidableEq, Repr

structure ExportLogsPartialSuccess where
  rejectedLogRecords : ℤ
  errorMessage : String
  deriving DecidableEq, Repr

inductive RaceOutcome where
  | settled (result : Except ClientStatus (Option ExportLogsPartialSuccess))
  | deadlineFirst

inductive RequestResolution where
  | acked
  | timedOut
  | rejected
  | ambiguous
  deriving DecidableEq, Repr

def classifyError (status : ClientStatus) : RequestResolution :=
  if status.retryInfo.isSome ∨ status.code = .invalidArgument ∨ status.code = .resourceExhausted then .rejected
  else .timedOut

def resolve : RaceOutcome → RequestResolution
  | .settled (.ok partialSuccess) =>
    if partialSuccess.any fun p => 0 < p.rejectedLogRecords then .rejected else .acked
  | .settled (.error status) => classifyError status
  | .deadlineFirst => .ambiguous

/-- The event that is journaled of a resolution, if one is. -/
def RequestResolution.event : RequestResolution → Option TraceEvent
  | acked => some .clientAck
  | timedOut => some .clientTimeout
  | rejected | ambiguous => none

/-! ### Keys -/

theorem sourceIncarnation_eq (node : NodeId) (startNonce : ℕ) :
    sourceIncarnation node startNonce = ZeroAckedLost.recordKey node.raw startNonce := rfl

/-- An incarnation says which process it is. -/
theorem sourceIncarnation_injective {node node' : NodeId} {startNonce startNonce' : ℕ}
    (h : sourceIncarnation node startNonce = sourceIncarnation node' startNonce') :
    node = node' ∧ startNonce = startNonce' := by
  rw [sourceIncarnation_eq, sourceIncarnation_eq] at h
  obtain ⟨hnode, hnonce⟩ := ZeroAckedLost.recordKey_injective h
  cases node
  cases node'
  exact ⟨congrArg _ hnode, hnonce⟩

/-- A key of one process's record is no other process's, and no other record's. -/
theorem key_injective {node node' : NodeId} {startNonce startNonce' index index' : ℕ}
    (h : ZeroAckedLost.recordKey (sourceIncarnation node startNonce) index =
      ZeroAckedLost.recordKey (sourceIncarnation node' startNonce') index') :
    node = node' ∧ startNonce = startNonce' ∧ index = index' := by
  obtain ⟨hincarnation, hindex⟩ := ZeroAckedLost.recordKey_injective h
  obtain ⟨hnode, hnonce⟩ := sourceIncarnation_injective hincarnation
  exact ⟨hnode, hnonce, hindex⟩

@[simp] theorem indexAttribute_syntheticRecord (incarnation : String) (index : U64) :
    indexAttribute (syntheticRecord incarnation index) = some (ZeroAckedLost.recordKey incarnation index) := rfl

theorem sentRecords_syntheticBatch (incarnation : String) (recordCount firstIndex : U64) :
    sentRecords (syntheticBatch incarnation recordCount firstIndex) =
      (List.range recordCount).map fun i => syntheticRecord incarnation (firstIndex + Fin.ofNat (2 ^ 64) i) := by
  simp [sentRecords, syntheticBatch]

/-- The keys of a batch whose indices do not wrap are those of its index range. -/
theorem keys_syntheticBatch (incarnation : String) {recordCount firstIndex : U64}
    (h : (firstIndex : ℕ) + recordCount < 2 ^ 64) :
    (sentRecords (syntheticBatch incarnation recordCount firstIndex)).map indexAttribute =
      (List.range' firstIndex recordCount).map fun index => some (ZeroAckedLost.recordKey incarnation index) := by
  rw [sentRecords_syntheticBatch, List.map_map, List.range'_eq_map_range, List.map_map]
  refine List.map_congr_left fun i hi => ?_
  have hi : i < recordCount := List.mem_range.mp hi
  have hindex : ((firstIndex + Fin.ofNat (2 ^ 64) i : U64) : ℕ) = firstIndex + i := by
    rw [Fin.val_add, Fin.val_ofNat]
    omega
  rw [Function.comp_apply, indexAttribute_syntheticRecord, hindex, Function.comp_apply]

end Loadgen

end Duckspout
