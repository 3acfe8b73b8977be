import Duckspout.Staging.Engine

/-! The staging port over the engine (`duckspout-staging/src/stager.rs`): admission by the overload ladder, the
    open window of a partition, and the transaction that resolves a duplicate or stages a batch with its
    dedup entry.

    The Arrow reader, SHA-256 and the JSON codec are libraries and stand as parameters. Clock readings are
    inputs of a call. The trace journal is left out. -/

namespace Duckspout

/-! ### The overload ladder (`duckspout-types/src/status.rs`) -/

inductive OverloadStatus where
  | normal
  | stagingPressure
  | drainStalled
  | throttling
  | refusingIngest
  deriving DecidableEq, Repr

def ladderDisclosePercent : ℕ := 80

def ladderThrottlePercent : ℕ := 95

def ladderRefusePercent : ℕ := 100

def throttleRetryMinMs : ℕ := 1000

def throttleRetryMaxMs : ℕ := 30000

/-- The rung as a function of the measure. -/
def OverloadStatus.fromMeasure (stagedBytes maxBytes : U64) (drainStalled : Bool) : OverloadStatus :=
  if maxBytes = 0 then .refusingIngest
  else if (maxBytes : ℕ) * ladderRefusePercent ≤ stagedBytes * 100 then .refusingIngest
  else if (maxBytes : ℕ) * ladderThrottlePercent ≤ stagedBytes * 100 then .throttling
  else if (maxBytes : ℕ) * ladderDisclosePercent ≤ stagedBytes * 100 then
    if drainStalled then .drainStalled else .stagingPressure
  else .normal

/-- The growing delay between the two upper rungs. -/
def throttleRetryDelayMs (stagedBytes maxBytes : U64) : ℕ :=
  if maxBytes = 0 then throttleRetryMaxMs
  else
    let permille := min ((stagedBytes : ℕ) * 1000 / maxBytes) u64Max
    let floor := ladderThrottlePercent * 10
    let ceiling := ladderRefusePercent * 10
    if ceiling ≤ permille then throttleRetryMaxMs
    else throttleRetryMinMs + (throttleRetryMaxMs - throttleRetryMinMs) * (permille - floor) / (ceiling - floor)

/-! ### The port -/

structure DecodedBatch where
  dataset : DatasetId
  tenant : TenantId
  idempotencyKey : Option String
  records : List UInt8
  deriving DecidableEq, Repr

inductive StageError where
  | malformedRecords (text : String)
  | backend (text : String)
  | throttled (retryAfterMs : ℕ)
  | refusingIngest (retryAfterMs : ℕ)
  deriving DecidableEq, Repr

inductive StageOutcome where
  | committed (coverage : List StagedCoverage)
  | duplicateAcked (coverage : List StagedCoverage)
  | duplicateInFlight
  deriving DecidableEq, Repr

structure StagerConfig where
  windowNanos : ℕ
  dedupTtlMs : ℤ
  dedupMaxEntries : U64
  hotMaxBytes : U64
  deriving DecidableEq, Repr

/-- The libraries the stager calls. -/
structure StagerLibs where
  readStream : List UInt8 → Except String (List RecordBatch)
  sha256 : List UInt8 → List UInt8
  toJson : List StagedCoverage → Except String String
  fromJson : String → Except String (List StagedCoverage)

/-- What is stored is read back as it was. -/
def StagerLibs.RoundTrips (libs : StagerLibs) : Prop :=
  ∀ coverage text, libs.toJson coverage = .ok text → libs.fromJson text = .ok coverage

/-- A partition's open window. -/
structure OpenWindow where
  id : WindowId
  openedAt : ℕ
  deriving DecidableEq, Repr

structure EngineStager where
  engine : StagingEngine
  openWindows : DatasetId → PartitionId → Option OpenWindow := fun _ _ => none
  dedupCapEvictions : ℕ := 0

/-- How one call goes: the clock readings, what goes wrong in its transaction, and how the database orders entries of one
    instant. -/
structure StageFate where
  monotonicNanos : ℕ := 0
  wallUnixMs : ℤ := 0
  beginFault : Option String := none
  faults : Faults := fun _ => none
  appendFaults : ℕ → Faults := fun _ _ => none
  ties : TieOrder := fun _ _ => 0

def StagingError.text : StagingError → String
  | .engine text => "hot store engine: " ++ text
  | .unsupportedColumnType column datatype =>
    "column " ++ column.quote ++ " has arrow type " ++ datatype ++ ", outside the supported staging subset"
  | .reservedColumn column =>
    "column " ++ column.quote ++ " collides with a reserved system column (" ++ sysColOrigin ++ ", " ++ sysColSeq ++ ")"
  | .seqExhausted partition => "per-(partition, origin) sequence exhausted for partition " ++ partition.raw
  | .corrupt text => "corrupt engine state: " ++ text

def StagingError.backend (error : StagingError) : StageError := .backend error.text

namespace EngineStager

/-- The admission gate (`admit`). -/
def admission (config : StagerConfig) (s : EngineStager) : Except StageError Unit :=
  let staged := s.engine.writer.stagedBytes
  let max := config.hotMaxBytes
  match OverloadStatus.fromMeasure staged max false with
  | .refusingIngest => .error (.refusingIngest (throttleRetryDelayMs staged max))
  | .throttling => .error (.throttled (throttleRetryDelayMs staged max))
  | .normal | .stagingPressure | .drainStalled => .ok ()

/-- The current window of a partition; after the window's time the next id past the high-water. -/
def currentWindow (config : StagerConfig) (dataset : DatasetId) (partition : PartitionId) (now : ℕ)
    (s : EngineStager) : WindowId × EngineStager :=
  let roll : WindowId × EngineStager :=
    let id := match s.engine.writer.windowHw dataset partition with
      | some w => w + 1
      | none => 0
    (id, { s with openWindows := fun d p =>
      if d = dataset ∧ p = partition then some ⟨id, now⟩ else s.openWindows d p })
  match s.openWindows dataset partition with
  | some current => if now - current.openedAt < config.windowNanos then (current.id, s) else roll
  | none => roll

theorem engine_currentWindow (config : StagerConfig) (dataset : DatasetId) (partition : PartitionId) (now : ℕ)
    (s : EngineStager) : (s.currentWindow config dataset partition now).2.engine = s.engine := by
  unfold currentWindow
  dsimp only
  split
  · split_ifs
    · rfl
    · rfl
  · rfl

end EngineStager

/-! ### Duplicates -/

def hexByte (b : UInt8) : String := String.ofList [Nat.digitChar (b.toNat / 16), Nat.digitChar (b.toNat % 16)]

/-- The client's token, or the digest of the records, each under a prefix of its own. -/
def dedupKey (libs : StagerLibs) (batch : DecodedBatch) : String :=
  match batch.idempotencyKey with
  | some token => "t:" ++ token
  | none => "h:" ++ String.join ((libs.sha256 batch.records).map hexByte)

/-- The replication floor: one copy, so the local commit completes the evidence. -/
def atRfV01 : Bool := true

def parseOutcome (libs : StagerLibs) (outcomeJson : String) : Except StagingError (List StagedCoverage) :=
  (libs.fromJson outcomeJson).mapError fun error =>
    .corrupt ("dedup stored outcome is not decodable coverage: " ++ error)

/-- A duplicate replays the stored outcome once its evidence is complete. -/
def resolveDuplicate (libs : StagerLibs) (faults : Faults) (tenant : TenantId) (dedupKey : String) (entry : DedupEntry)
    (atRf : Bool) : TxnM StageOutcome := do
  if entry.acked then
    return .duplicateAcked (← Fallible.ofExcept (parseOutcome libs entry.outcomeJson))
  if atRf then
    StageTxn.dedupMarkAcked faults tenant dedupKey
    return .duplicateAcked (← Fallible.ofExcept (parseOutcome libs entry.outcomeJson))
  return .duplicateInFlight

def coverageJson (libs : StagerLibs) (t : StageTxn) : Except StageError String :=
  (libs.toJson t.pendingCoverage).mapError fun error => .backend ("stored-outcome encoding: " ++ error)

/-! ### The transaction -/

/-- A batch on its way into a window. -/
structure StageRequest where
  tenant : TenantId
  dedupKey : String
  window : WindowKey
  recordBatches : List RecordBatch
  deriving DecidableEq, Repr

abbrev StageM := Fallible StageError StageTxn

/-- A call on the transaction, its failure as the port has it. -/
def orBackend {α : Type} (x : TxnM α) : StageM α := ExceptT.adapt StagingError.backend x

/-- From the lookup to the commit; beside the outcome, how many entries the cap has evicted. -/
def stageTxn (libs : StagerLibs) (config : StagerConfig) (fate : StageFate) (request : StageRequest) :
    StageM (StageOutcome × ℕ) := do
  let entry ← orBackend (StageTxn.dedupLookup fate.faults request.tenant request.dedupKey
    (saturatingSub fate.wallUnixMs config.dedupTtlMs))
  match entry with
  | some entry =>
    let outcome ← orBackend (resolveDuplicate libs fate.faults request.tenant request.dedupKey entry atRfV01)
    let _ ← orBackend (StageTxn.commit fate.faults)
    return (outcome, 0)
  | none =>
    request.recordBatches.zipIdx.forM fun x => orBackend (StageTxn.append (fate.appendFaults x.2) request.window x.1)
    let t ← get
    let outcomeJson ← Fallible.ofExcept (coverageJson libs t)
    orBackend (StageTxn.dedupInsert fate.faults
      ⟨request.tenant, request.dedupKey, atRfV01, outcomeJson, fate.wallUnixMs⟩)
    let capEvicted ← orBackend
      (StageTxn.dedupEvict fate.faults fate.ties fate.wallUnixMs config.dedupTtlMs config.dedupMaxEntries)
    let coverage ← orBackend (StageTxn.commit fate.faults)
    return (.committed coverage, capEvicted)

namespace EngineStager

/-- The transaction of a call, from `BEGIN` to its end. -/
def transact (libs : StagerLibs) (config : StagerConfig) (fate : StageFate) (request : StageRequest) (s : EngineStager) :
    Except StageError StageOutcome × EngineStager :=
  match fate.beginFault with
  | some text => (.error (StagingError.engine text).backend, s)
  | none =>
    match (stageTxn libs config fate request).run s.engine.begin with
    | (.ok (outcome, capEvicted), t) => (.ok outcome,
        { s with engine := s.engine.close t, dedupCapEvictions := s.dedupCapEvictions + capEvicted })
    | (.error error, t) => (.error error, { s with engine := s.engine.close t })

end EngineStager

end Duckspout
