import Duckspout.Lib.Threads
import Duckspout.Staging.Stager
import Mathlib.Algebra.GroupWithZero.Nat

/-! A staging node at work: calls that stage batches, seal windows and drop them, over one engine.

    A transaction of the write connection is one step, since the write lock keeps others out and readers see
    committed tables only; the statements of a seal and of a drop are a step each, on connections of their
    own. Anything may happen between two steps of a call. The roller notes closed windows, and a process
    that restarts loses what it had in memory. -/

namespace Duckspout

open Threads

/-! ### Operations -/

/-- The steps of the calls. Counting the sealed rows names the count they are taken from; that is no part of the
    statement. -/
inductive StagingOp where
  | admission
  | currentWindow (dataset : DatasetId) (partition : PartitionId)
  | transact (request : StageRequest)
  | windowTable (key : WindowKey)
  | countRows (table : String)
  | coverageRuns (table : String)
  | eventTimeBounds (table column : String)
  | countSealed (table : String) (dedupKey : Option (List String)) (total : U64)
  | copySealed (table path : String) (dedupKey : Option (List String))
  | countResidue (table : String) (covered : List OriginSeqRange)
  | dropWindow (key : WindowKey)
  | deleteCoveredRows (table : String) (covered : List OriginSeqRange)
  | forgetClose (key : WindowKey)
  deriving DecidableEq

def StagingOp.Res : StagingOp → Type
  | .admission => Except StageError Unit
  | .currentWindow _ _ => WindowId
  | .transact _ => Except StageError StageOutcome
  | .windowTable _ => Option String
  | .countRows _ => Except String U64
  | .coverageRuns _ => Except String (List OriginSeqRange)
  | .eventTimeBounds _ _ => Except String (ℤ × ℤ)
  | .countSealed _ _ _ => Except String U64
  | .copySealed _ _ _ => Except String Unit
  | .countResidue _ _ => Except String ℕ
  | .dropWindow _ => Except StagingError Bool
  | .deleteCoveredRows _ _ => Except StagingError Unit
  | .forgetClose _ => Unit

abbrev StagingM (ε : Type) := ExceptT ε (Prog StagingOp StagingOp.Res)

/-- One step of a call. -/
def ask {ε : Type} (o : StagingOp) : StagingM ε o.Res := ExceptT.lift (Prog.perform o)

/-- An answer, or a failure of the call. -/
def orThrow {ε δ α : Type} (error : δ → ε) : Except δ α → StagingM ε α
  | .ok a => pure a
  | .error e => throw (error e)

section Rules

variable {κ ε δ α : Type} {P : Protocol StagingOp StagingOp.Res κ} {E : ε → κ → Prop} {k : κ}

theorem ewp_ask {o : StagingOp} {Q : o.Res → κ → Prop} (hpre : P.pre o k) (h : ∀ r k', P.next o k r k' → Q r k') :
    P.Ewp (ask o) Q E k := Protocol.ewp_lift hpre h

theorem ewp_orThrow {error : δ → ε} {r : Except δ α} {Q : α → κ → Prop} (hok : ∀ a, r = .ok a → Q a k)
    (herror : ∀ e, r = .error e → E (error e) k) : P.Ewp (orThrow error r) Q E k := by
  cases r with
  | ok a => exact hok a rfl
  | error e => exact herror e rfl

end Rules

/-! ### Calls -/

/-- Stages a batch: admission, the target window, one transaction. -/
def stageBlocking (libs : StagerLibs) (batch : DecodedBatch) : StagingM StageError StageOutcome := do
  orThrow id (← ask .admission)
  let partition := PartitionId.fromTenantShard batch.tenant 0
  let recordBatches ← orThrow .malformedRecords (libs.readStream batch.records)
  if (recordBatches.map (·.rows.length)).sum = 0 then
    return .committed []
  let window ← ask (.currentWindow batch.dataset partition)
  orThrow id (← ask (.transact
    ⟨batch.tenant, dedupKey libs batch, ⟨batch.dataset, partition, window⟩, recordBatches⟩))

/-- Seals a window: count, coverage, bounds, count of the sealed rows, copy. -/
def sealStatements (request : SealRequest) : StagingM SealError SealedPart := do
  match ← ask (.windowTable request.key) with
  | none => throw (.unknownWindow request.dataset request.partition request.window)
  | some table =>
    let total ← orThrow .backend (← ask (.countRows table))
    let originCoverage ← orThrow .backend (← ask (.coverageRuns table))
    let bounds ← orThrow .backend (← ask (.eventTimeBounds table request.eventTimeColumn))
    let rows ← orThrow .backend (← ask (.countSealed table request.dedupKey total))
    let path := sealScratchDir ++ "/" ++ table ++ ".parquet"
    orThrow .backend (← ask (.copySealed table path request.dedupKey))
    return {
      path
      rows
      eventTimeMinMs := bounds.1
      eventTimeMaxMs := bounds.2
      dedupRemoved := total - rows
      originCoverage }

/-- Drops a window whose rows are all covered, and otherwise its covered rows. -/
def dropStatements (key : WindowKey) (covered : List OriginSeqRange) : StagingM SealError DropOutcome := do
  match ← ask (.windowTable key) with
  | none => return .alreadyGone
  | some table =>
    let residue ← orThrow .backend (← ask (.countResidue table covered))
    if residue = 0 then
      let _ ← orThrow (fun e : StagingError => .backend e.text) (← ask (.dropWindow key))
      ask (.forgetClose key)
      return .dropped
    orThrow (fun e : StagingError => .backend e.text) (← ask (.deleteCoveredRows table covered))
    return .residueKept residue

/-! ### The node -/

/-- The stager with its engine, the log of closed windows, and the scratch files. -/
structure StagingNode where
  stager : EngineStager
  closes : WindowKey → Option ℤ := fun _ => none
  scratch : String → Option (List StagedRow) := fun _ => none

/-- How one step goes. -/
structure StagingFate where
  stage : StageFate := {}
  fault : Option String := none

/-- The libraries and the settings of a node. -/
structure StagingSetup where
  libs : StagerLibs
  config : StagerConfig

namespace StagingNode

def db (s : StagingNode) : HotDb := s.stager.engine.db

/-- The committed rows of a table, as a reader sees them. -/
def read {α : Type} (s : StagingNode) (fate : StagingFate) (table : String) (f : List StagedRow → α) : Except String α :=
  match fate.fault, s.stager.engine.db.tables table with
  | some text, _ => .error text
  | none, none => .error ("Table with name " ++ table ++ " does not exist!")
  | none, some rows => .ok (f rows)

/-- A statement that succeeds has read the rows of its table. -/
theorem read_eq_ok {s : StagingNode} {fate : StagingFate} {table : String} {α : Type} {f : List StagedRow → α} {a : α}
    (hr : s.read fate table f = .ok a) : ∃ rows, s.db.tables table = some rows ∧ a = f rows := by
  simp only [read] at hr
  split at hr
  · cases hr
  · cases hr
  next rows _ hrows => exact ⟨rows, hrows, (Except.ok.inj hr).symm⟩

/-- A statement that meets no fault reads its table. -/
theorem read_of_some {s : StagingNode} {table : String} {rows : List StagedRow} {α : Type} (f : List StagedRow → α)
    (hrows : s.db.tables table = some rows) : s.read {} table f = .ok (f rows) := by
  have hdb : s.stager.engine.db.tables table = some rows := hrows
  simp [read, hdb]

def setEngine (s : StagingNode) (engine : StagingEngine) : StagingNode := { s with stager := { s.stager with engine } }

/-- One step of a call. -/
def exec (setup : StagingSetup) : (o : StagingOp) → StagingFate → StagingNode → o.Res × StagingNode
  | .admission, _, s => (s.stager.admission setup.config, s)
  | .currentWindow dataset partition, fate, s =>
    let r := s.stager.currentWindow setup.config dataset partition fate.stage.monotonicNanos
    (r.1, { s with stager := r.2 })
  | .transact request, fate, s =>
    let r := s.stager.transact setup.libs setup.config fate.stage request
    (r.1, { s with stager := r.2 })
  | .windowTable key, _, s => ((s.stager.engine.writer.windows.lookup key).map (·.table), s)
  | .countRows table, fate, s => (s.read fate table rowCount, s)
  | .coverageRuns table, fate, s => (s.read fate table Duckspout.coverageRuns, s)
  | .eventTimeBounds table column, fate, s => (s.read fate table (Duckspout.eventTimeBounds column), s)
  | .countSealed table dedupKey _, fate, s => (s.read fate table fun rows => rowCount (sealedRows dedupKey rows), s)
  | .copySealed table path dedupKey, fate, s =>
    match s.read fate table (sealedRows dedupKey) with
    | .error text => (.error text, s)
    | .ok rows => (.ok (), { s with scratch := Function.update s.scratch path (some rows) })
  | .countResidue table covered, fate, s => (s.read fate table (·.countP fun r => ¬ r.CoveredBy covered), s)
  | .dropWindow key, fate, s =>
    let r := s.stager.engine.dropWindow fate.fault key
    (r.1, s.setEngine r.2)
  | .deleteCoveredRows table covered, fate, s =>
    let r := s.stager.engine.deleteCoveredRows fate.fault table covered
    (r.1, s.setEngine r.2)
  | .forgetClose key, _, s => ((), { s with closes := Function.update s.closes key none })

end StagingNode

/-! ### A call alone -/

section Alone

variable {ε δ α β : Type} {exec : (o : StagingOp) → StagingNode → o.Res × StagingNode}
  {s : StagingNode}

theorem eval_ask {o : StagingOp} {f : o.Res → StagingM ε α} :
    Prog.eval exec (ask o >>= f).run s = Prog.eval exec (f (exec o s).1).run (exec o s).2 := rfl

theorem eval_orThrow_ok {error : δ → ε} {a : β} {f : β → StagingM ε α} :
    Prog.eval exec (orThrow error (.ok a) >>= f).run s = Prog.eval exec (f a).run s := rfl

theorem eval_orThrow {r : Except ε α} : Prog.eval exec (orThrow id r).run s = (r, s) := by
  cases r with
  | ok a => rfl
  | error e => rfl

end Alone

/-! ### Runs -/

/-- One call. -/
inductive StagingJob where
  | stage (batch : DecodedBatch)
  | sealing (request : SealRequest)
  | drop (key : WindowKey) (covered : List OriginSeqRange)
  deriving DecidableEq, Repr

inductive StagingAnswer where
  | staged (r : Except StageError StageOutcome)
  | sealed (r : Except SealError SealedPart)
  | dropped (r : Except SealError DropOutcome)
  deriving DecidableEq

/-- What happens around the calls: the roller notes the closed windows, the process restarts. -/
inductive StagingEnv where
  | noteClosedWindows (nowMs : ℤ)
  | restart (origin : NodeId)
  deriving DecidableEq, Repr

/-- A live window below the high-water of its dataset and partition is noted, at the first instant it is. -/
def noteClosedWindows (nowMs : ℤ) (s : StagingNode) : StagingNode :=
  { s with closes := fun key =>
      match s.closes key with
      | some noted => some noted
      | none =>
        match s.stager.engine.writer.windows.lookup key, s.stager.engine.writer.windowHw key.dataset key.partition with
        | some _, some hw => if key.window < hw then some nowMs else none
        | _, _ => none }

def StagingEnv.move : StagingEnv → StagingNode → StagingNode
  | .noteClosedWindows nowMs, s => Duckspout.noteClosedWindows nowMs s
  | .restart origin, s => { stager := { engine := .openDb origin s.stager.engine.db }, scratch := s.scratch }

def StagingJob.program (libs : StagerLibs) : StagingJob → Prog StagingOp StagingOp.Res StagingAnswer
  | .stage batch => .staged <$> (stageBlocking libs batch).run
  | .sealing request => .sealed <$> (sealStatements request).run
  | .drop key covered => .dropped <$> (dropStatements key covered).run

/-- The calls of one node; a restart ends them all. -/
def stagers (setup : StagingSetup) :
    Threads ℕ StagingJob StagingFate StagingEnv StagingNode StagingOp StagingOp.Res StagingAnswer where
  program _ j := j.program setup.libs
  exec _ := StagingNode.exec setup
  move := StagingEnv.move
  stops e _ := match e with
    | .restart _ => true
    | .noteClosedWindows _ => false

abbrev StagingEvent := Event ℕ StagingJob StagingFate StagingEnv

abbrev StagingPool := Pool ℕ StagingJob StagingNode StagingOp StagingOp.Res StagingAnswer

/-- A fresh store. -/
def StagingNode.fresh (origin : NodeId) : StagingNode := { stager := { engine := .openDb origin {} } }

/-- The node after a list of events. -/
def stagedBy (setup : StagingSetup) (origin : NodeId) (es : List StagingEvent) :
    Pool ℕ StagingJob StagingNode StagingOp StagingOp.Res StagingAnswer :=
  (stagers setup).run { shared := .fresh origin } es

theorem stagedBy_concat (setup : StagingSetup) (origin : NodeId) (es : List StagingEvent) (e : StagingEvent) :
    stagedBy setup origin (es ++ [e]) = (stagers setup).step (stagedBy setup origin es) e := run_concat ..

theorem numbered_stagedBy (setup : StagingSetup) (origin : NodeId) (h : List StagingEvent) :
    Numbered (stagedBy setup origin h) :=
  numbered_run (fun t r hr => by cases hr) h

theorem shared_stagedBy_act {setup : StagingSetup} {origin : NodeId} {h : List StagingEvent} {t n : ℕ} {c : StagingFate}
    {j : StagingJob} {o : StagingOp} {next : o.Res → Prog StagingOp StagingOp.Res StagingAnswer}
    (hrun : (stagedBy setup origin h).running t = some ⟨n, j, .call o next⟩) :
    (stagedBy setup origin (h ++ [.act t c])).shared =
      (StagingNode.exec setup o c (stagedBy setup origin h).shared).2 := by
  rw [stagedBy_concat]
  exact shared_act hrun

/-! ### A small setup -/

/-- The start of an Arrow stream: a schema of one column `ts`, microseconds, and a batch of one row. -/
def streamStart : List UInt8 :=
  [255, 255, 255, 255, 120, 0, 0, 0, 16, 0, 0, 0, 0, 0, 10, 0, 11, 0, 8, 0, 10, 0, 4, 0, 10, 0, 0, 0, 16, 0, 0, 0,
   4, 0, 1, 0, 8, 0, 8, 0, 0, 0, 4, 0, 8, 0, 0, 0, 4, 0, 0, 0, 1, 0, 0, 0, 20, 0, 0, 0, 16, 0, 18, 0, 4, 0, 16, 0,
   17, 0, 8, 0, 0, 0, 12, 0, 16, 0, 0, 0, 16, 0, 0, 0, 28, 0, 0, 0, 32, 0, 0, 0, 1, 10, 0, 0, 2, 0, 0, 0, 116, 115,
   0, 0, 0, 0, 6, 0, 6, 0, 4, 0, 6, 0, 0, 0, 2, 0, 0, 0, 0, 0, 0, 0, 0, 0, 0, 0, 255, 255, 255, 255, 144, 0, 0, 0,
   16, 0, 0, 0, 12, 0, 23, 0, 20, 0, 22, 0, 16, 0, 8, 0, 12, 0, 0, 0, 0, 0, 0, 0, 8, 0, 0, 0, 0, 0, 0, 0, 24, 0, 0,
   0, 4, 0, 3, 0, 0, 0, 0, 0, 0, 0, 10, 0, 24, 0, 8, 0, 16, 0, 20, 0, 10, 0, 0, 0, 0, 0, 0, 0, 1, 0, 0, 0, 0, 0, 0,
   0, 12, 0, 0, 0, 32, 0, 0, 0, 0, 0, 0, 0, 1, 0, 0, 0, 1, 0, 0, 0, 0, 0, 0, 0, 0, 0, 0, 0, 0, 0, 0, 0, 0, 0, 0, 0,
   2, 0, 0, 0, 0, 0, 0, 0, 0, 0, 0, 0, 0, 0, 0, 0, 0, 0, 0, 0, 0, 0, 0, 0, 0, 0, 0, 0, 8, 0, 0, 0, 0, 0, 0, 0]

/-- The stream of one row with this event time. -/
def oneRowStream (ms : ℕ) : List UInt8 :=
  streamStart ++ (List.range 8).map (fun i => UInt8.ofNat (ms * 1000 / 256 ^ i)) ++ [255, 255, 255, 255, 0, 0, 0, 0]

/-- Reads such a stream back. -/
def readOneRow (records : List UInt8) : Except String (List RecordBatch) :=
  if records.take streamStart.length = streamStart ∧ records.length = streamStart.length + 16 then
    let micros : ℕ := ((records.drop streamStart.length).take 8).foldr (fun b n => b.toNat + 256 * n) 0
    .ok [⟨[⟨"ts", .timestampMicros⟩], [[("ts", .timestamp (micros : ℕ))]], 8⟩]
  else .error "Parser error: Unable to get root as message"

/-- The coverage of one row, with its stored text. -/
def oneRowOutcome (seq : U64) : List StagedCoverage × String :=
  ([⟨⟨"acme.0"⟩, ⟨"node-1"⟩, seq, seq⟩],
    "[\x7b\"partition\":\"acme.0\",\"range\":\x7b\"origin\":\"node-1\",\"first_seq\":" ++ toString seq ++
      ",\"last_seq\":" ++ toString seq ++ "\x7d\x7d]")

def oneRowOutcomes : List (List StagedCoverage × String) := [oneRowOutcome 1, oneRowOutcome 2, oneRowOutcome 3]

/-- The libraries on streams of one row, one tenant and the first few rows of one node. -/
def oneRowLibs : StagerLibs where
  readStream := readOneRow
  sha256 _ := []
  toJson coverage := ((oneRowOutcomes.find? (·.1 = coverage)).map (·.2)).elim (.error "not encodable") .ok
  fromJson text := ((oneRowOutcomes.find? (·.2 = text)).map (·.1)).elim (.error "expected value") .ok

def oneRowSetup : StagingSetup where
  libs := oneRowLibs
  config := {
    windowNanos := 1000000000
    dedupTtlMs := 86400000
    dedupMaxEntries := 100000
    hotMaxBytes := 1073741824 }

/-- A batch of one row under a client's token. -/
def oneRowBatch (token : String) (ms : ℕ) : DecodedBatch := ⟨⟨"otlp_logs"⟩, ⟨"acme"⟩, some token, oneRowStream ms⟩

/-- So many steps of a thread, at a point of time in seconds. -/
def stepsAt (t steps seconds : ℕ) : List StagingEvent :=
  List.replicate steps
    (.act t { stage := { monotonicNanos := seconds * 1000000000, wallUnixMs := (seconds * 1000 : ℕ) } })

/-- One call of thread `t`, from start to end. -/
def stageAt (t seconds : ℕ) (token : String) : List StagingEvent :=
  .start t (.stage (oneRowBatch token seconds)) :: stepsAt t 4 seconds

/-- The first window of the small setup. -/
def firstWindow : WindowKey := ⟨⟨"otlp_logs"⟩, ⟨"acme.0"⟩, 0⟩

theorem oneRowLibs_roundTrips : oneRowLibs.RoundTrips := by
  intro coverage text h
  have hback : ∀ x ∈ oneRowOutcomes, oneRowLibs.fromJson x.2 = .ok x.1 := by decide +kernel
  rcases hx : oneRowOutcomes.find? (·.1 = coverage) with _ | x
  · simp [oneRowLibs, hx] at h
  · have hcoverage := List.find?_some hx
    simp only [decide_eq_true_eq] at hcoverage
    simp only [oneRowLibs, hx, Option.map_some, Option.elim_some, Except.ok.injEq] at h
    rw [← h, ← hcoverage]
    exact hback x (List.mem_of_find?_eq_some hx)

end Duckspout
