import Duckspout.Judge.FaultLedger

/-! The other files a run is judged by: the read log and the run manifest (`duckspout-judge/src/read_log.rs` and
    `run_manifest.rs`).

    A file that was given and cannot be read stops the run; what a line of the read log may spell and what not is said
    here member by member. -/

namespace Duckspout

/-! ### The read log -/

inductive ReadLogError where
  | io (path : String) (source : String)
  | decode (path : String) (lineNo : ℕ) (source : DecodeError)
  deriving DecidableEq, Repr

def ReadConcern.ofName : String → Option ReadConcern
  | "complete" => some .complete
  | "available" => some .available
  | _ => none

/-- The tag of an outcome that has been collected first: a name, or the index of the variant. -/
def ReadOutcome.tag? : JsonValue → Option Bool
  | .str "served" | .int 0 => some true
  | .str "refused" | .int 1 => some false
  | _ => none

def ReadOutcome.ofMembers (members : Members) : Option ReadOutcome := do
  let served ← members.required "outcome" tag?
  if served then
    let completeThroughMs ← members.required "complete_through_ms" JsonValue.i64?
    let recordKeys ← members.required "record_keys" (JsonValue.list? JsonValue.str?)
    return .served completeThroughMs recordKeys.toFinset
  else
    let reason ← members.required "reason" JsonValue.str?
    return .refused reason

/-- The members a cache probe is read from. -/
structure ProbeFields where
  query : String
  servingNode : NodeId
  residencyOpsBefore : U64
  residencyOpsAfter : U64
  latencyMs : U64

def ProbeFields.ofMembers (members : Members) : Option ProbeFields := do
  let query ← members.required "query" JsonValue.str?
  let servingNode ← members.required "serving_node" JsonValue.str?
  let residencyOpsBefore ← members.required "residency_ops_before" JsonValue.u64?
  let residencyOpsAfter ← members.required "residency_ops_after" JsonValue.u64?
  let latencyMs ← members.required "latency_ms" JsonValue.u64?
  return { query, servingNode := ⟨servingNode⟩, residencyOpsBefore, residencyOpsAfter, latencyMs }

/-- The probe of a line that has one, unless its counter went backwards. -/
def probeFromLine (members : Members) : Except DecodeError (Option CacheProbe) :=
  if "residency_ops_before" ∈ members.keys then
    match ProbeFields.ofMembers members with
    | none => .error (.malformed "CacheProbe")
    | some fields =>
      if monotone : (fields.residencyOpsBefore : ℕ) ≤ fields.residencyOpsAfter then
        .ok (some { query := fields.query, servingNode := fields.servingNode, residencyOpsBefore := fields.residencyOpsBefore,
                    residencyOpsAfter := fields.residencyOpsAfter, latencyMs := fields.latencyMs, monotone })
      else
        .error (.custom ("cache probe on node " ++ fields.servingNode.raw ++ " went BACKWARDS (" ++
          toString fields.residencyOpsBefore ++ " → " ++ toString fields.residencyOpsAfter ++ ") — the residency-op counter " ++
          "is a monotone line count, so this pair cannot label one cache state and fails closed"))
  else .ok none

/-- The record of the members, apart from its probe. -/
def ReadRecord.ofMembers (members : Members) : Option ReadRecord := do
  let tenant ← members.required "tenant" JsonValue.str?
  let partition ← members.required "partition" JsonValue.str?
  let concern ← members.required "concern" fun value => value.variant?.bind ReadConcern.ofName
  let outcome ← ReadOutcome.ofMembers members
  return { tenant, partition := ⟨partition⟩, concern, outcome, cache := none }

section

variable (reader : JournalReader) (debug : String → String)

def readReadRecord (raw : String) : Except DecodeError ReadRecord := do
  let members ← (reader.readObject raw).mapError .json
  rejectDuplicateKeys debug members
  match ReadRecord.ofMembers members with
  | none => throw (.malformed "ReadRecord")
  | some record => return { record with cache := ← probeFromLine members }

def parseReadLog (path : String) : Except ReadLogError (List ReadRecord) := do
  let text ← (reader.readToString path).mapError (.io path)
  (textLines text).zipIdx.mapM fun raw => (readReadRecord reader debug raw.1).mapError (.decode path (raw.2 + 1))

end

/-! ### The run manifest -/

/-- No key of the list is repeated. -/
def Members.Once (members : Members) (keys : List String) : Prop := ∀ key ∈ keys, members.keys.count key ≤ 1

instance (members : Members) (keys : List String) : Decidable (members.Once keys) :=
  inferInstanceAs (Decidable (∀ key ∈ keys, _))

/-- A roster member, as an object or as the array of its fields. -/
def NodeRun.ofJson : JsonValue → Option NodeRun
  | .obj members => do
    guard (Members.Once members ["name", "journal_path", "journal_lines", "last_progress_at_ms", "exited_early"])
    let name ← Members.required members "name" JsonValue.str?
    let journalPath ← Members.required members "journal_path" JsonValue.str?
    let journalLines ← Members.required members "journal_lines" JsonValue.u64?
    let lastProgressAtMs ← Members.optional members "last_progress_at_ms" JsonValue.u64?
    let exitedEarly ← Members.required members "exited_early" JsonValue.bool?
    return { name, journalPath, journalLines, lastProgressAtMs, exitedEarly }
  | .arr [name, journalPath, journalLines, lastProgressAtMs, exitedEarly] => do
    let name ← name.str?
    let journalPath ← journalPath.str?
    let journalLines ← journalLines.u64?
    let lastProgressAtMs ← match lastProgressAtMs with
      | .null => some none
      | value => value.u64?.map some
    let exitedEarly ← exitedEarly.bool?
    return { name, journalPath, journalLines, lastProgressAtMs, exitedEarly }
  | _ => none

def RunManifest.ofMembers (members : Members) : Option RunManifest := do
  let startedAtMs ← members.required "started_at_ms" JsonValue.u64?
  let endedAtMs ← members.required "ended_at_ms" JsonValue.u64?
  let sampleIntervalMs ← members.required "sample_interval_ms" JsonValue.u64?
  let nodes ← members.required "nodes" (JsonValue.list? NodeRun.ofJson)
  return { startedAtMs, endedAtMs, sampleIntervalMs, nodes }

section

variable (reader : JournalReader) (debug : String → String) (display : DecodeError → String)

def RunManifest.fromJson (text : String) : Except DecodeError RunManifest := do
  let members ← (reader.readObject text).mapError .json
  rejectDuplicateKeys debug members
  match RunManifest.ofMembers members with
  | none => throw (.malformed "RunManifest")
  | some manifest => return manifest

def parseRunManifest (path : String) : Except String RunManifest := do
  let text ← (reader.readToString path).mapError fun err => "reading run manifest " ++ path ++ ": " ++ err
  (RunManifest.fromJson reader debug text).mapError fun err => path ++ ": " ++ display err

end

/-! ### The texts of the errors -/

section

variable (debug : String → String) (display : DecodeError → String)

def JournalError.text : JournalError → String
  | .io path source => "reading journal " ++ path ++ ": " ++ source
  | .decode path lineNo source => path ++ ":" ++ toString lineNo ++ ": not a valid journal line: " ++ display source
  | .nonDenseSeq path lineNo node expected got =>
    path ++ ":" ++ toString lineNo ++ ": node " ++ node.raw ++ " seq " ++ toString got ++ ", expected " ++ toString expected ++
      " (D-6: dense per-node seqs starting at 0, tracked across every journal file ingested together)"

def ReadLogError.text : ReadLogError → String
  | .io path source => "reading read log " ++ path ++ ": " ++ source
  | .decode path lineNo source => path ++ ":" ++ toString lineNo ++ ": not a valid read-log line: " ++ display source

def FaultLedgerError.text : FaultLedgerError → String
  | .io path source => "reading fault ledger " ++ path ++ ": " ++ source
  | .decode path lineNo source => path ++ ":" ++ toString lineNo ++ ": not a valid fault-ledger line: " ++ display source
  | .repeatedPhase path lineNo faultId phase =>
    path ++ ":" ++ toString lineNo ++ ": fault " ++ faultId ++ " journaled phase " ++ phase.debug ++ " twice"
  | .inconsistentWindow path lineNo faultId found known =>
    path ++ ":" ++ toString lineNo ++ ": fault " ++ faultId ++ " is " ++ found ++ " here but " ++ known ++
      " on an earlier line"

end

end Duckspout
