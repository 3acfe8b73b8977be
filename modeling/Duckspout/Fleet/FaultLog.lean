import Duckspout.Judge.FaultLedger
import Duckspout.Judge.LineFile

/-! The journal of the fault injectors (`duckspout-fleet/src/faultlog.rs`): one file that every injector writes its lines to,
    one line at a time. -/

namespace Duckspout

inductive FaultKind where
  | nodeKill
  | sigstopPause
  | networkPartition
  | networkDegradation
  | membershipLeave
  | membershipJoin
  | flightKillMidStream
  | catalogOutage
  | discoveryFlap
  | cacheChurn
  deriving DecidableEq, Repr

namespace FaultKind

/-- The name of a kind on the wire. -/
def name : FaultKind → String
  | nodeKill => "node_kill"
  | sigstopPause => "sigstop_pause"
  | networkPartition => "network_partition"
  | networkDegradation => "network_degradation"
  | membershipLeave => "membership_leave"
  | membershipJoin => "membership_join"
  | flightKillMidStream => "flight_kill_mid_stream"
  | catalogOutage => "catalog_outage"
  | discoveryFlap => "discovery_flap"
  | cacheChurn => "cache_churn"

end FaultKind

/-- A line of the journal. -/
structure FaultWindowLine where
  faultId : String
  kind : FaultKind
  targetNode : String
  phase : FaultPhase
  atMs : U64
  detail : Option JsonValue

namespace FaultWindowLine

/-- The members of a line; an absent detail is left out. -/
def members (line : FaultWindowLine) : Members :=
  [("fault_id", .str line.faultId), ("kind", .str line.kind.name), ("target_node", .str line.targetNode),
    ("phase", .str line.phase.name), ("at_ms", .int line.atMs)] ++ line.detail.toList.map ("detail", ·)

/-- What a reader of the ledger sees of the line. -/
def seen (line : FaultWindowLine) : FaultLine :=
  ⟨line.faultId, line.kind.name, line.targetNode, line.phase, line.atMs⟩

theorem nodup_keys (line : FaultWindowLine) : line.members.keys.Nodup := by
  rcases hdetail : line.detail with _ | detail
  · simp [members, Members.keys, hdetail]
  · simp [members, Members.keys, hdetail]

/-- A line reads back as what is seen of it. -/
theorem ofMembers_members (line : FaultWindowLine) : FaultLine.ofMembers line.members = some line.seen := by
  have hat := JsonValue.u64?_int line.atMs
  rcases hdetail : line.detail with _ | detail
  · simp [FaultLine.ofMembers, Members.required, Members.get?, members, hdetail, JsonValue.str?, JsonValue.variant?, hat, seen]
  · simp [FaultLine.ofMembers, Members.required, Members.get?, members, hdetail, JsonValue.str?, JsonValue.variant?, hat, seen]

end FaultWindowLine

/-! ### The file -/

/-- The file after a number of lines, each flushed with its line feed. -/
def faultLogText (write : WriteLine) (lines : List FaultWindowLine) : String := lineFile write (lines.map (·.members))

/-- The file is read where the lines of each fault agree on it and are of different phases. -/
theorem parse_faultLogText {write : WriteLine} {reader : JournalReader} {lines : List FaultWindowLine}
    (h : write.ReadsBack reader (lines.map (·.members))) (debug : String → String) {path : String}
    (hfile : reader.readToString path = .ok (faultLogText write lines))
    (hconsistent : FaultLines.Consistent (lines.map (·.seen))) :
    ∃ ledger, parseFaultLedger reader debug path = .ok ledger ∧ ledger.Of (lines.map (·.seen)) := by
  refine exists_parseFaultLedger hfile ?_ hconsistent
  rw [faultLogText, textLines_whole h.no_break, List.forall₂_map_left_iff, List.forall₂_map_left_iff,
    List.forall₂_map_right_iff, List.forall₂_same]
  exact fun line hline =>
    ⟨line.members, h.read_write _ (List.mem_map_of_mem hline), line.nodup_keys, line.ofMembers_members⟩

end Duckspout
