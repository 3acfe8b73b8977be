import Duckspout.Judge.EvidenceFiles
import Mathlib.Data.Finset.Prod
import Mathlib.Data.Finset.Sort

/-! The run-level vacuity rules (`duckspout-judge/src/vacuity.rs`, with `summary.rs`): was there a run worth judging.

    A fault schedule must have fired whole, two nodes must have met, no node's journal may simply stop, and each load
    generator must have come to an end with few enough outcomes it could not tell. No rule convicts.

    The ceiling on ambiguous outcomes is a floating-point number; how it compares and how it is printed is a parameter. A
    path is its text. -/

namespace Duckspout

/-! ### The load generators' summaries -/

/-- The sidecar that a load generator writes when it comes to its end. -/
structure RunSummary where
  sent : U64
  acked : U64
  timedOut : U64
  rejected : U64
  ambiguous : U64
  deriving DecidableEq, Repr

/-- The outcomes there were, in 64 bits. -/
def RunSummary.resolvedTotal (summary : RunSummary) : U64 :=
  summary.acked + summary.timedOut + summary.rejected + summary.ambiguous

def RunSummary.ofMembers (members : Members) : Option RunSummary := do
  guard (members.Once ["sent", "acked", "timed_out", "rejected", "ambiguous"])
  let sent ← members.required "sent" JsonValue.u64?
  let acked ← members.required "acked" JsonValue.u64?
  let timedOut ← members.required "timed_out" JsonValue.u64?
  let rejected ← members.required "rejected" JsonValue.u64?
  let ambiguous ← members.required "ambiguous" JsonValue.u64?
  return { sent, acked, timedOut, rejected, ambiguous }

def RunSummary.ofValues : List JsonValue → Option RunSummary
  | [sent, acked, timedOut, rejected, ambiguous] => do
    let sent ← sent.u64?
    let acked ← acked.u64?
    let timedOut ← timedOut.u64?
    let rejected ← rejected.u64?
    let ambiguous ← ambiguous.u64?
    return { sent, acked, timedOut, rejected, ambiguous }
  | _ => none

/-- The ceiling on the fraction of ambiguous outcomes. -/
structure AmbiguityCeiling where
  /-- The fraction is above the ceiling. -/
  exceeded : U64 → U64 → Bool
  /-- The fraction in percent. -/
  percent : U64 → U64 → String
  /-- The ceiling in percent. -/
  ceilingPercent : String

inductive SummaryFinding where
  | unreadable (journalPath reason : String)
  | unresolvedInFlight (journalPath : String) (sent resolved : U64)
  | ambiguousFractionExceeded (journalPath : String) (ambiguous resolved : U64)
  deriving DecidableEq, Repr

def SummaryFinding.text (ceiling : AmbiguityCeiling) : SummaryFinding → String
  | .unreadable journalPath reason =>
    journalPath ++ ": run summary sidecar unreadable (" ++ reason ++ ") — a loadgen killed mid-run (SIGKILL) never " ++
      "reaches its own summary-writing code, so a missing/malformed summary is exactly that vacuity signature, not " ++
      "incidental noise"
  | .unresolvedInFlight journalPath sent resolved =>
    journalPath ++ ": sent " ++ toString sent ++ " batch(es) but only " ++ toString resolved ++ " were ever resolved — " ++
      "this run stopped with requests genuinely in flight"
  | .ambiguousFractionExceeded journalPath ambiguous resolved =>
    journalPath ++ ": " ++ toString ambiguous ++ "/" ++ toString resolved ++ " resolved outcomes (" ++
      ceiling.percent ambiguous resolved ++ "%) were Ambiguous, above the " ++ ceiling.ceilingPercent ++ "% ceiling"

def summaryPathFor (journalPath : String) : String := journalPath ++ ".summary.json"

/-- The files with a line that carries a request's identity. -/
def loadgenJournalSources (lines : List PlacedLine) : Finset String :=
  ((lines.filter (·.identity.isSome)).map (·.source)).toFinset

/-- A set in the order a `BTreeSet` is walked in. -/
def ascending {α : Type*} [LinearOrder α] (s : Finset α) : List α := s.sort (· ≤ ·)

section

variable (reader : JournalReader) (display : DecodeError → String) (ceiling : AmbiguityCeiling)

/-- A summary is an object, or the array of its fields. -/
def RunSummary.fromJson (text : String) : Except DecodeError RunSummary :=
  match reader.readObject text, reader.readArray text with
  | .ok members, _ => (RunSummary.ofMembers members).elim (.error (.malformed "RunSummary")) .ok
  | .error _, some values => (RunSummary.ofValues values).elim (.error (.malformed "RunSummary")) .ok
  | .error err, none => .error (.json err)

def readSummary (journalPath : String) : Except String RunSummary := do
  let summaryPath := summaryPathFor journalPath
  let text ← (reader.readToString summaryPath).mapError fun err => "reading " ++ summaryPath ++ ": " ++ err
  (RunSummary.fromJson reader text).mapError fun err => "decoding " ++ summaryPath ++ ": " ++ display err

/-- What is found of one load generator. -/
def checkSummary (journalPath : String) : List SummaryFinding :=
  match readSummary reader display journalPath with
  | .error reason => [.unreadable journalPath reason]
  | .ok summary =>
    let resolved := summary.resolvedTotal
    (if summary.sent > resolved then [.unresolvedInFlight journalPath summary.sent resolved] else []) ++
      if resolved > 0 ∧ ceiling.exceeded summary.ambiguous resolved then
        [.ambiguousFractionExceeded journalPath summary.ambiguous resolved]
      else []

def checkSummaries (lines : List PlacedLine) : Except (List SummaryFinding) Unit :=
  let findings := (ascending (loadgenJournalSources lines)).flatMap (checkSummary reader display ceiling)
  if findings.isEmpty then .ok () else .error findings

end

/-! ### The rules -/

/-- What a run-level rule finds. -/
inductive RunFinding where
  | notApplicable (reason : String)
  | armedButUnfired (faultId kind targetNode : String)
  | noCrossNodeContention (rosterNodes : ℕ)
  | continuity (finding : VacuityFinding)
  | loadgenSummary (finding : SummaryFinding)
  deriving DecidableEq, Repr

def VacuityFinding.text : VacuityFinding → String
  | .notApplicable reason => reason
  | .nodeNeverJournaled node =>
    "roster node " ++ node ++ " journaled nothing for the entire run, and no armed fault accounts for it — a machine " ++
      "that never spoke is exactly the under-reported-loss shape (§8.4)"
  | .nodeJournalNotIngested node journalLines =>
    "roster node " ++ node ++ " wrote " ++ toString journalLines ++ " journal line(s) that this judge run was never " ++
      "given — a run cannot be certified while a member's evidence is withheld"
  | .nodeExitedEarly node =>
    "roster node " ++ node ++ "'s process had already exited before teardown, and no armed fault accounts for it — a " ++
      "crash outside the fault schedule (§8.4)"
  | .nodeJournalStopped node silentMs budgetMs =>
    "roster node " ++ node ++ "'s journal stopped " ++ toString silentMs ++ " ms before the fleet's own last journal " ++
      "activity (budget " ++ toString budgetMs ++ " ms), and no armed fault accounts for it — a vanished machine " ++
      "accuses nothing and certifies nothing (§8.4)"

def RunFinding.text (ceiling : AmbiguityCeiling) : RunFinding → String
  | .notApplicable reason => reason
  | .armedButUnfired faultId kind targetNode =>
    "fault " ++ faultId ++ " (" ++ kind ++ ", target " ++ targetNode ++ ") was armed and never started — a schedule that " ++
      "armed faults and fired none proves nothing about resilience under those faults (§8.4)"
  | .noCrossNodeContention rosterNodes =>
    toString rosterNodes ++ "-node run with no observed cross-node contention: no roster node journaled a Forward that " ++
      "another journaled a PeerApply for, no roster node journaled a Receipt attesting a peer's forward, and no " ++
      "TakeoverDrain landed against another node's advertised claim — a multi-node run that never made two nodes meet " ++
      "certifies nothing multi-node (§8.4)"
  | .continuity finding => finding.text
  | .loadgenSummary finding => finding.text ceiling

def checkFaultSchedule (ledger : Option FaultLedger) : Except (List RunFinding) ℕ :=
  match ledger with
  | none =>
    .error [.notApplicable ("no --fault-log was given, so this run's fault firing was never measured from the " ++
      "injectors' own ledger (§8.4 requires exactly that, and forbids assuming it from the run's profile)")]
  | some ledger =>
    if ledger.windows.isEmpty then
      .error [.notApplicable ("the fault ledger records no fault window at all — the distributed tier exists to run a " ++
        "fault schedule, so a run that scheduled none certifies nothing about resilience under faults")]
    else
      let findings := (ledger.windows.filter (·.startedAtMs = none)).map fun window =>
        RunFinding.armedButUnfired window.faultId window.kind window.targetNode
      if findings.isEmpty then .ok ledger.windows.length else .error findings

/-- The roster's hosts that journaled an event. -/
def hostsJournaling (journals : JournalSet) (roster : Finset String) (event : TraceEvent) : Finset String :=
  ((journals.lines.filter (·.event = event)).map fun line => nodeHost line.node.raw).toFinset.filter (· ∈ roster)

/-- One interaction seen between two nodes of the roster. -/
structure ContentionPair where
  relation : String
  source : String
  target : String
  deriving DecidableEq, Repr

def crossPairs (relation : String) (sources targets : Finset String) : Finset ContentionPair :=
  ((sources ×ˢ targets).filter fun pair => pair.1 ≠ pair.2).image fun pair => ⟨relation, pair.1, pair.2⟩

def checkCrossNodeContention (journals : JournalSet) (manifest : Option RunManifest) : Except (List RunFinding) ℕ :=
  match manifest with
  | none =>
    .error [.notApplicable ("no --run-manifest was given, so this run's node roster is unknown — counting the node ids " ++
      "that happen to appear in the journals cannot substitute for it (a member that died at boot journals nothing and " ++
      "would silently shrink the roster to one, which is the very shape that excuses an absence of cross-node traffic)")]
  | some manifest =>
    let roster := (manifest.nodes.map (·.name)).toFinset
    if roster.card < 2 then
      .error [.notApplicable ("this run had " ++ toString roster.card ++ " node(s) on its roster: cross-node contention " ++
        "is not something it could have exercised, so it certifies nothing about it (§8.4's distributed tier is about " ++
        "real multi-node fleets)")]
    else
      let forwarders := hostsJournaling journals roster .forward
      let appliers := hostsJournaling journals roster .peerApply
      let takers := hostsJournaling journals roster .takeoverDrain
      let holders := hostsJournaling journals roster .claimAdvertise ∪ hostsJournaling journals roster .lakeCommitOk
      let pairs := crossPairs "replication" forwarders appliers ∪ crossPairs "ownership" takers holders
      let attesters := hostsJournaling journals roster .receipt
      let evidence := pairs.card + attesters.card
      if evidence = 0 then .error [.noCrossNodeContention roster.card] else .ok evidence

section

variable (reader : JournalReader) (display : DecodeError → String)

def checkLoadgenOutcomes (ceiling : AmbiguityCeiling) (lines : List PlacedLine) : Except (List RunFinding) ℕ :=
  let sources := loadgenJournalSources lines
  if sources = ∅ then
    .error [.notApplicable ("no loadgen journal is present in this evidence set (no line carries a payload identity), " ++
      "so the run's own client-side outcome quality — §8.4's ambiguous-outcome ceiling — went unexamined")]
  else
    match checkSummaries reader display ceiling lines with
    | .ok () => .ok sources.card
    | .error findings => .error (findings.map .loadgenSummary)

/-- What the rules grade. -/
structure VacuityInputs where
  lines : List PlacedLine
  ledger : Option FaultLedger
  manifest : Option RunManifest
  ceiling : AmbiguityCeiling
  maxJournalSilenceMs : U64

def VacuityInputs.journals (inputs : VacuityInputs) : JournalSet := ⟨inputs.lines.map (·.toJournalLine)⟩

/-- A rule's answer as a verdict; findings withhold it. -/
def toVerdict (ceiling : AmbiguityCeiling) : Except (List RunFinding) ℕ → Verdict RunFinding
  | .ok checked => .passing checked "this run-level vacuity rule reported no findings but also checked nothing"
  | .error findings => .noVerdict ("; ".intercalate (findings.map (·.text ceiling)))

def checkAll (inputs : VacuityInputs) : List (String × Verdict RunFinding) :=
  [("vacuity/fault-schedule-fired", toVerdict inputs.ceiling (checkFaultSchedule inputs.ledger)),
    ("vacuity/cross-node-contention", toVerdict inputs.ceiling (checkCrossNodeContention inputs.journals inputs.manifest)),
    ("vacuity/node-journal-continuity", toVerdict inputs.ceiling
      ((checkNodeContinuity inputs.journals inputs.manifest inputs.ledger inputs.maxJournalSilenceMs).mapError
        (·.map .continuity))),
    ("vacuity/loadgen-outcome-quality", toVerdict inputs.ceiling
      (checkLoadgenOutcomes reader display inputs.ceiling inputs.lines))]

end

/-! ### What satisfies a rule -/

/-- There were faults, and each of them fired. -/
def ScheduleFired (ledger : Option FaultLedger) : Prop :=
  ∃ l, ledger = some l ∧ l.windows ≠ [] ∧ ∀ w ∈ l.windows, w.startedAtMs ≠ none

/-- A node of the roster journaled an event, under whichever incarnation. -/
def RosterJournaled (journals : JournalSet) (manifest : RunManifest) (event : TraceEvent) (host : String) : Prop :=
  (∃ node ∈ manifest.nodes, node.name = host) ∧ ∃ line ∈ journals.lines, line.event = event ∧ nodeHost line.node.raw = host

/-- A roster of two nodes or more, of which one journaled a receipt, or one forwarded and another applied, or one took over
    and another had a claim. -/
def NodesMet (journals : JournalSet) (manifest : Option RunManifest) : Prop :=
  ∃ m, manifest = some m ∧ (∃ a ∈ m.nodes, ∃ b ∈ m.nodes, a.name ≠ b.name) ∧
    ((∃ a, RosterJournaled journals m .receipt a) ∨ ∃ a b, a ≠ b ∧
      (RosterJournaled journals m .forward a ∧ RosterJournaled journals m .peerApply b ∨
        RosterJournaled journals m .takeoverDrain a ∧
          (RosterJournaled journals m .claimAdvertise b ∨ RosterJournaled journals m .lakeCommitOk b)))

/-- The fleet journaled, and no node of it is convicted. -/
def NoneVanished (journals : JournalSet) (manifest : Option RunManifest) (ledger : Option FaultLedger) (budgetMs : U64) :
    Prop :=
  ∃ m last, manifest = some m ∧ m.lastProgressAtMs = some last ∧ ∀ node ∈ m.nodes, ¬ Convicted journals m ledger budgetMs node

/-- There was a load generator, and each has a summary, of a run that was not cut short, with few ambiguous outcomes. -/
def LoadgensEnded (reader : JournalReader) (display : DecodeError → String) (ceiling : AmbiguityCeiling)
    (lines : List PlacedLine) : Prop :=
  (∃ line ∈ lines, line.identity.isSome = true) ∧ ∀ line ∈ lines, line.identity.isSome = true →
    ∃ summary, readSummary reader display line.source = .ok summary ∧ summary.sent ≤ summary.resolvedTotal ∧
      (0 < summary.resolvedTotal → ceiling.exceeded summary.ambiguous summary.resolvedTotal = false)

section

variable {reader : JournalReader} {display : DecodeError → String} {ceiling : AmbiguityCeiling} {ledger : Option FaultLedger}
  {journals : JournalSet} {manifest : Option RunManifest} {budgetMs : U64} {lines : List PlacedLine}

theorem checkFaultSchedule_ok (ledger : Option FaultLedger) : (∃ n, checkFaultSchedule ledger = .ok n ∧ n ≠ 0) ↔ ScheduleFired ledger := by
  rcases ledger with _ | l
  · simp [checkFaultSchedule, ScheduleFired]
  simp only [checkFaultSchedule, ScheduleFired, Option.some.injEq, exists_eq_left', List.isEmpty_iff]
  split_ifs with hwindows hfired
  · simp [hwindows]
  · simp only [List.map_eq_nil_iff, List.filter_eq_nil_iff, decide_eq_true_eq] at hfired
    simpa [hwindows] using hfired
  · simp only [List.map_eq_nil_iff, List.filter_eq_nil_iff, decide_eq_true_eq] at hfired
    simp [hfired]

theorem mem_hostsJournaling {m : RunManifest} {event : TraceEvent} {host : String} :
    host ∈ hostsJournaling journals (m.nodes.map (·.name)).toFinset event ↔ RosterJournaled journals m event host := by
  simp only [hostsJournaling, Finset.mem_filter, List.mem_toFinset, List.mem_map, List.mem_filter, decide_eq_true_eq,
    and_assoc, RosterJournaled]
  exact and_comm

theorem crossPairs_ne_empty {relation : String} {sources targets : Finset String} :
    crossPairs relation sources targets ≠ ∅ ↔ ∃ a b, a ≠ b ∧ a ∈ sources ∧ b ∈ targets := by
  rw [← Finset.nonempty_iff_ne_empty, crossPairs, Finset.image_nonempty]
  constructor
  · rintro ⟨⟨a, b⟩, hpair⟩
    obtain ⟨hmem, hne⟩ := Finset.mem_filter.mp hpair
    exact ⟨a, b, hne, Finset.mem_product.mp hmem⟩
  · rintro ⟨a, b, hne, hmem⟩
    exact ⟨(a, b), Finset.mem_filter.mpr ⟨Finset.mem_product.mpr hmem, hne⟩⟩

theorem checkCrossNodeContention_ok (journals : JournalSet) (manifest : Option RunManifest) :
    (∃ n, checkCrossNodeContention journals manifest = .ok n ∧ n ≠ 0) ↔ NodesMet journals manifest := by
  rcases manifest with _ | m
  · simp [checkCrossNodeContention, NodesMet]
  have hroster : ¬ (m.nodes.map (·.name)).toFinset.card < 2 ↔ ∃ a ∈ m.nodes, ∃ b ∈ m.nodes, a.name ≠ b.name := by
    rw [not_lt, Nat.succ_le_iff, Finset.one_lt_card]
    simp
  simp only [checkCrossNodeContention, NodesMet, Option.some.injEq, exists_eq_left', ← hroster]
  split_ifs with hsmall hnone
  · simp [hsmall]
  · refine iff_of_false (fun ⟨_, h, _⟩ => by cases h) fun ⟨_, hmet⟩ => ?_
    simp only [Nat.add_eq_zero_iff, Finset.card_eq_zero, Finset.union_eq_empty] at hnone
    obtain ⟨⟨hreplication, hownership⟩, hattesters⟩ := hnone
    rcases hmet with ⟨a, ha⟩ | ⟨a, b, hne, hpair⟩
    · rw [← mem_hostsJournaling, hattesters] at ha
      cases ha
    · simp only [← mem_hostsJournaling, ← Finset.mem_union] at hpair
      rcases hpair with hpair | hpair
      · exact crossPairs_ne_empty.mpr ⟨a, b, hne, hpair⟩ hreplication
      · exact crossPairs_ne_empty.mpr ⟨a, b, hne, hpair⟩ hownership
  · refine iff_of_true ⟨_, rfl, hnone⟩ ⟨hsmall, ?_⟩
    by_contra hmet
    obtain ⟨hreceipt, hpairs⟩ := not_or.mp hmet
    refine hnone ?_
    simp only [Nat.add_eq_zero_iff, Finset.card_eq_zero, Finset.union_eq_empty]
    refine ⟨⟨?_, ?_⟩, Finset.eq_empty_iff_forall_notMem.mpr fun a ha => hreceipt ⟨a, mem_hostsJournaling.mp ha⟩⟩
    · by_contra hsome
      obtain ⟨a, b, hne, ha, hb⟩ := crossPairs_ne_empty.mp hsome
      exact hpairs ⟨a, b, hne, Or.inl ⟨mem_hostsJournaling.mp ha, mem_hostsJournaling.mp hb⟩⟩
    · by_contra hsome
      obtain ⟨a, b, hne, ha, hb⟩ := crossPairs_ne_empty.mp hsome
      rw [Finset.mem_union, mem_hostsJournaling, mem_hostsJournaling] at hb
      exact hpairs ⟨a, b, hne, Or.inr ⟨mem_hostsJournaling.mp ha, hb⟩⟩

/-- The rule on continuity counts the nodes it has checked. -/
theorem checkNodeContinuity_ne_zero {n : ℕ} (h : checkNodeContinuity journals manifest ledger budgetMs = .ok n) : n ≠ 0 := by
  rcases manifest with _ | m
  · cases h
  simp only [checkNodeContinuity] at h
  split at h
  · cases h
  rename_i hnodes
  split at h
  · cases h
  split at h
  · cases h
    exact fun hzero => hnodes (List.isEmpty_iff.mpr (List.length_eq_zero_iff.mp hzero))
  · cases h

theorem noneVanished_iff (journals : JournalSet) (manifest : Option RunManifest) (ledger : Option FaultLedger) (budgetMs : U64) :
    (∃ n, (checkNodeContinuity journals manifest ledger budgetMs).mapError (·.map RunFinding.continuity) = .ok n ∧ n ≠ 0) ↔
      NoneVanished journals manifest ledger budgetMs := by
  have hok : (∃ n, (checkNodeContinuity journals manifest ledger budgetMs).mapError (·.map RunFinding.continuity) = .ok n ∧
      n ≠ 0) ↔ ∃ n, checkNodeContinuity journals manifest ledger budgetMs = .ok n := by
    refine exists_congr fun n => ?_
    rw [Fallible.mapError_eq_ok]
    exact and_iff_left_of_imp checkNodeContinuity_ne_zero
  rw [hok]
  rcases manifest with _ | m
  · simp [checkNodeContinuity, NoneVanished]
  · simp [checkNodeContinuity_ok, NoneVanished]

theorem mem_loadgenJournalSources {path : String} :
    path ∈ loadgenJournalSources lines ↔ ∃ line ∈ lines, line.identity.isSome = true ∧ line.source = path := by
  simp [loadgenJournalSources, and_assoc]

theorem RunSummary.fromJson_object {text : String} {members : Members} (h : reader.readObject text = .ok members) :
    RunSummary.fromJson reader text = (RunSummary.ofMembers members).elim (.error (.malformed "RunSummary")) .ok := by
  rw [RunSummary.fromJson, h]

theorem checkSummary_eq_nil {path : String} : checkSummary reader display ceiling path = [] ↔
    ∃ summary, readSummary reader display path = .ok summary ∧ summary.sent ≤ summary.resolvedTotal ∧
      (0 < summary.resolvedTotal → ceiling.exceeded summary.ambiguous summary.resolvedTotal = false) := by
  rcases hread : readSummary reader display path with reason | summary
  · simp [checkSummary, hread]
  · simp only [checkSummary, hread, Except.ok.injEq, exists_eq_left', List.append_eq_nil_iff]
    refine and_congr ?_ ?_
    · split_ifs with hsent
      · simp [hsent]
      · simpa using hsent
    · split_ifs with hexceeded
      · simp [hexceeded]
      · simpa using hexceeded

theorem checkLoadgenOutcomes_ok (reader : JournalReader) (display : DecodeError → String) (ceiling : AmbiguityCeiling)
    (lines : List PlacedLine) : (∃ n, checkLoadgenOutcomes reader display ceiling lines = .ok n ∧ n ≠ 0) ↔
    LoadgensEnded reader display ceiling lines := by
  have hsome : loadgenJournalSources lines ≠ ∅ ↔ ∃ line ∈ lines, line.identity.isSome = true := by
    rw [← Finset.nonempty_iff_ne_empty]
    constructor
    · rintro ⟨path, hpath⟩
      obtain ⟨line, hline, hidentity, -⟩ := mem_loadgenJournalSources.mp hpath
      exact ⟨line, hline, hidentity⟩
    · rintro ⟨line, hline, hidentity⟩
      exact ⟨line.source, mem_loadgenJournalSources.mpr ⟨line, hline, hidentity, rfl⟩⟩
  have hclean : (ascending (loadgenJournalSources lines)).flatMap (checkSummary reader display ceiling) = [] ↔
      ∀ line ∈ lines, line.identity.isSome = true → checkSummary reader display ceiling line.source = [] := by
    simp only [List.flatMap_eq_nil_iff, ascending, Finset.mem_sort, mem_loadgenJournalSources]
    constructor
    · exact fun h line hline hidentity => h line.source ⟨line, hline, hidentity, rfl⟩
    · rintro h path ⟨line, hline, hidentity, rfl⟩
      exact h line hline hidentity
  simp only [checkSummary_eq_nil] at hclean
  rw [LoadgensEnded, ← hsome, ← hclean, checkLoadgenOutcomes, checkSummaries]
  by_cases hsources : loadgenJournalSources lines = ∅
  · simp [hsources]
  · simp only [if_neg hsources, List.isEmpty_iff]
    split_ifs with hfindings
    · simp [hsources, hfindings]
    · simp [hfindings]

end

end Duckspout
