import Duckspout.Judge.Evidence
import Duckspout.Fleet.RunLog

/-! Node continuity (`duckspout-judge/src/vacuity.rs` over `fault_ledger.rs` and `run_manifest.rs`): no roster node's
    journal may simply stop.

    A node's silence is measured against the fleet's last activity, cut short at the first terminal fault on the node,
    and a fault that was in effect over the whole of it is an alibi. A node restarted under its roster name can make
    progress after a terminal fault; its silence is then measured against an instant before its own last progress, and
    is none. -/

namespace Duckspout

/-- `u64::saturating_add`. -/
def saturatingAdd (a b : ℕ) : ℕ := min (a + b) u64Max

/-- The host half of a journaled node id: everything before the first `/`. -/
def nodeHost (nodeId : String) : String := String.ofList (nodeId.toList.takeWhile (· ≠ '/'))

/-! ### The fault ledger -/

/-- The kinds of fault whose effect on the target is permanent. -/
def terminalFaultKinds : List String := ["node_kill", "membership_leave", "flight_kill_mid_stream"]

/-- One fault, as its injector journaled it. -/
structure FaultWindow where
  faultId : String
  kind : String
  targetNode : String
  armedAtMs : Option U64
  startedAtMs : Option U64
  endedAtMs : Option U64
  deriving DecidableEq, Repr

/-- How far outside an interval a fault may sit and still be its alibi. -/
structure AlibiTolerance where
  startSlackMs : ℕ
  endSlackMs : ℕ
  deriving DecidableEq, Repr

namespace FaultWindow

def isTerminal (w : FaultWindow) : Bool := w.kind ∈ terminalFaultKinds

def targetHost (w : FaultWindow) : String := nodeHost w.targetNode

/-- The fault was in effect across the whole interval, within the tolerance. -/
def covers (w : FaultWindow) (fromMs untilMs : ℕ) (tolerance : AlibiTolerance) : Bool :=
  match w.startedAtMs with
  | none => false
  | some started =>
    if (started : ℕ) > saturatingAdd fromMs tolerance.startSlackMs then false
    else
      match w.endedAtMs with
      | none => true
      | some ended => saturatingAdd ended tolerance.endSlackMs ≥ untilMs

end FaultWindow

structure FaultLedger where
  windows : List FaultWindow
  deriving DecidableEq, Repr

/-- The faults on a node, named bare or with its incarnation. -/
def FaultLedger.windowsTargeting (ledger : FaultLedger) (node : String) : List FaultWindow :=
  ledger.windows.filter (·.targetHost = nodeHost node)

/-- When a terminal fault first took the node out of the run. -/
def FaultLedger.terminalHorizon (ledger : FaultLedger) (node : String) : Option U64 :=
  (((ledger.windowsTargeting node).filter (·.isTerminal)).filterMap (·.startedAtMs)).min?

/-! ### The rule -/

inductive VacuityFinding where
  | notApplicable (reason : String)
  | nodeNeverJournaled (node : String)
  | nodeJournalNotIngested (node : String) (journalLines : ℕ)
  | nodeExitedEarly (node : String)
  | nodeJournalStopped (node : String) (silentMs budgetMs : ℕ)
  deriving DecidableEq, Repr

/-- The hosts whose journals were handed in. -/
def ingestedHosts (journals : JournalSet) : List String := journals.lines.map fun line => nodeHost line.node.raw

/-- Some fault on the node was in effect across the interval. -/
def coveredBy (ledger : Option FaultLedger) (tolerance : AlibiTolerance) (node : String) (fromMs untilMs : ℕ) : Bool :=
  ledger.any fun ledger => (ledger.windowsTargeting node).any (·.covers fromMs untilMs tolerance)

def terminalAt (ledger : Option FaultLedger) (node : String) : Option U64 := ledger.bind (·.terminalHorizon node)

/-- Until when the node is expected to journal. -/
def horizonOf (ledger : Option FaultLedger) (runLastProgress : U64) (node : String) : U64 :=
  min ((terminalAt ledger node).getD runLastProgress) runLastProgress

/-- What one roster node is found of. -/
def judgeNode (journals : JournalSet) (ledger : Option FaultLedger) (startedAtMs : U64) (tolerance : AlibiTolerance)
    (budgetMs : U64) (runLastProgress : U64) (node : NodeRun) : Option VacuityFinding :=
  let horizon := horizonOf ledger runLastProgress node.name
  match node.lastProgressAtMs with
  | none =>
    if coveredBy ledger tolerance node.name startedAtMs horizon then none else some (.nodeNeverJournaled node.name)
  | some lastProgress =>
    if node.name ∉ ingestedHosts journals then some (.nodeJournalNotIngested node.name node.journalLines)
    else if node.exitedEarly ∧ terminalAt ledger node.name = none then some (.nodeExitedEarly node.name)
    else
      let silentMs := (horizon : ℕ) - lastProgress
      if silentMs > budgetMs ∧ ¬ coveredBy ledger tolerance node.name lastProgress horizon then
        some (.nodeJournalStopped node.name silentMs budgetMs)
      else none

/-- No roster node's journal may simply stop: the number of nodes checked, or what was found. -/
def checkNodeContinuity (journals : JournalSet) (manifest : Option RunManifest) (ledger : Option FaultLedger)
    (budgetMs : U64) : Except (List VacuityFinding) ℕ :=
  match manifest with
  | none =>
    .error [.notApplicable ("no --run-manifest was given: without the runner's roster and its per-node " ++
      "journal-progress samples, a node whose journal stopped is indistinguishable from a node that was never in the " ++
      "run (D-6 journals carry no roster and no timestamps)")]
  | some manifest =>
    if manifest.nodes.isEmpty then
      .error [.notApplicable "the run manifest's roster is empty — no node ran, so none can have certified anything"]
    else
      match manifest.lastProgressAtMs with
      | none =>
        .error [.notApplicable ("no roster node ever journaled a single line, so there is no fleet activity to " ++
          "measure any node's silence against — the whole run is the vacuous case")]
      | some runLastProgress =>
        let tolerance : AlibiTolerance := ⟨saturatingAdd budgetMs manifest.sampleIntervalMs, manifest.sampleIntervalMs⟩
        let findings := manifest.nodes.filterMap
          (judgeNode journals ledger manifest.startedAtMs tolerance budgetMs runLastProgress)
        if findings.isEmpty then .ok manifest.nodes.length else .error findings

/-! ### What accounts for a silence -/

/-- The fault fired no later than `startSlackMs` after `fromMs`, and was not lifted earlier than `endSlackMs` before
    `untilMs`. -/
def FaultWindow.InEffect (w : FaultWindow) (fromMs untilMs startSlackMs endSlackMs : ℕ) : Prop :=
  ∃ started : U64, w.startedAtMs = some started ∧ (started : ℕ) ≤ fromMs + startSlackMs ∧
    ∀ ended : U64, w.endedAtMs = some ended → untilMs ≤ ended + endSlackMs

/-- A terminal fault that fired more than one sample before the node's last progress: the node was up again. -/
def FaultWindow.CameBackFrom (w : FaultWindow) (sampleMs progressMs : ℕ) : Prop :=
  w.isTerminal = true ∧ ∃ started ∈ w.startedAtMs, (started : ℕ) + sampleMs < progressMs

instance (w : FaultWindow) (sampleMs progressMs : ℕ) : Decidable (w.CameBackFrom sampleMs progressMs) :=
  inferInstanceAs (Decidable (_ ∧ _))

/-- The ledger without the faults that the node came back from. -/
def FaultLedger.sinceRestart (ledger : FaultLedger) (node : String) (sampleMs progressMs : ℕ) : FaultLedger :=
  ⟨ledger.windows.filter fun w => ¬ (w.targetHost = nodeHost node ∧ w.CameBackFrom sampleMs progressMs)⟩

/-- A fault of the ledger on the node. -/
def FaultOn (ledger : Option FaultLedger) (node : String) (w : FaultWindow) : Prop :=
  ∃ l ∈ ledger, w ∈ l.windowsTargeting node

/-- A terminal fault fired on the node at that instant. -/
def TerminalFault (ledger : Option FaultLedger) (node : String) (atMs : U64) : Prop :=
  ∃ w, FaultOn ledger node w ∧ w.isTerminal = true ∧ w.startedAtMs = some atMs

/-- A node is expected to journal until the fleet's last activity, or until the first terminal fault on it. -/
def ExpectedUntil (ledger : Option FaultLedger) (node : String) (lastMs horizon : U64) : Prop :=
  IsLeast (insert lastMs {t | TerminalFault ledger node t}) horizon

/-- A fired fault on the node was in effect over the interval, within the tolerances of the run. -/
def HasAlibi (manifest : RunManifest) (ledger : Option FaultLedger) (budgetMs : U64) (node : String)
    (fromMs untilMs : ℕ) : Prop :=
  ∃ w, FaultOn ledger node w ∧
    w.InEffect fromMs untilMs (budgetMs + manifest.sampleIntervalMs) manifest.sampleIntervalMs

section

variable {manifest : RunManifest} {ledger : Option FaultLedger} {budgetMs : U64} {node : String}

theorem covers_iff {w : FaultWindow} {fromMs untilMs budget grain : ℕ} (huntil : untilMs ≤ u64Max) :
    w.covers fromMs untilMs ⟨saturatingAdd budget grain, grain⟩ = true ↔ w.InEffect fromMs untilMs (budget + grain) grain := by
  have hmax : ∀ n : U64, (n : ℕ) ≤ u64Max := fun n => Nat.le_sub_one_of_lt n.isLt
  simp only [FaultWindow.covers, FaultWindow.InEffect, saturatingAdd]
  cases hstarted : w.startedAtMs with
  | none => simp
  | some started =>
    have hstart := hmax started
    cases hended : w.endedAtMs with
    | none =>
      simp
      omega
    | some ended =>
      simp
      omega

theorem coveredBy_iff {fromMs untilMs : ℕ} (huntil : untilMs ≤ u64Max) :
    coveredBy ledger ⟨saturatingAdd budgetMs manifest.sampleIntervalMs, manifest.sampleIntervalMs⟩ node fromMs untilMs =
      true ↔ HasAlibi manifest ledger budgetMs node fromMs untilMs := by
  simp only [coveredBy, HasAlibi, FaultOn]
  cases ledger with
  | none => simp
  | some l => simp [covers_iff huntil]

theorem mem_terminal {l : FaultLedger} {atMs : U64} :
    atMs ∈ ((l.windowsTargeting node).filter (·.isTerminal)).filterMap (·.startedAtMs) ↔
      TerminalFault (some l) node atMs := by
  simp [TerminalFault, FaultOn, and_assoc]

theorem terminalAt_eq_none : terminalAt ledger node = none ↔ ∀ t, ¬ TerminalFault ledger node t := by
  cases ledger with
  | none => simp [terminalAt, TerminalFault, FaultOn]
  | some l =>
    simp only [terminalAt, Option.bind_some, FaultLedger.terminalHorizon, List.min?_eq_none_iff,
      List.eq_nil_iff_forall_not_mem, mem_terminal]

theorem terminalAt_eq_some {t : U64} : terminalAt ledger node = some t ↔
    TerminalFault ledger node t ∧ ∀ u, TerminalFault ledger node u → t ≤ u := by
  cases ledger with
  | none => simp [terminalAt, TerminalFault, FaultOn]
  | some l =>
    simp only [terminalAt, Option.bind_some, FaultLedger.terminalHorizon, List.min?_eq_some_iff, mem_terminal]

theorem expectedUntil_horizonOf (lastMs : U64) : ExpectedUntil ledger node lastMs (horizonOf ledger lastMs node) := by
  cases hterminal : terminalAt ledger node with
  | none =>
    have hempty : {t | TerminalFault ledger node t} = ∅ := by
      ext t
      simpa using terminalAt_eq_none.mp hterminal t
    simp [ExpectedUntil, horizonOf, hterminal, hempty]
  | some t =>
    obtain ⟨hfault, hfirst⟩ := terminalAt_eq_some.mp hterminal
    rw [horizonOf, hterminal, Option.getD_some, min_comm]
    exact IsLeast.insert lastMs ⟨hfault, hfirst⟩

theorem expectedUntil_iff {lastMs horizon : U64} :
    ExpectedUntil ledger node lastMs horizon ↔ horizon = horizonOf ledger lastMs node :=
  ⟨fun h => h.unique (expectedUntil_horizonOf lastMs), fun h => h ▸ expectedUntil_horizonOf lastMs⟩

end

/-! ### What is accepted -/

section

variable (journals : JournalSet) (manifest : RunManifest) (ledger : Option FaultLedger) (budgetMs : U64)

/-- A fault accounts for a silence from `fromMs` to the fleet's last activity: it was in effect over all of it, or was
    terminal and fired at most one sample before the silence began. -/
def AccountedFor (node : String) (fromMs lastMs : U64) : Prop :=
  HasAlibi manifest ledger budgetMs node fromMs lastMs ∨
    ∃ t, TerminalFault ledger node t ∧ (fromMs : ℕ) ≤ t + manifest.sampleIntervalMs

/-- An accepted run hides no vanished node: every node that journaled was ingested, one that never did was covered from
    the start of the run for as long as it was expected to, and a silence longer than the budget is accounted for, and
    is not accepted because of a fault the node came back from: nothing is found of the node either when the ledger
    is without the terminal faults that fired more than one sample before its last progress. -/
def AcceptsNoVanished : Prop :=
  ∀ n, checkNodeContinuity journals (some manifest) ledger budgetMs = .ok n → ∀ node ∈ manifest.nodes,
    (node.lastProgressAtMs.isSome → node.name ∈ ingestedHosts journals) ∧
    ∀ last, manifest.lastProgressAtMs = some last →
      (node.lastProgressAtMs = none → ∀ horizon, ExpectedUntil ledger node.name last horizon →
        HasAlibi manifest ledger budgetMs node.name manifest.startedAtMs horizon) ∧
      ∀ progress, node.lastProgressAtMs = some progress → (progress : ℕ) + budgetMs < last →
        AccountedFor manifest ledger budgetMs node.name progress last ∧
        judgeNode journals (ledger.map (·.sinceRestart node.name manifest.sampleIntervalMs progress)) manifest.startedAtMs
          ⟨saturatingAdd budgetMs manifest.sampleIntervalMs, manifest.sampleIntervalMs⟩ budgetMs last node = none

/-- The evidence speaks against the node: it never journaled and no fault covers it, its journal was withheld, it
    exited with no terminal fault on it, or it was silent beyond the budget while it was expected to journal. -/
def Convicted (node : NodeRun) : Prop :=
  ∃ last horizon, manifest.lastProgressAtMs = some last ∧ ExpectedUntil ledger node.name last horizon ∧
    match node.lastProgressAtMs with
    | none => ¬ HasAlibi manifest ledger budgetMs node.name manifest.startedAtMs horizon
    | some progress =>
      node.name ∉ ingestedHosts journals ∨ (node.exitedEarly = true ∧ ∀ t, ¬ TerminalFault ledger node.name t) ∨
        ((progress : ℕ) + budgetMs < horizon ∧ ¬ HasAlibi manifest ledger budgetMs node.name progress horizon)

/-- The node was silent beyond the budget, after it had come back from a terminal fault on it, and nothing but the
    faults it came back from speaks for it: it exited with no terminal fault since, or it was silent beyond the budget
    before the fleet's last activity and every terminal fault since, with no other fault in effect over that silence. -/
def VanishedAfterRestart (node : NodeRun) : Prop :=
  ∃ progress last, node.lastProgressAtMs = some progress ∧ manifest.lastProgressAtMs = some last ∧
    (progress : ℕ) + budgetMs < last ∧
    (∃ t, TerminalFault ledger node.name t ∧ (t : ℕ) + manifest.sampleIntervalMs < progress) ∧
    ((node.exitedEarly = true ∧
        ∀ t, TerminalFault ledger node.name t → (t : ℕ) + manifest.sampleIntervalMs < progress) ∨
      ∃ stop, IsLeast (insert last {t | TerminalFault ledger node.name t ∧
          (progress : ℕ) ≤ t + manifest.sampleIntervalMs}) stop ∧
        (progress : ℕ) + budgetMs < stop ∧
        ¬ ∃ w, FaultOn ledger node.name w ∧ ¬ w.CameBackFrom manifest.sampleIntervalMs progress ∧
          w.InEffect progress stop (budgetMs + manifest.sampleIntervalMs) manifest.sampleIntervalMs)

end

section

variable {journals : JournalSet} {manifest : RunManifest} {ledger : Option FaultLedger} {budgetMs : U64}
  {node : NodeRun} {last : U64}

/-- The loop's body finds something exactly of a convicted node. -/
theorem judgeNode_eq_none (hlast : manifest.lastProgressAtMs = some last) :
    judgeNode journals ledger manifest.startedAtMs
        ⟨saturatingAdd budgetMs manifest.sampleIntervalMs, manifest.sampleIntervalMs⟩ budgetMs last node = none ↔
      ¬ Convicted journals manifest ledger budgetMs node := by
  have hhorizon : (horizonOf ledger last node.name : ℕ) ≤ u64Max :=
    Nat.le_sub_one_of_lt (horizonOf ledger last node.name).isLt
  have hcovered : ∀ fromMs : ℕ, coveredBy ledger
        ⟨saturatingAdd budgetMs manifest.sampleIntervalMs, manifest.sampleIntervalMs⟩ node.name fromMs
        (horizonOf ledger last node.name) = true ↔
      HasAlibi manifest ledger budgetMs node.name fromMs (horizonOf ledger last node.name) :=
    fun _ => coveredBy_iff hhorizon
  simp only [judgeNode, Convicted, hlast, expectedUntil_iff, Option.some.injEq, exists_and_left, exists_eq_left,
    exists_eq_left']
  cases hprogress : node.lastProgressAtMs with
  | none =>
    dsimp only
    rw [← hcovered]
    split_ifs with halibi
    · simp [halibi]
    · simp [halibi]
  | some progress =>
    have hsilent : ((horizonOf ledger last node.name : ℕ) - progress > budgetMs) ↔
        (progress : ℕ) + budgetMs < horizonOf ledger last node.name := by omega
    simp only [← terminalAt_eq_none, ← hcovered, ← hsilent]
    split_ifs with hin hexit hstop
    · simp [hexit.1, hexit.2]
    · simp only [false_iff, not_not]
      exact .inr (.inr hstop)
    · simp only [true_iff, not_or]
      exact ⟨not_not.mpr hin, hexit, hstop⟩
    · simp [hin]

/-- A run is accepted when the fleet has journaled and no node is convicted. -/
theorem checkNodeContinuity_ok : (∃ n, checkNodeContinuity journals (some manifest) ledger budgetMs = .ok n) ↔
    (∃ last, manifest.lastProgressAtMs = some last) ∧
      ∀ node ∈ manifest.nodes, ¬ Convicted journals manifest ledger budgetMs node := by
  simp only [checkNodeContinuity, List.isEmpty_iff]
  split_ifs with hnodes
  · simp [RunManifest.lastProgressAtMs, hnodes]
  cases hlast : manifest.lastProgressAtMs with
  | none => simp
  | some last =>
    simp only [Option.some.injEq, exists_eq', true_and, ← judgeNode_eq_none hlast, List.filterMap_eq_nil_iff]
    split_ifs with hnone
    · exact ⟨fun _ => hnone, fun _ => ⟨_, rfl⟩⟩
    · refine ⟨?_, fun h => absurd h hnone⟩
      rintro ⟨n, h⟩
      cases h

/-! ### The faults a node came back from -/

theorem faultOn_sinceRestart {name : String} {sampleMs progressMs : ℕ} {w : FaultWindow} :
    FaultOn (ledger.map (·.sinceRestart name sampleMs progressMs)) name w ↔
      FaultOn ledger name w ∧ ¬ w.CameBackFrom sampleMs progressMs := by
  cases ledger with
  | none => simp [FaultOn]
  | some l =>
    simp only [FaultOn, FaultLedger.sinceRestart, FaultLedger.windowsTargeting, Option.map_some, Option.mem_some_iff,
      exists_eq_left', List.mem_filter, decide_eq_true_eq, not_and]
    tauto

theorem terminalFault_sinceRestart {name : String} {sampleMs progressMs : ℕ} {t : U64} :
    TerminalFault (ledger.map (·.sinceRestart name sampleMs progressMs)) name t ↔
      TerminalFault ledger name t ∧ progressMs ≤ t + sampleMs := by
  constructor
  · rintro ⟨w, hw, hterminal, hstarted⟩
    obtain ⟨hon, hback⟩ := faultOn_sinceRestart.mp hw
    refine ⟨⟨w, hon, hterminal, hstarted⟩, ?_⟩
    by_contra hlt
    exact hback ⟨hterminal, t, hstarted, not_le.mp hlt⟩
  · rintro ⟨⟨w, hon, hterminal, hstarted⟩, hle⟩
    refine ⟨w, faultOn_sinceRestart.mpr ⟨hon, ?_⟩, hterminal, hstarted⟩
    rintro ⟨-, started, hmem, hlt⟩
    obtain rfl := Option.some.inj (hmem.symm.trans hstarted)
    omega

/-- What an ingested node is convicted of when the faults it came back from are left out. -/
theorem convicted_sinceRestart {progress : U64} (hlast : manifest.lastProgressAtMs = some last)
    (hprogress : node.lastProgressAtMs = some progress) (hin : node.name ∈ ingestedHosts journals) :
    Convicted journals manifest (ledger.map (·.sinceRestart node.name manifest.sampleIntervalMs progress)) budgetMs
        node ↔
      (node.exitedEarly = true ∧
        ∀ t, TerminalFault ledger node.name t → (t : ℕ) + manifest.sampleIntervalMs < progress) ∨
      ∃ stop, IsLeast (insert last {t | TerminalFault ledger node.name t ∧
          (progress : ℕ) ≤ t + manifest.sampleIntervalMs}) stop ∧
        (progress : ℕ) + budgetMs < stop ∧
        ¬ ∃ w, FaultOn ledger node.name w ∧ ¬ w.CameBackFrom manifest.sampleIntervalMs progress ∧
          w.InEffect progress stop (budgetMs + manifest.sampleIntervalMs) manifest.sampleIntervalMs := by
  simp only [Convicted, ExpectedUntil, HasAlibi, hlast, hprogress, terminalFault_sinceRestart, faultOn_sinceRestart,
    not_true_eq_false, hin, false_or, Option.some.injEq, exists_and_left, exists_eq_left', not_and, not_le, and_assoc]
  constructor
  · rintro ⟨stop, hstop, hexit | hsilent⟩
    · exact .inl hexit
    · exact .inr ⟨stop, hstop, hsilent⟩
  · have hleast := @expectedUntil_horizonOf (ledger.map (·.sinceRestart node.name manifest.sampleIntervalMs progress))
      node.name last
    simp only [ExpectedUntil, terminalFault_sinceRestart] at hleast
    rintro (hexit | ⟨stop, hstop, hsilent⟩)
    · exact ⟨_, hleast, .inl hexit⟩
    · exact ⟨stop, hstop, .inr hsilent⟩

/-- A node that came back from no fault is convicted on the whole ledger. -/
theorem convicted_of_sinceRestart {name : String} {sampleMs progressMs : ℕ} (hname : name = node.name)
    (hnone : ∀ t, TerminalFault ledger name t → progressMs ≤ t + sampleMs)
    (hc : Convicted journals manifest (ledger.map (·.sinceRestart name sampleMs progressMs)) budgetMs node) :
    Convicted journals manifest ledger budgetMs node := by
  subst hname
  have hon : ∀ w, FaultOn (ledger.map (·.sinceRestart node.name sampleMs progressMs)) node.name w ↔
      FaultOn ledger node.name w := by
    refine fun w => faultOn_sinceRestart.trans (and_iff_left_of_imp fun hw => ?_)
    rintro ⟨hterminal, started, hstarted, hlt⟩
    have hle := hnone started ⟨w, hw, hterminal, hstarted⟩
    omega
  simpa only [Convicted, ExpectedUntil, HasAlibi, TerminalFault, hon] using hc

/-- An acquitted node that did not vanish after a restart is acquitted without the faults it came back from. -/
theorem acquitted_sinceRestart {progress : U64} (hlast : manifest.lastProgressAtMs = some last)
    (hprogress : node.lastProgressAtMs = some progress) (hsilent : (progress : ℕ) + budgetMs < last)
    (hin : node.name ∈ ingestedHosts journals) (hfree : ¬ Convicted journals manifest ledger budgetMs node)
    (hstayed : ¬ VanishedAfterRestart manifest ledger budgetMs node) :
    ¬ Convicted journals manifest (ledger.map (·.sinceRestart node.name manifest.sampleIntervalMs progress)) budgetMs
      node := by
  intro hc
  by_cases hback : ∃ t, TerminalFault ledger node.name t ∧ (t : ℕ) + manifest.sampleIntervalMs < progress
  · exact hstayed ⟨progress, last, hprogress, hlast, hsilent, hback,
      (convicted_sinceRestart hlast hprogress hin).mp hc⟩
  · refine hfree (convicted_of_sinceRestart rfl (fun t ht => ?_) hc)
    by_contra hlt
    exact hback ⟨t, ht, not_le.mp hlt⟩

/-- Without the faults a node came back from, what acquits it accounts for its silence. -/
theorem accounted_of_acquitted {progress : U64} (hlast : manifest.lastProgressAtMs = some last)
    (hprogress : node.lastProgressAtMs = some progress) (hsilent : (progress : ℕ) + budgetMs < last)
    (hin : node.name ∈ ingestedHosts journals)
    (hfree : ¬ Convicted journals manifest
      (ledger.map (·.sinceRestart node.name manifest.sampleIntervalMs progress)) budgetMs node) :
    AccountedFor manifest ledger budgetMs node.name progress last := by
  rw [convicted_sinceRestart hlast hprogress hin] at hfree
  obtain ⟨-, hsilence⟩ := not_or.mp hfree
  by_cases hlater : ∃ t, TerminalFault ledger node.name t ∧ (progress : ℕ) ≤ t + manifest.sampleIntervalMs
  · exact .inr hlater
  · -- with no terminal fault since, the node was expected to journal as long as the fleet did
    have hempty : {t | TerminalFault ledger node.name t ∧ (progress : ℕ) ≤ t + manifest.sampleIntervalMs} = ∅ :=
      Set.eq_empty_iff_forall_notMem.mpr fun t ht => hlater ⟨t, ht⟩
    by_contra hnot
    obtain ⟨halibi, -⟩ := not_or.mp hnot
    refine hsilence ⟨last, ?_, hsilent, ?_⟩
    · rw [hempty]
      simp
    · rintro ⟨w, hw, -, heffect⟩
      exact halibi ⟨w, hw, heffect⟩

/-- **An accepted run hides a vanished node only behind a restart.** Acceptance is sound unless every node is acquitted
    and one of them came back from a terminal fault, then vanished, and only that fault speaks for it. -/
theorem node_continuity_sound_iff (journals : JournalSet) (manifest : RunManifest) (ledger : Option FaultLedger)
    (budgetMs : U64) : AcceptsNoVanished journals manifest ledger budgetMs ↔
      (∃ node ∈ manifest.nodes, Convicted journals manifest ledger budgetMs node) ∨
        ∀ node ∈ manifest.nodes, ¬ VanishedAfterRestart manifest ledger budgetMs node := by
  constructor
  · intro h
    by_cases hconvicted : ∃ node ∈ manifest.nodes, Convicted journals manifest ledger budgetMs node
    · exact .inl hconvicted
    refine .inr fun node hnode => ?_
    rintro ⟨progress, last, hprogress, hlast, hsilent, -, hvanished⟩
    obtain ⟨n, hok⟩ := checkNodeContinuity_ok.mpr
      ⟨⟨last, hlast⟩, fun node hnode hc => hconvicted ⟨node, hnode, hc⟩⟩
    obtain ⟨hin, hrest⟩ := h n hok node hnode
    obtain ⟨-, hfound⟩ := (hrest last hlast).2 progress hprogress hsilent
    refine (judgeNode_eq_none hlast).mp hfound ((convicted_sinceRestart hlast hprogress ?_).mpr hvanished)
    exact hin (by rw [hprogress]; rfl)
  · intro h n hok node hnode
    obtain ⟨hlasts, hfree⟩ := checkNodeContinuity_ok.mp ⟨n, hok⟩
    have hstayed : ¬ VanishedAfterRestart manifest ledger budgetMs node := by
      rcases h with ⟨other, hother, hc⟩ | h
      · exact absurd hc (hfree other hother)
      · exact h node hnode
    have hnode := hfree node hnode
    have hin : node.lastProgressAtMs.isSome → node.name ∈ ingestedHosts journals := by
      intro hsome
      obtain ⟨progress, hprogress⟩ := Option.isSome_iff_exists.mp hsome
      obtain ⟨last, hlast⟩ := hlasts
      by_contra hout
      refine hnode ⟨last, _, hlast, expectedUntil_horizonOf last, ?_⟩
      rw [hprogress]
      exact .inl hout
    refine ⟨hin, fun last hlast => ⟨fun hnone horizon huntil => ?_, fun progress hprogress hsilent => ?_⟩⟩
    · by_contra hout
      refine hnode ⟨last, horizon, hlast, huntil, ?_⟩
      rw [hnone]
      exact hout
    · have hin := hin (by rw [hprogress]; rfl)
      have hacquitted := acquitted_sinceRestart hlast hprogress hsilent hin hnode hstayed
      exact ⟨accounted_of_acquitted hlast hprogress hsilent hin hacquitted, (judgeNode_eq_none hlast).mpr hacquitted⟩

end

/-! ### A restart that vanishes -/

/-- Two nodes; `n2` is killed at 10200, is up again under its name by 20000 and is never heard of after that. -/
def restartRun : RunManifest :=
  let nodes : List NodeSpec := [⟨"n1", "n1.ndjson"⟩, ⟨"n2", "n2.ndjson"⟩]
  let lineCount (n1 n2 : ℕ) (path : String) : ℕ := if path = "n1.ndjson" then n1 else n2
  { startedAtMs := 1000
    endedAtMs := 100000
    sampleIntervalMs := 500
    nodes := (JournalProgress.sampled nodes
      [(lineCount 10 40, 10000), (lineCount 20 1, 20000), (lineCount 90 1, 90000)]).roster nodes [] }

def restartKill : FaultLedger where
  windows := [⟨"kill-0", "node_kill", "n2/1", some 10000, some 10200, some 10400⟩]

def restartJournals : JournalSet where
  lines := [{ node := ⟨"n1/1"⟩, seq := 0, event := .accept }, { node := ⟨"n2/2"⟩, seq := 0, event := .accept }]

/-- The run is accepted: the silence is measured up to the kill, which is before it begins. -/
theorem restart_vanishes_unseen :
    checkNodeContinuity restartJournals (some restartRun) (some restartKill) 30000 = .ok 2 ∧
    ¬ AcceptsNoVanished restartJournals restartRun (some restartKill) 30000 := by
  have hok : checkNodeContinuity restartJournals (some restartRun) (some restartKill) 30000 = .ok 2 := by decide +kernel
  have hlast : restartRun.lastProgressAtMs = some 90000 := by decide +kernel
  refine ⟨hok, fun h => ?_⟩
  have hn2 : (⟨"n2", "n2.ndjson", 1, some 20000, false⟩ : NodeRun) ∈ restartRun.nodes := by decide +kernel
  obtain ⟨haccounted, -⟩ := ((h 2 hok _ hn2).2 90000 hlast).2 20000 rfl (by decide)
  have hfault : ∀ w, FaultOn (some restartKill) "n2" w →
      w = ⟨"kill-0", "node_kill", "n2/1", some 10000, some 10200, some 10400⟩ := by
    rintro w ⟨l, hl, hw⟩
    cases hl
    exact List.mem_singleton.mp (List.mem_of_mem_filter hw)
  rcases haccounted with ⟨w, hw, started, hstarted, hle, hended⟩ | ⟨t, ⟨w, hw, -, hstarted⟩, hle⟩
  · -- lifted at 10400
    rw [hfault w hw] at hended
    exact absurd (hended 10400 rfl) (by decide +kernel)
  · rw [hfault w hw] at hstarted
    cases hstarted
    exact absurd hle (by decide +kernel)

/-- A second kill after the silence began is found too late on its own, and hides behind the first. -/
example :
    let first : FaultWindow := ⟨"kill-0", "node_kill", "n2/1", some 10000, some 10200, some 10400⟩
    let second : FaultWindow := ⟨"kill-1", "node_kill", "n2/2", some 59000, some 60000, none⟩
    checkNodeContinuity restartJournals (some restartRun) (some ⟨[first, second]⟩) 30000 = .ok 2 ∧
    checkNodeContinuity restartJournals (some restartRun) (some ⟨[second]⟩) 30000 =
      .error [.nodeJournalStopped "n2" 40000 30000] := by
  decide +kernel

end Duckspout
