import Duckspout.Judge.Order
import Duckspout.Judge.Passes

/-! A judge's run (`duckspout-judge/src/runner.rs`, with the combination of `verdict.rs`): the evidence is read, every
    predicate and every run-level rule answers, and the answers are one exit code.

    Evidence that does not parse is the only short cut. A fixture that is missing withholds the verdict of the predicates
    that need it and of no other. How a fixture is decoded and how a finding is displayed are parameters. -/

namespace Duckspout

/-! ### The combination -/

namespace Verdict

/-- Every finding as its text. -/
def erase {F : Type} (show_ : F → String) : Verdict F → Verdict String
  | pass checked => .pass checked
  | violation findings => .violation (findings.map show_)
  | noVerdict reason => .noVerdict reason

@[simp] theorem exitCode_erase {F : Type} (show_ : F → String) (v : Verdict F) : (v.erase show_).exitCode = v.exitCode := by
  cases v <;> rfl

end Verdict

/-- A violation outranks a verdict withheld, and that a pass; no verdict at all is no pass. -/
def combinedExitCode (verdicts : List (Verdict String)) : ℕ :=
  if verdicts.isEmpty then 3
  else if verdicts.any (·.exitCode = 2) then 2
  else if verdicts.any (·.exitCode = 3) then 3
  else 0

theorem Verdict.exitCode_mem {F : Type} (v : Verdict F) : v.exitCode = 0 ∨ v.exitCode = 2 ∨ v.exitCode = 3 := by
  cases v
  · exact Or.inl rfl
  · exact Or.inr (Or.inl rfl)
  · exact Or.inr (Or.inr rfl)

theorem combinedExitCode_mem (verdicts : List (Verdict String)) :
    combinedExitCode verdicts = 0 ∨ combinedExitCode verdicts = 2 ∨ combinedExitCode verdicts = 3 := by
  simp only [combinedExitCode]
  split_ifs <;> simp

theorem Verdict.exitCode_eq_zero {F : Type} {v : Verdict F} : v.exitCode = 0 ↔ ∃ checked, v = .pass checked := by
  cases v <;> simp [exitCode]

theorem Verdict.exitCode_eq_two {F : Type} {v : Verdict F} : v.exitCode = 2 ↔ ∃ findings, v = .violation findings := by
  cases v <;> simp [exitCode]

/-- What the combination says of verdicts there are some of. -/
theorem combinedExitCode_spec {verdicts : List (Verdict String)} (h : verdicts ≠ []) :
    (combinedExitCode verdicts = 0 ↔ ∀ v ∈ verdicts, v.exitCode = 0) ∧
      (combinedExitCode verdicts = 2 ↔ ∃ v ∈ verdicts, v.exitCode = 2) ∧
      (combinedExitCode verdicts = 3 ↔ (∀ v ∈ verdicts, v.exitCode ≠ 2) ∧ ∃ v ∈ verdicts, v.exitCode = 3) := by
  have hempty : verdicts.isEmpty = false := by simpa [List.isEmpty_iff] using h
  simp only [combinedExitCode, hempty, Bool.false_eq_true, if_false, List.any_eq_true, decide_eq_true_eq]
  split_ifs with hviolation hwithheld
  · obtain ⟨v, hv, hcode⟩ := hviolation
    refine ⟨iff_of_false (by decide) fun hall => ?_, iff_of_true rfl ⟨v, hv, hcode⟩, iff_of_false (by decide) fun hno => ?_⟩
    · rw [hall v hv] at hcode
      cases hcode
    · exact hno.1 v hv hcode
  · obtain ⟨v, hv, hcode⟩ := hwithheld
    refine ⟨iff_of_false (by decide) fun hall => ?_, iff_of_false (by decide) hviolation, iff_of_true rfl ⟨?_, v, hv, hcode⟩⟩
    · rw [hall v hv] at hcode
      cases hcode
    · exact fun v hv hcode => hviolation ⟨v, hv, hcode⟩
  · refine ⟨iff_of_true rfl fun v hv => ?_, iff_of_false (by decide) hviolation, iff_of_false (by decide) fun hno => hwithheld hno.2⟩
    rcases v.exitCode_mem with hcode | hcode | hcode
    · exact hcode
    · exact absurd ⟨v, hv, hcode⟩ hviolation
    · exact absurd ⟨v, hv, hcode⟩ hwithheld

/-! ### A run -/

structure RunArgs where
  journals : List String
  finalStateFixture : Option String
  readLog : Option String
  latestViewFixture : Option String
  committedPartsFixture : Option String
  faultLog : Option String
  runManifest : Option String
  ceiling : AmbiguityCeiling
  maxJournalSilenceMs : U64
  maxRacingReadMs : U64

/-- What a run reads from outside, and how it shows what it finds. -/
structure JudgeSetting where
  reader : JournalReader
  debug : String → String
  display : DecodeError → String
  debugEntry : ChangelogEntry → String
  finalState : String → Except String FinalSystemState
  latestView : String → Except String LatestView
  committedParts : String → Except String CommittedParts
  showLost : ZeroAckedLost.Finding → String
  showUnbacked : WatermarkHonesty.Finding → String
  showStale : LatestView.Finding → String
  showExpired : Retention.Finding → String
  showCached : CacheTransparency.Finding → String

structure PredicateReport where
  predicate : String
  verdict : Verdict String
  deriving DecidableEq, Repr

inductive RunOutcome where
  | ingestionFailed (err : String)
  | judged (journalCount lineCount : ℕ) (reports : List PredicateReport)
  deriving DecidableEq, Repr

def RunOutcome.exitCode : RunOutcome → ℕ
  | ingestionFailed _ => 3
  | judged _ _ reports => combinedExitCode (reports.map (·.verdict))

/-- The evidence of a run, as it was read. -/
structure RunEvidence where
  lines : List PlacedLine
  reads : List ReadRecord
  ledger : Option FaultLedger
  manifest : Option RunManifest

def RunEvidence.journals (evidence : RunEvidence) : JournalSet := ⟨evidence.lines.map (·.toJournalLine)⟩

section

variable (reader : JournalReader) (debug : String → String)

/-- `ingest_journals`, each line with its place. -/
def ingestLines (paths : List String) : Except JournalError (List PlacedLine) := do
  let lines ← paths.foldlM (fun lines path => return lines ++ (← parseJournalFile reader debug path)) []
  checkCrossFileDensity lines
  return lines

theorem ingestJournals_eq (paths : List String) : ingestJournals reader debug paths =
    (ingestLines reader debug paths).map fun lines => ⟨lines.map (·.toJournalLine)⟩ := by
  have hmap : ∀ (read : Except JournalError (List PlacedLine)) (check : List PlacedLine → Except JournalError Unit),
      (do
        let lines ← read
        check lines
        return (⟨lines.map (·.toJournalLine)⟩ : JournalSet)) =
      Except.map (fun lines => ⟨lines.map (·.toJournalLine)⟩) (do
        let lines ← read
        check lines
        return lines) := by
    intro read check
    rcases read with err | lines
    · rfl
    · change (check lines >>= _) = Except.map _ (check lines >>= _)
      rcases check lines with err | done
      · rfl
      · rfl
  exact hmap _ _

/-- A file that was given is read. -/
def supplied {T : Type} (path : Option String) (parse : String → Except String T) : Except String (Option T) :=
  match path with
  | none => .ok none
  | some path => (parse path).map some

def loadFixture {T : Type} (path : Option String) (absent : String) (decode : String → Except String T) : Except String T :=
  match path with
  | none => .error absent
  | some path => do
    let text ← (reader.readToString path).mapError fun err => "reading " ++ path ++ ": " ++ err
    (decode text).mapError fun err => path ++ ": " ++ err

end

/-- The verdict of a predicate on what was loaded for it; what was not loaded withholds it. -/
def verdictOn {T F : Type} (loaded : Except String T) (judge : T → Verdict F) (display : F → String) : Verdict String :=
  match loaded with
  | .ok value => (judge value).erase display
  | .error reason => .noVerdict reason

section

variable (setting : JudgeSetting) (args : RunArgs)

/-- Everything that has to parse before anything is judged. -/
def gatherEvidence : Except String RunEvidence := do
  let lines ← (ingestLines setting.reader setting.debug args.journals).mapError (·.text setting.display)
  let reads ← supplied args.readLog fun path =>
    (parseReadLog setting.reader setting.debug path).mapError (·.text setting.display)
  let ledger ← supplied args.faultLog fun path =>
    (parseFaultLedger setting.reader setting.debug path).mapError (·.text setting.display)
  let manifest ← supplied args.runManifest (parseRunManifest setting.reader setting.debug setting.display)
  return { lines, reads := reads.getD [], ledger, manifest }

def zeroAckedLostReport (journals : JournalSet) : PredicateReport where
  predicate := "zero-acked-lost"
  verdict :=
    verdictOn
      (loadFixture setting.reader args.finalStateFixture ("no --final-state-fixture was given, and no real hot/lake " ++
        "read-back is wired yet (crate::final_state's scope note) — this predicate had nothing to check the acks against")
        setting.finalState)
      (fun finalState => ZeroAckedLost.check setting.debug finalState journals) setting.showLost

def watermarkHonestyReport (journals : JournalSet) (reads : List ReadRecord) : PredicateReport where
  predicate := "watermark-honesty"
  verdict := (WatermarkHonesty.check journals reads).erase setting.showUnbacked

def latestViewReport (journals : JournalSet) : PredicateReport where
  predicate := "latest-view"
  verdict :=
    verdictOn
      (loadFixture setting.reader args.latestViewFixture ("no --latest-view-fixture was given, and no real " ++
        "`<dataset>_latest` read-back is wired yet (crate::final_state's scope note) — this predicate had no served view " ++
        "to compare the acked changelog's fold against") setting.latestView)
      (fun view => LatestView.check setting.debugEntry journals view) setting.showStale

/-- Both read-backs; where neither is loaded, the snapshots' reason is given. -/
def loadRetention : Except String (CommittedParts × LatestView) := do
  let parts ← loadFixture setting.reader args.committedPartsFixture ("no --committed-parts-fixture was given, and no real " ++
    "lake read-back is wired yet (crate::final_state's scope note) — this predicate had no committed snapshot set to " ++
    "check the journaled expiries against") setting.committedParts
  let view ← loadFixture setting.reader args.latestViewFixture ("no --latest-view-fixture was given, and no real " ++
    "`<dataset>_latest` read-back is wired yet (crate::final_state's scope note) — this predicate could not tell whether " ++
    "an expiry made an acked record's last value unreachable") setting.latestView
  return (parts, view)

def retentionHonestyReport (journals : JournalSet) : PredicateReport where
  predicate := "retention-honesty"
  verdict :=
    verdictOn (loadRetention setting args)
      (fun loaded => Retention.check setting.debugEntry journals loaded.1 loaded.2) setting.showExpired

def cacheTransparencyReport (journals : JournalSet) (reads : List ReadRecord) : PredicateReport where
  predicate := "cache-transparency"
  verdict := (CacheTransparency.check journals reads args.maxRacingReadMs).erase setting.showCached

def predicateReports (evidence : RunEvidence) : List PredicateReport :=
  [zeroAckedLostReport setting args evidence.journals, watermarkHonestyReport setting evidence.journals evidence.reads,
    latestViewReport setting args evidence.journals, retentionHonestyReport setting args evidence.journals,
    cacheTransparencyReport setting args evidence.journals evidence.reads]

def vacuityReports (evidence : RunEvidence) : List PredicateReport :=
  (checkAll setting.reader setting.display ⟨evidence.lines, evidence.ledger, evidence.manifest, args.ceiling,
    args.maxJournalSilenceMs⟩).map fun rule => ⟨rule.1, rule.2.erase (·.text args.ceiling)⟩

def judgeRun : RunOutcome :=
  match gatherEvidence setting args with
  | .error err => .ingestionFailed err
  | .ok evidence =>
    .judged args.journals.length evidence.lines.length
      (predicateReports setting args evidence ++ vacuityReports setting args evidence)

end

/-! ### What an exit code says -/

section

variable {setting : JudgeSetting} {args : RunArgs} {evidence : RunEvidence}

/-- A run-level rule that counts what it checked passes where it has an answer, and else withholds its verdict. -/
theorem exitCode_toVerdict (ceiling : AmbiguityCeiling) {answer : Except (List RunFinding) ℕ} {Satisfied : Prop}
    (h : (∃ n, answer = .ok n ∧ n ≠ 0) ↔ Satisfied) :
    ((toVerdict ceiling answer).exitCode = 0 ↔ Satisfied) ∧ (toVerdict ceiling answer).exitCode ≠ 2 := by
  rw [← h]
  rcases answer with findings | n
  · simp [toVerdict, Verdict.exitCode]
  · by_cases hn : n = 0
    · simp [toVerdict, Verdict.passing, Verdict.exitCode, hn]
    · simp [toVerdict, Verdict.passing, Verdict.exitCode, hn]

/-- The run was worth judging. -/
structure WorthJudging (setting : JudgeSetting) (args : RunArgs) (evidence : RunEvidence) : Prop where
  fired : ScheduleFired evidence.ledger
  met : NodesMet evidence.journals evidence.manifest
  stayed : NoneVanished evidence.journals evidence.manifest evidence.ledger args.maxJournalSilenceMs
  ended : LoadgensEnded setting.reader setting.display args.ceiling evidence.lines

theorem exitCode_vacuityReports (setting : JudgeSetting) (args : RunArgs) (evidence : RunEvidence) :
    ((∀ report ∈ vacuityReports setting args evidence, report.verdict.exitCode = 0) ↔ WorthJudging setting args evidence) ∧
      ∀ report ∈ vacuityReports setting args evidence, report.verdict.exitCode ≠ 2 := by
  have hfired := exitCode_toVerdict args.ceiling (checkFaultSchedule_ok evidence.ledger)
  have hmet := exitCode_toVerdict args.ceiling (checkCrossNodeContention_ok evidence.journals evidence.manifest)
  have hstayed := exitCode_toVerdict args.ceiling
    (noneVanished_iff evidence.journals evidence.manifest evidence.ledger args.maxJournalSilenceMs)
  have hended := exitCode_toVerdict args.ceiling
    (checkLoadgenOutcomes_ok setting.reader setting.display args.ceiling evidence.lines)
  have hjournals : VacuityInputs.journals ⟨evidence.lines, evidence.ledger, evidence.manifest, args.ceiling,
      args.maxJournalSilenceMs⟩ = evidence.journals := rfl
  simp only [vacuityReports, checkAll, List.map_cons, List.map_nil, List.forall_mem_cons, Verdict.exitCode_erase, hjournals,
    hfired.1, hmet.1, hstayed.1, hended.1, ne_eq, hfired.2, hmet.2, hstayed.2, hended.2, not_false_eq_true, true_and]
  exact ⟨⟨fun ⟨h1, h2, h3, h4, _⟩ => ⟨h1, h2, h3, h4⟩, fun h => ⟨h.fired, h.met, h.stayed, h.ended, by simp⟩⟩, by simp⟩

/-- A fixture was given, could be read, and decodes. -/
def FixtureLoaded {T : Type} (reader : JournalReader) (path : Option String) (decode : String → Except String T) (value : T) :
    Prop :=
  ∃ file text, path = some file ∧ reader.readToString file = .ok text ∧ decode text = .ok value

theorem loadFixture_eq_ok {T : Type} {reader : JournalReader} {path : Option String} (absent : String)
    {decode : String → Except String T} {value : T} :
    loadFixture reader path absent decode = .ok value ↔ FixtureLoaded reader path decode value := by
  rcases path with _ | path
  · simp [loadFixture, FixtureLoaded]
  · simp only [loadFixture, Fallible.bind_eq_ok, Fallible.mapError_eq_ok, FixtureLoaded, Option.some.injEq, exists_eq_left',
      exists_and_left]

/-- Every predicate has had evidence and found nothing: every record of every acknowledged request is in the final system,
    what was advertised and served is backed, the served view has the winners, the expiries were covered, and no answer
    depended on the cache. -/
structure AllHeld (setting : JudgeSetting) (args : RunArgs) (evidence : RunEvidence) : Prop where
  acked : ∃ finalState, FixtureLoaded setting.reader args.finalStateFixture setting.finalState finalState ∧
    ZeroAckedLost.acked evidence.journals ≠ [] ∧ ∀ identity ∈ ZeroAckedLost.acked evidence.journals,
      ∀ index ∈ ZeroAckedLost.indices identity,
        finalState identity.tenant (ZeroAckedLost.recordKey identity.sourceIncarnation index) = .ok true
  watermarks : WatermarkHonesty.Passes evidence.journals evidence.reads
  views : ∃ view, FixtureLoaded setting.reader args.latestViewFixture setting.latestView view ∧
    LatestView.Passes evidence.journals view
  expiries : ∃ parts, FixtureLoaded setting.reader args.committedPartsFixture setting.committedParts parts ∧
    Retention.Passes evidence.journals parts
  cached : CacheTransparency.Passes evidence.journals evidence.reads args.maxRacingReadMs

/-- The acks pass where there are some and each of their records is there. -/
theorem zeroAckedLost_passes {debug : String → String} {finalState : FinalSystemState} {journals : JournalSet} :
    (ZeroAckedLost.check debug finalState journals).exitCode = 0 ↔ ZeroAckedLost.acked journals ≠ [] ∧
      ∀ identity ∈ ZeroAckedLost.acked journals, ∀ index ∈ ZeroAckedLost.indices identity,
        finalState identity.tenant (ZeroAckedLost.recordKey identity.sourceIncarnation index) = .ok true := by
  rcases ZeroAckedLost.check_cases debug finalState journals with ⟨⟨reason, hcheck⟩, hwhy⟩ | ⟨⟨hacked, hall⟩, hcheck⟩
  · rw [hcheck]
    refine iff_of_false (by simp [Verdict.exitCode]) fun ⟨hacked, hthere⟩ => ?_
    rcases hwhy with hnil | ⟨identity, hmem, hnot⟩
    · exact hacked hnil
    · exact hnot fun index hindex => ⟨true, hthere identity hmem index hindex⟩
  · have hreports : ZeroAckedLost.reports finalState journals = [] ↔ ∀ identity ∈ ZeroAckedLost.acked journals,
        ∀ index ∈ ZeroAckedLost.indices identity,
          finalState identity.tenant (ZeroAckedLost.recordKey identity.sourceIncarnation index) = .ok true := by
      rw [ZeroAckedLost.isEmpty_reports]
      refine forall₂_congr fun identity hmem => forall₂_congr fun index hindex => ?_
      exact ZeroAckedLost.present_iff (hall identity hmem) hindex
    rw [← hreports]
    rcases hcheck with ⟨hcheck, hnone⟩ | ⟨hcheck, hsome⟩
    · rw [hcheck]
      exact iff_of_true rfl ⟨hacked, hnone⟩
    · rw [hcheck]
      exact iff_of_false (by simp [Verdict.exitCode]) fun h => hsome h.2

theorem exitCode_verdictOn {T F : Type} {loaded : Except String T} {judge : T → Verdict F} {display : F → String} :
    (verdictOn loaded judge display).exitCode = 0 ↔ ∃ value, loaded = .ok value ∧ (judge value).exitCode = 0 := by
  rcases loaded with reason | value
  · simp [verdictOn, Verdict.exitCode]
  · simp [verdictOn]

theorem loadRetention_eq_ok {loaded : CommittedParts × LatestView} : loadRetention setting args = .ok loaded ↔
    FixtureLoaded setting.reader args.committedPartsFixture setting.committedParts loaded.1 ∧
      FixtureLoaded setting.reader args.latestViewFixture setting.latestView loaded.2 := by
  simp only [loadRetention, Fallible.bind_eq_ok, loadFixture_eq_ok]
  constructor
  · rintro ⟨parts, hparts, view, hview, h⟩
    cases h
    exact ⟨hparts, hview⟩
  · rintro ⟨hparts, hview⟩
    exact ⟨loaded.1, hparts, loaded.2, hview, rfl⟩

/-- One path is one fixture. -/
theorem FixtureLoaded.unique {T : Type} {reader : JournalReader} {path : Option String} {decode : String → Except String T}
    {value value' : T} (h : FixtureLoaded reader path decode value) (h' : FixtureLoaded reader path decode value') :
    value = value' := by
  rw [← loadFixture_eq_ok ""] at h h'
  rw [h] at h'
  exact Except.ok.inj h'

theorem exitCode_predicateReports :
    (∀ report ∈ predicateReports setting args evidence, report.verdict.exitCode = 0) ↔ AllHeld setting args evidence := by
  simp only [predicateReports, List.forall_mem_cons, zeroAckedLostReport, watermarkHonestyReport, latestViewReport,
    retentionHonestyReport, cacheTransparencyReport, exitCode_verdictOn, Verdict.exitCode_erase, loadFixture_eq_ok,
    loadRetention_eq_ok, zeroAckedLost_passes, Prod.exists]
  simp only [Verdict.exitCode_eq_zero, WatermarkHonesty.passes_iff, LatestView.passes_iff, CacheTransparency.passes_iff]
  constructor
  · rintro ⟨hacked, hwatermarks, ⟨view, hview, hlatest⟩, ⟨parts, view', ⟨hparts, hview'⟩, hretention⟩, hcached, -⟩
    obtain rfl := hview.unique hview'
    exact ⟨hacked, hwatermarks, ⟨view, hview, hlatest⟩, ⟨parts, hparts, (Retention.passes_iff hlatest).mp hretention⟩, hcached⟩
  · rintro ⟨hacked, hwatermarks, ⟨view, hview, hlatest⟩, ⟨parts, hparts, hretention⟩, hcached⟩
    exact ⟨hacked, hwatermarks, ⟨view, hview, hlatest⟩,
      ⟨parts, view, ⟨hparts, hview⟩, (Retention.passes_iff hlatest).mpr hretention⟩, hcached, by simp⟩

/-- A run exits with 0 where its evidence parses, every predicate has had evidence and found nothing (so that every record of
    every acknowledged request is in the final system) and the run was worth judging; with 2 where its evidence parses and
    some predicate convicts, whatever the run was worth; and else with 3. -/
theorem judgeRun_exit_contract (setting : JudgeSetting) (args : RunArgs) :
    ((judgeRun setting args).exitCode = 0 ↔ ∃ evidence, gatherEvidence setting args = .ok evidence ∧
      AllHeld setting args evidence ∧ WorthJudging setting args evidence) ∧
    ((judgeRun setting args).exitCode = 2 ↔ ∃ evidence, gatherEvidence setting args = .ok evidence ∧
      ∃ report ∈ predicateReports setting args evidence, ∃ findings, report.verdict = .violation findings) ∧
    ((judgeRun setting args).exitCode = 0 ∨ (judgeRun setting args).exitCode = 2 ∨ (judgeRun setting args).exitCode = 3) := by
  simp only [judgeRun]
  rcases gatherEvidence setting args with err | evidence
  · simp [RunOutcome.exitCode]
  obtain ⟨hworth, hnever⟩ := exitCode_vacuityReports setting args evidence
  have hsome : (predicateReports setting args evidence ++ vacuityReports setting args evidence).map (·.verdict) ≠ [] := by
    simp [predicateReports]
  obtain ⟨hzero, htwo, -⟩ := combinedExitCode_spec hsome
  refine ⟨?_, ?_, combinedExitCode_mem _⟩
  · simp only [RunOutcome.exitCode, Except.ok.injEq, exists_eq_left', hzero, ← exitCode_predicateReports, ← hworth,
      List.mem_map, List.mem_append]
    constructor
    · exact fun h => ⟨fun report hreport => h _ ⟨report, Or.inl hreport, rfl⟩,
        fun report hreport => h _ ⟨report, Or.inr hreport, rfl⟩⟩
    · rintro ⟨hpredicates, hrules⟩ v ⟨report, hreport | hreport, rfl⟩
      · exact hpredicates report hreport
      · exact hrules report hreport
  · simp only [RunOutcome.exitCode, Except.ok.injEq, exists_eq_left', htwo, ← Verdict.exitCode_eq_two, List.mem_map,
      List.mem_append]
    constructor
    · rintro ⟨v, ⟨report, hreport | hreport, rfl⟩, hcode⟩
      · exact ⟨report, hreport, hcode⟩
      · exact absurd hcode (hnever report hreport)
    · rintro ⟨report, hreport, hcode⟩
      exact ⟨_, ⟨report, Or.inl hreport, rfl⟩, hcode⟩

end

/-! ### The order of the journals -/

section

variable {setting : JudgeSetting} {args : RunArgs} {evidence : RunEvidence} {reader : JournalReader} {debug : String → String}

/-- The lines of one file. -/
def fileLines (reader : JournalReader) (debug : String → String) (path : String) : List PlacedLine :=
  match parseJournalFile reader debug path with
  | .ok file => file
  | .error _ => []

theorem foldlM_fileLines {paths : List String} {before lines : List PlacedLine} :
    paths.foldlM (fun lines path => return lines ++ (← parseJournalFile reader debug path)) before =
        (.ok lines : Except JournalError _) ↔
      (∀ path ∈ paths, ∃ file, parseJournalFile reader debug path = .ok file) ∧
        lines = before ++ paths.flatMap (fileLines reader debug) := by
  induction paths generalizing before with
  | nil => simp [pure, Except.pure, eq_comm]
  | cons path paths ih =>
    simp only [List.foldlM_cons, Fallible.bind_eq_ok, ih, List.forall_mem_cons, List.flatMap_cons]
    constructor
    · rintro ⟨_, ⟨file, hfile, hpure⟩, hrest, hlines⟩
      cases hpure
      refine ⟨⟨⟨file, hfile⟩, hrest⟩, ?_⟩
      rw [hlines, fileLines, hfile, List.append_assoc]
    · rintro ⟨⟨⟨file, hfile⟩, hrest⟩, hlines⟩
      refine ⟨before ++ file, ⟨file, hfile, rfl⟩, hrest, ?_⟩
      rw [hlines, fileLines, hfile, List.append_assoc]

/-- No node has lines in both files. -/
def Apart (reader : JournalReader) (debug : String → String) (path other : String) : Prop :=
  ∀ a ∈ fileLines reader debug path, ∀ b ∈ fileLines reader debug other, a.node ≠ b.node

theorem dense_fileLines {path : String} (h : ∃ file, parseJournalFile reader debug path = .ok file) :
    PlacedDense (fileLines reader debug path) := by
  obtain ⟨lines, hlines⟩ := h
  obtain ⟨file, -, rfl, hdense⟩ := parseJournalFile_eq_ok.mp hlines
  rw [fileLines, hlines, dense_placed, map_place]
  exact hdense

/-- The files are ingested where each parses and no node has lines in two of them. -/
theorem ingestLines_eq_ok {paths : List String} {lines : List PlacedLine} : ingestLines reader debug paths = .ok lines ↔
    (∀ path ∈ paths, ∃ file, parseJournalFile reader debug path = .ok file) ∧ paths.Pairwise (Apart reader debug) ∧
      lines = paths.flatMap (fileLines reader debug) := by
  have hparts (hparse : ∀ path ∈ paths, ∃ file, parseJournalFile reader debug path = .ok file) :
      ∀ part ∈ paths.map (fileLines reader debug), PlacedDense part := by
    intro part hpart
    obtain ⟨path, hpath, rfl⟩ := List.mem_map.mp hpart
    exact dense_fileLines (hparse path hpath)
  have hdense (hparse : ∀ path ∈ paths, ∃ file, parseJournalFile reader debug path = .ok file) :
      PlacedDense (paths.flatMap (fileLines reader debug)) ↔ paths.Pairwise (Apart reader debug) := by
    rw [List.flatMap_def]
    constructor
    · intro h
      have happart := (Numbering.dense_flatten h).mp (hparts hparse)
      rwa [List.pairwise_map] at happart
    · intro h
      exact Numbering.dense_flatten_of (hparts hparse) (List.pairwise_map.mpr h)
  simp only [ingestLines, Fallible.bind_eq_ok, foldlM_fileLines, List.nil_append, checkCrossFileDensity_eq_ok, ← dense_placed]
  constructor
  · rintro ⟨_, ⟨hparse, rfl⟩, _, hall, hpure⟩
    cases hpure
    exact ⟨hparse, (hdense hparse).mp hall, rfl⟩
  · rintro ⟨hparse, hapart, rfl⟩
    exact ⟨_, ⟨hparse, rfl⟩, (), (hdense hparse).mpr hapart, rfl⟩

theorem ingestLines_perm {paths paths' : List String} {lines : List PlacedLine} (h : paths.Perm paths')
    (hlines : ingestLines reader debug paths = .ok lines) :
    ∃ lines', ingestLines reader debug paths' = .ok lines' ∧ lines'.Perm lines := by
  obtain ⟨hparse, hapart, rfl⟩ := ingestLines_eq_ok.mp hlines
  refine ⟨_, ingestLines_eq_ok.mpr ⟨fun path hpath => hparse path (h.mem_iff.mpr hpath), ?_, rfl⟩, (h.flatMap_right _).symm⟩
  exact h.pairwise hapart fun hab a ha b hb heq => hab b hb a ha heq.symm

/-- The evidence of the same files in another order has the same lines. -/
theorem gatherEvidence_perm {paths : List String} (h : args.journals.Perm paths)
    (hgather : gatherEvidence setting args = .ok evidence) :
    ∃ lines, gatherEvidence setting { args with journals := paths } = .ok { evidence with lines := lines } ∧
      lines.Perm evidence.lines := by
  simp only [gatherEvidence, Fallible.bind_eq_ok, Fallible.mapError_eq_ok] at hgather ⊢
  obtain ⟨lines, hlines, reads, hreads, ledger, hledger, manifest, hmanifest, hevidence⟩ := hgather
  cases hevidence
  obtain ⟨lines', hlines', hperm⟩ := ingestLines_perm h hlines
  exact ⟨lines', ⟨lines', hlines', reads, hreads, ledger, hledger, manifest, hmanifest, rfl⟩, hperm⟩

/-- The combination rests on the exit codes alone. -/
theorem combinedExitCode_congr {vs ws : List (Verdict String)} (h : vs.map (·.exitCode) = ws.map (·.exitCode)) :
    combinedExitCode vs = combinedExitCode ws := by
  have hempty : vs.isEmpty = ws.isEmpty := by
    have := congrArg List.isEmpty h
    simpa using this
  have hany : ∀ code, vs.any (·.exitCode = code) = ws.any (·.exitCode = code) := by
    intro code
    have := congrArg (List.any · (· = code)) h
    simpa [List.any_map, Function.comp_def] using this
  simp only [combinedExitCode, hempty, hany]

theorem exitCode_verdictOn_congr {T F : Type} {loaded : Except String T} {judge judge' : T → Verdict F} {display : F → String}
    (h : ∀ value, (judge value).exitCode = (judge' value).exitCode) :
    (verdictOn loaded judge display).exitCode = (verdictOn loaded judge' display).exitCode := by
  rcases loaded with reason | value
  · rfl
  · simp [verdictOn, h]

/-- A rule's exit code is that of whether it is satisfied. -/
theorem exitCode_toVerdict_congr (ceiling : AmbiguityCeiling) {answer answer' : Except (List RunFinding) ℕ}
    {Satisfied Satisfied' : Prop} (h : (∃ n, answer = .ok n ∧ n ≠ 0) ↔ Satisfied)
    (h' : (∃ n, answer' = .ok n ∧ n ≠ 0) ↔ Satisfied') (hsame : Satisfied ↔ Satisfied') :
    (toVerdict ceiling answer).exitCode = (toVerdict ceiling answer').exitCode := by
  obtain ⟨hzero, htwo⟩ := exitCode_toVerdict ceiling h
  obtain ⟨hzero', htwo'⟩ := exitCode_toVerdict ceiling h'
  rw [hsame, ← hzero'] at hzero
  rcases (toVerdict ceiling answer).exitCode_mem with hcode | hcode | hcode
  · rw [hcode, hzero.mp hcode]
  · exact absurd hcode htwo
  · rcases (toVerdict ceiling answer').exitCode_mem with hcode' | hcode' | hcode'
    · rw [hzero.mpr hcode'] at hcode
      cases hcode
    · exact absurd hcode' htwo'
    · rw [hcode, hcode']

/-- The exit code does not depend on the order in which the journals are given. -/
theorem judgeRun_order (setting : JudgeSetting) (args : RunArgs) {paths : List String} (h : paths.Perm args.journals) :
    (judgeRun setting { args with journals := paths }).exitCode = (judgeRun setting args).exitCode := by
  rcases hgather : gatherEvidence setting args with err | evidence
  · rcases hother : gatherEvidence setting { args with journals := paths } with err' | evidence
    · simp only [judgeRun, hgather, hother, RunOutcome.exitCode]
    · obtain ⟨lines, hback, -⟩ := gatherEvidence_perm h hother
      rw [hgather] at hback
      cases hback
  obtain ⟨lines, hother, hperm⟩ := gatherEvidence_perm h.symm hgather
  have hlines : (RunEvidence.journals { evidence with lines := lines }).lines.Perm evidence.journals.lines := hperm.map _
  simp only [judgeRun, hgather, hother, RunOutcome.exitCode]
  refine combinedExitCode_congr ?_
  have hlost : ∀ finalState, (ZeroAckedLost.check setting.debug finalState ⟨lines.map (·.toJournalLine)⟩).exitCode =
      (ZeroAckedLost.check setting.debug finalState evidence.journals).exitCode :=
    fun _ => (ZeroAckedLost.check_perm hlines).exitCode_eq
  have hmet := exitCode_toVerdict_congr args.ceiling (checkCrossNodeContention_ok _ _) (checkCrossNodeContention_ok _ _)
    (nodesMet_perm evidence.manifest hlines)
  have hstayed := exitCode_toVerdict_congr args.ceiling (noneVanished_iff _ _ _ _) (noneVanished_iff _ _ _ _)
    (noneVanished_perm evidence.manifest evidence.ledger hlines args.maxJournalSilenceMs)
  have hended := exitCode_toVerdict_congr args.ceiling (checkLoadgenOutcomes_ok _ _ _ _) (checkLoadgenOutcomes_ok _ _ _ _)
    (loadgensEnded_perm setting.reader setting.display args.ceiling hperm)
  simp only [predicateReports, vacuityReports, checkAll, List.map_append, List.map_cons, List.map_nil]
  congr 1
  · simp only [zeroAckedLostReport, watermarkHonestyReport, latestViewReport, retentionHonestyReport, cacheTransparencyReport,
      Verdict.exitCode_erase, WatermarkHonesty.exitCode_perm hlines, CacheTransparency.exitCode_lines hlines]
    congr 1
    · exact exitCode_verdictOn_congr hlost
    congr 2
    · exact exitCode_verdictOn_congr fun view => LatestView.exitCode_perm _ hlines view
    congr 1
    exact exitCode_verdictOn_congr fun loaded => Retention.exitCode_perm _ hlines loaded.1 loaded.2
  · simp only [Verdict.exitCode_erase]
    exact congrArg₂ _ rfl (congrArg₂ _ hmet (congrArg₂ _ hstayed (congrArg₂ _ hended rfl)))

end

/-- A line with a watermark. -/
def watermarkText (node event : String) (ms : ℕ) : String :=
  "\x7b\"node\":\"" ++ node ++ "\",\"seq\":0,\"event\":\"" ++ event ++ "\",\"partition\":\"p\",\"complete_through_ms\":" ++
    toString ms ++ "\x7d"

/-- One node commits up to 10, and another advertises 99. -/
def overclaimed : JudgeSetting where
  reader :=
    { readToString := fun path =>
        if path = "n1.ndjson" then .ok (watermarkText "n1" "LakeCommitOk" 10 ++ "\n")
        else if path = "n2.ndjson" then .ok (watermarkText "n2" "ClaimAdvertise" 99 ++ "\n")
        else .error "No such file or directory (os error 2)"
      readObject := fun raw =>
        if raw = watermarkText "n1" "LakeCommitOk" 10 then
          .ok [("node", .str "n1"), ("seq", .int 0), ("event", .str "LakeCommitOk"), ("partition", .str "p"),
            ("complete_through_ms", .int 10)]
        else if raw = watermarkText "n2" "ClaimAdvertise" 99 then
          .ok [("node", .str "n2"), ("seq", .int 0), ("event", .str "ClaimAdvertise"), ("partition", .str "p"),
            ("complete_through_ms", .int 99)]
        else .error "expected value at line 1 column 1" }
  debug := id
  display _ := ""
  debugEntry _ := ""
  finalState _ := .error ""
  latestView _ := .error ""
  committedParts _ := .error ""
  showLost _ := ""
  showUnbacked _ := ""
  showStale _ := ""
  showExpired _ := ""
  showCached _ := ""

def overclaimedArgs : RunArgs where
  journals := ["n1.ndjson", "n2.ndjson"]
  finalStateFixture := none
  readLog := none
  latestViewFixture := none
  committedPartsFixture := none
  faultLog := none
  runManifest := none
  ceiling := ⟨fun _ _ => false, fun _ _ => "0.0", "5.0"⟩
  maxJournalSilenceMs := 30000
  maxRacingReadMs := 1000

theorem judgeRun_order_overclaimed :
    (judgeRun overclaimed { overclaimedArgs with journals := ["n2.ndjson", "n1.ndjson"] }).exitCode = 2 := by
  have hcode : (judgeRun overclaimed overclaimedArgs).exitCode = 2 := by decide +kernel
  exact (judgeRun_order overclaimed overclaimedArgs (List.Perm.swap _ _ _)).trans hcode

end Duckspout
