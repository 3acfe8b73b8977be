import Duckspout.Judge.Runner
import Duckspout.Loadgen.Evidence

/-! Several load generators, and what the judge makes of all their journals: the records it looks for are those that the
    generators put into the requests that they journaled as acked. -/

namespace Duckspout

namespace Loadgen

open LoadgenRun

/-- A load generator of the fleet, one process of it. -/
structure LoadgenMember where
  cli : Cli
  startNonce : ℕ
  events : List LoadgenEvent

namespace LoadgenMember

def run (m : LoadgenMember) : LoadgenRun := LoadgenRun.run m.cli m.startNonce m.events

def identity (m : LoadgenMember) (number : ℕ) : RequestIdentity := identityAt m.cli m.startNonce number

/-- The keys of the records that a request carries. -/
def keys (m : LoadgenMember) (number : ℕ) : List String := (m.identity number).keys

/-- The journal says that the request was acked, and it is evidence: its tenant is not the system's, and it has a record. -/
def Owes (m : LoadgenMember) (number : ℕ) : Prop :=
  toldOf m.run.tasks number = some .clientAck ∧
    startsWith m.cli.tenant WatermarkHonesty.systemTenantPrefix = false ∧ 0 < (m.cli.batchSize : ℕ)

/-- The journal has a line. -/
def Journaled (m : LoadgenMember) : Prop := ∃ number event, toldOf m.run.tasks number = some event

/-- The journal is there, as far as the process came, and no line of it was cut. -/
structure Readable (write : WriteLine) (reader : JournalReader) (m : LoadgenMember) : Prop where
  fits : RecordsFit m.cli m.run
  uncut : m.run.journal.torn = none
  json : write.ReadsBack reader (m.run.journal.lines.map (·.members))
  file : reader.readToString m.cli.journalPath = .ok (m.run.journal.text write)

/-- What the judge sees of a request's line. -/
structure SeenAs (m : LoadgenMember) (number : ℕ) (event : TraceEvent) (line : PlacedLine) : Prop where
  node : line.node = m.cli.nodeId
  event : line.event = event
  identity : ∃ fits, line.identity = some ((m.identity number).read fits)
  source : line.source = m.cli.journalPath

variable {write : WriteLine} {reader : JournalReader} {debug : String → String} {m : LoadgenMember} {number : ℕ}

theorem exists_left_of_mem {α β : Type} {R : α → β → Prop} {l : List α} {l' : List β} (h : List.Forall₂ R l l') {b : β}
    (hb : b ∈ l') : ∃ a ∈ l, R a b := by
  induction h with
  | nil => cases hb
  | cons hab _ ih =>
    rcases List.mem_cons.mp hb with rfl | hb
    · exact ⟨_, List.mem_cons_self, hab⟩
    · obtain ⟨a, ha, hR⟩ := ih hb
      exact ⟨a, List.mem_cons_of_mem _ ha, hR⟩

theorem mem_place {path : String} {k : ℕ} {file : List Duckspout.JournalLine} {line : PlacedLine} (h : line ∈ place path k file) :
    line.toJournalLine ∈ file ∧ line.source = path := by
  obtain ⟨⟨read, n⟩, hread, rfl⟩ := List.mem_map.mp h
  exact ⟨(List.mem_zipIdx hread).2.2 ▸ List.getElem_mem _, rfl⟩

/-- The lines of a member's file are those of its journal. -/
theorem Readable.lines (h : m.Readable write reader) (debug : String → String) :
    (∃ file, parseJournalFile reader debug m.cli.journalPath = .ok file) ∧
    (∀ line ∈ fileLines reader debug m.cli.journalPath, ∃ number event, toldOf m.run.tasks number = some event ∧
      m.SeenAs number event line) ∧
    ∀ number event, toldOf m.run.tasks number = some event →
      ∃ line ∈ fileLines reader debug m.cli.journalPath, m.SeenAs number event line := by
  have hok : Ok m.cli m.startNonce m.events m.run := run_ok m.cli m.startNonce m.events
  obtain ⟨order, htold⟩ := hok.told
  have hlines := lines_written hok htold
  have hbegun : m.run.journal.begun = m.run.journal.lines := by simp [LoadgenJournal.begun, h.uncut]
  have htorn : m.run.journal.tornText write = "" := by rw [LoadgenJournal.tornText, h.uncut, Option.elim_none]
  have hcut : ¬ m.run.journal.Cut write := by
    rintro ⟨_, _, hempty, _⟩
    exact hempty htorn
  have hnumbered : LoadgenJournal.Numbered m.cli.nodeId m.run.journal.begun := hbegun ▸ hlines.numbered h.fits
  obtain ⟨file, hread, hparse⟩ :=
    LoadgenJournal.parse_whole hnumbered (by rw [hbegun]; exact h.json) h.file hcut debug
  rw [LoadgenJournal.whole, if_pos htorn, htold.lines] at hread
  rw [fileLines, hparse]
  refine ⟨⟨_, rfl⟩, fun line hline => ?_, fun number event hevent => ?_⟩
  · obtain ⟨hin, hsource⟩ := mem_place hline
    obtain ⟨_, hat, has⟩ := exists_left_of_mem hread hin
    obtain ⟨told, hmem, rfl⟩ := List.mem_map.mp hat
    have htold' : told.1 ∈ order := (List.mem_zipIdx hmem).2.2 ▸ List.getElem_mem _
    exact ⟨told.1.1, told.1.2, (htold.mem_iff _ _).mp htold', has.node, has.event, has.identity, hsource⟩
  · obtain ⟨n, hn, hget⟩ := List.getElem_of_mem ((htold.mem_iff number event).mpr hevent)
    have hat : lineAt m.cli m.startNonce ((number, event), n) ∈ order.zipIdx.map (lineAt m.cli m.startNonce) := by
      refine List.mem_map_of_mem ?_
      rw [List.mem_zipIdx_iff_getElem?]
      exact (List.getElem?_eq_getElem hn).trans (congrArg some hget)
    obtain ⟨read, hin, has⟩ := exists_left_of_mem hread.flip hat
    rw [← map_place m.cli.journalPath 0 file] at hin
    obtain ⟨line, hline, rfl⟩ := List.mem_map.mp hin
    exact ⟨line, hline, has.node, has.event, has.identity, (mem_place hline).2⟩

/-- The keys of a request that was sent, one for each index of its range. -/
theorem Readable.keys_eq (h : m.Readable write reader) (hsent : number < m.run.tasks.length) :
    m.keys number = (List.range' (m.identity number).firstIndex (m.identity number).recordCount).map
      (ZeroAckedLost.recordKey (sourceIncarnation m.cli.nodeId m.startNonce)) := by
  have hfits := (Lines.identity_range m.startNonce h.fits hsent).2
  have hkeys := keys_syntheticBatch (m.identity number).sourceIncarnation hfits
  have hfilter : m.keys number = ((sentRecords (m.identity number).request).map indexAttribute).filterMap id := by
    rw [List.filterMap_map]
    rfl
  rw [hfilter]
  exact (congrArg (List.filterMap id) hkeys).trans (by simp; rfl)

/-- A record is one request's of one member's. -/
theorem Readable.key_unique (h : m.Readable write reader) {m' : LoadgenMember} (h' : m'.Readable write reader)
    (hsent : number < m.run.tasks.length) {number' : ℕ} (hsent' : number' < m'.run.tasks.length) {key : String}
    (hkey : key ∈ m.keys number) (hkey' : key ∈ m'.keys number') : m.cli.nodeId = m'.cli.nodeId ∧
      (m.cli = m'.cli → number = number') := by
  rw [h.keys_eq hsent] at hkey
  rw [h'.keys_eq hsent'] at hkey'
  obtain ⟨index, hindex, rfl⟩ := List.mem_map.mp hkey
  obtain ⟨index', hindex', heq⟩ := List.mem_map.mp hkey'
  obtain ⟨hnode, -, rfl⟩ := key_injective heq
  refine ⟨hnode.symm, fun hcli => ?_⟩
  -- the ranges of two requests of one process are disjoint
  have hfirst : ((m.identity number).firstIndex : ℕ) = number * m.cli.batchSize :=
    (Lines.identity_range m.startNonce h.fits hsent).1
  have hfirst' : ((m'.identity number').firstIndex : ℕ) = number' * m.cli.batchSize := by
    rw [hcli]
    exact (Lines.identity_range m'.startNonce h'.fits hsent').1
  have hcount : ((m.identity number).recordCount : ℕ) = m.cli.batchSize := rfl
  have hcount' : ((m'.identity number').recordCount : ℕ) = m.cli.batchSize := by
    rw [hcli]
    rfl
  rw [List.mem_range'_1, hfirst, hcount] at hindex
  rw [List.mem_range'_1, hfirst', hcount'] at hindex'
  have hlt : ∀ {a b : ℕ}, a * (m.cli.batchSize : ℕ) < b * m.cli.batchSize + m.cli.batchSize → a ≤ b := by
    intro a b hab
    rw [← Nat.succ_mul] at hab
    exact Nat.lt_succ_iff.mp (lt_of_mul_lt_mul_right hab (Nat.zero_le _))
  exact le_antisymm (hlt (by omega)) (hlt (by omega))

theorem Readable.nodup_keys (h : m.Readable write reader) (hsent : number < m.run.tasks.length) : (m.keys number).Nodup := by
  rw [h.keys_eq hsent]
  exact (List.nodup_range' _).map fun _ _ heq => (ZeroAckedLost.recordKey_injective heq).2

end LoadgenMember

section

variable {fleet : List LoadgenMember} {write : WriteLine} {reader : JournalReader} {debug : String → String}

/-- The journals of members of different nodes are ingested together. -/
theorem ingestLines_fleet (hnodes : (fleet.map (·.cli.nodeId)).Nodup) (hread : ∀ m ∈ fleet, m.Readable write reader)
    (debug : String → String) : ∃ lines, ingestLines reader debug (fleet.map (·.cli.journalPath)) = .ok lines ∧
      (∀ line ∈ lines, ∃ m ∈ fleet, ∃ number event, toldOf m.run.tasks number = some event ∧ m.SeenAs number event line) ∧
      ∀ m ∈ fleet, ∀ number event, toldOf m.run.tasks number = some event → ∃ line ∈ lines, m.SeenAs number event line := by
  refine ⟨_, ingestLines_eq_ok.mpr ⟨List.forall_mem_map.mpr fun m hm => ((hread m hm).lines debug).1, ?_, rfl⟩,
    fun line hline => ?_, fun m hm number event htold => ?_⟩
  · rw [List.pairwise_map]
    refine (List.pairwise_map.mp hnodes).imp_of_mem fun hm hm' hne => ?_
    intro line hline other hother heq
    obtain ⟨_, _, _, hseen⟩ := ((hread _ hm).lines debug).2.1 line hline
    obtain ⟨_, _, _, hseen'⟩ := ((hread _ hm').lines debug).2.1 other hother
    exact hne (hseen.node.symm.trans (heq.trans hseen'.node))
  · obtain ⟨path, hpath, hin⟩ := List.mem_flatMap.mp hline
    obtain ⟨m, hm, rfl⟩ := List.mem_map.mp hpath
    exact ⟨m, hm, ((hread m hm).lines debug).2.1 line hin⟩
  · obtain ⟨line, hline, hseen⟩ := ((hread m hm).lines debug).2.2 number event htold
    exact ⟨line, List.mem_flatMap.mpr ⟨_, List.mem_map_of_mem hm, hline⟩, hseen⟩

/-- The acks the judge checks are those owed, each with its own records. -/
theorem mem_acked_fleet {lines : List PlacedLine}
    (hof : ∀ line ∈ lines, ∃ m ∈ fleet, ∃ number event, toldOf m.run.tasks number = some event ∧ m.SeenAs number event line)
    (hall : ∀ m ∈ fleet, ∀ number event, toldOf m.run.tasks number = some event → ∃ line ∈ lines, m.SeenAs number event line)
    (identity : Duckspout.RequestIdentity) :
    identity ∈ ZeroAckedLost.acked ⟨lines.map (·.toJournalLine)⟩ ↔
      ∃ m ∈ fleet, ∃ number, m.Owes number ∧ ∃ fits, identity = (m.identity number).read fits := by
  rw [ZeroAckedLost.mem_acked]
  constructor
  · rintro ⟨_, hline, hevent, hidentity, htenant, hcount⟩
    obtain ⟨line, hin, rfl⟩ := List.mem_map.mp hline
    obtain ⟨m, hm, number, event, htold, hseen⟩ := hof line hin
    obtain ⟨fits, hfits⟩ := hseen.identity
    obtain rfl := Option.some.inj (hidentity.symm.trans hfits)
    obtain rfl : event = .clientAck := hseen.event.symm.trans hevent
    exact ⟨m, hm, number, ⟨htold, htenant, hcount⟩, fits, rfl⟩
  · rintro ⟨m, hm, number, ⟨htold, htenant, hcount⟩, fits, rfl⟩
    obtain ⟨line, hline, hseen⟩ := hall m hm number _ htold
    obtain ⟨_, hidentity⟩ := hseen.identity
    exact ⟨_, List.mem_map_of_mem hline, hseen.event, hidentity, htenant, hcount⟩

/-- What holds of every index of an owed request holds of every key of its records. -/
theorem forall_key {m : LoadgenMember} (h : m.Readable write reader) {number : ℕ} (howes : m.Owes number)
    (fits : ((m.identity number).firstIndex : ℕ) + (m.identity number).recordCount < 2 ^ 64) (P : String → Prop) :
    (∀ index ∈ ZeroAckedLost.indices ((m.identity number).read fits),
      P (ZeroAckedLost.recordKey ((m.identity number).read fits).sourceIncarnation index)) ↔ ∀ key ∈ m.keys number, P key := by
  have hok := run_ok m.cli m.startNonce m.events
  have hsent : number < m.run.tasks.length := (toldOf_due hok.settled howes.1).1
  rw [h.keys_eq hsent, List.forall_mem_map]
  refine forall_congr' fun index => ?_
  rw [ZeroAckedLost.indices, Finset.mem_Ico, List.mem_range'_1]
  exact Iff.rfl

theorem inconclusive_iff {finalState : FinalSystemState} {journals : JournalSet} :
    (ZeroAckedLost.check debug finalState journals).Inconclusive ↔ ZeroAckedLost.acked journals = [] ∨
      ∃ identity ∈ ZeroAckedLost.acked journals, ¬ ZeroAckedLost.Answered finalState identity := by
  rcases ZeroAckedLost.check_cases debug finalState journals with ⟨⟨reason, hcheck⟩, hwhy⟩ | ⟨⟨hacked, hall⟩, hcheck⟩
  · rw [hcheck]
    exact iff_of_true trivial hwhy
  · refine iff_of_false ?_ ?_
    · rcases hcheck with ⟨hcheck, -⟩ | ⟨hcheck, -⟩ <;> rw [hcheck] <;> exact not_false
    · rintro (hnil | ⟨identity, hmem, hnot⟩)
      · exact hacked hnil
      · exact hnot (hall identity hmem)

/-- **Over a fleet of load generators, zero acked lost is about the records that were sent.** Members of different nodes,
    each stopped anywhere but inside a line, leave journals that are ingested together. An ack is owed where it was journaled,
    for a tenant that is not the system's and a request that has records. Nothing is certified exactly when no ack is owed or
    the query of an owed record fails; else the run passes exactly when every record of every owed request is in the final
    system. And no two records of the fleet are looked up under one key. -/
theorem fleet_verdict (fleet : List LoadgenMember) (hnodes : (fleet.map (·.cli.nodeId)).Nodup)
    (hread : ∀ m ∈ fleet, m.Readable write reader) (debug : String → String) (finalState : FinalSystemState) :
    ∃ journals, ingestJournals reader debug (fleet.map (·.cli.journalPath)) = .ok journals ∧
      ((ZeroAckedLost.check debug finalState journals).Inconclusive ↔ (∀ m ∈ fleet, ∀ number, ¬ m.Owes number) ∨
        ∃ m ∈ fleet, ∃ number, m.Owes number ∧ ∃ key ∈ m.keys number, ∃ err, finalState m.cli.tenant key = .error err) ∧
      (¬ (ZeroAckedLost.check debug finalState journals).Inconclusive →
        ((∃ n, ZeroAckedLost.check debug finalState journals = .pass n) ↔ ∀ m ∈ fleet, ∀ number, m.Owes number →
          ∀ key ∈ m.keys number, finalState m.cli.tenant key = .ok true)) ∧
      (∀ m ∈ fleet, ∀ number < m.run.tasks.length, (m.keys number).Nodup ∧
        ∀ m' ∈ fleet, ∀ number' < m'.run.tasks.length, ∀ key ∈ m.keys number, key ∈ m'.keys number' →
          m = m' ∧ number = number') := by
  obtain ⟨lines, hlines, hof, hall⟩ := ingestLines_fleet hnodes hread debug
  have hacked := mem_acked_fleet hof hall
  have hfits : ∀ m ∈ fleet, ∀ number, m.Owes number →
      ((m.identity number).firstIndex : ℕ) + (m.identity number).recordCount < 2 ^ 64 := fun m hm number howes =>
    (Lines.identity_range m.startNonce (hread m hm).fits
      (toldOf_due (run_ok m.cli m.startNonce m.events).settled howes.1).1).2
  have hanswered : ∀ m ∈ fleet, ∀ number, m.Owes number → ∀ fits,
      (ZeroAckedLost.Answered finalState ((m.identity number).read fits) ↔
        ∀ key ∈ m.keys number, ∃ there, finalState m.cli.tenant key = .ok there) := fun m hm number howes fits =>
    forall_key (hread m hm) howes fits fun key => ∃ there, finalState m.cli.tenant key = .ok there
  refine ⟨⟨lines.map (·.toJournalLine)⟩, by rw [ingestJournals_eq, hlines]; rfl, ?_, fun hconclusive => ?_,
    fun m hm number hsent => ⟨(hread m hm).nodup_keys hsent, fun m' hm' number' hsent' key hkey hkey' => ?_⟩⟩
  · rw [inconclusive_iff]
    refine or_congr ?_ ?_
    · rw [List.eq_nil_iff_forall_not_mem]
      constructor
      · intro hnone m hm number howes
        exact hnone _ ((hacked _).mpr ⟨m, hm, number, howes, hfits m hm number howes, rfl⟩)
      · intro hnone identity hin
        obtain ⟨m, hm, number, howes, -⟩ := (hacked _).mp hin
        exact hnone m hm number howes
    · constructor
      · rintro ⟨_, hin, hnot⟩
        obtain ⟨m, hm, number, howes, fits, rfl⟩ := (hacked _).mp hin
        rw [hanswered m hm number howes fits] at hnot
        push Not at hnot
        obtain ⟨key, hkey, hnot⟩ := hnot
        refine ⟨m, hm, number, howes, key, hkey, ?_⟩
        cases hanswer : finalState m.cli.tenant key with
        | ok there => exact absurd hanswer (hnot there)
        | error err => exact ⟨err, rfl⟩
      · rintro ⟨m, hm, number, howes, key, hkey, err, herr⟩
        have fits := hfits m hm number howes
        refine ⟨_, (hacked _).mpr ⟨m, hm, number, howes, fits, rfl⟩, fun hall => ?_⟩
        obtain ⟨there, hthere⟩ := (hanswered m hm number howes fits).mp hall key hkey
        exact absurd (herr.symm.trans hthere) (by simp)
  · rw [inconclusive_iff, not_or] at hconclusive
    rw [← Verdict.exitCode_eq_zero, zeroAckedLost_passes, and_iff_right hconclusive.1]
    constructor
    · intro hthere m hm number howes
      have fits := hfits m hm number howes
      exact (forall_key (hread m hm) howes fits fun key => finalState m.cli.tenant key = .ok true).mp
        (hthere _ ((hacked _).mpr ⟨m, hm, number, howes, fits, rfl⟩))
    · intro hthere identity hin
      obtain ⟨m, hm, number, howes, fits, rfl⟩ := (hacked _).mp hin
      exact (forall_key (hread m hm) howes fits fun key => finalState m.cli.tenant key = .ok true).mpr
        (hthere m hm number howes)
  · obtain ⟨hnode, hnumber⟩ := (hread m hm).key_unique (hread m' hm') hsent hsent' hkey hkey'
    obtain rfl : m = m' := List.inj_on_of_nodup_map hnodes hm hm' hnode
    exact ⟨rfl, hnumber rfl⟩

/-- The member wrote its summary, with every request it sent resolved and counted, and few enough of them ambiguous. -/
def LoadgenMember.Ended (ceiling : AmbiguityCeiling) (m : LoadgenMember) : Prop :=
  m.run.summary.isSome = true ∧ (∀ task ∈ m.run.tasks, ∃ resolution, task.phase = .counted resolution) ∧
    (m.run.tasks ≠ [] → ceiling.exceeded (Fin.ofNat (2 ^ 64) (outcomes m.run .ambiguous))
      (Fin.ofNat (2 ^ 64) m.run.tasks.length) = false)

/-- **The rule about load generators is satisfied by a fleet exactly** when some member has journaled a line, and each that has
    wrote its summary, with all it sent accounted for: one that was killed before its first line is not missed. -/
theorem fleet_ended (fleet : List LoadgenMember) (hnodes : (fleet.map (·.cli.nodeId)).Nodup)
    (hread : ∀ m ∈ fleet, m.Readable write reader) (hdisk : ∀ m ∈ fleet, SummaryOnDisk reader m.cli.journalPath m.run)
    (debug : String → String) (display : DecodeError → String) (ceiling : AmbiguityCeiling) :
    ∃ lines, ingestLines reader debug (fleet.map (·.cli.journalPath)) = .ok lines ∧
      ((∃ n, checkLoadgenOutcomes reader display ceiling lines = .ok n ∧ n ≠ 0) ↔
        (∃ m ∈ fleet, m.Journaled) ∧ ∀ m ∈ fleet, m.Journaled → m.Ended ceiling) := by
  obtain ⟨lines, hlines, hof, hall⟩ := ingestLines_fleet hnodes hread debug
  have hended : ∀ m ∈ fleet, checkSummary reader display ceiling m.cli.journalPath = [] ↔ m.Ended ceiling := fun m hm =>
    checkSummary_run (run_ok m.cli m.startNonce m.events) (hread m hm).fits (hdisk m hm) display ceiling
  refine ⟨lines, hlines, ?_⟩
  rw [checkLoadgenOutcomes_ok, LoadgensEnded]
  simp only [← checkSummary_eq_nil]
  refine and_congr ⟨?_, ?_⟩ ⟨fun h m hm hjournaled => ?_, fun h line hline _ => ?_⟩
  · rintro ⟨line, hline, -⟩
    obtain ⟨m, hm, number, event, htold, -⟩ := hof line hline
    exact ⟨m, hm, number, event, htold⟩
  · rintro ⟨m, hm, number, event, htold⟩
    obtain ⟨line, hline, hseen⟩ := hall m hm number event htold
    obtain ⟨_, hidentity⟩ := hseen.identity
    exact ⟨line, hline, by rw [hidentity]; rfl⟩
  · obtain ⟨number, event, htold⟩ := hjournaled
    obtain ⟨line, hline, hseen⟩ := hall m hm number event htold
    obtain ⟨_, hidentity⟩ := hseen.identity
    rw [← hended m hm, ← hseen.source]
    exact h line hline (by rw [hidentity]; rfl)
  · obtain ⟨m, hm, number, event, htold, hseen⟩ := hof line hline
    rw [hseen.source, hended m hm]
    exact h m hm ⟨number, event, htold⟩

end

/-! ### A fleet of three, two of them killed -/

def overtakenMember : LoadgenMember := ⟨twoBatches, 7, overtaken⟩

/-- Its one ack is journaled and not counted. -/
def killedMember : LoadgenMember where
  cli := ⟨⟨"loadgen-1"⟩, "acme", 2, 2, some 1, none, "loadgen-1.ndjson"⟩
  startNonce := 7
  events := [.send, .task 0 (.settle (.settled (.ok none))), .task 0 .journal]

/-- Its one request was never answered. -/
def silentMember : LoadgenMember where
  cli := ⟨⟨"loadgen-2"⟩, "acme", 2, 2, some 1, none, "loadgen-2.ndjson"⟩
  startNonce := 7
  events := [.send]

def killedLine : JournalLine :=
  ⟨⟨"loadgen-1"⟩, 0, .clientAck, ⟨"loadgen-1-7-0", "acme", 2, 0, "loadgen-1-7"⟩⟩

def fleetReader : JournalReader where
  readToString path :=
    if path = "loadgen-1.ndjson" then .ok (lineFile plainText [killedLine.members])
    else if path = "loadgen-2.ndjson" then .ok ""
    else overtakenReader.readToString path
  readObject raw :=
    if raw = plainText killedLine.members then .ok killedLine.members
    else overtakenReader.readObject raw

theorem run_killed : killedMember.run =
    { sent := 1
      tasks := [⟨killedLine.identity, .journaled .acked, false⟩]
      journal := ⟨1, [killedLine], none⟩ } := by
  decide

theorem run_silent : silentMember.run =
    { sent := 1
      tasks := [⟨⟨"loadgen-2-7-0", "acme", 2, 0, "loadgen-2-7"⟩, .inFlight, false⟩] } := by
  decide

theorem readable_overtaken : overtakenMember.Readable plainText fleetReader := by
  have hother : plainText overtakenLine.members ≠ plainText killedLine.members := by decide
  have hline : fleetReader.readObject (plainText overtakenLine.members) = .ok overtakenLine.members := by
    simp only [fleetReader, if_neg hother, overtakenReader, ↓reduceIte]
  refine ⟨fits_overtaken, ?_, ?_, file_overtaken⟩
  · rw [LoadgenMember.run, overtakenMember, run_overtaken]
  · rw [LoadgenMember.run, overtakenMember, run_overtaken]
    refine ⟨json_overtaken.1, fun members hmembers => ?_⟩
    obtain rfl := List.mem_singleton.mp hmembers
    exact hline

theorem readable_killed : killedMember.Readable plainText fleetReader := by
  have hjson : WriteLine.ReadsBack plainText fleetReader [killedLine.members] := by
    refine ⟨fun members hmembers => ?_, fun members hmembers => ?_⟩
    · obtain rfl := List.mem_singleton.mp hmembers
      exact unbroken_iff.mp (by decide +kernel)
    · obtain rfl := List.mem_singleton.mp hmembers
      simp only [fleetReader, ↓reduceIte]
  refine ⟨?_, ?_, ?_, ?_⟩
  · rw [run_killed]
    exact ⟨by decide, by decide⟩
  · rw [run_killed]
  · rw [run_killed]
    exact hjson
  · rw [run_killed]
    decide +kernel

theorem readable_silent : silentMember.Readable plainText fleetReader := by
  refine ⟨?_, ?_, ?_, ?_⟩
  · rw [run_silent]
    exact ⟨by decide, by decide⟩
  · rw [run_silent]
  · rw [run_silent]
    exact ⟨fun _ h => absurd h List.not_mem_nil, fun _ h => absurd h List.not_mem_nil⟩
  · rw [run_silent]
    decide

theorem told_overtaken : toldOf overtakenMember.run.tasks 1 = some .clientAck := by
  rw [LoadgenMember.run, overtakenMember, run_overtaken]
  rfl

theorem told_killed : toldOf killedMember.run.tasks 0 = some .clientAck := by
  rw [run_killed]
  rfl

theorem silent_not_journaled : ¬ silentMember.Journaled := by
  rintro ⟨number, event, htold⟩
  rw [run_silent] at htold
  match number with
  | 0 => cases htold
  | number + 1 => cases htold

/-- Where everything sent is there the run passes, and where a record of the killed generator's ack is missing it does not; the
    requests of the two that were acked share no key. -/
theorem fleet_verdict_killed :
    ∃ journals, ingestJournals fleetReader id ["loadgen.ndjson", "loadgen-1.ndjson", "loadgen-2.ndjson"] = .ok journals ∧
      (∃ n, ZeroAckedLost.check id (fun _ _ => .ok true) journals = .pass n) ∧
      (¬ ∃ n, ZeroAckedLost.check id (fun _ key => .ok (decide (key ∉ killedMember.keys 0))) journals = .pass n) ∧
      ∀ key ∈ overtakenMember.keys 1, key ∉ killedMember.keys 0 := by
  have hread : ∀ m ∈ [overtakenMember, killedMember, silentMember], m.Readable plainText fleetReader :=
    List.forall_mem_cons.mpr ⟨readable_overtaken, List.forall_mem_cons.mpr ⟨readable_killed,
      List.forall_mem_singleton.mpr readable_silent⟩⟩
  have howes : killedMember.Owes 0 := ⟨told_killed, by decide, by decide⟩
  have hkilled : killedMember ∈ [overtakenMember, killedMember, silentMember] := List.mem_cons_of_mem _ List.mem_cons_self
  obtain ⟨journals, hjournals, hinconclusive, hpass, hkeys⟩ :=
    fleet_verdict [overtakenMember, killedMember, silentMember] (by decide) hread id fun _ _ => .ok true
  obtain ⟨journals', hjournals', hinconclusive', hpass', -⟩ :=
    fleet_verdict [overtakenMember, killedMember, silentMember] (by decide) hread id
      fun _ key => .ok (decide (key ∉ killedMember.keys 0))
  obtain rfl : journals = journals' := Except.ok.inj (hjournals.symm.trans hjournals')
  refine ⟨journals, hjournals, (hpass ?_).mpr fun _ _ _ _ _ _ => rfl, fun hfalse => ?_, fun key hkey hkey' => ?_⟩
  · rw [hinconclusive]
    rintro (hnone | ⟨_, _, _, _, _, _, _, herr⟩)
    · exact hnone killedMember hkilled 0 howes
    · cases herr
  · have hconclusive : ¬ (ZeroAckedLost.check id (fun _ key => .ok (decide (key ∉ killedMember.keys 0))) journals).Inconclusive := by
      obtain ⟨n, hn⟩ := hfalse
      rw [hn]
      exact not_false
    have hkey : "loadgen-1-7-0" ∈ killedMember.keys 0 := by decide
    have hthere := (hpass' hconclusive).mp hfalse killedMember hkilled 0 howes _ hkey
    exact absurd hkey (of_decide_eq_true (Except.ok.inj hthere))
  · have hone : overtakenMember = killedMember ∧ (1 : ℕ) = 0 :=
      (hkeys overtakenMember List.mem_cons_self 1 (by decide)).2 killedMember hkilled 0 (by decide) key hkey hkey'
    exact absurd hone.2 (by decide)

theorem disk_fleet_overtaken : SummaryOnDisk fleetReader overtakenMember.cli.journalPath overtakenMember.run := by
  have hkilled : plainText overtakenSummary.members ≠ plainText killedLine.members := by decide
  have hother : plainText overtakenSummary.members ≠ plainText overtakenLine.members := by decide
  refine ⟨disk_overtaken.absent, fun summary h => ?_⟩
  rw [LoadgenMember.run, overtakenMember, run_overtaken] at h
  obtain rfl := Option.some.inj h
  refine ⟨plainText overtakenSummary.members, by decide, ?_⟩
  simp only [fleetReader, if_neg hkilled, overtakenReader, if_neg hother, ↓reduceIte]

theorem disk_fleet_killed : SummaryOnDisk fleetReader killedMember.cli.journalPath killedMember.run := by
  rw [run_killed]
  exact ⟨fun _ => ⟨"No such file or directory (os error 2)", by decide⟩, fun _ h => by cases h⟩

theorem disk_fleet_silent : SummaryOnDisk fleetReader silentMember.cli.journalPath silentMember.run := by
  rw [run_silent]
  exact ⟨fun _ => ⟨"No such file or directory (os error 2)", by decide⟩, fun _ h => by cases h⟩

/-- The generator that was killed before its first line is not missed; the one that was killed after it is. -/
theorem fleet_ended_silent :
    (∃ lines, ingestLines fleetReader id ["loadgen.ndjson", "loadgen-2.ndjson"] = .ok lines ∧
      ∃ n, checkLoadgenOutcomes fleetReader (fun _ => "") ⟨fun _ _ => false, fun _ _ => "", ""⟩ lines = .ok n ∧ n ≠ 0) ∧
    ∃ lines, ingestLines fleetReader id ["loadgen.ndjson", "loadgen-1.ndjson"] = .ok lines ∧
      ¬ ∃ n, checkLoadgenOutcomes fleetReader (fun _ => "") ⟨fun _ _ => false, fun _ _ => "", ""⟩ lines = .ok n ∧ n ≠ 0 := by
  have hsilent : ∀ m ∈ [overtakenMember, silentMember],
      m.Readable plainText fleetReader ∧ SummaryOnDisk fleetReader m.cli.journalPath m.run :=
    List.forall_mem_cons.mpr ⟨⟨readable_overtaken, disk_fleet_overtaken⟩,
      List.forall_mem_singleton.mpr ⟨readable_silent, disk_fleet_silent⟩⟩
  have hkilled : ∀ m ∈ [overtakenMember, killedMember],
      m.Readable plainText fleetReader ∧ SummaryOnDisk fleetReader m.cli.journalPath m.run :=
    List.forall_mem_cons.mpr ⟨⟨readable_overtaken, disk_fleet_overtaken⟩,
      List.forall_mem_singleton.mpr ⟨readable_killed, disk_fleet_killed⟩⟩
  obtain ⟨lines, hlines, hended⟩ := fleet_ended [overtakenMember, silentMember] (by decide) (fun m hm => (hsilent m hm).1)
    (fun m hm => (hsilent m hm).2) id (fun _ => "") ⟨fun _ _ => false, fun _ _ => "", ""⟩
  obtain ⟨lines', hlines', hended'⟩ := fleet_ended [overtakenMember, killedMember] (by decide)
    (fun m hm => (hkilled m hm).1) (fun m hm => (hkilled m hm).2) id (fun _ => "") ⟨fun _ _ => false, fun _ _ => "", ""⟩
  refine ⟨⟨lines, hlines, hended.mpr ⟨⟨overtakenMember, List.mem_cons_self, 1, _, told_overtaken⟩, fun m hm hjournaled => ?_⟩⟩,
    lines', hlines', fun hsatisfied => ?_⟩
  · have hone : m = overtakenMember ∨ m = silentMember := by simpa using hm
    obtain rfl | rfl := hone
    · rw [LoadgenMember.Ended, LoadgenMember.run, overtakenMember, run_overtaken]
      simp
    · exact absurd hjournaled silent_not_journaled
  · obtain ⟨hsummary, -⟩ := (hended'.mp hsatisfied).2 killedMember (by simp) ⟨0, _, told_killed⟩
    rw [run_killed] at hsummary
    exact absurd hsummary (by decide)

end Loadgen

end Duckspout
