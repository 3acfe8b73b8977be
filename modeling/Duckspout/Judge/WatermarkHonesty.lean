import Duckspout.Judge.Evidence
import Duckspout.Lib.Groups
import Duckspout.Lib.Maxima

/-! Watermark honesty (`duckspout-judge/src/predicates/watermark_honesty.rs`): what was claimed and served, replayed
    against what the journals prove.

    A node's own lines are in order of time, so an advertisement is held to what its node had established before it and
    to what any other node ever did; a read carries no place among the journals and is held to the whole run. The
    predicate finds both bounds in one index, by partition and node, of running greatest values. -/

namespace Duckspout

namespace WatermarkHonesty

open Maxima

/-! ### The predicate -/

/-- The events whose watermark value is coverage reached. -/
def coverageSources : List TraceEvent := [.lakeCommitOk, .declareLoss, .lakeCommitIndeterminate, .reconcile]

def systemTenantPrefix : String := "_"

inductive Finding where
  | unbackedAdvertisement (node : NodeId) (partition : PartitionId) (advertisedMs coverageBoundMs : ℤ)
  | unprovenCoverage (partition : PartitionId) (servedAtMs coverageBoundMs : ℤ)
  | missingUnderWatermark (partition : PartitionId) (servedAtMs : ℤ) (requestId tenant : String)
      (missingKeys : Finset String)
  deriving DecidableEq

/-- An acked batch that a `complete` read at or above its greatest event time owes. -/
structure OwedBatch where
  identity : RequestIdentity
  partition : PartitionId
  maxEventTimeMs : ℤ

/-- The identity of every record of a request. -/
def recordKeys (identity : RequestIdentity) : Finset String :=
  (Finset.range identity.recordCount).image fun offset =>
    identity.sourceIncarnation ++ "-" ++ toString (identity.firstIndex + offset)

/-- A watermark value, with the line that carried it. -/
structure Claim where
  node : NodeId
  seq : ℕ
  event : TraceEvent
  watermark : WatermarkClaim

/-- An advertisement: neither coverage reached nor the value of an aborted commit. -/
def Claim.isAdvertisement (claim : Claim) : Bool := claim.event ∉ coverageSources ∧ claim.event ≠ .lakeCommitAbort

structure Tally where
  advertisements : ℕ := 0
  reads : ℕ := 0
  missingRuleReads : ℕ := 0

/-- What a run without findings owes where one of the rules has not run. -/
def Tally.vacuity (tally : Tally) : Option (Verdict Finding) :=
  if tally.advertisements = 0 then
    some (.noVerdict (toString tally.reads ++ " served `complete` read(s) were replayed against the journals, but no " ++
      "node advertised a watermark value anywhere in this run's evidence — the claimed-vs-committed half of watermark " ++
      "honesty is uncertified (§8.4: skipped ≠ passed)"))
  else if tally.reads = 0 then
    some (.noVerdict (toString tally.advertisements ++ " advertised watermark value(s) were replayed against the " ++
      "journals and every one was backed by journaled coverage, but no `complete` read was served in this run's " ++
      "evidence — the query-side half of watermark honesty is uncertified"))
  else if tally.missingRuleReads = 0 then
    some (.noVerdict (toString tally.advertisements ++ " advertisement(s) and " ++ toString tally.reads ++
      " served `complete` read(s) held, but every one of those reads was in a partition a §5.8 DeclareLoss had " ++
      "touched, so the missing-record rule never ran in this run — a declared loss excuses missing rows, it does not " ++
      "certify that none were missing (§8.4: skipped ≠ passed)"))
  else none

def initialWatermarkMs : ℤ := 0

/-- By partition and node, the node's coverage by sequence number, each value the greatest so far. -/
abbrev Coverage := OrdMap PartitionId (OrdMap NodeId (List (ℕ × ℤ)))

def Coverage.ofClaims (claims : List Claim) : Coverage :=
  ((claims.filter fun claim => claim.event ∈ coverageSources).foldl (fun perNode claim =>
      perNode.upsert claim.watermark.partition fun byNode =>
        byNode.push claim.node (claim.seq, claim.watermark.completeThroughMs)) (∅ : Coverage)).map fun _ byNode =>
    byNode.map fun _ lines => running initialWatermarkMs (lines.insertionSort (·.1 ≤ ·.1))

/-- The greatest coverage any node has reached. -/
def Coverage.runWideBound (coverage : Coverage) (partition : PartitionId) : ℤ :=
  match coverage[partition]? with
  | none => initialWatermarkMs
  | some byNode =>
    ((byNode.toList.filterMap fun (_, lines) => lines.getLast?.map (·.2)).max?).getD initialWatermarkMs

/-- What a node's own lines before `seq` have reached. -/
def ownPrefix (lines : List (ℕ × ℤ)) (seq : ℕ) : ℤ :=
  match partitionPoint (·.1 < seq) lines with
  | 0 => initialWatermarkMs
  | before + 1 => lines[before]?.elim initialWatermarkMs (·.2)

/-- The greatest coverage of any other node, and of the node itself before `seq`. -/
def Coverage.boundForAdvertisement (coverage : Coverage) (partition : PartitionId) (node : NodeId) (seq : ℕ) : ℤ :=
  match coverage[partition]? with
  | none => initialWatermarkMs
  | some byNode =>
    let others := (((byNode.toList.filter fun (other, _) => other ≠ node).filterMap fun (_, lines) =>
      lines.getLast?.map (·.2)).max?).getD initialWatermarkMs
    let own := byNode[node]?.elim initialWatermarkMs fun lines => ownPrefix lines seq
    max others own

/-- Where a declared loss may excuse missing rows. -/
structure LossScope where
  partitions : Finset PartitionId
  unknown : Bool

def LossScope.note (scope : LossScope) (line : JournalLine) : LossScope :=
  if line.event = .declareLoss then
    match line.watermark with
    | some claim => { scope with partitions := insert claim.partition scope.partitions }
    | none => { scope with unknown := true }
  else scope

def LossScope.ofJournals (journals : JournalSet) : LossScope := journals.lines.foldl note ⟨∅, false⟩

def LossScope.excuses (scope : LossScope) (partition : PartitionId) : Bool :=
  scope.unknown || partition ∈ scope.partitions

/-- What one served answer owed and did not have. -/
def missingUnderWatermark (read : ReadRecord) (completeThroughMs : ℤ) (keys : Finset String) (owed : List OwedBatch) :
    List Finding :=
  (owed.filter fun batch => batch.partition = read.partition ∧ batch.identity.tenant = read.tenant ∧
    batch.maxEventTimeMs ≤ completeThroughMs).filterMap fun batch =>
      let missing := (recordKeys batch.identity).filter (· ∉ keys)
      if missing ≠ ∅ then
        some (.missingUnderWatermark read.partition completeThroughMs batch.identity.requestId batch.identity.tenant
          missing)
      else none

/-- One acked line: owed if it names its partition and event-time edge and the watermark it disclosed was below. -/
def owedBatch (x : JournalLine × RequestIdentity) : Option OwedBatch := do
  let partition ← x.2.partition
  let maxEventTimeMs ← x.2.maxEventTimeMs
  let disclosed ← x.1.watermark
  if disclosed.completeThroughMs ≥ maxEventTimeMs ∨ x.2.recordCount = 0 ∨ startsWith x.2.tenant systemTenantPrefix then
    none
  else some ⟨x.2, partition, maxEventTimeMs⟩

def owedBatches (journals : JournalSet) : List OwedBatch := (journals.identityEvents .clientAck).filterMap owedBatch

def claimsOf (journals : JournalSet) : List Claim :=
  journals.watermarkClaims.map fun x => ⟨x.1.node, x.1.seq, x.1.event, x.2⟩

/-- One advertisement against the coverage journaled. -/
def replayClaim (coverage : Coverage) (state : Tally × List Finding) (claim : Claim) : Tally × List Finding :=
  let tally := { state.1 with advertisements := state.1.advertisements + 1 }
  let bound := coverage.boundForAdvertisement claim.watermark.partition claim.node claim.seq
  if claim.watermark.completeThroughMs > bound then
    (tally, state.2 ++ [.unbackedAdvertisement claim.node claim.watermark.partition claim.watermark.completeThroughMs
      bound])
  else (tally, state.2)

/-- One read: a served `complete` answer must have been covered and hold what it owes. -/
def replayRead (coverage : Coverage) (loss : LossScope) (owed : List OwedBatch) (state : Tally × List Finding)
    (read : ReadRecord) : Tally × List Finding :=
  match read.concern, read.outcome with
  | .complete, .served completeThroughMs keys =>
    let tally := { state.1 with reads := state.1.reads + 1 }
    let bound := coverage.runWideBound read.partition
    let findings := if completeThroughMs > bound then
        state.2 ++ [.unprovenCoverage read.partition completeThroughMs bound]
      else state.2
    if loss.excuses read.partition then (tally, findings)
    else ({ tally with missingRuleReads := tally.missingRuleReads + 1 },
      findings ++ missingUnderWatermark read completeThroughMs keys owed)
  | _, _ => state

/-- The tally and the findings of a run. -/
def replay (journals : JournalSet) (reads : List ReadRecord) : Tally × List Finding :=
  let claims := claimsOf journals
  let coverage := Coverage.ofClaims claims
  reads.foldl (replayRead coverage (.ofJournals journals) (owedBatches journals))
    ((claims.filter (·.isAdvertisement)).foldl (replayClaim coverage) ({}, []))

def check (journals : JournalSet) (reads : List ReadRecord) : Verdict Finding :=
  if (claimsOf journals).isEmpty then
    .noVerdict ("no journal line carried a watermark value at all — no node ever advanced or advertised coverage, " ++
      "so there is nothing to replay (§8.4 vacuity teeth)")
  else
    let (tally, findings) := replay journals reads
    if ¬ findings.isEmpty then .violation findings
    else
      match tally.vacuity with
      | some vacuous => vacuous
      | none => .passing (tally.advertisements + tally.reads)
          ("nothing was checked — this run certifies nothing about watermark honesty (§8.4 vacuity teeth)")

/-! ### The index -/

section Index

variable {claims : List Claim} {p : PartitionId}

/-- A node's coverage of a partition, line by line. -/
def sourceLines (claims : List Claim) (p : PartitionId) (n : NodeId) : List (ℕ × ℤ) :=
  (((claims.filter fun claim => claim.event ∈ coverageSources).filter (·.watermark.partition = p)).filter
    (·.node = n)).map fun claim => (claim.seq, claim.watermark.completeThroughMs)

theorem mem_sourceLines {n : NodeId} {x : ℕ × ℤ} : x ∈ sourceLines claims p n ↔
    ∃ c ∈ claims, c.event ∈ coverageSources ∧ c.watermark.partition = p ∧ c.node = n ∧
      x = (c.seq, c.watermark.completeThroughMs) := by
  simp only [sourceLines, List.mem_map, List.mem_filter, decide_eq_true_eq, and_assoc, eq_comm (a := x)]

theorem ofClaims_eq_none : (Coverage.ofClaims claims)[p]? = none ↔
    ∀ c ∈ claims, c.event ∈ coverageSources → c.watermark.partition ≠ p := by
  have hsome := OrdMap.isSome_foldl_upsert (fun claim : Claim => claim.watermark.partition)
    (fun claim (byNode : OrdMap NodeId (List (ℕ × ℤ))) =>
      byNode.push claim.node (claim.seq, claim.watermark.completeThroughMs))
    (claims.filter fun claim => claim.event ∈ coverageSources) ∅ p
  rw [Coverage.ofClaims, Std.ExtTreeMap.getElem?_map, Option.map_eq_none_iff, ← Option.not_isSome_iff_eq_none, hsome]
  simp

theorem getElem?_ofClaims {byNode : OrdMap NodeId (List (ℕ × ℤ))} (h : (Coverage.ofClaims claims)[p]? = some byNode)
    {n : NodeId} {lines : List (ℕ × ℤ)} : byNode[n]? = some lines ↔ sourceLines claims p n ≠ [] ∧
      lines = running initialWatermarkMs ((sourceLines claims p n).insertionSort (·.1 ≤ ·.1)) := by
  have hget := OrdMap.get_foldl_upsert (fun claim : Claim => claim.watermark.partition)
    (fun claim (byNode : OrdMap NodeId (List (ℕ × ℤ))) =>
      byNode.push claim.node (claim.seq, claim.watermark.completeThroughMs))
    (claims.filter fun claim => claim.event ∈ coverageSources) ∅ p
  rw [Coverage.ofClaims, Std.ExtTreeMap.getElem?_map] at h
  obtain ⟨raw, hraw, rfl⟩ := Option.map_eq_some_iff.mp h
  rw [hraw, OrdMap.get_empty] at hget
  have hgroup : raw = OrdMap.groupBy (·.node) (fun claim => (claim.seq, claim.watermark.completeThroughMs))
    ((claims.filter fun claim => claim.event ∈ coverageSources).filter (·.watermark.partition = p)) := hget
  rw [Std.ExtTreeMap.getElem?_map, hgroup, Option.map_eq_some_iff]
  constructor
  · rintro ⟨ls, hls, rfl⟩
    obtain ⟨hne, rfl⟩ := (OrdMap.get_groupBy_eq_some ..).mp hls
    exact ⟨hne, rfl⟩
  · rintro ⟨hne, rfl⟩
    exact ⟨_, (OrdMap.get_groupBy_eq_some ..).mpr ⟨hne, rfl⟩, rfl⟩

/-- The last of a node's running values is all the node has reached. -/
theorem getLast?_sorted {ls : List (ℕ × ℤ)} (hne : ls ≠ []) :
    ((running initialWatermarkMs (ls.insertionSort (·.1 ≤ ·.1))).getLast?.map (·.2)) =
      some (highest initialWatermarkMs (ls.map (·.2))) := by
  have hperm := List.perm_insertionSort (fun x y : ℕ × ℤ => x.1 ≤ y.1) ls
  have hsorted : ls.insertionSort (·.1 ≤ ·.1) ≠ [] := fun h => hne (List.perm_nil.mp (h ▸ hperm.symm))
  rw [getLast?_running, List.getLast?_eq_some_getLast hsorted, Option.map_map]
  refine congrArg some (highest_congr fun v => ?_)
  simp

/-- Before a sequence number the running values have reached what the lines before it have. -/
theorem ownPrefix_sorted (ls : List (ℕ × ℤ)) (seq : ℕ) :
    ownPrefix (running initialWatermarkMs (ls.insertionSort (·.1 ≤ ·.1))) seq =
      highest initialWatermarkMs ((ls.filter (·.1 < seq)).map (·.2)) := by
  have hprefix : (ls.insertionSort (·.1 ≤ ·.1)).take (partitionPoint (·.1 < seq) (ls.insertionSort (·.1 ≤ ·.1))) =
      (ls.insertionSort (·.1 ≤ ·.1)).filter (·.1 < seq) := by
    rw [take_partitionPoint, takeWhile_eq_filter]
    exact List.pairwise_insertionSort (fun x y : ℕ × ℤ => x.1 ≤ y.1) ls
  have hperm := (List.perm_insertionSort (fun x y : ℕ × ℤ => x.1 ≤ y.1) ls).filter fun x => x.1 < seq
  have hreach : highest initialWatermarkMs ((ls.filter (·.1 < seq)).map (·.2)) =
      highest initialWatermarkMs (((ls.insertionSort (·.1 ≤ ·.1)).filter (·.1 < seq)).map (·.2)) :=
    highest_congr fun v => (hperm.map _).mem_iff.symm
  rw [hreach, ← hprefix, ownPrefix, partitionPoint_running (fun s => decide (s < seq))]
  have hle : partitionPoint (·.1 < seq) (ls.insertionSort (·.1 ≤ ·.1)) ≤ (ls.insertionSort (·.1 ≤ ·.1)).length :=
    (List.takeWhile_prefix _).length_le
  rcases hn : partitionPoint (fun x : ℕ × ℤ => decide (x.1 < seq)) (ls.insertionSort (·.1 ≤ ·.1)) with _ | n
  · rfl
  · rw [hn] at hle
    simp only [getElem?_running, List.getElem?_eq_getElem hle, Option.map_some, Option.elim_some]

/-- What the nodes of a partition have reached, each by its last running value. -/
theorem lastValues_le_iff {byNode : OrdMap NodeId (List (ℕ × ℤ))} (h : (Coverage.ofClaims claims)[p]? = some byNode)
    (counts : NodeId → Bool) {b : ℤ} :
    (((byNode.toList.filter fun x => counts x.1).filterMap fun x => x.2.getLast?.map (·.2)).max?).getD
        initialWatermarkMs ≤ b ↔
      initialWatermarkMs ≤ b ∧ ∀ c ∈ claims, c.event ∈ coverageSources → c.watermark.partition = p → counts c.node →
        c.watermark.completeThroughMs ≤ b := by
  have hmem : ∀ v, v ∈ ((byNode.toList.filter fun x => counts x.1).filterMap fun x => x.2.getLast?.map (·.2)) ↔
      ∃ n, counts n ∧ sourceLines claims p n ≠ [] ∧
        v = highest initialWatermarkMs ((sourceLines claims p n).map (·.2)) := by
    intro v
    rw [List.mem_filterMap]
    constructor
    · rintro ⟨⟨n, lines⟩, hin, hlast⟩
      obtain ⟨hin, hcounts⟩ := List.mem_filter.mp hin
      obtain ⟨hne, rfl⟩ := (getElem?_ofClaims h).mp (OrdMap.mem_toList.mp hin)
      rw [getLast?_sorted hne] at hlast
      exact ⟨n, hcounts, hne, (Option.some.inj hlast).symm⟩
    · rintro ⟨n, hcounts, hne, rfl⟩
      refine ⟨(n, _), List.mem_filter.mpr ⟨OrdMap.mem_toList.mpr ((getElem?_ofClaims h).mpr ⟨hne, rfl⟩), hcounts⟩, ?_⟩
      exact getLast?_sorted hne
  have hfloor : ∀ n, initialWatermarkMs ≤ highest initialWatermarkMs ((sourceLines claims p n).map (·.2)) := fun n =>
    (highest_le_iff.mp le_rfl).1
  rw [getD_max?_le_iff]
  · refine and_congr_right fun hb => ⟨fun hall c hc hsource hp hcounts => ?_, fun hall v hv => ?_⟩
    · have hin : (c.seq, c.watermark.completeThroughMs) ∈ sourceLines claims p c.node :=
        mem_sourceLines.mpr ⟨c, hc, hsource, hp, rfl, rfl⟩
      have hle := hall _ ((hmem _).mpr ⟨c.node, hcounts, List.ne_nil_of_mem hin, rfl⟩)
      exact (highest_le_iff.mp hle).2 _ (List.mem_map_of_mem hin)
    · obtain ⟨n, hcounts, -, rfl⟩ := (hmem v).mp hv
      refine highest_le_iff.mpr ⟨hb, fun w hw => ?_⟩
      obtain ⟨x, hx, rfl⟩ := List.mem_map.mp hw
      obtain ⟨c, hc, hsource, hp, rfl, rfl⟩ := mem_sourceLines.mp hx
      exact hall c hc hsource hp hcounts
  · intro v hv
    obtain ⟨n, -, -, rfl⟩ := (hmem v).mp hv
    exact hfloor n

/-- The bound of a read is the greatest coverage of the run. -/
theorem runWideBound_le_iff {b : ℤ} : (Coverage.ofClaims claims).runWideBound p ≤ b ↔ initialWatermarkMs ≤ b ∧
    ∀ c ∈ claims, c.event ∈ coverageSources → c.watermark.partition = p → c.watermark.completeThroughMs ≤ b := by
  rw [Coverage.runWideBound]
  rcases h : (Coverage.ofClaims claims)[p]? with _ | byNode
  · have hnone := ofClaims_eq_none.mp h
    exact ⟨fun hb => ⟨hb, fun c hc hsource hp => absurd hp (hnone c hc hsource)⟩, And.left⟩
  · have hall := lastValues_le_iff h (fun _ => true) (b := b)
    rw [List.filter_true] at hall
    simpa using hall

/-- The bound of an advertisement is the greatest coverage of any other node, and of its own before it. -/
theorem boundForAdvertisement_le_iff {n : NodeId} {seq : ℕ} {b : ℤ} :
    (Coverage.ofClaims claims).boundForAdvertisement p n seq ≤ b ↔ initialWatermarkMs ≤ b ∧
      ∀ c ∈ claims, c.event ∈ coverageSources → c.watermark.partition = p → c.node ≠ n ∨ c.seq < seq →
        c.watermark.completeThroughMs ≤ b := by
  rw [Coverage.boundForAdvertisement]
  rcases h : (Coverage.ofClaims claims)[p]? with _ | byNode
  · have hnone := ofClaims_eq_none.mp h
    exact ⟨fun hb => ⟨hb, fun c hc hsource hp => absurd hp (hnone c hc hsource)⟩, And.left⟩
  · have hown : byNode[n]?.elim initialWatermarkMs (fun lines => ownPrefix lines seq) ≤ b ↔ initialWatermarkMs ≤ b ∧
        ∀ c ∈ claims, c.event ∈ coverageSources → c.watermark.partition = p → c.node = n → c.seq < seq →
          c.watermark.completeThroughMs ≤ b := by
      rcases hlines : byNode[n]? with _ | lines
      · refine ⟨fun hb => ⟨hb, fun c hc hsource hp hn => ?_⟩, And.left⟩
        have hin : (c.seq, c.watermark.completeThroughMs) ∈ sourceLines claims p n :=
          mem_sourceLines.mpr ⟨c, hc, hsource, hp, hn, rfl⟩
        have hsome := (getElem?_ofClaims h).mpr ⟨List.ne_nil_of_mem hin, rfl⟩
        rw [hlines] at hsome
        cases hsome
      · obtain ⟨-, rfl⟩ := (getElem?_ofClaims h).mp hlines
        rw [Option.elim_some, ownPrefix_sorted, highest_le_iff]
        refine and_congr_right fun _ => ⟨fun hall c hc hsource hp hn hseq => ?_, fun hall v hv => ?_⟩
        · have hin : (c.seq, c.watermark.completeThroughMs) ∈ sourceLines claims p n :=
            mem_sourceLines.mpr ⟨c, hc, hsource, hp, hn, rfl⟩
          exact hall _ (List.mem_map_of_mem (List.mem_filter.mpr ⟨hin, decide_eq_true hseq⟩))
        · obtain ⟨x, hx, rfl⟩ := List.mem_map.mp hv
          obtain ⟨hx, hseq⟩ := List.mem_filter.mp hx
          obtain ⟨c, hc, hsource, hp, hn, rfl⟩ := mem_sourceLines.mp hx
          exact hall c hc hsource hp hn (of_decide_eq_true hseq)
    have hothers := lastValues_le_iff h (fun other => other ≠ n) (b := b)
    refine max_le_iff.trans ((and_congr hothers hown).trans ⟨?_, ?_⟩)
    · rintro ⟨⟨hb, hothers⟩, -, hown⟩
      refine ⟨hb, fun c hc hsource hp hcounts => ?_⟩
      by_cases hn : c.node = n
      · exact hown c hc hsource hp hn (hcounts.resolve_left (not_not_intro hn))
      · exact hothers c hc hsource hp (decide_eq_true hn)
    · rintro ⟨hb, hall⟩
      refine ⟨⟨hb, fun c hc hsource hp hn => hall c hc hsource hp (.inl (of_decide_eq_true hn))⟩, hb, ?_⟩
      exact fun c hc hsource hp hn hseq => hall c hc hsource hp (.inr hseq)

end Index

/-! ### What the journals prove -/

section Law

/-- The line advertises its value: soft state, which an advance has to back. -/
def advertises (line : JournalLine) : Bool := line.event ∉ coverageSources ∧ line.event ≠ .lakeCommitAbort

/-- A read's answer, where it is one that is graded. -/
def graded (read : ReadRecord) : Option (ℤ × Finset String) :=
  match read.concern, read.outcome with
  | .complete, .served completeThroughMs keys => some (completeThroughMs, keys)
  | _, _ => none

/-- The values that count as coverage of a partition, on the lines that count. -/
def coverageValues (journals : JournalSet) (p : PartitionId) (counts : JournalLine → Bool) : List ℤ :=
  (journals.watermarkClaims.filter fun x => x.1.event ∈ coverageSources ∧ x.2.partition = p ∧ counts x.1).map
    (·.2.completeThroughMs)

/-- How far those lines have brought the partition. -/
def reached (journals : JournalSet) (p : PartitionId) (counts : JournalLine → Bool) : ℤ :=
  highest initialWatermarkMs (coverageValues journals p counts)

/-- A loss was declared of the partition, or of one that was not named. -/
def Excused (journals : JournalSet) (p : PartitionId) : Prop :=
  ∃ line ∈ journals.lines, line.event = .declareLoss ∧ ∀ claim ∈ line.watermark, claim.partition = p

instance (journals : JournalSet) (p : PartitionId) : Decidable (Excused journals p) :=
  inferInstanceAs (Decidable (∃ line ∈ journals.lines, _ ∧ ∀ claim ∈ line.watermark, _))

/-- A read served at `ms` owes the records of an ack: of its tenant and partition, and acked while the watermark was
    behind them. -/
def Owes (x : JournalLine × RequestIdentity) (read : ReadRecord) (ms : ℤ) : Prop :=
  x.2.partition = some read.partition ∧ x.2.tenant = read.tenant ∧ startsWith x.2.tenant systemTenantPrefix = false ∧
    x.2.recordCount ≠ 0 ∧ ∃ edge ∈ x.2.maxEventTimeMs, edge ≤ ms ∧ ∃ disclosed ∈ x.1.watermark,
      disclosed.completeThroughMs < edge

instance (x : JournalLine × RequestIdentity) (read : ReadRecord) (ms : ℤ) : Decidable (Owes x read ms) :=
  inferInstanceAs (Decidable (_ ∧ _ ∧ _ ∧ _ ∧ ∃ edge ∈ x.2.maxEventTimeMs, _ ∧ ∃ disclosed ∈ x.1.watermark, _))

/-- What one advertisement deserves. -/
def unbacked (journals : JournalSet) (x : JournalLine × WatermarkClaim) : Option Finding :=
  let bound := reached journals x.2.partition fun line => line.node ≠ x.1.node ∨ line.seq < x.1.seq
  if bound < x.2.completeThroughMs then
    some (.unbackedAdvertisement x.1.node x.2.partition x.2.completeThroughMs bound)
  else none

/-- What one answer deserves for the coverage it claimed. -/
def unproven (journals : JournalSet) (read : ReadRecord) (ms : ℤ) : List Finding :=
  let bound := reached journals read.partition fun _ => true
  if bound < ms then [.unprovenCoverage read.partition ms bound] else []

/-- What one answer deserves for the records it left out. -/
def missing (journals : JournalSet) (read : ReadRecord) (ms : ℤ) (keys : Finset String) : List Finding :=
  (journals.identityEvents .clientAck).filterMap fun x =>
    if Owes x read ms ∧ ¬ recordKeys x.2 ⊆ keys then
      some (.missingUnderWatermark read.partition ms x.2.requestId x.2.tenant (recordKeys x.2 \ keys))
    else none

def ofAnswer (journals : JournalSet) (read : ReadRecord) : List Finding :=
  match graded read with
  | none => []
  | some (ms, keys) => unproven journals read ms ++ if Excused journals read.partition then [] else missing journals read ms keys

/-- What a run deserves: each advertisement and each answer in turn. -/
def deserved (journals : JournalSet) (reads : List ReadRecord) : List Finding :=
  ((journals.watermarkClaims.filter fun x => advertises x.1).filterMap (unbacked journals)) ++
    reads.flatMap (ofAnswer journals)

variable {journals : JournalSet} {reads : List ReadRecord}

theorem mem_coverageValues {p : PartitionId} {counts : JournalLine → Bool} {ms : ℤ} :
    ms ∈ coverageValues journals p counts ↔ ∃ x ∈ journals.watermarkClaims, x.1.event ∈ coverageSources ∧
      x.2.partition = p ∧ counts x.1 ∧ x.2.completeThroughMs = ms := by
  simp only [coverageValues, List.mem_map, List.mem_filter, decide_eq_true_eq, and_assoc]

theorem reached_le_iff {p : PartitionId} {counts : JournalLine → Bool} {b : ℤ} :
    reached journals p counts ≤ b ↔ initialWatermarkMs ≤ b ∧ ∀ x ∈ journals.watermarkClaims,
      x.1.event ∈ coverageSources → x.2.partition = p → counts x.1 → x.2.completeThroughMs ≤ b := by
  rw [reached, highest_le_iff]
  refine and_congr_right fun _ => ⟨fun hall x hx hsource hp hcounts => ?_, fun hall ms hms => ?_⟩
  · exact hall _ (mem_coverageValues.mpr ⟨x, hx, hsource, hp, hcounts, rfl⟩)
  · obtain ⟨x, hx, hsource, hp, hcounts, rfl⟩ := mem_coverageValues.mp hms
    exact hall x hx hsource hp hcounts

/-- The index has the greatest coverage of a partition. -/
theorem runWideBound_eq (journals : JournalSet) (p : PartitionId) :
    (Coverage.ofClaims (claimsOf journals)).runWideBound p = reached journals p fun _ => true := by
  refine eq_of_forall_ge_iff fun b => ?_
  rw [runWideBound_le_iff, reached_le_iff, claimsOf, List.forall_mem_map]
  simp

/-- The index has what backs an advertisement. -/
theorem boundForAdvertisement_eq (journals : JournalSet) (p : PartitionId) (n : NodeId) (seq : ℕ) :
    (Coverage.ofClaims (claimsOf journals)).boundForAdvertisement p n seq =
      reached journals p fun line => line.node ≠ n ∨ line.seq < seq := by
  refine eq_of_forall_ge_iff fun b => ?_
  rw [boundForAdvertisement_le_iff, reached_le_iff, claimsOf, List.forall_mem_map]
  simp

theorem excuses_foldl (lines : List JournalLine) (scope : LossScope) (p : PartitionId) :
    (lines.foldl LossScope.note scope).excuses p ↔ scope.excuses p ∨
      ∃ line ∈ lines, line.event = .declareLoss ∧ ∀ claim ∈ line.watermark, claim.partition = p := by
  induction lines generalizing scope with
  | nil => simp
  | cons line lines ih =>
    have hnote : (scope.note line).excuses p ↔ scope.excuses p ∨
        line.event = .declareLoss ∧ ∀ claim ∈ line.watermark, claim.partition = p := by
      rw [LossScope.note]
      by_cases hevent : line.event = .declareLoss
      · rcases hclaim : line.watermark with _ | claim
        · simp [LossScope.excuses, hevent]
        · simp [LossScope.excuses, hevent, eq_comm (a := p), or_left_comm, or_comm]
      · simp [hevent]
    rw [List.foldl_cons, ih, hnote]
    simp [or_assoc]

theorem excuses_ofJournals (journals : JournalSet) (p : PartitionId) :
    (LossScope.ofJournals journals).excuses p ↔ Excused journals p := by
  rw [LossScope.ofJournals, excuses_foldl, Excused]
  simp [LossScope.excuses]

theorem owedBatch_bind (x : JournalLine × RequestIdentity) (read : ReadRecord) (ms : ℤ) (found : RequestIdentity → Option Finding) :
    ((owedBatch x).bind fun batch => if batch.partition = read.partition ∧ batch.identity.tenant = read.tenant ∧
        batch.maxEventTimeMs ≤ ms then found batch.identity else none) =
      if Owes x read ms then found x.2 else none := by
  rcases hp : x.2.partition with _ | p
  · simp [owedBatch, Owes, hp]
  rcases he : x.2.maxEventTimeMs with _ | edge
  · simp [owedBatch, Owes, hp, he]
  rcases hw : x.1.watermark with _ | disclosed
  · simp [owedBatch, Owes, hp, he, hw]
  · have howes : Owes x read ms ↔ p = read.partition ∧ x.2.tenant = read.tenant ∧
        startsWith x.2.tenant systemTenantPrefix = false ∧ x.2.recordCount ≠ 0 ∧ edge ≤ ms ∧
          disclosed.completeThroughMs < edge := by
      simp [Owes, hp, he, hw]
    have howed : owedBatch x = if disclosed.completeThroughMs ≥ edge ∨ x.2.recordCount = 0 ∨
        startsWith x.2.tenant systemTenantPrefix then none else some ⟨x.2, p, edge⟩ := by
      simp [owedBatch, hp, he, hw]
    by_cases hout : disclosed.completeThroughMs ≥ edge ∨ x.2.recordCount = 0 ∨
        startsWith x.2.tenant systemTenantPrefix
    · rw [howed, if_pos hout, Option.bind_none, if_neg]
      rintro h
      obtain ⟨-, -, hsystem, hcount, -, hbelow⟩ := howes.mp h
      rcases hout with hout | hout | hout
      · exact absurd hbelow (not_lt.mpr hout)
      · exact hcount hout
      · simp [hsystem] at hout
    · rw [howed, if_neg hout, Option.bind_some]
      simp only [not_or, not_le, Bool.not_eq_true] at hout
      refine if_congr ?_ rfl rfl
      rw [howes]
      tauto

/-- An answer is charged with the batches it owes. -/
theorem missing_eq (journals : JournalSet) (read : ReadRecord) (ms : ℤ) (keys : Finset String) :
    missingUnderWatermark read ms keys (owedBatches journals) = missing journals read ms keys := by
  rw [missingUnderWatermark, owedBatches, List.filterMap_filter, List.filterMap_filterMap, missing]
  refine List.filterMap_congr fun x _ => ?_
  simp only [decide_eq_true_eq]
  rw [owedBatch_bind x read ms fun identity => if (recordKeys identity).filter (· ∉ keys) ≠ ∅ then
    some (.missingUnderWatermark read.partition ms identity.requestId identity.tenant
      ((recordKeys identity).filter (· ∉ keys))) else none, ← Finset.sdiff_eq_filter, ite_and]
  simp only [ne_eq, Finset.sdiff_eq_empty_iff_subset]

/-- One advertisement is counted and gets what it deserves. -/
theorem replayClaim_eq (state : Tally × List Finding) (x : JournalLine × WatermarkClaim) :
    replayClaim (.ofClaims (claimsOf journals)) state ⟨x.1.node, x.1.seq, x.1.event, x.2⟩ =
      ({ state.1 with advertisements := state.1.advertisements + 1 }, state.2 ++ (unbacked journals x).toList) := by
  simp only [replayClaim, boundForAdvertisement_eq, unbacked, gt_iff_lt]
  split_ifs
  · rfl
  · simp

theorem foldl_replayClaim (xs : List (JournalLine × WatermarkClaim)) (state : Tally × List Finding) :
    (xs.map fun x => (⟨x.1.node, x.1.seq, x.1.event, x.2⟩ : Claim)).foldl (replayClaim (.ofClaims (claimsOf journals)))
        state =
      ({ state.1 with advertisements := state.1.advertisements + xs.length },
        state.2 ++ xs.filterMap (unbacked journals)) := by
  induction xs generalizing state with
  | nil => simp
  | cons x xs ih =>
    rw [List.map_cons, List.foldl_cons, replayClaim_eq, ih, List.filterMap_cons]
    rcases unbacked journals x with _ | f
    all_goals
      simp
      omega

/-- The answers that are graded. -/
def answers (reads : List ReadRecord) : List ReadRecord := reads.filter fun read => (graded read).isSome

/-- The answers whose records are looked for. -/
def searched (journals : JournalSet) (reads : List ReadRecord) : List ReadRecord :=
  (answers reads).filter fun read => ¬ Excused journals read.partition

theorem graded_eq_some {read : ReadRecord} {ms : ℤ} {keys : Finset String} :
    graded read = some (ms, keys) ↔ read.concern = .complete ∧ read.outcome = .served ms keys := by
  rcases hconcern : read.concern with _ | _
  · rcases houtcome : read.outcome with ⟨ms', keys'⟩ | reason
    · simp [graded, hconcern, houtcome]
    · simp [graded, houtcome]
  · simp [graded, hconcern]

/-- One read is counted for the rules that ran and gets what it deserves. -/
theorem replayRead_eq (state : Tally × List Finding) (read : ReadRecord) :
    replayRead (.ofClaims (claimsOf journals)) (.ofJournals journals) (owedBatches journals) state read =
      (⟨state.1.advertisements, state.1.reads + (answers [read]).length,
        state.1.missingRuleReads + (searched journals [read]).length⟩, state.2 ++ ofAnswer journals read) := by
  rcases hgraded : graded read with _ | ⟨ms, keys⟩
  · have hskip : replayRead (.ofClaims (claimsOf journals)) (.ofJournals journals) (owedBatches journals) state read =
        state := by
      rcases hconcern : read.concern with _ | _
      · rcases houtcome : read.outcome with ⟨ms, keys⟩ | reason
        · simp [graded, hconcern, houtcome] at hgraded
        · simp [replayRead, houtcome]
      · simp [replayRead, hconcern]
    rw [hskip]
    simp [answers, searched, ofAnswer, hgraded]
  · have hread := graded_eq_some.mp hgraded
    simp only [replayRead, hread.1, hread.2, runWideBound_eq, missing_eq, gt_iff_lt, answers, searched, ofAnswer, hgraded]
    by_cases hexcused : Excused journals read.partition
    · rw [if_pos ((excuses_ofJournals journals _).mpr hexcused)]
      simp only [unproven]
      split_ifs <;> simp [hgraded, hexcused]
    · rw [if_neg fun h => hexcused ((excuses_ofJournals journals _).mp h)]
      simp only [unproven]
      split_ifs <;> simp [hgraded, hexcused]

theorem foldl_replayRead (reads : List ReadRecord) (state : Tally × List Finding) :
    reads.foldl (replayRead (.ofClaims (claimsOf journals)) (.ofJournals journals) (owedBatches journals)) state =
      (⟨state.1.advertisements, state.1.reads + (answers reads).length,
        state.1.missingRuleReads + (searched journals reads).length⟩,
        state.2 ++ reads.flatMap (ofAnswer journals)) := by
  induction reads generalizing state with
  | nil => simp [answers, searched]
  | cons read reads ih =>
    have hcons : answers (read :: reads) = answers [read] ++ answers reads := by
      simp [answers, ← List.filter_append]
    have hsearched : searched journals (read :: reads) = searched journals [read] ++ searched journals reads := by
      rw [searched, hcons, List.filter_append, searched, searched]
    rw [List.foldl_cons, replayRead_eq, ih, hcons, hsearched]
    simp [Nat.add_assoc]

/-- How often each rule runs. -/
def tallyOf (journals : JournalSet) (reads : List ReadRecord) : Tally :=
  ⟨(journals.watermarkClaims.filter fun x => advertises x.1).length, (answers reads).length,
    (searched journals reads).length⟩

/-- A run is tallied by its rules and gets what it deserves. -/
theorem replay_eq (journals : JournalSet) (reads : List ReadRecord) :
    replay journals reads = (tallyOf journals reads, deserved journals reads) := by
  have hclaims : (claimsOf journals).filter (·.isAdvertisement) =
      (journals.watermarkClaims.filter fun x => advertises x.1).map fun x => ⟨x.1.node, x.1.seq, x.1.event, x.2⟩ := by
    rw [claimsOf, List.filter_map]
    rfl
  rw [replay, hclaims, foldl_replayClaim, foldl_replayRead, deserved]
  simp [tallyOf]

theorem isEmpty_claimsOf (hclaims : journals.watermarkClaims ≠ []) : (claimsOf journals).isEmpty = false := by
  simpa [claimsOf, List.isEmpty_iff] using hclaims

theorem check_of_deserved (hclaims : journals.watermarkClaims ≠ []) (h : deserved journals reads ≠ []) :
    check journals reads = .violation (deserved journals reads) := by
  have hfound : (deserved journals reads).isEmpty = false := by
    simpa [List.isEmpty_iff] using h
  simp [check, isEmpty_claimsOf hclaims, replay_eq, hfound]

theorem Tally.vacuity_spec (tally : Tally) : (∃ reason, tally.vacuity = some (.noVerdict reason) ∧
      ¬ (0 < tally.advertisements ∧ 0 < tally.reads ∧ 0 < tally.missingRuleReads)) ∨
    tally.vacuity = none ∧ 0 < tally.advertisements ∧ 0 < tally.reads ∧ 0 < tally.missingRuleReads := by
  simp only [Tally.vacuity]
  split_ifs with hads hreads hmissing
  · exact .inl ⟨_, rfl, fun h => h.1.ne' hads⟩
  · exact .inl ⟨_, rfl, fun h => h.2.1.ne' hreads⟩
  · exact .inl ⟨_, rfl, fun h => h.2.2.ne' hmissing⟩
  · exact .inr ⟨rfl, Nat.pos_of_ne_zero hads, Nat.pos_of_ne_zero hreads, Nat.pos_of_ne_zero hmissing⟩

/-- Without a finding the verdict rests on how often each rule has run. -/
theorem check_of_clean (hclaims : journals.watermarkClaims ≠ []) (h : deserved journals reads = []) :
    (∃ reason, check journals reads = .noVerdict reason ∧ ¬ (0 < (tallyOf journals reads).advertisements ∧
      0 < (tallyOf journals reads).reads ∧ 0 < (tallyOf journals reads).missingRuleReads)) ∨
    check journals reads = .pass ((tallyOf journals reads).advertisements + (tallyOf journals reads).reads) ∧
      0 < (tallyOf journals reads).advertisements ∧ 0 < (tallyOf journals reads).reads ∧
      0 < (tallyOf journals reads).missingRuleReads := by
  rcases (tallyOf journals reads).vacuity_spec with ⟨reason, hvacuous, hnot⟩ | ⟨hran, hads, hreads, hmissing⟩
  · exact .inl ⟨reason, by simp [check, isEmpty_claimsOf hclaims, replay_eq, h, hvacuous], hnot⟩
  · refine .inr ⟨?_, hads, hreads, hmissing⟩
    simp [check, isEmpty_claimsOf hclaims, replay_eq, h, hran, Verdict.passing, hads.ne']

theorem findings_check (hclaims : journals.watermarkClaims ≠ []) :
    (check journals reads).findings = deserved journals reads := by
  by_cases h : deserved journals reads = []
  · rcases check_of_clean hclaims h with ⟨reason, hcheck, -⟩ | ⟨hcheck, -⟩
    all_goals rw [hcheck, h, Verdict.findings]
  · rw [check_of_deserved hclaims h, Verdict.findings]

theorem mem_searched {read : ReadRecord} : read ∈ searched journals reads ↔ read ∈ reads ∧
    ∃ ms keys, read.concern = .complete ∧ read.outcome = .served ms keys ∧ ¬ Excused journals read.partition := by
  simp only [searched, answers, List.mem_filter, Option.isSome_iff_exists, Prod.exists, graded_eq_some, and_assoc,
    decide_eq_true_eq]
  refine and_congr_right fun _ => ⟨?_, ?_⟩
  · rintro ⟨⟨ms, keys, hconcern, houtcome⟩, hexcused⟩
    exact ⟨ms, keys, hconcern, houtcome, hexcused⟩
  · rintro ⟨ms, keys, hconcern, houtcome, hexcused⟩
    exact ⟨⟨ms, keys, hconcern, houtcome⟩, hexcused⟩

/-- A pass has no finding and has run every rule. -/
theorem check_eq_pass_iff (hclaims : journals.watermarkClaims ≠ []) {n : ℕ} :
    check journals reads = .pass n ↔ deserved journals reads = [] ∧
      (∃ x ∈ journals.watermarkClaims, advertises x.1) ∧
      (∃ read ∈ reads, ∃ ms keys, read.concern = .complete ∧ read.outcome = .served ms keys ∧
        ¬ Excused journals read.partition) ∧
      n = (journals.watermarkClaims.filter fun x => advertises x.1).length + (answers reads).length := by
  have hads : 0 < (tallyOf journals reads).advertisements ↔ ∃ x ∈ journals.watermarkClaims, advertises x.1 := by
    simp [tallyOf, List.length_pos_iff_exists_mem]
  have hsearched : 0 < (tallyOf journals reads).missingRuleReads ↔ ∃ read ∈ reads, ∃ ms keys,
      read.concern = .complete ∧ read.outcome = .served ms keys ∧ ¬ Excused journals read.partition := by
    simp only [tallyOf, List.length_pos_iff_exists_mem, mem_searched]
  have hreads : 0 < (tallyOf journals reads).missingRuleReads → 0 < (tallyOf journals reads).reads := fun h =>
    h.trans_le List.filter_sublist.length_le
  rw [← hads, ← hsearched]
  by_cases hclean : deserved journals reads = []
  · rcases check_of_clean hclaims hclean with ⟨reason, hcheck, hnot⟩ | ⟨hcheck, hran, -, hmissing⟩
    · rw [hcheck]
      refine ⟨fun h => (by cases h), fun h => absurd ⟨h.2.1, hreads h.2.2.1, h.2.2.1⟩ hnot⟩
    · rw [hcheck, Verdict.pass.injEq]
      exact ⟨fun h => ⟨hclean, hran, hmissing, h.symm⟩, fun h => h.2.2.2.symm⟩
  · rw [check_of_deserved hclaims hclean]
    exact ⟨fun h => (by cases h), fun h => absurd h.1 hclean⟩

/-! ### Merging -/

section Merged

variable {other : JournalSet}

theorem reached_merged (h : other.lines.Perm journals.lines) (p : PartitionId) (counts : JournalLine → Bool) :
    reached other p counts = reached journals p counts := by
  refine highest_congr fun ms => ?_
  have hclaims : ∀ x, x ∈ other.watermarkClaims ↔ x ∈ journals.watermarkClaims := fun x => (h.filterMap _).mem_iff
  simp only [mem_coverageValues, hclaims]

theorem unbacked_merged (h : other.lines.Perm journals.lines) : unbacked other = unbacked journals := by
  funext x
  simp only [unbacked, reached_merged h]

theorem excused_merged (h : other.lines.Perm journals.lines) (p : PartitionId) : Excused other p ↔ Excused journals p := by
  simp only [Excused, h.mem_iff]

theorem ofAnswer_merged (h : other.lines.Perm journals.lines) (read : ReadRecord) :
    (ofAnswer other read).Perm (ofAnswer journals read) := by
  rcases hgraded : graded read with _ | ⟨ms, keys⟩
  · simp [ofAnswer, hgraded]
  · have hunproven : unproven other read ms = unproven journals read ms := by
      simp only [unproven, reached_merged h]
    have hmissing : (missing other read ms keys).Perm (missing journals read ms keys) := (h.filterMap _).filterMap _
    simp only [ofAnswer, hgraded, hunproven, excused_merged h]
    split_ifs
    · exact .refl _
    · exact hmissing.append_left _

/-- What a run deserves does not depend on how its journals are merged. -/
theorem deserved_merged (h : other.lines.Perm journals.lines) (reads : List ReadRecord) :
    (deserved other reads).Perm (deserved journals reads) := by
  rw [deserved, deserved, unbacked_merged h]
  exact (((h.filterMap _).filter _).filterMap _).append (List.Perm.flatMap_left reads fun read _ => ofAnswer_merged h read)

theorem tallyOf_merged (h : other.lines.Perm journals.lines) (reads : List ReadRecord) :
    tallyOf other reads = tallyOf journals reads := by
  have hads := ((h.filterMap fun line => line.watermark.map (line, ·)).filter fun x => advertises x.1).length_eq
  simp only [tallyOf, searched, excused_merged h]
  rw [JournalSet.watermarkClaims, hads, JournalSet.watermarkClaims]

theorem check_merged (hclaims : journals.watermarkClaims ≠ []) (h : other.lines.Perm journals.lines) (reads : List ReadRecord) :
    (check other reads).Agree (check journals reads) := by
  have hother : other.watermarkClaims ≠ [] := fun hnil => by
    have hperm : other.watermarkClaims.Perm journals.watermarkClaims := h.filterMap _
    exact hclaims (List.nil_perm.mp (hnil ▸ hperm))
  have hdeserved := deserved_merged h reads
  by_cases hclean : deserved journals reads = []
  · have hclean' : deserved other reads = [] := List.perm_nil.mp (hclean ▸ hdeserved)
    have hfirst := check_of_clean hother hclean'
    rw [tallyOf_merged h] at hfirst
    rcases check_of_clean hclaims hclean with ⟨reason, hcheck, hnot⟩ | ⟨hcheck, hran⟩
    · rcases hfirst with ⟨reason', hcheck', -⟩ | ⟨-, hran⟩
      · rw [hcheck, hcheck']
        exact .noVerdict reason' reason
      · exact absurd hran hnot
    · rcases hfirst with ⟨-, -, hnot⟩ | ⟨hcheck', -⟩
      · exact absurd hran hnot
      · rw [hcheck, hcheck']
        exact .pass _
  · have hfound : deserved other reads ≠ [] := fun hnil => hclean (List.nil_perm.mp (hnil ▸ hdeserved))
    rw [check_of_deserved hclaims hclean, check_of_deserved hother hfound]
    exact .violation hdeserved

end Merged

theorem mem_missing {read : ReadRecord} {ms : ℤ} {keys : Finset String} {f : Finding} :
    f ∈ missing journals read ms keys ↔ ∃ x ∈ journals.identityEvents .clientAck, Owes x read ms ∧
      ¬ recordKeys x.2 ⊆ keys ∧
        f = .missingUnderWatermark read.partition ms x.2.requestId x.2.tenant (recordKeys x.2 \ keys) := by
  simp only [missing, List.mem_filterMap, Option.ite_none_right_eq_some, Option.some.injEq, and_assoc, eq_comm (a := f)]

theorem mem_ofAnswer {read : ReadRecord} {f : Finding} : f ∈ ofAnswer journals read ↔
    ∃ ms keys, read.concern = .complete ∧ read.outcome = .served ms keys ∧
      (reached journals read.partition (fun _ => true) < ms ∧
          f = .unprovenCoverage read.partition ms (reached journals read.partition fun _ => true) ∨
        ¬ Excused journals read.partition ∧ f ∈ missing journals read ms keys) := by
  constructor
  · intro hf
    rcases hgraded : graded read with _ | ⟨ms, keys⟩
    · simp [ofAnswer, hgraded] at hf
    · obtain ⟨hconcern, houtcome⟩ := graded_eq_some.mp hgraded
      refine ⟨ms, keys, hconcern, houtcome, ?_⟩
      simp only [ofAnswer, hgraded, unproven, List.mem_append] at hf
      refine hf.imp (fun h => ?_) fun h => ?_
      · split_ifs at h with hlt
        · exact ⟨hlt, List.mem_singleton.mp h⟩
        · cases h
      · split_ifs at h with hexcused
        · cases h
        · exact ⟨hexcused, h⟩
  · rintro ⟨ms, keys, hconcern, houtcome, h⟩
    simp only [ofAnswer, graded_eq_some.mpr ⟨hconcern, houtcome⟩, unproven, List.mem_append]
    refine h.imp (fun h => ?_) fun h => ?_
    · rw [if_pos h.1]
      exact List.mem_singleton.mpr h.2
    · rw [if_neg h.1]
      exact h.2

theorem mem_deserved {f : Finding} : f ∈ deserved journals reads ↔
    (∃ x ∈ journals.watermarkClaims, advertises x.1 ∧
      reached journals x.2.partition (fun line => line.node ≠ x.1.node ∨ line.seq < x.1.seq) < x.2.completeThroughMs ∧
      f = .unbackedAdvertisement x.1.node x.2.partition x.2.completeThroughMs
        (reached journals x.2.partition fun line => line.node ≠ x.1.node ∨ line.seq < x.1.seq)) ∨
    ∃ read ∈ reads, f ∈ ofAnswer journals read := by
  simp only [deserved, List.mem_append, List.mem_filterMap, List.mem_filter, List.mem_flatMap, unbacked,
    Option.ite_none_right_eq_some, Option.some.injEq, and_assoc, eq_comm (a := f)]

end Law

/-- **Watermark honesty is exact.** The findings are, each once in the order of the evidence, the advertisements above
    what other nodes ever and their own node before them had established, the answers above what any node established,
    and the acked batches an answer owed and did not have whole. A pass has seen an advertisement and an answer whose
    records were looked for; and how the nodes' journals are merged changes neither the verdict nor, up to their order,
    the findings. -/
theorem watermark_honesty_exact (journals : JournalSet) (reads : List ReadRecord)
    (hclaims : journals.watermarkClaims ≠ []) :
    (∀ p counts, IsGreatest {ms | ms = 0 ∨ ∃ x ∈ journals.watermarkClaims, x.1.event ∈ coverageSources ∧
      x.2.partition = p ∧ counts x.1 ∧ x.2.completeThroughMs = ms} (reached journals p counts)) ∧
    (check journals reads).findings = deserved journals reads ∧
    (∀ f, f ∈ (check journals reads).findings ↔
      (∃ x ∈ journals.watermarkClaims, advertises x.1 ∧
        reached journals x.2.partition (fun line => line.node ≠ x.1.node ∨ line.seq < x.1.seq) < x.2.completeThroughMs ∧
        f = .unbackedAdvertisement x.1.node x.2.partition x.2.completeThroughMs
          (reached journals x.2.partition fun line => line.node ≠ x.1.node ∨ line.seq < x.1.seq)) ∨
      ∃ read ∈ reads, ∃ ms keys, read.concern = .complete ∧ read.outcome = .served ms keys ∧
        (reached journals read.partition (fun _ => true) < ms ∧
            f = .unprovenCoverage read.partition ms (reached journals read.partition fun _ => true) ∨
          ¬ Excused journals read.partition ∧ ∃ x ∈ journals.identityEvents .clientAck, Owes x read ms ∧
            ¬ recordKeys x.2 ⊆ keys ∧
            f = .missingUnderWatermark read.partition ms x.2.requestId x.2.tenant (recordKeys x.2 \ keys))) ∧
    ((∃ fs, check journals reads = .violation fs) ↔ (check journals reads).findings ≠ []) ∧
    (∀ n, check journals reads = .pass n ↔ deserved journals reads = [] ∧
      (∃ x ∈ journals.watermarkClaims, advertises x.1) ∧
      (∃ read ∈ reads, ∃ ms keys, read.concern = .complete ∧ read.outcome = .served ms keys ∧
        ¬ Excused journals read.partition) ∧
      n = (journals.watermarkClaims.filter fun x => advertises x.1).length + (answers reads).length) ∧
    ∀ other : JournalSet, other.lines.Perm journals.lines → (check other reads).Agree (check journals reads) := by
  refine ⟨fun p counts => ?_, findings_check hclaims, fun f => ?_, ?_, fun n => check_eq_pass_iff hclaims,
    fun other h => check_merged hclaims h reads⟩
  · have hgreatest := highest_isGreatest initialWatermarkMs (coverageValues journals p counts)
    simp only [mem_coverageValues] at hgreatest
    exact hgreatest
  · rw [findings_check hclaims, mem_deserved]
    simp only [mem_ofAnswer, mem_missing]
  · rw [findings_check hclaims]
    constructor
    · rintro ⟨fs, hfs⟩ hnil
      rcases check_of_clean hclaims hnil with ⟨reason, hcheck, -⟩ | ⟨hcheck, -⟩
      all_goals
        rw [hfs] at hcheck
        cases hcheck
    · exact fun hfound => ⟨_, check_of_deserved hclaims hfound⟩

/-- A node advertises what it commits only afterwards, and acks a record a later answer leaves out. -/
def lateCommit : JournalSet where
  lines := [
    { node := ⟨"n1"⟩, seq := 0, event := .claimAdvertise, watermark := some ⟨⟨"acme.0"⟩, 5000⟩ },
    { node := ⟨"n1"⟩, seq := 1, event := .lakeCommitOk, watermark := some ⟨⟨"acme.0"⟩, 5000⟩ },
    { node := ⟨"loadgen-0"⟩, seq := 0, event := .clientAck, watermark := some ⟨⟨"acme.0"⟩, 1000⟩,
      identity := some ⟨"req-1", "acme", 1, 7, "loadgen-0-1000", some ⟨"acme.0"⟩, some 1500, by decide⟩ }]

/-- An empty answer at 2000. -/
def emptyAnswer : ReadRecord := ⟨"acme", ⟨"acme.0"⟩, .complete, .served 2000 ∅, none⟩

theorem watermark_honesty_exact_lateCommit :
    (check lateCommit [emptyAnswer]).findings =
      [.unbackedAdvertisement ⟨"n1"⟩ ⟨"acme.0"⟩ 5000 0,
        .missingUnderWatermark ⟨"acme.0"⟩ 2000 "req-1" "acme" {"loadgen-0-1000-7"}] ∧
    (check ⟨lateCommit.lines.reverse⟩ [emptyAnswer]).Agree (check lateCommit [emptyAnswer]) := by
  obtain ⟨-, hfindings, -, -, -, hmerged⟩ := watermark_honesty_exact lateCommit [emptyAnswer] (by decide)
  exact ⟨hfindings.trans (by decide +kernel), hmerged _ (List.reverse_perm _)⟩

end WatermarkHonesty

end Duckspout
