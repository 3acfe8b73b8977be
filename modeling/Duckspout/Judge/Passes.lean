import Duckspout.Judge.CacheTransparency
import Duckspout.Judge.Retention
import Duckspout.Judge.WatermarkHonesty

/-! What a pass says (the predicates of `duckspout-judge/src/predicates/`): for each predicate the facts of the evidence
    under which it passes, and no others. Every pass has seen something to judge, and found nothing against it.

    Retention is judged next to the latest view: where that passes, no row has lost its last value, so what is left is
    that the expiries were covered and that one of them held a row's winner. -/

namespace Duckspout

theorem Verdict.noVerdict_ne_pass {F : Type} (reason : String) : ¬ ∃ checked, (.noVerdict reason : Verdict F) = .pass checked := by
  simp

theorem Verdict.violation_ne_pass {F : Type} (fs : List F) : ¬ ∃ checked, Verdict.violation fs = .pass checked := by
  simp

/-! ### Watermark honesty -/

/-- A node has advertised and a complete answer was searched for its records; every advertisement is backed, every complete
    answer is of coverage some node reached, and it has what it owes where no loss excuses it. -/
structure WatermarkHonesty.Passes (journals : JournalSet) (reads : List ReadRecord) : Prop where
  advertised : ∃ x ∈ journals.watermarkClaims, advertises x.1
  searched : ∃ read ∈ reads, ∃ ms keys, read.concern = .complete ∧ read.outcome = .served ms keys ∧
    ¬ Excused journals read.partition
  backed : ∀ x ∈ journals.watermarkClaims, advertises x.1 → x.2.completeThroughMs ≤
    reached journals x.2.partition fun line => line.node ≠ x.1.node ∨ line.seq < x.1.seq
  proven : ∀ read ∈ reads, ∀ ms keys, read.concern = .complete → read.outcome = .served ms keys →
    ms ≤ reached journals read.partition fun _ => true
  whole : ∀ read ∈ reads, ∀ ms keys, read.concern = .complete → read.outcome = .served ms keys →
    ¬ Excused journals read.partition → ∀ x ∈ journals.identityEvents .clientAck, Owes x read ms → recordKeys x.2 ⊆ keys

namespace WatermarkHonesty

variable {journals : JournalSet} {reads : List ReadRecord}

/-- A run deserves nothing where every rule holds. -/
theorem deserved_eq_nil : deserved journals reads = [] ↔
    (∀ x ∈ journals.watermarkClaims, advertises x.1 → x.2.completeThroughMs ≤
      reached journals x.2.partition fun line => line.node ≠ x.1.node ∨ line.seq < x.1.seq) ∧
    ∀ read ∈ reads, ∀ ms keys, read.concern = .complete → read.outcome = .served ms keys →
      ms ≤ (reached journals read.partition fun _ => true) ∧ (¬ Excused journals read.partition →
        ∀ x ∈ journals.identityEvents .clientAck, Owes x read ms → recordKeys x.2 ⊆ keys) := by
  rw [List.eq_nil_iff_forall_not_mem]
  constructor
  · intro hnone
    refine ⟨fun x hx hads => ?_, fun read hread ms keys hconcern houtcome => ⟨?_, fun hexcused x hx howes => ?_⟩⟩
    · by_contra hlt
      exact hnone _ (mem_deserved.mpr (.inl ⟨x, hx, hads, not_le.mp hlt, rfl⟩))
    · by_contra hlt
      exact hnone _ (mem_deserved.mpr (.inr ⟨read, hread, mem_ofAnswer.mpr ⟨ms, keys, hconcern, houtcome,
        .inl ⟨not_le.mp hlt, rfl⟩⟩⟩))
    · by_contra hmissing
      exact hnone _ (mem_deserved.mpr (.inr ⟨read, hread, mem_ofAnswer.mpr ⟨ms, keys, hconcern, houtcome,
        .inr ⟨hexcused, mem_missing.mpr ⟨x, hx, howes, hmissing, rfl⟩⟩⟩⟩))
  · rintro ⟨hbacked, hanswers⟩ f hf
    rcases mem_deserved.mp hf with ⟨x, hx, hads, hlt, -⟩ | ⟨read, hread, hf⟩
    · exact absurd (hbacked x hx hads) (not_le.mpr hlt)
    · obtain ⟨ms, keys, hconcern, houtcome, hfound⟩ := mem_ofAnswer.mp hf
      obtain ⟨hproven, hwhole⟩ := hanswers read hread ms keys hconcern houtcome
      rcases hfound with ⟨hlt, -⟩ | ⟨hexcused, hmissing⟩
      · exact absurd hproven (not_le.mpr hlt)
      · obtain ⟨x, hx, howes, hnot, -⟩ := mem_missing.mp hmissing
        exact hnot (hwhole hexcused x hx howes)

theorem passes_iff : (∃ checked, check journals reads = .pass checked) ↔ Passes journals reads := by
  by_cases hclaims : journals.watermarkClaims = []
  · refine iff_of_false (by simp [check, claimsOf, hclaims]) fun h => ?_
    obtain ⟨x, hx, -⟩ := h.advertised
    rw [hclaims] at hx
    cases hx
  · simp only [check_eq_pass_iff hclaims, deserved_eq_nil]
    constructor
    · rintro ⟨-, ⟨hbacked, hanswers⟩, hadvertised, hsearched, -⟩
      exact ⟨hadvertised, hsearched, hbacked, fun read hread ms keys hc ho => (hanswers read hread ms keys hc ho).1,
        fun read hread ms keys hc ho => (hanswers read hread ms keys hc ho).2⟩
    · intro h
      exact ⟨_, ⟨h.backed, fun read hread ms keys hc ho => ⟨h.proven read hread ms keys hc ho,
        h.whole read hread ms keys hc ho⟩⟩, h.advertised, h.searched, rfl⟩

end WatermarkHonesty

/-! ### The latest view -/

/-- No two acks of a record disagree, every view of an acked dataset can be read, some acked row has no write that timed
    out, and each such row is served with the value of its winner. -/
structure LatestView.Passes (journals : JournalSet) (view : LatestView) : Prop where
  told : ¬ Conflicting (journals.changelog .clientAck)
  readable : ∀ e ∈ journals.changelog .clientAck, ∃ served, view e.dataset = .ok served
  judged : ∃ e ∈ journals.changelog .clientAck, ¬ TimedOut journals e.rowKey
  served : ∀ row w, Retention.winnerOf journals row = some w → ¬ TimedOut journals row → servedIn view row = winningValue w

namespace LatestView

variable {debug : ChangelogEntry → String} {journals : JournalSet} {view : LatestView}
  {byRecord : OrdMap RecordSlot ChangelogEntry}

theorem not_unreadable : ¬ Unreadable journals view ↔
    ∀ e ∈ journals.changelog .clientAck, ∃ served, view e.dataset = .ok served := by
  simp only [Unreadable, not_exists, not_and]
  refine forall₂_congr fun e _ => ?_
  rcases view e.dataset with err | served
  · simp
  · simp

/-- Nothing is found where every compared row is served with its winner's value. -/
theorem filterMap_found_eq_nil (h : Records byRecord (journals.changelog .clientAck)) :
    (judgedRows journals byRecord).filterMap (found view) = [] ↔ ∀ row w, Retention.winnerOf journals row = some w →
      ¬ TimedOut journals row → servedIn view row = winningValue w := by
  simp only [List.filterMap_eq_nil_iff, found, ite_eq_right_iff, reduceCtorEq, imp_false, not_not, Prod.forall,
    mem_judgedRows, Retention.winnerOf_eq h, and_imp]

theorem passes_iff : (∃ checked, check debug journals view = .pass checked) ↔ Passes journals view := by
  rcases check_cases debug journals view with ⟨⟨reason, hcheck⟩, hwhy⟩ | ⟨byRecord, hrecords, -, hviews, hcheck⟩
  · rw [hcheck]
    refine iff_of_false (Verdict.noVerdict_ne_pass reason) fun h => ?_
    rcases hwhy with hnil | hconflict | hunreadable
    · obtain ⟨e, he, -⟩ := h.judged
      rw [hnil] at he
      cases he
    · exact h.told hconflict
    · exact not_unreadable.mpr h.readable hunreadable
  · have hjudged : (∃ e ∈ journals.changelog .clientAck, ¬ TimedOut journals e.rowKey) ↔
        0 < (judgedRows journals byRecord).length := by
      rw [List.length_pos_iff, ne_eq, judgedRows_eq_nil hrecords]
      simp only [not_forall, exists_prop]
    rw [hcheck, compared]
    split_ifs with hclean
    · constructor
      · rintro ⟨checked, hpass⟩
        rw [Verdict.passing] at hpass
        split_ifs at hpass with hzero
        exact ⟨hrecords.not_conflicting, not_unreadable.mp hviews, hjudged.mpr (Nat.pos_of_ne_zero hzero),
          (filterMap_found_eq_nil hrecords).mp hclean⟩
      · exact fun h => ⟨_, Verdict.passing_of_pos (hjudged.mp h.judged) _⟩
    · exact iff_of_false (by simp) fun h => hclean ((filterMap_found_eq_nil hrecords).mpr h.served)

end LatestView

/-! ### Retention -/

/-- A guarded part was expired, each one under a snapshot of its dataset and partition that was read back and covers it; and
    an expired part held the winner of a row no write of which timed out. -/
structure Retention.Passes (journals : JournalSet) (parts : CommittedParts) : Prop where
  guards : ∃ part ∈ expiredParts journals, guarded part
  covered : ∀ part ∈ expiredParts journals, guarded part → ∃ snapshots, parts part.dataset part.partition = .ok snapshots ∧
    ∃ snapshot ∈ snapshots, coversArrival snapshot part.originCoverage
  touches : ∃ row w, winnerOf journals row = some w ∧ ¬ LatestView.TimedOut journals row ∧
    ∃ part ∈ expiredParts journals, holds row w part

namespace Retention

variable {debug : ChangelogEntry → String} {journals : JournalSet} {parts : CommittedParts} {view : LatestView}
  {byRecord : OrdMap RecordSlot ChangelogEntry}

theorem touchedRows_pos (h : Records byRecord (journals.changelog .clientAck)) :
    0 < (touchedRows journals byRecord).length ↔ ∃ row w, winnerOf journals row = some w ∧
      ¬ LatestView.TimedOut journals row ∧ ∃ part ∈ expiredParts journals, holds row w part := by
  simp only [List.length_pos_iff_exists_mem, touchedRows, List.mem_filter, OrdMap.mem_toList, touched, List.any_eq_true,
    decide_eq_true_eq, LatestView.mem_unresolvedRows, Prod.exists, winnerOf_eq h]

/-- No expiry is uncovered where each has its snapshot. -/
theorem filterMap_uncovered_eq_nil (hparts : ∀ part ∈ (expiredParts journals).filter guarded, ∃ snapshots,
    parts part.dataset part.partition = .ok snapshots) :
    ((expiredParts journals).filter guarded).filterMap (uncovered parts) = [] ↔
      ∀ part ∈ expiredParts journals, guarded part → ∃ snapshots, parts part.dataset part.partition = .ok snapshots ∧
        ∃ snapshot ∈ snapshots, coversArrival snapshot part.originCoverage := by
  rw [List.filterMap_eq_nil_iff]
  simp only [List.mem_filter, and_imp] at hparts ⊢
  refine forall₂_congr fun part hpart => forall_congr' fun hguarded => ?_
  obtain ⟨snapshots, hok⟩ := hparts part hpart hguarded
  simp [uncovered, snapshotsOf, hok]

/-- Next to a latest view that passes, no row has lost its last value. -/
theorem deserved_eq_nil (hrecords : Records byRecord (journals.changelog .clientAck)) (hview : LatestView.Passes journals view) :
    deserved journals parts view byRecord = ((expiredParts journals).filter guarded).filterMap (uncovered parts) := by
  rw [deserved, filterMap_lastValue hrecords, (LatestView.filterMap_found_eq_nil hrecords).mpr hview.served,
    List.filterMap_nil, List.append_nil]

theorem conclude_eq_pass {expiriesChecked rowsChecked : ℕ} {fs : List Finding} :
    (∃ checked, conclude expiriesChecked rowsChecked fs = .pass checked) ↔ fs = [] ∧ 0 < expiriesChecked ∧ 0 < rowsChecked := by
  rcases fs with _ | ⟨f, fs⟩
  · simp only [conclude, List.isEmpty_nil, not_true_eq_false, if_false, true_and]
    split_ifs with hexpiries hrows
    · simp [hexpiries]
    · simp [hrows]
    · refine iff_of_true ⟨_, Verdict.passing_of_pos ?_ _⟩ ⟨Nat.pos_of_ne_zero hexpiries, Nat.pos_of_ne_zero hrows⟩
      omega
  · simp [conclude]

theorem passes_iff (hview : LatestView.Passes journals view) :
    (∃ checked, check debug journals parts view = .pass checked) ↔ Passes journals parts := by
  obtain ⟨byRecord, -, hrecords⟩ : ∃ byRecord, dedupRecords (journals.changelog .clientAck) = .ok byRecord ∧
      Records byRecord (journals.changelog .clientAck) := by
    rcases dedupRecords_cases (journals.changelog .clientAck) with ⟨h, -⟩ | ⟨-, hconflict⟩
    · exact h
    · exact absurd hconflict hview.told
  have hacked : journals.changelog .clientAck ≠ [] := by
    obtain ⟨e, he, -⟩ := hview.judged
    exact List.ne_nil_of_mem he
  rcases check_cases debug parts hrecords hacked (LatestView.not_unreadable.mpr hview.readable) with
    ⟨⟨reason, hcheck⟩, hwhy⟩ | ⟨hparts, hcheck⟩
  · rw [hcheck]
    refine iff_of_false (Verdict.noVerdict_ne_pass reason) fun h => ?_
    rcases hwhy with hnil | ⟨part, hpart, err, herr⟩
    · obtain ⟨part, hpart, -⟩ := h.guards
      rw [hnil] at hpart
      cases hpart
    · obtain ⟨hmem, hguarded⟩ := List.mem_filter.mp hpart
      obtain ⟨snapshots, hok, -⟩ := h.covered part hmem hguarded
      rw [hok] at herr
      cases herr
  · rw [hcheck, conclude_eq_pass, deserved_eq_nil hrecords hview, filterMap_uncovered_eq_nil hparts, touchedRows_pos hrecords,
      List.length_pos_iff_exists_mem]
    simp only [List.mem_filter]
    constructor
    · rintro ⟨hcovered, hguards, htouches⟩
      exact ⟨hguards, hcovered, htouches⟩
    · exact fun h => ⟨h.covered, h.guards, h.touches⟩

end Retention

/-! ### Cache transparency -/

/-- A residency action was journaled; two answers to one question came from different cache states, and all answers to one
    question have the same rows. A served read raced an action where its lock question has samples enough; no such read was
    slower than both the ceiling and its bar, and none was refused between two states that were served. -/
structure CacheTransparency.Passes (journals : JournalSet) (reads : List ReadRecord) (ceilingMs : ℕ) : Prop where
  acted : 0 < journals.residencyActionCount
  compared : ∃ tenant partition query completeThroughMs, ∃ read ∈ reads, ∃ read' ∈ reads, ∃ ops keys ops' keys',
    Answers read tenant partition query completeThroughMs ops keys ∧
      Answers read' tenant partition query completeThroughMs ops' keys' ∧ ops ≠ ops'
  same : ∀ tenant partition query completeThroughMs, ∀ read ∈ reads, ∀ read' ∈ reads, ∀ ops keys ops' keys',
    Answers read tenant partition query completeThroughMs ops keys →
      Answers read' tenant partition query completeThroughMs ops' keys' → keys = keys'
  raced : ∃ read ∈ reads, ∃ probe, read.cache = some probe ∧ probe.racedResidencyAction ∧ read.outcome.isServed ∧
    minUnracedBaselineSamples ≤ (samples (probedReads reads) (lockQuestion read probe)).length
  unblocked : ∀ read ∈ reads, ∀ probe, read.cache = some probe → probe.racedResidencyAction → read.outcome.isServed →
    ∀ bar, unracedBaseline (samples (probedReads reads) (lockQuestion read probe)) = some bar →
      probe.latencyMs ≤ ceilingMs ∨ probe.latencyMs ≤ bar
  unrefused : ∀ read ∈ reads, ∀ probe, read.cache = some probe → probe.racedResidencyAction →
    read.outcome.isServed = false → ∀ before ∈ states (probedReads reads) (lockQuestion read probe),
      ∀ after ∈ states (probedReads reads) (lockQuestion read probe),
        before ≤ probe.residencyOpsBefore → after < probe.residencyOpsAfter

namespace CacheTransparency

variable {journals : JournalSet} {reads : List ReadRecord} {probed : List Probed} {ceilingMs : ℕ} {x : Probed}

theorem equivalence_pos_iff : (checkEquivalence (probedReads reads)).1 ≠ 0 ↔
    ∃ tenant partition query completeThroughMs, ∃ read ∈ reads, ∃ read' ∈ reads, ∃ ops keys ops' keys',
      Answers read tenant partition query completeThroughMs ops keys ∧
        Answers read' tenant partition query completeThroughMs ops' keys' ∧ ops ≠ ops' := by
  rw [← Nat.pos_iff_ne_zero, crossState_iff]
  constructor
  · rintro ⟨⟨tenant, partition, query, ct⟩, ⟨ops, keys⟩, ⟨ops', keys'⟩, hx, hy, hne⟩
    obtain ⟨read, hread, hanswers⟩ := mem_answers.mp hx
    obtain ⟨read', hread', hanswers'⟩ := mem_answers.mp hy
    exact ⟨tenant, partition, query, ct, read, hread, read', hread', ops, keys, ops', keys', hanswers, hanswers', hne⟩
  · rintro ⟨tenant, partition, query, ct, read, hread, read', hread', ops, keys, ops', keys', hanswers, hanswers', hne⟩
    exact ⟨_, (ops, keys), (ops', keys'), mem_answers.mpr ⟨read, hread, hanswers⟩,
      mem_answers.mpr ⟨read', hread', hanswers'⟩, hne⟩

theorem equivalence_eq_nil : (checkEquivalence (probedReads reads)).2 = [] ↔
    ∀ tenant partition query completeThroughMs, ∀ read ∈ reads, ∀ read' ∈ reads, ∀ ops keys ops' keys',
      Answers read tenant partition query completeThroughMs ops keys →
        Answers read' tenant partition query completeThroughMs ops' keys' → keys = keys' := by
  rw [List.eq_nil_iff_forall_not_mem]
  constructor
  · intro hnone tenant partition query ct read hread read' hread' ops keys ops' keys' hanswers hanswers'
    by_contra hne
    obtain ⟨f, hf, -⟩ := differs_iff.mpr ⟨(ops, keys), (ops', keys'), mem_answers.mpr ⟨read, hread, hanswers⟩,
      mem_answers.mpr ⟨read', hread', hanswers'⟩, hne⟩
    exact hnone f hf
  · intro hsame f hf
    obtain ⟨⟨tenant, partition, query, ct⟩, hq⟩ := exists_question hf
    obtain ⟨⟨ops, keys⟩, ⟨ops', keys'⟩, hx, hy, hne⟩ := differs_iff.mp ⟨f, hf, hq⟩
    obtain ⟨read, hread, hanswers⟩ := mem_answers.mp hx
    obtain ⟨read', hread', hanswers'⟩ := mem_answers.mp hy
    exact hne (hsame tenant partition query ct read hread read' hread' ops keys ops' keys' hanswers hanswers')

/-- A bar is there where the samples are enough. -/
theorem unracedBaseline_isSome {latencies : List ℕ} : (unracedBaseline latencies).isSome ↔
    minUnracedBaselineSamples ≤ latencies.length := by
  rw [unracedBaseline]
  split_ifs with hfew
  · exact iff_of_false (by simp) (not_le.mpr hfew)
  · have henough : 3 ≤ latencies.length := not_lt.mp hfew
    obtain ⟨bar, hbar⟩ : ∃ bar, Ranks.atRank latencies (latencies.length / 2) = some bar :=
      Ranks.atRank_eq_some (by omega)
    rw [hbar]
    exact iff_of_true rfl henough

/-- A served read is judged where it raced an action and there is a bar for it. -/
theorem verdictOn_served (hserved : x.1.outcome.isServed) : verdictOn probed ceilingMs x =
    if x.2.racedResidencyAction then (unracedBaseline (samples probed (lockQuestion x.1 x.2))).map fun bar =>
      if x.2.latencyMs > ceilingMs ∧ x.2.latencyMs > bar then
        some (.blockedRead x.2.servingNode x.1.tenant x.1.partition x.2.query x.1.concern x.2.latencyMs bar
          (samples probed (lockQuestion x.1 x.2)).length ceilingMs)
      else none
    else none := by
  rcases houtcome : x.1.outcome with ⟨ct, keys⟩ | reason
  · rcases hraced : x.2.racedResidencyAction with _ | _
    · simp [verdictOn, judgeRead, hraced]
    · simp only [verdictOn, judgeRead, hraced, houtcome, get_baselines, Option.map_map]
      rfl
  · rw [houtcome] at hserved
    cases hserved

/-- A refused read is only ever judged to be a finding. -/
theorem verdictOn_refused (hrefused : x.1.outcome.isServed = false) : verdictOn probed ceilingMs x ≠ some none ∧
    (verdictOn probed ceilingMs x = none ↔ (x.2.racedResidencyAction →
      ∀ before ∈ states probed (lockQuestion x.1 x.2), ∀ after ∈ states probed (lockQuestion x.1 x.2),
        before ≤ x.2.residencyOpsBefore → after < x.2.residencyOpsAfter)) := by
  rcases houtcome : x.1.outcome with ⟨ct, keys⟩ | reason
  · rw [houtcome] at hrefused
    cases hrefused
  · rcases hraced : x.2.racedResidencyAction with _ | _
    · simp [verdictOn, judgeRead, hraced]
    · simp only [verdictOn, judgeRead, hraced, houtcome, bind_bracketed, get_servedUnracedOps]
      simp only [List.any_eq_true, decide_eq_true_eq, not_true_eq_false, if_false]
      split_ifs with hbracket
      · obtain ⟨⟨before, hbefore, hle⟩, after, hafter, hge⟩ := hbracket
        refine ⟨by simp, iff_of_false (by simp) fun hall => ?_⟩
        exact absurd (hall trivial before hbefore after hafter hle) (not_lt.mpr hge)
      · refine ⟨by simp, iff_of_true rfl fun _ before hbefore after hafter hle => ?_⟩
        by_contra hge
        exact hbracket ⟨⟨before, hbefore, hle⟩, after, hafter, not_lt.mp hge⟩

/-- A served read is judged where it raced an action and its lock question has samples enough. -/
theorem served_judged (hserved : x.1.outcome.isServed) : verdictOn probed ceilingMs x ≠ none ↔
    x.2.racedResidencyAction ∧ minUnracedBaselineSamples ≤ (samples probed (lockQuestion x.1 x.2)).length := by
  rw [verdictOn_served hserved, ← unracedBaseline_isSome]
  split_ifs with hraced
  · simp [hraced, Option.isSome_iff_ne_none]
  · simp [hraced]

/-- It is acquitted unless it was slower than both the ceiling and its bar. -/
theorem served_acquitted (hserved : x.1.outcome.isServed) : (∀ f, verdictOn probed ceilingMs x ≠ some (some f)) ↔
    (x.2.racedResidencyAction → ∀ bar, unracedBaseline (samples probed (lockQuestion x.1 x.2)) = some bar →
      x.2.latencyMs ≤ ceilingMs ∨ x.2.latencyMs ≤ bar) := by
  rw [verdictOn_served hserved]
  split_ifs with hraced
  · rcases hbar : unracedBaseline (samples probed (lockQuestion x.1 x.2)) with _ | bar
    · simp
    · by_cases hslow : x.2.latencyMs > ceilingMs ∧ x.2.latencyMs > bar
      · simp [hraced, hslow]
      · have hfast : x.2.latencyMs ≤ ceilingMs ∨ x.2.latencyMs ≤ bar := by omega
        simp [hslow, hfast]
  · simp [hraced]

/-- A refused read is acquitted unless two served states bracket it. -/
theorem refused_acquitted (hrefused : x.1.outcome.isServed = false) : (∀ f, verdictOn probed ceilingMs x ≠ some (some f)) ↔
    (x.2.racedResidencyAction → ∀ before ∈ states probed (lockQuestion x.1 x.2),
      ∀ after ∈ states probed (lockQuestion x.1 x.2),
        before ≤ x.2.residencyOpsBefore → after < x.2.residencyOpsAfter) := by
  obtain ⟨hnever, hnone⟩ := verdictOn_refused hrefused
  rw [← hnone]
  constructor
  · intro hall
    rcases hverdict : verdictOn probed ceilingMs x with _ | _ | f
    · rfl
    · exact absurd hverdict hnever
    · exact absurd hverdict (hall f)
  · intro hverdict f
    rw [hverdict]
    exact (Option.some_ne_none _).symm

/-- The half on blocking finds nothing where it acquits every read it judges. -/
theorem lock_clean : (checkNoBlocking (probedReads reads) ceilingMs).2 = [] ↔
    ∀ x ∈ probedReads reads, ∀ f, verdictOn (probedReads reads) ceilingMs x ≠ some (some f) := by
  rw [checkNoBlocking_eq, List.filterMap_filterMap, List.filterMap_eq_nil_iff]
  refine forall₂_congr fun x _ => ?_
  rcases verdictOn (probedReads reads) ceilingMs x with _ | _ | f
  · simp
  · simp
  · simp

theorem lock_clean_iff : (checkNoBlocking (probedReads reads) ceilingMs).2 = [] ↔
    (∀ read ∈ reads, ∀ probe, read.cache = some probe → probe.racedResidencyAction → read.outcome.isServed →
      ∀ bar, unracedBaseline (samples (probedReads reads) (lockQuestion read probe)) = some bar →
        probe.latencyMs ≤ ceilingMs ∨ probe.latencyMs ≤ bar) ∧
    ∀ read ∈ reads, ∀ probe, read.cache = some probe → probe.racedResidencyAction → read.outcome.isServed = false →
      ∀ before ∈ states (probedReads reads) (lockQuestion read probe),
        ∀ after ∈ states (probedReads reads) (lockQuestion read probe),
          before ≤ probe.residencyOpsBefore → after < probe.residencyOpsAfter := by
  rw [lock_clean]
  constructor
  · intro hclean
    refine ⟨fun read hread probe hcache hraced hserved => ?_, fun read hread probe hcache hraced hrefused => ?_⟩
    · exact (served_acquitted hserved).mp (hclean (read, probe) (mem_probedReads.mpr ⟨hread, hcache⟩)) hraced
    · exact (refused_acquitted hrefused).mp (hclean (read, probe) (mem_probedReads.mpr ⟨hread, hcache⟩)) hraced
  · rintro ⟨hunblocked, hunrefused⟩ x hx
    obtain ⟨hread, hcache⟩ := mem_probedReads.mp hx
    rcases hserved : x.1.outcome.isServed with _ | _
    · exact (refused_acquitted hserved).mpr fun hraced => hunrefused x.1 hread x.2 hcache hraced hserved
    · exact (served_acquitted hserved).mpr fun hraced => hunblocked x.1 hread x.2 hcache hraced hserved

/-- Where nothing is found, the reads that were judged are served ones. -/
theorem lock_judged_iff (hclean : (checkNoBlocking (probedReads reads) ceilingMs).2 = []) :
    (checkNoBlocking (probedReads reads) ceilingMs).1 ≠ 0 ↔
      ∃ read ∈ reads, ∃ probe, read.cache = some probe ∧ probe.racedResidencyAction ∧ read.outcome.isServed ∧
        minUnracedBaselineSamples ≤ (samples (probedReads reads) (lockQuestion read probe)).length := by
  rw [checkNoBlocking_eq, ← Nat.pos_iff_ne_zero, List.length_pos_iff_exists_mem]
  simp only [List.mem_filterMap]
  constructor
  · rintro ⟨judged, x, hx, hverdict⟩
    obtain ⟨hread, hcache⟩ := mem_probedReads.mp hx
    rcases hserved : x.1.outcome.isServed with _ | _
    · rcases judged with _ | f
      · exact absurd hverdict (verdictOn_refused hserved).1
      · exact absurd hverdict (lock_clean.mp hclean x hx f)
    · have hjudged : verdictOn (probedReads reads) ceilingMs x ≠ none := by
        rw [hverdict]
        exact Option.some_ne_none _
      obtain ⟨hraced, henough⟩ := (served_judged hserved).mp hjudged
      exact ⟨x.1, hread, x.2, hcache, hraced, hserved, henough⟩
  · rintro ⟨read, hread, probe, hcache, hraced, hserved, henough⟩
    have hjudged : verdictOn (probedReads reads) ceilingMs (read, probe) ≠ none := (served_judged hserved).mpr ⟨hraced, henough⟩
    obtain ⟨judged, hverdict⟩ := Option.ne_none_iff_exists'.mp hjudged
    exact ⟨judged, (read, probe), mem_probedReads.mpr ⟨hread, hcache⟩, hverdict⟩

/-- A verdict is a pass where nothing was found and every half has something to show. -/
theorem check_eq_pass_iff : (∃ checked, check journals reads ceilingMs = .pass checked) ↔
    0 < journals.residencyActionCount ∧ (checkEquivalence (probedReads reads)).1 ≠ 0 ∧
      (checkEquivalence (probedReads reads)).2 = [] ∧ (checkNoBlocking (probedReads reads) ceilingMs).1 ≠ 0 ∧
      (checkNoBlocking (probedReads reads) ceilingMs).2 = [] := by
  by_cases hacted : 0 < journals.residencyActionCount
  · have hlock : lockHalf journals (probedReads reads) ceilingMs = checkNoBlocking (probedReads reads) ceilingMs := if_pos hacted
    have hprobed : (checkEquivalence (probedReads reads)).1 ≠ 0 → probedReads reads ≠ [] := by
      rintro hne hnil
      rw [hnil] at hne
      exact hne rfl
    have hfound : found journals reads ceilingMs = [] ↔ (checkEquivalence (probedReads reads)).2 = [] ∧
        (checkNoBlocking (probedReads reads) ceilingMs).2 = [] := by
      rw [found, hlock, List.append_eq_nil_iff]
    have hvacuous : ¬ Vacuous journals reads ceilingMs ↔ (checkEquivalence (probedReads reads)).1 ≠ 0 ∧
        (checkNoBlocking (probedReads reads) ceilingMs).1 ≠ 0 := by
      rw [Vacuous, hlock]
      have hacts : journals.residencyActionCount ≠ 0 := hacted.ne'
      tauto
    rcases check_cases journals reads ceilingMs with ⟨hsome, hcheck⟩ | ⟨hnil, ⟨hvac, reason, hcheck⟩ | ⟨hvac, n, hcheck⟩⟩
    · rw [hcheck]
      refine iff_of_false (Verdict.violation_ne_pass _) ?_
      rintro ⟨-, -, hequal, -, hclean⟩
      exact hsome (hfound.mpr ⟨hequal, hclean⟩)
    · rw [hcheck]
      refine iff_of_false (Verdict.noVerdict_ne_pass reason) ?_
      rintro ⟨-, hcompared, -, hjudged, -⟩
      exact hvacuous.mpr ⟨hcompared, hjudged⟩ hvac
    · rw [hcheck]
      obtain ⟨hequal, hclean⟩ := hfound.mp hnil
      obtain ⟨hcompared, hjudged⟩ := hvacuous.mp hvac
      exact iff_of_true ⟨n, rfl⟩ ⟨hacted, hcompared, hequal, hjudged, hclean⟩
  · refine iff_of_false ?_ fun h => hacted h.1
    rcases check_cases journals reads ceilingMs with ⟨-, hcheck⟩ | ⟨-, ⟨-, reason, hcheck⟩ | ⟨hvac, -⟩⟩
    · rw [hcheck]
      exact Verdict.violation_ne_pass _
    · rw [hcheck]
      exact Verdict.noVerdict_ne_pass reason
    · exact absurd (.inr (.inl (Nat.eq_zero_of_not_pos hacted))) hvac

theorem passes_iff : (∃ checked, check journals reads ceilingMs = .pass checked) ↔ Passes journals reads ceilingMs := by
  rw [check_eq_pass_iff, equivalence_pos_iff, equivalence_eq_nil]
  constructor
  · rintro ⟨hacted, hcompared, hsame, hjudged, hclean⟩
    obtain ⟨hunblocked, hunrefused⟩ := lock_clean_iff.mp hclean
    exact ⟨hacted, hcompared, hsame, (lock_judged_iff hclean).mp hjudged, hunblocked, hunrefused⟩
  · intro h
    have hclean : (checkNoBlocking (probedReads reads) ceilingMs).2 = [] := lock_clean_iff.mpr ⟨h.unblocked, h.unrefused⟩
    exact ⟨h.acted, h.compared, h.same, (lock_judged_iff hclean).mpr h.raced, hclean⟩

end CacheTransparency

end Duckspout
