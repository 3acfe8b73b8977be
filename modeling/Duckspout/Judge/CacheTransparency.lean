import Duckspout.Judge.Evidence
import Duckspout.Lib.Groups
import Duckspout.Lib.Ranks

/-! Cache transparency (`duckspout-judge/src/predicates/cache_transparency.rs`): a complete answer does not depend on the
    cache state that served it, and no residency action blocks a read.

    Answers are compared within a question at one pinned coverage. Reads that raced a residency action are judged within a
    lock question, which also tells nodes and concerns apart, against the reads of it that raced nothing. -/

namespace Duckspout

namespace CacheTransparency

/-! ### The predicate -/

def minUnracedBaselineSamples : ℕ := 3

inductive Finding where
  | rowSetDiffers (tenant : String) (partition : PartitionId) (query : String) (completeThroughMs : ℤ)
      (referenceOps otherOps : ℕ) (onlyInReference onlyInOther : List String)
  | blockedRead (servingNode : NodeId) (tenant : String) (partition : PartitionId) (query : String)
      (concern : ReadConcern) (latencyMs baselineMs baselineSamples ceilingMs : ℕ)
  | refusedWhileRacing (servingNode : NodeId) (tenant : String) (partition : PartitionId) (query : String)
      (concern : ReadConcern) (reason : String)
  deriving DecidableEq, Repr

/-- What answers must agree on: the tenant, the partition, the query and the coverage pinned. -/
abbrev Question := String ×ₗ PartitionId ×ₗ String ×ₗ ℤ

/-- What blocking is judged within: the serving node, the tenant, the partition, the query and the concern. -/
abbrev LockQuestion := NodeId ×ₗ String ×ₗ PartitionId ×ₗ String ×ₗ ReadConcern

abbrev Probed := ReadRecord × CacheProbe

def lockQuestion (read : ReadRecord) (probe : CacheProbe) : LockQuestion :=
  toLex (probe.servingNode, toLex (read.tenant, toLex (read.partition, toLex (probe.query, read.concern))))

/-- The upper median of the latencies, if there are enough. -/
def unracedBaseline (latencies : List ℕ) : Option ℕ :=
  if latencies.length < minUnracedBaselineSamples then none
  else Ranks.atRank latencies (latencies.length / 2)

/-- The question a read answers, with the cache state and the rows; nothing where it is not complete or was refused. -/
def answer (x : Probed) : Option (Question × ℕ × Finset String) :=
  if x.1.concern ≠ .complete then none
  else
    match x.1.outcome with
    | .served completeThroughMs recordKeys =>
      some (toLex (x.1.tenant, toLex (x.1.partition, toLex (x.2.query, completeThroughMs))), x.2.residencyOpsBefore,
        recordKeys)
    | .refused _ => none

/-- The answers to one question, each against the first: how many are of another state, and the findings. -/
def judgeAnswers (question : Question) : List (ℕ × Finset String) → ℕ × List Finding
  | [] => (0, [])
  | reference :: rest =>
    ((rest.filter (·.1 ≠ reference.1)).length, (rest.filter (·.2 ≠ reference.2)).map fun other =>
      .rowSetDiffers question.1 question.2.1 question.2.2.1 question.2.2.2 reference.1 other.1
        ((reference.2 \ other.2).sort (· ≤ ·)) ((other.2 \ reference.2).sort (· ≤ ·)))

/-- A question's answers, the lowest cache state first. -/
def judgeGroup (question : Question) (group : List (ℕ × Finset String)) : ℕ × List Finding :=
  judgeAnswers question (group.insertionSort (·.1 ≤ ·.1))

/-- The answers by question, in the order of the log. -/
def answers (probed : List Probed) : OrdMap Question (List (ℕ × Finset String)) :=
  OrdMap.groupBy (·.1) (·.2) (probed.filterMap answer)

def checkEquivalence (probed : List Probed) : ℕ × List Finding :=
  let judged := (answers probed).toList.map fun x => judgeGroup x.1 x.2
  ((judged.map (·.1)).sum, judged.flatMap (·.2))

/-- The reads that raced nothing and were served. -/
def unraced (probed : List Probed) : List Probed :=
  probed.filter fun x => ¬ x.2.racedResidencyAction ∧ x.1.outcome.isServed

/-- The bar of each lock question and how many reads it was taken over. -/
def baselines (probed : List Probed) : OrdMap LockQuestion (ℕ × ℕ) :=
  (OrdMap.groupBy (fun x : Probed => lockQuestion x.1 x.2) (·.2.latencyMs) (unraced probed)).filterMap fun _ latencies =>
    (unracedBaseline latencies).map fun median => (median, latencies.length)

/-- The cache states of the unraced reads, by lock question. -/
def servedUnracedOps (probed : List Probed) : OrdMap LockQuestion (List ℕ) :=
  OrdMap.groupBy (fun x : Probed => lockQuestion x.1 x.2) (·.2.residencyOpsBefore) (unraced probed)

/-- A read that raced a residency action, if there is evidence to judge it by. -/
def judgeRead (bars : OrdMap LockQuestion (ℕ × ℕ)) (served : OrdMap LockQuestion (List ℕ)) (ceilingMs : ℕ) (x : Probed) :
    Option (Option Finding) :=
  let (read, probe) := x
  if ¬ probe.racedResidencyAction then none
  else
    match read.outcome with
    | .served _ _ =>
      (bars[lockQuestion read probe]?).map fun bar =>
        if probe.latencyMs > ceilingMs ∧ probe.latencyMs > bar.1 then
          some (.blockedRead probe.servingNode read.tenant read.partition probe.query read.concern probe.latencyMs bar.1
            bar.2 ceilingMs)
        else none
    | .refused reason =>
      (served[lockQuestion read probe]?).bind fun ops =>
        if ops.any (· ≤ probe.residencyOpsBefore) ∧ ops.any (· ≥ probe.residencyOpsAfter) then
          some (some (.refusedWhileRacing probe.servingNode read.tenant read.partition probe.query read.concern reason))
        else none

def checkNoBlocking (probed : List Probed) (ceilingMs : ℕ) : ℕ × List Finding :=
  let judged := probed.filterMap (judgeRead (baselines probed) (servedUnracedOps probed) ceilingMs)
  (judged.length, judged.filterMap id)

def probedReads (reads : List ReadRecord) : List Probed := reads.filterMap fun read => read.cache.map (read, ·)

def check (journals : JournalSet) (reads : List ReadRecord) (maxRacingReadMs : ℕ) : Verdict Finding :=
  let probed := probedReads reads
  let residencyEvidence : Bool := journals.residencyActionCount > 0
  let equivalence := checkEquivalence probed
  let lock := if residencyEvidence then checkNoBlocking probed maxRacingReadMs else (0, [])
  let findings := equivalence.2 ++ lock.2
  if ¬ findings.isEmpty then .violation findings
  else if probed.isEmpty then
    .noVerdict ("no read in the read log carried a cache probe — without the cache state that served an answer, §2.4's " ++
      "\"any two cache states yield the identical row set\" is not a statement about anything observable here (§8.4 " ++
      "vacuity teeth). No producer writes one yet: crate::read_log's producer-status note.")
  else if ¬ residencyEvidence then
    .noVerdict ("the read probes label cache states, but no node journaled a single Demote/Evict/DropWindow line — the " ++
      "probes claim residency churn the run has no record of, which is contradictory evidence, not a certifiable run " ++
      "(§8.4)")
  else if equivalence.1 = 0 then
    .noVerdict ("no question was answered at two different cache states: every `complete` read this run logged either " ++
      "had no comparable sibling or was served at the one same residency count. §2.4's theorem quantifies over TWO cache " ++
      "states, so this run compared none and certifies nothing about read-answer equivalence (§8.4 vacuity teeth)")
  else if lock.1 = 0 then
    .noVerdict ("no read that raced a residency action had enough unraced reads of the same lock question — same serving " ++
      "node, same concern — to be judged against, so obligation (c) — no Evict-held lock ever blocks a read — went " ++
      "unexercised. A run that never made a read and an eviction overlap on one node cannot certify that they do not " ++
      "interfere (§8.4 vacuity teeth)")
  else .passing (equivalence.1 + lock.1) "nothing was checked"

/-! ### Answers -/

/-- The question a row-set finding is about. -/
def Finding.question : Finding → Option Question
  | rowSetDiffers tenant partition query completeThroughMs .. =>
    some (toLex (tenant, toLex (partition, toLex (query, completeThroughMs))))
  | blockedRead .. => none
  | refusedWhileRacing .. => none

section Answers

variable {probed : List Probed} {q : Question}

/-- Elements that differ are two of which one differs from the first. -/
theorem exists_ne_head_iff {α β : Type} (f : α → β) (a : α) (l : List α) :
    (∃ y ∈ l, f y ≠ f a) ↔ ∃ x ∈ a :: l, ∃ y ∈ a :: l, f x ≠ f y := by
  constructor
  · rintro ⟨y, hy, hne⟩
    exact ⟨y, List.mem_cons_of_mem a hy, a, List.mem_cons_self, hne⟩
  · rintro ⟨x, hx, y, hy, hne⟩
    by_contra hall
    have hhead : ∀ z ∈ a :: l, f z = f a := by
      intro z hz
      rcases List.mem_cons.mp hz with rfl | hz
      · rfl
      · by_contra hz'
        exact hall ⟨z, hz, hz'⟩
    exact hne ((hhead x hx).trans (hhead y hy).symm)

/-- It does not matter which answer comes first: there is a finding where two have different rows, and a check where two
    are of different states. -/
theorem judgeAnswers_spec (q : Question) (group : List (ℕ × Finset String)) :
    ((∃ f, f ∈ (judgeAnswers q group).2) ↔ ∃ x ∈ group, ∃ y ∈ group, x.2 ≠ y.2) ∧
    (0 < (judgeAnswers q group).1 ↔ ∃ x ∈ group, ∃ y ∈ group, x.1 ≠ y.1) ∧
    ∀ f ∈ (judgeAnswers q group).2, f.question = some q := by
  rcases group with _ | ⟨reference, rest⟩
  · simp [judgeAnswers]
  · rw [← exists_ne_head_iff Prod.snd, ← exists_ne_head_iff Prod.fst]
    refine ⟨?_, ?_, fun f hf => ?_⟩
    · simp [judgeAnswers]
    · simp [judgeAnswers, List.length_pos_iff_exists_mem]
    · obtain ⟨other, -, rfl⟩ := List.mem_map.mp hf
      rfl

theorem judgeGroup_spec (q : Question) (group : List (ℕ × Finset String)) :
    ((∃ f, f ∈ (judgeGroup q group).2) ↔ ∃ x ∈ group, ∃ y ∈ group, x.2 ≠ y.2) ∧
    (0 < (judgeGroup q group).1 ↔ ∃ x ∈ group, ∃ y ∈ group, x.1 ≠ y.1) ∧
    ∀ f ∈ (judgeGroup q group).2, f.question = some q := by
  simpa only [judgeGroup, List.mem_insertionSort] using judgeAnswers_spec q (group.insertionSort (·.1 ≤ ·.1))

theorem mem_group {group : List (ℕ × Finset String)} (h : (answers probed)[q]? = some group) (a : ℕ × Finset String) :
    a ∈ group ↔ (q, a) ∈ probed.filterMap answer := by
  rw [OrdMap.mem_of_get_groupBy h]
  constructor
  · rintro ⟨x, hx, rfl, rfl⟩
    exact hx
  · exact fun hx => ⟨(q, a), hx, rfl, rfl⟩

/-- Two answers to a question are in its group. -/
theorem exists_group_iff (P : ℕ × Finset String → ℕ × Finset String → Prop) :
    (∃ group, (answers probed)[q]? = some group ∧ ∃ x ∈ group, ∃ y ∈ group, P x y) ↔
      ∃ x y, (q, x) ∈ probed.filterMap answer ∧ (q, y) ∈ probed.filterMap answer ∧ P x y := by
  constructor
  · rintro ⟨group, hget, x, hx, y, hy, hP⟩
    exact ⟨x, y, (mem_group hget x).mp hx, (mem_group hget y).mp hy, hP⟩
  · rintro ⟨x, y, hx, hy, hP⟩
    have hsome : (answers probed)[q]?.isSome := (OrdMap.isSome_groupBy ..).mpr ⟨(q, x), hx, rfl⟩
    obtain ⟨group, hget⟩ := Option.isSome_iff_exists.mp hsome
    exact ⟨group, hget, x, (mem_group hget x).mpr hx, y, (mem_group hget y).mpr hy, hP⟩

theorem mem_judgedGroups {judged : ℕ × List Finding} :
    judged ∈ (answers probed).toList.map (fun x => judgeGroup x.1 x.2) ↔
      ∃ q group, (answers probed)[q]? = some group ∧ judgeGroup q group = judged := by
  simp only [List.mem_map, Prod.exists, OrdMap.mem_toList]

theorem mem_equivalence {f : Finding} : f ∈ (checkEquivalence probed).2 ↔
    ∃ q group, (answers probed)[q]? = some group ∧ f ∈ (judgeGroup q group).2 := by
  simp only [checkEquivalence, List.mem_flatMap, mem_judgedGroups]
  constructor
  · rintro ⟨_, ⟨q, group, hget, rfl⟩, hf⟩
    exact ⟨q, group, hget, hf⟩
  · rintro ⟨q, group, hget, hf⟩
    exact ⟨_, ⟨q, group, hget, rfl⟩, hf⟩

theorem equivalence_pos : 0 < (checkEquivalence probed).1 ↔
    ∃ q group, (answers probed)[q]? = some group ∧ 0 < (judgeGroup q group).1 := by
  rw [checkEquivalence, List.sum_pos_iff_exists_pos_nat]
  constructor
  · rintro ⟨n, hn, hpos⟩
    obtain ⟨judged, hjudged, rfl⟩ := List.mem_map.mp hn
    obtain ⟨q, group, hget, rfl⟩ := mem_judgedGroups.mp hjudged
    exact ⟨q, group, hget, hpos⟩
  · rintro ⟨q, group, hget, hpos⟩
    exact ⟨_, List.mem_map_of_mem (mem_judgedGroups.mpr ⟨q, group, hget, rfl⟩), hpos⟩

/-- A question has a finding where two of its answers have different rows. -/
theorem differs_iff : (∃ f ∈ (checkEquivalence probed).2, f.question = some q) ↔
    ∃ x y, (q, x) ∈ probed.filterMap answer ∧ (q, y) ∈ probed.filterMap answer ∧ x.2 ≠ y.2 := by
  rw [← exists_group_iff fun x y => x.2 ≠ y.2]
  constructor
  · rintro ⟨f, hf, hq⟩
    obtain ⟨q', group, hget, hf⟩ := mem_equivalence.mp hf
    obtain ⟨hdiffer, -, hquestion⟩ := judgeGroup_spec q' group
    rw [hquestion f hf, Option.some.injEq] at hq
    subst hq
    exact ⟨group, hget, hdiffer.mp ⟨f, hf⟩⟩
  · rintro ⟨group, hget, hpair⟩
    obtain ⟨hdiffer, -, hquestion⟩ := judgeGroup_spec q group
    obtain ⟨f, hf⟩ := hdiffer.mpr hpair
    exact ⟨f, mem_equivalence.mpr ⟨q, group, hget, hf⟩, hquestion f hf⟩

theorem exists_question {f : Finding} (h : f ∈ (checkEquivalence probed).2) : ∃ q, f.question = some q := by
  obtain ⟨q, group, -, hf⟩ := mem_equivalence.mp h
  exact ⟨q, (judgeGroup_spec q group).2.2 f hf⟩

/-- A check has been made where two answers to a question are of different states. -/
theorem crossState_iff : 0 < (checkEquivalence probed).1 ↔
    ∃ q x y, (q, x) ∈ probed.filterMap answer ∧ (q, y) ∈ probed.filterMap answer ∧ x.1 ≠ y.1 := by
  rw [equivalence_pos]
  refine exists_congr fun q => ?_
  rw [← exists_group_iff fun x y => x.1 ≠ y.1]
  exact exists_congr fun group => and_congr_right fun _ => (judgeGroup_spec q group).2.1

end Answers

/-! ### Blocking -/

/-- The lock question a finding on blocking is about. -/
def Finding.lockQuestion : Finding → Option LockQuestion
  | rowSetDiffers .. => none
  | blockedRead servingNode tenant partition query concern .. =>
    some (toLex (servingNode, toLex (tenant, toLex (partition, toLex (query, concern)))))
  | refusedWhileRacing servingNode tenant partition query concern _ =>
    some (toLex (servingNode, toLex (tenant, toLex (partition, toLex (query, concern)))))

section Blocking

variable {probed probed' : List Probed} {q : LockQuestion} {ceilingMs : ℕ}

/-- The reads of a lock question. -/
def ofQuestion (q : LockQuestion) (probed : List Probed) : List Probed := probed.filter fun x => lockQuestion x.1 x.2 = q

/-- The latencies a bar is taken over. -/
def samples (probed : List Probed) (q : LockQuestion) : List ℕ := (ofQuestion q (unraced probed)).map (·.2.latencyMs)

/-- The cache states a bracket is closed by. -/
def states (probed : List Probed) (q : LockQuestion) : List ℕ := (ofQuestion q (unraced probed)).map (·.2.residencyOpsBefore)

theorem get_baselines (probed : List Probed) (q : LockQuestion) : (baselines probed)[q]? =
    (unracedBaseline (samples probed q)).map fun median => (median, (samples probed q).length) := by
  have hget : (OrdMap.groupBy (fun x : Probed => lockQuestion x.1 x.2) (·.2.latencyMs) (unraced probed))[q]?.getD [] =
      samples probed q := OrdMap.getD_groupBy ..
  rw [baselines, Std.ExtTreeMap.getElem?_filterMap', ← hget]
  rcases (OrdMap.groupBy (fun x : Probed => lockQuestion x.1 x.2) (·.2.latencyMs) (unraced probed))[q]? with _ | latencies
  · rfl
  · rfl

theorem get_servedUnracedOps (probed : List Probed) (q : LockQuestion) :
    (servedUnracedOps probed)[q]?.getD [] = states probed q := OrdMap.getD_groupBy ..

/-- A bracket that no state closes is none. -/
theorem bind_bracketed (o : Option (List ℕ)) (below above : ℕ → Bool) (found : Option (Option Finding)) :
    (o.bind fun ops => if ops.any below ∧ ops.any above then found else none) =
      if (o.getD []).any below ∧ (o.getD []).any above then found else none := by
  rcases o with _ | ops
  · simp
  · rfl

/-- What is judged of a read, if anything. -/
def verdictOn (probed : List Probed) (ceilingMs : ℕ) (x : Probed) : Option (Option Finding) :=
  judgeRead (baselines probed) (servedUnracedOps probed) ceilingMs x

/-- A read is judged by the bar and the states of its own question. -/
theorem verdictOn_congr {x : Probed}
    (hbar : (baselines probed)[lockQuestion x.1 x.2]? = (baselines probed')[lockQuestion x.1 x.2]?)
    (hstates : ∀ n, n ∈ states probed (lockQuestion x.1 x.2) ↔ n ∈ states probed' (lockQuestion x.1 x.2)) :
    verdictOn probed ceilingMs x = verdictOn probed' ceilingMs x := by
  have hany : ∀ test : ℕ → Bool, (states probed (lockQuestion x.1 x.2)).any test =
      (states probed' (lockQuestion x.1 x.2)).any test := by
    intro test
    rw [Bool.eq_iff_iff, List.any_eq_true, List.any_eq_true]
    simp only [hstates]
  simp only [verdictOn, judgeRead]
  split_ifs with hraced
  · rcases x.1.outcome with _ | reason
    · simp only [hbar]
    · simp only [bind_bracketed, get_servedUnracedOps, hany]
  · rfl

theorem lockQuestion_of_verdictOn {x : Probed} {f : Finding} (h : verdictOn probed ceilingMs x = some (some f)) :
    f.lockQuestion = some (lockQuestion x.1 x.2) := by
  simp only [verdictOn, judgeRead] at h
  split_ifs at h with hraced
  rcases houtcome : x.1.outcome with _ | reason
  · rw [houtcome] at h
    obtain ⟨bar, -, hbar⟩ := Option.map_eq_some_iff.mp h
    split_ifs at hbar
    cases hbar
    rfl
  · rw [houtcome] at h
    obtain ⟨ops, -, hops⟩ := Option.bind_eq_some_iff.mp h
    split_ifs at hops
    cases hops
    rfl

theorem checkNoBlocking_eq (probed : List Probed) (ceilingMs : ℕ) : checkNoBlocking probed ceilingMs =
    ((probed.filterMap (verdictOn probed ceilingMs)).length, (probed.filterMap (verdictOn probed ceilingMs)).filterMap id) :=
  rfl

/-! #### Isolation -/

theorem ofQuestion_unraced (q : LockQuestion) (probed : List Probed) :
    ofQuestion q (unraced probed) = unraced (ofQuestion q probed) := by
  rw [ofQuestion, unraced, unraced, ofQuestion, List.filter_filter, List.filter_filter]
  simp only [Bool.and_comm]

/-- The findings about a question are those on its reads. -/
theorem filter_checkNoBlocking (q : LockQuestion) (probed : List Probed) (ceilingMs : ℕ) :
    (checkNoBlocking probed ceilingMs).2.filter (·.lockQuestion = some q) =
      (ofQuestion q probed).filterMap fun x => (verdictOn probed ceilingMs x).join := by
  rw [checkNoBlocking_eq, List.filterMap_filterMap, List.filter_filterMap, ofQuestion, List.filterMap_filter]
  refine List.filterMap_congr fun x _ => ?_
  rcases hverdict : verdictOn probed ceilingMs x with _ | _ | f
  · simp
  · simp
  · by_cases hq : lockQuestion x.1 x.2 = q
    · simp [lockQuestion_of_verdictOn hverdict, hq]
    · simp [lockQuestion_of_verdictOn hverdict, hq]

/-- The findings about a question do not change with the reads of others. -/
theorem filter_checkNoBlocking_congr (h : ofQuestion q probed = ofQuestion q probed') :
    (checkNoBlocking probed ceilingMs).2.filter (·.lockQuestion = some q) =
      (checkNoBlocking probed' ceilingMs).2.filter (·.lockQuestion = some q) := by
  have hunraced : ofQuestion q (unraced probed) = ofQuestion q (unraced probed') := by
    rw [ofQuestion_unraced, h, ofQuestion_unraced]
  rw [filter_checkNoBlocking, filter_checkNoBlocking, ← h]
  refine List.filterMap_congr fun x hx => ?_
  have hq : lockQuestion x.1 x.2 = q := of_decide_eq_true (List.mem_filter.mp hx).2
  refine congrArg Option.join (verdictOn_congr ?_ ?_)
  · rw [get_baselines, get_baselines, hq, samples, hunraced, samples]
  · intro n
    rw [hq, states, hunraced, states]

/-! #### The bar -/

theorem unracedBaseline_perm {l l' : List ℕ} (h : l.Perm l') : unracedBaseline l = unracedBaseline l' := by
  rw [unracedBaseline, unracedBaseline, h.length_eq, Ranks.atRank_perm h]

/-- One sample, whatever it is, cannot push the bar out of the range of the others: with three samples or more the upper
    median has one at least below it and one at least above. -/
theorem unracedBaseline_between (changed : ℕ) {others : List ℕ}
    (h : minUnracedBaselineSamples ≤ (changed :: others).length) : ∃ bar, unracedBaseline (changed :: others) = some bar ∧
      (∃ a ∈ others, a ≤ bar) ∧ ∃ b ∈ others, bar ≤ b := by
  have hlength : 3 ≤ others.length + 1 := h
  obtain ⟨bar, hbar⟩ : ∃ bar, Ranks.atRank (changed :: others) ((changed :: others).length / 2) = some bar :=
    Ranks.atRank_eq_some (by rw [List.length_cons]; omega)
  refine ⟨bar, ?_, ?_, ?_⟩
  · rw [unracedBaseline, if_neg (not_lt.mpr h), hbar]
  · exact Ranks.exists_le_of_atRank (show Ranks.atRank ([changed] ++ others) _ = some bar from hbar)
      (by simp only [List.length_cons, List.length_nil]; omega)
  · exact Ranks.exists_ge_of_atRank (show Ranks.atRank ([changed] ++ others) _ = some bar from hbar)
      (by rw [List.length_cons]; omega)

/-! #### Permutations -/

theorem samples_perm (h : probed.Perm probed') (q : LockQuestion) : (samples probed q).Perm (samples probed' q) :=
  ((h.filter _).filter _).map _

theorem states_perm (h : probed.Perm probed') (q : LockQuestion) : (states probed q).Perm (states probed' q) :=
  ((h.filter _).filter _).map _

theorem verdictOn_perm (h : probed.Perm probed') : verdictOn probed ceilingMs = verdictOn probed' ceilingMs := by
  funext x
  refine verdictOn_congr ?_ fun n => (states_perm h _).mem_iff
  have hsamples := samples_perm h (lockQuestion x.1 x.2)
  rw [get_baselines, get_baselines, unracedBaseline_perm hsamples, hsamples.length_eq]

theorem checkNoBlocking_perm (h : probed.Perm probed') : (checkNoBlocking probed ceilingMs).1 =
    (checkNoBlocking probed' ceilingMs).1 ∧ (checkNoBlocking probed ceilingMs).2.Perm (checkNoBlocking probed' ceilingMs).2 := by
  have hjudged : (probed.filterMap (verdictOn probed ceilingMs)).Perm (probed'.filterMap (verdictOn probed' ceilingMs)) := by
    rw [verdictOn_perm h]
    exact h.filterMap _
  rw [checkNoBlocking_eq, checkNoBlocking_eq]
  exact ⟨hjudged.length_eq, hjudged.filterMap id⟩

end Blocking

theorem checkEquivalence_perm {probed probed' : List Probed} (h : probed.Perm probed') :
    (0 < (checkEquivalence probed).1 ↔ 0 < (checkEquivalence probed').1) ∧
    ((∃ f, f ∈ (checkEquivalence probed).2) ↔ ∃ f, f ∈ (checkEquivalence probed').2) := by
  have hmem : ∀ x, x ∈ probed.filterMap answer ↔ x ∈ probed'.filterMap answer := fun x => (h.filterMap answer).mem_iff
  have hsome : ∀ probed : List Probed, (∃ f, f ∈ (checkEquivalence probed).2) ↔
      ∃ q, ∃ f ∈ (checkEquivalence probed).2, f.question = some q := by
    intro probed
    constructor
    · rintro ⟨f, hf⟩
      obtain ⟨q, hq⟩ := exists_question hf
      exact ⟨q, f, hf, hq⟩
    · rintro ⟨q, f, hf, -⟩
      exact ⟨f, hf⟩
  constructor
  · simp only [crossState_iff, hmem]
  · simp only [hsome, differs_iff, hmem]

/-! ### The read log -/

section Log

variable {reads : List ReadRecord} {journals : JournalSet} {ceilingMs : ℕ}

/-- A read answers a question: it is complete, was probed and was served. -/
structure Answers (read : ReadRecord) (tenant : String) (partition : PartitionId) (query : String)
    (completeThroughMs : ℤ) (ops : ℕ) (keys : Finset String) : Prop where
  concern : read.concern = .complete
  tenant : read.tenant = tenant
  partition : read.partition = partition
  outcome : read.outcome = .served completeThroughMs keys
  probe : ∃ probe, read.cache = some probe ∧ probe.query = query ∧ probe.residencyOpsBefore = ops

theorem mem_probedReads {x : Probed} : x ∈ probedReads reads ↔ x.1 ∈ reads ∧ x.1.cache = some x.2 := by
  obtain ⟨read, probe⟩ := x
  simp [probedReads]

theorem answer_eq_some {x : Probed} {tenant : String} {partition : PartitionId} {query : String} {completeThroughMs : ℤ}
    {ops : ℕ} {keys : Finset String} :
    answer x = some (toLex (tenant, toLex (partition, toLex (query, completeThroughMs))), ops, keys) ↔
      x.1.concern = .complete ∧ x.1.tenant = tenant ∧ x.1.partition = partition ∧
        x.1.outcome = .served completeThroughMs keys ∧ x.2.query = query ∧ x.2.residencyOpsBefore = ops := by
  by_cases hconcern : x.1.concern = .complete
  · rcases houtcome : x.1.outcome with ⟨ct, rows⟩ | reason
    · simp only [answer, hconcern, houtcome, ne_eq, not_true_eq_false, if_false, Option.some.injEq, Prod.mk.injEq,
        EmbeddingLike.apply_eq_iff_eq, ReadOutcome.served.injEq, true_and]
      tauto
    · simp [answer, hconcern, houtcome]
  · simp [answer, hconcern]

theorem mem_answers {tenant : String} {partition : PartitionId} {query : String} {completeThroughMs : ℤ}
    {ops : ℕ} {keys : Finset String} :
    (toLex (tenant, toLex (partition, toLex (query, completeThroughMs))), ops, keys) ∈
      (probedReads reads).filterMap answer ↔
      ∃ read ∈ reads, Answers read tenant partition query completeThroughMs ops keys := by
  rw [List.mem_filterMap]
  constructor
  · rintro ⟨x, hx, hanswer⟩
    obtain ⟨hread, hcache⟩ := mem_probedReads.mp hx
    obtain ⟨hconcern, htenant, hpartition, houtcome, hquery, hops⟩ := answer_eq_some.mp hanswer
    exact ⟨x.1, hread, hconcern, htenant, hpartition, houtcome, x.2, hcache, hquery, hops⟩
  · rintro ⟨read, hread, hconcern, htenant, hpartition, houtcome, probe, hcache, hquery, hops⟩
    exact ⟨(read, probe), mem_probedReads.mpr ⟨hread, hcache⟩,
      answer_eq_some.mpr ⟨hconcern, htenant, hpartition, houtcome, hquery, hops⟩⟩

/-- The reads of a lock question. -/
def readsOf (q : LockQuestion) (reads : List ReadRecord) : List ReadRecord :=
  reads.filter fun read => read.cache.any fun probe => lockQuestion read probe = q

theorem ofQuestion_probedReads (q : LockQuestion) (reads : List ReadRecord) :
    ofQuestion q (probedReads reads) = probedReads (readsOf q reads) := by
  rw [ofQuestion, probedReads, readsOf, probedReads, List.filter_filterMap, List.filterMap_filter]
  refine List.filterMap_congr fun read _ => ?_
  rcases read.cache with _ | probe
  · rfl
  · simp [Option.filter_some]

/-- A read that raced nothing was served, on the question, in the time given. -/
structure Sample (q : LockQuestion) (read : ReadRecord) (latencyMs : ℕ) : Prop where
  served : read.outcome.isServed
  probe : ∃ probe, read.cache = some probe ∧ probe.racedResidencyAction = false ∧ lockQuestion read probe = q ∧
    probe.latencyMs = latencyMs

theorem mem_samples {q : LockQuestion} {ms : ℕ} :
    ms ∈ samples (probedReads reads) q ↔ ∃ read ∈ reads, Sample q read ms := by
  simp only [samples, ofQuestion, unraced, List.mem_map, List.mem_filter, mem_probedReads, decide_eq_true_eq,
    Bool.not_eq_true, Prod.exists]
  constructor
  · rintro ⟨read, probe, ⟨⟨⟨hread, hcache⟩, hraced, hserved⟩, hq⟩, hms⟩
    exact ⟨read, hread, hserved, probe, hcache, hraced, hq, hms⟩
  · rintro ⟨read, hread, hserved, probe, hcache, hraced, hq, hms⟩
    exact ⟨read, probe, ⟨⟨⟨hread, hcache⟩, hraced, hserved⟩, hq⟩, hms⟩

/-- A sample's latency stands among the others'. -/
theorem samples_insert {q : LockQuestion} {read : ReadRecord} {ms : ℕ} (h : Sample q read ms)
    (pre post : List ReadRecord) : (samples (probedReads (pre ++ read :: post)) q).Perm
      (ms :: samples (probedReads (pre ++ post)) q) := by
  obtain ⟨hserved, probe, hcache, hraced, hq, hms⟩ := h
  have hhead : samples (probedReads (read :: (pre ++ post))) q = ms :: samples (probedReads (pre ++ post)) q := by
    simp [samples, ofQuestion, unraced, probedReads, hcache, hraced, hserved, hq, hms]
  rw [← hhead]
  exact samples_perm (List.perm_middle.filterMap _) q

end Log

/-! ### The verdict -/

section Outcome

variable {journals : JournalSet} {reads : List ReadRecord} {ceilingMs : ℕ}

/-- The half on blocking, which needs a residency action in some journal. -/
def lockHalf (journals : JournalSet) (probed : List Probed) (ceilingMs : ℕ) : ℕ × List Finding :=
  if journals.residencyActionCount > 0 then checkNoBlocking probed ceilingMs else (0, [])

/-- All that is found. -/
def found (journals : JournalSet) (reads : List ReadRecord) (ceilingMs : ℕ) : List Finding :=
  (checkEquivalence (probedReads reads)).2 ++ (lockHalf journals (probedReads reads) ceilingMs).2

/-- The run has shown nothing: no probe, no residency action, no two states, or no read to judge. -/
def Vacuous (journals : JournalSet) (reads : List ReadRecord) (ceilingMs : ℕ) : Prop :=
  probedReads reads = [] ∨ journals.residencyActionCount = 0 ∨ (checkEquivalence (probedReads reads)).1 = 0 ∨
    (lockHalf journals (probedReads reads) ceilingMs).1 = 0

/-- A verdict is a violation where anything was found, is withheld where the run has shown nothing, and else is a pass. -/
theorem check_cases (journals : JournalSet) (reads : List ReadRecord) (ceilingMs : ℕ) :
    found journals reads ceilingMs ≠ [] ∧ check journals reads ceilingMs = .violation (found journals reads ceilingMs) ∨
    found journals reads ceilingMs = [] ∧
      (Vacuous journals reads ceilingMs ∧ (∃ reason, check journals reads ceilingMs = .noVerdict reason) ∨
        ¬ Vacuous journals reads ceilingMs ∧ ∃ checked, check journals reads ceilingMs = .pass checked) := by
  have hlock : (if decide (journals.residencyActionCount > 0) = true then checkNoBlocking (probedReads reads) ceilingMs
      else (0, [])) = lockHalf journals (probedReads reads) ceilingMs := by
    simp [lockHalf]
  have hfound : (checkEquivalence (probedReads reads)).2 ++ (lockHalf journals (probedReads reads) ceilingMs).2 =
      found journals reads ceilingMs := rfl
  simp only [check, hlock, hfound]
  split_ifs with hclean hprobed hevidence hequivalence hjudged
  · exact .inr ⟨List.isEmpty_iff.mp hclean, .inl ⟨.inl (List.isEmpty_iff.mp hprobed), _, rfl⟩⟩
  · exact .inr ⟨List.isEmpty_iff.mp hclean, .inl ⟨.inr (.inr (.inl hequivalence)), _, rfl⟩⟩
  · exact .inr ⟨List.isEmpty_iff.mp hclean, .inl ⟨.inr (.inr (.inr hjudged)), _, rfl⟩⟩
  · refine .inr ⟨List.isEmpty_iff.mp hclean, .inr ⟨?_, _, Verdict.passing_of_pos (by omega) _⟩⟩
    rintro (h | h | h | h)
    · exact hprobed (List.isEmpty_iff.mpr h)
    · exact (of_decide_eq_true hevidence).ne' h
    · exact hequivalence h
    · exact hjudged h
  · have hnone : journals.residencyActionCount = 0 := by simpa using hevidence
    exact .inr ⟨List.isEmpty_iff.mp hclean, .inl ⟨.inr (.inl hnone), _, rfl⟩⟩
  · exact .inl ⟨fun h => hclean (List.isEmpty_iff.mpr h), rfl⟩

theorem findings_check (journals : JournalSet) (reads : List ReadRecord) (ceilingMs : ℕ) :
    (check journals reads ceilingMs).findings = found journals reads ceilingMs := by
  rcases check_cases journals reads ceilingMs with ⟨-, h⟩ | ⟨hnil, ⟨-, reason, h⟩ | ⟨-, checked, h⟩⟩
  · rw [h]
    rfl
  · rw [h, hnil]
    rfl
  · rw [h, hnil]
    rfl

theorem lockHalf_perm {probed probed' : List Probed} (h : probed.Perm probed') :
    (lockHalf journals probed ceilingMs).1 = (lockHalf journals probed' ceilingMs).1 ∧
      (lockHalf journals probed ceilingMs).2.Perm (lockHalf journals probed' ceilingMs).2 := by
  simp only [lockHalf]
  split_ifs
  · exact checkNoBlocking_perm h
  · exact ⟨rfl, .refl _⟩

/-- Reads in another order show as little. -/
theorem vacuous_perm {reads' : List ReadRecord} (h : reads.Perm reads') :
    Vacuous journals reads ceilingMs ↔ Vacuous journals reads' ceilingMs := by
  have hprobed : (probedReads reads).Perm (probedReads reads') := h.filterMap _
  have hempty : probedReads reads = [] ↔ probedReads reads' = [] := by
    rw [← List.length_eq_zero_iff, hprobed.length_eq, List.length_eq_zero_iff]
  have hequivalence : (checkEquivalence (probedReads reads)).1 = 0 ↔ (checkEquivalence (probedReads reads')).1 = 0 := by
    have hpos := (checkEquivalence_perm hprobed).1
    omega
  rw [Vacuous, Vacuous, hempty, hequivalence, (lockHalf_perm hprobed).1]

theorem found_perm {reads' : List ReadRecord} (h : reads.Perm reads') :
    found journals reads ceilingMs = [] ↔ found journals reads' ceilingMs = [] := by
  have hprobed : (probedReads reads).Perm (probedReads reads') := h.filterMap _
  have hequivalence : (checkEquivalence (probedReads reads)).2 = [] ↔ (checkEquivalence (probedReads reads')).2 = [] := by
    rw [List.eq_nil_iff_forall_not_mem, List.eq_nil_iff_forall_not_mem, ← not_exists, ← not_exists]
    exact not_congr (checkEquivalence_perm hprobed).2
  have hlock : (lockHalf journals (probedReads reads) ceilingMs).2 = [] ↔
      (lockHalf journals (probedReads reads') ceilingMs).2 = [] := by
    rw [← List.length_eq_zero_iff, (@lockHalf_perm journals ceilingMs _ _ hprobed).2.length_eq, List.length_eq_zero_iff]
  rw [found, found, List.append_eq_nil_iff, List.append_eq_nil_iff, hequivalence, hlock]

/-- The same reads in another order get a verdict of the same class. -/
theorem exitCode_perm {reads' : List ReadRecord} (h : reads.Perm reads') :
    (check journals reads ceilingMs).exitCode = (check journals reads' ceilingMs).exitCode := by
  have hfound := @found_perm journals reads ceilingMs reads' h
  have hvacuous := @vacuous_perm journals reads ceilingMs reads' h
  rcases check_cases journals reads ceilingMs with ⟨hsome, hcheck⟩ | ⟨hnil, ⟨hvac, reason, hcheck⟩ | ⟨hvac, n, hcheck⟩⟩
  · rcases check_cases journals reads' ceilingMs with ⟨-, hcheck'⟩ | ⟨hnil', -⟩
    · rw [hcheck, hcheck']
      rfl
    · exact absurd (hfound.mpr hnil') hsome
  · rcases check_cases journals reads' ceilingMs with ⟨hsome', -⟩ | ⟨-, ⟨-, reason', hcheck'⟩ | ⟨hvac', -⟩⟩
    · exact absurd (hfound.mp hnil) hsome'
    · rw [hcheck, hcheck']
      rfl
    · exact absurd (hvacuous.mp hvac) hvac'
  · rcases check_cases journals reads' ceilingMs with ⟨hsome', -⟩ | ⟨-, ⟨hvac', -⟩ | ⟨-, n', hcheck'⟩⟩
    · exact absurd (hfound.mp hnil) hsome'
    · exact absurd (hvacuous.mpr hvac') hvac
    · rw [hcheck, hcheck']
      rfl

theorem exists_lockQuestion {f : Finding} (h : f ∈ (lockHalf journals (probedReads reads) ceilingMs).2) :
    ∃ q, f.lockQuestion = some q := by
  rw [lockHalf] at h
  split_ifs at h
  · rw [checkNoBlocking_eq] at h
    obtain ⟨judged, hjudged, rfl⟩ := List.mem_filterMap.mp h
    obtain ⟨x, -, hx⟩ := List.mem_filterMap.mp hjudged
    exact ⟨_, lockQuestion_of_verdictOn hx⟩
  · cases h

/-- A finding on rows is one on its question. -/
theorem rowSetDiffers_iff {tenant : String} {partition : PartitionId} {query : String} {completeThroughMs : ℤ} :
    (∃ referenceOps otherOps inReference inOther, .rowSetDiffers tenant partition query completeThroughMs referenceOps
      otherOps inReference inOther ∈ found journals reads ceilingMs) ↔
    ∃ f ∈ (checkEquivalence (probedReads reads)).2,
      f.question = some (toLex (tenant, toLex (partition, toLex (query, completeThroughMs)))) := by
  constructor
  · rintro ⟨referenceOps, otherOps, inReference, inOther, hf⟩
    rcases List.mem_append.mp hf with hf | hf
    · exact ⟨_, hf, rfl⟩
    · obtain ⟨q, hq⟩ := exists_lockQuestion hf
      cases hq
  · rintro ⟨f, hf, hq⟩
    rcases f with ⟨tenant', partition', query', ct, referenceOps, otherOps, inReference, inOther⟩ | _ | _
    · simp only [Finding.question, Option.some.injEq, EmbeddingLike.apply_eq_iff_eq, Prod.mk.injEq] at hq
      obtain ⟨rfl, rfl, rfl, rfl⟩ := hq
      exact ⟨referenceOps, otherOps, inReference, inOther, List.mem_append_left _ hf⟩
    · cases hq
    · cases hq

/-- The findings on blocking are the lock half's. -/
theorem filter_found (q : LockQuestion) : (found journals reads ceilingMs).filter (·.lockQuestion = some q) =
    (lockHalf journals (probedReads reads) ceilingMs).2.filter (·.lockQuestion = some q) := by
  have hnone : (checkEquivalence (probedReads reads)).2.filter (·.lockQuestion = some q) = [] := by
    refine List.filter_eq_nil_iff.mpr fun f hf => ?_
    obtain ⟨question, hquestion⟩ := exists_question hf
    rcases f with _ | _ | _
    · simp [Finding.lockQuestion]
    · cases hquestion
    · cases hquestion
  rw [found, List.filter_append, hnone, List.nil_append]

end Outcome

/-- **Cache transparency is complete and isolated.** A row-set finding is reported on a question exactly where two of its
    probed, served, complete answers have different rows. The findings on the blocking of a lock question are fixed by the
    reads of that question. With samples enough, a bar stays between two of the others whatever one sample is changed to.
    And the class of the verdict does not depend on the order of the log. -/
theorem cache_transparency_exact (journals : JournalSet) (reads : List ReadRecord) (ceilingMs : ℕ) :
    (∀ tenant partition query completeThroughMs, (∃ referenceOps otherOps inReference inOther,
        .rowSetDiffers tenant partition query completeThroughMs referenceOps otherOps inReference inOther ∈
          (check journals reads ceilingMs).findings) ↔
      ∃ read ∈ reads, ∃ read' ∈ reads, ∃ ops keys ops' keys',
        Answers read tenant partition query completeThroughMs ops keys ∧
          Answers read' tenant partition query completeThroughMs ops' keys' ∧ keys ≠ keys') ∧
    (∀ q reads', readsOf q reads = readsOf q reads' →
      (check journals reads ceilingMs).findings.filter (·.lockQuestion = some q) =
        (check journals reads' ceilingMs).findings.filter (·.lockQuestion = some q)) ∧
    (∀ q pre post read read' ms ms', reads = pre ++ read :: post → Sample q read ms → Sample q read' ms' →
      minUnracedBaselineSamples ≤ (samples (probedReads reads) q).length →
        ∃ bar, (baselines (probedReads (pre ++ read' :: post)))[q]? =
            some (bar, (samples (probedReads reads) q).length) ∧
          (∃ other ∈ pre ++ post, ∃ low, Sample q other low ∧ low ≤ bar) ∧
          ∃ other ∈ pre ++ post, ∃ high, Sample q other high ∧ bar ≤ high) ∧
    ∀ reads', reads.Perm reads' →
      (check journals reads ceilingMs).exitCode = (check journals reads' ceilingMs).exitCode := by
  refine ⟨fun tenant partition query ct => ?_, fun q reads' h => ?_, ?_, fun reads' h => exitCode_perm h⟩
  · rw [findings_check, rowSetDiffers_iff, differs_iff]
    simp only [Prod.exists, mem_answers]
    constructor
    · rintro ⟨ops, keys, ops', keys', ⟨read, hread, hanswers⟩, ⟨read', hread', hanswers'⟩, hne⟩
      exact ⟨read, hread, read', hread', ops, keys, ops', keys', hanswers, hanswers', hne⟩
    · rintro ⟨read, hread, read', hread', ops, keys, ops', keys', hanswers, hanswers', hne⟩
      exact ⟨ops, keys, ops', keys', ⟨read, hread, hanswers⟩, ⟨read', hread', hanswers'⟩, hne⟩
  · rw [findings_check, findings_check, filter_found, filter_found]
    simp only [lockHalf]
    split_ifs
    · exact filter_checkNoBlocking_congr (by rw [ofQuestion_probedReads, h, ofQuestion_probedReads])
    · rfl
  · rintro q pre post read read' ms ms' rfl hsample hsample' henough
    have hold := samples_insert hsample pre post
    have hnew := samples_insert hsample' pre post
    rw [hold.length_eq] at henough ⊢
    obtain ⟨bar, hbar, ⟨low, hlow, hle⟩, high, hhigh, hge⟩ := unracedBaseline_between ms' henough
    obtain ⟨other, hother, hotherlow⟩ := mem_samples.mp hlow
    obtain ⟨other', hother', hotherhigh⟩ := mem_samples.mp hhigh
    refine ⟨bar, ?_, ⟨other, hother, low, hotherlow, hle⟩, other', hother', high, hotherhigh, hge⟩
    rw [get_baselines, unracedBaseline_perm hnew, hbar, hnew.length_eq]
    rfl

/-- A complete answer to a count, from the cache states and in the time given. -/
def counted (opsBefore opsAfter latencyMs : ℕ) (monotone : opsBefore ≤ opsAfter) (keys : Finset String) : ReadRecord where
  tenant := "acme"
  partition := ⟨"acme.0"⟩
  concern := .complete
  outcome := .served 10 keys
  cache := some ⟨"count", ⟨"n1"⟩, opsBefore, opsAfter, latencyMs, monotone⟩

/-- Three reads that raced nothing, the last of them slow and short of a row, and a slow one that raced an action. -/
def stormLog : List ReadRecord :=
  [counted 0 0 5 le_rfl {"a"}, counted 1 1 6 le_rfl {"a"}] ++
    counted 2 2 4000 le_rfl ∅ :: [counted 1 2 3000 (by decide) {"a"}]

def oneDrop : JournalSet where
  lines := [{ node := ⟨"n1"⟩, seq := 0, event := .dropWindow }]

def countQuestion : LockQuestion :=
  toLex (⟨"n1"⟩, toLex ("acme", toLex (⟨"acme.0"⟩, toLex ("count", .complete))))

/-- One slow sample does not acquit the blocked read, nor would any other in its place. -/
theorem cache_transparency_exact_storm :
    check oneDrop stormLog 1000 = .violation [
      .rowSetDiffers "acme" ⟨"acme.0"⟩ "count" 10 0 2 ["a"] [],
      .blockedRead ⟨"n1"⟩ "acme" ⟨"acme.0"⟩ "count" .complete 3000 6 3 1000] ∧
    ∀ ms, ∃ bar, (baselines (probedReads ([counted 0 0 5 le_rfl {"a"}, counted 1 1 6 le_rfl {"a"}] ++
      counted 2 2 ms le_rfl ∅ :: [counted 1 2 3000 (by decide) {"a"}])))[countQuestion]? = some (bar, 3) := by
  refine ⟨by decide +kernel, fun ms => ?_⟩
  obtain ⟨-, -, hbar, -⟩ := cache_transparency_exact oneDrop stormLog 1000
  obtain ⟨bar, hget, -⟩ := hbar countQuestion _ _ _ (counted 2 2 ms le_rfl ∅) 4000 ms rfl
    ⟨rfl, _, rfl, rfl, rfl, rfl⟩ ⟨rfl, _, rfl, rfl, rfl, rfl⟩ (by decide +kernel)
  have hlength : (samples (probedReads stormLog) countQuestion).length = 3 := by decide +kernel
  rw [hlength] at hget
  exact ⟨bar, hget⟩

end CacheTransparency

end Duckspout
