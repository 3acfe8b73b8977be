import Duckspout.Judge.Evidence
import Duckspout.Lib.Groups

/-! The latest-view verdict (`duckspout-judge/src/predicates/latest_view.rs`): the fold of the acked changelog compared,
    row by row, with what the view serves.

    The records and the winners are maps, so all a verdict can depend on is the set of lines; only the wording for two
    acks that disagree tells which of them was read first. -/

namespace Duckspout

namespace LatestView

/-- The order of the rows is transitive. -/
instance instTransCmpRowKey : Std.TransCmp (@compare RowKey LinearOrder.toOrd) := OrdMap.instTransCmp

/-! ### The predicate -/

structure Finding where
  dataset : DatasetId
  tenant : TenantId
  key : String
  /-- What the fold yields; nothing where the winner is a tombstone. -/
  expected : Option String
  /-- What the view served; nothing where the key was absent. -/
  served : Option String
  deriving DecidableEq, Repr

/-- The row a finding is about. -/
def Finding.row (f : Finding) : RowKey := toLex (f.dataset, toLex (f.tenant, f.key))

/-- The wording for two acks of one record that differ; `debug` writes an entry out. -/
def conflictText (debug : ChangelogEntry → String) (previous entry : ChangelogEntry) : String :=
  "changelog record (" ++ entry.dataset.raw ++ ", partition " ++ entry.partition.raw ++ ", origin " ++ entry.origin.raw ++
    ", seq " ++ toString entry.changelogSeq ++ ") was acked twice with DIFFERENT content (" ++ debug previous ++ " vs " ++
    debug entry ++ ") — the (origin, seq) fold order has no answer here, so this run cannot be judged (ambiguity fails " ++
    "closed, §8.4)"

/-- What the view must serve for a winner. -/
def winningValue (entry : ChangelogEntry) : Option String := if entry.tombstone then none else entry.value

/-- The rows also written by a request that timed out. -/
def unresolvedRows (journals : JournalSet) : Finset RowKey :=
  ((journals.changelog .clientTimeout).map (·.rowKey)).toFinset

/-- The value served for a row. -/
def servedValue (served : OrdMap DatasetId ServedView) (row : RowKey) : Option String :=
  ((served[row.1]?).bind (·[row.2.1]?)).bind (·[row.2.2]?)

/-- A row whose served value is not the winning one. -/
def judgeRow (served : OrdMap DatasetId ServedView) (x : RowKey × ChangelogEntry) : Option Finding :=
  if servedValue served x.1 ≠ winningValue x.2 then
    some ⟨x.1.1, x.1.2.1, x.1.2.2, winningValue x.2, servedValue served x.1⟩
  else none

def allTimedOutText : String :=
  "every acked changelog row was also written by a request that timed out, so no row's correct latest value is knowable " ++
    "from this run's evidence — nothing was checked (§8.4 vacuity teeth)"

def check (debug : ChangelogEntry → String) (journals : JournalSet) (view : LatestView) : Verdict Finding :=
  if (journals.changelog .clientAck).isEmpty then
    .noVerdict ("no ClientAck line in any journal carried a changelog entry — this predicate had no acked changelog to " ++
      "fold (§8.4 vacuity teeth)")
  else
    match dedupRecords (journals.changelog .clientAck) with
    | .error (previous, entry) => .noVerdict (conflictText debug previous entry)
    | .ok byRecord =>
      let winners := foldWinners byRecord
      match OrdMap.fetchAll view ((winners.keys.map (·.1)).toFinset.sort (· ≤ ·)) ∅ with
      | .error err =>
        .noVerdict (err.text ++ " — a failed read-back is not proof that the view is wrong (nor that it is right), so " ++
          "this run cannot be certified (§8.4 fail-closed posture)")
      | .ok served =>
        let judged := winners.toList.filter fun x => x.1 ∉ unresolvedRows journals
        let findings := judged.filterMap (judgeRow served)
        if findings.isEmpty then
          .passing judged.length allTimedOutText
        else .violation findings

/-! ### Read-backs -/

/-- What the read-back of a dataset serves for a row; nothing where it failed. -/
def servedIn (view : LatestView) (row : RowKey) : Option String :=
  match view row.1 with
  | .ok served => (served[row.2.1]?).bind (·[row.2.2]?)
  | .error _ => none

/-! ### Winners -/

section Winners

variable {acked : List ChangelogEntry} {byRecord : OrdMap RecordSlot ChangelogEntry} {k : RowKey} {w : ChangelogEntry}

/-- Each row is written in one partition. -/
def OnePartition (acked : List ChangelogEntry) : Prop :=
  ∀ e ∈ acked, ∀ e' ∈ acked, e.rowKey = e'.rowKey → e.partition = e'.partition

theorem wins_of_foldWinners (h : Records byRecord acked) (hget : (foldWinners byRecord)[k]? = some w) : Wins acked k w := by
  rw [foldWinners] at hget
  obtain ⟨hmem, hrow, hgreatest⟩ := (foldl_foldWinner (byRecord.toList.map (·.2)) k).1 w hget
  exact ⟨(h.mem_values w).mp hmem, hrow, fun e he => hgreatest e ((h.mem_values e).mpr he)⟩

theorem exists_foldWinners (h : Records byRecord acked) {e : ChangelogEntry} (he : e ∈ acked) :
    ∃ w, (foldWinners byRecord)[e.rowKey]? = some w := by
  obtain ⟨w, hget, -⟩ := foldWinners_spec h.mem_values he
  exact ⟨w, hget⟩

/-- A row has one winner. -/
theorem wins_unique (hone : OnePartition acked) (hsame : ¬ Conflicting acked) {w' : ChangelogEntry} (h : Wins acked k w)
    (h' : Wins acked k w') : w = w' := by
  by_contra hne
  have hrow : w.rowKey = w'.rowKey := h.row.trans h'.row.symm
  have horder : w.foldOrder = w'.foldOrder :=
    le_antisymm (h'.greatest w h.mem h.row) (h.greatest w' h'.mem h'.row)
  have hpartition := hone w h.mem w' h'.mem hrow
  refine hsame ⟨w, h.mem, w', h'.mem, ?_, hne⟩
  have hdataset : w.dataset = w'.dataset := congrArg (fun r : RowKey => r.1) hrow
  have horigin : w.origin = w'.origin := congrArg (fun o : FoldOrder => o.1) horder
  have hseq : w.changelogSeq = w'.changelogSeq := congrArg (fun o : FoldOrder => o.2) horder
  rw [ChangelogEntry.slot, ChangelogEntry.slot, hdataset, hpartition, horigin, hseq]

theorem foldWinners_eq_some_iff (hone : OnePartition acked) (h : Records byRecord acked) :
    (foldWinners byRecord)[k]? = some w ↔ Wins acked k w := by
  refine ⟨wins_of_foldWinners h, fun hw => ?_⟩
  obtain ⟨w', hget⟩ := exists_foldWinners h hw.mem
  rw [hw.row] at hget
  rw [hget, wins_unique hone h.not_conflicting hw (wins_of_foldWinners h hget)]

theorem mem_datasets (h : Records byRecord acked) {d : DatasetId} :
    d ∈ ((foldWinners byRecord).keys.map (·.1)).toFinset.sort (· ≤ ·) ↔ ∃ e ∈ acked, e.dataset = d := by
  simp only [Finset.mem_sort, List.mem_toFinset, List.mem_map, OrdMap.mem_keys]
  constructor
  · rintro ⟨k, hk, rfl⟩
    obtain ⟨w, hget⟩ := Option.isSome_iff_exists.mp hk
    have hw := wins_of_foldWinners h hget
    exact ⟨w, hw.mem, congrArg (fun r : RowKey => r.1) hw.row⟩
  · rintro ⟨e, he, rfl⟩
    obtain ⟨w, hget⟩ := exists_foldWinners h he
    exact ⟨e.rowKey, Option.isSome_iff_exists.mpr ⟨w, hget⟩, rfl⟩

end Winners

/-! ### The verdict -/

section Judged

variable {debug : ChangelogEntry → String} {journals : JournalSet} {view : LatestView}
  {byRecord : OrdMap RecordSlot ChangelogEntry}

/-- A write of the row has timed out. -/
def TimedOut (journals : JournalSet) (row : RowKey) : Prop := ∃ e ∈ journals.changelog .clientTimeout, e.rowKey = row

theorem mem_unresolvedRows {row : RowKey} : row ∈ unresolvedRows journals ↔ TimedOut journals row := by
  simp [unresolvedRows, TimedOut]

/-- The rows that are compared, each with its winner. -/
def judgedRows (journals : JournalSet) (byRecord : OrdMap RecordSlot ChangelogEntry) : List (RowKey × ChangelogEntry) :=
  (foldWinners byRecord).toList.filter fun x => x.1 ∉ unresolvedRows journals

theorem mem_judgedRows {x : RowKey × ChangelogEntry} :
    x ∈ judgedRows journals byRecord ↔ (foldWinners byRecord)[x.1]? = some x.2 ∧ ¬ TimedOut journals x.1 := by
  rw [judgedRows, List.mem_filter, OrdMap.mem_toList, decide_eq_true_eq, mem_unresolvedRows]

/-- A row compared with the read-back. -/
def found (view : LatestView) (x : RowKey × ChangelogEntry) : Option Finding :=
  if servedIn view x.1 ≠ winningValue x.2 then
    some ⟨x.1.1, x.1.2.1, x.1.2.2, winningValue x.2, servedIn view x.1⟩
  else none

/-- An acked dataset's view cannot be read. -/
def Unreadable (journals : JournalSet) (view : LatestView) : Prop :=
  ∃ e ∈ journals.changelog .clientAck, ∃ err, view e.dataset = .error err

/-- The comparison of every row with the read-back. -/
def compared (journals : JournalSet) (byRecord : OrdMap RecordSlot ChangelogEntry) (view : LatestView) : Verdict Finding :=
  if (judgedRows journals byRecord).filterMap (found view) = [] then
    .passing (judgedRows journals byRecord).length allTimedOutText
  else .violation ((judgedRows journals byRecord).filterMap (found view))

/-- What is served for a compared row is what the read-back of its dataset serves. -/
theorem filterMap_judgeRow (h : Records byRecord (journals.changelog .clientAck)) {served : OrdMap DatasetId ServedView}
    (hin : ∀ d ∈ ((foldWinners byRecord).keys.map (·.1)).toFinset.sort (· ≤ ·),
      ∃ rows, view d = .ok rows ∧ served[d]? = some rows) :
    (judgedRows journals byRecord).filterMap (judgeRow served) = (judgedRows journals byRecord).filterMap (found view) := by
  refine List.filterMap_congr fun x hx => ?_
  have hw := wins_of_foldWinners h (mem_judgedRows.mp hx).1
  have hdataset := congrArg (fun r : RowKey => r.1) hw.row
  obtain ⟨rows, hrows, hget⟩ := hin x.1.1 ((mem_datasets h).mpr ⟨x.2, hw.mem, hdataset⟩)
  have hserved : servedValue served x.1 = servedIn view x.1 := by
    simp [servedValue, servedIn, hrows, hget]
  rw [judgeRow, found, hserved]

/-- The verdict, by what the run's evidence is like: where records are told apart and every view is read, it is the
    comparison of the rows. -/
theorem check_cases (debug : ChangelogEntry → String) (journals : JournalSet) (view : LatestView) :
    ((∃ reason, check debug journals view = .noVerdict reason) ∧ (journals.changelog .clientAck = [] ∨
      Conflicting (journals.changelog .clientAck) ∨ Unreadable journals view)) ∨
    ∃ byRecord, Records byRecord (journals.changelog .clientAck) ∧ journals.changelog .clientAck ≠ [] ∧
      ¬ Unreadable journals view ∧ check debug journals view = compared journals byRecord view := by
  by_cases hacked : journals.changelog .clientAck = []
  · exact .inl ⟨⟨_, by simp only [check, hacked]; rfl⟩, .inl hacked⟩
  have hempty : (journals.changelog .clientAck).isEmpty = false := by
    simpa [List.isEmpty_iff] using hacked
  rcases dedupRecords_cases (journals.changelog .clientAck) with ⟨⟨byRecord, hdedup, hrecords⟩, -⟩ |
    ⟨⟨conflict, hdedup⟩, hconflict⟩
  · rcases OrdMap.fetchAll_spec view (((foldWinners byRecord).keys.map (·.1)).toFinset.sort (· ≤ ·)) ∅ with
      ⟨served, hread, hin, -⟩ | ⟨d, hd, err, hread, herr⟩
    · refine .inr ⟨byRecord, hrecords, hacked, ?_, ?_⟩
      · rintro ⟨e, he, err, herr⟩
        obtain ⟨rows, hrows, -⟩ := hin e.dataset ((mem_datasets hrecords).mpr ⟨e, he, rfl⟩)
        rw [hrows] at herr
        cases herr
      · rw [compared, ← filterMap_judgeRow hrecords hin]
        simp only [check, hempty, hdedup, hread, List.isEmpty_iff]
        rfl
    · obtain ⟨e, he, rfl⟩ := (mem_datasets hrecords).mp hd
      exact .inl ⟨⟨_, by simp only [check, hempty, hdedup, hread]; rfl⟩, .inr (.inr ⟨e, he, err, herr⟩)⟩
  · exact .inl ⟨⟨_, by simp only [check, hempty, hdedup]; rfl⟩, .inr (.inl hconflict)⟩

theorem mem_judgedRows_iff (hone : OnePartition (journals.changelog .clientAck))
    (h : Records byRecord (journals.changelog .clientAck)) {x : RowKey × ChangelogEntry} :
    x ∈ judgedRows journals byRecord ↔ Wins (journals.changelog .clientAck) x.1 x.2 ∧ ¬ TimedOut journals x.1 := by
  rw [mem_judgedRows, foldWinners_eq_some_iff hone h]

theorem judgedRows_eq_nil (h : Records byRecord (journals.changelog .clientAck)) :
    judgedRows journals byRecord = [] ↔ ∀ e ∈ journals.changelog .clientAck, TimedOut journals e.rowKey := by
  rw [List.eq_nil_iff_forall_not_mem]
  constructor
  · intro hnil e he
    obtain ⟨w, hget⟩ := exists_foldWinners h he
    by_contra hjudged
    exact hnil (e.rowKey, w) (mem_judgedRows.mpr ⟨hget, hjudged⟩)
  · intro hall x hx
    obtain ⟨hget, hjudged⟩ := mem_judgedRows.mp hx
    have hw := wins_of_foldWinners h hget
    exact hjudged (hw.row ▸ hall x.2 hw.mem)

/-- The comparison is inconclusive where every row has a write that timed out. -/
theorem compared_inconclusive_iff : (compared journals byRecord view).Inconclusive ↔ judgedRows journals byRecord = [] := by
  rw [compared]
  split_ifs with hclean
  · rcases hjudged : judgedRows journals byRecord with _ | ⟨x, rows⟩
    · simp [Verdict.passing, Verdict.Inconclusive]
    · simp [Verdict.passing, Verdict.Inconclusive]
  · refine ⟨fun h => h.elim, fun hnil => absurd ?_ hclean⟩
    rw [hnil, List.filterMap_nil]

theorem findings_compared (journals : JournalSet) (byRecord : OrdMap RecordSlot ChangelogEntry) (view : LatestView) :
    (compared journals byRecord view).findings = (judgedRows journals byRecord).filterMap (found view) := by
  rw [compared]
  split_ifs with hclean
  · rw [hclean, Verdict.passing]
    split_ifs <;> rfl
  · rfl

/-- The findings are in order of their rows, and a row has one at most. -/
theorem pairwise_findings : ((judgedRows journals byRecord).filterMap (found view)).Pairwise (·.row < ·.row) := by
  have hsorted : (foldWinners byRecord).toList.Pairwise fun x y => x.1 < y.1 := by
    have hord := Std.ExtTreeMap.ordered_keys_toList (t := foldWinners byRecord)
    simpa only [compare_lt_iff_lt] using hord
  refine List.Pairwise.filterMap (found view) ?_ (hsorted.filter _)
  intro x y hlt f hf g hg
  rw [found, Option.ite_none_right_eq_some, Option.some.injEq] at hf hg
  rw [← hf.2, ← hg.2]
  exact hlt

theorem mem_findings_compared (hone : OnePartition (journals.changelog .clientAck))
    (h : Records byRecord (journals.changelog .clientAck)) {f : Finding} :
    f ∈ (compared journals byRecord view).findings ↔ ∃ w, Wins (journals.changelog .clientAck) f.row w ∧
      ¬ TimedOut journals f.row ∧ f.expected = winningValue w ∧ f.served = servedIn view f.row ∧
      f.served ≠ f.expected := by
  rw [findings_compared, List.mem_filterMap]
  constructor
  · rintro ⟨x, hx, hf⟩
    obtain ⟨hw, hjudged⟩ := (mem_judgedRows_iff hone h).mp hx
    rw [found, Option.ite_none_right_eq_some, Option.some.injEq] at hf
    obtain ⟨hne, rfl⟩ := hf
    exact ⟨x.2, hw, hjudged, rfl, rfl, hne⟩
  · rintro ⟨w, hw, hjudged, hexpected, hserved, hne⟩
    rw [hexpected, hserved] at hne
    refine ⟨(f.row, w), (mem_judgedRows_iff hone h).mpr ⟨hw, hjudged⟩, ?_⟩
    rw [found, if_pos hne, ← hexpected, ← hserved]
    rfl

theorem not_inconclusive_cases (h : ¬ (check debug journals view).Inconclusive) :
    ∃ byRecord, Records byRecord (journals.changelog .clientAck) ∧
      check debug journals view = compared journals byRecord view := by
  rcases check_cases debug journals view with ⟨⟨reason, hcheck⟩, -⟩ | ⟨byRecord, hrecords, -, -, hcheck⟩
  · rw [hcheck] at h
    exact absurd trivial h
  · exact ⟨byRecord, hrecords, hcheck⟩

theorem inconclusive_of_conflicting (h : Conflicting (journals.changelog .clientAck)) :
    (check debug journals view).Inconclusive := by
  by_contra hnot
  obtain ⟨byRecord, hrecords, -⟩ := not_inconclusive_cases hnot
  exact hrecords.not_conflicting h

theorem inconclusive_iff : (check debug journals view).Inconclusive ↔ journals.changelog .clientAck = [] ∨
    Conflicting (journals.changelog .clientAck) ∨ Unreadable journals view ∨
    ∀ e ∈ journals.changelog .clientAck, TimedOut journals e.rowKey := by
  rcases check_cases debug journals view with ⟨⟨reason, hcheck⟩, hwhy⟩ | ⟨byRecord, hrecords, hacked, hread, hcheck⟩
  · rw [hcheck]
    refine iff_of_true trivial ?_
    rcases hwhy with h | h | h
    · exact .inl h
    · exact .inr (.inl h)
    · exact .inr (.inr (.inl h))
  · rw [hcheck, compared_inconclusive_iff, judgedRows_eq_nil hrecords]
    refine ⟨fun h => .inr (.inr (.inr h)), ?_⟩
    rintro (h | h | h | h)
    · exact absurd h hacked
    · exact absurd h hrecords.not_conflicting
    · exact absurd h hread
    · exact h

theorem violation_iff : (∃ fs, check debug journals view = .violation fs) ↔ (check debug journals view).findings ≠ [] := by
  rcases check_cases debug journals view with ⟨⟨reason, hcheck⟩, -⟩ | ⟨byRecord, -, -, -, hcheck⟩
  · rw [hcheck]
    exact ⟨fun ⟨_, h⟩ => (by cases h), fun h => absurd rfl h⟩
  · rw [hcheck, findings_compared, compared]
    split_ifs with hclean
    · refine ⟨fun ⟨fs, h⟩ => ?_, fun h => absurd hclean h⟩
      rw [Verdict.passing] at h
      split_ifs at h
    · exact ⟨fun _ => hclean, fun _ => ⟨_, rfl⟩⟩

/-- The verdict depends on the set of lines alone, but for the wording of a conflict. -/
theorem check_sameLines {other : JournalSet} (h : ∀ line, line ∈ other.lines ↔ line ∈ journals.lines) :
    check debug other view = check debug journals view ∨
    Conflicting (journals.changelog .clientAck) ∧ (check debug other view).Inconclusive ∧
      (check debug journals view).Inconclusive := by
  have hsame : ∀ event e, e ∈ other.changelog event ↔ e ∈ journals.changelog event := by
    intro event e
    simp only [JournalSet.mem_changelog, h]
  have hunresolved : unresolvedRows other = unresolvedRows journals := by
    ext row
    simp only [mem_unresolvedRows, TimedOut, hsame]
  have hconflict : Conflicting (other.changelog .clientAck) ↔ Conflicting (journals.changelog .clientAck) := by
    simp only [Conflicting, hsame]
  have hempty : (other.changelog .clientAck).isEmpty = (journals.changelog .clientAck).isEmpty := by
    rw [Bool.eq_iff_iff]
    simp only [List.isEmpty_iff, List.eq_nil_iff_forall_not_mem, hsame]
  rcases dedupRecords_cases (journals.changelog .clientAck) with ⟨⟨byRecord, hdedup, hrecords⟩, hno⟩ | ⟨-, hyes⟩
  · rcases dedupRecords_cases (other.changelog .clientAck) with ⟨⟨byRecord', hdedup', hrecords'⟩, -⟩ | ⟨-, hyes⟩
    · have hmap : byRecord' = byRecord := by
        refine OrdMap.ext fun k => Option.ext fun e => ?_
        rw [hrecords, hrecords', hsame]
      left
      simp only [check, hempty, hdedup, hdedup', hmap, hunresolved]
    · exact absurd (hconflict.mp hyes) hno
  · exact .inr ⟨hyes, inconclusive_of_conflicting (hconflict.mpr hyes), inconclusive_of_conflicting hyes⟩

end Judged

/-- **The latest-view verdict is exact.** It is withheld exactly where nothing was acked, two acks of one record differ, a
    view of an acked dataset cannot be read or every acked row has a write that timed out. Otherwise the findings are, one
    a row, the rows without a write that timed out whose served value is not that of the acked entry with the greatest
    `(origin, seq)`. And the same lines in another order, or repeated, give the same verdict with the same findings: only
    where acks differ may the wording of the reason. -/
theorem latest_view_exact (debug : ChangelogEntry → String) (journals : JournalSet) (view : LatestView)
    (hone : OnePartition (journals.changelog .clientAck)) :
    ((check debug journals view).Inconclusive ↔ journals.changelog .clientAck = [] ∨
      Conflicting (journals.changelog .clientAck) ∨
      (∃ e ∈ journals.changelog .clientAck, ∃ err, view e.dataset = .error err) ∨
      ∀ e ∈ journals.changelog .clientAck, TimedOut journals e.rowKey) ∧
    (¬ (check debug journals view).Inconclusive →
      (check debug journals view).findings.Pairwise (·.row < ·.row) ∧
      ∀ f, f ∈ (check debug journals view).findings ↔ ∃ w, Wins (journals.changelog .clientAck) f.row w ∧
        ¬ TimedOut journals f.row ∧ f.expected = winningValue w ∧ f.served = servedIn view f.row ∧
        f.served ≠ f.expected) ∧
    ((∃ fs, check debug journals view = .violation fs) ↔ (check debug journals view).findings ≠ []) ∧
    ∀ other : JournalSet, (∀ line, line ∈ other.lines ↔ line ∈ journals.lines) →
      check debug other view = check debug journals view ∨
      Conflicting (journals.changelog .clientAck) ∧ (check debug other view).Inconclusive ∧
        (check debug journals view).Inconclusive := by
  refine ⟨inconclusive_iff, fun h => ?_, violation_iff, fun other => check_sameLines⟩
  · obtain ⟨byRecord, hrecords, hcheck⟩ := not_inconclusive_cases h
    rw [hcheck]
    refine ⟨?_, fun f => mem_findings_compared hone hrecords⟩
    rw [findings_compared]
    exact pairwise_findings

/-- Two acked versions of an account, journaled newest first, and a write of another account that timed out. -/
def twoVersions : JournalSet where
  lines := [
    { node := ⟨"loadgen-0"⟩, seq := 0, event := .clientAck, changelog := some (accountEntry (accountRow "a" 2 "paid")) },
    { node := ⟨"loadgen-0"⟩, seq := 1, event := .clientAck, changelog := some (accountEntry (accountRow "a" 1 "free")) },
    { node := ⟨"loadgen-0"⟩, seq := 2, event := .clientAck, changelog := some (accountEntry (accountRow "b" 3 "free")) },
    { node := ⟨"loadgen-0"⟩, seq := 3, event := .clientTimeout,
      changelog := some (accountEntry (accountRow "b" 4 "paid")) }]

/-- The view serves the older version. -/
def olderServed : LatestView := fun _ => .ok ((∅ : ServedView).insert ⟨"acme"⟩ ((∅ : OrdMap String String).insert "a" "free"))

theorem latest_view_exact_olderServed :
    check (fun _ => "") twoVersions olderServed = .violation [⟨⟨"accounts"⟩, ⟨"acme"⟩, "a", some "paid", some "free"⟩] ∧
    ∃ w, Wins (twoVersions.changelog .clientAck) (accountEntry (accountRow "a" 1 "free")).rowKey w ∧
      winningValue w = some "paid" := by
  have hcheck : check (fun _ => "") twoVersions olderServed =
      .violation [⟨⟨"accounts"⟩, ⟨"acme"⟩, "a", some "paid", some "free"⟩] := by
    decide +kernel
  obtain ⟨-, hfindings, -⟩ := latest_view_exact (fun _ => "") twoVersions olderServed
    (by unfold OnePartition; decide +kernel)
  rw [hcheck] at hfindings
  obtain ⟨w, hw, -, hexpected, -⟩ := ((hfindings not_false).2 _).mp List.mem_cons_self
  exact ⟨hcheck, w, hw, hexpected.symm⟩

end LatestView

end Duckspout
