import Duckspout.Judge.LatestVerdict

/-! Retention honesty (`duckspout-judge/src/predicates/retention_honesty.rs`): a changelog part is expired only under a
    committed snapshot of its arrivals, and no acked row's last value is lost with an expired part.

    Snapshots count as the lake reads them back; no journaled line joins them. The second half folds the acked changelog
    with the latest view's own fold, and narrows what it finds to the rows an expiry has touched. -/

namespace Duckspout

namespace Retention

/-! ### The predicate -/

inductive Finding where
  | uncoveredExpiry (dataset : DatasetId) (partition : PartitionId) (part : PartName) (coverage : List OriginSeqRange)
      (snapshotsConsidered : ℕ)
  | lastValueUnreachable (dataset : DatasetId) (tenant : TenantId) (key : String) (expected served : Option String)
      (expiredPart : PartName)
  deriving DecidableEq, Repr

/-- Every expired range lies within one range of the snapshot, of the same origin. -/
def coversArrival (snapshot : CommittedSnapshot) (expired : List OriginSeqRange) : Bool :=
  expired.all fun range => snapshot.originCoverage.any fun covering =>
    covering.origin = range.origin ∧ covering.firstSeq ≤ range.firstSeq ∧ covering.lastSeq ≥ range.lastSeq

/-- The coverage has the entry's arrival. -/
def coverageContains (coverage : List OriginSeqRange) (entry : ChangelogEntry) : Bool :=
  coverage.any fun range =>
    range.origin = entry.origin ∧ range.firstSeq ≤ entry.changelogSeq ∧ range.lastSeq ≥ entry.changelogSeq

abbrev Scope := DatasetId ×ₗ PartitionId

def scopeOf (part : PartRetention) : Scope := toLex (part.dataset, part.partition)

/-- The parts a snapshot has to cover. -/
def guarded (part : PartRetention) : Bool := part.datasetKind = .changelog ∧ part.partKind ≠ .snapshot

/-- The parts retired, in the order of ingestion. -/
def expiredParts (journals : JournalSet) : List PartRetention := (journals.partEvents .expire).map (·.2)

/-- A guarded part against the snapshots read back. -/
def judgePart (covering : OrdMap Scope (List CommittedSnapshot)) (part : PartRetention) : Option Finding :=
  let snapshots := (covering[scopeOf part]?).getD []
  if ¬ snapshots.any (coversArrival · part.originCoverage) then
    some (.uncoveredExpiry part.dataset part.partition part.part part.originCoverage snapshots.length)
  else none

/-- The part's arrival range has the entry that won the row. -/
def holds (row : RowKey) (winner : ChangelogEntry) (part : PartRetention) : Bool :=
  part.dataset = row.1 ∧ part.partition = winner.partition ∧ coverageContains part.originCoverage winner

/-- How far the second half has got: the views read so far, the rows checked, the findings. -/
structure LastValues where
  servedViews : OrdMap DatasetId ServedView := ∅
  checked : ℕ := 0
  findings : List Finding := []

/-- The views with the dataset's, which is read where it has not been. -/
def LastValues.withView (state : LastValues) (view : LatestView) (dataset : DatasetId) :
    Except String (OrdMap DatasetId ServedView) :=
  match state.servedViews[dataset]? with
  | some _ => .ok state.servedViews
  | none =>
    match view dataset with
    | .ok rows => .ok (state.servedViews.insert dataset rows)
    | .error err =>
      .error (err.text ++ " — a failed read-back is not proof that expiry made a value unreachable (nor that it did " ++
        "not), so this run cannot be certified (§8.4 fail-closed posture)")

/-- One row: checked if an expired part held its winner. -/
def checkRow (unresolved : Finset RowKey) (expired : List PartRetention) (view : LatestView) (state : LastValues)
    (x : RowKey × ChangelogEntry) : Except String LastValues :=
  if x.1 ∈ unresolved then .ok state
  else
    match expired.find? (holds x.1 x.2) with
    | none => .ok state
    | some holder => do
      let servedViews ← state.withView view x.1.1
      let expected := LatestView.winningValue x.2
      let served := LatestView.servedValue servedViews x.1
      return ⟨servedViews, state.checked + 1, if served ≠ expected then
          state.findings ++ [.lastValueUnreachable x.1.1 x.1.2.1 x.1.2.2 expected served holder.part]
        else state.findings⟩

/-- The rows checked and the findings, or why the run cannot be judged. -/
def checkLastValues (debug : ChangelogEntry → String) (journals : JournalSet) (expired : List PartRetention)
    (view : LatestView) : Except String (ℕ × List Finding) :=
  let acked := journals.changelog .clientAck
  if acked.isEmpty then .ok (0, [])
  else
    match dedupRecords acked with
    | .error (previous, entry) => .error (LatestView.conflictText debug previous entry)
    | .ok byRecord =>
      ((foldWinners byRecord).toList.foldlM (checkRow (LatestView.unresolvedRows journals) expired view) {}).map
        fun state => (state.checked, state.findings)

/-- The verdict of a run whose read-backs succeeded. -/
def conclude (expiriesChecked rowsChecked : ℕ) (findings : List Finding) : Verdict Finding :=
  if ¬ findings.isEmpty then .violation findings
  else if expiriesChecked = 0 then
    .noVerdict ("this run's journaled expiries were all of snapshot or `event` parts, so obligation (A) — the §3 guard " ++
      "itself — evaluated nothing. Keep Rule 10 guards neither kind, and a run that never expired a guarded changelog " ++
      "part certifies nothing about it (§8.4 vacuity teeth)")
  else if rowsChecked = 0 then
    .noVerdict ("no acked row's winning changelog entry fell inside any expired part's arrival range, so obligation (B) " ++
      "— no acked record's last value became unreachable through expiry — evaluated nothing. That is also what a " ++
      "partition-id or tenant spelling drift between the journals and the served view looks like, which is exactly why " ++
      "obligation (A)'s own count is not allowed to carry a `Pass` on its own (§8.4 vacuity teeth)")
  else .passing (expiriesChecked + rowsChecked) "nothing was checked"

def check (debug : ChangelogEntry → String) (journals : JournalSet) (parts : CommittedParts) (view : LatestView) :
    Verdict Finding :=
  let expired := expiredParts journals
  if expired.isEmpty then
    .noVerdict ("no Expire line in any journal carried a part descriptor — this predicate had no retention decision to " ++
      "replay (§8.4 vacuity teeth). Nothing in this workspace journals Expire yet (crate::journal's producer-status " ++
      "note), so this is the expected verdict until the retention scheduler lands.")
  else
    let guardedParts := expired.filter guarded
    match OrdMap.fetchAll (fun scope : Scope => parts scope.1 scope.2)
      ((guardedParts.map scopeOf).toFinset.sort (· ≤ ·)) ∅ with
    | .error err =>
      .noVerdict (err.text ++ " — a failed read-back is not proof that a part was expired uncovered (nor that it was " ++
        "covered), so this run cannot be certified (§8.4 fail-closed posture)")
    | .ok covering =>
      match checkLastValues debug journals expired view with
      | .error reason => .noVerdict reason
      | .ok (rowsChecked, rowFindings) =>
        conclude guardedParts.length rowsChecked (guardedParts.filterMap (judgePart covering) ++ rowFindings)

/-! ### Arrivals -/

section Arrivals

/-- Two ranges that share no number of an origin, neither of which follows right on the other. -/
def Gapped (r q : OriginSeqRange) : Prop := ∀ o m n, r.Has o m → q.Has o n → m ≠ n ∧ m + 1 ≠ n ∧ n + 1 ≠ m

instance : Std.Symm Gapped := ⟨fun _ _ h o m n hm hn =>
  have ⟨hne, hafter, hbefore⟩ := h o n m hn hm
  ⟨hne.symm, hbefore, hafter⟩⟩

/-- The ranges of one origin are disjoint and not adjacent. -/
def Separated (coverage : List OriginSeqRange) : Prop := coverage.Pairwise Gapped

/-- A snapshot has every arrival of a part. -/
def Contains (snapshot : CommittedSnapshot) (part : PartRetention) : Prop :=
  ∀ o n, Covers part.originCoverage o n → Covers snapshot.originCoverage o n

theorem coversArrival_iff {snapshot : CommittedSnapshot} {expired : List OriginSeqRange} :
    coversArrival snapshot expired ↔ ∀ range ∈ expired, ∃ covering ∈ snapshot.originCoverage,
      covering.origin = range.origin ∧ covering.firstSeq ≤ range.firstSeq ∧ range.lastSeq ≤ covering.lastSeq := by
  simp [coversArrival]

theorem coverageContains_iff {coverage : List OriginSeqRange} {e : ChangelogEntry} :
    coverageContains coverage e ↔ Covers coverage e.origin e.changelogSeq := by
  simp [coverageContains, Covers, OriginSeqRange.Has]

/-- A snapshot that covers a part range by range has its arrivals. -/
theorem contains_of_coversArrival {snapshot : CommittedSnapshot} {part : PartRetention}
    (h : coversArrival snapshot part.originCoverage) : Contains snapshot part := by
  rintro o n ⟨range, hrange, rfl, hfirst, hlast⟩
  obtain ⟨covering, hmem, horigin, hle, hge⟩ := coversArrival_iff.mp h range hrange
  exact ⟨covering, hmem, horigin, (Fin.le_def.mp hle).trans hfirst, hlast.trans (Fin.le_def.mp hge)⟩

/-- Where the snapshot's ranges are separated, that is the only way to have them: a range that stops short of the part's
    last arrival would have to be followed right on by another. -/
theorem coversArrival_of_contains {snapshot : CommittedSnapshot} {part : PartRetention}
    (hsep : Separated snapshot.originCoverage) (h : Contains snapshot part) :
    coversArrival snapshot part.originCoverage := by
  refine coversArrival_iff.mpr fun range hrange => ?_
  have hle : (range.firstSeq : ℕ) ≤ range.lastSeq := part.upright range hrange
  obtain ⟨covering, hmem, horigin, hfirst, hin⟩ := h range.origin range.firstSeq ⟨range, hrange, rfl, le_rfl, hle⟩
  refine ⟨covering, hmem, horigin, hfirst, ?_⟩
  by_contra hshort
  have hnext : (covering.lastSeq : ℕ) + 1 ≤ range.lastSeq := not_le.mp hshort
  obtain ⟨other, hother, horigin', hfirst', hin'⟩ := h range.origin (covering.lastSeq + 1 : ℕ)
    ⟨range, hrange, rfl, by omega, hnext⟩
  have hne : covering ≠ other := by
    rintro rfl
    omega
  have hlast := hsep.forall hmem hother hne range.origin covering.lastSeq (covering.lastSeq + 1 : ℕ) ⟨horigin, by omega, le_rfl⟩
    ⟨horigin', hfirst', hin'⟩
  exact hlast.2.1 rfl

end Arrivals

/-! ### Expiries -/

/-- The snapshots the lake has for a part; none where the read-back failed. -/
def snapshotsOf (parts : CommittedParts) (part : PartRetention) : List CommittedSnapshot :=
  match parts part.dataset part.partition with
  | .ok snapshots => snapshots
  | .error _ => []

/-- A guarded part against the snapshots of its dataset and partition. -/
def uncovered (parts : CommittedParts) (part : PartRetention) : Option Finding :=
  if ¬ (snapshotsOf parts part).any (coversArrival · part.originCoverage) then
    some (.uncoveredExpiry part.dataset part.partition part.part part.originCoverage (snapshotsOf parts part).length)
  else none

theorem mem_scopes {partsExpired : List PartRetention} {scope : Scope} :
    scope ∈ (partsExpired.map scopeOf).toFinset.sort (· ≤ ·) ↔ ∃ part ∈ partsExpired, scopeOf part = scope := by
  simp

theorem judgePart_eq {parts : CommittedParts} {covering : OrdMap Scope (List CommittedSnapshot)} {part : PartRetention}
    (h : ∃ snapshots, parts part.dataset part.partition = .ok snapshots ∧ covering[scopeOf part]? = some snapshots) :
    judgePart covering part = uncovered parts part := by
  obtain ⟨snapshots, hparts, hget⟩ := h
  simp [judgePart, uncovered, snapshotsOf, hparts, hget]

/-! ### Last values -/

section Rows

variable {view : LatestView} {state : LastValues}

/-- What a row deserves: its comparison, if an expired part held the winner. -/
def lastValue (unresolved : Finset RowKey) (expired : List PartRetention) (view : LatestView)
    (x : RowKey × ChangelogEntry) : Option Finding :=
  if x.1 ∈ unresolved then none
  else (expired.find? (holds x.1 x.2)).bind fun holder => (LatestView.found view x).map fun f =>
    .lastValueUnreachable f.dataset f.tenant f.key f.expected f.served holder.part

/-- An expired part held the row's winner, and every write of the row was answered. -/
def touched (unresolved : Finset RowKey) (expired : List PartRetention) (x : RowKey × ChangelogEntry) : Bool :=
  x.1 ∉ unresolved ∧ expired.any (holds x.1 x.2)

/-- The views kept are those read. -/
def ReadFrom (view : LatestView) (views : OrdMap DatasetId ServedView) : Prop :=
  ∀ d rows, views[d]? = some rows → view d = .ok rows

theorem withView_spec (hread : ReadFrom view state.servedViews) (d : DatasetId) :
    (∃ views rows, state.withView view d = .ok views ∧ views[d]? = some rows ∧ view d = .ok rows ∧
      ReadFrom view views) ∨
    (∃ reason, state.withView view d = .error reason) ∧ ∃ err, view d = .error err := by
  rcases hget : state.servedViews[d]? with _ | rows
  · rcases hview : view d with err | rows
    · exact .inr ⟨⟨_, by simp only [LastValues.withView, hget, hview]; rfl⟩, err, rfl⟩
    · refine .inl ⟨state.servedViews.insert d rows, rows, by simp only [LastValues.withView, hget, hview],
        OrdMap.get_insert_self .., rfl, fun d' rows' h => ?_⟩
      rw [OrdMap.get_insert] at h
      split_ifs at h with hd
      · cases h
        rw [← hd, hview]
      · exact hread d' rows' h
  · exact .inl ⟨state.servedViews, rows, by simp only [LastValues.withView, hget], hget, hread d rows hget, hread⟩

/-- One row: it is counted if an expired part held its winner and gets what it deserves, or its view cannot be read. -/
theorem checkRow_spec (unresolved : Finset RowKey) (expired : List PartRetention)
    (hread : ReadFrom view state.servedViews) (x : RowKey × ChangelogEntry) :
    (∃ state', checkRow unresolved expired view state x = .ok state' ∧ ReadFrom view state'.servedViews ∧
      state'.checked = state.checked + ([x].filter (touched unresolved expired)).length ∧
      state'.findings = state.findings ++ (lastValue unresolved expired view x).toList) ∨
    (∃ reason, checkRow unresolved expired view state x = .error reason) ∧ ∃ err, view x.1.1 = .error err := by
  by_cases hmem : x.1 ∈ unresolved
  · exact .inl ⟨state, by simp [checkRow, hmem], hread, by simp [touched, hmem], by simp [lastValue, hmem]⟩
  rcases hfind : expired.find? (holds x.1 x.2) with _ | holder
  · have hnone : ∀ part ∈ expired, holds x.1 x.2 part = false := by
      simpa only [List.find?_eq_none, Bool.not_eq_true] using hfind
    refine .inl ⟨state, by simp [checkRow, hmem, hfind], hread, ?_, by simp [lastValue, hmem, hfind]⟩
    have hany : expired.any (holds x.1 x.2) = false := by simpa only [List.any_eq_false, Bool.not_eq_true] using hnone
    simp [touched, hany]
  have htouched : touched unresolved expired x = true := by
    simpa [touched, hmem] using ⟨holder, List.mem_of_find?_eq_some hfind, List.find?_some hfind⟩
  rcases withView_spec hread x.1.1 with ⟨views, rows, hviews, hget, hview, hread'⟩ | ⟨⟨reason, hfail⟩, herr⟩
  · have hserved : LatestView.servedValue views x.1 = LatestView.servedIn view x.1 := by
      simp [LatestView.servedValue, LatestView.servedIn, hget, hview]
    refine .inl ⟨_, by simp only [checkRow, hmem, hfind, hviews]; rfl, hread', by simp [htouched], ?_⟩
    by_cases hne : LatestView.servedIn view x.1 ≠ LatestView.winningValue x.2
    · simp [hserved, lastValue, hmem, hfind, LatestView.found, hne]
    · simp [hserved, lastValue, hmem, hfind, LatestView.found, not_not.mp hne]
  · exact .inr ⟨⟨reason, by simp only [checkRow, hmem, hfind, hfail]; rfl⟩, herr⟩

theorem foldlM_checkRow (unresolved : Finset RowKey) (expired : List PartRetention) (view : LatestView)
    (rows : List (RowKey × ChangelogEntry)) : ∀ state : LastValues, ReadFrom view state.servedViews →
    (∃ state', rows.foldlM (checkRow unresolved expired view) state = .ok state' ∧
      state'.checked = state.checked + (rows.filter (touched unresolved expired)).length ∧
      state'.findings = state.findings ++ rows.filterMap (lastValue unresolved expired view)) ∨
    (∃ reason, rows.foldlM (checkRow unresolved expired view) state = .error reason) ∧
      ∃ x ∈ rows, ∃ err, view x.1.1 = .error err := by
  induction rows with
  | nil => exact fun state _ => .inl ⟨state, rfl, by simp, by simp⟩
  | cons x rows ih =>
    intro state hread
    rw [List.foldlM_cons]
    rcases checkRow_spec unresolved expired hread x with ⟨state', hstep, hread', hchecked, hfindings⟩ |
      ⟨⟨reason, hstep⟩, herr⟩
    · rw [hstep]
      rcases ih state' hread' with ⟨state'', hrun, hcount, hall⟩ | ⟨hrun, x', hx', herr⟩
      · refine .inl ⟨state'', hrun, ?_, ?_⟩
        · rw [hcount, hchecked, Nat.add_assoc, ← List.length_append, ← List.filter_append, List.singleton_append]
        · rw [hall, hfindings, List.filterMap_cons]
          rcases lastValue unresolved expired view x with _ | f
          · simp
          · simp
      · exact .inr ⟨hrun, x', List.mem_cons_of_mem x hx', herr⟩
    · rw [hstep]
      exact .inr ⟨⟨reason, rfl⟩, x, List.mem_cons_self, herr⟩

end Rows

/-! ### The verdict -/

section Outcome

variable {debug : ChangelogEntry → String} {journals : JournalSet} {parts : CommittedParts} {view : LatestView}
  {byRecord : OrdMap RecordSlot ChangelogEntry}

/-- What a run deserves: each guarded expiry and each row in turn. -/
def deserved (journals : JournalSet) (parts : CommittedParts) (view : LatestView)
    (byRecord : OrdMap RecordSlot ChangelogEntry) : List Finding :=
  ((expiredParts journals).filter guarded).filterMap (uncovered parts) ++
    (foldWinners byRecord).toList.filterMap
      (lastValue (LatestView.unresolvedRows journals) (expiredParts journals) view)

theorem findings_conclude (expiriesChecked rowsChecked : ℕ) (fs : List Finding) :
    (conclude expiriesChecked rowsChecked fs).findings = fs := by
  rcases fs with _ | ⟨f, fs⟩
  · simp only [conclude, List.isEmpty_nil, not_true_eq_false, if_false, Verdict.passing]
    split_ifs <;> rfl
  · rfl

/-- The rows an expiry has touched, each with its winner. -/
def touchedRows (journals : JournalSet) (byRecord : OrdMap RecordSlot ChangelogEntry) : List (RowKey × ChangelogEntry) :=
  (foldWinners byRecord).toList.filter (touched (LatestView.unresolvedRows journals) (expiredParts journals))

/-- Where the latest view can be judged, the verdict is withheld for want of an expiry or of a read-back, or rests on what
    the run deserves. -/
theorem check_cases (debug : ChangelogEntry → String) (parts : CommittedParts)
    (hrecords : Records byRecord (journals.changelog .clientAck)) (hacked : journals.changelog .clientAck ≠ [])
    (hviews : ¬ LatestView.Unreadable journals view) :
    ((∃ reason, check debug journals parts view = .noVerdict reason) ∧ (expiredParts journals = [] ∨
      ∃ part ∈ (expiredParts journals).filter guarded, ∃ err, parts part.dataset part.partition = .error err)) ∨
    (∀ part ∈ (expiredParts journals).filter guarded, ∃ snapshots, parts part.dataset part.partition = .ok snapshots) ∧
      check debug journals parts view = conclude ((expiredParts journals).filter guarded).length
        (touchedRows journals byRecord).length (deserved journals parts view byRecord) := by
  by_cases hexpired : expiredParts journals = []
  · exact .inl ⟨⟨_, by simp only [check, hexpired]; rfl⟩, .inl hexpired⟩
  have hsome : (expiredParts journals).isEmpty = false := by
    simpa [List.isEmpty_iff] using hexpired
  rcases OrdMap.fetchAll_spec (fun scope : Scope => parts scope.1 scope.2)
    ((((expiredParts journals).filter guarded).map scopeOf).toFinset.sort (· ≤ ·)) ∅ with
    ⟨covering, hfetch, hin, -⟩ | ⟨scope, hscope, err, hfetch, herr⟩
  · have hparts : ∀ part ∈ (expiredParts journals).filter guarded, ∃ snapshots,
        parts part.dataset part.partition = .ok snapshots ∧ covering[scopeOf part]? = some snapshots := fun part hpart =>
      hin (scopeOf part) (mem_scopes.mpr ⟨part, hpart, rfl⟩)
    refine .inr ⟨fun part hpart => ?_, ?_⟩
    · obtain ⟨snapshots, hok, -⟩ := hparts part hpart
      exact ⟨snapshots, hok⟩
    · have hjudge : ((expiredParts journals).filter guarded).filterMap (judgePart covering) =
          ((expiredParts journals).filter guarded).filterMap (uncovered parts) :=
        List.filterMap_congr fun part hpart => judgePart_eq (hparts part hpart)
      have hempty : (journals.changelog .clientAck).isEmpty = false := by
        simpa [List.isEmpty_iff] using hacked
      rcases foldlM_checkRow (LatestView.unresolvedRows journals) (expiredParts journals) view (foldWinners byRecord).toList
        {} (fun d rows h => by simp at h) with ⟨state, hrun, hchecked, hfindings⟩ | ⟨-, x, hx, err, herr⟩
      · rw [List.nil_append] at hfindings
        rw [Nat.zero_add] at hchecked
        simp only [check, hsome, hfetch, checkLastValues, hempty, hrecords.dedupRecords_eq, hrun, Except.map, hjudge,
          hchecked, hfindings, deserved, touchedRows]
        rfl
      · have hw := LatestView.wins_of_foldWinners hrecords (OrdMap.mem_toList.mp hx)
        have hdataset := congrArg (fun r : RowKey => r.1) hw.row
        exact absurd ⟨x.2, hw.mem, err, by rw [← herr]; exact congrArg view hdataset⟩ hviews
  · obtain ⟨part, hpart, rfl⟩ := mem_scopes.mp hscope
    exact .inl ⟨⟨_, by simp only [check, hsome, hfetch]; rfl⟩, .inr ⟨part, hpart, err, herr⟩⟩

/-- The entry that wins a row of the acked changelog. -/
def winnerOf (journals : JournalSet) (row : RowKey) : Option ChangelogEntry :=
  match dedupRecords (journals.changelog .clientAck) with
  | .ok byRecord => (foldWinners byRecord)[row]?
  | .error _ => none

/-- A finding on the latest view, charged to the first expired part that held the row's winner. -/
def charge (journals : JournalSet) (f : LatestView.Finding) : Option Finding :=
  (winnerOf journals f.row).bind fun winner => ((expiredParts journals).find? (holds f.row winner)).map fun holder =>
    .lastValueUnreachable f.dataset f.tenant f.key f.expected f.served holder.part

def Finding.isLastValue : Finding → Bool
  | uncoveredExpiry .. => false
  | lastValueUnreachable .. => true

theorem winnerOf_eq (h : Records byRecord (journals.changelog .clientAck)) (row : RowKey) :
    winnerOf journals row = (foldWinners byRecord)[row]? := by
  simp only [winnerOf, h.dedupRecords_eq]

/-- The rows get what the latest view's findings get, where these are charged to an expiry. -/
theorem filterMap_lastValue (h : Records byRecord (journals.changelog .clientAck)) :
    (foldWinners byRecord).toList.filterMap (lastValue (LatestView.unresolvedRows journals) (expiredParts journals) view) =
      ((LatestView.judgedRows journals byRecord).filterMap (LatestView.found view)).filterMap (charge journals) := by
  rw [LatestView.judgedRows, List.filterMap_filterMap, List.filterMap_filter]
  refine List.filterMap_congr fun x hx => ?_
  rw [OrdMap.mem_toList] at hx
  by_cases hmem : x.1 ∈ LatestView.unresolvedRows journals
  · simp [lastValue, hmem]
  by_cases hne : LatestView.servedIn view x.1 ≠ LatestView.winningValue x.2
  · have hfound : LatestView.found view x =
        some ⟨x.1.1, x.1.2.1, x.1.2.2, LatestView.winningValue x.2, LatestView.servedIn view x.1⟩ := if_pos hne
    have hcharge : charge journals ⟨x.1.1, x.1.2.1, x.1.2.2, LatestView.winningValue x.2, LatestView.servedIn view x.1⟩ =
        ((expiredParts journals).find? (holds x.1 x.2)).map fun holder => .lastValueUnreachable x.1.1 x.1.2.1 x.1.2.2
          (LatestView.winningValue x.2) (LatestView.servedIn view x.1) holder.part := by
      have hwinner : winnerOf journals x.1 = some x.2 := (winnerOf_eq h x.1).trans hx
      exact congrArg (Option.bind · _) hwinner
    simp [lastValue, hmem, hfound, hcharge, Option.map_eq_bind]
  · simp [lastValue, hmem, LatestView.found, hne]

theorem isSome_charge {f : LatestView.Finding} : (charge journals f).isSome ↔ ∃ w, winnerOf journals f.row = some w ∧
    ∃ part ∈ expiredParts journals, part.dataset = f.dataset ∧ part.partition = w.partition ∧
      Covers part.originCoverage w.origin w.changelogSeq := by
  rcases hwinner : winnerOf journals f.row with _ | w
  · simp [charge, hwinner]
  · simp only [charge, hwinner, Option.bind_some, Option.isSome_map, List.find?_isSome, Option.some.injEq,
      exists_eq_left', holds, decide_eq_true_eq, coverageContains_iff]
    rfl

theorem filter_isLastValue (parts : CommittedParts) (fs : List PartRetention) (gs : List Finding)
    (h : ∀ g ∈ gs, g.isLastValue) : (fs.filterMap (uncovered parts) ++ gs).filter (·.isLastValue) = gs := by
  have hnone : (fs.filterMap (uncovered parts)).filter (·.isLastValue) = [] := by
    refine List.filter_eq_nil_iff.mpr fun f hf => ?_
    obtain ⟨part, -, hpart⟩ := List.mem_filterMap.mp hf
    simp only [uncovered, Option.ite_none_right_eq_some, Option.some.injEq] at hpart
    rw [← hpart.2]
    exact Bool.false_ne_true
  rw [List.filter_append, hnone, List.nil_append, List.filter_eq_self]
  exact h

theorem isLastValue_of_charge {f : LatestView.Finding} {g : Finding} (h : charge journals f = some g) :
    g.isLastValue := by
  obtain ⟨w, -, hw⟩ := Option.bind_eq_some_iff.mp h
  obtain ⟨holder, -, rfl⟩ := Option.map_eq_some_iff.mp hw
  rfl

/-- A run can be judged: something was expired, and the snapshots of what was guarded could be read. -/
def Judgeable (journals : JournalSet) (parts : CommittedParts) : Prop :=
  expiredParts journals ≠ [] ∧ ∀ part ∈ (expiredParts journals).filter guarded, ∃ snapshots,
    parts part.dataset part.partition = .ok snapshots

theorem judgeable_of_conclusive (hret : ¬ (check debug journals parts view).Inconclusive)
    (hlatest : ¬ (LatestView.check debug journals view).Inconclusive) : Judgeable journals parts := by
  refine ⟨fun hnil => hret ?_, ?_⟩
  · simp only [check, hnil]
    trivial
  rcases LatestView.check_cases debug journals view with ⟨⟨reason, hcheck⟩, -⟩ | ⟨byRecord, hrecords, hacked, hviews, -⟩
  · rw [hcheck] at hlatest
    exact absurd trivial hlatest
  rcases check_cases debug parts hrecords hacked hviews with ⟨⟨reason, hverdict⟩, -⟩ | ⟨hparts, -⟩
  · rw [hverdict] at hret
    exact absurd trivial hret
  · exact hparts

/-- A run that can be judged, next to a latest view that can, gets what it deserves: the uncovered expiries, and the latest
    view's findings that are charged to an expiry. -/
theorem findings_check (h : Judgeable journals parts) (hlatest : ¬ (LatestView.check debug journals view).Inconclusive) :
    (check debug journals parts view).findings = ((expiredParts journals).filter guarded).filterMap (uncovered parts) ++
      (LatestView.check debug journals view).findings.filterMap (charge journals) := by
  rcases LatestView.check_cases debug journals view with ⟨⟨reason, hcheck⟩, -⟩ | ⟨byRecord, hrecords, hacked, hviews, hcheck⟩
  · rw [hcheck] at hlatest
    exact absurd trivial hlatest
  rcases check_cases debug parts hrecords hacked hviews with
    ⟨-, hnone | ⟨part, hpart, err, herr⟩⟩ | ⟨-, hverdict⟩
  · exact absurd hnone h.1
  · obtain ⟨snapshots, hok⟩ := h.2 part hpart
    rw [hok] at herr
    cases herr
  · rw [hverdict, findings_conclude, deserved, filterMap_lastValue hrecords, hcheck, LatestView.findings_compared]

theorem mem_uncovered (h : Judgeable journals parts) (hlatest : ¬ (LatestView.check debug journals view).Inconclusive)
    {d : DatasetId} {p : PartitionId} {name : PartName} {coverage : List OriginSeqRange} {considered : ℕ} :
    .uncoveredExpiry d p name coverage considered ∈ (check debug journals parts view).findings ↔
      ∃ part ∈ expiredParts journals, guarded part ∧ part.dataset = d ∧ part.partition = p ∧ part.part = name ∧
        part.originCoverage = coverage ∧ ∃ snapshots, parts d p = .ok snapshots ∧ snapshots.length = considered ∧
          ∀ s ∈ snapshots, coversArrival s coverage = false := by
  have hcharged : .uncoveredExpiry d p name coverage considered ∉
      (LatestView.check debug journals view).findings.filterMap (charge journals) := by
    intro hmem
    obtain ⟨f, -, hf⟩ := List.mem_filterMap.mp hmem
    exact Bool.false_ne_true (isLastValue_of_charge hf)
  rw [findings_check h hlatest, List.mem_append, or_iff_left hcharged, List.mem_filterMap]
  constructor
  · rintro ⟨part, hpart, hfound⟩
    obtain ⟨snapshots, hok⟩ := h.2 part hpart
    obtain ⟨hmem, hguarded⟩ := List.mem_filter.mp hpart
    simp only [uncovered, snapshotsOf, hok, Option.ite_none_right_eq_some, Option.some.injEq,
      Finding.uncoveredExpiry.injEq] at hfound
    obtain ⟨hnone, rfl, rfl, rfl, rfl, rfl⟩ := hfound
    exact ⟨part, hmem, hguarded, rfl, rfl, rfl, rfl, snapshots, hok, rfl, by simpa using hnone⟩
  · rintro ⟨part, hmem, hguarded, rfl, rfl, rfl, rfl, snapshots, hok, rfl, hnone⟩
    refine ⟨part, List.mem_filter.mpr ⟨hmem, hguarded⟩, ?_⟩
    simp only [uncovered, snapshotsOf, hok]
    rw [if_pos]
    simpa using hnone

/-! ### Added lines -/

/-- What a line tells, wherever it stands in its node's journal. -/
def content (line : JournalLine) : JournalLine := { line with seq := 0 }

/-- The line seals or expires a snapshot part. -/
def aboutSnapshot (line : JournalLine) : Bool :=
  (line.event = .snapshotSeal ∨ line.event = .expire) ∧ line.part.any (·.partKind = .snapshot)

/-- The lines of `other` are those of `journals` with lines about snapshot parts added among them. -/
structure AddsSnapshotLines (journals other : JournalSet) : Prop where
  kept : (journals.lines.map content).Sublist (other.lines.map content)
  added : (other.lines.map content).filter (! aboutSnapshot ·) = (journals.lines.map content).filter (! aboutSnapshot ·)

section Added

variable {other : JournalSet} {β : Type}

/-- What lines about snapshot parts do not tell is told alike. -/
theorem AddsSnapshotLines.filterMap_eq (h : AddsSnapshotLines journals other) (tells : JournalLine → Option β)
    (hseq : ∀ line, tells (content line) = tells line) (hnone : ∀ line, aboutSnapshot line → tells line = none) :
    other.lines.filterMap tells = journals.lines.filterMap tells := by
  have hfilter : ∀ lines : List JournalLine,
      ((lines.map content).filter (! aboutSnapshot ·)).filterMap tells = lines.filterMap tells := by
    intro lines
    rw [List.filterMap_filter, List.filterMap_map]
    refine List.filterMap_congr fun line _ => ?_
    rw [Function.comp_apply, hseq]
    rcases hsnap : aboutSnapshot (content line) with _ | _
    · rfl
    · rw [← hseq, hnone _ hsnap]
      rfl
  rw [← hfilter, h.added, hfilter]

theorem AddsSnapshotLines.changelog_eq (h : AddsSnapshotLines journals other) {event : TraceEvent}
    (hseal : event ≠ .snapshotSeal) (hexpire : event ≠ .expire) : other.changelog event = journals.changelog event := by
  have hmap : ∀ set : JournalSet, set.changelog event =
      set.lines.filterMap fun line => if line.event = event then line.changelog else none := by
    intro set
    rw [JournalSet.changelog, JournalSet.changelogEvents, List.map_filterMap]
    refine List.filterMap_congr fun line _ => ?_
    split_ifs
    · simp
    · rfl
  rw [hmap, hmap]
  refine h.filterMap_eq _ (fun _ => rfl) fun line hsnap => if_neg ?_
  simp only [aboutSnapshot, decide_eq_true_eq] at hsnap
  rintro rfl
  rcases hsnap.1 with hevent | hevent
  · exact hseal hevent
  · exact hexpire hevent

/-- The part a line retires. -/
def retired (line : JournalLine) : Option PartRetention := if line.event = .expire then line.part else none

theorem expiredParts_eq (set : JournalSet) : expiredParts set = set.lines.filterMap retired := by
  rw [expiredParts, JournalSet.partEvents, List.map_filterMap]
  refine List.filterMap_congr fun line _ => ?_
  simp only [retired]
  split_ifs
  · simp
  · rfl

/-- The part is no snapshot. -/
def ordinary (part : PartRetention) : Bool := part.partKind ≠ .snapshot

theorem AddsSnapshotLines.ordinary_eq (h : AddsSnapshotLines journals other) :
    (expiredParts other).filter ordinary = (expiredParts journals).filter ordinary := by
  rw [expiredParts_eq, expiredParts_eq, List.filter_filterMap, List.filter_filterMap]
  refine h.filterMap_eq _ (fun _ => rfl) fun line hsnap => ?_
  simp only [aboutSnapshot, decide_eq_true_eq, Option.any_eq_true] at hsnap
  obtain ⟨-, part, hpart, hkind⟩ := hsnap
  rw [Option.filter_eq_none_iff]
  intro part' hpart'
  simp only [retired, Option.ite_none_right_eq_some, hpart, Option.some.injEq] at hpart'
  obtain ⟨-, rfl⟩ := hpart'
  simp [ordinary, hkind]

theorem AddsSnapshotLines.guarded_eq (h : AddsSnapshotLines journals other) :
    (expiredParts other).filter guarded = (expiredParts journals).filter guarded := by
  have hsplit : ∀ l : List PartRetention,
      l.filter guarded = (l.filter ordinary).filter fun part => part.datasetKind = .changelog := by
    intro l
    rw [List.filter_filter]
    refine List.filter_congr fun part _ => ?_
    simp [guarded, ordinary]
  rw [hsplit, h.ordinary_eq, hsplit]

theorem AddsSnapshotLines.expired_sublist (h : AddsSnapshotLines journals other) :
    (expiredParts journals).Sublist (expiredParts other) := by
  have hcontent : ∀ set : JournalSet, expiredParts set = (set.lines.map content).filterMap retired := by
    intro set
    rw [expiredParts_eq, List.filterMap_map]
    rfl
  rw [hcontent, hcontent]
  exact h.kept.filterMap retired

/-- The first of a list is the first of a sublist that keeps all its like. -/
theorem find?_of_sublist {α : Type} {l l' : List α} (test like : α → Bool) (h : l.Sublist l')
    (hlike : l'.filter like = l.filter like) {a : α} (ha : l'.find? test = some a) (hlikea : like a) :
    l.find? test = some a := by
  induction h with
  | slnil => exact ha
  | @cons l l' x hsub ih =>
    have hx : like x = false := by
      by_contra hx
      have hlen := congrArg List.length hlike
      rw [List.filter_cons_of_pos (Bool.not_eq_false _ ▸ hx), List.length_cons] at hlen
      have hle := (hsub.filter like).length_le
      omega
    rw [List.filter_cons_of_neg (by simp [hx])] at hlike
    rw [List.find?_cons] at ha
    rcases htest : test x with _ | _
    · rw [htest] at ha
      exact ih hlike ha
    · rw [htest] at ha
      cases ha
      rw [hx] at hlikea
      cases hlikea
  | @cons_cons l l' x hsub ih =>
    have hrest : l'.filter like = l.filter like := by
      rcases hx : like x with _ | _
      · simpa [hx] using hlike
      · simpa [hx] using hlike
    rw [List.find?_cons] at ha ⊢
    rcases htest : test x with _ | _
    · rw [htest] at ha
      exact ih hrest ha
    · rw [htest] at ha
      exact ha

/-- The expired part a finding names, where it is one on a last value. -/
def Finding.expiredPart : Finding → Option PartName
  | uncoveredExpiry .. => none
  | lastValueUnreachable _ _ _ _ _ part => some part

/-- A finding without the name of the expired part. -/
def Finding.unnamed : Finding → Finding
  | uncoveredExpiry dataset partition part coverage snapshots => .uncoveredExpiry dataset partition part coverage snapshots
  | lastValueUnreachable dataset tenant key expected served _ =>
    .lastValueUnreachable dataset tenant key expected served ⟨""⟩

/-- A charge stands, though it may name an added expiry. -/
theorem AddsSnapshotLines.charge_eq (h : AddsSnapshotLines journals other) {f : LatestView.Finding} {g : Finding}
    (hg : charge journals f = some g) : ∃ g', charge other f = some g' ∧ (g' = g ∨ g'.unnamed = g.unnamed ∧
      ∃ part ∈ expiredParts other, part.partKind = .snapshot ∧ g'.expiredPart = some part.part) := by
  have hwinner : winnerOf other f.row = winnerOf journals f.row := by
    rw [winnerOf, h.changelog_eq (by decide) (by decide), winnerOf]
  obtain ⟨w, hw, hfind⟩ := Option.bind_eq_some_iff.mp hg
  obtain ⟨holder, hholder, rfl⟩ := Option.map_eq_some_iff.mp hfind
  have hsome : ((expiredParts other).find? (holds f.row w)).isSome := List.find?_isSome.mpr
    ⟨holder, h.expired_sublist.subset (List.mem_of_find?_eq_some hholder), List.find?_some hholder⟩
  obtain ⟨part, hpart⟩ := Option.isSome_iff_exists.mp hsome
  refine ⟨.lastValueUnreachable f.dataset f.tenant f.key f.expected f.served part.part, ?_, ?_⟩
  · rw [charge, hwinner, hw, Option.bind_some, hpart]
    rfl
  · by_cases hkind : part.partKind = .snapshot
    · exact .inr ⟨rfl, part, List.mem_of_find?_eq_some hpart, hkind, rfl⟩
    · have hfirst := find?_of_sublist (holds f.row w) ordinary h.expired_sublist h.ordinary_eq hpart
        (decide_eq_true hkind)
      rw [hholder] at hfirst
      cases hfirst
      exact .inl rfl

/-- The latest view is judged alike. -/
theorem AddsSnapshotLines.latest_eq (h : AddsSnapshotLines journals other) (debug : ChangelogEntry → String)
    (view : LatestView) : LatestView.check debug other view = LatestView.check debug journals view := by
  have hacked : other.changelog .clientAck = journals.changelog .clientAck := h.changelog_eq (by decide) (by decide)
  have hunresolved : LatestView.unresolvedRows other = LatestView.unresolvedRows journals := by
    rw [LatestView.unresolvedRows, h.changelog_eq (by decide) (by decide), LatestView.unresolvedRows]
  simp only [LatestView.check, hacked, hunresolved]

theorem AddsSnapshotLines.judgeable (h : AddsSnapshotLines journals other) (hj : Judgeable journals parts) :
    Judgeable other parts := by
  refine ⟨fun hnil => ?_, ?_⟩
  · obtain ⟨part, hpart⟩ := List.exists_mem_of_ne_nil _ hj.1
    exact List.not_mem_nil (hnil ▸ h.expired_sublist.subset hpart)
  · rw [h.guarded_eq]
    exact hj.2

/-- No finding is lost by added lines, but for the name of the part. -/
theorem AddsSnapshotLines.finding (h : AddsSnapshotLines journals other) (hj : Judgeable journals parts)
    (hlatest : ¬ (LatestView.check debug journals view).Inconclusive) {f : Finding}
    (hf : f ∈ (check debug journals parts view).findings) :
    ∃ f' ∈ (check debug other parts view).findings, f' = f ∨ f'.unnamed = f.unnamed ∧
      ∃ part ∈ expiredParts other, part.partKind = .snapshot ∧ f'.expiredPart = some part.part := by
  have hother : ¬ (LatestView.check debug other view).Inconclusive := by rwa [h.latest_eq]
  rw [findings_check hj hlatest, List.mem_append] at hf
  rw [findings_check (h.judgeable hj) hother, h.guarded_eq, h.latest_eq]
  rcases hf with hf | hf
  · exact ⟨f, List.mem_append_left _ hf, .inl rfl⟩
  · obtain ⟨found, hfound, hcharge⟩ := List.mem_filterMap.mp hf
    obtain ⟨g, hg, hsame⟩ := h.charge_eq hcharge
    exact ⟨g, List.mem_append_right _ (List.mem_filterMap.mpr ⟨found, hfound, hg⟩), hsame⟩

end Added

end Outcome

/-- **Retention honesty is sound and complete**, wherever neither its own verdict nor the latest view's is withheld. A
    guarded expiry no single snapshot of its partition has the arrivals of is reported; where the snapshots' ranges are
    separated, no other is. The last-value findings are the latest view's, of the rows whose winner an expired part held.
    Added lines about snapshot parts lose no finding: an uncovered expiry stays as it is, and a last value stays with
    its row and its values, though an added expiry may be the one it names. -/
theorem retention_exact (debug : ChangelogEntry → String) (journals : JournalSet) (parts : CommittedParts)
    (view : LatestView) (hret : ¬ (check debug journals parts view).Inconclusive)
    (hlatest : ¬ (LatestView.check debug journals view).Inconclusive) :
    (∀ part ∈ expiredParts journals, guarded part → ∃ snapshots, parts part.dataset part.partition = .ok snapshots ∧
      ((∀ s ∈ snapshots, ¬ Contains s part) → .uncoveredExpiry part.dataset part.partition part.part part.originCoverage
        snapshots.length ∈ (check debug journals parts view).findings) ∧
      ((∀ s ∈ snapshots, Separated s.originCoverage) → .uncoveredExpiry part.dataset part.partition part.part
        part.originCoverage snapshots.length ∈ (check debug journals parts view).findings →
          ∀ s ∈ snapshots, ¬ Contains s part)) ∧
    (∀ d p name coverage considered, .uncoveredExpiry d p name coverage considered ∈
      (check debug journals parts view).findings → ∃ part ∈ expiredParts journals, guarded part ∧ part.dataset = d ∧
        part.partition = p ∧ part.part = name ∧ part.originCoverage = coverage) ∧
    (check debug journals parts view).findings.filter (·.isLastValue) =
      (LatestView.check debug journals view).findings.filterMap (charge journals) ∧
    (∀ f : LatestView.Finding, (charge journals f).isSome ↔ ∃ w, winnerOf journals f.row = some w ∧
      ∃ part ∈ expiredParts journals, part.dataset = f.dataset ∧ part.partition = w.partition ∧
        Covers part.originCoverage w.origin w.changelogSeq) ∧
    ∀ other, AddsSnapshotLines journals other → ∀ f ∈ (check debug journals parts view).findings,
      ∃ f' ∈ (check debug other parts view).findings, f' = f ∨ f'.unnamed = f.unnamed ∧
        ∃ part ∈ expiredParts other, part.partKind = .snapshot ∧ f'.expiredPart = some part.part := by
  have hj := judgeable_of_conclusive hret hlatest
  refine ⟨fun part hpart hguarded => ?_, ?_, ?_, fun f => isSome_charge, fun other h f hf => h.finding hj hlatest hf⟩
  · obtain ⟨snapshots, hok⟩ := hj.2 part (List.mem_filter.mpr ⟨hpart, hguarded⟩)
    refine ⟨snapshots, hok, fun hnone => ?_, fun hsep hfound s hs hcontains => ?_⟩
    · refine (mem_uncovered hj hlatest).mpr ⟨part, hpart, hguarded, rfl, rfl, rfl, rfl, snapshots, hok, rfl, fun s hs => ?_⟩
      exact Bool.eq_false_iff.mpr fun hcovers => hnone s hs (contains_of_coversArrival hcovers)
    · obtain ⟨-, -, -, -, -, -, -, snapshots', hok', -, hnone⟩ := (mem_uncovered hj hlatest).mp hfound
      rw [hok] at hok'
      cases hok'
      have hcovers := coversArrival_of_contains (hsep s hs) hcontains
      rw [hnone s hs] at hcovers
      cases hcovers
  · intro d p name coverage considered hfound
    obtain ⟨part, hpart, hguarded, hd, hp, hname, hcoverage, -⟩ := (mem_uncovered hj hlatest).mp hfound
    exact ⟨part, hpart, hguarded, hd, hp, hname, hcoverage⟩
  · rw [findings_check hj hlatest]
    refine filter_isLastValue parts _ _ fun g hg => ?_
    obtain ⟨f, -, hf⟩ := List.mem_filterMap.mp hg
    exact isLastValue_of_charge hf

/-- A part of the accounts' changelog with the arrivals 1 to 9. -/
def accountsPart (name : PartName) (kind : PartKind) : PartRetention where
  dataset := ⟨"accounts"⟩
  partition := ⟨"acme.0"⟩
  part := name
  partKind := kind
  datasetKind := .changelog
  originCoverage := [⟨⟨"n1"⟩, 1, 9⟩]
  covered := by decide
  upright := by decide

/-- An acked account, and the expiry of the part that held it. -/
def expiredAccount : JournalSet where
  lines := [
    { node := ⟨"n1"⟩, seq := 0, event := .clientAck, changelog := some (accountEntry (accountRow "a" 1 "free")) },
    { node := ⟨"n1"⟩, seq := 1, event := .expire, part := some (accountsPart ⟨"obj-1"⟩ .primary) }]

/-- The same, with the expiry of a snapshot journaled first. -/
def expiredSnapshotToo : JournalSet where
  lines := [
    { node := ⟨"n1"⟩, seq := 0, event := .clientAck, changelog := some (accountEntry (accountRow "a" 1 "free")) },
    { node := ⟨"n1"⟩, seq := 1, event := .expire, part := some (accountsPart ⟨"snap-1"⟩ .snapshot) },
    { node := ⟨"n1"⟩, seq := 2, event := .expire, part := some (accountsPart ⟨"obj-1"⟩ .primary) }]

/-- A snapshot without the arrival 5. -/
def snapshotWithGap : CommittedSnapshot where
  dataset := ⟨"accounts"⟩
  partition := ⟨"acme.0"⟩
  part := ⟨"snap-2"⟩
  originCoverage := [⟨⟨"n1"⟩, 1, 4⟩, ⟨⟨"n1"⟩, 6, 9⟩]

def gapCommitted : CommittedParts := fun _ _ => .ok [snapshotWithGap]

def nothingServed : LatestView := fun _ => .ok ∅

theorem separated_snapshotWithGap : Separated snapshotWithGap.originCoverage := by
  refine List.pairwise_pair.mpr fun o m n hm hn => ?_
  obtain ⟨-, -, hm⟩ := hm
  obtain ⟨-, hn, -⟩ := hn
  have hm : m ≤ 4 := hm
  have hn : 6 ≤ n := hn
  omega

theorem check_expiredAccount : check (fun _ => "") expiredAccount gapCommitted nothingServed = .violation [
    .uncoveredExpiry ⟨"accounts"⟩ ⟨"acme.0"⟩ ⟨"obj-1"⟩ [⟨⟨"n1"⟩, 1, 9⟩] 1,
    .lastValueUnreachable ⟨"accounts"⟩ ⟨"acme"⟩ "a" (some "free") none ⟨"obj-1"⟩] := by
  decide +kernel

theorem latest_expiredAccount : LatestView.check (fun _ => "") expiredAccount nothingServed =
    .violation [⟨⟨"accounts"⟩, ⟨"acme"⟩, "a", some "free", none⟩] := by
  decide +kernel

/-- No snapshot has the arrivals of the expired part, whose account is no longer served. -/
theorem retention_exact_gap :
    check (fun _ => "") expiredAccount gapCommitted nothingServed = .violation [
      .uncoveredExpiry ⟨"accounts"⟩ ⟨"acme.0"⟩ ⟨"obj-1"⟩ [⟨⟨"n1"⟩, 1, 9⟩] 1,
      .lastValueUnreachable ⟨"accounts"⟩ ⟨"acme"⟩ "a" (some "free") none ⟨"obj-1"⟩] ∧
    ¬ Contains snapshotWithGap (accountsPart ⟨"obj-1"⟩ .primary) := by
  obtain ⟨hcovered, -⟩ := retention_exact (fun _ => "") expiredAccount gapCommitted nothingServed
    (by rw [check_expiredAccount]; exact not_false) (by rw [latest_expiredAccount]; exact not_false)
  refine ⟨check_expiredAccount, ?_⟩
  obtain ⟨snapshots, hok, -, honly⟩ := hcovered (accountsPart ⟨"obj-1"⟩ .primary) List.mem_cons_self (by decide)
  obtain rfl : [snapshotWithGap] = snapshots := Except.ok.inj hok
  refine honly (fun s hs => ?_) (by rw [check_expiredAccount]; exact List.mem_cons_self)
    snapshotWithGap List.mem_cons_self
  rw [List.mem_singleton.mp hs]
  exact separated_snapshotWithGap

/-- An added expiry of a snapshot takes a finding's place: the account's is told of the snapshot from then on. -/
theorem added_expiry_renames :
    AddsSnapshotLines expiredAccount expiredSnapshotToo ∧
    ¬ (check (fun _ => "") expiredAccount gapCommitted nothingServed).Inconclusive ∧
    ¬ (LatestView.check (fun _ => "") expiredAccount nothingServed).Inconclusive ∧
    ∃ f ∈ (check (fun _ => "") expiredAccount gapCommitted nothingServed).findings,
      f ∉ (check (fun _ => "") expiredSnapshotToo gapCommitted nothingServed).findings := by
  refine ⟨⟨by decide, by decide⟩, by rw [check_expiredAccount]; exact not_false,
    by rw [latest_expiredAccount]; exact not_false,
    .lastValueUnreachable ⟨"accounts"⟩ ⟨"acme"⟩ "a" (some "free") none ⟨"obj-1"⟩, ?_, by decide +kernel⟩
  rw [check_expiredAccount]
  decide

end Retention

end Duckspout
