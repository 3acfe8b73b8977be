import Duckspout.Judge.AckedLost
import Duckspout.Judge.CacheTransparency
import Duckspout.Judge.Retention
import Duckspout.Judge.Vacuity
import Duckspout.Judge.WatermarkHonesty

/-! The order of the lines: every predicate and every run-level rule answers with the same exit code for the same lines in
    any order. What is reported first, and which of two conflicts is named, may differ. -/

namespace Duckspout

theorem Verdict.Agree.exitCode_eq {F : Type} {v w : Verdict F} (h : v.Agree w) : v.exitCode = w.exitCode := by
  cases h <;> rfl

variable {journals other : JournalSet}

theorem JournalSet.changelog_empty (h : other.lines.Perm journals.lines) (event : TraceEvent) :
    (other.changelog event).isEmpty = (journals.changelog event).isEmpty := by
  have hperm : (other.changelog event).Perm (journals.changelog event) := (h.filterMap _).map _
  rw [Bool.eq_iff_iff, List.isEmpty_iff, List.isEmpty_iff, ← List.length_eq_zero_iff, hperm.length_eq,
    List.length_eq_zero_iff]

/-! ### Retention -/

namespace Retention

/-- Two runs of the second half that differ at most in the expired part a finding names. -/
structure LastValues.Similar (a b : LastValues) : Prop where
  views : a.servedViews = b.servedViews
  checked : a.checked = b.checked
  count : a.findings.length = b.findings.length

variable {expired expired' : List PartRetention} (view : LatestView) (unresolved : Finset RowKey)

/-- A row is checked alike whichever of the expired parts is found to hold its winner. -/
theorem checkRow_similar (h : ∀ row winner, (expired.find? (holds row winner)).isSome = (expired'.find? (holds row winner)).isSome)
    {a b : LastValues} (hab : a.Similar b) (x : RowKey × ChangelogEntry) :
    (∃ a' b', checkRow unresolved expired view a x = .ok a' ∧ checkRow unresolved expired' view b x = .ok b' ∧ a'.Similar b') ∨
      (∃ e, checkRow unresolved expired view a x = .error e) ∧ ∃ e, checkRow unresolved expired' view b x = .error e := by
  simp only [checkRow]
  by_cases hmem : x.1 ∈ unresolved
  · rw [if_pos hmem, if_pos hmem]
    exact Or.inl ⟨a, b, rfl, rfl, hab⟩
  rw [if_neg hmem, if_neg hmem]
  have hfound := h x.1 x.2
  have hviews : a.withView view x.1.1 = b.withView view x.1.1 := by
    simp only [LastValues.withView, hab.views]
  rcases hholder : expired.find? (holds x.1 x.2) with _ | holder
  · rcases hholder' : expired'.find? (holds x.1 x.2) with _ | holder'
    · exact Or.inl ⟨a, b, rfl, rfl, hab⟩
    · rw [hholder, hholder'] at hfound
      cases hfound
  · rcases hholder' : expired'.find? (holds x.1 x.2) with _ | holder'
    · rw [hholder, hholder'] at hfound
      cases hfound
    · dsimp only
      rw [hviews]
      rcases b.withView view x.1.1 with e | views
      · exact Or.inr ⟨⟨e, rfl⟩, e, rfl⟩
      · refine Or.inl ⟨_, _, rfl, rfl, ⟨rfl, congrArg (· + 1) hab.checked, ?_⟩⟩
        dsimp only
        split_ifs
        · rw [List.length_append, List.length_append, hab.count]
          rfl
        · exact hab.count

theorem foldlM_checkRow_similar
    (h : ∀ row winner, (expired.find? (holds row winner)).isSome = (expired'.find? (holds row winner)).isSome)
    (rows : List (RowKey × ChangelogEntry)) : ∀ {a b : LastValues}, a.Similar b →
    (∃ a' b', rows.foldlM (checkRow unresolved expired view) a = .ok a' ∧
      rows.foldlM (checkRow unresolved expired' view) b = .ok b' ∧ a'.Similar b') ∨
    (∃ e, rows.foldlM (checkRow unresolved expired view) a = .error e) ∧
      ∃ e, rows.foldlM (checkRow unresolved expired' view) b = .error e := by
  induction rows with
  | nil => exact fun hab => Or.inl ⟨_, _, rfl, rfl, hab⟩
  | cons x rows ih =>
    intro a b hab
    rw [List.foldlM_cons, List.foldlM_cons]
    rcases checkRow_similar view unresolved h hab x with
      ⟨a', b', ha, hb, hab'⟩ | ⟨⟨e, ha⟩, e', hb⟩
    · rw [ha, hb]
      exact ih hab'
    · rw [ha, hb]
      exact Or.inr ⟨⟨e, rfl⟩, e', rfl⟩

/-- The second half checks as many rows and finds as many, or fails in both. -/
theorem checkLastValues_perm (debug : ChangelogEntry → String) (h : other.lines.Perm journals.lines)
    (hexpired : expired.Perm expired') :
    (∃ n fs fs', checkLastValues debug other expired view = .ok (n, fs) ∧
      checkLastValues debug journals expired' view = .ok (n, fs') ∧ fs.length = fs'.length) ∨
    (∃ e, checkLastValues debug other expired view = .error e) ∧ ∃ e, checkLastValues debug journals expired' view = .error e := by
  have hsame : ∀ event e, e ∈ other.changelog event ↔ e ∈ journals.changelog event := by
    intro event e
    simp only [JournalSet.mem_changelog, h.mem_iff]
  have hunresolved : LatestView.unresolvedRows other = LatestView.unresolvedRows journals := by
    ext row
    simp only [LatestView.mem_unresolvedRows, LatestView.TimedOut, hsame]
  have hconflict : Conflicting (other.changelog .clientAck) ↔ Conflicting (journals.changelog .clientAck) := by
    simp only [Conflicting, hsame]
  have hfind : ∀ row winner, (expired.find? (holds row winner)).isSome = (expired'.find? (holds row winner)).isSome := by
    intro row winner
    rw [Bool.eq_iff_iff, List.find?_isSome, List.find?_isSome]
    simp only [hexpired.mem_iff]
  simp only [checkLastValues, JournalSet.changelog_empty h, hunresolved]
  split_ifs
  · exact Or.inl ⟨0, [], [], rfl, rfl, rfl⟩
  rcases dedupRecords_cases (journals.changelog .clientAck) with ⟨⟨byRecord, hdedup, hrecords⟩, hno⟩ | ⟨⟨c, hdedup⟩, hyes⟩
  · have hrecords' : Records byRecord (other.changelog .clientAck) := by
      intro k e
      rw [hrecords, hsame]
    rw [hdedup, hrecords'.dedupRecords_eq]
    rcases foldlM_checkRow_similar view (LatestView.unresolvedRows journals) hfind
      (foldWinners byRecord).toList (a := {}) ⟨rfl, rfl, rfl⟩ with ⟨a, b, ha, hb, hab⟩ | ⟨⟨e, ha⟩, e', hb⟩
    · refine Or.inl ⟨b.checked, a.findings, b.findings, ?_, ?_, hab.count⟩
      · simp only [ha, Except.map, hab.checked]
      · simp only [hb, Except.map]
    · refine Or.inr ⟨⟨e, ?_⟩, e', ?_⟩
      · simp only [ha, Except.map]
      · simp only [hb, Except.map]
  · rcases dedupRecords_cases (other.changelog .clientAck) with ⟨-, hno⟩ | ⟨⟨c', hdedup'⟩, -⟩
    · exact absurd (hconflict.mpr hyes) hno
    · rw [hdedup, hdedup']
      exact Or.inr ⟨⟨_, rfl⟩, _, rfl⟩

/-- What is concluded rests on the counts and on whether anything was found. -/
theorem exitCode_conclude {expiries rows : ℕ} {fs fs' : List Finding} (h : fs.length = fs'.length) :
    (conclude expiries rows fs).exitCode = (conclude expiries rows fs').exitCode := by
  have hempty : fs.isEmpty = fs'.isEmpty := by
    rw [Bool.eq_iff_iff, List.isEmpty_iff, List.isEmpty_iff, ← List.length_eq_zero_iff, h, List.length_eq_zero_iff]
  simp only [conclude, hempty]
  split_ifs <;> rfl

theorem exitCode_perm (debug : ChangelogEntry → String) (h : other.lines.Perm journals.lines) (parts : CommittedParts)
    (view : LatestView) : (check debug other parts view).exitCode = (check debug journals parts view).exitCode := by
  have hexpired : (expiredParts other).Perm (expiredParts journals) := (h.filterMap _).map _
  have hguarded := hexpired.filter (guarded ·)
  have hscopes : (((expiredParts other).filter guarded).map scopeOf).toFinset =
      (((expiredParts journals).filter guarded).map scopeOf).toFinset := List.toFinset_eq_of_perm _ _ (hguarded.map _)
  have hempty : (expiredParts other).isEmpty = (expiredParts journals).isEmpty := by
    rw [Bool.eq_iff_iff, List.isEmpty_iff, List.isEmpty_iff, ← List.length_eq_zero_iff, hexpired.length_eq,
      List.length_eq_zero_iff]
  simp only [check, hscopes, hempty]
  split_ifs
  · rfl
  rcases OrdMap.fetchAll (fun scope : Scope => parts scope.1 scope.2)
    ((((expiredParts journals).filter guarded).map scopeOf).toFinset.sort (· ≤ ·)) ∅ with err | covering
  · rfl
  dsimp only
  rcases checkLastValues_perm view debug h hexpired with ⟨n, fs, fs', hother, hjournals, hcount⟩ |
    ⟨⟨e, hother⟩, e', hjournals⟩
  · rw [hother, hjournals]
    dsimp only
    rw [hguarded.length_eq]
    refine exitCode_conclude ?_
    rw [List.length_append, List.length_append, (hguarded.filterMap _).length_eq, hcount]
  · rw [hother, hjournals]
    rfl

end Retention

/-! ### The other predicates -/

theorem LatestView.exitCode_perm (debug : ChangelogEntry → String) (h : other.lines.Perm journals.lines) (view : LatestView) :
    (LatestView.check debug other view).exitCode = (LatestView.check debug journals view).exitCode := by
  have hsame : LatestView.check debug other view = LatestView.check debug journals view ∨ _ :=
    LatestView.check_sameLines fun line => h.mem_iff
  rcases hsame with hsame | ⟨-, hother, hjournals⟩
  · rw [hsame]
  · cases hv : LatestView.check debug other view with
    | noVerdict r =>
      cases hw : LatestView.check debug journals view with
      | noVerdict s => rfl
      | pass n => rw [hw] at hjournals; exact hjournals.elim
      | violation fs => rw [hw] at hjournals; exact hjournals.elim
    | pass n => rw [hv] at hother; exact hother.elim
    | violation fs => rw [hv] at hother; exact hother.elim

theorem WatermarkHonesty.exitCode_perm (h : other.lines.Perm journals.lines) (reads : List ReadRecord) :
    (WatermarkHonesty.check other reads).exitCode = (WatermarkHonesty.check journals reads).exitCode := by
  by_cases hclaims : journals.watermarkClaims = []
  · have hperm : other.watermarkClaims.Perm journals.watermarkClaims := h.filterMap _
    have hother : other.watermarkClaims = [] := List.perm_nil.mp (hclaims ▸ hperm)
    simp only [WatermarkHonesty.check, WatermarkHonesty.claimsOf, hclaims, hother]
    rfl
  · exact (WatermarkHonesty.check_merged hclaims h reads).exitCode_eq

theorem CacheTransparency.exitCode_lines (h : other.lines.Perm journals.lines) (reads : List ReadRecord) (ceilingMs : ℕ) :
    CacheTransparency.check other reads ceilingMs = CacheTransparency.check journals reads ceilingMs := by
  have hcount : other.residencyActionCount = journals.residencyActionCount := (h.filter _).length_eq
  simp only [CacheTransparency.check, hcount]

/-! ### The run-level rules -/

section

variable {lines lines' : List PlacedLine} (manifest : Option RunManifest) (ledger : Option FaultLedger)

theorem nodesMet_perm (h : other.lines.Perm journals.lines) : NodesMet other manifest ↔ NodesMet journals manifest := by
  simp only [NodesMet, RosterJournaled, h.mem_iff]

theorem noneVanished_perm (h : other.lines.Perm journals.lines) (budgetMs : U64) :
    NoneVanished other manifest ledger budgetMs ↔ NoneVanished journals manifest ledger budgetMs := by
  have hhosts : ∀ host, host ∈ ingestedHosts other ↔ host ∈ ingestedHosts journals := fun host => (h.map _).mem_iff
  simp only [NoneVanished, Convicted, hhosts]

theorem loadgensEnded_perm (reader : JournalReader) (display : DecodeError → String) (ceiling : AmbiguityCeiling)
    (h : lines.Perm lines') : LoadgensEnded reader display ceiling lines ↔ LoadgensEnded reader display ceiling lines' := by
  simp only [LoadgensEnded, h.mem_iff]

end

end Duckspout
