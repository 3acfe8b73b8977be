import Duckspout.Staging.Dedup

/-! The cap on the dedup window (`dedup_evict` in `duckspout-staging/src/engine.rs`). A call inserts its entry and then
    evicts the oldest entries beyond the cap, by recorded wall time and in one transaction. The new entry is the
    youngest only if the clock has not gone back, so it may be among the evicted. -/

namespace Duckspout

/-! ### The smallest of a list -/

section Sorted

variable {α β : Type} [LinearOrder β] {f : α → β} {l : List α} {a : α}

theorem mem_take_split {pre post : List α} (hpre : a ∉ pre) (k : ℕ) : a ∈ (pre ++ a :: post).take k ↔ pre.length < k := by
  rw [List.take_append]
  constructor
  · intro hmem
    by_contra hle
    rw [Nat.sub_eq_zero_of_le (Nat.not_lt.mp hle), List.take_zero, List.append_nil] at hmem
    exact hpre (List.mem_of_mem_take hmem)
  · intro hlt
    obtain ⟨j, hj⟩ := Nat.exists_eq_add_of_lt hlt
    have hrest : k - pre.length = j + 1 := by omega
    rw [hrest, List.take_succ_cons]
    exact List.mem_append_right _ List.mem_cons_self

/-- A member is not among the `k` least by `f` when fewer than all others but `k` are above it. -/
theorem notMem_take_insertionSort (hl : (l.map f).Nodup) (ha : a ∈ l) (k : ℕ) :
    a ∉ (l.insertionSort (f · ≤ f ·)).take k ↔ (l.countP fun b => f a < f b) + k < l.length := by
  have hperm := List.perm_insertionSort (f · ≤ f ·) l
  have hnodup : ((l.insertionSort (f · ≤ f ·)).map f).Nodup := (hperm.map f).nodup_iff.mpr hl
  have hsorted := List.pairwise_insertionSort (fun x y : α => f x ≤ f y) l
  have hstrict := (hsorted.and (List.pairwise_map.mp hnodup)).imp fun {x y} h => lt_of_le_of_ne h.1 h.2
  obtain ⟨pre, post, hsplit⟩ := List.append_of_mem (hperm.mem_iff.mpr ha)
  rw [← hperm.countP_eq, ← hperm.length_eq, hsplit]
  rw [hsplit, List.pairwise_append, List.pairwise_cons] at hstrict
  obtain ⟨-, ⟨hpost, -⟩, hpre⟩ := hstrict
  have hbelow : pre.countP (fun b => f a < f b) = 0 := by
    refine List.countP_eq_zero.mpr fun b hb => ?_
    simpa using (hpre b hb a List.mem_cons_self).le
  have habove : post.countP (fun b => f a < f b) = post.length := by
    refine List.countP_eq_length.mpr fun b hb => ?_
    simpa using hpost b hb
  have hnot : a ∉ pre := fun hmem => lt_irrefl _ (hpre a hmem a List.mem_cons_self)
  rw [mem_take_split hnot, List.countP_append, List.countP_cons_of_neg (by simp), hbelow, habove, List.length_append,
    List.length_cons]
  omega

end Sorted

/-! ### Entries by age -/

/-- The primary key of the table: no two entries have one. -/
def DedupKeyed (rows : List DedupRow) : Prop := (rows.map fun r => (r.tenant, r.dedupKey)).Nodup

instance (rows : List DedupRow) : Decidable (DedupKeyed rows) := inferInstanceAs (Decidable (List.Nodup _))

section Entries

variable {ties : TieOrder} {maxEntries : U64} {rows : List DedupRow} {row : DedupRow} {cutoff : ℤ}

theorem DedupKeyed.eq_of_for (h : DedupKeyed rows) {a b : DedupRow} (ha : a ∈ rows) (hb : b ∈ rows)
    (hfor : a.For b.tenant b.dedupKey) : a = b :=
  List.inj_on_of_nodup_map h ha hb (Prod.ext hfor.1 hfor.2)

theorem DedupKeyed.nodup_ages (h : DedupKeyed rows) (ties : TieOrder) : (rows.map (·.age ties)).Nodup := by
  refine List.pairwise_map.mpr ((List.pairwise_map.mp h).imp fun {a b} hne hage => hne ?_)
  exact congrArg (fun k : ℤ ×ₗ ℕ ×ₗ TenantId ×ₗ String => (ofLex (ofLex (ofLex k).2).2)) hage

theorem mem_evictOldest (h : DedupKeyed rows) (hrow : row ∈ rows) (excess : ℕ) :
    row ∈ evictOldest ties excess rows ↔ row ∉ (rows.insertionSort (·.age ties ≤ ·.age ties)).take excess := by
  simp only [evictOldest, List.mem_filter, decide_eq_true_eq, List.any_eq_true, not_exists, not_and]
  constructor
  · rintro ⟨-, hnone⟩ hin
    exact hnone row hin ⟨rfl, rfl⟩
  · refine fun hnot => ⟨hrow, fun o ho hfor => hnot ?_⟩
    have hmem : o ∈ rows := (List.mem_insertionSort _).mp (List.mem_of_mem_take ho)
    rwa [h.eq_of_for hrow hmem hfor]

/-- The cap leaves an entry when fewer than its number are younger. -/
theorem mem_cappedEntries (h : DedupKeyed rows) (hrow : row ∈ rows) :
    row ∈ cappedEntries ties maxEntries rows ↔ (rows.countP fun r => row.age ties < r.age ties) < maxEntries := by
  have hrank := notMem_take_insertionSort (h.nodup_ages ties) hrow
  simp only [cappedEntries]
  split_ifs with hle
  · have hlt := (hrank 0).mp (by simp)
    exact ⟨fun _ => by omega, fun _ => hrow⟩
  · rw [mem_evictOldest h hrow, hrank]
    omega

theorem DedupKeyed.upsert (h : DedupKeyed rows) (row : DedupRow) : DedupKeyed (upsertDedup row rows) := by
  simp only [upsertDedup]
  split_ifs with hany
  · have hkeys : (rows.map fun r => if r.For row.tenant row.dedupKey then row else r).map (fun r => (r.tenant, r.dedupKey)) =
        rows.map fun r => (r.tenant, r.dedupKey) := by
      rw [List.map_map]
      refine List.map_congr_left fun r _ => ?_
      simp only [Function.comp_apply]
      split_ifs with hfor
      · exact Prod.ext hfor.1.symm hfor.2.symm
      · rfl
    simp only [DedupKeyed]
    rwa [hkeys]
  · simp only [DedupKeyed, List.map_append, List.map_singleton]
    refine List.nodup_append.mpr ⟨h, List.nodup_singleton _, fun a ha b hb heq => hany ?_⟩
    obtain ⟨r, hr, rfl⟩ := List.mem_map.mp ha
    rw [List.mem_singleton.mp hb] at heq
    exact List.any_eq_true.mpr ⟨r, hr, decide_eq_true ⟨(Prod.mk.inj heq).1, (Prod.mk.inj heq).2⟩⟩

theorem DedupKeyed.kept (h : DedupKeyed rows) (row : DedupRow) (cutoff : ℤ) : DedupKeyed (keptEntries rows row cutoff) :=
  (h.upsert row).sublist (List.filter_sublist.map _)

/-- Of what is kept, the entries of other keys were there before. -/
theorem countP_keptEntries {p : DedupRow → Bool} (hp : p row = false) :
    (keptEntries rows row cutoff).countP p =
      rows.countP fun r => ¬ r.For row.tenant row.dedupKey ∧ cutoff ≤ r.createdWallMs ∧ p r := by
  simp only [keptEntries, upsertDedup, List.countP_filter]
  split_ifs with hany
  · rw [List.countP_map]
    refine List.countP_congr fun r _ => ?_
    simp only [Function.comp_apply]
    split_ifs with hfor
    · simp [hp, hfor]
    · simp [hfor, and_comm]
  · simp only [List.any_eq_true, decide_eq_true_eq, not_exists, not_and] at hany
    rw [List.countP_append, List.countP_singleton, hp, Bool.false_and, if_neg Bool.false_ne_true, Nat.add_zero]
    refine List.countP_congr fun r hr => ?_
    simp [hany r hr, and_comm]

theorem cappedEntries_subset : cappedEntries ties maxEntries rows ⊆ rows := by
  simp only [cappedEntries]
  split_ifs
  · exact List.Subset.refl _
  · exact List.filter_sublist.subset

end Entries

/-! ### The call's own entry -/

/-- The entries of other keys, within their time to live, that the eviction takes after the call's own. -/
def StageCall.younger (setup : StagingSetup) (call : StageCall) (s : StagingNode) : ℕ :=
  s.db.dedup.countP fun r => ¬ r.For call.batch.tenant (dedupKey setup.libs call.batch) ∧
    call.fate.cutoff setup.config ≤ r.createdWallMs ∧ (call.entry setup "").age call.fate.ties < r.age call.fate.ties

/-- The call has left its entry: it is in the table, and a retry within the entry's time to live stages nothing and, if it
    is admitted and no statement goes wrong, is answered with the coverage. -/
def StageCall.Remembered (setup : StagingSetup) (call : StageCall) (s : StagingNode) (coverage : List StagedCoverage) : Prop :=
  let after := (stageCall setup call s).2
  (∃ text, setup.libs.toJson coverage = .ok text ∧ call.entry setup text ∈ after.db.dedup) ∧
  ∀ retry : StageCall, retry.Keyed setup call.batch.tenant (dedupKey setup.libs call.batch) →
    retry.fate.cutoff setup.config ≤ call.fate.wallUnixMs →
    (stageCall setup retry after).2.db = { after.db with dedup := (stageCall setup retry after).2.db.dedup } ∧
    (after.stager.admission setup.config = .ok () → (∃ n, setup.libs.rows retry.batch = some (n + 1)) →
      retry.fate.Smooth → (stageCall setup retry after).1 = .ok (.duplicateAcked coverage))

section Own

variable {setup : StagingSetup} {call : StageCall} {s : StagingNode} {coverage : List StagedCoverage}

theorem mem_entries_iff (text : String) : call.entry setup text ∈ call.entries setup text s ↔
    call.fate.cutoff setup.config ≤ call.fate.wallUnixMs := by
  simp [StageCall.entries, mem_keptEntries, StageCall.entry]

theorem countP_entries (text : String) :
    ((call.entries setup text s).countP fun r => (call.entry setup text).age call.fate.ties < r.age call.fate.ties) =
      call.younger setup s := by
  rw [StageCall.entries, countP_keptEntries (by simp)]
  exact List.countP_congr fun r _ => by simp only [decide_eq_true_eq]; rfl

theorem entry_mem_iff (hkeyed : DedupKeyed s.db.dedup) (text : String) :
    call.entry setup text ∈ cappedEntries call.fate.ties setup.config.dedupMaxEntries (call.entries setup text s) ↔
      call.fate.cutoff setup.config ≤ call.fate.wallUnixMs ∧ call.younger setup s < setup.config.dedupMaxEntries := by
  have hkept : DedupKeyed (call.entries setup text s) := hkeyed.kept _ _
  constructor
  · intro hmem
    have hin := cappedEntries_subset hmem
    rw [mem_cappedEntries hkept hin, countP_entries] at hmem
    exact ⟨(mem_entries_iff text).mp hin, hmem⟩
  · rintro ⟨hcutoff, hyounger⟩
    rw [mem_cappedEntries hkept ((mem_entries_iff text).mpr hcutoff), countP_entries]
    exact hyounger

/-- What is left of the call's key is its own entry. -/
theorem eq_entry_of_for {text : String} {r : DedupRow}
    (hr : r ∈ cappedEntries call.fate.ties setup.config.dedupMaxEntries (call.entries setup text s))
    (hfor : r.For call.batch.tenant (dedupKey setup.libs call.batch)) : r = call.entry setup text := by
  rcases (mem_keptEntries.mp (cappedEntries_subset hr)).1 with heq | ⟨-, hnot⟩
  · exact heq
  · exact absurd hfor hnot

/-- An entry in the table answers the retries. -/
theorem remembered_of_entry {text : String} (hjson : setup.libs.RoundTrips) (htext : setup.libs.toJson coverage = .ok text)
    (hdedup : (stageCall setup call s).2.db.dedup =
      cappedEntries call.fate.ties setup.config.dedupMaxEntries (call.entries setup text s))
    (hmem : call.entry setup text ∈ (stageCall setup call s).2.db.dedup) : call.Remembered setup s coverage := by
  have hown : ∀ r ∈ (stageCall setup call s).2.db.dedup,
      r.For call.batch.tenant (dedupKey setup.libs call.batch) → r = call.entry setup text := by
    intro r hr hfor
    rw [hdedup] at hr
    exact eq_entry_of_for hr hfor
  have hguarded : Guarded call.batch.tenant (dedupKey setup.libs call.batch) text (stageCall setup call s).2.db.dedup :=
    ⟨⟨_, hmem, rfl, rfl⟩, fun r hr hfor => by rw [hown r hr hfor]; rfl⟩
  refine ⟨⟨text, htext, hmem⟩, fun retry hkey hcutoff => ?_⟩
  have httl : ∀ r ∈ (stageCall setup call s).2.db.dedup,
      r.For call.batch.tenant (dedupKey setup.libs call.batch) → retry.fate.cutoff setup.config ≤ r.createdWallMs := by
    intro r hr hfor
    rw [hown r hr hfor]
    exact hcutoff
  refine ⟨(stageCall_guarded hguarded hkey httl).1.1, ?_⟩
  rintro hgate ⟨n, hn⟩ hsmooth
  exact stageCall_replays hguarded hkey httl (hjson coverage text htext) hgate hn hsmooth

end Own

/-- A call that commits is remembered by its own transaction exactly when its entry is within its time to live at once, and
    fewer than the cap's number of live entries of other keys come after it in the order of the eviction: entries of a
    later recorded time, and those of the same time that the database puts after it. -/
theorem own_entry_remembered_iff (setup : StagingSetup) (hjson : setup.libs.RoundTrips) (s : StagingNode)
    (hkeyed : DedupKeyed s.db.dedup) (call : StageCall) (coverage : List StagedCoverage)
    (hok : (stageCall setup call s).1 = .ok (.committed coverage)) (hrows : setup.libs.rows call.batch ≠ some 0) :
    call.Remembered setup s coverage ↔
      call.fate.cutoff setup.config ≤ call.fate.wallUnixMs ∧ call.younger setup s < setup.config.dedupMaxEntries := by
  obtain ⟨text, htext, hdedup⟩ := dedup_of_committed hok hrows
  rw [← entry_mem_iff hkeyed text, ← hdedup]
  constructor
  · rintro ⟨⟨text', htext', hmem⟩, -⟩
    obtain rfl : text = text' := Except.ok.inj (htext.symm.trans htext')
    exact hmem
  · exact remembered_of_entry hjson htext hdedup

/-- The small setup with room for one entry. -/
def oneEntrySetup : StagingSetup := { oneRowSetup with config := { oneRowSetup.config with dedupMaxEntries := 1 } }

/-- A call at a wall-clock reading. -/
def stageAtWall (token : String) (wallUnixMs : ℤ) : StageCall := ⟨oneRowBatch token 1, { wallUnixMs }⟩

/-- With a clock that goes on, the second of two calls is remembered. -/
theorem own_entry_remembered_later :
    (stageAtWall "k2" 2000).Remembered oneEntrySetup
      (stageCall oneEntrySetup (stageAtWall "k1" 1000) (.fresh ⟨"node-1"⟩)).2 (oneRowOutcome 2).1 :=
  (own_entry_remembered_iff oneEntrySetup oneRowLibs_roundTrips _ (by decide +kernel) _ _ (by decide +kernel)
    (by decide +kernel)).mpr (by decide +kernel)

/-- The clock has gone back between two calls: the second commits, its entry is the one evicted, and its retry stages the
    row again. -/
theorem own_entry_evicted :
    let s := (stageCall oneEntrySetup (stageAtWall "k1" 1000) (.fresh ⟨"node-1"⟩)).2
    let r := stageCall oneEntrySetup (stageAtWall "k2" 500) s
    r.1 = .ok (.committed (oneRowOutcome 2).1) ∧
    ¬ (stageAtWall "k2" 500).Remembered oneEntrySetup s (oneRowOutcome 2).1 ∧
    (stageCall oneEntrySetup (stageAtWall "k2" 500) r.2).1 = .ok (.committed (oneRowOutcome 3).1) := by
  refine ⟨by decide +kernel, ?_, by decide +kernel⟩
  rintro ⟨⟨text, -, hmem⟩, -⟩
  have hleft : ∀ row ∈ (stageCall oneEntrySetup (stageAtWall "k2" 500)
      (stageCall oneEntrySetup (stageAtWall "k1" 1000) (.fresh ⟨"node-1"⟩)).2).2.db.dedup, row.createdWallMs = 1000 := by
    decide +kernel
  have hwall : (500 : ℤ) = 1000 := hleft _ hmem
  exact absurd hwall (by decide)

end Duckspout
