import Duckspout.Lake.SingleCommit

/-! The manifest round trip: what `commit_files` spreads over one row per part, `read_manifests` puts
    together again.

    The read orders its rows by partition and window and leaves the order of a window's parts to the
    catalog, so it is stated over any such order. -/

namespace Duckspout

open Snapshot Threads

/-- What the read groups by. -/
def WindowManifest.windowKey (m : WindowManifest) : PartitionId × WindowId := (m.partition, m.windowId)

def ManifestRow.windowKey (r : ManifestRow) : PartitionId × WindowId := (r.partition, toWindowId r.windowId)

/-- The manifest fits the columns of its rows, and has a row. -/
structure WindowManifest.Storable (m : WindowManifest) : Prop where
  window : m.windowId ≤ i64Max
  rows : (m.rows : ℕ) ≤ i64Max
  dedupRemoved : (m.dedupRemoved : ℕ) ≤ i64Max
  parts : m.parts ≠ []

/-- The rows of the lake in an order the query may return them in. -/
structure OrderedRead (l : Lake) (rows : List ManifestRow) : Prop where
  perm : rows.Perm (values l.manifests)
  sorted : rows.Pairwise rowLe

/-- The loop of `read_manifests`, on the rows as they arrive. -/
def collectRows (rows : List ManifestRow) : Except LakeError (List WindowManifest) := rows.foldlM collectRow []

instance : IsTrans ManifestRow rowLe := ⟨fun a b c hab hbc => by
  simp only [rowLe] at *
  rcases hab with hab | ⟨hab, hab'⟩
  · rcases hbc with hbc | ⟨hbc, -⟩
    · exact .inl (hab.trans hbc)
    · exact .inl (hbc ▸ hab)
  · rcases hbc with hbc | ⟨hbc, hbc'⟩
    · exact .inl (hab ▸ hbc)
    · exact .inr ⟨hab.trans hbc, hab'.trans hbc'⟩⟩

instance : Std.Total rowLe := ⟨fun a b => by
  simp only [rowLe]
  rcases lt_trichotomy a.partition b.partition with h | h | h
  · exact .inl (.inl h)
  · rcases le_total a.windowId b.windowId with h' | h'
    · exact .inl (.inr ⟨h, h'⟩)
    · exact .inr (.inr ⟨h.symm, h'⟩)
  · exact .inr (.inl h)⟩

/-- `readManifests` is the loop on one such order. -/
theorem readManifests_ordered (l : Lake) :
    ∃ rows, OrderedRead l rows ∧ readManifests l = collectRows rows :=
  ⟨_, ⟨List.perm_insertionSort .., List.pairwise_insertionSort ..⟩, rfl⟩

/-! ### One row -/

/-- The row stores part `part` of `m`, expired or not. -/
def Stores (r : ManifestRow) (m : WindowManifest) (part : PartName) : Prop := r.content = manifestRow m part

variable {r : ManifestRow} {m : WindowManifest} {part : PartName}

theorem toU64_toI64 {n : U64} (h : (n : ℕ) ≤ i64Max) : toU64 (toI64 n) = n := by
  simp [toI64, toU64, if_pos h]

namespace Stores

theorem partName (h : Stores r m part) : r.partName = part := congrArg ManifestRow.partName h

theorem coverage (h : Stores r m part) : r.originCoverage = .encoded m.originCoverage :=
  congrArg ManifestRow.originCoverage h

theorem windowId (h : Stores r m part) (hm : m.Storable) : r.windowId = m.windowId := by
  have hw : r.windowId = toI64 m.windowId := congrArg ManifestRow.windowId h
  rw [hw, toI64, if_pos hm.window]

theorem windowKey (h : Stores r m part) (hm : m.Storable) : r.windowKey = m.windowKey := by
  have hp : r.partition = m.partition := congrArg ManifestRow.partition h
  have hw : r.windowId = toI64 m.windowId := congrArg ManifestRow.windowId h
  rw [ManifestRow.windowKey, hp, hw, toWindowId_toI64 hm.window, WindowManifest.windowKey]

/-- The narrowing casts of the write are undone by those of the read. -/
theorem manifest (h : Stores r m part) (hm : m.Storable) :
    r.manifest m.originCoverage = { m with parts := [part] } := by
  have hc : r.content.manifest m.originCoverage = (manifestRow m part).manifest m.originCoverage :=
    congrArg (fun row => ManifestRow.manifest row m.originCoverage) h
  rw [show r.manifest m.originCoverage = r.content.manifest m.originCoverage from rfl, hc]
  simp only [ManifestRow.manifest, manifestRow, toWindowId_toI64 hm.window, toU64_toI64 hm.rows,
    toU64_toI64 hm.dedupRemoved]

end Stores

/-- A row between two of one window is of that window. -/
theorem windowKey_between {a b c : ManifestRow} (hab : rowLe a b) (hbc : rowLe b c)
    (hac : a.partition = c.partition ∧ a.windowId = c.windowId) :
    b.partition = c.partition ∧ b.windowId = c.windowId := by
  obtain ⟨hp, hw⟩ := hac
  simp only [rowLe, hp, hw] at hab hbc
  rcases hab with hab | ⟨hab, hab'⟩
  · rcases hbc with hbc | ⟨hbc, -⟩
    · exact absurd (hab.trans hbc) (lt_irrefl _)
    · exact absurd hab (hbc ▸ lt_irrefl _)
  · rcases hbc with hbc | ⟨-, hbc'⟩
    · exact absurd hbc (hab ▸ lt_irrefl _)
    · exact ⟨hab.symm, le_antisymm hbc' hab'⟩

/-! ### The loop -/

/-- The source of the rows read: each row is of one manifest of a window. -/
structure Source (S : WindowManifest → Prop) (rows : List ManifestRow) : Prop where
  one : ∀ m m', S m → S m' → m.windowKey = m'.windowKey → m = m'
  storable : ∀ m, S m → m.Storable
  stores : ∀ r ∈ rows, ∃ m part, S m ∧ Stores r m part

/-- The rows read so far are put together: one manifest for each window among them, with the parts its
    rows have, and the window of the last row is the last one. -/
structure Collected (S : WindowManifest → Prop) (rows : List ManifestRow) (ms : List WindowManifest) : Prop where
  nodup : (ms.map WindowManifest.windowKey).Nodup
  each : ∀ m' ∈ ms, ∃ m, S m ∧ m' = { m with parts := m'.parts } ∧
    ∀ part, part ∈ m'.parts ↔ ∃ r ∈ rows, Stores r m part
  all : ∀ k, k ∈ ms.map WindowManifest.windowKey ↔ k ∈ rows.map ManifestRow.windowKey
  last : ms.getLast?.map WindowManifest.windowKey = rows.getLast?.map ManifestRow.windowKey

variable {S : WindowManifest → Prop} {rows : List ManifestRow} {ms : List WindowManifest}

theorem Source.of_subset {rows' : List ManifestRow} (h : Source S rows) (hsub : rows' ⊆ rows) : Source S rows' :=
  ⟨h.one, h.storable, fun r hr => h.stores r (hsub hr)⟩

/-- Manifests of other windows do not see the row. -/
theorem Collected.each_other (h : Collected S rows ms) (hsrc : Source S (rows ++ [r])) {m' : WindowManifest}
    (hm' : m' ∈ ms) (hne : m'.windowKey ≠ r.windowKey) : ∃ m, S m ∧ m' = { m with parts := m'.parts } ∧
      ∀ part, part ∈ m'.parts ↔ ∃ r' ∈ rows ++ [r], Stores r' m part := by
  obtain ⟨m, hS, heq, hparts⟩ := h.each m' hm'
  refine ⟨m, hS, heq, fun part => ?_⟩
  rw [hparts part]
  constructor
  · rintro ⟨r', hr', hst⟩
    exact ⟨r', List.mem_append_left _ hr', hst⟩
  · rintro ⟨r', hr', hst⟩
    rcases List.mem_append.mp hr' with hold | hnew
    · exact ⟨r', hold, hst⟩
    · rw [List.mem_singleton.mp hnew] at hst
      have hkey : m'.windowKey = m.windowKey := by rw [heq]; rfl
      exact absurd (hkey.trans (hst.windowKey (hsrc.storable m hS)).symm) hne

/-- A window that is not the last one read has no manifest yet: the order has put its rows together. -/
theorem Collected.fresh (h : Collected S rows ms) (hsrc : Source S (rows ++ [r]))
    (hsorted : (rows ++ [r]).Pairwise rowLe)
    (hlast : ms.getLast?.map WindowManifest.windowKey ≠ some r.windowKey) :
    r.windowKey ∉ ms.map WindowManifest.windowKey := by
  intro hmem
  obtain ⟨a, ha, hkey⟩ := List.mem_map.mp ((h.all _).mp hmem)
  have hint : ∀ r' ∈ rows ++ [r], (toWindowId r'.windowId : ℤ) = r'.windowId := by
    intro r' hr'
    obtain ⟨m, part, hS, hst⟩ := hsrc.stores r' hr'
    have hnonneg : ¬ ((m.windowId : ℤ) < 0) := by omega
    rw [hst.windowId (hsrc.storable m hS)]
    simp [toWindowId, hnonneg]
  have hsame : a.partition = r.partition ∧ a.windowId = r.windowId := by
    have hw : toWindowId a.windowId = toWindowId r.windowId := congrArg Prod.snd hkey
    refine ⟨congrArg Prod.fst hkey, ?_⟩
    rw [← hint a (List.mem_append_left _ ha), ← hint r (List.mem_append_right _ List.mem_cons_self), hw]
  obtain ⟨init, b, rfl⟩ := (List.eq_nil_or_concat rows).resolve_left (List.ne_nil_of_mem ha)
  rw [List.concat_eq_append] at *
  have hbr : rowLe b r := (List.pairwise_append.mp hsorted).2.2 b (by simp) r (by simp)
  have hab : a = b ∨ rowLe a b := by
    rcases List.mem_append.mp ha with hinit | hb
    · exact .inr ((List.pairwise_append.mp (List.pairwise_append.mp hsorted).1).2.2 a hinit b (by simp))
    · exact .inl (List.mem_singleton.mp hb)
  have hb : b.partition = r.partition ∧ b.windowId = r.windowId := by
    rcases hab with rfl | hab
    · exact hsame
    · exact windowKey_between hab hbr hsame
  refine hlast ?_
  rw [h.last, List.getLast?_concat, Option.map_some, ManifestRow.windowKey, hb.1, hb.2, ManifestRow.windowKey]

/-- A row of the window last read adds its part to the last manifest. -/
theorem Collected.adds (h : Collected S rows ms) (hsrc : Source S (rows ++ [r])) {m : WindowManifest} {part : PartName}
    (hS : S m) (hst : Stores r m part) (hlast : ms.getLast?.map WindowManifest.windowKey = some r.windowKey) :
    ∃ ms', collectRow ms r = .ok ms' ∧ Collected S (rows ++ [r]) ms' := by
  have hkey := hst.windowKey (hsrc.storable m hS)
  have hlastRow : (rows ++ [r]).getLast?.map ManifestRow.windowKey = some r.windowKey := by simp
  obtain ⟨last, hget, hlk⟩ := Option.map_eq_some_iff.mp hlast
  obtain ⟨init, rfl⟩ := List.getLast?_eq_some_iff.mp hget
  have hcond : last.partition = r.partition ∧ last.windowId = toWindowId r.windowId :=
    ⟨congrArg Prod.fst hlk, congrArg Prod.snd hlk⟩
  have hnodup := h.nodup
  rw [List.map_append, List.map_singleton, ← List.concat_eq_append, List.nodup_concat] at hnodup
  obtain ⟨m₀, hS₀, heq, hparts⟩ := h.each last (by simp)
  obtain rfl : m₀ = m := hsrc.one _ _ hS₀ hS <| by
    rw [← hkey, ← hlk, heq]
    rfl
  refine ⟨init ++ [{ last with parts := last.parts ++ [r.partName] }], ?_, ?_, ?_, ?_, ?_⟩
  · simp only [collectRow, List.getLast?_concat, if_pos hcond, List.dropLast_concat]
  · have hsame := h.nodup
    rw [List.map_append] at hsame ⊢
    exact hsame
  · intro m' hm'
    rcases List.mem_append.mp hm' with hinit | hnew
    · refine h.each_other hsrc (List.mem_append_left _ hinit) fun hne => hnodup.1 ?_
      exact List.mem_map.mpr ⟨m', hinit, hne.trans hlk.symm⟩
    · rw [List.mem_singleton.mp hnew]
      refine ⟨m₀, hS₀, ?_, fun part' => ?_⟩
      · exact congrArg (fun x : WindowManifest => { x with parts := last.parts ++ [r.partName] }) heq
      · rw [List.mem_append, hparts part', List.mem_singleton, hst.partName]
        constructor
        · rintro (⟨r', hr', hst'⟩ | rfl)
          · exact ⟨r', List.mem_append_left _ hr', hst'⟩
          · exact ⟨r, by simp, hst⟩
        · rintro ⟨r', hr', hst'⟩
          rcases List.mem_append.mp hr' with hold | hnew'
          · exact .inl ⟨r', hold, hst'⟩
          · rw [List.mem_singleton.mp hnew'] at hst'
            exact .inr (hst'.partName.symm.trans hst.partName)
  · intro k
    have hall := h.all k
    simp only [List.map_append, List.map_singleton, List.mem_append, List.mem_singleton] at hall ⊢
    rw [← hall]
    have hk : (k = last.windowKey) ↔ k = r.windowKey := by rw [hlk]
    rw [show WindowManifest.windowKey { last with parts := last.parts ++ [r.partName] } = last.windowKey from rfl]
    tauto
  · rw [List.getLast?_concat, hlastRow]
    exact congrArg some hlk

/-- A row of another window begins that window's manifest. -/
theorem Collected.begins (h : Collected S rows ms) (hsrc : Source S (rows ++ [r]))
    (hsorted : (rows ++ [r]).Pairwise rowLe) {m : WindowManifest} {part : PartName} (hS : S m) (hst : Stores r m part)
    (hlast : ms.getLast?.map WindowManifest.windowKey ≠ some r.windowKey) :
    ∃ ms', collectRow ms r = .ok ms' ∧ Collected S (rows ++ [r]) ms' := by
  have hm := hsrc.storable m hS
  have hkey := hst.windowKey hm
  have hlastRow : (rows ++ [r]).getLast?.map ManifestRow.windowKey = some r.windowKey := by simp
  have hfresh := h.fresh hsrc hsorted hlast
  have hdec : r.originCoverage.decode = .ok m.originCoverage := by rw [hst.coverage]; rfl
  have hman := hst.manifest hm
  refine ⟨ms ++ [{ m with parts := [part] }], ?_, ?_, ?_, ?_, ?_⟩
  · have hcond : ∀ last, ms.getLast? = some last →
        ¬ (last.partition = r.partition ∧ last.windowId = toWindowId r.windowId) := by
      intro last hget hcond
      exact hlast (by rw [hget]; exact congrArg some (Prod.ext hcond.1 hcond.2))
    simp only [collectRow, hdec, hman]
    cases hget : ms.getLast? with
    | none => rfl
    | some last => exact if_neg (hcond last hget)
  · rw [List.map_append, List.map_singleton, ← List.concat_eq_append, List.nodup_concat]
    exact ⟨fun hmem => hfresh (hkey ▸ hmem), h.nodup⟩
  · intro m' hm'
    rcases List.mem_append.mp hm' with hold | hnew
    · exact h.each_other hsrc hold fun hne => hfresh (hne ▸ List.mem_map_of_mem hold)
    · rw [List.mem_singleton.mp hnew]
      refine ⟨m, hS, rfl, fun part' => ?_⟩
      rw [List.mem_singleton]
      constructor
      · rintro rfl
        exact ⟨r, by simp, hst⟩
      · rintro ⟨r', hr', hst'⟩
        rcases List.mem_append.mp hr' with hold | hnew'
        · refine absurd ((h.all _).mpr (List.mem_map_of_mem hold)) ?_
          rw [hst'.windowKey hm, ← hkey]
          exact hfresh
        · rw [List.mem_singleton.mp hnew'] at hst'
          exact hst'.partName.symm.trans hst.partName
  · intro k
    have hall := h.all k
    simp only [List.map_append, List.map_singleton, List.mem_append, List.mem_singleton, hall, hkey]
    rfl
  · rw [List.getLast?_concat, hlastRow, hkey]
    rfl

/-- One row. -/
theorem Collected.step (h : Collected S rows ms) (hsrc : Source S (rows ++ [r]))
    (hsorted : (rows ++ [r]).Pairwise rowLe) :
    ∃ ms', collectRow ms r = .ok ms' ∧ Collected S (rows ++ [r]) ms' := by
  obtain ⟨m, part, hS, hst⟩ := hsrc.stores r (by simp)
  by_cases hlast : ms.getLast?.map WindowManifest.windowKey = some r.windowKey
  · exact h.adds hsrc hS hst hlast
  · exact h.begins hsrc hsorted hS hst hlast

/-- The whole read. -/
theorem collectRows_spec (rows : List ManifestRow) : Source S rows → rows.Pairwise rowLe →
    ∃ ms, collectRows rows = .ok ms ∧ Collected S rows ms := by
  induction rows using List.reverseRecOn with
  | nil =>
    intro _ _
    exact ⟨[], rfl, List.nodup_nil, by simp, by simp, rfl⟩
  | append_singleton rows r ih =>
    intro hsrc hsorted
    obtain ⟨ms, hms, hcol⟩ := ih (hsrc.of_subset (List.subset_append_left _ _)) (List.pairwise_append.mp hsorted).1
    obtain ⟨ms', hms', hcol'⟩ := hcol.step hsrc hsorted
    refine ⟨ms', ?_, hcol'⟩
    rw [collectRows] at hms ⊢
    rw [List.foldlM_append, hms]
    simp only [List.foldlM_cons, List.foldlM_nil, bind, Except.bind, hms']
    rfl

/-! ### What a run registers -/

section Run

variable {config : CommitterId → DuckLakeConfig} {h : List LakeEvent}

/-- Some call of the run commits the batch. -/
def Started (config : CommitterId → DuckLakeConfig) (h : List LakeEvent) (m : WindowManifest) : Prop :=
  ∃ t ws, (t, LakeCall.commitFiles m ws) ∈ (committed config h).started

/-- Every row of the lake stores a part of a batch of the run. -/
theorem stores_of_mem (config : CommitterId → DuckLakeConfig) (h : List LakeEvent) :
    ∀ c ∈ (committed config h).shared.lake.contents, ∃ m part, Started config h m ∧ part ∈ m.parts ∧
      c = manifestRow m part := by
  induction h using List.reverseRecOn with
  | nil =>
    intro c hc
    cases hc
  | append_singleton h e ih =>
    have hmono : ∀ m, Started config h m → Started config (h ++ [e]) m := by
      rintro m ⟨t, ws, hmem⟩
      refine ⟨t, ws, ?_⟩
      rw [committed_concat]
      exact (started_step (committers config) _ e).subset hmem
    intro c hc
    rcases contents_step config h e with heq | ⟨t, n, m, ws, hstarted, heq⟩
    · rw [heq] at hc
      obtain ⟨m, part, hm, hpart, hst⟩ := ih c hc
      exact ⟨m, part, hmono m hm, hpart, hst⟩
    · rw [heq, List.mem_append] at hc
      rcases hc with hold | hnew
      · obtain ⟨m, part, hm, hpart, hst⟩ := ih c hold
        exact ⟨m, part, hmono m hm, hpart, hst⟩
      · obtain ⟨part, hpart, rfl⟩ := List.mem_map.mp hnew
        exact ⟨m, part, hmono m ⟨t, ws, List.mem_of_getElem? hstarted⟩, (List.mem_filter.mp hpart).1, rfl⟩

/-- **The round trip.** In any run of commits, retries, expiries, failures and crashes in which a
    window is only ever committed with one manifest and every batch begun has been answered
    `Committed`, the read returns one manifest for each window committed, with everything that was
    committed and exactly its parts, whatever order the catalog gives the parts in. -/
theorem manifest_round_trip (config : CommitterId → DuckLakeConfig) (h : List LakeEvent)
    (hone : ∀ m m', Started config h m → Started config h m' → m.partition = m'.partition →
      m.windowId = m'.windowId → m = m')
    (hstorable : ∀ m, Started config h m → m.Storable)
    (hdone : ∀ m, Started config h m → ∃ (n : ℕ) (ws : List WatermarkRow),
      (n, LakeCall.commitFiles m ws, LakeReply.commitFiles (.ok .committed)) ∈ (committed config h).returned) :
    (∃ rows, OrderedRead (committed config h).shared.lake rows ∧
      readManifests (committed config h).shared.lake = collectRows rows) ∧
    ∀ rows, OrderedRead (committed config h).shared.lake rows → ∃ ms, collectRows rows = .ok ms ∧
      (ms.map fun m => (m.partition, m.windowId)).Nodup ∧
      (∀ m, Started config h m → ∃ m' ∈ ms, m' = { m with parts := m'.parts } ∧
        ∀ part, part ∈ m'.parts ↔ part ∈ m.parts) ∧
      ∀ m' ∈ ms, ∃ m, Started config h m ∧ m' = { m with parts := m'.parts } ∧
        ∀ part, part ∈ m'.parts ↔ part ∈ m.parts := by
  refine ⟨readManifests_ordered _, fun rows hrows => ?_⟩
  have hcontent : ∀ r ∈ rows, r.content ∈ (committed config h).shared.lake.contents := fun r hr =>
    List.mem_map_of_mem (hrows.perm.subset hr)
  have hone' : ∀ m m', Started config h m → Started config h m' → m.windowKey = m'.windowKey → m = m' :=
    fun m m' hm hm' hkey => hone m m' hm hm' (congrArg Prod.fst hkey) (congrArg Prod.snd hkey)
  have hsrc : Source (Started config h) rows := by
    refine ⟨hone', hstorable, fun r hr => ?_⟩
    obtain ⟨m, part, hm, -, hst⟩ := stores_of_mem config h _ (hcontent r hr)
    exact ⟨m, part, hm, hst⟩
  obtain ⟨ms, hms, hcol⟩ := collectRows_spec rows hsrc hrows.sorted
  -- A part of a started batch is stored: the answered call has left a row of its name, which is the batch's.
  have hstored : ∀ m, Started config h m → ∀ part, part ∈ m.parts ↔ ∃ r ∈ rows, Stores r m part := by
    intro m hm part
    constructor
    · intro hpart
      obtain ⟨n, ws, hret⟩ := hdone m hm
      obtain ⟨l, -, hparts⟩ := (lake_valid config h).results _ hret m ws rfl rfl
      obtain ⟨c, hc, hkey, -⟩ := hparts part hpart
      obtain ⟨m', part', hm', -, rfl⟩ := stores_of_mem config h c hc
      simp only [ManifestRow.key, manifestRow, Prod.mk.injEq] at hkey
      obtain ⟨hp, hw, rfl⟩ := hkey
      have hw' : m'.windowId = m.windowId := by
        rw [← toWindowId_toI64 (hstorable m' hm').window, hw, toWindowId_toI64 (hstorable m hm).window]
      obtain rfl := hone m' m hm' hm hp hw'
      obtain ⟨r, hr, hcr⟩ := List.mem_map.mp hc
      exact ⟨r, hrows.perm.symm.subset hr, hcr⟩
    · rintro ⟨r, hr, hst⟩
      obtain ⟨m', part', hm', hpart', hst'⟩ := stores_of_mem config h _ (hcontent r hr)
      have hkey := (Stores.windowKey hst' (hstorable m' hm')).symm.trans (hst.windowKey (hstorable m hm))
      obtain rfl := hone' m' m hm' hm hkey
      rw [← hst.partName, Stores.partName hst']
      exact hpart'
  refine ⟨ms, hms, hcol.nodup, fun m hm => ?_, fun m' hm' => ?_⟩
  · obtain ⟨part, hpart⟩ := List.exists_mem_of_ne_nil _ (hstorable m hm).parts
    obtain ⟨r, hr, hst⟩ := (hstored m hm part).mp hpart
    have hmem : m.windowKey ∈ ms.map WindowManifest.windowKey := by
      rw [hcol.all, ← hst.windowKey (hstorable m hm)]
      exact List.mem_map_of_mem hr
    obtain ⟨m', hm', hkey⟩ := List.mem_map.mp hmem
    obtain ⟨m₀, hS, heq, hparts⟩ := hcol.each m' hm'
    obtain rfl := hone' m₀ m hS hm (by rw [← hkey, heq]; rfl)
    exact ⟨m', hm', heq, fun part => by rw [hparts, hstored m₀ hS]⟩
  · obtain ⟨m, hS, heq, hparts⟩ := hcol.each m' hm'
    exact ⟨m, hS, heq, fun part => by rw [hparts, hstored m hS]⟩

end Run

/-- A batch of two parts. -/
def splitBatch (window : WindowId) : WindowManifest :=
  { sampleBatch 5 with windowId := window, parts := [⟨"logs/w-primary.parquet"⟩, ⟨"logs/w-late.parquet"⟩] }

/-- Window 1 lands before window 0, a part of it is expired, window 0 is retried, and two parts carry
    the same names in both windows. -/
def twoWindows : List LakeEvent :=
  [.start 0 (.commitFiles (splitBatch 1) [])] ++ steps 0 14 ++
    [.start 1 (.expire [⟨"logs/w-late.parquet"⟩])] ++ steps 1 6 ++
    [.start 1 (.commitFiles (splitBatch 0) [])] ++ steps 1 14 ++ [.start 0 (.commitFiles (splitBatch 0) [])] ++ steps 0 14

theorem started_twoWindows {m : WindowManifest} (hm : Started sampleConfig twoWindows m) :
    m = splitBatch 0 ∨ m = splitBatch 1 := by
  obtain ⟨t, ws, hmem⟩ := hm
  have hstart := (mem_started twoWindows hmem).resolve_left List.not_mem_nil
  simp only [twoWindows, steps, List.mem_append, List.mem_replicate, List.mem_cons, List.not_mem_nil,
    Event.start.injEq, LakeCall.commitFiles.injEq, or_false, reduceCtorEq, and_false] at hstart
  rcases hstart with (⟨-, rfl, -⟩ | ⟨-, rfl, -⟩) | ⟨-, rfl, -⟩
  · exact .inr rfl
  · exact .inl rfl
  · exact .inl rfl

theorem manifest_round_trip_twoWindows :
    ∃ ms, readManifests (committed sampleConfig twoWindows).shared.lake = .ok ms ∧ ms.length = 2 ∧
      (values (committed sampleConfig twoWindows).shared.lake.manifests).countP (·.expired) = 1 ∧
      ∀ m' ∈ ms, ∃ m, Started sampleConfig twoWindows m ∧ m' = { m with parts := m'.parts } ∧
        ∀ part, part ∈ m'.parts ↔ part ∈ m.parts := by
  have htrip := manifest_round_trip sampleConfig twoWindows
    (by
      intro m m' hm hm' _ hw
      rcases started_twoWindows hm with rfl | rfl
      all_goals rcases started_twoWindows hm' with rfl | rfl
      all_goals first | rfl | cases hw)
    (by
      intro m hm
      rcases started_twoWindows hm with rfl | rfl
      all_goals exact ⟨by decide, by decide, by decide, by decide⟩)
    (by
      intro m hm
      rcases started_twoWindows hm with rfl | rfl
      · exact ⟨2, [], by decide +kernel⟩
      · exact ⟨0, [], by decide +kernel⟩)
  obtain ⟨⟨rows, hrows, hread⟩, hall⟩ := htrip
  obtain ⟨ms, hms, -, -, hback⟩ := hall rows hrows
  have hlen : (readManifests (committed sampleConfig twoWindows).shared.lake).toOption.map List.length = some 2 := by
    decide +kernel
  rw [hread, hms] at hlen
  exact ⟨ms, hread.trans hms, by simpa [Except.toOption] using hlen, by decide +kernel, hback⟩

end Duckspout
