import Duckspout.Lake.Committer

/-! What a transaction of the committer does to the lake, between its snapshot and its commit. -/

namespace Duckspout

open Snapshot

/-- A manifest row without its expiry mark: what was registered. -/
def ManifestRow.content (r : ManifestRow) : ManifestRow := { r with expired := false }

/-- A data file without its deletion record. -/
def DataFile.content (f : DataFile) : DataFile := { f with deleted := false }

theorem ManifestRow.key_content (r : ManifestRow) : r.content.key = r.key := rfl

/-- What is registered, in the order of registration. -/
def Lake.contents (l : Lake) : List ManifestRow := (values l.manifests).map ManifestRow.content

/-- The keys with a manifest row, expired ones included. -/
def Lake.keys (l : Lake) : List (PartitionId × ℤ × PartName) := l.contents.map ManifestRow.key

/-- The version of a partition's first fence row. -/
def Lake.fenceStamp (l : Lake) (p : PartitionId) : Option ℕ := stamp FenceRow.partition p l.fence

/-- `l'` is `l` some commits later: rows stay in their places, manifests and files with what was
    registered. -/
structure Lake.Later (l l' : Lake) : Prop where
  fence : Snapshot.Later FenceRow.partition l.fence l'.fence
  manifests : Snapshot.Later ManifestRow.content l.manifests l'.manifests
  watermarks : Snapshot.Later WatermarkRow.partition l.watermarks l'.watermarks
  files : Snapshot.Later DataFile.content l.files l'.files

theorem Lake.Later.refl (l : Lake) : l.Later l :=
  ⟨Snapshot.Later.refl _, Snapshot.Later.refl _, Snapshot.Later.refl _, Snapshot.Later.refl _⟩

theorem Lake.Later.trans {l l' l'' : Lake} (h : l.Later l') (h' : l'.Later l'') : l.Later l'' :=
  ⟨h.fence.trans h'.fence, h.manifests.trans h'.manifests, h.watermarks.trans h'.watermarks,
    h.files.trans h'.files⟩

/-- What was registered stays, and later registrations follow it. -/
theorem Lake.Later.contents {l l' : Lake} (h : l.Later l') : l.contents <+: l'.contents := by
  have hkeys := h.manifests.keys
  exact ⟨_, hkeys.symm⟩

theorem Lake.Later.keys {l l' : Lake} (h : l.Later l') : l.keys <+: l'.keys := h.contents.map _

/-! ### Snapshots -/

/-- The snapshot a transaction works on. -/
def Txn.base (x : Txn) : Lake := ⟨x.fence.base, x.manifests.base, x.watermarks.base, x.files.base⟩

theorem Txn.base_start (l : Lake) : (Txn.start l).base = l := by
  simp only [base, start, TableTxn.base_start]

/-- A statement leaves the snapshot alone. -/
theorem Query.exec_base (q : Query) (pick : ℕ) (x : Txn) : (q.exec pick x).2.base = x.base := by
  cases q with
  | selectPart part =>
    simp only [exec]
    split
    all_goals rfl
  | _ => simp [exec, Txn.base]

/-- The pending rewrites of a transaction keep what identifies a row. -/
structure Txn.Keeps (x : Txn) : Prop where
  fence : KeepsKey FenceRow.partition x.fence.snap
  manifests : KeepsKey ManifestRow.content x.manifests.snap
  watermarks : KeepsKey WatermarkRow.partition x.watermarks.snap
  files : KeepsKey DataFile.content x.files.snap

/-- A landing transaction takes the lake to a later one. -/
theorem Txn.merge_later {x : Txn} {l : Lake} (hk : x.Keeps) (h : x.base.Later l) : l.Later (x.merge l) :=
  ⟨TableTxn.merge_later hk.fence h.fence, TableTxn.merge_later hk.manifests h.manifests,
    TableTxn.merge_later hk.watermarks h.watermarks, TableTxn.merge_later hk.files h.files⟩

/-- A snapshot `l₀` in the lake `l`: while the first fence row of a partition has its version, no
    manifest row of that partition has been added. -/
structure Synced (l₀ l : Lake) : Prop where
  later : l₀.Later l
  quiet : ∀ p n, l₀.fenceStamp p = some n → l.fenceStamp p = some n →
    ∀ c ∈ l.contents.drop l₀.contents.length, c.partition ≠ p

theorem Synced.refl (l : Lake) : Synced l l := by
  refine ⟨Lake.Later.refl l, fun p n _ _ c hc => ?_⟩
  rw [List.drop_length] at hc
  cases hc

/-- A landing commit keeps a snapshot synced if it raises the fence of every partition it adds to:
    fence versions never fall, so a partition whose version still stands got nothing. -/
theorem Synced.land {l₀ l l' : Lake} (h : Synced l₀ l) (hl : l.Later l') {added : List ManifestRow}
    (hadd : l'.contents = l.contents ++ added)
    (hraise : ∀ c ∈ added, ∃ n, l.fenceStamp c.partition = some n ∧ l'.fenceStamp c.partition = some (n + 1)) :
    Synced l₀ l' := by
  refine ⟨h.later.trans hl, ?_⟩
  intro p n hn hn' c hc
  obtain ⟨m, hm, hnm⟩ := h.later.fence.stamp_le hn
  obtain ⟨m', hm', hmm⟩ := hl.fence.stamp_le hm
  have hm'n : m' = n := Option.some.inj (hm'.symm.trans hn')
  have hmn : m = n := by omega
  rw [hadd, List.drop_append_of_le_length h.later.contents.length_le, List.mem_append] at hc
  rcases hc with hold | hnew
  · exact h.quiet p n hn (hmn ▸ hm) c hold
  · rintro rfl
    obtain ⟨a, ha, ha'⟩ := hraise c hnew
    have h1 : a = m := Option.some.inj (ha.symm.trans hm)
    have h2 : a + 1 = n := Option.some.inj (ha'.symm.trans hn')
    omega

/-! ### The writes of a commit -/

/-- The parts of a batch without a manifest row. -/
def missing (m : WindowManifest) (l : Lake) : List PartName :=
  m.parts.filter fun part => (m.partition, toI64 m.windowId, part) ∉ l.keys

/-- The registered file of one part. -/
def dataFile (config : DuckLakeConfig) (m : WindowManifest) (part : PartName) : DataFile where
  table := datasetTable m.dataset
  path := partPath config part

/-- Updates the rows of the partition, or inserts the row if there is none. -/
def upsertRow (x : TableTxn WatermarkRow) (row : WatermarkRow) : TableTxn WatermarkRow :=
  let y := x.update (·.partition = row.partition) fun _ => row
  if x.view.countP (·.partition = row.partition) = 0 then y.insert row else y

/-- The transaction `stage_commit_writes` leaves on a snapshot when no statement fails. -/
def staged (config : DuckLakeConfig) (m : WindowManifest) (ws : List WatermarkRow) (l : Lake) : Txn where
  fence := (TableTxn.start l.fence).update (·.partition = m.partition)
    fun r => { r with lastWindow := toI64 m.windowId }
  manifests := { TableTxn.start l.manifests with inserted := (missing m l).map (manifestRow m) }
  watermarks := ws.foldl upsertRow (.start l.watermarks)
  files := { TableTxn.start l.files with inserted := (missing m l).map (dataFile config m) }

/-- The lake `l'` is `l` with everything of the batch that was missing, and its watermark rows. A
    later row of the same partition supersedes an earlier one. -/
structure Registered (config : DuckLakeConfig) (m : WindowManifest) (ws : List WatermarkRow)
    (l l' : Lake) : Prop where
  manifests : values l'.manifests = values l.manifests ++ (missing m l).map (manifestRow m)
  files : values l'.files = values l.files ++ (missing m l).map (dataFile config m)
  watermarks : ∀ before row after, ws = before ++ row :: after →
    (∀ r ∈ after, r.partition ≠ row.partition) → row ∈ values l'.watermarks

theorem base_upsertRow (x : TableTxn WatermarkRow) (row : WatermarkRow) : (upsertRow x row).base = x.base := by
  simp only [upsertRow]
  split_ifs
  all_goals simp

theorem base_upsertRows (ws : List WatermarkRow) : ∀ x : TableTxn WatermarkRow,
    (ws.foldl upsertRow x).base = x.base := by
  induction ws with
  | nil => exact fun _ => rfl
  | cons row ws ih => exact fun x => (ih _).trans (base_upsertRow x row)

theorem keeps_upsertRow {x : TableTxn WatermarkRow} (row : WatermarkRow)
    (hx : KeepsKey WatermarkRow.partition x.snap) : KeepsKey WatermarkRow.partition (upsertRow x row).snap := by
  have hy := hx.update (p := fun a => decide (a.partition = row.partition)) (f := fun _ => row)
    fun a ha => (of_decide_eq_true ha).symm
  simp only [upsertRow]
  split_ifs
  · exact hy
  · exact hy

theorem keeps_upsertRows (ws : List WatermarkRow) : ∀ {x : TableTxn WatermarkRow},
    KeepsKey WatermarkRow.partition x.snap → KeepsKey WatermarkRow.partition (ws.foldl upsertRow x).snap := by
  induction ws with
  | nil => exact fun hx => hx
  | cons row ws ih => exact fun hx => ih (keeps_upsertRow row hx)

/-- An upsert writes its row. -/
theorem wrote_upsertRow (x : TableTxn WatermarkRow) (row : WatermarkRow) : (upsertRow x row).Wrote row := by
  simp only [upsertRow]
  split_ifs with hc
  · exact .inr (List.mem_append_right _ List.mem_cons_self)
  · have hpos : 0 < x.view.countP (·.partition = row.partition) := Nat.pos_of_ne_zero hc
    obtain ⟨a, ha, hp⟩ := List.countP_pos_iff.mp hpos
    rcases List.mem_append.mp ha with hsnap | hins
    · obtain ⟨y, hy, rfl⟩ := List.mem_map.mp hsnap
      exact .inl ⟨_, List.mem_map.mpr ⟨y, hy, rfl⟩, by rw [if_pos hp]⟩
    · exact .inr (List.mem_map.mpr ⟨a, hins, by rw [if_pos hp]⟩)

/-- An upsert of another partition leaves a written row written. -/
theorem wrote_upsertRow_of_ne {x : TableTxn WatermarkRow} {a row : WatermarkRow} (ha : x.Wrote a)
    (hne : row.partition ≠ a.partition) : (upsertRow x row).Wrote a := by
  have hy : (x.update (·.partition = row.partition) fun _ => row).Wrote a := by
    rcases ha with ⟨y, hy, hv⟩ | hins
    · refine .inl ⟨_, List.mem_map.mpr ⟨y, hy, rfl⟩, ?_⟩
      rw [if_neg]
      · exact hv
      · simpa [current, hv] using hne.symm
    · refine .inr (List.mem_map.mpr ⟨a, hins, ?_⟩)
      rw [if_neg]
      simpa using hne.symm
  simp only [upsertRow]
  split_ifs
  · rcases hy with hsnap | hins
    · exact .inl hsnap
    · exact .inr (List.mem_append_left _ hins)
  · exact hy

theorem wrote_upsertRows {before after : List WatermarkRow} {row : WatermarkRow}
    (hafter : ∀ r ∈ after, r.partition ≠ row.partition) (x : TableTxn WatermarkRow) :
    ((before ++ row :: after).foldl upsertRow x).Wrote row := by
  have hlast : ∀ (after : List WatermarkRow), (∀ r ∈ after, r.partition ≠ row.partition) →
      ∀ y : TableTxn WatermarkRow, y.Wrote row → (after.foldl upsertRow y).Wrote row := by
    intro after
    induction after with
    | nil => exact fun _ y hy => hy
    | cons r after ih =>
      intro hne y hy
      exact ih (fun s hs => hne s (List.mem_cons_of_mem _ hs)) _
        (wrote_upsertRow_of_ne hy (hne r List.mem_cons_self))
  rw [List.foldl_append, List.foldl_cons]
  exact hlast after hafter _ (wrote_upsertRow _ row)

section Staged

variable {config : DuckLakeConfig} {m : WindowManifest} {ws : List WatermarkRow} {l₀ l : Lake}

theorem staged_base : (staged config m ws l₀).base = l₀ := by
  simp only [Txn.base, staged, TableTxn.base_update, TableTxn.base_start, base_upsertRows]
  simp only [TableTxn.base, TableTxn.start, List.map_map]
  simp [Function.comp_def]

theorem staged_keeps : (staged config m ws l₀).Keeps where
  fence := (keepsKey_start l₀.fence).update fun _ _ => rfl
  manifests := keepsKey_start l₀.manifests
  watermarks := keeps_upsertRows ws (keepsKey_start l₀.watermarks)
  files := keepsKey_start l₀.files

/-- The fence update rewrites every fence row of the partition and no other. -/
theorem staged_rewrites : Rewrites FenceRow.partition m.partition (staged config m ws l₀).fence.snap := by
  intro y hy
  obtain ⟨z, hz, rfl⟩ := List.mem_map.mp hy
  obtain ⟨r, -, rfl⟩ := List.mem_map.mp hz
  rcases eq_or_ne r.value.partition m.partition with hp | hp
  · simp [current, hp]
  · simp [current, hp]

theorem start_none {α : Type} {t : Table α} : ∀ y ∈ (TableTxn.start t).snap, y.2 = none := by
  intro y hy
  obtain ⟨r, -, rfl⟩ := List.mem_map.mp hy
  rfl

/-- A batch finds the same parts missing on a synced snapshot as in the lake, if the fence of its
    partition still stands. -/
theorem missing_eq (h : Synced l₀ l) {n : ℕ} (hn : l₀.fenceStamp m.partition = some n)
    (hn' : l.fenceStamp m.partition = some n) : missing m l₀ = missing m l := by
  refine List.filter_congr fun part _ => ?_
  have hkeys : (m.partition, toI64 m.windowId, part) ∈ l.keys ↔
      (m.partition, toI64 m.windowId, part) ∈ l₀.keys := by
    refine ⟨?_, fun hmem => h.later.keys.subset hmem⟩
    intro hmem
    obtain ⟨c, hc, hkey⟩ := List.mem_map.mp hmem
    rw [← List.take_append_drop l₀.contents.length l.contents, List.mem_append] at hc
    rcases hc with hold | hnew
    · rw [← List.prefix_iff_eq_take.mp h.later.contents] at hold
      exact List.mem_map.mpr ⟨c, hold, hkey⟩
    · exact absurd (congrArg Prod.fst hkey) (h.quiet _ n hn hn' c hnew)
  simp only [hkeys]

/-- A staged transaction that lands where the same parts are missing as on its snapshot registers the
    batch. -/
theorem staged_merge (h : l₀.Later l) (hmissing : missing m l₀ = missing m l) :
    Registered config m ws l ((staged config m ws l₀).merge l) := by
  have hbase : (staged config m ws l₀).base.Later l := staged_base ▸ h
  refine ⟨?_, ?_, ?_⟩
  · have hover := overlay_none (t := l.manifests) start_none hbase.manifests
    simp only [Txn.merge, staged, TableTxn.merge, hmissing] at hover ⊢
    rw [hover]
    simp [values, Function.comp_def]
  · have hover := overlay_none (t := l.files) start_none hbase.files
    simp only [Txn.merge, staged, TableTxn.merge, hmissing] at hover ⊢
    rw [hover]
    simp [values, Function.comp_def]
  · rintro before row after rfl hafter
    exact (wrote_upsertRows hafter _).mem_merge hbase.watermarks

/-- One that commits on a synced snapshot registers all that the lake misses. -/
theorem staged_registers (h : Synced l₀ l) {n : ℕ} (hn : l₀.fenceStamp m.partition = some n)
    (hfresh : (staged config m ws l₀).fresh l = true) :
    Registered config m ws l ((staged config m ws l₀).merge l) := by
  have hbase : (staged config m ws l₀).base.Later l := staged_base ▸ h.later
  have hstamp : l.fenceStamp m.partition = some n :=
    fresh_stamp hfresh staged_rewrites hbase.fence (by
      rw [show (staged config m ws l₀).fence.snap.map (·.1) = l₀.fence from congrArg Lake.fence staged_base]
      exact hn)
  exact staged_merge h.later (missing_eq h hn hstamp)

/-- It adds the manifest rows it has staged. -/
theorem staged_contents (h : Synced l₀ l) :
    ((staged config m ws l₀).merge l).contents = l.contents ++ (missing m l₀).map (manifestRow m) := by
  have hbase : (staged config m ws l₀).base.Later l := staged_base ▸ h.later
  refine (TableTxn.merge_keys staged_keeps.manifests hbase.manifests).trans ?_
  rw [Lake.contents, staged, List.map_map]
  rfl

/-- It raises the fence of its partition. -/
theorem staged_raises (h : Synced l₀ l) {n : ℕ} (hn : l₀.fenceStamp m.partition = some n) :
    ∃ k, l.fenceStamp m.partition = some k ∧
      ((staged config m ws l₀).merge l).fenceStamp m.partition = some (k + 1) := by
  have hbase : (staged config m ws l₀).base.Later l := staged_base ▸ h.later
  obtain ⟨k, hk, -⟩ := h.later.fence.stamp_le hn
  have hsnap : stamp FenceRow.partition m.partition ((staged config m ws l₀).fence.snap.map (·.1)) = some n := by
    rw [show (staged config m ws l₀).fence.snap.map (·.1) = l₀.fence from congrArg Lake.fence staged_base]
    exact hn
  exact ⟨k, hk, stamp_append_of_some _
    (stamp_overlay_self staged_keeps.fence staged_rewrites hbase.fence hsnap hk)⟩

end Staged

/-! ### The writes of an expiry -/

/-- A transaction that only marks rows: it has no fence row to update and registers nothing. -/
structure Txn.Marks (x : Txn) : Prop where
  keeps : x.Keeps
  fence : ∀ y ∈ x.fence.snap, y.2 = none
  inserted : x.fence.inserted = []
  manifests : x.manifests.inserted = []
  watermarks : ∀ y ∈ x.watermarks.snap, y.2 = none
  published : x.watermarks.inserted = []

theorem marks_start (l : Lake) : (Txn.start l).Marks where
  keeps := ⟨keepsKey_start _, keepsKey_start _, keepsKey_start _, keepsKey_start _⟩
  fence := start_none
  inserted := rfl
  manifests := rfl
  watermarks := start_none
  published := rfl

theorem Txn.Marks.deleteRows {x : Txn} (hx : x.Marks) (table path : String) (pick : ℕ) :
    ((Query.deleteRows table path).exec pick x).2.Marks where
  keeps := { hx.keeps with files := hx.keeps.files.update fun _ _ => rfl }
  fence := hx.fence
  inserted := hx.inserted
  manifests := hx.manifests
  watermarks := hx.watermarks
  published := hx.published

theorem Txn.Marks.markExpired {x : Txn} (hx : x.Marks) (part : PartName) (pick : ℕ) :
    ((Query.markExpired part).exec pick x).2.Marks where
  keeps := { hx.keeps with manifests := hx.keeps.manifests.update fun _ _ => rfl }
  fence := hx.fence
  inserted := hx.inserted
  manifests := by simp only [Query.exec, TableTxn.update, hx.manifests, List.map_nil]
  watermarks := hx.watermarks
  published := hx.published

/-- Landing marks registers nothing. -/
theorem Txn.Marks.contents_merge {x : Txn} {l : Lake} (hx : x.Marks) (h : x.base.Later l) :
    (x.merge l).contents = l.contents := by
  have hkeys := TableTxn.merge_keys hx.keeps.manifests h.manifests
  rw [hx.manifests, List.map_nil, List.append_nil] at hkeys
  exact hkeys

/-- Nor does it publish anything. -/
theorem Txn.Marks.watermarks_merge {x : Txn} {l : Lake} (hx : x.Marks) (h : x.base.Later l) :
    (x.merge l).watermarks = l.watermarks := by
  have hover := overlay_none (t := l.watermarks) hx.watermarks h.watermarks
  simp only [Txn.merge, TableTxn.merge, hover, hx.published, List.map_nil, List.append_nil]

end Duckspout
