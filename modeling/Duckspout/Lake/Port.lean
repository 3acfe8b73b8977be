import Duckspout.Lake.Transaction

/-! `commit_files` as its callers see it: a batch lands whole, in one step, and a batch whose parts are
    all registered already lands as nothing. -/

namespace Duckspout

open Snapshot

/-- The lake with a fence row for the partition. -/
def Lake.withFence (l : Lake) (p : PartitionId) : Lake :=
  if (values l.fence).any (·.partition = p) then l else { l with fence := l.fence ++ [{ value := ⟨p, -1⟩ }] }

/-- The lake after a batch has landed: nothing new if every part has a manifest row, and otherwise the
    transaction `stage_commit_writes` leaves. -/
def Lake.register (config : DuckLakeConfig) (m : WindowManifest) (ws : List WatermarkRow) (l : Lake) : Lake :=
  let l := l.withFence m.partition
  if missing m l = [] ∧ m.parts ≠ [] then l else (staged config m ws l).merge l

variable {config : DuckLakeConfig} {m : WindowManifest} {ws : List WatermarkRow} {l : Lake}

@[simp] theorem withFence_manifests (p : PartitionId) : (l.withFence p).manifests = l.manifests := by
  simp only [Lake.withFence]
  split_ifs
  all_goals rfl

@[simp] theorem withFence_watermarks (p : PartitionId) : (l.withFence p).watermarks = l.watermarks := by
  simp only [Lake.withFence]
  split_ifs
  all_goals rfl

@[simp] theorem withFence_files (p : PartitionId) : (l.withFence p).files = l.files := by
  simp only [Lake.withFence]
  split_ifs
  all_goals rfl

@[simp] theorem missing_withFence (p : PartitionId) : missing m (l.withFence p) = missing m l := by
  have hkeys : (l.withFence p).keys = l.keys := by simp only [Lake.keys, Lake.contents, withFence_manifests]
  simp only [missing, hkeys]

/-- A part is missing unless a row has its name. -/
theorem mem_missing {part : PartName} (h : part ∈ m.parts) :
    part ∈ missing m l ↔ ∀ r ∈ values l.manifests, r.key ≠ (m.partition, toI64 m.windowId, part) := by
  simp only [missing, List.mem_filter, h, true_and, decide_eq_true_eq, Lake.keys, Lake.contents, List.map_map,
    List.mem_map, not_exists, not_and, Function.comp, ManifestRow.key_content, ne_eq]

/-- Landing a batch is what the committer's transaction does, or nothing where nothing is missing. -/
theorem register_cases (config : DuckLakeConfig) (m : WindowManifest) (ws : List WatermarkRow) (l : Lake) :
    Registered config m ws l (l.register config m ws) ∨
      (missing m l = [] ∧ m.parts ≠ [] ∧ (l.register config m ws).manifests = l.manifests ∧
        (l.register config m ws).watermarks = l.watermarks ∧ (l.register config m ws).files = l.files) := by
  simp only [Lake.register, missing_withFence]
  split_ifs with h
  · exact .inr ⟨h.1, h.2, by simp, by simp, by simp⟩
  · have hreg : Registered config m ws (l.withFence m.partition) _ := staged_merge (Lake.Later.refl _) rfl
    refine .inl ⟨?_, ?_, hreg.watermarks⟩
    · simpa using hreg.manifests
    · simpa using hreg.files

/-- Landing a batch adds the manifest rows of its missing parts. -/
theorem values_register : values (l.register config m ws).manifests =
    values l.manifests ++ (missing m l).map (manifestRow m) := by
  rcases register_cases config m ws l with hreg | ⟨hnone, -, hsame, -⟩
  · exact hreg.manifests
  · rw [hsame, hnone, List.map_nil, List.append_nil]

theorem manifests_register : values l.manifests <+: values (l.register config m ws).manifests := by
  rw [values_register]
  exact List.prefix_append _ _

/-- A row of the lake after a batch has landed was there, or is of a part of the batch. -/
theorem mem_manifests_register {r : ManifestRow} (hr : r ∈ values (l.register config m ws).manifests) :
    r ∈ values l.manifests ∨ ∃ part ∈ m.parts, r = manifestRow m part := by
  rw [values_register] at hr
  rcases List.mem_append.mp hr with hold | hnew
  · exact .inl hold
  · obtain ⟨part, hpart, rfl⟩ := List.mem_map.mp hnew
    exact .inr ⟨part, (List.mem_filter.mp hpart).1, rfl⟩

/-- A landed part has its row, or a row of its name was there. -/
theorem registered_or_there {part : PartName} (h : part ∈ m.parts) :
    manifestRow m part ∈ values (l.register config m ws).manifests ∨
    ∃ r ∈ values l.manifests, r.key = (m.partition, toI64 m.windowId, part) := by
  by_cases hreg : part ∈ missing m l
  · rw [values_register]
    exact .inl (List.mem_append_right _ (List.mem_map.mpr ⟨_, hreg, rfl⟩))
  · simp only [mem_missing h, not_forall, not_not] at hreg
    obtain ⟨r, hr, hkey⟩ := hreg
    exact .inr ⟨r, hr, hkey⟩

theorem mem_view_upsertRow {x : TableTxn WatermarkRow} {row r : WatermarkRow}
    (h : r ∈ (upsertRow x row).view) : r ∈ x.view ∨ r = row := by
  have hupdate : ∀ r, r ∈ (x.update (·.partition = row.partition) fun _ => row).view → r ∈ x.view ∨ r = row := by
    intro r hr
    rcases List.mem_append.mp hr with hsnap | hins
    · simp only [TableTxn.update, List.map_map, List.mem_map, Function.comp] at hsnap
      obtain ⟨y, hy, rfl⟩ := hsnap
      split_ifs
      · exact .inr rfl
      · exact .inl (List.mem_append_left _ (List.mem_map.mpr ⟨y, hy, rfl⟩))
    · obtain ⟨a, ha, rfl⟩ := List.mem_map.mp hins
      split_ifs
      · exact .inr rfl
      · exact .inl (List.mem_append_right _ ha)
  simp only [upsertRow] at h
  split_ifs at h
  · rcases List.mem_append.mp h with hsnap | hins
    · exact hupdate r (List.mem_append_left _ hsnap)
    · rcases List.mem_append.mp hins with hins | hnew
      · exact hupdate r (List.mem_append_right _ hins)
      · exact .inr (List.mem_singleton.mp hnew)
  · exact hupdate r h

theorem mem_view_upsertRows {r : WatermarkRow} (ws : List WatermarkRow) : ∀ {x : TableTxn WatermarkRow},
    r ∈ (ws.foldl upsertRow x).view → r ∈ x.view ∨ r ∈ ws := by
  induction ws with
  | nil => exact fun h => .inl h
  | cons row ws ih =>
    intro x h
    rcases ih h with hx | hmem
    · rcases mem_view_upsertRow hx with hold | rfl
      · exact .inl hold
      · exact .inr List.mem_cons_self
    · exact .inr (List.mem_cons_of_mem _ hmem)

/-- An upsert leaves the rows of other partitions. -/
theorem mem_view_upsertRow_of_ne {x : TableTxn WatermarkRow} {row r : WatermarkRow} (h : r ∈ x.view)
    (hne : row.partition ≠ r.partition) : r ∈ (upsertRow x row).view := by
  have hupdate : r ∈ (x.update (·.partition = row.partition) fun _ => row).view := by
    rcases List.mem_append.mp h with hsnap | hins
    · obtain ⟨y, hy, rfl⟩ := List.mem_map.mp hsnap
      refine List.mem_append_left _ (List.mem_map.mpr ⟨_, List.mem_map.mpr ⟨y, hy, rfl⟩, ?_⟩)
      rw [if_neg (by simpa using hne.symm)]
    · exact List.mem_append_right _ (List.mem_map.mpr ⟨r, hins, if_neg (by simpa using hne.symm)⟩)
  simp only [upsertRow]
  split_ifs
  · rcases List.mem_append.mp hupdate with hsnap | hins
    · exact List.mem_append_left _ hsnap
    · exact List.mem_append_right _ (List.mem_append_left _ hins)
  · exact hupdate

theorem mem_view_upsertRows_of_ne {r : WatermarkRow} (ws : List WatermarkRow) : ∀ {x : TableTxn WatermarkRow},
    r ∈ x.view → (∀ row ∈ ws, row.partition ≠ r.partition) → r ∈ (ws.foldl upsertRow x).view := by
  induction ws with
  | nil => exact fun h _ => h
  | cons row ws ih =>
    intro x h hne
    exact ih (mem_view_upsertRow_of_ne h (hne row List.mem_cons_self)) fun row' h' => hne row' (List.mem_cons_of_mem _ h')

/-- Landing a batch upserts its watermark rows, or leaves the watermarks where nothing is missing. -/
theorem watermarks_register_cases (config : DuckLakeConfig) (m : WindowManifest) (ws : List WatermarkRow) (l : Lake) :
    (missing m l = [] ∧ (l.register config m ws).watermarks = l.watermarks) ∨
    values (l.register config m ws).watermarks = (ws.foldl upsertRow (.start l.watermarks)).view := by
  simp only [Lake.register, missing_withFence]
  split_ifs with hnone
  · exact .inl ⟨hnone.1, withFence_watermarks _⟩
  · have hbase : (staged config m ws (l.withFence m.partition)).watermarks.base = l.watermarks := by
      rw [show (staged config m ws (l.withFence m.partition)).watermarks.base =
        (l.withFence m.partition).watermarks from congrArg Lake.watermarks staged_base, withFence_watermarks]
    have hview := (staged config m ws (l.withFence m.partition)).watermarks.values_merge_base
    rw [hbase] at hview
    refine .inr ?_
    simp only [Txn.merge, withFence_watermarks]
    rw [hview]
    simp only [staged, withFence_watermarks]

/-- Landing a batch writes no watermark rows but its own. -/
theorem mem_watermarks_register {r : WatermarkRow} (h : r ∈ values (l.register config m ws).watermarks) :
    r ∈ values l.watermarks ∨ r ∈ ws := by
  rcases watermarks_register_cases config m ws l with ⟨-, hsame⟩ | hview
  · rw [hsame] at h
    exact .inl h
  · rw [hview] at h
    rcases mem_view_upsertRows ws h with hold | hnew
    · rw [TableTxn.view_start] at hold
      exact .inl hold
    · exact .inr hnew

/-- It leaves the watermark rows of other partitions. -/
theorem mem_watermarks_register_of_ne {r : WatermarkRow} (h : r ∈ values l.watermarks)
    (hne : ∀ row ∈ ws, row.partition ≠ r.partition) : r ∈ values (l.register config m ws).watermarks := by
  rcases watermarks_register_cases config m ws l with ⟨-, hsame⟩ | hview
  · rw [hsame]
    exact h
  · rw [hview]
    refine mem_view_upsertRows_of_ne ws ?_ hne
    rw [TableTxn.view_start]
    exact h

/-! ### The read at boot -/

/-- The coverage a row stores. -/
def ManifestRow.coverage (r : ManifestRow) : List OriginSeqRange :=
  match r.originCoverage with
  | .encoded coverage => coverage
  | .other _ => []

/-- The manifest was read from the row; its parts may be those of several rows. -/
structure ReadFrom (r : ManifestRow) (m : WindowManifest) : Prop where
  coverage : r.originCoverage = .encoded m.originCoverage
  manifest : m = { r.manifest m.originCoverage with parts := m.parts }

theorem collectRow_readFrom {rows : List ManifestRow} {acc ms : List WindowManifest} {r : ManifestRow}
    (hr : r ∈ rows) (hacc : ∀ m ∈ acc, ∃ r ∈ rows, ReadFrom r m) (h : collectRow acc r = .ok ms) :
    ∀ m ∈ ms, ∃ r ∈ rows, ReadFrom r m := by
  have hfirst : ∀ coverage, r.originCoverage.decode = .ok coverage →
      ∀ m ∈ acc ++ [r.manifest coverage], ∃ r ∈ rows, ReadFrom r m := by
    intro coverage hdec m hm
    rcases List.mem_append.mp hm with hold | hnew
    · exact hacc m hold
    · obtain rfl := List.mem_singleton.mp hnew
      refine ⟨r, hr, ?_, rfl⟩
      cases htext : r.originCoverage with
      | encoded cov =>
        rw [htext] at hdec
        cases hdec
        rfl
      | other text =>
        rw [htext] at hdec
        cases hdec
  simp only [collectRow] at h
  split at h
  · rename_i last hlast
    split_ifs at h
    · -- the row adds its part to the last manifest read
      cases h
      intro m hm
      rcases List.mem_append.mp hm with hold | hnew
      · exact hacc m (List.dropLast_subset _ hold)
      · obtain rfl := List.mem_singleton.mp hnew
        obtain ⟨r', hr', hcov, hman⟩ := hacc last (List.mem_of_getLast? hlast)
        exact ⟨r', hr', hcov,
          congrArg (fun x : WindowManifest => { x with parts := last.parts ++ [r.partName] }) hman⟩
    · split at h
      · rename_i coverage hdec
        cases h
        exact hfirst coverage hdec
      · cases h
  · split at h
    · rename_i coverage hdec
      cases h
      exact hfirst coverage hdec
    · cases h

theorem collectRows_readFrom {rows : List ManifestRow} : ∀ (rest : List ManifestRow) {acc ms : List WindowManifest},
    (∀ r ∈ rest, r ∈ rows) → (∀ m ∈ acc, ∃ r ∈ rows, ReadFrom r m) → rest.foldlM collectRow acc = .ok ms →
    ∀ m ∈ ms, ∃ r ∈ rows, ReadFrom r m := by
  intro rest
  induction rest with
  | nil =>
    intro acc ms _ hacc h
    obtain rfl := Except.ok.inj h
    exact hacc
  | cons r rest ih =>
    intro acc ms hrows hacc h
    rw [List.foldlM_cons] at h
    cases hmid : collectRow acc r with
    | error e =>
      rw [hmid] at h
      cases h
    | ok mid =>
      rw [hmid] at h
      exact ih (fun r' hr' => hrows r' (List.mem_cons_of_mem _ hr'))
        (collectRow_readFrom (hrows r List.mem_cons_self) hacc hmid) h

/-- Every manifest read was registered. -/
theorem mem_readManifests {ms : List WindowManifest} (h : readManifests l = .ok ms) :
    ∀ m ∈ ms, ∃ r ∈ values l.manifests, ReadFrom r m :=
  collectRows_readFrom _ (fun _ hr => (List.mem_insertionSort rowLe).mp hr) (fun m hm => by cases hm) h

end Duckspout
