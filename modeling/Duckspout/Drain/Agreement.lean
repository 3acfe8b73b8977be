import Duckspout.Drain.Outline
import Duckspout.Watermark.Core

/-! When ledgers and lake agree: every window a ledger has recorded is in the lake with the coverage the
    ledger has for it.

    A commit whose answer was lost may be repeated with another content under the same name, which the
    committer answers as if it had landed. Where attempts submit the content the lake already holds, if it
    holds any, the record of every ledger is an initial part of the lake's, and a watermark that has passed
    the one an attempt would have set shows that its window is stored. -/

namespace Duckspout

open Snapshot Threads

/-! ### The record of the lake -/

/-- The manifest a row stores. -/
def ManifestRow.stored (r : ManifestRow) : WindowManifest := r.manifest r.coverage

/-- The windows the lake stores for a partition, in the order of their commits. -/
def Lake.windows (l : Lake) (p : PartitionId) : List WindowManifest :=
  ((values l.manifests).filter (·.partition = p)).map ManifestRow.stored

/-- Where the lake holds a manifest of the batch's window, it has the batch's content. -/
def SameContent (m : WindowManifest) (l : Lake) : Prop :=
  ∀ r ∈ values l.manifests, r.partition = m.partition → r.windowId = toI64 m.windowId →
    r.dataset = m.dataset ∧ r.coverage = m.originCoverage ∧ r.eventTimeMaxMs = m.eventTimeMaxMs

/-- The condition on a call, in the state before it: a batch is submitted, or taken to have landed, only
    with the content the lake has for its window, if it has one, and under a window id that the lake can
    store. -/
def NothingElseStored : DrainOp → DrainState → Prop
  | .commitFiles m _, s => m.windowId ≤ i64Max ∧ SameContent m s.lake
  | .readWatermarks ps sub, s => sub.observed (readWatermarks s.lake ps) = true → SameContent sub.manifest s.lake
  | _, _ => True

instance (m : WindowManifest) (l : Lake) : Decidable (SameContent m l) :=
  inferInstanceAs (Decidable (∀ r ∈ values l.manifests, r.partition = m.partition → r.windowId = toI64 m.windowId →
    r.dataset = m.dataset ∧ r.coverage = m.originCoverage ∧ r.eventTimeMaxMs = m.eventTimeMaxMs))

instance : (o : DrainOp) → (s : DrainState) → Decidable (NothingElseStored o s)
  | .commitFiles m _, s => inferInstanceAs (Decidable (m.windowId ≤ i64Max ∧ SameContent m s.lake))
  | .readWatermarks ps sub, s => inferInstanceAs (Decidable
    (sub.observed (readWatermarks s.lake ps) = true → SameContent sub.manifest s.lake))
  | .nextWindow _, _ | .completeThroughMs _, _ | .sealWindow _, _ | .advanceFor _, _ | .scratchGet _, _
  | .putPart _ _, _ | .recordCommit _, _ | .scratchDelete _, _ | .recordedCoverage _ _, _
  | .dropWindow _ _, _ => isTrue trivial

section

variable {config : DuckLakeConfig} {l l' : Lake} {p : PartitionId}

theorem mem_windows {m : WindowManifest} :
    m ∈ l.windows p ↔ ∃ r ∈ values l.manifests, r.partition = p ∧ r.stored = m := by
  simp [Lake.windows, and_assoc]

/-- A row is a batch's own row, under a window id that was stored as it is. -/
structure RowOf (m : WindowManifest) (r : ManifestRow) : Prop where
  row : r = manifestRow m m.windowPart
  window : m.windowId ≤ i64Max

theorem RowOf.core {m : WindowManifest} {r : ManifestRow} (h : RowOf m r) : r.stored.core = m.core := by
  rw [h.row]
  simp only [WindowManifest.core, ManifestRow.stored, ManifestRow.manifest, manifestRow, toWindowId_toI64 h.window,
    ManifestRow.coverage]

theorem RowOf.windowId {m : WindowManifest} {r : ManifestRow} (h : RowOf m r) : r.windowId = m.windowId := by
  rw [h.row]
  exact toI64_of_le h.window

/-- The lake's rows are rows of batches, each partition's record is dense, and no watermark is ahead of
    it. -/
structure LakeDense (l : Lake) : Prop where
  rows : ∀ r ∈ values l.manifests, ∃ m, RowOf m r
  dense : ∀ p, Dense (l.windows p)
  watermarks : ∀ r ∈ values l.watermarks, ∃ t, watermarkOf (l.windows r.partition) = some t ∧ r.completeThroughMs ≤ t

/-- The row of a stored window. -/
theorem LakeDense.row_of_lt (h : LakeDense l) {w : ℕ} (hw : w < (l.windows p).length) :
    ∃ r ∈ values l.manifests, r.partition = p ∧ r.windowId = w ∧ (l.windows p)[w]? = some r.stored := by
  obtain ⟨r, hr, hp, hst⟩ := mem_windows.mp (List.getElem_mem hw)
  obtain ⟨m, hm⟩ := h.rows r hr
  have hwin : m.windowId = w := by
    have hcore : r.stored.windowId = m.windowId := congrArg (·.1) hm.core
    rw [← hcore, hst]
    exact (h.dense p).window w hw
  refine ⟨r, hr, hp, ?_, ?_⟩
  · rw [hm.windowId, hwin]
  · rw [List.getElem?_eq_getElem hw, hst]

/-- A stored window of the batch's number. -/
theorem LakeDense.getElem?_of_row (h : LakeDense l) {r : ManifestRow} (hr : r ∈ values l.manifests) {w : ℕ}
    (hw : r.windowId = w) : (l.windows r.partition)[w]? = some r.stored := by
  obtain ⟨m, hm⟩ := h.rows r hr
  refine (h.dense r.partition).getElem?_iff.mpr ⟨mem_windows.mpr ⟨r, hr, rfl, rfl⟩, ?_⟩
  have hcore : r.stored.windowId = m.windowId := congrArg (·.1) hm.core
  rw [hm.windowId] at hw
  rw [hcore]
  exact_mod_cast hw

/-- The batch is stored in its place, with its content. -/
def Stands (l : Lake) (m : WindowManifest) : Prop :=
  (l.windows m.partition)[m.windowId]?.map WindowManifest.core = some m.core

/-- A window in the batch's place is the batch, where nothing else is stored. -/
theorem LakeDense.stands_of_lt {m : WindowManifest} (h : LakeDense l) (hsame : SameContent m l)
    (hlt : m.windowId < (l.windows m.partition).length) : Stands l m := by
  obtain ⟨r, hr, hp, hw, hget⟩ := h.row_of_lt hlt
  obtain ⟨b, hb⟩ := h.rows r hr
  have hbw : b.windowId = m.windowId := by
    rw [hb.windowId] at hw
    exact_mod_cast hw
  have hwin : r.windowId = toI64 m.windowId := by rw [hw, toI64_of_le (hbw ▸ hb.window)]
  obtain ⟨hd, hcov, hmax⟩ := hsame r hr hp hwin
  rw [Stands, hget, Option.map_some, Option.some.injEq]
  have hnum : r.stored.windowId = m.windowId := (congrArg (·.1) hb.core).trans hbw
  rw [WindowManifest.core, hnum]
  exact congrArg (Prod.mk _) (by rw [← hd, ← hcov, ← hmax]; rfl)

/-! ### A batch lands -/

/-- What a preview says: the batch continues the record at its place, with the watermarks before and
    after it. -/
structure Previewed (l : Lake) (sub : Submission) : Prop where
  parts : sub.manifest.parts = [sub.manifest.windowPart]
  dense : Dense ((l.windows sub.manifest.partition).take sub.manifest.windowId ++ [sub.manifest])
  previewed : sub.previewed = (watermarkOf ((l.windows sub.manifest.partition).take sub.manifest.windowId ++
    [sub.manifest])).map (WatermarkRow.mk sub.manifest.partition)
  prior : sub.prior = watermarkOf ((l.windows sub.manifest.partition).take sub.manifest.windowId)

theorem Previewed.le {sub : Submission} (h : Previewed l sub) :
    sub.manifest.windowId ≤ (l.windows sub.manifest.partition).length := by
  have hwin := h.dense.window ((l.windows sub.manifest.partition).take sub.manifest.windowId).length (by simp)
  rw [List.getElem_concat_length rfl] at hwin
  rw [List.length_take] at hwin
  have hmin : min sub.manifest.windowId (l.windows sub.manifest.partition).length = sub.manifest.windowId := hwin.symm
  exact min_eq_left_iff.mp hmin

/-- The record of the lake is kept. -/
def Extends (l l' : Lake) : Prop := ∀ p, l.windows p <+: l'.windows p

theorem Extends.refl (l : Lake) : Extends l l := fun _ => List.prefix_refl _

theorem take_of_prefixed {xs ys : List WindowManifest} (h : xs <+: ys) {n : ℕ} (hn : n ≤ xs.length) :
    ys.take n = xs.take n := by
  obtain ⟨rest, rfl⟩ := h
  exact List.take_append_of_le_length hn

theorem Previewed.mono {sub : Submission} (h : Previewed l sub) (hl : Extends l l') : Previewed l' sub := by
  have htake := take_of_prefixed (hl sub.manifest.partition) h.le
  refine ⟨h.parts, ?_, ?_, ?_⟩
  · rw [htake]
    exact h.dense
  · rw [htake]
    exact h.previewed
  · rw [htake]
    exact h.prior

theorem Stands.mono {m : WindowManifest} (h : Stands l m) (hl : Extends l l') : Stands l' m := by
  obtain ⟨d, hd, hcore⟩ := Option.map_eq_some_iff.mp h
  obtain ⟨rest, hrest⟩ := hl m.partition
  rw [Stands, ← hrest, List.getElem?_append_left (List.getElem?_eq_some_iff.mp hd).1]
  exact h

theorem windows_append {rows : List ManifestRow} (h : values l'.manifests = values l.manifests ++ rows) (p : PartitionId) :
    l'.windows p = l.windows p ++ (rows.filter (·.partition = p)).map ManifestRow.stored := by
  rw [Lake.windows, h, List.filter_append, List.map_append]
  rfl

theorem extends_register {m : WindowManifest} {ws : List WatermarkRow} : Extends l (l.register config m ws) := by
  intro p
  rw [windows_append values_register]
  exact List.prefix_append _ _

/-- Where a batch adds a row, nothing was stored for its window, and it comes next. -/
theorem length_of_missing {m : WindowManifest} (h : LakeDense l) (hparts : m.parts = [m.windowPart])
    (hsame : SameContent m l) (hw : m.windowId ≤ i64Max) (hle : m.windowId ≤ (l.windows m.partition).length)
    (hmiss : m.windowPart ∈ missing m l) : (l.windows m.partition).length = m.windowId := by
  refine Nat.le_antisymm (Nat.le_of_not_lt fun hlt => ?_) hle
  obtain ⟨r, hr, hp, hrw, -⟩ := h.row_of_lt hlt
  obtain ⟨b, hb⟩ := h.rows r hr
  have hwin : r.windowId = toI64 m.windowId := by rw [hrw, toI64_of_le hw]
  obtain ⟨hd, -, -⟩ := hsame r hr hp hwin
  -- the stored row has the batch's dataset and window, so it has its name
  have hbw : b.windowId = m.windowId := by
    rw [hb.windowId] at hrw
    exact_mod_cast hrw
  have hname : r.partName = m.windowPart := by
    rw [hb.row] at hd hp ⊢
    change b.dataset = m.dataset at hd
    change b.partition = m.partition at hp
    change b.windowPart = m.windowPart
    rw [WindowManifest.windowPart, WindowManifest.windowPart, hd, hp, hbw]
  have hpart : m.windowPart ∈ m.parts := by simp [hparts]
  refine (mem_missing hpart).mp hmiss r hr ?_
  rw [ManifestRow.key, hp, hwin, hname]

/-- A batch with nothing missing is stored. -/
theorem stands_of_registered {m : WindowManifest} (h : LakeDense l) (hparts : m.parts = [m.windowPart])
    (hsame : SameContent m l) (hw : m.windowId ≤ i64Max) (hmiss : m.windowPart ∉ missing m l) : Stands l m := by
  have hpart : m.windowPart ∈ m.parts := by simp [hparts]
  simp only [mem_missing hpart, not_forall, not_not] at hmiss
  obtain ⟨r, hr, hkey⟩ := hmiss
  have hp : r.partition = m.partition := congrArg Prod.fst hkey
  have hrw : r.windowId = m.windowId := by
    rw [show r.windowId = toI64 m.windowId from congrArg (·.2.1) hkey, toI64_of_le hw]
  have hget := h.getElem?_of_row hr hrw
  rw [hp] at hget
  exact h.stands_of_lt hsame (List.getElem?_eq_some_iff.mp hget).1

theorem missing_of_parts {m : WindowManifest} (hparts : m.parts = [m.windowPart]) (l : Lake) :
    (m.windowPart ∉ missing m l ∧ missing m l = []) ∨ (m.windowPart ∈ missing m l ∧ missing m l = [m.windowPart]) := by
  have hsub : missing m l ⊆ [m.windowPart] := hparts ▸ List.filter_sublist.subset
  rcases hmiss : missing m l with _ | ⟨part, rest⟩
  · exact .inl ⟨List.not_mem_nil, rfl⟩
  · have hlen : (missing m l).length ≤ 1 := by
      refine (List.length_filter_le _ _).trans ?_
      rw [hparts]
      rfl
    rw [hmiss] at hsub hlen
    obtain rfl : part = m.windowPart := List.mem_singleton.mp (hsub List.mem_cons_self)
    obtain rfl : rest = [] := List.eq_nil_of_length_eq_zero (by simpa using hlen)
    exact .inr ⟨List.mem_cons_self, rfl⟩

theorem windows_withFence (p q : PartitionId) : (l.withFence p).windows q = l.windows q := by
  rw [Lake.windows, withFence_manifests]
  rfl

/-- Only the fence differs. -/
theorem LakeDense.withFence (h : LakeDense l) (p : PartitionId) : LakeDense (l.withFence p) := by
  refine ⟨?_, fun q => ?_, ?_⟩
  · rw [withFence_manifests]
    exact h.rows
  · rw [windows_withFence]
    exact h.dense q
  · rw [withFence_watermarks]
    intro r hr
    rw [windows_withFence]
    exact h.watermarks r hr

/-- The window a batch adds continues the record as the batch does. -/
theorem core_concat {ms : List WindowManifest} {m : WindowManifest} {r : ManifestRow} (hr : RowOf m r) :
    (ms ++ [r.stored]).map WindowManifest.core = (ms ++ [m]).map WindowManifest.core := by
  rw [List.map_append, List.map_append, List.map_singleton, List.map_singleton, hr.core]

section Added

variable {m : WindowManifest} {ws : List WatermarkRow}

/-- The row of a batch that was missing is the next window of its partition. -/
theorem windows_register_own (hone : missing m l = [m.windowPart]) :
    (l.register config m ws).windows m.partition =
      l.windows m.partition ++ [(manifestRow m m.windowPart).stored] := by
  rw [windows_append values_register, hone]
  simp [manifestRow]

theorem windows_register_other (hone : missing m l = [m.windowPart]) (hp : m.partition ≠ p) :
    (l.register config m ws).windows p = l.windows p := by
  rw [windows_append values_register, hone]
  simp [manifestRow, hp]

theorem dense_register (h : LakeDense l) (hone : missing m l = [m.windowPart]) (hw : m.windowId ≤ i64Max)
    (hdense : Dense (l.windows m.partition ++ [m])) (p : PartitionId) :
    Dense ((l.register config m ws).windows p) := by
  have hrow : RowOf m (manifestRow m m.windowPart) := ⟨rfl, hw⟩
  rcases eq_or_ne m.partition p with rfl | hp
  · rw [windows_register_own hone]
    refine dense_core (core_concat hrow) hdense fun m' hm' => ?_
    rcases List.mem_append.mp hm' with hold | hlast
    · exact (h.dense _).times m' hold
    · obtain rfl := List.mem_singleton.mp hlast
      exact hdense.times m (by simp)
  · rw [windows_register_other hone hp]
    exact h.dense p

/-- The watermark rows of a batch that was missing stand at the watermark of its record. -/
theorem watermarks_register (h : LakeDense l) (hone : missing m l = [m.windowPart]) (hw : m.windowId ≤ i64Max)
    (hdense : Dense (l.windows m.partition ++ [m]))
    (hws : ∀ r ∈ ws, r.partition = m.partition ∧ watermarkOf (l.windows m.partition ++ [m]) = some r.completeThroughMs) :
    ∀ r ∈ values (l.register config m ws).watermarks,
      ∃ t, watermarkOf ((l.register config m ws).windows r.partition) = some t ∧ r.completeThroughMs ≤ t := by
  intro r hr
  rcases mem_watermarks_register hr with hold | hadded
  · obtain ⟨t, ht, hle⟩ := h.watermarks r hold
    obtain ⟨t', ht', hle'⟩ := watermarkOf_mono (dense_register h hone hw hdense _) (extends_register r.partition) ht
    exact ⟨t', ht', hle.trans hle'⟩
  · obtain ⟨hp, ht⟩ := hws r hadded
    refine ⟨r.completeThroughMs, ?_, le_rfl⟩
    rw [hp, windows_register_own hone, watermarkOf_core (core_concat ⟨rfl, hw⟩), ht]

end Added

/-- A batch that lands in its place keeps the lake dense, and is stored. -/
theorem lakeDense_register {sub : Submission} (h : LakeDense l) (hsub : Previewed l sub)
    (hw : sub.manifest.windowId ≤ i64Max) (hsame : SameContent sub.manifest l) :
    LakeDense (l.register config sub.manifest sub.previewed.toList) ∧
      Stands (l.register config sub.manifest sub.previewed.toList) sub.manifest := by
  have hle := hsub.le
  obtain ⟨hparts, hdense, hpreview, -⟩ := hsub
  generalize sub.manifest = m at *
  rcases missing_of_parts hparts l with ⟨hmiss, hnone⟩ | ⟨hmiss, hone⟩
  · have heq : l.register config m sub.previewed.toList = l.withFence m.partition := by
      rw [Lake.register, missing_withFence, if_pos ⟨hnone, by simp [hparts]⟩]
    rw [heq, Stands, windows_withFence]
    exact ⟨h.withFence _, stands_of_registered h hparts hsame hw hmiss⟩
  · have hlen := length_of_missing h hparts hsame hw hle hmiss
    rw [← hlen, List.take_length] at hdense hpreview
    refine ⟨⟨fun r hr => ?_, dense_register h hone hw hdense, watermarks_register h hone hw hdense ?_⟩, ?_⟩
    · rw [values_register, hone, List.map_singleton] at hr
      rcases List.mem_append.mp hr with hold | hlast
      · exact h.rows r hold
      · exact ⟨m, List.mem_singleton.mp hlast, hw⟩
    · intro r hr
      rw [Option.mem_toList, hpreview, Option.map_eq_some_iff] at hr
      obtain ⟨t, ht, rfl⟩ := hr
      exact ⟨rfl, ht⟩
    · have hrow : RowOf m (manifestRow m m.windowPart) := ⟨rfl, hw⟩
      rw [Stands, windows_register_own hone, ← hlen, List.getElem?_append_right le_rfl, Nat.sub_self,
        List.getElem?_cons_zero, Option.map_some, hrow.core]

/-! ### The ledgers -/

/-- The record of the ledger is an initial part of the lake's. -/
def Follows (l : Lake) (ledger : WatermarkLedger) : Prop :=
  ∃ ms, Represents ledger ms [] ∧
    ∀ p, (commitsOn p ms).map WindowManifest.core <+: (l.windows p).map WindowManifest.core

section Ledger

variable {ledger : WatermarkLedger}

theorem follows_empty : Follows l {} := ⟨[], represents_empty, fun _ => List.nil_prefix⟩

theorem Follows.mono (h : Follows l ledger) (hl : Extends l l') : Follows l' ledger := by
  obtain ⟨ms, hrep, hpre⟩ := h
  exact ⟨ms, hrep, fun p => (hpre p).trans ((hl p).map _)⟩

theorem Follows.nextWindow_le (h : Follows l ledger) (p : PartitionId) :
    ledger.nextWindow p ≤ (l.windows p).length := by
  obtain ⟨ms, hrep, hpre⟩ := h
  rw [hrep.nextWindow]
  simpa using (hpre p).length_le

/-- The ledger's record of a partition and the windows it follows have the same cores. -/
theorem core_take {ms : List WindowManifest} (h : ms.map WindowManifest.core <+: (l.windows p).map WindowManifest.core) :
    ms.map WindowManifest.core = ((l.windows p).take ms.length).map WindowManifest.core := by
  rw [List.map_take]
  simpa using List.prefix_iff_eq_take.mp h

/-- The ledger's watermark is that of the windows it has recorded. -/
theorem Follows.completeThroughMs (h : Follows l ledger) (p : PartitionId) :
    ledger.completeThroughMs p = watermarkOf ((l.windows p).take (ledger.nextWindow p)) := by
  obtain ⟨ms, hrep, hpre⟩ := h
  rw [hrep.completeThroughMs, hrep.nextWindow]
  exact watermarkOf_core (core_take (hpre p))

/-- A recorded batch that stands keeps the ledger behind the lake. -/
theorem Follows.recordCommit {m : WindowManifest} (h : Follows l ledger) (hm : Stands l m) :
    Follows l (ledger.recordCommit m).2 := by
  obtain ⟨ms, hrep, hpre⟩ := h
  rcases recordCommit_cases hrep m with ⟨next, hdense, heq, hnext⟩ | ⟨e, heq⟩
  · rw [heq]
    refine ⟨ms ++ [m], hnext, fun p => ?_⟩
    rcases eq_or_ne m.partition p with rfl | hp
    · have hw : m.windowId = (commitsOn m.partition ms).length :=
        ((dense_append (hrep.dense _) m).mp hdense).2.2.1
      rw [Stands, hw, ← List.getElem?_map] at hm
      obtain ⟨rest, hrest⟩ := hpre m.partition
      rw [← hrest, List.getElem?_append_right (by simp), List.length_map, Nat.sub_self] at hm
      obtain ⟨tail, rfl⟩ : ∃ tail, rest = m.core :: tail := by
        cases rest with
        | nil => cases hm
        | cons c tail => exact ⟨tail, by rw [List.getElem?_cons_zero, Option.some.injEq] at hm; rw [hm]⟩
      rw [commitsOn_append_self, ← hrest, List.map_append]
      exact ⟨tail, by simp⟩
    · rw [commitsOn_append_ne ms hp]
      exact hpre p
  · rw [heq]
    exact ⟨ms, hrep, hpre⟩

/-- Recording never takes a window back. -/
theorem Follows.nextWindow_recordCommit (h : Follows l ledger) (m : WindowManifest) (p : PartitionId) :
    ledger.nextWindow p ≤ (ledger.recordCommit m).2.nextWindow p := by
  obtain ⟨ms, hrep, -⟩ := h
  rcases recordCommit_cases hrep m with ⟨next, -, heq, hnext⟩ | ⟨e, heq⟩
  · rw [heq, hrep.nextWindow, hnext.nextWindow, commitsOn_append, List.length_append]
    exact Nat.le_add_right _ _
  · rw [heq]

/-- A rebuilt ledger follows the lake it was read from. -/
theorem follows_boot (h : LakeDense l) (hboot : bootLedger l = some ledger) : Follows l ledger := by
  obtain ⟨ms, hrep, hread⟩ := bootLedger_spec hboot
  refine ⟨ms, hrep, fun p => List.prefix_iff_getElem?.mpr fun i hi => ?_⟩
  rw [List.length_map] at hi
  obtain ⟨hmem, hp⟩ := mem_commitsOn.mp (List.getElem_mem hi)
  obtain ⟨r, hr, hfrom⟩ := hread _ hmem
  generalize hm : (commitsOn p ms)[i] = m at *
  have hstored : m.core = r.stored.core := by
    have hcore : m.core = (r.manifest m.originCoverage).core :=
      (congrArg WindowManifest.core hfrom.manifest).trans rfl
    rw [hcore, ManifestRow.stored, ManifestRow.coverage, hfrom.coverage]
  have hrp : r.partition = p := (congrArg WindowManifest.partition hfrom.manifest).symm.trans hp
  have hwin : r.stored.windowId = i := by
    have hnum : m.windowId = r.stored.windowId := congrArg (·.1) hstored
    rw [← hnum, ← hm]
    exact (hrep.dense p).window i hi
  have hget : (l.windows p)[i]? = some r.stored :=
    (h.dense p).getElem?_iff.mpr ⟨mem_windows.mpr ⟨r, hr, hrp, rfl⟩, hwin⟩
  rw [List.getElem?_map, hget, Option.map_some, List.getElem_map, hm, hstored]

end Ledger

/-! ### Previews and read-backs -/

/-- An accepted preview, with the watermark read before it. -/
theorem Follows.previewed {ledger : WatermarkLedger} {m : WindowManifest} {previewed : Option WatermarkRow}
    {n : ℕ} {prior : Option ℤ} (h : Follows l ledger) (hl : LakeDense l) (hparts : m.parts = [m.windowPart])
    (hok : ledger.advanceFor m = .ok previewed) (hn : m.windowId ≤ n) (hle : n ≤ ledger.nextWindow m.partition)
    (hprior : prior = watermarkOf ((l.windows m.partition).take n)) : Previewed l ⟨m, previewed, prior⟩ := by
  obtain ⟨ms, hrep, hpre⟩ := h
  obtain ⟨next, hdense, heq, hnext⟩ := (recordCommit_cases hrep m).resolve_right (by
    rintro ⟨e, heq⟩
    rw [WatermarkLedger.advanceFor, heq] at hok
    cases hok)
  have hw : m.windowId = (commitsOn m.partition ms).length := ((dense_append (hrep.dense _) m).mp hdense).2.2.1
  -- no window was recorded between the check, the watermark read and the preview
  obtain rfl : n = m.windowId := by
    rw [hrep.nextWindow, ← hw] at hle
    exact Nat.le_antisymm hle hn
  have hcore := core_take (hpre m.partition)
  rw [← hw] at hcore
  have hcore' : ((l.windows m.partition).take m.windowId ++ [m]).map WindowManifest.core =
      (commitsOn m.partition ms ++ [m]).map WindowManifest.core := by
    rw [List.map_append, List.map_append, hcore]
  refine ⟨hparts, dense_core hcore' hdense fun m' hm' => ?_, ?_, hprior⟩
  · rcases List.mem_append.mp hm' with hold | hlast
    · exact (hl.dense _).times m' (List.mem_of_mem_take hold)
    · obtain rfl := List.mem_singleton.mp hlast
      exact hdense.times m' (by simp)
  · rw [WatermarkLedger.advanceFor, heq] at hok
    rw [← Except.ok.inj hok, hnext.completeThroughMs, commitsOn_append_self, watermarkOf_core hcore']
    rfl

/-- A watermark that is read back is not ahead of the record. -/
theorem LakeDense.readBack (h : LakeDense l) {v : ℤ} (hv : readBack (readWatermarks l [p]) p = some v) :
    ∃ t, watermarkOf (l.windows p) = some t ∧ v ≤ t := by
  obtain ⟨row, hrow, rfl⟩ := Option.map_eq_some_iff.mp hv
  obtain ⟨q, hq, hmax⟩ := List.mem_filterMap.mp (List.mem_of_find?_eq_some hrow)
  obtain rfl := List.mem_singleton.mp hq
  obtain ⟨ms, hms, rfl⟩ := Option.map_eq_some_iff.mp hmax
  obtain ⟨r, hr, rfl⟩ := List.mem_map.mp (List.max?_mem hms)
  obtain ⟨hr, hrp⟩ := List.mem_filter.mp hr
  rw [← of_decide_eq_true hrp]
  exact h.watermarks r hr

/-- The read-back is sound: where it shows the advance of a submission, the window of the submission is
    stored. Only a window in its place can take the watermark of the record past the one before it. -/
theorem Previewed.stands_of_observed {sub : Submission} (h : Previewed l sub) (hl : LakeDense l)
    (hobs : sub.observed (readWatermarks l [sub.manifest.partition]) = true)
    (hsame : SameContent sub.manifest l) : Stands l sub.manifest := by
  refine hl.stands_of_lt hsame (Nat.lt_of_not_le fun hge => ?_)
  simp only [Submission.observed, Option.any_eq_true, decide_eq_true_eq] at hobs
  obtain ⟨advanced, hadv, v, hv, hle⟩ := hobs
  obtain ⟨t, ht, hvt⟩ := hl.readBack hv
  -- nothing is stored past the record the preview was made on, so the watermark is the prior one
  have hprior : sub.prior = some t := by
    rw [h.prior, List.take_of_length_le hge, ht]
  rw [Submission.strictAdvance, Option.filter_eq_some_iff, hprior] at hadv
  have hgt : advanced > t := by simpa using hadv.2
  omega

/-! ### The drainers -/

/-- The invariant: the lake is dense, and every ledger follows it. -/
abbrev AgreementInv : DrainState → Prop := NodesInv LakeDense Follows

/-- What a fact says here, to an attempt of node `i`. -/
def AgreedFact (s : DrainState) (i : ℕ) : DrainFact → Prop
  | .reached p w => w ≤ (s.ledgerOf i).nextWindow p
  | .priced p w prior => ∃ n, w ≤ n ∧ n ≤ (s.ledgerOf i).nextWindow p ∧
      prior = watermarkOf ((s.lake.windows p).take n)
  | .fits sub => Previewed s.lake sub
  | .stands m => Stands s.lake m
  | .recorded _ _ _ => True

/-- The facts of the agreement, where nothing else is stored. -/
def agreementFacts (config : DuckLakeConfig) : Facts (drainers config) DrainFact where
  job _ _ _ := True
  op _ := NothingElseStored
  inv := AgreementInv
  holds s t := AgreedFact s t.1
  pre := drainPre fun _ _ => True
  learns := drainLearns

variable {s : DrainState}

theorem AgreementInv.follows (h : AgreementInv s) (i : ℕ) : Follows s.lake (s.ledgerOf i) :=
  h.ledgerOf follows_empty i

/-- Facts outlast a step that keeps the record of the lake and takes no window back from the ledger. -/
theorem AgreedFact.mono {s' : DrainState} {i : ℕ} {f : DrainFact} (hf : AgreedFact s i f) (h : AgreementInv s)
    (hl : Extends s.lake s'.lake)
    (hnext : ∀ p, (s.ledgerOf i).nextWindow p ≤ (s'.ledgerOf i).nextWindow p) : AgreedFact s' i f := by
  cases f with
  | reached p w => exact Nat.le_trans hf (hnext p)
  | priced p w prior =>
    obtain ⟨n, hw, hn, hprior⟩ := hf
    refine ⟨n, hw, hn.trans (hnext p), ?_⟩
    rw [take_of_prefixed (hl p) (hn.trans ((h.follows i).nextWindow_le p)), hprior]
  | fits sub => exact Previewed.mono hf hl
  | stands m => exact Stands.mono hf hl
  | recorded p w coverage => trivial

theorem extends_exec (i : ℕ) (o : DrainOp) (fate : Fate) :
    Extends s.lake (DrainState.exec config i o fate s).2.lake := by
  rcases lake_exec config i o fate s with heq | ⟨m, ws, -, heq⟩
  · rw [heq]
    exact .refl _
  · rw [heq]
    exact extends_register

theorem ledgerOf_congr {s' : DrainState} {u : ℕ} (h : (s'.nodes u).ledger = (s.nodes u).ledger) :
    s'.ledgerOf u = s.ledgerOf u := by
  rw [DrainState.ledgerOf, h]
  rfl

theorem nextWindow_exec (h : AgreementInv s) (i u : ℕ) (o : DrainOp) (fate : Fate) (p : PartitionId) :
    (s.ledgerOf u).nextWindow p ≤ ((DrainState.exec config i o fate s).2.ledgerOf u).nextWindow p := by
  rcases ledgerOf_exec i u o fate with heq | ⟨m, -, rfl, heq⟩
  · rw [heq]
  · rw [heq]
    exact (h.follows u).nextWindow_recordCommit m p

/-- Only a crash takes windows back from a ledger. -/
theorem nextWindow_move {e : DrainEnv} {u : ℕ} (he : e ≠ .crash u) (p : PartitionId) :
    (s.ledgerOf u).nextWindow p ≤ ((e.move s).ledgerOf u).nextWindow p := by
  cases e with
  | append i key rows => rw [DrainEnv.move, ledgerOf_congr (setTable_ledger u key _)]
  | crash i =>
    have hu : u ≠ i := fun hu => he (by rw [hu])
    rw [DrainEnv.move, ledgerOf_setLedger, if_neg hu]
  | boot i =>
    simp only [DrainEnv.move]
    split_ifs with hup
    · exact Nat.le_refl _
    · rw [ledgerOf_setLedger]
      split_ifs with hu
      · -- a node that was down had recorded nothing
        have hdown : s.ledgerOf u = {} := by
          rw [DrainState.ledgerOf, hu, Option.not_isSome_iff_eq_none.mp hup]
          rfl
        rw [hdown, represents_empty.nextWindow]
        exact Nat.zero_le _
      · exact Nat.le_refl _

theorem agreementInv_exec {k : List DrainFact} {i : ℕ} {o : DrainOp} (fate : Fate) (h : AgreementInv s)
    (hop : NothingElseStored o s) (hpre : drainPre (fun _ _ => True) o k) (hk : ∀ f ∈ k, AgreedFact s i f) :
    AgreementInv (DrainState.exec config i o fate s).2 := by
  refine h.exec ?_ ?_
  · rintro m ws rfl
    obtain ⟨sub, hsub, rfl, rfl⟩ := hpre
    exact ⟨(lakeDense_register h.lake (hk _ hsub) hop.1 hop.2).1, fun ledger hl => hl.mono extends_register⟩
  · rintro m rfl
    exact (h.follows i).recordCommit (hk _ hpre)

/-- Every answer teaches what is so. -/
theorem agreedFact_learns {k : List DrainFact} {i : ℕ} {o : DrainOp} (fate : Fate) (h : AgreementInv s)
    (hop : NothingElseStored o s) (hpre : drainPre (fun _ _ => True) o k) (hk : ∀ f ∈ k, AgreedFact s i f) :
    ∀ f ∈ drainLearns o k (DrainState.exec config i o fate s).1,
      AgreedFact (DrainState.exec config i o fate s).2 i f := by
  intro f hf
  generalize hr : (DrainState.exec config i o fate s).1 = r at hf
  cases learnt_of_mem hf with
  | reached p _ w => exact Nat.le_of_eq hr.symm
  | priced prior hreached =>
    refine ⟨_, hk _ hreached, le_rfl, ?_⟩
    rw [← hr]
    exact (h.follows i).completeThroughMs _
  | @fits m _ prior previewed hpriced =>
    obtain ⟨n, hw, hn, hprior⟩ := hk _ hpriced
    have hok : (s.ledgerOf i).advanceFor m = .ok previewed := by
      change ((s.ledgerOf i).advanceFor m).mapError rejection = .ok previewed at hr
      cases hadv : (s.ledgerOf i).advanceFor m with
      | ok row =>
        rw [hadv] at hr
        exact congrArg Except.ok (Except.ok.inj hr)
      | error e =>
        rw [hadv] at hr
        cases hr
    exact (h.follows i).previewed h.lake hpre.parts hok hw hn hprior
  | committed m ws _ =>
    obtain ⟨sub, hsub, rfl, rfl⟩ := hpre
    change Stands _ _
    rw [exec_committed hr]
    exact (lakeDense_register h.lake (hk _ hsub) hop.1 hop.2).2
  | @observed ps _ sub rows hobs =>
    obtain ⟨hfits, rfl⟩ := hpre
    obtain rfl := exec_readWatermarks hr
    have hsub : Previewed s.lake sub := hk _ hfits
    exact hsub.stands_of_observed h.lake hobs (hop hobs)
  | recorded p w _ coverage => trivial

theorem agreementFacts_sound : (agreementFacts config).Sound where
  start := by
    intro s t j _
    exact Protocol.wp_mono (fun _ _ _ => trivial) (keeps_drainWindow j.window j.plan trivial)
  exec := by
    intro s t c o k hinv hop hpre hk
    exact ⟨agreementInv_exec c hinv hop hpre hk, agreedFact_learns c hinv hop hpre hk⟩
  env := fun _ e hinv => hinv.move e fun _ hboot => follows_boot hinv.lake hboot
  exec_stable := by
    intro s t u c o f hinv hf
    exact AgreedFact.mono hf hinv (extends_exec u.1 o c) fun p => nextWindow_exec hinv u.1 t.1 o c p
  env_stable := by
    intro s t e f hinv hstop hf
    have he : e ≠ .crash t.1 := by simpa [drainers] using hstop
    refine AgreedFact.mono hf hinv ?_ fun p => nextWindow_move he p
    rw [show ((drainers config).move e s).lake = s.lake from move_lake e]
    exact .refl _

theorem lakeDense_empty : LakeDense {} :=
  ⟨(fun r hr => by cases hr), (fun _ => dense_nil), (fun r hr => by cases hr)⟩

end

/-- A run in which every call meets the condition. -/
def AgreementRun (config : DuckLakeConfig) (es : List DrainEvent) : Prop :=
  (drainers config).Admissible (StepOk (fun _ _ _ => True) fun _ => NothingElseStored) { shared := {} } es

/-- Along the run the invariant holds, and an attempt knows what its next call asks for. -/
theorem agreementRun_known {config : DuckLakeConfig} {es : List DrainEvent} (h : AgreementRun config es) :
    AgreementInv (drained config es).shared ∧ ∀ t n j o next,
      (drained config es).running t = some ⟨n, j, .call o next⟩ →
      ∃ k, drainPre (fun _ _ => True) o k ∧ ∀ f ∈ k, AgreedFact (drained config es).shared t.1 f := by
  have hsound : (agreementFacts config).Sound := agreementFacts_sound
  exact hsound.run { shared := {} } (.init lakeDense_empty) (fun _ => rfl) rfl h

/-- In every run that meets the condition, a window that a ledger has recorded is stored in the lake, and
    what the lake stores for it has exactly the coverage the ledger has. -/
theorem recorded_window_stored (config : DuckLakeConfig) (es : List DrainEvent) (h : AgreementRun config es)
    (i : ℕ) (ledger : WatermarkLedger) (hl : ((drained config es).shared.nodes i).ledger = some ledger)
    (p : PartitionId) (w : WindowId) (record : WindowRecord) (hrec : ledger.windowRecord p w = some record) :
    (∃ r ∈ values (drained config es).shared.lake.manifests, r.partition = p ∧ r.windowId = w) ∧
      ∀ r ∈ values (drained config es).shared.lake.manifests, r.partition = p → r.windowId = w →
        r.originCoverage = .encoded record.originCoverage := by
  have hinv := (agreementRun_known h).1
  obtain ⟨ms, hrep, hpre⟩ := hinv.ledgers i ledger hl
  rw [hrep.windowRecord, Option.map_eq_some_iff] at hrec
  obtain ⟨m, hm, rfl⟩ := hrec
  -- the window of the ledger's manifest is the lake's, with the same core
  have hget : ((drained config es).shared.lake.windows p)[w]?.map WindowManifest.core = some m.core := by
    obtain ⟨rest, hrest⟩ := hpre p
    have hcore : ((commitsOn p ms).map WindowManifest.core)[w]? = some m.core := by
      rw [List.getElem?_map, hm, Option.map_some]
    rw [← List.getElem?_map, ← hrest, List.getElem?_append_left (List.getElem?_eq_some_iff.mp hcore).1, hcore]
  obtain ⟨d, hd, hcore⟩ := Option.map_eq_some_iff.mp hget
  refine ⟨?_, fun r hr hp hw => ?_⟩
  · obtain ⟨r, hr, hp, hw, -⟩ := hinv.lake.row_of_lt (List.getElem?_eq_some_iff.mp hd).1
    exact ⟨r, hr, hp, hw⟩
  · have hrow := hinv.lake.getElem?_of_row hr hw
    rw [hp, hd] at hrow
    obtain ⟨b, hb⟩ := hinv.lake.rows r hr
    have hcov : r.coverage = m.originCoverage := by
      have hc : d.originCoverage = m.originCoverage := congrArg (·.2.2.1) hcore
      rw [← hc, Option.some.inj hrow]
      rfl
    change r.originCoverage = .encoded m.originCoverage
    rw [← hcov, hb.row]
    rfl

instance (config : DuckLakeConfig) (es : List DrainEvent) : Decidable (AgreementRun config es) :=
  inferInstanceAs (Decidable ((drainers config).Admissible _ _ es))

/-! ### One drainer and a lost answer -/

/-- The first attempt on a window of node 0: its commit lands, the answer and the read-back are lost. -/
def lostAnswer : List DrainEvent :=
  [.env (.append 0 (sampleKey 0) [sampleRow 1, sampleRow 2, sampleRow 3, sampleRow 4, sampleRow 5]),
    .env (.boot 0), .start (0, 0) (sampleJob 0)] ++ served (0, 0) 6 ++
  [.act (0, 0) { unsettled := some .indeterminate, lands := true },
    .act (0, 0) { fails := some "catalog unreachable" }] ++ served (0, 0) 2

/-- The attempt after it, up to the record of its commit. -/
def retried : List DrainEvent := .start (0, 0) (sampleJob 0) :: served (0, 0) 8

/-- Two rows arrive before the retry. It seals seven rows, is told that its commit stands and records all
    seven, while the lake holds five. -/
theorem record_ahead_of_lake :
    (((drained drainConfig (lostAnswer ++ [.env (.append 0 (sampleKey 0) [sampleRow 6, sampleRow 7])] ++
      retried)).shared.nodes 0).ledger.bind (·.windowRecord ⟨"t.0"⟩ 0)).map (·.originCoverage) =
      some [⟨⟨"a"⟩, 1, 7⟩] ∧
    (values (drained drainConfig (lostAnswer ++ [.env (.append 0 (sampleKey 0) [sampleRow 6, sampleRow 7])] ++
      retried)).shared.lake.manifests).map (fun r => (r.partition, r.windowId, r.originCoverage)) =
      [(⟨"t.0"⟩, 0, .encoded [⟨⟨"a"⟩, 1, 5⟩])] := by
  decide +kernel

/-- Without them the retry records what is stored. -/
theorem recorded_window_stored_retry : ∃ ledger record,
    ((drained drainConfig (lostAnswer ++ retried)).shared.nodes 0).ledger = some ledger ∧
    ledger.windowRecord ⟨"t.0"⟩ 0 = some record ∧
    ∀ r ∈ values (drained drainConfig (lostAnswer ++ retried)).shared.lake.manifests, r.partition = ⟨"t.0"⟩ →
      r.windowId = (0 : ℕ) → r.originCoverage = .encoded record.originCoverage := by
  have hsome : (((drained drainConfig (lostAnswer ++ retried)).shared.nodes 0).ledger.bind
      (·.windowRecord ⟨"t.0"⟩ 0)).isSome = true := by decide +kernel
  obtain ⟨record, hrecord⟩ := Option.isSome_iff_exists.mp hsome
  obtain ⟨ledger, hl, hrec⟩ := Option.bind_eq_some_iff.mp hrecord
  exact ⟨ledger, record, hl, hrec, (recorded_window_stored drainConfig (lostAnswer ++ retried) (by decide +kernel) 0
    ledger hl ⟨"t.0"⟩ 0 record hrec).2⟩

end Duckspout
