import Duckspout.Watermark.History
import Mathlib.Data.List.Sort

/-! Watermark reconstruction from the lake's manifest record
    (`duckspout-watermark/src/reconstruct.rs`).

    The replay groups the manifests by partition, sorts each group by window id and feeds it to the
    ledger until a window id is missing; the rest of the group is deferred. -/

namespace Duckspout

open OriginCoverage LedgerOp

/-- A manifest history or loss ledger that no honest lake can produce. -/
inductive ReconstructError where
  | manifest (partition : PartitionId) (window : WindowId) (source : AdvanceError)
  | loss (partition : PartitionId) (source : AdvanceError)
  deriving DecidableEq, Repr

/-- One unexcused coverage hole; `inHot` says that the origin's applied rows still reach past it. -/
structure CoverageHole where
  origin : NodeId
  firstSeq : ℕ
  lastSeq : ℕ
  inHot : Bool
  deriving DecidableEq, Repr

/-- Why a partition's reconstructed watermark stands below its recorded windows. -/
inductive StallReason where
  | missingWindow (expected : WindowId)
  | coverageHoles (holes : List CoverageHole)
  deriving DecidableEq, Repr

/-- One partition whose watermark could not advance through its full record. -/
structure Stall where
  partition : PartitionId
  reason : StallReason
  deriving DecidableEq, Repr

/-- The recomputed ledger, and everything that did not advance. -/
structure Reconstruction where
  ledger : WatermarkLedger
  stalls : List Stall := []
  deferred : List WindowManifest := []

namespace Reconstruction

/-- One row of the loss ledger. -/
def replayLoss (ledger : WatermarkLedger) (row : LossLedgerRow) :
    Except ReconstructError WatermarkLedger :=
  match ledger.recordLoss row with
  | (.ok _, next) => .ok next
  | (.error e, _) => .error (.loss row.range.partition e)

/-- The manifests by partition, each group in input order. -/
def byPartition (manifests : List WindowManifest) : OrdMap PartitionId (List WindowManifest) :=
  manifests.foldl (fun t m => OrdMap.upsert t m.partition (· ++ [m])) ∅

/-- One manifest of a partition's sorted group; the flag is `gap_hit`. -/
def replayWindow (partition : PartitionId) (acc : Reconstruction × Bool) (m : WindowManifest) :
    Except ReconstructError (Reconstruction × Bool) :=
  let out := acc.1
  if acc.2 then .ok ({ out with deferred := out.deferred ++ [m] }, true)
  else
    let expected := out.ledger.nextWindow partition
    if m.windowId > expected then
      .ok ({ out with
        stalls := out.stalls ++ [⟨partition, .missingWindow expected⟩]
        deferred := out.deferred ++ [m] }, true)
    else
      match out.ledger.recordCommit m with
      | (.ok _, next) => .ok ({ out with ledger := next }, false)
      | (.error e, _) => .error (.manifest partition m.windowId e)

/-- The partition's blocking gaps, classified against the live hot coverage. -/
def holes (ledger : WatermarkLedger) (staging : List AppliedWatermarkRow) (partition : PartitionId) :
    List CoverageHole :=
  (ledger.blockingGaps partition).map fun (origin, first, last) =>
    ⟨origin, first, last, staging.any fun row =>
      row.partition = partition && row.origin = origin && decide (last ≤ row.appliedSeq)⟩

/-- The sort key of the replay. -/
def windowLe (a b : WindowManifest) : Prop := a.windowId ≤ b.windowId

instance : DecidableRel windowLe := fun a b => inferInstanceAs (Decidable (a.windowId ≤ b.windowId))

instance : Std.Total windowLe := ⟨fun a b => le_total a.windowId b.windowId⟩

instance : IsTrans WindowManifest windowLe := ⟨fun _ _ _ h h' => le_trans (α := ℕ) h h'⟩

/-- `None` is below every window. -/
instance : DecidableLT (Option WindowId) := fun a b =>
  inferInstanceAs (Decidable (Option.lt (· < ·) a b))

/-- One partition's group, and the stall it leaves. -/
def replayPartition (staging : List AppliedWatermarkRow) (out : Reconstruction)
    (group : PartitionId × List WindowManifest) : Except ReconstructError Reconstruction := do
  let acc ← (group.2.insertionSort windowLe).foldlM (replayWindow group.1) (out, false)
  let out := acc.1
  if out.ledger.advancedThrough group.1 < out.ledger.recordedThrough group.1 then
    .ok { out with
      stalls := out.stalls ++ [⟨group.1, .coverageHoles (holes out.ledger staging group.1)⟩] }
  else .ok out

end Reconstruction

open Reconstruction

/-- Recomputes the authoritative watermark state from the lake's record. -/
def reconstruct (manifests : List WindowManifest) (losses : List LossLedgerRow)
    (staging : List AppliedWatermarkRow) : Except ReconstructError Reconstruction := do
  let ledger ← losses.foldlM replayLoss {}
  (byPartition manifests).toList.foldlM (replayPartition staging) { ledger := ledger }

/-! ### The ledger is determined by what it accepted -/

theorem dense_ext {as bs : List WindowManifest} (ha : Dense as) (hb : Dense bs)
    (h : ∀ m, m ∈ as ↔ m ∈ bs) : as = bs := by
  refine List.ext_getElem? fun i => Option.ext fun m => ?_
  rw [ha.getElem?_iff, hb.getElem?_iff, h m]

theorem lossesOf_ext {as bs : List LossLedgerRow} (hb : ∀ l ∈ bs, ValidRange l.range.seqRange)
    (h : ∀ l, l ∈ as ↔ l ∈ bs) : lossesOf as = lossesOf bs := by
  have ha : ∀ l ∈ as, ValidRange l.range.seqRange := fun l hl => hb l ((h l).mp hl)
  refine ext_mem (mem_lossesOf ha).1 (mem_lossesOf hb).1 (fun o => ?_) (fun o n => ?_)
  · rw [isSome_lossesOf ha, isSome_lossesOf hb]
    simp only [h]
  · rw [(mem_lossesOf ha).2, (mem_lossesOf hb).2]
    simp only [h]

/-- Two ledgers that accepted the same manifests and losses, in whatever order, are equal. -/
theorem represents_unique {l₁ l₂ : WatermarkLedger} {ms₁ ms₂ : List WindowManifest}
    {ls₁ ls₂ : List LossLedgerRow} (h₁ : Represents l₁ ms₁ ls₁) (h₂ : Represents l₂ ms₂ ls₂)
    (hms : ∀ m, m ∈ ms₁ ↔ m ∈ ms₂) (hls : ∀ l, l ∈ ls₁ ↔ l ∈ ls₂) : l₁ = l₂ := by
  have hcommits : ∀ p, commitsOn p ms₁ = commitsOn p ms₂ := fun p =>
    dense_ext (h₁.dense p) (h₂.dense p) fun m => by rw [mem_commitsOn, mem_commitsOn, hms m]
  have hshare : ∀ p l, l ∈ lossesOn p ls₁ ↔ l ∈ lossesOn p ls₂ := fun p l => by
    rw [mem_lossesOn, mem_lossesOn, hls l]
  have hlosses : ∀ p, lossesOf (lossesOn p ls₁) = lossesOf (lossesOn p ls₂) := fun p =>
    lossesOf_ext (h₂.lossesOn_valid p) (hshare p)
  have hnil : ∀ p, lossesOn p ls₁ = [] ↔ lossesOn p ls₂ = [] := fun p => by
    simp only [List.eq_nil_iff_forall_not_mem, hshare p]
  have hparts : l₁.partitions = l₂.partitions := by
    refine OrdMap.ext fun p => ?_
    rw [h₁.state, h₂.state, stateOf, stateOf, hcommits p]
    simp only [hnil p, partitionOf, recordOf, hlosses p]
  cases l₁
  cases l₂
  exact congrArg WatermarkLedger.mk hparts

/-! ### Grouping by partition -/

theorem byPartition_append (ms : List WindowManifest) (m : WindowManifest) :
    byPartition (ms ++ [m]) = OrdMap.upsert (byPartition ms) m.partition (· ++ [m]) := by
  simp [byPartition]

/-- A partition's group is its share of the manifests. -/
theorem get_byPartition (ms : List WindowManifest) (p : PartitionId) :
    (byPartition ms)[p]? = if commitsOn p ms = [] then none else some (commitsOn p ms) := by
  induction ms using List.reverseRecOn with
  | nil => simp [byPartition, commitsOn]
  | append_singleton ms m ih =>
    rw [byPartition_append, OrdMap.get_upsert]
    rcases eq_or_ne m.partition p with rfl | hp
    · have hne : commitsOn m.partition ms ++ [m] ≠ [] := List.append_ne_nil_of_right_ne_nil _ (by simp)
      rw [if_pos rfl, ih, commitsOn_append_self, if_neg hne]
      by_cases he : commitsOn m.partition ms = []
      · rw [if_pos he, he]
        rfl
      · rw [if_neg he]
        rfl
    · rw [if_neg hp, ih, commitsOn_append_ne ms hp]

theorem mem_groups {ms : List WindowManifest} {g : PartitionId × List WindowManifest} :
    g ∈ (byPartition ms).toList ↔ g.2 = commitsOn g.1 ms ∧ g.2 ≠ [] := by
  obtain ⟨p, wins⟩ := g
  rw [OrdMap.mem_toList, get_byPartition]
  by_cases he : commitsOn p ms = []
  · simp [he]
  · rw [if_neg he, Option.some.injEq, eq_comm]
    constructor
    · rintro rfl
      exact ⟨rfl, he⟩
    · exact fun h => h.1

/-- Shares of distinct partitions that between them name every manifest make up the manifests. -/
theorem shares_perm : ∀ (ps : List PartitionId) (ms : List WindowManifest), ps.Nodup →
    (∀ m ∈ ms, m.partition ∈ ps) → (ps.flatMap fun p => commitsOn p ms).Perm ms := by
  intro ps
  induction ps with
  | nil =>
    intro ms _ h
    have hnil : ms = [] := List.eq_nil_iff_forall_not_mem.mpr fun m hm => by simpa using h m hm
    rw [hnil]
    exact List.Perm.refl _
  | cons p ps ih =>
    intro ms hnd h
    obtain ⟨hp, hnd⟩ := List.nodup_cons.mp hnd
    set rest := ms.filter fun m => !decide (m.partition = p) with hrest
    have hsame : ∀ q ∈ ps, commitsOn q ms = commitsOn q rest := by
      intro q hq
      rw [commitsOn, commitsOn, hrest, List.filter_filter]
      refine List.filter_congr fun m _ => ?_
      have hne : q ≠ p := fun he => hp (he ▸ hq)
      rcases eq_or_ne m.partition q with hm | hm
      · simp [hm, hne]
      · simp [hm]
    have ih : (ps.flatMap fun q => commitsOn q rest).Perm rest := by
      refine ih rest hnd fun m hm => ?_
      obtain ⟨hm, hne⟩ := List.mem_filter.mp hm
      rcases List.mem_cons.mp (h m hm) with he | hin
      · simp [he] at hne
      · exact hin
    rw [List.flatMap_cons, List.flatMap_congr hsame]
    exact (List.Perm.append_left _ ih).trans (List.filter_append_perm _ ms)

theorem groups_perm (ms : List WindowManifest) :
    ((byPartition ms).toList.flatMap (·.2)).Perm ms := by
  have hcongr : (byPartition ms).toList.flatMap (·.2) =
      (byPartition ms).keys.flatMap fun p => commitsOn p ms := by
    rw [← Std.ExtTreeMap.map_fst_toList_eq_keys, List.flatMap_map]
    exact List.flatMap_congr fun g hg => (mem_groups.mp hg).1
  rw [hcongr]
  refine shares_perm _ _ Std.ExtTreeMap.nodup_keys fun m hm => ?_
  rw [Std.ExtTreeMap.mem_keys, Std.ExtTreeMap.mem_iff_isSome_getElem?, get_byPartition,
    if_neg (List.ne_nil_of_mem (mem_commitsOn.mpr ⟨hm, rfl⟩))]
  rfl

/-! ### Replaying -/

/-- The losses are replayed in order; every one of them must be valid. -/
theorem replayLosses_spec : ∀ (losses : List LossLedgerRow) {ledger : WatermarkLedger}
    {ms : List WindowManifest} {ls : List LossLedgerRow}, Represents ledger ms ls →
    ((∀ l ∈ losses, ValidRange l.range.seqRange) → ∃ next, losses.foldlM replayLoss ledger = .ok next) ∧
    ∀ next, losses.foldlM replayLoss ledger = .ok next → Represents next ms (ls ++ losses) := by
  intro losses
  induction losses with
  | nil =>
    intro ledger ms ls h
    refine ⟨fun _ => ⟨ledger, rfl⟩, fun next heq => ?_⟩
    obtain rfl : ledger = next := Except.ok.inj heq
    simpa using h
  | cons row losses ih =>
    intro ledger ms ls h
    rw [List.foldlM_cons, replayLoss]
    have hspec := recordLoss_spec h row
    by_cases hv : ValidRange row.range.seqRange
    · obtain ⟨mid, heq, hrep⟩ := hspec.1 hv
      have ih := ih hrep
      rw [List.append_assoc] at ih
      rw [heq]
      exact ⟨fun hall => ih.1 fun l hl => hall l (by simp [hl]), ih.2⟩
    · obtain ⟨e, heq⟩ := hspec.2 hv
      rw [heq]
      exact ⟨fun hall => absurd (hall row (by simp)) hv, fun next hn => by cases hn⟩

/-- A group that continues the partition's record densely is replayed to its end. -/
theorem replayGroup_dense (p : PartitionId) : ∀ (wins : List WindowManifest) (out : Reconstruction)
    {ms : List WindowManifest} {ls : List LossLedgerRow}, Represents out.ledger ms ls →
    (∀ m ∈ wins, m.partition = p) → Dense (commitsOn p ms ++ wins) →
    ∃ next, wins.foldlM (replayWindow p) (out, false) = .ok ({ out with ledger := next }, false) ∧
      Represents next (ms ++ wins) ls := by
  intro wins
  induction wins with
  | nil =>
    intro out ms ls h _ _
    exact ⟨out.ledger, rfl, by simpa using h⟩
  | cons m wins ih =>
    intro out ms ls h hp hd
    obtain rfl : m.partition = p := hp m (by simp)
    rw [List.append_cons] at hd
    have hone : Dense (commitsOn m.partition ms ++ [m]) := by
      have ht := hd.take (commitsOn m.partition ms ++ [m]).length
      rwa [List.take_left] at ht
    obtain ⟨mid, heq, hrep⟩ := (recordCommit_spec h m).1 hone
    have hle : ¬ m.windowId > out.ledger.nextWindow m.partition := by
      rw [h.nextWindow, ((dense_append (h.dense _) m).mp hone).2.2.1]
      exact lt_irrefl _
    have hstep : replayWindow m.partition (out, false) m = .ok ({ out with ledger := mid }, false) := by
      simp only [replayWindow, Bool.false_eq_true, if_false, if_neg hle, heq]
    rw [← commitsOn_append_self] at hd
    obtain ⟨next, hfold, hrep'⟩ := ih { out with ledger := mid }
      hrep (fun q hq => hp q (by simp [hq])) hd
    refine ⟨next, ?_, by simpa using hrep'⟩
    rw [List.foldlM_cons, hstep]
    exact hfold

/-- What the replay of a sorted group has done when it succeeds: a first part is recorded, the rest
    is deferred, and the deferred windows lie beyond the one the ledger expects next. -/
structure GroupReplayed (p : PartitionId) (wins ms : List WindowManifest) (ls : List LossLedgerRow)
    (out next : Reconstruction) (recd defd : List WindowManifest) : Prop where
  split : wins = recd ++ defd
  deferred : next.deferred = out.deferred ++ defd
  ledger : Represents next.ledger (ms ++ recd) ls
  beyond : ∀ m ∈ defd, (commitsOn p (ms ++ recd)).length < m.windowId
  stalls : ∃ missing : List WindowId,
    next.stalls = out.stalls ++ missing.map fun e => ⟨p, .missingWindow e⟩

/-- Once a gap was hit, the whole rest of the group is deferred. -/
theorem replayGroup_gap (p : PartitionId) : ∀ (wins : List WindowManifest) (out : Reconstruction),
    wins.foldlM (replayWindow p) (out, true) =
      .ok ({ out with deferred := out.deferred ++ wins }, true) := by
  intro wins
  induction wins with
  | nil =>
    intro out
    simp [pure, Except.pure]
  | cons m wins ih =>
    intro out
    rw [List.foldlM_cons]
    have ih := ih { out with deferred := out.deferred ++ [m] }
    simp only [List.append_assoc, List.singleton_append] at ih
    exact ih

theorem replayGroup_spec (p : PartitionId) : ∀ (wins : List WindowManifest) (out : Reconstruction)
    {next : Reconstruction} {gap : Bool} {ms : List WindowManifest} {ls : List LossLedgerRow}, Represents out.ledger ms ls →
    (∀ m ∈ wins, m.partition = p) → wins.Pairwise windowLe →
    wins.foldlM (replayWindow p) (out, false) = .ok (next, gap) →
    ∃ recd defd, GroupReplayed p wins ms ls out next recd defd := by
  intro wins
  induction wins with
  | nil =>
    intro out next gap ms ls h _ _ heq
    obtain ⟨rfl, rfl⟩ := Prod.mk.inj (Except.ok.inj heq)
    exact ⟨[], [], rfl, by simp, by simpa using h, by simp, [], by simp⟩
  | cons m wins ih =>
    intro out next gap ms ls h hp hsort heq
    obtain rfl : m.partition = p := hp m (by simp)
    obtain ⟨hfirst, hsort⟩ := List.pairwise_cons.mp hsort
    rw [List.foldlM_cons] at heq
    by_cases hgt : m.windowId > out.ledger.nextWindow m.partition
    · -- the first missing window: `m` and everything after it is deferred
      have hstep : replayWindow m.partition (out, false) m =
          .ok ({ out with
            stalls := out.stalls ++ [⟨m.partition, .missingWindow (out.ledger.nextWindow m.partition)⟩]
            deferred := out.deferred ++ [m] }, true) := by
        simp only [replayWindow, Bool.false_eq_true, if_false, if_pos hgt]
      rw [hstep] at heq
      obtain ⟨rfl, rfl⟩ := Prod.mk.inj (Except.ok.inj ((replayGroup_gap m.partition wins _).symm.trans heq))
      rw [h.nextWindow] at hgt
      refine ⟨[], m :: wins, rfl, by simp, by simpa using h, ?_, [out.ledger.nextWindow m.partition], by simp⟩
      intro q hq
      rw [List.append_nil]
      rcases List.mem_cons.mp hq with rfl | hq
      · exact hgt
      · exact lt_of_lt_of_le hgt (hfirst q hq)
    · rcases recordCommit_cases h m with ⟨mid, -, hok, hrep⟩ | ⟨e, herr⟩
      · have hstep : replayWindow m.partition (out, false) m =
            .ok ({ out with ledger := mid }, false) := by
          simp only [replayWindow, Bool.false_eq_true, if_false, if_neg hgt, hok]
        rw [hstep] at heq
        obtain ⟨recd, defd, g⟩ := ih { out with ledger := mid }
          hrep (fun q hq => hp q (by simp [hq])) hsort heq
        refine ⟨m :: recd, defd, by rw [g.split]; rfl, g.deferred, by simpa using g.ledger, ?_, g.stalls⟩
        simpa using g.beyond
      · have hstep : replayWindow m.partition (out, false) m =
            .error (.manifest m.partition m.windowId e) := by
          simp only [replayWindow, Bool.false_eq_true, if_false, if_neg hgt, herr]
        rw [hstep] at heq
        cases heq

/-- Sorting a shuffled dense record restores it. -/
theorem sort_dense {as bs : List WindowManifest} (h : Dense bs) (hp : as.Perm bs) :
    as.insertionSort windowLe = bs := by
  have hperm := (List.perm_insertionSort windowLe as).trans hp
  refine hperm.eq_of_pairwise ?_ (List.pairwise_insertionSort windowLe as) ?_
  · intro a b ha hb hab hba
    have hwin : a.windowId = b.windowId := le_antisymm (α := ℕ) hab hba
    have hga : bs[a.windowId]? = some a := h.getElem?_iff.mpr ⟨hperm.subset ha, rfl⟩
    have hgb : bs[a.windowId]? = some b := h.getElem?_iff.mpr ⟨hb, hwin.symm⟩
    exact Option.some.inj (hga.symm.trans hgb)
  · rw [List.pairwise_iff_getElem]
    intro i j hi hj hij
    rw [windowLe, h.window i hi, h.window j hj]
    exact hij.le

/-- Groups that are each dense are all replayed, and nothing is deferred. -/
theorem replay_dense (staging : List AppliedWatermarkRow) :
    ∀ (groups : List (PartitionId × List WindowManifest)) (out : Reconstruction)
    {ms : List WindowManifest} {ls : List LossLedgerRow}, Represents out.ledger ms ls →
    (groups.map (·.1)).Nodup → (∀ g ∈ groups, ∀ m ∈ g.2, m.partition = g.1) →
    (∀ g ∈ groups, commitsOn g.1 ms = [] ∧ Dense (g.2.insertionSort windowLe)) →
    ∃ next, groups.foldlM (replayPartition staging) out = .ok next ∧ next.deferred = out.deferred ∧
      Represents next.ledger (ms ++ groups.flatMap fun g => g.2.insertionSort windowLe) ls
  | [], out, ms, ls, h, _, _, _ => ⟨out, rfl, rfl, by simpa using h⟩
  | g :: groups, out, ms, ls, h, hnd, hpart, hd => by
    obtain ⟨hg, hnd⟩ := List.nodup_cons.mp hnd
    obtain ⟨hfresh, hdense⟩ := hd g (by simp)
    have hof : ∀ m ∈ g.2.insertionSort windowLe, m.partition = g.1 := fun m hm =>
      hpart g (by simp) m ((List.mem_insertionSort windowLe).mp hm)
    obtain ⟨ledger, hfold, hrep⟩ := replayGroup_dense g.1 _ out h hof (by rwa [hfresh])
    -- whether or not the partition is reported stalled, the ledger and the deferred list are these
    obtain ⟨mid, hmid, hled, hdef⟩ : ∃ mid, replayPartition staging out g = .ok mid ∧
        mid.ledger = ledger ∧ mid.deferred = out.deferred := by
      simp only [replayPartition, hfold]
      by_cases hs : ledger.advancedThrough g.1 < ledger.recordedThrough g.1
      · exact ⟨_, if_pos hs, rfl, rfl⟩
      · exact ⟨_, if_neg hs, rfl, rfl⟩
    rw [← hled] at hrep
    have hd' : ∀ q ∈ groups, commitsOn q.1 (ms ++ g.2.insertionSort windowLe) = [] ∧
        Dense (q.2.insertionSort windowLe) := by
      intro q hq
      obtain ⟨hqfresh, hqdense⟩ := hd q (by simp [hq])
      refine ⟨?_, hqdense⟩
      rw [commitsOn_append, hqfresh, List.nil_append, List.eq_nil_iff_forall_not_mem]
      intro m hm
      obtain ⟨hm, hmq⟩ := mem_commitsOn.mp hm
      exact hg (List.mem_map.mpr ⟨q, hq, hmq.symm.trans (hof m hm)⟩)
    obtain ⟨next, hnext, hdef', hrep'⟩ := replay_dense staging groups mid hrep hnd
      (fun q hq => hpart q (by simp [hq])) hd'
    refine ⟨next, ?_, hdef'.trans hdef, by simpa using hrep'⟩
    rw [List.foldlM_cons, hmid]
    exact hnext

theorem nodup_groups (ms : List WindowManifest) : ((byPartition ms).toList.map (·.1)).Nodup := by
  have hkeys := Std.ExtTreeMap.nodup_keys (t := byPartition ms)
  rwa [← Std.ExtTreeMap.map_fst_toList_eq_keys] at hkeys

theorem groups_partition (ms : List WindowManifest) :
    ∀ g ∈ (byPartition ms).toList, ∀ m ∈ g.2, m.partition = g.1 := by
  intro g hg m hm
  rw [(mem_groups.mp hg).1] at hm
  exact (mem_commitsOn.mp hm).2

/-- The ledger is a function of the sets of recorded manifests and losses, and reconstruction from
    them, in any order, returns it with nothing deferred. -/
theorem reconstruct_eq_live (ops : List LedgerOp) :
    (∀ ops', (∀ m, m ∈ recorded ops' ↔ m ∈ recorded ops) →
      (∀ l, l ∈ ledgered ops' ↔ l ∈ ledgered ops) → run {} ops' = run {} ops) ∧
    ∀ manifests losses staging, manifests.Perm (recorded ops) →
      (∀ l, l ∈ losses ↔ l ∈ ledgered ops) →
      ∃ r, reconstruct manifests losses staging = .ok r ∧ r.ledger = run {} ops ∧
        r.deferred = [] := by
  have hlive := represents_history ops
  refine ⟨fun ops' hms hls => represents_unique (represents_history ops') hlive hms hls, ?_⟩
  intro manifests losses staging hperm hls
  have hloss := replayLosses_spec losses represents_empty
  obtain ⟨ledger, hledger⟩ := hloss.1 fun l hl => hlive.losses l ((hls l).mp hl)
  have hshare : ∀ p, (commitsOn p manifests).Perm (commitsOn p (recorded ops)) := fun p =>
    hperm.filter _
  obtain ⟨r, hr, hdef, hrep⟩ := replay_dense staging (byPartition manifests).toList { ledger := ledger }
    (hloss.2 _ hledger) (nodup_groups manifests) (groups_partition manifests) fun g hg => by
      rw [(mem_groups.mp hg).1, sort_dense (hlive.dense g.1) (hshare g.1)]
      exact ⟨rfl, hlive.dense g.1⟩
  refine ⟨r, ?_, ?_, hdef⟩
  · rw [reconstruct, hledger]
    exact hr
  · refine represents_unique hrep hlive (fun m => ?_) (fun l => by rw [List.nil_append, hls l])
    have hgroups := (groups_perm manifests).trans hperm
    rw [List.nil_append, ← hgroups.mem_iff]
    simp only [List.mem_flatMap, List.mem_insertionSort]

/-! ### What a successful reconstruction reports -/

/-- What the replay of several groups has done when it succeeds. -/
structure Replayed (staging : List AppliedWatermarkRow)
    (groups : List (PartitionId × List WindowManifest)) (ms : List WindowManifest)
    (ls : List LossLedgerRow) (out next : Reconstruction) (recd defd : List WindowManifest) : Prop where
  split : (recd ++ defd).Perm (groups.flatMap (·.2))
  named : ∀ m ∈ recd, m.partition ∈ groups.map (·.1)
  deferred : next.deferred = out.deferred ++ defd
  ledger : Represents next.ledger (ms ++ recd) ls
  beyond : ∀ m ∈ defd, (commitsOn m.partition (ms ++ recd)).length < m.windowId
  stalls : ∀ p hs, ⟨p, .coverageHoles hs⟩ ∈ next.stalls ↔ ⟨p, .coverageHoles hs⟩ ∈ out.stalls ∨
    (p ∈ groups.map (·.1) ∧ next.ledger.advancedThrough p < next.ledger.recordedThrough p ∧
      hs = holes next.ledger staging p)

/-- The answers about a partition depend on its entry alone. -/
theorem answers_congr {l₁ l₂ : WatermarkLedger} {p : PartitionId}
    (h : l₁.partitions[p]? = l₂.partitions[p]?) (staging : List AppliedWatermarkRow) :
    l₁.advancedThrough p = l₂.advancedThrough p ∧ l₁.recordedThrough p = l₂.recordedThrough p ∧
      holes l₁ staging p = holes l₂ staging p := by
  unfold WatermarkLedger.advancedThrough WatermarkLedger.recordedThrough holes
    WatermarkLedger.blockingGaps
  rw [h]
  exact ⟨rfl, rfl, rfl⟩

/-- One group, the stall report included. -/
theorem replayPartition_spec {staging : List AppliedWatermarkRow} {out next : Reconstruction}
    {g : PartitionId × List WindowManifest} {ms : List WindowManifest} {ls : List LossLedgerRow}
    (h : Represents out.ledger ms ls) (hpart : ∀ m ∈ g.2, m.partition = g.1)
    (heq : replayPartition staging out g = .ok next) :
    ∃ recd defd, Replayed staging [g] ms ls out next recd defd := by
  have hof : ∀ m ∈ g.2.insertionSort windowLe, m.partition = g.1 := fun m hm =>
    hpart m ((List.mem_insertionSort windowLe).mp hm)
  simp only [replayPartition] at heq
  cases hfold : (g.2.insertionSort windowLe).foldlM (replayWindow g.1) (out, false) with
  | error e =>
    rw [hfold] at heq
    cases heq
  | ok acc =>
    obtain ⟨mid, gap⟩ := acc
    rw [hfold] at heq
    obtain ⟨recd, defd, hg⟩ := replayGroup_spec g.1 _ out h hof
      (List.pairwise_insertionSort windowLe g.2) hfold
    have hin : ∀ m ∈ recd ++ defd, m.partition = g.1 := fun m hm => hof m (hg.split ▸ hm)
    have hsplit : (recd ++ defd).Perm ([g].flatMap (·.2)) := by
      rw [← hg.split, List.flatMap_singleton]
      exact List.perm_insertionSort windowLe g.2
    have hbeyond : ∀ m ∈ defd, (commitsOn m.partition (ms ++ recd)).length < m.windowId := by
      intro m hm
      rw [hin m (List.mem_append_right _ hm)]
      exact hg.beyond m hm
    have hnamed : ∀ m ∈ recd, m.partition ∈ [g].map (·.1) := fun m hm => by
      simp [hin m (List.mem_append_left _ hm)]
    have hmissing : ∀ p hs, (⟨p, .coverageHoles hs⟩ : Stall) ∈ mid.stalls ↔
        ⟨p, .coverageHoles hs⟩ ∈ out.stalls := by
      obtain ⟨missing, hm⟩ := hg.stalls
      intro p hs
      rw [hm]
      simp
    by_cases hst : mid.ledger.advancedThrough g.1 < mid.ledger.recordedThrough g.1
    · obtain rfl := Except.ok.inj ((if_pos hst).symm.trans heq)
      refine ⟨recd, defd, hsplit, hnamed, hg.deferred, hg.ledger, hbeyond, fun p hs => ?_⟩
      simp only [List.mem_append, hmissing, List.mem_singleton, Stall.mk.injEq,
        StallReason.coverageHoles.injEq, List.map_cons, List.map_nil]
      refine or_congr_right ⟨?_, ?_⟩
      · rintro ⟨rfl, rfl⟩
        exact ⟨rfl, hst, rfl⟩
      · rintro ⟨rfl, -, rfl⟩
        exact ⟨rfl, rfl⟩
    · obtain rfl := Except.ok.inj ((if_neg hst).symm.trans heq)
      refine ⟨recd, defd, hsplit, hnamed, hg.deferred, hg.ledger, hbeyond, fun p hs => ?_⟩
      rw [hmissing, List.map_singleton, List.mem_singleton]
      refine ⟨Or.inl, ?_⟩
      rintro (hold | ⟨rfl, hlt, -⟩)
      · exact hold
      · exact absurd hlt hst

/-- A group, then the others, which are about other partitions. -/
theorem Replayed.cons {staging : List AppliedWatermarkRow} {g : PartitionId × List WindowManifest}
    {groups : List (PartitionId × List WindowManifest)} {out mid next : Reconstruction} {ms : List WindowManifest}
    {ls : List LossLedgerRow} {r₁ d₁ r₂ d₂ : List WindowManifest} (hpart : ∀ m ∈ g.2, m.partition = g.1)
    (hg : g.1 ∉ groups.map (·.1)) (h₁ : Replayed staging [g] ms ls out mid r₁ d₁)
    (h₂ : Replayed staging groups (ms ++ r₁) ls mid next r₂ d₂) :
    Replayed staging (g :: groups) ms ls out next (r₁ ++ r₂) (d₁ ++ d₂) := by
  have hsame : commitsOn g.1 (ms ++ r₁ ++ r₂) = commitsOn g.1 (ms ++ r₁) := by
    have hnil : commitsOn g.1 r₂ = [] := List.eq_nil_iff_forall_not_mem.mpr fun m hm => by
      obtain ⟨hm, hmg⟩ := mem_commitsOn.mp hm
      have hin := h₂.named m hm
      rw [hmg] at hin
      exact hg hin
    rw [commitsOn_append, hnil, List.append_nil]
  obtain ⟨hadv, hrec, hholes⟩ : next.ledger.advancedThrough g.1 = mid.ledger.advancedThrough g.1 ∧
      next.ledger.recordedThrough g.1 = mid.ledger.recordedThrough g.1 ∧
      holes next.ledger staging g.1 = holes mid.ledger staging g.1 := by
    refine answers_congr ?_ staging
    rw [h₁.ledger.state, h₂.ledger.state, stateOf, stateOf, hsame]
  refine ⟨?_, ?_, ?_, ?_, ?_, fun p hs => ?_⟩
  · have hperm : (r₁ ++ r₂ ++ (d₁ ++ d₂)).Perm ((r₁ ++ d₁) ++ (r₂ ++ d₂)) := by
      rw [List.append_assoc, List.append_assoc]
      refine List.Perm.append_left r₁ ?_
      rw [← List.append_assoc, ← List.append_assoc]
      exact List.Perm.append_right d₂ List.perm_append_comm
    refine hperm.trans ?_
    have h₁' := h₁.split
    rw [List.flatMap_singleton] at h₁'
    exact h₁'.append h₂.split
  · intro m hm
    rw [List.map_cons, List.mem_cons]
    rcases List.mem_append.mp hm with hm | hm
    · exact Or.inl (by simpa using h₁.named m hm)
    · exact Or.inr (h₂.named m hm)
  · rw [h₂.deferred, h₁.deferred, List.append_assoc]
  · rw [← List.append_assoc]
    exact h₂.ledger
  · intro m hm
    rw [← List.append_assoc]
    rcases List.mem_append.mp hm with hm | hm
    · have hmg : m.partition = g.1 := by
        have hin := h₁.split.subset (List.mem_append_right _ hm)
        rw [List.flatMap_singleton] at hin
        exact hpart m hin
      have hb := h₁.beyond m hm
      rw [hmg] at hb ⊢
      rwa [hsame]
    · exact h₂.beyond m hm
  · rw [h₂.stalls, h₁.stalls, or_assoc]
    refine or_congr_right ?_
    simp only [List.map_cons, List.map_nil, List.mem_cons, List.not_mem_nil, or_false]
    constructor
    · rintro (⟨rfl, hlt, rfl⟩ | ⟨hin, hrest⟩)
      · exact ⟨Or.inl rfl, by rw [hadv, hrec]; exact hlt, hholes.symm⟩
      · exact ⟨Or.inr hin, hrest⟩
    · rintro ⟨rfl | hin, hlt, rfl⟩
      · rw [hadv, hrec] at hlt
        exact Or.inl ⟨rfl, hlt, hholes⟩
      · exact Or.inr ⟨hin, hlt, rfl⟩

/-- All the groups: later groups are about other partitions, so what an earlier one reported still
    stands at the end. -/
theorem replay_spec (staging : List AppliedWatermarkRow) :
    ∀ (groups : List (PartitionId × List WindowManifest)) (out : Reconstruction)
    {next : Reconstruction} {ms : List WindowManifest} {ls : List LossLedgerRow},
    Represents out.ledger ms ls → (groups.map (·.1)).Nodup →
    (∀ g ∈ groups, ∀ m ∈ g.2, m.partition = g.1) →
    groups.foldlM (replayPartition staging) out = .ok next →
    ∃ recd defd, Replayed staging groups ms ls out next recd defd := by
  intro groups
  induction groups with
  | nil =>
    intro out next ms ls h _ _ heq
    obtain rfl := Except.ok.inj heq
    exact ⟨[], [], by simp, by simp, by simp, by simpa using h, by simp, by simp⟩
  | cons g groups ih =>
    intro out next ms ls h hnd hpart heq
    obtain ⟨hg, hnd⟩ := List.nodup_cons.mp hnd
    rw [List.foldlM_cons] at heq
    cases hmid : replayPartition staging out g with
    | error e =>
      rw [hmid] at heq
      cases heq
    | ok mid =>
      rw [hmid] at heq
      obtain ⟨r₁, d₁, h₁⟩ := replayPartition_spec h (hpart g (by simp)) hmid
      obtain ⟨r₂, d₂, h₂⟩ := ih mid h₁.ledger hnd
        (fun q hq => hpart q (by simp [hq])) heq
      exact ⟨r₁ ++ r₂, d₁ ++ d₂, h₁.cons (hpart g (by simp)) hg h₂⟩

/-- The whole of `reconstruct`, when it succeeds. -/
theorem reconstruct_spec {manifests : List WindowManifest} {losses : List LossLedgerRow}
    {staging : List AppliedWatermarkRow} {r : Reconstruction}
    (h : reconstruct manifests losses staging = .ok r) :
    ∃ recd, (recd ++ r.deferred).Perm manifests ∧ Represents r.ledger recd losses ∧
      (∀ m ∈ r.deferred, (commitsOn m.partition recd).length < m.windowId) ∧
      ∀ p hs, ⟨p, .coverageHoles hs⟩ ∈ r.stalls ↔
        (r.ledger.advancedThrough p < r.ledger.recordedThrough p ∧ hs = holes r.ledger staging p) := by
  simp only [reconstruct] at h
  cases hl : losses.foldlM replayLoss {} with
  | error e =>
    rw [hl] at h
    cases h
  | ok ledger =>
    rw [hl] at h
    obtain ⟨recd, defd, hr⟩ := replay_spec staging _ { ledger := ledger }
      ((replayLosses_spec losses represents_empty).2 _ hl) (nodup_groups manifests)
      (groups_partition manifests) h
    have hdef : r.deferred = defd := hr.deferred
    have hled := hr.ledger
    rw [List.nil_append] at hled
    have hbeyond := hr.beyond
    rw [List.nil_append] at hbeyond
    refine ⟨recd, hdef ▸ hr.split.trans (groups_perm manifests), hled, hdef ▸ hbeyond, fun p hs => ?_⟩
    rw [hr.stalls]
    simp only [List.not_mem_nil, false_or, and_iff_right_iff_imp]
    rintro ⟨hlt, -⟩
    -- a partition without manifests has nothing recorded, so it is not below it
    by_contra hout
    have hnil : commitsOn p recd = [] := List.eq_nil_iff_forall_not_mem.mpr fun m hm => by
      obtain ⟨hm, hmp⟩ := mem_commitsOn.mp hm
      exact hout (hmp ▸ hr.named m hm)
    have hnone : r.ledger.recordedThrough p = none := by
      rw [hled.recordedThrough, hnil]
      exact OrdMap.lastKey?_empty
    rw [hnone] at hlt
    exact Option.not_lt_none hlt

/-- `n` of origin `o` is committed in some window of the partition. -/
def Committed (ms : List WindowManifest) (p : PartitionId) (o : NodeId) (n : ℕ) : Prop :=
  ∃ m ∈ ms, m.partition = p ∧ Covers m.originCoverage o n

/-- The blocking gaps hold exactly the numbers below a committed one that are neither committed nor
    ledgered as lost. -/
theorem mem_blockingGaps {ledger : WatermarkLedger} {ms : List WindowManifest} {ls : List LossLedgerRow}
    (h : Represents ledger ms ls) (p : PartitionId) (o : NodeId) (n : ℕ) :
    (∃ g ∈ ledger.blockingGaps p, g.1 = o ∧ g.2.1 ≤ n ∧ n ≤ g.2.2) ↔
      1 ≤ n ∧ ¬ Committed ms p o n ∧ ¬ Lost ls p o n ∧ ∃ k, Committed ms p o k ∧ n < k := by
  have hcov := mem_coverageOf (h.dense p)
  have hloss := mem_lossesOf (h.lossesOn_valid p)
  have hcom : ∀ k, Mem (coverageOf (commitsOn p ms)) o k ↔ Committed ms p o k := by
    intro k
    rw [hcov.2]
    simp only [Committed, mem_commitsOn, and_assoc]
  have hgaps : ledger.blockingGaps p =
      unexcusedGaps (coverageOf (commitsOn p ms)) (lossesOf (lossesOn p ls)) := by
    rw [WatermarkLedger.blockingGaps, h.state, stateOf]
    by_cases he : commitsOn p ms = [] ∧ lossesOn p ls = []
    · rw [if_pos he, he.1, he.2]
      rfl
    · rw [if_neg he]
      rfl
  have hmem := (mem_unexcusedGaps hcov.1 hloss.1).2 o n
  simp only [h.mem_lost, hcom] at hmem
  rw [hgaps]
  exact hmem

/-- The reported holes are the blocking gaps. -/
theorem mem_holes {ledger : WatermarkLedger} {ms : List WindowManifest} {ls : List LossLedgerRow}
    (h : Represents ledger ms ls) (staging : List AppliedWatermarkRow) (p : PartitionId) (o : NodeId)
    (n : ℕ) :
    (∃ g ∈ holes ledger staging p, g.origin = o ∧ g.firstSeq ≤ n ∧ n ≤ g.lastSeq) ↔
      1 ≤ n ∧ ¬ Committed ms p o n ∧ ¬ Lost ls p o n ∧ ∃ k, Committed ms p o k ∧ n < k := by
  rw [← mem_blockingGaps h p o n, holes]
  simp

/-- A record drawn from a dense one, and itself dense, is a first part of it. -/
theorem dense_prefix {as bs : List WindowManifest} (ha : Dense as) (hb : Dense bs)
    (h : ∀ m ∈ as, m ∈ bs) : as <+: bs := by
  rw [List.prefix_iff_eq_take]
  refine List.ext_getElem? fun i => ?_
  by_cases hi : i < as.length
  · rw [List.getElem?_take_of_lt hi, List.getElem?_eq_getElem hi, eq_comm]
    exact hb.getElem?_iff.mpr ⟨h _ (List.getElem_mem hi), ha.window i hi⟩
  · have hle : as.length ≤ i := not_lt.mp hi
    rw [List.getElem?_eq_none hle, List.getElem?_eq_none ((List.length_take_le _ _).trans hle)]

theorem Represents.nodup_windows {ledger : WatermarkLedger} {ms : List WindowManifest}
    {ls : List LossLedgerRow} (h : Represents ledger ms ls) :
    (ms.map fun m => (m.partition, m.windowId)).Nodup := by
  rw [List.Nodup, List.pairwise_map, List.pairwise_iff_forall_sublist]
  intro a b hab heq
  obtain ⟨hp, hw⟩ := Prod.mk.inj heq
  -- two manifests of one partition keep their order in its share, so their windows differ
  have hsub : [a, b].Sublist (commitsOn a.partition ms) := by
    have hf := hab.filter fun m => decide (m.partition = a.partition)
    simpa [hp, commitsOn] using hf
  have hlt : ([a, b].map (·.windowId)).Pairwise (· < ·) := by
    refine List.Pairwise.sublist (hsub.map _) ?_
    rw [List.pairwise_map, List.pairwise_iff_getElem]
    intro i j hi hj hij
    rw [(h.dense a.partition).window i hi, (h.dense a.partition).window j hj]
    exact hij
  simp only [List.map_cons, List.map_nil, List.pairwise_cons, List.mem_singleton, forall_eq] at hlt
  exact absurd hlt.1 (by rw [hw]; exact lt_irrefl _)

/-- A successful reconstruction records or defers each manifest exactly once, reports a partition as
    stalled on coverage holes exactly when it is, with its unexcused gaps, and from any part of an
    accepted history never rebuilds a watermark above the live one. -/
theorem reconstruct_conservative {manifests : List WindowManifest} {losses : List LossLedgerRow}
    {staging : List AppliedWatermarkRow} {r : Reconstruction}
    (h : reconstruct manifests losses staging = .ok r) :
    (∃ recd : List WindowManifest, (recd ++ r.deferred).Perm manifests ∧
      (recd.map fun m => (m.partition, m.windowId)).Nodup ∧
      (∀ p w record, r.ledger.windowRecord p w = some record ↔
        ∃ m ∈ recd, m.partition = p ∧ m.windowId = w ∧ m.record = record) ∧
      (∀ m ∈ r.deferred, r.ledger.windowRecord m.partition m.windowId = none) ∧
      (∀ p hs, ⟨p, .coverageHoles hs⟩ ∈ r.stalls ↔
        (r.ledger.advancedThrough p < r.ledger.recordedThrough p ∧ hs = holes r.ledger staging p)) ∧
      ∀ p o n, (∃ g ∈ holes r.ledger staging p, g.origin = o ∧ g.firstSeq ≤ n ∧ n ≤ g.lastSeq) ↔
        1 ≤ n ∧ ¬ Committed recd p o n ∧ ¬ Lost losses p o n ∧
          ∃ k, Committed recd p o k ∧ n < k) ∧
    ∀ ops, (∀ m ∈ manifests, m ∈ recorded ops) → (∀ l ∈ losses, l ∈ ledgered ops) →
      ∀ p, r.ledger.completeThroughMs p ≤ (run {} ops).completeThroughMs p := by
  obtain ⟨recd, hperm, hrep, hbeyond, hstalls⟩ := reconstruct_spec h
  refine ⟨⟨recd, hperm, hrep.nodup_windows, fun p w record => ?_, fun m hm => ?_, hstalls,
    mem_holes hrep staging⟩, fun ops hms hls p => ?_⟩
  · rw [hrep.windowRecord, Option.map_eq_some_iff]
    simp only [(hrep.dense p).getElem?_iff, mem_commitsOn, and_assoc]
  · rw [hrep.windowRecord, List.getElem?_eq_none (hbeyond m hm).le]
    rfl
  · have hlive := represents_history ops
    rw [hrep.completeThroughMs, hlive.completeThroughMs]
    refine (partitionOf_mono (hlive.dense p) ?_ (fun l hl => ?_) (hlive.lossesOn_valid p)).2
    · refine dense_prefix (hrep.dense p) (hlive.dense p) fun m hm => ?_
      obtain ⟨hm, hmp⟩ := mem_commitsOn.mp hm
      exact mem_commitsOn.mpr ⟨hms m (hperm.subset (List.mem_append_left _ hm)), hmp⟩
    · obtain ⟨hl, hlp⟩ := mem_lossesOn.mp hl
      exact mem_lossesOn.mpr ⟨hls l hl, hlp⟩

/-- A window of a one-origin partition, for concrete runs. -/
def sampleManifest (w : WindowId) (first last : U64) : WindowManifest where
  dataset := ⟨"logs"⟩
  partition := ⟨"p"⟩
  windowId := w
  originCoverage := [⟨⟨"o1"⟩, first, last⟩]
  rows := 1
  eventTimeMinMs := 0
  eventTimeMaxMs := 1000
  dedupRemoved := 0
  parts := [⟨"p/w"⟩]

/-- Windows 0, 1 and 3 with a coverage hole at 4: window 3 is deferred, and none of it exceeds what
    the live ledger reached. -/
theorem reconstruct_conservative_holes :
    ∃ r, reconstruct [sampleManifest 3 9 9, sampleManifest 1 5 8, sampleManifest 0 1 3] [] [] = .ok r ∧
      r.deferred = [sampleManifest 3 9 9] ∧
      r.ledger.advancedThrough ⟨"p"⟩ < r.ledger.recordedThrough ⟨"p"⟩ ∧
      ∀ ops, (∀ m ∈ [sampleManifest 3 9 9, sampleManifest 1 5 8, sampleManifest 0 1 3],
        m ∈ recorded ops) → (∀ l ∈ ([] : List LossLedgerRow), l ∈ ledgered ops) →
        ∀ p, r.ledger.completeThroughMs p ≤ (run {} ops).completeThroughMs p := by
  cases hr : reconstruct [sampleManifest 3 9 9, sampleManifest 1 5 8, sampleManifest 0 1 3] [] [] with
  | error e =>
    have hok : (reconstruct [sampleManifest 3 9 9, sampleManifest 1 5 8, sampleManifest 0 1 3]
        [] []).isOk = true := by decide +kernel
    rw [hr] at hok
    cases hok
  | ok r =>
    have hdef : (reconstruct [sampleManifest 3 9 9, sampleManifest 1 5 8, sampleManifest 0 1 3]
        [] []).toOption.map (·.deferred) = some [sampleManifest 3 9 9] := by decide +kernel
    have hstall : (reconstruct [sampleManifest 3 9 9, sampleManifest 1 5 8, sampleManifest 0 1 3]
        [] []).toOption.map (fun r => decide
          (r.ledger.advancedThrough ⟨"p"⟩ < r.ledger.recordedThrough ⟨"p"⟩)) = some true := by decide +kernel
    rw [hr] at hdef hstall
    exact ⟨r, rfl, Option.some.inj hdef, of_decide_eq_true (Option.some.inj hstall),
      (reconstruct_conservative hr).2⟩

end Duckspout
