import Duckspout.Watermark.Advance

/-! Runs of the ledger: any sequence of `record_commit` and `record_loss` calls, accepted or not.

    `Represents` ties a ledger to the manifests and losses it has accepted: each partition is in the
    state `partitionOf` computes from its share of them. One call keeps it, so a whole run does, and
    what the ledger answers is read off the accepted history. -/

namespace Duckspout

open OriginCoverage

/-- A mutating call on the ledger. -/
inductive LedgerOp where
  | commit (m : WindowManifest)
  | loss (row : LossLedgerRow)
  deriving DecidableEq, Repr

namespace LedgerOp

def apply (op : LedgerOp) (ledger : WatermarkLedger) :
    Except AdvanceError (Option WatermarkRow) × WatermarkLedger :=
  match op with
  | .commit m => ledger.recordCommit m
  | .loss row => ledger.recordLoss row

/-- The ledger after a sequence of calls. -/
def run (ledger : WatermarkLedger) (ops : List LedgerOp) : WatermarkLedger :=
  ops.foldl (fun l op => (op.apply l).2) ledger

/-- The calls of a sequence that the ledger accepts. -/
def accepted : WatermarkLedger → List LedgerOp → List LedgerOp
  | _, [] => []
  | ledger, op :: ops =>
    match op.apply ledger with
    | (.ok _, next) => op :: accepted next ops
    | (.error _, next) => accepted next ops

/-- The manifests among the calls, in order. -/
def commits (ops : List LedgerOp) : List WindowManifest :=
  ops.filterMap fun
    | .commit m => some m
    | .loss _ => none

/-- The losses among the calls, in order. -/
def losses (ops : List LedgerOp) : List LossLedgerRow :=
  ops.filterMap fun
    | .commit _ => none
    | .loss row => some row

end LedgerOp

open LedgerOp

/-- A partition's share of the manifests. -/
def commitsOn (p : PartitionId) (ms : List WindowManifest) : List WindowManifest :=
  ms.filter (·.partition = p)

/-- A partition's share of the losses. -/
def lossesOn (p : PartitionId) (ls : List LossLedgerRow) : List LossLedgerRow :=
  ls.filter (·.range.partition = p)

/-- The partition's entry in the ledger's map; a partition nothing was recorded for has none. -/
def stateOf (p : PartitionId) (ms : List WindowManifest) (ls : List LossLedgerRow) :
    Option PartitionState :=
  if commitsOn p ms = [] ∧ lossesOn p ls = [] then none
  else some (partitionOf (commitsOn p ms) (lossesOn p ls))

/-- The ledger is the one that has accepted exactly these manifests and losses. -/
structure Represents (ledger : WatermarkLedger) (ms : List WindowManifest) (ls : List LossLedgerRow) :
    Prop where
  dense : ∀ p, Dense (commitsOn p ms)
  losses : ∀ l ∈ ls, ValidRange l.range.seqRange
  state : ∀ p : PartitionId, ledger.partitions[p]? = stateOf p ms ls

/-! ### Shares of an appended history -/

theorem commitsOn_append_self (ms : List WindowManifest) (m : WindowManifest) :
    commitsOn m.partition (ms ++ [m]) = commitsOn m.partition ms ++ [m] := by
  simp [commitsOn]

theorem commitsOn_append_ne (ms : List WindowManifest) {m : WindowManifest} {p : PartitionId}
    (h : m.partition ≠ p) : commitsOn p (ms ++ [m]) = commitsOn p ms := by
  simp [commitsOn, h]

theorem lossesOn_append_self (ls : List LossLedgerRow) (row : LossLedgerRow) :
    lossesOn row.range.partition (ls ++ [row]) = lossesOn row.range.partition ls ++ [row] := by
  simp [lossesOn]

theorem lossesOn_append_ne (ls : List LossLedgerRow) {row : LossLedgerRow} {p : PartitionId}
    (h : row.range.partition ≠ p) : lossesOn p (ls ++ [row]) = lossesOn p ls := by
  simp [lossesOn, h]

theorem mem_commitsOn {p : PartitionId} {ms : List WindowManifest} {m : WindowManifest} :
    m ∈ commitsOn p ms ↔ m ∈ ms ∧ m.partition = p := by
  simp [commitsOn]

theorem mem_lossesOn {p : PartitionId} {ls : List LossLedgerRow} {l : LossLedgerRow} :
    l ∈ lossesOn p ls ↔ l ∈ ls ∧ l.range.partition = p := by
  simp [lossesOn]

/-! ### One call, then a run -/

theorem represents_empty : Represents {} [] [] :=
  ⟨fun _ => dense_nil, by simp, fun p => OrdMap.get_empty p⟩

namespace Represents

variable {ledger : WatermarkLedger} {ms : List WindowManifest} {ls : List LossLedgerRow}

/-- A missing entry reads as the empty partition, which is the state of an empty share. -/
theorem getD (h : Represents ledger ms ls) (p : PartitionId) :
    ledger.partitions[p]?.getD default = partitionOf (commitsOn p ms) (lossesOn p ls) := by
  rw [h.state, stateOf]
  by_cases he : commitsOn p ms = [] ∧ lossesOn p ls = []
  · rw [if_pos he, he.1, he.2, partitionOf_nil]
    rfl
  · rw [if_neg he]
    rfl

theorem lossesOn_valid (h : Represents ledger ms ls) (p : PartitionId) :
    ∀ l ∈ lossesOn p ls, ValidRange l.range.seqRange := fun l hl => h.losses l (mem_lossesOn.mp hl).1

end Represents

/-- A partition without an entry is checked like an empty one. -/
theorem checkCommit_getD (state : Option PartitionState) (m : WindowManifest) :
    checkCommit state m = checkCommit (some (state.getD default)) m := by
  cases state with
  | some s => rfl
  | none =>
    have hprobe : probeRange none = probeRange (some default) := by
      funext probe r
      have hd : (default : PartitionState).committed[r.origin]? = none := OrdMap.get_empty _
      simp only [probeRange, Option.bind_none, Option.bind_some, hd]
    have hnext : (default : PartitionState).nextWindowId = 0 := nextWindowId_eq dense_nil rfl
    simp only [checkCommit, checkDataset, checkWindow]
    rw [hprobe]
    simp only [Option.getD_none, Option.bind_none, Option.bind_some, Option.elim_none,
      Option.elim_some, hnext]
    rfl

/-- Inserting the new state of one partition represents the history grown by one call on it. -/
theorem stateOf_insert {ledger : WatermarkLedger} {ms ms' : List WindowManifest}
    {ls ls' : List LossLedgerRow} {p : PartitionId} (h : Represents ledger ms ls)
    (hne : ¬ (commitsOn p ms' = [] ∧ lossesOn p ls' = []))
    (hms : ∀ q, p ≠ q → commitsOn q ms' = commitsOn q ms)
    (hls : ∀ q, p ≠ q → lossesOn q ls' = lossesOn q ls) (q : PartitionId) :
    (ledger.partitions.insert p (partitionOf (commitsOn p ms') (lossesOn p ls')))[q]? =
      stateOf q ms' ls' := by
  rw [OrdMap.get_insert]
  rcases eq_or_ne p q with rfl | hq
  · rw [if_pos rfl, stateOf, if_neg hne]
  · rw [if_neg hq, h.state q, stateOf, stateOf, hms q hq, hls q hq]

/-- `record_commit` on a represented ledger: accepted exactly when the partition's record stays
    dense, and then the history has grown by the manifest; rejected, the ledger is the same. -/
theorem recordCommit_spec {ledger : WatermarkLedger} {ms : List WindowManifest}
    {ls : List LossLedgerRow} (h : Represents ledger ms ls) (m : WindowManifest) :
    (Dense (commitsOn m.partition ms ++ [m]) →
      ∃ next, ledger.recordCommit m =
        (.ok ((next.completeThroughMs m.partition).map (WatermarkRow.mk m.partition)), next) ∧
        Represents next (ms ++ [m]) ls) ∧
    (¬ Dense (commitsOn m.partition ms ++ [m]) → ∃ e, ledger.recordCommit m = (.error e, ledger)) := by
  have hspec := checkCommit_spec (h.dense m.partition) (lossesOn m.partition ls) m
  rw [← h.getD, ← checkCommit_getD] at hspec
  simp only [WatermarkLedger.recordCommit]
  refine ⟨fun hd => ?_, fun hd => ?_⟩
  · obtain ⟨probe, hok, hcov⟩ := hspec.1 hd
    rw [hok, h.getD]
    simp only [commit_partitionOf hd _ hcov]
    refine ⟨_, Prod.ext ?_ rfl, fun q => ?_, h.losses, ?_⟩
    · simp only [WatermarkLedger.completeThroughMs, OrdMap.get_insert_self, Option.bind_some]
      rfl
    · rcases eq_or_ne m.partition q with rfl | hq
      · rw [commitsOn_append_self]
        exact hd
      · rw [commitsOn_append_ne ms hq]
        exact h.dense q
    · rw [← commitsOn_append_self]
      refine stateOf_insert h ?_ (fun q hq => commitsOn_append_ne ms hq) (fun q _ => rfl)
      rw [commitsOn_append_self]
      simp
  · obtain ⟨e, he⟩ := hspec.2 hd
    rw [he]
    exact ⟨e, rfl⟩

/-- The two ways of a `record_commit`. -/
theorem recordCommit_cases {ledger : WatermarkLedger} {ms : List WindowManifest}
    {ls : List LossLedgerRow} (h : Represents ledger ms ls) (m : WindowManifest) :
    (∃ next, Dense (commitsOn m.partition ms ++ [m]) ∧ ledger.recordCommit m =
        (.ok ((next.completeThroughMs m.partition).map (WatermarkRow.mk m.partition)), next) ∧
        Represents next (ms ++ [m]) ls) ∨
    ∃ e, ledger.recordCommit m = (.error e, ledger) := by
  rcases em (Dense (commitsOn m.partition ms ++ [m])) with hd | hd
  · obtain ⟨next, heq, hnext⟩ := (recordCommit_spec h m).1 hd
    exact .inl ⟨next, hd, heq, hnext⟩
  · exact .inr ((recordCommit_spec h m).2 hd)

/-- A ledger has recorded what it had, and the manifest where it was accepted. -/
theorem recordCommit_forall {ledger : WatermarkLedger} {ms : List WindowManifest} {ls : List LossLedgerRow}
    {m : WindowManifest} {P : WindowManifest → Prop} (h : Represents ledger ms ls) (hms : ∀ m ∈ ms, P m) (hm : P m) :
    ∃ ms', Represents (ledger.recordCommit m).2 ms' ls ∧ ∀ m ∈ ms', P m := by
  rcases recordCommit_cases h m with ⟨next, -, heq, hnext⟩ | ⟨e, heq⟩
  · rw [heq]
    refine ⟨ms ++ [m], hnext, fun m' hm' => ?_⟩
    rcases List.mem_append.mp hm' with hold | hnew
    · exact hms m' hold
    · rw [List.mem_singleton.mp hnew]
      exact hm
  · rw [heq]
    exact ⟨ms, h, hms⟩

/-- `record_loss` on a represented ledger: accepted exactly when the range is valid. -/
theorem recordLoss_spec {ledger : WatermarkLedger} {ms : List WindowManifest}
    {ls : List LossLedgerRow} (h : Represents ledger ms ls) (row : LossLedgerRow) :
    (ValidRange row.range.seqRange →
      ∃ next, ledger.recordLoss row = (.ok ((next.completeThroughMs row.range.partition).map
        (WatermarkRow.mk row.range.partition)), next) ∧ Represents next ms (ls ++ [row])) ∧
    (¬ ValidRange row.range.seqRange → ∃ e, ledger.recordLoss row = (.error e, ledger)) := by
  simp only [WatermarkLedger.recordLoss]
  refine ⟨fun hv => ?_, fun hv => ?_⟩
  · have hall : ∀ l ∈ ls ++ [row], ValidRange l.range.seqRange := by
      intro l hl
      rcases List.mem_append.mp hl with hl | hl
      · exact h.losses l hl
      · rw [List.mem_singleton.mp hl]
        exact hv
    have hshare : ∀ l ∈ lossesOn row.range.partition ls ++ [row], ValidRange l.range.seqRange := by
      intro l hl
      rw [← lossesOn_append_self] at hl
      exact hall l (mem_lossesOn.mp hl).1
    have hlose := lose_partitionOf (h.dense row.range.partition) hshare
    rw [checkSeqs_ok.mpr hv, h.getD]
    simp only [hlose]
    refine ⟨_, Prod.ext ?_ rfl, h.dense, hall, ?_⟩
    · simp only [WatermarkLedger.completeThroughMs, OrdMap.get_insert_self, Option.bind_some]
      rfl
    · rw [← lossesOn_append_self]
      refine stateOf_insert h ?_ (fun q _ => rfl) (fun q hq => lossesOn_append_ne ls hq)
      rw [lossesOn_append_self]
      simp
  · rw [checkSeqs_error hv]
    exact ⟨_, rfl⟩

/-- One call, accepted or not. -/
theorem represents_apply {ledger : WatermarkLedger} {ms : List WindowManifest}
    {ls : List LossLedgerRow} (h : Represents ledger ms ls) (op : LedgerOp) :
    (∃ row next, op.apply ledger = (.ok row, next) ∧
      Represents next (ms ++ commits [op]) (ls ++ LedgerOp.losses [op])) ∨
    ∃ e, op.apply ledger = (.error e, ledger) := by
  cases op with
  | commit m =>
    rcases recordCommit_cases h m with ⟨next, -, heq, hrep⟩ | hrejected
    · exact Or.inl ⟨_, next, heq, by simpa [commits, LedgerOp.losses] using hrep⟩
    · exact Or.inr hrejected
  | loss row =>
    have hspec := recordLoss_spec h row
    by_cases hv : ValidRange row.range.seqRange
    · obtain ⟨next, heq, hrep⟩ := hspec.1 hv
      exact Or.inl ⟨_, next, heq, by simpa [commits, LedgerOp.losses] using hrep⟩
    · exact Or.inr (hspec.2 hv)

theorem commits_cons (op : LedgerOp) (ops : List LedgerOp) :
    commits (op :: ops) = commits [op] ++ commits ops :=
  List.filterMap_append (l := [op])

theorem losses_cons (op : LedgerOp) (ops : List LedgerOp) :
    LedgerOp.losses (op :: ops) = LedgerOp.losses [op] ++ LedgerOp.losses ops :=
  List.filterMap_append (l := [op])

/-- A run represents the history of its accepted calls. -/
theorem represents_run : ∀ (ops : List LedgerOp) {ledger : WatermarkLedger}
    {ms : List WindowManifest} {ls : List LossLedgerRow}, Represents ledger ms ls →
    Represents (run ledger ops) (ms ++ commits (accepted ledger ops))
      (ls ++ LedgerOp.losses (accepted ledger ops)) := by
  intro ops
  induction ops with
  | nil =>
    intro ledger ms ls h
    simpa [run, accepted, commits, LedgerOp.losses] using h
  | cons op ops ih =>
    intro ledger ms ls h
    simp only [accepted]
    rcases represents_apply h op with ⟨row, next, heq, hrep⟩ | ⟨e, heq⟩
    · have ih := ih hrep
      rw [heq, commits_cons, losses_cons, ← List.append_assoc, ← List.append_assoc]
      rw [run, List.foldl_cons, heq]
      exact ih
    · rw [heq, run, List.foldl_cons, heq]
      exact ih h

/-- The manifests a run from the empty ledger has accepted. -/
def recorded (ops : List LedgerOp) : List WindowManifest := commits (accepted {} ops)

/-- The losses a run from the empty ledger has accepted. -/
def ledgered (ops : List LedgerOp) : List LossLedgerRow := LedgerOp.losses (accepted {} ops)

theorem represents_history (ops : List LedgerOp) :
    Represents (run {} ops) (recorded ops) (ledgered ops) :=
  represents_run ops represents_empty

theorem run_append (ledger : WatermarkLedger) (ops more : List LedgerOp) :
    run ledger (ops ++ more) = run (run ledger ops) more := List.foldl_append

/-! ### What the ledger answers -/

namespace Represents

variable {ledger : WatermarkLedger} {ms : List WindowManifest} {ls : List LossLedgerRow}

theorem advancedThrough (h : Represents ledger ms ls) (p : PartitionId) :
    ledger.advancedThrough p = (partitionOf (commitsOn p ms) (lossesOn p ls)).doneThrough := by
  rw [← h.getD, WatermarkLedger.advancedThrough]
  cases ledger.partitions[p]? with
  | none => rfl
  | some s => rfl

theorem completeThroughMs (h : Represents ledger ms ls) (p : PartitionId) :
    ledger.completeThroughMs p = (partitionOf (commitsOn p ms) (lossesOn p ls)).completeThroughMs := by
  rw [← h.getD, WatermarkLedger.completeThroughMs]
  cases ledger.partitions[p]? with
  | none => rfl
  | some s => rfl

theorem windowRecord (h : Represents ledger ms ls) (p : PartitionId) (w : WindowId) :
    ledger.windowRecord p w = (commitsOn p ms)[w]?.map (·.record) := by
  rw [← get_windowsOf (h.dense p), WatermarkLedger.windowRecord]
  have hget := congrArg (·.windows[w]?) (h.getD p)
  cases hs : ledger.partitions[p]? with
  | none =>
    rw [hs] at hget
    exact (OrdMap.get_empty w).symm.trans hget
  | some s =>
    rw [hs] at hget
    exact hget

theorem recordedThrough (h : Represents ledger ms ls) (p : PartitionId) :
    ledger.recordedThrough p = (windowsOf (commitsOn p ms)).lastKey? := by
  have hmax : (partitionOf (commitsOn p ms) (lossesOn p ls)).windows.lastKey? =
      (windowsOf (commitsOn p ms)).lastKey? := rfl
  rw [← hmax, ← h.getD, WatermarkLedger.recordedThrough]
  cases ledger.partitions[p]? with
  | none => exact rfl
  | some s => rfl

theorem nextWindow (h : Represents ledger ms ls) (p : PartitionId) :
    ledger.nextWindow p = (commitsOn p ms).length := by
  have hnext : (partitionOf (commitsOn p ms) (lossesOn p ls)).nextWindowId = _ :=
    nextWindowId_eq (h.dense p) rfl
  rw [← hnext, ← h.getD, WatermarkLedger.nextWindow]
  cases ledger.partitions[p]? with
  | none => exact (nextWindowId_eq dense_nil rfl).symm
  | some s => rfl

/-- The manifest of a partition found at position `w` is the one of window `w`. -/
theorem mem_iff_getElem? (h : Represents ledger ms ls) {p : PartitionId} {m : WindowManifest} :
    (m ∈ ms ∧ m.partition = p) ↔ (commitsOn p ms)[m.windowId]? = some m := by
  rw [(h.dense p).getElem?_iff, mem_commitsOn]
  simp

end Represents

/-! ### The advance rule, over every run -/

/-- `n` of origin `o` was committed in one of the windows up to `w`. -/
def CommittedThrough (ms : List WindowManifest) (p : PartitionId) (w : WindowId) (o : NodeId) (n : ℕ) :
    Prop := ∃ m ∈ ms, m.partition = p ∧ m.windowId ≤ w ∧ Covers m.originCoverage o n

/-- `n` of origin `o` lies in a ledgered loss of the partition. -/
def Lost (ls : List LossLedgerRow) (p : PartitionId) (o : NodeId) (n : ℕ) : Prop :=
  ∃ l ∈ ls, l.range.partition = p ∧ l.range.seqRange.Has o n

/-- Windows `0..=w` are all recorded, and every sequence number up to the largest one committed in
    them is committed in them or ledgered as lost. -/
structure CompleteThrough (ms : List WindowManifest) (ls : List LossLedgerRow) (p : PartitionId)
    (w : WindowId) : Prop where
  windows : ∀ v ≤ w, ∃ m ∈ ms, m.partition = p ∧ m.windowId = v
  seqs : ∀ o n k, 1 ≤ n → n ≤ k → CommittedThrough ms p w o k →
    CommittedThrough ms p w o n ∨ Lost ls p o n

namespace Represents

variable {ledger : WatermarkLedger} {ms : List WindowManifest} {ls : List LossLedgerRow}

/-- The first `w + 1` manifests of a partition are those of the windows up to `w`. -/
theorem mem_take (h : Represents ledger ms ls) {p : PartitionId} {w : ℕ} {m : WindowManifest} :
    m ∈ (commitsOn p ms).take (w + 1) ↔ m ∈ ms ∧ m.partition = p ∧ m.windowId ≤ w := by
  rw [← and_assoc, h.mem_iff_getElem?]
  constructor
  · intro hm
    obtain ⟨i, hi, rfl⟩ := List.getElem_of_mem hm
    have hlen := hi
    rw [List.length_take] at hlen
    have hlt : i < (commitsOn p ms).length := by omega
    rw [List.getElem_take, (h.dense p).window i hlt]
    exact ⟨List.getElem?_eq_getElem hlt, Nat.le_of_lt_succ (by omega)⟩
  · rintro ⟨hm, hw⟩
    refine List.mem_of_getElem? (i := m.windowId) ?_
    rw [List.getElem?_take_of_lt (Nat.lt_succ_of_le hw)]
    exact hm

theorem mem_covered (h : Represents ledger ms ls) (p : PartitionId) (w : ℕ) (o : NodeId) (n : ℕ) :
    Mem (coverageOf ((commitsOn p ms).take (w + 1))) o n ↔ CommittedThrough ms p w o n := by
  rw [(mem_coverageOf ((h.dense p).take _)).2]
  constructor
  · rintro ⟨m, hm, hc⟩
    obtain ⟨hm, hp, hw⟩ := h.mem_take.mp hm
    exact ⟨m, hm, hp, hw, hc⟩
  · rintro ⟨m, hm, hp, hw, hc⟩
    exact ⟨m, h.mem_take.mpr ⟨hm, hp, hw⟩, hc⟩

theorem mem_lost (h : Represents ledger ms ls) (p : PartitionId) (o : NodeId) (n : ℕ) :
    Mem (lossesOf (lossesOn p ls)) o n ↔ Lost ls p o n := by
  rw [(mem_lossesOf (h.lossesOn_valid p)).2]
  constructor
  · rintro ⟨l, hl, hn⟩
    exact ⟨l, (mem_lossesOn.mp hl).1, (mem_lossesOn.mp hl).2, hn⟩
  · rintro ⟨l, hl, hp, hn⟩
    exact ⟨l, mem_lossesOn.mpr ⟨hl, hp⟩, hn⟩

/-- The test of the advance rule, on the accepted history. -/
theorem completeThrough_iff (h : Represents ledger ms ls) (p : PartitionId) (w : ℕ) :
    CompleteThrough ms ls p w ↔
      w < (commitsOn p ms).length ∧
        completeAt (commitsOn p ms) (lossesOf (lossesOn p ls)) w = true := by
  rw [completeAt_iff (h.dense p) (mem_lossesOf (h.lossesOn_valid p)).1]
  simp only [GapFree]
  simp only [h.mem_covered, h.mem_lost]
  constructor
  · rintro ⟨hwin, hseq⟩
    obtain ⟨m, hm, hp, hw⟩ := hwin w le_rfl
    have hget := h.mem_iff_getElem?.mp ⟨hm, hp⟩
    obtain ⟨hlt, -⟩ := List.getElem?_eq_some_iff.mp hget
    rw [hw] at hlt
    exact ⟨hlt, fun o n h1 ⟨k, hk, hnk⟩ => hseq o n k h1 hnk hk⟩
  · rintro ⟨hlt, hfree⟩
    refine ⟨fun v hv => ?_, fun o n k h1 hnk hk => hfree o n h1 ⟨k, hk, hnk⟩⟩
    have hvlt : v < (commitsOn p ms).length := lt_of_le_of_lt hv hlt
    obtain ⟨hm, hp⟩ := mem_commitsOn.mp (List.getElem_mem hvlt)
    exact ⟨_, hm, hp, (h.dense p).window v hvlt⟩

end Represents

/-- After any run, the advanced window is the greatest complete one, and `complete_through` is the
    greatest event-time maximum of the windows up to it. -/
theorem advance_rule (ops : List LedgerOp) (p : PartitionId) :
    (∀ w, (run {} ops).advancedThrough p = some w ↔
      IsGreatest {v | CompleteThrough (recorded ops) (ledgered ops) p v} w) ∧
    ((run {} ops).advancedThrough p = none ↔
      ∀ v, ¬ CompleteThrough (recorded ops) (ledgered ops) p v) ∧
    (∀ w, (run {} ops).advancedThrough p = some w →
      ∃ t, (run {} ops).completeThroughMs p = some t ∧
        IsGreatest {t | ∃ m ∈ recorded ops, m.partition = p ∧ m.windowId ≤ w ∧
          m.eventTimeMaxMs = t} t) ∧
    ((run {} ops).advancedThrough p = none → (run {} ops).completeThroughMs p = none) := by
  have h := represents_history ops
  rw [h.advancedThrough, h.completeThroughMs]
  have hset : {v | CompleteThrough (recorded ops) (ledgered ops) p v} =
      {v | v < (commitsOn p (recorded ops)).length ∧
        completeAt (commitsOn p (recorded ops)) (lossesOf (lossesOn p (ledgered ops))) v = true} :=
    Set.ext (h.completeThrough_iff p)
  refine ⟨fun w => ?_, ?_, fun w hw => ?_, fun hw => ?_⟩
  · rw [hset]
    exact lastComplete_eq_some
  · simp only [h.completeThrough_iff, not_and, Bool.not_eq_true]
    exact lastComplete_eq_none
  · have hlt := advanced_lt hw
    have hne : (commitsOn p (recorded ops)).take (w + 1) ≠ [] := by
      rw [Ne, List.take_eq_nil_iff, not_or]
      exact ⟨Nat.succ_ne_zero w, List.ne_nil_of_length_pos (Nat.zero_lt_of_lt hlt)⟩
    obtain ⟨t, ht, hgt⟩ := (eventMaxOf_spec _).2 hne
    simp only [h.mem_take, and_assoc] at hgt
    refine ⟨t, ?_, hgt⟩
    change lastComplete _ _ _ = some w at hw
    change eventMaxOf (List.take (span (lastComplete _ _ _)) _) = some t
    rw [hw, span_some, ht]
  · change lastComplete _ _ _ = none at hw
    change eventMaxOf (List.take (span (lastComplete _ _ _)) _) = none
    rw [hw, span_none, List.take_zero, eventMaxOf_nil]

/-! ### Monotonicity, atomicity, disjointness and the preview -/

theorem commitsOn_append (p : PartitionId) (as bs : List WindowManifest) :
    commitsOn p (as ++ bs) = commitsOn p as ++ commitsOn p bs := List.filter_append ..

/-- Whatever calls follow, no partition's cursor or watermark moves back. -/
theorem run_mono {ledger : WatermarkLedger} {ms : List WindowManifest} {ls : List LossLedgerRow}
    (h : Represents ledger ms ls) (more : List LedgerOp) (p : PartitionId) :
    ledger.advancedThrough p ≤ (run ledger more).advancedThrough p ∧
      ledger.completeThroughMs p ≤ (run ledger more).completeThroughMs p := by
  have h' := represents_run more h
  rw [h.advancedThrough, h.completeThroughMs, h'.advancedThrough, h'.completeThroughMs]
  refine partitionOf_mono (h'.dense p) ?_ (fun l hl => ?_) (h'.lossesOn_valid p)
  · rw [commitsOn_append]
    exact List.prefix_append _ _
  · obtain ⟨hl, hp⟩ := mem_lossesOn.mp hl
    exact mem_lossesOn.mpr ⟨List.mem_append_left _ hl, hp⟩

/-- A rejected call leaves any ledger as it was. -/
theorem apply_rejected (op : LedgerOp) (ledger : WatermarkLedger) {e : AdvanceError}
    (h : (op.apply ledger).1 = .error e) : (op.apply ledger).2 = ledger := by
  cases op with
  | commit m =>
    simp only [LedgerOp.apply, WatermarkLedger.recordCommit] at h ⊢
    cases hc : checkCommit ledger.partitions[m.partition]? m with
    | error e => rfl
    | ok probe => simp [hc] at h
  | loss row =>
    simp only [LedgerOp.apply, WatermarkLedger.recordLoss] at h ⊢
    cases hc : checkSeqs row.range.origin row.range.firstSeq row.range.lastSeq with
    | error e => rfl
    | ok _ => simp [hc] at h

/-- Distinct recorded windows share no sequence number. -/
theorem Dense.disjoint {ms : List WindowManifest} (h : Dense ms) {v w : ℕ} (hne : v ≠ w)
    {a b : WindowManifest} (ha : ms[v]? = some a) (hb : ms[w]? = some b) (o : NodeId) (n : ℕ) :
    ¬ (Covers a.originCoverage o n ∧ Covers b.originCoverage o n) := by
  rintro ⟨⟨r, hr, hrn⟩, ⟨q, hq, hqn⟩⟩
  obtain ⟨hv, rfl⟩ := List.getElem?_eq_some_iff.mp ha
  obtain ⟨hw, rfl⟩ := List.getElem?_eq_some_iff.mp hb
  have hpair := List.pairwise_iff_getElem.mp (List.pairwise_flatMap.mp h.clear).2
  rcases Nat.lt_or_gt_of_ne hne with hlt | hlt
  · exact hpair v w hv hw hlt r hr q hq o n ⟨hrn, hqn⟩
  · exact hpair w v hw hv hlt q hq r hr o n ⟨hqn, hrn⟩

/-- The laws of the ledger over runs of arbitrary calls: nothing retreats, a rejected call changes
    nothing, distinct windows stay disjoint, and the preview of an accepted commit is the watermark
    the commit then produces. -/
theorem ledger_laws (ops more : List LedgerOp) (p : PartitionId) :
    ((run {} ops).completeThroughMs p ≤ (run {} (ops ++ more)).completeThroughMs p ∧
      (run {} ops).advancedThrough p ≤ (run {} (ops ++ more)).advancedThrough p) ∧
    (∀ (op : LedgerOp) (ledger : WatermarkLedger) (e : AdvanceError),
      (op.apply ledger).1 = .error e → (op.apply ledger).2 = ledger) ∧
    (∀ v w a b, v ≠ w → (run {} ops).windowRecord p v = some a →
      (run {} ops).windowRecord p w = some b →
      ∀ o n, ¬ (Covers a.originCoverage o n ∧ Covers b.originCoverage o n)) ∧
    (∀ m row next, (run {} ops).recordCommit m = (.ok row, next) →
      (run {} ops).advanceFor m = .ok row ∧
        row = (next.completeThroughMs m.partition).map (WatermarkRow.mk m.partition)) := by
  have h := represents_history ops
  refine ⟨?_, fun op ledger e => apply_rejected op ledger, ?_, ?_⟩
  · rw [run_append]
    exact (run_mono h more p).symm
  · intro v w a b hne ha hb o n
    rw [h.windowRecord, Option.map_eq_some_iff] at ha hb
    obtain ⟨m, hm, rfl⟩ := ha
    obtain ⟨m', hm', rfl⟩ := hb
    exact (h.dense p).disjoint hne hm hm' o n
  · intro m row next heq
    refine ⟨congrArg Prod.fst heq, ?_⟩
    rcases recordCommit_cases h m with ⟨next', -, heq', -⟩ | ⟨e, heq'⟩
    · rw [heq', Prod.mk.injEq, Except.ok.injEq] at heq
      rw [← heq.1, heq.2]
    · simp [heq'] at heq

end Duckspout
