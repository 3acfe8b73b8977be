import Duckspout.Drain.NoLoss

/-! Two datasets in one partition. A partition is named by tenant and shard only, so attempts for different
    datasets can meet in one partition of a ledger, which has recorded one of them.

    The ledger's record path compares datasets; the check that precedes an attempt and the completion of
    a recorded window look at partition and window only. -/

namespace Duckspout

open Snapshot Threads Protocol

/-! ### Foreign attempts -/

/-- The lake stores a manifest of the dataset, the partition and the window. -/
def Lake.Stores (l : Lake) (key : WindowKey) : Prop :=
  ∃ r ∈ values l.manifests, r.dataset = key.dataset ∧ r.partition = key.partition ∧ r.windowId = toI64 key.window

instance (l : Lake) (key : WindowKey) : Decidable (l.Stores key) :=
  inferInstanceAs (Decidable (∃ r ∈ values l.manifests, r.dataset = key.dataset ∧ r.partition = key.partition ∧
    r.windowId = toI64 key.window))

def DrainJob.key (j : DrainJob) : WindowKey := ⟨j.dataset, j.partition, j.window⟩

/-- The node's ledger has recorded another dataset for the partition of the attempt. -/
def Foreign (s : DrainState) (i : ℕ) (j : DrainJob) : Prop :=
  ∃ d ∈ (s.ledgerOf i).dataset j.partition, d ≠ j.dataset

instance (s : DrainState) (i : ℕ) (j : DrainJob) : Decidable (Foreign s i j) :=
  inferInstanceAs (Decidable (∃ d ∈ (s.ledgerOf i).dataset j.partition, d ≠ j.dataset))

/-- The condition on a call of an attempt, in the state before it: one for another dataset than the recorded one
    does not run the check below the expected window, and a read-back shows the advance of the batch only where the
    lake stores a manifest of its dataset and window. -/
def Isolated (t : DrainTid) (j : DrainJob) : DrainOp → DrainState → Prop
  | .nextWindow p, s => Foreign s t.1 j → (s.ledgerOf t.1).nextWindow p ≤ j.window
  | .readWatermarks ps sub, s => sub.observed (readWatermarks s.lake ps) = true → s.lake.Stores sub.manifest.key
  | _, _ => True

instance (t : DrainTid) (j : DrainJob) : (o : DrainOp) → (s : DrainState) → Decidable (Isolated t j o s)
  | .nextWindow p, s => inferInstanceAs (Decidable (Foreign s t.1 j → (s.ledgerOf t.1).nextWindow p ≤ j.window))
  | .readWatermarks ps sub, s => inferInstanceAs (Decidable
    (sub.observed (readWatermarks s.lake ps) = true → s.lake.Stores sub.manifest.key))
  | .commitFiles _ _, _ | .completeThroughMs _, _ | .sealWindow _, _ | .advanceFor _, _ | .scratchGet _, _
  | .putPart _ _, _ | .recordCommit _, _ | .scratchDelete _, _ | .recordedCoverage _ _, _
  | .dropWindow _ _, _ => isTrue trivial

/-- A run in which every call meets the condition. -/
abbrev IsolatedRun (config : DuckLakeConfig) (es : List DrainEvent) : Prop :=
  (drainers config).Admissible (CallOk Isolated) { shared := {} } es

/-! ### The ledger -/

section Ledger

variable {ledger : WatermarkLedger} {ms : List WindowManifest}

theorem Represents.dataset (h : Represents ledger ms []) (p : PartitionId) :
    ledger.dataset p = (commitsOn p ms).head?.map (·.dataset) := by
  have hdataset : (partitionOf (commitsOn p ms) (lossesOn p [])).dataset = (commitsOn p ms).head?.map (·.dataset) := rfl
  rw [← hdataset, ← h.getD, WatermarkLedger.dataset]
  cases ledger.partitions[p]? with
  | none => rfl
  | some s => rfl

/-- A window below the expected one was recorded, under the partition's dataset. -/
theorem Represents.recorded (h : Represents ledger ms []) {p : PartitionId} {w : WindowId}
    (hw : w < ledger.nextWindow p) :
    ∃ m ∈ ms, m.partition = p ∧ m.windowId = w ∧ ledger.dataset p = some m.dataset := by
  rw [h.nextWindow] at hw
  have hmem := List.getElem_mem hw
  obtain ⟨hms, hp⟩ := mem_commitsOn.mp hmem
  refine ⟨_, hms, hp, (h.dense p).window w hw, ?_⟩
  rw [h.dataset]
  exact (h.dense p).dataset _ hmem

/-- A recorded manifest has its dataset recorded. -/
theorem Represents.dataset_of_mem (h : Represents ledger ms []) {m : WindowManifest} (hm : m ∈ ms) :
    ledger.dataset m.partition = some m.dataset := by
  rw [h.dataset]
  exact (h.dense m.partition).dataset m (mem_commitsOn.mpr ⟨hm, rfl⟩)

/-- Recording keeps a recorded dataset. -/
theorem Represents.dataset_recordCommit (h : Represents ledger ms []) (m : WindowManifest) {p : PartitionId}
    {d : DatasetId} (hd : ledger.dataset p = some d) : (ledger.recordCommit m).2.dataset p = some d := by
  rcases recordCommit_cases h m with ⟨next, -, heq, hnext⟩ | ⟨e, heq⟩
  · rw [h.dataset, Option.map_eq_some_iff] at hd
    obtain ⟨first, hfirst, rfl⟩ := hd
    have hmem : first ∈ commitsOn p ms := List.mem_of_mem_head? hfirst
    obtain ⟨hms, rfl⟩ := mem_commitsOn.mp hmem
    rw [heq]
    exact hnext.dataset_of_mem (List.mem_append_left _ hms)
  · rw [heq]
    exact hd

/-- What is accepted has its dataset recorded. -/
theorem Represents.dataset_of_ok (h : Represents ledger ms []) {m : WindowManifest} {row : Option WatermarkRow}
    (hok : (ledger.recordCommit m).1 = .ok row) : (ledger.recordCommit m).2.dataset m.partition = some m.dataset := by
  rcases recordCommit_cases h m with ⟨next, -, heq, hnext⟩ | ⟨e, heq⟩
  · rw [heq]
    exact hnext.dataset_of_mem (List.mem_append_right _ List.mem_cons_self)
  · rw [heq] at hok
    cases hok

theorem probeRanges_ne_windowNotNext {state : Option PartitionState} {ranges : List OriginSeqRange} :
    ∀ {probe : OriginCoverage} {p : PartitionId} {expected got : WindowId},
      ranges.foldlM (probeRange state) probe ≠ .error (.windowNotNext p expected got) := by
  induction ranges with
  | nil =>
    intro probe p expected got h
    cases h
  | cons range ranges ih =>
    intro probe p expected got h
    rw [List.foldlM_cons] at h
    unfold probeRange checkSeqs at h
    split_ifs at h
    · cases h
    · dsimp only [bind, Except.bind] at h
      split_ifs at h
      · cases h
      · exact ih h

/-- The window fence answers only where the dataset is the recorded one. -/
theorem windowNotNext_dataset {m : WindowManifest} {p : PartitionId} {expected got : WindowId}
    (h : (ledger.recordCommit m).1 = .error (.windowNotNext p expected got)) :
    expected = ledger.nextWindow m.partition ∧ got = m.windowId ∧
      ∀ d, ledger.dataset m.partition = some d → d = m.dataset := by
  have hcheck : checkCommit ledger.partitions[m.partition]? m = .error (.windowNotNext p expected got) := by
    simp only [WatermarkLedger.recordCommit] at h
    split at h
    next e heq => rw [heq, Except.error.inj h]
    · cases h
  simp only [checkCommit] at hcheck
  rcases htimes : checkTimes m with e | _
  · rw [htimes] at hcheck
    simp only [checkTimes] at htimes
    split_ifs at htimes
    cases htimes
    cases hcheck
  rcases hdataset : checkDataset ledger.partitions[m.partition]? m with e | _
  · rw [htimes, hdataset] at hcheck
    simp only [checkDataset] at hdataset
    split at hdataset
    · split_ifs at hdataset
      cases hdataset
      cases hcheck
    · cases hdataset
  rw [htimes, hdataset] at hcheck
  have hsame : ∀ d, ledger.dataset m.partition = some d → d = m.dataset := by
    intro d hd
    simp only [checkDataset] at hdataset
    rw [show ledger.partitions[m.partition]?.bind (·.dataset) = some d from hd] at hdataset
    by_contra hne
    simp [hne] at hdataset
  simp only [checkWindow] at hcheck
  dsimp only [bind, Except.bind] at hcheck
  split_ifs at hcheck
  · cases hcheck
    exact ⟨rfl, rfl, hsame⟩
  · exact absurd hcheck probeRanges_ne_windowNotNext

end Ledger

/-! ### What an attempt knows -/

/-- The dataset of the attempt is the recorded one; the lake stores its window. -/
structure Standing where
  job : DrainJob
  owned : Bool := false
  stored : Bool := false

/-- A manifest as the attempt makes it. -/
structure MadeBy (j : DrainJob) (m : WindowManifest) : Prop where
  key : m.key = j.key
  parts : m.parts = [m.windowPart]

section MadeBy

variable {j : DrainJob} {m : WindowManifest}

theorem MadeBy.dataset (h : MadeBy j m) : m.dataset = j.dataset := congrArg WindowKey.dataset h.key

theorem MadeBy.partition (h : MadeBy j m) : m.partition = j.partition := congrArg WindowKey.partition h.key

theorem MadeBy.window (h : MadeBy j m) : m.windowId = j.window := congrArg WindowKey.window h.key

end MadeBy

/-- What each call asks for: a manifest is recorded only where it is stored, and rows are dropped only of the
    attempt's own window, under its own dataset. -/
def isolationPre : DrainOp → Standing → Prop
  | .nextWindow p, k => p = k.job.partition
  | .advanceFor m, k => MadeBy k.job m
  | .commitFiles m _, k => MadeBy k.job m
  | .readWatermarks _ sub, k => MadeBy k.job sub.manifest
  | .recordCommit m, k => MadeBy k.job m ∧ k.stored = true
  | .dropWindow key _, k => key = k.job.key ∧ k.owned = true
  | _, _ => True

/-- What each answer teaches. -/
def isolationLearns : (o : DrainOp) → Standing → o.Res → Standing
  | .nextWindow _, k, expected => if k.job.window < expected then { k with owned := true, stored := true } else k
  | .advanceFor _, k, .error (.windowNotNext _ expected got) =>
    if got < expected then { k with owned := true, stored := true } else k
  | .commitFiles _ _, k, .ok .committed => { k with stored := true }
  | .readWatermarks _ sub, k, .ok rows => if sub.observed rows then { k with stored := true } else k
  | .recordCommit _, k, .ok _ => { k with owned := true }
  | .recordCommit _, k, .error (.windowNotNext _ expected got) => if got < expected then { k with owned := true } else k
  | _, k, _ => k

def isolationProtocol : Protocol DrainOp DrainOp.Res Standing where
  pre := isolationPre
  next o k r k' := k' = isolationLearns o k r

/-- What an attempt that ends knows by its answer. -/
def Answered (a : Except DrainError DrainOutcome) (k : Standing) : Prop :=
  match a with
  | .ok (.committed _) => k.owned = true
  | .ok .alreadyCommitted => k.owned = true ∧ k.stored = true
  | _ => True

/-! ### The program keeps to it -/

section Attempt

variable {α ε : Type} {k : Standing} {Q : α → Standing → Prop}

/-- The program asks only for what is known, and returns in `Q`; it may fail at any point. -/
abbrev Knowing (x : DrainM α) (Q : α → Standing → Prop) (k : Standing) : Prop :=
  isolationProtocol.Ewp x Q (fun _ _ => True) k

theorem knowing_call {o : DrainOp} {Q : o.Res → Standing → Prop} (hpre : isolationPre o k)
    (h : ∀ r, Q r (isolationLearns o k r)) : Knowing (call o) Q k :=
  ewp_call hpre (fun _ _ hk => hk) h

theorem knowing_orFail {error : ε → DrainError} {r : Except ε α} (h : ∀ a, r = .ok a → Q a k) :
    Knowing (orFail error r) Q k := ewp_orFail h fun _ _ => trivial

theorem knowing_discardScratch {path : String} {Q : PUnit → Standing → Prop} (h : Q ⟨⟩ k) :
    Knowing (discardScratch path) Q k :=
  ewp_bind (knowing_call trivial fun _ => ewp_pure h)

theorem knowing_dropCovered {key : WindowKey} {covered : List OriginSeqRange} {Q : PUnit → Standing → Prop}
    (hkey : key = k.job.key) (howned : k.owned = true) (h : Q ⟨⟩ k) : Knowing (dropCovered key covered) Q k :=
  ewp_bind (knowing_call ⟨hkey, howned⟩ fun _ => ewp_bind (knowing_orFail fun _ _ => ewp_pure h))

theorem knowing_finishAlreadyCommitted {j : DrainJob} {scratch : Option String} (hjob : k.job = j)
    (howned : k.owned = true) (hstored : k.stored = true) :
    Knowing (finishAlreadyCommitted j.dataset j.partition j.window scratch) (fun a => Answered (.ok a)) k := by
  have hfinish : Knowing (do
      let covered ← call (.recordedCoverage j.partition j.window)
      dropCovered ⟨j.dataset, j.partition, j.window⟩ (covered.getD [])
      return DrainOutcome.alreadyCommitted) (fun a => Answered (.ok a)) k := by
    refine ewp_bind (knowing_call trivial fun covered => ewp_bind (knowing_dropCovered ?_ howned ?_))
    · exact hjob ▸ rfl
    · exact ewp_pure ⟨howned, hstored⟩
  cases scratch with
  | none => exact hfinish
  | some path => exact ewp_bind (knowing_discardScratch hfinish)

/-- The record path lets through only the recorded dataset. -/
theorem knowing_recordOnce {m : WindowManifest} {Q : Option WatermarkRow → Standing → Prop} (hm : MadeBy k.job m)
    (hstored : k.stored = true) (hQ : ∀ row, Q row { k with owned := true }) : Knowing (recordOnce m) Q k := by
  refine ewp_bind (knowing_call ⟨hm, hstored⟩ fun recorded => ?_)
  rcases recorded with (⟨p, expected, got⟩ | text) | row
  · rcases Nat.lt_or_ge got expected with hlt | hge
    · simp only [isolationLearns, if_pos hlt]
      exact ewp_bind (knowing_call trivial fun ms => ewp_pure (hQ _))
    · simp only [if_neg (Nat.not_lt.mpr hge)]
      exact ewp_throw trivial
  · exact ewp_throw trivial
  · exact ewp_pure (hQ row)

theorem knowing_finishCommitted {m : WindowManifest} {path : String} {Q : Option WatermarkRow → Standing → Prop}
    (hm : MadeBy k.job m) (hstored : k.stored = true) (hQ : ∀ row, Q row { k with owned := true }) :
    Knowing (finishCommitted m path) Q k := by
  refine ewp_bind (knowing_recordOnce hm hstored fun row => ?_)
  refine ewp_bind (knowing_discardScratch (ewp_bind (knowing_dropCovered hm.key rfl ?_)))
  exact ewp_pure (hQ row)

theorem knowing_reconcile {unsettled : Unsettled} {sub : Submission} {path : String} (hm : MadeBy k.job sub.manifest) :
    Knowing (reconcile unsettled sub path) (fun a => Answered (.ok a)) k := by
  refine ewp_bind (knowing_call hm fun answer => ?_)
  rcases answer with e | rows
  · exact ewp_bind (knowing_discardScratch (ewp_pure trivial))
  · rcases hobs : sub.observed rows with _ | _
    · simp only [hobs, Bool.false_eq_true, if_false]
      split_ifs
      all_goals exact ewp_bind (knowing_discardScratch (ewp_pure trivial))
    · simp only [isolationLearns, hobs, if_true]
      cases unsettled with
      | aborted => exact ewp_bind (knowing_finishCommitted hm rfl fun _ => ewp_pure ⟨rfl, rfl⟩)
      | indeterminate => exact ewp_bind (knowing_finishCommitted hm rfl fun _ => ewp_pure rfl)

theorem knowing_submit {m : WindowManifest} {path : String} {previewed : Option WatermarkRow} {prior : Option ℤ}
    (hm : MadeBy k.job m) : Knowing (submit m path previewed prior) (fun a => Answered (.ok a)) k := by
  refine ewp_bind (knowing_call trivial fun file => ewp_bind (knowing_orFail fun data _ => ?_))
  refine ewp_bind (knowing_call trivial fun put => ewp_bind (knowing_orFail fun _ _ => ?_))
  refine ewp_bind (knowing_call hm fun answer => ewp_bind (knowing_orFail fun outcome ho => ?_))
  subst ho
  cases outcome with
  | committed => exact ewp_bind (knowing_finishCommitted hm rfl fun _ => ewp_pure rfl)
  | aborted => exact knowing_reconcile hm
  | indeterminate => exact knowing_reconcile hm

/-- An attempt keeps to the protocol, and knows what its answer says. -/
theorem knowing_drainWindow (j : DrainJob) :
    Knowing (drainWindow j.dataset j.partition j.window j.plan) (fun a => Answered (.ok a)) { job := j } := by
  refine ewp_bind (knowing_call rfl fun expected => ?_)
  rcases Nat.lt_trichotomy j.window expected with hlt | rfl | hgt
  · simp only [isolationLearns, if_pos hlt]
    exact knowing_finishAlreadyCommitted rfl rfl rfl
  · simp only [isolationLearns, gt_iff_lt, Nat.lt_irrefl, if_false]
    refine ewp_bind (knowing_call trivial fun prior => ?_)
    refine ewp_bind (knowing_call trivial fun answer => ewp_bind (knowing_orFail fun sealed _ => ?_))
    have hm : MadeBy j (sealedManifest j.dataset j.partition j.window sealed) := ⟨rfl, rfl⟩
    refine ewp_bind (knowing_call hm fun preview => ?_)
    rcases preview with (⟨p, expected, got⟩ | text) | previewed
    · rcases Nat.lt_or_ge got expected with hlt | hge
      · simp only [isolationLearns, if_pos hlt]
        exact knowing_finishAlreadyCommitted rfl rfl rfl
      · simp only [if_neg (Nat.not_lt.mpr hge)]
        exact ewp_throw trivial
    · exact ewp_throw trivial
    · exact knowing_submit hm
  · simp only [if_neg (Nat.not_lt.mpr hgt.le), gt_iff_lt, if_pos hgt]
    exact ewp_throw trivial

end Attempt

/-! ### The lake and the ledgers -/

section State

variable {config : DuckLakeConfig} {l l' : Lake} {s : DrainState}

theorem Lake.Stores.mono {key : WindowKey} (h : l.Stores key) (hl : values l.manifests <+: values l'.manifests) :
    l'.Stores key := by
  obtain ⟨r, hr, hkey⟩ := h
  exact ⟨r, hl.subset hr, hkey⟩

/-- The rows of the lake are of window parts, each under the name of its own dataset. -/
structure NamedRows (l : Lake) : Prop where
  name : ∀ r ∈ values l.manifests, ∃ p w, r.partName = partName r.dataset p w .window
  window : ∀ r ∈ values l.manifests, 0 ≤ r.windowId ∧ r.windowId ≤ i64Max

theorem namedRows_empty : NamedRows {} := ⟨(fun r hr => by cases hr), (fun r hr => by cases hr)⟩

theorem NamedRows.register {j : DrainJob} {m : WindowManifest} {ws : List WatermarkRow} (h : NamedRows l)
    (hm : MadeBy j m) : NamedRows (l.register config m ws) := by
  refine ⟨fun r hr => ?_, fun r hr => ?_⟩
  · rcases mem_manifests_register hr with hold | ⟨part, hpart, rfl⟩
    · exact h.name r hold
    · rw [hm.parts, List.mem_singleton] at hpart
      rw [hpart]
      exact ⟨_, _, rfl⟩
  · rcases mem_manifests_register hr with hold | ⟨part, -, rfl⟩
    · exact h.window r hold
    · exact toI64_mem m.windowId

/-- A landed batch is stored: by the row it adds, or by one of the same name, hence of the same dataset. -/
theorem stores_register {j : DrainJob} {m : WindowManifest} {ws : List WatermarkRow} (h : NamedRows l)
    (hm : MadeBy j m) : (l.register config m ws).Stores j.key := by
  rw [← hm.key]
  rcases registered_or_there (show m.windowPart ∈ m.parts by simp [hm.parts]) with hnew | ⟨r, hr, hkey⟩
  · exact ⟨manifestRow m m.windowPart, hnew, rfl, rfl, rfl⟩
  · obtain ⟨p, w, hname⟩ := h.name r hr
    have hdataset : r.dataset = m.dataset := dataset_of_partName (hname.symm.trans (congrArg (·.2.2) hkey))
    exact Lake.Stores.mono ⟨r, hr, hdataset, congrArg Prod.fst hkey, congrArg (·.2.1) hkey⟩ manifests_register

/-- The ledger has recorded manifests the lake stores. -/
def LedgerStored (l : Lake) (ledger : WatermarkLedger) : Prop :=
  ∃ ms, Represents ledger ms [] ∧ ∀ m ∈ ms, l.Stores m.key

theorem ledgerStored_empty : LedgerStored l {} := ⟨[], represents_empty, fun m hm => by cases hm⟩

theorem LedgerStored.mono {ledger : WatermarkLedger} (h : LedgerStored l ledger)
    (hl : values l.manifests <+: values l'.manifests) : LedgerStored l' ledger := by
  obtain ⟨ms, hrep, hms⟩ := h
  exact ⟨ms, hrep, fun m hm => (hms m hm).mono hl⟩

theorem LedgerStored.recordCommit {ledger : WatermarkLedger} {m : WindowManifest} (h : LedgerStored l ledger)
    (hm : l.Stores m.key) : LedgerStored l (ledger.recordCommit m).2 := by
  obtain ⟨ms, hrep, hms⟩ := h
  exact recordCommit_forall hrep hms hm

theorem ledgerStored_boot {ledger : WatermarkLedger} (hrows : NamedRows l) (h : bootLedger l = some ledger) :
    LedgerStored l ledger := by
  obtain ⟨ms, hrep, hread⟩ := bootLedger_spec h
  refine ⟨ms, hrep, fun m hm => ?_⟩
  obtain ⟨r, hr, hfrom⟩ := hread m hm
  have hw : m.windowId = toWindowId r.windowId := congrArg WindowManifest.windowId hfrom.manifest
  refine ⟨r, hr, (congrArg WindowManifest.dataset hfrom.manifest).symm,
    (congrArg WindowManifest.partition hfrom.manifest).symm, ?_⟩
  change r.windowId = toI64 m.windowId
  rw [hw, toI64_toWindowId (hrows.window r hr).1 (hrows.window r hr).2]

/-- A window below the expected one is stored, under the recorded dataset. -/
theorem LedgerStored.below {ledger : WatermarkLedger} (h : LedgerStored l ledger) {j : DrainJob}
    (hw : j.window < ledger.nextWindow j.partition)
    (hsame : ∀ d, ledger.dataset j.partition = some d → d = j.dataset) :
    ledger.dataset j.partition = some j.dataset ∧ l.Stores j.key := by
  obtain ⟨ms, hrep, hms⟩ := h
  obtain ⟨m, hm, hp, hwindow, hdataset⟩ := hrep.recorded hw
  have hd := hsame _ hdataset
  rw [hd] at hdataset
  have hkey : m.key = j.key := by
    rw [WindowManifest.key, hp, hwindow, hd]
    rfl
  exact ⟨hdataset, hkey ▸ hms m hm⟩

abbrev IsolationInv : DrainState → Prop := NodesInv NamedRows LedgerStored

/-- What it means that an attempt on node `i` knows `k`. -/
structure Vouched (s : DrainState) (i : ℕ) (k : Standing) : Prop where
  owned : k.owned = true → (s.ledgerOf i).dataset k.job.partition = some k.job.dataset
  stored : k.stored = true → s.lake.Stores k.job.key

/-! ### One call -/

theorem dataset_exec (h : IsolationInv s) {i u : ℕ} {o : DrainOp} {fate : Fate} {p : PartitionId} {d : DatasetId}
    (hd : (s.ledgerOf u).dataset p = some d) :
    ((DrainState.exec config i o fate s).2.ledgerOf u).dataset p = some d := by
  rcases ledgerOf_exec i u o fate with heq | ⟨m, -, rfl, heq⟩
  · rw [heq]
    exact hd
  · obtain ⟨ms, hrep, -⟩ := h.ledgerOf ledgerStored_empty u
    rw [heq]
    exact hrep.dataset_recordCommit m hd

/-- No call of another attempt takes away what an attempt knows. -/
theorem Vouched.exec {k : Standing} {i u : ℕ} (h : IsolationInv s) (hk : Vouched s u k) (o : DrainOp) (fate : Fate) :
    Vouched (DrainState.exec config i o fate s).2 u k :=
  ⟨fun howned => dataset_exec h (hk.owned howned), fun hstored => (hk.stored hstored).mono (manifests_exec i o fate)⟩

/-- Nor does a move of the environment that leaves its node up. -/
theorem dataset_move {u : ℕ} {e : DrainEnv} {p : PartitionId} {d : DatasetId}
    (hd : (s.ledgerOf u).dataset p = some d) (hup : (e == .crash u) = false) :
    ((e.move s).ledgerOf u).dataset p = some d := by
  cases e with
  | append i key rows =>
    rw [DrainEnv.move, DrainState.ledgerOf, setTable_ledger]
    exact hd
  | crash i =>
    have hne : u ≠ i := by
      rintro rfl
      simp at hup
    rw [DrainEnv.move, ledgerOf_setLedger, if_neg hne]
    exact hd
  | boot i =>
    simp only [DrainEnv.move]
    split_ifs with hsome
    · exact hd
    · rcases eq_or_ne u i with rfl | hne
      · -- a node that is down has recorded nothing
        rw [Bool.not_eq_true, Option.isSome_eq_false_iff, Option.isNone_iff_eq_none] at hsome
        rw [DrainState.ledgerOf, hsome] at hd
        cases hd
      · rw [ledgerOf_setLedger, if_neg hne]
        exact hd

theorem Vouched.move {k : Standing} {u : ℕ} {e : DrainEnv} (hk : Vouched s u k) (hup : (e == .crash u) = false) :
    Vouched (e.move s) u k := by
  refine ⟨fun howned => dataset_move (hk.owned howned) hup, fun hstored => ?_⟩
  rw [move_lake]
  exact hk.stored hstored

theorem isolationInv_exec {k : Standing} {i : ℕ} {o : DrainOp} (fate : Fate) (h : IsolationInv s)
    (hpre : isolationPre o k) (hk : Vouched s i k) : IsolationInv (DrainState.exec config i o fate s).2 := by
  refine h.exec ?_ ?_
  · rintro m ws rfl
    exact ⟨h.lake.register hpre, fun ledger hl => hl.mono manifests_register⟩
  · rintro m rfl
    obtain ⟨hm, hstored⟩ := hpre
    refine (h.ledgerOf ledgerStored_empty i).recordCommit ?_
    rw [hm.key]
    exact hk.stored hstored

/-- The port's fence is the ledger's. -/
theorem windowNotNext_of_rejection {α : Type} {r : Except AdvanceError α} {p : PartitionId} {expected got : WindowId}
    (h : r.mapError rejection = .error (.windowNotNext p expected got)) :
    r = .error (.windowNotNext p expected got) := by
  rcases r with e | a
  · cases e with
    | windowNotNext p' expected' got' =>
      cases h
      rfl
    | _ => cases h
  · cases h

/-- What the record path teaches. -/
theorem dataset_of_recorded {j : DrainJob} {m : WindowManifest} {i : ℕ} {fate : Fate} (h : IsolationInv s)
    (hm : MadeBy j m) {r : DrainOp.Res (.recordCommit m)}
    (hr : (DrainState.exec config i (.recordCommit m) fate s).1 = r)
    (hlearns : (∃ row, r = .ok row) ∨ ∃ p expected got, r = .error (.windowNotNext p expected got) ∧ got < expected) :
    ((DrainState.exec config i (.recordCommit m) fate s).2.ledgerOf i).dataset j.partition = some j.dataset := by
  obtain ⟨ms, hrep, -⟩ := h.ledgerOf ledgerStored_empty i
  simp only [DrainState.exec] at hr ⊢
  rw [ledgerOf_setLedger, if_pos rfl, ← hm.partition, ← hm.dataset]
  rcases hlearns with ⟨row, rfl⟩ | ⟨p, expected, got, rfl, hlt⟩
  · rcases hrecord : ((s.ledgerOf i).recordCommit m).1 with e | row'
    · rw [hrecord] at hr
      cases hr
    · exact hrep.dataset_of_ok hrecord
  · obtain ⟨rfl, rfl, hsame⟩ := windowNotNext_dataset (windowNotNext_of_rejection hr)
    obtain ⟨m', -, -, -, hdataset⟩ := hrep.recorded hlt
    rw [hsame _ hdataset] at hdataset
    exact hrep.dataset_recordCommit m hdataset

/-- Every answer teaches what is so. -/
theorem vouched_learns {k : Standing} {t : DrainTid} {o : DrainOp} (fate : Fate) (h : IsolationInv s)
    (hop : Isolated t k.job o s) (hpre : isolationPre o k) (hk : Vouched s t.1 k) :
    Vouched (DrainState.exec config t.1 o fate s).2 t.1
      (isolationLearns o k (DrainState.exec config t.1 o fate s).1) := by
  have hstays : Vouched (DrainState.exec config t.1 o fate s).2 t.1 k := hk.exec h o fate
  generalize hr : (DrainState.exec config t.1 o fate s).1 = r
  cases o with
  | nextWindow p =>
    simp only [isolationLearns]
    split_ifs with hlt
    · obtain rfl : p = k.job.partition := hpre
      obtain rfl := hr
      -- below the expected window the attempt is not a foreign one
      have hsame : ∀ d, (s.ledgerOf t.1).dataset k.job.partition = some d → d = k.job.dataset := by
        intro d hd
        by_contra hne
        exact absurd hlt (Nat.not_lt.mpr (hop ⟨d, hd, hne⟩))
      obtain ⟨howned, hstored⟩ := (h.ledgerOf ledgerStored_empty t.1).below hlt hsame
      exact ⟨fun _ => howned, fun _ => hstored⟩
    · exact hstays
  | advanceFor m =>
    rcases r with (⟨p, expected, got⟩ | text) | row
    · simp only [isolationLearns]
      split_ifs with hlt
      · obtain ⟨rfl, rfl, hsame⟩ := windowNotNext_dataset (windowNotNext_of_rejection hr)
        have hm : MadeBy k.job m := hpre
        rw [hm.partition, hm.dataset] at hsame
        rw [hm.partition, hm.window] at hlt
        obtain ⟨howned, hstored⟩ := (h.ledgerOf ledgerStored_empty t.1).below hlt hsame
        exact ⟨fun _ => howned, fun _ => hstored⟩
      · exact hstays
    · exact hstays
    · exact hstays
  | commitFiles m ws =>
    rcases r with e | _ | _ | _
    · exact hstays
    · refine ⟨hstays.owned, fun _ => ?_⟩
      rw [exec_committed hr]
      exact stores_register h.lake hpre
    · exact hstays
    · exact hstays
  | readWatermarks ps sub =>
    rcases r with e | rows
    · exact hstays
    · simp only [isolationLearns]
      split_ifs with hobs
      · obtain rfl := exec_readWatermarks hr
        refine ⟨hstays.owned, fun _ => ?_⟩
        have hstored := hop hobs
        rw [hpre.key] at hstored
        exact hstored
      · exact hstays
  | recordCommit m =>
    rcases r with (⟨p, expected, got⟩ | text) | row
    · simp only [isolationLearns]
      split_ifs with hlt
      · exact ⟨fun _ => dataset_of_recorded h hpre.1 hr (.inr ⟨p, expected, got, rfl, hlt⟩), hstays.stored⟩
      · exact hstays
    · exact hstays
    · exact ⟨fun _ => dataset_of_recorded h hpre.1 hr (.inl ⟨row, rfl⟩), hstays.stored⟩
  | completeThroughMs p => exact hstays
  | sealWindow request => exact hstays
  | scratchGet path => exact hstays
  | putPart part data => exact hstays
  | scratchDelete path => exact hstays
  | recordedCoverage p w => exact hstays
  | dropWindow key covered => exact hstays

/-- A call that does not make the dataset of its attempt the recorded one leaves ledgers and staged rows as they
    are. -/
theorem exec_unowned {k : Standing} {i : ℕ} {o : DrainOp} {fate : Fate} (h : IsolationInv s) (hpre : isolationPre o k)
    (hk : k.owned = false)
    (hafter : ((DrainState.exec config i o fate s).2.ledgerOf i).dataset k.job.partition ≠ some k.job.dataset) (u : ℕ) :
    (DrainState.exec config i o fate s).2.ledgerOf u = s.ledgerOf u ∧
      ((DrainState.exec config i o fate s).2.nodes u).staging = (s.nodes u).staging := by
  rcases exec_cases config i o fate s with hsame | ⟨m, ws, -, heq⟩ | ⟨m, rfl, heq⟩ | ⟨key, covered, rfl, heq⟩
  · exact ⟨by rw [DrainState.ledgerOf, hsame.ledger]; rfl, hsame.staging u⟩
  · rw [heq]
    exact ⟨rfl, rfl⟩
  · obtain ⟨hm, -⟩ := hpre
    obtain ⟨ms, hrep, -⟩ := h.ledgerOf ledgerStored_empty i
    rcases hrecord : ((s.ledgerOf i).recordCommit m).1 with e | row
    · have hrejected : ((s.ledgerOf i).recordCommit m).2 = s.ledgerOf i := by
        rcases recordCommit_cases hrep m with ⟨next, -, hok, -⟩ | ⟨e', herr⟩
        · rw [hok] at hrecord
          cases hrecord
        · rw [herr]
      rw [heq, ledgerOf_setLedger, hrejected]
      refine ⟨by split_ifs with hu <;> simp [hu], ?_⟩
      rw [DrainState.setLedger, setNode_nodes]
      split_ifs with hu
      · rw [hu]
      · rfl
    · refine absurd (dataset_of_recorded h hm rfl (.inl ⟨row, ?_⟩)) hafter
      simp only [DrainState.exec, hrecord]
      rfl
  · exact absurd hpre.2 (by simp [hk])

end State

/-! ### Whole runs -/

section Runs

variable {config : DuckLakeConfig} {es fs : List DrainEvent}

/-- What an attempt knows of the state, and what its answer says of the lake. -/
def isolationOutline (config : DuckLakeConfig) : Outline (drainers config) { shared := {} } Standing where
  ok := CallOk Isolated
  inv h := IsolationInv (drained config h).shared
  knows h t _ j k := k.job = j ∧ Vouched (drained config h).shared t.1 k
  proto := isolationProtocol
  post _ := Answered
  done h _ j a := a = .ok .alreadyCommitted → (drained config h).shared.lake.Stores j.key

theorem isolationLearns_job (o : DrainOp) (k : Standing) (r : o.Res) : (isolationLearns o k r).job = k.job := by
  simp only [isolationLearns]
  split
  all_goals first | rfl | (split_ifs <;> rfl)

theorem isolationOutline_sound : (isolationOutline config).Sound where
  init := .init namedRows_empty
  start := by
    intro h t j _ _ _ _
    refine ⟨{ job := j }, ⟨rfl, (fun howned => by cases howned), (fun hstored => by cases hstored)⟩, ?_⟩
    refine wp_mono (fun a k ha => ?_) (knowing_drainWindow j)
    rcases a with e | outcome
    · trivial
    · exact ha
  exec := by
    intro h t c n j o next k hinv hok hrun hk hpre
    obtain ⟨rfl, hk⟩ := hk
    have hop : Isolated t k.job o (drained config h).shared := by
      simp only [isolationOutline, CallOk, hrun] at hok
      exact hok
    simp only [isolationOutline, shared_drained_act hrun]
    exact ⟨isolationInv_exec c hinv hpre hk, _, ⟨isolationLearns_job .., vouched_learns c hinv hop hpre hk⟩, rfl⟩
  idle := by
    intro h e hinv heq
    change IsolationInv (drained config (h ++ [e])).shared
    rw [drained_concat]
    exact heq.symm ▸ hinv
  env := by
    intro h e hinv _
    change IsolationInv (drained config (h ++ [.env e])).shared
    rw [drained_concat]
    exact hinv.move e fun ledger hboot => ledgerStored_boot hinv.lake hboot
  stable := by
    intro h e t r k hinv _ _ hspares hk
    refine ⟨hk.1, ?_⟩
    rw [drained_concat]
    rcases shared_step (drainers config) (drained config h) e with heq | ⟨u, c, n, j, o, next, -, -, heq⟩ |
      ⟨v, rfl, heq⟩
    · rw [heq]
      exact hk.2
    · rw [heq]
      exact hk.2.exec hinv o c
    · rw [heq]
      exact hk.2.move hspares
  ret := by
    intro h t c n j a k _ hk hpost
    rintro rfl
    obtain ⟨rfl, hk⟩ := hk
    exact (hk.stored hpost.2).mono (manifests_step config h _)
  done_stable := fun h e n j a _ hdone ha => (hdone ha).mono (manifests_step config h e)

theorem isolationOutline_valid (h : IsolatedRun config es) : (isolationOutline config).Valid es :=
  isolationOutline_sound.valid_run (fun _ => rfl) rfl es h

theorem IsolatedRun.before (h : IsolatedRun config es) (hpre : fs <+: es) : IsolatedRun config fs := by
  obtain ⟨gs, rfl⟩ := hpre
  exact (admissible_append.mp h).1

theorem numbered_drained (config : DuckLakeConfig) (es : List DrainEvent) : Numbered (drained config es) :=
  numbered_run (fun _ _ hr => by cases hr) es

/-- An attempt runs on one thread, for one job. -/
theorem attempt_unique {hs : List DrainEvent} {t u : DrainTid} {r r' : Running DrainJob DrainOp DrainOp.Res _}
    (hes : es <+: hs) (hfs : fs <+: hs) (hr : (drained config es).running t = some r)
    (hr' : (drained config fs).running u = some r') (hid : r.id = r'.id) : t = u ∧ r.job = r'.job := by
  have hstarted : ∀ {es es' : List DrainEvent}, es <+: es' →
      (drained config es).started <+: (drained config es').started := by
    rintro es _ ⟨gs, rfl⟩
    rw [drained_append]
    exact started_run _ gs
  rcases List.prefix_or_prefix_of_prefix hes hfs with hle | hle
  · exact thread_unique (numbered_drained config es) (numbered_drained config fs) (hstarted hle) hr hr' hid
  · obtain ⟨rfl, hjob⟩ := thread_unique (numbered_drained config fs) (numbered_drained config es) (hstarted hle) hr' hr
      hid.symm
    exact ⟨rfl, hjob.symm⟩

/-- What a ledger has recorded for a partition stays while an attempt runs on its node. -/
theorem dataset_while_running {t u : DrainTid} {r r' : Running DrainJob DrainOp DrainOp.Res _} {p : PartitionId}
    {d : DatasetId} (h : IsolatedRun config (es ++ fs)) (hr : (drained config es).running t = some r)
    (hr' : (drained config (es ++ fs)).running u = some r') (hid : r.id = r'.id)
    (hd : ((drained config es).shared.ledgerOf t.1).dataset p = some d) :
    ((drained config (es ++ fs)).shared.ledgerOf u.1).dataset p = some d := by
  obtain ⟨rfl, -⟩ := attempt_unique (List.prefix_append es fs) (List.prefix_refl _) hr hr' hid
  have hn : r'.id < (drained config es).started.length := by
    rw [← hid]
    exact (List.getElem?_eq_some_iff.mp (numbered_drained config es t r hr)).1
  rw [drained_append] at hr' ⊢
  refine stays_while_running (P := fun s => (s.ledgerOf t.1).dataset p = some d) fs ?_ hd r' hr' hn
  intro fs' e hpre hup hstands
  have hinv : IsolationInv (drained config (es ++ fs')).shared := (isolationOutline_valid (h.before
    ((List.prefix_append_right_inj es).mpr ((List.prefix_append _ _).trans hpre)))).inv
  rw [drained_append] at hinv
  rw [run_concat]
  rcases shared_step (drainers config) ((drainers config).run (drained config es) fs') e with heq |
    ⟨v, c, n, j, o, next, -, -, heq⟩ | ⟨v, rfl, heq⟩
  · rw [heq]
    exact hstands
  · rw [heq]
    exact dataset_exec hinv hstands
  · rw [heq]
    exact dataset_move hstands (hup v rfl)

/-- At any two points where an attempt runs its node has the same dataset recorded, if any at both. -/
theorem dataset_agrees {hs : List DrainEvent} {t u : DrainTid} {r r' : Running DrainJob DrainOp DrainOp.Res _}
    {p : PartitionId} {d d' : DatasetId} (h : IsolatedRun config hs) (hes : es <+: hs) (hfs : fs <+: hs)
    (hr : (drained config es).running t = some r) (hr' : (drained config fs).running u = some r')
    (hid : r.id = r'.id) (hd : ((drained config es).shared.ledgerOf t.1).dataset p = some d)
    (hd' : ((drained config fs).shared.ledgerOf u.1).dataset p = some d') : d = d' := by
  rcases List.prefix_or_prefix_of_prefix hes hfs with ⟨gs, rfl⟩ | ⟨gs, rfl⟩
  · have hstays := dataset_while_running (h.before hfs) hr hr' hid hd
    exact Option.some.inj (hstays.symm.trans hd')
  · have hstays := dataset_while_running (h.before hes) hr' hr hid.symm hd'
    exact Option.some.inj (hd.symm.trans hstays)

/-- A step of an attempt whose dataset is not the recorded one leaves ledgers and staged rows as they are. -/
theorem foreign_step {hs : List DrainEvent} {t u : DrainTid} {c : Fate} {r r' : Running DrainJob DrainOp DrainOp.Res _}
    {d : DatasetId} (h : IsolatedRun config hs) (hes : es <+: hs) (hfs : fs ++ [.act u c] <+: hs)
    (hr : (drained config es).running t = some r) (hr' : (drained config fs).running u = some r')
    (hid : r.id = r'.id) (hd : ((drained config es).shared.ledgerOf t.1).dataset r'.job.partition = some d)
    (hne : d ≠ r'.job.dataset) (i : ℕ) :
    (drained config (fs ++ [.act u c])).shared.ledgerOf i = (drained config fs).shared.ledgerOf i ∧
    ((drained config (fs ++ [.act u c])).shared.nodes i).staging = ((drained config fs).shared.nodes i).staging := by
  have hbefore : fs <+: hs := (List.prefix_append _ _).trans hfs
  have hvalid := isolationOutline_valid (h.before hbefore)
  obtain ⟨k, ⟨hjob, hk⟩, hw⟩ := hvalid.threads u r' hr'
  obtain ⟨n, j, prog⟩ := r'
  obtain rfl : k.job = j := hjob
  cases prog with
  | ret a =>
    have hshared : (drained config (fs ++ [.act u c])).shared = (drained config fs).shared := by
      rw [drained_concat]
      simp only [step, hr']
    rw [hshared]
    exact ⟨rfl, rfl⟩
  | call o next =>
    have hunowned : k.owned = false := by
      by_contra howned
      exact hne (dataset_agrees h hes hbefore hr hr' hid hd (hk.owned (Bool.not_eq_false _ ▸ howned)))
    have hshared := shared_drained_act (c := c) hr'
    -- the attempt still runs after the call, and what is recorded then is what is recorded at the other point
    have hrunning : (drained config (fs ++ [.act u c])).running u = some
        ⟨n, k.job, next (DrainState.exec config u.1 o c (drained config fs).shared).1⟩ := by
      rw [drained_concat]
      simp only [step, hr']
      exact Function.update_self ..
    have hafter := fun hown => hne (dataset_agrees h hes hfs hr hrunning hid hd hown)
    rw [hshared] at hafter ⊢
    exact exec_unowned hvalid.inv hw.1 hunowned hafter i

end Runs

/-- In every run that meets the condition, an attempt for another dataset than its node has recorded for the
    partition answers neither `Committed` nor `AlreadyCommitted`, and none of its steps removes a staged row or changes
    a ledger; and `AlreadyCommitted` is answered only for a window the lake stores. -/
theorem foreign_attempts_fail_closed (config : DuckLakeConfig) (es fs : List DrainEvent)
    (h : IsolatedRun config (es ++ fs)) :
    (∀ t n j prog, (drained config es).running t = some ⟨n, j, prog⟩ → Foreign (drained config es).shared t.1 j →
      (∀ a, (n, j, a) ∈ (drained config (es ++ fs)).returned →
        a ≠ .ok .alreadyCommitted ∧ ∀ watermark, a ≠ .ok (.committed watermark)) ∧
      ∀ x ∈ stepsOf (drainers config) n { shared := {} } (es ++ fs), ∀ i,
        x.2.ledgerOf i = x.1.ledgerOf i ∧ (x.2.nodes i).staging = (x.1.nodes i).staging) ∧
    ∀ n j, (n, j, .ok .alreadyCommitted) ∈ (drained config (es ++ fs)).returned →
      (drained config (es ++ fs)).shared.lake.Stores j.key := by
  refine ⟨fun t n j prog hrun ⟨d, hd, hne⟩ => ⟨fun a ha => ?_, fun x hx i => ?_⟩, fun n j hj => ?_⟩
  · obtain ⟨es', u, c, hpre, hrun'⟩ := (mem_returned (es ++ fs) ha).resolve_left (fun hnil => by cases hnil)
    have hbefore : es' <+: es ++ fs := (List.prefix_append _ _).trans hpre
    obtain ⟨k, ⟨hjob, hk⟩, hanswer⟩ := (isolationOutline_valid (h.before hbefore)).threads u _ hrun'
    have hunowned : ¬ k.owned = true := by
      intro howned
      have howned := hk.owned howned
      rw [hjob] at howned
      exact hne (dataset_agrees h (List.prefix_append es fs) hbefore hrun hrun' rfl hd howned)
    refine ⟨?_, fun watermark => ?_⟩
    · rintro rfl
      exact hunowned hanswer.1
    · rintro rfl
      exact hunowned hanswer
  · obtain ⟨es', u, c, r, hpre, hrun', hid, rfl⟩ := mem_stepsOf (es ++ fs) hx
    have hbefore : es' <+: es ++ fs := (List.prefix_append _ _).trans hpre
    obtain ⟨-, hjob⟩ := attempt_unique hbefore (List.prefix_append es fs) hrun' hrun hid
    subst hid hjob
    exact foreign_step h (List.prefix_append es fs) hpre hrun hrun' rfl hd hne i
  · exact (isolationOutline_valid h).results _ hj rfl

/-! ### Two datasets of one tenant -/

def tracesJob (window : WindowId) : DrainJob := { sampleJob window with dataset := ⟨"traces"⟩ }

/-- Window 0 of the logs is drained and recorded; then an attempt for a window of the traces starts in the same
    partition. -/
def twoDatasets (window : WindowId) : List DrainEvent :=
  [.env (.append 0 (sampleKey 0) [sampleRow 1]), .env (.append 0 (tracesJob window).key [sampleRow 2]),
    .env (.boot 0), .start (0, 0) (sampleJob 0)] ++ served (0, 0) 11 ++ [.start (0, 0) (tracesJob window)]

/-- Window 0 of the traces is answered `AlreadyCommitted`, and the lake stores nothing of it. -/
theorem foreign_window_completes :
    (((drained drainConfig (twoDatasets 0)).running (0, 0)).map fun r => (r.id, r.job)) = some (1, tracesJob 0) ∧
    Foreign (drained drainConfig (twoDatasets 0)).shared 0 (tracesJob 0) ∧
    (1, tracesJob 0, .ok .alreadyCommitted) ∈ (drained drainConfig (twoDatasets 0 ++ served (0, 0) 4)).returned ∧
    ¬ (drained drainConfig (twoDatasets 0 ++ served (0, 0) 4)).shared.lake.Stores (tracesJob 0).key := by
  decide +kernel

/-- Window 1 of the traces is the one the ledger expects: the attempt seals it and is refused by the preview. -/
theorem foreign_attempts_fail_closed_next :
    (drained drainConfig (twoDatasets 1 ++ served (0, 0) 5)).returned.length = 2 ∧
    ∀ a, (1, tracesJob 1, a) ∈ (drained drainConfig (twoDatasets 1 ++ served (0, 0) 5)).returned →
      a ≠ .ok .alreadyCommitted ∧ ∀ watermark, a ≠ .ok (.committed watermark) := by
  have hrun : (((drained drainConfig (twoDatasets 1)).running (0, 0)).map fun r => (r.id, r.job)) =
      some (1, tracesJob 1) := by decide +kernel
  obtain ⟨⟨n, j, prog⟩, hr, heq⟩ := Option.map_eq_some_iff.mp hrun
  obtain ⟨rfl, rfl⟩ := Prod.mk.inj heq
  refine ⟨by decide +kernel, ?_⟩
  exact ((foreign_attempts_fail_closed drainConfig (twoDatasets 1) (served (0, 0) 5) (by decide +kernel)).1 (0, 0) _ _
    prog hr (by decide +kernel)).1

end Duckspout
