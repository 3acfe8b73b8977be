import Duckspout.Drain.Agreement
import Duckspout.Drain.Isolation
import Duckspout.Lake.Published

/-! One drainer, and what its answers say (`reconcile` and the paths to it in `duckspout-drain/src/coordinator.rs`). An
    attempt decides by three uncertain answers whether its commit stands: the outcome of the commit, the watermark it
    reads back, and the ledger. With one attempt at a time it decides right as long as the lake holds nothing else under
    its window. -/

namespace Duckspout

open Snapshot Threads Protocol

/-! ### The condition -/

abbrev DrainPool := Pool DrainTid DrainJob DrainState DrainOp DrainOp.Res (Except DrainError DrainOutcome)

/-- What the lake holds under the partition and the window of the attempt is of its dataset. -/
def DrainJob.Owns (j : DrainJob) (l : Lake) : Prop :=
  ∀ r ∈ values l.manifests, r.partition = j.partition → r.windowId = toI64 j.window → r.dataset = j.dataset

/-- Where the lake holds a manifest of the window, the staged rows have its coverage and its latest event time. -/
def SealsStored (request : SealRequest) (table : Option (List StagedRow)) (l : Lake) : Prop :=
  ∀ rows ∈ table, ∀ r ∈ values l.manifests, r.partition = request.partition → r.windowId = toI64 request.window →
    r.coverage = coverageRuns rows ∧ r.eventTimeMaxMs = (eventTimeBounds request.eventTimeColumn rows).2

/-- The condition on a call and how it goes, in the state before it: a window the lake holds is sealed only with what is
    held, and a drop that fails has dropped nothing. -/
def Undisturbed (i : ℕ) (fate : Fate) : DrainOp → DrainState → Prop
  | .sealWindow request, s => SealsStored request ((s.nodes i).staging request.key) s.lake
  | .dropWindow _ _, _ => fate.fails.isSome → fate.lands = false
  | _, _ => True

/-- One attempt at a time, on a window the lake can store and holds for no other dataset. -/
def OneDrainer (p : DrainPool) : DrainEvent → Prop
  | .start _ j => Quiet p ∧ j.window ≤ i64Max ∧ j.Owns p.shared.lake
  | .act t fate => match p.running t with
    | some ⟨_, _, .call o _⟩ => Undisturbed t.1 fate o p.shared
    | _ => True
  | .env _ => True

instance (j : DrainJob) (l : Lake) : Decidable (j.Owns l) :=
  inferInstanceAs (Decidable (∀ r ∈ values l.manifests, r.partition = j.partition → r.windowId = toI64 j.window →
    r.dataset = j.dataset))

instance (request : SealRequest) (table : Option (List StagedRow)) (l : Lake) : Decidable (SealsStored request table l) :=
  inferInstanceAs (Decidable (∀ rows ∈ table, ∀ r ∈ values l.manifests, r.partition = request.partition →
    r.windowId = toI64 request.window →
    r.coverage = coverageRuns rows ∧ r.eventTimeMaxMs = (eventTimeBounds request.eventTimeColumn rows).2))

instance (i : ℕ) (fate : Fate) : (o : DrainOp) → (s : DrainState) → Decidable (Undisturbed i fate o s)
  | .sealWindow request, s => inferInstanceAs (Decidable (SealsStored request ((s.nodes i).staging request.key) s.lake))
  | .dropWindow _ _, _ => inferInstanceAs (Decidable (fate.fails.isSome → fate.lands = false))
  | .nextWindow _, _ | .completeThroughMs _, _ | .advanceFor _, _ | .scratchGet _, _ | .putPart _ _, _
  | .commitFiles _ _, _ | .readWatermarks _ _, _ | .recordCommit _, _ | .scratchDelete _, _
  | .recordedCoverage _ _, _ => isTrue trivial

instance (p : DrainPool) : (e : DrainEvent) → Decidable (OneDrainer p e)
  | .start _ j => inferInstanceAs (Decidable (Quiet p ∧ j.window ≤ i64Max ∧ j.Owns p.shared.lake))
  | .env _ => isTrue trivial
  | .act t fate =>
    match h : p.running t with
    | some ⟨_, _, .call o _⟩ => decidable_of_iff (Undisturbed t.1 fate o p.shared) (by simp only [OneDrainer, h])
    | some ⟨_, _, .ret _⟩ => isTrue (by simp only [OneDrainer, h])
    | none => isTrue (by simp only [OneDrainer, h])

/-- A run of one drainer in which every event meets the condition. -/
abbrev ReconcileRun (config : DuckLakeConfig) (es : List DrainEvent) : Prop :=
  (drainers config).Admissible OneDrainer { shared := {} } es

/-! ### The published watermark -/

/-- The watermark of every partition's record is published. -/
def Lake.UpToDate (l : Lake) : Prop :=
  ∀ p t, watermarkOf (l.windows p) = some t → ∃ r ∈ values l.watermarks, r.partition = p ∧ t ≤ r.completeThroughMs

section Lake

variable {config : DuckLakeConfig} {l : Lake} {sub : Submission} {j : DrainJob}

theorem upToDate_empty : Lake.UpToDate {} := by
  intro p t ht
  cases ht

/-- A batch that lands publishes the watermark of the record it continues. -/
theorem Lake.UpToDate.register (h : l.UpToDate) (hl : LakeDense l) (hsub : Previewed l sub)
    (hw : sub.manifest.windowId ≤ i64Max) (hsame : SameContent sub.manifest l) :
    (l.register config sub.manifest sub.previewed.toList).UpToDate := by
  have hle := hsub.le
  obtain ⟨hparts, hdense, hpreview, -⟩ := hsub
  intro p t ht
  rcases missing_of_parts hparts l with ⟨-, hnone⟩ | ⟨hmiss, hone⟩
  · have heq : l.register config sub.manifest sub.previewed.toList = l.withFence sub.manifest.partition := by
      rw [Lake.register, missing_withFence, if_pos ⟨hnone, by simp [hparts]⟩]
    rw [heq, windows_withFence] at ht
    rw [heq, withFence_watermarks]
    exact h p t ht
  · rcases eq_or_ne sub.manifest.partition p with rfl | hp
    · have hlen := length_of_missing hl hparts hsame hw hle hmiss
      rw [← hlen, List.take_length] at hpreview
      rw [windows_register_own hone, watermarkOf_core (core_concat ⟨rfl, hw⟩)] at ht
      rw [ht, Option.map_some] at hpreview
      refine ⟨⟨sub.manifest.partition, t⟩, ?_, rfl, le_rfl⟩
      rcases register_cases config sub.manifest sub.previewed.toList l with hreg | ⟨hnone, -⟩
      · refine hreg.watermarks [] _ [] ?_ (fun r hr => by cases hr)
        rw [hpreview]
        rfl
      · rw [hone] at hnone
        cases hnone
    · rw [windows_register_other hone hp] at ht
      obtain ⟨r, hr, rfl, hrow⟩ := h p t ht
      refine ⟨r, mem_watermarks_register_of_ne hr fun row hrow => ?_, rfl, hrow⟩
      rw [Option.mem_toList, hpreview, Option.map_eq_some_iff] at hrow
      obtain ⟨_, -, rfl⟩ := hrow
      exact hp

/-- The read-back is complete: it shows the advance of a submission whose window is stored. -/
theorem Previewed.observed_of_stands (h : Previewed l sub) (hl : LakeDense l) (hup : l.UpToDate)
    (hstands : Stands l sub.manifest) (hstrict : sub.strictAdvance.isSome) :
    sub.observed (readWatermarks l [sub.manifest.partition]) = true := by
  obtain ⟨advanced, hadvanced⟩ := Option.isSome_iff_exists.mp hstrict
  have hpreview : watermarkOf ((l.windows sub.manifest.partition).take sub.manifest.windowId ++ [sub.manifest]) =
      some advanced := by
    rw [Submission.strictAdvance, Option.filter_eq_some_iff, h.previewed, Option.map_map] at hadvanced
    simpa [Function.comp_def] using hadvanced.1
  -- the stored window takes the place of the batch in the record
  have hcore : ((l.windows sub.manifest.partition).take (sub.manifest.windowId + 1)).map WindowManifest.core =
      ((l.windows sub.manifest.partition).take sub.manifest.windowId ++ [sub.manifest]).map WindowManifest.core := by
    obtain ⟨d, hd, hdcore⟩ := Option.map_eq_some_iff.mp hstands
    rw [List.take_add_one, hd, List.map_append, List.map_append]
    simp [hdcore]
  rw [← watermarkOf_core hcore] at hpreview
  obtain ⟨t, ht, hle⟩ := watermarkOf_mono (hl.dense _) (List.take_prefix _ _) hpreview
  obtain ⟨r, hr, hp, hrt⟩ := hup _ t ht
  obtain ⟨v, hv, hpublished⟩ := le_published hr
  rw [hp] at hpublished
  have hread := (readWatermarks_singleton l sub.manifest.partition v).mpr hpublished
  have hback : advanced ≤ v := hle.trans (hrt.trans hv)
  simp [Submission.observed, hadvanced, hread, readBack, hback]

/-- The lake stores the window of an attempt where the record of its partition reaches it. -/
theorem stores_iff_lt (hl : LakeDense l) (hw : j.window ≤ i64Max) (howns : j.Owns l) :
    l.Stores j.key ↔ j.window < (l.windows j.partition).length := by
  constructor
  · rintro ⟨r, hr, -, hp, hwindow⟩
    have hget := hl.getElem?_of_row hr (hwindow.trans (toI64_of_le hw))
    rw [show r.partition = j.partition from hp] at hget
    exact (List.getElem?_eq_some_iff.mp hget).1
  · intro hlt
    obtain ⟨r, hr, hp, hwindow, -⟩ := hl.row_of_lt hlt
    have hwindow' : r.windowId = toI64 j.window := hwindow.trans (toI64_of_le hw).symm
    exact ⟨r, hr, howns r hr hp hwindow', hp, hwindow'⟩

end Lake

/-! ### The course of an attempt -/

/-- What an attempt has sealed and found, and what it has done: the lake stores its window, or does not; it has recorded
    a manifest, or dropped rows. -/
structure Course where
  job : DrainJob
  batch : Option WindowManifest := none
  stored : Bool := false
  absent : Bool := false
  recorded : Bool := false
  dropped : Bool := false

/-- What each call asks for: only the sealed batch is submitted, read back and recorded, and recorded only once it is
    known to be stored. -/
def coursePre : DrainOp → Course → Prop
  | .nextWindow p, k => p = k.job.partition
  | .sealWindow request, k => request.key = k.job.key
  | .advanceFor m, k => k.batch = some m
  | .commitFiles m _, k => k.batch = some m ∧ k.absent = false
  | .readWatermarks _ sub, k => k.batch = some sub.manifest
  | .recordCommit m, k => k.batch = some m ∧ k.stored = true
  | _, _ => True

/-- What each answer teaches. -/
def courseLearns : (o : DrainOp) → Course → o.Res → Course
  | .nextWindow _, k, expected => if k.job.window < expected then { k with stored := true } else k
  | .sealWindow _, k, .ok sealed =>
    { k with batch := some (sealedManifest k.job.dataset k.job.partition k.job.window sealed) }
  | .advanceFor _, k, .error (.windowNotNext _ expected got) => if got < expected then { k with stored := true } else k
  | .commitFiles _ _, k, .ok .committed => { k with stored := true }
  | .readWatermarks _ sub, k, .ok rows =>
    if sub.observed rows then { k with stored := true }
    else if sub.strictAdvance.isSome then { k with absent := true }
    else k
  | .recordCommit _, k, _ => { k with recorded := true }
  | .dropWindow _ _, k, .ok _ => { k with dropped := true }
  | _, k, _ => k

def courseProtocol : Protocol DrainOp DrainOp.Res Course where
  pre := coursePre
  next o k r k' := k' = courseLearns o k r

/-- What an answer says: a commit that stands is stored, one that is rejected or lost is not, a requeue has recorded and
    dropped nothing, a failure has dropped nothing. -/
def Concluded (a : Except DrainError DrainOutcome) (k : Course) : Prop :=
  match a with
  | .ok (.committed _) | .ok .alreadyCommitted => k.stored = true
  | .ok (.requeue reason) => k.recorded = false ∧ k.dropped = false ∧
    (reason = .rejectedByBackend ∨ reason = .commitLost → k.absent = true)
  | .error _ => k.dropped = false

section Attempt

variable {α : Type} {k : Course}

/-- The program asks only for what is known, and returns in `Q`; a failure has dropped nothing. -/
abbrev Follow (x : DrainM α) (Q : α → Course → Prop) (k : Course) : Prop :=
  courseProtocol.Ewp x Q (fun _ k => k.dropped = false) k

theorem follow_call {o : DrainOp} {Q : o.Res → Course → Prop} (hpre : coursePre o k) (h : ∀ r, Q r (courseLearns o k r)) :
    Follow (call o) Q k :=
  ewp_call hpre (fun _ _ hk => hk) h

theorem follow_discardScratch {path : String} {Q : PUnit → Course → Prop} (h : Q ⟨⟩ k) :
    Follow (discardScratch path) Q k :=
  ewp_bind (follow_call trivial fun _ => ewp_pure h)

theorem follow_dropCovered {key : WindowKey} {covered : List OriginSeqRange} {Q : PUnit → Course → Prop}
    (hdropped : k.dropped = false) (h : Q ⟨⟩ { k with dropped := true }) : Follow (dropCovered key covered) Q k := by
  refine ewp_bind (follow_call trivial fun answer => ewp_bind (ewp_orFail (fun outcome houtcome => ?_) ?_))
  · subst houtcome
    exact ewp_pure h
  · rintro e rfl
    exact hdropped

theorem follow_finishAlreadyCommitted {dataset : DatasetId} {partition : PartitionId} {window : WindowId}
    {scratch : Option String} (hstored : k.stored = true) (hdropped : k.dropped = false) :
    Follow (finishAlreadyCommitted dataset partition window scratch) (fun a => Concluded (.ok a)) k := by
  have hfinish : Follow (do
      let covered ← call (.recordedCoverage partition window)
      dropCovered ⟨dataset, partition, window⟩ (covered.getD [])
      return DrainOutcome.alreadyCommitted) (fun a => Concluded (.ok a)) k := by
    refine ewp_bind (follow_call trivial fun covered => ewp_bind (follow_dropCovered hdropped ?_))
    exact ewp_pure hstored
  cases scratch with
  | none => exact hfinish
  | some path => exact ewp_bind (follow_discardScratch hfinish)

theorem follow_recordOnce {m : WindowManifest} {Q : Option WatermarkRow → Course → Prop} (hbatch : k.batch = some m)
    (hstored : k.stored = true) (hdropped : k.dropped = false) (hQ : ∀ row, Q row { k with recorded := true }) :
    Follow (recordOnce m) Q k := by
  refine ewp_bind (follow_call ⟨hbatch, hstored⟩ fun recorded => ?_)
  rcases recorded with (⟨p, expected, got⟩ | text) | row
  · rcases Nat.lt_or_ge got expected with hlt | hge
    · simp only [if_pos hlt]
      exact ewp_bind (follow_call trivial fun ms => ewp_pure (hQ _))
    · simp only [if_neg (Nat.not_lt.mpr hge)]
      exact ewp_throw hdropped
  · exact ewp_throw hdropped
  · exact ewp_pure (hQ row)

theorem follow_finishCommitted {m : WindowManifest} {path : String} {Q : Option WatermarkRow → Course → Prop}
    (hbatch : k.batch = some m) (hstored : k.stored = true) (hdropped : k.dropped = false)
    (hQ : ∀ row, Q row { k with recorded := true, dropped := true }) : Follow (finishCommitted m path) Q k := by
  refine ewp_bind (follow_recordOnce hbatch hstored hdropped fun row => ?_)
  refine ewp_bind (follow_discardScratch (ewp_bind (follow_dropCovered hdropped ?_)))
  exact ewp_pure (hQ row)

theorem follow_reconcile {unsettled : Unsettled} {sub : Submission} {path : String}
    (hbatch : k.batch = some sub.manifest) (hrecorded : k.recorded = false) (hdropped : k.dropped = false) :
    Follow (reconcile unsettled sub path) (fun a => Concluded (.ok a)) k := by
  refine ewp_bind (follow_call hbatch fun answer => ?_)
  rcases answer with e | rows
  · refine ewp_bind (follow_discardScratch (ewp_pure ⟨hrecorded, hdropped, fun hreason => ?_⟩))
    rcases hreason with hreason | hreason <;> cases hreason
  · rcases hobs : sub.observed rows with _ | _
    · simp only [courseLearns, hobs, Bool.false_eq_true, if_false]
      split_ifs
      · exact ewp_bind (follow_discardScratch (ewp_pure ⟨hrecorded, hdropped, fun _ => rfl⟩))
      · refine ewp_bind (follow_discardScratch (ewp_pure ⟨hrecorded, hdropped, fun hreason => ?_⟩))
        rcases hreason with hreason | hreason <;> cases hreason
    · simp only [courseLearns, hobs, if_true]
      cases unsettled with
      | aborted => exact ewp_bind (follow_finishCommitted hbatch rfl hdropped fun _ => ewp_pure rfl)
      | indeterminate => exact ewp_bind (follow_finishCommitted hbatch rfl hdropped fun _ => ewp_pure rfl)

theorem follow_submit {m : WindowManifest} {path : String} {previewed : Option WatermarkRow} {prior : Option ℤ}
    (hbatch : k.batch = some m) (habsent : k.absent = false) (hrecorded : k.recorded = false)
    (hdropped : k.dropped = false) : Follow (submit m path previewed prior) (fun a => Concluded (.ok a)) k := by
  refine ewp_bind (follow_call trivial fun file => ewp_bind (ewp_orFail (fun data _ => ?_) fun _ _ => hdropped))
  refine ewp_bind (follow_call trivial fun put => ewp_bind (ewp_orFail (fun _ _ => ?_) fun _ _ => hdropped))
  refine ewp_bind (follow_call ⟨hbatch, habsent⟩ fun answer => ewp_bind (ewp_orFail (fun outcome ho => ?_) ?_))
  · subst ho
    cases outcome with
    | committed => exact ewp_bind (follow_finishCommitted hbatch rfl hdropped fun _ => ewp_pure rfl)
    | aborted => exact follow_reconcile hbatch hrecorded hdropped
    | indeterminate => exact follow_reconcile hbatch hrecorded hdropped
  · rintro e rfl
    exact hdropped

/-- An attempt keeps to the protocol, and knows what its answer says. -/
theorem follow_drainWindow (j : DrainJob) :
    Follow (drainWindow j.dataset j.partition j.window j.plan) (fun a => Concluded (.ok a)) { job := j } := by
  refine ewp_bind (follow_call rfl fun expected => ?_)
  rcases Nat.lt_trichotomy j.window expected with hlt | rfl | hgt
  · simp only [courseLearns, if_pos hlt]
    exact follow_finishAlreadyCommitted rfl rfl
  · simp only [courseLearns, gt_iff_lt, Nat.lt_irrefl, if_false]
    refine ewp_bind (follow_call trivial fun prior => ?_)
    refine ewp_bind (follow_call rfl fun answer => ewp_bind (ewp_orFail (fun sealed hsealed => ?_) ?_))
    · subst hsealed
      refine ewp_bind (follow_call rfl fun preview => ?_)
      rcases preview with (⟨p, expected, got⟩ | text) | previewed
      · rcases Nat.lt_or_ge got expected with hlt | hge
        · simp only [courseLearns, if_pos hlt]
          exact follow_finishAlreadyCommitted rfl rfl
        · simp only [if_neg (Nat.not_lt.mpr hge)]
          refine ewp_throw ?_
          simp only [courseLearns, if_neg (Nat.not_lt.mpr hge)]
      · exact ewp_throw rfl
      · exact follow_submit rfl rfl rfl rfl
    · rintro e rfl
      rfl
  · simp only [if_neg (Nat.not_lt.mpr hgt.le), gt_iff_lt, if_pos hgt]
    refine ewp_throw ?_
    simp only [courseLearns, if_neg (Nat.not_lt.mpr hgt.le)]

end Attempt

/-! ### The content of a batch -/

/-- What an attempt has sealed is what the lake holds for the window, if it holds any. -/
structure Contained (s : DrainState) (k : Course) : Prop where
  window : k.job.window ≤ i64Max
  owns : k.job.Owns s.lake
  batch : ∀ m ∈ k.batch, MadeBy k.job m ∧ SameContent m s.lake

section Content

variable {config : DuckLakeConfig} {l : Lake} {s s' : DrainState} {k : Course} {j : DrainJob} {m : WindowManifest}
  {ws : List WatermarkRow}

theorem DrainJob.Owns.register (h : j.Owns l) (hm : MadeBy j m) : j.Owns (l.register config m ws) := by
  intro r hr hp hw
  rcases mem_manifests_register hr with hold | ⟨part, -, rfl⟩
  · exact h r hold hp hw
  · exact hm.dataset

theorem SameContent.register (h : SameContent m l) : SameContent m (l.register config m ws) := by
  intro r hr hp hw
  rcases mem_manifests_register hr with hold | ⟨part, -, rfl⟩
  · exact h r hold hp hw
  · exact ⟨rfl, rfl, rfl⟩

theorem Contained.of_lake (h : Contained s k) (hl : s'.lake = s.lake) : Contained s' k := by
  refine ⟨h.window, ?_, fun m hm => ⟨(h.batch m hm).1, ?_⟩⟩
  · rw [hl]
    exact h.owns
  · rw [hl]
    exact (h.batch m hm).2

theorem courseLearns_job (o : DrainOp) (k : Course) (r : o.Res) : (courseLearns o k r).job = k.job := by
  simp only [courseLearns]
  split
  all_goals first | rfl | (split_ifs <;> rfl)

/-- Only a seal changes the batch. -/
theorem courseLearns_batch {o : DrainOp} {r : o.Res} (h : ∀ request, o ≠ .sealWindow request) :
    (courseLearns o k r).batch = k.batch := by
  simp only [courseLearns]
  split
  all_goals first | rfl | (split_ifs <;> rfl) | exact absurd rfl (h _)

/-- A seal describes the rows of the window. -/
theorem exec_sealWindow {i : ℕ} {request : SealRequest} {fate : Fate} {sealed : SealedPart}
    (h : (DrainState.exec config i (.sealWindow request) fate s).1 = .ok sealed) :
    ∃ rows, (s.nodes i).staging request.key = some rows ∧ sealed.originCoverage = coverageRuns rows ∧
      sealed.eventTimeMaxMs = (eventTimeBounds request.eventTimeColumn rows).2 := by
  rcases hrows : (s.nodes i).staging request.key with _ | rows
  · simp only [DrainState.exec, hrows, sealBlocking] at h
    cases h
  · simp only [DrainState.exec, hrows, sealBlocking, Fate.reply] at h
    split at h
    · cases h
      exact ⟨rows, rfl, rfl, rfl⟩
    · cases h

theorem lake_sealWindow {i : ℕ} {request : SealRequest} {fate : Fate} :
    (DrainState.exec config i (.sealWindow request) fate s).2.lake = s.lake := by
  rcases lake_exec config i (.sealWindow request) fate s with heq | ⟨m, ws, ho, -⟩
  · exact heq
  · cases ho

/-- A call keeps the batch what the lake holds: a seal by the condition, a commit since it is the batch that lands. -/
theorem contained_exec (config : DuckLakeConfig) {i : ℕ} {o : DrainOp} {fate : Fate} (h : Contained s k)
    (hop : Undisturbed i fate o s) (hpre : coursePre o k) :
    Contained (DrainState.exec config i o fate s).2 (courseLearns o k (DrainState.exec config i o fate s).1) := by
  have hstays : Contained (DrainState.exec config i o fate s).2 k := by
    rcases lake_exec config i o fate s with heq | ⟨m, ws, rfl, heq⟩
    · exact h.of_lake heq
    · obtain ⟨hm, hsame⟩ := h.batch m hpre.1
      refine ⟨h.window, ?_, fun m' hm' => ?_⟩
      · rw [heq]
        exact h.owns.register hm
      · obtain rfl : m' = m := Option.some.inj (hm'.symm.trans hpre.1)
        rw [heq]
        exact ⟨hm, hsame.register⟩
  by_cases hseal : ∃ request, o = .sealWindow request
  · obtain ⟨request, rfl⟩ := hseal
    generalize hanswer : (DrainState.exec config i (.sealWindow request) fate s).1 = r
    rcases r with e | sealed
    · exact hstays
    · obtain ⟨rows, hrows, hcoverage, hmax⟩ := exec_sealWindow hanswer
      have hlake : (DrainState.exec config i (.sealWindow request) fate s).2.lake = s.lake := lake_sealWindow
      refine ⟨hstays.window, hstays.owns, fun m hm => ?_⟩
      obtain rfl := Option.some.inj hm
      refine ⟨⟨rfl, rfl⟩, fun r hr hp hw => ?_⟩
      rw [hlake] at hr
      have hpartition : request.partition = k.job.partition := congrArg WindowKey.partition hpre
      have hwindow : request.window = k.job.window := congrArg WindowKey.window hpre
      obtain ⟨hcov, hbounds⟩ := hop rows hrows r hr (hp.trans hpartition.symm) (by rw [hwindow]; exact hw)
      exact ⟨h.owns r hr hp hw, hcov.trans hcoverage.symm, hbounds.trans hmax.symm⟩
  · have hbatch := courseLearns_batch (k := k) (r := (DrainState.exec config i o fate s).1)
      fun request ho => hseal ⟨request, ho⟩
    have hjob := courseLearns_job o k (DrainState.exec config i o fate s).1
    refine ⟨?_, ?_, ?_⟩
    · rw [hjob]
      exact hstays.window
    · rw [hjob]
      exact hstays.owns
    · rw [hjob, hbatch]
      exact hstays.batch

end Content

def contentContract (config : DuckLakeConfig) : Contract (drainers config) { shared := {} } Course where
  ok := OneDrainer
  inv h := Solo (drained config h)
  knows h _ _ j k := k.job = j ∧ Contained (drained config h).shared k
  proto _ := courseProtocol
  post _ := Concluded
  done _ _ _ _ := True

section Runs

variable {config : DuckLakeConfig} {es : List DrainEvent} {e : DrainEvent}

theorem solo_drained (h : Solo (drained config es)) (hok : OneDrainer (drained config es) e) :
    Solo (drained config (es ++ [e])) := by
  rw [drained_concat]
  refine solo_step (numbered_drained config es) h ?_
  rintro t j rfl
  exact hok.1

theorem undisturbed_of_ok {t : DrainTid} {c : Fate} {n : ℕ} {j : DrainJob} {o : DrainOp}
    {next : o.Res → Prog DrainOp DrainOp.Res (Except DrainError DrainOutcome)}
    (hrun : (drained config es).running t = some ⟨n, j, .call o next⟩)
    (hok : OneDrainer (drained config es) (.act t c)) : Undisturbed t.1 c o (drained config es).shared := by
  simpa only [OneDrainer, hrun] using hok

/-- While one attempt runs, no other event changes the lake. -/
theorem lake_of_spares {t : DrainTid} {r : Running DrainJob DrainOp DrainOp.Res (Except DrainError DrainOutcome)}
    (h : Solo (drained config es)) (hrun : (drained config es).running t = some r)
    (hspares : e.Spares (drainers config) t) :
    (drained config (es ++ [e])).shared.lake = (drained config es).shared.lake := by
  rw [drained_concat]
  rcases h.shared_of_spares hrun hspares with heq | ⟨v, -, -, heq⟩
  · rw [heq]
  · rw [heq]
    exact move_lake v

theorem follow_program (j : DrainJob) :
    courseProtocol.Wp (drainWindow j.dataset j.partition j.window j.plan).run Concluded { job := j } := by
  refine wp_mono (fun a k ha => ?_) (follow_drainWindow j)
  rcases a with e | outcome
  · exact ha
  · exact ha

theorem contentContract_sound : (contentContract config).Sound where
  init := fun t u ht => by cases ht
  start := by
    intro h t j _ hok _ _
    refine ⟨{ job := j }, ⟨rfl, ⟨hok.2.1, ?_, fun m hm => by cases hm⟩⟩, follow_program j⟩
    rw [drained_concat, shared_start]
    exact hok.2.2
  exec := by
    rintro h t c n _ o next k hsolo hok hrun ⟨rfl, hk⟩ hpre
    have hkeeps := contained_exec config hk (undisturbed_of_ok hrun hok) hpre
    rw [← shared_drained_act hrun] at hkeeps
    exact ⟨solo_drained hsolo hok, _, ⟨courseLearns_job .., hkeeps⟩, rfl⟩
  idle := fun h e hsolo hok _ => solo_drained hsolo hok
  env := fun h e hsolo hok => solo_drained hsolo hok
  stable := by
    intro h e t r k hsolo _ _ hrun hspares _ hk
    exact ⟨hk.1, hk.2.of_lake (lake_of_spares hsolo hrun hspares)⟩
  ret := fun _ _ _ _ _ _ _ _ _ _ => trivial
  done_stable := fun _ _ _ _ _ _ _ => trivial

theorem content_valid (h : ReconcileRun config es) : (contentContract config).Valid es :=
  contentContract_sound.valid_run (fun _ => rfl) rfl es h

/-- In a run of one drainer nothing else is stored. -/
theorem agreementRun_of_reconcileRun (h : ReconcileRun config es) : AgreementRun config es := by
  induction es using List.reverseRecOn with
  | nil => trivial
  | append_singleton es e ih =>
    obtain ⟨hes, hok⟩ := admissible_concat.mp h
    refine admissible_concat.mpr ⟨ih hes, ?_⟩
    change StepOk _ _ (drained config es) e
    cases e with
    | start t j => trivial
    | env v => trivial
    | act t c =>
      rcases hrun : (drained config es).running t with _ | ⟨n, j, a | ⟨o, next⟩⟩
      · simp only [StepOk, hrun]
      · simp only [StepOk, hrun]
      · simp only [StepOk, hrun]
        obtain ⟨k, ⟨hjob, hk⟩, hw⟩ := (content_valid hes).threads t _ hrun
        cases o with
        | commitFiles m ws =>
          obtain ⟨hm, hsame⟩ := hk.batch m hw.1.1
          exact ⟨by rw [hm.window]; exact hk.window, hsame⟩
        | readWatermarks ps sub => exact fun _ => (hk.batch sub.manifest hw.1).2
        | _ => trivial

end Runs

/-! ### What an attempt has found and done -/

section Found

variable {config : DuckLakeConfig} {s : DrainState} {k : Course} {i : ℕ} {o : DrainOp} {fate : Fate} {facts : List DrainFact}

theorem lt_of_stands {l : Lake} {m : WindowManifest} (h : Stands l m) : m.windowId < (l.windows m.partition).length := by
  obtain ⟨d, hd, -⟩ := Option.map_eq_some_iff.mp h
  exact (List.getElem?_eq_some_iff.mp hd).1

/-- A batch that stands is the window of its attempt, stored. -/
theorem stores_of_stands {m : WindowManifest} (hl : LakeDense s.lake) (hk : Contained s k) (hm : MadeBy k.job m)
    (h : Stands s.lake m) : s.lake.Stores k.job.key := by
  have hlt := lt_of_stands h
  rw [hm.partition, hm.window] at hlt
  exact (stores_iff_lt hl hk.window hk.owns).mpr hlt

/-- A stored window stands as the batch its attempt has sealed. -/
theorem stands_of_stores {m : WindowManifest} (hl : LakeDense s.lake) (hk : Contained s k) (hm : m ∈ k.batch)
    (h : s.lake.Stores k.job.key) : Stands s.lake m := by
  obtain ⟨hmade, hsame⟩ := hk.batch m hm
  have hlt := (stores_iff_lt hl hk.window hk.owns).mp h
  rw [← hmade.partition, ← hmade.window] at hlt
  exact hl.stands_of_lt hsame hlt

/-- A read-back that shows the advance of the sealed batch shows that the window is stored. -/
theorem stores_of_observed {sub : Submission} (hl : LakeDense s.lake) (hk : Contained s k)
    (hbatch : sub.manifest ∈ k.batch) (hsub : Previewed s.lake sub)
    (h : sub.observed (readWatermarks s.lake [sub.manifest.partition]) = true) : s.lake.Stores k.job.key := by
  obtain ⟨hm, hsame⟩ := hk.batch _ hbatch
  exact stores_of_stands hl hk hm (hsub.stands_of_observed hl h hsame)

/-- A landed batch is its attempt's window, stored. -/
theorem stores_of_committed {sub : Submission} (h : AgreementInv s) (hk : Contained s k)
    (hbatch : sub.manifest ∈ k.batch) (hsub : Previewed s.lake sub) :
    (s.lake.register config sub.manifest sub.previewed.toList).Stores k.job.key := by
  obtain ⟨hm, hsame⟩ := hk.batch _ hbatch
  have hregister : LakeDense (s.lake.register config sub.manifest sub.previewed.toList) ∧ Stands _ sub.manifest :=
    lakeDense_register h.lake hsub (by rw [hm.window]; exact hk.window) hsame
  obtain ⟨hdense, hstands⟩ := hregister
  have hlt := lt_of_stands hstands
  rw [hm.partition, hm.window] at hlt
  exact (stores_iff_lt hdense hk.window (hk.owns.register hm)).mpr hlt

/-- A ledger expects a later window only where the lake stores the attempt's. -/
theorem stores_of_expected (h : AgreementInv s) (hk : Contained s k)
    (hlt : k.job.window < (s.ledgerOf i).nextWindow k.job.partition) : s.lake.Stores k.job.key :=
  (stores_iff_lt h.lake hk.window hk.owns).mpr (hlt.trans_le ((h.follows i).nextWindow_le _))

/-- An answer that teaches an attempt that its window is stored is right. -/
theorem stores_learns (h : AgreementInv s) (hk : Contained s k) (hpre : coursePre o k)
    (hfacts : drainPre (fun _ _ => True) o facts) (hknown : ∀ f ∈ facts, AgreedFact s i f)
    (hold : k.stored = true → s.lake.Stores k.job.key)
    (hstored : (courseLearns o k (DrainState.exec config i o fate s).1).stored = true) :
    (DrainState.exec config i o fate s).2.lake.Stores k.job.key := by
  have hstays : k.stored = true → (DrainState.exec config i o fate s).2.lake.Stores k.job.key :=
    fun hk => (hold hk).mono (manifests_exec i o fate)
  generalize hr : (DrainState.exec config i o fate s).1 = r at hstored
  cases o with
  | nextWindow p =>
    simp only [courseLearns] at hstored
    split_ifs at hstored with hlt
    · obtain rfl : p = k.job.partition := hpre
      obtain rfl := hr
      exact stores_of_expected h hk hlt
    · exact hstays hstored
  | advanceFor m =>
    rcases r with (⟨p, expected, got⟩ | text) | row
    · simp only [courseLearns] at hstored
      split_ifs at hstored with hlt
      · obtain ⟨rfl, rfl, -⟩ := windowNotNext_dataset (windowNotNext_of_rejection hr)
        obtain ⟨hm, -⟩ := hk.batch m hpre
        rw [hm.partition, hm.window] at hlt
        exact stores_of_expected h hk hlt
      · exact hstays hstored
    · exact hstays hstored
    · exact hstays hstored
  | commitFiles m ws =>
    rcases r with e | _ | _ | _
    · exact hstays hstored
    · obtain ⟨sub, hsub, rfl, rfl⟩ := hfacts
      rw [exec_committed hr]
      exact stores_of_committed h hk hpre.1 (hknown _ hsub)
    · exact hstays hstored
    · exact hstays hstored
  | readWatermarks ps sub =>
    rcases r with e | rows
    · exact hstays hstored
    · simp only [courseLearns] at hstored
      split_ifs at hstored with hobs
      · obtain ⟨hfits, rfl⟩ := hfacts
        obtain rfl := exec_readWatermarks hr
        exact stores_of_observed h.lake hk hpre (hknown _ hfits) hobs
      · exact hstays hstored
      · exact hstays hstored
  | sealWindow request =>
    rcases r with e | sealed
    · exact hstays hstored
    · exact hstays hstored
  | dropWindow key covered =>
    rcases r with e | outcome
    · exact hstays hstored
    · exact hstays hstored
  | _ => exact hstays hstored

/-- An answer that teaches an attempt that its window is not stored is right. -/
theorem absent_learns (h : AgreementInv s) (hup : s.lake.UpToDate) (hk : Contained s k) (hpre : coursePre o k)
    (hfacts : drainPre (fun _ _ => True) o facts) (hknown : ∀ f ∈ facts, AgreedFact s i f)
    (hold : k.absent = true → ¬ s.lake.Stores k.job.key)
    (habsent : (courseLearns o k (DrainState.exec config i o fate s).1).absent = true) :
    ¬ (DrainState.exec config i o fate s).2.lake.Stores k.job.key := by
  have hstays : k.absent = true → ¬ (DrainState.exec config i o fate s).2.lake.Stores k.job.key := by
    intro hbefore
    rcases lake_exec config i o fate s with heq | ⟨m, ws, rfl, -⟩
    · rw [heq]
      exact hold hbefore
    · rw [hpre.2] at hbefore
      cases hbefore
  generalize hr : (DrainState.exec config i o fate s).1 = r at habsent
  cases o with
  | readWatermarks ps sub =>
    rcases r with e | rows
    · exact hstays habsent
    · simp only [courseLearns] at habsent
      split_ifs at habsent with hobs hstrict
      · exact hstays habsent
      · obtain ⟨hfits, rfl⟩ := hfacts
        obtain rfl := exec_readWatermarks hr
        have hsub : Previewed s.lake sub := hknown _ hfits
        -- a stored window would show in the watermark that was read back
        intro hstores
        exact hobs (hsub.observed_of_stands h.lake hup (stands_of_stores h.lake hk hpre hstores) hstrict)
      · exact hstays habsent
  | nextWindow p =>
    simp only [courseLearns] at habsent
    split_ifs at habsent
    · exact hstays habsent
    · exact hstays habsent
  | advanceFor m =>
    rcases r with (⟨p, expected, got⟩ | text) | row
    · simp only [courseLearns] at habsent
      split_ifs at habsent
      · exact hstays habsent
      · exact hstays habsent
    · exact hstays habsent
    · exact hstays habsent
  | commitFiles m ws => rcases r with e | _ | _ | _ <;> exact hstays habsent
  | sealWindow request => rcases r with e | sealed <;> exact hstays habsent
  | dropWindow key covered => rcases r with e | outcome <;> exact hstays habsent
  | _ => exact hstays habsent

/-- What is recorded is stored. -/
theorem landed_learns {r : o.Res} (hpre : coursePre o k) (h : k.recorded = true → k.stored = true)
    (hrecorded : (courseLearns o k r).recorded = true) : (courseLearns o k r).stored = true := by
  simp only [courseLearns] at hrecorded ⊢
  split at hrecorded
  all_goals first
    | exact h hrecorded
    | exact hpre.2
    | (split_ifs at hrecorded ⊢ <;> first | rfl | exact h hrecorded)
    | rfl

/-- What has been recorded or dropped stays so. -/
theorem undone_before {r : o.Res} :
    ((courseLearns o k r).recorded = false → k.recorded = false) ∧
    ((courseLearns o k r).dropped = false → k.dropped = false) := by
  simp only [courseLearns]
  split
  all_goals first
    | exact ⟨id, id⟩
    | exact ⟨(fun h => by cases h), id⟩
    | exact ⟨id, fun h => by cases h⟩
    | (split_ifs <;> exact ⟨id, id⟩)

/-- A call that has recorded nothing leaves the ledgers. -/
theorem ledger_exec (h : (courseLearns o k (DrainState.exec config i o fate s).1).recorded = false) (u : ℕ) :
    ((DrainState.exec config i o fate s).2.nodes u).ledger = (s.nodes u).ledger := by
  rcases exec_cases config i o fate s with hsame | ⟨m, ws, -, heq⟩ | ⟨m, rfl, -⟩ | ⟨key, covered, -, heq⟩
  · exact hsame.ledger u
  · rw [heq]
  · cases h
  · rw [heq]
    exact setTable_ledger u key _

/-- A call that has dropped nothing leaves the staged rows: a drop that fails has dropped nothing. -/
theorem staging_exec (hop : Undisturbed i fate o s)
    (h : (courseLearns o k (DrainState.exec config i o fate s).1).dropped = false) (u : ℕ) :
    ((DrainState.exec config i o fate s).2.nodes u).staging = (s.nodes u).staging := by
  rcases exec_cases config i o fate s with hsame | ⟨m, ws, -, heq⟩ | ⟨m, -, heq⟩ | ⟨key, covered, rfl, -⟩
  · exact hsame.staging u
  · rw [heq]
  · rw [heq, DrainState.setLedger, setNode_nodes]
    split_ifs with hu
    · rw [hu]
    · rfl
  · rcases fate with ⟨_ | text, unsettled, lands⟩
    · cases h
    · have hlands : lands = false := hop rfl
      subst hlands
      rfl

end Found

/-! ### Whole runs -/

/-- What is so of an attempt that knows `k`, after its steps so far. -/
structure Accounted (config : DuckLakeConfig) (es : List DrainEvent) (n : ℕ) (k : Course) : Prop where
  contained : Contained (drained config es).shared k
  stored : k.stored = true → (drained config es).shared.lake.Stores k.job.key
  absent : k.absent = true → ¬ (drained config es).shared.lake.Stores k.job.key
  landed : k.recorded = true → k.stored = true
  ledger : k.recorded = false → ∀ x ∈ stepsOf (drainers config) n { shared := {} } es, ∀ i,
    (x.2.nodes i).ledger = (x.1.nodes i).ledger
  staging : k.dropped = false → ∀ x ∈ stepsOf (drainers config) n { shared := {} } es, ∀ i,
    (x.2.nodes i).staging = (x.1.nodes i).staging

/-- The run so far, and the lake it has left. -/
structure ReconcileInv (config : DuckLakeConfig) (es : List DrainEvent) : Prop where
  run : ReconcileRun config es
  upToDate : (drained config es).shared.lake.UpToDate
  once : (drained config es).shared.lake.keys.Nodup

def reconcileContract (config : DuckLakeConfig) : Contract (drainers config) { shared := {} } Course where
  ok := OneDrainer
  inv h := ReconcileInv config h
  knows h _ n j k := k.job = j ∧ Accounted config h n k
  proto _ := courseProtocol
  post _ := Concluded
  done _ _ _ _ := True

section Whole

variable {config : DuckLakeConfig} {es : List DrainEvent} {e : DrainEvent}

theorem ReconcileRun.concat (h : ReconcileRun config es) (hok : OneDrainer (drained config es) e) :
    ReconcileRun config (es ++ [e]) := admissible_concat.mpr ⟨h, hok⟩

/-- Where the lake stands the invariant does. -/
theorem ReconcileInv.same (h : ReconcileInv config es) (hok : OneDrainer (drained config es) e)
    (hlake : (drained config (es ++ [e])).shared.lake = (drained config es).shared.lake) :
    ReconcileInv config (es ++ [e]) := by
  refine ⟨h.run.concat hok, ?_, ?_⟩
  · rw [hlake]
    exact h.upToDate
  · rw [hlake]
    exact h.once

theorem keys_register {m : WindowManifest} {ws : List WatermarkRow} {l : Lake} :
    (l.register config m ws).keys = l.keys ++ ((missing m l).map (manifestRow m)).map ManifestRow.key := by
  simp only [Lake.keys, Lake.contents, values_register, List.map_append, List.map_map]
  rfl

/-- A call keeps the invariant: a batch that lands publishes its watermark and is registered once. -/
theorem ReconcileInv.act {t : DrainTid} {c : Fate} {n : ℕ} {j : DrainJob} {o : DrainOp} {k : Course}
    {next : o.Res → Prog DrainOp DrainOp.Res (Except DrainError DrainOutcome)} (h : ReconcileInv config es)
    (hok : OneDrainer (drained config es) (.act t c))
    (hrun : (drained config es).running t = some ⟨n, j, .call o next⟩)
    (hk : Contained (drained config es).shared k) (hpre : coursePre o k) :
    ReconcileInv config (es ++ [.act t c]) := by
  obtain ⟨hinv, hknown⟩ := agreementRun_known (agreementRun_of_reconcileRun h.run)
  have hshared := shared_drained_act (c := c) hrun
  rcases lake_exec config t.1 o c (drained config es).shared with heq | ⟨m, ws, rfl, heq⟩
  · exact h.same hok (by rw [hshared, heq])
  · obtain ⟨facts, ⟨sub, hsub, rfl, rfl⟩, hfacts⟩ := hknown t n j _ next hrun
    obtain ⟨hm, hcontent⟩ := hk.batch _ hpre.1
    refine ⟨h.run.concat hok, ?_, ?_⟩
    · rw [hshared, heq]
      exact h.upToDate.register hinv.lake (hfacts _ hsub) (by rw [hm.window]; exact hk.window) hcontent
    · rw [hshared, heq, keys_register]
      refine nodup_register ?_ h.once
      rw [hm.parts]
      exact List.nodup_singleton _

theorem reconcileContract_sound : (reconcileContract config).Sound where
  init := ⟨trivial, upToDate_empty, List.nodup_nil⟩
  start := by
    intro h t j _ hok _ _
    have hsteps : stepsOf (drainers config) _ { shared := {} } (h ++ [.start t j]) = [] :=
      stepsOf_started (numbered_drained config []) h
    refine ⟨{ job := j }, ⟨rfl, ?_, (fun hs => by cases hs), (fun ha => by cases ha), (fun hr => by cases hr), ?_, ?_⟩,
      follow_program j⟩
    · refine ⟨hok.2.1, ?_, fun m hm => by cases hm⟩
      rw [drained_concat, shared_start]
      exact hok.2.2
    · intro _ x hx
      cases hsteps ▸ hx
    · intro _ x hx
      cases hsteps ▸ hx
  exec := by
    rintro h t c n _ o next k hinv hok hrun ⟨rfl, hk⟩ hpre
    obtain ⟨hagrees, hknown⟩ := agreementRun_known (agreementRun_of_reconcileRun hinv.run)
    obtain ⟨facts, hfacts, hholds⟩ := hknown t n _ o next hrun
    have hop := undisturbed_of_ok hrun hok
    have hshared := shared_drained_act (c := c) hrun
    have hjob := courseLearns_job o k (DrainState.exec config t.1 o c (drained config h).shared).1
    have hsteps := stepsOf_act (c := c) hrun
    refine ⟨hinv.act hok hrun hk.contained hpre, _, ⟨hjob, ?_, ?_, ?_, landed_learns hpre hk.landed, ?_, ?_⟩, rfl⟩
    · rw [hshared]
      exact contained_exec config hk.contained hop hpre
    · intro hstored
      rw [hshared, hjob]
      exact stores_learns hagrees hk.contained hpre hfacts hholds hk.stored hstored
    · intro habsent
      rw [hshared, hjob]
      exact absent_learns hagrees hinv.upToDate hk.contained hpre hfacts hholds hk.absent habsent
    · intro hrecorded x hx
      rw [hsteps] at hx
      rcases List.mem_append.mp hx with hold | hnew
      · exact hk.ledger (undone_before.1 hrecorded) x hold
      · rw [List.mem_singleton.mp hnew]
        exact ledger_exec hrecorded
    · intro hdropped x hx
      rw [hsteps] at hx
      rcases List.mem_append.mp hx with hold | hnew
      · exact hk.staging (undone_before.2 hdropped) x hold
      · rw [List.mem_singleton.mp hnew]
        exact staging_exec hop hdropped
  idle := by
    intro h e hinv hok heq
    refine hinv.same hok ?_
    rw [drained_concat]
    exact congrArg DrainState.lake heq
  env := by
    intro h v hinv hok
    refine hinv.same hok ?_
    rw [drained_concat]
    exact move_lake v
  stable := by
    rintro h e t r k hinv _ _ hrun hspares _ ⟨hjob, hk⟩
    have hsolo := (content_valid hinv.run).inv
    have hlake := lake_of_spares hsolo hrun hspares
    have hsteps := stepsOf_spares hsolo hrun hspares
    refine ⟨hjob, hk.contained.of_lake hlake, ?_, ?_, hk.landed, ?_, ?_⟩
    · rw [hlake]
      exact hk.stored
    · rw [hlake]
      exact hk.absent
    · rw [hsteps]
      exact hk.ledger
    · rw [hsteps]
      exact hk.staging
  ret := fun _ _ _ _ _ _ _ _ _ _ => trivial
  done_stable := fun _ _ _ _ _ _ _ => trivial

theorem reconcile_valid (h : ReconcileRun config es) : (reconcileContract config).Valid es :=
  reconcileContract_sound.valid_run (fun _ => rfl) rfl es h

end Whole

instance (config : DuckLakeConfig) (es : List DrainEvent) : Decidable (ReconcileRun config es) :=
  inferInstanceAs (Decidable ((drainers config).Admissible _ _ es))

/-- In every run of one drainer that meets the condition an attempt decides right. Where it answers that its commit
    stands the lake stores its window; where it answers that the commit was rejected or lost the lake does not. On a
    requeue none of its steps has changed a staged row or a ledger; on an error none has changed a staged row, nor a
    ledger as long as the lake does not store its window. No part is registered twice. -/
theorem reconcile_sound (config : DuckLakeConfig) (es : List DrainEvent) (h : ReconcileRun config es) :
    (∀ t n j a, (drained config es).result t = some (n, j, a) →
      ((a = .ok .alreadyCommitted ∨ ∃ watermark, a = .ok (.committed watermark)) →
        (drained config es).shared.lake.Stores j.key) ∧
      (a = .ok (.requeue .rejectedByBackend) ∨ a = .ok (.requeue .commitLost) →
        ¬ (drained config es).shared.lake.Stores j.key) ∧
      ((∃ reason, a = .ok (.requeue reason)) ∨ (∃ e, a = .error e) →
        ∀ x ∈ stepsOf (drainers config) n { shared := {} } es, ∀ i, (x.2.nodes i).staging = (x.1.nodes i).staging) ∧
      ((∃ reason, a = .ok (.requeue reason)) ∨
          (∃ e, a = .error e) ∧ ¬ (drained config es).shared.lake.Stores j.key →
        ∀ x ∈ stepsOf (drainers config) n { shared := {} } es, ∀ i, (x.2.nodes i).ledger = (x.1.nodes i).ledger)) ∧
    ((values (drained config es).shared.lake.manifests).map ManifestRow.key).Nodup := by
  have hvalid := reconcile_valid h
  refine ⟨fun t n j a hresult => ?_, ?_⟩
  · obtain ⟨k, ⟨rfl, hk⟩, hanswer⟩ := hvalid.threads t _ (running_of_result hresult)
    refine ⟨?_, ?_, ?_, ?_⟩
    · rintro (rfl | ⟨watermark, rfl⟩)
      · exact hk.stored hanswer
      · exact hk.stored hanswer
    · rintro (rfl | rfl)
      · exact hk.absent (hanswer.2.2 (.inl rfl))
      · exact hk.absent (hanswer.2.2 (.inr rfl))
    · rintro (⟨reason, rfl⟩ | ⟨e, rfl⟩)
      · exact hk.staging hanswer.2.1
      · exact hk.staging hanswer
    · rintro (⟨reason, rfl⟩ | ⟨⟨e, rfl⟩, hnot⟩)
      · exact hk.ledger hanswer.1
      · refine hk.ledger (Bool.eq_false_iff.mpr fun hrecorded => hnot ?_)
        exact hk.stored (hk.landed hrecorded)
  · have honce := hvalid.inv.once
    rwa [Lake.keys, Lake.contents, List.map_map] at honce

/-! ### A lost answer, and an attempt after it -/

/-- The second attempt: its commit is answered `Aborted`, and the watermark is read back. -/
def aborted (n : ℕ) : List DrainEvent :=
  .start (0, 0) (sampleJob 0) :: served (0, 0) 6 ++ [.act (0, 0) { unsettled := some .aborted }] ++ served (0, 0) n

/-- The watermark that is read back shows that the commit of the first attempt stands. -/
theorem reconcile_sound_retry :
    (drained drainConfig (lostAnswer ++ aborted 4)).shared.lake.Stores (sampleJob 0).key ∧
    ((values (drained drainConfig (lostAnswer ++ aborted 4)).shared.lake.manifests).map ManifestRow.key).Nodup := by
  have hsound := reconcile_sound drainConfig (lostAnswer ++ aborted 4) (by decide +kernel)
  have hresult : (drained drainConfig (lostAnswer ++ aborted 4)).result (0, 0) =
      some (1, sampleJob 0, .ok .alreadyCommitted) := by decide +kernel
  exact ⟨(hsound.1 _ _ _ _ hresult).1 (.inl rfl), hsound.2⟩

/-- Two rows arrive between the attempts. The advance the second looks for is past the one the lake has published: it
    answers that its commit was rejected, and the lake stores its window. And with no failure at all, an attempt for
    the window of another dataset is told that its commit stands. -/
theorem reconcile_misled :
    (Quiet (drained drainConfig lostAnswer) ∧
      (drained drainConfig (lostAnswer ++ [.env (.append 0 (sampleKey 0) [sampleRow 6, sampleRow 7])] ++
        aborted 2)).result (0, 0) = some (1, sampleJob 0, .ok (.requeue .rejectedByBackend)) ∧
      (drained drainConfig (lostAnswer ++ [.env (.append 0 (sampleKey 0) [sampleRow 6, sampleRow 7])] ++
        aborted 2)).shared.lake.Stores (sampleJob 0).key) ∧
    (drained drainConfig (twoDatasets 0 ++ served (0, 0) 3)).result (0, 0) =
      some (1, tracesJob 0, .ok .alreadyCommitted) ∧
    ¬ (drained drainConfig (twoDatasets 0 ++ served (0, 0) 3)).shared.lake.Stores (tracesJob 0).key := by
  decide +kernel

end Duckspout
