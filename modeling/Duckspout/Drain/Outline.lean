import Duckspout.Drain.System

/-! What an attempt relies on at each of its calls.

    An attempt learns facts from the answers it gets, and a call asks for some of them. What a fact says
    about the drainers is left to the property at hand; that `drain_window` keeps to the protocol is shown
    here once, for every reading of the facts. -/

namespace Duckspout

open Protocol

/-- What an attempt knows. -/
inductive DrainFact where
  /-- the bookkeeping of the node expected window `w` or a later one -/
  | reached (partition : PartitionId) (w : WindowId)
  /-- the watermark was read when the bookkeeping expected window `w` or a later one -/
  | priced (partition : PartitionId) (w : WindowId) (prior : Option ℤ)
  /-- the bookkeeping accepts the batch and previews the watermark -/
  | fits (s : Submission)
  /-- the commit of the batch stands -/
  | stands (m : WindowManifest)
  /-- the bookkeeping has recorded the window with this coverage -/
  | recorded (partition : PartitionId) (w : WindowId) (coverage : List OriginSeqRange)
  deriving DecidableEq, Repr

/-- The part a window is drained to. -/
def WindowManifest.windowPart (m : WindowManifest) : PartName := partName m.dataset m.partition m.windowId .window

def WindowManifest.key (m : WindowManifest) : WindowKey := ⟨m.dataset, m.partition, m.windowId⟩

/-- A batch as an attempt makes it, of a dataset drained in that partition. -/
structure Batch (drains : DatasetId → PartitionId → Prop) (m : WindowManifest) : Prop where
  parts : m.parts = [m.windowPart]
  drains : drains m.dataset m.partition

/-- What each call asks for. -/
def drainPre (drains : DatasetId → PartitionId → Prop) : DrainOp → List DrainFact → Prop
  | .advanceFor m, _ => Batch drains m
  | .commitFiles m ws, k => ∃ s, .fits s ∈ k ∧ s.manifest = m ∧ ws = s.previewed.toList
  | .readWatermarks ps s, k => .fits s ∈ k ∧ ps = [s.manifest.partition]
  | .recordCommit m, k => .stands m ∈ k
  | .dropWindow key covered, k => covered = [] ∨ (∃ m, .stands m ∈ k ∧ key = m.key ∧ covered = m.originCoverage) ∨
      (drains key.dataset key.partition ∧ .recorded key.partition key.window covered ∈ k)
  | _, _ => True

/-- The watermark reads of a partition among the facts. -/
def DrainFact.pricedAt (p : PartitionId) (prior : Option ℤ) : DrainFact → Option DrainFact
  | .reached q w => if q = p then some (.priced p w prior) else none
  | _ => none

/-- The submissions of a previewed batch. -/
def DrainFact.fitsAt (m : WindowManifest) (previewed : Option WatermarkRow) : DrainFact → Option DrainFact
  | .priced p w prior => if p = m.partition ∧ w = m.windowId then some (.fits ⟨m, previewed, prior⟩) else none
  | _ => none

/-- What each answer teaches. -/
def drainLearns : (o : DrainOp) → List DrainFact → o.Res → List DrainFact
  | .nextWindow p, _, w => [.reached p w]
  | .completeThroughMs p, k, prior => k.filterMap (DrainFact.pricedAt p prior)
  | .advanceFor m, k, .ok previewed => k.filterMap (DrainFact.fitsAt m previewed)
  | .commitFiles m _, _, .ok .committed => [.stands m]
  | .readWatermarks _ s, _, .ok rows => if s.observed rows then [.stands s.manifest] else []
  | .recordedCoverage p w, _, some coverage => [.recorded p w coverage]
  | _, _, _ => []

/-- A fact and the answer that teaches it. -/
inductive Learnt : (o : DrainOp) → List DrainFact → o.Res → DrainFact → Prop
  | reached (p : PartitionId) (k : List DrainFact) (w : WindowId) : Learnt (.nextWindow p) k w (.reached p w)
  | priced {p : PartitionId} {k : List DrainFact} {w : WindowId} (prior : Option ℤ) (h : .reached p w ∈ k) :
      Learnt (.completeThroughMs p) k prior (.priced p w prior)
  | fits {m : WindowManifest} {k : List DrainFact} {prior : Option ℤ} (previewed : Option WatermarkRow)
      (h : .priced m.partition m.windowId prior ∈ k) :
      Learnt (.advanceFor m) k (.ok previewed) (.fits ⟨m, previewed, prior⟩)
  | committed (m : WindowManifest) (ws : List WatermarkRow) (k : List DrainFact) :
      Learnt (.commitFiles m ws) k (.ok .committed) (.stands m)
  | observed (ps : List PartitionId) (k : List DrainFact) {s : Submission} {rows : List WatermarkRow}
      (h : s.observed rows = true) : Learnt (.readWatermarks ps s) k (.ok rows) (.stands s.manifest)
  | recorded (p : PartitionId) (w : WindowId) (k : List DrainFact) (coverage : List OriginSeqRange) :
      Learnt (.recordedCoverage p w) k (some coverage) (.recorded p w coverage)

theorem learnt_of_mem {o : DrainOp} {k : List DrainFact} {r : o.Res} {f : DrainFact}
    (h : f ∈ drainLearns o k r) : Learnt o k r f := by
  cases o with
  | nextWindow p =>
    obtain rfl := List.mem_singleton.mp h
    exact .reached p k r
  | completeThroughMs p =>
    obtain ⟨g, hg, hf⟩ := List.mem_filterMap.mp h
    cases g with
    | reached q w =>
      simp only [DrainFact.pricedAt] at hf
      split_ifs at hf with hq
      subst hq
      cases hf
      exact .priced r hg
    | _ => cases hf
  | advanceFor m =>
    rcases r with e | previewed
    · cases h
    · obtain ⟨g, hg, hf⟩ := List.mem_filterMap.mp h
      cases g with
      | priced p w prior =>
        simp only [DrainFact.fitsAt] at hf
        split_ifs at hf with hq
        obtain ⟨rfl, rfl⟩ := hq
        cases hf
        exact .fits previewed hg
      | _ => cases hf
  | commitFiles m ws =>
    rcases r with e | _ | _ | _
    · cases h
    · obtain rfl := List.mem_singleton.mp h
      exact .committed m ws k
    · cases h
    · cases h
  | readWatermarks ps s =>
    rcases r with e | rows
    · cases h
    · simp only [drainLearns] at h
      split_ifs at h with hobs
      · obtain rfl := List.mem_singleton.mp h
        exact .observed ps k hobs
      · cases h
  | recordedCoverage p w =>
    rcases r with _ | coverage
    · cases h
    · obtain rfl := List.mem_singleton.mp h
      exact .recorded p w k coverage
  | sealWindow request => cases h
  | scratchGet path => cases h
  | putPart part data => cases h
  | recordCommit m => cases h
  | scratchDelete path => cases h
  | dropWindow key covered => cases h

/-- The protocol of an attempt. -/
def drainProtocol (drains : DatasetId → PartitionId → Prop) : Protocol DrainOp DrainOp.Res (List DrainFact) where
  pre := drainPre drains
  next o k r k' := k' = drainLearns o k r ++ k

section Rules

variable {κ ε α : Type} {P : Protocol DrainOp DrainOp.Res κ} {E : DrainError → κ → Prop} {k : κ}

/-- A call after which what is known is what its answer makes of it. -/
theorem ewp_call {o : DrainOp} {learns : o.Res → κ} {Q : o.Res → κ → Prop} (hpre : P.pre o k)
    (hnext : ∀ r k', P.next o k r k' → k' = learns r) (h : ∀ r, Q r (learns r)) : P.Ewp (call o) Q E k := by
  refine ewp_lift hpre fun r k' hk => ?_
  rw [hnext r k' hk]
  exact h r

theorem ewp_orFail {Q : α → κ → Prop} {error : ε → DrainError} {r : Except ε α} (h : ∀ a, r = .ok a → Q a k)
    (hfail : ∀ e, r = .error e → E (error e) k) : P.Ewp (orFail error r) Q E k := by
  cases r with
  | ok a => exact ewp_pure (h a rfl)
  | error e => exact ewp_throw (hfail e rfl)

end Rules

section Attempt

variable {drains : DatasetId → PartitionId → Prop} {k : List DrainFact} {ε α β : Type}
  {Q : α → List DrainFact → Prop}

/-- The program keeps to the protocol and returns in `Q`; it may fail at any point. -/
def Keeps (drains : DatasetId → PartitionId → Prop) (x : DrainM α) (Q : α → List DrainFact → Prop)
    (k : List DrainFact) : Prop :=
  (drainProtocol drains).Ewp x Q (fun _ _ => True) k

theorem keeps_pure {a : α} (h : Q a k) : Keeps drains (pure a) Q k := h

theorem keeps_throw (e : DrainError) : Keeps drains (throw e) Q k := ewp_throw trivial

theorem keeps_bind {x : DrainM β} {f : β → DrainM α} (h : Keeps drains x (fun b => Keeps drains (f b) Q) k) :
    Keeps drains (x >>= f) Q k := ewp_bind h

/-- A call that asks for what is known; the answer adds to it. -/
theorem keeps_call {o : DrainOp} {Q : o.Res → List DrainFact → Prop} (hpre : drainPre drains o k)
    (h : ∀ r, Q r (drainLearns o k r ++ k)) : Keeps drains (call o) Q k :=
  ewp_call hpre (fun _ _ hk => hk) h

theorem keeps_orFail {error : ε → DrainError} {r : Except ε α} (h : ∀ a, r = .ok a → Q a k) :
    Keeps drains (orFail error r) Q k := ewp_orFail h fun _ _ => trivial

theorem keeps_discardScratch {path : String} {Q : PUnit → List DrainFact → Prop} (h : Q ⟨⟩ k) :
    Keeps drains (discardScratch path) Q k :=
  keeps_bind (keeps_call trivial fun _ => keeps_pure h)

theorem keeps_dropCovered {key : WindowKey} {covered : List OriginSeqRange} {Q : PUnit → List DrainFact → Prop}
    (hpre : drainPre drains (.dropWindow key covered) k) (h : Q ⟨⟩ k) : Keeps drains (dropCovered key covered) Q k :=
  keeps_bind (keeps_call hpre fun _ => keeps_bind (keeps_orFail fun _ _ => keeps_pure h))

theorem keeps_finishAlreadyCommitted {dataset : DatasetId} {partition : PartitionId} {window : WindowId}
    {scratch : Option String} (hd : drains dataset partition) :
    Keeps drains (finishAlreadyCommitted dataset partition window scratch) (fun _ _ => True) k := by
  have hfinish : ∀ k, Keeps drains (do
      let covered ← call (.recordedCoverage partition window)
      dropCovered ⟨dataset, partition, window⟩ (covered.getD [])
      return DrainOutcome.alreadyCommitted) (fun _ _ => True) k := by
    intro k
    refine keeps_bind (keeps_call trivial fun covered => keeps_bind (keeps_dropCovered ?_ (keeps_pure trivial)))
    cases covered with
    | none => exact .inl rfl
    | some coverage => exact .inr (.inr ⟨hd, List.mem_cons_self⟩)
  cases scratch with
  | none => exact hfinish k
  | some path => exact keeps_bind (keeps_discardScratch (hfinish k))

theorem keeps_recordOnce {m : WindowManifest} {Q : Option WatermarkRow → List DrainFact → Prop}
    (hm : .stands m ∈ k) (hQ : ∀ row k, .stands m ∈ k → Q row k) : Keeps drains (recordOnce m) Q k := by
  refine keeps_bind (keeps_call hm fun recorded => ?_)
  rcases recorded with (⟨p, expected, got⟩ | text) | row
  · rcases Nat.lt_or_ge got expected with hlt | hge
    · simp only [if_pos hlt]
      exact keeps_bind (keeps_call trivial fun ms => keeps_pure (hQ _ _ (List.mem_append_right _ hm)))
    · simp only [if_neg (Nat.not_lt.mpr hge)]
      exact keeps_throw _
  · exact keeps_throw _
  · exact keeps_pure (hQ row k hm)

/-- A commit that stands is recorded and its coverage dropped, whatever the bookkeeping answers. -/
theorem keeps_finishCommitted {m : WindowManifest} {path : String} {Q : Option WatermarkRow → List DrainFact → Prop}
    (hm : .stands m ∈ k) (hQ : ∀ row k, Q row k) : Keeps drains (finishCommitted m path) Q k := by
  refine keeps_bind (keeps_recordOnce hm fun row k hm => ?_)
  refine keeps_bind (keeps_discardScratch (keeps_bind ?_))
  exact keeps_dropCovered (.inr (.inl ⟨m, hm, rfl, rfl⟩)) (keeps_pure (hQ row k))

theorem keeps_reconcile {unsettled : Unsettled} {s : Submission} {path : String} (hs : .fits s ∈ k) :
    Keeps drains (reconcile unsettled s path) (fun _ _ => True) k := by
  refine keeps_bind (keeps_call ⟨hs, rfl⟩ fun answer => ?_)
  rcases answer with e | rows
  · exact keeps_bind (keeps_discardScratch (keeps_pure trivial))
  · rcases hobs : s.observed rows with _ | _
    · simp only [hobs, Bool.false_eq_true, if_false]
      split_ifs
      all_goals exact keeps_bind (keeps_discardScratch (keeps_pure trivial))
    · have hstands : DrainFact.stands s.manifest ∈
          drainLearns (.readWatermarks [s.manifest.partition] s) k (.ok rows) ++ k := by
        simp [drainLearns, hobs]
      simp only [hobs, if_true]
      cases unsettled with
      | aborted => exact keeps_bind (keeps_finishCommitted hstands fun _ _ => keeps_pure trivial)
      | indeterminate => exact keeps_bind (keeps_finishCommitted hstands fun _ _ => keeps_pure trivial)

theorem keeps_submit {m : WindowManifest} {path : String} {previewed : Option WatermarkRow} {prior : Option ℤ}
    (hfits : .fits ⟨m, previewed, prior⟩ ∈ k) :
    Keeps drains (submit m path previewed prior) (fun _ _ => True) k := by
  refine keeps_bind (keeps_call trivial fun file => keeps_bind (keeps_orFail fun data _ => ?_))
  refine keeps_bind (keeps_call trivial fun put => keeps_bind (keeps_orFail fun _ _ => ?_))
  refine keeps_bind (keeps_call ⟨_, hfits, rfl, rfl⟩ fun answer => keeps_bind (keeps_orFail fun outcome ho => ?_))
  subst ho
  cases outcome with
  | committed => exact keeps_bind (keeps_finishCommitted List.mem_cons_self fun _ _ => keeps_pure trivial)
  | aborted => exact keeps_reconcile hfits
  | indeterminate => exact keeps_reconcile hfits

theorem mem_learns_priced {p : PartitionId} {w : WindowId} {prior : Option ℤ} (h : .reached p w ∈ k) :
    .priced p w prior ∈ drainLearns (.completeThroughMs p) k prior :=
  List.mem_filterMap.mpr ⟨_, h, if_pos rfl⟩

theorem mem_learns_fits {m : WindowManifest} {previewed : Option WatermarkRow} {prior : Option ℤ}
    (h : .priced m.partition m.windowId prior ∈ k) :
    .fits ⟨m, previewed, prior⟩ ∈ drainLearns (.advanceFor m) k (.ok previewed) :=
  List.mem_filterMap.mpr ⟨_, h, if_pos ⟨rfl, rfl⟩⟩

/-- An attempt keeps to the protocol. -/
theorem keeps_drainWindow {dataset : DatasetId} {partition : PartitionId} (window : WindowId)
    (plan : DatasetDrainPlan) (hd : drains dataset partition) :
    Keeps drains (drainWindow dataset partition window plan) (fun _ _ => True) k := by
  refine keeps_bind (keeps_call trivial fun expected => ?_)
  rcases Nat.lt_trichotomy window expected with hlt | rfl | hgt
  · simp only [if_pos hlt]
    exact keeps_finishAlreadyCommitted hd
  · simp only [gt_iff_lt, Nat.lt_irrefl, if_false]
    refine keeps_bind (keeps_call trivial fun prior => ?_)
    refine keeps_bind (keeps_call trivial fun answer => keeps_bind (keeps_orFail fun sealed _ => ?_))
    refine keeps_bind (keeps_call ⟨rfl, hd⟩ fun preview => ?_)
    rcases preview with (⟨p, expected, got⟩ | text) | previewed
    · rcases Nat.lt_or_ge got expected with hlt | hge
      · simp only [if_pos hlt]
        exact keeps_finishAlreadyCommitted hd
      · simp only [if_neg (Nat.not_lt.mpr hge)]
        exact keeps_throw _
    · exact keeps_throw _
    · refine keeps_submit (List.mem_append_left _ (mem_learns_fits ?_))
      exact List.mem_append_right _ (List.mem_append_left _ (mem_learns_priced List.mem_cons_self))
  · simp only [if_neg (Nat.not_lt.mpr hgt.le), gt_iff_lt, if_pos hgt]
    exact keeps_throw _

end Attempt

end Duckspout
