import Duckspout.Staging.Windows

/-! Closed windows. A window below the high-water of its partition is closed, and the roller reports it; sealing and
    dropping count on nothing being added to it. A call chooses its window before its transaction begins,
    and nothing holds the window open in between. -/

namespace Duckspout

open Threads

/-- The window is below the high-water of its dataset and partition: a higher one has been created. -/
def HotDb.Below (db : HotDb) (key : WindowKey) : Prop :=
  ∃ hw, db.windowHw key.dataset key.partition = some hw ∧ key.window < hw

/-- The roller has reported the window, or a higher one has been created. -/
def StagingNode.Closed (s : StagingNode) (key : WindowKey) : Prop := (s.closes key).isSome ∨ s.db.Below key

/-- A transaction begins while its window is still the highest of its partition. -/
def Current (_ : ℕ) (_ : StagingJob) (o : StagingOp) (s : StagingNode) : Prop :=
  (match o with
    | .transact request =>
      (s.stager.engine.writer.windowHw request.window.dataset request.window.partition).all (· ≤ request.window.window)
    | _ => true) = true

instance (t : ℕ) (j : StagingJob) (o : StagingOp) (s : StagingNode) : Decidable (Current t j o s) :=
  inferInstanceAs (Decidable (_ = true))

/-- The rows ever put into a window. -/
def HotDb.rowsOf (db : HotDb) (key : WindowKey) : List StagedRow :=
  (db.everStaged.filter (·.1 = key)).map (·.2)

section Step

variable {db db' : HotDb} {o : StagingOp} {key : WindowKey}

/-- A window below the high-water stays below it. -/
theorem HotDb.Step.below (h : db.Step o db') (hbelow : db.Below key) : db'.Below key := by
  obtain ⟨hw, hsome, hlt⟩ := hbelow
  cases h with
  | same => exact ⟨hw, hsome, hlt⟩
  | stage hgrown =>
    obtain ⟨hw', hsome', hle⟩ := hgrown.windowHw _ _ hw hsome
    exact ⟨hw', hsome', hlt.trans_le hle⟩
  | drop => exact ⟨hw, hsome, hlt⟩
  | delete => exact ⟨hw, hsome, hlt⟩

/-- Only a transaction of its own adds rows to a window. -/
theorem HotDb.Step.rowsOf (h : db.Step o db') (hother : ∀ request, o = .transact request → request.window ≠ key) :
    db'.rowsOf key = db.rowsOf key := by
  cases h with
  | same => rfl
  | @stage request rows _ hgrown =>
    have hnone : (rows.map (request.window, ·)).filter (·.1 = key) = [] := by
      simp [List.filter_eq_nil_iff, hother request rfl]
    rw [HotDb.rowsOf, hgrown.everStaged, List.filter_append, hnone, List.append_nil]
    rfl
  | drop => rfl
  | delete => rfl

/-- A reported window is below the high-water. -/
def Reported (s : StagingNode) : Prop := ∀ key, (s.closes key).isSome → s.db.Below key

theorem closes_exec {setup : StagingSetup} {fate : StagingFate} {s : StagingNode}
    (h : ((StagingNode.exec setup o fate s).2.closes key).isSome) : (s.closes key).isSome := by
  cases o with
  | copySealed table path dedupKey =>
    rcases hread : s.read fate table (sealedRows dedupKey) with text | rows
    all_goals
      simp only [StagingNode.exec, hread] at h
      exact h
  | forgetClose closed =>
    rcases eq_or_ne key closed with rfl | hne
    · simp [StagingNode.exec] at h
    · simpa [StagingNode.exec, Function.update_of_ne hne] using h
  | _ => exact h

/-- The roller reports windows below the high-water only. -/
theorem reported_noteClosedWindows {s : StagingNode} (hsteady : s.stager.engine.Steady) (h : Reported s) (nowMs : ℤ) :
    Reported (noteClosedWindows nowMs s) := by
  intro key hkey
  unfold noteClosedWindows at hkey
  dsimp only at hkey
  rw [hsteady.windowHw_eq] at hkey
  split at hkey
  next noted hnoted => exact h key (by rw [hnoted]; rfl)
  next =>
    split at hkey
    next hw _ hhw =>
      split_ifs at hkey with hlt
      · exact ⟨hw, hhw, hlt⟩
      · cases hkey
    next => cases hkey

end Step

section Run

variable {setup : StagingSetup} {p : StagingPool}
  {e : StagingEvent} {key : WindowKey}

theorem reported_step (hsteady : p.shared.stager.engine.Steady) (h : Reported p.shared) :
    Reported ((stagers setup).step p e).shared := by
  rcases shared_step (stagers setup) p e with heq | ⟨t, c, n, j, o, next, -, -, heq⟩ | ⟨v, -, heq⟩
  · rw [heq]
    exact h
  · rw [heq]
    exact fun key hkey => (exec_windows setup hsteady o c).2.below (h key (closes_exec hkey))
  · rw [heq]
    cases v with
    | noteClosedWindows nowMs => exact reported_noteClosedWindows hsteady h nowMs
    | restart origin => exact fun key hkey => by cases hkey

theorem reported_stagedBy (setup : StagingSetup) (origin : NodeId) (es : List StagingEvent) :
    Reported (stagedBy setup origin es).shared := by
  induction es using List.reverseRecOn with
  | nil => exact fun key hkey => by cases hkey
  | append_singleton es e ih =>
    rw [stagedBy_concat]
    exact reported_step (steady_stagedBy setup origin es) ih

/-- An admissible event adds nothing to a window below the high-water. -/
theorem rowsOf_step (hsteady : p.shared.stager.engine.Steady) (hbelow : p.shared.db.Below key)
    (hok : CallOk Current p e) :
    ((stagers setup).step p e).shared.db.Below key ∧
    ((stagers setup).step p e).shared.db.rowsOf key = p.shared.db.rowsOf key := by
  rcases shared_step (stagers setup) p e with heq | ⟨t, c, n, j, o, next, rfl, hrun, heq⟩ | ⟨v, -, heq⟩
  · rw [heq]
    exact ⟨hbelow, rfl⟩
  · rw [heq]
    have hstep := (exec_windows setup hsteady o c).2
    refine ⟨hstep.below hbelow, hstep.rowsOf ?_⟩
    rintro request rfl rfl
    have hmirror : p.shared.stager.engine.writer.windowHw = p.shared.db.windowHw := hsteady.windowHw_eq
    obtain ⟨hw, hsome, hlt⟩ := hbelow
    simp only [CallOk, hrun, Current, hmirror, hsome, Option.all_some, decide_eq_true_eq] at hok
    exact Nat.not_lt.mpr hok hlt
  · rw [heq]
    change (v.move p.shared).db.Below key ∧ (v.move p.shared).db.rowsOf key = _
    rw [db_move]
    exact ⟨hbelow, rfl⟩

/-- The window is below the high-water and has the rows it had. -/
structure Settled (key : WindowKey) (s : StagingNode)
    (p : StagingPool) : Prop where
  steady : p.shared.stager.engine.Steady
  below : p.shared.db.Below key
  rows : p.shared.db.rowsOf key = s.db.rowsOf key

end Run

/-- In a run where every staging transaction begins while its window is still the highest of its partition, a closed
    window gets no more rows. -/
theorem closed_window_settled (setup : StagingSetup) (origin : NodeId) (es fs : List StagingEvent) (key : WindowKey)
    (h : (stagers setup).Admissible (CallOk Current) { shared := .fresh origin } (es ++ fs))
    (hclosed : (stagedBy setup origin es).shared.Closed key) :
    (stagedBy setup origin (es ++ fs)).shared.db.rowsOf key = (stagedBy setup origin es).shared.db.rowsOf key := by
  have hbelow : (stagedBy setup origin es).shared.db.Below key :=
    hclosed.elim (reported_stagedBy setup origin es key) id
  have hstep : ∀ (q : StagingPool) (e : StagingEvent),
      Settled key (stagedBy setup origin es).shared q → CallOk Current q e →
      Settled key (stagedBy setup origin es).shared ((stagers setup).step q e) := by
    rintro q e ⟨hsteady, hbelow, hrows⟩ hok
    obtain ⟨hbelow', hrows'⟩ := rowsOf_step hsteady hbelow hok
    exact ⟨steady_step hsteady e, hbelow', hrows'.trans hrows⟩
  have hsettled := invariant_run hstep ⟨steady_stagedBy setup origin es, hbelow, rfl⟩ (admissible_append.mp h).2
  rw [stagedBy, Threads.run_append]
  exact hsettled.rows

/-! ### A stalled call -/

/-- One window filled, a second one opened a second later, and the roller's report. -/
theorem closed_window_settled_next :
    let es := stageAt 1 0 "k1" ++ stageAt 2 1 "k2" ++ [.env (.noteClosedWindows 1000)]
    let fs := stageAt 1 1 "k3"
    (stagedBy oneRowSetup ⟨"node-1"⟩ (es ++ fs)).shared.db.rowsOf firstWindow =
      [⟨⟨"node-1"⟩, 1, [("ts", .timestamp 0)]⟩] := by
  intro es fs
  have hclosed : (stagedBy oneRowSetup ⟨"node-1"⟩ es).shared.Closed firstWindow := .inl (by decide +kernel)
  rw [closed_window_settled oneRowSetup ⟨"node-1"⟩ es fs firstWindow (by decide +kernel) hclosed]
  decide +kernel

/-- The call of thread 1 stalls between choosing its window and its transaction. Meanwhile a second one opens the next
    window, and the roller reports the first; the stalled call then commits a row into it. -/
theorem stalled_call_reaches_closed_window :
    let es := stageAt 0 0 "k1" ++ .start 1 (.stage (oneRowBatch "k2" 0)) :: stepsAt 1 2 0 ++ stageAt 2 1 "k3" ++
      [.env (.noteClosedWindows 1000)]
    let fs := stepsAt 1 2 1
    (stagedBy oneRowSetup ⟨"node-1"⟩ es).shared.closes firstWindow = some 1000 ∧
    (stagedBy oneRowSetup ⟨"node-1"⟩ es).shared.db.rowsOf firstWindow = [⟨⟨"node-1"⟩, 1, [("ts", .timestamp 0)]⟩] ∧
    (stagedBy oneRowSetup ⟨"node-1"⟩ (es ++ fs)).shared.db.rowsOf firstWindow =
      [⟨⟨"node-1"⟩, 1, [("ts", .timestamp 0)]⟩, ⟨⟨"node-1"⟩, 3, [("ts", .timestamp 0)]⟩] := by
  decide +kernel

end Duckspout
