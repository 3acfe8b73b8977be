import Duckspout.Staging.Windows

/-! The coverage-guarded drop next to staging. A drop counts the rows its coverage leaves out and, where there are none,
    takes the whole window away; the two are separate statements. A drop that has found none must not meet an
    uncovered row before it is through. -/

namespace Duckspout

open Threads Protocol

/-- While a drop that has counted no uncovered row stands before its removal, the event brings no uncovered row into
    the window. -/
def DropGuarded (setup : StagingSetup) (p : StagingPool) (e : StagingEvent) : Prop :=
  (p.started.all fun x => match p.running x.1 with
    | some ⟨_, .drop _ covered, .call (.dropWindow key) _⟩ =>
      (((stagers setup).step p e).shared.db.staged key).all fun r => r ∈ p.shared.db.staged key ∨ r.CoveredBy covered
    | _ => true) = true

instance (setup : StagingSetup) (p : StagingPool) (e : StagingEvent) : Decidable (DropGuarded setup p e) :=
  inferInstanceAs (Decidable (_ = true))

theorem DropGuarded.staged {setup : StagingSetup} {p : StagingPool} {e : StagingEvent} (h : DropGuarded setup p e)
    {t n : ℕ} {key key' : WindowKey} {covered : List OriginSeqRange}
    {next : StagingOp.Res (.dropWindow key) → Prog StagingOp StagingOp.Res StagingAnswer} (hp : Numbered p)
    (hrun : p.running t = some ⟨n, .drop key' covered, .call (.dropWindow key) next⟩) :
    ∀ r ∈ ((stagers setup).step p e).shared.db.staged key, r ∈ p.shared.db.staged key ∨ r.CoveredBy covered := by
  have hat := List.all_eq_true.mp h (t, .drop key' covered) (List.mem_of_getElem? (hp t _ hrun))
  dsimp only at hat
  rw [hrun] at hat
  simpa using hat

/-! ### A drop alone -/

/-- With nothing in between and no fault, the statements drop what `dropBlocking` drops. -/
theorem dropStatements_alone (setup : StagingSetup) {s : StagingNode} (h : s.stager.engine.Steady) (key : WindowKey)
    (covered : List OriginSeqRange) :
    let r := Prog.eval (fun o => StagingNode.exec setup o {}) (dropStatements key covered).run s
    r.1 = .ok (dropBlocking covered (s.db.tables key.tableName)).1 ∧
    r.2.db.tables key.tableName = (dropBlocking covered (s.db.tables key.tableName)).2 := by
  intro r
  have hasks := h.windowTable key
  change _ = (s.db.tables key.tableName).map _ at hasks
  rcases hrows : s.db.tables key.tableName with _ | rows
  · simp only [r, dropStatements, eval_ask, StagingNode.exec, hasks, hrows, Option.map_none]
    exact ⟨rfl, hrows⟩
  · rw [hrows] at hasks
    have hdb : s.stager.engine.db.tables key.tableName = some rows := hrows
    simp only [r, dropStatements, eval_ask, StagingNode.exec, hasks, Option.map_some,
      StagingNode.read_of_some _ hrows, eval_orThrow_ok, dropBlocking]
    split_ifs with hzero
    · obtain ⟨m, hm, htable⟩ := Option.map_eq_some_iff.mp hasks
      have htxn : StagingEngine.dropWindowTxn none key.tableName key s.stager.engine.db = .ok { s.stager.engine.db with
          tables := Function.update s.stager.engine.db.tables key.tableName none
          windows := s.stager.engine.db.windows.erase key } := by
        simp [StagingEngine.dropWindowTxn, hdb]
      rw [eval_ask]
      simp only [StagingNode.exec, StagingEngine.dropWindow, hm, htable, htxn, eval_orThrow_ok]
      exact ⟨rfl, Function.update_self ..⟩
    · rw [eval_ask]
      simp only [StagingNode.exec, StagingEngine.deleteCoveredRows, hdb, eval_orThrow_ok]
      exact ⟨rfl, Function.update_self ..⟩

/-! ### The protocol of a drop -/

def StagingOp.removes : StagingOp → Bool
  | .dropWindow _ | .deleteCoveredRows _ _ => true
  | _ => false

/-- The statements that only read the staged rows. -/
def StagingOp.reads : StagingOp → Bool
  | .windowTable _ | .countRows _ | .coverageRuns _ | .eventTimeBounds _ _ | .countSealed _ _ _ | .copySealed _ _ _
  | .countResidue _ _ => true
  | _ => false

/-- A drop goes for its own window with its own coverage, and takes the window only when it knows it clear. -/
def dropProto (key : WindowKey) (covered : List OriginSeqRange) : Protocol StagingOp StagingOp.Res Bool where
  pre o clear := match o with
    | .windowTable k => k = key ∧ clear = false
    | .countResidue table cov => table = key.tableName ∧ cov = covered ∧ clear = false
    | .dropWindow k => k = key ∧ clear = true
    | .deleteCoveredRows table cov => table = key.tableName ∧ cov = covered ∧ clear = false
    | .forgetClose _ => clear = false
    | _ => False
  next o _ := match o with
    | .windowTable _ => fun (r : Option String) clear => (∀ table, r = some table → table = key.tableName) ∧ clear = false
    | .countResidue _ _ => fun (r : Except String ℕ) clear => clear = true ↔ r = .ok 0
    | _ => fun _ clear => clear = false

/-- Nothing else removes rows. -/
def keepProto : Protocol StagingOp StagingOp.Res Bool where
  pre o _ := o.removes = false
  next _ _ _ _ := True

def StagingJob.proto : StagingJob → Protocol StagingOp StagingOp.Res Bool
  | .drop key covered => dropProto key covered
  | .stage _ | .sealing _ => keepProto

/-- A drop that has ended no longer claims the window clear. -/
def StagingJob.post : StagingJob → StagingAnswer → Bool → Prop
  | .drop _ _, _, clear => clear = false
  | .stage _, _, _ | .sealing _, _, _ => True

theorem ewp_dropStatements (key : WindowKey) (covered : List OriginSeqRange) :
    (dropProto key covered).Ewp (dropStatements key covered) (fun _ clear => clear = false) (fun _ clear => clear = false)
      false := by
  refine ewp_bind (ewp_ask ⟨rfl, rfl⟩ fun table clear htable => ?_)
  obtain ⟨hname, rfl⟩ := htable
  cases table with
  | none => exact ewp_pure rfl
  | some table =>
    obtain rfl := hname table rfl
    refine ewp_bind (ewp_ask ⟨rfl, rfl, rfl⟩ fun residue clear hclear => ?_)
    replace hclear : clear = true ↔ residue = .ok 0 := hclear
    refine ewp_bind (ewp_orThrow (fun n hn => ?_) fun text htext => ?_)
    · split_ifs with hzero
      · rw [hzero] at hn
        refine ewp_bind (ewp_ask ⟨rfl, hclear.mpr hn⟩ fun gone clear hgone => ?_)
        obtain rfl : clear = false := hgone
        refine ewp_bind (ewp_orThrow (fun _ _ => ?_) fun _ _ => rfl)
        exact ewp_bind (ewp_ask rfl fun _ clear hdone => ewp_pure hdone)
      · have hunclear : clear = false := by
          rw [← Bool.not_eq_true, hclear, hn]
          exact fun heq => hzero (Except.ok.inj heq)
        refine ewp_bind (ewp_ask ⟨rfl, rfl, hunclear⟩ fun deleted clear hdone => ?_)
        exact ewp_bind (ewp_orThrow (fun _ _ => ewp_pure hdone) fun _ _ => hdone)
    · rw [← Bool.not_eq_true, hclear, htext]
      exact fun heq => by cases heq

theorem ewp_stageBlocking (libs : StagerLibs) (batch : DecodedBatch) (k : Bool) :
    keepProto.Ewp (stageBlocking libs batch) (fun _ _ => True) (fun _ _ => True) k := by
  refine ewp_bind (ewp_ask rfl fun _ _ _ => ewp_bind (ewp_orThrow (fun _ _ => ?_) fun _ _ => trivial))
  refine ewp_bind (ewp_orThrow (fun recordBatches _ => ?_) fun _ _ => trivial)
  split_ifs
  · exact ewp_pure trivial
  · refine ewp_bind (ewp_ask rfl fun window _ _ => ewp_bind (ewp_ask rfl fun _ _ _ => ?_))
    exact ewp_orThrow (fun _ _ => trivial) fun _ _ => trivial

/-- A seal only reads. -/
theorem ewp_sealStatements {κ : Type} {P : Protocol StagingOp StagingOp.Res κ}
    (hreads : ∀ o k, o.reads = true → P.pre o k) (request : SealRequest) (k : κ) :
    P.Ewp (sealStatements request) (fun _ _ => True) (fun _ _ => True) k := by
  have hpre : ∀ {o : StagingOp} {k : κ}, o.reads = true → P.pre o k := hreads _ _
  refine ewp_bind (ewp_ask (hpre rfl) fun table _ _ => ?_)
  cases table with
  | none => exact ewp_throw trivial
  | some table =>
    refine ewp_bind (ewp_ask (hpre rfl) fun _ _ _ => ewp_bind (ewp_orThrow (fun total _ => ?_) fun _ _ => trivial))
    refine ewp_bind (ewp_ask (hpre rfl) fun _ _ _ => ewp_bind (ewp_orThrow (fun coverage _ => ?_) fun _ _ => trivial))
    refine ewp_bind (ewp_ask (hpre rfl) fun _ _ _ => ewp_bind (ewp_orThrow (fun bounds _ => ?_) fun _ _ => trivial))
    refine ewp_bind (ewp_ask (hpre rfl) fun _ _ _ => ewp_bind (ewp_orThrow (fun rows _ => ?_) fun _ _ => trivial))
    refine ewp_bind (ewp_ask (hpre rfl) fun _ _ _ => ewp_bind (ewp_orThrow (fun _ _ => ?_) fun _ _ => trivial))
    exact ewp_pure trivial

theorem removes_of_reads {o : StagingOp} (h : o.reads = true) : o.removes = false := by
  cases o with
  | dropWindow key => cases h
  | deleteCoveredRows table covered => cases h
  | _ => rfl

theorem wp_stagingProgram (libs : StagerLibs) (j : StagingJob) : j.proto.Wp (j.program libs) j.post false := by
  cases j with
  | stage batch => exact wp_map (wp_mono (fun _ _ _ => trivial) (ewp_stageBlocking libs batch false))
  | sealing request => exact wp_map (wp_mono (fun _ _ _ => trivial) (ewp_sealStatements (fun _ _ => removes_of_reads) request false))
  | drop key covered =>
    refine wp_map (wp_mono ?_ (ewp_dropStatements key covered))
    rintro (e | outcome) clear hclear
    · exact hclear
    · exact hclear

/-! ### The contract -/

/-- A drop of the window has been started that covers the row. -/
def Discharged (started : List (ℕ × StagingJob)) (key : WindowKey) (r : StagedRow) : Prop :=
  ∃ t covered, (t, .drop key covered) ∈ started ∧ r.CoveredBy covered

/-- Every row ever committed is staged, or a drop of its window covers it. -/
def Kept (p : StagingPool) : Prop :=
  ∀ key r, (key, r) ∈ p.shared.db.everStaged → r ∈ p.shared.db.staged key ∨ Discharged p.started key r

/-- A drop that claims the window clear finds covered rows in it only. -/
def StagingJob.Knows (db : HotDb) : StagingJob → Bool → Prop
  | .drop key covered, clear => clear = true → ∀ r ∈ db.staged key, r.CoveredBy covered
  | .stage _, _ | .sealing _, _ => True

theorem StagingJob.knows_false (db : HotDb) (j : StagingJob) : j.Knows db false := by
  cases j with
  | drop key covered => exact fun hclear => by cases hclear
  | stage batch => trivial
  | sealing request => trivial

/-- A drop that claims the window clear is about to take it. -/
theorem dropWindow_of_clear {key : WindowKey} {covered : List OriginSeqRange}
    {prog : Prog StagingOp StagingOp.Res StagingAnswer}
    (h : (dropProto key covered).Wp prog (StagingJob.drop key covered).post true) :
    ∃ next, prog = .call (.dropWindow key) next := by
  cases prog with
  | ret a => cases h
  | call o next =>
    have hpre := h.1
    cases o with
    | dropWindow k =>
      obtain ⟨rfl, -⟩ := hpre
      exact ⟨next, rfl⟩
    | windowTable k => cases hpre.2
    | countResidue table cov => cases hpre.2.2
    | deleteCoveredRows table cov => cases hpre.2.2
    | forgetClose k => cases hpre
    | _ => exact hpre.elim

section Step

variable {setup : StagingSetup} {s : StagingNode} {j : StagingJob} {o : StagingOp} {clear : Bool}

/-- A row that an operation takes away is covered by the drop that performs it. -/
theorem covered_of_leaves {key : WindowKey} {r : StagedRow} {fate : StagingFate} (hs : s.stager.engine.Steady)
    (hpre : j.proto.pre o clear) (hknows : j.Knows s.db clear) (hr : r ∈ s.db.staged key)
    (hgone : r ∉ (StagingNode.exec setup o fate s).2.db.staged key) :
    ∃ covered, j = .drop key covered ∧ r.CoveredBy covered := by
  obtain ⟨hs', hstep⟩ := exec_windows setup hs o fate
  rcases hstep.staged_of_mem hs.shelved hs'.shelved hr with hkept | rfl | ⟨cov, rfl, hcov⟩
  · exact absurd hkept hgone
  · cases j with
    | drop key' covered =>
      obtain ⟨rfl, hclear⟩ := hpre
      exact ⟨covered, rfl, hknows hclear r hr⟩
    | stage batch => cases hpre
    | sealing request => cases hpre
  · cases j with
    | drop key' covered =>
      obtain ⟨hname, rfl, -⟩ := hpre
      obtain rfl := WindowKey.tableName_injective hname
      exact ⟨cov, rfl, hcov⟩
    | stage batch => cases hpre
    | sealing request => cases hpre

/-- A drop that has counted no uncovered row knows the window clear. -/
theorem knows_exec (fate : StagingFate) (hs : s.stager.engine.Steady) (hpre : j.proto.pre o clear) :
    ∃ clear', j.Knows (StagingNode.exec setup o fate s).2.db clear' ∧
      j.proto.next o clear (StagingNode.exec setup o fate s).1 clear' := by
  cases j with
  | stage batch => exact ⟨false, trivial, trivial⟩
  | sealing request => exact ⟨false, trivial, trivial⟩
  | drop key covered =>
    cases o with
    | windowTable k =>
      obtain ⟨rfl, -⟩ := hpre
      refine ⟨false, StagingJob.knows_false _ _, fun table htable => ?_, rfl⟩
      change (s.stager.engine.writer.windows.lookup k).map (·.table) = some table at htable
      rw [hs.windowTable k] at htable
      obtain ⟨_, _, rfl⟩ := Option.map_eq_some_iff.mp htable
      rfl
    | countResidue table cov =>
      obtain ⟨rfl, rfl, -⟩ := hpre
      refine ⟨decide (s.read fate key.tableName (·.countP fun r => ¬ r.CoveredBy cov) = .ok 0), ?_, decide_eq_true_iff⟩
      intro hclear r hr
      obtain ⟨rows, hrows, hzero⟩ := StagingNode.read_eq_ok (of_decide_eq_true hclear)
      change r ∈ s.stager.engine.db.staged key at hr
      rw [hs.shelved.staged, show s.stager.engine.db.tables key.tableName = some rows from hrows, Option.getD_some] at hr
      simpa using List.countP_eq_zero.mp hzero.symm r hr
    | dropWindow k => exact ⟨false, StagingJob.knows_false _ _, rfl⟩
    | deleteCoveredRows table cov => exact ⟨false, StagingJob.knows_false _ _, rfl⟩
    | forgetClose k => exact ⟨false, StagingJob.knows_false _ _, rfl⟩
    | _ => exact hpre.elim

end Step

def dropContract (setup : StagingSetup) (origin : NodeId) :
    Contract (stagers setup) { shared := .fresh origin } Bool where
  ok := DropGuarded setup
  inv h := Kept (stagedBy setup origin h)
  knows h _ _ j clear := j.Knows (stagedBy setup origin h).shared.db clear
  proto := StagingJob.proto
  post := StagingJob.post
  done _ _ _ _ := True

section Contract

variable {setup : StagingSetup} {origin : NodeId} {h : List StagingEvent} {e : StagingEvent}

/-- Where the database stands, a row that was kept is kept. -/
theorem kept_of_db (hkept : Kept (stagedBy setup origin h))
    (hdb : (stagedBy setup origin (h ++ [e])).shared.db = (stagedBy setup origin h).shared.db) :
    Kept (stagedBy setup origin (h ++ [e])) := by
  intro key r hr
  rw [hdb] at hr ⊢
  refine (hkept key r hr).imp id ?_
  rintro ⟨t, covered, hstarted, hcovered⟩
  rw [stagedBy_concat]
  exact ⟨t, covered, (started_step (stagers setup) _ e).subset hstarted, hcovered⟩

/-- An operation that keeps to its protocol keeps every row that no drop covers. -/
theorem kept_exec {t n : ℕ} {c : StagingFate} {j : StagingJob} {o : StagingOp} {clear : Bool}
    {next : o.Res → Prog StagingOp StagingOp.Res StagingAnswer} (hkept : Kept (stagedBy setup origin h))
    (hrun : (stagedBy setup origin h).running t = some ⟨n, j, .call o next⟩) (hpre : j.proto.pre o clear)
    (hknows : j.Knows (stagedBy setup origin h).shared.db clear) :
    Kept (stagedBy setup origin (h ++ [.act t c])) := by
  have hs := steady_stagedBy setup origin h
  have hstarted : (stagedBy setup origin h).started ⊆ (stagedBy setup origin (h ++ [.act t c])).started := by
    rw [stagedBy_concat]
    exact (started_step (stagers setup) _ _).subset
  obtain ⟨hs', hstep⟩ := exec_windows setup hs o c
  intro key r hr
  rw [shared_stagedBy_act hrun] at hr ⊢
  rcases hstep.mem_everStaged hs.shelved hs'.shelved hr with hold | hnew
  · rcases hkept key r hold with hstaged | ⟨u, covered, hu, hcovered⟩
    · by_cases hgone : r ∈ (StagingNode.exec setup o c (stagedBy setup origin h).shared).2.db.staged key
      · exact .inl hgone
      · obtain ⟨covered, rfl, hcovered⟩ := covered_of_leaves hs hpre hknows hstaged hgone
        exact .inr ⟨t, covered, hstarted (List.mem_of_getElem? (numbered_stagedBy setup origin h t _ hrun)), hcovered⟩
    · exact .inr ⟨u, covered, hstarted hu, hcovered⟩
  · exact .inl hnew

theorem dropContract_sound (setup : StagingSetup) (origin : NodeId) : (dropContract setup origin).Sound where
  init := fun key r hr => by cases hr
  start := by
    intro h t j hkept _ _ _
    exact ⟨false, StagingJob.knows_false _ _, wp_stagingProgram setup.libs j⟩
  exec := by
    intro h t c n j o next clear hkept _ hrun hknows hpre
    refine ⟨kept_exec hkept hrun hpre hknows, ?_⟩
    simp only [dropContract, shared_stagedBy_act hrun]
    exact knows_exec c (steady_stagedBy setup origin h) hpre
  idle := by
    intro h e hkept _ heq
    refine kept_of_db hkept ?_
    rw [stagedBy_concat]
    exact congrArg StagingNode.db heq
  env := by
    intro h v hkept _
    refine kept_of_db hkept ?_
    rw [stagedBy_concat]
    exact db_move v _
  stable := by
    rintro h e t ⟨n, j, prog⟩ clear hkept _ hok hrun _ hwp hknows
    cases j with
    | stage batch => trivial
    | sealing request => trivial
    | drop key covered =>
      intro hclear r hr
      subst hclear
      obtain ⟨next, rfl⟩ := dropWindow_of_clear hwp
      change r ∈ (stagedBy setup origin (h ++ [e])).shared.db.staged key at hr
      rw [stagedBy_concat] at hr
      rcases hok.staged (numbered_stagedBy setup origin h) hrun r hr with hold | hcovered
      · exact hknows rfl r hold
      · exact hcovered
  ret := fun _ _ _ _ _ _ _ _ _ _ => trivial
  done_stable := fun _ _ _ _ _ _ _ => trivial

end Contract

/-- In a run where no event brings an uncovered row into a window that a drop has found clear and not yet taken: every
    row ever committed is staged unless a drop of its window covers it, and a row leaves its window only in a step of
    a drop of the window that covers it. -/
theorem uncovered_row_stays (setup : StagingSetup) (origin : NodeId) (es : List StagingEvent)
    (hes : (stagers setup).Admissible (DropGuarded setup) { shared := .fresh origin } es) :
    (∀ key r, (key, r) ∈ (stagedBy setup origin es).shared.db.everStaged →
      (∀ t covered, (t, .drop key covered) ∈ (stagedBy setup origin es).started → ¬ r.CoveredBy covered) →
      r ∈ (stagedBy setup origin es).shared.db.staged key) ∧
    (∀ es' t c, es' ++ [.act t c] <+: es → ∀ key, ∀ r ∈ (stagedBy setup origin es').shared.db.staged key,
      r ∉ (stagedBy setup origin (es' ++ [.act t c])).shared.db.staged key →
      ∃ n covered prog, (stagedBy setup origin es').running t = some ⟨n, .drop key covered, prog⟩ ∧
        r.CoveredBy covered) := by
  have hvalid : ∀ fs, fs <+: es → (dropContract setup origin).Valid fs := by
    rintro fs ⟨more, rfl⟩
    exact (dropContract_sound setup origin).valid_run (fun _ => rfl) rfl fs (admissible_append.mp hes).1
  constructor
  · intro key r hr huncovered
    refine ((hvalid es (List.prefix_refl _)).inv key r hr).resolve_right ?_
    rintro ⟨t, covered, hstarted, hcovered⟩
    exact huncovered t covered hstarted hcovered
  · intro es' t c hpre key r hr hgone
    have hv := hvalid es' ((List.prefix_append _ _).trans hpre)
    rw [stagedBy_concat] at hgone
    rcases shared_step (stagers setup) (stagedBy setup origin es') (.act t c) with
      heq | ⟨_, _, n, j, o, next, hact, hrun, heq⟩ | ⟨v, hact, -⟩
    · rw [heq] at hgone
      exact absurd hr hgone
    · cases hact
      obtain ⟨clear, hknows, hwp⟩ := hv.threads t _ hrun
      rw [heq] at hgone
      obtain ⟨covered, rfl, hcovered⟩ := covered_of_leaves (steady_stagedBy setup origin es') hwp.1 hknows hr hgone
      exact ⟨n, covered, _, hrun, hcovered⟩
    · cases hact

/-- A late row lands before the drop counts: the drop keeps it and the window. -/
theorem uncovered_row_stays_late :
    let es := stageAt 0 0 "k1" ++ .start 1 (.stage (oneRowBatch "k2" 0)) :: stepsAt 1 2 0 ++ stageAt 2 1 "k3" ++
      stepsAt 1 2 1 ++ .start 3 (.drop firstWindow [⟨⟨"node-1"⟩, 1, 1⟩]) :: stepsAt 3 4 1
    ⟨⟨"node-1"⟩, 3, [("ts", .timestamp 0)]⟩ ∈ (stagedBy oneRowSetup ⟨"node-1"⟩ es).shared.db.staged firstWindow := by
  intro es
  obtain ⟨hstays, -⟩ := uncovered_row_stays oneRowSetup ⟨"node-1"⟩ es (by decide +kernel)
  refine hstays firstWindow ⟨⟨"node-1"⟩, 3, [("ts", .timestamp 0)]⟩ (by decide +kernel) fun t covered hdrop => ?_
  have hlast : (stagedBy oneRowSetup ⟨"node-1"⟩ es).started = [(0, .stage (oneRowBatch "k1" 0)),
      (1, .stage (oneRowBatch "k2" 0)), (2, .stage (oneRowBatch "k3" 1)),
      (3, .drop firstWindow [⟨⟨"node-1"⟩, 1, 1⟩])] := by decide +kernel
  rw [hlast] at hdrop
  simp only [List.mem_cons, Prod.mk.injEq, reduceCtorEq, and_false, StagingJob.drop.injEq, List.not_mem_nil, or_false,
    false_or] at hdrop
  rw [hdrop.2.2]
  decide

/-- The same late row lands between the count and the removal, and is lost. -/
theorem late_row_dropped :
    let es := stageAt 0 0 "k1" ++ .start 1 (.stage (oneRowBatch "k2" 0)) :: stepsAt 1 2 0 ++ stageAt 2 1 "k3" ++
      .start 3 (.drop firstWindow [⟨⟨"node-1"⟩, 1, 1⟩]) :: stepsAt 3 2 1 ++ stepsAt 1 2 1 ++ stepsAt 3 3 1
    let r : StagedRow := ⟨⟨"node-1"⟩, 3, [("ts", .timestamp 0)]⟩
    (3, .drop firstWindow [⟨⟨"node-1"⟩, 1, 1⟩], .dropped (.ok .dropped)) ∈
      (stagedBy oneRowSetup ⟨"node-1"⟩ es).returned ∧
    (firstWindow, r) ∈ (stagedBy oneRowSetup ⟨"node-1"⟩ es).shared.db.everStaged ∧
    ¬ r.CoveredBy [⟨⟨"node-1"⟩, 1, 1⟩] ∧
    (stagedBy oneRowSetup ⟨"node-1"⟩ es).shared.db.staged firstWindow = [] := by
  decide +kernel

end Duckspout
