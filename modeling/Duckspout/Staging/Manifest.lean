import Duckspout.Staging.Windows

/-! A seal next to staging. The count of the window, its coverage, its event-time bounds, the count of the sealed rows
    and the copy are statements of their own, and the part describes the file only where the window stands
    still from the first that matters to the copy. -/

namespace Duckspout

open Threads Protocol

/-- What the event may do to the windows that are being sealed: no rows are added to one between its count and its
    coverage scan, and nothing changes one between its coverage scan and its copy. -/
def SealQuiet (setup : StagingSetup) (p : StagingPool) (e : StagingEvent) : Prop :=
  (p.started.all fun x => match p.running x.1 with
    | some ⟨_, .sealing _, .call (.coverageRuns table) _⟩ =>
      ((((stagers setup).step p e).shared.db.tables table).getD []).length ≤ ((p.shared.db.tables table).getD []).length
    | some ⟨_, .sealing _, .call (.eventTimeBounds table _) _⟩ | some ⟨_, .sealing _, .call (.countSealed table _ _) _⟩
    | some ⟨_, .sealing _, .call (.copySealed table _ _) _⟩ =>
      ((stagers setup).step p e).shared.db.tables table = p.shared.db.tables table
    | _ => true) = true

instance (setup : StagingSetup) (p : StagingPool) (e : StagingEvent) : Decidable (SealQuiet setup p e) :=
  inferInstanceAs (Decidable (_ = true))

/-! ### A seal alone -/

/-- With nothing in between and no fault, the statements return the part of `sealBlocking`, and its rows are in the
    scratch file. -/
theorem sealStatements_alone (setup : StagingSetup) {s : StagingNode} (h : s.stager.engine.Steady)
    (request : SealRequest) :
    let r := Prog.eval (fun o => StagingNode.exec setup o {}) (sealStatements request).run s
    r.1 = (sealBlocking request (s.db.tables request.key.tableName)).map (·.1) ∧
    ∀ part rows, sealBlocking request (s.db.tables request.key.tableName) = .ok (part, rows) →
      r.2.scratch part.path = some rows := by
  intro r
  have hasks := h.windowTable request.key
  change _ = (s.db.tables request.key.tableName).map _ at hasks
  rcases hrows : s.db.tables request.key.tableName with _ | rows
  · simp only [r, sealStatements, eval_ask, StagingNode.exec, hasks, hrows, Option.map_none]
    exact ⟨rfl, fun part rows hpart => by cases hpart⟩
  · simp only [r, sealStatements, eval_ask, StagingNode.exec, hasks, hrows, Option.map_some,
      StagingNode.read_of_some _ hrows, eval_orThrow_ok]
    refine ⟨rfl, fun part rows hpart => ?_⟩
    cases hpart
    exact Function.update_self ..

/-! ### Counting sealed rows -/

theorem length_sealedRows_le (dedupKey : Option (List String)) (rows : List StagedRow) :
    (sealedRows dedupKey rows).length ≤ rows.length := by
  cases dedupKey with
  | none => exact Nat.le_refl _
  | some columns =>
    have hfold : ∀ (l kept : List StagedRow), (l.foldl (fun kept r =>
        if kept.any fun k => columns.map k.cell = columns.map r.cell then kept else kept ++ [r]) kept).length ≤
          kept.length + l.length := by
      intro l
      induction l with
      | nil => exact fun kept => Nat.le_refl _
      | cons r l ih =>
        intro kept
        rw [List.foldl_cons, List.length_cons]
        split_ifs
        · exact (ih kept).trans (by omega)
        · refine (ih (kept ++ [r])).trans ?_
          rw [List.length_append, List.length_singleton]
          omega
    refine (hfold (rows.insertionSort StagedRow.le) []).trans ?_
    simp [List.length_insertionSort]

/-- A difference of counts, where the first is not below the second. -/
theorem rowCount_sub {rows rows' : List StagedRow} (h : rows'.length ≤ rows.length) :
    rowCount rows - rowCount rows' = Fin.ofNat (2 ^ 64) (rows.length - rows'.length) := by
  refine Fin.ext ?_
  simp only [rowCount, Fin.sub_def, Fin.ofNat]
  omega

/-! ### The protocol of a seal -/

/-- How far a seal has come: `before` are the rows it counted, `rows` those it scanned. -/
inductive SealPhase where
  | opening
  | named
  | counted (before : List StagedRow)
  | covered (before rows : List StagedRow)
  | bounded (before rows : List StagedRow)
  | sized (before rows : List StagedRow)
  | copied (before rows : List StagedRow)
  | ended

namespace SealRequest

variable (request : SealRequest)

/-- The scratch file of the window. -/
def scratchPath : String := sealScratchDir ++ "/" ++ request.key.tableName ++ ".parquet"

/-- The part of a window with these rows, of which `before` were counted. -/
def part (before rows : List StagedRow) : SealedPart where
  path := request.scratchPath
  rows := rowCount (sealedRows request.dedupKey rows)
  eventTimeMinMs := (eventTimeBounds request.eventTimeColumn rows).1
  eventTimeMaxMs := (eventTimeBounds request.eventTimeColumn rows).2
  dedupRemoved := rowCount before - rowCount (sealedRows request.dedupKey rows)
  originCoverage := coverageRuns rows

/-- The statements of a seal, one after another. -/
def proto : Protocol StagingOp StagingOp.Res SealPhase where
  pre o k := match k with
    | .opening => o = .windowTable request.key
    | .named => o = .countRows request.key.tableName
    | .counted _ => o = .coverageRuns request.key.tableName
    | .covered _ _ => o = .eventTimeBounds request.key.tableName request.eventTimeColumn
    | .bounded before _ => o = .countSealed request.key.tableName request.dedupKey (rowCount before)
    | .sized _ _ => o = .copySealed request.key.tableName request.scratchPath request.dedupKey
    | .copied _ _ | .ended => False
  next o k := match o with
    | .windowTable _ => fun (r : Option String) k' => match r with
      | some table => table = request.key.tableName ∧ k' = .named
      | none => k' = .ended
    | .countRows _ => fun (r : Except String U64) k' => match r with
      | .ok total => ∃ before, total = rowCount before ∧ k' = .counted before
      | .error _ => k' = .ended
    | .coverageRuns _ => fun (r : Except String (List OriginSeqRange)) k' => match k, r with
      | .counted before, .ok coverage => ∃ rows, coverage = Duckspout.coverageRuns rows ∧ k' = .covered before rows
      | _, _ => k' = .ended
    | .eventTimeBounds _ column => fun (r : Except String (ℤ × ℤ)) k' => match k, r with
      | .covered before rows, .ok bounds => bounds = Duckspout.eventTimeBounds column rows ∧ k' = .bounded before rows
      | _, _ => k' = .ended
    | .countSealed _ dedupKey _ => fun (r : Except String U64) k' => match k, r with
      | .bounded before rows, .ok n => n = rowCount (sealedRows dedupKey rows) ∧ k' = .sized before rows
      | _, _ => k' = .ended
    | .copySealed _ _ _ => fun (r : Except String Unit) k' => match k, r with
      | .sized before rows, .ok _ => k' = .copied before rows
      | _, _ => k' = .ended
    | _ => fun _ k' => k' = .ended

end SealRequest

/-- A part is returned once its rows are copied. -/
def SealRequest.Post (request : SealRequest) : StagingAnswer → SealPhase → Prop
  | .sealed (.ok part), k => ∃ before rows, k = .copied before rows ∧ part = request.part before rows
  | _, k => k = .ended

theorem SealRequest.post_phase {request : SealRequest} {a : StagingAnswer} {k : SealPhase} (h : request.Post a k) :
    k = .ended ∨ ∃ before rows, k = .copied before rows := by
  simp only [SealRequest.Post] at h
  split at h
  · obtain ⟨before, rows, hk, -⟩ := h
    exact .inr ⟨before, rows, hk⟩
  · exact .inl h

theorem ewp_sealPart (request : SealRequest) :
    request.proto.Ewp (sealStatements request)
      (fun part k => ∃ before rows, k = .copied before rows ∧ part = request.part before rows) (fun _ k => k = .ended)
      .opening := by
  refine ewp_bind (ewp_ask rfl fun table k htable => ?_)
  cases table with
  | none =>
    obtain rfl : k = .ended := htable
    exact ewp_throw rfl
  | some table =>
    obtain ⟨rfl, rfl⟩ : table = request.key.tableName ∧ k = .named := htable
    refine ewp_bind (ewp_ask rfl fun total k htotal => ?_)
    refine ewp_bind (ewp_orThrow (fun n hn => ?_) fun _ he => by subst he; exact htotal)
    subst hn
    obtain ⟨before, rfl, rfl⟩ : ∃ before, n = rowCount before ∧ k = .counted before := htotal
    refine ewp_bind (ewp_ask rfl fun coverage k hcoverage => ?_)
    refine ewp_bind (ewp_orThrow (fun cov hcov => ?_) fun _ he => by subst he; exact hcoverage)
    subst hcov
    obtain ⟨rows, rfl, rfl⟩ : ∃ rows, cov = coverageRuns rows ∧ k = .covered before rows := hcoverage
    refine ewp_bind (ewp_ask rfl fun bounds k hbounds => ?_)
    refine ewp_bind (ewp_orThrow (fun b hb => ?_) fun _ he => by subst he; exact hbounds)
    subst hb
    obtain ⟨rfl, rfl⟩ : b = eventTimeBounds request.eventTimeColumn rows ∧ k = .bounded before rows := hbounds
    refine ewp_bind (ewp_ask rfl fun count k hcount => ?_)
    refine ewp_bind (ewp_orThrow (fun m hm => ?_) fun _ he => by subst he; exact hcount)
    subst hm
    obtain ⟨rfl, rfl⟩ : m = rowCount (sealedRows request.dedupKey rows) ∧ k = .sized before rows := hcount
    refine ewp_bind (ewp_ask rfl fun copied k hcopied => ?_)
    refine ewp_bind (ewp_orThrow (fun _ hdone => ?_) fun _ he => by subst he; exact hcopied)
    subst hdone
    exact ewp_pure ⟨before, rows, hcopied, rfl⟩

def StagingJob.sealProto : StagingJob → Protocol StagingOp StagingOp.Res SealPhase
  | .sealing request => request.proto
  | .stage _ | .drop _ _ => Protocol.free StagingOp StagingOp.Res SealPhase

def StagingJob.SealPost : StagingJob → StagingAnswer → SealPhase → Prop
  | .sealing request => request.Post
  | .stage _ | .drop _ _ => fun _ _ => True

theorem wp_sealProgram (libs : StagerLibs) (j : StagingJob) : j.sealProto.Wp (j.program libs) j.SealPost .opening := by
  cases j with
  | stage batch => exact wp_free _ _
  | drop key covered => exact wp_free _ _
  | sealing request =>
    refine wp_map (wp_mono ?_ (ewp_sealPart request))
    rintro (e | part) k hk
    · exact hk
    · exact hk

/-! ### What a seal knows -/

section Knows

variable (setup : StagingSetup) (origin : NodeId) (h : List StagingEvent) (n : ℕ) (request : SealRequest)

/-- Call `n` has counted these rows of its window. -/
def Counted (before : List StagedRow) : Prop :=
  ∃ s s', (stagers setup).Performs { shared := .fresh origin } h n (.countRows request.key.tableName) s s' ∧
    s.db.tables request.key.tableName = some before

/-- Call `n` has copied these rows of its window, less the duplicates, to its scratch file. -/
def Copied (rows : List StagedRow) : Prop :=
  ∃ s s', (stagers setup).Performs { shared := .fresh origin } h n
      (.copySealed request.key.tableName request.scratchPath request.dedupKey) s s' ∧
    s.db.tables request.key.tableName = some rows ∧
    s'.scratch request.scratchPath = some (sealedRows request.dedupKey rows)

/-- From the count to the scan there are no more rows than were counted; from then on the rows are those scanned. -/
def SealPhase.Knows : SealPhase → Prop
  | .opening | .named | .ended => True
  | .counted before => Counted setup origin h n request before ∧
    (((stagedBy setup origin h).shared.db.tables request.key.tableName).getD []).length ≤ before.length
  | .covered before rows | .bounded before rows | .sized before rows => Counted setup origin h n request before ∧
    (stagedBy setup origin h).shared.db.tables request.key.tableName = some rows ∧ rows.length ≤ before.length
  | .copied before rows => Counted setup origin h n request before ∧ Copied setup origin h n request rows ∧
    rows.length ≤ before.length

end Knows

section Step

variable {setup : StagingSetup} {origin : NodeId} {h : List StagingEvent} {e : StagingEvent} {n : ℕ}
  {request : SealRequest}

theorem Counted.concat {before : List StagedRow} (hc : Counted setup origin h n request before) :
    Counted setup origin (h ++ [e]) n request before := by
  obtain ⟨s, s', hp, hbefore⟩ := hc
  exact ⟨s, s', hp.concat, hbefore⟩

theorem Copied.concat {rows : List StagedRow} (hc : Copied setup origin h n request rows) :
    Copied setup origin (h ++ [e]) n request rows := by
  obtain ⟨s, s', hp, hrest⟩ := hc
  exact ⟨s, s', hp.concat, hrest⟩

/-- What a seal knows survives a quiet event. -/
theorem SealQuiet.knows {t : ℕ} {k : SealPhase} {prog : Prog StagingOp StagingOp.Res StagingAnswer}
    (hok : SealQuiet setup (stagedBy setup origin h) e)
    (hrun : (stagedBy setup origin h).running t = some ⟨n, .sealing request, prog⟩)
    (hwp : request.proto.Wp prog request.Post k) (hk : k.Knows setup origin h n request) :
    k.Knows setup origin (h ++ [e]) n request := by
  have hat := List.all_eq_true.mp hok (t, .sealing request)
    (List.mem_of_getElem? (numbered_stagedBy setup origin h t _ hrun))
  dsimp only at hat
  rw [hrun, ← stagedBy_concat] at hat
  -- before the copy is done, the program stands before the statement of its phase
  have hnext : ∀ {o : StagingOp}, (∀ o', request.proto.pre o' k → o' = o) → k ≠ .ended →
      (∀ before rows, k ≠ .copied before rows) → ∃ next, prog = .call o next := by
    intro o hpre hended hcopied
    cases prog with
    | ret a =>
      rcases SealRequest.post_phase hwp with rfl | ⟨before, rows, rfl⟩
      · exact absurd rfl hended
      · exact absurd rfl (hcopied before rows)
    | call o' next =>
      obtain rfl := hpre o' hwp.1
      exact ⟨next, rfl⟩
  cases k with
  | opening => trivial
  | named => trivial
  | ended => trivial
  | copied before rows => exact ⟨hk.1.concat, hk.2.1.concat, hk.2.2⟩
  | counted before =>
    obtain ⟨next, rfl⟩ := hnext (fun _ hpre => hpre) (by simp) (by simp)
    exact ⟨hk.1.concat, (of_decide_eq_true hat).trans hk.2⟩
  | covered before rows =>
    obtain ⟨next, rfl⟩ := hnext (fun _ hpre => hpre) (by simp) (by simp)
    exact ⟨hk.1.concat, (of_decide_eq_true hat).trans hk.2.1, hk.2.2⟩
  | bounded before rows =>
    obtain ⟨next, rfl⟩ := hnext (fun _ hpre => hpre) (by simp) (by simp)
    exact ⟨hk.1.concat, (of_decide_eq_true hat).trans hk.2.1, hk.2.2⟩
  | sized before rows =>
    obtain ⟨next, rfl⟩ := hnext (fun _ hpre => hpre) (by simp) (by simp)
    exact ⟨hk.1.concat, (of_decide_eq_true hat).trans hk.2.1, hk.2.2⟩

/-- What a seal reads after its scan it reads of the rows it scanned. -/
theorem eq_of_scanned {c : StagingFate} {before rows : List StagedRow} {α : Type} {f : List StagedRow → α} {a : α}
    (hk : SealPhase.Knows setup origin h n request (.covered before rows))
    (hread : (stagedBy setup origin h).shared.read c request.key.tableName f = .ok a) : a = f rows := by
  obtain ⟨rows', hrows', rfl⟩ := StagingNode.read_eq_ok hread
  obtain rfl : rows' = rows := Option.some.inj (hrows'.symm.trans hk.2.1)
  rfl

/-- A statement that only reads leaves a seal what it knows of the rows it scanned. -/
theorem scanned_concat {before rows : List StagedRow}
    (hk : SealPhase.Knows setup origin h n request (.covered before rows))
    (hshared : (stagedBy setup origin (h ++ [e])).shared = (stagedBy setup origin h).shared) :
    SealPhase.Knows setup origin (h ++ [e]) n request (.covered before rows) := by
  refine ⟨hk.1.concat, ?_, hk.2.2⟩
  rw [hshared]
  exact hk.2.1

/-- Each statement of a seal takes it to the next phase, or ends it. -/
theorem knows_sealExec {t : ℕ} {c : StagingFate} {o : StagingOp} {k : SealPhase}
    {next : o.Res → Prog StagingOp StagingOp.Res StagingAnswer}
    (hrun : (stagedBy setup origin h).running t = some ⟨n, .sealing request, .call o next⟩)
    (hk : k.Knows setup origin h n request) (hpre : request.proto.pre o k) :
    ∃ k', SealPhase.Knows setup origin (h ++ [.act t c]) n request k' ∧
      request.proto.next o k (StagingNode.exec setup o c (stagedBy setup origin h).shared).1 k' := by
  have hperforms := performs_act (c := c) hrun
  have hshared := shared_stagedBy_act (c := c) hrun
  cases k with
  | opening =>
    obtain rfl : o = .windowTable request.key := hpre
    have hasks := (steady_stagedBy setup origin h).windowTable request.key
    rcases hrows : (stagedBy setup origin h).shared.stager.engine.db.tables request.key.tableName with _ | rows
    · refine ⟨.ended, trivial, ?_⟩
      simp only [StagingNode.exec, hasks, hrows, Option.map_none]
      rfl
    · refine ⟨.named, trivial, ?_⟩
      simp only [StagingNode.exec, hasks, hrows, Option.map_some]
      exact ⟨rfl, rfl⟩
  | named =>
    obtain rfl : o = .countRows request.key.tableName := hpre
    rcases hread : (stagedBy setup origin h).shared.read c request.key.tableName rowCount with text | total
    · refine ⟨.ended, trivial, ?_⟩
      simp only [StagingNode.exec, hread]
      rfl
    · obtain ⟨before, hbefore, rfl⟩ := StagingNode.read_eq_ok hread
      refine ⟨.counted before, ⟨⟨_, _, hperforms, hbefore⟩, ?_⟩, ?_⟩
      · rw [hshared]
        exact (congrArg (fun rows => (rows.getD []).length) hbefore).le
      · simp only [StagingNode.exec, hread]
        exact ⟨before, rfl, rfl⟩
  | counted before =>
    obtain rfl : o = .coverageRuns request.key.tableName := hpre
    rcases hread : (stagedBy setup origin h).shared.read c request.key.tableName coverageRuns with text | coverage
    · refine ⟨.ended, trivial, ?_⟩
      simp only [StagingNode.exec, hread]
      rfl
    · obtain ⟨rows, hrows, rfl⟩ := StagingNode.read_eq_ok hread
      refine ⟨.covered before rows, ⟨hk.1.concat, ?_, ?_⟩, ?_⟩
      · rw [hshared]
        exact hrows
      · simpa [hrows] using hk.2
      · simp only [StagingNode.exec, hread]
        exact ⟨rows, rfl, rfl⟩
  | covered before rows =>
    obtain rfl : o = .eventTimeBounds request.key.tableName request.eventTimeColumn := hpre
    rcases hread : (stagedBy setup origin h).shared.read c request.key.tableName
      (eventTimeBounds request.eventTimeColumn) with text | bounds
    · refine ⟨.ended, trivial, ?_⟩
      simp only [StagingNode.exec, hread]
      rfl
    · obtain rfl := eq_of_scanned hk hread
      refine ⟨.bounded before rows, scanned_concat hk hshared, ?_⟩
      simp only [StagingNode.exec, hread]
      exact ⟨rfl, rfl⟩
  | bounded before rows =>
    obtain rfl : o = .countSealed request.key.tableName request.dedupKey (rowCount before) := hpre
    rcases hread : (stagedBy setup origin h).shared.read c request.key.tableName
      (fun rows => rowCount (sealedRows request.dedupKey rows)) with text | count
    · refine ⟨.ended, trivial, ?_⟩
      simp only [StagingNode.exec, hread]
      rfl
    · obtain rfl := eq_of_scanned hk hread
      refine ⟨.sized before rows, scanned_concat hk hshared, ?_⟩
      simp only [StagingNode.exec, hread]
      exact ⟨rfl, rfl⟩
  | sized before rows =>
    obtain rfl : o = .copySealed request.key.tableName request.scratchPath request.dedupKey := hpre
    rcases hread : (stagedBy setup origin h).shared.read c request.key.tableName (sealedRows request.dedupKey) with
      text | copied
    · refine ⟨.ended, trivial, ?_⟩
      simp only [StagingNode.exec, hread]
      rfl
    · obtain rfl := eq_of_scanned hk hread
      refine ⟨.copied before rows, ⟨hk.1.concat, ⟨_, _, hperforms, hk.2.1, ?_⟩, hk.2.2⟩, ?_⟩
      · change (StagingNode.exec setup _ c (stagedBy setup origin h).shared).2.scratch _ = _
        simp only [StagingNode.exec, hread, Function.update_self]
      · simp only [StagingNode.exec, hread]
        rfl
  | copied before rows => exact hpre.elim
  | ended => exact hpre.elim

end Step

/-! ### The contract -/

/-- The part is that of the rows it copied, and of the rows it counted there are at least as many. -/
def SealRequest.Describes (setup : StagingSetup) (origin : NodeId) (h : List StagingEvent) (n : ℕ)
    (request : SealRequest) (part : SealedPart) : Prop :=
  ∃ before rows, Counted setup origin h n request before ∧ Copied setup origin h n request rows ∧
    rows.length ≤ before.length ∧ part = request.part before rows

def sealContract (setup : StagingSetup) (origin : NodeId) :
    Contract (stagers setup) { shared := .fresh origin } SealPhase where
  ok := SealQuiet setup
  inv _ := True
  knows h _ n j k := match j with
    | .sealing request => k.Knows setup origin h n request
    | _ => True
  proto := StagingJob.sealProto
  post := StagingJob.SealPost
  done h n j a := match j, a with
    | .sealing request, .sealed (.ok part) => request.Describes setup origin h n part
    | _, _ => True

theorem sealContract_sound (setup : StagingSetup) (origin : NodeId) : (sealContract setup origin).Sound where
  init := trivial
  start := by
    intro h t j _ _ _ _
    refine ⟨.opening, ?_, wp_sealProgram setup.libs j⟩
    cases j with
    | sealing request => trivial
    | stage batch => trivial
    | drop key covered => trivial
  exec := by
    intro h t c n j o next k _ _ hrun hk hpre
    refine ⟨trivial, ?_⟩
    cases j with
    | sealing request => exact knows_sealExec hrun hk hpre
    | stage batch => exact ⟨k, trivial, trivial⟩
    | drop key covered => exact ⟨k, trivial, trivial⟩
  idle := fun _ _ _ _ _ => trivial
  env := fun _ _ _ _ => trivial
  stable := by
    rintro h e t ⟨n, j, prog⟩ k _ _ hok hrun _ hwp hk
    cases j with
    | sealing request => exact SealQuiet.knows hok hrun hwp hk
    | stage batch => trivial
    | drop key covered => trivial
  ret := by
    intro h t c n j a k _ hk hpost
    cases j with
    | sealing request =>
      rcases a with r | (e | part) | r
      · trivial
      · trivial
      · obtain ⟨before, rows, rfl, rfl⟩ := hpost
        exact ⟨before, rows, hk.1.concat, hk.2.1.concat, hk.2.2, rfl⟩
      · trivial
    | stage batch => trivial
    | drop key covered => trivial
  done_stable := by
    intro h e n j a _ hdone
    cases j with
    | sealing request =>
      rcases a with r | (e | part) | r
      · trivial
      · trivial
      · obtain ⟨before, rows, hcounted, hcopied, hrest⟩ := hdone
        exact ⟨before, rows, hcounted.concat, hcopied.concat, hrest⟩
      · trivial
    | stage batch => trivial
    | drop key covered => trivial

/-- In a run where a window that is being sealed gets no rows between its count and its coverage scan and does not change
    between its coverage scan and its copy, a part that is returned has the coverage and the bounds of the rows in its
    file, before deduplication, and no fewer rows were counted than are in the file. -/
theorem sealed_part_describes_file (setup : StagingSetup) (origin : NodeId) (es : List StagingEvent)
    (hes : (stagers setup).Admissible (SealQuiet setup) { shared := .fresh origin } es) (n : ℕ) (request : SealRequest)
    (part : SealedPart)
    (hpart : (n, .sealing request, .sealed (.ok part)) ∈ (stagedBy setup origin es).returned) :
    ∃ before rows s₀ s₀' s₁ s₁',
      (stagers setup).Performs { shared := .fresh origin } es n (.countRows request.key.tableName) s₀ s₀' ∧
      s₀.db.tables request.key.tableName = some before ∧
      (stagers setup).Performs { shared := .fresh origin } es n
        (.copySealed request.key.tableName part.path request.dedupKey) s₁ s₁' ∧
      s₁.db.tables request.key.tableName = some rows ∧
      s₁'.scratch part.path = some (sealedRows request.dedupKey rows) ∧
      part.originCoverage = coverageRuns rows ∧
      (part.eventTimeMinMs, part.eventTimeMaxMs) = eventTimeBounds request.eventTimeColumn rows ∧
      part.rows = rowCount (sealedRows request.dedupKey rows) ∧
      (sealedRows request.dedupKey rows).length ≤ before.length ∧
      part.dedupRemoved = Fin.ofNat (2 ^ 64) (before.length - (sealedRows request.dedupKey rows).length) := by
  have hv := (sealContract_sound setup origin).valid_run (fun _ => rfl) rfl es hes
  obtain ⟨before, rows, ⟨s₀, s₀', hcount, hbefore⟩, ⟨s₁, s₁', hcopy, hrows, hfile⟩, hle, rfl⟩ := hv.results _ hpart
  have hsealed := (length_sealedRows_le request.dedupKey rows).trans hle
  exact ⟨before, rows, s₀, s₀', s₁, s₁', hcount, hbefore, hcopy, hrows, hfile, rfl, rfl, rfl, hsealed,
    rowCount_sub hsealed⟩

/-- The seal of the first window of the small setup. -/
def firstSeal : SealRequest := ⟨⟨"otlp_logs"⟩, ⟨"acme.0"⟩, 0, "ts", none⟩

/-- A late row lands before the seal begins, and the part has it. -/
theorem sealed_part_describes_file_late :
    let es := stageAt 0 0 "k1" ++ .start 1 (.stage (oneRowBatch "k2" 5)) :: stepsAt 1 2 0 ++ stageAt 2 1 "k3" ++
      stepsAt 1 2 1 ++ .start 3 (.sealing firstSeal) :: stepsAt 3 7 1
    let part : SealedPart := ⟨firstSeal.scratchPath, 2, 0, 5, 0, [⟨⟨"node-1"⟩, 1, 1⟩, ⟨⟨"node-1"⟩, 3, 3⟩]⟩
    ∃ rows s s', (stagers oneRowSetup).Performs { shared := .fresh ⟨"node-1"⟩ } es 3
        (.copySealed firstSeal.key.tableName part.path none) s s' ∧
      s'.scratch part.path = some rows ∧ part.originCoverage = coverageRuns rows ∧
      (part.eventTimeMinMs, part.eventTimeMaxMs) = eventTimeBounds "ts" rows := by
  intro es part
  obtain ⟨_, rows, _, _, s₁, s₁', _, _, hcopy, _, hfile, hcoverage, hbounds, _⟩ :=
    sealed_part_describes_file oneRowSetup ⟨"node-1"⟩ es (by decide +kernel) 3 firstSeal part (by decide +kernel)
  exact ⟨rows, s₁, s₁', hcopy, hfile, hcoverage, hbounds⟩

/-- The same late row lands between the event-time scan and the count of the sealed rows: it is in the file, the part
    knows neither its number nor its event time, and one row fewer was counted than is in the file. -/
theorem late_row_missing_from_part :
    let es := stageAt 0 0 "k1" ++ .start 1 (.stage (oneRowBatch "k2" 5)) :: stepsAt 1 2 0 ++ stageAt 2 1 "k3" ++
      .start 3 (.sealing firstSeal) :: stepsAt 3 4 1 ++ stepsAt 1 2 1 ++ stepsAt 3 3 1
    let file : List StagedRow :=
      [⟨⟨"node-1"⟩, 1, [("ts", .timestamp 0)]⟩, ⟨⟨"node-1"⟩, 3, [("ts", .timestamp 5000)]⟩]
    (3, .sealing firstSeal, .sealed (.ok ⟨firstSeal.scratchPath, 2, 0, 0, 1 - 2, [⟨⟨"node-1"⟩, 1, 1⟩]⟩)) ∈
      (stagedBy oneRowSetup ⟨"node-1"⟩ es).returned ∧
    (stagedBy oneRowSetup ⟨"node-1"⟩ es).shared.scratch firstSeal.scratchPath = some file ∧
    coverageRuns file = [⟨⟨"node-1"⟩, 1, 1⟩, ⟨⟨"node-1"⟩, 3, 3⟩] ∧ eventTimeBounds "ts" file = (0, 5) := by
  decide +kernel

end Duckspout
