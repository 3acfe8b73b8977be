import Duckspout.Lib.Islands
import Duckspout.Staging.Drop
import Duckspout.Staging.Manifest

/-! Coverage of a window at rest. Three descriptions of one set of `(origin, seq)` pairs have to agree: the runs a seal
    finds, the ranges a drop is given, and the rows the table holds. -/

namespace Duckspout

open RangeList

/-! ### The runs of a window -/

/-- The range's ends as naturals. -/
def OriginSeqRange.ends (r : OriginSeqRange) : ℕ × ℕ := (r.firstSeq, r.lastSeq)

/-- No pair is staged twice. -/
def Distinct (rows : List StagedRow) : Prop := (rows.map fun r => (r.origin, r.seq)).Nodup

instance (rows : List StagedRow) : Decidable (Distinct rows) := inferInstanceAs (Decidable (List.Nodup _))

/-- The maximal runs of the rows' sequence numbers by origin, in order: ranges are nonempty, ordered by origin and then
    by number with a number left out between any two of an origin, and hold what the rows hold. -/
structure MaximalRuns (rows : List StagedRow) (runs : List OriginSeqRange) : Prop where
  nonempty : ∀ r ∈ runs, r.firstSeq ≤ r.lastSeq
  ordered : runs.Pairwise fun r q => r.origin < q.origin ∨ r.origin = q.origin ∧ (r.lastSeq : ℕ) + 1 < q.firstSeq
  exact : ∀ o n, Covers runs o n ↔ ∃ r ∈ rows, r.origin = o ∧ (r.seq : ℕ) = n

/-- An origin's sequence numbers, in order. -/
def originSeqs (rows : List StagedRow) (origin : NodeId) : List U64 :=
  ((rows.filter (·.origin = origin)).map (·.seq)).insertionSort (· ≤ ·)

theorem mem_originSeqs {rows : List StagedRow} {origin : NodeId} {n : U64} :
    n ∈ originSeqs rows origin ↔ ∃ r ∈ rows, r.origin = origin ∧ r.seq = n := by
  simp [originSeqs, List.mem_insertionSort, and_assoc]

theorem originSeqs_pairwise {rows : List StagedRow} (h : Distinct rows) (origin : NodeId) :
    (originSeqs rows origin).Pairwise fun n m : U64 => (n : ℕ) < m := by
  have hnodup : (originSeqs rows origin).Nodup := by
    refine (List.perm_insertionSort _ _).nodup_iff.mpr (List.pairwise_map.mpr ?_)
    refine ((List.pairwise_map.mp h).filter _).imp_of_mem fun {r q} hr hq hne heq => hne ?_
    rw [of_decide_eq_true (List.mem_filter.mp hr).2, of_decide_eq_true (List.mem_filter.mp hq).2, heq]
  have hsorted := List.pairwise_insertionSort (· ≤ ·) ((rows.filter (·.origin = origin)).map (·.seq))
  exact (hsorted.and hnodup).imp fun h => Fin.lt_def.mp (lt_of_le_of_ne h.1 h.2)

theorem originRuns_eq (origin : NodeId) (seqs : List U64) :
    originRuns origin seqs = (Islands.ends (fun n : U64 => (n : ℕ)) seqs).map fun r => ⟨origin, r.1, r.2⟩ := by
  simp only [originRuns, Islands.ends, List.map_filterMap]
  refine List.filterMap_congr fun run _ => ?_
  change _ = Option.map _ (Islands.endsOf (((runNumbers seqs).filter (·.1 = run)).map (·.2)))
  generalize (((runNumbers seqs).filter (·.1 = run)).map (·.2)) = members
  cases members with
  | nil => rfl
  | cons first rest =>
    have hlast := List.getLast?_eq_some_getLast (List.cons_ne_nil first rest)
    simp only [Islands.endsOf, List.head?_cons, hlast, Option.map_some]

/-- The runs of one origin are canonical and hold the origin's numbers. -/
theorem originRuns_spec (origin : NodeId) {seqs : List U64} (h : seqs.Pairwise fun n m : U64 => (n : ℕ) < m) :
    (∀ r ∈ originRuns origin seqs, r.origin = origin) ∧ Canonical ((originRuns origin seqs).map (·.ends)) ∧
    ∀ n, Mem ((originRuns origin seqs).map (·.ends)) n ↔ ∃ seq ∈ seqs, (seq : ℕ) = n := by
  have hends : (originRuns origin seqs).map (·.ends) =
      (Islands.ends (fun n : U64 => (n : ℕ)) seqs).map fun r => ((r.1 : ℕ), (r.2 : ℕ)) := by
    rw [originRuns_eq, List.map_map]
    rfl
  refine ⟨fun r hr => ?_, ?_, fun n => ?_⟩
  · rw [originRuns_eq] at hr
    obtain ⟨_, _, rfl⟩ := List.mem_map.mp hr
    rfl
  · rw [hends]
    exact Islands.canonical_ends h
  · rw [hends]
    exact Islands.mem_ends h n

/-- Within an origin the query's order changes nothing. -/
theorem insertionSort_originRuns {origin : NodeId} {seqs : List U64} (h : seqs.Pairwise fun n m : U64 => (n : ℕ) < m) :
    (originRuns origin seqs).insertionSort (·.firstSeq ≤ ·.firstSeq) = originRuns origin seqs := by
  obtain ⟨-, hcanonical, -⟩ := originRuns_spec origin h
  refine List.Pairwise.insertionSort_eq ?_
  refine (List.pairwise_map.mp hcanonical.ordered).imp_of_mem fun {r q} hr _ hlt => ?_
  have hne : r.ends.1 ≤ r.ends.2 := hcanonical.nonempty _ (List.mem_map_of_mem hr)
  simp only [OriginSeqRange.ends] at hne hlt
  exact Fin.le_def.mpr (by omega)

theorem coverageRuns_eq {rows : List StagedRow} (h : Distinct rows) :
    coverageRuns rows = ((rows.map (·.origin)).dedup.insertionSort (· ≤ ·)).flatMap fun origin =>
      originRuns origin (originSeqs rows origin) :=
  List.flatMap_congr fun origin _ => insertionSort_originRuns (originSeqs_pairwise h origin)

/-- The runs of a window whose pairs are distinct are the maximal ones. -/
theorem maximalRuns_coverageRuns {rows : List StagedRow} (h : Distinct rows) : MaximalRuns rows (coverageRuns rows) := by
  have hspec := fun origin => originRuns_spec origin (originSeqs_pairwise h origin)
  have horigins : ((rows.map (·.origin)).dedup.insertionSort (· ≤ ·)).Pairwise (· < ·) := by
    have hnodup := (List.perm_insertionSort (· ≤ ·) (rows.map (·.origin)).dedup).nodup_iff.mpr (List.nodup_dedup _)
    exact ((List.pairwise_insertionSort (· ≤ ·) _).and hnodup).imp fun h => lt_of_le_of_ne h.1 h.2
  rw [coverageRuns_eq h]
  refine ⟨fun r hr => ?_, ?_, fun o n => ?_⟩
  · obtain ⟨origin, -, hr⟩ := List.mem_flatMap.mp hr
    exact (hspec origin).2.1.nonempty _ (List.mem_map_of_mem hr)
  · refine List.pairwise_flatMap.mpr ⟨fun origin _ => ?_, horigins.imp fun {o o'} hlt r hr q hq => ?_⟩
    · refine (List.pairwise_map.mp (hspec origin).2.1.ordered).imp_of_mem fun {r q} hr hq hlt => .inr ⟨?_, hlt⟩
      rw [(hspec origin).1 r hr, (hspec origin).1 q hq]
    · rw [(hspec o).1 r hr, (hspec o').1 q hq]
      exact .inl hlt
  · constructor
    · rintro ⟨r, hr, ho, hlo, hhi⟩
      obtain ⟨origin, -, hr⟩ := List.mem_flatMap.mp hr
      obtain rfl : origin = o := ((hspec origin).1 r hr).symm.trans ho
      obtain ⟨seq, hseq, rfl⟩ := ((hspec origin).2.2 n).mp ⟨r.ends, List.mem_map_of_mem hr, hlo, hhi⟩
      obtain ⟨row, hrow, horigin, rfl⟩ := mem_originSeqs.mp hseq
      exact ⟨row, hrow, horigin, rfl⟩
    · rintro ⟨row, hrow, rfl, rfl⟩
      obtain ⟨q, hq, hlo, hhi⟩ := ((hspec row.origin).2.2 row.seq).mpr
        ⟨row.seq, mem_originSeqs.mpr ⟨row, hrow, rfl, rfl⟩, rfl⟩
      obtain ⟨r, hr, rfl⟩ := List.mem_map.mp hq
      refine ⟨r, List.mem_flatMap.mpr ⟨row.origin, ?_, hr⟩, (hspec row.origin).1 r hr, hlo, hhi⟩
      simpa using ⟨row, hrow, rfl⟩

/-! ### Dropping -/

/-- A drop keeps the rows outside the coverage, and takes the window when there are none. -/
theorem dropBlocking_exact (covered : List OriginSeqRange) (rows : List StagedRow) :
    (dropBlocking covered (some rows)).2.getD [] = rows.filter (fun r => ¬ r.CoveredBy covered) ∧
    ((dropBlocking covered (some rows)).2 = none ↔ ∀ r ∈ rows, r.CoveredBy covered) := by
  simp only [dropBlocking]
  split_ifs with hzero
  · rw [List.countP_eq_zero] at hzero
    refine ⟨?_, fun _ r hr => by simpa using hzero r hr, fun _ => rfl⟩
    rw [List.filter_eq_nil_iff.mpr hzero]
    rfl
  · refine ⟨rfl, fun hnone => ?_, fun hall => ?_⟩
    · cases hnone
    · exact absurd (List.countP_eq_zero.mpr fun r hr => by simpa using hall r hr) hzero

theorem dropBlocking_of_covered {covered : List OriginSeqRange} {rows : List StagedRow}
    (h : ∀ r ∈ rows, r.CoveredBy covered) : dropBlocking covered (some rows) = (.dropped, none) := by
  simp only [dropBlocking]
  rw [if_pos (List.countP_eq_zero.mpr fun r hr => by simpa using h r hr)]

theorem MaximalRuns.covered {rows : List StagedRow} {runs : List OriginSeqRange} (h : MaximalRuns rows runs) :
    ∀ r ∈ rows, r.CoveredBy runs := fun r hr => (h.exact r.origin r.seq).mpr ⟨r, hr, rfl, rfl⟩

/-! ### Windows of a run -/

/-- The rows of a window are among the rows ever committed, each as often. -/
def Sourced (db : HotDb) : Prop := ∀ key, ((db.staged key).map (key, ·)).Sublist db.everStaged

theorem HotDb.Step.sourced {db db' : HotDb} {o : StagingOp} (h : db.Step o db') (hs : db.Shelved) (hs' : db'.Shelved)
    (hsourced : Sourced db) : Sourced db' := by
  intro key
  cases h with
  | same => exact hsourced key
  | @stage request rows _ hgrown =>
    rw [hgrown.staged hs hs', hgrown.everStaged]
    split_ifs with hkey
    · rw [← hkey, List.map_append]
      exact (hsourced key).append (List.Sublist.refl _)
    · exact (hsourced key).trans (List.sublist_append_left _ _)
  | @drop dropped =>
    have hold := hsourced key
    rw [hs.staged] at hold
    rw [hs'.staged]
    dsimp only
    rcases eq_or_ne key.tableName dropped.tableName with hname | hname
    · rw [hname, Function.update_self]
      exact List.nil_sublist _
    · rwa [Function.update_of_ne hname]
  | @delete table covered rows hrows =>
    have hold := hsourced key
    rw [hs.staged] at hold
    rw [hs'.staged]
    dsimp only
    rcases eq_or_ne key.tableName table with rfl | hname
    · rw [hrows, Option.getD_some] at hold
      rw [Function.update_self, Option.getD_some]
      exact (List.filter_sublist.map _).trans hold
    · rwa [Function.update_of_ne hname]

theorem sourced_stagedBy (setup : StagingSetup) (origin : NodeId) (es : List StagingEvent) :
    Sourced (stagedBy setup origin es).shared.db := by
  induction es using List.reverseRecOn with
  | nil => exact fun key => List.nil_sublist _
  | append_singleton es e ih =>
    have hs := steady_stagedBy setup origin es
    have hs' := steady_stagedBy setup origin (es ++ [e])
    rw [stagedBy_concat] at hs' ⊢
    rcases Threads.shared_step (stagers setup) (stagedBy setup origin es) e with
      heq | ⟨t, c, n, j, o, next, -, -, heq⟩ | ⟨v, -, heq⟩
    · rw [heq]
      exact ih
    · rw [heq] at hs' ⊢
      exact (exec_windows setup hs o c).2.sourced hs.shelved hs'.shelved ih
    · rw [heq]
      change Sourced (v.move (stagedBy setup origin es).shared).db
      rw [db_move]
      exact ih

theorem distinct_of_origins {rows : List StagedRow}
    (h : ∀ o, ((rows.filter (·.origin = o)).map fun r => (r.seq : ℕ)).Nodup) : Distinct rows := by
  induction rows with
  | nil => exact .nil
  | cons r rows ih =>
    refine List.nodup_cons.mpr ⟨fun hmem => ?_, ih fun o => (h o).sublist ?_⟩
    · obtain ⟨q, hq, heq⟩ := List.mem_map.mp hmem
      have hr := h r.origin
      rw [List.filter_cons_of_pos (by simp), List.map_cons, List.nodup_cons] at hr
      refine hr.1 (List.mem_map.mpr ⟨q, List.mem_filter.mpr ⟨hq, ?_⟩, ?_⟩)
      · simpa using (Prod.mk.inj heq).1
      · rw [(Prod.mk.inj heq).2]
    · exact ((List.sublist_cons_self r rows).filter _).map _

/-- In every state of every run the pairs of a window are distinct. -/
theorem distinct_stagedBy (setup : StagingSetup) (origin : NodeId) (es : List StagingEvent) (key : WindowKey) :
    Distinct ((stagedBy setup origin es).shared.db.staged key) := by
  refine distinct_of_origins fun o => ?_
  have hsub := ((sourced_stagedBy setup origin es key).filter
    fun x => x.1.partition = key.partition ∧ x.2.origin = o).map fun x => (x.2.seq : ℕ)
  have hdense := (steady_stagedBy setup origin es).dense key.partition o
  have hnodup : (seqsOf (stagedBy setup origin es).shared.db.everStaged key.partition o).Nodup := by
    change seqsOf (stagedBy setup origin es).shared.db.everStaged key.partition o = _ at hdense
    rw [hdense]
    exact List.nodup_range'
  have hrows := hnodup.sublist hsub
  rw [List.filter_map, List.map_map] at hrows
  simpa [Function.comp_def] using hrows

/-! ### The calls at rest -/

/-- A call that runs alone and meets no fault. -/
def StagingNode.alone {α : Type} (setup : StagingSetup) (call : Prog StagingOp StagingOp.Res α) (s : StagingNode) :
    α × StagingNode := call.eval (fun o => StagingNode.exec setup o {}) s

theorem steady_alone {α : Type} (setup : StagingSetup) (call : Prog StagingOp StagingOp.Res α) {s : StagingNode}
    (h : s.stager.engine.Steady) : (s.alone setup call).2.stager.engine.Steady :=
  Prog.eval_inv (I := fun s : StagingNode => s.stager.engine.Steady) (fun o _ hs => (exec_windows setup hs o {}).1) call h

/-- A seal leaves the database as it is. -/
theorem db_sealStatements (setup : StagingSetup) {s : StagingNode} (h : s.stager.engine.Steady) (request : SealRequest) :
    (s.alone setup (sealStatements request).run).2.db = s.db := by
  have hasks := h.windowTable request.key
  change _ = (s.db.tables request.key.tableName).map _ at hasks
  rcases hrows : s.db.tables request.key.tableName with _ | rows
  · simp only [StagingNode.alone, sealStatements, eval_ask, StagingNode.exec, hasks, hrows, Option.map_none]
    rfl
  · simp only [StagingNode.alone, sealStatements, eval_ask, StagingNode.exec, hasks, hrows, Option.map_some,
      StagingNode.read_of_some _ hrows, eval_orThrow_ok]
    rfl

/-- A seal of a registered window reports its maximal runs, and the drop with them takes the rows and the window. -/
theorem drop_after_seal (setup : StagingSetup) {s : StagingNode} (h : s.stager.engine.Steady) {request : SealRequest}
    (hdistinct : Distinct (s.db.staged request.key)) {part : SealedPart}
    (hpart : (s.alone setup (sealStatements request).run).1 = .ok part) :
    MaximalRuns (s.db.staged request.key) part.originCoverage ∧
    let d := (s.alone setup (sealStatements request).run).2.alone setup (dropStatements request.key part.originCoverage).run
    d.1 = .ok .dropped ∧ d.2.db.staged request.key = [] ∧ request.key ∉ d.2.db.windows := by
  have hsealed := (sealStatements_alone setup h request).1
  have hs₁ := steady_alone setup (sealStatements request).run h
  have hs₂ := steady_alone setup (dropStatements request.key part.originCoverage).run hs₁
  obtain ⟨hanswer, htable⟩ := dropStatements_alone setup hs₁ request.key part.originCoverage
  change (s.alone setup (sealStatements request).run).1 = _ at hsealed
  rw [hpart] at hsealed
  rcases hrows : s.db.tables request.key.tableName with _ | rows
  · rw [hrows] at hsealed
    cases hsealed
  · have hstaged : s.db.staged request.key = rows := by
      have := h.shelved.staged request.key
      change s.db.staged request.key = (s.db.tables request.key.tableName).getD [] at this
      rw [this, hrows, Option.getD_some]
    rw [hrows] at hsealed
    obtain rfl := Except.ok.inj hsealed
    rw [hstaged] at hdistinct ⊢
    have hmax := maximalRuns_coverageRuns hdistinct
    rw [db_sealStatements setup h, hrows, dropBlocking_of_covered hmax.covered] at hanswer htable
    refine ⟨hmax, hanswer, ?_, ?_⟩
    · exact (hs₂.shelved.staged request.key).trans (congrArg (·.getD []) htable)
    · rw [← Finmap.lookup_eq_none]
      have hmeta := hs₂.windowTable request.key
      rw [hs₂.windows_eq] at hmeta
      change _ = Option.map _ (StagingNode.db _ |>.tables _) at hmeta
      exact Option.map_eq_none_iff.mp (hmeta.trans (congrArg _ htable))

/-- Sealing and dropping at rest. For any rows with distinct pairs the coverage a seal reports is the pairs' maximal runs
    by origin, in order, and a drop with it takes every row and the window; for any coverage list, whatever its ranges,
    a drop keeps the rows outside it, and the window unless all are inside. In every state of every run the pairs of a
    window are distinct, and the statements of a seal and of a drop, when they run alone, do just this. -/
theorem seal_and_drop_exact :
    (∀ (request : SealRequest) (rows : List StagedRow), Distinct rows →
      ∃ part sealed, sealBlocking request (some rows) = .ok (part, sealed) ∧ MaximalRuns rows part.originCoverage ∧
        dropBlocking part.originCoverage (some rows) = (.dropped, none)) ∧
    (∀ (covered : List OriginSeqRange) (rows : List StagedRow),
      (dropBlocking covered (some rows)).2.getD [] = rows.filter (fun r => ¬ r.CoveredBy covered) ∧
      ((dropBlocking covered (some rows)).2 = none ↔ ∀ r ∈ rows, r.CoveredBy covered)) ∧
    ∀ (setup : StagingSetup) (origin : NodeId) (es : List StagingEvent) (request : SealRequest),
      let s := (stagedBy setup origin es).shared
      let sealed := s.alone setup (sealStatements request).run
      let table := s.db.tables request.key.tableName
      Distinct (s.db.staged request.key) ∧ sealed.1 = (sealBlocking request table).map (·.1) ∧
      (∀ part, sealed.1 = .ok part → MaximalRuns (s.db.staged request.key) part.originCoverage ∧
        let dropped := sealed.2.alone setup (dropStatements request.key part.originCoverage).run
        dropped.1 = .ok .dropped ∧ dropped.2.db.staged request.key = [] ∧ request.key ∉ dropped.2.db.windows) ∧
      ∀ covered, let dropped := s.alone setup (dropStatements request.key covered).run
        dropped.1 = .ok (dropBlocking covered table).1 ∧
        dropped.2.db.tables request.key.tableName = (dropBlocking covered table).2 := by
  refine ⟨fun request rows hdistinct => ?_, dropBlocking_exact, fun setup origin es request => ?_⟩
  · have hmax := maximalRuns_coverageRuns hdistinct
    exact ⟨_, _, rfl, hmax, dropBlocking_of_covered hmax.covered⟩
  · have hs := steady_stagedBy setup origin es
    have hdistinct := distinct_stagedBy setup origin es request.key
    exact ⟨hdistinct, (sealStatements_alone setup hs request).1, fun part hpart => drop_after_seal setup hs hdistinct hpart,
      fun covered => dropStatements_alone setup hs request.key covered⟩

/-- A hole, a second origin and the last number there is. -/
example : coverageRuns [⟨⟨"b"⟩, 5, []⟩, ⟨⟨"a"⟩, 18446744073709551615, []⟩, ⟨⟨"a"⟩, 2, []⟩, ⟨⟨"b"⟩, 4, []⟩, ⟨⟨"a"⟩, 1, []⟩] =
    [⟨⟨"a"⟩, 1, 2⟩, ⟨⟨"a"⟩, 18446744073709551615, 18446744073709551615⟩, ⟨⟨"b"⟩, 4, 5⟩] := by
  decide +kernel

end Duckspout
