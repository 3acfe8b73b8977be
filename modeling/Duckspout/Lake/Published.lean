import Duckspout.Lake.SingleCommit
import Duckspout.Watermark.Ledger

/-! The watermark the lake publishes, over every interleaving of commits.

    A commit writes the rows it was given over whatever the lake has for their partitions, so the
    published value goes back where a committer's advance lags behind what another has published. -/

namespace Duckspout

open Snapshot Threads

/-! ### Rows that take effect -/

/-- The row of a partition that stands after the rows are upserted in order. -/
def lastFor (ws : List WatermarkRow) (p : PartitionId) : Option WatermarkRow :=
  ws.reverse.find? fun row => row.partition = p

/-- None of the rows that take effect is below what the lake has for its partition. -/
def NotBehind (ws : List WatermarkRow) (l : Lake) : Prop :=
  ∀ row ∈ ws, lastFor ws row.partition = some row → ∀ r ∈ values l.watermarks, r.partition = row.partition →
    r.completeThroughMs ≤ row.completeThroughMs

instance (ws : List WatermarkRow) (l : Lake) : Decidable (NotBehind ws l) :=
  inferInstanceAs (Decidable (∀ row ∈ ws, lastFor ws row.partition = some row →
    ∀ r ∈ values l.watermarks, r.partition = row.partition → r.completeThroughMs ≤ row.completeThroughMs))

abbrev LakePool := Pool CommitterId LakeCall Catalog Sql Sql.Res LakeReply

/-- The watermark rows of the batch whose `COMMIT` committer `t` sends next. -/
def committing (pool : LakePool) (t : CommitterId) : Option (List WatermarkRow) :=
  match pool.running t with
  | some ⟨_, .commitFiles _ ws, .call .commit _⟩ => some ws
  | _ => none

/-- The condition on an event, in the state before it: a commit that goes through does not lag behind what is
    published. -/
def CommitsNotBehind (pool : LakePool) : LakeEvent → Prop
  | .act t _ => ∀ ws ∈ committing pool t, ∀ x ∈ pool.shared.conn t, x.fresh pool.shared.lake = true →
    NotBehind ws pool.shared.lake
  | _ => True

instance (pool : LakePool) : (e : LakeEvent) → Decidable (CommitsNotBehind pool e)
  | .act t _ => inferInstanceAs (Decidable (∀ ws ∈ committing pool t, ∀ x ∈ pool.shared.conn t,
    x.fresh pool.shared.lake = true → NotBehind ws pool.shared.lake))
  | .start _ _ | .env _ => isTrue trivial

theorem lastFor_concat (ws : List WatermarkRow) (row : WatermarkRow) (p : PartitionId) :
    lastFor (ws ++ [row]) p = if row.partition = p then some row else lastFor ws p := by
  rw [lastFor, List.reverse_append, List.reverse_singleton, List.singleton_append, List.find?_cons]
  rcases eq_or_ne row.partition p with hp | hp
  · simp [hp]
  · simp [hp, lastFor]

theorem mem_of_lastFor {ws : List WatermarkRow} {p : PartitionId} {row : WatermarkRow} (h : lastFor ws p = some row) :
    row ∈ ws ∧ row.partition = p :=
  ⟨List.mem_reverse.mp (List.mem_of_find?_eq_some h), by simpa using List.find?_some h⟩

/-- What the upserts leave pending takes effect. -/
theorem pending_upsertRows (t : Table WatermarkRow) (ws : List WatermarkRow) :
    ∀ y ∈ (ws.foldl upsertRow (.start t)).snap, ∀ v, y.2 = some v → lastFor ws v.partition = some v := by
  induction ws using List.reverseRecOn with
  | nil =>
    intro y hy v hv
    rw [start_none y hy] at hv
    cases hv
  | append_singleton ws row ih =>
    rw [List.foldl_append, List.foldl_cons, List.foldl_nil]
    -- the snapshot of an upsert is that of its update
    have hsnap : ∀ x : TableTxn WatermarkRow, (upsertRow x row).snap =
        (x.update (·.partition = row.partition) fun _ => row).snap := by
      intro x
      simp only [upsertRow]
      split_ifs
      · rfl
      · rfl
    intro y hy v hv
    rw [hsnap] at hy
    obtain ⟨z, hz, rfl⟩ := List.mem_map.mp hy
    rw [lastFor_concat]
    split_ifs at hv with hrow
    · cases hv
      rw [if_pos rfl]
    · have hcurrent : current z = v := by
        rw [current, hv, Option.getD_some]
      rw [hcurrent, decide_eq_true_eq] at hrow
      rw [if_neg (Ne.symm hrow)]
      exact ih z hz v hv

/-! ### Published values -/

/-- The lake `l'` publishes at least what `l` does, for every partition. -/
def PublishesMore (l l' : Lake) : Prop :=
  ∀ r ∈ values l.watermarks, ∃ r' ∈ values l'.watermarks, r'.partition = r.partition ∧
    r.completeThroughMs ≤ r'.completeThroughMs

theorem PublishesMore.of_eq {l l' : Lake} (h : l'.watermarks = l.watermarks) : PublishesMore l l' :=
  fun r hr => ⟨r, h ▸ hr, rfl, le_rfl⟩

theorem PublishesMore.trans {l l' l'' : Lake} (h : PublishesMore l l') (h' : PublishesMore l' l'') :
    PublishesMore l l'' := by
  intro r hr
  obtain ⟨r', hr', hp', hle'⟩ := h r hr
  obtain ⟨r'', hr'', hp'', hle''⟩ := h' r' hr'
  exact ⟨r'', hr'', hp''.trans hp', hle'.trans hle''⟩

/-- A batch that does not lag behind what the lake publishes leaves it at least there. -/
theorem publishesMore_staged {config : DuckLakeConfig} {m : WindowManifest} {ws : List WatermarkRow} {l₀ l : Lake}
    (h : l₀.Later l) (hrows : NotBehind ws l) : PublishesMore l ((staged config m ws l₀).merge l) := by
  intro r hr
  have hbase : (staged config m ws l₀).base.Later l := staged_base ▸ h
  have hkeeps : (staged config m ws l₀).Keeps := staged_keeps
  have hmem : ∀ v, v ∈ values (overlay (staged config m ws l₀).watermarks.snap l.watermarks) →
      v ∈ values ((staged config m ws l₀).merge l).watermarks := by
    intro v hv
    simp only [Txn.merge, TableTxn.merge, values, List.map_append]
    exact List.mem_append_left _ hv
  rcases overlay_replaces hkeeps.watermarks hbase.watermarks hr with hstays | ⟨v, hv, hkey, y, hy, hpending⟩
  · exact ⟨r, hmem r hstays, rfl, le_rfl⟩
  · have hlast := pending_upsertRows l₀.watermarks ws y hy v hpending
    exact ⟨v, hmem v hv, hkey, hrows v (mem_of_lastFor hlast).1 hlast r hr hkey.symm⟩

/-! ### One event -/

section Event

variable {config : CommitterId → DuckLakeConfig} {h : List LakeEvent}

/-- A request changes the watermark table only as the `COMMIT` of the connection's transaction. -/
theorem watermarks_exec {t : CommitterId} {c : Choice} {s : Catalog} {k : Known} {o : Sql} (hconn : s.conn t = k.conn)
    (hpre : lakeProtocol.pre o k) :
    (Catalog.exec t o c s).2.lake.watermarks = s.lake.watermarks ∨
      (o = .commit ∧ ∃ x, s.conn t = some x ∧ x.fresh s.lake = true ∧ (Catalog.exec t o c s).2.lake = x.merge s.lake) := by
  cases o with
  | begin =>
    rcases exec_begin t c s with ⟨-, -, hs⟩ | ⟨-, hs⟩
    · exact .inl (by rw [hs]; rfl)
    · exact .inl (by rw [hs])
  | rollback =>
    rcases exec_rollback t c s with hs | hs
    · exact .inl (by rw [hs])
    · exact .inl (by rw [hs]; rfl)
  | commit =>
    rcases hx : s.conn t with _ | x
    · exact .inl (by simp only [Catalog.exec, hx])
    · rcases exec_commit (c := c) hx with ⟨hfresh, hs⟩ | ⟨-, hs | hs⟩
      · exact .inr ⟨rfl, x, rfl, hfresh, by rw [hs]⟩
      · exact .inl (by rw [hs])
      · exact .inl (by rw [hs]; rfl)
  | run q =>
    refine .inl ?_
    rcases hx : s.conn t with _ | x
    · have hens := (effect_ensure hx (hpre (hconn ▸ hx)) c.pick).2.watermarks
      rcases exec_run_outside (q := q) (c := c) hx with ⟨-, hs | hs⟩ | ⟨-, hs⟩
      · rw [hs]
      · rw [hs, hens]
      · rw [hs, hens]
    · rcases exec_run_inside (q := q) (c := c) hx with ⟨-, hs⟩ | ⟨_, -, hs⟩
      · rw [hs]
      · rw [hs]
        rfl

/-- An event that meets the condition leaves every published value at least where it was. -/
theorem publishesMore_step (e : LakeEvent) (hok : CommitsNotBehind (committed config h) e) :
    PublishesMore (committed config h).shared.lake (committed config (h ++ [e])).shared.lake := by
  have hv := lake_valid config h
  rw [committed_concat]
  rcases shared_step (committers config) (committed config h) e with
    heq | ⟨t, c, n, j, o, next, rfl, hrun, heq⟩ | ⟨v, rfl, heq⟩
  · exact .of_eq (by rw [heq])
  · obtain ⟨k, hk, hwp⟩ := hv.threads t _ hrun
    rw [heq]
    rcases watermarks_exec (c := c) hk.conn hwp.1 with hsame | ⟨rfl, x, hx, hfresh, hlake⟩
    · exact .of_eq hsame
    · obtain ⟨-, hready⟩ := hwp.1
      have hsync := hv.inv.synced t x hx
      rw [show (committers config).exec t .commit c (committed config h).shared =
        Catalog.exec t .commit c (committed config h).shared from rfl, hlake]
      cases j with
      | commitFiles m ws =>
        simp only [Known.Ready, hk.call_eq] at hready
        obtain ⟨l, _, hl, hconn, -⟩ := hready
        have hstaged : x = staged k.config m ws l := Option.some.inj (hx.symm.trans (hk.conn.trans hconn))
        have hws : committing (committed config h) t = some ws := by
          simp only [committing, hrun]
        rw [hstaged]
        exact publishesMore_staged (hk.snapshot l hl).2 (hok ws hws x hx hfresh)
      | expire parts =>
        simp only [Known.Ready, hk.call_eq] at hready
        obtain ⟨x', hconn, hmarks⟩ := hready
        obtain rfl : x = x' := Option.some.inj (hx.symm.trans (hk.conn.trans hconn))
        exact .of_eq (hmarks.watermarks_merge hsync.later)
  · exact .of_eq (by rw [heq]; rfl)

end Event

/-! ### Runs -/

/-- The greatest watermark the lake has for a partition. -/
def published (l : Lake) (p : PartitionId) : Option ℤ :=
  (((values l.watermarks).filter (·.partition = p)).map (·.completeThroughMs)).max?

theorem readWatermarks_singleton (l : Lake) (p : PartitionId) (v : ℤ) :
    readWatermarks l [p] = [⟨p, v⟩] ↔ published l p = some v := by
  have hread : readWatermarks l [p] = ((published l p).map fun ms => (⟨p, ms⟩ : WatermarkRow)).toList := by
    rw [readWatermarks, published, List.filterMap_cons, List.filterMap_nil]
    rcases (((values l.watermarks).filter (·.partition = p)).map (·.completeThroughMs)).max? with _ | w
    · rfl
    · rfl
  rw [hread]
  rcases published l p with _ | w
  · simp
  · simp

/-- A value of each row of a partition is at most what is published for it. -/
theorem le_published {l : Lake} {r : WatermarkRow} (hr : r ∈ values l.watermarks) :
    ∃ v, r.completeThroughMs ≤ v ∧ published l r.partition = some v := by
  have hmem : r.completeThroughMs ∈
      ((values l.watermarks).filter (·.partition = r.partition)).map (·.completeThroughMs) :=
    List.mem_map.mpr ⟨r, List.mem_filter.mpr ⟨hr, decide_eq_true rfl⟩, rfl⟩
  obtain ⟨v, hv⟩ := Option.isSome_iff_exists.mp (List.isSome_max?_of_mem hmem)
  exact ⟨v, (List.max?_eq_some_iff.mp hv).2 _ hmem, hv⟩

theorem mem_of_published {l : Lake} {p : PartitionId} {v : ℤ} (h : published l p = some v) :
    ∃ r ∈ values l.watermarks, r.partition = p ∧ r.completeThroughMs = v := by
  obtain ⟨r, hr, hv⟩ := List.mem_map.mp (List.max?_eq_some_iff.mp h).1
  obtain ⟨hr, hp⟩ := List.mem_filter.mp hr
  exact ⟨r, hr, of_decide_eq_true hp, hv⟩

theorem PublishesMore.readWatermarks {l l' : Lake} (h : PublishesMore l l') {p : PartitionId} {v : ℤ}
    (hv : readWatermarks l [p] = [⟨p, v⟩]) : ∃ v', v ≤ v' ∧ readWatermarks l' [p] = [⟨p, v'⟩] := by
  obtain ⟨r, hr, rfl, rfl⟩ := mem_of_published ((readWatermarks_singleton l p v).mp hv)
  obtain ⟨r', hr', hp, hle⟩ := h r hr
  obtain ⟨v', hv', hpublished⟩ := le_published hr'
  exact ⟨v', hle.trans hv', (readWatermarks_singleton l' _ v').mpr (hp ▸ hpublished)⟩

/-- The committers' runs in which no commit that goes through lags behind what is published. -/
abbrev NotBehindRun (config : CommitterId → DuckLakeConfig) (h : List LakeEvent) : Prop :=
  (committers config).Admissible CommitsNotBehind { shared := {} } h

/-- **The published watermark never goes back** over any interleaving of commits in which no commit that goes
    through carries a row below what the lake has for its partition: from any point of the run to any later one, the
    value read for a partition does not decrease. -/
theorem published_never_goes_back (config : CommitterId → DuckLakeConfig) (es fs : List LakeEvent)
    (hrun : NotBehindRun config (es ++ fs)) (p : PartitionId) (v : ℤ)
    (hv : readWatermarks (committed config es).shared.lake [p] = [⟨p, v⟩]) :
    ∃ v', v ≤ v' ∧ readWatermarks (committed config (es ++ fs)).shared.lake [p] = [⟨p, v'⟩] := by
  refine PublishesMore.readWatermarks ?_ hv
  clear hv
  induction fs using List.reverseRecOn with
  | nil =>
    rw [List.append_nil]
    exact .of_eq rfl
  | append_singleton fs e ih =>
    rw [← List.append_assoc] at hrun ⊢
    obtain ⟨hbefore, hlast⟩ := admissible_concat.mp hrun
    exact (ih hbefore).trans (publishesMore_step e hlast)

/-! ### Two committers, one of them behind -/

/-- A window of the partition `t.0`, from sequence number `first` to `last`, with event times up to `ms`. -/
def timedBatch (window : WindowId) (first last : U64) (ms : ℤ) : WindowManifest where
  dataset := ⟨"logs"⟩
  partition := ⟨"t.0"⟩
  windowId := window
  originCoverage := [⟨⟨"a"⟩, first, last⟩]
  rows := last - first + 1
  eventTimeMinMs := 10
  eventTimeMaxMs := ms
  dedupRemoved := 0
  parts := [partName ⟨"logs"⟩ ⟨"t.0"⟩ window .window]

/-- Committer 0 commits window 0 with the rows 1 to 5. -/
def ahead : List LakeEvent := .start 0 (.commitFiles (timedBatch 0 1 5 50) [⟨⟨"t.0"⟩, 50⟩]) :: steps 0 11

/-- Committer 1 has staged only the rows 1 to 3 of window 0: it finds the window registered, records what it has
    staged, and commits window 1 with the advance of that record. -/
def behind : List LakeEvent :=
  .start 1 (.commitFiles (timedBatch 0 1 3 30) [⟨⟨"t.0"⟩, 30⟩]) :: steps 1 5 ++
    .start 1 (.commitFiles (timedBatch 1 4 4 40) [⟨⟨"t.0"⟩, 40⟩]) :: steps 1 9

/-- All three calls answer `Committed`, each with the advance of its own ledger, and the published watermark goes
    from 50 back to 40. -/
theorem published_goes_back :
    ({} : WatermarkLedger).advanceFor (timedBatch 0 1 5 50) = .ok (some ⟨⟨"t.0"⟩, 50⟩) ∧
    ({} : WatermarkLedger).advanceFor (timedBatch 0 1 3 30) = .ok (some ⟨⟨"t.0"⟩, 30⟩) ∧
    (({} : WatermarkLedger).recordCommit (timedBatch 0 1 3 30)).2.advanceFor (timedBatch 1 4 4 40) =
      .ok (some ⟨⟨"t.0"⟩, 40⟩) ∧
    (committed sampleConfig (ahead ++ behind)).returned.map (fun r => (r.1, r.2.2)) =
      [(0, .commitFiles (.ok .committed)), (1, .commitFiles (.ok .committed)), (2, .commitFiles (.ok .committed))] ∧
    readWatermarks (committed sampleConfig ahead).shared.lake [⟨"t.0"⟩] = [⟨⟨"t.0"⟩, 50⟩] ∧
    readWatermarks (committed sampleConfig (ahead ++ behind)).shared.lake [⟨"t.0"⟩] = [⟨⟨"t.0"⟩, 40⟩] := by
  decide +kernel

/-- Committer 1 catches up: with the advance of a record of all of window 0 it stays at 50. -/
def caughtUp : List LakeEvent := .start 1 (.commitFiles (timedBatch 1 6 6 40) [⟨⟨"t.0"⟩, 50⟩]) :: steps 1 9

theorem published_stays_caughtUp :
    ∃ v, 50 ≤ v ∧ readWatermarks (committed sampleConfig (ahead ++ caughtUp)).shared.lake [⟨"t.0"⟩] = [⟨⟨"t.0"⟩, v⟩] :=
  published_never_goes_back sampleConfig ahead caughtUp (by decide +kernel) ⟨"t.0"⟩ 50 (by decide +kernel)

end Duckspout
