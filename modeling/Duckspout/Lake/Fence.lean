import Duckspout.Lake.Transaction

/-! Any number of committers on one lake, their requests interleaved in any order.

    The fence: every commit updates all fence rows of its partition, the first of which is in every
    snapshot that has one. Of two commits of one partition whose transactions overlap, the catalog
    therefore refuses the later, and a commit that lands has seen every manifest row of its
    partition. -/

namespace Duckspout

open Snapshot Threads

/-- The calls a committer serves. -/
inductive LakeCall where
  | commitFiles (m : WindowManifest) (watermarks : List WatermarkRow)
  | expire (parts : List PartName)
  deriving DecidableEq, Repr

inductive LakeReply where
  | commitFiles (result : Except LakeError CommitOutcome)
  | expire (result : Except LakeError Unit)
  deriving DecidableEq

/-- The committers: each serves one call at a time on its own connection, and a crash of its process
    closes the connection. -/
def committers (config : CommitterId → DuckLakeConfig) :
    Threads CommitterId LakeCall Choice CommitterId Catalog Sql Sql.Res LakeReply where
  program t
    | .commitFiles m watermarks => do
      return .commitFiles (← commitFilesBlocking (config t) m watermarks)
    | .expire parts => do
      return .expire (← expireBlocking (config t) parts)
  exec := Catalog.exec
  move t s := s.setConn t none
  stops t u := t == u

abbrev LakeEvent := Event CommitterId LakeCall Choice CommitterId

/-- The state a history leads to, from an empty lake. -/
def committed (config : CommitterId → DuckLakeConfig) (h : List LakeEvent) :
    Pool CommitterId LakeCall Catalog Sql Sql.Res LakeReply :=
  (committers config).run { shared := {} } h

/-! ### What a request can do -/

theorem autocommit_fenceExists (s : Catalog) (p : PartitionId) (pick : ℕ) :
    s.autocommit (.fenceExists p) pick = s := by
  simp only [Catalog.autocommit, Query.exec, Txn.merge, Txn.start, TableTxn.merge_start]

theorem autocommit_insertFence (s : Catalog) (p : PartitionId) (pick : ℕ) :
    s.autocommit (.insertFence p) pick =
      { s with lake := { s.lake with fence := s.lake.fence ++ [{ value := ⟨p, -1⟩ }] } } := by
  simp only [Catalog.autocommit, Query.exec, Txn.merge, Txn.start, TableTxn.merge_start,
    TableTxn.merge_insert_start]

/-- A `COMMIT` lands the transaction, or leaves the lake as it is and reports a failure. -/
theorem exec_commit {t : CommitterId} {c : Choice} {s : Catalog} {x : Txn} (hx : s.conn t = some x) :
    (x.fresh s.lake = true ∧ (Catalog.exec t .commit c s).2 = { s.setConn t none with lake := x.merge s.lake }) ∨
    ((∃ text, (Catalog.exec t .commit c s).1 = .error text) ∧
      ((Catalog.exec t .commit c s).2 = s ∨ (Catalog.exec t .commit c s).2 = s.setConn t none)) := by
  have hopen : (if c.staysOpen then s else s.setConn t none) = s ∨
      (if c.staysOpen then s else s.setConn t none) = s.setConn t none := by
    rcases c.staysOpen with _ | _
    · exact .inr rfl
    · exact .inl rfl
  simp only [Catalog.exec, hx]
  rcases hfresh : x.fresh s.lake with _ | _
  · exact .inr ⟨⟨_, rfl⟩, hopen⟩
  · rcases c.fails with _ | text
    · exact .inl ⟨rfl, rfl⟩
    · rcases c.lands with _ | _
      · exact .inr ⟨⟨text, rfl⟩, hopen⟩
      · exact .inl ⟨rfl, rfl⟩

/-- A `BEGIN` opens a transaction on the present lake, or reports a failure and changes nothing. -/
theorem exec_begin (t : CommitterId) (c : Choice) (s : Catalog) :
    ((Catalog.exec t .begin c s).1 = .ok () ∧ s.conn t = none ∧
      (Catalog.exec t .begin c s).2 = s.setConn t (some (.start s.lake))) ∨
    ((∃ text, (Catalog.exec t .begin c s).1 = .error text) ∧ (Catalog.exec t .begin c s).2 = s) := by
  simp only [Catalog.exec]
  split
  · exact .inr ⟨⟨_, rfl⟩, rfl⟩
  · exact .inr ⟨⟨_, rfl⟩, rfl⟩
  · rename_i hconn _
    exact .inl ⟨rfl, hconn, rfl⟩

theorem exec_rollback (t : CommitterId) (c : Choice) (s : Catalog) :
    (Catalog.exec t .rollback c s).2 = s ∨ (Catalog.exec t .rollback c s).2 = s.setConn t none := by
  simp only [Catalog.exec]
  split
  · exact .inl rfl
  · exact .inl rfl
  · exact .inr rfl

/-- A statement inside a transaction works on it, or fails and leaves it. -/
theorem exec_run_inside {t : CommitterId} {q : Query} {c : Choice} {s : Catalog} {x : Txn}
    (hx : s.conn t = some x) :
    ((∃ text, (Catalog.exec t (.run q) c s).1 = .error text) ∧ (Catalog.exec t (.run q) c s).2 = s) ∨
    ∃ pick, (Catalog.exec t (.run q) c s).1 = (q.exec pick x).1 ∧
      (Catalog.exec t (.run q) c s).2 = s.setConn t (some (q.exec pick x).2) := by
  simp only [Catalog.exec, hx]
  rcases c.fails with _ | text
  · exact .inr ⟨c.pick, rfl, rfl⟩
  · exact .inl ⟨⟨text, rfl⟩, rfl⟩

theorem exec_run_outside {t : CommitterId} {q : Query} {c : Choice} {s : Catalog} (hx : s.conn t = none) :
    ((∃ text, (Catalog.exec t (.run q) c s).1 = .error text) ∧
      ((Catalog.exec t (.run q) c s).2 = s ∨ (Catalog.exec t (.run q) c s).2 = s.autocommit q c.pick)) ∨
    ((Catalog.exec t (.run q) c s).1 = (q.exec c.pick (.start s.lake)).1 ∧
      (Catalog.exec t (.run q) c s).2 = s.autocommit q c.pick) := by
  simp only [Catalog.exec, hx]
  rcases c.fails with _ | text
  · exact .inr ⟨rfl, rfl⟩
  · refine .inl ⟨⟨text, rfl⟩, ?_⟩
    rcases c.lands with _ | _
    · exact .inl rfl
    · exact .inr rfl

/-! ### What a call knows -/

/-- What a call knows of its connection and of the lake: the transaction open on the connection, a
    partition known to have a fence row, the snapshot of its own transaction, whether it has sent
    its `COMMIT`, and whether it knows that it landed. -/
structure Known where
  config : DuckLakeConfig
  call : LakeCall
  conn : Option Txn := none
  fenced : Option PartitionId := none
  snapshot : Option Lake := none
  sent : Bool := false
  landed : Bool := false

/-- The partition whose fence row an answer proves. -/
def Query.proves : (q : Query) → Except String q.Res → Option PartitionId
  | .fenceExists p, .ok true => some p
  | .insertFence p, .ok _ => some p
  | _, _ => none

/-- The transaction on the connection is what the call may commit. -/
def Known.Ready (k : Known) : Prop :=
  match k.call with
  | .commitFiles m ws => ∃ l n, k.snapshot = some l ∧ k.conn = some (staged k.config m ws l) ∧
      l.fenceStamp m.partition = some n
  | .expire _ => ∃ x, k.conn = some x ∧ x.Marks

/-- The protocol of a call: it sends one `COMMIT`, of the transaction it has staged, and outside a
    transaction it only ensures fence rows. -/
def lakeProtocol : Protocol Sql Sql.Res Known where
  pre o k := match o with
    | .commit => k.sent = false ∧ k.Ready
    | .run q => k.conn = none → ∃ p, q = .fenceExists p ∨ q = .insertFence p
    | _ => True
  next o k := match o with
    | .begin => fun r k' =>
      ((∃ text, r = .error text) ∧ k' = k) ∨
      ∃ l, r = .ok () ∧ k.conn = none ∧ k' = { k with conn := some (.start l), snapshot := some l, landed := false } ∧
        ∀ p, k.fenced = some p → ∃ n, l.fenceStamp p = some n
    | .rollback => fun _ k' => k' = k ∨ k' = { k with conn := none }
    | .commit => fun r k' =>
      k' = { k with conn := none, sent := true, landed := true } ∨
      ((∃ text, r = .error text) ∧ ∃ conn, k' = { k with conn, sent := true })
    | .run q => fun r k' => match k.conn with
      | some x => ((∃ text, r = .error text) ∧ k' = k) ∨
          ∃ pick, r = (q.exec pick x).1 ∧ k' = { k with conn := some (q.exec pick x).2 }
      | none => k' = { k with fenced := (q.proves r).or k.fenced }

/-- A failed `COMMIT` is never taken for a commit. -/
theorem commitErrorOutcome_ne (kind : CatalogKind) (text : String) :
    commitErrorOutcome kind text ≠ .committed := by
  simp only [commitErrorOutcome]
  split_ifs
  · simp
  · cases kind
    all_goals simp

/-! ### The programs keep to the protocol -/

/-- What a finished call is known to have done: a batch answered `Committed` has landed, or nothing
    of it was missing. -/
def lakePost (j : LakeCall) (a : LakeReply) (k : Known) : Prop :=
  ∀ m ws, j = .commitFiles m ws → a = .commitFiles (.ok .committed) →
    ∃ l, k.snapshot = some l ∧ (k.landed = true ∨ missing m l = [])

section Programs

variable {k : Known} {x : Txn}

/-- A statement inside a transaction: only an answered one matters, a failed one ends the call. -/
theorem ewp_queryOr {error : String → LakeError} {q : Query} {Q : q.Res → Known → Prop} (hx : k.conn = some x)
    (hQ : ∀ pick r, (q.exec pick x).1 = .ok r → Q r { k with conn := some (q.exec pick x).2 }) :
    lakeProtocol.Ewp (queryOr error q) Q (fun _ _ => True) k := by
  refine Protocol.wp_bind (Protocol.wp_perform ?_ ?_)
  · intro hnone
    rw [hx] at hnone
    cases hnone
  · intro r k' hnext
    simp only [lakeProtocol, hx] at hnext
    rcases hnext with ⟨⟨text, rfl⟩, -⟩ | ⟨pick, hr, rfl⟩
    · exact trivial
    · rcases r with text | a
      · exact trivial
      · exact hQ pick a hr.symm

theorem mem_keys_iff {l : Lake} {key : PartitionId × ℤ × PartName} :
    (values l.manifests).countP (·.key = key) = 0 ↔ key ∉ l.keys := by
  simp only [List.countP_eq_zero, Lake.keys, Lake.contents, List.map_map, List.mem_map, decide_eq_true_eq,
    not_exists, not_and, Function.comp, ManifestRow.key_content]

theorem ewp_absentParts {m : WindowManifest} {l : Lake} (hx : k.conn = some (.start l)) :
    lakeProtocol.Ewp (absentParts m) (fun absent k' => k' = k ∧ absent = missing m l) (fun _ _ => True) k := by
  refine Protocol.ewp_foldlM (Q := fun done absent k' => k' = k ∧
    absent = done.filter fun part => (m.partition, toI64 m.windowId, part) ∉ l.keys) ?_ m.parts [] ⟨rfl, rfl⟩
  rintro done part absent k' ⟨rfl, rfl⟩
  refine Protocol.ewp_bind (ewp_queryOr hx ?_)
  intro pick present hpresent
  refine Protocol.ewp_pure ⟨?_, ?_⟩
  · simp only [Query.exec, ← hx]
  · simp only [Query.exec, Txn.start, TableTxn.view_start, Except.ok.injEq] at hpresent
    subst hpresent
    simp only [mem_keys_iff, List.filter_append, List.filter_singleton]
    split_ifs with hmem
    · simp [hmem]
    · simp [hmem]

/-- The transaction with `parts` registered. -/
def withParts (config : DuckLakeConfig) (m : WindowManifest) (x : Txn) (parts : List PartName) : Txn :=
  { x with
    manifests := { x.manifests with inserted := x.manifests.inserted ++ parts.map (manifestRow m) }
    files := { x.files with inserted := x.files.inserted ++ parts.map (dataFile config m) } }

theorem ewp_registerParts {config : DuckLakeConfig} {m : WindowManifest} (hx : k.conn = some x)
    (parts : List PartName) :
    lakeProtocol.Ewp (parts.forM (registerPart config m))
      (fun _ k' => k' = { k with conn := some (withParts config m x parts) }) (fun _ _ => True) k := by
  refine Protocol.ewp_forM (Q := fun done k' => k' = { k with conn := some (withParts config m x done) })
    ?_ parts [] ?_
  · rintro done part k' rfl
    refine Protocol.ewp_bind (ewp_queryOr rfl fun _ _ _ => ewp_queryOr rfl fun _ _ _ => ?_)
    simp only [Query.exec, withParts, TableTxn.insert, List.map_append, List.map_cons, List.map_nil,
      List.append_assoc, dataFile]
  · simp only [withParts, List.map_nil, List.append_nil, ← hx]

theorem ewp_upsertWatermarks (hx : k.conn = some x) (ws : List WatermarkRow) :
    lakeProtocol.Ewp (ws.forM upsertWatermark)
      (fun _ k' => k' = { k with conn := some { x with watermarks := ws.foldl upsertRow x.watermarks } })
      (fun _ _ => True) k := by
  refine Protocol.ewp_forM (Q := fun done k' =>
    k' = { k with conn := some { x with watermarks := done.foldl upsertRow x.watermarks } }) ?_ ws [] ?_
  · rintro done row k' rfl
    refine Protocol.ewp_bind (ewp_queryOr rfl fun pick updated hupdated => ?_)
    simp only [Query.exec, Except.ok.injEq] at hupdated
    subst hupdated
    rw [List.foldl_append, List.foldl_cons, List.foldl_nil, upsertRow]
    split_ifs
    · exact ewp_queryOr rfl fun _ _ _ => rfl
    · exact Protocol.ewp_pure rfl
  · simp only [List.foldl_nil, ← hx]

/-- `stage_commit_writes` on a fresh transaction: it finds nothing missing, or stages all of it. -/
theorem ewp_stageCommitWrites (config : DuckLakeConfig) (m : WindowManifest) (ws : List WatermarkRow) {l : Lake}
    (hx : k.conn = some (.start l)) :
    lakeProtocol.Ewp (stageCommitWrites config m ws)
      (fun s k' => match s with
        | .alreadyRegistered => k' = k ∧ missing m l = []
        | .wrote => k' = { k with conn := some (staged config m ws l) })
      (fun _ _ => True) k := by
  refine Protocol.ewp_bind (Protocol.wp_mono ?_ (ewp_absentParts (m := m) hx))
  rintro (e | absent) k' hk
  · exact trivial
  · obtain ⟨rfl, rfl⟩ := hk
    dsimp only
    split_ifs with hall
    · exact Protocol.ewp_pure ⟨rfl, hall.1⟩
    · refine Protocol.ewp_bind (Protocol.wp_mono ?_ (ewp_registerParts hx (missing m l)))
      rintro (e | _) k' hk
      · exact trivial
      · obtain rfl := hk
        refine Protocol.ewp_bind (Protocol.wp_mono ?_ (ewp_upsertWatermarks rfl ws))
        rintro (e | _) k' hk
        · exact trivial
        · obtain rfl := hk
          refine Protocol.ewp_bind (ewp_queryOr rfl fun _ _ _ => Protocol.ewp_pure ?_)
          simp only [Query.exec, staged, withParts, Txn.start, TableTxn.start, List.nil_append]

/-- A statement about a fence row outside a transaction. -/
theorem ewp_query_outside {q : Query} {Q : q.Res → Known → Prop} (hx : k.conn = none)
    (hq : ∃ p, q = .fenceExists p ∨ q = .insertFence p)
    (hQ : ∀ r, Q r { k with fenced := (q.proves (.ok r)).or k.fenced }) :
    lakeProtocol.Ewp (query q) Q (fun _ _ => True) k := by
  obtain ⟨config, call, conn, fenced, snapshot, sent, landed⟩ := k
  dsimp only at hx
  subst hx
  refine Protocol.wp_bind (Protocol.wp_perform (fun _ => hq) ?_)
  rintro (text | a) k' rfl
  · exact trivial
  · exact hQ a

/-- After the ensure, the fence row is known, unless a transaction was left open on the connection. -/
theorem ewp_ensureFence (p : PartitionId) :
    lakeProtocol.Ewp (ensureFence p)
      (fun _ k' => (k.conn = none ∧ k' = { k with fenced := some p }) ∨ ∃ x, k'.conn = some x)
      (fun _ _ => True) k := by
  obtain ⟨config, call, _ | x, fenced, snapshot, sent, landed⟩ := k
  · refine Protocol.ewp_bind (ewp_query_outside rfl ⟨p, .inl rfl⟩ ?_)
    rintro (_ | _)
    · exact ewp_query_outside rfl ⟨p, .inr rfl⟩ fun _ => .inl ⟨rfl, rfl⟩
    · exact Protocol.ewp_pure (.inl ⟨rfl, rfl⟩)
  · refine Protocol.ewp_bind (ewp_queryOr rfl ?_)
    rintro pick (_ | _) -
    · exact ewp_queryOr rfl fun _ _ _ => .inr ⟨_, rfl⟩
    · exact Protocol.ewp_pure (.inr ⟨_, rfl⟩)

theorem wp_rollback {Q : Except String Unit → Known → Prop}
    (hQ : ∀ r conn, Q r { k with conn }) : lakeProtocol.Wp rollbackTransaction Q k := by
  refine Protocol.wp_perform trivial ?_
  rintro r k' (rfl | rfl)
  · exact hQ r k'.conn
  · exact hQ r none

theorem wp_begin {Q : Except String Unit → Known → Prop} (herr : ∀ text, Q (.error text) k)
    (hok : k.conn = none → ∀ l, (∀ p, k.fenced = some p → ∃ n, l.fenceStamp p = some n) →
      Q (.ok ()) { k with conn := some (.start l), snapshot := some l, landed := false }) :
    lakeProtocol.Wp beginTransaction Q k := by
  refine Protocol.wp_perform trivial ?_
  rintro r k' (⟨⟨text, rfl⟩, rfl⟩ | ⟨l, rfl, hx, rfl, hl⟩)
  · exact herr text
  · exact hok hx l hl

theorem wp_commit {Q : Except String Unit → Known → Prop} (hsent : k.sent = false) (hready : k.Ready)
    (hQ : ∀ r, Q r { k with conn := none, sent := true, landed := true })
    (herr : ∀ text conn, Q (.error text) { k with conn, sent := true }) :
    lakeProtocol.Wp commitTransaction Q k := by
  refine Protocol.wp_perform ⟨hsent, hready⟩ ?_
  rintro r k' (rfl | ⟨⟨text, rfl⟩, conn, rfl⟩)
  · exact hQ r
  · exact herr text conn

theorem wp_commitFiles {m : WindowManifest} {ws : List WatermarkRow} (hcall : k.call = .commitFiles m ws)
    (hsent : k.sent = false) :
    lakeProtocol.Wp (commitFilesBlocking k.config m ws)
      (fun a k' => a = .ok .committed → ∃ l, k'.snapshot = some l ∧ (k'.landed = true ∨ missing m l = [])) k := by
  refine Protocol.wp_bind (Protocol.wp_mono ?_ (ewp_ensureFence m.partition))
  rintro (e | _) k' hk
  · exact Protocol.wp_pure fun h => by cases h
  · refine Protocol.wp_bind (wp_begin (fun text => Protocol.wp_pure fun h => by cases h) ?_)
    intro hx l hl
    rcases hk with ⟨-, rfl⟩ | ⟨x, hx'⟩
    · -- The partition's fence row is in the snapshot the transaction works on.
      obtain ⟨n, hn⟩ := hl m.partition rfl
      refine Protocol.wp_bind (Protocol.wp_mono ?_ (ewp_stageCommitWrites k.config m ws rfl))
      rintro (e | s) k' hk
      · refine Protocol.wp_bind (wp_rollback fun r conn => ?_)
        split_ifs
        all_goals exact Protocol.wp_pure fun h => by cases h
      · rcases s with _ | _
        · obtain rfl := hk
          refine Protocol.wp_bind (wp_commit hsent ?_ ?_ ?_)
          · simp only [Known.Ready, hcall]
            exact ⟨l, n, rfl, rfl, hn⟩
          · rintro (text | _)
            · refine Protocol.wp_bind (wp_rollback fun r conn => Protocol.wp_pure fun _ => ?_)
              exact ⟨l, rfl, .inl rfl⟩
            · exact Protocol.wp_pure fun _ => ⟨l, rfl, .inl rfl⟩
          · intro text conn
            refine Protocol.wp_bind (wp_rollback fun r conn => Protocol.wp_pure fun h => ?_)
            exact absurd (Except.ok.inj h) (commitErrorOutcome_ne _ _)
        · obtain ⟨rfl, hmissing⟩ := hk
          exact Protocol.wp_bind (wp_rollback fun r conn => Protocol.wp_pure fun _ => ⟨l, rfl, .inr hmissing⟩)
    · rw [hx'] at hx
      cases hx

theorem ewp_expireParts (config : DuckLakeConfig) (hx : k.conn = some x) (hmarks : x.Marks)
    (parts : List PartName) :
    lakeProtocol.Ewp (parts.forM (expirePart config))
      (fun _ k' => ∃ y : Txn, y.Marks ∧ k' = { k with conn := some y }) (fun _ _ => True) k := by
  refine Protocol.ewp_forM (Q := fun _ k' => ∃ y : Txn, y.Marks ∧ k' = { k with conn := some y }) ?_ parts []
    ⟨x, hmarks, by rw [← hx]⟩
  rintro done part k' ⟨y, hy, rfl⟩
  refine Protocol.ewp_bind (ewp_queryOr rfl ?_)
  rintro pick ⟨dataset, alreadyExpired⟩ hrow
  have hsame : ((Query.selectPart part).exec pick y).2 = y := by
    simp only [Query.exec]
    split
    all_goals rfl
  rcases alreadyExpired with _ | _
  · refine Protocol.ewp_bind (ewp_queryOr rfl fun _ _ _ => ewp_queryOr rfl fun _ _ _ => ?_)
    rw [hsame]
    exact ⟨_, (hy.deleteRows _ _ _).markExpired _ _, rfl⟩
  · refine Protocol.ewp_pure ⟨y, hy, ?_⟩
    rw [hsame]

theorem wp_expire {parts : List PartName} {Q : Except LakeError Unit → Known → Prop}
    (hcall : k.call = .expire parts) (hsent : k.sent = false) (hQ : ∀ r k', Q r k') :
    lakeProtocol.Wp (expireBlocking k.config parts) Q k := by
  refine Protocol.wp_bind (wp_begin (fun text => Protocol.wp_pure (hQ _ _)) ?_)
  intro hx l _
  refine Protocol.wp_bind (Protocol.wp_mono ?_ (ewp_expireParts k.config rfl (marks_start l) parts))
  rintro (e | _) k' hk
  · exact Protocol.wp_bind (wp_rollback fun _ _ => Protocol.wp_pure (hQ _ _))
  · obtain ⟨y, hy, rfl⟩ := hk
    refine Protocol.wp_bind (wp_commit hsent ?_ ?_ ?_)
    · simp only [Known.Ready, hcall]
      exact ⟨y, rfl, hy⟩
    · rintro (text | _)
      all_goals exact Protocol.wp_pure (hQ _ _)
    · exact fun text conn => Protocol.wp_pure (hQ _ _)

/-- Every call keeps to the protocol, from any connection. -/
theorem wp_program {config : CommitterId → DuckLakeConfig} {t : CommitterId} {j : LakeCall}
    (hconfig : k.config = config t) (hcall : k.call = j) (hsent : k.sent = false) :
    lakeProtocol.Wp ((committers config).program t j) (lakePost j) k := by
  cases j with
  | commitFiles m ws =>
    simp only [committers]
    rw [← hconfig]
    refine Protocol.wp_bind (Protocol.wp_mono ?_ (wp_commitFiles hcall hsent))
    intro a k' ha
    refine Protocol.wp_pure ?_
    rintro m' ws' hj hreply
    cases hj
    cases hreply
    exact ha rfl
  | expire parts =>
    simp only [committers]
    rw [← hconfig]
    refine Protocol.wp_bind (wp_expire hcall hsent fun r k' => Protocol.wp_pure ?_)
    rintro m ws hj
    cases hj

end Programs

end Duckspout
