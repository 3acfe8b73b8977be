import Duckspout.Lake.Fence
import Mathlib.Data.List.Nodup

/-! The single drain commit, over every interleaving: at most one manifest row for a part of a window,
    every attempt all or nothing, and what an answered `Committed` means. -/

namespace Duckspout

open Snapshot Threads

/-! ### The outline -/

/-- Registered files, manifest rows and watermark rows are the same. -/
structure SameData (l l' : Lake) : Prop where
  manifests : l'.manifests = l.manifests
  watermarks : l'.watermarks = l.watermarks
  files : l'.files = l.files

/-- All or none: every step of attempt `n` leaves the data of the lake alone, or exactly one of them
    registers all that the batch misses, with its watermark rows, and the lake keeps it. -/
def AllOrNone (config : CommitterId → DuckLakeConfig) (h : List LakeEvent) (n : ℕ) (t : CommitterId)
    (m : WindowManifest) (ws : List WatermarkRow) : Prop :=
  (∀ x ∈ stepsOf (committers config) n { shared := {} } h, SameData x.1.lake x.2.lake) ∨
  ∃ before s s' after, stepsOf (committers config) n { shared := {} } h = before ++ (s, s') :: after ∧
    Registered (config t) m ws s.lake s'.lake ∧ s'.lake.Later (committed config h).shared.lake ∧
    ∀ x ∈ before ++ after, SameData x.1.lake x.2.lake

/-- What is invariant: the lake only grows, an open transaction is synced with it, and the attempts so
    far are all or none. -/
structure LakeInv (config : CommitterId → DuckLakeConfig) (h : List LakeEvent) : Prop where
  later : ∀ es, es <+: h → (committed config es).shared.lake.Later (committed config h).shared.lake
  synced : ∀ t x, (committed config h).shared.conn t = some x → Synced x.base (committed config h).shared.lake
  attempts : ∀ (n : ℕ) t m ws, (committed config h).started[n]? = some (t, .commitFiles m ws) →
    AllOrNone config h n t m ws

/-- In the history, attempt `n` performs its `BEGIN` when the lake is `l`. -/
def BeganOn (config : CommitterId → DuckLakeConfig) (h : List LakeEvent) (n : ℕ) (l : Lake) : Prop :=
  ∃ es t c j next, es ++ [.act t c] <+: h ∧ (committed config es).shared.lake = l ∧
    (committed config es).running t = some ⟨n, j, .call .begin next⟩

/-- What it means that a call knows `k`. -/
structure Knows (config : CommitterId → DuckLakeConfig) (h : List LakeEvent) (t : CommitterId) (n : ℕ)
    (j : LakeCall) (k : Known) : Prop where
  config_eq : k.config = config t
  call_eq : k.call = j
  conn : (committed config h).shared.conn t = k.conn
  fenced : ∀ p, k.fenced = some p → ∃ v, (committed config h).shared.lake.fenceStamp p = some v
  snapshot : ∀ l, k.snapshot = some l → BeganOn config h n l ∧ l.Later (committed config h).shared.lake
  unsent : k.sent = false → ∀ x ∈ stepsOf (committers config) n { shared := {} } h, SameData x.1.lake x.2.lake
  landed : k.landed = true → ∀ m ws l, j = .commitFiles m ws → k.snapshot = some l →
    ∀ part ∈ missing m l, manifestRow m part ∈ (committed config h).shared.lake.contents

/-- A batch answered `Committed` is registered, and what was not yet registered when the call began its
    transaction is registered with the batch's content. -/
def CommittedMeans (config : CommitterId → DuckLakeConfig) (h : List LakeEvent) (n : ℕ) (j : LakeCall)
    (a : LakeReply) : Prop :=
  ∀ m ws, j = .commitFiles m ws → a = .commitFiles (.ok .committed) → ∃ l, BeganOn config h n l ∧
    ∀ part ∈ m.parts, ∃ row ∈ (committed config h).shared.lake.contents,
      row.key = (m.partition, toI64 m.windowId, part) ∧ (row.key ∉ l.keys → row = manifestRow m part)

def lakeOutline (config : CommitterId → DuckLakeConfig) : Outline (committers config) { shared := {} } Known where
  ok _ _ := True
  inv := LakeInv config
  knows := Knows config
  proto := lakeProtocol
  post := lakePost
  done := CommittedMeans config

theorem SameData.refl (l : Lake) : SameData l l := ⟨rfl, rfl, rfl⟩

/-- What one step of the catalog may do, on behalf of connection `t`. -/
structure Effect (t : CommitterId) (s s' : Catalog) : Prop where
  later : s.lake.Later s'.lake
  grows : ∃ added, s'.lake.contents = s.lake.contents ++ added ∧ ∀ c ∈ added, ∃ v,
    s.lake.fenceStamp c.partition = some v ∧ s'.lake.fenceStamp c.partition = some (v + 1)
  others : ∀ u, u ≠ t → s'.conn u = s.conn u
  own : ∀ x, s'.conn t = some x → Synced x.base s'.lake

/-- A step that leaves the lake alone. -/
theorem effect_same {t : CommitterId} {s s' : Catalog} (hlake : s'.lake = s.lake)
    (hothers : ∀ u, u ≠ t → s'.conn u = s.conn u) (hown : ∀ x, s'.conn t = some x → Synced x.base s.lake) :
    Effect t s s' := by
  refine ⟨?_, ⟨[], ?_, ?_⟩, hothers, ?_⟩
  · rw [hlake]
    exact Lake.Later.refl _
  · rw [hlake, List.append_nil]
  · intro c hc
    cases hc
  · rw [hlake]
    exact hown

theorem setConn_self (s : Catalog) (t : CommitterId) (x : Option Txn) : (s.setConn t x).conn t = x :=
  Function.update_self ..

theorem setConn_ne (s : Catalog) {t u : CommitterId} (x : Option Txn) (h : u ≠ t) :
    (s.setConn t x).conn u = s.conn u :=
  Function.update_of_ne h ..

theorem effect_close {t : CommitterId} (s : Catalog) : Effect t s (s.setConn t none) :=
  effect_same rfl (fun _ hu => setConn_ne s none hu) fun x hx => by
    rw [setConn_self] at hx
    cases hx

/-- A landing transaction. -/
theorem effect_land {t : CommitterId} {s : Catalog} {x : Txn} (added : List ManifestRow) (hkeeps : x.Keeps)
    (hsync : Synced x.base s.lake) (hadd : (x.merge s.lake).contents = s.lake.contents ++ added)
    (hraise : ∀ c ∈ added, ∃ v, s.lake.fenceStamp c.partition = some v ∧
      (x.merge s.lake).fenceStamp c.partition = some (v + 1)) :
    Effect t s { s.setConn t none with lake := x.merge s.lake } := by
  refine ⟨x.merge_later hkeeps hsync.later, ⟨added, hadd, hraise⟩, fun _ hu => setConn_ne s none hu, ?_⟩
  intro y hy
  rw [show ({ s.setConn t none with lake := x.merge s.lake } : Catalog).conn t = none from
    setConn_self s t none] at hy
  cases hy

theorem Registered.contents {config : DuckLakeConfig} {m : WindowManifest} {ws : List WatermarkRow} {l l' : Lake}
    (h : Registered config m ws l l') : l'.contents = l.contents ++ (missing m l).map (manifestRow m) := by
  simp only [Lake.contents, h.manifests, List.map_append, List.map_map]
  rfl

/-- The two statements of the ensure, outside a transaction. -/
theorem effect_ensure {t : CommitterId} {s : Catalog} {q : Query} (hx : s.conn t = none)
    (hq : ∃ p, q = .fenceExists p ∨ q = .insertFence p) (pick : ℕ) :
    Effect t s (s.autocommit q pick) ∧ SameData s.lake (s.autocommit q pick).lake := by
  obtain ⟨p, rfl | rfl⟩ := hq
  · rw [autocommit_fenceExists]
    refine ⟨effect_same rfl (fun _ _ => rfl) fun x hx' => ?_, SameData.refl _⟩
    rw [hx] at hx'
    cases hx'
  · rw [autocommit_insertFence]
    refine ⟨⟨⟨later_append _ _, Snapshot.Later.refl _, Snapshot.Later.refl _, Snapshot.Later.refl _⟩,
      ⟨[], (List.append_nil _).symm, fun c hc => by cases hc⟩, fun _ _ => rfl, fun x hx' => ?_⟩, ⟨rfl, rfl, rfl⟩⟩
    rw [show ({ s with lake := { s.lake with fence := _ } } : Catalog).conn t = none from hx] at hx'
    cases hx'

/-- The proved fence row is there after the statement. -/
theorem proves_fence {s : Catalog} {q : Query} {pick : ℕ} {p : PartitionId}
    (h : q.proves (q.exec pick (.start s.lake)).1 = some p) :
    ∃ v, (s.autocommit q pick).lake.fenceStamp p = some v := by
  rw [← Option.isSome_iff_exists, Lake.fenceStamp, stamp_isSome]
  cases q with
  | fenceExists p' =>
    rw [autocommit_fenceExists]
    simp only [Query.exec, Txn.start, TableTxn.view_start] at h
    rcases hany : (values s.lake.fence).any (·.partition = p') with _ | _
    · rw [hany] at h
      cases h
    · rw [hany] at h
      cases h
      obtain ⟨r, hr, hp⟩ := List.any_eq_true.mp hany
      exact List.mem_map.mpr ⟨r, hr, of_decide_eq_true hp⟩
  | insertFence p' =>
    cases h
    rw [autocommit_insertFence]
    simp [values]
  | _ => cases h

/-- What a landed call has done: a commit has registered its batch, an expiry has registered nothing. -/
def Landed (config : DuckLakeConfig) (l l' : Lake) : LakeCall → Prop
  | .commitFiles m ws => Registered config m ws l l'
  | .expire _ => l'.contents = l.contents

/-- The step of a call: its effect, whether it touches the data, and what the call knows after it. -/
structure StepSpec (config : CommitterId → DuckLakeConfig) (t : CommitterId) (j : LakeCall) (o : Sql) (k : Known)
    (s : Catalog) (answer : o.Res × Catalog) (k' : Known) : Prop where
  effect : Effect t s answer.2
  next : lakeProtocol.next o k answer.1 k'
  data : SameData s.lake answer.2.lake ∨
    (k.sent = false ∧ k'.sent = true ∧ Landed (config t) s.lake answer.2.lake j)
  config_eq : k'.config = k.config
  call_eq : k'.call = k.call
  conn : answer.2.conn t = k'.conn
  fenced : ∀ p, k'.fenced = some p → k.fenced = some p ∨ ∃ v, answer.2.lake.fenceStamp p = some v
  snapshot : ∀ l, k'.snapshot = some l → k.snapshot = some l ∨ (o = .begin ∧ l = s.lake)
  sent : k'.sent = false → k.sent = false
  landed : k'.landed = true → (k.landed = true ∧ k'.snapshot = k.snapshot) ∨
    ∀ m ws l, j = .commitFiles m ws → k'.snapshot = some l →
      ∀ part ∈ missing m l, manifestRow m part ∈ answer.2.lake.contents

section Step

variable {config : CommitterId → DuckLakeConfig} {h : List LakeEvent} {t : CommitterId} {c : Choice} {n : ℕ}
  {j : LakeCall} {k : Known}

/-- A step that leaves everything alone. -/
theorem stepSpec_same {o : Sql} {s : Catalog} {answer : o.Res × Catalog} (hs : answer.2 = s)
    (hsync : ∀ x, s.conn t = some x → Synced x.base s.lake) (hconn : s.conn t = k.conn)
    (hnext : lakeProtocol.next o k answer.1 k) : StepSpec config t j o k s answer k where
  effect := effect_same (by rw [hs]) (fun _ _ => by rw [hs]) (by rw [hs]; exact hsync)
  next := hnext
  data := .inl (by rw [hs]; exact SameData.refl _)
  config_eq := rfl
  call_eq := rfl
  conn := by rw [hs, hconn]
  fenced := fun _ hp => .inl hp
  snapshot := fun _ hl => .inl hl
  sent := id
  landed := fun hl => .inl ⟨hl, rfl⟩

/-- A step that only opens, changes or closes the connection's transaction. -/
theorem stepSpec_conn {o : Sql} {s : Catalog} {answer : o.Res × Catalog} {x : Option Txn}
    (hs : answer.2 = s.setConn t x) (hsync : ∀ y, x = some y → Synced y.base s.lake)
    (hnext : lakeProtocol.next o k answer.1 { k with conn := x }) :
    StepSpec config t j o k s answer { k with conn := x } where
  effect := by
    rw [hs]
    refine effect_same rfl (fun _ hu => setConn_ne s x hu) fun y hy => hsync y ?_
    rw [← hy, setConn_self]
  next := hnext
  data := .inl (by rw [hs]; exact SameData.refl _)
  config_eq := rfl
  call_eq := rfl
  conn := by rw [hs, setConn_self]
  fenced := fun _ hp => .inl hp
  snapshot := fun _ hl => .inl hl
  sent := id
  landed := fun hl => .inl ⟨hl, rfl⟩

theorem step_rollback (s : Catalog) (hsync : ∀ x, s.conn t = some x → Synced x.base s.lake)
    (hconn : s.conn t = k.conn) :
    ∃ k', StepSpec config t j .rollback k s (Catalog.exec t .rollback c s) k' := by
  rcases exec_rollback t c s with hs | hs
  · exact ⟨k, stepSpec_same hs hsync hconn (.inl rfl)⟩
  · exact ⟨_, stepSpec_conn hs (fun y hy => by cases hy) (.inr rfl)⟩

theorem step_begin (s : Catalog) (hsync : ∀ x, s.conn t = some x → Synced x.base s.lake)
    (hconn : s.conn t = k.conn) (hfenced : ∀ p, k.fenced = some p → ∃ v, s.lake.fenceStamp p = some v) :
    ∃ k', StepSpec config t j .begin k s (Catalog.exec t .begin c s) k' := by
  rcases exec_begin t c s with ⟨hr, hnone, hs⟩ | ⟨herr, hs⟩
  · have heff : Effect t s (s.setConn t (some (.start s.lake))) := by
      refine effect_same rfl (fun _ hu => setConn_ne s _ hu) fun y hy => ?_
      rw [setConn_self, Option.some.injEq] at hy
      rw [← hy, Txn.base_start]
      exact Synced.refl _
    refine ⟨{ k with conn := some (.start s.lake), snapshot := some s.lake, landed := false },
      by rw [hs]; exact heff, .inr ⟨s.lake, hr, hconn ▸ hnone, rfl, hfenced⟩,
      .inl (by rw [hs]; exact SameData.refl _), rfl, rfl, by rw [hs, setConn_self], fun _ hp => .inl hp, ?_, id, ?_⟩
    · intro l hl
      exact .inr ⟨rfl, (Option.some.inj hl).symm⟩
    · intro hl
      cases hl
  · exact ⟨k, stepSpec_same hs hsync hconn (.inl ⟨herr, rfl⟩)⟩

theorem proves_error (q : Query) (text : String) : q.proves (.error text) = none := by
  cases q
  all_goals rfl

theorem step_run {q : Query} (s : Catalog) (hsync : ∀ x, s.conn t = some x → Synced x.base s.lake)
    (hconn : s.conn t = k.conn) (hpre : lakeProtocol.pre (.run q) k) :
    ∃ k', StepSpec config t j (.run q) k s (Catalog.exec t (.run q) c s) k' := by
  obtain ⟨cfg, call, _ | x, fenced, snap, sent, landed⟩ := k
  · dsimp only at hconn
    have hens := effect_ensure hconn (hpre rfl) c.pick
    have hsame : Effect t s s := effect_same rfl (fun _ _ => rfl) hsync
    -- Outside a transaction the statement has either not happened or happened on its own.
    have hout : (Effect t s (Catalog.exec t (.run q) c s).2 ∧
        SameData s.lake (Catalog.exec t (.run q) c s).2.lake ∧ (Catalog.exec t (.run q) c s).2.conn t = none) ∧
        ∀ p, q.proves (Catalog.exec t (.run q) c s).1 = some p →
          ∃ v, (Catalog.exec t (.run q) c s).2.lake.fenceStamp p = some v := by
      rcases exec_run_outside (q := q) (c := c) hconn with ⟨⟨text, hr⟩, hs | hs⟩ | ⟨hr, hs⟩
      · rw [hr, hs]
        exact ⟨⟨hsame, SameData.refl _, hconn⟩, fun p hp => by rw [proves_error] at hp; cases hp⟩
      · rw [hr, hs]
        exact ⟨⟨hens.1, hens.2, hconn⟩, fun p hp => by rw [proves_error] at hp; cases hp⟩
      · rw [hr, hs]
        exact ⟨⟨hens.1, hens.2, hconn⟩, fun p hp => proves_fence hp⟩
    refine ⟨⟨cfg, call, none, (q.proves (Catalog.exec t (.run q) c s).1).or fenced, snap, sent, landed⟩,
      hout.1.1, rfl, .inl hout.1.2.1, rfl, rfl, hout.1.2.2, ?_, fun _ hl => .inl hl, id, fun hl => .inl ⟨hl, rfl⟩⟩
    intro p hp
    rcases Option.or_eq_some_iff.mp hp with hnew | ⟨-, hold⟩
    · exact .inr (hout.2 p hnew)
    · exact .inl hold
  · dsimp only at hconn
    rcases exec_run_inside (q := q) (c := c) hconn with ⟨herr, hs⟩ | ⟨pick, hr, hs⟩
    · exact ⟨_, stepSpec_same hs hsync hconn (.inl ⟨herr, rfl⟩)⟩
    · refine ⟨_, stepSpec_conn hs ?_ (.inr ⟨pick, hr, rfl⟩)⟩
      rintro y hy
      cases hy
      rw [Query.exec_base]
      exact hsync x hconn

theorem step_commit (s : Catalog) (hsync : ∀ x, s.conn t = some x → Synced x.base s.lake)
    (hconn : s.conn t = k.conn) (hconfig : k.config = config t) (hcall : k.call = j)
    (hpre : lakeProtocol.pre .commit k) :
    ∃ k', StepSpec config t j .commit k s (Catalog.exec t .commit c s) k' := by
  obtain ⟨hsent, hready⟩ := hpre
  -- Either way the connection has a transaction, synced with the lake, that keeps what identifies a
  -- row and raises the fence of what it adds.
  have hland : ∃ x, s.conn t = some x ∧ (x.fresh s.lake = true →
      Effect t s { s.setConn t none with lake := x.merge s.lake } ∧ Landed (config t) s.lake (x.merge s.lake) j ∧
      ∀ m ws l, j = .commitFiles m ws → k.snapshot = some l →
        ∀ part ∈ missing m l, manifestRow m part ∈ (x.merge s.lake).contents) := by
    cases j with
    | commitFiles m ws =>
      simp only [Known.Ready, hcall] at hready
      obtain ⟨l, v, hl, hx, hv⟩ := hready
      have hs : Synced l s.lake := by
        have := hsync _ (hconn.trans hx)
        rwa [staged_base] at this
      refine ⟨_, hconn.trans hx, fun hfresh => ⟨effect_land _ staged_keeps (by rw [staged_base]; exact hs)
        (staged_contents hs) ?_, hconfig ▸ staged_registers hs hv hfresh, ?_⟩⟩
      · intro c hc
        obtain ⟨part, -, rfl⟩ := List.mem_map.mp hc
        exact staged_raises hs hv
      · rintro m' ws' l' hj hl' part hpart
        cases hj
        rw [hl, Option.some.injEq] at hl'
        subst hl'
        rw [staged_contents hs]
        exact List.mem_append_right _ (List.mem_map_of_mem hpart)
    | expire parts =>
      simp only [Known.Ready, hcall] at hready
      obtain ⟨x, hx, hmarks⟩ := hready
      have hs := hsync x (hconn.trans hx)
      have hcontents := hmarks.contents_merge hs.later
      refine ⟨x, hconn.trans hx, fun _ => ⟨effect_land [] hmarks.keeps hs ?_ ?_, hcontents, ?_⟩⟩
      · rw [hcontents, List.append_nil]
      · intro c hc
        cases hc
      · intro m ws l hj
        cases hj
  obtain ⟨x, hx, hland⟩ := hland
  rcases exec_commit (c := c) hx with ⟨hfresh, hs⟩ | ⟨herr, hs | hs⟩
  · obtain ⟨heff, hdone, hrows⟩ := hland hfresh
    refine ⟨{ k with conn := none, sent := true, landed := true }, by rw [hs]; exact heff, .inl rfl,
      .inr ⟨hsent, rfl, by rw [hs]; exact hdone⟩, rfl, rfl, ?_, fun _ hp => .inl hp,
      fun _ hl => .inl hl, (fun hf => by cases hf), fun _ => .inr ?_⟩
    · rw [hs]
      exact setConn_self s t none
    · intro m ws l hj hl part hpart
      rw [hs]
      exact hrows m ws l hj hl part hpart
  · refine ⟨{ k with conn := s.conn t, sent := true }, ?_, .inr ⟨herr, s.conn t, rfl⟩, ?_, rfl, rfl, by rw [hs],
      fun _ hp => .inl hp, fun _ hl => .inl hl, (fun hf => by cases hf), fun hl => .inl ⟨hl, rfl⟩⟩
    · rw [hs]
      exact effect_same rfl (fun _ _ => rfl) hsync
    · exact .inl (by rw [hs]; exact SameData.refl _)
  · refine ⟨{ k with conn := none, sent := true }, ?_, .inr ⟨herr, none, rfl⟩, ?_, rfl, rfl,
      by rw [hs, setConn_self], fun _ hp => .inl hp, fun _ hl => .inl hl, (fun hf => by cases hf),
      fun hl => .inl ⟨hl, rfl⟩⟩
    · rw [hs]
      exact effect_close s
    · exact .inl (by rw [hs]; exact SameData.refl _)

end Step

/-! ### The outline is sound -/

section Sound

variable {config : CommitterId → DuckLakeConfig} {h : List LakeEvent} {e : LakeEvent}

theorem committed_concat (h : List LakeEvent) (e : LakeEvent) :
    committed config (h ++ [e]) = (committers config).step (committed config h) e :=
  run_concat ..

theorem numbered_committed (h : List LakeEvent) : Numbered (committed config h) :=
  numbered_run (fun t r hr => by cases hr) h

theorem BeganOn.concat {n : ℕ} {l : Lake} (hb : BeganOn config h n l) : BeganOn config (h ++ [e]) n l := by
  obtain ⟨es, t, c, j, next, hes, hl, hrun⟩ := hb
  exact ⟨es, t, c, j, next, hes.trans (List.prefix_append h [e]), hl, hrun⟩

theorem stepsOf_other {n : ℕ} (hne : stepper (committed config h) e ≠ some n) :
    stepsOf (committers config) n { shared := {} } (h ++ [e]) =
      stepsOf (committers config) n { shared := {} } h := by
  rw [stepsOf_concat, if_neg (show ¬ stepper ((committers config).run _ h) e = some n from hne), List.append_nil]

theorem stepsOf_own {n : ℕ} (hn : stepper (committed config h) e = some n) :
    stepsOf (committers config) n { shared := {} } (h ++ [e]) =
      stepsOf (committers config) n { shared := {} } h ++
        [((committed config h).shared, (committed config (h ++ [e])).shared)] := by
  rw [stepsOf_concat, if_pos (show stepper ((committers config).run _ h) e = some n from hn), committed_concat]
  rfl

/-- A step of another attempt, or one that leaves the data alone, keeps an attempt all or none. -/
theorem AllOrNone.quiet {n : ℕ} {t : CommitterId} {m : WindowManifest} {ws : List WatermarkRow}
    (ha : AllOrNone config h n t m ws)
    (hlater : (committed config h).shared.lake.Later (committed config (h ++ [e])).shared.lake)
    (hsame : stepper (committed config h) e = some n →
      SameData (committed config h).shared.lake (committed config (h ++ [e])).shared.lake) :
    AllOrNone config (h ++ [e]) n t m ws := by
  by_cases hn : stepper (committed config h) e = some n
  · rcases ha with hnone | ⟨before, s, s', after, hsteps, hreg, hkept, hsame'⟩
    · refine .inl ?_
      rw [stepsOf_own hn]
      intro x hx
      rcases List.mem_append.mp hx with hx | hx
      · exact hnone x hx
      · rw [List.mem_singleton.mp hx]
        exact hsame hn
    · refine .inr ⟨before, s, s', after ++ [((committed config h).shared, (committed config (h ++ [e])).shared)],
        ?_, hreg, hkept.trans hlater, ?_⟩
      · rw [stepsOf_own hn, hsteps, List.append_assoc, List.cons_append]
      · intro x hx
        rw [← List.append_assoc] at hx
        rcases List.mem_append.mp hx with hx | hx
        · exact hsame' x hx
        · rw [List.mem_singleton.mp hx]
          exact hsame hn
  · rcases ha with hnone | ⟨before, s, s', after, hsteps, hreg, hkept, hsame'⟩
    · exact .inl (by rw [stepsOf_other hn]; exact hnone)
    · exact .inr ⟨before, s, s', after, by rw [stepsOf_other hn]; exact hsteps, hreg, hkept.trans hlater, hsame'⟩

/-- The invariant after an event that acts on the catalog as one step of connection `t`. -/
theorem LakeInv.concat (hinv : LakeInv config h) {t : CommitterId}
    (heff : Effect t (committed config h).shared (committed config (h ++ [e])).shared)
    (hstep : ∀ (n : ℕ) u m ws, stepper (committed config h) e = some n →
      (committed config h).started[n]? = some (u, .commitFiles m ws) →
      SameData (committed config h).shared.lake (committed config (h ++ [e])).shared.lake ∨
      ((∀ x ∈ stepsOf (committers config) n { shared := {} } h, SameData x.1.lake x.2.lake) ∧
        Registered (config u) m ws (committed config h).shared.lake (committed config (h ++ [e])).shared.lake)) :
    LakeInv config (h ++ [e]) := by
  refine ⟨?_, ?_, ?_⟩
  · intro es hes
    rcases List.prefix_concat_iff.mp hes with rfl | hes
    · exact Lake.Later.refl _
    · exact (hinv.later es hes).trans heff.later
  · intro u x hx
    rcases eq_or_ne u t with rfl | hne
    · exact heff.own x hx
    · rw [heff.others u hne] at hx
      obtain ⟨added, hadd, hraise⟩ := heff.grows
      exact (hinv.synced u x hx).land heff.later hadd hraise
  · intro n u m ws hstarted
    obtain ⟨more, hmore⟩ : (committed config h).started <+: (committed config (h ++ [e])).started := by
      rw [committed_concat]
      exact started_step ..
    rcases Nat.lt_or_ge n (committed config h).started.length with hlt | hge
    · have hold : (committed config h).started[n]? = some (u, .commitFiles m ws) := by
        rw [← hstarted, ← hmore, List.getElem?_append_left hlt]
      have ha := hinv.attempts n u m ws hold
      by_cases hn : stepper (committed config h) e = some n
      · rcases hstep n u m ws hn hold with hsame | ⟨hbefore, hreg⟩
        · exact ha.quiet heff.later fun _ => hsame
        · refine .inr ⟨_, _, _, [], stepsOf_own hn, hreg, Lake.Later.refl _, ?_⟩
          rw [List.append_nil]
          exact hbefore
      · exact ha.quiet heff.later fun hn' => absurd hn' hn
    · -- A program that has only just started has taken no step.
      have hun : stepsOf (committers config) n { shared := {} } h = [] :=
        stepsOf_unstarted (fun t r hr => by cases hr) h hge
      have hne : stepper (committed config h) e ≠ some n := by
        intro hs
        have hlt := stepper_lt (numbered_committed h) hs
        omega
      refine .inl ?_
      rw [stepsOf_other hne, hun]
      intro x hx
      cases hx

/-- What a call knows outlasts the steps of others: the lake only grows, and the connection is its
    own. -/
theorem Knows.outlasts {t : CommitterId} {n : ℕ} {j : LakeCall} {k : Known} (hk : Knows config h t n j k)
    (hconn : (committed config (h ++ [e])).shared.conn t = (committed config h).shared.conn t)
    (hlater : (committed config h).shared.lake.Later (committed config (h ++ [e])).shared.lake)
    (hne : stepper (committed config h) e ≠ some n) : Knows config (h ++ [e]) t n j k where
  config_eq := hk.config_eq
  call_eq := hk.call_eq
  conn := hconn.trans hk.conn
  fenced p hp := by
    obtain ⟨v, hv⟩ := hk.fenced p hp
    obtain ⟨v', hv', -⟩ := hlater.fence.stamp_le hv
    exact ⟨v', hv'⟩
  snapshot l hl := ⟨(hk.snapshot l hl).1.concat, (hk.snapshot l hl).2.trans hlater⟩
  unsent hs := by
    rw [stepsOf_other hne]
    exact hk.unsent hs
  landed hl m ws l hj hsnap part hpart := hlater.contents.subset (hk.landed hl m ws l hj hsnap part hpart)

/-- What a call knows after its own step. -/
theorem Knows.advance {t : CommitterId} {c : Choice} {n : ℕ} {j : LakeCall} {k k' : Known} {o : Sql}
    {next : o.Res → SqlProg LakeReply} (hk : Knows config h t n j k)
    (hrun : (committed config h).running t = some ⟨n, j, .call o next⟩)
    (hshared : (committed config (h ++ [.act t c])).shared =
      (Catalog.exec t o c (committed config h).shared).2)
    (hspec : StepSpec config t j o k (committed config h).shared
      (Catalog.exec t o c (committed config h).shared) k') :
    Knows config (h ++ [.act t c]) t n j k' := by
  have hstepper : stepper (committed config h) (.act t c : LakeEvent) = some n := by
    simp only [stepper, hrun, Option.map_some]
  have hlater := hspec.effect.later
  refine ⟨hspec.config_eq.trans hk.config_eq, hspec.call_eq.trans hk.call_eq, ?_, ?_, ?_, ?_, ?_⟩
  · rw [hshared]
    exact hspec.conn
  · intro p hp
    rw [hshared]
    rcases hspec.fenced p hp with hold | hnew
    · obtain ⟨v, hv⟩ := hk.fenced p hold
      obtain ⟨v', hv', -⟩ := hlater.fence.stamp_le hv
      exact ⟨v', hv'⟩
    · exact hnew
  · intro l hl
    rw [hshared]
    rcases hspec.snapshot l hl with hold | ⟨rfl, rfl⟩
    · exact ⟨(hk.snapshot l hold).1.concat, (hk.snapshot l hold).2.trans hlater⟩
    · exact ⟨⟨h, t, c, j, next, List.prefix_refl _, rfl, hrun⟩, hlater⟩
  · intro hs x hx
    rw [stepsOf_own hstepper] at hx
    rcases List.mem_append.mp hx with hx | hx
    · exact hk.unsent (hspec.sent hs) x hx
    · rw [List.mem_singleton.mp hx, hshared]
      rcases hspec.data with hsame | ⟨-, hsent, -⟩
      · exact hsame
      · rw [hs] at hsent
        cases hsent
  · intro hl m ws l hj hsnap part hpart
    rw [hshared]
    rcases hspec.landed hl with ⟨hold, hsame⟩ | hnew
    · exact hlater.contents.subset (hk.landed hold m ws l hj (hsame ▸ hsnap) part hpart)
    · exact hnew m ws l hj hsnap part hpart

theorem step_spec {t : CommitterId} {c : Choice} {n : ℕ} {j : LakeCall} {k : Known} (o : Sql)
    (hinv : LakeInv config h) (hk : Knows config h t n j k) (hpre : lakeProtocol.pre o k) :
    ∃ k', StepSpec config t j o k (committed config h).shared
      (Catalog.exec t o c (committed config h).shared) k' := by
  cases o with
  | begin => exact step_begin _ (hinv.synced t) hk.conn hk.fenced
  | commit => exact step_commit _ (hinv.synced t) hk.conn hk.config_eq hk.call_eq hpre
  | rollback => exact step_rollback _ (hinv.synced t) hk.conn
  | run q => exact step_run _ (hinv.synced t) hk.conn hpre

/-- A returned `Committed` means what it should. -/
theorem Knows.committedMeans {t : CommitterId} {n : ℕ} {j : LakeCall} {k : Known} {a : LakeReply}
    (hk : Knows config h t n j k) (hpost : lakePost j a k) : CommittedMeans config h n j a := by
  intro m ws hj ha
  obtain ⟨l, hl, hdone⟩ := hpost m ws hj ha
  obtain ⟨hbegan, hlater⟩ := hk.snapshot l hl
  refine ⟨l, hbegan, fun part hpart => ?_⟩
  by_cases hkey : (m.partition, toI64 m.windowId, part) ∈ l.keys
  · -- The part was registered already, and what was registered stays.
    obtain ⟨row, hrow, hrowkey⟩ := List.mem_map.mp hkey
    exact ⟨row, hlater.contents.subset hrow, hrowkey, fun hnot => absurd (hrowkey ▸ hkey) hnot⟩
  · have hmissing : part ∈ missing m l := List.mem_filter.mpr ⟨hpart, by simpa using hkey⟩
    rcases hdone with hlanded | hnone
    · exact ⟨manifestRow m part, hk.landed hlanded m ws l hj hl part hmissing, rfl, fun _ => rfl⟩
    · rw [hnone] at hmissing
      cases hmissing

theorem CommittedMeans.concat {n : ℕ} {j : LakeCall} {a : LakeReply} (hc : CommittedMeans config h n j a)
    (hlater : (committed config h).shared.lake.Later (committed config (h ++ [e])).shared.lake) :
    CommittedMeans config (h ++ [e]) n j a := by
  intro m ws hj ha
  obtain ⟨l, hbegan, hparts⟩ := hc m ws hj ha
  refine ⟨l, hbegan.concat, fun part hpart => ?_⟩
  obtain ⟨row, hrow, hkey⟩ := hparts part hpart
  exact ⟨row, hlater.contents.subset hrow, hkey⟩

/-- Only the connection that acts changes. -/
theorem exec_conn_ne {t u : CommitterId} (hne : u ≠ t) (o : Sql) (c : Choice) (s : Catalog) :
    (Catalog.exec t o c s).2.conn u = s.conn u := by
  cases o with
  | begin =>
    rcases exec_begin t c s with ⟨-, -, hs⟩ | ⟨-, hs⟩
    · rw [hs, setConn_ne s _ hne]
    · rw [hs]
  | rollback =>
    rcases exec_rollback t c s with hs | hs
    · rw [hs]
    · rw [hs, setConn_ne s _ hne]
  | commit =>
    rcases hx : s.conn t with _ | x
    · simp only [Catalog.exec, hx]
    · rcases exec_commit (c := c) hx with ⟨-, hs⟩ | ⟨-, hs | hs⟩
      · rw [hs]
        exact setConn_ne s none hne
      · rw [hs]
      · rw [hs, setConn_ne s _ hne]
  | run q =>
    rcases hx : s.conn t with _ | x
    · rcases exec_run_outside (q := q) (c := c) hx with ⟨-, hs | hs⟩ | ⟨-, hs⟩
      all_goals rw [hs]
      all_goals rfl
    · rcases exec_run_inside (q := q) (c := c) hx with ⟨-, hs⟩ | ⟨pick, -, hs⟩
      · rw [hs]
      · rw [hs, setConn_ne s _ hne]

/-- An event that spares a thread leaves its connection alone. -/
theorem conn_spared {t : CommitterId} (hspares : e.Spares (committers config) t) :
    (committed config (h ++ [e])).shared.conn t = (committed config h).shared.conn t := by
  rw [committed_concat]
  rcases shared_step (committers config) (committed config h) e with
    heq | ⟨u, c, n, j, o, next, rfl, -, heq⟩ | ⟨v, rfl, heq⟩
  · rw [heq]
  · rw [heq]
    exact exec_conn_ne (Ne.symm hspares) o c _
  · rw [heq]
    refine setConn_ne _ none ?_
    rintro rfl
    simp [Event.Spares, committers] at hspares

theorem lakeOutline_sound (config : CommitterId → DuckLakeConfig) : (lakeOutline config).Sound where
  init := by
    refine ⟨?_, ?_, ?_⟩
    · intro es hes
      rw [List.prefix_nil.mp hes]
      exact Lake.Later.refl _
    · intro t x hx
      cases hx
    · intro n t m ws hn
      cases hn
  start := by
    intro h t j hinv _ _ _
    have hshared : (committed config (h ++ [.start t j])).shared = (committed config h).shared := by
      rw [committed_concat]
      exact shared_start _ _ t j
    refine ⟨⟨config t, j, (committed config h).shared.conn t, none, none, false, false⟩,
      ⟨rfl, rfl, by rw [hshared], (fun p hp => by cases hp), (fun l hl => by cases hl), ?_, (fun hl => by cases hl)⟩,
      wp_program rfl rfl rfl⟩
    intro _ x hx
    have hsteps : stepsOf (committers config) _ { shared := {} } (h ++ [.start t j]) = [] :=
      stepsOf_started (fun t r hr => by cases hr) h
    cases hsteps ▸ hx
  exec := by
    intro h t c n j o next k hinv _ hrun hk hpre
    have hshared : (committed config (h ++ [.act t c])).shared =
        (Catalog.exec t o c (committed config h).shared).2 := by
      rw [committed_concat]
      exact shared_act hrun
    obtain ⟨k', hspec⟩ := step_spec (c := c) o hinv hk hpre
    refine ⟨hinv.concat (t := t) (by rw [hshared]; exact hspec.effect) ?_, k',
      hk.advance hrun hshared hspec, hspec.next⟩
    intro n' u m ws hn' hstarted
    -- The attempt that takes the step is this call's.
    have hn : n = n' := by
      have hs : stepper (committed config h) (.act t c : LakeEvent) = some n := by
        simp only [stepper, show (committed config h).running t = some ⟨n, j, .call o next⟩ from hrun,
          Option.map_some]
      exact Option.some.inj (hs.symm.trans hn')
    subst hn
    have hjob := (numbered_committed h t _ hrun).symm.trans hstarted
    simp only [Option.some.injEq, Prod.mk.injEq] at hjob
    obtain ⟨rfl, hj⟩ := hjob
    rw [hshared]
    subst hj
    rcases hspec.data with hsame | ⟨hsent, -, hdone⟩
    · exact .inl hsame
    · exact .inr ⟨hk.unsent hsent, hdone⟩
  idle := by
    intro h e hinv heq
    have hshared : (committed config (h ++ [e])).shared = (committed config h).shared := by
      rw [committed_concat]
      exact heq
    refine hinv.concat (t := 0) ?_ fun _ _ _ _ _ _ => .inl ?_
    · rw [hshared]
      exact effect_same rfl (fun _ _ => rfl) (hinv.synced 0)
    · rw [hshared]
      exact SameData.refl _
  env := by
    intro h v hinv _
    have hshared : (committed config (h ++ [.env v])).shared = (committed config h).shared.setConn v none := by
      rw [committed_concat]
      rfl
    refine hinv.concat (t := v) ?_ fun _ _ _ _ hs _ => by cases hs
    rw [hshared]
    exact effect_close _
  stable := by
    intro h e t r k _ hinv hrun hspares hk
    refine hk.outlasts (conn_spared hspares) (hinv.later h (List.prefix_append h [e])) ?_
    intro hs
    -- Another thread has another number.
    cases e with
    | start u j => cases hs
    | env v => cases hs
    | act u c =>
      simp only [stepper, Option.map_eq_some_iff] at hs
      obtain ⟨r', hr', hid⟩ := hs
      have h1 := numbered_committed h u r' hr'
      have h2 := numbered_committed h t r hrun
      rw [hid, h2, Option.some.injEq, Prod.mk.injEq] at h1
      exact hspares h1.1.symm
  ret := by
    intro h t c n j a k hinv hk hpost
    exact (hk.committedMeans hpost).concat (hinv.later h (List.prefix_append h _))
  done_stable := by
    intro h e n j a hinv hdone
    exact CommittedMeans.concat hdone (hinv.later h (List.prefix_append h _))

end Sound

/-! ### The results -/

/-- The outline holds along every history. -/
theorem lake_valid (config : CommitterId → DuckLakeConfig) (h : List LakeEvent) : (lakeOutline config).Valid h :=
  (lakeOutline_sound config).valid_run (fun _ => rfl) rfl h (admissible_of_forall (fun _ _ _ => trivial) _)

/-- An event adds nothing to what is registered, or all that the batch of a running call misses. -/
theorem contents_step (config : CommitterId → DuckLakeConfig) (h : List LakeEvent) (e : LakeEvent) :
    (committed config (h ++ [e])).shared.lake.contents = (committed config h).shared.lake.contents ∨
    ∃ t, ∃ n : ℕ, ∃ m ws, (committed config h).started[n]? = some (t, LakeCall.commitFiles m ws) ∧
      (committed config (h ++ [e])).shared.lake.contents = (committed config h).shared.lake.contents ++
        (missing m (committed config h).shared.lake).map (manifestRow m) := by
  have hv := lake_valid config h
  rw [committed_concat]
  rcases shared_step (committers config) (committed config h) e with
    heq | ⟨t, c, n, j, o, next, rfl, hrun, heq⟩ | ⟨v, rfl, heq⟩
  · exact .inl (by rw [heq])
  · obtain ⟨k, hk, hwp⟩ := hv.threads t _ hrun
    obtain ⟨k', hspec⟩ := step_spec (c := c) o hv.inv hk hwp.1
    rw [heq]
    rcases hspec.data with hsame | ⟨-, -, hdone⟩
    · exact .inl (congrArg (fun t => (values t).map ManifestRow.content) hsame.manifests)
    · cases j with
      | commitFiles m ws =>
        exact .inr ⟨t, n, m, ws, numbered_committed h t _ hrun, Registered.contents hdone⟩
      | expire parts => exact .inl hdone
  · exact .inl (by rw [heq]; rfl)

theorem key_missing {m : WindowManifest} {l : Lake} {part : PartName} (hpart : part ∈ missing m l) :
    (m.partition, toI64 m.windowId, part) ∉ l.keys := by
  simpa using (List.mem_filter.mp hpart).2

/-- Registering what a batch of distinct parts misses keeps the keys distinct. -/
theorem nodup_register {m : WindowManifest} {l : Lake} (hparts : m.parts.Nodup) (hl : l.keys.Nodup) :
    (l.keys ++ ((missing m l).map (manifestRow m)).map ManifestRow.key).Nodup := by
  rw [List.map_map]
  refine List.nodup_append.mpr ⟨hl, List.Nodup.map ?_ (hparts.filter _), ?_⟩
  · intro a b hab
    exact congrArg (fun key => key.2.2) hab
  · rintro key hkey _ hnew rfl
    obtain ⟨part, hpart, rfl⟩ := List.mem_map.mp hnew
    exact key_missing hpart hkey

/-- **The single drain commit.** Over every interleaving of commits whose batches list distinct parts,
    of retries, expiries, failures and crashes, the lake has at most one manifest row for a part of a
    window of a partition, and every commit attempt leaves all of its missing files, manifest rows
    and watermark rows or none of them. -/
theorem single_drain_commit (config : CommitterId → DuckLakeConfig) (h : List LakeEvent)
    (hparts : ∀ t m ws, Event.start t (LakeCall.commitFiles m ws) ∈ h → m.parts.Nodup) :
    ((values (committed config h).shared.lake.manifests).map ManifestRow.key).Nodup ∧
    ∀ (n : ℕ) t m ws, (committed config h).started[n]? = some (t, .commitFiles m ws) →
      AllOrNone config h n t m ws := by
  refine ⟨?_, (lake_valid config h).inv.attempts⟩
  have hkeys : (committed config h).shared.lake.keys.Nodup := by
    induction h using List.reverseRecOn with
    | nil => exact List.nodup_nil
    | append_singleton h e ih =>
      have ih := ih fun t m ws hmem => hparts t m ws (List.mem_append_left _ hmem)
      rcases contents_step config h e with heq | ⟨t, n, m, ws, hstarted, heq⟩
      · rw [Lake.keys, heq]
        exact ih
      · rw [Lake.keys, heq, List.map_append]
        have hstart := (mem_started h (List.mem_of_getElem? hstarted)).resolve_left List.not_mem_nil
        exact nodup_register (hparts t m ws (List.mem_append_left _ hstart)) ih
  rw [Lake.keys, Lake.contents, List.map_map] at hkeys
  exact hkeys

/-- A batch of one part of window 0, covering the sequence numbers from 1 to `lastSeq`. -/
def sampleBatch (lastSeq : U64) : WindowManifest where
  dataset := ⟨"logs"⟩
  partition := ⟨"t.0"⟩
  windowId := 0
  originCoverage := [⟨⟨"n1"⟩, 1, lastSeq⟩]
  rows := lastSeq
  eventTimeMinMs := 10
  eventTimeMaxMs := 20
  dedupRemoved := 0
  parts := [⟨"logs/t_2e0/w0-primary.parquet"⟩]

def sampleConfig (_ : CommitterId) : DuckLakeConfig := ⟨"sqlite:catalog.db", "data"⟩

/-- `k` steps of committer `t`, none of them failing of itself. -/
def steps (t : CommitterId) (k : ℕ) : List LakeEvent := List.replicate k (.act t {})

/-- Two committers race the same batch: both look for the fence row before either inserts it, both
    stage on the same snapshot, the first lands and the second conflicts. -/
def race : List LakeEvent :=
  [.start 0 (.commitFiles (sampleBatch 5) [⟨⟨"t.0"⟩, 20⟩]), .start 1 (.commitFiles (sampleBatch 5) [⟨⟨"t.0"⟩, 20⟩])] ++
    steps 0 1 ++ steps 1 1 ++ steps 0 1 ++ steps 1 1 ++ steps 0 7 ++ steps 1 7 ++ steps 0 2 ++ steps 1 3

theorem single_drain_commit_race :
    (values (committed sampleConfig race).shared.lake.fence).length = 2 ∧
    (values (committed sampleConfig race).shared.lake.manifests).length = 1 ∧
    (∀ (n : ℕ) t m ws, (committed sampleConfig race).started[n]? = some (t, .commitFiles m ws) →
      AllOrNone sampleConfig race n t m ws) := by
  refine ⟨by decide +kernel, by decide +kernel, (single_drain_commit sampleConfig race ?_).2⟩
  intro t m ws hmem
  simp only [race, steps, List.mem_append, List.mem_replicate, List.mem_cons, List.not_mem_nil,
    Event.start.injEq, LakeCall.commitFiles.injEq, or_false, reduceCtorEq, and_false] at hmem
  rcases hmem with ⟨-, rfl, -⟩ | ⟨-, rfl, -⟩
  all_goals decide

/-- Two rows of one key have one content: dataset, row count, event-time bounds and coverage. -/
def OneContent (l : Lake) : Prop :=
  ∀ a ∈ l.contents, ∀ b ∈ l.contents, a.key = b.key → a = b

/-- What a batch misses is not there under another content. -/
theorem OneContent.register {m : WindowManifest} {l l' : Lake} (hl : OneContent l)
    (hadd : l'.contents = l.contents ++ (missing m l).map (manifestRow m)) : OneContent l' := by
  have hnew : ∀ c ∈ (missing m l).map (manifestRow m), c.key ∉ l.keys := by
    intro c hc
    obtain ⟨part, hpart, rfl⟩ := List.mem_map.mp hc
    exact key_missing hpart
  intro a ha b hb hkey
  rw [hadd] at ha hb
  rcases List.mem_append.mp ha with ha | ha
  · rcases List.mem_append.mp hb with hb | hb
    · exact hl a ha b hb hkey
    · exact absurd (List.mem_map.mpr ⟨a, ha, hkey⟩) (hnew b hb)
  · rcases List.mem_append.mp hb with hb | hb
    · exact absurd (List.mem_map.mpr ⟨b, hb, hkey.symm⟩) (hnew a ha)
    · -- Both rows are the batch's, under one part name.
      obtain ⟨part, -, rfl⟩ := List.mem_map.mp ha
      obtain ⟨part', -, rfl⟩ := List.mem_map.mp hb
      have hpart : part = part' := congrArg (fun key => key.2.2) hkey
      rw [hpart]

/-- First wins, along every history. -/
theorem oneContent_committed (config : CommitterId → DuckLakeConfig) (h : List LakeEvent) :
    OneContent (committed config h).shared.lake := by
  induction h using List.reverseRecOn with
  | nil =>
    intro a ha
    cases ha
  | append_singleton h e ih =>
    rcases contents_step config h e with heq | ⟨t, n, m, ws, -, heq⟩
    · intro a ha b hb
      rw [heq] at ha hb
      exact ih a ha b hb
    · exact ih.register heq

/-- What was registered when a transaction began is registered still. -/
theorem BeganOn.later {config : CommitterId → DuckLakeConfig} {h : List LakeEvent} {n : ℕ} {l : Lake}
    (hb : BeganOn config h n l) : l.Later (committed config h).shared.lake := by
  obtain ⟨es, t, c, j, next, hes, rfl, -⟩ := hb
  exact (lake_valid config h).inv.later es ((List.prefix_append es _).trans hes)

/-- **What `Committed` means.** Whenever a call answers `Committed` for a batch, every part of the batch
    is registered under the batch's partition and window. A part that was not yet registered there when
    the call's transaction began is registered with the batch's dataset, row count, event-time bounds and
    coverage; a part that was keeps what it was first registered with. -/
theorem committed_registered (config : CommitterId → DuckLakeConfig) (h : List LakeEvent) (n : ℕ)
    (m : WindowManifest) (ws : List WatermarkRow)
    (hret : (n, LakeCall.commitFiles m ws, LakeReply.commitFiles (.ok .committed)) ∈
      (committed config h).returned) :
    ∃ l, BeganOn config h n l ∧ ∀ part ∈ m.parts, ∃ row ∈ values (committed config h).shared.lake.manifests,
      row.key = (m.partition, toI64 m.windowId, part) ∧
        (row.key ∉ l.keys → row.content = manifestRow m part) ∧
        ∀ first ∈ values l.manifests, first.key = row.key → row.content = first.content := by
  obtain ⟨l, hbegan, hparts⟩ := (lake_valid config h).results _ hret m ws rfl rfl
  refine ⟨l, hbegan, fun part hpart => ?_⟩
  obtain ⟨c, hc, hkey, hcontent⟩ := hparts part hpart
  obtain ⟨row, hrow, rfl⟩ := List.mem_map.mp hc
  refine ⟨row, hrow, hkey, hcontent, fun first hfirst hsame => ?_⟩
  have hkept := hbegan.later.contents.subset (List.mem_map_of_mem hfirst)
  exact oneContent_committed config h _ hc _ hkept hsame.symm

/-- The first batch covers 1 to 5 and lands; then the second, of the same name, covers 1 to 7. -/
def sameName : List LakeEvent :=
  [.start 0 (.commitFiles (sampleBatch 5) [])] ++ steps 0 9 ++ [.start 1 (.commitFiles (sampleBatch 7) [])] ++
    steps 1 5

/-- A batch of five rows stands registered under the name: the call with seven answers `Committed`, and
    what the lake has is the five. -/
theorem committed_registered_sameName :
    ∃ l, BeganOn sampleConfig sameName 1 l ∧ ∀ part ∈ (sampleBatch 7).parts,
      ∃ row ∈ values (committed sampleConfig sameName).shared.lake.manifests,
        row.key = (⟨"t.0"⟩, 0, part) ∧ (row.key ∉ l.keys → row.content = manifestRow (sampleBatch 7) part) ∧
        ∀ first ∈ values l.manifests, first.key = row.key → row.content = first.content :=
  committed_registered sampleConfig sameName 1 (sampleBatch 7) [] (by decide +kernel)

/-- The second call answers `Committed`, yet no row of its part has its coverage. -/
theorem committed_with_other_content :
    (1, LakeCall.commitFiles (sampleBatch 7) [], LakeReply.commitFiles (.ok .committed)) ∈
      (committed sampleConfig sameName).returned ∧
    ∀ part ∈ (sampleBatch 7).parts, ∀ row ∈ values (committed sampleConfig sameName).shared.lake.manifests,
      row.partName = part → row.originCoverage ≠ .encoded (sampleBatch 7).originCoverage := by
  decide +kernel

end Duckspout
