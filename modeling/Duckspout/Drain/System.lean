import Duckspout.Drain.Coordinator
import Duckspout.Lake.Port
import Duckspout.Watermark.Reconstruct

/-! Drainers at work: any number of nodes, each with its own staging, ledger and scratch files, over one
    lake and one object store.

    A node runs any number of attempts at once, and every call on a port is one step. Any call may fail,
    and one that reports a failure may have taken effect; a commit may also come back aborted or
    indeterminate, landed or not. In between, rows arrive in any window, nodes crash, and a node that
    starts rebuilds its ledger from the lake. A seal and a drop are one step each: nothing arrives in
    a window while one of them runs on it. -/

namespace Duckspout

open Snapshot Threads

/-- What a node keeps. The ledger is in memory: a node that is down has none. -/
structure DrainNode where
  staging : WindowKey → Option (List StagedRow) := fun _ => none
  scratch : String → Option (List StagedRow) := fun _ => none
  ledger : Option WatermarkLedger := none

/-- The shared lake and object store, and the nodes. A sealed file is its rows. -/
structure DrainState where
  lake : Lake := {}
  objects : PartName → Option (List StagedRow) := fun _ => none
  nodes : ℕ → DrainNode := fun _ => {}

namespace DrainState

def ledgerOf (s : DrainState) (i : ℕ) : WatermarkLedger := (s.nodes i).ledger.getD {}

/-- The rows staged for a window on a node. -/
def staged (s : DrainState) (i : ℕ) (key : WindowKey) : List StagedRow := ((s.nodes i).staging key).getD []

def setNode (s : DrainState) (i : ℕ) (node : DrainNode) : DrainState :=
  { s with nodes := Function.update s.nodes i node }

def setLedger (s : DrainState) (i : ℕ) (ledger : Option WatermarkLedger) : DrainState :=
  s.setNode i { s.nodes i with ledger }

def setTable (s : DrainState) (i : ℕ) (key : WindowKey) (table : Option (List StagedRow)) : DrainState :=
  s.setNode i { s.nodes i with staging := Function.update (s.nodes i).staging key table }

def setScratch (s : DrainState) (i : ℕ) (path : String) (file : Option (List StagedRow)) : DrainState :=
  s.setNode i { s.nodes i with scratch := Function.update (s.nodes i).scratch path file }

end DrainState

/-- How one call goes: whether it fails, how a commit that does not fail is left unsettled, and whether
    it takes effect in those cases. -/
structure Fate where
  fails : Option String := none
  unsettled : Option Unsettled := none
  lands : Bool := false
  deriving DecidableEq, Repr

namespace Fate

def reply {ε α : Type} (fate : Fate) (error : String → ε) (a : α) : Except ε α :=
  match fate.fails with
  | none => .ok a
  | some text => .error (error text)

def outcome (fate : Fate) : CommitOutcome :=
  match fate.unsettled with
  | none => .committed
  | some .aborted => .aborted
  | some .indeterminate => .indeterminate

/-- The call takes effect. -/
def effective (fate : Fate) : Bool := fate.fails.isNone || fate.lands

/-- The commit takes effect. -/
def commits (fate : Fate) : Bool := (fate.fails.isNone && fate.unsettled.isNone) || fate.lands

end Fate

/-- One call on the ports of node `i`. -/
def DrainState.exec (config : DuckLakeConfig) (i : ℕ) : (o : DrainOp) → Fate → DrainState → o.Res × DrainState
  | .nextWindow p, _, s => ((s.ledgerOf i).nextWindow p, s)
  | .completeThroughMs p, _, s => ((s.ledgerOf i).completeThroughMs p, s)
  | .sealWindow request, fate, s =>
    match sealBlocking request ((s.nodes i).staging request.key) with
    | .error e => (.error e, s)
    | .ok (part, rows) =>
      (fate.reply .backend part, if fate.effective then s.setScratch i part.path (some rows) else s)
  | .advanceFor m, _, s => (((s.ledgerOf i).advanceFor m).mapError rejection, s)
  | .scratchGet path, fate, s =>
    match (s.nodes i).scratch path with
    | some rows => (fate.reply id rows, s)
    | none => (.error ("not found: " ++ path), s)
  | .putPart part data, fate, s =>
    (fate.reply id (),
      if fate.effective then { s with objects := Function.update s.objects part (some data) } else s)
  | .commitFiles m watermarks, fate, s =>
    (fate.reply .backend fate.outcome,
      if fate.commits then { s with lake := s.lake.register config m watermarks } else s)
  | .readWatermarks partitions _, fate, s => (fate.reply .backend (readWatermarks s.lake partitions), s)
  | .recordCommit m, _, s =>
    (((s.ledgerOf i).recordCommit m).1.mapError rejection,
      s.setLedger i (some ((s.ledgerOf i).recordCommit m).2))
  | .scratchDelete path, fate, s =>
    (fate.reply id (), if fate.effective then s.setScratch i path none else s)
  | .recordedCoverage p w, _, s => (((s.ledgerOf i).windowRecord p w).map (·.originCoverage), s)
  | .dropWindow key covered, fate, s =>
    let dropped := dropBlocking covered ((s.nodes i).staging key)
    (fate.reply .backend dropped.1, if fate.effective then s.setTable i key dropped.2 else s)

/-- One `drain_window` call. -/
structure DrainJob where
  dataset : DatasetId
  partition : PartitionId
  window : WindowId
  plan : DatasetDrainPlan
  deriving DecidableEq, Repr

/-- What happens around the attempts: rows arrive in a window, a node crashes, a node starts. -/
inductive DrainEnv where
  | append (i : ℕ) (key : WindowKey) (rows : List StagedRow)
  | crash (i : ℕ)
  | boot (i : ℕ)
  deriving DecidableEq, Repr

/-- The ledger a starting node rebuilds from the lake; where that fails, the node stays down. -/
def bootLedger (l : Lake) : Option WatermarkLedger :=
  match readManifests l with
  | .error _ => none
  | .ok manifests =>
    match reconstruct manifests [] [] with
    | .error _ => none
    | .ok r => some r.ledger

def DrainEnv.move : DrainEnv → DrainState → DrainState
  | .append i key rows, s => s.setTable i key (some (s.staged i key ++ rows))
  | .crash i, s => s.setLedger i none
  | .boot i, s => if (s.nodes i).ledger.isSome then s else s.setLedger i (bootLedger s.lake)

/-- An attempt's node and its place among the node's attempts. -/
abbrev DrainTid := ℕ × ℕ

/-- The drainers of one lake. An attempt starts only on a node that is up, and a crash ends the attempts
    of its node. -/
def drainers (config : DuckLakeConfig) :
    Threads DrainTid DrainJob Fate DrainEnv DrainState DrainOp DrainOp.Res (Except DrainError DrainOutcome) where
  program _ j := (drainWindow j.dataset j.partition j.window j.plan).run
  accepts t _ s := (s.nodes t.1).ledger.isSome
  exec t := DrainState.exec config t.1
  move := DrainEnv.move
  stops e t := e == .crash t.1

abbrev DrainEvent := Event DrainTid DrainJob Fate DrainEnv

/-- The drainers after a list of events, from an empty lake with every node down. -/
def drained (config : DuckLakeConfig) (es : List DrainEvent) :
    Pool DrainTid DrainJob DrainState DrainOp DrainOp.Res (Except DrainError DrainOutcome) :=
  (drainers config).run { shared := {} } es

/-! ### A small deployment -/

def drainConfig : DuckLakeConfig := ⟨"lake.ducklake", "/lake"⟩

def sampleRow (n : U64) : StagedRow := ⟨⟨"a"⟩, n, [("ts", .timestamp (10000 * (n : ℕ)))]⟩

def sampleJob (window : WindowId) : DrainJob := ⟨⟨"logs"⟩, ⟨"t.0"⟩, window, ⟨["ts"], "ts", none⟩⟩

def sampleKey (window : WindowId) : WindowKey := ⟨⟨"logs"⟩, ⟨"t.0"⟩, window⟩

/-- `n` calls of an attempt, each of them served. -/
def served (t : DrainTid) (n : ℕ) : List DrainEvent := List.replicate n (.act t {})

/-- A rebuilt ledger has recorded some of the manifests the lake stores. -/
theorem bootLedger_spec {l : Lake} {ledger : WatermarkLedger} (h : bootLedger l = some ledger) :
    ∃ ms, Represents ledger ms [] ∧ ∀ m ∈ ms, ∃ r ∈ values l.manifests, ReadFrom r m := by
  simp only [bootLedger] at h
  split at h
  · cases h
  · rename_i manifests hread
    split at h
    · cases h
    · rename_i r hr
      obtain rfl := Option.some.inj h
      obtain ⟨recd, hperm, hrep, -⟩ := reconstruct_spec hr
      refine ⟨recd, hrep, fun m hm => mem_readManifests hread m ?_⟩
      exact hperm.subset (List.mem_append_left _ hm)

/-! ### What a step can do -/

theorem drained_concat (config : DuckLakeConfig) (es : List DrainEvent) (e : DrainEvent) :
    drained config (es ++ [e]) = (drainers config).step (drained config es) e :=
  run_concat ..

theorem drained_append (config : DuckLakeConfig) (es fs : List DrainEvent) :
    drained config (es ++ fs) = (drainers config).run (drained config es) fs :=
  Threads.run_append ..

theorem shared_drained_act {config : DuckLakeConfig} {es : List DrainEvent} {t : DrainTid} {c : Fate} {n : ℕ}
    {j : DrainJob} {o : DrainOp} {next : o.Res → Prog DrainOp DrainOp.Res (Except DrainError DrainOutcome)}
    (hrun : (drained config es).running t = some ⟨n, j, .call o next⟩) :
    (drained config (es ++ [.act t c])).shared = (DrainState.exec config t.1 o c (drained config es).shared).2 := by
  rw [drained_concat]
  exact shared_act hrun

/-- An event leaves the state as it is, or is a call of an attempt, or a move of the environment. -/
theorem drained_step (config : DuckLakeConfig) (es : List DrainEvent) (e : DrainEvent) :
    (drained config (es ++ [e])).shared = (drained config es).shared ∨
    (∃ t c n j o next, (drained config es).running t = some ⟨n, j, .call o next⟩ ∧
      (drained config (es ++ [e])).shared = (DrainState.exec config t.1 o c (drained config es).shared).2) ∨
    ∃ v : DrainEnv, (drained config (es ++ [e])).shared = v.move (drained config es).shared := by
  rw [drained_concat]
  rcases shared_step (drainers config) (drained config es) e with heq | ⟨t, c, n, j, o, next, -, hrun, heq⟩ |
    ⟨v, -, heq⟩
  · exact .inl heq
  · exact .inr (.inl ⟨t, c, n, j, o, next, hrun, heq⟩)
  · exact .inr (.inr ⟨v, heq⟩)

section Steps

variable {config : DuckLakeConfig} {i : ℕ} {o : DrainOp} {fate : Fate} {s : DrainState}

theorem setNode_nodes (node : DrainNode) (u : ℕ) :
    (s.setNode i node).nodes u = if u = i then node else s.nodes u :=
  Function.update_apply ..

/-- The lake, the ledgers and the staged windows are the same. -/
structure Untouched (s s' : DrainState) : Prop where
  lake : s'.lake = s.lake
  ledger : ∀ u, (s'.nodes u).ledger = (s.nodes u).ledger
  staging : ∀ u, (s'.nodes u).staging = (s.nodes u).staging

theorem Untouched.refl (s : DrainState) : Untouched s s := ⟨rfl, fun _ => rfl, fun _ => rfl⟩

theorem untouched_setScratch (path : String) (file : Option (List StagedRow)) :
    Untouched s (s.setScratch i path file) := by
  refine ⟨rfl, fun u => ?_, fun u => ?_⟩
  all_goals
    simp only [DrainState.setScratch, setNode_nodes]
    split_ifs with hu
    · rw [hu]
    · rfl

/-- A call lands a batch, records a manifest, drops rows of a window, or touches none of the three. -/
theorem exec_cases (config : DuckLakeConfig) (i : ℕ) (o : DrainOp) (fate : Fate) (s : DrainState) :
    Untouched s (DrainState.exec config i o fate s).2 ∨
    (∃ m ws, o = .commitFiles m ws ∧
      (DrainState.exec config i o fate s).2 = { s with lake := s.lake.register config m ws }) ∨
    (∃ m, o = .recordCommit m ∧ (DrainState.exec config i o fate s).2 =
      s.setLedger i (some ((s.ledgerOf i).recordCommit m).2)) ∨
    (∃ key covered, o = .dropWindow key covered ∧ (DrainState.exec config i o fate s).2 =
      s.setTable i key (dropBlocking covered ((s.nodes i).staging key)).2) := by
  cases o with
  | sealWindow request =>
    refine .inl ?_
    simp only [DrainState.exec]
    split
    · exact .refl s
    · split_ifs
      · exact untouched_setScratch _ _
      · exact .refl s
  | scratchGet path =>
    refine .inl ?_
    simp only [DrainState.exec]
    split
    all_goals exact .refl s
  | putPart part data =>
    refine .inl ?_
    simp only [DrainState.exec]
    split_ifs
    · exact ⟨rfl, fun _ => rfl, fun _ => rfl⟩
    · exact .refl s
  | commitFiles m ws =>
    simp only [DrainState.exec]
    split_ifs
    · exact .inr (.inl ⟨m, ws, rfl, rfl⟩)
    · exact .inl (.refl s)
  | recordCommit m => exact .inr (.inr (.inl ⟨m, rfl, rfl⟩))
  | scratchDelete path =>
    refine .inl ?_
    simp only [DrainState.exec]
    split_ifs
    · exact untouched_setScratch _ _
    · exact .refl s
  | dropWindow key covered =>
    simp only [DrainState.exec]
    split_ifs
    · exact .inr (.inr (.inr ⟨key, covered, rfl, rfl⟩))
    · exact .inl (.refl s)
  | nextWindow p => exact .inl (.refl s)
  | completeThroughMs p => exact .inl (.refl s)
  | advanceFor m => exact .inl (.refl s)
  | readWatermarks ps sub => exact .inl (.refl s)
  | recordedCoverage p w => exact .inl (.refl s)

/-- A call leaves the lake as it is, or lands a batch. -/
theorem lake_exec (config : DuckLakeConfig) (i : ℕ) (o : DrainOp) (fate : Fate) (s : DrainState) :
    (DrainState.exec config i o fate s).2.lake = s.lake ∨
      ∃ m ws, o = .commitFiles m ws ∧ (DrainState.exec config i o fate s).2.lake = s.lake.register config m ws := by
  rcases exec_cases config i o fate s with hsame | ⟨m, ws, ho, heq⟩ | ⟨m, -, heq⟩ | ⟨key, covered, -, heq⟩
  · exact .inl hsame.lake
  · exact .inr ⟨m, ws, ho, by rw [heq]⟩
  · exact .inl (by rw [heq]; rfl)
  · exact .inl (by rw [heq]; rfl)

/-- A commit answered `Committed` has landed. -/
theorem exec_committed {m : WindowManifest} {ws : List WatermarkRow}
    (h : (DrainState.exec config i (.commitFiles m ws) fate s).1 = .ok .committed) :
    (DrainState.exec config i (.commitFiles m ws) fate s).2.lake = s.lake.register config m ws := by
  rcases fate with ⟨_ | text, _ | _ | _, lands⟩
  · rfl
  all_goals cases h

theorem exec_readWatermarks {ps : List PartitionId} {sub : Submission} {rows : List WatermarkRow}
    (h : (DrainState.exec config i (.readWatermarks ps sub) fate s).1 = .ok rows) :
    rows = readWatermarks s.lake ps := by
  rcases fate with ⟨_ | text, unsettled, lands⟩
  · exact (Except.ok.inj h).symm
  · cases h

theorem setTable_ledger (u : ℕ) (key : WindowKey) (table : Option (List StagedRow)) :
    ((s.setTable i key table).nodes u).ledger = (s.nodes u).ledger := by
  rw [DrainState.setTable, setNode_nodes]
  split_ifs with hu
  · rw [hu]
  · rfl

theorem ledgerOf_setLedger (u : ℕ) (ledger : Option WatermarkLedger) :
    (s.setLedger i ledger).ledgerOf u = if u = i then ledger.getD {} else s.ledgerOf u := by
  rw [DrainState.ledgerOf, DrainState.setLedger, setNode_nodes]
  split_ifs
  all_goals rfl

/-- A call leaves a ledger as it is, or records a manifest in it. -/
theorem ledgerOf_exec (i u : ℕ) (o : DrainOp) (fate : Fate) :
    (DrainState.exec config i o fate s).2.ledgerOf u = s.ledgerOf u ∨
      ∃ m, o = .recordCommit m ∧ u = i ∧
        (DrainState.exec config i o fate s).2.ledgerOf u = ((s.ledgerOf i).recordCommit m).2 := by
  rcases exec_cases config i o fate s with hsame | ⟨m, ws, -, heq⟩ | ⟨m, rfl, heq⟩ | ⟨key, covered, -, heq⟩
  · exact .inl (by rw [DrainState.ledgerOf, hsame.ledger]; rfl)
  · exact .inl (by rw [heq]; rfl)
  · rw [heq, ledgerOf_setLedger]
    split_ifs with hu
    · exact .inr ⟨m, rfl, hu, rfl⟩
    · exact .inl rfl
  · exact .inl (by rw [heq, DrainState.ledgerOf, setTable_ledger]; rfl)

theorem move_lake (e : DrainEnv) : (e.move s).lake = s.lake := by
  cases e with
  | append i key rows => rfl
  | crash i => rfl
  | boot i =>
    simp only [DrainEnv.move]
    split_ifs
    all_goals rfl

/-! ### Invariants of the lake and the ledgers -/

/-- The lake is in `L`, and every ledger stands in `P` to it. -/
structure NodesInv (L : Lake → Prop) (P : Lake → WatermarkLedger → Prop) (s : DrainState) : Prop where
  lake : L s.lake
  ledgers : ∀ u ledger, (s.nodes u).ledger = some ledger → P s.lake ledger

namespace NodesInv

variable {L : Lake → Prop} {P : Lake → WatermarkLedger → Prop}

/-- From an empty lake with every node down. -/
theorem init (h : L {}) : NodesInv L P {} := ⟨h, fun _ _ hu => by cases hu⟩

/-- The ledger of any node, up or not. -/
theorem ledgerOf (h : NodesInv L P s) (hempty : P s.lake {}) (i : ℕ) : P s.lake (s.ledgerOf i) := by
  rw [DrainState.ledgerOf]
  cases hl : (s.nodes i).ledger with
  | none => exact hempty
  | some ledger => exact h.ledgers i ledger hl

theorem setLedger {new : Option WatermarkLedger} (h : NodesInv L P s)
    (hnew : ∀ ledger, new = some ledger → P s.lake ledger) : NodesInv L P (s.setLedger i new) := by
  refine ⟨h.lake, fun u ledger hu => ?_⟩
  rw [DrainState.setLedger, setNode_nodes] at hu
  split_ifs at hu
  · exact hnew ledger hu
  · exact h.ledgers u ledger hu

theorem congr {s' : DrainState} (h : NodesInv L P s) (hl : s'.lake = s.lake)
    (hledger : ∀ u, (s'.nodes u).ledger = (s.nodes u).ledger) : NodesInv L P s' := by
  refine ⟨hl ▸ h.lake, fun u ledger hu => ?_⟩
  rw [hledger] at hu
  rw [hl]
  exact h.ledgers u ledger hu

/-- A call keeps the invariant if landing a batch and recording a manifest do. -/
theorem exec (h : NodesInv L P s)
    (hland : ∀ m ws, o = .commitFiles m ws → L (s.lake.register config m ws) ∧
      ∀ ledger, P s.lake ledger → P (s.lake.register config m ws) ledger)
    (hrecord : ∀ m, o = .recordCommit m → P s.lake ((s.ledgerOf i).recordCommit m).2) :
    NodesInv L P (DrainState.exec config i o fate s).2 := by
  rcases exec_cases config i o fate s with hsame | ⟨m, ws, ho, heq⟩ | ⟨m, ho, heq⟩ | ⟨key, covered, -, heq⟩
  · exact h.congr hsame.lake hsame.ledger
  · rw [heq]
    obtain ⟨hlake, hkeep⟩ := hland m ws ho
    exact ⟨hlake, fun u ledger hu => hkeep ledger (h.ledgers u ledger hu)⟩
  · rw [heq]
    refine h.setLedger fun ledger hl => ?_
    obtain rfl := Option.some.inj hl
    exact hrecord m ho
  · rw [heq]
    exact h.congr rfl fun u => setTable_ledger u key _

/-- A move of the environment keeps it if rebuilding a ledger does. -/
theorem move (e : DrainEnv) (h : NodesInv L P s) (hboot : ∀ ledger, bootLedger s.lake = some ledger → P s.lake ledger) :
    NodesInv L P (e.move s) := by
  cases e with
  | append i key rows => exact h.congr rfl fun u => setTable_ledger u key _
  | crash i => exact h.setLedger fun ledger hl => by cases hl
  | boot i =>
    simp only [DrainEnv.move]
    split_ifs
    · exact h
    · exact h.setLedger hboot

end NodesInv

end Steps

end Duckspout
