import Duckspout.Fleet.FaultLog
import Duckspout.Fleet.Proxy

/-! The fault injectors of a run (`duckspout-fleet/src/fault.rs`, composed in `main.rs`): each arms, begins and ends one
    window of its own kind, while the other injectors run theirs and traffic crosses the links.

    A window on links takes its holds one by one and then journals that it has begun, and gives them up one by one before it
    journals that it has ended; traffic crosses the links between any two of these. The order the process injectors run in is
    left out, and so is what they do to a process; what the details of a line say is left open. -/

namespace Duckspout

/-! ### The faults of a run -/

/-- The network edges of a node that a link can be put on. -/
inductive NodeLink where
  | ingress
  | catalog
  | lake
  deriving DecidableEq, Repr

/-- A link, by the index of its node. -/
abbrev LinkId := ℕ × NodeLink

namespace FaultKind

/-- The id a run gives the window of a kind. -/
def faultId : FaultKind → String
  | nodeKill => "node-kill-0"
  | sigstopPause => "sigstop-pause-0"
  | networkPartition => "network-partition-0"
  | networkDegradation => "network-degradation-0"
  | membershipLeave => "membership-leave-0"
  | membershipJoin => "membership-join-0"
  | flightKillMidStream => "flight-kill-mid-stream-0"
  | catalogOutage => "catalog-outage-0"
  | discoveryFlap => "discovery-flap-0"
  | cacheChurn => "cache-churn-0"

theorem faultId_injective : Function.Injective faultId := by
  intro a b h
  cases a <;> cases b <;> first | rfl | (simp [faultId] at h)

/-- The faults of the links. -/
def isNetwork : FaultKind → Bool
  | networkPartition | networkDegradation | catalogOutage | discoveryFlap => true
  | _ => false

end FaultKind

/-- What the flags of a run arm: the index and the name of the node that a fault is armed against, the links that were
    built, and the conditions of a degradation. -/
structure ArmedFaults where
  target : FaultKind → Option (ℕ × String)
  built : ℕ → List NodeLink
  degraded : LinkConditions

/-- `rendered_node_id`, under the one incarnation that nodes boot with. -/
def renderedNodeId (name : String) : String := name ++ "/1"

namespace ArmedFaults

/-- The links that a fault needs have been built. -/
def Buildable (faults : ArmedFaults) (kind : FaultKind) (index : ℕ) : Prop :=
  match kind with
  | .networkPartition => faults.built index ≠ []
  | .networkDegradation => .ingress ∈ faults.built index
  | .catalogOutage | .discoveryFlap => .catalog ∈ faults.built index
  | _ => True

instance (faults : ArmedFaults) (kind : FaultKind) (index : ℕ) : Decidable (faults.Buildable kind index) := by
  unfold Buildable
  split <;> infer_instance

/-- What a window holds from its begin to its end. -/
def holds (faults : ArmedFaults) (kind : FaultKind) : List (LinkId × LinkConditions) :=
  match kind, faults.target kind with
  | .networkPartition, some (index, _) => (faults.built index).map fun link => ((index, link), .dropped)
  | .networkDegradation, some (index, _) => [((index, .ingress), faults.degraded)]
  | .catalogOutage, some (index, _) => [((index, .catalog), .dropped)]
  | _, _ => []

/-- The link that a flap takes down and up. -/
def flapped (faults : ArmedFaults) : Option LinkId := (faults.target .discoveryFlap).map fun target => (target.1, .catalog)

end ArmedFaults

/-! ### A run -/

/-- How far an injector has come, with the holds it has outstanding. -/
inductive Stage where
  | waiting
  /-- Has journaled that it is armed, and has taken some of its holds. -/
  | armed (holds : List (LinkId × ℕ))
  | started (holds : List (LinkId × ℕ))
  /-- Gives up its holds, and has some left. -/
  | lifting (holds : List (LinkId × ℕ))
  | ended
  | failed (begun : Bool)
  deriving DecidableEq, Repr

/-- The phases that an injector has journaled. -/
def Stage.phases : Stage → List FaultPhase
  | waiting => []
  | armed _ | failed false => [.armed]
  | started _ | lifting _ | failed true => [.armed, .started]
  | ended => [.armed, .started, .ended]

structure FaultRun where
  links : LinkId → FaultLink := fun _ => {}
  log : List FaultWindowLine := []
  stage : FaultKind → Stage := fun _ => .waiting

inductive FaultEvent where
  | arm (kind : FaultKind) (atMs : U64) (detail : Option JsonValue)
  /-- Takes the next of its holds. -/
  | take (kind : FaultKind)
  | start (kind : FaultKind) (atMs : U64) (detail : Option JsonValue)
  /-- Gives up the first of its holds. -/
  | lift (kind : FaultKind)
  | finish (kind : FaultKind) (atMs : U64) (detail : Option JsonValue)
  | fail (kind : FaultKind)
  | flapDown
  | flapUp
  | traffic (link : LinkId) (event : LinkEvent)

namespace FaultRun

/-- The calls that took the holds have returned: their cuts are told. -/
def Told (run : FaultRun) (holds : List (LinkId × ℕ)) : Prop := ∀ hold ∈ holds, hold.2 ∉ (run.links hold.1).cutting

instance (run : FaultRun) (holds : List (LinkId × ℕ)) : Decidable (run.Told holds) :=
  inferInstanceAs (Decidable (∀ hold ∈ holds, _))

/-- `FaultLog::record`, with the injector's next stage. -/
def record (run : FaultRun) (kind : FaultKind) (name : String) (phase : FaultPhase) (atMs : U64) (detail : Option JsonValue)
    (stage : Stage) : FaultRun :=
  { run with
    log := run.log ++ [⟨kind.faultId, kind, renderedNodeId name, phase, atMs, detail⟩]
    stage := Function.update run.stage kind stage }

/-- An injector takes one hold more. -/
def takeHold (run : FaultRun) (kind : FaultKind) (link : LinkId) (conditions : LinkConditions) (stage : Stage) : FaultRun :=
  { run with
    links := Function.update run.links link ((run.links link).hold conditions)
    stage := Function.update run.stage kind stage }

/-- An injector gives up a hold. -/
def giveHold (run : FaultRun) (kind : FaultKind) (hold : LinkId × ℕ) (stage : Stage) : FaultRun :=
  { run with
    links := Function.update run.links hold.1
      { run.links hold.1 with table := (run.links hold.1).table.release hold.2 }
    stage := Function.update run.stage kind stage }

/-- One step of a run; nothing where the step is not possible. -/
def step (faults : ArmedFaults) (run : FaultRun) : FaultEvent → Option FaultRun
  | .arm kind atMs detail =>
    match faults.target kind, run.stage kind with
    | some (index, name), .waiting =>
      if faults.Buildable kind index then some (run.record kind name .armed atMs detail (.armed [])) else none
    | _, _ => none
  | .take kind =>
    match run.stage kind with
    | .armed holds =>
      match (faults.holds kind)[holds.length]? with
      | some (link, conditions) =>
        if run.Told holds then
          some (run.takeHold kind link conditions (.armed (holds ++ [(link, (run.links link).table.nextId)])))
        else none
      | none => none
    | _ => none
  | .start kind atMs detail =>
    match faults.target kind, run.stage kind with
    | some (_, name), .armed holds =>
      if holds.length = (faults.holds kind).length ∧ run.Told holds then
        some (run.record kind name .started atMs detail (.started holds))
      else none
    | _, _ => none
  | .lift kind =>
    match run.stage kind with
    | .started (hold :: holds) =>
      if kind = .discoveryFlap then none else some (run.giveHold kind hold (.lifting holds))
    | .lifting (hold :: holds) => some (run.giveHold kind hold (.lifting holds))
    | _ => none
  | .finish kind atMs detail =>
    match faults.target kind, run.stage kind with
    | some (_, name), .started [] | some (_, name), .lifting [] =>
      some (run.record kind name .ended atMs detail .ended)
    | _, _ => none
  | .fail kind =>
    match run.stage kind with
    | .armed [] =>
      if kind.isNetwork ∨ kind = .cacheChurn then none
      else some { run with stage := Function.update run.stage kind (.failed false) }
    | .started [] =>
      if kind = .sigstopPause then some { run with stage := Function.update run.stage kind (.failed true) } else none
    | _ => none
  | .flapDown =>
    match faults.flapped, run.stage .discoveryFlap with
    | some link, .started [] =>
      some (run.takeHold .discoveryFlap link .dropped (.started [(link, (run.links link).table.nextId)]))
    | _, _ => none
  | .flapUp =>
    match run.stage .discoveryFlap with
    | .started [hold] =>
      if run.Told [hold] then some (run.giveHold .discoveryFlap hold (.started [])) else none
    | _ => none
  | .traffic link event =>
    match event with
    | .hold _ | .release _ => none
    | event => ((run.links link).step event).map fun after => { run with links := Function.update run.links link after }

def run (faults : ArmedFaults) (events : List FaultEvent) : Option FaultRun := events.foldlM (step faults) {}

end FaultRun

/-! ### What a step does -/

/-- Elements of one key have different images where those of each key do. -/
theorem pairwise_of_nodup {α β K : Type} [DecidableEq K] {key : α → K} {f : α → β} {l : List α}
    (h : ∀ k, ((l.filter (key · = k)).map f).Nodup) : l.Pairwise fun a b => key a = key b → f a ≠ f b := by
  induction l with
  | nil => exact .nil
  | cons a l ih =>
    refine List.pairwise_cons.mpr ⟨fun b hb hkey => ?_, ih fun k => ?_⟩
    · have hself := h (key a)
      rw [List.filter_cons_of_pos (by simp), List.map_cons, List.nodup_cons] at hself
      intro heq
      exact hself.1 (heq ▸ List.mem_map_of_mem (List.mem_filter.mpr ⟨hb, by simp [hkey]⟩))
    · have hk := h k
      rw [List.filter_cons] at hk
      split at hk
      · exact (List.nodup_cons.mp hk).2
      · exact hk

namespace FaultRun

variable {faults : ArmedFaults} {run after : FaultRun} {event : FaultEvent}

/-- A step journals one line and moves its injector to the next stage, or journals nothing and leaves what every injector
    has journaled as it is. -/
theorem step_journal (hstep : run.step faults event = some after) :
    (∃ kind index name phase atMs detail, faults.target kind = some (index, name) ∧
      after.log = run.log ++ [⟨kind.faultId, kind, renderedNodeId name, phase, atMs, detail⟩] ∧
      (after.stage kind).phases = (run.stage kind).phases ++ [phase] ∧ ∀ other ≠ kind, after.stage other = run.stage other) ∨
    (after.log = run.log ∧ ∀ kind, (after.stage kind).phases = (run.stage kind).phases) := by
  have hsame : ∀ kind stage, stage.phases = (run.stage kind).phases →
      ∀ other, (Function.update run.stage kind stage other).phases = (run.stage other).phases := by
    intro kind stage hphases other
    by_cases heq : other = kind
    · rw [heq, Function.update_self, hphases]
    · rw [Function.update_of_ne heq]
  cases event with
  | arm kind atMs detail =>
    simp only [step] at hstep
    split at hstep
    · rename_i index name htarget hstage
      split at hstep
      · cases hstep
        exact Or.inl ⟨kind, index, name, .armed, atMs, detail, htarget, rfl, by simp [record, hstage, Stage.phases],
          fun other hne => Function.update_of_ne hne _ _⟩
      · cases hstep
    · cases hstep
  | take kind =>
    simp only [step] at hstep
    split at hstep
    · rename_i holds hstage
      split at hstep
      · split at hstep
        · cases hstep
          exact Or.inr ⟨rfl, hsame _ _ (by rw [hstage]; rfl)⟩
        · cases hstep
      · cases hstep
    · cases hstep
  | start kind atMs detail =>
    simp only [step] at hstep
    split at hstep
    · rename_i index name holds htarget hstage
      split at hstep
      · cases hstep
        exact Or.inl ⟨kind, index, name, .started, atMs, detail, htarget, rfl, by simp [record, hstage, Stage.phases],
          fun other hne => Function.update_of_ne hne _ _⟩
      · cases hstep
    · cases hstep
  | lift kind =>
    simp only [step] at hstep
    split at hstep
    · rename_i hold holds hstage
      split at hstep
      · cases hstep
      · cases hstep
        exact Or.inr ⟨rfl, hsame _ _ (by rw [hstage]; rfl)⟩
    · rename_i hold holds hstage
      cases hstep
      exact Or.inr ⟨rfl, hsame _ _ (by rw [hstage]; rfl)⟩
    · cases hstep
  | finish kind atMs detail =>
    simp only [step] at hstep
    split at hstep
    · rename_i index name htarget hstage
      cases hstep
      exact Or.inl ⟨kind, index, name, .ended, atMs, detail, htarget, rfl, by simp [record, hstage, Stage.phases],
        fun other hne => Function.update_of_ne hne _ _⟩
    · rename_i index name htarget hstage
      cases hstep
      exact Or.inl ⟨kind, index, name, .ended, atMs, detail, htarget, rfl, by simp [record, hstage, Stage.phases],
        fun other hne => Function.update_of_ne hne _ _⟩
    · cases hstep
  | fail kind =>
    simp only [step] at hstep
    split at hstep
    · rename_i hstage
      split at hstep
      · cases hstep
      · cases hstep
        exact Or.inr ⟨rfl, hsame _ _ (by rw [hstage]; rfl)⟩
    · rename_i hstage
      split at hstep
      · cases hstep
        exact Or.inr ⟨rfl, hsame _ _ (by rw [hstage]; rfl)⟩
      · cases hstep
    · cases hstep
  | flapDown =>
    simp only [step] at hstep
    split at hstep
    · rename_i hstage
      cases hstep
      exact Or.inr ⟨rfl, hsame _ _ (by rw [hstage]; rfl)⟩
    · cases hstep
  | flapUp =>
    simp only [step] at hstep
    split at hstep
    · rename_i hold hstage
      split at hstep
      · cases hstep
        exact Or.inr ⟨rfl, hsame _ _ (by rw [hstage]; rfl)⟩
      · cases hstep
    · cases hstep
  | traffic link event =>
    simp only [step] at hstep
    split at hstep
    · cases hstep
    · cases hstep
    · obtain ⟨next, -, rfl⟩ := Option.map_eq_some_iff.mp hstep
      exact Or.inr ⟨rfl, fun _ => rfl⟩

/-- The journal has each injector's phases in order, and nothing else. -/
structure LogOk (faults : ArmedFaults) (run : FaultRun) : Prop where
  lines : ∀ line ∈ run.log, line.faultId = line.kind.faultId ∧
    ∃ index name, faults.target line.kind = some (index, name) ∧ line.targetNode = renderedNodeId name
  phases : ∀ kind, (run.log.filter (·.kind = kind)).map (·.phase) = (run.stage kind).phases

theorem LogOk.step (h : LogOk faults run) (hstep : run.step faults event = some after) : LogOk faults after := by
  rcases step_journal hstep with ⟨kind, index, name, phase, atMs, detail, htarget, hlog, hphases, hother⟩ | ⟨hlog, hphases⟩
  · refine ⟨fun line hline => ?_, fun other => ?_⟩
    · rw [hlog] at hline
      rcases List.mem_append.mp hline with hline | hline
      · exact h.lines line hline
      · rw [List.mem_singleton.mp hline]
        exact ⟨rfl, index, name, htarget, rfl⟩
    · rw [hlog, List.filter_append, List.map_append, h.phases]
      by_cases heq : other = kind
      · rw [heq, hphases]
        simp
      · rw [hother other heq]
        simp [Ne.symm heq]
  · refine ⟨fun line hline => h.lines line (hlog ▸ hline), fun kind => ?_⟩
    rw [hlog, hphases, h.phases]

theorem Stage.nodup_phases (stage : Stage) : stage.phases.Nodup := by
  rcases stage with _ | holds | holds | holds | _ | begun
  · decide
  · simp [Stage.phases]
  · simp [Stage.phases]
  · simp [Stage.phases]
  · decide
  · cases begun <;> decide

/-- What the injectors journal, a reader of the ledger accepts. -/
theorem LogOk.consistent (h : LogOk faults run) : FaultLines.Consistent (run.log.map (·.seen)) := by
  have hphases : run.log.Pairwise fun a b => a.kind = b.kind → a.phase ≠ b.phase :=
    pairwise_of_nodup fun kind => by
      rw [h.phases]
      exact Stage.nodup_phases _
  rw [FaultLines.Consistent, List.pairwise_map]
  refine hphases.imp_of_mem fun {a b} ha hb hphase hid => ?_
  obtain ⟨hida, index, name, htarget, hnode⟩ := h.lines a ha
  obtain ⟨hidb, index', name', htarget', hnode'⟩ := h.lines b hb
  have hkind : a.kind = b.kind := FaultKind.faultId_injective (hida.symm.trans (hid.trans hidb))
  rw [hkind, htarget'] at htarget
  cases htarget
  exact ⟨congrArg FaultKind.name hkind, hnode.trans hnode'.symm, hphase hkind⟩

end FaultRun

/-! ### The holds of a run -/

/-- The holds that an injector has outstanding. -/
def Stage.outstanding : Stage → List (LinkId × ℕ)
  | armed holds | started holds | lifting holds => holds
  | _ => []

/-- The holds are on the links of the needs, in their order, under what they ask for. -/
def HeldFor (links : LinkId → FaultLink) (needs : List (LinkId × LinkConditions)) (holds : List (LinkId × ℕ)) : Prop :=
  List.Forall₂ (fun need hold => hold.1 = need.1 ∧ (links hold.1).table.Holds hold.2 need.2) needs holds

/-- What an injector holds at a stage: an armed one the first of what its window needs, and one that has begun, unless it
    flaps, all of it. -/
def Stage.Holding (faults : ArmedFaults) (links : LinkId → FaultLink) (kind : FaultKind) : Stage → Prop
  | armed holds => HeldFor links ((faults.holds kind).take holds.length) holds
  | started holds => kind ≠ .discoveryFlap → HeldFor links (faults.holds kind) holds
  | failed begun => begun = true → kind = .sigstopPause
  | _ => True

theorem HeldFor.mono {links after : LinkId → FaultLink} {needs : List (LinkId × LinkConditions)} {holds : List (LinkId × ℕ)}
    (h : HeldFor links needs holds) (hkept : ∀ hold ∈ holds, ∀ conditions,
      (links hold.1).table.Holds hold.2 conditions → (after hold.1).table.Holds hold.2 conditions) :
    HeldFor after needs holds := by
  induction h with
  | nil => exact .nil
  | cons hfirst _ ih =>
    exact .cons ⟨hfirst.1, hkept _ List.mem_cons_self _ hfirst.2⟩
      (ih fun hold hmem => hkept hold (List.mem_cons_of_mem _ hmem))

/-- Each need is met by a hold. -/
theorem HeldFor.holds {links : LinkId → FaultLink} {needs : List (LinkId × LinkConditions)} {holds : List (LinkId × ℕ)}
    (h : HeldFor links needs holds) : ∀ need ∈ needs, ∃ id, (links need.1).table.Holds id need.2 := by
  induction h with
  | nil => exact fun _ hmem => absurd hmem List.not_mem_nil
  | cons hfirst _ ih =>
    exact List.forall_mem_cons.mpr ⟨⟨_, hfirst.1 ▸ hfirst.2⟩, ih⟩

theorem Stage.Holding.mono {faults : ArmedFaults} {links after : LinkId → FaultLink} {kind : FaultKind} {stage : Stage}
    (h : stage.Holding faults links kind) (hkept : ∀ hold ∈ stage.outstanding, ∀ conditions,
      (links hold.1).table.Holds hold.2 conditions → (after hold.1).table.Holds hold.2 conditions) :
    stage.Holding faults after kind := by
  cases stage with
  | armed holds => exact HeldFor.mono h hkept
  | started holds => exact fun hflap => (h hflap).mono hkept
  | failed begun => exact h
  | _ => trivial

namespace FaultRun

variable {faults : ArmedFaults} {run after : FaultRun} {event : FaultEvent}

/-- What a step does to the holds: an injector takes one, gives one up, or goes on with those it has while the conditions of
    the links stay as they are. -/
inductive HoldsEffect (faults : ArmedFaults) (run : FaultRun) : FaultRun → Prop
  | takes {after : FaultRun} (kind : FaultKind) (link : LinkId) (conditions : LinkConditions) (stage : Stage)
      (houtstanding : stage.outstanding = (run.stage kind).outstanding ++ [(link, (run.links link).table.nextId)])
      (hholding : (run.stage kind).Holding faults (run.takeHold kind link conditions stage).links kind →
        ((run.links link).hold conditions).table.Holds (run.links link).table.nextId conditions →
        stage.Holding faults (run.takeHold kind link conditions stage).links kind)
      (hafter : after = run.takeHold kind link conditions stage) : HoldsEffect faults run after
  | gives {after : FaultRun} (kind : FaultKind) (hold : LinkId × ℕ) (stage : Stage)
      (houtstanding : (run.stage kind).outstanding = hold :: stage.outstanding)
      (hholding : stage.Holding faults (run.giveHold kind hold stage).links kind)
      (hafter : after = run.giveHold kind hold stage) : HoldsEffect faults run after
  | goes {after : FaultRun} (kind : FaultKind) (stage : Stage) (houtstanding : stage.outstanding = (run.stage kind).outstanding)
      (hholding : (run.stage kind).Holding faults run.links kind → stage.Holding faults run.links kind)
      (hlinks : after.links = run.links) (hstage : after.stage = Function.update run.stage kind stage) :
      HoldsEffect faults run after
  | crosses {after : FaultRun} (hlinks : ∀ link, (after.links link).table = (run.links link).table ∧
        (LinkOk (run.links link) → LinkOk (after.links link)))
      (hstage : after.stage = run.stage) : HoldsEffect faults run after

theorem step_holds (hstep : run.step faults event = some after) : HoldsEffect faults run after := by
  cases event with
  | arm kind atMs detail =>
    simp only [step] at hstep
    split at hstep
    · rename_i hstage
      split at hstep
      · cases hstep
        exact .goes kind (.armed []) (by rw [hstage]; rfl) (fun _ => List.Forall₂.nil) rfl rfl
      · cases hstep
    · cases hstep
  | take kind =>
    simp only [step] at hstep
    split at hstep
    · rename_i holds hstage
      split at hstep
      · rename_i link conditions hneed
        split at hstep
        · cases hstep
          refine .takes kind link conditions _ (by rw [hstage]; rfl) (fun hheld hnew => ?_) rfl
          rw [hstage] at hheld
          obtain ⟨hlt, hget⟩ := List.getElem?_eq_some_iff.mp hneed
          rw [Stage.Holding, List.length_append, List.length_singleton, List.take_succ_eq_append_getElem hlt, hget]
          refine List.rel_append hheld (.cons ⟨rfl, ?_⟩ .nil)
          simpa [takeHold] using hnew
        · cases hstep
      · cases hstep
    · cases hstep
  | start kind atMs detail =>
    simp only [step] at hstep
    split at hstep
    · rename_i holds _ hstage
      split at hstep
      · rename_i hall
        cases hstep
        refine .goes kind (.started holds) (by rw [hstage]; rfl) (fun hheld _ => ?_) rfl rfl
        rw [hstage, Stage.Holding, hall.1, List.take_length] at hheld
        exact hheld
      · cases hstep
    · cases hstep
  | lift kind =>
    simp only [step] at hstep
    split at hstep
    · rename_i hold holds hstage
      split at hstep
      · cases hstep
      · cases hstep
        exact .gives kind hold (.lifting holds) (by rw [hstage]; rfl) trivial rfl
    · rename_i hold holds hstage
      cases hstep
      exact .gives kind hold (.lifting holds) (by rw [hstage]; rfl) trivial rfl
    · cases hstep
  | finish kind atMs detail =>
    simp only [step] at hstep
    split at hstep
    · rename_i hstage
      cases hstep
      exact .goes kind .ended (by rw [hstage]; rfl) (fun _ => trivial) rfl rfl
    · rename_i hstage
      cases hstep
      exact .goes kind .ended (by rw [hstage]; rfl) (fun _ => trivial) rfl rfl
    · cases hstep
  | fail kind =>
    simp only [step] at hstep
    split at hstep
    · rename_i hstage
      split at hstep
      · cases hstep
      · cases hstep
        exact .goes kind (.failed false) (by rw [hstage]; rfl) (fun _ hbegun => by cases hbegun) rfl rfl
    · rename_i hstage
      split at hstep
      · rename_i hpause
        cases hstep
        exact .goes kind (.failed true) (by rw [hstage]; rfl) (fun _ _ => hpause) rfl rfl
      · cases hstep
    · cases hstep
  | flapDown =>
    simp only [step] at hstep
    split at hstep
    · rename_i hstage
      cases hstep
      exact .takes .discoveryFlap _ .dropped _ (by rw [hstage]; rfl) (by intro _ _ hflap; exact absurd rfl hflap) rfl
    · cases hstep
  | flapUp =>
    simp only [step] at hstep
    split at hstep
    · rename_i hold hstage
      split at hstep
      · cases hstep
        exact .gives .discoveryFlap hold (.started []) (by rw [hstage]; rfl) (by intro hflap; exact absurd rfl hflap) rfl
      · cases hstep
    · cases hstep
  | traffic link event =>
    simp only [step] at hstep
    split at hstep
    · cases hstep
    · cases hstep
    · rename_i hhold hrelease
      obtain ⟨next, hnext, rfl⟩ := Option.map_eq_some_iff.mp hstep
      refine .crosses (fun other => ?_) rfl
      dsimp only
      by_cases heq : other = link
      · subst heq
        rw [Function.update_self]
        refine ⟨?_, fun hok => hok.step hnext⟩
        cases FaultLink.effect hnext with
        | hold held => exact absurd rfl (hhold held)
        | release released htold => exact absurd rfl (hrelease released)
        | _ => rfl
      · rw [Function.update_of_ne heq]
        exact ⟨rfl, id⟩

/-- Every hold outstanding on a link is that of one injector, and each injector holds what its stage says. -/
structure HoldsOk (faults : ArmedFaults) (run : FaultRun) : Prop where
  ok : ∀ link, LinkOk (run.links link)
  holding : ∀ kind, (run.stage kind).Holding faults run.links kind
  owned : ∀ link id conditions, (run.links link).table.Holds id conditions →
    ∃ kind, (link, id) ∈ (run.stage kind).outstanding
  lt : ∀ kind, ∀ hold ∈ (run.stage kind).outstanding, hold.2 < (run.links hold.1).table.nextId
  disjoint : ∀ kind other, ∀ hold ∈ (run.stage kind).outstanding, hold ∈ (run.stage other).outstanding → kind = other

theorem HoldsOk.new : HoldsOk faults {} :=
  ⟨fun _ => .new, fun _ => trivial, (fun _ _ _ h => by simp [HoldTable.Holds] at h), (fun _ _ h => by cases h),
    fun _ _ _ h => by cases h⟩

theorem HoldsOk.takes (h : HoldsOk faults run) {kind : FaultKind} {link : LinkId} {conditions : LinkConditions} {stage : Stage}
    (houtstanding : stage.outstanding = (run.stage kind).outstanding ++ [(link, (run.links link).table.nextId)])
    (hholding : (run.stage kind).Holding faults (run.takeHold kind link conditions stage).links kind →
      ((run.links link).hold conditions).table.Holds (run.links link).table.nextId conditions →
      stage.Holding faults (run.takeHold kind link conditions stage).links kind) :
    HoldsOk faults (run.takeHold kind link conditions stage) := by
  generalize hafter : run.takeHold kind link conditions stage = after at hholding
  have hself : after.stage kind = stage := by
    rw [← hafter]
    exact Function.update_self ..
  have hother : ∀ other ≠ kind, after.stage other = run.stage other := by
    intro other hne
    rw [← hafter]
    exact Function.update_of_ne hne ..
  have hlink : after.links link = (run.links link).hold conditions := by
    rw [← hafter]
    exact Function.update_self ..
  have hlinks : ∀ other ≠ link, after.links other = run.links other := by
    intro other hne
    rw [← hafter]
    exact Function.update_of_ne hne ..
  have hnextId : ∀ other, (run.links other).table.nextId ≤ (after.links other).table.nextId := by
    intro other
    by_cases heq : other = link
    · rw [heq, hlink]
      exact Nat.le_succ _
    · rw [hlinks other heq]
  have hkept : ∀ other id held, (run.links other).table.Holds id held → (after.links other).table.Holds id held := by
    intro other id held hheld
    by_cases heq : other = link
    · subst heq
      have hlt := (h.ok other).id_lt id held hheld
      rw [hlink]
      exact HoldTable.holds_hold.mpr (Or.inr ⟨by omega, hheld⟩)
    · rwa [hlinks other heq]
  -- a hold of any injector is older than the one just taken
  have hold : ∀ other, ∀ hold ∈ (after.stage other).outstanding, hold ∈ (run.stage other).outstanding ∨
      other = kind ∧ hold = (link, (run.links link).table.nextId) := by
    intro other hold hmem
    by_cases heq : other = kind
    · rw [heq, hself, houtstanding] at hmem
      rcases List.mem_append.mp hmem with hmem | hmem
      · exact Or.inl (heq ▸ hmem)
      · exact Or.inr ⟨heq, List.mem_singleton.mp hmem⟩
    · exact Or.inl (hother other heq ▸ hmem)
  have hnotNew : ∀ other, (link, (run.links link).table.nextId) ∉ (run.stage other).outstanding :=
    fun other hmem => lt_irrefl _ (h.lt other _ hmem)
  refine ⟨fun other => ?_, fun other => ?_, fun other id held hid => ?_, fun other hmine hmem => ?_,
    fun a b hboth ha hb => ?_⟩
  · by_cases heq : other = link
    · rw [heq, hlink]
      exact (h.ok link).hold conditions
    · rw [hlinks other heq]
      exact h.ok other
  · by_cases heq : other = kind
    · rw [heq, hself]
      exact hholding ((h.holding kind).mono fun hold _ held => hkept hold.1 hold.2 held)
        (HoldTable.holds_hold.mpr (Or.inl ⟨rfl, rfl⟩))
    · rw [hother other heq]
      exact (h.holding other).mono fun hold _ held => hkept hold.1 hold.2 held
  · have hbefore : (other = link ∧ id = (run.links link).table.nextId) ∨ (run.links other).table.Holds id held := by
      by_cases heq : other = link
      · subst heq
        rw [hlink] at hid
        rcases HoldTable.holds_hold.mp hid with ⟨rfl, -⟩ | ⟨-, hid⟩
        · exact Or.inl ⟨rfl, rfl⟩
        · exact Or.inr hid
      · exact Or.inr (hlinks other heq ▸ hid)
    rcases hbefore with ⟨rfl, rfl⟩ | hbefore
    · exact ⟨kind, by rw [hself, houtstanding]; exact List.mem_append_right _ List.mem_cons_self⟩
    · obtain ⟨owner, howner⟩ := h.owned other id held hbefore
      by_cases heq : owner = kind
      · exact ⟨kind, by rw [hself, houtstanding]; exact List.mem_append_left _ (heq ▸ howner)⟩
      · exact ⟨owner, by rwa [hother owner heq]⟩
  · rcases hold other hmine hmem with hmem | ⟨-, rfl⟩
    · exact (h.lt other hmine hmem).trans_le (hnextId _)
    · rw [hlink]
      exact Nat.lt_succ_self _
  · rcases hold a hboth ha with ha | ⟨rfl, hnew⟩
    · rcases hold b hboth hb with hb | ⟨rfl, hnew⟩
      · exact h.disjoint a b hboth ha hb
      · exact absurd (hnew ▸ ha) (hnotNew a)
    · rcases hold b hboth hb with hb | ⟨rfl, -⟩
      · exact absurd (hnew ▸ hb) (hnotNew b)
      · rfl

theorem HoldsOk.gives (h : HoldsOk faults run) {kind : FaultKind} {hold : LinkId × ℕ} {stage : Stage}
    (houtstanding : (run.stage kind).outstanding = hold :: stage.outstanding)
    (hholding : stage.Holding faults (run.giveHold kind hold stage).links kind) :
    HoldsOk faults (run.giveHold kind hold stage) := by
  generalize hafter : run.giveHold kind hold stage = after at hholding
  have hself : after.stage kind = stage := by
    rw [← hafter]
    exact Function.update_self ..
  have hother : ∀ other ≠ kind, after.stage other = run.stage other := by
    intro other hne
    rw [← hafter]
    exact Function.update_of_ne hne ..
  have hlink : after.links hold.1 = { run.links hold.1 with table := (run.links hold.1).table.release hold.2 } := by
    rw [← hafter]
    exact Function.update_self ..
  have hlinks : ∀ other ≠ hold.1, after.links other = run.links other := by
    intro other hne
    rw [← hafter]
    exact Function.update_of_ne hne ..
  have hmine : hold ∈ (run.stage kind).outstanding := houtstanding ▸ List.mem_cons_self
  have hreleased : ∀ other id held, (after.links other).table.Holds id held ↔
      (other, id) ≠ hold ∧ (run.links other).table.Holds id held := by
    intro other id held
    by_cases heq : other = hold.1
    · subst heq
      rw [hlink]
      refine HoldTable.holds_release.trans (and_congr_left fun _ => not_congr ?_)
      exact ⟨fun heq => Prod.ext rfl heq.symm, fun heq => (congrArg Prod.snd heq).symm⟩
    · rw [hlinks other heq]
      exact ⟨fun hid => ⟨fun hsame => heq (congrArg Prod.fst hsame), hid⟩, And.right⟩
  have hbefore : ∀ other, ∀ mine ∈ (after.stage other).outstanding, mine ∈ (run.stage other).outstanding := by
    intro other mine hmem
    by_cases heq : other = kind
    · rw [heq, hself] at hmem
      rw [heq, houtstanding]
      exact List.mem_cons_of_mem _ hmem
    · exact hother other heq ▸ hmem
  refine ⟨fun other => ?_, fun other => ?_, fun other id held hid => ?_, fun other mine hmem => ?_,
    fun a b both ha hb => h.disjoint a b both (hbefore a both ha) (hbefore b both hb)⟩
  · by_cases heq : other = hold.1
    · rw [heq, hlink]
      exact (h.ok hold.1).release hold.2
    · rw [hlinks other heq]
      exact h.ok other
  · by_cases heq : other = kind
    · rw [heq, hself]
      exact hholding
    · rw [hother other heq]
      refine (h.holding other).mono fun mine hmem held hheld => (hreleased _ _ _).mpr ⟨?_, hheld⟩
      rintro rfl
      exact heq (h.disjoint other kind _ hmem hmine)
  · obtain ⟨hne, hid⟩ := (hreleased other id held).mp hid
    obtain ⟨owner, howner⟩ := h.owned other id held hid
    by_cases heq : owner = kind
    · rw [heq, houtstanding] at howner
      exact ⟨kind, by rw [hself]; exact (List.mem_cons.mp howner).resolve_left hne⟩
    · exact ⟨owner, by rwa [hother owner heq]⟩
  · have hlt := h.lt other mine (hbefore other mine hmem)
    by_cases heq : mine.1 = hold.1
    · rw [heq] at hlt ⊢
      rw [hlink]
      exact hlt
    · rwa [hlinks mine.1 heq]

/-- A step that leaves the tables of the links and the holds of the injectors as they are. -/
theorem HoldsOk.same (h : HoldsOk faults run)
    (hlinks : ∀ link, (after.links link).table = (run.links link).table ∧ (LinkOk (run.links link) → LinkOk (after.links link)))
    (hstage : ∀ kind, (after.stage kind).outstanding = (run.stage kind).outstanding ∧
      (after.stage kind).Holding faults run.links kind) : HoldsOk faults after := by
  have hholds : ∀ link id conditions, (after.links link).table.Holds id conditions ↔ (run.links link).table.Holds id conditions := by
    intro link id conditions
    rw [HoldTable.Holds, HoldTable.Holds, (hlinks link).1]
  refine ⟨fun link => (hlinks link).2 (h.ok link),
    fun kind => (hstage kind).2.mono fun hold _ conditions => (hholds hold.1 hold.2 conditions).mpr,
    fun link id conditions hid => ?_, fun kind hold hmem => ?_, fun a b hold ha hb => ?_⟩
  · obtain ⟨owner, howner⟩ := h.owned link id conditions ((hholds _ _ _).mp hid)
    exact ⟨owner, by rwa [(hstage owner).1]⟩
  · rw [(hstage kind).1] at hmem
    rw [(hlinks hold.1).1]
    exact h.lt kind hold hmem
  · rw [(hstage a).1] at ha
    rw [(hstage b).1] at hb
    exact h.disjoint a b hold ha hb

theorem HoldsOk.step (h : HoldsOk faults run) (hstep : run.step faults event = some after) : HoldsOk faults after := by
  cases step_holds hstep with
  | takes kind link conditions stage houtstanding hholding hafter => exact hafter ▸ h.takes houtstanding hholding
  | gives kind hold stage houtstanding hholding hafter => exact hafter ▸ h.gives houtstanding hholding
  | goes kind stage houtstanding hholding hlinks hstage =>
    refine h.same (fun link => by rw [hlinks]; exact ⟨rfl, id⟩) fun other => ?_
    rw [hstage]
    by_cases heq : other = kind
    · rw [heq, Function.update_self]
      exact ⟨houtstanding, hholding (h.holding kind)⟩
    · rw [Function.update_of_ne heq]
      exact ⟨rfl, h.holding other⟩
  | crosses hlinks hstage =>
    refine h.same hlinks fun kind => ?_
    rw [hstage]
    exact ⟨rfl, h.holding kind⟩

theorem run_ok {events : List FaultEvent} (hrun : FaultRun.run faults events = some run) :
    LogOk faults run ∧ HoldsOk faults run := by
  have hgo : ∀ (events : List FaultEvent) (start : FaultRun), LogOk faults start ∧ HoldsOk faults start →
      events.foldlM (FaultRun.step faults) start = some run → LogOk faults run ∧ HoldsOk faults run := by
    intro events
    induction events with
    | nil =>
      intro start h hrun
      exact Option.some.inj hrun ▸ h
    | cons event events ih =>
      intro start h hrun
      obtain ⟨next, hstep, hrest⟩ := Option.bind_eq_some_iff.mp hrun
      exact ih next ⟨h.1.step hstep, h.2.step hstep⟩ hrest
  exact hgo events {} ⟨⟨fun _ h => absurd h List.not_mem_nil, fun _ => rfl⟩, .new⟩ hrun

/-! ### What the journal says -/

/-- The link is at least as restricted as the conditions ask, in each direction. -/
def InForce (link : FaultLink) (conditions : LinkConditions) : Prop :=
  ∀ direction, (conditions.of direction = .drop → link.dropped = true ∧ link.conditions.of direction = .drop) ∧
    (link.conditions.of direction ≠ .drop →
      (conditions.of direction).pace LinkCondition.chunk ≤ (link.conditions.of direction).pace LinkCondition.chunk)

theorem inForce_of_holds {link : FaultLink} {id : ℕ} {conditions : LinkConditions} (h : link.table.Holds id conditions) :
    InForce link conditions := by
  refine fun direction => ⟨fun hdrop => ⟨?_, ?_⟩, fun hpasses => (HoldTable.effective_spec hpasses).2 id conditions h⟩
  · exact HoldTable.eitherDropped_iff.mpr ⟨id, conditions, h, LinkConditions.eitherDropped_iff.mpr ⟨direction, hdrop⟩⟩
  · exact HoldTable.effective_eq_drop.mpr ⟨id, conditions, h, hdrop⟩

/-- A window of the ledger is the journal of one injector. -/
theorem LogOk.window (h : LogOk faults run) {ledger : FaultLedger} (hledger : ledger.Of (run.log.map (·.seen)))
    {w : FaultWindow} (hw : w ∈ ledger.windows) : ∃ kind index name, faults.target kind = some (index, name) ∧
      w.faultId = kind.faultId ∧ w.kind = kind.name ∧ w.targetNode = renderedNodeId name ∧
      (∀ phase atMs, w.slot phase = some atMs ↔ ∃ line ∈ run.log, line.kind = kind ∧ line.phase = phase ∧ line.atMs = atMs) ∧
      ∀ phase, (w.slot phase).isSome = true ↔ phase ∈ (run.stage kind).phases := by
  have htell := (hledger.mem_iff w).mp hw
  obtain ⟨seen, hseen, hnamed⟩ := htell.named
  obtain ⟨line, hline, rfl⟩ := List.mem_map.mp hseen
  obtain ⟨hid, index, name, htarget, hnode⟩ := h.lines line hline
  obtain ⟨hkind, htargetNode⟩ := htell.same _ hseen hnamed
  have hslot : ∀ phase atMs, w.slot phase = some atMs ↔
      ∃ l ∈ run.log, l.kind = line.kind ∧ l.phase = phase ∧ l.atMs = atMs := by
    intro phase atMs
    rw [htell.slot, ← hnamed]
    constructor
    · rintro ⟨_, hmem, hsame, hphase, hat⟩
      obtain ⟨l, hl, rfl⟩ := List.mem_map.mp hmem
      exact ⟨l, hl, FaultKind.faultId_injective ((h.lines l hl).1.symm.trans (hsame.trans hid)), hphase, hat⟩
    · rintro ⟨l, hl, hsame, hphase, hat⟩
      exact ⟨l.seen, List.mem_map_of_mem hl, (h.lines l hl).1.trans (by rw [hsame, ← hid]; rfl), hphase, hat⟩
  refine ⟨line.kind, index, name, htarget, hnamed.symm.trans hid, hkind.symm, htargetNode.symm.trans hnode, hslot,
    fun phase => ?_⟩
  rw [← h.phases, List.mem_map, Option.isSome_iff_exists]
  simp only [hslot, List.mem_filter, decide_eq_true_eq]
  constructor
  · rintro ⟨atMs, l, hl, hsame, hphase, -⟩
    exact ⟨l, ⟨hl, hsame⟩, hphase⟩
  · rintro ⟨l, ⟨hl, hsame⟩, hphase⟩
    exact ⟨l.atMs, l, hl, hsame, hphase, rfl⟩

/-- An injector that has armed has its window in the ledger. -/
theorem LogOk.exists_window (h : LogOk faults run) {ledger : FaultLedger} (hledger : ledger.Of (run.log.map (·.seen)))
    {kind : FaultKind} {phase : FaultPhase} (hphase : phase ∈ (run.stage kind).phases) :
    ∃ w ∈ ledger.windows, w.faultId = kind.faultId := by
  rw [← h.phases] at hphase
  obtain ⟨line, hline, -⟩ := List.mem_map.mp hphase
  obtain ⟨hmem, hkind⟩ := List.mem_filter.mp hline
  obtain ⟨w, hw, hid⟩ := hledger.noted line.seen (List.mem_map_of_mem hmem)
  refine ⟨w, hw, hid.trans ?_⟩
  rw [← of_decide_eq_true hkind]
  exact (h.lines line hmem).1

/-- A window that has begun and not ended is one whose injector has not come past giving up its holds. -/
theorem started_of_phases {stage : Stage} (hstarted : .started ∈ stage.phases) (hnot : .ended ∉ stage.phases) :
    (∃ holds, stage = .started holds ∨ stage = .lifting holds) ∨ stage = .failed true := by
  rcases stage with _ | holds | holds | holds | _ | begun
  · simp [Stage.phases] at hstarted
  · simp [Stage.phases] at hstarted
  · exact Or.inl ⟨holds, Or.inl rfl⟩
  · exact Or.inl ⟨holds, Or.inr rfl⟩
  · simp [Stage.phases] at hnot
  · cases begun
    · simp [Stage.phases] at hstarted
    · exact Or.inr rfl

/-- An injector with a hold outstanding is taking its holds, or its window has begun and not ended. -/
theorem phases_of_outstanding {stage : Stage} {hold : LinkId × ℕ} (h : hold ∈ stage.outstanding) :
    (∃ holds, stage = .armed holds ∧ hold ∈ holds) ∨ .started ∈ stage.phases ∧ .ended ∉ stage.phases := by
  rcases stage with _ | holds | holds | holds | _ | begun
  · cases h
  · exact Or.inl ⟨holds, rfl, h⟩
  · exact Or.inr (by simp [Stage.phases])
  · exact Or.inr (by simp [Stage.phases])
  · cases h
  · cases h

end FaultRun

namespace HoldTable

theorem effective_eq_pass {table : HoldTable} (h : ∀ id conditions, ¬table.Holds id conditions) : table.effective = .pass := by
  have hnone : table.active.toList.map (·.2) = [] :=
    List.eq_nil_iff_forall_not_mem.mpr fun conditions hmem => by
      obtain ⟨id, hid⟩ := mem_conditions.mp hmem
      exact h id conditions hid
  rw [effective, hnone, List.foldl_nil]

end HoldTable

namespace FaultRun

variable {faults : ArmedFaults} {run : FaultRun}

/-- In any interleaving of the injectors of a run and the traffic over its links, the judge reads from their journal one
    window for each fault that was armed, with each phase its injector journaled, at its time; a window that has begun and
    not ended has what it holds in force on each of its links until its injector gives them up, whatever other windows share
    them; and a link that does not pass is that of a window that has begun and not ended, or of an injector that is taking
    the holds of a window that it will then journal to have begun. -/
theorem journal_tells {events : List FaultEvent} (hrun : FaultRun.run faults events = some run) {write : WriteLine}
    {reader : JournalReader} (hjson : write.ReadsBack reader (run.log.map (·.members))) {path : String}
    (hfile : reader.readToString path = .ok (faultLogText write run.log)) (debug : String → String) :
    ∃ ledger, parseFaultLedger reader debug path = .ok ledger ∧ ledger.windows.Pairwise (·.faultId < ·.faultId) ∧
      (∀ kind, (∃ w ∈ ledger.windows, w.faultId = kind.faultId) ↔ run.stage kind ≠ .waiting) ∧
      (∀ w ∈ ledger.windows, ∃ kind index name, faults.target kind = some (index, name) ∧ w.faultId = kind.faultId ∧
        w.kind = kind.name ∧ w.targetNode = renderedNodeId name ∧
        (∀ phase atMs, w.slot phase = some atMs ↔
          ∃ line ∈ run.log, line.kind = kind ∧ line.phase = phase ∧ line.atMs = atMs) ∧
        (∀ phase, (w.slot phase).isSome = true ↔ phase ∈ (run.stage kind).phases) ∧
        (w.startedAtMs.isSome = true → w.endedAtMs = none → (∀ holds, run.stage kind ≠ .lifting holds) →
          ∀ need ∈ faults.holds kind, InForce (run.links need.1) need.2)) ∧
      ∀ link, (run.links link).conditions ≠ .pass → ∃ kind id, (link, id) ∈ (run.stage kind).outstanding ∧
        ((∃ w ∈ ledger.windows, w.faultId = kind.faultId ∧ w.startedAtMs.isSome = true ∧ w.endedAtMs = none) ∨
          ∃ holds, run.stage kind = .armed holds ∧ (link, id) ∈ holds) := by
  obtain ⟨hlog, hholds⟩ := run_ok hrun
  obtain ⟨ledger, hparse, hledger⟩ := parse_faultLogText hjson debug hfile hlog.consistent
  refine ⟨ledger, hparse, hledger.sorted, fun kind => ⟨?_, fun hstage => ?_⟩, fun w hw => ?_, fun link hlink => ?_⟩
  · rintro ⟨w, hw, hid⟩ hwaiting
    obtain ⟨kind', index, name, -, hid', -, -, hslot, -⟩ := hlog.window hledger hw
    obtain rfl : kind' = kind := FaultKind.faultId_injective (hid'.symm.trans hid)
    obtain ⟨seen, hseen, hnamed⟩ := ((hledger.mem_iff w).mp hw).named
    obtain ⟨line, hline, rfl⟩ := List.mem_map.mp hseen
    have hkind : line.kind = kind' :=
      FaultKind.faultId_injective ((hlog.lines line hline).1.symm.trans (hnamed.trans hid))
    have hphase : line.phase ∈ (run.stage kind').phases := by
      rw [← hlog.phases]
      exact List.mem_map_of_mem (List.mem_filter.mpr ⟨hline, by simpa using hkind⟩)
    rw [hwaiting] at hphase
    cases hphase
  · have harmed : FaultPhase.armed ∈ (run.stage kind).phases := by
      rcases hnow : run.stage kind with _ | holds | holds | holds | _ | begun
      · exact absurd hnow hstage
      · simp [Stage.phases]
      · simp [Stage.phases]
      · simp [Stage.phases]
      · decide
      · cases begun <;> decide
    exact hlog.exists_window hledger harmed
  · obtain ⟨kind, index, name, htarget, hid, hkind, hnode, hslot, hphases⟩ := hlog.window hledger hw
    refine ⟨kind, index, name, htarget, hid, hkind, hnode, hslot, hphases, fun hstarted hended hkeeps need hneed => ?_⟩
    have hbegun := (hphases .started).mp hstarted
    have hnot : FaultPhase.ended ∉ (run.stage kind).phases := by
      intro hin
      have := (hphases .ended).mpr hin
      rw [FaultWindow.slot, hended] at this
      cases this
    have hheld := hholds.holding kind
    rcases started_of_phases hbegun hnot with ⟨holds, hnow | hnow⟩ | hnow
    · rw [hnow] at hheld
      by_cases hflap : kind = .discoveryFlap
      · rw [hflap] at hneed
        exact absurd hneed List.not_mem_nil
      · obtain ⟨id, hid⟩ := (hheld hflap).holds need hneed
        exact inForce_of_holds hid
    · exact absurd hnow (hkeeps holds)
    · rw [hnow] at hheld
      rw [hheld rfl] at hneed
      exact absurd hneed List.not_mem_nil
  · obtain ⟨id, conditions, hid⟩ : ∃ id conditions, (run.links link).table.Holds id conditions := by
      by_contra hnone
      exact hlink (HoldTable.effective_eq_pass fun id conditions hid => hnone ⟨id, conditions, hid⟩)
    obtain ⟨kind, hmem⟩ := hholds.owned link id conditions hid
    refine ⟨kind, id, hmem, ?_⟩
    rcases phases_of_outstanding hmem with harmed | ⟨hstarted, hnot⟩
    · exact Or.inr harmed
    · obtain ⟨w, hw, hid⟩ := hlog.exists_window hledger hstarted
      obtain ⟨kind', -, -, -, hid', -, -, -, hphases⟩ := hlog.window hledger hw
      obtain rfl : kind' = kind := FaultKind.faultId_injective (hid'.symm.trans hid)
      refine Or.inl ⟨w, hw, hid, (hphases .started).mpr hstarted, ?_⟩
      by_contra hended
      exact hnot ((hphases .ended).mp (Option.isSome_iff_ne_none.mpr hended))

/-- An outage and a flap, both against the catalog link of the first node. -/
def catalogFaults : ArmedFaults where
  target
    | .catalogOutage | .discoveryFlap => some (0, "duckspout-0")
    | _ => none
  built _ := [.ingress, .catalog]
  degraded := .pass

/-- The flap takes its link down and up within the outage, which is not over; a connection comes between the hold of the
    outage and the line that says that it has begun. -/
def flapInOutage : List FaultEvent :=
  [.arm .catalogOutage 10 none, .arm .discoveryFlap 11 none, .take .catalogOutage, .traffic (0, .catalog) (.cut 0),
    .traffic (0, .catalog) .accept, .traffic (0, .catalog) .decide, .start .catalogOutage 20 none,
    .start .discoveryFlap 21 none, .flapDown, .flapUp, .finish .discoveryFlap 30 none]

/-- The lines of that run. -/
def flapInOutageLog : List FaultWindowLine :=
  [⟨"catalog-outage-0", .catalogOutage, "duckspout-0/1", .armed, 10, none⟩,
    ⟨"discovery-flap-0", .discoveryFlap, "duckspout-0/1", .armed, 11, none⟩,
    ⟨"catalog-outage-0", .catalogOutage, "duckspout-0/1", .started, 20, none⟩,
    ⟨"discovery-flap-0", .discoveryFlap, "duckspout-0/1", .started, 21, none⟩,
    ⟨"discovery-flap-0", .discoveryFlap, "duckspout-0/1", .ended, 30, none⟩]

/-- The text of a line breaks nowhere that its strings do not. -/
theorem unbroken_plainText {line : FaultWindowLine} (hdetail : line.detail = none) (hid : unbroken line.faultId = true)
    (htarget : unbroken line.targetNode = true) (hat : unbroken (toString ((line.atMs : ℕ) : ℤ)) = true) :
    unbroken (plainText line.members) = true := by
  have hkind : unbroken line.kind.name = true := by cases line.kind <;> decide
  have hphase : unbroken line.phase.name = true := by cases line.phase <;> decide
  simp only [plainText, FaultWindowLine.members, hdetail, Option.toList_none, List.map_nil, List.append_nil, List.map_cons,
    String.intercalate_cons_cons, String.intercalate_singleton, unbroken_append, Bool.and_eq_true]
  and_intros <;> first | with_reducible assumption | decide

/-- Reads the lines of that run back. -/
def flapInOutageReader : JournalReader where
  readToString path :=
    if path = "faults.ndjson" then .ok (faultLogText plainText flapInOutageLog)
    else .error "No such file or directory (os error 2)"
  readObject raw :=
    match flapInOutageLog.find? fun line => plainText line.members = raw with
    | some line => .ok line.members
    | none => .error "expected value at line 1 column 1"

theorem journal_tells_flapInOutage : ∃ run ledger, FaultRun.run catalogFaults flapInOutage = some run ∧
    parseFaultLedger flapInOutageReader id "faults.ndjson" = .ok ledger ∧
    ∃ w ∈ ledger.windows, w.faultId = "catalog-outage-0" ∧ (w.endedAtMs = none → w.startedAtMs.isSome = true →
      InForce (run.links (0, .catalog)) .dropped) := by
  have hrun : (FaultRun.run catalogFaults flapInOutage).map (·.stage .catalogOutage) = some (.started [((0, .catalog), 0)]) := by
    decide +kernel
  have hlog : (FaultRun.run catalogFaults flapInOutage).map (·.log) = some flapInOutageLog := by
    rfl
  obtain ⟨run, hrun, hstage⟩ := Option.map_eq_some_iff.mp hrun
  rw [hrun, Option.map_some] at hlog
  have hlog : run.log = flapInOutageLog := Option.some.inj hlog
  have hjson : WriteLine.ReadsBack plainText flapInOutageReader (run.log.map (·.members)) := by
    rw [hlog]
    refine ⟨List.forall_mem_map.mpr fun line hline => ?_, List.forall_mem_map.mpr fun line hline => ?_⟩
    · simp only [flapInOutageLog, List.mem_cons, List.not_mem_nil, or_false] at hline
      rcases hline with rfl | rfl | rfl | rfl | rfl <;>
        exact unbroken_iff.mp (unbroken_plainText rfl (by decide) (by decide) (by decide))
    · simp only [flapInOutageLog, List.mem_cons, List.not_mem_nil, or_false] at hline
      rcases hline with rfl | rfl | rfl | rfl | rfl <;> rfl
  have hfile : flapInOutageReader.readToString "faults.ndjson" = .ok (faultLogText plainText run.log) := by
    rw [hlog]
    rfl
  obtain ⟨ledger, hledger, -, harmed, htell, -⟩ := journal_tells hrun hjson hfile id
  have hwaiting : run.stage .catalogOutage ≠ .waiting := by
    rw [hstage]
    exact Stage.noConfusion
  obtain ⟨w, hw, hid⟩ := (harmed .catalogOutage).mpr hwaiting
  refine ⟨run, ledger, hrun, hledger, w, hw, hid, fun hended hstarted => ?_⟩
  obtain ⟨kind, index, name, -, hid', -, -, -, -, hforce⟩ := htell w hw
  obtain rfl : kind = .catalogOutage := FaultKind.faultId_injective (hid'.symm.trans hid)
  refine hforce hstarted hended (fun holds hlifting => ?_) ((0, .catalog), .dropped) List.mem_cons_self
  rw [hstage] at hlifting
  cases hlifting

end FaultRun

end Duckspout
