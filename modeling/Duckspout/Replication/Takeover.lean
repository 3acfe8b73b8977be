import Duckspout.Replication.Boot
import Duckspout.Replication.Routing
import Mathlib.Data.Finset.Insert

/-! Ownership takeover (`duckspout-replication/src/takeover.rs`): when a partition's owner dies, the
    survivors rank the remaining nodes, and the winner drains from its own replica copy. -/

namespace Duckspout

/-! ### The decision -/

/-- What the drain is told to take over. -/
structure TakeoverDrainSignal where
  partition : PartitionId
  deadOwner : NodeId
  newOwner : NodeId
  deriving DecidableEq, Repr

/-- The ownership transition for one partition and one dead node. -/
structure TakeoverDecision where
  partition : PartitionId
  deadOwner : NodeId
  oldOwner : NodeId
  newPlan : RoutingPlan
  selfIsNewOwner : Bool
  selfWasReplicaBefore : Bool
  deriving DecidableEq, Repr

namespace TakeoverDecision

/-- The dead node owned the partition, and was not merely a replica of it. -/
def isGenuineTakeover (decision : TakeoverDecision) : Bool := decide (decision.oldOwner = decision.deadOwner)

/-- The new owner has no replica copy to drain from. -/
def requiresDeclareLoss (decision : TakeoverDecision) : Bool :=
  decision.isGenuineTakeover && decision.selfIsNewOwner && !decision.selfWasReplicaBefore

def signal (decision : TakeoverDecision) : TakeoverDrainSignal :=
  ⟨decision.partition, decision.deadOwner, decision.newPlan.owner⟩

end TakeoverDecision

/-- Routes the partition with and without the dead node. -/
def resolveTakeover (partition : PartitionId) (deadNode selfNode : NodeId) (membership : MembershipView) (rf : ℕ) :
    Option TakeoverDecision := do
  let oldPlan ← routeWrite partition selfNode membership rf
  let newMembership := MembershipView.new (membership.candidates.filter (· ≠ deadNode))
  let newPlan ← routeWrite partition selfNode newMembership rf
  return {
    partition := partition
    deadOwner := deadNode
    oldOwner := oldPlan.owner
    newPlan := newPlan
    selfIsNewOwner := newPlan.isLocalOwner
    selfWasReplicaBefore := oldPlan.replicas.contains selfNode }

/-! ### The trigger -/

/-- The pairs a node has triggered a takeover for. -/
structure TakeoverTracker where
  triggered : Finset (PartitionId × NodeId) := ∅

namespace TakeoverTracker

/-- Whether the decision raises a drain signal now. -/
def shouldTrigger (tracker : TakeoverTracker) (decision : TakeoverDecision) (boot : BootOutcome) : Bool :=
  decision.isGenuineTakeover && decision.selfIsNewOwner && decision.selfWasReplicaBefore &&
    boot.permitsOwnershipActions && !decide ((decision.partition, decision.deadOwner) ∈ tracker.triggered)

def markTriggered (tracker : TakeoverTracker) (partition : PartitionId) (deadOwner : NodeId) : TakeoverTracker :=
  ⟨insert (partition, deadOwner) tracker.triggered⟩

end TakeoverTracker

/-! ### Evaluations -/

/-- One node looks at one dead owner of one partition, under the view it has then; `accepted` says whether
    the drain takes the signal, if one is raised. -/
structure Evaluation where
  node : NodeId
  partition : PartitionId
  deadOwner : NodeId
  membership : MembershipView
  rf : ℕ
  boot : BootOutcome
  accepted : Bool

/-- The signal an evaluation raises with success. -/
def Evaluation.raised (e : Evaluation) (tracker : TakeoverTracker) : Option TakeoverDrainSignal :=
  match resolveTakeover e.partition e.deadOwner e.node e.membership e.rf with
  | none => none
  | some decision => if tracker.shouldTrigger decision e.boot && e.accepted then some decision.signal else none

/-- The evaluations that raise a signal with success, each node with its own tracker. A signal the drain
    refuses is not marked, so that the node can try again. -/
def triggers (trackers : NodeId → TakeoverTracker) : List Evaluation → List (Evaluation × TakeoverDrainSignal)
  | [] => []
  | e :: rest =>
    match e.raised (trackers e.node) with
    | none => triggers trackers rest
    | some signal =>
      let marked := (trackers e.node).markTriggered signal.partition signal.deadOwner
      (e, signal) :: triggers (Function.update trackers e.node marked) rest

/-! ### One election -/

theorem resolveTakeover_eq_some {partition : PartitionId} {deadNode selfNode : NodeId} {membership : MembershipView}
    {rf : ℕ} {decision : TakeoverDecision}
    (h : resolveTakeover partition deadNode selfNode membership rf = some decision) :
    ∃ oldPlan rest newOwner newRest, routeWrite partition selfNode membership rf = some oldPlan ∧
      hrwRanked partition membership.candidates = oldPlan.owner :: rest ∧
      oldPlan.replicas = (oldPlan.owner :: rest).take (max rf 1) ∧
      (oldPlan.owner :: rest).filter (· ≠ deadNode) = newOwner :: newRest ∧
      decision.partition = partition ∧ decision.deadOwner = deadNode ∧ decision.oldOwner = oldPlan.owner ∧
      decision.selfIsNewOwner = decide (newOwner = selfNode) ∧
      decision.selfWasReplicaBefore = oldPlan.replicas.contains selfNode := by
  simp only [resolveTakeover, Option.bind_eq_bind, Option.bind_eq_some_iff, Option.pure_def] at h
  obtain ⟨oldPlan, hold, newPlan, hnew, hdecision⟩ := h
  obtain rfl := Option.some.inj hdecision
  obtain ⟨rest, hranked, hreplicas, -⟩ := routeWrite_eq_some hold
  obtain ⟨newRest, hnewRanked, -, hlocal⟩ := routeWrite_eq_some hnew
  rw [MembershipView.candidates_new_filter, hrwRanked_filter, hranked] at hnewRanked
  exact ⟨oldPlan, rest, newPlan.owner, newRest, hold, hranked, hreplicas, hnewRanked, rfl, rfl, rfl, hlocal, rfl⟩

/-- The winner is the node that ranks first without the dead one, whoever asks and in whatever order it lists
    the nodes. -/
theorem selfIsNewOwner_unique {partition : PartitionId} {deadNode a b : NodeId} {viewA viewB : MembershipView}
    {rf rf' : ℕ} {da db : TakeoverDecision} (hview : viewA.Same viewB)
    (ha : resolveTakeover partition deadNode a viewA rf = some da)
    (hb : resolveTakeover partition deadNode b viewB rf' = some db) (hwa : da.selfIsNewOwner = true)
    (hwb : db.selfIsNewOwner = true) : a = b := by
  obtain ⟨_, _, ownerA, _, -, hrankA, -, hfilterA, -, -, -, hselfA, -⟩ := resolveTakeover_eq_some ha
  obtain ⟨_, _, ownerB, _, -, hrankB, -, hfilterB, -, -, -, hselfB, -⟩ := resolveTakeover_eq_some hb
  rw [← hrankA, hview.hrwRanked_eq] at hfilterA
  rw [← hrankB, hfilterA] at hfilterB
  obtain ⟨rfl, -⟩ := List.cons.inj hfilterB
  rw [hselfA, decide_eq_true_eq] at hwa
  rw [hselfB, decide_eq_true_eq] at hwb
  exact hwa.symm.trans hwb

/-- With the owner dead the winner held rank 2, so it was a replica unless there was only one copy. -/
theorem rf_le_one_of_requiresDeclareLoss {partition : PartitionId} {deadNode selfNode : NodeId}
    {membership : MembershipView} {rf : ℕ} {decision : TakeoverDecision}
    (h : resolveTakeover partition deadNode selfNode membership rf = some decision)
    (hloss : decision.requiresDeclareLoss = true) : rf ≤ 1 := by
  obtain ⟨oldPlan, rest, newOwner, newRest, -, hranked, hreplicas, hfilter, -, hdead, hold, hself, hbefore⟩ :=
    resolveTakeover_eq_some h
  simp only [TakeoverDecision.requiresDeclareLoss, TakeoverDecision.isGenuineTakeover, hdead, hold, hself, hbefore,
    Bool.and_eq_true, decide_eq_true_eq, Bool.not_eq_true', List.contains_eq_mem, decide_eq_false_iff_not] at hloss
  obtain ⟨⟨howner, hwinner⟩, hreplica⟩ := hloss
  by_contra hrf
  -- the dead node is nowhere in the tail, so the tail begins with the winner
  have hnodup : (oldPlan.owner :: rest).Nodup := hranked ▸ (perm_hrwRanked partition _).nodup_iff.mpr membership.nodup
  have hrest : rest.filter (· ≠ deadNode) = rest := by
    refine List.filter_eq_self.mpr fun node hnode => decide_eq_true ?_
    rintro rfl
    exact (List.nodup_cons.mp hnodup).1 (howner ▸ hnode)
  rw [List.filter_cons_of_neg (by simp [howner]), hrest] at hfilter
  refine hreplica ?_
  rw [hreplicas, hfilter, hwinner, show max rf 1 = rf - 2 + 1 + 1 by omega]
  simp

/-- What a trigger rests on. -/
theorem shouldTrigger_eq_true {tracker : TakeoverTracker} {decision : TakeoverDecision} {boot : BootOutcome}
    (h : tracker.shouldTrigger decision boot = true) :
    decision.oldOwner = decision.deadOwner ∧ decision.selfIsNewOwner = true ∧ decision.selfWasReplicaBefore = true ∧
      boot.permitsOwnershipActions = true ∧ (decision.partition, decision.deadOwner) ∉ tracker.triggered := by
  simp only [TakeoverTracker.shouldTrigger, TakeoverDecision.isGenuineTakeover, Bool.and_eq_true, decide_eq_true_eq,
    Bool.not_eq_true', decide_eq_false_iff_not] at h
  obtain ⟨⟨⟨⟨hold, hself⟩, hbefore⟩, hboot⟩, hfresh⟩ := h
  exact ⟨hold, hself, hbefore, hboot, hfresh⟩

/-- The node that raises a signal won the election for the pair it looks at, may act, and had not raised it. -/
theorem raised_eq_some {e : Evaluation} {tracker : TakeoverTracker} {signal : TakeoverDrainSignal}
    (h : e.raised tracker = some signal) :
    signal.partition = e.partition ∧ signal.deadOwner = e.deadOwner ∧ e.boot.permitsOwnershipActions = true ∧
      (e.partition, e.deadOwner) ∉ tracker.triggered ∧
      ∃ decision, resolveTakeover e.partition e.deadOwner e.node e.membership e.rf = some decision ∧
        decision.selfIsNewOwner = true := by
  simp only [Evaluation.raised] at h
  split at h
  · cases h
  next decision hdecision =>
  split at h
  next hraise =>
    obtain ⟨hshould, -⟩ := Bool.and_eq_true_iff.mp hraise
    obtain ⟨-, hself, -, hboot, hfresh⟩ := shouldTrigger_eq_true hshould
    obtain ⟨_, _, _, _, -, -, -, -, hpartition, hdead, -⟩ := resolveTakeover_eq_some hdecision
    rw [hpartition, hdead] at hfresh
    obtain rfl := Option.some.inj h
    exact ⟨hpartition, hdead, hboot, hfresh, decision, hdecision, hself⟩
  · cases h

/-! ### Runs -/

/-- A pair that a node has marked is not raised by it again. -/
theorem not_mem_triggered_of_mem_triggers {evaluations : List Evaluation} : ∀ {trackers : NodeId → TakeoverTracker},
    ∀ t ∈ triggers trackers evaluations, (t.1.partition, t.1.deadOwner) ∉ (trackers t.1.node).triggered ∧
      ∃ tracker, t.1.raised tracker = some t.2 := by
  induction evaluations with
  | nil => exact fun _ h => absurd h List.not_mem_nil
  | cons e rest ih =>
    intro trackers t ht
    rw [triggers] at ht
    split at ht
    · exact ih t ht
    next signal hraised =>
    rcases List.mem_cons.mp ht with rfl | ht
    · exact ⟨(raised_eq_some hraised).2.2.2.1, _, hraised⟩
    · obtain ⟨hnot, htracker⟩ := ih t ht
      refine ⟨fun hmem => hnot ?_, htracker⟩
      rcases eq_or_ne t.1.node e.node with hnode | hnode
      · rw [hnode, Function.update_self]
        exact Finset.mem_insert_of_mem (hnode ▸ hmem)
      · rwa [Function.update_of_ne hnode]

/-- A trigger comes from an evaluation of the run. -/
theorem mem_of_mem_triggers {evaluations : List Evaluation} : ∀ {trackers : NodeId → TakeoverTracker},
    ∀ t ∈ triggers trackers evaluations, t.1 ∈ evaluations := by
  induction evaluations with
  | nil => exact fun _ h => absurd h List.not_mem_nil
  | cons e rest ih =>
    intro trackers t ht
    rw [triggers] at ht
    split at ht
    · exact List.mem_cons_of_mem e (ih t ht)
    · rcases List.mem_cons.mp ht with rfl | ht
      · exact List.mem_cons_self
      · exact List.mem_cons_of_mem e (ih t ht)

/-- Two triggers of one pair come from different nodes. -/
theorem pairwise_triggers {evaluations : List Evaluation} : ∀ {trackers : NodeId → TakeoverTracker},
    (triggers trackers evaluations).Pairwise fun a b =>
      a.1.partition = b.1.partition → a.1.deadOwner = b.1.deadOwner → a.1.node ≠ b.1.node := by
  induction evaluations with
  | nil => exact fun {_} => List.Pairwise.nil
  | cons e rest ih =>
    intro trackers
    rw [triggers]
    split
    · exact ih
    next signal hraised =>
    refine List.pairwise_cons.mpr ⟨fun t ht hpartition hdead hnode => ?_, ih⟩
    obtain ⟨hsignalPartition, hsignalDead, -⟩ := raised_eq_some hraised
    refine (not_mem_triggered_of_mem_triggers t ht).1 ?_
    rw [← hnode, Function.update_self, ← hpartition, ← hdead, ← hsignalPartition, ← hsignalDead]
    exact Finset.mem_insert_self _ _

/-- Two triggers of one pair are of different nodes whose views are not over the same nodes. -/
theorem pairwise_triggers_views (trackers : NodeId → TakeoverTracker) (evaluations : List Evaluation) :
    (triggers trackers evaluations).Pairwise fun a b => a.1.partition = b.1.partition →
      a.1.deadOwner = b.1.deadOwner → a.1.node ≠ b.1.node ∧ ¬ a.1.membership.Same b.1.membership := by
  refine List.Pairwise.imp_of_mem ?_ pairwise_triggers
  intro a b ha hb hdiff hpartition hdead
  refine ⟨hdiff hpartition hdead, fun hview => hdiff hpartition hdead ?_⟩
  obtain ⟨-, _, hraisedA⟩ := not_mem_triggered_of_mem_triggers a ha
  obtain ⟨-, _, hraisedB⟩ := not_mem_triggered_of_mem_triggers b hb
  obtain ⟨-, -, -, -, da, hda, hwa⟩ := raised_eq_some hraisedA
  obtain ⟨-, -, -, -, db, hdb, hwb⟩ := raised_eq_some hraisedB
  rw [hpartition, hdead] at hda
  exact selfIsNewOwner_unique hview hda hdb hwa hwb

/-- A takeover is elected once, by a holder. Among the nodes whose views are over the same nodes, each in its own
    order, at most one is told to take a partition over from a dead owner; it survives, and under every such view it
    was a replica and the dead node the owner; a loss is declared only with a single copy. Over any run of evaluations
    with any views, no node takes the same pair over twice and no two nodes with the same nodes in view do; so each
    pair is taken over once where its evaluations share a view; and a node that is not active never takes over. -/
theorem takeover_elected_once :
    (∀ (viewA viewB : MembershipView) (partition : PartitionId) (dead a b : NodeId) (rf rf' : ℕ)
        (ta tb : TakeoverTracker) (ba bb : BootOutcome) (da db : TakeoverDecision), viewA.Same viewB →
      resolveTakeover partition dead a viewA rf = some da → ta.shouldTrigger da ba = true →
      resolveTakeover partition dead b viewB rf' = some db → tb.shouldTrigger db bb = true → a = b) ∧
    (∀ (membership : MembershipView) (partition : PartitionId) (dead self : NodeId) (rf : ℕ)
        (tracker : TakeoverTracker) (boot : BootOutcome) (decision : TakeoverDecision),
      resolveTakeover partition dead self membership rf = some decision →
      (tracker.shouldTrigger decision boot = true → self ≠ dead ∧ ∀ (view : MembershipView) (asker : NodeId),
        membership.Same view → ∃ plan, routeWrite partition asker view rf = some plan ∧
          plan.owner = dead ∧ self ∈ plan.replicas) ∧
      (decision.requiresDeclareLoss = true → rf ≤ 1)) ∧
    ∀ (trackers : NodeId → TakeoverTracker) (evaluations : List Evaluation),
      (triggers trackers evaluations).Pairwise (fun a b => a.1.partition = b.1.partition →
        a.1.deadOwner = b.1.deadOwner → a.1.node ≠ b.1.node ∧ ¬ a.1.membership.Same b.1.membership) ∧
      ((∀ e ∈ evaluations, ∀ e' ∈ evaluations, e.partition = e'.partition → e.deadOwner = e'.deadOwner →
          e.membership.Same e'.membership) →
        ((triggers trackers evaluations).map fun t => (t.1.partition, t.1.deadOwner)).Nodup) ∧
      ∀ t ∈ triggers trackers evaluations, t.2.partition = t.1.partition ∧ t.2.deadOwner = t.1.deadOwner ∧
        ∃ incarnation, t.1.boot = .active incarnation := by
  refine ⟨?_, ?_, ?_⟩
  · intro viewA viewB partition dead a b rf rf' ta tb ba bb da db hview ha hta hb htb
    obtain ⟨-, hwa, -⟩ := shouldTrigger_eq_true hta
    obtain ⟨-, hwb, -⟩ := shouldTrigger_eq_true htb
    exact selfIsNewOwner_unique hview ha hb hwa hwb
  · intro membership partition dead self rf tracker boot decision h
    refine ⟨fun hshould => ?_, rf_le_one_of_requiresDeclareLoss h⟩
    obtain ⟨howner, hself, hbefore, -⟩ := shouldTrigger_eq_true hshould
    obtain ⟨plan, rest, newOwner, newRest, -, hranked, hreplicas, hfilter, -, hdead, hold, hnew, hreplica⟩ :=
      resolveTakeover_eq_some h
    rw [hnew, decide_eq_true_eq] at hself
    have hmem : newOwner ∈ (plan.owner :: rest).filter (· ≠ dead) := hfilter ▸ List.mem_cons_self
    refine ⟨hself ▸ of_decide_eq_true (List.mem_filter.mp hmem).2, fun view asker hview => ?_⟩
    -- the ranking is the view's own, so the plan is this node's but for who asks
    refine ⟨⟨plan.owner, (plan.owner :: rest).take (max rf 1), decide (plan.owner = asker), max rf 1⟩, ?_, ?_, ?_⟩
    · rw [routeWrite, ← hview.hrwRanked_eq, hranked]
    · rw [← hdead, ← howner, hold]
    · rw [hreplica, hreplicas] at hbefore
      exact List.contains_iff_mem.mp hbefore
  · intro trackers evaluations
    have hpairs := pairwise_triggers_views trackers evaluations
    refine ⟨hpairs, fun hviews => ?_, ?_⟩
    · refine List.pairwise_map.mpr (hpairs.imp_of_mem fun ha hb hdiff heq => ?_)
      obtain ⟨hpartition, hdead⟩ := Prod.mk.inj heq
      exact (hdiff hpartition hdead).2
        (hviews _ (mem_of_mem_triggers _ ha) _ (mem_of_mem_triggers _ hb) hpartition hdead)
    · intro t ht
      obtain ⟨-, _, hraised⟩ := not_mem_triggered_of_mem_triggers t ht
      obtain ⟨hpartition, hdead, hboot, -⟩ := raised_eq_some hraised
      refine ⟨hpartition, hdead, ?_⟩
      cases hoot : t.1.boot with
      | active incarnation => exact ⟨incarnation, rfl⟩
      | degraded incarnation => simp [hoot, BootOutcome.permitsOwnershipActions] at hboot
      | waiting => simp [hoot, BootOutcome.permitsOwnershipActions] at hboot

end Duckspout
