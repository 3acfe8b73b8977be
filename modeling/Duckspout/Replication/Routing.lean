import Duckspout.Types
import Mathlib.Data.List.Induction
import Mathlib.Data.List.Sort
import Mathlib.Data.Prod.Lex

/-! Rendezvous placement and write routing (`duckspout-replication/src/{hrw,routing}.rs`): each
    `(partition, node)` pair has a score, and a partition's nodes are ranked by it. -/

namespace Duckspout

/-! ### Ranking -/

def fnvOffsetBasis : UInt64 := 0xcbf29ce484222325

def fnvPrime : UInt64 := 0x00000100000001b3

/-- FNV-1a 64 over `bytes`, continuing from `state`. -/
def fnv1a (state : UInt64) (bytes : List UInt8) : UInt64 :=
  bytes.foldl (fun state byte => (state ^^^ byte.toUInt64) * fnvPrime) state

/-- The score of a pair. No UTF-8 byte is `0xff`, which separates the two ids. -/
def hrwScore (partition : PartitionId) (node : NodeId) : UInt64 :=
  fnv1a (fnv1a (fnv1a fnvOffsetBasis partition.raw.toUTF8.toList) [0xff]) node.raw.toUTF8.toList

/-- Ties of the score break toward the greater node id. -/
def hrwKey (partition : PartitionId) (node : NodeId) : ℕ ×ₗ NodeId := toLex ((hrwScore partition node).toNat, node)

/-- `a` ranks at or before `b`. -/
def RanksBefore (partition : PartitionId) (a b : NodeId) : Prop := hrwKey partition b ≤ hrwKey partition a

instance (partition : PartitionId) : DecidableRel (RanksBefore partition) :=
  fun a b => inferInstanceAs (Decidable (hrwKey partition b ≤ hrwKey partition a))

/-- All nodes by descending score: the owner, then the replicas, then the walk-down order. -/
def hrwRanked (partition : PartitionId) (nodes : List NodeId) : List NodeId :=
  nodes.insertionSort (RanksBefore partition)

theorem hrwKey_injective (partition : PartitionId) : Function.Injective (hrwKey partition) :=
  fun _ _ h => congrArg (fun key => (ofLex key).2) h

instance (partition : PartitionId) : IsTrans NodeId (RanksBefore partition) :=
  ⟨fun _ _ _ hab hbc => le_trans hbc hab⟩

instance (partition : PartitionId) : Std.Total (RanksBefore partition) := ⟨fun _ _ => le_total _ _⟩

instance (partition : PartitionId) : Std.Antisymm (RanksBefore partition) :=
  ⟨fun _ _ hab hba => hrwKey_injective partition (le_antisymm hba hab)⟩

theorem perm_hrwRanked (partition : PartitionId) (nodes : List NodeId) : (hrwRanked partition nodes).Perm nodes :=
  List.perm_insertionSort _ _

@[simp] theorem mem_hrwRanked {partition : PartitionId} {nodes : List NodeId} {node : NodeId} :
    node ∈ hrwRanked partition nodes ↔ node ∈ nodes := (perm_hrwRanked partition nodes).mem_iff

theorem pairwise_hrwRanked (partition : PartitionId) (nodes : List NodeId) :
    (hrwRanked partition nodes).Pairwise (RanksBefore partition) := List.pairwise_insertionSort _ _

/-- The greater of two keys; of equal ones, the later. -/
def hrwBest (partition : PartitionId) (best : Option NodeId) (node : NodeId) : Option NodeId :=
  match best with
  | none => some node
  | some owner => if hrwKey partition owner ≤ hrwKey partition node then some node else some owner

/-- The node of the greatest key. -/
def hrwOwner (partition : PartitionId) (nodes : List NodeId) : Option NodeId :=
  nodes.foldl (hrwBest partition) none

theorem hrwOwner_concat (partition : PartitionId) (nodes : List NodeId) (node : NodeId) :
    hrwOwner partition (nodes ++ [node]) = hrwBest partition (hrwOwner partition nodes) node := by
  simp [hrwOwner]

theorem hrwOwner_eq_none {partition : PartitionId} {nodes : List NodeId} :
    hrwOwner partition nodes = none ↔ nodes = [] := by
  induction nodes using List.reverseRecOn with
  | nil => simp [hrwOwner]
  | append_singleton nodes node ih =>
    rw [hrwOwner_concat]
    cases hrwOwner partition nodes with
    | none => simp [hrwBest]
    | some best =>
      simp only [hrwBest]
      split_ifs
      · simp
      · simp

/-- The owner is one of the nodes, and no node's key is above its own. -/
theorem hrwOwner_eq_some {partition : PartitionId} {nodes : List NodeId} : ∀ {owner : NodeId},
    hrwOwner partition nodes = some owner → owner ∈ nodes ∧ ∀ node ∈ nodes, RanksBefore partition owner node := by
  induction nodes using List.reverseRecOn with
  | nil => simp [hrwOwner]
  | append_singleton nodes node ih =>
    intro owner howner
    rw [hrwOwner_concat] at howner
    cases hbest : hrwOwner partition nodes with
    | none =>
      simp only [hbest, hrwBest, Option.some.injEq] at howner
      simp [hrwOwner_eq_none.mp hbest, RanksBefore, howner]
    | some best =>
      obtain ⟨hmem, hmax⟩ := ih hbest
      simp only [hbest, hrwBest] at howner
      split_ifs at howner with hle
      · obtain rfl := Option.some.inj howner
        refine ⟨by simp, fun other hother => ?_⟩
        rcases List.mem_append.mp hother with hother | hother
        · exact le_trans (hmax other hother) hle
        · rw [List.mem_singleton.mp hother]
          exact le_refl _
      · obtain rfl := Option.some.inj howner
        refine ⟨by simp [hmem], fun other hother => ?_⟩
        rcases List.mem_append.mp hother with hother | hother
        · exact hmax other hother
        · rw [List.mem_singleton.mp hother]
          exact (not_le.mp hle).le

/-- The owner heads the ranking. -/
theorem head?_hrwRanked (partition : PartitionId) (nodes : List NodeId) :
    (hrwRanked partition nodes).head? = hrwOwner partition nodes := by
  cases hranked : hrwRanked partition nodes with
  | nil =>
    have hnil : nodes = [] := List.perm_nil.mp (hranked ▸ (perm_hrwRanked partition nodes).symm)
    exact (hrwOwner_eq_none.mpr hnil).symm
  | cons first rest =>
    have hfirst : first ∈ nodes := mem_hrwRanked.mp (hranked ▸ List.mem_cons_self)
    cases howner : hrwOwner partition nodes with
    | none =>
      rw [hrwOwner_eq_none.mp howner] at hfirst
      cases hfirst
    | some owner =>
      obtain ⟨hmem, hmax⟩ := hrwOwner_eq_some howner
      have hsorted := pairwise_hrwRanked partition nodes
      rw [hranked, List.pairwise_cons] at hsorted
      have hbefore : RanksBefore partition first owner := by
        have howner' : owner ∈ first :: rest := hranked ▸ mem_hrwRanked.mpr hmem
        rcases List.mem_cons.mp howner' with rfl | hrest
        · exact le_refl _
        · exact hsorted.1 owner hrest
      exact congrArg some (antisymm hbefore (hmax first hfirst))

/-- Scores do not depend on the membership, so leaving nodes out does not reorder the rest. -/
theorem hrwRanked_filter (partition : PartitionId) (nodes : List NodeId) (keep : NodeId → Bool) :
    hrwRanked partition (nodes.filter keep) = (hrwRanked partition nodes).filter keep := by
  have hperm : (hrwRanked partition (nodes.filter keep)).Perm ((hrwRanked partition nodes).filter keep) :=
    (perm_hrwRanked partition _).trans ((perm_hrwRanked partition nodes).filter keep).symm
  exact hperm.eq_of_pairwise' (pairwise_hrwRanked partition _) ((pairwise_hrwRanked partition nodes).filter keep)

/-- The ranking depends on the nodes only, not on their order. -/
theorem hrwRanked_perm (partition : PartitionId) {a b : List NodeId} (h : a.Perm b) :
    hrwRanked partition a = hrwRanked partition b := by
  have hperm : (hrwRanked partition a).Perm (hrwRanked partition b) :=
    ((perm_hrwRanked partition a).trans h).trans (perm_hrwRanked partition b).symm
  exact hperm.eq_of_pairwise' (pairwise_hrwRanked partition a) (pairwise_hrwRanked partition b)

/-! ### Membership -/

/-- The nodes placement ranges over, each once. -/
structure MembershipView where
  candidates : List NodeId
  nodup : candidates.Nodup
  deriving DecidableEq

/-- The first occurrence of each node that is not in `seen`. -/
def distinctFrom (seen : List NodeId) : List NodeId → List NodeId
  | [] => []
  | node :: nodes =>
    if node ∈ seen then distinctFrom seen nodes
    else node :: distinctFrom (node :: seen) nodes

theorem mem_distinctFrom {nodes : List NodeId} : ∀ {seen : List NodeId} {node : NodeId},
    node ∈ distinctFrom seen nodes ↔ node ∈ nodes ∧ node ∉ seen := by
  induction nodes with
  | nil => simp [distinctFrom]
  | cons head nodes ih =>
    intro seen node
    rw [distinctFrom]
    split
    · grind
    · grind

theorem nodup_distinctFrom {nodes : List NodeId} : ∀ {seen : List NodeId}, (distinctFrom seen nodes).Nodup := by
  induction nodes with
  | nil => exact fun {_} => List.nodup_nil
  | cons head nodes ih =>
    intro seen
    rw [distinctFrom]
    split
    · exact ih
    · refine List.nodup_cons.mpr ⟨fun hmem => ?_, ih⟩
      exact (mem_distinctFrom.mp hmem).2 List.mem_cons_self

theorem distinctFrom_of_nodup {nodes : List NodeId} : ∀ {seen : List NodeId}, nodes.Nodup →
    (∀ node ∈ nodes, node ∉ seen) → distinctFrom seen nodes = nodes := by
  induction nodes with
  | nil => exact fun _ _ => rfl
  | cons head nodes ih =>
    intro seen hnodup hnew
    obtain ⟨hhead, hnodup⟩ := List.nodup_cons.mp hnodup
    rw [distinctFrom, if_neg (hnew head List.mem_cons_self), ih hnodup]
    intro node hnode hmem
    rcases List.mem_cons.mp hmem with rfl | hmem
    · exact hhead hnode
    · exact hnew node (List.mem_cons_of_mem _ hnode) hmem

/-- A view over `candidates`, each counted once. -/
def MembershipView.new (candidates : List NodeId) : MembershipView := ⟨distinctFrom [] candidates, nodup_distinctFrom⟩

/-- Nothing is removed from distinct nodes. -/
theorem MembershipView.candidates_new_filter (membership : MembershipView) (keep : NodeId → Bool) :
    (MembershipView.new (membership.candidates.filter keep)).candidates = membership.candidates.filter keep :=
  distinctFrom_of_nodup (membership.nodup.filter keep) fun _ _ => List.not_mem_nil

/-- The same nodes, each view in its own order: a node lists itself first. -/
def MembershipView.Same (a b : MembershipView) : Prop := ∀ node, node ∈ a.candidates ↔ node ∈ b.candidates

/-- The same nodes rank alike. -/
theorem MembershipView.Same.hrwRanked_eq {a b : MembershipView} (h : a.Same b) (partition : PartitionId) :
    hrwRanked partition a.candidates = hrwRanked partition b.candidates :=
  hrwRanked_perm partition ((List.perm_ext_iff_of_nodup a.nodup b.nodup).mpr h)

/-- Where one write routes. -/
structure RoutingPlan where
  owner : NodeId
  replicas : List NodeId
  isLocalOwner : Bool
  rf : ℕ
  deriving DecidableEq, Repr

/-- The owner and the replicas are one ranked list's head and top-`rf`; a partition has at least an owner. -/
def routeWrite (partition : PartitionId) (selfNode : NodeId) (membership : MembershipView) (rf : ℕ) :
    Option RoutingPlan :=
  match hrwRanked partition membership.candidates with
  | [] => none
  | owner :: rest => some
      { owner := owner
        replicas := (owner :: rest).take (max rf 1)
        isLocalOwner := decide (owner = selfNode)
        rf := max rf 1 }

theorem routeWrite_eq_some {partition : PartitionId} {selfNode : NodeId} {membership : MembershipView} {rf : ℕ}
    {plan : RoutingPlan} (h : routeWrite partition selfNode membership rf = some plan) :
    ∃ rest, hrwRanked partition membership.candidates = plan.owner :: rest ∧
      plan.replicas = (plan.owner :: rest).take (max rf 1) ∧ plan.isLocalOwner = decide (plan.owner = selfNode) := by
  simp only [routeWrite] at h
  split at h
  · cases h
  · next owner rest hranked =>
    obtain rfl := Option.some.inj h
    exact ⟨rest, hranked, rfl, rfl⟩

/-- The plan of a write, by its owner and the ranking. -/
theorem routeWrite_eq (partition : PartitionId) (selfNode : NodeId) (membership : MembershipView) (rf : ℕ) :
    routeWrite partition selfNode membership rf = (hrwOwner partition membership.candidates).map fun owner =>
      { owner := owner
        replicas := (hrwRanked partition membership.candidates).take (max rf 1)
        isLocalOwner := decide (owner = selfNode)
        rf := max rf 1 } := by
  simp only [routeWrite, ← head?_hrwRanked]
  cases hrwRanked partition membership.candidates with
  | nil => rfl
  | cons owner rest => rfl

theorem nodup_hrwRanked (partition : PartitionId) (membership : MembershipView) :
    (hrwRanked partition membership.candidates).Nodup :=
  (perm_hrwRanked partition _).nodup_iff.mpr membership.nodup

namespace RoutingPlan

/-- The peers a write is forwarded to: `rf - 1` of the replicas, the accepting node left out. -/
def forwardTargets (plan : RoutingPlan) (selfNode : NodeId) : List NodeId :=
  (plan.replicas.filter (· ≠ selfNode)).take (plan.rf - 1)

/-- Fewer replicas than the replication factor asks for. -/
def isBelowFloor (plan : RoutingPlan) : Bool := decide (plan.replicas.length < plan.rf)

theorem not_mem_forwardTargets (plan : RoutingPlan) (selfNode : NodeId) : selfNode ∉ plan.forwardTargets selfNode := by
  intro hself
  have hkept := List.mem_filter.mp (List.mem_of_mem_take hself)
  simp at hkept

/-- With distinct replicas, a node and its targets are distinct. -/
theorem nodup_copies {plan : RoutingPlan} (h : plan.replicas.Nodup) (selfNode : NodeId) :
    (selfNode :: plan.forwardTargets selfNode).Nodup := by
  refine List.nodup_cons.mpr ⟨plan.not_mem_forwardTargets selfNode, ?_⟩
  exact (h.filter _).sublist (List.take_sublist _ _)

/-- At least `rf - 1` replicas are other nodes, if there are `rf` distinct ones. -/
theorem length_forwardTargets {plan : RoutingPlan} (h : plan.replicas.Nodup) (hrf : plan.rf ≤ plan.replicas.length)
    (selfNode : NodeId) : (plan.forwardTargets selfNode).length = plan.rf - 1 := by
  have hothers : plan.replicas.length - 1 ≤ (plan.replicas.filter (· ≠ selfNode)).length := by
    have herase : plan.replicas.filter (· ≠ selfNode) = plan.replicas.erase selfNode := by
      rw [h.erase_eq_filter]
      exact List.filter_congr fun node _ => by rw [bne, beq_eq_decide, decide_not]
    rw [herase, List.length_erase]
    split_ifs
    · exact Nat.le_refl _
    · exact Nat.sub_le _ _
  rw [forwardTargets, List.length_take]
  omega

end RoutingPlan

/-- The copies of a write accepted at a member, the node itself and its targets, are distinct and exactly `rf` where
    the view has that many members; they include the ring owner if and only if there is more than one copy or the
    owner itself accepts. -/
theorem copies_have_owner_iff (membership : MembershipView) (partition : PartitionId) (selfNode : NodeId) (rf : ℕ)
    (hrf : 1 ≤ rf) (hself : selfNode ∈ membership.candidates) :
    ∃ plan owner, routeWrite partition selfNode membership rf = some plan ∧
      hrwOwner partition membership.candidates = some owner ∧
      ((owner ∈ selfNode :: plan.forwardTargets selfNode ∧ (selfNode :: plan.forwardTargets selfNode).Nodup ∧
          selfNode ∉ plan.forwardTargets selfNode ∧
          (plan.isBelowFloor = false → (selfNode :: plan.forwardTargets selfNode).length =
            min rf membership.candidates.length)) ↔
        2 ≤ rf ∨ hrwOwner partition membership.candidates = some selfNode) := by
  have hmax : max rf 1 = rf := max_eq_left hrf
  cases howner : hrwOwner partition membership.candidates with
  | none =>
    rw [hrwOwner_eq_none.mp howner] at hself
    cases hself
  | some owner =>
    refine ⟨_, owner, by rw [routeWrite_eq, howner, Option.map_some], rfl, ?_⟩
    rw [hmax]
    have hnodup : ((hrwRanked partition membership.candidates).take rf).Nodup :=
      (nodup_hrwRanked partition membership).sublist (List.take_sublist _ _)
    constructor
    · rintro ⟨hmem, -⟩
      rcases List.mem_cons.mp hmem with rfl | htarget
      · exact Or.inr rfl
      · -- a target there is, so there is more than one copy
        have hpos := List.length_pos_of_mem htarget
        simp only [RoutingPlan.forwardTargets, List.length_take] at hpos
        exact Or.inl (by omega)
    · intro hcond
      refine ⟨?_, RoutingPlan.nodup_copies hnodup selfNode, RoutingPlan.not_mem_forwardTargets _ selfNode, ?_⟩
      · rcases eq_or_ne owner selfNode with rfl | hne
        · exact List.mem_cons_self
        · have htwo : 2 ≤ rf := hcond.resolve_right fun heq => hne (Option.some.inj heq)
          obtain ⟨rest, hranked⟩ : ∃ rest, hrwRanked partition membership.candidates = owner :: rest := by
            rw [← head?_hrwRanked, List.head?_eq_some_iff] at howner
            exact howner
          obtain ⟨n, rfl⟩ : ∃ n, rf = n + 2 := ⟨rf - 2, by omega⟩
          simp [RoutingPlan.forwardTargets, hranked, hne]
      · intro hfloor
        simp only [RoutingPlan.isBelowFloor, decide_eq_false_iff_not, not_lt] at hfloor
        rw [List.length_cons, RoutingPlan.length_forwardTargets hnodup hfloor]
        rw [List.length_take, (perm_hrwRanked partition _).length_eq] at hfloor
        dsimp only
        omega

theorem copies_have_owner_pair :
    let membership := MembershipView.new [⟨"a"⟩, ⟨"b"⟩]
    ∃ plan, routeWrite ⟨"p0"⟩ ⟨"b"⟩ membership 2 = some plan ∧ ⟨"a"⟩ ∈ ⟨"b"⟩ :: plan.forwardTargets ⟨"b"⟩ := by
  intro membership
  obtain ⟨plan, owner, hplan, howner, hiff⟩ :=
    copies_have_owner_iff membership ⟨"p0"⟩ ⟨"b"⟩ 2 (by decide) (by decide)
  have ha : hrwOwner ⟨"p0"⟩ membership.candidates = some ⟨"a"⟩ := by decide +kernel
  obtain rfl := Option.some.inj (ha.symm.trans howner)
  exact ⟨plan, hplan, (hiff.mpr (Or.inl (Nat.le_refl 2))).1⟩

/-- With a single copy the node that accepts keeps it, and the owner has none. -/
theorem sole_copy_not_at_owner :
    let membership := MembershipView.new [⟨"a"⟩, ⟨"b"⟩]
    let accepted : NodeId → Option (List NodeId) := fun node =>
      (routeWrite ⟨"p0"⟩ node membership 1).map fun plan => node :: plan.forwardTargets node
    hrwOwner ⟨"p0"⟩ membership.candidates = some ⟨"a"⟩ ∧ accepted ⟨"b"⟩ = some [⟨"b"⟩] := by
  decide +kernel

end Duckspout
