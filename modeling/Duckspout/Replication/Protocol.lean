import Duckspout.Replication.Receive
import Mathlib.Data.Finset.Card

/-! The replication protocol as a system: origins that stage and forward, peers that apply and
    receipt, and a network that may lose, duplicate and reorder what it carries.

    A message once handed to the network stays deliverable: it may never be delivered, be delivered
    many times, and in any order. A node may reboot, which raises its incarnation and loses its fence
    table and receipt watermarks; what it has durably applied and staged stays. -/

namespace Duckspout

/-- The rows with their sequence numbers, from 1. -/
def numbered (rows : List String) : List (ℕ × String) := (List.range' 1 rows.length).zip rows

/-- What one node has durably applied, per origin and partition, in the order of its applies. -/
abbrev AppliedLog := NodeId → PartitionId → List (ℕ × String)

/-- The walk of `prefixLen`, from `n` on. -/
def prefixFrom (seqs : List ℕ) : ℕ → ℕ → ℕ
  | 0, n => n
  | fuel + 1, n => if n + 1 ∈ seqs then prefixFrom seqs fuel (n + 1) else n

/-- The length of the gap-free run from 1. -/
def prefixLen (seqs : List ℕ) : ℕ := prefixFrom seqs seqs.length 0

/-- The replica log as its port documents it: `appliedThru` is the prefix length of the applied
    sequence numbers, and a failed apply stages nothing. -/
def documentedLog (applyFails : Bool) : ReplicaLog AppliedLog where
  appliedThru log origin partition := Fin.ofNat _ (prefixLen ((log origin partition).map (·.1)))
  hasApplied log origin partition seq := decide ((seq : ℕ) ∈ (log origin partition).map (·.1))
  apply log r :=
    if applyFails then (false, log)
    else
      let entries := (List.range' r.range.firstSeq (r.range.lastSeq + 1 - r.range.firstSeq)).zip r.records
      (true, fun o p => if o = r.range.origin ∧ p = r.partition then log o p ++ entries else log o p)

/-- One locally staged, contiguous batch. -/
structure ForwardBatch where
  partition : PartitionId
  range : OriginSeqRange
  window : WindowId
  dataset : DatasetId
  records : List String
  deriving DecidableEq, Repr

/-- Sends the batch to every peer other than the node itself. -/
def forwardToPeers (selfNode : NodeId) (selfIncarnation : Incarnation) (peers : List NodeId)
    (batch : ForwardBatch) : List (NodeId × Envelope) :=
  (peers.filter (· ≠ selfNode)).map fun peer => (peer, .forward
    ⟨selfIncarnation, batch.partition, batch.range, batch.window, batch.dataset, batch.records⟩)

/-- One node: its own staged rows per partition, and its receiving side. -/
structure ReplicaNode where
  incarnation : Incarnation := 1
  staged : PartitionId → List String := fun _ => []
  receiver : Receiver AppliedLog := { log := fun _ _ => [] }

/-- The nodes, and every message ever handed to the network with its addressee. -/
structure Cluster where
  nodes : NodeId → ReplicaNode := fun _ => {}
  sent : List (NodeId × Envelope) := []

/-- What can happen next. -/
inductive ClusterEvent where
  /-- The node stages rows of its own. -/
  | stage (node : NodeId) (partition : PartitionId) (rows : List String)
  /-- The node forwards any contiguous range of its own rows, again or for the first time. -/
  | forward (node : NodeId) (partition : PartitionId) (firstSeq lastSeq : U64) (window : WindowId)
      (dataset : DatasetId) (peers : List NodeId)
  /-- The network delivers one of the messages sent to the node; an apply it leads to may fail. -/
  | deliver (node : NodeId) (msg : Envelope) (applyFails : Bool)
  | reboot (node : NodeId)

namespace Cluster

/-- The cluster with one node replaced. -/
def setNode (s : Cluster) (node : NodeId) (st : ReplicaNode) : Cluster :=
  { s with nodes := fun n => if n = node then st else s.nodes n }

/-- The receipt a reply carries back to the origin. -/
def receiptOf : Reply → List (NodeId × Envelope)
  | .peerApply (.applied r) | .peerApply (.duplicateAcked r) => [(r.origin, .receipt r)]
  | _ => []

/-- One event; one that is not enabled does nothing. -/
def step (s : Cluster) : ClusterEvent → Cluster
  | .stage node partition rows =>
    let st := s.nodes node
    s.setNode node { st with
      staged := fun p => if p = partition then st.staged p ++ rows else st.staged p }
  | .forward node partition firstSeq lastSeq window dataset peers =>
    let st := s.nodes node
    if 1 ≤ (firstSeq : ℕ) ∧ firstSeq ≤ lastSeq ∧ (lastSeq : ℕ) ≤ (st.staged partition).length then
      let batch : ForwardBatch := ⟨partition, ⟨node, firstSeq, lastSeq⟩, window, dataset,
        ((st.staged partition).take lastSeq).drop (firstSeq - 1)⟩
      { s with sent := s.sent ++ forwardToPeers node st.incarnation peers batch }
    else s
  | .deliver node msg applyFails =>
    if (node, msg) ∈ s.sent then
      let st := s.nodes node
      let out := receive (documentedLog applyFails) node st.incarnation st.receiver msg
      { s.setNode node { st with receiver := out.2 } with sent := s.sent ++ receiptOf out.1 }
    else s
  | .reboot node =>
    let st := s.nodes node
    s.setNode node { st with
      incarnation := st.incarnation + 1, receiver := { log := st.receiver.log } }

/-- The cluster after a sequence of events. -/
def run (s : Cluster) (events : List ClusterEvent) : Cluster := events.foldl step s

/-- What `holder` has durably applied of the origin's partition. -/
def log (s : Cluster) (holder origin : NodeId) (partition : PartitionId) : List (ℕ × String) :=
  (s.nodes holder).receiver.log origin partition

/-- The origin's own sequence in the partition. -/
def own (s : Cluster) (origin : NodeId) (partition : PartitionId) : List String :=
  (s.nodes origin).staged partition

end Cluster

/-! ### Numbered rows and their prefix length -/

theorem map_fst_numbered (rows : List String) :
    (numbered rows).map (·.1) = List.range' 1 rows.length :=
  List.map_fst_zip (by simp)

theorem map_snd_numbered (rows : List String) : (numbered rows).map (·.2) = rows :=
  List.map_snd_zip (by simp)

@[simp] theorem length_numbered (rows : List String) : (numbered rows).length = rows.length := by
  simp [numbered]

theorem prefixFrom_range (n : ℕ) : ∀ fuel k, k ≤ n → n ≤ k + fuel →
    prefixFrom (List.range' 1 n) fuel k = n := by
  intro fuel
  induction fuel with
  | zero =>
    intro k hk hf
    simp only [prefixFrom]
    omega
  | succ fuel ih =>
    intro k hk hf
    simp only [prefixFrom]
    by_cases h : k + 1 ∈ List.range' 1 n
    · rw [if_pos h]
      rw [List.mem_range'_1] at h
      exact ih (k + 1) (by omega) (by omega)
    · rw [if_neg h]
      rw [List.mem_range'_1] at h
      omega

theorem prefixLen_range (n : ℕ) : prefixLen (List.range' 1 n) = n := by
  simp only [prefixLen]
  rw [List.length_range']
  exact prefixFrom_range n n 0 n.zero_le (by omega)

/-- A forwarded slice continues the rows before it. -/
theorem numbered_append_slice (rows : List String) {first last : ℕ} (h1 : 1 ≤ first)
    (hfl : first ≤ last) (hl : last ≤ rows.length) :
    numbered (rows.take (first - 1)) ++
        (List.range' first (last + 1 - first)).zip ((rows.take last).drop (first - 1)) =
      numbered (rows.take last) := by
  have hlen : (rows.take last).length = last := List.length_take_of_le hl
  have hpre : rows.take (first - 1) = (rows.take last).take (first - 1) := by
    rw [List.take_take, min_eq_left (by omega)]
  have hprelen : ((rows.take last).take (first - 1)).length = first - 1 :=
    List.length_take_of_le (by omega)
  have hrange : List.range' 1 last =
      List.range' 1 (first - 1) ++ List.range' first (last + 1 - first) := by
    have happ : List.range' 1 (first - 1) ++ List.range' (1 + (first - 1)) (last + 1 - first) =
        List.range' 1 (first - 1 + (last + 1 - first)) := List.range'_append_1
    rw [show 1 + (first - 1) = first by omega, show first - 1 + (last + 1 - first) = last by omega] at happ
    exact happ.symm
  rw [hpre, numbered, numbered, hprelen, hlen, hrange,
    ← List.zip_append (by rw [List.length_range', hprelen]), List.take_append_drop]

/-! ### The invariant -/

namespace Cluster

/-- A forward ships rows of its origin's own sequence, numbered as the origin numbers them. -/
structure Genuine (s : Cluster) (m : ForwardMessage) : Prop where
  first : 1 ≤ (m.range.firstSeq : ℕ)
  order : (m.range.firstSeq : ℕ) ≤ m.range.lastSeq
  last : (m.range.lastSeq : ℕ) ≤ (s.own m.range.origin m.partition).length
  rows : numbered ((s.own m.range.origin m.partition).take (m.range.firstSeq - 1)) ++
      (List.range' m.range.firstSeq (m.range.lastSeq + 1 - m.range.firstSeq)).zip m.records =
    numbered ((s.own m.range.origin m.partition).take m.range.lastSeq)

/-- A claim that `holder` has applied the origin's sequence through `thru`. -/
structure Honest (s : Cluster) (holder origin : NodeId) (partition : PartitionId) (thru : U64) :
    Prop where
  other : holder ≠ origin
  held : (thru : ℕ) ≤ (s.log holder origin partition).length

/-- The invariant of every reachable cluster. -/
structure Valid (s : Cluster) : Prop where
  logs : ∀ holder origin partition, s.log holder origin partition =
      numbered ((s.own origin partition).take (s.log holder origin partition).length) ∧
    (s.log holder origin partition).length ≤ u64Max
  forwards : ∀ dst m, (dst, Envelope.forward m) ∈ s.sent → Genuine s m
  receipts : ∀ dst r, (dst, Envelope.receipt r) ∈ s.sent → Honest s r.holder r.origin r.partition r.appliedThru
  trackers : ∀ node holder origin partition thru,
    (s.nodes node).receiver.tracker.watermarks[receiptKey holder origin partition]? = some thru →
    Honest s holder origin partition thru

/-- Staged rows and applied logs only grow at their ends. -/
structure Grows (s s' : Cluster) : Prop where
  own : ∀ origin partition, s.own origin partition <+: s'.own origin partition
  log : ∀ holder origin partition, s.log holder origin partition <+: s'.log holder origin partition

theorem take_grown {l l' : List String} (h : l <+: l') {k : ℕ} (hk : k ≤ l.length) :
    l'.take k = l.take k := by
  obtain ⟨t, rfl⟩ := h
  exact List.take_append_of_le_length hk

theorem Genuine.mono {s s' : Cluster} (hg : Grows s s') {m : ForwardMessage} (h : Genuine s m) :
    Genuine s' m := by
  have hpre := hg.own m.range.origin m.partition
  have hfirst := h.first
  have horder := h.order
  have hlast := h.last
  refine ⟨h.first, h.order, h.last.trans hpre.length_le, ?_⟩
  rw [take_grown hpre h.last, take_grown hpre (by omega)]
  exact h.rows

theorem Honest.mono {s s' : Cluster} (hg : Grows s s') {holder origin : NodeId}
    {partition : PartitionId} {thru : U64} (h : Honest s holder origin partition thru) :
    Honest s' holder origin partition thru :=
  ⟨h.other, h.held.trans (hg.log holder origin partition).length_le⟩

theorem valid_init : Valid {} :=
  ⟨fun _ _ _ => ⟨rfl, Nat.zero_le _⟩, by simp, by simp, fun _ _ _ _ _ h => by simp at h⟩

/-- A step that keeps the logs, grows the staged rows and sends nothing keeps the invariant, as long
    as every watermark on file is honest. -/
theorem valid_quiet {s s' : Cluster} (h : Valid s) (hg : Grows s s') (hsent : s'.sent = s.sent)
    (hlog : ∀ holder origin partition, s'.log holder origin partition = s.log holder origin partition)
    (htr : ∀ node holder origin partition thru,
      (s'.nodes node).receiver.tracker.watermarks[receiptKey holder origin partition]? = some thru →
      Honest s holder origin partition thru) :
    Valid s' := by
  refine ⟨fun holder origin partition => ?_, fun dst m hm => ?_, fun dst r hr => ?_, ?_⟩
  · have hold := h.logs holder origin partition
    have hlen : (s.log holder origin partition).length ≤ (s.own origin partition).length := by
      have hl := congrArg List.length hold.1
      rw [length_numbered, List.length_take] at hl
      omega
    rw [hlog, take_grown (hg.own origin partition) hlen]
    exact hold
  · rw [hsent] at hm
    exact (h.forwards dst m hm).mono hg
  · rw [hsent] at hr
    exact (h.receipts dst r hr).mono hg
  · exact fun node holder origin partition thru ht =>
      (htr node holder origin partition thru ht).mono hg

/-- Handing well-founded messages to the network keeps the invariant. -/
theorem valid_send {s : Cluster} (h : Valid s) {msgs : List (NodeId × Envelope)}
    (hf : ∀ dst m, (dst, Envelope.forward m) ∈ msgs → Genuine s m)
    (hr : ∀ dst r, (dst, Envelope.receipt r) ∈ msgs →
      Honest s r.holder r.origin r.partition r.appliedThru) :
    Valid { s with sent := s.sent ++ msgs } := by
  have hg : Grows s { s with sent := s.sent ++ msgs } :=
    ⟨fun _ _ => List.prefix_rfl, fun _ _ _ => List.prefix_rfl⟩
  refine ⟨h.logs, fun dst m hm => ?_, fun dst r hm => ?_, fun node holder origin p thru ht =>
    (h.trackers node holder origin p thru ht).mono hg⟩
  · rcases List.mem_append.mp hm with hm | hm
    · exact (h.forwards dst m hm).mono hg
    · exact (hf dst m hm).mono hg
  · rcases List.mem_append.mp hm with hm | hm
    · exact (h.receipts dst r hm).mono hg
    · exact (hr dst r hm).mono hg

/-! ### Staging, forwarding, rebooting -/

@[simp] theorem setNode_self (s : Cluster) (node : NodeId) (st : ReplicaNode) :
    (s.setNode node st).nodes node = st := if_pos rfl

theorem setNode_ne (s : Cluster) {node n : NodeId} (st : ReplicaNode) (h : n ≠ node) :
    (s.setNode node st).nodes n = s.nodes n := if_neg h

theorem valid_stage {s : Cluster} (h : Valid s) (node : NodeId) (partition : PartitionId)
    (rows : List String) : Valid (s.step (.stage node partition rows)) := by
  have hrecv : ∀ n, ((s.step (.stage node partition rows)).nodes n).receiver = (s.nodes n).receiver := by
    intro n
    rcases eq_or_ne n node with rfl | hn
    · simp [step]
    · simp [step, setNode_ne s _ hn]
  have hlog : ∀ holder origin p, (s.step (.stage node partition rows)).log holder origin p =
      s.log holder origin p := fun holder origin p => by rw [log, hrecv, log]
  refine valid_quiet h ⟨fun origin p => ?_, fun holder origin p => by rw [hlog]⟩ rfl hlog
    fun n holder origin p thru ht => h.trackers n holder origin p thru (by rwa [hrecv] at ht)
  rcases eq_or_ne origin node with rfl | hn
  · by_cases hp : p = partition
    · simp [own, step, hp]
    · simp [own, step, hp]
  · simp [own, step, setNode_ne s _ hn]

theorem valid_reboot {s : Cluster} (h : Valid s) (node : NodeId) : Valid (s.step (.reboot node)) := by
  have hlog : ∀ holder origin p, (s.step (.reboot node)).log holder origin p = s.log holder origin p := by
    intro holder origin p
    rcases eq_or_ne holder node with rfl | hn
    · simp [log, step]
    · simp [log, step, setNode_ne s _ hn]
  refine valid_quiet h ⟨fun origin p => ?_, fun holder origin p => by rw [hlog]⟩ rfl hlog
    fun n holder origin p thru ht => ?_
  · rcases eq_or_ne origin node with rfl | hn
    · simp [own, step]
    · simp [own, step, setNode_ne s _ hn]
  · rcases eq_or_ne n node with rfl | hn
    · simp [step] at ht
    · rw [step, setNode_ne s _ hn] at ht
      exact h.trackers n holder origin p thru ht

theorem valid_forward {s : Cluster} (h : Valid s) (node : NodeId) (partition : PartitionId)
    (first last : U64) (window : WindowId) (dataset : DatasetId) (peers : List NodeId) :
    Valid (s.step (.forward node partition first last window dataset peers)) := by
  simp only [step]
  by_cases hc : 1 ≤ (first : ℕ) ∧ first ≤ last ∧
      (last : ℕ) ≤ ((s.nodes node).staged partition).length
  · rw [if_pos hc]
    obtain ⟨h1, hfl, hl⟩ := hc
    rw [Fin.le_def] at hfl
    refine valid_send h (fun dst m hm => ?_) (fun dst r hr => ?_)
    · simp only [forwardToPeers, List.mem_map, Prod.mk.injEq, Envelope.forward.injEq] at hm
      obtain ⟨peer, -, -, rfl⟩ := hm
      exact ⟨h1, hfl, hl, numbered_append_slice _ h1 hfl hl⟩
    · simp [forwardToPeers] at hr
  · rw [if_neg hc]
    exact h

/-! ### Delivering -/

theorem receiptKey_inj {h h' o o' : NodeId} {p p' : PartitionId} :
    receiptKey h o p = receiptKey h' o' p' ↔ h = h' ∧ o = o' ∧ p = p' := by
  simp [receiptKey]

theorem appliedThru_numbered (applyFails : Bool) {log : AppliedLog} {origin : NodeId}
    {partition : PartitionId} {rows : List String} (h : log origin partition = numbered rows)
    (hn : rows.length ≤ u64Max) :
    ((documentedLog applyFails).appliedThru log origin partition : ℕ) = rows.length := by
  have hval : ((documentedLog applyFails).appliedThru log origin partition : ℕ) =
      prefixLen ((log origin partition).map (·.1)) % 2 ^ 64 := rfl
  rw [hval, h, map_fst_numbered, prefixLen_range]
  simp only [u64Max] at hn
  omega

/-- What an admitted forward does to a log in order: nothing, an acknowledgment of what is already
    there, or an append of the rows that come next. -/
theorem applyAdmitted_cases (applyFails : Bool) (selfNode : NodeId) (inc : Incarnation)
    {log : AppliedLog} {m : ForwardMessage} {rows : List String}
    (hlog : log m.range.origin m.partition = numbered rows) (hn : rows.length ≤ u64Max) :
    let out := applyAdmitted (documentedLog applyFails) selfNode inc log m
    (receiptOf (.peerApply out.1) = [] ∧ out.2 = log) ∨
    (∃ thru : U64, (thru : ℕ) = rows.length ∧ out.2 = log ∧ receiptOf (.peerApply out.1) =
      [(m.range.origin, .receipt ⟨inc, selfNode, m.range.origin, m.partition, thru⟩)]) ∨
    ((m.range.firstSeq : ℕ) = rows.length + 1 ∧ receiptOf (.peerApply out.1) =
      [(m.range.origin, .receipt ⟨inc, selfNode, m.range.origin, m.partition, m.range.lastSeq⟩)] ∧
      out.2 = fun o p => if o = m.range.origin ∧ p = m.partition then log o p ++
        (List.range' m.range.firstSeq (m.range.lastSeq + 1 - m.range.firstSeq)).zip m.records
        else log o p) := by
  have hthru := appliedThru_numbered applyFails hlog hn
  simp only [applyAdmitted]
  split
  · split
    · exact Or.inr (Or.inl ⟨_, hthru, rfl, rfl⟩)
    · exact Or.inl ⟨rfl, rfl⟩
  · split
    · exact Or.inl ⟨rfl, rfl⟩
    · rename_i hnext
      rw [not_not, hthru] at hnext
      cases applyFails with
      | true => exact Or.inl ⟨rfl, rfl⟩
      | false => exact Or.inr (Or.inr ⟨hnext, rfl, rfl⟩)

/-- Replacing a receiver touches no staged row. -/
theorem own_setReceiver (s : Cluster) (node : NodeId) (r : Receiver AppliedLog) (origin : NodeId)
    (partition : PartitionId) :
    (s.setNode node { s.nodes node with receiver := r }).own origin partition =
      s.own origin partition := by
  rcases eq_or_ne origin node with rfl | hn
  · simp [own]
  · simp [own, setNode_ne s _ hn]

/-- Replacing a receiver by one with the same log and honest watermarks. -/
theorem valid_setReceiver {s : Cluster} (h : Valid s) {node : NodeId} {r : Receiver AppliedLog}
    (hlog : r.log = (s.nodes node).receiver.log)
    (htr : ∀ holder origin partition thru,
      r.tracker.watermarks[receiptKey holder origin partition]? = some thru →
      Honest s holder origin partition thru) :
    Valid (s.setNode node { s.nodes node with receiver := r }) := by
  have hsame : ∀ holder origin partition,
      (s.setNode node { s.nodes node with receiver := r }).log holder origin partition =
        s.log holder origin partition := by
    intro holder origin partition
    rcases eq_or_ne holder node with rfl | hn
    · simp [log, hlog]
    · simp [log, setNode_ne s _ hn]
  refine valid_quiet h ⟨fun origin p => by rw [own_setReceiver], fun holder origin p => by rw [hsame]⟩
    rfl hsame fun n holder origin p thru ht => ?_
  rcases eq_or_ne n node with rfl | hn
  · rw [setNode_self] at ht
    exact htr holder origin p thru ht
  · rw [setNode_ne s _ hn] at ht
    exact h.trackers n holder origin p thru ht

/-- Appending the rows that come next. -/
theorem valid_append {s : Cluster} (h : Valid s) {m : ForwardMessage} (hm : Genuine s m) (node : NodeId)
    (fence : FenceTable)
    (hnext : (m.range.firstSeq : ℕ) = (s.log node m.range.origin m.partition).length + 1) :
    let r : Receiver AppliedLog := { (s.nodes node).receiver with
      fence := fence
      log := fun o p => if o = m.range.origin ∧ p = m.partition then (s.nodes node).receiver.log o p ++
        (List.range' m.range.firstSeq (m.range.lastSeq + 1 - m.range.firstSeq)).zip m.records
        else (s.nodes node).receiver.log o p }
    Valid (s.setNode node { s.nodes node with receiver := r }) ∧
      ((s.setNode node { s.nodes node with receiver := r }).log node m.range.origin m.partition).length =
        m.range.lastSeq := by
  intro r
  set s' := s.setNode node { s.nodes node with receiver := r } with hs'
  have hlast := hm.last
  have hown : ∀ origin p, s'.own origin p = s.own origin p := own_setReceiver s node r
  have hat : s'.log node m.range.origin m.partition =
      numbered ((s.own m.range.origin m.partition).take m.range.lastSeq) := by
    have hold := (h.logs node m.range.origin m.partition).1
    rw [← hm.rows, hnext, Nat.add_sub_cancel, ← hold, ← hnext]
    simp [log, hs', r]
  have hlen : (s'.log node m.range.origin m.partition).length = m.range.lastSeq := by
    rw [hat, length_numbered, List.length_take_of_le hlast]
  have helse : ∀ holder origin p, ¬ (holder = node ∧ origin = m.range.origin ∧ p = m.partition) →
      s'.log holder origin p = s.log holder origin p := by
    intro holder origin p hne
    rcases eq_or_ne holder node with rfl | hn
    · have hop : ¬ (origin = m.range.origin ∧ p = m.partition) := fun hop => hne ⟨rfl, hop⟩
      simp [log, hs', r, hop]
    · simp [log, hs', setNode_ne s _ hn]
  have hg : Grows s s' := by
    refine ⟨fun origin p => by rw [hown], fun holder origin p => ?_⟩
    by_cases heq : holder = node ∧ origin = m.range.origin ∧ p = m.partition
    · obtain ⟨rfl, rfl, rfl⟩ := heq
      simp [log, hs', r]
    · rw [helse holder origin p heq]
  refine ⟨⟨fun holder origin p => ?_, fun dst q hq => ?_, fun dst q hq => ?_, ?_⟩, hlen⟩
  · by_cases heq : holder = node ∧ origin = m.range.origin ∧ p = m.partition
    · obtain ⟨rfl, rfl, rfl⟩ := heq
      rw [hlen, hown]
      exact ⟨hat, Nat.le_sub_one_of_lt m.range.lastSeq.isLt⟩
    · rw [helse holder origin p heq, hown]
      exact h.logs holder origin p
  · exact (h.forwards dst q hq).mono hg
  · exact (h.receipts dst q hq).mono hg
  · intro n holder origin p thru ht
    have hold : (s.nodes n).receiver.tracker.watermarks[receiptKey holder origin p]? = some thru := by
      rcases eq_or_ne n node with rfl | hn
      · rwa [hs', setNode_self] at ht
      · rwa [hs', setNode_ne s _ hn] at ht
    exact (h.trackers n holder origin p thru hold).mono hg

/-- A delivered forward. -/
theorem valid_deliver_forward {s : Cluster} (h : Valid s) {node : NodeId} {m : ForwardMessage}
    (hsent : (node, Envelope.forward m) ∈ s.sent) (applyFails : Bool) :
    Valid (s.step (.deliver node (.forward m) applyFails)) := by
  have hm := h.forwards node m hsent
  obtain ⟨hlog, hmax⟩ := h.logs node m.range.origin m.partition
  have hport : (s.nodes node).receiver.log m.range.origin m.partition = numbered _ := hlog
  have hrows : ((s.own m.range.origin m.partition).take
      (s.log node m.range.origin m.partition).length).length =
      (s.log node m.range.origin m.partition).length := by
    have hl := congrArg List.length hlog
    rwa [length_numbered, eq_comm] at hl
  simp only [step, if_pos hsent, receive, applyForward]
  -- with the log unchanged nothing but the fence moved
  have hquiet : ∀ fence : FenceTable, Valid (s.setNode node { s.nodes node with
      receiver := { (s.nodes node).receiver with fence := fence } }) := fun fence =>
    valid_setReceiver h rfl (h.trackers node)
  by_cases hr : m.range.firstSeq > m.range.lastSeq
  · simp only [if_pos hr]
    exact valid_send (hquiet _) (by simp [receiptOf]) (by simp [receiptOf])
  · rcases eq_or_ne m.range.origin node with ho | ho
    · simp only [if_neg hr, if_pos ho]
      exact valid_send (hquiet _) (by simp [receiptOf]) (by simp [receiptOf])
    · simp only [if_neg hr, if_neg ho]
      rcases admit_cases (s.nodes node).receiver.fence ⟨m.range.origin, m.incarnation⟩ with
        ⟨-, z, heq⟩ | ⟨-, fence, heq, -⟩
      · simp only [heq]
        exact valid_send (hquiet _) (by simp [receiptOf]) (by simp [receiptOf])
      · simp only [heq]
        rcases applyAdmitted_cases applyFails node (s.nodes node).incarnation hport (hrows.trans_le hmax)
          with ⟨hrec, hsame⟩ | ⟨thru, hthru, hsame, hrec⟩ | ⟨hnext, hrec, happ⟩
        · rw [hrec, hsame]
          exact valid_send (hquiet fence) (by simp) (by simp)
        · rw [hrec, hsame]
          refine valid_send (hquiet fence) (by simp) fun dst r hrm => ?_
          simp only [List.mem_singleton, Prod.mk.injEq, Envelope.receipt.injEq] at hrm
          obtain ⟨-, rfl⟩ := hrm
          refine ⟨fun he => ho he.symm, ?_⟩
          rw [hthru, hrows]
          simp [log]
        · rw [hrec, happ]
          rw [hrows] at hnext
          obtain ⟨hvalid, hlen⟩ := valid_append h hm node fence hnext
          refine valid_send hvalid (by simp) fun dst r hrm => ?_
          simp only [List.mem_singleton, Prod.mk.injEq, Envelope.receipt.injEq] at hrm
          obtain ⟨-, rfl⟩ := hrm
          exact ⟨fun he => ho he.symm, hlen.ge⟩

/-- A delivered receipt. -/
theorem valid_deliver_receipt {s : Cluster} (h : Valid s) {node : NodeId} {r : ReceiptMessage}
    (hsent : (node, Envelope.receipt r) ∈ s.sent) (applyFails : Bool) :
    Valid (s.step (.deliver node (.receipt r) applyFails)) := by
  have hr := h.receipts node r hsent
  simp only [step, if_pos hsent, receive, ReceiptTracker.record, if_neg hr.other]
  rcases admit_cases (s.nodes node).receiver.fence ⟨r.holder, r.incarnation⟩ with
    ⟨-, z, heq⟩ | ⟨-, fence, heq, -⟩
  · simp only [heq]
    exact valid_send (valid_setReceiver h rfl (h.trackers node)) (by simp [receiptOf])
      (by simp [receiptOf])
  · simp only [heq]
    refine valid_send (valid_setReceiver h ?_ ?_) ?_ ?_
    · rfl
    · intro holder origin p thru ht
      rw [OrdMap.get_insert] at ht
      rcases eq_or_ne (receiptKey r.holder r.origin r.partition) (receiptKey holder origin p) with hk | hk
      · rw [if_pos hk, Option.some.injEq] at ht
        obtain ⟨rfl, rfl, rfl⟩ := receiptKey_inj.mp hk
        subst ht
        refine ⟨hr.other, ?_⟩
        rw [Fin.coe_max]
        refine max_le ?_ hr.held
        cases hw : (s.nodes node).receiver.tracker.watermarks[receiptKey r.holder r.origin r.partition]? with
        | none => simp
        | some w => exact (h.trackers node r.holder r.origin r.partition w hw).held
      · rw [if_neg hk] at ht
        exact h.trackers node holder origin p thru ht
    · simp [receiptOf]
    · simp [receiptOf]

theorem valid_step {s : Cluster} (h : Valid s) : ∀ ev, Valid (s.step ev)
  | .stage node partition rows => valid_stage h node partition rows
  | .forward node partition first last window dataset peers =>
    valid_forward h node partition first last window dataset peers
  | .reboot node => valid_reboot h node
  | .deliver node msg applyFails => by
    by_cases hsent : (node, msg) ∈ s.sent
    · cases msg with
      | forward m => exact valid_deliver_forward h hsent applyFails
      | receipt r => exact valid_deliver_receipt h hsent applyFails
    · simp only [step, if_neg hsent]
      exact h

theorem valid_run : ∀ (events : List ClusterEvent) {s : Cluster}, Valid s → Valid (s.run events) := by
  intro events
  induction events with
  | nil =>
    intro _ h
    exact h
  | cons ev events ih =>
    intro _ h
    exact ih (valid_step h ev)

/-! ### The ack -/

/-- The entries counted for one `(origin, partition)` are of distinct holders. -/
theorem nodup_holders (t : ReceiptTracker) (origin : NodeId) (partition : PartitionId) (thru : U64) :
    ((t.receipted origin partition thru).map fun e => (ofLex e.1).1).Nodup := by
  have hkeys : t.watermarks.toList.Pairwise fun a b => a.1 ≠ b.1 := by
    have hnd := Std.ExtTreeMap.nodup_keys (t := t.watermarks)
    rwa [← Std.ExtTreeMap.map_fst_toList_eq_keys, List.Nodup, List.pairwise_map] at hnd
  rw [List.Nodup, List.pairwise_map]
  refine (hkeys.sublist List.filter_sublist).imp_of_mem fun {a b} ha hb hne heq => hne ?_
  simp only [ReceiptTracker.receipted, List.mem_filter, decide_eq_true_eq] at ha hb
  have horigin : (ofLex (ofLex a.1).2).1 = (ofLex (ofLex b.1).2).1 := by rw [ha.2.1, hb.2.1]
  have hpart : (ofLex (ofLex a.1).2).2 = (ofLex (ofLex b.1).2).2 := by rw [ha.2.2.1, hb.2.2.1]
  exact congrArg toLex (Prod.ext heq (congrArg toLex (Prod.ext horigin hpart)))

/-- The sequence numbers of a log in order are those from 1 to its length. -/
theorem Valid.seqs {s : Cluster} (h : Valid s) (holder origin : NodeId) (partition : PartitionId) :
    (s.log holder origin partition).map (·.1) =
      List.range' 1 (s.log holder origin partition).length := by
  have hlog := (h.logs holder origin partition).1
  have hlen := congrArg List.length hlog
  rw [length_numbered] at hlen
  conv_lhs => rw [hlog]
  rw [map_fst_numbered, ← hlen]

end Cluster

/-- In every reachable cluster, a client ack that is ready rests on `rf - 1` distinct nodes other than
    the origin that have applied the whole range, and every log is a gap-free, duplicate-free prefix
    of its origin's own sequence. -/
theorem durable_ack (events : List ClusterEvent) :
    (∀ node origin partition lastSeq rf,
      clientAckReady ((Cluster.run {} events).nodes node).receiver.tracker origin partition lastSeq
        rf = true →
      ∃ holders : Finset NodeId, rf - 1 ≤ holders.card ∧ origin ∉ holders ∧
        ∀ h ∈ holders, ∀ n, 1 ≤ n → n ≤ (lastSeq : ℕ) →
          n ∈ ((Cluster.run {} events).log h origin partition).map (·.1)) ∧
    ∀ holder origin partition,
      ((Cluster.run {} events).log holder origin partition).map (·.1) =
        List.range' 1 ((Cluster.run {} events).log holder origin partition).length ∧
      ((Cluster.run {} events).log holder origin partition).map (·.2) <+:
        (Cluster.run {} events).own origin partition := by
  have h := Cluster.valid_run events Cluster.valid_init
  refine ⟨fun node origin partition lastSeq rf hready => ?_, fun holder origin partition => ?_⟩
  · set t := ((Cluster.run {} events).nodes node).receiver.tracker with ht
    have hcount : rf - 1 ≤ (t.receipted origin partition lastSeq).length := of_decide_eq_true hready
    -- every counted entry is an honest claim of its holder about this origin and partition
    have hheld : ∀ e ∈ t.receipted origin partition lastSeq,
        Cluster.Honest (Cluster.run {} events) (ofLex e.1).1 origin partition lastSeq := by
      intro e he
      simp only [ReceiptTracker.receipted, List.mem_filter, decide_eq_true_eq] at he
      obtain ⟨hmem, rfl, rfl, hle⟩ := he
      have hhonest := h.trackers node _ _ _ e.2 (OrdMap.mem_toList.mp hmem)
      exact ⟨hhonest.other, le_trans (Fin.le_def.mp hle) hhonest.held⟩
    refine ⟨((t.receipted origin partition lastSeq).map fun e => (ofLex e.1).1).toFinset, ?_, ?_, ?_⟩
    · rw [List.toFinset_card_of_nodup (Cluster.nodup_holders t origin partition lastSeq),
        List.length_map]
      exact hcount
    · intro hin
      obtain ⟨e, he, heq⟩ := List.mem_map.mp (List.mem_toFinset.mp hin)
      exact (hheld e he).other heq
    · intro holder hin n h1 hn
      obtain ⟨e, he, rfl⟩ := List.mem_map.mp (List.mem_toFinset.mp hin)
      have hlen := (hheld e he).held
      rw [h.seqs, List.mem_range'_1]
      omega
  · refine ⟨h.seqs holder origin partition, ?_⟩
    rw [(h.logs holder origin partition).1, map_snd_numbered]
    exact List.take_prefix _ _

/-- One row staged at `a`, forwarded to `b`, applied and receipted there: `a` may ack at `rf = 2`. -/
example :
    let m : ForwardMessage := ⟨1, ⟨"p"⟩, ⟨⟨"a"⟩, 1, 1⟩, 0, ⟨"logs"⟩, ["row"]⟩
    let s := Cluster.run {} [.stage ⟨"a"⟩ ⟨"p"⟩ ["row"],
      .forward ⟨"a"⟩ ⟨"p"⟩ 1 1 0 ⟨"logs"⟩ [⟨"a"⟩, ⟨"b"⟩],
      .deliver ⟨"b"⟩ (.forward m) false,
      .deliver ⟨"a"⟩ (.receipt ⟨1, ⟨"b"⟩, ⟨"a"⟩, ⟨"p"⟩, 1⟩) false]
    clientAckReady (s.nodes ⟨"a"⟩).receiver.tracker ⟨"a"⟩ ⟨"p"⟩ 1 2 = true := by
  decide +kernel

end Duckspout
