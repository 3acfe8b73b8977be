import Duckspout.Types
import Mathlib.Data.Prod.Lex

/-! The receiving side of replication: incarnation fencing, `PeerApply` and receipt bookkeeping
    (`duckspout-replication/src/fencing.rs`, `wire.rs`, `peer_apply.rs`, `receipt.rs`).

    A node plays both roles at once, so the two message paths share one fence table. The replica log
    is a port: here it is a parameter with its own state type. The trace journal is left out. -/

namespace Duckspout

/-- A node's boot incarnation. -/
abbrev Incarnation := ℕ

/-- Which incarnation of which node performed a write. -/
structure FenceIdentity where
  node : NodeId
  incarnation : Incarnation
  deriving DecidableEq, Repr

/-- The verdict on one message's fencing identity. -/
inductive FenceOutcome where
  | admitted
  | zombie (highestSeen : Incarnation)
  deriving DecidableEq, Repr

/-- The highest incarnation seen so far from each logical sender. -/
structure FenceTable where
  highestSeen : OrdMap NodeId Incarnation := ∅

namespace FenceTable

/-- The record for `node`; a sender never seen stands at 0. -/
def highest (t : FenceTable) (node : NodeId) : Incarnation := t.highestSeen[node]?.getD 0

/-- Evaluates an identity, advancing the record when it is admitted. -/
def admitIdentity (t : FenceTable) (identity : FenceIdentity) : FenceOutcome × FenceTable :=
  if identity.incarnation < t.highest identity.node then (.zombie (t.highest identity.node), t)
  else (.admitted, ⟨t.highestSeen.insert identity.node identity.incarnation⟩)

end FenceTable

/-! ### Messages -/

/-- The origin's shipment of one contiguous range; the rows are opaque. -/
structure ForwardMessage where
  incarnation : Incarnation
  partition : PartitionId
  range : OriginSeqRange
  window : WindowId
  dataset : DatasetId
  records : List String
  deriving DecidableEq, Repr

/-- The peer's cumulative acknowledgment. -/
structure ReceiptMessage where
  incarnation : Incarnation
  holder : NodeId
  origin : NodeId
  partition : PartitionId
  appliedThru : U64
  deriving DecidableEq, Repr

/-- One wire message. -/
inductive Envelope where
  | forward (m : ForwardMessage)
  | receipt (m : ReceiptMessage)
  deriving DecidableEq, Repr

/-- The fencing identity a message claims: a forward is its origin's, a receipt its holder's. -/
def Envelope.identity : Envelope → FenceIdentity
  | .forward m => ⟨m.range.origin, m.incarnation⟩
  | .receipt m => ⟨m.holder, m.incarnation⟩

/-! ### `PeerApply` -/

/-- A record as it is handed to the replica log. -/
structure ForwardedRecord where
  partition : PartitionId
  range : OriginSeqRange
  window : WindowId
  dataset : DatasetId
  records : List String
  deriving DecidableEq, Repr

/-- The replica-log port over a backend with state `σ`; `apply` answers whether it succeeded. -/
structure ReplicaLog (σ : Type) where
  appliedThru : σ → NodeId → PartitionId → U64
  hasApplied : σ → NodeId → PartitionId → U64 → Bool
  apply : σ → ForwardedRecord → Bool × σ

/-- The result of evaluating one inbound forward. -/
inductive PeerApplyOutcome where
  | invalidRange
  | selfOriginRefused
  | applied (receipt : ReceiptMessage)
  | duplicateAcked (receipt : ReceiptMessage)
  | gapRefused
  | fenced
  | suspectDuplicate
  | applyFailed
  deriving DecidableEq, Repr

section

variable {σ : Type} (port : ReplicaLog σ) (selfNode : NodeId) (selfIncarnation : Incarnation)

/-- The part of `apply_forward` after the fence has admitted the message. The successor is taken in
    the naturals: where it would leave 64 bits, the duplicate branch has answered before. -/
def applyAdmitted (log : σ) (m : ForwardMessage) : PeerApplyOutcome × σ :=
  let origin := m.range.origin
  let appliedThru := port.appliedThru log origin m.partition
  if m.range.lastSeq ≤ appliedThru then
    if port.hasApplied log origin m.partition m.range.lastSeq then
      (.duplicateAcked ⟨selfIncarnation, selfNode, origin, m.partition, appliedThru⟩, log)
    else (.suspectDuplicate, log)
  else if (m.range.firstSeq : ℕ) ≠ appliedThru + 1 then (.gapRefused, log)
  else
    match port.apply log ⟨m.partition, m.range, m.window, m.dataset, m.records⟩ with
    | (true, next) =>
      (.applied ⟨selfIncarnation, selfNode, origin, m.partition, m.range.lastSeq⟩, next)
    | (false, next) => (.applyFailed, next)

/-- Evaluates one inbound forward against the fence and the log. -/
def applyForward (fence : FenceTable) (log : σ) (m : ForwardMessage) :
    PeerApplyOutcome × FenceTable × σ :=
  if m.range.firstSeq > m.range.lastSeq then (.invalidRange, fence, log)
  else if m.range.origin = selfNode then (.selfOriginRefused, fence, log)
  else
    match fence.admitIdentity ⟨m.range.origin, m.incarnation⟩ with
    | (.zombie _, fence) => (.fenced, fence, log)
    | (.admitted, fence) =>
      let out := applyAdmitted port selfNode selfIncarnation log m
      (out.1, fence, out.2)

end

/-! ### Receipts -/

/-- The result of recording one inbound receipt. -/
inductive ReceiptOutcome where
  | recorded
  | fenced
  | selfReceiptRejected
  deriving DecidableEq, Repr

/-- `(holder, origin, partition)`. -/
abbrev ReceiptKey := NodeId ×ₗ NodeId ×ₗ PartitionId

/-- The key of a holder's watermark. -/
def receiptKey (holder origin : NodeId) (partition : PartitionId) : ReceiptKey :=
  toLex (holder, toLex (origin, partition))

/-- Per `(holder, origin, partition)`, the highest sequence number the holder reported applied. -/
structure ReceiptTracker where
  watermarks : OrdMap ReceiptKey U64 := ∅

namespace ReceiptTracker

/-- Records a receipt against the shared fence table; watermarks never go back. -/
def record (t : ReceiptTracker) (fence : FenceTable) (r : ReceiptMessage) :
    ReceiptOutcome × ReceiptTracker × FenceTable :=
  if r.holder = r.origin then (.selfReceiptRejected, t, fence)
  else
    match fence.admitIdentity ⟨r.holder, r.incarnation⟩ with
    | (.zombie _, fence) => (.fenced, t, fence)
    | (.admitted, fence) =>
      let key := receiptKey r.holder r.origin r.partition
      let watermark := t.watermarks[key]?.getD 0
      (.recorded, ⟨t.watermarks.insert key (max watermark r.appliedThru)⟩, fence)

/-- The entries for `(origin, partition)` at or past `thruSeq`. -/
def receipted (t : ReceiptTracker) (origin : NodeId) (partition : PartitionId) (thruSeq : U64) :
    List (ReceiptKey × U64) :=
  t.watermarks.toList.filter fun e =>
    (ofLex (ofLex e.1).2).1 = origin ∧ (ofLex (ofLex e.1).2).2 = partition ∧ thruSeq ≤ e.2

/-- The number of holders whose watermark is at or past `thruSeq`. -/
def receiptedPeerCount (t : ReceiptTracker) (origin : NodeId) (partition : PartitionId)
    (thruSeq : U64) : ℕ := (t.receipted origin partition thruSeq).length

end ReceiptTracker

/-- Whether the range up to `lastSeq` has enough receipted copies to ack the client; the origin's own
    copy is the first of `rf`. -/
def clientAckReady (t : ReceiptTracker) (origin : NodeId) (partition : PartitionId) (lastSeq : U64)
    (rf : ℕ) : Bool := decide (rf - 1 ≤ t.receiptedPeerCount origin partition lastSeq)

/-! ### One node's inbound messages -/

/-- What a node's two message paths share and keep. -/
structure Receiver (σ : Type) where
  fence : FenceTable := {}
  tracker : ReceiptTracker := {}
  log : σ

/-- What the receiver answered. -/
inductive Reply where
  | peerApply (out : PeerApplyOutcome)
  | receipt (out : ReceiptOutcome)
  deriving DecidableEq, Repr

/-- The message got past the fence. -/
def Reply.admitted : Reply → Bool
  | .peerApply .invalidRange | .peerApply .selfOriginRefused | .peerApply .fenced => false
  | .peerApply _ => true
  | .receipt .recorded => true
  | .receipt _ => false

section

variable {σ : Type} (port : ReplicaLog σ) (selfNode : NodeId) (selfIncarnation : Incarnation)

/-- One inbound message, of either kind. -/
def receive (st : Receiver σ) : Envelope → Reply × Receiver σ
  | .forward m =>
    let out := applyForward port selfNode selfIncarnation st.fence st.log m
    (.peerApply out.1, { st with fence := out.2.1, log := out.2.2 })
  | .receipt m =>
    let out := st.tracker.record st.fence m
    (.receipt out.1, { st with tracker := out.2.1, fence := out.2.2 })

/-- The receiver after a sequence of messages. -/
def receiveAll (st : Receiver σ) (msgs : List Envelope) : Receiver σ :=
  msgs.foldl (fun st msg => (receive port selfNode selfIncarnation st msg).2) st

/-- The messages of a sequence that got past the fence, in order. -/
def admittedMessages (st : Receiver σ) : List Envelope → List Envelope
  | [] => []
  | msg :: msgs =>
    let out := receive port selfNode selfIncarnation st msg
    if out.1.admitted then msg :: admittedMessages out.2 msgs else admittedMessages out.2 msgs

end

/-! ### Fencing over a sequence of messages -/

/-- The two verdicts of the fence. -/
theorem admit_cases (t : FenceTable) (identity : FenceIdentity) :
    (identity.incarnation < t.highest identity.node ∧ ∃ h, t.admitIdentity identity = (.zombie h, t)) ∨
    (t.highest identity.node ≤ identity.incarnation ∧ ∃ next, t.admitIdentity identity = (.admitted, next) ∧
      ∀ n, next.highest n = if identity.node = n then identity.incarnation else t.highest n) := by
  simp only [FenceTable.admitIdentity]
  by_cases h : identity.incarnation < t.highest identity.node
  · exact Or.inl ⟨h, _, if_pos h⟩
  · refine Or.inr ⟨not_lt.mp h, _, if_neg h, fun n => ?_⟩
    simp only [FenceTable.highest]
    rw [OrdMap.get_insert]
    rcases eq_or_ne identity.node n with hn | hn
    · rw [if_pos hn, if_pos hn, Option.getD_some]
    · rw [if_neg hn, if_neg hn]

section

variable {σ : Type} (port : ReplicaLog σ) (selfNode : NodeId) (selfIncarnation : Incarnation)

/-- Past the fence, no answer is a refusal of the fence. -/
theorem applyAdmitted_admitted (log : σ) (m : ForwardMessage) :
    (Reply.peerApply (applyAdmitted port selfNode selfIncarnation log m).1).admitted = true := by
  unfold applyAdmitted
  simp only
  split
  · split
    · rfl
    · rfl
  · split
    · rfl
    · split
      · rfl
      · rfl

/-- One message: either it is admitted, at or above the sender's record, which it becomes, or the
    whole receiver stays as it was. -/
theorem receive_cases (st : Receiver σ) (msg : Envelope) :
    ((receive port selfNode selfIncarnation st msg).1.admitted = true ∧
      st.fence.highest msg.identity.node ≤ msg.identity.incarnation ∧
      ∀ n, (receive port selfNode selfIncarnation st msg).2.fence.highest n =
        if msg.identity.node = n then msg.identity.incarnation else st.fence.highest n) ∨
    ((receive port selfNode selfIncarnation st msg).1.admitted = false ∧
      (receive port selfNode selfIncarnation st msg).2 = st) := by
  cases msg with
  | forward m =>
    simp only [receive, applyForward]
    by_cases hr : m.range.firstSeq > m.range.lastSeq
    · rw [if_pos hr]
      exact Or.inr ⟨rfl, rfl⟩
    · rw [if_neg hr]
      rcases eq_or_ne m.range.origin selfNode with ho | ho
      · rw [if_pos ho]
        exact Or.inr ⟨rfl, rfl⟩
      · rw [if_neg ho]
        rcases admit_cases st.fence ⟨m.range.origin, m.incarnation⟩ with
          ⟨-, h, heq⟩ | ⟨hle, next, heq, hnext⟩
        · rw [heq]
          exact Or.inr ⟨rfl, rfl⟩
        · rw [heq]
          exact Or.inl ⟨applyAdmitted_admitted port selfNode selfIncarnation st.log m, hle, hnext⟩
  | receipt m =>
    simp only [receive, ReceiptTracker.record]
    rcases eq_or_ne m.holder m.origin with ho | ho
    · rw [if_pos ho]
      exact Or.inr ⟨rfl, rfl⟩
    · rw [if_neg ho]
      rcases admit_cases st.fence ⟨m.holder, m.incarnation⟩ with ⟨-, h, heq⟩ | ⟨hle, next, heq, hnext⟩
      · rw [heq]
        exact Or.inr ⟨rfl, rfl⟩
      · rw [heq]
        exact Or.inl ⟨rfl, hle, hnext⟩

/-- A stale message is refused and changes nothing. -/
theorem receive_stale (st : Receiver σ) (msg : Envelope)
    (h : msg.identity.incarnation < st.fence.highest msg.identity.node) :
    (receive port selfNode selfIncarnation st msg).1.admitted = false ∧
      (receive port selfNode selfIncarnation st msg).2 = st := by
  rcases receive_cases port selfNode selfIncarnation st msg with ⟨-, hle, -⟩ | hsame
  · exact absurd h (not_lt.mpr hle)
  · exact hsame

/-- No record of the fence table goes back. -/
theorem highest_mono (st : Receiver σ) (msg : Envelope) (n : NodeId) :
    st.fence.highest n ≤ (receive port selfNode selfIncarnation st msg).2.fence.highest n := by
  rcases receive_cases port selfNode selfIncarnation st msg with ⟨-, hle, hnext⟩ | ⟨-, hsame⟩
  · rw [hnext n]
    rcases eq_or_ne msg.identity.node n with hn | hn
    · rw [if_pos hn, ← hn]
      exact hle
    · rw [if_neg hn]
  · rw [hsame]

theorem highest_mono_all : ∀ (msgs : List Envelope) (st : Receiver σ) (n : NodeId),
    st.fence.highest n ≤ (receiveAll port selfNode selfIncarnation st msgs).fence.highest n := by
  intro msgs
  induction msgs with
  | nil =>
    intro _ _
    exact le_rfl
  | cons msg msgs ih =>
    intro st n
    exact (highest_mono port selfNode selfIncarnation st msg n).trans (ih _ n)

/-- Every message admitted on the way lies between the record before the run and the one after. -/
theorem admitted_bounds : ∀ (msgs : List Envelope) (st : Receiver σ),
    ∀ a ∈ admittedMessages port selfNode selfIncarnation st msgs,
      st.fence.highest a.identity.node ≤ a.identity.incarnation ∧
      a.identity.incarnation ≤
        (receiveAll port selfNode selfIncarnation st msgs).fence.highest a.identity.node := by
  intro msgs
  induction msgs with
  | nil =>
    intro st a ha
    simp [admittedMessages] at ha
  | cons msg msgs ih =>
    intro st a ha
    set next := (receive port selfNode selfIncarnation st msg).2 with hnext
    have hafter : ∀ b ∈ admittedMessages port selfNode selfIncarnation next msgs,
        st.fence.highest b.identity.node ≤ b.identity.incarnation ∧ b.identity.incarnation ≤
          (receiveAll port selfNode selfIncarnation next msgs).fence.highest b.identity.node :=
      fun b hb =>
        ⟨(highest_mono port selfNode selfIncarnation st msg _).trans (ih next b hb).1,
          (ih next b hb).2⟩
    simp only [admittedMessages] at ha
    rcases receive_cases port selfNode selfIncarnation st msg with ⟨had, hle, hrec⟩ | ⟨had, -⟩
    · simp only [had, if_true] at ha
      rcases List.mem_cons.mp ha with rfl | ha
      · have hrec' := hrec a.identity.node
        rw [if_pos rfl, ← hnext] at hrec'
        exact ⟨hle, hrec' ▸ highest_mono_all port selfNode selfIncarnation msgs next _⟩
      · exact hafter a ha
    · simp only [had, Bool.false_eq_true, if_false] at ha
      exact hafter a ha

theorem admitted_sorted : ∀ (msgs : List Envelope) (st : Receiver σ),
    (admittedMessages port selfNode selfIncarnation st msgs).Pairwise fun a b =>
      a.identity.node = b.identity.node → a.identity.incarnation ≤ b.identity.incarnation := by
  intro msgs
  induction msgs with
  | nil =>
    intro _
    exact List.Pairwise.nil
  | cons msg msgs ih =>
    intro st
    have ih := ih (receive port selfNode selfIncarnation st msg).2
    simp only [admittedMessages]
    rcases receive_cases port selfNode selfIncarnation st msg with ⟨had, -, hrec⟩ | ⟨had, -⟩
    · simp only [had, if_true]
      refine List.Pairwise.cons (fun b hb hsame => ?_) ih
      have hle := (admitted_bounds port selfNode selfIncarnation msgs _ b hb).1
      rwa [hrec, if_pos hsame] at hle
    · simp only [had, Bool.false_eq_true, if_false]
      exact ih

/-- Through one shared fence table, the incarnations admitted from a sender never decrease, and any
    message below one already admitted from its sender is refused without effect. -/
theorem stale_fenced_for_good (tracker : ReceiptTracker) (log : σ) (msgs : List Envelope) :
    ((admittedMessages port selfNode selfIncarnation { tracker := tracker, log := log } msgs).Pairwise
      fun a b => a.identity.node = b.identity.node →
        a.identity.incarnation ≤ b.identity.incarnation) ∧
    ∀ msg : Envelope,
      (∃ a ∈ admittedMessages port selfNode selfIncarnation { tracker := tracker, log := log } msgs,
        a.identity.node = msg.identity.node ∧ msg.identity.incarnation < a.identity.incarnation) →
      let st := receiveAll port selfNode selfIncarnation { tracker := tracker, log := log } msgs
      (receive port selfNode selfIncarnation st msg).1.admitted = false ∧
        (receive port selfNode selfIncarnation st msg).2 = st := by
  refine ⟨admitted_sorted port selfNode selfIncarnation msgs _, ?_⟩
  rintro msg ⟨a, ha, hsender, hlt⟩
  have hle := (admitted_bounds port selfNode selfIncarnation msgs _ a ha).2
  rw [hsender] at hle
  exact receive_stale port selfNode selfIncarnation _ msg (lt_of_lt_of_le hlt hle)

end

/-! ### One forward -/

/-- A replica log as its port documents it: what is applied is the prefix through `appliedThru`, a record next in line
    advances it to the record's end, and a failed apply does nothing. -/
structure ReplicaLog.Conforms {σ : Type} (port : ReplicaLog σ) : Prop where
  applied : ∀ log origin partition seq, port.hasApplied log origin partition seq = true ↔
    1 ≤ (seq : ℕ) ∧ seq ≤ port.appliedThru log origin partition
  advances : ∀ log r next, (r.range.firstSeq : ℕ) = port.appliedThru log r.range.origin r.partition + 1 →
    port.apply log r = (true, next) → port.appliedThru next r.range.origin r.partition = r.range.lastSeq
  fails : ∀ log r next, port.apply log r = (false, next) → next = log

/-- The answer rests on a comparison with the successor of the applied position. -/
def PeerApplyOutcome.pastDuplicate : PeerApplyOutcome → Bool
  | .gapRefused | .applied _ | .applyFailed => true
  | _ => false

/-- The rows went to the log. -/
def PeerApplyOutcome.reachedLog : PeerApplyOutcome → Bool
  | .applied _ | .applyFailed => true
  | _ => false

def PeerApplyOutcome.receipt? : PeerApplyOutcome → Option ReceiptMessage
  | .applied r | .duplicateAcked r => some r
  | _ => none

/-- What one forward may do to a log. -/
structure SafeForward {σ : Type} (port : ReplicaLog σ) (m : ForwardMessage) (log : σ) (out : PeerApplyOutcome)
    (next : σ) : Prop where
  inOrder : out.reachedLog = true → (m.range.firstSeq : ℕ) = port.appliedThru log m.range.origin m.partition + 1
  receipted : ∀ r, out.receipt? = some r → r.origin = m.range.origin ∧ r.partition = m.partition ∧
    ∀ seq : U64, 1 ≤ (seq : ℕ) → seq ≤ r.appliedThru → port.hasApplied next r.origin r.partition seq = true
  unchanged : (∀ r, out ≠ .applied r) → next = log
  fits : out.pastDuplicate = true → (port.appliedThru log m.range.origin m.partition : ℕ) + 1 ≤ u64Max
  conformant : out ≠ .suspectDuplicate

section

variable {σ : Type} {port : ReplicaLog σ} {m : ForwardMessage} {log : σ}

/-- An answer that leaves the log alone. -/
theorem SafeForward.refused {out : PeerApplyOutcome} (hlog : out.reachedLog = false) (hreceipt : out.receipt? = none)
    (hpast : out.pastDuplicate = false) (hsuspect : out ≠ .suspectDuplicate) : SafeForward port m log out log where
  inOrder h := by simp [hlog] at h
  receipted r h := by simp [hreceipt] at h
  unchanged _ := rfl
  fits h := by simp [hpast] at h
  conformant := hsuspect

/-- Past the fence, only the range `0..=0` of a log that conforms is answered with suspicion. -/
theorem applyAdmitted_safe_iff (hport : port.Conforms) (selfNode : NodeId) (selfIncarnation : Incarnation) :
    SafeForward port m log (applyAdmitted port selfNode selfIncarnation log m).1
      (applyAdmitted port selfNode selfIncarnation log m).2 ↔ m.range.lastSeq ≠ 0 := by
  simp only [applyAdmitted]
  by_cases hdup : m.range.lastSeq ≤ port.appliedThru log m.range.origin m.partition
  · rw [if_pos hdup]
    by_cases hzero : m.range.lastSeq = 0
    · -- sequence numbers begin at 1, so no log has applied 0
      have hnot : ¬ port.hasApplied log m.range.origin m.partition m.range.lastSeq = true := by
        rw [hport.applied, hzero]
        simp
      rw [if_neg hnot]
      exact ⟨fun hsafe => absurd rfl hsafe.conformant, fun hne => absurd hzero hne⟩
    · have hpos : 1 ≤ (m.range.lastSeq : ℕ) := Nat.one_le_iff_ne_zero.mpr fun h => hzero (Fin.ext h)
      rw [if_pos ((hport.applied ..).mpr ⟨hpos, hdup⟩)]
      refine ⟨fun _ => hzero, fun _ => ?_⟩
      refine ⟨(fun h => by cases h), ?_, (fun _ => rfl), (fun h => by cases h), by simp⟩
      rintro r hr
      obtain rfl := Option.some.inj hr
      exact ⟨rfl, rfl, fun seq hseq hle => (hport.applied ..).mpr ⟨hseq, hle⟩⟩
  · rw [if_neg hdup]
    have hlt : (port.appliedThru log m.range.origin m.partition : ℕ) < m.range.lastSeq := not_le.mp hdup
    have hfits : (port.appliedThru log m.range.origin m.partition : ℕ) + 1 ≤ u64Max := by
      have hlast := m.range.lastSeq.isLt
      simp only [u64Max]
      omega
    have hzero : m.range.lastSeq ≠ 0 := by
      rintro heq
      simp [heq] at hlt
    refine ⟨fun _ => hzero, fun _ => ?_⟩
    by_cases hnext : (m.range.firstSeq : ℕ) ≠ port.appliedThru log m.range.origin m.partition + 1
    · rw [if_pos hnext]
      exact ⟨(fun h => by cases h), (fun r h => by cases h), (fun _ => rfl), (fun _ => hfits), by simp⟩
    · rw [if_neg hnext]
      have hin : (m.range.firstSeq : ℕ) = port.appliedThru log m.range.origin m.partition + 1 := not_not.mp hnext
      rcases happly : port.apply log ⟨m.partition, m.range, m.window, m.dataset, m.records⟩ with ⟨_ | _, next⟩
      · exact ⟨(fun _ => hin), (fun r h => by cases h), (fun _ => hport.fails _ _ _ happly), (fun _ => hfits), by simp⟩
      · refine ⟨(fun _ => hin), ?_, (fun h => absurd rfl (h _)), (fun _ => hfits), by simp⟩
        intro r hr
        obtain rfl := Option.some.inj hr
        refine ⟨rfl, rfl, fun seq hseq hle => (hport.applied ..).mpr ⟨hseq, ?_⟩⟩
        have hthru : port.appliedThru next m.range.origin m.partition = m.range.lastSeq :=
          hport.advances _ _ _ hin happly
        dsimp only
        rw [hthru]
        exact hle

end

/-- A forward is a safe step on a conformant log, unless it is an admitted one with the range `0..=0`: that is
    answered as if the log did not conform. -/
theorem forward_safe_iff {σ : Type} (port : ReplicaLog σ) (hport : port.Conforms) (selfNode : NodeId)
    (selfIncarnation : Incarnation) (fence : FenceTable) (log : σ) (m : ForwardMessage) :
    let out := applyForward port selfNode selfIncarnation fence log m
    SafeForward port m log out.1 out.2.2 ↔
      ¬ (m.range.firstSeq = 0 ∧ m.range.lastSeq = 0 ∧ m.range.origin ≠ selfNode ∧
        fence.highest m.range.origin ≤ m.incarnation) := by
  simp only [applyForward]
  by_cases hrange : m.range.firstSeq > m.range.lastSeq
  · rw [if_pos hrange]
    refine ⟨fun _ hbad => ?_, fun _ => .refused rfl rfl rfl (by simp)⟩
    rw [hbad.1, hbad.2.1] at hrange
    exact absurd hrange (lt_irrefl _)
  · rw [if_neg hrange]
    by_cases hself : m.range.origin = selfNode
    · rw [if_pos hself]
      exact ⟨fun _ hbad => hbad.2.2.1 hself, fun _ => .refused rfl rfl rfl (by simp)⟩
    · rw [if_neg hself]
      rcases admit_cases fence ⟨m.range.origin, m.incarnation⟩ with ⟨hstale, h, heq⟩ | ⟨hle, next, heq, -⟩
      · rw [heq]
        exact ⟨fun _ hbad => absurd hstale (not_lt.mpr hbad.2.2.2), fun _ => .refused rfl rfl rfl (by simp)⟩
      · rw [heq]
        refine (applyAdmitted_safe_iff hport selfNode selfIncarnation).trans ?_
        refine ⟨fun hne hbad => hne hbad.2.1, fun hgood hzero => hgood ⟨?_, hzero, hself, hle⟩⟩
        rw [hzero] at hrange
        exact Fin.le_zero_iff.mp (not_lt.mp hrange)

/-- A log that keeps the applied positions, and refuses what is not next in line. -/
def prefixLog : ReplicaLog (NodeId → PartitionId → U64) where
  appliedThru log := log
  hasApplied log origin partition seq := decide (1 ≤ (seq : ℕ) ∧ seq ≤ log origin partition)
  apply log r :=
    if (r.range.firstSeq : ℕ) = log r.range.origin r.partition + 1 then
      (true, fun o p => if o = r.range.origin ∧ p = r.partition then r.range.lastSeq else log o p)
    else (false, log)

theorem prefixLog_conforms : prefixLog.Conforms where
  applied log origin partition seq := by simp [prefixLog]
  advances log r next hnext happly := by
    simp only [prefixLog] at hnext happly ⊢
    rw [if_pos hnext, Prod.mk.injEq] at happly
    simp [← happly.2]
  fails log r next happly := by
    simp only [prefixLog] at happly
    split_ifs at happly
    · exact absurd (congrArg Prod.fst happly) (by simp)
    · exact (congrArg Prod.snd happly).symm

theorem forward_safe_first :
    let m : ForwardMessage := ⟨1, ⟨"t.0"⟩, ⟨⟨"b"⟩, 1, 3⟩, 0, ⟨"logs"⟩, ["x", "y", "z"]⟩
    let out := applyForward prefixLog ⟨"a"⟩ 1 {} (fun _ _ => 0) m
    out.1 = .applied ⟨1, ⟨"a"⟩, ⟨"b"⟩, ⟨"t.0"⟩, 3⟩ ∧ SafeForward prefixLog m (fun _ _ => 0) out.1 out.2.2 := by
  intro m out
  exact ⟨by decide, (forward_safe_iff prefixLog prefixLog_conforms ⟨"a"⟩ 1 {} (fun _ _ => 0) m).mpr (by decide)⟩

/-- An empty log conforms, and suspects the range `0..=0` of being a false duplicate. -/
theorem zero_range_suspected :
    prefixLog.Conforms ∧
    (applyForward prefixLog ⟨"a"⟩ 1 {} (fun _ _ => 0) ⟨1, ⟨"t.0"⟩, ⟨⟨"b"⟩, 0, 0⟩, 0, ⟨"logs"⟩, []⟩).1 =
      .suspectDuplicate :=
  ⟨prefixLog_conforms, by decide⟩

end Duckspout
