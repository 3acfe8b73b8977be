import Duckspout.Judge.Ingest
import Duckspout.Judge.WatermarkHonesty
import Duckspout.Lib.Checked
import Duckspout.Naming
import Mathlib.Order.Interval.Finset.Nat

/-! Zero acked lost (`duckspout-judge/src/predicates/zero_acked_lost.rs`): every record of every request that a client
    saw acknowledged is in the final system.

    A record is looked up by its sender's incarnation and its index, a dash between them. The incarnation may have dashes
    and digits of its own; the index has no dash, so the key still says where the one ends and the other begins. -/

namespace Duckspout

structure QueryError where
  tenant : String
  recordKey : String
  reason : String
  deriving DecidableEq, Repr

/-- The read-back of the final system: whether a tenant's record is there. -/
abbrev FinalSystemState := String → String → Except QueryError Bool

namespace ZeroAckedLost

open WatermarkHonesty (systemTenantPrefix)

section

variable (debug : String → String) (finalState : FinalSystemState)

def queryErrorText (err : QueryError) : String :=
  "final-system query for tenant " ++ debug err.tenant ++ " record " ++ debug err.recordKey ++ " failed: " ++ err.reason

structure Finding where
  requestId : String
  tenant : String
  missingIndices : Finset ℕ
  deriving DecidableEq

/-- Evidence: an ack of a non-system tenant that covers at least one record. -/
def isCheckable (identity : RequestIdentity) : Bool :=
  !startsWith identity.tenant systemTenantPrefix && identity.recordCount > 0

def recordKey (sourceIncarnation : String) (index : ℕ) : String := sourceIncarnation ++ "-" ++ toString index

/-- The body of the loop over the records of a request. -/
def probe (identity : RequestIdentity) (missing : Finset ℕ) (index : ℕ) : Except String (Finset ℕ) :=
  match finalState identity.tenant (recordKey identity.sourceIncarnation index) with
  | .ok true => .ok missing
  | .ok false => .ok (insert index missing)
  | .error err =>
    .error ("final-system query failed while checking request " ++ identity.requestId ++ " (tenant " ++
      identity.tenant ++ "): " ++ queryErrorText debug err ++ " — a query failure is not proof of absence, so this " ++
      "run cannot be certified (§8.4 fail-closed posture, ACPR finding MEDIUM-5)")

/-- The body of the loop over the acks. -/
def checkAck (findings : List Finding) (identity : RequestIdentity) : Except String (List Finding) :=
  match Checked.add 64 identity.firstIndex identity.recordCount with
  | none =>
    .error ("request " ++ identity.requestId ++ " (tenant " ++ identity.tenant ++ "): first_index " ++
      toString identity.firstIndex ++ " + record_count " ++ toString identity.recordCount ++
      " overflows u64 — fails closed rather than checking a wrapped, wrong range")
  | some last => do
    let missing ← (List.range' identity.firstIndex (last - identity.firstIndex)).foldlM (probe debug finalState identity) ∅
    return if missing = ∅ then findings else findings ++ [⟨identity.requestId, identity.tenant, missing⟩]

def checkableAcks (journals : JournalSet) : List RequestIdentity :=
  ((journals.identityEvents .clientAck).map (·.2)).filter isCheckable

def check (journals : JournalSet) : Verdict Finding :=
  let acks := checkableAcks journals
  if acks.isEmpty then
    .noVerdict ("no ClientAck with a non-empty record range was journaled by any loadgen member for a non-system " ++
      "tenant — the zero-acked-lost predicate had nothing to check (§8.4 vacuity teeth)")
  else
    match acks.foldlM (checkAck debug finalState) [] with
    | .error reason => .noVerdict reason
    | .ok findings =>
      if findings.isEmpty then
        Verdict.passing acks.length ("no checkable ClientAck remained after the §2.2 system-tenant and empty-range " ++
          "exclusions (§8.4 vacuity teeth)")
      else .violation findings

end

/-! ### What a run owes -/

/-- The indices of a request's records. -/
def indices (identity : RequestIdentity) : Finset ℕ :=
  Finset.Ico identity.firstIndex (identity.firstIndex + identity.recordCount)

/-- The request a line acknowledges, if it is evidence: its tenant is not the system's, and it has a record. -/
def ackOf (line : JournalLine) : Option RequestIdentity :=
  line.identity.filter fun identity =>
    line.event = .clientAck ∧ startsWith identity.tenant systemTenantPrefix = false ∧ 0 < identity.recordCount

/-- The acknowledged requests, in the order of the lines. -/
def acked (journals : JournalSet) : List RequestIdentity := journals.lines.filterMap ackOf

section

variable (finalState : FinalSystemState)

/-- The read-back has an answer for every record of the request. -/
def Answered (identity : RequestIdentity) : Prop :=
  ∀ index ∈ indices identity, ∃ there, finalState identity.tenant (recordKey identity.sourceIncarnation index) = .ok there

def absent (identity : RequestIdentity) (index : ℕ) : Bool :=
  match finalState identity.tenant (recordKey identity.sourceIncarnation index) with
  | .ok there => !there
  | .error _ => false

/-- What is reported of a request: the indices of its records that are absent. -/
def report (identity : RequestIdentity) : Option Finding :=
  let missing := (indices identity).filter (absent finalState identity ·)
  if missing = ∅ then none else some ⟨identity.requestId, identity.tenant, missing⟩

/-- The reports of the requests that have an absent record. -/
def reports (journals : JournalSet) : List Finding := (acked journals).filterMap (report finalState)

end

section

variable {debug : String → String} {finalState : FinalSystemState} {identity : RequestIdentity} {journals : JournalSet}

theorem mem_ackOf {line : JournalLine} : ackOf line = some identity ↔ line.event = .clientAck ∧
    line.identity = some identity ∧ startsWith identity.tenant systemTenantPrefix = false ∧ 0 < identity.recordCount := by
  rw [ackOf, Option.filter_eq_some_iff, decide_eq_true_eq]
  exact and_left_comm

theorem mem_acked : identity ∈ acked journals ↔ ∃ line ∈ journals.lines, line.event = .clientAck ∧
    line.identity = some identity ∧ startsWith identity.tenant systemTenantPrefix = false ∧ 0 < identity.recordCount := by
  rw [acked, List.mem_filterMap]
  exact exists_congr fun line => and_congr_right fun _ => mem_ackOf

theorem checkableAcks_eq (journals : JournalSet) : checkableAcks journals = acked journals := by
  rw [checkableAcks, JournalSet.identityEvents, List.map_filterMap, List.filter_filterMap, acked]
  refine List.filterMap_congr fun line _ => ?_
  cases hidentity : line.identity <;> by_cases hevent : line.event = .clientAck <;>
    simp [ackOf, hidentity, hevent, isCheckable, Option.filter]

/-- The loop over records ends when each of them has an answer, with those that are absent. -/
theorem foldlM_probe {l : List ℕ} {missing result : Finset ℕ} :
    l.foldlM (probe debug finalState identity) missing = .ok result ↔
      (∀ index ∈ l, ∃ there, finalState identity.tenant (recordKey identity.sourceIncarnation index) = .ok there) ∧
        result = missing ∪ l.toFinset.filter (absent finalState identity ·) := by
  induction l generalizing missing with
  | nil => simpa [pure, Except.pure] using eq_comm
  | cons index l ih =>
    rw [List.foldlM_cons, Fallible.bind_eq_ok, List.forall_mem_cons, List.toFinset_cons, Finset.filter_insert]
    cases hanswer : finalState identity.tenant (recordKey identity.sourceIncarnation index) with
    | error err => simp [probe, hanswer]
    | ok there =>
      cases there with
      | true => simp [probe, hanswer, ih, absent]
      | false =>
        simp only [probe, hanswer, Except.ok.injEq, exists_eq_left', ih]
        rw [Finset.insert_union, ← Finset.union_insert]
        simp [absent, hanswer]

theorem toFinset_range' (identity : RequestIdentity) :
    (List.range' identity.firstIndex identity.recordCount).toFinset = indices identity := by
  ext index
  simp [indices, List.mem_range'_1]

/-- One ack: its records are looked up, and what is absent is reported. -/
theorem checkAck_eq_ok {findings result : List Finding} : checkAck debug finalState findings identity = .ok result ↔
    Answered finalState identity ∧ result = findings ++ (report finalState identity).toList := by
  have hlast : identity.firstIndex + identity.recordCount - identity.firstIndex = identity.recordCount := by omega
  simp only [checkAck, Checked.add_eq identity.fits, hlast, Fallible.bind_eq_ok, foldlM_probe, toFinset_range',
    Finset.empty_union]
  have hanswered : (∀ index ∈ List.range' identity.firstIndex identity.recordCount,
      ∃ there, finalState identity.tenant (recordKey identity.sourceIncarnation index) = .ok there) ↔
      Answered finalState identity := by
    simp [Answered, ← toFinset_range']
  rw [hanswered]
  constructor
  · rintro ⟨_, ⟨hall, rfl⟩, h⟩
    refine ⟨hall, ?_⟩
    rw [← Except.ok.inj h, report]
    split_ifs <;> simp
  · rintro ⟨hall, rfl⟩
    refine ⟨_, ⟨hall, rfl⟩, ?_⟩
    rw [report]
    split_ifs <;> simp [pure, Except.pure]

theorem foldlM_checkAck {acks : List RequestIdentity} {findings result : List Finding} :
    acks.foldlM (checkAck debug finalState) findings = .ok result ↔
      (∀ identity ∈ acks, Answered finalState identity) ∧ result = findings ++ acks.filterMap (report finalState) := by
  induction acks generalizing findings with
  | nil => simp [pure, Except.pure, eq_comm]
  | cons identity acks ih =>
    simp only [List.foldlM_cons, Fallible.bind_eq_ok, checkAck_eq_ok, ih, List.forall_mem_cons, List.filterMap_cons]
    constructor
    · rintro ⟨_, ⟨hanswered, rfl⟩, hall, rfl⟩
      refine ⟨⟨hanswered, hall⟩, ?_⟩
      cases report finalState identity <;> simp
    · rintro ⟨⟨hanswered, hall⟩, rfl⟩
      refine ⟨_, ⟨hanswered, rfl⟩, hall, ?_⟩
      cases report finalState identity <;> simp

/-- The predicate's answer by what was acked and what the read-back says of it. -/
theorem check_cases (debug : String → String) (finalState : FinalSystemState) (journals : JournalSet) :
    ((∃ reason, check debug finalState journals = .noVerdict reason) ∧
      (acked journals = [] ∨ ∃ identity ∈ acked journals, ¬ Answered finalState identity)) ∨
    ((acked journals ≠ [] ∧ ∀ identity ∈ acked journals, Answered finalState identity) ∧
      ((check debug finalState journals = .pass (acked journals).length ∧ reports finalState journals = []) ∨
        (check debug finalState journals = .violation (reports finalState journals) ∧
          reports finalState journals ≠ []))) := by
  simp only [check, checkableAcks_eq, List.isEmpty_iff]
  by_cases hacked : acked journals = []
  · rw [if_pos hacked]
    exact .inl ⟨⟨_, rfl⟩, .inl hacked⟩
  rw [if_neg hacked]
  have hrun (result : List Finding) : (acked journals).foldlM (checkAck debug finalState) [] = .ok result ↔
      (∀ identity ∈ acked journals, Answered finalState identity) ∧
        result = [] ++ (acked journals).filterMap (report finalState) := foldlM_checkAck
  by_cases hall : ∀ identity ∈ acked journals, Answered finalState identity
  · rw [(hrun _).mpr ⟨hall, rfl⟩]
    refine .inr ⟨⟨hacked, hall⟩, ?_⟩
    simp only [List.nil_append]
    by_cases hreports : reports finalState journals = []
    · rw [reports] at hreports
      rw [if_pos hreports, Verdict.passing_of_pos (List.length_pos_iff.mpr hacked)]
      exact .inl ⟨rfl, hreports⟩
    · rw [reports] at hreports ⊢
      rw [if_neg hreports]
      exact .inr ⟨rfl, hreports⟩
  · cases hfold : (acked journals).foldlM (checkAck debug finalState) [] with
    | ok result => exact absurd ((hrun result).mp hfold).1 hall
    | error reason =>
      refine .inl ⟨⟨reason, rfl⟩, .inr ?_⟩
      simpa using hall

theorem isEmpty_reports : reports finalState journals = [] ↔
    ∀ identity ∈ acked journals, ∀ index ∈ indices identity, absent finalState identity index = false := by
  rw [reports, List.filterMap_eq_nil_iff]
  refine forall₂_congr fun identity _ => ?_
  simp [report, Finset.filter_eq_empty_iff]

/-- Where the read-back answers, a record that is not absent is there. -/
theorem present_iff {index : ℕ} (h : Answered finalState identity) (hindex : index ∈ indices identity) :
    absent finalState identity index = false ↔
      finalState identity.tenant (recordKey identity.sourceIncarnation index) = .ok true := by
  obtain ⟨there, hthere⟩ := h index hindex
  cases there <;> simp [absent, hthere]

/-- The same acks in another order get the same answer. -/
theorem check_perm {other : JournalSet} (h : other.lines.Perm journals.lines) :
    (check debug finalState other).Agree (check debug finalState journals) := by
  have hacked : (acked other).Perm (acked journals) := h.filterMap _
  have hreports : (reports finalState other).Perm (reports finalState journals) := hacked.filterMap _
  rcases check_cases debug finalState other with ⟨⟨reason, hcheck⟩, hwhy⟩ | ⟨⟨hne, hall⟩, hcheck⟩
  · rcases check_cases debug finalState journals with ⟨⟨reason', hcheck'⟩, -⟩ | ⟨⟨hne, hall⟩, -⟩
    · rw [hcheck, hcheck']
      exact .noVerdict reason reason'
    · rcases hwhy with hnil | ⟨identity, hmem, hnot⟩
      · exact absurd (List.nil_perm.mp (hnil ▸ hacked)) hne
      · exact absurd (hall identity (hacked.mem_iff.mp hmem)) hnot
  · rcases check_cases debug finalState journals with ⟨-, hnil | ⟨identity, hmem, hnot⟩⟩ | ⟨-, hcheck'⟩
    · exact absurd (List.perm_nil.mp (hnil ▸ hacked)) hne
    · exact absurd (hall identity (hacked.mem_iff.mpr hmem)) hnot
    · rcases hcheck with ⟨hcheck, hnone⟩ | ⟨hcheck, hsome⟩
      · rcases hcheck' with ⟨hcheck', -⟩ | ⟨-, hsome⟩
        · rw [hcheck, hcheck', hacked.length_eq]
          exact .pass _
        · exact absurd (List.nil_perm.mp (hnone ▸ hreports)) hsome
      · rcases hcheck' with ⟨-, hnone⟩ | ⟨hcheck', -⟩
        · exact absurd (List.perm_nil.mp (hnone ▸ hreports)) hsome
        · rw [hcheck, hcheck']
          exact .violation hreports

/-- A record key says whose record it is. -/
theorem recordKey_injective {sourceIncarnation sourceIncarnation' : String} {index index' : ℕ}
    (h : recordKey sourceIncarnation index = recordKey sourceIncarnation' index') :
    sourceIncarnation = sourceIncarnation' ∧ index = index' := by
  have hnodash : ∀ n : ℕ, '-' ∉ (toString n).toList.reverse := fun n hn =>
    not_mem_digits (by decide) n (List.mem_reverse.mp hn)
  have hreverse : (toString index).toList.reverse ++ '-' :: sourceIncarnation.toList.reverse =
      (toString index').toList.reverse ++ '-' :: sourceIncarnation'.toList.reverse := by
    simpa [recordKey] using congrArg (fun key => key.toList.reverse) h
  -- read from its end, a key's index stops at the first dash
  obtain ⟨hindex, hincarnation⟩ := cut_unique (hnodash index) (hnodash index') hreverse
  exact ⟨String.toList_injective (List.reverse_injective hincarnation),
    toString_injective (List.reverse_injective hindex)⟩

/-- Decoding takes an identity exactly when its index range has an end. -/
theorem identityFromRest_accepts {rest : Members} {fields : IdentityFields} (hkey : "request_id" ∈ rest.keys)
    (hfields : IdentityFields.ofMembers rest = some fields) : (∃ identity, identityFromRest rest = .ok (some identity)) ↔
      (fields.firstIndex : ℕ) + fields.recordCount < 2 ^ 64 := by
  simp only [identityFromRest_eq_ok, Announces, hkey, true_and]
  constructor
  · rintro ⟨_, read, hread, hrest, -⟩
    cases hfields.symm.trans hrest
    exact hread
  · exact fun hfits => ⟨_, fields, hfits, hfields, rfl⟩

theorem not_answered_iff : ¬ Answered finalState identity ↔ ∃ index ∈ indices identity, ∃ err,
    finalState identity.tenant (recordKey identity.sourceIncarnation index) = .error err := by
  simp only [Answered, not_forall, exists_prop]
  refine exists_congr fun index => and_congr_right fun _ => ?_
  cases finalState identity.tenant (recordKey identity.sourceIncarnation index) <;> simp

end

/-- **Zero acked lost is exact.** Nothing is certified exactly when no request was acked or the query of an acked record
    fails. Otherwise the run passes when every acked record is there, and else each request with absent records is
    reported with their indices. Decoding accepts an identity exactly when its index range ends, and then a request with
    records has a range that is not empty; two records never share a key; and the same lines in another order get the same
    answer, up to the order of the reports and the wording of a reason. -/
theorem zero_acked_lost_exact (debug : String → String) (finalState : FinalSystemState) (journals : JournalSet) :
    ((check debug finalState journals).Inconclusive ↔ acked journals = [] ∨
      ∃ identity ∈ acked journals, ∃ index ∈ indices identity, ∃ err,
        finalState identity.tenant (recordKey identity.sourceIncarnation index) = .error err) ∧
    (¬ (check debug finalState journals).Inconclusive →
      ((∃ n, check debug finalState journals = .pass n) ↔ ∀ identity ∈ acked journals, ∀ index ∈ indices identity,
        finalState identity.tenant (recordKey identity.sourceIncarnation index) = .ok true) ∧
      ((∃ n, check debug finalState journals = .pass n) → check debug finalState journals = .pass (acked journals).length) ∧
      ((¬ ∃ n, check debug finalState journals = .pass n) →
        check debug finalState journals = .violation (reports finalState journals))) ∧
    (∀ rest fields, "request_id" ∈ rest.keys → IdentityFields.ofMembers rest = some fields →
      ((∃ identity, identityFromRest rest = .ok (some identity)) ↔
        (fields.firstIndex : ℕ) + fields.recordCount < 2 ^ 64)) ∧
    (∀ rest identity, identityFromRest rest = .ok (some identity) → 0 < identity.recordCount →
      ∃ last, Checked.add 64 identity.firstIndex identity.recordCount = some last ∧ identity.firstIndex < last ∧
        indices identity = Finset.Ico identity.firstIndex last) ∧
    (∀ sourceIncarnation index sourceIncarnation' index',
      recordKey sourceIncarnation index = recordKey sourceIncarnation' index' →
        sourceIncarnation = sourceIncarnation' ∧ index = index') ∧
    ∀ other : JournalSet, other.lines.Perm journals.lines →
      (check debug finalState other).Agree (check debug finalState journals) := by
  refine ⟨?_, fun hconclusive => ?_, fun _ _ => identityFromRest_accepts, fun rest identity _ hpos => ?_,
    fun _ _ _ _ => recordKey_injective, fun other => check_perm⟩
  · simp only [← not_answered_iff]
    rcases check_cases debug finalState journals with ⟨⟨reason, hcheck⟩, hwhy⟩ | ⟨⟨hne, hall⟩, hcheck⟩
    · rw [hcheck]
      exact iff_of_true trivial hwhy
    · refine iff_of_false ?_ ?_
      · rcases hcheck with ⟨hcheck, -⟩ | ⟨hcheck, -⟩ <;> rw [hcheck] <;> exact not_false
      · rintro (hnil | ⟨identity, hmem, hnot⟩)
        · exact hne hnil
        · exact hnot (hall identity hmem)
  · rcases check_cases debug finalState journals with ⟨⟨reason, hcheck⟩, -⟩ | ⟨⟨-, hall⟩, hcheck⟩
    · rw [hcheck] at hconclusive
      exact absurd trivial hconclusive
    have hpresent : reports finalState journals = [] ↔ ∀ identity ∈ acked journals, ∀ index ∈ indices identity,
        finalState identity.tenant (recordKey identity.sourceIncarnation index) = .ok true := by
      rw [isEmpty_reports]
      exact forall₂_congr fun identity hmem => forall₂_congr fun index hindex =>
        present_iff (hall identity hmem) hindex
    rw [← hpresent]
    rcases hcheck with ⟨hcheck, hnone⟩ | ⟨hcheck, hsome⟩
    · simp [hcheck, hnone]
    · simp [hcheck, hsome]
  · refine ⟨_, Checked.add_eq identity.fits, ?_, rfl⟩
    omega

/-! ### The order of the reports -/

def lostRequest (requestId : String) (firstIndex : Fin 8) : RequestIdentity where
  requestId := requestId
  tenant := "acme"
  recordCount := 1
  firstIndex := firstIndex
  sourceIncarnation := "loadgen-0-1"
  partition := none
  maxEventTimeMs := none
  fits := by omega

def ackLine (node : String) (identity : RequestIdentity) : JournalLine :=
  { node := ⟨node⟩, seq := 0, event := .clientAck, identity := some identity }

/-- Two requests that are lost, each acknowledged by a member of its own. -/
def lostAcks : List JournalLine :=
  [ackLine "loadgen-0" (lostRequest "r0" 0), ackLine "loadgen-1" (lostRequest "r1" 7)]

/-- The lines the other way round give the same reports in the other order. -/
theorem report_order_follows_lines :
    check id (fun _ _ => .ok false) ⟨lostAcks⟩ = .violation [⟨"r0", "acme", {0}⟩, ⟨"r1", "acme", {7}⟩] ∧
    check id (fun _ _ => .ok false) ⟨lostAcks.reverse⟩ = .violation [⟨"r1", "acme", {7}⟩, ⟨"r0", "acme", {0}⟩] := by
  constructor
  · decide +kernel
  · decide +kernel

end ZeroAckedLost

end Duckspout
