import Duckspout.Accept.Otlp
import Duckspout.Lib.Threads
import Mathlib.Algebra.BigOperators.Fin
import Mathlib.Algebra.Order.BigOperators.Group.Finset

/-! The OTLP logs service (`duckspout-accept/src/server.rs`): admission, the call of the staging port and the
    answer, for any number of requests at once over one counter of bytes in flight.

    An atomic operation on the counter is one step, and so is the call of the port, whose result is open:
    an outcome, an error, or none where the request is dropped or panics while it waits. Rust drops the
    guard on each of these ways. The trace journal is left out. -/

namespace Duckspout

open Threads Protocol

/-! ### The error table (`duckspout-types/src/otlp.rs`) -/

inductive GrpcCode where
  | invalidArgument
  | unavailable
  | resourceExhausted
  deriving DecidableEq, Repr

inductive OtlpErrorClass where
  | malformedPermanent
  | payloadTooLarge
  | inflightOverCap
  | throttled
  | refusingIngest
  | receiptShortfall
  | duplicateInFlight
  | storageFailure
  deriving DecidableEq, Repr

def OtlpErrorClass.grpcCode : OtlpErrorClass → GrpcCode
  | .malformedPermanent => .invalidArgument
  | .payloadTooLarge => .resourceExhausted
  | .inflightOverCap | .throttled | .refusingIngest | .receiptShortfall | .duplicateInFlight | .storageFailure =>
    .unavailable

def OtlpErrorClass.carriesRetryInfo (c : OtlpErrorClass) : Bool := c.grpcCode = .unavailable

/-- A gRPC status, with the retry delay of its `RetryInfo` detail. -/
structure Status where
  code : GrpcCode
  message : String
  retryInfo : Option ℕ
  deriving DecidableEq, Repr

def toTonicStatus (c : OtlpErrorClass) (detail : String) (retryAfterMs : ℕ) : Status where
  code := c.grpcCode
  message := "duckspout: " ++ detail
  retryInfo := if c.carriesRetryInfo then some retryAfterMs else none

/-! ### The service -/

def tenantMetadataKey : String := "x-scope-orgid"

def idempotencyMetadataKey : String := "x-duckspout-idempotency-key"

def defaultRetryDelayMs : ℕ := throttleRetryMinMs

structure AdmissionConfig where
  maxPayloadBytes : ℕ
  maxInflightBytes : U64
  deriving DecidableEq, Repr

/-- A request: its two metadata values, each none where absent and `some none` where it is not text, and
    its message with the length it is encoded in. -/
structure ExportCall where
  tenant : Option (Option String)
  idempotencyKey : Option (Option String)
  encodedLen : ℕ
  message : ExportLogsServiceRequest

def metadataStr (value : Option (Option String)) (key : String) : Except Status (Option String) :=
  match value with
  | none => .ok none
  | some (some text) => .ok (some text)
  | some none => .error (toTonicStatus .malformedPermanent ("metadata " ++ key ++ " is not valid UTF-8") 0)

def reject (error : AcceptError) : Status := toTonicStatus .malformedPermanent error.text 0

/-- The rendered port error. -/
def StageError.text : StageError → String
  | .malformedRecords text => "records are not a decodable Arrow IPC stream: " ++ text
  | .backend text => "staging backend: " ++ text
  | .throttled ms => "throttled: staging at rung 2, retry in " ++ toString ms ++ " ms"
  | .refusingIngest ms => "refusing ingest: staging at rung 3, retry in " ++ toString ms ++ " ms"

def stageStatus (error : StageError) : Status :=
  match error with
  | .throttled ms => toTonicStatus .throttled error.text ms
  | .refusingIngest ms => toTonicStatus .refusingIngest error.text ms
  | .malformedRecords _ | .backend _ => toTonicStatus .storageFailure error.text defaultRetryDelayMs

/-- The warning of a fully accepted request: no rejected records, and a message. -/
def strindexWarning (strindexIgnored : ℕ) : Option (ℕ × String) :=
  if strindexIgnored > 0 then
    some (0, "ignored " ++ toString strindexIgnored ++ " profiling-only string-interning reference(s) " ++
      "(*_strindex); logs carry no string table — values treated as absent")
  else none

/-- What precedes the guard: metadata, the payload cap, the decode. -/
def receiveExport (lib : OtlpLibraries) (admission : AdmissionConfig) (call : ExportCall) : Except Status DecodedLogs := do
  let tenantHeader ← metadataStr call.tenant tenantMetadataKey
  let idempotencyKey ← metadataStr call.idempotencyKey idempotencyMetadataKey
  if call.encodedLen > admission.maxPayloadBytes then
    throw (toTonicStatus .payloadTooLarge ("payload " ++ toString call.encodedLen ++ " B over max_payload_bytes " ++
      toString admission.maxPayloadBytes) 0)
  (decodeLogs lib call.message tenantHeader idempotencyKey).mapError reject

/-- The steps of a request that others can come between. The counter is subtracted from where a refused
    admission undoes its addition, and where a guard is dropped. -/
inductive InflightOp where
  | fetchAdd (bytes : U64)
  | undo (bytes : U64)
  | stageCommit (batch : DecodedBatch)
  | release (bytes : U64)

abbrev InflightOp.Res : InflightOp → Type
  | .fetchAdd _ => U64
  | .undo _ => U64
  | .stageCommit _ => Option (Except StageError StageOutcome)
  | .release _ => U64

abbrev ExportProg := Prog InflightOp InflightOp.Res

/-- `records.len() as u64`. -/
def guardBytes (batch : DecodedBatch) : U64 := Fin.ofNat (2 ^ 64) batch.records.length

/-- The comparison of an admission, on the counter before its addition. -/
def overCap (previous bytes max : U64) : Prop := min ((previous : ℕ) + bytes) u64Max > max

instance (previous bytes max : U64) : Decidable (overCap previous bytes max) :=
  inferInstanceAs (Decidable (min ((previous : ℕ) + bytes) u64Max > max))

/-- `InflightGuard::admit`. -/
def guardAdmission (bytes max : U64) : ExportProg (Except Status Unit) := do
  let previous ← Prog.perform (.fetchAdd bytes)
  if overCap previous bytes max then
    let _ ← Prog.perform (.undo bytes)
    return .error (toTonicStatus .inflightOverCap
      ("decoded bytes in flight over admission.max_inflight_bytes " ++ toString max) defaultRetryDelayMs)
  else return .ok ()

/-- The answer to a resolved port call. -/
def stageReply : Except StageError StageOutcome → Except Status Unit
  | .error error => .error (stageStatus error)
  | .ok (.committed _) => .ok ()
  | .ok (.duplicateAcked _) => .ok ()
  | .ok .duplicateInFlight =>
    .error (toTonicStatus .duplicateInFlight "duplicate of an in-flight request (§4.4.1)" defaultRetryDelayMs)

/-- The block that owns the guard: however the port call ends, the guard is dropped. -/
def stageGuarded (batch : DecodedBatch) : ExportProg (Option (Except Status Unit)) := do
  let outcome : Option (Except StageError StageOutcome) ← Prog.perform (InflightOp.stageCommit batch)
  let _ ← Prog.perform (.release (guardBytes batch))
  return outcome.map stageReply

/-- `export`; its warning is all that a success carries. No answer leaves a request that was dropped. -/
def exportLogs (lib : OtlpLibraries) (admission : AdmissionConfig) (call : ExportCall) :
    ExportProg (Option (Except Status (Option (ℕ × String)))) := do
  match receiveExport lib admission call with
  | .error status => return some (.error status)
  | .ok decoded =>
    let warning := strindexWarning decoded.strindexIgnored
    if decoded.rows > 0 then
      match ← guardAdmission (guardBytes decoded.batch) admission.maxInflightBytes with
      | .error status => return some (.error status)
      | .ok _ =>
        let reply ← stageGuarded decoded.batch
        return reply.map fun r => r.map fun _ => warning
    else return some (.ok warning)

/-- `n` places for requests over one counter; each serves one request after another. -/
def exports (n : ℕ) (lib : OtlpLibraries) (admission : AdmissionConfig) :
    Threads (Fin n) ExportCall (Option (Except StageError StageOutcome)) Empty U64 InflightOp InflightOp.Res
      (Option (Except Status (Option (ℕ × String)))) where
  program _ call := exportLogs lib admission call
  exec _ o outcome counter :=
    match o with
    | .fetchAdd bytes => (counter, counter + bytes)
    | .undo bytes => (counter, counter - bytes)
    | .release bytes => (counter, counter - bytes)
    | .stageCommit _ => (outcome, counter)
  move _ counter := counter
  stops _ _ := false

abbrev ExportEvent (n : ℕ) := Event (Fin n) ExportCall (Option (Except StageError StageOutcome)) Empty

abbrev ExportPool (n : ℕ) :=
  Pool (Fin n) ExportCall U64 InflightOp InflightOp.Res (Option (Except Status (Option (ℕ × String))))

/-! ### The bytes of a request -/

/-- The decoded bytes of a request. -/
def exportSize (lib : OtlpLibraries) (admission : AdmissionConfig) (call : ExportCall) : ℕ :=
  match receiveExport lib admission call with
  | .error _ => 0
  | .ok decoded => decoded.batch.records.length

section Account

variable {α : Type}

/-- The bytes of the guard a program holds: it waits for the port, or is about to drop the guard. -/
def heldBytes : ExportProg α → ℕ
  | .call (.stageCommit batch) _ => guardBytes batch
  | .call (.release bytes) _ => bytes
  | _ => 0

/-- The bytes a refused admission has still to undo. -/
def undoneBytes : ExportProg α → ℕ
  | .call (.undo bytes) _ => bytes
  | _ => 0

end Account

/-- A sum over the requests in progress. -/
def inProgress {n : ℕ} (p : ExportPool n)
    (f : ExportCall → ExportProg (Option (Except Status (Option (ℕ × String)))) → ℕ) : ℕ :=
  ∑ t, (p.running t).elim 0 fun r => f r.job r.prog

/-- What a program has outstanding at the counter. -/
inductive Owed where
  | nothing
  | held (bytes : U64)
  | undone (bytes : U64)

namespace Owed

def heldPart : Owed → ℕ
  | .held b => b
  | _ => 0

def undonePart : Owed → ℕ
  | .undone b => b
  | _ => 0

end Owed

/-- What the steps of a request of `size` bytes do to what it has outstanding. -/
def inflightProtocol (size : ℕ) (max : U64) : Protocol InflightOp InflightOp.Res Owed where
  pre
    | .fetchAdd bytes, k => k = .nothing ∧ (bytes : ℕ) ≤ size
    | .undo bytes, k => k = .undone bytes
    | .stageCommit batch, k => k = .held (guardBytes batch)
    | .release bytes, k => k = .held bytes
  next
    | .fetchAdd bytes, _, previous, k' => k' = if overCap previous bytes max then .undone bytes else .held bytes
    | .undo _, _, _, k' => k' = .nothing
    | .stageCommit _, k, _, k' => k' = k
    | .release _, _, _, k' => k' = .nothing

/-- A request begins and ends with nothing outstanding. -/
theorem wp_exportLogs (lib : OtlpLibraries) (admission : AdmissionConfig) (call : ExportCall) :
    (inflightProtocol (exportSize lib admission call) admission.maxInflightBytes).Wp
      (exportLogs lib admission call) (fun _ k => k = .nothing) .nothing := by
  rw [exportLogs, exportSize]
  cases receiveExport lib admission call with
  | error status => exact wp_pure rfl
  | ok decoded =>
    dsimp only
    split_ifs with hrows
    · have hbytes : (guardBytes decoded.batch : ℕ) ≤ decoded.batch.records.length := Nat.mod_le _ _
      refine wp_bind (wp_bind (wp_perform ⟨rfl, hbytes⟩ fun previous k hk => ?_))
      dsimp only [inflightProtocol] at hk
      split_ifs with hover
      · -- refused: the addition is undone
        rw [if_pos hover] at hk
        exact wp_bind (wp_perform hk fun _ k hk => wp_pure (wp_pure hk))
      · -- admitted: the guard is held through the port call and then dropped
        rw [if_neg hover] at hk
        refine wp_pure (wp_bind (wp_bind (wp_perform hk fun outcome k' hk' => ?_)))
        exact wp_bind (wp_perform (hk'.trans hk) fun _ k hk => wp_pure (wp_pure hk))
    · exact wp_pure rfl

/-- What a program has outstanding can be read off its next step. -/
theorem owed_of_wp {size : ℕ} {max : U64} {α : Type} {x : ExportProg α} {k : Owed}
    (h : (inflightProtocol size max).Wp x (fun _ k => k = .nothing) k) :
    heldBytes x = k.heldPart ∧ undoneBytes x = k.undonePart := by
  cases x with
  | ret a =>
    rw [show k = .nothing from h]
    exact ⟨rfl, rfl⟩
  | call o next =>
    have hpre := h.1
    cases o with
    | fetchAdd bytes =>
      rw [show k = .nothing from hpre.1]
      exact ⟨rfl, rfl⟩
    | undo bytes =>
      rw [show k = .undone bytes from hpre]
      exact ⟨rfl, rfl⟩
    | stageCommit batch =>
      rw [show k = .held (guardBytes batch) from hpre]
      exact ⟨rfl, rfl⟩
    | release bytes =>
      rw [show k = .held bytes from hpre]
      exact ⟨rfl, rfl⟩

/-! ### Any interleaving -/

section Pool

variable {n : ℕ} {lib : OtlpLibraries} {admission : AdmissionConfig} {p : ExportPool n}

/-- The counter accounts for the guards held and the refusals not undone, and the guards held are within
    the maximum. -/
structure InflightAccount (lib : OtlpLibraries) (admission : AdmissionConfig) (p : ExportPool n) : Prop where
  owed : ∀ t r, p.running t = some r → ∃ k,
    (inflightProtocol (exportSize lib admission r.job) admission.maxInflightBytes).Wp r.prog (fun _ k => k = .nothing) k ∧
      k.heldPart + k.undonePart ≤ exportSize lib admission r.job
  counter : (p.shared : ℕ) = inProgress p (fun _ => heldBytes) + inProgress p fun _ => undoneBytes
  within : inProgress p (fun _ => heldBytes) ≤ admission.maxInflightBytes

/-- The requests in progress are together below `2^64` bytes. -/
def SizesFit (lib : OtlpLibraries) (admission : AdmissionConfig) (p : ExportPool n) : Prop :=
  inProgress p (fun call _ => exportSize lib admission call) < 2 ^ 64

instance (lib : OtlpLibraries) (admission : AdmissionConfig) (p : ExportPool n) : Decidable (SizesFit lib admission p) :=
  inferInstanceAs (Decidable (_ < _))

/-- Replacing the program of one place replaces its share of a sum. -/
theorem inProgress_update {q : ExportPool n} (t : Fin n) (v : Option (Running ExportCall InflightOp InflightOp.Res
    (Option (Except Status (Option (ℕ × String))))))
    (hq : q.running = Function.update p.running t v)
    (f : ExportCall → ExportProg (Option (Except Status (Option (ℕ × String)))) → ℕ) :
    inProgress q f + (p.running t).elim 0 (fun r => f r.job r.prog) =
      inProgress p f + v.elim 0 fun r => f r.job r.prog := by
  have hrest : ∑ u ∈ Finset.univ.erase t, (q.running u).elim 0 (fun r => f r.job r.prog) =
      ∑ u ∈ Finset.univ.erase t, (p.running u).elim 0 fun r => f r.job r.prog := by
    refine Finset.sum_congr rfl fun u hu => ?_
    rw [hq, Function.update_of_ne (Finset.ne_of_mem_erase hu)]
  have hself : q.running t = v := by rw [hq, Function.update_self]
  rw [inProgress, inProgress, ← Finset.add_sum_erase _ _ (Finset.mem_univ t),
    ← Finset.add_sum_erase Finset.univ (fun u => (p.running u).elim 0 fun r => f r.job r.prog) (Finset.mem_univ t),
    hrest, hself]
  omega

/-- A sum over smaller shares is smaller by at least the difference at one place. -/
theorem inProgress_le {t : Fin n} {r : Running ExportCall InflightOp InflightOp.Res
    (Option (Except Status (Option (ℕ × String))))} (hr : p.running t = some r)
    {f g : ExportCall → ExportProg (Option (Except Status (Option (ℕ × String)))) → ℕ}
    (hle : ∀ u r, p.running u = some r → f r.job r.prog ≤ g r.job r.prog) :
    inProgress p f + g r.job r.prog ≤ inProgress p g + f r.job r.prog := by
  have hrest : ∑ u ∈ Finset.univ.erase t, (p.running u).elim 0 (fun r => f r.job r.prog) ≤
      ∑ u ∈ Finset.univ.erase t, (p.running u).elim 0 fun r => g r.job r.prog := by
    refine Finset.sum_le_sum fun u _ => ?_
    cases hu : p.running u with
    | none => exact le_rfl
    | some r => exact hle u r hu
  rw [inProgress, inProgress, ← Finset.add_sum_erase _ _ (Finset.mem_univ t),
    ← Finset.add_sum_erase Finset.univ (fun u => (p.running u).elim 0 fun r => g r.job r.prog) (Finset.mem_univ t), hr]
  simp only [Option.elim_some]
  omega

/-- A step of one place: what it has outstanding changes with the counter, and what it holds grows only
    within the maximum. -/
theorem InflightAccount.advance (h : InflightAccount lib admission p) {t : Fin n} {r : Running ExportCall InflightOp InflightOp.Res
    (Option (Except Status (Option (ℕ × String))))} (hr : p.running t = some r) {q : ExportPool n}
    {x : ExportProg (Option (Except Status (Option (ℕ × String))))} {k k' : Owed}
    (hq : q.running = Function.update p.running t (some ⟨r.id, r.job, x⟩))
    (hwp : (inflightProtocol (exportSize lib admission r.job) admission.maxInflightBytes).Wp r.prog
      (fun _ k => k = .nothing) k)
    (hwp' : (inflightProtocol (exportSize lib admission r.job) admission.maxInflightBytes).Wp x
      (fun _ k => k = .nothing) k')
    (hsize : k'.heldPart + k'.undonePart ≤ exportSize lib admission r.job)
    (hcount : (q.shared : ℕ) + k.heldPart + k.undonePart = p.shared + k'.heldPart + k'.undonePart)
    (hheld : k'.heldPart ≤ k.heldPart ∨ p.shared + k'.heldPart ≤ admission.maxInflightBytes) :
    InflightAccount lib admission q := by
  have hfrom := owed_of_wp hwp
  have hto := owed_of_wp hwp'
  have hheldSum := inProgress_update t _ hq fun _ => heldBytes
  have hundoneSum := inProgress_update t _ hq fun _ => undoneBytes
  have hcounter := h.counter
  have hwithin := h.within
  simp only [hr, Option.elim_some, hfrom.1, hfrom.2, hto.1, hto.2] at hheldSum hundoneSum
  refine ⟨fun u r' hu => ?_, by omega, by omega⟩
  rw [hq] at hu
  rcases eq_or_ne u t with rfl | hne
  · rw [Function.update_self, Option.some.injEq] at hu
    subst hu
    exact ⟨k', hwp', hsize⟩
  · rw [Function.update_of_ne hne] at hu
    exact h.owed u r' hu

/-- A place with nothing outstanding may be emptied, or filled with a request that has nothing
    outstanding. -/
theorem InflightAccount.replace (h : InflightAccount lib admission p) {t : Fin n} {q : ExportPool n}
    {v : Option (Running ExportCall InflightOp InflightOp.Res (Option (Except Status (Option (ℕ × String)))))}
    (hq : q.running = Function.update p.running t v) (hshared : q.shared = p.shared)
    (hold : ∀ r, p.running t = some r → heldBytes r.prog = 0 ∧ undoneBytes r.prog = 0)
    (hnew : ∀ r, v = some r → (inflightProtocol (exportSize lib admission r.job) admission.maxInflightBytes).Wp r.prog
      (fun _ k => k = .nothing) .nothing) : InflightAccount lib admission q := by
  have hheldSum := inProgress_update t v hq fun _ => heldBytes
  have hundoneSum := inProgress_update t v hq fun _ => undoneBytes
  have hcounter := h.counter
  have hwithin := h.within
  have hzero : ((p.running t).elim 0 fun r => heldBytes r.prog) = 0 ∧
      ((p.running t).elim 0 fun r => undoneBytes r.prog) = 0 := by
    cases hr : p.running t with
    | none => exact ⟨rfl, rfl⟩
    | some r => exact hold r hr
  have hzero' : (v.elim 0 fun r => heldBytes r.prog) = 0 ∧ (v.elim 0 fun r => undoneBytes r.prog) = 0 := by
    cases v with
    | none => exact ⟨rfl, rfl⟩
    | some r => exact owed_of_wp (hnew r rfl)
  rw [← hshared] at hcounter
  refine ⟨fun u r hu => ?_, by omega, by omega⟩
  rw [hq] at hu
  rcases eq_or_ne u t with rfl | hne
  · rw [Function.update_self] at hu
    exact ⟨.nothing, hnew r hu, Nat.zero_le _⟩
  · rw [Function.update_of_ne hne] at hu
    exact h.owed u r hu

/-- The counter does not wrap: a request about to add its bytes has them among the sizes in progress. -/
theorem InflightAccount.room (h : InflightAccount lib admission p) (hfit : SizesFit lib admission p) {t : Fin n}
    {r : Running ExportCall InflightOp InflightOp.Res (Option (Except Status (Option (ℕ × String))))}
    (hr : p.running t = some r) (hnone : heldBytes r.prog + undoneBytes r.prog = 0) :
    (p.shared : ℕ) + exportSize lib admission r.job < 2 ^ 64 := by
  have hle := inProgress_le hr (f := fun _ x => heldBytes x + undoneBytes x)
    (g := fun call _ => exportSize lib admission call) fun u r hu => by
      obtain ⟨k, hwp, hk⟩ := h.owed u r hu
      obtain ⟨hheld, hundone⟩ := owed_of_wp hwp
      rw [hheld, hundone]
      exact hk
  have hsum : inProgress p (fun _ x => heldBytes x + undoneBytes x) =
      inProgress p (fun _ => heldBytes) + inProgress p fun _ => undoneBytes := by
    simp only [inProgress, ← Finset.sum_add_distrib]
    refine Finset.sum_congr rfl fun u _ => ?_
    cases p.running u with
    | none => rfl
    | some r => rfl
  have hcounter := h.counter
  rw [SizesFit] at hfit
  omega

/-- What a place has outstanding is part of what the counter holds. -/
theorem InflightAccount.part_le (h : InflightAccount lib admission p) {t : Fin n}
    {r : Running ExportCall InflightOp InflightOp.Res (Option (Except Status (Option (ℕ × String))))}
    (hr : p.running t = some r) {k : Owed}
    (hwp : (inflightProtocol (exportSize lib admission r.job) admission.maxInflightBytes).Wp r.prog
      (fun _ k => k = .nothing) k) : k.heldPart + k.undonePart ≤ p.shared := by
  have hout := owed_of_wp hwp
  have hcounter := h.counter
  have hheld := inProgress_le hr (f := fun _ _ => 0) (g := fun _ => heldBytes) fun _ _ _ => Nat.zero_le _
  have hundone := inProgress_le hr (f := fun _ _ => 0) (g := fun _ => undoneBytes) fun _ _ _ => Nat.zero_le _
  rw [hout.1] at hheld
  rw [hout.2] at hundone
  omega

/-- A place takes back all it has outstanding. -/
theorem InflightAccount.takeBack (h : InflightAccount lib admission p) {t : Fin n} {r : Running ExportCall InflightOp
    InflightOp.Res (Option (Except Status (Option (ℕ × String))))} (hr : p.running t = some r) {q : ExportPool n}
    {x : ExportProg (Option (Except Status (Option (ℕ × String))))} {k : Owed} {bytes : U64}
    (hq : q.running = Function.update p.running t (some ⟨r.id, r.job, x⟩)) (hshared : q.shared = p.shared - bytes)
    (hwp : (inflightProtocol (exportSize lib admission r.job) admission.maxInflightBytes).Wp r.prog
      (fun _ k => k = .nothing) k)
    (hwp' : (inflightProtocol (exportSize lib admission r.job) admission.maxInflightBytes).Wp x
      (fun _ k => k = .nothing) .nothing)
    (hbytes : k.heldPart + k.undonePart = bytes) : InflightAccount lib admission q := by
  have hpart := h.part_le hr hwp
  refine h.advance hr hq hwp hwp' (Nat.zero_le _) ?_ (.inl (Nat.zero_le _))
  rw [hshared, Fin.sub_val_of_le (by rw [Fin.le_def]; omega)]
  change _ = (p.shared : ℕ) + 0 + 0
  omega

/-- A request's next operation. -/
theorem inflightAccount_exec (h : InflightAccount lib admission p) (hfit : SizesFit lib admission p) {t : Fin n}
    {i : ℕ} {call : ExportCall} {o : InflightOp}
    {next : o.Res → ExportProg (Option (Except Status (Option (ℕ × String))))}
    (hu : p.running t = some ⟨i, call, .call o next⟩) (c : Option (Except StageError StageOutcome)) :
    InflightAccount lib admission ((exports n lib admission).step p (.act t c)) := by
  obtain ⟨k, hwp, hsize⟩ := h.owed t _ hu
  obtain ⟨hpre, hnext⟩ := id hwp
  dsimp only at hsize hwp hpre hnext
  have hrun : ((exports n lib admission).step p (.act t c)).running = Function.update p.running t
      (some ⟨i, call, next ((exports n lib admission).exec t o c p.shared).1⟩) := by
    simp only [step, hu]
  have hshared : ((exports n lib admission).step p (.act t c)).shared =
      ((exports n lib admission).exec t o c p.shared).2 := shared_act hu
  cases o with
  | fetchAdd bytes =>
    obtain ⟨rfl, hbytes⟩ := hpre
    have hroom := h.room hfit hu rfl
    dsimp only at hroom
    have hadd : ((p.shared + bytes : U64) : ℕ) = p.shared + bytes := by
      rw [Fin.val_add]
      exact Nat.mod_eq_of_lt (by omega)
    have hover : overCap p.shared bytes admission.maxInflightBytes ↔
        (p.shared : ℕ) + bytes > admission.maxInflightBytes := by
      rw [overCap, min_eq_left (by rw [u64Max]; omega)]
    refine h.advance hu hrun hwp (hnext p.shared _ rfl) ?_ ?_ ?_
    · split_ifs <;> simpa [Owed.heldPart, Owed.undonePart] using hbytes
    · rw [hshared]
      dsimp only [exports]
      rw [hadd]
      split_ifs <;> simp [Owed.heldPart, Owed.undonePart]
    · split_ifs with hc
      · exact .inl (Nat.zero_le _)
      · rw [hover, not_lt] at hc
        exact .inr hc
  | undo bytes =>
    obtain rfl : k = .undone bytes := hpre
    exact h.takeBack hu hrun hshared hwp (hnext p.shared _ rfl) (Nat.zero_add _)
  | stageCommit batch =>
    refine h.advance hu hrun hwp (hnext c _ rfl) hsize ?_ (.inl le_rfl)
    rw [hshared]
    rfl
  | release bytes =>
    obtain rfl : k = .held bytes := hpre
    exact h.takeBack hu hrun hshared hwp (hnext p.shared _ rfl) (Nat.add_zero _)

/-- One event. -/
theorem inflightAccount_step (h : InflightAccount lib admission p) (hfit : SizesFit lib admission p) (e : ExportEvent n) :
    InflightAccount lib admission ((exports n lib admission).step p e) := by
  cases e with
  | env v => exact v.elim
  | start t call =>
    cases hu : p.running t with
    | some r =>
      have hstep : (exports n lib admission).step p (.start t call) = p := by simp only [step, hu]
      rw [hstep]
      exact h
    | none =>
      refine h.replace (t := t) (v := some ⟨p.started.length, call, exportLogs lib admission call⟩) ?_ ?_ ?_ ?_
      · simp only [step, hu]
        rfl
      · simp only [step, hu]
        rfl
      · intro r hr
        rw [hu] at hr
        cases hr
      · intro r hr
        cases hr
        exact wp_exportLogs lib admission call
  | act t c =>
    rcases hu : p.running t with _ | ⟨i, call, a | ⟨o, next⟩⟩
    · have hstep : (exports n lib admission).step p (.act t c) = p := by simp only [step, hu]
      rw [hstep]
      exact h
    · refine h.replace (t := t) (v := none) ?_ ?_ ?_ (fun r hr => by cases hr)
      · simp only [step, hu]
      · simp only [step, hu]
      · intro r hr
        rw [hu] at hr
        cases hr
        exact ⟨rfl, rfl⟩
    · exact inflightAccount_exec h hfit hu c

/-- **The in-flight budget** is never exceeded and never leaks: in every interleaving of any number of
    requests whose sizes in progress fit 64 bits, the guards held are within the maximum, the counter is
    the bytes held and the bytes of refusals not yet undone, and it is zero when no request is in
    progress. -/
theorem inflight_budget (n : ℕ) (lib : OtlpLibraries) (admission : AdmissionConfig) (es : List (ExportEvent n))
    (hfit : (exports n lib admission).Admissible (fun p _ => SizesFit lib admission p) { shared := 0 } es) :
    let p := (exports n lib admission).run { shared := 0 } es
    inProgress p (fun _ => heldBytes) ≤ admission.maxInflightBytes ∧
      (p.shared : ℕ) = inProgress p (fun _ => heldBytes) + inProgress p (fun _ => undoneBytes) ∧
      ((∀ t, p.running t = none) → p.shared = 0) := by
  intro p
  have hinit : InflightAccount lib admission ({ shared := 0 } : ExportPool n) := by
    refine ⟨fun t r hr => ?_, ?_, ?_⟩
    · cases hr
    · simp [inProgress]
    · simp [inProgress]
  have hacc : InflightAccount lib admission p :=
    invariant_run (J := InflightAccount lib admission) (fun q e hq hok => inflightAccount_step hq hok e) hinit hfit
  refine ⟨hacc.within, hacc.counter, fun hidle => Fin.ext ?_⟩
  rw [hacc.counter]
  simp [inProgress, hidle]

/-- Every request of one record decodes to two bytes. -/
def twoByteLibraries : OtlpLibraries := ⟨fun _ => "json", fun _ => .ok [1, 2], fun _ => true⟩

def smallCall : ExportCall := ⟨none, none, 10, oneRecord [] []⟩

/-- Of two requests of two bytes under a maximum of three, the second adds its bytes while the first holds
    its guard, and undoes them only after the first has been dropped at the port. -/
def overlap : List (ExportEvent 2) :=
  [.start 0 smallCall, .start 1 smallCall, .act 0 none, .act 1 none, .act 0 none, .act 0 none]

theorem inflight_budget_overlap :
    let p := (exports 2 twoByteLibraries ⟨100, 3⟩).run { shared := 0 } overlap
    inProgress p (fun _ => heldBytes) = 0 ∧ inProgress p (fun _ => undoneBytes) = 2 ∧ p.shared = 2 ∧
      inProgress p (fun _ => heldBytes) ≤ 3 := by
  intro p
  have h := inflight_budget 2 twoByteLibraries ⟨100, 3⟩ overlap (by decide +kernel)
  exact ⟨by decide +kernel, by decide +kernel, by decide +kernel, h.1⟩

end Pool

end Duckspout
