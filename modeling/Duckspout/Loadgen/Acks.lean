import Duckspout.Loadgen.Journal

/-! What the load generator makes of the answers of the logs service: an ack that it takes for one is an ack of the staging
    port, for the rows of the records that it sent, and no answer of the service passes for a lost connection. -/

namespace Duckspout

namespace Loadgen

open Threads Protocol

def codeOf : GrpcCode → Code
  | .invalidArgument => .invalidArgument
  | .unavailable => .unavailable
  | .resourceExhausted => .resourceExhausted

/-- An answer of the service as the client sees it. -/
def answered : Except Status (Option (ℕ × String)) → RaceOutcome
  | .ok warning => .settled (.ok (warning.map fun w => ⟨w.1, w.2⟩))
  | .error status => .settled (.error ⟨codeOf status.code, status.message, status.retryInfo⟩)

/-- The call that carries the request of an identity. -/
def RequestIdentity.exportCall (identity : RequestIdentity) (encodedLen : ℕ) : ExportCall :=
  ⟨some (some identity.tenant), some (some identity.requestId), encodedLen, identity.request⟩

/-! ### Answers -/

theorem resolve_error (c : OtlpErrorClass) (detail : String) (retryAfterMs : ℕ) :
    resolve (answered (.error (toTonicStatus c detail retryAfterMs))) = .rejected := by
  cases c <;> rfl

theorem resolve_ok (strindexIgnored : ℕ) : resolve (answered (.ok (strindexWarning strindexIgnored))) = .acked := by
  rw [strindexWarning]
  split_ifs
  · rfl
  · rfl

/-- A refusal has a row of the error table behind it. -/
def Tabled (status : Status) : Prop := ∃ c detail ms, status = toTonicStatus c detail ms

theorem tabled_metadata {value : Option (Option String)} {key : String} {status : Status}
    (h : metadataStr value key = .error status) : Tabled status := by
  rcases value with _ | _ | text
  · cases h
  · exact ⟨_, _, _, (Except.error.inj h).symm⟩
  · cases h

theorem tabled_receiveExport {lib : OtlpLibraries} {admission : AdmissionConfig} {call : ExportCall} {status : Status}
    (h : receiveExport lib admission call = .error status) : Tabled status := by
  rw [receiveExport] at h
  cases htenant : metadataStr call.tenant tenantMetadataKey with
  | error refusal =>
    rw [htenant] at h
    cases h
    exact tabled_metadata htenant
  | ok tenant =>
    cases hkey : metadataStr call.idempotencyKey idempotencyMetadataKey with
    | error refusal =>
      rw [htenant, hkey] at h
      cases h
      exact tabled_metadata hkey
    | ok key =>
      rw [htenant, hkey] at h
      change (if call.encodedLen > admission.maxPayloadBytes then Except.error _ else
        (decodeLogs lib call.message tenant key).mapError reject) = _ at h
      split_ifs at h with hlarge
      · exact ⟨_, _, _, (Except.error.inj h).symm⟩
      · cases hdecode : decodeLogs lib call.message tenant key with
        | error refusal =>
          rw [hdecode] at h
          exact ⟨_, _, _, (Except.error.inj h).symm⟩
        | ok decoded =>
          rw [hdecode] at h
          cases h

theorem tabled_stageReply (outcome : Except StageError StageOutcome) {status : Status}
    (h : stageReply outcome = .error status) : Tabled status := by
  rcases outcome with error | outcome
  · obtain rfl := Except.error.inj h
    cases error <;> exact ⟨_, _, _, rfl⟩
  · cases outcome with
    | committed coverage => cases h
    | duplicateAcked coverage => cases h
    | duplicateInFlight => exact ⟨_, _, _, (Except.error.inj h).symm⟩

section

variable (lib : OtlpLibraries) (admission : AdmissionConfig)

/-- An answer is a row of the error table, or an ack of all rows: of none, or of rows that the staging port took, from this
    call or an earlier one with its key. -/
def Honest (call : ExportCall) (Took : DecodedBatch → StageOutcome → Prop) (answer : Except Status (Option (ℕ × String))) :
    Prop :=
  (∃ status, answer = .error status ∧ Tabled status) ∨
    ∃ decoded, receiveExport lib admission call = .ok decoded ∧ answer = .ok (strindexWarning decoded.strindexIgnored) ∧
      (decoded.rows = 0 ∨ ∃ outcome, Took decoded.batch outcome ∧ outcome ≠ .duplicateInFlight)

/-- What a request has heard from the staging port. -/
abbrev Heard := Option (DecodedBatch × Except StageError StageOutcome)

def hearing : Protocol InflightOp InflightOp.Res Heard where
  pre _ _ := True
  next
    | .stageCommit batch, _, r, k' => k' = r.map fun outcome => (batch, outcome)
    | .fetchAdd _, k, _, k' => k' = k
    | .undo _, k, _, k' => k' = k
    | .release _, k, _, k' => k' = k

theorem wp_hearing (call : ExportCall) : hearing.Wp (exportLogs lib admission call)
    (fun a k => ∀ answer, a = some answer →
      Honest lib admission call (fun batch outcome => k = some (batch, .ok outcome)) answer) none := by
  rw [exportLogs]
  cases hreceive : receiveExport lib admission call with
  | error status =>
    refine wp_pure fun answer h => ?_
    obtain rfl := Option.some.inj h
    exact .inl ⟨status, rfl, tabled_receiveExport hreceive⟩
  | ok decoded =>
    dsimp only
    split_ifs with hrows
    · refine wp_bind (wp_bind (wp_perform trivial fun previous k hk => ?_))
      split_ifs with hover
      · refine wp_bind (wp_perform trivial fun _ k _ => wp_pure (wp_pure fun answer h => ?_))
        obtain rfl := Option.some.inj h
        exact .inl ⟨_, rfl, _, _, _, rfl⟩
      · refine wp_pure (wp_bind (wp_bind (wp_perform trivial fun outcome k hk => ?_)))
        refine wp_bind (wp_perform trivial fun _ k' hk' => wp_pure (wp_pure fun answer h => ?_))
        have hheard : k' = outcome.map fun o => (decoded.batch, o) := hk'.trans hk
        rcases outcome with _ | error | outcome
        · cases h
        · obtain rfl := Option.some.inj h
          exact .inl ⟨_, rfl, tabled_stageReply (.error error) rfl⟩
        · cases outcome with
          | committed coverage | duplicateAcked coverage =>
            obtain rfl := Option.some.inj h
            exact .inr ⟨decoded, hreceive, rfl, .inr ⟨_, hheard, StageOutcome.noConfusion⟩⟩
          | duplicateInFlight =>
            obtain rfl := Option.some.inj h
            exact .inl ⟨_, rfl, tabled_stageReply (.ok .duplicateInFlight) rfl⟩
    · refine wp_pure fun answer h => ?_
      obtain rfl := Option.some.inj h
      exact .inr ⟨decoded, hreceive, rfl, .inl (Nat.eq_zero_of_not_pos hrows)⟩

variable (n : ℕ)

/-- In the history, the staging port answered that call's batch with an outcome. -/
def PortAnswered (history : List (ExportEvent n)) (id : ℕ) (call : ExportCall) (batch : DecodedBatch)
    (outcome : StageOutcome) : Prop :=
  ∃ before after t next, history = before ++ .act t (some (.ok outcome)) :: after ∧
    ((exports n lib admission).run { shared := 0 } before).running t = some ⟨id, call, .call (.stageCommit batch) next⟩

def hearingContract : Contract (exports n lib admission) { shared := 0 } Heard where
  ok _ _ := True
  inv _ := True
  knows history _ id call k := ∀ batch outcome, k = some (batch, .ok outcome) →
    PortAnswered lib admission n history id call batch outcome
  proto _ := hearing
  post call a k := ∀ answer, a = some answer →
    Honest lib admission call (fun batch outcome => k = some (batch, .ok outcome)) answer
  done history id call a := ∀ answer, a = some answer →
    Honest lib admission call (PortAnswered lib admission n history id call) answer

variable {lib admission n}

theorem Honest.mono {call : ExportCall} {Took Took' : DecodedBatch → StageOutcome → Prop}
    (hTook : ∀ batch outcome, Took batch outcome → Took' batch outcome) {answer : Except Status (Option (ℕ × String))}
    (h : Honest lib admission call Took answer) : Honest lib admission call Took' answer := by
  rcases h with hrefused | ⟨decoded, hreceive, hanswer, hnone | ⟨outcome, htook, houtcome⟩⟩
  · exact .inl hrefused
  · exact .inr ⟨decoded, hreceive, hanswer, .inl hnone⟩
  · exact .inr ⟨decoded, hreceive, hanswer, .inr ⟨outcome, hTook _ _ htook, houtcome⟩⟩

theorem PortAnswered.concat {history : List (ExportEvent n)} {id : ℕ} {call : ExportCall} {batch : DecodedBatch}
    {outcome : StageOutcome} (h : PortAnswered lib admission n history id call batch outcome) (e : ExportEvent n) :
    PortAnswered lib admission n (history ++ [e]) id call batch outcome := by
  obtain ⟨before, after, t, next, rfl, hrun⟩ := h
  exact ⟨before, after ++ [e], t, next, by simp, hrun⟩

theorem hearing_sound : (hearingContract lib admission n).Sound where
  init := trivial
  start h t j _ _ _ _ := ⟨none, (fun _ _ hk => by cases hk), wp_hearing lib admission j⟩
  exec h t c id call o next k _ _ hrun hknows _ := by
    refine ⟨trivial, ?_⟩
    have hkept : ∀ batch outcome, k = some (batch, .ok outcome) →
        PortAnswered lib admission n (h ++ [.act t c]) id call batch outcome :=
      fun batch outcome hk => (hknows batch outcome hk).concat _
    cases o with
    | stageCommit batch =>
      refine ⟨c.map fun outcome => (batch, outcome), fun batch' outcome hk => ?_, rfl⟩
      obtain ⟨_, rfl, heq⟩ := Option.map_eq_some_iff.mp hk
      obtain ⟨rfl, rfl⟩ := Prod.mk.inj heq
      exact ⟨h, [], t, next, rfl, hrun⟩
    | fetchAdd bytes | undo bytes | release bytes => exact ⟨k, hkept, rfl⟩
  idle _ _ _ _ _ := trivial
  env _ _ _ _ := trivial
  stable _ _ _ _ _ _ _ _ _ _ _ hknows batch outcome hk := (hknows batch outcome hk).concat _
  ret h t c id call a k _ hknows hpost answer ha := by
    refine (hpost answer ha).mono fun batch outcome hk => ?_
    exact (hknows batch outcome hk).concat _
  done_stable h e id call a _ hdone answer ha := (hdone answer ha).mono fun _ _ hport => hport.concat e

/-! ### The request of the load generator -/

theorem tenantFromHeader_some {lib : OtlpLibraries} {raw : String} {tenant : TenantId}
    (h : tenantFromHeader lib (some raw) = .ok tenant) : tenant = ⟨raw⟩ := by
  rw [tenantFromHeader] at h
  split_ifs at h with hlength hsystem
  · split at h
    · cases h
    · cases h
  · split at h
    · cases h
    · exact (Except.ok.inj h).symm

theorem receiveExport_ok {identity : RequestIdentity} {encodedLen : ℕ} {decoded : DecodedLogs}
    (h : receiveExport lib admission (identity.exportCall encodedLen) = .ok decoded) :
    decodeLogs lib identity.request (some identity.tenant) (some identity.requestId) = .ok decoded := by
  rw [receiveExport] at h
  change (if encodedLen > admission.maxPayloadBytes then Except.error _ else
    (decodeLogs lib identity.request (some identity.tenant) (some identity.requestId)).mapError reject) = _ at h
  split_ifs at h
  exact Fallible.mapError_eq_ok.mp h

/-- The rows of the records of a request, which come without a resource and without a scope. -/
def sentRows (lib : OtlpLibraries) (identity : RequestIdentity) : List LogRow :=
  (sentRecords identity.request).map fun record => rowOf lib (none, none, record)

/-- The request of an identity decodes to the rows of its records, each with its key among its attributes. -/
theorem decodeLogs_request {identity : RequestIdentity} {decoded : DecodedLogs}
    (h : decodeLogs lib identity.request (some identity.tenant) (some identity.requestId) = .ok decoded) :
    decoded.rows = identity.recordCount ∧ decoded.batch.tenant = ⟨identity.tenant⟩ ∧
      decoded.batch.idempotencyKey = some identity.requestId ∧
      lib.ipcStream (.ofRows (sentRows lib identity)) = .ok decoded.batch.records ∧
      (sentRows lib identity).map (·.attrs) =
        identity.keys.map fun key => lib.jsonText (.object [("loadgen.index", .string key)]) := by
  have hfold := flattenResources_ofRows lib identity.request.resourceLogs [] 0
  rw [List.nil_append, Nat.zero_add] at hfold
  rw [decodeLogs] at h
  simp only [show ({} : LogColumns) = .ofRows [] from rfl, hfold, Fallible.bind_eq_ok] at h
  obtain ⟨tenant, htenant, records, hrecords, h⟩ := h
  obtain rfl := Except.ok.inj h
  obtain rfl := tenantFromHeader_some htenant
  rw [intoIpcStream, Fallible.mapError_eq_ok] at hrecords
  have hflatten : identity.request.resourceLogs.flatMap ResourceLogs.flatten =
      (sentRecords identity.request).map fun record => (none, none, record) := by
    simp [sentRecords, RequestIdentity.request, syntheticBatch, ResourceLogs.flatten, ScopeLogs.flatten]
  have hsent : sentRecords identity.request = (List.range identity.recordCount).map fun i =>
      syntheticRecord identity.sourceIncarnation (identity.firstIndex + Fin.ofNat (2 ^ 64) i) :=
    sentRecords_syntheticBatch _ _ _
  rw [hflatten, List.map_map] at hrecords
  refine ⟨?_, rfl, rfl, hrecords, ?_⟩
  · rw [hflatten, hsent]
    simp [LogColumns.len, LogColumns.ofRows]
  · rw [sentRows, RequestIdentity.keys, hsent]
    have hkey : ∀ i, (indexAttribute ∘ fun i =>
        syntheticRecord identity.sourceIncarnation (identity.firstIndex + Fin.ofNat (2 ^ 64) i)) i =
          some (ZeroAckedLost.recordKey identity.sourceIncarnation (identity.firstIndex + Fin.ofNat (2 ^ 64) i : U64)) :=
      fun _ => rfl
    simp only [List.map_map, List.filterMap_map, List.filterMap_congr fun i _ => hkey i, List.filterMap_eq_map']
    rfl

end

/-- In any run of the logs service, every answer is an ack or a rejection to the load generator, none a lost connection. And
    when it takes an answer to a request with records for an ack, the staging port answered that very call, in that run, that
    it has taken a batch: its tenant and its key are the request's, and its columns are those of the records sent, in order,
    each with the key that the judge looks it up by. -/
theorem acks_staged (n : ℕ) (lib : OtlpLibraries) (admission : AdmissionConfig) (es : List (ExportEvent n)) :
    ∀ x ∈ ((exports n lib admission).run { shared := 0 } es).returned, ∀ answer, x.2.2 = some answer →
      (resolve (answered answer) = .acked ∨ resolve (answered answer) = .rejected) ∧
      ∀ identity encodedLen, x.2.1 = RequestIdentity.exportCall identity encodedLen → 0 < (identity.recordCount : ℕ) →
        resolve (answered answer) = .acked → ∃ batch outcome,
          PortAnswered lib admission n es x.1 x.2.1 batch outcome ∧ outcome ≠ .duplicateInFlight ∧
          batch.tenant = ⟨identity.tenant⟩ ∧ batch.idempotencyKey = some identity.requestId ∧
          lib.ipcStream (.ofRows (sentRows lib identity)) = .ok batch.records ∧
          (sentRows lib identity).map (·.attrs) =
            identity.keys.map fun key => lib.jsonText (.object [("loadgen.index", .string key)]) := by
  intro x hx answer hanswer
  have hsound : (hearingContract lib admission n).Sound := hearing_sound
  have hvalid := hsound.valid_run (fun _ => rfl) rfl es (admissible_of_forall (fun _ _ _ => trivial) _)
  rcases hvalid.results x hx answer hanswer with ⟨status, rfl, c, detail, ms, rfl⟩ | ⟨decoded, hreceive, rfl, htook⟩
  · rw [resolve_error]
    exact ⟨.inr rfl, fun _ _ _ _ h => by cases h⟩
  · rw [resolve_ok]
    refine ⟨.inl rfl, fun identity encodedLen hcall hcount _ => ?_⟩
    rw [hcall] at hreceive
    obtain ⟨hrows, htenant, hkey, hrecords, hattrs⟩ := decodeLogs_request (receiveExport_ok hreceive)
    rcases htook with hnone | ⟨outcome, hport, houtcome⟩
    · omega
    · exact ⟨decoded.batch, outcome, hport, houtcome, htenant, hkey, hrecords, hattrs⟩

def ackedIdentity : RequestIdentity := ⟨"loadgen-0-7-1", "acme", 2, 2, "loadgen-0-7"⟩

/-- One request of two records, which the port commits. -/
def ackedExport : List (ExportEvent 1) :=
  [.start 0 (ackedIdentity.exportCall 300), .act 0 none, .act 0 (some (.ok (.committed []))), .act 0 none, .act 0 none]

theorem acks_staged_ackedExport : ∃ batch outcome,
    PortAnswered twoByteLibraries ⟨1000, 100⟩ 1 ackedExport 0 (ackedIdentity.exportCall 300) batch outcome ∧
      outcome ≠ .duplicateInFlight ∧ batch.tenant = ⟨"acme"⟩ ∧ batch.idempotencyKey = some "loadgen-0-7-1" ∧
      twoByteLibraries.ipcStream (.ofRows (sentRows twoByteLibraries ackedIdentity)) = .ok batch.records ∧
      (sentRows twoByteLibraries ackedIdentity).map (·.attrs) =
        ackedIdentity.keys.map fun key => twoByteLibraries.jsonText (.object [("loadgen.index", .string key)]) := by
  have hreturned : ((exports 1 twoByteLibraries ⟨1000, 100⟩).run { shared := 0 } ackedExport).returned =
      [(0, ackedIdentity.exportCall 300, some (.ok none))] := by
    rfl
  have hlast := acks_staged 1 twoByteLibraries ⟨1000, 100⟩ ackedExport (0, ackedIdentity.exportCall 300, some (.ok none))
    (by rw [hreturned]; exact List.mem_cons_self) (.ok none) rfl
  exact hlast.2 ackedIdentity 300 rfl (by decide) rfl

end Loadgen

end Duckspout
