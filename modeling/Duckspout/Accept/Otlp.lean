import Duckspout.Staging.Stager
import Mathlib.Algebra.GroupWithZero.Nat

/-! The OTLP logs adapter (`duckspout-accept/src/otlp.rs`): an export request flattened into one row per
    log record, in fourteen parallel columns.

    The JSON renderer and the Arrow writer are libraries and stand as parameters. A count of ignored
    string-index references is threaded through the conversion as the source threads its `&mut u64`;
    each one takes bytes of the request, so the count is a natural. -/

namespace Duckspout

/-! ### The request -/

mutual

/-- An attribute value or a body; `empty` is a message without a value. A double is its bits. -/
inductive AnyValue where
  | empty
  | string (s : String)
  | bool (b : Bool)
  | int (i : ℤ)
  | double (bits : UInt64)
  | array (values : List AnyValue)
  | kvlist (values : List KeyValue)
  | bytes (b : List UInt8)
  | stringStrindex (index : ℤ)

/-- An attribute. A nonzero `keyStrindex` refers the key to a string table. -/
inductive KeyValue where
  | mk (key : String) (value : Option AnyValue) (keyStrindex : ℤ)

end

structure LogRecord where
  timeUnixNano : U64
  observedTimeUnixNano : U64
  severityNumber : ℤ
  severityText : String
  body : Option AnyValue
  attributes : List KeyValue
  droppedAttributesCount : ℕ
  flags : ℕ
  traceId : List UInt8
  spanId : List UInt8
  eventName : String

structure InstrumentationScope where
  name : String
  version : String
  attributes : List KeyValue

structure ScopeLogs where
  scope : Option InstrumentationScope
  logRecords : List LogRecord

structure Resource where
  attributes : List KeyValue

structure ResourceLogs where
  resource : Option Resource
  scopeLogs : List ScopeLogs

structure ExportLogsServiceRequest where
  resourceLogs : List ResourceLogs

/-! ### Values to JSON -/

/-- A JSON value; an object lists its entries by key. -/
inductive Json where
  | null
  | bool (b : Bool)
  | int (i : ℤ)
  | double (bits : UInt64)
  | string (s : String)
  | array (values : List Json)
  | object (entries : List (String × Json))

/-- An insertion into an object: the entry of a key is replaced. -/
def insertEntry (key : String) (value : Json) : List (String × Json) → List (String × Json)
  | [] => [(key, value)]
  | (k, v) :: rest =>
    if key < k then (key, value) :: (k, v) :: rest
    else if key = k then (key, value) :: rest
    else (k, v) :: insertEntry key value rest

/-- Collects pairs into an object. -/
def collectObject (pairs : List (String × Json)) : Json :=
  .object (pairs.foldl (fun entries (key, value) => insertEntry key value entries) [])

/-- Whether a double is a number of JSON: its exponent is not all ones. -/
def isFinite (bits : UInt64) : Bool := bits.toNat / 2 ^ 52 % 2 ^ 11 ≠ 2 ^ 11 - 1

def hex (bytes : List UInt8) : String :=
  String.ofList (bytes.flatMap fun b => [Nat.digitChar (b.toNat / 16), Nat.digitChar (b.toNat % 16)])

mutual

def anyValueToJson : AnyValue → ℕ → Json × ℕ
  | .string s, ignored => (.string s, ignored)
  | .bool b, ignored => (.bool b, ignored)
  | .int i, ignored => (.int i, ignored)
  | .double bits, ignored => (if isFinite bits then .double bits else .null, ignored)
  | .array values, ignored =>
    let out := valuesToJson values ignored
    (.array out.1, out.2)
  | .kvlist values, ignored =>
    let out := kvPairs values ignored
    (collectObject out.1, out.2)
  | .bytes b, ignored => (.string (hex b), ignored)
  | .stringStrindex _, ignored => (.null, ignored + 1)
  | .empty, ignored => (.null, ignored)

def valuesToJson : List AnyValue → ℕ → List Json × ℕ
  | [], ignored => ([], ignored)
  | v :: rest, ignored =>
    let head := anyValueToJson v ignored
    let tail := valuesToJson rest head.2
    (head.1 :: tail.1, tail.2)

/-- The pairs an attribute list has; one whose key is a reference is dropped with its value. -/
def kvPairs : List KeyValue → ℕ → List (String × Json) × ℕ
  | [], ignored => ([], ignored)
  | .mk key none keyStrindex :: rest, ignored =>
    if keyStrindex ≠ 0 then kvPairs rest (ignored + 1)
    else
      let tail := kvPairs rest ignored
      ((key, .null) :: tail.1, tail.2)
  | .mk key (some v) keyStrindex :: rest, ignored =>
    if keyStrindex ≠ 0 then kvPairs rest (ignored + 1)
    else
      let head := anyValueToJson v ignored
      let tail := kvPairs rest head.2
      ((key, head.1) :: tail.1, tail.2)

end

def kvsToJson (kvs : List KeyValue) (ignored : ℕ) : Json × ℕ :=
  let out := kvPairs kvs ignored
  (collectObject out.1, out.2)

/-! ### Rows -/

/-- The fourteen columns, filled row by row. -/
structure LogColumns where
  ts : List ℤ := []
  observedTs : List (Option ℤ) := []
  severityNumber : List ℤ := []
  severityText : List (Option String) := []
  body : List (Option String) := []
  attrs : List String := []
  resourceAttrs : List String := []
  scopeName : List (Option String) := []
  scopeVersion : List (Option String) := []
  traceId : List (Option String) := []
  spanId : List (Option String) := []
  flags : List ℕ := []
  eventName : List (Option String) := []
  droppedAttributesCount : List ℕ := []

def LogColumns.len (c : LogColumns) : ℕ := c.ts.length

/-- The libraries: the JSON renderer, the Arrow writer with its error texts, and the Unicode tables that say
    which characters beyond ASCII a quoted text shows as they are (the printable ones that extend no grapheme). -/
structure OtlpLibraries where
  jsonText : Json → String
  ipcStream : LogColumns → Except String (List UInt8)
  shownPlain : Char → Bool

def nanosToMicros (nanos : ℕ) : ℤ := min (nanos / 1000) (2 ^ 63 - 1)

def someNonempty (raw : String) : Option String := if raw = "" then none else some raw

def someHex (bytes : List UInt8) : Option String := if bytes = [] then none else some (hex bytes)

/-- Strings stay strings, anything else is its JSON text; nothing and a reference are null. -/
def bodyToString (lib : OtlpLibraries) (body : AnyValue) (ignored : ℕ) : Option String × ℕ :=
  match body with
  | .string s => (some s, ignored)
  | .stringStrindex _ => (none, ignored + 1)
  | .empty => (none, ignored)
  | other =>
    let out := anyValueToJson other ignored
    (some (lib.jsonText out.1), out.2)

/-- Event time, or the collector's observed time where the producer had none. -/
def eventNanos (record : LogRecord) : ℕ :=
  if record.timeUnixNano ≠ 0 then record.timeUnixNano else record.observedTimeUnixNano

def observedMicros (record : LogRecord) : Option ℤ :=
  if record.observedTimeUnixNano = 0 then none else some (nanosToMicros record.observedTimeUnixNano)

def LogColumns.push (lib : OtlpLibraries) (record : LogRecord) (resourceAttrs : String)
    (scopeName scopeVersion : Option String) (state : LogColumns × ℕ) : LogColumns × ℕ :=
  let c := state.1
  let body := record.body.elim (none, state.2) fun b => bodyToString lib b state.2
  let attrs := kvsToJson record.attributes body.2
  ({ ts := c.ts ++ [nanosToMicros (eventNanos record)]
     observedTs := c.observedTs ++ [observedMicros record]
     severityNumber := c.severityNumber ++ [record.severityNumber]
     severityText := c.severityText ++ [someNonempty record.severityText]
     body := c.body ++ [body.1]
     attrs := c.attrs ++ [lib.jsonText attrs.1]
     resourceAttrs := c.resourceAttrs ++ [resourceAttrs]
     scopeName := c.scopeName ++ [scopeName]
     scopeVersion := c.scopeVersion ++ [scopeVersion]
     traceId := c.traceId ++ [someHex record.traceId]
     spanId := c.spanId ++ [someHex record.spanId]
     flags := c.flags ++ [record.flags]
     eventName := c.eventName ++ [someNonempty record.eventName]
     droppedAttributesCount := c.droppedAttributesCount ++ [record.droppedAttributesCount] }, attrs.2)

/-! ### The adapter -/

inductive AcceptError where
  | malformed (text : String)
  | invalidTenant (text : String)
  deriving DecidableEq, Repr

/-- The rendered error. -/
def AcceptError.text : AcceptError → String
  | .malformed text => "malformed payload: " ++ text
  | .invalidTenant text => "invalid tenant identity: " ++ text

def otlpLogsDataset : DatasetId := ⟨"otlp_logs"⟩

def anonymousTenant : TenantId := ⟨"anonymous"⟩

def tenantMaxLen : ℕ := 150

/-- A character a tenant header may have. -/
def tenantChar (c : Char) : Bool := c.isAlphanum || c == '.' || c == '_' || c == '-'

/-- A character as the error quotes it. -/
def charDebug (lib : OtlpLibraries) (c : Char) : String :=
  if c = '\t' then "'\\t'"
  else if c = '\r' then "'\\r'"
  else if c = '\n' then "'\\n'"
  else if c = '\'' then "'\\''"
  else if c = '\\' then "'\\\\'"
  else if c.toNat = 0 then "'\\0'"
  else if c.toNat < 32 ∨ c.toNat = 127 ∨ 127 < c.toNat ∧ lib.shownPlain c = false then
    "'\\u\x7b" ++ String.ofList (Nat.toDigits 16 c.toNat) ++ "\x7d'"
  else "'" ++ c.toString ++ "'"

/-- Validates the tenant header; its length is counted in bytes. -/
def tenantFromHeader (lib : OtlpLibraries) : Option String → Except AcceptError TenantId
  | none => .ok anonymousTenant
  | some raw =>
    if raw = "" ∨ raw.utf8ByteSize > tenantMaxLen then
      .error (.invalidTenant ("length " ++ toString raw.utf8ByteSize ++ " outside 1..=" ++ toString tenantMaxLen))
    else
      match raw.toList.find? fun c => !tenantChar c with
      | some bad => .error (.invalidTenant ("character " ++ charDebug lib bad ++ " outside [A-Za-z0-9._-]"))
      | none =>
        if raw.toList.head? = some '_' then
          .error (.invalidTenant "leading '_' is reserved for system tenants (§2.2)")
        else .ok ⟨raw⟩

/-- The batch with what the response discloses. -/
structure DecodedLogs where
  batch : DecodedBatch
  rows : ℕ
  strindexIgnored : ℕ
  deriving DecidableEq, Repr

def flattenScope (lib : OtlpLibraries) (resourceAttrs : String) (state : LogColumns × ℕ) (scopeLogs : ScopeLogs) :
    LogColumns × ℕ :=
  let scopeName := scopeLogs.scope.bind fun s => someNonempty s.name
  let scopeVersion := scopeLogs.scope.bind fun s => someNonempty s.version
  scopeLogs.logRecords.foldl (fun state record => LogColumns.push lib record resourceAttrs scopeName scopeVersion state)
    state

def flattenResource (lib : OtlpLibraries) (state : LogColumns × ℕ) (resourceLogs : ResourceLogs) : LogColumns × ℕ :=
  let attrs := resourceLogs.resource.elim ("{}", state.2) fun r =>
    let out := kvsToJson r.attributes state.2
    (lib.jsonText out.1, out.2)
  resourceLogs.scopeLogs.foldl (flattenScope lib attrs.1) (state.1, attrs.2)

def intoIpcStream (lib : OtlpLibraries) (columns : LogColumns) : Except AcceptError (List UInt8) :=
  (lib.ipcStream columns).mapError .malformed

def decodeLogs (lib : OtlpLibraries) (request : ExportLogsServiceRequest) (tenantHeader idempotencyKey : Option String) :
    Except AcceptError DecodedLogs := do
  let tenant ← tenantFromHeader lib tenantHeader
  let state := request.resourceLogs.foldl (flattenResource lib) ({}, 0)
  let records ← intoIpcStream lib state.1
  return ⟨⟨otlpLogsDataset, tenant, idempotencyKey, records⟩, state.1.len, state.2⟩

/-! ### What a request says -/

/-- One row of the columns. -/
structure LogRow where
  ts : ℤ
  observedTs : Option ℤ
  severityNumber : ℤ
  severityText : Option String
  body : Option String
  attrs : String
  resourceAttrs : String
  scopeName : Option String
  scopeVersion : Option String
  traceId : Option String
  spanId : Option String
  flags : ℕ
  eventName : Option String
  droppedAttributesCount : ℕ

/-- The columns of a list of rows. -/
def LogColumns.ofRows (rows : List LogRow) : LogColumns where
  ts := rows.map (·.ts)
  observedTs := rows.map (·.observedTs)
  severityNumber := rows.map (·.severityNumber)
  severityText := rows.map (·.severityText)
  body := rows.map (·.body)
  attrs := rows.map (·.attrs)
  resourceAttrs := rows.map (·.resourceAttrs)
  scopeName := rows.map (·.scopeName)
  scopeVersion := rows.map (·.scopeVersion)
  traceId := rows.map (·.traceId)
  spanId := rows.map (·.spanId)
  flags := rows.map (·.flags)
  eventName := rows.map (·.eventName)
  droppedAttributesCount := rows.map (·.droppedAttributesCount)

/-- The lengths of all columns. -/
def LogColumns.lengths (c : LogColumns) : List ℕ :=
  [c.ts.length, c.observedTs.length, c.severityNumber.length, c.severityText.length, c.body.length, c.attrs.length,
    c.resourceAttrs.length, c.scopeName.length, c.scopeVersion.length, c.traceId.length, c.spanId.length,
    c.flags.length, c.eventName.length, c.droppedAttributesCount.length]

/-- An attribute list as JSON text. -/
def attributesText (lib : OtlpLibraries) (kvs : List KeyValue) : String := lib.jsonText (kvsToJson kvs 0).1

/-- The row of a record, from its own resource and scope. -/
def rowOf (lib : OtlpLibraries) (origin : Option Resource × Option InstrumentationScope × LogRecord) : LogRow where
  ts := nanosToMicros (eventNanos origin.2.2)
  observedTs := observedMicros origin.2.2
  severityNumber := origin.2.2.severityNumber
  severityText := someNonempty origin.2.2.severityText
  body := origin.2.2.body.bind fun b => (bodyToString lib b 0).1
  attrs := attributesText lib origin.2.2.attributes
  resourceAttrs := origin.1.elim "{}" fun r => attributesText lib r.attributes
  scopeName := origin.2.1.bind fun s => someNonempty s.name
  scopeVersion := origin.2.1.bind fun s => someNonempty s.version
  traceId := someHex origin.2.2.traceId
  spanId := someHex origin.2.2.spanId
  flags := origin.2.2.flags
  eventName := someNonempty origin.2.2.eventName
  droppedAttributesCount := origin.2.2.droppedAttributesCount

def ScopeLogs.flatten (resource : Option Resource) (scopeLogs : ScopeLogs) :
    List (Option Resource × Option InstrumentationScope × LogRecord) :=
  scopeLogs.logRecords.map fun record => (resource, scopeLogs.scope, record)

def ResourceLogs.flatten (resourceLogs : ResourceLogs) :
    List (Option Resource × Option InstrumentationScope × LogRecord) :=
  resourceLogs.scopeLogs.flatMap (ScopeLogs.flatten resourceLogs.resource)

/-- The records in document order, each with its resource and scope. -/
def ExportLogsServiceRequest.flatten (request : ExportLogsServiceRequest) :
    List (Option Resource × Option InstrumentationScope × LogRecord) :=
  request.resourceLogs.flatMap ResourceLogs.flatten

mutual

/-- The string-index references in a value. Below an attribute whose key is one, the value is entered
    only by a `deep` count. -/
def AnyValue.references (deep : Bool) : AnyValue → ℕ
  | .stringStrindex _ => 1
  | .array values => valuesReferences deep values
  | .kvlist values => kvsReferences deep values
  | _ => 0

def valuesReferences (deep : Bool) : List AnyValue → ℕ
  | [] => 0
  | v :: rest => v.references deep + valuesReferences deep rest

def kvsReferences (deep : Bool) : List KeyValue → ℕ
  | [] => 0
  | .mk _ none keyStrindex :: rest => (if keyStrindex ≠ 0 then 1 else 0) + kvsReferences deep rest
  | .mk _ (some v) keyStrindex :: rest =>
    (if keyStrindex ≠ 0 then 1 + (if deep then v.references deep else 0) else v.references deep) +
      kvsReferences deep rest

end

def LogRecord.references (deep : Bool) (record : LogRecord) : ℕ :=
  record.body.elim 0 (·.references deep) + kvsReferences deep record.attributes

/-- The references of a scope's group, with or without those in the scope's own attributes. -/
def ScopeLogs.references (deep scopes : Bool) (scopeLogs : ScopeLogs) : ℕ :=
  (if scopes then scopeLogs.scope.elim 0 fun s => kvsReferences deep s.attributes else 0) +
    (scopeLogs.logRecords.map (LogRecord.references deep)).sum

def ResourceLogs.references (deep scopes : Bool) (resourceLogs : ResourceLogs) : ℕ :=
  (resourceLogs.resource.elim 0 fun r => kvsReferences deep r.attributes) +
    (resourceLogs.scopeLogs.map (ScopeLogs.references deep scopes)).sum

def ExportLogsServiceRequest.references (deep scopes : Bool) (request : ExportLogsServiceRequest) : ℕ :=
  (request.resourceLogs.map (ResourceLogs.references deep scopes)).sum

/-! ### The conversion and its count -/

mutual

/-- A conversion adds the references it meets to the count, and its result does not depend on it. -/
theorem anyValueToJson_eq : ∀ (v : AnyValue) (n : ℕ),
    anyValueToJson v n = ((anyValueToJson v 0).1, n + v.references false)
  | .empty, n => by simp [anyValueToJson, AnyValue.references]
  | .string s, n => by simp [anyValueToJson, AnyValue.references]
  | .bool b, n => by simp [anyValueToJson, AnyValue.references]
  | .int i, n => by simp [anyValueToJson, AnyValue.references]
  | .double bits, n => by simp [anyValueToJson, AnyValue.references]
  | .bytes b, n => by simp [anyValueToJson, AnyValue.references]
  | .stringStrindex i, n => by simp [anyValueToJson, AnyValue.references]
  | .array values, n => by
    simp only [anyValueToJson, AnyValue.references]
    rw [valuesToJson_eq values n]
  | .kvlist values, n => by
    simp only [anyValueToJson, AnyValue.references]
    rw [kvPairs_eq values n]

theorem valuesToJson_eq : ∀ (vs : List AnyValue) (n : ℕ),
    valuesToJson vs n = ((valuesToJson vs 0).1, n + valuesReferences false vs)
  | [], n => by simp [valuesToJson, valuesReferences]
  | v :: rest, n => by
    simp only [valuesToJson, valuesReferences]
    rw [anyValueToJson_eq v n, anyValueToJson_eq v 0, valuesToJson_eq rest (n + _), valuesToJson_eq rest (0 + _)]
    simp only [Nat.add_assoc]

theorem kvPairs_eq : ∀ (kvs : List KeyValue) (n : ℕ),
    kvPairs kvs n = ((kvPairs kvs 0).1, n + kvsReferences false kvs)
  | [], n => by simp [kvPairs, kvsReferences]
  | .mk key none keyStrindex :: rest, n => by
    simp only [kvPairs, kvsReferences]
    split_ifs
    · rw [kvPairs_eq rest (n + 1), kvPairs_eq rest (0 + 1), Nat.add_assoc]
    · rw [kvPairs_eq rest n]
      simp
  | .mk key (some v) keyStrindex :: rest, n => by
    simp only [kvPairs, kvsReferences, Bool.false_eq_true, if_false]
    split_ifs
    · rw [kvPairs_eq rest (n + 1), kvPairs_eq rest (0 + 1), Nat.add_assoc]
    · rw [anyValueToJson_eq v n, anyValueToJson_eq v 0, kvPairs_eq rest (n + _), kvPairs_eq rest (0 + _)]
      simp only [Nat.add_assoc]

end

theorem kvsToJson_eq (kvs : List KeyValue) (n : ℕ) :
    kvsToJson kvs n = ((kvsToJson kvs 0).1, n + kvsReferences false kvs) := by
  rw [kvsToJson, kvPairs_eq kvs n]
  rfl

theorem bodyToString_eq (lib : OtlpLibraries) (b : AnyValue) (n : ℕ) :
    bodyToString lib b n = ((bodyToString lib b 0).1, n + b.references false) := by
  have hjson := anyValueToJson_eq b n
  cases b with
  | empty | string | stringStrindex => simp [bodyToString, AnyValue.references]
  | bool | int | double | array | kvlist | bytes =>
    simp only [bodyToString]
    rw [hjson]

theorem push_ofRows (lib : OtlpLibraries) (rows : List LogRow) (n : ℕ) (resource : Option Resource)
    (scope : Option InstrumentationScope) (record : LogRecord) :
    LogColumns.push lib record (resource.elim "{}" fun r => attributesText lib r.attributes)
      (scope.bind fun s => someNonempty s.name) (scope.bind fun s => someNonempty s.version) (.ofRows rows, n) =
    (.ofRows (rows ++ [rowOf lib (resource, scope, record)]), n + record.references false) := by
  have hbody : (record.body.elim (none, n) fun b => bodyToString lib b n) =
      (record.body.bind fun b => (bodyToString lib b 0).1, n + record.body.elim 0 (·.references false)) := by
    cases record.body with
    | none => rfl
    | some b => exact bodyToString_eq lib b n
  simp only [LogColumns.push, hbody, kvsToJson_eq record.attributes (n + _), LogRecord.references, Nat.add_assoc,
    LogColumns.ofRows, List.map_append, List.map_singleton, rowOf, attributesText]

/-- One scope's group. -/
theorem flattenScope_ofRows (lib : OtlpLibraries) (resource : Option Resource) (rows : List LogRow) (n : ℕ)
    (scopeLogs : ScopeLogs) :
    flattenScope lib (resource.elim "{}" fun r => attributesText lib r.attributes) (.ofRows rows, n) scopeLogs =
      (.ofRows (rows ++ (scopeLogs.flatten resource).map (rowOf lib)), n + scopeLogs.references false false) := by
  obtain ⟨scope, records⟩ := scopeLogs
  simp only [flattenScope, ScopeLogs.flatten, ScopeLogs.references, Bool.false_eq_true, if_false, Nat.zero_add]
  induction records generalizing rows n with
  | nil => simp
  | cons record records ih =>
    rw [List.foldl_cons, push_ofRows, ih]
    simp [Nat.add_assoc]

theorem flattenScopes_ofRows (lib : OtlpLibraries) (resource : Option Resource) :
    ∀ (groups : List ScopeLogs) (rows : List LogRow) (n : ℕ),
      groups.foldl (flattenScope lib (resource.elim "{}" fun r => attributesText lib r.attributes)) (.ofRows rows, n) =
        (.ofRows (rows ++ (groups.flatMap (ScopeLogs.flatten resource)).map (rowOf lib)),
          n + (groups.map (ScopeLogs.references false false)).sum)
  | [], rows, n => by simp
  | group :: groups, rows, n => by
    rw [List.foldl_cons, flattenScope_ofRows, flattenScopes_ofRows lib resource groups]
    simp [Nat.add_assoc]

/-- One resource's group. -/
theorem flattenResource_ofRows (lib : OtlpLibraries) (rows : List LogRow) (n : ℕ) (resourceLogs : ResourceLogs) :
    flattenResource lib (.ofRows rows, n) resourceLogs =
      (.ofRows (rows ++ resourceLogs.flatten.map (rowOf lib)), n + resourceLogs.references false false) := by
  obtain ⟨resource, groups⟩ := resourceLogs
  have hattrs : (resource.elim ("{}", n) fun r =>
      (lib.jsonText (kvsToJson r.attributes n).1, (kvsToJson r.attributes n).2)) =
      (resource.elim "{}" fun r => attributesText lib r.attributes,
        n + resource.elim 0 fun r => kvsReferences false r.attributes) := by
    cases resource with
    | none => rfl
    | some r => simp only [Option.elim_some, kvsToJson_eq r.attributes n, attributesText]
  simp only [flattenResource, hattrs, flattenScopes_ofRows, ResourceLogs.flatten, ResourceLogs.references, Nat.add_assoc]

theorem flattenResources_ofRows (lib : OtlpLibraries) :
    ∀ (groups : List ResourceLogs) (rows : List LogRow) (n : ℕ),
      groups.foldl (flattenResource lib) (.ofRows rows, n) =
        (.ofRows (rows ++ (groups.flatMap ResourceLogs.flatten).map (rowOf lib)),
          n + (groups.map (ResourceLogs.references false false)).sum)
  | [], rows, n => by simp
  | group :: groups, rows, n => by
    rw [List.foldl_cons, flattenResource_ofRows, flattenResources_ofRows lib groups]
    simp [Nat.add_assoc]

/-- **Flattening preserves the request**, as far as the fixed schema goes: one row for each record in
    document order, each with the attributes of its own resource and the name and version of its own
    scope, in columns of one length; and the count is that of the references in resource attributes,
    record attributes and bodies, where an attribute whose key is one counts once and its value is not
    entered. -/
theorem decodeLogs_flattens (lib : OtlpLibraries) (request : ExportLogsServiceRequest)
    (tenantHeader idempotencyKey : Option String) :
    decodeLogs lib request tenantHeader idempotencyKey =
      ((tenantFromHeader lib tenantHeader).bind fun tenant =>
        (intoIpcStream lib (.ofRows (request.flatten.map (rowOf lib)))).map fun records =>
          ⟨⟨otlpLogsDataset, tenant, idempotencyKey, records⟩, request.flatten.length,
            request.references false false⟩) ∧
    ∀ n ∈ (LogColumns.ofRows (request.flatten.map (rowOf lib))).lengths, n = request.flatten.length := by
  constructor
  · have hfold := flattenResources_ofRows lib request.resourceLogs [] 0
    rw [List.nil_append, Nat.zero_add] at hfold
    rw [decodeLogs]
    simp only [show ({} : LogColumns) = .ofRows [] from rfl, hfold]
    rw [show (LogColumns.ofRows ((request.resourceLogs.flatMap ResourceLogs.flatten).map (rowOf lib))).len =
      request.flatten.length by simp [LogColumns.len, LogColumns.ofRows, ExportLogsServiceRequest.flatten]]
    rfl
  · intro n hn
    simp only [LogColumns.lengths, LogColumns.ofRows, List.length_map, List.mem_cons, List.not_mem_nil, or_false,
      or_self] at hn
    exact hn

/-- One record of a scope with the given attributes, and with the given attributes of its own. -/
def oneRecord (scopeAttributes attributes : List KeyValue) : ExportLogsServiceRequest :=
  ⟨[⟨none, [⟨some ⟨"lib", "1.0", scopeAttributes⟩,
    [⟨1000, 0, 9, "INFO", some (.string "hello"), attributes, 0, 0, [], [], ""⟩]⟩]⟩]⟩

def plainLibraries : OtlpLibraries := ⟨fun _ => "json", fun _ => .ok [], fun _ => true⟩

/-- A reference among a scope's attributes and one below a reference key go uncounted, and a row does not
    have its scope's attributes. -/
theorem decodeLogs_leaves_out :
    (decodeLogs plainLibraries (oneRecord [.mk "k" (some (.stringStrindex 1)) 0] []) none none).map
        (·.strindexIgnored) = .ok 0 ∧
    (oneRecord [.mk "k" (some (.stringStrindex 1)) 0] []).references true true = 1 ∧
    (decodeLogs plainLibraries (oneRecord [] [.mk "" (some (.stringStrindex 1)) 7]) none none).map
        (·.strindexIgnored) = .ok 1 ∧
    (oneRecord [] [.mk "" (some (.stringStrindex 1)) 7]).references true true = 2 ∧
    (oneRecord [.mk "k" (some (.string "v")) 0] []).flatten.map (rowOf plainLibraries) =
      (oneRecord [.mk "k" (some (.string "w")) 0] []).flatten.map (rowOf plainLibraries) :=
  ⟨rfl, rfl, rfl, rfl, rfl⟩

end Duckspout
