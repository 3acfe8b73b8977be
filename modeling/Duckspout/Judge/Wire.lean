import Duckspout.Judge.Evidence

/-! The journal's wire format (`duckspout-judge/src/journal.rs`): one JSON object a line, an envelope with the payloads its
    other members announce.

    `serde_json` reads the text of a line and is a parameter here: what it returns is the line's members in order, a
    repeated key with each of its values. What serde's derived decoders make of them is modelled; the words in which they
    and the reader refuse a line are serde's own. -/

namespace Duckspout

/-- A JSON value. An integer is one that fits an `i64` or a `u64`, any other number is a float. -/
inductive JsonValue where
  | null
  | bool (b : Bool)
  | int (n : ℤ)
  | float (text : String)
  | str (s : String)
  | arr (items : List JsonValue)
  | obj (members : List (String × JsonValue))
  deriving Repr

/-- The members of an object. -/
abbrev Members := List (String × JsonValue)

inductive DecodeError where
  /-- The line could not be read as one object. -/
  | json (text : String)
  /-- A derived decoder found a member missing or of the wrong type. -/
  | malformed (expected : String)
  | custom (message : String)
  deriving DecidableEq, Repr

/-! ### Members -/

namespace JsonValue

def str? : JsonValue → Option String
  | .str s => some s
  | _ => none

def bool? : JsonValue → Option Bool
  | .bool b => some b
  | _ => none

def u64? : JsonValue → Option U64
  | .int n => if h : n.toNat < 2 ^ 64 then if 0 ≤ n then some ⟨n.toNat, h⟩ else none else none
  | _ => none

def i64? : JsonValue → Option ℤ
  | .int n => if -2 ^ 63 ≤ n ∧ n < 2 ^ 63 then some n else none
  | _ => none

/-- The name of a unit variant: a string, or an object that gives it the value null. -/
def variant? : JsonValue → Option String
  | .str s => some s
  | .obj [(s, .null)] => some s
  | _ => none

/-- The same of an object that has been collected first, each key with its last value. -/
def heldVariant? : JsonValue → Option String
  | .str s => some s
  | .obj members =>
    match members.getLast? with
    | some (s, .null) => if members.all (·.1 = s) then some s else none
    | _ => none
  | _ => none

/-- The items of an array, if each of them can be read. -/
def list? {α : Type} (read : JsonValue → Option α) : JsonValue → Option (List α)
  | .arr items => items.mapM read
  | _ => none

end JsonValue

namespace Members

def keys (members : Members) : List String := members.map (·.1)

/-- The value of a key, the last one where the key is repeated. -/
def get? (members : Members) (key : String) : Option JsonValue := (members.reverse.find? (·.1 = key)).map (·.2)

/-- A member that must be there. -/
def required {α : Type} (members : Members) (key : String) (read : JsonValue → Option α) : Option α :=
  (members.get? key).bind read

/-- A member that may be absent or null. -/
def optional {α : Type} (members : Members) (key : String) (read : JsonValue → Option α) : Option (Option α) :=
  match members.get? key with
  | none => some none
  | some .null => some none
  | some value => (read value).map some

/-- A member that has a default when it is absent. -/
def defaulted {α : Type} (members : Members) (key : String) (read : JsonValue → Option α) (default : α) : Option α :=
  match members.get? key with
  | none => some default
  | some value => read value

end Members

/-! ### Repeated keys -/

section

variable (debug : String → String)

/-- The visitor's loop over the keys of a line. -/
def visitKeys (seen : List String) : List String → Except DecodeError Unit
  | [] => .ok ()
  | key :: keys =>
    if key ∈ seen then
      .error (.custom ("duplicate JSON key " ++ debug key ++
        " (ambiguity fails closed — last-value-wins could silently reclassify identity fields)"))
    else visitKeys (key :: seen) keys

def rejectDuplicateKeys (members : Members) : Except DecodeError Unit := visitKeys debug [] members.keys

variable {debug}

theorem visitKeys_eq_ok {seen keys : List String} {u : Unit} :
    visitKeys debug seen keys = .ok u ↔ keys.Nodup ∧ ∀ key ∈ keys, key ∉ seen := by
  induction keys generalizing seen with
  | nil => simp [visitKeys]
  | cons key keys ih =>
    rw [visitKeys]
    split_ifs with hseen
    · simp [hseen]
    · simp only [ih, List.nodup_cons, List.mem_cons, not_or, forall_eq_or_imp]
      exact ⟨fun ⟨hnodup, hfresh⟩ => ⟨⟨fun hin => (hfresh key hin).1 rfl, hnodup⟩, hseen, fun k hk => (hfresh k hk).2⟩,
        fun ⟨⟨hin, hnodup⟩, _, hfresh⟩ => ⟨hnodup, fun k hk => ⟨fun heq => hin (heq ▸ hk), hfresh k hk⟩⟩⟩

theorem rejectDuplicateKeys_eq_ok {members : Members} {u : Unit} :
    rejectDuplicateKeys debug members = .ok u ↔ members.keys.Nodup := by
  simp [rejectDuplicateKeys, visitKeys_eq_ok]

end

/-! ### The envelope -/

/-- The events under the names they are journaled by. -/
def TraceEvent.names : List (String × TraceEvent) :=
  [("Accept", .accept), ("DedupCheck", .dedupCheck), ("StageCommit", .stageCommit), ("ClientAck", .clientAck),
    ("Throttle", .throttle), ("Refuse", .refuse), ("Forward", .forward), ("PeerApply", .peerApply),
    ("Receipt", .receipt), ("SealPart", .sealPart), ("PutPart", .putPart), ("LakeCommitOk", .lakeCommitOk),
    ("LakeCommitAbort", .lakeCommitAbort), ("LakeCommitIndeterminate", .lakeCommitIndeterminate),
    ("Reconcile", .reconcile), ("Expire", .expire), ("Demote", .demote), ("Evict", .evict),
    ("DropWindow", .dropWindow), ("SnapshotSeal", .snapshotSeal), ("ClaimAdvertise", .claimAdvertise),
    ("Heartbeat", .heartbeat), ("FenceBoot", .fenceBoot), ("DegradedBoot", .degradedBoot),
    ("TakeoverDrain", .takeoverDrain), ("DeclareLoss", .declareLoss), ("EvolveSchema", .evolveSchema),
    ("ClientTimeout", .clientTimeout)]

def TraceEvent.ofJson (value : JsonValue) : Option TraceEvent := value.variant?.bind (TraceEvent.names.lookup ·)

/-- The members every line has, with all the others. -/
structure JournalEnvelope where
  node : NodeId
  seq : U64
  event : TraceEvent
  rest : Members

def JournalEnvelope.ofMembers (members : Members) : Option JournalEnvelope := do
  let node ← members.required "node" JsonValue.str?
  let seq ← members.required "seq" JsonValue.u64?
  let event ← members.required "event" TraceEvent.ofJson
  return { node := ⟨node⟩, seq, event, rest := members.filter (·.1 ∉ ["node", "seq", "event"]) }

/-! ### The payloads -/

/-- The members a request's identity is read from. -/
structure IdentityFields where
  requestId : String
  tenant : String
  recordCount : U64
  firstIndex : U64
  sourceIncarnation : String
  partition : Option PartitionId
  maxEventTimeMs : Option ℤ

def IdentityFields.ofMembers (rest : Members) : Option IdentityFields := do
  let requestId ← rest.required "request_id" JsonValue.str?
  let tenant ← rest.required "tenant" JsonValue.str?
  let recordCount ← rest.required "record_count" JsonValue.u64?
  let firstIndex ← rest.required "first_index" JsonValue.u64?
  let sourceIncarnation ← rest.required "source_incarnation" JsonValue.str?
  let partition ← rest.optional "partition" JsonValue.str?
  let maxEventTimeMs ← rest.optional "max_event_time_ms" JsonValue.i64?
  return { requestId, tenant, recordCount, firstIndex, sourceIncarnation, partition := partition.map (⟨·⟩),
           maxEventTimeMs }

/-- The identity of the members, with an index range that has an end. -/
def RequestIdentity.ofFields (fields : IdentityFields) (fits : (fields.firstIndex : ℕ) + fields.recordCount < 2 ^ 64) :
    RequestIdentity where
  requestId := fields.requestId
  tenant := fields.tenant
  recordCount := fields.recordCount
  firstIndex := fields.firstIndex
  sourceIncarnation := fields.sourceIncarnation
  partition := fields.partition
  maxEventTimeMs := fields.maxEventTimeMs
  fits := fits

/-- The identity, when `first_index.checked_add(record_count)` has a value. -/
def identityFromRest (rest : Members) : Except DecodeError (Option RequestIdentity) :=
  if "request_id" ∈ rest.keys then
    match IdentityFields.ofMembers rest with
    | none => .error (.malformed "RequestIdentity")
    | some fields =>
      if fits : (fields.firstIndex : ℕ) + fields.recordCount < 2 ^ 64 then
        .ok (some (.ofFields fields fits))
      else
        .error (.custom ("first_index " ++ toString fields.firstIndex ++ " + record_count " ++
          toString fields.recordCount ++
          " overflows u64 — fails closed rather than panicking or silently wrapping to an empty range"))
  else .ok none

def WatermarkClaim.ofMembers (rest : Members) : Option WatermarkClaim := do
  let partition ← rest.required "partition" JsonValue.str?
  let completeThroughMs ← rest.required "complete_through_ms" JsonValue.i64?
  return { partition := ⟨partition⟩, completeThroughMs }

def watermarkFromRest (rest : Members) : Except DecodeError (Option WatermarkClaim) :=
  if "complete_through_ms" ∈ rest.keys then
    match WatermarkClaim.ofMembers rest with
    | none => .error (.malformed "WatermarkClaim")
    | some claim => .ok (some claim)
  else .ok none

def ChangelogEntry.ofMembers (rest : Members) : Option ChangelogEntry := do
  let dataset ← rest.required "dataset" JsonValue.str?
  let partition ← rest.required "partition" JsonValue.str?
  let tenant ← rest.required "tenant" JsonValue.str?
  let changelogKey ← rest.required "changelog_key" JsonValue.str?
  let origin ← rest.required "origin" JsonValue.str?
  let changelogSeq ← rest.required "changelog_seq" JsonValue.u64?
  let tombstone ← rest.defaulted "tombstone" JsonValue.bool? false
  let value ← rest.optional "value" JsonValue.str?
  return { dataset := ⟨dataset⟩, partition := ⟨partition⟩, tenant := ⟨tenant⟩, changelogKey, origin := ⟨origin⟩,
           changelogSeq, tombstone, value }

def changelogFromRest (debug : String → String) (rest : Members) : Except DecodeError (Option ChangelogEntry) :=
  if "changelog_key" ∈ rest.keys then
    match ChangelogEntry.ofMembers rest with
    | none => .error (.malformed "ChangelogEntry")
    | some entry =>
      match entry.tombstone, entry.value.isSome with
      | true, true =>
        .error (.custom ("changelog entry for key " ++ debug entry.changelogKey ++ " is a tombstone AND carries a " ++
          "value — ambiguity fails closed rather than folding to whichever field is read first"))
      | false, false =>
        .error (.custom ("changelog entry for key " ++ debug entry.changelogKey ++ " is neither a tombstone nor " ++
          "carries a value — the §7.7 fold has no third case, so this is corruption, not an input"))
      | _, _ => .ok (some entry)
  else .ok none

/-- A range, as an object or as the array of its three fields. -/
def OriginSeqRange.ofJson : JsonValue → Option OriginSeqRange
  | .obj members => do
    let origin ← Members.required members "origin" JsonValue.str?
    let firstSeq ← Members.required members "first_seq" JsonValue.u64?
    let lastSeq ← Members.required members "last_seq" JsonValue.u64?
    return { origin := ⟨origin⟩, firstSeq, lastSeq }
  | .arr [origin, firstSeq, lastSeq] => do
    let origin ← origin.str?
    let firstSeq ← firstSeq.u64?
    let lastSeq ← lastSeq.u64?
    return { origin := ⟨origin⟩, firstSeq, lastSeq }
  | _ => none

def PartKind.ofName : String → Option PartKind
  | "primary" => some .primary
  | "supplement" => some .supplement
  | "snapshot" => some .snapshot
  | _ => none

def DatasetKind.ofName : String → Option DatasetKind
  | "event" => some .event
  | "changelog" => some .changelog
  | _ => none

/-- The members a part's descriptor is read from. -/
structure PartFields where
  dataset : DatasetId
  partition : PartitionId
  part : PartName
  partKind : PartKind
  datasetKind : DatasetKind
  originCoverage : List OriginSeqRange

def PartFields.ofMembers (rest : Members) : Option PartFields := do
  let dataset ← rest.required "dataset" JsonValue.str?
  let partition ← rest.required "partition" JsonValue.str?
  let part ← rest.required "part" JsonValue.str?
  let partKind ← rest.required "part_kind" fun value => value.heldVariant?.bind PartKind.ofName
  let datasetKind ← rest.required "dataset_kind" fun value => value.heldVariant?.bind DatasetKind.ofName
  let originCoverage ← rest.required "origin_coverage" (JsonValue.list? OriginSeqRange.ofJson)
  return { dataset := ⟨dataset⟩, partition := ⟨partition⟩, part := ⟨part⟩, partKind, datasetKind, originCoverage }

/-- The part of the members, with ranges, none of them inverted. -/
def PartRetention.ofFields (fields : PartFields) (covered : fields.originCoverage ≠ [])
    (upright : ∀ r ∈ fields.originCoverage, r.firstSeq ≤ r.lastSeq) : PartRetention where
  dataset := fields.dataset
  partition := fields.partition
  part := fields.part
  partKind := fields.partKind
  datasetKind := fields.datasetKind
  originCoverage := fields.originCoverage
  covered := covered
  upright := upright

def partFromRest (rest : Members) : Except DecodeError (Option PartRetention) :=
  if "part" ∈ rest.keys then
    match PartFields.ofMembers rest with
    | none => .error (.malformed "PartRetention")
    | some fields =>
      if covered : fields.originCoverage = [] then
        .error (.custom ("part " ++ fields.part.raw ++ " names no origin coverage — a part with no arrival range is " ++
          "vacuously covered by every snapshot (and by none), so this fails closed rather than passing " ++
          "SnapshotCovered unexamined"))
      else
        match inverted : fields.originCoverage.find? fun range => range.firstSeq > range.lastSeq with
        | some bad =>
          .error (.custom ("part " ++ fields.part.raw ++ " carries an inverted arrival range for origin " ++
            bad.origin.raw ++ " (" ++ toString bad.firstSeq ++ " > " ++ toString bad.lastSeq ++ ") — an empty range " ++
            "is vacuously covered, so ambiguity fails closed"))
        | none =>
          .ok (some (.ofFields fields covered (by simpa using inverted)))
  else .ok none

/-! ### What a line announces -/

/-- A payload as its line announces it: there is none without its key, and with it the members spell one. -/
def Announces {α : Type} (key : String) (Spells : Members → α → Prop) (rest : Members) : Option α → Prop
  | none => key ∉ rest.keys
  | some payload => key ∈ rest.keys ∧ Spells rest payload

namespace Members

def SpellIdentity (rest : Members) (identity : RequestIdentity) : Prop :=
  ∃ fields fits, IdentityFields.ofMembers rest = some fields ∧ identity = .ofFields fields fits

def SpellWatermark (rest : Members) (claim : WatermarkClaim) : Prop := WatermarkClaim.ofMembers rest = some claim

/-- An entry has a value or is a tombstone, and not both. -/
def SpellChangelog (rest : Members) (entry : ChangelogEntry) : Prop :=
  ChangelogEntry.ofMembers rest = some entry ∧ entry.tombstone = entry.value.isNone

def SpellPart (rest : Members) (part : PartRetention) : Prop :=
  ∃ fields covered upright, PartFields.ofMembers rest = some fields ∧ part = .ofFields fields covered upright

end Members

section

variable {rest : Members}

/-- A payload is read as it is announced when, with its key there, what is read is what the members spell. -/
theorem announces_of_read {α : Type} {key : String} {Spells : Members → α → Prop} {read : Except DecodeError (Option α)}
    {payload : Option α} (hread : read = .ok payload ↔ ∃ a, payload = some a ∧ Spells rest a) :
    (if key ∈ rest.keys then read else .ok none) = .ok payload ↔ Announces key Spells rest payload := by
  split_ifs with hkey
  · rw [hread]
    cases payload <;> simp [Announces, hkey]
  · cases payload <;> simp [Announces, hkey]

theorem identityFromRest_eq_ok {payload : Option RequestIdentity} :
    identityFromRest rest = .ok payload ↔ Announces "request_id" Members.SpellIdentity rest payload := by
  refine announces_of_read ?_
  cases hfields : IdentityFields.ofMembers rest with
  | none => simp [Members.SpellIdentity, hfields]
  | some fields =>
    dsimp only
    split_ifs with hfits
    · constructor
      · intro h
        exact ⟨_, (Except.ok.inj h).symm, fields, hfits, hfields, rfl⟩
      · rintro ⟨_, rfl, read, hread, hrest, rfl⟩
        cases hfields.symm.trans hrest
        rfl
    · refine ⟨(fun h => by cases h), ?_⟩
      rintro ⟨_, rfl, read, hread, hrest, rfl⟩
      cases hfields.symm.trans hrest
      exact absurd hread hfits

theorem watermarkFromRest_eq_ok {payload : Option WatermarkClaim} :
    watermarkFromRest rest = .ok payload ↔ Announces "complete_through_ms" Members.SpellWatermark rest payload := by
  refine announces_of_read ?_
  cases hclaim : WatermarkClaim.ofMembers rest with
  | none => simp [Members.SpellWatermark, hclaim]
  | some claim => simp [Members.SpellWatermark, hclaim, eq_comm]

theorem changelogFromRest_eq_ok {debug : String → String} {payload : Option ChangelogEntry} :
    changelogFromRest debug rest = .ok payload ↔ Announces "changelog_key" Members.SpellChangelog rest payload := by
  refine announces_of_read ?_
  cases hentry : ChangelogEntry.ofMembers rest with
  | none => simp [Members.SpellChangelog, hentry]
  | some entry =>
    simp only [Members.SpellChangelog, hentry, Option.some.injEq]
    cases htombstone : entry.tombstone <;> cases hvalue : entry.value <;> simp [htombstone, hvalue, eq_comm]

theorem partFromRest_eq_ok {payload : Option PartRetention} :
    partFromRest rest = .ok payload ↔ Announces "part" Members.SpellPart rest payload := by
  refine announces_of_read ?_
  cases hfields : PartFields.ofMembers rest with
  | none => simp [Members.SpellPart, hfields]
  | some fields =>
    dsimp only
    split_ifs with hcovered
    · refine ⟨(fun h => by cases h), ?_⟩
      rintro ⟨_, rfl, read, hread, -, hrest, rfl⟩
      cases hfields.symm.trans hrest
      exact absurd hcovered hread
    · split
      · rename_i bad hbad
        refine ⟨(fun h => by cases h), ?_⟩
        rintro ⟨_, rfl, read, -, hread, hrest, rfl⟩
        cases hfields.symm.trans hrest
        have hinverted : bad.firstSeq > bad.lastSeq := by simpa using List.find?_some hbad
        exact absurd (hread bad (List.mem_of_find?_eq_some hbad)) (not_le.mpr hinverted)
      · rename_i hnone
        constructor
        · intro h
          exact ⟨_, (Except.ok.inj h).symm, fields, hcovered, by simpa using hnone, hfields, rfl⟩
        · rintro ⟨_, rfl, read, -, -, hrest, rfl⟩
          cases hfields.symm.trans hrest
          rfl

end

end Duckspout
