import Duckspout.Judge.LineFile
import Duckspout.Loadgen.Client

/-! The load generator's journal (`duckspout-loadgen/src/journal.rs`): the nodes' own line shape, with the identity of the
    request beside it.

    A line is numbered, written and flushed under one lock. Where a write fails, the task that was writing panics and the
    lock is poisoned: there is no line after the one that was cut. -/

namespace Duckspout

namespace Loadgen

/-- The identity of a sent request. -/
structure RequestIdentity where
  requestId : String
  tenant : String
  recordCount : U64
  firstIndex : U64
  sourceIncarnation : String
  deriving DecidableEq, Repr

/-- The request of an identity, as `send_and_journal` makes it. -/
def RequestIdentity.request (identity : RequestIdentity) : ExportLogsServiceRequest :=
  syntheticBatch identity.sourceIncarnation identity.recordCount identity.firstIndex

/-- The keys of the records that the request carries. -/
def RequestIdentity.keys (identity : RequestIdentity) : List String := (sentRecords identity.request).filterMap indexAttribute

structure JournalLine where
  node : NodeId
  seq : U64
  event : TraceEvent
  identity : RequestIdentity
  deriving DecidableEq, Repr

end Loadgen

/-- The name an event is journaled by. -/
def TraceEvent.name (event : TraceEvent) : String := ((TraceEvent.names.find? (·.2 = event)).map (·.1)).getD ""

theorem TraceEvent.ofJson_name (event : TraceEvent) : TraceEvent.ofJson (.str event.name) = some event := by
  cases event <;> rfl

namespace Loadgen

/-- The members of an identity, flattened beside the others of its line. -/
def RequestIdentity.members (identity : RequestIdentity) : Members :=
  [("request_id", .str identity.requestId), ("tenant", .str identity.tenant), ("record_count", .int identity.recordCount),
    ("first_index", .int identity.firstIndex), ("source_incarnation", .str identity.sourceIncarnation)]

def JournalLine.members (line : JournalLine) : Members :=
  [("node", .str line.node.raw), ("seq", .int line.seq), ("event", .str line.event.name)] ++ line.identity.members

/-- What `out` holds: lines, and of one that could not be written the part that was. -/
structure LoadgenJournal where
  nextSeq : U64 := 0
  lines : List JournalLine := []
  torn : Option (JournalLine × ℕ) := none
  deriving DecidableEq, Repr

/-- The first characters of a text. -/
def beginning (text : String) (n : ℕ) : String := String.ofList (text.toList.take n)

namespace LoadgenJournal

/-- The lock is poisoned by a task that panicked under it. -/
def poisoned (journal : LoadgenJournal) : Bool := journal.torn.isSome

/-- `record`, where the line is written. -/
def record (journal : LoadgenJournal) (node : NodeId) (event : TraceEvent) (identity : RequestIdentity) : LoadgenJournal :=
  { journal with
    nextSeq := journal.nextSeq + 1
    lines := journal.lines ++ [⟨node, journal.nextSeq, event, identity⟩] }

/-- `record`, where the write fails or the process is killed in it, after so many characters of the line. -/
def recordTorn (journal : LoadgenJournal) (node : NodeId) (event : TraceEvent) (identity : RequestIdentity)
    (written : ℕ) : LoadgenJournal :=
  { journal with
    nextSeq := journal.nextSeq + 1
    torn := some (⟨node, journal.nextSeq, event, identity⟩, written) }

/-- The text of a line that was cut. -/
def tornText (write : WriteLine) (journal : LoadgenJournal) : String :=
  journal.torn.elim "" fun (line, written) => beginning (write line.members) written

/-- The text of the file. -/
def text (write : WriteLine) (journal : LoadgenJournal) : String :=
  lineFile write (journal.lines.map (·.members)) ++ journal.tornText write

/-- Every line that was begun. -/
def begun (journal : LoadgenJournal) : List JournalLine := journal.lines ++ (journal.torn.map (·.1)).toList

end LoadgenJournal

/-! ### Reading it back -/

/-- The identity as the judge reads it. -/
def RequestIdentity.read (identity : RequestIdentity) (fits : (identity.firstIndex : ℕ) + identity.recordCount < 2 ^ 64) :
    Duckspout.RequestIdentity where
  requestId := identity.requestId
  tenant := identity.tenant
  recordCount := identity.recordCount
  firstIndex := identity.firstIndex
  sourceIncarnation := identity.sourceIncarnation
  partition := none
  maxEventTimeMs := none
  fits := fits

/-- The line as the judge reads it: an identity and no other payload. -/
structure JournalLine.ReadAs (line : JournalLine) (read : Duckspout.JournalLine) : Prop where
  node : read.node = line.node
  seq : read.seq = line.seq
  event : read.event = line.event
  identity : ∃ fits, read.identity = some (line.identity.read fits)
  watermark : read.watermark = none
  changelog : read.changelog = none
  part : read.part = none

namespace JournalLine

variable {line : JournalLine}

theorem nodup_keys (line : JournalLine) : line.members.keys.Nodup := by
  simp [members, RequestIdentity.members, Members.keys]

/-- What is left of a line's members beside its envelope. -/
theorem ofMembers_members (line : JournalLine) : JournalEnvelope.ofMembers line.members =
    some ⟨line.node, line.seq, line.event, line.identity.members⟩ := by
  have hseq := JsonValue.u64?_int line.seq
  have hevent := TraceEvent.ofJson_name line.event
  simp [JournalEnvelope.ofMembers, Members.required, Members.get?, members, RequestIdentity.members, JsonValue.str?, hseq,
    hevent]

theorem identityFields (identity : RequestIdentity) : IdentityFields.ofMembers identity.members =
    some ⟨identity.requestId, identity.tenant, identity.recordCount, identity.firstIndex, identity.sourceIncarnation, none,
      none⟩ := by
  have hcount := JsonValue.u64?_int identity.recordCount
  have hfirst := JsonValue.u64?_int identity.firstIndex
  simp [IdentityFields.ofMembers, Members.required, Members.optional, Members.get?, RequestIdentity.members, JsonValue.str?,
    hcount, hfirst]

/-- A line that is read back decodes, to itself, exactly when its index range has an end. -/
theorem decodes {reader : JournalReader} {raw : String} (hread : reader.readObject raw = .ok line.members)
    {read : Duckspout.JournalLine} : Decodes reader raw read ↔ line.ReadAs read := by
  have hother : ∀ key ∈ ["complete_through_ms", "changelog_key", "part"], key ∉ line.identity.members.keys := by
    simp [RequestIdentity.members, Members.keys]
  have hid : "request_id" ∈ line.identity.members.keys := by
    simp [RequestIdentity.members, Members.keys]
  constructor
  · rintro ⟨members, envelope, hmembers, -, henvelope, hnode, hseq, hevent, hidentity, hwatermark, hchangelog, hpart⟩
    obtain rfl : line.members = members := Except.ok.inj (hread.symm.trans hmembers)
    obtain rfl := Option.some.inj (line.ofMembers_members.symm.trans henvelope)
    have hnone : ∀ {α : Type} {key : String} {Spells : Members → α → Prop} {payload : Option α},
        key ∉ line.identity.members.keys → Announces key Spells line.identity.members payload → payload = none := by
      intro α key Spells payload hkey h
      cases payload with
      | none => rfl
      | some a => exact absurd h.1 hkey
    refine ⟨hnode, hseq, hevent, ?_, hnone (hother _ (by simp)) hwatermark, hnone (hother _ (by simp)) hchangelog,
      hnone (hother _ (by simp)) hpart⟩
    cases hread : read.identity with
    | none =>
      rw [hread] at hidentity
      exact absurd hid hidentity
    | some identity =>
      rw [hread] at hidentity
      obtain ⟨fields, fits, hfields, rfl⟩ := hidentity.2
      obtain rfl := Option.some.inj ((identityFields _).symm.trans hfields)
      exact ⟨fits, rfl⟩
  · rintro ⟨hnode, hseq, hevent, ⟨fits, hidentity⟩, hwatermark, hchangelog, hpart⟩
    refine ⟨_, _, hread, line.nodup_keys, line.ofMembers_members, hnode, hseq, hevent, ?_, ?_, ?_, ?_⟩
    · rw [hidentity]
      exact ⟨hid, _, fits, identityFields _, rfl⟩
    · rw [hwatermark]
      exact hother _ (by simp)
    · rw [hchangelog]
      exact hother _ (by simp)
    · rw [hpart]
      exact hother _ (by simp)

end JournalLine

/-- What else is relied on of `serde_json`: of a line that was cut it reads nothing. -/
def RefusesCut (write : WriteLine) (reader : JournalReader) (objects : List Members) : Prop :=
  ∀ members ∈ objects, ∀ n, beginning (write members) n ≠ "" → beginning (write members) n ≠ write members →
    ∃ err, reader.readObject (beginning (write members) n) = .error err

namespace LoadgenJournal

variable {write : WriteLine} {reader : JournalReader} {journal : LoadgenJournal} {path : String}

/-- The last line of the file is a piece of one. -/
def Cut (write : WriteLine) (journal : LoadgenJournal) : Prop :=
  ∃ torn ∈ journal.torn, journal.tornText write ≠ "" ∧ journal.tornText write ≠ write torn.1.members

/-- The lines of a file whose last line was not cut: that one may be there without its line feed. -/
def whole (write : WriteLine) (journal : LoadgenJournal) : List JournalLine :=
  if journal.tornText write = "" then journal.lines else journal.begun

/-- The lines are one node's, numbered from zero, and each has an index range with an end. -/
structure Numbered (node : NodeId) (lines : List JournalLine) : Prop where
  node : ∀ line ∈ lines, line.node = node
  seq : lines.map (fun line => (line.seq : ℕ)) = List.range lines.length
  fits : ∀ line ∈ lines, (line.identity.firstIndex : ℕ) + line.identity.recordCount < 2 ^ 64

theorem Numbered.left {node : NodeId} {lines more : List JournalLine} (h : Numbered node (lines ++ more)) :
    Numbered node lines where
  node line hline := h.node line (List.mem_append_left _ hline)
  seq := by
    have hseq := congrArg (List.take lines.length) h.seq
    simpa [List.take_range] using hseq
  fits line hline := h.fits line (List.mem_append_left _ hline)

theorem exists_readAs {lines : List JournalLine}
    (h : ∀ line ∈ lines, (line.identity.firstIndex : ℕ) + line.identity.recordCount < 2 ^ 64) :
    ∃ file, List.Forall₂ JournalLine.ReadAs lines file := by
  induction lines with
  | nil => exact ⟨[], .nil⟩
  | cons line lines ih =>
    obtain ⟨hline, hlines⟩ := List.forall_mem_cons.mp h
    obtain ⟨file, hfile⟩ := ih hlines
    exact ⟨{ node := line.node, seq := line.seq, event := line.event, identity := some (line.identity.read hline) } :: file,
      .cons ⟨rfl, rfl, rfl, ⟨hline, rfl⟩, rfl, rfl, rfl⟩ hfile⟩

/-- What is read of a numbered journal is dense. -/
theorem Numbered.dense {node : NodeId} {lines : List JournalLine} (h : Numbered node lines)
    {file : List Duckspout.JournalLine} (hfile : List.Forall₂ JournalLine.ReadAs lines file) : SeqsDense file := by
  have hnode : lines.map (·.node) = file.map (·.node) := by
    rw [← List.forall₂_eq_eq_eq, List.forall₂_map_left_iff, List.forall₂_map_right_iff]
    exact hfile.imp fun _ _ has => has.node.symm
  have hseq : lines.map (fun line => (line.seq : ℕ)) = file.map (·.seq) := by
    rw [← List.forall₂_eq_eq_eq, List.forall₂_map_left_iff, List.forall₂_map_right_iff]
    exact hfile.imp fun _ _ has => has.seq.symm
  refine Numbering.dense_of_const (k := node) (fun read hread => ?_) ?_
  · have hin : read.node ∈ lines.map (·.node) := hnode ▸ List.mem_map_of_mem hread
    obtain ⟨line, hline, heq⟩ := List.mem_map.mp hin
    rw [← heq, h.node line hline]
  · rw [← hseq, h.seq, hfile.length_eq]

/-- The lines of the file as they are read. -/
theorem decodes_lines {lines : List JournalLine} (hjson : write.ReadsBack reader (lines.map (·.members)))
    {file : List Duckspout.JournalLine} (hfile : List.Forall₂ JournalLine.ReadAs lines file) :
    List.Forall₂ (Decodes reader) (lines.map fun line => write line.members) file := by
  rw [List.forall₂_map_left_iff]
  induction hfile with
  | nil => exact .nil
  | @cons line read lines file has hfile ih =>
    have hline := hjson.read_write line.members (by simp)
    exact .cons ((JournalLine.decodes hline).mpr has) (ih ⟨fun members hin => hjson.no_break members (by simp_all),
      fun members hin => hjson.read_write members (by simp_all)⟩)

/-- What is on the file, line by line. -/
theorem textLines_text (hjson : write.ReadsBack reader (journal.begun.map (·.members))) :
    textLines (journal.text write) = (journal.lines.map fun line => write line.members) ++
      if journal.tornText write = "" then [] else [journal.tornText write] := by
  have hbreak : ∀ c ∈ (journal.tornText write).toList, c ≠ '\n' := by
    intro c hc
    rw [tornText] at hc
    cases htorn : journal.torn with
    | none => simp [htorn] at hc
    | some torn =>
      rw [htorn, Option.elim_some] at hc
      have hin : torn.1.members ∈ journal.begun.map (·.members) := by simp [begun, htorn]
      have hc : c ∈ (write torn.1.members).toList.take torn.2 := by simpa [beginning] using hc
      exact (hjson.no_break _ hin c (List.mem_of_mem_take hc)).1
  rw [text, textLines_lineFile (fun members hin => hjson.no_break members (by simp_all [begun])) _ hbreak, List.map_map]
  rfl

/-- Where the last line was not cut, the lines on the file are the whole ones. -/
theorem textLines_whole (hjson : write.ReadsBack reader (journal.begun.map (·.members))) (hcut : ¬ journal.Cut write) :
    textLines (journal.text write) = (journal.whole write).map fun line => write line.members := by
  rw [textLines_text hjson, whole]
  by_cases hempty : journal.tornText write = ""
  · rw [if_pos hempty, if_pos hempty, List.append_nil]
  · cases htorn : journal.torn with
    | none =>
      refine absurd ?_ hempty
      rw [tornText, htorn, Option.elim_none]
    | some torn =>
      have hline : journal.tornText write = write torn.1.members := by
        by_contra hne
        exact hcut ⟨torn, htorn, hempty, hne⟩
      rw [if_neg hempty, if_neg hempty, hline, begun, htorn, Option.map_some, Option.toList_some, List.map_append,
        List.map_singleton]

theorem exists_begun (write : WriteLine) (journal : LoadgenJournal) :
    ∃ more, journal.begun = journal.whole write ++ more := by
  rw [whole]
  split_ifs
  · exact ⟨_, rfl⟩
  · exact ⟨[], (List.append_nil _).symm⟩

/-- A journal without a cut line is parsed to its lines. -/
theorem parse_whole {node : NodeId} (hnumbered : Numbered node journal.begun)
    (hjson : write.ReadsBack reader (journal.begun.map (·.members)))
    (hfile : reader.readToString path = .ok (journal.text write)) (hcut : ¬ journal.Cut write) (debug : String → String) :
    ∃ file, List.Forall₂ JournalLine.ReadAs (journal.whole write) file ∧
      parseJournalFile reader debug path = .ok (place path 0 file) := by
  obtain ⟨more, hmore⟩ := exists_begun write journal
  have hwhole : Numbered node (journal.whole write) := (hmore ▸ hnumbered).left
  obtain ⟨file, hread⟩ := exists_readAs hwhole.fits
  have hjson' : write.ReadsBack reader ((journal.whole write).map (·.members)) := by
    refine hjson.subset ?_
    rw [hmore, List.map_append]
    exact List.subset_append_left _ _
  refine ⟨file, hread, parseJournalFile_eq_ok.mpr ⟨file, ⟨_, hfile, ?_⟩, rfl, hwhole.dense hread⟩⟩
  rw [textLines_whole hjson hcut]
  exact decodes_lines hjson' hread

/-- A journal with a cut line is refused at that line. -/
theorem parse_cut {node : NodeId} (hnumbered : Numbered node journal.begun)
    (hjson : write.ReadsBack reader (journal.begun.map (·.members)))
    (hrefuses : RefusesCut write reader (journal.begun.map (·.members)))
    (hfile : reader.readToString path = .ok (journal.text write)) (hcut : journal.Cut write) (debug : String → String) :
    ∃ err, parseJournalFile reader debug path = .error (.decode path (journal.lines.length + 1) (.json err)) := by
  obtain ⟨torn, htorn, hempty, hne⟩ := hcut
  have htorn : journal.torn = some torn := htorn
  have htext : journal.tornText write = beginning (write torn.1.members) torn.2 := by
    rw [tornText, htorn, Option.elim_some]
  have hbegun : journal.begun = journal.lines ++ [torn.1] := by
    rw [begun, htorn, Option.map_some, Option.toList_some]
  obtain ⟨err, herr⟩ := hrefuses torn.1.members (by simp [hbegun]) torn.2 (htext ▸ hempty) (htext ▸ hne)
  have hlines : Numbered node journal.lines := (hbegun ▸ hnumbered).left
  obtain ⟨file, hread⟩ := exists_readAs hlines.fits
  have hjson' : write.ReadsBack reader (journal.lines.map (·.members)) := by
    refine hjson.subset ?_
    rw [hbegun, List.map_append]
    exact List.subset_append_left _ _
  -- the lines before it are taken
  obtain ⟨counters, hbefore⟩ : ∃ counters, (journal.lines.map fun line => write line.members).zipIdx.foldlM
      (parseLine reader debug path) (∅, []) = .ok (counters, [] ++ place path 0 file) := by
    refine (foldlM_parseLine Numbering.counted_nil Numbering.dense_nil).mpr ⟨file, decodes_lines hjson' hread, rfl, ?_⟩
    rw [List.nil_append, dense_placed, map_place]
    exact hlines.dense hread
  have hlast : parseLine reader debug path (counters, [] ++ place path 0 file) (journal.tornText write, journal.lines.length) =
      .error (.decode path (journal.lines.length + 1) (.json err)) := by
    rw [htext, parseLine, readEnvelope, herr]
    rfl
  have hfold : (textLines (journal.text write)).zipIdx.foldlM (parseLine reader debug path) (∅, []) =
      .error (.decode path (journal.lines.length + 1) (.json err)) := by
    rw [textLines_text hjson, if_neg hempty, List.zipIdx_append, List.foldlM_append, hbefore, List.length_map, Nat.zero_add,
      List.zipIdx_singleton]
    exact congrArg (· >>= pure) hlast
  refine ⟨err, ?_⟩
  rw [parseJournalFile, hfile]
  exact congrArg (Except.map (·.2)) hfold

end LoadgenJournal

end Loadgen

end Duckspout
