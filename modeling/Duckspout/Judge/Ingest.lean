import Duckspout.Judge.Wire
import Duckspout.Lib.Fallible
import Duckspout.Lib.Numbering

/-! Journal ingestion (`duckspout-judge/src/journal.rs`): every file is parsed on its own, each node's sequence numbers
    starting at zero there, and the lines of all files are then checked again with the counters shared.

    A node that has lines in two files passes the first check only if both start at zero, and the second only if the later
    one does not: its journal is refused, whatever it says. -/

namespace Duckspout

inductive JournalError where
  | io (path : String) (source : String)
  | decode (path : String) (lineNo : ℕ) (source : DecodeError)
  | nonDenseSeq (path : String) (lineNo : ℕ) (node : NodeId) (expected got : ℕ)
  deriving DecidableEq, Repr

/-- A line and where it was read, lines counted from one. -/
structure PlacedLine extends JournalLine where
  source : String
  lineNo : ℕ
  deriving DecidableEq, Repr

/-- The rest of a text, split at its line feeds; the line being read is kept reversed. -/
def splitLines (current : List Char) : List Char → List String
  | [] => if current = [] then [] else [String.ofList current.reverse]
  | '\n' :: rest =>
    match current with
    | '\r' :: line => String.ofList line.reverse :: splitLines [] rest
    | line => String.ofList line.reverse :: splitLines [] rest
  | c :: rest => splitLines (c :: current) rest

/-- `str::lines`. -/
def textLines (text : String) : List String := splitLines [] text.toList

/-- What is read from outside: the text of a file, the members of a text that is an object, and the values of one that is
    an array. -/
structure JournalReader where
  readToString : String → Except String String
  readObject : String → Except String Members
  readArray : String → Option (List JsonValue) := fun _ => none

section

variable (reader : JournalReader) (debug : String → String)

/-- The envelope of a line that repeats no key. -/
def readEnvelope (raw : String) : Except DecodeError JournalEnvelope := do
  let members ← (reader.readObject raw).mapError .json
  rejectDuplicateKeys debug members
  match JournalEnvelope.ofMembers members with
  | some envelope => return envelope
  | none => throw (.malformed "Envelope")

/-- The line of an envelope, with its payloads. -/
def JournalEnvelope.decodeLine (envelope : JournalEnvelope) : Except DecodeError JournalLine := do
  let identity ← identityFromRest envelope.rest
  let watermark ← watermarkFromRest envelope.rest
  let changelog ← changelogFromRest debug envelope.rest
  let part ← partFromRest envelope.rest
  return { node := envelope.node, seq := envelope.seq, event := envelope.event, identity, watermark, changelog, part }

/-- The body of the loop over the lines of a file. -/
def parseLine (path : String) (state : OrdMap NodeId ℕ × List PlacedLine) (raw : String × ℕ) :
    Except JournalError (OrdMap NodeId ℕ × List PlacedLine) := do
  let lineNo := raw.2 + 1
  let envelope ← (readEnvelope reader debug raw.1).mapError (.decode path lineNo)
  let expected := Numbering.next state.1 envelope.node
  if (envelope.seq : ℕ) ≠ expected then throw (.nonDenseSeq path lineNo envelope.node expected envelope.seq)
  else
    let line ← (envelope.decodeLine debug).mapError (.decode path lineNo)
    return (Numbering.bump state.1 envelope.node, state.2 ++ [{ line with source := path, lineNo }])

def parseJournalFile (path : String) : Except JournalError (List PlacedLine) := do
  let text ← (reader.readToString path).mapError (.io path)
  let parsed ← (textLines text).zipIdx.foldlM (parseLine reader debug path) (∅, [])
  return parsed.2

/-- The body of the loop over the lines of all files. -/
def checkLine (counters : OrdMap NodeId ℕ) (line : PlacedLine) : Except JournalError (OrdMap NodeId ℕ) :=
  let expected := Numbering.next counters line.node
  if line.seq ≠ expected then .error (.nonDenseSeq line.source line.lineNo line.node expected line.seq)
  else .ok (Numbering.bump counters line.node)

def checkCrossFileDensity (lines : List PlacedLine) : Except JournalError Unit := do
  let _ ← lines.foldlM checkLine ∅

def ingestJournals (paths : List String) : Except JournalError JournalSet := do
  let lines ← paths.foldlM (fun lines path => return lines ++ (← parseJournalFile reader debug path)) []
  checkCrossFileDensity lines
  return { lines := lines.map (·.toJournalLine) }

end

/-! ### What a line and a file say -/

section

variable (reader : JournalReader)

/-- A text is one object with no repeated key: an envelope, and the payloads its other members announce. -/
def Decodes (raw : String) (line : JournalLine) : Prop :=
  ∃ members envelope, reader.readObject raw = .ok members ∧ members.keys.Nodup ∧
    JournalEnvelope.ofMembers members = some envelope ∧
    line.node = envelope.node ∧ line.seq = envelope.seq ∧ line.event = envelope.event ∧
    Announces "request_id" Members.SpellIdentity envelope.rest line.identity ∧
    Announces "complete_through_ms" Members.SpellWatermark envelope.rest line.watermark ∧
    Announces "changelog_key" Members.SpellChangelog envelope.rest line.changelog ∧
    Announces "part" Members.SpellPart envelope.rest line.part

/-- The file can be read, and its lines decode. -/
def FileDecodes (path : String) (file : List JournalLine) : Prop :=
  ∃ text, reader.readToString path = .ok text ∧ List.Forall₂ (Decodes reader) (textLines text) file

/-- The sequence numbers of each node are 0, 1, 2, … in the order of the lines. -/
def SeqsDense (lines : List JournalLine) : Prop := Numbering.Dense (·.node) (·.seq) lines

end

section

variable {reader : JournalReader} {debug : String → String}

theorem readEnvelope_eq_ok {raw : String} {envelope : JournalEnvelope} : readEnvelope reader debug raw = .ok envelope ↔
    ∃ members, reader.readObject raw = .ok members ∧ members.keys.Nodup ∧
      JournalEnvelope.ofMembers members = some envelope := by
  simp only [readEnvelope, Fallible.bind_eq_ok, Fallible.mapError_eq_ok, rejectDuplicateKeys_eq_ok]
  refine exists_congr fun members => and_congr_right fun _ => ?_
  simp only [exists_const]
  refine and_congr_right fun _ => ?_
  cases JournalEnvelope.ofMembers members with
  | none => simp [throw, throwThe, MonadExceptOf.throw]
  | some found => simp [pure, Except.pure]

theorem decodeLine_eq_ok {envelope : JournalEnvelope} {line : JournalLine} : envelope.decodeLine debug = .ok line ↔
    line.node = envelope.node ∧ line.seq = envelope.seq ∧ line.event = envelope.event ∧
    Announces "request_id" Members.SpellIdentity envelope.rest line.identity ∧
    Announces "complete_through_ms" Members.SpellWatermark envelope.rest line.watermark ∧
    Announces "changelog_key" Members.SpellChangelog envelope.rest line.changelog ∧
    Announces "part" Members.SpellPart envelope.rest line.part := by
  simp only [JournalEnvelope.decodeLine, Fallible.bind_eq_ok, identityFromRest_eq_ok, watermarkFromRest_eq_ok,
    changelogFromRest_eq_ok, partFromRest_eq_ok]
  constructor
  · rintro ⟨identity, hidentity, watermark, hwatermark, changelog, hchangelog, part, hpart, h⟩
    cases h
    exact ⟨rfl, rfl, rfl, hidentity, hwatermark, hchangelog, hpart⟩
  · rintro ⟨hnode, hseq, hevent, hidentity, hwatermark, hchangelog, hpart⟩
    refine ⟨_, hidentity, _, hwatermark, _, hchangelog, _, hpart, ?_⟩
    rw [← hnode, ← hseq, ← hevent]
    rfl

/-! ### One file -/

variable {path : String} {counters : OrdMap NodeId ℕ} {done : List PlacedLine}

/-- The loop's body takes a line that decodes and carries its node's next number. -/
theorem parseLine_eq_ok {raw : String × ℕ} {state : OrdMap NodeId ℕ × List PlacedLine} :
    parseLine reader debug path (counters, done) raw = .ok state ↔
      ∃ line, Decodes reader raw.1 line ∧ line.seq = Numbering.next counters line.node ∧
        state = (Numbering.bump counters line.node, done ++ [{ line with source := path, lineNo := raw.2 + 1 }]) := by
  simp only [parseLine, Fallible.bind_eq_ok, Fallible.mapError_eq_ok, readEnvelope_eq_ok]
  constructor
  · rintro ⟨envelope, ⟨members, hread, hnodup, henvelope⟩, h⟩
    by_cases hseq : (envelope.seq : ℕ) = Numbering.next counters envelope.node
    · rw [if_neg (not_not.mpr hseq)] at h
      obtain ⟨line, hline, h⟩ := Fallible.bind_eq_ok.mp h
      rw [Fallible.mapError_eq_ok, decodeLine_eq_ok] at hline
      cases h
      refine ⟨line, ⟨members, envelope, hread, hnodup, henvelope, hline⟩, ?_, ?_⟩
      · rw [hline.1, hline.2.1, hseq]
      · rw [hline.1]
    · rw [if_pos hseq] at h
      cases h
  · rintro ⟨line, ⟨members, envelope, hread, hnodup, henvelope, hline⟩, hseq, rfl⟩
    refine ⟨envelope, ⟨members, hread, hnodup, henvelope⟩, ?_⟩
    rw [hline.1, hline.2.1] at hseq
    rw [if_neg (not_not.mpr hseq), Fallible.bind_eq_ok]
    refine ⟨line, Fallible.mapError_eq_ok.mpr (decodeLine_eq_ok.mpr hline), ?_⟩
    rw [hline.1]
    rfl

/-- The lines of a file with their places, the first one at `k`. -/
def place (path : String) (k : ℕ) (file : List JournalLine) : List PlacedLine :=
  (file.zipIdx k).map fun line => { line.1 with source := path, lineNo := line.2 + 1 }

@[simp] theorem map_place (path : String) (k : ℕ) (file : List JournalLine) :
    (place path k file).map (·.toJournalLine) = file := by
  induction file generalizing k with
  | nil => rfl
  | cons line file ih =>
    simp only [place, List.zipIdx_cons, List.map_cons] at ih ⊢
    rw [ih]

abbrev PlacedDense (lines : List PlacedLine) : Prop :=
  Numbering.Dense (fun line : PlacedLine => line.node) (fun line => line.seq) lines

/-- The placed lines are numbered as the lines are. -/
theorem dense_placed {lines : List PlacedLine} :
    PlacedDense lines ↔ SeqsDense (lines.map (·.toJournalLine)) := Numbering.dense_map.symm

/-- The rest of the file is taken when it decodes and what is taken stays dense. -/
theorem foldlM_parseLine (hcounted : Numbering.Counted (fun line : PlacedLine => line.node) counters done)
    (hdense : PlacedDense done) {raws : List String} {k : ℕ} {lines : List PlacedLine} :
    (∃ counters', (raws.zipIdx k).foldlM (parseLine reader debug path) (counters, done) = .ok (counters', lines)) ↔
      ∃ file, List.Forall₂ (Decodes reader) raws file ∧ lines = done ++ place path k file ∧ PlacedDense lines := by
  induction raws generalizing counters done k with
  | nil =>
    simp only [List.zipIdx_nil, List.foldlM_nil, pure, Except.pure, Except.ok.injEq, Prod.mk.injEq, exists_eq_left',
      List.forall₂_nil_left_iff, exists_eq_left, place, List.map_nil, List.append_nil]
    exact ⟨fun h => ⟨h.symm, h ▸ hdense⟩, fun h => h.1.symm⟩
  | cons raw raws ih =>
    have hnext (line : JournalLine) : Numbering.next counters line.node =
        Numbering.count (fun line : PlacedLine => line.node) line.node done := hcounted line.node
    simp only [List.zipIdx_cons, List.foldlM_cons, Fallible.bind_eq_ok, parseLine_eq_ok]
    constructor
    · rintro ⟨counters', _, ⟨line, hline, hseq, rfl⟩, h⟩
      have hconcat := Numbering.dense_concat (a := { line with source := path, lineNo := k + 1 }) |>.mpr
        ⟨hdense, hseq.trans (hnext line)⟩
      obtain ⟨file, hfile, hlines, hall⟩ := (ih hcounted.concat hconcat).mp ⟨counters', h⟩
      exact ⟨line :: file, .cons hline hfile, by simpa [place] using hlines, hall⟩
    · rintro ⟨_, hfile, hlines, hall⟩
      cases hfile with
      | @cons _ line _ file hline hfile =>
        have hlines' : lines = (done ++ [{ line with source := path, lineNo := k + 1 }]) ++ place path (k + 1) file := by
          simpa [place] using hlines
        have hconcat := Numbering.dense_left (hlines' ▸ hall)
        have hseq := (Numbering.dense_concat.mp hconcat).2
        obtain ⟨counters', h⟩ := (ih hcounted.concat hconcat).mpr ⟨file, hfile, hlines', hall⟩
        exact ⟨counters', _, ⟨line, hline, hseq.trans (hnext line).symm, rfl⟩, h⟩

/-- A file is parsed when it decodes and is dense on its own. -/
theorem parseJournalFile_eq_ok {lines : List PlacedLine} : parseJournalFile reader debug path = .ok lines ↔
    ∃ file, FileDecodes reader path file ∧ lines = place path 0 file ∧ SeqsDense file := by
  have hrun (text : String) : (∃ counters, (textLines text).zipIdx.foldlM (parseLine reader debug path) (∅, []) =
        .ok (counters, lines)) ↔
      ∃ file, List.Forall₂ (Decodes reader) (textLines text) file ∧ lines = [] ++ place path 0 file ∧ PlacedDense lines :=
    foldlM_parseLine Numbering.counted_nil Numbering.dense_nil
  simp only [parseJournalFile, Fallible.bind_eq_ok, Fallible.mapError_eq_ok]
  constructor
  · rintro ⟨text, htext, ⟨counters, _⟩, h, hpure⟩
    cases hpure
    obtain ⟨file, hfile, hlines, hdense⟩ := (hrun text).mp ⟨counters, h⟩
    rw [List.nil_append] at hlines
    rw [dense_placed, hlines, map_place] at hdense
    exact ⟨file, ⟨text, htext, hfile⟩, hlines, hdense⟩
  · rintro ⟨file, ⟨text, htext, hfile⟩, rfl, hdense⟩
    obtain ⟨counters, h⟩ := (hrun text).mpr ⟨file, hfile, rfl, dense_placed.mpr (by rwa [map_place])⟩
    exact ⟨text, htext, _, h, rfl⟩

/-! ### All files -/

/-- The second check goes through when the lines, with those before them, are dense. -/
theorem foldlM_checkLine (hcounted : Numbering.Counted (fun line : PlacedLine => line.node) counters done)
    (hdense : PlacedDense done) {lines : List PlacedLine} :
    (∃ counters', lines.foldlM checkLine counters = .ok counters') ↔ PlacedDense (done ++ lines) := by
  induction lines generalizing counters done with
  | nil => simp [hdense, pure, Except.pure]
  | cons line lines ih =>
    have hnext : Numbering.next counters line.node =
        Numbering.count (fun line : PlacedLine => line.node) line.node done := hcounted line.node
    rw [List.append_cons, List.foldlM_cons, checkLine, hnext]
    by_cases hseq : line.seq = Numbering.count (fun line : PlacedLine => line.node) line.node done
    · rw [if_neg (not_not.mpr hseq)]
      exact ih hcounted.concat (Numbering.dense_concat.mpr ⟨hdense, hseq⟩)
    · rw [if_pos hseq]
      constructor
      · rintro ⟨_, h⟩
        cases h
      · exact fun h => absurd (Numbering.dense_concat.mp (Numbering.dense_left h)).2 hseq

theorem checkCrossFileDensity_eq_ok {lines : List PlacedLine} {u : Unit} :
    checkCrossFileDensity lines = .ok u ↔ SeqsDense (lines.map (·.toJournalLine)) := by
  have hrun : (∃ counters, lines.foldlM checkLine ∅ = .ok counters) ↔ PlacedDense ([] ++ lines) :=
    foldlM_checkLine Numbering.counted_nil Numbering.dense_nil
  rw [List.nil_append, dense_placed] at hrun
  rw [← hrun, checkCrossFileDensity, Fallible.bind_eq_ok]
  exact exists_congr fun counters => and_iff_left rfl

/-- The files are parsed one after the other. -/
theorem foldlM_parseJournalFile {paths : List String} {before lines : List PlacedLine} :
    paths.foldlM (fun lines path => return lines ++ (← parseJournalFile reader debug path)) before =
        (.ok lines : Except JournalError _) ↔
      ∃ files, List.Forall₂ (FileDecodes reader) paths files ∧ (∀ file ∈ files, SeqsDense file) ∧
        lines = before ++ (List.zipWith (fun path file => place path 0 file) paths files).flatten := by
  induction paths generalizing before with
  | nil =>
    simp only [List.foldlM_nil, pure, Except.pure, Except.ok.injEq, List.forall₂_nil_left_iff, exists_eq_left,
      List.not_mem_nil, false_implies, implies_true, true_and, List.zipWith_nil_left, List.flatten_nil,
      List.append_nil, eq_comm]
  | cons path paths ih =>
    simp only [List.foldlM_cons, Fallible.bind_eq_ok, parseJournalFile_eq_ok, ih]
    constructor
    · rintro ⟨_, ⟨_, ⟨file, hfile, rfl, hdense⟩, hpure⟩, files, hfiles, hall, rfl⟩
      cases hpure
      exact ⟨file :: files, .cons hfile hfiles, List.forall_mem_cons.mpr ⟨hdense, hall⟩, by simp⟩
    · rintro ⟨_, hfiles, hall, rfl⟩
      cases hfiles with
      | @cons _ file _ files hfile hfiles =>
        obtain ⟨hdense, hall⟩ := List.forall_mem_cons.mp hall
        exact ⟨_, ⟨_, ⟨file, hfile, rfl, hdense⟩, rfl⟩, files, hfiles, hall, by simp⟩

/-- No node has lines in both files. -/
def NoSharedNode (file other : List JournalLine) : Prop := ∀ a ∈ file, ∀ b ∈ other, a.node ≠ b.node

theorem map_flatten_place {paths : List String} {files : List (List JournalLine)} {R : String → List JournalLine → Prop}
    (h : List.Forall₂ R paths files) :
    (List.zipWith (fun path file => place path 0 file) paths files).flatten.map (·.toJournalLine) = files.flatten := by
  induction h with
  | nil => rfl
  | cons _ _ ih => simp [ih]

/-- **Ingestion accepts exactly the dense journals that are not split over files.** The set holds every line, once and
    in the order of the files. -/
theorem ingestJournals_eq_ok (reader : JournalReader) (debug : String → String) (paths : List String)
    (journals : JournalSet) : ingestJournals reader debug paths = .ok journals ↔
      ∃ files, List.Forall₂ (FileDecodes reader) paths files ∧ journals.lines = files.flatten ∧
        SeqsDense files.flatten ∧ files.Pairwise NoSharedNode := by
  simp only [ingestJournals, Fallible.bind_eq_ok, foldlM_parseJournalFile, List.nil_append,
    checkCrossFileDensity_eq_ok, exists_const]
  constructor
  · rintro ⟨_, ⟨files, hfiles, hown, rfl⟩, hdense, hpure⟩
    cases hpure
    rw [map_flatten_place hfiles] at hdense ⊢
    exact ⟨files, hfiles, rfl, hdense, (Numbering.dense_flatten hdense).mp hown⟩
  · rintro ⟨files, hfiles, hlines, hdense, hshare⟩
    refine ⟨_, ⟨files, hfiles, (Numbering.dense_flatten hdense).mpr hshare, rfl⟩, ?_⟩
    rw [map_flatten_place hfiles, ← hlines]
    exact ⟨hlines ▸ hdense, rfl⟩

end

/-! ### A journal in two files -/

def acceptLine (seq : ℕ) : String := "\x7b\"node\":\"n1\",\"seq\":" ++ toString seq ++ ",\"event\":\"Accept\"\x7d"

/-- One node's journal of two lines, whole in one file and split over two. -/
def rotatedJournal : JournalReader where
  readToString path :=
    if path = "whole.ndjson" then .ok (acceptLine 0 ++ "\n" ++ acceptLine 1 ++ "\n")
    else if path = "first.ndjson" then .ok (acceptLine 0 ++ "\n")
    else if path = "second.ndjson" then .ok (acceptLine 1 ++ "\n")
    else .error "No such file or directory (os error 2)"
  readObject raw :=
    if raw = acceptLine 0 then .ok [("node", .str "n1"), ("seq", .int 0), ("event", .str "Accept")]
    else if raw = acceptLine 1 then .ok [("node", .str "n1"), ("seq", .int 1), ("event", .str "Accept")]
    else .error "expected value at line 1 column 1"

def acceptedLine (seq : ℕ) : JournalLine := { node := ⟨"n1"⟩, seq, event := .accept }

/-- The two files decode and are dense in their order; they are refused, and the unsplit file is not. -/
theorem split_journal_refused :
    List.Forall₂ (FileDecodes rotatedJournal) ["first.ndjson", "second.ndjson"] [[acceptedLine 0], [acceptedLine 1]] ∧
    SeqsDense [acceptedLine 0, acceptedLine 1] ∧
    ingestJournals rotatedJournal id ["first.ndjson", "second.ndjson"] =
      .error (.nonDenseSeq "second.ndjson" 1 ⟨"n1"⟩ 0 1) ∧
    ingestJournals rotatedJournal id ["whole.ndjson"] = .ok ⟨[acceptedLine 0, acceptedLine 1]⟩ := by
  have hfirst : Decodes rotatedJournal (acceptLine 0) (acceptedLine 0) :=
    ⟨_, _, rfl, by decide, rfl, rfl, rfl, rfl, List.not_mem_nil, List.not_mem_nil, List.not_mem_nil, List.not_mem_nil⟩
  have hsecond : Decodes rotatedJournal (acceptLine 1) (acceptedLine 1) :=
    ⟨_, _, rfl, by decide, rfl, rfl, rfl, rfl, List.not_mem_nil, List.not_mem_nil, List.not_mem_nil, List.not_mem_nil⟩
  refine ⟨.cons ⟨_, rfl, .cons hfirst .nil⟩ (.cons ⟨_, rfl, .cons hsecond .nil⟩ .nil), fun k => ?_, rfl, rfl⟩
  by_cases hk : (⟨"n1"⟩ : NodeId) = k
  · simp [Numbering.numbers, Numbering.count, acceptedLine, hk, List.range_succ]
  · simp [Numbering.numbers, Numbering.count, acceptedLine, hk]

end Duckspout
