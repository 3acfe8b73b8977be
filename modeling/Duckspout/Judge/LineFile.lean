import Duckspout.Judge.Ingest

/-! A file of JSON objects as its writers leave it: one object a line, each line flushed with its line feed, and perhaps
    the beginning of one more that was never finished.

    `serde_json` writes the text of a line and is a parameter here, like its reader: what it writes it reads back, and a
    line has no line break. -/

namespace Duckspout

/-- `serde_json::to_string` of an object. -/
abbrev WriteLine := Members → String

/-- The file after a number of lines. -/
def lineFile (write : WriteLine) (objects : List Members) : String :=
  objects.foldl (fun text members => text ++ write members ++ "\n") ""

/-- What is relied on of `serde_json`: a line it writes has no line break, and is read back as it was. -/
structure WriteLine.ReadsBack (write : WriteLine) (reader : JournalReader) (objects : List Members) : Prop where
  no_break : ∀ members ∈ objects, ∀ c ∈ (write members).toList, c ≠ '\n' ∧ c ≠ '\r'
  read_write : ∀ members ∈ objects, reader.readObject (write members) = .ok members

theorem WriteLine.ReadsBack.subset {write : WriteLine} {reader : JournalReader} {objects some : List Members}
    (h : write.ReadsBack reader objects) (hsome : some ⊆ objects) : write.ReadsBack reader some where
  no_break members hmembers := h.no_break members (hsome hmembers)
  read_write members hmembers := h.read_write members (hsome hmembers)

theorem JsonValue.u64?_int (n : U64) : (JsonValue.int n).u64? = some n := by
  have hlt : ((n : ℕ) : ℤ).toNat < 2 ^ 64 := by
    rw [Int.toNat_natCast]
    exact n.isLt
  simp only [JsonValue.u64?, dif_pos hlt, if_pos (Int.natCast_nonneg _)]
  exact congrArg some (Fin.ext (Int.toNat_natCast _))

/-! ### Lines -/

theorem splitLines_append {cs current rest : List Char} (h : ∀ c ∈ cs, c ≠ '\n' ∧ c ≠ '\r')
    (hcurrent : ∀ c ∈ current, c ≠ '\r') :
    splitLines current (cs ++ '\n' :: rest) = String.ofList (current.reverse ++ cs) :: splitLines [] rest := by
  induction cs generalizing current with
  | nil =>
    rw [List.nil_append, List.append_nil, splitLines]
    intro line hline
    exact hcurrent '\r' (hline ▸ List.mem_cons_self) rfl
  | cons c cs ih =>
    obtain ⟨⟨hfeed, hreturn⟩, hcs⟩ := List.forall_mem_cons.mp h
    have hnext : splitLines current (c :: (cs ++ '\n' :: rest)) = splitLines (c :: current) (cs ++ '\n' :: rest) := by
      rw [splitLines]
      exact hfeed
    rw [List.cons_append, hnext, ih hcs (List.forall_mem_cons.mpr ⟨hreturn, hcurrent⟩)]
    simp

/-- Text after the last line feed is a line of its own, if there is any. -/
theorem splitLines_tail {cs current : List Char} (h : ∀ c ∈ cs, c ≠ '\n') :
    splitLines current cs = if current.reverse ++ cs = [] then [] else [String.ofList (current.reverse ++ cs)] := by
  induction cs generalizing current with
  | nil => simp [splitLines]
  | cons c cs ih =>
    obtain ⟨hfeed, hcs⟩ := List.forall_mem_cons.mp h
    have hnext : splitLines current (c :: cs) = splitLines (c :: current) cs := by
      rw [splitLines]
      exact hfeed
    rw [hnext, ih hcs]
    simp

theorem toList_lineFile (write : WriteLine) (objects : List Members) :
    (lineFile write objects).toList = (objects.map fun members => (write members).toList ++ ['\n']).flatten := by
  have hfold : ∀ text : String, (objects.foldl (fun text members => text ++ write members ++ "\n") text).toList =
      text.toList ++ (objects.map fun members => (write members).toList ++ ['\n']).flatten := by
    induction objects with
    | nil => simp
    | cons members objects ih =>
      intro text
      rw [List.foldl_cons, ih]
      simp
  rw [lineFile, hfold]
  simp

/-- The lines of the file are the lines written, and what there is of another. -/
theorem textLines_lineFile {write : WriteLine} {objects : List Members}
    (h : ∀ members ∈ objects, ∀ c ∈ (write members).toList, c ≠ '\n' ∧ c ≠ '\r') (torn : String)
    (htorn : ∀ c ∈ torn.toList, c ≠ '\n') :
    textLines (lineFile write objects ++ torn) = objects.map write ++ if torn = "" then [] else [torn] := by
  rw [textLines, String.toList_append, toList_lineFile]
  induction objects with
  | nil =>
    rw [List.map_nil, List.flatten_nil, List.nil_append, splitLines_tail htorn]
    simp
  | cons members objects ih =>
    obtain ⟨hline, hlines⟩ := List.forall_mem_cons.mp h
    rw [List.map_cons, List.flatten_cons, List.append_assoc, List.append_assoc, List.singleton_append,
      splitLines_append hline (fun _ hc => absurd hc List.not_mem_nil), ih hlines]
    simp

/-- The file without another is read line by line. -/
theorem textLines_whole {write : WriteLine} {objects : List Members}
    (h : ∀ members ∈ objects, ∀ c ∈ (write members).toList, c ≠ '\n' ∧ c ≠ '\r') :
    textLines (lineFile write objects) = objects.map write := by
  have hwhole := textLines_lineFile h "" (by simp)
  rwa [if_pos rfl, List.append_nil, String.append_empty] at hwhole

/-! ### Plain text -/

/-- The text of an object of strings and numbers that need no escape. -/
def plainText (members : Members) : String :=
  let member := fun pair : String × JsonValue =>
    "\"" ++ pair.1 ++ "\":" ++ match pair.2 with
      | .str s => "\"" ++ s ++ "\""
      | .int n => toString n
      | _ => "null"
  "\x7b" ++ ",".intercalate (members.map member) ++ "\x7d"

def unbroken (text : String) : Bool := text.toList.all fun c => c != '\n' && c != '\r'

theorem unbroken_append (a b : String) : unbroken (a ++ b) = (unbroken a && unbroken b) := by
  rw [unbroken, String.toList_append, List.all_append, unbroken, unbroken]

theorem unbroken_iff {text : String} : unbroken text = true ↔ ∀ c ∈ text.toList, c ≠ '\n' ∧ c ≠ '\r' := by
  simp [unbroken]

end Duckspout
