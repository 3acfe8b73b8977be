import Duckspout.Judge.Continuity
import Duckspout.Judge.Ingest

/-! Reading the fault ledger back (`duckspout-judge/src/fault_ledger.rs`): up to three lines a fault, put together by its id
    into one window.

    A ledger in which a fault journals a phase twice, or changes its kind or its target, is refused. In one that is read
    the order of the lines does not matter. -/

namespace Duckspout

inductive FaultPhase where
  | armed
  | started
  | ended
  deriving DecidableEq, Repr

namespace FaultPhase

/-- The name of a phase on the wire. -/
def name : FaultPhase → String
  | armed => "armed"
  | started => "started"
  | ended => "ended"

def ofName (name : String) : Option FaultPhase := [armed, started, ended].find? (·.name = name)

/-- The phase in a derived `Debug`. -/
def debug : FaultPhase → String
  | armed => "Armed"
  | started => "Started"
  | ended => "Ended"

@[simp] theorem ofName_name (phase : FaultPhase) : ofName phase.name = some phase := by cases phase <;> decide

end FaultPhase

/-- A line of the ledger; its `detail` is not read. -/
structure FaultLine where
  faultId : String
  kind : String
  targetNode : String
  phase : FaultPhase
  atMs : U64
  deriving DecidableEq, Repr

def FaultLine.ofMembers (members : Members) : Option FaultLine := do
  return {
    faultId := ← members.required "fault_id" JsonValue.str?
    kind := ← members.required "kind" JsonValue.str?
    targetNode := ← members.required "target_node" JsonValue.str?
    phase := ← members.required "phase" fun value => value.variant?.bind FaultPhase.ofName
    atMs := ← members.required "at_ms" JsonValue.u64? }

inductive FaultLedgerError where
  | io (path : String) (source : String)
  | decode (path : String) (lineNo : ℕ) (source : DecodeError)
  | repeatedPhase (path : String) (lineNo : ℕ) (faultId : String) (phase : FaultPhase)
  | inconsistentWindow (path : String) (lineNo : ℕ) (faultId found known : String)
  deriving DecidableEq, Repr

namespace FaultWindow

/-- When a phase was journaled. -/
def slot (w : FaultWindow) : FaultPhase → Option U64
  | .armed => w.armedAtMs
  | .started => w.startedAtMs
  | .ended => w.endedAtMs

def mark (w : FaultWindow) (phase : FaultPhase) (atMs : U64) : FaultWindow :=
  match phase with
  | .armed => { w with armedAtMs := some atMs }
  | .started => { w with startedAtMs := some atMs }
  | .ended => { w with endedAtMs := some atMs }

theorem slot_mark (w : FaultWindow) (phase other : FaultPhase) (atMs : U64) :
    (w.mark phase atMs).slot other = if phase = other then some atMs else w.slot other := by
  cases phase <;> cases other <;> rfl

@[simp] theorem faultId_mark (w : FaultWindow) (phase : FaultPhase) (atMs : U64) :
    (w.mark phase atMs).faultId = w.faultId := by
  cases phase <;> rfl

@[simp] theorem kind_mark (w : FaultWindow) (phase : FaultPhase) (atMs : U64) : (w.mark phase atMs).kind = w.kind := by
  cases phase <;> rfl

@[simp] theorem targetNode_mark (w : FaultWindow) (phase : FaultPhase) (atMs : U64) :
    (w.mark phase atMs).targetNode = w.targetNode := by
  cases phase <;> rfl

theorem ext_slot {w v : FaultWindow} (hid : w.faultId = v.faultId) (hkind : w.kind = v.kind)
    (htarget : w.targetNode = v.targetNode) (hslot : ∀ phase, w.slot phase = v.slot phase) : w = v := by
  obtain ⟨id, kind, target, armed, started, ended⟩ := w
  obtain ⟨id', kind', target', armed', started', ended'⟩ := v
  obtain rfl : armed = armed' := hslot .armed
  obtain rfl : started = started' := hslot .started
  obtain rfl : ended = ended' := hslot .ended
  simp_all

end FaultWindow

section

variable (reader : JournalReader) (debug : String → String)

/-- The line of a text that is one object without a repeated key. -/
def readFaultLine (raw : String) : Except DecodeError FaultLine := do
  let members ← (reader.readObject raw).mapError .json
  rejectDuplicateKeys debug members
  match FaultLine.ofMembers members with
  | some line => return line
  | none => throw (.malformed "FaultLine")

/-- The window of a line's fault, before the line is noted. -/
def windowOf (windows : OrdMap String FaultWindow) (line : FaultLine) : FaultWindow :=
  (windows[line.faultId]?).getD ⟨line.faultId, line.kind, line.targetNode, none, none, none⟩

def noteFault (path : String) (windows : OrdMap String FaultWindow) (line : FaultLine × ℕ) :
    Except FaultLedgerError (OrdMap String FaultWindow) :=
  let window := windowOf windows line.1
  if window.kind ≠ line.1.kind ∨ window.targetNode ≠ line.1.targetNode then
    .error (.inconsistentWindow path (line.2 + 1) line.1.faultId (line.1.kind ++ "/" ++ line.1.targetNode)
      (window.kind ++ "/" ++ window.targetNode))
  else if (window.slot line.1.phase).isSome then
    .error (.repeatedPhase path (line.2 + 1) line.1.faultId line.1.phase)
  else .ok (windows.insert line.1.faultId (window.mark line.1.phase line.1.atMs))

/-- The body of the loop over the lines of the ledger. -/
def parseFault (path : String) (windows : OrdMap String FaultWindow) (raw : String × ℕ) :
    Except FaultLedgerError (OrdMap String FaultWindow) := do
  let line ← (readFaultLine reader debug raw.1).mapError (.decode path (raw.2 + 1))
  noteFault path windows (line, raw.2)

def parseFaultLedger (path : String) : Except FaultLedgerError FaultLedger := do
  let text ← (reader.readToString path).mapError (.io path)
  let windows ← (textLines text).zipIdx.foldlM (parseFault reader debug path) ∅
  return { windows := windows.toList.map (·.2) }

end

/-! ### What the ledger says -/

/-- Two lines of one fault agree on it and are of different phases. -/
def FaultLine.Agrees (a b : FaultLine) : Prop :=
  a.faultId = b.faultId → a.kind = b.kind ∧ a.targetNode = b.targetNode ∧ a.phase ≠ b.phase

instance (a b : FaultLine) : Decidable (a.Agrees b) := inferInstanceAs (Decidable (_ → _))

def FaultLines.Consistent (lines : List FaultLine) : Prop := lines.Pairwise FaultLine.Agrees

/-- The window is what the lines say of its fault. -/
structure FaultLines.Tell (lines : List FaultLine) (w : FaultWindow) : Prop where
  named : ∃ line ∈ lines, line.faultId = w.faultId
  same : ∀ line ∈ lines, line.faultId = w.faultId → line.kind = w.kind ∧ line.targetNode = w.targetNode
  slot : ∀ phase atMs, w.slot phase = some atMs ↔
    ∃ line ∈ lines, line.faultId = w.faultId ∧ line.phase = phase ∧ line.atMs = atMs

open FaultLines (Consistent Tell)

variable {lines done : List FaultLine} {line : FaultLine} {w v : FaultWindow} {windows windows' : OrdMap String FaultWindow}

namespace FaultLines

theorem Tell.unique (h : Tell lines w) (h' : Tell lines v) (hid : w.faultId = v.faultId) : w = v := by
  obtain ⟨line, hline, hnamed⟩ := h.named
  obtain ⟨hkind, htarget⟩ := h.same line hline hnamed
  obtain ⟨hkind', htarget'⟩ := h'.same line hline (hnamed.trans hid)
  refine FaultWindow.ext_slot hid (hkind.symm.trans hkind') (htarget.symm.trans htarget') fun phase => Option.ext fun atMs => ?_
  rw [h.slot, h'.slot, hid]

/-- The windows noted are those of the lines noted. -/
structure Tracks (windows : OrdMap String FaultWindow) (lines : List FaultLine) : Prop where
  tell : ∀ id w, windows[id]? = some w → w.faultId = id ∧ Tell lines w
  noted : ∀ line ∈ lines, ∃ w, windows[line.faultId]? = some w

theorem tracks_nil : Tracks ∅ [] :=
  ⟨fun _ _ h => by simp at h, fun _ h => absurd h List.not_mem_nil⟩

/-- The window of a line says what the lines before it say of its fault; it is the line's where there are none. -/
theorem Tracks.windowOf (h : Tracks windows done) (line : FaultLine) :
    (windowOf windows line).faultId = line.faultId ∧
      (∀ l ∈ done, l.faultId = line.faultId →
        l.kind = (windowOf windows line).kind ∧ l.targetNode = (windowOf windows line).targetNode) ∧
      (∀ phase atMs, (windowOf windows line).slot phase = some atMs ↔
        ∃ l ∈ done, l.faultId = line.faultId ∧ l.phase = phase ∧ l.atMs = atMs) ∧
      ((∃ l ∈ done, l.faultId = line.faultId) ∨
        (windowOf windows line).kind = line.kind ∧ (windowOf windows line).targetNode = line.targetNode) := by
  rcases hget : windows[line.faultId]? with _ | w
  · have hnone : ∀ l ∈ done, l.faultId ≠ line.faultId := by
      intro l hl hid
      obtain ⟨w, hw⟩ := h.noted l hl
      rw [hid, hget] at hw
      cases hw
    rw [Duckspout.windowOf, hget, Option.getD_none]
    refine ⟨rfl, fun l hl hid => absurd hid (hnone l hl), fun phase atMs => ?_, Or.inr ⟨rfl, rfl⟩⟩
    refine iff_of_false ?_ fun ⟨l, hl, hid, _⟩ => hnone l hl hid
    cases phase <;> simp [FaultWindow.slot]
  · obtain ⟨hid, hnamed, hsame, hslot⟩ := h.tell _ _ hget
    rw [Duckspout.windowOf, hget, Option.getD_some]
    rw [hid] at hnamed hsame hslot
    exact ⟨hid, hsame, hslot, Or.inl hnamed⟩

theorem consistent_concat : Consistent (done ++ [line]) ↔ Consistent done ∧ ∀ l ∈ done, l.Agrees line := by
  simp [Consistent, List.pairwise_append]

/-- A line is noted where it agrees with every line before it. -/
theorem Tracks.noteFault (h : Tracks windows done) (path : String) (n : ℕ) :
    (∃ windows', noteFault path windows (line, n) = .ok windows') ↔ ∀ l ∈ done, l.Agrees line := by
  obtain ⟨-, hsame, hslot, hnew⟩ := h.windowOf line
  rw [Duckspout.noteFault]
  dsimp only
  split
  · rename_i hother
    refine iff_of_false (fun ⟨_, h⟩ => by cases h) fun hagrees => ?_
    have : (Duckspout.windowOf windows line).kind = line.kind ∧
        (Duckspout.windowOf windows line).targetNode = line.targetNode := by
      rcases hnew with ⟨l, hl, hid⟩ | hnew
      · obtain ⟨hkind, htarget, -⟩ := hagrees l hl hid
        obtain ⟨hkind', htarget'⟩ := hsame l hl hid
        exact ⟨hkind'.symm.trans hkind, htarget'.symm.trans htarget⟩
      · exact hnew
    exact hother.elim (fun hne => hne this.1) fun hne => hne this.2
  · rename_i hagree
    rw [not_or, not_not, not_not] at hagree
    split
    · rename_i htaken
      refine iff_of_false (fun ⟨_, h⟩ => by cases h) fun hagrees => ?_
      obtain ⟨atMs, hat⟩ := Option.isSome_iff_exists.mp htaken
      obtain ⟨l, hl, hid, hphase, -⟩ := (hslot _ _).mp hat
      exact (hagrees l hl hid).2.2 hphase
    · rename_i hfree
      refine iff_of_true ⟨_, rfl⟩ fun l hl hid => ?_
      obtain ⟨hkind, htarget⟩ := hsame l hl hid
      refine ⟨hkind.trans hagree.1, htarget.trans hagree.2, fun hphase => hfree ?_⟩
      exact Option.isSome_iff_exists.mpr ⟨l.atMs, (hslot _ _).mpr ⟨l, hl, hid, hphase, rfl⟩⟩

/-- A line noted is one of the lines of its window. -/
theorem Tracks.noted_step (h : Tracks windows done) {path : String} {n : ℕ}
    (hstep : Duckspout.noteFault path windows (line, n) = .ok windows') : Tracks windows' (done ++ [line]) := by
  have hagrees := (h.noteFault path n).mp ⟨windows', hstep⟩
  obtain ⟨hid, hsame, hslot, hnew⟩ := h.windowOf line
  rw [Duckspout.noteFault] at hstep
  dsimp only at hstep
  split at hstep
  · cases hstep
  split at hstep
  · cases hstep
  rename_i hagree hfree
  rw [not_or, not_not, not_not] at hagree
  cases hstep
  refine ⟨fun id w hw => ?_, fun l hl => ?_⟩
  · rw [OrdMap.get_insert] at hw
    split at hw
    · rename_i heq
      cases hw
      refine ⟨by rw [FaultWindow.faultId_mark, hid, heq], ⟨line, by simp, by simp [hid]⟩, fun l hl hnamed => ?_,
        fun phase atMs => ?_⟩
      · rw [FaultWindow.faultId_mark, hid] at hnamed
        rw [FaultWindow.kind_mark, FaultWindow.targetNode_mark]
        rcases List.mem_append.mp hl with hl | hl
        · exact hsame l hl hnamed
        · rw [List.mem_singleton.mp hl]
          exact ⟨hagree.1.symm, hagree.2.symm⟩
      · rw [FaultWindow.slot_mark, FaultWindow.faultId_mark, hid]
        split
        · rename_i hphase
          subst hphase
          rw [Option.some.injEq]
          constructor
          · rintro rfl
            exact ⟨line, by simp, rfl, rfl, rfl⟩
          · rintro ⟨l, hl, hnamed, hphase, hat⟩
            rcases List.mem_append.mp hl with hl | hl
            · exact absurd hphase (hagrees l hl hnamed).2.2
            · rw [List.mem_singleton.mp hl] at hat
              exact hat
        · rename_i hphase
          rw [hslot]
          constructor
          · rintro ⟨l, hl, hl'⟩
            exact ⟨l, List.mem_append_left _ hl, hl'⟩
          · rintro ⟨l, hl, hnamed, hother, hat⟩
            rcases List.mem_append.mp hl with hl | hl
            · exact ⟨l, hl, hnamed, hother, hat⟩
            · rw [List.mem_singleton.mp hl] at hother
              exact absurd hother hphase
    · rename_i hne
      obtain ⟨rfl, hnamed, hsame', hslot'⟩ := h.tell id w hw
      have hother : ∀ l, l ∈ done ++ [line] ∧ l.faultId = w.faultId ↔ l ∈ done ∧ l.faultId = w.faultId := by
        intro l
        rw [List.mem_append, List.mem_singleton]
        refine ⟨fun ⟨hl, hnamed⟩ => ⟨hl.resolve_right fun heq => hne (heq ▸ hnamed), hnamed⟩,
          fun ⟨hl, hnamed⟩ => ⟨Or.inl hl, hnamed⟩⟩
      refine ⟨rfl, ?_, fun l hl hnamed => hsame' l ((hother l).mp ⟨hl, hnamed⟩).1 hnamed, fun phase atMs => ?_⟩
      · obtain ⟨l, hl⟩ := hnamed
        exact ⟨l, (hother l).mpr hl⟩
      · rw [hslot']
        refine exists_congr fun l => ?_
        rw [← and_assoc, ← hother l, and_assoc]
  · rw [OrdMap.get_insert]
    split
    · exact ⟨_, rfl⟩
    · rename_i hne
      rcases List.mem_append.mp hl with hl | hl
      · exact h.noted l hl
      · rw [List.mem_singleton.mp hl] at hne
        exact absurd rfl hne

/-- The lines are all noted where they are consistent. -/
theorem foldlM_noteFault {path : String} {n : ℕ} (h : Tracks windows done) (hdone : Consistent done) :
    (∃ windows', (lines.zipIdx n).foldlM (Duckspout.noteFault path) windows = .ok windows') ↔ Consistent (done ++ lines) := by
  induction lines generalizing windows done n with
  | nil => exact iff_of_true ⟨windows, rfl⟩ (by rwa [List.append_nil])
  | cons line lines ih =>
    rw [List.append_cons, List.zipIdx_cons, List.foldlM_cons]
    rcases hstep : Duckspout.noteFault path windows (line, n) with error | next
    · refine iff_of_false (fun ⟨_, h⟩ => by cases h) fun hall => ?_
      have hagrees := (consistent_concat.mp (List.pairwise_append.mp hall).1).2
      obtain ⟨next, hok⟩ := (h.noteFault path n).mpr hagrees
      rw [hstep] at hok
      cases hok
    · have hagrees := (h.noteFault path n).mp ⟨next, hstep⟩
      exact ih (h.noted_step hstep) (consistent_concat.mpr ⟨hdone, hagrees⟩)

theorem tracks_foldlM {path : String} {n : ℕ} (h : Tracks windows done)
    (hrun : (lines.zipIdx n).foldlM (Duckspout.noteFault path) windows = .ok windows') : Tracks windows' (done ++ lines) := by
  induction lines generalizing windows done n with
  | nil =>
    cases hrun
    rwa [List.append_nil]
  | cons line lines ih =>
    rw [List.zipIdx_cons, List.foldlM_cons] at hrun
    obtain ⟨next, hstep, hrest⟩ := Fallible.bind_eq_ok.mp hrun
    rw [List.append_cons]
    exact ih (h.noted_step hstep) hrest

end FaultLines

/-! ### What is accepted -/

section

variable {reader : JournalReader} {debug : String → String} {path : String} {n : ℕ} {raws : List String}

/-- A text is one object with no repeated key, and its members are those of a line. -/
def DecodesFault (reader : JournalReader) (raw : String) (line : FaultLine) : Prop :=
  ∃ members, reader.readObject raw = .ok members ∧ members.keys.Nodup ∧ FaultLine.ofMembers members = some line

theorem readFaultLine_eq_ok {raw : String} : readFaultLine reader debug raw = .ok line ↔ DecodesFault reader raw line := by
  simp only [readFaultLine, Fallible.bind_eq_ok, Fallible.mapError_eq_ok, rejectDuplicateKeys_eq_ok, DecodesFault,
    exists_const]
  refine exists_congr fun members => and_congr_right fun _ => and_congr_right fun _ => ?_
  cases FaultLine.ofMembers members with
  | none => exact iff_of_false (fun h => by cases h) (fun h => by cases h)
  | some read =>
    constructor
    · intro h
      cases h
      rfl
    · intro h
      cases h
      rfl

theorem parseFault_eq_ok {raw : String × ℕ} : parseFault reader debug path windows raw = .ok windows' ↔
    ∃ line, DecodesFault reader raw.1 line ∧ noteFault path windows (line, raw.2) = .ok windows' := by
  simp only [parseFault, Fallible.bind_eq_ok, Fallible.mapError_eq_ok, readFaultLine_eq_ok]

theorem foldlM_parseFault : (raws.zipIdx n).foldlM (parseFault reader debug path) windows = .ok windows' ↔
    ∃ lines, List.Forall₂ (DecodesFault reader) raws lines ∧ (lines.zipIdx n).foldlM (noteFault path) windows = .ok windows' := by
  induction raws generalizing windows n with
  | nil => simp
  | cons raw raws ih =>
    simp only [List.zipIdx_cons, List.foldlM_cons, Fallible.bind_eq_ok, parseFault_eq_ok, ih]
    constructor
    · rintro ⟨next, ⟨line, hline, hnote⟩, lines, hlines, hrest⟩
      refine ⟨line :: lines, .cons hline hlines, ?_⟩
      rw [List.zipIdx_cons, List.foldlM_cons]
      exact Fallible.bind_eq_ok.mpr ⟨next, hnote, hrest⟩
    · rintro ⟨_, hlines, hrest⟩
      cases hlines with
      | @cons _ line _ lines hline hlines =>
        rw [List.zipIdx_cons, List.foldlM_cons] at hrest
        obtain ⟨next, hnote, hrest⟩ := Fallible.bind_eq_ok.mp hrest
        exact ⟨next, ⟨line, hline, hnote⟩, lines, hlines, hrest⟩

/-- The windows of a ledger: in the order of their ids, one for each fault that its lines tell of. -/
structure FaultLedger.Of (ledger : FaultLedger) (lines : List FaultLine) : Prop where
  sorted : ledger.windows.Pairwise (·.faultId < ·.faultId)
  mem_iff : ∀ w, w ∈ ledger.windows ↔ Tell lines w
  noted : ∀ line ∈ lines, ∃ w ∈ ledger.windows, w.faultId = line.faultId

theorem FaultLines.Tracks.ledger (h : FaultLines.Tracks windows lines) :
    ({ windows := windows.toList.map (·.2) } : FaultLedger).Of lines := by
  have hids : ∀ x ∈ windows.toList, x.2.faultId = x.1 := fun x hx => (h.tell _ _ (OrdMap.mem_toList.mp hx)).1
  refine ⟨?_, fun w => ?_, fun line hline => ?_⟩
  · rw [List.pairwise_map]
    refine (Std.ExtTreeMap.ordered_keys_toList.imp_of_mem ?_)
    intro a b ha hb hlt
    rw [hids a ha, hids b hb]
    exact compare_lt_iff_lt.mp hlt
  · rw [List.mem_map]
    constructor
    · rintro ⟨x, hx, rfl⟩
      exact (h.tell _ _ (OrdMap.mem_toList.mp hx)).2
    · intro hw
      obtain ⟨line, hline, hnamed⟩ := hw.named
      obtain ⟨v, hv⟩ := h.noted line hline
      obtain ⟨hid, htell⟩ := h.tell _ _ hv
      obtain rfl := htell.unique hw (hid.trans hnamed)
      exact ⟨(line.faultId, v), OrdMap.mem_toList.mpr hv, rfl⟩
  · obtain ⟨w, hw⟩ := h.noted line hline
    exact ⟨w, List.mem_map.mpr ⟨_, OrdMap.mem_toList.mpr hw, rfl⟩, (h.tell _ _ hw).1⟩

theorem exists_parseFaultLedger {text : String} (htext : reader.readToString path = .ok text)
    (hlines : List.Forall₂ (DecodesFault reader) (textLines text) lines) (hconsistent : Consistent lines) :
    ∃ ledger, parseFaultLedger reader debug path = .ok ledger ∧ ledger.Of lines := by
  obtain ⟨windows, hrun⟩ : ∃ windows, (lines.zipIdx 0).foldlM (noteFault path) ∅ = .ok windows :=
    (FaultLines.foldlM_noteFault FaultLines.tracks_nil .nil).mpr hconsistent
  refine ⟨{ windows := windows.toList.map (·.2) }, ?_, (FaultLines.tracks_foldlM FaultLines.tracks_nil hrun).ledger⟩
  simp only [parseFaultLedger, Fallible.bind_eq_ok, Fallible.mapError_eq_ok]
  exact ⟨text, htext, windows, foldlM_parseFault.mpr ⟨lines, hlines, hrun⟩, rfl⟩

end

end Duckspout
