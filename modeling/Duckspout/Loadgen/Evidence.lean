import Duckspout.Loadgen.Run

/-! What the judge reads of a load generator, whenever it stopped: its journal and its summary against its run. -/

namespace Duckspout

namespace Loadgen

namespace LoadgenRun

variable {cli : Cli} {startNonce : ℕ} {events : List LoadgenEvent} {run : LoadgenRun} {order : List (ℕ × TraceEvent)}

/-- The run has sent no more requests than there are numbers, and no more records than there are indices. -/
structure RecordsFit (cli : Cli) (run : LoadgenRun) : Prop where
  requests : run.tasks.length < 2 ^ 64
  records : run.tasks.length * cli.batchSize < 2 ^ 64

/-- A request was answered, or lost its connection, and is due the line of that event. -/
def Due (events : List LoadgenEvent) (number : ℕ) (event : TraceEvent) : Prop :=
  ∃ raced, LoadgenEvent.task number (.settle raced) ∈ events ∧ (resolve raced).event = some event

/-! ### The journal -/

/-- The lines of distinct requests, each of which was sent and is due its line: all whose tasks have journaled it, and no
    other but the one of a line that was begun and not ended. -/
structure Lines (cli : Cli) (startNonce : ℕ) (events : List LoadgenEvent) (run : LoadgenRun)
    (order : List (ℕ × TraceEvent)) (lines : List JournalLine) : Prop where
  once : (order.map (·.1)).Nodup
  lines : lines = order.zipIdx.map (lineAt cli startNonce)
  sent : ∀ told ∈ order, told.1 < run.tasks.length
  due : ∀ told ∈ order, Due events told.1 told.2
  told : ∀ number event, toldOf run.tasks number = some event → (number, event) ∈ order
  only : ∀ told ∈ order, toldOf run.tasks told.1 = some told.2 ∨
    ∃ torn ∈ run.journal.torn, torn.1 = lineAt cli startNonce (told, run.journal.lines.length)

theorem toldOf_due (h : Settled events run) {number : ℕ} {event : TraceEvent} (htold : toldOf run.tasks number = some event) :
    number < run.tasks.length ∧ Due events number event := by
  obtain ⟨task, htask, hevent⟩ := Option.bind_eq_some_iff.mp htold
  refine ⟨(List.getElem?_eq_some_iff.mp htask).1, ?_⟩
  have hresolution : ∃ resolution, task.phase.resolution = some resolution ∧ resolution.event = some event := by
    cases hphase : task.phase <;> simp_all [SendPhase.told, SendPhase.resolution]
  obtain ⟨resolution, hresolution, hof⟩ := hresolution
  obtain ⟨raced, hin, rfl⟩ := h number task resolution htask hresolution
  exact ⟨raced, hin, hof⟩

/-- The lines that were written. -/
theorem lines_written (hok : Ok cli startNonce events run) (h : Told cli startNonce run order) :
    Lines cli startNonce events run order run.journal.lines where
  once := h.once
  lines := h.lines
  sent told htold := (toldOf_due hok.settled ((h.mem_iff told.1 told.2).mp htold)).1
  due told htold := (toldOf_due hok.settled ((h.mem_iff told.1 told.2).mp htold)).2
  told number event htold := (h.mem_iff number event).mpr htold
  only told htold := .inl ((h.mem_iff told.1 told.2).mp htold)

/-- The lines that were begun: a line that was cut is of one request more. -/
theorem lines_begun (hok : Ok cli startNonce events run) (h : Told cli startNonce run order) :
    ∃ order', Lines cli startNonce events run order' run.journal.begun := by
  have hwritten := lines_written hok h
  cases htorn : run.journal.torn with
  | none =>
    refine ⟨order, ?_⟩
    rwa [LoadgenJournal.begun, htorn, Option.map_none, Option.toList_none, List.append_nil]
  | some torn =>
    obtain ⟨number, task, resolution, event, htask, hphase, hevent, hline⟩ := h.torn torn htorn
    have hnone : toldOf run.tasks number = none := by
      rw [toldOf, htask, Option.bind_some, hphase]
      rfl
    have hfresh : number ∉ order.map (·.1) := by
      intro hin
      obtain ⟨⟨_, told⟩, hmem, rfl⟩ := List.mem_map.mp hin
      exact absurd (hnone.symm.trans ((h.mem_iff _ _).mp hmem)) (Option.some_ne_none _).symm
    have hdue : Due events number event := by
      obtain ⟨raced, hin, heq⟩ := hok.settled number task resolution htask (by rw [hphase]; rfl)
      exact ⟨raced, hin, heq ▸ hevent⟩
    refine ⟨order ++ [(number, event)], ?_, ?_, fun told hin => ?_, fun told hin => ?_, fun other told htold => ?_,
      fun told hin => ?_⟩
    · rw [List.map_append, List.map_singleton, List.nodup_append]
      refine ⟨h.once, List.nodup_singleton _, fun a ha b hb heq => hfresh ?_⟩
      have hnumber : a = number := heq.trans (List.mem_singleton.mp hb)
      exact hnumber ▸ ha
    · have hlength : run.journal.lines.length = order.length := by rw [h.lines, List.length_map, List.length_zipIdx]
      rw [LoadgenJournal.begun, htorn, Option.map_some, Option.toList_some, hline, hlength, List.zipIdx_append,
        List.map_append, List.zipIdx_singleton, List.map_singleton, Nat.zero_add, h.lines]
    · rcases List.mem_append.mp hin with hold | hnew
      · exact hwritten.sent told hold
      · rw [List.mem_singleton.mp hnew]
        exact (List.getElem?_eq_some_iff.mp htask).1
    · rcases List.mem_append.mp hin with hold | hnew
      · exact hwritten.due told hold
      · rw [List.mem_singleton.mp hnew]
        exact hdue
    · exact List.mem_append_left _ (hwritten.told other told htold)
    · rcases List.mem_append.mp hin with hold | hnew
      · exact .inl ((h.mem_iff told.1 told.2).mp hold)
      · rw [List.mem_singleton.mp hnew]
        exact .inr ⟨torn, htorn, hline⟩

namespace Lines

variable {lines : List JournalLine}

theorem length_le (h : Lines cli startNonce events run order lines) : order.length ≤ run.tasks.length := by
  have hsub : order.map (·.1) ⊆ List.range run.tasks.length := by
    intro number hin
    obtain ⟨told, htold, rfl⟩ := List.mem_map.mp hin
    exact List.mem_range.mpr (h.sent told htold)
  simpa using (List.subperm_of_subset h.once hsub).length_le

/-- The index range of a request that was sent. -/
theorem identity_range (startNonce : ℕ) (hfit : RecordsFit cli run) {number : ℕ} (h : number < run.tasks.length) :
    ((identityAt cli startNonce number).firstIndex : ℕ) = number * cli.batchSize ∧
      ((identityAt cli startNonce number).firstIndex : ℕ) + (identityAt cli startNonce number).recordCount < 2 ^ 64 := by
  have hnext : (number + 1) * cli.batchSize ≤ run.tasks.length * cli.batchSize := Nat.mul_le_mul_right _ h
  have hrecords := hfit.records
  rw [Nat.add_mul, Nat.one_mul] at hnext
  have hnumber : number % 2 ^ 64 = number := Nat.mod_eq_of_lt (h.trans hfit.requests)
  have hfirst : ((identityAt cli startNonce number).firstIndex : ℕ) = number * cli.batchSize := by
    change (Fin.ofNat (2 ^ 64) number * cli.batchSize : U64).val = _
    rw [Fin.val_mul, Fin.val_ofNat, hnumber, Nat.mod_eq_of_lt]
    omega
  refine ⟨hfirst, ?_⟩
  rw [hfirst]
  change number * cli.batchSize + (cli.batchSize : ℕ) < 2 ^ 64
  omega

theorem numbered (h : Lines cli startNonce events run order lines) (hfit : RecordsFit cli run) :
    LoadgenJournal.Numbered cli.nodeId lines where
  node line hline := by
    rw [h.lines] at hline
    obtain ⟨told, -, rfl⟩ := List.mem_map.mp hline
    rfl
  seq := by
    rw [h.lines, List.map_map, List.length_map, List.length_zipIdx]
    have hseq : ∀ told ∈ order.zipIdx, ((fun line : JournalLine => (line.seq : ℕ)) ∘ lineAt cli startNonce) told = told.2 := by
      intro told htold
      have hlt : told.2 < order.length := by simpa using (List.mem_zipIdx htold).2.1
      change told.2 % 2 ^ 64 = told.2
      exact Nat.mod_eq_of_lt (hlt.trans_le (h.length_le.trans hfit.requests.le))
    rw [List.map_congr_left hseq, List.zipIdx_map_snd, List.range_eq_range']
  fits line hline := by
    rw [h.lines] at hline
    obtain ⟨told, htold, rfl⟩ := List.mem_map.mp hline
    have hin : told.1 ∈ order := (List.mem_zipIdx htold).2.2 ▸ List.getElem_mem _
    exact (identity_range startNonce hfit (h.sent told.1 hin)).2

end Lines

/-! ### The summary -/

/-- What is beside the journal: the summary, where the run came to its end and could write it, and else nothing. -/
structure SummaryOnDisk (reader : JournalReader) (path : String) (run : LoadgenRun) : Prop where
  absent : run.summary = none → ∃ err, reader.readToString (summaryPathFor path) = .error err
  present : ∀ summary, run.summary = some summary → ∃ text, reader.readToString (summaryPathFor path) = .ok text ∧
    reader.readObject text = .ok summary.members

/-- How many requests were resolved so and counted. -/
def outcomes (run : LoadgenRun) (resolution : RequestResolution) : ℕ := run.tasks.countP (·.phase = .counted resolution)

def isPanic : SendPhase → Bool
  | .panicked _ => true
  | .inFlight | .settled _ | .journaled _ | .counted _ => false

theorem ofMembers_members (summary : WrittenSummary) : RunSummary.ofMembers summary.members =
    some ⟨summary.sent, summary.resolved.acked, summary.resolved.timedOut, summary.resolved.rejected,
      summary.resolved.ambiguous⟩ := by
  have honce : summary.members.Once ["sent", "acked", "timed_out", "rejected", "ambiguous"] := by
    simp [Members.Once, Members.keys, WrittenSummary.members]
  have h := JsonValue.u64?_int
  rw [RunSummary.ofMembers, guard, if_pos honce]
  simp [Members.required, Members.get?, WrittenSummary.members, h]

/-- A task that has come to its end was counted under one outcome, or panicked. -/
theorem length_eq_outcomes {tasks : List SendTask} (h : ∀ task ∈ tasks, task.phase.gone = true) :
    tasks.length = tasks.countP (·.phase = .counted .acked) + tasks.countP (·.phase = .counted .timedOut) +
      tasks.countP (·.phase = .counted .rejected) + tasks.countP (·.phase = .counted .ambiguous) +
      tasks.countP (isPanic ·.phase) := by
  induction tasks with
  | nil => rfl
  | cons task tasks ih =>
    obtain ⟨hgone, hrest⟩ := List.forall_mem_cons.mp h
    rw [List.length_cons, ih hrest]
    simp only [List.countP_cons]
    cases hphase : task.phase with
    | inFlight | settled | journaled => simp [hphase, SendPhase.gone] at hgone
    | counted resolution =>
      cases resolution <;> simp [isPanic] <;> omega
    | panicked resolution =>
      have hpanic : isPanic (.panicked resolution) = true := rfl
      simp [hpanic, Nat.add_assoc]

/-- Nothing is found of a run exactly when it came to its end with a summary, every request was resolved and counted, and
    not too many outcomes were ambiguous. -/
theorem checkSummary_run (hok : Ok cli startNonce events run) (hfit : RecordsFit cli run) {reader : JournalReader}
    {path : String} (hdisk : SummaryOnDisk reader path run) (display : DecodeError → String) (ceiling : AmbiguityCeiling) :
    checkSummary reader display ceiling path = [] ↔ run.summary.isSome = true ∧
      (∀ task ∈ run.tasks, ∃ resolution, task.phase = .counted resolution) ∧ (run.tasks ≠ [] →
        ceiling.exceeded (Fin.ofNat (2 ^ 64) (outcomes run .ambiguous)) (Fin.ofNat (2 ^ 64) run.tasks.length) = false) := by
  rw [checkSummary_eq_nil]
  cases hsummary : run.summary with
  | none =>
    obtain ⟨err, herr⟩ := hdisk.absent hsummary
    refine iff_of_false ?_ (fun h => Bool.false_ne_true h.1)
    rintro ⟨summary, hread, -⟩
    rw [readSummary, herr] at hread
    cases hread
  | some summary =>
    obtain ⟨hended, rfl⟩ := hok.counted.summary summary hsummary
    obtain ⟨text, htext, hread⟩ := hdisk.present _ hsummary
    have hsummary : readSummary reader display path = .ok ⟨run.sent, run.stats.acked, run.stats.timedOut, run.stats.rejected,
        run.stats.ambiguous⟩ := by
      simp only [readSummary, Fallible.bind_eq_ok, Fallible.mapError_eq_ok]
      refine ⟨text, htext, ?_⟩
      rw [RunSummary.fromJson_object hread, ofMembers_members]
      rfl
    have hgone : ∀ task ∈ run.tasks, task.phase.gone = true := by
      intro task htask
      have hjoined := List.countP_eq_zero.mp (hok.counted.ended hended) task htask
      exact hok.counted.gone task htask (by simpa using hjoined)
    have hlength := length_eq_outcomes hgone
    have hfits := hfit.requests
    have hsent : (run.sent : ℕ) = run.tasks.length := by
      rw [hok.sent.sent, Fin.val_ofNat, Nat.mod_eq_of_lt hfits]
    have htotal : ((run.stats.acked + run.stats.timedOut + run.stats.rejected + run.stats.ambiguous : U64) : ℕ) +
        run.tasks.countP (isPanic ·.phase) = run.tasks.length := by
      have hacked := congrArg Fin.val (hok.counted.stats .acked)
      have htimedOut := congrArg Fin.val (hok.counted.stats .timedOut)
      have hrejected := congrArg Fin.val (hok.counted.stats .rejected)
      have hambiguous := congrArg Fin.val (hok.counted.stats .ambiguous)
      simp only [Stats.of, Fin.val_ofNat] at hacked htimedOut hrejected hambiguous
      simp only [Fin.val_add, hacked, htimedOut, hrejected, hambiguous]
      omega
    have hall : run.tasks.countP (isPanic ·.phase) = 0 ↔ ∀ task ∈ run.tasks, ∃ resolution, task.phase = .counted resolution := by
      rw [List.countP_eq_zero]
      refine forall₂_congr fun task htask => ?_
      have := hgone task htask
      cases hphase : task.phase <;> simp_all [isPanic, SendPhase.gone]
    have hambiguous : run.stats.ambiguous = Fin.ofNat (2 ^ 64) (outcomes run .ambiguous) := hok.counted.stats .ambiguous
    simp only [hsummary, Except.ok.injEq, exists_eq_left', RunSummary.resolvedTotal, Option.isSome_some, true_and, ← hall,
      ← hambiguous]
    have hsent : run.sent ≤ run.stats.acked + run.stats.timedOut + run.stats.rejected + run.stats.ambiguous ↔
        run.tasks.countP (isPanic ·.phase) = 0 := by
      rw [Fin.le_def, hsent]
      omega
    rw [hsent]
    refine and_congr_right fun hnone => ?_
    have htotal : run.stats.acked + run.stats.timedOut + run.stats.rejected + run.stats.ambiguous =
        Fin.ofNat (2 ^ 64) run.tasks.length := by
      refine Fin.ext ?_
      rw [Fin.val_ofNat, Nat.mod_eq_of_lt hfits, ← htotal, hnone, Nat.add_zero]
    have hpos : (0 : U64) < Fin.ofNat (2 ^ 64) run.tasks.length ↔ run.tasks ≠ [] := by
      rw [Fin.lt_def, Fin.val_ofNat, Nat.mod_eq_of_lt hfits, Fin.val_zero, List.length_pos_iff]
    rw [htotal, hpos]

/-- **What a load generator leaves behind.** Wherever its run stops, in any interleaving of its tasks, the judge reads from its
    journal at most one line for each request, under the request's own identity and numbered in the order they were written:
    the lines of all requests whose tasks came past journaling an ack or a lost connection, none of a request that is due no
    line, and none of one whose task was stopped before. Where a line was begun and not ended it is either there, to its last
    character, or not at all, or it is refused at its place. Of the summary nothing is found exactly when it was written, every
    request sent was resolved and counted, and not too many outcomes were ambiguous. -/
theorem evidence_tells (cli : Cli) (startNonce : ℕ) (events : List LoadgenEvent)
    (hfit : RecordsFit cli (LoadgenRun.run cli startNonce events)) {write : WriteLine} {reader : JournalReader}
    (hjson : write.ReadsBack reader ((LoadgenRun.run cli startNonce events).journal.begun.map (·.members)))
    (hrefuses : RefusesCut write reader ((LoadgenRun.run cli startNonce events).journal.begun.map (·.members)))
    (hfile : reader.readToString cli.journalPath = .ok ((LoadgenRun.run cli startNonce events).journal.text write))
    (hdisk : SummaryOnDisk reader cli.journalPath (LoadgenRun.run cli startNonce events)) (debug : String → String)
    (display : DecodeError → String) (ceiling : AmbiguityCeiling) :
    let run := LoadgenRun.run cli startNonce events
    (¬ run.journal.Cut write → ∃ order file, Lines cli startNonce events run order (run.journal.whole write) ∧
      List.Forall₂ JournalLine.ReadAs (run.journal.whole write) file ∧
        parseJournalFile reader debug cli.journalPath = .ok (place cli.journalPath 0 file)) ∧
    (run.journal.Cut write → ∃ err, parseJournalFile reader debug cli.journalPath =
      .error (.decode cli.journalPath (run.journal.lines.length + 1) (.json err))) ∧
    (checkSummary reader display ceiling cli.journalPath = [] ↔ run.summary.isSome = true ∧
      (∀ task ∈ run.tasks, ∃ resolution, task.phase = .counted resolution) ∧ (run.tasks ≠ [] →
        ceiling.exceeded (Fin.ofNat (2 ^ 64) (outcomes run .ambiguous)) (Fin.ofNat (2 ^ 64) run.tasks.length) = false)) := by
  intro run
  have hok : Ok cli startNonce events run := run_ok cli startNonce events
  obtain ⟨order, htold⟩ := hok.told
  obtain ⟨order', hbegun⟩ := lines_begun hok htold
  have hnumbered := hbegun.numbered hfit
  refine ⟨fun hcut => ?_, fun hcut => ?_, checkSummary_run hok hfit hdisk display ceiling⟩
  · obtain ⟨file, hread, hparse⟩ := LoadgenJournal.parse_whole hnumbered hjson hfile hcut debug
    by_cases hempty : run.journal.tornText write = ""
    · refine ⟨order, file, ?_, hread, hparse⟩
      rw [LoadgenJournal.whole, if_pos hempty]
      exact lines_written hok htold
    · refine ⟨order', file, ?_, hread, hparse⟩
      rw [LoadgenJournal.whole, if_neg hempty]
      exact hbegun
  · exact LoadgenJournal.parse_cut hnumbered hjson hrefuses hfile hcut debug

/-! ### A run of two requests -/

def twoBatches : Cli := ⟨⟨"loadgen-0"⟩, "acme", 2, 2, some 2, none, "loadgen.ndjson"⟩

/-- The second request is acked before the deadline of the first one passes. -/
def overtaken : List LoadgenEvent :=
  [.send, .send, .task 1 (.settle (.settled (.ok none))), .task 1 .journal, .task 0 (.settle .deadlineFirst), .task 1 .count,
    .task 0 .journal, .join 1, .task 0 .count, .join 0, .finish true]

def overtakenLine : JournalLine :=
  ⟨⟨"loadgen-0"⟩, 0, .clientAck, ⟨"loadgen-0-7-1", "acme", 2, 2, "loadgen-0-7"⟩⟩

def overtakenSummary : WrittenSummary := ⟨⟨"loadgen-0"⟩, 2, ⟨1, 0, 0, 1⟩⟩

def overtakenReader : JournalReader where
  readToString path :=
    if path = "loadgen.ndjson" then .ok (lineFile plainText [overtakenLine.members])
    else if path = "loadgen.ndjson.summary.json" then .ok (plainText overtakenSummary.members)
    else .error "No such file or directory (os error 2)"
  readObject raw :=
    if raw = plainText overtakenLine.members then .ok overtakenLine.members
    else if raw = plainText overtakenSummary.members then .ok overtakenSummary.members
    else .error "expected value at line 1 column 1"

theorem run_overtaken : LoadgenRun.run twoBatches 7 overtaken =
    { sent := 2
      tasks := [⟨⟨"loadgen-0-7-0", "acme", 2, 0, "loadgen-0-7"⟩, .counted .ambiguous, true⟩,
        ⟨⟨"loadgen-0-7-1", "acme", 2, 2, "loadgen-0-7"⟩, .counted .acked, true⟩]
      journal := ⟨1, [overtakenLine], none⟩
      stats := ⟨1, 0, 0, 1⟩
      ended := true
      summary := some overtakenSummary } := by
  decide

theorem fits_overtaken : RecordsFit twoBatches (LoadgenRun.run twoBatches 7 overtaken) := by
  rw [run_overtaken]
  exact ⟨by decide, by decide⟩

theorem json_overtaken : WriteLine.ReadsBack plainText overtakenReader [overtakenLine.members] := by
  refine ⟨fun members hmembers => ?_, fun members hmembers => ?_⟩
  · obtain rfl := List.mem_singleton.mp hmembers
    exact unbroken_iff.mp (by decide +kernel)
  · obtain rfl := List.mem_singleton.mp hmembers
    simp only [overtakenReader, ↓reduceIte]

theorem refuses_overtaken : RefusesCut plainText overtakenReader [overtakenLine.members] := by
  intro members hmembers n _ hcut
  obtain rfl := List.mem_singleton.mp hmembers
  refine ⟨_, (if_neg hcut).trans (if_neg fun heq => ?_)⟩
  have hprefix : (beginning (plainText overtakenLine.members) n).toList <+: (plainText overtakenLine.members).toList := by
    rw [beginning, String.toList_ofList]
    exact List.take_prefix _ _
  rw [heq] at hprefix
  exact absurd hprefix (by decide +kernel)

theorem file_overtaken : overtakenReader.readToString "loadgen.ndjson" =
    .ok ((LoadgenRun.run twoBatches 7 overtaken).journal.text plainText) := by
  rw [run_overtaken]
  decide +kernel

theorem disk_overtaken : SummaryOnDisk overtakenReader "loadgen.ndjson" (LoadgenRun.run twoBatches 7 overtaken) := by
  have hother : plainText overtakenSummary.members ≠ plainText overtakenLine.members := by decide
  rw [run_overtaken]
  refine ⟨fun h => absurd h (Option.some_ne_none _), fun summary h => ?_⟩
  obtain rfl := Option.some.inj h
  exact ⟨plainText overtakenSummary.members, by decide, by simp only [overtakenReader, if_neg hother, ↓reduceIte]⟩

theorem evidence_tells_overtaken :
    (∃ order file, Lines twoBatches 7 overtaken (LoadgenRun.run twoBatches 7 overtaken) order [overtakenLine] ∧
      List.Forall₂ JournalLine.ReadAs [overtakenLine] file ∧
        parseJournalFile overtakenReader id "loadgen.ndjson" = .ok (place "loadgen.ndjson" 0 file)) ∧
    checkSummary overtakenReader (fun _ => "") ⟨fun _ _ => false, fun _ _ => "", ""⟩ "loadgen.ndjson" = [] := by
  have hbegun : (LoadgenRun.run twoBatches 7 overtaken).journal.begun.map (·.members) = [overtakenLine.members] := by
    rw [run_overtaken]
    rfl
  obtain ⟨htells, -, hsummary⟩ := evidence_tells twoBatches 7 overtaken fits_overtaken (hbegun ▸ json_overtaken)
    (hbegun ▸ refuses_overtaken) file_overtaken disk_overtaken id (fun _ => "") ⟨fun _ _ => false, fun _ _ => "", ""⟩
  have hcut : ¬ (LoadgenRun.run twoBatches 7 overtaken).journal.Cut plainText := by
    rw [run_overtaken]
    rintro ⟨_, htorn, -⟩
    exact absurd htorn.symm (Option.some_ne_none _)
  have hwhole : (LoadgenRun.run twoBatches 7 overtaken).journal.whole plainText = [overtakenLine] := by
    rw [run_overtaken]
    exact if_pos rfl
  rw [hwhole] at htells
  refine ⟨htells hcut, hsummary.mpr ?_⟩
  rw [run_overtaken]
  simp

end LoadgenRun

end Loadgen

end Duckspout
