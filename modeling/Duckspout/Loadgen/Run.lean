import Duckspout.Judge.Vacuity
import Duckspout.Loadgen.Journal

/-! A run of the load generator (`duckspout-loadgen/src/main.rs`, and `send_and_journal` of `client.rs`).

    One task a request, on a runtime of several threads: a request is answered or its deadline comes first, the resolution
    is journaled, then counted, and the main task takes what has ended out of its set. Any task that can move may be the
    next. The process may be killed between any two steps, or in the middle of a line, and then leaves what there is. -/

namespace Duckspout

namespace Loadgen

structure Cli where
  nodeId : NodeId
  tenant : String
  batchSize : U64
  concurrency : ℕ
  requests : Option U64
  durationSecs : Option U64
  journalPath : String

/-- How long the run may last, if it has a deadline. -/
def Cli.duration (cli : Cli) : Option U64 := cli.durationSecs.or (if cli.requests.isNone then some 60 else none)

structure Stats where
  acked : U64 := 0
  timedOut : U64 := 0
  rejected : U64 := 0
  ambiguous : U64 := 0
  deriving DecidableEq, Repr

def Stats.of (stats : Stats) : RequestResolution → U64
  | .acked => stats.acked
  | .timedOut => stats.timedOut
  | .rejected => stats.rejected
  | .ambiguous => stats.ambiguous

def Stats.record (stats : Stats) : RequestResolution → Stats
  | .acked => { stats with acked := stats.acked + 1 }
  | .timedOut => { stats with timedOut := stats.timedOut + 1 }
  | .rejected => { stats with rejected := stats.rejected + 1 }
  | .ambiguous => { stats with ambiguous := stats.ambiguous + 1 }

/-- Where the task of a request is. -/
inductive SendPhase where
  | inFlight
  | settled (resolution : RequestResolution)
  | journaled (resolution : RequestResolution)
  | counted (resolution : RequestResolution)
  /-- It panicked, its request resolved before that or not. -/
  | panicked (resolution : Option RequestResolution)
  deriving DecidableEq, Repr

/-- The task has come to its end, one way or the other. -/
def SendPhase.gone : SendPhase → Bool
  | counted _ | panicked _ => true
  | inFlight | settled _ | journaled _ => false

/-- What the request was resolved to, so far. -/
def SendPhase.resolution : SendPhase → Option RequestResolution
  | settled resolution | journaled resolution | counted resolution => some resolution
  | panicked resolution => resolution
  | inFlight => none

/-- The event of the line that the journal has of it. -/
def SendPhase.told : SendPhase → Option TraceEvent
  | journaled resolution | counted resolution => resolution.event
  | inFlight | settled _ | panicked _ => none

/-- A task, with the identity it was spawned with; `joined` once it is out of the set. -/
structure SendTask where
  identity : RequestIdentity
  phase : SendPhase := .inFlight
  joined : Bool := false
  deriving DecidableEq, Repr

/-- The summary that is written at the end. -/
structure WrittenSummary where
  node : NodeId
  sent : U64
  resolved : Stats
  deriving DecidableEq, Repr

def WrittenSummary.members (summary : WrittenSummary) : Members :=
  [("node", .str summary.node.raw), ("sent", .int summary.sent), ("acked", .int summary.resolved.acked),
    ("timed_out", .int summary.resolved.timedOut), ("rejected", .int summary.resolved.rejected),
    ("ambiguous", .int summary.resolved.ambiguous)]

structure LoadgenRun where
  sent : U64 := 0
  tasks : List SendTask := []
  journal : LoadgenJournal := {}
  stats : Stats := {}
  /-- The deadline has passed. -/
  expired : Bool := false
  ended : Bool := false
  summary : Option WrittenSummary := none
  deriving DecidableEq, Repr

/-- The identity of the request that is sent next. -/
def requestIdentity (cli : Cli) (startNonce : ℕ) (sent : U64) : RequestIdentity where
  requestId := requestId cli.nodeId startNonce sent
  tenant := cli.tenant
  recordCount := cli.batchSize
  firstIndex := sent * cli.batchSize
  sourceIncarnation := sourceIncarnation cli.nodeId startNonce

/-- What a task does next. -/
inductive SendMove where
  | settle (raced : RaceOutcome)
  | journal
  /-- The write of its line fails after so many characters. -/
  | journalFails (written : ℕ)
  | count
  | panic

inductive LoadgenEvent where
  | send
  | deadline
  | task (number : ℕ) (move : SendMove)
  | join (number : ℕ)
  /-- The end, and whether the summary could be written. -/
  | finish (written : Bool)

namespace LoadgenRun

variable (cli : Cli) (startNonce : ℕ)

/-- The loop over the requests is left. -/
def stopping (run : LoadgenRun) : Bool := run.expired || cli.requests.any (· ≤ run.sent)

/-- The tasks in the set. -/
def inSet (run : LoadgenRun) : ℕ := run.tasks.countP fun task => !task.joined

def full (run : LoadgenRun) : Bool := max cli.concurrency 1 ≤ run.inSet

def setPhase (run : LoadgenRun) (number : ℕ) (task : SendTask) (phase : SendPhase) : LoadgenRun :=
  { run with tasks := run.tasks.set number { task with phase } }

/-- A step of a task. Only an ack and a lost connection are journaled, and a poisoned lock is a panic. -/
def move (run : LoadgenRun) (number : ℕ) (task : SendTask) : SendPhase → SendMove → LoadgenRun
  | .inFlight, .settle raced => run.setPhase number task (.settled (resolve raced))
  | .inFlight, .panic => run.setPhase number task (.panicked none)
  | .settled resolution, .journal =>
    match resolution.event with
    | none => run.setPhase number task (.journaled resolution)
    | some event =>
      if run.journal.poisoned then run.setPhase number task (.panicked (some resolution))
      else
        { run.setPhase number task (.journaled resolution) with
          journal := run.journal.record cli.nodeId event task.identity }
  | .settled resolution, .journalFails written =>
    match resolution.event with
    | none => run
    | some event =>
      if run.journal.poisoned then run
      else
        { run.setPhase number task (.panicked (some resolution)) with
          journal := run.journal.recordTorn cli.nodeId event task.identity written }
  | .journaled resolution, .count =>
    { run.setPhase number task (.counted resolution) with stats := run.stats.record resolution }
  | _, _ => run

/-- One step; what cannot happen changes nothing. -/
def step (run : LoadgenRun) : LoadgenEvent → LoadgenRun
  | .send =>
    if run.ended || run.stopping cli || run.full cli then run
    else
      { run with
        sent := run.sent + 1
        tasks := run.tasks ++ [{ identity := requestIdentity cli startNonce run.sent }] }
  | .deadline => if cli.duration.isSome then { run with expired := true } else run
  | .task number move =>
    match run.tasks[number]? with
    | none => run
    | some task => run.move cli number task task.phase move
  | .join number =>
    match run.tasks[number]? with
    | none => run
    | some task =>
      if task.phase.gone && (run.stopping cli || run.full cli) then
        { run with tasks := run.tasks.set number { task with joined := true } }
      else run
  | .finish written =>
    if run.stopping cli && run.inSet = 0 && !run.ended then
      { run with
        ended := true
        summary := if written then some ⟨cli.nodeId, run.sent, run.stats⟩ else none }
    else run

def run (events : List LoadgenEvent) : LoadgenRun := events.foldl (step cli startNonce) {}

/-! ### What a step does -/

/-- The effects an event can have. -/
inductive Effect (event : LoadgenEvent) (run : LoadgenRun) : LoadgenRun → Prop
  | nothing : Effect event run run
  | expired : Effect event run { run with expired := true }
  | sent (hended : run.ended = false) (hfull : run.full cli = false) :
    Effect event run
      { run with
        sent := run.sent + 1
        tasks := run.tasks ++ [{ identity := requestIdentity cli startNonce run.sent }] }
  /-- A task goes on, and neither the journal nor the counters see it; what it is resolved to is what was raced. -/
  | quiet {number : ℕ} {task : SendTask} {phase : SendPhase} (htask : run.tasks[number]? = some task)
    (hgone : task.phase.gone = false) (htold : phase.told = task.phase.told) (hcounted : ∀ r, phase ≠ .counted r)
    (hresolution : phase.resolution = task.phase.resolution ∨
      ∃ raced, event = .task number (.settle raced) ∧ phase.resolution = some (resolve raced)) :
    Effect event run (run.setPhase number task phase)
  | told {number : ℕ} {task : SendTask} {resolution : RequestResolution} {told : TraceEvent}
    (htask : run.tasks[number]? = some task) (hphase : task.phase = .settled resolution)
    (htold : resolution.event = some told) (hwhole : run.journal.torn = none) :
    Effect event run
      { run.setPhase number task (.journaled resolution) with
        journal := run.journal.record cli.nodeId told task.identity }
  | torn {number : ℕ} {task : SendTask} {resolution : RequestResolution} {told : TraceEvent} (written : ℕ)
    (htask : run.tasks[number]? = some task) (hphase : task.phase = .settled resolution)
    (htold : resolution.event = some told) (hwhole : run.journal.torn = none) :
    Effect event run
      { run.setPhase number task (.panicked (some resolution)) with
        journal := run.journal.recordTorn cli.nodeId told task.identity written }
  | counted {number : ℕ} {task : SendTask} {resolution : RequestResolution} (htask : run.tasks[number]? = some task)
    (hphase : task.phase = .journaled resolution) :
    Effect event run { run.setPhase number task (.counted resolution) with stats := run.stats.record resolution }
  | joined {number : ℕ} {task : SendTask} (htask : run.tasks[number]? = some task) (hgone : task.phase.gone = true) :
    Effect event run { run with tasks := run.tasks.set number { task with joined := true } }
  | finished (written : Bool) (hset : run.inSet = 0) (hended : run.ended = false) :
    Effect event run
      { run with
        ended := true
        summary := if written then some ⟨cli.nodeId, run.sent, run.stats⟩ else none }

theorem move_effect {run : LoadgenRun} {number : ℕ} {task : SendTask} (htask : run.tasks[number]? = some task)
    (next : SendMove) : Effect cli startNonce (.task number next) run (run.move cli number task task.phase next) := by
  have hkeep : ∀ {phase : SendPhase}, task.phase = phase → task.phase.gone = phase.gone ∧
      task.phase.told = phase.told ∧ task.phase.resolution = phase.resolution := fun h => h ▸ ⟨rfl, rfl, rfl⟩
  cases hphase : task.phase with
  | inFlight =>
    obtain ⟨hgone, htold, hresolution⟩ := hkeep hphase
    cases next with
    | settle raced => exact .quiet htask hgone htold.symm (fun r => SendPhase.noConfusion) (.inr ⟨raced, rfl, rfl⟩)
    | panic => exact .quiet htask hgone htold.symm (fun r => SendPhase.noConfusion) (.inl hresolution.symm)
    | journal | journalFails written | count => exact .nothing
  | settled resolution =>
    obtain ⟨hgone, htold, hresolution⟩ := hkeep hphase
    cases next with
    | journal =>
      simp only [move]
      cases hevent : resolution.event with
      | none =>
        exact .quiet htask hgone (hevent.trans htold.symm) (fun r => SendPhase.noConfusion) (.inl hresolution.symm)
      | some event =>
        dsimp only
        split_ifs with hpoisoned
        · exact .quiet htask hgone htold.symm (fun r => SendPhase.noConfusion) (.inl hresolution.symm)
        · exact .told htask hphase hevent (by simpa [LoadgenJournal.poisoned] using hpoisoned)
    | journalFails written =>
      simp only [move]
      cases hevent : resolution.event with
      | none => exact .nothing
      | some event =>
        dsimp only
        split_ifs with hpoisoned
        · exact .nothing
        · exact .torn written htask hphase hevent (by simpa [LoadgenJournal.poisoned] using hpoisoned)
    | settle raced | count | panic => exact .nothing
  | journaled resolution =>
    cases next with
    | count => exact .counted htask hphase
    | settle raced | journal | journalFails written | panic => exact .nothing
  | counted resolution => exact .nothing
  | panicked resolution => exact .nothing

theorem step_effect (run : LoadgenRun) (event : LoadgenEvent) :
    Effect cli startNonce event run (run.step cli startNonce event) := by
  cases event with
  | send =>
    simp only [step]
    split_ifs with h
    · exact .nothing
    · simp only [Bool.or_eq_true, not_or, Bool.not_eq_true] at h
      exact .sent h.1.1 h.2
  | deadline =>
    simp only [step]
    split_ifs
    · exact .expired
    · exact .nothing
  | task number next =>
    simp only [step]
    cases htask : run.tasks[number]? with
    | none => exact .nothing
    | some task => exact move_effect cli startNonce htask next
  | join number =>
    simp only [step]
    cases htask : run.tasks[number]? with
    | none => exact .nothing
    | some task =>
      dsimp only
      split_ifs with h
      · exact .joined htask (Bool.and_eq_true_iff.mp h).1
      · exact .nothing
  | finish written =>
    simp only [step]
    split
    · rename_i h
      simp only [Bool.and_eq_true, decide_eq_true_eq, Bool.not_eq_true'] at h
      exact .finished written h.1.2 h.2
    · exact .nothing

/-! ### What the journal has -/

/-- The identity of the request of a number. -/
def identityAt (number : ℕ) : RequestIdentity := requestIdentity cli startNonce (Fin.ofNat (2 ^ 64) number)

/-- The line of a request, with the place it has in the journal. -/
def lineAt (told : (ℕ × TraceEvent) × ℕ) : JournalLine :=
  ⟨cli.nodeId, Fin.ofNat (2 ^ 64) told.2, told.1.2, identityAt cli startNonce told.1.1⟩

/-- The event of the line that the journal has of a request. -/
def toldOf (tasks : List SendTask) (number : ℕ) : Option TraceEvent := tasks[number]?.bind (·.phase.told)

/-- The tasks are those of the requests sent, each with its own identity. -/
structure Sent (run : LoadgenRun) : Prop where
  sent : run.sent = Fin.ofNat (2 ^ 64) run.tasks.length
  identity : ∀ number task, run.tasks[number]? = some task → task.identity = identityAt cli startNonce number

/-- The journal has one line for each request that is told, in some order. -/
structure Told (run : LoadgenRun) (order : List (ℕ × TraceEvent)) : Prop where
  once : (order.map (·.1)).Nodup
  lines : run.journal.lines = order.zipIdx.map (lineAt cli startNonce)
  mem_iff : ∀ number event, (number, event) ∈ order ↔ toldOf run.tasks number = some event
  nextSeq : run.journal.nextSeq = Fin.ofNat (2 ^ 64) run.journal.begun.length
  torn : ∀ torn, run.journal.torn = some torn → ∃ number task resolution event, run.tasks[number]? = some task ∧
    task.phase = .panicked (some resolution) ∧ resolution.event = some event ∧
      torn.1 = lineAt cli startNonce ((number, event), run.journal.lines.length)

/-- The set of tasks has its bound, what has left it has come to its end, and a summary says what was counted. -/
structure Counted (run : LoadgenRun) : Prop where
  window : run.inSet ≤ max cli.concurrency 1
  gone : ∀ task ∈ run.tasks, task.joined = true → task.phase.gone = true
  stats : ∀ resolution, run.stats.of resolution = Fin.ofNat (2 ^ 64) (run.tasks.countP (·.phase = .counted resolution))
  ended : run.ended = true → run.inSet = 0
  summary : ∀ summary, run.summary = some summary → run.ended = true ∧ summary = ⟨cli.nodeId, run.sent, run.stats⟩

variable {cli startNonce} {event : LoadgenEvent} {run next : LoadgenRun} {order : List (ℕ × TraceEvent)}

theorem toldOf_set {tasks : List SendTask} {number : ℕ} {task task' : SendTask} (h : tasks[number]? = some task) (other : ℕ) :
    toldOf (tasks.set number task') other = if number = other then task'.phase.told else toldOf tasks other := by
  have hlt : number < tasks.length := (List.getElem?_eq_some_iff.mp h).1
  rw [toldOf, List.getElem?_set]
  split_ifs with heq
  · rfl
  · rfl

/-- A task of the same telling changes nothing that is told. -/
theorem toldOf_set_same {tasks : List SendTask} {number : ℕ} {task task' : SendTask} (h : tasks[number]? = some task)
    (hsame : task'.phase.told = task.phase.told) (other : ℕ) :
    toldOf (tasks.set number task') other = toldOf tasks other := by
  rw [toldOf_set h]
  split_ifs with heq
  · rw [hsame, ← heq, toldOf, h, Option.bind_some]
  · rfl

theorem toldOf_concat (tasks : List SendTask) {task : SendTask} (h : task.phase.told = none) (number : ℕ) :
    toldOf (tasks ++ [task]) number = toldOf tasks number := by
  rw [toldOf, toldOf, List.getElem?_append]
  split_ifs with hlt
  · rfl
  · rw [List.getElem?_eq_none (not_lt.mp hlt), Option.bind_none]
    cases hone : [task][number - tasks.length]? with
    | none => rfl
    | some found =>
      obtain rfl : found = task := by
        obtain ⟨hlt, heq⟩ := List.getElem?_eq_some_iff.mp hone
        simpa using heq.symm
      exact h

theorem ofNat_succ (n : ℕ) : (Fin.ofNat (2 ^ 64) n + 1 : U64) = Fin.ofNat (2 ^ 64) (n + 1) := by
  refine Fin.ext ?_
  rw [Fin.val_add, Fin.val_ofNat, Fin.val_ofNat, Fin.val_one', Nat.add_mod n 1]

theorem Sent.set (h : Sent cli startNonce run) {number : ℕ} {task task' : SendTask} (htask : run.tasks[number]? = some task)
    (hsent : next.sent = run.sent) (htasks : next.tasks = run.tasks.set number task')
    (hid : task'.identity = task.identity) : Sent cli startNonce next where
  sent := by rw [hsent, htasks, List.length_set, h.sent]
  identity other found hfound := by
    rw [htasks, List.getElem?_set] at hfound
    split_ifs at hfound with heq hlt
    · rw [← Option.some.inj hfound, hid, ← heq]
      exact h.identity _ _ htask
    · exact h.identity _ _ hfound

theorem Sent.step (h : Sent cli startNonce run) (heffect : Effect cli startNonce event run next) : Sent cli startNonce next := by
  cases heffect with
  | nothing | expired | finished => exact ⟨h.sent, h.identity⟩
  | sent =>
    refine ⟨?_, fun number task htask => ?_⟩
    · rw [h.sent, ofNat_succ, List.length_append, List.length_singleton]
    · rw [List.getElem?_append] at htask
      split_ifs at htask with hlt
      · exact h.identity _ _ htask
      · obtain ⟨hone, rfl⟩ := List.getElem?_eq_some_iff.mp htask
        obtain rfl : number = run.tasks.length := by
          simp only [List.length_singleton] at hone
          omega
        simp [identityAt, h.sent]
  | quiet htask | told htask | torn _ htask | counted htask | joined htask => exact h.set htask rfl rfl rfl

/-- A task that has come to its end stays as it is. -/
theorem over_stays (heffect : Effect cli startNonce event run next) {number : ℕ} {task : SendTask}
    (htask : run.tasks[number]? = some task) (hgone : task.phase.gone = true) :
    ∃ task', next.tasks[number]? = some task' ∧ task'.phase = task.phase := by
  have hset : ∀ {other : ℕ} {old new : SendTask}, run.tasks[other]? = some old →
      (old.phase.gone = false ∨ new.phase = old.phase) →
      ∃ task', (run.tasks.set other new)[number]? = some task' ∧ task'.phase = task.phase := by
    intro other old new hold hphase
    rw [List.getElem?_set]
    split_ifs with heq hlt
    · subst heq
      obtain rfl := Option.some.inj (hold.symm.trans htask)
      rcases hphase with hphase | hphase
      · exact absurd (hphase.symm.trans hgone) Bool.false_ne_true
      · exact ⟨new, rfl, hphase⟩
    · subst heq
      exact absurd (List.getElem?_eq_some_iff.mp htask).1 hlt
    · exact ⟨task, htask, rfl⟩
  cases heffect with
  | nothing | expired | finished => exact ⟨task, htask, rfl⟩
  | sent =>
    refine ⟨task, ?_, rfl⟩
    rw [List.getElem?_append_left (List.getElem?_eq_some_iff.mp htask).1]
    exact htask
  | quiet hold hgone' => exact hset hold (.inl hgone')
  | told hold hphase | torn _ hold hphase | counted hold hphase => exact hset hold (.inl (by rw [hphase]; rfl))
  | joined hold => exact hset hold (.inr rfl)

theorem Told.step (hsent : Sent cli startNonce run) (h : Told cli startNonce run order)
    (heffect : Effect cli startNonce event run next) : ∃ order', Told cli startNonce next order' := by
  have htorn : ∀ torn, run.journal.torn = some torn → ∃ number task resolution event, next.tasks[number]? = some task ∧
      task.phase = .panicked (some resolution) ∧ resolution.event = some event ∧
        torn.1 = lineAt cli startNonce ((number, event), run.journal.lines.length) := by
    intro torn htorn
    obtain ⟨number, task, resolution, event, htask, hphase, hrest⟩ := h.torn torn htorn
    obtain ⟨task', htask', hphase'⟩ := over_stays heffect htask (by rw [hphase]; rfl)
    exact ⟨number, task', resolution, event, htask', hphase'.trans hphase, hrest⟩
  cases heffect with
  | nothing | expired | finished => exact ⟨order, h.once, h.lines, h.mem_iff, h.nextSeq, h.torn⟩
  | sent =>
    refine ⟨order, h.once, h.lines, fun number event => ?_, h.nextSeq, htorn⟩
    rw [toldOf_concat _ rfl, h.mem_iff]
  | quiet htask _ htold =>
    refine ⟨order, h.once, h.lines, fun number event => ?_, h.nextSeq, htorn⟩
    exact (h.mem_iff number event).trans (by rw [setPhase, toldOf_set_same htask htold])
  | counted htask hphase =>
    refine ⟨order, h.once, h.lines, fun number event => ?_, h.nextSeq, htorn⟩
    exact (h.mem_iff number event).trans (by rw [setPhase, toldOf_set_same htask (by rw [hphase]; rfl)])
  | joined htask =>
    refine ⟨order, h.once, h.lines, fun number event => (h.mem_iff number event).trans ?_, h.nextSeq, htorn⟩
    change _ ↔ toldOf (run.tasks.set _ _) number = _
    rw [toldOf_set_same htask]
    rfl
  | @told number task resolution event htask hphase hevent hwhole =>
    have hnone : toldOf run.tasks number = none := by
      rw [toldOf, htask, Option.bind_some, hphase]
      rfl
    have hfresh : number ∉ order.map (·.1) := by
      intro hin
      obtain ⟨⟨_, told⟩, hmem, rfl⟩ := List.mem_map.mp hin
      exact absurd (hnone.symm.trans ((h.mem_iff _ _).mp hmem)) (Option.some_ne_none _).symm
    have hbegun : run.journal.begun = run.journal.lines := by simp [LoadgenJournal.begun, hwhole]
    have hseq : run.journal.nextSeq = Fin.ofNat (2 ^ 64) order.length := by
      rw [h.nextSeq, hbegun, h.lines, List.length_map, List.length_zipIdx]
    refine ⟨order ++ [(number, event)], ?_, ?_, fun other told => ?_, ?_, fun torn htorn => ?_⟩
    · rw [List.map_append, List.map_singleton, List.nodup_append]
      refine ⟨h.once, List.nodup_singleton _, fun a ha b hb heq => hfresh ?_⟩
      have hnumber : a = number := heq.trans (List.mem_singleton.mp hb)
      exact hnumber ▸ ha
    · rw [List.zipIdx_append, List.map_append, List.zipIdx_singleton, List.map_singleton, Nat.zero_add]
      change run.journal.lines ++ [⟨cli.nodeId, run.journal.nextSeq, event, task.identity⟩] = _
      rw [h.lines, hseq, hsent.identity _ _ htask]
      rfl
    · rw [List.mem_append, h.mem_iff, List.mem_singleton]
      change _ ↔ toldOf (run.tasks.set number _) other = some told
      rw [toldOf_set htask]
      by_cases heq : number = other
      · subst heq
        simp [hnone, SendPhase.told, hevent, eq_comm]
      · simp [heq, Ne.symm heq]
    · change run.journal.nextSeq + 1 = Fin.ofNat _ (LoadgenJournal.begun _).length
      rw [hseq, ofNat_succ, LoadgenJournal.begun]
      change _ = Fin.ofNat _ ((run.journal.lines ++ [_]) ++ (run.journal.torn.map Prod.fst).toList).length
      rw [hwhole, h.lines]
      simp
    · exact absurd (hwhole.symm.trans htorn) (Option.some_ne_none _).symm
  | @torn number task resolution event written htask hphase hevent hwhole =>
    have hnone : ({ task with phase := .panicked (some resolution) } : SendTask).phase.told = task.phase.told := by
      rw [hphase]
      rfl
    have hbegun : run.journal.begun = run.journal.lines := by simp [LoadgenJournal.begun, hwhole]
    refine ⟨order, h.once, h.lines, fun other told => ?_, ?_, fun torn htorn => ?_⟩
    · exact (h.mem_iff other told).trans (by rw [setPhase, toldOf_set_same htask hnone])
    · change run.journal.nextSeq + 1 = Fin.ofNat _ (run.journal.lines ++ [_]).length
      rw [h.nextSeq, ofNat_succ, hbegun, List.length_append, List.length_singleton]
    · obtain rfl := Option.some.inj htorn
      refine ⟨number, _, resolution, event, List.getElem?_set_self (List.getElem?_eq_some_iff.mp htask).1, rfl, hevent, ?_⟩
      change (⟨cli.nodeId, run.journal.nextSeq, event, task.identity⟩ : JournalLine) = _
      rw [h.nextSeq, hbegun, hsent.identity _ _ htask]
      rfl

/-! ### What is counted -/

theorem countP_set_of_eq {tasks : List SendTask} {number : ℕ} {task task' : SendTask} (h : tasks[number]? = some task)
    (p : SendTask → Bool) (hp : p task' = p task) : (tasks.set number task').countP p = tasks.countP p := by
  obtain ⟨hlt, heq⟩ := List.getElem?_eq_some_iff.mp h
  have hpos : p task = true → 0 < tasks.countP p := fun htrue =>
    List.countP_pos_iff.mpr ⟨task, List.mem_of_getElem? h, htrue⟩
  rw [List.countP_set hlt, heq, hp]
  split_ifs with htrue
  · have := hpos htrue
    omega
  · omega

theorem countP_set_succ {tasks : List SendTask} {number : ℕ} {task task' : SendTask} (h : tasks[number]? = some task)
    (p : SendTask → Bool) (hfalse : p task = false) (htrue : p task' = true) :
    (tasks.set number task').countP p = tasks.countP p + 1 := by
  obtain ⟨hlt, heq⟩ := List.getElem?_eq_some_iff.mp h
  rw [List.countP_set hlt, heq, hfalse, htrue]
  simp

theorem countP_set_le {tasks : List SendTask} {number : ℕ} {task task' : SendTask} (h : tasks[number]? = some task)
    (p : SendTask → Bool) (hfalse : p task' = false) : (tasks.set number task').countP p ≤ tasks.countP p := by
  obtain ⟨hlt, heq⟩ := List.getElem?_eq_some_iff.mp h
  rw [List.countP_set hlt, heq, hfalse]
  simp

theorem Stats.of_record (stats : Stats) (resolution other : RequestResolution) :
    (stats.record resolution).of other = if resolution = other then stats.of other + 1 else stats.of other := by
  cases resolution <;> cases other <;> rfl

theorem Counted.set (h : Counted cli run) {number : ℕ} {task' : SendTask}
    (htasks : next.tasks = run.tasks.set number task') (hset : next.inSet ≤ run.inSet)
    (hgone : task'.joined = true → task'.phase.gone = true)
    (hstats : ∀ resolution,
      next.stats.of resolution = Fin.ofNat (2 ^ 64) (next.tasks.countP (·.phase = .counted resolution)))
    (hended : next.ended = run.ended) (hsummary : next.summary = run.summary)
    (hsame : run.inSet ≠ 0 ∨ next.sent = run.sent ∧ next.stats = run.stats) : Counted cli next where
  window := hset.trans h.window
  gone other hother hjoined := by
    rw [htasks] at hother
    rcases List.mem_or_eq_of_mem_set hother with hold | rfl
    · exact h.gone _ hold hjoined
    · exact hgone hjoined
  stats := hstats
  ended hnext := Nat.le_zero.mp (hset.trans (h.ended (hended ▸ hnext)).le)
  summary summary hnext := by
    obtain ⟨hfinished, rfl⟩ := h.summary summary (hsummary ▸ hnext)
    rcases hsame with hbusy | ⟨hsent, hstats⟩
    · exact absurd (h.ended hfinished) hbusy
    · exact ⟨hended.trans hfinished, by rw [hsent, hstats]⟩

/-- A task that is not over is in the set. -/
theorem Counted.inSet_ne_zero (h : Counted cli run) {number : ℕ} {task : SendTask} (htask : run.tasks[number]? = some task)
    (hgone : task.phase.gone = false) : run.inSet ≠ 0 := by
  have hmem : task ∈ run.tasks := List.mem_of_getElem? htask
  have hjoined : task.joined = false := by
    by_contra hjoined
    exact absurd (hgone.symm.trans (h.gone task hmem (by simpa using hjoined))) Bool.false_ne_true
  exact (List.countP_pos_iff.mpr ⟨task, hmem, by simp [hjoined]⟩).ne'

theorem Counted.step (h : Counted cli run) (heffect : Effect cli startNonce event run next) : Counted cli next := by
  -- a task that goes on keeps its place in the set
  have hgoes : ∀ {number : ℕ} {task : SendTask} (phase : SendPhase), run.tasks[number]? = some task →
      task.phase.gone = false → (run.setPhase number task phase).inSet ≤ run.inSet ∧
        (task.joined = true → phase.gone = true) := by
    intro number task phase htask hgone
    have hset : (run.tasks.set number { task with phase }).countP (fun task => !task.joined) = run.inSet :=
      countP_set_of_eq htask _ rfl
    refine ⟨hset.le, fun hjoined => ?_⟩
    exact absurd (hgone.symm.trans (h.gone task (List.mem_of_getElem? htask) hjoined)) Bool.false_ne_true
  have hkept : ∀ {number : ℕ} {task task' : SendTask}, run.tasks[number]? = some task →
      (∀ r, task'.phase = .counted r ↔ task.phase = .counted r) → ∀ resolution, run.stats.of resolution =
        Fin.ofNat (2 ^ 64) ((run.tasks.set number task').countP (·.phase = .counted resolution)) := by
    intro number task task' htask hsame resolution
    rw [countP_set_of_eq htask _ (by simp [hsame]), h.stats]
  cases heffect with
  | nothing | expired => exact ⟨h.window, h.gone, h.stats, h.ended, h.summary⟩
  | sent hended hfull =>
    refine ⟨?_, fun task hmem hjoined => ?_, fun resolution => ?_, fun hnext => ?_, fun summary hsummary => ?_⟩
    · have hroom : ¬ max cli.concurrency 1 ≤ run.inSet := of_decide_eq_false hfull
      have hone (task : SendTask) (hin : task.joined = false) :
          (run.tasks ++ [task]).countP (fun task => !task.joined) = run.inSet + 1 := by simp [inSet, hin]
      exact (hone _ rfl).le.trans (not_le.mp hroom)
    · rcases List.mem_append.mp hmem with hold | hnew
      · exact h.gone _ hold hjoined
      · obtain rfl := List.mem_singleton.mp hnew
        exact absurd hjoined Bool.false_ne_true
    · rw [List.countP_append]
      exact h.stats resolution
    · exact absurd (hended.symm.trans hnext) Bool.false_ne_true
    · exact absurd (hended.symm.trans (h.summary summary hsummary).1) Bool.false_ne_true
  | @quiet number task phase htask hgone _ hcounted =>
    obtain ⟨hset, hjoined⟩ := hgoes phase htask hgone
    have hnot : ∀ r, task.phase ≠ .counted r := by
      rintro r hr
      rw [hr] at hgone
      exact absurd hgone (by simp [SendPhase.gone])
    refine h.set rfl hset hjoined (hkept htask fun r => ?_) rfl rfl (.inr ⟨rfl, rfl⟩)
    exact iff_of_false (hcounted r) (hnot r)
  | @told number task resolution _ htask hphase =>
    obtain ⟨hset, hjoined⟩ := hgoes (.journaled resolution) htask (by rw [hphase]; rfl)
    refine h.set rfl hset hjoined (hkept htask fun r => ?_) rfl rfl (.inr ⟨rfl, rfl⟩)
    simp [hphase]
  | @torn number task resolution _ _ htask hphase =>
    obtain ⟨hset, hjoined⟩ := hgoes (.panicked (some resolution)) htask (by rw [hphase]; rfl)
    refine h.set rfl hset hjoined (hkept htask fun r => ?_) rfl rfl (.inr ⟨rfl, rfl⟩)
    simp [hphase]
  | @counted number task resolution htask hphase =>
    have hgone : task.phase.gone = false := by rw [hphase]; rfl
    obtain ⟨hset, hjoined⟩ := hgoes (.counted resolution) htask hgone
    refine h.set rfl hset hjoined (fun other => ?_) rfl rfl (.inl (h.inSet_ne_zero htask hgone))
    change (run.stats.record resolution).of other = Fin.ofNat _ ((run.tasks.set number _).countP _)
    rw [Stats.of_record]
    split_ifs with heq
    · rw [h.stats, ofNat_succ, countP_set_succ htask _ (by simp [hphase]) (by simp [heq])]
    · rw [countP_set_of_eq htask _ (by simp [hphase, heq]), h.stats]
  | @joined number task htask hgone =>
    refine h.set rfl ?_ (fun _ => hgone) (hkept htask fun r => Iff.rfl) rfl rfl (.inr ⟨rfl, rfl⟩)
    exact countP_set_le htask _ rfl
  | finished written hset hended =>
    refine ⟨h.window, h.gone, h.stats, fun _ => hset, fun summary hsummary => ⟨rfl, ?_⟩⟩
    cases written with
    | false => exact absurd hsummary.symm (Option.some_ne_none _)
    | true => exact (Option.some.inj hsummary).symm

/-! ### Whole runs -/

/-- What a request is resolved to is what came of its race. -/
def Settled (events : List LoadgenEvent) (run : LoadgenRun) : Prop :=
  ∀ number task resolution, run.tasks[number]? = some task → task.phase.resolution = some resolution →
    ∃ raced, LoadgenEvent.task number (.settle raced) ∈ events ∧ resolve raced = resolution

variable {events : List LoadgenEvent}

theorem Settled.step (h : Settled events run) (heffect : Effect cli startNonce event run next) :
    Settled (events ++ [event]) next := by
  have hold : ∀ number task resolution, run.tasks[number]? = some task → task.phase.resolution = some resolution →
      ∃ raced, LoadgenEvent.task number (.settle raced) ∈ events ++ [event] ∧ resolve raced = resolution := by
    intro number task resolution htask hresolution
    obtain ⟨raced, hin, heq⟩ := h number task resolution htask hresolution
    exact ⟨raced, List.mem_append_left _ hin, heq⟩
  have hset : ∀ {number : ℕ} {task task' : SendTask}, run.tasks[number]? = some task →
      (∀ resolution, task'.phase.resolution = some resolution → task.phase.resolution = some resolution ∨
        ∃ raced, event = .task number (.settle raced) ∧ resolve raced = resolution) →
      ∀ other found resolution, (run.tasks.set number task')[other]? = some found →
        found.phase.resolution = some resolution →
          ∃ raced, LoadgenEvent.task other (.settle raced) ∈ events ++ [event] ∧ resolve raced = resolution := by
    intro number task task' htask hsame other found resolution hfound hresolution
    rw [List.getElem?_set] at hfound
    split_ifs at hfound with heq hlt
    · obtain rfl := Option.some.inj hfound
      subst heq
      rcases hsame resolution hresolution with hbefore | ⟨raced, rfl, hraced⟩
      · exact hold number task resolution htask hbefore
      · exact ⟨raced, by simp, hraced⟩
    · exact hold other found resolution hfound hresolution
  cases heffect with
  | nothing | expired | finished => exact hold
  | sent =>
    intro number task resolution htask hresolution
    rw [List.getElem?_append] at htask
    split_ifs at htask with hlt
    · exact hold number task resolution htask hresolution
    · have hnew := List.mem_singleton.mp (List.mem_of_getElem? htask)
      rw [hnew] at hresolution
      exact absurd hresolution.symm (Option.some_ne_none _)
  | quiet htask _ _ _ hresolution =>
    refine hset htask fun resolution hnew => ?_
    rcases hresolution with hsame | ⟨raced, hevent, hraced⟩
    · exact .inl (hsame ▸ hnew)
    · exact .inr ⟨raced, hevent, Option.some.inj (hraced.symm.trans hnew)⟩
  | told htask hphase | torn _ htask hphase | counted htask hphase =>
    exact hset htask fun resolution hnew => .inl (by rw [hphase]; exact hnew)
  | joined htask => exact hset htask fun resolution hnew => .inl hnew

/-- What holds of a run after its events. -/
structure Ok (cli : Cli) (startNonce : ℕ) (events : List LoadgenEvent) (run : LoadgenRun) : Prop where
  sent : Sent cli startNonce run
  told : ∃ order, Told cli startNonce run order
  counted : Counted cli run
  settled : Settled events run

theorem run_ok (cli : Cli) (startNonce : ℕ) (events : List LoadgenEvent) :
    Ok cli startNonce events (LoadgenRun.run cli startNonce events) := by
  induction events using List.reverseRecOn with
  | nil =>
    refine ⟨⟨rfl, fun _ _ h => ?_⟩, ⟨[], List.nodup_nil, rfl, fun _ _ => ?_, rfl, fun _ h => ?_⟩,
      ⟨Nat.zero_le _, fun _ h => ?_, fun resolution => ?_, fun _ => rfl, fun _ h => ?_⟩, fun _ _ _ h => ?_⟩
    · exact absurd h (by simp [LoadgenRun.run])
    · simp [toldOf, LoadgenRun.run]
    · exact absurd h (by simp [LoadgenRun.run])
    · exact absurd h List.not_mem_nil
    · cases resolution <;> rfl
    · exact absurd h (by simp [LoadgenRun.run])
    · exact absurd h (by simp [LoadgenRun.run])
  | append_singleton events event ih =>
    have hlast : LoadgenRun.run cli startNonce (events ++ [event]) =
        (LoadgenRun.run cli startNonce events).step cli startNonce event := by
      simp only [LoadgenRun.run, List.foldl_append, List.foldl_cons, List.foldl_nil]
    rw [hlast]
    have heffect := step_effect cli startNonce (LoadgenRun.run cli startNonce events) event
    obtain ⟨order, htold⟩ := ih.told
    exact ⟨ih.sent.step heffect, htold.step ih.sent heffect, ih.counted.step heffect, ih.settled.step heffect⟩

end LoadgenRun

end Loadgen

end Duckspout
