import Duckspout.Ctk.Scheduler
import Mathlib.Algebra.BigOperators.Group.List.Basic
import Mathlib.Algebra.GroupWithZero.Nat

/-! Programs of sleeps, yields and spawns on the test scheduler: they run to completion at the time their sleeps add up to,
    whatever the strategy.

    A program sleeps, yields once, spawns another program, or blocks for good. -/

namespace Duckspout

/-! ### Programs -/

inductive Program where
  | done
  | sleep (nanos : ℕ) (rest : Program)
  /-- Pending once, after waking itself. -/
  | yieldOnce (rest : Program)
  | spawn (child rest : Program)
  /-- Pending for good, without a timer. -/
  | block
  deriving DecidableEq, Repr

/-- A task: the deadline of the sleep it awaits, and what it does then. -/
structure ProgramTask where
  awaiting : Option ℕ := none
  rest : Program
  deriving DecidableEq, Repr

/-- Runs a program as far as it gets. -/
def Program.run (clock : ℕ) : Program → Polled ProgramTask
  | done => { next := none }
  | sleep nanos rest =>
    let polled := if sleepDeadline clock nanos ≤ clock then rest.run clock
      else { next := some { awaiting := some (sleepDeadline clock nanos), rest } }
    { polled with slept := nanos :: polled.slept }
  | yieldOnce rest => { next := some { rest }, woke := true }
  | spawn child rest =>
    let polled := rest.run clock
    { polled with spawned := { rest := child } :: polled.spawned }
  | block => { next := some { rest := .block } }

/-- One poll: `SleepFuture` is ready once its deadline is there. -/
def ProgramTask.poll (task : ProgramTask) (clock : ℕ) : Polled ProgramTask :=
  match task.awaiting with
  | none => task.rest.run clock
  | some deadline => if deadline ≤ clock then task.rest.run clock else { next := some task }

/-- The tasks that are there after a poll. -/
def Polled.left {T : Type} (polled : Polled T) : List T := polled.spawned ++ polled.next.toList

/-! ### What a program takes -/

namespace Program

/-- The time at which all of the program is done, where it starts at `clock`. -/
def finish (clock : ℕ) : Program → ℕ
  | done => clock
  | sleep nanos rest => rest.finish (clock + nanos)
  | yieldOnce rest => rest.finish clock
  | spawn child rest => max (child.finish clock) (rest.finish clock)
  | block => clock

/-- How many of its tasks block. -/
def blocked : Program → ℕ
  | done => 0
  | sleep _ rest => rest.blocked
  | yieldOnce rest => rest.blocked
  | spawn child rest => child.blocked + rest.blocked
  | block => 1

def size : Program → ℕ
  | done => 1
  | sleep _ rest => rest.size + 2
  | yieldOnce rest => rest.size + 1
  | spawn child rest => child.size + rest.size + 1
  | block => 1

theorem le_finish (program : Program) (clock : ℕ) : clock ≤ program.finish clock := by
  induction program generalizing clock with
  | done | block => exact le_rfl
  | sleep nanos rest ih => exact (Nat.le_add_right _ _).trans (ih _)
  | yieldOnce rest ih => exact ih _
  | spawn child rest ihChild ihRest => exact le_max_of_le_left (ihChild _)

end Program

namespace ProgramTask

/-- The time at which the task is done: it goes on at its deadline. -/
def finish (clock : ℕ) (task : ProgramTask) : ℕ := task.rest.finish (max clock (task.awaiting.getD 0))

def blocked (task : ProgramTask) : ℕ := task.rest.blocked

def size (task : ProgramTask) : ℕ := task.rest.size + task.awaiting.elim 0 fun _ => 1

/-- The task gets nowhere at this time. -/
def Waiting (clock : ℕ) (task : ProgramTask) : Prop :=
  (∃ d, task.awaiting = some d ∧ clock < d) ∨ task = { rest := .block }

theorem le_finish (task : ProgramTask) (clock : ℕ) : clock ≤ task.finish clock :=
  (le_max_left _ _).trans (task.rest.le_finish _)

theorem finish_block (clock : ℕ) : finish clock { rest := .block } = clock := max_eq_left (Nat.zero_le _)

end ProgramTask

/-! ### One poll -/

/-- What a poll makes of a task that awaits a deadline, if any. -/
structure PollSpec (clock : ℕ) (awaiting : Option ℕ) (finish blocked size : ℕ) (polled : Polled ProgramTask) : Prop where
  /-- The tasks left are done when the task would have been. -/
  finish_le : ∀ m, finish ≤ m ↔ clock ≤ m ∧ ∀ task ∈ polled.left, task.finish clock ≤ m
  blocked_eq : (polled.left.map ProgramTask.blocked).sum = blocked
  size_le : (polled.left.map ProgramTask.size).sum ≤ size
  /-- Who awaits a deadline has it registered. -/
  awaits : ∀ task ∈ polled.left, ∀ d ∈ task.awaiting, d ∈ polled.slept.map (sleepDeadline clock) ∨ d ∈ awaiting
  /-- A deadline that lies ahead is awaited. -/
  awaited : ∀ d ∈ polled.slept.map (sleepDeadline clock), clock < d → ∃ task ∈ polled.left, task.awaiting = some d
  /-- Without progress what is left gets nowhere. -/
  quiet : polled.next.isSome = true → polled.woke = false → polled.spawned = [] →
    ∀ task ∈ polled.left, task.Waiting clock

theorem PollSpec.of_next {clock finish blocked size : ℕ} {awaiting : Option ℕ} {task : ProgramTask}
    {polled : Polled ProgramTask}
    (hleft : polled.left = [task]) (hfinish : task.finish clock = finish) (hblocked : task.blocked = blocked)
    (hsize : task.size ≤ size)
    (hawaits : ∀ d ∈ task.awaiting, d ∈ polled.slept.map (sleepDeadline clock) ∨ d ∈ awaiting)
    (hawaited : ∀ d ∈ polled.slept.map (sleepDeadline clock), clock < d → task.awaiting = some d)
    (hquiet : polled.woke = false → task.Waiting clock) : PollSpec clock awaiting finish blocked size polled where
  finish_le m := by
    rw [hleft, List.forall_mem_singleton, hfinish]
    exact ⟨fun h => ⟨(hfinish ▸ task.le_finish clock).trans h, h⟩, And.right⟩
  blocked_eq := by simp [hleft, hblocked]
  size_le := by simp [hleft, hsize]
  awaits := by rw [hleft, List.forall_mem_singleton]; exact hawaits
  awaited d hd hahead := ⟨task, by simp [hleft], hawaited d hd hahead⟩
  quiet _ hwoke _ := by rw [hleft, List.forall_mem_singleton]; exact hquiet hwoke

theorem Program.pollSpec (program : Program) {clock : ℕ} (hfits : program.finish clock ≤ u64Max) :
    PollSpec clock none (program.finish clock) program.blocked program.size (program.run clock) := by
  induction program with
  | done => exact ⟨fun m => by simp [run, Polled.left, finish], rfl, Nat.zero_le _, by simp [run, Polled.left],
      by simp [run], by simp [run]⟩
  | sleep nanos rest ih =>
    have hdeadline : sleepDeadline clock nanos = clock + nanos :=
      min_eq_left ((rest.le_finish _).trans hfits)
    by_cases hzero : nanos = 0
    · subst hzero
      have hrun : (sleep 0 rest).run clock = { rest.run clock with slept := 0 :: (rest.run clock).slept } := by
        simp [run, hdeadline]
      obtain ⟨hfinish, hblocked, hsize, hawaits, hawaited, hquiet⟩ := ih hfits
      rw [hrun]
      refine ⟨hfinish, hblocked, hsize.trans (Nat.le_add_right _ _), fun task htask d hd => ?_, fun d hd hahead => ?_, hquiet⟩
      · exact (hawaits task htask d hd).imp_left (List.mem_cons_of_mem _)
      · rcases List.mem_cons.mp hd with rfl | hd
        · rw [hdeadline] at hahead
          exact absurd hahead (lt_irrefl clock)
        · exact hawaited d hd hahead
    · have hrun : (sleep nanos rest).run clock =
          { next := some { awaiting := some (clock + nanos), rest }, slept := [nanos] } := by
        simp [run, hdeadline, hzero]
      rw [hrun]
      refine .of_next rfl ?_ rfl (Nat.le_succ _) ?_ ?_ fun _ => Or.inl ⟨clock + nanos, rfl, by omega⟩
      · simp [ProgramTask.finish, finish]
      · simp [hdeadline]
      · simp [hdeadline]
  | yieldOnce rest ih =>
    refine .of_next rfl ?_ rfl (Nat.le_succ _) ?_ ?_ fun h => by cases h
    · simp [ProgramTask.finish, finish]
    · simp
    · simp [run]
  | spawn child rest ihChild ihRest =>
    obtain ⟨hfinish, hblocked, hsize, hawaits, hawaited, hquiet⟩ := ihRest ((le_max_right _ _).trans hfits)
    have hleft : ((spawn child rest).run clock).left = { rest := child } :: (rest.run clock).left := rfl
    have hslept : ((spawn child rest).run clock).slept = (rest.run clock).slept := rfl
    refine ⟨fun m => ?_, ?_, ?_, ?_, fun d hd hahead => ?_, fun _ _ h => by cases h⟩
    · have hchild : ProgramTask.finish clock { rest := child } = child.finish clock := by simp [ProgramTask.finish]
      rw [hleft, List.forall_mem_cons, hchild, finish, max_le_iff, hfinish]
      tauto
    · rw [hleft, List.map_cons, List.sum_cons, hblocked]
      rfl
    · rw [hleft, List.map_cons, List.sum_cons]
      have hchild : ProgramTask.size { rest := child } = child.size := rfl
      rw [hchild, size]
      omega
    · rw [hleft, hslept, List.forall_mem_cons]
      exact ⟨fun _ hd => absurd hd (Option.not_mem_none _), hawaits⟩
    · obtain ⟨task, htask, hd⟩ := hawaited d hd hahead
      exact ⟨task, List.mem_cons_of_mem _ htask, hd⟩
  | block => exact .of_next rfl (by simp [ProgramTask.finish, finish]) rfl le_rfl (by simp) (by simp [run]) fun _ => Or.inr rfl

theorem Program.size_run_lt {program : Program} {clock : ℕ} (hfits : program.finish clock ≤ u64Max)
    (hgoes : program ≠ .block) : (((program.run clock).left).map ProgramTask.size).sum < program.size := by
  cases program with
  | done => exact Nat.zero_lt_one
  | sleep nanos rest =>
    by_cases hzero : sleepDeadline clock nanos ≤ clock
    · have hrest : rest.finish clock ≤ u64Max := by
        have hsleep : (sleep nanos rest).finish clock = rest.finish (clock + nanos) := rfl
        have := rest.le_finish (clock + nanos)
        rw [sleepDeadline] at hzero
        have hnanos : nanos = 0 := by omega
        rwa [hsleep, hnanos, Nat.add_zero] at hfits
      have hleft : ((sleep nanos rest).run clock).left = (rest.run clock).left := by simp [run, hzero, Polled.left]
      have hle := (rest.pollSpec hrest).size_le
      rw [hleft, size]
      omega
    · have hleft : ((sleep nanos rest).run clock).left =
          [{ awaiting := some (sleepDeadline clock nanos), rest }] := by simp [run, hzero, Polled.left]
      simp [hleft, ProgramTask.size, size]
  | yieldOnce rest => simp [run, Polled.left, ProgramTask.size, size]
  | spawn child rest =>
    have hle := (rest.pollSpec ((le_max_right _ _).trans hfits)).size_le
    have hleft : ((spawn child rest).run clock).left = { rest := child } :: (rest.run clock).left := rfl
    have hchild : ProgramTask.size { rest := child } = child.size := rfl
    rw [hleft, List.map_cons, List.sum_cons, hchild, size]
    omega
  | block => exact absurd rfl hgoes

namespace ProgramTask

variable {task : ProgramTask} {clock : ℕ}

/-- A task that gets nowhere is left as it is. -/
theorem poll_waiting (h : task.Waiting clock) : task.poll clock = { next := some task } := by
  rcases h with ⟨d, hd, hahead⟩ | rfl
  · simp [poll, hd, hahead.not_ge]
  · rfl

theorem poll_going (h : ¬task.Waiting clock) : task.poll clock = task.rest.run clock ∧
    task.finish clock = task.rest.finish clock := by
  obtain ⟨hawaiting, -⟩ := not_or.mp h
  rcases ha : task.awaiting with _ | d
  · simp [poll, finish, ha]
  · have hle : d ≤ clock := by
      by_contra hahead
      exact hawaiting ⟨d, ha, not_le.mp hahead⟩
    simp [poll, finish, ha, hle]

theorem pollSpec (hfits : task.finish clock ≤ u64Max) :
    PollSpec clock task.awaiting (task.finish clock) task.blocked task.size (task.poll clock) := by
  by_cases h : task.Waiting clock
  · rw [poll_waiting h]
    exact .of_next rfl rfl rfl le_rfl (fun d hd => Or.inr hd) (fun d hd => absurd hd List.not_mem_nil) fun _ => h
  · obtain ⟨hpoll, hfinish⟩ := poll_going h
    rw [hpoll, hfinish]
    rw [hfinish] at hfits
    obtain ⟨hspec, hblocked, hsize, hawaits, hawaited, hquiet⟩ := task.rest.pollSpec hfits
    refine ⟨hspec, hblocked, hsize.trans (Nat.le_add_right _ _), fun t ht d hd => ?_, hawaited, hquiet⟩
    exact Or.inl ((hawaits t ht d hd).resolve_right (Option.not_mem_none d))

/-- A task that goes on gets smaller. -/
theorem size_poll_lt (h : ¬task.Waiting clock) (hfits : task.finish clock ≤ u64Max) :
    ((task.poll clock).left.map size).sum < task.size := by
  obtain ⟨hpoll, hfinish⟩ := poll_going h
  rw [hpoll]
  rw [hfinish] at hfits
  rcases ha : task.awaiting with _ | d
  · have hgoes : task.rest ≠ .block := by
      intro hblock
      exact h (Or.inr (by cases task; simp_all))
    simpa [size, ha] using Program.size_run_lt hfits hgoes
  · have hsize := (task.rest.pollSpec hfits).size_le
    simp only [size, ha, Option.elim_some]
    omega

end ProgramTask

/-! ### Lists of tasks -/

section Lists

variable {clock : ℕ} {tasks tasks' : List ProgramTask}

/-- The time at which all the tasks are done. -/
def latest (clock : ℕ) (tasks : List ProgramTask) : ℕ := (tasks.map (ProgramTask.finish clock)).foldr max clock

theorem latest_le {m : ℕ} : latest clock tasks ≤ m ↔ clock ≤ m ∧ ∀ task ∈ tasks, task.finish clock ≤ m := by
  induction tasks with
  | nil => simp [latest]
  | cons task tasks ih =>
    have hcons : latest clock (task :: tasks) = max (task.finish clock) (latest clock tasks) := rfl
    rw [hcons, max_le_iff, ih, List.forall_mem_cons]
    tauto

theorem le_latest : clock ≤ latest clock tasks := (latest_le.mp le_rfl).1

theorem finish_le_latest {task : ProgramTask} (h : task ∈ tasks) : task.finish clock ≤ latest clock tasks :=
  (latest_le.mp le_rfl).2 task h

theorem latest_congr (h : ∀ task, task ∈ tasks ↔ task ∈ tasks') : latest clock tasks = latest clock tasks' := by
  refine eq_of_forall_ge_iff fun m => ?_
  simp only [latest_le, h]

/-- What the tasks are after each has been polled. -/
def leftOf (clock : ℕ) (tasks : List ProgramTask) : List ProgramTask := tasks.flatMap fun task => (task.poll clock).left

theorem latest_leftOf (hfits : latest clock tasks ≤ u64Max) : latest clock (leftOf clock tasks) = latest clock tasks := by
  refine eq_of_forall_ge_iff fun m => ?_
  rw [latest_le, latest_le]
  refine and_congr_right fun hclock => ?_
  constructor
  · intro h task htask
    have hspec := task.pollSpec ((finish_le_latest htask).trans hfits)
    exact (hspec.finish_le m).mpr ⟨hclock, fun t ht => h t (List.mem_flatMap.mpr ⟨task, htask, ht⟩)⟩
  · intro h t ht
    obtain ⟨task, htask, ht⟩ := List.mem_flatMap.mp ht
    have hspec := task.pollSpec ((finish_le_latest htask).trans hfits)
    exact ((hspec.finish_le m).mp (h task htask)).2 t ht

def blockedIn (tasks : List ProgramTask) : ℕ := (tasks.map ProgramTask.blocked).sum

def sizeOf (tasks : List ProgramTask) : ℕ := (tasks.map ProgramTask.size).sum

theorem blockedIn_leftOf (hfits : latest clock tasks ≤ u64Max) : blockedIn (leftOf clock tasks) = blockedIn tasks := by
  have h : ∀ task ∈ tasks, task.finish clock ≤ u64Max := fun task htask => (finish_le_latest htask).trans hfits
  clear hfits
  induction tasks with
  | nil => rfl
  | cons task tasks ih =>
    have hleft : leftOf clock (task :: tasks) = (task.poll clock).left ++ leftOf clock tasks := rfl
    have htasks := ih fun t ht => h t (List.mem_cons_of_mem _ ht)
    have htask := (task.pollSpec (h task List.mem_cons_self)).blocked_eq
    rw [blockedIn] at htasks ⊢
    rw [hleft, List.map_append, List.sum_append, htask, htasks]
    rfl

/-- Polling does not make tasks bigger, and makes them smaller unless all get nowhere. -/
theorem sizeOf_leftOf (hfits : latest clock tasks ≤ u64Max) : sizeOf (leftOf clock tasks) ≤ sizeOf tasks ∧
    ((∃ task ∈ tasks, ¬task.Waiting clock) → sizeOf (leftOf clock tasks) < sizeOf tasks) := by
  have h : ∀ task ∈ tasks, task.finish clock ≤ u64Max := fun task htask => (finish_le_latest htask).trans hfits
  clear hfits
  induction tasks with
  | nil => exact ⟨le_rfl, fun ⟨_, h, _⟩ => absurd h List.not_mem_nil⟩
  | cons task tasks ih =>
    have hleft : leftOf clock (task :: tasks) = (task.poll clock).left ++ leftOf clock tasks := rfl
    obtain ⟨hle, hlt⟩ := ih fun t ht => h t (List.mem_cons_of_mem _ ht)
    have htask := (task.pollSpec (h task List.mem_cons_self)).size_le
    simp only [sizeOf] at hle hlt ⊢
    rw [hleft, List.map_append, List.sum_append, List.map_cons, List.sum_cons]
    refine ⟨by omega, ?_⟩
    rintro ⟨t, ht, hgoes⟩
    rcases List.mem_cons.mp ht with rfl | ht
    · have := t.size_poll_lt hgoes (h t List.mem_cons_self)
      omega
    · have := hlt ⟨t, ht, hgoes⟩
      omega

/-- Moving the clock to the first deadline does not make the tasks any later. -/
theorem latest_advance {deadline : ℕ} (hlater : clock < deadline) (hwaiting : ∀ task ∈ tasks, task.Waiting clock)
    (hfirst : ∀ task ∈ tasks, ∀ d ∈ task.awaiting, clock < d → deadline ≤ d)
    (hawaited : ∃ task ∈ tasks, task.awaiting = some deadline) : latest deadline tasks = latest clock tasks := by
  have hsame : ∀ task ∈ tasks, ∀ d ∈ task.awaiting, task.finish deadline = task.finish clock := by
    intro task htask d hd
    rcases hwaiting task htask with ⟨d', hd', hahead⟩ | rfl
    · obtain rfl : d = d' := Option.some.inj ((Option.mem_def.mp hd).symm.trans hd')
      have hle := hfirst task htask d hd hahead
      rw [ProgramTask.finish, ProgramTask.finish, hd', Option.getD_some, max_eq_right hle, max_eq_right hahead.le]
    · cases hd
  obtain ⟨sleeper, hsleeper, hdeadline⟩ := hawaited
  refine eq_of_forall_ge_iff fun m => ?_
  rw [latest_le, latest_le]
  constructor
  · rintro ⟨hm, h⟩
    refine ⟨hlater.le.trans hm, fun task htask => ?_⟩
    rcases ha : task.awaiting with _ | d
    · obtain rfl := (hwaiting task htask).resolve_left fun ⟨d, hd, _⟩ => by rw [ha] at hd; cases hd
      exact (ProgramTask.finish_block clock).trans_le (hlater.le.trans hm)
    · exact hsame task htask d ha ▸ h task htask
  · rintro ⟨hm, h⟩
    have hle : deadline ≤ m := by
      have := h sleeper hsleeper
      rw [← hsame sleeper hsleeper deadline hdeadline] at this
      exact (sleeper.le_finish deadline).trans this
    refine ⟨hle, fun task htask => ?_⟩
    rcases ha : task.awaiting with _ | d
    · obtain rfl := (hwaiting task htask).resolve_left fun ⟨d, hd, _⟩ => by rw [ha] at hd; cases hd
      exact (ProgramTask.finish_block deadline).trans_le hle
    · exact (hsame task htask d ha).symm ▸ h task htask

theorem blockedIn_of_block (clock : ℕ) (h : ∀ task ∈ tasks, task = { rest := .block }) :
    blockedIn tasks = tasks.length ∧ latest clock tasks = clock := by
  rw [List.eq_replicate_of_mem h]
  refine ⟨by simp [blockedIn, ProgramTask.blocked, Program.blocked], eq_of_forall_ge_iff fun m => ?_⟩
  rw [latest_le]
  refine and_iff_left_of_imp fun hm task htask => ?_
  obtain rfl := List.eq_of_mem_replicate htask
  exact (ProgramTask.finish_block clock).trans_le hm

end Lists

/-! ### One round -/

abbrev programPoll : Poll ProgramTask Unit := fun task clock world => (task.poll clock, world)

/-- The poll got something done. -/
def Polled.progress {T : Type} (polled : Polled T) : Bool := polled.next.isNone || polled.woke || !polled.spawned.isEmpty

open SeededScheduler

theorem progressed_poll {clock : ℕ} {round : PollRound ProgramTask Unit} {task : ProgramTask} :
    Progressed (round.poll programPoll clock task) ↔ Progressed round ∨ (task.poll clock).progress = true := by
  simp only [Progressed, PollRound.poll, Polled.progress, Bool.or_eq_true, Bool.not_eq_true', List.isEmpty_eq_false_iff,
    ne_eq, List.append_eq_nil_iff, not_and_or]
  tauto

theorem foldl_programPoll (clock : ℕ) (order : List ProgramTask) (round : PollRound ProgramTask Unit) :
    ((order.foldl (PollRound.poll programPoll clock) round).spawned ++
        (order.foldl (PollRound.poll programPoll clock) round).stillPending).Perm
      (round.spawned ++ round.stillPending ++ leftOf clock order) ∧
    (∀ d, d ∈ (order.foldl (PollRound.poll programPoll clock) round).deadlines ↔
      d ∈ round.deadlines ∨ ∃ task ∈ order, d ∈ (task.poll clock).slept.map (sleepDeadline clock)) ∧
    (Progressed (order.foldl (PollRound.poll programPoll clock) round) ↔
      Progressed round ∨ ∃ task ∈ order, (task.poll clock).progress = true) := by
  induction order generalizing round with
  | nil => simp [leftOf]
  | cons task order ih =>
    obtain ⟨hperm, hdeadlines, hprogress⟩ := ih (round.poll programPoll clock task)
    rw [List.foldl_cons]
    refine ⟨hperm.trans ?_, fun d => ?_, ?_⟩
    · have hleft : leftOf clock (task :: order) = (task.poll clock).left ++ leftOf clock order := rfl
      rw [hleft, ← List.append_assoc]
      refine List.Perm.append_right _ ?_
      -- what is spawned and what is left pending trade places
      have hswap : ((task.poll clock).spawned ++ round.stillPending).Perm (round.stillPending ++ (task.poll clock).spawned) :=
        List.perm_append_comm
      simpa [PollRound.poll, Polled.left, List.append_assoc] using
        (hswap.append_left round.spawned).append_right (task.poll clock).next.toList
    · rw [hdeadlines]
      simp [PollRound.poll, or_assoc]
    · rw [hprogress, progressed_poll, List.exists_mem_cons_iff, or_assoc]

variable {S : Type} {strategy : ScheduleStrategy S} {scheduler : SeededScheduler ProgramTask Unit S}

/-- Who awaits a deadline ahead has it registered, and what is registered ahead is awaited. -/
structure OnTime (scheduler : SeededScheduler ProgramTask Unit S) : Prop where
  registered : ∀ task ∈ scheduler.tasks, ∀ d ∈ task.awaiting, scheduler.clock < d → d ∈ scheduler.deadlines
  awaited : ∀ d ∈ scheduler.deadlines, scheduler.clock < d → ∃ task ∈ scheduler.tasks, task.awaiting = some d

/-- What a round leaves. -/
structure RoundEnd (scheduler after : SeededScheduler ProgramTask Unit S) : Prop where
  onTime : OnTime after
  latest_eq : latest after.clock after.tasks = latest scheduler.clock scheduler.tasks
  blocked_eq : blockedIn after.tasks = blockedIn scheduler.tasks
  size_le : sizeOf after.tasks ≤ sizeOf scheduler.tasks
  size_lt : (∃ task ∈ scheduler.tasks, ¬task.Waiting scheduler.clock) → sizeOf after.tasks < sizeOf scheduler.tasks

theorem OnTime.endRound (h : OnTime scheduler) (hfits : latest scheduler.clock scheduler.tasks ≤ u64Max)
    {order : List ProgramTask} (horder : order.Perm scheduler.tasks) (s : S) :
    RoundEnd scheduler (scheduler.endRound s (scheduler.roundIn programPoll order)) ∧
      (Progressed (scheduler.roundIn programPoll order) → ∃ task ∈ scheduler.tasks, ¬task.Waiting scheduler.clock) ∧
      (¬Progressed (scheduler.roundIn programPoll order) →
        ∀ task ∈ (scheduler.endRound s (scheduler.roundIn programPoll order)).tasks, task.Waiting scheduler.clock) := by
  obtain ⟨hperm, hdeadlines, hprogress⟩ := foldl_programPoll scheduler.clock order scheduler.startRound
  have htasks : (scheduler.endRound s (scheduler.roundIn programPoll order)).tasks.Perm
      (leftOf scheduler.clock scheduler.tasks) := by
    refine hperm.trans ?_
    simpa [startRound, leftOf] using horder.flatMap_right _
  have hstart : ¬Progressed scheduler.startRound := by simp [Progressed, startRound]
  have hspec : ∀ task ∈ scheduler.tasks, PollSpec scheduler.clock task.awaiting (task.finish scheduler.clock) task.blocked
      task.size (task.poll scheduler.clock) := fun task htask => task.pollSpec ((finish_le_latest htask).trans hfits)
  have hmem : ∀ t, t ∈ (scheduler.endRound s (scheduler.roundIn programPoll order)).tasks ↔
      ∃ task ∈ scheduler.tasks, t ∈ (task.poll scheduler.clock).left := fun t => htasks.mem_iff.trans List.mem_flatMap
  have hregistered : ∀ d, scheduler.clock < d →
      (d ∈ (scheduler.endRound s (scheduler.roundIn programPoll order)).deadlines ↔ d ∈ scheduler.deadlines ∨
        ∃ task ∈ scheduler.tasks, d ∈ (task.poll scheduler.clock).slept.map (sleepDeadline scheduler.clock)) := by
    intro d hahead
    rw [SeededScheduler.endRound, Finset.mem_filter, roundIn, hdeadlines]
    simp only [horder.mem_iff]
    exact and_iff_left hahead
  obtain ⟨hsize, hsizeLt⟩ := sizeOf_leftOf hfits
  refine ⟨⟨⟨fun t ht d hd hahead => ?_, fun d hd hahead => ?_⟩, ?_, ?_, ?_, ?_⟩, fun h => ?_, fun h t ht => ?_⟩
  · obtain ⟨task, htask, ht⟩ := (hmem t).mp ht
    refine (hregistered d hahead).mpr ?_
    rcases (hspec task htask).awaits t ht d hd with hslept | hold
    · exact Or.inr ⟨task, htask, hslept⟩
    · exact Or.inl (h.registered task htask d hold hahead)
  · rcases (hregistered d hahead).mp hd with hold | ⟨task, htask, hslept⟩
    · obtain ⟨task, htask, hawaiting⟩ := h.awaited d hold hahead
      have hwaiting : task.Waiting scheduler.clock := Or.inl ⟨d, hawaiting, hahead⟩
      refine ⟨task, (hmem task).mpr ⟨task, htask, ?_⟩, hawaiting⟩
      rw [ProgramTask.poll_waiting hwaiting]
      exact List.mem_cons_self
    · obtain ⟨t, ht, hawaiting⟩ := (hspec task htask).awaited d hslept hahead
      exact ⟨t, (hmem t).mpr ⟨task, htask, ht⟩, hawaiting⟩
  · exact (latest_congr fun t => htasks.mem_iff).trans (latest_leftOf hfits)
  · exact ((htasks.map _).sum_eq).trans (blockedIn_leftOf hfits)
  · exact ((htasks.map _).sum_eq).trans_le hsize
  · exact fun hgoes => ((htasks.map _).sum_eq).trans_lt (hsizeLt hgoes)
  · obtain ⟨task, htask, hpoll⟩ := (hprogress.mp h).resolve_left hstart
    refine ⟨task, horder.mem_iff.mp htask, fun hwaiting => ?_⟩
    simp [ProgramTask.poll_waiting hwaiting, Polled.progress] at hpoll
  · obtain ⟨task, htask, ht⟩ := (hmem t).mp ht
    have hpoll : ¬(task.poll scheduler.clock).progress = true :=
      fun hpoll => h (hprogress.mpr (Or.inr ⟨task, horder.mem_iff.mpr htask, hpoll⟩))
    simp only [Polled.progress, Bool.or_eq_true, Bool.not_eq_true', List.isEmpty_eq_false_iff, not_or, not_not,
      Option.isNone_iff_eq_none, Bool.not_eq_true] at hpoll
    exact (hspec task htask).quiet (Option.isSome_iff_ne_none.mpr hpoll.1.1) hpoll.1.2 hpoll.2 t ht

/-! ### Whole runs -/

/-- Twice the size, and one more where every task gets nowhere: each turn makes it smaller. -/
noncomputable def turnsLeft (scheduler : SeededScheduler ProgramTask Unit S) : ℕ :=
  2 * sizeOf scheduler.tasks + open Classical in if ∀ task ∈ scheduler.tasks, task.Waiting scheduler.clock then 1 else 0

/-- One turn: it goes on with less left to do, or returns the number of tasks that block. -/
theorem OnTime.turn (hlawful : strategy.Lawful) (h : OnTime scheduler)
    (hfits : latest scheduler.clock scheduler.tasks < u64Max) : ∃ after,
      (SeededScheduler.turn strategy programPoll scheduler = .ok (none, after) ∧ OnTime after ∧
        latest after.clock after.tasks = latest scheduler.clock scheduler.tasks ∧
        blockedIn after.tasks = blockedIn scheduler.tasks ∧ turnsLeft after < turnsLeft scheduler) ∨
      (SeededScheduler.turn strategy programPoll scheduler = .ok (some (blockedIn scheduler.tasks), after) ∧
        after.clock = latest scheduler.clock scheduler.tasks) := by
  have heffect := turn_effect programPoll hlawful scheduler
  generalize SeededScheduler.turn strategy programPoll scheduler = result at heffect
  cases heffect with
  | idle htasks => exact ⟨scheduler, Or.inr (by simp [htasks, blockedIn, latest])⟩
  | overflow hclock =>
    have hle : scheduler.clock ≤ latest scheduler.clock scheduler.tasks := le_latest
    omega
  | @again order s horder hprogress =>
    obtain ⟨hround, hgoes, -⟩ := h.endRound hfits.le horder s
    refine ⟨_, Or.inl ⟨rfl, hround.onTime, hround.latest_eq, hround.blocked_eq, ?_⟩⟩
    have hlt := hround.size_lt (hgoes hprogress)
    simp only [turnsLeft]
    split <;> omega
  | @stuck order s htasks horder hprogress hdeadlines =>
    obtain ⟨hround, -, hwaiting⟩ := h.endRound hfits.le horder s
    have hblock : ∀ task ∈ (scheduler.endRound s (scheduler.roundIn programPoll order)).tasks, task = { rest := .block } := by
      refine fun task htask => (hwaiting hprogress task htask).resolve_left fun ⟨d, hd, hahead⟩ => ?_
      have hregistered := hround.onTime.registered task htask d hd hahead
      rw [hdeadlines] at hregistered
      exact Finset.notMem_empty d hregistered
    obtain ⟨hlength, hclock⟩ := blockedIn_of_block scheduler.clock hblock
    refine ⟨scheduler.endRound s (scheduler.roundIn programPoll order), Or.inr ⟨?_, ?_⟩⟩
    · rw [← hlength, hround.blocked_eq]
    · exact hclock.symm.trans hround.latest_eq
  | @advance order s deadline horder hprogress hlater hmem hfirst =>
    obtain ⟨hround, -, hwaiting⟩ := h.endRound hfits.le horder s
    have hwaiting := hwaiting hprogress
    have hclock : ((scheduler.endRound s (scheduler.roundIn programPoll order)).advanceTo deadline).clock = deadline :=
      max_eq_right hlater.le
    obtain ⟨sleeper, hsleeper, hdeadline⟩ := hround.onTime.awaited deadline hmem hlater
    refine ⟨_, Or.inl ⟨rfl, ⟨fun task htask d hd hahead => ?_, fun d hd hahead => ?_⟩, ?_, hround.blocked_eq, ?_⟩⟩
    · exact hround.onTime.registered task htask d hd (hlater.trans (hclock ▸ hahead))
    · exact hround.onTime.awaited d hd (hlater.trans (hclock ▸ hahead))
    · rw [hclock]
      refine (latest_advance hlater hwaiting (fun task htask d hd hahead => ?_) ⟨sleeper, hsleeper, hdeadline⟩).trans
        hround.latest_eq
      exact hfirst d (hround.onTime.registered task htask d hd hahead)
    · -- who awaits the deadline goes on in the next turn
      have hgoes : ¬∀ task ∈ ((scheduler.endRound s (scheduler.roundIn programPoll order)).advanceTo deadline).tasks,
          task.Waiting ((scheduler.endRound s (scheduler.roundIn programPoll order)).advanceTo deadline).clock := by
        intro hall
        rcases hall sleeper hsleeper with ⟨d, hd, hahead⟩ | hblock
        · rw [hclock, Option.some.inj (hd.symm.trans hdeadline)] at hahead
          exact lt_irrefl _ hahead
        · rw [hblock] at hdeadline
          cases hdeadline
      have hle := hround.size_le
      have hlt := hround.size_lt
      rw [turnsLeft, if_neg hgoes, turnsLeft]
      split
      · exact Nat.lt_succ_of_le (Nat.mul_le_mul_left 2 hle)
      · rename_i hsome
        have := hlt (by simpa only [not_forall, exists_prop] using hsome)
        exact Nat.mul_lt_mul_of_pos_left this Nat.two_pos

theorem OnTime.runUntilIdle (hlawful : strategy.Lawful) (h : OnTime scheduler)
    (hfits : latest scheduler.clock scheduler.tasks < u64Max) : ∃ turns after,
      SeededScheduler.runUntilIdle strategy programPoll turns scheduler = .ok (some (blockedIn scheduler.tasks), after) ∧
        after.clock = latest scheduler.clock scheduler.tasks := by
  generalize hleft : turnsLeft scheduler = left
  induction left using Nat.strong_induction_on generalizing scheduler with
  | _ left ih =>
    obtain ⟨after, ⟨hturn, honTime, hlatest, hblocked, hless⟩ | ⟨hturn, hclock⟩⟩ := h.turn hlawful hfits
    · obtain ⟨turns, last, hrun, hclock⟩ := ih _ (hleft ▸ hless) honTime (hlatest ▸ hfits) rfl
      refine ⟨turns + 1, last, ?_, hclock.trans hlatest⟩
      simp only [SeededScheduler.runUntilIdle, hturn, hrun, hblocked]
    · exact ⟨1, after, by simp only [SeededScheduler.runUntilIdle, hturn], hclock⟩

/-- Programs spawned on a scheduler run until idle under every strategy that keeps its contract, and always with the same
    outcome: the programs that block are stuck, and the clock stands where the last sleep ends. -/
theorem programs_complete {S : Type} {strategy : ScheduleStrategy S} (hlawful : strategy.Lawful) (programs : List Program)
    (clock : ℕ) (s : S) (hfits : ∀ program ∈ programs, program.finish clock < u64Max) (hclock : clock < u64Max) :
    ∃ turns after, runUntilIdle strategy programPoll turns
        { clock, strategy := s, tasks := programs.map fun program => { rest := program }, world := () } =
          .ok (some (programs.map Program.blocked).sum, after) ∧
      after.clock = (programs.map (Program.finish clock)).foldr max clock := by
  have hfinish : ∀ program : Program, ProgramTask.finish clock { rest := program } = program.finish clock :=
    fun program => congrArg program.finish (max_eq_left (Nat.zero_le _))
  have hlatest : latest clock (programs.map fun program => ({ rest := program } : ProgramTask)) =
      (programs.map (Program.finish clock)).foldr max clock := by
    rw [latest, List.map_map]
    exact congrArg (List.foldr max clock) (List.map_congr_left fun program _ => hfinish program)
  have hstart : OnTime ({ clock, strategy := s, tasks := programs.map fun program => { rest := program }, world := () } :
      SeededScheduler ProgramTask Unit S) := by
    refine ⟨fun task htask d hd => ?_, fun d hd => absurd hd (Finset.notMem_empty d)⟩
    obtain ⟨program, -, rfl⟩ := List.mem_map.mp htask
    cases hd
  have hbelow : latest clock (programs.map fun program => ({ rest := program } : ProgramTask)) ≤ u64Max - 1 := by
    refine latest_le.mpr ⟨by omega, fun task htask => ?_⟩
    obtain ⟨program, hprogram, rfl⟩ := List.mem_map.mp htask
    have := hfits program hprogram
    rw [hfinish]
    omega
  obtain ⟨turns, after, hrun, hend⟩ := hstart.runUntilIdle hlawful (Nat.lt_of_le_of_lt hbelow (by decide))
  rw [blockedIn, List.map_map] at hrun
  exact ⟨turns, after, hrun, hend.trans hlatest⟩

/-- A task that sleeps and another that spawns one that blocks, under the random strategy. -/
theorem programs_complete_seeded : ∃ turns after, runUntilIdle SeededRandom.nextIndex programPoll turns
    { clock := 0, strategy := 42, tasks := [{ rest := .sleep 5 .done }, { rest := .spawn (.sleep 3 .block) .done }],
      world := () } = .ok (some 1, after) ∧ after.clock = 5 :=
  programs_complete SeededRandom.lawful [.sleep 5 .done, .spawn (.sleep 3 .block) .done] 0 42 (by decide) (by decide)

end Duckspout
