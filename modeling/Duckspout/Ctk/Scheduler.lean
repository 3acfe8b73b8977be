import Duckspout.Types
import Mathlib.Data.Finset.Max
import Mathlib.Data.List.Perm.Basic
import Mathlib.Logic.Relation

/-! The scheduler that the protocol tests run on (`duckspout-ctk/src/{scheduler,strategy,clock}.rs`): rounds that poll every
    task once, in the order a strategy picks, over a clock that moves when a round gets nothing done.

    What a poll of a task does is a parameter, over whatever state the tasks share. A task sees the clock and does not move
    it; `now + 1` traps at the last nanosecond. -/

namespace Duckspout

/-! ### Strategies -/

/-- `ScheduleStrategy::next_index`: which of the pending tasks comes next. -/
abbrev ScheduleStrategy (S : Type) := ℕ → S → ℕ × S

/-- The contract: the index is that of a pending task. -/
def ScheduleStrategy.Lawful {S : Type} (strategy : ScheduleStrategy S) : Prop :=
  ∀ pending s, 0 < pending → (strategy pending s).1 < pending

namespace SeededRandom

/-- `SplitMix64`: the number and the next state. -/
def nextRandom (state : UInt64) : UInt64 × UInt64 :=
  let state := state + 0x9e3779b97f4a7c15
  let z := (state ^^^ (state >>> 30)) * 0xbf58476d1ce4e5b9
  let z := (z ^^^ (z >>> 27)) * 0x94d049bb133111eb
  (z ^^^ (z >>> 31), state)

def nextIndex : ScheduleStrategy UInt64 := fun pending state =>
  let drawn := nextRandom state
  (drawn.1.toNat % pending, drawn.2)

theorem lawful : nextIndex.Lawful := fun _ _ hpending => Nat.mod_lt _ hpending

end SeededRandom

/-- `Vec::swap_remove`: the last element takes the place of the one removed. -/
def swapRemove {α : Type} (l : List α) (i : ℕ) : Option (α × List α) :=
  match l[i]?, l.getLast? with
  | some x, some last => some (x, (l.set i last).dropLast)
  | _, _ => none

theorem swapRemove_perm {α : Type} {l rest : List α} {i : ℕ} {x : α} (h : swapRemove l i = some (x, rest)) :
    l.Perm (x :: rest) := by
  rcases List.eq_nil_or_concat l with rfl | ⟨init, last, rfl⟩
  · simp [swapRemove] at h
  rw [List.concat_eq_append] at h ⊢
  simp only [swapRemove, List.getLast?_concat] at h
  rcases lt_trichotomy i init.length with hlt | rfl | hgt
  · rw [List.getElem?_append_left hlt, List.getElem?_eq_getElem hlt] at h
    simp only [Option.some.injEq, Prod.mk.injEq] at h
    obtain ⟨rfl, rfl⟩ := h
    rw [List.set_append_left _ _ hlt, List.dropLast_concat]
    have hset : (last :: init.eraseIdx i).Perm (init.set i last) := (List.set_perm_cons_eraseIdx hlt last).symm
    calc (init ++ [last]).Perm (last :: init) := List.perm_append_singleton last init
      List.Perm _ (last :: init[i] :: init.eraseIdx i) := (List.getElem_cons_eraseIdx_perm hlt).symm.cons last
      List.Perm _ (init[i] :: last :: init.eraseIdx i) := List.Perm.swap _ _ _
      List.Perm _ (init[i] :: init.set i last) := hset.cons _
  · simp only [List.getElem?_concat_length, Option.some.injEq, Prod.mk.injEq] at h
    obtain ⟨rfl, rfl⟩ := h
    rw [List.set_append_right _ _ le_rfl, Nat.sub_self, List.set_cons_zero, List.dropLast_concat]
    exact List.perm_append_singleton last init
  · rw [List.getElem?_eq_none (by simp; omega)] at h
    cases h

theorem swapRemove_isSome {α : Type} {l : List α} {i : ℕ} (h : i < l.length) : (swapRemove l i).isSome = true := by
  have hne : l ≠ [] := List.ne_nil_of_length_pos (by omega)
  rw [swapRemove, List.getElem?_eq_getElem h, List.getLast?_eq_some_getLast hne]
  rfl

/-! ### Rounds -/

/-- What one poll of a task does: what is left of the task, whether it woke itself, the tasks it spawned and the lengths of
    the sleeps it began. -/
structure Polled (T : Type) where
  next : Option T
  woke : Bool := false
  spawned : List T := []
  slept : List ℕ := []

/-- A poll sees the clock and works on the state that the tasks share. -/
abbrev Poll (T W : Type) := T → ℕ → W → Polled T × W

/-- `SeededScheduler::sleep`. -/
def sleepDeadline (clock nanos : ℕ) : ℕ := min (clock + nanos) u64Max

/-- A round under way: the tasks it spawned, those still pending and what it has got done. -/
structure PollRound (T W : Type) where
  world : W
  deadlines : Finset ℕ
  spawned : List T := []
  stillPending : List T := []
  progressed : Bool := false
  woke : Bool := false

section Scheduler

variable {T W S : Type}

def PollRound.poll (poll : Poll T W) (clock : ℕ) (round : PollRound T W) (task : T) : PollRound T W :=
  let polled := poll task clock round.world
  { world := polled.2
    deadlines := round.deadlines ∪ (polled.1.slept.map (sleepDeadline clock)).toFinset
    spawned := round.spawned ++ polled.1.spawned
    stillPending := round.stillPending ++ polled.1.next.toList
    progressed := round.progressed || polled.1.next.isNone
    woke := round.woke || polled.1.woke }

inductive SchedulerPanic where
  /-- The strategy broke its index contract. -/
  | strategyContract
  | clockOverflow
  deriving DecidableEq, Repr

/-- Polls the tasks of a round in the order the strategy picks. -/
def pollRound (strategy : ScheduleStrategy S) (poll : Poll T W) (clock : ℕ) :
    ℕ → List T → S → PollRound T W → Except SchedulerPanic (S × PollRound T W)
  | 0, _, s, round => .ok (s, round)
  | n + 1, tasks, s, round =>
    let picked := strategy tasks.length s
    match swapRemove tasks picked.1 with
    | none => .error .strategyContract
    | some (task, rest) => pollRound strategy poll clock n rest picked.2 (round.poll poll clock task)

/-- The scheduler. No statement reads the last field: it has the deadline of every sleep ever begun. -/
structure SeededScheduler (T W S : Type) where
  clock : ℕ
  strategy : S
  tasks : List T
  deadlines : Finset ℕ := ∅
  world : W
  begun : Finset ℕ := ∅

namespace SeededScheduler

/-- `spawn`. -/
def spawn (scheduler : SeededScheduler T W S) (task : T) : SeededScheduler T W S :=
  { scheduler with tasks := scheduler.tasks ++ [task] }

/-- `sleep`, called from outside a task. -/
def sleep (scheduler : SeededScheduler T W S) (nanos : ℕ) : SeededScheduler T W S :=
  { scheduler with
    deadlines := scheduler.deadlines ∪ {sleepDeadline scheduler.clock nanos}
    begun := scheduler.begun ∪ {sleepDeadline scheduler.clock nanos} }

/-- `VirtualClock::advance_to_nanos`. -/
def advanceTo (scheduler : SeededScheduler T W S) (deadline : ℕ) : SeededScheduler T W S :=
  { scheduler with clock := max scheduler.clock deadline }

def startRound (scheduler : SeededScheduler T W S) : PollRound T W :=
  { world := scheduler.world, deadlines := scheduler.deadlines }

/-- The scheduler after a round: the tasks that are left, and the deadlines that have not expired. -/
def endRound (scheduler : SeededScheduler T W S) (s : S) (round : PollRound T W) : SeededScheduler T W S :=
  { clock := scheduler.clock
    strategy := s
    tasks := round.spawned ++ round.stillPending
    deadlines := round.deadlines.filter (scheduler.clock + 1 ≤ ·)
    world := round.world
    begun := scheduler.begun ∪ round.deadlines }

variable (strategy : ScheduleStrategy S) (poll : Poll T W)

/-- One turn of the loop: a number where it returns, of the tasks that are stuck. -/
def turn (scheduler : SeededScheduler T W S) : Except SchedulerPanic (Option ℕ × SeededScheduler T W S) :=
  if scheduler.tasks = [] then .ok (some 0, scheduler)
  else
    match pollRound strategy poll scheduler.clock scheduler.tasks.length scheduler.tasks scheduler.strategy
        scheduler.startRound with
    | .error panic => .error panic
    | .ok (s, round) =>
      if u64Max < scheduler.clock + 1 then .error .clockOverflow
      else
        let next := scheduler.endRound s round
        if round.progressed || round.woke || !round.spawned.isEmpty then .ok (none, next)
        else
          match next.deadlines.min with
          | none => .ok (some next.tasks.length, next)
          | some deadline => .ok (none, next.advanceTo deadline)

/-- `run_until_idle`, given a number of turns; no number where they do not suffice. -/
def runUntilIdle : ℕ → SeededScheduler T W S → Except SchedulerPanic (Option ℕ × SeededScheduler T W S)
  | 0, scheduler => .ok (none, scheduler)
  | turns + 1, scheduler =>
    match turn strategy poll scheduler with
    | .error panic => .error panic
    | .ok (some stuck, after) => .ok (some stuck, after)
    | .ok (none, after) => runUntilIdle turns after

end SeededScheduler

/-! ### What a round does -/

variable {strategy : ScheduleStrategy S} {poll : Poll T W}

/-- A round polls every task once. -/
theorem pollRound_eq_ok {clock : ℕ} {tasks : List T} {s s' : S} {round round' : PollRound T W}
    (h : pollRound strategy poll clock tasks.length tasks s round = .ok (s', round')) :
    ∃ order : List T, order.Perm tasks ∧ round' = order.foldl (PollRound.poll poll clock) round := by
  generalize hn : tasks.length = n at h
  induction n generalizing tasks s round with
  | zero =>
    obtain rfl := List.length_eq_zero_iff.mp hn
    cases h
    exact ⟨[], .refl _, rfl⟩
  | succ n ih =>
    rw [pollRound] at h
    rcases hpicked : swapRemove tasks (strategy tasks.length s).1 with _ | ⟨task, rest⟩
    · rw [hpicked] at h
      cases h
    · simp only [hpicked] at h
      have hperm := swapRemove_perm hpicked
      have hlength : rest.length = n := by
        have := hperm.length_eq
        rw [List.length_cons] at this
        omega
      obtain ⟨order, horder, rfl⟩ := ih hlength h
      exact ⟨task :: order, (horder.cons task).trans hperm.symm, rfl⟩

/-- Under a strategy that keeps its contract a round does not panic. -/
theorem pollRound_lawful (poll : Poll T W) (hlawful : strategy.Lawful) (clock : ℕ) (tasks : List T) (s : S) (round : PollRound T W) :
    ∃ s' round', pollRound strategy poll clock tasks.length tasks s round = .ok (s', round') := by
  generalize hn : tasks.length = n
  induction n generalizing tasks s round with
  | zero => exact ⟨s, round, rfl⟩
  | succ n ih =>
    have hindex := hlawful tasks.length s (by omega)
    obtain ⟨⟨task, rest⟩, hpicked⟩ := Option.isSome_iff_exists.mp (swapRemove_isSome hindex)
    rw [pollRound, hpicked]
    refine ih rest _ _ ?_
    have := (swapRemove_perm hpicked).length_eq
    rw [List.length_cons] at this
    omega

namespace SeededScheduler

variable {scheduler after : SeededScheduler T W S}

/-- The round got something done. -/
def Progressed (round : PollRound T W) : Prop := (round.progressed || round.woke || !round.spawned.isEmpty) = true

/-- The round that polls the tasks in this order. -/
def roundIn (poll : Poll T W) (scheduler : SeededScheduler T W S) (order : List T) : PollRound T W :=
  order.foldl (PollRound.poll poll scheduler.clock) scheduler.startRound

/-- Everything a turn does under a strategy that keeps its contract. -/
inductive TurnEffect (poll : Poll T W) (scheduler : SeededScheduler T W S) :
    Except SchedulerPanic (Option ℕ × SeededScheduler T W S) → Prop
  | idle (htasks : scheduler.tasks = []) : TurnEffect poll scheduler (.ok (some 0, scheduler))
  | overflow (hclock : u64Max ≤ scheduler.clock) : TurnEffect poll scheduler (.error .clockOverflow)
  | again {order : List T} {s : S} (horder : order.Perm scheduler.tasks) (hprogress : Progressed (scheduler.roundIn poll order)) :
      TurnEffect poll scheduler (.ok (none, scheduler.endRound s (scheduler.roundIn poll order)))
  | stuck {order : List T} {s : S} (htasks : scheduler.tasks ≠ []) (horder : order.Perm scheduler.tasks)
      (hprogress : ¬Progressed (scheduler.roundIn poll order))
      (hdeadlines : (scheduler.endRound s (scheduler.roundIn poll order)).deadlines = ∅) :
      TurnEffect poll scheduler
        (.ok (some (scheduler.endRound s (scheduler.roundIn poll order)).tasks.length,
          scheduler.endRound s (scheduler.roundIn poll order)))
  | advance {order : List T} {s : S} {deadline : ℕ} (horder : order.Perm scheduler.tasks)
      (hprogress : ¬Progressed (scheduler.roundIn poll order)) (hlater : scheduler.clock < deadline)
      (hmem : deadline ∈ (scheduler.endRound s (scheduler.roundIn poll order)).deadlines)
      (hfirst : ∀ d ∈ (scheduler.endRound s (scheduler.roundIn poll order)).deadlines, deadline ≤ d) :
      TurnEffect poll scheduler
        (.ok (none, (scheduler.endRound s (scheduler.roundIn poll order)).advanceTo deadline))

theorem turn_effect (poll : Poll T W) (hlawful : strategy.Lawful) (scheduler : SeededScheduler T W S) :
    TurnEffect poll scheduler (turn strategy poll scheduler) := by
  rw [turn]
  split
  · exact .idle ‹_›
  · rename_i htasks
    obtain ⟨s, round, hround⟩ := pollRound_lawful poll hlawful scheduler.clock scheduler.tasks scheduler.strategy
      scheduler.startRound
    obtain ⟨order, horder, rfl⟩ := pollRound_eq_ok hround
    rw [hround]
    dsimp only
    split
    · exact .overflow (by omega)
    · split
      · exact .again horder ‹_›
      · rename_i hprogress
        rcases hmin : (scheduler.endRound s (order.foldl (PollRound.poll poll scheduler.clock) scheduler.startRound)).deadlines.min
          with _ | deadline
        · exact .stuck htasks horder hprogress (Finset.min_eq_top.mp hmin)
        · have hmem := Finset.mem_of_min hmin
          exact .advance horder hprogress (Finset.mem_filter.mp hmem).2 hmem fun d hd => Finset.min_le_of_eq hd hmin

/-! ### What every turn keeps -/

/-- Every sleep begun has expired or has its deadline registered. -/
def Kept (scheduler : SeededScheduler T W S) : Prop :=
  scheduler.deadlines ⊆ scheduler.begun ∧ ∀ d ∈ scheduler.begun, d ≤ scheduler.clock ∨ d ∈ scheduler.deadlines

theorem Kept.new (clock : ℕ) (s : S) (world : W) :
    Kept ({ clock, strategy := s, tasks := [], world } : SeededScheduler T W S) :=
  ⟨fun _ h => h, fun _ h => absurd h (Finset.notMem_empty _)⟩

theorem Kept.spawn (h : Kept scheduler) (task : T) : Kept (scheduler.spawn task) := h

theorem Kept.sleep (h : Kept scheduler) (nanos : ℕ) : Kept (scheduler.sleep nanos) := by
  refine ⟨Finset.union_subset_union_left h.1, fun d hd => ?_⟩
  rcases Finset.mem_union.mp hd with hold | hnew
  · exact (h.2 d hold).imp_right (Finset.mem_union_left _)
  · exact Or.inr (Finset.mem_union_right _ hnew)

theorem subset_foldl_poll (clock : ℕ) : ∀ (order : List T) (round : PollRound T W),
    round.deadlines ⊆ (order.foldl (PollRound.poll poll clock) round).deadlines
  | [], _ => fun _ h => h
  | task :: order, round => fun _ h =>
    subset_foldl_poll clock order (round.poll poll clock task) (Finset.mem_union_left _ h)

/-- A task that completes is progress. -/
theorem length_foldl_poll (clock : ℕ) : ∀ (order : List T) (round : PollRound T W),
    (order.foldl (PollRound.poll poll clock) round).progressed = false →
      round.progressed = false ∧
        (order.foldl (PollRound.poll poll clock) round).stillPending.length = round.stillPending.length + order.length
  | [], _ => fun h => ⟨h, rfl⟩
  | task :: order, round => by
    intro h
    obtain ⟨hpolled, hlength⟩ := length_foldl_poll clock order (round.poll poll clock task) h
    simp only [PollRound.poll, Bool.or_eq_false_iff, Option.isNone_eq_false_iff] at hpolled
    obtain ⟨left, hleft⟩ := Option.isSome_iff_exists.mp hpolled.2
    refine ⟨hpolled.1, ?_⟩
    rw [List.foldl_cons, hlength, PollRound.poll, hleft]
    simp only [Option.toList_some, List.length_append, List.length_cons, List.length_nil]
    omega

/-- Without progress every task is still pending. -/
theorem length_endRound {order : List T} (s : S) (horder : order.Perm scheduler.tasks)
    (hprogress : ¬Progressed (scheduler.roundIn poll order)) :
    (scheduler.endRound s (scheduler.roundIn poll order)).tasks.length = scheduler.tasks.length := by
  simp only [Progressed, Bool.or_eq_true, not_or, Bool.not_eq_true, Bool.not_eq_false', List.isEmpty_iff] at hprogress
  obtain ⟨⟨hpending, -⟩, hspawned⟩ := hprogress
  have hlength := (length_foldl_poll scheduler.clock order scheduler.startRound hpending).2
  rw [endRound, List.length_append, hspawned]
  rw [roundIn, hlength, horder.length_eq]
  simp [startRound]

theorem Kept.endRound (h : Kept scheduler) (s : S) (order : List T) :
    Kept (scheduler.endRound s (scheduler.roundIn poll order)) := by
  refine ⟨fun d hd => Finset.mem_union_right _ (Finset.mem_of_mem_filter d hd), fun d hd => ?_⟩
  by_cases hle : d ≤ scheduler.clock
  · exact Or.inl hle
  · refine Or.inr (Finset.mem_filter.mpr ⟨?_, by omega⟩)
    rcases Finset.mem_union.mp hd with hbegun | hround
    · exact subset_foldl_poll _ order _ ((h.2 d hbegun).resolve_left hle)
    · exact hround

theorem Kept.advanceTo (h : Kept scheduler) (deadline : ℕ) : Kept (scheduler.advanceTo deadline) :=
  ⟨h.1, fun d hd => (h.2 d hd).imp_left le_max_of_le_left⟩

/-- A turn after which the loop goes on. -/
def Goes (strategy : ScheduleStrategy S) (poll : Poll T W) (scheduler after : SeededScheduler T W S) : Prop :=
  turn strategy poll scheduler = .ok (none, after)

theorem Kept.goes (hlawful : strategy.Lawful) (h : Kept scheduler) (hgoes : Goes strategy poll scheduler after) :
    Kept after ∧ scheduler.clock ≤ after.clock := by
  have heffect := turn_effect poll hlawful scheduler
  rw [Goes] at hgoes
  rw [hgoes] at heffect
  cases heffect with
  | again horder hprogress => exact ⟨h.endRound _ _, le_rfl⟩
  | advance horder hprogress hlater hmem hfirst =>
    exact ⟨(h.endRound _ _).advanceTo _, le_max_left _ _⟩

theorem Kept.returned (hlawful : strategy.Lawful) (h : Kept scheduler) {stuck : ℕ}
    (hturn : turn strategy poll scheduler = .ok (some stuck, after)) : Kept after ∧ scheduler.clock ≤ after.clock := by
  have heffect := turn_effect poll hlawful scheduler
  rw [hturn] at heffect
  cases heffect with
  | idle htasks => exact ⟨h, le_rfl⟩
  | stuck htasks horder hprogress hdeadlines => exact ⟨h.endRound _ _, le_rfl⟩

/-- What happens to a scheduler: a turn of its loop, after which the loop goes on or returns, or a caller that spawns a
    task or begins a sleep. -/
inductive Happens (strategy : ScheduleStrategy S) (poll : Poll T W) (scheduler : SeededScheduler T W S) :
    SeededScheduler T W S → Prop
  | goes {after : SeededScheduler T W S} (hgoes : Goes strategy poll scheduler after) : Happens strategy poll scheduler after
  | returned {stuck : ℕ} {after : SeededScheduler T W S} (hturn : turn strategy poll scheduler = .ok (some stuck, after)) :
      Happens strategy poll scheduler after
  | spawned (task : T) : Happens strategy poll scheduler (scheduler.spawn task)
  | slept (nanos : ℕ) : Happens strategy poll scheduler (scheduler.sleep nanos)

theorem Kept.happens (hlawful : strategy.Lawful) (h : Kept scheduler) (hhappens : Happens strategy poll scheduler after) :
    Kept after ∧ scheduler.clock ≤ after.clock := by
  cases hhappens with
  | goes hgoes => exact h.goes hlawful hgoes
  | returned hturn => exact h.returned hlawful hturn
  | spawned task => exact ⟨h.spawn task, le_rfl⟩
  | slept nanos => exact ⟨h.sleep nanos, le_rfl⟩

theorem Kept.reached (hlawful : strategy.Lawful) {start : SeededScheduler T W S} (hkept : Kept start)
    (hreach : Relation.ReflTransGen (Happens strategy poll) start scheduler) :
    Kept scheduler ∧ start.clock ≤ scheduler.clock := by
  induction hreach with
  | refl => exact ⟨hkept, le_rfl⟩
  | tail _ hhappens ih =>
    obtain ⟨hkept, hclock⟩ := ih.1.happens hlawful hhappens
    exact ⟨hkept, ih.2.trans hclock⟩

/-- Whatever the tasks do, and in whatever order a strategy that keeps its contract has them polled: in every turn each
    task is polled once; the clock moves only after a round that got nothing done, and then to the first deadline ever begun
    that lies ahead; the loop returns only with no task left, or after a round that got nothing done, with every task left
    and no sleep ahead of the clock; and it panics only at the clock's last nanosecond. -/
theorem every_turn (hlawful : strategy.Lawful) {clock : ℕ} {seed : S} {world : W}
    (hreach : Relation.ReflTransGen (Happens strategy poll) { clock, strategy := seed, tasks := [], world } scheduler) :
    clock ≤ scheduler.clock ∧
      (∀ after, turn strategy poll scheduler = .ok (none, after) → ∃ order s, order.Perm scheduler.tasks ∧
        ((Progressed (scheduler.roundIn poll order) ∧ after = scheduler.endRound s (scheduler.roundIn poll order)) ∨
          (¬Progressed (scheduler.roundIn poll order) ∧
            after = (scheduler.endRound s (scheduler.roundIn poll order)).advanceTo after.clock ∧
            scheduler.clock < after.clock ∧ after.clock ∈ after.begun ∧
            ∀ d ∈ after.begun, scheduler.clock < d → after.clock ≤ d))) ∧
      (∀ stuck after, turn strategy poll scheduler = .ok (some stuck, after) →
        stuck = after.tasks.length ∧ stuck = scheduler.tasks.length ∧ after.clock = scheduler.clock ∧
          (stuck = 0 → after = scheduler) ∧
          (0 < stuck → (∀ d ∈ after.begun, d ≤ after.clock) ∧ ∃ order s, order.Perm scheduler.tasks ∧
            ¬Progressed (scheduler.roundIn poll order) ∧
            after = scheduler.endRound s (scheduler.roundIn poll order))) ∧
      ∀ panic, turn strategy poll scheduler = .error panic → panic = .clockOverflow ∧ u64Max ≤ scheduler.clock := by
  obtain ⟨hkept, hclock⟩ := (Kept.new clock seed world).reached hlawful hreach
  have heffect := turn_effect poll hlawful scheduler
  refine ⟨hclock, fun after hturn => ?_, fun stuck after hturn => ?_, fun panic hturn => ?_⟩
  · rw [hturn] at heffect
    cases heffect with
    | @again order s horder hprogress => exact ⟨order, s, horder, Or.inl ⟨hprogress, rfl⟩⟩
    | @advance order s deadline horder hprogress hlater hmem hfirst =>
      have hdeadline : ((scheduler.endRound s (scheduler.roundIn poll order)).advanceTo deadline).clock = deadline :=
        max_eq_right hlater.le
      obtain ⟨hsubset, hregistered⟩ : Kept (scheduler.endRound s (scheduler.roundIn poll order)) := hkept.endRound s order
      refine ⟨order, s, horder, Or.inr ⟨hprogress, ?_, ?_, ?_, fun d hd hahead => ?_⟩⟩
      · simp [advanceTo, endRound]
      · exact lt_max_of_lt_right hlater
      · rw [hdeadline]
        exact hsubset hmem
      · rw [hdeadline]
        exact hfirst d ((hregistered d hd).resolve_left hahead.not_ge)
  · rw [hturn] at heffect
    cases heffect with
    | idle htasks =>
      exact ⟨by simp [htasks], by simp [htasks], rfl, fun _ => rfl, fun h => absurd h (lt_irrefl 0)⟩
    | @stuck order s htasks horder hprogress hdeadlines =>
      have hlength := length_endRound s horder hprogress
      refine ⟨rfl, hlength, rfl, fun hnone => ?_, fun _ => ⟨fun d hd => ?_, order, s, horder, hprogress, rfl⟩⟩
      · exact absurd (List.length_eq_zero_iff.mp (hlength.symm.trans hnone)) htasks
      · refine ((hkept.endRound s order).2 d hd).resolve_right fun hmem => ?_
        rw [hdeadlines] at hmem
        exact Finset.notMem_empty d hmem
  · rw [hturn] at heffect
    cases heffect with
    | overflow hlast => exact ⟨rfl, hlast⟩

/-- A task that sleeps once, and is done when it is polled again. -/
def nap : Poll (Option ℕ) Unit := fun task _ world =>
  match task with
  | some nanos => ({ next := some none, slept := [nanos] }, world)
  | none => ({ next := none }, world)

/-- A nap is spawned while a caller's sleep is under way. -/
theorem every_turn_nap : ∃ result, turn SeededRandom.nextIndex nap
    (spawn (sleep { clock := 0, strategy := 42, tasks := [], world := () } 3) (some 5)) = .ok result := by
  obtain ⟨-, -, -, hpanics⟩ := every_turn SeededRandom.lawful
    ((Relation.ReflTransGen.single (Happens.slept 3)).tail (Happens.spawned (some 5)))
  rcases hturn : turn SeededRandom.nextIndex nap
      (spawn (sleep { clock := 0, strategy := 42, tasks := [], world := () } 3) (some 5)) with panic | result
  · have hlast := (hpanics panic hturn).2
    simp [spawn, sleep, u64Max] at hlast
  · exact ⟨result, rfl⟩

end SeededScheduler

end Scheduler

end Duckspout
