import Duckspout.Fleet.Link
import Mathlib.Algebra.Order.Group.Nat

/-! The pump of a fault link (`duckspout-fleet/src/link.rs`): one direction of a connection, chunk by chunk, under a condition
    that may change at any time.

    Tasks run in parallel: a step is one look at what they share, or one thing that the pump does on its own. So a chunk may
    be written long after the condition was looked at, and is counted after it is written. Time is only what a pacing sleep
    asks for. -/

namespace Duckspout

/-! ### Pumps -/

/-- How far a pump has come. -/
inductive PumpPhase where
  | idle
  /-- In the read. -/
  | watching
  /-- A chunk is read, and the condition is to be looked at. -/
  | read (bytes : List UInt8)
  /-- In the pacing sleep. -/
  | pacing (bytes : List UInt8) (pace : ℕ)
  /-- In `write_all`, with what is left of a chunk of so many bytes; nothing where it is to be counted. -/
  | writing (left : List UInt8) (size : ℕ)
  | ended
  deriving DecidableEq, Repr

/-- One direction of a connection: the cut epoch it has seen, once it watches, and whether its `select!` has just found no
    cut. The last fields are a record: what it has read, written and counted, and whether its stream ended by itself. -/
structure Pump where
  phase : PumpPhase := .idle
  seen : ℕ := 0
  looked : Bool := false
  read : List UInt8 := []
  sent : List UInt8 := []
  counted : ℕ := 0
  endOfStream : Bool := false

inductive PumpEvent where
  | subscribe
  /-- The `select!` finds no cut, and turns to its other branch. -/
  | look
  /-- The other branch is not ready. -/
  | pend
  | cut
  | chunk (bytes : List UInt8)
  | endOfStream
  | readFailed
  /-- Looks at the condition in force. -/
  | check
  | slept (nanos : ℕ)
  /-- The socket takes some bytes. -/
  | wrote (bytes : ℕ)
  | writeFailed
  | count

/-- In a `select!` that looks at the cut first. -/
def PumpPhase.selects : PumpPhase → Bool
  | watching | pacing _ _ => true
  | _ => false

/-- What is read and not yet written. -/
def PumpPhase.inHand : PumpPhase → List UInt8
  | read bytes | pacing bytes _ => bytes
  | writing left _ => left
  | _ => []

/-- What of it the condition has let pass. -/
def PumpPhase.passed : PumpPhase → List UInt8
  | pacing bytes _ => bytes
  | writing left _ => left
  | _ => []

namespace Pump

/-- What is written, and what is on its way with its check behind it. -/
def through (pump : Pump) : List UInt8 := pump.sent ++ pump.phase.passed

def finish (pump : Pump) : Pump := { pump with phase := .ended }

/-- One step of a pump, and what it counts; nothing where the step is not possible. -/
def step (condition : LinkCondition) (cutEpoch : ℕ) (pump : Pump) : PumpEvent → Option (Pump × ℕ)
  | .subscribe => if pump.phase = .idle then some ({ pump with phase := .watching, seen := cutEpoch }, 0) else none
  | .look =>
    if pump.phase.selects ∧ pump.looked = false ∧ pump.seen = cutEpoch then some ({ pump with looked := true }, 0) else none
  | .pend => if pump.phase.selects ∧ pump.looked then some ({ pump with looked := false }, 0) else none
  | .cut => if pump.phase.selects ∧ pump.looked = false ∧ pump.seen ≠ cutEpoch then some (pump.finish, 0) else none
  | .chunk bytes =>
    if pump.phase = .watching ∧ pump.looked ∧ bytes ≠ [] ∧ bytes.length ≤ LinkCondition.chunk then
      some ({ pump with phase := .read bytes, looked := false, read := pump.read ++ bytes }, 0)
    else none
  | .endOfStream =>
    if pump.phase = .watching ∧ pump.looked then some ({ pump.finish with endOfStream := true }, 0) else none
  | .readFailed => if pump.phase = .watching ∧ pump.looked then some (pump.finish, 0) else none
  | .check =>
    match pump.phase with
    | .read bytes =>
      if condition = .drop then some (pump.finish, 0)
      else if condition.pace bytes.length = 0 then some ({ pump with phase := .writing bytes bytes.length }, 0)
      else some ({ pump with phase := .pacing bytes (condition.pace bytes.length) }, 0)
    | _ => none
  | .slept nanos =>
    match pump.phase with
    | .pacing bytes pace =>
      if pump.looked ∧ pace ≤ nanos then some ({ pump with phase := .writing bytes bytes.length, looked := false }, 0)
      else none
    | _ => none
  | .wrote bytes =>
    match pump.phase with
    | .writing left size =>
      if 0 < bytes ∧ bytes ≤ left.length then
        some ({ pump with phase := .writing (left.drop bytes) size, sent := pump.sent ++ left.take bytes }, 0)
      else none
    | _ => none
  | .writeFailed =>
    match pump.phase with
    | .writing left _ => if left = [] then none else some (pump.finish, 0)
    | _ => none
  | .count =>
    match pump.phase with
    | .writing left size =>
      if left = [] then some ({ pump with phase := .watching, looked := false, counted := pump.counted + size }, size)
      else none
    | _ => none

end Pump

/-! ### What a step does -/

/-- The effect of a step of a pump, with what it counts. -/
inductive Pump.Effect (condition : LinkCondition) (cutEpoch : ℕ) (pump : Pump) : Pump → ℕ → Prop
  | subscribed (hphase : pump.phase = .idle) : Effect condition cutEpoch pump { pump with phase := .watching, seen := cutEpoch } 0
  | looks (hphase : pump.phase.selects = true) (hseen : pump.seen = cutEpoch) :
      Effect condition cutEpoch pump { pump with looked := true } 0
  | pends : Effect condition cutEpoch pump { pump with looked := false } 0
  | ends (hphase : pump.phase ≠ .idle) : Effect condition cutEpoch pump pump.finish 0
  | endsStream (hphase : pump.phase = .watching) : Effect condition cutEpoch pump { pump.finish with endOfStream := true } 0
  | reads {bytes : List UInt8} (hphase : pump.phase = .watching) (hlooked : pump.looked = true)
      (hlength : bytes.length ≤ LinkCondition.chunk) :
      Effect condition cutEpoch pump { pump with phase := .read bytes, looked := false, read := pump.read ++ bytes } 0
  | passes {bytes : List UInt8} {next : PumpPhase} (hphase : pump.phase = .read bytes) (hpasses : condition ≠ .drop)
      (hnext : (∃ pace, next = .pacing bytes pace) ∨ next = .writing bytes bytes.length) :
      Effect condition cutEpoch pump { pump with phase := next } 0
  | slept {bytes : List UInt8} {pace : ℕ} (hphase : pump.phase = .pacing bytes pace) :
      Effect condition cutEpoch pump { pump with phase := .writing bytes bytes.length, looked := false } 0
  | wrote {left : List UInt8} {size n : ℕ} (hphase : pump.phase = .writing left size) (hn : n ≤ left.length) :
      Effect condition cutEpoch pump
        { pump with phase := .writing (left.drop n) size, sent := pump.sent ++ left.take n } 0
  | counts {size : ℕ} (hphase : pump.phase = .writing [] size) :
      Effect condition cutEpoch pump { pump with phase := .watching, looked := false, counted := pump.counted + size } size

theorem PumpPhase.ne_idle_of_selects {phase : PumpPhase} (h : phase.selects = true) : phase ≠ .idle := by
  rintro rfl
  cases h

theorem Pump.effect {condition : LinkCondition} {cutEpoch n : ℕ} {pump pump' : Pump} {event : PumpEvent}
    (hstep : pump.step condition cutEpoch event = some (pump', n)) : pump.Effect condition cutEpoch pump' n := by
  cases event with
  | subscribe =>
    simp only [step] at hstep
    split at hstep
    · cases hstep
      exact .subscribed ‹_›
    · cases hstep
  | look =>
    simp only [step] at hstep
    split at hstep
    · rename_i hcan
      cases hstep
      exact .looks hcan.1 hcan.2.2
    · cases hstep
  | pend =>
    simp only [step] at hstep
    split at hstep
    · cases hstep
      exact .pends
    · cases hstep
  | cut =>
    simp only [step] at hstep
    split at hstep
    · rename_i hcan
      cases hstep
      exact .ends (PumpPhase.ne_idle_of_selects hcan.1)
    · cases hstep
  | chunk bytes =>
    simp only [step] at hstep
    split at hstep
    · rename_i hcan
      cases hstep
      exact .reads hcan.1 hcan.2.1 hcan.2.2.2
    · cases hstep
  | endOfStream =>
    simp only [step] at hstep
    split at hstep
    · rename_i hcan
      cases hstep
      exact .endsStream hcan.1
    · cases hstep
  | readFailed =>
    simp only [step] at hstep
    split at hstep
    · rename_i hcan
      cases hstep
      exact .ends (by rw [hcan.1]; exact PumpPhase.noConfusion)
    · cases hstep
  | check =>
    simp only [step] at hstep
    split at hstep
    · rename_i hphase
      split at hstep
      · cases hstep
        exact .ends (by rw [hphase]; exact PumpPhase.noConfusion)
      · rename_i hpasses
        split at hstep
        · cases hstep
          exact .passes hphase hpasses (Or.inr rfl)
        · cases hstep
          exact .passes hphase hpasses (Or.inl ⟨_, rfl⟩)
    · cases hstep
  | slept nanos =>
    simp only [step] at hstep
    split at hstep
    · rename_i hphase
      split at hstep
      · cases hstep
        exact .slept hphase
      · cases hstep
    · cases hstep
  | wrote bytes =>
    simp only [step] at hstep
    split at hstep
    · rename_i hphase
      split at hstep
      · rename_i hcan
        cases hstep
        exact .wrote hphase hcan.2
      · cases hstep
    · cases hstep
  | writeFailed =>
    simp only [step] at hstep
    split at hstep
    · rename_i hphase
      split at hstep
      · cases hstep
      · cases hstep
        exact .ends (by rw [hphase]; exact PumpPhase.noConfusion)
    · cases hstep
  | count =>
    simp only [step] at hstep
    split at hstep
    · rename_i hphase
      split at hstep
      · rename_i hleft
        cases hstep
        exact .counts (hleft ▸ hphase)
      · cases hstep
    · cases hstep

/-! ### What a pump keeps -/

/-- How much of the chunk being written is written and not counted. -/
def PumpPhase.uncounted : PumpPhase → ℕ
  | writing left size => size - left.length
  | _ => 0

/-- A pump writes what it reads, in order, and has one chunk in hand at most; one whose stream ended by itself has written
    all of it; and what it has written and not counted is of the last chunk. -/
structure PumpOk (cutEpoch : ℕ) (pump : Pump) : Prop where
  read_eq : pump.phase ≠ .ended → pump.read = pump.sent ++ pump.phase.inHand
  sent_le : pump.sent <+: pump.read
  all_sent : pump.endOfStream = true → pump.phase = .ended ∧ pump.sent = pump.read
  seen_le : pump.seen ≤ cutEpoch
  inHand_le : pump.phase.inHand.length ≤ LinkCondition.chunk
  size_le : ∀ left size, pump.phase = .writing left size → left.length ≤ size ∧ size ≤ LinkCondition.chunk
  counted_eq : pump.phase ≠ .ended → pump.sent.length = pump.counted + pump.phase.uncounted
  counted_le : pump.counted ≤ pump.sent.length ∧ pump.sent.length ≤ pump.counted + LinkCondition.chunk

theorem PumpPhase.passed_prefix (phase : PumpPhase) : phase.passed <+: phase.inHand := by
  cases phase with
  | read bytes => exact List.nil_prefix
  | _ => exact List.prefix_rfl

namespace PumpOk

variable {cutEpoch n : ℕ} {condition : LinkCondition} {pump pump' : Pump}

theorem new (cutEpoch : ℕ) : PumpOk cutEpoch {} :=
  ⟨fun _ => rfl, List.prefix_rfl, (fun h => by cases h), Nat.zero_le _, Nat.zero_le _, (fun _ _ h => by cases h), fun _ => rfl,
    ⟨le_rfl, Nat.zero_le _⟩⟩

/-- A later epoch is as good. -/
theorem mono {later : ℕ} (h : PumpOk cutEpoch pump) (hle : cutEpoch ≤ later) : PumpOk later pump :=
  ⟨h.read_eq, h.sent_le, h.all_sent, h.seen_le.trans hle, h.inHand_le, h.size_le, h.counted_eq, h.counted_le⟩

/-- A pump that is not at its end has not met the end of its stream. -/
theorem endOfStream_eq (h : PumpOk cutEpoch pump) (hphase : pump.phase ≠ .ended) : pump.endOfStream ≠ true :=
  fun heof => hphase (h.all_sent heof).1

/-- A pump that watches has written what it has read. -/
theorem sent_eq (h : PumpOk cutEpoch pump) (hphase : pump.phase = .watching) : pump.read = pump.sent := by
  have hread := h.read_eq (by rw [hphase]; exact PumpPhase.noConfusion)
  simpa only [hphase, PumpPhase.inHand, List.append_nil] using hread

theorem finish (h : PumpOk cutEpoch pump) : PumpOk cutEpoch pump.finish :=
  ⟨fun hphase => absurd rfl hphase, h.sent_le, fun heof => ⟨rfl, (h.all_sent heof).2⟩, h.seen_le, Nat.zero_le _,
    (fun _ _ heq => by cases heq), fun hphase => absurd rfl hphase, h.counted_le⟩

/-- A pump goes on with the bytes it has in hand, which the socket does not have more of yet. -/
theorem turn (h : PumpOk cutEpoch pump) {phase : PumpPhase} (looked : Bool) (hend : pump.phase ≠ .ended)
    (hhand : phase.inHand = pump.phase.inHand) (huncounted : phase.uncounted = pump.phase.uncounted)
    (hsize : ∀ left size, phase = .writing left size → left.length ≤ size ∧ size ≤ LinkCondition.chunk) :
    PumpOk cutEpoch { pump with phase, looked } := by
  refine ⟨fun _ => ?_, h.sent_le, fun heof => absurd heof (h.endOfStream_eq hend), h.seen_le, ?_, hsize, fun _ => ?_,
    h.counted_le⟩
  · dsimp only
    rw [hhand]
    exact h.read_eq hend
  · dsimp only
    rw [hhand]
    exact h.inHand_le
  · dsimp only
    rw [huncounted]
    exact h.counted_eq hend

theorem step (h : PumpOk cutEpoch pump) (heffect : pump.Effect condition cutEpoch pump' n) :
    PumpOk cutEpoch pump' ∧ pump'.counted = pump.counted + n := by
  cases heffect with
  | subscribed hphase =>
    have hend : pump.phase ≠ .ended := by rw [hphase]; exact PumpPhase.noConfusion
    have hturn : PumpOk cutEpoch { pump with phase := .watching } :=
      h.turn pump.looked hend (by rw [hphase]; rfl) (by rw [hphase]; rfl) fun _ _ h => by cases h
    exact ⟨⟨hturn.read_eq, hturn.sent_le, hturn.all_sent, le_rfl, hturn.inHand_le, hturn.size_le, hturn.counted_eq,
      hturn.counted_le⟩, rfl⟩
  | looks hphase hseen =>
    exact ⟨⟨h.read_eq, h.sent_le, h.all_sent, h.seen_le, h.inHand_le, h.size_le, h.counted_eq, h.counted_le⟩, rfl⟩
  | pends =>
    exact ⟨⟨h.read_eq, h.sent_le, h.all_sent, h.seen_le, h.inHand_le, h.size_le, h.counted_eq, h.counted_le⟩, rfl⟩
  | ends hphase => exact ⟨h.finish, rfl⟩
  | endsStream hphase =>
    have hread := h.sent_eq hphase
    obtain ⟨hread', hsent, -, hseen, hhand, hsize, hcounted, hle⟩ := h.finish
    exact ⟨⟨hread', hsent, fun _ => ⟨rfl, hread.symm⟩, hseen, hhand, hsize, hcounted, hle⟩, rfl⟩
  | @reads bytes hphase hlooked hlength =>
    have hend : pump.phase ≠ .ended := by rw [hphase]; exact PumpPhase.noConfusion
    have hcounted := h.counted_eq hend
    rw [hphase] at hcounted
    exact ⟨⟨fun _ => congrArg (· ++ bytes) (h.sent_eq hphase), h.sent_le.trans (List.prefix_append _ _),
      fun heof => absurd heof (h.endOfStream_eq hend), h.seen_le, hlength, (fun _ _ h => by cases h), fun _ => hcounted,
      h.counted_le⟩, rfl⟩
  | @passes bytes next hphase hpasses hnext =>
    have hend : pump.phase ≠ .ended := by rw [hphase]; exact PumpPhase.noConfusion
    have hhand := h.inHand_le
    rw [hphase] at hhand
    refine ⟨h.turn pump.looked hend ?_ ?_ fun left size heq => ?_, rfl⟩
    · rw [hphase]
      rcases hnext with ⟨pace, rfl⟩ | rfl <;> rfl
    · rw [hphase]
      rcases hnext with ⟨pace, rfl⟩ | rfl
      · rfl
      · exact Nat.sub_self _
    · rcases hnext with ⟨pace, rfl⟩ | rfl
      · cases heq
      · cases heq
        exact ⟨le_rfl, hhand⟩
  | @slept bytes pace hphase =>
    have hend : pump.phase ≠ .ended := by rw [hphase]; exact PumpPhase.noConfusion
    have hhand := h.inHand_le
    rw [hphase] at hhand
    refine ⟨h.turn false hend (by rw [hphase]; rfl) (by rw [hphase]; exact Nat.sub_self _) fun left size heq => ?_, rfl⟩
    cases heq
    exact ⟨le_rfl, hhand⟩
  | @wrote left size n hphase hn =>
    have hend : pump.phase ≠ .ended := by rw [hphase]; exact PumpPhase.noConfusion
    have hread := h.read_eq hend
    have hcounted := h.counted_eq hend
    have hhand := h.inHand_le
    obtain ⟨hleft, hsize⟩ := h.size_le left size hphase
    rw [hphase] at hread hcounted hhand
    simp only [PumpPhase.inHand, PumpPhase.uncounted] at hread hcounted hhand
    have hall : pump.read = (pump.sent ++ left.take n) ++ left.drop n := by
      rw [List.append_assoc, List.take_append_drop]
      exact hread
    refine ⟨⟨fun _ => hall, ?_, fun heof => absurd heof (h.endOfStream_eq hend), h.seen_le, ?_, fun left' size' heq => ?_,
      fun _ => ?_, ?_⟩, rfl⟩
    · dsimp only
      rw [hall]
      exact List.prefix_append _ _
    · simp only [PumpPhase.inHand, List.length_drop]
      omega
    · cases heq
      rw [List.length_drop]
      omega
    · simp only [PumpPhase.uncounted, List.length_append, List.length_take, List.length_drop]
      omega
    · simp only [List.length_append, List.length_take]
      omega
  | counts hphase =>
    have hend : pump.phase ≠ .ended := by rw [hphase]; exact PumpPhase.noConfusion
    have hread := h.read_eq hend
    have hcounted := h.counted_eq hend
    rw [hphase] at hread hcounted
    simp only [PumpPhase.uncounted, List.length_nil, Nat.sub_zero] at hcounted
    exact ⟨⟨fun _ => hread, h.sent_le, fun heof => absurd heof (h.endOfStream_eq hend), h.seen_le, Nat.zero_le _,
      (fun _ _ h => by cases h), fun _ => hcounted, ⟨hcounted.ge, by dsimp only; omega⟩⟩, rfl⟩

end PumpOk

/-- What has its check behind it grows only under a condition that lets it pass. -/
theorem Pump.Effect.through {condition : LinkCondition} {cutEpoch n : ℕ} {pump pump' : Pump}
    (heffect : pump.Effect condition cutEpoch pump' n) : pump'.through <+: pump.through ∨ condition ≠ .drop := by
  simp only [Pump.through]
  cases heffect with
  | subscribed hphase => exact Or.inl (by rw [hphase]; exact List.prefix_rfl)
  | looks hphase hseen => exact Or.inl List.prefix_rfl
  | pends => exact Or.inl List.prefix_rfl
  | ends hphase => exact Or.inl (by simp [Pump.finish, PumpPhase.passed])
  | endsStream hphase => exact Or.inl (by simp [Pump.finish, PumpPhase.passed])
  | reads hphase hlooked hlength => exact Or.inl (by rw [hphase]; exact List.prefix_rfl)
  | passes hphase hpasses hnext => exact Or.inr hpasses
  | slept hphase => exact Or.inl (by rw [hphase]; exact List.prefix_rfl)
  | @wrote left size n hphase hn =>
    refine Or.inl ?_
    rw [hphase]
    simp only [PumpPhase.passed, List.append_assoc, List.take_append_drop]
    exact List.prefix_rfl
  | counts hphase => exact Or.inl (by rw [hphase]; exact List.prefix_rfl)

/-! ### A pump that is cut -/

namespace Pump

variable {cutEpoch n : ℕ} {condition : LinkCondition} {pump pump' : Pump}

/-- A pump that watched before the last cut was told. -/
def Cut (cutEpoch : ℕ) (pump : Pump) : Prop := pump.phase ≠ .idle ∧ pump.seen < cutEpoch

/-- How many bytes a cut pump may have written in the end: what it has, the chunk in hand, or one that it is about to read. -/
def reach (pump : Pump) : ℕ :=
  pump.sent.length + if pump.phase = .watching ∧ pump.looked then LinkCondition.chunk else pump.phase.inHand.length

theorem le_reach (pump : Pump) : pump.sent.length ≤ pump.reach := Nat.le_add_right _ _

theorem reach_le (hok : PumpOk cutEpoch pump) : pump.reach ≤ pump.sent.length + LinkCondition.chunk := by
  rw [reach]
  split
  · exact le_rfl
  · exact Nat.add_le_add_left hok.inHand_le _

/-- A cut pump goes on with what it has begun, and no further. -/
theorem Cut.step (h : pump.Cut cutEpoch) (heffect : pump.Effect condition cutEpoch pump' n) :
    pump'.Cut cutEpoch ∧ pump'.reach ≤ pump.reach := by
  cases heffect with
  | subscribed hphase => exact absurd hphase h.1
  | looks hphase hseen => exact absurd hseen h.2.ne
  | pends =>
    refine ⟨h, Nat.add_le_add_left ?_ _⟩
    split
    · rename_i hlooked
      cases hlooked.2
    · split
      · rename_i hlooked
        dsimp only
        rw [hlooked.1]
        exact Nat.zero_le _
      · exact le_rfl
  | ends hphase => exact ⟨⟨PumpPhase.noConfusion, h.2⟩, Nat.add_le_add_left (Nat.zero_le _) _⟩
  | endsStream hphase => exact ⟨⟨PumpPhase.noConfusion, h.2⟩, Nat.add_le_add_left (Nat.zero_le _) _⟩
  | reads hphase hlooked hlength =>
    refine ⟨⟨PumpPhase.noConfusion, h.2⟩, ?_⟩
    simpa [reach, hphase, hlooked, PumpPhase.inHand] using hlength
  | @passes bytes next hphase hpasses hnext =>
    have hnext' : next ≠ .idle ∧ next ≠ .watching ∧ next.inHand = bytes := by
      rcases hnext with ⟨pace, rfl⟩ | rfl
      · exact ⟨PumpPhase.noConfusion, PumpPhase.noConfusion, rfl⟩
      · exact ⟨PumpPhase.noConfusion, PumpPhase.noConfusion, rfl⟩
    refine ⟨⟨hnext'.1, h.2⟩, ?_⟩
    rw [reach, reach, if_neg fun hlooked => hnext'.2.1 hlooked.1, if_neg (by simp [hphase]), hnext'.2.2, hphase]
    exact le_rfl
  | slept hphase =>
    refine ⟨⟨PumpPhase.noConfusion, h.2⟩, ?_⟩
    simp [reach, hphase, PumpPhase.inHand]
  | @wrote left size n hphase hn =>
    refine ⟨⟨PumpPhase.noConfusion, h.2⟩, ?_⟩
    simp only [reach, hphase, PumpPhase.inHand, reduceCtorEq, false_and, if_false, List.length_append, List.length_take,
      List.length_drop]
    omega
  | counts hphase =>
    refine ⟨⟨PumpPhase.noConfusion, h.2⟩, ?_⟩
    simp [reach, hphase, PumpPhase.inHand]

end Pump

end Duckspout
