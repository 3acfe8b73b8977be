import Duckspout.Fleet.Pump
import Mathlib.Algebra.BigOperators.Intervals
import Mathlib.Logic.Function.Basic

/-! The proxy of a fault link (`duckspout-fleet/src/link.rs`): connections with a pump in each direction, under conditions that
    fault windows hold and release at any time.

    A hold has changed the conditions before its cut is told, and the accept loop has counted a connection before it looks at
    them. -/

namespace Duckspout

/-! ### The link -/

/-- An accepted connection: its task is spawned, dials the upstream, pumps in both directions, and has ended. -/
inductive Connection where
  | spawned
  | dialing (epochAtStart : ℕ)
  | pumping (epochAtStart : ℕ) (pumps : Direction → Pump)
  | ended (pumps : Direction → Pump)

/-- The pumps of a connection. -/
def Connection.pumps : Connection → Direction → Pump
  | spawned | dialing _ => fun _ => {}
  | pumping _ pumps | ended pumps => pumps

/-- The accept loop: it listens, has counted a connection, or has found the link dropped. -/
inductive AcceptPhase where
  | listening
  | counted
  | refusing
  deriving DecidableEq, Repr

structure FaultLink where
  table : HoldTable := {}
  /-- The holds that have dropped the link and have yet to tell the cut. -/
  cutting : Finset ℕ := ∅
  cutEpoch : ℕ := 0
  accepting : AcceptPhase := .listening
  nextConn : ℕ := 0
  conns : ℕ → Option Connection := fun _ => none
  connsAccepted : ℕ := 0
  connsRefused : ℕ := 0
  connsCut : ℕ := 0
  bytes : Direction → ℕ := fun _ => 0

inductive LinkEvent where
  | hold (conditions : LinkConditions)
  /-- The hold tells the cut, and returns. -/
  | cut (id : ℕ)
  | release (id : ℕ)
  | accept
  | decide
  | refuse
  | start (conn : ℕ)
  | dialed (conn : ℕ)
  | dialFailed (conn : ℕ)
  | pump (conn : ℕ) (direction : Direction) (event : PumpEvent)
  | joined (conn : ℕ)

namespace FaultLink

def conditions (link : FaultLink) : LinkConditions := link.table.effective

def dropped (link : FaultLink) : Bool := link.conditions.eitherDropped

def setConn (link : FaultLink) (conn : ℕ) (connection : Connection) : FaultLink :=
  { link with conns := Function.update link.conns conn (some connection) }

/-- `FaultLink::hold`, to where it gives the table back: a link that becomes dropped owes its connections a cut. -/
def hold (link : FaultLink) (conditions : LinkConditions) : FaultLink :=
  let table := link.table.hold conditions
  { link with
    table
    cutting := if table.effective.eitherDropped && !link.dropped then insert link.table.nextId link.cutting
      else link.cutting }

/-- One step of the link; nothing where the step is not possible. -/
def step (link : FaultLink) : LinkEvent → Option FaultLink
  | .hold conditions => some (link.hold conditions)
  | .cut id =>
    if id ∈ link.cutting then some { link with cutting := link.cutting.erase id, cutEpoch := link.cutEpoch + 1 } else none
  | .release id =>
    -- the hold is given out only once the cut is told
    if (link.table.active[id]?).isSome ∧ id ∉ link.cutting then some { link with table := link.table.release id } else none
  | .accept =>
    if link.accepting = .listening then some { link with accepting := .counted, connsAccepted := link.connsAccepted + 1 }
    else none
  | .decide =>
    if link.accepting = .counted then
      if link.dropped then some { link with accepting := .refusing }
      else some { link.setConn link.nextConn .spawned with accepting := .listening, nextConn := link.nextConn + 1 }
    else none
  | .refuse =>
    if link.accepting = .refusing then some { link with accepting := .listening, connsRefused := link.connsRefused + 1 }
    else none
  | .start conn =>
    match link.conns conn with
    | some .spawned => some (link.setConn conn (.dialing link.cutEpoch))
    | _ => none
  | .dialed conn =>
    match link.conns conn with
    | some (.dialing epoch) => some (link.setConn conn (.pumping epoch fun _ => {}))
    | _ => none
  | .dialFailed conn =>
    match link.conns conn with
    | some (.dialing _) => some (link.setConn conn (.ended fun _ => {}))
    | _ => none
  | .pump conn direction event =>
    match link.conns conn with
    | some (.pumping epoch pumps) =>
      ((pumps direction).step (link.conditions.of direction) link.cutEpoch event).map fun (pump, count) =>
        { link.setConn conn (.pumping epoch (Function.update pumps direction pump)) with
          bytes := Function.update link.bytes direction (link.bytes direction + count) }
    | _ => none
  | .joined conn =>
    match link.conns conn with
    | some (.pumping epoch pumps) =>
      if (pumps .clientToServer).phase = .ended ∧ (pumps .serverToClient).phase = .ended then
        some { link.setConn conn (.ended pumps) with
          connsCut := if link.cutEpoch = epoch then link.connsCut else link.connsCut + 1 }
      else none
    | _ => none

/-- A run of the link; nothing where one of its steps is not possible. -/
def run (link : FaultLink) (events : List LinkEvent) : Option FaultLink := events.foldlM step link

end FaultLink

/-! ### What a step does -/

/-- The effect of a step: a hold, a cut told, a release, a step of the accept loop, or one connection that moves on, whose
    pumps stay as they are but for one that takes a step. -/
inductive FaultLink.Effect (link : FaultLink) : LinkEvent → FaultLink → Prop
  | hold (conditions : LinkConditions) : Effect link (.hold conditions) (link.hold conditions)
  | cut (id : ℕ) (hcutting : id ∈ link.cutting) :
      Effect link (.cut id) { link with cutting := link.cutting.erase id, cutEpoch := link.cutEpoch + 1 }
  | release (id : ℕ) (htold : id ∉ link.cutting) : Effect link (.release id) { link with table := link.table.release id }
  | counted (hphase : link.accepting = .listening) :
      Effect link .accept { link with accepting := .counted, connsAccepted := link.connsAccepted + 1 }
  | refusing (hphase : link.accepting = .counted) : Effect link .decide { link with accepting := .refusing }
  | refused (hphase : link.accepting = .refusing) :
      Effect link .refuse { link with accepting := .listening, connsRefused := link.connsRefused + 1 }
  | accepted (hphase : link.accepting = .counted) (hopen : link.dropped = false) : Effect link .decide
      { link.setConn link.nextConn .spawned with accepting := .listening, nextConn := link.nextConn + 1 }
  | moved {event : LinkEvent} {conn : ℕ} {old : Connection} (new : Connection) (count : Direction → ℕ) (cuts : ℕ)
      (hconn : link.conns conn = some old)
      (hmoves : ∀ direction, new.pumps direction = old.pumps direction ∧ count direction = 0 ∨
        (old.pumps direction).Effect (link.conditions.of direction) link.cutEpoch (new.pumps direction) (count direction)) :
      Effect link event { link.setConn conn new with
        bytes := fun direction => link.bytes direction + count direction, connsCut := cuts }

theorem FaultLink.effect {link link' : FaultLink} {event : LinkEvent} (hstep : link.step event = some link') :
    link.Effect event link' := by
  cases event with
  | hold conditions =>
    rw [← Option.some.inj hstep]
    exact .hold conditions
  | cut id =>
    simp only [step] at hstep
    split at hstep
    · rw [← Option.some.inj hstep]
      exact .cut id ‹_›
    · cases hstep
  | release id =>
    simp only [step] at hstep
    split at hstep
    · rename_i hcan
      rw [← Option.some.inj hstep]
      exact .release id hcan.2
    · cases hstep
  | accept =>
    simp only [step] at hstep
    split at hstep
    · rw [← Option.some.inj hstep]
      exact .counted ‹_›
    · cases hstep
  | decide =>
    simp only [step] at hstep
    split at hstep
    · rename_i hphase
      split at hstep
      · rw [← Option.some.inj hstep]
        exact .refusing hphase
      · rename_i hopen
        rw [← Option.some.inj hstep]
        exact .accepted hphase (Bool.not_eq_true _ ▸ hopen)
    · cases hstep
  | refuse =>
    simp only [step] at hstep
    split at hstep
    · rw [← Option.some.inj hstep]
      exact .refused ‹_›
    · cases hstep
  | start conn =>
    simp only [step] at hstep
    split at hstep
    · rename_i hconn
      rw [← Option.some.inj hstep]
      exact .moved (.dialing link.cutEpoch) (fun _ => 0) link.connsCut hconn fun _ => Or.inl ⟨rfl, rfl⟩
    · cases hstep
  | dialed conn =>
    simp only [step] at hstep
    split at hstep
    · rename_i epoch hconn
      rw [← Option.some.inj hstep]
      exact .moved (.pumping epoch fun _ => {}) (fun _ => 0) link.connsCut hconn fun _ => Or.inl ⟨rfl, rfl⟩
    · cases hstep
  | dialFailed conn =>
    simp only [step] at hstep
    split at hstep
    · rename_i epoch hconn
      rw [← Option.some.inj hstep]
      exact .moved (.ended fun _ => {}) (fun _ => 0) link.connsCut hconn fun _ => Or.inl ⟨rfl, rfl⟩
    · cases hstep
  | pump conn direction event =>
    simp only [step] at hstep
    split at hstep
    · rename_i epoch pumps hconn
      obtain ⟨⟨pump, count⟩, hpump, rfl⟩ := Option.map_eq_some_iff.mp hstep
      have hbytes : Function.update link.bytes direction (link.bytes direction + count) =
          fun d => link.bytes d + if d = direction then count else 0 := by
        funext d
        by_cases heq : d = direction <;> simp [heq]
      rw [hbytes]
      refine .moved (.pumping epoch (Function.update pumps direction pump)) _ link.connsCut hconn fun d => ?_
      by_cases heq : d = direction
      · subst heq
        refine Or.inr ?_
        simpa [Connection.pumps] using Pump.effect hpump
      · exact Or.inl ⟨Function.update_of_ne heq _ _, if_neg heq⟩
    · cases hstep
  | joined conn =>
    simp only [step] at hstep
    split at hstep
    · rename_i epoch pumps hconn
      split at hstep
      · rw [← Option.some.inj hstep]
        exact .moved (.ended pumps) (fun _ => 0) _ hconn fun _ => Or.inl ⟨rfl, rfl⟩
      · cases hstep
    · cases hstep

/-! ### What a link keeps -/

namespace FaultLink

/-- The bytes a connection has counted in a direction. -/
def countedBy (link : FaultLink) (direction : Direction) (conn : ℕ) : ℕ :=
  (link.conns conn).elim 0 fun connection => (connection.pumps direction).counted

/-- The connection that the accept loop has counted and not decided on. -/
def undecided (link : FaultLink) : ℕ := if link.accepting = .listening then 0 else 1

end FaultLink

structure LinkOk (link : FaultLink) : Prop where
  pumps : ∀ conn connection, link.conns conn = some connection → ∀ direction, PumpOk link.cutEpoch (connection.pumps direction)
  conn_lt : ∀ conn connection, link.conns conn = some connection → conn < link.nextConn
  accepted_eq : link.connsAccepted = link.connsRefused + link.nextConn + link.undecided
  bytes_eq : ∀ direction, link.bytes direction = ∑ conn ∈ Finset.range link.nextConn, link.countedBy direction conn
  id_lt : ∀ id conditions, link.table.Holds id conditions → id < link.table.nextId

namespace LinkOk

variable {link link' : FaultLink} {conn : ℕ}

theorem new : LinkOk {} :=
  ⟨(fun _ _ h => by cases h), (fun _ _ h => by cases h), rfl, fun _ => rfl, fun _ _ h => by simp [HoldTable.Holds] at h⟩

/-- A step that moves one connection on, with the bytes it counts. -/
theorem setConn (h : LinkOk link) {old : Connection} (hold : link.conns conn = some old) (new : Connection)
    (hpumps : ∀ direction, PumpOk link.cutEpoch (new.pumps direction)) (count : Direction → ℕ)
    (hcount : ∀ direction, (new.pumps direction).counted = (old.pumps direction).counted + count direction) (cuts : ℕ) :
    LinkOk { link.setConn conn new with
      bytes := fun direction => link.bytes direction + count direction, connsCut := cuts } := by
  have hlt := h.conn_lt conn old hold
  refine ⟨fun c connection hc => ?_, fun c connection hc => ?_, h.accepted_eq, fun direction => ?_, h.id_lt⟩
  · by_cases heq : c = conn
    · subst heq
      obtain rfl : new = connection := by simpa [FaultLink.setConn] using hc
      exact hpumps
    · exact h.pumps c connection (by simpa [FaultLink.setConn, Function.update_of_ne heq] using hc)
  · by_cases heq : c = conn
    · exact heq ▸ hlt
    · exact h.conn_lt c connection (by simpa [FaultLink.setConn, Function.update_of_ne heq] using hc)
  · have hcounted : ∀ c, FaultLink.countedBy { link.setConn conn new with
        bytes := fun direction => link.bytes direction + count direction, connsCut := cuts } direction c =
        link.countedBy direction c + if c = conn then count direction else 0 := by
      intro c
      by_cases heq : c = conn
      · subst heq
        simp [FaultLink.countedBy, FaultLink.setConn, hold, hcount]
      · simp [FaultLink.countedBy, FaultLink.setConn, heq]
    simp only [hcounted, Finset.sum_add_distrib, Finset.sum_ite_eq', Finset.mem_range]
    rw [h.bytes_eq direction]
    exact congrArg _ (if_pos hlt).symm

theorem hold (h : LinkOk link) (conditions : LinkConditions) : LinkOk (link.hold conditions) := by
  refine ⟨h.pumps, h.conn_lt, h.accepted_eq, h.bytes_eq, fun id held hheld => ?_⟩
  rcases HoldTable.holds_hold.mp hheld with ⟨rfl, -⟩ | ⟨-, hheld⟩
  · exact Nat.lt_succ_self _
  · exact Nat.lt_succ_of_lt (h.id_lt id held hheld)

/-- The cut is told. -/
theorem cut (h : LinkOk link) (cutting : Finset ℕ) : LinkOk { link with cutting, cutEpoch := link.cutEpoch + 1 } :=
  ⟨fun c connection hc direction => (h.pumps c connection hc direction).mono (Nat.le_succ _), h.conn_lt, h.accepted_eq,
    h.bytes_eq, h.id_lt⟩

theorem release (h : LinkOk link) (id : ℕ) : LinkOk { link with table := link.table.release id } :=
  ⟨h.pumps, h.conn_lt, h.accepted_eq, h.bytes_eq,
    fun held conditions hheld => h.id_lt held conditions (HoldTable.holds_release.mp hheld).2⟩

theorem accept (h : LinkOk link) (hphase : link.accepting = .counted) :
    LinkOk { link.setConn link.nextConn .spawned with accepting := .listening, nextConn := link.nextConn + 1 } := by
  have haccepted := h.accepted_eq
  refine ⟨fun c connection hc direction => ?_, fun c connection hc => ?_, ?_, fun direction => ?_, h.id_lt⟩
  · by_cases heq : c = link.nextConn
    · subst heq
      obtain rfl : Connection.spawned = connection := by simpa [FaultLink.setConn] using hc
      exact .new _
    · exact h.pumps c connection (by simpa [FaultLink.setConn, Function.update_of_ne heq] using hc) direction
  · by_cases heq : c = link.nextConn
    · subst heq
      exact Nat.lt_succ_self _
    · exact Nat.lt_succ_of_lt (h.conn_lt c connection (by simpa [FaultLink.setConn, Function.update_of_ne heq] using hc))
  · rw [FaultLink.undecided, hphase] at haccepted
    simp only [FaultLink.setConn, FaultLink.undecided]
    simpa [Nat.add_assoc] using haccepted
  · have hold : ∀ c ∈ Finset.range link.nextConn, link.countedBy direction c = FaultLink.countedBy { link.setConn link.nextConn
        .spawned with accepting := .listening, nextConn := link.nextConn + 1 } direction c := by
      intro c hc
      have hne : c ≠ link.nextConn := (Finset.mem_range.mp hc).ne
      simp [FaultLink.countedBy, FaultLink.setConn, Function.update_of_ne hne]
    have hlast : FaultLink.countedBy { link.setConn link.nextConn .spawned with
        accepting := .listening, nextConn := link.nextConn + 1 } direction link.nextConn = 0 := by
      simp [FaultLink.countedBy, FaultLink.setConn, Connection.pumps]
    rw [Finset.sum_range_succ, hlast, Nat.add_zero, ← Finset.sum_congr rfl hold]
    exact h.bytes_eq direction

theorem step (h : LinkOk link) {event : LinkEvent} (hstep : link.step event = some link') : LinkOk link' := by
  have haccepted := h.accepted_eq
  obtain conditions | ⟨id, -⟩ | ⟨id, -⟩ | hphase | hphase | hphase | ⟨hphase, -⟩ | ⟨new, count, cuts, hconn, hmoves⟩ :=
    FaultLink.effect hstep
  · exact h.hold conditions
  · exact h.cut _
  · exact h.release id
  · rw [FaultLink.undecided, hphase] at haccepted
    exact ⟨h.pumps, h.conn_lt, by simp [FaultLink.undecided, haccepted], h.bytes_eq, h.id_lt⟩
  · rw [FaultLink.undecided, hphase] at haccepted
    exact ⟨h.pumps, h.conn_lt, by simp [FaultLink.undecided, haccepted], h.bytes_eq, h.id_lt⟩
  · rw [FaultLink.undecided, hphase] at haccepted
    exact ⟨h.pumps, h.conn_lt, by simp [FaultLink.undecided, haccepted]; omega, h.bytes_eq, h.id_lt⟩
  · exact h.accept hphase
  · rename_i conn old
    have hmoved : ∀ direction, PumpOk link.cutEpoch (new.pumps direction) ∧
        (new.pumps direction).counted = (old.pumps direction).counted + count direction := by
      intro direction
      rcases hmoves direction with ⟨hpumps, hcount⟩ | heffect
      · rw [hpumps, hcount]
        exact ⟨h.pumps conn old hconn direction, rfl⟩
      · exact (h.pumps conn old hconn direction).step heffect
    exact h.setConn hconn new (fun direction => (hmoved direction).1) count (fun direction => (hmoved direction).2) cuts

theorem run (h : LinkOk link) {events : List LinkEvent} (hrun : link.run events = some link') : LinkOk link' := by
  induction events generalizing link with
  | nil => exact Option.some.inj hrun ▸ h
  | cons event events ih =>
    obtain ⟨next, hstep, hrest⟩ := Option.bind_eq_some_iff.mp hrun
    exact ih (h.step hstep) hrest

end LinkOk

/-- What a step of the link does to a connection that was there: its pumps stay, or take a step under the condition in
    force. -/
theorem FaultLink.Effect.conn {link link' : FaultLink} {event : LinkEvent} (heffect : link.Effect event link')
    (hlt : ∀ conn connection, link.conns conn = some connection → conn < link.nextConn) {conn : ℕ} {connection : Connection}
    (hconn : link.conns conn = some connection) : ∃ connection', link'.conns conn = some connection' ∧ ∀ direction,
      connection'.pumps direction = connection.pumps direction ∨ link'.cutEpoch = link.cutEpoch ∧
        ∃ n, (connection.pumps direction).Effect (link.conditions.of direction) link.cutEpoch (connection'.pumps direction) n := by
  obtain conditions | ⟨id, -⟩ | ⟨id, -⟩ | hphase | hphase | hphase | ⟨hphase, -⟩ | ⟨new, count, cuts, hold, hmoves⟩ := heffect
  · exact ⟨connection, hconn, fun _ => Or.inl rfl⟩
  · exact ⟨connection, hconn, fun _ => Or.inl rfl⟩
  · exact ⟨connection, hconn, fun _ => Or.inl rfl⟩
  · exact ⟨connection, hconn, fun _ => Or.inl rfl⟩
  · exact ⟨connection, hconn, fun _ => Or.inl rfl⟩
  · exact ⟨connection, hconn, fun _ => Or.inl rfl⟩
  · have hne : conn ≠ link.nextConn := (hlt conn connection hconn).ne
    exact ⟨connection, by simpa [FaultLink.setConn, Function.update_of_ne hne] using hconn, fun _ => Or.inl rfl⟩
  · rename_i moving old
    by_cases heq : conn = moving
    · subst heq
      obtain rfl : old = connection := Option.some.inj (hold.symm.trans hconn)
      refine ⟨new, by simp [FaultLink.setConn], fun direction => ?_⟩
      rcases hmoves direction with ⟨hpumps, -⟩ | hpump
      · exact Or.inl hpumps
      · exact Or.inr ⟨rfl, _, hpump⟩
    · exact ⟨connection, by simpa [FaultLink.setConn, Function.update_of_ne heq] using hconn, fun _ => Or.inl rfl⟩

/-- A connection is accepted and dialed; it reads a chunk of two bytes, and has written one of them. -/
def echoing : List LinkEvent :=
  [.accept, .decide, .start 0, .dialed 0, .pump 0 .clientToServer .subscribe, .pump 0 .clientToServer .look,
    .pump 0 .clientToServer (.chunk [1, 2]), .pump 0 .clientToServer .check, .pump 0 .clientToServer (.wrote 1)]

namespace FaultLink

variable {link link' : FaultLink} {event : LinkEvent} {id : ℕ} {conditions : LinkConditions} {direction : Direction}

theorem cutEpoch_le (heffect : link.Effect event link') : link.cutEpoch ≤ link'.cutEpoch := by
  cases heffect with
  | cut id hcutting => exact Nat.le_succ _
  | _ => exact le_rfl

/-- Whatever comes after a cut, the connections it found have one more chunk at most. -/
theorem cut_run {events : List LinkEvent} (hok : LinkOk link) (hrun : link.run events = some link') {conn : ℕ}
    {connection : Connection} (hconn : link.conns conn = some connection) : ∃ connection', link'.conns conn = some connection' ∧
      ∀ direction, (connection.pumps direction).Cut link.cutEpoch →
        (connection'.pumps direction).reach ≤ (connection.pumps direction).reach := by
  induction events generalizing link connection with
  | nil =>
    obtain rfl : link = link' := Option.some.inj hrun
    exact ⟨connection, hconn, fun _ _ => le_rfl⟩
  | cons event events ih =>
    obtain ⟨next, hstep, hrest⟩ := Option.bind_eq_some_iff.mp hrun
    obtain ⟨moved, hmoved, hpumps⟩ := (effect hstep).conn hok.conn_lt hconn
    obtain ⟨last, hlast, hreach⟩ := ih (hok.step hstep) hrest hmoved
    refine ⟨last, hlast, fun direction hcut => ?_⟩
    have hle := cutEpoch_le (effect hstep)
    rcases hpumps direction with hsame | ⟨hepoch, n, hpump⟩
    · have hnext : (moved.pumps direction).Cut next.cutEpoch := by
        rw [hsame]
        exact ⟨hcut.1, hcut.2.trans_le hle⟩
      exact hsame ▸ hreach direction hnext
    · obtain ⟨hcut', hstep'⟩ := hcut.step hpump
      exact (hreach direction (by rw [hepoch]; exact hcut')).trans hstep'

/-- The hold of a window that drops a direction is outstanding. -/
structure Partitioned (link : FaultLink) (id : ℕ) (conditions : LinkConditions) (direction : Direction) : Prop where
  holds : link.table.Holds id conditions
  drops : conditions.of direction = .drop

theorem Partitioned.dropped (h : link.Partitioned id conditions direction) :
    link.dropped = true ∧ link.conditions.of direction = .drop :=
  ⟨HoldTable.eitherDropped_iff.mpr ⟨id, conditions, h.holds, LinkConditions.eitherDropped_iff.mpr ⟨direction, h.drops⟩⟩,
    HoldTable.effective_eq_drop.mpr ⟨id, conditions, h.holds, h.drops⟩⟩

/-- Until the hold is released the window is in force: no connection is accepted, and nothing gets past a check. -/
theorem Partitioned.step (h : link.Partitioned id conditions direction) (hok : LinkOk link) (hne : event ≠ .release id)
    (hstep : link.step event = some link') :
    link'.Partitioned id conditions direction ∧ link'.nextConn = link.nextConn ∧
      ∀ conn connection, link.conns conn = some connection → ∃ connection', link'.conns conn = some connection' ∧
        (connection'.pumps direction).through <+: (connection.pumps direction).through := by
  obtain ⟨hdropped, hdrop⟩ := h.dropped
  have heffect := effect hstep
  have hthrough : ∀ conn connection, link.conns conn = some connection → ∃ connection', link'.conns conn = some connection' ∧
      (connection'.pumps direction).through <+: (connection.pumps direction).through := by
    intro conn connection hconn
    obtain ⟨connection', hconn', hpumps⟩ := heffect.conn hok.conn_lt hconn
    refine ⟨connection', hconn', ?_⟩
    rcases hpumps direction with hsame | ⟨-, n, hpump⟩
    · rw [hsame]
    · exact hpump.through.resolve_right fun hpasses => hpasses hdrop
  refine ⟨⟨?_, h.drops⟩, ?_, hthrough⟩
  · obtain held | - | ⟨released, -⟩ | - | - | - | - | - := heffect
    · have hlt := hok.id_lt id conditions h.holds
      exact HoldTable.holds_hold.mpr (Or.inr ⟨by omega, h.holds⟩)
    · exact h.holds
    · exact HoldTable.holds_release.mpr ⟨fun heq => hne (by rw [heq]), h.holds⟩
    all_goals exact h.holds
  · obtain - | - | - | - | - | - | ⟨-, hopen⟩ | - := heffect
    case accepted =>
      rw [hdropped] at hopen
      cases hopen
    all_goals rfl

theorem Partitioned.run (h : link.Partitioned id conditions direction) (hok : LinkOk link) {events : List LinkEvent}
    (hheld : .release id ∉ events) (hrun : link.run events = some link') :
    link'.Partitioned id conditions direction ∧ link'.nextConn = link.nextConn ∧
      ∀ conn connection, link.conns conn = some connection → ∃ connection', link'.conns conn = some connection' ∧
        (connection'.pumps direction).through <+: (connection.pumps direction).through := by
  induction events generalizing link with
  | nil =>
    obtain rfl : link = link' := Option.some.inj hrun
    exact ⟨h, rfl, fun conn connection hconn => ⟨connection, hconn, List.prefix_rfl⟩⟩
  | cons event events ih =>
    obtain ⟨next, hstep, hrest⟩ := Option.bind_eq_some_iff.mp hrun
    obtain ⟨hne, hheld⟩ := not_or.mp (mt List.mem_cons.mpr hheld)
    obtain ⟨hnext, hconns, hthrough⟩ := h.step hok (Ne.symm hne) hstep
    obtain ⟨hlast, hconns', hthrough'⟩ := ih hnext (hok.step hstep) hheld hrest
    refine ⟨hlast, hconns'.trans hconns, fun conn connection hconn => ?_⟩
    obtain ⟨moved, hmoved, hle⟩ := hthrough conn connection hconn
    obtain ⟨last, hlast, hle'⟩ := hthrough' conn moved hmoved
    exact ⟨last, hlast, hle'.trans hle⟩

/-- A window that drops a direction of an open link is in force until its own hold is released, whatever other windows hold
    and release meanwhile: no connection is accepted, and of each connection at most the chunk that had its check behind it
    when the window began is still written in that direction. Its hold tells a cut before it can be released, and from
    there on a connection that was watched writes one chunk more at most in either direction, whatever comes. -/
theorem partition_holds {before : List LinkEvent} (hbefore : FaultLink.run {} before = some link) (hopen : link.dropped = false)
    (hdrop : conditions.of direction = .drop) :
    (∀ (during : List LinkEvent) (link' : FaultLink), .release link.table.nextId ∉ during →
      (link.hold conditions).run during = some link' →
      link'.dropped = true ∧ link'.conditions.of direction = .drop ∧ link'.nextConn = link.nextConn ∧
        ∀ conn connection, link.conns conn = some connection →
          (connection.pumps direction).phase.passed.length ≤ LinkCondition.chunk ∧
          ∃ connection', link'.conns conn = some connection' ∧ (connection'.pumps direction).sent <+:
            (connection.pumps direction).sent ++ (connection.pumps direction).phase.passed) ∧
    link.table.nextId ∈ (link.hold conditions).cutting ∧
    (∀ (held : FaultLink), link.table.nextId ∈ held.cutting → held.step (.release link.table.nextId) = none) ∧
    ∀ (during after : List LinkEvent) (held told link' : FaultLink), (link.hold conditions).run during = some held →
      held.step (.cut link.table.nextId) = some told → told.run after = some link' →
      ∀ conn connection, held.conns conn = some connection → ∃ connection', link'.conns conn = some connection' ∧
        ∀ other, (connection.pumps other).phase ≠ .idle →
          (connection'.pumps other).sent.length ≤ (connection.pumps other).sent.length + LinkCondition.chunk := by
  have hok := LinkOk.new.run hbefore
  have hholds : (link.table.hold conditions).Holds link.table.nextId conditions :=
    HoldTable.holds_hold.mpr (Or.inl ⟨rfl, rfl⟩)
  have hpartitioned : (link.hold conditions).Partitioned link.table.nextId conditions direction := ⟨hholds, hdrop⟩
  refine ⟨fun during link' hheld hduring => ?_, ?_, fun held hcutting => ?_,
    fun during after held told link' hduring htold hafter conn connection hconn => ?_⟩
  · obtain ⟨hlast, hconns, hthrough⟩ := hpartitioned.run (hok.hold conditions) hheld hduring
    refine ⟨hlast.dropped.1, hlast.dropped.2, hconns, fun conn connection hconn => ?_⟩
    have hpump := hok.pumps conn connection hconn direction
    obtain ⟨connection', hconn', hle⟩ := hthrough conn connection hconn
    exact ⟨(connection.pumps direction).phase.passed_prefix.length_le.trans hpump.inHand_le, connection', hconn',
      (List.prefix_append _ _).trans hle⟩
  · have hdropped : (link.table.hold conditions).effective.eitherDropped = true := hpartitioned.dropped.1
    simp [hold, hopen, hdropped]
  · simp [FaultLink.step, hcutting]
  · have hheldOk := (hok.hold conditions).run hduring
    have htoldOk := hheldOk.step htold
    simp only [FaultLink.step] at htold
    split at htold
    · obtain rfl := Option.some.inj htold
      obtain ⟨connection', hconn', hreach⟩ := cut_run htoldOk hafter hconn
      refine ⟨connection', hconn', fun other hphase => ?_⟩
      have hpump := hheldOk.pumps conn connection hconn other
      calc (connection'.pumps other).sent.length ≤ (connection'.pumps other).reach := Pump.le_reach _
        _ ≤ (connection.pumps other).reach := hreach other ⟨hphase, Nat.lt_succ_of_le hpump.seen_le⟩
        _ ≤ (connection.pumps other).sent.length + LinkCondition.chunk := Pump.reach_le hpump
    · cases htold

/-- A flap within an outage that finds a chunk half written: the rest of it crosses and is counted, the connection is cut,
    and the next one is refused, though the flap is released. -/
def flapped : List LinkEvent :=
  [.pump 0 .clientToServer (.wrote 1), .cut 0, .pump 0 .clientToServer .count, .pump 0 .clientToServer .cut, .hold .dropped,
    .release 1, .accept, .decide, .refuse]

theorem partition_holds_flapped : ∃ link link', FaultLink.run {} echoing = some link ∧
    (link.hold .dropped).run flapped = some link' ∧ link'.bytes .clientToServer = 2 ∧ link'.dropped = true ∧
      link'.nextConn = link.nextConn := by
  have hbefore : (FaultLink.run {} echoing).map (fun link => (link.dropped, link.table.nextId)) = some (false, 0) := by
    decide +kernel
  have hafter : ((FaultLink.run {} echoing).bind fun link => (link.hold .dropped).run flapped).map
      (·.bytes .clientToServer) = some 2 := by
    decide +kernel
  obtain ⟨link, hlink, hstart⟩ := Option.map_eq_some_iff.mp hbefore
  obtain ⟨link', hlink', hbytes⟩ := Option.map_eq_some_iff.mp hafter
  obtain ⟨hopen, hid⟩ := Prod.mk.inj hstart
  rw [hlink, Option.bind_some] at hlink'
  have hheld : .release link.table.nextId ∉ flapped := by simp [flapped, hid]
  have hdrop : LinkConditions.dropped.of .clientToServer = .drop := rfl
  obtain ⟨hdropped, -, hconns, -⟩ := (partition_holds hlink hopen hdrop).1 flapped link' hheld hlink'
  exact ⟨link, link', hlink, hlink', hbytes, hdropped, hconns⟩

end FaultLink

end Duckspout
