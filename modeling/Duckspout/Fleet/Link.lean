import Duckspout.Types
import Mathlib.Logic.Relation

/-! Fault links (`duckspout-fleet/src/link.rs`): a proxy between a client and its upstream, whose conditions are held by the
    fault windows that cover it.

    A link is in force under the most restrictive of the conditions held on it, and cuts its connections when it becomes
    dropped. Paces are in nanoseconds. -/

namespace Duckspout

/-! ### Conditions -/

inductive LinkCondition where
  | pass
  | drop
  | delay (ms : ℕ)
  | bandwidthCap (bytesPerSec : ℕ)
  deriving DecidableEq, Repr

namespace LinkCondition

/-- What a pump reads at most at a time. -/
def chunk : ℕ := 16 * 1024

/-- How long a chunk of so many bytes is held. A cap of zero does not pace. -/
def pace : LinkCondition → ℕ → ℕ
  | pass, _ | drop, _ => 0
  | delay ms, _ => ms * 1_000_000
  | bandwidthCap bytesPerSec, bytes =>
    if bytesPerSec = 0 then 0 else min (min bytes u64Max * 1_000_000_000 / bytesPerSec) u64Max

/-- The condition in force where two are held: the one that holds a full chunk longer. -/
def mostRestrictive (a b : LinkCondition) : LinkCondition :=
  if a = drop ∨ b = drop then drop
  else if a.pace chunk < b.pace chunk then b
  else a

end LinkCondition

inductive Direction where
  | clientToServer
  | serverToClient
  deriving DecidableEq, Repr

/-- The conditions of both directions. -/
structure LinkConditions where
  clientToServer : LinkCondition
  serverToClient : LinkCondition
  deriving DecidableEq, Repr

namespace LinkConditions

def pass : LinkConditions := ⟨.pass, .pass⟩

def dropped : LinkConditions := ⟨.drop, .drop⟩

def of (conditions : LinkConditions) : Direction → LinkCondition
  | .clientToServer => conditions.clientToServer
  | .serverToClient => conditions.serverToClient

def eitherDropped (conditions : LinkConditions) : Bool :=
  conditions.clientToServer = .drop || conditions.serverToClient = .drop

def mostRestrictive (a b : LinkConditions) : LinkConditions :=
  ⟨a.clientToServer.mostRestrictive b.clientToServer, a.serverToClient.mostRestrictive b.serverToClient⟩

end LinkConditions

/-- The conditions held on a link, by hold. -/
structure HoldTable where
  nextId : ℕ := 0
  active : OrdMap ℕ LinkConditions := ∅

namespace HoldTable

def effective (table : HoldTable) : LinkConditions :=
  (table.active.toList.map (·.2)).foldl LinkConditions.mostRestrictive .pass

def hold (table : HoldTable) (conditions : LinkConditions) : HoldTable :=
  { nextId := table.nextId + 1, active := table.active.insert table.nextId conditions }

def release (table : HoldTable) (id : ℕ) : HoldTable := { table with active := table.active.erase id }

/-- The hold is outstanding. -/
def Holds (table : HoldTable) (id : ℕ) (conditions : LinkConditions) : Prop := table.active[id]? = some conditions

end HoldTable

/-! ### The most restrictive of several -/

namespace LinkCondition

theorem mostRestrictive_eq_drop {a b : LinkCondition} : a.mostRestrictive b = drop ↔ a = drop ∨ b = drop := by
  rw [mostRestrictive]
  split
  · exact iff_of_true rfl ‹_›
  · rename_i hneither
    refine iff_of_false ?_ hneither
    split
    · exact fun h => hneither (Or.inr h)
    · exact fun h => hneither (Or.inl h)

theorem foldl_eq_drop {l : List LinkCondition} {a : LinkCondition} :
    l.foldl mostRestrictive a = drop ↔ a = drop ∨ drop ∈ l := by
  induction l generalizing a with
  | nil => simp
  | cons b l ih => rw [List.foldl_cons, ih, mostRestrictive_eq_drop, List.mem_cons, or_assoc, eq_comm (a := drop)]

/-- Of conditions that do not drop, one that holds a full chunk longest. -/
theorem foldl_spec {l : List LinkCondition} {a : LinkCondition} (h : l.foldl mostRestrictive a ≠ drop) :
    (l.foldl mostRestrictive a ∈ a :: l) ∧ ∀ c ∈ a :: l, c.pace chunk ≤ (l.foldl mostRestrictive a).pace chunk := by
  induction l generalizing a with
  | nil => simp
  | cons b l ih =>
    rw [List.foldl_cons] at h ⊢
    obtain ⟨hmem, hmax⟩ := ih h
    have hneither : ¬(a = drop ∨ b = drop) := by
      intro heither
      exact h (foldl_eq_drop.mpr (Or.inl (mostRestrictive_eq_drop.mpr heither)))
    have hpair : a.mostRestrictive b = (if a.pace chunk < b.pace chunk then b else a) := by
      rw [mostRestrictive, if_neg hneither]
    have htop := hmax _ List.mem_cons_self
    rw [hpair] at hmem hmax htop
    split at hmem
    · rename_i hlt
      rw [if_pos hlt] at hmax htop
      rw [hpair, if_pos hlt]
      refine ⟨List.mem_cons_of_mem _ hmem, fun c hc => ?_⟩
      rcases List.mem_cons.mp hc with rfl | hc
      · exact hlt.le.trans htop
      · exact hmax c hc
    · rename_i hge
      rw [if_neg hge] at hmax htop
      rw [hpair, if_neg hge]
      refine ⟨?_, fun c hc => ?_⟩
      · rcases List.mem_cons.mp hmem with heq | hmem
        · rw [heq]
          exact List.mem_cons_self
        · exact List.mem_cons_of_mem _ (List.mem_cons_of_mem _ hmem)
      · rcases List.mem_cons.mp hc with rfl | hc
        · exact htop
        · rcases List.mem_cons.mp hc with rfl | hc
          · exact (not_lt.mp hge).trans htop
          · exact hmax c (List.mem_cons_of_mem _ hc)

end LinkCondition

namespace LinkConditions

theorem of_mostRestrictive (a b : LinkConditions) (direction : Direction) :
    (a.mostRestrictive b).of direction = (a.of direction).mostRestrictive (b.of direction) := by
  cases direction <;> rfl

theorem of_foldl (l : List LinkConditions) (a : LinkConditions) (direction : Direction) :
    (l.foldl mostRestrictive a).of direction = (l.map (·.of direction)).foldl LinkCondition.mostRestrictive (a.of direction) := by
  induction l generalizing a with
  | nil => rfl
  | cons b l ih => rw [List.foldl_cons, ih, of_mostRestrictive, List.map_cons, List.foldl_cons]

theorem eitherDropped_iff {conditions : LinkConditions} :
    conditions.eitherDropped = true ↔ ∃ direction, conditions.of direction = .drop := by
  simp only [eitherDropped, Bool.or_eq_true, decide_eq_true_eq]
  constructor
  · rintro (h | h)
    · exact ⟨.clientToServer, h⟩
    · exact ⟨.serverToClient, h⟩
  · rintro ⟨direction | direction, h⟩
    · exact Or.inl h
    · exact Or.inr h

end LinkConditions

namespace HoldTable

variable {table : HoldTable} {direction : Direction}

theorem mem_conditions {conditions : LinkConditions} : conditions ∈ table.active.toList.map (·.2) ↔
    ∃ id, table.Holds id conditions := by
  constructor
  · intro h
    obtain ⟨⟨id, _⟩, hmem, rfl⟩ := List.mem_map.mp h
    exact ⟨id, OrdMap.mem_toList.mp hmem⟩
  · rintro ⟨id, h⟩
    exact List.mem_map.mpr ⟨(id, conditions), OrdMap.mem_toList.mpr h, rfl⟩

/-- A direction is dropped where some hold drops it. -/
theorem effective_eq_drop : table.effective.of direction = .drop ↔
    ∃ id conditions, table.Holds id conditions ∧ conditions.of direction = .drop := by
  have hpass : LinkConditions.pass.of direction ≠ .drop := by cases direction <;> simp [LinkConditions.of, LinkConditions.pass]
  rw [effective, LinkConditions.of_foldl, LinkCondition.foldl_eq_drop, or_iff_right hpass, List.mem_map]
  simp only [mem_conditions]
  exact ⟨fun ⟨c, ⟨id, h⟩, hc⟩ => ⟨id, c, h, hc⟩, fun ⟨id, c, h, hc⟩ => ⟨c, ⟨id, h⟩, hc⟩⟩

/-- Where no hold drops a direction, it passes or is under one of the holds, and a full chunk is held at least as long as
    each hold asks. -/
theorem effective_spec (h : table.effective.of direction ≠ .drop) :
    (table.effective.of direction = .pass ∨
      ∃ id conditions, table.Holds id conditions ∧ conditions.of direction = table.effective.of direction) ∧
    ∀ id conditions, table.Holds id conditions →
      (conditions.of direction).pace LinkCondition.chunk ≤ (table.effective.of direction).pace LinkCondition.chunk := by
  have hpass : LinkConditions.pass.of direction = .pass := by cases direction <;> rfl
  rw [effective, LinkConditions.of_foldl, hpass] at h ⊢
  obtain ⟨hmem, hmax⟩ := LinkCondition.foldl_spec h
  refine ⟨?_, fun id conditions hid => ?_⟩
  · rcases List.mem_cons.mp hmem with heq | hmem
    · exact Or.inl heq
    · obtain ⟨conditions, hconditions, heq⟩ := List.mem_map.mp hmem
      obtain ⟨id, hid⟩ := mem_conditions.mp hconditions
      exact Or.inr ⟨id, conditions, hid, heq⟩
  · exact hmax _ (List.mem_cons_of_mem _ (List.mem_map_of_mem (mem_conditions.mpr ⟨id, hid⟩)))

theorem eitherDropped_iff : table.effective.eitherDropped = true ↔
    ∃ id conditions, table.Holds id conditions ∧ conditions.eitherDropped = true := by
  rw [LinkConditions.eitherDropped_iff]
  simp only [effective_eq_drop, LinkConditions.eitherDropped_iff]
  exact ⟨fun ⟨d, id, c, h, hc⟩ => ⟨id, c, h, d, hc⟩, fun ⟨id, c, h, d, hc⟩ => ⟨d, id, c, h, hc⟩⟩

theorem holds_hold {held conditions : LinkConditions} {id : ℕ} : (table.hold held).Holds id conditions ↔
    table.nextId = id ∧ held = conditions ∨ table.nextId ≠ id ∧ table.Holds id conditions := by
  rw [Holds, hold, OrdMap.get_insert]
  split
  · simp [*]
  · simp [*, Holds]

theorem holds_release {released id : ℕ} {conditions : LinkConditions} :
    (table.release released).Holds id conditions ↔ released ≠ id ∧ table.Holds id conditions := by
  rw [Holds, release, Std.ExtTreeMap.getElem?_erase]
  simp only [compare_eq_iff_eq]
  split
  · simp [*]
  · simp [*, Holds]

end HoldTable

end Duckspout
