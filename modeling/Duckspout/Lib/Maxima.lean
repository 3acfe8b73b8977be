import Mathlib.Data.List.Sort
import Mathlib.Order.Bounds.Basic
import Mathlib.Order.Lattice
import Mathlib.Order.MinMax
import Mathlib.Order.Defs.LinearOrder

/-! Greatest values: the greatest of a list above a floor, the running greatest of keyed values, and what a prefix of
    them, cut at a key, has reached.

    A greatest value is known by what bounds it: `highest_le_iff` is the whole specification. -/

namespace Maxima

variable {α β : Type} [LinearOrder α]

/-- The greatest of the values, and of the floor below them. -/
def highest (floor : α) (values : List α) : α := values.foldl max floor

theorem highest_le_iff {floor b : α} {values : List α} : highest floor values ≤ b ↔ floor ≤ b ∧ ∀ v ∈ values, v ≤ b := by
  induction values generalizing floor with
  | nil => simp [highest]
  | cons v values ih =>
    rw [highest, List.foldl_cons, ← highest, ih]
    simp [and_assoc]

theorem highest_isGreatest (floor : α) (values : List α) : IsGreatest {v | v = floor ∨ v ∈ values} (highest floor values) := by
  refine ⟨?_, ?_⟩
  · induction values generalizing floor with
    | nil => exact .inl rfl
    | cons v values ih =>
      rcases ih (max floor v) with h | h
      · rcases max_choice floor v with hmax | hmax
        · exact .inl (h.trans hmax)
        · exact .inr (List.mem_cons.mpr (.inl (h.trans hmax)))
      · exact .inr (List.mem_cons_of_mem v h)
  · obtain ⟨hfloor, hall⟩ := highest_le_iff.mp (le_refl (highest floor values))
    rintro v (rfl | hv)
    · exact hfloor
    · exact hall v hv

/-- Values that agree up to order and repetition reach the same height. -/
theorem highest_congr {floor : α} {values values' : List α} (h : ∀ v, v ∈ values ↔ v ∈ values') :
    highest floor values = highest floor values' := by
  refine eq_of_forall_ge_iff fun b => ?_
  simp [highest_le_iff, h]

/-- The greatest of some values, if there is any, reaches the height of the values. -/
theorem getD_max?_le_iff {floor b : α} {values : List α} (hfloor : ∀ v ∈ values, floor ≤ v) :
    values.max?.getD floor ≤ b ↔ floor ≤ b ∧ ∀ v ∈ values, v ≤ b := by
  cases values with
  | nil => simp
  | cons w values =>
    rw [List.max?_cons', Option.getD_some, ← highest, highest_le_iff, List.forall_mem_cons]
    exact (and_iff_right_of_imp fun h => (hfloor w List.mem_cons_self).trans h.1).symm

/-! ### Running greatest values -/

/-- Each value replaced by the greatest so far. -/
def running (floor : α) : List (β × α) → List (β × α)
  | [] => []
  | (key, v) :: rest => (key, max floor v) :: running (max floor v) rest

variable {floor : α}

theorem getElem?_running (l : List (β × α)) (n : ℕ) :
    (running floor l)[n]? = l[n]?.map fun x => (x.1, highest floor ((l.take (n + 1)).map (·.2))) := by
  induction l generalizing floor n with
  | nil => simp [running]
  | cons x l ih =>
    cases n with
    | zero => simp [running, highest]
    | succ n => simp [running, highest, ih]

theorem getLast?_running (l : List (β × α)) :
    (running floor l).getLast? = l.getLast?.map fun x => (x.1, highest floor (l.map (·.2))) := by
  induction l generalizing floor with
  | nil => rfl
  | cons x l ih =>
    rcases l with _ | ⟨y, l⟩
    · simp [running, highest]
    · rw [running, List.getLast?_cons, ih, List.getLast?_cons_cons]
      rcases hlast : (y :: l).getLast? with _ | z
      · simp at hlast
      · simp [highest]

/-! ### Prefixes -/

/-- How many elements come before the first one that fails the test. -/
def partitionPoint (test : β → Bool) (l : List β) : ℕ := (l.takeWhile test).length

theorem partitionPoint_running (test : β → Bool) (l : List (β × α)) :
    partitionPoint (fun x => test x.1) (running floor l) = partitionPoint (fun x => test x.1) l := by
  induction l generalizing floor with
  | nil => rfl
  | cons x l ih =>
    simp only [partitionPoint] at ih ⊢
    by_cases hx : test x.1
    · simp [running, hx, ih]
    · simp [running, hx]

theorem take_partitionPoint (test : β → Bool) (l : List β) : l.take (partitionPoint test l) = l.takeWhile test := by
  induction l with
  | nil => rfl
  | cons x l ih =>
    simp only [partitionPoint] at ih ⊢
    by_cases hx : test x
    · simp [hx, ih]
    · simp [hx]

omit [LinearOrder α] in
/-- In order of their keys, the elements before a key are those that come first. -/
theorem takeWhile_eq_filter {κ : Type} [LinearOrder κ] {l : List (κ × α)} (h : l.Pairwise (·.1 ≤ ·.1)) (k : κ) :
    l.takeWhile (·.1 < k) = l.filter (·.1 < k) := by
  induction l with
  | nil => rfl
  | cons x l ih =>
    rw [List.pairwise_cons] at h
    by_cases hx : x.1 < k
    · simp [hx, ih h.2]
    · have hrest : ∀ y ∈ l, ¬ y.1 < k := fun y hy hlt => hx ((h.1 y hy).trans_lt hlt)
      simpa [hx] using hrest

end Maxima
