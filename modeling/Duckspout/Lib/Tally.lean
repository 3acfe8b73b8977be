import Mathlib.Algebra.BigOperators.Group.List.Basic
import Mathlib.Algebra.BigOperators.Group.Multiset.Basic
import Mathlib.Data.Finmap

/-! Amounts by key: lists that collect them, and the total of an amount over the values of a finite map. -/

namespace Tally

variable {K V A : Type} [AddCommMonoid A]

/-- All amounts together. -/
def sum (l : List (K × A)) : A := (l.map (·.2)).sum

@[simp] theorem sum_nil : sum ([] : List (K × A)) = 0 := rfl

theorem sum_cons (x : K × A) (l : List (K × A)) : sum (x :: l) = x.2 + sum l := by
  simp [sum]

variable [DecidableEq K]

/-- The amount of a key. -/
def amount (k : K) (l : List (K × A)) : A := ((l.filter (·.1 = k)).map (·.2)).sum

@[simp] theorem amount_nil (k : K) : amount k ([] : List (K × A)) = 0 := rfl

theorem amount_cons (k : K) (x : K × A) (l : List (K × A)) :
    amount k (x :: l) = (if x.1 = k then x.2 else 0) + amount k l := by
  simp only [amount]
  by_cases h : x.1 = k
  · simp [h]
  · simp [h]

/-- Adds to the amount of a key, which starts at zero. -/
def add (k : K) (a : A) : List (K × A) → List (K × A)
  | [] => [(k, a)]
  | (b, c) :: l => if b = k then (b, c + a) :: l else (b, c) :: add k a l

theorem amount_add (k b : K) (a : A) (l : List (K × A)) :
    amount b (add k a l) = amount b l + if k = b then a else 0 := by
  induction l with
  | nil => rw [add, amount_cons, amount_nil, add_zero, zero_add]
  | cons x l ih =>
    obtain ⟨c, v⟩ := x
    rw [add]
    by_cases hc : c = k
    · subst hc
      rw [if_pos rfl, amount_cons, amount_cons]
      by_cases hb : c = b
      · simp only [if_pos hb]
        rw [add_assoc, add_comm a, ← add_assoc]
      · simp only [if_neg hb, zero_add, add_zero]
    · rw [if_neg hc, amount_cons, amount_cons, ih, add_assoc]

theorem sum_add (k : K) (a : A) (l : List (K × A)) : sum (add k a l) = sum l + a := by
  induction l with
  | nil => simp [add, sum]
  | cons x l ih =>
    obtain ⟨c, v⟩ := x
    rw [add]
    split_ifs
    · rw [sum_cons, sum_cons, add_assoc, add_comm a, ← add_assoc]
    · rw [sum_cons, sum_cons, ih, add_assoc]

/-- What the values of a map amount to. -/
def total (f : V → A) (m : Finmap fun _ : K => V) : A := (m.entries.map fun x => f x.2).sum

theorem total_insert (f : V → A) {m : Finmap fun _ : K => V} {k : K} (v : V) (h : k ∉ m) :
    total f (m.insert k v) = f v + total f m := by
  rw [total, Finmap.entries_insert_of_notMem h, Multiset.map_cons, Multiset.sum_cons]
  rfl

/-- A map is its entry at a key over the rest. -/
theorem insert_erase {m : Finmap fun _ : K => V} {k : K} {v : V} (h : m.lookup k = some v) :
    (m.erase k).insert k v = m := by
  refine Finmap.ext_lookup fun b => ?_
  rcases eq_or_ne b k with rfl | hne
  · rw [Finmap.lookup_insert, h]
  · rw [Finmap.lookup_insert_of_ne _ hne, Finmap.lookup_erase_ne hne]

theorem total_erase (f : V → A) {m : Finmap fun _ : K => V} {k : K} {v : V} (h : m.lookup k = some v) :
    total f m = f v + total f (m.erase k) := by
  conv_lhs => rw [← insert_erase h]
  exact total_insert f v Finmap.notMem_erase_self

/-- Replacing a value replaces its amount. -/
theorem total_replace (f : V → A) {m : Finmap fun _ : K => V} {k : K} {v : V} (w : V) (h : m.lookup k = some v) :
    total f (m.insert k w) + f v = total f m + f w := by
  have hsame : m.insert k w = (m.erase k).insert k w := by
    refine Finmap.ext_lookup fun b => ?_
    rcases eq_or_ne b k with rfl | hne
    · rw [Finmap.lookup_insert, Finmap.lookup_insert]
    · rw [Finmap.lookup_insert_of_ne _ hne, Finmap.lookup_insert_of_ne _ hne, Finmap.lookup_erase_ne hne]
  rw [hsame, total_insert f w Finmap.notMem_erase_self, total_erase f h, add_assoc, add_comm (f w), add_comm (f v)]

end Tally
