import Duckspout.Lib.OrdMap
import Mathlib.Data.List.Induction

/-! Lists whose elements are numbered within their key: the elements of each key carry 0, 1, 2, … in the order of the
    list. A scan checks it with one counter a key, `Counted` being what the counters hold after a prefix.

    `dense_flatten` is the rule for a list that comes in parts: it is dense and so is every part exactly when it is dense
    and no two parts share a key. -/

namespace Numbering

variable {α K : Type} (key : α → K) (num : α → ℕ)

section

variable [DecidableEq K]

/-- The numbers of a key's elements. -/
def numbers (k : K) (l : List α) : List ℕ := (l.filter (key · = k)).map num

/-- How many elements a key has. -/
def count (k : K) (l : List α) : ℕ := (l.filter (key · = k)).length

/-- The elements of each key are numbered from zero, without a gap and in order. -/
def Dense (l : List α) : Prop := ∀ k, numbers key num k l = List.range (count key k l)

variable {key num} {k : K} {l m : List α} {a : α}

theorem numbers_append : numbers key num k (l ++ m) = numbers key num k l ++ numbers key num k m := by
  simp [numbers]

@[simp] theorem count_append : count key k (l ++ m) = count key k l + count key k m := by
  simp [count]

@[simp] theorem length_numbers : (numbers key num k l).length = count key k l := by
  simp [numbers, count]

theorem count_singleton : count key k [a] = if key a = k then 1 else 0 := by
  by_cases h : key a = k <;> simp [count, h]

theorem count_eq_zero : count key k l = 0 ↔ ∀ a ∈ l, key a ≠ k := by
  simp [count, List.filter_eq_nil_iff]

@[simp] theorem dense_nil : Dense key num ([] : List α) := fun _ => rfl

theorem dense_map {β : Type} {f : β → α} {l : List β} :
    Dense key num (l.map f) ↔ Dense (key ∘ f) (num ∘ f) l := by
  have hnumbers : ∀ k, numbers key num k (l.map f) = numbers (key ∘ f) (num ∘ f) k l := by
    intro k
    simp [numbers, List.filter_map, Function.comp_def]
  have hcount : ∀ k, count key k (l.map f) = count (key ∘ f) k l := by
    intro k
    simp [count, List.filter_map, Function.comp_def]
  simp only [Dense, hnumbers, hcount]

/-- The second half of a dense list goes on where the first one ended. -/
theorem numbers_of_append (h : Dense key num (l ++ m)) :
    numbers key num k m = List.range' (count key k l) (count key k m) := by
  have hk := h k
  rw [numbers_append, count_append, List.range_eq_range', ← List.range'_append_1, Nat.zero_add] at hk
  exact (List.append_inj hk (by simp)).2

theorem dense_left (h : Dense key num (l ++ m)) : Dense key num l := by
  intro k
  have hk := h k
  rw [numbers_append, count_append, List.range_eq_range', ← List.range'_append_1] at hk
  rw [List.range_eq_range']
  exact (List.append_inj hk (by simp)).1

/-- One more element: it carries the number of its key's elements so far. -/
theorem dense_concat : Dense key num (l ++ [a]) ↔ Dense key num l ∧ num a = count key (key a) l := by
  constructor
  · intro h
    have ha := numbers_of_append (k := key a) h
    simp only [numbers, count_singleton] at ha
    exact ⟨dense_left h, by simpa using ha⟩
  · rintro ⟨h, ha⟩ k
    rw [numbers_append, h k, count_append, count_singleton]
    by_cases hk : key a = k
    · subst hk
      simp [numbers, ha, List.range_succ]
    · simp [numbers, hk]

/-- A dense list's second half is dense on its own when it shares no key with the first. -/
theorem dense_right_iff (h : Dense key num (l ++ m)) : Dense key num m ↔ ∀ a ∈ l, ∀ b ∈ m, key a ≠ key b := by
  constructor
  · intro hm a ha b hb hkey
    have hl : count key (key b) l ≠ 0 := fun h0 => count_eq_zero.mp h0 a ha hkey
    have hright := (hm (key b)).symm.trans (numbers_of_append (k := key b) h)
    cases hcount : count key (key b) m with
    | zero => exact count_eq_zero.mp hcount b hb rfl
    | succ n =>
      rw [hcount, List.range_succ_eq_map, List.range'_succ] at hright
      exact hl (List.cons.inj hright).1.symm
  · intro hshare k
    rw [numbers_of_append h, List.range_eq_range']
    by_cases hm : count key k m = 0
    · rw [hm]
      rfl
    · have hl : count key k l = 0 := by
        refine count_eq_zero.mpr fun a ha hk => hm (count_eq_zero.mpr fun b hb hb' => ?_)
        exact hshare a ha b hb (hk.trans hb'.symm)
      rw [hl]

/-- The parts of a dense list are dense each when no two of them share a key. -/
theorem dense_flatten {parts : List (List α)} (h : Dense key num parts.flatten) :
    (∀ part ∈ parts, Dense key num part) ↔ parts.Pairwise fun l m => ∀ a ∈ l, ∀ b ∈ m, key a ≠ key b := by
  induction parts using List.reverseRecOn with
  | nil => simp
  | append_singleton parts part ih =>
    rw [List.flatten_append, List.flatten_singleton] at h
    have hlast := dense_right_iff h
    simp only [List.mem_flatten] at hlast
    simp only [List.mem_append, List.mem_singleton, or_imp, forall_and, forall_eq, List.pairwise_append,
      List.pairwise_singleton, true_and, ih (dense_left h), hlast]
    exact and_congr_right fun _ => ⟨fun hd l hl a ha => hd a ⟨l, hl, ha⟩, fun hd a ⟨l, hl, ha⟩ => hd l hl a ha⟩

/-- A list of one key is dense when its numbers are 0, 1, 2, … -/
theorem dense_of_const {k : K} (hkey : ∀ a ∈ l, key a = k) (hnum : l.map num = List.range l.length) : Dense key num l := by
  intro k'
  by_cases hk : k = k'
  · have hall : l.filter (key · = k') = l := List.filter_eq_self.mpr fun a ha => by simp [hkey a ha, hk]
    rw [numbers, count, hall, hnum]
  · have hnone : l.filter (key · = k') = [] := List.filter_eq_nil_iff.mpr fun a ha => by simp [hkey a ha, hk]
    rw [numbers, count, hnone]
    rfl

/-- Two dense lists that share no key are dense together. -/
theorem dense_append (hl : Dense key num l) (hm : Dense key num m) (h : ∀ a ∈ l, ∀ b ∈ m, key a ≠ key b) :
    Dense key num (l ++ m) := by
  intro k
  rw [numbers_append, count_append, hl k, hm k]
  by_cases hk : count key k l = 0
  · rw [hk, List.range_zero, List.nil_append, Nat.zero_add]
  · have hm : count key k m = 0 := by
      refine count_eq_zero.mpr fun b hb hkey => hk (count_eq_zero.mpr fun a ha ha' => ?_)
      exact h a ha b hb (ha'.trans hkey.symm)
    rw [hm, List.range_zero, List.append_nil, Nat.add_zero]

/-- Dense parts of which no two share a key are dense together. -/
theorem dense_flatten_of {parts : List (List α)} (hparts : ∀ part ∈ parts, Dense key num part)
    (h : parts.Pairwise fun l m => ∀ a ∈ l, ∀ b ∈ m, key a ≠ key b) : Dense key num parts.flatten := by
  induction parts with
  | nil => exact dense_nil
  | cons part parts ih =>
    obtain ⟨hpart, hparts⟩ := List.forall_mem_cons.mp hparts
    obtain ⟨hfirst, hrest⟩ := List.pairwise_cons.mp h
    refine dense_append hpart (ih hparts hrest) fun a ha b hb => ?_
    obtain ⟨other, hother, hb⟩ := List.mem_flatten.mp hb
    exact hfirst other hother a ha b hb

end

/-! ### Counters -/

section

variable [LinearOrder K]

/-- The number a key's next element must carry. -/
def next (counters : OrdMap K ℕ) (k : K) : ℕ := counters[k]?.getD 0

/-- One more element of the key. -/
def bump (counters : OrdMap K ℕ) (k : K) : OrdMap K ℕ := counters.insert k (next counters k + 1)

variable [DecidableEq K]

/-- The counters hold what a list has brought. -/
def Counted (counters : OrdMap K ℕ) (l : List α) : Prop := ∀ k, next counters k = count key k l

variable {key} {counters : OrdMap K ℕ} {l : List α} {a : α}

theorem counted_nil : Counted key (∅ : OrdMap K ℕ) [] := by
  intro k
  simp [next, count]

theorem Counted.concat (h : Counted key counters l) : Counted key (bump counters (key a)) (l ++ [a]) := by
  intro k
  rw [count_append, count_singleton, ← h k, next, bump, OrdMap.get_insert]
  by_cases hk : key a = k
  · rw [if_pos hk, if_pos hk, hk, Option.getD_some]
  · rw [if_neg hk, if_neg hk, Nat.add_zero, next]

end

end Numbering
