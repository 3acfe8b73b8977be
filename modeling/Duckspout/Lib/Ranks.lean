import Mathlib.Data.List.Sort

/-! Order statistics: what stands at a rank of a list's sorted order.

    A rank does not depend on the order of the list, and it is robust: a list of `j` foreign values moves none of the ranks
    from `j` on below all the others, nor any that has `j` more after it above them. -/

namespace Ranks

variable {α : Type} [LinearOrder α]

/-- The element at a rank, counted from the least. -/
def atRank (l : List α) (k : ℕ) : Option α := (l.insertionSort (· ≤ ·))[k]?

theorem atRank_perm {l l' : List α} (h : l.Perm l') (k : ℕ) : atRank l k = atRank l' k := by
  have hsorted : l.insertionSort (· ≤ ·) = l'.insertionSort (· ≤ ·) :=
    (((List.perm_insertionSort (· ≤ ·) l).trans h).trans (List.perm_insertionSort (· ≤ ·) l').symm).eq_of_pairwise'
      (List.pairwise_insertionSort (· ≤ ·) l) (List.pairwise_insertionSort (· ≤ ·) l')
  rw [atRank, hsorted, atRank]

theorem atRank_eq_some {l : List α} {k : ℕ} (h : k < l.length) : ∃ m, atRank l k = some m := by
  rw [← List.length_insertionSort (· ≤ ·) l] at h
  exact ⟨_, List.getElem?_eq_getElem h⟩

section Counts

variable {l : List α} {k : ℕ} {m : α}

/-- The sorted list at a rank: all before it are no greater, all after it no less. -/
theorem atRank_split (h : atRank l k = some m) : ∃ before after, l.Perm (before ++ m :: after) ∧ before.length = k ∧
    (∀ a ∈ before, a ≤ m) ∧ ∀ b ∈ after, m ≤ b := by
  obtain ⟨hk, hm⟩ := List.getElem?_eq_some_iff.mp h
  have hsplit : l.insertionSort (· ≤ ·) =
      (l.insertionSort (· ≤ ·)).take k ++ m :: (l.insertionSort (· ≤ ·)).drop (k + 1) := by
    rw [← hm, ← List.drop_eq_getElem_cons hk, List.take_append_drop]
  have hsorted := List.pairwise_insertionSort (· ≤ ·) l
  rw [hsplit, List.pairwise_append, List.pairwise_cons] at hsorted
  obtain ⟨-, ⟨hafter, -⟩, hbefore⟩ := hsorted
  refine ⟨_, _, (List.perm_insertionSort (· ≤ ·) l).symm.trans (List.Perm.of_eq hsplit), ?_,
    fun a ha => hbefore a ha m List.mem_cons_self, hafter⟩
  rw [List.length_take]
  omega

theorem lt_countP_le (h : atRank l k = some m) : k < l.countP (· ≤ m) := by
  obtain ⟨before, after, hperm, rfl, hbefore, -⟩ := atRank_split h
  have hall : before.countP (· ≤ m) = before.length :=
    List.countP_eq_length.mpr fun a ha => decide_eq_true (hbefore a ha)
  rw [hperm.countP_eq, List.countP_append, List.countP_cons, hall]
  simp

theorem length_le_add_countP_ge (h : atRank l k = some m) : l.length ≤ k + l.countP (m ≤ ·) := by
  obtain ⟨before, after, hperm, rfl, -, hafter⟩ := atRank_split h
  have hall : after.countP (m ≤ ·) = after.length :=
    List.countP_eq_length.mpr fun b hb => decide_eq_true (hafter b hb)
  rw [hperm.length_eq, hperm.countP_eq, List.countP_append, List.countP_cons, List.length_append, List.length_cons, hall]
  simp

end Counts

section Robust

variable {vs l : List α} {k : ℕ} {m : α}

/-- Foreign values, fewer than the ranks below, leave another below. -/
theorem exists_le_of_atRank (h : atRank (vs ++ l) k = some m) (hk : vs.length ≤ k) : ∃ a ∈ l, a ≤ m := by
  have hcount := lt_countP_le h
  rw [List.countP_append] at hcount
  have hvs : vs.countP (· ≤ m) ≤ vs.length := List.countP_le_length
  obtain ⟨a, ha, hle⟩ := List.countP_pos_iff.mp (show 0 < l.countP (· ≤ m) by omega)
  exact ⟨a, ha, of_decide_eq_true hle⟩

/-- Foreign values, fewer than the ranks above, leave another above. -/
theorem exists_ge_of_atRank (h : atRank (vs ++ l) k = some m) (hk : k < l.length) : ∃ b ∈ l, m ≤ b := by
  have hcount := length_le_add_countP_ge h
  rw [List.countP_append, List.length_append] at hcount
  have hvs : vs.countP (m ≤ ·) ≤ vs.length := List.countP_le_length
  obtain ⟨b, hb, hge⟩ := List.countP_pos_iff.mp (show 0 < l.countP (m ≤ ·) by omega)
  exact ⟨b, hb, of_decide_eq_true hge⟩

end Robust

end Ranks
