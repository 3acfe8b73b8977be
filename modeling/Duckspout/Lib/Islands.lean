import Duckspout.Lib.Ranges
import Mathlib.Data.List.Dedup

/-! Gaps and islands: the maximal runs of consecutive numbers in an increasing list, found by numbering.

    In an increasing list a member's distance from its position never falls, and it stays the same exactly
    as long as the members are consecutive. So the members of equal distance are a run, and the first and
    last of each are its ends. -/

namespace Islands

open RangeList

variable {α : Type} (val : α → ℕ)

/-- The members, each beside its distance from its position, with positions from `k + 1` on. -/
def numbered (k : ℕ) (xs : List α) : List (ℤ × α) := (xs.zipIdx k).map fun x => ((val x.1 : ℤ) - ((x.2 : ℤ) + 1), x.1)

/-- The members at one distance. -/
def members (xs : List α) (run : ℤ) : List α := ((numbered val 0 xs).filter (·.1 = run)).map (·.2)

/-- The first and the last of a list. -/
def endsOf (xs : List α) : Option (α × α) :=
  match xs.head?, xs.getLast? with
  | some first, some last => some (first, last)
  | _, _ => none

/-- The first and the last member at each distance. -/
def ends (xs : List α) : List (α × α) :=
  ((numbered val 0 xs).map (·.1)).dedup.filterMap fun run => endsOf (members val xs run)

variable {val} {k : ℕ} {xs : List α} {x : α}

/-! ### Numbering an increasing list -/

theorem numbered_cons : numbered val k (x :: xs) = ((val x : ℤ) - ((k : ℤ) + 1), x) :: numbered val (k + 1) xs := by
  simp [numbered, List.zipIdx_cons]

theorem map_snd_numbered : (numbered val k xs).map (·.2) = xs := by
  simp only [numbered, List.map_map]
  exact List.zipIdx_map_fst k xs

/-- Positions count from `k + 1`. -/
theorem position_le {a : ℤ × α} (ha : a ∈ numbered val k xs) : a.1 + (k + 1) ≤ val a.2 := by
  obtain ⟨⟨x, i⟩, hx, rfl⟩ := List.mem_map.mp ha
  have hi := (List.mem_zipIdx hx).1
  dsimp only
  omega

/-- An increasing list of numbers from `m` on is nowhere nearer to its positions than `m` would be at the start. -/
theorem distance_le (hxs : xs.Pairwise (val · < val ·)) {m : ℕ} (hm : ∀ x ∈ xs, m ≤ val x) {a : ℤ × α}
    (ha : a ∈ numbered val k xs) : (m : ℤ) - (k + 1) ≤ a.1 := by
  induction xs generalizing k m with
  | nil => cases ha
  | cons x xs ih =>
    rw [List.pairwise_cons] at hxs
    have hx := hm x List.mem_cons_self
    rw [numbered_cons, List.mem_cons] at ha
    rcases ha with rfl | ha
    · dsimp only
      omega
    · have hstep := ih hxs.2 (m := m + 1) (fun y hy => by have := hxs.1 y hy; omega) ha
      push_cast at hstep
      omega

/-- `b` comes after `a`: its distance has not fallen, and every step of it is a number left out. -/
def After (a b : ℤ × α) (val : α → ℕ) : Prop := a.1 ≤ b.1 ∧ (val a.2 : ℤ) + (b.1 - a.1) < val b.2

theorem numbered_pairwise (hxs : xs.Pairwise (val · < val ·)) :
    (numbered val k xs).Pairwise fun a b => After a b val := by
  induction xs generalizing k with
  | nil => exact .nil
  | cons x xs ih =>
    rw [List.pairwise_cons] at hxs
    rw [numbered_cons, List.pairwise_cons]
    refine ⟨fun b hb => ?_, ih hxs.2⟩
    have hdist := distance_le hxs.2 (m := val x + 1) hxs.1 hb
    have hpos := position_le hb
    simp only [After]
    push_cast at hdist hpos
    omega

theorem after_of_lt (hxs : xs.Pairwise (val · < val ·)) {a b : ℤ × α} (ha : a ∈ numbered val k xs)
    (hb : b ∈ numbered val k xs) (hlt : a.1 < b.1) : After a b val := by
  have hafter := numbered_pairwise (k := k) hxs
  refine List.Pairwise.forall_of_forall_of_flip (R := fun a b => a.1 < b.1 → After a b val) ?_ ?_ ?_ ha hb hlt
  · exact fun a _ hlt => absurd hlt (lt_irrefl _)
  · exact hafter.imp (fun {a b} h (_ : a.1 < b.1) => h)
  · exact hafter.imp (fun {a b} h (hlt : b.1 < a.1) => absurd hlt (not_lt.mpr h.1))

/-- Between two members of equal distance no number is left out. -/
theorem dense_of_eq (hxs : xs.Pairwise (val · < val ·)) {a b : ℤ × α} (ha : a ∈ numbered val k xs)
    (hb : b ∈ numbered val k xs) (heq : a.1 = b.1) {n : ℕ} (hlo : val a.2 ≤ n) (hhi : n ≤ val b.2) :
    ∃ x ∈ xs, val x = n := by
  induction xs generalizing k a with
  | nil => cases ha
  | cons x xs ih =>
    rw [List.pairwise_cons] at hxs
    rw [numbered_cons, List.mem_cons] at ha hb
    rcases hb with rfl | hb
    · rcases ha with rfl | ha
      · exact ⟨x, List.mem_cons_self, by dsimp only at hlo hhi; omega⟩
      · have hdist := distance_le hxs.2 (m := val x + 1) hxs.1 ha
        have hpos := position_le ha
        dsimp only at heq hhi
        push_cast at hdist hpos
        omega
    · rcases ha with rfl | ha
      · rcases hlo.eq_or_lt with hn | hn
        · exact ⟨x, List.mem_cons_self, hn⟩
        · -- the next member has the same distance, so it is the next number
          cases xs with
          | nil => cases hb
          | cons y ys =>
            have hy := hxs.1 y List.mem_cons_self
            have hle := distance_le hxs.2 (m := val y)
              (by
                intro z hz
                rcases List.mem_cons.mp hz with rfl | hz
                · exact le_refl _
                · exact ((List.pairwise_cons.mp hxs.2).1 z hz).le) hb
            dsimp only at heq hn
            push_cast at hle
            obtain ⟨z, hz, hval⟩ := ih hxs.2 (a := ((val y : ℤ) - ((k + 1 : ℕ) + 1), y))
              (by rw [numbered_cons]; exact List.mem_cons_self) hb (by push_cast; omega) (by dsimp only; omega)
            exact ⟨z, List.mem_cons_of_mem _ hz, hval⟩
      · obtain ⟨z, hz, hval⟩ := ih hxs.2 ha hb heq hlo
        exact ⟨z, List.mem_cons_of_mem _ hz, hval⟩

/-! ### Runs -/

theorem mem_members {run : ℤ} : x ∈ members val xs run ↔ (run, x) ∈ numbered val 0 xs := by
  simp [members]

theorem exists_run (val : α → ℕ) (hx : x ∈ xs) : ∃ run, (run, x) ∈ numbered val 0 xs := by
  have hmem : x ∈ (numbered val 0 xs).map (·.2) := by rwa [map_snd_numbered]
  obtain ⟨⟨run, y⟩, hy, rfl⟩ := List.mem_map.mp hmem
  exact ⟨run, hy⟩

theorem members_pairwise (hxs : xs.Pairwise (val · < val ·)) (run : ℤ) :
    (members val xs run).Pairwise (val · < val ·) := by
  refine hxs.sublist ?_
  have hsub := (List.filter_sublist (p := fun a => decide (a.1 = run)) (l := numbered val 0 xs)).map (·.2)
  rwa [map_snd_numbered] at hsub

theorem head?_le {first : α} (hxs : xs.Pairwise (val · < val ·)) (hfirst : xs.head? = some first) (hx : x ∈ xs) :
    val first ≤ val x := by
  obtain ⟨tail, rfl⟩ := List.head?_eq_some_iff.mp hfirst
  rcases List.mem_cons.mp hx with rfl | hx
  · exact le_refl _
  · exact ((List.pairwise_cons.mp hxs).1 x hx).le

theorem le_getLast? {last : α} (hxs : xs.Pairwise (val · < val ·)) (hlast : xs.getLast? = some last) (hx : x ∈ xs) :
    val x ≤ val last := by
  obtain ⟨init, rfl⟩ := List.getLast?_eq_some_iff.mp hlast
  rcases List.mem_append.mp hx with hx | hx
  · exact ((List.pairwise_append.mp hxs).2.2 x hx last List.mem_cons_self).le
  · rw [List.mem_singleton.mp hx]

theorem endsOf_eq_some {r : α × α} (h : endsOf xs = some r) : xs.head? = some r.1 ∧ xs.getLast? = some r.2 := by
  simp only [endsOf] at h
  split at h
  · cases h
    exact ⟨‹_›, ‹_›⟩
  · cases h

theorem exists_endsOf (hx : x ∈ xs) : ∃ r, endsOf xs = some r := by
  have hne := List.ne_nil_of_mem hx
  exact ⟨(xs.head hne, xs.getLast hne), by simp [endsOf, List.head?_eq_some_head hne, List.getLast?_eq_some_getLast hne]⟩

/-- The distances, each once and in increasing order. -/
theorem runs_pairwise (hxs : xs.Pairwise (val · < val ·)) : ((numbered val 0 xs).map (·.1)).dedup.Pairwise (· < ·) := by
  have hle : ((numbered val 0 xs).map (·.1)).Pairwise (· ≤ ·) :=
    List.pairwise_map.mpr ((numbered_pairwise hxs).imp fun h => h.1)
  have hnodup := List.nodup_dedup ((numbered val 0 xs).map (·.1))
  exact ((hle.sublist (List.dedup_sublist _)).and hnodup).imp fun h => lt_of_le_of_ne h.1 h.2

theorem mem_of_endsOf {run : ℤ} {r : α × α} (h : endsOf (members val xs run) = some r) :
    (run, r.1) ∈ numbered val 0 xs ∧ (run, r.2) ∈ numbered val 0 xs := by
  obtain ⟨hfirst, hlast⟩ := endsOf_eq_some h
  exact ⟨mem_members.mp (List.mem_of_head? hfirst), mem_members.mp (List.mem_of_getLast? hlast)⟩

/-- The runs of an increasing list are canonical. -/
theorem canonical_ends (hxs : xs.Pairwise (val · < val ·)) :
    Canonical ((ends val xs).map fun r => (val r.1, val r.2)) where
  nonempty := by
    intro q hq
    obtain ⟨r, hr, rfl⟩ := List.mem_map.mp hq
    obtain ⟨run, -, hends⟩ := List.mem_filterMap.mp hr
    obtain ⟨hfirst, hlast⟩ := endsOf_eq_some hends
    exact head?_le (members_pairwise hxs run) hfirst (List.mem_of_getLast? hlast)
  ordered := by
    rw [List.pairwise_map, ends, List.pairwise_filterMap]
    refine (runs_pairwise hxs).imp fun {run run'} hlt r hr r' hr' => ?_
    obtain ⟨-, hlast⟩ := mem_of_endsOf hr
    obtain ⟨hfirst, -⟩ := mem_of_endsOf hr'
    obtain ⟨-, hgap⟩ := after_of_lt hxs hlast hfirst hlt
    dsimp only at hgap
    omega

/-- The runs of an increasing list hold the list's numbers and no others. -/
theorem mem_ends (hxs : xs.Pairwise (val · < val ·)) (n : ℕ) :
    Mem ((ends val xs).map fun r => (val r.1, val r.2)) n ↔ ∃ x ∈ xs, val x = n := by
  constructor
  · rintro ⟨q, hq, hlo, hhi⟩
    obtain ⟨r, hr, rfl⟩ := List.mem_map.mp hq
    obtain ⟨run, -, hends⟩ := List.mem_filterMap.mp hr
    obtain ⟨hfirst, hlast⟩ := mem_of_endsOf hends
    exact dense_of_eq hxs hfirst hlast rfl hlo hhi
  · rintro ⟨x, hx, rfl⟩
    obtain ⟨run, hrun⟩ := exists_run val hx
    have hmem := mem_members.mpr hrun
    obtain ⟨r, hends⟩ := exists_endsOf hmem
    obtain ⟨hfirst, hlast⟩ := endsOf_eq_some hends
    refine ⟨(val r.1, val r.2), List.mem_map_of_mem (List.mem_filterMap.mpr ⟨run, ?_, hends⟩), ?_, ?_⟩
    · exact List.mem_dedup.mpr (List.mem_map_of_mem hrun)
    · exact head?_le (members_pairwise hxs run) hfirst hmem
    · exact le_getLast? (members_pairwise hxs run) hlast hmem

end Islands
