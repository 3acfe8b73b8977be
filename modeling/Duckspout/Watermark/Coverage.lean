import Duckspout.Types
import Duckspout.Lib.Ranges
import Mathlib.Data.List.Induction

/-! Coalesced per-origin sequence-range sets (`duckspout-watermark/src/coverage.rs`).

    Sequences are 1-based, so 0 is never a member and completeness is judged from 1. A `SeqSet` keeps
    its ranges as naturals; every bound it stores is the value of a 64-bit integer, and the additions
    that could leave that range saturate as they do in the source. -/

namespace Duckspout

open RangeList

/-- A sorted, disjoint, coalesced set of inclusive sequence ranges. -/
structure SeqSet where
  ranges : List (ℕ × ℕ) := []
  deriving DecidableEq, Repr

instance : Inhabited SeqSet := ⟨{}⟩

namespace SeqSet

/-- Whether `[first, last]` intersects any member range. -/
def overlaps (s : SeqSet) (first last : ℕ) : Bool :=
  s.ranges.any fun r => decide (first ≤ r.2) && decide (r.1 ≤ last)

/-- One pass of the insertion loop: a touching range is absorbed into `merged`, any other is kept. -/
def absorb : List (ℕ × ℕ) → ℕ × ℕ → List (ℕ × ℕ) × (ℕ × ℕ)
  | [], merged => ([], merged)
  | (a, b) :: rest, merged =>
    if a ≤ saturatingSucc merged.2 ∧ merged.1 ≤ saturatingSucc b then
      absorb rest (min merged.1 a, max merged.2 b)
    else
      ((a, b) :: (absorb rest merged).1, (absorb rest merged).2)

/-- Union-inserts `[first, last]`, coalescing overlap and adjacency. -/
def insert (s : SeqSet) (first last : ℕ) : SeqSet :=
  let out := absorb s.ranges (first, last)
  ⟨(out.1 ++ [out.2]).insertionSort RangeList.le⟩

/-- The scan of `gaps`, with `next` the first number not yet accounted for. -/
def gapsFrom : List (ℕ × ℕ) → ℕ → List (ℕ × ℕ)
  | [], _ => []
  | (a, b) :: rest, next =>
    if a > next then (next, a - 1) :: gapsFrom rest (saturatingSucc b)
    else gapsFrom rest (saturatingSucc b)

/-- The gaps between 1 and the set's maximum that the set does not cover. -/
def gaps (s : SeqSet) : List (ℕ × ℕ) := gapsFrom s.ranges 1

/-- The scan of `uncovered`, with `next` the first number of the probe not yet accounted for. -/
def uncoveredFrom (last : ℕ) : List (ℕ × ℕ) → ℕ → List (ℕ × ℕ)
  | [], next => if next ≤ last then [(next, last)] else []
  | (a, b) :: rest, next =>
    if next > last then []
    else if b < next then uncoveredFrom last rest next
    else if a > next then (next, min (a - 1) last) :: uncoveredFrom last rest (saturatingSucc b)
    else uncoveredFrom last rest (saturatingSucc b)

/-- The sub-ranges of `[first, last]` this set does not cover. -/
def uncovered (s : SeqSet) (first last : ℕ) : List (ℕ × ℕ) := uncoveredFrom last s.ranges first

end SeqSet

/-- Per-origin coalesced coverage. -/
abbrev OriginCoverage := OrdMap NodeId SeqSet

/-- The gaps in `coverage`, up to each origin's maximum, that `losses` does not excuse. -/
def unexcusedGaps (coverage losses : OriginCoverage) : List (NodeId × ℕ × ℕ) :=
  coverage.toList.flatMap fun (origin, set) =>
    set.gaps.flatMap fun (first, last) =>
      match losses[origin]? with
      | some excuse => (excuse.uncovered first last).map fun r => (origin, r.1, r.2)
      | none => [(origin, first, last)]

namespace SeqSet

/-- Membership of a sequence number. -/
def Mem (s : SeqSet) (n : ℕ) : Prop := RangeList.Mem s.ranges n

/-- A stored set: canonical ranges of 1-based 64-bit numbers. -/
structure Wf (s : SeqSet) : Prop where
  canonical : Canonical s.ranges
  bounds : ∀ r ∈ s.ranges, 1 ≤ r.1 ∧ r.2 ≤ u64Max

theorem wf_empty : Wf {} := ⟨canonical_nil, by simp⟩

@[simp] theorem not_mem_default (n : ℕ) : ¬ Mem default n := RangeList.mem_nil n

/-- Two stored sets with the same members are the same value. -/
theorem ext_mem {s t : SeqSet} (hs : s.Wf) (ht : t.Wf) (h : ∀ n, s.Mem n ↔ t.Mem n) : s = t := by
  obtain ⟨rs⟩ := s
  obtain ⟨qs⟩ := t
  have hrq : rs = qs := canonical_ext hs.canonical ht.canonical h
  rw [hrq]

/-! ### Insertion -/

/-- The touch test of the loop, freed of its saturation: `Touch` is the negation of `Apart`. -/
theorem touch_iff {r m : ℕ × ℕ} (hr : r.1 ≤ r.2) (hr' : r.2 ≤ u64Max) (hm : m.1 ≤ m.2)
    (hm' : m.2 ≤ u64Max) :
    (r.1 ≤ saturatingSucc m.2 ∧ m.1 ≤ saturatingSucc r.2) ↔ ¬ Apart r m := by
  simp only [saturatingSucc, Apart]
  omega

/-- What one pass leaves behind: the kept ranges come from the scanned ones in their order and stand
    apart from the merged one, which grew from `m`, and together they hold the same numbers. -/
structure Absorbed (rs : List (ℕ × ℕ)) (m : ℕ × ℕ) (out : List (ℕ × ℕ) × (ℕ × ℕ)) : Prop where
  sublist : out.1.Sublist rs
  apart : ∀ r ∈ out.1, Apart r out.2
  lo : out.2.1 ≤ m.1 ∧ 1 ≤ out.2.1
  hi : m.2 ≤ out.2.2 ∧ out.2.2 ≤ u64Max
  union : ∀ n, RangeList.Mem out.1 n ∨ (out.2.1 ≤ n ∧ n ≤ out.2.2) ↔
    RangeList.Mem rs n ∨ (m.1 ≤ n ∧ n ≤ m.2)
  span : ∀ x, x.1 ≤ x.2 → (∀ r ∈ rs, x.2 + 1 < r.1) → Apart x m → Apart x out.2

theorem absorb_spec : ∀ (rs : List (ℕ × ℕ)) (m : ℕ × ℕ), Canonical rs →
    (∀ r ∈ rs, 1 ≤ r.1 ∧ r.2 ≤ u64Max) → 1 ≤ m.1 → m.1 ≤ m.2 → m.2 ≤ u64Max →
    Absorbed rs m (absorb rs m) := by
  intro rs
  induction rs with
  | nil =>
    intro m _ _ h1 hm hm'
    exact ⟨List.Sublist.refl _, by simp [absorb], ⟨le_rfl, h1⟩, ⟨le_rfl, hm'⟩, by simp [absorb],
        fun _ _ _ h => h⟩
  | cons r rest ih =>
    obtain ⟨a, b⟩ := r
    intro m hc hb h1 hm hm'
    obtain ⟨hab, hlt, hrest⟩ := canonical_cons.mp hc
    have hb0 := hb (a, b) (by simp)
    have hbr : ∀ r ∈ rest, 1 ≤ r.1 ∧ r.2 ≤ u64Max := fun r hr => hb r (by simp [hr])
    simp only at hab hlt hb0
    simp only [absorb]
    by_cases ht : a ≤ saturatingSucc m.2 ∧ m.1 ≤ saturatingSucc b
    · rw [if_pos ht]
      have hna : ¬ Apart (a, b) m := (touch_iff hab hb0.2 hm hm').mp ht
      unfold Apart at hna
      simp only at hna
      have ih := ih (min m.1 a, max m.2 b) hrest hbr (by simp only; omega)
        (by simp only; omega) (by simp only; omega)
      refine ⟨ih.sublist.cons _, ih.apart, ?_, ?_, ?_, ?_⟩
      · have := ih.lo; simp only at this; omega
      · have := ih.hi; simp only at this; omega
      · intro n
        rw [ih.union n, RangeList.mem_cons]
        simp only
        constructor
        · rintro (h | h)
          · exact Or.inl (Or.inr h)
          · by_cases hn : a ≤ n ∧ n ≤ b
            · exact Or.inl (Or.inl hn)
            · exact Or.inr (by omega)
        · rintro ((h | h) | h)
          · exact Or.inr (by omega)
          · exact Or.inl h
          · exact Or.inr (by omega)
      · intro x hne hx hxm
        refine ih.span x hne (fun r hr => hx r (by simp [hr])) ?_
        have hxa := hx (a, b) (by simp)
        simp only [Apart] at hxm ⊢
        simp only at hxa ⊢
        omega
    · rw [if_neg ht]
      have hap : Apart (a, b) m := by
        by_contra hna
        exact ht ((touch_iff hab hb0.2 hm hm').mpr hna)
      have ih := ih m hrest hbr h1 hm hm'
      refine ⟨ih.sublist.cons_cons _, ?_, ih.lo, ih.hi, ?_, ?_⟩
      · intro r hr
        rcases List.mem_cons.mp hr with rfl | hr
        · exact ih.span (a, b) hab hlt hap
        · exact ih.apart r hr
      · intro n
        simp only [RangeList.mem_cons]
        rw [or_assoc, ih.union n, or_assoc]
      · exact fun x hne hx hxm => ih.span x hne (fun r hr => hx r (by simp [hr])) hxm

/-- Inserting a 1-based 64-bit range keeps the set canonical and adds exactly that range. -/
theorem insert_spec {s : SeqSet} (hs : s.Wf) {first last : ℕ} (h1 : 1 ≤ first) (hfl : first ≤ last)
    (hl : last ≤ u64Max) :
    (s.insert first last).Wf ∧
      ∀ n, (s.insert first last).Mem n ↔ s.Mem n ∨ (first ≤ n ∧ n ≤ last) := by
  have ha := absorb_spec s.ranges (first, last) hs.canonical hs.bounds h1 hfl hl
  set out := absorb s.ranges (first, last) with hout
  have hlo := ha.lo
  have hhi := ha.hi
  simp only at hlo hhi
  have hmem : ∀ r ∈ out.1 ++ [out.2], r.1 ≤ r.2 ∧ 1 ≤ r.1 ∧ r.2 ≤ u64Max := by
    intro r hr
    rcases List.mem_append.mp hr with hr | hr
    · have hr' := ha.sublist.subset hr
      exact ⟨hs.canonical.nonempty r hr', hs.bounds r hr'⟩
    · rw [List.mem_singleton.mp hr]
      omega
  have hpair : (out.1 ++ [out.2]).Pairwise Apart := by
    refine List.pairwise_append.mpr ⟨hs.canonical.apart.sublist ha.sublist, by simp, ?_⟩
    intro r hr q hq
    rw [List.mem_singleton.mp hq]
    exact ha.apart r hr
  have hperm := List.perm_insertionSort RangeList.le (out.1 ++ [out.2])
  refine ⟨⟨canonical_sort (fun r hr => (hmem r hr).1) hpair, ?_⟩, ?_⟩
  · intro r hr
    exact (hmem r (hperm.mem_iff.mp hr)).2
  · intro n
    have hsort : (s.insert first last).Mem n ↔ RangeList.Mem (out.1 ++ [out.2]) n :=
      mem_perm hperm n
    rw [hsort, RangeList.mem_append]
    simp only [RangeList.mem_cons, RangeList.mem_nil, or_false]
    exact ha.union n

theorem wf_insert {s : SeqSet} (hs : s.Wf) {first last : ℕ} (h1 : 1 ≤ first) (hfl : first ≤ last)
    (hl : last ≤ u64Max) : (s.insert first last).Wf := (insert_spec hs h1 hfl hl).1

theorem mem_insert {s : SeqSet} (hs : s.Wf) {first last : ℕ} (h1 : 1 ≤ first) (hfl : first ≤ last)
    (hl : last ≤ u64Max) (n : ℕ) :
    (s.insert first last).Mem n ↔ s.Mem n ∨ (first ≤ n ∧ n ≤ last) := (insert_spec hs h1 hfl hl).2 n

/-- A range a set takes: 1-based, first at most last, of 64-bit numbers. -/
def Insertable (r : ℕ × ℕ) : Prop := 1 ≤ r.1 ∧ r.1 ≤ r.2 ∧ r.2 ≤ u64Max

/-- The set a sequence of insertions builds. -/
def ofInserts (rs : List (ℕ × ℕ)) : SeqSet := rs.foldl (fun s r => s.insert r.1 r.2) {}

/-- After any sequence of insertions the set is well formed and is the union of what went in. -/
theorem ofInserts_spec {rs : List (ℕ × ℕ)} (hrs : ∀ r ∈ rs, Insertable r) :
    (ofInserts rs).Wf ∧ ∀ n, (ofInserts rs).Mem n ↔ RangeList.Mem rs n := by
  induction rs using List.reverseRecOn with
  | nil => exact ⟨wf_empty, fun n => Iff.rfl⟩
  | append_singleton rs r ih =>
    obtain ⟨hwf, hmem⟩ := ih fun q hq => hrs q (List.mem_append_left _ hq)
    obtain ⟨h1, hfl, hl⟩ := hrs r (by simp)
    have hlast : ofInserts (rs ++ [r]) = (ofInserts rs).insert r.1 r.2 := by
      simp only [ofInserts, List.foldl_append, List.foldl_cons, List.foldl_nil]
    rw [hlast]
    refine ⟨wf_insert hwf h1 hfl hl, fun n => ?_⟩
    rw [mem_insert hwf h1 hfl hl, hmem, RangeList.mem_append]
    simp

/-- `overlaps` is intersection. -/
theorem overlaps_iff {s : SeqSet} (hs : s.Wf) {first last : ℕ} (hfl : first ≤ last) :
    s.overlaps first last = true ↔ ∃ n, s.Mem n ∧ first ≤ n ∧ n ≤ last := by
  simp only [overlaps, List.any_eq_true, Bool.and_eq_true, decide_eq_true_eq]
  constructor
  · rintro ⟨r, hr, h1, h2⟩
    have := hs.canonical.nonempty r hr
    exact ⟨max first r.1, ⟨r, hr, by omega, by omega⟩, by omega, by omega⟩
  · rintro ⟨n, ⟨r, hr, h1, h2⟩, h3, h4⟩
    exact ⟨r, hr, by omega, by omega⟩

/-! ### Gaps -/

/-- A gap is a nonempty range that ends before the last 64-bit number. -/
theorem bounds_gapsFrom {rs : List (ℕ × ℕ)} {next : ℕ} (hc : Canonical rs) (hb : ∀ r ∈ rs, r.2 ≤ u64Max) :
    ∀ g ∈ gapsFrom rs next, g.1 ≤ g.2 ∧ g.2 < u64Max := by
  fun_induction gapsFrom rs next with
  | case1 next => simp
  | case2 a b rest next h ih =>
    have hab : a ≤ b := (canonical_cons.mp hc).1
    have hmax : b ≤ u64Max := hb (a, b) (by simp)
    refine List.forall_mem_cons.mpr ⟨?_, ih (canonical_cons.mp hc).2.2 fun r hr => hb r (by simp [hr])⟩
    simp only
    omega
  | case3 a b rest next h ih => exact ih (canonical_cons.mp hc).2.2 fun r hr => hb r (by simp [hr])

/-- A number is missing below a member of a list if it lies before the first range, or is missing after it. -/
theorem missing_cons {a b : ℕ} {rest : List (ℕ × ℕ)} {next : ℕ} (hc : Canonical ((a, b) :: rest))
    (hb : ∀ r ∈ rest, r.2 ≤ u64Max) (hnext : next ≤ a) (n : ℕ) :
    (next ≤ n ∧ ¬ RangeList.Mem ((a, b) :: rest) n ∧ ∃ k, RangeList.Mem ((a, b) :: rest) k ∧ n < k) ↔
      (next ≤ n ∧ n < a) ∨ (saturatingSucc b ≤ n ∧ ¬ RangeList.Mem rest n ∧ ∃ k, RangeList.Mem rest k ∧ n < k) := by
  have hab : a ≤ b := (canonical_cons.mp hc).1
  have hbeyond : (∃ k, RangeList.Mem ((a, b) :: rest) k ∧ n < k) ↔ n < b ∨ ∃ k, RangeList.Mem rest k ∧ n < k := by
    constructor
    · rintro ⟨k, hk, hlt⟩
      rcases (RangeList.mem_cons ..).mp hk with hk | hk
      · exact Or.inl (by simp only at hk; omega)
      · exact Or.inr ⟨k, hk, hlt⟩
    · rintro (hlt | ⟨k, hk, hlt⟩)
      · exact ⟨b, by simp [hab], hlt⟩
      · exact ⟨k, by simp [hk], hlt⟩
  rw [hbeyond, RangeList.mem_cons]
  by_cases hmem : RangeList.Mem rest n
  · have hlt : b + 1 < n := lt_of_mem_tail hc hmem
    simp only [hmem, or_true, not_true_eq_false, false_and, and_false, or_false, false_iff]
    omega
  by_cases hlast : ∃ k, RangeList.Mem rest k ∧ n < k
  · -- below a 64-bit number the saturated successor is the plain one
    have hmax : n < u64Max := by
      obtain ⟨k, ⟨r, hr, -, hk⟩, hlt⟩ := hlast
      have hr := hb r hr
      omega
    simp only [hmem, hlast, or_false, or_true, not_false_eq_true, and_true, saturatingSucc]
    omega
  · simp only [hmem, hlast, or_false, not_false_eq_true, and_false]
    omega

/-- What follows a range lies beyond its saturated successor. -/
theorem succ_le_of_mem_tail {a b : ℕ} {rest : List (ℕ × ℕ)} (hc : Canonical ((a, b) :: rest)) :
    ∀ r ∈ rest, saturatingSucc b ≤ r.1 := by
  intro r hr
  have hlt : b + 1 < r.1 := (canonical_cons.mp hc).2.1 r hr
  simp only [saturatingSucc]
  omega

/-- The scan from `next` over ranges that lie above it finds the numbers from `next` on that are
    missing below some member. -/
theorem mem_gapsFrom {rs : List (ℕ × ℕ)} {next : ℕ} (hc : Canonical rs) (hb : ∀ r ∈ rs, r.2 ≤ u64Max)
    (hnext : ∀ r ∈ rs, next ≤ r.1) (n : ℕ) :
    RangeList.Mem (gapsFrom rs next) n ↔ next ≤ n ∧ ¬ RangeList.Mem rs n ∧ ∃ k, RangeList.Mem rs k ∧ n < k := by
  fun_induction gapsFrom rs next with
  | case1 next => simp
  | case2 a b rest next h ih =>
    have hrest : ∀ r ∈ rest, r.2 ≤ u64Max := fun r hr => hb r (by simp [hr])
    have htail := ih (canonical_cons.mp hc).2.2 hrest (succ_le_of_mem_tail hc)
    rw [missing_cons hc hrest (hnext (a, b) (by simp)), RangeList.mem_cons, htail]
    refine or_congr_left ?_
    simp only
    omega
  | case3 a b rest next h ih =>
    have hrest : ∀ r ∈ rest, r.2 ≤ u64Max := fun r hr => hb r (by simp [hr])
    have htail := ih (canonical_cons.mp hc).2.2 hrest (succ_le_of_mem_tail hc)
    rw [missing_cons hc hrest (hnext (a, b) (by simp)), htail]
    refine (or_iff_right ?_).symm
    omega

/-- `gaps` are the numbers from 1 that are missing below some member. -/
theorem mem_gaps {s : SeqSet} (hs : s.Wf) (n : ℕ) :
    RangeList.Mem s.gaps n ↔ 1 ≤ n ∧ ¬ s.Mem n ∧ ∃ k, s.Mem k ∧ n < k :=
  mem_gapsFrom hs.canonical (fun r hr => (hs.bounds r hr).2) (fun r hr => (hs.bounds r hr).1) n

/-- Every gap is a nonempty range ending before the last 64-bit number. -/
theorem gaps_bounds {s : SeqSet} (hs : s.Wf) : ∀ g ∈ s.gaps, g.1 ≤ g.2 ∧ g.2 < u64Max :=
  bounds_gapsFrom hs.canonical fun r hr => (hs.bounds r hr).2

/-! ### The uncovered part of a probed range -/

/-- The scan finds nonempty ranges. -/
theorem bounds_uncoveredFrom {last : ℕ} {rs : List (ℕ × ℕ)} {next : ℕ} :
    ∀ g ∈ uncoveredFrom last rs next, g.1 ≤ g.2 := by
  fun_induction uncoveredFrom last rs next with
  | case1 next h => simpa using h
  | case2 next h => simp
  | case3 a b rest next h => simp
  | case4 a b rest next h1 h2 ih => exact ih
  | case5 a b rest next h1 h2 h3 ih =>
    refine List.forall_mem_cons.mpr ⟨?_, ih⟩
    simp only
    omega
  | case6 a b rest next h1 h2 h3 ih => exact ih

/-- For a probe ending before the last 64-bit number, the scan finds exactly the numbers from `next`
    to `last` outside the ranges. -/
theorem mem_uncoveredFrom {last : ℕ} (hlast : last < u64Max) {rs : List (ℕ × ℕ)} {next : ℕ} (hc : Canonical rs)
    (n : ℕ) : RangeList.Mem (uncoveredFrom last rs next) n ↔ next ≤ n ∧ n ≤ last ∧ ¬ RangeList.Mem rs n := by
  fun_induction uncoveredFrom last rs next with
  | case1 next h => simp
  | case2 next h =>
    simp only [RangeList.mem_nil, not_false_eq_true, and_true, false_iff]
    omega
  | case3 a b rest next h =>
    simp only [RangeList.mem_nil, false_iff]
    omega
  | case4 a b rest next h1 h2 ih =>
    rw [ih (canonical_cons.mp hc).2.2, RangeList.mem_cons, not_or]
    have hout : next ≤ n → ¬ (a ≤ n ∧ n ≤ b) := by omega
    tauto
  | case5 a b rest next h1 h2 h3 ih =>
    have hab : a ≤ b := (canonical_cons.mp hc).1
    rw [RangeList.mem_cons, RangeList.mem_cons, ih (canonical_cons.mp hc).2.2]
    by_cases hn : RangeList.Mem rest n
    · have hlt : b + 1 < n := lt_of_mem_tail hc hn
      simp only [hn, not_true_eq_false, and_false, or_false, or_true, iff_false]
      omega
    · simp only [hn, not_false_eq_true, and_true, or_false, saturatingSucc]
      omega
  | case6 a b rest next h1 h2 h3 ih =>
    have hab : a ≤ b := (canonical_cons.mp hc).1
    rw [RangeList.mem_cons, ih (canonical_cons.mp hc).2.2, not_or, saturatingSucc]
    have hnext : min (b + 1) u64Max ≤ n ∧ n ≤ last ↔ next ≤ n ∧ n ≤ last ∧ ¬ (a ≤ n ∧ n ≤ b) := by omega
    tauto

theorem uncovered_bounds (s : SeqSet) (first last : ℕ) : ∀ g ∈ s.uncovered first last, g.1 ≤ g.2 :=
  bounds_uncoveredFrom

/-- `uncovered` is the complement within a probe ending before the last 64-bit number. -/
theorem mem_uncovered {s : SeqSet} (hs : s.Wf) {first last : ℕ} (hl : last < u64Max) (n : ℕ) :
    RangeList.Mem (s.uncovered first last) n ↔ first ≤ n ∧ n ≤ last ∧ ¬ s.Mem n :=
  mem_uncoveredFrom hl hs.canonical n

end SeqSet

/-! ### Per-origin coverage -/

namespace OriginCoverage

/-- `n` of origin `o` is in the coverage. -/
def Mem (cov : OriginCoverage) (o : NodeId) (n : ℕ) : Prop := ∃ s, cov[o]? = some s ∧ s.Mem n

/-- Every stored set is well formed. -/
def Wf (cov : OriginCoverage) : Prop := ∀ (o : NodeId) (s : SeqSet), cov[o]? = some s → s.Wf

/-- `cov.entry(origin).or_default().insert(first, last)`. -/
def add (cov : OriginCoverage) (r : OriginSeqRange) : OriginCoverage :=
  OrdMap.upsert cov r.origin fun s => s.insert r.firstSeq r.lastSeq

/-- A range the ledger accepts: 1-based, first at most last. -/
def ValidRange (r : OriginSeqRange) : Prop := 1 ≤ (r.firstSeq : ℕ) ∧ (r.firstSeq : ℕ) ≤ r.lastSeq

@[simp] theorem not_mem_empty (o : NodeId) (n : ℕ) : ¬ Mem ∅ o n := by simp [Mem]

theorem wf_empty : Wf ∅ := fun o s h => by simp at h

theorem wf_getD {cov : OriginCoverage} (h : Wf cov) (o : NodeId) : (cov[o]?.getD default).Wf := by
  cases hs : cov[o]? with
  | none => exact SeqSet.wf_empty
  | some s => exact h o s hs

theorem mem_getD (cov : OriginCoverage) (o : NodeId) (n : ℕ) :
    (cov[o]?.getD default).Mem n ↔ Mem cov o n := by
  simp only [Mem]
  cases hs : cov[o]? with
  | none => simp
  | some s => simp

theorem lastSeq_le (r : OriginSeqRange) : (r.lastSeq : ℕ) ≤ u64Max := by
  simp only [u64Max]
  omega

theorem wf_add {cov : OriginCoverage} (h : Wf cov) {r : OriginSeqRange} (hr : ValidRange r) :
    Wf (add cov r) := by
  intro o s hs
  rw [add, OrdMap.get_upsert] at hs
  rcases eq_or_ne r.origin o with ho | ho
  · rw [if_pos ho, Option.some.injEq] at hs
    rw [← hs]
    exact SeqSet.wf_insert (wf_getD h _) hr.1 hr.2 (lastSeq_le r)
  · rw [if_neg ho] at hs
    exact h o s hs

theorem mem_add {cov : OriginCoverage} (h : Wf cov) {r : OriginSeqRange} (hr : ValidRange r)
    (o : NodeId) (n : ℕ) : Mem (add cov r) o n ↔ Mem cov o n ∨ r.Has o n := by
  simp only [OriginSeqRange.Has]
  rcases eq_or_ne r.origin o with rfl | ho
  · have hget : (add cov r)[r.origin]? =
        some ((cov[r.origin]?.getD default).insert r.firstSeq r.lastSeq) := by
      rw [add, OrdMap.get_upsert, if_pos rfl]
    rw [← mem_getD, hget, Option.getD_some,
      SeqSet.mem_insert (wf_getD h _) hr.1 hr.2 (lastSeq_le r), mem_getD]
    simp
  · have hget : (add cov r)[o]? = cov[o]? := by rw [add, OrdMap.get_upsert, if_neg ho]
    simp [Mem, hget, ho]

/-- An origin has an entry after `add` when it had one or the range names it. -/
theorem isSome_add (cov : OriginCoverage) (r : OriginSeqRange) (o : NodeId) :
    (add cov r)[o]?.isSome ↔ r.origin = o ∨ cov[o]?.isSome := by
  rw [add, OrdMap.get_upsert]
  rcases eq_or_ne r.origin o with ho | ho
  · simp [ho]
  · simp [ho]

/-- Coverages with the same origins and the same members are equal. -/
theorem ext_mem {cov cov' : OriginCoverage} (hc : Wf cov) (hd : Wf cov')
    (hkeys : ∀ o : NodeId, cov[o]?.isSome ↔ cov'[o]?.isSome)
    (hmem : ∀ o n, Mem cov o n ↔ Mem cov' o n) : cov = cov' := by
  refine OrdMap.ext fun o => ?_
  have hk := hkeys o
  cases hco : cov[o]? with
  | none =>
    cases hdo : cov'[o]? with
    | none => rfl
    | some t => simp [hco, hdo] at hk
  | some s =>
    cases hdo : cov'[o]? with
    | none => simp [hco, hdo] at hk
    | some t =>
      have hst : s = t := by
        refine SeqSet.ext_mem (hc o s hco) (hd o t hdo) fun n => ?_
        have := hmem o n
        rwa [← mem_getD, ← mem_getD, hco, hdo] at this
      rw [hst]

/-- `Covers`, for a coverage list inserted range by range. -/
theorem mem_foldl_add : ∀ (rs : List OriginSeqRange) {cov : OriginCoverage}, Wf cov →
    (∀ r ∈ rs, ValidRange r) → Wf (rs.foldl add cov) ∧
      (∀ o n, Mem (rs.foldl add cov) o n ↔ Mem cov o n ∨ Covers rs o n) ∧
      ∀ o : NodeId, (rs.foldl add cov)[o]?.isSome ↔ cov[o]?.isSome ∨ ∃ r ∈ rs, r.origin = o := by
  intro rs
  induction rs with
  | nil =>
    intro cov h _
    simp [h, Covers]
  | cons r rs ih =>
    intro cov h hv
    have hr := hv r (by simp)
    obtain ⟨hwf, hmem, hkeys⟩ := ih (wf_add h hr)
      (fun q hq => hv q (by simp [hq]))
    rw [List.foldl_cons]
    refine ⟨hwf, fun o n => ?_, fun o => ?_⟩
    · rw [hmem o n, mem_add h hr, or_assoc]
      simp [Covers]
    · rw [hkeys o, isSome_add]
      simp only [List.mem_cons, exists_eq_or_imp]
      rw [or_comm (a := r.origin = o), or_assoc]

end OriginCoverage

/-! ### The completeness check -/

open OriginCoverage

/-- The ranges reported for one origin's gap are nonempty and hold its unexcused numbers. -/
theorem mem_excuse {losses : OriginCoverage} (hl : Wf losses) (o : NodeId) {first last : ℕ}
    (hfl : first ≤ last) (hlast : last < u64Max) (g : NodeId × ℕ × ℕ) :
    let out : List (NodeId × ℕ × ℕ) := match losses[o]? with
      | some excuse => (excuse.uncovered first last).map fun r => (o, r.1, r.2)
      | none => [(o, first, last)]
    (g ∈ out → g.1 = o ∧ g.2.1 ≤ g.2.2) ∧
      ∀ n, (∃ g ∈ out, g.2.1 ≤ n ∧ n ≤ g.2.2) ↔ first ≤ n ∧ n ≤ last ∧ ¬ Mem losses o n := by
  cases hs : losses[o]? with
  | none =>
    refine ⟨?_, fun n => ?_⟩
    · intro hg
      rw [List.mem_singleton.mp hg]
      exact ⟨rfl, hfl⟩
    · simp [OriginCoverage.Mem, hs]
  | some e =>
    have he := hl o e hs
    refine ⟨?_, fun n => ?_⟩
    · simp only [List.mem_map]
      rintro ⟨r, hr, rfl⟩
      exact ⟨rfl, SeqSet.uncovered_bounds _ _ _ r hr⟩
    · have hm : RangeList.Mem (e.uncovered first last) n ↔ first ≤ n ∧ n ≤ last ∧ ¬ e.Mem n :=
        SeqSet.mem_uncovered he hlast n
      have hmem : Mem losses o n ↔ e.Mem n := by simp [OriginCoverage.Mem, hs]
      rw [hmem, ← hm]
      simp only [List.mem_map, RangeList.Mem]
      constructor
      · rintro ⟨_, ⟨r, hr, rfl⟩, h⟩
        exact ⟨r, hr, h⟩
      · rintro ⟨r, hr, h⟩
        exact ⟨_, ⟨r, hr, rfl⟩, h⟩

/-- `unexcusedGaps` lists nonempty ranges, and holds exactly the numbers below an origin's maximum
    that are neither covered nor excused. -/
theorem mem_unexcusedGaps {cov losses : OriginCoverage} (hc : Wf cov) (hl : Wf losses) :
    (∀ g ∈ unexcusedGaps cov losses, g.2.1 ≤ g.2.2) ∧
    ∀ o n, (∃ g ∈ unexcusedGaps cov losses, g.1 = o ∧ g.2.1 ≤ n ∧ n ≤ g.2.2) ↔
      1 ≤ n ∧ ¬ Mem cov o n ∧ ¬ Mem losses o n ∧ ∃ k, Mem cov o k ∧ n < k := by
  have hgap : ∀ {o : NodeId} {s : SeqSet} {r : ℕ × ℕ}, cov[o]? = some s → r ∈ s.gaps → r.1 ≤ r.2 ∧ r.2 < u64Max :=
    fun hs hr => SeqSet.gaps_bounds (hc _ _ hs) _ hr
  simp only [unexcusedGaps, List.mem_flatMap, Prod.exists]
  refine ⟨?_, fun o n => ?_⟩
  · rintro g ⟨o, s, hs, a, b, hr, hg⟩
    have hb := hgap (OrdMap.mem_toList.mp hs) hr
    exact ((mem_excuse hl o hb.1 hb.2 g).1 hg).2
  · constructor
    · rintro ⟨g1, g2, g3, ⟨o', s, hs, a, b, hr, hg⟩, rfl, hn⟩
      have hs' := OrdMap.mem_toList.mp hs
      have hb := hgap hs' hr
      have hex := mem_excuse hl o' hb.1 hb.2 (g1, g2, g3)
      obtain rfl : g1 = o' := (hex.1 hg).1
      obtain ⟨h1, h2, h3⟩ := (hex.2 n).mp ⟨_, hg, hn⟩
      obtain ⟨h4, h5, k, hk, hnk⟩ := (SeqSet.mem_gaps (hc _ _ hs') n).mp ⟨(a, b), hr, h1, h2⟩
      exact ⟨h4, by simpa [OriginCoverage.Mem, hs'] using h5, h3, k, ⟨s, hs', hk⟩, hnk⟩
    · rintro ⟨h1, h2, h3, k, ⟨s, hs, hk⟩, hnk⟩
      have hns : ¬ s.Mem n := fun h => h2 ⟨s, hs, h⟩
      obtain ⟨⟨a, b⟩, hr, ha, hb⟩ := (SeqSet.mem_gaps (hc _ _ hs) n).mpr ⟨h1, hns, k, hk, hnk⟩
      have hbd := hgap hs hr
      obtain ⟨g, hg, hn⟩ := ((mem_excuse hl o hbd.1 hbd.2 (o, a, b)).2 n).mpr ⟨ha, hb, h3⟩
      have ho : g.1 = o := ((mem_excuse hl o hbd.1 hbd.2 g).1 hg).1
      exact ⟨g.1, g.2.1, g.2.2, ⟨o, s, OrdMap.mem_toList.mpr hs, a, b, hr, hg⟩, ho, hn⟩

/-- Every number up to an origin's maximum is covered or excused. -/
def GapFree (cov losses : OriginCoverage) : Prop :=
  ∀ o n, 1 ≤ n → (∃ k, Mem cov o k ∧ n ≤ k) → Mem cov o n ∨ Mem losses o n

/-- The completeness check of the advance rule decides `GapFree`. -/
theorem unexcusedGaps_isEmpty {cov losses : OriginCoverage} (hc : Wf cov) (hl : Wf losses) :
    (unexcusedGaps cov losses).isEmpty = true ↔ GapFree cov losses := by
  obtain ⟨hne, hmem⟩ := mem_unexcusedGaps hc hl
  rw [List.isEmpty_iff]
  constructor
  · intro hnil o n h1 ⟨k, hk, hnk⟩
    by_contra hcon
    rw [not_or] at hcon
    have hlt : n < k := lt_of_le_of_ne hnk fun h => hcon.1 (h ▸ hk)
    have := (hmem o n).mpr ⟨h1, hcon.1, hcon.2, k, hk, hlt⟩
    simp [hnil] at this
  · intro hfree
    by_contra hcon
    obtain ⟨g, hg⟩ := List.exists_mem_of_ne_nil _ hcon
    obtain ⟨h1, h2, h3, k, hk, hnk⟩ :=
      (hmem g.1 g.2.1).mp ⟨g, hg, rfl, le_rfl, hne g hg⟩
    rcases hfree g.1 g.2.1 h1 ⟨k, hk, hnk.le⟩ with h | h
    · exact h2 h
    · exact h3 h

/-- The coverage a list of ranges builds. -/
def OriginCoverage.ofRanges (rs : List OriginSeqRange) : OriginCoverage := rs.foldl add ∅

theorem OriginCoverage.ofRanges_spec {rs : List OriginSeqRange} (hrs : ∀ r ∈ rs, ValidRange r) :
    Wf (ofRanges rs) ∧ ∀ o n, Mem (ofRanges rs) o n ↔ Covers rs o n := by
  obtain ⟨hwf, hmem, -⟩ := mem_foldl_add rs wf_empty hrs
  refine ⟨hwf, fun o n => ?_⟩
  rw [ofRanges, hmem]
  simp

/-- **A `SeqSet` is a canonical representation.** Whatever ranges went in, and in whatever order, the stored ones are
    sorted and apart and hold exactly the inserted numbers, so sets with the same members are equal; the queries answer
    for that set; and the completeness check finds, origin by origin, what is neither committed nor lost. -/
theorem seqSet_canonical (rs : List (ℕ × ℕ)) (hrs : ∀ r ∈ rs, SeqSet.Insertable r) :
    Canonical (SeqSet.ofInserts rs).ranges ∧
    (∀ n, (SeqSet.ofInserts rs).Mem n ↔ ∃ r ∈ rs, r.1 ≤ n ∧ n ≤ r.2) ∧
    (∀ qs : List (ℕ × ℕ), (∀ q ∈ qs, SeqSet.Insertable q) →
      (∀ n, (∃ q ∈ qs, q.1 ≤ n ∧ n ≤ q.2) ↔ ∃ r ∈ rs, r.1 ≤ n ∧ n ≤ r.2) →
      SeqSet.ofInserts qs = SeqSet.ofInserts rs) ∧
    (∀ first last, first ≤ last → ((SeqSet.ofInserts rs).overlaps first last = true ↔
      ∃ n, (SeqSet.ofInserts rs).Mem n ∧ first ≤ n ∧ n ≤ last)) ∧
    (∀ n, (∃ g ∈ (SeqSet.ofInserts rs).gaps, g.1 ≤ n ∧ n ≤ g.2) ↔
      1 ≤ n ∧ ¬ (SeqSet.ofInserts rs).Mem n ∧ ∃ k, (SeqSet.ofInserts rs).Mem k ∧ n < k) ∧
    (∀ g ∈ (SeqSet.ofInserts rs).gaps, g.1 ≤ g.2 ∧ g.2 < u64Max) ∧
    (∀ first last, last < u64Max → ∀ n, (∃ g ∈ (SeqSet.ofInserts rs).uncovered first last, g.1 ≤ n ∧ n ≤ g.2) ↔
      first ≤ n ∧ n ≤ last ∧ ¬ (SeqSet.ofInserts rs).Mem n) ∧
    ∀ committed lost : List OriginSeqRange, (∀ r ∈ committed, ValidRange r) → (∀ r ∈ lost, ValidRange r) →
      ∀ o n, (∃ g ∈ unexcusedGaps (ofRanges committed) (ofRanges lost), g.1 = o ∧ g.2.1 ≤ n ∧ n ≤ g.2.2) ↔
        1 ≤ n ∧ (∃ k, Covers committed o k ∧ n < k) ∧ ¬ Covers committed o n ∧ ¬ Covers lost o n := by
  obtain ⟨hwf, hmem⟩ := SeqSet.ofInserts_spec hrs
  refine ⟨hwf.canonical, hmem, fun qs hqs hsame => ?_, fun first last hfl => SeqSet.overlaps_iff hwf hfl,
    SeqSet.mem_gaps hwf, SeqSet.gaps_bounds hwf, fun first last hl => SeqSet.mem_uncovered hwf hl, ?_⟩
  · obtain ⟨hwf', hmem'⟩ := SeqSet.ofInserts_spec hqs
    refine SeqSet.ext_mem hwf' hwf fun n => ?_
    rw [hmem, hmem']
    exact hsame n
  · intro committed lost hcommitted hlost o n
    obtain ⟨hc, hcmem⟩ := ofRanges_spec hcommitted
    obtain ⟨hl, hlmem⟩ := ofRanges_spec hlost
    rw [(mem_unexcusedGaps hc hl).2 o n]
    simp only [hcmem, hlmem]
    tauto

/-- Ranges that touch, out of order, and one that ends at the last 64-bit number. -/
theorem seqSet_canonical_touching :
    SeqSet.ofInserts [(5, 8), (1, 2), (10, u64Max), (3, 4)] = SeqSet.ofInserts [(1, 8), (10, u64Max)] ∧
    ∀ n, (∃ g ∈ (SeqSet.ofInserts [(1, 8), (10, u64Max)]).gaps, g.1 ≤ n ∧ n ≤ g.2) ↔ n = 9 := by
  have hrs : ∀ r ∈ [(1, 8), (10, u64Max)], SeqSet.Insertable r := by
    simp [SeqSet.Insertable, u64Max]
  have hmax : 10 < u64Max := by decide
  obtain ⟨-, hmem, hsame, -, hgaps, -⟩ := seqSet_canonical [(1, 8), (10, u64Max)] hrs
  refine ⟨hsame _ (by simp [SeqSet.Insertable, u64Max]) fun n => ?_, fun n => ?_⟩
  · simp only [List.exists_mem_cons_iff, List.not_mem_nil, false_and, exists_false, or_false]
    omega
  · rw [hgaps]
    simp only [hmem, List.exists_mem_cons_iff, List.not_mem_nil, false_and, exists_false, or_false]
    constructor
    · rintro ⟨h1, hout, k, hk, hlt⟩
      omega
    · rintro rfl
      exact ⟨by omega, by omega, 10, by omega, by omega⟩

/-- More losses excuse more. -/
theorem gapFree_mono {cov l l' : OriginCoverage} (h : GapFree cov l)
    (hl : ∀ o n, Mem l o n → Mem l' o n) : GapFree cov l' := fun o n h1 hk =>
  (h o n h1 hk).imp_right (hl o n)

end Duckspout
