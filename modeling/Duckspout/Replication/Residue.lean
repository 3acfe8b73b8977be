import Duckspout.Types
import Duckspout.Lib.Ranges

/-! The residue of a takeover (`compute_residue` of `duckspout-replication/src/takeover.rs`): a window's coverage less
    what its dead owner had already committed.

    Each range is cut by the committed ranges that meet it, in order, with a cursor that moves past every cut. Bounds
    are 64-bit values, kept as naturals while a range is cut. -/

namespace Duckspout

open RangeList

/-- The parts of the committed ranges that lie in the range, in order. -/
def cutsOf (winnerCoverage : List OriginSeqRange) (range : OriginSeqRange) : List (ℕ × ℕ) :=
  let meeting := winnerCoverage.filter fun winner =>
    winner.origin = range.origin ∧ winner.firstSeq ≤ range.lastSeq ∧ winner.lastSeq ≥ range.firstSeq
  (meeting.map fun winner => ((max winner.firstSeq range.firstSeq : ℕ), (min winner.lastSeq range.lastSeq : ℕ))).insertionSort
    RangeList.le

/-- What the cuts leave from the cursor to the end of a range. -/
def subtractCuts (lastSeq : ℕ) : List (ℕ × ℕ) → ℕ → List (ℕ × ℕ)
  | [], cursor => if cursor ≤ lastSeq then [(cursor, lastSeq)] else []
  | (cutFirst, cutLast) :: cuts, cursor =>
    if cutFirst > cursor then
      (cursor, cutFirst - 1) :: subtractCuts lastSeq cuts (max cursor (saturatingSucc cutLast))
    else subtractCuts lastSeq cuts (max cursor (saturatingSucc cutLast))

/-- The window's coverage without the winner's, origin by origin. -/
def computeResidue (windowCoverage winnerCoverage : List OriginSeqRange) : List OriginSeqRange :=
  windowCoverage.flatMap fun range =>
    (subtractCuts range.lastSeq (cutsOf winnerCoverage range) range.firstSeq).map fun piece =>
      ⟨range.origin, Fin.ofNat (2 ^ 64) piece.1, Fin.ofNat (2 ^ 64) piece.2⟩

/-! ### One range -/

/-- The pieces are nonempty and end within the range. -/
theorem bounds_subtractCuts {lastSeq : ℕ} {cuts : List (ℕ × ℕ)} {cursor : ℕ} (hcuts : ∀ cut ∈ cuts, cut.1 ≤ lastSeq) :
    ∀ piece ∈ subtractCuts lastSeq cuts cursor, piece.1 ≤ piece.2 ∧ piece.2 ≤ lastSeq := by
  fun_induction subtractCuts lastSeq cuts cursor with
  | case1 cursor h => simpa using h
  | case2 cursor h => simp
  | case3 cutFirst cutLast cuts cursor h ih =>
    have hfirst : cutFirst ≤ lastSeq := hcuts (cutFirst, cutLast) (by simp)
    refine List.forall_mem_cons.mpr ⟨?_, ih fun cut hcut => hcuts cut (by simp [hcut])⟩
    simp only
    omega
  | case4 cutFirst cutLast cuts cursor h ih => exact ih fun cut hcut => hcuts cut (by simp [hcut])

/-- Where no cut ends at the last 64-bit number, the pieces are the numbers outside the cuts. -/
theorem mem_subtractCuts {lastSeq : ℕ} {cuts : List (ℕ × ℕ)} {cursor : ℕ}
    (hsorted : cuts.Pairwise fun a b => a.1 ≤ b.1)
    (hcuts : ∀ cut ∈ cuts, cut.1 ≤ cut.2 ∧ cut.2 ≤ lastSeq ∧ cut.2 < u64Max) (n : ℕ) :
    RangeList.Mem (subtractCuts lastSeq cuts cursor) n ↔ cursor ≤ n ∧ n ≤ lastSeq ∧ ¬ RangeList.Mem cuts n := by
  fun_induction subtractCuts lastSeq cuts cursor with
  | case1 cursor h => simp
  | case2 cursor h =>
    simp only [RangeList.mem_nil, not_false_eq_true, and_true, false_iff]
    omega
  | case3 cutFirst cutLast cuts cursor h ih =>
    obtain ⟨hfirst, hsorted⟩ := List.pairwise_cons.mp hsorted
    have hcut : cutFirst ≤ cutLast ∧ cutLast ≤ lastSeq ∧ cutLast < u64Max := hcuts (cutFirst, cutLast) (by simp)
    rw [RangeList.mem_cons, RangeList.mem_cons, ih hsorted fun cut hcut => hcuts cut (by simp [hcut])]
    by_cases hn : RangeList.Mem cuts n
    · have hle : cutFirst ≤ n := by
        obtain ⟨cut, hmem, hlo, -⟩ := hn
        exact (hfirst cut hmem).trans hlo
      simp only [hn, not_true_eq_false, and_false, or_false, or_true, iff_false]
      omega
    · simp only [hn, not_false_eq_true, and_true, or_false, saturatingSucc]
      omega
  | case4 cutFirst cutLast cuts cursor h ih =>
    have hcut : cutFirst ≤ cutLast ∧ cutLast ≤ lastSeq ∧ cutLast < u64Max := hcuts (cutFirst, cutLast) (by simp)
    rw [RangeList.mem_cons, ih (List.pairwise_cons.mp hsorted).2 fun cut hcut => hcuts cut (by simp [hcut])]
    by_cases hn : RangeList.Mem cuts n
    · simp [hn]
    · simp only [hn, not_false_eq_true, and_true, or_false, saturatingSucc]
      omega

/-- A range that ends at the last 64-bit number keeps it, whatever is cut: the cursor cannot pass it. -/
theorem mem_subtractCuts_max {cuts : List (ℕ × ℕ)} {cursor : ℕ} (hcursor : cursor ≤ u64Max) :
    RangeList.Mem (subtractCuts u64Max cuts cursor) u64Max := by
  fun_induction subtractCuts u64Max cuts cursor with
  | case1 cursor h => simpa using h
  | case2 cursor h => exact absurd hcursor h
  | case3 cutFirst cutLast cuts cursor h ih =>
    rw [RangeList.mem_cons]
    exact Or.inr (ih (max_le hcursor (min_le_right _ _)))
  | case4 cutFirst cutLast cuts cursor h ih => exact ih (max_le hcursor (min_le_right _ _))

/-! ### The cuts -/

theorem pairwise_cutsOf (winnerCoverage : List OriginSeqRange) (range : OriginSeqRange) :
    (cutsOf winnerCoverage range).Pairwise fun a b => a.1 ≤ b.1 := by
  refine (List.pairwise_insertionSort RangeList.le _).imp fun {a b} hle => ?_
  rcases hle with hlt | ⟨heq, -⟩
  · exact hlt.le
  · exact heq.le

theorem mem_cutsOf {winnerCoverage : List OriginSeqRange} {range : OriginSeqRange} {cut : ℕ × ℕ} :
    cut ∈ cutsOf winnerCoverage range ↔ ∃ winner ∈ winnerCoverage, winner.origin = range.origin ∧
      winner.firstSeq ≤ range.lastSeq ∧ winner.lastSeq ≥ range.firstSeq ∧
      cut = ((max winner.firstSeq range.firstSeq : ℕ), (min winner.lastSeq range.lastSeq : ℕ)) := by
  simp only [cutsOf, List.mem_insertionSort, List.mem_map, List.mem_filter, decide_eq_true_eq]
  constructor
  · rintro ⟨winner, ⟨hmem, horigin, hfirst, hlast⟩, rfl⟩
    exact ⟨winner, hmem, horigin, hfirst, hlast, rfl⟩
  · rintro ⟨winner, hmem, horigin, hfirst, hlast, rfl⟩
    exact ⟨winner, ⟨hmem, horigin, hfirst, hlast⟩, rfl⟩

/-- The cuts are what the winner covers of the range. -/
theorem rangeListMem_cutsOf {winnerCoverage : List OriginSeqRange} {range : OriginSeqRange} {n : ℕ}
    (hfirst : (range.firstSeq : ℕ) ≤ n) (hlast : n ≤ range.lastSeq) :
    RangeList.Mem (cutsOf winnerCoverage range) n ↔ Covers winnerCoverage range.origin n := by
  constructor
  · rintro ⟨cut, hcut, hlo, hhi⟩
    obtain ⟨winner, hmem, horigin, -, -, rfl⟩ := mem_cutsOf.mp hcut
    exact ⟨winner, hmem, horigin, le_trans (le_max_left _ _) hlo, le_trans hhi (min_le_left _ _)⟩
  · rintro ⟨winner, hmem, horigin, hlo, hhi⟩
    refine ⟨_, mem_cutsOf.mpr ⟨winner, hmem, horigin, ?_, ?_, rfl⟩, max_le hlo hfirst, le_min hhi hlast⟩
    · exact Fin.le_def.mpr (hlo.trans hlast)
    · exact Fin.le_def.mpr (hfirst.trans hhi)

/-- No window range ends at the last 64-bit number together with a winner's range of the same origin. -/
def SpareMax (windowCoverage winnerCoverage : List OriginSeqRange) : Prop :=
  ∀ range ∈ windowCoverage, ∀ winner ∈ winnerCoverage, winner.origin = range.origin →
    ¬ ((range.lastSeq : ℕ) = u64Max ∧ (winner.lastSeq : ℕ) = u64Max)

instance (windowCoverage winnerCoverage : List OriginSeqRange) : Decidable (SpareMax windowCoverage winnerCoverage) :=
  inferInstanceAs (Decidable (∀ range ∈ windowCoverage, ∀ winner ∈ winnerCoverage, winner.origin = range.origin →
    ¬ ((range.lastSeq : ℕ) = u64Max ∧ (winner.lastSeq : ℕ) = u64Max)))

theorem lt_of_mem_cutsOf {winnerCoverage : List OriginSeqRange} {range : OriginSeqRange} {cut : ℕ × ℕ}
    (hspare : SpareMax [range] winnerCoverage) (hcut : cut ∈ cutsOf winnerCoverage range) : cut.2 < u64Max := by
  obtain ⟨winner, hmem, horigin, -, -, rfl⟩ := mem_cutsOf.mp hcut
  have hnot := hspare range (by simp) winner hmem horigin
  have hrange := range.lastSeq.isLt
  have hwinner := winner.lastSeq.isLt
  simp only [u64Max] at hnot ⊢
  omega

/-! ### The residue -/

section Residue

variable {windowCoverage winnerCoverage : List OriginSeqRange}

/-- The pieces of a range fit 64 bits. -/
theorem subtractCuts_cutsOf_lt {range : OriginSeqRange} (hwf : range.firstSeq ≤ range.lastSeq) {piece : ℕ × ℕ}
    (hpiece : piece ∈ subtractCuts range.lastSeq (cutsOf winnerCoverage range) range.firstSeq) :
    piece.1 ≤ piece.2 ∧ piece.2 < 2 ^ 64 := by
  have hcuts : ∀ cut ∈ cutsOf winnerCoverage range, cut.1 ≤ (range.lastSeq : ℕ) := by
    intro cut hcut
    obtain ⟨winner, -, -, hfirst, -, rfl⟩ := mem_cutsOf.mp hcut
    exact max_le hfirst hwf
  obtain ⟨hle, hlast⟩ := bounds_subtractCuts hcuts piece hpiece
  exact ⟨hle, hlast.trans_lt range.lastSeq.isLt⟩

theorem mem_computeResidue (hwf : ∀ range ∈ windowCoverage, range.firstSeq ≤ range.lastSeq) {piece : OriginSeqRange} :
    piece ∈ computeResidue windowCoverage winnerCoverage ↔ ∃ range ∈ windowCoverage, piece.origin = range.origin ∧
      ((piece.firstSeq : ℕ), (piece.lastSeq : ℕ)) ∈
        subtractCuts range.lastSeq (cutsOf winnerCoverage range) range.firstSeq := by
  simp only [computeResidue, List.mem_flatMap, List.mem_map]
  constructor
  · rintro ⟨range, hrange, p, hp, rfl⟩
    obtain ⟨hle, hlt⟩ := subtractCuts_cutsOf_lt (hwf range hrange) hp
    refine ⟨range, hrange, rfl, ?_⟩
    rw [Fin.val_ofNat, Fin.val_ofNat, Nat.mod_eq_of_lt (hle.trans_lt hlt), Nat.mod_eq_of_lt hlt]
    exact hp
  · rintro ⟨range, hrange, horigin, hp⟩
    refine ⟨range, hrange, _, hp, ?_⟩
    obtain ⟨origin, firstSeq, lastSeq⟩ := piece
    simp_all

/-- What the residue covers, number by number. -/
theorem covers_computeResidue (hwf : ∀ range ∈ windowCoverage, range.firstSeq ≤ range.lastSeq) {o : NodeId} {n : ℕ} :
    Covers (computeResidue windowCoverage winnerCoverage) o n ↔ ∃ range ∈ windowCoverage, range.origin = o ∧
      RangeList.Mem (subtractCuts range.lastSeq (cutsOf winnerCoverage range) range.firstSeq) n := by
  constructor
  · rintro ⟨piece, hpiece, rfl, hlo, hhi⟩
    obtain ⟨range, hrange, horigin, hp⟩ := (mem_computeResidue hwf).mp hpiece
    exact ⟨range, hrange, horigin.symm, _, hp, hlo, hhi⟩
  · rintro ⟨range, hrange, rfl, p, hp, hlo, hhi⟩
    obtain ⟨hle, hlt⟩ := subtractCuts_cutsOf_lt (hwf range hrange) hp
    refine ⟨⟨range.origin, Fin.ofNat (2 ^ 64) p.1, Fin.ofNat (2 ^ 64) p.2⟩, ?_, rfl, ?_, ?_⟩
    · exact List.mem_flatMap.mpr ⟨range, hrange, List.mem_map.mpr ⟨p, hp, rfl⟩⟩
    · exact (Nat.mod_le _ _).trans hlo
    · rw [Fin.val_ofNat, Nat.mod_eq_of_lt hlt]
      exact hhi

/-- Away from the last 64-bit number the residue covers the difference. -/
theorem covers_residue_iff (hwf : ∀ range ∈ windowCoverage, range.firstSeq ≤ range.lastSeq)
    (hwinner : ∀ winner ∈ winnerCoverage, winner.firstSeq ≤ winner.lastSeq)
    (hspare : SpareMax windowCoverage winnerCoverage) (o : NodeId) (n : ℕ) :
    Covers (computeResidue windowCoverage winnerCoverage) o n ↔
      Covers windowCoverage o n ∧ ¬ Covers winnerCoverage o n := by
  have hrange : ∀ range ∈ windowCoverage,
      (RangeList.Mem (subtractCuts range.lastSeq (cutsOf winnerCoverage range) range.firstSeq) n ↔
        ((range.firstSeq : ℕ) ≤ n ∧ n ≤ range.lastSeq) ∧ ¬ Covers winnerCoverage range.origin n) := by
    intro range hmem
    have hcuts : ∀ cut ∈ cutsOf winnerCoverage range,
        cut.1 ≤ cut.2 ∧ cut.2 ≤ (range.lastSeq : ℕ) ∧ cut.2 < u64Max := by
      intro cut hcut
      refine ⟨?_, ?_, lt_of_mem_cutsOf (fun r hr => hspare r (List.mem_singleton.mp hr ▸ hmem)) hcut⟩
      all_goals
        obtain ⟨winner, hin, -, hfirst, hlast, rfl⟩ := mem_cutsOf.mp hcut
        have hr := Fin.le_def.mp (hwf range hmem)
        have hw := Fin.le_def.mp (hwinner winner hin)
        have h1 := Fin.le_def.mp hfirst
        have h2 := Fin.le_def.mp hlast
        dsimp only
        omega
    rw [mem_subtractCuts (pairwise_cutsOf winnerCoverage range) hcuts, ← and_assoc]
    refine and_congr_right fun hin => ?_
    rw [rangeListMem_cutsOf hin.1 hin.2]
  rw [covers_computeResidue hwf]
  constructor
  · rintro ⟨range, hmem, rfl, hn⟩
    obtain ⟨hin, hnot⟩ := (hrange range hmem).mp hn
    exact ⟨⟨range, hmem, rfl, hin.1, hin.2⟩, hnot⟩
  · rintro ⟨⟨range, hmem, rfl, hlo, hhi⟩, hnot⟩
    exact ⟨range, hmem, rfl, (hrange range hmem).mpr ⟨⟨hlo, hhi⟩, hnot⟩⟩

end Residue

/-- The residue is well formed, disjoint from the winner's coverage and exactly the difference, if and only if no range
    of the window ends at the last 64-bit number together with one of the winner of the same origin. -/
theorem residue_exact_iff (windowCoverage winnerCoverage : List OriginSeqRange)
    (hwindow : ∀ range ∈ windowCoverage, range.firstSeq ≤ range.lastSeq)
    (hwinner : ∀ winner ∈ winnerCoverage, winner.firstSeq ≤ winner.lastSeq) :
    ((∀ piece ∈ computeResidue windowCoverage winnerCoverage, piece.firstSeq ≤ piece.lastSeq ∧
        ∀ n, piece.Has piece.origin n → ¬ Covers winnerCoverage piece.origin n) ∧
      ∀ o n, Covers (computeResidue windowCoverage winnerCoverage) o n ↔
        Covers windowCoverage o n ∧ ¬ Covers winnerCoverage o n) ↔
    SpareMax windowCoverage winnerCoverage := by
  constructor
  · rintro ⟨-, hexact⟩ range hrange winner hmem horigin ⟨hlast, hwlast⟩
    -- the number 2^64 - 1 stays in the residue, and the winner covers it
    have hin : Covers (computeResidue windowCoverage winnerCoverage) range.origin u64Max := by
      refine (covers_computeResidue hwindow).mpr ⟨range, hrange, rfl, ?_⟩
      rw [hlast]
      exact mem_subtractCuts_max (hlast ▸ hwindow range hrange)
    refine ((hexact range.origin u64Max).mp hin).2 ⟨winner, hmem, horigin, ?_, hwlast.ge⟩
    rw [← hwlast]
    exact hwinner winner hmem
  · intro hspare
    have hexact := covers_residue_iff hwindow hwinner hspare
    refine ⟨fun piece hpiece => ⟨?_, fun n hn => ?_⟩, hexact⟩
    · obtain ⟨range, hrange, -, hp⟩ := (mem_computeResidue hwindow).mp hpiece
      exact (subtractCuts_cutsOf_lt (hwindow range hrange) hp).1
    · exact ((hexact piece.origin n).mp ⟨piece, hpiece, hn⟩).2

theorem residue_exact_nested :
    let window : List OriginSeqRange := [⟨⟨"o1"⟩, 1, 20⟩]
    let winner : List OriginSeqRange := [⟨⟨"o1"⟩, 15, 30⟩, ⟨⟨"o1"⟩, 3, 8⟩, ⟨⟨"o1"⟩, 4, 5⟩]
    computeResidue window winner = [⟨⟨"o1"⟩, 1, 2⟩, ⟨⟨"o1"⟩, 9, 14⟩] ∧
    ∀ o n, Covers (computeResidue window winner) o n ↔ Covers window o n ∧ ¬ Covers winner o n := by
  intro window winner
  exact ⟨by decide, ((residue_exact_iff window winner (by decide) (by decide)).mpr (by decide)).2⟩

/-- A window that the winner covers entirely, up to the last 64-bit number, leaves that number behind. -/
theorem residue_keeps_max :
    let whole : List OriginSeqRange := [⟨⟨"o1"⟩, 1, 18446744073709551615⟩]
    computeResidue whole whole = [⟨⟨"o1"⟩, 18446744073709551615, 18446744073709551615⟩] ∧
    Covers whole ⟨"o1"⟩ 18446744073709551615 := by
  decide

end Duckspout
