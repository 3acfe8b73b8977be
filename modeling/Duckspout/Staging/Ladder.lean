import Duckspout.Lib.Checked
import Duckspout.Staging.Stager

/-! The overload ladder and what scales with it (`duckspout-types/src/status.rs`): the rung, the retry
    delay and the per-query budget, each a function of the staged bytes and their maximum.

    The rung compares cross-multiplied sizes, the delay and the budget a truncated permille. Each is
    given twice: by its value over the naturals, and operation by operation in the widths of the
    source, where an overflow or a division by zero has no value. -/

namespace Duckspout

/-- The rung a status sits on; the two labels of the first are one rung. -/
def OverloadStatus.rung : OverloadStatus → ℕ
  | .normal => 0
  | .stagingPressure | .drainStalled => 1
  | .throttling => 2
  | .refusingIngest => 3

def queryBudgetMaxScale : ℕ := 2

/-- The staged size in permille of the maximum, saturating at the 64-bit width. -/
def permille (stagedBytes maxBytes : U64) : ℕ := min ((stagedBytes : ℕ) * 1000 / maxBytes) u64Max

/-- The per-query byte budget: the base up to the disclosure threshold, twice the base when full. -/
def fillScaledBudget (baseBytes stagedBytes maxBytes : U64) : ℕ :=
  if maxBytes = 0 then baseBytes
  else
    let onset := ladderDisclosePercent * 10
    if permille stagedBytes maxBytes ≤ onset then baseBytes
    else
      let span := ladderRefusePercent * 10 - onset
      let position := min (permille stagedBytes maxBytes - onset) span
      let extra := min ((baseBytes : ℕ) * (queryBudgetMaxScale - 1) * position / span) u64Max
      min (baseBytes + extra) u64Max

/-! ### In the widths of the source -/

/-- `M ≥ p%`, cross-multiplied in 128 bits. -/
def atLeastChecked (stagedBytes maxBytes : U64) (percent : ℕ) : Option Bool := do
  let staged ← Checked.mul 128 stagedBytes 100
  let threshold ← Checked.mul 128 maxBytes percent
  return threshold ≤ staged

def OverloadStatus.fromMeasureChecked (stagedBytes maxBytes : U64) (drainStalled : Bool) :
    Option OverloadStatus := do
  if maxBytes = 0 then return .refusingIngest
  if ← atLeastChecked stagedBytes maxBytes ladderRefusePercent then return .refusingIngest
  if ← atLeastChecked stagedBytes maxBytes ladderThrottlePercent then return .throttling
  if ← atLeastChecked stagedBytes maxBytes ladderDisclosePercent then
    return if drainStalled then .drainStalled else .stagingPressure
  return .normal

/-- The permille, multiplied and divided in 128 bits and then narrowed. -/
def permilleChecked (stagedBytes maxBytes : U64) : Option ℕ := do
  let scaled ← Checked.mul 128 stagedBytes 1000
  let quotient ← Checked.div scaled maxBytes
  return min quotient u64Max

def throttleRetryDelayMsChecked (stagedBytes maxBytes : U64) : Option ℕ := do
  if maxBytes = 0 then return throttleRetryMaxMs
  let permille ← permilleChecked stagedBytes maxBytes
  let floor ← Checked.mul 64 ladderThrottlePercent 10
  let ceiling ← Checked.mul 64 ladderRefusePercent 10
  if ceiling ≤ permille then return throttleRetryMaxMs
  -- a saturating subtraction
  let position := permille - floor
  let span ← Checked.sub ceiling floor
  let range ← Checked.sub throttleRetryMaxMs throttleRetryMinMs
  let scaled ← Checked.mul 64 range position
  Checked.add 64 throttleRetryMinMs (← Checked.div scaled span)

def fillScaledBudgetChecked (baseBytes stagedBytes maxBytes : U64) : Option ℕ := do
  if maxBytes = 0 then return baseBytes
  let permille ← permilleChecked stagedBytes maxBytes
  let onset ← Checked.mul 64 ladderDisclosePercent 10
  if permille ≤ onset then return baseBytes
  let span ← Checked.sub (← Checked.mul 64 ladderRefusePercent 10) onset
  let position := min (← Checked.sub permille onset) span
  let scale ← Checked.sub queryBudgetMaxScale 1
  let scaled ← Checked.mul 128 (← Checked.mul 128 baseBytes scale) position
  let extra := min (← Checked.div scaled span) u64Max
  -- a saturating addition
  return min (baseBytes + extra) u64Max

variable {s s' m m' b b' : U64} {d d' : Bool}

theorem permilleChecked_eq (s : U64) (hm : m ≠ 0) : permilleChecked s m = some (permille s m) := by
  have hscaled : (s : ℕ) * 1000 < 2 ^ 128 := by omega
  have hm' : (m : ℕ) ≠ 0 := fun h => hm (Fin.ext h)
  simp [permilleChecked, permille, Checked.mul_eq hscaled, Checked.div_eq hm']

theorem atLeastChecked_eq (s m : U64) {percent : ℕ} (h : percent ≤ 100) :
    atLeastChecked s m percent = some (decide ((m : ℕ) * percent ≤ s * 100)) := by
  have hstaged : (s : ℕ) * 100 < 2 ^ 128 := by omega
  have hmax : (m : ℕ) * percent < 2 ^ 128 := by
    have hle : (m : ℕ) * percent ≤ m * 100 := Nat.mul_le_mul_left _ h
    omega
  simp [atLeastChecked, Checked.mul_eq hstaged, Checked.mul_eq hmax]

theorem fromMeasureChecked_eq (s m : U64) (d : Bool) :
    OverloadStatus.fromMeasureChecked s m d = some (.fromMeasure s m d) := by
  rw [OverloadStatus.fromMeasureChecked, OverloadStatus.fromMeasure,
    atLeastChecked_eq s m (by decide : ladderRefusePercent ≤ 100),
    atLeastChecked_eq s m (by decide : ladderThrottlePercent ≤ 100),
    atLeastChecked_eq s m (by decide : ladderDisclosePercent ≤ 100)]
  split_ifs <;> simp [*]

theorem throttleRetryDelayMs_permille (s m : U64) : throttleRetryDelayMs s m =
    if m = 0 then 30000 else if 1000 ≤ permille s m then 30000 else 1000 + 29000 * (permille s m - 950) / 50 := rfl

theorem fillScaledBudget_permille (b s m : U64) : fillScaledBudget b s m =
    if m = 0 then (b : ℕ) else if permille s m ≤ 800 then (b : ℕ) else
      min (b + min ((b : ℕ) * 1 * min (permille s m - 800) 200 / 200) u64Max) u64Max := rfl

theorem throttleRetryDelayMsChecked_eq (s m : U64) :
    throttleRetryDelayMsChecked s m = some (throttleRetryDelayMs s m) := by
  rw [throttleRetryDelayMs_permille, throttleRetryDelayMsChecked]
  by_cases hm : m = 0
  · simp [hm, throttleRetryMaxMs]
  · rw [permilleChecked_eq s hm, Checked.mul_eq (by decide), Checked.mul_eq (by decide)]
    simp only [if_neg hm, Option.pure_def, Option.bind_eq_bind, Option.bind_some, ladderThrottlePercent,
      ladderRefusePercent, throttleRetryMaxMs, throttleRetryMinMs, Nat.reduceMul]
    split_ifs with hfull
    · rfl
    · have hscaled : 29000 * (permille s m - 950) < 2 ^ 64 := by omega
      have hsum : 1000 + 29000 * (permille s m - 950) / 50 < 2 ^ 64 := by omega
      rw [Checked.sub_eq (by decide), Checked.sub_eq (by decide)]
      simp only [Option.bind_some, Nat.reduceSub]
      rw [Checked.mul_eq hscaled, Option.bind_some, Checked.div_eq (by decide), Option.bind_some,
        Checked.add_eq hsum]

theorem fillScaledBudgetChecked_eq (b s m : U64) :
    fillScaledBudgetChecked b s m = some (fillScaledBudget b s m) := by
  rw [fillScaledBudget_permille, fillScaledBudgetChecked]
  by_cases hm : m = 0
  · simp [hm]
  · rw [permilleChecked_eq s hm, Checked.mul_eq (by decide), Checked.mul_eq (by decide)]
    simp only [if_neg hm, Option.pure_def, Option.bind_eq_bind, Option.bind_some, ladderDisclosePercent,
      ladderRefusePercent, queryBudgetMaxScale, Nat.reduceMul]
    split_ifs with hlow
    · rfl
    · have hbase : (b : ℕ) * 1 < 2 ^ 128 := by omega
      have hscaled : (b : ℕ) * 1 * min (permille s m - 800) 200 < 2 ^ 128 := by
        have hle : (b : ℕ) * 1 * min (permille s m - 800) 200 ≤ b * 1 * 200 :=
          Nat.mul_le_mul_left _ (min_le_right _ _)
        omega
      rw [Checked.sub_eq (by decide), Checked.sub_eq (by omega), Checked.sub_eq (by decide)]
      simp only [Option.bind_some, Nat.reduceSub]
      rw [Checked.mul_eq hbase, Option.bind_some, Checked.mul_eq hscaled, Option.bind_some,
        Checked.div_eq (by decide), Option.bind_some]

/-! ### The permille and the rung -/

theorem pos_of_ne_zero (hm : m ≠ 0) : 0 < (m : ℕ) := Nat.pos_of_ne_zero fun h => hm (Fin.ext h)

/-- A bound of the permille is a cross-multiplied bound. -/
theorem le_permille (hm : m ≠ 0) {p : ℕ} (hp : p ≤ u64Max) : p ≤ permille s m ↔ (m : ℕ) * p ≤ s * 1000 := by
  rw [permille, le_min_iff, Nat.le_div_iff_mul_le (pos_of_ne_zero hm), Nat.mul_comm]
  exact and_iff_left hp

theorem permille_mono (h : s ≤ s') : permille s m ≤ permille s' m :=
  min_le_min_right _ (Nat.div_le_div_right (Nat.mul_le_mul_right _ h))

theorem permille_anti (hm : m ≠ 0) (h : m ≤ m') : permille s m' ≤ permille s m :=
  min_le_min_right _ (Nat.div_le_div_left h (pos_of_ne_zero hm))

/-- The rung by its cross-multiplied thresholds; a zero maximum is at or above each of them. -/
theorem rung_fromMeasure (s m : U64) (d : Bool) : (OverloadStatus.fromMeasure s m d).rung =
    if (m : ℕ) * 100 ≤ s * 100 then 3
    else if (m : ℕ) * 95 ≤ s * 100 then 2 else if (m : ℕ) * 80 ≤ s * 100 then 1 else 0 := by
  by_cases hm : m = 0
  · simp [hm, OverloadStatus.fromMeasure, OverloadStatus.rung]
  · have hmeasure : OverloadStatus.fromMeasure s m d =
        if (m : ℕ) * 100 ≤ s * 100 then .refusingIngest
        else if (m : ℕ) * 95 ≤ s * 100 then .throttling
        else if (m : ℕ) * 80 ≤ s * 100 then if d then .drainStalled else .stagingPressure
        else .normal := by
      rw [OverloadStatus.fromMeasure, if_neg hm]
      rfl
    rw [hmeasure]
    split_ifs <;> rfl

theorem rung_mono (h : s ≤ s') (d d' : Bool) :
    (OverloadStatus.fromMeasure s m d).rung ≤ (OverloadStatus.fromMeasure s' m d').rung := by
  have hle : (s : ℕ) ≤ s' := h
  rw [rung_fromMeasure, rung_fromMeasure]
  split_ifs <;> omega

theorem rung_anti (h : m ≤ m') (d d' : Bool) :
    (OverloadStatus.fromMeasure s m' d').rung ≤ (OverloadStatus.fromMeasure s m d).rung := by
  have hle : (m : ℕ) ≤ m' := h
  rw [rung_fromMeasure, rung_fromMeasure]
  split_ifs <;> omega

theorem refusing_iff : OverloadStatus.fromMeasure s m d = .refusingIngest ↔ m ≤ s := by
  have hrung : OverloadStatus.fromMeasure s m d = .refusingIngest ↔
      (OverloadStatus.fromMeasure s m d).rung = 3 := by
    cases OverloadStatus.fromMeasure s m d <;> simp [OverloadStatus.rung]
  rw [hrung, rung_fromMeasure, Fin.le_def]
  split_ifs with h3 <;> simp <;> omega

theorem full_permille (hm : m ≠ 0) : 1000 ≤ permille s m ↔ m ≤ s := by
  rw [le_permille hm (by decide), Fin.le_def]
  omega

/-- Below the throttling rung the permille is below the throttling threshold. -/
theorem permille_of_rung_lt_two (h : (OverloadStatus.fromMeasure s m d).rung < 2) : m ≠ 0 ∧ permille s m < 950 := by
  rw [rung_fromMeasure] at h
  have hm : m ≠ 0 := by
    rintro rfl
    simp at h
  refine ⟨hm, lt_of_not_ge fun hp => ?_⟩
  rw [le_permille hm (by decide)] at hp
  split_ifs at h <;> omega

/-- With nothing disclosed it is below the disclosure threshold. -/
theorem permille_of_normal (h : OverloadStatus.fromMeasure s m d = .normal) : m ≠ 0 ∧ permille s m < 800 := by
  have hrung := rung_fromMeasure s m d
  rw [h, OverloadStatus.rung] at hrung
  have hm : m ≠ 0 := by
    rintro rfl
    simp at hrung
  refine ⟨hm, lt_of_not_ge fun hp => ?_⟩
  rw [le_permille hm (by decide)] at hp
  split_ifs at hrung
  omega

/-! ### The delay -/

theorem delay_eq_max_iff : throttleRetryDelayMs s m = throttleRetryMaxMs ↔
    OverloadStatus.fromMeasure s m d = .refusingIngest := by
  rw [refusing_iff, throttleRetryDelayMs_permille, throttleRetryMaxMs]
  by_cases hm : m = 0
  · simp [hm]
  · rw [if_neg hm, ← full_permille hm]
    split_ifs with hfull
    · simp [hfull]
    · simp only [hfull, iff_false]
      omega

theorem delay_of_rung_lt_two (h : (OverloadStatus.fromMeasure s m d).rung < 2) :
    throttleRetryDelayMs s m = throttleRetryMinMs := by
  obtain ⟨hm, hp⟩ := permille_of_rung_lt_two h
  rw [throttleRetryDelayMs_permille, if_neg hm, if_neg (by omega), throttleRetryMinMs]
  omega

theorem delay_bounds : throttleRetryMinMs ≤ throttleRetryDelayMs s m ∧
    throttleRetryDelayMs s m ≤ throttleRetryMaxMs := by
  rw [throttleRetryDelayMs_permille, throttleRetryMinMs, throttleRetryMaxMs]
  split_ifs <;> omega

theorem delay_mono (h : s ≤ s') : throttleRetryDelayMs s m ≤ throttleRetryDelayMs s' m := by
  have hp := permille_mono (m := m) h
  rw [throttleRetryDelayMs_permille, throttleRetryDelayMs_permille]
  split_ifs <;> omega

theorem delay_anti (h : m ≤ m') : throttleRetryDelayMs s m' ≤ throttleRetryDelayMs s m := by
  by_cases hm : m = 0
  · rw [hm]
    exact delay_bounds.2
  · have hm' : m' ≠ 0 := by
      rintro rfl
      exact hm (Fin.le_zero_iff.mp h)
    have hp := permille_anti (s := s) hm h
    rw [throttleRetryDelayMs_permille, throttleRetryDelayMs_permille, if_neg hm, if_neg hm']
    split_ifs <;> omega

/-! ### The budget -/

/-- What the fill adds to the base: nothing up to the onset, the base itself from full on. -/
def budgetExtra (b s m : U64) : ℕ := if m = 0 then 0 else (b : ℕ) * min (permille s m - 800) 200 / 200

theorem fillScaledBudget_extra (b s m : U64) : fillScaledBudget b s m = min (b + budgetExtra b s m) u64Max := by
  have hb : (b : ℕ) ≤ u64Max := Nat.le_pred_of_lt b.isLt
  rw [fillScaledBudget_permille, budgetExtra]
  split_ifs with hm hlow
  · omega
  · rw [show min (permille s m - 800) 200 = 0 by omega]
    simp
    omega
  · rw [Nat.mul_one]
    omega

theorem budgetExtra_le (b s m : U64) : budgetExtra b s m ≤ b := by
  rw [budgetExtra]
  split_ifs
  · exact Nat.zero_le _
  · refine Nat.div_le_of_le_mul ?_
    rw [Nat.mul_comm 200]
    exact Nat.mul_le_mul_left _ (min_le_right _ _)

theorem budgetExtra_mono (hb : b ≤ b') (hs : s ≤ s') : budgetExtra b s m ≤ budgetExtra b' s' m := by
  have hp := permille_mono (m := m) hs
  rw [budgetExtra, budgetExtra]
  split_ifs
  · exact le_rfl
  · exact Nat.div_le_div_right (Nat.mul_le_mul hb (by omega))

/-- **The ladder is consistent.** -/
theorem ladder_consistent :
    (∀ s m d, (throttleRetryDelayMs s m = throttleRetryMaxMs ↔
        OverloadStatus.fromMeasure s m d = .refusingIngest) ∧
      ((OverloadStatus.fromMeasure s m d).rung < OverloadStatus.throttling.rung →
        throttleRetryDelayMs s m = throttleRetryMinMs) ∧
      (OverloadStatus.fromMeasure s m d = .throttling →
        throttleRetryMinMs ≤ throttleRetryDelayMs s m ∧ throttleRetryDelayMs s m < throttleRetryMaxMs)) ∧
    (∀ s s' m d d', s ≤ s' →
      (OverloadStatus.fromMeasure s m d).rung ≤ (OverloadStatus.fromMeasure s' m d').rung ∧
        throttleRetryDelayMs s m ≤ throttleRetryDelayMs s' m) ∧
    (∀ s m m' d d', m ≤ m' →
      (OverloadStatus.fromMeasure s m' d').rung ≤ (OverloadStatus.fromMeasure s m d).rung ∧
        throttleRetryDelayMs s m' ≤ throttleRetryDelayMs s m) ∧
    (∀ b b' s s' m, b ≤ b' → s ≤ s' → fillScaledBudget b s m ≤ fillScaledBudget b' s' m) ∧
    (∀ b s m d, (OverloadStatus.fromMeasure s m d = .normal → fillScaledBudget b s m = b) ∧
      b ≤ fillScaledBudget b s m ∧ fillScaledBudget b s m ≤ min (2 * (b : ℕ)) u64Max ∧
      (m ≠ 0 → OverloadStatus.fromMeasure s m d = .refusingIngest →
        fillScaledBudget b s m = min (2 * (b : ℕ)) u64Max)) ∧
    ∀ b s m d, OverloadStatus.fromMeasureChecked s m d = some (.fromMeasure s m d) ∧
      throttleRetryDelayMsChecked s m = some (throttleRetryDelayMs s m) ∧
      fillScaledBudgetChecked b s m = some (fillScaledBudget b s m) := by
  refine ⟨fun s m d => ⟨delay_eq_max_iff, delay_of_rung_lt_two, fun h => ⟨delay_bounds.1, ?_⟩⟩,
    fun s s' m d d' h => ⟨rung_mono h d d', delay_mono h⟩, fun s m m' d d' h => ⟨rung_anti h d d', delay_anti h⟩,
    fun b b' s s' m hb hs => ?_, fun b s m d => ?_,
    fun b s m d => ⟨fromMeasureChecked_eq s m d, throttleRetryDelayMsChecked_eq s m, fillScaledBudgetChecked_eq b s m⟩⟩
  · refine lt_of_le_of_ne delay_bounds.2 fun hmax => ?_
    rw [delay_eq_max_iff (d := d), h] at hmax
    cases hmax
  · have hextra := budgetExtra_mono (m := m) hb hs
    have hbase : (b : ℕ) ≤ b' := hb
    rw [fillScaledBudget_extra, fillScaledBudget_extra]
    omega
  · have hb : (b : ℕ) ≤ u64Max := Nat.le_pred_of_lt b.isLt
    have hextra := budgetExtra_le b s m
    rw [fillScaledBudget_extra]
    refine ⟨fun h => ?_, by omega, by omega, fun hm h => ?_⟩
    · obtain ⟨hm, hp⟩ := permille_of_normal h
      rw [budgetExtra, if_neg hm, show min (permille s m - 800) 200 = 0 by omega]
      simp
      omega
    · have hp := (full_permille hm).mpr (refusing_iff.mp h)
      rw [budgetExtra, if_neg hm, show min (permille s m - 800) 200 = 200 by omega, Nat.mul_div_cancel _ (by decide)]
      omega

end Duckspout
