import Duckspout.Watermark.Ledger
import Mathlib.Data.List.Induction
import Mathlib.Order.Bounds.Basic

/-! What a partition's bookkeeping is a function of: the manifests committed to it, in window order,
    and its losses. `partitionOf` computes that state from scratch, and the two mutations of the
    ledger are shown to keep a partition in it. -/

namespace Duckspout

open OriginCoverage PartitionState

/-- The union of the manifests' coverage. -/
def coverageOf (ms : List WindowManifest) : OriginCoverage :=
  (ms.flatMap (·.originCoverage)).foldl add ∅

/-- The union of the loss ranges. -/
def lossesOf (ls : List LossLedgerRow) : OriginCoverage :=
  (ls.map (·.range.seqRange)).foldl add ∅

/-- The window records, by window id. -/
def windowsOf (ms : List WindowManifest) : OrdMap WindowId WindowRecord :=
  ms.foldl (fun t m => t.insert m.windowId m.record) ∅

/-- The event-time maximum of the manifests. -/
def eventMaxOf (ms : List WindowManifest) : Option ℤ :=
  ms.foldl (fun t m => maxTime t m.eventTimeMaxMs) none

/-- The first `w + 1` windows leave no unexcused gap. -/
def completeAt (ms : List WindowManifest) (losses : OriginCoverage) (w : ℕ) : Bool :=
  (unexcusedGaps (coverageOf (ms.take (w + 1))) losses).isEmpty

/-- The advance rule from scratch: the highest complete window among the first `n`. -/
def lastComplete (ms : List WindowManifest) (losses : OriginCoverage) : ℕ → Option ℕ
  | 0 => none
  | n + 1 => if completeAt ms losses n then some n else lastComplete ms losses n

/-- The number of windows at or below the cursor. -/
def span (done : Option ℕ) : ℕ := done.elim 0 (· + 1)

/-- The cursor fields as they stand when the watermark has advanced through `done`. -/
def setCursor (s : PartitionState) (ms : List WindowManifest) (done : Option ℕ) :
    PartitionState :=
  { s with
    doneCov := coverageOf (ms.take (span done))
    doneThrough := done
    completeThroughMs := eventMaxOf (ms.take (span done)) }

/-- The record of a partition, with its cursor at the start. -/
def recordOf (ms : List WindowManifest) (ls : List LossLedgerRow) : PartitionState where
  dataset := ms.head?.map (·.dataset)
  windows := windowsOf ms
  committed := coverageOf ms
  losses := lossesOf ls

/-- The partition's bookkeeping, from its manifests in window order and its losses. -/
def partitionOf (ms : List WindowManifest) (ls : List LossLedgerRow) : PartitionState :=
  setCursor (recordOf ms ls) ms (lastComplete ms (lossesOf ls) ms.length)

/-- Two ranges with no common sequence number. -/
def Clear (r q : OriginSeqRange) : Prop := ∀ o n, ¬ (r.Has o n ∧ q.Has o n)

/-- A partition's accepted manifests, in the order of their commits. -/
structure Dense (ms : List WindowManifest) : Prop where
  window : ∀ i (h : i < ms.length), ms[i].windowId = i
  dataset : ∀ m ∈ ms, ms.head?.map (·.dataset) = some m.dataset
  times : ∀ m ∈ ms, m.eventTimeMinMs ≤ m.eventTimeMaxMs
  valid : ∀ m ∈ ms, ∀ r ∈ m.originCoverage, ValidRange r
  clear : (ms.flatMap (·.originCoverage)).Pairwise Clear

/-! ### Building the parts of the state one manifest at a time -/

theorem coverageOf_append (ms : List WindowManifest) (m : WindowManifest) :
    coverageOf (ms ++ [m]) = m.originCoverage.foldl add (coverageOf ms) := by
  simp [coverageOf]

theorem lossesOf_append (ls : List LossLedgerRow) (row : LossLedgerRow) :
    lossesOf (ls ++ [row]) = add (lossesOf ls) row.range.seqRange := by
  simp [lossesOf]

theorem windowsOf_append (ms : List WindowManifest) (m : WindowManifest) :
    windowsOf (ms ++ [m]) = (windowsOf ms).insert m.windowId m.record := by
  simp [windowsOf]

@[simp] theorem eventMaxOf_nil : eventMaxOf [] = none := rfl

theorem eventMaxOf_append (ms : List WindowManifest) (m : WindowManifest) :
    eventMaxOf (ms ++ [m]) = maxTime (eventMaxOf ms) m.eventTimeMaxMs := by
  simp [eventMaxOf]

@[simp] theorem partitionOf_nil : partitionOf [] [] = default := rfl

theorem dense_nil : Dense [] := ⟨by simp, by simp, by simp, by simp, by simp⟩

theorem Dense.take {ms : List WindowManifest} (h : Dense ms) (k : ℕ) : Dense (ms.take k) := by
  have hsub : ∀ m ∈ ms.take k, m ∈ ms := fun m hm => List.mem_of_mem_take hm
  refine ⟨fun i hi => ?_, fun m hm => ?_, fun m hm => h.times m (hsub m hm),
    fun m hm => h.valid m (hsub m hm), ?_⟩
  · rw [List.getElem_take]
    exact h.window i (by simp at hi; omega)
  · cases k with
    | zero => simp at hm
    | succ k =>
      rw [List.head?_take, if_neg (Nat.succ_ne_zero k)]
      exact h.dataset m (hsub m hm)
  · have hc := h.clear
    rw [← List.take_append_drop k ms, List.flatMap_append] at hc
    exact (List.pairwise_append.mp hc).1

/-- A member of a dense record sits at its own window id. -/
theorem Dense.getElem?_iff {ms : List WindowManifest} (h : Dense ms) {i : ℕ} {m : WindowManifest} :
    ms[i]? = some m ↔ m ∈ ms ∧ m.windowId = i := by
  constructor
  · intro hm
    obtain ⟨hi, rfl⟩ := List.getElem?_eq_some_iff.mp hm
    exact ⟨List.getElem_mem hi, h.window i hi⟩
  · rintro ⟨hm, rfl⟩
    obtain ⟨j, hj, rfl⟩ := List.getElem_of_mem hm
    rw [h.window j hj]
    exact List.getElem?_eq_getElem hj

/-- Membership in the coverage of the first windows. -/
theorem mem_coverageOf {ms : List WindowManifest} (h : Dense ms) :
    Wf (coverageOf ms) ∧ ∀ o n, Mem (coverageOf ms) o n ↔ ∃ m ∈ ms, Covers m.originCoverage o n := by
  have hv : ∀ r ∈ ms.flatMap (·.originCoverage), ValidRange r := by
    intro r hr
    obtain ⟨m, hm, hr⟩ := List.mem_flatMap.mp hr
    exact h.valid m hm r hr
  obtain ⟨hwf, hmem, -⟩ := mem_foldl_add _ wf_empty hv
  refine ⟨hwf, fun o n => ?_⟩
  rw [coverageOf, hmem o n]
  simp only [not_mem_empty, false_or, Covers, List.mem_flatMap]
  constructor
  · rintro ⟨r, ⟨m, hm, hr⟩, hn⟩
    exact ⟨m, hm, r, hr, hn⟩
  · rintro ⟨m, hm, r, hr, hn⟩
    exact ⟨r, ⟨m, hm, hr⟩, hn⟩

/-- Membership in the union of valid losses. -/
theorem mem_lossesOf {ls : List LossLedgerRow} (h : ∀ l ∈ ls, ValidRange l.range.seqRange) :
    Wf (lossesOf ls) ∧
      ∀ o n, Mem (lossesOf ls) o n ↔ ∃ l ∈ ls, l.range.seqRange.Has o n := by
  have hv : ∀ r ∈ ls.map (·.range.seqRange), ValidRange r := by
    intro r hr
    obtain ⟨l, hl, rfl⟩ := List.mem_map.mp hr
    exact h l hl
  obtain ⟨hwf, hmem, -⟩ := mem_foldl_add _ wf_empty hv
  refine ⟨hwf, fun o n => ?_⟩
  rw [lossesOf, hmem o n]
  simp [Covers]

theorem isSome_lossesOf {ls : List LossLedgerRow} (h : ∀ l ∈ ls, ValidRange l.range.seqRange)
    (o : NodeId) : (lossesOf ls)[o]?.isSome ↔ ∃ l ∈ ls, l.range.origin = o := by
  have hv : ∀ r ∈ ls.map (·.range.seqRange), ValidRange r := by
    intro r hr
    obtain ⟨l, hl, rfl⟩ := List.mem_map.mp hr
    exact h l hl
  rw [lossesOf, (mem_foldl_add _ wf_empty hv).2.2 o]
  simp [LostRange.seqRange]

/-- Dense windows are found at their own index. -/
theorem get_windowsOf {ms : List WindowManifest} (h : Dense ms) (i : ℕ) :
    (windowsOf ms)[i]? = ms[i]?.map (·.record) := by
  induction ms using List.reverseRecOn generalizing i with
  | nil => simp [windowsOf]
  | append_singleton ms m ih =>
    have hpre : Dense ms := by
      have := h.take ms.length
      rwa [List.take_left] at this
    have hm : m.windowId = ms.length := by
      have := h.window ms.length (by simp)
      simpa using this
    rw [windowsOf_append, OrdMap.get_insert, hm, ih hpre]
    rcases eq_or_ne ms.length i with rfl | hi
    · simp
    · rw [if_neg hi]
      by_cases hlt : i < ms.length
      · rw [List.getElem?_append_left hlt]
      · have h1 : ms[i]? = none := by simp; omega
        have h2 : (ms ++ [m])[i]? = none := by simp; omega
        rw [h1, h2]

/-- The next dense window id is the number of windows. -/
theorem nextWindowId_eq {ms : List WindowManifest} (h : Dense ms) {s : PartitionState}
    (hs : s.windows = windowsOf ms) : s.nextWindowId = ms.length := by
  have hget := get_windowsOf h
  simp only [nextWindowId]
  rw [hs]
  cases hlen : ms.length with
  | zero =>
    obtain rfl : ms = [] := List.length_eq_zero_iff.mp hlen
    rfl
  | succ n =>
    have hmax : (windowsOf ms).lastKey? = some n := by
      rw [OrdMap.lastKey?_eq_some_iff]
      have hmem : ∀ k : ℕ, (windowsOf ms)[k]?.isSome ↔ k < ms.length := by
        intro k
        rw [hget k]
        simp
      refine ⟨(hmem n).mpr (by omega), fun k hk => ?_⟩
      have hlt := (hmem k).mp hk
      rw [hlen] at hlt
      exact Nat.le_of_lt_succ hlt
    rw [hmax]
    rfl

/-! ### The walk of `extend` -/

@[simp] theorem span_none : span none = 0 := rfl

@[simp] theorem span_some (d : ℕ) : span (some d) = d + 1 := rfl

theorem span_lastComplete_le (ms : List WindowManifest) (losses : OriginCoverage) :
    ∀ n, span (lastComplete ms losses n) ≤ n := by
  intro n
  induction n with
  | zero =>
    exact le_rfl
  | succ n ih =>
    simp only [lastComplete]
    by_cases h : completeAt ms losses n = true
    · rw [if_pos h, span_some]
    · rw [if_neg h]
      exact (ih).trans n.le_succ

/-- The window the cursor stands at is complete. -/
theorem completeAt_lastComplete (ms : List WindowManifest) (losses : OriginCoverage) :
    ∀ n d, lastComplete ms losses n = some d → completeAt ms losses d = true := by
  intro n
  induction n with
  | zero =>
    intro d h
    simp [lastComplete] at h
  | succ n ih =>
    intro d h
    simp only [lastComplete] at h
    by_cases hc : completeAt ms losses n = true
    · rw [if_pos hc, Option.some.injEq] at h
      rwa [← h]
    · rw [if_neg hc] at h
      exact ih d h

/-- No window above the cursor is complete. -/
theorem lt_span_of_completeAt (ms : List WindowManifest) (losses : OriginCoverage) :
    ∀ n w, w < n → completeAt ms losses w = true → w < span (lastComplete ms losses n) := by
  intro n
  induction n with
  | zero =>
    intro w hw _
    omega
  | succ n ih =>
    intro w hw h
    simp only [lastComplete]
    by_cases hc : completeAt ms losses n = true
    · rwa [if_pos hc, span_some]
    · rw [if_neg hc]
      have hne : w ≠ n := fun he => hc (he ▸ h)
      exact ih w (by omega) h

/-- The walk from window `k` on, with what the first `k` windows add up to, ends at the highest
    complete window of all. -/
theorem extendLoop_spec {ms : List WindowManifest} {s : PartitionState}
    (hw : ∀ i : ℕ, s.windows[i]? = ms[i]?.map (·.record)) :
    ∀ fuel k, ms.length ≤ k + fuel → k ≤ ms.length →
    extendLoop fuel k (coverageOf (ms.take k)) (eventMaxOf (ms.take k))
        (setCursor s ms (lastComplete ms s.losses k)) =
      setCursor s ms (lastComplete ms s.losses ms.length) := by
  intro fuel
  induction fuel with
  | zero =>
    intro k hf hk
    obtain rfl : k = ms.length := by omega
    rfl
  | succ fuel ih =>
    intro k hf hk
    simp only [extendLoop]
    have hwin : (setCursor s ms (lastComplete ms s.losses k)).windows[k]? = ms[k]?.map (·.record) :=
      hw k
    rw [hwin]
    by_cases hlt : k < ms.length
    · have htake : ms.take (k + 1) = ms.take k ++ [ms[k]] := List.take_succ_eq_append_getElem hlt
      have hcov : ms[k].record.originCoverage.foldl add (coverageOf (ms.take k)) =
          coverageOf (ms.take (k + 1)) := by
        rw [htake, coverageOf_append]
        rfl
      have hmax : maxTime (eventMaxOf (ms.take k)) ms[k].record.eventTimeMaxMs =
          eventMaxOf (ms.take (k + 1)) := by
        rw [htake, eventMaxOf_append]
        rfl
      have ih := ih (k + 1) (by omega) hlt
      rw [List.getElem?_eq_getElem hlt]
      simp only [Option.map_some, hcov, hmax]
      by_cases hc : completeAt ms s.losses k = true
      · have hlast : lastComplete ms s.losses (k + 1) = some k := by
          rw [lastComplete, if_pos hc]
        rw [hlast] at ih
        exact (if_pos hc).trans ih
      · have hlast : lastComplete ms s.losses (k + 1) = lastComplete ms s.losses k := by
          rw [lastComplete, if_neg hc]
        rw [hlast] at ih
        exact (if_neg hc).trans ih
    · obtain rfl : k = ms.length := by omega
      rw [List.getElem?_eq_none le_rfl]
      rfl

/-- `extend` takes a cursor at any complete window to the highest complete one. -/
theorem extend_spec {ms : List WindowManifest} (h : Dense ms) {s : PartitionState}
    (hs : s.windows = windowsOf ms) {done : Option ℕ} (hlen : span done ≤ ms.length)
    (hdone : ∀ d, done = some d → completeAt ms s.losses d = true) :
    extend (setCursor s ms done) = setCursor s ms (lastComplete ms s.losses ms.length) := by
  have hw : ∀ i : ℕ, s.windows[i]? = ms[i]?.map (·.record) := fun i => by rw [hs, get_windowsOf h]
  have hcur : lastComplete ms s.losses (span done) = done := by
    cases done with
    | none => rfl
    | some d => rw [span_some, lastComplete, if_pos (hdone d rfl)]
  have hfuel : (setCursor s ms done).nextWindowId = ms.length := nextWindowId_eq h hs
  have hloop := extendLoop_spec hw ms.length (span done) (by omega) hlen
  rw [hcur] at hloop
  simp only [extend]
  rw [hfuel]
  exact hloop

/-! ### What the cursor stands at -/

theorem advanced_lt {ms : List WindowManifest} {losses : OriginCoverage} {w : ℕ}
    (h : lastComplete ms losses ms.length = some w) : w < ms.length := by
  have hspan := span_lastComplete_le ms losses ms.length
  rwa [h, span_some] at hspan

/-- The cursor is the greatest complete window. -/
theorem lastComplete_eq_some {ms : List WindowManifest} {losses : OriginCoverage} {w : ℕ} :
    lastComplete ms losses ms.length = some w ↔
      IsGreatest {v | v < ms.length ∧ completeAt ms losses v = true} w := by
  constructor
  · intro h
    refine ⟨⟨advanced_lt h, completeAt_lastComplete _ _ _ _ h⟩, fun v hv => ?_⟩
    have hlt := lt_span_of_completeAt _ _ _ v hv.1 hv.2
    rw [h, span_some] at hlt
    exact Nat.le_of_lt_succ hlt
  · rintro ⟨⟨hlt, hc⟩, hmax⟩
    have hspan := lt_span_of_completeAt _ _ _ w hlt hc
    cases hd : lastComplete ms losses ms.length with
    | none => simp [hd] at hspan
    | some d =>
      rw [hd, span_some] at hspan
      have hle : d ≤ w := hmax ⟨advanced_lt hd, completeAt_lastComplete _ _ _ _ hd⟩
      rw [le_antisymm hle (Nat.le_of_lt_succ hspan)]

theorem lastComplete_eq_none {ms : List WindowManifest} {losses : OriginCoverage} :
    lastComplete ms losses ms.length = none ↔
      ∀ v, v < ms.length → completeAt ms losses v = false := by
  constructor
  · intro h v hv
    rw [Bool.eq_false_iff]
    intro hc
    have hlt := lt_span_of_completeAt _ _ _ v hv hc
    simp [h] at hlt
  · intro h
    cases hd : lastComplete ms losses ms.length with
    | none => rfl
    | some d =>
      have hc := completeAt_lastComplete _ _ _ _ hd
      simp [h d (advanced_lt hd)] at hc

/-- The running maximum is the greatest event-time maximum seen. -/
theorem eventMaxOf_spec (ms : List WindowManifest) :
    (ms = [] → eventMaxOf ms = none) ∧
    (ms ≠ [] → ∃ t, eventMaxOf ms = some t ∧ IsGreatest {t | ∃ m ∈ ms, m.eventTimeMaxMs = t} t) := by
  induction ms using List.reverseRecOn with
  | nil => simp
  | append_singleton ms m ih =>
    refine ⟨by simp, fun _ => ?_⟩
    rw [eventMaxOf_append, maxTime]
    by_cases hms : ms = []
    · subst hms
      refine ⟨m.eventTimeMaxMs, rfl, ⟨m, by simp, rfl⟩, ?_⟩
      rintro t ⟨m', hm', rfl⟩
      rw [List.mem_singleton.mp hm']
    · obtain ⟨t, ht, ⟨a, ha, hat⟩, hup⟩ := ih.2 hms
      rw [ht, Option.elim_some]
      refine ⟨_, rfl, ?_, ?_⟩
      · rcases max_choice t m.eventTimeMaxMs with h | h
        · exact ⟨a, by simp [ha], by rw [hat, h]⟩
        · exact ⟨m, by simp, h.symm⟩
      · rintro u ⟨m', hm', rfl⟩
        rcases List.mem_append.mp hm' with hm' | hm'
        · exact (hup ⟨m', hm', rfl⟩).trans (le_max_left _ _)
        · rw [List.mem_singleton.mp hm']
          exact le_max_right _ _

theorem eventMaxOf_mono {as bs : List WindowManifest} (h : ∀ m ∈ as, m ∈ bs) :
    eventMaxOf as ≤ eventMaxOf bs := by
  by_cases ha : as = []
  · rw [(eventMaxOf_spec as).1 ha]
    exact Option.none_le
  · have hb : bs ≠ [] := by
      obtain ⟨m, hm⟩ := List.exists_mem_of_ne_nil _ ha
      exact List.ne_nil_of_mem (h m hm)
    obtain ⟨t, ht, ⟨m, hm, rfl⟩, -⟩ := (eventMaxOf_spec as).2 ha
    obtain ⟨u, hu, -, hup⟩ := (eventMaxOf_spec bs).2 hb
    rw [ht, hu, Option.some_le_some]
    exact hup ⟨m, h m hm, rfl⟩

/-! ### The two mutations -/

theorem setCursor_append (s : PartitionState) {ms : List WindowManifest} (m : WindowManifest)
    {done : Option ℕ} (h : span done ≤ ms.length) :
    setCursor s (ms ++ [m]) done = setCursor s ms done := by
  simp only [setCursor]
  rw [List.take_append_of_le_length h]

theorem completeAt_append {ms : List WindowManifest} (m : WindowManifest) (losses : OriginCoverage)
    {w : ℕ} (h : w < ms.length) : completeAt (ms ++ [m]) losses w = completeAt ms losses w := by
  simp only [completeAt]
  rw [List.take_append_of_le_length h]

/-- The advance rule's test, in terms of membership. -/
theorem completeAt_iff {ms : List WindowManifest} (h : Dense ms) {losses : OriginCoverage}
    (hl : Wf losses) (w : ℕ) :
    completeAt ms losses w = true ↔ GapFree (coverageOf (ms.take (w + 1))) losses :=
  unexcusedGaps_isEmpty (mem_coverageOf (h.take _)).1 hl

/-- A longer record with more losses is advanced at least as far. -/
theorem partitionOf_mono {ms ms' : List WindowManifest} (h : Dense ms') (hpre : ms <+: ms')
    {ls ls' : List LossLedgerRow} (hls : ∀ l ∈ ls, l ∈ ls')
    (hv : ∀ l ∈ ls', ValidRange l.range.seqRange) :
    (partitionOf ms ls).doneThrough ≤ (partitionOf ms' ls').doneThrough ∧
      (partitionOf ms ls).completeThroughMs ≤ (partitionOf ms' ls').completeThroughMs := by
  obtain ⟨tail, rfl⟩ := hpre
  have hms : Dense ms := by
    have ht := h.take ms.length
    rwa [List.take_left] at ht
  have hl := mem_lossesOf fun l hl => hv l (hls l hl)
  have hl' := mem_lossesOf hv
  change lastComplete ms _ _ ≤ lastComplete (ms ++ tail) _ _ ∧ eventMaxOf _ ≤ eventMaxOf _
  cases hd : lastComplete ms (lossesOf ls) ms.length with
  | none => exact ⟨Option.none_le, Option.none_le⟩
  | some d =>
    have hlt := advanced_lt hd
    have htake : (ms ++ tail).take (d + 1) = ms.take (d + 1) := List.take_append_of_le_length hlt
    have hc : completeAt (ms ++ tail) (lossesOf ls') d = true := by
      have hold := completeAt_lastComplete _ _ _ _ hd
      rw [completeAt_iff hms hl.1] at hold
      rw [completeAt_iff h hl'.1, htake]
      refine gapFree_mono hold fun o n hn => ?_
      obtain ⟨l, hmem, hn⟩ := (hl.2 o n).mp hn
      exact (hl'.2 o n).mpr ⟨l, hls l hmem, hn⟩
    have hlen : d < (ms ++ tail).length := by
      rw [List.length_append]
      omega
    have hspan := lt_span_of_completeAt _ _ _ d hlen hc
    cases hd' : lastComplete (ms ++ tail) (lossesOf ls') (ms ++ tail).length with
    | none =>
      rw [hd', span_none] at hspan
      exact absurd hspan (Nat.not_lt_zero d)
    | some d' =>
      rw [hd', span_some] at hspan
      refine ⟨Option.some_le_some.mpr (Nat.le_of_lt_succ hspan), eventMaxOf_mono fun m hm => ?_⟩
      rw [span_some, ← htake] at hm
      rw [span_some]
      exact (List.take_sublist_take_left hspan).subset hm

/-- A committed manifest takes the partition to the state of one more window. -/
theorem commit_partitionOf {ms : List WindowManifest} {m : WindowManifest} (h : Dense (ms ++ [m]))
    (ls : List LossLedgerRow) {probe : OriginCoverage}
    (hp : coverageOf ms ∪ probe = coverageOf (ms ++ [m])) :
    (partitionOf ms ls).commit m probe = partitionOf (ms ++ [m]) ls := by
  set d := lastComplete ms (lossesOf ls) ms.length with hd
  have hspan : span d ≤ ms.length := span_lastComplete_le _ _ _
  have hdone : ∀ w, d = some w → completeAt (ms ++ [m]) (lossesOf ls) w = true := by
    intro w hw
    rw [hw] at hspan
    rw [completeAt_append m _ hspan]
    exact completeAt_lastComplete _ _ _ _ (hd.symm.trans hw)
  have hset : (partitionOf ms ls).dataset.or (some m.dataset) =
      (ms ++ [m]).head?.map (·.dataset) := by
    cases ms with
    | nil => rfl
    | cons => rfl
  have hlen : span d ≤ (ms ++ [m]).length := by
    rw [List.length_append]
    omega
  have hext := extend_spec (s := recordOf (ms ++ [m]) ls) h rfl hlen hdone
  rw [setCursor_append _ m hspan] at hext
  rw [PartitionState.commit, hset]
  refine Eq.trans (congrArg extend ?_) hext
  simp only [recordOf]
  rw [windowsOf_append, ← hp]
  rfl

/-- A recorded loss takes the partition to the state of one more loss. -/
theorem lose_partitionOf {ms : List WindowManifest} (h : Dense ms) {ls : List LossLedgerRow}
    {row : LossLedgerRow} (hl : ∀ l ∈ ls ++ [row], ValidRange l.range.seqRange) :
    (partitionOf ms ls).lose row.range = partitionOf ms (ls ++ [row]) := by
  have hls : ∀ l ∈ ls, ValidRange l.range.seqRange := fun l hl' => hl l (by simp [hl'])
  have hold := mem_lossesOf hls
  have hnew := mem_lossesOf hl
  set d := lastComplete ms (lossesOf ls) ms.length with hd
  have hspan : span d ≤ ms.length := span_lastComplete_le _ _ _
  have hdone : ∀ w, d = some w → completeAt ms (lossesOf (ls ++ [row])) w = true := by
    intro w hw
    have hc := completeAt_lastComplete _ _ _ _ (hd.symm.trans hw)
    rw [completeAt_iff h hold.1] at hc
    rw [completeAt_iff h hnew.1]
    refine gapFree_mono hc fun o n hn => ?_
    obtain ⟨l, hl', hn⟩ := (hold.2 o n).mp hn
    exact (hnew.2 o n).mpr ⟨l, by simp [hl'], hn⟩
  have hext := extend_spec (s := recordOf ms (ls ++ [row])) h rfl hspan hdone
  refine Eq.trans (congrArg extend ?_) hext
  simp only [recordOf]
  rw [lossesOf_append]
  rfl

/-! ### What the checks accept -/

/-- The ranges are valid, clear of `cov` and clear of each other. -/
structure Fits (cov : OriginCoverage) (rs : List OriginSeqRange) : Prop where
  valid : ∀ r ∈ rs, ValidRange r
  fresh : ∀ r ∈ rs, ∀ o n, r.Has o n → ¬ Mem cov o n
  clear : rs.Pairwise Clear

theorem fits_cons {cov : OriginCoverage} (hc : Wf cov) {r : OriginSeqRange} {rs : List OriginSeqRange} :
    Fits cov (r :: rs) ↔
      ValidRange r ∧ (∀ o n, r.Has o n → ¬ Mem cov o n) ∧ Fits (add cov r) rs := by
  constructor
  · rintro ⟨hv, hf, hcl⟩
    rw [List.pairwise_cons] at hcl
    have hr := hv r (by simp)
    refine ⟨hr, hf r (by simp), fun q hq => hv q (by simp [hq]), fun q hq o n hn => ?_, hcl.2⟩
    rw [mem_add hc hr]
    rintro (h | h)
    · exact hf q (by simp [hq]) o n hn h
    · exact hcl.1 q hq o n ⟨h, hn⟩
  · rintro ⟨hr, hf, hv, hf', hcl⟩
    have hadd : ∀ q ∈ rs, ∀ o n, q.Has o n → ¬ Mem cov o n ∧ ¬ r.Has o n := by
      intro q hq o n hn
      have := hf' q hq o n hn
      rwa [mem_add hc hr, not_or] at this
    refine ⟨?_, ?_, List.pairwise_cons.mpr ⟨fun q hq o n hn => ?_, hcl⟩⟩
    · intro q hq
      rcases List.mem_cons.mp hq with rfl | hq
      · exact hr
      · exact hv q hq
    · intro q hq o n hn
      rcases List.mem_cons.mp hq with rfl | hq
      · exact hf o n hn
      · exact (hadd q hq o n hn).1
    · exact (hadd q hq o n hn.2).2 hn.1

theorem checkSeqs_ok {o : NodeId} {first last : U64} :
    checkSeqs o first last = .ok () ↔ ValidRange ⟨o, first, last⟩ := by
  simp only [checkSeqs, ValidRange]
  by_cases h : first = 0 ∨ first > last
  · rw [if_pos h]
    simp only [reduceCtorEq, false_iff]
    rcases h with rfl | h
    · simp
    · rw [gt_iff_lt, Fin.lt_def] at h
      omega
  · rw [if_neg h]
    rw [not_or, gt_iff_lt, Fin.lt_def] at h
    have h0 : (first : ℕ) ≠ 0 := fun h0 => h.1 (Fin.ext h0)
    simp only [true_iff]
    omega

theorem checkSeqs_error {o : NodeId} {first last : U64} (h : ¬ ValidRange ⟨o, first, last⟩) :
    checkSeqs o first last = .error (.invalidSeqRange o first last) := by
  simp only [checkSeqs]
  by_cases hc : first = 0 ∨ first > last
  · rw [if_pos hc]
  · exact absurd (checkSeqs_ok.mp (if_neg hc)) h

/-- The probe reads through to the committed coverage, origin by origin. -/
theorem probe_getD (committed probe : OriginCoverage) (o : NodeId) :
    probe[o]?.getD (committed[o]?.getD {}) = (committed ∪ probe)[o]?.getD default := by
  rw [Std.ExtTreeMap.getElem?_union]
  cases probe[o]? with
  | none => rfl
  | some t => rfl

/-- One range of the probe loop: accepted when valid and fresh, and then the probe laid over the
    committed coverage has grown by the range. -/
theorem probeRange_ok {s : PartitionState} {probe : OriginCoverage} (hwf : Wf (s.committed ∪ probe))
    {r : OriginSeqRange} (hv : ValidRange r) (hf : ∀ o n, r.Has o n → ¬ Mem (s.committed ∪ probe) o n) :
    ∃ probe', probeRange (some s) probe r = .ok probe' ∧
      s.committed ∪ probe' = add (s.committed ∪ probe) r := by
  have hno : ((s.committed ∪ probe)[r.origin]?.getD default).overlaps r.firstSeq r.lastSeq = false := by
    rw [Bool.eq_false_iff]
    intro hov
    obtain ⟨n, hn, h1, h2⟩ := (SeqSet.overlaps_iff (wf_getD hwf _) hv.2).mp hov
    exact hf r.origin n ⟨rfl, h1, h2⟩ ((mem_getD _ _ _).mp hn)
  have hseqs : checkSeqs r.origin r.firstSeq r.lastSeq = .ok () := checkSeqs_ok.mpr hv
  refine ⟨_, by
    simp only [probeRange, hseqs, Option.bind_some, probe_getD, hno]
    rfl, ?_⟩
  refine OrdMap.ext fun o => ?_
  rw [add, OrdMap.get_upsert, Std.ExtTreeMap.getElem?_union, OrdMap.get_insert]
  rcases eq_or_ne r.origin o with ho | ho
  · rw [if_pos ho, if_pos ho]
    rfl
  · rw [if_neg ho, if_neg ho, Std.ExtTreeMap.getElem?_union]

theorem probeRange_error {s : PartitionState} {probe : OriginCoverage}
    (hwf : Wf (s.committed ∪ probe)) {r : OriginSeqRange}
    (h : ¬ (ValidRange r ∧ ∀ o n, r.Has o n → ¬ Mem (s.committed ∪ probe) o n)) :
    ∃ e, probeRange (some s) probe r = .error e := by
  by_cases hv : ValidRange r
  · have hseqs : checkSeqs r.origin r.firstSeq r.lastSeq = .ok () := checkSeqs_ok.mpr hv
    have hov : ((s.committed ∪ probe)[r.origin]?.getD default).overlaps r.firstSeq r.lastSeq = true := by
      by_contra hno
      refine h ⟨hv, ?_⟩
      rintro o n ⟨rfl, h1, h2⟩ hn
      exact hno ((SeqSet.overlaps_iff (wf_getD hwf _) hv.2).mpr ⟨n, (mem_getD _ _ _).mpr hn, h1, h2⟩)
    exact ⟨_, by
      simp only [probeRange, hseqs, Option.bind_some, probe_getD, hov]
      rfl⟩
  · have hseqs : checkSeqs r.origin r.firstSeq r.lastSeq = .error _ := checkSeqs_error hv
    exact ⟨_, by
      simp only [probeRange, hseqs]
      rfl⟩

/-- The probe loop accepts exactly the ranges that fit. -/
theorem probe_spec (s : PartitionState) : ∀ (rs : List OriginSeqRange) (probe : OriginCoverage),
    Wf (s.committed ∪ probe) →
    (Fits (s.committed ∪ probe) rs → ∃ probe', rs.foldlM (probeRange (some s)) probe = .ok probe' ∧
      s.committed ∪ probe' = rs.foldl add (s.committed ∪ probe)) ∧
    (¬ Fits (s.committed ∪ probe) rs → ∃ e, rs.foldlM (probeRange (some s)) probe = .error e) := by
  intro rs
  induction rs with
  | nil =>
    intro probe _
    exact ⟨fun _ => ⟨probe, rfl, rfl⟩, fun h => absurd ⟨by simp, by simp, by simp⟩ h⟩
  | cons r rs ih =>
    intro probe hwf
    rw [fits_cons hwf, List.foldlM_cons]
    by_cases hr : ValidRange r ∧ ∀ o n, r.Has o n → ¬ Mem (s.committed ∪ probe) o n
    · obtain ⟨probe₁, h₁, hadd⟩ := probeRange_ok hwf hr.1 hr.2
      have ih := ih probe₁ (hadd ▸ wf_add hwf hr.1)
      rw [hadd] at ih
      rw [h₁]
      exact ⟨fun h => ih.1 h.2.2, fun h => ih.2 fun hf => h ⟨hr.1, hr.2, hf⟩⟩
    · obtain ⟨e, he⟩ := probeRange_error hwf hr
      rw [he]
      exact ⟨fun h => absurd ⟨h.1, h.2.1⟩ hr, fun _ => ⟨e, rfl⟩⟩

/-- The manifests a partition accepts next. -/
theorem dense_append {ms : List WindowManifest} (h : Dense ms) (m : WindowManifest) :
    Dense (ms ++ [m]) ↔ m.eventTimeMinMs ≤ m.eventTimeMaxMs ∧
      (∀ d, ms.head?.map (·.dataset) = some d → d = m.dataset) ∧ m.windowId = ms.length ∧
      Fits (coverageOf ms) m.originCoverage := by
  have hcov := (mem_coverageOf h).2
  have hflat : (ms ++ [m]).flatMap (·.originCoverage) =
      ms.flatMap (·.originCoverage) ++ m.originCoverage := by simp
  constructor
  · intro hd
    have hcl := hd.clear
    rw [hflat, List.pairwise_append] at hcl
    refine ⟨hd.times m (by simp), fun d hs => ?_, by simpa using hd.window ms.length (by simp),
      hd.valid m (by simp), fun r hr o n hn hm => ?_, hcl.2.1⟩
    · have := hd.dataset m (by simp)
      cases ms with
      | nil => simp at hs
      | cons a as =>
        simp at hs this
        rw [← hs, this]
    · obtain ⟨m', hm', q, hq, hqn⟩ := (hcov o n).mp hm
      exact hcl.2.2 q (List.mem_flatMap.mpr ⟨m', hm', hq⟩) r hr o n ⟨hqn, hn⟩
  · rintro ⟨ht, hds, hw, hv, hf, hcl⟩
    refine ⟨fun i hi => ?_, fun m' hm' => ?_, fun m' hm' => ?_, fun m' hm' => ?_, ?_⟩
    · by_cases hlt : i < ms.length
      · rw [List.getElem_append_left hlt]
        exact h.window i hlt
      · obtain rfl : i = ms.length := by simp at hi; omega
        simpa using hw
    · rcases List.mem_append.mp hm' with hm' | hm'
      · have := h.dataset m' hm'
        cases ms with
        | nil => simp at hm'
        | cons a as => exact this
      · rw [List.mem_singleton.mp hm']
        cases ms with
        | nil => rfl
        | cons a as => exact congrArg some (hds _ rfl)
    · rcases List.mem_append.mp hm' with hm' | hm'
      · exact h.times m' hm'
      · rw [List.mem_singleton.mp hm']
        exact ht
    · rcases List.mem_append.mp hm' with hm' | hm'
      · exact h.valid m' hm'
      · rw [List.mem_singleton.mp hm']
        exact hv
    · rw [hflat, List.pairwise_append]
      refine ⟨h.clear, hcl, fun q hq r hr o n hn => ?_⟩
      obtain ⟨m', hm', hq⟩ := List.mem_flatMap.mp hq
      exact hf r hr o n hn.2 ((hcov o n).mpr ⟨m', hm', q, hq, hn.1⟩)

theorem checkTimes_spec (m : WindowManifest) :
    (m.eventTimeMinMs ≤ m.eventTimeMaxMs → checkTimes m = .ok ()) ∧
    (¬ m.eventTimeMinMs ≤ m.eventTimeMaxMs → ∃ e, checkTimes m = .error e) :=
  ⟨fun h => if_neg (not_lt.mpr h), fun h => ⟨_, if_pos (not_le.mp h)⟩⟩

theorem checkDataset_spec (s : PartitionState) (m : WindowManifest) :
    ((∀ d, s.dataset = some d → d = m.dataset) → checkDataset (some s) m = .ok ()) ∧
    (¬ (∀ d, s.dataset = some d → d = m.dataset) → ∃ e, checkDataset (some s) m = .error e) := by
  simp only [checkDataset]
  rw [Option.bind_some]
  cases s.dataset with
  | none => simp
  | some d =>
    rcases eq_or_ne d m.dataset with h | h
    · simp [h]
    · simp [h]

theorem checkWindow_spec (s : PartitionState) (m : WindowManifest) :
    (m.windowId = s.nextWindowId → checkWindow (some s) m = .ok ()) ∧
    (¬ m.windowId = s.nextWindowId → ∃ e, checkWindow (some s) m = .error e) :=
  ⟨fun h => if_neg (not_not.mpr h), fun h => ⟨_, if_pos h⟩⟩

/-- `record_commit` accepts exactly the manifests that keep the partition's record dense. -/
theorem checkCommit_spec {ms : List WindowManifest} (h : Dense ms) (ls : List LossLedgerRow)
    (m : WindowManifest) :
    (Dense (ms ++ [m]) → ∃ probe, checkCommit (some (partitionOf ms ls)) m = .ok probe ∧
      coverageOf ms ∪ probe = coverageOf (ms ++ [m])) ∧
    (¬ Dense (ms ++ [m]) → ∃ e, checkCommit (some (partitionOf ms ls)) m = .error e) := by
  have hcom : (partitionOf ms ls).committed ∪ ∅ = coverageOf ms := OrdMap.union_empty _
  have hprobe := probe_spec (partitionOf ms ls) m.originCoverage ∅ (hcom ▸ (mem_coverageOf h).1)
  have hwin := checkWindow_spec (partitionOf ms ls) m
  rw [hcom] at hprobe
  rw [nextWindowId_eq h rfl] at hwin
  rw [dense_append h, coverageOf_append]
  simp only [checkCommit]
  -- each check in turn either passes or ends the call with an error
  by_cases h1 : m.eventTimeMinMs ≤ m.eventTimeMaxMs
  · rw [(checkTimes_spec m).1 h1]
    by_cases h2 : ∀ d, ms.head?.map (·.dataset) = some d → d = m.dataset
    · rw [(checkDataset_spec (partitionOf ms ls) m).1 h2]
      rcases eq_or_ne m.windowId ms.length with h3 | h3
      · rw [hwin.1 h3]
        exact ⟨fun hd => hprobe.1 hd.2.2.2, fun hd => hprobe.2 fun hf => hd ⟨h1, h2, h3, hf⟩⟩
      · obtain ⟨e, he⟩ := hwin.2 h3
        rw [he]
        exact ⟨fun hd => absurd hd.2.2.1 h3, fun _ => ⟨e, rfl⟩⟩
    · obtain ⟨e, he⟩ := (checkDataset_spec (partitionOf ms ls) m).2 h2
      rw [he]
      exact ⟨fun hd => absurd hd.2.1 h2, fun _ => ⟨e, rfl⟩⟩
  · obtain ⟨e, he⟩ := (checkTimes_spec m).2 h1
    rw [he]
    exact ⟨fun hd => absurd hd.1 h1, fun _ => ⟨e, rfl⟩⟩

end Duckspout
