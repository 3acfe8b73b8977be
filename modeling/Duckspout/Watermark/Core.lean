import Duckspout.Watermark.History

/-! What a record and its watermark depend on: of each manifest its window, its dataset, its coverage
    and its event-time maximum. Counts and parts play no role, so two records that agree on the rest are
    dense together and stand at the same watermark. -/

namespace Duckspout

/-- The part of a manifest the record depends on. -/
def WindowManifest.core (m : WindowManifest) : WindowId × DatasetId × List OriginSeqRange × ℤ :=
  (m.windowId, m.dataset, m.originCoverage, m.eventTimeMaxMs)

/-- The watermark of a partition's record without losses. -/
def watermarkOf (ms : List WindowManifest) : Option ℤ := (partitionOf ms []).completeThroughMs

section Core

variable {as bs : List WindowManifest}

theorem map_eq_of_core {β : Type} (h : as.map WindowManifest.core = bs.map WindowManifest.core)
    (f : WindowId × DatasetId × List OriginSeqRange × ℤ → β) :
    as.map (fun m => f m.core) = bs.map fun m => f m.core := by
  have hf := congrArg (List.map f) h
  rwa [List.map_map, List.map_map] at hf

theorem take_core (h : as.map WindowManifest.core = bs.map WindowManifest.core) (k : ℕ) :
    (as.take k).map WindowManifest.core = (bs.take k).map WindowManifest.core := by
  rw [List.map_take, List.map_take, h]

theorem flatMap_core (h : as.map WindowManifest.core = bs.map WindowManifest.core) :
    as.flatMap (·.originCoverage) = bs.flatMap (·.originCoverage) := by
  rw [List.flatMap_def, List.flatMap_def]
  exact congrArg List.flatten (map_eq_of_core h (·.2.2.1))

theorem coverageOf_core (h : as.map WindowManifest.core = bs.map WindowManifest.core) :
    coverageOf as = coverageOf bs := by
  rw [coverageOf, coverageOf, flatMap_core h]

theorem eventMaxOf_core (h : as.map WindowManifest.core = bs.map WindowManifest.core) :
    eventMaxOf as = eventMaxOf bs := by
  have hmax : as.map (·.eventTimeMaxMs) = bs.map (·.eventTimeMaxMs) := map_eq_of_core h (·.2.2.2)
  have hfold : ∀ ms : List WindowManifest,
      eventMaxOf ms = (ms.map (·.eventTimeMaxMs)).foldl PartitionState.maxTime none := by
    intro ms
    rw [List.foldl_map]
    rfl
  rw [hfold, hfold, hmax]

theorem lastComplete_core (h : as.map WindowManifest.core = bs.map WindowManifest.core)
    (losses : OriginCoverage) (n : ℕ) : lastComplete as losses n = lastComplete bs losses n := by
  induction n with
  | zero => rfl
  | succ n ih =>
    rw [lastComplete, lastComplete, completeAt, completeAt, coverageOf_core (take_core h (n + 1)), ih]

/-- Records with the same cores have the same watermark. -/
theorem watermarkOf_core (h : as.map WindowManifest.core = bs.map WindowManifest.core) :
    watermarkOf as = watermarkOf bs := by
  have hlen : as.length = bs.length := by simpa using congrArg List.length h
  change eventMaxOf (as.take (span (lastComplete as _ as.length))) =
    eventMaxOf (bs.take (span (lastComplete bs _ bs.length)))
  rw [lastComplete_core h, hlen]
  exact eventMaxOf_core (take_core h _)

/-- Records with the same cores are dense together, as far as their event times are in order. -/
theorem dense_core (h : as.map WindowManifest.core = bs.map WindowManifest.core) (hb : Dense bs)
    (htimes : ∀ m ∈ as, m.eventTimeMinMs ≤ m.eventTimeMaxMs) : Dense as := by
  have hlen : as.length = bs.length := by simpa using congrArg List.length h
  have hdataset : as.map (·.dataset) = bs.map (·.dataset) := map_eq_of_core h (·.2.1)
  have hcov : as.map (·.originCoverage) = bs.map (·.originCoverage) := map_eq_of_core h (·.2.2.1)
  have hwindow : as.map (·.windowId) = bs.map (·.windowId) := map_eq_of_core h (·.1)
  refine ⟨fun i hi => ?_, fun m hm => ?_, htimes, fun m hm r hr => ?_, ?_⟩
  · have hi' : i < bs.length := hlen ▸ hi
    have hget : (as.map (·.windowId))[i]? = (bs.map (·.windowId))[i]? := by rw [hwindow]
    simp only [List.getElem?_map, List.getElem?_eq_getElem hi, List.getElem?_eq_getElem hi',
      Option.map_some, Option.some.injEq] at hget
    exact hget.trans (hb.window i hi')
  · have hmem : m.dataset ∈ bs.map (·.dataset) := hdataset ▸ List.mem_map.mpr ⟨m, hm, rfl⟩
    obtain ⟨b, hbm, hbd⟩ := List.mem_map.mp hmem
    rw [← List.head?_map, hdataset, List.head?_map, hb.dataset b hbm, hbd]
  · have hmem : m.originCoverage ∈ bs.map (·.originCoverage) := hcov ▸ List.mem_map.mpr ⟨m, hm, rfl⟩
    obtain ⟨b, hbm, hbc⟩ := List.mem_map.mp hmem
    exact hb.valid b hbm r (hbc ▸ hr)
  · rw [flatMap_core h]
    exact hb.clear

end Core

/-- The watermark of a longer record is no lower. -/
theorem watermarkOf_mono {ms ms' : List WindowManifest} (h : Dense ms') (hpre : ms <+: ms') {t : ℤ}
    (ht : watermarkOf ms = some t) : ∃ t', watermarkOf ms' = some t' ∧ t ≤ t' := by
  have hle : watermarkOf ms ≤ watermarkOf ms' :=
    (partitionOf_mono h hpre (fun l hl => hl) fun l hl => by cases hl).2
  rw [ht] at hle
  cases ht' : watermarkOf ms' with
  | none =>
    rw [ht'] at hle
    exact hle.elim
  | some t' =>
    rw [ht'] at hle
    exact ⟨t', rfl, hle⟩

end Duckspout
