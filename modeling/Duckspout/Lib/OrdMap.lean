import Mathlib.Order.Compare
import Mathlib.Order.Lattice
import Std.Data.ExtTreeMap

/-! Ordered maps with extensional equality: the tree maps of the standard library, keyed by a linear
    order, with the lookup laws stated on key equality instead of on comparison results. -/

/-- A map ordered by its keys. -/
abbrev OrdMap (K V : Type) [LinearOrder K] := Std.ExtTreeMap K V compare

namespace OrdMap

variable {K V : Type} [LinearOrder K]

instance instTransCmp : Std.TransCmp (compare : K → K → Ordering) := inferInstance

instance instLawfulEqCmp : Std.LawfulEqCmp (compare : K → K → Ordering) := ⟨fun h => compare_eq_iff_eq.mp h⟩

/-- Lookup after an insertion. -/
theorem get_insert (t : OrdMap K V) (k a : K) (v : V) :
    (t.insert k v)[a]? = if k = a then some v else t[a]? := by
  rw [Std.ExtTreeMap.getElem?_insert]
  simp only [compare_eq_iff_eq]

theorem get_insert_self (t : OrdMap K V) (k : K) (v : V) : (t.insert k v)[k]? = some v := by
  rw [get_insert, if_pos rfl]

@[simp] theorem get_empty (k : K) : (∅ : OrdMap K V)[k]? = none := Std.ExtTreeMap.getElem?_empty

/-- Two maps with the same lookups are equal. -/
theorem ext {t u : OrdMap K V} (h : ∀ k : K, t[k]? = u[k]?) : t = u := Std.ExtTreeMap.ext_getElem? h

/-- The value under `k`, made by `f` from the present value or from the default. -/
def upsert [Inhabited V] (t : OrdMap K V) (k : K) (f : V → V) : OrdMap K V :=
  t.insert k (f (t[k]?.getD default))

theorem get_upsert [Inhabited V] (t : OrdMap K V) (k a : K) (f : V → V) :
    (t.upsert k f)[a]? = if k = a then some (f (t[k]?.getD default)) else t[a]? := by
  rw [upsert, get_insert]

theorem mem_toList {t : OrdMap K V} {k : K} {v : V} : (k, v) ∈ t.toList ↔ t[k]? = some v :=
  Std.ExtTreeMap.mem_toList_iff_getElem?_eq_some

theorem union_empty (t : OrdMap K V) : t ∪ ∅ = t :=
  ext fun k => by rw [Std.ExtTreeMap.getElem?_union, get_empty, Option.none_or]

omit [LinearOrder K] in
theorem foldl_update_of_notMem {W : Type} [DecidableEq K] (g : V → W) {k : K} (l : List (K × V)) :
    ∀ f : K → Option W, (∀ x ∈ l, x.1 ≠ k) →
      (l.foldl (fun (f : K → Option W) x => Function.update f x.1 (some (g x.2))) f) k = f k := by
  induction l with
  | nil => exact fun _ _ => rfl
  | cons x l ih =>
    intro f h
    rw [List.foldl_cons, ih _ fun y hy => h y (List.mem_cons_of_mem x hy)]
    exact Function.update_of_ne (h x List.mem_cons_self).symm ..

omit [LinearOrder K] in
theorem foldl_update_of_mem {W : Type} [DecidableEq K] (g : V → W) {k : K} {v : V} (l : List (K × V)) :
    ∀ f : K → Option W, (k, v) ∈ l → (∀ x ∈ l, x.1 = k → x.2 = v) →
      (l.foldl (fun (f : K → Option W) x => Function.update f x.1 (some (g x.2))) f) k = some (g v) := by
  induction l with
  | nil =>
    intro f h
    cases h
  | cons x l ih =>
    intro f hmem hone
    rw [List.foldl_cons]
    by_cases hl : (k, v) ∈ l
    · exact ih _ hl fun y hy => hone y (List.mem_cons_of_mem x hy)
    · obtain rfl := (List.mem_cons.mp hmem).resolve_right hl
      rw [foldl_update_of_notMem g l]
      · exact Function.update_self ..
      · intro y hy hk
        have hv := hone y (List.mem_cons_of_mem _ hy) hk
        exact hl ((Prod.ext hk hv : y = (k, v)) ▸ hy)

/-- Writing every entry of a map over a function. -/
theorem foldl_update_toList {W : Type} [DecidableEq K] (t : OrdMap K V) (g : V → W) (f : K → Option W) (k : K) :
    (t.toList.foldl (fun (f : K → Option W) x => Function.update f x.1 (some (g x.2))) f) k = (t[k]?.map g).or (f k) := by
  cases hk : t[k]? with
  | none =>
    refine foldl_update_of_notMem g _ _ ?_
    rintro ⟨a, v⟩ hx rfl
    rw [mem_toList, hk] at hx
    cases hx
  | some v =>
    refine foldl_update_of_mem g _ _ (mem_toList.mpr hk) ?_
    rintro ⟨a, w⟩ hx rfl
    rw [mem_toList, hk] at hx
    exact (Option.some.inj hx).symm

/-- The last key in order, if any. -/
def lastKey? (t : OrdMap K V) : Option K := t.keys.getLast?

theorem mem_keys {t : OrdMap K V} {k : K} : k ∈ t.keys ↔ t[k]?.isSome := by
  rw [Std.ExtTreeMap.mem_keys, Std.ExtTreeMap.mem_iff_isSome_getElem?]

theorem lastKey?_empty : (∅ : OrdMap K V).lastKey? = none := rfl

/-- The last key is present and bounds the present ones. -/
theorem lastKey?_eq_some_iff {t : OrdMap K V} {k : K} :
    t.lastKey? = some k ↔ t[k]?.isSome ∧ ∀ a : K, t[a]?.isSome → a ≤ k := by
  have hord := Std.ExtTreeMap.ordered_keys (t := t)
  simp only [compare_lt_iff_lt] at hord
  constructor
  · intro h
    obtain ⟨init, hinit⟩ := List.getLast?_eq_some_iff.mp h
    refine ⟨mem_keys.mp (by rw [hinit]; simp), fun a ha => ?_⟩
    rw [← mem_keys, hinit] at ha
    rw [hinit, List.pairwise_append] at hord
    rcases List.mem_append.mp ha with ha | ha
    · exact (hord.2.2 a ha k (by simp)).le
    · exact (List.mem_singleton.mp ha).le
  · rintro ⟨hk, hmax⟩
    cases hl : t.lastKey? with
    | none =>
      have hnil : t.keys = [] := List.getLast?_eq_none_iff.mp hl
      have hin := mem_keys.mpr hk
      simp [hnil] at hin
    | some l =>
      obtain ⟨init, hinit⟩ := List.getLast?_eq_some_iff.mp hl
      have hle : l ≤ k := hmax l (mem_keys.mp (by rw [hinit]; simp))
      have hin := mem_keys.mpr hk
      rw [hinit] at hin
      rw [hinit, List.pairwise_append] at hord
      rcases List.mem_append.mp hin with hin | hin
      · exact absurd (hord.2.2 k hin l (by simp)) (not_lt.mpr hle)
      · rw [List.mem_singleton.mp hin]

end OrdMap
