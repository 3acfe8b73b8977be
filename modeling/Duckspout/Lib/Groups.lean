import Duckspout.Lib.OrdMap

/-! Maps built from lists: grouping, where each element goes under its key, and fetching, where each key's value comes
    from a source that may fail.

    `get_foldl_upsert` is the rule for any grouping: what is under a key has been made from the elements of that key alone,
    in the order of the list. -/

namespace OrdMap

variable {α K V : Type} [LinearOrder K]

section Upsert

variable [Inhabited V] [DecidableEq K] (key : α → K) (f : α → V → V)

theorem get_foldl_upsert (l : List α) (t : OrdMap K V) (k : K) :
    (l.foldl (fun t a => t.upsert (key a) (f a)) t)[k]?.getD default =
      (l.filter (key · = k)).foldl (fun v a => f a v) (t[k]?.getD default) := by
  induction l generalizing t with
  | nil => rfl
  | cons a l ih =>
    rw [List.foldl_cons, ih, get_upsert]
    by_cases h : key a = k
    · simp [h]
    · simp [h]

omit [DecidableEq K] in
theorem isSome_foldl_upsert (l : List α) (t : OrdMap K V) (k : K) :
    (l.foldl (fun t a => t.upsert (key a) (f a)) t)[k]?.isSome ↔ t[k]?.isSome ∨ ∃ a ∈ l, key a = k := by
  induction l generalizing t with
  | nil => simp
  | cons a l ih =>
    rw [List.foldl_cons, ih, get_upsert]
    by_cases h : key a = k
    · simp [h]
    · simp [h]

end Upsert

/-- `entry(k).or_default().push(v)`. -/
def push (t : OrdMap K (List V)) (k : K) (v : V) : OrdMap K (List V) := t.upsert k (· ++ [v])

/-- The elements by key, in the order of the list. -/
def groupBy (key : α → K) (val : α → V) (l : List α) : OrdMap K (List V) :=
  l.foldl (fun t a => t.push (key a) (val a)) ∅

theorem foldl_concat (val : α → V) (l : List α) (vs : List V) :
    l.foldl (fun vs a => vs ++ [val a]) vs = vs ++ l.map val := by
  induction l generalizing vs with
  | nil => simp
  | cons a l ih => simp [ih]

theorem getD_groupBy [DecidableEq K] (key : α → K) (val : α → V) (l : List α) (k : K) :
    (groupBy key val l)[k]?.getD [] = (l.filter (key · = k)).map val := by
  rw [← List.nil_append (List.map _ _), ← foldl_concat]
  exact get_foldl_upsert key (fun a (vs : List V) => vs ++ [val a]) l ∅ k

theorem isSome_groupBy (key : α → K) (val : α → V) (l : List α) (k : K) :
    (groupBy key val l)[k]?.isSome ↔ ∃ a ∈ l, key a = k :=
  (isSome_foldl_upsert key (fun a (vs : List V) => vs ++ [val a]) l ∅ k).trans (by simp)

/-- A group has the elements of its key, and is there if there are any. -/
theorem get_groupBy_eq_some [DecidableEq K] (key : α → K) (val : α → V) (l : List α) (k : K) (vs : List V) :
    (groupBy key val l)[k]? = some vs ↔ vs ≠ [] ∧ (l.filter (key · = k)).map val = vs := by
  have hget := getD_groupBy key val l k
  have hsome := isSome_groupBy key val l k
  rw [← hget]
  rcases h : (groupBy key val l)[k]? with _ | ws
  · simp
  · rw [h] at hget hsome
    obtain ⟨a, ha, hk⟩ := hsome.mp rfl
    have hne : ws ≠ [] := by
      rw [show ws = (l.filter (key · = k)).map val from hget]
      exact List.ne_nil_of_mem (List.mem_map_of_mem (List.mem_filter.mpr ⟨ha, decide_eq_true hk⟩))
    simp only [Option.some.injEq, Option.getD_some]
    exact ⟨fun hvs => ⟨hvs ▸ hne, hvs⟩, fun hvs => hvs.2⟩

theorem mem_of_get_groupBy {key : α → K} {val : α → V} {l : List α} {k : K} {vs : List V}
    (h : (groupBy key val l)[k]? = some vs) (v : V) : v ∈ vs ↔ ∃ a ∈ l, key a = k ∧ val a = v := by
  obtain ⟨-, rfl⟩ := (get_groupBy_eq_some ..).mp h
  simp [and_assoc]

section Fetch

variable {E : Type} (fetch : K → Except E V)

/-- Fetches the value of each key, up to the first that fails. -/
def fetchAll (keys : List K) (t : OrdMap K V) : Except E (OrdMap K V) :=
  keys.foldlM (fun t k => do return t.insert k (← fetch k)) t

theorem fetchAll_spec (keys : List K) : ∀ t : OrdMap K V,
    (∃ t', fetchAll fetch keys t = .ok t' ∧ (∀ k ∈ keys, ∃ v, fetch k = .ok v ∧ t'[k]? = some v) ∧
      ∀ k, k ∉ keys → t'[k]? = t[k]?) ∨
    ∃ k ∈ keys, ∃ err, fetchAll fetch keys t = .error err ∧ fetch k = .error err := by
  induction keys with
  | nil => exact fun t => .inl ⟨t, rfl, by simp, fun _ _ => rfl⟩
  | cons k keys ih =>
    intro t
    rcases hfetch : fetch k with err | v
    · exact .inr ⟨k, List.mem_cons_self, err, by simp [fetchAll, hfetch]; rfl, hfetch⟩
    · have hstep : fetchAll fetch (k :: keys) t = fetchAll fetch keys (t.insert k v) := by
        simp [fetchAll, hfetch]
        rfl
      rw [hstep]
      rcases ih (t.insert k v) with ⟨t', hall, hin, hout⟩ | ⟨k', hk', err, hall, herr⟩
      · refine .inl ⟨t', hall, fun k' hk' => ?_, fun k' hk' => ?_⟩
        · by_cases hmem : k' ∈ keys
          · exact hin k' hmem
          · obtain rfl := (List.mem_cons.mp hk').resolve_right hmem
            exact ⟨v, hfetch, by rw [hout k' hmem, get_insert_self]⟩
        · rw [List.mem_cons, not_or] at hk'
          rw [hout k' hk'.2, get_insert, if_neg (Ne.symm hk'.1)]
      · exact .inr ⟨k', List.mem_cons_of_mem k hk', err, hall, herr⟩

end Fetch

end OrdMap
