import Mathlib.Data.List.Basic
import Mathlib.Order.Basic

/-! Tables under snapshot isolation.

    A committed row carries its version: how often a committed transaction has rewritten it. A
    transaction works on the rows of its snapshot, keeps its rewrites pending beside them and its
    inserts apart; committing lays the pending rewrites over the rows the table has by then and
    appends the inserts. Rows are never removed, so a row keeps its place. -/

namespace Snapshot

variable {α κ : Type}

/-- A committed row and the number of its rewrites. -/
structure Row (α : Type) where
  value : α
  version : ℕ := 0
  deriving DecidableEq, Repr

abbrev Table (α : Type) := List (Row α)

/-- The committed values of a table. -/
def values (t : Table α) : List α := t.map (·.value)

/-- A transaction's copy of a table: the snapshot's rows, each with its pending new value, and the
    rows inserted. -/
structure TableTxn (α : Type) where
  snap : List (Row α × Option α)
  inserted : List α := []

/-- The value of a row as the transaction sees it. -/
def current (x : Row α × Option α) : α := x.2.getD x.1.value

namespace TableTxn

def start (t : Table α) : TableTxn α := { snap := t.map fun r => (r, none) }

/-- The rows of the snapshot. -/
def base (x : TableTxn α) : Table α := x.snap.map (·.1)

/-- The rows the transaction sees: the snapshot with its own writes. -/
def view (x : TableTxn α) : List α := x.snap.map current ++ x.inserted

def insert (x : TableTxn α) (a : α) : TableTxn α := { x with inserted := x.inserted ++ [a] }

/-- Rewrites every row in view that satisfies `p`. -/
def update (x : TableTxn α) (p : α → Bool) (f : α → α) : TableTxn α where
  snap := x.snap.map fun y => if p (current y) then (y.1, some (f (current y))) else y
  inserted := x.inserted.map fun a => if p a then f a else a

end TableTxn

/-- The table with the pending rewrites laid over its rows. -/
def overlay : List (Row α × Option α) → Table α → Table α
  | (_, some v) :: snap, r :: t => ⟨v, r.version + 1⟩ :: overlay snap t
  | (_, none) :: snap, r :: t => r :: overlay snap t
  | [], t => t
  | _ :: _, [] => []

/-- No row with a pending rewrite was rewritten since the snapshot. -/
def fresh : List (Row α × Option α) → Table α → Bool
  | (r, some _) :: snap, s :: t => r.version == s.version && fresh snap t
  | (_, none) :: snap, _ :: t => fresh snap t
  | [], _ => true
  | _ :: _, [] => false

/-- The table after the transaction has committed. -/
def TableTxn.merge (x : TableTxn α) (t : Table α) : Table α :=
  overlay x.snap t ++ x.inserted.map fun a => { value := a }

@[simp] theorem TableTxn.base_start (t : Table α) : (TableTxn.start t).base = t := by
  simp [TableTxn.base, TableTxn.start, Function.comp_def]

@[simp] theorem TableTxn.base_insert (x : TableTxn α) (a : α) : (x.insert a).base = x.base := rfl

@[simp] theorem TableTxn.base_update (x : TableTxn α) (p : α → Bool) (f : α → α) :
    (x.update p f).base = x.base := by
  simp only [base, update, List.map_map]
  refine List.map_congr_left fun y _ => ?_
  simp only [Function.comp]
  split_ifs
  all_goals rfl

@[simp] theorem TableTxn.view_start (t : Table α) : (TableTxn.start t).view = values t := by
  simp only [view, start, values, List.map_map, List.append_nil]
  rfl

theorem overlay_start : ∀ t : Table α, overlay (t.map fun r => (r, none)) t = t
  | [] => rfl
  | r :: t => congrArg (r :: ·) (overlay_start t)

theorem TableTxn.merge_start (t : Table α) : (TableTxn.start t).merge t = t := by
  simp only [merge, start, overlay_start, List.map_nil, List.append_nil]

theorem TableTxn.merge_insert_start (t : Table α) (a : α) :
    ((TableTxn.start t).insert a).merge t = t ++ [{ value := a }] := by
  simp only [merge, insert, start, overlay_start, List.nil_append, List.map_cons, List.map_nil]

theorem values_overlay_base : ∀ snap : List (Row α × Option α),
    values (overlay snap (snap.map (·.1))) = snap.map current
  | [] => rfl
  | (_, none) :: snap => congrArg (_ :: ·) (values_overlay_base snap)
  | (_, some _) :: snap => congrArg (_ :: ·) (values_overlay_base snap)

/-- A transaction that commits on its own snapshot leaves what it sees. -/
theorem TableTxn.values_merge_base (x : TableTxn α) : values (x.merge x.base) = x.view := by
  have hover := values_overlay_base x.snap
  simp only [values, base, merge, view, List.map_append, List.map_map] at hover ⊢
  rw [hover]
  simp [Function.comp_def]

/-! ### A table grows in place -/

/-- `u` is `t` some commits later: every row in its place, with the same key. -/
def Later (key : α → κ) : Table α → Table α → Prop
  | [], _ => True
  | _ :: _, [] => False
  | r :: t, s :: u => key s.value = key r.value ∧ r.version ≤ s.version ∧ Later key t u

variable {key : α → κ}

theorem Later.refl : ∀ t : Table α, Later key t t
  | [] => trivial
  | _ :: t => ⟨rfl, Nat.le_refl _, Later.refl t⟩

theorem Later.trans : ∀ {t u v : Table α}, Later key t u → Later key u v → Later key t v
  | [], _, _, _, _ => trivial
  | _ :: _, _ :: _, _ :: _, h, h' => ⟨h'.1.trans h.1, Nat.le_trans h.2.1 h'.2.1, h.2.2.trans h'.2.2⟩

theorem later_append : ∀ t u : Table α, Later key t (t ++ u)
  | [], _ => trivial
  | _ :: t, u => ⟨rfl, Nat.le_refl _, later_append t u⟩

/-- The rows of an earlier table keep their keys. -/
theorem Later.keys : ∀ {t u : Table α}, Later key t u →
    (values u).map key = (values t).map key ++ ((values u).drop t.length).map key
  | [], _, _ => by simp [values]
  | r :: t, s :: u, h => by
    have ih := h.2.2.keys
    simp only [values, List.map_cons, List.length_cons, List.drop_succ_cons, List.cons_append,
      List.cons.injEq] at ih ⊢
    exact ⟨h.1, ih⟩

/-- The pending rewrites keep the keys. -/
def KeepsKey (key : α → κ) (snap : List (Row α × Option α)) : Prop :=
  ∀ y ∈ snap, ∀ v, y.2 = some v → key v = key y.1.value

theorem keepsKey_start (t : Table α) : KeepsKey key (TableTxn.start t).snap := by
  intro y hy v hv
  obtain ⟨r, -, rfl⟩ := List.mem_map.mp hy
  cases hv

theorem KeepsKey.update {x : TableTxn α} (hx : KeepsKey key x.snap) {p : α → Bool} {f : α → α}
    (hf : ∀ a, p a = true → key (f a) = key a) : KeepsKey key (x.update p f).snap := by
  intro y hy v hv
  obtain ⟨z, hz, rfl⟩ := List.mem_map.mp hy
  have hcur : key (current z) = key z.1.value := by
    rcases z with ⟨r, _ | w⟩
    · rfl
    · exact hx _ hz w rfl
  split_ifs at hv ⊢ with hp
  · cases hv
    exact (hf _ hp).trans hcur
  · exact hx z hz v hv

theorem overlay_length : ∀ {snap : List (Row α × Option α)} {t : Table α},
    Later key (snap.map (·.1)) t → (overlay snap t).length = t.length
  | [], _, _ => by simp [overlay]
  | (_, some _) :: _, _ :: _, h => by simp [overlay, overlay_length h.2.2]
  | (_, none) :: _, _ :: _, h => by simp [overlay, overlay_length h.2.2]

theorem overlay_later : ∀ {snap : List (Row α × Option α)} {t : Table α}, KeepsKey key snap →
    Later key (snap.map (·.1)) t → Later key t (overlay snap t)
  | [], t, _, _ => by
    rw [overlay]
    exact Later.refl t
  | (r, some v) :: snap, s :: t, hk, h => by
    have hv := hk (r, some v) List.mem_cons_self v rfl
    exact ⟨hv.trans h.1.symm, Nat.le_succ _,
      overlay_later (fun y hy => hk y (List.mem_cons_of_mem _ hy)) h.2.2⟩
  | (r, none) :: snap, s :: t, hk, h =>
    ⟨rfl, Nat.le_refl _, overlay_later (fun y hy => hk y (List.mem_cons_of_mem _ hy)) h.2.2⟩

theorem TableTxn.merge_later {x : TableTxn α} {t : Table α} (hk : KeepsKey key x.snap)
    (h : Later key x.base t) : Later key t (x.merge t) :=
  (overlay_later hk h).trans (later_append _ _)

/-- Merging keeps the keys of the rows and adds those of the inserted ones. -/
theorem TableTxn.merge_keys {x : TableTxn α} {t : Table α} (hk : KeepsKey key x.snap)
    (h : Later key x.base t) :
    (values (x.merge t)).map key = (values t).map key ++ x.inserted.map key := by
  have hover := (overlay_later hk h).keys
  rw [List.drop_eq_nil_of_le (by simp [values, overlay_length h])] at hover
  simp only [values, List.map_nil, List.append_nil] at hover
  simp only [merge, values, List.map_append, hover, List.map_map]
  rfl

/-- Nothing pending: merging only appends. -/
theorem overlay_none : ∀ {snap : List (Row α × Option α)} {t : Table α}, (∀ y ∈ snap, y.2 = none) →
    Later key (snap.map (·.1)) t → overlay snap t = t
  | [], _, _, _ => by rw [overlay]
  | (_, none) :: _, _ :: _, hn, h => by
    rw [overlay, overlay_none (fun y hy => hn y (List.mem_cons_of_mem _ hy)) h.2.2]
  | (r, some v) :: _, _, hn, _ => by
    have := hn (r, some v) List.mem_cons_self
    cases this

/-- The transaction has written `a`. -/
def TableTxn.Wrote (x : TableTxn α) (a : α) : Prop := (∃ y ∈ x.snap, y.2 = some a) ∨ a ∈ x.inserted

theorem mem_overlay : ∀ {snap : List (Row α × Option α)} {t : Table α} {a : α},
    Later key (snap.map (·.1)) t → (∃ y ∈ snap, y.2 = some a) → a ∈ values (overlay snap t)
  | [], _, _, _, ⟨_, hy, _⟩ => by cases hy
  | (r, o) :: snap, s :: t, a, h, ⟨y, hy, hv⟩ => by
    rcases List.mem_cons.mp hy with rfl | hy
    · simp only at hv
      subst hv
      exact List.mem_cons_self
    · have ih := mem_overlay h.2.2 ⟨y, hy, hv⟩
      rcases o with _ | w
      · exact List.mem_cons_of_mem _ ih
      · exact List.mem_cons_of_mem _ ih

theorem TableTxn.Wrote.mem_merge {x : TableTxn α} {t : Table α} {a : α} (ha : x.Wrote a)
    (h : Later key x.base t) : a ∈ values (x.merge t) := by
  simp only [merge, values, List.map_append, List.mem_append, List.map_map]
  rcases ha with hsnap | hins
  · exact .inl (mem_overlay h hsnap)
  · exact .inr (List.mem_map.mpr ⟨a, hins, rfl⟩)

/-- A row of the table stays, or a pending rewrite of its key takes its place. -/
theorem overlay_replaces : ∀ {snap : List (Row α × Option α)} {t : Table α} {a : α}, KeepsKey key snap →
    Later key (snap.map (·.1)) t → a ∈ values t → a ∈ values (overlay snap t) ∨
      ∃ v ∈ values (overlay snap t), key v = key a ∧ ∃ y ∈ snap, y.2 = some v
  | [], _, _, _, _, ha => .inl (by rw [overlay]; exact ha)
  | (r, o) :: snap, s :: t, a, hk, h, ha => by
    have hk' : KeepsKey key snap := fun y hy => hk y (List.mem_cons_of_mem _ hy)
    rcases List.mem_cons.mp ha with rfl | ha
    · rcases o with _ | v
      · exact .inl List.mem_cons_self
      · have hv := hk (r, some v) List.mem_cons_self v rfl
        exact .inr ⟨v, List.mem_cons_self, hv.trans h.1.symm, _, List.mem_cons_self, rfl⟩
    · rcases overlay_replaces hk' h.2.2 ha with hstays | ⟨v, hv, hkey, y, hy, hpending⟩
      · refine .inl ?_
        rcases o with _ | w
        · exact List.mem_cons_of_mem _ hstays
        · exact List.mem_cons_of_mem _ hstays
      · refine .inr ⟨v, ?_, hkey, y, List.mem_cons_of_mem _ hy, hpending⟩
        rcases o with _ | w
        · exact List.mem_cons_of_mem _ hv
        · exact List.mem_cons_of_mem _ hv

/-! ### The version of the first row of a key -/

variable [DecidableEq κ]

/-- The version of the first row with key `k`. -/
def stamp (key : α → κ) (k : κ) (t : Table α) : Option ℕ :=
  (t.find? fun r => key r.value = k).map (·.version)

theorem stamp_cons (k : κ) (r : Row α) (t : Table α) :
    stamp key k (r :: t) = if key r.value = k then some r.version else stamp key k t := by
  rcases eq_or_ne (key r.value) k with h | h
  · simp [stamp, h]
  · simp [stamp, h]

theorem stamp_append_of_some {k : κ} {t : Table α} {n : ℕ} (u : Table α) (h : stamp key k t = some n) :
    stamp key k (t ++ u) = some n := by
  simp only [stamp, Option.map_eq_some_iff] at h ⊢
  obtain ⟨r, hr, hn⟩ := h
  exact ⟨r, by rw [List.find?_append, hr, Option.some_or], hn⟩

theorem stamp_isSome {k : κ} {t : Table α} : (stamp key k t).isSome ↔ k ∈ (values t).map key := by
  simp [stamp, values]

/-- A key stays, and the version of its first row only grows. -/
theorem Later.stamp_le {k : κ} : ∀ {t u : Table α}, Later key t u → ∀ {n}, stamp key k t = some n →
    ∃ m, stamp key k u = some m ∧ n ≤ m
  | [], _, _, _, hn => by simp [stamp] at hn
  | r :: t, s :: u, h, n, hn => by
    rw [stamp_cons] at hn ⊢
    rw [h.1]
    split_ifs at hn ⊢ with hr
    · cases hn
      exact ⟨s.version, rfl, h.2.1⟩
    · exact h.2.2.stamp_le hn

/-- The pending rewrites are those of the rows with key `k`. -/
def Rewrites (key : α → κ) (k : κ) (snap : List (Row α × Option α)) : Prop :=
  ∀ y ∈ snap, y.2.isSome = decide (key y.1.value = k)

/-- A rewrite of the rows of a key raises the version of its first row. -/
theorem stamp_overlay_self {k : κ} : ∀ {snap : List (Row α × Option α)} {t : Table α},
    KeepsKey key snap → Rewrites key k snap → Later key (snap.map (·.1)) t →
    ∀ {n m}, stamp key k (snap.map (·.1)) = some n → stamp key k t = some m →
      stamp key k (overlay snap t) = some (m + 1)
  | [], _, _, _, _, _, _, hn, _ => by simp [stamp] at hn
  | (r, o) :: snap, s :: t, hk, hw, h, n, m, hn, hm => by
    have hr := hw (r, o) List.mem_cons_self
    rw [List.map_cons, stamp_cons] at hn
    rw [stamp_cons, h.1] at hm
    rcases eq_or_ne (key r.value) k with hkey | hkey
    · rw [if_pos hkey, Option.some.injEq] at hm
      rcases o with _ | v
      · simp [hkey] at hr
      · have hv := hk (r, some v) List.mem_cons_self v rfl
        rw [overlay, stamp_cons, if_pos (hv.trans hkey), ← hm]
    · rw [if_neg hkey] at hn hm
      rcases o with _ | v
      · rw [overlay, stamp_cons, h.1, if_neg hkey]
        exact stamp_overlay_self (fun y hy => hk y (List.mem_cons_of_mem _ hy))
          (fun y hy => hw y (List.mem_cons_of_mem _ hy)) h.2.2 hn hm
      · simp [hkey] at hr

/-- A fresh rewrite of a key finds its first row at the version of the snapshot. -/
theorem fresh_stamp {k : κ} : ∀ {snap : List (Row α × Option α)} {t : Table α},
    fresh snap t = true → Rewrites key k snap → Later key (snap.map (·.1)) t →
    ∀ {n}, stamp key k (snap.map (·.1)) = some n → stamp key k t = some n
  | [], _, _, _, _, _, hn => by simp [stamp] at hn
  | (r, o) :: snap, s :: t, hf, hw, h, n, hn => by
    have hr := hw (r, o) List.mem_cons_self
    have hw' : Rewrites key k snap := fun y hy => hw y (List.mem_cons_of_mem _ hy)
    rw [List.map_cons, stamp_cons] at hn
    rw [stamp_cons, h.1]
    rcases eq_or_ne (key r.value) k with hkey | hkey
    · rw [if_pos hkey] at hn ⊢
      rcases o with _ | v
      · simp [hkey] at hr
      · simp only [fresh, Bool.and_eq_true, beq_iff_eq] at hf
        rw [← hf.1]
        exact hn
    · rw [if_neg hkey] at hn ⊢
      rcases o with _ | v
      · have hf' : fresh snap t = true := by simpa only [fresh] using hf
        exact fresh_stamp hf' hw' h.2.2 hn
      · simp [hkey] at hr

end Snapshot
