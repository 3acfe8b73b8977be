import Mathlib.Data.List.Induction
import Mathlib.Data.List.Infix

/-! Texts taken apart: at the first place a pattern stands, at the last place an element stands, and into the tokens
    between blanks.

    Where the first place is depends on nothing behind the pattern: `splitOnce_eq_some` says so, and what is behind can be
    replaced without moving it. -/

namespace Pieces

variable {α : Type}

section

variable [DecidableEq α]

/-- What stands before and behind the first occurrence of a pattern. -/
def splitOnce (pat : List α) : List α → Option (List α × List α)
  | [] => if pat = [] then some ([], []) else none
  | a :: l =>
    if pat <+: a :: l then some ([], (a :: l).drop pat.length)
    else (splitOnce pat l).map fun x => (a :: x.1, x.2)

/-- What stands before and behind the last occurrence of an element. -/
def rsplitOnce (sep : α) (l : List α) : Option (List α × List α) :=
  (splitOnce [sep] l.reverse).map fun x => (x.2.reverse, x.1.reverse)

variable {pat l a b : List α} {sep : α}

theorem splitOnce_eq_some (hpat : pat ≠ []) :
    splitOnce pat l = some (a, b) ↔ l = a ++ pat ++ b ∧ ¬ pat <:+: (a ++ pat).dropLast := by
  induction l generalizing a with
  | nil => simp [splitOnce, hpat]
  | cons c l ih =>
    have hdrop (a' : List α) : (c :: a' ++ pat).dropLast = c :: (a' ++ pat).dropLast := by
      rw [List.cons_append, List.dropLast_cons_of_ne_nil (List.append_ne_nil_of_right_ne_nil a' hpat)]
    rw [splitOnce]
    split_ifs with hstart
    · obtain ⟨rest, hrest⟩ := hstart
      rw [← hrest, List.drop_left, Option.some.injEq, Prod.mk.injEq]
      constructor
      · rintro ⟨rfl, rfl⟩
        refine ⟨rfl, fun hin => ?_⟩
        have hlt := hin.length_le
        have hpos := List.length_pos_iff.mpr hpat
        simp only [List.nil_append, List.length_dropLast] at hlt
        omega
      · rintro ⟨heq, hfirst⟩
        cases a with
        | nil => simpa using heq
        | cons d a' =>
          -- an occurrence at the front would stand before the end of `a ++ pat`
          refine absurd (List.IsPrefix.isInfix ?_) hfirst
          have hwhole : pat <+: d :: a' ++ pat ++ b := heq ▸ List.prefix_append pat rest
          refine List.prefix_of_prefix_length_le hwhole ((List.dropLast_prefix _).trans (List.prefix_append _ b)) ?_
          simp
    · cases a with
      | nil =>
        simp only [Option.map_eq_some_iff, Prod.mk.injEq, List.cons_ne_nil, false_and, and_false, exists_false, false_iff,
          not_and, List.nil_append]
        exact fun heq _ => hstart ⟨b, heq.symm⟩
      | cons d a' =>
        have hfirst : l = a' ++ pat ++ b → (pat <:+: c :: (a' ++ pat).dropLast ↔ pat <:+: (a' ++ pat).dropLast) := by
          intro hl
          rw [List.infix_cons_iff, or_iff_right]
          refine fun hfront => hstart (hfront.trans ((List.prefix_cons_inj c).mpr ?_))
          exact hl ▸ (List.dropLast_prefix _).trans (List.prefix_append _ b)
        constructor
        · intro h
          obtain ⟨x, hx, hcons⟩ := Option.map_eq_some_iff.mp h
          obtain ⟨hhead, rfl⟩ := Prod.mk.inj hcons
          obtain ⟨rfl, rfl⟩ := List.cons.inj hhead
          obtain ⟨hl, hnot⟩ := ih.mp hx
          exact ⟨by rw [hl]; simp, by rw [hdrop, hfirst hl]; exact hnot⟩
        · rintro ⟨heq, hnot⟩
          obtain ⟨rfl, hl⟩ := List.cons.inj heq
          rw [hdrop, hfirst hl] at hnot
          rw [ih.mpr ⟨hl, hnot⟩]
          rfl

theorem splitOnce_eq_none (hpat : pat ≠ []) : splitOnce pat l = none ↔ ¬ pat <:+: l := by
  induction l with
  | nil => simp [splitOnce, hpat]
  | cons c l ih =>
    rw [splitOnce, List.infix_cons_iff]
    split_ifs with hstart
    · simp [hstart]
    · simp [hstart, ih]

theorem splitOnce_singleton : splitOnce [sep] l = some (a, b) ↔ l = a ++ sep :: b ∧ sep ∉ a := by
  rw [splitOnce_eq_some (List.cons_ne_nil _ _), List.append_assoc, List.singleton_append, List.dropLast_concat,
    List.singleton_infix_iff]

theorem rsplitOnce_eq_some : rsplitOnce sep l = some (a, b) ↔ l = a ++ sep :: b ∧ sep ∉ b := by
  have hreverse : l.reverse = b.reverse ++ sep :: a.reverse ↔ l = a ++ sep :: b := by
    rw [← List.reverse_inj]
    simp
  rw [rsplitOnce, ← hreverse, ← List.mem_reverse, ← splitOnce_singleton]
  constructor
  · intro h
    obtain ⟨x, hx, heq⟩ := Option.map_eq_some_iff.mp h
    obtain ⟨rfl, rfl⟩ := Prod.mk.inj heq
    simpa using hx
  · intro h
    rw [h]
    simp

theorem rsplitOnce_eq_none : rsplitOnce sep l = none ↔ sep ∉ l := by
  rw [rsplitOnce, Option.map_eq_none_iff, splitOnce_eq_none (List.cons_ne_nil _ _), List.singleton_infix_iff,
    List.mem_reverse]

end

/-! ### Tokens -/

section

variable (blank : α → Bool)

/-- The longest pieces without a blank. -/
def tokens (l : List α) : List (List α) := (l.splitOnP blank).filter (!·.isEmpty)

variable {blank} {l a b t m : List α} {sep : α}

@[simp] theorem tokens_nil : tokens blank [] = [] := by simp [tokens]

/-- A blank ends a token. -/
theorem tokens_append_cons (hsep : blank sep = true) : tokens blank (a ++ sep :: b) = tokens blank a ++ tokens blank b := by
  rw [tokens, List.splitOnP_append_cons _ _ hsep, List.filter_append]
  rfl

theorem tokens_of_solid (ht : t ≠ []) (hsolid : ∀ c ∈ t, blank c = false) : tokens blank t = [t] := by
  rw [tokens, List.splitOnP_eq_singleton hsolid]
  simp [ht]

/-- Solid pieces put together with blanks come apart again. -/
theorem tokens_intercalate (hsep : blank sep = true) {ts : List (List α)}
    (hsolid : ∀ t ∈ ts, t ≠ [] ∧ ∀ c ∈ t, blank c = false) : tokens blank ([sep].intercalate ts) = ts := by
  induction ts with
  | nil => rfl
  | cons t ts ih =>
    obtain ⟨⟨ht, hsolid⟩, hrest⟩ := List.forall_mem_cons.mp hsolid
    have hone := tokens_of_solid ht hsolid
    cases ts with
    | nil => simpa using hone
    | cons u ts =>
      rw [List.intercalate_cons_cons, List.append_assoc, List.singleton_append, tokens_append_cons hsep, hone, ih hrest]
      rfl

/-- A text is solid, or it has a first blank. -/
theorem solid_or_blank (blank : α → Bool) (l : List α) :
    (∀ c ∈ l, blank c = false) ∨ ∃ a sep b, l = a ++ sep :: b ∧ (∀ c ∈ a, blank c = false) ∧ blank sep = true := by
  induction l with
  | nil => exact .inl (by simp)
  | cons c l ih =>
    cases hc : blank c with
    | true => exact .inr ⟨[], c, l, rfl, by simp, hc⟩
    | false =>
      rcases ih with hsolid | ⟨a, sep, b, rfl, hsolid, hsep⟩
      · exact .inl (List.forall_mem_cons.mpr ⟨hc, hsolid⟩)
      · exact .inr ⟨c :: a, sep, b, rfl, List.forall_mem_cons.mpr ⟨hc, hsolid⟩, hsep⟩

/-- A token is a solid part of its text. -/
theorem infix_of_mem_tokens (h : t ∈ tokens blank l) : t <:+: l ∧ ∀ c ∈ t, blank c = false := by
  have hsolid {s : List α} (hs : ∀ c ∈ s, blank c = false) (ht : t ∈ tokens blank s) : t = s := by
    rcases eq_or_ne s [] with rfl | hne
    · simp at ht
    · rw [tokens_of_solid hne hs] at ht
      exact List.mem_singleton.mp ht
  induction hn : l.length using Nat.strong_induction_on generalizing l with
  | _ n ih =>
    rcases solid_or_blank blank l with hl | ⟨a, sep, b, rfl, ha, hsep⟩
    · cases hsolid hl h
      exact ⟨List.infix_rfl, hl⟩
    · rw [tokens_append_cons hsep] at h
      rcases List.mem_append.mp h with h | h
      · cases hsolid ha h
        exact ⟨(List.prefix_append t _).isInfix, ha⟩
      · obtain ⟨hin, ht⟩ := ih b.length (by simp at hn; omega) h rfl
        exact ⟨hin.trans ⟨a ++ [sep], [], by simp⟩, ht⟩

/-- What a text begins with up to its first blank begins a token. -/
theorem exists_token_prefix (hm : m ≠ []) (hsolid : ∀ c ∈ m, blank c = false) : ∃ t ∈ tokens blank (m ++ b), m <+: t := by
  have hone {x : List α} (hx : ∀ c ∈ x, blank c = false) : tokens blank (m ++ x) = [m ++ x] :=
    tokens_of_solid (List.append_ne_nil_of_left_ne_nil hm x) (List.forall_mem_append.mpr ⟨hsolid, hx⟩)
  rcases solid_or_blank blank b with hb | ⟨x, sep, y, rfl, hx, hsep⟩
  · exact ⟨m ++ b, by rw [hone hb]; exact List.mem_singleton_self _, List.prefix_append m b⟩
  · rw [← List.append_assoc, tokens_append_cons hsep, hone hx]
    exact ⟨m ++ x, List.mem_cons_self, List.prefix_append m x⟩

/-- A solid part of a text is part of a token. -/
theorem exists_token (a b : List α) (hm : m ≠ []) (hsolid : ∀ c ∈ m, blank c = false) :
    ∃ t ∈ tokens blank (a ++ m ++ b), m <:+: t := by
  induction a using List.reverseRecOn generalizing m with
  | nil =>
    obtain ⟨t, ht, hstart⟩ := exists_token_prefix (b := b) hm hsolid
    exact ⟨t, by simpa using ht, hstart.isInfix⟩
  | append_singleton a c ih =>
    cases hc : blank c with
    | true =>
      obtain ⟨t, ht, hstart⟩ := exists_token_prefix (b := b) hm hsolid
      refine ⟨t, ?_, hstart.isInfix⟩
      rw [List.append_assoc, List.append_assoc, List.singleton_append, tokens_append_cons hc]
      exact List.mem_append_right _ ht
    | false =>
      obtain ⟨t, ht, hin⟩ := ih (m := c :: m) (List.cons_ne_nil _ _) (List.forall_mem_cons.mpr ⟨hc, hsolid⟩)
      exact ⟨t, by simpa using ht, (List.suffix_cons c m).isInfix.trans hin⟩

end

end Pieces
