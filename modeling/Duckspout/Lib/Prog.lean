import Mathlib.Logic.Function.Basic
import Mathlib.Control.Basic
import Mathlib.Data.List.Basic

/-! Concurrent programs as trees of operations.

    A program performs an operation, gets an answer and goes on. Several programs run over one shared
    state, one operation at a time in any order, while an environment moves in between. The proof
    method is rely-guarantee: a thread is described by what it knows, each operation asks something of
    that knowledge and adds to it, and what a thread knows survives the steps of the others. -/

/-- A program that performs operations `o : Op`, each answered in `Res o`. -/
inductive Prog (Op : Type) (Res : Op → Type) (α : Type) where
  | ret (a : α)
  | call (o : Op) (next : Res o → Prog Op Res α)

namespace Prog

variable {Op : Type} {Res : Op → Type} {α β ε κ : Type}

/-- Runs `p`, then `f` on its result. -/
def bind : Prog Op Res α → (α → Prog Op Res β) → Prog Op Res β
  | ret a, f => f a
  | call o next, f => call o fun r => (next r).bind f

instance : Monad (Prog Op Res) where
  pure := ret
  bind := bind

/-- The program of one operation. -/
def perform (o : Op) : Prog Op Res (Res o) := call o ret

/-- Runs a program alone, from a state to its result and the state it leaves. -/
def eval {S : Type} (exec : (o : Op) → S → Res o × S) : Prog Op Res α → S → α × S
  | ret a, s => (a, s)
  | call o next, s => (next (exec o s).1).eval exec (exec o s).2

/-- What every operation keeps, a program keeps. -/
theorem eval_inv {S : Type} {exec : (o : Op) → S → Res o × S} {I : S → Prop} (hexec : ∀ o s, I s → I (exec o s).2) :
    ∀ (x : Prog Op Res α) {s : S}, I s → I (x.eval exec s).2
  | ret _, _, hs => hs
  | call o next, s, hs => eval_inv hexec (next (exec o s).1) (hexec o s hs)

end Prog

/-- What each operation asks of a thread's knowledge, and what its answer makes of it. -/
structure Protocol (Op : Type) (Res : Op → Type) (κ : Type) where
  pre : Op → κ → Prop
  next : (o : Op) → κ → Res o → κ → Prop

namespace Protocol

variable {Op : Type} {Res : Op → Type} {α β ε κ : Type} (P : Protocol Op Res κ)

/-- From knowledge `k` the program keeps to the protocol and ends in `Q`. -/
def Wp : Prog Op Res α → (α → κ → Prop) → κ → Prop
  | .ret a, Q, k => Q a k
  | .call o next, Q, k => P.pre o k ∧ ∀ r k', P.next o k r k' → Wp (next r) Q k'

variable {P}

theorem wp_mono {Q Q' : α → κ → Prop} (hQ : ∀ a k, Q a k → Q' a k) :
    ∀ {x : Prog Op Res α} {k : κ}, P.Wp x Q k → P.Wp x Q' k
  | .ret a, k, hx => hQ a k hx
  | .call _ _, _, hx => ⟨hx.1, fun r k' hk => wp_mono hQ (hx.2 r k' hk)⟩

theorem wp_bind {f : α → Prog Op Res β} {Q : β → κ → Prop} :
    ∀ {x : Prog Op Res α} {k : κ}, P.Wp x (fun a => P.Wp (f a) Q) k → P.Wp (x >>= f) Q k
  | .ret _, _, hx => hx
  | .call _ _, _, hx => ⟨hx.1, fun r k' hk => wp_bind (hx.2 r k' hk)⟩

theorem wp_pure {a : α} {Q : α → κ → Prop} {k : κ} (h : Q a k) :
    P.Wp (pure a : Prog Op Res α) Q k := h

theorem wp_map {f : α → β} {x : Prog Op Res α} {Q : β → κ → Prop} {k : κ} (h : P.Wp x (fun a => Q (f a)) k) :
    P.Wp (f <$> x) Q k := wp_bind h

theorem wp_perform {o : Op} {Q : Res o → κ → Prop} {k : κ} (hpre : P.pre o k)
    (h : ∀ r k', P.next o k r k' → Q r k') : P.Wp (Prog.perform o) Q k := ⟨hpre, h⟩

/-- A protocol that asks for nothing. -/
def free (Op : Type) (Res : Op → Type) (κ : Type) : Protocol Op Res κ where
  pre _ _ := True
  next _ _ _ _ := True

theorem wp_free : ∀ (x : Prog Op Res α) (k : κ), (free Op Res κ).Wp x (fun _ _ => True) k
  | .ret _, _ => trivial
  | .call _ next, _ => ⟨trivial, fun r k' _ => wp_free (next r) k'⟩

/-- The same with early exits: `Q` where the program returns, `E` where it throws. -/
def Ewp (P : Protocol Op Res κ) (x : ExceptT ε (Prog Op Res) α) (Q : α → κ → Prop)
    (E : ε → κ → Prop) (k : κ) : Prop :=
  P.Wp x.run (fun r k => match r with | .ok a => Q a k | .error e => E e k) k

theorem ewp_bind {x : ExceptT ε (Prog Op Res) α} {f : α → ExceptT ε (Prog Op Res) β}
    {Q : β → κ → Prop} {E : ε → κ → Prop} {k : κ} (h : P.Ewp x (fun a => P.Ewp (f a) Q E) E k) :
    P.Ewp (x >>= f) Q E k := by
  refine wp_bind (wp_mono ?_ h)
  rintro (e | a) k' hk
  · exact hk
  · exact hk

theorem ewp_pure {a : α} {Q : α → κ → Prop} {E : ε → κ → Prop} {k : κ} (h : Q a k) :
    P.Ewp (pure a) Q E k := h

theorem ewp_throw {e : ε} {Q : α → κ → Prop} {E : ε → κ → Prop} {k : κ} (h : E e k) :
    P.Ewp (throw e) Q E k := h

theorem ewp_lift {o : Op} {Q : Res o → κ → Prop} {E : ε → κ → Prop} {k : κ} (hpre : P.pre o k)
    (h : ∀ r k', P.next o k r k' → Q r k') : P.Ewp (ExceptT.lift (Prog.perform o)) Q E k := ⟨hpre, h⟩

/-- A loop over a list: `Q` is kept by every round, and a throwing round ends in `E`. -/
theorem ewp_forM {f : β → ExceptT ε (Prog Op Res) PUnit} {Q : List β → κ → Prop} {E : ε → κ → Prop}
    (hf : ∀ done b k, Q done k → P.Ewp (f b) (fun _ => Q (done ++ [b])) E k) :
    ∀ (l done : List β) {k : κ}, Q done k → P.Ewp (l.forM f) (fun _ => Q (done ++ l)) E k := by
  intro l
  induction l with
  | nil =>
    intro done k hk
    rw [List.append_nil]
    exact ewp_pure hk
  | cons b l ih =>
    intro done k hk
    have hrest : ∀ k', Q (done ++ [b]) k' → P.Ewp (l.forM f) (fun _ => Q (done ++ b :: l)) E k' := by
      intro k' hk'
      simpa using ih (done ++ [b]) hk'
    exact ewp_bind (wp_mono (by
      rintro (e | u) k' h'
      · exact h'
      · exact hrest k' h') (hf done b k hk))

/-- A fold over a list with early exits. -/
theorem ewp_foldlM {σ : Type} {f : σ → β → ExceptT ε (Prog Op Res) σ} {Q : List β → σ → κ → Prop}
    {E : ε → κ → Prop}
    (hf : ∀ done b s k, Q done s k → P.Ewp (f s b) (Q (done ++ [b])) E k) :
    ∀ (l done : List β) {s : σ} {k : κ}, Q done s k → P.Ewp (l.foldlM f s) (Q (done ++ l)) E k := by
  intro l
  induction l with
  | nil =>
    intro done s k hk
    rw [List.append_nil]
    exact ewp_pure hk
  | cons b l ih =>
    intro done s k hk
    have hrest : ∀ s' k', Q (done ++ [b]) s' k' → P.Ewp (l.foldlM f s') (Q (done ++ b :: l)) E k' := by
      intro s' k' hk'
      simpa using ih (done ++ [b]) hk'
    rw [List.foldlM_cons]
    exact ewp_bind (wp_mono (by
      rintro (e | s') k' h'
      · exact h'
      · exact hrest s' k' h') (hf done b s k hk))

end Protocol
