/-
  Two runs side by side.

  `Agree E A m r n r'`: the code `m` in the environment `r` and the code `n` in
  `r'` return values related by `A`, and perform effects related by `E` one by
  one.  There is one rule for each construct of a `do` block.

  `run_related` lifts a relation of steps to runs of related events.
-/
import Mathlib.Data.List.Forall2
import Monujo.Lib.Code
import Monujo.Lib.Runs

universe u

namespace Code

variable {ρ ε α β γ δ : Type u}

def Agree (E : ε → ε → Prop) (A : α → β → Prop) (m : Code ρ ε α) (r : ρ) (n : Code ρ ε β)
    (r' : ρ) : Prop :=
  A (m.val r) (n.val r') ∧ List.Forall₂ E (m.log r) (n.log r')

variable {E : ε → ε → Prop} {A : α → β → Prop} {B : γ → δ → Prop} {m : Code ρ ε α}
  {n : Code ρ ε β} {r r' : ρ}

theorem agree_pure {a : α} {b : β} (h : A a b) : Agree E A (pure a) r (pure b) r' :=
  ⟨h, .nil⟩

theorem agree_emit {e e' : ε} (h : E e e') :
    Agree E (fun _ _ => True) (emit e) r (emit e') r' := ⟨trivial, .cons h .nil⟩

theorem Agree.bind {f : α → Code ρ ε γ} {g : β → Code ρ ε δ} (hm : Agree E A m r n r')
    (hf : ∀ a b, A a b → Agree E B (f a) r (g b) r') :
    Agree E B (m >>= f) r (n >>= g) r' := by
  obtain ⟨hval, hlog⟩ := hm
  obtain ⟨hval', hlog'⟩ := hf _ _ hval
  exact ⟨hval', List.rel_append hlog hlog'⟩

/-- The environments are read. -/
theorem agree_ask {f g : ρ → Code ρ ε α} {A : α → α → Prop} (h : Agree E A (f r) r (g r') r') :
    Agree E A (ask >>= f) r (ask >>= g) r' := h

theorem agree_ite {c d : Prop} [Decidable c] [Decidable d] (hcd : c ↔ d) {m' : Code ρ ε α}
    {n' : Code ρ ε β} (h : c → Agree E A m r n r') (h' : ¬ c → Agree E A m' r n' r') :
    Agree E A (if c then m else m') r (if d then n else n') r' := by
  by_cases hc : c
  · rw [if_pos hc, if_pos (hcd.1 hc)]
    exact h hc
  · rw [if_neg hc, if_neg (hcd.not.1 hc)]
    exact h' hc

/-- Two loops over one list, whose accumulators stay related. -/
theorem agree_foldlM {α β : Type u} {A : α → α → Prop} {f g : α → β → Code ρ ε α}
    (h : ∀ a a' b, A a a' → Agree E A (f a b) r (g a' b) r') (bs : List β) {a a' : α}
    (ha : A a a') : Agree E A (bs.foldlM f a) r (bs.foldlM g a') r' := by
  induction bs generalizing a a' with
  | nil => exact agree_pure ha
  | cons b bs ih =>
    rw [List.foldlM_cons, List.foldlM_cons]
    exact (h a a' b ha).bind fun _ _ hab => ih hab

end Code

namespace Runs

variable {σ τ ε φ : Type*} {step : σ → ε → σ} {step' : τ → φ → τ} {R : σ → τ → Prop}
  {E : ε → φ → Prop}

/-- **Two runs.**  Steps on related events keep the states related; so do runs. -/
theorem run_related (hstep : ∀ s t e f, R s t → E e f → R (step s e) (step' t f)) {es : List ε}
    {fs : List φ} (hes : List.Forall₂ E es fs) {s : σ} {t : τ} (h : R s t) :
    R (run step s es) (run step' t fs) := by
  induction hes generalizing s t with
  | nil => exact h
  | cons hef _ ih => exact ih (hstep _ _ _ _ h hef)

end Runs
