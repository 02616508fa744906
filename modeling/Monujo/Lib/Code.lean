/-
  Code as a list of effects.

  `Code ρ ε α` is straight-line code with branches: it reads an environment
  `ρ`, returns an `α`, and performs effects `ε` in program order.  `val` is
  what it returns and `log` what it performs; the lemmas below compute both
  through `do` blocks, so that code is never unfolded by hand.

  A process killed in the middle of a piece of code has performed a prefix of
  its log (`cut`).
-/
import Mathlib.Data.List.Basic

universe u

/-- Code over the environment `ρ`, with effects `ε`. -/
def Code (ρ ε α : Type u) := ρ → α × List ε

namespace Code

variable {ρ ε : Type u}

/-- The value the code returns. -/
def val {α : Type u} (m : Code ρ ε α) (r : ρ) : α := (m r).1

/-- The effects the code performs, in program order. -/
def log {α : Type u} (m : Code ρ ε α) (r : ρ) : List ε := (m r).2

instance : Monad (Code ρ ε) where
  pure a := fun _ => (a, [])
  bind m f := fun r => ((f (m r).1 r).1, (m r).2 ++ (f (m r).1 r).2)

/-- The environment. -/
def ask : Code ρ ε ρ := fun r => (r, [])

/-- Perform one effect. -/
def emit (e : ε) : Code ρ ε PUnit := fun _ => (⟨⟩, [e])

section
variable {α β : Type u} (m : Code ρ ε α) (f : α → Code ρ ε β) (r : ρ)

@[simp] theorem val_pure (a : α) : (pure a : Code ρ ε α).val r = a := rfl
@[simp] theorem log_pure (a : α) : (pure a : Code ρ ε α).log r = [] := rfl
@[simp] theorem val_bind : (m >>= f).val r = (f (m.val r)).val r := rfl
@[simp] theorem log_bind : (m >>= f).log r = m.log r ++ (f (m.val r)).log r := rfl
@[simp] theorem val_map (g : α → β) : (g <$> m).val r = g (m.val r) := rfl
@[simp] theorem log_map (g : α → β) : (g <$> m).log r = m.log r := List.append_nil _
@[simp] theorem val_ask : (ask : Code ρ ε ρ).val r = r := rfl
@[simp] theorem log_ask : (ask : Code ρ ε ρ).log r = [] := rfl
@[simp] theorem log_emit (e : ε) : (emit e : Code ρ ε PUnit).log r = [e] := rfl

@[simp high] theorem val_ask_bind (g : ρ → Code ρ ε α) : (ask >>= g).val r = (g r).val r := rfl
@[simp high] theorem log_ask_bind (g : ρ → Code ρ ε α) : (ask >>= g).log r = (g r).log r := rfl

@[simp] theorem val_ite (c : Prop) [Decidable c] (n : Code ρ ε α) :
    (if c then m else n).val r = if c then m.val r else n.val r := by split <;> rfl

@[simp] theorem log_ite (c : Prop) [Decidable c] (n : Code ρ ε α) :
    (if c then m else n).log r = if c then m.log r else n.log r := by split <;> rfl

/-- A loop whose body only computes is a fold. -/
theorem val_foldlM (g : α → β → Code ρ ε α) (bs : List β) (a : α) :
    (bs.foldlM g a).val r = bs.foldl (fun a b => (g a b).val r) a := by
  induction bs generalizing a with
  | nil => rfl
  | cons b bs ih => rw [List.foldlM_cons, val_bind, ih, List.foldl_cons]

/-- Every effect of the code, run in `r`, meets `P`. -/
def Emits (P : ε → Prop) (m : Code ρ ε α) (r : ρ) : Prop := ∀ e ∈ m.log r, P e

section
variable {m f r} {P : ε → Prop}

theorem emits_pure (a : α) : (pure a : Code ρ ε α).Emits P r := fun _ he => by cases he

theorem emits_bind (hm : m.Emits P r) (hf : (f (m.val r)).Emits P r) : (m >>= f).Emits P r := by
  intro e he
  rcases List.mem_append.1 he with he | he
  · exact hm e he
  · exact hf e he

theorem emits_ite {c : Prop} [Decidable c] {n : Code ρ ε α} (hm : m.Emits P r)
    (hn : n.Emits P r) : (if c then m else n).Emits P r := by
  split
  · exact hm
  · exact hn

theorem emits_foldlM {g : α → β → Code ρ ε α} (hg : ∀ a b, (g a b).Emits P r) (bs : List β)
    (a : α) : (bs.foldlM g a).Emits P r := by
  induction bs generalizing a with
  | nil => exact emits_pure a
  | cons b bs ih =>
    rw [List.foldlM_cons]
    exact emits_bind (hg a b) (ih _)

end

/-- The effects performed before the process dies: all of them, or the first
    `k` if it is killed there. -/
def cut (k : Option ℕ) : List ε :=
  match k with
  | none => m.log r
  | some k => (m.log r).take k

@[simp] theorem cut_none : m.cut r none = m.log r := rfl
@[simp] theorem cut_some (k : ℕ) : m.cut r (some k) = (m.log r).take k := rfl

theorem cut_prefix (k : Option ℕ) : m.cut r k <+: m.log r := by
  cases k with
  | none => exact List.prefix_rfl
  | some k => exact List.take_prefix k _

end

end Code
