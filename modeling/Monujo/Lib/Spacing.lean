/-
  Times kept apart.

  A limiter lets an event pass if more than `gap` has gone by since its stamp,
  which is the time of the last event that passed.  The events that pass are
  `Spaced`, so that no window of `n` gaps holds more than `n` of them.

  `Limited` is the state of a limiter with its stamp, `Rested` that of one whose
  next event may pass at its stamp.
-/
import Mathlib.Algebra.Order.Group.Defs
import Mathlib.Algebra.Order.Monoid.Unbundled.Basic
import Mathlib.Algebra.Order.Sub.Basic

namespace Spacing

variable {τ : Type*} [AddCommGroup τ] [LinearOrder τ] {gap stamp check lo : τ} {ts : List τ}

/-- Each time is more than `gap` after those before it. -/
def Spaced (gap : τ) (ts : List τ) : Prop := ts.Pairwise fun a b => gap < b - a

/-- The times from `lo` to `hi`. -/
def window (lo hi : τ) (ts : List τ) : List τ := ts.filter fun t => lo ≤ t ∧ t ≤ hi

/-- The last of the times is `stamp`, or was before it. -/
structure Limited (gap stamp : τ) (ts : List τ) : Prop where
  spaced : Spaced gap ts
  le : ∀ t ∈ ts, t ≤ stamp

/-- The stamp is more than `gap` after all times. -/
structure Rested (gap stamp : τ) (ts : List τ) : Prop where
  spaced : Spaced gap ts
  lt : ∀ t ∈ ts, gap < stamp - t

theorem limited_nil : Limited gap stamp [] := ⟨.nil, by simp⟩

theorem rested_nil : Rested gap stamp [] := ⟨.nil, by simp⟩

variable [IsOrderedAddMonoid τ]

/-- More than `gap` after the stamp. -/
theorem Limited.rest (h : Limited gap stamp ts) (hcheck : gap < check - stamp) :
    Rested gap check ts := by
  refine ⟨h.spaced, fun t ht => ?_⟩
  have hle : check - stamp ≤ check - t := sub_le_sub_left (h.le t ht) check
  exact hcheck.trans_le hle

theorem Rested.later (h : Rested gap stamp ts) (hle : stamp ≤ check) : Rested gap check ts := by
  refine ⟨h.spaced, fun t ht => ?_⟩
  have hle' : stamp - t ≤ check - t := sub_le_sub_right hle t
  exact (h.lt t ht).trans_le hle'

/-- An event passes. -/
theorem Rested.pass (hgap : 0 ≤ gap) (h : Rested gap stamp ts) :
    Limited gap stamp (ts ++ [stamp]) := by
  refine ⟨List.pairwise_append.2 ⟨h.spaced, List.pairwise_singleton _ _, ?_⟩, fun t ht => ?_⟩
  · intro t ht s hs
    obtain rfl := List.mem_singleton.1 hs
    exact h.lt t ht
  · rcases List.mem_append.1 ht with ht | ht
    · exact sub_nonneg.1 (hgap.trans (h.lt t ht).le)
    · exact (List.mem_singleton.1 ht).le

/-- Times in a window of `n` gaps, the first of them at its beginning or later. -/
theorem Spaced.length_le (h : Spaced gap ts) (n : ℕ) (lo : τ)
    (hts : ∀ t ∈ ts, lo ≤ t ∧ t ≤ lo + (n + 1) • gap) : ts.length ≤ n + 1 := by
  induction ts generalizing n lo with
  | nil => exact Nat.zero_le _
  | cons t ts ih =>
    obtain ⟨hgaps, hspaced⟩ := List.pairwise_cons.1 h
    obtain ⟨hlo, -⟩ := hts t (by simp)
    have hafter : ∀ u ∈ ts, lo + gap < u := by
      intro u hu
      have hgap' : t + gap < u := lt_sub_iff_add_lt'.1 (hgaps u hu)
      exact (add_le_add_left hlo gap).trans_lt hgap'
    cases n with
    | zero =>
      -- the window is one gap long, and nothing comes after `t` in it
      have hnil : ts = [] := by
        refine List.eq_nil_iff_forall_not_mem.2 fun u hu => ?_
        have hhi := (hts u (by simp [hu])).2
        rw [Nat.zero_add, one_nsmul] at hhi
        exact (hafter u hu).not_ge hhi
      simp [hnil]
    | succ n =>
      have hts' : ∀ u ∈ ts, lo + gap ≤ u ∧ u ≤ lo + gap + (n + 1) • gap := by
        intro u hu
        refine ⟨(hafter u hu).le, ?_⟩
        have hhi := (hts u (by simp [hu])).2
        rwa [succ_nsmul' gap (n + 1), ← add_assoc] at hhi
      exact Nat.succ_le_succ (ih hspaced n (lo + gap) hts')

/-- **A limiter keeps its rate.** -/
theorem Spaced.length_window (h : Spaced gap ts) (n : ℕ) (lo : τ) :
    (window lo (lo + (n + 1) • gap) ts).length ≤ n + 1 := by
  refine Spaced.length_le (h.filter _) n lo fun t ht => ?_
  simpa using (List.mem_filter.1 ht).2

end Spacing
