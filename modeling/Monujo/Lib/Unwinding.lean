/-
  Two runs that differ in hidden events.

  A pair of runs of one system is played as a list of moves: `both e` is an
  event of both runs, `left e` and `right e` are events of one run alone, and
  these have to be hidden where they occur.

  `same_iff_silent` is the unwinding theorem, in its exact form: take an
  equivalence that equal events keep and that every silent hidden event keeps.
  Two runs from equivalent states look the same at every point if and only if
  the events of one run alone are all silent.
-/
import Monujo.Lib.Runs

namespace Unwinding

variable {σ ε : Type*}

inductive Move (ε : Type*) where
  | both (e : ε)
  | left (e : ε)
  | right (e : ε)

variable (step : σ → ε → σ)

/-- A move of the pair. -/
def pair (p : σ × σ) : Move ε → σ × σ
  | .both e => (step p.1 e, step p.2 e)
  | .left e => (step p.1 e, p.2)
  | .right e => (p.1, step p.2 e)

/-- An event of one run alone meets `H` where it occurs. -/
def Alone (H : σ → ε → Prop) (p : σ × σ) : Move ε → Prop
  | .both _ => True
  | .left e => H p.1 e
  | .right e => H p.2 e

instance [∀ s e, Decidable (H s e)] : ∀ p m, Decidable (Alone (σ := σ) (ε := ε) H p m)
  | _, .both _ => inferInstanceAs (Decidable True)
  | p, .left e => inferInstanceAs (Decidable (H p.1 e))
  | p, .right e => inferInstanceAs (Decidable (H p.2 e))

/-- The first run of a pair, and the second. -/
def firsts : List (Move ε) → List ε := List.filterMap fun
  | .both e | .left e => some e
  | .right _ => none

def seconds : List (Move ε) → List ε := List.filterMap fun
  | .both e | .right e => some e
  | .left _ => none

/-- A pair of runs is two runs. -/
theorem run_pair (p : σ × σ) (ms : List (Move ε)) :
    Runs.run (pair step) p ms = (Runs.run step p.1 (firsts ms), Runs.run step p.2 (seconds ms)) := by
  induction ms generalizing p with
  | nil => rfl
  | cons m ms ih =>
    rw [Runs.run_cons, ih]
    cases m <;> simp [pair, firsts, seconds]

variable {step} {Eqv Same : σ → σ → Prop} {Hidden Silent : σ → ε → Prop}

/-- **Unwinding.** -/
theorem same_iff_silent (hEqv : Equivalence Eqv) (hSame : Equivalence Same)
    (same : ∀ s t, Eqv s t → Same s t)
    (consistent : ∀ s t e, Eqv s t → Eqv (step s e) (step t e))
    (silent : ∀ s e, Hidden s e → Silent s e → Eqv (step s e) s)
    (exact : ∀ s e, Hidden s e → Same (step s e) s → Silent s e)
    {s t : σ} (h : Eqv s t) {ms : List (Move ε)}
    (hms : Runs.Guarded (pair step) (Alone Hidden) (s, t) ms) :
    (∀ ns, ns <+: ms → Same (Runs.run step s (firsts ns)) (Runs.run step t (seconds ns))) ↔
      Runs.Guarded (pair step) (Alone Silent) (s, t) ms := by
  have hpoints : (∀ ns, ns <+: ms →
      Same (Runs.run step s (firsts ns)) (Runs.run step t (seconds ns))) ↔
      Runs.Always (pair step) (fun p => Same p.1 p.2) (s, t) ms := by
    simp only [Runs.always_iff_prefix, run_pair]
  rw [hpoints]
  refine Runs.always_iff_guarded_of (fun p => Eqv p.1 p.2) (fun p hp => same _ _ hp) ?_ ?_ h hms
  · rintro ⟨s, t⟩ m hst hm hsil
    cases m with
    | both e => exact consistent s t e hst
    | left e => exact hEqv.trans (silent s e hm hsil) hst
    | right e => exact hEqv.trans hst (hEqv.symm (silent t e hm hsil))
  · rintro ⟨s, t⟩ m hst hm hsame
    cases m with
    | both e => trivial
    | left e => exact exact s e hm (hSame.trans hsame (hSame.symm (same s t hst)))
    | right e => exact exact t e hm (hSame.trans (hSame.symm hsame) (same s t hst))

end Unwinding
