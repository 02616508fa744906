/-
  Runs of a step function.

  A system is a function `step : σ → ε → σ`; a run from a state is a list of
  events.  Two shapes of property are used everywhere else:

  * `Always step P s es`: every state the run reaches satisfies `P`, the first
    and the last included;
  * `Guarded step G s es`: every event of the run meets `G` in the state it
    occurs in.

  `always_iff_guarded` connects them: when an invariant survives exactly the
  steps that meet `G`, a run keeps its property if and only if it is guarded.
-/
import Mathlib.Logic.Basic
import Mathlib.Data.List.Infix

namespace Runs

variable {σ ε : Type*} (step : σ → ε → σ)

/-- The state after the events `es`. -/
def run (s : σ) (es : List ε) : σ := es.foldl step s

@[simp] theorem run_nil (s : σ) : run step s [] = s := rfl

@[simp] theorem run_cons (s : σ) (e : ε) (es : List ε) :
    run step s (e :: es) = run step (step s e) es := rfl

@[simp] theorem run_concat (s : σ) (es : List ε) (e : ε) :
    run step s (es ++ [e]) = step (run step s es) e := by simp [run]

theorem run_append (s : σ) (es fs : List ε) :
    run step s (es ++ fs) = run step (run step s es) fs := List.foldl_append

/-- A run keeps what each of its steps keeps. -/
theorem run_keeps {R : σ → σ → Prop} (refl : ∀ s, R s s)
    (trans : ∀ s t u, R s t → R t u → R s u) {es : List ε} (h : ∀ s, ∀ e ∈ es, R s (step s e)) :
    ∀ s, R s (run step s es) := by
  induction es with
  | nil => exact refl
  | cons e es ih =>
    intro s
    have hstep : R s (step s e) := h s e (by simp)
    exact trans _ _ _ hstep (ih (fun t e' he' => h t e' (by simp [he'])) _)

/-- `P` holds in every state of the run. -/
def Always (P : σ → Prop) : σ → List ε → Prop
  | s, [] => P s
  | s, e :: es => P s ∧ Always P (step s e) es

/-- Every event of the run meets `G` in the state it occurs in. -/
def Guarded (G : σ → ε → Prop) : σ → List ε → Prop
  | _, [] => True
  | s, e :: es => G s e ∧ Guarded G (step s e) es

section
variable {step} {P : σ → Prop} {G V : σ → ε → Prop} {s : σ} {e : ε} {es fs : List ε}

instance Always.decidable [DecidablePred P] : ∀ s es, Decidable (Always step P s es)
  | s, [] => inferInstanceAs (Decidable (P s))
  | s, e :: es => @instDecidableAnd _ _ _ (Always.decidable (step s e) es)

instance Guarded.decidable [∀ s e, Decidable (G s e)] : ∀ s es, Decidable (Guarded step G s es)
  | _, [] => inferInstanceAs (Decidable True)
  | s, e :: es => @instDecidableAnd _ _ _ (Guarded.decidable (step s e) es)

@[simp] theorem always_nil : Always step P s [] ↔ P s := Iff.rfl

@[simp] theorem always_cons : Always step P s (e :: es) ↔ P s ∧ Always step P (step s e) es := Iff.rfl

@[simp] theorem guarded_nil : Guarded step G s [] := trivial

@[simp] theorem guarded_cons :
    Guarded step G s (e :: es) ↔ G s e ∧ Guarded step G (step s e) es := Iff.rfl

theorem Always.head (h : Always step P s es) : P s := by
  cases es with
  | nil => exact h
  | cons e es => exact h.1

/-- `Always` is what it says: `P` after every prefix of the run. -/
theorem always_iff_prefix : Always step P s es ↔ ∀ fs, fs <+: es → P (run step s fs) := by
  induction es generalizing s with
  | nil => simp
  | cons e es ih =>
    rw [always_cons, ih]
    constructor
    · rintro ⟨hs, h⟩ fs hfs
      rcases List.prefix_cons_iff.1 hfs with rfl | ⟨fs', rfl, hfs'⟩
      · exact hs
      · exact h fs' hfs'
    · intro h
      exact ⟨h [] List.nil_prefix, fun fs hfs => h (e :: fs) (List.cons_prefix_cons.2 ⟨rfl, hfs⟩)⟩

/-- `Guarded` is what it says: `G` at every event, in the state before it. -/
theorem guarded_iff_split :
    Guarded step G s es ↔ ∀ fs e gs, es = fs ++ e :: gs → G (run step s fs) e := by
  induction es generalizing s with
  | nil => simp
  | cons e es ih =>
    rw [guarded_cons, ih]
    constructor
    · rintro ⟨he, h⟩ fs e' gs heq
      cases fs with
      | nil => obtain ⟨rfl, rfl⟩ := List.cons.inj heq; exact he
      | cons f fs => obtain ⟨rfl, rfl⟩ := List.cons.inj heq; exact h fs e' gs rfl
    · intro h
      exact ⟨h [] e es rfl, fun fs e' gs heq => h (e :: fs) e' gs (by simp [heq])⟩

theorem guarded_append :
    Guarded step G s (es ++ fs) ↔ Guarded step G s es ∧ Guarded step G (run step s es) fs := by
  induction es generalizing s with
  | nil => simp
  | cons e es ih => simp [ih, and_assoc]

theorem guarded_concat :
    Guarded step G s (es ++ [e]) ↔ Guarded step G s es ∧ G (run step s es) e := by
  simp [guarded_append]

theorem Always.last (h : Always step P s es) : P (run step s es) :=
  always_iff_prefix.1 h es List.prefix_rfl

/-- **Invariant rule.**  What every step keeps holds along every run. -/
theorem always_of_step (keep : ∀ s e, P s → P (step s e)) (h : P s) : Always step P s es := by
  induction es generalizing s with
  | nil => exact h
  | cons e es ih => exact ⟨h, ih (keep s e h)⟩

/-- What every step that meets `G` keeps holds along every guarded run. -/
theorem always_of_guarded (keep : ∀ s e, P s → G s e → P (step s e)) (h : P s)
    (hes : Guarded step G s es) : Always step P s es := by
  induction es generalizing s with
  | nil => exact h
  | cons e es ih => exact ⟨h, ih (keep s e h hes.1) hes.2⟩

/-- What every step keeps holds at the end of a run. -/
theorem run_of_step (keep : ∀ s e, P s → P (step s e)) (h : P s) (es : List ε) :
    P (run step s es) := (always_of_step keep h).last

/-- `v` is what the events of the run have written last, or `v₀` if they have
    written nothing; `w` says what an event writes. -/
inductive Latest {β : Type*} (step : σ → ε → σ) (w : σ → ε → Option β) (s : σ) (es : List ε)
    (v₀ : β) : β → Prop
  | unwritten (h : Guarded step (fun s e => w s e = none) s es) : Latest step w s es v₀ v₀
  | written (fs : List ε) (e : ε) (gs : List ε) (v : β) (hes : es = fs ++ e :: gs)
      (hw : w (run step s fs) e = some v)
      (hgs : Guarded step (fun s e => w s e = none) (run step s (fs ++ [e])) gs) :
      Latest step w s es v₀ v

/-- **Last writer.**  What a step changes only by writing it is what was written
    last. -/
theorem latest_of_step {β : Type*} {f : σ → β} {w : σ → ε → Option β}
    (h : ∀ s e, f (step s e) = (w s e).getD (f s)) (s : σ) (es : List ε) :
    Latest step w s es (f s) (f (run step s es)) := by
  induction es using List.reverseRecOn with
  | nil => exact .unwritten guarded_nil
  | append_singleton es e ih =>
    rw [run_concat, h]
    rcases hw : w (run step s es) e with _ | v
    · -- nothing is written now, so what was written last still is
      generalize f (run step s es) = u at ih
      cases ih with
      | unwritten hes => exact .unwritten (guarded_concat.2 ⟨hes, hw⟩)
      | written fs e' gs _ hes hw' hgs =>
        refine .written fs e' (gs ++ [e]) u (by rw [hes, List.append_assoc]; rfl) hw' ?_
        refine guarded_concat.2 ⟨hgs, ?_⟩
        rwa [← run_append, List.append_assoc, List.singleton_append, ← hes]
    · exact .written es e [] v rfl hw guarded_nil

/-- **Exact guards.**  Let `Inv` give `P` and survive every step that meets the
    guard `G`, and let a step that ends in `P` have met it.  Then `P` holds
    along a run exactly when the run is guarded.  `V` is what the runs under
    consideration promise about their events. -/
theorem always_iff_guarded_of (Inv : σ → Prop) (hP : ∀ s, Inv s → P s)
    (keep : ∀ s e, Inv s → V s e → G s e → Inv (step s e))
    (exact : ∀ s e, Inv s → V s e → P (step s e) → G s e)
    (h : Inv s) (hV : Guarded step V s es) : Always step P s es ↔ Guarded step G s es := by
  induction es generalizing s with
  | nil => simp [hP s h]
  | cons e es ih =>
    rw [always_cons, guarded_cons]
    constructor
    · rintro ⟨-, hes⟩
      have hG : G s e := exact s e h hV.1 hes.head
      exact ⟨hG, (ih (keep s e h hV.1 hG) hV.2).1 hes⟩
    · rintro ⟨hG, hes⟩
      exact ⟨hP s h, (ih (keep s e h hV.1 hG) hV.2).2 hes⟩

theorem always_iff_guarded (Inv : σ → Prop) (hP : ∀ s, Inv s → P s)
    (keep : ∀ s e, Inv s → G s e → Inv (step s e))
    (exact : ∀ s e, Inv s → P (step s e) → G s e) (h : Inv s) :
    Always step P s es ↔ Guarded step G s es :=
  have hV : Guarded step (fun _ _ => True) s es := guarded_iff_split.2 fun _ _ _ _ => trivial
  always_iff_guarded_of Inv hP (fun s e hs _ => keep s e hs) (fun s e hs _ => exact s e hs) h hV

end

/-! ## Two systems in step -/

section
variable {step} {τ φ : Type*} {step' : τ → φ → τ} {f : ε → φ} {R : σ → τ → Prop}

/-- **Simulation.**  If the steps keep two systems related, runs do. -/
theorem run_sim (sim : ∀ s t e, R s t → R (step s e) (step' t (f e))) {s : σ} {t : τ}
    (h : R s t) (es : List ε) : R (run step s es) (run step' t (es.map f)) := by
  induction es generalizing s t with
  | nil => exact h
  | cons e es ih => exact ih (sim s t e h)

/-- Properties that agree on related states hold along the same runs. -/
theorem always_sim {P : σ → Prop} {Q : τ → Prop}
    (sim : ∀ s t e, R s t → R (step s e) (step' t (f e))) (hPQ : ∀ s t, R s t → (P s ↔ Q t))
    {s : σ} {t : τ} (h : R s t) (es : List ε) :
    Always step P s es ↔ Always step' Q t (es.map f) := by
  induction es generalizing s t with
  | nil => exact hPQ s t h
  | cons e es ih => rw [List.map_cons, always_cons, always_cons, hPQ s t h, ih (sim s t e h)]

/-- Guards that agree on related states guard the same runs. -/
theorem guarded_sim {G : σ → ε → Prop} {H : τ → φ → Prop}
    (sim : ∀ s t e, R s t → R (step s e) (step' t (f e)))
    (hGH : ∀ s t e, R s t → (G s e ↔ H t (f e))) {s : σ} {t : τ} (h : R s t) (es : List ε) :
    Guarded step G s es ↔ Guarded step' H t (es.map f) := by
  induction es generalizing s t with
  | nil => simp
  | cons e es ih => rw [List.map_cons, guarded_cons, guarded_cons, hGH s t e h, ih (sim s t e h)]

end

/-! ## A system that drives another -/

section
variable {step} {τ φ : Type*} {step' : τ → φ → τ} {f : σ → τ → ε → List φ}

/-- Each event of the first system amounts to events of the second, which may
    depend on where the two are. -/
def drive (step : σ → ε → σ) (step' : τ → φ → τ) (f : σ → τ → ε → List φ) (p : σ × τ) (e : ε) :
    σ × τ := (step p.1 e, run step' p.2 (f p.1 p.2 e))

/-- The first system is not disturbed, -/
theorem fst_drive (p : σ × τ) (es : List ε) :
    (run (drive step step' f) p es).1 = run step p.1 es := by
  induction es generalizing p with
  | nil => rfl
  | cons e es ih => exact ih (drive step step' f p e)

/-- and the second one runs. -/
theorem snd_drive (p : σ × τ) (es : List ε) :
    ∃ fs, (run (drive step step' f) p es).2 = run step' p.2 fs := by
  induction es generalizing p with
  | nil => exact ⟨[], rfl⟩
  | cons e es ih =>
    obtain ⟨fs, hfs⟩ := ih (drive step step' f p e)
    exact ⟨f p.1 p.2 e ++ fs, by rw [run_append]; exact hfs⟩

/-- What is asked of the events of the first system alone is asked of its run. -/
theorem guarded_drive {p : σ × τ} {es : List ε} :
    Guarded (drive step step' f) (fun p e => G p.1 e) p es ↔ Guarded step G p.1 es := by
  induction es generalizing p with
  | nil => exact Iff.rfl
  | cons e es ih => exact and_congr_right fun _ => ih

/-- **Forward simulation.**  If what each event amounts to keeps the two systems
    related, they stay related. -/
theorem drive_sim {R : σ → τ → Prop} {V : σ → τ → ε → Prop}
    (sim : ∀ s t e, R s t → V s t e → R (step s e) (run step' t (f s t e))) {s : σ} {t : τ}
    (h : R s t) {es : List ε}
    (hes : Guarded (drive step step' f) (fun p e => V p.1 p.2 e) (s, t) es) :
    Always (drive step step' f) (fun p => R p.1 p.2) (s, t) es :=
  always_of_guarded (P := fun p => R p.1 p.2) (fun p e hp => sim p.1 p.2 e hp) h hes

/-- A run of the first system ends where some run of the second one does. -/
theorem drive_run {R : σ → τ → Prop} (sim : ∀ s t e, R s t → G s e → R (step s e)
    (run step' t (f s t e))) {s : σ} {t : τ} (h : R s t) {es : List ε}
    (hes : Guarded step G s es) : ∃ fs, R (run step s es) (run step' t fs) := by
  have hlast := (drive_sim (V := fun s _ => G s) sim h (guarded_drive.2 hes)).last
  obtain ⟨fs, hfs⟩ : ∃ fs, (run (drive step step' f) (s, t) es).2 = run step' t fs :=
    snd_drive (s, t) es
  exact ⟨fs, by rwa [fst_drive, hfs] at hlast⟩

end

end Runs
