/-
  Jobs that look their resource up when they run.

  `submit w j` makes `w` the current resource and queues the job `j`; `run i`
  runs the `i`-th job, once, on the resource that is current then.  A job is
  meant for the resource it was submitted with, and can only be late: it runs
  on its own or on a later one (`Inv.late`).

  When all jobs have run, each resource has been served its own job and no
  other one if and only if the resources are distinct and every job ran before
  the next submission (`prompt_iff`, `Inv.served_eq`).  Serving each resource
  one job, whichever, already forces this (`Inv.own_of_length`): a lateness has
  to be made up for, and nothing runs early.
-/
import Mathlib.Algebra.Order.BigOperators.Group.List
import Mathlib.Algebra.BigOperators.Group.List.Basic
import Mathlib.Algebra.Order.Group.Nat
import Mathlib.Data.List.Nodup
import Mathlib.Data.List.Perm.Subperm
import Monujo.Lib.Runs

namespace LateBinding

variable {W J : Type*}

/-- The jobs submitted so far, each with its resource, and the runs so far:
    `(i, k)` says that job `i` ran on the resource of submission `k`. -/
structure State (W J : Type*) where
  jobs : List (W × J)
  done : List (ℕ × ℕ)

inductive Event (W J : Type*) where
  | submit (w : W) (j : J)
  | run (i : ℕ)

def start : State W J := ⟨[], []⟩

/-- Job `i` has been submitted and not run. -/
def State.Pending (s : State W J) (i : ℕ) : Prop := i < s.jobs.length ∧ i ∉ s.done.map Prod.fst

instance (s : State W J) : DecidablePred s.Pending :=
  fun i => inferInstanceAs (Decidable (i < s.jobs.length ∧ i ∉ s.done.map Prod.fst))

def step (s : State W J) : Event W J → State W J
  | .submit w j => { s with jobs := s.jobs ++ [(w, j)] }
  | .run i => if s.Pending i then { s with done := s.done ++ [(i, s.jobs.length - 1)] } else s

/-- Every job has run. -/
def State.Complete (s : State W J) : Prop := ∀ i, i < s.jobs.length → i ∈ s.done.map Prod.fst

/-- A job runs only while it is the last one submitted. -/
def Prompt (s : State W J) : Event W J → Prop
  | .submit .. => True
  | .run i => s.Pending i → i + 1 = s.jobs.length

/-- The jobs that ran on the resource `w`, in order. -/
def State.served [DecidableEq W] (s : State W J) (w : W) : List J :=
  s.done.filterMap fun r =>
    if s.jobs[r.2]?.map Prod.fst = some w then s.jobs[r.1]?.map Prod.snd else none

/-! ## The runs of a queue -/

/-- What holds of every reachable queue: no job runs twice, and none on a
    resource submitted before its own. -/
structure Inv (s : State W J) : Prop where
  nodup : (s.done.map Prod.fst).Nodup
  late : ∀ r ∈ s.done, r.1 ≤ r.2
  bound : ∀ r ∈ s.done, r.2 < s.jobs.length

theorem Inv.step {s : State W J} (h : Inv s) (e : Event W J) : Inv (step s e) := by
  obtain ⟨hnd, hlate, hbound⟩ := h
  cases e with
  | submit w j =>
    refine ⟨hnd, hlate, fun r hr => ?_⟩
    have hlt := hbound r hr
    simp only [LateBinding.step, List.length_append]
    omega
  | run i =>
    simp only [LateBinding.step]
    split
    · rename_i hp
      refine ⟨?_, fun r hr => ?_, fun r hr => ?_⟩
      · rw [List.map_append]
        exact List.nodup_append.2 ⟨hnd, List.nodup_singleton _, fun a ha b hb hab =>
          hp.2 (by simp at hb; rw [← hb, ← hab]; exact ha)⟩
      · rcases List.mem_append.1 hr with hr | hr
        · exact hlate r hr
        · obtain rfl := List.mem_singleton.1 hr
          have hlt := hp.1
          simp only
          omega
      · rcases List.mem_append.1 hr with hr | hr
        · exact hbound r hr
        · obtain rfl := List.mem_singleton.1 hr
          have hlt := hp.1
          simp only
          omega
    · exact ⟨hnd, hlate, hbound⟩

theorem inv_run (es : List (Event W J)) : Inv (Runs.run step start es) := by
  have hstart : Inv (start : State W J) := ⟨by simp [start], by simp [start], by simp [start]⟩
  have hall : Runs.Always step Inv start es := Runs.always_of_step (fun _ e h => h.step e) hstart
  exact hall.last

/-- A queue was prompt if and only if every run was on its own resource. -/
theorem prompt_iff (es : List (Event W J)) :
    Runs.Guarded step Prompt start es ↔ ∀ r ∈ (Runs.run step start es).done, r.1 = r.2 := by
  induction es using List.reverseRecOn with
  | nil => simp [start]
  | append_singleton es e ih =>
    rw [Runs.guarded_concat, Runs.run_concat, ih]
    cases e with
    | submit w j => simp [Prompt, step]
    | run i =>
      simp only [Prompt, step]
      by_cases hp : (Runs.run step start es).Pending i
      · have hlt := hp.1
        simp only [hp, if_pos, forall_const, List.mem_append, List.mem_singleton]
        constructor
        · rintro ⟨h, hi⟩ r (hr | rfl)
          · exact h r hr
          · simp only; omega
        · intro h
          have hi := h (i, (Runs.run step start es).jobs.length - 1) (Or.inr rfl)
          simp only at hi
          exact ⟨fun r hr => h r (Or.inl hr), by omega⟩
      · simp [hp]

/-! ## Who was served -/

section
variable {s : State W J}

variable [DecidableEq W]

/-- A submission serves nothing, -/
theorem Inv.served_submit (h : Inv s) (v : W) (j : J) (w : W) :
    (LateBinding.step s (.submit v j)).served w = s.served w := by
  refine List.filterMap_congr fun r hr => ?_
  have hr2 := h.bound r hr
  have hr1 := (h.late r hr).trans_lt hr2
  have hjobs : (LateBinding.step s (.submit v j)).jobs = s.jobs ++ [(v, j)] := rfl
  rw [hjobs, List.getElem?_append_left hr1, List.getElem?_append_left hr2]

/-- and a run serves its job to the current resource. -/
theorem served_run {i : ℕ} {v : W} {j : J} (hi : s.Pending i)
    (hv : s.jobs.getLast?.map Prod.fst = some v) (hj : s.jobs[i]?.map Prod.snd = some j) (w : W) :
    (step s (.run i)).served w = s.served w ++ if v = w then [j] else [] := by
  have hstep : step s (.run i) = { s with done := s.done ++ [(i, s.jobs.length - 1)] } := if_pos hi
  rw [List.getLast?_eq_getElem?] at hv
  rw [hstep, State.served, List.filterMap_append, State.served]
  by_cases hvw : v = w <;> simp [hv, hj, hvw]

/-- A resource that was not submitted is served nothing. -/
theorem Inv.served_eq_nil (h : Inv s) {w : W} (hw : w ∉ s.jobs.map Prod.fst) :
    s.served w = [] := by
  refine List.filterMap_eq_nil_iff.2 fun r hr => if_neg fun hr' => hw ?_
  have hb := h.bound r hr
  rw [List.getElem?_eq_getElem hb, Option.map_some, Option.some.injEq] at hr'
  exact hr' ▸ List.mem_map_of_mem (List.getElem_mem hb)

/-- **Served right.**  Where the resources are distinct and each job ran on its
    own, each resource has been served its job. -/
theorem Inv.served_eq (h : Inv s) (hc : s.Complete) (hnd : (s.jobs.map Prod.fst).Nodup)
    (hdiag : ∀ r ∈ s.done, r.1 = r.2) {w : W} {j : J} (hwj : (w, j) ∈ s.jobs) :
    s.served w = [j] := by
  obtain ⟨i, hi, hget⟩ := List.getElem_of_mem hwj
  have hmem : (i, i) ∈ s.done := by
    obtain ⟨r, hr, hri⟩ := List.mem_map.1 (hc i hi)
    have hr2 := hdiag r hr
    have : r = (i, i) := Prod.ext hri (by simp only; omega)
    exact this ▸ hr
  have hown : ∀ r ∈ s.done, s.jobs[r.2]?.map Prod.fst = some w ↔ r = (i, i) := by
    intro r hr
    have hb := h.bound r hr
    constructor
    · intro hw
      have hres : (s.jobs.map Prod.fst)[i]? = (s.jobs.map Prod.fst)[r.2]? := by
        rw [List.getElem?_map, List.getElem?_map, hw, List.getElem?_eq_getElem hi, hget]
        rfl
      have hri : r.2 = i := ((List.getElem?_inj (by simpa using hi) hnd).1 hres).symm
      exact Prod.ext ((hdiag r hr).trans hri) hri
    · rintro rfl
      simp [List.getElem?_eq_getElem hi, hget]
  have hfilter : s.done.filter (· == (i, i)) = [(i, i)] := by
    rw [List.filter_beq, List.count_eq_one_of_mem (List.Nodup.of_map _ h.nodup) hmem]
    rfl
  have hserved : s.served w = (s.done.filter (· == (i, i))).map fun _ => j := by
    rw [State.served, ← List.filterMap_eq_map, List.filterMap_filter]
    refine List.filterMap_congr fun r hr => ?_
    by_cases hri : r = (i, i)
    · simp [hri, List.getElem?_eq_getElem hi, hget]
    · rw [if_neg (fun hw => hri ((hown r hr).1 hw)), if_neg (by simpa using hri)]
  rw [hserved, hfilter]
  rfl

/-- The resources of the runs, in order. -/
def State.resources (s : State W J) : List (Option W) :=
  s.done.map fun r => s.jobs[r.2]?.map Prod.fst

theorem Inv.length_served (h : Inv s) (w : W) :
    (s.served w).length = s.resources.count (some w) := by
  have hgen : ∀ l : List (ℕ × ℕ), (∀ r ∈ l, r.1 < s.jobs.length) →
      (l.filterMap fun r => if s.jobs[r.2]?.map Prod.fst = some w then
        s.jobs[r.1]?.map Prod.snd else none).length =
      (l.map fun r => s.jobs[r.2]?.map Prod.fst).count (some w) := by
    intro l hl
    induction l with
    | nil => rfl
    | cons r l ih =>
      have hr : r.1 < s.jobs.length := hl r (by simp)
      have ih' := ih fun r' hr' => hl r' (by simp [hr'])
      by_cases hw : s.jobs[r.2]?.map Prod.fst = some w
      · simp [hw, List.getElem?_eq_getElem hr, ih']
      · simp [hw, ih']
  exact hgen _ fun r hr => (h.late r hr).trans_lt (h.bound r hr)

/-- **Served one.**  Where each resource has been served exactly one job, the
    resources are distinct and each job ran on its own. -/
theorem Inv.own_of_length (h : Inv s) (hc : s.Complete)
    (hone : ∀ w ∈ s.jobs.map Prod.fst, (s.served w).length = 1) :
    (s.jobs.map Prod.fst).Nodup ∧ ∀ r ∈ s.done, r.1 = r.2 := by
  -- no resource is run on twice, so the runs hit every submission
  have hres : s.resources.Nodup := by
    rw [List.nodup_iff_count_le_one]
    intro o
    by_cases ho : o ∈ s.resources
    · obtain ⟨r, hr, rfl⟩ := List.mem_map.1 ho
      have hb := h.bound r hr
      rw [List.getElem?_eq_getElem hb, Option.map_some, ← h.length_served,
        hone _ (List.mem_map_of_mem (List.getElem_mem hb))]
    · rw [List.count_eq_zero_of_not_mem ho]
      exact Nat.zero_le _
  have hres_eq : s.resources = (s.done.map Prod.snd).map fun k => s.jobs[k]?.map Prod.fst := by
    simp [State.resources]
  have hsnd : (s.done.map Prod.snd).Nodup := List.Nodup.of_map _ (hres_eq ▸ hres)
  have hfst_perm : (s.done.map Prod.fst).Perm (List.range s.jobs.length) := by
    refine (List.perm_ext_iff_of_nodup h.nodup List.nodup_range).2 fun i => ?_
    rw [List.mem_range]
    refine ⟨fun hi => ?_, hc i⟩
    obtain ⟨r, hr, rfl⟩ := List.mem_map.1 hi
    exact (h.late r hr).trans_lt (h.bound r hr)
  have hsnd_perm : (s.done.map Prod.snd).Perm (List.range s.jobs.length) := by
    have hsub : s.done.map Prod.snd ⊆ List.range s.jobs.length := by
      intro k hk
      obtain ⟨r, hr, rfl⟩ := List.mem_map.1 hk
      exact List.mem_range.2 (h.bound r hr)
    have hlen : (List.range s.jobs.length).length ≤ (s.done.map Prod.snd).length := by
      rw [← hfst_perm.length_eq]; simp
    exact (List.subperm_of_subset hsnd hsub).perm_of_length_le hlen
  refine ⟨?_, ?_⟩
  · have hjobs : s.resources.Perm ((s.jobs.map Prod.fst).map some) := by
      have hrange : (List.range s.jobs.length).map (fun k => s.jobs[k]?.map Prod.fst) =
          (s.jobs.map Prod.fst).map some := by
        refine List.ext_getElem (by simp) fun k hk _ => ?_
        have hk' : k < s.jobs.length := by simpa using hk
        simp [List.getElem?_eq_getElem hk']
      rw [hres_eq, ← hrange]
      exact hsnd_perm.map _
    exact List.Nodup.of_map _ (hjobs.nodup_iff.1 hres)
  · -- no run is early, and in total they are not late
    have hsum : (s.done.map Prod.fst).sum = (s.done.map Prod.snd).sum :=
      (hfst_perm.trans hsnd_perm.symm).sum_eq
    intro r hr
    by_contra hne
    have hlt := List.sum_lt_sum Prod.fst Prod.snd h.late
      ⟨r, hr, lt_of_le_of_ne (h.late r hr) hne⟩
    omega

end

end LateBinding
