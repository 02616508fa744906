/-
  Key-value stores written one key at a time.

  A `Store V` holds, under each key `k`, a value of type `V k` or nothing.
  `put s ws` performs the writes `ws` in order.  A process can die between any
  two of them, so the store found afterwards is `put s vs` for a prefix `vs` of
  them; `put_cut_iff` says when each of these is the old or the new store.
-/
import Mathlib.Logic.Function.Basic
import Mathlib.Data.List.Induction
import Mathlib.Data.List.Nodup

/-- A store whose values are typed by their keys. -/
abbrev Store {K : Type*} (V : K → Type*) := ∀ k, Option (V k)

/-- A write of one key; writing `none` removes it. -/
structure Write {K : Type*} (V : K → Type*) where
  key : K
  val : Option (V key)

namespace Store

variable {K : Type*} [DecidableEq K] {V : K → Type*}

/-- One write. -/
def set (s : Store V) (w : Write V) : Store V := Function.update s w.key w.val

@[simp] theorem set_self (s : Store V) (k : K) (v : Option (V k)) : s.set ⟨k, v⟩ k = v :=
  Function.update_self ..

theorem set_of_ne (s : Store V) {w : Write V} {k : K} (h : k ≠ w.key) : s.set w k = s k :=
  Function.update_of_ne h ..

@[simp] theorem set_mk_of_ne (s : Store V) {k k' : K} (v : Option (V k)) (h : k' ≠ k) :
    s.set ⟨k, v⟩ k' = s k' := s.set_of_ne h

/-- The writes `ws`, in order. -/
def put (s : Store V) (ws : List (Write V)) : Store V := ws.foldl set s

@[simp] theorem put_nil (s : Store V) : s.put [] = s := rfl

@[simp] theorem put_cons (s : Store V) (w : Write V) (ws : List (Write V)) :
    s.put (w :: ws) = (s.set w).put ws := rfl

/-- A key that is not written keeps its value. -/
theorem put_of_notMem {ws : List (Write V)} {k : K} (h : k ∉ ws.map Write.key) (s : Store V) :
    s.put ws k = s k := by
  induction ws generalizing s with
  | nil => rfl
  | cons w ws ih =>
    simp only [List.map_cons, List.mem_cons, not_or] at h
    rw [put_cons, ih h.2, set_of_ne _ h.1]

/-- What is under a key after some writes depends on what was there. -/
theorem put_congr {s t : Store V} {k : K} (h : s k = t k) (ws : List (Write V)) :
    s.put ws k = t.put ws k := by
  induction ws generalizing s t with
  | nil => exact h
  | cons w ws ih =>
    refine ih ?_
    by_cases hk : k = w.key
    · subst hk
      rw [set_self, set_self]
    · rw [set_of_ne s hk, set_of_ne t hk, h]

/-- Writes that remove nothing go over what was there. -/
theorem put_eq_or {ws : List (Write V)} (h : ∀ w ∈ ws, w.val.isSome = true) (s : Store V) (k : K) :
    s.put ws k = (put (fun _ => none) ws k).or (s k) := by
  induction ws using List.reverseRecOn with
  | nil => rfl
  | append_singleton ws w ih =>
    have hput : ∀ t : Store V, t.put (ws ++ [w]) = (t.put ws).set w := fun _ => List.foldl_append
    rw [hput, hput]
    by_cases hk : k = w.key
    · subst hk
      rw [set_self, set_self]
      exact (Option.or_of_isSome (h w (by simp))).symm
    · rw [set_of_ne _ hk, set_of_ne _ hk, ih fun v hv => h v (by simp [hv])]

/-- The write puts a value under its key that is not there. -/
def Changes (s : Store V) (w : Write V) : Prop := s w.key ≠ w.val

instance [∀ k, DecidableEq (V k)] (s : Store V) : DecidablePred s.Changes :=
  fun w => inferInstanceAs (Decidable (s w.key ≠ w.val))

theorem set_eq_self_iff {s : Store V} {w : Write V} : s.set w = s ↔ ¬ s.Changes w := by
  simp [set, Changes, eq_comm]

/-- Writes of other keys do not decide whether a write changes the store. -/
theorem changes_set_iff {s : Store V} {w v : Write V} (h : v.key ≠ w.key) :
    (s.set w).Changes v ↔ s.Changes v := by
  simp [Changes, set_of_ne s h]

/-- A written key holds what was written, when no key is written twice. -/
theorem put_of_mem {ws : List (Write V)} (hnd : (ws.map Write.key).Nodup) {w : Write V}
    (hw : w ∈ ws) (s : Store V) : s.put ws w.key = w.val := by
  induction ws generalizing s with
  | nil => simp at hw
  | cons v ws ih =>
    obtain ⟨hv, hnd'⟩ := List.nodup_cons.1 hnd
    rcases List.mem_cons.1 hw with rfl | hw
    · rw [put_cons, put_of_notMem hv, set_self]
    · exact ih hnd' hw _

theorem put_eq_self {s : Store V} {ws : List (Write V)} (h : ∀ w ∈ ws, ¬ s.Changes w) :
    s.put ws = s := by
  induction ws with
  | nil => rfl
  | cons w ws ih =>
    rw [put_cons, set_eq_self_iff.2 (h w (by simp)), ih fun v hv => h v (by simp [hv])]

theorem put_eq_self_iff {s : Store V} {ws : List (Write V)} (hnd : (ws.map Write.key).Nodup) :
    s.put ws = s ↔ ∀ w ∈ ws, ¬ s.Changes w := by
  refine ⟨fun h w hw => ?_, put_eq_self⟩
  rw [Changes, not_not, ← put_of_mem hnd hw s, h]

variable [∀ k, DecidableEq (V k)]

theorem filter_changes_set {s : Store V} {w : Write V} {ws : List (Write V)}
    (h : w.key ∉ ws.map Write.key) : ws.filter (s.set w).Changes = ws.filter s.Changes := by
  refine List.filter_congr fun v hv => ?_
  have hne : v.key ≠ w.key := fun he => h (he ▸ List.mem_map_of_mem hv)
  simp only [changes_set_iff hne]

/-- **All or nothing.**  A sequence of writes to distinct keys leaves the old or
    the new store behind at every cut if and only if at most one of the writes
    changes anything. -/
theorem put_cut_iff {s : Store V} {ws : List (Write V)} (hnd : (ws.map Write.key).Nodup) :
    (∀ vs, vs <+: ws → s.put vs = s ∨ s.put vs = s.put ws) ↔
      (ws.filter s.Changes).length ≤ 1 := by
  induction ws generalizing s with
  | nil => simp
  | cons w ws ih =>
    obtain ⟨hw, hnd'⟩ := List.nodup_cons.1 hnd
    by_cases hch : s.Changes w
    · -- the first write changes the store, so no later one may
      have hset : s.set w ≠ s := fun h => set_eq_self_iff.1 h hch
      rw [List.filter_cons_of_pos (by simpa using hch), ← filter_changes_set hw]
      constructor
      · intro h
        have hnew : (s.set w).put ws = s.set w := by
          rcases h [w] ⟨ws, rfl⟩ with h | h
          · exact absurd h hset
          · exact h.symm
        have hnil : ws.filter (s.set w).Changes = [] := by
          simpa [List.filter_eq_nil_iff] using (put_eq_self_iff hnd').1 hnew
        simp [hnil]
      · intro h vs hvs
        have hnil : ws.filter (s.set w).Changes = [] := by
          rw [← List.length_eq_zero_iff]; simp only [List.length_cons] at h; omega
        have hno : ∀ v ∈ ws, ¬ (s.set w).Changes v := by
          simpa [List.filter_eq_nil_iff] using hnil
        rcases List.prefix_cons_iff.1 hvs with rfl | ⟨us, rfl, hus⟩
        · exact Or.inl rfl
        · right
          rw [put_cons, put_cons, put_eq_self hno,
            put_eq_self fun v hv => hno v (hus.subset hv)]
    · -- the first write changes nothing: the cuts are those of the others
      have hset : s.set w = s := set_eq_self_iff.2 hch
      rw [List.filter_cons_of_neg (by simpa using hch), ← ih hnd', put_cons, hset]
      constructor
      · intro h vs hvs
        have := h (w :: vs) (List.cons_prefix_cons.2 ⟨rfl, hvs⟩)
        rwa [put_cons, hset] at this
      · intro h vs hvs
        rcases List.prefix_cons_iff.1 hvs with rfl | ⟨us, rfl, hus⟩
        · exact Or.inl rfl
        · rw [put_cons, hset]; exact h us hus

end Store
