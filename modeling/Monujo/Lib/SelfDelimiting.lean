/-
  Self-delimiting codes.

  A code writes a word over `α` for each value of `β`.  It is self-delimiting
  when a word can be told from whatever is written after it.  What a printer
  does with a field keeps this: literals before and after it, and a terminator
  that does not occur in it.

  `flatMap_injective`: a list of values whose words are written one after the
  other, without separators, can be read back.
-/
import Mathlib.Data.List.Basic
import Mathlib.InformationTheory.Coding.UniquelyDecodable

/-- A word of `f` can be told from what follows it. -/
def SelfDelimiting {α β : Type*} (f : β → List α) : Prop :=
  ∀ ⦃x y : β⦄ ⦃u v : List α⦄, f x ++ u = f y ++ v → x = y ∧ u = v

namespace SelfDelimiting

variable {α β : Type*} {f : β → List α}

theorem injective (h : SelfDelimiting f) : Function.Injective f := by
  intro x y hxy
  have heq : f x ++ [] = f y ++ [] := by rw [hxy]
  exact (h heq).1

/-- What a reader finds at the beginning, and the rest. -/
theorem of_read (read : List α → Option (β × List α)) (h : ∀ x u, read (f x ++ u) = some (x, u)) :
    SelfDelimiting f := by
  intro x y u v heq
  have hread : some (x, u) = some (y, v) := by rw [← h x u, ← h y v, heq]
  exact Prod.mk.inj (Option.some.inj hread)

/-- The first `c` of a list splits it in one way. -/
theorem split_first {c : α} {l m u v : List α} (hl : c ∉ l) (hm : c ∉ m)
    (h : l ++ c :: u = m ++ c :: v) : l = m ∧ u = v := by
  rcases List.append_eq_append_iff.1 h with ⟨k, rfl, hk⟩ | ⟨k, rfl, hk⟩
  · cases k with
    | nil => exact ⟨(List.append_nil l).symm, (List.cons.inj hk).2⟩
    | cons d k =>
      obtain ⟨rfl, -⟩ := List.cons.inj hk
      exact absurd (by simp) hm
  · cases k with
    | nil => exact ⟨List.append_nil m, (List.cons.inj hk).2.symm⟩
    | cons d k =>
      obtain ⟨rfl, -⟩ := List.cons.inj hk
      exact absurd (by simp) hl

/-- A field ends at a terminator that does not occur in it. -/
theorem of_terminator {c : α} (hf : Function.Injective f) (hc : ∀ x, c ∉ f x) :
    SelfDelimiting fun x => f x ++ [c] := by
  intro x y u v h
  simp only [List.append_assoc, List.singleton_append] at h
  obtain ⟨hfield, hrest⟩ := split_first (hc x) (hc y) h
  exact ⟨hf hfield, hrest⟩

theorem prepend (h : SelfDelimiting f) (l : List α) : SelfDelimiting fun x => l ++ f x := by
  intro x y u v heq
  rw [List.append_assoc, List.append_assoc] at heq
  exact h (List.append_cancel_left heq)

theorem append (h : SelfDelimiting f) (l : List α) : SelfDelimiting fun x => f x ++ l := by
  intro x y u v heq
  rw [List.append_assoc, List.append_assoc] at heq
  obtain ⟨rfl, hrest⟩ := h heq
  exact ⟨rfl, List.append_cancel_left hrest⟩

/-- The words of a self-delimiting code, none of them empty, decode uniquely. -/
theorem uniquelyDecodable (h : SelfDelimiting f) (hne : ∀ x, f x ≠ []) :
    InformationTheory.UniquelyDecodable (Set.range f) := by
  intro ws
  induction ws with
  | nil =>
    intro vs _ hvs heq
    cases vs with
    | nil => rfl
    | cons v vs =>
      obtain ⟨y, rfl⟩ := hvs v (by simp)
      have hword : f y = [] := (List.append_eq_nil_iff.1 heq.symm).1
      exact absurd hword (hne y)
  | cons w ws ih =>
    intro vs hws hvs heq
    obtain ⟨x, rfl⟩ := hws w (by simp)
    cases vs with
    | nil =>
      have hword : f x = [] := (List.append_eq_nil_iff.1 heq).1
      exact absurd hword (hne x)
    | cons v vs =>
      obtain ⟨y, rfl⟩ := hvs v (by simp)
      obtain ⟨rfl, hrest⟩ := h heq
      have htail : ws = vs :=
        ih vs (fun w hw => hws w (by simp [hw])) (fun v hv => hvs v (by simp [hv])) hrest
      rw [htail]

/-- **Reading back a list.** -/
theorem flatMap_injective (h : SelfDelimiting f) (hne : ∀ x, f x ≠ []) :
    Function.Injective fun xs : List β => xs.flatMap f := by
  intro xs ys heq
  have hwords : xs.map f = ys.map f := by
    refine h.uniquelyDecodable hne _ _ ?_ ?_ (by simpa only [List.flatMap_def] using heq)
    · intro w hw
      obtain ⟨x, -, rfl⟩ := List.mem_map.1 hw
      exact ⟨x, rfl⟩
    · intro w hw
      obtain ⟨y, -, rfl⟩ := List.mem_map.1 hw
      exact ⟨y, rfl⟩
  exact List.map_injective_iff.2 h.injective hwords

end SelfDelimiting
