/-
  A cache that is its own history.

  A call names a key.  It is served the answer of the most recent query of its
  key if that is accepted, and makes a query of its own if not.  The history of
  the calls says what the next one does, so that a cache with variables of its
  own is right when it does the same.

  Whether an answer is accepted is one thing (what the cache can see), whether
  it is good is another.

  * `sound_iff`: every call returns a good answer if and only if no answer is
    accepted that is not good;
  * `filter_run`: the calls on one key return what they would return alone.
-/
import Monujo.Lib.Runs

namespace Cache

structure Query (τ α : Type*) where
  completed : τ
  answer : α
  deriving DecidableEq

/-- A call, made at `start`; a query it makes is completed at `finish`, with
    `answer`. -/
structure Call (κ τ α : Type*) where
  key : κ
  start : τ
  finish : τ
  answer : α

/-- What a call has done: the query it has made, if any, and the value it has
    returned at `time`. -/
structure Return (κ τ α : Type*) where
  key : κ
  query : Option (Query τ α)
  value : α
  time : τ
  deriving DecidableEq

variable {κ τ α : Type*} [DecidableEq κ]

/-- The most recent query of `k`; a history has the last return first. -/
def last (k : κ) (rs : List (Return κ τ α)) : Option (Query τ α) :=
  rs.findSome? fun r => if r.key = k then r.query else none

theorem last_cons (k : κ) (r : Return κ τ α) (rs : List (Return κ τ α)) :
    last k (r :: rs) = if r.key = k then r.query.or (last k rs) else last k rs := by
  unfold last
  rw [List.findSome?_cons]
  split_ifs
  · cases r.query <;> rfl
  · rfl

/-- The queries of `k` are those of its calls. -/
theorem last_filter (k : κ) (rs : List (Return κ τ α)) :
    last k (rs.filter (·.key = k)) = last k rs := by
  induction rs with
  | nil => rfl
  | cons r rs ih =>
    by_cases hkey : r.key = k
    · rw [List.filter_cons_of_pos (by simpa using hkey), last_cons, last_cons, ih]
    · rw [List.filter_cons_of_neg (by simpa using hkey), last_cons, if_neg hkey, ih]

variable (accept : κ → Query τ α → τ → Prop) [∀ k q t, Decidable (accept k q t)]

/-- What the next call does. -/
def respond (rs : List (Return κ τ α)) (c : Call κ τ α) : Return κ τ α :=
  match (last c.key rs).filter (accept c.key · c.start) with
  | some q => ⟨c.key, none, q.answer, c.start⟩
  | none => ⟨c.key, some ⟨c.finish, c.answer⟩, c.answer, c.finish⟩

/-- The history after one more call. -/
def step (rs : List (Return κ τ α)) (c : Call κ τ α) : List (Return κ τ α) :=
  respond accept rs c :: rs

variable {accept} {rs : List (Return κ τ α)} {c : Call κ τ α}

theorem key_respond : (respond accept rs c).key = c.key := by
  unfold respond
  split <;> rfl

/-- A call finds an answer it accepts, or none. -/
theorem accept_or_refuse (accept : κ → Query τ α → τ → Prop) (rs : List (Return κ τ α))
    (c : Call κ τ α) : (∃ q, last c.key rs = some q ∧ accept c.key q c.start) ∨
      ∀ q, last c.key rs = some q → ¬ accept c.key q c.start := by
  by_cases h : ∃ q, last c.key rs = some q ∧ accept c.key q c.start
  · exact .inl h
  · exact .inr fun q hq haccept => h ⟨q, hq, haccept⟩

/-- A call that is served. -/
theorem respond_of_accept {q : Query τ α} (hq : last c.key rs = some q)
    (h : accept c.key q c.start) : respond accept rs c = ⟨c.key, none, q.answer, c.start⟩ := by
  have hfilter : (last c.key rs).filter (accept c.key · c.start) = some q := by
    rw [hq, Option.filter_some, if_pos (by simpa using h)]
  rw [respond, hfilter]

/-- A call that makes a query. -/
theorem respond_of_not_accept (h : ∀ q, last c.key rs = some q → ¬ accept c.key q c.start) :
    respond accept rs c = ⟨c.key, some ⟨c.finish, c.answer⟩, c.answer, c.finish⟩ := by
  have hfilter : (last c.key rs).filter (accept c.key · c.start) = none := by
    cases hq : last c.key rs with
    | none => rfl
    | some q => rw [Option.filter_some, if_neg (by simpa using h q hq)]
  rw [respond, hfilter]

/-- A call that is served leaves the last queries as they are. -/
theorem last_step_of_accept {q : Query τ α} (hq : last c.key rs = some q)
    (h : accept c.key q c.start) (k : κ) : last k (step accept rs c) = last k rs := by
  rw [step, respond_of_accept hq h, last_cons]
  split_ifs <;> rfl

/-- A call that makes a query leaves it as the last one of its key. -/
theorem last_step_of_not_accept (h : ∀ q, last c.key rs = some q → ¬ accept c.key q c.start)
    (k : κ) : last k (step accept rs c) =
      if c.key = k then some ⟨c.finish, c.answer⟩ else last k rs := by
  rw [step, respond_of_not_accept h, last_cons]
  rfl

/-- Whatever a call does, it returns the answer of the query that is the most
    recent one then. -/
theorem last_step (accept : κ → Query τ α → τ → Prop) [∀ k q t, Decidable (accept k q t)]
    (rs : List (Return κ τ α)) (c : Call κ τ α) :
    ∃ q, last c.key (step accept rs c) = some q ∧ q.answer = (respond accept rs c).value := by
  rcases accept_or_refuse accept rs c with ⟨q, hq, haccept⟩ | hrefuse
  · rw [last_step_of_accept hq haccept, respond_of_accept hq haccept]
    exact ⟨q, hq, rfl⟩
  · rw [last_step_of_not_accept hrefuse, if_pos rfl, respond_of_not_accept hrefuse]
    exact ⟨⟨c.finish, c.answer⟩, rfl, rfl⟩

/-- The queries of a run are made by its calls. -/
theorem exists_of_last_run {k : κ} {q : Query τ α} {cs : List (Call κ τ α)}
    (h : last k (Runs.run (step accept) [] cs) = some q) :
    ∃ c ∈ cs, c.key = k ∧ q = ⟨c.finish, c.answer⟩ := by
  induction cs using List.reverseRecOn with
  | nil => cases h
  | append_singleton cs c ih =>
    have hearlier : last k (Runs.run (step accept) [] cs) = some q →
        ∃ c' ∈ cs ++ [c], c'.key = k ∧ q = ⟨c'.finish, c'.answer⟩ := by
      intro hlast
      obtain ⟨c', hc', hq⟩ := ih hlast
      exact ⟨c', List.mem_append_left _ hc', hq⟩
    rw [Runs.run_concat] at h
    rcases accept_or_refuse accept (Runs.run (step accept) [] cs) c with ⟨q', hq', haccept⟩ | hrefuse
    · rw [last_step_of_accept hq' haccept] at h
      exact hearlier h
    · rw [last_step_of_not_accept hrefuse] at h
      split_ifs at h with hkey
      · exact ⟨c, by simp, hkey, (Option.some.inj h).symm⟩
      · exact hearlier h

/-! ## Soundness -/

/-- The last return was that of the most recent query of its key, which is
    good. -/
def Sound (good : κ → Query τ α → τ → Prop) (rs : List (Return κ τ α)) : Prop :=
  ∀ r, rs.head? = some r → ∃ q, last r.key rs = some q ∧ q.answer = r.value ∧ good r.key q r.time

/-- What is accepted is good. -/
def Trusted (accept good : κ → Query τ α → τ → Prop) (rs : List (Return κ τ α))
    (c : Call κ τ α) : Prop :=
  ∀ q, last c.key rs = some q → accept c.key q c.start → good c.key q c.start

/-- One call. -/
theorem sound_step_iff {good : κ → Query τ α → τ → Prop} (hgood : ∀ k q, good k q q.completed) :
    Sound good (step accept rs c) ↔ Trusted accept good rs c := by
  constructor
  · intro h q hq haccept
    obtain ⟨q', hq', -, hgood'⟩ := h _ rfl
    rw [key_respond, last_step_of_accept hq haccept] at hq'
    cases hq.symm.trans hq'
    rwa [respond_of_accept hq haccept] at hgood'
  · intro h r hr
    obtain rfl : respond accept rs c = r := Option.some.inj hr
    obtain ⟨q, hq, hanswer⟩ := last_step accept rs c
    refine ⟨q, by rwa [key_respond], hanswer, ?_⟩
    rcases accept_or_refuse accept rs c with ⟨q', hq', haccept⟩ | hrefuse
    · rw [last_step_of_accept hq' haccept] at hq
      cases hq.symm.trans hq'
      rw [respond_of_accept hq haccept]
      exact h q hq haccept
    · rw [last_step_of_not_accept hrefuse, if_pos rfl] at hq
      cases hq
      rw [respond_of_not_accept hrefuse]
      exact hgood _ _

/-- **When a cache is sound.** -/
theorem sound_iff {good : κ → Query τ α → τ → Prop} (hgood : ∀ k q, good k q q.completed)
    (cs : List (Call κ τ α)) :
    Runs.Always (step accept) (Sound good) [] cs ↔
      Runs.Guarded (step accept) (Trusted accept good) [] cs := by
  refine Runs.always_iff_guarded (Sound good) (fun _ h => h) (fun rs c _ h => ?_)
    (fun rs c _ h => ?_) ?_
  · exact (sound_step_iff hgood).2 h
  · exact (sound_step_iff hgood).1 h
  · intro r hr
    cases hr

/-! ## Keys -/

/-- **Keys do not interfere.** -/
theorem filter_run (k : κ) (cs : List (Call κ τ α)) :
    (Runs.run (step accept) [] cs).filter (·.key = k) =
      Runs.run (step accept) [] (cs.filter (·.key = k)) := by
  induction cs using List.reverseRecOn with
  | nil => rfl
  | append_singleton cs c ih =>
    rw [Runs.run_concat, List.filter_append, step]
    by_cases hkey : c.key = k
    · subst hkey
      -- The call sees the same last query in both histories.
      have hsame : respond accept (Runs.run (step accept) [] cs) c =
          respond accept ((Runs.run (step accept) [] cs).filter (·.key = c.key)) c := by
        rw [respond, respond, last_filter]
      have hc : [c].filter (·.key = c.key) = [c] := by simp
      rw [List.filter_cons_of_pos (by simp [key_respond]), hc, Runs.run_concat, step, hsame, ih]
    · have hc : [c].filter (·.key = k) = [] := by simpa using hkey
      rw [List.filter_cons_of_neg (by simpa [key_respond] using hkey), hc, List.append_nil, ih]

end Cache
