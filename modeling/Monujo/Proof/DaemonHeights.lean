/-
  The cached daemon heights over runs of calls.

  A height is meant to be an answer of the library that is no older than its
  time to live.  The cache measures this age with the wall clock, which the
  system sets.

  `heights_kept_iff`: the heights are as they are meant to be if and only if,
  whenever a call finds a height that by the wall clock has time to live, it
  really has.

  `kept_forall_iff`: a wall clock is good for all runs if and only if it never
  shows less than a time to live when more has passed.
-/
import Mathlib.Algebra.Order.Ring.Rat
import Monujo.Lib.Cache
import Monujo.Model.DaemonHeights

namespace Monujo

open Monero

namespace DaemonHeights

/-- The two heights, under the names of their methods. -/
inductive Height where
  | daemonBlockChainHeight | daemonBlockChainTargetHeight
  deriving DecidableEq

namespace Height

/-- The time to live, in seconds. -/
def ttl : Height → Rat
  | daemonBlockChainHeight => 10
  | daemonBlockChainTargetHeight => 60

def cache (m : DaemonHeights) : Height → CachedHeight
  | daemonBlockChainHeight => m.m_daemonBlockChainHeight
  | daemonBlockChainTargetHeight => m.m_daemonBlockChainTargetHeight

def get (w : Wallet) (m : DaemonHeights) (checked answered : Rat) :
    Height → AppCode (UInt64 × DaemonHeights)
  | daemonBlockChainHeight => w.daemonBlockChainHeight m checked answered
  | daemonBlockChainTargetHeight => w.daemonBlockChainTargetHeight m checked answered

/-- The query of the library. -/
def query (w : Wallet) : Height → AppCode UInt64
  | daemonBlockChainHeight => call (.wallet w.impl .daemonBlockChainHeight)
  | daemonBlockChainTargetHeight => call (.wallet w.impl .daemonBlockChainTargetHeight)

/-- The answer in an effect that is a query of the height. -/
def answer? (w : Wallet) : Height → Effect → Option UInt64
  | daemonBlockChainHeight, .call (.wallet h .daemonBlockChainHeight) a =>
    if h = w.impl then some a else none
  | daemonBlockChainTargetHeight, .call (.wallet h .daemonBlockChainTargetHeight) a =>
    if h = w.impl then some a else none
  | _, _ => none

end Height

/-- A call of one of the methods, made at the real time `start`; a query it
    makes is answered at the real time `finish`.  The test of the cache takes no
    time, nor does what follows the answer: it arrives, its time is read and the
    method returns at one instant. -/
structure Event where
  height : Height
  start : Rat
  finish : Rat
  env : Env

abbrev Return := Cache.Return Height Rat UInt64

/-- A wrapper, and what the calls on it have done, the last one first. -/
structure State where
  m : DaemonHeights
  returns : List Return

def start : State := ⟨.init, []⟩

/-- One call; `wall` is what the wall clock shows at a real time.  A call that
    makes no query returns at once. -/
def step (wall : Rat → Rat) (w : Wallet) (s : State) (e : Event) : State :=
  let get := e.height.get w s.m (wall e.start) (wall e.finish)
  let query := ((get.log e.env).findSome? (e.height.answer? w)).map (Cache.Query.mk e.finish)
  { m := (get.val e.env).2
    returns := ⟨e.height, query, (get.val e.env).1, (query.elim e.start Cache.Query.completed)⟩ ::
      s.returns }

/-! ## What the heights are meant to be -/

/-- The last return is the answer of the most recent query of its height; if
    it is not 0, this query was completed within the time to live. -/
def Fresh (s : State) : Prop :=
  ∀ r, s.returns.head? = some r → ∃ q, Cache.last r.key s.returns = some q ∧ q.answer = r.value ∧
    (q.answer ≠ 0 → r.time - r.key.ttl ≤ q.completed)

section
variable (wall : Rat → Rat) (w : Wallet)

/-- After an error, the next call of a height makes a query. -/
def Requeries (s : State) : Prop :=
  ∀ (e : Event) (q : Cache.Query Rat UInt64), Cache.last e.height s.returns = some q →
    q.answer = 0 → ∃ r, (step wall w s e).returns.head? = some r ∧ r.query ≠ none

/-- The heights are as they are meant to be, along the run `es`. -/
structure Kept (es : List Event) : Prop where
  fresh : Runs.Always (step wall w) Fresh start es
  requeries : Runs.Always (step wall w) (Requeries wall w) start es
  /-- The calls of a height return what they return without the other's. -/
  apart : ∀ h : Height, (Runs.run (step wall w) start es).returns.filter (·.key = h) =
    (Runs.run (step wall w) start (es.filter (·.height = h))).returns

/-- The condition on a call: when a height is there and the wall clock has not
    shown its time to live to pass, it has not passed. -/
def Timely (s : State) (e : Event) : Prop :=
  ∀ q, Cache.last e.height s.returns = some q → q.answer ≠ 0 →
    wall e.start - wall q.completed ≤ e.height.ttl → e.start - q.completed ≤ e.height.ttl

end

/-! ## One call -/

namespace Height

/-- One of the caches is set. -/
def update (m : DaemonHeights) (c : CachedHeight) : Height → DaemonHeights
  | daemonBlockChainHeight => { m with m_daemonBlockChainHeight := c }
  | daemonBlockChainTargetHeight => { m with m_daemonBlockChainTargetHeight := c }

variable {w : Wallet} {m : DaemonHeights} {checked answered : Rat} {env : Env} (h : Height)

@[simp] theorem cache_update (c : CachedHeight) : h.cache (h.update m c) = c := by
  cases h <;> rfl

/-- The two caches do not share anything. -/
theorem cache_update_of_ne {h h' : Height} (hne : h' ≠ h) (c : CachedHeight) :
    h'.cache (h.update m c) = h'.cache m := by
  cases h <;> cases h'
  · exact absurd rfl hne
  · rfl
  · rfl
  · exact absurd rfl hne

@[simp] theorem update_cache : h.update m (h.cache m) = m := by
  cases h <;> rfl

/-- The two methods are one method, on their own caches. -/
theorem get_eq : h.get w m checked answered = do
    let r ← (h.cache m).get (h.query w) checked answered
    return (r.1, h.update m r.2) := by
  cases h <;> rfl

theorem ttl_nonneg : 0 ≤ h.ttl := by
  cases h <;> decide

theorem findSome?_log_query :
    ((h.query w).log env).findSome? (h.answer? w) = some ((h.query w).val env) := by
  cases h with
  | daemonBlockChainHeight =>
    have hlog : (query w daemonBlockChainHeight).log env =
        [.call (.wallet w.impl .daemonBlockChainHeight) (env.answers _)] := rfl
    rw [hlog, List.findSome?_singleton]
    exact if_pos rfl
  | daemonBlockChainTargetHeight =>
    have hlog : (query w daemonBlockChainTargetHeight).log env =
        [.call (.wallet w.impl .daemonBlockChainTargetHeight) (env.answers _)] := rfl
    rw [hlog, List.findSome?_singleton]
    exact if_pos rfl

end Height

variable {wall : Rat → Rat} {w : Wallet} {s : State} {e : Event}

/-- A call that finds a height with time to live. -/
theorem step_of_fresh (h0 : (e.height.cache s.m).height ≠ 0)
    (hage : wall e.start - (e.height.cache s.m).time ≤ (e.height.cache s.m).ttl) :
    step wall w s e =
      ⟨s.m, ⟨e.height, none, (e.height.cache s.m).height, e.start⟩ :: s.returns⟩ := by
  obtain ⟨hval, hlog⟩ := CachedHeight.get_of_fresh
    (e.height.query w) (wall e.finish) e.env h0 hage
  simp only [step, Height.get_eq, Code.val_bind, Code.log_bind, Code.val_pure, Code.log_pure, hval,
    hlog, Height.update_cache, List.append_nil, List.findSome?_nil, Option.map_none,
    Option.elim_none]

/-- A call that finds none. -/
theorem step_of_stale (h : (e.height.cache s.m).height = 0 ∨
      wall e.start - (e.height.cache s.m).time > (e.height.cache s.m).ttl) :
    let answer := (e.height.query w).val e.env
    step wall w s e =
      ⟨e.height.update s.m { e.height.cache s.m with height := answer, time := wall e.finish },
        ⟨e.height, some ⟨e.finish, answer⟩, answer, e.finish⟩ :: s.returns⟩ := by
  obtain ⟨hval, hlog⟩ := CachedHeight.get_of_stale
    (e.height.query w) (wall e.finish) e.env h
  simp only [step, Height.get_eq, Code.val_bind, Code.log_bind, Code.val_pure, Code.log_pure, hval,
    hlog, List.append_nil, Height.findSome?_log_query, Option.map_some, Option.elim_some]

/-! ## The caches and the history -/

/-- The answer of `q` is served at `t`, as far as the wall clock can tell. -/
def Accepted (wall : Rat → Rat) (h : Height) (q : Cache.Query Rat UInt64) (t : Rat) : Prop :=
  q.answer ≠ 0 ∧ wall t - wall q.completed ≤ h.ttl

instance (h : Height) (q : Cache.Query Rat UInt64) (t : Rat) : Decidable (Accepted wall h q t) :=
  inferInstanceAs (Decidable (_ ∧ _))

/-- The answer of `q` may be returned at `t`. -/
def Good (h : Height) (q : Cache.Query Rat UInt64) (t : Rat) : Prop :=
  q.answer ≠ 0 → t - h.ttl ≤ q.completed

theorem good_completed (h : Height) (q : Cache.Query Rat UInt64) : Good h q q.completed :=
  fun _ => sub_le_self _ h.ttl_nonneg

/-- The cache of `h` holds what the most recent query has left. -/
structure Holds (wall : Rat → Rat) (h : Height) (c : CachedHeight)
    (last : Option (Cache.Query Rat UInt64)) : Prop where
  ttl : c.ttl = h.ttl
  height : c.height = last.elim 0 Cache.Query.answer
  time : ∀ q, last = some q → c.time = wall q.completed

/-- The wrapper has the history `rs`, and caches what it says. -/
structure Refines (wall : Rat → Rat) (s : State) (rs : List Return) : Prop where
  returns : s.returns = rs
  holds : ∀ h : Height, Holds wall h (h.cache s.m) (Cache.last h rs)

theorem refines_start (wall : Rat → Rat) : Refines wall start [] where
  returns := rfl
  holds h := by
    refine ⟨?_, ?_, fun q hq => ?_⟩
    · cases h <;> rfl
    · cases h <;> rfl
    · cases hq

def Event.call (w : Wallet) (e : Event) : Cache.Call Height Rat UInt64 :=
  ⟨e.height, e.start, e.finish, (e.height.query w).val e.env⟩

/-- The condition in the source is that the last answer is not accepted. -/
theorem Holds.accepted_iff {h : Height} {c : CachedHeight} {q : Cache.Query Rat UInt64}
    (hc : Holds wall h c (some q)) (t : Rat) :
    Accepted wall h q t ↔ ¬ (c.height = 0 ∨ wall t - c.time > c.ttl) := by
  rw [hc.ttl, hc.time q rfl, hc.height, not_or, gt_iff_lt, not_lt]
  rfl

/-- **Refinement.**  The wrapper does what the history says. -/
theorem refines_step {rs : List Return} (h : Refines wall s rs) (e : Event) :
    Refines wall (step wall w s e) (Cache.step (Accepted wall) rs (e.call w)) := by
  obtain ⟨rfl, hholds⟩ := h
  have hcache := hholds e.height
  by_cases hstale : (e.height.cache s.m).height = 0 ∨
      wall e.start - (e.height.cache s.m).time > (e.height.cache s.m).ttl
  · have hrefused : ∀ q, Cache.last (e.call w).key s.returns = some q →
        ¬ Accepted wall (e.call w).key q (e.call w).start := by
      intro q hq haccepted
      rw [show Cache.last e.height s.returns = some q from hq] at hcache
      exact (hcache.accepted_iff e.start).1 haccepted hstale
    rw [step_of_stale hstale]
    refine ⟨?_, fun h => ?_⟩
    · rw [Cache.step, Cache.respond_of_not_accept hrefused]
      rfl
    · rw [Cache.last_step_of_not_accept hrefused]
      split_ifs with hheight
      · obtain rfl : e.height = h := hheight
        rw [Height.cache_update]
        refine ⟨hcache.ttl, rfl, fun q hq => ?_⟩
        cases hq
        rfl
      · have hne : h ≠ e.height := fun heq => hheight heq.symm
        rw [Height.cache_update_of_ne hne]
        exact hholds h
  · obtain ⟨h0, hage⟩ := not_or.1 hstale
    obtain ⟨q, hq⟩ : ∃ q, Cache.last e.height s.returns = some q := by
      refine Option.ne_none_iff_exists'.1 fun hnone => h0 ?_
      rw [hcache.height, hnone]
      rfl
    have haccepted : Accepted wall e.height q e.start :=
      ((hq ▸ hcache).accepted_iff e.start).2 hstale
    rw [step_of_fresh h0 (not_lt.1 hage)]
    refine ⟨?_, fun h => ?_⟩
    · rw [Cache.step, Cache.respond_of_accept (c := e.call w) hq haccepted, hcache.height, hq]
      rfl
    · rw [Cache.last_step_of_accept (c := e.call w) hq haccepted]
      exact hholds h

/-! ## Runs -/

theorem refines_run (wall : Rat → Rat) (w : Wallet) (es : List Event) :
    Refines wall (Runs.run (step wall w) start es)
      (Runs.run (Cache.step (Accepted wall)) [] (es.map (Event.call w))) :=
  Runs.run_sim (R := Refines wall) (fun _ _ e h => refines_step h e) (refines_start wall) es

theorem requeries_of_refines {rs : List Return} (h : Refines wall s rs) : Requeries wall w s := by
  obtain ⟨rfl, hholds⟩ := h
  intro e q hq herror
  have hcache := hholds e.height
  rw [hq] at hcache
  have h0 : (e.height.cache s.m).height = 0 := hcache.height.trans herror
  rw [step_of_stale (.inl h0)]
  exact ⟨_, rfl, Option.some_ne_none _⟩

/-- The heights are fresh exactly along the runs of timely calls. -/
theorem always_fresh_iff (wall : Rat → Rat) (w : Wallet) (es : List Event) :
    Runs.Always (step wall w) Fresh start es ↔
      Runs.Guarded (step wall w) (Timely wall) start es := by
  have hsim : ∀ s rs e, Refines wall s rs →
      Refines wall (step wall w s e) (Cache.step (Accepted wall) rs (e.call w)) :=
    fun _ _ e h => refines_step h e
  have hfresh : ∀ s rs, Refines wall s rs → (Fresh s ↔ Cache.Sound Good rs) := by
    rintro s rs ⟨rfl, -⟩
    exact Iff.rfl
  have htimely : ∀ s rs e, Refines wall s rs →
      (Timely wall s e ↔ Cache.Trusted (Accepted wall) Good rs (e.call w)) := by
    rintro s rs e ⟨rfl, -⟩
    constructor
    · rintro h q hq ⟨h0, hage⟩ -
      have hreal : e.start - q.completed ≤ e.height.ttl := h q hq h0 hage
      exact sub_le_comm.1 hreal
    · intro h q hq h0 hage
      exact sub_le_comm.1 (h q hq ⟨h0, hage⟩ h0)
  rw [Runs.always_sim hsim hfresh (refines_start wall) es, Cache.sound_iff good_completed,
    Runs.guarded_sim hsim htimely (refines_start wall) es]

/-- The calls of a height return what they return without the other's. -/
theorem filter_returns (wall : Rat → Rat) (w : Wallet) (es : List Event) (h : Height) :
    (Runs.run (step wall w) start es).returns.filter (·.key = h) =
      (Runs.run (step wall w) start (es.filter (·.height = h))).returns := by
  rw [(refines_run wall w es).returns, (refines_run wall w _).returns, Cache.filter_run,
    List.filter_map]
  rfl

/-- The rest holds along every run. -/
theorem kept_of_fresh {es : List Event} (h : Runs.Always (step wall w) Fresh start es) :
    Kept wall w es where
  fresh := h
  requeries := Runs.always_iff_prefix.2 fun fs _ => requeries_of_refines (refines_run wall w fs)
  apart := filter_returns wall w es

/-- **When the heights are kept.** -/
theorem heights_kept_iff (wall : Rat → Rat) (w : Wallet) (es : List Event) :
    Kept wall w es ↔ Runs.Guarded (step wall w) (Timely wall) start es := by
  rw [← always_fresh_iff]
  constructor
  · exact fun h => h.fresh
  · exact kept_of_fresh

/-- With 5 and 6 as the answers, the wall clock set back by 100 seconds between
    the calls has the second one return a height 80 seconds old. -/
theorem set_back_not_kept :
    let wall : Rat → Rat := fun t => if t < 100 then 1000 + t else 900 + t
    let answers (height : UInt64) : Answers := fun c => match c with
      | .wallet _ .daemonBlockChainHeight => height
      | _ => default
    let env (height : UInt64) : Env := { (default : Env) with answers := answers height }
    let es : List Event := [⟨.daemonBlockChainHeight, 90, 90, env 5⟩,
      ⟨.daemonBlockChainHeight, 170, 170, env 6⟩]
    (Runs.run (step wall ⟨1⟩) start es).returns = [⟨.daemonBlockChainHeight, none, 5, 170⟩,
      ⟨.daemonBlockChainHeight, some ⟨90, 5⟩, 5, 90⟩] ∧
    ¬ Kept wall ⟨1⟩ es := by
  intro wall answers env es
  have hreturns : (Runs.run (step wall ⟨1⟩) start es).returns =
      [⟨.daemonBlockChainHeight, none, 5, 170⟩,
        ⟨.daemonBlockChainHeight, some ⟨90, 5⟩, 5, 90⟩] := by decide +kernel
  refine ⟨hreturns, fun h => ?_⟩
  have hhead : (Runs.run (step wall ⟨1⟩) start es).returns.head? =
      some ⟨.daemonBlockChainHeight, none, 5, 170⟩ := by rw [hreturns]; rfl
  obtain ⟨q, hq, -, hgood⟩ := h.fresh.last _ hhead
  rw [hreturns] at hq
  cases hq
  exact absurd (hgood (by decide)) (by decide +kernel)

/-! ## Clocks -/

/-- Real time does not go back. -/
def Timed (es : List Event) : Prop :=
  (∀ e ∈ es, e.start ≤ e.finish) ∧ es.Pairwise fun e e' => e.finish ≤ e'.start

/-- A library whose daemon is at the height 1. -/
def sampleEnv : Env :=
  let answers : Answers := fun c => match c with
    | .wallet _ .daemonBlockChainHeight => (1 : UInt64)
    | .wallet _ .daemonBlockChainTargetHeight => (1 : UInt64)
    | _ => default
  { (default : Env) with answers := answers }

/-- The last query was completed before the next call is made. -/
theorem completed_le_start {fs gs : List Event} (htimed : Timed (fs ++ e :: gs))
    {q : Cache.Query Rat UInt64} {h : Height}
    (hq : Cache.last h (Runs.run (step wall w) start fs).returns = some q) :
    q.completed ≤ e.start := by
  rw [(refines_run wall w fs).returns] at hq
  obtain ⟨c, hc, -, rfl⟩ := Cache.exists_of_last_run hq
  obtain ⟨e', he', rfl⟩ := List.mem_map.1 hc
  exact (List.pairwise_append.1 htimed.2).2.2 e' he' e (by simp)

/-- **Which clocks do.** -/
theorem kept_forall_iff (wall : Rat → Rat) (w : Wallet) :
    (∀ es, Timed es → Kept wall w es) ↔
      ∀ (h : Height) (q t : Rat), q ≤ t → wall t - wall q ≤ h.ttl → t - q ≤ h.ttl := by
  constructor
  · intro hkept h q t hle hage
    have htimed : Timed [⟨h, q, q, sampleEnv⟩, ⟨h, t, t, sampleEnv⟩] := by
      constructor
      · simp
      · simpa using hle
    have hone : (h.query w).val sampleEnv ≠ 0 := by
      have heq : (h.query w).val sampleEnv = 1 := by cases h <;> rfl
      rw [heq]
      decide
    obtain ⟨-, htimely, -⟩ := (always_fresh_iff wall w _).1 (hkept _ htimed).fresh
    rw [step_of_stale (.inl (by cases h <;> rfl))] at htimely
    refine htimely ⟨q, (h.query w).val sampleEnv⟩ ?_ ?_ hage
    · rw [Cache.last_cons, if_pos rfl]
      rfl
    · exact hone
  · intro hclock es htimed
    refine kept_of_fresh ((always_fresh_iff wall w es).2 (Runs.guarded_iff_split.2 ?_))
    rintro fs e gs rfl q hq - hage
    exact hclock e.height q.completed e.start (completed_le_start htimed hq) hage

end DaemonHeights

end Monujo
