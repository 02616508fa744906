/-
  How often the app does things on its own.

  `walletNewBlock` redraws the heights at most once a second, by its clock, and
  a wrapper asks the daemon for a height at most once in its time to live.

  `redraws_limited`: in every run, the redraws of new blocks in a window of `n`
  seconds are at most `n`.  An input runs without another one in its midst: two
  handlers of different wallets, on threads of their own, could both pass the
  test before either sets the time.  `queries_limited`: on a clock that is not set back,
  the queries of a height that are answered in a window of `n` times to live
  are at most `n`, but for those the daemon answers with 0.
-/
import Monujo.Lib.Spacing
import Monujo.Proof.DaemonHeights
import Monujo.Proof.Routine

namespace Monujo

open Monero WalletStore
open Spacing (Limited Rested window)
open WalletViewController.Labels (Looks looks_resetWallet)

namespace Rates

/-! ## New blocks -/

/-- The time, if the effect sets `lastTimeRefreshed`. -/
def refreshedAt? : Effect → Option Rat
  | .refreshedAt time => some time
  | _ => none

/-- The block, if the effect puts one on the main queue. -/
def main? : Effect → Option (List Redraw)
  | .main rs => some rs
  | _ => none

/-- When new blocks were redrawn, by the clock. -/
def refreshes (s : Process) : List Rat := s.log.filterMap refreshedAt?

/-- The blocks put on the main queue. -/
def queued (s : Process) : List (List Redraw) := s.log.filterMap main?

/-- The redraws of new blocks are limited, and are all the redraws of the
    heights alone. -/
structure Inv (s : Process) : Prop where
  limited : Limited 1 s.lastTimeRefreshed (refreshes s)
  counted : (queued s).count [.blockHeights] = (refreshes s).length

/-- The effect neither queues a redraw nor notes one. -/
def Silent : ScreenEffect → Prop
  | .app (.main _) | .app (.refreshedAt _) => False
  | _ => True

/-- Nothing has been queued or noted. -/
structure Idle (s t : Process) : Prop where
  lastTimeRefreshed : t.lastTimeRefreshed = s.lastTimeRefreshed
  refreshes : refreshes t = refreshes s
  queued : queued t = queued s

section
variable {s t u : Process}

theorem Idle.refl (s : Process) : Idle s s := ⟨rfl, rfl, rfl⟩

theorem Idle.trans (h : Idle s t) (h' : Idle t u) : Idle s u :=
  ⟨h'.1.trans h.1, h'.2.trans h.2, h'.3.trans h.3⟩

theorem Inv.idle (h : Inv s) (hst : Idle s t) : Inv t := by
  obtain ⟨hlimited, hcounted⟩ := h
  refine ⟨?_, ?_⟩
  · rwa [hst.lastTimeRefreshed, hst.refreshes]
  · rwa [hst.queued, hst.refreshes]

theorem idle_applyScreen (s : Process) {e : ScreenEffect} (h : Silent e) :
    Idle s (s.applyScreen e) := by
  cases e with
  | heights | text => exact ⟨rfl, rfl, rfl⟩
  | app e =>
    have hnone : refreshedAt? e = none ∧ main? e = none := by
      cases e with
      | main | refreshedAt => exact h.elim
      | call | write | assign | background | «show» | setDelegate => exact ⟨rfl, rfl⟩
    refine ⟨?_, ?_, ?_⟩
    · cases e with
      | refreshedAt => exact h.elim
      | main | call | write | assign | background | «show» | setDelegate => rfl
    · change (s.log ++ [e]).filterMap refreshedAt? = _
      rw [List.filterMap_append, List.filterMap_cons, hnone.1]
      exact List.append_nil _
    · change (s.log ++ [e]).filterMap main? = _
      rw [List.filterMap_append, List.filterMap_cons, hnone.2]
      exact List.append_nil _

theorem silent_of_looks {e : ScreenEffect} (h : Looks e) : Silent e := by
  cases e with
  | heights | text => trivial
  | app e =>
    cases e with
    | main | refreshedAt => exact h.elim
    | call | write | assign | background | «show» | setDelegate => trivial

theorem silent_of_routine {K : Key → Prop} {T : Prop} {e : Effect}
    (h : Routine K False T e) :
    Silent (.app e) := by
  cases e with
  | main | refreshedAt => exact h.elim
  | call | write | assign | background | «show» | setDelegate => trivial

theorem idle_perform (s : Process) (r : ScreenEnv) {es : List ScreenEffect}
    (h : ∀ e ∈ es, Silent e) : Idle s (s.perform r es) :=
  s.perform_keeps r Idle.refl (fun _ _ _ => Idle.trans) (fun _ => silent_of_looks)
    (fun s _ he => idle_applyScreen s he) h

/-- Only the events of a wallet queue redraws. -/
theorem silent_effects (s : Process) (i : Input) (h : ¬ Routine.Reported i.event) :
    ∀ e ∈ s.effects i, Silent e := by
  refine Routine.effects_of s i (fun _ o env e hopens => ?_) (fun _ => silent_of_looks)
    (fun _ w b e hconnects => ?_) (fun e hroutine => ?_)
  · cases e with
    | main | refreshedAt => cases hopens
    | call | write | assign | background | «show» | setDelegate => trivial
  · cases e with
    | main | refreshedAt => cases hconnects
    | call | write | assign | background | «show» | setDelegate => trivial
  · rw [eq_false h] at hroutine
    exact silent_of_routine hroutine

/-- **The throttle.**  An event of a wallet notes the time exactly when it
    redraws the heights alone, and that is more than a second after the last. -/
theorem Inv.callback (h : Inv s) (r : ScreenEnv) (w : Wallet) (c : Callback) :
    Inv (s.step ⟨.callback w c, r, none⟩) := by
  obtain ⟨hlimited, hcounted⟩ := h
  have hlog : ∀ {es : List Effect}, es = (c.handler w).log (s.env r).toEnv →
      s.delegate w = true → (s.perform r (es.map .app)).log = s.log ++ es := by
    intro es hes hw
    have hlistener : (c.listener w).log (s.env r).toEnv = es := by
      rw [Callback.log_listener, Process.env_delegate, if_pos hw, hes]
    exact Routine.log_perform s r fun e he => Routine.listener (T := False) w c e (hlistener ▸ he)
  have hother : ∀ es : List Effect, (s.perform r (es.map .app)).log = s.log ++ es →
      (s.perform r (es.map .app)).lastTimeRefreshed = s.lastTimeRefreshed →
      es.filterMap refreshedAt? = [] → (es.filterMap main?).count [.blockHeights] = 0 →
      Inv (s.perform r (es.map .app)) := by
    intro es hes hlast hnil hzero
    constructor
    · rw [hlast, refreshes, hes, List.filterMap_append, hnil, List.append_nil]
      exact hlimited
    · rw [queued, refreshes, hes, List.filterMap_append, List.filterMap_append, hnil,
        List.append_nil, List.count_append, hzero]
      exact hcounted
  rw [Process.step_callback, Process.runCode, Callback.log_listener, Process.env_delegate]
  by_cases hw : s.delegate w = true
  swap
  · rw [if_neg hw]
    exact ⟨hlimited, hcounted⟩
  rw [if_pos hw]
  cases c with
  | moneySpent | moneyReceived => exact hother _ (hlog rfl hw) rfl rfl rfl
  | updated | refreshed => exact hother _ (hlog rfl hw) rfl rfl rfl
  | newBlock height =>
    have hhandler : (Callback.handler w (.newBlock height)).log (s.env r).toEnv =
        if r.now - s.lastTimeRefreshed > 1 then [.refreshedAt r.now, .main [.blockHeights]]
        else [] := by
      simp only [Callback.handler, WalletViewController.walletNewBlock, Code.log_ask_bind,
        Code.log_ite]
      rfl
    by_cases hage : r.now - s.lastTimeRefreshed > 1
    · rw [if_pos hage] at hhandler
      have hes := hlog hhandler.symm hw
      rw [hhandler]
      constructor
      · rw [refreshes, hes, List.filterMap_append]
        exact (hlimited.rest hage).pass zero_le_one
      · rw [queued, refreshes, hes, List.filterMap_append, List.filterMap_append,
          List.count_append, List.length_append]
        exact congrArg (· + 1) hcounted
    · rw [hhandler, if_neg hage]
      exact ⟨hlimited, hcounted⟩

theorem inv_launch (x : Record) (now : Rat) (past : List (List Effect)) :
    Inv (Process.launch x now past) :=
  ⟨Spacing.limited_nil, rfl⟩

/-- **One input.** -/
theorem Inv.step (h : Inv s) (i : Input) : Inv (s.step i) := by
  by_cases hreported : Routine.Reported i.event
  · obtain ⟨e, r, cut⟩ := i
    rcases cut with _ | k
    · cases e with
      | callback w c => exact h.callback r w c
      | _ => exact hreported.elim
    · exact inv_launch _ _ _
  · have hperform : Inv (s.perform i.env (s.effects i)) :=
      h.idle (idle_perform s i.env (silent_effects s i hreported))
    rcases s.step_cases i with ⟨-, -, -, hflow⟩ | ⟨-, hdied⟩
    · refine hperform.idle ⟨hflow.lastTimeRefreshed, ?_, ?_⟩
      · rw [refreshes, hflow.log]
        rfl
      · rw [queued, hflow.log]
        rfl
    · rw [hdied]
      exact inv_launch _ _ _

end

section
open DaemonHeights (Height Return Timed Accepted)

variable {wall : Rat → Rat} {w : Wallet} {h : Height} {rs : List Return}

/-- When the wall clock shows a query of `h` that has got a height, if `r` has
    made one. -/
def answered? (wall : Rat → Rat) (h : Height) (r : Return) : Option Rat :=
  if r.key = h then
    (r.query.filter fun q => q.answer ≠ 0).map fun q => wall q.completed
  else none

theorem answered?_served (k : Height) (value : UInt64) (time : Rat) :
    answered? wall h ⟨k, none, value, time⟩ = none := by
  unfold answered?
  split <;> rfl

theorem answered?_asked (k : Height) (q : Cache.Query Rat UInt64) (value : UInt64) (time : Rat) :
    answered? wall h ⟨k, some q, value, time⟩ =
      if k = h ∧ q.answer ≠ 0 then some (wall q.completed) else none := by
  unfold answered?
  by_cases hk : k = h <;> by_cases hq : q.answer = 0 <;> simp [Option.filter, hk, hq]

/-- The times of the queries of `h` that have got a height, in order. -/
def answered (wall : Rat → Rat) (h : Height) (rs : List Return) : List Rat :=
  rs.reverse.filterMap (answered? wall h)

theorem answered_cons (r : Return) :
    answered wall h (r :: rs) = answered wall h rs ++ (answered? wall h r).toList := by
  rw [answered, List.reverse_cons, List.filterMap_append, List.filterMap_cons]
  cases answered? wall h r <;> rfl

/-- The queries of `h` that have got a height are limited; if the last one has
    got none, the next may be made at once. -/
structure Asked (wall : Rat → Rat) (h : Height) (rs : List Return) : Prop where
  unasked : Cache.last h rs = none → answered wall h rs = []
  failed : ∀ q, Cache.last h rs = some q → q.answer = 0 →
    Rested h.ttl (wall q.completed) (answered wall h rs)
  got : ∀ q, Cache.last h rs = some q → q.answer ≠ 0 →
    Limited h.ttl (wall q.completed) (answered wall h rs)

theorem asked_nil : Asked wall h [] := by
  refine ⟨fun _ => rfl, fun q hq => ?_, fun q hq => ?_⟩
  · cases hq
  · cases hq

/-- Where the last answer is refused, the next one comes late enough. -/
theorem Asked.rested (hasked : Asked wall h rs) {start finish : Rat}
    (hrefused : ∀ q, Cache.last h rs = some q → ¬ Accepted wall h q start)
    (hlast : ∀ q, Cache.last h rs = some q → wall q.completed ≤ wall start)
    (hclock : wall start ≤ wall finish) : Rested h.ttl (wall finish) (answered wall h rs) := by
  rcases hq : Cache.last h rs with _ | q
  · rw [hasked.unasked hq]
    exact Spacing.rested_nil
  · by_cases hzero : q.answer = 0
    · exact (hasked.failed q hq hzero).later ((hlast q hq).trans hclock)
    · have hage : h.ttl < wall start - wall q.completed :=
        not_le.1 fun hle => hrefused q hq ⟨hzero, hle⟩
      exact ((hasked.got q hq hzero).rest hage).later hclock

/-- What does not ask for `h` changes nothing about its queries. -/
theorem Asked.keep {rs' : List Return} (hasked : Asked wall h rs)
    (hlast : Cache.last h rs' = Cache.last h rs)
    (hanswered : answered wall h rs' = answered wall h rs) : Asked wall h rs' := by
  obtain ⟨hnone, hfailed, hgot⟩ := hasked
  constructor <;> rwa [hlast, hanswered]

/-- **One call**, on a clock that is not set back. -/
theorem Asked.step (hasked : Asked wall h rs) (e : DaemonHeights.Event)
    (hlast : ∀ q, Cache.last e.height rs = some q → wall q.completed ≤ wall e.start)
    (hclock : wall e.start ≤ wall e.finish) :
    Asked wall h (Cache.step (Accepted wall) rs (e.call w)) := by
  rcases Cache.accept_or_refuse (Accepted wall) rs (e.call w) with ⟨q, hq, haccept⟩ | hrefused
  · refine hasked.keep (Cache.last_step_of_accept hq haccept h) ?_
    rw [Cache.step, Cache.respond_of_accept hq haccept, answered_cons, answered?_served]
    exact List.append_nil _
  · have hlast' := Cache.last_step_of_not_accept hrefused h
    have hanswered : answered wall h (Cache.step (Accepted wall) rs (e.call w)) =
        answered wall h rs ++ (if e.height = h ∧ (e.call w).answer ≠ 0 then
          some (wall e.finish) else none).toList := by
      rw [Cache.step, Cache.respond_of_not_accept hrefused, answered_cons, answered?_asked]
      rfl
    by_cases hheight : e.height = h
    · subst hheight
      replace hlast' := hlast'.trans (if_pos rfl)
      have hrested := hasked.rested hrefused hlast hclock
      refine ⟨fun hnone => ?_, fun q hq hzero => ?_, fun q hq hne => ?_⟩
      · rw [hlast'] at hnone
        cases hnone
      · cases hlast'.symm.trans hq
        rw [hanswered, if_neg fun h => h.2 hzero, Option.toList_none, List.append_nil]
        exact hrested
      · cases hlast'.symm.trans hq
        rw [hanswered, if_pos ⟨rfl, hne⟩]
        exact hrested.pass e.height.ttl_nonneg
    · refine hasked.keep (hlast'.trans (if_neg hheight)) ?_
      rw [hanswered, if_neg fun h => hheight h.1]
      exact List.append_nil _

theorem asked_run (hwall : Monotone wall) (w : Wallet) {es : List DaemonHeights.Event}
    (htimed : Timed es) (h : Height) :
    Asked wall h (Runs.run (DaemonHeights.step wall w) DaemonHeights.start es).returns := by
  induction es using List.reverseRecOn with
  | nil => exact asked_nil
  | append_singleton es e ih =>
    have hes : Timed es :=
      ⟨fun e' he' => htimed.1 e' (by simp [he']), (List.pairwise_append.1 htimed.2).1⟩
    have hrefines := DaemonHeights.refines_run wall w es
    have hlast : ∀ q, Cache.last e.height
        (Runs.run (DaemonHeights.step wall w) DaemonHeights.start es).returns = some q →
        wall q.completed ≤ wall e.start :=
      fun q hq => hwall (DaemonHeights.completed_le_start htimed hq)
    rw [Runs.run_concat, (DaemonHeights.refines_step hrefines e).returns, ← hrefines.returns]
    exact (ih hes).step e hlast (hwall (htimed.1 e (by simp)))

/-- **The daemon is asked for a height once in its time to live**, as long as
    it answers. -/
theorem queries_limited (wall : Rat → Rat) (hwall : Monotone wall) (w : Wallet)
    (es : List DaemonHeights.Event) (htimed : Timed es) (h : Height) (n : ℕ) (lo : Rat) :
    (window lo (lo + (n + 1) * h.ttl) (answered wall h
      (Runs.run (DaemonHeights.step wall w) DaemonHeights.start es).returns)).length ≤ n + 1 := by
  have hspaced : Spacing.Spaced h.ttl (answered wall h
      (Runs.run (DaemonHeights.step wall w) DaemonHeights.start es).returns) := by
    obtain ⟨hnone, hfailed, hgot⟩ := asked_run hwall w htimed h
    rcases hq : Cache.last h
      (Runs.run (DaemonHeights.step wall w) DaemonHeights.start es).returns with _ | q
    · rw [hnone hq]
      exact .nil
    · by_cases hzero : q.answer = 0
      · exact (hfailed q hq hzero).spaced
      · exact (hgot q hq hzero).spaced
  have hwindow := hspaced.length_window n lo
  rwa [nsmul_eq_mul, Nat.cast_succ] at hwindow

/-- Called after 0, 8 and 11 seconds, a wrapper asks the daemon once in the
    first 10. -/
theorem queries_limited_thrice :
    let es : List DaemonHeights.Event := [0, 8, 11].map fun t =>
      ⟨.daemonBlockChainHeight, t, t, DaemonHeights.sampleEnv⟩
    let times := answered id .daemonBlockChainHeight
      (Runs.run (DaemonHeights.step id ⟨1⟩) DaemonHeights.start es).returns
    times = [0, 11] ∧
      (window 0 (0 + ((0 : ℕ) + 1) * Height.ttl .daemonBlockChainHeight) times).length ≤ 0 + 1 := by
  intro es times
  have htimed : Timed es := ⟨by simp [es], by simp [es]; decide⟩
  refine ⟨by decide +kernel, ?_⟩
  exact queries_limited id monotone_id ⟨1⟩ es htimed .daemonBlockChainHeight 0 0

end

end Rates

end Monujo
