/-
  Refreshes and their callbacks.

  A native refresh reports to the listener on its own thread, while it holds
  the mutex of its wallet; the handlers of the money events call the native
  refresh.  Threads are stacks of frames: a native refresh that waits for the
  mutex or holds it, and code of the app with what it has left to do.

  `depth_iff`: no thread is ever inside two native refreshes if and only if no
  money event is delivered for a wallet whose delegate is set.
-/
import Monujo.Model.WalletScreen

namespace Monujo

open Monero

namespace Reentry

/-! ## Threads -/

inductive Frame where
  /-- A native refresh of the wallet `h`, once it holds the mutex or before. -/
  | refresh (h : Handle) (holds : Bool)
  /-- Code of the app, with the effects it has left. -/
  | code (es : List Effect)

def Frame.isRefresh : Frame → Bool
  | refresh .. => true
  | code _ => false

/-- How many native refreshes a thread is inside. -/
def depth (k : List Frame) : ℕ := k.countP Frame.isRefresh

/-- Run code on the stack `k`, up to its first call of the native refresh. -/
def enter : List Effect → List Frame → List Frame
  | [], k => k
  | .call (.wallet h .refresh) _ :: es, k => .refresh h false :: .code es :: k
  | _ :: es, k => enter es k

/-- Go on with the code on top of the stack. -/
def resume : List Frame → List Frame
  | .code es :: k => enter es k
  | k => k

structure State where
  delegate : Wallet → Bool
  threads : ℕ → List Frame
  /-- The thread that holds the mutex of a wallet. -/
  owner : Handle → Option ℕ

def start (delegate : Wallet → Bool) : State := ⟨delegate, fun _ => [], fun _ => none⟩

def State.env (s : State) (env : Env) : Env := { env with delegate := s.delegate }

/-- The thread `t` goes on with the stack `k`. -/
def State.set (s : State) (t : ℕ) (k : List Frame) : State :=
  { s with threads := Function.update s.threads t k }

inductive Event where
  /-- The wallet screen shows `WalletStore.wallet`. -/
  | appear (env : Env)
  /-- An idle thread calls `Wallet.refresh`. -/
  | sync (t : ℕ) (w : Wallet) (env : Env)
  /-- An idle thread of the library begins a refresh that `refreshAsync` or the
      timer of the library asked for. -/
  | async (t : ℕ) (w : Wallet)
  | acquire (t : ℕ)
  /-- The refresh the thread is in reports an event to its listener. -/
  | deliver (t : ℕ) (c : Callback) (env : Env)
  /-- The refresh the thread is in returns. -/
  | leave (t : ℕ)
  /-- An idle thread of the library reports that a refresh is over. -/
  | finished (t : ℕ) (w : Wallet) (env : Env)

def step (s : State) : Event → State
  | .appear env =>
    let ws := WalletViewController.delegated (WalletViewController.resetWallet.log (s.env env))
    { s with delegate := fun w => s.delegate w || decide (w ∈ ws) }
  | .sync t w env =>
    if (s.threads t).isEmpty then s.set t (enter (w.refresh.log (s.env env)) []) else s
  | .async t w => if (s.threads t).isEmpty then s.set t [.refresh w.impl false] else s
  | .acquire t =>
    match s.threads t with
    | .refresh h false :: k =>
      if s.owner h = none then
        { s.set t (.refresh h true :: k) with owner := Function.update s.owner h (some t) }
      else s
    | _ => s
  | .deliver t c env =>
    match s.threads t with
    | .refresh h true :: k =>
      s.set t (enter ((c.listener ⟨h⟩).log (s.env env)) (.refresh h true :: k))
    | _ => s
  | .leave t =>
    match s.threads t with
    | .refresh h true :: k =>
      { s.set t (resume k) with owner := Function.update s.owner h none }
    | _ => s
  | .finished t w env =>
    if (s.threads t).isEmpty then
      s.set t (enter ((Callback.refreshed.listener w).log (s.env env)) [])
    else s

/-- No thread is inside two native refreshes. -/
def Shallow (s : State) : Prop := ∀ t, depth (s.threads t) ≤ 1

/-- The condition on an event: no refresh reports money for a wallet whose
    delegate is set. -/
def Quiet (s : State) : Event → Prop
  | .deliver t c _ => ∀ h k, s.threads t = .refresh h true :: k → c.isMoney = true →
    s.delegate ⟨h⟩ = false
  | _ => True

/-! ## Stacks of depth one -/

/-- The effect is a call of the native refresh. -/
def isRefresh : Effect → Bool
  | .call (.wallet _ .refresh) _ => true
  | _ => false

theorem enter_eq {es : List Effect} (h : ∀ e ∈ es, isRefresh e = false) (k : List Frame) :
    enter es k = k := by
  fun_induction enter es k with
  | case1 k => rfl
  | case2 w a es k => cases h _ (List.mem_cons_self ..)
  | case3 e es k hne ih => exact ih fun e' he' => h e' (List.mem_cons_of_mem _ he')

/-- The stacks of a run in which no refresh is re-entered: a refresh, and the
    code that called it. -/
inductive Flat : List Frame → Prop
  | idle : Flat []
  | library (h : Handle) (b : Bool) : Flat [.refresh h b]
  | app (h : Handle) (b : Bool) (es : List Effect) (hes : ∀ e ∈ es, isRefresh e = false) :
    Flat [.refresh h b, .code es]

theorem Flat.depth {k : List Frame} (h : Flat k) : depth k ≤ 1 := by
  cases h <;> simp [Reentry.depth, List.countP_cons, Frame.isRefresh]

theorem Flat.holds {h : Handle} {b : Bool} {k : List Frame} (hk : Flat (.refresh h b :: k))
    (b' : Bool) : Flat (.refresh h b' :: k) := by
  cases hk with
  | library => exact .library h b'
  | app _ _ es hes => exact .app h b' es hes

theorem Flat.resume {h : Handle} {b : Bool} {k : List Frame} (hk : Flat (.refresh h b :: k)) :
    resume k = [] := by
  cases hk with
  | library => rfl
  | app _ _ es hes => exact enter_eq hes []

/-- Of the listener's events only those that carry money, to a delegate, call
    the native refresh. -/
theorem not_isRefresh_listener (w : Wallet) (c : Callback) (env : Env)
    (h : c.isMoney = true → env.delegate w = false) :
    ∀ e ∈ (c.listener w).log env, isRefresh e = false := by
  rcases Callback.listener_cases w c env with ⟨hc, hd, -⟩ | ⟨-, -, hlog⟩ | ⟨-, hlog⟩
  · rw [h hc] at hd
    cases hd
  · rw [hlog]
    simp [isRefresh]
  · intro e he
    have hredraws := hlog e he
    cases e <;> first | rfl | cases hredraws

/-- A money event with a delegate goes straight back into the native refresh. -/
theorem enter_money {w : Wallet} {c : Callback} (env : Env) (hc : c.isMoney = true)
    (hd : env.delegate w = true) (k : List Frame) :
    ∃ es, enter ((c.listener w).log env) k = .refresh w.impl false :: .code es :: k := by
  rw [Callback.log_listener, if_pos hd, Callback.log_handler_money hc]
  exact ⟨_, rfl⟩

/-! ## Runs -/

def Inv (s : State) : Prop := ∀ t, Flat (s.threads t)

theorem Inv.set {s : State} (h : Inv s) {t : ℕ} {k : List Frame} (hk : Flat k) :
    ∀ t', Flat ((s.set t k).threads t') := by
  intro t'
  by_cases ht : t' = t
  · rw [ht]
    simpa [State.set] using hk
  · simpa [State.set, ht] using h t'

theorem Inv.step {s : State} (h : Inv s) (e : Event) (hq : Quiet s e) : Inv (step s e) := by
  cases e with
  | appear env => exact h
  | sync t w env =>
    simp only [Reentry.step]
    split
    · rw [Wallet.log_refresh]
      exact h.set (.app w.impl false _ (by simp [isRefresh]))
    · exact h
  | async t w =>
    simp only [Reentry.step]
    split
    · exact h.set (.library w.impl false)
    · exact h
  | acquire t =>
    simp only [Reentry.step]
    split
    · rename_i w k hk
      split
      · exact h.set ((hk ▸ h t).holds true)
      · exact h
    · exact h
  | deliver t c env =>
    simp only [Reentry.step]
    split
    · rename_i w k hk
      have hlog := not_isRefresh_listener ⟨w⟩ c (s.env env) (hq w k hk)
      rw [enter_eq hlog]
      exact h.set (hk ▸ h t)
    · exact h
  | leave t =>
    simp only [Reentry.step]
    split
    · rename_i w k hk
      have hflat : Flat (.refresh w true :: k) := hk ▸ h t
      rw [hflat.resume]
      exact h.set .idle
    · exact h
  | finished t w env =>
    simp only [Reentry.step]
    split
    · have hlog := not_isRefresh_listener w .refreshed (s.env env) (fun hc => by cases hc)
      rw [enter_eq hlog]
      exact h.set .idle
    · exact h

/-- **When a refresh is never re-entered.** -/
theorem depth_iff (delegate : Wallet → Bool) (es : List Event) :
    Runs.Always step Shallow (start delegate) es ↔
      Runs.Guarded step Quiet (start delegate) es := by
  refine Runs.always_iff_guarded Inv (fun s h t => (h t).depth) (fun s e h hq => h.step e hq) ?_
    (fun _ => .idle)
  intro s e h hs
  cases e with
  | appear | sync | async | acquire | leave | finished => trivial
  | deliver t c env =>
    intro w k hk hc
    by_contra hd
    have hd' : s.delegate ⟨w⟩ = true := by simpa using hd
    obtain ⟨es', hes⟩ := enter_money (s.env env) hc hd' (.refresh w true :: k)
    have hstep : step s (.deliver t c env) =
        s.set t (.refresh w false :: .code es' :: .refresh w true :: k) := by
      simp only [step, hk, hes]
    have hdepth := hs t
    rw [hstep] at hdepth
    simp [State.set, depth, List.countP_cons, Frame.isRefresh] at hdepth

/-- The first money event of a shown wallet: the thread waits for the mutex it
    holds. -/
theorem reentered_on_money :
    let env : Env := { (default : Env) with wallet := some ⟨1⟩ }
    let es : List Event := [.appear env, .async 0 ⟨1⟩, .acquire 0,
      .deliver 0 (.moneyReceived "tx" 5) env]
    let s := Runs.run step (start fun _ => false) es
    ¬ Runs.Always step Shallow (start fun _ => false) es ∧
      (s.threads 0).head? = some (.refresh 1 false) ∧ s.owner 1 = some 0 := by
  refine ⟨fun h => ?_, rfl, rfl⟩
  exact absurd (h.last 0) (by decide)

end Reentry

end Monujo
