/-
  Transaction rows and the records behind them.

  The native history owns its records; refreshing it discards them and starts a
  new generation.  The table keeps the wrappers it fetched when it appeared,
  and the detail screen the one it was handed.  Threads run pieces of app code,
  one effect at a time, in any order.

  `fresh_iff`: every record that is read is of the current generation if and
  only if, between the fetching of a row and a reading of it, no thread takes a
  refreshing step for its wallet: the step of `TransactionHistory.refresh`, the
  second of `Wallet.refresh`, the second or third of a money event of a wallet
  with a delegate.  `renewals_ops`: these are the steps that refresh a history.
-/
import Monujo.Model.HistoryScreen
import Monujo.Model.WalletScreen

namespace Monujo

open Monero

namespace HistoryRows

/-- A piece of app code. -/
inductive Job where
  /-- The wallet screen shows the current wallet. -/
  | walletAppears
  /-- The table appears and fetches its rows. -/
  | tableAppears
  | getAll (h : TransactionHistory)
  | refreshHistory (h : TransactionHistory)
  | refreshWallet (w : Wallet)
  | refreshAsync (w : Wallet)
  | callback (w : Wallet) (c : Callback)
  /-- The cell of a row is drawn. -/
  | cell (i : ℕ)
  /-- The detail screen appears, with the transfers its wrapper has kept. -/
  | detailAppears (m_transfers : List Transfer)

/-- The screens draw and fetch on the main thread. -/
def Job.onMain : Job → Bool
  | walletAppears | tableAppears | cell _ | detailAppears _ => true
  | _ => false

/-- A step of a job, by its place; whether the job is an event that has found a
    delegate. -/
structure Step where
  job : Job
  delegated : Bool
  place : ℕ

/-- The wallet for whose history the step is a refreshing one. -/
def Step.refreshes : Step → Option Handle
  | ⟨.refreshHistory h, _, 0⟩ => some h.impl
  | ⟨.refreshWallet w, _, 1⟩ => some w.impl
  | ⟨.callback w c, true, 1⟩ | ⟨.callback w c, true, 2⟩ =>
    if c.isMoney then some w.impl else none
  | _ => none

/-- A wrapper, with the generation of its record. -/
structure Row where
  info : TransactionInfo
  wallet : Wallet
  generation : ℕ
  /-- How many steps had been taken when it was fetched. -/
  fetchedAt : ℕ
  deriving DecidableEq

/-- What the effects of a job mean to the screens. -/
inductive Kind where
  | plain
  /-- They fetch the rows of the table. -/
  | fetch (w : Wallet) (infos : List TransactionInfo)
  /-- They are what a screen does with the record of `row`. -/
  | read (row : Row)

/-- An effect a thread has still to perform. -/
structure Op where
  step : Step
  kind : Kind
  effect : Effect

structure State where
  /-- `WalletStore.wallet`. -/
  wallet : Option Wallet
  delegate : Wallet → Bool
  /-- How often the native history of a wallet has been refreshed. -/
  generation : Handle → ℕ
  /-- The steps taken so far, in order. -/
  done : List Step
  /-- `TransactionHistoryViewController.transactions`. -/
  rows : List Row
  /-- `TransactionDetailViewController.transaction`. -/
  detail : Option Row
  threads : ℕ → List Op
  /-- A record of an earlier generation has been read. -/
  stale : Bool

def start (wallet : Option Wallet) (delegate : Wallet → Bool) : State :=
  ⟨wallet, delegate, fun _ => 0, [], [], none, fun _ => [], false⟩

def State.env (s : State) (env : Env) : Env :=
  { env with wallet := s.wallet, delegate := s.delegate }

/-- The effects of a job that begins, and what they mean. -/
def State.code (s : State) (env : Env) : Job → Kind × List Effect
  | .walletAppears => (.plain, WalletViewController.resetWallet.log (s.env env))
  | .tableAppears =>
    match TransactionHistoryViewController.viewWillAppear.val (s.env env) with
    | some (w, infos) =>
      (.fetch w infos, TransactionHistoryViewController.viewWillAppear.log (s.env env))
    | none => (.plain, [])
  | .getAll h => (.plain, h.getAll.log (s.env env))
  | .refreshHistory h => (.plain, h.refresh.log (s.env env))
  | .refreshWallet w => (.plain, w.refresh.log (s.env env))
  | .refreshAsync w => (.plain, w.refreshAsync.log (s.env env))
  | .callback w c => (.plain, (c.listener w).log (s.env env))
  | .cell i =>
    match s.rows[i]? with
    | some row =>
      (.read row, (TransactionHistoryViewController.cellForRow row.info).log (s.env env))
    | none => (.plain, [])
  | .detailAppears m_transfers =>
    match s.detail with
    | some row => (.read row,
      (TransactionDetailViewController.viewWillAppear row.info m_transfers).log (s.env env))
    | none => (.plain, [])

/-- The job is an event of a wallet with a delegate. -/
def State.delegated (s : State) : Job → Bool
  | .callback w _ => s.delegate w
  | _ => false

/-- What a thread that begins a job has to do. -/
def State.ops (s : State) (env : Env) (j : Job) : List Op :=
  (s.code env j).2.mapIdx fun i e => ⟨⟨j, s.delegated j, i⟩, (s.code env j).1, e⟩

inductive Event where
  /-- `WalletStore.wallet` is assigned. -/
  | assign (w : Option Wallet)
  /-- An idle thread begins a job; the main thread is the thread 0. -/
  | begin (t : ℕ) (j : Job) (env : Env)
  /-- A thread performs its next effect. -/
  | go (t : ℕ)
  /-- A row is selected: its wrapper is handed to the detail screen. -/
  | select (i : ℕ)

/-- The history an effect refreshes. -/
def renewed : Effect → Option Handle
  | .call (.history h .refresh) _ => some h
  | _ => none

/-- The effect reads a native record. -/
def readsRecord : Effect → Bool
  | .call (.info ..) _ => true
  | _ => false

/-- Perform one effect: a refresh starts a new generation. -/
def State.perform (s : State) (op : Op) : State :=
  { s with
    generation := fun h => s.generation h + if renewed op.effect = some h then 1 else 0
    done := s.done ++ [op.step]
    delegate := fun w => s.delegate w || decide (w ∈ WalletViewController.delegated [op.effect]) }

/-- Perform an effect with what it means to the screens. -/
def State.go (s : State) (op : Op) : State :=
  let t := s.perform op
  match op.kind with
  | .plain => t
  | .fetch w infos =>
    { t with rows := infos.map fun i => ⟨i, w, t.generation w.impl, t.done.length⟩ }
  | .read row =>
    { t with
      stale := s.stale || readsRecord op.effect && row.generation != s.generation row.wallet.impl }

/-- The thread `t` has `k` left to do. -/
def State.set (s : State) (t : ℕ) (k : List Op) : State :=
  { s with threads := Function.update s.threads t k }

def step (s : State) : Event → State
  | .assign w => { s with wallet := w }
  | .begin t j env =>
    if (s.threads t).isEmpty ∧ (j.onMain = true → t = 0) then s.set t (s.ops env j) else s
  | .go t =>
    match s.threads t with
    | op :: k => (s.set t k).go op
    | [] => s
  | .select i => if (s.threads 0).isEmpty then { s with detail := s.rows[i]?.or s.detail } else s

/-- No record of an earlier generation has been read. -/
def Fresh (s : State) : Prop := s.stale = false

/-- No refreshing step has been taken for the wallet of the row since the row
    was fetched. -/
def State.Untouched (s : State) (row : Row) : Prop :=
  ∀ st ∈ s.done.drop row.fetchedAt, st.refreshes ≠ some row.wallet.impl

/-- The condition on an event: a record is read only while no refreshing step
    has been taken since its row was fetched. -/
def Reads (s : State) : Event → Prop
  | .go t => ∀ op k row, s.threads t = op :: k → op.kind = .read row →
    readsRecord op.effect = true → s.Untouched row
  | _ => True

/-! ## Which steps refresh a history -/

theorem renewed_of_reading {es : List Effect} (hes : ∀ e ∈ es, Reading e) :
    ∀ e ∈ es, renewed e = none := by
  intro e he
  have hread := hes e he
  unfold Reading at hread
  split at hread
  · rfl
  · rfl
  · exact hread.elim

theorem renewed_resetWallet (env : Env) :
    ∀ e ∈ WalletViewController.resetWallet.log env, renewed e = none := by
  intro e he
  rw [WalletViewController.log_resetWallet] at he
  rcases hw : env.wallet with _ | w
  · rw [hw] at he
    cases List.mem_singleton.1 he
    rfl
  · rw [hw] at he
    simp only [Option.elim_some, List.mem_cons, List.not_mem_nil, or_false] at he
    rcases he with rfl | rfl | rfl | rfl | rfl | rfl <;> rfl

theorem refreshes_callback (w : Wallet) (c : Callback) (delegated : Bool) (place : ℕ)
    (h : ¬ (delegated = true ∧ c.isMoney = true)) :
    (Step.mk (.callback w c) delegated place).refreshes = none := by
  unfold Step.refreshes
  split <;> simp_all

/-- The steps of an event of a wallet. -/
theorem renewed_listener (w : Wallet) (c : Callback) (env : Env) {i : ℕ} {e : Effect}
    (he : ((c.listener w).log env)[i]? = some e) :
    renewed e = (Step.mk (.callback w c) (env.delegate w) i).refreshes := by
  rcases Callback.listener_cases w c env with ⟨hc, hd, hlog⟩ | ⟨rfl, hd, hlog⟩ | ⟨hno, hlog⟩
  · rw [hlog] at he
    rw [hd]
    rcases i with _ | _ | _ | _ | i
    · cases he
      rfl
    · cases he
      exact (if_pos hc).symm
    · cases he
      exact (if_pos hc).symm
    · cases he
      rfl
    · cases he
  · rw [hlog] at he
    rw [hd]
    rcases i with _ | _ | _ | i
    · cases he
      rfl
    · cases he
      rfl
    · cases he
      rfl
    · cases he
  · have hnone : renewed e = none := by
      have hredraws := hlog e (List.mem_of_getElem? he)
      cases e <;> first | rfl | cases hredraws
    rw [hnone, refreshes_callback w c _ i fun h => hno ⟨h.1, .inl h.2⟩]

/-- **Which steps refresh a history.** -/
theorem renewals_ops (s : State) (env : Env) (j : Job) {op : Op} (hop : op ∈ s.ops env j) :
    renewed op.effect = op.step.refreshes := by
  obtain ⟨i, hi, rfl⟩ := List.mem_mapIdx.1 hop
  have he := List.getElem?_eq_getElem hi
  generalize (s.code env j).2[i] = e at he
  -- a job whose effects refresh nothing has no refreshing step
  have hquiet : (∀ f ∈ (s.code env j).2, renewed f = none) →
      (Step.mk j (s.delegated j) i).refreshes = none →
      renewed e = (Step.mk j (s.delegated j) i).refreshes := by
    intro hcode hstep
    rw [hcode e (List.mem_of_getElem? he), hstep]
  cases j with
  | walletAppears => exact hquiet (renewed_resetWallet _) rfl
  | getAll h => exact hquiet (fun f hf => by cases List.mem_singleton.1 hf; rfl) rfl
  | refreshAsync w => exact hquiet (fun f hf => by cases List.mem_singleton.1 hf; rfl) rfl
  | refreshHistory h =>
    rcases i with _ | i
    · cases he
      rfl
    · cases he
  | refreshWallet w =>
    rcases i with _ | _ | i
    · cases he
      rfl
    · cases he
      rfl
    · cases he
  | callback w c => exact renewed_listener w c (s.env env) he
  | tableAppears =>
    refine hquiet (fun f hf => ?_) rfl
    simp only [State.code] at hf
    split at hf
    · rw [TransactionHistoryViewController.log_viewWillAppear] at hf
      rcases hw : (s.env env).wallet with _ | w
      · rw [hw] at hf
        cases hf
      · rw [hw] at hf
        cases List.mem_singleton.1 hf
        rfl
    · cases hf
  | cell i =>
    refine hquiet (fun f hf => ?_) rfl
    simp only [State.code] at hf
    split at hf
    · exact renewed_of_reading (TransactionHistoryViewController.reading_cellForRow _ _) f hf
    · cases hf
  | detailAppears ts =>
    refine hquiet (fun f hf => ?_) rfl
    simp only [State.code] at hf
    split at hf
    · exact renewed_of_reading (TransactionDetailViewController.reading_viewWillAppear _ _ _) f hf
    · cases hf

/-! ## Runs -/

/-- How many refreshing steps for `h` are among `steps`. -/
def refreshesOf (h : Handle) (steps : List Step) : ℕ :=
  steps.countP fun st => st.refreshes = some h

/-- The generation of a row is the number of refreshes of its history before it
    was fetched. -/
structure Tracks (done : List Step) (row : Row) : Prop where
  le : row.fetchedAt ≤ done.length
  generation : row.generation = refreshesOf row.wallet.impl (done.take row.fetchedAt)

theorem Tracks.append {steps : List Step} {row : Row} (h : Tracks steps row)
    (steps' : List Step) : Tracks (steps ++ steps') row where
  le := by
    rw [List.length_append]
    exact Nat.le_add_right_of_le h.le
  generation := by
    rw [List.take_append_of_le_length h.le]
    exact h.generation

/-- Every row the app holds on to is tracked, and every effect that refreshes a
    history is at a refreshing step. -/
structure Inv (s : State) : Prop where
  generation : ∀ h, s.generation h = refreshesOf h s.done
  rows : ∀ row ∈ s.rows, Tracks s.done row
  detail : ∀ row ∈ s.detail, Tracks s.done row
  steps : ∀ t, ∀ op ∈ s.threads t, renewed op.effect = op.step.refreshes
  threads : ∀ t, ∀ op ∈ s.threads t, ∀ row, op.kind = .read row → Tracks s.done row
  fresh : s.stale = false

/-- The record of a tracked row is current as long as nothing touches it. -/
theorem Tracks.current_iff {s : State} {row : Row} (h : Tracks s.done row)
    (hg : ∀ h, s.generation h = refreshesOf h s.done) :
    row.generation = s.generation row.wallet.impl ↔ s.Untouched row := by
  have hsplit : refreshesOf row.wallet.impl s.done =
      refreshesOf row.wallet.impl (s.done.take row.fetchedAt) +
        refreshesOf row.wallet.impl (s.done.drop row.fetchedAt) := by
    rw [refreshesOf, refreshesOf, refreshesOf, ← List.countP_append, List.take_append_drop]
  have hzero : refreshesOf row.wallet.impl (s.done.drop row.fetchedAt) = 0 ↔ s.Untouched row := by
    rw [refreshesOf, List.countP_eq_zero]
    simp only [decide_eq_true_eq]
    rfl
  rw [hg, hsplit, h.generation, ← hzero]
  omega

/-- What a job reads, it reads of the rows of the table or of the detail screen. -/
theorem read_ops {s : State} {env : Env} {j : Job} {row : Row}
    (h : (s.code env j).1 = .read row) : row ∈ s.rows ∨ row ∈ s.detail := by
  cases j with
  | walletAppears | getAll | refreshHistory | refreshWallet | refreshAsync | callback => cases h
  | tableAppears =>
    simp only [State.code] at h
    split at h
    · cases h
    · cases h
  | cell i =>
    simp only [State.code] at h
    split at h
    · rename_i r hr
      cases h
      exact .inl (List.mem_of_getElem? hr)
    · cases h
  | detailAppears ts =>
    simp only [State.code] at h
    split at h
    · rename_i r hr
      cases h
      exact .inr hr
    · cases h

theorem Inv.perform {s : State} (h : Inv s) {op : Op}
    (hop : renewed op.effect = op.step.refreshes) : Inv (s.perform op) where
  generation h' := by
    have hone : refreshesOf h' [op.step] = if renewed op.effect = some h' then 1 else 0 := by
      rw [hop, refreshesOf, List.countP_singleton]
      simp only [decide_eq_true_eq]
    change s.generation h' + _ = refreshesOf h' (s.done ++ [op.step])
    rw [refreshesOf, List.countP_append, ← refreshesOf, ← refreshesOf, hone, h.generation]
  rows row hr := (h.rows row hr).append _
  detail row hr := (h.detail row hr).append _
  steps := h.steps
  threads t op' hop' row hr := (h.threads t op' hop' row hr).append _
  fresh := h.fresh

theorem Inv.set {s : State} (h : Inv s) {t : ℕ} {k : List Op}
    (hk : ∀ op ∈ k, renewed op.effect = op.step.refreshes ∧
      ∀ row, op.kind = .read row → Tracks s.done row) : Inv (s.set t k) := by
  have hthreads : ∀ t' op, op ∈ (s.set t k).threads t' → op ∈ k ∨ op ∈ s.threads t' := by
    intro t' op hop
    by_cases ht : t' = t
    · subst ht
      exact .inl (by simpa [State.set] using hop)
    · exact .inr (by simpa [State.set, ht] using hop)
  refine ⟨h.generation, h.rows, h.detail, fun t' op hop => ?_, fun t' op hop row hr => ?_, h.fresh⟩
  · rcases hthreads t' op hop with hop | hop
    · exact (hk op hop).1
    · exact h.steps t' op hop
  · rcases hthreads t' op hop with hop | hop
    · exact (hk op hop).2 row hr
    · exact h.threads t' op hop row hr

theorem Inv.go {s : State} (h : Inv s) {op : Op} (hop : renewed op.effect = op.step.refreshes)
    (hread : ∀ row, op.kind = .read row → readsRecord op.effect = true →
      row.generation = s.generation row.wallet.impl) : Inv (s.go op) := by
  have hperform := h.perform hop
  unfold State.go
  split
  · exact hperform
  · refine ⟨hperform.generation, fun row hr => ?_, hperform.detail, hperform.steps,
      hperform.threads, h.fresh⟩
    obtain ⟨i, -, rfl⟩ := List.mem_map.1 hr
    refine ⟨le_refl _, (hperform.generation _).trans ?_⟩
    exact congrArg (refreshesOf _) List.take_length.symm
  · rename_i row hkind
    refine ⟨hperform.generation, hperform.rows, hperform.detail, hperform.steps,
      hperform.threads, ?_⟩
    by_cases he : readsRecord op.effect = true
    · simp [h.fresh, hread row hkind he]
    · simp [h.fresh, he]

theorem Inv.step {s : State} (h : Inv s) (e : Event) (hr : Reads s e) : Inv (step s e) := by
  cases e with
  | assign w => exact ⟨h.generation, h.rows, h.detail, h.steps, h.threads, h.fresh⟩
  | begin t j env =>
    simp only [HistoryRows.step]
    split
    · refine h.set fun op hop => ⟨renewals_ops s env j hop, fun row hrow => ?_⟩
      obtain ⟨i, hi, rfl⟩ := List.mem_mapIdx.1 hop
      rcases read_ops hrow with hrow | hrow
      · exact h.rows row hrow
      · exact h.detail row hrow
    · exact h
  | go t =>
    simp only [HistoryRows.step]
    rcases hk : s.threads t with _ | ⟨op, k⟩
    · exact h
    · have hmem : ∀ op' ∈ op :: k, op' ∈ s.threads t := fun op' hop' => hk ▸ hop'
      have hrest : Inv (s.set t k) := h.set fun op' hop' =>
        ⟨h.steps t op' (hmem op' (by simp [hop'])), h.threads t op' (hmem op' (by simp [hop']))⟩
      refine hrest.go (h.steps t op (hmem op (by simp))) fun row hrow he => ?_
      have htracks : Tracks s.done row := h.threads t op (hmem op (by simp)) row hrow
      exact (htracks.current_iff h.generation).2 (hr op k row hk hrow he)
  | select i =>
    simp only [HistoryRows.step]
    split
    · refine ⟨h.generation, h.rows, fun row hrow => ?_, h.steps, h.threads, h.fresh⟩
      rcases hi : s.rows[i]? with _ | r
      · exact h.detail row (by simpa [hi] using hrow)
      · have hr : r = row := by simpa [hi] using hrow
        exact h.rows row (hr ▸ List.mem_of_getElem? hi)
    · exact h

/-- **When every record that is read is current.** -/
theorem fresh_iff (wallet : Option Wallet) (delegate : Wallet → Bool) (es : List Event) :
    Runs.Always step Fresh (start wallet delegate) es ↔
      Runs.Guarded step Reads (start wallet delegate) es := by
  refine Runs.always_iff_guarded Inv (fun s h => h.fresh) (fun s e h hr => h.step e hr) ?_
    ⟨fun _ => rfl, by simp [start], by simp [start], by simp [start], by simp [start], rfl⟩
  intro s e h hs
  cases e with
  | assign | begin | select => trivial
  | go t =>
    intro op k row hk hrow he
    have htracks : Tracks s.done row := h.threads t op (by rw [hk]; simp) row hrow
    refine (htracks.current_iff h.generation).1 ?_
    -- Reading an outdated record would have set `stale`.
    have hstale : (step s (.go t)).stale = false := hs
    simpa [step, hk, State.go, hrow, State.set, h.fresh, he] using hstale

/-- Money arrives while the table is shown; its cell is then drawn from a record
    that is gone. -/
theorem stale_after_money :
    let answers : Answers := fun c => match c with
      | .history _ .getAll => [5]
      | _ => default
    let env : Env := { (default : Env) with answers := answers }
    let es : List Event := [.begin 0 .walletAppears env] ++ List.replicate 6 (.go 0) ++
      [.begin 0 .tableAppears env, .go 0, .begin 1 (.callback ⟨1⟩ (.moneyReceived "tx" 5)) env,
        .go 1, .go 1, .begin 0 (.cell 0) env, .go 0]
    let s := Runs.run step (start (some ⟨1⟩) fun _ => false) es
    ¬ Runs.Always step Fresh (start (some ⟨1⟩) fun _ => false) es ∧
      s.rows = [⟨⟨5⟩, ⟨1⟩, 0, 7⟩] ∧ s.generation 1 = 1 := by
  refine ⟨fun h => ?_, rfl, rfl⟩
  have hfresh : Fresh _ := h.last
  cases hfresh

end HistoryRows

end Monujo
