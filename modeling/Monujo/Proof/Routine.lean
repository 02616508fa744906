/-
  Routine code.

  Only an opening makes a native wallet, wraps it and assigns it; only the block
  it dispatches connects a wallet to its daemon; only `resetWallet` shows a
  wallet; only the events of a wallet queue redraws; only a transfer has to do
  with pending transactions; and only an opening names a file and a password.
  Everything else the app does is routine.

  `effects_cases` sorts the inputs of a process by this.
-/
import Monujo.Model.Process

namespace Monujo

open Monero WalletStore
open WalletViewController.Labels (Looks looks_redraw looks_resetWallet)

/-- The effect is a call about pending transactions. -/
def Sending : Effect → Bool
  | .call (.wallet _ (.createTransaction ..)) _ | .call (.wallet _ (.disposeTransaction _)) _
  | .call (.pending ..) _ => true
  | _ => false

/-- The effect neither opens, connects, assigns nor shows a wallet; what it
    writes is under a key of `K`; it queues redraws only if `Q`, and has to do
    with pending transactions only if `T`. -/
def Routine (K : Key → Prop) (Q T : Prop) : Effect → Prop
  | .call (.manager _) _ | .call (.wallet _ (.setListener _)) _
  | .call (.wallet _ (.setRecoveringFromSeed _)) _
  | .call (.wallet _ (.setRefreshFromBlockHeight _)) _
  | .call (.wallet _ (.initAsync ..)) _ => False
  | .assign _ | .background _ | .show _ | .setDelegate _ => False
  | .call (.wallet _ (.createTransaction ..)) _ | .call (.wallet _ (.disposeTransaction _)) _
  | .call (.pending ..) _ => T
  | .write w => K w.key
  | .call .. => True
  | .main _ | .refreshedAt _ => Q

namespace Routine

/-! ## The code -/

section
variable {K : Key → Prop} {Q T : Prop} {env : Env}

theorem displayAmount (amount : UInt64) : (Wallet.displayAmount amount).Emits (Routine K Q T) env :=
  Code.emits_bind (emits_call trivial) (Code.emits_pure _)

theorem refresh (w : Wallet) :
    w.refresh.Emits (Routine K Q T) env ∧ w.history.refresh.Emits (Routine K Q T) env := by
  have hhistory : w.history.refresh.Emits (Routine K Q T) env := emits_call trivial
  refine ⟨Code.emits_bind (emits_call trivial) ?_, hhistory⟩
  exact Code.emits_bind hhistory (Code.emits_pure _)

/-- The events of a wallet write nothing but the flag, when a refresh is
    reported. -/
theorem listener (w : Wallet) (c : Callback) :
    (c.listener w).Emits (Routine (fun k => c = .refreshed ∧ k = .isRecovering) True T) env := by
  generalize hK : (fun k => c = .refreshed ∧ k = Key.isRecovering) = K
  have hemit : ∀ e, Routine K True T e →
      (Code.emit e : AppCode PUnit).Emits (Routine K True T) env := by
    intro e he e' he'
    rwa [List.mem_singleton.1 he']
  obtain ⟨hrefresh, hhistory⟩ : w.refresh.Emits (Routine K True T) env ∧
      w.history.refresh.Emits (Routine K True T) env := refresh w
  refine Code.emits_ite ?_ (Code.emits_pure _)
  cases c with
  | moneySpent | moneyReceived =>
    exact Code.emits_bind hrefresh (Code.emits_bind hhistory (hemit _ trivial))
  | newBlock height =>
    refine Code.emits_ite ?_ (Code.emits_pure _)
    exact Code.emits_bind (hemit _ trivial) (hemit _ trivial)
  | updated => exact hemit _ trivial
  | refreshed =>
    refine Code.emits_bind (hemit _ (by subst hK; exact ⟨rfl, rfl⟩)) ?_
    exact Code.emits_bind (emits_call trivial) (hemit _ trivial)

theorem refreshButton (w : Option Wallet) :
    (WalletViewController.refreshButtonClicked w).Emits (Routine K Q T) env := by
  rcases w with _ | w
  · exact Code.emits_pure _
  · exact emits_call trivial

theorem save : save.Emits (Routine (· = .restoreHeight) Q T) env := by
  intro e he
  rw [save_eq] at he
  rcases hw : env.wallet with _ | w
  · rw [hw] at he
    cases he
  · rw [hw] at he
    simp only [Option.elim_some, List.mem_cons, List.not_mem_nil, or_false] at he
    rcases he with rfl | rfl | rfl
    · trivial
    · exact rfl
    · trivial

theorem of_reading {es : List Effect} (h : ∀ e ∈ es, Reading e) : ∀ e ∈ es, Routine K Q T e := by
  intro e he
  have hreading := h e he
  unfold Reading at hreading
  split at hreading
  · trivial
  · trivial
  · cases hreading

theorem history : TransactionHistoryViewController.viewWillAppear.Emits (Routine K Q T) env := by
  intro e he
  rw [TransactionHistoryViewController.log_viewWillAppear] at he
  rcases hw : env.wallet with _ | w
  · rw [hw] at he
    cases he
  · rw [hw] at he
    cases List.mem_singleton.1 he
    trivial

theorem cellForRow (t : TransactionInfo) :
    (TransactionHistoryViewController.cellForRow t).Emits (Routine K Q T) env :=
  of_reading (TransactionHistoryViewController.reading_cellForRow t env)

theorem detail (t : TransactionInfo) (m_transfers : List Transfer) :
    (TransactionDetailViewController.viewWillAppear t m_transfers).Emits (Routine K Q T) env :=
  of_reading (TransactionDetailViewController.reading_viewWillAppear t m_transfers env)

theorem shouldPerformSegue (w : Wallet) (form : Form) :
    (CreateTransactionViewController.shouldPerformSegue w form).Emits (Routine K Q T) env := by
  obtain ⟨address, amount, paymentId, mixin⟩ := form
  rcases amount with _ | rawAmount
  · exact Code.emits_pure _
  · refine Code.emits_ite (Code.emits_pure _) (Code.emits_bind (emits_call trivial) ?_)
    refine Code.emits_ite (Code.emits_bind (emits_call trivial) ?_) (Code.emits_pure _)
    exact Code.emits_pure _

theorem prepare (w : Wallet) (form : Form) (vc : ConfirmTransactionViewController) :
    (CreateTransactionViewController.prepare w form vc).Emits (Routine K Q True) env := by
  obtain ⟨address, amount, paymentId, mixin⟩ := form
  rcases address with _ | address
  · exact Code.emits_pure _
  rcases amount with _ | rawAmount
  · exact Code.emits_pure _
  refine Code.emits_ite (Code.emits_bind (emits_call trivial) ?_) (Code.emits_pure _)
  refine Code.emits_bind (Code.emits_bind (emits_call trivial) (Code.emits_pure _)) ?_
  exact Code.emits_pure _

theorem viewDidLoad (vc : ConfirmTransactionViewController) :
    vc.viewDidLoad.Emits (Routine K Q True) env := by
  intro e he
  obtain ⟨t, -, hasks⟩ := vc.emits_viewDidLoad env e he
  unfold ConfirmTransactionViewController.Asks at hasks
  split at hasks
  · trivial
  · trivial
  · cases hasks

theorem transfer (w : Wallet) (form : Form) :
    (CreateTransactionViewController.transfer w form).Emits (Routine K Q True) env := by
  intro e he
  rw [CreateTransactionViewController.log_transfer] at he
  rcases List.mem_append.1 he with he | he
  · exact shouldPerformSegue w form e he
  · split at he
    · rcases hw : env.wallet with _ | v
      · rw [hw] at he
        cases he
      · rw [hw] at he
        rcases List.mem_append.1 he with he | he
        · exact prepare w form _ e he
        · exact viewDidLoad _ e he
    · cases he

end

/-- The effect is one of the operation `o`. -/
def Opens (o : Opening) (env : Env) : Effect → Prop
  | .call (.manager c) _ => c = o.request env.documents
  | .call (.wallet h c) _ => h = o.handle env ∧ (c = .history ∨ c = .setListener h)
  | .write w => w ∈ o.writes
  | .assign w => w.impl = o.handle env
  | .background b => b = o.block
  | _ => False

theorem opens_code (o : Opening) (env : Env) : o.code.Emits (Opens o env) env := by
  intro e he
  rw [o.log_code] at he
  simp only [Opening.native, List.mem_append, List.mem_cons, List.not_mem_nil, or_false,
    List.mem_map] at he
  rcases he with ((rfl | rfl | rfl) | ⟨w, hw, rfl⟩) | rfl | rfl
  · exact rfl
  · exact ⟨rfl, .inl rfl⟩
  · exact ⟨rfl, .inr rfl⟩
  · exact hw
  · exact rfl
  · exact rfl

/-- The effect is a call by which the block `b` connects the wallet `w`. -/
def Connects (w : Wallet) (b : Block) : Effect → Prop
  | .call (.wallet h (.setRecoveringFromSeed recovering)) _ =>
    h = w.impl ∧ recovering = true ∧ b.recovering = true
  | .call (.wallet h (.setRefreshFromBlockHeight height)) _ =>
    h = w.impl ∧ height = b.restoreHeight ∧ b.recovering = true
  | .call (.wallet h (.initAsync address limit)) _ =>
    h = w.impl ∧ address = cstr daemonURL ∧ limit = 0
  | _ => False

/-- A block connects the wallet that is current when it runs, and that is all
    it does. -/
theorem connects_initBlock (b : Block) (env : Env) :
    (initBlock b).Emits (fun e => ∃ w ∈ env.wallet, Connects w b e) env := by
  rcases hw : env.wallet with _ | w
  · intro e he
    simp [initBlock, hw] at he
  · obtain ⟨recovering, restoreHeight⟩ := b
    rcases recovering with _ | _
    · intro e he
      simp only [initBlock, Code.log_ask_bind, hw] at he
      cases List.mem_singleton.1 he
      exact ⟨w, rfl, rfl, rfl, rfl⟩
    · intro e he
      have hlog : (initBlock ⟨true, restoreHeight⟩).log env =
          [.call (.wallet w.impl (.setRecoveringFromSeed true)) (env.answers _),
            .call (.wallet w.impl (.setRefreshFromBlockHeight restoreHeight)) (env.answers _),
            .call (.wallet w.impl (.initAsync (cstr daemonURL) 0)) (env.answers _)] := by
        simp only [initBlock, Code.log_ask_bind, hw]
        rfl
      rw [hlog] at he
      simp only [List.mem_cons, List.not_mem_nil, or_false] at he
      rcases he with rfl | rfl | rfl <;> exact ⟨w, rfl, rfl, rfl, rfl⟩

/-- Routine code does what its log says, and nothing besides. -/
theorem log_perform (s : Process) (r : ScreenEnv) {K : Key → Prop} {Q T : Prop}
    {es : List Effect} (h : ∀ e ∈ es, Routine K Q T e) :
    (s.perform r (es.map .app)).log = s.log ++ es :=
  (s.perform_app r fun _ hw => h _ hw).1

/-! ## The inputs -/

/-- The keys an event may write, but for those of the operations. -/
def written : Event → Key → Prop
  | .enterBackground => (· = .restoreHeight)
  | .callback _ c => fun k => c = .refreshed ∧ k = .isRecovering
  | _ => fun _ => False

/-- The event is one of a wallet. -/
def Reported : Event → Prop
  | .callback .. => True
  | _ => False

/-- The event is a transfer. -/
def Transfers : Event → Prop
  | .transfer _ => True
  | _ => False

/-- **What an input does**: it opens a wallet, writes labels, connects the
    current wallet, or is routine. -/
theorem effects_cases (s : Process) (i : Input) :
    ((i.event = .mainAppears ∨ ∃ form, i.event = .submit form) ∧
      ∃ o : Opening, s.effects i = (o.code.log (s.env i.env).toEnv).map .app) ∨
    ((i.event = .walletAppears ∨ i.event = .redraw) ∧ ∀ e ∈ s.effects i, Looks e) ∨
    (∃ j b, i.event = .block j ∧ s.app.blocks[j]? = some b ∧
      s.effects i = ((initBlock b).log (s.env i.env).toEnv).map .app) ∨
    ∃ es : List Effect, s.effects i = es.map .app ∧
      ∀ e ∈ es, Routine (written i.event) (Reported i.event) (Transfers i.event) e := by
  obtain ⟨e, r, cut⟩ := i
  have hsilent : s.effects ⟨e, r, cut⟩ = [] → ∃ es : List Effect,
      s.effects ⟨e, r, cut⟩ = es.map .app ∧
        ∀ e' ∈ es, Routine (written e) (Reported e) (Transfers e) e' :=
    fun h => ⟨[], h, List.forall_mem_nil _⟩
  have hopening : ∀ o : Option Opening, (e = .mainAppears ∨ ∃ form, e = .submit form) →
      s.effects ⟨e, r, cut⟩ = (o.elim [] fun o => o.code.log (s.env r).toEnv).map .app →
      ((e = .mainAppears ∨ ∃ form, e = .submit form) ∧
          ∃ o : Opening, s.effects ⟨e, r, cut⟩ = (o.code.log (s.env r).toEnv).map .app) ∨
        ∃ es : List Effect, s.effects ⟨e, r, cut⟩ = es.map .app ∧
          ∀ e' ∈ es, Routine (written e) (Reported e) (Transfers e) e' := by
    rintro (_ | o) he h
    · exact .inr (hsilent h)
    · exact .inl ⟨he, o, h⟩
  have hroutine : ∀ {α : Type} {m : AppCode α},
      m.Emits (Routine (written e) (Reported e) (Transfers e)) (s.env r).toEnv →
      s.effects ⟨e, r, cut⟩ = (m.log (s.env r).toEnv).map .app →
      ∃ es : List Effect, s.effects ⟨e, r, cut⟩ = es.map .app ∧
        ∀ e' ∈ es, Routine (written e) (Reported e) (Transfers e) e' :=
    fun hm h => ⟨_, h, hm⟩
  cases e with
  | mainAppears =>
    exact (hopening _ (.inl rfl) (s.effects_mainAppears r cut)).imp_right (.inr <| .inr ·)
  | submit form =>
    exact (hopening _ (.inr ⟨form, rfl⟩) (s.effects_submit r form cut)).imp_right (.inr <| .inr ·)
  | walletAppears =>
    refine .inr (.inl ⟨.inl rfl, fun e he => looks_resetWallet (s.env r) e ?_⟩)
    simpa only [Process.effects, Process.code, Code.log_bind, Code.log_pure,
      List.append_nil] using he
  | redraw =>
    rcases hm : s.main with _ | ⟨rs, q⟩
    · refine .inr (.inr (.inr (hsilent ?_)))
      simp only [Process.effects, Process.code, hm, Code.log_pure]
    · refine .inr (.inl ⟨.inr rfl, fun e he => ?_⟩)
      refine looks_redraw s.shown rs (s.env r) e ?_
      simpa only [Process.effects, Process.code, hm, Code.log_bind, Code.log_pure,
        List.append_nil] using he
  | block j =>
    rcases hb : s.app.blocks[j]? with _ | b
    · refine .inr (.inr (.inr (hsilent ?_)))
      simp only [Process.effects, Process.code, hb, Code.log_pure]
    · refine .inr (.inr (.inl ⟨j, b, rfl, hb, ?_⟩))
      simp only [Process.effects, Process.code, hb, Code.log_bind, Code.log_pure, log_lift,
        List.append_nil]
  | refreshButton =>
    refine .inr (.inr (.inr (hroutine (refreshButton s.shown) ?_)))
    simp only [Process.effects, Process.code, Code.log_bind, Code.log_pure, log_lift,
      List.append_nil]
  | callback w c =>
    exact .inr (.inr (.inr (hroutine (listener w c) (s.effects_callback r w c cut))))
  | enterBackground =>
    exact .inr (.inr (.inr (hroutine save (s.effects_enterBackground r cut))))
  | historyAppears =>
    refine .inr (.inr (.inr (hroutine history ?_)))
    simp only [Process.effects, Process.code, Code.log_bind, log_lift]
    rw [List.append_right_eq_self]
    split <;> rfl
  | cell j =>
    rcases ht : s.rows[j]? with _ | t
    · refine .inr (.inr (.inr (hsilent ?_)))
      simp only [Process.effects, Process.code, ht, Code.log_pure]
    · refine .inr (.inr (.inr (hroutine (cellForRow t) ?_)))
      simp only [Process.effects, Process.code, ht, Code.log_bind, Code.log_pure, log_lift,
        List.append_nil]
  | detailAppears ts =>
    rcases ht : s.detail with _ | t
    · refine .inr (.inr (.inr (hsilent ?_)))
      simp only [Process.effects, Process.code, ht, Code.log_pure]
    · refine .inr (.inr (.inr (hroutine (detail t ts) ?_)))
      simp only [Process.effects, Process.code, ht, Code.log_bind, Code.log_pure, log_lift,
        List.append_nil]
  | transfer form =>
    rcases hc : s.create with _ | w
    · refine .inr (.inr (.inr (hsilent ?_)))
      simp only [Process.effects, Process.code, hc, Code.log_pure]
    · refine .inr (.inr (.inr (hroutine (transfer w form) ?_)))
      simp only [Process.effects, Process.code, hc, Code.log_bind, log_lift]
      rw [List.append_right_eq_self]
      split <;> rfl
  | confirm =>
    refine .inr (.inr (.inr (hsilent ?_)))
    rcases hc : s.confirm with _ | ⟨vc, vcs⟩
    · simp only [Process.effects, Process.code, hc, Code.log_pure]
    · simp only [Process.effects, Process.code, hc]
      rfl
  | present =>
    refine .inr (.inr (.inr (hsilent ?_)))
    simp only [Process.effects, Process.code]
    split <;> rfl
  | walletDisappears | select | back | relaunch => exact .inr (.inr (.inr (hsilent rfl)))

/-- What openings, looks, connections and routine effects all are, every effect
    is. -/
theorem effects_of (s : Process) (i : Input) {P : ScreenEffect → Prop}
    (hopens : (i.event = .mainAppears ∨ ∃ form, i.event = .submit form) →
      ∀ o env e, Opens o env e → P (.app e))
    (hlooks : ∀ e, Looks e → P e)
    (hconnects : (∃ j, i.event = .block j) → ∀ w b e, Connects w b e → P (.app e))
    (hroutine : ∀ e, Routine (written i.event) (Reported i.event) (Transfers i.event) e →
      P (.app e)) : ∀ e ∈ s.effects i, P e := by
  intro e he
  rcases effects_cases s i with ⟨hevent, o, hopening⟩ | ⟨-, hlook⟩ | ⟨j, b, hj, -, hblock⟩ |
    ⟨es, heffects, hes⟩
  · rw [hopening] at he
    obtain ⟨e', he', rfl⟩ := List.mem_map.1 he
    exact hopens hevent o _ e' (opens_code o _ e' he')
  · exact hlooks e (hlook e he)
  · rw [hblock] at he
    obtain ⟨e', he', rfl⟩ := List.mem_map.1 he
    obtain ⟨w, -, hw⟩ := connects_initBlock b _ e' he'
    exact hconnects ⟨j, hj⟩ w b e' hw
  · rw [heffects] at he
    obtain ⟨e', he', rfl⟩ := List.mem_map.1 he
    exact hroutine e' (hes e' he')

end Routine

end Monujo
