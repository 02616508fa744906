/-
  Where the app's native objects come from.

  The app works on raw pointers of the library: wallets, pending transactions
  and transaction records.  `calls_legitimate`: in every run of the app, whatever
  the user does and the library reports, every native call is one of a fixed
  list, on an object that the library has handed to the process before.
-/
import Monujo.Model.Process

namespace Monujo

open Monero WalletStore

namespace Provenance

/-- A pointer of the library. -/
inductive Object where
  | wallet (h : Handle)
  | pending (t : Pending)
  | info (i : Info)
  deriving DecidableEq

/-- The objects a call hands to the app. -/
def handed : Effect → List Object
  | .call (.manager (.createWallet ..)) h | .call (.manager (.openWallet ..)) h
  | .call (.manager (.recoveryWallet ..)) h => [.wallet h]
  | .call (.wallet _ (.createTransaction ..)) t => [.pending t]
  | .call (.history _ .getAll) infos => List.map Object.info infos
  | _ => []

/-- The object a call is made on; the history of a wallet is named by the
    wallet. -/
def object : Call → Option Object
  | .wallet h _ | .history h _ => some (.wallet h)
  | .pending t _ => some (.pending t)
  | .info i _ => some (.info i)
  | .manager _ | .static _ => none

/-- The calls the app makes. -/
def Listed : Call → Prop
  | .manager (.createWallet _ _ _ testnet) | .manager (.openWallet _ _ testnet)
  | .manager (.recoveryWallet _ _ testnet _) => testnet = false
  | .wallet h (.setListener owner) => owner = h
  | .wallet _ (.setRecoveringFromSeed recovering) => recovering = true
  | .wallet _ (.initAsync address limit) => address = cstr daemonURL ∧ limit = 0
  | .wallet _ (.store path) => path = ""
  | .wallet _ (.createTransaction _ _ _ _ priority) => priority = 1
  | .wallet _ .history | .wallet _ (.setRefreshFromBlockHeight _) | .wallet _ .address
  | .wallet _ .seed | .wallet _ .balance | .wallet _ .unlockedBalance
  | .wallet _ .blockChainHeight | .wallet _ .daemonBlockChainHeight
  | .wallet _ .daemonBlockChainTargetHeight | .wallet _ .refresh | .wallet _ .refreshAsync => True
  | .history _ c => c ≠ .count
  | .pending _ c => c ≠ .commit ∧ c ≠ .dust
  | .info .. => True
  | .static c => c ≠ .genPaymentId
  | _ => False

/-- The call may be made after the effects `es`. -/
def Legitimate (es : List Effect) (c : Call) : Prop :=
  Listed c ∧ ∀ o ∈ object c, o ∈ es.flatMap handed

/-- Every call among the effects may be made after those before it. -/
def Disciplined (es : List Effect) : Prop :=
  ∀ fs c a gs, es = fs ++ .call c a :: gs → Legitimate fs c

/-! ## Held objects -/

/-- The object has been handed to the process. -/
def Has (s : Process) (o : Object) : Prop := o ∈ s.log.flatMap handed

/-- What the process holds has been handed to it. -/
structure Holds (s : Process) : Prop where
  wallet : ∀ w ∈ s.app.wallet, Has s (.wallet w.impl)
  delegate : ∀ w, s.delegate w = true → Has s (.wallet w.impl)
  shown : ∀ w ∈ s.shown, Has s (.wallet w.impl)
  create : ∀ w ∈ s.create, Has s (.wallet w.impl)
  rows : ∀ t ∈ s.rows, Has s (.info t.impl)
  detail : ∀ t ∈ s.detail, Has s (.info t.impl)

structure Inv (s : Process) : Prop where
  log : Disciplined s.log
  past : ∀ es ∈ s.past, Disciplined es
  holds : Holds s

/-- The effect may come next. -/
def Ok (s : Process) : Effect → Prop
  | .call c _ => Legitimate s.log c
  | .assign w | .setDelegate w => Has s (.wallet w.impl)
  | .show w => ∀ v ∈ w, Has s (.wallet v.impl)
  | _ => True

/-- The log of `t` continues that of `s`. -/
def Later (s t : Process) : Prop := s.log <+: t.log

variable {s t : Process} {r : ScreenEnv}

theorem Has.later {o : Object} (h : Has s o) (hst : Later s t) : Has t o := by
  obtain ⟨fs, hfs⟩ := hst
  rw [Has, ← hfs, List.flatMap_append]
  exact List.mem_append_left _ h

theorem Ok.later {e : Effect} (h : Ok s e) (hst : Later s t) : Ok t e := by
  cases e with
  | call c a => exact ⟨h.1, fun o ho => Has.later (h.2 o ho) hst⟩
  | assign w | setDelegate w => exact Has.later h hst
  | «show» w => exact fun v hv => Has.later (h v hv) hst
  | write | background | main | refreshedAt => trivial

theorem later_applyScreen (s : Process) (e : ScreenEffect) : Later s (s.applyScreen e) := by
  cases e with
  | app e => exact ⟨[e], rfl⟩
  | heights | text => exact List.prefix_rfl

/-! ## One effect -/

theorem Disciplined.initial {es fs : List Effect} (h : Disciplined fs) (hes : es <+: fs) :
    Disciplined es := by
  obtain ⟨hs, rfl⟩ := hes
  intro fs c a gs heq
  exact h fs c a (gs ++ hs) (by rw [heq, List.append_assoc, List.cons_append])

theorem disciplined_concat {es : List Effect} {e : Effect} (h : Disciplined es)
    (he : ∀ c a, e = .call c a → Legitimate es c) : Disciplined (es ++ [e]) := by
  intro fs c a gs heq
  rcases List.eq_nil_or_concat gs with rfl | ⟨gs, g, rfl⟩
  · obtain ⟨rfl, hlast⟩ := List.append_inj' heq rfl
    exact he c a (List.cons.inj hlast).1
  · rw [List.concat_eq_append, ← List.cons_append, ← List.append_assoc] at heq
    exact h fs c a gs (List.append_inj' heq rfl).1

/-- What is held stays held; what an effect makes the process hold is `Ok`. -/
theorem Holds.applyApp (h : Holds s) {e : Effect} (he : Ok s e) : Holds (s.applyApp e) := by
  have hst : Later s (s.applyApp e) := ⟨[e], rfl⟩
  refine ⟨fun w hw => ?_, fun w hw => ?_, fun w hw => ?_, fun w hw => (h.create w hw).later hst,
    fun t ht => (h.rows t ht).later hst, fun t ht => (h.detail t ht).later hst⟩
  · cases e with
    | assign v =>
      cases hw
      exact Has.later he hst
    | call | write | background | main | refreshedAt | «show» | setDelegate =>
      exact (h.wallet w hw).later hst
  · change Process.delegateAfter s.delegate e w = true at hw
    unfold Process.delegateAfter at hw
    split at hw
    · rename_i owner _
      refine (h.delegate w ?_).later hst
      by_cases hwo : w = ⟨owner⟩
      · subst hwo
        simp at hw
      · rwa [Function.update_of_ne hwo] at hw
    · rename_i v
      by_cases hwv : w = v
      · subst hwv
        exact Has.later he hst
      · rw [Function.update_of_ne hwv] at hw
        exact (h.delegate w hw).later hst
    · exact (h.delegate w hw).later hst
  · cases e with
    | «show» v => exact Has.later (he w hw) hst
    | call | write | background | main | refreshedAt | assign | setDelegate =>
      exact (h.shown w hw).later hst

theorem Inv.applyApp (h : Inv s) {e : Effect} (he : Ok s e) : Inv (s.applyApp e) := by
  refine ⟨disciplined_concat h.log fun c a heq => ?_, h.past, h.holds.applyApp he⟩
  subst heq
  exact he

/-! ## Pieces of code -/

/-- An effect of the screen may come next. -/
def OkScreen (s : Process) (e : ScreenEffect) : Prop := ∀ e', e = .app e' → Ok s e'

theorem OkScreen.later {e : ScreenEffect} (h : OkScreen s e) (hst : Later s t) : OkScreen t e :=
  fun e' he' => (h e' he').later hst

theorem Inv.applyScreen (h : Inv s) {e : ScreenEffect} (he : OkScreen s e) :
    Inv (s.applyScreen e) := by
  cases e with
  | app e => exact h.applyApp (he e rfl)
  | heights | text =>
    obtain ⟨hwallet, hdelegate, hshown, hcreate, hrows, hdetail⟩ := h.holds
    exact ⟨h.log, h.past, hwallet, hdelegate, hshown, hcreate, hrows, hdetail⟩

theorem Later.trans {u : Process} (hst : Later s t) (htu : Later t u) : Later s u :=
  List.IsPrefix.trans hst htu

theorem Inv.runScreen (h : Inv s) {es : List ScreenEffect} (hes : ∀ e ∈ es, OkScreen s e) :
    Inv (Runs.run Process.applyScreen s es) ∧ Later s (Runs.run Process.applyScreen s es) := by
  induction es generalizing s with
  | nil => exact ⟨h, List.prefix_rfl⟩
  | cons e es ih =>
    have hst : Later s (s.applyScreen e) := later_applyScreen s e
    obtain ⟨hinv, hlater⟩ := ih (h.applyScreen (hes e (by simp)))
      fun e' he' => (hes e' (by simp [he'])).later hst
    exact ⟨hinv, hst.trans hlater⟩

/-- A listed call on a wallet that has been handed over. -/
theorem Has.ok {w : Wallet} {c : WalletCall} (h : Has s (.wallet w.impl))
    (hc : Listed (.wallet w.impl c)) (a : (Call.wallet w.impl c).Ans) :
    Ok s (.call (.wallet w.impl c) a) := by
  refine ⟨hc, fun o ho => ?_⟩
  cases ho
  exact h

theorem ok_of_queries {w : Wallet} (h : Has s (.wallet w.impl)) {e : Effect}
    (he : WalletViewController.Labels.Queries w e) : Ok s e := by
  unfold WalletViewController.Labels.Queries at he
  split at he
  · subst he
    exact h.ok (by trivial) _
  · subst he
    exact h.ok (by trivial) _
  · cases he

theorem ok_refreshBlockHeights {w : Wallet} (h : Has s (.wallet w.impl)) (r : ScreenEnv) :
    ∀ e ∈ (WalletViewController.Labels.refreshBlockHeights (some w)).log r, OkScreen s e := by
  obtain ⟨qs, m, hqs, hlog⟩ := WalletViewController.Labels.log_refreshBlockHeights w r
  rw [hlog]
  intro e he e' heq
  subst heq
  simp only [List.cons_append, List.mem_cons, List.mem_append, List.mem_map,
    ScreenEffect.app.injEq, exists_eq_right, reduceCtorEq, List.not_mem_nil, or_false] at he
  rcases he with rfl | he
  · exact h.ok (by trivial) _
  · exact ok_of_queries h (hqs e' he)

theorem ok_refreshBalance {w : Wallet} (h : Has s (.wallet w.impl)) (r : ScreenEnv) :
    ∀ e ∈ (WalletViewController.Labels.refreshBalance (some w)).log r, OkScreen s e := by
  rw [WalletViewController.Labels.log_refreshBalance]
  intro e he e' heq
  subst heq
  simp only [List.mem_cons, ScreenEffect.app.injEq, reduceCtorEq, List.not_mem_nil,
    or_false] at he
  subst he
  exact h.ok (by trivial) _

/-- The wallet screen works on the current wallet. -/
theorem ok_resetWallet (h : Inv s) (r : ScreenEnv) :
    ∀ e ∈ WalletViewController.Labels.resetWallet.log (s.env r), OkScreen s e := by
  rcases hw : s.app.wallet with _ | w
  · rw [WalletViewController.Labels.log_resetWallet_none hw]
    intro e he e' heq
    subst heq
    simp only [List.mem_singleton, ScreenEffect.app.injEq] at he
    subst he
    intro v hv
    cases hv
  · have hhas : Has s (.wallet w.impl) := h.holds.wallet w hw
    rw [WalletViewController.Labels.log_resetWallet_some hw]
    intro e he
    rcases List.mem_append.1 he with he | he
    · rcases List.mem_append.1 he with he | he
      · intro e' heq
        subst heq
        simp only [List.mem_cons, ScreenEffect.app.injEq, reduceCtorEq, List.not_mem_nil,
          or_false, false_or] at he
        rcases he with rfl | rfl | rfl | rfl
        · intro v hv
          cases hv
          exact hhas
        · exact hhas
        · exact hhas.ok (by trivial) _
        · exact hhas.ok (by trivial) _
      · exact ok_refreshBalance hhas _ e he
    · exact ok_refreshBlockHeights hhas _ e he

theorem Inv.apply (h : Inv s) (r : ScreenEnv) {e : ScreenEffect} (he : OkScreen s e) :
    Inv (s.apply r e) ∧ Later s (s.apply r e) := by
  have hone := h.applyScreen he
  have hst : Later s (s.applyScreen e) := later_applyScreen s e
  by_cases hassign : ∃ w, e = .app (.assign w)
  · obtain ⟨w, rfl⟩ := hassign
    rw [Process.apply_assign]
    split
    · obtain ⟨hinv, hlater⟩ := hone.runScreen (ok_resetWallet hone r)
      exact ⟨hinv, hst.trans hlater⟩
    · exact ⟨hone, hst⟩
  · rw [Process.apply_of_ne _ _ fun w hw => hassign ⟨w, hw⟩]
    exact ⟨hone, hst⟩

/-- Effects that may come now may come one after the other. -/
theorem Inv.perform (h : Inv s) (r : ScreenEnv) {es : List ScreenEffect}
    (hes : ∀ e ∈ es, OkScreen s e) : Inv (s.perform r es) ∧ Later s (s.perform r es) := by
  induction es generalizing s with
  | nil => exact ⟨h, List.prefix_rfl⟩
  | cons e es ih =>
    obtain ⟨hone, hst⟩ := h.apply r (hes e (by simp))
    obtain ⟨hinv, hlater⟩ := ih hone fun e' he' => (hes e' (by simp [he'])).later hst
    rw [Process.perform_cons]
    exact ⟨hinv, hst.trans hlater⟩

theorem okScreen_map {es : List Effect} (h : ∀ e ∈ es, Ok s e) :
    ∀ e ∈ es.map ScreenEffect.app, OkScreen s e := by
  intro e he e' heq
  subst heq
  obtain ⟨e'', he'', heq⟩ := List.mem_map.1 he
  cases heq
  exact h e' he''

/-- Code of the app whose effects may come now. -/
theorem Inv.lift (h : Inv s) {r r' : ScreenEnv} {α : Type} {m : AppCode α}
    (hm : m.Emits (Ok s) r'.toEnv) :
    Inv (s.perform r ((lift m).log r')) ∧ Later s (s.perform r ((lift m).log r')) := by
  rw [log_lift]
  exact h.perform r (okScreen_map hm)

/-! ## The code of the app -/

theorem handed_request (o : Opening) (env : Env) :
    handed (.call (.manager (o.request env.documents)) (env.answers _)) =
      [.wallet (o.handle env)] := by
  cases o <;> rfl

/-- What an opening does with the wallet the library has returned. -/
def wrapping (env : Env) (o : Opening) : List Effect :=
  [.call (.wallet (o.handle env) .history) (env.answers _),
    .call (.wallet (o.handle env) (.setListener (o.handle env))) (env.answers _)] ++
    o.writes.map Effect.write ++ [.assign ⟨o.handle env⟩, .background o.block]

theorem log_opening (o : Opening) (env : Env) : o.code.log env =
    .call (.manager (o.request env.documents)) (env.answers _) :: wrapping env o := by
  rw [o.log_code]
  rfl

theorem ok_wrapping {env : Env} {o : Opening} (h : Has s (.wallet (o.handle env))) :
    ∀ e ∈ wrapping env o, Ok s e := by
  intro e he
  simp only [wrapping, List.cons_append, List.nil_append, List.mem_cons, List.mem_append,
    List.mem_map, List.not_mem_nil, or_false] at he
  rcases he with rfl | rfl | ⟨w, -, rfl⟩ | rfl | rfl
  · exact Has.ok (w := ⟨o.handle env⟩) h (by trivial) _
  · exact Has.ok (w := ⟨o.handle env⟩) h (by exact rfl) _
  · trivial
  · exact h
  · trivial

/-- An opening works on the wallet the library has just returned. -/
theorem Inv.opening (h : Inv s) (r : ScreenEnv) (o : Opening) (env : Env) :
    Inv (s.perform r ((o.code.log env).map .app)) ∧
      Later s (s.perform r ((o.code.log env).map .app)) := by
  rw [log_opening, List.map_cons, Process.perform_cons]
  generalize hfirst : Effect.call (.manager (o.request env.documents)) (env.answers _) = first
  have hok : OkScreen s (.app first) := by
    intro e' heq
    cases heq
    rw [← hfirst]
    refine ⟨?_, fun x hx => ?_⟩
    · cases o <;> rfl
    · cases o <;> cases hx
  obtain ⟨hone, hst⟩ := h.apply r hok
  have hhas : Has (s.apply r (.app first)) (.wallet (o.handle env)) := by
    rw [Process.apply_of_ne _ _ fun w hw => by rw [← hfirst] at hw; cases hw]
    change _ ∈ (s.log ++ [first]).flatMap handed
    rw [List.flatMap_append, List.flatMap_singleton, ← hfirst, handed_request]
    exact List.mem_append_right _ (List.mem_singleton.2 rfl)
  obtain ⟨hinv, hlater⟩ := hone.perform r (okScreen_map (ok_wrapping hhas))
  exact ⟨hinv, hst.trans hlater⟩

section
variable {env : Env}

theorem Has.emits {w : Wallet} (h : Has s (.wallet w.impl)) {c : WalletCall}
    (hc : Listed (.wallet w.impl c)) : (call (.wallet w.impl c)).Emits (Ok s) env :=
  emits_call (h.ok hc _)

theorem emits_static (c : StaticCall) (hc : c ≠ .genPaymentId) :
    (call (.static c)).Emits (Ok s) env :=
  emits_call ⟨hc, fun o ho => by cases ho⟩

theorem emits_displayAmount (amount : UInt64) : (Wallet.displayAmount amount).Emits (Ok s) env :=
  Code.emits_bind (emits_static _ (by simp)) (Code.emits_pure _)

theorem emits_info {t : TransactionInfo} (h : Has s (.info t.impl)) (c : InfoCall) :
    (call (.info t.impl c)).Emits (Ok s) env := by
  refine emits_call ⟨trivial, fun o ho => ?_⟩
  cases ho
  exact h

theorem emits_refresh {w : Wallet} (h : Has s (.wallet w.impl)) :
    w.refresh.Emits (Ok s) env ∧ w.history.refresh.Emits (Ok s) env := by
  have hhistory : w.history.refresh.Emits (Ok s) env := by
    refine emits_call ⟨?_, fun o ho => ?_⟩
    · simp [Listed]
    · cases ho
      exact h
  exact ⟨Code.emits_bind (h.emits (by trivial)) (Code.emits_bind hhistory (Code.emits_pure _)),
    hhistory⟩

/-- The events of a wallet reach the screen only once it has been handed over. -/
theorem emits_listener (h : Inv s) (w : Wallet) (c : Callback) (r : ScreenEnv) :
    (c.listener w).Emits (Ok s) (s.env r).toEnv := by
  intro e he
  rw [Callback.log_listener] at he
  split at he
  · rename_i hdelegate
    have hhas : Has s (.wallet w.impl) := h.holds.delegate w hdelegate
    obtain ⟨hrefresh, hhistory⟩ : w.refresh.Emits (Ok s) (s.env r).toEnv ∧
        w.history.refresh.Emits (Ok s) (s.env r).toEnv := emits_refresh hhas
    cases c with
    | moneySpent | moneyReceived =>
      refine Code.emits_bind hrefresh (Code.emits_bind hhistory ?_) e he
      exact fun e he => by cases List.mem_singleton.1 he; trivial
    | newBlock height =>
      simp only [Callback.handler, WalletViewController.walletNewBlock, Code.log_ask_bind,
        Code.log_ite] at he
      split at he
      · simp only [Code.log_bind, Code.log_emit, List.cons_append, List.nil_append, List.mem_cons,
          List.not_mem_nil, or_false] at he
        rcases he with rfl | rfl <;> trivial
      · cases he
    | updated =>
      cases List.mem_singleton.1 he
      trivial
    | refreshed =>
      rw [Callback.log_handler_refreshed] at he
      simp only [List.mem_cons, List.not_mem_nil, or_false] at he
      rcases he with rfl | rfl | rfl
      · trivial
      · exact hhas.ok (by exact rfl) _
      · trivial
  · cases he

theorem emits_initBlock (h : Inv s) (b : Block) (r : ScreenEnv) :
    (initBlock b).Emits (Ok s) (s.env r).toEnv := by
  intro e he
  simp only [initBlock, Code.log_ask_bind, Process.env_wallet] at he
  rcases hw : s.app.wallet with _ | w
  · simp only [hw, Code.log_pure] at he
    cases he
  · have hhas : Has s (.wallet w.impl) := h.holds.wallet w hw
    have hinit : (call (.wallet w.impl (.initAsync (cstr daemonURL) 0))).Emits (Ok s)
        (s.env r).toEnv := hhas.emits ⟨rfl, rfl⟩
    have hasync : (w.initWalletAsync daemonURL 0 b.recovering b.restoreHeight).Emits (Ok s)
        (s.env r).toEnv := by
      unfold Wallet.initWalletAsync
      split
      · refine Code.emits_bind (hhas.emits (by exact rfl)) ?_
        exact Code.emits_bind (hhas.emits (by trivial)) hinit
      · exact hinit
    rw [hw] at he
    exact hasync e he

theorem emits_save (h : Inv s) (r : ScreenEnv) : save.Emits (Ok s) (s.env r).toEnv := by
  intro e he
  rw [save_eq, Process.env_wallet] at he
  rcases hw : s.app.wallet with _ | w
  · rw [hw] at he
    cases he
  · have hhas : Has s (.wallet w.impl) := h.holds.wallet w hw
    rw [hw] at he
    simp only [Option.elim_some, List.mem_cons, List.not_mem_nil, or_false] at he
    rcases he with rfl | rfl | rfl
    · exact hhas.ok (by trivial) _
    · trivial
    · exact hhas.ok (by exact rfl) _

theorem emits_cellForRow {t : TransactionInfo} (h : Has s (.info t.impl)) :
    (TransactionHistoryViewController.cellForRow t).Emits (Ok s) env := by
  have hstatus : (TransactionHistoryViewController.status t).Emits (Ok s) env := by
    refine Code.emits_bind (emits_info h _) (Code.emits_ite (Code.emits_pure _) ?_)
    refine Code.emits_bind (emits_info h _) (Code.emits_ite (Code.emits_pure _) ?_)
    exact Code.emits_pure _
  refine Code.emits_bind (emits_info h _) (Code.emits_bind hstatus ?_)
  exact Code.emits_bind (emits_info h _) (Code.emits_pure _)

theorem emits_detail {t : TransactionInfo} (h : Has s (.info t.impl))
    (m_transfers : List Transfer) :
    (TransactionDetailViewController.viewWillAppear t m_transfers).Emits (Ok s) env := by
  have hcstr : ∀ c, (call (.info t.impl c)).Emits (Ok s) env := fun c => emits_info h c
  refine Code.emits_bind (Code.emits_bind (hcstr .hash) (Code.emits_pure _)) ?_
  refine Code.emits_bind (Code.emits_bind (hcstr .paymentId) (Code.emits_pure _)) ?_
  refine Code.emits_bind (hcstr .amount) (Code.emits_bind (emits_displayAmount _) ?_)
  refine Code.emits_bind (hcstr .fee) (Code.emits_bind (emits_displayAmount _) ?_)
  refine Code.emits_bind (Code.emits_ite (Code.emits_pure _)
    (Code.emits_bind (hcstr .transfers) (Code.emits_pure _))) ?_
  refine Code.emits_foldlM (fun text t => ?_) _ _
  exact Code.emits_bind (emits_displayAmount _) (Code.emits_pure _)

theorem emits_shouldPerformSegue {w : Wallet} (h : Has s (.wallet w.impl)) (form : Form) :
    (CreateTransactionViewController.shouldPerformSegue w form).Emits (Ok s) env := by
  obtain ⟨address, amount, paymentId, mixin⟩ := form
  have hamount : ∀ text, (Wallet.amountFromString text).Emits (Ok s) env :=
    fun text => emits_static _ (by simp)
  cases amount with
  | none => exact Code.emits_pure _
  | some rawAmount =>
    refine Code.emits_ite (Code.emits_pure _) (Code.emits_bind (hamount rawAmount) ?_)
    refine Code.emits_ite (Code.emits_bind (h.emits (by trivial)) ?_) (Code.emits_pure _)
    exact Code.emits_pure _

theorem emits_viewDidLoad {vc : ConfirmTransactionViewController} {t : PendingTransaction}
    (ht : vc.transaction = some t) (h : Has s (.pending t.internal)) :
    vc.viewDidLoad.Emits (Ok s) env := by
  obtain ⟨wallet, transaction, address, paymentId, mixinCount⟩ := vc
  cases ht
  have hcall : ∀ c : PendingCall, c ≠ .commit ∧ c ≠ .dust →
      (call (.pending t.internal c)).Emits (Ok s) env := by
    intro c hc
    refine emits_call ⟨hc, fun o ho => ?_⟩
    cases ho
    exact h
  refine Code.emits_bind (hcall .status (by decide)) (Code.emits_ite ?_ ?_)
  · refine Code.emits_bind (Code.emits_bind ?_ (Code.emits_pure _)) (Code.emits_pure _)
    exact hcall .errorString (by decide)
  · refine Code.emits_bind (hcall .amount (by decide)) (Code.emits_bind (emits_displayAmount _) ?_)
    refine Code.emits_bind (hcall .fee (by decide)) (Code.emits_bind (emits_displayAmount _) ?_)
    exact Code.emits_pure _

end

/-- The segue is prepared by the wallet of the create screen; a transaction it
    hands over is one the library has handed over. -/
theorem Inv.prepare (h : Inv s) (r : ScreenEnv) {w : Wallet} (hw : Has s (.wallet w.impl))
    (form : Form) (v : Wallet) (env : Env) :
    let prepare := CreateTransactionViewController.prepare w form (.new v)
    let t := s.perform r ((prepare.log env).map .app)
    Inv t ∧ Later s t ∧
      ∀ p, (prepare.val env).transaction = some p → Has t (.pending p.internal) := by
  intro prepare
  by_cases hempty : form.addressTV.getD "" = "" ∨ form.amountTF.getD "" = ""
  · obtain ⟨hval, hlog⟩ := CreateTransactionViewController.prepare_none w form hempty (.new v) env
    rw [hval, hlog]
    refine ⟨h, List.prefix_rfl, fun p hp => ?_⟩
    cases hp
  · obtain ⟨address, amount, paymentId, mixin⟩ := form
    rcases address with _ | address
    · exact absurd (.inl rfl) hempty
    rcases amount with _ | rawAmount
    · exact absurd (.inr rfl) hempty
    obtain ⟨hne, hne'⟩ := not_or.1 hempty
    obtain ⟨hval, hlog⟩ := CreateTransactionViewController.prepare_some w
      ⟨some address, some rawAmount, paymentId, mixin⟩ rfl hne rfl hne' (.new v) env
    have hok : ∀ e ∈ prepare.log env, Ok s e := by
      rw [hlog]
      intro e he
      rcases List.mem_append.1 he with he | he
      · exact emits_static _ (by simp) e he
      · exact hw.emits (by exact rfl) e he
    obtain ⟨hinv, hlater⟩ := h.perform r (okScreen_map hok)
    refine ⟨hinv, hlater, fun p hp => ?_⟩
    rw [hval] at hp
    rw [hlog]
    cases hp
    change _ ∈ ((s.log ++ [_]) ++ [_]).flatMap handed
    rw [List.flatMap_append]
    exact List.mem_append_right _ (List.mem_singleton.2 rfl)

/-- A tap on Transfer. -/
theorem Inv.transfer (h : Inv s) (r : ScreenEnv) {w : Wallet} (hw : Has s (.wallet w.impl))
    (form : Form) (env : Env) :
    let code := CreateTransactionViewController.transfer w form
    Inv (s.perform r ((code.log env).map .app)) ∧
      Later s (s.perform r ((code.log env).map .app)) := by
  intro code
  have hsegue : (CreateTransactionViewController.shouldPerformSegue w form).Emits (Ok s) env :=
    emits_shouldPerformSegue hw form
  have hcheck := h.perform r (okScreen_map hsegue)
  rw [CreateTransactionViewController.log_transfer, List.map_append, Process.perform_append]
  split
  · rcases env.wallet with _ | v
    · exact hcheck
    · obtain ⟨hinv, hst⟩ := hcheck
      obtain ⟨hinv', hst', hpending⟩ := hinv.prepare r (hw.later hst) form v env
      rw [Option.elim_some, List.map_append, Process.perform_append]
      generalize hvc : (CreateTransactionViewController.prepare w form (.new v)).val env = vc
        at hpending ⊢
      rcases ht : vc.transaction with _ | p
      · have hnil : vc.viewDidLoad.log env = [] := by
          rw [ConfirmTransactionViewController.viewDidLoad, ht]
          rfl
        rw [hnil]
        exact ⟨hinv', hst.trans hst'⟩
      · have hload : vc.viewDidLoad.Emits (Ok _) env := emits_viewDidLoad ht (hpending p ht)
        obtain ⟨hinv'', hst''⟩ := hinv'.perform r (okScreen_map hload)
        exact ⟨hinv'', (hst.trans hst').trans hst''⟩
  · exact hcheck

/-! ## Runs -/

theorem inv_launch (r : Record) (now : Rat) {past : List (List Effect)}
    (hpast : ∀ es ∈ past, Disciplined es) : Inv (Process.launch r now past) := by
  have hnone : ∀ (α : Type) (P : α → Prop), ∀ x ∈ (none : Option α), P x := by
    intro α P x hx
    cases hx
  refine ⟨fun fs c a gs heq => ?_, hpast, hnone _ _, fun w hw => ?_, hnone _ _, hnone _ _,
    fun t ht => ?_, hnone _ _⟩
  · simp [Process.launch] at heq
  · cases hw
  · cases ht

theorem Inv.die (h : Inv s) (now : Rat) : Inv (s.die now) :=
  inv_launch _ _ (List.forall_mem_cons.2 ⟨h.log, h.past⟩)

/-- Where the screens go, they hold what they held, or what has been fetched. -/
theorem Inv.after {u : Process} (h : Inv t) (hrecord : u.app.wallet = t.app.wallet)
    (hlog : u.log = t.log) (hpast : u.past = t.past) (hdelegate : u.delegate = t.delegate)
    (hshown : u.shown = t.shown) (hcreate : ∀ w ∈ u.create, Has t (.wallet w.impl))
    (hrows : ∀ i ∈ u.rows, Has t (.info i.impl))
    (hdetail : ∀ i ∈ u.detail, Has t (.info i.impl)) : Inv u := by
  have hhas : ∀ {o}, Has t o → Has u o := by
    intro o ho
    rwa [Has, hlog]
  refine ⟨hlog ▸ h.log, hpast ▸ h.past, fun w hw => hhas (h.holds.wallet w (hrecord ▸ hw)),
    fun w hw => ?_, fun w hw => hhas (h.holds.shown w (hshown ▸ hw)),
    fun w hw => hhas (hcreate w hw), fun i hi => hhas (hrows i hi), fun i hi => hhas (hdetail i hi)⟩
  rw [hdelegate] at hw
  exact hhas (h.holds.delegate w hw)

theorem ok_redraw (h : Inv s) (rs : List Redraw) (r : ScreenEnv) :
    ∀ e ∈ (WalletViewController.Labels.redraw s.shown rs).log r, OkScreen s e := by
  have hone : ∀ rd, ∀ e ∈ (WalletViewController.Labels.redraw s.shown [rd]).log r,
      OkScreen s e := by
    rcases hshown : s.shown with _ | w
    · rintro (_ | _) e he e' rfl
      · cases List.mem_singleton.1 he
      · cases he
    · have hhas : Has s (.wallet w.impl) := h.holds.shown w hshown
      rintro (_ | _) e he
      · exact ok_refreshBalance hhas r e (by simpa [WalletViewController.Labels.redraw] using he)
      · exact ok_refreshBlockHeights hhas r e
          (by simpa [WalletViewController.Labels.redraw] using he)
  induction rs with
  | nil =>
    intro e he
    cases he
  | cons rd rs ih =>
    intro e he
    rcases rd with _ | _
    · rcases List.mem_append.1 he with he | he
      · exact hone .balance e (List.mem_append_left _ he)
      · exact ih e he
    · rcases List.mem_append.1 he with he | he
      · exact hone .blockHeights e (List.mem_append_left _ he)
      · exact ih e he

/-- **One input**, in a process that is not killed. -/
theorem Inv.input (h : Inv s) (e : Event) (r : ScreenEnv) : Inv (s.step ⟨e, r, none⟩) := by
  have hcode : ∀ {α : Type} {m : AppCode α}, m.Emits (Ok s) (s.env r).toEnv →
      Inv (s.runCode r m) := fun hm => (h.perform r (okScreen_map hm)).1
  have hopening : ∀ o : Option Opening, Inv (s.open? r o) := by
    rintro (_ | o)
    · exact h
    · exact (h.opening r o _).1
  cases e with
  | mainAppears =>
    rw [Process.step_mainAppears]
    have hinv := hopening (saved (s.env r).toEnv)
    exact hinv.after rfl rfl rfl rfl rfl hinv.holds.create hinv.holds.rows hinv.holds.detail
  | submit form =>
    rw [Process.step_submit]
    have hinv := hopening form.opening?
    exact hinv.after rfl rfl rfl rfl rfl hinv.holds.create hinv.holds.rows hinv.holds.detail
  | walletAppears =>
    rw [Process.step_walletAppears]
    have hinv := (h.perform r (ok_resetWallet h r)).1
    exact hinv.after rfl rfl rfl rfl rfl hinv.holds.create hinv.holds.rows hinv.holds.detail
  | walletDisappears | back =>
    exact h.after rfl rfl rfl rfl rfl h.holds.create h.holds.rows h.holds.detail
  | refreshButton =>
    rw [Process.step_refreshButton]
    refine hcode ?_
    rcases hshown : s.shown with _ | w
    · exact Code.emits_pure _
    · exact (h.holds.shown w hshown).emits (by trivial)
  | callback w c =>
    rw [Process.step_callback]
    exact hcode (emits_listener h w c r)
  | block j =>
    rcases hb : s.app.blocks[j]? with _ | b
    · rwa [Process.step_block_none _ _ hb]
    · rw [Process.step_block_some _ _ hb]
      have hinv := hcode (emits_initBlock h b r)
      exact hinv.after rfl rfl rfl rfl rfl hinv.holds.create hinv.holds.rows hinv.holds.detail
  | redraw =>
    rcases hm : s.main with _ | ⟨rs, q⟩
    · rwa [Process.step_redraw_nil _ _ hm]
    · rw [Process.step_redraw_cons _ _ hm]
      have hinv := (h.perform r (ok_redraw h rs (s.env r))).1
      exact hinv.after rfl rfl rfl rfl rfl hinv.holds.create hinv.holds.rows hinv.holds.detail
  | enterBackground =>
    rw [Process.step_enterBackground]
    exact hcode (emits_save h r)
  | historyAppears =>
    rcases hw : s.app.wallet with _ | w
    · rwa [Process.step_historyAppears_none _ _ hw]
    · rw [Process.step_historyAppears_some _ _ hw]
      have hok : OkScreen s (.app (.call (.history w.impl .getAll) (r.answers _))) := by
        intro e heq
        cases heq
        refine ⟨by simp [Listed], fun o ho => ?_⟩
        cases ho
        exact h.holds.wallet w hw
      have hinv := (h.perform r fun e he => List.mem_singleton.1 he ▸ hok).1
      refine hinv.after rfl rfl rfl rfl rfl hinv.holds.create (fun t ht => ?_) hinv.holds.detail
      obtain ⟨i, hi, rfl⟩ := List.mem_map.1 ht
      change _ ∈ (s.log ++ [_]).flatMap handed
      rw [List.flatMap_append]
      refine List.mem_append_right _ (List.mem_flatMap.2 ⟨_, List.mem_singleton.2 rfl, ?_⟩)
      exact List.mem_map_of_mem hi
  | cell j =>
    rcases ht : s.rows[j]? with _ | t
    · rwa [Process.step_cell_none _ _ ht]
    · rw [Process.step_cell_some _ _ ht]
      have hinv := hcode (emits_cellForRow (h.holds.rows t (List.mem_of_getElem? ht)))
      exact hinv.after rfl rfl rfl rfl rfl hinv.holds.create hinv.holds.rows hinv.holds.detail
  | select j =>
    rw [Process.step_select]
    refine h.after rfl rfl rfl rfl rfl h.holds.create h.holds.rows fun t ht => ?_
    rcases hj : s.rows[j]? with _ | t'
    · exact h.holds.detail t (by simpa [hj] using ht)
    · obtain rfl : t' = t := by simpa [hj] using ht
      exact h.holds.rows t' (List.mem_of_getElem? hj)
  | detailAppears ts =>
    rcases ht : s.detail with _ | t
    · rwa [Process.step_detailAppears_none _ _ ht]
    · rw [Process.step_detailAppears_some _ _ ht]
      have hinv := hcode (emits_detail (h.holds.detail t ht) ts)
      exact hinv.after rfl rfl rfl rfl rfl hinv.holds.create hinv.holds.rows hinv.holds.detail
  | present =>
    rw [Process.step_present]
    split
    · exact h
    · rcases hw : s.app.wallet with _ | w
      · exact h.die _
      · refine h.after rfl rfl rfl rfl rfl (fun v hv => ?_) h.holds.rows h.holds.detail
        cases hv
        exact h.holds.wallet w hw
  | transfer form =>
    rcases hc : s.create with _ | w
    · rwa [Process.step_transfer_none _ _ hc]
    · have hinv := (h.transfer r (h.holds.create w hc) form (s.env r).toEnv).1
      rw [Process.step_transfer_some _ _ hc]
      split
      · exact hinv
      · exact hinv.die _
      · exact hinv.after rfl rfl rfl rfl rfl hinv.holds.create hinv.holds.rows hinv.holds.detail
  | confirm =>
    rw [Process.step_confirm]
    split
    · exact h
    · refine h.after rfl rfl rfl rfl rfl (fun w hw => ?_) h.holds.rows h.holds.detail
      cases hw
  | relaunch => exact h.die _

/-- **One input.** -/
theorem Inv.step (h : Inv s) (i : Input) : Inv (s.step i) := by
  obtain ⟨e, r, cut⟩ := i
  rcases cut with _ | k
  · exact h.input e r
  · have hinv : Inv (s.step ⟨e, r, none⟩) := h.input e r
    obtain ⟨es, hlogs, fs, hfs, hes⟩ := s.logs_cut e r k
    have hdisciplined : ∀ es ∈ (s.step ⟨e, r, none⟩).logs, Disciplined es :=
      List.forall_mem_cons.2 ⟨hinv.log, hinv.past⟩
    have hpast : ∀ es ∈ (s.step ⟨e, r, some k⟩).past, Disciplined es := by
      rw [(List.cons.inj hlogs).2]
      exact List.forall_mem_cons.2 ⟨(hdisciplined fs hfs).initial hes, h.past⟩
    exact inv_launch _ _ hpast

/-- **Every native call is a listed one, on an object that has been handed
    over** to the process that makes it. -/
theorem calls_legitimate (r : Record) (now : Rat) (is : List Input) :
    Runs.Always Process.step (fun s => ∀ es ∈ s.logs, Disciplined es)
      (Process.launch r now) is := by
  have hinv : Runs.Always Process.step Inv (Process.launch r now) is :=
    Runs.always_of_step (fun _ i h => h.step i) (inv_launch r now (by simp))
  refine Runs.always_iff_prefix.2 fun fs hfs => ?_
  obtain ⟨hlog, hpast, -⟩ := Runs.always_iff_prefix.1 hinv fs hfs
  exact List.forall_mem_cons.2 ⟨hlog, hpast⟩

end Provenance

end Monujo
