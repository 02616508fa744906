/-
  `WalletViewController.swift`, and the C++ listener of `Wallet.mm` that routes
  the events of a native wallet to it.

  The screen is the only delegate of the app.  It makes itself the delegate of
  every wallet it shows, and never gives a delegate up.
-/
import Monujo.Model.WalletStore

namespace Monujo

open Monero

/-! ## WalletViewController.swift -/

namespace WalletViewController

/-- `refreshBalance` on the wallet the screen shows. -/
def refreshBalance (wallet : Option Wallet) : AppCode UInt64 :=
  match wallet with
  | some w => w.balance
  | none => return 0

/-- `resetWallet`: show `WalletStore.wallet` and become its delegate.  The two
    daemon heights of `refreshBlockHeights` are cached calls, left out here. -/
def resetWallet : AppCode PUnit := do
  let env ← Code.ask
  Code.emit (.show env.wallet)
  match env.wallet with
  | none => return
  | some wallet =>
    Code.emit (.setDelegate wallet)
    let _ ← wallet.address
    let _ ← wallet.getSeed
    let _ ← refreshBalance env.wallet
    let _ ← wallet.blockChainHeight

/-- The wallets whose delegate is set among effects. -/
def delegated (es : List Effect) : List Wallet :=
  es.filterMap fun
    | .setDelegate w => some w
    | _ => none

theorem log_resetWallet (env : Env) : resetWallet.log env =
    .show env.wallet :: env.wallet.elim [] fun w =>
      [.setDelegate w, .call (.wallet w.impl .address) (env.answers _),
        .call (.wallet w.impl .seed) (env.answers _), .call (.wallet w.impl .balance) (env.answers _),
        .call (.wallet w.impl .blockChainHeight) (env.answers _)] := by
  cases h : env.wallet with
  | none => simp [resetWallet, h]
  | some w =>
    simp [resetWallet, h]
    rfl

theorem delegated_resetWallet (env : Env) : delegated (resetWallet.log env) = env.wallet.toList := by
  rw [log_resetWallet]
  cases env.wallet <;> rfl

def refreshButtonClicked (wallet : Option Wallet) : AppCode Unit :=
  match wallet with
  | some w => w.refreshAsync
  | none => return

def walletMoneySpent (wallet : Wallet) (_txId : String) (_amount : UInt64) : AppCode PUnit := do
  let _ ← wallet.refresh
  wallet.history.refresh
  Code.emit (.main [.balance])

def walletMoneyReceived (wallet : Wallet) (_txId : String) (_amount : UInt64) : AppCode PUnit := do
  let _ ← wallet.refresh
  wallet.history.refresh
  Code.emit (.main [.balance])

def walletNewBlock (_wallet : Wallet) (_height : UInt64) : AppCode PUnit := do
  let env ← Code.ask
  if env.now - env.lastTimeRefreshed > 1 then
    Code.emit (.refreshedAt env.now)
    Code.emit (.main [.blockHeights])

def walletUpdated (_wallet : Wallet) : AppCode PUnit :=
  Code.emit (.main [.blockHeights, .balance])

def walletRefreshed (wallet : Wallet) : AppCode PUnit := do
  removeObject .isRecovering
  let _ ← wallet.store
  Code.emit (.main [.blockHeights, .balance])

end WalletViewController

/-! ## The listener of Wallet.mm -/

/-- The events of a native wallet, with the arguments of `WalletListener`. -/
inductive Callback where
  | moneySpent (txId : String) (amount : UInt64)
  | moneyReceived (txId : String) (amount : UInt64)
  | newBlock (height : UInt64)
  | updated
  | refreshed
  deriving DecidableEq

namespace Callback

/-- The handler of the delegate. -/
def handler (wallet : Wallet) : Callback → AppCode PUnit
  | moneySpent txId amount => WalletViewController.walletMoneySpent wallet (cstr txId) amount
  | moneyReceived txId amount => WalletViewController.walletMoneyReceived wallet (cstr txId) amount
  | newBlock height => WalletViewController.walletNewBlock wallet height
  | updated => WalletViewController.walletUpdated wallet
  | refreshed => WalletViewController.walletRefreshed wallet

/-- The method of `WalletListenerImpl`, whose `m_wallet` is `wallet`: the event
    goes to the delegate, if there is one. -/
def listener (wallet : Wallet) (c : Callback) : AppCode PUnit := do
  let env ← Code.ask
  if env.delegate wallet then c.handler wallet

/-- The event carries money. -/
def isMoney : Callback → Bool
  | moneySpent .. | moneyReceived .. => true
  | newBlock _ | updated | refreshed => false

/-- What the handlers of the money events do. -/
def moneyEffects (w : Wallet) (env : Env) : List Effect :=
  [.call (.wallet w.impl .refresh) (env.answers _), .call (.history w.impl .refresh) (env.answers _),
    .call (.history w.impl .refresh) (env.answers _), .main [.balance]]

theorem log_handler_money {c : Callback} (h : c.isMoney = true) (w : Wallet) (env : Env) :
    (c.handler w).log env = moneyEffects w env := by
  cases c <;> first | rfl | simp [isMoney] at h

theorem log_handler_refreshed (w : Wallet) (env : Env) :
    (refreshed.handler w).log env = [.write ⟨.isRecovering, none⟩,
      .call (.wallet w.impl (.store "")) (env.answers _), .main [.blockHeights, .balance]] := rfl

theorem log_listener (w : Wallet) (c : Callback) (env : Env) :
    (c.listener w).log env = if env.delegate w then (c.handler w).log env else [] := by
  simp [listener]

/-- The effect redraws labels, or notes when that was done. -/
def Redraws : Effect → Prop
  | .main _ | .refreshedAt _ => True
  | _ => False

/-- **What an event does**: with a delegate, money refreshes the wallet, and its
    history twice; a reported refresh removes the flag and stores the wallet;
    everything else redraws at most. -/
theorem listener_cases (w : Wallet) (c : Callback) (env : Env) :
    (c.isMoney = true ∧ env.delegate w = true ∧ (c.listener w).log env = moneyEffects w env) ∨
    (c = .refreshed ∧ env.delegate w = true ∧
      (c.listener w).log env = [.write ⟨.isRecovering, none⟩,
        .call (.wallet w.impl (.store "")) (env.answers _), .main [.blockHeights, .balance]]) ∨
    (¬ (env.delegate w = true ∧ (c.isMoney = true ∨ c = .refreshed)) ∧
      ∀ e ∈ (c.listener w).log env, Redraws e) := by
  rw [log_listener]
  by_cases hd : env.delegate w = true
  · rw [if_pos hd]
    cases c with
    | moneySpent | moneyReceived => exact .inl ⟨rfl, hd, log_handler_money rfl w env⟩
    | refreshed => exact .inr (.inl ⟨rfl, hd, log_handler_refreshed w env⟩)
    | updated =>
      refine .inr (.inr ⟨by simp [isMoney], ?_⟩)
      simp [handler, WalletViewController.walletUpdated, Redraws]
    | newBlock height =>
      refine .inr (.inr ⟨by simp [isMoney], ?_⟩)
      simp only [handler, WalletViewController.walletNewBlock, Code.log_ask_bind, Code.log_ite]
      split <;> simp [Redraws]
  · refine .inr (.inr ⟨fun h => hd h.1, ?_⟩)
    simp [hd]

/-- The only persistent write of a callback is the removal of the flag when a
    refresh is reported. -/
theorem writesOf_listener (w : Wallet) (c : Callback) (env : Env) :
    writesOf ((c.listener w).log env) =
      if env.delegate w = true ∧ c = .refreshed then [⟨.isRecovering, none⟩] else [] := by
  rcases listener_cases w c env with ⟨hc, -, hlog⟩ | ⟨hc, hd, hlog⟩ | ⟨hno, hlog⟩
  · have hne : c ≠ .refreshed := by
      rintro rfl
      cases hc
    rw [hlog, if_neg fun h => hne h.2]
    rfl
  · rw [hlog, if_pos ⟨hd, hc⟩]
    rfl
  · rw [if_neg fun h => hno ⟨h.1, .inr h.2⟩]
    refine List.filterMap_eq_nil_iff.2 fun e he => ?_
    have hredraws := hlog e he
    cases e <;> first | rfl | cases hredraws

end Callback

end Monujo
