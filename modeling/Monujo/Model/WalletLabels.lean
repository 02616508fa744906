/-
  The labels of `WalletViewController.swift`.

  `WalletScreen` has the code of the screen as far as it acts on the app.  Here
  is the same code with the labels it writes and the daemon heights it looks up;
  `app_resetWallet` is what the two have in common.
-/
import Monujo.Model.DaemonHeights
import Monujo.Model.WalletScreen

namespace Monujo

open Monero

/-! ## Code of the screen -/

namespace WalletViewController

/-- The outlets of the screen. -/
inductive Outlet where
  | addressLabel | mnemonicLabel | balanceLabel | blockHeightsLabel
  deriving DecidableEq

end WalletViewController

open WalletViewController (Outlet)

/-- What code of the screen does. -/
inductive ScreenEffect where
  | app (e : Effect)
  /-- The cached daemon heights of `w` are set. -/
  | heights (w : Wallet) (m : DaemonHeights)
  /-- `label.text = s`. -/
  | text (label : Outlet) (s : String)

/-- What code of the screen reads.  The clock is read when a daemon height is
    looked up, and when a query for it is answered. -/
structure ScreenEnv extends Env where
  heights : Wallet → DaemonHeights
  heightChecked : Rat
  heightAnswered : Rat
  targetChecked : Rat
  targetAnswered : Rat

instance : Inhabited ScreenEnv where
  default :=
    { (default : Env) with
      heights := fun _ => .init
      heightChecked := 0
      heightAnswered := 0
      targetChecked := 0
      targetAnswered := 0 }

abbrev ScreenCode := Code ScreenEnv ScreenEffect

/-- Code of the app, as code of the screen. -/
def lift {α : Type} (m : AppCode α) : ScreenCode α :=
  fun r => (m.val r.toEnv, (m.log r.toEnv).map .app)

@[simp] theorem val_lift {α : Type} (m : AppCode α) (r : ScreenEnv) :
    (lift m).val r = m.val r.toEnv := rfl

@[simp] theorem log_lift {α : Type} (m : AppCode α) (r : ScreenEnv) :
    (lift m).log r = (m.log r.toEnv).map .app := rfl

namespace WalletViewController.Labels

def refreshBalance (wallet : Option Wallet) : ScreenCode PUnit := do
  let balance ← lift (WalletViewController.refreshBalance wallet)
  Code.emit (.text .balanceLabel (toString balance))

/-- `blockHeightsString`. -/
def blockHeightsString (height daemon target : UInt64) : String :=
  toString height ++ " / " ++ toString daemon ++ " / " ++ toString target

def refreshBlockHeights (wallet : Option Wallet) : ScreenCode PUnit := do
  match wallet with
  | none => return
  | some w =>
    let r ← Code.ask
    let height ← lift w.blockChainHeight
    let (daemon, m) ←
      lift (w.daemonBlockChainHeight (r.heights w) r.heightChecked r.heightAnswered)
    let (target, m) ← lift (w.daemonBlockChainTargetHeight m r.targetChecked r.targetAnswered)
    Code.emit (.heights w m)
    Code.emit (.text .blockHeightsLabel (blockHeightsString height daemon target))

def resetWallet : ScreenCode PUnit := do
  let r ← Code.ask
  Code.emit (.app (.show r.wallet))
  match r.wallet with
  | none => return
  | some wallet =>
    Code.emit (.app (.setDelegate wallet))
    Code.emit (.text .addressLabel (← lift wallet.address))
    Code.emit (.text .mnemonicLabel (← lift wallet.getSeed))
    refreshBalance r.wallet
    refreshBlockHeights r.wallet

/-- A block on the main queue; `wallet` is the wallet the screen shows when it
    runs. -/
def redraw (wallet : Option Wallet) : List Redraw → ScreenCode PUnit
  | [] => return
  | .balance :: rs => do
    refreshBalance wallet
    redraw wallet rs
  | .blockHeights :: rs => do
    refreshBlockHeights wallet
    redraw wallet rs

/-! ## What the code does -/

/-- The effect asks the library for a daemon height of `w`. -/
def Queries (w : Wallet) : Effect → Prop
  | .call (.wallet h .daemonBlockChainHeight) _
  | .call (.wallet h .daemonBlockChainTargetHeight) _ => h = w.impl
  | _ => False

theorem log_refreshBalance (w : Wallet) (r : ScreenEnv) :
    (refreshBalance (some w)).log r =
      [.app (.call (.wallet w.impl .balance) (r.answers _)),
        .text .balanceLabel (toString (w.balance.val r.toEnv))] := rfl

theorem emits_get {P : Effect → Prop} {self : CachedHeight} {query : AppCode UInt64}
    {checked answered : Rat} {env : Env} (h : query.Emits P env) :
    (self.get query checked answered).Emits P env :=
  Code.emits_ite (Code.emits_bind h (Code.emits_pure _)) (Code.emits_pure _)

/-- A height that is looked up is the one cached then. -/
theorem get_eq_height (self : CachedHeight) (query : AppCode UInt64) (checked answered : Rat)
    (env : Env) : ((self.get query checked answered).val env).1 =
      ((self.get query checked answered).val env).2.height := by
  rw [CachedHeight.get, Code.val_ite]
  split
  · rfl
  · rfl

/-- The heights are looked up, and written as they are cached then. -/
theorem log_refreshBlockHeights (w : Wallet) (r : ScreenEnv) :
    ∃ (qs : List Effect) (m : DaemonHeights), (∀ e ∈ qs, Queries w e) ∧
      (refreshBlockHeights (some w)).log r =
        .app (.call (.wallet w.impl .blockChainHeight) (r.answers _)) ::
          qs.map ScreenEffect.app ++ [.heights w m, .text .blockHeightsLabel
            (blockHeightsString (r.answers (.wallet w.impl .blockChainHeight))
              m.m_daemonBlockChainHeight.height m.m_daemonBlockChainTargetHeight.height)] := by
  have hheight : (call (.wallet w.impl .daemonBlockChainHeight)).Emits (Queries w) r.toEnv :=
    emits_call rfl
  have htarget : (call (.wallet w.impl .daemonBlockChainTargetHeight)).Emits (Queries w) r.toEnv :=
    emits_call rfl
  let height := w.daemonBlockChainHeight (r.heights w) r.heightChecked r.heightAnswered
  let target := w.daemonBlockChainTargetHeight (height.val r.toEnv).2 r.targetChecked
    r.targetAnswered
  refine ⟨height.log r.toEnv ++ target.log r.toEnv, (target.val r.toEnv).2, fun e he => ?_, ?_⟩
  · rcases List.mem_append.1 he with he | he
    · exact Code.emits_bind (emits_get hheight) (Code.emits_pure _) e he
    · exact Code.emits_bind (emits_get htarget) (Code.emits_pure _) e he
  · have hdaemon : (height.val r.toEnv).1 =
        (target.val r.toEnv).2.m_daemonBlockChainHeight.height := get_eq_height ..
    have htarget' : (target.val r.toEnv).1 =
        (target.val r.toEnv).2.m_daemonBlockChainTargetHeight.height := get_eq_height ..
    rw [← hdaemon, ← htarget', List.map_append]
    simp only [List.cons_append, List.append_assoc]
    rfl

theorem log_resetWallet_none {r : ScreenEnv} (h : r.wallet = none) :
    resetWallet.log r = [.app (.show none)] := by
  simp [resetWallet, h]

theorem log_resetWallet_some {w : Wallet} {r : ScreenEnv} (h : r.wallet = some w) :
    resetWallet.log r =
      [.app (.show (some w)), .app (.setDelegate w),
        .app (.call (.wallet w.impl .address) (r.answers _)),
        .text .addressLabel (w.address.val r.toEnv),
        .app (.call (.wallet w.impl .seed) (r.answers _)),
        .text .mnemonicLabel (w.getSeed.val r.toEnv)] ++
      (refreshBalance (some w)).log r ++ (refreshBlockHeights (some w)).log r := by
  simp only [resetWallet, Code.log_ask_bind, h]
  rfl

/-- The effect writes a label or asks for what the labels show, or is one of
    those by which the screen comes to know a wallet. -/
def Looks : ScreenEffect → Prop
  | .heights .. | .text .. | .app (.show _) | .app (.setDelegate _) => True
  | .app (.call (.wallet _ .address) _) | .app (.call (.wallet _ .seed) _)
  | .app (.call (.wallet _ .balance) _) | .app (.call (.wallet _ .blockChainHeight) _)
  | .app (.call (.wallet _ .daemonBlockChainHeight) _)
  | .app (.call (.wallet _ .daemonBlockChainTargetHeight) _) => True
  | .app _ => False

theorem looks_refreshBalance (wallet : Option Wallet) (r : ScreenEnv) :
    (refreshBalance wallet).Emits Looks r := by
  rcases wallet with _ | w
  · intro e he
    cases List.mem_singleton.1 he
    trivial
  · intro e he
    rw [log_refreshBalance] at he
    simp only [List.mem_cons, List.not_mem_nil, or_false] at he
    rcases he with rfl | rfl <;> trivial

theorem looks_refreshBlockHeights (wallet : Option Wallet) (r : ScreenEnv) :
    (refreshBlockHeights wallet).Emits Looks r := by
  rcases wallet with _ | w
  · exact Code.emits_pure _
  · obtain ⟨qs, m, hqs, hlog⟩ := log_refreshBlockHeights w r
    intro e he
    rw [hlog] at he
    simp only [List.cons_append, List.mem_cons, List.mem_append, List.mem_map, List.not_mem_nil,
      or_false] at he
    rcases he with rfl | ⟨q, hq, rfl⟩ | rfl | rfl
    · trivial
    · have hquery := hqs q hq
      unfold Queries at hquery
      split at hquery
      · trivial
      · trivial
      · cases hquery
    · trivial
    · trivial

theorem looks_resetWallet (r : ScreenEnv) : resetWallet.Emits Looks r := by
  intro e he
  rcases hw : r.wallet with _ | w
  · rw [log_resetWallet_none hw] at he
    cases List.mem_singleton.1 he
    trivial
  · rw [log_resetWallet_some hw] at he
    rcases List.mem_append.1 he with he | he
    · rcases List.mem_append.1 he with he | he
      · simp only [List.mem_cons, List.not_mem_nil, or_false] at he
        rcases he with rfl | rfl | rfl | rfl | rfl | rfl <;> trivial
      · exact looks_refreshBalance _ r e he
    · exact looks_refreshBlockHeights _ r e he

theorem looks_redraw (wallet : Option Wallet) (rs : List Redraw) (r : ScreenEnv) :
    (redraw wallet rs).Emits Looks r := by
  induction rs with
  | nil => exact Code.emits_pure _
  | cons k rs ih =>
    cases k with
    | balance => exact Code.emits_bind (looks_refreshBalance wallet r) ih
    | blockHeights => exact Code.emits_bind (looks_refreshBlockHeights wallet r) ih

/-! ## The screen without its labels -/

/-- The effect on the app, if it is one. -/
def app? : ScreenEffect → Option Effect
  | .app e => some e
  | .heights .. | .text .. => none

theorem filterMap_app?_map (es : List Effect) : (es.map ScreenEffect.app).filterMap app? = es := by
  rw [List.filterMap_map]
  exact List.filterMap_some

/-- On the app, the screen does what `WalletScreen` says, and then looks the
    daemon heights up. -/
theorem app_resetWallet (r : ScreenEnv) :
    ∃ qs : List Effect, (∀ e ∈ qs, ∃ w, r.wallet = some w ∧ Queries w e) ∧
      (resetWallet.log r).filterMap app? = WalletViewController.resetWallet.log r.toEnv ++ qs := by
  rw [WalletViewController.log_resetWallet]
  rcases hw : r.wallet with _ | w
  · refine ⟨[], ?_, ?_⟩
    · intro e he
      cases he
    · rw [log_resetWallet_none hw]
      rfl
  · obtain ⟨qs, m, hqs, hlog⟩ := log_refreshBlockHeights w r
    refine ⟨qs, fun e he => ⟨w, rfl, hqs e he⟩, ?_⟩
    have hnil : ∀ s, [ScreenEffect.heights w m, .text .blockHeightsLabel s].filterMap app? = [] :=
      fun _ => rfl
    rw [log_resetWallet_some hw, hlog, List.filterMap_append, List.filterMap_append,
      List.filterMap_append, ← List.map_cons, filterMap_app?_map, hnil, List.append_nil]
    rfl

end WalletViewController.Labels

end Monujo
