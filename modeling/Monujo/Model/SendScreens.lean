/-
  `CreateTransactionViewController.swift` and
  `ConfirmTransactionViewController.swift`.

  The create screen checks its fields before the segue, and prepares the
  confirm screen with a pending transaction; the confirm screen shows it.
-/
import Monujo.Model.Bridge
import Monujo.Model.Swift

namespace Monujo

open Monero

/-! ## The screens -/

/-- The texts of the fields of the create screen. -/
structure Form where
  addressTV : Option String
  amountTF : Option String
  paymentIdTF : Option String
  mixinCountTF : Option String
  deriving DecidableEq

structure ConfirmTransactionViewController where
  wallet : Wallet
  transaction : Option PendingTransaction
  address : String
  paymentId : String
  mixinCount : UInt32
  deriving DecidableEq

namespace CreateTransactionViewController

variable (wallet : Wallet) (form : Form)

def shouldPerformSegue : AppCode Bool := do
  match form.amountTF with
  | none => return false
  | some rawAmount =>
    if rawAmount = "" then
      return false
    let amountxmr ← Wallet.amountFromString rawAmount
    if amountxmr > 0 then
      return amountxmr ≤ (← wallet.unlockedBalance)
    return false

/-- `prepare(for:sender:)`: create the transaction and hand it to the confirm
    screen, with the values it was created from. -/
def prepare (destinationVC : ConfirmTransactionViewController) :
    AppCode ConfirmTransactionViewController := do
  match form.addressTV, form.amountTF with
  | some address, some rawAmount =>
    if address ≠ "" ∧ rawAmount ≠ "" then
      let amount ← Wallet.amountFromString rawAmount
      let paymentId := form.paymentIdTF.getD ""
      let mixinCount := (UInt32.parse (form.mixinCountTF.getD "")).getD 0
      let pendingTransaction ← wallet.createTransaction address paymentId amount mixinCount 1
      return { destinationVC with
        transaction := some pendingTransaction
        address := address
        paymentId := paymentId
        mixinCount := mixinCount }
    else return destinationVC
  | _, _ => return destinationVC

/-- Without an amount the segue is refused at once. -/
theorem shouldPerformSegue_none (h : form.amountTF.getD "" = "") (env : Env) :
    (shouldPerformSegue wallet form).val env = false ∧
      (shouldPerformSegue wallet form).log env = [] := by
  obtain ⟨addressTV, amountTF, paymentIdTF, mixinCountTF⟩ := form
  cases amountTF with
  | none => exact ⟨rfl, rfl⟩
  | some rawAmount =>
    simp only [shouldPerformSegue, if_pos (show rawAmount = "" from h)]
    exact ⟨rfl, rfl⟩

/-- What is checked. -/
theorem shouldPerformSegue_some {rawAmount : String} (hamount : form.amountTF = some rawAmount)
    (hne : rawAmount ≠ "") (env : Env) :
    let amount := (Wallet.amountFromString rawAmount).val env
    ((shouldPerformSegue wallet form).val env = true ↔
      0 < amount ∧ amount ≤ wallet.unlockedBalance.val env) ∧
    (shouldPerformSegue wallet form).log env = (Wallet.amountFromString rawAmount).log env ++
      if amount > 0 then wallet.unlockedBalance.log env else [] := by
  obtain ⟨addressTV, amountTF, paymentIdTF, mixinCountTF⟩ := form
  cases hamount
  simp only [shouldPerformSegue, if_neg hne, Code.val_bind, Code.log_bind, Code.val_ite,
    Code.log_ite, Code.val_pure, Code.log_pure, List.append_nil, gt_iff_lt]
  refine ⟨?_, trivial⟩
  split_ifs with hpos
  · simp [hpos]
  · simp [hpos]

/-- The segue is prepared only with an address and an amount. -/
theorem prepare_none
    (h : form.addressTV.getD "" = "" ∨ form.amountTF.getD "" = "")
    (destinationVC : ConfirmTransactionViewController) (env : Env) :
    (prepare wallet form destinationVC).val env = destinationVC ∧
      (prepare wallet form destinationVC).log env = [] := by
  obtain ⟨address, amount, paymentId, mixin⟩ := form
  cases address with
  | none => exact ⟨rfl, rfl⟩
  | some address =>
    cases amount with
    | none => exact ⟨rfl, rfl⟩
    | some rawAmount =>
      have hne : ¬ (address ≠ "" ∧ rawAmount ≠ "") := by
        rintro ⟨ha, hr⟩
        rcases h with h | h
        · exact ha h
        · exact hr h
      simp only [prepare, if_neg hne]
      exact ⟨rfl, rfl⟩

/-- What is prepared. -/
theorem prepare_some {address rawAmount : String}
    (haddress : form.addressTV = some address) (hne : address ≠ "")
    (hamount : form.amountTF = some rawAmount) (hne' : rawAmount ≠ "")
    (destinationVC : ConfirmTransactionViewController) (env : Env) :
    let amount := (Wallet.amountFromString rawAmount).val env
    let paymentId := form.paymentIdTF.getD ""
    let mixinCount := (UInt32.parse (form.mixinCountTF.getD "")).getD 0
    let create := wallet.createTransaction address paymentId amount mixinCount 1
    (prepare wallet form destinationVC).val env = { destinationVC with
      transaction := some (create.val env)
      address := address
      paymentId := paymentId
      mixinCount := mixinCount } ∧
    (prepare wallet form destinationVC).log env =
      (Wallet.amountFromString rawAmount).log env ++ create.log env := by
  obtain ⟨addressTV, amountTF, paymentIdTF, mixinCountTF⟩ := form
  cases haddress
  cases hamount
  simp only [prepare, if_pos (And.intro hne hne')]
  exact ⟨rfl, rfl⟩

end CreateTransactionViewController

namespace ConfirmTransactionViewController

/-- The screen as the storyboard makes it. -/
def new (wallet : Wallet) : ConfirmTransactionViewController := ⟨wallet, none, "", "", 0⟩

/-- The message about a transaction the library has made. -/
def message (address paymentId amount fee : String) (mixinCount : UInt32) : String :=
  "Please confirm transaction:\n"
    ++ (if address = "" then "" else "\nAddress: " ++ address)
    ++ (if paymentId = "" then "" else "\nPayment ID: " ++ paymentId)
    ++ "\n\nAmount: " ++ optional amount ++ "\nFee: " ++ optional fee
    ++ "\n\nMixin: " ++ toString mixinCount

variable (self : ConfirmTransactionViewController)

/-- `viewDidLoad`: the text of the screen, unless it traps on a missing
    transaction. -/
def viewDidLoad : AppCode (Option String) := do
  match self.transaction with
  | none => return none
  | some transaction =>
    let status ← transaction.status
    if status ≠ 0 then
      return some ("Can't create transaction: " ++ optional (← transaction.errorString))
    let amount ← Wallet.displayAmount (← transaction.amount)
    let fee ← Wallet.displayAmount (← transaction.fee)
    return some (message self.address self.paymentId amount fee self.mixinCount)

/-- The effect formats an amount, or asks the library about `t`; it does not
    commit `t`. -/
def Asks (t : PendingTransaction) : Effect → Prop
  | .call (.static _) _ => True
  | .call (.pending t' c) _ => t' = t.internal ∧ c ≠ .commit
  | _ => False

theorem asks_viewDidLoad {t : PendingTransaction} (h : self.transaction = some t) (env : Env) :
    self.viewDidLoad.Emits (Asks t) env := by
  obtain ⟨wallet, transaction, address, paymentId, mixinCount⟩ := self
  cases h
  have hcall : ∀ c : PendingCall, c ≠ .commit →
      (call (.pending t.internal c)).Emits (Asks t) env := by
    intro c hc
    exact emits_call ⟨rfl, hc⟩
  have hdisplay : ∀ a, (Wallet.displayAmount a).Emits (Asks t) env := by
    intro a
    exact Code.emits_bind (emits_call trivial) (Code.emits_pure _)
  refine Code.emits_bind (hcall .status (by decide)) (Code.emits_ite ?_ ?_)
  · refine Code.emits_bind (Code.emits_bind ?_ (Code.emits_pure _)) (Code.emits_pure _)
    exact hcall .errorString (by decide)
  · refine Code.emits_bind (hcall .amount (by decide)) (Code.emits_bind (hdisplay _) ?_)
    refine Code.emits_bind (hcall .fee (by decide)) (Code.emits_bind (hdisplay _) ?_)
    exact Code.emits_pure _

/-- Whatever is loaded, it asks about the transaction it was handed. -/
theorem emits_viewDidLoad (env : Env) :
    self.viewDidLoad.Emits (fun e => ∃ t, self.transaction = some t ∧ Asks t e) env := by
  intro e he
  rcases h : self.transaction with _ | t
  · simp only [viewDidLoad, h] at he
    cases he
  · exact ⟨t, rfl, asks_viewDidLoad self h env e he⟩

/-- The screen traps on a missing transaction, and only there. -/
theorem viewDidLoad_eq_none_iff (env : Env) :
    self.viewDidLoad.val env = none ↔ self.transaction = none := by
  obtain ⟨wallet, transaction, address, paymentId, mixinCount⟩ := self
  cases transaction with
  | none => exact ⟨fun _ => rfl, fun _ => rfl⟩
  | some t =>
    simp only [viewDidLoad, Code.val_bind, Code.val_ite, Code.val_pure, reduceCtorEq, iff_false]
    split <;> exact Option.some_ne_none _

/-- `confirmButtonClicked`: the screen is dismissed, and that is all. -/
def confirmButtonClicked (_self : ConfirmTransactionViewController) : AppCode PUnit := return

end ConfirmTransactionViewController

end Monujo
