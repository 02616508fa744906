/-
  `TransactionHistoryViewController.swift` and
  `TransactionDetailViewController.swift`.

  The table keeps the wrappers it fetched when it appeared, reads them whenever
  it draws a row, and hands the selected one to the detail screen.
-/
import Monujo.Model.Bridge
import Monujo.Model.Swift

namespace Monujo

open Monero

/-- The effect reads a native record, or formats an amount. -/
def Reading : Effect → Prop
  | .call (.info ..) _ | .call (.static _) _ => True
  | _ => False

namespace TransactionHistoryViewController

/-- `viewWillAppear`: the wallet the screen shows from then on and the rows it
    keeps, unless there is no current wallet. -/
def viewWillAppear : AppCode (Option (Wallet × List TransactionInfo)) := do
  let env ← Code.ask
  match env.wallet with
  | none => return none
  | some wallet =>
    let transactions ← wallet.history.getAll
    return some (wallet, transactions)

theorem val_viewWillAppear (env : Env) : viewWillAppear.val env = env.wallet.map fun w =>
    (w, List.map TransactionInfo.mk (env.answers (.history w.impl .getAll))) := by
  cases h : env.wallet with
  | none => simp [viewWillAppear, h]
  | some w => simp [viewWillAppear, h]; rfl

theorem log_viewWillAppear (env : Env) : viewWillAppear.log env = env.wallet.elim [] fun w =>
    [.call (.history w.impl .getAll) (env.answers _)] := by
  cases h : env.wallet with
  | none => simp [viewWillAppear, h]
  | some w => simp [viewWillAppear, h]; rfl

/-- What a cell shows. -/
structure Cell where
  direction : Int32
  status : String
  amount : UInt64
  deriving DecidableEq

/-- The text of the status label. -/
def status (transaction : TransactionInfo) : AppCode String := do
  if ← transaction.failed then return "Failed"
  if ← transaction.pending then return "Pending"
  return "Completed"

/-- `cellForRowAt`, of the row's transaction. -/
def cellForRow (transaction : TransactionInfo) : AppCode Cell := do
  let direction ← transaction.direction
  let status ← status transaction
  let amount ← transaction.amount
  return ⟨direction, status, amount⟩

theorem reading_cellForRow (transaction : TransactionInfo) (env : Env) :
    (cellForRow transaction).Emits Reading env := by
  have hstatus : (status transaction).Emits Reading env := by
    refine Code.emits_bind (emits_call trivial) (Code.emits_ite (Code.emits_pure _) ?_)
    exact Code.emits_bind (emits_call trivial)
      (Code.emits_ite (Code.emits_pure _) (Code.emits_pure _))
  refine Code.emits_bind (emits_call trivial) (Code.emits_bind hstatus ?_)
  exact Code.emits_bind (emits_call trivial) (Code.emits_pure _)

end TransactionHistoryViewController

namespace TransactionDetailViewController

/-- `viewWillAppear`: the text of the screen.  The address of a transfer stands
    in its block as source text, not as an interpolation. -/
def viewWillAppear (transaction : TransactionInfo) (m_transfers : List Transfer) :
    AppCode String := do
  let hash ← transaction.hash
  let paymentId ← transaction.paymentId
  let amount ← Wallet.displayAmount (← transaction.amount)
  let fee ← Wallet.displayAmount (← transaction.fee)
  let text := "Hash " ++ optional hash ++ "\nPayment ID: " ++ optional paymentId ++
    "\n\nAmount: " ++ optional amount ++ "\nFee: " ++ optional fee ++ "\nTransfers:"
  let transfers ← transaction.transfers m_transfers
  transfers.foldlM (fun (text : String) (t : Transfer) => do
    let amount ← Wallet.displayAmount t.amount
    return text ++ "\nAddress: (t.address)" ++ "\nAmount: " ++ optional amount ++
      "\n-----------------") text

theorem val_viewWillAppear (transaction : TransactionInfo) (m_transfers : List Transfer)
    (env : Env) : (viewWillAppear transaction m_transfers).val env =
    ((transaction.transfers m_transfers).val env).foldl
      (fun text t => text ++ "\nAddress: (t.address)" ++ "\nAmount: " ++
        optional ((Wallet.displayAmount t.amount).val env) ++ "\n-----------------")
      ("Hash " ++ optional (transaction.hash.val env) ++
        "\nPayment ID: " ++ optional (transaction.paymentId.val env) ++
        "\n\nAmount: " ++ optional ((Wallet.displayAmount (transaction.amount.val env)).val env) ++
        "\nFee: " ++ optional ((Wallet.displayAmount (transaction.fee.val env)).val env) ++
        "\nTransfers:") := by
  rw [viewWillAppear, Code.val_bind, Code.val_bind, Code.val_bind, Code.val_bind, Code.val_bind,
    Code.val_bind, Code.val_bind, Code.val_foldlM]
  rfl

theorem reading_viewWillAppear (transaction : TransactionInfo) (m_transfers : List Transfer)
    (env : Env) : (viewWillAppear transaction m_transfers).Emits Reading env := by
  have hhash : transaction.hash.Emits Reading env :=
    Code.emits_bind (emits_call trivial) (Code.emits_pure _)
  have hpaymentId : transaction.paymentId.Emits Reading env :=
    Code.emits_bind (emits_call trivial) (Code.emits_pure _)
  have hdisplay : ∀ a, (Wallet.displayAmount a).Emits Reading env :=
    fun a => Code.emits_bind (emits_call trivial) (Code.emits_pure _)
  have htransfers : (transaction.transfers m_transfers).Emits Reading env :=
    Code.emits_ite (Code.emits_pure _) (Code.emits_bind (emits_call trivial) (Code.emits_pure _))
  refine Code.emits_bind hhash (Code.emits_bind hpaymentId ?_)
  refine Code.emits_bind (emits_call trivial) (Code.emits_bind (hdisplay _) ?_)
  refine Code.emits_bind (emits_call trivial) (Code.emits_bind (hdisplay _) ?_)
  refine Code.emits_bind htransfers (Code.emits_foldlM (fun text t => ?_) _ _)
  exact Code.emits_bind (hdisplay _) (Code.emits_pure _)

end TransactionDetailViewController

end Monujo
