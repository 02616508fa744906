/-
  The native wallet library, as its header `wallet2_api.h` declares it: the
  calls the app can make and the types of their answers.

  The library itself is not part of the repository.  What it answers is left
  open: code that calls it reads the answers from its environment, and the
  theorems hold for all of them.  `Config` is the part of the library's state
  that its setters are documented to set.
-/
import Mathlib.Data.Nat.Notation
import Mathlib.Logic.Function.Basic

namespace Monero

/-- `Monero::Wallet *`. -/
abbrev Handle := ℕ

/-- `Monero::PendingTransaction *`. -/
abbrev Pending := ℕ

/-- `Monero::TransactionInfo *`. -/
abbrev Info := ℕ

/-- `Wallet::Status`. -/
inductive Status where
  | ok | error | critical
  deriving DecidableEq

/-- `Wallet::ConnectionStatus`. -/
inductive ConnectionStatus where
  | disconnected | connected | wrongVersion
  deriving DecidableEq

/-- `TransactionInfo::Transfer`. -/
structure Transfer where
  amount : UInt64
  address : String
  deriving DecidableEq

/-- The methods of `Monero::Wallet` that the bridge calls. -/
inductive WalletCall where
  | seed
  | getSeedLanguage
  | setSeedLanguage (arg : String)
  | status
  | errorString
  | setPassword (password : String)
  | address
  | integratedAddress (paymentId : String)
  | store (path : String)
  | init (daemonAddress : String) (upperTransactionSizeLimit : UInt64)
  | initAsync (daemonAddress : String) (upperTransactionSizeLimit : UInt64)
  | setRefreshFromBlockHeight (height : UInt64)
  | setRecoveringFromSeed (recoveringFromSeed : Bool)
  | connectToDaemon
  | connected
  | setTrustedDaemon (arg : Bool)
  | balance
  | unlockedBalance
  | blockChainHeight
  | daemonBlockChainHeight
  | daemonBlockChainTargetHeight
  | synchronized
  | refresh
  | refreshAsync
  | setAutoRefreshInterval (millis : Int32)
  | autoRefreshInterval
  | createTransaction (dstAddr paymentId : String) (amount : UInt64) (mixinCount : UInt32)
      (priority : Int32)
  | disposeTransaction (t : Pending)
  | history
  /-- The listener is the `WalletListenerImpl` of the wrapper of `owner`. -/
  | setListener (owner : Handle)
  deriving DecidableEq

/-- The static methods of `Monero::Wallet`. -/
inductive StaticCall where
  | displayAmount (amount : UInt64)
  | amountFromString (amount : String)
  | genPaymentId
  deriving DecidableEq

/-- The methods of `Monero::WalletManager` that the bridge calls.  A path is
    absent where the app passes a null string. -/
inductive ManagerCall where
  | createWallet (path : Option String) (password language : String) (testnet : Bool)
  | openWallet (path : Option String) (password : String) (testnet : Bool)
  | recoveryWallet (path : Option String) (memo : String) (testnet : Bool) (restoreHeight : UInt64)
  | closeWallet (wallet : Handle)
  | walletExists (path : String)
  | findWallets (path : String)
  | errorString
  | setDaemonAddress (address : String)
  deriving DecidableEq

/-- The methods of `Monero::TransactionHistory`. -/
inductive HistoryCall where
  | count | getAll | refresh
  deriving DecidableEq

/-- The methods of `Monero::TransactionInfo` that the screens read. -/
inductive InfoCall where
  | direction | isPending | isFailed | amount | fee | hash | paymentId | transfers
  deriving DecidableEq

/-- The methods of `Monero::PendingTransaction`. -/
inductive PendingCall where
  | status | errorString | commit | amount | fee | dust
  deriving DecidableEq

/-- A call of the library, with the object it is made on. -/
inductive Call where
  | wallet (h : Handle) (c : WalletCall)
  | static (c : StaticCall)
  | manager (c : ManagerCall)
  | history (h : Handle) (c : HistoryCall)
  | info (i : Info) (c : InfoCall)
  | pending (t : Pending) (c : PendingCall)
  deriving DecidableEq

/-- The type of a wallet's answer. -/
def WalletCall.Ans : WalletCall → Type
  | .seed | .getSeedLanguage | .errorString | .address | .integratedAddress _ => String
  | .setPassword _ | .store _ | .init .. | .connectToDaemon | .synchronized | .refresh => Bool
  | .balance | .unlockedBalance | .blockChainHeight | .daemonBlockChainHeight
  | .daemonBlockChainTargetHeight => UInt64
  | .status => Status
  | .connected => ConnectionStatus
  | .autoRefreshInterval => Int32
  | .createTransaction .. => Pending
  | .setSeedLanguage _ | .initAsync .. | .setRefreshFromBlockHeight _ | .setRecoveringFromSeed _
  | .setTrustedDaemon _ | .refreshAsync | .setAutoRefreshInterval _ | .disposeTransaction _
  | .history | .setListener _ => Unit

/-- The type of the answer to a call.  `Monero::Wallet::history` hands out the
    one history of its wallet, so histories are named by their wallets. -/
def Call.Ans : Call → Type
  | .wallet _ c => c.Ans
  | .static (.displayAmount _) | .static .genPaymentId => String
  | .static (.amountFromString _) => UInt64
  | .manager (.createWallet ..) | .manager (.openWallet ..) | .manager (.recoveryWallet ..) => Handle
  | .manager (.closeWallet _) | .manager (.walletExists _) => Bool
  | .manager (.findWallets _) => List String
  | .manager .errorString => String
  | .manager (.setDaemonAddress _) => Unit
  | .history _ .count => Int32
  | .history _ .getAll => List Info
  | .history _ .refresh => Unit
  | .info _ .direction => Int32
  | .info _ .isPending | .info _ .isFailed => Bool
  | .info _ .amount | .info _ .fee => UInt64
  | .info _ .hash | .info _ .paymentId => String
  | .info _ .transfers => List Transfer
  | .pending _ .status => Int32
  | .pending _ .errorString => String
  | .pending _ .commit => Bool
  | .pending _ .amount | .pending _ .fee | .pending _ .dust => UInt64

/-- What the library answers to each call. -/
abbrev Answers := (c : Call) → c.Ans

instance : (c : WalletCall) → Inhabited c.Ans
  | .seed | .getSeedLanguage | .errorString | .address | .integratedAddress _ => ⟨""⟩
  | .setPassword _ | .store _ | .init .. | .connectToDaemon | .synchronized | .refresh => ⟨true⟩
  | .balance | .unlockedBalance | .blockChainHeight | .daemonBlockChainHeight
  | .daemonBlockChainTargetHeight => ⟨(0 : UInt64)⟩
  | .status => ⟨Status.ok⟩
  | .connected => ⟨ConnectionStatus.connected⟩
  | .autoRefreshInterval => ⟨(0 : Int32)⟩
  | .createTransaction .. => ⟨(0 : ℕ)⟩
  | .setSeedLanguage _ | .initAsync .. | .setRefreshFromBlockHeight _ | .setRecoveringFromSeed _
  | .setTrustedDaemon _ | .refreshAsync | .setAutoRefreshInterval _ | .disposeTransaction _
  | .history | .setListener _ => ⟨()⟩

/-- A default answer to every call: the library reports success. -/
instance : (c : Call) → Inhabited c.Ans
  | .wallet _ c => inferInstanceAs (Inhabited c.Ans)
  | .static (.displayAmount _) | .static .genPaymentId => ⟨""⟩
  | .static (.amountFromString _) => ⟨(0 : UInt64)⟩
  | .manager (.createWallet ..) | .manager (.openWallet ..) | .manager (.recoveryWallet ..) =>
    ⟨(0 : ℕ)⟩
  | .manager (.closeWallet _) | .manager (.walletExists _) => ⟨true⟩
  | .manager (.findWallets _) => ⟨([] : List String)⟩
  | .manager .errorString => ⟨""⟩
  | .manager (.setDaemonAddress _) => ⟨()⟩
  | .history _ .count => ⟨(0 : Int32)⟩
  | .history _ .getAll => ⟨([] : List Info)⟩
  | .history _ .refresh => ⟨()⟩
  | .info _ .direction => ⟨(0 : Int32)⟩
  | .info _ .isPending | .info _ .isFailed => ⟨false⟩
  | .info _ .amount | .info _ .fee => ⟨(0 : UInt64)⟩
  | .info _ .hash | .info _ .paymentId => ⟨""⟩
  | .info _ .transfers => ⟨([] : List Transfer)⟩
  | .pending _ .status => ⟨(0 : Int32)⟩
  | .pending _ .errorString => ⟨""⟩
  | .pending _ .commit => ⟨true⟩
  | .pending _ .amount | .pending _ .fee | .pending _ .dust => ⟨(0 : UInt64)⟩

/-! ## Configuration -/

/-- The settings of one wallet. -/
structure WalletConfig where
  seedLanguage : String
  trustedDaemon : Bool
  autoRefreshInterval : Int32
  recoveringFromSeed : Bool
  refreshFromBlockHeight : UInt64
  daemonAddress : String
  upperTransactionSizeLimit : UInt64
  listener : Option Handle
  deriving DecidableEq

/-- The settings of the library: the manager's daemon address and the settings
    of every wallet. -/
structure Config where
  daemonAddress : String
  wallet : Handle → WalletConfig

/-- What a setter sets. -/
def WalletConfig.apply (s : WalletConfig) : WalletCall → WalletConfig
  | .setSeedLanguage arg => { s with seedLanguage := arg }
  | .setTrustedDaemon arg => { s with trustedDaemon := arg }
  | .setAutoRefreshInterval millis => { s with autoRefreshInterval := millis }
  | .setRecoveringFromSeed arg => { s with recoveringFromSeed := arg }
  | .setRefreshFromBlockHeight height => { s with refreshFromBlockHeight := height }
  | .init address limit | .initAsync address limit =>
    { s with daemonAddress := address, upperTransactionSizeLimit := limit }
  | .setListener owner => { s with listener := some owner }
  | _ => s

def Config.apply (s : Config) : Call → Config
  | .wallet h c => { s with wallet := Function.update s.wallet h ((s.wallet h).apply c) }
  | .manager (.setDaemonAddress address) => { s with daemonAddress := address }
  | _ => s

end Monero
