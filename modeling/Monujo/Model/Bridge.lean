/-
  The Objective-C bridge: `WalletManager.mm`, `Wallet.mm`,
  `TransactionHistory.mm`, `TransactionInfo.mm` and `PendingTransaction.mm`.

  Each method is the code of its source: the native calls it makes, on which
  object, and what it makes of their answers.  Strings cross the bridge as C
  strings (`cstr`).  The two cached daemon heights are modelled in
  `DaemonHeights`; `amountFromDouble` is left out.
-/
import Mathlib.Data.List.TakeWhile
import Monujo.Model.App

namespace Monujo

open Monero

/-- A string that goes through `UTF8String` or `c_str`: it ends at the first
    NUL. -/
def cstr (s : String) : String := String.ofList (s.toList.takeWhile (· != Char.ofNat 0))

/-- The string contains no NUL. -/
def NoNul (s : String) : Prop := Char.ofNat 0 ∉ s.toList

instance : DecidablePred NoNul := fun s => inferInstanceAs (Decidable (Char.ofNat 0 ∉ s.toList))

theorem cstr_eq_self_iff {s : String} : cstr s = s ↔ NoNul s := by
  have hlist : cstr s = s ↔ s.toList.takeWhile (· != Char.ofNat 0) = s.toList := by
    constructor
    · intro h
      rw [← String.toList_ofList (l := s.toList.takeWhile _)]
      exact congrArg String.toList h
    · intro h; rw [cstr, h, String.ofList_toList]
  rw [hlist, List.takeWhile_eq_self_iff, NoNul]
  constructor
  · exact fun h hs => by simpa using h _ hs
  · exact fun h c hc => by simpa using fun he : c = Char.ofNat 0 => h (he ▸ hc)

theorem cstr_of_noNul {s : String} (h : NoNul s) : cstr s = s := cstr_eq_self_iff.2 h

/-- The Objective-C class `TransactionHistory`: the history of one wallet. -/
structure TransactionHistory where
  impl : Handle
  deriving DecidableEq

/-- The Objective-C class `TransactionInfo`. -/
structure TransactionInfo where
  impl : Info
  deriving DecidableEq

/-- The Objective-C class `PendingTransaction`. -/
structure PendingTransaction where
  internal : Pending
  deriving DecidableEq

/-! ## TransactionHistory.mm -/

namespace TransactionHistory

def initWithWallet (wallet : Handle) : AppCode TransactionHistory := do
  call (.wallet wallet .history)
  return ⟨wallet⟩

variable (self : TransactionHistory)

def count : AppCode Int32 := call (.history self.impl .count)

def getAll : AppCode (List TransactionInfo) := do
  let a ← call (.history self.impl .getAll)
  return List.map TransactionInfo.mk a

def refresh : AppCode Unit := call (.history self.impl .refresh)

end TransactionHistory

/-! ## TransactionInfo.mm -/

namespace TransactionInfo

variable (self : TransactionInfo)

def direction : AppCode Int32 := call (.info self.impl .direction)

def pending : AppCode Bool := call (.info self.impl .isPending)

def failed : AppCode Bool := call (.info self.impl .isFailed)

def amount : AppCode UInt64 := call (.info self.impl .amount)

def fee : AppCode UInt64 := call (.info self.impl .fee)

def hash : AppCode String := do return cstr (← call (.info self.impl .hash))

def paymentId : AppCode String := do return cstr (← call (.info self.impl .paymentId))

/-- `m_transfers` keeps the transfers read before, unless there were none. -/
def transfers (m_transfers : List Transfer) : AppCode (List Transfer) := do
  if m_transfers.length > 0 then
    return m_transfers
  let ts ← call (.info self.impl .transfers)
  return List.map (fun t : Transfer => ⟨t.amount, cstr t.address⟩) ts

end TransactionInfo

/-! ## Wallet.mm -/

namespace Wallet

/-- `init:` wraps the native wallet, and installs a `WalletListenerImpl` that
    points back to the wrapper. -/
def init (internal : Handle) : AppCode Wallet := do
  let _ ← TransactionHistory.initWithWallet internal
  call (.wallet internal (.setListener internal))
  return ⟨internal⟩

variable (self : Wallet)

/-- The native wallet is closed with its wrapper. -/
def dealloc : AppCode Unit := do
  let _ ← call (.manager (.closeWallet self.impl))

def initWallet (daemonAddress : String) (upperTransactionLimit : UInt64) (_isRecovering : Bool)
    (_restoreHeight : UInt64) : AppCode Bool :=
  call (.wallet self.impl (.init (cstr daemonAddress) upperTransactionLimit))

def initWalletAsync (daemonAddress : String) (upperTransactionLimit : UInt64) (isRecovering : Bool)
    (restoreHeight : UInt64) : AppCode Unit := do
  if isRecovering then
    call (.wallet self.impl (.setRecoveringFromSeed true))
    call (.wallet self.impl (.setRefreshFromBlockHeight restoreHeight))
  call (.wallet self.impl (.initAsync (cstr daemonAddress) upperTransactionLimit))

def getSeed : AppCode String := do return cstr (← call (.wallet self.impl .seed))

def getSeedLanguage : AppCode String := do
  return cstr (← call (.wallet self.impl .getSeedLanguage))

def setSeedLanguage (lang : String) : AppCode Unit :=
  call (.wallet self.impl (.setSeedLanguage (cstr lang)))

/-- The native status is an enumeration of three values; returned as a `bool`,
    every value but the first is true. -/
def connected : AppCode Bool := do
  let status : ConnectionStatus ← call (.wallet self.impl .connected)
  return status != .disconnected

def synchronized : AppCode Bool := call (.wallet self.impl .synchronized)

def errorString : AppCode String := do return cstr (← call (.wallet self.impl .errorString))

def setPassword (password : String) : AppCode Bool :=
  call (.wallet self.impl (.setPassword (cstr password)))

def address : AppCode String := do return cstr (← call (.wallet self.impl .address))

def storePath (path : String) : AppCode Bool := call (.wallet self.impl (.store (cstr path)))

def store : AppCode Bool := self.storePath ""

def connectToDaemon : AppCode Bool := call (.wallet self.impl .connectToDaemon)

def setTrustedDaemon (arg : Bool) : AppCode Unit := call (.wallet self.impl (.setTrustedDaemon arg))

def balance : AppCode UInt64 := call (.wallet self.impl .balance)

def unlockedBalance : AppCode UInt64 := call (.wallet self.impl .unlockedBalance)

def blockChainHeight : AppCode UInt64 := call (.wallet self.impl .blockChainHeight)

/-- `m_history`. -/
def history : TransactionHistory := ⟨self.impl⟩

def refresh : AppCode Bool := do
  let result ← call (.wallet self.impl .refresh)
  self.history.refresh
  return result

theorem log_refresh (env : Env) : self.refresh.log env =
    [.call (.wallet self.impl .refresh) (env.answers _),
      .call (.history self.impl .refresh) (env.answers _)] := rfl

def refreshAsync : AppCode Unit := call (.wallet self.impl .refreshAsync)

def setAutoRefreshInterval (seconds : Int32) : AppCode Unit :=
  call (.wallet self.impl (.setAutoRefreshInterval seconds))

def autoRefreshInterval : AppCode Int32 := call (.wallet self.impl .autoRefreshInterval)

def createTransaction (dstAddr paymentId : String) (amount : UInt64) (mixinCount : UInt32)
    (priority : Int32) : AppCode PendingTransaction := do
  let ptImpl ← call (.wallet self.impl
    (.createTransaction (cstr dstAddr) (cstr paymentId) amount mixinCount priority))
  return ⟨ptImpl⟩

def disposeTransaction (t : PendingTransaction) : AppCode Unit :=
  call (.wallet self.impl (.disposeTransaction t.internal))

def generatePaymentId : AppCode String := do return cstr (← call (.static .genPaymentId))

def integratedAddress (paymentId : String) : AppCode String := do
  return cstr (← call (.wallet self.impl (.integratedAddress (cstr paymentId))))

def displayAmount (amount : UInt64) : AppCode String := do
  return cstr (← call (.static (.displayAmount amount)))

def amountFromString (amount : String) : AppCode UInt64 :=
  call (.static (.amountFromString (cstr amount)))

end Wallet

/-! ## WalletManager.mm -/

namespace WalletManager

/-- The path is absent when the app passes `nil`, which it does for want of a
    document directory.  The bridge then dies in making a string of it, before the
    native call; an app always has the directory, and the three openings below call
    the library without a path instead. -/
def createWallet (path : Option String) (password language : String) (testnet : Bool) :
    AppCode (Option Wallet) := do
  let impl ← call (.manager
    (.createWallet (path.map cstr) (cstr password) (cstr language) testnet))
  return some (← Wallet.init impl)

def openWallet (path : Option String) (password : String) (testnet : Bool) :
    AppCode (Option Wallet) := do
  let impl ← call (.manager (.openWallet (path.map cstr) (cstr password) testnet))
  return some (← Wallet.init impl)

def recoveryWallet (path : Option String) (memo : String) (restoreHeight : UInt64)
    (testnet : Bool) : AppCode (Option Wallet) := do
  let impl ← call (.manager (.recoveryWallet (path.map cstr) (cstr memo) testnet restoreHeight))
  return some (← Wallet.init impl)

def closeWallet (wallet : Wallet) : AppCode Bool := call (.manager (.closeWallet wallet.impl))

def walletExists (path : String) : AppCode Bool := call (.manager (.walletExists (cstr path)))

def findWallets (path : String) : AppCode (List String) := do
  let a ← call (.manager (.findWallets (cstr path)))
  return List.map cstr a

def errorString : AppCode String := do return cstr (← call (.manager .errorString))

def setDaemonHost (hostname : String) : AppCode Unit := do
  let _ ← call (.manager (.walletExists (cstr hostname)))

end WalletManager

/-! ## PendingTransaction.mm -/

namespace PendingTransaction

variable (self : PendingTransaction)

def commit : AppCode Bool := call (.pending self.internal .commit)

def errorString : AppCode String := do return cstr (← call (.pending self.internal .errorString))

def amount : AppCode UInt64 := call (.pending self.internal .amount)

def fee : AppCode UInt64 := call (.pending self.internal .fee)

def dust : AppCode UInt64 := call (.pending self.internal .dust)

def status : AppCode Int32 := call (.pending self.internal .status)

end PendingTransaction

end Monujo
