/-
  The bridge and the native interface.

  `Method` lists the methods of `Wallet` and `WalletManager`.  Each has its
  `code`, the Objective-C method, and a specification read off its name: the
  native calls it stands for (`named`) and what it should return (`denotes`).
  A history of calls is run on both sides.

  `simulation_iff`: the two sides agree after every call if and only if nobody
  sets the daemon host, initialises a recovering wallet synchronously or asks a
  wallet with the wrong version whether it is connected, and the library
  returns no text with a NUL in it.
-/
import Monujo.Model.Bridge

namespace Monujo

open Monero

namespace Simulation

/-- A string argument: it contains no NUL. -/
structure Text where
  val : String
  noNul : NoNul val

@[simp] theorem Text.cstr_val (t : Text) : cstr t.val = t.val := cstr_of_noNul t.noNul

/-- The methods of `Wallet` and `WalletManager`, less the two cached heights,
    `amountFromDouble`, and the accessors `internal` and `getInstance`. -/
inductive Method where
  | init (internal : Handle)
  | dealloc (self : Wallet)
  | initWallet (self : Wallet) (daemonAddress : Text) (upperTransactionLimit : UInt64)
      (isRecovering : Bool) (restoreHeight : UInt64)
  | initWalletAsync (self : Wallet) (daemonAddress : Text) (upperTransactionLimit : UInt64)
      (isRecovering : Bool) (restoreHeight : UInt64)
  | getSeed (self : Wallet)
  | getSeedLanguage (self : Wallet)
  | setSeedLanguage (self : Wallet) (lang : Text)
  | connected (self : Wallet)
  | synchronized (self : Wallet)
  | errorString (self : Wallet)
  | setPassword (self : Wallet) (password : Text)
  | address (self : Wallet)
  | storePath (self : Wallet) (path : Text)
  | store (self : Wallet)
  | connectToDaemon (self : Wallet)
  | setTrustedDaemon (self : Wallet) (arg : Bool)
  | balance (self : Wallet)
  | unlockedBalance (self : Wallet)
  | blockChainHeight (self : Wallet)
  | history (self : Wallet)
  | refresh (self : Wallet)
  | refreshAsync (self : Wallet)
  | setAutoRefreshInterval (self : Wallet) (seconds : Int32)
  | autoRefreshInterval (self : Wallet)
  | createTransaction (self : Wallet) (dstAddr paymentId : Text) (amount : UInt64)
      (mixinCount : UInt32) (priority : Int32)
  | disposeTransaction (self : Wallet) (t : PendingTransaction)
  | generatePaymentId
  | integratedAddress (self : Wallet) (paymentId : Text)
  | displayAmount (amount : UInt64)
  | amountFromString (amount : Text)
  | createWallet (path password language : Text) (testnet : Bool)
  | openWallet (path password : Text) (testnet : Bool)
  | recoveryWallet (path memo : Text) (restoreHeight : UInt64) (testnet : Bool)
  | closeWallet (wallet : Wallet)
  | walletExists (path : Text)
  | findWallets (path : Text)
  | managerErrorString
  | setDaemonHost (hostname : Text)

namespace Method

/-- The type of what a method returns. -/
def Result : Method → Type
  | init _ => Wallet
  | initWallet .. | connected _ | synchronized _ | setPassword .. | storePath .. | store _
  | connectToDaemon _ | refresh _ | closeWallet _ | walletExists _ => Bool
  | getSeed _ | getSeedLanguage _ | errorString _ | address _ | generatePaymentId
  | integratedAddress .. | displayAmount _ | managerErrorString => String
  | balance _ | unlockedBalance _ | blockChainHeight _ | amountFromString _ => UInt64
  | history _ => TransactionHistory
  | autoRefreshInterval _ => Int32
  | createTransaction .. => PendingTransaction
  | createWallet .. | openWallet .. | recoveryWallet .. => Option Wallet
  | findWallets _ => List String
  | dealloc _ | initWalletAsync .. | setSeedLanguage .. | setTrustedDaemon .. | refreshAsync _
  | setAutoRefreshInterval .. | disposeTransaction .. | setDaemonHost _ => Unit

/-- The method of the bridge. -/
def code : (m : Method) → AppCode m.Result
  | init internal => Wallet.init internal
  | dealloc self => self.dealloc
  | initWallet self daemon limit isRecovering height =>
    self.initWallet daemon.val limit isRecovering height
  | initWalletAsync self daemon limit isRecovering height =>
    self.initWalletAsync daemon.val limit isRecovering height
  | getSeed self => self.getSeed
  | getSeedLanguage self => self.getSeedLanguage
  | setSeedLanguage self lang => self.setSeedLanguage lang.val
  | connected self => self.connected
  | synchronized self => self.synchronized
  | errorString self => self.errorString
  | setPassword self password => self.setPassword password.val
  | address self => self.address
  | storePath self path => self.storePath path.val
  | store self => self.store
  | connectToDaemon self => self.connectToDaemon
  | setTrustedDaemon self arg => self.setTrustedDaemon arg
  | balance self => self.balance
  | unlockedBalance self => self.unlockedBalance
  | blockChainHeight self => self.blockChainHeight
  | history self => return self.history
  | refresh self => self.refresh
  | refreshAsync self => self.refreshAsync
  | setAutoRefreshInterval self seconds => self.setAutoRefreshInterval seconds
  | autoRefreshInterval self => self.autoRefreshInterval
  | createTransaction self dstAddr paymentId amount mixinCount priority =>
    self.createTransaction dstAddr.val paymentId.val amount mixinCount priority
  | disposeTransaction self t => self.disposeTransaction t
  | generatePaymentId => Wallet.generatePaymentId
  | integratedAddress self paymentId => self.integratedAddress paymentId.val
  | displayAmount amount => Wallet.displayAmount amount
  | amountFromString amount => Wallet.amountFromString amount.val
  | createWallet path password language testnet =>
    WalletManager.createWallet (some path.val) password.val language.val testnet
  | openWallet path password testnet =>
    WalletManager.openWallet (some path.val) password.val testnet
  | recoveryWallet path memo height testnet =>
    WalletManager.recoveryWallet (some path.val) memo.val height testnet
  | closeWallet wallet => WalletManager.closeWallet wallet
  | walletExists path => WalletManager.walletExists path.val
  | findWallets path => WalletManager.findWallets path.val
  | managerErrorString => WalletManager.errorString
  | setDaemonHost hostname => WalletManager.setDaemonHost hostname.val

/-! ## What the names say -/

/-- A recovering wallet is told so, with its height, before it is initialised;
    the library scans any other wallet from its file, and a false flag applies
    neither. -/
def recovery (self : Wallet) (isRecovering : Bool) (height : UInt64) : List Call :=
  if isRecovering then
    [.wallet self.impl (.setRecoveringFromSeed true),
      .wallet self.impl (.setRefreshFromBlockHeight height)]
  else []

/-- The wrapper of a native wallet has its history, and listens to it. -/
def wraps (h : Handle) : List Call := [.wallet h .history, .wallet h (.setListener h)]

/-- The native calls a method is named after, with the arguments it is given.
    The history of a wallet is fetched when it is wrapped, and handed out from
    then on; it is refreshed with the wallet.  An interval is passed on as the
    number it is: the native one is in milliseconds. -/
def named (answers : Answers) : Method → List Call
  | init internal => wraps internal
  | dealloc self => [.manager (.closeWallet self.impl)]
  | initWallet self daemon limit isRecovering height =>
    recovery self isRecovering height ++ [.wallet self.impl (.init daemon.val limit)]
  | initWalletAsync self daemon limit isRecovering height =>
    recovery self isRecovering height ++ [.wallet self.impl (.initAsync daemon.val limit)]
  | getSeed self => [.wallet self.impl .seed]
  | getSeedLanguage self => [.wallet self.impl .getSeedLanguage]
  | setSeedLanguage self lang => [.wallet self.impl (.setSeedLanguage lang.val)]
  | connected self => [.wallet self.impl .connected]
  | synchronized self => [.wallet self.impl .synchronized]
  | errorString self => [.wallet self.impl .errorString]
  | setPassword self password => [.wallet self.impl (.setPassword password.val)]
  | address self => [.wallet self.impl .address]
  | storePath self path => [.wallet self.impl (.store path.val)]
  | store self => [.wallet self.impl (.store "")]
  | connectToDaemon self => [.wallet self.impl .connectToDaemon]
  | setTrustedDaemon self arg => [.wallet self.impl (.setTrustedDaemon arg)]
  | balance self => [.wallet self.impl .balance]
  | unlockedBalance self => [.wallet self.impl .unlockedBalance]
  | blockChainHeight self => [.wallet self.impl .blockChainHeight]
  | history _ => []
  | refresh self => [.wallet self.impl .refresh, .history self.impl .refresh]
  | refreshAsync self => [.wallet self.impl .refreshAsync]
  | setAutoRefreshInterval self seconds => [.wallet self.impl (.setAutoRefreshInterval seconds)]
  | autoRefreshInterval self => [.wallet self.impl .autoRefreshInterval]
  | createTransaction self dstAddr paymentId amount mixinCount priority =>
    [.wallet self.impl
      (.createTransaction dstAddr.val paymentId.val amount mixinCount priority)]
  | disposeTransaction self t => [.wallet self.impl (.disposeTransaction t.internal)]
  | generatePaymentId => [.static .genPaymentId]
  | integratedAddress self paymentId => [.wallet self.impl (.integratedAddress paymentId.val)]
  | displayAmount amount => [.static (.displayAmount amount)]
  | amountFromString amount => [.static (.amountFromString amount.val)]
  | createWallet path password language testnet =>
    let c : ManagerCall := .createWallet (some path.val) password.val language.val testnet
    .manager c :: wraps (answers (.manager c))
  | openWallet path password testnet =>
    let c : ManagerCall := .openWallet (some path.val) password.val testnet
    .manager c :: wraps (answers (.manager c))
  | recoveryWallet path memo height testnet =>
    let c : ManagerCall := .recoveryWallet (some path.val) memo.val testnet height
    .manager c :: wraps (answers (.manager c))
  | closeWallet wallet => [.manager (.closeWallet wallet.impl)]
  | walletExists path => [.manager (.walletExists path.val)]
  | findWallets path => [.manager (.findWallets path.val)]
  | managerErrorString => [.manager .errorString]
  | setDaemonHost hostname => [.manager (.setDaemonAddress hostname.val)]

/-- What a method returns: the native answer, or a wrapper of it. -/
def denotes (answers : Answers) : (m : Method) → m.Result
  | init internal => (⟨internal⟩ : Wallet)
  | initWallet self daemon limit .. => answers (.wallet self.impl (.init daemon.val limit))
  | getSeed self => answers (.wallet self.impl .seed)
  | getSeedLanguage self => answers (.wallet self.impl .getSeedLanguage)
  | connected self =>
    let status : ConnectionStatus := answers (.wallet self.impl .connected)
    decide (status = .connected)
  | synchronized self => answers (.wallet self.impl .synchronized)
  | errorString self => answers (.wallet self.impl .errorString)
  | setPassword self password => answers (.wallet self.impl (.setPassword password.val))
  | address self => answers (.wallet self.impl .address)
  | storePath self path => answers (.wallet self.impl (.store path.val))
  | store self => answers (.wallet self.impl (.store ""))
  | connectToDaemon self => answers (.wallet self.impl .connectToDaemon)
  | balance self => answers (.wallet self.impl .balance)
  | unlockedBalance self => answers (.wallet self.impl .unlockedBalance)
  | blockChainHeight self => answers (.wallet self.impl .blockChainHeight)
  | history self => (⟨self.impl⟩ : TransactionHistory)
  | refresh self => answers (.wallet self.impl .refresh)
  | autoRefreshInterval self => answers (.wallet self.impl .autoRefreshInterval)
  | createTransaction self dstAddr paymentId amount mixinCount priority =>
    (⟨answers (.wallet self.impl
      (.createTransaction dstAddr.val paymentId.val amount mixinCount priority))⟩ :
        PendingTransaction)
  | generatePaymentId => answers (.static .genPaymentId)
  | integratedAddress self paymentId =>
    answers (.wallet self.impl (.integratedAddress paymentId.val))
  | displayAmount amount => answers (.static (.displayAmount amount))
  | amountFromString amount => answers (.static (.amountFromString amount.val))
  | createWallet path password language testnet =>
    some (⟨answers (.manager
      (.createWallet (some path.val) password.val language.val testnet))⟩ : Wallet)
  | openWallet path password testnet =>
    some (⟨answers (.manager (.openWallet (some path.val) password.val testnet))⟩ : Wallet)
  | recoveryWallet path memo height testnet =>
    some (⟨answers (.manager (.recoveryWallet (some path.val) memo.val testnet height))⟩ : Wallet)
  | closeWallet wallet => answers (.manager (.closeWallet wallet.impl))
  | walletExists path => answers (.manager (.walletExists path.val))
  | findWallets path => answers (.manager (.findWallets path.val))
  | managerErrorString => answers (.manager .errorString)
  | dealloc _ | initWalletAsync .. | setSeedLanguage .. | setTrustedDaemon .. | refreshAsync _
  | setAutoRefreshInterval .. | disposeTransaction .. | setDaemonHost _ => ()

/-- The texts among what the library answers to a method. -/
def texts (answers : Answers) : Method → List String
  | getSeed self => [answers (.wallet self.impl .seed)]
  | getSeedLanguage self => [answers (.wallet self.impl .getSeedLanguage)]
  | errorString self => [answers (.wallet self.impl .errorString)]
  | address self => [answers (.wallet self.impl .address)]
  | generatePaymentId => [answers (.static .genPaymentId)]
  | integratedAddress self paymentId =>
    [answers (.wallet self.impl (.integratedAddress paymentId.val))]
  | displayAmount amount => [answers (.static (.displayAmount amount))]
  | findWallets path => answers (.manager (.findWallets path.val))
  | managerErrorString => [answers (.manager .errorString)]
  | _ => []

end Method

/-- One call of a method: the bridge makes the native calls the method is named
    after, and returns what they denote. -/
structure Agrees (m : Method) (env : Env) : Prop where
  calls : callsOf (m.code.log env) = m.named env.answers
  result : m.code.val env = m.denotes env.answers

/-- The condition on a call. -/
def Forwards (m : Method) (answers : Answers) : Prop :=
  match m with
  | .setDaemonHost _ => False
  | .initWallet _ _ _ isRecovering _ => isRecovering = false
  | .connected self => answers (.wallet self.impl .connected) ≠ ConnectionStatus.wrongVersion
  | m => ∀ t ∈ m.texts answers, NoNul t

/-! ## One call -/

section
variable {m : Method} {env : Env} {c : AppCode m.Result}

/-- A method that makes the calls of its name agrees when its result does. -/
theorem agrees_result (hc : m.code = c)
    (h : callsOf (c.log env) = m.named env.answers)
    (h' : c.val env = m.denotes env.answers ↔ Forwards m env.answers) :
    Agrees m env ↔ Forwards m env.answers := by
  subst hc
  rw [← h']
  constructor
  · intro hagrees
    exact hagrees.result
  · intro hval
    exact ⟨h, hval⟩

/-- A method that passes the native call of its name on as it is. -/
theorem agrees_call (hc : m.code = c)
    (h : callsOf (c.log env) = m.named env.answers)
    (h' : c.val env = m.denotes env.answers) (hm : Forwards m env.answers) :
    Agrees m env ↔ Forwards m env.answers :=
  agrees_result hc h ⟨fun _ => hm, fun _ => h'⟩

end

theorem cstr_eq_self_iff_singleton (s : String) : cstr s = s ↔ ∀ t ∈ [s], NoNul t := by
  rw [List.forall_mem_singleton, cstr_eq_self_iff]

theorem map_cstr_eq_self_iff (ts : List String) : List.map cstr ts = ts ↔ ∀ t ∈ ts, NoNul t := by
  have hid : List.map cstr ts = ts ↔ ∀ t ∈ ts, cstr t = t := by
    conv_lhs => rw [← List.map_id ts, List.map_map, List.map_inj_left]
    rfl
  rw [hid]
  constructor <;> intro h t ht
  · exact cstr_eq_self_iff.1 (h t ht)
  · exact cstr_eq_self_iff.2 (h t ht)

/-- Read as a truth value, the status is right unless the version is wrong. -/
theorem status_iff (status : ConnectionStatus) :
    (status != .disconnected) = decide (status = .connected) ↔ status ≠ .wrongVersion := by
  cases status <;> decide

/-- **One call.** -/
theorem agrees_iff (m : Method) (env : Env) : Agrees m env ↔ Forwards m env.answers := by
  have hnone : ∀ t ∈ ([] : List String), NoNul t := fun t ht => nomatch ht
  cases m with
  | init | dealloc | synchronized | store | connectToDaemon | setTrustedDaemon | balance
  | unlockedBalance | blockChainHeight | history | refresh | refreshAsync
  | setAutoRefreshInterval | autoRefreshInterval | disposeTransaction | closeWallet =>
    exact agrees_call rfl rfl rfl hnone
  | getSeed | getSeedLanguage | errorString | address | generatePaymentId | displayAmount
  | managerErrorString => exact agrees_result rfl rfl (cstr_eq_self_iff_singleton _)
  | setSeedLanguage self lang =>
    have hc : self.setSeedLanguage lang.val = call (.wallet self.impl (.setSeedLanguage lang.val)) := by
      rw [Wallet.setSeedLanguage, lang.cstr_val]
    exact agrees_call hc rfl rfl hnone
  | setPassword self password =>
    have hc : self.setPassword password.val =
        call (.wallet self.impl (.setPassword password.val)) := by
      rw [Wallet.setPassword, password.cstr_val]
    exact agrees_call hc rfl rfl hnone
  | storePath self path =>
    have hc : self.storePath path.val = call (.wallet self.impl (.store path.val)) := by
      rw [Wallet.storePath, path.cstr_val]
    exact agrees_call hc rfl rfl hnone
  | createTransaction self dstAddr paymentId amount mixinCount priority =>
    have hc : self.createTransaction dstAddr.val paymentId.val amount mixinCount priority =
        PendingTransaction.mk <$> call (.wallet self.impl
          (.createTransaction dstAddr.val paymentId.val amount mixinCount priority)) := by
      rw [Wallet.createTransaction, dstAddr.cstr_val, paymentId.cstr_val]
      rfl
    exact agrees_call hc rfl rfl hnone
  | integratedAddress self paymentId =>
    have hc : self.integratedAddress paymentId.val =
        cstr <$> call (.wallet self.impl (.integratedAddress paymentId.val)) := by
      rw [Wallet.integratedAddress, paymentId.cstr_val]
      rfl
    exact agrees_result hc rfl (cstr_eq_self_iff_singleton _)
  | amountFromString amount =>
    have hc : Wallet.amountFromString amount.val = call (.static (.amountFromString amount.val)) := by
      rw [Wallet.amountFromString, amount.cstr_val]
    exact agrees_call hc rfl rfl hnone
  | walletExists path =>
    have hc : WalletManager.walletExists path.val = call (.manager (.walletExists path.val)) := by
      rw [WalletManager.walletExists, path.cstr_val]
    exact agrees_call hc rfl rfl hnone
  | createWallet path password language testnet =>
    have hc : WalletManager.createWallet (some path.val) password.val language.val testnet =
        call (.manager (.createWallet (some path.val) password.val language.val testnet)) >>=
          fun impl => some <$> Wallet.init impl := by
      rw [WalletManager.createWallet, Option.map_some, path.cstr_val, password.cstr_val,
        language.cstr_val]
      rfl
    exact agrees_call hc rfl rfl hnone
  | openWallet path password testnet =>
    have hc : WalletManager.openWallet (some path.val) password.val testnet =
        call (.manager (.openWallet (some path.val) password.val testnet)) >>=
          fun impl => some <$> Wallet.init impl := by
      rw [WalletManager.openWallet, Option.map_some, path.cstr_val, password.cstr_val]
      rfl
    exact agrees_call hc rfl rfl hnone
  | recoveryWallet path memo height testnet =>
    have hc : WalletManager.recoveryWallet (some path.val) memo.val height testnet =
        call (.manager (.recoveryWallet (some path.val) memo.val testnet height)) >>=
          fun impl => some <$> Wallet.init impl := by
      rw [WalletManager.recoveryWallet, Option.map_some, path.cstr_val, memo.cstr_val]
      rfl
    exact agrees_call hc rfl rfl hnone
  | initWalletAsync self daemon limit isRecovering height =>
    have hc : self.initWalletAsync daemon.val limit isRecovering height =
        (do
          if isRecovering then
            call (.wallet self.impl (.setRecoveringFromSeed true))
            call (.wallet self.impl (.setRefreshFromBlockHeight height))
          call (.wallet self.impl (.initAsync daemon.val limit))) := by
      rw [Wallet.initWalletAsync, daemon.cstr_val]
    cases isRecovering with
    | false => exact agrees_call hc rfl rfl hnone
    | true => exact agrees_call hc rfl rfl hnone
  | initWallet self daemon limit isRecovering height =>
    have hc : self.initWallet daemon.val limit isRecovering height =
        call (.wallet self.impl (.init daemon.val limit)) := by
      rw [Wallet.initWallet, daemon.cstr_val]
    cases isRecovering with
    | false => exact agrees_call hc rfl rfl rfl
    | true =>
      -- The flag and the height are not passed on.
      constructor
      · intro hagrees
        have hlength := congrArg List.length hagrees.calls
        cases hlength
      · intro hforwards
        cases hforwards
  | connected self => exact agrees_result rfl rfl (status_iff _)
  | findWallets path =>
    have hc : WalletManager.findWallets path.val =
        List.map cstr <$> call (.manager (.findWallets path.val)) := by
      rw [WalletManager.findWallets, path.cstr_val]
      rfl
    exact agrees_result hc rfl (map_cstr_eq_self_iff _)
  | setDaemonHost hostname =>
    -- The host is looked up as a wallet file.
    constructor
    · intro hagrees
      have hcalls := hagrees.calls
      cases hcalls
    · intro hforwards
      cases hforwards

/-! ## Histories -/

/-- A history of calls, on both sides. -/
structure State where
  /-- The native calls the bridge has made. -/
  made : List Call
  /-- Those its methods are named after. -/
  named : List Call
  results : List (Σ m : Method, m.Result)
  denoted : List (Σ m : Method, m.Result)

def start : State := ⟨[], [], [], []⟩

/-- A call of a method, with what the library answers during it. -/
structure Event where
  method : Method
  env : Env

def step (s : State) (e : Event) : State where
  made := s.made ++ callsOf (e.method.code.log e.env)
  named := s.named ++ e.method.named e.env.answers
  results := s.results ++ [⟨e.method, e.method.code.val e.env⟩]
  denoted := s.denoted ++ [⟨e.method, e.method.denotes e.env.answers⟩]

/-- The native configuration that calls produce. -/
def config (c : Config) (cs : List Call) : Config := cs.foldl Config.apply c

/-- The bridge has made the calls its methods are named after, has returned what
    they denote, and the library is configured as they say. -/
structure Simulates (c : Config) (s : State) : Prop where
  calls : s.made = s.named
  results : s.results = s.denoted
  config : config c s.made = config c s.named

/-- The configurations agree as soon as the calls do. -/
theorem simulates_iff (c : Config) (s : State) :
    Simulates c s ↔ s.made = s.named ∧ s.results = s.denoted := by
  constructor
  · rintro ⟨hcalls, hresults, -⟩
    exact ⟨hcalls, hresults⟩
  · rintro ⟨hcalls, hresults⟩
    exact ⟨hcalls, hresults, congrArg (config c) hcalls⟩

/-- One more call keeps the two sides together if and only if it agrees. -/
theorem Simulates.step_iff {c : Config} {s : State} (h : Simulates c s) (e : Event) :
    Simulates c (step s e) ↔ Agrees e.method e.env := by
  rw [simulates_iff]
  simp only [step, h.calls, h.results, List.append_cancel_left_eq,
    List.cons.injEq, and_true, Sigma.mk.injEq, heq_eq_eq, true_and]
  constructor
  · rintro ⟨hcalls, hresult⟩
    exact ⟨hcalls, hresult⟩
  · rintro ⟨hcalls, hresult⟩
    exact ⟨hcalls, hresult⟩

/-- **When the bridge simulates the native interface.** -/
theorem simulation_iff (c : Config) (es : List Event) :
    Runs.Always step (Simulates c) start es ↔ ∀ e ∈ es, Forwards e.method e.env.answers := by
  have hguarded : Runs.Always step (Simulates c) start es ↔
      Runs.Guarded step (fun _ e => Forwards e.method e.env.answers) start es := by
    refine Runs.always_iff_guarded (Simulates c) (fun s h => h) ?_ ?_ ⟨rfl, rfl, rfl⟩
    · intro s e h hforwards
      exact (h.step_iff e).2 ((agrees_iff e.method e.env).2 hforwards)
    · intro s e h hstep
      exact (agrees_iff e.method e.env).1 ((h.step_iff e).1 hstep)
  rw [hguarded, Runs.guarded_iff_split]
  constructor
  · intro h e he
    obtain ⟨fs, gs, heq⟩ := List.append_of_mem he
    exact h fs e gs heq
  · intro h fs e gs heq
    exact h e (by simp [heq])

/-- The daemon's host is set: the library is asked for a wallet file of that
    name, and its daemon address stays what it was. -/
theorem setDaemonHost_not_set :
    let e : Event := ⟨.setDaemonHost ⟨"node:18081", by decide⟩, default⟩
    let c : Config := ⟨"", fun _ => ⟨"", false, 0, false, 0, "", 0, none⟩⟩
    let s := step start e
    ¬ Runs.Always step (Simulates c) start [e] ∧
      (config c s.made).daemonAddress = "" ∧ (config c s.named).daemonAddress = "node:18081" := by
  refine ⟨fun h => ?_, rfl, rfl⟩
  have hconfig : "" = "node:18081" := congrArg Config.daemonAddress h.last.config
  exact absurd hconfig (by decide)

end Simulation

end Monujo
