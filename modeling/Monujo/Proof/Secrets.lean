/-
  Seeds, passwords and recovery memos.

  The seed of a wallet is shown on the mnemonic label; a password goes into the
  keychain and, like a memo, to the library that opens the wallet.
  `secrets_stay`: two runs of the app that differ in nothing but these agree in
  everything else it does: the native calls, `UserDefaults`, the other labels,
  the texts of all other screens, and the way through the screens.
-/
import Monujo.Lib.Relational
import Monujo.Model.Process

namespace Monujo

open Monero WalletStore Code
open WalletViewController (Outlet)

namespace Secrets

/-! ## What may differ -/

/-- The call carries a secret to the library, or one back. -/
def Secret : Call → Prop
  | .wallet _ .seed | .manager (.createWallet ..) | .manager (.openWallet ..)
  | .manager (.recoveryWallet ..) => True
  | _ => False

/-- The library answers alike, but for seeds; which wallet it returns does not
    depend on the password or the memo. -/
structure SameAnswers (a a' : Answers) : Prop where
  other : ∀ c, ¬ Secret c → a c = a' c
  createWallet : ∀ path p p' language testnet,
    (a (.manager (.createWallet path p language testnet)) : Handle) =
      a' (.manager (.createWallet path p' language testnet))
  openWallet : ∀ path p p' testnet,
    (a (.manager (.openWallet path p testnet)) : Handle) =
      a' (.manager (.openWallet path p' testnet))
  recoveryWallet : ∀ path m m' testnet height,
    (a (.manager (.recoveryWallet path m testnet height)) : Handle) =
      a' (.manager (.recoveryWallet path m' testnet height))

/-- The records differ in the password at most. -/
structure SameRecord (r r' : Record) : Prop where
  walletFile : r .walletFile = r' .walletFile
  isRecovering : r .isRecovering = r' .isRecovering
  restoreHeight : r .restoreHeight = r' .restoreHeight
  password : (r .password).isSome = (r' .password).isSome

/-- The effects differ in a secret at most. -/
inductive Same : Effect → Effect → Prop where
  | refl (e : Effect) : Same e e
  | seed (h : Handle) (a a' : (Call.wallet h .seed).Ans) :
    Same (.call (.wallet h .seed) a) (.call (.wallet h .seed) a')
  | createWallet (path : Option String) (p p' language : String) (testnet : Bool) (h : Handle) :
    Same (.call (.manager (.createWallet path p language testnet)) h)
      (.call (.manager (.createWallet path p' language testnet)) h)
  | openWallet (path : Option String) (p p' : String) (testnet : Bool) (h : Handle) :
    Same (.call (.manager (.openWallet path p testnet)) h)
      (.call (.manager (.openWallet path p' testnet)) h)
  | recoveryWallet (path : Option String) (m m' : String) (testnet : Bool) (height : UInt64)
      (h : Handle) :
    Same (.call (.manager (.recoveryWallet path m testnet height)) h)
      (.call (.manager (.recoveryWallet path m' testnet height)) h)
  | password (p p' : String) :
    Same (.write ⟨.password, some p⟩) (.write ⟨.password, some p'⟩)

inductive SameScreen : ScreenEffect → ScreenEffect → Prop where
  | app {e e' : Effect} (h : Same e e') : SameScreen (.app e) (.app e')
  | refl (e : ScreenEffect) : SameScreen e e
  | mnemonic (x x' : String) : SameScreen (.text .mnemonicLabel x) (.text .mnemonicLabel x')

/-- The processes differ in secrets at most. -/
structure SameProcess (s s' : Process) : Prop where
  record : SameRecord s.app.record s'.app.record
  wallet : s.app.wallet = s'.app.wallet
  blocks : s.app.blocks = s'.app.blocks
  log : List.Forall₂ Same s.log s'.log
  past : List.Forall₂ (List.Forall₂ Same) s.past s'.past
  delegate : s.delegate = s'.delegate
  heights : s.heights = s'.heights
  main : s.main = s'.main
  shown : s.shown = s'.shown
  observing : s.observing = s'.observing
  lastTimeRefreshed : s.lastTimeRefreshed = s'.lastTimeRefreshed
  labels : ∀ label, label ≠ .mnemonicLabel → s.labels label = s'.labels label
  login : s.login = s'.login
  rows : s.rows = s'.rows
  detail : s.detail = s'.detail
  create : s.create = s'.create
  confirm : s.confirm = s'.confirm
  texts : s.texts = s'.texts

/-- The forms differ in the password, or in the memo; whether a memo is filled
    in shows. -/
inductive SameForm : LoginForm → LoginForm → Prop where
  | create (name p p' language : Option String) :
    SameForm (.create name p language) (.create name p' language)
  | open (name p p' : Option String) : SameForm (.open name p) (.open name p')
  | recover (name m m' height : Option String)
      (h : (LoginForm.filled m).isSome = (LoginForm.filled m').isSome) :
    SameForm (.recover name m height) (.recover name m' height)

inductive SameEvent : Event → Event → Prop where
  | refl (e : Event) : SameEvent e e
  | submit {f f' : LoginForm} (h : SameForm f f') : SameEvent (.submit f) (.submit f')

/-- What is read outside the process differs in secrets at most. -/
structure SameOutside (r r' : ScreenEnv) : Prop where
  answers : SameAnswers r.answers r'.answers
  documents : r.documents = r'.documents
  fileExists : r.fileExists = r'.fileExists
  now : r.now = r'.now
  heightChecked : r.heightChecked = r'.heightChecked
  heightAnswered : r.heightAnswered = r'.heightAnswered
  targetChecked : r.targetChecked = r'.targetChecked
  targetAnswered : r.targetAnswered = r'.targetAnswered

structure SameInput (i i' : Input) : Prop where
  event : SameEvent i.event i'.event
  env : SameOutside i.env i'.env
  cut : i.cut = i'.cut

/-- What code reads differs in secrets at most. -/
structure SameEnv (r r' : ScreenEnv) : Prop extends SameOutside r r' where
  record : SameRecord r.record r'.record
  wallet : r.wallet = r'.wallet
  delegate : r.delegate = r'.delegate
  lastTimeRefreshed : r.lastTimeRefreshed = r'.lastTimeRefreshed
  heights : r.heights = r'.heights

theorem SameProcess.env {s s' : Process} (h : SameProcess s s') {r r' : ScreenEnv}
    (hr : SameOutside r r') : SameEnv (s.env r) (s'.env r') where
  answers := hr.answers
  documents := hr.documents
  fileExists := hr.fileExists
  now := hr.now
  heightChecked := hr.heightChecked
  heightAnswered := hr.heightAnswered
  targetChecked := hr.targetChecked
  targetAnswered := hr.targetAnswered
  record := h.record
  wallet := h.wallet
  delegate := h.delegate
  lastTimeRefreshed := h.lastTimeRefreshed
  heights := h.heights

/-! ## Effects -/

theorem SameRecord.set {r r' : Record} (h : SameRecord r r') (w : Write Key.Val) :
    SameRecord (r.set w) (r'.set w) := by
  obtain ⟨hf, hr, hh, hp⟩ := h
  obtain ⟨k, v⟩ := w
  cases k with
  | walletFile => exact ⟨by simp, by simpa using hr, by simpa using hh, by simpa using hp⟩
  | isRecovering => exact ⟨by simpa using hf, by simp, by simpa using hh, by simpa using hp⟩
  | restoreHeight => exact ⟨by simpa using hf, by simpa using hr, by simp, by simpa using hp⟩
  | password => exact ⟨by simpa using hf, by simpa using hr, by simpa using hh, by simp⟩

theorem SameRecord.set_password {r r' : Record} (h : SameRecord r r') (p p' : String) :
    SameRecord (r.set ⟨.password, some p⟩) (r'.set ⟨.password, some p'⟩) := by
  obtain ⟨hf, hr, hh, -⟩ := h
  exact ⟨by simpa using hf, by simpa using hr, by simpa using hh, by simp⟩

theorem SameProcess.applyApp {s s' : Process} (h : SameProcess s s') {e e' : Effect}
    (he : Same e e') : SameProcess (s.applyApp e) (s'.applyApp e') := by
  obtain ⟨hrecord, hwallet, hblocks, hlog, hpast, hdelegate, hheights, hmain, hshown, hobserving,
    htime, hlabels, hlogin, hrows, hdetail, hcreate, hconfirm, htexts⟩ := h
  have happ : SameRecord (s.app.apply e).record (s'.app.apply e').record ∧
      (s.app.apply e).wallet = (s'.app.apply e').wallet ∧
      (s.app.apply e).blocks = (s'.app.apply e').blocks := by
    cases he with
    | refl =>
      cases e with
      | write w => exact ⟨hrecord.set w, hwallet, hblocks⟩
      | background b => exact ⟨hrecord, hwallet, congrArg (· ++ [b]) hblocks⟩
      | assign w => exact ⟨hrecord, rfl, hblocks⟩
      | call | main | refreshedAt | «show» | setDelegate => exact ⟨hrecord, hwallet, hblocks⟩
    | password p p' => exact ⟨hrecord.set_password p p', hwallet, hblocks⟩
    | seed | createWallet | openWallet | recoveryWallet => exact ⟨hrecord, hwallet, hblocks⟩
  have hscreen : Process.delegateAfter s.delegate e = Process.delegateAfter s'.delegate e' ∧
      Process.heightsAfter s.heights e = Process.heightsAfter s'.heights e' ∧
      Process.mainAfter s.main e = Process.mainAfter s'.main e' ∧
      Process.shownAfter s.shown e = Process.shownAfter s'.shown e' ∧
      Process.refreshedAfter s.lastTimeRefreshed e =
        Process.refreshedAfter s'.lastTimeRefreshed e' := by
    rw [hdelegate, hheights, hmain, hshown, htime]
    cases he <;> exact ⟨rfl, rfl, rfl, rfl, rfl⟩
  exact ⟨happ.1, happ.2.1, happ.2.2, List.rel_append hlog (.cons he .nil), hpast, hscreen.1,
    hscreen.2.1, hscreen.2.2.1, hscreen.2.2.2.1, hobserving, hscreen.2.2.2.2, hlabels, hlogin,
    hrows, hdetail, hcreate, hconfirm, htexts⟩

theorem SameProcess.applyScreen {s s' : Process} (h : SameProcess s s') {e e' : ScreenEffect}
    (he : SameScreen e e') : SameProcess (s.applyScreen e) (s'.applyScreen e') := by
  cases he with
  | app he => exact h.applyApp he
  | mnemonic x x' =>
    refine { h with labels := fun label hlabel => ?_ }
    change Function.update s.labels _ x label = Function.update s'.labels _ x' label
    rw [Function.update_of_ne hlabel, Function.update_of_ne hlabel]
    exact h.labels label hlabel
  | refl =>
    cases e with
    | app e => exact h.applyApp (.refl e)
    | heights w m =>
      refine { h with heights := ?_ }
      exact congrArg (Function.update · w m) h.heights
    | text l x =>
      refine { h with labels := fun label hlabel => ?_ }
      change Function.update s.labels _ x label = Function.update s'.labels _ x label
      by_cases hl : label = l
      · subst hl
        rw [Function.update_self, Function.update_self]
      · rw [Function.update_of_ne hl, Function.update_of_ne hl]
        exact h.labels label hlabel

/-! ## Openings -/

/-- The operations differ in the password, or in the memo. -/
inductive SameOpening : Opening → Opening → Prop where
  | create (f p p' l : String) : SameOpening (.create f p l) (.create f p' l)
  | open (f p p' : String) (isRecovering : Bool) (restoreHeight : UInt64) :
    SameOpening (.open f p isRecovering restoreHeight) (.open f p' isRecovering restoreHeight)
  | recover (f m m' : String) (restoreHeight : UInt64) :
    SameOpening (.recover f m restoreHeight) (.recover f m' restoreHeight)

theorem same_writes {o o' : Opening} (ho : SameOpening o o') :
    List.Forall₂ Same (o.writes.map Effect.write) (o'.writes.map Effect.write) := by
  have hsame : ∀ es : List Effect, List.Forall₂ Same es es :=
    fun es => List.forall₂_same.2 fun e _ => .refl e
  cases ho with
  | create f p p' l => exact .cons (.password p p') (hsame _)
  | «open» f p p' b height => exact .cons (.password p p') (hsame _)
  | recover f m m' height => exact hsame _

theorem SameForm.refl (f : LoginForm) : SameForm f f := by
  cases f with
  | create => exact .create ..
  | «open» => exact .open ..
  | recover => exact .recover _ _ _ _ rfl

/-- What a form asks for. -/
theorem same_form {f f' : LoginForm} (h : SameForm f f') :
    Option.Rel SameOpening f.opening? f'.opening? := by
  cases h with
  | create name p p' language =>
    simp only [LoginForm.opening?]
    rcases LoginForm.filled name with _ | n
    · exact .none
    · exact .some (.create ..)
  | «open» name p p' =>
    simp only [LoginForm.opening?]
    rcases LoginForm.filled name with _ | n
    · exact .none
    · exact .some (.open ..)
  | recover name m m' height hfilled =>
    simp only [LoginForm.opening?]
    rcases LoginForm.filled name with _ | n
    · exact .none
    rcases hm : LoginForm.filled m with _ | memo
    · rcases hm' : LoginForm.filled m' with _ | memo'
      · exact .none
      · rw [hm, hm'] at hfilled
        cases hfilled
    · rcases hm' : LoginForm.filled m' with _ | memo'
      · rw [hm, hm'] at hfilled
        cases hfilled
      · exact .some (.recover ..)

/-! ## Code that sees no secret -/

/-- In both environments the code returns the same and does the same, but for
    secrets. -/
abbrev Blind {α : Type} (m : AppCode α) (r r' : ScreenEnv) : Prop :=
  Agree Same Eq m r.toEnv m r'.toEnv

/-- A string the library returns. -/
theorem blind_cstr {r r' : ScreenEnv} {m : AppCode String} (hm : Blind m r r') :
    Blind (do return cstr (← m)) r r' :=
  hm.bind fun _ _ hab => agree_pure (congrArg cstr hab)

/-- Whatever seeds the library answers. -/
theorem agree_getSeed (w : Wallet) (r r' : Env) :
    Agree Same (fun _ _ => True) w.getSeed r w.getSeed r' :=
  ⟨trivial, .cons (.seed _ _ _) .nil⟩

section
variable {r r' : ScreenEnv} (h : SameEnv r r')
include h

theorem blind_call {c : Call} (hc : ¬ Secret c) : Blind (call c) r r' := by
  have ha : r.answers c = r'.answers c := h.answers.other c hc
  have hsame : Same (.call c (r.answers c)) (.call c (r'.answers c)) := ha ▸ .refl _
  exact ⟨ha, .cons hsame .nil⟩

theorem blind_displayAmount (amount : UInt64) : Blind (Wallet.displayAmount amount) r r' :=
  blind_cstr (blind_call h id)

theorem blind_refresh (w : Wallet) :
    Blind w.refresh r r' ∧ Blind w.history.refresh r r' := by
  have hhistory : Blind w.history.refresh r r' := blind_call h id
  refine ⟨(blind_call h id).bind fun a b hab => hhistory.bind fun _ _ _ => agree_pure hab,
    hhistory⟩

theorem blind_save : Blind save r r' := by
  refine agree_ask ?_
  rw [h.wallet]
  rcases r'.wallet with _ | w
  · exact agree_pure rfl
  · refine Agree.bind (A := Eq) (blind_call h id) fun a b hab => ?_
    subst hab
    refine Agree.bind (A := fun _ _ => True) (agree_emit (.refl _)) fun _ _ _ => ?_
    exact Agree.bind (A := Eq) (blind_call h id) fun _ _ _ => agree_pure rfl

theorem blind_initBlock (b : Block) : Blind (initBlock b) r r' := by
  refine agree_ask ?_
  rw [h.wallet]
  rcases r'.wallet with _ | w
  · exact agree_pure rfl
  · have hinit : Blind (call (.wallet w.impl (.initAsync (cstr daemonURL) 0))) r r' :=
      blind_call h id
    change Blind (w.initWalletAsync daemonURL 0 b.recovering b.restoreHeight) r r'
    unfold Wallet.initWalletAsync
    split
    · refine Agree.bind (A := Eq) (blind_call h id) fun _ _ _ => ?_
      exact Agree.bind (A := Eq) (blind_call h id) fun _ _ _ => hinit
    · exact hinit

theorem blind_handler (w : Wallet) (c : Callback) : Blind (c.handler w) r r' := by
  obtain ⟨hrefresh, hhistory⟩ := blind_refresh h w
  have hmain : ∀ rs, Blind (Code.emit (.main rs)) r r' := fun rs => ⟨rfl, .cons (.refl _) .nil⟩
  cases c with
  | moneySpent | moneyReceived =>
    exact hrefresh.bind fun _ _ _ => hhistory.bind fun _ _ _ => hmain _
  | newBlock height =>
    refine agree_ask ?_
    rw [h.now, h.lastTimeRefreshed]
    refine agree_ite Iff.rfl (fun _ => ?_) fun _ => agree_pure rfl
    exact Agree.bind (A := fun _ _ => True) (agree_emit (.refl _)) fun _ _ _ => hmain _
  | updated => exact hmain _
  | refreshed =>
    refine Agree.bind (A := fun _ _ => True) (agree_emit (.refl _)) fun _ _ _ => ?_
    exact Agree.bind (A := Eq) (blind_call h id) fun _ _ _ => hmain _

theorem blind_listener (w : Wallet) (c : Callback) : Blind (c.listener w) r r' := by
  refine agree_ask ?_
  rw [h.delegate]
  exact agree_ite Iff.rfl (fun _ => blind_handler h w c) fun _ => agree_pure rfl

theorem blind_refreshButton (w : Option Wallet) :
    Blind (WalletViewController.refreshButtonClicked w) r r' := by
  rcases w with _ | w
  · exact agree_pure rfl
  · exact blind_call h id

/-! ### The history -/

theorem blind_history : Blind TransactionHistoryViewController.viewWillAppear r r' := by
  refine agree_ask ?_
  rw [h.wallet]
  rcases r'.wallet with _ | w
  · exact agree_pure rfl
  · have hgetAll : Blind w.history.getAll r r' :=
      Agree.bind (A := Eq) (blind_call h id) fun _ _ ha => agree_pure (congrArg _ ha)
    refine hgetAll.bind fun rows _ hrows => ?_
    subst hrows
    exact agree_pure rfl

theorem blind_cellForRow (t : TransactionInfo) :
    Blind (TransactionHistoryViewController.cellForRow t) r r' := by
  have hinfo : ∀ c, Blind (call (.info t.impl c)) r r' := fun c => blind_call h id
  have hstatus : Blind (TransactionHistoryViewController.status t) r r' := by
    refine Agree.bind (hinfo .isFailed) fun failed _ hfailed => ?_
    subst hfailed
    refine agree_ite Iff.rfl (fun _ => agree_pure rfl) fun _ => ?_
    refine Agree.bind (hinfo .isPending) fun pending _ hpending => ?_
    subst hpending
    exact agree_ite Iff.rfl (fun _ => agree_pure rfl) fun _ => agree_pure rfl
  refine Agree.bind (hinfo .direction) fun direction _ hdirection => ?_
  refine hstatus.bind fun status _ hstatus' => ?_
  refine Agree.bind (hinfo .amount) fun amount _ hamount => ?_
  subst hdirection hstatus' hamount
  exact agree_pure rfl

theorem blind_detail (t : TransactionInfo) (m_transfers : List Transfer) :
    Blind (TransactionDetailViewController.viewWillAppear t m_transfers) r r' := by
  have hinfo : ∀ c, Blind (call (.info t.impl c)) r r' := fun c => blind_call h id
  have htransfers : Blind (t.transfers m_transfers) r r' := by
    refine agree_ite Iff.rfl (fun _ => agree_pure rfl) fun _ => ?_
    refine Agree.bind (hinfo .transfers) fun ts _ hts => ?_
    subst hts
    exact agree_pure rfl
  refine Agree.bind (blind_cstr (hinfo .hash)) fun hash _ hhash => ?_
  refine Agree.bind (blind_cstr (hinfo .paymentId)) fun paymentId _ hpaymentId => ?_
  refine Agree.bind (hinfo .amount) fun a _ ha => ?_
  subst ha
  refine (blind_displayAmount h a).bind fun amount _ hamount => ?_
  refine Agree.bind (hinfo .fee) fun f _ hf => ?_
  subst hf
  refine (blind_displayAmount h f).bind fun fee _ hfee => ?_
  refine htransfers.bind fun ts _ hts => ?_
  subst hhash hpaymentId hamount hfee hts
  refine agree_foldlM (fun text text' t htext => ?_) ts rfl
  subst htext
  refine (blind_displayAmount h t.amount).bind fun amount' _ hamount' => ?_
  subst hamount'
  exact agree_pure rfl

/-! ### Sending -/

theorem blind_shouldPerformSegue (w : Wallet) (form : Form) :
    Blind (CreateTransactionViewController.shouldPerformSegue w form) r r' := by
  obtain ⟨address, amount, paymentId, mixin⟩ := form
  rcases amount with _ | rawAmount
  · exact agree_pure rfl
  · refine agree_ite Iff.rfl (fun _ => agree_pure rfl) fun _ => ?_
    refine Agree.bind (A := Eq) (blind_call h id) fun amount _ hamount => ?_
    subst hamount
    refine agree_ite Iff.rfl (fun _ => ?_) fun _ => agree_pure rfl
    refine Agree.bind (A := Eq) (blind_call h id) fun unlocked _ hunlocked => ?_
    subst hunlocked
    exact agree_pure rfl

theorem blind_prepare (w : Wallet) (form : Form) (vc : ConfirmTransactionViewController) :
    Blind (CreateTransactionViewController.prepare w form vc) r r' := by
  obtain ⟨address, amount, paymentId, mixin⟩ := form
  rcases address with _ | address
  · exact agree_pure rfl
  rcases amount with _ | rawAmount
  · exact agree_pure rfl
  refine agree_ite Iff.rfl (fun _ => ?_) fun _ => agree_pure rfl
  refine Agree.bind (A := Eq) (blind_call h id) fun amount _ hamount => ?_
  subst hamount
  have hcreate : Blind (w.createTransaction address (paymentId.getD "") amount
      ((UInt32.parse (mixin.getD "")).getD 0) 1) r r' :=
    Agree.bind (A := Eq) (blind_call h id) fun _ _ ht => agree_pure (congrArg _ ht)
  refine hcreate.bind fun t _ ht => ?_
  subst ht
  exact agree_pure rfl

theorem blind_viewDidLoad (vc : ConfirmTransactionViewController) :
    Blind vc.viewDidLoad r r' := by
  obtain ⟨wallet, transaction, address, paymentId, mixinCount⟩ := vc
  rcases transaction with _ | t
  · exact agree_pure rfl
  have hpending : ∀ c, Blind (call (.pending t.internal c)) r r' := fun c => blind_call h id
  refine Agree.bind (hpending .status) fun status _ hstatus => ?_
  subst hstatus
  refine agree_ite Iff.rfl (fun _ => ?_) fun _ => ?_
  · refine Agree.bind (blind_cstr (hpending .errorString)) fun error _ herror => ?_
    subst herror
    exact agree_pure rfl
  · refine Agree.bind (hpending .amount) fun a _ ha => ?_
    subst ha
    refine (blind_displayAmount h a).bind fun amount _ hamount => ?_
    refine Agree.bind (hpending .fee) fun f _ hf => ?_
    subst hf
    refine (blind_displayAmount h f).bind fun fee _ hfee => ?_
    subst hamount hfee
    exact agree_pure rfl

theorem blind_transfer (w : Wallet) (form : Form) :
    Blind (CreateTransactionViewController.transfer w form) r r' := by
  refine (blind_shouldPerformSegue h w form).bind fun passed _ hpassed => ?_
  subst hpassed
  refine agree_ite Iff.rfl (fun _ => ?_) fun _ => agree_pure rfl
  refine agree_ask ?_
  rw [h.wallet]
  rcases r'.wallet with _ | v
  · exact agree_pure rfl
  · refine (blind_prepare h w form (.new v)).bind fun vc _ hvc => ?_
    subst hvc
    refine (blind_viewDidLoad h vc).bind fun text _ htext => ?_
    subst htext
    rcases text with _ | text
    · exact agree_pure rfl
    · exact agree_pure rfl

/-! ### Opening a wallet -/

theorem same_native {o o' : Opening} (ho : SameOpening o o') :
    o.handle r.toEnv = o'.handle r'.toEnv ∧
      List.Forall₂ Same (o.native r.toEnv) (o'.native r'.toEnv) := by
  have hrest : ∀ w w' : Handle, w = w' → List.Forall₂ Same
      [.call (.wallet w .history) (r.answers _), .call (.wallet w (.setListener w)) (r.answers _)]
      [.call (.wallet w' .history) (r'.answers _),
        .call (.wallet w' (.setListener w')) (r'.answers _)] := by
    rintro w _ rfl
    exact .cons (.refl _) (.cons (.refl _) .nil)
  have hpath : ∀ f, (walletFile r.documents f).map cstr = (walletFile r'.documents f).map cstr := by
    intro f
    rw [h.documents]
  cases ho with
  | create f p p' l =>
    have hcall : ∀ path path', path = path' →
        (r.answers (.manager (.createWallet path (cstr p) (cstr l) testNet)) : Handle) =
          r'.answers (.manager (.createWallet path' (cstr p') (cstr l) testNet)) ∧
        Same (.call (.manager (.createWallet path (cstr p) (cstr l) testNet)) (r.answers _))
          (.call (.manager (.createWallet path' (cstr p') (cstr l) testNet)) (r'.answers _)) := by
      rintro path _ rfl
      have heq := h.answers.createWallet path (cstr p) (cstr p') (cstr l) testNet
      exact ⟨heq, heq ▸ .createWallet ..⟩
    obtain ⟨hhandle, hfirst⟩ := hcall _ _ (hpath f)
    exact ⟨hhandle, .cons hfirst (hrest _ _ hhandle)⟩
  | «open» f p p' b height =>
    have hcall : ∀ path path', path = path' →
        (r.answers (.manager (.openWallet path (cstr p) testNet)) : Handle) =
          r'.answers (.manager (.openWallet path' (cstr p') testNet)) ∧
        Same (.call (.manager (.openWallet path (cstr p) testNet)) (r.answers _))
          (.call (.manager (.openWallet path' (cstr p') testNet)) (r'.answers _)) := by
      rintro path _ rfl
      have heq := h.answers.openWallet path (cstr p) (cstr p') testNet
      exact ⟨heq, heq ▸ .openWallet ..⟩
    obtain ⟨hhandle, hfirst⟩ := hcall _ _ (hpath f)
    exact ⟨hhandle, .cons hfirst (hrest _ _ hhandle)⟩
  | recover f m m' height =>
    have hcall : ∀ path path', path = path' →
        (r.answers (.manager (.recoveryWallet path (cstr m) testNet height)) : Handle) =
          r'.answers (.manager (.recoveryWallet path' (cstr m') testNet height)) ∧
        Same (.call (.manager (.recoveryWallet path (cstr m) testNet height)) (r.answers _))
          (.call (.manager (.recoveryWallet path' (cstr m') testNet height)) (r'.answers _)) := by
      rintro path _ rfl
      have heq := h.answers.recoveryWallet path (cstr m) (cstr m') testNet height
      exact ⟨heq, heq ▸ .recoveryWallet ..⟩
    obtain ⟨hhandle, hfirst⟩ := hcall _ _ (hpath f)
    exact ⟨hhandle, .cons hfirst (hrest _ _ hhandle)⟩

theorem same_opening {o o' : Opening} (ho : SameOpening o o') :
    List.Forall₂ Same (o.code.log r.toEnv) (o'.code.log r'.toEnv) := by
  obtain ⟨hhandle, hnative⟩ := same_native h ho
  have hblock : o.block = o'.block := by cases ho <;> rfl
  rw [o.log_code, o'.log_code, hhandle, hblock]
  refine List.rel_append (List.rel_append hnative (same_writes ho)) ?_
  exact .cons (.refl _) (.cons (.refl _) .nil)

/-- What the record reopens. -/
theorem same_saved : Option.Rel SameOpening (saved r.toEnv) (saved r'.toEnv) := by
  obtain ⟨hfile, hrecovering, hheight, hpassword⟩ := h.record
  have hexists : r.fileExists = r'.fileExists := h.fileExists
  have hdocuments : r.documents = r'.documents := h.documents
  have hflag : r.record.isRecovering = r'.record.isRecovering := congrArg (·.getD false) hrecovering
  have hrestore : r.record.restoreHeight = r'.record.restoreHeight := congrArg (·.getD 0) hheight
  unfold saved
  rw [hfile, hflag, hrestore, hexists, hdocuments]
  rcases r'.record .walletFile with _ | f
  · exact .none
  rcases hp : r.record .password with _ | p
  · rcases hp' : r'.record .password with _ | p'
    · exact .none
    · rw [hp, hp'] at hpassword
      cases hpassword
  · rcases hp' : r'.record .password with _ | p'
    · rw [hp, hp'] at hpassword
      cases hpassword
    · dsimp only
      split
      · exact .some (.open f p p' _ _)
      · exact .none

/-- An operation that is asked for, or not. -/
theorem same_opening? {o o' : Option Opening} (ho : Option.Rel SameOpening o o') :
    o.isSome = o'.isSome ∧ List.Forall₂ Same (o.elim [] (·.code.log r.toEnv))
      (o'.elim [] (·.code.log r'.toEnv)) := by
  cases ho with
  | none => exact ⟨rfl, .nil⟩
  | some ho => exact ⟨rfl, same_opening h ho⟩

theorem blind_mainAppears : Blind MainViewController.viewWillAppear r r' := by
  obtain ⟨hval, hlog⟩ := MainViewController.viewWillAppear_eq r.toEnv
  obtain ⟨hval', hlog'⟩ := MainViewController.viewWillAppear_eq r'.toEnv
  obtain ⟨hsome, hopening⟩ := same_opening? h (same_saved h)
  rw [Blind, Agree, hval, hval', hlog, hlog', ← Option.not_isSome, ← Option.not_isSome, hsome]
  exact ⟨rfl, hopening⟩

theorem agree_generateClicked {f f' : LoginForm} (hf : SameForm f f') :
    Agree Same Eq f.generateClicked r.toEnv f'.generateClicked r'.toEnv := by
  obtain ⟨hval, hlog⟩ := f.generateClicked_eq r.toEnv
  obtain ⟨hval', hlog'⟩ := f'.generateClicked_eq r'.toEnv
  obtain ⟨hsome, hopening⟩ := same_opening? h (same_form hf)
  rw [Agree, hval, hval', hlog, hlog']
  exact ⟨hsome, hopening⟩

end

/-! ## The labels -/

theorem same_map {es es' : List Effect} (h : List.Forall₂ Same es es') :
    List.Forall₂ SameScreen (es.map .app) (es'.map .app) := by
  rw [List.forall₂_map_left_iff, List.forall₂_map_right_iff]
  exact h.imp fun _ _ => .app

theorem agree_lift {α : Type} {A : α → α → Prop} {m n : AppCode α} {r r' : ScreenEnv}
    (h : Agree Same A m r.toEnv n r'.toEnv) : Agree SameScreen A (lift m) r (lift n) r' :=
  ⟨h.1, same_map h.2⟩

theorem blind_get {r r' : ScreenEnv} (self : CachedHeight) {query : AppCode UInt64}
    (hquery : Blind query r r') (checked answered : Rat) :
    Blind (self.get query checked answered) r r' := by
  refine agree_ite Iff.rfl (fun _ => ?_) fun _ => agree_pure rfl
  refine hquery.bind fun height _ heq => ?_
  subst heq
  exact agree_pure rfl

/-- In both environments the code does the same, but for secrets. -/
abbrev BlindScreen (m : ScreenCode PUnit) (r r' : ScreenEnv) : Prop :=
  Agree SameScreen (fun _ _ => True) m r m r'

section
variable {r r' : ScreenEnv} (h : SameEnv r r')
include h

theorem blind_refreshBalance (w : Option Wallet) :
    BlindScreen (WalletViewController.Labels.refreshBalance w) r r' := by
  have hbalance : Blind (WalletViewController.refreshBalance w) r r' := by
    rcases w with _ | w
    · exact agree_pure rfl
    · exact blind_call h id
  refine (agree_lift hbalance).bind fun balance _ heq => ?_
  subst heq
  exact agree_emit (.refl _)

theorem blind_refreshBlockHeights (w : Option Wallet) :
    BlindScreen (WalletViewController.Labels.refreshBlockHeights w) r r' := by
  rcases w with _ | w
  · exact agree_pure trivial
  refine agree_ask ?_
  rw [h.heights, h.heightChecked, h.heightAnswered, h.targetChecked, h.targetAnswered]
  refine Agree.bind (A := Eq) (agree_lift (blind_call h id)) fun height _ hheight => ?_
  subst hheight
  have hdaemon : ∀ m : DaemonHeights,
      Blind (w.daemonBlockChainHeight m r'.heightChecked r'.heightAnswered) r r' := by
    intro m
    refine (blind_get _ (blind_call h id) _ _).bind fun x _ hx => ?_
    subst hx
    exact agree_pure rfl
  have htarget : ∀ m : DaemonHeights,
      Blind (w.daemonBlockChainTargetHeight m r'.targetChecked r'.targetAnswered) r r' := by
    intro m
    refine (blind_get _ (blind_call h id) _ _).bind fun x _ hx => ?_
    subst hx
    exact agree_pure rfl
  refine (agree_lift (hdaemon _)).bind fun x _ hx => ?_
  subst hx
  refine (agree_lift (htarget _)).bind fun y _ hy => ?_
  subst hy
  refine (agree_emit (.refl _)).bind fun _ _ _ => ?_
  exact agree_emit (.refl _)

theorem blind_resetWallet : BlindScreen WalletViewController.Labels.resetWallet r r' := by
  have hemit : ∀ e, BlindScreen (Code.emit e) r r' := fun e => agree_emit (.refl e)
  refine agree_ask ?_
  rw [h.wallet]
  refine (hemit _).bind fun _ _ _ => ?_
  rcases r'.wallet with _ | w
  · exact agree_pure trivial
  refine (hemit _).bind fun _ _ _ => ?_
  refine Agree.bind (A := Eq) (agree_lift (blind_cstr (blind_call h id))) fun address _ heq => ?_
  subst heq
  refine (hemit _).bind fun _ _ _ => ?_
  refine Agree.bind (agree_lift (agree_getSeed w _ _)) fun seed seed' _ => ?_
  refine (agree_emit (.mnemonic seed seed')).bind fun _ _ _ => ?_
  exact (blind_refreshBalance h (some w)).bind fun _ _ _ => blind_refreshBlockHeights h (some w)

theorem blind_redraw (w : Option Wallet) (rs : List Redraw) :
    BlindScreen (WalletViewController.Labels.redraw w rs) r r' := by
  induction rs with
  | nil => exact agree_pure trivial
  | cons rd rs ih =>
    cases rd with
    | balance => exact (blind_refreshBalance h w).bind fun _ _ _ => ih
    | blockHeights => exact (blind_refreshBlockHeights h w).bind fun _ _ _ => ih

end

/-! ## Inputs -/

section
variable {s s' : Process} (h : SameProcess s s') {r r' : ScreenEnv} (hr : SameOutside r r')
include h hr

/-- What follows from an effect. -/
theorem SameProcess.notified {e e' : ScreenEffect} (he : SameScreen e e') :
    List.Forall₂ SameScreen (s.notified r e) (s'.notified r' e') := by
  have hstep := h.applyScreen he
  by_cases hassign : ∃ w, e = .app (.assign w)
  · obtain ⟨w, rfl⟩ := hassign
    obtain rfl : e' = .app (.assign w) := by
      cases he with
      | refl => rfl
      | app he => cases he; rfl
    refine .cons he ?_
    simp only [h.observing]
    split
    · exact (blind_resetWallet (hstep.env hr)).2
    · exact .nil
  · have hne' : ∀ w, e' ≠ .app (.assign w) := by
      rintro w rfl
      cases he with
      | refl => exact hassign ⟨w, rfl⟩
      | app he =>
        cases he
        exact hassign ⟨w, rfl⟩
    rw [s.notified_of_ne r fun w hw => hassign ⟨w, hw⟩, s'.notified_of_ne r' hne']
    exact .cons he .nil

omit h hr in
theorem SameProcess.run (h : SameProcess s s') {es es' : List ScreenEffect}
    (hes : List.Forall₂ SameScreen es es') :
    SameProcess (Runs.run Process.applyScreen s es) (Runs.run Process.applyScreen s' es') :=
  Runs.run_related (fun _ _ _ _ hs he => hs.applyScreen he) hes h

theorem SameProcess.trace {es es' : List ScreenEffect} (hes : List.Forall₂ SameScreen es es') :
    List.Forall₂ SameScreen (s.trace r es) (s'.trace r' es') := by
  induction hes generalizing s s' with
  | nil => exact .nil
  | cons he _ ih =>
    have hnotified := h.notified hr he
    exact List.rel_append hnotified (ih (h.run hnotified))

end

/-- Where the screens go. -/
abbrev SameAfter (f f' : Process → Process) : Prop :=
  ∀ t t', SameProcess t t' → SameProcess (f t) (f' t')

theorem same_launch {x x' : Record} (h : SameRecord x x') (now : Rat)
    {past past' : List (List Effect)} (hpast : List.Forall₂ (List.Forall₂ Same) past past') :
    SameProcess (Process.launch x now past) (Process.launch x' now past') :=
  ⟨h, rfl, rfl, .nil, hpast, rfl, rfl, rfl, rfl, rfl, rfl, fun _ _ => rfl, rfl, rfl, rfl, rfl, rfl,
    rfl⟩

theorem SameProcess.die {s s' : Process} (h : SameProcess s s') (now : Rat) :
    SameProcess (s.die now) (s'.die now) := same_launch h.record now (.cons h.log h.past)

section
variable {s s' : Process} (h : SameProcess s s') {r r' : ScreenEnv} (hr : SameOutside r r')
include h hr

/-- **The code of an input**, event by event. -/
theorem SameProcess.code {e e' : Event} (he : SameEvent e e') :
    Agree SameScreen SameAfter (s.code r.now e) (s.env r) (s'.code r'.now e') (s'.env r') := by
  have henv : SameEnv (s.env r) (s'.env r') := h.env hr
  have hid : ∀ {α : Type} {A : α → α → Prop} {m n : AppCode α},
      Agree Same A m (s.env r).toEnv n (s'.env r').toEnv →
      Agree SameScreen SameAfter (do let _ ← lift m; return id) (s.env r)
        (do let _ ← lift n; return id) (s'.env r') :=
    fun hm => (agree_lift hm).bind fun _ _ _ => agree_pure fun _ _ ht => ht
  have hsubmit : ∀ f f', SameForm f f' → Agree SameScreen SameAfter
      (s.code r.now (.submit f)) (s.env r) (s'.code r'.now (.submit f')) (s'.env r') := by
    intro f f' hf
    refine (agree_lift (agree_generateClicked henv hf)).bind fun dismissed _ heq => ?_
    subst heq
    exact agree_pure fun _ _ ht => { ht with login := congrArg (· && !dismissed) ht.login }
  cases he with
  | submit hform => exact hsubmit _ _ hform
  | refl e =>
    cases e with
    | submit form => exact hsubmit _ _ (.refl form)
    | mainAppears =>
      refine (agree_lift (blind_mainAppears henv)).bind fun segue _ heq => ?_
      subst heq
      exact agree_pure fun _ _ ht => { ht with login := rfl }
    | walletAppears =>
      refine (blind_resetWallet henv).bind fun _ _ _ => ?_
      exact agree_pure fun _ _ ht => { ht with observing := rfl }
    | walletDisappears => exact agree_pure fun _ _ ht => { ht with observing := rfl }
    | refreshButton =>
      simp only [Process.code]
      rw [h.shown]
      exact hid (blind_refreshButton henv _)
    | callback w c => exact hid (blind_listener henv w c)
    | block i =>
      simp only [Process.code]
      rw [h.blocks]
      rcases s'.app.blocks[i]? with _ | b
      · exact agree_pure fun _ _ ht => ht
      · refine (agree_lift (blind_initBlock henv b)).bind fun _ _ _ => ?_
        exact agree_pure fun _ _ ht =>
          { ht with blocks := congrArg (·.eraseIdx i) ht.blocks }
    | redraw =>
      simp only [Process.code]
      rw [h.main, h.shown]
      rcases s'.main with _ | ⟨rs, q⟩
      · exact agree_pure fun _ _ ht => ht
      · refine (blind_redraw henv _ rs).bind fun _ _ _ => ?_
        exact agree_pure fun _ _ ht => { ht with main := congrArg List.tail ht.main }
    | enterBackground => exact hid (blind_save henv)
    | historyAppears =>
      refine (agree_lift (blind_history henv)).bind fun fetched _ heq => ?_
      subst heq
      rcases fetched with _ | ⟨w, rows⟩
      · exact agree_pure fun _ _ ht => ht
      · exact agree_pure fun _ _ ht => { ht with rows := rfl }
    | cell i =>
      simp only [Process.code]
      rw [h.rows]
      rcases s'.rows[i]? with _ | t
      · exact agree_pure fun _ _ ht => ht
      · refine (agree_lift (blind_cellForRow henv t)).bind fun cell _ heq => ?_
        subst heq
        exact agree_pure fun _ _ ht => { ht with texts := congrArg (· ++ [.cell cell]) ht.texts }
    | select i =>
      simp only [Process.code]
      rw [h.rows]
      exact agree_pure fun _ _ ht => { ht with detail := congrArg (Option.or _) ht.detail }
    | detailAppears ts =>
      simp only [Process.code]
      rw [h.detail]
      rcases s'.detail with _ | t
      · exact agree_pure fun _ _ ht => ht
      · refine (agree_lift (blind_detail henv t ts)).bind fun text _ heq => ?_
        subst heq
        exact agree_pure fun _ _ ht => { ht with texts := congrArg (· ++ [.detail text]) ht.texts }
    | present =>
      simp only [Process.code]
      rw [h.create, h.wallet, hr.now]
      rcases s'.create with _ | v
      · rcases s'.app.wallet with _ | w
        · exact agree_pure fun _ _ ht => ht.die _
        · exact agree_pure fun _ _ ht => { ht with create := rfl }
      · exact agree_pure fun _ _ ht => ht
    | transfer form =>
      simp only [Process.code]
      rw [h.create, hr.now]
      rcases s'.create with _ | w
      · exact agree_pure fun _ _ ht => ht
      · refine (agree_lift (blind_transfer henv w form)).bind fun outcome _ heq => ?_
        subst heq
        rcases outcome with _ | _ | ⟨vc, text⟩
        · exact agree_pure fun _ _ ht => ht
        · exact agree_pure fun _ _ ht => ht.die _
        · exact agree_pure fun _ _ ht =>
            { ht with
              confirm := congrArg (vc :: ·) ht.confirm
              texts := congrArg (· ++ [.confirm text]) ht.texts }
    | back => exact agree_pure fun _ _ ht => { ht with confirm := congrArg List.tail ht.confirm }
    | confirm =>
      simp only [Process.code]
      rw [h.confirm]
      rcases s'.confirm with _ | ⟨vc, vcs⟩
      · exact agree_pure fun _ _ ht => ht
      · exact agree_pure fun _ _ ht => { ht with create := rfl, confirm := rfl }
    | relaunch => exact agree_pure fun _ _ ht => hr.now ▸ ht.die _

end

theorem SameInput.step {s s' : Process} (h : SameProcess s s') {i i' : Input}
    (hi : SameInput i i') :
    SameProcess (s.step i) (s'.step i') := by
  obtain ⟨hafter, heffects⟩ := h.code hi.env hi.event
  have htrace := h.trace hi.env heffects
  unfold Process.step
  rw [hi.cut]
  rcases i'.cut with _ | k
  · exact hafter _ _ (h.run htrace)
  · have hcut := h.run (List.forall₂_take k htrace)
    exact hi.env.now ▸ hcut.die _

/-- **No secret leaves its way.**  Inputs that differ in secrets lead to
    processes that differ in secrets. -/
theorem secrets_stay {x x' : Record} (hx : SameRecord x x') (now : Rat) {is is' : List Input}
    (his : List.Forall₂ SameInput is is') :
    SameProcess (Runs.run Process.step (Process.launch x now) is)
      (Runs.run Process.step (Process.launch x' now) is') :=
  Runs.run_related (fun _ _ _ _ h hi => hi.step h) his (same_launch hx now .nil)

/-- A wallet is created and shown, with one password and seed or with another. -/
theorem secrets_stay_created :
    let outside (seed : String) : ScreenEnv :=
      { (default : ScreenEnv) with
        answers := fun
          | .wallet _ .seed => seed
          | _ => default }
    let input (password seed : String) : List Input :=
      [⟨.submit (.create (some "savings") (some password) none), outside seed, none⟩,
        ⟨.walletAppears, outside seed, none⟩]
    let launched := Process.launch (fun _ => none) 0
    SameProcess (Runs.run Process.step launched (input "orange" "gels maul"))
      (Runs.run Process.step launched (input "banana" "ramp tusk")) := by
  intro outside input launched
  have houtside : ∀ seed seed', SameOutside (outside seed) (outside seed') := by
    intro seed seed'
    refine ⟨⟨fun c hc => ?_, fun _ _ _ _ _ => rfl, fun _ _ _ _ => rfl, fun _ _ _ _ _ => rfl⟩,
      rfl, rfl, rfl, rfl, rfl, rfl, rfl⟩
    cases c with
    | wallet w c => cases c <;> first | rfl | exact absurd trivial hc
    | static | manager | history | info | pending => rfl
  refine secrets_stay ⟨rfl, rfl, rfl, rfl⟩ 0 (.cons ⟨.submit (.create ..), houtside _ _, rfl⟩ ?_)
  exact .cons ⟨.refl _, houtside _ _, rfl⟩ .nil

end Secrets

end Monujo
