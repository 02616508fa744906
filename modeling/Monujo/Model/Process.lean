/-
  The app as one machine.

  A process holds the session record, what lives in `App`, the wallet screen
  with its labels, the main queue, and what the other screens hold and have
  shown.  Each input runs one piece of code, to its end or until the process is
  killed: `code` says which, and where the screens go then.  An unwrapped `nil`
  kills the process too.  Another one starts on the record that is left.

  The pieces of code do not overlap: what runs on different threads is taken
  one piece after the other.
-/
import Monujo.Model.HistoryScreen
import Monujo.Model.LoginScreens
import Monujo.Model.SendScreens
import Monujo.Model.WalletLabels

namespace Monujo

open Monero WalletStore
open WalletViewController (Outlet)
open WalletViewController.Labels (Looks looks_resetWallet app?)

/-- What the screens beside the wallet screen show. -/
inductive Shown where
  | cell (c : TransactionHistoryViewController.Cell)
  | detail (text : String)
  | confirm (text : String)
  deriving DecidableEq

structure Process where
  app : App
  /-- What the code of the process has done, in order. -/
  log : List Effect
  /-- What the code of the processes before has done, the last one first. -/
  past : List (List Effect)
  delegate : Wallet → Bool
  /-- The daemon heights each wrapper has cached. -/
  heights : Wallet → DaemonHeights
  /-- The blocks on the main queue. -/
  main : List (List Redraw)
  /-- `WalletViewController.wallet`. -/
  shown : Option Wallet
  /-- The wallet screen observes `walletInittedNotification`. -/
  observing : Bool
  lastTimeRefreshed : Rat
  labels : Outlet → String
  /-- The login is presented. -/
  login : Bool
  /-- `TransactionHistoryViewController.transactions`. -/
  rows : List TransactionInfo
  /-- `TransactionDetailViewController.transaction`. -/
  detail : Option TransactionInfo
  /-- The create screen, if it is presented: its wallet. -/
  create : Option Wallet
  /-- The confirm screens pushed on it, the topmost first. -/
  confirm : List ConfirmTransactionViewController
  /-- What the other screens have shown, in order. -/
  texts : List Shown

namespace Process

/-- A process starts, after those of `past`. -/
def launch (r : Record) (now : Rat) (past : List (List Effect) := []) : Process where
  app := ⟨r, none, [], []⟩
  log := []
  past := past
  delegate := fun _ => false
  heights := fun _ => .init
  main := []
  shown := none
  observing := false
  lastTimeRefreshed := now
  labels := fun _ => ""
  login := false
  rows := []
  detail := none
  create := none
  confirm := []
  texts := []

variable (s : Process)

/-- What the code of every process has done, the last process first. -/
def logs : List (List Effect) := s.log :: s.past

/-- The process is gone, and the next one starts. -/
def die (now : Rat) : Process := launch s.app.record now (s.log :: s.past)

/-- The environment as code sees it in the process. -/
def env (r : ScreenEnv) : ScreenEnv :=
  { r with
    toEnv := { s.app.env r.toEnv with
      delegate := s.delegate, lastTimeRefreshed := s.lastTimeRefreshed }
    heights := s.heights }

/-! ## Effects -/

/-- The delegates after an effect: a new wrapper has none. -/
def delegateAfter (delegate : Wallet → Bool) : Effect → Wallet → Bool
  | .call (.wallet _ (.setListener owner)) _ => Function.update delegate ⟨owner⟩ false
  | .setDelegate w => Function.update delegate w true
  | _ => delegate

/-- The cached heights after an effect: a new wrapper has none. -/
def heightsAfter (heights : Wallet → DaemonHeights) : Effect → Wallet → DaemonHeights
  | .call (.wallet _ (.setListener owner)) _ => Function.update heights ⟨owner⟩ .init
  | _ => heights

def mainAfter (main : List (List Redraw)) : Effect → List (List Redraw)
  | .main rs => main ++ [rs]
  | _ => main

def shownAfter (shown : Option Wallet) : Effect → Option Wallet
  | .show w => w
  | _ => shown

def refreshedAfter (lastTimeRefreshed : Rat) : Effect → Rat
  | .refreshedAt time => time
  | _ => lastTimeRefreshed

/-- What one effect on the app does. -/
def applyApp (e : Effect) : Process :=
  { s with
    app := s.app.apply e
    log := s.log ++ [e]
    delegate := delegateAfter s.delegate e
    heights := heightsAfter s.heights e
    main := mainAfter s.main e
    shown := shownAfter s.shown e
    lastTimeRefreshed := refreshedAfter s.lastTimeRefreshed e }

def applyScreen : ScreenEffect → Process
  | .app e => s.applyApp e
  | .heights w m => { s with heights := Function.update s.heights w m }
  | .text label x => { s with labels := Function.update s.labels label x }

/-- An effect with those that follow from it: an assignment of
    `WalletStore.wallet` notifies the wallet screen, which runs `resetWallet`. -/
def notified (r : ScreenEnv) (e : ScreenEffect) : List ScreenEffect :=
  e :: match e with
    | .app (.assign _) =>
      if s.observing then WalletViewController.Labels.resetWallet.log ((s.applyScreen e).env r)
      else []
    | _ => []

/-- What one effect does, with those that follow from it. -/
def apply (r : ScreenEnv) (e : ScreenEffect) : Process :=
  Runs.run applyScreen s (s.notified r e)

/-- The effects `es` with all that follow from them, in order. -/
def trace (s : Process) (r : ScreenEnv) : List ScreenEffect → List ScreenEffect
  | [] => []
  | e :: es => s.notified r e ++ (s.apply r e).trace r es

/-- The effects `es`, in order. -/
def perform (r : ScreenEnv) (es : List ScreenEffect) : Process :=
  Runs.run applyScreen s (s.trace r es)

end Process

/-! ## Inputs -/

/-- What the user, the system and the native library do to the app. -/
inductive Event where
  | mainAppears
  /-- The button of a login screen is tapped. -/
  | submit (form : LoginForm)
  | walletAppears
  | walletDisappears
  | refreshButton
  /-- A native wallet reports an event to its listener. -/
  | callback (w : Wallet) (c : Callback)
  /-- The `i`-th of the blocks left on the background queue runs. -/
  | block (i : ℕ)
  /-- The first block on the main queue runs. -/
  | redraw
  | enterBackground
  | historyAppears
  /-- The cell of a row is drawn. -/
  | cell (i : ℕ)
  /-- A row is tapped: its wrapper is handed to the detail screen. -/
  | select (i : ℕ)
  /-- The detail screen appears, with the transfers its wrapper has kept.  It is
      only pushed by a tap on a row, so it has a transaction. -/
  | detailAppears (m_transfers : List Transfer)
  /-- The create screen is presented. -/
  | present
  /-- Transfer is tapped. -/
  | transfer (form : Form)
  /-- The topmost confirm screen is left by its back button. -/
  | back
  /-- Confirm is pressed on the topmost confirm screen. -/
  | confirm
  | relaunch
  deriving DecidableEq

/-- An event, with what the code it runs reads outside the process.  The process
    is killed after the first `k` effects where `cut` is `some k`. -/
structure Input where
  event : Event
  env : ScreenEnv
  cut : Option ℕ

/-- The effects among `es` that come before the process dies. -/
def Input.reached (i : Input) (es : List ScreenEffect) : List ScreenEffect :=
  i.cut.elim es fun k => es.take k

theorem Input.reached_prefix (i : Input) (es : List ScreenEffect) : i.reached es <+: es := by
  unfold Input.reached
  rcases i.cut with _ | k
  · exact List.prefix_rfl
  · exact List.take_prefix k es

/-- What becomes of a tap on Transfer. -/
inductive Outcome where
  | refused
  | trapped
  /-- The confirm screen is shown with its text. -/
  | shown (vc : ConfirmTransactionViewController) (text : String)

/-- Transfer, on the create screen of the wallet `w`: the segue is checked, the
    confirm screen made, prepared and loaded. -/
def CreateTransactionViewController.transfer (w : Wallet) (form : Form) : AppCode Outcome := do
  if ← shouldPerformSegue w form then
    let env ← Code.ask
    match env.wallet with
    | none => return .trapped
    | some wallet =>
      let vc ← prepare w form (.new wallet)
      match ← vc.viewDidLoad with
      | some text => return .shown vc text
      | none => return .trapped
  else return .refused

section
variable (w : Wallet) (form : Form) (env : Env)

open CreateTransactionViewController

theorem CreateTransactionViewController.log_transfer : (transfer w form).log env =
    (shouldPerformSegue w form).log env ++
      if (shouldPerformSegue w form).val env then env.wallet.elim [] fun v =>
        (prepare w form (.new v)).log env ++ ((prepare w form (.new v)).val env).viewDidLoad.log env
      else [] := by
  rw [transfer, Code.log_bind, Code.log_ite, Code.log_bind, Code.val_ask, Code.log_ask,
    List.nil_append]
  rcases env.wallet with _ | v
  · rfl
  · simp only [Code.log_bind, Option.elim_some]
    rcases ((prepare w form (.new v)).val env).viewDidLoad.val env with _ | text
    · simp only [Code.log_pure, List.append_nil]
    · simp only [Code.log_pure, List.append_nil]

theorem CreateTransactionViewController.val_transfer : (transfer w form).val env =
    if (shouldPerformSegue w form).val env then env.wallet.elim .trapped fun v =>
      (((prepare w form (.new v)).val env).viewDidLoad.val env).elim .trapped
        (.shown ((prepare w form (.new v)).val env))
    else .refused := by
  rw [transfer, Code.val_bind, Code.val_ite, Code.val_bind, Code.val_ask]
  rcases env.wallet with _ | v
  · rfl
  · simp only [Code.val_bind, Option.elim_some]
    rcases ((prepare w form (.new v)).val env).viewDidLoad.val env with _ | text
    · rfl
    · rfl

end

namespace Process

variable (s : Process)

/-- The code an event runs, and where the screens go then. -/
def code (now : Rat) : Event → ScreenCode (Process → Process)
  | .mainAppears => do
    let segue ← lift MainViewController.viewWillAppear
    return fun t => { t with login := segue }
  | .submit form => do
    let dismissed ← lift form.generateClicked
    return fun t => { t with login := t.login && !dismissed }
  | .walletAppears => do
    WalletViewController.Labels.resetWallet
    return fun t => { t with observing := true }
  | .walletDisappears => return fun t => { t with observing := false }
  | .refreshButton => do
    lift (WalletViewController.refreshButtonClicked s.shown)
    return id
  | .callback w c => do
    lift (c.listener w)
    return id
  | .block i =>
    match s.app.blocks[i]? with
    | some b => do
      lift (initBlock b)
      return fun t => { t with app := { t.app with blocks := t.app.blocks.eraseIdx i } }
    | none => return id
  | .redraw =>
    match s.main with
    | rs :: _ => do
      WalletViewController.Labels.redraw s.shown rs
      return fun t => { t with main := t.main.tail }
    | [] => return id
  | .enterBackground => do
    lift AppDelegate.applicationDidEnterBackground
    return id
  | .historyAppears => do
    match ← lift TransactionHistoryViewController.viewWillAppear with
    | some (_, transactions) => return fun t => { t with rows := transactions }
    | none => return id
  | .cell i =>
    match s.rows[i]? with
    | some transaction => do
      let cell ← lift (TransactionHistoryViewController.cellForRow transaction)
      return fun t => { t with texts := t.texts ++ [.cell cell] }
    | none => return id
  | .select i => return fun t => { t with detail := s.rows[i]?.or t.detail }
  | .detailAppears m_transfers =>
    match s.detail with
    | some transaction => do
      let text ← lift (TransactionDetailViewController.viewWillAppear transaction m_transfers)
      return fun t => { t with texts := t.texts ++ [.detail text] }
    | none => return id
  | .present =>
    match s.create, s.app.wallet with
    | some _, _ => return id
    | none, some w => return fun t => { t with create := some w }
    | none, none => return fun t => t.die now
  | .transfer form =>
    match s.create with
    | none => return id
    | some w => do
      match ← lift (CreateTransactionViewController.transfer w form) with
      | .refused => return id
      | .trapped => return fun t => t.die now
      | .shown vc text => return fun t =>
        { t with confirm := vc :: t.confirm, texts := t.texts ++ [.confirm text] }
  | .back => return fun t => { t with confirm := t.confirm.tail }
  | .confirm =>
    match s.confirm with
    | vc :: _ => do
      lift vc.confirmButtonClicked
      return fun t => { t with create := none, confirm := [] }
    | [] => return id
  | .relaunch => return fun t => t.die now

/-- The effects of an input that is not cut. -/
def effects (i : Input) : List ScreenEffect := (s.code i.env.now i.event).log (s.env i.env)

/-- Where the screens go. -/
def after (i : Input) : Process → Process := (s.code i.env.now i.event).val (s.env i.env)

def step (i : Input) : Process :=
  match i.cut with
  | none => s.after i (s.perform i.env (s.effects i))
  | some k => (Runs.run applyScreen s ((s.trace i.env (s.effects i)).take k)).die i.env.now

/-! ## What the parts do -/

section
variable (r : ScreenEnv)

@[simp] theorem env_record : (s.env r).record = s.app.record := rfl
@[simp] theorem env_wallet : (s.env r).wallet = s.app.wallet := rfl
@[simp] theorem env_delegate : (s.env r).delegate = s.delegate := rfl
@[simp] theorem env_answers : (s.env r).answers = r.answers := rfl
@[simp] theorem env_documents : (s.env r).documents = r.documents := rfl
@[simp] theorem env_fileExists : (s.env r).fileExists = r.fileExists := rfl
@[simp] theorem env_heights : (s.env r).heights = s.heights := rfl

/-- `resetWallet` runs. -/
def reset : Process :=
  Runs.run applyScreen s (WalletViewController.Labels.resetWallet.log (s.env r))

@[simp] theorem trace_nil : s.trace r [] = [] := rfl

@[simp] theorem trace_cons (e : ScreenEffect) (es : List ScreenEffect) :
    s.trace r (e :: es) = s.notified r e ++ (s.apply r e).trace r es := rfl

@[simp] theorem perform_nil : s.perform r [] = s := rfl

@[simp] theorem perform_cons (e : ScreenEffect) (es : List ScreenEffect) :
    s.perform r (e :: es) = (s.apply r e).perform r es := Runs.run_append ..

theorem trace_append (es fs : List ScreenEffect) :
    s.trace r (es ++ fs) = s.trace r es ++ (s.perform r es).trace r fs := by
  induction es generalizing s with
  | nil => rfl
  | cons e es ih =>
    rw [List.cons_append, trace_cons, trace_cons, ih, perform_cons, List.append_assoc]

theorem perform_append (es fs : List ScreenEffect) :
    s.perform r (es ++ fs) = (s.perform r es).perform r fs := by
  rw [perform, trace_append, Runs.run_append]
  rfl

theorem apply_assign (w : Wallet) : s.apply r (.app (.assign w)) =
    if s.observing then (s.applyApp (.assign w)).reset r else s.applyApp (.assign w) := by
  unfold apply notified
  by_cases h : s.observing
  · simp only [h, if_true]
    rfl
  · simp only [h, Bool.false_eq_true, if_false]
    rfl

theorem notified_of_ne {e : ScreenEffect} (h : ∀ w, e ≠ .app (.assign w)) :
    s.notified r e = [e] := by
  cases e with
  | app e =>
    cases e with
    | assign w => exact absurd rfl (h w)
    | _ => rfl
  | _ => rfl

/-- What is notified only looks. -/
theorem notified_eq (e : ScreenEffect) :
    ∃ es, s.notified r e = e :: es ∧ ∀ e' ∈ es, Looks e' := by
  by_cases hne : ∀ w, e ≠ .app (.assign w)
  · exact ⟨[], notified_of_ne s r hne, by simp⟩
  · push Not at hne
    obtain ⟨w, rfl⟩ := hne
    refine ⟨_, rfl, ?_⟩
    by_cases hobs : s.observing
    · simp only [hobs, if_true]
      exact looks_resetWallet _
    · simp [hobs]

theorem apply_of_ne {e : ScreenEffect} (h : ∀ w, e ≠ .app (.assign w)) :
    s.apply r e = s.applyScreen e := by
  rw [apply, notified_of_ne s r h]
  rfl

/-- Nothing follows from effects that assign nothing. -/
theorem trace_eq {es : List ScreenEffect} (h : ∀ e ∈ es, ∀ w, e ≠ .app (.assign w)) :
    s.trace r es = es := by
  induction es generalizing s with
  | nil => rfl
  | cons e es ih =>
    rw [trace_cons, notified_of_ne s r (h e (by simp)), ih _ fun e' he' => h e' (by simp [he'])]
    rfl

theorem ne_assign_of_looks {e : ScreenEffect} (h : Looks e)
    (w : Wallet) : e ≠ .app (.assign w) := by
  rintro rfl
  exact h

/-- The code of the labels assigns nothing, so nothing is notified. -/
theorem perform_eq_run {es : List ScreenEffect}
    (h : ∀ e ∈ es, Looks e) :
    s.perform r es = Runs.run applyScreen s es := by
  rw [perform, trace_eq s r fun e he => ne_assign_of_looks (h e he)]

/-- What all effects have, those that follow from them have too, if the labels
    have it. -/
theorem trace_of {P : ScreenEffect → Prop}
    (hlooks : ∀ e, Looks e → P e) {es : List ScreenEffect}
    (h : ∀ e ∈ es, P e) : ∀ e ∈ s.trace r es, P e := by
  induction es generalizing s with
  | nil =>
    intro e he
    cases he
  | cons e es ih =>
    intro e' he'
    obtain ⟨fs, hfs, hlook⟩ := s.notified_eq r e
    rw [trace_cons, hfs, List.mem_append, List.mem_cons] at he'
    rcases he' with (rfl | he') | he'
    · exact h _ (by simp)
    · exact hlooks e' (hlook e' he')
    · exact ih _ (fun e he => h e (by simp [he])) e' he'

/-- What the effects of `P` keep is kept by code that has only such effects, if
    they are enough for the labels; and so it is if the code is cut. -/
theorem run_keeps {R : Process → Process → Prop} (refl : ∀ s, R s s)
    (trans : ∀ s t u, R s t → R t u → R s u) {P : ScreenEffect → Prop}
    (hlooks : ∀ e, Looks e → P e)
    (keep : ∀ s e, P e → R s (applyScreen s e)) {es fs : List ScreenEffect} (h : ∀ e ∈ es, P e)
    (hfs : fs <+: s.trace r es) : R s (Runs.run applyScreen s fs) :=
  Runs.run_keeps applyScreen refl trans
    (fun t e he => keep t e (trace_of s r hlooks h e (hfs.subset he))) s

theorem perform_keeps {R : Process → Process → Prop} (refl : ∀ s, R s s)
    (trans : ∀ s t u, R s t → R t u → R s u) {P : ScreenEffect → Prop}
    (hlooks : ∀ e, Looks e → P e)
    (keep : ∀ s e, P e → R s (applyScreen s e)) {es : List ScreenEffect} (h : ∀ e ∈ es, P e) :
    R s (s.perform r es) := s.run_keeps r refl trans hlooks keep h List.prefix_rfl

theorem past_run (es : List ScreenEffect) : (Runs.run applyScreen s es).past = s.past := by
  refine Runs.run_keeps applyScreen (R := fun s t => t.past = s.past) (fun _ => rfl)
    (fun _ _ _ hst htu => htu.trans hst) (fun s e _ => ?_) s
  cases e <;> rfl

/-- The log says what the effects were, -/
theorem log_run (es : List ScreenEffect) :
    (Runs.run applyScreen s es).log = s.log ++ es.filterMap app? := by
  induction es generalizing s with
  | nil => exact (List.append_nil _).symm
  | cons e es ih =>
    rw [Runs.run_cons, ih]
    cases e with
    | app e => exact List.append_assoc s.log [e] _
    | heights | text => rfl

/-- and they have done that to the app. -/
theorem app_run (es : List ScreenEffect) :
    (Runs.run applyScreen s es).app = s.app.perform (es.filterMap app?) := by
  induction es generalizing s with
  | nil => rfl
  | cons e es ih =>
    rw [Runs.run_cons, ih]
    cases e <;> rfl

theorem filterMap_of_looks {β : Type*} {g : Effect → Option β}
    (hg : ∀ e, Looks (.app e) → g e = none) {es : List ScreenEffect} (h : ∀ e ∈ es, Looks e) :
    (es.filterMap app?).filterMap g = [] := by
  refine List.filterMap_eq_nil_iff.2 fun e he => ?_
  obtain ⟨e', he', heq⟩ := List.mem_filterMap.1 he
  cases e' with
  | app e' =>
    cases heq
    exact hg e (h _ he')
  | heights | text => cases heq

/-- What no look can be is found among the effects themselves. -/
theorem filterMap_trace {β : Type*} {g : Effect → Option β} (hg : ∀ e, Looks (.app e) → g e = none)
    (es : List ScreenEffect) :
    ((s.trace r es).filterMap app?).filterMap g = (es.filterMap app?).filterMap g := by
  induction es generalizing s with
  | nil => rfl
  | cons e es ih =>
    obtain ⟨fs, hfs, hlook⟩ := s.notified_eq r e
    rw [trace_cons, hfs, List.filterMap_append, List.filterMap_append, ih, ← List.singleton_append,
      List.filterMap_append, List.filterMap_append, filterMap_of_looks hg hlook, List.append_nil,
      ← List.singleton_append (l := es), List.filterMap_append, List.filterMap_append]

theorem not_write_of_looks (e : Effect) (h : Looks (.app e)) : e.write? = none := by
  cases e <;> first | rfl | exact h.elim

theorem not_assign_of_looks (e : Effect) (h : Looks (.app e)) : e.assign? = none := by
  cases e <;> first | rfl | exact h.elim

theorem not_background_of_looks (e : Effect) (h : Looks (.app e)) : e.background? = none := by
  cases e <;> first | rfl | exact h.elim

/-- Of the app, looks change nothing but the calls. -/
theorem app_looks {es : List ScreenEffect} (h : ∀ e ∈ es, Looks e) :
    let t := Runs.run applyScreen s es
    t.app.record = s.app.record ∧ t.app.wallet = s.app.wallet ∧ t.app.blocks = s.app.blocks := by
  intro t
  rw [show t.app = _ from s.app_run es, App.record_perform, App.wallet_perform,
    App.blocks_perform, writesOf, filterMap_of_looks not_write_of_looks h,
    filterMap_of_looks not_assign_of_looks h, filterMap_of_looks not_background_of_looks h]
  exact ⟨rfl, rfl, List.append_nil _⟩

section
variable (es : List ScreenEffect)

/-- And so does what is notified. -/
theorem record_perform :
    (s.perform r es).app.record = s.app.record.put (writesOf (es.filterMap app?)) := by
  rw [perform, app_run, App.record_perform, writesOf, filterMap_trace s r not_write_of_looks]
  rfl

theorem wallet_perform : (s.perform r es).app.wallet =
    ((es.filterMap app?).filterMap Effect.assign?).getLast?.or s.app.wallet := by
  rw [perform, app_run, App.wallet_perform, filterMap_trace s r not_assign_of_looks]

theorem blocks_perform : (s.perform r es).app.blocks =
    s.app.blocks ++ (es.filterMap app?).filterMap Effect.background? := by
  rw [perform, app_run, App.blocks_perform, filterMap_trace s r not_background_of_looks]

theorem log_perform {β : Type*} {g : Effect → Option β} (hg : ∀ e, Looks (.app e) → g e = none) :
    (s.perform r es).log.filterMap g = s.log.filterMap g ++ (es.filterMap app?).filterMap g := by
  rw [perform, log_run, List.filterMap_append, filterMap_trace s r hg]

end

theorem log_run_take (k : ℕ) (es : List ScreenEffect) :
    (Runs.run applyScreen s (es.take k)).log <+: (Runs.run applyScreen s es).log := by
  rw [log_run, log_run, List.prefix_append_right_inj]
  exact (List.take_prefix k es).filterMap _

/-- Code that assigns nothing does to the app what its log says, and no more. -/
theorem perform_app {es : List Effect} (h : ∀ w, Effect.assign w ∉ es) :
    (s.perform r (es.map .app)).log = s.log ++ es ∧
      (s.perform r (es.map .app)).app = s.app.perform es := by
  induction es generalizing s with
  | nil => exact ⟨(List.append_nil _).symm, rfl⟩
  | cons e es ih =>
    have hne : ∀ w, ScreenEffect.app e ≠ .app (.assign w) := by
      rintro w heq
      cases heq
      exact h w (List.mem_cons_self ..)
    obtain ⟨hlog, happ⟩ := ih (s.applyApp e) fun w hw => h w (by simp [hw])
    rw [List.map_cons, perform_cons, apply_of_ne _ _ hne]
    exact ⟨hlog.trans (List.append_assoc s.log [e] es), happ⟩

end

/-! ## The inputs, one by one -/

section
variable (r : ScreenEnv)

/-- Code of the app. -/
def runCode {α : Type} (m : AppCode α) : Process :=
  s.perform r ((m.log (s.env r).toEnv).map .app)

/-- An opening, if there is one. -/
def open? (o : Option Opening) : Process :=
  s.perform r ((o.elim [] fun o => o.code.log (s.env r).toEnv).map .app)

theorem effects_mainAppears (cut : Option ℕ) : s.effects ⟨.mainAppears, r, cut⟩ =
    ((saved (s.env r).toEnv).elim [] fun o => o.code.log (s.env r).toEnv).map .app := by
  rw [← (MainViewController.viewWillAppear_eq (s.env r).toEnv).2]
  simp only [effects, code, Code.log_bind, Code.log_pure, List.append_nil, log_lift]

theorem effects_submit (form : LoginForm) (cut : Option ℕ) : s.effects ⟨.submit form, r, cut⟩ =
    (form.opening?.elim [] fun o => o.code.log (s.env r).toEnv).map .app := by
  rw [← (form.generateClicked_eq (s.env r).toEnv).2]
  simp only [effects, code, Code.log_bind, Code.log_pure, List.append_nil, log_lift]

theorem effects_callback (w : Wallet) (c : Callback) (cut : Option ℕ) :
    s.effects ⟨.callback w c, r, cut⟩ = ((c.listener w).log (s.env r).toEnv).map .app := by
  simp only [effects, code, Code.log_bind, Code.log_pure, List.append_nil, log_lift]

theorem effects_enterBackground (cut : Option ℕ) :
    s.effects ⟨.enterBackground, r, cut⟩ = (save.log (s.env r).toEnv).map .app := by
  simp only [effects, code, Code.log_bind, Code.log_pure, List.append_nil, log_lift,
    AppDelegate.applicationDidEnterBackground]

theorem step_mainAppears : s.step ⟨.mainAppears, r, none⟩ =
    { s.open? r (saved (s.env r).toEnv) with login := (saved (s.env r).toEnv).isNone } := by
  have hval := (MainViewController.viewWillAppear_eq (s.env r).toEnv).1
  rw [open?, ← effects_mainAppears s r none, ← hval]
  simp only [step, after, code, Code.val_bind, Code.val_pure, val_lift]

theorem step_submit (form : LoginForm) : s.step ⟨.submit form, r, none⟩ =
    { s.open? r form.opening? with
      login := (s.open? r form.opening?).login && !form.opening?.isSome } := by
  have hval := (form.generateClicked_eq (s.env r).toEnv).1
  rw [open?, ← effects_submit s r form none, ← hval]
  simp only [step, after, code, Code.val_bind, Code.val_pure, val_lift]

theorem step_walletAppears : s.step ⟨.walletAppears, r, none⟩ =
    { s.perform r (WalletViewController.Labels.resetWallet.log (s.env r)) with
      observing := true } := by
  simp only [step, effects, after, code, Code.log_bind, Code.val_bind, Code.log_pure,
    Code.val_pure, List.append_nil]

theorem step_refreshButton : s.step ⟨.refreshButton, r, none⟩ =
    s.runCode r (WalletViewController.refreshButtonClicked s.shown) := by
  simp only [step, effects, after, code, Code.log_bind, Code.val_bind, Code.log_pure,
    Code.val_pure, List.append_nil, log_lift, runCode, id]

theorem step_callback (w : Wallet) (c : Callback) : s.step ⟨.callback w c, r, none⟩ =
    s.runCode r (c.listener w) := by
  simp only [step, effects, after, code, Code.log_bind, Code.val_bind, Code.log_pure,
    Code.val_pure, List.append_nil, log_lift, runCode, id]

theorem step_block_some {i : ℕ} {b : Block} (h : s.app.blocks[i]? = some b) :
    s.step ⟨.block i, r, none⟩ =
      { s.runCode r (initBlock b) with
        app := { (s.runCode r (initBlock b)).app with
          blocks := (s.runCode r (initBlock b)).app.blocks.eraseIdx i } } := by
  simp only [step, effects, after, code, h, Code.log_bind, Code.val_bind, Code.log_pure,
    Code.val_pure, List.append_nil, log_lift, runCode]

theorem step_block_none {i : ℕ} (h : s.app.blocks[i]? = none) : s.step ⟨.block i, r, none⟩ = s := by
  simp only [step, effects, after, code, h, Code.log_pure, Code.val_pure, perform_nil, id]

theorem step_redraw_cons {rs : List Redraw} {q : List (List Redraw)} (h : s.main = rs :: q) :
    s.step ⟨.redraw, r, none⟩ =
      { s.perform r ((WalletViewController.Labels.redraw s.shown rs).log (s.env r)) with
        main := (s.perform r
          ((WalletViewController.Labels.redraw s.shown rs).log (s.env r))).main.tail } := by
  simp only [step, effects, after, code, h, Code.log_bind, Code.val_bind, Code.log_pure,
    Code.val_pure, List.append_nil]

theorem step_redraw_nil (h : s.main = []) : s.step ⟨.redraw, r, none⟩ = s := by
  simp only [step, effects, after, code, h, Code.log_pure, Code.val_pure, perform_nil, id]

theorem step_enterBackground : s.step ⟨.enterBackground, r, none⟩ = s.runCode r save := by
  rw [runCode, ← effects_enterBackground s r none]
  simp only [step, after, code, Code.val_bind, Code.val_pure, id]

theorem step_historyAppears_some {w : Wallet} (h : s.app.wallet = some w) :
    s.step ⟨.historyAppears, r, none⟩ =
      { s.perform r [.app (.call (.history w.impl .getAll) (r.answers _))] with
        rows := List.map TransactionInfo.mk (r.answers (.history w.impl .getAll)) } := by
  have hval := TransactionHistoryViewController.val_viewWillAppear (s.env r).toEnv
  have hlog := TransactionHistoryViewController.log_viewWillAppear (s.env r).toEnv
  rw [env_wallet, h] at hval hlog
  simp only [step, effects, after, code, Code.log_bind, Code.val_bind, val_lift, log_lift, hval,
    hlog, Option.map_some, Code.log_pure, Code.val_pure, List.append_nil, Option.elim_some]
  rfl

theorem step_historyAppears_none (h : s.app.wallet = none) :
    s.step ⟨.historyAppears, r, none⟩ = s := by
  have hval := TransactionHistoryViewController.val_viewWillAppear (s.env r).toEnv
  have hlog := TransactionHistoryViewController.log_viewWillAppear (s.env r).toEnv
  rw [env_wallet, h] at hval hlog
  simp only [step, effects, after, code, Code.log_bind, Code.val_bind, val_lift, log_lift, hval,
    hlog, Option.map_none, Code.log_pure, Code.val_pure, List.append_nil, Option.elim_none,
    List.map_nil, perform_nil, id]

theorem step_cell_some {i : ℕ} {t : TransactionInfo} (h : s.rows[i]? = some t) :
    let cell := TransactionHistoryViewController.cellForRow t
    s.step ⟨.cell i, r, none⟩ =
      { s.runCode r cell with
        texts := (s.runCode r cell).texts ++ [.cell (cell.val (s.env r).toEnv)] } := by
  intro cell
  simp only [step, effects, after, code, h, Code.log_bind, Code.val_bind, Code.log_pure,
    Code.val_pure, List.append_nil, log_lift, val_lift, runCode]
  rfl

theorem step_cell_none {i : ℕ} (h : s.rows[i]? = none) : s.step ⟨.cell i, r, none⟩ = s := by
  simp only [step, effects, after, code, h, Code.log_pure, Code.val_pure, perform_nil, id]

theorem step_select (i : ℕ) :
    s.step ⟨.select i, r, none⟩ = { s with detail := s.rows[i]?.or s.detail } := rfl

theorem step_detailAppears_some {t : TransactionInfo} (h : s.detail = some t)
    (ts : List Transfer) :
    let detail := TransactionDetailViewController.viewWillAppear t ts
    s.step ⟨.detailAppears ts, r, none⟩ =
      { s.runCode r detail with
        texts := (s.runCode r detail).texts ++ [.detail (detail.val (s.env r).toEnv)] } := by
  intro detail
  simp only [step, effects, after, code, h, Code.log_bind, Code.val_bind, Code.log_pure,
    Code.val_pure, List.append_nil, log_lift, val_lift, runCode]
  rfl

theorem step_detailAppears_none (h : s.detail = none) (ts : List Transfer) :
    s.step ⟨.detailAppears ts, r, none⟩ = s := by
  simp only [step, effects, after, code, h, Code.log_pure, Code.val_pure, perform_nil, id]

theorem step_present : s.step ⟨.present, r, none⟩ =
    if s.create.isSome then s
    else s.app.wallet.elim (s.die r.now) fun w => { s with create := some w } := by
  rcases hc : s.create with _ | v
  · rcases hw : s.app.wallet with _ | w
    · simp only [step, effects, after, code, hc, hw, Code.log_pure, Code.val_pure, perform_nil]
      rfl
    · simp only [step, effects, after, code, hc, hw, Code.log_pure, Code.val_pure, perform_nil]
      rfl
  · simp only [step, effects, after, code, hc, Code.log_pure, Code.val_pure, perform_nil, id]
    rfl

theorem step_transfer_none (h : s.create = none) (form : Form) :
    s.step ⟨.transfer form, r, none⟩ = s := by
  simp only [step, effects, after, code, h, Code.log_pure, Code.val_pure, perform_nil, id]

theorem step_transfer_some {w : Wallet} (h : s.create = some w) (form : Form) :
    let transfer := CreateTransactionViewController.transfer w form
    s.step ⟨.transfer form, r, none⟩ = match transfer.val (s.env r).toEnv with
      | .refused => s.runCode r transfer
      | .trapped => (s.runCode r transfer).die r.now
      | .shown vc text =>
        { s.runCode r transfer with
          confirm := vc :: (s.runCode r transfer).confirm
          texts := (s.runCode r transfer).texts ++ [.confirm text] } := by
  intro transfer
  simp only [step, effects, after, code, h, Code.log_bind, Code.val_bind, val_lift, log_lift]
  rcases transfer.val (s.env r).toEnv with _ | _ | ⟨vc, text⟩
  · simp only [Code.log_pure, Code.val_pure, List.append_nil, id]
    rfl
  · simp only [Code.log_pure, Code.val_pure, List.append_nil]
    rfl
  · simp only [Code.log_pure, Code.val_pure, List.append_nil]
    rfl

theorem step_back : s.step ⟨.back, r, none⟩ = { s with confirm := s.confirm.tail } := rfl

theorem step_confirm : s.step ⟨.confirm, r, none⟩ =
    if s.confirm = [] then s else { s with create := none, confirm := [] } := by
  rcases hc : s.confirm with _ | ⟨vc, vcs⟩
  · simp only [step, effects, after, code, hc, Code.log_pure, Code.val_pure, perform_nil, id,
      if_true]
  · simp only [step, effects, after, code, hc, reduceCtorEq, if_false]
    rfl

end

/-- The code of the input unwraps a `nil`, if it runs so far. -/
def Traps (i : Input) : Prop :=
  match i.event with
  | .present => s.create = none ∧ s.app.wallet = none
  | .transfer form => ∃ w ∈ s.create,
    (CreateTransactionViewController.transfer w form).val (s.env i.env).toEnv = .trapped
  | _ => False

/-- The process `u` is `t` with its screens elsewhere, after the event `e`; a
    create screen that is new is for the wallet of `s`. -/
structure Flow (e : Event) (s t u : Process) : Prop where
  record : u.app.record = t.app.record
  wallet : u.app.wallet = t.app.wallet
  blocks : u.app.blocks = t.app.blocks ∨
    ∃ j, e = .block j ∧ u.app.blocks = t.app.blocks.eraseIdx j
  log : u.log = t.log
  past : u.past = t.past
  delegate : u.delegate = t.delegate
  heights : u.heights = t.heights
  shown : u.shown = t.shown
  lastTimeRefreshed : u.lastTimeRefreshed = t.lastTimeRefreshed
  labels : u.labels = t.labels
  create : u.create = t.create ∨ u.create = s.app.wallet ∨ u.create = none
  observing : e = .walletAppears ∨ e = .walletDisappears ∨ u.observing = t.observing
  sending : e = .present ∨ (∃ form, e = .transfer form) ∨ e = .back ∨ e = .confirm ∨
    u.create = t.create ∧ u.confirm = t.confirm

theorem after_cases (e : Event) (r : ScreenEnv) (t : Process) :
    (¬ s.Traps ⟨e, r, none⟩ ∧ e ≠ .relaunch ∧ Flow e s t (s.after ⟨e, r, none⟩ t)) ∨
    ((s.Traps ⟨e, r, none⟩ ∨ e = .relaunch) ∧ s.after ⟨e, r, none⟩ t = t.die r.now) := by
  have hid : Flow e s t t :=
    ⟨rfl, rfl, .inl rfl, rfl, rfl, rfl, rfl, rfl, rfl, rfl, .inl rfl, by simp, by simp⟩
  cases e with
  | mainAppears | submit | select =>
    exact .inl ⟨id, by simp, rfl, rfl, .inl rfl, rfl, rfl, rfl, rfl, rfl, rfl, rfl, .inl rfl,
      .inr (.inr rfl), .inr (.inr (.inr (.inr ⟨rfl, rfl⟩)))⟩
  | walletAppears | walletDisappears =>
    exact .inl ⟨id, by simp, rfl, rfl, .inl rfl, rfl, rfl, rfl, rfl, rfl, rfl, rfl, .inl rfl,
      by simp, .inr (.inr (.inr (.inr ⟨rfl, rfl⟩)))⟩
  | back =>
    exact .inl ⟨id, by simp, rfl, rfl, .inl rfl, rfl, rfl, rfl, rfl, rfl, rfl, rfl, .inl rfl,
      .inr (.inr rfl), by simp⟩
  | refreshButton | callback | enterBackground => exact .inl ⟨id, by simp, hid⟩
  | block =>
    refine .inl ⟨id, by simp, ?_⟩
    simp only [after, code]
    split
    · exact ⟨rfl, rfl, .inr ⟨_, rfl, rfl⟩, rfl, rfl, rfl, rfl, rfl, rfl, rfl, .inl rfl, by simp,
        by simp⟩
    · exact hid
  | redraw | cell | detailAppears =>
    refine .inl ⟨id, by simp, ?_⟩
    simp only [after, code]
    split <;>
      exact ⟨rfl, rfl, .inl rfl, rfl, rfl, rfl, rfl, rfl, rfl, rfl, .inl rfl, by simp, by simp⟩
  | historyAppears =>
    refine .inl ⟨id, by simp, ?_⟩
    simp only [after, code, Code.val_bind]
    split <;>
      exact ⟨rfl, rfl, .inl rfl, rfl, rfl, rfl, rfl, rfl, rfl, rfl, .inl rfl, by simp, by simp⟩
  | confirm =>
    refine .inl ⟨id, by simp, ?_⟩
    simp only [after, code]
    split
    · exact ⟨rfl, rfl, .inl rfl, rfl, rfl, rfl, rfl, rfl, rfl, rfl, .inr (.inr rfl), by simp,
        by simp⟩
    · exact hid
  | present =>
    simp only [after, code, Traps]
    rcases hc : s.create with _ | v
    · rcases hw : s.app.wallet with _ | w
      · exact .inr ⟨.inl ⟨rfl, rfl⟩, rfl⟩
      · refine .inl ⟨fun h => ?_, by simp, rfl, rfl, .inl rfl, rfl, rfl, rfl, rfl, rfl, rfl, rfl,
          .inr (.inl ?_), by simp, by simp⟩
        · cases h.2
        · exact hw.symm
    · refine .inl ⟨fun h => ?_, by simp, hid⟩
      cases h.1
  | transfer form =>
    simp only [after, code, Traps]
    rcases hc : s.create with _ | w
    · refine .inl ⟨?_, by simp, hid⟩
      rintro ⟨w, hw, -⟩
      cases hw
    · simp only [Code.val_bind, val_lift]
      have honly : ∀ v ∈ some w, v = w := fun v hv => (Option.some.inj hv).symm
      rcases hout : (CreateTransactionViewController.transfer w form).val (s.env r).toEnv
        with _ | _ | ⟨vc, text⟩
      · refine .inl ⟨?_, by simp, hid⟩
        rintro ⟨v, hv, htrapped⟩
        rw [honly v hv, hout] at htrapped
        cases htrapped
      · exact .inr ⟨.inl ⟨w, rfl, hout⟩, rfl⟩
      · refine .inl ⟨?_, by simp, rfl, rfl, .inl rfl, rfl, rfl, rfl, rfl, rfl, rfl, rfl, .inl rfl,
          by simp, by simp⟩
        rintro ⟨v, hv, htrapped⟩
        rw [honly v hv, hout] at htrapped
        cases htrapped
  | relaunch => exact .inr ⟨.inr rfl, rfl⟩

/-- **An input in two halves**: its code runs; then the process goes on with its
    screens elsewhere, or dies.  A process that is killed has only begun. -/
theorem step_cases (i : Input) :
    (i.cut = none ∧ ¬ s.Traps i ∧ i.event ≠ .relaunch ∧
      Flow i.event s (s.perform i.env (s.effects i)) (s.step i)) ∨
    (i.cut = none → s.Traps i ∨ i.event = .relaunch) ∧
      s.step i = (Runs.run applyScreen s
        (i.reached (s.trace i.env (s.effects i)))).die i.env.now := by
  obtain ⟨e, r, cut⟩ := i
  rcases cut with _ | k
  · rcases s.after_cases e r (s.perform r (s.effects ⟨e, r, none⟩)) with h | ⟨h, heq⟩
    · exact .inl ⟨rfl, h⟩
    · exact .inr ⟨fun _ => h, heq⟩
  · exact .inr ⟨nofun, rfl⟩

/-- The record after an input, which the process may not survive. -/
theorem record_step (i : Input) : (s.step i).app.record =
    (Runs.run applyScreen s (i.reached (s.trace i.env (s.effects i)))).app.record := by
  rcases s.step_cases i with ⟨hcut, -, -, hflow⟩ | ⟨-, hdied⟩
  · rw [hflow.record, Input.reached, hcut]
    rfl
  · rw [hdied]
    rfl

/-- **What a killed process has done** is where the process would have been that
    was not killed. -/
theorem logs_cut (e : Event) (r : ScreenEnv) (k : ℕ) :
    ∃ es, (s.step ⟨e, r, some k⟩).logs = [] :: es :: s.past ∧
      ∃ fs ∈ (s.step ⟨e, r, none⟩).logs, es <+: fs := by
  have hlog : (s.perform r (s.effects ⟨e, r, none⟩)).log ∈ (s.step ⟨e, r, none⟩).logs := by
    change _ ∈ (s.after _ _).logs
    rcases s.after_cases e r (s.perform r (s.effects ⟨e, r, none⟩)) with ⟨-, -, hflow⟩ | ⟨-, heq⟩
    · rw [logs, hflow.log]
      exact List.mem_cons_self ..
    · rw [heq]
      exact List.mem_cons_of_mem _ (List.mem_cons_self ..)
  refine ⟨_, congrArg (fun past => [] :: _ :: past) (s.past_run _), _, hlog, ?_⟩
  exact s.log_run_take k (s.trace r (s.effects ⟨e, r, none⟩))

end Process

end Monujo
