/-
  Sending: the create screen, the confirm screens it leads to, and the pending
  transactions they hand on as raw pointers.

  A protocol of the native library stands behind them: a transaction the user
  confirms is committed, once, and each is given back to its wallet, once, by
  the time its screen is gone.  The confirm screen does neither.

  `protocol_iff`: the protocol is kept if and only if no confirm screen is ever
  left, neither by its button nor by going back.
-/
import Monujo.Model.SendScreens

namespace Monujo

open Monero

namespace Send

/-- A confirm screen that is shown. -/
structure Shown where
  vc : ConfirmTransactionViewController
  transaction : PendingTransaction
  /-- The wallet that created the transaction. -/
  creator : Wallet
  /-- The status the screen was loaded with. -/
  status : Int32
  text : String
  deriving DecidableEq

/-- The native transaction of a screen, with the native wallet it belongs to. -/
def Shown.owed (c : Shown) : Handle × Pending := (c.creator.impl, c.transaction.internal)

structure State where
  /-- `WalletStore.wallet`. -/
  wallet : Option Wallet
  /-- The create screen, if it is presented: its wallet. -/
  create : Option Wallet
  /-- The confirm screens pushed on it, the topmost first. -/
  confirm : List Shown
  /-- What the screens have done. -/
  log : List Effect
  /-- The transactions for which Confirm was pressed, on a screen that showed
      them with status 0. -/
  pressed : List Pending
  /-- The transactions whose confirm screen is gone. -/
  gone : List (Handle × Pending)
  /-- A missing wallet or transaction has been unwrapped. -/
  trapped : Bool

def start (wallet : Option Wallet) : State := ⟨wallet, none, [], [], [], [], false⟩

inductive Event where
  /-- `WalletStore.wallet` is assigned. -/
  | assign (w : Option Wallet)
  /-- The create screen is presented. -/
  | present
  /-- Transfer is tapped. -/
  | transfer (form : Form) (env : Env)
  /-- The topmost confirm screen is left by its back button. -/
  | back
  /-- Confirm is pressed on the topmost confirm screen. -/
  | confirm (env : Env)

def State.perform (s : State) (es : List Effect) : State := { s with log := s.log ++ es }

/-- Transfer, on the create screen of the wallet `w`: the segue is checked, the
    confirm screen made, prepared and loaded. -/
def State.transfer (s : State) (w : Wallet) (form : Form) (env : Env) : State :=
  let check := CreateTransactionViewController.shouldPerformSegue w form
  let s := s.perform (check.log env)
  if check.val env then
    match s.wallet with
    | none => { s with trapped := true }
    | some v =>
      let prepare := CreateTransactionViewController.prepare w form (.new v)
      let vc := prepare.val env
      let s := s.perform (prepare.log env ++ vc.viewDidLoad.log env)
      match vc.viewDidLoad.val env, vc.transaction with
      | some text, some t =>
        { s with confirm := ⟨vc, t, w, t.status.val env, text⟩ :: s.confirm }
      | _, _ => { s with trapped := true }
  else s

/-- Confirm, on the screen `c`: its dismissal takes the create screen with it. -/
def State.press (s : State) (c : Shown) (env : Env) : State :=
  { s.perform (c.vc.confirmButtonClicked.log env) with
    create := none
    confirm := []
    pressed := if c.status = 0 then c.transaction.internal :: s.pressed else s.pressed
    gone := s.confirm.map Shown.owed ++ s.gone }

def State.next (s : State) : Event → State
  | .assign w => { s with wallet := w }
  | .present =>
    match s.create, s.wallet with
    | some _, _ => s
    | none, some w => { s with create := some w }
    | none, none => { s with trapped := true }
  | .transfer form env =>
    match s.create with
    | some w => s.transfer w form env
    | none => s
  | .back =>
    match s.confirm with
    | c :: cs => { s with confirm := cs, gone := c.owed :: s.gone }
    | [] => s
  | .confirm env =>
    match s.confirm with
    | c :: _ => s.press c env
    | [] => s

/-- The app goes on until it traps. -/
def step (s : State) (e : Event) : State := if s.trapped then s else s.next e

/-! ## The protocol -/

/-- The pending transactions the library has returned, with their wallets. -/
def created (es : List Effect) : List (Handle × Pending) :=
  es.filterMap fun
    | .call (.wallet h (.createTransaction ..)) t => some (h, t)
    | _ => none

/-- The pending transactions given back, with the wallets they were given to. -/
def disposed (es : List Effect) : List (Handle × Pending) :=
  es.filterMap fun
    | .call (.wallet h (.disposeTransaction t)) _ => some (h, t)
    | _ => none

def committed (es : List Effect) : List Pending :=
  es.filterMap fun
    | .call (.pending t .commit) _ => some t
    | _ => none

/-- Every call on a pending transaction is made on one that has been created
    and not yet given back. -/
def Live (es : List Effect) : Prop :=
  ∀ fs t c a gs, es = fs ++ .call (.pending t c) a :: gs →
    ((disposed fs).map Prod.snd).count t < ((created fs).map Prod.snd).count t

/-- The send protocol. -/
structure Protocol (s : State) : Prop where
  /-- Commits are what Confirm was pressed for. -/
  commit : ∀ t, (committed s.log).count t = s.pressed.count t
  commit_once : ∀ t, (committed s.log).count t ≤ ((created s.log).map Prod.snd).count t
  /-- What a gone screen showed has been given back, to its own wallet. -/
  dispose : ∀ p, s.gone.count p ≤ (disposed s.log).count p
  dispose_once : ∀ p, (disposed s.log).count p ≤ (created s.log).count p
  live : Live s.log

/-- The condition on an event: a confirm screen is not left. -/
def Stays (s : State) : Event → Prop
  | .back | .confirm _ => s.trapped = true ∨ s.confirm = []
  | _ => True

instance (s : State) : DecidablePred (Stays s) := fun e => by
  cases e <;> unfold Stays <;> infer_instance

@[simp] theorem created_append (es fs : List Effect) :
    created (es ++ fs) = created es ++ created fs := List.filterMap_append

@[simp] theorem disposed_append (es fs : List Effect) :
    disposed (es ++ fs) = disposed es ++ disposed fs := List.filterMap_append

@[simp] theorem committed_append (es fs : List Effect) :
    committed (es ++ fs) = committed es ++ committed fs := List.filterMap_append

/-! ## What the screens do -/

/-- The effect gives nothing back and commits nothing, and calls only pending
    transactions in `U`. -/
def Inert (U : Pending → Prop) : Effect → Prop
  | .call (.pending t c) _ => U t ∧ c ≠ .commit
  | .call (.wallet _ (.disposeTransaction _)) _ => False
  | _ => True

theorem disposed_of_inert {U : Pending → Prop} {es : List Effect} (h : ∀ e ∈ es, Inert U e) :
    disposed es = [] := by
  refine List.filterMap_eq_nil_iff.2 fun e he => ?_
  have hinert := h e he
  split
  · exact hinert.elim
  · rfl

theorem committed_of_inert {U : Pending → Prop} {es : List Effect} (h : ∀ e ∈ es, Inert U e) :
    committed es = [] := by
  refine List.filterMap_eq_nil_iff.2 fun e he => ?_
  have hinert := h e he
  split
  · exact absurd rfl hinert.2
  · rfl

theorem inert_shouldPerformSegue (w : Wallet) (form : Form) (env : Env) :
    (CreateTransactionViewController.shouldPerformSegue w form).Emits (Inert fun _ => False) env := by
  obtain ⟨address, amount, paymentId, mixin⟩ := form
  cases amount with
  | none => exact Code.emits_pure _
  | some rawAmount =>
    refine Code.emits_ite (Code.emits_pure _) (Code.emits_bind (emits_call trivial) ?_)
    refine Code.emits_ite (Code.emits_bind (emits_call trivial) ?_) (Code.emits_pure _)
    exact Code.emits_pure _

/-- A transaction that is prepared has just been created, by the wallet of the
    create screen. -/
theorem created_prepare (w v : Wallet) (form : Form) (env : Env) :
    let prepare := CreateTransactionViewController.prepare w form (.new v)
    prepare.Emits (Inert fun _ => False) env ∧
      ∀ t, (prepare.val env).transaction = some t →
        (w.impl, t.internal) ∈ created (prepare.log env) := by
  intro prepare
  by_cases hempty : form.addressTV.getD "" = "" ∨ form.amountTF.getD "" = ""
  · obtain ⟨hval, hlog⟩ := CreateTransactionViewController.prepare_none w form hempty (.new v) env
    refine ⟨fun e he => ?_, fun t ht => ?_⟩
    · rw [hlog] at he
      cases he
    · rw [hval] at ht
      cases ht
  · obtain ⟨address, amount, paymentId, mixin⟩ := form
    rcases address with _ | address
    · exact absurd (.inl rfl) hempty
    rcases amount with _ | rawAmount
    · exact absurd (.inr rfl) hempty
    obtain ⟨hne, hne'⟩ := not_or.1 hempty
    obtain ⟨hval, hlog⟩ := CreateTransactionViewController.prepare_some w
      ⟨some address, some rawAmount, paymentId, mixin⟩ rfl hne rfl hne' (.new v) env
    refine ⟨fun e he => ?_, fun t ht => ?_⟩
    · rw [hlog] at he
      rcases List.mem_append.1 he with he | he
      · cases List.mem_singleton.1 he
        trivial
      · cases List.mem_singleton.1 he
        trivial
    · rw [hval] at ht
      rw [hlog]
      cases ht
      exact List.mem_singleton.2 rfl

/-- A confirm screen that is loaded calls the transaction it was handed. -/
theorem inert_viewDidLoad (vc : ConfirmTransactionViewController) (env : Env) :
    vc.viewDidLoad.Emits (Inert fun p => ∃ t, vc.transaction = some t ∧ p = t.internal) env := by
  intro e he
  obtain ⟨t, ht, hasks⟩ := vc.emits_viewDidLoad env e he
  unfold ConfirmTransactionViewController.Asks at hasks
  split at hasks
  · trivial
  · obtain ⟨rfl, hc⟩ := hasks
    exact ⟨⟨t, ht, rfl⟩, hc⟩
  · exact hasks.elim

/-! ## Runs -/

/-- Calls that give nothing back keep every call on a live transaction, when
    what they call has been created. -/
theorem Live.append {U : Pending → Prop} {es fs : List Effect} (h : Live es)
    (hes : disposed es = []) (hfs : ∀ e ∈ fs, Inert U e)
    (hU : ∀ t, U t → t ∈ (created es).map Prod.snd) : Live (es ++ fs) := by
  -- A call among `fs`, of which `ks` are done.
  have hlater : ∀ ks t c a gs, fs = ks ++ .call (.pending t c) a :: gs →
      ((disposed (es ++ ks)).map Prod.snd).count t < ((created (es ++ ks)).map Prod.snd).count t := by
    intro ks t c a gs heq
    have hks : disposed ks = [] :=
      disposed_of_inert fun e he => hfs e (heq ▸ List.mem_append_left _ he)
    have hcall : Inert U (.call (.pending t c) a) := hfs _ (by rw [heq]; simp)
    have hpos : 0 < ((created es).map Prod.snd).count t := List.count_pos_iff.2 (hU t hcall.1)
    simp only [disposed_append, hes, hks, created_append, List.append_nil, List.map_append,
      List.map_nil, List.count_append, List.count_nil]
    omega
  intro gs t c a hs heq
  rcases List.append_eq_append_iff.1 heq with ⟨ks, rfl, hks⟩ | ⟨ks, rfl, hks⟩
  · exact hlater ks t c a hs hks
  · cases ks with
    | nil => simpa using hlater [] t c a hs hks.symm
    | cons e ks =>
      obtain ⟨rfl, -⟩ := List.cons.inj hks
      exact h gs t c a ks rfl

/-- Nothing is committed or given back, and the calls on pending transactions are
    made on live ones. -/
structure Unsent (es : List Effect) : Prop where
  committed : committed es = []
  disposed : disposed es = []
  live : Live es

theorem unsent_nil : Unsent [] := ⟨rfl, rfl, fun fs t c a gs heq => by simp at heq⟩

theorem Unsent.append {U : Pending → Prop} {es fs : List Effect} (h : Unsent es)
    (hfs : ∀ e ∈ fs, Inert U e) (hU : ∀ t, U t → t ∈ (created es).map Prod.snd) :
    Unsent (es ++ fs) where
  committed := by simp [h.committed, committed_of_inert hfs]
  disposed := by simp [h.disposed, disposed_of_inert hfs]
  live := h.live.append h.disposed hfs hU

theorem Unsent.transfer {s : State} (h : Unsent s.log) (w : Wallet) (form : Form) (env : Env) :
    Unsent (s.transfer w form env).log := by
  have hcheck := h.append (inert_shouldPerformSegue w form env) fun t ht => ht.elim
  simp only [State.transfer]
  split
  · split
    · exact hcheck
    · rename_i v hv
      obtain ⟨hinert, hcreated⟩ := created_prepare w v form env
      have hprepare := hcheck.append hinert fun t ht => ht.elim
      have hload := hprepare.append (inert_viewDidLoad _ env) <| by
        rintro p ⟨t, ht, rfl⟩
        rw [created_append, List.map_append]
        exact List.mem_append_right _ (List.mem_map_of_mem (hcreated t ht))
      rw [List.append_assoc] at hload
      simp only [State.perform]
      split
      · exact hload
      · exact hload
  · exact hcheck

/-- **The screens send nothing**, whatever is pressed. -/
theorem Unsent.step {s : State} (h : Unsent s.log) (e : Event) : Unsent (step s e).log := by
  unfold Send.step
  split
  · exact h
  cases e with
  | assign w => exact h
  | present =>
    simp only [State.next]
    split <;> exact h
  | transfer form env =>
    simp only [State.next]
    split
    · exact h.transfer _ form env
    · exact h
  | back =>
    simp only [State.next]
    split <;> exact h
  | confirm env =>
    simp only [State.next]
    split
    · -- its handler calls nothing
      exact h.append (U := fun _ => False) (fun e he => absurd he List.not_mem_nil)
        fun t ht => ht.elim
    · exact h

/-- Nothing is sent, and no confirm screen is gone. -/
structure Inv (s : State) : Prop where
  unsent : Unsent s.log
  pressed : s.pressed = []
  gone : s.gone = []

theorem Inv.protocol {s : State} (h : Inv s) : Protocol s where
  commit t := by rw [h.unsent.committed, h.pressed]
  commit_once t := by rw [h.unsent.committed]; exact Nat.zero_le _
  dispose p := by rw [h.gone]; exact Nat.zero_le _
  dispose_once p := by rw [h.unsent.disposed]; exact Nat.zero_le _
  live := h.unsent.live

/-- A transfer presses and leaves no confirm screen. -/
theorem left_transfer (s : State) (w : Wallet) (form : Form) (env : Env) :
    (s.transfer w form env).pressed = s.pressed ∧ (s.transfer w form env).gone = s.gone := by
  simp only [State.transfer]
  split
  · split
    · exact ⟨rfl, rfl⟩
    · split <;> exact ⟨rfl, rfl⟩
  · exact ⟨rfl, rfl⟩

theorem Inv.step {s : State} (h : Inv s) (e : Event) (hstay : Stays s e) : Inv (step s e) := by
  have hunsent := h.unsent.step e
  unfold Send.step at hunsent ⊢
  split at hunsent
  · rename_i htrapped
    rwa [if_pos htrapped]
  rename_i hgo
  rw [if_neg hgo]
  have hempty : s.trapped = true ∨ s.confirm = [] → s.confirm = [] := fun h => h.resolve_left hgo
  cases e with
  | assign w => exact ⟨hunsent, h.pressed, h.gone⟩
  | present =>
    simp only [State.next]
    split
    · exact h
    · exact ⟨h.unsent, h.pressed, h.gone⟩
    · exact ⟨h.unsent, h.pressed, h.gone⟩
  | transfer form env =>
    simp only [State.next] at hunsent ⊢
    split at hunsent
    · rename_i w hw
      obtain ⟨hpressed, hgone⟩ := left_transfer s w form env
      exact ⟨hunsent, hpressed.trans h.pressed, hgone.trans h.gone⟩
    · exact h
  | back | confirm =>
    simp only [State.next, hempty hstay]
    exact h

/-- **When the protocol is kept.** -/
theorem protocol_iff (wallet : Option Wallet) (es : List Event) :
    Runs.Always step Protocol (start wallet) es ↔ Runs.Guarded step Stays (start wallet) es := by
  have hstart : Inv (start wallet) := ⟨unsent_nil, rfl, rfl⟩
  refine Runs.always_iff_guarded Inv (fun s h => h.protocol) (fun s e h hs => h.step e hs) ?_ hstart
  intro s e h hprotocol
  -- A screen that is left owes its transaction to the protocol.
  have howed : ∀ c : Shown, c.owed ∈ (step s e).gone → disposed (step s e).log = [] → False := by
    intro c hc hnone
    have hle := hprotocol.dispose c.owed
    have hpos : 0 < (step s e).gone.count c.owed := List.count_pos_iff.2 hc
    rw [hnone, List.count_nil] at hle
    omega
  by_cases hgo : s.trapped = true
  · cases e with
    | assign | present | transfer => trivial
    | back | confirm => exact .inl hgo
  rcases hc : s.confirm with _ | ⟨c, cs⟩
  · cases e with
    | assign | present | transfer => trivial
    | back | confirm => exact .inr hc
  cases e with
  | assign | present | transfer => trivial
  | back =>
    refine (howed c ?_ ?_).elim
    · simp [step, hgo, State.next, hc]
    · simp [step, hgo, State.next, hc, h.unsent.disposed]
  | confirm env =>
    refine (howed c ?_ ?_).elim
    · simp [step, hgo, State.next, State.press, hc]
    · simp [step, hgo, State.next, State.press, State.perform, hc, h.unsent.disposed,
        ConfirmTransactionViewController.confirmButtonClicked]

/-- A transaction is made and shown with status 0; Confirm is pressed; the
    screen is gone, nothing is committed and nothing given back. -/
theorem confirmed_not_committed :
    let answers : Answers := fun c => match c with
      | .static (.amountFromString _) => (5 : UInt64)
      | .wallet _ .unlockedBalance => (10 : UInt64)
      | .wallet _ (.createTransaction ..) => (7 : ℕ)
      | _ => default
    let env : Env := { (default : Env) with answers := answers }
    let form : Form := ⟨some "address", some "5", none, none⟩
    let es : List Event := [.present, .transfer form env, .confirm env]
    let s := Runs.run step (start (some ⟨1⟩)) es
    ¬ Runs.Always step Protocol (start (some ⟨1⟩)) es ∧
      s.pressed = [7] ∧ s.gone = [(1, 7)] ∧ committed s.log = [] ∧ disposed s.log = [] := by
  refine ⟨fun h => ?_, by decide, by decide, by decide, by decide⟩
  have hcommit := h.last.commit 7
  revert hcommit
  decide

end Send

end Monujo
