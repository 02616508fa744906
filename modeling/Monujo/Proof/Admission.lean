/-
  The segue from the create screen to the confirm screen.

  The create screen checks its fields before the segue, and reads them again
  when it prepares the confirm screen.  The check looks at the amount alone; so
  it lets pass an address that is not prepared, and a mixin count that is not
  read.

  `segue_kept_iff`: a segue that passes the check has the user confirm, without a
  trap, the one transaction the typed texts denote, if and only if the other
  texts are well formed.
-/
import Monujo.Model.SendScreens

namespace Monujo

open Monero

namespace Admission

open CreateTransactionViewController

/-- The arguments of a native `createTransaction`. -/
structure Request where
  wallet : Handle
  dstAddr : String
  paymentId : String
  amount : UInt64
  mixinCount : UInt32
  priority : Int32
  deriving DecidableEq

/-- The transactions requested among effects, with what the library returned. -/
def requests (es : List Effect) : List (Request × Pending) :=
  es.filterMap fun
    | .call (.wallet h (.createTransaction dstAddr paymentId amount mixinCount priority)) t =>
      some (⟨h, dstAddr, paymentId, amount, mixinCount, priority⟩, t)
    | _ => none

/-- The amounts parsed among effects. -/
def parsed (es : List Effect) : List UInt64 :=
  es.filterMap fun
    | .call (.static (.amountFromString _)) a => some a
    | _ => none

/-- What a text of the mixin field denotes: an empty one, the default. -/
def mixin (s : String) : Option UInt32 := if s = "" then some 0 else UInt32.parse s

/-- The typed texts denote the request. -/
structure Denotes (form : Form) (r : Request) : Prop where
  address : form.addressTV = some r.dstAddr
  paymentId : form.paymentIdTF.getD "" = r.paymentId
  mixinCount : mixin (form.mixinCountTF.getD "") = some r.mixinCount

section
variable (w v : Wallet) (form : Form) (env : Env)

/-- The confirm screen, as it is prepared; `v` is the wallet it has found. -/
def confirm : ConfirmTransactionViewController := (prepare w form (.new v)).val env

/-- What the segue does: it is checked and prepared, and its screen loaded. -/
def effects : List Effect :=
  (shouldPerformSegue w form).log env ++ (prepare w form (.new v)).log env ++
    (confirm w v form env).viewDidLoad.log env

/-- The user confirms the request `r`: it is the only one, and `t` the pending
    transaction made for it. -/
structure Confirms (r : Request) (t : Pending) : Prop where
  created : requests (effects w v form env) = [(r, t)]
  wallet : r.wallet = w.impl
  handed : (confirm w v form env).transaction = some ⟨t⟩
  loads : (confirm w v form env).viewDidLoad.val env ≠ none
  /-- The amount is the one checked. -/
  checked : parsed ((shouldPerformSegue w form).log env) = [r.amount]
  positive : 0 < r.amount
  unlocked : r.amount ≤ w.unlockedBalance.val env
  address : (confirm w v form env).address = r.dstAddr
  paymentId : (confirm w v form env).paymentId = r.paymentId
  mixinCount : (confirm w v form env).mixinCount = r.mixinCount
  /-- The screen shows what was requested, with the amounts of `t`. -/
  shown : (PendingTransaction.mk t).status.val env = 0 →
    (confirm w v form env).viewDidLoad.val env =
      some (ConfirmTransactionViewController.message r.dstAddr r.paymentId
        ((Wallet.displayAmount ((PendingTransaction.mk t).amount.val env)).val env)
        ((Wallet.displayAmount ((PendingTransaction.mk t).fee.val env)).val env) r.mixinCount)
  denoted : Denotes form r

/-- What passes the check is what the user confirms. -/
def Kept : Prop := (shouldPerformSegue w form).val env = true → ∃ r t, Confirms w v form env r t

/-- The typed amount is positive, and within the unlocked balance. -/
def Affordable : Prop :=
  ∃ rawAmount, form.amountTF = some rawAmount ∧ rawAmount ≠ "" ∧
    0 < (Wallet.amountFromString rawAmount).val env ∧
    (Wallet.amountFromString rawAmount).val env ≤ w.unlockedBalance.val env

end

/-- The texts beside the amount are ones that can be requested as typed. -/
structure WellFormed (form : Form) : Prop where
  address : form.addressTV.getD "" ≠ ""
  address_noNul : NoNul (form.addressTV.getD "")
  paymentId_noNul : NoNul (form.paymentIdTF.getD "")
  mixinCount : form.mixinCountTF.getD "" = "" ∨
    (UInt32.parse (form.mixinCountTF.getD "")).isSome = true

@[simp] theorem requests_append (es fs : List Effect) :
    requests (es ++ fs) = requests es ++ requests fs := List.filterMap_append

/-! ## The check -/

section
variable {w v : Wallet} {form : Form} {env : Env}

/-- The segue is refused unless the amount is affordable. -/
theorem shouldPerformSegue_iff :
    (shouldPerformSegue w form).val env = true ↔ Affordable w form env := by
  by_cases hempty : form.amountTF.getD "" = ""
  · rw [(shouldPerformSegue_none w form hempty env).1]
    constructor
    · intro h
      cases h
    · rintro ⟨rawAmount, hamount, hne, -⟩
      rw [hamount] at hempty
      exact absurd hempty hne
  · obtain ⟨rawAmount, hamount⟩ : ∃ rawAmount, form.amountTF = some rawAmount := by
      refine Option.ne_none_iff_exists'.1 fun hnone => hempty ?_
      rw [hnone]
      rfl
    have hne : rawAmount ≠ "" := by
      rintro rfl
      exact hempty (by rw [hamount]; rfl)
    rw [(shouldPerformSegue_some w form hamount hne env).1]
    constructor
    · exact fun h => ⟨rawAmount, hamount, hne, h⟩
    · rintro ⟨rawAmount', hamount', -, h⟩
      cases hamount.symm.trans hamount'
      exact h

/-- The check parses the amount and requests nothing. -/
theorem log_shouldPerformSegue {rawAmount : String} (hamount : form.amountTF = some rawAmount)
    (hne : rawAmount ≠ "") :
    parsed ((shouldPerformSegue w form).log env) =
        [(Wallet.amountFromString rawAmount).val env] ∧
      requests ((shouldPerformSegue w form).log env) = [] := by
  rw [(shouldPerformSegue_some w form hamount hne env).2]
  split_ifs
  · exact ⟨rfl, rfl⟩
  · exact ⟨rfl, rfl⟩

/-! ## The screen -/

/-- The confirm screen requests nothing. -/
theorem requests_viewDidLoad (vc : ConfirmTransactionViewController) :
    requests (vc.viewDidLoad.log env) = [] := by
  refine List.filterMap_eq_nil_iff.2 fun e he => ?_
  obtain ⟨t, -, hasks⟩ := vc.emits_viewDidLoad env e he
  split
  · exact hasks.elim
  · rfl

/-- A loaded screen shows the transaction it was handed. -/
theorem val_viewDidLoad {vc : ConfirmTransactionViewController} {t : PendingTransaction}
    (h : vc.transaction = some t) (hstatus : t.status.val env = 0) :
    vc.viewDidLoad.val env = some (ConfirmTransactionViewController.message vc.address vc.paymentId
      ((Wallet.displayAmount (t.amount.val env)).val env)
      ((Wallet.displayAmount (t.fee.val env)).val env) vc.mixinCount) := by
  obtain ⟨wallet, transaction, address, paymentId, mixinCount⟩ := vc
  cases h
  simp only [ConfirmTransactionViewController.viewDidLoad, Code.val_bind,
    Code.val_pure, hstatus, ne_eq, not_true_eq_false, if_false]

/-! ## The segue -/

/-- The request made for an address and an amount. -/
def request (w : Wallet) (form : Form) (env : Env) (address rawAmount : String) : Request where
  wallet := w.impl
  dstAddr := cstr address
  paymentId := cstr (form.paymentIdTF.getD "")
  amount := (Wallet.amountFromString rawAmount).val env
  mixinCount := (UInt32.parse (form.mixinCountTF.getD "")).getD 0
  priority := 1

/-- A segue with an address and an amount makes one request. -/
theorem requests_effects (w v : Wallet) (env : Env) {address rawAmount : String}
    (haddress : form.addressTV = some address) (hne : address ≠ "")
    (hamount : form.amountTF = some rawAmount) (hne' : rawAmount ≠ "") :
    ∃ t, requests (effects w v form env) = [(request w form env address rawAmount, t)] ∧
      confirm w v form env = ⟨v, some ⟨t⟩, address, form.paymentIdTF.getD "",
        (UInt32.parse (form.mixinCountTF.getD "")).getD 0⟩ := by
  obtain ⟨hval, hlog⟩ := prepare_some w form haddress hne hamount hne' (.new v) env
  refine ⟨_, ?_, hval⟩
  rw [effects, hlog, requests_append, requests_append,
    (log_shouldPerformSegue hamount hne').2, requests_viewDidLoad, List.append_nil,
    List.nil_append]
  rfl

theorem mixin_eq_some_iff {s : String} :
    mixin s = some ((UInt32.parse s).getD 0) ↔ s = "" ∨ (UInt32.parse s).isSome = true := by
  unfold mixin
  split_ifs with hempty
  · subst hempty
    decide
  · cases UInt32.parse s <;> simp [hempty]

/-- Whether the request made is the one that is typed. -/
theorem denotes_request_iff {address : String} (haddress : form.addressTV = some address)
    (rawAmount : String) : Denotes form (request w form env address rawAmount) ↔
      NoNul address ∧ NoNul (form.paymentIdTF.getD "") ∧ (form.mixinCountTF.getD "" = "" ∨
        (UInt32.parse (form.mixinCountTF.getD "")).isSome = true) := by
  constructor
  · rintro ⟨htyped, hpaymentId, hmixin⟩
    rw [haddress] at htyped
    have hcstr : address = cstr address := Option.some.inj htyped
    exact ⟨cstr_eq_self_iff.1 hcstr.symm, cstr_eq_self_iff.1 hpaymentId.symm,
      mixin_eq_some_iff.1 hmixin⟩
  · rintro ⟨hcstr, hpaymentId, hmixin⟩
    refine ⟨?_, (cstr_of_noNul hpaymentId).symm, mixin_eq_some_iff.2 hmixin⟩
    rw [haddress, request, cstr_of_noNul hcstr]

/-- A request that is typed is confirmed. -/
theorem confirms_of_denotes {address rawAmount : String} (haddress : form.addressTV = some address)
    (hne : address ≠ "") (hamount : form.amountTF = some rawAmount) (hne' : rawAmount ≠ "")
    (hafford : Affordable w form env)
    (hdenotes : Denotes form (request w form env address rawAmount)) :
    ∃ t, Confirms w v form env (request w form env address rawAmount) t := by
  obtain ⟨t, hcreated, hconfirm⟩ := requests_effects w v env haddress hne hamount hne'
  have hcstr : cstr address = address := by
    have htyped := hdenotes.address
    rw [haddress] at htyped
    exact (Option.some.inj htyped).symm
  have hcstr' : cstr (form.paymentIdTF.getD "") = form.paymentIdTF.getD "" :=
    hdenotes.paymentId.symm
  obtain ⟨rawAmount', hsome, -, hpos, hle⟩ := hafford
  cases hamount.symm.trans hsome
  refine ⟨t, hcreated, rfl, ?_, ?_, (log_shouldPerformSegue hamount hne').1, hpos, hle, ?_, ?_, ?_,
    ?_, hdenotes⟩
  · rw [hconfirm]
  · rw [ne_eq, ConfirmTransactionViewController.viewDidLoad_eq_none_iff, hconfirm]
    exact Option.some_ne_none _
  · rw [hconfirm]
    exact hcstr.symm
  · rw [hconfirm]
    exact hcstr'.symm
  · rw [hconfirm]
    rfl
  · intro hstatus
    rw [hconfirm, val_viewDidLoad rfl hstatus, request, hcstr, hcstr']

/-- What is confirmed has an address; without one, nothing is handed over. -/
theorem Confirms.address_ne {r : Request} {t : Pending} (h : Confirms w v form env r t) :
    form.addressTV.getD "" ≠ "" := by
  intro hempty
  have hnew : confirm w v form env = .new v := (prepare_none w form (.inl hempty) (.new v) env).1
  have hhanded := h.handed
  rw [hnew] at hhanded
  cases hhanded

end

/-- **What passes the check is what the user confirms**, exactly when an
    affordable amount comes with other texts that are well formed. -/
theorem segue_kept_iff (w v : Wallet) (form : Form) (env : Env) :
    Kept w v form env ↔ (Affordable w form env → WellFormed form) := by
  rw [Kept, shouldPerformSegue_iff]
  refine forall_congr' fun hafford => ?_
  obtain ⟨rawAmount, hamount, hne', -⟩ := id hafford
  rcases haddress : form.addressTV with _ | address
  · constructor
    · rintro ⟨r, t, h⟩
      exact absurd (by rw [haddress]; rfl) h.address_ne
    · intro h
      exact absurd (by rw [haddress]; rfl) h.address
  constructor
  · rintro ⟨r, t, h⟩
    have hne : address ≠ "" := by simpa [haddress] using h.address_ne
    obtain ⟨t', hcreated, -⟩ := requests_effects w v env haddress hne hamount hne'
    have hr : request w form env address rawAmount = r := by
      have heq := hcreated.symm.trans h.created
      exact (Prod.mk.inj (List.cons.inj heq).1).1
    obtain ⟨hcstr, hpaymentId, hmixin⟩ :=
      (denotes_request_iff haddress rawAmount).1 (hr ▸ h.denoted)
    exact ⟨h.address_ne, by rwa [haddress], hpaymentId, hmixin⟩
  · rintro ⟨hne, hcstr, hpaymentId, hmixin⟩
    rw [haddress] at hne hcstr
    have hdenotes : Denotes form (request w form env address rawAmount) :=
      (denotes_request_iff haddress rawAmount).2 ⟨hcstr, hpaymentId, hmixin⟩
    exact ⟨_, confirms_of_denotes haddress hne hamount hne' hafford hdenotes⟩

/-- With an amount of 1 and 2 unlocked, an empty address passes the check, and
    the confirm screen traps; and the mixin count "ten" passes it and is
    requested as 0. -/
theorem admitted_not_kept :
    let answers : Answers := fun c => match c with
      | .static (.amountFromString _) => (1000000000000 : UInt64)
      | .wallet _ .unlockedBalance => (2000000000000 : UInt64)
      | .wallet _ (.createTransaction ..) => (7 : ℕ)
      | _ => default
    let env : Env := { (default : Env) with answers := answers }
    let unaddressed : Form := ⟨some "", some "1", some "", some ""⟩
    let ten : Form := ⟨some "A", some "1", some "", some "ten"⟩
    ((shouldPerformSegue ⟨1⟩ unaddressed).val env = true ∧
      requests (effects ⟨1⟩ ⟨1⟩ unaddressed env) = [] ∧
      (confirm ⟨1⟩ ⟨1⟩ unaddressed env).viewDidLoad.val env = none ∧
      ¬ Kept ⟨1⟩ ⟨1⟩ unaddressed env) ∧
    ((shouldPerformSegue ⟨1⟩ ten).val env = true ∧
      requests (effects ⟨1⟩ ⟨1⟩ ten env) = [(⟨1, "A", "", 1000000000000, 0, 1⟩, 7)] ∧
      ¬ Kept ⟨1⟩ ⟨1⟩ ten env) := by
  refine ⟨⟨rfl, rfl, rfl, fun h => ?_⟩, rfl, rfl, fun h => ?_⟩
  · obtain ⟨r, t, hconfirms⟩ := h rfl
    exact hconfirms.loads rfl
  · obtain ⟨r, t, hconfirms⟩ := h rfl
    have hten : mixin "ten" = none := by decide
    have hmixin : mixin "ten" = some r.mixinCount := hconfirms.denoted.mixinCount
    rw [hten] at hmixin
    cases hmixin

end Admission

end Monujo
