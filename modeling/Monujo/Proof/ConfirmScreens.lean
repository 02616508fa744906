/-
  What the confirm screens stand for.

  The create screen may push any number of confirm screens, and the user may
  leave them by their back buttons.  `screens_backed`: in every run of the app,
  each confirm screen on the stack shows a request of its own that the wallet of
  the create screen has made to the library, of an amount that is positive and
  within an unlocked balance the library has answered.

  `traps_iff`: the app dies of an unwrapped `nil` when the create screen is
  presented before a wallet has been opened, and when an affordable amount is
  transferred to no address, and at no other time.
-/
import Monujo.Proof.Admission
import Monujo.Proof.Routine

namespace Monujo

open Monero WalletStore
open Admission (Request requests)

namespace ConfirmScreens

/-- The screen `vc` shows the request `q` of the wallet `w`, among the effects
    `es`. -/
structure Backs (es : List Effect) (w : Wallet) (vc : ConfirmTransactionViewController)
    (q : Request × Pending) : Prop where
  request : q.1 = ⟨w.impl, cstr vc.address, cstr vc.paymentId, q.1.amount, vc.mixinCount, 1⟩
  transaction : vc.transaction = some ⟨q.2⟩
  address : vc.address ≠ ""
  positive : 0 < q.1.amount
  unlocked : ∃ u : UInt64, .call (.wallet w.impl .unlockedBalance) u ∈ es ∧ q.1.amount ≤ u

/-- The screens, from the topmost down, show requests from the latest back. -/
structure Backed (s : Process) : Prop where
  none_of_create : s.create = none → s.confirm = []
  screens : ∀ w ∈ s.create, ∃ qs, qs.Sublist (requests s.log).reverse ∧
    List.Forall₂ (Backs s.log w) s.confirm qs

/-! ## The log -/

/-- The log has grown, and the send screens are where they were. -/
structure Grown (s t : Process) : Prop where
  log : s.log <+: t.log
  create : t.create = s.create
  confirm : t.confirm = s.confirm

variable {s t u : Process}

theorem Grown.refl (s : Process) : Grown s s := ⟨List.prefix_rfl, rfl, rfl⟩

theorem Grown.trans (h : Grown s t) (h' : Grown t u) : Grown s u :=
  ⟨List.IsPrefix.trans h.log h'.log, h'.create.trans h.create, h'.confirm.trans h.confirm⟩

theorem grown_applyScreen (s : Process) (e : ScreenEffect) : Grown s (s.applyScreen e) := by
  cases e with
  | app e => exact ⟨List.prefix_append _ _, rfl, rfl⟩
  | heights | text => exact ⟨List.prefix_rfl, rfl, rfl⟩

theorem grown_perform (s : Process) (r : ScreenEnv) (es : List ScreenEffect) :
    Grown s (s.perform r es) :=
  s.perform_keeps r Grown.refl (fun _ _ _ => Grown.trans) (P := fun _ => True) (fun _ _ => trivial)
    (fun s e _ => grown_applyScreen s e) fun _ _ => trivial

theorem Backs.mono {es fs : List Effect} {w : Wallet} {vc : ConfirmTransactionViewController}
    {q : Request × Pending} (h : Backs es w vc q) (hfs : es ⊆ fs) : Backs fs w vc q := by
  obtain ⟨hrequest, htransaction, haddress, hpositive, v, hv, hle⟩ := h
  exact ⟨hrequest, htransaction, haddress, hpositive, v, hfs hv, hle⟩

theorem Backed.grown (h : Backed s) (hst : Grown s t) : Backed t := by
  refine ⟨fun hnone => ?_, fun w hw => ?_⟩
  · rw [hst.confirm]
    exact h.none_of_create (hst.create ▸ hnone)
  · obtain ⟨qs, hqs, hscreens⟩ := h.screens w (hst.create ▸ hw)
    obtain ⟨es, hes⟩ := hst.log
    refine ⟨qs, hqs.trans ?_, ?_⟩
    · rw [← hes, Admission.requests_append, List.reverse_append]
      exact List.sublist_append_right _ _
    · rw [hst.confirm]
      exact hscreens.imp fun _ _ hback => hback.mono hst.log.subset

/-! ## Transfer -/

/-- The check that lets a segue pass has asked for the unlocked balance. -/
theorem asked_unlocked {w : Wallet} {form : Form} {env : Env} {rawAmount : String}
    (hamount : form.amountTF = some rawAmount) (hne : rawAmount ≠ "")
    (hpos : 0 < (Wallet.amountFromString rawAmount).val env) :
    .call (.wallet w.impl .unlockedBalance) (w.unlockedBalance.val env) ∈
      (CreateTransactionViewController.shouldPerformSegue w form).log env := by
  rw [(CreateTransactionViewController.shouldPerformSegue_some w form hamount hne env).2,
    if_pos hpos]
  exact List.mem_append_right _ (List.mem_singleton.2 rfl)

/-- A screen that is shown shows the one request that was made for it. -/
theorem shown_backs {w : Wallet} {form : Form} {env : Env} {vc : ConfirmTransactionViewController}
    {text : String}
    (h : (CreateTransactionViewController.transfer w form).val env = .shown vc text) :
    ∃ q, requests ((CreateTransactionViewController.transfer w form).log env) = [q] ∧
      Backs ((CreateTransactionViewController.transfer w form).log env) w vc q := by
  rw [CreateTransactionViewController.val_transfer] at h
  split at h
  swap
  · cases h
  rename_i hpass
  rcases hv : env.wallet with _ | v
  · rw [hv] at h
    cases h
  rw [hv, Option.elim_some] at h
  rcases hload : ((CreateTransactionViewController.prepare w form (.new v)).val env).viewDidLoad.val
    env with _ | text'
  · rw [hload] at h
    cases h
  rw [hload] at h
  obtain rfl : (CreateTransactionViewController.prepare w form (.new v)).val env = vc :=
    (Outcome.shown.inj h).1
  obtain ⟨rawAmount, hamount, hne, hpos, hle⟩ := Admission.shouldPerformSegue_iff.1 hpass
  -- without an address the screen would have trapped
  obtain ⟨address, haddress, hne'⟩ : ∃ address, form.addressTV = some address ∧ address ≠ "" := by
    by_contra hnone
    have hempty : form.addressTV.getD "" = "" := by
      rcases ha : form.addressTV with _ | address
      · rfl
      · by_contra hne'
        exact hnone ⟨address, ha, hne'⟩
    rw [(CreateTransactionViewController.prepare_none w form (.inl hempty) (.new v) env).1] at hload
    cases hload
  obtain ⟨t, hrequests, hconfirm⟩ :=
    Admission.requests_effects w v env haddress hne' hamount hne
  have hlog : (CreateTransactionViewController.transfer w form).log env =
      Admission.effects w v form env := by
    rw [CreateTransactionViewController.log_transfer, if_pos hpass, hv, Option.elim_some,
      ← List.append_assoc]
    rfl
  change Admission.confirm w v form env = _ at hconfirm
  rw [hlog]
  refine ⟨_, hrequests, ?_⟩
  change Backs _ w (Admission.confirm w v form env) _
  rw [hconfirm]
  refine ⟨rfl, rfl, hne', hpos, w.unlockedBalance.val env, ?_, hle⟩
  rw [Admission.effects, List.append_assoc]
  exact List.mem_append_left _ (asked_unlocked hamount hne hpos)

theorem Backed.transfer (h : Backed s) {w : Wallet} (hw : s.create = some w) (form : Form)
    (r : ScreenEnv) : Backed (s.step ⟨.transfer form, r, none⟩) := by
  rw [Process.step_transfer_some _ _ hw]
  have hgrown : Grown s (s.runCode r (CreateTransactionViewController.transfer w form)) :=
    grown_perform s r _
  have hlog : (s.runCode r (CreateTransactionViewController.transfer w form)).log =
      s.log ++ (CreateTransactionViewController.transfer w form).log (s.env r).toEnv :=
    Routine.log_perform s r (K := fun _ => False) (Q := False) (Routine.transfer w form)
  split
  · exact h.grown hgrown
  · refine ⟨fun _ => rfl, fun w hw => ?_⟩
    cases hw
  · rename_i vc text hshown
    obtain ⟨q, hq, hback⟩ := shown_backs hshown
    refine ⟨fun hnone => ?_, fun v hv => ?_⟩
    · exact absurd (hnone.symm.trans (hgrown.create.trans hw)) (by simp)
    · obtain rfl : w = v := by
        have hcreate : (s.runCode r (CreateTransactionViewController.transfer w form)).create =
            some w := hgrown.create.trans hw
        exact Option.some.inj (hcreate.symm.trans hv)
      obtain ⟨qs, hqs, hscreens⟩ := h.screens w hw
      refine ⟨q :: qs, ?_, ?_⟩
      · change (q :: qs).Sublist (requests (s.runCode r _).log).reverse
        rw [hlog, Admission.requests_append, hq, List.reverse_append]
        exact hqs.cons_cons q
      · change List.Forall₂ _ (vc :: (s.runCode r _).confirm) _
        rw [hgrown.confirm]
        refine .cons (hback.mono ?_) (hscreens.imp fun _ _ hb => hb.mono hgrown.log.subset)
        change _ ⊆ (s.runCode r _).log
        rw [hlog]
        exact List.subset_append_right _ _

/-! ## Runs -/

theorem backed_launch (x : Record) (now : Rat) (past : List (List Effect)) :
    Backed (Process.launch x now past) := by
  refine ⟨fun _ => rfl, fun w hw => ?_⟩
  cases hw

/-- **One input.** -/
theorem Backed.step (h : Backed s) (i : Input) : Backed (s.step i) := by
  obtain ⟨e, r, cut⟩ := i
  rcases cut with _ | k
  case some => exact backed_launch _ _ _
  have hcode : ∀ {α : Type} (m : AppCode α), Backed (s.runCode r m) :=
    fun _ => h.grown (grown_perform s r _)
  have hopening : ∀ o, Backed (s.open? r o) := fun _ => h.grown (grown_perform s r _)
  -- where the other screens go does not matter
  have hgo : ∀ {t : Process}, Backed t → ∀ {u : Process}, u.log = t.log → u.create = t.create →
      u.confirm = t.confirm → Backed u :=
    fun ht _ hlog hcreate hconfirm => ht.grown ⟨by rw [hlog], hcreate, hconfirm⟩
  cases e with
  | mainAppears =>
    rw [Process.step_mainAppears]
    exact hgo (hopening _) rfl rfl rfl
  | submit form =>
    rw [Process.step_submit]
    exact hgo (hopening _) rfl rfl rfl
  | walletAppears =>
    rw [Process.step_walletAppears]
    exact hgo (h.grown (grown_perform s r _)) rfl rfl rfl
  | walletDisappears | select => exact hgo h rfl rfl rfl
  | refreshButton =>
    rw [Process.step_refreshButton]
    exact hcode _
  | callback w c =>
    rw [Process.step_callback]
    exact hcode _
  | block j =>
    rcases hb : s.app.blocks[j]? with _ | b
    · rwa [Process.step_block_none _ _ hb]
    · rw [Process.step_block_some _ _ hb]
      exact hgo (hcode (initBlock b)) rfl rfl rfl
  | redraw =>
    rcases hm : s.main with _ | ⟨rs, q⟩
    · rwa [Process.step_redraw_nil _ _ hm]
    · rw [Process.step_redraw_cons _ _ hm]
      exact hgo (h.grown (grown_perform s r _)) rfl rfl rfl
  | enterBackground =>
    rw [Process.step_enterBackground]
    exact hcode _
  | historyAppears =>
    rcases hw : s.app.wallet with _ | w
    · rwa [Process.step_historyAppears_none _ _ hw]
    · rw [Process.step_historyAppears_some _ _ hw]
      exact hgo (h.grown (grown_perform s r _)) rfl rfl rfl
  | cell j =>
    rcases ht : s.rows[j]? with _ | t
    · rwa [Process.step_cell_none _ _ ht]
    · rw [Process.step_cell_some _ _ ht]
      exact hgo (hcode (TransactionHistoryViewController.cellForRow t)) rfl rfl rfl
  | detailAppears ts =>
    rcases ht : s.detail with _ | t
    · rwa [Process.step_detailAppears_none _ _ ht]
    · rw [Process.step_detailAppears_some _ _ ht]
      exact hgo (hcode (TransactionDetailViewController.viewWillAppear t ts)) rfl rfl rfl
  | present =>
    rw [Process.step_present]
    rcases hc : s.create with _ | v
    · rcases s.app.wallet with _ | w
      · exact backed_launch _ _ _
      · have hnil := h.none_of_create hc
        refine ⟨fun _ => hnil, fun v _ => ⟨[], List.nil_sublist _, ?_⟩⟩
        change List.Forall₂ _ s.confirm []
        rw [hnil]
        exact .nil
    · exact h
  | transfer form =>
    rcases hc : s.create with _ | w
    · rwa [Process.step_transfer_none _ _ hc]
    · exact h.transfer hc form r
  | back =>
    rw [Process.step_back]
    refine ⟨fun hnone => congrArg List.tail (h.none_of_create hnone), fun w hw => ?_⟩
    obtain ⟨qs, hqs, hscreens⟩ := h.screens w hw
    change ∃ qs, _ ∧ List.Forall₂ _ s.confirm.tail qs
    generalize s.confirm = screens at hscreens ⊢
    cases hscreens with
    | nil => exact ⟨[], List.nil_sublist _, .nil⟩
    | cons _ hscreens => exact ⟨_, (List.sublist_cons_self _ _).trans hqs, hscreens⟩
  | confirm =>
    rw [Process.step_confirm]
    split
    · exact h
    · refine ⟨fun _ => rfl, fun w hw => ?_⟩
      cases hw
  | relaunch => exact backed_launch _ _ _

/-- **Every confirm screen is backed** by a request of its own. -/
theorem screens_backed (x : Record) (now : Rat) (is : List Input) :
    Runs.Always Process.step Backed (Process.launch x now) is :=
  Runs.always_of_step (fun _ i h => h.step i) (backed_launch x now [])

/-! ## Traps -/

/-- There is a current wallet once one has been assigned, and a create screen
    only then. -/
structure Stocked (s : Process) : Prop where
  wallet : s.app.wallet ≠ none ↔ ∃ w, .assign w ∈ s.log
  create : s.create ≠ none → s.app.wallet ≠ none

theorem Stocked.applyScreen (h : Stocked s) (e : ScreenEffect) : Stocked (s.applyScreen e) := by
  obtain ⟨hwallet, hcreate⟩ := h
  cases e with
  | heights | text => exact ⟨hwallet, hcreate⟩
  | app e =>
    by_cases hassign : ∃ w, e = .assign w
    · obtain ⟨w, rfl⟩ := hassign
      refine ⟨⟨fun _ => ⟨w, ?_⟩, fun _ hnone => ?_⟩, fun _ hnone => ?_⟩
      · exact List.mem_append_right _ (List.mem_singleton.2 rfl)
      · cases hnone
      · cases hnone
    · have hsame : (s.applyScreen (.app e)).app.wallet = s.app.wallet := by
        cases e with
        | assign w => exact absurd ⟨w, rfl⟩ hassign
        | call | write | background | main | refreshedAt | «show» | setDelegate => rfl
      have hlog : ∀ w, .assign w ∈ s.log ++ [e] ↔ .assign w ∈ s.log := by
        intro w
        rw [List.mem_append, List.mem_singleton]
        exact or_iff_left fun heq => hassign ⟨w, heq.symm⟩
      refine ⟨?_, fun hc => ?_⟩
      · rw [hsame, hwallet]
        exact (exists_congr hlog).symm
      · rw [hsame]
        exact hcreate hc

theorem Stocked.perform (h : Stocked s) (r : ScreenEnv) (es : List ScreenEffect) :
    Stocked (s.perform r es) :=
  s.perform_keeps r (R := fun s t => Stocked s → Stocked t) (fun _ hs => hs)
    (fun _ _ _ hst htu hs => htu (hst hs)) (P := fun _ => True) (fun _ _ => trivial)
    (fun _ e _ hs => hs.applyScreen e) (fun _ _ => trivial) h

theorem stocked_launch (x : Record) (now : Rat) (past : List (List Effect)) :
    Stocked (Process.launch x now past) := by
  refine ⟨⟨fun h => absurd rfl h, ?_⟩, fun h => absurd rfl h⟩
  rintro ⟨w, hw⟩
  cases hw

theorem Stocked.step (h : Stocked s) (i : Input) : Stocked (s.step i) := by
  have hlog : s.log ⊆ (s.perform i.env (s.effects i)).log := (grown_perform s _ _).log.subset
  have hperform := h.perform i.env (s.effects i)
  rcases s.step_cases i with ⟨-, -, -, hflow⟩ | ⟨-, hdied⟩
  · refine ⟨?_, fun hcreate => ?_⟩
    · rw [hflow.wallet, hflow.log]
      exact hperform.wallet
    · rw [hflow.wallet]
      rcases hflow.create with hsame | hwallet | hnone
      · exact hperform.create (hsame ▸ hcreate)
      · obtain ⟨w, hw⟩ := h.wallet.1 (hwallet ▸ hcreate)
        exact hperform.wallet.2 ⟨w, hlog hw⟩
      · exact absurd hnone hcreate
  · rw [hdied]
    exact stocked_launch _ _ _

/-- A segue that is admitted hands a transaction over unless there is no
    address. -/
theorem prepared_iff {w v : Wallet} {form : Form} {env : Env}
    (h : Admission.Affordable w form env) :
    ((CreateTransactionViewController.prepare w form (.new v)).val env).transaction = none ↔
      form.addressTV.getD "" = "" := by
  obtain ⟨rawAmount, hamount, hne, -⟩ := h
  constructor
  · intro hnone
    by_contra haddress
    obtain ⟨address, hsome⟩ : ∃ address, form.addressTV = some address := by
      refine Option.ne_none_iff_exists'.1 fun hnil => haddress ?_
      rw [hnil]
      rfl
    rw [hsome] at haddress
    rw [(CreateTransactionViewController.prepare_some w form hsome haddress hamount hne (.new v)
      env).1] at hnone
    cases hnone
  · intro haddress
    rw [(CreateTransactionViewController.prepare_none w form (.inl haddress) (.new v) env).1]
    rfl

/-- A transfer traps where it is admitted without an address. -/
theorem transfer_trapped_iff {w v : Wallet} {form : Form} {env : Env} (hv : env.wallet = some v) :
    (CreateTransactionViewController.transfer w form).val env = .trapped ↔
      Admission.Affordable w form env ∧ form.addressTV.getD "" = "" := by
  rw [CreateTransactionViewController.val_transfer, hv, Option.elim_some,
    ← Admission.shouldPerformSegue_iff]
  by_cases hpass : (CreateTransactionViewController.shouldPerformSegue w form).val env = true
  · rw [if_pos hpass, ← prepared_iff (w := w) (v := v) (Admission.shouldPerformSegue_iff.1 hpass),
      ← ConfirmTransactionViewController.viewDidLoad_eq_none_iff _ env]
    rcases ((CreateTransactionViewController.prepare w form (.new v)).val env).viewDidLoad.val env
      with _ | text
    · exact ⟨fun _ => ⟨hpass, rfl⟩, fun _ => rfl⟩
    · constructor
      · intro h
        cases h
      · rintro ⟨-, h⟩
        cases h
  · rw [if_neg hpass]
    constructor
    · intro h
      cases h
    · exact fun h => absurd h.1 hpass

/-- **When the app dies.** -/
theorem traps_iff (x : Record) (now : Rat) (is : List Input) (i : Input) :
    let s := Runs.run Process.step (Process.launch x now) is
    s.Traps i ↔
      (i.event = .present ∧ s.create = none ∧ ∀ w, .assign w ∉ s.log) ∨
      ∃ form w, i.event = .transfer form ∧ s.create = some w ∧
        Admission.Affordable w form (s.env i.env).toEnv ∧ form.addressTV.getD "" = "" := by
  intro s
  obtain ⟨hwallet, hcreate⟩ : Stocked s :=
    Runs.run_of_step (fun _ i h => h.step i) (stocked_launch x now []) is
  obtain ⟨e, r, cut⟩ := i
  cases e with
  | present =>
    have hnone : s.app.wallet = none ↔ ∀ w, .assign w ∉ s.log := by
      rw [← not_exists, ← hwallet, not_not]
    constructor
    · rintro ⟨hc, hw⟩
      exact .inl ⟨rfl, hc, hnone.1 hw⟩
    · rintro (⟨-, hc, hassign⟩ | ⟨form, w, heq, -⟩)
      · exact ⟨hc, hnone.2 hassign⟩
      · cases heq
  | transfer form =>
    constructor
    · rintro ⟨w, hw, htrapped⟩
      have hc : s.create = some w := hw
      obtain ⟨v, hv⟩ := Option.ne_none_iff_exists'.1 (hcreate (by rw [hc]; simp))
      obtain ⟨hafford, haddress⟩ := (transfer_trapped_iff hv).1 htrapped
      exact .inr ⟨form, w, rfl, hc, hafford, haddress⟩
    · rintro (⟨heq, -⟩ | ⟨form', w, heq, hc, hafford, haddress⟩)
      · cases heq
      · cases heq
        obtain ⟨v, hv⟩ := Option.ne_none_iff_exists'.1 (hcreate (by rw [hc]; simp))
        exact ⟨w, hc, (transfer_trapped_iff hv).2 ⟨hafford, haddress⟩⟩
  | _ =>
    constructor
    · intro h
      exact h.elim
    · rintro (⟨heq, -⟩ | ⟨form, w, heq, -⟩)
      · cases heq
      · cases heq

end ConfirmScreens

end Monujo
