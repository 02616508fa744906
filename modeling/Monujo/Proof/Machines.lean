/-
  The machines of the single properties, driven by the app.

  Many properties are proved on a machine that has one part of the app only:
  the send screens, the session, the background blocks, a recovery, the handles,
  the events of replaced wallets.  Here the process drives each of them: an
  input amounts to some of its events, or to none, and what the machine has of
  the app stays what the process has.  So what holds in every run of a machine
  holds of the process: `Send.unsent_process`, that it sends nothing.
-/
import Monujo.Proof.Handles
import Monujo.Proof.Inputs
import Monujo.Proof.Recovery
import Monujo.Proof.Send
import Monujo.Proof.Session
import Monujo.Proof.Stale

namespace Monujo

open Monero WalletStore
open WalletViewController.Labels (Looks app? filterMap_app?_map)

/-! ## The send screens -/

namespace Send

/-- The machine has the send screens of the process, and has done the same to
    pending transactions. -/
structure Follows (s : Process) (t : State) : Prop where
  wallet : t.wallet = s.app.wallet
  create : t.create = s.create
  confirm : t.confirm.map Shown.vc = s.confirm
  trapped : t.trapped = false
  log : t.log.filter Sending = s.log.filter Sending

/-- What an input amounts to. -/
def amounts (s : Process) (_ : State) (i : Input) : List Event :=
  match i.event with
  | .present => [.present]
  | .transfer form => [.transfer form (s.env i.env).toEnv]
  | .back => [.back]
  | .confirm => [.confirm (s.env i.env).toEnv]
  | _ => [.assign (s.step i).app.wallet]

section
variable (t : State) (w : Wallet) (form : Form) {env : Env}

/-- **A transfer** does what the code of the create screen does. -/
theorem transfer_eq (hwallet : t.wallet = env.wallet) :
    let transfer := CreateTransactionViewController.transfer w form
    (t.transfer w form env).log = t.log ++ transfer.log env ∧
    (t.transfer w form env).wallet = t.wallet ∧ (t.transfer w form env).create = t.create ∧
    match transfer.val env with
    | .refused => t.transfer w form env = t.perform (transfer.log env)
    | .trapped => (t.transfer w form env).trapped = true
    | .shown vc text => ∃ c : Shown, c.vc = vc ∧ c.text = text ∧ c.creator = w ∧
      t.transfer w form env = { t.perform (transfer.log env) with confirm := c :: t.confirm } := by
  intro transfer
  rw [CreateTransactionViewController.log_transfer, CreateTransactionViewController.val_transfer,
    ← hwallet]
  unfold State.transfer
  by_cases hcheck : (CreateTransactionViewController.shouldPerformSegue w form).val env = true
  · simp only [if_pos hcheck, State.perform]
    rcases t.wallet with _ | v
    · exact ⟨(congrArg (t.log ++ ·) (List.append_nil _)).symm, rfl, rfl, rfl⟩
    · set vc := (CreateTransactionViewController.prepare w form (.new v)).val env with hvc
      have htransaction := vc.viewDidLoad_eq_none_iff env
      rcases hload : vc.viewDidLoad.val env with _ | text
      · simp only [Option.elim_some, Option.elim_none, ← hvc, hload, List.append_assoc, true_and]
      · have hsome : vc.transaction ≠ none := fun h => by
          rw [htransaction.2 h] at hload
          cases hload
        obtain ⟨p, hp⟩ := Option.ne_none_iff_exists'.1 hsome
        simp only [Option.elim_some, ← hvc, hload, hp, List.append_assoc, true_and]
        exact ⟨_, rfl, rfl, rfl, rfl⟩
  · simp only [if_neg hcheck, State.perform, List.append_nil, true_and]

end

theorem not_sending_of_looks {e : Effect} (h : Looks (.app e)) : Sending e = false := by
  cases e with
  | call c a =>
    cases c with
    | wallet w c => cases c <;> first | rfl | exact h.elim
    | pending => exact h.elim
    | _ => rfl
  | _ => rfl

theorem log_perform (s : Process) (r : ScreenEnv) (es : List ScreenEffect) :
    (s.perform r es).log.filter Sending =
      s.log.filter Sending ++ (es.filterMap app?).filter Sending := by
  have hg : ∀ e, Looks (.app e) → Option.guard Sending e = none := by
    intro e he
    simp [Option.guard, not_sending_of_looks he]
  have hlog := s.log_perform r es hg
  rwa [List.filterMap_eq_filter] at hlog

variable {s : Process} {t : State} {i : Input}

/-- Only a transfer sends. -/
theorem log_step (hi : s.Survives i) (h : ¬ Routine.Transfers i.event) :
    (s.step i).log.filter Sending = s.log.filter Sending := by
  have hnone : ∀ e ∈ s.effects i, ∀ e', e = .app e' → Sending e' = false := by
    refine Routine.effects_of s i (fun _ o env e hopens e' heq => ?_) (fun e hlook e' heq => ?_)
      (fun _ _ _ e hconnects e' heq => ?_) (fun e hroutine e' heq => ?_)
    · cases heq
      cases e with
      | call c a =>
        cases c with
        | wallet w c =>
          obtain ⟨-, rfl | rfl⟩ := hopens
          · rfl
          · rfl
        | pending => exact hopens.elim
        | _ => rfl
      | _ => rfl
    · subst heq
      exact not_sending_of_looks hlook
    · cases heq
      unfold Routine.Connects at hconnects
      split at hconnects <;> first | rfl | exact hconnects.elim
    · cases heq
      cases e with
      | call c a =>
        cases c with
        | wallet w c =>
          cases c with
          | createTransaction | disposeTransaction => exact absurd hroutine h
          | _ => rfl
        | pending => exact absurd hroutine h
        | _ => rfl
      | _ => rfl
  have hfilter : ((s.effects i).filterMap app?).filter Sending = [] := by
    refine List.filter_eq_nil_iff.2 fun e he => ?_
    obtain ⟨e', he', heq⟩ := List.mem_filterMap.1 he
    cases e' with
    | app e' =>
      cases heq
      simp [hnone _ he' e rfl]
    | heights | text => cases heq
  rw [hi.flow.log, log_perform, hfilter, List.append_nil]

/-- An input that neither sends nor moves the send screens at most assigns a
    wallet. -/
theorem Follows.assign (h : Follows s t) (hi : s.Survives i) (hsend : ¬ Routine.Transfers i.event)
    (hscreens : (s.step i).create = (s.perform i.env (s.effects i)).create ∧
      (s.step i).confirm = (s.perform i.env (s.effects i)).confirm) :
    Follows (s.step i) (step t (.assign (s.step i).app.wallet)) := by
  obtain ⟨-, hcreate, hconfirm⟩ := ConfirmScreens.grown_perform s i.env (s.effects i)
  obtain ⟨-, hcreate', hconfirm', htrapped, hlog⟩ := h
  rw [step, if_neg (by simp [htrapped])]
  refine ⟨rfl, ?_, ?_, htrapped, ?_⟩
  · rw [hscreens.1, hcreate]
    exact hcreate'
  · rw [hscreens.2, hconfirm]
    exact hconfirm'
  · rw [log_step hi hsend]
    exact hlog

/-- A transfer on the create screen of the wallet `w`. -/
theorem Follows.transfer (h : Follows s t) {w : Wallet} (hw : s.create = some w) (form : Form)
    (r : ScreenEnv) (hi : ¬ s.Traps ⟨.transfer form, r, none⟩) :
    Follows (s.step ⟨.transfer form, r, none⟩) (t.transfer w form (s.env r).toEnv) := by
  obtain ⟨hwallet, hcreate, hconfirm, htrapped, hlog⟩ := h
  have htransfer := @transfer_eq t w form (s.env r).toEnv hwallet
  have hquiet : (CreateTransactionViewController.transfer w form).Emits Labels.Quiet
      (s.env r).toEnv := fun e he =>
    Labels.quiet_of_routine (Routine.transfer (K := fun _ => False) (Q := False) w form e he)
  have hframe := Labels.frame_perform s r hquiet
  have hgrown := ConfirmScreens.grown_perform s r
    (((CreateTransactionViewController.transfer w form).log (s.env r).toEnv).map .app)
  have hsent := log_perform s r
    (((CreateTransactionViewController.transfer w form).log (s.env r).toEnv).map .app)
  rw [filterMap_app?_map] at hsent
  rw [s.step_transfer_some r hw]
  rcases hout : (CreateTransactionViewController.transfer w form).val (s.env r).toEnv
    with _ | _ | ⟨vc, text⟩
  · simp only [hout] at htransfer ⊢
    rw [htransfer.2.2.2]
    refine ⟨hwallet.trans hframe.wallet.symm, hcreate.trans hgrown.create.symm,
      hconfirm.trans hgrown.confirm.symm, htrapped, ?_⟩
    rw [Process.runCode, hsent, ← hlog]
    exact List.filter_append ..
  · exact absurd ⟨w, hw, hout⟩ hi
  · simp only [hout] at htransfer ⊢
    obtain ⟨c, hvc, -, -, heq⟩ := htransfer.2.2.2
    rw [heq]
    refine ⟨hwallet.trans hframe.wallet.symm, hcreate.trans hgrown.create.symm, ?_, htrapped, ?_⟩
    · change c.vc :: t.confirm.map Shown.vc = vc :: (s.runCode r _).confirm
      rw [hvc, hconfirm, Process.runCode, hgrown.confirm]
    · change (t.log ++ _).filter Sending = (s.runCode r _).log.filter Sending
      rw [Process.runCode, hsent, ← hlog]
      exact List.filter_append ..

/-- **One input.** -/
theorem Follows.step (h : Follows s t) (hi : s.Survives i) :
    Follows (s.step i) (Runs.run step t (amounts s t i)) := by
  obtain ⟨e, r, cut⟩ := i
  obtain rfl : cut = none := hi.uncut
  have hsends := hi.flow.sending
  have hgoes : ∀ e, Send.step t e = t.next e := fun e => if_neg (by simp [h.trapped])
  obtain ⟨hwallet, hcreate, hconfirm, htrapped, hlog⟩ := id h
  cases e with
  | present =>
    rw [s.step_present]
    simp only [amounts, Runs.run_cons, Runs.run_nil, hgoes, State.next, hcreate, hwallet]
    rcases hc : s.create with _ | v
    · rcases hw : s.app.wallet with _ | w
      · exact absurd ⟨hc, hw⟩ hi.sound
      · exact ⟨hw.symm, rfl, hconfirm, htrapped, hlog⟩
    · exact h
  | transfer form =>
    simp only [amounts, Runs.run_cons, Runs.run_nil, hgoes, State.next, hcreate]
    rcases hc : s.create with _ | w
    · rwa [s.step_transfer_none r hc]
    · exact h.transfer hc form r hi.sound
  | back =>
    rw [s.step_back]
    simp only [amounts, Runs.run_cons, Runs.run_nil, hgoes, State.next]
    rcases hc : t.confirm with _ | ⟨c, cs⟩
    · refine ⟨hwallet, hcreate, ?_, htrapped, hlog⟩
      rw [← hconfirm, hc]
      rfl
    · refine ⟨hwallet, hcreate, ?_, htrapped, hlog⟩
      rw [← hconfirm, hc]
      rfl
  | confirm =>
    rw [s.step_confirm]
    simp only [amounts, Runs.run_cons, Runs.run_nil, hgoes, State.next]
    rcases hc : t.confirm with _ | ⟨c, cs⟩
    · rw [if_pos (by rw [← hconfirm, hc]; rfl)]
      exact h
    · rw [if_neg (by rw [← hconfirm, hc]; simp)]
      refine ⟨hwallet, rfl, rfl, htrapped, ?_⟩
      exact (congrArg (List.filter Sending) (List.append_nil t.log)).trans hlog
  | _ => exact h.assign hi id (by simpa using hsends)

/-- The machine traps where the process does. -/
theorem Follows.trapped_of_traps (h : Follows s t) (hi : s.Traps i) :
    (Runs.run Send.step t (amounts s t i)).trapped = true := by
  obtain ⟨e, r, cut⟩ := i
  have hgoes : ∀ e, Send.step t e = t.next e := fun e => if_neg (by simp [h.trapped])
  obtain ⟨hwallet, hcreate, -, -, -⟩ := h
  cases e with
  | present =>
    obtain ⟨hc, hw⟩ := hi
    simp only [amounts, Runs.run_cons, Runs.run_nil, hgoes, State.next, hcreate, hwallet, hc, hw]
  | transfer form =>
    obtain ⟨w, hw, hout⟩ := hi
    have htransfer := (@transfer_eq t w form (s.env r).toEnv hwallet).2.2.2
    simp only [hout] at htransfer
    have hc : s.create = some w := hw
    simp only [amounts, Runs.run_cons, Runs.run_nil, hgoes, State.next, hcreate, hc]
    exact htransfer
  | _ => exact hi.elim

theorem follows_launch (x : Record) (now : Rat) (past : List (List Effect)) :
    Follows (Process.launch x now past) (start none) := ⟨rfl, rfl, rfl, rfl, rfl⟩

/-- **The send screens follow the process.** -/
theorem driven {is : List Input} (h : Follows s t)
    (his : Runs.Guarded (Runs.drive Process.step step amounts) (fun p i => p.1.Survives i)
      (s, t) is) :
    Runs.Always (Runs.drive Process.step step amounts) (fun p => Follows p.1 p.2) (s, t) is :=
  Runs.drive_sim (fun _ _ _ h hi => h.step hi) h his

theorem filterMap_sending {α : Type*} {g : Effect → Option α}
    (hg : ∀ e, Sending e = false → g e = none) (es : List Effect) :
    (es.filter Sending).filterMap g = es.filterMap g := by
  rw [List.filterMap_filter]
  refine List.filterMap_congr fun e _ => ?_
  cases hs : Sending e with
  | true => rfl
  | false => exact (hg e hs).symm

theorem created_filter (es : List Effect) : created (es.filter Sending) = created es :=
  filterMap_sending (fun e hs => by split <;> [cases hs; rfl]) es

theorem disposed_filter (es : List Effect) : disposed (es.filter Sending) = disposed es :=
  filterMap_sending (fun e hs => by split <;> [cases hs; rfl]) es

theorem committed_filter (es : List Effect) : committed (es.filter Sending) = committed es :=
  filterMap_sending (fun e hs => by split <;> [cases hs; rfl]) es

theorem live_filter {es : List Effect} : Live (es.filter Sending) ↔ Live es := by
  constructor
  · rintro h fs t c a gs rfl
    have hcount := h (fs.filter Sending) t c a (gs.filter Sending) <| by
      rw [List.filter_append, List.filter_cons_of_pos rfl]
    rwa [disposed_filter, created_filter] at hcount
  · intro h fs t c a gs heq
    obtain ⟨fs', es', rfl, rfl, hes'⟩ := List.filter_eq_append_iff.1 heq
    obtain ⟨ks, gs', rfl, hks, -, -⟩ := List.filter_eq_cons_iff.1 hes'
    -- what comes between the two is not about pending transactions
    have hnone : ks.filter Sending = [] := List.filter_eq_nil_iff.2 hks
    have hcount := h (fs' ++ ks) t c a gs' (List.append_assoc ..).symm
    rwa [← disposed_filter, ← created_filter, List.filter_append, hnone, List.append_nil] at hcount

/-- What is sent is seen in the calls about pending transactions. -/
theorem unsent_filter {es : List Effect} : Unsent (es.filter Sending) ↔ Unsent es := by
  constructor
  · rintro ⟨hcommitted, hdisposed, hlive⟩
    exact ⟨committed_filter es ▸ hcommitted, disposed_filter es ▸ hdisposed, live_filter.1 hlive⟩
  · rintro ⟨hcommitted, hdisposed, hlive⟩
    exact ⟨(committed_filter es).trans hcommitted, (disposed_filter es).trans hdisposed,
      live_filter.2 hlive⟩

/-- **The app sends nothing** while it lives, whatever is pressed on it. -/
theorem unsent_process (x : Record) (now : Rat) (past : List (List Effect)) {is : List Input}
    (his : Runs.Guarded Process.step Process.Survives (.launch x now past) is) :
    Unsent (Runs.run Process.step (.launch x now past) is).log := by
  have hsim : ∀ (s : Process) (t : State) (i : Input), Follows s t → s.Survives i →
      Follows (s.step i) (Runs.run step t (amounts s t i)) := fun _ _ _ h hi => h.step hi
  obtain ⟨es, hes⟩ := Runs.drive_run hsim (follows_launch x now past) his
  have hunsent : Unsent (Runs.run step (start none) es).log :=
    Runs.run_of_step (P := fun t : State => Unsent t.log) (fun _ e h => h.step e) unsent_nil es
  exact unsent_filter.1 (hes.log ▸ unsent_filter.2 hunsent)

end Send

/-! ## The events of replaced wallets -/

namespace Stale

/-- The machine has the record, the wallet and the delegates of the process. -/
structure Follows (s : Process) (t : State) : Prop where
  record : t.app.record = s.app.record
  wallet : t.app.wallet = s.app.wallet
  delegate : t.delegate = s.delegate
  observing : t.observing = s.observing

/-- What an input amounts to. -/
def amounts (s : Process) (_ : State) (i : Input) : List Event :=
  let env := (s.env i.env).toEnv
  match i.event with
  | .mainAppears => [.openSavedWallet env]
  | .submit form => form.opening?.toList.map (.opening · env)
  | .enterBackground => [.save env]
  | .callback w c => [.callback w c env]
  | .walletAppears => [.appear env]
  | .walletDisappears => [.disappear]
  | _ => []

section
variable {s : Process} {t : State} {i : Input}

/-- The code sees the same in both. -/
theorem Follows.env (h : Follows s t) (r : ScreenEnv) :
    t.env (s.env r).toEnv = (s.env r).toEnv := by
  obtain ⟨hrecord, hwallet, hdelegate, -⟩ := h
  rw [State.env, App.env, hrecord, hwallet, hdelegate]
  rfl

/-- `resetWallet` runs in both. -/
theorem Follows.reset (h : Follows s t) (r : ScreenEnv) (env : Env) :
    Follows (s.reset r) (t.show env) := by
  obtain ⟨hrecord, hwallet, hdelegate, hobserving⟩ := h
  have hreset := Labels.run_resetWallet s r
  obtain ⟨hrecord', hwallet', -⟩ :=
    s.app_looks (WalletViewController.Labels.looks_resetWallet (s.env r))
  refine ⟨hrecord.trans hrecord'.symm, hwallet.trans hwallet'.symm, ?_,
    hobserving.trans hreset.observing.symm⟩
  rw [Process.reset, hreset.delegate]
  funext v
  simp only [State.show, WalletViewController.delegated_resetWallet, State.env, App.env, hwallet,
    hdelegate]
  rcases s.app.wallet with _ | w
  · simp
  · by_cases hv : v = w
    · simp [hv]
    · simp [hv, Function.update_of_ne]

/-- One effect of code other than `resetWallet`. -/
theorem Follows.apply (h : Follows s t) (r : ScreenEnv) (env : Env) {e : Effect}
    (he : ∀ w, e ≠ .setDelegate w) : Follows (s.apply r (.app e)) (t.apply env e) := by
  obtain ⟨hrecord, hwallet, hdelegate, hobserving⟩ := id h
  by_cases hassign : ∃ w, e = .assign w
  · obtain ⟨w, rfl⟩ := hassign
    have hnew : Follows (s.applyApp (.assign w)) { t with app := t.app.apply (.assign w) } :=
      ⟨hrecord, rfl, hdelegate, hobserving⟩
    rw [s.apply_assign]
    by_cases hobs : s.observing = true
    · rw [if_pos hobs, State.apply, if_pos (hobserving.trans hobs)]
      exact hnew.reset r env
    · rw [if_neg hobs, State.apply, if_neg fun h => hobs (hobserving.symm.trans h)]
      exact hnew
  · rw [s.apply_of_ne r fun w hw => hassign ⟨w, ScreenEffect.app.inj hw⟩]
    cases e with
    | assign w => exact absurd ⟨w, rfl⟩ hassign
    | setDelegate w => exact absurd rfl (he w)
    | write w => exact ⟨congrArg (·.set w) hrecord, hwallet, hdelegate, hobserving⟩
    | background | main | refreshedAt | «show» => exact ⟨hrecord, hwallet, hdelegate, hobserving⟩
    | call c a =>
      cases c with
      | wallet w c =>
        cases c with
        | setListener owner =>
          refine ⟨hrecord, hwallet, ?_, hobserving⟩
          change Function.update t.delegate _ _ = Function.update s.delegate _ _
          rw [hdelegate]
        | _ => exact ⟨hrecord, hwallet, hdelegate, hobserving⟩
      | _ => exact ⟨hrecord, hwallet, hdelegate, hobserving⟩

theorem Follows.perform (h : Follows s t) (r : ScreenEnv) (env : Env) {es : List Effect}
    (hes : ∀ e ∈ es, ∀ w, e ≠ .setDelegate w) :
    Follows (s.perform r (es.map .app)) (t.perform env es) := by
  induction es generalizing s t with
  | nil => exact h
  | cons e es ih =>
    rw [List.map_cons, Process.perform_cons]
    exact ih (h.apply r env (hes e (by simp))) fun e' he' => hes e' (by simp [he'])

/-- Code of the app runs in both. -/
theorem Follows.code (h : Follows s t) (r : ScreenEnv) {es : List Effect}
    (hes : ∀ e ∈ es, ∀ w, e ≠ .setDelegate w) (hi : s.Survives i)
    (heffects : s.effects i = es.map .app) (hr : r = i.env)
    (hobserving : i.event ≠ .walletAppears ∧ i.event ≠ .walletDisappears) :
    Follows (s.step i) (t.perform (s.env r).toEnv es) := by
  subst hr
  obtain ⟨hrecord, hwallet, hdelegate, hobserved⟩ := h.perform i.env (s.env i.env).toEnv hes
  rw [← heffects] at hrecord hwallet hdelegate hobserved
  have hflow := hi.flow
  refine ⟨hrecord.trans hflow.record.symm, hwallet.trans hflow.wallet.symm,
    hdelegate.trans hflow.delegate.symm, hobserved.trans ?_⟩
  obtain happears | hdisappears | hsame := hflow.observing
  · exact absurd happears hobserving.1
  · exact absurd hdisappears hobserving.2
  · exact hsame.symm

theorem not_setDelegate_of_opens (o : Option Opening) (env : Env) :
    ∀ e ∈ o.elim [] fun o => o.code.log env, ∀ w, e ≠ .setDelegate w := by
  rintro e he w rfl
  rcases o with _ | o
  · cases he
  · exact Routine.opens_code o env _ he

theorem not_setDelegate_of_routine {K : Key → Prop} {Q T : Prop} {es : List Effect}
    (h : ∀ e ∈ es, Routine K Q T e) : ∀ e ∈ es, ∀ w, e ≠ .setDelegate w := by
  rintro e he w rfl
  exact h _ he

/-- **One input.** -/
theorem Follows.step (h : Follows s t) (hi : s.Survives i) :
    Follows (s.step i) (Runs.run step t (amounts s t i)) := by
  obtain ⟨e, r, cut⟩ := i
  obtain rfl : cut = none := hi.uncut
  -- an input that writes nothing and leaves the wallets where they are
  have hidle : ¬ Process.Records e → (s.step ⟨e, r, none⟩).app.wallet = s.app.wallet →
      (s.step ⟨e, r, none⟩).delegate = s.delegate →
      (s.step ⟨e, r, none⟩).observing = s.observing → Follows (s.step ⟨e, r, none⟩) t := by
    intro hrecords hwallet hdelegate hobserving
    exact ⟨h.record.trans (s.record_of_not_records _ hrecords).symm, h.wallet.trans hwallet.symm,
      h.delegate.trans hdelegate.symm, h.observing.trans hobserving.symm⟩
  cases e with
  | mainAppears =>
    simp only [amounts, Runs.run_cons, Runs.run_nil, Stale.step, h.env, (openSavedWallet_eq _).2]
    exact h.code r (not_setDelegate_of_opens _ _) hi (s.effects_mainAppears r none) rfl (by simp)
  | submit form =>
    have hcode := h.code r (not_setDelegate_of_opens form.opening? _) hi
      (s.effects_submit r form none) rfl (by simp)
    simp only [amounts]
    rcases ho : form.opening? with _ | o
    · rwa [ho] at hcode
    · rw [ho] at hcode
      simp only [Option.toList_some, List.map_cons, List.map_nil, Runs.run_cons, Runs.run_nil,
        Stale.step, h.env]
      exact hcode
  | enterBackground =>
    simp only [amounts, Runs.run_cons, Runs.run_nil, Stale.step, h.env]
    exact h.code r (not_setDelegate_of_routine (Routine.save (Q := False) (T := False))) hi
      (s.effects_enterBackground r none) rfl (by simp)
  | callback w c =>
    simp only [amounts, Runs.run_cons, Runs.run_nil, Stale.step, h.env]
    rw [s.step_callback]
    exact h.perform r _ (not_setDelegate_of_routine (Routine.listener (T := False) w c))
  | walletAppears =>
    rw [s.step_walletAppears,
      s.perform_eq_run r (WalletViewController.Labels.looks_resetWallet _)]
    obtain ⟨hrecord, hwallet, hdelegate, -⟩ := h.reset r (s.env r).toEnv
    exact ⟨hrecord, hwallet, hdelegate, rfl⟩
  | walletDisappears => exact ⟨h.record, h.wallet, h.delegate, rfl⟩
  | block j =>
    obtain ⟨hwallet, -, -, hobserving, hdelegate⟩ := s.run_block r j
    exact hidle id hwallet hdelegate hobserving
  | _ =>
    obtain ⟨hwallet, -, -, hobserving, hdelegate⟩ := hi.idle id
    exact hidle id hwallet hdelegate hobserving

theorem follows_launch (x : Record) (now : Rat) (past : List (List Effect)) :
    Follows (Process.launch x now past) ⟨⟨x, none, [], []⟩, fun _ => false, false⟩ :=
  ⟨rfl, rfl, rfl, rfl⟩

/-- **The machine of replaced wallets follows the process.** -/
theorem driven {is : List Input} (h : Follows s t)
    (his : Runs.Guarded (Runs.drive Process.step Stale.step amounts) (fun p i => p.1.Survives i)
      (s, t) is) :
    Runs.Always (Runs.drive Process.step Stale.step amounts) (fun p => Follows p.1 p.2) (s, t) is :=
  Runs.drive_sim (fun _ _ _ h hi => h.step hi) h his

end

end Stale

/-! ## The saved session -/

namespace Session

/-- The machine has the record and the wallet of the process. -/
structure Follows (s : Process) (t : State) : Prop where
  record : t.app.record = s.app.record
  wallet : t.app.wallet = s.app.wallet

/-- The input runs to its end, and finds the files of the machine. -/
structure Finds (documents : Option String) (t : State) (i : Input) : Prop where
  uncut : i.cut = none
  documents : i.env.documents = documents
  fileExists : i.env.fileExists = fun path => (t.files (cstr path)).isSome

/-- What an input amounts to. -/
def amounts (s : Process) (_ : State) (i : Input) : List Event :=
  let env := (s.env i.env).toEnv
  if s.Ends i then [.restart]
  else match i.event with
  | .mainAppears => [.openSavedWallet env]
  | .submit form => form.opening?.toList.map (.opening · env)
  | .enterBackground => [.save env]
  | .callback w .refreshed => if s.delegate w then [.walletRefreshed w env] else []
  | _ => []

section
variable {documents : Option String} {s : Process} {t : State} {i : Input}

/-- The code sees the same in both. -/
theorem Follows.env (h : Follows s t) (hi : Finds documents t i) :
    t.env documents (s.env i.env).toEnv = (s.env i.env).toEnv := by
  rw [State.env, App.env, h.record, h.wallet, ← hi.documents, ← hi.fileExists]
  rfl

/-- Code of the app runs in both. -/
theorem Follows.code (h : Follows s t) {es : List Effect} (hi : s.Survives i)
    (heffects : s.effects i = es.map .app) :
    (t.app.perform es).record = (s.step i).app.record ∧
      (t.app.perform es).wallet = (s.step i).app.wallet := by
  rw [hi.flow.record, hi.flow.wallet, heffects, s.record_perform, s.wallet_perform,
    filterMap_app?_map, App.record_perform, App.wallet_perform, h.record, h.wallet]
  exact ⟨rfl, rfl⟩

/-- **One input.** -/
theorem Follows.step (h : Follows s t) (hi : Finds documents t i) :
    Follows (s.step i) (Runs.run (step documents) t (amounts s t i)) := by
  have henv := h.env hi
  by_cases hends : s.Ends i
  · obtain ⟨hrecord, hwallet, -⟩ := s.ended i hends
    rw [amounts, if_pos hends]
    exact ⟨h.record.trans hrecord.symm, hwallet.symm⟩
  have hsurvives := Process.survives_of_not_ends hi.uncut hends
  rw [amounts, if_neg hends]
  obtain ⟨e, r, cut⟩ := i
  obtain rfl : cut = none := hi.uncut
  -- an input that writes nothing and assigns no wallet
  have hidle : ¬ Process.Records e → (s.step ⟨e, r, none⟩).app.wallet = s.app.wallet →
      Follows (s.step ⟨e, r, none⟩) t := fun hrecords hwallet =>
    ⟨h.record.trans (s.record_of_not_records _ hrecords).symm, h.wallet.trans hwallet.symm⟩
  cases e with
  | mainAppears =>
    have hcode := h.code hsurvives (s.effects_mainAppears r none)
    simp only [Runs.run_cons, Runs.run_nil, Session.step, henv, (openSavedWallet_eq _).2]
    rcases hsaved : saved (s.env r).toEnv with _ | o
    · rw [hsaved] at hcode
      exact ⟨hcode.1, hcode.2⟩
    · rw [hsaved] at hcode
      exact ⟨hcode.1, hcode.2⟩
  | submit form =>
    have hcode := h.code hsurvives (s.effects_submit r form none)
    simp only
    rcases ho : form.opening? with _ | o
    · rw [ho] at hcode
      exact ⟨hcode.1, hcode.2⟩
    · rw [ho] at hcode
      simp only [Option.toList_some, List.map_cons, List.map_nil, Runs.run_cons, Runs.run_nil,
        Session.step, henv]
      exact ⟨hcode.1, hcode.2⟩
  | enterBackground =>
    have hcode := h.code hsurvives (s.effects_enterBackground r none)
    simp only [Runs.run_cons, Runs.run_nil, Session.step, henv]
    exact ⟨hcode.1, hcode.2⟩
  | callback w c =>
    have hcode := h.code hsurvives (s.effects_callback r w c none)
    rw [Callback.log_listener, Process.env_delegate] at hcode
    cases c with
    | refreshed =>
      simp only
      split
      · rename_i hdelegate
        rw [if_pos hdelegate] at hcode
        simp only [Runs.run_cons, Runs.run_nil, Session.step, henv]
        exact ⟨hcode.1, hcode.2⟩
      · rename_i hdelegate
        rw [if_neg hdelegate] at hcode
        exact ⟨hcode.1, hcode.2⟩
    | moneySpent | moneyReceived | newBlock | updated =>
      exact hidle id (hsurvives.idle id).wallet
  | walletAppears => exact hidle id (s.run_walletAppears r).1
  | walletDisappears => exact hidle id rfl
  | block j => exact hidle id (s.run_block r j).1
  | _ => exact hidle id (hsurvives.idle id).wallet

theorem follows_launch (x : Record) (now : Rat) (past : List (List Effect)) (files : Files) :
    Follows (Process.launch x now past) (start x files) := ⟨rfl, rfl⟩

/-- **The session follows the process.** -/
theorem driven {is : List Input} (h : Follows s t)
    (his : Runs.Guarded (Runs.drive Process.step (Session.step documents) amounts)
      (fun p i => Finds documents p.2 i) (s, t) is) :
    Runs.Always (Runs.drive Process.step (Session.step documents) amounts)
      (fun p => Follows p.1 p.2) (s, t) is :=
  Runs.drive_sim (fun _ _ _ h hi => h.step hi) h his

end

end Session

/-! ## The background blocks -/

namespace Dispatch

/-- The blocks that have not run, by their place. -/
def State.left (t : State) : List ℕ := (List.range t.app.blocks.length).filter (· ∉ t.ran)

/-- The machine has the current wallet and the pending blocks of the process,
    and has made the calls that connect wallets. -/
structure Follows (s : Process) (t : State) : Prop where
  wallet : t.app.wallet = s.app.wallet
  blocks : t.left.map (t.app.blocks[·]?) = s.app.blocks.map some
  ran : ∀ j ∈ t.ran, j < t.app.blocks.length
  calls : t.app.calls = Connections.connections s.log

/-- The dispatching of an operation. -/
def dispatch (env : Env) (o : Opening) : Event :=
  .initWallet ⟨o.handle env⟩ o.file o.block.recovering o.block.restoreHeight env

/-- What an input amounts to. -/
def amounts (s : Process) (t : State) (i : Input) : List Event :=
  let env := (s.env i.env).toEnv
  match i.event with
  | .mainAppears => (saved env).toList.map (dispatch env)
  | .submit form => form.opening?.toList.map (dispatch env)
  | .block j => (t.left[j]?).toList.map (.block · env)
  | _ => []

section
variable {s : Process} {t : State} {i : Input}

theorem connections_eq (es : List Effect) :
    Connections.connections es = es.filterMap fun e => e.call?.filter Connections.Connecting :=
  List.filter_filterMap

theorem not_connecting {e : Effect} (h : ∀ c a, e = .call c a → Connections.Connecting c = false) :
    e.call?.filter Connections.Connecting = none := by
  cases e with
  | call c a =>
    refine Option.filter_eq_none_iff.2 fun c' hc' => ?_
    obtain rfl : c = c' := Option.some.inj hc'
    simp [h c a rfl]
  | write | assign | background | main | refreshedAt | «show» | setDelegate => rfl

theorem connections_perform (s : Process) (r : ScreenEnv) (es : List ScreenEffect) :
    Connections.connections (s.perform r es).log =
      Connections.connections s.log ++ Connections.connections (es.filterMap app?) := by
  rw [connections_eq, connections_eq, connections_eq, s.log_perform r]
  intro e he
  refine not_connecting ?_
  rintro c a rfl
  exact Connections.plain_of_looks he

/-- Only blocks connect. -/
theorem connections_step (hi : s.Survives i) (h : ∀ j, i.event ≠ .block j) :
    Connections.connections (s.step i).log = Connections.connections s.log := by
  have hnone : ∀ e ∈ s.effects i, ∀ e', e = .app e' →
      e'.call?.filter Connections.Connecting = none := by
    refine Routine.effects_of s i (fun _ o env e hopens e' heq => ?_) (fun e hlook e' heq => ?_)
      (fun hj => ?_) (fun e hroutine e' heq => ?_)
    · cases heq
      refine not_connecting ?_
      rintro c a rfl
      cases c with
      | wallet w c =>
        obtain ⟨-, rfl | rfl⟩ := hopens
        · rfl
        · rfl
      | _ => rfl
    · subst heq
      refine not_connecting ?_
      rintro c a rfl
      exact Connections.plain_of_looks hlook
    · obtain ⟨j, hj⟩ := hj
      exact absurd hj (h j)
    · cases heq
      refine not_connecting ?_
      rintro c a rfl
      exact Connections.plain_of_routine hroutine
  have hfilter : Connections.connections ((s.effects i).filterMap app?) = [] := by
    rw [connections_eq]
    refine List.filterMap_eq_nil_iff.2 fun e he => ?_
    obtain ⟨e', he', heq⟩ := List.mem_filterMap.1 he
    cases e' with
    | app e' =>
      cases heq
      exact hnone _ he' e rfl
    | heights | text => cases heq
  rw [hi.flow.log, connections_perform, hfilter, List.append_nil]

/-- A block calls the current wallet, and every call of it connects. -/
theorem connections_initBlock (b : Block) (env : Env) :
    Connections.connections ((initBlock b).log env) = callsOf ((initBlock b).log env) ∧
      callsOf ((initBlock b).log env) =
        env.wallet.elim [] fun w => (initCalls b).map (Call.wallet w.impl) := by
  rcases hw : env.wallet with _ | w
  · have hnil : (initBlock b).log env = [] := by simp [initBlock, hw]
    rw [hnil]
    exact ⟨rfl, rfl⟩
  · have hcalls := log_initBlock b env hw
    refine ⟨?_, hcalls⟩
    rw [Connections.connections_made (Connections.calls_initBlock b hw), hcalls]
    rfl

/-- An operation dispatches its block. -/
theorem Follows.dispatch (h : Follows s t) (hi : s.Survives i) (hevent : ∀ j, i.event ≠ .block j)
    {o : Opening} (heffects : s.effects i = (o.code.log (s.env i.env).toEnv).map .app) :
    Follows (s.step i) (step t (Dispatch.dispatch (s.env i.env).toEnv o)) := by
  obtain ⟨-, hblocks, hran, hcalls⟩ := h
  have hflow := hi.flow
  rw [heffects] at hflow
  have hnew : t.app.blocks.length ∉ t.ran := fun hmem => Nat.lt_irrefl _ (hran _ hmem)
  have hleft : (step t (Dispatch.dispatch (s.env i.env).toEnv o)).left =
      t.left ++ [t.app.blocks.length] := by
    change (List.range (t.app.blocks ++ [o.block]).length).filter (· ∉ t.ran) = _
    rw [List.length_append, List.length_singleton, List.range_succ, List.filter_append]
    congr 1
    simp [hnew]
  refine ⟨?_, ?_, fun j hj => ?_, ?_⟩
  · rw [hflow.wallet, s.wallet_perform, filterMap_app?_map, o.assigns_log]
    rfl
  · have hsame := hflow.blocks.resolve_right fun ⟨j, hj, _⟩ => hevent j hj
    rw [hsame, s.blocks_perform, filterMap_app?_map, o.backgrounds_log, hleft, List.map_append,
      List.map_append, ← hblocks]
    change _ ++ [(t.app.blocks ++ [o.block])[t.app.blocks.length]?] = _
    rw [List.getElem?_concat_length]
    congr 1
    refine List.map_congr_left fun j hj => ?_
    change (t.app.blocks ++ [o.block])[j]? = _
    have hlt : j < t.app.blocks.length := List.mem_range.1 (List.mem_filter.1 hj).1
    exact List.getElem?_append_left hlt
  · change j < (t.app.blocks ++ [o.block]).length
    rw [List.length_append]
    exact Nat.lt_succ_of_lt (hran j hj)
  · rw [connections_step hi hevent]
    exact hcalls

theorem filter_erase (n k : ℕ) (ran : List ℕ) : (List.range n).filter (· ∉ ran ++ [k]) =
    ((List.range n).filter (· ∉ ran)).erase k := by
  rw [(List.nodup_range.filter _).erase_eq_filter, List.filter_filter]
  refine List.filter_congr fun x _ => ?_
  by_cases hx : x = k
  · simp [hx]
  · simp [hx]

/-- A pending block runs. -/
theorem Follows.block (h : Follows s t) (r : ScreenEnv) (j : ℕ) :
    Follows (s.step ⟨.block j, r, none⟩)
      (Runs.run step t ((t.left[j]?).toList.map (.block · (s.env r).toEnv))) := by
  obtain ⟨hwallet, hblocks, hran, hcalls⟩ := id h
  have hplace : (t.left[j]?).map (t.app.blocks[·]?) = (s.app.blocks[j]?).map some := by
    rw [← List.getElem?_map, ← List.getElem?_map, hblocks]
  rcases hk : t.left[j]? with _ | k
  · rw [hk] at hplace
    have hnone : s.app.blocks[j]? = none := Option.map_eq_none_iff.1 hplace.symm
    rw [s.step_block_none r hnone]
    exact h
  rw [hk] at hplace
  rcases hb : s.app.blocks[j]? with _ | b
  · rw [hb] at hplace
    cases hplace
  rw [hb] at hplace
  obtain ⟨hlt, hget⟩ := List.getElem?_eq_some_iff.1 (Option.some.inj hplace)
  have hpending : t.Pending k := by
    have hmem := List.mem_filter.1 (List.mem_of_getElem? hk)
    exact ⟨hlt, by simpa using hmem.2⟩
  have hstep : step t (.block k (s.env r).toEnv) =
      ⟨t.app.perform ((initBlock b).log (t.app.env (s.env r).toEnv)), t.ran ++ [k]⟩ := by
    have hgot : t.app.blocks.get ⟨k, hpending.1⟩ = b := hget
    simp only [Dispatch.step, dif_pos hpending, hgot]
  obtain ⟨hsame, hkept⟩ := app_initBlock b (t.app.env (s.env r).toEnv) t.app
  obtain ⟨hwallet', hblocks', -⟩ := s.run_block r j
  have hrun : Runs.run step t ((some k).toList.map (.block · (s.env r).toEnv)) =
      step t (.block k (s.env r).toEnv) := rfl
  rw [hrun, hstep]
  refine ⟨hkept.trans (hwallet.trans hwallet'.symm), ?_, fun x hx => ?_, ?_⟩
  · -- the place of the block is gone from the ones left
    obtain ⟨hj, hjk⟩ := List.getElem?_eq_some_iff.1 hk
    have hleft :
        (List.range t.app.blocks.length).filter (· ∉ t.ran ++ [k]) = t.left.eraseIdx j := by
      have hnodup : t.left.Nodup := List.nodup_range.filter _
      rw [filter_erase, ← hnodup.erase_getElem j hj, hjk]
      rfl
    rw [hblocks', State.left]
    simp only [hsame]
    rw [hleft, ← List.eraseIdx_map, ← List.eraseIdx_map, ← hblocks]
  · simp only [hsame]
    rcases List.mem_append.1 hx with hx | hx
    · exact hran x hx
    · obtain rfl := List.mem_singleton.1 hx
      exact hlt
  · obtain ⟨hconnects, hcalled⟩ := connections_initBlock b (s.env r).toEnv
    have hsees : callsOf ((initBlock b).log (t.app.env (s.env r).toEnv)) =
        callsOf ((initBlock b).log (s.env r).toEnv) := by
      rw [hcalled, (connections_initBlock b _).2]
      change t.app.wallet.elim _ _ = s.app.wallet.elim _ _
      rw [hwallet]
    rw [App.calls_perform, hsees, hcalls, s.step_block_some r hb, Process.runCode,
      connections_perform, filterMap_app?_map, hconnects]

/-- **One input.** -/
theorem Follows.step (h : Follows s t) (hi : s.Survives i) :
    Follows (s.step i) (Runs.run step t (amounts s t i)) := by
  obtain ⟨e, r, cut⟩ := i
  obtain rfl : cut = none := hi.uncut
  -- an input that opens nothing and runs no block
  have hidle : (∀ j, e ≠ .block j) → (s.step ⟨e, r, none⟩).app.wallet = s.app.wallet →
      (s.step ⟨e, r, none⟩).app.blocks = s.app.blocks → Follows (s.step ⟨e, r, none⟩) t := by
    intro hblock hwallet hblocks
    refine ⟨h.wallet.trans hwallet.symm, ?_, h.ran, ?_⟩
    · rw [hblocks]
      exact h.blocks
    · rw [connections_step hi hblock]
      exact h.calls
  have hopening : ∀ o : Option Opening, (∀ j, e ≠ .block j) →
      s.effects ⟨e, r, none⟩ = (o.elim [] fun o => o.code.log (s.env r).toEnv).map .app →
      Follows (s.step ⟨e, r, none⟩)
        (Runs.run Dispatch.step t (o.toList.map (Dispatch.dispatch (s.env r).toEnv))) := by
    rintro (_ | o) hblock heffects
    · have hflow := hi.flow
      rw [heffects] at hflow
      exact hidle hblock hflow.wallet (hflow.blocks.resolve_right fun ⟨j, hj, _⟩ => hblock j hj)
    · exact h.dispatch hi hblock heffects
  cases e with
  | mainAppears => exact hopening _ (by simp) (s.effects_mainAppears r none)
  | submit form => exact hopening _ (by simp) (s.effects_submit r form none)
  | block j => exact h.block r j
  | walletAppears =>
    obtain ⟨hwallet, hblocks, -⟩ := s.run_walletAppears r
    exact hidle (by simp) hwallet hblocks
  | walletDisappears => exact hidle (by simp) rfl rfl
  | _ =>
    obtain ⟨hwallet, hblocks, -⟩ := hi.idle id
    exact hidle (by simp) hwallet hblocks

theorem follows_launch (x : Record) (now : Rat) (past : List (List Effect)) :
    Follows (Process.launch x now past) (start x none) := ⟨rfl, rfl, nofun, rfl⟩

/-- **The background queue follows the process.** -/
theorem driven {is : List Input} (h : Follows s t)
    (his : Runs.Guarded (Runs.drive Process.step Dispatch.step amounts)
      (fun p i => p.1.Survives i) (s, t) is) :
    Runs.Always (Runs.drive Process.step Dispatch.step amounts) (fun p => Follows p.1 p.2)
      (s, t) is :=
  Runs.drive_sim (fun _ _ _ h hi => h.step hi) h his

end

end Dispatch

/-! ## A recovery -/

namespace Recovery

/-- The machine has the record, the wallet and the blocks of the process. -/
structure Follows (s : Process) (t : State) : Prop where
  record : t.app.record = s.app.record
  wallet : t.app.wallet = s.app.wallet
  blocks : t.app.blocks = s.app.blocks

/-- What happens: the library takes a block for a wallet, or the app has an
    input. -/
abbrev Happening := Handle ⊕ Input

def happen (s : Process) : Happening → Process
  | .inl _ => s
  | .inr i => s.step i

/-- The input finds the directory and the heights of the machine. -/
structure Finds (c : Params) (t : State) (i : Input) : Prop where
  documents : i.env.documents = c.documents
  heights : t.answers i.env.answers = i.env.answers

/-- It opens no other wallet, and reports only what the library may report. -/
structure Fits (c : Params) (t : State) (i : Input) : Prop extends Finds c t i where
  alone : ∀ form, i.event ≠ .submit form
  reports : ∀ w, i.event = .callback w .refreshed → t.Reports w

/-- What happens amounts to this. -/
def amounts (s : Process) (_ : State) : Happening → List Event
  | .inl h => [.scan h]
  | .inr i =>
    let env := (s.env i.env).toEnv
    match i.event with
    | .mainAppears => [.openSaved env i.cut]
    | .enterBackground => [.save env i.cut]
    | .callback w .refreshed => [.refreshed w env i.cut]
    | .block j => if i.cut.isSome then [.kill] else [.block j env]
    | _ => if i.cut.isSome ∨ s.Ends i then [.kill] else []

section
variable {c : Params} {s : Process} {t : State} {i : Input}

/-- The code sees the same in both. -/
theorem Follows.env (h : Follows s t) (hi : Finds c t i) :
    t.env c (s.env i.env).toEnv = (s.env i.env).toEnv := by
  have hanswers : t.answers (s.env i.env).answers = i.env.answers := hi.heights
  rw [State.env, App.env, h.record, h.wallet, hanswers, ← hi.documents]
  rfl

/-- Code of the app runs in both, and may be cut in both. -/
theorem Follows.exec (h : Follows s t) (hi : Finds c t i) {α : Type} (m : AppCode α)
    (hends : ¬ s.Ends i) (hblock : ∀ j, i.event ≠ .block j)
    (heffects : s.effects i = (m.log (s.env i.env).toEnv).map .app)
    (hrecord : (s.step i).app.record =
      s.app.record.put (writesOf (m.cut (s.env i.env).toEnv i.cut))) :
    Follows (s.step i) (t.exec c m (s.env i.env).toEnv i.cut) := by
  have henv := h.env hi
  have hrecorded : (t.exec c m (s.env i.env).toEnv i.cut).app.record = (s.step i).app.record := by
    rw [record_exec, henv, h.record, hrecord]
  rcases hcut : i.cut with _ | k
  · rw [hcut] at hrecorded
    have hflow := (Process.survives_of_not_ends hcut hends).flow
    have happ : (t.exec c m (s.env i.env).toEnv none).app =
        t.app.perform (m.log (s.env i.env).toEnv) := by
      conv_rhs => rw [← henv]
      exact app_perform t _
    rw [heffects] at hflow
    refine ⟨hrecorded, ?_, ?_⟩
    · rw [happ, hflow.wallet, App.wallet_perform, s.wallet_perform, filterMap_app?_map, h.wallet]
    · rw [happ, hflow.blocks.resolve_right fun ⟨j, hj, _⟩ => hblock j hj, App.blocks_perform,
        s.blocks_perform, filterMap_app?_map, h.blocks]
  · rw [hcut] at hrecorded
    obtain ⟨hwallet, hblocks⟩ := s.killed (i := i) (by rw [hcut]; rfl)
    exact ⟨hrecorded, hwallet.symm, hblocks.symm⟩

/-- What an operation writes before it is cut. -/
theorem writesOf_cut_code (o : Opening) (env : Env) (cut : Option ℕ) :
    writesOf (o.code.cut env cut) = Reopening.written o cut := by
  rcases cut with _ | k
  · exact o.writesOf_log env
  · have hnative : writesOf ((o.native env).take k) = [] :=
      List.eq_nil_of_prefix_nil (o.writesOf_native env ▸ (List.take_prefix k _).filterMap _)
    have hrest : ∀ n, writesOf ([Effect.assign ⟨o.handle env⟩, .background o.block].take n) = [] :=
      fun n => List.eq_nil_of_prefix_nil ((List.take_prefix n _).filterMap _)
    rw [Code.cut_some, o.log_code, List.take_append, writesOf_append, hrest, List.append_nil,
      List.take_append, writesOf_append, hnative, List.nil_append, ← List.map_take,
      Opening.writesOf_map_write]
    rfl

/-- It begins with a login form that asks to recover a wallet. -/
theorem follows_start (s : Process) {form : LoginForm} {memo : String} {r : ScreenEnv}
    (hform : form.opening? = some (.recover c.file memo c.restoreHeight))
    (hdocuments : r.documents = c.documents) (earlier : List Wallet) (cut : Option ℕ) :
    Follows (s.step ⟨.submit form, r, cut⟩)
      (start c s.app earlier memo (s.env r).toEnv cut) := by
  have heffects := s.effects_submit r form cut
  have hrecord := Reopening.record_opening s heffects
  rw [hform, Option.elim_some] at heffects hrecord
  refine Follows.exec (i := ⟨.submit form, r, cut⟩) ⟨rfl, rfl, rfl⟩ ⟨hdocuments, ?_⟩
    (recoverWallet c.file memo c.restoreHeight) ?_ (by simp) heffects ?_
  · funext call
    cases call with
    | wallet h call => cases call <;> rfl
    | _ => rfl
  · simp [Process.Ends, Process.Traps]
  · rw [hrecord, ← writesOf_cut_code (.recover c.file memo c.restoreHeight)]
    rfl

/-- The process is killed, or dies of itself. -/
theorem Follows.kill (h : Follows s t) (hrecords : ¬ Process.Records i.event)
    (hdies : i.cut.isSome = true ∨ s.Ends i) : Follows (s.step i) t.die := by
  have hrecord := s.record_of_not_records i hrecords
  obtain hcut | hends := hdies
  · obtain ⟨hwallet, hblocks⟩ := s.killed hcut
    exact ⟨h.record.trans hrecord.symm, hwallet.symm, hblocks.symm⟩
  · obtain ⟨-, hwallet, hblocks⟩ := s.ended i hends
    exact ⟨h.record.trans hrecord.symm, hwallet.symm, hblocks.symm⟩

theorem writesOf_cut_openSavedWallet (env : Env) (cut : Option ℕ) :
    writesOf (openSavedWallet.cut env cut) =
      (saved env).elim [] fun o => Reopening.written o cut := by
  have hlog := (openSavedWallet_eq env).2
  rcases hs : saved env with _ | o
  · rw [hs] at hlog
    rcases cut with _ | k
    · rw [Code.cut_none, hlog]
      rfl
    · rw [Code.cut_some, hlog, Option.elim_none, List.take_nil]
      rfl
  · rw [hs] at hlog
    have hcut : openSavedWallet.cut env cut = o.code.cut env cut := by
      rcases cut with _ | k
      · exact hlog
      · exact congrArg (List.take k) hlog
    rw [hcut, writesOf_cut_code]
    rfl

/-- A block runs in both. -/
theorem Follows.block (h : Follows s t) (r : ScreenEnv) (j : ℕ) (env : Env) :
    Follows (s.step ⟨.block j, r, none⟩) (step c t (.block j env)) := by
  obtain ⟨hwallet, hblocks, -⟩ := s.run_block r j
  have hrecord := s.record_of_not_records ⟨.block j, r, none⟩ id
  simp only [Recovery.step]
  split
  · rename_i b hb
    have hnote : ∀ u : State, (u.note b).app = u.app := by
      intro u
      unfold State.note
      split <;> rfl
    obtain ⟨hsame, hkept⟩ := Dispatch.app_initBlock b
      ((t.queue (t.app.blocks.eraseIdx j)).env c env) (t.queue (t.app.blocks.eraseIdx j)).app
    refine ⟨?_, ?_, ?_⟩
    · rw [hnote, app_perform, App.record_perform, writesOf_initBlock]
      exact h.record.trans hrecord.symm
    · rw [hnote, app_perform, hkept]
      exact h.wallet.trans hwallet.symm
    · rw [hnote, app_perform, hsame, hblocks, ← h.blocks]
      rfl
  · rename_i hb
    refine ⟨h.record.trans hrecord.symm, h.wallet.trans hwallet.symm, ?_⟩
    rw [hblocks, ← h.blocks, List.eraseIdx_of_length_le (List.getElem?_eq_none_iff.1 hb)]

/-- Code that assigns nothing records what it writes before it is cut. -/
theorem record_routine {α : Type} {m : AppCode α} {K : Key → Prop} {Q T : Prop}
    (hm : m.Emits (Routine K Q T) (s.env i.env).toEnv)
    (heffects : s.effects i = (m.log (s.env i.env).toEnv).map .app) :
    (s.step i).app.record =
      s.app.record.put (writesOf (m.cut (s.env i.env).toEnv i.cut)) := by
  rw [Reopening.record_code s heffects fun w hw => hm _ hw]
  rcases i.cut with _ | k
  · rfl
  · rfl

/-- An input that records nothing is of no concern, unless the process dies of
    it. -/
theorem Follows.other (h : Follows s t) (hrecords : ¬ Process.Records i.event)
    (hidle : s.Survives i →
      (s.step i).app.wallet = s.app.wallet ∧ (s.step i).app.blocks = s.app.blocks) :
    Follows (s.step i)
      (Runs.run (step c) t (if i.cut.isSome = true ∨ s.Ends i then [.kill] else [])) := by
  split
  · rename_i hdies
    exact h.kill hrecords hdies
  · rename_i hgoes
    have hcut : i.cut = none := Option.not_isSome_iff_eq_none.1 fun hcut => hgoes (.inl hcut)
    obtain ⟨hwallet, hblocks⟩ :=
      hidle (Process.survives_of_not_ends hcut fun hends => hgoes (.inr hends))
    have hrecord := s.record_of_not_records i hrecords
    exact ⟨h.record.trans hrecord.symm, h.wallet.trans hwallet.symm, h.blocks.trans hblocks.symm⟩

/-- **One input.** -/
theorem Follows.input (h : Follows s t) (hi : Fits c t i) :
    Follows (s.step i) (Runs.run (step c) t (amounts s t (.inr i))) := by
  have hexec := fun {α : Type} (m : AppCode α) => h.exec hi.toFinds m
  have hidle : ¬ Process.Moves i.event → s.Survives i →
      (s.step i).app.wallet = s.app.wallet ∧ (s.step i).app.blocks = s.app.blocks := by
    intro hmoves hsurvives
    obtain ⟨hwallet, hblocks, -⟩ := hsurvives.idle hmoves
    exact ⟨hwallet, hblocks⟩
  obtain ⟨e, r, cut⟩ := i
  cases e with
  | mainAppears =>
    refine hexec openSavedWallet (Process.not_ends_of_records trivial) (by simp) ?_ ?_
    · rw [s.effects_mainAppears, (openSavedWallet_eq _).2]
    · rw [writesOf_cut_openSavedWallet]
      exact Reopening.record_opening s (s.effects_mainAppears r cut)
  | submit form => exact absurd rfl (hi.alone form)
  | enterBackground =>
    have heffects := s.effects_enterBackground r cut
    exact hexec save (Process.not_ends_of_records trivial) (by simp) heffects
      (record_routine (Routine.save (Q := False) (T := False)) heffects)
  | callback w e =>
    have heffects := s.effects_callback r w e cut
    cases e with
    | refreshed =>
      have hreports := hi.reports w rfl
      simp only [amounts, Runs.run_cons, Runs.run_nil, Recovery.step, if_pos hreports]
      exact hexec _ (Process.not_ends_of_records trivial) (by simp) heffects
        (record_routine (Routine.listener (T := False) w .refreshed) heffects)
    | moneySpent | moneyReceived | newBlock | updated => exact h.other id (hidle id)
  | block j =>
    simp only [amounts]
    rcases cut with _ | k
    · exact h.block r j _
    · exact h.kill id (.inl rfl)
  | walletAppears =>
    refine h.other id fun hsurvives => ?_
    obtain rfl : cut = none := hsurvives.uncut
    obtain ⟨hwallet, hblocks, -⟩ := s.run_walletAppears r
    exact ⟨hwallet, hblocks⟩
  | walletDisappears =>
    refine h.other id fun hsurvives => ?_
    obtain rfl : cut = none := hsurvives.uncut
    exact ⟨rfl, rfl⟩
  | _ => exact h.other id (hidle id)

/-- **A recovery follows the process.** -/
theorem driven {es : List Happening} (h : Follows s t)
    (hes : Runs.Guarded (Runs.drive happen (Recovery.step c) amounts)
      (fun p e => ∀ i, e = .inr i → Fits c p.2 i) (s, t) es) :
    Runs.Always (Runs.drive happen (Recovery.step c) amounts) (fun p => Follows p.1 p.2)
      (s, t) es := by
  refine Runs.drive_sim (V := fun _ t e => ∀ i, e = .inr i → Fits c t i)
    (fun s t e h hV => ?_) h hes
  cases e with
  | inl w => exact ⟨h.record, h.wallet, h.blocks⟩
  | inr i => exact h.input (hV i rfl)

end

end Recovery

/-! ## The handles -/

namespace Handles

/-- The machine has the references of the process, and what the process reopens.
    The confirm screens, of which the app may have several, are left out. -/
structure Follows (s : Process) (t : State) : Prop where
  file : t.app.record .walletFile = s.app.record .walletFile
  password : t.app.record .password = s.app.record .password
  wallet : t.app.wallet = s.app.wallet
  blocks : t.app.blocks.length = s.app.blocks.length
  observing : t.observing = s.observing
  shown : t.screens .wallet = s.shown
  create : t.screens .create = s.create

/-- The process survives the input; an operation it runs gets the handle that
    is next. -/
structure Names (s : Process) (t : State) (i : Input) : Prop extends s.Survives i where
  next : ∀ o : Opening, s.effects i = (o.code.log (s.env i.env).toEnv).map .app →
    o.handle (s.env i.env).toEnv = t.next

/-- What an input amounts to. -/
def amounts (s : Process) (_ : State) (i : Input) : List Event :=
  let env := (s.env i.env).toEnv
  match i.event with
  | .mainAppears => [.mainAppears env]
  | .submit form => form.opening?.toList.map (.opening · env)
  | .walletAppears => [.appears .wallet env]
  | .walletDisappears => [.disappears]
  | .historyAppears => [.appears .history env]
  | .block j => [.block j env]
  | .present => if s.create.isNone then [.appears .create env] else []
  | .confirm => if s.confirm = [] then [] else [.drops .create]
  | _ => []

/-! ### What the machine does to the app -/

/-- The two have the same record, wallet and blocks. -/
structure SameApp (a b : App) : Prop where
  record : a.record = b.record
  wallet : a.wallet = b.wallet
  blocks : a.blocks = b.blocks

theorem SameApp.perform {a b : App} (h : SameApp a b) (es : List Effect) :
    SameApp (a.perform es) (b.perform es) := by
  refine ⟨?_, ?_, ?_⟩
  · rw [App.record_perform, App.record_perform, h.record]
  · rw [App.wallet_perform, App.wallet_perform, h.wallet]
  · rw [App.blocks_perform, App.blocks_perform, h.blocks]

theorem app_apply (env : Env) (t : State) (e : Effect) :
    (t.apply env e).app = t.app.apply e ∧ (t.apply env e).observing = t.observing := by
  unfold State.apply
  split <;> exact ⟨rfl, rfl⟩

theorem app_run (env : Env) (t : State) (es : List Effect) :
    (Runs.run (State.apply env) t es).app = t.app.perform es ∧
      (Runs.run (State.apply env) t es).observing = t.observing := by
  induction es generalizing t with
  | nil => exact ⟨rfl, rfl⟩
  | cons e es ih =>
    obtain ⟨happ, hobserving⟩ := ih (t.apply env e)
    obtain ⟨happ', hobserving'⟩ := app_apply env t e
    rw [Runs.run_cons]
    exact ⟨happ.trans (congrArg (App.perform · es) happ'), hobserving.trans hobserving'⟩

theorem same_resetWallet (a : App) (env : Env) :
    SameApp (a.perform (WalletViewController.resetWallet.log env)) a := by
  rw [WalletViewController.log_resetWallet]
  rcases env.wallet with _ | w
  · exact ⟨rfl, rfl, rfl⟩
  · exact ⟨rfl, rfl, rfl⟩

theorem same_history (a : App) (env : Env) :
    SameApp (a.perform (TransactionHistoryViewController.viewWillAppear.log env)) a := by
  rw [TransactionHistoryViewController.log_viewWillAppear]
  rcases env.wallet with _ | w
  · exact ⟨rfl, rfl, rfl⟩
  · exact ⟨rfl, rfl, rfl⟩

theorem same_initBlock (b : Block) (a : App) (env : Env) :
    SameApp (a.perform ((initBlock b).log env)) a := by
  obtain ⟨hblocks, hwallet⟩ := Dispatch.app_initBlock b env a
  refine ⟨?_, hwallet, hblocks⟩
  rw [App.record_perform, writesOf_initBlock]
  rfl

theorem same_perform (env : Env) (t : State) (es : List Effect) :
    SameApp (t.perform env es).app (t.app.perform es) ∧
      (t.perform env es).observing = t.observing := by
  induction es generalizing t with
  | nil => exact ⟨⟨rfl, rfl, rfl⟩, rfl⟩
  | cons e es ih =>
    obtain ⟨happ, hobserving⟩ := app_apply env t e
    have hsame : SameApp (t.apply env e).app (t.app.apply e) := by
      rw [happ]
      exact ⟨rfl, rfl, rfl⟩
    have hone : ∃ u : State, t.perform env (e :: es) = u.perform env es ∧
        SameApp u.app (t.app.apply e) ∧ u.observing = t.observing := by
      cases e with
      | assign w =>
        by_cases hobs : (t.apply env (.assign w)).observing = true
        · obtain ⟨hreset, hkept⟩ := app_run env (t.apply env (.assign w))
            (WalletViewController.resetWallet.log ((t.apply env (.assign w)).env env))
          refine ⟨_, rfl, ?_, ?_⟩
          · simp only [if_pos hobs]
            rw [hreset, happ]
            exact same_resetWallet _ _
          · simp only [if_pos hobs]
            exact hkept.trans hobserving
        · refine ⟨_, rfl, ?_, ?_⟩
          · simp only [if_neg hobs]
            exact hsame
          · simp only [if_neg hobs]
            exact hobserving
      | call | write | background | main | refreshedAt | «show» | setDelegate =>
        exact ⟨_, rfl, hsame, hobserving⟩
    obtain ⟨u, hu, hsame, hkept⟩ := hone
    obtain ⟨hrest, hrest'⟩ := ih u
    have hperform := hsame.perform es
    rw [hu]
    exact ⟨⟨hrest.record.trans hperform.record, hrest.wallet.trans hperform.wallet,
      hrest.blocks.trans hperform.blocks⟩, hrest'.trans hkept⟩

section
variable {s : Process} {t : State} {i : Input}

/-- An operation runs in both. -/
theorem Follows.opened (h : Follows s t) (hi : Names s t i)
    (hevent : i.event = .mainAppears ∨ ∃ form, i.event = .submit form) {o : Opening}
    (heffects : s.effects i = (o.code.log (s.env i.env).toEnv).map .app) (o' : Opening)
    (hfile : t.app.record.put o'.writes .walletFile = (s.step i).app.record .walletFile)
    (hpassword : t.app.record.put o'.writes .password = (s.step i).app.record .password) :
    Follows (s.step i)
      (t.perform (s.env i.env).toEnv (o'.code.log (t.env (s.env i.env).toEnv))) := by
  have hopened := perform_opening t o' (s.env i.env).toEnv
  obtain ⟨hsame, hobserving⟩ :=
    same_perform (s.env i.env).toEnv t (o'.code.log (t.env (s.env i.env).toEnv))
  have hflow := hi.flow
  rw [heffects] at hflow
  have hwallet := Reopening.wallet_open? s i.env o
  have hshown := s.shown_open? i.env o
  rw [hi.next o heffects] at hwallet hshown
  obtain ⟨hstays, hcreate, hblocks⟩ := hi.toSurvives.opening hevent
  rw [heffects] at hblocks
  refine ⟨?_, ?_, ?_, ?_, ?_, ?_, ?_⟩
  · rw [hsame.record, Opening.record_perform]
    exact hfile
  · rw [hsame.record, Opening.record_perform]
    exact hpassword
  · rw [hopened.wallet, hflow.wallet]
    exact hwallet.symm
  · rw [hsame.blocks, Opening.blocks_perform, List.length_append, h.blocks, hblocks,
      s.blocks_perform, filterMap_app?_map, o.backgrounds_log, List.length_append]
    rfl
  · rw [hobserving, hstays, h.observing]
  · rw [hopened.screens, hflow.shown, h.observing]
    refine Eq.trans ?_ hshown.symm
    split
    · exact Function.update_self ..
    · exact h.shown
  · rw [hopened.screens, hcreate, ← h.create]
    split
    · exact Function.update_of_ne (by simp) _ _
    · rfl

/-- Both reopen the same wallet, or none. -/
theorem saved_congr {e e' : Env} (hfile : e.record .walletFile = e'.record .walletFile)
    (hpassword : e.record .password = e'.record .password) (hdocuments : e.documents = e'.documents)
    (hexists : e.fileExists = e'.fileExists) :
    (saved e).isSome = (saved e').isSome := by
  simp only [saved, hfile, hpassword, hdocuments, hexists]
  rcases e'.record .walletFile with _ | f
  · rfl
  rcases e'.record .password with _ | p
  · rfl
  by_cases hthere : ((walletFile e'.documents f).map e'.fileExists).getD false = true
  · simp only [if_pos hthere, Option.isSome_some]
  · simp only [if_neg hthere]

/-- An input that records nothing and leaves the process idle is of no concern. -/
theorem Follows.kept (h : Follows s t) (hi : s.Survives i) (hrecorded : Reopening.recorded i = [])
    (hidle : Process.Idle s (s.step i)) (hpresent : i.event ≠ .present)
    (hconfirm : i.event ≠ .confirm) : Follows (s.step i) t := by
  obtain ⟨hfile, hpassword⟩ := Reopening.step_names s i
  rw [hrecorded] at hfile hpassword
  exact ⟨h.file.trans hfile.symm, h.password.trans hpassword.symm, h.wallet.trans hidle.wallet.symm,
    by rw [hidle.blocks, h.blocks], h.observing.trans hidle.observing.symm,
    h.shown.trans hidle.shown.symm, h.create.trans (hi.create hpresent hconfirm).symm⟩

/-- Effects that leave the app and the screens alone are of no concern. -/
theorem Follows.perform (h : Follows s t) (env : Env) {es : List Effect}
    (happ : SameApp (t.app.perform es) t.app) (hscreens : (t.perform env es).screens = t.screens) :
    Follows s (t.perform env es) := by
  obtain ⟨hsame, hobserving⟩ := same_perform env t es
  have hrecord := hsame.record.trans happ.record
  refine ⟨(congrFun hrecord _).trans h.file, (congrFun hrecord _).trans h.password,
    (hsame.wallet.trans happ.wallet).trans h.wallet, ?_, hobserving.trans h.observing,
    (congrFun hscreens _).trans h.shown, (congrFun hscreens _).trans h.create⟩
  exact (congrArg List.length (hsame.blocks.trans happ.blocks)).trans h.blocks

section
variable {r : ScreenEnv}

theorem Follows.mainAppears (h : Follows s t) (hi : Names s t ⟨.mainAppears, r, none⟩) :
    Follows (s.step ⟨.mainAppears, r, none⟩)
      (Runs.run step t (amounts s t ⟨.mainAppears, r, none⟩)) := by
  have heffects := s.effects_mainAppears r none
  have hsame := Reopening.readsSame_mainAppears s r none
  have hsaved : (saved (t.env (s.env r).toEnv)).isSome = (saved (s.env r).toEnv).isSome :=
    saved_congr h.file h.password rfl rfl
  simp only [amounts, Runs.run_cons, Runs.run_nil, Handles.step, (openSavedWallet_eq _).2]
  rcases hs : saved (s.env r).toEnv with _ | o
  · rw [hs] at hsaved heffects
    have hnone : saved (t.env (s.env r).toEnv) = none :=
      Option.not_isSome_iff_eq_none.1 (by simp [hsaved])
    rw [hnone]
    exact h.kept hi.toSurvives rfl (hi.nothing (.inl rfl) heffects) (by simp) (by simp)
  · rw [hs] at hsaved heffects
    obtain ⟨o', ho'⟩ := Option.isSome_iff_exists.1 hsaved
    have hrewritten := readsSame_saved ho' (List.Subset.refl _)
    rw [ho']
    refine h.opened hi (.inl rfl) heffects o' ?_ ?_
    · exact (hrewritten.walletFile.trans h.file).trans hsame.walletFile.symm
    · exact (hrewritten.password.trans h.password).trans hsame.password.symm

theorem Follows.submit (h : Follows s t) {form : LoginForm}
    (hi : Names s t ⟨.submit form, r, none⟩) :
    Follows (s.step ⟨.submit form, r, none⟩)
      (Runs.run step t (amounts s t ⟨.submit form, r, none⟩)) := by
  have heffects := s.effects_submit r form none
  have hrecord := Reopening.record_opening s heffects
  simp only [amounts]
  rcases ho : form.opening? with _ | o
  · rw [ho] at heffects
    refine h.kept hi.toSurvives ?_ (hi.nothing (.inr ⟨form, rfl⟩) heffects) (by simp) (by simp)
    simp only [Reopening.recorded, Reopening.ask, ho, Option.elim_none]
  · rw [ho] at heffects hrecord
    refine h.opened hi (.inr ⟨form, rfl⟩) heffects o ?_ ?_
    · rw [hrecord]
      exact Store.put_congr h.file _
    · rw [hrecord]
      exact Store.put_congr h.password _

theorem Follows.walletAppears (h : Follows s t) :
    Follows (s.step ⟨.walletAppears, r, none⟩)
      (Runs.run step t (amounts s t ⟨.walletAppears, r, none⟩)) := by
  obtain ⟨hfile, hpassword⟩ := Reopening.step_names s ⟨.walletAppears, r, none⟩
  obtain ⟨hwallet, hblocks, hshown, hcreate⟩ := s.run_walletAppears r
  have hused := used_resetWallet t (s.env r).toEnv
  have hsame := (same_perform (s.env r).toEnv t
    (WalletViewController.resetWallet.log (t.env (s.env r).toEnv))).1
  have hreset := same_resetWallet t.app (t.env (s.env r).toEnv)
  have hrecord := hsame.record.trans hreset.record
  refine ⟨?_, ?_, ?_, ?_, rfl, ?_, ?_⟩
  · exact (congrFun hrecord _).trans (h.file.trans hfile.symm)
  · exact (congrFun hrecord _).trans (h.password.trans hpassword.symm)
  · exact hused.wallet.trans (h.wallet.trans hwallet.symm)
  · rw [hblocks, ← h.blocks]
    exact congrArg List.length (hsame.blocks.trans hreset.blocks)
  · refine (congrFun hused.screens _).trans ?_
    rw [Function.update_self, hshown, h.wallet]
  · refine (congrFun hused.screens _).trans ?_
    rw [Function.update_of_ne (by simp), hcreate, h.create]

theorem Follows.historyAppears (h : Follows s t) (hi : s.Survives ⟨.historyAppears, r, none⟩) :
    Follows (s.step ⟨.historyAppears, r, none⟩)
      (Runs.run step t (amounts s t ⟨.historyAppears, r, none⟩)) := by
  have hfollows := (h.kept hi rfl (hi.idle id) (by simp) (by simp)).perform (s.env r).toEnv
    (same_history t.app (t.env (s.env r).toEnv)) (used_history t (s.env r).toEnv).screens
  simp only [amounts, Runs.run_cons, Runs.run_nil, Handles.step]
  generalize t.perform (s.env r).toEnv _ = u at hfollows ⊢
  obtain ⟨hfile, hpassword, hwallet, hblocks, hobserving, hshown, hcreate⟩ := hfollows
  split
  · -- only the field of the history screen is new
    rename_i w _ _
    refine ⟨hfile, hpassword, hwallet, hblocks, hobserving, ?_, ?_⟩
    · change Function.update u.screens .history (some w) .wallet = _
      rw [Function.update_of_ne (by simp), hshown]
    · change Function.update u.screens .history (some w) .create = _
      rw [Function.update_of_ne (by simp), hcreate]
  · exact ⟨hfile, hpassword, hwallet, hblocks, hobserving, hshown, hcreate⟩

theorem Follows.block (h : Follows s t) (j : ℕ) (hi : s.Survives ⟨.block j, r, none⟩) :
    Follows (s.step ⟨.block j, r, none⟩)
      (Runs.run step t (amounts s t ⟨.block j, r, none⟩)) := by
  obtain ⟨hfile, hpassword⟩ := Reopening.step_names s ⟨.block j, r, none⟩
  obtain ⟨hwallet, hblocks, hshown, hobserving, -⟩ := s.run_block r j
  have hcreate := hi.create (by simp) (by simp)
  -- the block is taken off the queue of the machine too
  have hqueue : Follows (s.step ⟨.block j, r, none⟩) (t.queue (t.app.blocks.eraseIdx j)) := by
    refine ⟨h.file.trans hfile.symm, h.password.trans hpassword.symm,
      h.wallet.trans hwallet.symm, ?_, h.observing.trans hobserving.symm,
      h.shown.trans hshown.symm, h.create.trans hcreate.symm⟩
    rw [hblocks, List.length_eraseIdx, ← h.blocks, ← List.length_eraseIdx]
    rfl
  simp only [amounts, Runs.run_cons, Runs.run_nil, Handles.step]
  split
  · rename_i b hb
    exact hqueue.perform _ (same_initBlock b _ _) (used_initBlock _ b _).screens
  · rename_i hb
    rw [List.eraseIdx_of_length_le (List.getElem?_eq_none_iff.1 hb)] at hqueue
    exact hqueue

theorem Follows.present (h : Follows s t) (hi : s.Survives ⟨.present, r, none⟩) :
    Follows (s.step ⟨.present, r, none⟩)
      (Runs.run step t (amounts s t ⟨.present, r, none⟩)) := by
  rw [s.step_present]
  simp only [amounts]
  rcases hc : s.create with _ | v
  · rcases hw : s.app.wallet with _ | w
    · exact absurd ⟨hc, hw⟩ hi.sound
    · refine ⟨h.file, h.password, h.wallet, h.blocks, h.observing, ?_, ?_⟩
      · change Function.update t.screens .create t.app.wallet .wallet = s.shown
        rw [Function.update_of_ne (by simp), h.shown]
      · change Function.update t.screens .create t.app.wallet .create = some w
        rw [Function.update_self, h.wallet, hw]
  · exact h

theorem Follows.confirm (h : Follows s t) :
    Follows (s.step ⟨.confirm, r, none⟩)
      (Runs.run step t (amounts s t ⟨.confirm, r, none⟩)) := by
  rw [s.step_confirm]
  simp only [amounts]
  split
  · exact h
  · refine ⟨h.file, h.password, h.wallet, h.blocks, h.observing, ?_, ?_⟩
    · change Function.update t.screens .create none .wallet = s.shown
      rw [Function.update_of_ne (by simp), h.shown]
    · change Function.update t.screens .create none .create = none
      rw [Function.update_self]

end

/-- **One input.** -/
theorem Follows.step (h : Follows s t) (hi : Names s t i) :
    Follows (s.step i) (Runs.run step t (amounts s t i)) := by
  obtain ⟨e, r, cut⟩ := i
  obtain rfl : cut = none := hi.uncut
  cases e with
  | mainAppears => exact h.mainAppears hi
  | submit form => exact h.submit hi
  | walletAppears => exact h.walletAppears
  | walletDisappears =>
    exact ⟨h.file, h.password, h.wallet, h.blocks, rfl, h.shown, h.create⟩
  | historyAppears => exact h.historyAppears hi.toSurvives
  | block j => exact h.block j hi.toSurvives
  | present => exact h.present hi.toSurvives
  | confirm => exact h.confirm
  | _ => exact h.kept hi.toSurvives rfl (hi.idle id) (by simp) (by simp)

theorem follows_launch (x : Record) (now : Rat) (past : List (List Effect)) :
    Follows (Process.launch x now past) (start x) := ⟨rfl, rfl, rfl, rfl, rfl, rfl, rfl⟩

/-- **The handles follow the process.** -/
theorem driven {is : List Input} (h : Follows s t)
    (his : Runs.Guarded (Runs.drive Process.step Handles.step amounts)
      (fun p i => Names p.1 p.2 i) (s, t) is) :
    Runs.Always (Runs.drive Process.step Handles.step amounts) (fun p => Follows p.1 p.2)
      (s, t) is :=
  Runs.drive_sim (fun _ _ _ h hi => h.step hi) h his

end

end Handles

end Monujo
