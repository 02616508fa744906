/-
  What single inputs leave as it is.

  `Survives`: the process goes on after the input.  Then an input that opens
  nothing, runs no block and does not concern the wallet screen leaves the
  wallets where they are (`Survives.idle`); and an input that is neither an
  operation nor a saving nor a reported refresh leaves the record, however it
  ends (`record_of_not_records`).
-/
import Monujo.Proof.ConfirmScreens
import Monujo.Proof.Connections
import Monujo.Proof.Labels

namespace Monujo

open Monero WalletStore
open WalletViewController.Labels (filterMap_app?_map)

namespace Process

/-- The process survives the input. -/
structure Survives (s : Process) (i : Input) : Prop where
  uncut : i.cut = none
  sound : ¬ s.Traps i
  stays : i.event ≠ .relaunch

variable {s : Process} {i : Input}

theorem Survives.flow (h : s.Survives i) :
    Flow i.event s (s.perform i.env (s.effects i)) (s.step i) := by
  obtain ⟨-, -, -, hflow⟩ | ⟨hdies, -⟩ := s.step_cases i
  · exact hflow
  · obtain htraps | hrelaunch := hdies h.uncut
    · exact absurd htraps h.sound
    · exact absurd hrelaunch h.stays

instance (o : Outcome) : Decidable (o = .trapped) :=
  match o with
  | .trapped => isTrue rfl
  | .refused | .shown .. => isFalse nofun

instance (s : Process) : DecidablePred s.Traps
  | ⟨.present, _, _⟩ => inferInstanceAs (Decidable (s.create = none ∧ s.app.wallet = none))
  | ⟨.transfer form, r, _⟩ => inferInstanceAs (Decidable (∃ w ∈ s.create,
      (CreateTransactionViewController.transfer w form).val (s.env r).toEnv = .trapped))
  | ⟨.mainAppears, _, _⟩ | ⟨.submit _, _, _⟩ | ⟨.walletAppears, _, _⟩ | ⟨.walletDisappears, _, _⟩
  | ⟨.refreshButton, _, _⟩ | ⟨.callback .., _, _⟩ | ⟨.block _, _, _⟩ | ⟨.redraw, _, _⟩
  | ⟨.enterBackground, _, _⟩ | ⟨.historyAppears, _, _⟩ | ⟨.cell _, _, _⟩ | ⟨.select _, _, _⟩
  | ⟨.detailAppears _, _, _⟩ | ⟨.back, _, _⟩ | ⟨.confirm, _, _⟩ | ⟨.relaunch, _, _⟩ =>
    inferInstanceAs (Decidable False)

/-- The input ends the process, though it is not cut. -/
def Ends (s : Process) (i : Input) : Prop := s.Traps i ∨ i.event = .relaunch

instance (s : Process) : DecidablePred s.Ends :=
  fun i => inferInstanceAs (Decidable (s.Traps i ∨ i.event = .relaunch))

theorem survives_of_not_ends (hcut : i.cut = none) (h : ¬ s.Ends i) : s.Survives i :=
  ⟨hcut, fun htraps => h (.inl htraps), fun hrelaunch => h (.inr hrelaunch)⟩

/-- The event may write the record. -/
def Records : Event → Prop
  | .mainAppears | .submit _ | .enterBackground | .callback _ .refreshed => True
  | _ => False

theorem not_ends_of_records (h : Records i.event) : ¬ s.Ends i := by
  obtain ⟨e, r, cut⟩ := i
  cases e with
  | mainAppears | submit | enterBackground | callback => simp [Ends, Traps]
  | _ => exact h.elim

/-- Other inputs leave the record, however they end. -/
theorem record_of_not_records (s : Process) (i : Input) (h : ¬ Records i.event) :
    (s.step i).app.record = s.app.record := by
  funext k
  obtain ⟨e, r, cut⟩ := i
  refine Reopening.keeps_step s ⟨e, r, cut⟩ ?_ ?_ k fun hwritten => ?_
  · rintro rfl
    exact h trivial
  · rintro form rfl
    exact h trivial
  · cases e with
    | enterBackground => exact h trivial
    | callback w c => exact h (hwritten.1 ▸ trivial)
    | _ => exact hwritten.elim

/-- A process that has died leaves what it had recorded. -/
theorem ended (s : Process) (i : Input) (h : s.Ends i) :
    let u := s.step i
    u.app.record = s.app.record ∧ u.app.wallet = none ∧ u.app.blocks = [] := by
  intro u
  have hrecord : u.app.record = s.app.record := by
    refine s.record_of_not_records i fun hrecords => ?_
    obtain ⟨e, r, cut⟩ := i
    cases e with
    | mainAppears | submit | enterBackground | callback => simp [Ends, Traps] at h
    | _ => exact hrecords.elim
  obtain ⟨-, htraps, hrelaunch, -⟩ | ⟨-, hdied⟩ := s.step_cases i
  · exact (h.elim htraps hrelaunch).elim
  · rw [show u = _ from hdied] at hrecord ⊢
    exact ⟨hrecord, rfl, rfl⟩

/-- The next process begins with its record only. -/
theorem killed (s : Process) {i : Input} (h : i.cut.isSome = true) :
    (s.step i).app.wallet = none ∧ (s.step i).app.blocks = [] := by
  obtain ⟨hcut, -⟩ | ⟨-, hdied⟩ := s.step_cases i
  · rw [hcut] at h
    cases h
  · rw [hdied]
    exact ⟨rfl, rfl⟩

/-- The process `t` has the wallets of `s` where `s` has them. -/
structure Idle (s t : Process) : Prop where
  wallet : t.app.wallet = s.app.wallet
  blocks : t.app.blocks = s.app.blocks
  shown : t.shown = s.shown
  observing : t.observing = s.observing
  delegate : t.delegate = s.delegate

theorem idle_routine (s : Process) (r : ScreenEnv) {K : Key → Prop} {Q T : Prop}
    {es : List Effect} (h : ∀ e ∈ es, Routine K Q T e) : Idle s (s.perform r (es.map .app)) := by
  obtain ⟨hwallet, hshown, hobserving, -, hdelegate, -, -⟩ :=
    Labels.frame_perform s r fun e he => Labels.quiet_of_routine (h e he)
  refine ⟨hwallet, ?_, hshown, hobserving, hdelegate⟩
  have hnone : es.filterMap Effect.background? = [] := by
    refine List.filterMap_eq_nil_iff.2 fun e he => ?_
    have hroutine := h e he
    cases e with
    | background b => exact hroutine.elim
    | call | write | assign | main | refreshedAt | «show» | setDelegate => rfl
  rw [s.blocks_perform, filterMap_app?_map, hnone, List.append_nil]

theorem idle_redraw (s : Process) (r : ScreenEnv) : Idle s (s.step ⟨.redraw, r, none⟩) := by
  rcases hm : s.main with _ | ⟨rs, q⟩
  · rw [s.step_redraw_nil r hm]
    exact ⟨rfl, rfl, rfl, rfl, rfl⟩
  rw [s.step_redraw_cons r hm]
  have hlooks := WalletViewController.Labels.looks_redraw s.shown rs (s.env r)
  obtain ⟨-, hwallet, hblocks⟩ := s.app_looks hlooks
  rw [s.perform_eq_run r hlooks]
  rcases hw : s.shown with _ | w
  · obtain ⟨labels, hrun⟩ := Labels.run_redraw_none s rs (s.env r)
    rw [hrun]
    exact ⟨rfl, rfl, rfl, rfl, rfl⟩
  · rw [hw] at hwallet hblocks
    have hredrawn := Labels.redrawn_redraw (r := s.env r) (w := w) s rs
    exact ⟨hwallet, hblocks, hredrawn.shown, hredrawn.observing, hredrawn.delegate⟩

/-- The wallet screen shows the current wallet where it appears. -/
theorem run_walletAppears (s : Process) (r : ScreenEnv) :
    let u := s.step ⟨.walletAppears, r, none⟩
    u.app.wallet = s.app.wallet ∧ u.app.blocks = s.app.blocks ∧ u.shown = s.app.wallet ∧
      u.create = s.create := by
  intro u
  have hlooks := WalletViewController.Labels.looks_resetWallet (s.env r)
  obtain ⟨-, hwallet, hblocks⟩ := s.app_looks hlooks
  rw [show u = _ from s.step_walletAppears r, s.perform_eq_run r hlooks]
  refine ⟨hwallet, hblocks, (Labels.run_resetWallet s r).shown, ?_⟩
  have hgrown := ConfirmScreens.grown_perform s r
    (WalletViewController.Labels.resetWallet.log (s.env r))
  rw [s.perform_eq_run r hlooks] at hgrown
  exact hgrown.create

theorem observing_perform (s : Process) (r : ScreenEnv) (es : List ScreenEffect) :
    (s.perform r es).observing = s.observing := by
  refine s.perform_keeps r (R := fun s t => t.observing = s.observing) (fun _ => rfl)
    (fun _ _ _ hst htu => htu.trans hst) (P := fun _ => True) (fun _ _ => trivial)
    (fun s e _ => ?_) fun _ _ => trivial
  cases e <;> rfl

/-- An opening moves none of the other screens. -/
theorem Survives.opening (h : s.Survives i)
    (hevent : i.event = .mainAppears ∨ ∃ form, i.event = .submit form) :
    (s.step i).observing = s.observing ∧ (s.step i).create = s.create ∧
      (s.step i).app.blocks = (s.perform i.env (s.effects i)).app.blocks := by
  have hflow := h.flow
  have hperformed := s.observing_perform i.env (s.effects i)
  have hgrown := ConfirmScreens.grown_perform s i.env (s.effects i)
  generalize s.perform i.env (s.effects i) = t at hflow hperformed hgrown ⊢
  obtain ⟨-, -, hblocks, -, -, -, -, -, -, -, -, hobserving, hsending⟩ := hflow
  have hne : i.event ≠ .present ∧ (∀ form, i.event ≠ .transfer form) ∧ i.event ≠ .back ∧
      i.event ≠ .confirm ∧ i.event ≠ .walletAppears ∧ i.event ≠ .walletDisappears ∧
      ∀ j, i.event ≠ .block j := by
    obtain hmain | ⟨form, hsubmit⟩ := hevent
    · simp [hmain]
    · simp [hsubmit]
  simp only [hne, false_or, exists_false, false_and, or_false] at hblocks hobserving hsending
  exact ⟨hobserving.trans hperformed, hsending.1.trans hgrown.create, hblocks⟩

/-- An opening of nothing leaves the process idle. -/
theorem Survives.nothing (h : s.Survives i)
    (hevent : i.event = .mainAppears ∨ ∃ form, i.event = .submit form)
    (heffects : s.effects i = []) : Idle s (s.step i) := by
  obtain ⟨hobserving, -, hblocks⟩ := h.opening hevent
  have hflow := h.flow
  rw [heffects] at hflow hblocks
  exact ⟨hflow.wallet, hblocks, hflow.shown, hobserving, hflow.delegate⟩

/-- Only presenting and confirming move the create screen. -/
theorem Survives.create (h : s.Survives i) (hpresent : i.event ≠ .present)
    (hconfirm : i.event ≠ .confirm) : (s.step i).create = s.create := by
  obtain ⟨e, r, cut⟩ := i
  obtain rfl : cut = none := h.uncut
  have hgrown := ConfirmScreens.grown_perform s r (s.effects ⟨e, r, none⟩)
  obtain hpres | ⟨form, rfl⟩ | rfl | hconf | ⟨hcreate, -⟩ := h.flow.sending
  · exact absurd hpres hpresent
  · rcases hc : s.create with _ | w
    · rw [s.step_transfer_none r hc, hc]
    · have hcode := ConfirmScreens.grown_perform s r
        (((CreateTransactionViewController.transfer w form).log (s.env r).toEnv).map .app)
      rw [s.step_transfer_some r hc, ← hc]
      rcases hout : (CreateTransactionViewController.transfer w form).val (s.env r).toEnv
        with _ | _ | ⟨vc, text⟩
      · exact hcode.create
      · exact absurd ⟨w, hc, hout⟩ h.sound
      · exact hcode.create
  · rfl
  · exact absurd hconf hconfirm
  · exact hcreate.trans hgrown.create

/-- A wallet screen that observes shows the wallet of an opening. -/
theorem shown_open? (s : Process) (r : ScreenEnv) (o : Opening) :
    (s.open? r (some o)).shown =
      if s.observing then some ⟨o.handle (s.env r).toEnv⟩ else s.shown := by
  have hwrites : ∀ e ∈ o.writes.map Effect.write, Labels.Quiet e := by
    intro e he
    obtain ⟨w, -, rfl⟩ := List.mem_map.1 he
    trivial
  rw [Connections.open?_some, Connections.opened, List.map_append, s.perform_append,
    List.map_append, s.perform_append]
  have hwrapped := Labels.wrapped_native s r o (s.env r).toEnv
  have hframe := Labels.frame_perform
    (s.perform r ((o.native (s.env r).toEnv).map .app)) r hwrites
  generalize (s.perform r ((o.native (s.env r).toEnv).map .app)).perform r _ = u at hframe ⊢
  have hshown : u.shown = s.shown := hframe.shown.trans hwrapped.shown
  have hobserving : u.observing = s.observing := hframe.observing.trans hwrapped.observing
  rw [List.map_singleton, Process.perform_cons, Process.perform_nil]
  change (u.apply r (.app (.assign ⟨o.handle (s.env r).toEnv⟩))).shown = _
  rw [u.apply_assign, hobserving]
  split
  · exact (Labels.run_resetWallet _ r).shown
  · exact hshown

/-- A block that runs is gone; the wallets stay where they are. -/
theorem run_block (s : Process) (r : ScreenEnv) (j : ℕ) :
    let u := s.step ⟨.block j, r, none⟩
    u.app.wallet = s.app.wallet ∧ u.app.blocks = s.app.blocks.eraseIdx j ∧ u.shown = s.shown ∧
      u.observing = s.observing ∧ u.delegate = s.delegate := by
  intro u
  rcases hb : s.app.blocks[j]? with _ | b
  · rw [show u = s from s.step_block_none r hb]
    exact ⟨rfl, (List.eraseIdx_of_length_le (List.getElem?_eq_none_iff.1 hb)).symm, rfl, rfl, rfl⟩
  · obtain ⟨hwallet, hshown, hobserving, -, hdelegate, -, -⟩ :=
      Labels.frame_perform s r (Labels.quiet_initBlock b (s.env r).toEnv)
    have hnone : ((initBlock b).log (s.env r).toEnv).filterMap Effect.background? = [] := by
      refine List.filterMap_eq_nil_iff.2 fun e he => ?_
      obtain ⟨w, -, hconnects⟩ := Routine.connects_initBlock b _ e he
      cases e with
      | background b => exact hconnects.elim
      | call | write | assign | main | refreshedAt | «show» | setDelegate => rfl
    have hblocks := s.blocks_perform r (((initBlock b).log (s.env r).toEnv).map .app)
    rw [filterMap_app?_map, hnone, List.append_nil] at hblocks
    rw [show u = _ from s.step_block_some r hb]
    exact ⟨hwallet, congrArg (·.eraseIdx j) hblocks, hshown, hobserving, hdelegate⟩

/-- The event moves a wallet, or says who hears of it. -/
def Moves : Event → Prop
  | .mainAppears | .submit _ | .walletAppears | .walletDisappears | .block _ => True
  | _ => False

/-- Other inputs leave the wallets where they are. -/
theorem Survives.idle (h : s.Survives i) (hmoves : ¬ Moves i.event) : Idle s (s.step i) := by
  obtain ⟨e, r, cut⟩ := i
  obtain rfl : cut = none := h.uncut
  rcases Routine.effects_cases s ⟨e, r, none⟩ with ⟨hmain | ⟨form, hsubmit⟩, -⟩ |
    ⟨happears | hredraw, -⟩ | ⟨j, b, hblock, -⟩ | ⟨es, heffects, hroutine⟩
  · exact absurd (hmain ▸ trivial) hmoves
  · exact absurd (hsubmit ▸ trivial) hmoves
  · exact absurd (happears ▸ trivial) hmoves
  · obtain rfl : e = .redraw := hredraw
    exact s.idle_redraw r
  · exact absurd (hblock ▸ trivial) hmoves
  · have hflow := h.flow
    rw [heffects] at hflow
    obtain ⟨hwallet, hblocks, hshown, hobserving, hdelegate⟩ := s.idle_routine r hroutine
    refine ⟨hflow.wallet.trans hwallet, ?_, hflow.shown.trans hshown, ?_,
      hflow.delegate.trans hdelegate⟩
    · obtain hsame | ⟨j, hj, -⟩ := hflow.blocks
      · exact hsame.trans hblocks
      · exact absurd (hj ▸ trivial) hmoves
    · obtain happears | hdisappears | hsame := hflow.observing
      · exact absurd (happears ▸ trivial) hmoves
      · exact absurd (hdisappears ▸ trivial) hmoves
      · exact hsame.trans hobserving

end Process

end Monujo
