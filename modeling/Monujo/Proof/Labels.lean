/-
  What the wallet screen shows.

  The balance and the height of a wallet change in the library, which reports
  the change to the wallet's listener at some later time.  `labels_current`: in
  every run, the labels are those of the shown wallet; a value that differs from
  the library's is still to be reported, or a redraw is queued, or the throttle
  of `walletNewBlock` has dropped it.  `labels_settle`: once the reports are in,
  the blocks on the main queue bring the labels up to date.
-/
import Monujo.Proof.Routine

namespace Monujo

open Monero WalletStore
open WalletViewController (Outlet)
open WalletViewController.Labels (blockHeightsString looks_redraw looks_resetWallet)

/-- The values a wallet's event is about. -/
def Callback.reports : Callback → List Redraw
  | moneySpent .. | moneyReceived .. => [.balance]
  | newBlock _ => [.blockHeights]
  | updated | refreshed => [.blockHeights, .balance]

namespace Labels

/-! ## The library -/

/-- What the library says of a wallet for good. -/
structure Library where
  address : Handle → String
  seed : Handle → String

/-- What changes in the library. -/
structure Native where
  value : Redraw → Handle → UInt64
  /-- A change that the listener has not been told of. -/
  owed : Redraw → Handle → Bool
  /-- The last blocks told were not redrawn. -/
  dropped : Handle → Bool
  /-- The name of the next wallet. -/
  next : Handle

namespace Native

variable (lib : Library) (n : Native)

/-- The answers of the library. -/
def answers (a : Answers) : Answers
  | .wallet h .address => lib.address h
  | .wallet h .seed => lib.seed h
  | .wallet h .balance => n.value .balance h
  | .wallet h .blockChainHeight => n.value .blockHeights h
  | .manager (.createWallet ..) | .manager (.openWallet ..)
  | .manager (.recoveryWallet ..) => n.next
  | c => a c

def env (r : ScreenEnv) : ScreenEnv := { r with answers := n.answers lib r.answers }

/-- A value of a wallet changes. -/
def change (k : Redraw) (h : Handle) (v : UInt64) : Native :=
  { n with
    value := fun k' h' => if k' = k ∧ h' = h then v else n.value k' h'
    owed := fun k' h' => if k' = k ∧ h' = h then true else n.owed k' h' }

/-- The throttle of `walletNewBlock` drops the event. -/
def throttles (age : Rat) : Callback → Bool
  | .newBlock _ => ¬ age > 1
  | _ => false

/-- The library after an input: an event of a wallet has been told. -/
def after (s : Process) (i : Input) : Native :=
  match i.event with
  | .callback w c =>
    { n with
      owed := fun k h => if h = w.impl ∧ k ∈ c.reports then false else n.owed k h
      dropped := fun h =>
        if h = w.impl ∧ .blockHeights ∈ c.reports then throttles (i.env.now - s.lastTimeRefreshed) c
        else n.dropped h
      next := n.next + 1 }
  | _ => { n with next := n.next + 1 }

end Native

/-- The app with the library. -/
structure World where
  process : Process
  native : Native

inductive Happening where
  | changes (k : Redraw) (h : Handle) (v : UInt64)
  | input (i : Input)

def World.step (lib : Library) (W : World) : Happening → World
  | .changes k h v => { W with native := W.native.change k h v }
  | .input i =>
    { process := W.process.step ⟨i.event, W.native.env lib i.env, i.cut⟩
      native := W.native.after W.process i }

/-! ## The labels -/

/-- A block that redraws `k` is on the main queue. -/
def Queued (s : Process) (k : Redraw) : Prop := ∃ rs ∈ s.main, k ∈ rs

/-- The label of `k` shows the value `v` of the wallet `w`; the daemon heights
    beside a height are those its wrapper has cached. -/
def Shows (s : Process) (w : Wallet) (v : UInt64) : Redraw → Prop
  | .balance => s.labels .balanceLabel = toString v
  | .blockHeights => s.labels .blockHeightsLabel = blockHeightsString v
      (s.heights w).m_daemonBlockChainHeight.height
      (s.heights w).m_daemonBlockChainTargetHeight.height

/-- The labels are those of the wallet `w`, as far as its changes have been
    told. -/
structure Current (lib : Library) (n : Native) (s : Process) (w : Wallet) : Prop where
  delegate : s.delegate w = true
  address : s.labels .addressLabel = cstr (lib.address w.impl)
  mnemonic : s.labels .mnemonicLabel = cstr (lib.seed w.impl)
  values : ∀ k, Shows s w (n.value k w.impl) k ∨ Queued s k ∨ n.owed k w.impl = true ∨
    k = .blockHeights ∧ n.dropped w.impl = true

/-! ## Frames -/

/-- The effect changes nothing the screen has to do with. -/
def Quiet : Effect → Prop
  | .call (.wallet _ (.setListener _)) _ | .assign _ | .show _ | .setDelegate _ => False
  | .call .. | .write _ | .background _ | .main _ | .refreshedAt _ => True

theorem quiet_of_routine {K : Key → Prop} {Q T : Prop} {e : Effect}
    (h : Routine K Q T e) :
    Quiet e := by
  cases e with
  | call c a =>
    cases c with
    | wallet w c =>
      cases c with
      | setListener owner => exact h
      | _ => trivial
    | _ => trivial
  | assign | «show» | setDelegate => exact h
  | write | background | main | refreshedAt => trivial

theorem quiet_initBlock (b : Block) (env : Env) : (initBlock b).Emits Quiet env := by
  intro e he
  obtain ⟨w, -, hconnects⟩ := Routine.connects_initBlock b env e he
  unfold Routine.Connects at hconnects
  split at hconnects
  · trivial
  · trivial
  · trivial
  · cases hconnects

/-- Nothing the screen has to do with has changed, but that redraws may have
    been queued. -/
structure Frame (s t : Process) : Prop where
  wallet : t.app.wallet = s.app.wallet
  shown : t.shown = s.shown
  observing : t.observing = s.observing
  labels : t.labels = s.labels
  delegate : t.delegate = s.delegate
  heights : t.heights = s.heights
  main : s.main <+: t.main

theorem Frame.refl (s : Process) : Frame s s := ⟨rfl, rfl, rfl, rfl, rfl, rfl, List.prefix_rfl⟩

theorem Frame.trans {s t u : Process} (h : Frame s t) (h' : Frame t u) : Frame s u :=
  ⟨h'.wallet.trans h.wallet, h'.shown.trans h.shown, h'.observing.trans h.observing,
    h'.labels.trans h.labels, h'.delegate.trans h.delegate, h'.heights.trans h.heights,
    List.IsPrefix.trans h.main h'.main⟩

theorem frame_applyApp (s : Process) {e : Effect} (h : Quiet e) : Frame s (s.applyApp e) := by
  cases e with
  | call c a =>
    cases c with
    | wallet w c =>
      cases c with
      | setListener owner => cases h
      | _ => exact ⟨rfl, rfl, rfl, rfl, rfl, rfl, List.prefix_rfl⟩
    | _ => exact ⟨rfl, rfl, rfl, rfl, rfl, rfl, List.prefix_rfl⟩
  | assign | «show» | setDelegate => cases h
  | write | background | refreshedAt => exact ⟨rfl, rfl, rfl, rfl, rfl, rfl, List.prefix_rfl⟩
  | main rs => exact ⟨rfl, rfl, rfl, rfl, rfl, rfl, List.prefix_append _ _⟩

theorem frame_perform (s : Process) (r : ScreenEnv) {es : List Effect} (h : ∀ e ∈ es, Quiet e) :
    Frame s (s.perform r (es.map .app)) := by
  induction es generalizing s with
  | nil => exact .refl s
  | cons e es ih =>
    have he : Quiet e := h e (by simp)
    have hne : ∀ w, ScreenEffect.app e ≠ .app (.assign w) := by
      rintro w heq
      cases heq
      cases he
    rw [List.map_cons, Process.perform_cons, Process.apply_of_ne _ _ hne]
    exact (frame_applyApp s he).trans (ih _ fun e' he' => h e' (by simp [he']))

theorem Current.frame {lib : Library} {n : Native} {s t : Process} {w : Wallet}
    (h : Current lib n s w) (hst : Frame s t) : Current lib n t w := by
  obtain ⟨hdelegate, haddress, hmnemonic, hvalues⟩ := h
  refine ⟨by rwa [hst.delegate], by rwa [hst.labels], by rwa [hst.labels], fun k => ?_⟩
  rcases hvalues k with hshows | ⟨rs, hrs, hk⟩ | hrest
  · refine .inl ?_
    cases k with
    | balance => rwa [Shows, hst.labels]
    | blockHeights => rwa [Shows, hst.labels, hst.heights]
  · exact .inr (.inl ⟨rs, hst.main.subset hrs, hk⟩)
  · exact .inr (.inr hrest)

/-! ## What the screen writes -/

/-- The values of `w`, as the library answers them. -/
def asked (r : ScreenEnv) (w : Wallet) : Redraw → UInt64
  | .balance => r.answers (.wallet w.impl .balance)
  | .blockHeights => r.answers (.wallet w.impl .blockChainHeight)

/-- The labels of `ks` have been written, for the wallet `w`; nothing else that
    the screen shows has changed. -/
structure Redrawn (r : ScreenEnv) (w : Wallet) (ks : List Redraw) (s t : Process) : Prop where
  wallet : t.app.wallet = s.app.wallet
  shown : t.shown = s.shown
  observing : t.observing = s.observing
  delegate : t.delegate = s.delegate
  main : t.main = s.main
  address : t.labels .addressLabel = s.labels .addressLabel
  mnemonic : t.labels .mnemonicLabel = s.labels .mnemonicLabel
  written : ∀ k ∈ ks, Shows t w (asked r w k) k
  kept : ∀ k, Shows s w (asked r w k) k → Shows t w (asked r w k) k

section
variable {r : ScreenEnv} {w : Wallet} {s t u : Process} {ks ls : List Redraw}

theorem Redrawn.trans (h : Redrawn r w ks s t) (h' : Redrawn r w ls t u) :
    Redrawn r w (ks ++ ls) s u := by
  refine ⟨h'.wallet.trans h.wallet, h'.shown.trans h.shown, h'.observing.trans h.observing,
    h'.delegate.trans h.delegate, h'.main.trans h.main, h'.address.trans h.address,
    h'.mnemonic.trans h.mnemonic, fun k hk => ?_, fun k hk => h'.kept k (h.kept k hk)⟩
  rcases List.mem_append.1 hk with hk | hk
  · exact h'.kept k (h.written k hk)
  · exact h'.written k hk

theorem redrawn_refreshBalance (s : Process) :
    Redrawn r w [.balance] s
      (Runs.run Process.applyScreen s
        ((WalletViewController.Labels.refreshBalance (some w)).log r)) := by
  refine ⟨rfl, rfl, rfl, rfl, rfl, rfl, rfl, fun k hk => ?_, fun k hk => ?_⟩
  · cases List.mem_singleton.1 hk
    rfl
  · cases k with
    | balance => rfl
    | blockHeights => exact hk

/-- Queries leave the screen as it is. -/
theorem run_queries (s : Process) {qs : List Effect}
    (h : ∀ e ∈ qs, WalletViewController.Labels.Queries w e) :
    ∃ log calls, Runs.run Process.applyScreen s (qs.map .app) =
      { s with log := log, app := { s.app with calls := calls } } := by
  induction qs generalizing s with
  | nil => exact ⟨s.log, s.app.calls, rfl⟩
  | cons e qs ih =>
    obtain ⟨log, calls, hrun⟩ := ih (s.applyApp e) fun e' he' => h e' (by simp [he'])
    refine ⟨log, calls, ?_⟩
    have he := h e (by simp)
    rw [List.map_cons, Runs.run_cons]
    change Runs.run Process.applyScreen (s.applyApp e) _ = _
    rw [hrun]
    unfold WalletViewController.Labels.Queries at he
    split at he
    · rfl
    · rfl
    · cases he

theorem redrawn_refreshBlockHeights (s : Process) :
    Redrawn r w [.blockHeights] s
      (Runs.run Process.applyScreen s
        ((WalletViewController.Labels.refreshBlockHeights (some w)).log r)) := by
  obtain ⟨qs, m, hqs, hlog⟩ := WalletViewController.Labels.log_refreshBlockHeights w r
  rw [hlog, List.cons_append, Runs.run_cons]
  generalize hs' :
    s.applyScreen (.app (.call (.wallet w.impl .blockChainHeight) (r.answers _))) = s'
  obtain ⟨log, calls, hrun⟩ := run_queries s' hqs
  rw [Runs.run_append, hrun, ← hs']
  refine ⟨rfl, rfl, rfl, rfl, rfl, rfl, rfl, fun k hk => ?_, fun k hk => ?_⟩
  · cases List.mem_singleton.1 hk
    simp [Process.applyScreen, Shows, asked]
  · cases k with
    | balance => exact hk
    | blockHeights => simp [Process.applyScreen, Shows, asked]

/-- A block on the main queue writes the labels it is to redraw. -/
theorem redrawn_redraw (s : Process) (rs : List Redraw) :
    Redrawn r w rs s (Runs.run Process.applyScreen s
      ((WalletViewController.Labels.redraw (some w) rs).log r)) := by
  induction rs generalizing s with
  | nil =>
    refine ⟨rfl, rfl, rfl, rfl, rfl, rfl, rfl, fun k hk => ?_, fun k hk => hk⟩
    cases hk
  | cons k rs ih =>
    cases k with
    | balance =>
      rw [WalletViewController.Labels.redraw, Code.log_bind, Runs.run_append]
      exact (redrawn_refreshBalance s).trans (ih _)
    | blockHeights =>
      rw [WalletViewController.Labels.redraw, Code.log_bind, Runs.run_append]
      exact (redrawn_refreshBlockHeights s).trans (ih _)

end

/-- `resetWallet` shows the current wallet. -/
structure Reset (r : ScreenEnv) (s t : Process) : Prop where
  wallet : t.app.wallet = s.app.wallet
  shown : t.shown = s.app.wallet
  observing : t.observing = s.observing
  delegate : t.delegate = s.app.wallet.elim s.delegate fun w => Function.update s.delegate w true
  address : ∀ w ∈ t.shown, t.labels .addressLabel = cstr (r.answers (.wallet w.impl .address))
  mnemonic : ∀ w ∈ t.shown, t.labels .mnemonicLabel = cstr (r.answers (.wallet w.impl .seed))
  written : ∀ w ∈ t.shown, ∀ k, Shows t w (asked r w k) k

theorem run_resetWallet (s : Process) (r : ScreenEnv) :
    Reset r s (Runs.run Process.applyScreen s
      (WalletViewController.Labels.resetWallet.log (s.env r))) := by
  rcases hw : s.app.wallet with _ | w
  · rw [WalletViewController.Labels.log_resetWallet_none (r := s.env r) hw]
    refine ⟨rfl, hw.symm, rfl, by rw [hw]; rfl, ?_, ?_, ?_⟩
    all_goals
      intro w hshown
      cases hshown
  · rw [WalletViewController.Labels.log_resetWallet_some (r := s.env r) hw, Runs.run_append,
      Runs.run_append]
    generalize hs' : Runs.run Process.applyScreen s _ = s'
    have hbalance := redrawn_refreshBalance (r := s.env r) (w := w) s'
    have hredrawn := hbalance.trans (redrawn_refreshBlockHeights _)
    generalize Runs.run Process.applyScreen (Runs.run Process.applyScreen s' _) _ = t
      at hredrawn ⊢
    subst hs'
    have hshown : t.shown = some w := hredrawn.shown
    have honly : ∀ v ∈ t.shown, v = w := by
      intro v hv
      rw [hshown] at hv
      exact (Option.some.inj hv).symm
    refine ⟨hredrawn.wallet, hshown.trans hw.symm, hredrawn.observing,
      by rw [hredrawn.delegate, hw]; rfl, fun v hv => ?_, fun v hv => ?_, fun v hv k => ?_⟩
    all_goals obtain rfl := honly v hv
    · exact hredrawn.address
    · exact hredrawn.mnemonic
    · refine hredrawn.written k ?_
      cases k <;> simp

/-! ## The invariant -/

structure Inv (lib : Library) (n : Native) (s : Process) : Prop where
  shown : ∀ w ∈ s.shown, Current lib n s w
  observing : s.observing = true → s.shown = s.app.wallet
  shown_older : ∀ w ∈ s.shown, w.impl < n.next
  wallet_older : ∀ w ∈ s.app.wallet, w.impl < n.next

section
variable {lib : Library} {n : Native} {s t : Process}

/-- The library names another wallet. -/
theorem Inv.next (h : Inv lib n s) : Inv lib { n with next := n.next + 1 } s := by
  obtain ⟨hshown, hobserving, holder, holder'⟩ := h
  refine ⟨fun w hw => ?_, hobserving, fun w hw => Nat.lt_succ_of_lt (holder w hw),
    fun w hw => Nat.lt_succ_of_lt (holder' w hw)⟩
  obtain ⟨hdelegate, haddress, hmnemonic, hvalues⟩ := hshown w hw
  exact ⟨hdelegate, haddress, hmnemonic, hvalues⟩

theorem Inv.frame (h : Inv lib n s) (hst : Frame s t) : Inv lib n t := by
  obtain ⟨hshown, hobserving, holder, holder'⟩ := h
  refine ⟨fun w hw => ?_, fun ht => ?_, fun w hw => ?_, fun w hw => ?_⟩
  · rw [hst.shown] at hw
    exact (hshown w hw).frame hst
  · rw [hst.shown, hst.wallet]
    exact hobserving (hst.observing ▸ ht)
  · rw [hst.shown] at hw
    exact holder w hw
  · rw [hst.wallet] at hw
    exact holder' w hw

theorem inv_launch (lib : Library) (n : Native) (x : Record) (now : Rat)
    (past : List (List Effect)) : Inv lib n (Process.launch x now past) := by
  refine ⟨fun w hw => ?_, fun h => ?_, fun w hw => ?_, fun w hw => ?_⟩
  · cases hw
  · cases h
  · cases hw
  · cases hw

/-- After `resetWallet` everything is current. -/
theorem Inv.reset {n' : Native} (hvalue : n'.value = n.value)
    (holder : ∀ w ∈ s.app.wallet, w.impl < n'.next) {r : ScreenEnv}
    (hreset : Reset (n.env lib r) s t) : Inv lib n' t := by
  refine ⟨fun w hw => ⟨?_, hreset.address w hw, hreset.mnemonic w hw, fun k => .inl ?_⟩,
    fun _ => hreset.shown.trans hreset.wallet.symm, fun w hw => ?_, fun w hw => ?_⟩
  · rw [hreset.delegate, ← hreset.shown, hw]
    exact Function.update_self ..
  · have hwritten := hreset.written w hw k
    rw [hvalue]
    cases k with
    | balance => exact hwritten
    | blockHeights => exact hwritten
  · rw [hreset.shown] at hw
    exact holder w hw
  · rw [hreset.wallet] at hw
    exact holder w hw

/-- A wallet that is not shown yet is wrapped. -/
structure Wrapped (h : Handle) (s t : Process) : Prop where
  wallet : t.app.wallet = s.app.wallet
  shown : t.shown = s.shown
  observing : t.observing = s.observing
  labels : t.labels = s.labels
  main : t.main = s.main
  delegate : ∀ w, w ≠ ⟨h⟩ → t.delegate w = s.delegate w
  heights : ∀ w, w ≠ ⟨h⟩ → t.heights w = s.heights w

theorem wrapped_native (s : Process) (r : ScreenEnv) (o : Opening) (env : Env) :
    Wrapped (o.handle env) s (s.perform r ((o.native env).map .app)) := by
  refine ⟨rfl, rfl, rfl, rfl, rfl, fun w hw => ?_, fun w hw => ?_⟩
  · exact Function.update_of_ne hw _ _
  · exact Function.update_of_ne hw _ _

theorem Inv.wrapped (h : Inv lib n s) (hst : Wrapped n.next s t) : Inv lib n t := by
  obtain ⟨hshown, hobserving, holder, holder'⟩ := h
  refine ⟨fun w hw => ?_, fun ht => ?_, fun w hw => ?_, fun w hw => ?_⟩
  · rw [hst.shown] at hw
    obtain ⟨hdelegate, haddress, hmnemonic, hvalues⟩ := hshown w hw
    have hne : w ≠ ⟨n.next⟩ := by
      rintro rfl
      exact absurd (holder _ hw) (Nat.lt_irrefl _)
    refine ⟨by rwa [hst.delegate w hne], by rwa [hst.labels], by rwa [hst.labels], fun k => ?_⟩
    have hk := hvalues k
    cases k with
    | balance => rwa [Shows, Queued, hst.labels, hst.main]
    | blockHeights => rwa [Shows, Queued, hst.labels, hst.main, hst.heights w hne]
  · rw [hst.shown, hst.wallet]
    exact hobserving (hst.observing ▸ ht)
  · rw [hst.shown] at hw
    exact holder w hw
  · rw [hst.wallet] at hw
    exact holder' w hw

/-- The assignment shows the wallet, where the screen observes it. -/
theorem Inv.assign (h : Inv lib n s) (r : ScreenEnv) :
    Inv lib { n with next := n.next + 1 }
      (s.apply (n.env lib r) (.app (.assign ⟨n.next⟩))) := by
  rw [Process.apply_assign]
  split
  · have hreset := run_resetWallet (s.applyApp (.assign ⟨n.next⟩)) (n.env lib r)
    refine Inv.reset (n := n) rfl (fun w hw => ?_) hreset
    cases hw
    exact Nat.lt_succ_self _
  · rename_i hobserving
    obtain ⟨hshown, -, holder, -⟩ := h.next
    refine ⟨fun w hw => ?_, fun h => absurd h hobserving, holder, fun w hw => ?_⟩
    · obtain ⟨hdelegate, haddress, hmnemonic, hvalues⟩ := hshown w hw
      exact ⟨hdelegate, haddress, hmnemonic, hvalues⟩
    · cases hw
      exact Nat.lt_succ_self _

/-- An opening wraps a wallet that is not shown yet, and assigns it. -/
theorem Inv.opening (h : Inv lib n s) (r : ScreenEnv) (o : Opening) :
    Inv lib { n with next := n.next + 1 } (s.open? (n.env lib r) (some o)) := by
  have hhandle : o.handle (s.env (n.env lib r)).toEnv = n.next := by cases o <;> rfl
  have hwrapped := wrapped_native s (n.env lib r) o (s.env (n.env lib r)).toEnv
  rw [hhandle] at hwrapped
  have hwrites : ∀ e ∈ o.writes.map Effect.write, Quiet e := by
    intro e he
    obtain ⟨w, -, rfl⟩ := List.mem_map.1 he
    trivial
  have hinv := (h.wrapped hwrapped).frame (frame_perform _ (n.env lib r) hwrites)
  rw [Process.open?, Option.elim_some, o.log_code, hhandle, List.map_append, List.map_append,
    Process.perform_append, Process.perform_append, List.map_cons, Process.perform_cons]
  have hquiet : ∀ e ∈ [Effect.background o.block], Quiet e := by simp [Quiet]
  exact (hinv.assign r).frame (frame_perform _ (n.env lib r) hquiet)

/-! ### The events of a wallet -/

/-- The handler queues a redraw of what the event is about, unless the throttle
    drops it. -/
theorem queued_callback (s : Process) (r : ScreenEnv) {w : Wallet} (hw : s.delegate w = true)
    (c : Callback) {k : Redraw} (hk : k ∈ c.reports) :
    Queued (s.step ⟨.callback w c, r, none⟩) k ∨
      k = .blockHeights ∧ Native.throttles (r.now - s.lastTimeRefreshed) c = true := by
  have hqueued : ∀ rs, (s.step ⟨.callback w c, r, none⟩).main = s.main ++ [rs] → k ∈ rs →
      Queued (s.step ⟨.callback w c, r, none⟩) k := by
    intro rs hmain hrs
    refine ⟨rs, ?_, hrs⟩
    rw [hmain]
    exact List.mem_append_right _ (List.mem_singleton.2 rfl)
  have hlog := Callback.log_listener w c (s.env r).toEnv
  rw [Process.env_delegate, if_pos hw] at hlog
  rw [Process.step_callback, Process.runCode, hlog] at hqueued ⊢
  cases c with
  | moneySpent | moneyReceived => exact .inl (hqueued [.balance] rfl hk)
  | updated | refreshed => exact .inl (hqueued [.blockHeights, .balance] rfl hk)
  | newBlock height =>
    obtain rfl : k = .blockHeights := List.mem_singleton.1 hk
    by_cases hage : r.now - s.lastTimeRefreshed > 1
    · have hhandler : (Callback.handler w (.newBlock height)).log (s.env r).toEnv =
          [.refreshedAt r.now, .main [.blockHeights]] := by
        simp only [Callback.handler, WalletViewController.walletNewBlock, Code.log_ask_bind,
          Code.log_ite]
        exact if_pos hage
      rw [hhandler] at hqueued ⊢
      exact .inl (hqueued [.blockHeights] rfl hk)
    · exact .inr ⟨rfl, decide_eq_true hage⟩

theorem Inv.callback (h : Inv lib n s) (w : Wallet) (c : Callback) (r : ScreenEnv) :
    Inv lib (n.after s ⟨.callback w c, r, none⟩) (s.step ⟨.callback w c, n.env lib r, none⟩) := by
  have hframe : Frame s (s.step ⟨.callback w c, n.env lib r, none⟩) := by
    rw [Process.step_callback]
    exact frame_perform _ _ fun e he => quiet_of_routine (Routine.listener (T := False) w c e he)
  obtain ⟨hshown, hobserving, holder, holder'⟩ := h.next.frame hframe
  refine ⟨fun v hv => ?_, hobserving, holder, holder'⟩
  obtain ⟨hdelegate, haddress, hmnemonic, hvalues⟩ := hshown v hv
  refine ⟨hdelegate, haddress, hmnemonic, fun k => ?_⟩
  -- an event of the shown wallet itself pays its debt
  by_cases htold : v = w ∧ k ∈ c.reports
  · obtain ⟨rfl, hk⟩ := htold
    have hdelegated : s.delegate v = true := by rwa [hframe.delegate] at hdelegate
    rcases queued_callback s (n.env lib r) hdelegated c hk with hqueued | ⟨rfl, hthrottles⟩
    · exact .inr (.inl hqueued)
    · refine .inr (.inr (.inr ⟨rfl, ?_⟩))
      change (if _ then _ else _) = true
      rw [if_pos ⟨rfl, hk⟩]
      exact hthrottles
  · have hne : ∀ k', k' = k → ¬ (v.impl = w.impl ∧ k' ∈ c.reports) := by
      rintro k' rfl ⟨himpl, hk⟩
      obtain ⟨i⟩ := v
      obtain ⟨j⟩ := w
      exact htold ⟨congrArg Wallet.mk himpl, hk⟩
    rcases hvalues k with hshows | hqueued | howed | ⟨rfl, hdropped⟩
    · exact .inl hshows
    · exact .inr (.inl hqueued)
    · refine .inr (.inr (.inl ?_))
      change (if _ then _ else _) = true
      rwa [if_neg (hne k rfl)]
    · refine .inr (.inr (.inr ⟨rfl, ?_⟩))
      change (if _ then _ else _) = true
      rwa [if_neg (hne _ rfl)]

/-! ### The main queue -/

theorem run_redraw_none (s : Process) (rs : List Redraw) (r : ScreenEnv) :
    ∃ labels, Runs.run Process.applyScreen s
      ((WalletViewController.Labels.redraw none rs).log r) = { s with labels := labels } := by
  induction rs generalizing s with
  | nil => exact ⟨s.labels, rfl⟩
  | cons k rs ih =>
    cases k with
    | balance => exact ih { s with labels := Function.update s.labels .balanceLabel (toString 0) }
    | blockHeights => exact ih s

/-- A block on the main queue brings its labels up to date. -/
theorem Inv.redraw (h : Inv lib n s) (r : ScreenEnv) :
    Inv lib n (s.step ⟨.redraw, n.env lib r, none⟩) := by
  rcases hm : s.main with _ | ⟨rs, q⟩
  · rwa [Process.step_redraw_nil _ _ hm]
  rw [Process.step_redraw_cons _ _ hm,
    Process.perform_eq_run _ _ (looks_redraw _ rs (s.env (n.env lib r)))]
  obtain ⟨hshown, hobserving, holder, holder'⟩ := h
  rcases hw : s.shown with _ | w
  · obtain ⟨labels, hrun⟩ := run_redraw_none s rs (s.env (n.env lib r))
    rw [hrun]
    refine ⟨fun w hshown => ?_, hobserving, holder, holder'⟩
    rw [hw] at hshown
    cases hshown
  · have hredrawn := redrawn_redraw (r := s.env (n.env lib r)) (w := w) s rs
    generalize Runs.run Process.applyScreen s _ = t at hredrawn ⊢
    refine ⟨fun v hv => ?_, fun ht => ?_, fun v hv => ?_, fun v hv => ?_⟩
    · have hvs : v ∈ s.shown := hredrawn.shown ▸ hv
      obtain rfl : w = v := Option.some.inj (hw.symm.trans hvs)
      obtain ⟨hdelegate, haddress, hmnemonic, hvalues⟩ := hshown w hvs
      refine ⟨hredrawn.delegate ▸ hdelegate, hredrawn.address.trans haddress,
        hredrawn.mnemonic.trans hmnemonic, fun k => ?_⟩
      have hasked : asked (s.env (n.env lib r)) w k = n.value k w.impl := by cases k <;> rfl
      have hwritten := hredrawn.written k
      have hkept := hredrawn.kept k
      rw [hasked] at hwritten hkept
      rcases hvalues k with hshows | ⟨rs', hrs', hk⟩ | hrest
      · exact .inl (hkept hshows)
      · rw [hm] at hrs'
        rcases List.mem_cons.1 hrs' with rfl | hrs'
        · exact .inl (hwritten hk)
        · refine .inr (.inl ⟨rs', ?_, hk⟩)
          change rs' ∈ t.main.tail
          rwa [hredrawn.main, hm]
      · exact .inr (.inr hrest)
    · exact hredrawn.shown.trans ((hobserving (hredrawn.observing ▸ ht)).trans hredrawn.wallet.symm)
    · exact holder v (hredrawn.shown ▸ hv)
    · exact holder' v (hredrawn.wallet ▸ hv)

/-! ### Runs -/

theorem Inv.walletAppears (h : Inv lib n s) (r : ScreenEnv) :
    Inv lib n (s.step ⟨.walletAppears, n.env lib r, none⟩) := by
  rw [Process.step_walletAppears, Process.perform_eq_run _ _ (looks_resetWallet _)]
  have hreset := run_resetWallet s (n.env lib r)
  obtain ⟨hshown, -, holder, holder'⟩ := Inv.reset (n := n) rfl h.wallet_older hreset
  refine ⟨fun w hw => ?_, fun _ => hreset.shown.trans hreset.wallet.symm, holder, holder'⟩
  obtain ⟨hdelegate, haddress, hmnemonic, hvalues⟩ := hshown w hw
  exact ⟨hdelegate, haddress, hmnemonic, hvalues⟩

theorem Inv.step (h : Inv lib n s) (i : Input) :
    Inv lib (n.after s i) (s.step ⟨i.event, n.env lib i.env, i.cut⟩) := by
  obtain ⟨e, r, cut⟩ := i
  rcases cut with _ | k
  case some => exact inv_launch _ _ _ _ _
  have hcode : ∀ (K : Key → Prop) {α : Type} {m : AppCode α},
      m.Emits (Routine K True True) (s.env (n.env lib r)).toEnv →
        Frame s (s.runCode (n.env lib r) m) :=
    fun _ _ _ hm => frame_perform _ _ fun e he => quiet_of_routine (hm e he)
  have hopening : ∀ o, Inv lib { n with next := n.next + 1 } (s.open? (n.env lib r) o) := by
    rintro (_ | o)
    · exact h.next
    · exact h.opening r o
  -- where the other screens go does not matter
  have hgo : ∀ {t : Process} (login rows detail create confirm texts blocks),
      Frame t { t with
        login := login, rows := rows, detail := detail, create := create, confirm := confirm
        texts := texts, app := { t.app with blocks := blocks } } :=
    fun _ _ _ _ _ _ _ => ⟨rfl, rfl, rfl, rfl, rfl, rfl, List.prefix_rfl⟩
  cases e with
  | mainAppears =>
    rw [Process.step_mainAppears]
    exact (hopening _).frame (hgo _ _ _ _ _ _ _)
  | submit form =>
    rw [Process.step_submit]
    exact (hopening _).frame (hgo _ _ _ _ _ _ _)
  | walletAppears => exact (h.walletAppears r).next
  | walletDisappears =>
    obtain ⟨hshown, -, holder, holder'⟩ := h.next
    refine ⟨fun w hw => ?_, fun ht => ?_, holder, holder'⟩
    · obtain ⟨hdelegate, haddress, hmnemonic, hvalues⟩ := hshown w hw
      exact ⟨hdelegate, haddress, hmnemonic, hvalues⟩
    · cases ht
  | refreshButton =>
    rw [Process.step_refreshButton]
    exact h.next.frame (hcode (fun _ => False) (Routine.refreshButton _))
  | callback w c => exact h.callback w c r
  | block j =>
    rcases hb : s.app.blocks[j]? with _ | b
    · rw [Process.step_block_none _ _ hb]
      exact h.next
    · rw [Process.step_block_some _ _ hb]
      have hquiet := quiet_initBlock b (s.env (n.env lib r)).toEnv
      exact (h.next.frame (frame_perform _ _ hquiet)).frame (hgo _ _ _ _ _ _ _)
  | redraw => exact (h.redraw r).next
  | enterBackground =>
    rw [Process.step_enterBackground]
    exact h.next.frame (hcode _ Routine.save)
  | historyAppears =>
    rcases hw : s.app.wallet with _ | w
    · rw [Process.step_historyAppears_none _ _ hw]
      exact h.next
    · rw [Process.step_historyAppears_some _ _ hw]
      have hquiet : ∀ e ∈ [Effect.call (.history w.impl .getAll) ((n.env lib r).answers _)],
          Quiet e := by simp [Quiet]
      exact (h.next.frame (frame_perform _ _ hquiet)).frame (hgo _ _ _ _ _ _ _)
  | cell j =>
    rcases ht : s.rows[j]? with _ | t
    · rw [Process.step_cell_none _ _ ht]
      exact h.next
    · rw [Process.step_cell_some _ _ ht]
      exact (h.next.frame (hcode (fun _ => False) (Routine.cellForRow t))).frame (hgo _ _ _ _ _ _ _)
  | select j => exact h.next.frame (hgo _ _ _ _ _ _ _)
  | detailAppears ts =>
    rcases ht : s.detail with _ | t
    · rw [Process.step_detailAppears_none _ _ ht]
      exact h.next
    · rw [Process.step_detailAppears_some _ _ ht]
      exact (h.next.frame (hcode (fun _ => False) (Routine.detail t ts))).frame (hgo _ _ _ _ _ _ _)
  | present =>
    rw [Process.step_present]
    split
    · exact h.next
    · rcases s.app.wallet with _ | w
      · exact inv_launch _ _ _ _ _
      · exact h.next.frame (hgo _ _ _ _ _ _ _)
  | transfer form =>
    rcases hc : s.create with _ | w
    · rw [Process.step_transfer_none _ _ hc]
      exact h.next
    · rw [Process.step_transfer_some _ _ hc]
      have hinv := h.next.frame (hcode (fun _ => False) (Routine.transfer w form))
      split
      · exact hinv
      · exact inv_launch _ _ _ _ _
      · exact hinv.frame (hgo _ _ _ _ _ _ _)
  | back => exact h.next.frame (hgo _ _ _ _ _ _ _)
  | confirm =>
    rw [Process.step_confirm]
    split
    · exact h.next
    · exact h.next.frame (hgo _ _ _ _ _ _ _)
  | relaunch => exact inv_launch _ _ _ _ _

/-- A change is owed to the listener of its wallet. -/
theorem Inv.change (h : Inv lib n s) (k : Redraw) (v : Handle) (x : UInt64) :
    Inv lib (n.change k v x) s := by
  obtain ⟨hshown, hobserving, holder, holder'⟩ := h
  refine ⟨fun w hw => ?_, hobserving, holder, holder'⟩
  obtain ⟨hdelegate, haddress, hmnemonic, hvalues⟩ := hshown w hw
  refine ⟨hdelegate, haddress, hmnemonic, fun k' => ?_⟩
  by_cases hchanged : k' = k ∧ w.impl = v
  · exact .inr (.inr (.inl (if_pos hchanged)))
  · have hvalue : (n.change k v x).value k' w.impl = n.value k' w.impl := if_neg hchanged
    have howed : (n.change k v x).owed k' w.impl = n.owed k' w.impl := if_neg hchanged
    rw [hvalue, howed]
    exact hvalues k'

end

theorem inv_run (lib : Library) (n : Native) (x : Record) (now : Rat) (hs : List Happening) :
    Runs.Always (World.step lib) (fun W => Inv lib W.native W.process) ⟨.launch x now, n⟩ hs := by
  refine Runs.always_of_step (fun W e h => ?_) (inv_launch lib n x now [])
  cases e with
  | changes k v x => exact h.change k v x
  | input i => exact h.step i

/-- **What the screen shows is current**, as far as it has been told.  While the
    screen observes, it shows the current wallet. -/
theorem labels_current (lib : Library) (n : Native) (x : Record) (now : Rat)
    (hs : List Happening) :
    Runs.Always (World.step lib)
      (fun W => (∀ w ∈ W.process.shown, Current lib W.native W.process w) ∧
        (W.process.observing = true → W.process.shown = W.process.app.wallet))
      ⟨.launch x now, n⟩ hs := by
  refine Runs.always_iff_prefix.2 fun fs hfs => ?_
  have hinv := Runs.always_iff_prefix.1 (inv_run lib n x now hs) fs hfs
  exact ⟨hinv.shown, hinv.observing⟩

/-! ## Settling -/

theorem step_redraw_queue (s : Process) (r : ScreenEnv) :
    (s.step ⟨.redraw, r, none⟩).shown = s.shown ∧ (s.step ⟨.redraw, r, none⟩).main = s.main.tail := by
  rcases hm : s.main with _ | ⟨rs, q⟩
  · rw [Process.step_redraw_nil _ _ hm]
    exact ⟨rfl, hm⟩
  rw [Process.step_redraw_cons _ _ hm,
    Process.perform_eq_run _ _ (looks_redraw _ rs (s.env r))]
  rcases hw : s.shown with _ | w
  · obtain ⟨labels, hrun⟩ := run_redraw_none s rs (s.env r)
    rw [hrun]
    exact ⟨hw, congrArg List.tail hm⟩
  · have hredrawn := redrawn_redraw (r := s.env r) (w := w) s rs
    refine ⟨hredrawn.shown.trans hw, ?_⟩
    change (Runs.run Process.applyScreen s _).main.tail = q
    rw [hredrawn.main, hm]
    rfl

/-- The blocks of the main queue run, one after the other. -/
theorem run_redraws (lib : Library) (rs : List ScreenEnv) (W : World)
    (hlength : rs.length = W.process.main.length) :
    let V := Runs.run (World.step lib) W (rs.map fun r => .input ⟨.redraw, r, none⟩)
    V.process.main = [] ∧ V.process.shown = W.process.shown ∧ V.native.value = W.native.value ∧
      V.native.owed = W.native.owed ∧ V.native.dropped = W.native.dropped := by
  induction rs generalizing W with
  | nil => exact ⟨List.eq_nil_of_length_eq_zero hlength.symm, rfl, rfl, rfl, rfl⟩
  | cons r rs ih =>
    obtain ⟨hshown, hmain⟩ := step_redraw_queue W.process (W.native.env lib r)
    have htail : rs.length = (W.step lib (.input ⟨.redraw, r, none⟩)).process.main.length := by
      change rs.length = (W.process.step ⟨.redraw, W.native.env lib r, none⟩).main.length
      rw [hmain, List.length_tail, ← hlength]
      rfl
    obtain ⟨hnil, hsame, hrest⟩ := ih _ htail
    exact ⟨hnil, hsame.trans hshown, hrest⟩

/-- Every label shows what the library says of the wallet. -/
structure Settled (lib : Library) (W : World) (w : Wallet) : Prop where
  shown : W.process.shown = some w
  address : W.process.labels .addressLabel = cstr (lib.address w.impl)
  mnemonic : W.process.labels .mnemonicLabel = cstr (lib.seed w.impl)
  values : ∀ k, Shows W.process w (W.native.value k w.impl) k

/-- **The labels settle.**  Where nothing is owed and nothing was dropped, the
    blocks on the main queue bring every label up to date. -/
theorem labels_settle (lib : Library) (n : Native) (x : Record) (now : Rat)
    (hs : List Happening) (rs : List ScreenEnv) (w : Wallet) :
    let W := Runs.run (World.step lib) ⟨.launch x now, n⟩ hs
    let V := Runs.run (World.step lib) W (rs.map fun r => .input ⟨.redraw, r, none⟩)
    rs.length = W.process.main.length → W.process.shown = some w →
    (∀ k, W.native.owed k w.impl = false) → W.native.dropped w.impl = false →
      Settled lib V w := by
  intro W V hlength hshown howed hdropped
  obtain ⟨hnil, hsame, -, howed', hdropped'⟩ := run_redraws lib rs W hlength
  have hV : V.process.shown = some w := hsame.trans hshown
  have hinv : Inv lib V.native V.process := by
    have hrun := (inv_run lib n x now (hs ++ rs.map fun r => .input ⟨.redraw, r, none⟩)).last
    rwa [Runs.run_append] at hrun
  obtain ⟨-, haddress, hmnemonic, hvalues⟩ := hinv.shown w hV
  refine ⟨hV, haddress, hmnemonic, fun k => ?_⟩
  rcases hvalues k with hshows | ⟨rs', hrs', -⟩ | hk | ⟨-, hk⟩
  · exact hshows
  · change rs' ∈ V.process.main at hrs'
    rw [hnil] at hrs'
    cases hrs'
  · rw [howed', howed k] at hk
    cases hk
  · rw [hdropped', hdropped] at hk
    cases hk

/-- A wallet is created and shown, receives 5, and the event arrives. -/
theorem labels_settle_received :
    let lib : Library := ⟨fun _ => "4AdUnd", fun _ => "gels maul"⟩
    let n : Native := ⟨fun _ _ => 0, fun _ _ => false, fun _ => false, 1⟩
    let x : Record := fun _ => none
    let created : LoginForm := .create (some "savings") (some "orange") none
    let hs : List Happening :=
      [.input ⟨.submit created, default, none⟩, .input ⟨.walletAppears, default, none⟩,
      .changes .balance 1 5, .input ⟨.callback ⟨1⟩ .updated, default, none⟩]
    let W := Runs.run (World.step lib) ⟨.launch x 0, n⟩ hs
    let V := Runs.run (World.step lib) W ([default].map fun r => .input ⟨.redraw, r, none⟩)
    W.process.labels .balanceLabel = "0" ∧ Settled lib V ⟨1⟩ := by
  intro lib n x created hs W V
  have hlabel : W.process.labels .balanceLabel = "0" := by decide +kernel
  have hlength : W.process.main.length = 1 := by decide +kernel
  have hshown : W.process.shown = some ⟨1⟩ := by decide +kernel
  have hdropped : W.native.dropped 1 = false := by decide +kernel
  have howed : ∀ k, W.native.owed k 1 = false := by
    intro k
    cases k <;> decide +kernel
  exact ⟨hlabel, labels_settle lib n x 0 hs [default] ⟨1⟩ hlength.symm hshown howed hdropped⟩

end Labels

end Monujo
