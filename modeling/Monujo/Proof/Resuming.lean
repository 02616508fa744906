/-
  How the main screen resumes a wallet.

  The flag and the height on record tell the block of a reopening whether it
  resumes a recovery, and from where.  `recovery_resumed`: in every run, over
  any number of processes, the flag is the one recorded last by a login form, or
  false since a refresh was reported to the wallet screen; the height is the one
  recorded last by a login form or a saving.  Reopening leaves both as they are,
  so a recovery outlives any number of processes.  What a form records is not
  recorded at once: a process may die in between.  But no other input comes in
  between: `openSavedWallet` reads the flag, opens the wallet and writes the flag
  back, and would undo a refresh reported meanwhile.
-/
import Monujo.Proof.Reopening

namespace Monujo

open Monero WalletStore
open Reopening (named recorded target)

namespace Resuming

/-- The flag and the height a reopening finds. -/
def found (s : Process) : Block := ⟨s.app.record.isRecovering, s.app.record.restoreHeight⟩

/-- The process has more than `n` effects of the input before it dies. -/
def outlives (i : Input) (n : ℕ) : Bool := i.cut.all (n < ·)

/-- The flag an input records, if it records one.  A refresh that is reported to
    the wallet screen removes it first of all, whichever wallet it is of. -/
def recordsFlag (s : Process) (i : Input) : Option Bool :=
  match i.event with
  | .submit _ => Store.put (fun _ => none) (recorded i) .isRecovering
  | .callback w .refreshed => if s.delegate w && outlives i 0 then some false else none
  | _ => none

/-- The height an input records, if it records one.  A saving asks the library
    for it first. -/
def recordsHeight (s : Process) (i : Input) : Option UInt64 :=
  match i.event with
  | .submit _ => Store.put (fun _ => none) (recorded i) .restoreHeight
  | .enterBackground =>
    if outlives i 1 then
      s.app.wallet.map fun w => i.env.answers (.wallet w.impl .blockChainHeight)
    else none
  | _ => none

/-! ## One input -/

variable (s : Process) (r : ScreenEnv)

theorem isSome_writes {o : Opening} {w : Write Key.Val} (hw : w ∈ o.writes) :
    w.val.isSome = true := by
  simp only [Opening.writes, List.mem_append, List.mem_cons, List.not_mem_nil, or_false,
    Option.mem_toList, Option.map_eq_some_iff] at hw
  rcases hw with ⟨p, -, rfl⟩ | rfl | rfl | rfl <;> rfl

/-- Code that writes once has written if it has come so far. -/
theorem record_one {i : Input} (es : List Effect) {fs : List Effect} {w : Write Key.Val}
    (h : s.effects i = (es ++ .write w :: fs).map .app)
    (hassign : ∀ v, Effect.assign v ∉ es ++ .write w :: fs) (hes : writesOf es = [])
    (hfs : writesOf fs = []) :
    (s.step i).app.record = if outlives i es.length then s.app.record.set w else s.app.record := by
  have htake : ∀ {es}, writesOf es = [] → ∀ k, writesOf (es.take k) = [] :=
    fun h k => List.eq_nil_of_prefix_nil (h ▸ (List.take_prefix k _).filterMap _)
  rw [Reopening.record_code s h hassign]
  unfold outlives
  rcases i.cut with _ | k
  · rw [Option.elim_none, writesOf_append, writesOf_cons, hes, hfs]
    rfl
  · rw [Option.elim_some, List.take_append, writesOf_append, htake hes, List.nil_append]
    by_cases hk : es.length < k
    · obtain ⟨n, hn⟩ : ∃ n, k - es.length = n + 1 := ⟨k - es.length - 1, by omega⟩
      rw [hn, List.take_succ_cons, writesOf_cons, htake hfs, if_pos (by simpa using hk)]
      rfl
    · rw [Nat.sub_eq_zero_of_le (not_lt.1 hk), if_neg (by simpa using hk)]
      rfl

theorem found_submit (form : LoginForm) (cut : Option ℕ) :
    found (s.step ⟨.submit form, r, cut⟩) =
      ⟨(recordsFlag s ⟨.submit form, r, cut⟩).getD s.app.record.isRecovering,
        (recordsHeight s ⟨.submit form, r, cut⟩).getD s.app.record.restoreHeight⟩ := by
  have hrecord : (s.step ⟨.submit form, r, cut⟩).app.record =
      s.app.record.put (recorded ⟨.submit form, r, cut⟩) :=
    Reopening.record_opening s (s.effects_submit r form cut)
  have hsome : ∀ w ∈ recorded ⟨.submit form, r, cut⟩, w.val.isSome = true := by
    intro w hw
    change w ∈ form.opening?.elim [] fun o => Reopening.written o cut at hw
    generalize form.opening? = o at hw
    rcases o with _ | o
    · exact absurd hw List.not_mem_nil
    · exact isSome_writes (Reopening.written_subset o cut hw)
  have hput := Store.put_eq_or hsome s.app.record
  rw [found, Record.isRecovering, Record.restoreHeight, hrecord, hput, hput, Option.getD_or,
    Option.getD_or]
  rfl

theorem found_enterBackground (cut : Option ℕ) :
    found (s.step ⟨.enterBackground, r, cut⟩) = ⟨s.app.record.isRecovering,
      (recordsHeight s ⟨.enterBackground, r, cut⟩).getD s.app.record.restoreHeight⟩ := by
  have heffects := s.effects_enterBackground r cut
  rw [save_eq, Process.env_wallet] at heffects
  rcases hw : s.app.wallet with _ | w
  · rw [hw] at heffects
    have hsame : (s.step ⟨.enterBackground, r, cut⟩).app.record = s.app.record := by
      rw [Reopening.record_code s heffects (by simp)]
      rcases cut with _ | k <;> simp
    simp only [found, hsame, recordsHeight, hw]
    split <;> rfl
  · rw [hw] at heffects
    have hone := record_one s [_] heffects (by simp) rfl rfl
    rw [List.length_singleton] at hone
    simp only [found, hone, recordsHeight, hw]
    split <;> rfl

theorem found_refreshed (w : Wallet) (cut : Option ℕ) :
    found (s.step ⟨.callback w .refreshed, r, cut⟩) =
      ⟨(recordsFlag s ⟨.callback w .refreshed, r, cut⟩).getD s.app.record.isRecovering,
        s.app.record.restoreHeight⟩ := by
  have heffects := s.effects_callback r w .refreshed cut
  rw [Callback.log_listener, Process.env_delegate] at heffects
  rcases hw : s.delegate w with _ | _
  · rw [hw] at heffects
    have hsame : (s.step ⟨.callback w .refreshed, r, cut⟩).app.record = s.app.record := by
      rw [Reopening.record_code s heffects (by simp)]
      rcases cut with _ | k <;> simp
    simp only [found, hsame, recordsFlag, hw]
    rfl
  · rw [hw, if_pos rfl, Callback.log_handler_refreshed] at heffects
    have hone := record_one s [] heffects (by simp) rfl rfl
    rw [List.length_nil] at hone
    simp only [found, hone, recordsFlag, hw, Bool.true_and]
    split <;> rfl

/-- **What an input records.** -/
theorem found_step (i : Input) : found (s.step i) =
    ⟨(recordsFlag s i).getD s.app.record.isRecovering,
      (recordsHeight s i).getD s.app.record.restoreHeight⟩ := by
  have hframe : ¬ Reopening.Touches i.event → found (s.step i) = found s := by
    intro htouches
    have hsame := Reopening.step_readsSame s i htouches
    exact congrArg₂ Block.mk hsame.isRecovering hsame.restoreHeight
  obtain ⟨e, r, cut⟩ := i
  cases e with
  | submit form => exact found_submit s r form cut
  | enterBackground => exact found_enterBackground s r cut
  | callback w c =>
    cases c with
    | refreshed => exact found_refreshed s r w cut
    | moneySpent | moneyReceived | newBlock | updated =>
      exact hframe (by simp [Reopening.Touches])
  | _ => exact hframe (by simp [Reopening.Touches])

/-! ## Reopening -/

/-- An operation dispatches its block. -/
theorem blocks_open? (o : Opening) :
    (s.open? r (some o)).app.blocks = s.app.blocks ++ [o.block] := by
  rw [Process.open?, Option.elim_some, s.blocks_perform,
    WalletViewController.Labels.filterMap_app?_map, o.backgrounds_log]

/-- The block a reopening dispatches. -/
theorem blocks_mainAppears : (s.step ⟨.mainAppears, r, none⟩).app.blocks = s.app.blocks ++
    (target r (s.app.record .walletFile) (s.app.record .password)).toList.map fun _ =>
      found s := by
  rw [Process.step_mainAppears]
  obtain ⟨hsaved, htarget⟩ | ⟨o, p, hsaved, htarget, -⟩ :=
    Reopening.saved_cases (s.env r).toEnv r rfl rfl
  · rw [Process.env_record] at htarget
    rw [hsaved, htarget]
    exact (List.append_nil _).symm
  · rw [Process.env_record] at htarget
    obtain ⟨f, password, -, -, rfl⟩ := saved_some hsaved
    rw [hsaved, htarget]
    exact blocks_open? s r _

/-- **A recovery is resumed** until a refresh is reported, from the height
    recorded last. -/
theorem recovery_resumed (x : Record) (now : Rat) (is : List Input) (r : ScreenEnv) :
    let launched := Process.launch x now
    let s := Runs.run Process.step launched is
    let y := named x is
    ∃ b : Block,
      (s.step ⟨.mainAppears, r, none⟩).app.blocks = s.app.blocks ++
        (target r (y .walletFile) (y .password)).toList.map (fun _ => b) ∧
      Runs.Latest Process.step recordsFlag launched is x.isRecovering b.recovering ∧
      Runs.Latest Process.step recordsHeight launched is x.restoreHeight b.restoreHeight := by
  intro launched s y
  obtain ⟨hfile, hpassword⟩ := Reopening.run_names launched is
  have hblocks := blocks_mainAppears s r
  rw [hfile, hpassword] at hblocks
  refine ⟨found s, hblocks, ?_, ?_⟩
  · exact Runs.latest_of_step (f := fun s : Process => s.app.record.isRecovering)
      (fun s i => congrArg Block.recovering (found_step s i)) launched is
  · exact Runs.latest_of_step (f := fun s : Process => s.app.record.restoreHeight)
      (fun s i => congrArg Block.restoreHeight (found_step s i)) launched is

end Resuming

end Monujo
