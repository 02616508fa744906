/-
  Events of replaced wallets.

  The wallet screen makes itself the delegate of every wallet it shows, and its
  handlers write process-wide keys.  Take two runs of openings, saves, screen
  changes and callbacks that differ in callbacks of wallets that are not
  current.  `record_iff`: they have the same session record throughout if and
  only if the refreshes that these wallets report to the screen find no flag to
  remove.
-/
import Monujo.Lib.Unwinding
import Monujo.Model.WalletScreen

namespace Monujo

open Monero WalletStore Unwinding

namespace Stale

structure State where
  app : App
  delegate : Wallet → Bool
  /-- The wallet screen observes `walletInittedNotification`. -/
  observing : Bool

inductive Event where
  | opening (o : Opening) (env : Env)
  | openSavedWallet (env : Env)
  | save (env : Env)
  | callback (w : Wallet) (c : Callback) (env : Env)
  /-- `WalletViewController.viewWillAppear`. -/
  | appear (env : Env)
  | disappear

def State.env (s : State) (env : Env) : Env := { s.app.env env with delegate := s.delegate }

/-- `resetWallet` runs. -/
def State.show (s : State) (env : Env) : State :=
  let ws := WalletViewController.delegated (WalletViewController.resetWallet.log (s.env env))
  { s with delegate := fun w => s.delegate w || decide (w ∈ ws) }

/-- What one effect does.  A new wrapper has no delegate; an assignment of
    `WalletStore.wallet` notifies the screen. -/
def State.apply (env : Env) (s : State) (e : Effect) : State :=
  let t := { s with app := s.app.apply e }
  match e with
  | .call (.wallet _ (.setListener owner)) _ =>
    { t with delegate := Function.update t.delegate ⟨owner⟩ false }
  | .assign _ => if t.observing then t.show env else t
  | _ => t

def State.perform (env : Env) (s : State) (es : List Effect) : State :=
  Runs.run (State.apply env) s es

def step (s : State) : Event → State
  | .opening o env => s.perform env (o.code.log (s.env env))
  | .openSavedWallet env => s.perform env (openSavedWallet.log (s.env env))
  | .save env => s.perform env (save.log (s.env env))
  | .callback w c env => s.perform env ((c.listener w).log (s.env env))
  | .appear env => { s.show env with observing := true }
  | .disappear => { s with observing := false }

/-- A callback of a wallet that is not current. -/
def OfReplaced (s : State) : Event → Prop
  | .callback w _ _ => s.app.wallet ≠ some w
  | _ => False

instance : ∀ s e, Decidable (OfReplaced s e)
  | s, .callback w _ _ => inferInstanceAs (Decidable (s.app.wallet ≠ some w))
  | _, .opening .. | _, .openSavedWallet _ | _, .save _ | _, .appear _ | _, .disappear =>
    inferInstanceAs (Decidable False)

/-- A refresh reported to the screen finds a record with `Q`. -/
def Finds (Q : Record → Prop) (s : State) : Event → Prop
  | .callback w .refreshed _ => s.delegate w = true → Q s.app.record
  | _ => True

instance {Q : Record → Prop} [DecidablePred Q] : ∀ s e, Decidable (Finds Q s e)
  | s, .callback w .refreshed _ => inferInstanceAs (Decidable (s.delegate w = true → Q s.app.record))
  | _, .callback _ (.moneySpent ..) _ | _, .callback _ (.moneyReceived ..) _
  | _, .callback _ (.newBlock _) _ | _, .callback _ .updated _ | _, .opening .. | _, .openSavedWallet _
  | _, .save _ | _, .appear _ | _, .disappear => inferInstanceAs (Decidable True)

/-- No flag is recorded. -/
def NoFlag (r : Record) : Prop := r .isRecovering = none

/-- The flag recorded, if any, is false. -/
def FlagFalse (r : Record) : Prop := r.isRecovering = false

instance : DecidablePred NoFlag := fun r => inferInstanceAs (Decidable (r .isRecovering = none))

/-! ## Equal events -/

/-- An equivalence of records that the code cannot look behind. -/
structure Respected (E : Record → Record → Prop) : Prop where
  equivalence : Equivalence E
  set : ∀ r r' w, E r r' → E (r.set w) (r'.set w)
  reopens : ∀ r r' (env : Env), E r r' →
    saved { env with record := r } = saved { env with record := r' }

theorem respected_eq : Respected Eq where
  equivalence := ⟨fun _ => rfl, Eq.symm, Eq.trans⟩
  set := by rintro r _ w rfl; rfl
  reopens := by rintro r _ env rfl; rfl

theorem respected_readsSame : Respected Record.ReadsSame where
  equivalence := Record.ReadsSame.equivalence
  set := by
    rintro r r' ⟨k, v⟩ ⟨hf, hr, hh, hp⟩
    cases k with
    | walletFile => exact ⟨by simp, by simpa [Record.isRecovering] using hr,
        by simpa [Record.restoreHeight] using hh, by simpa using hp⟩
    | isRecovering => exact ⟨by simpa using hf, by simp, by simpa using hh, by simpa using hp⟩
    | restoreHeight => exact ⟨by simpa using hf, by simpa using hr, by simp [Record.restoreHeight],
        by simpa using hp⟩
    | password => exact ⟨by simpa using hf, by simpa [Record.isRecovering] using hr,
        by simpa [Record.restoreHeight] using hh, by simp⟩
  reopens := by
    rintro r r' env ⟨hf, hr, hh, hp⟩
    simp only [saved, hf, hr, hh, hp]

/-- States that differ in the record only, and there not visibly. -/
structure Eqv (E : Record → Record → Prop) (s t : State) : Prop where
  record : E s.app.record t.app.record
  wallet : s.app.wallet = t.app.wallet
  delegate : s.delegate = t.delegate
  observing : s.observing = t.observing

section
variable {E : Record → Record → Prop} (hE : Respected E)
include hE

theorem Eqv.equivalence : Equivalence (Eqv E) where
  refl _ := ⟨hE.equivalence.refl _, rfl, rfl, rfl⟩
  symm h := ⟨hE.equivalence.symm h.1, h.2.symm, h.3.symm, h.4.symm⟩
  trans h h' := ⟨hE.equivalence.trans h.1 h'.1, h.2.trans h'.2, h.3.trans h'.3, h.4.trans h'.4⟩

omit hE in
theorem Eqv.show {s t : State} (h : Eqv E s t) (env : Env) : Eqv E (s.show env) (t.show env) := by
  obtain ⟨hr, hw, hd, ho⟩ := h
  refine ⟨hr, hw, ?_, ho⟩
  simp only [State.show, WalletViewController.delegated_resetWallet, State.env, App.env, hw, hd]

theorem Eqv.apply {s t : State} (h : Eqv E s t) (env : Env) (e : Effect) :
    Eqv E (s.apply env e) (t.apply env e) := by
  obtain ⟨sa, d, o⟩ := s
  obtain ⟨ta, _, _⟩ := t
  obtain ⟨hr, hw, rfl, rfl⟩ := h
  cases e with
  | write w => exact ⟨hE.set _ _ w hr, hw, rfl, rfl⟩
  | background | main | refreshedAt | «show» | setDelegate => exact ⟨hr, hw, rfl, rfl⟩
  | assign w =>
    have hassign : Eqv E ⟨sa.apply (.assign w), d, o⟩ ⟨ta.apply (.assign w), d, o⟩ :=
      ⟨hr, rfl, rfl, rfl⟩
    simp only [State.apply]
    split
    · exact hassign.show env
    · exact hassign
  | call c a =>
    unfold State.apply
    split
    · exact ⟨hr, hw, rfl, rfl⟩
    · rename_i heq
      cases heq
    · exact ⟨hr, hw, rfl, rfl⟩

theorem Eqv.perform {s t : State} (h : Eqv E s t) (env : Env) (es : List Effect) :
    Eqv E (s.perform env es) (t.perform env es) := by
  induction es generalizing s t with
  | nil => exact h
  | cons e es ih => exact ih (h.apply hE env e)

/-- Equal events do the same to states that look the same. -/
theorem Eqv.step {s t : State} (h : Eqv E s t) (e : Event) : Eqv E (step s e) (step t e) := by
  have henv : ∀ env, t.env env = { s.env env with record := t.app.record } := by
    intro env
    simp only [State.env, App.env, h.wallet, h.delegate]
  cases e with
  | opening o env =>
    have hlog : o.code.log (t.env env) = o.code.log (s.env env) := by cases o <;> rfl
    simp only [Stale.step, hlog]
    exact h.perform hE env _
  | openSavedWallet env =>
    have hlog : openSavedWallet.log (t.env env) = openSavedWallet.log (s.env env) := by
      have hsaved : saved (t.env env) = saved (s.env env) := by
        rw [henv, hE.reopens t.app.record s.app.record _ (hE.equivalence.symm h.record)]
        rfl
      rw [(openSavedWallet_eq _).2, (openSavedWallet_eq _).2, hsaved]
      cases saved (s.env env) with
      | none => rfl
      | some o => cases o <;> rfl
    simp only [Stale.step, hlog]
    exact h.perform hE env _
  | save env =>
    have hlog : save.log (t.env env) = save.log (s.env env) := by
      rw [henv, save_eq, save_eq]
    simp only [Stale.step, hlog]
    exact h.perform hE env _
  | callback w c env =>
    have hlog : (c.listener w).log (t.env env) = (c.listener w).log (s.env env) := by
      rw [henv, Callback.log_listener, Callback.log_listener]
      cases c with
      | newBlock height => simp [Callback.handler, WalletViewController.walletNewBlock]
      | moneySpent | moneyReceived | updated | refreshed => rfl
    simp only [Stale.step, hlog]
    exact h.perform hE env _
  | appear env =>
    obtain ⟨hr, hw, hd, -⟩ := h.show env
    exact ⟨hr, hw, hd, rfl⟩
  | disappear => exact ⟨h.record, h.wallet, h.delegate, rfl⟩

end

/-! ## Callbacks -/

/-- The effects of a callback: none of them makes a wallet, or makes one
    current. -/
def Calm : Effect → Prop
  | .call (.wallet _ (.setListener _)) _ | .assign _ => False
  | _ => True

theorem calm_listener (w : Wallet) (c : Callback) (env : Env) :
    ∀ e ∈ (c.listener w).log env, Calm e := by
  rcases Callback.listener_cases w c env with ⟨-, -, hlog⟩ | ⟨-, -, hlog⟩ | ⟨-, hlog⟩
  · rw [hlog]
    simp [Callback.moneyEffects, Calm]
  · rw [hlog]
    simp [Calm]
  · intro e he
    have hredraws := hlog e he
    cases e <;> trivial

theorem apply_calm {env : Env} {e : Effect} (h : Calm e) (s : State) :
    s.apply env e = { s with app := s.app.apply e } := by
  unfold State.apply
  split
  · exact h.elim
  · exact h.elim
  · rfl

/-- Calm effects make calls and write the record. -/
theorem perform_calm (env : Env) {es : List Effect} (h : ∀ e ∈ es, Calm e) (s : State) :
    (s.perform env es).app.record = s.app.record.put (writesOf es) ∧
      (s.perform env es).app.wallet = s.app.wallet ∧ (s.perform env es).delegate = s.delegate ∧
      (s.perform env es).observing = s.observing := by
  induction es generalizing s with
  | nil => exact ⟨rfl, rfl, rfl, rfl⟩
  | cons e es ih =>
    have he : Calm e := h e (by simp)
    obtain ⟨hr, hw, hd, ho⟩ := ih (fun e' he' => h e' (by simp [he'])) (s.apply env e)
    have hstep : s.perform env (e :: es) = (s.apply env e).perform env es := rfl
    rw [hstep, hr, hw, hd, ho, apply_calm he]
    cases e with
    | assign => cases he
    | call | write | background | main | refreshedAt | «show» | setDelegate =>
      simp [App.apply]

/-- A callback removes the flag where the screen is told of a refresh, and
    does nothing else to the session. -/
theorem step_callback (s : State) (w : Wallet) (c : Callback) (env : Env) :
    let t := step s (.callback w c env)
    t.app.record = (if s.delegate w = true ∧ c = .refreshed then
      s.app.record.set ⟨.isRecovering, none⟩ else s.app.record) ∧
    t.app.wallet = s.app.wallet ∧ t.delegate = s.delegate ∧ t.observing = s.observing := by
  obtain ⟨hr, hrest⟩ := perform_calm env (calm_listener w c (s.env env)) s
  refine ⟨?_, hrest⟩
  have hdel : (s.env env).delegate w = s.delegate w := rfl
  simp only [step, hr, Callback.writesOf_listener, hdel]
  split <;> rfl

/-- The two runs look the same in `E` if and only if removing the flag does. -/
theorem same_iff {E : Record → Record → Prop} (hE : Respected E) {Q : Record → Prop}
    (hQ : ∀ r : Record, E (r.set ⟨.isRecovering, none⟩) r ↔ Q r) {s : State} {ms : List (Move Event)}
    (hms : Runs.Guarded (pair step) (Alone OfReplaced) (s, s) ms) :
    (∀ ns, ns <+: ms → E (Runs.run step s (firsts ns)).app.record
      (Runs.run step s (seconds ns)).app.record) ↔
    Runs.Guarded (pair step) (Alone (Finds Q)) (s, s) ms := by
  have hEqv := Eqv.equivalence hE
  have hsame : Equivalence fun s t : State => E s.app.record t.app.record :=
    ⟨fun _ => hE.equivalence.refl _, fun h => hE.equivalence.symm h,
      fun h h' => hE.equivalence.trans h h'⟩
  refine same_iff_silent hEqv hsame (fun _ _ h => h.record) (fun _ _ e h => h.step hE e) ?_ ?_
    (hEqv.refl s) hms
  · intro t e hold hfind
    cases e with
    | callback w c env =>
      obtain ⟨hr, hw, hd, ho⟩ := step_callback t w c env
      refine ⟨?_, hw, hd, ho⟩
      rw [hr]
      split
      · rename_i hflag
        obtain ⟨hdel, rfl⟩ := hflag
        exact (hQ _).2 (hfind hdel)
      · exact hE.equivalence.refl _
    | opening | openSavedWallet | save | appear | disappear => cases hold
  · intro t e hold hrec
    cases e with
    | callback w c env =>
      cases c with
      | moneySpent | moneyReceived | newBlock | updated => trivial
      | refreshed =>
        intro hdel
        rw [(step_callback t w .refreshed env).1, if_pos ⟨hdel, rfl⟩] at hrec
        exact (hQ _).1 hrec
    | opening | openSavedWallet | save | appear | disappear => cases hold

/-- **What replaced wallets can do to the record**, and in terms of what the
    app reads of it.  Take two runs that differ only in callbacks of wallets
    that are not current when they are delivered. -/
theorem record_iff (s : State) (ms : List (Move Event))
    (hms : Runs.Guarded (pair step) (Alone OfReplaced) (s, s) ms) :
    ((∀ ns, ns <+: ms → (Runs.run step s (firsts ns)).app.record =
        (Runs.run step s (seconds ns)).app.record) ↔
      Runs.Guarded (pair step) (Alone (Finds NoFlag)) (s, s) ms) ∧
    ((∀ ns, ns <+: ms → (Runs.run step s (firsts ns)).app.record.ReadsSame
        (Runs.run step s (seconds ns)).app.record) ↔
      Runs.Guarded (pair step) (Alone (Finds FlagFalse)) (s, s) ms) := by
  refine ⟨same_iff respected_eq (fun r => ?_) hms, same_iff respected_readsSame (fun r => ?_) hms⟩
  · rw [Store.set_eq_self_iff, Store.Changes, not_not]
    rfl
  · constructor
    · intro h
      simpa [FlagFalse] using h.isRecovering
    · intro h
      exact ⟨by simp, by simpa [FlagFalse] using h, by simp, by simp⟩

/-- A wallet opened, replaced by one that is created; the first one reports a
    block in one of two runs. -/
theorem record_newBlock :
    let s : State := ⟨⟨fun _ => none, none, [], []⟩, fun _ => false, true⟩
    let env : Env :=
      { (default : Env) with
        answers := Function.update (fun _ => default)
          (.manager (.createWallet (some "/Documents/b.dat") "p" "English" false)) (1 : Handle) }
    ∀ ns, ns <+: [.both (.opening (.open "a.dat" "" false 0) default),
        .both (.opening (.create "b.dat" "p" "English") env),
        Move.left (.callback ⟨0⟩ (.newBlock 7) default)] →
      (Runs.run step s (firsts ns)).app.record = (Runs.run step s (seconds ns)).app.record :=
  (record_iff _ _ (by decide)).1.2 (by decide)

/-- A wallet is opened and shown, and replaced by one that is being recovered.
    In one of two runs the first wallet reports that its refresh is over: the
    recovery is no longer on record. -/
theorem record_refreshed_stale :
    let s : State := ⟨⟨fun _ => none, none, [], []⟩, fun _ => false, true⟩
    let env : Env :=
      { (default : Env) with
        answers := Function.update (fun _ => default)
          (.manager (.recoveryWallet (some "/Documents/b.dat") "memo" false 100)) (1 : Handle) }
    let ms : List (Move Event) := [.both (.opening (.open "a.dat" "" false 0) default),
      .both (.opening (.recover "b.dat" "memo" 100) env),
      .left (.callback ⟨0⟩ .refreshed default)]
    Runs.Guarded (pair step) (Alone OfReplaced) (s, s) ms ∧
      (Runs.run step s (firsts ms)).app.record.isRecovering = false ∧
      (Runs.run step s (seconds ms)).app.record.isRecovering = true := by
  decide

end Stale

end Monujo
