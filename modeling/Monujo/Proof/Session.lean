/-
  The saved session.

  A run creates, opens, recovers and reopens wallets, saves, reports refreshes
  and restarts the process, and every native call in it succeeds.  `named` is
  what the session should say: the wallet made current last, with the flag and
  the height recorded for it last.  The session is in order (`Reopens`) when
  `openSavedWallet` would reopen exactly that.

  `session_iff`: a run stays in order if and only if each wallet is recovered
  over a keychain that holds the empty password, and each refresh reported
  while the flag is set is reported by the current wallet.
-/
import Monujo.Model.WalletScreen

namespace Monujo

open Monero WalletStore

/-- The wallet files, by path, with the passwords that protect them. -/
abbrev Files := String → Option String

namespace Files

variable (files : Files)

/-- The library can open or create the file. -/
def Accepts : ManagerCall → Prop
  | .openWallet (some path) password _ => files path = some password
  | .createWallet (some path) _ _ _ | .recoveryWallet (some path) _ _ _ => files path = none
  | .openWallet none _ _ | .createWallet none _ _ _ | .recoveryWallet none _ _ _ => False
  | _ => True

instance : DecidablePred files.Accepts
  | .openWallet (some _) _ _ | .createWallet (some _) _ _ _ | .recoveryWallet (some _) _ _ _ =>
    inferInstanceAs (Decidable (_ = _))
  | .openWallet none _ _ | .createWallet none _ _ _ | .recoveryWallet none _ _ _ =>
    inferInstanceAs (Decidable False)
  | .closeWallet _ | .walletExists _ | .findWallets _ | .errorString | .setDaemonAddress _ =>
    inferInstanceAs (Decidable True)

/-- A new wallet file is protected with the password given for it; recovery
    takes none and protects it with the empty one. -/
def after : Call → Files
  | .manager (.createWallet (some path) password _ _) => Function.update files path (some password)
  | .manager (.recoveryWallet (some path) _ _ _) => Function.update files path (some "")
  | _ => files

end Files

namespace Session

/-- What the session should say of its wallet. -/
structure Named where
  file : String
  recovering : Bool
  restoreHeight : UInt64
  deriving DecidableEq

def Named.of (o : Opening) : Named := ⟨o.file, o.block.recovering, o.block.restoreHeight⟩

structure State where
  app : App
  files : Files
  /-- The file a native wallet was made from. -/
  fileOf : Handle → Option String
  /-- The wallet made current last. -/
  named : Option Named

/-- A process starts, on whatever record and files it finds. -/
def start (r : Record) (files : Files) : State := ⟨⟨r, none, [], []⟩, files, fun _ => none, none⟩

/-- What happens to the session; an environment supplies the native answers. -/
inductive Event where
  | opening (o : Opening) (env : Env)
  | openSavedWallet (env : Env)
  | save (env : Env)
  | walletRefreshed (w : Wallet) (env : Env)
  | restart

variable (documents : Option String)

/-- The environment in the state `s`: the document directory is fixed, and the
    file manager sees the wallet files. -/
def State.env (s : State) (env : Env) : Env :=
  { s.app.env env with
    documents := documents
    fileExists := fun path => (s.files (cstr path)).isSome }

@[simp] theorem State.env_record (s : State) (env : Env) :
    (s.env documents env).record = s.app.record := rfl

@[simp] theorem State.env_documents (s : State) (env : Env) :
    (s.env documents env).documents = documents := rfl

@[simp] theorem State.env_wallet (s : State) (env : Env) :
    (s.env documents env).wallet = s.app.wallet := rfl

/-- Perform effects: the native calls among them make files. -/
def State.perform (s : State) (es : List Effect) : State :=
  { s with app := s.app.perform es, files := (callsOf es).foldl Files.after s.files }

def step (s : State) : Event → State
  | .opening o env =>
    let e := s.env documents env
    { s.perform (o.code.log e) with
      fileOf := Function.update s.fileOf (o.handle e) (some o.file)
      named := some (.of o) }
  | .openSavedWallet env =>
    let e := s.env documents env
    match saved e with
    | some o =>
      { s.perform (openSavedWallet.log e) with
        fileOf := Function.update s.fileOf (o.handle e) (some o.file)
        named := s.named.or (some (.of o)) }
    | none => s.perform (openSavedWallet.log e)
  | .save env =>
    let e := s.env documents env
    { s.perform (save.log e) with
      named := match s.app.wallet with
        | some w => s.named.map fun n =>
          { n with restoreHeight := e.answers (.wallet w.impl .blockChainHeight) }
        | none => s.named }
  | .walletRefreshed w env =>
    { s.perform ((WalletViewController.walletRefreshed w).log (s.env documents env)) with
      named := s.named.map fun n =>
        if s.fileOf w.impl = some n.file then { n with recovering := false } else n }
  | .restart =>
    { s with app := { s.app with wallet := none, blocks := [] }, fileOf := fun _ => none }

/-- The native calls of the event succeed. -/
def NativeOk (s : State) : Event → Prop
  | .opening o _ => s.files.Accepts (o.request documents)
  | .openSavedWallet env =>
    ∀ o ∈ saved (s.env documents env), s.files.Accepts (o.request documents)
  | .save _ | .walletRefreshed .. | .restart => True

instance : ∀ s e, Decidable (NativeOk documents s e)
  | s, .opening o _ => inferInstanceAs (Decidable (s.files.Accepts (o.request documents)))
  | s, .openSavedWallet env => inferInstanceAs
    (Decidable (∀ o ∈ saved (s.env documents env), s.files.Accepts (o.request documents)))
  | _, .save _ | _, .walletRefreshed .. | _, .restart => inferInstanceAs (Decidable True)

/-- The saved session reopens the wallet `n`. -/
structure ReopensAs (s : State) (n : Named) : Prop where
  /-- The record pairs the file with a password that opens it. -/
  pairs : ∃ p, s.app.record .walletFile = some n.file ∧ s.app.record .password = some p ∧
    s.files.Accepts ((Opening.open n.file p n.recovering n.restoreHeight).request documents)
  /-- `openSavedWallet` returns a wallet opened from the file with the recorded
      password, and passes on the flag and the height recorded for it. -/
  reopens : ∀ env, ∃ p, s.app.record .password = some p ∧
    openSavedWallet.val (s.env documents env) =
      (openWallet n.file p n.recovering n.restoreHeight).val (s.env documents env) ∧
    openSavedWallet.log (s.env documents env) =
      (openWallet n.file p n.recovering n.restoreHeight).log (s.env documents env)

/-- The session is in order. -/
def Reopens (s : State) : Prop := ∀ n ∈ s.named, ReopensAs documents s n

/-- The condition on an event: a wallet is recovered only over an empty
    password in the keychain, and a refresh that finds the flag set is reported
    by a wallet of the current file. -/
def Careful (s : State) : Event → Prop
  | .opening (.recover ..) _ => (s.app.record .password).map cstr = some ""
  | .walletRefreshed w _ => ∀ n ∈ s.named,
    s.fileOf w.impl = some n.file ∨ s.app.record.isRecovering = false
  | _ => True

instance : ∀ s e, Decidable (Careful s e)
  | s, .opening (.recover ..) _ =>
    inferInstanceAs (Decidable ((s.app.record .password).map cstr = some ""))
  | s, .walletRefreshed w _ => inferInstanceAs (Decidable (∀ n ∈ s.named,
    s.fileOf w.impl = some n.file ∨ s.app.record.isRecovering = false))
  | _, .opening (.create ..) _ | _, .opening (.open ..) _ | _, .openSavedWallet _ | _, .save _
  | _, .restart => inferInstanceAs (Decidable True)

/-! ## What being in order means for the record -/

theorem accepts_open_iff {files : Files} {f p : String} {r : Bool} {h : UInt64} :
    files.Accepts ((Opening.open f p r h).request documents) ↔
      ∃ path, walletFile documents f = some path ∧ files (cstr path) = some (cstr p) := by
  cases hd : walletFile documents f <;> simp [Opening.request, hd, Files.Accepts]

/-- The record names `n`, with a password that opens its file. -/
structure Intact (r : Record) (files : Files) (n : Named) : Prop where
  file : r .walletFile = some n.file
  password : ∃ p path, r .password = some p ∧ walletFile documents n.file = some path ∧
    files (cstr path) = some (cstr p)
  recovering : r.isRecovering = n.recovering
  restoreHeight : r.restoreHeight = n.restoreHeight

variable {documents}

theorem saved_eq {s : State} {f p path : String} (hf : s.app.record .walletFile = some f)
    (hp : s.app.record .password = some p) (hd : walletFile documents f = some path)
    (hx : (s.files (cstr path)).isSome) (env : Env) :
    saved (s.env documents env) =
      some (.open f p s.app.record.isRecovering s.app.record.restoreHeight) := by
  simp [saved, State.env, App.env, hf, hp, hd, hx]

theorem reopensAs_iff {s : State} {n : Named} :
    ReopensAs documents s n ↔ Intact documents s.app.record s.files n := by
  constructor
  · rintro ⟨⟨p, hf, hp, hacc⟩, hre⟩
    obtain ⟨path, hd, hx⟩ := (accepts_open_iff documents).1 hacc
    obtain ⟨p', hp', -, hlog⟩ := hre default
    rw [hp] at hp'; cases hp'
    have hsaved := saved_eq hf hp hd (by simp [hx]) default
    rw [(openSavedWallet_eq _).2, hsaved] at hlog
    have hw := congrArg writesOf hlog
    change writesOf ((Opening.open _ _ _ _).code.log _) =
      writesOf ((Opening.open n.file p n.recovering n.restoreHeight).code.log _) at hw
    rw [Opening.writesOf_log, Opening.writesOf_log] at hw
    simp [Opening.writes, Opening.password, Opening.file, Opening.block] at hw
    exact ⟨hf, ⟨p, path, hp, hd, hx⟩, hw.1, hw.2⟩
  · rintro ⟨hf, ⟨p, path, hp, hd, hx⟩, hr, hh⟩
    refine ⟨⟨p, hf, hp, (accepts_open_iff documents).2 ⟨path, hd, hx⟩⟩, fun env => ⟨p, hp, ?_⟩⟩
    have hsaved := saved_eq hf hp hd (by simp [hx]) env
    rw [(openSavedWallet_eq _).1, (openSavedWallet_eq _).2, hsaved, hr, hh]
    exact ⟨rfl, rfl⟩

theorem reopens_iff {s : State} :
    Reopens documents s ↔ ∀ n ∈ s.named, Intact documents s.app.record s.files n :=
  forall₂_congr fun _ _ => reopensAs_iff

/-! ## The steps -/

/-- Creating or opening a wallet leaves its record intact; recovering one does
    so when the keychain holds the empty password. -/
theorem intact_opening {r : Record} {files : Files} {o : Opening}
    (hok : files.Accepts (o.request documents)) :
    Intact documents (r.put o.writes) (files.after (.manager (o.request documents))) (.of o) ↔
      ∀ f m h, o = .recover f m h → (r .password).map cstr = some "" := by
  cases hd : walletFile documents o.file with
  | none => cases o <;> simp_all [Opening.request, Opening.file, Files.Accepts]
  | some path =>
    cases o with
    | create f p l =>
      simp only [reduceCtorEq, false_implies, implies_true, iff_true]
      refine ⟨rfl, ⟨p, path, rfl, hd, ?_⟩, rfl, rfl⟩
      change walletFile documents f = some path at hd
      simp [Opening.request, hd, Files.after]
    | «open» f p rec h =>
      simp only [reduceCtorEq, false_implies, implies_true, iff_true]
      obtain ⟨path', hd', hx⟩ := (accepts_open_iff documents).1 hok
      exact ⟨rfl, ⟨p, path', rfl, hd', hx⟩, rfl, rfl⟩
    | recover f m h =>
      change walletFile documents f = some path at hd
      have hpw : r.put (Opening.recover f m h).writes .password = r .password :=
        Store.put_of_notMem (by simp [Opening.writes, Opening.password]) r
      have hfile : files.after (.manager ((Opening.recover f m h).request documents)) (cstr path) =
          some "" := by simp [Opening.request, hd, Files.after]
      constructor
      · rintro ⟨-, ⟨p, path', hp, hd', hx⟩, -, -⟩ _ _ _ -
        change walletFile documents f = some path' at hd'
        rw [hd] at hd'; cases hd'
        rw [hfile] at hx
        rw [hpw] at hp
        simp [hp, ← Option.some.inj hx]
      · intro hr
        obtain ⟨p, hp, hc⟩ := Option.map_eq_some_iff.1 (hr f m h rfl)
        exact ⟨rfl, ⟨p, path, hpw.trans hp, hd, by rw [hfile, hc]⟩, rfl, rfl⟩

theorem step_openSavedWallet {s : State} {env : Env} (hs : Reopens documents s)
    (hok : NativeOk documents s (.openSavedWallet env)) :
    Reopens documents (step documents s (.openSavedWallet env)) := by
  rw [reopens_iff] at hs ⊢
  simp only [step]
  cases hsv : saved (s.env documents env) with
  | none =>
    rw [(openSavedWallet_eq _).2, hsv]
    exact hs
  | some o =>
    obtain ⟨f, p, hf, hp, rfl⟩ := saved_some hsv
    simp only [(openSavedWallet_eq _).2, hsv, Option.elim_some]
    intro n hn
    have hopen := (intact_opening (r := s.app.record) (hok _ hsv)).2 (by simp)
    have hnamed : n = .of (.open f p s.app.record.isRecovering s.app.record.restoreHeight) := by
      cases hsn : s.named with
      | none => simpa [hsn, eq_comm] using hn
      | some m =>
        have hm : m = n := by simpa [hsn] using hn
        obtain ⟨hfile, -, hrec, hheight⟩ := hs m hsn
        rw [State.env_record, hfile] at hf
        cases hm
        cases hf
        rw [hrec, hheight]
        rfl
    rw [hnamed]
    simpa [State.perform, Opening.record_perform, Opening.callsOf_log, Files.after] using hopen

theorem step_opening {s : State} {o : Opening} {env : Env}
    (hok : NativeOk documents s (.opening o env)) :
    Reopens documents (step documents s (.opening o env)) ↔ Careful s (.opening o env) := by
  have hin := intact_opening (r := s.app.record) hok
  have hstep : Reopens documents (step documents s (.opening o env)) ↔
      Intact documents (s.app.record.put o.writes)
        (s.files.after (.manager (o.request documents))) (.of o) := by
    simp [reopens_iff, step, State.perform, Opening.record_perform, Opening.callsOf_log, Files.after]
  rw [hstep, hin]
  cases o <;> simp [Careful]

theorem Intact.set_restoreHeight {r : Record} {files : Files} {n : Named}
    (h : Intact documents r files n) (x : UInt64) :
    Intact documents (r.set ⟨.restoreHeight, some x⟩) files { n with restoreHeight := x } := by
  obtain ⟨hf, ⟨p, path, hp, hd, hx⟩, hr, -⟩ := h
  exact ⟨by simpa using hf, ⟨p, path, by simpa using hp, hd, hx⟩,
    by simpa [Record.isRecovering] using hr, by simp [Record.restoreHeight]⟩

/-- Saving records the height of the current wallet. -/
theorem step_save {s : State} {env : Env} (hs : Reopens documents s) :
    Reopens documents (step documents s (.save env)) := by
  rw [reopens_iff] at hs ⊢
  cases hw : s.app.wallet with
  | none => simpa [step, save_eq, hw, State.perform] using hs
  | some w =>
    simp only [step, save_eq, State.env_wallet, hw, Option.elim_some]
    intro n' hn'
    obtain ⟨n, hn, rfl⟩ := Option.map_eq_some_iff.1 hn'
    exact (hs n hn).set_restoreHeight _

theorem Intact.clear_isRecovering {r : Record} {files : Files} {n : Named}
    (h : Intact documents r files n) :
    Intact documents (r.set ⟨.isRecovering, none⟩) files { n with recovering := false } := by
  obtain ⟨hf, ⟨p, path, hp, hd, hx⟩, -, hh⟩ := h
  exact ⟨by simpa using hf, ⟨p, path, by simpa using hp, hd, hx⟩,
    by simp [Record.isRecovering], by simpa [Record.restoreHeight] using hh⟩

/-- A reported refresh removes the flag, whichever wallet reports it. -/
theorem step_walletRefreshed {s : State} {w : Wallet} {env : Env} (hs : Reopens documents s) :
    Reopens documents (step documents s (.walletRefreshed w env)) ↔
      Careful s (.walletRefreshed w env) := by
  rw [reopens_iff] at hs ⊢
  have happ : (step documents s (.walletRefreshed w env)).app.record =
      s.app.record.set ⟨.isRecovering, none⟩ := rfl
  have hfiles : (step documents s (.walletRefreshed w env)).files = s.files := rfl
  rw [happ, hfiles]
  cases hsn : s.named with
  | none => simp [step, Careful, hsn]
  | some n =>
    have hin := hs n hsn
    by_cases hfile : s.fileOf w.impl = some n.file
    · simpa [step, Careful, hsn, hfile] using hin.clear_isRecovering
    · have hflag : Intact documents (s.app.record.set ⟨.isRecovering, none⟩) s.files n ↔
          s.app.record.isRecovering = false := by
        constructor
        · intro h
          rw [hin.recovering, ← h.recovering]
          simp [Record.isRecovering]
        · intro h
          have hclear := hin.clear_isRecovering
          rwa [← h, hin.recovering] at hclear
      simpa [step, Careful, hsn, hfile] using hflag

/-- **When the saved session reopens the wallet it names.**  Of the runs whose
    native calls succeed, on any keychain, exactly those stay in order whose
    events are all careful. -/
theorem session_iff (documents : Option String) (r : Record) (files : Files) (es : List Event)
    (hok : Runs.Guarded (step documents) (NativeOk documents) (start r files) es) :
    Runs.Always (step documents) (Reopens documents) (start r files) es ↔
      Runs.Guarded (step documents) Careful (start r files) es := by
  refine Runs.always_iff_guarded_of (Reopens documents) (fun _ h => h) ?_ ?_
    (by simp [Reopens, start]) hok
  · intro t e ht hok hc
    cases e with
    | opening o env => exact (step_opening hok).2 hc
    | openSavedWallet env => exact step_openSavedWallet ht hok
    | save env => exact step_save ht
    | walletRefreshed w env => exact (step_walletRefreshed ht).2 hc
    | restart => rw [reopens_iff] at ht ⊢; exact ht
  · intro t e ht hok ht'
    cases e with
    | opening o env => exact (step_opening hok).1 ht'
    | walletRefreshed w env => exact (step_walletRefreshed ht).1 ht'
    | openSavedWallet | save | restart => trivial

/-- A wallet that was created stays reopenable across a restart. -/
theorem session_created :
    Runs.Always (step (some "/Documents")) (Reopens (some "/Documents"))
      (start (fun _ => none) fun _ => none)
      [.opening (.create "a.dat" "secret" "English") default, .restart, .openSavedWallet default] :=
  (session_iff _ _ _ _ (by decide)).2 (by decide)

/-- A wallet recovered after one was created is not: the keychain keeps the
    password of the other. -/
theorem session_recovered_after_created :
    let es : List Event := [.opening (.create "a.dat" "secret" "English") default,
      .opening (.recover "b.dat" "memo" 0) default]
    let s := start (fun _ => none) fun _ => none
    Runs.Guarded (step (some "/Documents")) (NativeOk (some "/Documents")) s es ∧
      ¬ Runs.Always (step (some "/Documents")) (Reopens (some "/Documents")) s es := by
  refine ⟨by decide, fun h => ?_⟩
  obtain ⟨-, ⟨p, path, hp, hd, hx⟩, -, -⟩ := reopens_iff.1 h.last ⟨"b.dat", true, 0⟩ rfl
  cases hp
  cases hd
  revert hx
  decide

end Session

end Monujo
