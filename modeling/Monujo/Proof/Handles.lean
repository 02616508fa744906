/-
  Native wallet handles.

  A wrapper closes its native wallet when it is released.  It is held by
  `WalletStore.wallet`, by the screens, and by the listener that its own
  initialiser installs and nobody removes: it is never released
  (`refs_pos`), and handles are closed by `WalletManager.closeWallet` only.

  `balanced_iff`: in a run of openings, screens and explicit closes, handles
  are opened and closed one for one if and only if each wallet has been closed
  when its last reference is given up, and when its file is opened again; no
  wallet is used once it has been closed; and none is closed twice.  Two paths
  may name one file.
-/
import Mathlib.Data.Fintype.Basic
import Monujo.Model.HistoryScreen
import Monujo.Model.WalletScreen

namespace Monujo

open Monero WalletStore

namespace Handles

/-! ## Handles and references -/

/-- The screens with a field for a wallet. -/
inductive Screen where
  | wallet | history | create | confirm
  deriving DecidableEq

structure State where
  app : App
  /-- The native wallets made so far are those below. -/
  next : Handle
  /-- The file a native wallet was asked for, and whether its status is good. -/
  path : Handle → Option String
  ok : Handle → Bool
  /-- How often it was passed to `closeWallet`, and whether that succeeded. -/
  closeCalls : Handle → ℕ
  closed : Handle → Bool
  /-- A closed wallet has been called. -/
  misused : Bool
  /-- The wallet fields of the screens. -/
  screens : Screen → Option Wallet
  /-- The wallet screen observes `walletInittedNotification`. -/
  observing : Bool
  /-- The wrapper is held by the listener of its native wallet. -/
  listener : Handle → Bool

/-- A process starts. -/
def start (r : Record) : State :=
  { app := ⟨r, none, [], []⟩
    next := 0
    path := fun _ => none
    ok := fun _ => false
    closeCalls := fun _ => 0
    closed := fun _ => false
    misused := false
    screens := fun _ => none
    observing := false
    listener := fun _ => false }

/-- A strong reference of the app to a wrapper, other than that of its
    listener. -/
inductive Ref where
  /-- `WalletStore.wallet`. -/
  | current
  | screen (sc : Screen)
  deriving DecidableEq

def State.ref (s : State) : Ref → Option Wallet
  | .current => s.app.wallet
  | .screen sc => s.screens sc

/-- The strong references to a wrapper. -/
def State.refs (s : State) (w : Wallet) : ℕ :=
  (if s.app.wallet = some w then 1 else 0) +
    [Screen.wallet, .history, .create, .confirm].countP (s.screens · = some w) +
    (if s.listener w.impl then 1 else 0)

/-- The library makes a new native wallet for each opening. -/
def State.answers (s : State) (a : Answers) : Answers
  | .manager (.createWallet ..) | .manager (.openWallet ..)
  | .manager (.recoveryWallet ..) => s.next
  | c => a c

def State.env (s : State) (env : Env) : Env :=
  { s.app.env env with answers := s.answers env.answers }

/-- The status the library leaves on the wallet `h` is good. -/
def isOk (env : Env) (h : Handle) : Bool :=
  let status : Status := env.answers (.wallet h .status)
  status = .ok

/-- A new native wallet. -/
def State.made (s : State) (env : Env) (path : Option String) : State :=
  { s with
    next := s.next + 1
    path := Function.update s.path s.next path
    ok := Function.update s.ok s.next (isOk env s.next) }

/-- A call on the wallet `h` or on its history. -/
def State.use (s : State) (h : Handle) : State := { s with misused := s.misused || s.closed h }

/-- What one effect does to the handles. -/
def State.apply (env : Env) (s : State) (e : Effect) : State :=
  let s := { s with app := s.app.apply e }
  match e with
  | .call (.manager (.createWallet path ..)) _ | .call (.manager (.openWallet path ..)) _
  | .call (.manager (.recoveryWallet path ..)) _ => s.made env path
  | .call (.manager (.closeWallet h)) success =>
    { s with
      closeCalls := Function.update s.closeCalls h (s.closeCalls h + 1)
      closed := Function.update s.closed h (s.closed h || success) }
  | .call (.wallet h (.setListener owner)) _ =>
    { s.use h with listener := Function.update s.listener owner true }
  | .call (.wallet h _) _ | .call (.history h _) _ => s.use h
  | .show w => { s with screens := Function.update s.screens .wallet w }
  | _ => s

/-- Effects, in order.  An assignment of `WalletStore.wallet` notifies the
    wallet screen. -/
def State.perform (env : Env) (s : State) (es : List Effect) : State :=
  es.foldl (fun s e =>
    let t := s.apply env e
    match e with
    | .assign _ =>
      if t.observing then
        Runs.run (State.apply env) t (WalletViewController.resetWallet.log (t.env env))
      else t
    | _ => t) s

/-! ## Runs -/

inductive Event where
  | opening (o : Opening) (env : Env)
  /-- `MainViewController.viewWillAppear`, which opens the saved wallet. -/
  | mainAppears (env : Env)
  | appears (sc : Screen) (env : Env)
  /-- The wallet screen disappears. -/
  | disappears
  /-- A screen is released. -/
  | drops (sc : Screen)
  /-- The `i`-th of the blocks left on the background queue runs. -/
  | block (i : ℕ) (env : Env)
  /-- `WalletManager.closeWallet`, of a wallet made before. -/
  | close (w : Wallet) (env : Env)
  /-- A wrapper without references is released. -/
  | release (w : Wallet) (env : Env)

/-- The blocks `bs` are left on the background queue. -/
def State.queue (s : State) (bs : List Block) : State :=
  { s with app := { s.app with blocks := bs } }

def step (s : State) : Event → State
  | .opening o env => s.perform env (o.code.log (s.env env))
  | .mainAppears env => s.perform env (openSavedWallet.log (s.env env))
  | .appears .wallet env =>
    { s.perform env (WalletViewController.resetWallet.log (s.env env)) with observing := true }
  | .appears .history env =>
    let t := s.perform env (TransactionHistoryViewController.viewWillAppear.log (s.env env))
    match TransactionHistoryViewController.viewWillAppear.val (s.env env) with
    | some (w, _) => { t with screens := Function.update t.screens .history (some w) }
    | none => t
  | .appears .create _ => { s with screens := Function.update s.screens .create s.app.wallet }
  | .appears .confirm _ => { s with screens := Function.update s.screens .confirm s.app.wallet }
  | .disappears => { s with observing := false }
  | .drops sc => { s with screens := Function.update s.screens sc none }
  | .block i env =>
    match s.app.blocks[i]? with
    | some b =>
      let t := s.queue (s.app.blocks.eraseIdx i)
      t.perform env ((initBlock b).log (t.env env))
    | none => s
  | .close w env =>
    if w.impl < s.next then s.perform env ((WalletManager.closeWallet w).log (s.env env)) else s
  | .release w env =>
    if w.impl < s.next ∧ s.refs w = 0 then s.perform env (w.dealloc.log (s.env env)) else s

/-! ## The property -/

section
variable {F : Type} (fileOf : String → F)

/-- The handle `h` is open on a file; `fileOf` says which file a path names. -/
def State.OpenOn (s : State) (file : F) (h : Handle) : Prop :=
  h < s.next ∧ s.ok h = true ∧ s.closed h = false ∧ (s.path h).map fileOf = some file

instance [DecidableEq F] (s : State) (file : F) : DecidablePred (s.OpenOn fileOf file) :=
  fun h => inferInstanceAs
    (Decidable (h < s.next ∧ s.ok h = true ∧ s.closed h = false ∧
      (s.path h).map fileOf = some file))

/-- Handles are opened and closed one for one. -/
structure Balanced (s : State) : Prop where
  once : ∀ h, s.closeCalls h ≤ 1
  unused : s.misused = false
  /-- A wallet that was replaced, and dropped by every screen, is closed. -/
  dropped : ∀ h < s.next, (∃ ref, s.ref ref = some ⟨h⟩) ∨ s.closed h = true
  /-- No two handles are open on one file. -/
  one : ∀ file h h', s.OpenOn fileOf file h → s.OpenOn fileOf file h' → h = h'

/-- An event gives up the references `refs`: what they hold is also held
    elsewhere, or `closeWallet` has succeeded on it. -/
def State.Released (s : State) (refs : List Ref) : Prop :=
  ∀ ref ∈ refs, ∀ w ∈ s.ref ref, (∃ ref' ∉ refs, s.ref ref' = some w) ∨ s.closed w.impl = true

/-- The references an opening gives up: it makes its wallet current, and a
    wallet screen that observes shows it. -/
def State.replaced (s : State) : List Ref :=
  if s.observing then [.current, .screen .wallet] else [.current]

/-- An opening gives up its references, and `closeWallet` has succeeded on each
    wallet that an earlier opening of its file has made with a good status. -/
def State.Reopens (s : State) (o : Opening) (env : Env) : Prop :=
  s.Released s.replaced ∧ (isOk env s.next = true →
    ∀ path, (walletFile env.documents o.file).map cstr = some path →
      ∀ h < s.next, s.ok h = true → (s.path h).map fileOf = some (fileOf path) →
        s.closed h = true)

/-- `closeWallet` has not succeeded on the current wallet. -/
def State.Usable (s : State) : Prop := ∀ w ∈ s.app.wallet, s.closed w.impl = false

/-- The condition on an event. -/
def Tidy (s : State) : Event → Prop
  | .opening o env => s.Reopens fileOf o env
  | .mainAppears env => ∀ o ∈ saved (s.env env), s.Reopens fileOf o env
  | .appears .wallet _ => s.Released [.screen .wallet] ∧ s.Usable
  | .appears .history _ => s.app.wallet.isSome → s.Released [.screen .history] ∧ s.Usable
  | .appears sc _ | .drops sc => s.Released [.screen sc]
  | .block i _ => i < s.app.blocks.length → s.Usable
  | .close w _ => w.impl < s.next → s.closeCalls w.impl = 0
  | .disappears | .release .. => True

end

/-! ## What the events do -/

/-- The state `t` after an opening: a new handle, current and shown by a screen
    that observes. -/
structure Opened (s : State) (o : Opening) (env : Env) (t : State) : Prop where
  next : t.next = s.next + 1
  path : t.path = Function.update s.path s.next ((walletFile env.documents o.file).map cstr)
  ok : t.ok = Function.update s.ok s.next (isOk env s.next)
  closeCalls : t.closeCalls = s.closeCalls
  closed : t.closed = s.closed
  misused : t.misused = (s.misused || s.closed s.next)
  wallet : t.app.wallet = some ⟨s.next⟩
  screens : t.screens =
    if s.observing then Function.update s.screens .wallet (some ⟨s.next⟩) else s.screens
  listener : t.listener = Function.update s.listener s.next true

theorem perform_opening (s : State) (o : Opening) (env : Env) :
    Opened s o env (s.perform env (o.code.log (s.env env))) := by
  obtain ⟨app, next, path, ok, closeCalls, closed, misused, screens, observing, listener⟩ := s
  have hor : (misused || closed next || closed next) = (misused || closed next) := by simp
  cases observing with
  | false => cases o <;> exact ⟨rfl, rfl, rfl, rfl, rfl, hor, rfl, rfl, rfl⟩
  | true =>
    have hshow : (misused || closed next || closed next || closed next || closed next ||
        closed next || closed next) = (misused || closed next) := by simp
    cases o <;> exact ⟨rfl, rfl, rfl, rfl, rfl, hshow, rfl, rfl, rfl⟩

/-- The state `t` after calls on the current wallet of `s`; the screens are
    then `screens`. -/
structure Used (s t : State) (screens : Screen → Option Wallet) : Prop where
  next : t.next = s.next
  path : t.path = s.path
  ok : t.ok = s.ok
  closeCalls : t.closeCalls = s.closeCalls
  closed : t.closed = s.closed
  misused : t.misused = (s.misused || s.app.wallet.any fun w => s.closed w.impl)
  wallet : t.app.wallet = s.app.wallet
  screens : t.screens = screens
  listener : t.listener = s.listener

/-- Without a current wallet, nothing is called. -/
theorem used_nothing {s : State} (h : s.app.wallet = none) (screens : Screen → Option Wallet) :
    Used s { s with screens := screens } screens := by
  refine ⟨rfl, rfl, rfl, rfl, rfl, ?_, rfl, rfl, rfl⟩
  rw [h]
  exact (Bool.or_false _).symm

theorem used_resetWallet (s : State) (env : Env) :
    Used s (s.perform env (WalletViewController.resetWallet.log (s.env env)))
      (Function.update s.screens .wallet s.app.wallet) := by
  obtain ⟨⟨r, w, bs, cs⟩, next, path, ok, closeCalls, closed, misused, screens, obs, listener⟩ := s
  cases w with
  | none => exact used_nothing rfl _
  | some w =>
    have hor : (misused || closed w.impl || closed w.impl || closed w.impl || closed w.impl) =
        (misused || closed w.impl) := by simp
    exact ⟨rfl, rfl, rfl, rfl, rfl, hor, rfl, rfl, rfl⟩

theorem used_initBlock (s : State) (b : Block) (env : Env) :
    Used s (s.perform env ((initBlock b).log (s.env env))) s.screens := by
  obtain ⟨⟨r, w, bs, cs⟩, next, path, ok, closeCalls, closed, misused, screens, obs, listener⟩ := s
  obtain ⟨recovering, height⟩ := b
  cases w with
  | none => exact used_nothing rfl _
  | some w =>
    have hor : (misused || closed w.impl || closed w.impl || closed w.impl) =
        (misused || closed w.impl) := by simp
    cases recovering with
    | false => exact ⟨rfl, rfl, rfl, rfl, rfl, rfl, rfl, rfl, rfl⟩
    | true => exact ⟨rfl, rfl, rfl, rfl, rfl, hor, rfl, rfl, rfl⟩

theorem used_history (s : State) (env : Env) :
    Used s (s.perform env (TransactionHistoryViewController.viewWillAppear.log (s.env env)))
      s.screens := by
  obtain ⟨⟨r, w, bs, cs⟩, next, path, ok, closeCalls, closed, misused, screens, obs, listener⟩ := s
  cases w with
  | none => exact used_nothing rfl _
  | some w => exact ⟨rfl, rfl, rfl, rfl, rfl, rfl, rfl, rfl, rfl⟩

/-! ## The invariant -/

section
variable {F : Type} {fileOf : String → F}

variable (fileOf) in
structure Inv (s : State) : Prop where
  balanced : Balanced fileOf s
  fresh : ∀ h, s.next ≤ h → s.closeCalls h = 0 ∧ s.closed h = false
  listens : ∀ h < s.next, s.listener h = true
  held : ∀ ref, ∀ w ∈ s.ref ref, w.impl < s.next

/-- The listener of a native wallet keeps its wrapper. -/
theorem Inv.refs_pos {s : State} (h : Inv fileOf s) {w : Wallet} (hw : w.impl < s.next) :
    0 < s.refs w := by
  have hl := h.listens w.impl hw
  simp only [State.refs, hl, if_true]
  omega

/-- References change hands: what is not given up stays, and what takes its
    place is new or held already.  No wallet is lost if and only if the old
    references were released. -/
theorem released_iff {s t : State} (h : Inv fileOf s) {refs : List Ref} (hle : s.next ≤ t.next)
    (hclosed : t.closed = s.closed) (hkeep : ∀ ref ∉ refs, t.ref ref = s.ref ref)
    (htake : ∀ ref ∈ refs, ∀ w ∈ t.ref ref, w.impl < s.next →
      ∃ ref' ∉ refs, s.ref ref' = some w)
    (hnew : ∀ k < t.next, s.next ≤ k → ∃ ref, t.ref ref = some ⟨k⟩) :
    (∀ k < t.next, (∃ ref, t.ref ref = some ⟨k⟩) ∨ t.closed k = true) ↔ s.Released refs := by
  rw [hclosed]
  constructor
  · intro hdrop ref href w hw
    have hlt := h.held ref w hw
    rcases hdrop w.impl (hlt.trans_le hle) with ⟨ref', href'⟩ | hc
    · by_cases hmem : ref' ∈ refs
      · exact .inl (htake ref' hmem w href' hlt)
      · exact .inl ⟨ref', hmem, (hkeep ref' hmem).symm.trans href'⟩
    · exact .inr hc
  · intro hreleased k hk
    by_cases hlt : k < s.next
    swap
    · exact .inl (hnew k hk (not_lt.1 hlt))
    rcases h.balanced.dropped k hlt with ⟨ref, href⟩ | hc
    · by_cases hmem : ref ∈ refs
      · rcases hreleased ref hmem ⟨k⟩ href with ⟨ref', hmem', href'⟩ | hc
        · exact .inl ⟨ref', (hkeep ref' hmem').trans href'⟩
        · exact .inr hc
      · exact .inl ⟨ref, (hkeep ref hmem).trans href⟩
    · exact .inr hc

/-- The handles open on a file: those before, and the new one if it is good. -/
theorem Opened.openOn_iff {s t : State} {o : Opening} {env : Env} (ht : Opened s o env t)
    (hnew : s.closed s.next = false) (file : F) (k : Handle) :
    t.OpenOn fileOf file k ↔ s.OpenOn fileOf file k ∨ k = s.next ∧ isOk env s.next = true ∧
      ((walletFile env.documents o.file).map cstr).map fileOf = some file := by
  simp only [State.OpenOn, ht.next, ht.ok, ht.closed, ht.path]
  by_cases hk : k = s.next
  · rw [hk]
    simp [hnew]
  · simp only [Function.update_of_ne hk, hk, false_and, or_false]
    constructor
    · rintro ⟨hlt, hrest⟩
      exact ⟨lt_of_le_of_ne (Nat.lt_succ_iff.1 hlt) hk, hrest⟩
    · rintro ⟨hlt, hrest⟩
      exact ⟨Nat.lt_succ_of_lt hlt, hrest⟩

/-- The references after an opening. -/
theorem Opened.ref_eq {s t : State} {o : Opening} {env : Env} (ht : Opened s o env t) (ref : Ref) :
    t.ref ref = if ref ∈ s.replaced then some ⟨s.next⟩ else s.ref ref := by
  have hobs := ht.screens
  rcases ref with _ | sc
  · rw [State.ref, ht.wallet, if_pos]
    unfold State.replaced
    split <;> simp
  · rw [State.ref, hobs, State.replaced, State.ref]
    by_cases ho : s.observing = true <;> by_cases hsc : sc = .wallet <;> simp [ho, hsc]

theorem Opened.dropped_iff {s t : State} {o : Opening} {env : Env} (h : Inv fileOf s)
    (ht : Opened s o env t) :
    (∀ k < t.next, (∃ ref, t.ref ref = some ⟨k⟩) ∨ t.closed k = true) ↔
      s.Released s.replaced := by
  refine released_iff h (ht.next ▸ Nat.le_succ _) ht.closed (fun ref href => ?_)
    (fun ref href w hw hlt => ?_) (fun k hk hle => ?_)
  · rw [ht.ref_eq, if_neg href]
  · rw [ht.ref_eq, if_pos href] at hw
    cases hw
    exact absurd hlt (lt_irrefl _)
  · rw [ht.next] at hk
    obtain rfl : k = s.next := Nat.le_antisymm (Nat.lt_succ_iff.1 hk) hle
    exact ⟨.current, ht.wallet⟩

theorem opened_balanced {s t : State} {o : Opening} {env : Env} (h : Inv fileOf s)
    (ht : Opened s o env t) : Balanced fileOf t ↔ s.Reopens fileOf o env := by
  have hnew := (h.fresh s.next (le_refl _)).2
  have hopen : ∀ file k, t.OpenOn fileOf file k ↔ s.OpenOn fileOf file k ∨
      k = s.next ∧ isOk env s.next = true ∧
        ((walletFile env.documents o.file).map cstr).map fileOf = some file :=
    fun file k => ht.openOn_iff hnew file k
  obtain ⟨honce, hunused, -, hone⟩ := h.balanced
  rw [State.Reopens, ← ht.dropped_iff h]
  constructor
  · rintro ⟨-, -, hdrop, hone'⟩
    refine ⟨hdrop, fun hgood path hp k hlt hok hk => ?_⟩
    by_contra hc
    -- an older handle is open on the file of the new one
    have hold : s.OpenOn fileOf (fileOf path) k := ⟨hlt, hok, by simpa using hc, hk⟩
    have heq := hone' (fileOf path) k s.next ((hopen _ k).2 (.inl hold))
      ((hopen _ _).2 (.inr ⟨rfl, hgood, by rw [hp]; rfl⟩))
    exact absurd hlt (by rw [heq]; exact lt_irrefl _)
  · rintro ⟨hdrop, hfile⟩
    refine ⟨by rw [ht.closeCalls]; exact honce, by rw [ht.misused, hunused, hnew]; rfl, hdrop, ?_⟩
    have hvacant : ∀ file k, isOk env s.next = true →
        ((walletFile env.documents o.file).map cstr).map fileOf = some file →
          ¬ s.OpenOn fileOf file k := by
      rintro file k hgood hp ⟨hlt, hok, hc, hk⟩
      obtain ⟨path, hpath, rfl⟩ := Option.map_eq_some_iff.1 hp
      rw [hfile hgood path hpath k hlt hok hk] at hc
      cases hc
    intro file k k' hk hk'
    rcases (hopen file k).1 hk with hk | ⟨hk, hgood, hp⟩ <;>
      rcases (hopen file k').1 hk' with hk' | ⟨hk', hgood', hp'⟩
    · exact hone file k k' hk hk'
    · exact absurd hk (hvacant file k hgood' hp')
    · exact absurd hk' (hvacant file k' hgood hp)
    · rw [hk, hk']

theorem Inv.opened {s t : State} {o : Opening} {env : Env} (h : Inv fileOf s)
    (ht : Opened s o env t) (hb : Balanced fileOf t) : Inv fileOf t := by
  refine ⟨hb, fun k hk => ?_, fun k hk => ?_, fun ref w hw => ?_⟩
  · rw [ht.next] at hk
    rw [ht.closeCalls, ht.closed]
    exact h.fresh k (Nat.le_of_succ_le hk)
  · rw [ht.next] at hk
    rw [ht.listener]
    by_cases hkn : k = s.next
    · simp [hkn]
    · rw [Function.update_of_ne hkn]
      exact h.listens k (lt_of_le_of_ne (Nat.lt_succ_iff.1 hk) hkn)
  · rw [ht.ref_eq] at hw
    rw [ht.next]
    split at hw
    · cases hw
      exact Nat.lt_succ_self _
    · exact Nat.lt_succ_of_lt (h.held ref w hw)

/-- A screen shows the wallet `v`, which is current, or none; everything else
    stays. -/
theorem shown_iff {s t : State} (h : Inv fileOf s) (sc : Screen) {v : Option Wallet}
    (hv : v = s.app.wallet ∨ v = none) (hnext : t.next = s.next) (hclosed : t.closed = s.closed)
    (hwallet : t.app.wallet = s.app.wallet)
    (hscreens : t.screens = Function.update s.screens sc v) :
    (∀ k < t.next, (∃ ref, t.ref ref = some ⟨k⟩) ∨ t.closed k = true) ↔
      s.Released [.screen sc] := by
  refine released_iff h hnext.ge hclosed (fun ref href => ?_) (fun ref href w hw _ => ?_)
    (fun k hk hle => absurd (hnext ▸ hk) (not_lt.2 hle))
  · rcases ref with _ | sc'
    · exact hwallet
    · rw [State.ref, hscreens, Function.update_of_ne fun he => href (by simp [he])]
      rfl
  · rw [List.mem_singleton.1 href, State.ref, hscreens, Function.update_self] at hw
    rcases hv with rfl | rfl
    · exact ⟨.current, by simp, hw⟩
    · cases hw

theorem held_shown {s t : State} (h : Inv fileOf s) {sc : Screen} {v : Option Wallet}
    (hv : v = s.app.wallet ∨ v = none) (hnext : t.next = s.next)
    (hwallet : t.app.wallet = s.app.wallet)
    (hscreens : t.screens = Function.update s.screens sc v) :
    ∀ ref, ∀ w ∈ t.ref ref, w.impl < t.next := by
  intro ref w hw
  rw [hnext]
  rcases ref with _ | sc'
  · exact h.held .current w (hwallet.symm.trans hw)
  · rw [State.ref, hscreens] at hw
    by_cases hsc : sc' = sc
    · rw [hsc, Function.update_self] at hw
      rcases hv with rfl | rfl
      · exact h.held .current w hw
      · cases hw
    · rw [Function.update_of_ne hsc] at hw
      exact h.held (.screen sc') w hw

/-- The current wallet is called. -/
theorem Used.usable_iff {s t : State} {screens : Screen → Option Wallet}
    (h : Inv fileOf s) (ht : Used s t screens) : t.misused = false ↔ s.Usable := by
  rw [ht.misused, h.balanced.unused, Bool.false_or, State.Usable]
  cases s.app.wallet <;> simp

/-- The current wallet is called, and a screen shows it. -/
theorem used_balanced {s t : State} {sc : Screen} (h : Inv fileOf s)
    (ht : Used s t (Function.update s.screens sc s.app.wallet)) :
    Balanced fileOf t ↔ s.Released [.screen sc] ∧ s.Usable := by
  have hdropped := shown_iff h sc (.inl rfl) ht.next ht.closed ht.wallet ht.screens
  have hopen : ∀ file k, t.OpenOn fileOf file k ↔ s.OpenOn fileOf file k := by
    intro file k
    simp only [State.OpenOn, ht.next, ht.ok, ht.closed, ht.path]
  rw [← ht.usable_iff h, ← hdropped]
  constructor
  · exact fun hb => ⟨hb.dropped, hb.unused⟩
  · rintro ⟨hdrop, hmis⟩
    exact ⟨by rw [ht.closeCalls]; exact h.balanced.once, hmis, hdrop,
      fun file k k' hk hk' =>
        h.balanced.one file k k' ((hopen file k).1 hk) ((hopen file k').1 hk')⟩

theorem Inv.used {s t : State} {sc : Screen} (h : Inv fileOf s)
    (ht : Used s t (Function.update s.screens sc s.app.wallet)) (hb : Balanced fileOf t) :
    Inv fileOf t := by
  refine ⟨hb, fun k hk => ?_, fun k hk => ?_,
    held_shown h (.inl rfl) ht.next ht.wallet ht.screens⟩
  · rw [ht.closeCalls, ht.closed]
    exact h.fresh k (ht.next ▸ hk)
  · rw [ht.listener]
    exact h.listens k (ht.next ▸ hk)

/-- The current wallet is called, and the screens stay. -/
theorem called_balanced {s t : State} (h : Inv fileOf s) (ht : Used s t s.screens) :
    (Balanced fileOf t ↔ s.Usable) ∧ (Balanced fileOf t → Inv fileOf t) := by
  have href : ∀ ref, t.ref ref = s.ref ref := by
    rintro (_ | sc)
    · exact ht.wallet
    · exact congrFun ht.screens sc
  have hopen : ∀ file k, t.OpenOn fileOf file k ↔ s.OpenOn fileOf file k := by
    intro file k
    simp only [State.OpenOn, ht.next, ht.ok, ht.closed, ht.path]
  rw [← ht.usable_iff h]
  refine ⟨⟨fun hb => hb.unused, fun hmis => ⟨?_, hmis, fun k hk => ?_, fun file k k' hk hk' => ?_⟩⟩,
    fun hb => ⟨hb, fun k hk => ?_, fun k hk => ?_, fun ref w hw => ?_⟩⟩
  · rw [ht.closeCalls]
    exact h.balanced.once
  · simp only [href, ht.closed]
    exact h.balanced.dropped k (ht.next ▸ hk)
  · exact h.balanced.one file k k' ((hopen file k).1 hk) ((hopen file k').1 hk')
  · rw [ht.closeCalls, ht.closed]
    exact h.fresh k (ht.next ▸ hk)
  · rw [ht.listener]
    exact h.listens k (ht.next ▸ hk)
  · rw [ht.next]
    exact h.held ref w (href ref ▸ hw)

/-- A screen shows the current wallet, or none. -/
theorem screens_balanced {s : State} (h : Inv fileOf s) (sc : Screen) {v : Option Wallet}
    (hv : v = s.app.wallet ∨ v = none) :
    let t : State := { s with screens := Function.update s.screens sc v }
    (Balanced fileOf t ↔ s.Released [.screen sc]) ∧ (Balanced fileOf t → Inv fileOf t) := by
  intro t
  have hdropped := shown_iff (t := t) h sc hv rfl rfl rfl rfl
  refine ⟨?_, fun hb => ⟨hb, h.fresh, h.listens, held_shown h hv rfl rfl rfl⟩⟩
  rw [← hdropped]
  exact ⟨fun hb => hb.dropped,
    fun hdrop => ⟨h.balanced.once, h.balanced.unused, hdrop, h.balanced.one⟩⟩

/-- Another `closeWallet` of a wallet is its first or one too many. -/
theorem close_balanced {s : State} (h : Inv fileOf s) {w : Wallet} (hw : w.impl < s.next)
    (env : Env) :
    let t := s.perform env ((WalletManager.closeWallet w).log (s.env env))
    (Balanced fileOf t ↔ s.closeCalls w.impl = 0) ∧ (Balanced fileOf t → Inv fileOf t) := by
  intro t
  have hcalls : t.closeCalls =
      Function.update s.closeCalls w.impl (s.closeCalls w.impl + 1) := rfl
  obtain ⟨success, hclosed⟩ : ∃ success : Bool, t.closed =
      Function.update s.closed w.impl (s.closed w.impl || success) := ⟨_, rfl⟩
  have hmono : ∀ k, s.closed k = true → t.closed k = true := by
    intro k hk
    rw [hclosed]
    by_cases hkw : k = w.impl
    · rw [hkw, Function.update_self, ← hkw, hk, Bool.true_or]
    · rw [Function.update_of_ne hkw, hk]
  have hfresh : ∀ k, t.next ≤ k → t.closeCalls k = 0 ∧ t.closed k = false := by
    intro k hk
    have hkw : k ≠ w.impl := fun he => absurd hw (not_lt.2 (he ▸ hk))
    rw [hcalls, hclosed, Function.update_of_ne hkw, Function.update_of_ne hkw]
    exact h.fresh k hk
  obtain ⟨honce, hunused, hdrop, hone⟩ := h.balanced
  refine ⟨⟨fun hb => ?_, fun hzero => ?_⟩, fun hb => ⟨hb, hfresh, h.listens, h.held⟩⟩
  · have hle := hb.once w.impl
    rw [hcalls, Function.update_self] at hle
    omega
  · refine ⟨fun k => ?_, hunused, fun k hk => ?_, fun file k k' hk hk' => ?_⟩
    · rw [hcalls]
      by_cases hkw : k = w.impl
      · rw [hkw, Function.update_self, hzero]
      · rw [Function.update_of_ne hkw]
        exact honce k
    · rcases hdrop k hk with href | hcl
      · exact .inl href
      · exact .inr (hmono k hcl)
    · have hopen : ∀ k, t.OpenOn fileOf file k → s.OpenOn fileOf file k := by
        rintro k ⟨hlt, hok, hcl, hp⟩
        refine ⟨hlt, hok, ?_, hp⟩
        cases hcs : s.closed k with
        | false => rfl
        | true => rw [hmono k hcs] at hcl; cases hcl
      exact hone file k k' (hopen k hk) (hopen k' hk')

/-- **What one event does**: it keeps handles balanced if and only if it meets
    its condition. -/
theorem step_balanced {s : State} (h : Inv fileOf s) (e : Event) :
    (Balanced fileOf (step s e) ↔ Tidy fileOf s e) ∧
      (Balanced fileOf (step s e) → Inv fileOf (step s e)) := by
  cases e with
  | opening o env =>
    have ho := perform_opening s o env
    exact ⟨opened_balanced h ho, h.opened ho⟩
  | mainAppears env =>
    simp only [step, (openSavedWallet_eq _).2, Tidy]
    rcases saved (s.env env) with _ | o
    · exact ⟨by simpa [State.perform] using h.balanced, fun _ => h⟩
    · have ho := perform_opening s o env
      exact ⟨by simpa using opened_balanced h ho, h.opened ho⟩
  | appears sc env =>
    cases sc with
    | wallet =>
      have hu := used_resetWallet s env
      have hu' : Used s (step s (.appears .wallet env))
          (Function.update s.screens .wallet s.app.wallet) :=
        ⟨hu.1, hu.2, hu.3, hu.4, hu.5, hu.6, hu.7, hu.8, hu.9⟩
      exact ⟨used_balanced h hu', h.used hu'⟩
    | history =>
      have hu := used_history s env
      rcases hw : s.app.wallet with _ | w
      · have hwal : (s.env env).wallet = none := hw
        have hstep : step s (.appears .history env) = s := by
          simp [step, TransactionHistoryViewController.viewWillAppear, hwal, State.perform]
        rw [hstep]
        exact ⟨by simpa [Tidy, hw] using h.balanced, fun _ => h⟩
      · have hu' : Used s (step s (.appears .history env))
            (Function.update s.screens .history s.app.wallet) := by
          have hwal : (s.env env).wallet = some w := hw
          have hstep : step s (.appears .history env) =
              { s.perform env (TransactionHistoryViewController.viewWillAppear.log (s.env env)) with
                screens := Function.update (s.perform env
                  (TransactionHistoryViewController.viewWillAppear.log (s.env env))).screens
                    .history (some w) } := by
            simp only [step, TransactionHistoryViewController.val_viewWillAppear, hwal,
              Option.map_some]
          rw [hstep, hw]
          exact ⟨hu.1, hu.2, hu.3, hu.4, hu.5, hu.6, hu.7, by rw [hu.screens], hu.9⟩
        refine ⟨?_, h.used hu'⟩
        rw [used_balanced h hu']
        simp [Tidy, hw]
    | create => exact screens_balanced h _ (.inl rfl)
    | confirm => exact screens_balanced h _ (.inl rfl)
  | disappears =>
    have hb : Balanced fileOf (step s .disappears) :=
      ⟨h.balanced.once, h.balanced.unused, h.balanced.dropped, h.balanced.one⟩
    exact ⟨iff_of_true hb trivial, fun hb => ⟨hb, h.fresh, h.listens, h.held⟩⟩
  | drops sc =>
    cases sc <;> exact screens_balanced h _ (.inr rfl)
  | block i env =>
    simp only [step, Tidy]
    rcases hb : s.app.blocks[i]? with _ | b
    · have hlt : ¬ i < s.app.blocks.length := not_lt.2 (List.getElem?_eq_none_iff.1 hb)
      exact ⟨iff_of_true h.balanced fun hi => absurd hi hlt, fun _ => h⟩
    · have hu := used_initBlock (s.queue (s.app.blocks.eraseIdx i)) b env
      obtain ⟨hiff, hinv⟩ := called_balanced (t := (s.queue (s.app.blocks.eraseIdx i)).perform env
        ((initBlock b).log ((s.queue (s.app.blocks.eraseIdx i)).env env))) h
        ⟨hu.1, hu.2, hu.3, hu.4, hu.5, hu.6, hu.7, hu.8, hu.9⟩
      obtain ⟨hlt, -⟩ := List.getElem?_eq_some_iff.1 hb
      exact ⟨hiff.trans ⟨fun hu _ => hu, fun hu => hu hlt⟩, hinv⟩
  | close w env =>
    simp only [step, Tidy]
    split
    · rename_i hw
      obtain ⟨hiff, hinv⟩ := close_balanced h hw env
      exact ⟨by rw [hiff]; simp [hw], hinv⟩
    · rename_i hw
      exact ⟨by simpa [hw] using h.balanced, fun _ => h⟩
  | release w env =>
    have hno : ¬ (w.impl < s.next ∧ s.refs w = 0) := by
      rintro ⟨hw, hr⟩
      exact (h.refs_pos hw).ne' hr
    simp only [step, if_neg hno]
    exact ⟨iff_of_true h.balanced trivial, fun _ => h⟩

end

/-- **When handles are opened and closed one for one.** -/
theorem balanced_iff {F : Type} (fileOf : String → F) (r : Record) (es : List Event) :
    Runs.Always step (Balanced fileOf) (start r) es ↔
      Runs.Guarded step (Tidy fileOf) (start r) es := by
  have hstart : Inv fileOf (start r) := by
    refine ⟨⟨fun _ => Nat.zero_le 1, rfl, ?_, ?_⟩, fun _ _ => ⟨rfl, rfl⟩, ?_, ?_⟩
    · exact fun h hlt => absurd hlt (Nat.not_lt_zero h)
    · exact fun _ h _ hopen => absurd hopen.1 (Nat.not_lt_zero h)
    · exact fun h hlt => absurd hlt (Nat.not_lt_zero h)
    · rintro (_ | sc) w hw <;> cases hw
  refine Runs.always_iff_guarded (Inv fileOf) (fun _ h => h.balanced) ?_ ?_ hstart
  · exact fun s e h ht => (step_balanced h e).2 ((step_balanced h e).1.2 ht)
  · exact fun s e h hb => (step_balanced h e).1.1 hb

/-- The main screen appears twice: the first handle is replaced and not closed,
    and both are open on the saved file. -/
theorem main_appears_twice :
    let r := Record.of "a.dat" "secret" false 0
    let s := Runs.run step (start r) [.mainAppears default, .mainAppears default]
    ¬ Balanced id s ∧ s.OpenOn id "/Documents/a.dat" 0 ∧ s.OpenOn id "/Documents/a.dat" 1 ∧
      s.closeCalls 0 = 0 := by
  intro r s
  have hopen : s.OpenOn id "/Documents/a.dat" 0 ∧ s.OpenOn id "/Documents/a.dat" 1 := by decide
  refine ⟨fun hb => ?_, hopen.1, hopen.2, by decide⟩
  exact absurd (hb.one _ 0 1 hopen.1 hopen.2) (by decide)

end Handles

end Monujo
