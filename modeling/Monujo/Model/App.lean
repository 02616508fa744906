/-
  The state of the app and the effects of its code.

  The session record is what outlives the process: three values of
  `UserDefaults` and the keychain entry "password".  `App` adds what lives in
  the process: `WalletStore.wallet`, the blocks dispatched to the background
  queue, and the calls made to the native library.

  Every function of the app is `Code`: it reads an `Env` and performs
  `Effect`s.
-/
import Mathlib.Data.Finset.Insert
import Mathlib.Data.Fintype.Defs
import Monujo.Lib.Code
import Monujo.Lib.KeyStore
import Monujo.Lib.Runs
import Monujo.Model.Native

namespace Monujo

open Monero

/-! ## The session record -/

/-- `WalletStore.walletFileKey`, `isRecoveringKey`, `restoreHeightKey`, and the
    keychain entry "password". -/
inductive Key where
  | walletFile | isRecovering | restoreHeight | password
  deriving DecidableEq

instance : Fintype Key where
  elems := {Key.walletFile, Key.isRecovering, Key.restoreHeight, Key.password}
  complete k := by cases k <;> decide

/-- What is stored under a key. -/
abbrev Key.Val : Key → Type
  | .walletFile => String
  | .isRecovering => Bool
  | .restoreHeight => UInt64
  | .password => String

instance : ∀ k, DecidableEq (Key.Val k)
  | .walletFile => inferInstanceAs (DecidableEq String)
  | .isRecovering => inferInstanceAs (DecidableEq Bool)
  | .restoreHeight => inferInstanceAs (DecidableEq UInt64)
  | .password => inferInstanceAs (DecidableEq String)

/-- The session record. -/
abbrev Record := Store Key.Val

instance : DecidableEq Record := inferInstanceAs (DecidableEq (∀ k, Option (Key.Val k)))

namespace Record

/-- The record of a wallet file with its password, flag and height. -/
def of (walletFile password : String) (isRecovering : Bool) (restoreHeight : UInt64) : Record
  | .walletFile => some walletFile
  | .isRecovering => some isRecovering
  | .restoreHeight => some restoreHeight
  | .password => some password

variable (r : Record)

/-- `defaults.bool(forKey: isRecoveringKey)`: a missing value reads as false. -/
def isRecovering : Bool := (r .isRecovering).getD false

/-- `(defaults.object(forKey: restoreHeightKey) as? NSNumber)?.uint64Value ?? 0`. -/
def restoreHeight : UInt64 := (r .restoreHeight).getD 0

@[simp] theorem isRecovering_set_restoreHeight (h : Option UInt64) :
    isRecovering (r.set ⟨.restoreHeight, h⟩) = r.isRecovering := by simp [isRecovering]

@[simp] theorem restoreHeight_set_restoreHeight (h : UInt64) :
    restoreHeight (r.set ⟨.restoreHeight, some h⟩) = h := by simp [restoreHeight]

@[simp] theorem isRecovering_set_isRecovering (b : Option Bool) :
    isRecovering (r.set ⟨.isRecovering, b⟩) = b.getD false := by simp [isRecovering]

@[simp] theorem restoreHeight_set_isRecovering (b : Option Bool) :
    restoreHeight (r.set ⟨.isRecovering, b⟩) = r.restoreHeight := by simp [restoreHeight]

/-- The two records read the same: where the flag or the height is missing, it
    reads as false and as 0. -/
structure ReadsSame (r r' : Record) : Prop where
  walletFile : r' .walletFile = r .walletFile
  isRecovering : r'.isRecovering = r.isRecovering
  restoreHeight : r'.restoreHeight = r.restoreHeight
  password : r' .password = r .password

theorem ReadsSame.equivalence : Equivalence ReadsSame where
  refl _ := ⟨rfl, rfl, rfl, rfl⟩
  symm h := ⟨h.1.symm, h.2.symm, h.3.symm, h.4.symm⟩
  trans h h' := ⟨h'.1.trans h.1, h'.2.trans h.2, h'.3.trans h.3, h'.4.trans h.4⟩

end Record

/-! ## Effects -/

/-- The Objective-C class `Wallet`: a wrapper of one native wallet. -/
structure Wallet where
  impl : Handle
  deriving DecidableEq

/-- The block `initWallet` dispatches; it captures two of its arguments. -/
structure Block where
  recovering : Bool
  restoreHeight : UInt64
  deriving DecidableEq

/-- What a block on the main queue redraws. -/
inductive Redraw where
  | balance | blockHeights
  deriving DecidableEq

/-- What code does to the world. -/
inductive Effect where
  /-- A call of the native library, with its answer. -/
  | call (c : Call) (a : c.Ans)
  /-- A write of `UserDefaults` or of the keychain. -/
  | write (w : Write Key.Val)
  /-- `WalletStore.wallet = w`, whose `didSet` posts `walletInittedNotification`. -/
  | assign (w : Wallet)
  /-- `DispatchQueue.global(qos: .background).async`. -/
  | background (b : Block)
  /-- `DispatchQueue.main.async`, of a block that redraws labels. -/
  | main (rs : List Redraw)
  /-- `lastTimeRefreshed = t` in `WalletViewController`. -/
  | refreshedAt (t : Rat)
  /-- `self.wallet = w` in `WalletViewController`. -/
  | show (w : Option Wallet)
  /-- `w.delegate = self` in `WalletViewController`. -/
  | setDelegate (w : Wallet)

/-- What code reads. -/
structure Env where
  answers : Answers
  /-- The first document directory of the app, if it has one. -/
  documents : Option String
  /-- `FileManager.fileExists(atPath:)`. -/
  fileExists : String → Bool
  record : Record
  /-- `WalletStore.wallet`. -/
  wallet : Option Wallet
  /-- The wallet's `delegate` is set. -/
  delegate : Wallet → Bool
  /-- `CFAbsoluteTimeGetCurrent()`. -/
  now : Rat
  /-- `WalletViewController.lastTimeRefreshed`. -/
  lastTimeRefreshed : Rat

instance : Inhabited Env where
  default :=
    { answers := fun _ => default
      documents := some "/Documents"
      fileExists := fun _ => true
      record := fun _ => none
      wallet := none
      delegate := fun _ => false
      now := 0
      lastTimeRefreshed := 0 }

/-- Code of the app. -/
abbrev AppCode := Code Env Effect

/-- A call of the native library. -/
def call (c : Call) : AppCode c.Ans := do
  let env ← Code.ask
  Code.emit (.call c (env.answers c))
  return env.answers c

@[simp] theorem val_call (c : Call) (env : Env) : (call c).val env = env.answers c := rfl

@[simp] theorem log_call (c : Call) (env : Env) :
    (call c).log env = [.call c (env.answers c)] := rfl

theorem emits_call {P : Effect → Prop} {c : Call} {env : Env} (h : P (.call c (env.answers c))) :
    (call c).Emits P env := fun _ he => List.mem_singleton.1 he ▸ h

/-- The native call an effect is, if it is one. -/
@[simp] def Effect.call? : Effect → Option Call
  | .call c _ => some c
  | _ => none

/-- The persistent write an effect is, if it is one. -/
@[simp] def Effect.write? : Effect → Option (Write Key.Val)
  | .write w => some w
  | _ => none

/-- The wallet an effect makes current, if it makes one. -/
@[simp] def Effect.assign? : Effect → Option Wallet
  | .assign w => some w
  | _ => none

/-- The block an effect dispatches to the background queue, if it does. -/
@[simp] def Effect.background? : Effect → Option Block
  | .background b => some b
  | _ => none

/-- The native calls among effects, in order. -/
def callsOf (es : List Effect) : List Call := es.filterMap Effect.call?

/-- The persistent writes among effects, in order. -/
def writesOf (es : List Effect) : List (Write Key.Val) := es.filterMap Effect.write?

@[simp] theorem callsOf_nil : callsOf [] = [] := rfl

@[simp] theorem callsOf_cons (e : Effect) (es : List Effect) :
    callsOf (e :: es) = e.call?.toList ++ callsOf es := by
  cases e <;> rfl

@[simp] theorem callsOf_append (es fs : List Effect) :
    callsOf (es ++ fs) = callsOf es ++ callsOf fs := List.filterMap_append

@[simp] theorem writesOf_nil : writesOf [] = [] := rfl

@[simp] theorem writesOf_cons (e : Effect) (es : List Effect) :
    writesOf (e :: es) = e.write?.toList ++ writesOf es := by
  cases e <;> rfl

@[simp] theorem writesOf_append (es fs : List Effect) :
    writesOf (es ++ fs) = writesOf es ++ writesOf fs := List.filterMap_append

/-! ## The state -/

/-- The app: its session record, and what lives in its process. -/
structure App where
  record : Record
  /-- `WalletStore.wallet`. -/
  wallet : Option Wallet
  /-- The blocks dispatched to the background queue so far. -/
  blocks : List Block
  /-- The native calls made so far. -/
  calls : List Call

namespace App

/-- The environment as code sees it in the state `s`. -/
def env (s : App) (env : Env) : Env := { env with record := s.record, wallet := s.wallet }

/-- What one effect does. -/
def apply (s : App) : Effect → App
  | .call c _ => { s with calls := s.calls ++ [c] }
  | .write w => { s with record := s.record.set w }
  | .assign w => { s with wallet := some w }
  | .background b => { s with blocks := s.blocks ++ [b] }
  | .main _ | .refreshedAt _ | .show _ | .setDelegate _ => s

/-- The effects `es`, in order. -/
def perform (s : App) (es : List Effect) : App := Runs.run apply s es

@[simp] theorem perform_nil (s : App) : s.perform [] = s := rfl

@[simp] theorem perform_cons (s : App) (e : Effect) (es : List Effect) :
    s.perform (e :: es) = (s.apply e).perform es := rfl

/-- The record after some effects is the record after their writes. -/
theorem record_perform (s : App) (es : List Effect) :
    (s.perform es).record = s.record.put (writesOf es) := by
  induction es generalizing s with
  | nil => rfl
  | cons e es ih => cases e <;> simp [ih, apply]

/-- The wallet after some effects is the one assigned last. -/
theorem wallet_perform (s : App) (es : List Effect) :
    (s.perform es).wallet = (es.filterMap Effect.assign?).getLast?.or s.wallet := by
  induction es using List.reverseRecOn with
  | nil => rfl
  | append_singleton es e ih =>
    rw [perform, Runs.run_concat, ← perform, List.filterMap_append]
    cases e with
    | assign w => simp [apply]
    | call | write | background | main | refreshedAt | «show» | setDelegate =>
      exact ih.trans (by simp)

/-- The blocks after some effects are those before and those dispatched. -/
theorem blocks_perform (s : App) (es : List Effect) :
    (s.perform es).blocks = s.blocks ++ es.filterMap Effect.background? := by
  induction es generalizing s with
  | nil => exact (List.append_nil _).symm
  | cons e es ih => cases e <;> simp [ih, apply, List.filterMap_cons]

/-- The calls after some effects are those before and those among the effects. -/
theorem calls_perform (s : App) (es : List Effect) :
    (s.perform es).calls = s.calls ++ callsOf es := by
  induction es generalizing s with
  | nil => simp [callsOf]
  | cons e es ih => cases e <;> simp [ih, apply]

end App

end Monujo
