/-
  The screens of the login, `MainViewController.swift` that presents them, and
  the saving in `AppDelegate.swift`.

  Three screens create, open and recover a wallet from the texts of their
  fields.  Each returns to the main screen when its operation returns a wallet.
-/
import Monujo.Model.Swift
import Monujo.Model.WalletStore

namespace Monujo

open WalletStore

/-! ## The screens -/

/-- `CreateViewController.generateClicked`: whether the screen is dismissed. -/
def CreateViewController.generateClicked (walletNameTF passwordTF languageTV : Option String) :
    AppCode Bool := do
  match walletNameTF with
  | none => return false
  | some walletName =>
    if walletName = "" then
      return false
    let wallet ← createWallet walletName (passwordTF.getD "") (languageTV.getD "")
    return wallet.isSome

/-- `OpenWalletViewController.generateClicked`. -/
def OpenWalletViewController.generateClicked (walletNameTF passwordTF : Option String) :
    AppCode Bool := do
  match walletNameTF with
  | none => return false
  | some walletName =>
    if walletName = "" then
      return false
    let wallet ← openWallet walletName (passwordTF.getD "")
    return wallet.isSome

/-- `RecoverWalletViewController.generateClicked`. -/
def RecoverWalletViewController.generateClicked
    (walletNameTF memoTV initialHeightTF : Option String) : AppCode Bool := do
  match walletNameTF, memoTV with
  | some walletName, some memo =>
    if walletName = "" ∨ memo = "" then
      return false
    let restoreHeight := (UInt64.parse (initialHeightTF.getD "0")).getD 0
    let wallet ← recoverWallet walletName memo restoreHeight
    return wallet.isSome
  | _, _ => return false

/-- `MainViewController.viewWillAppear`: whether it performs "LoginSegue". -/
def MainViewController.viewWillAppear : AppCode Bool := do
  match ← openSavedWallet with
  | some _ => return false
  | none => return true

/-- `AppDelegate.applicationDidEnterBackground`. -/
def AppDelegate.applicationDidEnterBackground : AppCode PUnit := save

/-! ## What the screens ask for -/

/-- A login screen with the texts of its fields. -/
inductive LoginForm where
  | create (walletNameTF passwordTF languageTV : Option String)
  | open (walletNameTF passwordTF : Option String)
  | recover (walletNameTF memoTV initialHeightTF : Option String)
  deriving DecidableEq

namespace LoginForm

def generateClicked : LoginForm → AppCode Bool
  | create n p l => CreateViewController.generateClicked n p l
  | .open n p => OpenWalletViewController.generateClicked n p
  | recover n m h => RecoverWalletViewController.generateClicked n m h

/-- The text of a field that is filled in. -/
def filled (text : Option String) : Option String := text.filter (· ≠ "")

@[simp] theorem filled_none : filled none = none := rfl

@[simp] theorem filled_empty : filled (some "") = none := rfl

@[simp] theorem filled_of_ne {s : String} (h : s ≠ "") : filled (some s) = some s := by
  simp [filled, Option.filter, h]

/-- The operation the form asks for, if its guards pass. -/
def opening? : LoginForm → Option Opening
  | create n p l => (filled n).map fun name => .create name (p.getD "") (l.getD "")
  | .open n p => (filled n).map fun name => .open name (p.getD "") false 0
  | recover n m h => (filled n).bind fun name => (filled m).map fun memo =>
      .recover name memo ((UInt64.parse (h.getD "0")).getD 0)

/-- **The three screens in one line**: a form does what it asks for, and is
    dismissed exactly when it asks for something. -/
theorem generateClicked_eq (f : LoginForm) (env : Env) :
    f.generateClicked.val env = f.opening?.isSome ∧
      f.generateClicked.log env = f.opening?.elim [] (·.code.log env) := by
  cases f with
  | create n p l =>
    rcases n with _ | name
    · exact ⟨rfl, rfl⟩
    by_cases hname : name = ""
    · subst hname
      exact ⟨rfl, rfl⟩
    simp only [opening?, filled_of_ne hname, generateClicked, CreateViewController.generateClicked,
      if_neg hname]
    exact ⟨rfl, List.append_nil _⟩
  | «open» n p =>
    rcases n with _ | name
    · exact ⟨rfl, rfl⟩
    by_cases hname : name = ""
    · subst hname
      exact ⟨rfl, rfl⟩
    simp only [opening?, filled_of_ne hname, generateClicked,
      OpenWalletViewController.generateClicked, if_neg hname]
    exact ⟨rfl, List.append_nil _⟩
  | recover n m h =>
    rcases n with _ | name
    · exact ⟨rfl, rfl⟩
    by_cases hname : name = ""
    · subst hname
      cases m <;> exact ⟨rfl, rfl⟩
    rcases m with _ | memo
    · simp only [opening?, filled_of_ne hname]
      exact ⟨rfl, rfl⟩
    by_cases hmemo : memo = ""
    · subst hmemo
      simp only [opening?, filled_of_ne hname, generateClicked,
        RecoverWalletViewController.generateClicked, or_true, if_true]
      exact ⟨rfl, rfl⟩
    have hne : ¬ (name = "" ∨ memo = "") := not_or.2 ⟨hname, hmemo⟩
    simp only [opening?, filled_of_ne hname, filled_of_ne hmemo, generateClicked,
      RecoverWalletViewController.generateClicked, if_neg hne]
    exact ⟨rfl, List.append_nil _⟩

end LoginForm

/-- The main screen reopens the saved wallet, or presents the login. -/
theorem MainViewController.viewWillAppear_eq (env : Env) :
    viewWillAppear.val env = (saved env).isNone ∧
      viewWillAppear.log env = (saved env).elim [] (·.code.log env) := by
  obtain ⟨hval, hlog⟩ := openSavedWallet_eq env
  rw [viewWillAppear, Code.val_bind, Code.log_bind, hval, hlog]
  rcases saved env with _ | o
  · exact ⟨rfl, rfl⟩
  · rw [Option.elim_some, Option.elim_some, o.val_code]
    exact ⟨rfl, List.append_nil _⟩

end Monujo
