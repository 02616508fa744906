/-
  `WalletStore.swift`: making a wallet current, reopening the saved one, and
  saving.
-/
import Monujo.Model.Bridge

namespace Monujo

open Monero

/-- A write of `UserDefaults` or of the keychain. -/
def put (k : Key) (v : k.Val) : AppCode PUnit := Code.emit (.write ⟨k, some v⟩)

/-- `UserDefaults.removeObject(forKey:)`. -/
def removeObject (k : Key) : AppCode PUnit := Code.emit (.write ⟨k, none⟩)

namespace WalletStore

def daemonURL : String := "http://kiki:18081"

def testNet : Bool := false

def defaultFilename : String := "wallet.dat"

/-- `walletFile(filename:)`, given the first document directory. -/
def walletFile (documents : Option String) (filename : String := defaultFilename) :
    Option String :=
  documents.map fun dir => dir ++ "/" ++ filename

/-- The block dispatched by `initWallet`: it looks `WalletStore.wallet` up when
    it runs. -/
def initBlock (b : Block) : AppCode Unit := do
  let env ← Code.ask
  match env.wallet with
  | some wallet => wallet.initWalletAsync daemonURL 0 b.recovering b.restoreHeight
  | none => return

def initWallet (wallet : Wallet) (walletFile : String) (recovering : Bool := false)
    (restoreHeight : UInt64 := 0) : AppCode PUnit := do
  put .walletFile walletFile
  put .isRecovering recovering
  put .restoreHeight restoreHeight
  Code.emit (.assign wallet)
  Code.emit (.background ⟨recovering, restoreHeight⟩)

def createWallet (walletFile password language : String) : AppCode (Option Wallet) := do
  let env ← Code.ask
  let walletPath := WalletStore.walletFile env.documents walletFile
  let some wallet ← WalletManager.createWallet walletPath password language testNet
    | return none
  put .password password
  initWallet wallet walletFile
  return some wallet

def openWallet (walletFile : String) (password : String := "") (isRecovering : Bool := false)
    (restoreHeight : UInt64 := 0) : AppCode (Option Wallet) := do
  let env ← Code.ask
  let walletPath := WalletStore.walletFile env.documents walletFile
  let some wallet ← WalletManager.openWallet walletPath password testNet
    | return none
  put .password password
  initWallet wallet walletFile isRecovering restoreHeight
  return some wallet

def recoverWallet (walletFile : String) (memo : String := "") (restoreHeight : UInt64 := 0) :
    AppCode (Option Wallet) := do
  let env ← Code.ask
  let walletPath := WalletStore.walletFile env.documents walletFile
  let some wallet ← WalletManager.recoveryWallet walletPath memo restoreHeight testNet
    | return none
  initWallet wallet walletFile true restoreHeight
  return some wallet

def savedWalletExists : AppCode Bool := do
  let env ← Code.ask
  match env.record .walletFile with
  | none => return false
  | some walletFile =>
    match WalletStore.walletFile env.documents walletFile with
    | none => return false
    | some walletPath => return env.fileExists walletPath

def openSavedWallet : AppCode (Option Wallet) := do
  let env ← Code.ask
  match env.record .walletFile with
  | none => return none
  | some walletFile =>
    if ← savedWalletExists then
      match env.record .password with
      | none => return none
      | some password =>
        openWallet walletFile password env.record.isRecovering env.record.restoreHeight
    else return none

def save : AppCode PUnit := do
  let env ← Code.ask
  match env.wallet with
  | none => return
  | some wallet =>
    put .restoreHeight (← wallet.blockChainHeight)
    let _ ← wallet.store

/-! ## What the operations do

The three operations that make a wallet current call the library, wrap the
wallet it returns, and record it; they differ in the call and in what they
record.
-/

/-- A call of one of the operations that make a wallet current. -/
inductive Opening where
  | create (walletFile password language : String)
  | open (walletFile password : String) (isRecovering : Bool) (restoreHeight : UInt64)
  | recover (walletFile memo : String) (restoreHeight : UInt64)
  deriving DecidableEq

namespace Opening

def code : Opening → AppCode (Option Wallet)
  | create f p l => createWallet f p l
  | .open f p r h => openWallet f p r h
  | recover f m h => recoverWallet f m h

/-- The wallet file it names. -/
def file : Opening → String
  | create f _ _ | .open f _ _ _ | recover f _ _ => f

/-- The password it leaves in the keychain, if it writes one. -/
def password : Opening → Option String
  | create _ p _ | .open _ p _ _ => some p
  | recover .. => none

/-- The flag and the height it records and dispatches. -/
def block : Opening → Block
  | create .. => ⟨false, 0⟩
  | .open _ _ r h => ⟨r, h⟩
  | recover _ _ h => ⟨true, h⟩

/-- The call of the library. -/
def request (documents : Option String) : Opening → ManagerCall
  | create f p l =>
    .createWallet ((walletFile documents f).map cstr) (cstr p) (cstr l) testNet
  | .open f p _ _ => .openWallet ((walletFile documents f).map cstr) (cstr p) testNet
  | recover f m h => .recoveryWallet ((walletFile documents f).map cstr) (cstr m) testNet h

/-- The native wallet the library returns. -/
def handle (env : Env) : Opening → Handle
  | create f p l => env.answers (.manager ((create f p l).request env.documents))
  | .open f p r h => env.answers (.manager ((Opening.open f p r h).request env.documents))
  | recover f m h => env.answers (.manager ((recover f m h).request env.documents))

/-- The effects up to and including the wrapping of the native wallet. -/
def native (env : Env) (o : Opening) : List Effect :=
  let h := o.handle env
  .call (.manager (o.request env.documents)) (env.answers _) ::
    [.call (.wallet h .history) (env.answers _), .call (.wallet h (.setListener h)) (env.answers _)]

/-- The persistent writes. -/
def writes (o : Opening) : List (Write Key.Val) :=
  (o.password.map fun p => ⟨Key.password, some p⟩).toList ++
    [⟨.walletFile, some o.file⟩, ⟨.isRecovering, some o.block.recovering⟩,
      ⟨.restoreHeight, some o.block.restoreHeight⟩]

/-- **The operations in one line**: they return the wrapper of the wallet the
    library returned, whatever its status, -/
theorem val_code (o : Opening) (env : Env) : o.code.val env = some ⟨o.handle env⟩ := by
  cases o <;> rfl

/-- and record it. -/
theorem log_code (o : Opening) (env : Env) :
    o.code.log env = o.native env ++ o.writes.map Effect.write ++
      [.assign ⟨o.handle env⟩, .background o.block] := by
  cases o <;> rfl

theorem writesOf_native (o : Opening) (env : Env) : writesOf (o.native env) = [] := rfl

theorem writesOf_map_write (ws : List (Write Key.Val)) : writesOf (ws.map Effect.write) = ws := by
  induction ws with
  | nil => rfl
  | cons w ws ih => simp [ih]

theorem writesOf_log (o : Opening) (env : Env) : writesOf (o.code.log env) = o.writes := by
  rw [log_code, writesOf_append, writesOf_append, writesOf_native, writesOf_map_write]
  simp

theorem callsOf_log (o : Opening) (env : Env) :
    callsOf (o.code.log env) = [.manager (o.request env.documents), .wallet (o.handle env) .history,
      .wallet (o.handle env) (.setListener (o.handle env))] := by
  cases o <;> rfl

/-- It makes one wallet current, and dispatches one block. -/
theorem assigns_log (o : Opening) (env : Env) :
    (o.code.log env).filterMap Effect.assign? = [⟨o.handle env⟩] := by
  cases o <;> rfl

theorem backgrounds_log (o : Opening) (env : Env) :
    (o.code.log env).filterMap Effect.background? = [o.block] := by
  cases o <;> rfl

theorem record_perform (o : Opening) (env : Env) (s : App) :
    (s.perform (o.code.log env)).record = s.record.put o.writes := by
  rw [App.record_perform, writesOf_log]

theorem blocks_perform (o : Opening) (env : Env) (s : App) :
    (s.perform (o.code.log env)).blocks = s.blocks ++ [o.block] := by
  cases o <;> rfl

theorem nodup_writes (o : Opening) : (o.writes.map Write.key).Nodup := by
  cases o <;> simp [writes, password]

end Opening

/-- `openSavedWallet` reopens exactly what the record names: it is the call of
    `openWallet` on the saved file, password, flag and height. -/
def saved (env : Env) : Option Opening :=
  match env.record .walletFile, env.record .password with
  | some f, some p =>
    if ((walletFile env.documents f).map env.fileExists).getD false then
      some (.open f p env.record.isRecovering env.record.restoreHeight)
    else none
  | _, _ => none

/-- What `openSavedWallet` opens is what the record says. -/
theorem saved_some {e : Env} {o : Opening} (h : saved e = some o) :
    ∃ f p, e.record .walletFile = some f ∧ e.record .password = some p ∧
      o = .open f p e.record.isRecovering e.record.restoreHeight := by
  unfold saved at h
  split at h
  · rename_i f p hf hp
    split at h
    · exact ⟨f, p, hf, hp, (Option.some.inj h).symm⟩
    · cases h
  · cases h

/-- Reopening the saved wallet writes back what the record says. -/
theorem readsSame_saved {e : Env} {o : Opening} (h : saved e = some o) {ws : List (Write Key.Val)}
    (hws : ws ⊆ o.writes) : Record.ReadsSame e.record (e.record.put ws) := by
  obtain ⟨f, p, hf, hp, rfl⟩ := saved_some h
  have hset : ∀ r : Record, ∀ w ∈ ws, Record.ReadsSame e.record r →
      Record.ReadsSame e.record (r.set w) := by
    rintro r w hw ⟨hfile, hrec, hheight, hpass⟩
    have hw' := hws hw
    simp only [Opening.writes, Opening.password, Opening.file, Opening.block, Option.map_some,
      Option.toList_some, List.cons_append, List.nil_append, List.mem_cons, List.not_mem_nil,
      or_false] at hw'
    rcases hw' with rfl | rfl | rfl | rfl
    · exact ⟨by simpa using hfile, by simpa [Record.isRecovering] using hrec,
        by simpa [Record.restoreHeight] using hheight, by simp [hp]⟩
    · exact ⟨by simp [hf], by simpa [Record.isRecovering] using hrec,
        by simpa [Record.restoreHeight] using hheight, by simpa using hpass⟩
    · exact ⟨by simpa using hfile, by simp, by simpa using hheight, by simpa using hpass⟩
    · exact ⟨by simpa using hfile, by simpa using hrec, Record.restoreHeight_set_restoreHeight _ _,
        by simpa using hpass⟩
  exact Runs.run_keeps Store.set
    (R := fun r r' => Record.ReadsSame e.record r → Record.ReadsSame e.record r')
    (fun _ h => h) (fun _ _ _ h h' hr => h' (h hr)) hset e.record
    (Record.ReadsSame.equivalence.refl _)

theorem openSavedWallet_eq (env : Env) :
    openSavedWallet.val env = (saved env).elim none (·.code.val env) ∧
      openSavedWallet.log env = (saved env).elim [] (·.code.log env) := by
  unfold saved openSavedWallet savedWalletExists
  cases hf : env.record .walletFile with
  | none => simp [hf]
  | some f =>
    cases hd : walletFile env.documents f with
    | none => cases hp : env.record .password <;> simp [hf, hd, hp]
    | some path =>
      cases hp : env.record .password <;> cases he : env.fileExists path <;>
        simp [hf, hd, hp, he, Opening.code]

/-- A block only makes calls. -/
theorem writesOf_initBlock (b : Block) (env : Env) : writesOf ((initBlock b).log env) = [] := by
  cases hw : env.wallet with
  | none => simp [initBlock, hw]
  | some w => cases hb : b.recovering <;> simp [initBlock, hw, Wallet.initWalletAsync, hb] <;> rfl

theorem save_eq (env : Env) :
    save.log env = env.wallet.elim [] fun w =>
      let h := env.answers (.wallet w.impl .blockChainHeight)
      [.call (.wallet w.impl .blockChainHeight) h, .write ⟨.restoreHeight, some h⟩,
        .call (.wallet w.impl (.store "")) (env.answers _)] := by
  cases h : env.wallet with
  | none => simp [save, h]
  | some w =>
    have hstore : w.store.log env = [.call (.wallet w.impl (.store "")) (env.answers _)] := rfl
    simp [save, h, hstore]
    rfl

theorem writesOf_save (env : Env) : ∀ w ∈ writesOf (save.log env), w.key = .restoreHeight := by
  rw [save_eq]
  cases env.wallet <;> simp

end WalletStore

end Monujo
