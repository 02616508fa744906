/-
  The progress of a recovery.

  A recovery is spread over the native wallet in memory, the wallet file, and
  the flag and height of the session record.  It begins in any state of the
  app: another wallet may be current, its background block may be pending, and
  the wallets before it may still report refreshes.  A run scans blocks, saves,
  reports refreshes, reopens the saved wallet, in a new process or in the same
  one, and kills the process between any two of its effects; a store of the
  file may fail.

  `recovery_iff`: the record stays behind the file, and no block is skipped, if
  and only if the recovery is recorded whole, no save leaves the new height
  with the old file where the file lacks a block below it, no refresh is
  reported before the blocks are all on file, and the library scans only what
  the blocks that have run have told it to.  `recovery_alone_iff`: they always
  have, unless a block was pending when the recovery began.
-/
import Monujo.Model.WalletScreen

namespace Monujo

open Monero WalletStore

namespace Recovery

/-! ## The native wallet -/

/-- What a wallet has scanned, in its file or in memory. -/
structure Image where
  /-- The blocks it has examined. -/
  scanned : Finset UInt64
  height : UInt64

/-- A new wallet file. -/
def Image.new : Image := ⟨∅, 0⟩

/-- A native wallet in memory. -/
structure Native where
  image : Image
  recoveringFromSeed : Bool
  refreshFromBlockHeight : UInt64
  /-- `initAsync` has been called. -/
  started : Bool

/-- A wallet just read from its file. -/
def Native.load (i : Image) : Native := ⟨i, false, 0, false⟩

/-- The library takes the next block.  With the flag it passes over the blocks
    below the given height; without it, a wallet that has examined nothing is
    taken to be new and put at the tip. -/
def Native.scan (tip : UInt64) (n : Native) : Native :=
  if n.started = false then n
  else if n.recoveringFromSeed = false ∧ n.image.scanned = ∅ then
    { n with image := { n.image with height := tip } }
  else if n.image.height < tip then
    let passed := n.recoveringFromSeed = true ∧ n.image.height < n.refreshFromBlockHeight
    { n with image :=
      { scanned := if passed then n.image.scanned else insert n.image.height n.image.scanned
        height := n.image.height + 1 } }
  else n

/-! ## Runs -/

/-- A recovery: the file it makes, the height it begins at, and the tip of the
    chain. -/
structure Params where
  documents : Option String
  file : String
  restoreHeight : UInt64
  tip : UInt64

structure State where
  app : App
  /-- The wallet file. -/
  disk : Image
  /-- The wallets the process has open on the file. -/
  natives : Handle → Option Native
  /-- The background blocks that have run on each of them. -/
  ran : Handle → List Block
  /-- The wallets of other files the process has had; they still report. -/
  earlier : List Wallet

/-- What happens to a recovery.  A process is killed after the first `k` effects
    of a piece of code where `cut` is `some k`. -/
inductive Event where
  /-- The library takes the next block for a wallet. -/
  | scan (h : Handle)
  /-- The `i`-th of the blocks left on the background queue runs. -/
  | block (i : ℕ) (env : Env)
  | save (env : Env) (cut : Option ℕ)
  /-- The library reports a refresh of a wallet. -/
  | refreshed (w : Wallet) (env : Env) (cut : Option ℕ)
  /-- `openSavedWallet` is called: by the next process, after a kill, or again
      by the same one. -/
  | openSaved (env : Env) (cut : Option ℕ)
  | kill

variable (c : Params)

/-- The path of the wallet file, as the library sees it. -/
def Params.path : Option String := (walletFile c.documents c.file).map cstr

/-- `blockChainHeight` is the scan height in memory; the other answers are left
    open. -/
def State.answers (s : State) (a : Answers) : Answers
  | .wallet h .blockChainHeight =>
    match s.natives h with
    | some n => n.image.height
    | none => a (.wallet h .blockChainHeight)
  | call => a call

def State.env (s : State) (env : Env) : Env :=
  { s.app.env env with documents := c.documents, answers := s.answers env.answers }

/-- A setter of the wallet `h`. -/
def State.onNative (s : State) (h : Handle) (f : Native → Native) : State :=
  { s with natives := Function.update s.natives h ((s.natives h).map f) }

/-- What a store of the wallet `h` makes of the wallet file. -/
def State.stored (s : State) (h : Handle) : Image := ((s.natives h).map Native.image).getD s.disk

/-- A store of the wallet `h`, with the answer `ok`. -/
def State.store (s : State) (h : Handle) (ok : Bool) : State :=
  if ok then { s with disk := s.stored h } else s

/-- The library opens the wallet `h` on the file at `path`. -/
def State.open (s : State) (path : Option String) (h : Handle) : State :=
  if path = c.path then
    { s with
      natives := Function.update s.natives h (some (.load s.disk))
      ran := Function.update s.ran h [] }
  else s

/-- What one effect does to the wallet file and to the wallets in memory. -/
def State.apply (s : State) (e : Effect) : State :=
  let t := { s with app := s.app.apply e }
  match e with
  | .call (.manager (.recoveryWallet path ..)) h | .call (.manager (.openWallet path ..)) h =>
    t.open c path h
  | .call (.wallet h (.setRecoveringFromSeed r)) _ =>
    t.onNative h fun n => { n with recoveringFromSeed := r }
  | .call (.wallet h (.setRefreshFromBlockHeight height)) _ =>
    t.onNative h fun n => { n with refreshFromBlockHeight := height }
  | .call (.wallet h (.initAsync ..)) _ => t.onNative h fun n => { n with started := true }
  | .call (.wallet h (.store _)) ok => t.store h ok
  | _ => t

def State.perform (s : State) (es : List Effect) : State := Runs.run (State.apply c) s es

/-- The process is gone. -/
def State.die (s : State) : State where
  app := { s.app with wallet := none, blocks := [] }
  disk := s.disk
  natives _ := none
  ran _ := []
  earlier := []

/-- Run code, and die if it is cut. -/
def State.exec {α : Type} (s : State) (m : AppCode α) (env : Env) (cut : Option ℕ) : State :=
  let t := s.perform c (m.cut (s.env c env) cut)
  if cut.isSome then t.die else t

/-- The blocks `bs` are left on the background queue. -/
def State.queue (s : State) (bs : List Block) : State :=
  { s with app := { s.app with blocks := bs } }

/-- The block `b` has run on the current wallet. -/
def State.note (s : State) (b : Block) : State :=
  match s.app.wallet with
  | some w => { s with ran := Function.update s.ran w.impl (s.ran w.impl ++ [b]) }
  | none => s

/-- The library may report a refresh of the wallet: it has been started, or is
    one of another file. -/
def State.Reports (s : State) (w : Wallet) : Prop :=
  (∃ n ∈ s.natives w.impl, n.started = true) ∨ w ∈ s.earlier

instance (s : State) : DecidablePred s.Reports := fun w => inferInstanceAs
  (Decidable ((∃ n ∈ s.natives w.impl, n.started = true) ∨ w ∈ s.earlier))

def step (s : State) : Event → State
  | .scan h => s.onNative h (Native.scan c.tip)
  | .block i env =>
    match s.app.blocks[i]? with
    | some b =>
      let t := s.queue (s.app.blocks.eraseIdx i)
      (t.perform c ((initBlock b).log (t.env c env))).note b
    | none => s
  | .save env cut => s.exec c save env cut
  | .refreshed w env cut =>
    if s.Reports w then s.exec c (Callback.refreshed.listener w) env cut else s
  | .openSaved env cut => s.exec c openSavedWallet env cut
  | .kill => s.die

/-- `recoverWallet` is called in the process `p`, which has had the wallets
    `earlier` besides its current one, and may be cut.  The file is new: none of
    these wallets is open on it. -/
def start (p : App) (earlier : List Wallet) (memo : String) (env : Env) (cut : Option ℕ) : State :=
  let s : State := ⟨p, .new, fun _ => none, fun _ => [], p.wallet.toList ++ earlier⟩
  s.exec c (recoverWallet c.file memo c.restoreHeight) env cut

/-! ## The property -/

/-- The flag and the height cover the blocks of the recovery that `i` has not
    examined: the flag is set, and the height is at most the first of them. -/
def Covers (recovering : Bool) (height : UInt64) (i : Image) : Prop :=
  ∀ b, c.restoreHeight ≤ b → b < c.tip → b ∉ i.scanned → recovering = true ∧ height ≤ b

/-- No block at or above the first height has been skipped. -/
def NoSkip (i : Image) : Prop := ∀ b, c.restoreHeight ≤ b → b < i.height → b ∈ i.scanned

/-- The wallet file is recorded. -/
def Recorded (r : Record) : Prop := r .walletFile = some c.file

instance : DecidablePred (Recorded c) :=
  fun r => inferInstanceAs (Decidable (r .walletFile = some c.file))

/-- The record does not run ahead of the wallet file, and the wallets in memory
    have skipped nothing. -/
structure Behind (s : State) : Prop where
  covers : Covers c s.app.record.isRecovering s.app.record.restoreHeight s.disk
  noSkip : ∀ h, ∀ n ∈ s.natives h, NoSkip c n.image

/-- The recovery is on record only behind its file. -/
def OnRecord (s : State) : Prop := Recorded c s.app.record → Behind c s

/-- Every block of the recovery has been examined. -/
def Complete (i : Image) : Prop := ∀ b, c.restoreHeight ≤ b → b < c.tip → b ∈ i.scanned

/-- The effect at place `i` is performed. -/
def Reached (cut : Option ℕ) (i : ℕ) : Prop := ∀ k ∈ cut, i < k

instance (cut : Option ℕ) : DecidablePred (Reached cut) :=
  fun i => inferInstanceAs (Decidable (∀ k ∈ cut, i < k))

/-- The answer of the library to a store of the wallet. -/
def stores (env : Env) (w : Wallet) : Bool := env.answers (.wallet w.impl (.store ""))

/-- The recovery is recorded whole: a kill comes before its file is recorded, or
    after its flag and its height are, unless these were there. -/
def Whole (r : Record) (cut : Option ℕ) : Prop :=
  c.restoreHeight < c.tip → (Reached cut 3 ∨ Recorded c r) →
    (Reached cut 4 ∨ r.isRecovering = true) ∧ (Reached cut 5 ∨ r.restoreHeight ≤ c.restoreHeight)

/-- The height given by the last recovering block, if there is one. -/
def given (bs : List Block) : Option UInt64 :=
  (bs.filter Block.recovering).getLast?.map Block.restoreHeight

/-- What the blocks that have run on a wallet tell the library before a scan.
    If none of them is recovering, the wallet has examined a block or there is
    none to examine; otherwise the last height given is not above the block the
    wallet has come to, if that one is to be examined. -/
def Told (ran : List Block) (i : Image) : Prop := ran ≠ [] →
  match given ran with
  | none => i.scanned = ∅ → c.tip ≤ c.restoreHeight
  | some height =>
    c.restoreHeight ≤ i.height → i.height < c.tip → i.height ∉ i.scanned → height ≤ i.height

/-- What is asked of an event.  A wallet is scanned as it was told.  A save that
    records the height in memory goes on to store the file, with the flag set
    or every block examined; or the file has examined every block below that
    height.  A refresh that is reported finds every block on file, or in the
    wallet it goes on to store. -/
def Asked (s : State) : Event → Prop
  | .scan h => ∀ n ∈ s.natives h, Told c (s.ran h) n.image
  | .save env cut => ∀ w ∈ s.app.wallet, ∀ n ∈ s.natives w.impl, Reached cut 1 →
    if Reached cut 2 ∧ stores env w = true then
      s.app.record.isRecovering = true ∨ Complete c n.image
    else Covers c true n.image.height s.disk
  | .refreshed w env cut => s.Reports w → env.delegate w = true → Reached cut 0 →
    Complete c (if Reached cut 1 ∧ stores env w = true then s.stored w.impl else s.disk)
  | .block .. | .openSaved .. | .kill => True

/-- The condition on an event, while the recovery is on record. -/
def Careful (s : State) (e : Event) : Prop := Recorded c s.app.record → Asked c s e

/-! ## What the pieces of code do -/

variable {c}

theorem Covers.mono {r : Bool} {h : UInt64} {i j : Image} (hij : i.scanned ⊆ j.scanned)
    (hc : Covers c r h i) : Covers c r h j :=
  fun b h₁ h₂ hb => hc b h₁ h₂ fun hi => hb (hij hi)

theorem covers_false_iff {h : UInt64} {i : Image} : Covers c false h i ↔ Complete c i := by
  constructor
  · intro hc b h₁ h₂
    by_contra hb
    cases (hc b h₁ h₂ hb).1
  · exact fun hc b h₁ h₂ hb => absurd (hc b h₁ h₂) hb

theorem Complete.covers {r : Bool} {h : UInt64} {i : Image} (hc : Complete c i) :
    Covers c r h i := fun b h₁ h₂ hb => absurd (hc b h₁ h₂) hb

/-- A wallet that has skipped nothing is covered by its own height, under a flag
    that is set while a block is left. -/
theorem NoSkip.covers_iff {r : Bool} {i : Image} (h : NoSkip c i) :
    Covers c r i.height i ↔ r = true ∨ Complete c i := by
  cases r with
  | false => simp [covers_false_iff]
  | true =>
    refine iff_of_true (fun b h₁ _ hb => ⟨rfl, UInt64.not_lt.1 fun hlt => hb (h b h₁ hlt)⟩) ?_
    exact .inl rfl

theorem app_perform (s : State) (es : List Effect) : (s.perform c es).app = s.app.perform es := by
  have happly : ∀ (t : State) (e : Effect), (t.apply c e).app = t.app.apply e := by
    intro t e
    unfold State.apply
    split
    all_goals first | rfl | skip
    · unfold State.open
      split <;> rfl
    · unfold State.open
      split <;> rfl
    · unfold State.store
      split <;> rfl
  induction es generalizing s with
  | nil => rfl
  | cons e es ih =>
    rw [State.perform, Runs.run_cons, ← State.perform, ih, happly]
    rfl

/-- Effects without a store leave the wallet file. -/
theorem disk_perform {es : List Effect} (h : ∀ w p, Call.wallet w (.store p) ∉ callsOf es)
    (s : State) : (s.perform c es).disk = s.disk := by
  induction es generalizing s with
  | nil => rfl
  | cons e es ih =>
    simp only [callsOf_cons, List.mem_append, not_or] at h
    have happly : (s.apply c e).disk = s.disk := by
      unfold State.apply
      split
      · unfold State.open
        split <;> rfl
      · unfold State.open
        split <;> rfl
      · rfl
      · rfl
      · rfl
      · exact absurd (List.mem_singleton.2 rfl) (h _ _).1
      · rfl
    rw [State.perform, Runs.run_cons, ← State.perform, ih (fun w p => (h w p).2), happly]

theorem record_exec {α : Type} (s : State) (m : AppCode α) (env : Env) (cut : Option ℕ) :
    (s.exec c m env cut).app.record = s.app.record.put (writesOf (m.cut (s.env c env) cut)) := by
  rw [← App.record_perform, ← app_perform (c := c), State.exec]
  split <;> rfl

theorem disk_exec {α : Type} (s : State) (m : AppCode α) (env : Env) (cut : Option ℕ) :
    (s.exec c m env cut).disk = (s.perform c (m.cut (s.env c env) cut)).disk := by
  rw [State.exec]
  split <;> rfl

/-! ## Scanning -/

theorem lt_succ {a b t : UInt64} (ht : b < t) : a < b + 1 ↔ a ≤ b := by
  have hlt : b.toNat < t.toNat := UInt64.lt_iff_toNat_lt.1 ht
  have ht' : t.toNat < 2 ^ 64 := t.toNat_lt
  have hsucc : (b + 1).toNat = b.toNat + 1 := by
    rw [UInt64.toNat_add, UInt64.toNat_one]
    omega
  rw [UInt64.lt_iff_toNat_lt, UInt64.le_iff_toNat_le, hsucc]
  omega

theorem succ_le {b t : UInt64} (ht : b < t) : b + 1 ≤ t :=
  UInt64.not_lt.1 fun h => absurd ((lt_succ ht).1 h) (UInt64.not_le.2 ht)

/-- What the library can do next: nothing; take the wallet for new; pass over the
    block at its height, which is below the one it was given; or take it. -/
theorem scan_cases (t : UInt64) (n : Native) :
    (n.scan t = n ∧ (n.started = true → t ≤ n.image.height ∧
      ¬ (n.recoveringFromSeed = false ∧ n.image.scanned = ∅))) ∨
    (n.started = true ∧ n.recoveringFromSeed = false ∧ n.image.scanned = ∅ ∧
      n.scan t = { n with image := { n.image with height := t } }) ∨
    (n.started = true ∧ n.image.height < t ∧ n.recoveringFromSeed = true ∧
      n.image.height < n.refreshFromBlockHeight ∧
      n.scan t = { n with image := ⟨n.image.scanned, n.image.height + 1⟩ }) ∨
    (n.image.height < t ∧ ¬ (n.recoveringFromSeed = false ∧ n.image.scanned = ∅) ∧
      (n.recoveringFromSeed = true → n.refreshFromBlockHeight ≤ n.image.height) ∧
      n.scan t =
        { n with image := ⟨insert n.image.height n.image.scanned, n.image.height + 1⟩ }) := by
  unfold Native.scan
  by_cases hs : n.started = false
  · exact .inl ⟨if_pos hs, fun hs' => by rw [hs] at hs'; cases hs'⟩
  rw [if_neg hs]
  have hstarted : n.started = true := by simpa using hs
  by_cases hnew : n.recoveringFromSeed = false ∧ n.image.scanned = ∅
  · exact .inr (.inl ⟨hstarted, hnew.1, hnew.2, if_pos hnew⟩)
  rw [if_neg hnew]
  by_cases hlt : n.image.height < t
  · rw [if_pos hlt]
    by_cases hpassed : n.recoveringFromSeed = true ∧ n.image.height < n.refreshFromBlockHeight
    · refine .inr (.inr (.inl ⟨hstarted, hlt, hpassed.1, hpassed.2, ?_⟩))
      simp only [if_pos hpassed]
    · refine .inr (.inr (.inr ⟨hlt, hnew, ?_, ?_⟩))
      · exact fun hflag => UInt64.not_lt.1 fun hbelow => hpassed ⟨hflag, hbelow⟩
      · simp only [if_neg hpassed]
  · exact .inl ⟨if_neg hlt, fun _ => ⟨UInt64.not_lt.1 hlt, hnew⟩⟩

theorem scanned_scan (t : UInt64) (n : Native) :
    n.image.scanned ⊆ (n.scan t).image.scanned := by
  rcases scan_cases t n with ⟨h, -⟩ | ⟨-, -, -, h⟩ | ⟨-, -, -, -, h⟩ | ⟨-, -, -, h⟩
  · rw [h]
  · rw [h]
  · rw [h]
  · rw [h]
    exact Finset.subset_insert _ _

theorem height_scan {n : Native} (h : n.image.height ≤ c.tip) :
    (n.scan c.tip).image.height ≤ c.tip := by
  rcases scan_cases c.tip n with ⟨hn, -⟩ | ⟨-, -, -, hn⟩ | ⟨-, hlt, -, -, hn⟩ | ⟨hlt, -, -, hn⟩
  · rw [hn]
    exact h
  · rw [hn]
    exact UInt64.le_refl _
  · rw [hn]
    exact succ_le hlt
  · rw [hn]
    exact succ_le hlt

/-- Taking the block at the height skips nothing, unless it is due and stays
    unexamined. -/
theorem noSkip_succ {i : Image} {sc : Finset UInt64} (h : NoSkip c i) (hsub : i.scanned ⊆ sc)
    (hlt : i.height < c.tip) :
    NoSkip c ⟨sc, i.height + 1⟩ ↔ (c.restoreHeight ≤ i.height → i.height ∈ sc) := by
  constructor
  · exact fun hskip hdue => hskip _ hdue ((lt_succ hlt).2 (UInt64.le_refl _))
  · intro hnext b hdue hb
    by_contra hno
    have hle : i.height ≤ b := UInt64.not_lt.1 fun hlt' => hno (hsub (h b hdue hlt'))
    obtain rfl : b = i.height := UInt64.le_antisymm ((lt_succ hlt).1 hb) hle
    exact hno (hnext hdue)

/-- The library knows what the blocks that have run on a wallet told it. -/
structure Informed (ran : List Block) (n : Native) : Prop where
  started : n.started = true ↔ ran ≠ []
  recovering : n.recoveringFromSeed = (given ran).isSome
  height : ∀ h ∈ given ran, n.refreshFromBlockHeight = h

theorem Informed.of_none {ran : List Block} {n : Native} (h : Informed ran n)
    (hg : given ran = none) : n.recoveringFromSeed = false := by
  rw [h.recovering, hg]
  rfl

theorem Informed.of_some {ran : List Block} {n : Native} (h : Informed ran n) {height : UInt64}
    (hg : given ran = some height) :
    n.recoveringFromSeed = true ∧ n.refreshFromBlockHeight = height :=
  ⟨by rw [h.recovering, hg]; rfl, h.height _ hg⟩

theorem given_concat (bs : List Block) (b : Block) :
    given (bs ++ [b]) = if b.recovering then some b.restoreHeight else given bs := by
  cases hb : b.recovering <;> simp [given, List.filter_append, hb]

/-- **A scan** skips nothing if and only if the library was told in time. -/
theorem noSkip_scan {ran : List Block} {n : Native} (hi : Informed ran n)
    (h : NoSkip c n.image) : NoSkip c (n.scan c.tip).image ↔ Told c ran n.image := by
  unfold Told
  rcases scan_cases c.tip n with
    ⟨hn, hidle⟩ | ⟨hs, hflag, hnew, hn⟩ | ⟨hs, hlt, hflag, hbelow, hn⟩ | ⟨hlt, hold, hbelow, hn⟩
  · rw [hn]
    refine iff_of_true h fun hran => ?_
    obtain ⟨htip, hold⟩ := hidle (hi.started.2 hran)
    split
    · rename_i hg
      exact fun hnew => absurd ⟨hi.of_none hg, hnew⟩ hold
    · exact fun _ hlt => absurd hlt (UInt64.not_lt.2 htip)
  · -- no block has told it that the wallet is old
    have hg : given ran = none := by
      rw [← Option.not_isSome_iff_eq_none, ← hi.recovering, hflag]
      exact Bool.false_ne_true
    rw [hn, hg]
    constructor
    · intro hskip _ _
      by_contra hlt
      have hmem := hskip _ (UInt64.le_refl _) (UInt64.not_le.1 hlt)
      rw [hnew] at hmem
      exact Finset.notMem_empty _ hmem
    · intro htold b hdue hb
      have htip := htold (hi.started.1 hs) hnew
      exact absurd (UInt64.lt_of_le_of_lt hdue hb) (UInt64.not_lt.2 htip)
  · obtain ⟨height, hg⟩ := Option.isSome_iff_exists.1 (hi.recovering.symm.trans hflag)
    rw [(hi.of_some hg).2] at hbelow
    rw [hn, hg, noSkip_succ h subset_rfl hlt]
    constructor
    · exact fun hnext _ hdue _ hno => absurd (hnext hdue) hno
    · intro htold hdue
      by_contra hno
      exact UInt64.not_lt.2 (htold (hi.started.1 hs) hdue hlt hno) hbelow
  · rw [hn, noSkip_succ h (Finset.subset_insert _ _) hlt]
    refine iff_of_true (fun _ => Finset.mem_insert_self _ _) fun _ => ?_
    split
    · rename_i hg
      exact fun hnew => absurd ⟨hi.of_none hg, hnew⟩ hold
    · rename_i height hg
      obtain ⟨hflag, rfl⟩ := hi.of_some hg
      exact fun _ _ _ => hbelow hflag

/-! ## The invariant -/

variable (c) in
/-- A wallet in memory, on which the blocks `ran` have run, has skipped
    nothing. -/
structure Sound (ran : List Block) (n : Native) : Prop where
  noSkip : NoSkip c n.image
  height : n.image.height ≤ c.tip
  informed : Informed ran n

variable (c) in
/-- The record does not run ahead of the wallet file, which has skipped
    nothing. -/
structure Filed (r : Record) (disk : Image) : Prop where
  covers : Covers c r.isRecovering r.restoreHeight disk
  noSkip : NoSkip c disk
  height : disk.height ≤ c.tip

variable (c) in
structure Inv (s : State) : Prop where
  filed : Filed c s.app.record s.disk
  sound : ∀ h, ∀ n ∈ s.natives h, Sound c (s.ran h) n
  current : ∀ w ∈ s.app.wallet, ∃ n, s.natives w.impl = some n

theorem Inv.behind {s : State} (h : Inv c s) : Behind c s :=
  ⟨h.filed.covers, fun p n hn => (h.sound p n hn).noSkip⟩

/-! ## The steps -/

theorem Filed.die {s : State} (h : Filed c s.app.record s.disk) : Inv c s.die where
  filed := h
  sound _ _ hn := by cases hn
  current _ hw := by cases hw

@[simp] theorem natives_onNative_self (s : State) (p : Handle) (f : Native → Native) :
    (s.onNative p f).natives p = (s.natives p).map f := Function.update_self ..

theorem natives_onNative_of_ne (s : State) {p q : Handle} (h : q ≠ p) (f : Native → Native) :
    (s.onNative p f).natives q = s.natives q := Function.update_of_ne h ..

/-- A setter keeps the wallets open. -/
theorem onNative_current {s : State} (h : ∀ w ∈ s.app.wallet, ∃ n, s.natives w.impl = some n)
    (p : Handle) (f : Native → Native) :
    ∀ w ∈ s.app.wallet, ∃ n, (s.onNative p f).natives w.impl = some n := by
  intro w hw
  obtain ⟨n, hn⟩ := h w hw
  by_cases hp : w.impl = p
  · refine ⟨f n, ?_⟩
    rw [← hp, natives_onNative_self, hn]
    rfl
  · exact ⟨n, (natives_onNative_of_ne s hp f).trans hn⟩

theorem Inv.scan {s : State} (h : Inv c s) {p : Handle} (ha : Asked c s (.scan p)) :
    Inv c (step c s (.scan p)) := by
  refine ⟨h.filed, fun q m hm => ?_, onNative_current h.current p _⟩
  by_cases hq : q = p
  · subst hq
    obtain ⟨n, hn, rfl⟩ := Option.map_eq_some_iff.1 ((natives_onNative_self s q _).symm.trans hm)
    obtain ⟨hskip, hheight, hinf⟩ := h.sound q n hn
    have hinf' : Informed (s.ran q) (n.scan c.tip) := by
      rcases scan_cases c.tip n with
        ⟨hn', -⟩ | ⟨-, -, -, hn'⟩ | ⟨-, -, -, -, hn'⟩ | ⟨-, -, -, hn'⟩ <;>
        rw [hn'] <;> exact ⟨hinf.started, hinf.recovering, hinf.height⟩
    exact ⟨(noSkip_scan hinf hskip).2 (ha n hn), height_scan hheight, hinf'⟩
  · exact h.sound q m ((natives_onNative_of_ne s hq _).symm.trans hm)

/-- The native wallet after the block `b`. -/
def Native.init (b : Block) (n : Native) : Native :=
  { n with
    recoveringFromSeed := b.recovering || n.recoveringFromSeed
    refreshFromBlockHeight := if b.recovering then b.restoreHeight else n.refreshFromBlockHeight
    started := true }

theorem init_false {b : Block} (hb : b.recovering = false) :
    Native.init b = fun n => { n with started := true } := by
  funext n
  simp [Native.init, hb]

theorem init_true {b : Block} (hb : b.recovering = true) :
    Native.init b = fun n => { n with
      recoveringFromSeed := true, refreshFromBlockHeight := b.restoreHeight, started := true } := by
  funext n
  simp [Native.init, hb]

theorem Informed.init {ran : List Block} {n : Native} (h : Informed ran n) (b : Block) :
    Informed (ran ++ [b]) (n.init b) := by
  refine ⟨by simp [Native.init], ?_, fun height hg => ?_⟩
  · rw [given_concat]
    cases hb : b.recovering <;> simp [Native.init, hb, h.recovering]
  · rw [given_concat] at hg
    cases hb : b.recovering with
    | false =>
      rw [hb] at hg
      simpa [Native.init, hb] using h.height height hg
    | true =>
      rw [hb] at hg
      simpa [Native.init, hb] using hg

theorem perform_initBlock (s : State) (b : Block) {e : Env} {w : Wallet} (hw : e.wallet = some w) :
    ∃ calls, s.perform c ((initBlock b).log e) =
      { s.onNative w.impl (Native.init b) with app := { s.app with calls := calls } } := by
  obtain ⟨⟨r, sw, bs, cs⟩, d, n, ran, ws⟩ := s
  cases hb : b.recovering with
  | false =>
    have hlog :
        (initBlock b).log e = [.call (.wallet w.impl (.initAsync (cstr daemonURL) 0)) ()] := by
      simp [initBlock, hw, Wallet.initWalletAsync, hb]; rfl
    refine ⟨cs ++ [.wallet w.impl (.initAsync (cstr daemonURL) 0)], ?_⟩
    rw [hlog, init_false hb]
    simp [State.perform, State.apply, App.apply, State.onNative]
  | true =>
    have hlog : (initBlock b).log e = [.call (.wallet w.impl (.setRecoveringFromSeed true)) (),
        .call (.wallet w.impl (.setRefreshFromBlockHeight b.restoreHeight)) (),
        .call (.wallet w.impl (.initAsync (cstr daemonURL) 0)) ()] := by
      simp [initBlock, hw, Wallet.initWalletAsync, hb]; rfl
    refine ⟨cs ++ [.wallet w.impl (.setRecoveringFromSeed true)] ++
      [.wallet w.impl (.setRefreshFromBlockHeight b.restoreHeight)] ++
      [.wallet w.impl (.initAsync (cstr daemonURL) 0)], ?_⟩
    rw [hlog, init_true hb]
    simp [State.perform, State.apply, App.apply, State.onNative, Function.comp_def]

/-- `t` is `s` once the `i`-th block left, which is `b`, has run. -/
structure BlockRan (b : Block) (i : ℕ) (s t : State) : Prop where
  record : t.app.record = s.app.record
  wallet : t.app.wallet = s.app.wallet
  blocks : t.app.blocks = s.app.blocks.eraseIdx i
  disk : t.disk = s.disk
  natives : ∀ h, t.natives h =
    if s.app.wallet = some ⟨h⟩ then (s.natives h).map (Native.init b) else s.natives h
  ran : ∀ h, t.ran h = if s.app.wallet = some ⟨h⟩ then s.ran h ++ [b] else s.ran h

theorem note_of_wallet {s : State} {w : Wallet} (hw : s.app.wallet = some w) (b : Block) :
    s.note b = { s with ran := Function.update s.ran w.impl (s.ran w.impl ++ [b]) } := by
  simp [State.note, hw]

theorem step_block (s : State) (i : ℕ) (env : Env) :
    step c s (.block i env) = s ∨
      ∃ b ∈ s.app.blocks, BlockRan b i s (step c s (.block i env)) := by
  simp only [step]
  split
  · rename_i b hb
    refine .inr ⟨b, List.mem_of_getElem? hb, ?_⟩
    have hwal : ((s.queue (s.app.blocks.eraseIdx i)).env c env).wallet = s.app.wallet := rfl
    cases hw : s.app.wallet with
    | none =>
      have hlog : (initBlock b).log ((s.queue (s.app.blocks.eraseIdx i)).env c env) = [] := by
        simp [initBlock, hwal, hw]
      have hnote : (s.queue (s.app.blocks.eraseIdx i)).note b =
          s.queue (s.app.blocks.eraseIdx i) := by
        simp [State.note, State.queue, hw]
      rw [hlog]
      change BlockRan b i s ((s.queue (s.app.blocks.eraseIdx i)).note b)
      rw [hnote]
      exact ⟨rfl, rfl, rfl, rfl, fun h => by simp [hw]; rfl, fun h => by simp [hw]; rfl⟩
    | some w =>
      obtain ⟨calls, hstep⟩ := perform_initBlock (c := c) (s.queue (s.app.blocks.eraseIdx i)) b
        (hwal.trans hw)
      rw [hstep, note_of_wallet (w := w)]
      swap
      · exact hw
      refine ⟨rfl, rfl, rfl, rfl, fun h => ?_, fun h => ?_⟩
      · rw [hw]
        by_cases hh : h = w.impl
        · subst hh
          rw [if_pos rfl]
          exact natives_onNative_self ..
        · rw [if_neg fun he => hh (by cases he; rfl)]
          exact natives_onNative_of_ne _ hh _
      · rw [hw]
        by_cases hh : h = w.impl
        · subst hh
          rw [if_pos rfl]
          exact Function.update_self ..
        · rw [if_neg fun he => hh (by cases he; rfl)]
          exact Function.update_of_ne hh ..
  · exact .inl rfl

theorem Inv.block {s : State} (h : Inv c s) (i : ℕ) (env : Env) :
    Inv c (step c s (.block i env)) := by
  rcases step_block (c := c) s i env with heq | ⟨b, -, hrun⟩
  · rw [heq]
    exact h
  · refine ⟨?_, fun q m hm => ?_, fun w hw => ?_⟩
    · rw [hrun.record, hrun.disk]
      exact h.filed
    · rw [Option.mem_def, hrun.natives] at hm
      rw [hrun.ran]
      split at hm
      · rename_i hq
        obtain ⟨n, hn, rfl⟩ := Option.map_eq_some_iff.1 hm
        obtain ⟨hskip, hheight, hinf⟩ := h.sound q n hn
        rw [if_pos hq]
        exact ⟨hskip, hheight, hinf.init b⟩
      · rename_i hq
        rw [if_neg hq]
        exact h.sound q m hm
    · rw [hrun.wallet] at hw
      obtain ⟨n, hn⟩ := h.current w hw
      refine ⟨n.init b, ?_⟩
      rw [hrun.natives, if_pos (Option.mem_def.1 hw), hn]
      rfl

/-- Effects of `save`, and of the handler of a refresh, on the wallet `w`. -/
def Quiet (w : Wallet) : Effect → Prop
  | .write _ | .main _ => True
  | .call (.wallet _ .blockChainHeight) _ => True
  | .call (.wallet h (.store _)) _ => h = w.impl
  | _ => False

/-- The process goes on with the wallets it has; the wallet `w` may have been
    stored. -/
structure SameProcess (w : Wallet) (s t : State) : Prop where
  natives : t.natives = s.natives
  ran : t.ran = s.ran
  wallet : t.app.wallet = s.app.wallet
  blocks : t.app.blocks = s.app.blocks
  disk : t.disk = s.disk ∨ t.disk = s.stored w.impl

theorem SameProcess.refl (w : Wallet) (s : State) : SameProcess w s s :=
  ⟨rfl, rfl, rfl, rfl, .inl rfl⟩

theorem SameProcess.trans {w : Wallet} {s t u : State} (h : SameProcess w s t)
    (h' : SameProcess w t u) : SameProcess w s u := by
  refine ⟨h'.natives.trans h.natives, h'.ran.trans h.ran, h'.wallet.trans h.wallet,
    h'.blocks.trans h.blocks, ?_⟩
  rcases h'.disk with hd | hd
  · rw [hd]
    exact h.disk
  · rw [hd]
    unfold State.stored
    rw [h.natives]
    cases hn : s.natives w.impl with
    | none => simpa [State.stored, hn] using h.disk
    | some n => exact .inr rfl

theorem apply_quiet {w : Wallet} (s : State) {e : Effect} (h : Quiet w e) :
    SameProcess w s (s.apply c e) := by
  unfold Quiet at h
  split at h
  · exact ⟨rfl, rfl, rfl, rfl, .inl rfl⟩
  · exact ⟨rfl, rfl, rfl, rfl, .inl rfl⟩
  · exact ⟨rfl, rfl, rfl, rfl, .inl rfl⟩
  · rename_i p path ok
    subst h
    cases ok with
    | false => exact ⟨rfl, rfl, rfl, rfl, .inl rfl⟩
    | true => exact ⟨rfl, rfl, rfl, rfl, .inr rfl⟩
  · cases h

theorem perform_quiet {w : Wallet} (s : State) {es : List Effect} (h : ∀ e ∈ es, Quiet w e) :
    SameProcess w s (s.perform c es) :=
  Runs.run_keeps (State.apply c) (SameProcess.refl w) (fun _ _ _ h h' => h.trans h')
    (fun t e he => apply_quiet t (h e he)) s

/-- What is stored has skipped nothing. -/
theorem Inv.stored {s : State} (h : Inv c s) (p : Handle) :
    NoSkip c (s.stored p) ∧ (s.stored p).height ≤ c.tip := by
  unfold State.stored
  cases hn : s.natives p with
  | none => exact ⟨h.filed.noSkip, h.filed.height⟩
  | some n => exact ⟨(h.sound p n hn).noSkip, (h.sound p n hn).height⟩

theorem Inv.same {w : Wallet} {s t : State} (h : Inv c s) (hst : SameProcess w s t)
    (hc : Covers c t.app.record.isRecovering t.app.record.restoreHeight t.disk) : Inv c t := by
  obtain ⟨hn, hran, hw, -, hd⟩ := hst
  have hdisk : NoSkip c t.disk ∧ t.disk.height ≤ c.tip := by
    rcases hd with hd | hd <;> rw [hd]
    · exact ⟨h.filed.noSkip, h.filed.height⟩
    · exact h.stored w.impl
  refine ⟨⟨hc, hdisk.1, hdisk.2⟩, ?_, ?_⟩
  · rw [hn, hran]
    exact h.sound
  · rw [hw, hn]
    exact h.current

/-- Code with quiet effects keeps the invariant, cut or not, if the record stays
    behind the file. -/
theorem Inv.exec {α : Type} {w : Wallet} {s : State} {m : AppCode α} {env : Env} {cut : Option ℕ}
    (h : Inv c s) (hq : ∀ e ∈ m.log (s.env c env), Quiet w e)
    (hc : Covers c (s.exec c m env cut).app.record.isRecovering
      (s.exec c m env cut).app.record.restoreHeight (s.exec c m env cut).disk) :
    Inv c (s.exec c m env cut) := by
  cases cut with
  | none => exact h.same (perform_quiet s hq) hc
  | some k =>
    have hk : ∀ e ∈ m.cut (s.env c env) (some k), Quiet w e :=
      fun e he => hq e (List.mem_of_mem_take he)
    have hinv : Inv c (s.perform c (m.cut (s.env c env) (some k))) :=
      h.same (perform_quiet s hk) hc
    exact hinv.filed.die

theorem log_save {s : State} {w : Wallet} {n : Native} (hw : s.app.wallet = some w)
    (hn : s.natives w.impl = some n) (env : Env) :
    save.log (s.env c env) = [.call (.wallet w.impl .blockChainHeight) n.image.height,
      .write ⟨.restoreHeight, some n.image.height⟩,
      .call (.wallet w.impl (.store "")) (stores env w)] := by
  have hans : (s.env c env).answers (.wallet w.impl .blockChainHeight) = n.image.height := by
    simp only [State.env, State.answers, hn]
    rfl
  have hwal : (s.env c env).wallet = some w := hw
  rw [save_eq, hwal, Option.elim_some, hans]
  rfl

theorem exec_save {s : State} {w : Wallet} {n : Native} (hw : s.app.wallet = some w)
    (hn : s.natives w.impl = some n) (env : Env) (cut : Option ℕ) :
    (s.exec c save env cut).app.record = (if Reached cut 1 then
      s.app.record.set ⟨.restoreHeight, some n.image.height⟩ else s.app.record) ∧
    (s.exec c save env cut).disk =
      if Reached cut 2 ∧ stores env w = true then n.image else s.disk := by
  have hlog := log_save (c := c) hw hn env
  -- killed before each effect, after the last one, or not at all
  rcases cut with _ | _ | _ | _ | k <;> cases hok : stores env w <;>
    simp [State.exec, State.die, hlog, hok, Reached, State.perform, State.apply, App.apply,
      State.store, State.stored, hn]

theorem exec_refreshed (s : State) (w : Wallet) {env : Env} (hd : env.delegate w = true)
    (cut : Option ℕ) :
    (s.exec c (Callback.refreshed.listener w) env cut).app.record = (if Reached cut 0 then
      s.app.record.set ⟨.isRecovering, none⟩ else s.app.record) ∧
    (s.exec c (Callback.refreshed.listener w) env cut).disk =
      if Reached cut 1 ∧ stores env w = true then s.stored w.impl else s.disk := by
  have hlog : (Callback.refreshed.listener w).log (s.env c env) = [.write ⟨.isRecovering, none⟩,
      .call (.wallet w.impl (.store "")) (stores env w), .main [.blockHeights, .balance]] := by
    have hdel : (s.env c env).delegate w = true := hd
    rw [Callback.log_listener, if_pos hdel, Callback.log_handler_refreshed]
    rfl
  rcases cut with _ | _ | _ | _ | k <;> cases hok : stores env w <;>
    simp [State.exec, State.die, hlog, hok, Reached, State.perform, State.apply, App.apply,
      State.store, State.stored]

theorem quiet_refreshed (w : Wallet) (e : Env) :
    ∀ f ∈ (Callback.refreshed.listener w).log e, Quiet w f := by
  rw [Callback.log_listener]
  split
  · rw [Callback.log_handler_refreshed]
    simp [Quiet]
  · simp

theorem quiet_save {s : State} {w : Wallet} {n : Native} (hw : s.app.wallet = some w)
    (hn : s.natives w.impl = some n) (env : Env) :
    ∀ f ∈ save.log (s.env c env), Quiet w f := by
  rw [log_save hw hn]
  simp [Quiet]

theorem reached_mono {cut : Option ℕ} {i j : ℕ} (hij : i ≤ j) (h : Reached cut j) :
    Reached cut i := fun k hk => lt_of_le_of_lt hij (h k hk)

/-- A save keeps the record behind the file if and only if it stores what it
    records, or has it on file. -/
theorem save_covers {s : State} (h : Inv c s) {w : Wallet} {n : Native}
    (hw : s.app.wallet = some w) (hn : s.natives w.impl = some n) (env : Env) (cut : Option ℕ) :
    Covers c (s.exec c save env cut).app.record.isRecovering
      (s.exec c save env cut).app.record.restoreHeight (s.exec c save env cut).disk ↔
    Asked c s (.save env cut) := by
  obtain ⟨hr, hd⟩ := exec_save (c := c) hw hn env cut
  have hasked : Asked c s (.save env cut) ↔ (Reached cut 1 →
      if Reached cut 2 ∧ stores env w = true then
        s.app.record.isRecovering = true ∨ Complete c n.image
      else Covers c true n.image.height s.disk) := by
    simp [Asked, hw, hn]
  have hold := h.filed.covers
  rw [hr, hd, hasked]
  by_cases h1 : Reached cut 1
  · rw [if_pos h1, Record.isRecovering_set_restoreHeight, Record.restoreHeight_set_restoreHeight]
    by_cases h2 : Reached cut 2 ∧ stores env w = true
    · rw [if_pos h2, if_pos h2, (h.sound _ n hn).noSkip.covers_iff]
      exact ⟨fun hc _ => hc, fun hc => hc h1⟩
    · -- the flag is set already where the file lacks a block
      rw [if_neg h2, if_neg h2]
      constructor
      · exact fun hc _ b h₁ h₂ hb => ⟨rfl, (hc b h₁ h₂ hb).2⟩
      · exact fun hc b h₁ h₂ hb => ⟨(hold b h₁ h₂ hb).1, (hc h1 b h₁ h₂ hb).2⟩
  · have h2 : ¬ (Reached cut 2 ∧ stores env w = true) :=
      fun h2 => h1 (reached_mono (by omega) h2.1)
    rw [if_neg h1, if_neg h2]
    exact iff_of_true hold fun h1' => absurd h1' h1

/-- A reported refresh keeps it so if and only if the recovery is complete on
    file afterwards. -/
theorem refreshed_covers {s : State} (h : Inv c s) {w : Wallet} (hw : s.Reports w) (env : Env)
    (cut : Option ℕ) :
    Covers c (s.exec c (Callback.refreshed.listener w) env cut).app.record.isRecovering
      (s.exec c (Callback.refreshed.listener w) env cut).app.record.restoreHeight
      (s.exec c (Callback.refreshed.listener w) env cut).disk ↔
    Asked c s (.refreshed w env cut) := by
  have hold := h.filed.covers
  by_cases hdel : env.delegate w = true
  · obtain ⟨hr, hd⟩ := exec_refreshed (c := c) s w hdel cut
    rw [hr, hd]
    by_cases h0 : Reached cut 0
    · rw [if_pos h0, Record.isRecovering_set_isRecovering, Option.getD_none, covers_false_iff]
      exact ⟨fun hc _ _ _ => hc, fun hc => hc hw hdel h0⟩
    · have h1 : ¬ (Reached cut 1 ∧ stores env w = true) :=
        fun h1 => h0 (reached_mono (by omega) h1.1)
      rw [if_neg h0, if_neg h1]
      exact iff_of_true hold fun _ _ h0' => absurd h0' h0
  · have hlog : (Callback.refreshed.listener w).log (s.env c env) = [] := by
      rw [Callback.log_listener]
      exact if_neg hdel
    have hexec : (s.exec c (Callback.refreshed.listener w) env cut).app.record = s.app.record ∧
        (s.exec c (Callback.refreshed.listener w) env cut).disk = s.disk := by
      cases cut <;> simp [State.exec, State.die, hlog, State.perform]
    rw [hexec.1, hexec.2]
    exact iff_of_true hold fun _ hdel' => absurd hdel' hdel

/-! ## Opening the wallet file -/

theorem writesOf_cut {α : Type} (m : AppCode α) (e : Env) (cut : Option ℕ) :
    writesOf (m.cut e cut) <+: writesOf (m.log e) :=
  (m.cut_prefix e cut).filterMap _

/-- A key that the code does not write keeps its value. -/
theorem record_exec_of_ne {α : Type} {s : State} {m : AppCode α} {env : Env} {k : Key}
    (h : ∀ w ∈ writesOf (m.log (s.env c env)), w.key ≠ k) (cut : Option ℕ) :
    (s.exec c m env cut).app.record k = s.app.record k := by
  rw [record_exec]
  refine Store.put_of_notMem (fun hk => ?_) _
  obtain ⟨w, hw, rfl⟩ := List.mem_map.1 hk
  exact h w ((writesOf_cut m _ cut).subset hw) rfl

theorem readsSame_openSaved (s : State) (env : Env) (cut : Option ℕ) :
    Record.ReadsSame s.app.record (s.exec c openSavedWallet env cut).app.record := by
  rw [record_exec]
  have hws := (writesOf_cut openSavedWallet (s.env c env) cut).subset
  rw [(openSavedWallet_eq _).2] at hws
  cases hsv : saved (s.env c env) with
  | none =>
    rw [hsv, Option.elim_none, writesOf_nil] at hws
    rw [List.eq_nil_of_subset_nil hws]
    exact Record.ReadsSame.equivalence.refl _
  | some o =>
    rw [hsv, Option.elim_some, Opening.writesOf_log] at hws
    exact readsSame_saved hsv hws

/-- Opening a wallet stores nothing. -/
theorem disk_opening (s : State) (o : Opening) (env : Env) (cut : Option ℕ) :
    (s.exec c o.code env cut).disk = s.disk := by
  rw [disk_exec]
  refine disk_perform (fun w p hmem => ?_) s
  have hsub : callsOf (o.code.cut (s.env c env) cut) <+: callsOf (o.code.log (s.env c env)) :=
    (o.code.cut_prefix _ cut).filterMap _
  have hmem' := hsub.subset hmem
  rw [Opening.callsOf_log] at hmem'
  simp at hmem'

variable (c) in
/-- The operation opens the wallet file, or makes it. -/
def OnFile : Opening → Prop
  | .create .. => False
  | .open f .. | .recover f .. => f = c.file

/-- The process has the wallet `h` open on the file, and current. -/
structure Opened (s t : State) (b : Block) (h : Handle) : Prop where
  natives : t.natives = Function.update s.natives h (some (.load s.disk))
  ran : t.ran = Function.update s.ran h []
  wallet : t.app.wallet = some ⟨h⟩
  blocks : t.app.blocks = s.app.blocks ++ [b]

theorem open_of_path (s : State) {path : Option String} (hp : path = c.path) (h : Handle) :
    s.open c path h = { s with
      natives := Function.update s.natives h (some (.load s.disk))
      ran := Function.update s.ran h [] } := if_pos hp

theorem perform_opening (s : State) {o : Opening} (ho : OnFile c o) {e : Env}
    (hd : e.documents = c.documents) :
    Opened s (s.perform c (o.code.log e)) o.block (o.handle e) := by
  have happ := app_perform (c := c) s (o.code.log e)
  have hpath : (walletFile e.documents c.file).map cstr = c.path := by rw [hd]; rfl
  -- the state after the call of the library, which opens the file
  let t := { s with app := s.app.apply (.call (.manager (o.request e.documents)) (e.answers _)) }
  have ht := open_of_path (c := c) t hpath (o.handle e)
  cases o with
  | create => cases ho
  | «open» f p r h =>
    obtain rfl : f = c.file := ho
    exact ⟨congrArg State.natives ht, congrArg State.ran ht, by rw [happ]; rfl, by rw [happ]; rfl⟩
  | recover f m h =>
    obtain rfl : f = c.file := ho
    exact ⟨congrArg State.natives ht, congrArg State.ran ht, by rw [happ]; rfl, by rw [happ]; rfl⟩

theorem sound_load {disk : Image} {r : Record} (h : Filed c r disk) : Sound c [] (.load disk) :=
  ⟨h.noSkip, h.height, by simp [Native.load], rfl, fun _ hg => by cases hg⟩

theorem exec_congr {α β : Type} {s : State} {m : AppCode α} {m' : AppCode β} {env : Env}
    (h : m.log (s.env c env) = m'.log (s.env c env)) (cut : Option ℕ) :
    s.exec c m env cut = s.exec c m' env cut := by
  cases cut <;> simp [State.exec, h]

theorem exec_nil {α : Type} {s : State} {m : AppCode α} {env : Env}
    (hlog : m.log (s.env c env) = []) (cut : Option ℕ) :
    s.exec c m env cut = if cut.isSome then s.die else s := by
  cases cut <;> simp [State.exec, State.perform, hlog]

theorem Inv.exec_nil {α : Type} {s : State} {m : AppCode α} {env : Env} (h : Inv c s)
    (hlog : m.log (s.env c env) = []) (cut : Option ℕ) : Inv c (s.exec c m env cut) := by
  rw [Recovery.exec_nil hlog]
  split
  · exact h.filed.die
  · exact h

/-- A process that opens the wallet file, on a record that is behind it. -/
theorem Inv.opening {s : State} {o : Opening} {env : Env} {cut : Option ℕ} (ho : OnFile c o)
    (hsound : ∀ h, ∀ n ∈ s.natives h, Sound c (s.ran h) n)
    (hfiled : Filed c (s.exec c o.code env cut).app.record s.disk) :
    Inv c (s.exec c o.code env cut) := by
  have hdisk := disk_opening (c := c) s o env cut
  rw [← hdisk] at hfiled
  cases cut with
  | some k =>
    have hdie : Filed c (s.perform c (o.code.cut (s.env c env) (some k))).app.record
        (s.perform c (o.code.cut (s.env c env) (some k))).disk := hfiled
    exact hdie.die
  | none =>
    have hopened : Opened s (s.exec c o.code env none) _ _ := perform_opening s ho rfl
    have hload := sound_load hfiled
    rw [hdisk] at hload
    refine ⟨hfiled, fun q m hm => ?_, fun w hw => ?_⟩
    · rw [Option.mem_def, hopened.natives] at hm
      rw [hopened.ran]
      by_cases hq : q = o.handle (s.env c env)
      · rw [hq, Function.update_self] at hm
        rw [hq, Function.update_self, ← Option.some.inj hm]
        exact hload
      · rw [Function.update_of_ne hq] at hm ⊢
        exact hsound q m hm
    · obtain rfl : w = ⟨o.handle (s.env c env)⟩ :=
        Option.some.inj (hw.symm.trans hopened.wallet)
      exact ⟨.load s.disk, by rw [hopened.natives, Function.update_self]⟩

theorem Filed.same {r r' : Record} {disk : Image} (h : Filed c r disk) (hr : r.ReadsSame r') :
    Filed c r' disk :=
  ⟨by rw [hr.isRecovering, hr.restoreHeight]; exact h.covers, h.noSkip, h.height⟩

/-- What `openSavedWallet` does, while the recovery is on record: nothing, or it
    opens the wallet file, with the flag and the height on record. -/
theorem openSaved_cases {s : State} (hrec : Recorded c s.app.record) (env : Env) :
    openSavedWallet.log (s.env c env) = [] ∨ ∃ o, OnFile c o ∧
      o.block = ⟨s.app.record.isRecovering, s.app.record.restoreHeight⟩ ∧
      openSavedWallet.log (s.env c env) = o.code.log (s.env c env) := by
  rw [(openSavedWallet_eq _).2]
  cases hsv : saved (s.env c env) with
  | none => exact .inl rfl
  | some o =>
    obtain ⟨f, p, hf, -, rfl⟩ := saved_some hsv
    obtain rfl : f = c.file := Option.some.inj (hf.symm.trans hrec)
    refine .inr ⟨.open c.file p s.app.record.isRecovering s.app.record.restoreHeight, ?_, ?_, ?_⟩
    all_goals rfl

theorem Inv.openSaved {s : State} (h : Inv c s) (hrec : Recorded c s.app.record) (env : Env)
    (cut : Option ℕ) : Inv c (step c s (.openSaved env cut)) := by
  have hfiled := h.filed.same (readsSame_openSaved (c := c) s env cut)
  change Inv c (s.exec c openSavedWallet env cut)
  rcases openSaved_cases hrec env with hlog | ⟨o, ho, -, hlog⟩
  · exact h.exec_nil hlog cut
  · rw [exec_congr hlog] at hfiled ⊢
    exact Inv.opening ho h.sound hfiled

/-! ## Runs -/

/-- No event changes the file on record. -/
theorem walletFile_step (s : State) (e : Event) :
    (step c s e).app.record .walletFile = s.app.record .walletFile := by
  cases e with
  | scan h => rfl
  | block i env =>
    simp only [step]
    split
    · rename_i b hb
      have hnote : ∀ t : State, (t.note b).app = t.app := by
        intro t
        unfold State.note
        split <;> rfl
      rw [hnote, app_perform, App.record_perform, writesOf_initBlock]
      rfl
    · rfl
  | save env cut =>
    refine record_exec_of_ne (fun w hw => ?_) cut
    rw [writesOf_save _ w hw]
    decide
  | refreshed w env cut =>
    simp only [step]
    split
    · refine record_exec_of_ne (fun v hv => ?_) cut
      rw [Callback.writesOf_listener] at hv
      split at hv
      · rw [List.mem_singleton.1 hv]
        decide
      · cases hv
    · rfl
  | openSaved env cut => exact (readsSame_openSaved s env cut).walletFile
  | kill => rfl

/-- The record after `recoverWallet`, killed anywhere. -/
theorem record_start (p : App) (ws : List Wallet) (memo : String) (env : Env) (cut : Option ℕ) :
    let r' := (start c p ws memo env cut).app.record
    r' .walletFile = (if Reached cut 3 then some c.file else p.record .walletFile) ∧
      r'.isRecovering = (if Reached cut 4 then true else p.record.isRecovering) ∧
      r'.restoreHeight = if Reached cut 5 then c.restoreHeight else p.record.restoreHeight := by
  have hlog : ∀ e, (recoverWallet c.file memo c.restoreHeight).log e =
      (Opening.recover c.file memo c.restoreHeight).native e ++
        [.write ⟨.walletFile, some c.file⟩, .write ⟨.isRecovering, some true⟩,
          .write ⟨.restoreHeight, some c.restoreHeight⟩,
          .assign ⟨(Opening.recover c.file memo c.restoreHeight).handle e⟩,
          .background ⟨true, c.restoreHeight⟩] := fun _ => rfl
  simp only [start, record_exec]
  -- killed before each effect, after the last one, or not at all
  rcases cut with _ | _ | _ | _ | _ | _ | _ | _ | _ | k <;>
    simp [hlog, Opening.native, Reached, Record.isRecovering, Record.restoreHeight]

theorem covers_new {r : Bool} {h : UInt64} :
    Covers c r h .new ↔ (c.restoreHeight < c.tip → r = true ∧ h ≤ c.restoreHeight) := by
  constructor
  · exact fun hc hlt => hc c.restoreHeight (UInt64.le_refl _) hlt (Finset.notMem_empty _)
  · intro hc b h₁ h₂ _
    obtain ⟨hr, hh⟩ := hc (UInt64.lt_of_le_of_lt h₁ h₂)
    exact ⟨hr, UInt64.le_trans hh h₁⟩

theorem noSkip_new : NoSkip c .new := fun _ _ h => absurd h UInt64.not_lt_zero

section
variable (p : App) (ws : List Wallet) (memo : String) (env : Env) (cut : Option ℕ)

theorem recorded_start :
    Recorded c (start c p ws memo env cut).app.record ↔ Reached cut 3 ∨ Recorded c p.record := by
  rw [Recorded, (record_start (c := c) p ws memo env cut).1]
  by_cases h3 : Reached cut 3 <;> simp [h3, Recorded]

theorem covers_start :
    Covers c (start c p ws memo env cut).app.record.isRecovering
      (start c p ws memo env cut).app.record.restoreHeight .new ↔
    (c.restoreHeight < c.tip → (Reached cut 4 ∨ p.record.isRecovering = true) ∧
      (Reached cut 5 ∨ p.record.restoreHeight ≤ c.restoreHeight)) := by
  obtain ⟨-, hrec, hheight⟩ := record_start (c := c) p ws memo env cut
  rw [covers_new, hrec, hheight]
  by_cases h4 : Reached cut 4 <;> by_cases h5 : Reached cut 5 <;> simp [h4, h5]

/-- `recoverWallet` is one of the operations that open the file. -/
theorem start_eq : start c p ws memo env cut =
    (⟨p, .new, fun _ => none, fun _ => [], p.wallet.toList ++ ws⟩ : State).exec c
      (Opening.recover c.file memo c.restoreHeight).code env cut := rfl

theorem inv_start (hw : Whole c p.record cut)
    (hrec : Recorded c (start c p ws memo env cut).app.record) :
    Inv c (start c p ws memo env cut) := by
  have hcov := (covers_start (c := c) p ws memo env cut).2 fun hlt =>
    hw hlt ((recorded_start p ws memo env cut).1 hrec)
  have hfiled : Filed c (start c p ws memo env cut).app.record .new :=
    ⟨hcov, noSkip_new, UInt64.zero_le⟩
  rw [start_eq] at hfiled ⊢
  refine Inv.opening rfl (fun h n hn => ?_) hfiled
  cases hn

/-- The recovery begins on record behind its file if and only if it is recorded
    whole. -/
theorem start_iff : OnRecord c (start c p ws memo env cut) ↔ Whole c p.record cut := by
  have hdisk : (start c p ws memo env cut).disk = .new := by
    rw [start_eq, disk_opening]
  constructor
  · intro h hlt hrec
    have hcov := (h ((recorded_start p ws memo env cut).2 hrec)).covers
    rw [hdisk] at hcov
    exact (covers_start p ws memo env cut).1 hcov hlt
  · exact fun hw hrec => (inv_start p ws memo env cut hw hrec).behind

end

/-- A save without a wallet. -/
theorem log_save_none {s : State} (hw : s.app.wallet = none) (env : Env) :
    save.log (s.env c env) = [] := by
  have hwal : (s.env c env).wallet = none := hw
  rw [save_eq, hwal]
  rfl

theorem Inv.step {s : State} {e : Event} (h : Inv c s) (hrec : Recorded c s.app.record)
    (ha : Asked c s e) : Inv c (step c s e) := by
  cases e with
  | scan p => exact h.scan ha
  | block i env => exact h.block i env
  | openSaved env cut => exact h.openSaved hrec env cut
  | kill => exact h.filed.die
  | save env cut =>
    cases hw : s.app.wallet with
    | none => exact h.exec_nil (log_save_none hw env) cut
    | some w =>
      obtain ⟨n, hn⟩ := h.current w hw
      exact h.exec (quiet_save hw hn env) ((save_covers h hw hn env cut).2 ha)
  | refreshed w env cut =>
    simp only [Recovery.step]
    split
    · rename_i hw
      exact h.exec (quiet_refreshed w _) ((refreshed_covers h hw env cut).2 ha)
    · exact h

/-- A step that leaves the record behind the file has met what is asked. -/
theorem Inv.asked {s : State} {e : Event} (h : Inv c s) (hb : Behind c (Recovery.step c s e)) :
    Asked c s e := by
  cases e with
  | block | openSaved | kill => trivial
  | scan p =>
    intro n hn
    have hs := h.sound p n hn
    have hskip := hb.noSkip p (n.scan c.tip) <| by
      change (s.onNative p (Native.scan c.tip)).natives p = some (n.scan c.tip)
      rw [natives_onNative_self, hn]
      rfl
    exact (noSkip_scan hs.informed hs.noSkip).1 hskip
  | save env cut =>
    intro w hw n hn
    exact (save_covers h hw hn env cut).1 hb.covers w hw n hn
  | refreshed w env cut =>
    intro hw
    have hcov := hb.covers
    simp only [Recovery.step, if_pos hw] at hcov
    exact (refreshed_covers h hw env cut).1 hcov hw

variable (c) in
/-- The flags and the heights of the blocks cover what `i` lacks. -/
def AllCover (bs : List Block) (i : Image) : Prop :=
  ∀ b ∈ bs, Covers c b.recovering b.restoreHeight i

theorem AllCover.mono {bs : List Block} {i j : Image} (hij : i.scanned ⊆ j.scanned)
    (h : AllCover c bs i) : AllCover c bs j := fun b hb => (h b hb).mono hij

theorem AllCover.told {bs : List Block} {i : Image} (h : AllCover c bs i) : Told c bs i := by
  intro hne
  split
  · rename_i hg
    intro hnew
    obtain ⟨b, bs', rfl⟩ := List.exists_cons_of_ne_nil hne
    have hnone : (b :: bs').filter Block.recovering = [] := by
      rwa [given, Option.map_eq_none_iff, List.getLast?_eq_none_iff] at hg
    have hb : b.recovering = false := by
      simpa using List.filter_eq_nil_iff.1 hnone b (by simp)
    have hall : Complete c i := covers_false_iff.1 (hb ▸ h b (by simp))
    by_contra hlt
    have hmem := hall _ (UInt64.le_refl _) (UInt64.not_le.1 hlt)
    rw [hnew] at hmem
    exact Finset.notMem_empty _ hmem
  · rename_i height hg
    obtain ⟨b, hb, rfl⟩ := Option.map_eq_some_iff.1 hg
    have hmem : b ∈ bs := (List.mem_filter.1 (List.mem_of_getLast? hb)).1
    exact fun hdue hlt hno => (h b hmem _ hdue hlt hno).2

variable (c) in
/-- The blocks left cover the file and the current wallet; those that have run
    on a wallet cover it. -/
structure Covered (s : State) : Prop where
  disk : AllCover c s.app.blocks s.disk
  current : ∀ w ∈ s.app.wallet, ∀ n ∈ s.natives w.impl, AllCover c s.app.blocks n.image
  ran : ∀ h, ∀ n ∈ s.natives h, AllCover c (s.ran h) n.image

theorem covered_die (s : State) : Covered c s.die where
  disk _ hb := by cases hb
  current _ hw := by cases hw
  ran _ _ hn := by cases hn

theorem Covered.scan {s : State} (h : Covered c s) (p : Handle) :
    Covered c (step c s (.scan p)) := by
  -- every wallet has at least what it had
  have hgrow : ∀ q, ∀ m ∈ (s.onNative p (Native.scan c.tip)).natives q,
      ∃ n ∈ s.natives q, n.image.scanned ⊆ m.image.scanned := by
    intro q m hm
    by_cases hq : q = p
    · rw [hq, Option.mem_def, natives_onNative_self] at hm
      obtain ⟨n, hn, rfl⟩ := Option.map_eq_some_iff.1 hm
      exact ⟨n, hq ▸ hn, scanned_scan _ _⟩
    · rw [natives_onNative_of_ne s hq] at hm
      exact ⟨m, hm, subset_rfl⟩
  refine ⟨h.disk, fun w hw m hm => ?_, fun q m hm => ?_⟩
  · obtain ⟨n, hn, hsub⟩ := hgrow w.impl m hm
    exact (h.current w hw n hn).mono hsub
  · obtain ⟨n, hn, hsub⟩ := hgrow q m hm
    exact (h.ran q n hn).mono hsub

theorem Covered.block {s : State} (h : Covered c s) (i : ℕ) (env : Env) :
    Covered c (step c s (.block i env)) := by
  rcases step_block (c := c) s i env with heq | ⟨b, hb, hrun⟩
  · rw [heq]
    exact h
  · have hrest : ∀ j, AllCover c s.app.blocks j → AllCover c (s.app.blocks.eraseIdx i) j :=
      fun j hj b' hb' => hj b' (List.mem_of_mem_eraseIdx hb')
    refine ⟨?_, fun w hw m hm => ?_, fun q m hm => ?_⟩
    · rw [hrun.blocks, hrun.disk]
      exact hrest _ h.disk
    · rw [hrun.wallet] at hw
      rw [Option.mem_def, hrun.natives, if_pos (Option.mem_def.1 hw)] at hm
      obtain ⟨n, hn, rfl⟩ := Option.map_eq_some_iff.1 hm
      rw [hrun.blocks]
      exact hrest _ (h.current w hw n hn)
    · rw [Option.mem_def, hrun.natives] at hm
      rw [hrun.ran]
      split at hm
      · rename_i hq
        obtain ⟨n, hn, rfl⟩ := Option.map_eq_some_iff.1 hm
        rw [if_pos hq]
        intro b' hb'
        rcases List.mem_append.1 hb' with hb' | hb'
        · exact h.ran q n hn b' hb'
        · rw [List.mem_singleton.1 hb']
          exact h.current _ hq n hn b hb
      · rename_i hq
        rw [if_neg hq]
        exact h.ran q m hm

/-- Code with quiet effects keeps it, cut or not, if the blocks cover the file. -/
theorem Covered.exec {α : Type} {w : Wallet} {s : State} {m : AppCode α} {env : Env}
    {cut : Option ℕ} (h : Covered c s) (hq : ∀ e ∈ m.log (s.env c env), Quiet w e)
    (hd : AllCover c s.app.blocks (s.exec c m env cut).disk) : Covered c (s.exec c m env cut) := by
  cases cut with
  | some k => exact covered_die _
  | none =>
    have hst : SameProcess w s (s.exec c m env none) := perform_quiet s hq
    refine ⟨?_, ?_, ?_⟩
    · rw [hst.blocks]
      exact hd
    · rw [hst.wallet, hst.natives, hst.blocks]
      exact h.current
    · rw [hst.natives, hst.ran]
      exact h.ran

theorem Covered.exec_nil {α : Type} {s : State} {m : AppCode α} {env : Env} (h : Covered c s)
    (hlog : m.log (s.env c env) = []) (cut : Option ℕ) : Covered c (s.exec c m env cut) := by
  rw [Recovery.exec_nil hlog]
  split
  · exact covered_die s
  · exact h

theorem Covered.opening {s : State} {o : Opening} {env : Env} {cut : Option ℕ} (ho : OnFile c o)
    (h : Covered c s) (hb : Covers c o.block.recovering o.block.restoreHeight s.disk) :
    Covered c (s.exec c o.code env cut) := by
  cases cut with
  | some k => exact covered_die _
  | none =>
    have hopened : Opened s (s.exec c o.code env none) _ _ := perform_opening s ho rfl
    have hall : AllCover c (s.exec c o.code env none).app.blocks s.disk := by
      intro b hb'
      rw [hopened.blocks, List.mem_append, List.mem_singleton] at hb'
      rcases hb' with hb' | rfl
      · exact h.disk b hb'
      · exact hb
    refine ⟨?_, fun w hw n hn => ?_, fun q m hm => ?_⟩
    · rw [disk_opening]
      exact hall
    · obtain rfl : w = ⟨o.handle (s.env c env)⟩ := Option.some.inj (hw.symm.trans hopened.wallet)
      rw [Option.mem_def, hopened.natives, Function.update_self] at hn
      rw [← Option.some.inj hn]
      exact hall
    · rw [Option.mem_def, hopened.natives] at hm
      rw [hopened.ran]
      by_cases hq : q = o.handle (s.env c env)
      · rw [hq, Function.update_self]
        exact fun b hb' => by cases hb'
      · rw [Function.update_of_ne hq] at hm ⊢
        exact h.ran q m hm

theorem Covered.step {s : State} {e : Event} (h : Covered c s) (hi : Inv c s)
    (hrec : Recorded c s.app.record) (ha : Asked c s e) : Covered c (step c s e) := by
  cases e with
  | scan p => exact h.scan p
  | block i env => exact h.block i env
  | kill => exact covered_die s
  | openSaved env cut =>
    change Covered c (s.exec c openSavedWallet env cut)
    rcases openSaved_cases hrec env with hlog | ⟨o, ho, hb, hlog⟩
    · exact h.exec_nil hlog cut
    · rw [exec_congr hlog]
      refine h.opening ho ?_
      rw [hb]
      exact hi.filed.covers
  | save env cut =>
    cases hw : s.app.wallet with
    | none => exact h.exec_nil (log_save_none hw env) cut
    | some w =>
      obtain ⟨n, hn⟩ := hi.current w hw
      refine h.exec (quiet_save hw hn env) ?_
      rw [(exec_save (c := c) hw hn env cut).2]
      split
      · exact h.current w hw n hn
      · exact h.disk
  | refreshed w env cut =>
    simp only [Recovery.step]
    split
    · rename_i hw
      by_cases hdel : env.delegate w = true
      · refine h.exec (quiet_refreshed w _) ?_
        rw [(exec_refreshed (c := c) s w hdel cut).2]
        split
        · rename_i h1
          have hall := ha hw hdel (reached_mono (by omega) h1.1)
          rw [if_pos h1] at hall
          exact fun b _ => hall.covers
        · exact h.disk
      · refine h.exec_nil ?_ cut
        rw [Callback.log_listener]
        exact if_neg hdel
    · exact h

/-- **A recovery with nothing pending.**  Where no background block is left when
    it begins, the library is told in time by the recovery's own blocks, and
    nothing is asked of the scans. -/
theorem recovery_alone_iff (c : Params) {p : App} (hp : p.blocks = []) (earlier : List Wallet)
    (memo : String) (env : Env) (cut : Option ℕ) (es : List Event) :
    Runs.Always (Recovery.step c) (OnRecord c) (start c p earlier memo env cut) es ↔
      Whole c p.record cut ∧ Runs.Guarded (Recovery.step c)
        (fun s e => (∀ h, e ≠ .scan h) → Careful c s e) (start c p earlier memo env cut) es := by
  have hstart : Covered c (start c p earlier memo env cut) := by
    rw [start_eq]
    refine Covered.opening rfl ⟨fun b hb => ?_, fun w hw n hn => ?_, fun q n hn => ?_⟩ ?_
    · rw [show p.blocks = [] from hp] at hb
      cases hb
    · cases hn
    · cases hn
    · exact covers_new.2 fun _ => ⟨rfl, UInt64.le_refl _⟩
  have hasked : ∀ s e, Inv c s ∧ Covered c s → ((∀ h, e ≠ .scan h) → Asked c s e) →
      Asked c s e := by
    intro s e h ha
    cases e with
    | scan p => exact fun n hn => (h.2.ran p n hn).told
    | _ => exact ha (fun _ => Event.noConfusion)
  have hruns : Whole c p.record cut →
      (Runs.Always (Recovery.step c) (OnRecord c) (start c p earlier memo env cut) es ↔
        Runs.Guarded (Recovery.step c) (fun s e => (∀ h, e ≠ .scan h) → Careful c s e)
          (start c p earlier memo env cut) es) := by
    intro hw
    refine Runs.always_iff_guarded (fun s => Recorded c s.app.record → Inv c s ∧ Covered c s)
      (fun s h hrec => (h hrec).1.behind) ?_ ?_
      fun hrec => ⟨inv_start p earlier memo env cut hw hrec, hstart⟩
    · intro s e h hg hrec
      have hrec' : Recorded c s.app.record := (walletFile_step s e).symm.trans hrec
      have ha := hasked s e (h hrec') fun he => hg he hrec'
      exact ⟨(h hrec').1.step hrec' ha, (h hrec').2.step (h hrec').1 hrec' ha⟩
    · intro s e h hon _ hrec
      exact (h hrec).1.asked (hon ((walletFile_step s e).trans hrec))
  constructor
  · intro h
    have hw := (start_iff p earlier memo env cut).1 h.head
    exact ⟨hw, (hruns hw).1 h⟩
  · exact fun h => (hruns h.1).2 h.2

end Recovery

end Monujo
