/-
  Background initialisation.

  `initWallet` makes a wallet current and dispatches a block that initialises
  it; the block looks `WalletStore.wallet` up when it runs.  Whatever calls of
  `initWallet` are made, and in whatever order the blocks run, between them and
  between later calls: when all have run, each wallet has been initialised once
  and with its own flag and height if and only if no wallet was made current
  twice and each block ran before the next call (`initialised_iff`).
-/
import Monujo.Lib.LateBinding
import Monujo.Model.WalletStore

namespace Monujo

open Monero WalletStore

namespace Dispatch

structure State where
  app : App
  /-- The blocks that have run, by their place in `app.blocks`. -/
  ran : List ℕ

/-- A process that has dispatched nothing yet. -/
def start (r : Record) (wallet : Option Wallet) : State := ⟨⟨r, wallet, [], []⟩, []⟩

inductive Event where
  | initWallet (w : Wallet) (walletFile : String) (recovering : Bool) (restoreHeight : UInt64)
      (env : Env)
  /-- The `i`-th block runs; a block runs once. -/
  | block (i : ℕ) (env : Env)

/-- Block `i` is dispatched and has not run. -/
def State.Pending (s : State) (i : ℕ) : Prop := i < s.app.blocks.length ∧ i ∉ s.ran

instance (s : State) : DecidablePred s.Pending :=
  fun i => inferInstanceAs (Decidable (i < s.app.blocks.length ∧ i ∉ s.ran))

def step (s : State) : Event → State
  | .initWallet w f r h env =>
    { s with app := s.app.perform ((initWallet w f r h).log (s.app.env env)) }
  | .block i env =>
    if h : s.Pending i then
      { app := s.app.perform ((initBlock (s.app.blocks.get ⟨i, h.1⟩)).log (s.app.env env))
        ran := s.ran ++ [i] }
    else s

/-- The wallets made current, with the blocks dispatched for them. -/
def dispatched (es : List Event) : List (Wallet × Block) :=
  es.filterMap fun
    | .initWallet w _ r h _ => some (w, ⟨r, h⟩)
    | .block .. => none

/-- The calls made on the native wallet `h`, in order. -/
def callsOn (h : Handle) (cs : List Call) : List WalletCall :=
  cs.filterMap fun
    | .wallet h' c => if h' = h then some c else none
    | _ => none

/-- The initialisation a block is dispatched for. -/
def initCalls (b : Block) : List WalletCall :=
  (if b.recovering then
    [.setRecoveringFromSeed true, .setRefreshFromBlockHeight b.restoreHeight] else []) ++
    [.initAsync (cstr daemonURL) 0]

/-- The wallets `ws` have been initialised, each once and for itself. -/
structure Initialised (s : State) (ws : List (Wallet × Block)) : Prop where
  own : ∀ w b, (w, b) ∈ ws → callsOn w.impl s.app.calls = initCalls b
  /-- A wallet that was not made current has received nothing. -/
  others : ∀ w, w ∉ ws.map Prod.fst → callsOn w.impl s.app.calls = []

/-- All blocks have run. -/
def State.Complete (s : State) : Prop := ∀ i, i < s.app.blocks.length → i ∈ s.ran

instance : DecidablePred State.Complete :=
  fun s => inferInstanceAs (Decidable (∀ i, i < s.app.blocks.length → i ∈ s.ran))

/-- A block runs before the next call of `initWallet`. -/
def Prompt (s : State) : Event → Prop
  | .initWallet .. => True
  | .block i _ => s.Pending i → i + 1 = s.app.blocks.length

instance : ∀ s e, Decidable (Prompt s e)
  | _, .initWallet .. => inferInstanceAs (Decidable True)
  | s, .block i _ => inferInstanceAs (Decidable (s.Pending i → i + 1 = s.app.blocks.length))

/-! ## The dispatch queue binds late -/

theorem log_initBlock (b : Block) (env : Env) {w : Wallet} (hw : env.wallet = some w) :
    callsOf ((initBlock b).log env) = (initCalls b).map (Call.wallet w.impl) := by
  cases hb : b.recovering <;> simp [initBlock, hw, Wallet.initWalletAsync, initCalls, hb] <;> rfl

/-- A block only makes calls. -/
theorem app_initBlock (b : Block) (env : Env) (s : App) :
    (s.perform ((initBlock b).log env)).blocks = s.blocks ∧
      (s.perform ((initBlock b).log env)).wallet = s.wallet := by
  cases hw : env.wallet with
  | none => simp [initBlock, hw]
  | some w =>
    cases hb : b.recovering <;> simp [initBlock, hw, Wallet.initWalletAsync, hb] <;>
      exact ⟨rfl, rfl⟩

theorem callsOn_map (h h' : Handle) (cs : List WalletCall) :
    callsOn h (cs.map (Call.wallet h')) = if h' = h then cs else [] := by
  by_cases hh : h' = h <;> simp [callsOn, hh]

theorem callsOn_append (h : Handle) (cs ds : List Call) :
    callsOn h (cs ++ ds) = callsOn h cs ++ callsOn h ds := List.filterMap_append

/-- An event of the app as one of the queue. -/
def Event.abs : Event → LateBinding.Event Wallet Block
  | .initWallet w _ r h _ => .submit w ⟨r, h⟩
  | .block i _ => .run i

/-- The app and the queue: what the calls so far have made of each wallet is
    what its jobs do. -/
structure Sim (s : State) (q : LateBinding.State Wallet Block) : Prop where
  inv : LateBinding.Inv q
  blocks : s.app.blocks = q.jobs.map Prod.snd
  ran : s.ran = q.done.map Prod.fst
  wallet : q.jobs ≠ [] → s.app.wallet = q.jobs.getLast?.map Prod.fst
  calls : ∀ w : Wallet, callsOn w.impl s.app.calls = (q.served w).flatMap initCalls

theorem Sim.pending {s : State} {q : LateBinding.State Wallet Block} (h : Sim s q) (i : ℕ) :
    s.Pending i ↔ q.Pending i := by
  simp [State.Pending, LateBinding.State.Pending, h.blocks, h.ran]

theorem Sim.prompt {s : State} {q : LateBinding.State Wallet Block} (h : Sim s q) (e : Event) :
    Prompt s e ↔ LateBinding.Prompt q e.abs := by
  cases e with
  | initWallet w f r t env => simp [Prompt, Event.abs, LateBinding.Prompt]
  | block i env => simp [Prompt, Event.abs, LateBinding.Prompt, h.pending, h.blocks]

theorem Sim.complete {s : State} {q : LateBinding.State Wallet Block} (h : Sim s q) :
    s.Complete ↔ q.Complete := by
  simp [State.Complete, LateBinding.State.Complete, h.blocks, h.ran]

/-- One step of the app is one step of the queue. -/
theorem Sim.step {s : State} {q : LateBinding.State Wallet Block} (h : Sim s q) (e : Event) :
    Sim (step s e) (LateBinding.step q e.abs) := by
  cases e with
  | initWallet w f r t env =>
    refine ⟨h.inv.step _, ?_, h.ran, ?_, fun v => ?_⟩
    · simp [Dispatch.step, Event.abs, LateBinding.step, initWallet, put, App.apply, h.blocks]
    · intro _
      simp [Dispatch.step, Event.abs, LateBinding.step, initWallet, put, App.apply]
    · rw [Event.abs, h.inv.served_submit, ← h.calls]
      simp [Dispatch.step, initWallet, put, App.apply]
  | block i env =>
    by_cases hi : s.Pending i
    · have hq := (h.pending i).1 hi
      have hne : q.jobs ≠ [] := List.ne_nil_of_length_pos (Nat.zero_lt_of_lt hq.1)
      obtain ⟨last, hlast⟩ : ∃ last, q.jobs.getLast? = some last :=
        ⟨_, List.getLast?_eq_some_getLast hne⟩
      have hw : s.app.wallet = some last.1 := by rw [h.wallet hne, hlast]; rfl
      have hjob : q.jobs[i]?.map Prod.snd = some (s.app.blocks.get ⟨i, hi.1⟩) := by
        simp [List.getElem?_eq_getElem hq.1, h.blocks]
      have hstep : Dispatch.step s (.block i env) =
          { app := s.app.perform ((initBlock (s.app.blocks.get ⟨i, hi.1⟩)).log (s.app.env env))
            ran := s.ran ++ [i] } := dif_pos hi
      have hkeep := app_initBlock (s.app.blocks.get ⟨i, hi.1⟩) (s.app.env env) s.app
      have hqstep : LateBinding.step q (.run i) =
          { q with done := q.done ++ [(i, q.jobs.length - 1)] } := if_pos hq
      refine ⟨h.inv.step _, ?_, ?_, ?_, fun v => ?_⟩
      · rw [hstep, Event.abs, hqstep, hkeep.1, h.blocks]
      · simp [hstep, Event.abs, hqstep, h.ran]
      · rw [hstep, Event.abs, hqstep, hkeep.2]
        exact h.wallet
      · have hone : (if last.1 = v then [s.app.blocks.get ⟨i, hi.1⟩] else []).flatMap initCalls =
            if last.1.impl = v.impl then initCalls (s.app.blocks.get ⟨i, hi.1⟩) else [] := by
          by_cases hlv : last.1 = v
          · simp [hlv]
          · have hne' : last.1.impl ≠ v.impl := fun he => hlv (congrArg Wallet.mk he)
            simp [hlv, hne']
        rw [hstep, Event.abs, LateBinding.served_run hq (by rw [hlast]; rfl) hjob,
          List.flatMap_append, ← h.calls, App.calls_perform, callsOn_append,
          log_initBlock _ _ hw, callsOn_map, hone]
    · have hq := mt (h.pending i).2 hi
      simpa [Dispatch.step, Event.abs, LateBinding.step, hi, hq] using h

theorem sim_start (r : Record) (wallet : Option Wallet) :
    Sim (start r wallet) LateBinding.start where
  inv := LateBinding.inv_run []
  blocks := rfl
  ran := rfl
  wallet h := absurd rfl h
  calls _ := rfl

/-- The queue holds what was dispatched. -/
theorem jobs_run (es : List Event) (q : LateBinding.State Wallet Block) :
    (Runs.run LateBinding.step q (es.map Event.abs)).jobs = q.jobs ++ dispatched es := by
  induction es generalizing q with
  | nil => simp [dispatched]
  | cons e es ih =>
    rw [List.map_cons, Runs.run_cons, ih]
    cases e with
    | initWallet w f r t env => simp [Event.abs, LateBinding.step, dispatched]
    | block i env =>
      simp only [Event.abs, LateBinding.step]
      split <;> simp [dispatched]

/-- One `initAsync` a wallet is one job a wallet. -/
theorem length_of_initCalls {bs : List Block} {b : Block}
    (h : bs.flatMap initCalls = initCalls b) : bs.length = 1 := by
  have hcount : ∀ c : Block, (initCalls c).count (.initAsync (cstr daemonURL) 0) = 1 := by
    intro c
    cases hc : c.recovering <;> simp [initCalls, hc]
  have hsum : (bs.flatMap initCalls).count (.initAsync (cstr daemonURL) 0) = bs.length := by
    simp [List.count_flatMap, Function.comp_def, hcount]
  rw [← hsum, h, hcount]

/-- **When background initialisation reaches its wallets.**  Take any calls of
    `initWallet` and any order of the dispatched blocks in which all of them
    have run. -/
theorem initialised_iff (r : Record) (wallet : Option Wallet) (es : List Event)
    (hc : (Runs.run step (start r wallet) es).Complete) :
    Initialised (Runs.run step (start r wallet) es) (dispatched es) ↔
      ((dispatched es).map Prod.fst).Nodup ∧ Runs.Guarded step Prompt (start r wallet) es := by
  have hstep : ∀ s q e, Sim s q → Sim (step s e) (LateBinding.step q e.abs) :=
    fun _ _ e h => h.step e
  have hsim := Runs.run_sim hstep (sim_start r wallet) es
  have hguard := Runs.guarded_sim hstep (fun _ _ e h => h.prompt e) (sim_start r wallet) es
  have hjobs : (Runs.run LateBinding.step LateBinding.start (es.map Event.abs)).jobs =
      dispatched es := jobs_run es _
  have hqc := hsim.complete.1 hc
  have hown := LateBinding.inv_run (es.map Event.abs)
  rw [hguard, LateBinding.prompt_iff, ← hjobs]
  constructor
  · intro hinit
    refine hown.own_of_length hqc fun w hw => ?_
    obtain ⟨⟨w, b⟩, hwb, rfl⟩ := List.mem_map.1 hw
    exact length_of_initCalls ((hsim.calls w).symm.trans (hinit.own w b hwb))
  · rintro ⟨hnd, hdiag⟩
    refine ⟨fun w b hwb => ?_, fun w hw => ?_⟩
    · rw [hsim.calls, hown.served_eq hqc hnd hdiag hwb]
      simp
    · rw [hsim.calls, hown.served_eq_nil hw]
      rfl

/-- Two wallets, each initialised before the next is made current. -/
theorem initialised_prompt :
    let es : List Event := [.initWallet ⟨1⟩ "a.dat" true 1200000 default, .block 0 default,
      .initWallet ⟨2⟩ "b.dat" false 0 default, .block 1 default]
    Initialised (Runs.run step (start (fun _ => none) none) es) (dispatched es) :=
  (initialised_iff (fun _ => none) none _ (by decide)).2 ⟨by decide, by decide⟩

/-- Two wallets made current before either block runs: the second is
    initialised twice, once with the flag and the height of the first. -/
theorem not_initialised_late :
    let es : List Event := [.initWallet ⟨1⟩ "a.dat" true 1200000 default,
      .initWallet ⟨2⟩ "b.dat" false 0 default, .block 0 default, .block 1 default]
    let s := Runs.run step (start (fun _ => none) none) es
    s.Complete ∧ callsOn 1 s.app.calls = [] ∧
      callsOn 2 s.app.calls = initCalls ⟨true, 1200000⟩ ++ initCalls ⟨false, 0⟩ ∧
      ¬ Initialised s (dispatched es) := by
  refine ⟨by decide, by decide, by decide, fun h => ?_⟩
  have hown := h.own ⟨1⟩ ⟨true, 1200000⟩ (by decide)
  revert hown
  decide

end Dispatch

end Monujo
