/-
  What the main screen reopens.

  The session record outlives the process.  `main_reopens`: in every run, over
  any number of processes, the main screen asks the library for the file that a
  login form has recorded last with the password that one has recorded last, if
  the file is still there, and presents the login otherwise.  A process may die
  between the two writes, so the two may be of different forms.
  `session_frame`: only a login form, a saving and a reported refresh change
  what is reopened, and how.
-/
import Monujo.Proof.Routine

namespace Monujo

open Monero WalletStore
open WalletViewController.Labels (Looks app? filterMap_app?_map)

namespace Reopening

/-! ## What has been named -/

/-- The operation a login form asks for. -/
def ask (i : Input) : Option Opening :=
  match i.event with
  | .submit form => form.opening?
  | _ => none

/-- What an operation writes before the process dies.  It makes three calls of
    the library first. -/
def written (o : Opening) (cut : Option ℕ) : List (Write Key.Val) :=
  cut.elim o.writes fun k => o.writes.take (k - 3)

/-- What an input records for a login form. -/
def recorded (i : Input) : List (Write Key.Val) := (ask i).elim [] fun o => written o i.cut

/-- The record, if only the login forms wrote it. -/
def named (x : Record) (is : List Input) : Record := x.put (is.flatMap recorded)

/-- The path and the password of the wallet to reopen, if it is there. -/
def target (r : ScreenEnv) (file password : Option String) : Option (String × String) :=
  match file, password with
  | some f, some p =>
    ((walletFile r.documents f).filter fun path => r.fileExists path).map fun path => (path, p)
  | _, _ => none

/-- The call of the library that reopens it. -/
def request (t : String × String) : ManagerCall :=
  .openWallet (some (cstr t.1)) (cstr t.2) testNet

/-- The call of the manager an effect is, if it is one. -/
def manager? : Effect → Option ManagerCall
  | .call (.manager c) _ => some c
  | _ => none

/-- The calls of the manager a process has made. -/
def managed (s : Process) : List ManagerCall := s.log.filterMap manager?

/-- The process `t` is `s` after its main screen has reopened `target`, or
    presented the login. -/
structure Reopens (s t : Process) (r : ScreenEnv) (target : Option (String × String)) : Prop where
  login : t.login = target.isNone
  managed : managed t = managed s ++ target.toList.map request
  wallet : t.app.wallet =
    target.elim s.app.wallet fun p => some ⟨(r.answers (.manager (request p)) : Handle)⟩

/-! ## The record -/

theorem record_run (s : Process) (es : List ScreenEffect) :
    (Runs.run Process.applyScreen s es).app.record =
      s.app.record.put (writesOf (es.filterMap app?)) := by
  rw [Process.app_run, App.record_perform]

/-- The record of `t` is that of `s`, but for the keys of `K`. -/
def KeepsBut (K : Key → Prop) (s t : Process) : Prop :=
  ∀ k, ¬ K k → t.app.record k = s.app.record k

/-- What the effect writes is under a key of `K`. -/
def Writes (K : Key → Prop) (e : ScreenEffect) : Prop := ∀ w, e = .app (.write w) → K w.key

theorem keeps_applyScreen (s : Process) {K : Key → Prop} {e : ScreenEffect} (h : Writes K e) :
    KeepsBut K s (s.applyScreen e) := by
  intro k hk
  cases e with
  | heights | text => rfl
  | app e =>
    cases e with
    | write w =>
      refine Store.set_of_ne _ fun heq => hk ?_
      rw [heq]
      exact h w rfl
    | call | assign | background | main | refreshedAt | «show» | setDelegate => rfl

/-- Outside the operations, only savings and reported refreshes write. -/
theorem writes_effects (s : Process) (i : Input) (hmain : i.event ≠ .mainAppears)
    (hsubmit : ∀ form, i.event ≠ .submit form) :
    ∀ e ∈ s.effects i, Writes (Routine.written i.event) e := by
  refine Routine.effects_of s i (fun hopening => ?_) (fun e hlook w heq => ?_)
    (fun _ _ _ e hconnects w heq => ?_) (fun e hroutine w heq => ?_)
  · obtain hopening | ⟨form, hopening⟩ := hopening
    · exact absurd hopening hmain
    · exact absurd hopening (hsubmit form)
  · subst heq
    exact hlook.elim
  · cases heq
    exact hconnects.elim
  · cases heq
    exact hroutine

/-- Outside the operations, the record is written by savings and by reported
    refreshes. -/
theorem keeps_step (s : Process) (i : Input) (hmain : i.event ≠ .mainAppears)
    (hsubmit : ∀ form, i.event ≠ .submit form) :
    KeepsBut (Routine.written i.event) s (s.step i) := by
  have hrun : KeepsBut (Routine.written i.event) s (Runs.run Process.applyScreen s
      (i.reached (s.trace i.env (s.effects i)))) := by
    refine s.run_keeps i.env (fun _ _ _ => rfl)
      (fun _ _ _ hst htu k hk => (htu k hk).trans (hst k hk)) ?_
      (fun _ _ he => keeps_applyScreen _ he) (writes_effects s i hmain hsubmit)
      (i.reached_prefix _)
    rintro e he w rfl
    exact he.elim
  intro k hk
  rw [s.record_step i]
  exact hrun k hk

theorem written_keys {e : Event} {k : Key} (h : Routine.written e k) :
    k = .isRecovering ∨ k = .restoreHeight := by
  cases e with
  | enterBackground => exact .inr h
  | callback w c => exact .inl h.2
  | _ => exact h.elim

/-! ## The operations -/

/-- **What an operation writes** before the process dies. -/
theorem writesOf_take (s : Process) (r : ScreenEnv) (o : Opening) (env : Env) (k : ℕ) :
    writesOf (((s.trace r ((o.code.log env).map .app)).take k).filterMap app?) =
      o.writes.take (k - 3) := by
  set es := o.native env ++ o.writes.map Effect.write with hes
  have hlog : (o.code.log env).map ScreenEffect.app =
      es.map .app ++ [.app (.assign ⟨o.handle env⟩), .app (.background o.block)] := by
    rw [o.log_code, List.map_append]
    rfl
  have hassign : ∀ e ∈ es.map ScreenEffect.app, ∀ w, e ≠ .app (.assign w) := by
    rintro e he w rfl
    obtain ⟨e', he', heq⟩ := List.mem_map.1 he
    cases heq
    simp [hes, Opening.native] at he'
  -- what comes after the writes writes nothing
  have hrest : ∀ n, writesOf ((((s.perform r (es.map .app)).trace r
      [.app (.assign ⟨o.handle env⟩), .app (.background o.block)]).take n).filterMap
        app?) = [] := by
    intro n
    refine List.filterMap_eq_nil_iff.2 fun e he => ?_
    obtain ⟨e', he', happ⟩ := List.mem_filterMap.1 he
    have hwrites : Writes (fun _ => False) e' := by
      refine Process.trace_of _ r (fun e he w heq => ?_) ?_ e' (List.mem_of_mem_take he')
      · subst heq
        exact he
      · simp [Writes]
    cases e' with
    | heights | text => cases happ
    | app e' =>
      cases happ
      cases e with
      | write w => exact (hwrites w rfl).elim
      | call | assign | background | main | refreshedAt | «show» | setDelegate => rfl
  have hnative : writesOf ((o.native env).take k) = [] :=
    List.eq_nil_of_prefix_nil (o.writesOf_native env ▸ (List.take_prefix k _).filterMap _)
  rw [hlog, Process.trace_append, Process.trace_eq s r hassign, List.take_append,
    List.filterMap_append, writesOf_append, hrest, List.append_nil, ← List.map_take,
    filterMap_app?_map, hes, List.take_append, writesOf_append,
    hnative, List.nil_append, ← List.map_take, Opening.writesOf_map_write]
  rfl

/-- What an operation records, which the process may not survive. -/
theorem record_opening (s : Process) {i : Input} {o : Option Opening}
    (h : s.effects i = (o.elim [] fun o => o.code.log (s.env i.env).toEnv).map .app) :
    (s.step i).app.record = s.app.record.put (o.elim [] fun o => written o i.cut) := by
  rw [s.record_step, record_run, h, Input.reached]
  rcases o with _ | o
  · rcases i.cut with _ | k
    · rfl
    · rw [Option.elim_none, List.map_nil, Process.trace_nil, Option.elim_some, List.take_nil]
      rfl
  · rcases i.cut with _ | k
    · have hwhole := s.record_perform i.env ((o.code.log (s.env i.env).toEnv).map .app)
      rw [filterMap_app?_map, o.writesOf_log, Process.perform, record_run] at hwhole
      exact hwhole
    · exact congrArg s.app.record.put (writesOf_take s i.env o _ k)

/-- What code that assigns nothing records, which the process may not survive. -/
theorem record_code (s : Process) {i : Input} {es : List Effect} (h : s.effects i = es.map .app)
    (hassign : ∀ w, Effect.assign w ∉ es) :
    (s.step i).app.record =
      s.app.record.put (writesOf (i.cut.elim es fun k => es.take k)) := by
  have htrace : s.trace i.env (es.map .app) = es.map .app := by
    refine s.trace_eq i.env ?_
    rintro e he w rfl
    obtain ⟨e', he', heq⟩ := List.mem_map.1 he
    cases heq
    exact hassign w he'
  rw [s.record_step, record_run, h, htrace, Input.reached]
  rcases i.cut with _ | k
  · rw [Option.elim_none, filterMap_app?_map]
    rfl
  · rw [Option.elim_some, ← List.map_take, filterMap_app?_map]
    rfl

theorem written_subset (o : Opening) (cut : Option ℕ) : written o cut ⊆ o.writes := by
  rcases cut with _ | k
  · exact List.Subset.refl _
  · exact List.take_subset _ _

/-- Reopening records what is on record. -/
theorem readsSame_mainAppears (s : Process) (r : ScreenEnv) (cut : Option ℕ) :
    Record.ReadsSame s.app.record (s.step ⟨.mainAppears, r, cut⟩).app.record := by
  rw [record_opening s (s.effects_mainAppears r cut)]
  rcases hsaved : saved (s.env r).toEnv with _ | o
  · exact Record.ReadsSame.equivalence.refl _
  · exact readsSame_saved hsaved (written_subset o cut)

/-- The file and the password on record after an input. -/
theorem step_names (s : Process) (i : Input) :
    (s.step i).app.record .walletFile = s.app.record.put (recorded i) .walletFile ∧
      (s.step i).app.record .password = s.app.record.put (recorded i) .password := by
  by_cases hmain : i.event = .mainAppears
  · obtain ⟨e, r, cut⟩ := i
    cases hmain
    have hsame := readsSame_mainAppears s r cut
    exact ⟨hsame.walletFile, hsame.password⟩
  by_cases hsubmit : ∃ form, i.event = .submit form
  · obtain ⟨e, r, cut⟩ := i
    obtain ⟨form, rfl⟩ := hsubmit
    rw [record_opening s (s.effects_submit r form cut)]
    exact ⟨rfl, rfl⟩
  · have hrecorded : recorded i = [] := by
      unfold recorded ask
      split
      · rename_i form hform
        exact absurd ⟨form, hform⟩ hsubmit
      · rfl
    have hkeeps := keeps_step s i hmain fun form hform => hsubmit ⟨form, hform⟩
    rw [hrecorded]
    refine ⟨hkeeps _ fun h => ?_, hkeeps _ fun h => ?_⟩
    · rcases written_keys h with h | h <;> cases h
    · rcases written_keys h with h | h <;> cases h

/-- **What is on record** after a run: what was named last. -/
theorem run_names (s : Process) (is : List Input) :
    (Runs.run Process.step s is).app.record .walletFile = named s.app.record is .walletFile ∧
      (Runs.run Process.step s is).app.record .password = named s.app.record is .password := by
  induction is using List.reverseRecOn with
  | nil => exact ⟨rfl, rfl⟩
  | append_singleton is i ih =>
    obtain ⟨hfile, hpassword⟩ := step_names (Runs.run Process.step s is) i
    have hnamed : named s.app.record (is ++ [i]) = (named s.app.record is).put (recorded i) := by
      rw [named, List.flatMap_append, List.flatMap_singleton]
      exact List.foldl_append
    rw [Runs.run_concat, hnamed, hfile, hpassword]
    exact ⟨Store.put_congr ih.1 _, Store.put_congr ih.2 _⟩

/-! ## Reopening -/

/-- An operation makes its wallet the current one. -/
theorem wallet_open? (s : Process) (r : ScreenEnv) (o : Opening) :
    (s.open? r (some o)).app.wallet = some ⟨o.handle (s.env r).toEnv⟩ := by
  rw [Process.open?, Option.elim_some, s.wallet_perform, filterMap_app?_map, o.assigns_log]
  rfl

theorem managed_open? (s : Process) (r : ScreenEnv) (o : Opening) :
    managed (s.open? r (some o)) = managed s ++ [o.request r.documents] := by
  rw [Process.open?, Option.elim_some, managed, s.log_perform, filterMap_app?_map]
  · cases o <;> rfl
  · rintro e he
    cases e with
    | call c a =>
      cases c with
      | manager c => exact he.elim
      | wallet | static | history | info | pending => rfl
    | write | assign | background | main | refreshedAt | «show» | setDelegate => rfl

/-- The record reopens the target. -/
theorem saved_cases (env : Env) (r : ScreenEnv) (hdocuments : env.documents = r.documents)
    (hexists : env.fileExists = r.fileExists) :
    let t := target r (env.record .walletFile) (env.record .password)
    (saved env = none ∧ t = none) ∨ ∃ o p, saved env = some o ∧ t = some p ∧
      o.request env.documents = request p ∧
      o.handle env = (env.answers (.manager (request p)) : Handle) := by
  simp only [saved, target, hdocuments, hexists]
  rcases env.record .walletFile with _ | f
  · exact .inl ⟨rfl, rfl⟩
  rcases env.record .password with _ | p
  · exact .inl ⟨rfl, rfl⟩
  rcases hpath : walletFile r.documents f with _ | path
  · exact .inl ⟨by simp [hpath], by simp [hpath]⟩
  rcases hthere : r.fileExists path with _ | _
  · exact .inl ⟨by simp [hpath, hthere], by simp [hpath, hthere]⟩
  · refine .inr ⟨.open f p env.record.isRecovering env.record.restoreHeight, (path, p),
      by simp [hpath, hthere], by simp [hpath, hthere], ?_, ?_⟩
    · change ManagerCall.openWallet ((walletFile r.documents f).map cstr) (cstr p) testNet = _
      rw [hpath]
      rfl
    · change (env.answers (.manager (.openWallet ((walletFile env.documents f).map cstr) (cstr p)
        testNet)) : Handle) = _
      rw [hdocuments, hpath]
      rfl

/-- **One appearance** of the main screen, in a process that goes on. -/
theorem step_reopens (s : Process) (r : ScreenEnv) :
    Reopens s (s.step ⟨.mainAppears, r, none⟩) r
      (target r (s.app.record .walletFile) (s.app.record .password)) := by
  rw [Process.step_mainAppears]
  obtain ⟨hsaved, htarget⟩ | ⟨o, p, hsaved, htarget, hrequest, hhandle⟩ :=
    saved_cases (s.env r).toEnv r rfl rfl
  · rw [Process.env_record] at htarget
    rw [hsaved, htarget]
    exact ⟨rfl, (List.append_nil _).symm, rfl⟩
  · rw [Process.env_record] at htarget
    rw [hsaved, htarget]
    refine ⟨rfl, ?_, ?_⟩
    · exact (managed_open? s r o).trans (congrArg (managed s ++ [·]) hrequest)
    · exact (wallet_open? s r o).trans (congrArg (some <| Wallet.mk ·) hhandle)

/-- **What the main screen reopens.** -/
theorem main_reopens (x : Record) (now : Rat) (is : List Input) (r : ScreenEnv) :
    let s := Runs.run Process.step (Process.launch x now) is
    let y := named x is
    Reopens s (s.step ⟨.mainAppears, r, none⟩) r (target r (y .walletFile) (y .password)) := by
  intro s y
  obtain ⟨hfile, hpassword⟩ := run_names (Process.launch x now) is
  have hreopens := step_reopens s r
  rwa [hfile, hpassword] at hreopens

/-- A process that dies between the two writes leaves the new password with the
    old file. -/
example :
    let killed : Input := ⟨.submit (.create (some "holiday") (some "lemon") none), default, some 4⟩
    let y := named (Record.of "savings" "orange" false 0) [killed]
    y .walletFile = some "savings" ∧ y .password = some "lemon" := by decide +kernel

/-! ## What else writes the record -/

/-- The event may change what is reopened, or how. -/
def Touches (e : Event) : Prop :=
  (∃ form, e = .submit form ∧ form.opening?.isSome = true) ∨ e = .enterBackground ∨
    ∃ w, e = .callback w .refreshed

theorem step_readsSame (s : Process) (i : Input) (h : ¬ Touches i.event) :
    Record.ReadsSame s.app.record (s.step i).app.record := by
  obtain ⟨e, r, cut⟩ := i
  by_cases hmain : e = .mainAppears
  · subst hmain
    exact readsSame_mainAppears s r cut
  by_cases hsubmit : ∃ form, e = .submit form
  · obtain ⟨form, rfl⟩ := hsubmit
    have hnone : form.opening? = none := by
      rw [← Option.not_isSome_iff_eq_none]
      exact fun hsome => h (.inl ⟨form, rfl, hsome⟩)
    rw [record_opening s (s.effects_submit r form cut), hnone]
    exact Record.ReadsSame.equivalence.refl _
  · have hwritten : ∀ k, ¬ Routine.written e k := by
      intro k hk
      cases e with
      | enterBackground => exact h (.inr (.inl rfl))
      | callback w c => exact h (.inr (.inr ⟨w, congrArg _ hk.1⟩))
      | _ => exact hk
    have hkeeps := keeps_step s ⟨e, r, cut⟩ hmain fun form hform => hsubmit ⟨form, hform⟩
    exact ⟨hkeeps _ (hwritten _),
      congrArg (fun v : Option Bool => v.getD false) (hkeeps .isRecovering (hwritten _)),
      congrArg (fun v : Option UInt64 => v.getD 0) (hkeeps .restoreHeight (hwritten _)),
      hkeeps _ (hwritten _)⟩

/-- **The frame of the session.**  Whatever else happens, over any number of
    appearances and processes, the same wallet is reopened in the same way. -/
theorem session_frame (s : Process) {is : List Input} (h : ∀ i ∈ is, ¬ Touches i.event) :
    Record.ReadsSame s.app.record (Runs.run Process.step s is).app.record := by
  have hsame := Record.ReadsSame.equivalence
  exact Runs.run_keeps Process.step (R := fun s t => Record.ReadsSame s.app.record t.app.record)
    (fun s => hsame.refl s.app.record) (fun _ _ _ hst htu => hsame.trans hst htu)
    (fun s i hi => step_readsSame s i (h i hi)) s

/-- The saved wallet is reopened, shown, spends, and is reopened again. -/
theorem session_frame_spending :
    let s := Process.launch (Record.of "savings" "orange" true 7) 0
    let is : List Input := [⟨.mainAppears, default, none⟩, ⟨.walletAppears, default, none⟩,
      ⟨.callback ⟨0⟩ (.moneySpent "t" 5), default, none⟩, ⟨.relaunch, default, none⟩,
      ⟨.mainAppears, default, some 4⟩]
    Record.ReadsSame s.app.record (Runs.run Process.step s is).app.record := by
  intro s is
  refine session_frame s fun i hi => ?_
  simp only [is, List.mem_cons, List.not_mem_nil, or_false] at hi
  rcases hi with rfl | rfl | rfl | rfl | rfl <;> simp [Touches]

end Reopening

end Monujo
