/-
  Which blocks have connected which wallets.

  Every operation assigns its wallet and dispatches a block that connects the
  wallet current when it runs.  `connections_conserved`: in every run of the
  app, whatever happens between, the calls that connect wallets are those of
  the blocks that have run, whole and one block after the other, each on the
  wallet assigned last by then; and these blocks and the pending ones are
  together the ones dispatched, none lost and none run twice.  What a process
  has done that has died is the beginning of that.
-/
import Mathlib.Data.List.Perm.Subperm
import Monujo.Proof.Dispatch
import Monujo.Proof.Reopening

namespace Monujo

open Monero WalletStore
open WalletViewController.Labels (Looks)

namespace Connections

/-! ## What the log says -/

/-- The call is one of those by which a wallet is connected. -/
def Connecting : Call → Bool
  | .wallet _ (.setRecoveringFromSeed _) | .wallet _ (.setRefreshFromBlockHeight _)
  | .wallet _ (.initAsync ..) => true
  | _ => false

/-- The calls that connect wallets, in order. -/
def connections (es : List Effect) : List Call := (callsOf es).filter Connecting

/-- The blocks dispatched, in order. -/
def dispatches (es : List Effect) : List Block := es.filterMap Effect.background?

/-- The wallet assigned last. -/
def current (es : List Effect) : Option Wallet := (es.filterMap Effect.assign?).getLast?

/-- The calls of a block that has run on a wallet. -/
def made (p : Wallet × Block) : List Call := (Dispatch.initCalls p.2).map (Call.wallet p.1.impl)

/-- Each of the blocks `ps` has run after it was dispatched, on the wallet that
    was the one assigned last when it began, and without interruption. -/
def Late (es : List Effect) (ps : List (Wallet × Block)) : Prop :=
  ∀ qs p rs, ps = qs ++ p :: rs → ∃ fs ks gs, es = fs ++ ks ++ gs ∧
    connections fs = qs.flatMap made ∧ ((qs ++ [p]).map Prod.snd).Subperm (dispatches fs) ∧
    current fs = some p.1 ∧ ks.map Effect.call? = (made p).map some

/-- Of the blocks dispatched among `es`, those of `ps` have run, in this order
    and each on its wallet, and those of `pending` have not. -/
structure Ran (es : List Effect) (pending : List Block) (ps : List (Wallet × Block)) : Prop where
  calls : connections es = ps.flatMap made
  blocks : (ps.map Prod.snd ++ pending).Perm (dispatches es)
  late : Late es ps

section
variable {es fs : List Effect} {pending : List Block} {ps : List (Wallet × Block)}

theorem connections_append (es fs : List Effect) :
    connections (es ++ fs) = connections es ++ connections fs := by
  rw [connections, callsOf_append, List.filter_append]
  rfl

theorem dispatches_append (es fs : List Effect) :
    dispatches (es ++ fs) = dispatches es ++ dispatches fs := List.filterMap_append

theorem current_concat (es : List Effect) (w : Wallet) :
    current (es ++ [.assign w]) = some w := by
  rw [current, List.filterMap_append]
  exact List.getLast?_concat

theorem current_keep (es : List Effect) {fs : List Effect}
    (hfs : fs.filterMap Effect.assign? = []) : current es = current (es ++ fs) := by
  rw [current, current, List.filterMap_append, hfs, List.append_nil]

theorem connections_made {p : Wallet × Block} (h : es.map Effect.call? = (made p).map some) :
    connections es = made p := by
  have hcalls : callsOf es = made p := by
    have hmap := congrArg (List.filterMap id) h
    rwa [List.filterMap_map, List.filterMap_map, Function.id_comp, Function.id_comp,
      List.filterMap_some] at hmap
  rw [connections, hcalls, made, Dispatch.initCalls]
  cases p.2.recovering <;> rfl

theorem Late.append (h : Late es ps) (fs : List Effect) : Late (es ++ fs) ps := by
  intro qs p rs hps
  obtain ⟨gs, ks, hs, rfl, hran⟩ := h qs p rs hps
  exact ⟨gs, ks, hs ++ fs, List.append_assoc .., hran⟩

/-- What neither connects nor dispatches changes nothing. -/
theorem Ran.later (h : Ran es pending ps) (hcalls : connections fs = [])
    (hblocks : dispatches fs = []) : Ran (es ++ fs) pending ps := by
  obtain ⟨hc, hb, hlate⟩ := h
  refine ⟨?_, ?_, hlate.append fs⟩
  · rw [connections_append, hcalls, List.append_nil, hc]
  · rw [dispatches_append, hblocks, List.append_nil]
    exact hb

/-- A block is dispatched. -/
theorem Ran.dispatch (h : Ran es pending ps) (b : Block) :
    Ran (es ++ [.background b]) (pending ++ [b]) ps := by
  obtain ⟨hc, hb, hlate⟩ := h
  refine ⟨?_, ?_, hlate.append _⟩
  · rw [connections_append, hc]
    exact List.append_nil _
  · rw [dispatches_append, ← List.append_assoc]
    exact hb.append_right [b]

/-- A pending block runs. -/
theorem Ran.run {w : Wallet} {b : Block} {j : ℕ} (h : Ran es pending ps)
    (hb : pending[j]? = some b) (hw : current es = some w)
    (hcalls : fs.map Effect.call? = (made (w, b)).map some) (hblocks : dispatches fs = []) :
    Ran (es ++ fs) (pending.eraseIdx j) (ps ++ [(w, b)]) := by
  obtain ⟨hc, hperm, hlate⟩ := h
  have hmoved : ((ps ++ [(w, b)]).map Prod.snd ++ pending.eraseIdx j).Perm
      (ps.map Prod.snd ++ pending) := by
    obtain ⟨hj, rfl⟩ := List.getElem?_eq_some_iff.1 hb
    rw [List.map_append, List.append_assoc]
    exact (List.getElem_cons_eraseIdx_perm hj).append_left _
  refine ⟨?_, ?_, fun qs p rs hps => ?_⟩
  · rw [connections_append, hc, connections_made hcalls, List.flatMap_append,
      List.flatMap_singleton]
  · rw [dispatches_append, hblocks, List.append_nil]
    exact hmoved.trans hperm
  · rcases List.eq_nil_or_concat rs with rfl | ⟨rs', q, rfl⟩
    · -- the block that has just run
      obtain ⟨rfl, hp⟩ := List.append_inj' hps rfl
      cases hp
      refine ⟨es, fs, [], (List.append_nil _).symm, hc, ?_, hw, hcalls⟩
      exact (List.sublist_append_left _ _).subperm.trans (hmoved.trans hperm).subperm
    · have hps' : ps = qs ++ p :: rs' := by
        rw [List.concat_eq_append, ← List.cons_append, ← List.append_assoc] at hps
        exact (List.append_inj' hps rfl).1
      exact hlate.append fs qs p rs' hps'

end

/-! ## The process -/

/-- The effects are those of a process that may have died in the middle of its
    code. -/
def Begun (es : List Effect) : Prop := ∃ fs pending ps, es <+: fs ∧ Ran fs pending ps

theorem Begun.initial {es fs : List Effect} (h : Begun fs) (hes : es <+: fs) : Begun es := by
  obtain ⟨gs, pending, ps, hfs, hran⟩ := h
  exact ⟨gs, pending, ps, hes.trans hfs, hran⟩

/-- What the log says of the process, whose current wallet a block will find. -/
structure Inv (s : Process) (ps : List (Wallet × Block)) : Prop where
  ran : Ran s.log s.app.blocks ps
  past : ∀ es ∈ s.past, Begun es
  current : s.app.wallet = current s.log
  pending : s.app.blocks ≠ [] → s.app.wallet ≠ none

/-- The effect neither connects a wallet nor dispatches a block. -/
def Plain : ScreenEffect → Prop
  | .app (.call c _) => Connecting c = false
  | .app (.background _) => False
  | _ => True

section
variable {s t : Process} {ps : List (Wallet × Block)}

theorem plain_of_looks {e : ScreenEffect} (h : Looks e) : Plain e := by
  unfold Looks at h
  split at h <;> first | exact h.elim | trivial

theorem plain_of_routine {K : Key → Prop} {Q T : Prop} {e : Effect}
    (h : Routine K Q T e) :
    Plain (.app e) := by
  cases e with
  | call c a =>
    cases c with
    | wallet w c =>
      cases c with
      | setRecoveringFromSeed | setRefreshFromBlockHeight | initAsync => exact h.elim
      | _ => rfl
    | _ => rfl
  | background => exact h.elim
  | write | assign | main | refreshedAt | «show» | setDelegate => trivial

/-- **One effect.** -/
theorem Inv.applyScreen (h : Inv s ps) {e : ScreenEffect} (he : Plain e) :
    Inv (s.applyScreen e) ps := by
  obtain ⟨hran, hpast, hcurrent, hpending⟩ := h
  cases e with
  | heights | text => exact ⟨hran, hpast, hcurrent, hpending⟩
  | app e =>
    cases e with
    | background => exact he.elim
    | call c a =>
      have hcalls : connections [.call c a] = [] := by
        have hplain : Connecting c = false := he
        simp [connections, hplain]
      exact ⟨hran.later hcalls rfl, hpast, hcurrent.trans (current_keep s.log rfl), hpending⟩
    | assign w =>
      exact ⟨hran.later rfl rfl, hpast, (current_concat s.log w).symm,
        fun _ => Option.some_ne_none w⟩
    | write | main | refreshedAt | «show» | setDelegate =>
      exact ⟨hran.later rfl rfl, hpast, hcurrent.trans (current_keep s.log rfl), hpending⟩

theorem Inv.perform (h : Inv s ps) (r : ScreenEnv) {es : List ScreenEffect}
    (hes : ∀ e ∈ es, Plain e) : Inv (s.perform r es) ps :=
  s.perform_keeps r (R := fun s t => ∀ ps, Inv s ps → Inv t ps) (fun _ _ h => h)
    (fun _ _ _ hst htu _ h => htu _ (hst _ h)) (fun _ => plain_of_looks)
    (fun _ _ he _ h => h.applyScreen he) hes ps h

/-- What an operation does before it dispatches its block. -/
def opened (env : Env) (o : Opening) : List Effect :=
  o.native env ++ o.writes.map Effect.write ++ [.assign ⟨o.handle env⟩]

theorem open?_some (r : ScreenEnv) (o : Opening) : s.open? r (some o) =
    (s.perform r ((opened (s.env r).toEnv o).map .app)).applyApp (.background o.block) := by
  have hlog : o.code.log (s.env r).toEnv =
      opened (s.env r).toEnv o ++ [.background o.block] := by
    rw [o.log_code, opened, List.append_assoc _ [_] [_]]
    rfl
  rw [Process.open?, Option.elim_some, hlog, List.map_append, Process.perform_append]
  rfl

theorem plain_opened (o : Opening) (env : Env) :
    ∀ e ∈ (opened env o).map ScreenEffect.app, Plain e := by
  intro e he
  obtain ⟨e', he', rfl⟩ := List.mem_map.1 he
  simp only [opened, Opening.native, List.mem_append, List.mem_cons, List.not_mem_nil,
    or_false, List.mem_map] at he'
  rcases he' with ((rfl | rfl | rfl) | ⟨w, -, rfl⟩) | rfl
  · rfl
  · rfl
  · rfl
  · trivial
  · trivial

/-- An operation makes its wallet the current one and dispatches a block. -/
theorem Inv.open? (h : Inv s ps) (r : ScreenEnv) (o : Option Opening) : Inv (s.open? r o) ps := by
  rcases o with _ | o
  · exact h
  have hopened := Reopening.wallet_open? s r o
  have hplain := h.perform r (plain_opened o (s.env r).toEnv)
  rw [open?_some] at hopened ⊢
  generalize s.perform r _ = t at hopened hplain ⊢
  obtain ⟨hran, hpast, hcurrent, -⟩ := hplain
  refine ⟨hran.dispatch o.block, hpast, hcurrent.trans (current_keep t.log rfl), fun _ hnone => ?_⟩
  cases hnone.symm.trans hopened

theorem calls_initBlock (b : Block) {env : Env} {w : Wallet} (hw : env.wallet = some w) :
    ((initBlock b).log env).map Effect.call? = (made (w, b)).map some := by
  obtain ⟨recovering, restoreHeight⟩ := b
  simp only [initBlock, Code.log_ask_bind, hw]
  cases recovering <;> rfl

/-- A pending block finds a wallet, and connects it. -/
theorem Inv.block (h : Inv s ps) (r : ScreenEnv) {j : ℕ} {b : Block}
    (hb : s.app.blocks[j]? = some b) : ∃ w, Inv (s.step ⟨.block j, r, none⟩) (ps ++ [(w, b)]) := by
  obtain ⟨hran, hpast, hcurrent, hpending⟩ := h
  have hne : s.app.blocks ≠ [] := by
    intro hnil
    rw [hnil] at hb
    cases hb
  obtain ⟨w, hw⟩ := Option.ne_none_iff_exists'.1 (hpending hne)
  have hconnects := Routine.connects_initBlock b (s.env r).toEnv
  have hcalls : ((initBlock b).log (s.env r).toEnv).map Effect.call? = (made (w, b)).map some :=
    calls_initBlock b hw
  have hquiet : ∀ e ∈ (initBlock b).log (s.env r).toEnv,
      e.background? = none ∧ e.assign? = none := by
    intro e he
    obtain ⟨v, -, hv⟩ := hconnects e he
    cases e with
    | background | assign => cases hv
    | call | write | main | refreshedAt | «show» | setDelegate => exact ⟨rfl, rfl⟩
  have hblocks : dispatches ((initBlock b).log (s.env r).toEnv) = [] :=
    List.filterMap_eq_nil_iff.2 fun e he => (hquiet e he).1
  have hassigns : ((initBlock b).log (s.env r).toEnv).filterMap Effect.assign? = [] :=
    List.filterMap_eq_nil_iff.2 fun e he => (hquiet e he).2
  obtain ⟨hlog, happ⟩ := s.perform_app r fun v hv => by
    cases (hquiet _ hv).2
  obtain ⟨hsame, hwallet⟩ := Dispatch.app_initBlock b (s.env r).toEnv s.app
  rw [← happ] at hsame hwallet
  rw [s.step_block_some r hb, Process.runCode]
  refine ⟨w, ?_, ?_, ?_, ?_⟩
  · simp only [hlog, hsame]
    exact hran.run hb (hcurrent.symm.trans hw) hcalls hblocks
  · change ∀ es ∈ (s.perform r _).past, Begun es
    rwa [Process.perform, Process.past_run]
  · simp only [hlog, hwallet]
    exact hcurrent.trans (current_keep s.log hassigns)
  · simp only [hwallet]
    exact fun _ => hpending hne

theorem inv_launch (x : Record) (now : Rat) {past : List (List Effect)}
    (hpast : ∀ es ∈ past, Begun es) : Inv (Process.launch x now past) [] := by
  refine ⟨⟨rfl, .refl _, fun qs p rs hps => ?_⟩, hpast, rfl, fun h => (h rfl).elim⟩
  exact absurd hps (by simp)

theorem Inv.begun (h : Inv s ps) : ∀ es ∈ s.logs, Begun es :=
  List.forall_mem_cons.2 ⟨⟨s.log, s.app.blocks, ps, List.prefix_rfl, h.ran⟩, h.past⟩

/-- **One input**, in a process that is not killed. -/
theorem Inv.input (h : Inv s ps) (e : Event) (r : ScreenEnv) :
    ∃ ps, Inv (s.step ⟨e, r, none⟩) ps := by
  by_cases hblock : ∃ j, e = .block j
  · obtain ⟨j, rfl⟩ := hblock
    rcases hb : s.app.blocks[j]? with _ | b
    · rw [s.step_block_none r hb]
      exact ⟨ps, h⟩
    · obtain ⟨w, hinv⟩ := h.block r hb
      exact ⟨ps ++ [(w, b)], hinv⟩
  have hperform : Inv (s.perform r (s.effects ⟨e, r, none⟩)) ps := by
    rcases Routine.effects_cases s ⟨e, r, none⟩ with ⟨-, o, hopening⟩ | ⟨-, hlooks⟩ |
      ⟨j, -, hj, -⟩ | ⟨es, heffects, hroutine⟩
    · rw [hopening]
      exact h.open? r (some o)
    · exact h.perform r fun e' he' => plain_of_looks (hlooks e' he')
    · exact absurd ⟨j, hj⟩ hblock
    · rw [heffects]
      refine h.perform r fun e' he' => ?_
      obtain ⟨e'', he'', rfl⟩ := List.mem_map.1 he'
      exact plain_of_routine (hroutine e'' he'')
  change ∃ ps, Inv (s.after ⟨e, r, none⟩ _) ps
  rcases s.after_cases e r (s.perform r (s.effects ⟨e, r, none⟩)) with
    ⟨-, -, hflow⟩ | ⟨-, hdied⟩
  · obtain ⟨hran, hpast, hcurrent, hpending⟩ := hperform
    have hblocks := hflow.blocks.resolve_right fun ⟨j, hj, _⟩ => hblock ⟨j, hj⟩
    refine ⟨ps, ?_, ?_, ?_, ?_⟩
    · rwa [hflow.log, hblocks]
    · rwa [hflow.past]
    · rwa [hflow.log, hflow.wallet]
    · rwa [hblocks, hflow.wallet]
  · rw [hdied]
    exact ⟨[], inv_launch _ _ hperform.begun⟩

/-- **One input.** -/
theorem Inv.step (h : Inv s ps) (i : Input) : ∃ ps, Inv (s.step i) ps := by
  obtain ⟨e, r, cut⟩ := i
  obtain ⟨qs, hinv⟩ := h.input e r
  rcases cut with _ | k
  · exact ⟨qs, hinv⟩
  · obtain ⟨es, hlogs, fs, hfs, hes⟩ := s.logs_cut e r k
    have hpast : ∀ es ∈ (s.step ⟨e, r, some k⟩).past, Begun es := by
      rw [(List.cons.inj hlogs).2]
      exact List.forall_mem_cons.2 ⟨(hinv.begun fs hfs).initial hes, h.past⟩
    exact ⟨[], inv_launch _ _ hpast⟩

end

/-- **No block is lost, and none runs twice.** -/
theorem connections_conserved (x : Record) (now : Rat) (is : List Input) :
    let s := Runs.run Process.step (Process.launch x now) is
    (∃ ps, Ran s.log s.app.blocks ps) ∧ ∀ es ∈ s.past, Begun es := by
  intro s
  have hstep : ∀ t i, (∃ ps, Inv t ps) → ∃ ps, Inv (Process.step t i) ps :=
    fun _ i ⟨_, h⟩ => h.step i
  obtain ⟨ps, hinv⟩ := Runs.run_of_step hstep
    ⟨[], inv_launch x now (List.forall_mem_nil _)⟩ is
  exact ⟨⟨ps, hinv.ran⟩, hinv.past⟩

end Connections

end Monujo
