/-
  The heights that wallets are restored from.

  The height given to the library is typed into the recover form, or read back
  from the session record, where a saving may have put another.

  `parse_eq_some_iff` says what the field of the form accepts.  `heights_sourced`:
  in every run, over any number of processes, each height that is given to the
  library, recorded, or on its way to the library is one that was typed, one
  that the library answered for the current wallet at a saving, one that was on
  record at first, or 0.
-/
import Mathlib.Tactic.IntervalCases
import Monujo.Proof.Routine

namespace Monujo

open Monero WalletStore
open WalletViewController.Labels (Looks)

namespace RestoreHeights

/-! ## Numerals -/

/-- The text denotes `n`: `n` in decimal, after zeros and a plus sign, if any, or
    after a minus sign if it is 0. -/
def Numeral (s : String) (n : ℕ) : Prop :=
  ∃ k, s.toList = List.replicate k '0' ++ Nat.toDigits 10 n ∨
    s.toList = '+' :: (List.replicate k '0' ++ Nat.toDigits 10 n) ∨
    s.toList = '-' :: (List.replicate k '0' ++ Nat.toDigits 10 n) ∧ n = 0

/-- A digit is the decimal of its value. -/
theorem toDigits_of_isDigit {c : Char} (h : c.isDigit = true) :
    c.toNat - '0'.toNat < 10 ∧ Nat.toDigits 10 (c.toNat - '0'.toNat) = [c] := by
  obtain ⟨hlo, hhi⟩ := Char.isDigit_iff_toNat.1 h
  change 48 ≤ c.toNat at hlo
  change c.toNat ≤ 57 at hhi
  have hlt : c.toNat - '0'.toNat < 10 := by
    change c.toNat - 48 < 10
    omega
  refine ⟨hlt, ?_⟩
  rw [Nat.toDigits_of_lt_base hlt]
  have hchar : c = Char.ofNat c.toNat := (Char.ofNat_toNat c).symm
  rw [hchar]
  generalize c.toNat = n at hlo hhi
  interval_cases n <;> rfl

/-- Digits are zeros and the decimal of their value. -/
theorem eq_decimal {cs : List Char} (hne : cs ≠ []) (h : ∀ c ∈ cs, c.isDigit = true) :
    ∃ k, cs = List.replicate k '0' ++ Nat.toDigits 10 (Nat.ofDigitChars 10 cs 0) := by
  induction cs using List.reverseRecOn with
  | nil => exact absurd rfl hne
  | append_singleton cs c ih =>
    obtain ⟨hlt, hdecimal⟩ := toDigits_of_isDigit (h c (by simp))
    have hvalue : Nat.ofDigitChars 10 (cs ++ [c]) 0 =
        10 * Nat.ofDigitChars 10 cs 0 + (c.toNat - '0'.toNat) := by
      rw [Nat.ofDigitChars_append, Nat.ofDigitChars_cons, Nat.ofDigitChars_nil]
    rw [hvalue]
    rcases eq_or_ne cs [] with rfl | hcs
    · exact ⟨0, by simpa using hdecimal.symm⟩
    obtain ⟨k, hk⟩ := ih hcs fun c' hc' => h c' (by simp [hc'])
    rcases Nat.eq_zero_or_pos (Nat.ofDigitChars 10 cs 0) with hzero | hpos
    · refine ⟨k + 1, ?_⟩
      rw [hzero, Nat.toDigits_zero, ← List.replicate_succ'] at hk
      rw [hzero, Nat.mul_zero, Nat.zero_add, hdecimal, ← hk]
    · refine ⟨k, ?_⟩
      rw [← Nat.toDigits_append_toDigits (by omega) hpos hlt, hdecimal, ← List.append_assoc, ← hk]

theorem isDigit_of_mem {k n : ℕ} {c : Char}
    (hc : c ∈ List.replicate k '0' ++ Nat.toDigits 10 n) : c.isDigit = true := by
  rcases List.mem_append.1 hc with hc | hc
  · rw [List.eq_of_mem_replicate hc]
    rfl
  · exact Nat.isDigit_of_mem_toDigits (by omega) (by omega) hc

/-- **Digits**: zeros, and a number in decimal. -/
theorem digits_eq_some_iff {cs : List Char} {n : ℕ} :
    digits cs = some n ↔ ∃ k, cs = List.replicate k '0' ++ Nat.toDigits 10 n := by
  constructor
  · intro h
    unfold digits at h
    split at h
    · rename_i hcs
      obtain rfl := Option.some.inj h
      exact eq_decimal hcs.1 (List.all_eq_true.1 hcs.2)
    · cases h
  · rintro ⟨k, rfl⟩
    have hvalue : Nat.ofDigitChars 10 (List.replicate k '0' ++ Nat.toDigits 10 n) 0 = n := by
      rw [Nat.ofDigitChars_append, Nat.ofDigitChars_replicate_zero, Nat.mul_zero,
        Nat.ofDigitChars_ten_toDigits]
    unfold digits
    rw [if_pos ⟨List.append_ne_nil_of_right_ne_nil _ Nat.toDigits_ne_nil,
      List.all_eq_true.2 fun c hc => isDigit_of_mem hc⟩]
    exact congrArg some hvalue

/-- The signed digits that are read as `n`. -/
theorem signed_iff (cs : List Char) (n : ℕ) :
    (match cs with
      | '+' :: cs => digits cs
      | '-' :: cs => (digits cs).filter (· = 0)
      | cs => digits cs) = some n ↔
    ∃ k, cs = List.replicate k '0' ++ Nat.toDigits 10 n ∨
      cs = '+' :: (List.replicate k '0' ++ Nat.toDigits 10 n) ∨
      cs = '-' :: (List.replicate k '0' ++ Nat.toDigits 10 n) ∧ n = 0 := by
  -- a sign is not a digit
  have hsign : ∀ {c : Char} {cs : List Char} {k : ℕ}, c.isDigit = false →
      c :: cs ≠ List.replicate k '0' ++ Nat.toDigits 10 n := by
    intro c cs k hc heq
    have hdigit : c.isDigit = true := isDigit_of_mem (heq ▸ List.mem_cons_self)
    rw [hc] at hdigit
    cases hdigit
  split
  · rename_i cs
    rw [digits_eq_some_iff]
    refine exists_congr fun k => ⟨fun h => .inr (.inl (h ▸ rfl)), ?_⟩
    rintro (h | h | ⟨h, -⟩)
    · exact absurd h (hsign rfl)
    · exact (List.cons.inj h).2
    · cases (List.cons.inj h).1
  · rename_i cs
    rw [Option.filter_eq_some_iff, digits_eq_some_iff]
    constructor
    · rintro ⟨⟨k, rfl⟩, hzero⟩
      exact ⟨k, .inr (.inr ⟨rfl, by simpa using hzero⟩)⟩
    · rintro ⟨k, h | h | ⟨h, hzero⟩⟩
      · exact absurd h (hsign rfl)
      · cases (List.cons.inj h).1
      · exact ⟨⟨k, (List.cons.inj h).2⟩, by simpa using hzero⟩
  · rename_i hplus hminus
    rw [digits_eq_some_iff]
    refine exists_congr fun k => ⟨.inl, ?_⟩
    rintro (h | h | ⟨h, -⟩)
    · exact h
    · exact absurd h (hplus _)
    · exact absurd h (hminus _)

/-- **What a field accepts**: the numerals of the numbers its type has. -/
theorem parse_eq_some_iff {size : ℕ} {s : String} {n : ℕ} :
    parseUnsigned size s = some n ↔ Numeral s n ∧ n < size := by
  unfold parseUnsigned
  rw [Option.filter_eq_some_iff, decide_eq_true_iff]
  exact and_congr_left' (signed_iff s.toList n)

theorem height_eq_some_iff {s : String} {h : UInt64} :
    UInt64.parse s = some h ↔ Numeral s h.toNat := by
  rw [UInt64.parse, Option.map_eq_some_iff]
  constructor
  · rintro ⟨n, hn, rfl⟩
    obtain ⟨hnumeral, hlt⟩ := parse_eq_some_iff.1 hn
    rwa [UInt64.toNat_ofNat_of_lt' hlt]
  · intro hnumeral
    exact ⟨h.toNat, parse_eq_some_iff.2 ⟨hnumeral, h.toNat_lt⟩, UInt64.ofNat_toNat⟩

/-! ## Sources -/

/-- The heights in an effect: given to the library, recorded, or dispatched. -/
def heights : Effect → List UInt64
  | .call (.wallet _ (.setRefreshFromBlockHeight h)) _ => [h]
  | .call (.manager (.recoveryWallet _ _ _ h)) _ => [h]
  | .write ⟨.restoreHeight, h⟩ => Option.toList h
  | .background b => [b.restoreHeight]
  | _ => []

/-- Where a height comes from, in the run of `is` from the record `x`. -/
inductive Source (x : Record) (now : Rat) (is : List Input) (h : UInt64) : Prop
  | zero (h0 : h = 0)
  | recorded (hx : x .restoreHeight = some h)
  /-- It was typed into the recover form. -/
  | typed (name memo : Option String) (text : String) (env : ScreenEnv)
      (cut : Option ℕ) (hi : ⟨.submit (.recover name memo (some text)), env, cut⟩ ∈ is)
      (ht : Numeral text h.toNat)
  /-- The library answered it for the current wallet, at a saving. -/
  | saved (fs gs : List Input) (env : ScreenEnv) (w : Wallet) (cut : Option ℕ)
      (hi : is = fs ++ ⟨.enterBackground, env, cut⟩ :: gs)
      (hw : (Runs.run Process.step (Process.launch x now) fs).app.wallet = some w)
      (ha : env.answers (.wallet w.impl .blockChainHeight) = h)

/-- The heights of the process are in `S`, and those of the processes before. -/
structure Within (S : UInt64 → Prop) (s : Process) : Prop where
  log : ∀ e ∈ s.log, ∀ h ∈ heights e, S h
  past : ∀ es ∈ s.past, ∀ e ∈ es, ∀ h ∈ heights e, S h
  record : ∀ h ∈ s.app.record .restoreHeight, S h
  blocks : ∀ b ∈ s.app.blocks, S b.restoreHeight

/-- The heights in the effect are in `S`. -/
def Sourced (S : UInt64 → Prop) : ScreenEffect → Prop
  | .app e => ∀ h ∈ heights e, S h
  | .heights .. | .text .. => True

section
variable {S : UInt64 → Prop} {s t : Process}

theorem Within.applyScreen (h : Within S s) {e : ScreenEffect} (he : Sourced S e) :
    Within S (s.applyScreen e) := by
  obtain ⟨hlog, hpast, hrecord, hblocks⟩ := h
  cases e with
  | heights | text => exact ⟨hlog, hpast, hrecord, hblocks⟩
  | app e =>
    have hlog' : ∀ e' ∈ s.log ++ [e], ∀ h ∈ heights e', S h := by
      intro e' he'
      rcases List.mem_append.1 he' with he' | he'
      · exact hlog e' he'
      · cases List.mem_singleton.1 he'
        exact he
    cases e with
    | call | assign | main | refreshedAt | «show» | setDelegate =>
      exact ⟨hlog', hpast, hrecord, hblocks⟩
    | background b =>
      refine ⟨hlog', hpast, hrecord, fun b' hb' => ?_⟩
      rcases List.mem_append.1 hb' with hb' | hb'
      · exact hblocks b' hb'
      · cases List.mem_singleton.1 hb'
        exact he _ (List.mem_singleton.2 rfl)
    | write w =>
      refine ⟨hlog', hpast, fun h hh => ?_, hblocks⟩
      obtain ⟨k, v⟩ := w
      change s.app.record.set ⟨k, v⟩ .restoreHeight = some h at hh
      by_cases hk : Key.restoreHeight = k
      · subst hk
        rw [Store.set_self] at hh
        exact he h (Option.mem_toList.2 hh)
      · rw [Store.set_mk_of_ne _ _ hk] at hh
        exact hrecord h hh

theorem sourced_of_looks {e : ScreenEffect} (h : Looks e) : Sourced S e := by
  unfold Looks at h
  split at h
  all_goals first | trivial | exact h.elim | (intro x hx; cases hx)

theorem sourced_of_routine {K : Key → Prop} {Q T : Prop} {e : Effect} (hK : ¬ K .restoreHeight)
    (h : Routine K Q T e) : Sourced S (.app e) := by
  intro x hx
  unfold heights at hx
  split at hx
  · exact h.elim
  · exact h.elim
  · exact absurd h hK
  · exact h.elim
  · cases hx

theorem sourced_of_connects {b : Block} {e : Effect} {o : Option Wallet}
    (hb : S b.restoreHeight) (h : ∃ w ∈ o, Routine.Connects w b e) : Sourced S (.app e) := by
  obtain ⟨w, -, hconnects⟩ := h
  unfold Routine.Connects at hconnects
  split at hconnects
  · intro x hx
    cases hx
  · intro x hx
    obtain rfl := List.mem_singleton.1 hx
    rwa [hconnects.2.1]
  · intro x hx
    cases hx
  · exact hconnects.elim

theorem within_launch {x : Record} (now : Rat) (hx : ∀ h ∈ x .restoreHeight, S h) :
    Within S (Process.launch x now) := by
  refine ⟨fun e he => ?_, fun es hes => ?_, hx, fun b hb => ?_⟩
  · cases he
  · cases hes
  · cases hb

theorem Within.die (h : Within S s) (now : Rat) : Within S (s.die now) := by
  refine ⟨fun e he => ?_, List.forall_mem_cons.2 ⟨h.log, h.past⟩, h.record, fun b hb => ?_⟩
  · cases he
  · cases hb

/-- Code whose heights are in `S`, to its end or not. -/
theorem Within.run (h : Within S s) (r : ScreenEnv) {es fs : List ScreenEffect}
    (hes : ∀ e ∈ es, Sourced S e) (hfs : fs <+: s.trace r es) :
    Within S (Runs.run Process.applyScreen s fs) :=
  s.run_keeps r (R := fun s t => Within S s → Within S t) (fun _ hs => hs)
    (fun _ _ _ hst htu hs => htu (hst hs)) (fun _ => sourced_of_looks)
    (fun _ _ he hs => hs.applyScreen he) hes hfs h

/-- An operation works with the height of its block. -/
theorem heights_opening {o : Opening} {env : Env} {e : Effect} (he : e ∈ o.code.log env)
    {x : UInt64} (hx : x ∈ heights e) : x = o.block.restoreHeight := by
  have hopens := Routine.opens_code o env e he
  unfold heights at hx
  split at hx
  · cases hopens.2 with
    | inl h => cases h
    | inr h => cases h
  · cases o with
    | create | «open» => cases hopens
    | recover =>
      cases hopens
      exact List.mem_singleton.1 hx
  · have hwrite : _ ∈ o.writes := hopens
    simp only [Opening.writes, List.mem_append, List.mem_cons, List.not_mem_nil, or_false,
      Option.mem_toList, Option.map_eq_some_iff] at hwrite
    rcases hwrite with ⟨p, -, heq⟩ | heq | heq | heq
    · cases heq
    · cases heq
    · cases heq
    · cases heq
      exact List.mem_singleton.1 hx
  · cases hopens
    exact List.mem_singleton.1 hx
  · cases hx

theorem sourced_opening {o : Option Opening} (env : Env)
    (ho : ∀ p ∈ o, S p.block.restoreHeight) :
    ∀ e ∈ (o.elim [] fun o => o.code.log env).map ScreenEffect.app, Sourced S e := by
  intro e he
  obtain ⟨e', he', rfl⟩ := List.mem_map.1 he
  rcases o with _ | o
  · cases he'
  · intro x hx
    rw [heights_opening he' hx]
    exact ho o rfl

theorem Within.mono {S' : UInt64 → Prop} (h : Within S s) (hS : ∀ x, S x → S' x) : Within S' s :=
  ⟨fun e he x hx => hS x (h.log e he x hx),
    fun es hes e he x hx => hS x (h.past es hes e he x hx),
    fun x hx => hS x (h.record x hx), fun b hb => hS _ (h.blocks b hb)⟩

/-- The height an operation is asked to work with, if the forms and the record
    are the only sources. -/
theorem of_saved {env : Env} {o : Opening} (ho : saved env = some o) (hzero : S 0)
    (hrecord : ∀ x ∈ env.record .restoreHeight, S x) : S o.block.restoreHeight := by
  obtain ⟨f, p, -, -, rfl⟩ := saved_some ho
  change S ((env.record .restoreHeight).getD 0)
  rcases hx : env.record .restoreHeight with _ | x
  · exact hzero
  · exact hrecord x hx

theorem of_form {form : LoginForm} {o : Opening} (ho : form.opening? = some o) (hzero : S 0)
    (htyped : ∀ name memo text x, form = .recover name memo (some text) →
      Numeral text x.toNat → S x) : S o.block.restoreHeight := by
  cases form with
  | create n p l =>
    obtain ⟨name, -, rfl⟩ := Option.map_eq_some_iff.1 ho
    exact hzero
  | «open» n p =>
    obtain ⟨name, -, rfl⟩ := Option.map_eq_some_iff.1 ho
    exact hzero
  | recover n m t =>
    obtain ⟨name, -, ho⟩ := Option.bind_eq_some_iff.1 ho
    obtain ⟨memo, -, rfl⟩ := Option.map_eq_some_iff.1 ho
    change S ((UInt64.parse (t.getD "0")).getD 0)
    rcases t with _ | text
    · exact hzero
    · change S ((UInt64.parse text).getD 0)
      rcases hx : UInt64.parse text with _ | x
      · exact hzero
      · exact htyped n m text x rfl (height_eq_some_iff.1 hx)

/-- What is new in the heights of an input is a height that was typed, or one
    that was saved. -/
theorem sourced_effects (h : Within S s) (i : Input) (hzero : S 0)
    (htyped : ∀ name memo text x, i.event = .submit (.recover name memo (some text)) →
      Numeral text x.toNat → S x)
    (hsaved : ∀ w, i.event = .enterBackground → s.app.wallet = some w →
      S (i.env.answers (.wallet w.impl .blockChainHeight))) : ∀ e ∈ s.effects i, Sourced S e := by
  obtain ⟨e, r, cut⟩ := i
  by_cases hmain : e = .mainAppears
  · subst hmain
    rw [Process.effects_mainAppears]
    exact sourced_opening _ fun o ho => of_saved ho hzero h.record
  by_cases hsubmit : ∃ form, e = .submit form
  · obtain ⟨form, rfl⟩ := hsubmit
    rw [Process.effects_submit]
    exact sourced_opening _ fun o ho =>
      of_form ho hzero fun n m t x hform => htyped n m t x (congrArg Event.submit hform)
  by_cases hsave : e = .enterBackground
  · subst hsave
    rw [Process.effects_enterBackground, save_eq]
    intro e he
    obtain ⟨e', he', rfl⟩ := List.mem_map.1 he
    rcases hw : (s.env r).wallet with _ | w
    · rw [hw] at he'
      cases he'
    · rw [hw] at he'
      simp only [Option.elim_some, List.mem_cons, List.not_mem_nil, or_false] at he'
      intro x hx
      rcases he' with rfl | rfl | rfl
      · cases hx
      · obtain rfl := List.mem_singleton.1 hx
        exact hsaved w rfl hw
      · cases hx
  intro e' he'
  rcases Routine.effects_cases s ⟨e, r, cut⟩ with ⟨hopening | hopening, -⟩ | ⟨-, hlooks⟩ |
    ⟨j, b, -, hb, hblock⟩ | ⟨es, heffects, hroutine⟩
  · exact absurd hopening hmain
  · exact absurd hopening hsubmit
  · exact sourced_of_looks (hlooks e' he')
  · rw [hblock] at he'
    obtain ⟨e, he, rfl⟩ := List.mem_map.1 he'
    exact sourced_of_connects (h.blocks b (List.mem_of_getElem? hb))
      (Routine.connects_initBlock b _ e he)
  · rw [heffects] at he'
    obtain ⟨e'', he'', rfl⟩ := List.mem_map.1 he'
    refine sourced_of_routine (fun hwritten => ?_) (hroutine e'' he'')
    -- only a saving writes the height
    cases e with
    | enterBackground => exact hsave rfl
    | callback w c => cases hwritten.2
    | _ => exact hwritten.elim

/-- **One input.** -/
theorem Within.step (h : Within S s) (i : Input) (hes : ∀ e ∈ s.effects i, Sourced S e) :
    Within S (s.step i) := by
  rcases s.step_cases i with ⟨-, -, -, hflow⟩ | ⟨-, hdied⟩
  · obtain ⟨hlog, hpast, hrecord, hblocks⟩ : Within S (s.perform i.env (s.effects i)) :=
      h.run i.env hes List.prefix_rfl
    have hsub : (s.step i).app.blocks ⊆ (s.perform i.env (s.effects i)).app.blocks := by
      rcases hflow.blocks with hsame | ⟨j, -, hrun⟩
      · rw [hsame]
        exact List.Subset.refl _
      · rw [hrun]
        exact List.eraseIdx_subset
    refine ⟨?_, ?_, ?_, fun b hb => hblocks b (hsub hb)⟩
    · rw [hflow.log]
      exact hlog
    · rw [hflow.past]
      exact hpast
    · rw [hflow.record]
      exact hrecord
  · rw [hdied]
    exact (h.run i.env hes (i.reached_prefix _)).die _

end

/-! ## Runs -/

theorem Source.mono {x : Record} {now : Rat} {is js : List Input} {h : UInt64}
    (hsource : Source x now is h) : Source x now (is ++ js) h := by
  cases hsource with
  | zero h0 => exact .zero h0
  | recorded hx => exact .recorded hx
  | typed name memo text env cut hi ht =>
    exact .typed name memo text env cut (List.mem_append_left _ hi) ht
  | saved fs gs env w cut hi hw ha =>
    refine .saved fs (gs ++ js) env w cut ?_ hw ha
    rw [hi, List.append_assoc, List.cons_append]

/-- **Every height has a source.** -/
theorem heights_sourced (x : Record) (now : Rat) (is : List Input) :
    Within (Source x now is) (Runs.run Process.step (Process.launch x now) is) := by
  induction is using List.reverseRecOn with
  | nil => exact within_launch now fun h hh => .recorded hh
  | append_singleton is i ih =>
    rw [Runs.run_concat]
    have hwithin : Within (Source x now (is ++ [i])) _ := ih.mono fun h hh => hh.mono
    refine hwithin.step i (sourced_effects hwithin i (.zero rfl) ?_ ?_)
    · intro name memo text h hevent hnumeral
      obtain ⟨e, r, cut⟩ := i
      obtain rfl : e = _ := hevent
      exact .typed name memo text r cut (by simp) hnumeral
    · intro w hevent hw
      obtain ⟨e, r, cut⟩ := i
      obtain rfl : e = _ := hevent
      exact .saved is [] r w cut rfl hw rfl

end RestoreHeights

end Monujo
