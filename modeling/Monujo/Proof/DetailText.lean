/-
  The text of the detail screen.

  Every transfer has a block of its own in the text, in the order of the native
  library.  A block shows the amount of its transfer; where the address should
  stand, every block has the same source text.

  `told_apart_iff`: two transactions that differ in their transfers alone have
  different texts if and only if the amounts of these transfers differ.
  `read_back_iff`: so a list of transfers can be read back only if it is empty.
-/
import Monujo.Lib.SelfDelimiting
import Monujo.Model.HistoryScreen

namespace Monujo

open Monero

namespace DetailText

/-- A transaction, as the library describes it. -/
structure Description where
  hash : String
  paymentId : String
  amount : UInt64
  fee : UInt64
  transfers : List Transfer

/-- The library formats amounts by `display`, and describes `t` by `d`. -/
structure Describes (display : UInt64 → String) (t : TransactionInfo) (d : Description)
    (env : Env) : Prop where
  display : ∀ a, (Wallet.displayAmount a).val env = display a
  hash : env.answers (.info t.impl .hash) = d.hash
  paymentId : env.answers (.info t.impl .paymentId) = d.paymentId
  amount : env.answers (.info t.impl .amount) = d.amount
  fee : env.answers (.info t.impl .fee) = d.fee
  transfers : env.answers (.info t.impl .transfers) = d.transfers

/-- The `m_transfers` of a wrapper whose detail screen has appeared in each of
    `es`. -/
def m_transfers (t : TransactionInfo) (es : List Env) : List Transfer :=
  Runs.run (fun m env => (t.transfers m).val env) [] es

/-- The text when the screen appears once more: the first text for `es = []`,
    and one of a memoised read later on. -/
def text (t : TransactionInfo) (es : List Env) (env : Env) : String :=
  (TransactionDetailViewController.viewWillAppear t (m_transfers t es)).val env

/-! ## The transfers read -/

/-- The wrappers of native transfers. -/
def wrappers (ts : List Transfer) : List Transfer := ts.map fun t => ⟨t.amount, cstr t.address⟩

theorem amounts_wrappers (ts : List Transfer) :
    (wrappers ts).map Transfer.amount = ts.map Transfer.amount := by simp [wrappers]

/-- One read, from what an earlier one may have left. -/
theorem val_transfers {t : TransactionInfo} {ts m : List Transfer} {env : Env}
    (h : env.answers (.info t.impl .transfers) = ts) (hm : m = [] ∨ m = wrappers ts) :
    (t.transfers m).val env = wrappers ts := by
  simp only [TransactionInfo.transfers, Code.val_ite, Code.val_pure, Code.val_bind, val_call]
  split
  · rename_i hpos
    rcases hm with rfl | rfl
    · exact absurd hpos (lt_irrefl 0)
    · rfl
  · rw [h]
    rfl

/-- What the reads before have left. -/
theorem m_transfers_cases {t : TransactionInfo} {ts : List Transfer} {es : List Env}
    (h : ∀ e ∈ es, e.answers (.info t.impl .transfers) = ts) :
    m_transfers t es = [] ∨ m_transfers t es = wrappers ts := by
  unfold m_transfers
  induction es using List.reverseRecOn with
  | nil => exact .inl rfl
  | append_singleton es e ih =>
    rw [Runs.run_concat]
    exact .inr (val_transfers (h e (by simp)) (ih fun e' he' => h e' (by simp [he'])))

/-! ## The text -/

section
variable (display : UInt64 → String)

/-- What stands before the blocks. -/
def header (d : Description) : String :=
  "Hash " ++ optional (cstr d.hash) ++ "\nPayment ID: " ++ optional (cstr d.paymentId) ++
    "\n\nAmount: " ++ optional (display d.amount) ++ "\nFee: " ++ optional (display d.fee) ++
    "\nTransfers:"

/-- The block of a transfer of the amount `a`. -/
def block (a : UInt64) : String :=
  "\nAddress: (t.address)" ++ "\nAmount: " ++ optional (display a) ++ "\n-----------------"

end

variable {display : UInt64 → String}

theorem toList_rule : "\n-----------------".toList = ['\n'] ++ "-----------------".toList := by simp

theorem toList_block (a : UInt64) : (block display a).toList =
    ("\nAddress: (t.address)" ++ "\nAmount: ").toList ++
      (((optional (display a)).toList ++ ['\n']) ++ "-----------------".toList) := by
  unfold block
  rw [String.toList_append, String.toList_append, toList_rule, List.append_assoc, List.append_assoc]

theorem toList_block_ne_nil (a : UInt64) : (block display a).toList ≠ [] := by
  intro h
  rw [toList_block] at h
  obtain ⟨-, hrest⟩ := List.append_eq_nil_iff.1 h
  obtain ⟨hfield, -⟩ := List.append_eq_nil_iff.1 hrest
  exact List.cons_ne_nil _ _ (List.append_eq_nil_iff.1 hfield).2

/-- A block can be told from what follows it. -/
theorem selfDelimiting_block (hinj : Function.Injective display) :
    SelfDelimiting fun a => (block display a).toList := by
  have hfield : Function.Injective fun a => (optional (display a)).toList :=
    fun a b h => hinj (optional_injective (String.toList_inj.1 h))
  have hline : ∀ a, '\n' ∉ (optional (display a)).toList :=
    fun a => newline_notMem_optional (display a)
  simp only [toList_block]
  exact ((SelfDelimiting.of_terminator hfield hline).append _).prepend _

/-- The screen appends block after block. -/
theorem toList_foldl_block (ts : List Transfer) (s : String) :
    (ts.foldl (fun s t => s ++ "\nAddress: (t.address)" ++ "\nAmount: " ++
      optional (display t.amount) ++ "\n-----------------") s).toList =
      s.toList ++ (ts.map Transfer.amount).flatMap fun a => (block display a).toList := by
  induction ts generalizing s with
  | nil => rw [List.foldl_nil, List.map_nil, List.flatMap_nil, List.append_nil]
  | cons t ts ih =>
    have hblock : s ++ "\nAddress: (t.address)" ++ "\nAmount: " ++ optional (display t.amount) ++
        "\n-----------------" = s ++ block display t.amount := by
      unfold block
      rw [String.append_assoc, String.append_assoc, String.append_assoc, String.append_assoc,
        String.append_assoc]
    rw [List.foldl_cons, ih, List.map_cons, List.flatMap_cons, hblock, String.toList_append,
      List.append_assoc]

/-- At every appearance, the text is the header and the blocks of the
    transfers. -/
theorem toList_text {t : TransactionInfo} {d : Description} {es : List Env} {env : Env}
    (h : ∀ e ∈ env :: es, Describes display t d e) :
    (text t es env).toList = (header display d).toList ++
      (d.transfers.map Transfer.amount).flatMap fun a => (block display a).toList := by
  have henv : Describes display t d env := h env (by simp)
  have hhash : t.hash.val env = cstr d.hash := congrArg cstr henv.hash
  have hpaymentId : t.paymentId.val env = cstr d.paymentId := congrArg cstr henv.paymentId
  have hamount : t.amount.val env = d.amount := henv.amount
  have hfee : t.fee.val env = d.fee := henv.fee
  have hread : (t.transfers (m_transfers t es)).val env = wrappers d.transfers :=
    val_transfers henv.transfers (m_transfers_cases fun e he => (h e (by simp [he])).transfers)
  obtain rfl : (fun a => (Wallet.displayAmount a).val env) = display := funext henv.display
  rw [← amounts_wrappers, ← toList_foldl_block]
  unfold text header
  rw [TransactionDetailViewController.val_viewWillAppear, hhash, hpaymentId, hamount, hfee, hread]

/-! ## What the text tells apart -/

/-- The library may describe the same transaction with other transfers. -/
theorem describes_update {t : TransactionInfo} {d : Description} {env : Env}
    (h : Describes display t d env) (ts : List Transfer) :
    Describes display t { d with transfers := ts }
      { env with answers := Function.update env.answers (.info t.impl .transfers) ts } where
  display a := by
    have hother : Call.static (.displayAmount a) ≠ .info t.impl .transfers := by simp
    have hsame := Function.update_of_ne hother ts env.answers
    exact (congrArg cstr hsame).trans (h.display a)
  hash := (Function.update_of_ne (by simp) ..).trans h.hash
  paymentId := (Function.update_of_ne (by simp) ..).trans h.paymentId
  amount := (Function.update_of_ne (by simp) ..).trans h.amount
  fee := (Function.update_of_ne (by simp) ..).trans h.fee
  transfers := Function.update_self ..

/-- The texts of two transactions that differ in their transfers alone. -/
theorem text_eq_iff (hinj : Function.Injective display) {d : Description} {ts : List Transfer}
    {t t' : TransactionInfo} {es es' : List Env} {env env' : Env}
    (h : ∀ e ∈ env :: es, Describes display t d e)
    (h' : ∀ e ∈ env' :: es', Describes display t' { d with transfers := ts } e) :
    text t es env = text t' es' env' ↔
      d.transfers.map Transfer.amount = ts.map Transfer.amount := by
  have hblocks := (selfDelimiting_block hinj).flatMap_injective toList_block_ne_nil
  rw [← String.toList_inj, toList_text h, toList_text h']
  constructor
  · intro heq
    exact hblocks (List.append_cancel_left heq)
  · intro heq
    rw [heq]
    rfl

/-- **What the text tells apart.**  Different transfers give different texts,
    unless they differ in their addresses alone. -/
theorem told_apart_iff {display : UInt64 → String} (hinj : Function.Injective display)
    {d : Description} {ts : List Transfer} {t t' : TransactionInfo} {es es' : List Env}
    {env env' : Env}
    (h : ∀ e ∈ env :: es, Describes display t d e)
    (h' : ∀ e ∈ env' :: es', Describes display t' { d with transfers := ts } e) :
    (d.transfers ≠ ts → text t es env ≠ text t' es' env') ↔
      (d.transfers.map Transfer.amount = ts.map Transfer.amount → d.transfers = ts) := by
  rw [ne_eq, ne_eq, text_eq_iff hinj h h']
  exact not_imp_not

/-- **Reading back.**  The transfers can be read back from the text only where
    there are none: the address of a transfer can always be another one. -/
theorem read_back_iff (hinj : Function.Injective display) {d : Description} {t : TransactionInfo}
    {es : List Env} {env : Env} (h : ∀ e ∈ env :: es, Describes display t d e) :
    (∀ ts env', Describes display t { d with transfers := ts } env' →
      text t [] env' = text t es env → ts = d.transfers) ↔ d.transfers = [] := by
  have heq : ∀ {ts env'}, Describes display t { d with transfers := ts } env' →
      (text t [] env' = text t es env ↔
        d.transfers.map Transfer.amount = ts.map Transfer.amount) := by
    intro ts env' h'
    have hall : ∀ e ∈ [env'], Describes display t { d with transfers := ts } e :=
      fun e he => List.mem_singleton.1 he ▸ h'
    rw [eq_comm]
    exact text_eq_iff hinj h hall
  constructor
  · intro hread
    rcases hts : d.transfers with _ | ⟨x, xs⟩
    · rfl
    -- the same transaction, with a longer address in its first transfer
    have hother := describes_update (h env (by simp)) (⟨x.amount, x.address ++ "A"⟩ :: xs)
    have hsame := hread _ _ hother ((heq hother).2 (by rw [hts]; rfl))
    rw [hts] at hsame
    have haddress := congrArg Transfer.address (List.cons.inj hsame).1
    have hlength := congrArg String.length haddress
    simp at hlength
  · intro hnil ts env' h' htext
    have hamounts := (heq h').1 htext
    rw [hnil, List.map_nil] at hamounts
    rw [hnil]
    exact List.map_eq_nil_iff.1 hamounts.symm

/-! ## One transfer -/

/-- A format of amounts that is right for the amount 1. -/
def sampleDisplay (a : UInt64) : String :=
  String.ofList ('0' :: '.' :: (List.replicate 11 '0' ++ List.replicate a.toNat '1'))

theorem sampleDisplay_injective : Function.Injective sampleDisplay := by
  intro a b h
  have hlist := String.ofList_injective h
  have hlength : a.toNat = b.toNat := by simpa using congrArg List.length hlist
  exact UInt64.toNat_inj.1 hlength

theorem notMem_sampleDisplay {c : Char} (h : c ∉ ['0', '.', '1']) (a : UInt64) :
    c ∉ (sampleDisplay a).toList := by
  rw [sampleDisplay, String.toList_ofList]
  simp only [List.mem_cons, List.not_mem_nil, or_false, not_or] at h
  simp only [List.mem_cons, List.mem_append, List.mem_replicate, h, and_false, or_self,
    not_false_eq_true]

/-- A library that formats amounts so, and describes every transaction as one
    of the amount and the fee 1 with the transfers `ts`. -/
def sampleEnv (ts : List Transfer) : Env :=
  let answers : Answers := fun c => match c with
    | .static (.displayAmount a) => sampleDisplay a
    | .info _ .amount => (1 : UInt64)
    | .info _ .fee => (1 : UInt64)
    | .info _ .transfers => ts
    | _ => default
  { (default : Env) with answers := answers }

theorem describes_sampleEnv (ts : List Transfer) :
    Describes sampleDisplay ⟨0⟩ ⟨"", "", 1, 1, ts⟩ (sampleEnv ts) where
  display a := cstr_of_noNul (notMem_sampleDisplay (by decide) a)
  hash := rfl
  paymentId := rfl
  amount := rfl
  fee := rfl
  transfers := rfl

theorem describes_replicate (ts : List Transfer) (n : ℕ) :
    ∀ e ∈ sampleEnv ts :: List.replicate n (sampleEnv ts),
      Describes sampleDisplay ⟨0⟩ ⟨"", "", 1, 1, ts⟩ e := by
  intro e he
  rw [← List.replicate_succ] at he
  rw [List.eq_of_mem_replicate he]
  exact describes_sampleEnv ts

/-- A transfer and no transfer. -/
theorem transfer_told_apart : text ⟨0⟩ [] (sampleEnv [⟨1, "A"⟩]) ≠ text ⟨0⟩ [] (sampleEnv []) :=
  (told_apart_iff sampleDisplay_injective (describes_replicate [⟨1, "A"⟩] 0)
    (describes_replicate [] 0)).2 (by decide) (by decide)

/-- Transfers of one amount to two addresses have the same text, at every
    appearance. -/
theorem addresses_not_told_apart :
    Function.Injective sampleDisplay ∧ (∀ a, '\n' ∉ (sampleDisplay a).toList) ∧
    Describes sampleDisplay ⟨0⟩ ⟨"", "", 1, 1, [⟨1, "A"⟩]⟩ (sampleEnv [⟨1, "A"⟩]) ∧
    Describes sampleDisplay ⟨0⟩ ⟨"", "", 1, 1, [⟨1, "B"⟩]⟩ (sampleEnv [⟨1, "B"⟩]) ∧
    [(⟨1, "A"⟩ : Transfer)] ≠ [⟨1, "B"⟩] ∧
    ∀ n, text ⟨0⟩ (List.replicate n (sampleEnv [⟨1, "A"⟩])) (sampleEnv [⟨1, "A"⟩]) =
      text ⟨0⟩ (List.replicate n (sampleEnv [⟨1, "B"⟩])) (sampleEnv [⟨1, "B"⟩]) := by
  have hline := notMem_sampleDisplay (show '\n' ∉ ['0', '.', '1'] by decide)
  refine ⟨sampleDisplay_injective, hline, describes_sampleEnv _, describes_sampleEnv _,
    by decide, ?_⟩
  intro n
  exact (text_eq_iff sampleDisplay_injective (describes_replicate _ n)
    (describes_replicate _ n)).2 rfl

end DetailText

end Monujo
