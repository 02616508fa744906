/-
  Making a wallet current: all or nothing.

  `createWallet`, `openWallet` and `recoverWallet` return the wrapper of
  whatever wallet the library hands back and record it, without looking at its
  status.  They are all-or-nothing only where the library reports success and
  at most one of the values they record differs from the one recorded before.
-/
import Monujo.Model.WalletStore

namespace Monujo

open Monero

namespace WalletStore

namespace Opening

/-- The status the library leaves on the wallet it returns. -/
def status (env : Env) (o : Opening) : Status := env.answers (.wallet (o.handle env) .status)

end Opening

/-- The operation `o` is all or nothing in the state `s`. -/
structure AllOrNothing (env : Env) (s : App) (o : Opening) : Prop where
  /-- Where the library reports failure, it returns nil, -/
  failed_nil : o.status env ≠ .ok → o.code.val env = none
  /-- leaves the record, -/
  failed_record : o.status env ≠ .ok → (s.perform (o.code.log env)).record = s.record
  /-- leaves `WalletStore.wallet`, -/
  failed_wallet : o.status env ≠ .ok → (s.perform (o.code.log env)).wallet = s.wallet
  /-- and dispatches nothing. -/
  failed_blocks : o.status env ≠ .ok → (s.perform (o.code.log env)).blocks = s.blocks
  /-- Killed between any two of its effects, it leaves the old record or the
      new one. -/
  killed : ∀ es, es <+: o.code.log env → (s.perform es).record = s.record ∨
    (s.perform es).record = (s.perform (o.code.log env)).record

namespace Opening

/-- The records at the kill points are those after a prefix of the writes. -/
theorem killed_iff (o : Opening) (env : Env) (s : App) :
    (∀ es, es <+: o.code.log env → (s.perform es).record = s.record ∨
      (s.perform es).record = (s.perform (o.code.log env)).record) ↔
    ∀ ws, ws <+: o.writes → s.record.put ws = s.record ∨ s.record.put ws = s.record.put o.writes := by
  simp only [App.record_perform, writesOf_log]
  constructor
  · intro h ws hws
    rw [← writesOf_log o env, writesOf, List.prefix_filterMap_iff] at hws
    obtain ⟨es, hes, rfl⟩ := hws
    exact h es hes
  · intro h es hes
    have hws : writesOf es <+: writesOf (o.code.log env) := hes.filterMap _
    exact h _ (writesOf_log o env ▸ hws)

end Opening

/-- **When opening a wallet is all or nothing.** -/
theorem allOrNothing_iff (env : Env) (s : App) (o : Opening) :
    AllOrNothing (s.env env) s o ↔
      o.status (s.env env) = .ok ∧ (o.writes.filter s.record.Changes).length ≤ 1 := by
  rw [← Store.put_cut_iff o.nodup_writes, ← o.killed_iff (s.env env) s]
  constructor
  · intro h
    refine ⟨?_, h.killed⟩
    by_contra hne
    have hnil := h.failed_nil hne
    rw [o.val_code] at hnil
    cases hnil
  · rintro ⟨hok, hkill⟩
    exact ⟨fun h => absurd hok h, fun h => absurd hok h, fun h => absurd hok h,
      fun h => absurd hok h, hkill⟩

/-- With the wallet of "a.dat" open and recorded, opening "b.dat" with a wrong
    password is not: the wallet is returned, made current and recorded. -/
theorem openWallet_wrong_password :
    let env : Env := { (default : Env) with
      answers := Function.update (fun _ => default) (.wallet 0 .status) Status.error }
    let s : App := ⟨Record.of "a.dat" "secret" false 1200000, some ⟨7⟩, [], []⟩
    ¬ AllOrNothing (s.env env) s (.open "b.dat" "wrong" false 0) := by
  intro env s h
  have hnil := h.failed_nil (by decide)
  cases hnil

end WalletStore

end Monujo
