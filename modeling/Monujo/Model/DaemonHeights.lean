/-
  The cached daemon heights of `Wallet.mm`.

  A `Wallet` keeps the last answer for each of its two daemon heights, with the
  time of the answer, and asks again when it has none or when the time to live
  has passed.  Times are readings of the wall clock, in seconds;
  `CFAbsoluteTimeGetCurrent` is read once in the condition, and once more after
  a query.
-/
import Monujo.Model.Bridge

namespace Monujo

open Monero

/-- `m_…Height`, `m_…HeightTtl` and `m_…HeightTime`. -/
structure CachedHeight where
  height : UInt64
  ttl : Rat
  time : Rat
  deriving DecidableEq

def DAEMON_BLOCKCHAIN_HEIGHT_CACHE_TTL_SECONDS : Rat := 10

def DAEMON_BLOCKCHAIN_TARGET_HEIGHT_CACHE_TTL_SECONDS : Rat := 60

/-- The height, from the cache or from `query`.  The clock reads `checked` in
    the condition, and `answered` after a query. -/
def CachedHeight.get (self : CachedHeight) (query : AppCode UInt64) (checked answered : Rat) :
    AppCode (UInt64 × CachedHeight) := do
  if self.height = 0 ∨ checked - self.time > self.ttl then
    let height ← query
    return (height, { self with height := height, time := answered })
  return (self.height, self)

/-- The instance variables of a `Wallet` that cache a height. -/
structure DaemonHeights where
  m_daemonBlockChainHeight : CachedHeight
  m_daemonBlockChainTargetHeight : CachedHeight
  deriving DecidableEq

/-- As `init:` sets them. -/
def DaemonHeights.init : DaemonHeights where
  m_daemonBlockChainHeight := ⟨0, DAEMON_BLOCKCHAIN_HEIGHT_CACHE_TTL_SECONDS, 0⟩
  m_daemonBlockChainTargetHeight := ⟨0, DAEMON_BLOCKCHAIN_TARGET_HEIGHT_CACHE_TTL_SECONDS, 0⟩

namespace Wallet

variable (self : Wallet) (m : DaemonHeights) (checked answered : Rat)

def daemonBlockChainHeight : AppCode (UInt64 × DaemonHeights) := do
  let r ← m.m_daemonBlockChainHeight.get (call (.wallet self.impl .daemonBlockChainHeight))
    checked answered
  return (r.1, { m with m_daemonBlockChainHeight := r.2 })

def daemonBlockChainTargetHeight : AppCode (UInt64 × DaemonHeights) := do
  let r ← m.m_daemonBlockChainTargetHeight.get
    (call (.wallet self.impl .daemonBlockChainTargetHeight)) checked answered
  return (r.1, { m with m_daemonBlockChainTargetHeight := r.2 })

end Wallet

namespace CachedHeight

variable {self : CachedHeight} {checked : Rat} (query : AppCode UInt64) (answered : Rat) (env : Env)

/-- A height that is there and, by the clock, has time to live. -/
theorem get_of_fresh (h : self.height ≠ 0) (hage : checked - self.time ≤ self.ttl) :
    (self.get query checked answered).val env = (self.height, self) ∧
      (self.get query checked answered).log env = [] := by
  have hcond : ¬ (self.height = 0 ∨ checked - self.time > self.ttl) := by
    rintro (h0 | hgt)
    · exact h h0
    · exact Rat.not_le.2 hgt hage
  rw [get, if_neg hcond]
  exact ⟨rfl, rfl⟩

/-- A height that is not there, or that by the clock has outlived its time. -/
theorem get_of_stale (h : self.height = 0 ∨ checked - self.time > self.ttl) :
    (self.get query checked answered).val env =
        (query.val env, { self with height := query.val env, time := answered }) ∧
      (self.get query checked answered).log env = query.log env := by
  rw [get, if_pos h]
  exact ⟨rfl, List.append_nil _⟩

end CachedHeight

end Monujo
