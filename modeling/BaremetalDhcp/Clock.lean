import BaremetalDhcp.Wire
import BaremetalDhcp.ArrayPool
import BaremetalDhcp.HashPool
import BaremetalDhcp.BitmapVartime
import BaremetalDhcp.BitmapUnitime

/-!
# The adapter's clock

`CraftDHCPOffer` and `CraftDHCPAck` tell the library the time in seconds as
`CTimer::GetClockTicks () / 1000000`, the low 32 bits of a 1 MHz counter divided by a
million.  The counter wraps after 4294.97 s, so the seconds run from 0 to 4294 and start
again, while the timers of the library are absolute: `expire_time = cur_time + lease_time`,
compared with `expire_time <= cur_time`.

Every wrap between two instants takes a whole period of the counter from the time that the
library sees go by.  `timer_expires_iff` says, by the number of the wraps, for which pairs of
instants the comparison comes out true; `timer_missed` is a pair for which it does not.
-/

namespace BaremetalDhcp

/-- `CTimer::GetClockTicks`, `micros` microseconds after the counter was at zero. -/
def getClockTicks (micros : ℕ) : UInt32 := UInt32.ofNat micros

/-- `ts_in_sec`, the time the adapter passes to the library. -/
def tsInSec (micros : ℕ) : UInt32 := getClockTicks micros / 1000000

/-- How long ago the counter was last at zero. -/
def sinceWrap (micros : ℕ) : ℕ := micros % 2 ^ 32

theorem toNat_tsInSec (micros : ℕ) : (tsInSec micros).toNat = sinceWrap micros / 1000000 := by
  rw [tsInSec, getClockTicks, UInt32.toNat_div, UInt32.toNat_ofNat']
  rfl

/-- The deadline of a timer that is armed at `micros` with the adapter's lease time. -/
def armedAt (micros : ℕ) : UInt32 := tsInSec micros + circleConfig.leaseTime

/-- The deadline itself does not overflow. -/
theorem toNat_armedAt (micros : ℕ) :
    (armedAt micros).toNat = sinceWrap micros / 1000000 + 3600 := by
  have hlease : circleConfig.leaseTime.toNat = 3600 := rfl
  have hlt : sinceWrap micros < 2 ^ 32 := Nat.mod_lt _ (by norm_num)
  rw [armedAt, UInt32.toNat_add, toNat_tsInSec, hlease]
  omega

/-- The comparison of a deadline with a later time, on numbers. -/
theorem armedAt_le_iff (armed now : ℕ) :
    armedAt armed ≤ tsInSec now ↔
      sinceWrap armed / 1000000 + 3600 ≤ sinceWrap now / 1000000 := by
  rw [UInt32.le_iff_toNat_le, toNat_armedAt, toNat_tsInSec]

/-- How often the counter wraps between two instants. -/
def wraps (armed now : ℕ) : ℕ := now / 2 ^ 32 - armed / 2 ^ 32

/-- The counter goes on by the time that passes, less a period for every wrap. -/
theorem sinceWrap_add_wraps {armed now : ℕ} (hle : armed ≤ now) :
    sinceWrap now + wraps armed now * 2 ^ 32 = sinceWrap armed + (now - armed) := by
  have hperiods : armed / 2 ^ 32 ≤ now / 2 ^ 32 := Nat.div_le_div_right hle
  unfold sinceWrap wraps
  omega

/-- The time that passes covers the wraps and the lease; the part of a second that the
deadline was rounded down by when the timer was armed is not waited for. -/
def OutlastsWraps (armed now : ℕ) : Prop :=
  wraps armed now * 2 ^ 32 + circleConfig.leaseTime.toNat * 1000000 ≤
    (now - armed) + sinceWrap armed % 1000000

/-- The comparison in terms of the time that has passed. -/
theorem armedAt_le_iff_outlasts {armed now : ℕ} (hle : armed ≤ now) :
    armedAt armed ≤ tsInSec now ↔ OutlastsWraps armed now := by
  have hlease : circleConfig.leaseTime.toNat = 3600 := rfl
  have hnow := sinceWrap_add_wraps hle
  rw [armedAt_le_iff, OutlastsWraps, hlease]
  omega

/-- Without a wrap in between, the lease time is enough. -/
theorem OutlastsWraps.of_no_wrap {armed now : ℕ}
    (hgap : circleConfig.leaseTime.toNat * 1000000 ≤ now - armed)
    (hsame : armed / 2 ^ 32 = now / 2 ^ 32) : OutlastsWraps armed now := by
  have hnone : wraps armed now = 0 := by
    rw [wraps, hsame, Nat.sub_self]
  rw [OutlastsWraps, hnone, zero_mul, zero_add]
  exact hgap.trans (Nat.le_add_right _ _)

/-- A timer that is armed later than 695 s after a wrap is not seen to run out, however long
one waits: the deadline lies beyond what the counter can read. -/
theorem not_outlastsWraps_of_late {armed now : ℕ} (hle : armed ≤ now)
    (hlate : 695 * 1000000 ≤ sinceWrap armed) :
    ¬ OutlastsWraps armed now := by
  have hlease : circleConfig.leaseTime.toNat = 3600 := rfl
  have hnow := sinceWrap_add_wraps hle
  have hlt : sinceWrap now < 2 ^ 32 := Nat.mod_lt _ (by norm_num)
  rw [OutlastsWraps, hlease]
  omega

/-! ## The four tests -/

/-- The clean-up of the array frees a slot on this test. -/
theorem cleanupSlot_frees_iff {n : ℕ} {curTime : UInt32} {s : (Fin n → DhcpLease) × UInt16}
    {i : Fin n} (huse : (s.1 i).inUse = true) :
    ((cleanupSlot curTime s i).1 i).inUse = false ↔ (s.1 i).expireTime ≤ curTime := by
  unfold cleanupSlot
  split_ifs with hover
  · exact iff_of_true (by simp) hover.2
  · exact iff_of_false (by simp [huse]) fun hle => hover ⟨huse, hle⟩

/-- The clean-up of the hash tables collects a lease on this test, when there are no more
than the 32 it collects at once. -/
theorem mem_expiredSlots_iff {pool : HashPool} {curTime : UInt32} {i : Fin hashN}
    (hused : pool.leases.occupied i = true)
    (hfew : ((List.finRange hashN).filter fun j =>
      pool.leases.occupied j ∧ (pool.leases.buckets j).expireTime ≤ curTime).length ≤ 32) :
    i ∈ pool.expiredSlots curTime ↔ (pool.leases.buckets i).expireTime ≤ curTime := by
  rw [HashPool.expiredSlots, List.take_of_length_le hfew]
  simp [hused]

/-- The peek of BITMAP_VARTIME replaces a running timer on this test. -/
theorem varPeek_restarts_iff {pool : BmPoolVar} {curTime : UInt32}
    (hnew : pool.range.expireTime ≤ curTime → curTime + pool.leaseTime ≠ pool.range.expireTime) :
    (dhcpBmpoolVarPeek pool curTime).1.range.expireTime ≠ pool.range.expireTime ↔
      pool.range.expireTime ≤ curTime := by
  rw [(dhcpBmpoolVarPeek_timer pool curTime).2]
  by_cases hover : pool.range.expireTime ≤ curTime
  · rw [if_pos hover]
    exact iff_of_true (hnew hover) hover
  · rw [if_neg hover]
    exact iff_of_false (not_not.mpr rfl) hover

/-- The peek of BITMAP_UNITIME recycles the next range on this test. -/
theorem recyclesNext_iff {pool : BmPoolUni} {curTime : UInt32}
    (hfull : dhcpBmRangeFull pool.counter pool.rangeSize = true)
    (hrunning : 0 < (pool.ranges pool.nextRange.toNat).expireTime) :
    pool.RecyclesNext curTime ↔ (pool.ranges pool.nextRange.toNat).expireTime ≤ curTime :=
  ⟨fun h => h.2.2, fun h => ⟨hfull, hrunning, h⟩⟩

/-! ## Real time -/

/-- **When a timer is seen to have run out.**  A timer is armed and looked at a lease time
and a second later, or later still.  It counts as expired exactly if the time that has passed
outlasts the lease and, for every wrap of the counter in between, a period of the counter:
always if there is no wrap, and never if the timer was armed late in a period.  The clean-ups
of the two tables and the two peeks decide by this comparison. -/
theorem timer_expires_iff (armed now : ℕ) (hle : armed ≤ now)
    (hgap : (circleConfig.leaseTime.toNat + 1) * 1000000 ≤ now - armed) :
    (armed / 2 ^ 32 = now / 2 ^ 32 → OutlastsWraps armed now) ∧
    (695 * 1000000 ≤ sinceWrap armed → ¬ OutlastsWraps armed now) ∧
    (armedAt armed ≤ tsInSec now ↔ OutlastsWraps armed now) ∧
    (∀ (n : ℕ) (s : (Fin n → DhcpLease) × UInt16) (i : Fin n), (s.1 i).inUse = true →
      (s.1 i).expireTime = armedAt armed →
      (((cleanupSlot (tsInSec now) s i).1 i).inUse = false ↔ OutlastsWraps armed now)) ∧
    (∀ (pool : HashPool) (i : Fin hashN), pool.leases.occupied i = true →
      (pool.leases.buckets i).expireTime = armedAt armed →
      ((List.finRange hashN).filter fun j => pool.leases.occupied j ∧
        (pool.leases.buckets j).expireTime ≤ tsInSec now).length ≤ 32 →
      (i ∈ pool.expiredSlots (tsInSec now) ↔ OutlastsWraps armed now)) ∧
    (∀ pool : BmPoolVar, pool.leaseTime = circleConfig.leaseTime →
      pool.range.expireTime = armedAt armed →
      ((dhcpBmpoolVarPeek pool (tsInSec now)).1.range.expireTime ≠ armedAt armed ↔
        OutlastsWraps armed now)) ∧
    ∀ pool : BmPoolUni, dhcpBmRangeFull pool.counter pool.rangeSize = true →
      (pool.ranges pool.nextRange.toNat).expireTime = armedAt armed →
      (pool.RecyclesNext (tsInSec now) ↔ OutlastsWraps armed now) := by
  have htest := armedAt_le_iff_outlasts hle
  have hrunning : 0 < armedAt armed := by
    rw [UInt32.lt_iff_toNat_lt, toNat_armedAt, UInt32.toNat_zero]
    omega
  have hlease : circleConfig.leaseTime.toNat * 1000000 ≤ now - armed :=
    (Nat.mul_le_mul_right _ (Nat.le_succ _)).trans hgap
  refine ⟨OutlastsWraps.of_no_wrap hlease, not_outlastsWraps_of_late hle, htest, ?_, ?_, ?_, ?_⟩
  · intro n s i huse hexpire
    rw [cleanupSlot_frees_iff huse, hexpire, htest]
  · intro pool i hused hexpire hfew
    rw [mem_expiredSlots_iff hused hfew, hexpire, htest]
  · intro pool hpool hexpire
    rw [← hexpire] at htest ⊢
    refine (varPeek_restarts_iff fun hover heq => ?_).trans htest
    -- a new timer ends a lease time after this peek, later than the old one
    rw [hpool, hexpire] at heq
    rw [hexpire, UInt32.le_iff_toNat_le, toNat_armedAt, toNat_tsInSec] at hover
    have hends := toNat_armedAt now
    rw [show armedAt now = armedAt armed from heq, toNat_armedAt] at hends
    omega
  · intro pool hfull hexpire
    rw [recyclesNext_iff hfull (hexpire ▸ hrunning), hexpire, htest]

/-- Two instants of the first 4294 s. -/
theorem timer_expires_iff_first_period :
    armedAt 0 ≤ tsInSec 4000000000 :=
  have hexpires := timer_expires_iff 0 4000000000 (by norm_num) (by decide)
  hexpires.2.2.1.mpr (hexpires.1 (by norm_num))

/-- A timer armed 1000 s after the counter was at zero is not seen to have run out 3700 s
later: the counter has wrapped and reads 405 s. -/
theorem timer_missed :
    ¬ ∀ armed now : ℕ, armed ≤ now →
      (circleConfig.leaseTime.toNat + 1) * 1000000 ≤ now - armed →
      armedAt armed ≤ tsInSec now := by
  intro h
  exact absurd (h 1000000000 4700000000 (by norm_num) (by decide)) (by decide)

end BaremetalDhcp
