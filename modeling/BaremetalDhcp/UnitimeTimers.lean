import BaremetalDhcp.BitmapUnitime

/-!
# The timers of BITMAP_UNITIME

A range is used again only after its timer has run out, so a range that is left without a
timer is lost.  `TimersSet` says that this does not happen: a range whose counter has reached
the end has a timer, and so has every other range with a committed address.

`dhcp_bmpool_uni_peek` starts the timer on the exit that returns an address, and returns 0
earlier when the scan has found none.  `Serves` is the condition on the pool that keeps a
DISCOVER on the first exit; clients that commit the addresses behind the counter break it.
`bmuni_timers_set_iff` turns the property of all states of a run into that condition on its
DISCOVERs, and `bmuni_timer_skipped` is a run of two messages that breaks both.
-/

namespace BaremetalDhcp

open Machine

/-- Every range other than the current one with a committed address has a timer. -/
def BmPoolUni.OthersSet (pool : BmPoolUni) : Prop :=
  ∀ r < pool.numRanges.toNat, r ≠ pool.curRange.toNat →
    (∃ slot < pool.rangeSize.toNat, slotUsed (pool.ranges r).ips slot = true) →
      (pool.ranges r).expireTime ≠ 0

/-- **The timers of all ranges that can hold a lease are set.** -/
structure BmPoolUni.TimersSet (pool : BmPoolUni) : Prop where
  full : pool.rangeSize ≤ pool.counter → pool.current.expireTime ≠ 0
  left : pool.OthersSet

/-- The last address of a range can be offered: it is not 0 and the range does not wrap
around. -/
def BmPoolUni.LastUsable (pool : BmPoolUni) (r : UInt8) : Prop :=
  pool.poolStart + r.toUInt32 * pool.rangeSize + (pool.rangeSize - 1) ≠ 0 ∧
    (pool.poolStart + r.toUInt32 * pool.rangeSize).toNat + pool.rangeSize.toNat < 2 ^ 32

/-- From the counter on, the current range has a free slot; the last slot counts only if its
address can be offered. -/
def BmPoolUni.Serves (pool : BmPoolUni) : Prop :=
  ∃ slot : ℕ, pool.counter.toNat ≤ slot ∧ slot < pool.rangeSize.toNat ∧
    slotUsed pool.current.ips slot = false ∧
    (slot + 1 = pool.rangeSize.toNat → pool.LastUsable pool.curRange)

/-- The condition on a pool at which a DISCOVER arrives: the range that is open serves it, and
so does a range of one address that is entered for it. -/
def BmPoolUni.KeepsTimers (pool : BmPoolUni) (curTime : UInt32) : Prop :=
  (pool.counter < pool.rangeSize → pool.Serves) ∧
    (pool.rangeSize ≤ pool.counter → pool.rangeSize = 1 →
      (pool.ranges pool.nextRange.toNat).expireTime ≤ curTime →
      pool.LastUsable pool.nextRange)

/-- What holds in every state, whatever the messages: there are two ranges, and a range that
is still open has no timer. -/
structure BmPoolUni.Rotates (pool : BmPoolUni) : Prop where
  cur_lt : pool.curRange.toNat < pool.numRanges.toNat
  two_le : 2 ≤ pool.numRanges.toNat
  size_pos : 0 < pool.rangeSize
  rounds : pool.rangeSize.toNat + 31 < 2 ^ 32
  idle : pool.counter < pool.rangeSize → pool.current.expireTime = 0

section Scan

variable {pool : BmPoolUni}

/-- The last slot of the current range, when it is free, is refused exactly if it is not
usable. -/
theorem BmPoolUni.lastUsable_iff {slot : UInt32} (hslot : slot < pool.rangeSize)
    (hlast : slot.toNat + 1 = pool.rangeSize.toNat)
    (hfree : slotUsed pool.current.ips slot.toNat = false) :
    pool.LastUsable pool.curRange ↔
      ¬ (rangeBase pool + slot = 0 ∨
        dhcpBmpoolUniIpUsed pool (rangeBase pool + slot) = true) := by
  have hsub : pool.rangeSize - 1 = slot := by
    have hsucc : slot + 1 = pool.rangeSize :=
      UInt32.toNat_inj.mp ((toNat_counter_succ hslot).trans hlast)
    rw [← hsucc]
    exact UInt32.add_sub_cancel _ _
  rw [not_or, Bool.not_eq_true, dhcpBmpoolUniIpUsed_of_free hslot hfree, ← hsub]
  rfl

/-- When an address is returned, the timer is started with the last one. -/
theorem BmPoolUni.settle_of_found (pool : BmPoolUni) {candidate : UInt32}
    (h : ¬ (candidate = 0 ∨ dhcpBmpoolUniIpUsed pool candidate = true))
    (htimer : pool.current.expireTime = 0) (curTime : UInt32) :
    (pool.settle candidate curTime).1.counter = pool.counter ∧
      (pool.settle candidate curTime).1.current.expireTime =
        if pool.rangeSize ≤ pool.counter then curTime + pool.leaseTime else 0 := by
  have hfull : dhcpBmRangeFull pool.counter pool.rangeSize = true ↔
      pool.rangeSize ≤ pool.counter := decide_eq_true_iff
  unfold BmPoolUni.settle
  rw [if_neg h]
  split_ifs with harm hle hle
  · exact ⟨rfl, by simp [BmPoolUni.current]⟩
  · exact absurd (hfull.mp harm.2) hle
  · exact absurd ⟨htimer, hfull.mpr hle⟩ harm
  · exact ⟨rfl, htimer⟩

/-- What a scan of `pool` should leave in `after`: no timer while the range is open; at its
end a timer exactly if the range served the DISCOVER. -/
def BmPoolUni.TimerFollows (pool after : BmPoolUni) : Prop :=
  (after.counter < pool.rangeSize → after.current.expireTime = 0) ∧
    ((pool.rangeSize ≤ after.counter → after.current.expireTime ≠ 0) ↔ pool.Serves)

/-- A scan that ends on a used slot offers an address that is refused. -/
theorem dhcpBmpoolUniIpUsed_last (hlt : pool.counter < pool.rangeSize)
    (hused : ∀ j, pool.counter.toNat ≤ j → j < pool.rangeSize.toNat →
      slotUsed pool.current.ips j = true) :
    dhcpBmpoolUniIpUsed { pool with counter := pool.rangeSize }
      (rangeBase pool + (pool.rangeSize - 1)) = true := by
  have hnat := UInt32.lt_iff_toNat_lt.mp hlt
  have hone : (1 : UInt32) ≤ pool.rangeSize :=
    UInt32.le_iff_toNat_le.mpr (Nat.lt_of_le_of_lt (Nat.zero_le _) hnat)
  have hlast : (pool.rangeSize - 1).toNat = pool.rangeSize.toNat - 1 :=
    UInt32.toNat_sub_of_le _ _ hone
  have hin : pool.rangeSize - 1 < pool.rangeSize :=
    UInt32.lt_iff_toNat_lt.mpr (by rw [hlast]; omega)
  exact dhcpBmpoolUniIpUsed_of_used { pool with counter := pool.rangeSize } hin
    (hused _ (by rw [hlast]; omega) (by rw [hlast]; omega))

/-- The scan has found the last slot of the range: whether it is offered decides. -/
theorem BmPoolUni.timerFollows_of_last {slot : UInt32} (hfrom : pool.counter ≤ slot)
    (hslot : slot < pool.rangeSize) (hlast : slot.toNat + 1 = pool.rangeSize.toNat)
    (hfree : slotUsed pool.current.ips slot.toNat = false)
    (hused : ∀ j, pool.counter.toNat ≤ j → j < slot.toNat → slotUsed pool.current.ips j = true)
    (htimer : pool.current.expireTime = 0) {curTime : UInt32}
    (hlease : curTime + pool.leaseTime ≠ 0) :
    pool.TimerFollows
      (BmPoolUni.settle { pool with counter := slot + 1 } (rangeBase pool + slot) curTime).1 := by
  have hend : pool.rangeSize ≤ slot + 1 := by
    rw [UInt32.le_iff_toNat_le, toNat_counter_succ hslot]
    omega
  have husable_iff := BmPoolUni.lastUsable_iff hslot hlast hfree
  by_cases husable : pool.LastUsable pool.curRange
  · obtain ⟨hcounter, hstarted⟩ := BmPoolUni.settle_of_found
      { pool with counter := slot + 1 } (husable_iff.mp husable) htimer curTime
    dsimp only at hcounter hstarted
    rw [if_pos hend] at hstarted
    rw [BmPoolUni.TimerFollows, hcounter, hstarted]
    refine ⟨fun hopen => absurd hopen (UInt32.not_lt.mpr hend), ?_⟩
    exact iff_of_true (fun _ => hlease) ⟨slot.toNat, UInt32.le_iff_toNat_le.mp hfrom,
      UInt32.lt_iff_toNat_lt.mp hslot, hfree, fun _ => husable⟩
  · have hrefused := not_not.mp (mt husable_iff.mpr husable)
    rw [BmPoolUni.settle_of_used { pool with counter := slot + 1 } hrefused]
    refine ⟨fun _ => htimer, iff_of_false (fun h => h hend htimer) ?_⟩
    -- the last slot is the only free one
    rintro ⟨other, hfrom', hin, hfree', husable'⟩
    rcases Nat.lt_or_ge other slot.toNat with hbefore | hafter
    · rw [hused other hfrom' hbefore] at hfree'
      cases hfree'
    · exact husable (husable' (by omega))

/-- The scan has found an earlier slot: the range stays open and served the DISCOVER. -/
theorem BmPoolUni.timerFollows_of_earlier {slot : UInt32} (hfrom : pool.counter ≤ slot)
    (hslot : slot < pool.rangeSize) (hlast : slot.toNat + 1 ≠ pool.rangeSize.toNat)
    (hfree : slotUsed pool.current.ips slot.toNat = false)
    (htimer : pool.current.expireTime = 0) (curTime : UInt32) :
    pool.TimerFollows
      (BmPoolUni.settle { pool with counter := slot + 1 } (rangeBase pool + slot) curTime).1 := by
  have hnat := UInt32.lt_iff_toNat_lt.mp hslot
  have hopen : slot + 1 < pool.rangeSize := by
    rw [UInt32.lt_iff_toNat_lt, toNat_counter_succ hslot]
    omega
  have hserves : pool.Serves :=
    ⟨slot.toNat, UInt32.le_iff_toNat_le.mp hfrom, hnat, hfree, fun h => absurd h hlast⟩
  by_cases hrefused : rangeBase pool + slot = 0 ∨
      dhcpBmpoolUniIpUsed { pool with counter := slot + 1 } (rangeBase pool + slot) = true
  · rw [BmPoolUni.settle_of_used { pool with counter := slot + 1 } hrefused]
    exact ⟨fun _ => htimer,
      iff_of_true (fun hend => absurd hopen (UInt32.not_lt.mpr hend)) hserves⟩
  · obtain ⟨hcounter, hkept⟩ := BmPoolUni.settle_of_found
      { pool with counter := slot + 1 } hrefused htimer curTime
    dsimp only at hcounter hkept
    rw [if_neg (UInt32.not_le.mpr hopen)] at hkept
    rw [BmPoolUni.TimerFollows, hcounter, hkept]
    exact ⟨fun _ => rfl,
      iff_of_true (fun hend => absurd hopen (UInt32.not_lt.mpr hend)) hserves⟩

/-- **What a scan leaves in the range it scans.** -/
theorem BmPoolUni.scan_timer (hlt : pool.counter < pool.rangeSize)
    (htimer : pool.current.expireTime = 0) {curTime : UInt32}
    (hlease : curTime + pool.leaseTime ≠ 0) :
    pool.TimerFollows (pool.scan curTime).1 := by
  have hresult := peekScan_spec pool.current.ips (rangeBase pool) pool.rangeSize pool.counter
  rw [BmPoolUni.scan_eq]
  generalize peekScan pool.current.ips (rangeBase pool) pool.rangeSize pool.counter =
    result at hresult ⊢
  cases hresult with
  | full hge => exact absurd hlt (UInt32.not_lt.mpr hge)
  | exhausted _ hused =>
      rw [BmPoolUni.settle_of_used _ (Or.inr (dhcpBmpoolUniIpUsed_last hlt hused))]
      refine ⟨fun _ => htimer, iff_of_false (fun h => h (UInt32.le_refl _) htimer) ?_⟩
      rintro ⟨slot, hfrom, hslot, hfree, -⟩
      rw [hused slot hfrom hslot] at hfree
      cases hfree
  | found slot hfrom hslot hfree hused =>
      by_cases hlast : slot.toNat + 1 = pool.rangeSize.toNat
      · exact BmPoolUni.timerFollows_of_last hfrom hslot hlast hfree hused htimer hlease
      · exact BmPoolUni.timerFollows_of_earlier hfrom hslot hlast hfree htimer curTime

end Scan

/-! ## A step -/

/-- The pool after the next range was entered with the contents `g`. -/
def BmPoolUni.entered (pool : BmPoolUni) (g : BmRange) : BmPoolUni :=
  { pool with
    ranges := Function.update pool.ranges pool.nextRange.toNat g
    curRange := pool.nextRange
    counter := 0 }

section Step

variable {pool : BmPoolUni}

theorem BmPoolUni.Rotates.next (h : pool.Rotates) :
    pool.nextRange.toNat < pool.numRanges.toNat ∧
      pool.nextRange.toNat ≠ pool.curRange.toNat := by
  have htwo := h.two_le
  have hcur := h.cur_lt
  rw [pool.toNat_nextRange (by omega)]
  refine ⟨Nat.mod_lt _ (by omega), ?_⟩
  rcases Nat.lt_or_ge (pool.curRange.toNat + 1) pool.numRanges.toNat with hlt | hge
  · rw [Nat.mod_eq_of_lt hlt]
    omega
  · obtain heq : pool.curRange.toNat + 1 = pool.numRanges.toNat := by omega
    rw [heq, Nat.mod_self]
    omega

/-- **How a full range is left**: not at all while the timer of the next one is running;
otherwise for the next one, as it is if it has no timer, and recycled if it had one. -/
theorem BmPoolUni.Rotates.advance_cases (h : pool.Rotates)
    (hfull : pool.rangeSize ≤ pool.counter) (curTime : UInt32) :
    (¬ (pool.ranges pool.nextRange.toNat).expireTime ≤ curTime ∧
        pool.advance curTime = (pool, false)) ∨
      (pool.ranges pool.nextRange.toNat).expireTime ≤ curTime ∧ ∃ g : BmRange,
        g.expireTime = 0 ∧
        ((pool.ranges pool.nextRange.toNat).expireTime = 0 ∧
            g = pool.ranges pool.nextRange.toNat ∨
          g.ips = recycleWords (pool.ranges pool.nextRange.toNat).ips pool.rangeSize) ∧
        pool.advance curTime = (pool.entered g, true) := by
  have hfull' : dhcpBmRangeFull pool.counter pool.rangeSize = true := decide_eq_true hfull
  rw [pool.advance_of_full hfull']
  unfold BmPoolUni.renew
  by_cases hover : pool.RecyclesNext curTime
  · refine Or.inr ⟨hover.2.2, (pool.ranges pool.nextRange.toNat).recycle pool.rangeSize, rfl,
      Or.inr rfl, ?_⟩
    rw [if_pos hover, dhcpBmpoolUniRecycle_of_lt pool h.next.1]
    exact if_pos (by simp [BmRange.recycle])
  · rw [if_neg hover]
    by_cases hzero : (pool.ranges pool.nextRange.toNat).expireTime = 0
    · refine Or.inr ⟨by rw [hzero]; exact UInt32.zero_le, pool.ranges pool.nextRange.toNat, hzero,
        Or.inl ⟨hzero, rfl⟩, ?_⟩
      unfold BmPoolUni.entered
      rw [Function.update_eq_self]
      exact if_pos hzero
    · refine Or.inl ⟨fun hle => hover ⟨hfull', ?_, hle⟩, if_neg hzero⟩
      exact UInt32.pos_iff_ne_zero.mpr hzero

theorem BmPoolUni.Rotates.entered (h : pool.Rotates) {g : BmRange} (hg : g.expireTime = 0) :
    (pool.entered g).Rotates := by
  refine ⟨h.next.1, h.two_le, h.size_pos, h.rounds, fun _ => ?_⟩
  show (Function.update pool.ranges pool.nextRange.toNat g pool.nextRange.toNat).expireTime = 0
  rw [Function.update_self]
  exact hg

/-- Entering the next range leaves a range behind whose timer is set. -/
theorem BmPoolUni.TimersSet.entered (hset : pool.TimersSet)
    (hfull : pool.rangeSize ≤ pool.counter) (g : BmRange) : (pool.entered g).OthersSet := by
  intro r hr hne hslot
  have hkept : (pool.entered g).ranges r = pool.ranges r := Function.update_of_ne hne _ _
  rw [hkept] at hslot ⊢
  by_cases hcur : r = pool.curRange.toNat
  · rw [hcur]
    exact hset.full hfull
  · exact hset.left r hr hcur hslot

/-- **One scan keeps the timers** exactly if the range serves. -/
theorem BmPoolUni.Rotates.scan (h : pool.Rotates) (hlt : pool.counter < pool.rangeSize)
    {curTime : UInt32} (hlease : curTime + pool.leaseTime ≠ 0) :
    (pool.scan curTime).1.Rotates ∧
      (pool.OthersSet → ((pool.scan curTime).1.TimersSet ↔ pool.Serves)) := by
  obtain ⟨⟨hshape, hcur⟩, hranges⟩ := pool.scan_spec curTime
  obtain ⟨hidle, hserves⟩ := pool.scan_timer hlt (h.idle hlt) hlease
  constructor
  · refine ⟨?_, ?_, ?_, ?_, ?_⟩
    · rw [hcur, hshape.numRanges]
      exact h.cur_lt
    · rw [hshape.numRanges]
      exact h.two_le
    · rw [hshape.rangeSize]
      exact h.size_pos
    · rw [hshape.rangeSize]
      exact h.rounds
    · rw [hshape.rangeSize]
      exact hidle
  · intro hothers
    rw [← hserves, ← hshape.rangeSize]
    refine ⟨fun hset => hset.full, fun hfull => ⟨hfull, ?_⟩⟩
    intro r hr hne hslot
    rw [hshape.numRanges] at hr
    rw [hcur] at hne
    rw [hshape.rangeSize] at hslot
    have hips : ((pool.scan curTime).1.ranges r).ips = (pool.ranges r).ips := by
      obtain hsame | ⟨-, hstarted⟩ := hranges r
      · rw [hsame]
      · rw [hstarted]
    rw [hips] at hslot
    have hset := hothers r hr hne hslot
    obtain hsame | ⟨hzero, -⟩ := hranges r
    · rw [hsame]
      exact hset
    · exact absurd hzero hset

/-- A range that is entered has no slot in use, so it serves unless its only address cannot
be offered. -/
theorem BmPoolUni.Rotates.entered_serves_iff (h : pool.Rotates) (hset : pool.TimersSet)
    {g : BmRange}
    (hg : (pool.ranges pool.nextRange.toNat).expireTime = 0 ∧
        g = pool.ranges pool.nextRange.toNat ∨
      g.ips = recycleWords (pool.ranges pool.nextRange.toNat).ips pool.rangeSize) :
    (pool.entered g).Serves ↔ (pool.rangeSize = 1 → pool.LastUsable pool.nextRange) := by
  have hpos := UInt32.lt_iff_toNat_lt.mp h.size_pos
  have hfree : ∀ slot < pool.rangeSize.toNat, slotUsed g.ips slot = false := by
    intro slot hslot
    obtain ⟨hzero, rfl⟩ | hrecycled := hg
    · by_contra hused
      exact hset.left _ h.next.1 h.next.2 ⟨slot, hslot, Bool.not_eq_false _ ▸ hused⟩ hzero
    · rw [hrecycled]
      exact slotUsed_recycleWords_of_fits _ h.rounds hslot
  have hips : (pool.entered g).current = g := Function.update_self _ _ _
  unfold BmPoolUni.Serves
  rw [hips]
  constructor
  · rintro ⟨slot, -, hslot, -, husable⟩ hone
    refine husable ?_
    have hone' : (pool.entered g).rangeSize.toNat = 1 := congrArg UInt32.toNat hone
    omega
  · intro husable
    refine ⟨0, Nat.zero_le _, hpos, hfree 0 hpos, fun hone => ?_⟩
    exact husable (UInt32.toNat_inj.mp hone.symm)

/-- **One DISCOVER keeps the timers** exactly under its condition. -/
theorem BmPoolUni.Rotates.peek (h : pool.Rotates) {curTime : UInt32}
    (hlease : curTime + pool.leaseTime ≠ 0) :
    (dhcpBmpoolUniPeek pool curTime).1.Rotates ∧
      (pool.TimersSet →
        ((dhcpBmpoolUniPeek pool curTime).1.TimersSet ↔ pool.KeepsTimers curTime)) := by
  unfold dhcpBmpoolUniPeek BmPoolUni.KeepsTimers
  by_cases hlt : pool.counter < pool.rangeSize
  · have hopen : pool.advance curTime = (pool, true) := pool.advance_of_not_full
      (fun hfull => UInt32.not_le.mpr hlt (of_decide_eq_true hfull)) curTime
    rw [hopen, if_pos rfl]
    obtain ⟨hnext, hiff⟩ := h.scan hlt hlease
    refine ⟨hnext, fun hset => (hiff hset.left).trans ⟨fun hserves => ⟨fun _ => hserves, ?_⟩,
      fun hkeeps => hkeeps.1 hlt⟩⟩
    exact fun hfull => absurd hlt (UInt32.not_lt.mpr hfull)
  · have hfull : pool.rangeSize ≤ pool.counter := UInt32.not_lt.mp hlt
    obtain ⟨hrunning, hstay⟩ | ⟨hready, g, hzero, hg, hmove⟩ := h.advance_cases hfull curTime
    · rw [hstay, if_neg (by simp)]
      refine ⟨h, fun hset => iff_of_true hset ⟨fun hopen => absurd hopen hlt, ?_⟩⟩
      exact fun _ _ hle => absurd hle hrunning
    · rw [hmove, if_pos rfl]
      obtain ⟨hnext, hiff⟩ := (h.entered hzero).scan h.size_pos hlease
      refine ⟨hnext, fun hset => (hiff (hset.entered hfull g)).trans
        ((h.entered_serves_iff hset hg).trans ⟨fun husable => ⟨fun hopen => absurd hopen hlt, ?_⟩,
          fun hkeeps hone => hkeeps.2 hfull hone hready⟩)⟩
      exact fun _ hone _ => husable hone

/-- A commit only marks a slot of the current range. -/
theorem BmPoolUni.Rotates.commit (h : pool.Rotates) (ip : UInt32) :
    (dhcpBmpoolUniCommitIp pool ip).1.Rotates ∧
      (pool.TimersSet → (dhcpBmpoolUniCommitIp pool ip).1.TimersSet) := by
  unfold dhcpBmpoolUniCommitIp
  split_ifs
  · exact ⟨h, id⟩
  · have hcurrent : ∀ g : BmRange,
        Function.update pool.ranges pool.curRange.toNat g pool.curRange.toNat = g :=
      fun g => Function.update_self _ _ _
    refine ⟨⟨h.cur_lt, h.two_le, h.size_pos, h.rounds, fun hlt => ?_⟩, fun hset => ⟨?_, ?_⟩⟩
    · unfold BmPoolUni.current
      dsimp only
      rw [hcurrent]
      exact h.idle hlt
    · intro hfull
      unfold BmPoolUni.current
      dsimp only
      rw [hcurrent]
      exact hset.full hfull
    · intro r hr hne hslot
      dsimp only at hr hne hslot ⊢
      rw [Function.update_of_ne hne] at hslot ⊢
      exact hset.left r hr hne hslot

end Step

/-! ## Runs -/

section Runs

variable {server : DhcpServer BmPoolUni} {leaseTime : UInt32}

/-- The condition on a message: a DISCOVER finds a pool that keeps its timers. -/
def DiscoverKeepsTimers (server : DhcpServer BmPoolUni) (a : Arrival) : Prop :=
  a.msgType = dhcpDiscover → server.pool.KeepsTimers a.curTime

/-- One message, whatever it is. -/
theorem BmPoolUni.Rotates.step (h : server.pool.Rotates) {a : Arrival}
    (hlease : a.curTime + server.pool.leaseTime ≠ 0) :
    (dhcpProcessMessageBmuni server a).1.pool.Rotates ∧
      (server.pool.TimersSet →
        ((dhcpProcessMessageBmuni server a).1.pool.TimersSet ↔ DiscoverKeepsTimers server a)) := by
  have hother : ∀ {pool : BmPoolUni}, a.msgType ≠ dhcpDiscover →
      (server.pool.TimersSet → pool.TimersSet) →
      (server.pool.TimersSet → (pool.TimersSet ↔ DiscoverKeepsTimers server a)) :=
    fun hne hkeep hset => iff_of_true (hkeep hset) fun hd => absurd hd hne
  unfold dhcpProcessMessageBmuni
  obtain hd | ⟨hr, ip, hip⟩ | hc | hi := a.cases
  · rw [processMessage_discover hd]
    obtain ⟨hnext, hiff⟩ := h.peek hlease
    refine ⟨hnext, fun hset => (hiff hset).trans ⟨fun hkeeps _ => hkeeps, fun hkeeps => hkeeps hd⟩⟩
  · have hne : a.msgType ≠ dhcpDiscover := by rw [hr]; decide
    rw [processMessage_request hr hip]
    obtain ⟨-, hcall⟩ | ⟨-, hcall⟩ := bmuniCalls_request server ip a
    · rw [hcall]
      exact ⟨(h.commit ip).1, hother hne (h.commit ip).2⟩
    · rw [hcall]
      exact ⟨h, hother hne id⟩
  · rw [processMessage_decline hc]
    exact ⟨h, hother (by rw [hc]; decide) id⟩
  · rw [processMessage_ignored hi]
    exact ⟨h, hother hi.1 id⟩

theorem dhcpProcessMessageBmuni_leaseTime (server : DhcpServer BmPoolUni) (a : Arrival) :
    (dhcpProcessMessageBmuni server a).1.pool.leaseTime = server.pool.leaseTime := by
  unfold dhcpProcessMessageBmuni
  obtain hd | ⟨hr, ip, hip⟩ | hc | hi := a.cases
  · rw [processMessage_discover hd]
    exact (dhcpBmpoolUniPeek_spec server.pool a.curTime).1.1.leaseTime
  · rw [processMessage_request hr hip]
    obtain ⟨-, hcall⟩ | ⟨-, hcall⟩ := bmuniCalls_request server ip a
    · rw [hcall]
      show (dhcpBmpoolUniCommitIp server.pool ip).1.leaseTime = _
      unfold dhcpBmpoolUniCommitIp
      split_ifs <;> rfl
    · rw [hcall]
  · rw [processMessage_decline hc]
    rfl
  · rw [processMessage_ignored hi]

/-- In a pool of proper addresses the condition says that a slot behind the counter is
free. -/
theorem BmPoolUni.Placed.keepsTimers_iff {pool : BmPoolUni}
    {poolStart leaseTime rangeSize : UInt32} {numRanges : UInt8}
    (h : pool.Placed poolStart leaseTime rangeSize numRanges) (hpos : 0 < poolStart)
    (curTime : UInt32) :
    pool.KeepsTimers curTime ↔ (pool.counter < pool.rangeSize →
      ∃ slot, pool.counter.toNat ≤ slot ∧ slot < pool.rangeSize.toNat ∧
        slotUsed pool.current.ips slot = false) := by
  have husable : ∀ r : UInt8, r = pool.curRange ∨ r = pool.nextRange → pool.LastUsable r := by
    intro r hr
    have hplaced : BmPoolUni.Placed poolStart leaseTime rangeSize numRanges
        { pool with curRange := r } := h.of_sameShape ⟨rfl, rfl, rfl, rfl⟩ hr
    obtain ⟨hbase, hend⟩ := hplaced.toNat_rangeBase
    have hbound := (rangeBase { pool with curRange := r } + pool.rangeSize).toNat_lt
    have hstart := UInt32.lt_iff_toNat_lt.mp hpos
    have hsize := h.size_pos
    have hlast : (pool.rangeSize - 1).toNat = pool.rangeSize.toNat - 1 := by
      refine UInt32.toNat_sub_of_le _ _ (UInt32.le_iff_toNat_le.mpr ?_)
      rw [h.rangeSize_eq]
      exact hsize
    have hfits : (rangeBase { pool with curRange := r }).toNat + pool.rangeSize.toNat < 2 ^ 32 := by
      rw [hend, Nat.succ_mul, ← Nat.add_assoc] at hbound
      rw [hbase, h.rangeSize_eq]
      exact hbound
    refine ⟨fun hzero => ?_, hfits⟩
    have hnat : (rangeBase { pool with curRange := r } + (pool.rangeSize - 1)).toNat = 0 :=
      congrArg UInt32.toNat hzero
    rw [UInt32.toNat_add, hlast, Nat.mod_eq_of_lt (by omega), hbase] at hnat
    rw [UInt32.toNat_zero] at hstart
    omega
  unfold BmPoolUni.KeepsTimers BmPoolUni.Serves
  constructor
  · rintro ⟨hserves, -⟩ hlt
    obtain ⟨slot, hfrom, hslot, hfree, -⟩ := hserves hlt
    exact ⟨slot, hfrom, hslot, hfree⟩
  · intro hserves
    refine ⟨fun hlt => ?_, fun _ _ _ => husable _ (Or.inr rfl)⟩
    obtain ⟨slot, hfrom, hslot, hfree⟩ := hserves hlt
    exact ⟨slot, hfrom, hslot, hfree, fun _ => husable _ (Or.inl rfl)⟩

end Runs

/-- **Every state of a run has its timers set exactly if its DISCOVERs keep them**: each one
finds a slot behind the counter that is still free. -/
theorem bmuni_timers_set_iff (prior : BmPoolUni) (config : DhcpConfig) (ranges : ℕ → BmRange)
    (rangeSize : UInt32) (numRanges : UInt8) (hzeroed : prior.counter = 0)
    (hnum : 2 ≤ numRanges) (hsize : 1 ≤ rangeSize) (hrounds : rangeSize.toNat + 31 < 2 ^ 32)
    (run : List Arrival) (hlease : ∀ a ∈ run, a.curTime + config.leaseTime ≠ 0) :
    (∀ before, before <+: run →
      (exec dhcpProcessMessageBmuni
        (dhcpInitServerBmuni prior config ranges rangeSize numRanges) before).pool.TimersSet) ↔
      Along dhcpProcessMessageBmuni DiscoverKeepsTimers
        (dhcpInitServerBmuni prior config ranges rangeSize numRanges) run := by
  have hinit : (dhcpInitServerBmuni prior config ranges rangeSize numRanges).pool =
      dhcpBmpoolUniInit prior config.poolStart config.leaseTime ranges rangeSize numRanges := rfl
  rw [dhcpBmpoolUniInit_eq] at hinit
  have hpos : 0 < rangeSize := UInt32.lt_iff_toNat_lt.mpr (UInt32.le_iff_toNat_le.mp hsize)
  have htwo : 2 ≤ numRanges.toNat := UInt8.le_iff_toNat_le.mp hnum
  have hopen : prior.counter < rangeSize := by rw [hzeroed]; exact hpos
  have hrotates : (dhcpInitServerBmuni prior config ranges rangeSize numRanges).pool.Rotates := by
    rw [hinit]
    refine ⟨Nat.lt_of_lt_of_le Nat.zero_lt_two htwo, htwo, hpos, hrounds, fun _ => ?_⟩
    show (if 0 < numRanges.toNat then (ranges 0).recycle rangeSize else ranges 0).expireTime = 0
    rw [if_pos (Nat.lt_of_lt_of_le Nat.zero_lt_two htwo)]
    rfl
  have hset : (dhcpInitServerBmuni prior config ranges rangeSize numRanges).pool.TimersSet := by
    rw [hinit]
    refine ⟨fun hfull => absurd hopen (UInt32.not_lt.mpr hfull), fun r hr _ hslot => ?_⟩
    dsimp only at hr hslot
    rw [if_pos hr] at hslot
    obtain ⟨slot, hin, hused⟩ := hslot
    rw [show ((ranges r).recycle rangeSize).ips = recycleWords (ranges r).ips rangeSize from rfl,
      slotUsed_recycleWords_of_fits _ hrounds hin] at hused
    cases hused
  refine forall_reached_iff_along
    (fun s : DhcpServer BmPoolUni => s.pool.Rotates ∧ s.pool.leaseTime = config.leaseTime)
    (fun s => s.pool.TimersSet)
    (fun a : Arrival => a.curTime + config.leaseTime ≠ 0) ?_ ?_ run _
    ⟨hrotates, by rw [hinit]⟩ hset hlease
  · rintro s a ⟨hs, htime⟩ ha
    rw [← htime] at ha
    exact ⟨(hs.step ha).1, (dhcpProcessMessageBmuni_leaseTime s a).trans htime⟩
  · rintro s a ⟨hs, htime⟩ hp ha
    rw [← htime] at ha
    exact (hs.step ha).2 hp

/-- The DISCOVER that offers the only address of a range starts its timer; the commit that
follows finds it set. -/
theorem bmuni_timers_set_offer_then_commit :
    let server := dhcpInitServerBmuni ⟨0, 0, 0, fun _ => ⟨fun _ => 0, 0⟩, 0, 0, 0⟩
      (poolConfig 100 101 10) (fun _ => ⟨fun _ => 0, 0⟩) 1 2
    let run := [discoverFrom 1 0, requestFrom 1 100 1]
    ∀ before, before <+: run →
      (exec dhcpProcessMessageBmuni server before).pool.TimersSet := by
  intro server run
  refine (bmuni_timers_set_iff _ _ _ _ _ rfl (by decide) (by decide) (by decide) run ?_).mpr ?_
  · intro a ha
    rcases List.mem_cons.mp ha with rfl | ha
    · decide
    · obtain rfl := List.mem_singleton.mp ha
      decide
  · refine ⟨fun _ => ⟨fun _ => ⟨0, by decide, by decide, rfl, fun _ => ⟨by decide, by decide⟩⟩,
      fun hfull => absurd hfull (by decide)⟩, fun hd => absurd hd (by decide), trivial⟩

/-- A client commits the only address of the range before it was offered; the DISCOVER that
follows exhausts the range without starting its timer. -/
theorem bmuni_timer_skipped :
    let server := dhcpInitServerBmuni ⟨0, 0, 0, fun _ => ⟨fun _ => 0, 0⟩, 0, 0, 0⟩
      (poolConfig 100 101 10) (fun _ => ⟨fun _ => 0, 0⟩) 1 2
    let run := [requestFrom 1 100 1, discoverFrom 2 2]
    ¬ (exec dhcpProcessMessageBmuni server run).pool.TimersSet := by
  intro server run hset
  exact hset.full (by decide +kernel) (by decide +kernel)

end BaremetalDhcp
