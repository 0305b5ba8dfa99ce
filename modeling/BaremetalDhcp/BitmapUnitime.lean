import BaremetalDhcp.Bitmap

/-!
# The BITMAP_UNITIME backend

`dhcp_bitmap_unitime.c`: the pool is cut into ranges of equal size, addresses are
offered from one current range, and every ACK promises the full lease time.  The
DISCOVER that exhausts a range starts its timer; a later DISCOVER moves on to the
next range, recycling it if its timer has run out.

Three things happen at different times here: a slot is offered, committed, and
recycled with its whole range.  A commit only ever looks at the current range.

* `bmuni_no_double_lease` — a lease granted before its range's timer was started is
  not granted again before it has ended; `bmuni_early_recycle` is a run in which
  the timer was already running.
* `bmuni_offer_honoured_iff` — an outstanding offer is honoured exactly while its
  range is the current one; `bmuni_offer_refused` is a run in which it no longer is.

An address belongs to one range only when the pool does not wrap around 32 bits;
`BmPoolUni.Placed` is the invariant that says so in every state.
-/

namespace BaremetalDhcp

open Machine

/-- `dhcp_bmpool_uni_t`; the array of ranges is a function of the index. -/
structure BmPoolUni where
  poolStart : UInt32
  leaseTime : UInt32
  counter : UInt32
  ranges : ℕ → BmRange
  rangeSize : UInt32
  numRanges : UInt8
  curRange : UInt8

section Operations

/-- `range_base`. -/
def rangeBase (pool : BmPoolUni) : UInt32 :=
  pool.poolStart + pool.curRange.toUInt32 * pool.rangeSize

/-- The current range. -/
def BmPoolUni.current (pool : BmPoolUni) : BmRange := pool.ranges pool.curRange.toNat

/-- `dhcp_bmpool_uni_ip_used`: an address outside the current range counts as used. -/
def dhcpBmpoolUniIpUsed (pool : BmPoolUni) (ip : UInt32) : Bool :=
  let rbase := rangeBase pool
  if ip < rbase ∨ ip ≥ rbase + pool.rangeSize then true
  else dhcpBmUsed pool.current.ips (ip - rbase) pool.rangeSize

/-- `dhcp_bmpool_uni_recycle`. -/
def dhcpBmpoolUniRecycle (pool : BmPoolUni) (rangeIdx : ℕ) : BmPoolUni :=
  if rangeIdx ≥ pool.numRanges.toNat then pool
  else
    { pool with
      ranges := Function.update pool.ranges rangeIdx
        ((pool.ranges rangeIdx).recycle pool.rangeSize) }

/-- `dhcp_bmpool_uni_init`: the counter keeps its prior value. -/
def dhcpBmpoolUniInit (prior : BmPoolUni) (poolStart leaseTime : UInt32) (ranges : ℕ → BmRange)
    (rangeSize : UInt32) (numRanges : UInt8) : BmPoolUni :=
  (List.range numRanges.toNat).foldl dhcpBmpoolUniRecycle
    { prior with
      poolStart := poolStart
      leaseTime := leaseTime
      ranges := ranges
      rangeSize := rangeSize
      numRanges := numRanges
      curRange := 0 }

/-- `next_range`. -/
def BmPoolUni.nextRange (pool : BmPoolUni) : UInt8 :=
  UInt8.ofNat ((pool.curRange.toNat + 1) % pool.numRanges.toNat)

/-- A full current range makes `dhcp_bmpool_uni_peek` recycle the next one: its
timer has run out. -/
def BmPoolUni.RecyclesNext (pool : BmPoolUni) (curTime : UInt32) : Prop :=
  dhcpBmRangeFull pool.counter pool.rangeSize = true ∧
    (pool.ranges pool.nextRange.toNat).expireTime > 0 ∧
    (pool.ranges pool.nextRange.toNat).expireTime ≤ curTime

instance (pool : BmPoolUni) (curTime : UInt32) : Decidable (pool.RecyclesNext curTime) :=
  inferInstanceAs (Decidable (_ ∧ _ ∧ _))

/-- The first half of `dhcp_bmpool_uni_peek`: advance from a full range, with
`false` when no range is available. -/
def BmPoolUni.advance (pool : BmPoolUni) (curTime : UInt32) : BmPoolUni × Bool :=
  if dhcpBmRangeFull pool.counter pool.rangeSize then
    let next := pool.nextRange
    let pool :=
      if pool.RecyclesNext curTime then dhcpBmpoolUniRecycle pool next.toNat else pool
    if (pool.ranges next.toNat).expireTime = 0 then
      ({ pool with curRange := next, counter := 0 }, true)
    else (pool, false)
  else (pool, true)

/-- The second half: scan the current range and start its timer when the scan has
exhausted it. -/
def BmPoolUni.scan (pool : BmPoolUni) (curTime : UInt32) : BmPoolUni × UInt32 :=
  let scan := peekScan pool.current.ips (rangeBase pool) pool.rangeSize pool.counter
  let pool := { pool with counter := scan.1 }
  if scan.2 = 0 ∨ dhcpBmpoolUniIpUsed pool scan.2 then (pool, 0)
  else if pool.current.expireTime = 0 ∧ dhcpBmRangeFull pool.counter pool.rangeSize then
    ({ pool with
        ranges := Function.update pool.ranges pool.curRange.toNat
          { pool.current with expireTime := curTime + pool.leaseTime } }, scan.2)
  else (pool, scan.2)

/-- `dhcp_bmpool_uni_peek`. -/
def dhcpBmpoolUniPeek (pool : BmPoolUni) (curTime : UInt32) : BmPoolUni × UInt32 :=
  if (pool.advance curTime).2 then (pool.advance curTime).1.scan curTime
  else ((pool.advance curTime).1, 0)

/-- `dhcp_bmpool_uni_commit_ip`. -/
def dhcpBmpoolUniCommitIp (pool : BmPoolUni) (ip : UInt32) : BmPoolUni × Bool :=
  if dhcpBmpoolUniIpUsed pool ip then (pool, false)
  else
    ({ pool with
        ranges := Function.update pool.ranges pool.curRange.toNat
          { pool.current with ips := dhcpBmSet pool.current.ips (ip - rangeBase pool) } }, true)

/-- The pool calls of `dhcp_process_message_bmuni`; a DECLINE is ignored. -/
def bmuniCalls : PoolCalls BmPoolUni where
  discover server a :=
    let peeked := dhcpBmpoolUniPeek server.pool a.curTime
    ({ server with pool := peeked.1 }, peeked.2)
  request server ip _ :=
    if InPool server.config.poolStart server.config.poolEnd ip then
      let committed := dhcpBmpoolUniCommitIp server.pool ip
      ({ server with pool := committed.1 }, committed.2)
    else (server, false)
  decline server _ := server

/-- `dhcp_init_server_bmuni`. -/
def dhcpInitServerBmuni (prior : BmPoolUni) (config : DhcpConfig) (ranges : ℕ → BmRange)
    (rangeSize : UInt32) (numRanges : UInt8) : DhcpServer BmPoolUni where
  config := config
  pool := dhcpBmpoolUniInit prior config.poolStart config.leaseTime ranges rangeSize numRanges

/-- `dhcp_process_message_bmuni`. -/
def dhcpProcessMessageBmuni (server : DhcpServer BmPoolUni) (a : Arrival) :
    DhcpServer BmPoolUni × Option DhcpMessage :=
  processMessage bmuniCalls server a

end Operations

/-- Recycling a range of the pool. -/
theorem dhcpBmpoolUniRecycle_of_lt (pool : BmPoolUni) {rangeIdx : ℕ}
    (h : rangeIdx < pool.numRanges.toNat) :
    dhcpBmpoolUniRecycle pool rangeIdx =
      { pool with
        ranges := Function.update pool.ranges rangeIdx
          ((pool.ranges rangeIdx).recycle pool.rangeSize) } :=
  if_neg (not_le.mpr h)

/-- There is nothing to recycle behind the last range. -/
theorem dhcpBmpoolUniRecycle_of_le (pool : BmPoolUni) {rangeIdx : ℕ}
    (h : pool.numRanges.toNat ≤ rangeIdx) : dhcpBmpoolUniRecycle pool rangeIdx = pool :=
  if_pos h

theorem BmPoolUni.toNat_nextRange (pool : BmPoolUni) (hnum : 0 < pool.numRanges.toNat) :
    pool.nextRange.toNat = (pool.curRange.toNat + 1) % pool.numRanges.toNat :=
  UInt8.toNat_ofNat_of_lt' ((Nat.mod_lt _ hnum).trans pool.numRanges.toNat_lt)

/-- The next range, recycled if its timer has run out. -/
def BmPoolUni.renew (pool : BmPoolUni) (curTime : UInt32) : BmPoolUni :=
  if pool.RecyclesNext curTime then dhcpBmpoolUniRecycle pool pool.nextRange.toNat else pool

/-- The move to a range, if its timer is not running. -/
def BmPoolUni.enter (pool : BmPoolUni) (next : UInt8) : BmPoolUni × Bool :=
  if (pool.ranges next.toNat).expireTime = 0 then
    ({ pool with curRange := next, counter := 0 }, true)
  else (pool, false)

theorem BmPoolUni.advance_of_full (pool : BmPoolUni)
    (hfull : dhcpBmRangeFull pool.counter pool.rangeSize = true) (curTime : UInt32) :
    pool.advance curTime = (pool.renew curTime).enter pool.nextRange :=
  if_pos hfull

theorem BmPoolUni.advance_of_not_full (pool : BmPoolUni)
    (hfull : ¬ dhcpBmRangeFull pool.counter pool.rangeSize = true) (curTime : UInt32) :
    pool.advance curTime = (pool, true) :=
  if_neg hfull

/-- What `dhcp_bmpool_uni_peek` does with the candidate of the scan: the timer starts only
when an address is returned. -/
def BmPoolUni.settle (pool : BmPoolUni) (candidate curTime : UInt32) : BmPoolUni × UInt32 :=
  if candidate = 0 ∨ dhcpBmpoolUniIpUsed pool candidate then (pool, 0)
  else if pool.current.expireTime = 0 ∧ dhcpBmRangeFull pool.counter pool.rangeSize then
    ({ pool with
        ranges := Function.update pool.ranges pool.curRange.toNat
          { pool.current with expireTime := curTime + pool.leaseTime } }, candidate)
  else (pool, candidate)

theorem BmPoolUni.settle_of_used (pool : BmPoolUni) {candidate : UInt32}
    (h : candidate = 0 ∨ dhcpBmpoolUniIpUsed pool candidate = true) (curTime : UInt32) :
    pool.settle candidate curTime = (pool, 0) :=
  if_pos h

theorem BmPoolUni.settle_of_unused (pool : BmPoolUni) {candidate : UInt32}
    (h : dhcpBmpoolUniIpUsed pool candidate = false) (curTime : UInt32) :
    (pool.settle candidate curTime).2 = candidate := by
  unfold BmPoolUni.settle
  split_ifs with hnone
  · obtain hzero | hused := hnone
    · exact hzero.symm
    · rw [h] at hused
      cases hused
  · rfl
  · rfl

theorem BmPoolUni.scan_eq (pool : BmPoolUni) (curTime : UInt32) :
    pool.scan curTime =
      BmPoolUni.settle { pool with
        counter := (peekScan pool.current.ips (rangeBase pool) pool.rangeSize pool.counter).1 }
        (peekScan pool.current.ips (rangeBase pool) pool.rangeSize pool.counter).2 curTime :=
  rfl

/-- A free slot is refused only where its range wraps around. -/
theorem dhcpBmpoolUniIpUsed_of_free {pool : BmPoolUni} {slot : UInt32}
    (hslot : slot < pool.rangeSize)
    (hfree : slotUsed pool.current.ips slot.toNat = false) :
    dhcpBmpoolUniIpUsed pool (rangeBase pool + slot) = false ↔
      (rangeBase pool).toNat + pool.rangeSize.toNat < 2 ^ 32 := by
  have hout : (rangeBase pool + slot < rangeBase pool ∨
      rangeBase pool + slot ≥ rangeBase pool + pool.rangeSize) ↔
        ¬ (rangeBase pool).toNat + pool.rangeSize.toNat < 2 ^ 32 := by
    have hbase := (rangeBase pool).toNat_lt
    have hsize := pool.rangeSize.toNat_lt
    have hnat := UInt32.lt_iff_toNat_lt.mp hslot
    rw [ge_iff_le, UInt32.lt_iff_toNat_lt, UInt32.le_iff_toNat_le, UInt32.toNat_add,
      UInt32.toNat_add]
    omega
  unfold dhcpBmpoolUniIpUsed
  dsimp only
  rw [addr_sub_base, dhcpBmUsed_eq_slotUsed hslot, hfree]
  by_cases hfits : (rangeBase pool).toNat + pool.rangeSize.toNat < 2 ^ 32
  · rw [if_neg (fun h => hout.mp h hfits)]
    exact iff_of_true rfl hfits
  · rw [if_pos (hout.mpr hfits)]
    exact iff_of_false (by simp) hfits

/-- A slot in use is always refused. -/
theorem dhcpBmpoolUniIpUsed_of_used (pool : BmPoolUni) {slot : UInt32}
    (hslot : slot < pool.rangeSize)
    (hused : slotUsed pool.current.ips slot.toNat = true) :
    dhcpBmpoolUniIpUsed pool (rangeBase pool + slot) = true := by
  unfold dhcpBmpoolUniIpUsed
  dsimp only
  rw [addr_sub_base, dhcpBmUsed_eq_slotUsed hslot, hused]
  split_ifs <;> rfl

/-- The loop of `dhcp_bmpool_uni_init` recycles the ranges one after the other. -/
theorem recycle_foldl (pool : BmPoolUni) :
    ∀ count ≤ pool.numRanges.toNat,
      (List.range count).foldl dhcpBmpoolUniRecycle pool =
        { pool with ranges := fun r =>
            if r < count then (pool.ranges r).recycle pool.rangeSize else pool.ranges r } := by
  intro count
  induction count with
  | zero => intro _; rfl
  | succ count ih =>
      intro hcount
      rw [List.range_succ, List.foldl_append, ih (by omega)]
      simp only [List.foldl_cons, List.foldl_nil, dhcpBmpoolUniRecycle, ge_iff_le,
        if_neg (not_le.mpr (Nat.lt_of_succ_le hcount))]
      congr 1
      funext r
      rcases lt_trichotomy r count with hlt | rfl | hgt
      · rw [Function.update_of_ne hlt.ne, if_pos hlt, if_pos (by omega)]
      · rw [Function.update_self, if_neg (lt_irrefl r), if_pos (Nat.lt_succ_self r)]
      · rw [Function.update_of_ne hgt.ne', if_neg (by omega), if_neg (by omega)]

/-- What `dhcp_bmpool_uni_init` leaves: its own ranges recycled, the counter as it was. -/
theorem dhcpBmpoolUniInit_eq (prior : BmPoolUni) (poolStart leaseTime : UInt32)
    (ranges : ℕ → BmRange) (rangeSize : UInt32) (numRanges : UInt8) :
    dhcpBmpoolUniInit prior poolStart leaseTime ranges rangeSize numRanges =
      { poolStart := poolStart
        leaseTime := leaseTime
        counter := prior.counter
        ranges := fun r =>
          if r < numRanges.toNat then (ranges r).recycle rangeSize else ranges r
        rangeSize := rangeSize
        numRanges := numRanges
        curRange := 0 } :=
  recycle_foldl
    { prior with
      poolStart := poolStart
      leaseTime := leaseTime
      ranges := ranges
      rangeSize := rangeSize
      numRanges := numRanges
      curRange := 0 } numRanges.toNat le_rfl

/-! ## What a step can do to a range -/

section Ranges

variable {pool : BmPoolUni}

/-- One DISCOVER seen from one range: nothing, the start of its timer, or a recycle
after its timer has run out. -/
def BmRange.Evolves (leaseTime rangeSize curTime : UInt32) (g g' : BmRange) : Prop :=
  g'.ips = g.ips ∧
      (g'.expireTime = g.expireTime ∨
        g.expireTime = 0 ∧ g'.expireTime = curTime + leaseTime) ∨
    0 < g.expireTime ∧ g.expireTime ≤ curTime ∧ g'.ips = recycleWords g.ips rangeSize

theorem BmRange.Evolves.refl {leaseTime rangeSize curTime : UInt32} (g : BmRange) :
    g.Evolves leaseTime rangeSize curTime g :=
  Or.inl ⟨rfl, Or.inl rfl⟩

/-- Advancing recycles at most the next range, after its timer has run out. -/
theorem BmPoolUni.advance_ranges (pool : BmPoolUni) (curTime : UInt32) (r : ℕ) :
    ((pool.advance curTime).1.ranges r = pool.ranges r) ∨
      0 < (pool.ranges r).expireTime ∧ (pool.ranges r).expireTime ≤ curTime ∧
        (pool.advance curTime).1.ranges r = (pool.ranges r).recycle pool.rangeSize := by
  have hrecycle : (dhcpBmpoolUniRecycle pool pool.nextRange.toNat).ranges r = pool.ranges r ∨
      r = pool.nextRange.toNat ∧ (dhcpBmpoolUniRecycle pool pool.nextRange.toNat).ranges r =
        (pool.ranges r).recycle pool.rangeSize := by
    by_cases hin : pool.nextRange.toNat < pool.numRanges.toNat
    · rw [dhcpBmpoolUniRecycle_of_lt pool hin]
      by_cases hr : r = pool.nextRange.toNat
      · subst hr
        exact Or.inr ⟨rfl, Function.update_self _ _ _⟩
      · exact Or.inl (Function.update_of_ne hr _ _)
    · rw [dhcpBmpoolUniRecycle_of_le pool (not_lt.mp hin)]
      exact Or.inl rfl
  unfold BmPoolUni.advance
  by_cases hfull : dhcpBmRangeFull pool.counter pool.rangeSize = true
  · simp only [hfull, if_true]
    by_cases hover : pool.RecyclesNext curTime
    · simp only [hover, if_true]
      split_ifs
      all_goals
        obtain hsame | ⟨rfl, hcleared⟩ := hrecycle
        · exact Or.inl hsame
        · exact Or.inr ⟨hover.2.1, hover.2.2, hcleared⟩
    · simp only [hover, if_false]
      split_ifs <;> exact Or.inl rfl
  · rw [if_neg hfull]
    exact Or.inl rfl

/-- The parameters of the pool that never change. -/
structure BmPoolUni.SameShape (pool pool' : BmPoolUni) : Prop where
  poolStart : pool'.poolStart = pool.poolStart
  leaseTime : pool'.leaseTime = pool.leaseTime
  rangeSize : pool'.rangeSize = pool.rangeSize
  numRanges : pool'.numRanges = pool.numRanges

theorem BmPoolUni.SameShape.trans {pool' pool'' : BmPoolUni} (h : pool.SameShape pool')
    (h' : pool'.SameShape pool'') : pool.SameShape pool'' :=
  ⟨h'.poolStart.trans h.poolStart, h'.leaseTime.trans h.leaseTime,
    h'.rangeSize.trans h.rangeSize, h'.numRanges.trans h.numRanges⟩

theorem dhcpBmpoolUniRecycle_sameShape (pool : BmPoolUni) (rangeIdx : ℕ) :
    pool.SameShape (dhcpBmpoolUniRecycle pool rangeIdx) ∧
      (dhcpBmpoolUniRecycle pool rangeIdx).curRange = pool.curRange := by
  unfold dhcpBmpoolUniRecycle
  split_ifs <;> exact ⟨⟨rfl, rfl, rfl, rfl⟩, rfl⟩

/-- Advancing keeps the shape and stays within the ranges. -/
theorem BmPoolUni.advance_sameShape (pool : BmPoolUni) (curTime : UInt32) :
    pool.SameShape (pool.advance curTime).1 ∧
      ((pool.advance curTime).1.curRange = pool.curRange ∨
        (pool.advance curTime).1.curRange = pool.nextRange) := by
  have hrecycle := dhcpBmpoolUniRecycle_sameShape pool pool.nextRange.toNat
  unfold BmPoolUni.advance
  by_cases hover : pool.RecyclesNext curTime
  · simp only [hover, if_true]
    split_ifs
    · exact ⟨⟨hrecycle.1.poolStart, hrecycle.1.leaseTime, hrecycle.1.rangeSize,
        hrecycle.1.numRanges⟩, Or.inr rfl⟩
    · exact ⟨hrecycle.1, Or.inl hrecycle.2⟩
    · exact ⟨⟨rfl, rfl, rfl, rfl⟩, Or.inl rfl⟩
  · simp only [hover, if_false]
    split_ifs
    · exact ⟨⟨rfl, rfl, rfl, rfl⟩, Or.inr rfl⟩
    · exact ⟨⟨rfl, rfl, rfl, rfl⟩, Or.inl rfl⟩
    · exact ⟨⟨rfl, rfl, rfl, rfl⟩, Or.inl rfl⟩

/-- The scan starts at most the timer of the current range, and only if it is not
running. -/
theorem BmPoolUni.scan_spec (pool : BmPoolUni) (curTime : UInt32) :
    (pool.SameShape (pool.scan curTime).1 ∧ (pool.scan curTime).1.curRange = pool.curRange) ∧
      ∀ r, (pool.scan curTime).1.ranges r = pool.ranges r ∨
        (pool.ranges r).expireTime = 0 ∧
          (pool.scan curTime).1.ranges r =
            { pool.ranges r with expireTime := curTime + pool.leaseTime } := by
  unfold BmPoolUni.scan
  dsimp only
  split_ifs with hnone htimer
  · exact ⟨⟨⟨rfl, rfl, rfl, rfl⟩, rfl⟩, fun r => Or.inl rfl⟩
  · refine ⟨⟨⟨rfl, rfl, rfl, rfl⟩, rfl⟩, fun r => ?_⟩
    by_cases hr : r = pool.curRange.toNat
    · subst hr
      exact Or.inr ⟨htimer.1, by simp [BmPoolUni.current]⟩
    · exact Or.inl (by simp [Function.update_of_ne hr])
  · exact ⟨⟨⟨rfl, rfl, rfl, rfl⟩, rfl⟩, fun r => Or.inl rfl⟩

/-- **What a DISCOVER can do** to the pool. -/
theorem dhcpBmpoolUniPeek_spec (pool : BmPoolUni) (curTime : UInt32) :
    (pool.SameShape (dhcpBmpoolUniPeek pool curTime).1 ∧
      ((dhcpBmpoolUniPeek pool curTime).1.curRange = pool.curRange ∨
        (dhcpBmpoolUniPeek pool curTime).1.curRange = pool.nextRange)) ∧
      ∀ r, (pool.ranges r).Evolves pool.leaseTime pool.rangeSize curTime
        ((dhcpBmpoolUniPeek pool curTime).1.ranges r) := by
  obtain ⟨hshape, hcur⟩ := pool.advance_sameShape curTime
  have hranges := pool.advance_ranges curTime
  unfold dhcpBmpoolUniPeek
  split_ifs with hready
  · obtain ⟨⟨hshape', hcur'⟩, hranges'⟩ := (pool.advance curTime).1.scan_spec curTime
    refine ⟨⟨hshape.trans hshape', by rwa [hcur']⟩, fun r => ?_⟩
    rw [hshape.leaseTime] at hranges'
    obtain hsame | ⟨hpos, hover, hcleared⟩ := hranges r
    · obtain hsame' | ⟨hzero, hstarted⟩ := hranges' r
      · rw [hsame', hsame]
        exact BmRange.Evolves.refl _
      · rw [hstarted, hsame]
        exact Or.inl ⟨rfl, Or.inr ⟨hsame ▸ hzero, rfl⟩⟩
    · obtain hsame' | ⟨-, hstarted⟩ := hranges' r
      · exact Or.inr ⟨hpos, hover, by rw [hsame', hcleared]; rfl⟩
      · exact Or.inr ⟨hpos, hover, by rw [hstarted, hcleared]; rfl⟩
  · refine ⟨⟨hshape, hcur⟩, fun r => ?_⟩
    obtain hsame | ⟨hpos, hover, hcleared⟩ := hranges r
    · rw [hsame]
      exact BmRange.Evolves.refl _
    · exact Or.inr ⟨hpos, hover, by rw [hcleared]; rfl⟩

end Ranges

/-! ## Addresses and their ranges -/

/-- The range that contains an address. -/
def rangeIndex (poolStart rangeSize ip : UInt32) : ℕ :=
  (ip.toNat - poolStart.toNat) / rangeSize.toNat

/-- The slot of an address within its range. -/
def rangeSlot (poolStart rangeSize ip : UInt32) : ℕ :=
  (ip.toNat - poolStart.toNat) % rangeSize.toNat

/-- The pool has the given shape, does not wrap around, and its current range is
one of its ranges. -/
structure BmPoolUni.Placed (poolStart leaseTime rangeSize : UInt32) (numRanges : UInt8)
    (pool : BmPoolUni) : Prop where
  poolStart_eq : pool.poolStart = poolStart
  leaseTime_eq : pool.leaseTime = leaseTime
  rangeSize_eq : pool.rangeSize = rangeSize
  numRanges_eq : pool.numRanges = numRanges
  cur_lt : pool.curRange.toNat < numRanges.toNat
  fits : poolStart.toNat + numRanges.toNat * rangeSize.toNat < 2 ^ 32
  size_pos : 0 < rangeSize.toNat

section Layout

variable {pool : BmPoolUni} {poolStart leaseTime rangeSize : UInt32} {numRanges : UInt8}

theorem BmPoolUni.Placed.of_sameShape {pool' : BmPoolUni}
    (h : pool.Placed poolStart leaseTime rangeSize numRanges) (hshape : pool.SameShape pool')
    (hcur : pool'.curRange = pool.curRange ∨ pool'.curRange = pool.nextRange) :
    pool'.Placed poolStart leaseTime rangeSize numRanges := by
  refine ⟨hshape.poolStart.trans h.poolStart_eq, hshape.leaseTime.trans h.leaseTime_eq,
    hshape.rangeSize.trans h.rangeSize_eq, hshape.numRanges.trans h.numRanges_eq, ?_, h.fits,
    h.size_pos⟩
  obtain hsame | hnext := hcur
  · rw [hsame]
    exact h.cur_lt
  · have hnum : 0 < pool.numRanges.toNat := by
      rw [h.numRanges_eq]
      exact Nat.zero_lt_of_lt h.cur_lt
    rw [hnext, pool.toNat_nextRange hnum, ← h.numRanges_eq]
    exact Nat.mod_lt _ hnum

theorem dhcpBmpoolUniInit_placed (prior : BmPoolUni) (ranges : ℕ → BmRange)
    (hnum : 0 < numRanges) (hsize : 0 < rangeSize)
    (hfits : poolStart.toNat + numRanges.toNat * rangeSize.toNat < 2 ^ 32) :
    (dhcpBmpoolUniInit prior poolStart leaseTime ranges rangeSize numRanges).Placed
      poolStart leaseTime rangeSize numRanges := by
  rw [dhcpBmpoolUniInit_eq]
  exact ⟨rfl, rfl, rfl, rfl, UInt8.lt_iff_toNat_lt.mp hnum, hfits,
    UInt32.lt_iff_toNat_lt.mp hsize⟩

/-- The first address of the current range, without wrap-around. -/
theorem BmPoolUni.Placed.toNat_rangeBase
    (h : pool.Placed poolStart leaseTime rangeSize numRanges) :
    (rangeBase pool).toNat = poolStart.toNat + pool.curRange.toNat * rangeSize.toNat ∧
      (rangeBase pool + pool.rangeSize).toNat =
        poolStart.toNat + (pool.curRange.toNat + 1) * rangeSize.toNat := by
  have hfits := h.fits
  have hnext : (pool.curRange.toNat + 1) * rangeSize.toNat ≤
      numRanges.toNat * rangeSize.toNat := Nat.mul_le_mul_right _ h.cur_lt
  have hexpand : (pool.curRange.toNat + 1) * rangeSize.toNat =
      pool.curRange.toNat * rangeSize.toNat + rangeSize.toNat := Nat.succ_mul _ _
  have hbase : (rangeBase pool).toNat =
      poolStart.toNat + pool.curRange.toNat * rangeSize.toNat := by
    unfold rangeBase
    rw [h.poolStart_eq, h.rangeSize_eq, UInt32.toNat_add, UInt32.toNat_mul,
      UInt8.toNat_toUInt32, Nat.add_mod_mod, Nat.mod_eq_of_lt (by omega)]
  refine ⟨hbase, ?_⟩
  rw [UInt32.toNat_add, hbase, h.rangeSize_eq, Nat.mod_eq_of_lt (by omega)]
  omega

/-- An address passes the bounds check of the current range exactly if that is the
range it belongs to. -/
theorem BmPoolUni.Placed.inCurrent_iff
    (h : pool.Placed poolStart leaseTime rangeSize numRanges) (ip : UInt32) :
    ¬ (ip < rangeBase pool ∨ ip ≥ rangeBase pool + pool.rangeSize) ↔
      poolStart ≤ ip ∧ rangeIndex poolStart rangeSize ip = pool.curRange.toNat := by
  obtain ⟨hbase, hend⟩ := h.toNat_rangeBase
  unfold rangeIndex
  rw [not_or, UInt32.not_lt, ge_iff_le, UInt32.not_le, UInt32.le_iff_toNat_le,
    UInt32.lt_iff_toNat_lt, UInt32.le_iff_toNat_le, hbase, hend]
  constructor
  · rintro ⟨hlo, hhi⟩
    refine ⟨by omega, Nat.div_eq_of_lt_le ?_ ?_⟩ <;> omega
  · rintro ⟨hlo, hdiv⟩
    have hmod := Nat.div_add_mod (ip.toNat - poolStart.toNat) rangeSize.toNat
    have hlt := Nat.mod_lt (ip.toNat - poolStart.toNat) h.size_pos
    rw [hdiv, Nat.mul_comm] at hmod
    rw [Nat.succ_mul]
    omega

/-- The bit of an address in the current range is its slot. -/
theorem BmPoolUni.Placed.toNat_bit (h : pool.Placed poolStart leaseTime rangeSize numRanges)
    {ip : UInt32} (hle : poolStart ≤ ip)
    (hidx : rangeIndex poolStart rangeSize ip = pool.curRange.toNat) :
    (ip - rangeBase pool).toNat = rangeSlot poolStart rangeSize ip := by
  have hlo : rangeBase pool ≤ ip :=
    UInt32.not_lt.mp (not_or.mp ((h.inCurrent_iff ip).mpr ⟨hle, hidx⟩)).1
  have hmod := Nat.div_add_mod (ip.toNat - poolStart.toNat) rangeSize.toNat
  unfold rangeIndex at hidx
  unfold rangeSlot
  rw [hidx, Nat.mul_comm] at hmod
  rw [UInt32.toNat_sub_of_le _ _ hlo, h.toNat_rangeBase.1]
  rw [UInt32.le_iff_toNat_le, h.toNat_rangeBase.1] at hlo
  omega

/-- **A commit succeeds** exactly on a free slot of the current range. -/
theorem BmPoolUni.Placed.ipUsed_eq_false_iff
    (h : pool.Placed poolStart leaseTime rangeSize numRanges) (ip : UInt32) :
    dhcpBmpoolUniIpUsed pool ip = false ↔
      poolStart ≤ ip ∧ rangeIndex poolStart rangeSize ip = pool.curRange.toNat ∧
        slotUsed (pool.ranges (rangeIndex poolStart rangeSize ip)).ips
          (rangeSlot poolStart rangeSize ip) = false := by
  unfold dhcpBmpoolUniIpUsed
  dsimp only
  by_cases hcur : ip < rangeBase pool ∨ ip ≥ rangeBase pool + pool.rangeSize
  · rw [if_pos hcur]
    refine iff_of_false (by simp) ?_
    rintro ⟨hle, hidx, -⟩
    exact (h.inCurrent_iff ip).mpr ⟨hle, hidx⟩ hcur
  · obtain ⟨hle, hidx⟩ := (h.inCurrent_iff ip).mp hcur
    have hslot := h.toNat_bit hle hidx
    have hbit : ip - rangeBase pool < pool.rangeSize := by
      rw [UInt32.lt_iff_toNat_lt, hslot, h.rangeSize_eq]
      exact Nat.mod_lt _ h.size_pos
    rw [if_neg hcur, and_iff_right hle, and_iff_right hidx, hidx, dhcpBmUsed_eq_slotUsed hbit,
      hslot]
    rfl

/-- **What a REQUEST can do** to the pool: nothing, or mark one free slot of the
current range. -/
theorem BmPoolUni.Placed.commit_spec
    (h : pool.Placed poolStart leaseTime rangeSize numRanges) (ip : UInt32) :
    dhcpBmpoolUniIpUsed pool ip = true ∧ dhcpBmpoolUniCommitIp pool ip = (pool, false) ∨
      dhcpBmpoolUniIpUsed pool ip = false ∧ (dhcpBmpoolUniCommitIp pool ip).2 = true ∧
        (pool.SameShape (dhcpBmpoolUniCommitIp pool ip).1 ∧
          (dhcpBmpoolUniCommitIp pool ip).1.curRange = pool.curRange) ∧
        ∀ r, ((dhcpBmpoolUniCommitIp pool ip).1.ranges r).expireTime =
            (pool.ranges r).expireTime ∧
          ∀ k, slotUsed ((dhcpBmpoolUniCommitIp pool ip).1.ranges r).ips k = true ↔
            r = rangeIndex poolStart rangeSize ip ∧ k = rangeSlot poolStart rangeSize ip ∨
              slotUsed (pool.ranges r).ips k = true := by
  cases hused : dhcpBmpoolUniIpUsed pool ip with
  | true =>
      unfold dhcpBmpoolUniCommitIp
      rw [if_pos hused]
      exact Or.inl ⟨rfl, rfl⟩
  | false =>
      obtain ⟨hle, hidx, -⟩ := (h.ipUsed_eq_false_iff ip).mp hused
      have hslot := h.toNat_bit hle hidx
      unfold dhcpBmpoolUniCommitIp
      rw [if_neg (by simp [hused])]
      refine Or.inr ⟨rfl, rfl, ⟨⟨rfl, rfl, rfl, rfl⟩, rfl⟩, fun r => ?_⟩
      by_cases hr : r = pool.curRange.toNat
      · subst hr
        dsimp only
        rw [Function.update_self]
        refine ⟨rfl, fun k => ?_⟩
        rw [slotUsed_dhcpBmSet, hslot, hidx]
        simp [BmPoolUni.current]
      · dsimp only
        rw [Function.update_of_ne hr, hidx]
        simp [hr]

end Layout

/-! ## Runs -/

section Runs

variable {server : DhcpServer BmPoolUni} {a : Arrival} {poolStart leaseTime rangeSize : UInt32}
  {numRanges : UInt8}

/-- What a REQUEST does to the server is a commit, or nothing. -/
theorem bmuniCalls_request (server : DhcpServer BmPoolUni) (ip : UInt32) (a : Arrival) :
    InPool server.config.poolStart server.config.poolEnd ip ∧
        bmuniCalls.request server ip a =
          ({ server with pool := (dhcpBmpoolUniCommitIp server.pool ip).1 },
            (dhcpBmpoolUniCommitIp server.pool ip).2) ∨
      ¬ InPool server.config.poolStart server.config.poolEnd ip ∧
        bmuniCalls.request server ip a = (server, false) := by
  simp only [bmuniCalls]
  split_ifs with hpool
  · exact Or.inl ⟨hpool, rfl⟩
  · exact Or.inr ⟨hpool, rfl⟩

/-- **The steps of a server.**  A message peeks, commits an address that was free,
or leaves everything as it is. -/
theorem BmPoolUni.Placed.step_cases
    (h : server.pool.Placed poolStart leaseTime rangeSize numRanges) (a : Arrival) :
    (dhcpProcessMessageBmuni server a).1.config = server.config ∧
      (dhcpProcessMessageBmuni server a).1.pool.Placed poolStart leaseTime rangeSize numRanges ∧
      (a.msgType = dhcpDiscover ∧ (dhcpProcessMessageBmuni server a).1.pool =
          (dhcpBmpoolUniPeek server.pool a.curTime).1 ∨
        (∃ ip, IsAck ip (dhcpProcessMessageBmuni server a).2 ∧
          dhcpBmpoolUniIpUsed server.pool ip = false ∧
          (dhcpProcessMessageBmuni server a).1.pool =
            (dhcpBmpoolUniCommitIp server.pool ip).1) ∨
        (dhcpProcessMessageBmuni server a).1.pool = server.pool) := by
  unfold dhcpProcessMessageBmuni
  obtain hd | ⟨hr, ip, hip⟩ | hc | hi := a.cases
  · obtain ⟨⟨hshape, hcur⟩, -⟩ := dhcpBmpoolUniPeek_spec server.pool a.curTime
    rw [processMessage_discover hd]
    exact ⟨rfl, h.of_sameShape hshape hcur, Or.inl ⟨hd, rfl⟩⟩
  · obtain ⟨-, hcall⟩ | ⟨-, hcall⟩ := bmuniCalls_request server ip a
    · obtain ⟨-, hrefused⟩ | ⟨hfree, hgranted, ⟨hshape, hcur⟩, -⟩ := h.commit_spec ip
      · rw [processMessage_request hr hip, hcall, hrefused]
        exact ⟨rfl, h, Or.inr (Or.inr rfl)⟩
      · have hack : IsAck ip (processMessage bmuniCalls server a).2 :=
          isAck_processMessage_iff.mpr ⟨hr, hip, by rw [hcall]; exact hgranted⟩
        refine ⟨?_, ?_, Or.inr (Or.inl ⟨ip, hack, hfree, ?_⟩)⟩
        · rw [processMessage_request hr hip, hcall]
        · rw [processMessage_request hr hip, hcall]
          exact h.of_sameShape hshape (Or.inl hcur)
        · rw [processMessage_request hr hip, hcall]
    · rw [processMessage_request hr hip, hcall]
      exact ⟨rfl, h, Or.inr (Or.inr rfl)⟩
  · rw [processMessage_decline hc]
    exact ⟨rfl, h, Or.inr (Or.inr rfl)⟩
  · rw [processMessage_ignored hi]
    exact ⟨rfl, h, Or.inr (Or.inr rfl)⟩

theorem BmPoolUni.Placed.exec
    (h : server.pool.Placed poolStart leaseTime rangeSize numRanges) (run : List Arrival) :
    (exec dhcpProcessMessageBmuni server run).config = server.config ∧
      (exec dhcpProcessMessageBmuni server run).pool.Placed poolStart leaseTime rangeSize
        numRanges := by
  refine exec_inv (fun s : DhcpServer BmPoolUni => s.config = server.config ∧
    s.pool.Placed poolStart leaseTime rangeSize numRanges) (fun _ => True) ?_ run server ⟨rfl, h⟩
    fun _ _ => trivial
  rintro s a ⟨hconfig, hs⟩ -
  obtain ⟨hsame, hnext, -⟩ := hs.step_cases a
  exact ⟨hsame.trans hconfig, hnext⟩

/-- Until the deadline the address is marked, and its range's timer is not running
or ends no earlier. -/
def BmPoolUni.Held (poolStart rangeSize x : UInt32) (deadline now : ℕ) (pool : BmPoolUni) :
    Prop :=
  deadline ≤ now ∨
    slotUsed (pool.ranges (rangeIndex poolStart rangeSize x)).ips
        (rangeSlot poolStart rangeSize x) = true ∧
      ((pool.ranges (rangeIndex poolStart rangeSize x)).expireTime = 0 ∨
        deadline ≤ (pool.ranges (rangeIndex poolStart rangeSize x)).expireTime.toNat)

/-- **One message keeps a held address**: a recycle comes after the deadline, and a
timer started now ends no earlier. -/
theorem BmPoolUni.Held.step {x : UInt32} {deadline : ℕ}
    (h : server.pool.Held poolStart rangeSize x deadline a.curTime.toNat)
    (hplaced : server.pool.Placed poolStart leaseTime rangeSize numRanges)
    (hfits : a.curTime.toNat + leaseTime.toNat < 2 ^ 32)
    (hlater : deadline ≤ a.curTime.toNat + leaseTime.toNat) :
    (dhcpProcessMessageBmuni server a).1.pool.Held poolStart rangeSize x deadline
      a.curTime.toNat := by
  obtain hover | ⟨hused, htimer⟩ := h
  · exact Or.inl hover
  obtain ⟨-, -, ⟨-, hpeek⟩ | ⟨ip, -, hfree, hcommit⟩ | hsame⟩ := hplaced.step_cases a
  · rw [hpeek]
    obtain ⟨hips, hexpire | ⟨-, hstarted⟩⟩ | ⟨hpos, hexpired, -⟩ :=
      (dhcpBmpoolUniPeek_spec server.pool a.curTime).2 (rangeIndex poolStart rangeSize x)
    · refine Or.inr ⟨by rw [hips]; exact hused, ?_⟩
      rw [hexpire]
      exact htimer
    · refine Or.inr ⟨by rw [hips]; exact hused, Or.inr ?_⟩
      rw [hstarted, hplaced.leaseTime_eq, UInt32.toNat_add, Nat.mod_eq_of_lt hfits]
      exact hlater
    · obtain hzero | hends := htimer
      · rw [hzero] at hpos
        exact absurd hpos (UInt32.lt_irrefl 0)
      · exact Or.inl (hends.trans (UInt32.le_iff_toNat_le.mp hexpired))
  · rw [hcommit]
    obtain ⟨hused', -⟩ | ⟨-, -, -, hranges⟩ := hplaced.commit_spec ip
    · rw [hused'] at hfree
      simp at hfree
    · obtain ⟨hexpire, hslots⟩ := hranges (rangeIndex poolStart rangeSize x)
      refine Or.inr ⟨(hslots _).mpr (Or.inr hused), ?_⟩
      rw [hexpire]
      exact htimer
  · rw [hsame]
    exact Or.inr ⟨hused, htimer⟩

/-- An acknowledged address was free in the current range, and is marked. -/
theorem BmPoolUni.Placed.of_isAck
    (h : server.pool.Placed poolStart leaseTime rangeSize numRanges) {x : UInt32}
    (hack : IsAck x (dhcpProcessMessageBmuni server a).2) :
    dhcpBmpoolUniIpUsed server.pool x = false ∧
      (dhcpProcessMessageBmuni server a).1.pool = (dhcpBmpoolUniCommitIp server.pool x).1 := by
  obtain ⟨hr, hip, hgranted⟩ := isAck_processMessage_iff.mp hack
  unfold dhcpProcessMessageBmuni
  rw [processMessage_request hr hip]
  obtain ⟨-, hcall⟩ | ⟨-, hcall⟩ := bmuniCalls_request server x a
  · rw [hcall] at hgranted ⊢
    obtain ⟨-, hrefused⟩ | ⟨hfree, -⟩ := h.commit_spec x
    · rw [hrefused] at hgranted
      simp at hgranted
    · exact ⟨hfree, rfl⟩
  · rw [hcall] at hgranted
    simp at hgranted

end Runs

/-- **No double lease from a range whose timer is not running.**  If `x` is
acknowledged while the timer of the current range is not running, or would end no
earlier than the lease, it is not acknowledged again before the lease has ended. -/
theorem bmuni_no_double_lease (prior : BmPoolUni) (config : DhcpConfig) (ranges : ℕ → BmRange)
    (rangeSize : UInt32) (numRanges : UInt8) (hnum : 0 < numRanges) (hsize : 0 < rangeSize)
    (hpool : config.poolStart.toNat + numRanges.toNat * rangeSize.toNat < 2 ^ 32)
    (before between : List Arrival) (a b : Arrival) (x : UInt32)
    (hsorted : (before ++ a :: between ++ [b]).Pairwise fun c d => c.curTime ≤ d.curTime)
    (hfits : ∀ c ∈ before ++ a :: between ++ [b],
      c.curTime.toNat + config.leaseTime.toNat < 2 ^ 32)
    (hack : IsAck x (dhcpProcessMessageBmuni (exec dhcpProcessMessageBmuni
      (dhcpInitServerBmuni prior config ranges rangeSize numRanges) before) a).2)
    (htimer : let range := (exec dhcpProcessMessageBmuni
        (dhcpInitServerBmuni prior config ranges rangeSize numRanges) before).pool.current
      range.expireTime = 0 ∨
        a.curTime.toNat + config.leaseTime.toNat ≤ range.expireTime.toNat)
    (hack' : IsAck x (dhcpProcessMessageBmuni (exec dhcpProcessMessageBmuni
      (dhcpInitServerBmuni prior config ranges rangeSize numRanges)
      (before ++ a :: between)) b).2) :
    a.curTime.toNat + config.leaseTime.toNat ≤ b.curTime.toNat := by
  obtain ⟨hab, hbetween, hmiddle⟩ := timestamps_between hsorted
  have hinit : (dhcpInitServerBmuni prior config ranges rangeSize numRanges).pool.Placed
      config.poolStart config.leaseTime rangeSize numRanges :=
    dhcpBmpoolUniInit_placed prior ranges hnum hsize hpool
  obtain ⟨-, hplaced⟩ := hinit.exec before
  rw [exec_append, exec_cons] at hack'
  generalize exec dhcpProcessMessageBmuni
    (dhcpInitServerBmuni prior config ranges rangeSize numRanges) before =
      server at hplaced hack htimer hack'
  -- the first ACK: the address is marked, and its timer is not early
  have hheld : (dhcpProcessMessageBmuni server a).1.pool.Held config.poolStart rangeSize x
      (a.curTime.toNat + config.leaseTime.toNat) a.curTime.toNat := by
    obtain ⟨hfree, hcommit⟩ := hplaced.of_isAck hack
    obtain ⟨-, hidx, -⟩ := (hplaced.ipUsed_eq_false_iff x).mp hfree
    obtain ⟨hused, -⟩ | ⟨-, -, -, hranges⟩ := hplaced.commit_spec x
    · rw [hused] at hfree
      simp at hfree
    · rw [hcommit]
      obtain ⟨hexpire, hslots⟩ := hranges (rangeIndex config.poolStart rangeSize x)
      refine Or.inr ⟨(hslots _).mpr (Or.inl ⟨rfl, rfl⟩), ?_⟩
      rw [hexpire, hidx]
      exact htimer
  have hplaced₂ := (hplaced.step_cases a).2.1
  -- it stays so until the second ACK arrives
  obtain ⟨hplaced₃, hlater⟩ := exec_timed (fun c : Arrival => c.curTime.toNat)
    (fun now (s : DhcpServer BmPoolUni) =>
      s.pool.Placed config.poolStart config.leaseTime rangeSize numRanges ∧
        s.pool.Held config.poolStart rangeSize x
          (a.curTime.toNat + config.leaseTime.toNat) now)
    (fun c => c.curTime.toNat + config.leaseTime.toNat < 2 ^ 32 ∧
      a.curTime.toNat ≤ c.curTime.toNat)
    (fun hle hs => ⟨hs.1, hs.2.imp_left fun hover => hover.trans hle⟩)
    (fun s c hs hc => ⟨(hs.1.step_cases c).2.1,
      hs.2.step hs.1 hc.1 (Nat.add_le_add_right hc.2 _)⟩)
    between _ a.curTime.toNat b.curTime.toNat ⟨hplaced₂, hheld⟩ hab
    (fun c hc => ⟨hfits c (by simp [hc]), (hbetween c hc).1⟩) hbetween hmiddle
  -- the second ACK found the slot free
  obtain ⟨hfree, -⟩ := hplaced₃.of_isAck hack'
  obtain ⟨-, -, hunused⟩ := (hplaced₃.ipUsed_eq_false_iff x).mp hfree
  obtain hover | ⟨hused, -⟩ := hlater
  · exact hover
  · rw [hunused] at hused
    simp at hused

/-- Range 0 is offered and exhausted at time 2, so it may be recycled at time 12: the
address acknowledged at time 1 is acknowledged again at time 12. -/
theorem bmuni_no_double_lease_two_rounds :
    let server := dhcpInitServerBmuni ⟨0, 0, 0, fun _ => ⟨fun _ => 0, 0⟩, 0, 0, 0⟩
      (poolConfig 100 103 10) (fun _ => ⟨fun _ => 0, 0⟩) 2 2
    let before := [discoverFrom 1 0]
    let a := requestFrom 1 100 1
    let between := [discoverFrom 2 2, discoverFrom 3 3, discoverFrom 4 4, discoverFrom 5 12]
    let b := requestFrom 5 100 12
    IsAck 100 (dhcpProcessMessageBmuni (exec dhcpProcessMessageBmuni server before) a).2 ∧
      IsAck 100 (dhcpProcessMessageBmuni
        (exec dhcpProcessMessageBmuni server (before ++ a :: between)) b).2 ∧
      a.curTime.toNat + (10 : UInt32).toNat ≤ b.curTime.toNat := by
  intro server before a between b
  have hack : IsAck 100
      (dhcpProcessMessageBmuni (exec dhcpProcessMessageBmuni server before) a).2 :=
    isAck_processMessage_iff.mpr ⟨by decide, by decide, by decide +kernel⟩
  have hack' : IsAck 100 (dhcpProcessMessageBmuni
      (exec dhcpProcessMessageBmuni server (before ++ a :: between)) b).2 :=
    isAck_processMessage_iff.mpr ⟨by decide, by decide, by decide +kernel⟩
  exact ⟨hack, hack', bmuni_no_double_lease _ (poolConfig 100 103 10) _ 2 2 (by decide)
    (by decide) (by decide) before between a b 100 (by decide) (by decide) hack
    (Or.inl (by decide +kernel)) hack'⟩

/-- The DISCOVER at time 0 exhausts range 0 and starts its timer; the address is
acknowledged at time 9 for 10 seconds, recycled at time 10 and acknowledged again. -/
theorem bmuni_early_recycle :
    let server := dhcpInitServerBmuni ⟨0, 0, 0, fun _ => ⟨fun _ => 0, 0⟩, 0, 0, 0⟩
      (poolConfig 100 101 10) (fun _ => ⟨fun _ => 0, 0⟩) 1 2
    let before := [discoverFrom 1 0]
    let a := requestFrom 1 100 9
    let between := [discoverFrom 2 10, discoverFrom 3 10]
    let b := requestFrom 3 100 10
    (before ++ a :: between ++ [b]).Pairwise (fun c d : Arrival => c.curTime ≤ d.curTime) ∧
      IsAck 100 (dhcpProcessMessageBmuni (exec dhcpProcessMessageBmuni server before) a).2 ∧
      IsAck 100 (dhcpProcessMessageBmuni
        (exec dhcpProcessMessageBmuni server (before ++ a :: between)) b).2 ∧
      ¬ a.curTime.toNat + (10 : UInt32).toNat ≤ b.curTime.toNat := by
  intro server before a between b
  refine ⟨by decide, ?_, ?_, by decide⟩
  · exact isAck_processMessage_iff.mpr ⟨by decide, by decide, by decide +kernel⟩
  · exact isAck_processMessage_iff.mpr ⟨by decide, by decide, by decide +kernel⟩

/-! ## Outstanding offers -/

section Offers

variable {pool : BmPoolUni} {server : DhcpServer BmPoolUni} {a : Arrival}
  {poolStart leaseTime rangeSize x : UInt32} {numRanges : UInt8}

/-- The scan returns a free address of the current range. -/
theorem BmPoolUni.scan_free (pool : BmPoolUni) (curTime : UInt32)
    (h : (pool.scan curTime).2 ≠ 0) :
    dhcpBmpoolUniIpUsed (pool.scan curTime).1 (pool.scan curTime).2 = false := by
  unfold BmPoolUni.scan at h ⊢
  dsimp only at h ⊢
  split_ifs at h ⊢ with hnone htimer
  · exact absurd rfl h
  · -- starting the timer does not touch the bits
    obtain ⟨-, hfree⟩ := not_or.mp hnone
    rw [Bool.not_eq_true] at hfree
    unfold dhcpBmpoolUniIpUsed at hfree ⊢
    simpa [rangeBase, BmPoolUni.current] using hfree
  · exact Bool.not_eq_true _ ▸ (not_or.mp hnone).2

/-- **An offered address is free** in the current range. -/
theorem dhcpBmpoolUniPeek_free (pool : BmPoolUni) (curTime : UInt32)
    (h : (dhcpBmpoolUniPeek pool curTime).2 ≠ 0) :
    dhcpBmpoolUniIpUsed (dhcpBmpoolUniPeek pool curTime).1
      (dhcpBmpoolUniPeek pool curTime).2 = false := by
  unfold dhcpBmpoolUniPeek at h ⊢
  split_ifs at h ⊢ with hready
  · exact (pool.advance curTime).1.scan_free curTime h
  · exact absurd rfl h

/-- The slot of the address is not marked. -/
def BmPoolUni.Pending (poolStart rangeSize x : UInt32) (pool : BmPoolUni) : Prop :=
  slotUsed (pool.ranges (rangeIndex poolStart rangeSize x)).ips
    (rangeSlot poolStart rangeSize x) = false

/-- An address is determined by its range and its slot. -/
theorem eq_of_rangeIndex_of_rangeSlot {ip : UInt32} (hx : poolStart ≤ x) (hip : poolStart ≤ ip)
    (hidx : rangeIndex poolStart rangeSize x = rangeIndex poolStart rangeSize ip)
    (hslot : rangeSlot poolStart rangeSize x = rangeSlot poolStart rangeSize ip) : x = ip := by
  unfold rangeIndex at hidx
  unfold rangeSlot at hslot
  have hoffset : x.toNat - poolStart.toNat = ip.toNat - poolStart.toNat := by
    rw [← Nat.div_add_mod (x.toNat - poolStart.toNat) rangeSize.toNat, hidx, hslot,
      Nat.div_add_mod]
  rw [UInt32.le_iff_toNat_le] at hx hip
  exact UInt32.toNat_inj.mp (by omega)

/-- **One message keeps a pending address free**, unless it is acknowledged: other
commits mark other slots, and a recycle marks none. -/
theorem BmPoolUni.Pending.step (h : server.pool.Pending poolStart rangeSize x)
    (hx : poolStart ≤ x) (hplaced : server.pool.Placed poolStart leaseTime rangeSize numRanges)
    (hother : ¬ IsAck x (dhcpProcessMessageBmuni server a).2) :
    (dhcpProcessMessageBmuni server a).1.pool.Pending poolStart rangeSize x := by
  unfold BmPoolUni.Pending at h ⊢
  obtain ⟨-, -, ⟨-, hpeek⟩ | ⟨ip, hack, hfree, hcommit⟩ | hsame⟩ := hplaced.step_cases a
  · rw [hpeek]
    obtain ⟨hips, -⟩ | ⟨-, -, hrecycled⟩ :=
      (dhcpBmpoolUniPeek_spec server.pool a.curTime).2 (rangeIndex poolStart rangeSize x)
    · rw [hips]
      exact h
    · rw [hrecycled, ← Bool.not_eq_true]
      intro hused
      rw [slotUsed_recycleWords hused] at h
      simp at h
  · rw [hcommit, ← Bool.not_eq_true]
    obtain ⟨hle, -, -⟩ := (hplaced.ipUsed_eq_false_iff ip).mp hfree
    obtain ⟨hused', -⟩ | ⟨-, -, -, hranges⟩ := hplaced.commit_spec ip
    · rw [hused'] at hfree
      simp at hfree
    · intro hused
      obtain ⟨hidx, hslot⟩ | hused' := ((hranges _).2 _).mp hused
      · rw [eq_of_rangeIndex_of_rangeSlot hx hle hidx hslot] at hother
        exact hother hack
      · rw [h] at hused'
        simp at hused'
  · rw [hsame]
    exact h

/-- An offered address lies in the pool and is pending. -/
theorem BmPoolUni.Placed.of_isOffer
    (h : server.pool.Placed poolStart leaseTime rangeSize numRanges)
    (hoffer : IsOffer x (dhcpProcessMessageBmuni server a).2) :
    poolStart ≤ x ∧ rangeIndex poolStart rangeSize x < numRanges.toNat ∧
      (dhcpProcessMessageBmuni server a).1.pool.Pending poolStart rangeSize x := by
  obtain ⟨hd, hfound, hne⟩ := isOffer_processMessage_iff.mp hoffer
  have hplaced := (h.step_cases a).2.1
  have hpeek : (dhcpProcessMessageBmuni server a).1.pool =
      (dhcpBmpoolUniPeek server.pool a.curTime).1 := by
    unfold dhcpProcessMessageBmuni
    rw [processMessage_discover hd]
    rfl
  have hfree : dhcpBmpoolUniIpUsed (dhcpProcessMessageBmuni server a).1.pool x = false := by
    rw [hpeek, ← hfound]
    exact dhcpBmpoolUniPeek_free server.pool a.curTime (hfound ▸ hne)
  obtain ⟨hle, hidx, hunused⟩ := (hplaced.ipUsed_eq_false_iff x).mp hfree
  exact ⟨hle, hidx ▸ hplaced.cur_lt, hunused⟩

/-- A REQUEST for an address of the pool is granted exactly if it counts as unused. -/
theorem BmPoolUni.Placed.request_of_inPool
    (h : server.pool.Placed poolStart leaseTime rangeSize numRanges)
    (hin : InPool server.config.poolStart server.config.poolEnd x) (b : Arrival) :
    (bmuniCalls.request server x b).2 = !dhcpBmpoolUniIpUsed server.pool x := by
  obtain ⟨-, hcall⟩ | ⟨hout, -⟩ := bmuniCalls_request server x b
  · obtain ⟨hused, hrefused⟩ | ⟨hfree, hgranted, -⟩ := h.commit_spec x
    · rw [hcall, hrefused, hused]
      rfl
    · rw [hcall, hgranted, hfree]
      rfl
  · exact absurd hin hout

/-- An address of one of the ranges lies below the end of the last one. -/
theorem lt_of_rangeIndex_lt (hsize : 0 < rangeSize.toNat)
    (hidx : rangeIndex poolStart rangeSize x < numRanges.toNat) :
    x.toNat < poolStart.toNat + numRanges.toNat * rangeSize.toNat := by
  have hlt := (Nat.div_lt_iff_lt_mul hsize).mp hidx
  omega

end Offers

/-- **An outstanding offer is honoured exactly while its range is current.**  If `x`
was offered and has not been acknowledged since, a REQUEST for `x` is acknowledged if
and only if the current range is the one that contains `x`, and refused otherwise;
it makes no difference whether that range was recycled in between. -/
theorem bmuni_offer_honoured_iff (prior : BmPoolUni) (config : DhcpConfig)
    (ranges : ℕ → BmRange) (rangeSize : UInt32) (numRanges : UInt8) (hnum : 0 < numRanges)
    (hsize : 0 < rangeSize)
    (hpool : config.poolStart.toNat + numRanges.toNat * rangeSize.toNat < 2 ^ 32)
    (hend : config.poolEnd.toNat + 1 =
      config.poolStart.toNat + numRanges.toNat * rangeSize.toNat)
    (before between : List Arrival) (a b : Arrival) (x : UInt32)
    (hoffer : IsOffer x (dhcpProcessMessageBmuni (exec dhcpProcessMessageBmuni
      (dhcpInitServerBmuni prior config ranges rangeSize numRanges) before) a).2)
    (hpending : Along dhcpProcessMessageBmuni
      (fun s c => ¬ IsAck x (dhcpProcessMessageBmuni s c).2)
      (dhcpProcessMessageBmuni (exec dhcpProcessMessageBmuni
        (dhcpInitServerBmuni prior config ranges rangeSize numRanges) before) a).1 between)
    (hrequest : b.msgType = dhcpRequest) (hip : b.requestedIp = some x) :
    let server := exec dhcpProcessMessageBmuni
      (dhcpInitServerBmuni prior config ranges rangeSize numRanges) (before ++ a :: between)
    (IsAck x (dhcpProcessMessageBmuni server b).2 ↔
        rangeIndex config.poolStart rangeSize x = server.pool.curRange.toNat) ∧
      (IsNak (dhcpProcessMessageBmuni server b).2 ↔
        rangeIndex config.poolStart rangeSize x ≠ server.pool.curRange.toNat) := by
  have hinit : (dhcpInitServerBmuni prior config ranges rangeSize numRanges).pool.Placed
      config.poolStart config.leaseTime rangeSize numRanges :=
    dhcpBmpoolUniInit_placed prior ranges hnum hsize hpool
  obtain ⟨hconfig, hplaced⟩ := hinit.exec before
  rw [exec_append, exec_cons]
  generalize exec dhcpProcessMessageBmuni
    (dhcpInitServerBmuni prior config ranges rangeSize numRanges) before =
      server at hconfig hplaced hoffer hpending ⊢
  obtain ⟨hle, hidx, hfree⟩ := hplaced.of_isOffer hoffer
  obtain ⟨hconfig₂, hplaced₂, -⟩ := hplaced.step_cases a
  -- the slot is still free when the REQUEST arrives
  obtain ⟨hconfig₃, hplaced₃, hfree₃⟩ := exec_along
    (fun s : DhcpServer BmPoolUni => s.config = config ∧
      s.pool.Placed config.poolStart config.leaseTime rangeSize numRanges ∧
        s.pool.Pending config.poolStart rangeSize x)
    (fun s c hs hother => ⟨(hs.2.1.step_cases c).1.trans hs.1, (hs.2.1.step_cases c).2.1,
      hs.2.2.step hle hs.2.1 hother⟩)
    between _ ⟨hconfig₂.trans hconfig, hplaced₂, hfree⟩ hpending
  intro server'
  have hin : InPool server'.config.poolStart server'.config.poolEnd x := by
    have hlt := lt_of_rangeIndex_lt hplaced.size_pos hidx
    rw [hconfig₃]
    exact ⟨hle, UInt32.le_iff_toNat_le.mpr (by omega)⟩
  have hused : dhcpBmpoolUniIpUsed server'.pool x = false ↔
      rangeIndex config.poolStart rangeSize x = server'.pool.curRange.toNat := by
    rw [hplaced₃.ipUsed_eq_false_iff x, and_iff_right hle]
    exact and_iff_left hfree₃
  have hcall : (bmuniCalls.request server' x b).2 = !dhcpBmpoolUniIpUsed server'.pool x :=
    hplaced₃.request_of_inPool hin b
  unfold dhcpProcessMessageBmuni
  constructor
  · rw [isAck_processMessage_iff, and_iff_right hrequest, and_iff_right hip, hcall, ← hused]
    simp
  · rw [isNak_processMessage_request_iff hrequest hip, hcall, Ne, ← hused]
    simp

/-- The first client's offer is honoured after a second client has been offered and
granted the other address of the range. -/
theorem bmuni_offer_honoured_same_range :
    let server := dhcpInitServerBmuni ⟨0, 0, 0, fun _ => ⟨fun _ => 0, 0⟩, 0, 0, 0⟩
      (poolConfig 100 103 10) (fun _ => ⟨fun _ => 0, 0⟩) 2 2
    IsAck 100 (dhcpProcessMessageBmuni (exec dhcpProcessMessageBmuni server
      ([] ++ discoverFrom 1 0 :: [discoverFrom 2 1, requestFrom 2 101 2]))
      (requestFrom 1 100 3)).2 := by
  intro server
  have hoffer : IsOffer 100 (dhcpProcessMessageBmuni
      (exec dhcpProcessMessageBmuni server []) (discoverFrom 1 0)).2 :=
    isOffer_processMessage_iff.mpr ⟨by decide, by decide +kernel, by decide⟩
  have hpending : Along dhcpProcessMessageBmuni
      (fun s c => ¬ IsAck 100 (dhcpProcessMessageBmuni s c).2)
      (dhcpProcessMessageBmuni (exec dhcpProcessMessageBmuni server []) (discoverFrom 1 0)).1
      [discoverFrom 2 1, requestFrom 2 101 2] := by
    refine ⟨fun hack => ?_, fun hack => ?_, trivial⟩
    · exact absurd (isAck_processMessage_iff.mp hack).1 (by decide)
    · exact absurd (isAck_processMessage_iff.mp hack).2.1 (by decide)
  exact (bmuni_offer_honoured_iff _ (poolConfig 100 103 10) _ 2 2 (by decide) (by decide)
    (by decide) (by decide) [] [discoverFrom 2 1, requestFrom 2 101 2] (discoverFrom 1 0)
    (requestFrom 1 100 3) 100 hoffer hpending (by decide) (by decide)).1.mpr (by decide +kernel)

/-- Address 100 is offered, nobody commits it and its range is not recycled, but the
next DISCOVER moves on to the other range: the REQUEST is refused. -/
theorem bmuni_offer_refused :
    let server := dhcpInitServerBmuni ⟨0, 0, 0, fun _ => ⟨fun _ => 0, 0⟩, 0, 0, 0⟩
      (poolConfig 100 101 10) (fun _ => ⟨fun _ => 0, 0⟩) 1 2
    let between := [discoverFrom 2 1]
    IsOffer 100 (dhcpProcessMessageBmuni server (discoverFrom 1 0)).2 ∧
      Along dhcpProcessMessageBmuni
        (fun s c => ¬ IsAck 100 (dhcpProcessMessageBmuni s c).2 ∧
          ¬ s.pool.RecyclesNext c.curTime)
        (dhcpProcessMessageBmuni server (discoverFrom 1 0)).1 between ∧
      IsNak (dhcpProcessMessageBmuni (exec dhcpProcessMessageBmuni server
        (discoverFrom 1 0 :: between)) (requestFrom 1 100 2)).2 ∧
      ¬ IsAck 100 (dhcpProcessMessageBmuni (exec dhcpProcessMessageBmuni server
        (discoverFrom 1 0 :: between)) (requestFrom 1 100 2)).2 := by
  intro server between
  refine ⟨isOffer_processMessage_iff.mpr ⟨by decide, by decide +kernel, by decide⟩,
    ⟨⟨fun hack => ?_, by decide +kernel⟩, trivial⟩, ?_, fun hack => ?_⟩
  · exact absurd (isAck_processMessage_iff.mp hack).1 (by decide)
  · exact isNak_processMessage_iff.mpr ⟨100, by decide, by decide, by decide +kernel⟩
  · exact absurd (isAck_processMessage_iff.mp hack).2.2 (by decide +kernel)

end BaremetalDhcp
