import BaremetalDhcp.LeaseEquivalence
import BaremetalDhcp.BitmapVartime
import BaremetalDhcp.BitmapUnitime
import BaremetalDhcp.Nprc

/-!
# What `dhcp_init_server_*` leaves behind

A server may be set up in memory that held another one: on a stack, or by a second call of
its init function.  Here each init function is run over two arbitrary prior servers and two
arbitrary contents of the storage it is given, and the two servers are compared message by
message.

Three backends set every field that is read later, or mark it unused.  BITMAP_VARTIME clears
`(range_size + 31) / 32` words, and that is all of them unless rounding up overflows.
BITMAP_UNITIME never assigns the offer counter: `dhcp_bmpool_var_recycle` clears it, its
sibling `dhcp_bmpool_uni_recycle` does not.

`SameBits` and the two `Alike` relations say what the messages can tell apart.
-/

namespace BaremetalDhcp

open Machine

/-! ## Servers that answer alike -/

section Alike

variable {P P' : Type} {calls : PoolCalls P} {calls' : PoolCalls P'}

/-- Pool calls that answer alike and keep servers related give messages that do. -/
theorem processMessage_alike (Rel : DhcpServer P → DhcpServer P' → Prop)
    (hconfig : ∀ {s s'}, Rel s s' → s.config = s'.config)
    {s : DhcpServer P} {s' : DhcpServer P'} (hrel : Rel s s') {a : Arrival}
    (hdiscover : (calls.discover s a).2 = (calls'.discover s' a).2 ∧
      Rel (calls.discover s a).1 (calls'.discover s' a).1)
    (hrequest : ∀ ip, (calls.request s ip a).2 = (calls'.request s' ip a).2 ∧
      Rel (calls.request s ip a).1 (calls'.request s' ip a).1)
    (hdecline : Rel (calls.decline s a) (calls'.decline s' a)) :
    (processMessage calls s a).2 = (processMessage calls' s' a).2 ∧
      Rel (processMessage calls s a).1 (processMessage calls' s' a).1 := by
  obtain hd | ⟨hr, ip, hip⟩ | hc | hi := a.cases
  · refine ⟨discover_response_congr hd (hconfig hdiscover.2) hdiscover.1, ?_⟩
    rw [processMessage_discover hd, processMessage_discover hd]
    exact hdiscover.2
  · refine ⟨request_response_congr hr hip (hconfig (hrequest ip).2) (hrequest ip).1, ?_⟩
    rw [processMessage_request hr hip, processMessage_request hr hip]
    exact (hrequest ip).2
  · rw [processMessage_decline hc, processMessage_decline hc]
    exact ⟨rfl, hdecline⟩
  · rw [processMessage_ignored hi, processMessage_ignored hi]
    exact ⟨rfl, hrel⟩

/-- The answer to a DISCOVER tells which address the pool found, if any. -/
theorem eq_of_discover_outputs_eq (calls : PoolCalls P) (calls' : PoolCalls P')
    {s : DhcpServer P} {s' : DhcpServer P'} {a : Arrival}
    (hd : a.msgType = dhcpDiscover)
    (houtputs : outputs (processMessage calls) s [a] =
      outputs (processMessage calls') s' [a]) :
    (calls.discover s a).2 = (calls'.discover s' a).2 := by
  have h : (processMessage calls s a).2 = (processMessage calls' s' a).2 :=
    (List.cons.inj houtputs).1
  by_cases hzero : (calls.discover s a).2 = 0
  · by_contra hne
    have hoffer : IsOffer (calls'.discover s' a).2 (processMessage calls' s' a).2 :=
      isOffer_processMessage_iff.mpr ⟨hd, rfl, fun h' => hne (hzero.trans h'.symm)⟩
    rw [← h] at hoffer
    exact hne (isOffer_processMessage_iff.mp hoffer).2.1
  · have hoffer : IsOffer (calls.discover s a).2 (processMessage calls s a).2 :=
      isOffer_processMessage_iff.mpr ⟨hd, rfl, hzero⟩
    rw [h] at hoffer
    exact (isOffer_processMessage_iff.mp hoffer).2.1.symm

end Alike

/-! ## The init functions, over prior contents -/

/-- `dhcp_init_server_array`, on a server with arbitrary contents. -/
def reinitArray {maxLeases : UInt16} (prior : DhcpServer (ArrayPool maxLeases))
    (config : DhcpConfig) (leases : Fin maxLeases.toNat → DhcpLease) :
    DhcpServer (ArrayPool maxLeases) :=
  { prior with
    config := config
    pool := { prior.pool with
      leases := fun i => { leases i with inUse := false }
      leaseCount := 0
      nextIp := config.poolStart } }

/-- `dhcp_init_server_hashmap`, on a server with arbitrary contents. -/
def reinitHashmap (prior : DhcpServer HashPool) (config : DhcpConfig) (maxLeases : UInt16) :
    DhcpServer HashPool :=
  { prior with
    config := config
    pool := dhcpHashpoolInit prior.pool config.poolStart maxLeases }

/-- `dhcp_init_server_nprc`, on a server with arbitrary contents. -/
def reinitNprc {W : ℕ} (prior : DhcpServer (NprcPool W)) (config : DhcpConfig) :
    DhcpServer (NprcPool W) :=
  { prior with
    config := config
    pool := { prior.pool with offerNext := 0, cacheBase := 0, ackBitmap := 0 } }

/-- `dhcp_init_server_bmvar`, on a server with arbitrary contents. -/
def reinitBmvar (prior : DhcpServer BmPoolVar) (config : DhcpConfig) (range : BmRange)
    (rangeSize : UInt32) : DhcpServer BmPoolVar :=
  { prior with
    config := config
    pool := dhcpBmpoolVarRecycle { prior.pool with
      poolStart := config.poolStart
      leaseTime := config.leaseTime
      range := range
      rangeSize := rangeSize } }

/-- `dhcp_init_server_bmuni`, on a server with arbitrary contents. -/
def reinitBmuni (prior : DhcpServer BmPoolUni) (config : DhcpConfig) (ranges : ℕ → BmRange)
    (rangeSize : UInt32) (numRanges : UInt8) : DhcpServer BmPoolUni :=
  { prior with
    config := config
    pool := dhcpBmpoolUniInit prior.pool config.poolStart config.leaseTime ranges rangeSize
      numRanges }

/-! ## ARRAY -/

/-- The slots that init marks free are never read again before they are written. -/
theorem reinitArray_alike {maxLeases : UInt16} (prior prior' : DhcpServer (ArrayPool maxLeases))
    (config : DhcpConfig) (leases leases' : Fin maxLeases.toNat → DhcpLease)
    (run : List Arrival) :
    outputs dhcpProcessMessageArray (reinitArray prior config leases) run =
      outputs dhcpProcessMessageArray (reinitArray prior' config leases') run := by
  have hstep : ∀ (s s' : DhcpServer (ArrayPool maxLeases)) (a : Arrival),
      SamePool ArrayPool.Represents ArrayPool.Represents s s' → True →
      (dhcpProcessMessageArray s a).2 = (dhcpProcessMessageArray s' a).2 ∧
        SamePool ArrayPool.Represents ArrayPool.Represents (dhcpProcessMessageArray s a).1
          (dhcpProcessMessageArray s' a).1 := by
    rintro s s' a ⟨hconfig, q, hq, hq'⟩ -
    exact (arrayOps_refines maxLeases).step_eq (arrayOps_refines maxLeases) hconfig hq hq'
      fun _ _ => ⟨le_top, le_top⟩
  have hinit : SamePool ArrayPool.Represents ArrayPool.Represents
      (reinitArray prior config leases) (reinitArray prior' config leases') :=
    ⟨rfl, _, dhcpArraypoolInit_represents _ _, dhcpArraypoolInit_represents _ _⟩
  exact (simulation hstep run _ _ hinit (along_of_forall (fun _ _ => trivial) run _)).1

/-! ## BITMAP_VARTIME -/

/-- Two pools that differ at most in words outside the range. -/
def BmPoolVar.Alike (pool pool' : BmPoolVar) : Prop :=
  ∃ ips', SameBits pool.rangeSize pool.range.ips ips' ∧
    pool' = { pool with range := { pool.range with ips := ips' } }

section Vartime

variable {pool pool' : BmPoolVar}

theorem BmPoolVar.Alike.refresh (h : pool.Alike pool') (curTime : UInt32) :
    (pool.refresh curTime).Alike (pool'.refresh curTime) := by
  obtain ⟨ips', hbits, rfl⟩ := h
  unfold BmPoolVar.refresh
  dsimp only
  split_ifs
  · exact ⟨recycleWords ips' pool.rangeSize, hbits.recycle, rfl⟩
  · exact ⟨ips', hbits, rfl⟩

theorem BmPoolVar.Alike.offer (h : pool.Alike pool') (curTime : UInt32) :
    (pool.offer curTime).2 = (pool'.offer curTime).2 ∧
      (pool.offer curTime).1.Alike (pool'.offer curTime).1 := by
  obtain ⟨ips', hbits, rfl⟩ := h
  unfold BmPoolVar.offer
  dsimp only
  by_cases hzero : pool.range.expireTime = 0
  · simp only [if_pos hzero, ← hbits.peekScan, ← hbits.used]
    split_ifs <;> exact ⟨rfl, ips', hbits, rfl⟩
  · simp only [if_neg hzero, ← hbits.peekScan, ← hbits.used]
    split_ifs <;> exact ⟨rfl, ips', hbits, rfl⟩

theorem BmPoolVar.Alike.commit (h : pool.Alike pool') (ip : UInt32) :
    (dhcpBmpoolVarCommitIp pool ip).2 = (dhcpBmpoolVarCommitIp pool' ip).2 ∧
      (dhcpBmpoolVarCommitIp pool ip).1.Alike (dhcpBmpoolVarCommitIp pool' ip).1 := by
  obtain ⟨ips', hbits, rfl⟩ := h
  unfold dhcpBmpoolVarCommitIp
  simp only [← hbits.used]
  split_ifs
  · exact ⟨rfl, ips', hbits, rfl⟩
  · exact ⟨rfl, ips', hbits, rfl⟩
  · exact ⟨rfl, dhcpBmSet ips' (ip - pool.poolStart), hbits.set _, rfl⟩

/-- The configurations agree and the pools look alike. -/
def SameVar (s s' : DhcpServer BmPoolVar) : Prop :=
  s.config = s'.config ∧ s.pool.Alike s'.pool

/-- Such servers answer alike and stay so. -/
theorem SameVar.step {s s' : DhcpServer BmPoolVar} (h : SameVar s s') (a : Arrival) :
    (dhcpProcessMessageBmvar s a).2 = (dhcpProcessMessageBmvar s' a).2 ∧
      SameVar (dhcpProcessMessageBmvar s a).1 (dhcpProcessMessageBmvar s' a).1 := by
  obtain ⟨hconfig, hpool⟩ := h
  refine processMessage_alike SameVar (fun h => h.1) ⟨hconfig, hpool⟩ ?_ (fun ip => ?_)
    ⟨hconfig, hpool⟩
  · obtain ⟨hsame, hnext⟩ := (hpool.refresh a.curTime).offer a.curTime
    exact ⟨hsame, hconfig, hnext⟩
  · obtain ⟨hsame, hnext⟩ := hpool.commit ip
    have htimer : (dhcpBmpoolVarCommitIp s.pool ip).1.range.expireTime =
        (dhcpBmpoolVarCommitIp s'.pool ip).1.range.expireTime := by
      obtain ⟨ips', -, heq⟩ := hnext
      rw [heq]
    simp only [bmvarCalls, hconfig, hsame, htimer]
    split_ifs
    · exact ⟨rfl, rfl, hnext⟩
    · exact ⟨rfl, rfl, hnext⟩
    · exact ⟨rfl, hconfig, hpool⟩

/-- Rounded up without overflow, all words of the range are cleared. -/
theorem reinitBmvar_alike (prior prior' : DhcpServer BmPoolVar) (config : DhcpConfig)
    (range range' : BmRange) {rangeSize : UInt32} (hfits : rangeSize.toNat + 31 < 2 ^ 32)
    (run : List Arrival) :
    outputs dhcpProcessMessageBmvar (reinitBmvar prior config range rangeSize) run =
      outputs dhcpProcessMessageBmvar (reinitBmvar prior' config range' rangeSize) run := by
  have hstep : ∀ (s s' : DhcpServer BmPoolVar) (a : Arrival), SameVar s s' → True →
      (dhcpProcessMessageBmvar s a).2 = (dhcpProcessMessageBmvar s' a).2 ∧
        SameVar (dhcpProcessMessageBmvar s a).1 (dhcpProcessMessageBmvar s' a).1 :=
    fun _ _ a h _ => h.step a
  have hinit : SameVar (reinitBmvar prior config range rangeSize)
      (reinitBmvar prior' config range' rangeSize) :=
    ⟨rfl, recycleWords range'.ips rangeSize, SameBits.of_recycle hfits _ _, rfl⟩
  exact (simulation hstep run _ _ hinit (along_of_forall (fun _ _ => trivial) run _)).1

/-- A bitmap in which every slot is in use makes no offer. -/
theorem offer_of_all_used (pool : BmPoolVar)
    (hused : ∀ bit, dhcpBmUsed pool.range.ips bit pool.rangeSize = true) (curTime : UInt32) :
    (pool.offer curTime).2 = 0 := by
  unfold BmPoolVar.offer
  dsimp only
  split_ifs <;> simp_all

/-- The first DISCOVER after init offers the first free slot. -/
theorem offer_first_free (pool : BmPoolVar) {slot : UInt32}
    (htimer : pool.range.expireTime = 0) (hcounter : pool.counter = 0)
    (hslot : slot < pool.rangeSize) (hfree : slotUsed pool.range.ips slot.toNat = false)
    (hbefore : ∀ j < slot.toNat, slotUsed pool.range.ips j = true)
    (hne : pool.poolStart + slot ≠ 0) (curTime : UInt32) :
    (pool.offer curTime).2 = pool.poolStart + slot := by
  have hscan : peekScan pool.range.ips pool.poolStart pool.rangeSize 0 =
      (slot + 1, pool.poolStart + slot) :=
    peekScan_of_first_free UInt32.zero_le hslot hfree fun j _ hj => hbefore j hj
  have hunused : dhcpBmUsed pool.range.ips slot pool.rangeSize = false := by
    rw [dhcpBmUsed_eq_slotUsed hslot, hfree]
  unfold BmPoolVar.offer
  simp [htimer, hcounter, hscan, hunused, hne]

/-- In an array of ones every slot is in use. -/
theorem dhcpBmUsed_ones (rangeSize bit : UInt32) :
    dhcpBmUsed (fun _ => 0xFFFFFFFF) bit rangeSize = true := by
  by_cases hin : bit < rangeSize
  · rw [dhcpBmUsed_eq_slotUsed hin, slotUsed]
    have hones : (0xFFFFFFFF : UInt32).toNat = 2 ^ 32 - 1 := rfl
    rw [hones, Nat.testBit_two_pow_sub_one, decide_eq_true_iff]
    exact Nat.mod_lt _ (by decide)
  · exact dhcpBmUsed_of_le (UInt32.not_lt.mp hin)

/-- The word array whose first `k` slots are in use, for `k` at most 1. -/
def firstUsed (k : Bool) : ℕ → UInt32 := fun w => if w = 0 ∧ k = true then 1 else 0

theorem slotUsed_firstUsed (k : Bool) : slotUsed (firstUsed k) 0 = k ∧
    slotUsed (firstUsed k) 1 = false := by
  cases k <;> exact ⟨rfl, rfl⟩

/-- Where rounding up overflows, nothing is cleared. -/
theorem recycleWords_of_overflow (ips : ℕ → UInt32) {rangeSize : UInt32}
    (hover : ¬ rangeSize.toNat + 31 < 2 ^ 32) : recycleWords ips rangeSize = ips := by
  have hlt := rangeSize.toNat_lt
  have hnone : ((rangeSize + 31) / 32).toNat = 0 := by
    rw [UInt32.toNat_div, UInt32.toNat_add]
    show (rangeSize.toNat + 31) % 2 ^ 32 / 32 = 0
    omega
  funext w
  rw [recycleWords, hnone, if_neg (Nat.not_lt_zero w)]

/-- **BITMAP_VARTIME forgets its storage exactly if rounding `range_size` up to words does
not overflow.** -/
theorem reinitBmvar_alike_iff (config : DhcpConfig) (rangeSize : UInt32) :
    (∀ prior prior' range range' run,
      outputs dhcpProcessMessageBmvar (reinitBmvar prior config range rangeSize) run =
        outputs dhcpProcessMessageBmvar (reinitBmvar prior' config range' rangeSize) run) ↔
      rangeSize.toNat + 31 < 2 ^ 32 := by
  constructor
  swap
  · intro hfits prior prior' range range' run
    exact reinitBmvar_alike prior prior' config range range' hfits run
  intro hsame
  by_contra hover
  have hlt := rangeSize.toNat_lt
  -- the first slot whose address is not 0 is free in one storage and in use in the other
  have hpool : ∀ ips : ℕ → UInt32, (reinitBmvar ⟨config, ⟨0, 0, 0, ⟨ips, 0⟩, 0⟩⟩ config ⟨ips, 0⟩
      rangeSize).pool = ⟨config.poolStart, config.leaseTime, 0, ⟨ips, 0⟩, rangeSize⟩ := by
    intro ips
    simp only [reinitBmvar, dhcpBmpoolVarRecycle, BmRange.recycle,
      recycleWords_of_overflow ips hover]
  have hfound : ∀ ips : ℕ → UInt32, (bmvarCalls.discover (reinitBmvar
      ⟨config, ⟨0, 0, 0, ⟨ips, 0⟩, 0⟩⟩ config ⟨ips, 0⟩ rangeSize) (discoverFrom 1 0)).2 =
        (BmPoolVar.offer ⟨config.poolStart, config.leaseTime, 0, ⟨ips, 0⟩, rangeSize⟩ 0).2 := by
    intro ips
    show (dhcpBmpoolVarPeek (reinitBmvar _ config ⟨ips, 0⟩ rangeSize).pool 0).2 = _
    rw [hpool, dhcpBmpoolVarPeek_eq]
    rfl
  obtain ⟨slot, k, hslot, hfree, hbefore, hne⟩ : ∃ (slot : UInt32) (k : Bool), slot < rangeSize ∧
      slotUsed (firstUsed k) slot.toNat = false ∧
      (∀ j < slot.toNat, slotUsed (firstUsed k) j = true) ∧ config.poolStart + slot ≠ 0 := by
    by_cases hzero : config.poolStart = 0
    · refine ⟨1, true, UInt32.lt_iff_toNat_lt.mpr (by rw [UInt32.toNat_one]; omega),
        (slotUsed_firstUsed true).2, ?_, by rw [hzero]; decide⟩
      intro j hj
      obtain rfl : j = 0 := Nat.lt_one_iff.mp hj
      exact (slotUsed_firstUsed true).1
    · refine ⟨0, false, UInt32.lt_iff_toNat_lt.mpr (by rw [UInt32.toNat_zero]; omega),
        (slotUsed_firstUsed false).1, fun j hj => absurd hj (Nat.not_lt_zero j), ?_⟩
      rwa [UInt32.add_zero]
  have hvalue := eq_of_discover_outputs_eq bmvarCalls bmvarCalls (a := discoverFrom 1 0)
    (by decide) (hsame ⟨config, ⟨0, 0, 0, ⟨firstUsed k, 0⟩, 0⟩⟩
      ⟨config, ⟨0, 0, 0, ⟨fun _ => 0xFFFFFFFF, 0⟩, 0⟩⟩ ⟨firstUsed k, 0⟩
      ⟨fun _ => 0xFFFFFFFF, 0⟩ [discoverFrom 1 0])
  have hoffered := offer_first_free ⟨config.poolStart, config.leaseTime, 0, ⟨firstUsed k, 0⟩,
    rangeSize⟩ rfl rfl hslot hfree hbefore hne 0
  have hnone := offer_of_all_used ⟨config.poolStart, config.leaseTime, 0,
    ⟨fun _ => 0xFFFFFFFF, 0⟩, rangeSize⟩ (dhcpBmUsed_ones rangeSize) 0
  rw [hfound, hfound, hoffered, hnone] at hvalue
  exact hne hvalue

end Vartime

/-! ## BITMAP_UNITIME -/

/-- Range by range, the same timers and the same slots in use. -/
def SameRanges (rangeSize : UInt32) (num : ℕ) (ranges ranges' : ℕ → BmRange) : Prop :=
  ∀ r < num, (ranges r).expireTime = (ranges' r).expireTime ∧
    SameBits rangeSize (ranges r).ips (ranges' r).ips

theorem SameRanges.update {rangeSize : UInt32} {num : ℕ} {ranges ranges' : ℕ → BmRange}
    (h : SameRanges rangeSize num ranges ranges') (idx : ℕ) {g g' : BmRange}
    (htimer : g.expireTime = g'.expireTime) (hbits : SameBits rangeSize g.ips g'.ips) :
    SameRanges rangeSize num (Function.update ranges idx g) (Function.update ranges' idx g') := by
  intro r hr
  by_cases hidx : r = idx
  · subst hidx
    rw [Function.update_self, Function.update_self]
    exact ⟨htimer, hbits⟩
  · rw [Function.update_of_ne hidx, Function.update_of_ne hidx]
    exact h r hr

/-- Two pools that differ at most in memory that is not part of their ranges. -/
def BmPoolUni.Alike (pool pool' : BmPoolUni) : Prop :=
  pool.curRange.toNat < pool.numRanges.toNat ∧
    ∃ ranges', SameRanges pool.rangeSize pool.numRanges.toNat pool.ranges ranges' ∧
      pool' = { pool with ranges := ranges' }

section Unitime

variable {pool pool' : BmPoolUni}

theorem BmPoolUni.Alike.recycle (h : pool.Alike pool') (idx : ℕ) :
    (dhcpBmpoolUniRecycle pool idx).Alike (dhcpBmpoolUniRecycle pool' idx) := by
  obtain ⟨hcur, ranges', hranges, rfl⟩ := h
  unfold dhcpBmpoolUniRecycle
  dsimp only
  split_ifs with hout
  · exact ⟨hcur, ranges', hranges, rfl⟩
  · have hidx : idx < pool.numRanges.toNat := not_le.mp hout
    exact ⟨hcur, Function.update ranges' idx ((ranges' idx).recycle pool.rangeSize),
      hranges.update idx rfl (hranges idx hidx).2.recycle, rfl⟩

/-- Both pools are ready to move to the same next range, or neither is. -/
theorem BmPoolUni.Alike.next (h : pool.Alike pool') :
    pool'.nextRange = pool.nextRange ∧ pool.nextRange.toNat < pool.numRanges.toNat ∧
      (pool'.ranges pool.nextRange.toNat).expireTime =
        (pool.ranges pool.nextRange.toNat).expireTime := by
  obtain ⟨hcur, ranges', hranges, rfl⟩ := h
  have hnext : pool.nextRange.toNat < pool.numRanges.toNat := by
    rw [pool.toNat_nextRange (Nat.zero_lt_of_lt hcur)]
    exact Nat.mod_lt _ (Nat.zero_lt_of_lt hcur)
  exact ⟨rfl, hnext, (hranges _ hnext).1.symm⟩

theorem BmPoolUni.Alike.recyclesNext_iff (h : pool.Alike pool') (curTime : UInt32) :
    pool'.RecyclesNext curTime ↔ pool.RecyclesNext curTime := by
  obtain ⟨hnext, -, htimer⟩ := h.next
  obtain ⟨-, ranges', -, rfl⟩ := h
  unfold BmPoolUni.RecyclesNext
  rw [hnext, htimer]

theorem BmPoolUni.Alike.renew (h : pool.Alike pool') (curTime : UInt32) :
    (pool.renew curTime).Alike (pool'.renew curTime) := by
  unfold BmPoolUni.renew
  by_cases hrecycles : pool.RecyclesNext curTime
  · rw [if_pos hrecycles, if_pos ((h.recyclesNext_iff curTime).mpr hrecycles), h.next.1]
    exact h.recycle _
  · rw [if_neg hrecycles, if_neg (mt (h.recyclesNext_iff curTime).mp hrecycles)]
    exact h

theorem BmPoolUni.Alike.enter (h : pool.Alike pool') {next : UInt8}
    (hnext : next.toNat < pool.numRanges.toNat) :
    (pool.enter next).2 = (pool'.enter next).2 ∧
      (pool.enter next).1.Alike (pool'.enter next).1 := by
  obtain ⟨hcur, ranges', hranges, rfl⟩ := h
  unfold BmPoolUni.enter
  dsimp only
  rw [(hranges _ hnext).1]
  split_ifs
  · exact ⟨rfl, hnext, ranges', hranges, rfl⟩
  · exact ⟨rfl, hcur, ranges', hranges, rfl⟩

theorem BmPoolUni.Alike.advance (h : pool.Alike pool') (curTime : UInt32) :
    (pool.advance curTime).2 = (pool'.advance curTime).2 ∧
      (pool.advance curTime).1.Alike (pool'.advance curTime).1 := by
  have hfull : dhcpBmRangeFull pool'.counter pool'.rangeSize =
      dhcpBmRangeFull pool.counter pool.rangeSize := by
    obtain ⟨-, ranges', -, rfl⟩ := h
    rfl
  by_cases hready : dhcpBmRangeFull pool.counter pool.rangeSize = true
  · have hnum : (pool.renew curTime).numRanges = pool.numRanges := by
      unfold BmPoolUni.renew
      split_ifs
      · exact (dhcpBmpoolUniRecycle_sameShape pool _).1.numRanges
      · rfl
    rw [pool.advance_of_full hready, pool'.advance_of_full (hfull.trans hready), h.next.1]
    refine (h.renew curTime).enter ?_
    rw [hnum]
    exact h.next.2.1
  · rw [pool.advance_of_not_full hready,
      pool'.advance_of_not_full (fun hready' => hready (hfull.symm.trans hready'))]
    exact ⟨rfl, h⟩

theorem BmPoolUni.Alike.current (h : pool.Alike pool') :
    pool.current.expireTime = pool'.current.expireTime ∧
      SameBits pool.rangeSize pool.current.ips pool'.current.ips := by
  obtain ⟨hcur, ranges', hranges, rfl⟩ := h
  exact hranges _ hcur

theorem BmPoolUni.Alike.ipUsed (h : pool.Alike pool') (ip : UInt32) :
    dhcpBmpoolUniIpUsed pool ip = dhcpBmpoolUniIpUsed pool' ip := by
  have hused := h.current.2.used (ip - rangeBase pool)
  obtain ⟨-, ranges', -, rfl⟩ := h
  unfold dhcpBmpoolUniIpUsed
  dsimp only
  rw [hused]
  rfl

theorem BmPoolUni.Alike.settle (h : pool.Alike pool') (candidate curTime : UInt32) :
    (pool.settle candidate curTime).2 = (pool'.settle candidate curTime).2 ∧
      (pool.settle candidate curTime).1.Alike (pool'.settle candidate curTime).1 := by
  obtain ⟨htimer, hbits⟩ := h.current
  have hused := h.ipUsed candidate
  obtain ⟨hcur, ranges', hranges, rfl⟩ := h
  unfold BmPoolUni.settle
  rw [← hused, ← htimer]
  dsimp only
  split_ifs
  · exact ⟨rfl, hcur, ranges', hranges, rfl⟩
  · exact ⟨rfl, hcur, Function.update ranges' pool.curRange.toNat
      ⟨(ranges' pool.curRange.toNat).ips, curTime + pool.leaseTime⟩,
      hranges.update _ rfl hbits, rfl⟩
  · exact ⟨rfl, hcur, ranges', hranges, rfl⟩

theorem BmPoolUni.Alike.scan (h : pool.Alike pool') (curTime : UInt32) :
    (pool.scan curTime).2 = (pool'.scan curTime).2 ∧
      (pool.scan curTime).1.Alike (pool'.scan curTime).1 := by
  have hscan := h.current.2.peekScan (rangeBase pool) pool.counter
  obtain ⟨hcur, ranges', hranges, rfl⟩ := h
  have halike : ∀ counter : UInt32, BmPoolUni.Alike { pool with counter := counter }
      { pool with counter := counter, ranges := ranges' } :=
    fun counter => ⟨hcur, ranges', hranges, rfl⟩
  rw [BmPoolUni.scan_eq, BmPoolUni.scan_eq, hscan]
  exact (halike _).settle _ curTime

theorem BmPoolUni.Alike.peek (h : pool.Alike pool') (curTime : UInt32) :
    (dhcpBmpoolUniPeek pool curTime).2 = (dhcpBmpoolUniPeek pool' curTime).2 ∧
      (dhcpBmpoolUniPeek pool curTime).1.Alike (dhcpBmpoolUniPeek pool' curTime).1 := by
  obtain ⟨hready, hnext⟩ := h.advance curTime
  unfold dhcpBmpoolUniPeek
  rw [← hready]
  split_ifs
  · exact hnext.scan curTime
  · exact ⟨rfl, hnext⟩

theorem BmPoolUni.Alike.commit (h : pool.Alike pool') (ip : UInt32) :
    (dhcpBmpoolUniCommitIp pool ip).2 = (dhcpBmpoolUniCommitIp pool' ip).2 ∧
      (dhcpBmpoolUniCommitIp pool ip).1.Alike (dhcpBmpoolUniCommitIp pool' ip).1 := by
  obtain ⟨htimer, hbits⟩ := h.current
  have hused := h.ipUsed ip
  obtain ⟨hcur, ranges', hranges, rfl⟩ := h
  unfold dhcpBmpoolUniCommitIp
  rw [← hused]
  dsimp only
  split_ifs
  · exact ⟨rfl, hcur, ranges', hranges, rfl⟩
  · exact ⟨rfl, hcur, Function.update ranges' pool.curRange.toNat
      ⟨dhcpBmSet (ranges' pool.curRange.toNat).ips (ip - rangeBase pool),
        (ranges' pool.curRange.toNat).expireTime⟩,
      hranges.update _ htimer (hbits.set _), rfl⟩

/-- Offer counters that the messages cannot tell apart: both are behind the range, or the
pool's only range starts over from either. -/
def CountersAlike (rangeSize : UInt32) (numRanges : UInt8) (counter counter' : UInt32) : Prop :=
  counter = counter' ∨ rangeSize ≤ counter ∧ rangeSize ≤ counter' ∨
    numRanges = 1 ∧ (counter = 0 ∧ rangeSize ≤ counter' ∨ rangeSize ≤ counter ∧ counter' = 0)

/-- The pool would answer alike with the other counter.  An only range starts over as long as
its timer is not running. -/
def BmPoolUni.AlikeFrom (pool : BmPoolUni) (counter' : UInt32) : Prop :=
  pool.counter = counter' ∨ pool.rangeSize ≤ pool.counter ∧ pool.rangeSize ≤ counter' ∨
    (pool.numRanges = 1 ∧ pool.curRange = 0 ∧ pool.current.expireTime = 0) ∧
      (pool.counter = 0 ∧ pool.rangeSize ≤ counter' ∨
        pool.rangeSize ≤ pool.counter ∧ counter' = 0)

/-- An only range without a timer starts over. -/
theorem BmPoolUni.advance_single (pool : BmPoolUni) (hnum : pool.numRanges = 1)
    (hcur : pool.curRange = 0)
    (htimer : pool.current.expireTime = 0) (hfull : pool.rangeSize ≤ pool.counter)
    (curTime : UInt32) : pool.advance curTime = ({ pool with counter := 0 }, true) := by
  have hnext : pool.nextRange = 0 := by
    unfold BmPoolUni.nextRange
    rw [hnum, hcur]
    rfl
  have htimer' : (pool.ranges pool.nextRange.toNat).expireTime = 0 := by
    rw [hnext, ← hcur]
    exact htimer
  have hkeep : pool.renew curTime = pool := by
    refine if_neg ?_
    rintro ⟨-, hpos, -⟩
    rw [htimer'] at hpos
    exact UInt32.lt_irrefl 0 hpos
  rw [pool.advance_of_full (decide_eq_true hfull), hkeep, BmPoolUni.enter, if_pos htimer',
    hnext, ← hcur]

/-- Behind the range the counter is not read, and it is reset with the next range. -/
theorem BmPoolUni.peek_of_full {counter' : UInt32} (hfull : pool.rangeSize ≤ pool.counter)
    (hfull' : pool.rangeSize ≤ counter') (curTime : UInt32) :
    ∃ counter'', (dhcpBmpoolUniPeek pool curTime).1.AlikeFrom counter'' ∧
      dhcpBmpoolUniPeek { pool with counter := counter' } curTime =
        ({ (dhcpBmpoolUniPeek pool curTime).1 with counter := counter'' },
          (dhcpBmpoolUniPeek pool curTime).2) := by
  have hrecycles : BmPoolUni.RecyclesNext { pool with counter := counter' } curTime ↔
      pool.RecyclesNext curTime :=
    and_congr_left fun _ => iff_of_true (decide_eq_true hfull') (decide_eq_true hfull)
  have hrecycle : ∀ idx, dhcpBmpoolUniRecycle { pool with counter := counter' } idx =
      { dhcpBmpoolUniRecycle pool idx with counter := counter' } := by
    intro idx
    unfold dhcpBmpoolUniRecycle
    dsimp only
    split_ifs <;> rfl
  have hrenew : BmPoolUni.renew { pool with counter := counter' } curTime =
      { pool.renew curTime with counter := counter' } := by
    unfold BmPoolUni.renew
    by_cases hover : pool.RecyclesNext curTime
    · rw [if_pos hover, if_pos (hrecycles.mpr hover)]
      exact hrecycle pool.nextRange.toNat
    · rw [if_neg hover, if_neg (mt hrecycles.mp hover)]
  have hkept : (pool.renew curTime).counter = pool.counter ∧
      (pool.renew curTime).rangeSize = pool.rangeSize := by
    unfold BmPoolUni.renew dhcpBmpoolUniRecycle
    split_ifs <;> exact ⟨rfl, rfl⟩
  have hadvance := pool.advance_of_full (decide_eq_true hfull) curTime
  have hadvance' := BmPoolUni.advance_of_full { pool with counter := counter' }
    (decide_eq_true hfull') curTime
  rw [hrenew] at hadvance'
  unfold dhcpBmpoolUniPeek
  rw [hadvance, hadvance']
  by_cases htimer : ((pool.renew curTime).ranges pool.nextRange.toNat).expireTime = 0
  · have henter : (pool.renew curTime).enter pool.nextRange =
        ({ pool.renew curTime with curRange := pool.nextRange, counter := 0 }, true) :=
      if_pos htimer
    have henter' : BmPoolUni.enter { pool.renew curTime with counter := counter' }
        (BmPoolUni.nextRange { pool with counter := counter' }) =
          ({ pool.renew curTime with curRange := pool.nextRange, counter := 0 }, true) :=
      if_pos htimer
    rw [henter, henter']
    exact ⟨_, Or.inl rfl, rfl⟩
  · have hstay : (pool.renew curTime).enter pool.nextRange = (pool.renew curTime, false) :=
      if_neg htimer
    have hstay' : BmPoolUni.enter { pool.renew curTime with counter := counter' }
        (BmPoolUni.nextRange { pool with counter := counter' }) =
          ({ pool.renew curTime with counter := counter' }, false) :=
      if_neg htimer
    rw [hstay, hstay']
    refine ⟨counter', Or.inr (Or.inl ?_), rfl⟩
    show (pool.renew curTime).rangeSize ≤ (pool.renew curTime).counter ∧
      (pool.renew curTime).rangeSize ≤ counter'
    rw [hkept.1, hkept.2]
    exact ⟨hfull, hfull'⟩

/-- **One DISCOVER with either counter** finds the same address, and leaves counters that
are alike again. -/
theorem BmPoolUni.AlikeFrom.peek {counter' : UInt32} (h : pool.AlikeFrom counter')
    (curTime : UInt32) :
    ∃ counter'', (dhcpBmpoolUniPeek pool curTime).1.AlikeFrom counter'' ∧
      dhcpBmpoolUniPeek { pool with counter := counter' } curTime =
        ({ (dhcpBmpoolUniPeek pool curTime).1 with counter := counter'' },
          (dhcpBmpoolUniPeek pool curTime).2) := by
  obtain rfl | ⟨hfull, hfull'⟩ | ⟨⟨hnum, hcur, htimer⟩, hside⟩ := h
  · exact ⟨_, Or.inl rfl, rfl⟩
  · exact BmPoolUni.peek_of_full hfull hfull' curTime
  by_cases hempty : pool.rangeSize ≤ 0
  · rcases hside with ⟨hzero, hfull'⟩ | ⟨hfull, hzero⟩
    · exact BmPoolUni.peek_of_full (hzero ▸ hempty) hfull' curTime
    · exact BmPoolUni.peek_of_full hfull (hzero ▸ hempty) curTime
  have hfresh : BmPoolUni.advance { pool with counter := 0 } curTime =
      ({ pool with counter := 0 }, true) :=
    BmPoolUni.advance_of_not_full { pool with counter := 0 }
      (fun hfull => hempty (of_decide_eq_true hfull)) curTime
  -- one counter is at the start; the other starts over
  rcases hside with ⟨hzero, hfull'⟩ | ⟨hfull, rfl⟩
  · have hover : BmPoolUni.advance { pool with counter := counter' } curTime =
        ({ pool with counter := 0 }, true) :=
      BmPoolUni.advance_single { pool with counter := counter' } hnum hcur htimer hfull' curTime
    have hself : pool = { pool with counter := 0 } := by rw [← hzero]
    have hpeek : dhcpBmpoolUniPeek { pool with counter := counter' } curTime =
        dhcpBmpoolUniPeek pool curTime := by
      rw [hself]
      unfold dhcpBmpoolUniPeek
      rw [hover, hfresh]
    exact ⟨_, Or.inl rfl, hpeek⟩
  · have hover := pool.advance_single hnum hcur htimer hfull curTime
    have hpeek : dhcpBmpoolUniPeek { pool with counter := 0 } curTime =
        dhcpBmpoolUniPeek pool curTime := by
      unfold dhcpBmpoolUniPeek
      rw [hover, hfresh]
    exact ⟨_, Or.inl rfl, hpeek⟩

theorem BmPoolUni.AlikeFrom.commit {counter' : UInt32} (h : pool.AlikeFrom counter')
    (ip : UInt32) :
    (dhcpBmpoolUniCommitIp pool ip).1.AlikeFrom counter' ∧
      dhcpBmpoolUniCommitIp { pool with counter := counter' } ip =
        ({ (dhcpBmpoolUniCommitIp pool ip).1 with counter := counter' },
          (dhcpBmpoolUniCommitIp pool ip).2) := by
  have hused : dhcpBmpoolUniIpUsed { pool with counter := counter' } ip =
      dhcpBmpoolUniIpUsed pool ip := rfl
  unfold dhcpBmpoolUniCommitIp
  rw [hused]
  split_ifs
  · exact ⟨h, rfl⟩
  · refine ⟨?_, rfl⟩
    unfold BmPoolUni.AlikeFrom BmPoolUni.current at h ⊢
    simpa using h

/-- The configurations agree, and the pools are alike but for the counter. -/
def SameUni (s s' : DhcpServer BmPoolUni) : Prop :=
  s.config = s'.config ∧ ∃ counter', s.pool.AlikeFrom counter' ∧
    BmPoolUni.Alike { s.pool with counter := counter' } s'.pool

theorem SameUni.step {s s' : DhcpServer BmPoolUni} (h : SameUni s s') (a : Arrival) :
    (dhcpProcessMessageBmuni s a).2 = (dhcpProcessMessageBmuni s' a).2 ∧
      SameUni (dhcpProcessMessageBmuni s a).1 (dhcpProcessMessageBmuni s' a).1 := by
  obtain ⟨hconfig, counter', hfrom, hpool⟩ := h
  refine processMessage_alike SameUni (fun h => h.1) ⟨hconfig, counter', hfrom, hpool⟩ ?_
    (fun ip => ?_) ⟨hconfig, counter', hfrom, hpool⟩
  · obtain ⟨hsame, hnext⟩ := hpool.peek a.curTime
    obtain ⟨counter'', hfrom', hpeek⟩ := hfrom.peek a.curTime
    rw [hpeek] at hsame hnext
    exact ⟨hsame, hconfig, counter'', hfrom', hnext⟩
  · obtain ⟨hsame, hnext⟩ := hpool.commit ip
    obtain ⟨hfrom', hcommit⟩ := hfrom.commit ip
    rw [hcommit] at hsame hnext
    simp only [bmuniCalls, hconfig]
    split_ifs
    · exact ⟨hsame, rfl, counter', hfrom', hnext⟩
    · exact ⟨rfl, hconfig, counter', hfrom, hpool⟩

/-- From counters that are alike, the servers answer alike. -/
theorem reinitBmuni_alike (prior prior' : DhcpServer BmPoolUni) (config : DhcpConfig)
    (ranges ranges' : ℕ → BmRange) {rangeSize : UInt32} {numRanges : UInt8}
    (hnum : 0 < numRanges) (hsize : rangeSize.toNat + 31 < 2 ^ 32)
    (hcounters : CountersAlike rangeSize numRanges prior.pool.counter prior'.pool.counter)
    (run : List Arrival) :
    outputs dhcpProcessMessageBmuni (reinitBmuni prior config ranges rangeSize numRanges) run =
      outputs dhcpProcessMessageBmuni
        (reinitBmuni prior' config ranges' rangeSize numRanges) run := by
  have hstep : ∀ (s s' : DhcpServer BmPoolUni) (a : Arrival), SameUni s s' → True →
      (dhcpProcessMessageBmuni s a).2 = (dhcpProcessMessageBmuni s' a).2 ∧
        SameUni (dhcpProcessMessageBmuni s a).1 (dhcpProcessMessageBmuni s' a).1 :=
    fun _ _ a h _ => h.step a
  have hinit : SameUni (reinitBmuni prior config ranges rangeSize numRanges)
      (reinitBmuni prior' config ranges' rangeSize numRanges) := by
    have hpos : 0 < numRanges.toNat := UInt8.lt_iff_toNat_lt.mp hnum
    unfold reinitBmuni
    rw [dhcpBmpoolUniInit_eq, dhcpBmpoolUniInit_eq]
    refine ⟨rfl, prior'.pool.counter, ?_, hpos, _, ?_, rfl⟩
    · refine hcounters.imp_right (Or.imp_right fun hside => ⟨⟨hside.1, rfl, ?_⟩, hside.2⟩)
      show (if (0 : UInt8).toNat < numRanges.toNat then _ else ranges 0).expireTime = 0
      rw [if_pos (show (0 : UInt8).toNat < numRanges.toNat from hpos)]
      rfl
    · intro r hr
      dsimp only at hr ⊢
      rw [if_pos hr, if_pos hr]
      exact ⟨rfl, SameBits.of_recycle hsize _ _⟩
  exact (simulation hstep run _ _ hinit (along_of_forall (fun _ _ => trivial) run _)).1

/-- The pool in which `dhcp_bmpool_uni_peek` scans when no timer is running. -/
def BmPoolUni.restart (pool : BmPoolUni) : BmPoolUni :=
  if pool.counter < pool.rangeSize then pool
  else { pool with curRange := pool.nextRange, counter := 0 }

theorem BmPoolUni.peek_of_idle (pool : BmPoolUni)
    (htimer : (pool.ranges pool.nextRange.toNat).expireTime = 0) (curTime : UInt32) :
    dhcpBmpoolUniPeek pool curTime = pool.restart.scan curTime := by
  have hadvance : pool.advance curTime = (pool.restart, true) := by
    unfold BmPoolUni.restart
    split_ifs with hlt
    · exact pool.advance_of_not_full
        (fun hfull => UInt32.not_le.mpr hlt (of_decide_eq_true hfull)) curTime
    · have hkeep : pool.renew curTime = pool := by
        refine if_neg ?_
        rintro ⟨-, hpos, -⟩
        rw [htimer] at hpos
        exact UInt32.lt_irrefl 0 hpos
      rw [pool.advance_of_full (decide_eq_true (UInt32.not_lt.mp hlt)), hkeep]
      exact if_pos htimer
  unfold dhcpBmpoolUniPeek
  rw [hadvance, if_pos rfl]

/-- The scan of a range finds its first free slot. -/
theorem BmPoolUni.Placed.toNat_scan {poolStart leaseTime rangeSize : UInt32} {numRanges : UInt8}
    (h : pool.Placed poolStart leaseTime rangeSize numRanges) {slot : UInt32}
    (hfrom : pool.counter ≤ slot) (hslot : slot < rangeSize)
    (hfree : slotUsed pool.current.ips slot.toNat = false)
    (hbefore : ∀ j, pool.counter.toNat ≤ j → j < slot.toNat → slotUsed pool.current.ips j = true)
    (curTime : UInt32) :
    (pool.scan curTime).2.toNat =
      poolStart.toNat + pool.curRange.toNat * rangeSize.toNat + slot.toNat := by
  obtain ⟨hbase, hend⟩ := h.toNat_rangeBase
  have hsize := h.rangeSize_eq
  rw [← hsize] at hslot
  have hnat : slot.toNat < rangeSize.toNat := hsize ▸ UInt32.lt_iff_toNat_lt.mp hslot
  have hwrap := (rangeBase pool + pool.rangeSize).toNat_lt
  rw [hend, Nat.succ_mul] at hwrap
  have hsum : (rangeBase pool + slot).toNat =
      poolStart.toNat + pool.curRange.toNat * rangeSize.toNat + slot.toNat := by
    rw [UInt32.toNat_add, hbase, Nat.mod_eq_of_lt (by omega)]
  have hunused : dhcpBmpoolUniIpUsed { pool with counter := slot + 1 } (rangeBase pool + slot) =
      false := by
    refine (dhcpBmpoolUniIpUsed_of_free hslot hfree).mpr ?_
    rw [hbase, hsize]
    omega
  rw [← hsum, BmPoolUni.scan_eq, peekScan_of_first_free hfrom hslot hfree hbefore]
  exact congrArg UInt32.toNat (BmPoolUni.settle_of_unused _ hunused curTime)

/-- The slot from which the first scan after init starts. -/
def firstSlot (rangeSize counter : UInt32) : UInt32 :=
  if counter < rangeSize then counter else 0

/-- The range that the first scan after init searches. -/
def firstRange (rangeSize counter : UInt32) (numRanges : UInt8) : ℕ :=
  if counter < rangeSize then 0 else 1 % numRanges.toNat

/-- **The first DISCOVER after init** scans one recycled range from the prior counter. -/
theorem peek_reinitBmuni (prior : DhcpServer BmPoolUni) (config : DhcpConfig)
    (ranges : ℕ → BmRange) {rangeSize : UInt32} {numRanges : UInt8} (hnum : 0 < numRanges)
    (hsize : 0 < rangeSize)
    (hfits : config.poolStart.toNat + numRanges.toNat * rangeSize.toNat < 2 ^ 32)
    (curTime : UInt32) :
    ∃ pool : BmPoolUni, pool.Placed config.poolStart config.leaseTime rangeSize numRanges ∧
      pool.counter = firstSlot rangeSize prior.pool.counter ∧
      pool.curRange.toNat = firstRange rangeSize prior.pool.counter numRanges ∧
      pool.current.ips = recycleWords
        (ranges (firstRange rangeSize prior.pool.counter numRanges)).ips rangeSize ∧
      dhcpBmpoolUniPeek (reinitBmuni prior config ranges rangeSize numRanges).pool curTime =
        pool.scan curTime := by
  have hplaced : (reinitBmuni prior config ranges rangeSize numRanges).pool.Placed
      config.poolStart config.leaseTime rangeSize numRanges :=
    dhcpBmpoolUniInit_placed prior.pool ranges hnum hsize hfits
  have hinit : (reinitBmuni prior config ranges rangeSize numRanges).pool =
      dhcpBmpoolUniInit prior.pool config.poolStart config.leaseTime ranges rangeSize numRanges :=
    rfl
  rw [dhcpBmpoolUniInit_eq] at hinit
  have hranges : ∀ r < numRanges.toNat,
      (reinitBmuni prior config ranges rangeSize numRanges).pool.ranges r =
        (ranges r).recycle rangeSize := by
    intro r hr
    rw [hinit]
    exact if_pos hr
  have hcounter : (reinitBmuni prior config ranges rangeSize numRanges).pool.counter =
      prior.pool.counter := by rw [hinit]
  have hcur : (reinitBmuni prior config ranges rangeSize numRanges).pool.curRange = 0 := by
    rw [hinit]
  generalize (reinitBmuni prior config ranges rangeSize numRanges).pool =
    pool at hplaced hranges hcounter hcur ⊢
  have hpos : 0 < pool.numRanges.toNat := by
    rw [hplaced.numRanges_eq]
    exact UInt8.lt_iff_toNat_lt.mp hnum
  have hnext : pool.nextRange.toNat = 1 % numRanges.toNat := by
    rw [pool.toNat_nextRange hpos, hcur, hplaced.numRanges_eq]
    rfl
  have hlt : pool.nextRange.toNat < numRanges.toNat := by
    rw [hnext]
    exact Nat.mod_lt _ (hplaced.numRanges_eq ▸ hpos)
  have hpeek := pool.peek_of_idle (by rw [hranges _ hlt]; rfl) curTime
  have hsame : pool.counter < pool.rangeSize ↔ prior.pool.counter < rangeSize := by
    rw [hcounter, hplaced.rangeSize_eq]
  unfold BmPoolUni.restart at hpeek
  unfold firstSlot firstRange
  by_cases hfirst : prior.pool.counter < rangeSize
  · rw [if_pos (hsame.mpr hfirst)] at hpeek
    rw [if_pos hfirst, if_pos hfirst]
    refine ⟨pool, hplaced, hcounter, by rw [hcur]; rfl, ?_, hpeek⟩
    unfold BmPoolUni.current
    rw [hcur, hranges _ (hplaced.numRanges_eq ▸ hpos)]
    rfl
  · rw [if_neg (mt hsame.mp hfirst)] at hpeek
    rw [if_neg hfirst, if_neg hfirst]
    refine ⟨{ pool with curRange := pool.nextRange, counter := 0 },
      hplaced.of_sameShape ⟨rfl, rfl, rfl, rfl⟩ (Or.inr rfl), rfl, hnext, ?_, hpeek⟩
    show (pool.ranges pool.nextRange.toNat).ips = _
    rw [hranges _ hlt, hnext]
    rfl

/-- Storage in which every range has the same words and no timer runs. -/
def rangesOf (ips : ℕ → UInt32) : ℕ → BmRange := fun _ => ⟨ips, 0⟩

/-- The address of the first OFFER after init over clear storage shows the prior counter. -/
theorem toNat_first_offer (prior : DhcpServer BmPoolUni) (config : DhcpConfig)
    {rangeSize : UInt32} {numRanges : UInt8} (hnum : 0 < numRanges) (hsize : 0 < rangeSize)
    (hfits : config.poolStart.toNat + numRanges.toNat * rangeSize.toNat < 2 ^ 32) :
    (dhcpBmpoolUniPeek (reinitBmuni prior config (rangesOf fun _ => 0) rangeSize
        numRanges).pool 0).2.toNat =
      config.poolStart.toNat +
        firstRange rangeSize prior.pool.counter numRanges * rangeSize.toNat +
        (firstSlot rangeSize prior.pool.counter).toNat := by
  obtain ⟨pool, hplaced, hcounter, hcur, hips, hpeek⟩ :=
    peek_reinitBmuni prior config (rangesOf fun _ => 0) hnum hsize hfits 0
  have hclear : ∀ j, slotUsed pool.current.ips j = false := by
    intro j
    rw [hips, slotUsed_recycleWords_eq]
    split_ifs
    · rfl
    · simp [slotUsed, rangesOf]
  have hslot : pool.counter < rangeSize := by
    rw [hcounter]
    unfold firstSlot
    split_ifs with hlt
    · exact hlt
    · exact hsize
  rw [hpeek, hplaced.toNat_scan (UInt32.le_refl _) hslot (hclear _)
    (fun j hj hj' => absurd hj' (not_lt.mpr hj)), hcur, hcounter]

/-- **BITMAP_UNITIME forgets its storage, but not the counter**: the prior counters show in
the first OFFER unless they are alike. -/
theorem countersAlike_of_alike (prior prior' : DhcpServer BmPoolUni) (config : DhcpConfig)
    {rangeSize : UInt32} {numRanges : UInt8} (hnum : 0 < numRanges)
    (hfits : config.poolStart.toNat + numRanges.toNat * rangeSize.toNat < 2 ^ 32)
    (hsame : ∀ ranges ranges' run,
      outputs dhcpProcessMessageBmuni (reinitBmuni prior config ranges rangeSize numRanges) run =
        outputs dhcpProcessMessageBmuni
          (reinitBmuni prior' config ranges' rangeSize numRanges) run) :
    CountersAlike rangeSize numRanges prior.pool.counter prior'.pool.counter := by
  by_cases hsize : 0 < rangeSize
  swap
  · have hzero : ∀ counter : UInt32, rangeSize ≤ counter := fun counter =>
      UInt32.le_trans (UInt32.not_lt.mp hsize) UInt32.zero_le
    exact Or.inr (Or.inl ⟨hzero _, hzero _⟩)
  have hvalue : (dhcpBmpoolUniPeek
      (reinitBmuni prior config (rangesOf fun _ => 0) rangeSize numRanges).pool 0).2 =
        (dhcpBmpoolUniPeek
          (reinitBmuni prior' config (rangesOf fun _ => 0) rangeSize numRanges).pool 0).2 :=
    eq_of_discover_outputs_eq bmuniCalls bmuniCalls (a := discoverFrom 1 0) (by decide)
      (hsame _ _ [discoverFrom 1 0])
  have hnat := congrArg UInt32.toNat hvalue
  rw [toNat_first_offer prior config hnum hsize hfits,
    toNat_first_offer prior' config hnum hsize hfits] at hnat
  -- either only range of the pool, or the next range begins behind the first one
  have hpos : 0 < numRanges.toNat := UInt8.lt_iff_toNat_lt.mp hnum
  have hnext : numRanges = 1 ∧ 1 % numRanges.toNat = 0 ∨ 1 % numRanges.toNat = 1 := by
    rcases Nat.lt_or_ge 1 numRanges.toNat with htwo | hone
    · exact Or.inr (Nat.mod_eq_of_lt htwo)
    · have heq : numRanges.toNat = 1 := by omega
      exact Or.inl ⟨UInt8.toNat_inj.mp heq, by rw [heq]⟩
  have hzero : ∀ {counter : UInt32}, counter.toNat = 0 → counter = 0 :=
    fun h => UInt32.toNat_inj.mp h
  have hdiff : ∀ {counter : UInt32}, counter < rangeSize →
      counter.toNat = (1 % numRanges.toNat) * rangeSize.toNat → numRanges = 1 ∧ counter = 0 := by
    intro counter hlt heq
    rw [UInt32.lt_iff_toNat_lt] at hlt
    rcases hnext with ⟨hone, hmod⟩ | hmod
    · rw [hmod, Nat.zero_mul] at heq
      exact ⟨hone, hzero heq⟩
    · rw [hmod, Nat.one_mul] at heq
      omega
  rw [Nat.add_assoc, Nat.add_assoc] at hnat
  replace hnat := Nat.add_left_cancel hnat
  unfold firstRange firstSlot at hnat
  split_ifs at hnat with hlt hlt' hlt'
  all_goals simp only [Nat.zero_mul, Nat.zero_add, UInt32.toNat_zero, Nat.add_zero] at hnat
  · exact Or.inl (UInt32.toNat_inj.mp hnat)
  · obtain ⟨hone, hstart⟩ := hdiff hlt hnat
    exact Or.inr (Or.inr ⟨hone, Or.inl ⟨hstart, UInt32.not_lt.mp hlt'⟩⟩)
  · obtain ⟨hone, hstart⟩ := hdiff hlt' hnat.symm
    exact Or.inr (Or.inr ⟨hone, Or.inr ⟨UInt32.not_lt.mp hlt, hstart⟩⟩)
  · exact Or.inr (Or.inl ⟨UInt32.not_lt.mp hlt, UInt32.not_lt.mp hlt'⟩)

/-- A scan of a range whose slots are all in use finds nothing. -/
theorem BmPoolUni.scan_of_all_used
    (hused : ∀ bit, dhcpBmUsed pool.current.ips bit pool.rangeSize = true) (curTime : UInt32) :
    (pool.scan curTime).2 = 0 := by
  have hnone : ∀ counter ip,
      dhcpBmpoolUniIpUsed { pool with counter := counter } ip = true := by
    intro counter ip
    show dhcpBmpoolUniIpUsed pool ip = true
    unfold dhcpBmpoolUniIpUsed
    dsimp only
    split_ifs
    · rfl
    · exact hused _
  rw [BmPoolUni.scan_eq]
  exact congrArg Prod.snd (BmPoolUni.settle_of_used _ (Or.inr (hnone _ _)) curTime)

/-- Storage that is not cleared shows in the first answer. -/
theorem rounding_of_alike (prior prior' : DhcpServer BmPoolUni) (config : DhcpConfig)
    {rangeSize : UInt32} {numRanges : UInt8} (hnum : 0 < numRanges)
    (hfits : config.poolStart.toNat + numRanges.toNat * rangeSize.toNat < 2 ^ 32)
    (hsame : ∀ ranges ranges' run,
      outputs dhcpProcessMessageBmuni (reinitBmuni prior config ranges rangeSize numRanges) run =
        outputs dhcpProcessMessageBmuni
          (reinitBmuni prior' config ranges' rangeSize numRanges) run) :
    rangeSize.toNat + 31 < 2 ^ 32 := by
  by_contra hover
  have hsize : 0 < rangeSize := UInt32.lt_iff_toNat_lt.mpr (by rw [UInt32.toNat_zero]; omega)
  have hone : 1 < rangeSize := UInt32.lt_iff_toNat_lt.mpr (by rw [UInt32.toNat_one]; omega)
  -- over an array of ones the second server finds nothing, so neither does the first
  have hnone : ∀ ranges, (dhcpBmpoolUniPeek
      (reinitBmuni prior config ranges rangeSize numRanges).pool 0).2 = 0 := by
    intro ranges
    have hvalue : (dhcpBmpoolUniPeek
        (reinitBmuni prior config ranges rangeSize numRanges).pool 0).2 =
          (dhcpBmpoolUniPeek (reinitBmuni prior' config (rangesOf fun _ => 0xFFFFFFFF) rangeSize
            numRanges).pool 0).2 :=
      eq_of_discover_outputs_eq bmuniCalls bmuniCalls (a := discoverFrom 1 0) (by decide)
        (hsame _ _ [discoverFrom 1 0])
    obtain ⟨pool, hplaced, -, -, hips, hpeek⟩ :=
      peek_reinitBmuni prior' config (rangesOf fun _ => 0xFFFFFFFF) hnum hsize hfits 0
    rw [recycleWords_of_overflow _ hover] at hips
    rw [hvalue, hpeek]
    refine BmPoolUni.scan_of_all_used (fun bit => ?_) 0
    rw [hips]
    exact dhcpBmUsed_ones _ bit
  -- over clear storage that happens only at address 0; there slot 1 is the next one
  have hzero := congrArg UInt32.toNat (hnone (rangesOf fun _ => 0))
  rw [toNat_first_offer prior config hnum hsize hfits, UInt32.toNat_zero] at hzero
  obtain ⟨pool, hplaced, hcounter, -, hips, hpeek⟩ :=
    peek_reinitBmuni prior config (rangesOf (firstUsed true)) hnum hsize hfits 0
  rw [recycleWords_of_overflow _ hover] at hips
  have hstart : pool.counter.toNat = 0 := by
    rw [hcounter]
    omega
  have hscan : (pool.scan 0).2.toNat =
      config.poolStart.toNat + pool.curRange.toNat * rangeSize.toNat + (1 : UInt32).toNat := by
    refine hplaced.toNat_scan (UInt32.le_iff_toNat_le.mpr (by rw [hstart]; exact Nat.zero_le _))
      hone ?_ ?_ 0
    · rw [hips]
      exact (slotUsed_firstUsed true).2
    · intro j _ hj
      obtain rfl : j = 0 := Nat.lt_one_iff.mp hj
      rw [hips]
      exact (slotUsed_firstUsed true).1
  rw [← hpeek, hnone, UInt32.toNat_zero, UInt32.toNat_one] at hscan
  omega

end Unitime

/-! ## The five backends -/

/-- **What init erases.**  ARRAY, HASHMAP and NPRC answer alike whatever was in memory, and
BITMAP_VARTIME does if rounding the range up to words does not overflow.  BITMAP_UNITIME
needs that and prior offer counters that are alike; for a pool that does not wrap around,
nothing less will do. -/
theorem init_erases_history (config : DhcpConfig) :
    (∀ (maxLeases : UInt16) (prior prior' : DhcpServer (ArrayPool maxLeases))
      (leases leases' : Fin maxLeases.toNat → DhcpLease) (run : List Arrival),
      outputs dhcpProcessMessageArray (reinitArray prior config leases) run =
        outputs dhcpProcessMessageArray (reinitArray prior' config leases') run) ∧
    (∀ (maxLeases : UInt16) (prior prior' : DhcpServer HashPool) (run : List Arrival),
      outputs dhcpProcessMessageHashmap (reinitHashmap prior config maxLeases) run =
        outputs dhcpProcessMessageHashmap (reinitHashmap prior' config maxLeases) run) ∧
    (∀ (W : ℕ) (prior prior' : DhcpServer (NprcPool W)) (run : List Arrival),
      outputs dhcpProcessMessageNprc (reinitNprc prior config) run =
        outputs dhcpProcessMessageNprc (reinitNprc prior' config) run) ∧
    (∀ rangeSize : UInt32,
      (∀ prior prior' range range' run,
        outputs dhcpProcessMessageBmvar (reinitBmvar prior config range rangeSize) run =
          outputs dhcpProcessMessageBmvar (reinitBmvar prior' config range' rangeSize) run) ↔
        rangeSize.toNat + 31 < 2 ^ 32) ∧
    ∀ (rangeSize : UInt32) (numRanges : UInt8) (prior prior' : DhcpServer BmPoolUni),
      0 < numRanges →
      let Alike := ∀ ranges ranges' run,
        outputs dhcpProcessMessageBmuni
            (reinitBmuni prior config ranges rangeSize numRanges) run =
          outputs dhcpProcessMessageBmuni
            (reinitBmuni prior' config ranges' rangeSize numRanges) run
      let Counters :=
        CountersAlike rangeSize numRanges prior.pool.counter prior'.pool.counter
      (Counters ∧ rangeSize.toNat + 31 < 2 ^ 32 → Alike) ∧
        (config.poolStart.toNat + numRanges.toNat * rangeSize.toNat < 2 ^ 32 →
          (Alike ↔ Counters ∧ rangeSize.toNat + 31 < 2 ^ 32)) := by
  refine ⟨fun _ prior prior' => reinitArray_alike prior prior' config, fun _ _ _ _ => rfl,
    fun _ _ _ _ => rfl, reinitBmvar_alike_iff config, ?_⟩
  intro rangeSize numRanges prior prior' hnum Alike Counters
  have henough : Counters ∧ rangeSize.toNat + 31 < 2 ^ 32 → Alike := by
    rintro ⟨hcounters, hsize⟩ ranges ranges' run
    exact reinitBmuni_alike prior prior' config ranges ranges' hnum hsize hcounters run
  refine ⟨henough, fun hfits => ⟨fun hsame => ⟨?_, ?_⟩, henough⟩⟩
  · exact countersAlike_of_alike prior prior' config hnum hfits hsame
  · exact rounding_of_alike prior prior' config hnum hfits hsame

/-- Over a server that stopped with its first range exhausted, and over one that had exhausted
a later one, the new server is the same. -/
theorem init_erases_history_two_exhausted :
    ∀ ranges ranges' run,
      outputs dhcpProcessMessageBmuni
          (reinitBmuni ⟨poolConfig 7 9 1, ⟨7, 1, 3, rangesOf fun _ => 5, 3, 1, 0⟩⟩
            (poolConfig 100 101 10) ranges 1 2) run =
        outputs dhcpProcessMessageBmuni
          (reinitBmuni ⟨poolConfig 0 0 0, ⟨0, 0, 1, rangesOf fun _ => 0, 1, 2, 1⟩⟩
            (poolConfig 100 101 10) ranges' 1 2) run :=
  ((init_erases_history (poolConfig 100 101 10)).2.2.2.2 1 2
    ⟨poolConfig 7 9 1, ⟨7, 1, 3, rangesOf fun _ => 5, 3, 1, 0⟩⟩
    ⟨poolConfig 0 0 0, ⟨0, 0, 1, rangesOf fun _ => 0, 1, 2, 1⟩⟩ (by decide)).1
    ⟨Or.inr (Or.inl ⟨by decide, by decide⟩), by decide⟩

/-- A server that kept the counter 1 in memory offers another first address than a zeroed
one. -/
theorem init_keeps_counter :
    let zeroed : BmPoolUni := ⟨0, 0, 0, rangesOf fun _ => 0, 0, 0, 0⟩
    let kept : BmPoolUni := ⟨0, 0, 1, rangesOf fun _ => 0, 0, 0, 0⟩
    let config := poolConfig 100 101 10
    outputs dhcpProcessMessageBmuni
        (reinitBmuni ⟨config, zeroed⟩ config (rangesOf fun _ => 0) 1 2) [discoverFrom 1 0] ≠
      outputs dhcpProcessMessageBmuni
        (reinitBmuni ⟨config, kept⟩ config (rangesOf fun _ => 0) 1 2) [discoverFrom 1 0] := by
  intro zeroed kept config hsame
  have hvalue := eq_of_discover_outputs_eq bmuniCalls bmuniCalls (a := discoverFrom 1 0)
    (by decide) hsame
  revert hvalue
  decide +kernel

end BaremetalDhcp
