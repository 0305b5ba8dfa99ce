import BaremetalDhcp.Server
import BaremetalDhcp.Lib.Window

/-!
# The NPRC backend

`dhcp_nprc.c`: addresses are offered in order, each once, and a bitmap of one machine
word remembers which of the last offers were acknowledged.  The word size `W` is a
parameter (`sizeof(unsigned long) * 8`).

The pool is a `Window`: the offers are its entries, the acknowledged ones are marked,
`cache_base` is its base.  `NprcPool.Tracks` ties the 32-bit base, the 8-bit count and
the bits to it; `Tracks.find` and `Tracks.commit` say what the two calls do to it.

* `nprc_refines_offer_log` — every run of the two calls is a log of consecutive offers
  and of at most one ACK for each, and a commit succeeds exactly on an offer in the
  window that has not been acknowledged;
* `nprc_window_guarantee` — a client that sends its REQUEST before `W - W/4` further
  offers were made is acknowledged.
-/

namespace BaremetalDhcp

open Machine

/-- `dhcp_nprcpool_t`. -/
structure NprcPool (W : ℕ) where
  cacheBase : UInt32
  offerNext : UInt8
  ackBitmap : BitVec W

section Operations

variable {W : ℕ}

/-- `BITMAP_FLUSH`. -/
def bitmapFlush (W : ℕ) : ℕ := W / 4

/-- The flush at the head of `dhcp_nprc_find_available_ip`. -/
def NprcPool.flushed (p : NprcPool W) : NprcPool W :=
  if p.offerNext.toNat ≥ W then
    { cacheBase := p.cacheBase + UInt32.ofNat (bitmapFlush W)
      offerNext := p.offerNext - UInt8.ofNat (bitmapFlush W)
      ackBitmap := p.ackBitmap >>> bitmapFlush W }
  else p

/-- `dhcp_nprc_find_available_ip`. -/
def dhcpNprcFindAvailableIp (p : NprcPool W) (poolStart poolEnd : UInt32) :
    NprcPool W × UInt32 :=
  let p := p.flushed
  let offeredIp := poolStart + p.cacheBase + p.offerNext.toUInt32
  if offeredIp > poolEnd then (p, 0)
  else ({ p with offerNext := p.offerNext + 1 }, offeredIp)

/-- The clean-up loop of `dhcp_nprc_commit_ip`; each iteration decrements
`offer_next`, so that many are enough. -/
def NprcPool.cleanUp : ℕ → NprcPool W → NprcPool W
  | 0, p => p
  | fuel + 1, p =>
      if p.ackBitmap &&& 1#W ≠ 0#W ∧ p.offerNext ≠ 0 then
        NprcPool.cleanUp fuel
          { cacheBase := p.cacheBase + 1
            offerNext := p.offerNext - 1
            ackBitmap := p.ackBitmap >>> 1 }
      else p

/-- `dhcp_nprc_commit_ip`. -/
def dhcpNprcCommitIp (p : NprcPool W) (requestedIp poolStart poolEnd : UInt32) :
    NprcPool W × Bool :=
  let ipLbound := poolStart + p.cacheBase
  let ipUbound := poolStart + p.cacheBase + p.offerNext.toUInt32 - 1
  -- just in case
  let ipUbound := if ipUbound > poolEnd then poolEnd else ipUbound
  if requestedIp ≥ ipLbound ∧ requestedIp ≤ ipUbound then
    let offset := requestedIp - poolStart - p.cacheBase
    if offset.toNat < W ∧ p.ackBitmap &&& (1#W <<< offset.toNat) = 0#W then
      let p := { p with ackBitmap := p.ackBitmap ||| (1#W <<< offset.toNat) }
      (NprcPool.cleanUp p.offerNext.toNat p, true)
    else (p, false)
  else (p, false)

/-- The pool calls of `dhcp_process_message_nprc`; the time and a DECLINE are
ignored. -/
def nprcCalls : PoolCalls (NprcPool W) where
  discover server _ :=
    let found :=
      dhcpNprcFindAvailableIp server.pool server.config.poolStart server.config.poolEnd
    ({ server with pool := found.1 }, found.2)
  request server ip _ :=
    let committed :=
      dhcpNprcCommitIp server.pool ip server.config.poolStart server.config.poolEnd
    ({ server with pool := committed.1 }, committed.2)
  decline server _ := server

/-- The pool that `dhcp_init_server_nprc` sets up. -/
def NprcPool.init (W : ℕ) : NprcPool W := ⟨0, 0, 0⟩

/-- `dhcp_init_server_nprc`. -/
def dhcpInitServerNprc (W : ℕ) (config : DhcpConfig) : DhcpServer (NprcPool W) where
  config := config
  pool := NprcPool.init W

/-- `dhcp_process_message_nprc`. -/
def dhcpProcessMessageNprc (server : DhcpServer (NprcPool W)) (a : Arrival) :
    DhcpServer (NprcPool W) × Option DhcpMessage :=
  processMessage nprcCalls server a

end Operations

/-! ## Single bits -/

section Bits

variable {W i k : ℕ}

/-- The test of one bit. -/
theorem and_one_shiftLeft_eq_zero_iff {bits : BitVec W} (hk : k < W) :
    bits &&& (1#W <<< k) = 0#W ↔ bits.getLsbD k = false := by
  rw [← BitVec.twoPow_eq, BitVec.and_twoPow]
  have hnonzero : BitVec.twoPow W k ≠ 0#W := by
    intro hzero
    have hbit := congrArg (fun b : BitVec W => b.getLsbD k) hzero
    simp [hk] at hbit
  cases hbit : bits.getLsbD k with
  | true => simp [hnonzero]
  | false => simp

/-- Setting one bit sets that bit and no other. -/
theorem getLsbD_or_one_shiftLeft {bits : BitVec W} (hk : k < W) :
    (bits ||| (1#W <<< k)).getLsbD i = true ↔ i = k ∨ bits.getLsbD i = true := by
  rw [← BitVec.twoPow_eq, BitVec.getLsbD_or, Bool.or_eq_true, BitVec.getLsbD_twoPow,
    Bool.and_eq_true, decide_eq_true_iff, decide_eq_true_iff, and_iff_right hk, or_comm, eq_comm]

end Bits

/-! ## The pool as a window -/

/-- The number of offers made so far. -/
def NprcPool.offered {W : ℕ} (p : NprcPool W) : ℕ := p.cacheBase.toNat + p.offerNext.toNat

section Arithmetic

variable {W : ℕ} {p : NprcPool W}

theorem NprcPool.flushed_of_lt (hroom : p.offerNext.toNat < W) : p.flushed = p :=
  if_neg (Nat.not_le_of_lt hroom)

/-- The fields of a flushed pool, as long as the base does not wrap. -/
theorem NprcPool.flushed_of_full (hword : W = 32 ∨ W = 64) (hfull : p.offerNext.toNat = W)
    (hsmall : p.offered < 2 ^ 32) :
    p.flushed.cacheBase.toNat = p.cacheBase.toNat + bitmapFlush W ∧
      p.flushed.offerNext.toNat = W - bitmapFlush W ∧
      p.flushed.ackBitmap = p.ackBitmap >>> bitmapFlush W := by
  have hflush : bitmapFlush W < 256 ∧ bitmapFlush W ≤ W := by
    unfold bitmapFlush
    omega
  have hbase : (UInt32.ofNat (bitmapFlush W)).toNat = bitmapFlush W :=
    UInt32.toNat_ofNat_of_lt' (hflush.1.trans (by decide))
  have hcount : (UInt8.ofNat (bitmapFlush W)).toNat = bitmapFlush W :=
    UInt8.toNat_ofNat_of_lt' hflush.1
  unfold NprcPool.offered at hsmall
  rw [NprcPool.flushed, if_pos hfull.ge]
  refine ⟨?_, ?_, rfl⟩
  · show (p.cacheBase + UInt32.ofNat (bitmapFlush W)).toNat = _
    rw [UInt32.toNat_add, hbase, Nat.mod_eq_of_lt (by omega)]
  · show (p.offerNext - UInt8.ofNat (bitmapFlush W)).toNat = _
    rw [UInt8.toNat_sub_of_le _ _ (UInt8.le_iff_toNat_le.mpr (by omega)), hcount, hfull]

/-- The flush moves no offer. -/
theorem NprcPool.offered_flushed (hword : W = 32 ∨ W = 64) (hnext : p.offerNext.toNat ≤ W)
    (hsmall : p.offered < 2 ^ 32) :
    p.flushed.offered = p.offered ∧ p.flushed.offerNext.toNat < W := by
  obtain hroom | hfull := Nat.lt_or_eq_of_le hnext
  · rw [NprcPool.flushed_of_lt hroom]
    exact ⟨rfl, hroom⟩
  · obtain ⟨hbase, hcount, -⟩ := NprcPool.flushed_of_full hword hfull hsmall
    unfold NprcPool.offered
    rw [hbase, hcount, hfull]
    unfold bitmapFlush
    omega

/-- One iteration of the clean-up loop moves no offer. -/
theorem NprcPool.slide_toNat (hnext : p.offerNext ≠ 0) (hsmall : p.offered < 2 ^ 32) :
    (p.cacheBase + 1).toNat = p.cacheBase.toNat + 1 ∧
      (p.offerNext - 1).toNat + 1 = p.offerNext.toNat := by
  have hpos : 1 ≤ p.offerNext.toNat :=
    Nat.one_le_iff_ne_zero.mpr fun hzero => hnext (UInt8.toNat_inj.mp hzero)
  have hone : (1 : UInt8) ≤ p.offerNext := UInt8.le_iff_toNat_le.mpr hpos
  unfold NprcPool.offered at hsmall
  rw [UInt32.toNat_add, UInt32.toNat_one, Nat.mod_eq_of_lt (by omega),
    UInt8.toNat_sub_of_le _ _ hone, UInt8.toNat_one]
  exact ⟨rfl, Nat.sub_add_cancel hpos⟩

end Arithmetic

/-- The pool as a window over the offers, given the acknowledged ones. -/
def NprcPool.window {W : ℕ} (acked : Set ℕ) (p : NprcPool W) : Window :=
  ⟨p.offered, p.cacheBase.toNat, acked⟩

/-- The bits are the acknowledged offers of a sound window, and all offers come from
the pool. -/
structure NprcPool.Tracks {W : ℕ} (poolStart poolEnd : UInt32) (acked : Set ℕ)
    (p : NprcPool W) : Prop where
  sound : (p.window acked).Sound W (bitmapFlush W)
  bit_iff : ∀ i, p.ackBitmap.getLsbD i = true ↔ p.cacheBase.toNat + i ∈ acked
  in_pool : poolStart.toNat + p.offered ≤ poolEnd.toNat + 1

section Tracks

variable {W : ℕ} {poolStart poolEnd : UInt32} {acked : Set ℕ} {p : NprcPool W}

theorem NprcPool.tracks_init (hle : poolStart ≤ poolEnd) :
    (NprcPool.init W).Tracks poolStart poolEnd ∅ where
  sound := Window.sound_empty
  bit_iff := fun i => by simp [NprcPool.init]
  in_pool := Nat.le_succ_of_le (UInt32.le_iff_toNat_le.mp hle)

theorem NprcPool.Tracks.offerNext_le (h : p.Tracks poolStart poolEnd acked) :
    p.offerNext.toNat ≤ W :=
  Nat.le_of_add_le_add_left h.sound.pushed_le

/-- No bit at or above `offer_next` is set. -/
theorem NprcPool.Tracks.getLsbD_eq_false (h : p.Tracks poolStart poolEnd acked) {i : ℕ}
    (hi : p.offerNext.toNat ≤ i) : p.ackBitmap.getLsbD i = false := by
  rw [← Bool.not_eq_true, h.bit_iff]
  intro hacked
  have hlt : p.cacheBase.toNat + i < p.cacheBase.toNat + p.offerNext.toNat :=
    h.sound.marked_lt _ hacked
  omega

variable (hword : W = 32 ∨ W = 64) (hend : poolEnd.toNat + 1 < 2 ^ 32)

include hword hend

/-- **The flush** drops the oldest quarter of a full window and makes room. -/
theorem NprcPool.Tracks.flushed (h : p.Tracks poolStart poolEnd acked) :
    p.flushed.Tracks poolStart poolEnd acked ∧ p.flushed.offered = p.offered ∧
      p.flushed.offerNext.toNat < W := by
  have hpool := h.in_pool
  have hsmall : p.offered < 2 ^ 32 := by omega
  obtain ⟨hoffered, hroom⟩ := NprcPool.offered_flushed hword h.offerNext_le hsmall
  refine ⟨?_, hoffered, hroom⟩
  obtain hlt | hfull := Nat.lt_or_eq_of_le h.offerNext_le
  · rw [NprcPool.flushed_of_lt hlt]
    exact h
  · obtain ⟨hbase, -, hbits⟩ := NprcPool.flushed_of_full hword hfull hsmall
    refine ⟨?_, fun i => ?_, ?_⟩
    · have hdrop := h.sound.drop (Nat.add_le_add_left hfull.ge _) (Nat.div_le_self W 4)
      unfold NprcPool.window
      rw [hoffered, hbase]
      exact hdrop
    · rw [hbits, BitVec.getLsbD_ushiftRight, h.bit_iff, hbase, Nat.add_assoc]
    · rw [hoffered]
      exact hpool

/-- **What an offer does**: it hands out the next address, or none is left. -/
theorem NprcPool.Tracks.find (h : p.Tracks poolStart poolEnd acked) :
    (dhcpNprcFindAvailableIp p poolStart poolEnd).1.Tracks poolStart poolEnd acked ∧
      (poolStart.toNat + p.offered ≤ poolEnd.toNat ∧
          (dhcpNprcFindAvailableIp p poolStart poolEnd).2.toNat =
            poolStart.toNat + p.offered ∧
          (dhcpNprcFindAvailableIp p poolStart poolEnd).1.offered = p.offered + 1 ∨
        poolEnd.toNat < poolStart.toNat + p.offered ∧
          (dhcpNprcFindAvailableIp p poolStart poolEnd).2 = 0 ∧
          (dhcpNprcFindAvailableIp p poolStart poolEnd).1.offered = p.offered) := by
  obtain ⟨htracks, hoffered, hroom⟩ := h.flushed hword hend
  have hpool := h.in_pool
  have hip : (poolStart + p.flushed.cacheBase + p.flushed.offerNext.toUInt32).toNat =
      poolStart.toNat + p.offered := by
    rw [← hoffered] at hpool ⊢
    unfold NprcPool.offered at hpool ⊢
    rw [UInt32.toNat_add, UInt32.toNat_add, UInt8.toNat_toUInt32, Nat.mod_add_mod,
      Nat.mod_eq_of_lt (by omega), Nat.add_assoc]
  have hnext : (p.flushed.offerNext + 1).toNat = p.flushed.offerNext.toNat + 1 := by
    rw [UInt8.toNat_add, UInt8.toNat_one, Nat.mod_eq_of_lt (by omega)]
  have hpushed : p.flushed.cacheBase.toNat + (p.flushed.offerNext + 1).toNat =
      p.offered + 1 := by
    rw [hnext, ← hoffered]
    rfl
  unfold dhcpNprcFindAvailableIp
  dsimp only
  split_ifs with hlast
  · rw [gt_iff_lt, UInt32.lt_iff_toNat_lt, hip] at hlast
    exact ⟨htracks, Or.inr ⟨hlast, rfl, hoffered⟩⟩
  · rw [gt_iff_lt, UInt32.not_lt, UInt32.le_iff_toNat_le, hip] at hlast
    refine ⟨⟨?_, htracks.bit_iff, ?_⟩, Or.inl ⟨hlast, hip, hpushed⟩⟩
    · have hpush := htracks.sound.push (Nat.add_lt_add_left hroom _)
      unfold NprcPool.window NprcPool.offered
      dsimp only
      rw [hnext]
      exact hpush
    · unfold NprcPool.offered
      dsimp only
      rw [hpushed]
      omega

omit hword in
/-- One iteration of the clean-up loop slides the window past an acknowledged offer. -/
theorem NprcPool.Tracks.slide (h : p.Tracks poolStart poolEnd acked)
    (hfront : p.ackBitmap &&& 1#W ≠ 0#W) (hwidth : 0 < W) :
    let p' : NprcPool W := ⟨p.cacheBase + 1, p.offerNext - 1, p.ackBitmap >>> 1⟩
    p'.Tracks poolStart poolEnd acked ∧ p'.offered = p.offered := by
  have hacked : p.cacheBase.toNat ∈ acked := by
    rw [← BitVec.shiftLeft_zero (1#W)] at hfront
    have hbit := (not_congr (and_one_shiftLeft_eq_zero_iff hwidth)).mp hfront
    rw [Bool.not_eq_false, h.bit_iff] at hbit
    exact hbit
  have hlt : p.cacheBase.toNat < p.cacheBase.toNat + p.offerNext.toNat :=
    h.sound.marked_lt _ hacked
  have hnext : p.offerNext ≠ 0 := by
    intro hzero
    rw [hzero] at hlt
    exact Nat.lt_irrefl _ hlt
  have hpool := h.in_pool
  obtain ⟨hbase, hcount⟩ := NprcPool.slide_toNat hnext (by omega)
  intro p'
  have hsame : p'.offered = p.offered := by
    show (p.cacheBase + 1).toNat + (p.offerNext - 1).toNat = p.offered
    rw [hbase, Nat.add_right_comm, Nat.add_assoc, hcount]
    rfl
  refine ⟨⟨?_, fun i => ?_, ?_⟩, hsame⟩
  · have hslide := h.sound.slide hacked
    unfold NprcPool.window
    rw [hsame, hbase]
    exact hslide
  · show (p.ackBitmap >>> 1).getLsbD i = true ↔ (p.cacheBase + 1).toNat + i ∈ acked
    rw [BitVec.getLsbD_ushiftRight, h.bit_iff, hbase, Nat.add_assoc]
  · rw [hsame]
    exact h.in_pool

omit hword in
/-- **The clean-up loop** loses nothing. -/
theorem NprcPool.Tracks.cleanUp (hwidth : 0 < W) (fuel : ℕ) :
    ∀ {p : NprcPool W}, p.Tracks poolStart poolEnd acked →
      (NprcPool.cleanUp fuel p).Tracks poolStart poolEnd acked ∧
        (NprcPool.cleanUp fuel p).offered = p.offered := by
  induction fuel with
  | zero => exact fun h => ⟨h, rfl⟩
  | succ fuel ih =>
      intro p h
      unfold NprcPool.cleanUp
      split_ifs with hmore
      · obtain ⟨hslide, hsame⟩ := h.slide hend hmore.1 hwidth
        obtain ⟨hrest, hsame'⟩ := ih hslide
        exact ⟨hrest, hsame'.trans hsame⟩
      · exact ⟨h, rfl⟩

end Tracks

/-- The loop has run to its end. -/
theorem NprcPool.cleanUp_done {W : ℕ} (fuel : ℕ) :
    ∀ {p : NprcPool W}, p.offerNext.toNat ≤ fuel →
      ¬ ((NprcPool.cleanUp fuel p).ackBitmap &&& 1#W ≠ 0#W ∧
        (NprcPool.cleanUp fuel p).offerNext ≠ 0) := by
  induction fuel with
  | zero =>
      rintro p hfuel ⟨-, hnext⟩
      exact hnext (UInt8.toNat_inj.mp (Nat.le_zero.mp hfuel))
  | succ fuel ih =>
      intro p hfuel
      unfold NprcPool.cleanUp
      split_ifs with hmore
      · have hpos : 1 ≤ p.offerNext.toNat :=
          Nat.one_le_iff_ne_zero.mpr fun hzero => hmore.2 (UInt8.toNat_inj.mp hzero)
        apply ih
        show (p.offerNext - 1).toNat ≤ fuel
        have hone : (1 : UInt8) ≤ p.offerNext := UInt8.le_iff_toNat_le.mpr hpos
        rw [UInt8.toNat_sub_of_le _ _ hone, UInt8.toNat_one]
        omega
      · exact hmore

section Commit

variable {W : ℕ} {poolStart poolEnd : UInt32} {acked : Set ℕ} {p : NprcPool W}

/-- The two bounds of `dhcp_nprc_commit_ip` are the window; the cap at `pool_end` never
applies. -/
theorem NprcPool.bounds_iff (ip : UInt32)
    (hpool : poolStart.toNat + p.offered ≤ poolEnd.toNat + 1)
    (hpos : 0 < poolStart.toNat + p.offered) (hend : poolEnd.toNat + 1 < 2 ^ 32) :
    let ipUbound := poolStart + p.cacheBase + p.offerNext.toUInt32 - 1
    (ip ≥ poolStart + p.cacheBase ∧ ip ≤ if ipUbound > poolEnd then poolEnd else ipUbound) ↔
      poolStart.toNat + p.cacheBase.toNat ≤ ip.toNat ∧
        ip.toNat < poolStart.toNat + p.offered := by
  unfold NprcPool.offered at hpool hpos ⊢
  have hlbound : (poolStart + p.cacheBase).toNat = poolStart.toNat + p.cacheBase.toNat := by
    rw [UInt32.toNat_add, Nat.mod_eq_of_lt (by omega)]
  have hsum : (poolStart + p.cacheBase + p.offerNext.toUInt32).toNat =
      poolStart.toNat + p.cacheBase.toNat + p.offerNext.toNat := by
    rw [UInt32.toNat_add, hlbound, UInt8.toNat_toUInt32, Nat.mod_eq_of_lt (by omega)]
  have hubound : (poolStart + p.cacheBase + p.offerNext.toUInt32 - 1).toNat =
      poolStart.toNat + p.cacheBase.toNat + p.offerNext.toNat - 1 := by
    have hone : (1 : UInt32) ≤ poolStart + p.cacheBase + p.offerNext.toUInt32 := by
      rw [UInt32.le_iff_toNat_le, hsum, UInt32.toNat_one]
      omega
    rw [UInt32.toNat_sub_of_le _ _ hone, hsum, UInt32.toNat_one]
  have hcap : ¬ poolStart + p.cacheBase + p.offerNext.toUInt32 - 1 > poolEnd := by
    rw [gt_iff_lt, UInt32.lt_iff_toNat_lt, hubound]
    omega
  intro ipUbound
  rw [if_neg hcap, ge_iff_le, UInt32.le_iff_toNat_le, UInt32.le_iff_toNat_le, hlbound, hubound]
  omega

/-- The offset of an address in the window. -/
theorem NprcPool.offset_toNat {ip : UInt32}
    (hlo : poolStart.toNat + p.cacheBase.toNat ≤ ip.toNat) :
    (ip - poolStart - p.cacheBase).toNat =
      ip.toNat - (poolStart.toNat + p.cacheBase.toNat) := by
  have hstart : poolStart ≤ ip := UInt32.le_iff_toNat_le.mpr (by omega)
  have hsub := UInt32.toNat_sub_of_le _ _ hstart
  rw [UInt32.toNat_sub_of_le _ _ (UInt32.le_iff_toNat_le.mpr (by omega)), hsub]
  omega

/-- **The answer to a commit.**  The address lies in the window and its bit is clear. -/
theorem NprcPool.commit_eq (ip : UInt32) (hnext : p.offerNext.toNat ≤ W)
    (hpool : poolStart.toNat + p.offered ≤ poolEnd.toNat + 1)
    (hpos : 0 < poolStart.toNat + p.offered) (hend : poolEnd.toNat + 1 < 2 ^ 32) :
    let offset := ip.toNat - (poolStart.toNat + p.cacheBase.toNat)
    dhcpNprcCommitIp p ip poolStart poolEnd =
      if (poolStart.toNat + p.cacheBase.toNat ≤ ip.toNat ∧
          ip.toNat < poolStart.toNat + p.offered) ∧ p.ackBitmap.getLsbD offset = false then
        (NprcPool.cleanUp p.offerNext.toNat
          { p with ackBitmap := p.ackBitmap ||| (1#W <<< offset) }, true)
      else (p, false) := by
  have hbounds := NprcPool.bounds_iff ip hpool hpos hend
  intro offset
  unfold dhcpNprcCommitIp
  dsimp only at hbounds ⊢
  by_cases hin : poolStart.toNat + p.cacheBase.toNat ≤ ip.toNat ∧
      ip.toNat < poolStart.toNat + p.offered
  · have hoffset : (ip - poolStart - p.cacheBase).toNat = offset := NprcPool.offset_toNat hin.1
    have hwidth : offset < W := by
      have hhi := hin.2
      unfold NprcPool.offered at hhi
      omega
    rw [if_pos (hbounds.mpr hin), hoffset]
    refine if_congr ?_ rfl rfl
    rw [and_iff_right hwidth, and_one_shiftLeft_eq_zero_iff hwidth, and_iff_right hin]
  · rw [if_neg (mt hbounds.mp hin), if_neg fun hacked => hin hacked.1]

/-- **What a commit does**: it acknowledges an offer in the window that was not
acknowledged before, or refuses and changes nothing. -/
theorem NprcPool.Tracks.commit (h : p.Tracks poolStart poolEnd acked) (ip : UInt32)
    (hpos : 0 < poolStart) (hend : poolEnd.toNat + 1 < 2 ^ 32) :
    (∃ k, ip.toNat = poolStart.toNat + k ∧ p.cacheBase.toNat ≤ k ∧ k < p.offered ∧
        k ∉ acked ∧ (dhcpNprcCommitIp p ip poolStart poolEnd).2 = true ∧
        (dhcpNprcCommitIp p ip poolStart poolEnd).1.Tracks poolStart poolEnd (insert k acked) ∧
        (dhcpNprcCommitIp p ip poolStart poolEnd).1.offered = p.offered) ∨
      (∀ k, ip.toNat = poolStart.toNat + k → p.cacheBase.toNat ≤ k → k < p.offered →
          k ∈ acked) ∧
        dhcpNprcCommitIp p ip poolStart poolEnd = (p, false) := by
  have hpos' : 0 < poolStart.toNat := UInt32.lt_iff_toNat_lt.mp hpos
  have hnext := h.offerNext_le
  -- the bit of the `k`-th offer says whether it is acknowledged
  have hclear : ∀ k, p.cacheBase.toNat ≤ k → ip.toNat = poolStart.toNat + k →
      (p.ackBitmap.getLsbD (ip.toNat - (poolStart.toNat + p.cacheBase.toNat)) = false ↔
        k ∉ acked) := by
    intro k hbase hk
    rw [← Bool.not_eq_true, h.bit_iff, hk, Nat.add_sub_add_left, Nat.add_sub_of_le hbase]
  rw [NprcPool.commit_eq ip hnext h.in_pool (by omega) hend]
  split_ifs with hacks
  · obtain ⟨⟨hlo, hhi⟩, hbit⟩ := hacks
    obtain ⟨k, hk⟩ := Nat.exists_eq_add_of_le (Nat.le_of_add_right_le hlo)
    have hbase : p.cacheBase.toNat ≤ k := by omega
    have hlt : k < p.offered := by omega
    have hoffset : ip.toNat - (poolStart.toNat + p.cacheBase.toNat) = k - p.cacheBase.toNat := by
      rw [hk, Nat.add_sub_add_left]
    have hwidth : k - p.cacheBase.toNat < W := by
      unfold NprcPool.offered at hlt
      omega
    rw [hoffset]
    have hmarked : NprcPool.Tracks poolStart poolEnd (insert k acked)
        { p with ackBitmap := p.ackBitmap ||| (1#W <<< (k - p.cacheBase.toNat)) } := by
      refine ⟨h.sound.mark hlt, fun i => ?_, h.in_pool⟩
      rw [getLsbD_or_one_shiftLeft hwidth, h.bit_iff, Set.mem_insert_iff]
      refine or_congr_left ⟨fun hi => ?_, fun hi => ?_⟩
      · rw [hi, Nat.add_sub_of_le hbase]
      · rw [← hi, Nat.add_sub_cancel_left]
    obtain ⟨htracks, hsame⟩ :=
      NprcPool.Tracks.cleanUp hend (by omega) p.offerNext.toNat hmarked
    exact Or.inl ⟨k, hk, hbase, hlt, (hclear k hbase hk).mp hbit, rfl, htracks, hsame⟩
  · refine Or.inr ⟨fun k hk hbase hlt => ?_, rfl⟩
    by_contra hnew
    exact hacks ⟨⟨by omega, by omega⟩, (hclear k hbase hk).mpr hnew⟩

end Commit

/-! ## The offer log -/

/-- A call of the pool. -/
inductive NprcCall where
  | findAvailableIp
  | commitIp (requestedIp : UInt32)

/-- A call that succeeded. -/
inductive NprcEvent where
  | offered (ip : UInt32)
  | acked (ip : UInt32)

/-- One call, and what it did. -/
def nprcCall {W : ℕ} (poolStart poolEnd : UInt32) (p : NprcPool W) :
    NprcCall → NprcPool W × Option NprcEvent
  | .findAvailableIp =>
      let found := dhcpNprcFindAvailableIp p poolStart poolEnd
      (found.1, if found.2 ≠ 0 then some (.offered found.2) else none)
  | .commitIp ip =>
      let committed := dhcpNprcCommitIp p ip poolStart poolEnd
      (committed.1, if committed.2 then some (.acked ip) else none)

/-- The addresses offered in a log, in order. -/
def offersOf (log : List (Option NprcEvent)) : List UInt32 :=
  log.filterMap fun
    | some (.offered ip) => some ip
    | _ => none

/-- The addresses acknowledged in a log, in order. -/
def acksOf (log : List (Option NprcEvent)) : List UInt32 :=
  log.filterMap fun
    | some (.acked ip) => some ip
    | _ => none

/-- The offers that were acknowledged, by their position. -/
def ackedOffers (poolStart : UInt32) (acks : List UInt32) : Set ℕ :=
  { k | ∃ ip ∈ acks, ip.toNat = poolStart.toNat + k }

/-- The pool has made the offers of the log, in order, and tracks its ACKs. -/
structure NprcPool.Logs {W : ℕ} (poolStart poolEnd : UInt32) (p : NprcPool W)
    (log : List (Option NprcEvent)) : Prop where
  tracks : p.Tracks poolStart poolEnd (ackedOffers poolStart (acksOf log))
  length_offers : (offersOf log).length = p.offered
  offer_eq : ∀ k ip, (offersOf log)[k]? = some ip → ip.toNat = poolStart.toNat + k
  nodup_acks : (acksOf log).Nodup

section Log

variable {W : ℕ} {poolStart poolEnd : UInt32} {p : NprcPool W} {log : List (Option NprcEvent)}

theorem offersOf_append (log log' : List (Option NprcEvent)) :
    offersOf (log ++ log') = offersOf log ++ offersOf log' :=
  List.filterMap_append

theorem ackedOffers_append {ip : UInt32} {k : ℕ} (hip : ip.toNat = poolStart.toNat + k)
    (acks : List UInt32) :
    ackedOffers poolStart (acks ++ [ip]) = insert k (ackedOffers poolStart acks) := by
  ext j
  unfold ackedOffers
  rw [Set.mem_insert_iff]
  constructor
  · rintro ⟨ip', hmem, hj⟩
    obtain hold | hnew := List.mem_append.mp hmem
    · exact Or.inr ⟨ip', hold, hj⟩
    · rw [List.mem_singleton.mp hnew, hip] at hj
      exact Or.inl (Nat.add_left_cancel hj).symm
  · rintro (rfl | ⟨ip', hmem, hj⟩)
    · exact ⟨ip, by simp, hip⟩
    · exact ⟨ip', List.mem_append_left _ hmem, hj⟩

theorem mem_ackedOffers_iff {ip : UInt32} {k : ℕ} (hip : ip.toNat = poolStart.toNat + k)
    (acks : List UInt32) : k ∈ ackedOffers poolStart acks ↔ ip ∈ acks := by
  constructor
  · rintro ⟨ip', hmem, hk⟩
    rwa [UInt32.toNat_inj.mp (hip.trans hk.symm)]
  · exact fun hmem => ⟨ip, hmem, hip⟩

/-- The offered addresses are an initial segment of the pool. -/
theorem NprcPool.Logs.mem_offersOf_iff (h : p.Logs poolStart poolEnd log) (ip : UInt32) :
    ip ∈ offersOf log ↔
      poolStart.toNat ≤ ip.toNat ∧ ip.toNat < poolStart.toNat + p.offered := by
  constructor
  · intro hmem
    obtain ⟨k, hk⟩ := List.mem_iff_getElem?.mp hmem
    have hlt : k < p.offered := h.length_offers ▸ (List.getElem?_eq_some_iff.mp hk).1
    have hip := h.offer_eq k ip hk
    omega
  · rintro ⟨hlo, hhi⟩
    have hlt : ip.toNat - poolStart.toNat < (offersOf log).length := by
      rw [h.length_offers]
      omega
    have hget := List.getElem?_eq_getElem hlt
    have hip := h.offer_eq _ _ hget
    have heq : ip = (offersOf log)[ip.toNat - poolStart.toNat] :=
      UInt32.toNat_inj.mp (by omega)
    rw [heq]
    exact List.getElem_mem hlt

/-- A call without effect. -/
theorem NprcPool.Logs.append_none {p' : NprcPool W} (h : p.Logs poolStart poolEnd log)
    (htracks : p'.Tracks poolStart poolEnd (ackedOffers poolStart (acksOf log)))
    (hoffered : p'.offered = p.offered) : p'.Logs poolStart poolEnd (log ++ [none]) := by
  have hoffers : offersOf (log ++ [none]) = offersOf log := by simp [offersOf]
  have hacks : acksOf (log ++ [none]) = acksOf log := by simp [acksOf]
  refine ⟨?_, ?_, ?_, ?_⟩
  · rw [hacks]
    exact htracks
  · rw [hoffers, hoffered]
    exact h.length_offers
  · rw [hoffers]
    exact h.offer_eq
  · rw [hacks]
    exact h.nodup_acks

/-- The next offer. -/
theorem NprcPool.Logs.append_offered {p' : NprcPool W} {ip : UInt32}
    (h : p.Logs poolStart poolEnd log)
    (htracks : p'.Tracks poolStart poolEnd (ackedOffers poolStart (acksOf log)))
    (hip : ip.toNat = poolStart.toNat + p.offered) (hoffered : p'.offered = p.offered + 1) :
    p'.Logs poolStart poolEnd (log ++ [some (.offered ip)]) := by
  have hoffers : offersOf (log ++ [some (.offered ip)]) = offersOf log ++ [ip] := by
    simp [offersOf]
  have hacks : acksOf (log ++ [some (.offered ip)]) = acksOf log := by simp [acksOf]
  refine ⟨?_, ?_, fun k ip' hk => ?_, ?_⟩
  · rw [hacks]
    exact htracks
  · rw [hoffers, hoffered, List.length_append, h.length_offers]
    rfl
  · rw [hoffers] at hk
    obtain hlt | hge := Nat.lt_or_ge k (offersOf log).length
    · rw [List.getElem?_append_left hlt] at hk
      exact h.offer_eq k ip' hk
    · rw [List.getElem?_append_right hge, List.getElem?_singleton] at hk
      split_ifs at hk with hlast
      obtain rfl := Option.some.inj hk
      rw [hip, ← h.length_offers]
      omega
  · rw [hacks]
    exact h.nodup_acks

/-- The first ACK of an offer. -/
theorem NprcPool.Logs.append_acked {p' : NprcPool W} {ip : UInt32} {k : ℕ}
    (h : p.Logs poolStart poolEnd log)
    (htracks : p'.Tracks poolStart poolEnd
      (insert k (ackedOffers poolStart (acksOf log))))
    (hip : ip.toNat = poolStart.toNat + k) (hnew : k ∉ ackedOffers poolStart (acksOf log))
    (hoffered : p'.offered = p.offered) :
    p'.Logs poolStart poolEnd (log ++ [some (.acked ip)]) := by
  have hoffers : offersOf (log ++ [some (.acked ip)]) = offersOf log := by simp [offersOf]
  have hacks : acksOf (log ++ [some (.acked ip)]) = acksOf log ++ [ip] := by simp [acksOf]
  rw [mem_ackedOffers_iff hip] at hnew
  refine ⟨?_, ?_, ?_, ?_⟩
  · rw [hacks, ackedOffers_append hip]
    exact htracks
  · rw [hoffers, hoffered]
    exact h.length_offers
  · rw [hoffers]
    exact h.offer_eq
  · rw [hacks, List.nodup_append_comm]
    exact List.nodup_cons.mpr ⟨hnew, h.nodup_acks⟩

theorem NprcPool.logs_init (hle : poolStart ≤ poolEnd) :
    (NprcPool.init W).Logs poolStart poolEnd [] where
  tracks := by
    have hnone : ackedOffers poolStart (acksOf []) = ∅ := by
      simp [ackedOffers, acksOf]
    rw [hnone]
    exact NprcPool.tracks_init hle
  length_offers := rfl
  offer_eq := fun k ip hk => by simp [offersOf] at hk
  nodup_acks := List.nodup_nil

variable (hword : W = 32 ∨ W = 64) (hpos : 0 < poolStart) (hend : poolEnd.toNat + 1 < 2 ^ 32)

include hword hpos hend

/-- **One call** appends to the log. -/
theorem NprcPool.Logs.step (h : p.Logs poolStart poolEnd log) (call : NprcCall) :
    (nprcCall poolStart poolEnd p call).1.Logs poolStart poolEnd
      (log ++ [(nprcCall poolStart poolEnd p call).2]) := by
  cases call with
  | findAvailableIp =>
      unfold nprcCall
      dsimp only
      obtain ⟨htracks, ⟨-, hip, hoffered⟩ | ⟨-, hnone, hoffered⟩⟩ := h.tracks.find hword hend
      · have hne : (dhcpNprcFindAvailableIp p poolStart poolEnd).2 ≠ 0 := by
          intro hzero
          have hpos' : 0 < poolStart.toNat := UInt32.lt_iff_toNat_lt.mp hpos
          rw [hzero, UInt32.toNat_zero] at hip
          omega
        rw [if_pos hne]
        exact h.append_offered htracks hip hoffered
      · rw [if_neg (not_not.mpr hnone)]
        exact h.append_none htracks hoffered
  | commitIp ip =>
      unfold nprcCall
      dsimp only
      obtain ⟨k, hip, -, -, hnew, hok, htracks, hoffered⟩ | ⟨-, hrefused⟩ :=
        h.tracks.commit ip hpos hend
      · rw [if_pos hok]
        exact h.append_acked htracks hip hnew hoffered
      · rw [hrefused]
        exact h.append_none h.tracks rfl

/-- **Every run** keeps the log. -/
theorem NprcPool.Logs.exec (h : p.Logs poolStart poolEnd log) (run : List NprcCall) :
    (exec (nprcCall poolStart poolEnd) p run).Logs poolStart poolEnd
      (log ++ outputs (nprcCall poolStart poolEnd) p run) :=
  exec_outputs_inv (fun (p : NprcPool W) log => p.Logs poolStart poolEnd log) (fun _ => True)
    (fun _ _ call hp _ => hp.step hword hpos hend call) run p log h fun _ _ => trivial

end Log

/-- A commit succeeds exactly on an address of the window that the log does not
acknowledge. -/
theorem NprcPool.Logs.commit_iff {W : ℕ} {poolStart poolEnd : UInt32} {p : NprcPool W}
    {log : List (Option NprcEvent)} (h : p.Logs poolStart poolEnd log) (hpos : 0 < poolStart)
    (hend : poolEnd.toNat + 1 < 2 ^ 32) (ip : UInt32) :
    (dhcpNprcCommitIp p ip poolStart poolEnd).2 = true ↔
      (poolStart.toNat + p.cacheBase.toNat ≤ ip.toNat ∧
        ip.toNat < poolStart.toNat + p.cacheBase.toNat + p.offerNext.toNat) ∧
      ip ∉ acksOf log := by
  obtain ⟨k, hip, hbase, hlt, hnew, hok, -, -⟩ | ⟨hall, hrefused⟩ :=
    h.tracks.commit ip hpos hend
  · rw [mem_ackedOffers_iff hip] at hnew
    unfold NprcPool.offered at hlt
    exact iff_of_true hok ⟨⟨by omega, by omega⟩, hnew⟩
  · rw [hrefused]
    refine iff_of_false (by simp) ?_
    rintro ⟨⟨hlo, hhi⟩, hnew⟩
    obtain ⟨k, hip⟩ := Nat.exists_eq_add_of_le (Nat.le_of_add_right_le hlo)
    have hacked := hall k hip (by omega) (by unfold NprcPool.offered; omega)
    exact hnew ((mem_ackedOffers_iff hip _).mp hacked)

/-- **The sliding window refines the offer log.**  After any run of the two calls the
`k`-th offer was `pool_start + k`; offers go on until `pool_end` and then stop for good;
an address is acknowledged only after its offer, and once; and a commit succeeds exactly
on an address of the window that has not been acknowledged. -/
theorem nprc_refines_offer_log {W : ℕ} (hword : W = 32 ∨ W = 64) (poolStart poolEnd : UInt32)
    (hpos : 0 < poolStart) (hle : poolStart ≤ poolEnd) (hend : poolEnd.toNat + 1 < 2 ^ 32)
    (run : List NprcCall) :
    let p := exec (nprcCall poolStart poolEnd) (NprcPool.init W) run
    let log := outputs (nprcCall poolStart poolEnd) (NprcPool.init W) run
    (∀ k ip, (offersOf log)[k]? = some ip → ip.toNat = poolStart.toNat + k) ∧
      ((dhcpNprcFindAvailableIp p poolStart poolEnd).2 = 0 ↔ poolEnd ∈ offersOf log) ∧
      (poolEnd ∈ offersOf log → ∀ more, offersOf (outputs (nprcCall poolStart poolEnd)
        (NprcPool.init W) (run ++ more)) = offersOf log) ∧
      (∀ ip, (dhcpNprcCommitIp p ip poolStart poolEnd).2 = true → ip ∈ offersOf log) ∧
      (acksOf log).Nodup ∧
      (∀ ip, (dhcpNprcCommitIp p ip poolStart poolEnd).2 = true ↔
        (poolStart.toNat + p.cacheBase.toNat ≤ ip.toNat ∧
          ip.toNat < poolStart.toNat + p.cacheBase.toNat + p.offerNext.toNat) ∧
        ip ∉ acksOf log) ∧
      p.offerNext.toNat ≤ W ∧
      ∀ i, p.offerNext.toNat ≤ i → p.ackBitmap.getLsbD i = false := by
  have hinit : (NprcPool.init W).Logs poolStart poolEnd [] := NprcPool.logs_init hle
  intro p log
  have hlogs : p.Logs poolStart poolEnd log := hinit.exec hword hpos hend run
  have hpos' : 0 < poolStart.toNat := UInt32.lt_iff_toNat_lt.mp hpos
  have hle' : poolStart.toNat ≤ poolEnd.toNat := UInt32.le_iff_toNat_le.mp hle
  have hpool := hlogs.tracks.in_pool
  have hcommit := hlogs.commit_iff hpos hend
  refine ⟨hlogs.offer_eq, ?_, ?_, ?_, hlogs.nodup_acks, hcommit, hlogs.tracks.offerNext_le,
    fun i hi => hlogs.tracks.getLsbD_eq_false hi⟩
  · rw [hlogs.mem_offersOf_iff]
    obtain ⟨-, ⟨hroom, hip, -⟩ | ⟨hlast, hnone, -⟩⟩ := hlogs.tracks.find hword hend
    · refine iff_of_false (fun hzero => ?_) (by omega)
      rw [hzero, UInt32.toNat_zero] at hip
      omega
    · exact iff_of_true hnone (by omega)
  · -- a longer run cannot have made more offers than the pool has addresses
    intro hlast more
    rw [hlogs.mem_offersOf_iff] at hlast
    have hmore := hlogs.exec hword hpos hend more
    have hlength := hmore.length_offers
    have hpool' := hmore.tracks.in_pool
    rw [offersOf_append, List.length_append, hlogs.length_offers] at hlength
    have hnone : offersOf (outputs (nprcCall poolStart poolEnd) p more) = [] :=
      List.eq_nil_of_length_eq_zero (by omega)
    rw [outputs_append, offersOf_append, hnone, List.append_nil]
  · intro ip hok
    obtain ⟨⟨hlo, hhi⟩, -⟩ := (hcommit ip).mp hok
    rw [hlogs.mem_offersOf_iff]
    unfold NprcPool.offered
    omega

/-- Both addresses of a small pool are offered, and no other. -/
theorem nprc_refines_offer_log_exhausted :
    let run := [.findAvailableIp, .commitIp 100, .findAvailableIp]
    (dhcpNprcFindAvailableIp (exec (nprcCall 100 101) (NprcPool.init 32) run) 100 101).2 = 0 := by
  intro run
  exact (nprc_refines_offer_log (Or.inl rfl) 100 101 (by decide) (by decide) (by decide)
    run).2.1.mpr (by decide +kernel)

/-! ## Slow clients -/

/-- The response is an OFFER. -/
def isOfferReply (response : Option DhcpMessage) : Bool :=
  response.any fun msg => dhcpGetMessageType msg (fun _ => 0) == dhcpOffer

/-- The number of OFFERs among the responses of a run. -/
def offerCount (responses : List (Option DhcpMessage)) : ℕ := responses.countP isOfferReply

theorem isOfferReply_iff {response : Option DhcpMessage} :
    isOfferReply response = true ↔ ∃ ip, IsOffer ip response := by
  cases response with
  | none => simp [isOfferReply]
  | some msg => simp [isOfferReply, isReply_some]

section Server

variable {W : ℕ} {server : DhcpServer (NprcPool W)} {acked : Set ℕ} {a : Arrival}

variable (hword : W = 32 ∨ W = 64) (hpos : 0 < server.config.poolStart)
  (hend : server.config.poolEnd.toNat + 1 < 2 ^ 32)

include hword hpos hend

/-- A DISCOVER is answered with the next address of the pool, if there is one. -/
theorem NprcPool.Tracks.isOffer_iff
    (h : server.pool.Tracks server.config.poolStart server.config.poolEnd acked)
    (hd : a.msgType = dhcpDiscover) {x : UInt32} :
    IsOffer x (dhcpProcessMessageNprc server a).2 ↔
      server.config.poolStart.toNat + server.pool.offered ≤ server.config.poolEnd.toNat ∧
        x.toNat = server.config.poolStart.toNat + server.pool.offered := by
  have hpos' : 0 < server.config.poolStart.toNat := UInt32.lt_iff_toNat_lt.mp hpos
  unfold dhcpProcessMessageNprc
  rw [isOffer_processMessage_iff, and_iff_right hd]
  show (dhcpNprcFindAvailableIp server.pool server.config.poolStart
    server.config.poolEnd).2 = x ∧ x ≠ 0 ↔ _
  obtain ⟨-, ⟨hroom, hfound, -⟩ | ⟨hlast, hnone, -⟩⟩ := h.find hword hend
  · rw [and_iff_right hroom, ← hfound, UInt32.toNat_inj]
    constructor
    · exact fun hx => hx.1.symm
    · rintro rfl
      refine ⟨rfl, fun hzero => ?_⟩
      rw [hzero, UInt32.toNat_zero] at hfound
      omega
  · rw [hnone]
    exact iff_of_false (fun hx => hx.2 hx.1.symm) (by omega)

/-- **The steps of a server.**  A message makes the next offer, acknowledges the offer
it asks for, or leaves offers and ACKs as they are. -/
theorem NprcPool.Tracks.step_cases (a : Arrival)
    (h : server.pool.Tracks server.config.poolStart server.config.poolEnd acked) :
    let next := (dhcpProcessMessageNprc server a).1
    let response := (dhcpProcessMessageNprc server a).2
    next.config = server.config ∧
      (isOfferReply response = true ∧
          (∀ x, IsOffer x response →
            x.toNat = server.config.poolStart.toNat + server.pool.offered) ∧
          next.pool.offered = server.pool.offered + 1 ∧
          next.pool.Tracks server.config.poolStart server.config.poolEnd acked ∨
        isOfferReply response = false ∧
          next.pool.offered = server.pool.offered ∧
          (next.pool.Tracks server.config.poolStart server.config.poolEnd acked ∨
            ∃ k ip, a.msgType = dhcpRequest ∧ a.requestedIp = some ip ∧
              ip.toNat = server.config.poolStart.toNat + k ∧
              next.pool.Tracks server.config.poolStart server.config.poolEnd
                (insert k acked))) := by
  have hquiet : a.msgType ≠ dhcpDiscover →
      isOfferReply (dhcpProcessMessageNprc server a).2 = false := by
    intro htype
    rw [← Bool.not_eq_true, isOfferReply_iff]
    rintro ⟨ip, hoffer⟩
    exact htype (isOffer_processMessage_iff.mp hoffer).1
  obtain hd | ⟨hr, ip, hip⟩ | hc | hi := a.cases
  · have hnext : (dhcpProcessMessageNprc server a).1 = (nprcCalls.discover server a).1 := by
      rw [dhcpProcessMessageNprc, processMessage_discover hd]
    have hoffer := fun x => h.isOffer_iff (x := x) hword hpos hend hd
    intro next response
    rw [show next = (nprcCalls.discover server a).1 from hnext]
    refine ⟨rfl, ?_⟩
    obtain ⟨htracks, ⟨hroom, hx, hoffered⟩ | ⟨hlast, -, hoffered⟩⟩ := h.find hword hend
    · have hsome : isOfferReply response = true :=
        isOfferReply_iff.mpr ⟨_, (hoffer _).mpr ⟨hroom, hx⟩⟩
      exact Or.inl ⟨hsome, fun x hx => ((hoffer x).mp hx).2, hoffered, htracks⟩
    · have hnone : isOfferReply response = false := by
        rw [← Bool.not_eq_true, isOfferReply_iff]
        rintro ⟨x, hx⟩
        exact absurd ((hoffer x).mp hx).1 (Nat.not_le_of_lt hlast)
      exact Or.inr ⟨hnone, hoffered, Or.inl htracks⟩
  · have hne : a.msgType ≠ dhcpDiscover := by rw [hr]; decide
    have hnext : (dhcpProcessMessageNprc server a).1 = (nprcCalls.request server ip a).1 := by
      rw [dhcpProcessMessageNprc, processMessage_request hr hip]
    intro next response
    rw [show next = (nprcCalls.request server ip a).1 from hnext]
    refine ⟨rfl, Or.inr ⟨hquiet hne, ?_⟩⟩
    obtain ⟨k, hk, -, -, -, -, htracks, hoffered⟩ | ⟨-, hrefused⟩ :=
      h.commit ip hpos hend
    · exact ⟨hoffered, Or.inr ⟨k, ip, hr, hip, hk, htracks⟩⟩
    · have hsame : (nprcCalls.request server ip a).1 = server := by
        simp only [nprcCalls, hrefused]
      rw [hsame]
      exact ⟨rfl, Or.inl h⟩
  · have hne : a.msgType ≠ dhcpDiscover := by rw [hc]; decide
    have hsame : (dhcpProcessMessageNprc server a).1 = server := by
      rw [dhcpProcessMessageNprc, processMessage_decline hc]
      rfl
    intro next response
    rw [show next = server from hsame]
    exact ⟨rfl, Or.inr ⟨hquiet hne, rfl, Or.inl h⟩⟩
  · have hsame : (dhcpProcessMessageNprc server a).1 = server := by
      rw [dhcpProcessMessageNprc, processMessage_ignored hi]
    intro next response
    rw [show next = server from hsame]
    exact ⟨rfl, Or.inr ⟨hquiet hi.1, rfl, Or.inl h⟩⟩

end Server

/-- The `k`-th offer is not acknowledged, and was followed by the offers among the
responses. -/
def NprcOutstanding {W : ℕ} (config : DhcpConfig) (k : ℕ) (server : DhcpServer (NprcPool W))
    (responses : List (Option DhcpMessage)) : Prop :=
  server.config = config ∧ ∃ acked,
    server.pool.Tracks config.poolStart config.poolEnd acked ∧ k ∉ acked ∧
      server.pool.offered = k + 1 + offerCount responses

theorem offerCount_append_singleton (responses : List (Option DhcpMessage))
    (response : Option DhcpMessage) :
    offerCount (responses ++ [response]) =
      offerCount responses + if isOfferReply response = true then 1 else 0 := by
  rw [offerCount, List.countP_append, List.countP_singleton]
  rfl

section Guarantee

variable {W : ℕ} {config : DhcpConfig}

variable (hword : W = 32 ∨ W = 64) (hpos : 0 < config.poolStart)
  (hend : config.poolEnd.toNat + 1 < 2 ^ 32)

include hword hpos hend

/-- Every reachable pool tracks some set of acknowledged offers. -/
theorem dhcpInitServerNprc_tracks (hle : config.poolStart ≤ config.poolEnd)
    (run : List Arrival) :
    (exec dhcpProcessMessageNprc (dhcpInitServerNprc W config) run).config = config ∧
      ∃ acked, (exec dhcpProcessMessageNprc (dhcpInitServerNprc W config) run).pool.Tracks
        config.poolStart config.poolEnd acked := by
  refine exec_inv (fun s : DhcpServer (NprcPool W) => s.config = config ∧
    ∃ acked, s.pool.Tracks config.poolStart config.poolEnd acked) (fun _ => True) ?_ run _
    ⟨rfl, ∅, NprcPool.tracks_init hle⟩ fun _ _ => trivial
  rintro s a ⟨rfl, acked, h⟩ -
  obtain ⟨hconfig, ⟨-, -, -, htracks⟩ | ⟨-, -, htracks | ⟨k, -, -, -, -, htracks⟩⟩⟩ :=
    h.step_cases hword hpos hend a
  · exact ⟨hconfig, acked, htracks⟩
  · exact ⟨hconfig, acked, htracks⟩
  · exact ⟨hconfig, insert k acked, htracks⟩

/-- **One message** keeps an offer outstanding, unless it is a REQUEST for it. -/
theorem NprcOutstanding.step {server : DhcpServer (NprcPool W)} {a : Arrival} {k : ℕ}
    {x : UInt32} {responses : List (Option DhcpMessage)}
    (h : NprcOutstanding config k server responses)
    (hx : x.toNat = config.poolStart.toNat + k)
    (hother : ¬ (a.msgType = dhcpRequest ∧ a.requestedIp = some x)) :
    NprcOutstanding config k (dhcpProcessMessageNprc server a).1
      (responses ++ [(dhcpProcessMessageNprc server a).2]) := by
  obtain ⟨rfl, acked, htracks, hnew, hcount⟩ := h
  unfold NprcOutstanding
  rw [offerCount_append_singleton]
  obtain ⟨hconfig, ⟨hoffer, -, hoffered, hnext⟩ | ⟨hquiet, hoffered, hnext⟩⟩ :=
    htracks.step_cases hword hpos hend a
  · refine ⟨hconfig, acked, hnext, hnew, ?_⟩
    rw [if_pos hoffer, hoffered, hcount, Nat.add_assoc]
  · rw [if_neg (by simp [hquiet]), Nat.add_zero, hoffered, hcount]
    obtain hsame | ⟨j, ip, hr, hip, hj, hacked⟩ := hnext
    · exact ⟨hconfig, acked, hsame, hnew, rfl⟩
    · refine ⟨hconfig, insert j acked, hacked, ?_, rfl⟩
      rintro (rfl | hmem)
      · rw [UInt32.toNat_inj.mp (hj.trans hx.symm)] at hip
        exact hother ⟨hr, hip⟩
      · exact hnew hmem

end Guarantee

/-- **The window guarantee for slow clients.**  The first REQUEST for an offered address
is acknowledged if fewer than `W - W/4` further offers were made since, whatever else
happened in between. -/
theorem nprc_window_guarantee {W : ℕ} (hword : W = 32 ∨ W = 64) (config : DhcpConfig)
    (hpos : 0 < config.poolStart) (hle : config.poolStart ≤ config.poolEnd)
    (hend : config.poolEnd.toNat + 1 < 2 ^ 32) (before between : List Arrival) (a b : Arrival)
    (x : UInt32)
    (hoffer : IsOffer x (dhcpProcessMessageNprc
      (exec dhcpProcessMessageNprc (dhcpInitServerNprc W config) before) a).2)
    (hfirst : ∀ c ∈ between, ¬ (c.msgType = dhcpRequest ∧ c.requestedIp = some x))
    (hfew : offerCount (outputs dhcpProcessMessageNprc (dhcpProcessMessageNprc
      (exec dhcpProcessMessageNprc (dhcpInitServerNprc W config) before) a).1 between) <
        W - W / 4)
    (hrequest : b.msgType = dhcpRequest) (hip : b.requestedIp = some x) :
    IsAck x (dhcpProcessMessageNprc (exec dhcpProcessMessageNprc (dhcpInitServerNprc W config)
      (before ++ a :: between)) b).2 := by
  obtain ⟨hconfig, acked, htracks⟩ := dhcpInitServerNprc_tracks hword hpos hend hle before
  rw [exec_append, exec_cons]
  generalize exec dhcpProcessMessageNprc (dhcpInitServerNprc W config) before =
    server at hconfig htracks hoffer hfew ⊢
  subst hconfig
  -- the offer is outstanding when it is made
  have hstart : x.toNat = server.config.poolStart.toNat + server.pool.offered ∧
      NprcOutstanding server.config server.pool.offered (dhcpProcessMessageNprc server a).1
        [] := by
    obtain ⟨hsame, ⟨-, hx, hoffered, hnext⟩ | ⟨hquiet, -⟩⟩ :=
      htracks.step_cases hword hpos hend a
    · refine ⟨hx x hoffer, hsame, acked, hnext, fun hmem => ?_, hoffered⟩
      exact Nat.lt_irrefl _ (htracks.sound.marked_lt _ hmem)
    · rw [isOfferReply_iff.mpr ⟨x, hoffer⟩] at hquiet
      simp at hquiet
  obtain ⟨hx, hout⟩ := hstart
  -- it is still outstanding, and in the window, when the REQUEST arrives
  have hlater : NprcOutstanding server.config server.pool.offered
      (exec dhcpProcessMessageNprc (dhcpProcessMessageNprc server a).1 between)
      ([] ++ outputs dhcpProcessMessageNprc (dhcpProcessMessageNprc server a).1 between) :=
    exec_outputs_inv (NprcOutstanding server.config server.pool.offered)
      (fun c : Arrival => ¬ (c.msgType = dhcpRequest ∧ c.requestedIp = some x))
      (fun _ _ _ hs hc => hs.step hword hpos hend hx hc) between _ [] hout hfirst
  obtain ⟨hconfig₂, acked₂, htracks₂, hnew, hcount⟩ := hlater
  rw [List.nil_append] at hcount
  have hin := htracks₂.sound.base_le_of_recent hnew (by
    show NprcPool.offered _ ≤ server.pool.offered + (W - W / 4)
    omega)
  refine isAck_processMessage_iff.mpr ⟨hrequest, hip, ?_⟩
  generalize exec dhcpProcessMessageNprc (dhcpProcessMessageNprc server a).1 between =
    server₂ at hconfig₂ htracks₂ hcount hin ⊢
  obtain ⟨k, -, -, -, -, hok, -, -⟩ | ⟨hall, -⟩ := htracks₂.commit x hpos hend
  · rw [← hconfig₂] at hok
    exact hok
  · exact absurd (hall _ hx hin (by omega)) hnew

/-- The second client's exchange does not take the first client's offer. -/
theorem nprc_window_guarantee_two_clients :
    let between := [discoverFrom 2 1, requestFrom 2 101 2]
    IsAck 100 (dhcpProcessMessageNprc (exec dhcpProcessMessageNprc
      (dhcpInitServerNprc 64 (poolConfig 100 103 10)) ([] ++ discoverFrom 1 0 :: between))
      (requestFrom 1 100 3)).2 := by
  intro between
  have hoffer : IsOffer 100 (dhcpProcessMessageNprc (exec dhcpProcessMessageNprc
      (dhcpInitServerNprc 64 (poolConfig 100 103 10)) []) (discoverFrom 1 0)).2 :=
    isOffer_processMessage_iff.mpr ⟨by decide, by decide +kernel, by decide⟩
  have hfew : offerCount (outputs dhcpProcessMessageNprc (dhcpProcessMessageNprc
      (exec dhcpProcessMessageNprc (dhcpInitServerNprc 64 (poolConfig 100 103 10)) [])
      (discoverFrom 1 0)).1 between) < 64 - 64 / 4 :=
    (List.countP_le_length).trans_lt (by decide)
  exact nprc_window_guarantee (Or.inr rfl) (poolConfig 100 103 10) (by decide) (by decide)
    (by decide) [] between (discoverFrom 1 0) (requestFrom 1 100 3) 100 hoffer (by decide) hfew
    (by decide) (by decide)

end BaremetalDhcp
