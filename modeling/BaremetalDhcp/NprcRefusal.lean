import BaremetalDhcp.Nprc

/-!
# A DISCOVER that the NPRC backend refuses

`dhcp_nprc_find_available_ip` flushes a full window before it looks whether the pool has
another address.  When it has none, the call returns 0 and the flush stays: the offers of
the oldest quarter are forgotten although nothing took their place.

`NprcPool.Fits` is the part of `NprcPool.Tracks` that needs no assumption on the bounds of
the pool: with `pool_start = 0` a commit may acknowledge addresses that were never
offered, but the window still stays inside the pool.

* `commit_flushed_iff` — a flush refuses the offers it drops and changes no other answer;
* `nprc_refusal_unseen_iff` — the refused DISCOVER goes unseen exactly when the window has
  room, or the quarter that is dropped was acknowledged.
-/

namespace BaremetalDhcp

open Machine

section Refusal

variable {W : ℕ} {poolStart poolEnd : UInt32} {p : NprcPool W}

/-- The pool has no address left to offer: the test `offered_ip > pool_end`. -/
def NprcPool.Exhausted (poolStart poolEnd : UInt32) (p : NprcPool W) : Prop :=
  poolStart + p.flushed.cacheBase + p.flushed.offerNext.toUInt32 > poolEnd

/-- The oldest quarter of the window is acknowledged. -/
def NprcPool.FrontAcked (p : NprcPool W) : Prop :=
  ∀ i < bitmapFlush W, p.ackBitmap.getLsbD i = true

/-- The window has at most one word of offers, and they come from the pool. -/
structure NprcPool.Fits (poolStart poolEnd : UInt32) (p : NprcPool W) : Prop where
  offerNext_le : p.offerNext.toNat ≤ W
  in_pool : p.offered = 0 ∨ poolStart.toNat + p.offered ≤ poolEnd.toNat + 1

/-- A refused DISCOVER leaves the flush behind. -/
theorem NprcPool.Exhausted.find_eq (h : p.Exhausted poolStart poolEnd) :
    dhcpNprcFindAvailableIp p poolStart poolEnd = (p.flushed, 0) :=
  if_pos h

theorem NprcPool.fits_init : (NprcPool.init W).Fits poolStart poolEnd where
  offerNext_le := Nat.zero_le W
  in_pool := Or.inl rfl

variable (hend : poolEnd.toNat + 1 < 2 ^ 32)

include hend

/-- No sum of the bounds and the counters wraps. -/
theorem NprcPool.Fits.start_add_lt (h : p.Fits poolStart poolEnd) :
    poolStart.toNat + p.offered < 2 ^ 32 := by
  obtain hnone | hpool := h.in_pool
  · rw [hnone]
    exact poolStart.toNat_lt
  · omega

/-- **An offer** keeps the window in the pool. -/
theorem NprcPool.Fits.find (hword : W = 32 ∨ W = 64) (h : p.Fits poolStart poolEnd) :
    (dhcpNprcFindAvailableIp p poolStart poolEnd).1.Fits poolStart poolEnd := by
  have hsmall := h.start_add_lt hend
  obtain ⟨hoffered, hroom⟩ := NprcPool.offered_flushed hword h.offerNext_le
    (Nat.lt_of_le_of_lt (Nat.le_add_left _ _) hsmall)
  unfold dhcpNprcFindAvailableIp
  dsimp only
  split_ifs with hlast
  · refine ⟨hroom.le, ?_⟩
    rw [hoffered]
    exact h.in_pool
  · have hnext : (p.flushed.offerNext + 1).toNat = p.flushed.offerNext.toNat + 1 := by
      rw [UInt8.toNat_add, UInt8.toNat_one, Nat.mod_eq_of_lt (by omega)]
    refine ⟨by dsimp only; omega, Or.inr ?_⟩
    rw [← hoffered] at hsmall
    unfold NprcPool.offered at hsmall ⊢
    rw [gt_iff_lt, UInt32.not_lt, UInt32.le_iff_toNat_le, UInt32.toNat_add, UInt32.toNat_add,
      UInt8.toNat_toUInt32, Nat.mod_add_mod, Nat.mod_eq_of_lt (by omega)] at hlast
    dsimp only
    omega

/-- The clean-up loop keeps the window in the pool. -/
theorem NprcPool.Fits.cleanUp (fuel : ℕ) :
    ∀ {p : NprcPool W}, p.Fits poolStart poolEnd →
      (NprcPool.cleanUp fuel p).Fits poolStart poolEnd := by
  induction fuel with
  | zero => exact fun h => h
  | succ fuel ih =>
      intro p h
      unfold NprcPool.cleanUp
      split_ifs with hmore
      · have hsmall := h.start_add_lt hend
        obtain ⟨hbase, hcount⟩ := NprcPool.slide_toNat hmore.2
          (Nat.lt_of_le_of_lt (Nat.le_add_left _ _) hsmall)
        have hnext := h.offerNext_le
        have hpool := h.in_pool
        unfold NprcPool.offered at hpool
        refine ih ⟨by dsimp only; omega, ?_⟩
        unfold NprcPool.offered
        dsimp only
        omega
      · exact h

/-- **A commit** keeps the window in the pool. -/
theorem NprcPool.Fits.commit (h : p.Fits poolStart poolEnd) (ip : UInt32) :
    (dhcpNprcCommitIp p ip poolStart poolEnd).1.Fits poolStart poolEnd := by
  have hclean : ∀ bits, (NprcPool.cleanUp p.offerNext.toNat
      { p with ackBitmap := bits }).Fits poolStart poolEnd := fun bits =>
    NprcPool.Fits.cleanUp hend _ ⟨h.offerNext_le, h.in_pool⟩
  unfold dhcpNprcCommitIp
  dsimp only
  generalize (ite (_ > poolEnd) poolEnd _ : UInt32) = ipUbound
  split_ifs
  · exact hclean _
  · exact h
  · exact h

/-- **Every reachable pool** has its window in the pool. -/
theorem NprcPool.fits_exec (hword : W = 32 ∨ W = 64) (run : List NprcCall) :
    (exec (nprcCall poolStart poolEnd) (NprcPool.init W) run).Fits poolStart poolEnd := by
  refine exec_inv (fun p : NprcPool W => p.Fits poolStart poolEnd) (fun _ => True) ?_ run _
    NprcPool.fits_init fun _ _ => trivial
  intro p call h _
  cases call with
  | findAvailableIp => exact h.find hend hword
  | commitIp ip => exact h.commit hend ip

/-- An address is acknowledged when it lies in the window and its bit is clear. -/
theorem NprcPool.Fits.commit_iff (h : p.Fits poolStart poolEnd) (hsome : 0 < p.offered)
    (ip : UInt32) :
    (dhcpNprcCommitIp p ip poolStart poolEnd).2 = true ↔
      (poolStart.toNat + p.cacheBase.toNat ≤ ip.toNat ∧
        ip.toNat < poolStart.toNat + p.offered) ∧
      p.ackBitmap.getLsbD (ip.toNat - (poolStart.toNat + p.cacheBase.toNat)) = false := by
  rw [NprcPool.commit_eq ip h.offerNext_le (h.in_pool.resolve_left hsome.ne')
    (Nat.add_pos_right _ hsome) hend]
  split_ifs with hacks
  · exact iff_of_true rfl hacks
  · exact iff_of_false not_false hacks

/-- **The flush** of a full window refuses the offers it drops and changes no other
answer. -/
theorem NprcPool.Fits.commit_flushed_iff (hword : W = 32 ∨ W = 64)
    (h : p.Fits poolStart poolEnd) (hfull : p.offerNext.toNat = W) (ip : UInt32) :
    (dhcpNprcCommitIp p.flushed ip poolStart poolEnd).2 = true ↔
      (dhcpNprcCommitIp p ip poolStart poolEnd).2 = true ∧
        poolStart.toNat + p.cacheBase.toNat + bitmapFlush W ≤ ip.toNat := by
  have hsmall := h.start_add_lt hend
  have hsome : 0 < p.offered := by
    unfold NprcPool.offered
    omega
  have hsmall' : p.offered < 2 ^ 32 := Nat.lt_of_le_of_lt (Nat.le_add_left _ _) hsmall
  obtain ⟨hbase, -, hbits⟩ := NprcPool.flushed_of_full hword hfull hsmall'
  obtain ⟨hoffered, hroom⟩ := NprcPool.offered_flushed hword hfull.le hsmall'
  have hfits : p.flushed.Fits poolStart poolEnd := ⟨hroom.le, hoffered.symm ▸ h.in_pool⟩
  rw [hfits.commit_iff hend (hoffered.symm ▸ hsome), h.commit_iff hend hsome, hoffered, hbase,
    hbits, BitVec.getLsbD_ushiftRight, ← Nat.add_assoc]
  constructor
  · rintro ⟨⟨hlo, hhi⟩, hclear⟩
    rw [show bitmapFlush W + (ip.toNat - (poolStart.toNat + p.cacheBase.toNat +
      bitmapFlush W)) = ip.toNat - (poolStart.toNat + p.cacheBase.toNat) by omega] at hclear
    exact ⟨⟨⟨by omega, hhi⟩, hclear⟩, hlo⟩
  · rintro ⟨⟨⟨-, hhi⟩, hclear⟩, hlo⟩
    rw [show bitmapFlush W + (ip.toNat - (poolStart.toNat + p.cacheBase.toNat +
      bitmapFlush W)) = ip.toNat - (poolStart.toNat + p.cacheBase.toNat) by omega]
    exact ⟨⟨hlo, hhi⟩, hclear⟩

/-- No answer changes exactly when the dropped quarter was acknowledged. -/
theorem NprcPool.Fits.flushed_unseen_iff (hword : W = 32 ∨ W = 64)
    (h : p.Fits poolStart poolEnd) (hfull : p.offerNext.toNat = W) :
    (∀ ip, ((dhcpNprcCommitIp p ip poolStart poolEnd).2 = true →
          (dhcpNprcCommitIp p.flushed ip poolStart poolEnd).2 = true) ∧
        ((dhcpNprcCommitIp p ip poolStart poolEnd).2 = false →
          (dhcpNprcCommitIp p.flushed ip poolStart poolEnd).2 = false)) ↔
      p.FrontAcked := by
  have hsmall := h.start_add_lt hend
  have hsome : 0 < p.offered := by
    unfold NprcPool.offered
    omega
  constructor
  · -- the address of a clear bit would be refused after the flush
    intro hsame i hi
    rw [← Bool.not_eq_false]
    intro hclear
    have hlt : bitmapFlush W ≤ W := Nat.div_le_self W 4
    have hin : p.cacheBase.toNat + i < p.offered := by
      unfold NprcPool.offered
      omega
    let ip := UInt32.ofNat (poolStart.toNat + p.cacheBase.toNat + i)
    have hip : ip.toNat = poolStart.toNat + p.cacheBase.toNat + i :=
      UInt32.toNat_ofNat_of_lt' (show poolStart.toNat + p.cacheBase.toNat + i < 2 ^ 32 by omega)
    have hacked : (dhcpNprcCommitIp p ip poolStart poolEnd).2 = true := by
      rw [h.commit_iff hend hsome, hip, Nat.add_sub_cancel_left]
      exact ⟨⟨Nat.le_add_right _ _, by omega⟩, hclear⟩
    have hlo := ((h.commit_flushed_iff hend hword hfull ip).mp ((hsame ip).1 hacked)).2
    omega
  · intro hfront ip
    rw [← Bool.not_eq_true, ← Bool.not_eq_true, h.commit_flushed_iff hend hword hfull ip]
    refine ⟨fun hacked => ⟨hacked, ?_⟩, fun hrefused hacked => hrefused hacked.1⟩
    obtain ⟨⟨hlo, -⟩, hclear⟩ := (h.commit_iff hend hsome ip).mp hacked
    by_contra hdropped
    have hset := hfront (ip.toNat - (poolStart.toNat + p.cacheBase.toNat)) (by omega)
    rw [hclear] at hset
    exact Bool.false_ne_true hset

end Refusal

/-- **When a refused DISCOVER goes unseen.**  In every reachable pool, a DISCOVER that is
refused because the pool is exhausted keeps the answer to every REQUEST exactly when the
window is not full, or its oldest quarter is acknowledged. -/
theorem nprc_refusal_unseen_iff {W : ℕ} (hword : W = 32 ∨ W = 64) (poolStart poolEnd : UInt32)
    (run : List NprcCall) :
    let p := exec (nprcCall poolStart poolEnd) (NprcPool.init W) run
    let refused := dhcpNprcFindAvailableIp p poolStart poolEnd
    p.Exhausted poolStart poolEnd →
      refused.2 = 0 ∧
      ((∀ ip, ((dhcpNprcCommitIp p ip poolStart poolEnd).2 = true →
            (dhcpNprcCommitIp refused.1 ip poolStart poolEnd).2 = true) ∧
          ((dhcpNprcCommitIp p ip poolStart poolEnd).2 = false →
            (dhcpNprcCommitIp refused.1 ip poolStart poolEnd).2 = false)) ↔
        p.offerNext.toNat < W ∨ p.FrontAcked) := by
  intro p refused hexhausted
  -- the last 32-bit address is never exceeded
  have hend : poolEnd.toNat + 1 < 2 ^ 32 := by
    have hlt := UInt32.lt_iff_toNat_lt.mp hexhausted
    have hmax := UInt32.toNat_lt
      (poolStart + p.flushed.cacheBase + p.flushed.offerNext.toUInt32)
    omega
  have hfits : p.Fits poolStart poolEnd := NprcPool.fits_exec hend hword run
  rw [show refused = (p.flushed, 0) from hexhausted.find_eq]
  refine ⟨rfl, ?_⟩
  obtain hroom | hfull := Nat.lt_or_eq_of_le hfits.offerNext_le
  · rw [NprcPool.flushed_of_lt hroom]
    exact iff_of_true (fun ip => ⟨id, id⟩) (Or.inl hroom)
  · rw [or_iff_right (Nat.not_lt_of_le hfull.ge)]
    exact hfits.flushed_unseen_iff hend hword hfull

/-- A pool of two addresses refuses a third client unseen. -/
theorem nprc_refusal_unseen_iff_small_pool :
    let p := exec (nprcCall 100 101) (NprcPool.init 64) [.findAvailableIp, .findAvailableIp]
    ∀ ip, (dhcpNprcCommitIp p ip 100 101).2 = true →
      (dhcpNprcCommitIp (dhcpNprcFindAvailableIp p 100 101).1 ip 100 101).2 = true := by
  intro p ip
  have hunseen := (nprc_refusal_unseen_iff (Or.inr rfl) 100 101
    [.findAvailableIp, .findAvailableIp] (by unfold NprcPool.Exhausted; decide +kernel)).2.mpr
    (Or.inl (by decide +kernel))
  exact (hunseen ip).1

/-- The client that was offered the first address of a pool of 64 is acknowledged until
a client is refused because all 64 are offered. -/
theorem nprc_refusal_drops_first_offer :
    let p := exec (nprcCall 100 163) (NprcPool.init 64) (List.replicate 64 .findAvailableIp)
    let refused := dhcpNprcFindAvailableIp p 100 163
    p.Exhausted 100 163 ∧ refused.2 = 0 ∧
      (dhcpNprcCommitIp p 100 100 163).2 = true ∧
      (dhcpNprcCommitIp refused.1 100 100 163).2 = false := by
  unfold NprcPool.Exhausted
  decide +kernel

end BaremetalDhcp
