import BaremetalDhcp.Server

/-!
# Bitmap ranges

`dhcp_bitmap_ops.c` and what the two bitmap backends share.  A range of addresses
is an array of 32-bit words, one bit per address, and a timer.  The model of the
word array is a function from word indices; `slotUsed` reads one bit of it, and
`slotUsed_dhcpBmSet` and `slotUsed_recycleWords` say what the two writers do.

The scan of the two `peek` functions is `peekLoop`.  Its counter only grows, so it
visits each slot of a range at most once between two recycles.
-/

namespace BaremetalDhcp

/-- `dhcp_bmrange_t`. -/
structure BmRange where
  ips : ℕ → UInt32
  expireTime : UInt32

/-! ## Bit operations -/

/-- `dhcp_bm_set`. -/
def dhcpBmSet (ips : ℕ → UInt32) (bit : UInt32) : ℕ → UInt32 :=
  Function.update ips (bit >>> 5).toNat (ips (bit >>> 5).toNat ||| (1 <<< (bit &&& 31)))

/-- `dhcp_bm_clear`. -/
def dhcpBmClear (ips : ℕ → UInt32) (bit : UInt32) : ℕ → UInt32 :=
  Function.update ips (bit >>> 5).toNat (ips (bit >>> 5).toNat &&& ~~~(1 <<< (bit &&& 31)))

/-- `dhcp_bm_used`: a slot outside the range counts as used. -/
def dhcpBmUsed (ips : ℕ → UInt32) (bit rangeSize : UInt32) : Bool :=
  if bit ≥ rangeSize then true
  else ((ips (bit >>> 5).toNat >>> (bit &&& 31)) &&& 1) ≠ 0

/-- `dhcp_bm_counter_to_ip`. -/
def dhcpBmCounterToIp (rangeStart counter : UInt32) : UInt32 := rangeStart + counter

/-- `dhcp_bm_range_full`. -/
def dhcpBmRangeFull (counter rangeSize : UInt32) : Bool := counter ≥ rangeSize

/-- The `kmemset` of the two recycle functions: the words of the range are zeroed. -/
def recycleWords (ips : ℕ → UInt32) (rangeSize : UInt32) : ℕ → UInt32 :=
  fun w => if w < ((rangeSize + 31) / 32).toNat then 0 else ips w

/-- A range with its bits and its timer cleared. -/
def BmRange.recycle (range : BmRange) (rangeSize : UInt32) : BmRange where
  ips := recycleWords range.ips rangeSize
  expireTime := 0

/-- The bit of a slot. -/
def slotUsed (ips : ℕ → UInt32) (slot : ℕ) : Bool :=
  (ips (slot / 32)).toNat.testBit (slot % 32)

theorem toNat_wordIndex (bit : UInt32) : (bit >>> 5).toNat = bit.toNat / 32 := by
  rw [UInt32.toNat_shiftRight]
  exact Nat.shiftRight_eq_div_pow _ 5

theorem toNat_bitIndex (bit : UInt32) : (bit &&& 31).toNat = bit.toNat % 32 := by
  rw [UInt32.toNat_and]
  exact Nat.and_two_pow_sub_one_eq_mod _ 5

/-- Inside the range, `dhcp_bm_used` reads the bit of the slot. -/
theorem dhcpBmUsed_eq_slotUsed {ips : ℕ → UInt32} {bit rangeSize : UInt32}
    (h : bit < rangeSize) : dhcpBmUsed ips bit rangeSize = slotUsed ips bit.toNat := by
  have hread : ∀ w : UInt32, (((w >>> (bit &&& 31)) &&& 1) ≠ 0 ↔
      w.toNat.testBit (bit.toNat % 32) = true) := by
    intro w
    rw [Ne, ← UInt32.toNat_inj, UInt32.toNat_and, UInt32.toNat_shiftRight, toNat_bitIndex,
      Nat.mod_mod]
    unfold Nat.testBit
    rw [bne_iff_ne, Nat.and_comm]
    rfl
  unfold dhcpBmUsed slotUsed
  rw [if_neg (UInt32.not_le.mpr h), toNat_wordIndex, Bool.eq_iff_iff, decide_eq_true_iff]
  exact hread _

theorem dhcpBmUsed_of_le {ips : ℕ → UInt32} {bit rangeSize : UInt32} (h : rangeSize ≤ bit) :
    dhcpBmUsed ips bit rangeSize = true := by
  unfold dhcpBmUsed
  rw [if_pos h]

/-- The mask of a slot has one bit. -/
theorem toNat_slotMask (bit : UInt32) :
    ((1 : UInt32) <<< (bit &&& 31)).toNat = 2 ^ (bit.toNat % 32) := by
  have hlt : 2 ^ (bit.toNat % 32) < 2 ^ 32 :=
    Nat.pow_lt_pow_right (by decide) (Nat.mod_lt _ (by decide))
  rw [UInt32.toNat_shiftLeft, toNat_bitIndex, Nat.mod_mod, UInt32.toNat_one, Nat.shiftLeft_eq,
    Nat.one_mul, Nat.mod_eq_of_lt hlt]

/-- A slot is given by its word and its bit in the word. -/
theorem eq_iff_bitIndex {slot slot' : ℕ} (hword : slot / 32 = slot' / 32) :
    slot = slot' ↔ slot' % 32 = slot % 32 := by
  omega

/-- Setting a slot marks that slot and no other. -/
theorem slotUsed_dhcpBmSet (ips : ℕ → UInt32) (bit : UInt32) (slot : ℕ) :
    slotUsed (dhcpBmSet ips bit) slot = true ↔ slot = bit.toNat ∨ slotUsed ips slot = true := by
  unfold slotUsed dhcpBmSet
  rw [toNat_wordIndex]
  by_cases hword : slot / 32 = bit.toNat / 32
  · rw [hword, Function.update_self, UInt32.toNat_or, toNat_slotMask, Nat.testBit_or,
      Bool.or_eq_true, Nat.testBit_two_pow, decide_eq_true_iff, or_comm, eq_iff_bitIndex hword]
  · rw [Function.update_of_ne hword]
    have hne : slot ≠ bit.toNat := fun hslot => hword (by rw [hslot])
    exact (or_iff_right hne).symm

/-- Clearing a slot frees that slot and no other. -/
theorem slotUsed_dhcpBmClear (ips : ℕ → UInt32) (bit : UInt32) (slot : ℕ) :
    slotUsed (dhcpBmClear ips bit) slot = true ↔ slot ≠ bit.toNat ∧ slotUsed ips slot = true := by
  have hnot : (~~~ ((1 : UInt32) <<< (bit &&& 31))).toNat =
      2 ^ 32 - (2 ^ (bit.toNat % 32) + 1) := by
    rw [← UInt32.toNat_toBitVec, UInt32.toBitVec_not, BitVec.toNat_not, UInt32.toNat_toBitVec,
      toNat_slotMask, Nat.sub_sub, Nat.add_comm]
  have hlt : 2 ^ (bit.toNat % 32) < 2 ^ 32 :=
    Nat.pow_lt_pow_right (by decide) (Nat.mod_lt _ (by decide))
  have hbit : slot % 32 < 32 := Nat.mod_lt _ (by decide)
  unfold slotUsed dhcpBmClear
  rw [toNat_wordIndex]
  by_cases hword : slot / 32 = bit.toNat / 32
  · rw [hword, Function.update_self, UInt32.toNat_and, hnot, Nat.testBit_and,
      Nat.testBit_two_pow_sub_succ hlt, Nat.testBit_two_pow, decide_eq_true hbit, Bool.true_and,
      Bool.and_eq_true, Bool.not_eq_true', decide_eq_false_iff_not, and_comm, Ne,
      eq_iff_bitIndex hword]
  · rw [Function.update_of_ne hword]
    have hne : slot ≠ bit.toNat := fun hslot => hword (by rw [hslot])
    exact (and_iff_right hne).symm

/-- Recycling clears the slots of the words it zeroes. -/
theorem slotUsed_recycleWords_eq (ips : ℕ → UInt32) (rangeSize : UInt32) (slot : ℕ) :
    slotUsed (recycleWords ips rangeSize) slot =
      if slot / 32 < ((rangeSize + 31) / 32).toNat then false else slotUsed ips slot := by
  unfold slotUsed recycleWords
  split_ifs
  · simp
  · rfl

/-- The number of words that are zeroed, unless rounding up overflows. -/
theorem toNat_recycledWords {rangeSize : UInt32} (hfits : rangeSize.toNat + 31 < 2 ^ 32) :
    ((rangeSize + 31) / 32).toNat = (rangeSize.toNat + 31) / 32 := by
  rw [UInt32.toNat_div, UInt32.toNat_add]
  exact congrArg (· / 32) (Nat.mod_eq_of_lt hfits)

/-- So every slot of the range is free after a recycle. -/
theorem slotUsed_recycleWords_of_fits (ips : ℕ → UInt32) {rangeSize : UInt32}
    (hfits : rangeSize.toNat + 31 < 2 ^ 32) {slot : ℕ} (hslot : slot < rangeSize.toNat) :
    slotUsed (recycleWords ips rangeSize) slot = false := by
  rw [slotUsed_recycleWords_eq, toNat_recycledWords hfits, if_pos (by omega)]

/-- Recycling never marks a slot. -/
theorem slotUsed_recycleWords {ips : ℕ → UInt32} {rangeSize : UInt32} {slot : ℕ}
    (h : slotUsed (recycleWords ips rangeSize) slot = true) : slotUsed ips slot = true := by
  rw [slotUsed_recycleWords_eq] at h
  split_ifs at h
  exact h

/-! ## Bitmaps that look alike -/

/-- Two word arrays mark the same slots of a range. -/
def SameBits (rangeSize : UInt32) (ips ips' : ℕ → UInt32) : Prop :=
  ∀ slot < rangeSize.toNat, slotUsed ips slot = slotUsed ips' slot

namespace SameBits

variable {rangeSize : UInt32} {ips ips' : ℕ → UInt32}

theorem used (h : SameBits rangeSize ips ips') (bit : UInt32) :
    dhcpBmUsed ips bit rangeSize = dhcpBmUsed ips' bit rangeSize := by
  by_cases hin : bit < rangeSize
  · rw [dhcpBmUsed_eq_slotUsed hin, dhcpBmUsed_eq_slotUsed hin]
    exact h _ (UInt32.lt_iff_toNat_lt.mp hin)
  · rw [dhcpBmUsed_of_le (UInt32.not_lt.mp hin), dhcpBmUsed_of_le (UInt32.not_lt.mp hin)]

theorem set (h : SameBits rangeSize ips ips') (bit : UInt32) :
    SameBits rangeSize (dhcpBmSet ips bit) (dhcpBmSet ips' bit) := by
  intro slot hslot
  rw [Bool.eq_iff_iff, slotUsed_dhcpBmSet, slotUsed_dhcpBmSet, h slot hslot]

theorem recycle (h : SameBits rangeSize ips ips') :
    SameBits rangeSize (recycleWords ips rangeSize) (recycleWords ips' rangeSize) := by
  intro slot hslot
  rw [slotUsed_recycleWords_eq, slotUsed_recycleWords_eq, h slot hslot]

/-- Recycled ranges look alike, whatever was in them. -/
theorem of_recycle (hfits : rangeSize.toNat + 31 < 2 ^ 32) (ips ips' : ℕ → UInt32) :
    SameBits rangeSize (recycleWords ips rangeSize) (recycleWords ips' rangeSize) := by
  intro slot hslot
  rw [slotUsed_recycleWords_of_fits ips hfits hslot,
    slotUsed_recycleWords_of_fits ips' hfits hslot]

end SameBits

/-! ## The scan -/

/-- The loop of the two `peek` functions, from the current counter and candidate:
the counter and candidate it ends with. -/
def peekLoop (ips : ℕ → UInt32) (rangeStart rangeSize : UInt32) :
    ℕ → UInt32 → UInt32 → UInt32 × UInt32
  | 0, counter, candidate => (counter, candidate)
  | fuel + 1, counter, candidate =>
      if counter < rangeSize then
        let candidate := dhcpBmCounterToIp rangeStart counter
        if ¬ dhcpBmUsed ips (candidate - rangeStart) rangeSize then (counter + 1, candidate)
        else peekLoop ips rangeStart rangeSize fuel (counter + 1) candidate
      else (counter, candidate)

/-- The scan from a counter; it makes at most `range_size` iterations. -/
def peekScan (ips : ℕ → UInt32) (rangeStart rangeSize counter : UInt32) : UInt32 × UInt32 :=
  peekLoop ips rangeStart rangeSize rangeSize.toNat counter 0

section Scan

variable {ips ips' : ℕ → UInt32} {rangeStart rangeSize : UInt32}

/-- The scan reads the words only through `dhcp_bm_used`. -/
theorem SameBits.peekScan (h : SameBits rangeSize ips ips') (rangeStart counter : UInt32) :
    peekScan ips rangeStart rangeSize counter = peekScan ips' rangeStart rangeSize counter := by
  have hloop : ∀ (fuel : ℕ) (counter candidate : UInt32),
      peekLoop ips rangeStart rangeSize fuel counter candidate =
        peekLoop ips' rangeStart rangeSize fuel counter candidate := by
    intro fuel
    induction fuel with
    | zero => intro counter candidate; rfl
    | succ fuel ih =>
        intro counter candidate
        simp only [peekLoop, h.used, ih]
  exact hloop _ _ _

/-- **How a scan ends**: at the first free slot, or behind the last slot of the range
with every slot from the counter on in use. -/
inductive ScanResult (ips : ℕ → UInt32) (rangeStart rangeSize counter candidate : UInt32) :
    UInt32 × UInt32 → Prop
  | found (slot : UInt32) (hfrom : counter ≤ slot) (hslot : slot < rangeSize)
      (hfree : slotUsed ips slot.toNat = false)
      (hused : ∀ j : ℕ, counter.toNat ≤ j → j < slot.toNat → slotUsed ips j = true) :
      ScanResult ips rangeStart rangeSize counter candidate (slot + 1, rangeStart + slot)
  | exhausted (hlt : counter < rangeSize)
      (hused : ∀ j : ℕ, counter.toNat ≤ j → j < rangeSize.toNat → slotUsed ips j = true) :
      ScanResult ips rangeStart rangeSize counter candidate
        (rangeSize, rangeStart + (rangeSize - 1))
  | full (hge : rangeSize ≤ counter) :
      ScanResult ips rangeStart rangeSize counter candidate (counter, candidate)

theorem toNat_counter_succ {counter : UInt32} (hlt : counter < rangeSize) :
    (counter + 1).toNat = counter.toNat + 1 := by
  have hsize := rangeSize.toNat_lt
  rw [UInt32.lt_iff_toNat_lt] at hlt
  rw [UInt32.toNat_add, UInt32.toNat_one]
  omega

/-- The slot of an address that was formed from its slot. -/
theorem addr_sub_base (base slot : UInt32) : base + slot - base = slot := by
  rw [UInt32.add_comm]
  exact UInt32.add_sub_cancel _ _

theorem peekLoop_spec (fuel : ℕ) :
    ∀ counter candidate : UInt32, rangeSize.toNat - counter.toNat ≤ fuel →
      ScanResult ips rangeStart rangeSize counter candidate
        (peekLoop ips rangeStart rangeSize fuel counter candidate) := by
  induction fuel with
  | zero =>
      intro counter candidate hfuel
      exact ScanResult.full (UInt32.le_iff_toNat_le.mpr (by omega))
  | succ fuel ih =>
      intro counter candidate hfuel
      by_cases hlt : counter < rangeSize
      swap
      · rw [peekLoop, if_neg hlt]
        exact ScanResult.full (UInt32.not_lt.mp hlt)
      have hnat := UInt32.lt_iff_toNat_lt.mp hlt
      have hsucc := toNat_counter_succ hlt
      have hback : dhcpBmCounterToIp rangeStart counter - rangeStart = counter :=
        addr_sub_base rangeStart counter
      simp only [peekLoop, if_pos hlt, hback, dhcpBmUsed_eq_slotUsed hlt]
      cases hslot : slotUsed ips counter.toNat with
      | false =>
          refine ScanResult.found counter (UInt32.le_refl _) hlt hslot fun j hj hj' => ?_
          omega
      | true =>
          -- the slot is in use, so the rest of the scan starts one further on
          have huse : ∀ {bound : ℕ}, (∀ j : ℕ, (counter + 1).toNat ≤ j → j < bound →
              slotUsed ips j = true) → ∀ j : ℕ, counter.toNat ≤ j → j < bound →
              slotUsed ips j = true := by
            intro bound hrest j hj hj'
            rcases Nat.eq_or_lt_of_le hj with rfl | hgt
            · exact hslot
            · exact hrest j (by omega) hj'
          have hrest := ih (counter + 1) (dhcpBmCounterToIp rangeStart counter) (by omega)
          simp only [not_true_eq_false, if_false]
          generalize peekLoop ips rangeStart rangeSize fuel (counter + 1)
            (dhcpBmCounterToIp rangeStart counter) = result at hrest ⊢
          cases hrest with
          | found slot hfrom hin hfree hused =>
              refine ScanResult.found slot ?_ hin hfree (huse hused)
              rw [UInt32.le_iff_toNat_le] at hfrom ⊢
              omega
          | exhausted hlt' hused => exact ScanResult.exhausted hlt (huse hused)
          | full hge =>
              have hlast : counter + 1 = rangeSize := by
                rw [← UInt32.toNat_inj, hsucc]
                rw [UInt32.le_iff_toNat_le, hsucc] at hge
                omega
              have hsub : rangeSize - 1 = counter := by
                rw [← hlast]
                exact UInt32.add_sub_cancel _ _
              have hend : ScanResult ips rangeStart rangeSize counter candidate
                  (rangeSize, rangeStart + (rangeSize - 1)) := by
                refine ScanResult.exhausted hlt (huse fun j hj hj' => ?_)
                rw [hlast] at hj
                omega
              rw [hsub] at hend
              rw [hlast]
              exact hend

theorem peekScan_spec (ips : ℕ → UInt32) (rangeStart rangeSize counter : UInt32) :
    ScanResult ips rangeStart rangeSize counter 0
      (peekScan ips rangeStart rangeSize counter) :=
  peekLoop_spec _ counter 0 (Nat.sub_le _ _)

/-- The scan stops at the first free slot. -/
theorem peekScan_of_first_free {counter slot : UInt32} (hfrom : counter ≤ slot)
    (hslot : slot < rangeSize) (hfree : slotUsed ips slot.toNat = false)
    (hused : ∀ j : ℕ, counter.toNat ≤ j → j < slot.toNat → slotUsed ips j = true) :
    peekScan ips rangeStart rangeSize counter = (slot + 1, rangeStart + slot) := by
  have hresult := peekScan_spec ips rangeStart rangeSize counter
  rw [UInt32.le_iff_toNat_le] at hfrom
  rw [UInt32.lt_iff_toNat_lt] at hslot
  generalize peekScan ips rangeStart rangeSize counter = result at hresult ⊢
  cases hresult with
  | found slot' hfrom' _ hfree' hused' =>
      rw [UInt32.le_iff_toNat_le] at hfrom'
      have hsame : slot' = slot := by
        apply UInt32.toNat_inj.mp
        rcases lt_trichotomy slot'.toNat slot.toNat with hlt | heq | hgt
        · rw [hused _ hfrom' hlt] at hfree'
          cases hfree'
        · exact heq
        · rw [hused' _ hfrom hgt] at hfree
          cases hfree
      rw [hsame]
  | exhausted _ hused' =>
      rw [hused' _ hfrom hslot] at hfree
      cases hfree
  | full hge =>
      rw [UInt32.le_iff_toNat_le] at hge
      omega

end Scan

end BaremetalDhcp
