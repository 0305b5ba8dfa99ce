import BaremetalDhcp.InitHistory
import BaremetalDhcp.Lib.LittleEndian

/-!
# Bitmaps in memory

In C a range of slots is a pointer to 32-bit words.  Three expressions have to agree on how
many words there are and where they lie: the word index `bit >> 5`, the mask
`1 << (bit & 31)`, and the number of bytes that the recycle functions clear.  `Bitmap` has
word arrays without an end; here the words lie in a memory of bytes, the operations say which
bytes they touch, and the array has exactly `(range_size + 31) / 32` words.

* `dhcpBmSetAt`, `dhcpBmClearAt`, `dhcpBmUsedAt` — the bit operations on an array at an
  address, each with its accesses.
* `dhcpBmpoolVarRecycleAt`, `dhcpBmpoolUniRecycleAt` — the recycle functions of the two
  pools, whose ranges are pointers.
* `wordsAt_dhcpBmSetAt`, `view_dhcpBmpoolVarRecycleAt`, `view_dhcpBmpoolUniRecycleAt` — seen
  through `wordsAt`, these are the operations that the pools are modelled with elsewhere.
* `slotSet` — what a bitmap stands for: a finite set of slots, into which a slot is
  inserted, from which it is erased, and which a recycle empties.

Nothing in C keeps the ranges of a BITMAP_UNITIME pool apart.  `BmPoolUniRef.Separate` says
that they do not overlap, and `BmPoolUniRef.separate_of_rows` that the rows of an array such as
`m_bmuni_ips` satisfy it.
-/

namespace BaremetalDhcp

open LittleEndian

/-! ## The operations -/

/-- An access to memory: the bytes from an address on. -/
structure Access where
  addr : ℕ
  size : ℕ

/-- The access stays inside the `n` bytes from `p` on. -/
def Access.Inside (a : Access) (p n : ℕ) : Prop := p ≤ a.addr ∧ a.addr + a.size ≤ p + n

/-- `&ips[bit >> 5]`. -/
def wordAddr (ips : ℕ) (bit : UInt32) : ℕ := ips + 4 * (bit >>> 5).toNat

/-- `dhcp_bm_set`: the word is loaded and stored. -/
def dhcpBmSetAt (mem : ℕ → UInt8) (ips : ℕ) (bit : UInt32) : (ℕ → UInt8) × List Access :=
  let word := wordAddr ips bit
  (store32 mem word (load32 mem word ||| (1 <<< (bit &&& 31))), [⟨word, 4⟩, ⟨word, 4⟩])

/-- `dhcp_bm_clear`. -/
def dhcpBmClearAt (mem : ℕ → UInt8) (ips : ℕ) (bit : UInt32) : (ℕ → UInt8) × List Access :=
  let word := wordAddr ips bit
  (store32 mem word (load32 mem word &&& ~~~(1 <<< (bit &&& 31))), [⟨word, 4⟩, ⟨word, 4⟩])

/-- `dhcp_bm_used`. -/
def dhcpBmUsedAt (mem : ℕ → UInt8) (ips : ℕ) (bit rangeSize : UInt32) : Bool × List Access :=
  if bit ≥ rangeSize then (true, [])
  else
    let word := wordAddr ips bit
    (((load32 mem word >>> (bit &&& 31)) &&& 1) ≠ 0, [⟨word, 4⟩])

/-- `dhcp_bmrange_t`, with its pointer. -/
structure BmRangeRef where
  ips : ℕ
  expireTime : UInt32

/-- `dhcp_bmpool_var_t`, with its pointer. -/
structure BmPoolVarRef where
  poolStart : UInt32
  leaseTime : UInt32
  counter : UInt32
  range : BmRangeRef
  rangeSize : UInt32

/-- `dhcp_bmpool_uni_t`, with its pointers. -/
structure BmPoolUniRef where
  poolStart : UInt32
  leaseTime : UInt32
  counter : UInt32
  ranges : ℕ → BmRangeRef
  rangeSize : UInt32
  numRanges : UInt8
  curRange : UInt8

/-- `((range_size + 31u) / 32u) * sizeof(uint32_t)`; the product is at most 2^29, so it is the
same for every `size_t`. -/
def recycledBytes (rangeSize : UInt32) : ℕ := ((rangeSize + 31) / 32).toNat * 4

/-- `dhcp_bmpool_var_recycle`. -/
def dhcpBmpoolVarRecycleAt (mem : ℕ → UInt8) (pool : BmPoolVarRef) :
    ((ℕ → UInt8) × BmPoolVarRef) × List Access :=
  ((fill mem pool.range.ips 0 (recycledBytes pool.rangeSize),
      { pool with range := { pool.range with expireTime := 0 }, counter := 0 }),
    [⟨pool.range.ips, recycledBytes pool.rangeSize⟩])

/-- `dhcp_bmpool_uni_recycle`. -/
def dhcpBmpoolUniRecycleAt (mem : ℕ → UInt8) (pool : BmPoolUniRef) (rangeIdx : UInt32) :
    ((ℕ → UInt8) × BmPoolUniRef) × List Access :=
  if rangeIdx.toNat ≥ pool.numRanges.toNat then ((mem, pool), [])
  else
    let range := pool.ranges rangeIdx.toNat
    ((fill mem range.ips 0 (recycledBytes pool.rangeSize),
        { pool with
          ranges := Function.update pool.ranges rangeIdx.toNat { range with expireTime := 0 } }),
      [⟨range.ips, recycledBytes pool.rangeSize⟩])

/-! ## Seen as arrays of words -/

section Views

variable (mem : ℕ → UInt8) (ips : ℕ) (bit rangeSize : UInt32)

theorem wordsAt_dhcpBmSetAt :
    wordsAt (dhcpBmSetAt mem ips bit).1 ips = dhcpBmSet (wordsAt mem ips) bit :=
  wordsAt_store32 _ _

theorem wordsAt_dhcpBmClearAt :
    wordsAt (dhcpBmClearAt mem ips bit).1 ips = dhcpBmClear (wordsAt mem ips) bit :=
  wordsAt_store32 _ _

theorem dhcpBmUsedAt_fst :
    (dhcpBmUsedAt mem ips bit rangeSize).1 = dhcpBmUsed (wordsAt mem ips) bit rangeSize := by
  unfold dhcpBmUsedAt dhcpBmUsed
  split_ifs
  · rfl
  · rfl

/-- The cleared bytes are the cleared words. -/
theorem wordsAt_recycled :
    wordsAt (fill mem ips 0 (recycledBytes rangeSize)) ips =
      recycleWords (wordsAt mem ips) rangeSize := by
  rw [recycledBytes, Nat.mul_comm]
  exact wordsAt_fill_zero _

/-- The range that a pointer stands for. -/
def BmRangeRef.view (range : BmRangeRef) : BmRange := ⟨wordsAt mem range.ips, range.expireTime⟩

def BmPoolVarRef.view (pool : BmPoolVarRef) : BmPoolVar where
  poolStart := pool.poolStart
  leaseTime := pool.leaseTime
  counter := pool.counter
  range := pool.range.view mem
  rangeSize := pool.rangeSize

/-- **Recycling in memory is recycling of the modelled pool.** -/
theorem view_dhcpBmpoolVarRecycleAt (pool : BmPoolVarRef) :
    let after := (dhcpBmpoolVarRecycleAt mem pool).1
    after.2.view after.1 = dhcpBmpoolVarRecycle (pool.view mem) := by
  simp only [dhcpBmpoolVarRecycleAt, BmPoolVarRef.view, BmRangeRef.view, dhcpBmpoolVarRecycle,
    BmRange.recycle, wordsAt_recycled]

end Views

/-! ## Arrays that end -/

/-- The words of an array that holds the slots of a range. -/
def bitmapWords (rangeSize : UInt32) : ℕ := (rangeSize.toNat + 31) / 32

section Bounds

variable {rangeSize : UInt32}

theorem recycledBytes_eq (hfits : rangeSize.toNat + 31 < 2 ^ 32) :
    recycledBytes rangeSize = 4 * bitmapWords rangeSize := by
  rw [recycledBytes, toNat_recycledWords hfits, bitmapWords, Nat.mul_comm]

/-- The word of a slot of the range is in the array, also in a partial last word. -/
theorem wordAddr_inside (ips : ℕ) {bit : UInt32} (hbit : bit < rangeSize) :
    (⟨wordAddr ips bit, 4⟩ : Access).Inside ips (4 * bitmapWords rangeSize) := by
  rw [UInt32.lt_iff_toNat_lt] at hbit
  unfold Access.Inside wordAddr bitmapWords
  rw [toNat_wordIndex]
  dsimp only
  omega

/-- **No bit operation on a slot of the range leaves the array.** -/
theorem slot_accesses_inside (mem : ℕ → UInt8) (ips : ℕ) {bit : UInt32} (hbit : bit < rangeSize) :
    ∀ a ∈ (dhcpBmSetAt mem ips bit).2 ++ (dhcpBmClearAt mem ips bit).2 ++
      (dhcpBmUsedAt mem ips bit rangeSize).2, a.Inside ips (4 * bitmapWords rangeSize) := by
  have hused : (dhcpBmUsedAt mem ips bit rangeSize).2 = [⟨wordAddr ips bit, 4⟩] := by
    rw [dhcpBmUsedAt, if_neg (UInt32.not_le.mpr hbit)]
  intro a ha
  rw [hused] at ha
  simp only [dhcpBmSetAt, dhcpBmClearAt, List.mem_append, List.mem_cons, List.not_mem_nil,
    or_false, or_self] at ha
  rw [ha]
  exact wordAddr_inside ips hbit

end Bounds

/-! ## The set of used slots -/

/-- The slots of a range that are in use. -/
def slotSet (rangeSize : UInt32) (ips : ℕ → UInt32) : Finset ℕ :=
  (Finset.range rangeSize.toNat).filter fun slot => slotUsed ips slot = true

section Sets

variable {rangeSize : UInt32} {ips : ℕ → UInt32}

/-- `dhcp_bm_used` asks for membership. -/
theorem mem_slotSet {bit : UInt32} (hbit : bit < rangeSize) :
    bit.toNat ∈ slotSet rangeSize ips ↔ dhcpBmUsed ips bit rangeSize = true := by
  rw [dhcpBmUsed_eq_slotUsed hbit, slotSet, Finset.mem_filter, Finset.mem_range,
    and_iff_right (UInt32.lt_iff_toNat_lt.mp hbit)]

theorem slotSet_dhcpBmSet {bit : UInt32} (hbit : bit < rangeSize) :
    slotSet rangeSize (dhcpBmSet ips bit) = insert bit.toNat (slotSet rangeSize ips) := by
  ext slot
  rw [Finset.mem_insert, slotSet, slotSet, Finset.mem_filter, Finset.mem_filter,
    Finset.mem_range, slotUsed_dhcpBmSet]
  constructor
  · rintro ⟨hslot, rfl | hused⟩
    · exact Or.inl rfl
    · exact Or.inr ⟨hslot, hused⟩
  · rintro (rfl | ⟨hslot, hused⟩)
    · exact ⟨UInt32.lt_iff_toNat_lt.mp hbit, Or.inl rfl⟩
    · exact ⟨hslot, Or.inr hused⟩

theorem slotSet_dhcpBmClear (bit : UInt32) :
    slotSet rangeSize (dhcpBmClear ips bit) = (slotSet rangeSize ips).erase bit.toNat := by
  ext slot
  rw [Finset.mem_erase, slotSet, slotSet, Finset.mem_filter, Finset.mem_filter,
    slotUsed_dhcpBmClear]
  exact and_left_comm

theorem slotSet_recycleWords (hfits : rangeSize.toNat + 31 < 2 ^ 32) :
    slotSet rangeSize (recycleWords ips rangeSize) = ∅ := by
  refine Finset.filter_eq_empty_iff.mpr fun slot hslot hused => ?_
  rw [slotUsed_recycleWords_of_fits ips hfits (Finset.mem_range.mp hslot)] at hused
  cases hused

end Sets

/-! ## Recycling one range of several -/

/-- The arrays of the ranges do not overlap. -/
def BmPoolUniRef.Separate (pool : BmPoolUniRef) : Prop :=
  ∀ r < pool.numRanges.toNat, ∀ s < pool.numRanges.toNat, r ≠ s →
    (pool.ranges r).ips + 4 * bitmapWords pool.rangeSize ≤ (pool.ranges s).ips ∨
      (pool.ranges s).ips + 4 * bitmapWords pool.rangeSize ≤ (pool.ranges r).ips

/-- The rows of a two-dimensional array do not. -/
theorem BmPoolUniRef.separate_of_rows {pool : BmPoolUniRef} (base : ℕ)
    (h : ∀ r, (pool.ranges r).ips = base + r * (4 * bitmapWords pool.rangeSize)) :
    pool.Separate := by
  have hrows : ∀ r s, r < s →
      (pool.ranges r).ips + 4 * bitmapWords pool.rangeSize ≤ (pool.ranges s).ips := by
    intro r s hlt
    rw [h, h, Nat.add_assoc, ← Nat.succ_mul]
    exact Nat.add_le_add_left (Nat.mul_le_mul_right _ hlt) base
  intro r _ s _ hne
  rcases Nat.lt_or_gt_of_ne hne with hlt | hgt
  · exact Or.inl (hrows r s hlt)
  · exact Or.inr (hrows s r hgt)

def BmPoolUniRef.view (mem : ℕ → UInt8) (pool : BmPoolUniRef) : BmPoolUni where
  poolStart := pool.poolStart
  leaseTime := pool.leaseTime
  counter := pool.counter
  ranges := fun r => (pool.ranges r).view mem
  rangeSize := pool.rangeSize
  numRanges := pool.numRanges
  curRange := pool.curRange

section Ranges

variable (mem : ℕ → UInt8) {pool : BmPoolUniRef} {rangeIdx : UInt32}

theorem dhcpBmpoolUniRecycleAt_of_lt (hidx : rangeIdx.toNat < pool.numRanges.toNat) :
    dhcpBmpoolUniRecycleAt mem pool rangeIdx =
      ((fill mem (pool.ranges rangeIdx.toNat).ips 0 (recycledBytes pool.rangeSize),
          { pool with
            ranges := Function.update pool.ranges rangeIdx.toNat
              { pool.ranges rangeIdx.toNat with expireTime := 0 } }),
        [⟨(pool.ranges rangeIdx.toNat).ips, recycledBytes pool.rangeSize⟩]) :=
  if_neg (not_le.mpr hidx)

/-- The other ranges keep their pointer, their timer and their words. -/
theorem dhcpBmpoolUniRecycleAt_other (hfits : pool.rangeSize.toNat + 31 < 2 ^ 32)
    (hsep : pool.Separate) (hidx : rangeIdx.toNat < pool.numRanges.toNat) {r : ℕ}
    (hr : r < pool.numRanges.toNat) (hne : r ≠ rangeIdx.toNat) :
    let after := (dhcpBmpoolUniRecycleAt mem pool rangeIdx).1
    after.2.ranges r = pool.ranges r ∧
      ∀ w < bitmapWords pool.rangeSize,
        wordsAt after.1 (pool.ranges r).ips w = wordsAt mem (pool.ranges r).ips w := by
  rw [dhcpBmpoolUniRecycleAt_of_lt mem hidx]
  refine ⟨Function.update_of_ne hne _ _, fun w hw => ?_⟩
  refine wordsAt_congr (fun i hfrom hto => fill_of_disjoint ?_) hw
  rw [recycledBytes_eq hfits]
  rcases hsep r hr _ hidx hne with hbefore | hbehind
  · exact Or.inl (by omega)
  · exact Or.inr (by omega)

/-- Bitmaps with the same words mark the same slots. -/
theorem SameBits.of_words {rangeSize : UInt32} {ips ips' : ℕ → UInt32}
    (h : ∀ w < bitmapWords rangeSize, ips w = ips' w) : SameBits rangeSize ips ips' := by
  intro slot hslot
  rw [slotUsed, slotUsed, h (slot / 32) (by unfold bitmapWords; omega)]

/-- **Recycling a range in memory is recycling it in the modelled pool**: the two agree on
every range of the pool. -/
theorem view_dhcpBmpoolUniRecycleAt (hfits : pool.rangeSize.toNat + 31 < 2 ^ 32)
    (hsep : pool.Separate) :
    let after := (dhcpBmpoolUniRecycleAt mem pool rangeIdx).1
    SameRanges pool.rangeSize pool.numRanges.toNat (after.2.view after.1).ranges
      (dhcpBmpoolUniRecycle (pool.view mem) rangeIdx.toNat).ranges := by
  intro after
  by_cases hidx : rangeIdx.toNat < pool.numRanges.toNat
  swap
  · have hafter : after = (mem, pool) := congrArg Prod.fst (if_pos (not_lt.mp hidx))
    rw [hafter, dhcpBmpoolUniRecycle_of_le (pool.view mem) (not_lt.mp hidx)]
    exact fun r _ => ⟨rfl, fun _ _ => rfl⟩
  have hmodelled : (dhcpBmpoolUniRecycle (pool.view mem) rangeIdx.toNat).ranges =
      Function.update (pool.view mem).ranges rangeIdx.toNat
        (((pool.view mem).ranges rangeIdx.toNat).recycle pool.rangeSize) :=
    congrArg BmPoolUni.ranges (dhcpBmpoolUniRecycle_of_lt (pool.view mem) hidx)
  intro r hr
  by_cases hne : r = rangeIdx.toNat
  · have hrange : (after.2.view after.1).ranges r =
        ((pool.view mem).ranges rangeIdx.toNat).recycle pool.rangeSize := by
      simp only [after, dhcpBmpoolUniRecycleAt_of_lt mem hidx, hne, BmPoolUniRef.view,
        BmRangeRef.view, Function.update_self, wordsAt_recycled, BmRange.recycle]
    rw [hmodelled, hrange, hne, Function.update_self]
    exact ⟨rfl, fun _ _ => rfl⟩
  · obtain ⟨hrange, hwords⟩ := dhcpBmpoolUniRecycleAt_other mem hfits hsep hidx hr hne
    have hview : (after.2.view after.1).ranges r = (pool.ranges r).view after.1 :=
      congrArg (BmRangeRef.view after.1) hrange
    rw [hmodelled, Function.update_of_ne hne, hview]
    exact ⟨rfl, SameBits.of_words hwords⟩

end Ranges

/-! ## The words implement the set -/

/-- What the bit operations and the recycle functions do to the slots of ranges of one size. -/
structure ImplementsSlots (rangeSize : UInt32) : Prop where
  used_set : ∀ (mem : ℕ → UInt8) (ips : ℕ) (i j : UInt32), i < rangeSize → j < rangeSize →
    ((dhcpBmUsedAt (dhcpBmSetAt mem ips i).1 ips j rangeSize).1 = true ↔
      j = i ∨ (dhcpBmUsedAt mem ips j rangeSize).1 = true)
  used_clear : ∀ (mem : ℕ → UInt8) (ips : ℕ) (i j : UInt32), i < rangeSize → j < rangeSize →
    ((dhcpBmUsedAt (dhcpBmClearAt mem ips i).1 ips j rangeSize).1 = true ↔
      j ≠ i ∧ (dhcpBmUsedAt mem ips j rangeSize).1 = true)
  accesses : ∀ (mem : ℕ → UInt8) (ips : ℕ) (i : UInt32), i < rangeSize →
    ∀ a ∈ (dhcpBmSetAt mem ips i).2 ++ (dhcpBmClearAt mem ips i).2 ++
      (dhcpBmUsedAt mem ips i rangeSize).2, a.Inside ips (4 * bitmapWords rangeSize)
  var_recycle : ∀ (mem : ℕ → UInt8) (pool : BmPoolVarRef), pool.rangeSize = rangeSize →
    let after := dhcpBmpoolVarRecycleAt mem pool
    (∀ a ∈ after.2, a.Inside pool.range.ips (4 * bitmapWords rangeSize)) ∧
      ∀ j < rangeSize, (dhcpBmUsedAt after.1.1 pool.range.ips j rangeSize).1 = false
  uni_recycle : ∀ (mem : ℕ → UInt8) (pool : BmPoolUniRef) (rangeIdx : UInt32),
    pool.rangeSize = rangeSize → pool.Separate → rangeIdx.toNat < pool.numRanges.toNat →
    let after := dhcpBmpoolUniRecycleAt mem pool rangeIdx
    let recycled := (pool.ranges rangeIdx.toNat).ips
    (∀ a ∈ after.2, a.Inside recycled (4 * bitmapWords rangeSize)) ∧
      (∀ j < rangeSize, (dhcpBmUsedAt after.1.1 recycled j rangeSize).1 = false) ∧
      ∀ r < pool.numRanges.toNat, r ≠ rangeIdx.toNat →
        after.1.2.ranges r = pool.ranges r ∧
          ∀ w < bitmapWords rangeSize,
            wordsAt after.1.1 (pool.ranges r).ips w = wordsAt mem (pool.ranges r).ips w

section Recycled

variable {rangeSize : UInt32}

/-- Behind the recycle functions no slot is in use. -/
theorem dhcpBmUsedAt_recycled (hfits : rangeSize.toNat + 31 < 2 ^ 32) (mem : ℕ → UInt8) (ips : ℕ)
    {j : UInt32} (hj : j < rangeSize) :
    (dhcpBmUsedAt (fill mem ips 0 (recycledBytes rangeSize)) ips j rangeSize).1 = false := by
  rw [← Bool.not_eq_true, dhcpBmUsedAt_fst, ← mem_slotSet hj, wordsAt_recycled,
    slotSet_recycleWords hfits]
  exact Finset.notMem_empty _

theorem recycled_inside (hfits : rangeSize.toNat + 31 < 2 ^ 32) (ips : ℕ) :
    ∀ a ∈ [(⟨ips, recycledBytes rangeSize⟩ : Access)],
      a.Inside ips (4 * bitmapWords rangeSize) := by
  intro a ha
  rw [List.mem_singleton] at ha
  rw [ha, recycledBytes_eq hfits]
  exact ⟨le_rfl, le_rfl⟩

end Recycled

/-- **Bitmap words implement a finite set of slots**, for every range size that can be rounded
up to whole words in 32 bits. -/
theorem implementsSlots (rangeSize : UInt32) (hfits : rangeSize.toNat + 31 < 2 ^ 32) :
    ImplementsSlots rangeSize where
  used_set mem ips i j hi hj := by
    rw [dhcpBmUsedAt_fst, dhcpBmUsedAt_fst, ← mem_slotSet hj, ← mem_slotSet hj,
      wordsAt_dhcpBmSetAt, slotSet_dhcpBmSet hi, Finset.mem_insert, UInt32.toNat_inj]
  used_clear mem ips i j hi hj := by
    rw [dhcpBmUsedAt_fst, dhcpBmUsedAt_fst, ← mem_slotSet hj, ← mem_slotSet hj,
      wordsAt_dhcpBmClearAt, slotSet_dhcpBmClear, Finset.mem_erase, Ne, UInt32.toNat_inj]
  accesses mem ips i hi := slot_accesses_inside mem ips hi
  var_recycle := by
    rintro mem pool rfl
    exact ⟨recycled_inside hfits _, fun j hj => dhcpBmUsedAt_recycled hfits mem _ hj⟩
  uni_recycle := by
    rintro mem pool rangeIdx rfl hsep hidx
    have hother := @dhcpBmpoolUniRecycleAt_other mem pool rangeIdx hfits hsep hidx
    rw [dhcpBmpoolUniRecycleAt_of_lt mem hidx] at hother ⊢
    exact ⟨recycled_inside hfits _, fun j hj => dhcpBmUsedAt_recycled hfits mem _ hj,
      fun r hr hne => hother hr hne⟩

/-- Two ranges of 33 slots, one behind the other in a memory full of ones: recycling the first
frees the slot in its partial last word and stops before the words of the second. -/
theorem implementsSlots_two_ranges :
    let pool : BmPoolUniRef := ⟨0, 0, 0, fun r => ⟨8 * r, 7⟩, 33, 2, 0⟩
    let after := (dhcpBmpoolUniRecycleAt (fun _ => 0xFF) pool 0).1
    (dhcpBmUsedAt after.1 0 32 33).1 = false ∧ wordsAt after.1 8 0 = 0xFFFFFFFF := by
  intro pool after
  have hrow : 4 * bitmapWords 33 = 8 := by decide
  have hsep : pool.Separate := by
    refine BmPoolUniRef.separate_of_rows 0 fun r => ?_
    show 8 * r = 0 + r * (4 * bitmapWords 33)
    rw [hrow, Nat.zero_add, Nat.mul_comm]
  obtain ⟨-, hfree, hother⟩ :=
    (implementsSlots 33 (by decide)).uni_recycle (fun _ => 0xFF) pool 0 rfl hsep (by decide)
  have hword : wordsAt (fun _ => 0xFF) 8 0 = 0xFFFFFFFF := by decide
  exact ⟨hfree 32 (by decide), ((hother 1 (by decide) (by decide)).2 0 (by decide)).trans hword⟩

end BaremetalDhcp
