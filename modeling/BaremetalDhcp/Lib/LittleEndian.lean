import Mathlib.Data.UInt
import Mathlib.Tactic

/-!
# Words in a little-endian memory

A memory is a function from addresses to bytes.  `load16` and `load32` are the loads of a
little-endian processor, `bytes16` and `bytes32` the bytes that its stores write, and a load
from a memory that reads those bytes returns the word.

`wordsAt` reads an array of 32-bit words that starts at an address.  A store to one of its
words updates that word (`wordsAt_store32`), zeroing its first bytes clears its first words
(`wordsAt_fill_zero`), and both leave an array elsewhere alone.

Nothing here mentions a particular program.
-/

namespace LittleEndian

/-- The bytes of a 16-bit word, least significant first. -/
def bytes16 (v : UInt16) : List UInt8 := [v.toUInt8, (v >>> 8).toUInt8]

/-- The bytes of a 32-bit word, least significant first. -/
def bytes32 (v : UInt32) : List UInt8 :=
  [v.toUInt8, (v >>> 8).toUInt8, (v >>> 16).toUInt8, (v >>> 24).toUInt8]

/-- The 16-bit load. -/
def load16 (mem : ℕ → UInt8) (p : ℕ) : UInt16 :=
  (mem p).toUInt16 ||| ((mem (p + 1)).toUInt16 <<< 8)

/-- The 32-bit load. -/
def load32 (mem : ℕ → UInt8) (p : ℕ) : UInt32 :=
  (mem p).toUInt32 ||| ((mem (p + 1)).toUInt32 <<< 8) ||| ((mem (p + 2)).toUInt32 <<< 16) |||
    ((mem (p + 3)).toUInt32 <<< 24)

/-- The 16-bit store. -/
def store16 (mem : ℕ → UInt8) (p : ℕ) (v : UInt16) : ℕ → UInt8 := fun i =>
  if i = p then v.toUInt8 else if i = p + 1 then (v >>> 8).toUInt8 else mem i

/-- The 32-bit store. -/
def store32 (mem : ℕ → UInt8) (p : ℕ) (v : UInt32) : ℕ → UInt8 := fun i =>
  if p ≤ i ∧ i < p + 4 then (bytes32 v).getD (i - p) 0 else mem i

/-- `memset`: `n` bytes from an address on are set to one value. -/
def fill (mem : ℕ → UInt8) (p : ℕ) (v : UInt8) (n : ℕ) : ℕ → UInt8 := fun i =>
  if p ≤ i ∧ i < p + n then v else mem i

/-- The array of 32-bit words at an address. -/
def wordsAt (mem : ℕ → UInt8) (p : ℕ) : ℕ → UInt32 := fun w => load32 mem (p + 4 * w)

@[simp] theorem length_bytes16 (v : UInt16) : (bytes16 v).length = 2 := rfl

@[simp] theorem length_bytes32 (v : UInt32) : (bytes32 v).length = 4 := rfl

/-- The bytes of a word, shifted into place, make up the word. -/
theorem assemble16 (v : UInt16) :
    v.toUInt8.toUInt16 ||| ((v >>> 8).toUInt8.toUInt16 <<< 8) = v := by
  apply UInt16.eq_of_toBitVec_eq
  apply BitVec.eq_of_getLsbD_eq
  intro i hi
  have h8 : (8 : UInt16).toBitVec % 16 = 8#16 := rfl
  simp only [UInt16.toBitVec_or, UInt16.toBitVec_shiftRight, UInt16.toBitVec_shiftLeft,
    UInt16.toBitVec_toUInt8, UInt8.toBitVec_toUInt16, h8, BitVec.shiftLeft_eq',
    BitVec.ushiftRight_eq', BitVec.reduceToNat, BitVec.getLsbD_or, BitVec.getLsbD_shiftLeft,
    BitVec.getLsbD_setWidth, BitVec.getLsbD_ushiftRight]
  -- bit by bit: which byte it lies in
  grind

theorem assemble32 (v : UInt32) :
    v.toUInt8.toUInt32 ||| ((v >>> 8).toUInt8.toUInt32 <<< 8) |||
      ((v >>> 16).toUInt8.toUInt32 <<< 16) ||| ((v >>> 24).toUInt8.toUInt32 <<< 24) = v := by
  apply UInt32.eq_of_toBitVec_eq
  apply BitVec.eq_of_getLsbD_eq
  intro i hi
  have h8 : (8 : UInt32).toBitVec % 32 = 8#32 := rfl
  have h16 : (16 : UInt32).toBitVec % 32 = 16#32 := rfl
  have h24 : (24 : UInt32).toBitVec % 32 = 24#32 := rfl
  simp only [UInt32.toBitVec_or, UInt32.toBitVec_shiftRight, UInt32.toBitVec_shiftLeft,
    UInt32.toBitVec_toUInt8, UInt8.toBitVec_toUInt32, h8, h16, h24, BitVec.shiftLeft_eq',
    BitVec.ushiftRight_eq', BitVec.reduceToNat, BitVec.getLsbD_or, BitVec.getLsbD_shiftLeft,
    BitVec.getLsbD_setWidth, BitVec.getLsbD_ushiftRight]
  grind

/-- A load from where the bytes of the word lie returns the word. -/
theorem load16_of_reads {mem : ℕ → UInt8} {p : ℕ} {v : UInt16}
    (h : ∀ i < 2, mem (p + i) = (bytes16 v).getD i 0) :
    load16 mem p = v := by
  have h0 : mem p = v.toUInt8 := h 0 (by decide)
  have h1 : mem (p + 1) = (v >>> 8).toUInt8 := h 1 (by decide)
  rw [load16, h0, h1, assemble16]

/-- Masking the low byte before it is taken changes nothing. -/
theorem toUInt8_and_mask (v : UInt32) : (v &&& 0xFF).toUInt8 = v.toUInt8 := by
  apply UInt8.toNat_inj.mp
  rw [UInt32.toNat_toUInt8, UInt32.toNat_toUInt8, UInt32.toNat_and]
  have hmask : v.toNat &&& 0xFF = v.toNat % 2 ^ 8 := Nat.and_two_pow_sub_one_eq_mod _ 8
  rw [show (0xFF : UInt32).toNat = 0xFF from rfl, hmask, Nat.mod_mod]

theorem load32_of_reads {mem : ℕ → UInt8} {p : ℕ} {v : UInt32}
    (h : ∀ i < 4, mem (p + i) = (bytes32 v).getD i 0) :
    load32 mem p = v := by
  have h0 : mem p = v.toUInt8 := h 0 (by decide)
  have h1 : mem (p + 1) = (v >>> 8).toUInt8 := h 1 (by decide)
  have h2 : mem (p + 2) = (v >>> 16).toUInt8 := h 2 (by decide)
  have h3 : mem (p + 3) = (v >>> 24).toUInt8 := h 3 (by decide)
  rw [load32, h0, h1, h2, h3, assemble32]

/-- The bytes of a loaded word are those that were loaded. -/
theorem bytes16_load16 (mem : ℕ → UInt8) (p : ℕ) :
    bytes16 (load16 mem p) = [mem p, mem (p + 1)] := by
  have h8 : (8 : UInt16).toBitVec % 16 = 8#16 := rfl
  have hlow : (load16 mem p).toUInt8 = mem p := by
    apply UInt8.eq_of_toBitVec_eq
    apply BitVec.eq_of_getLsbD_eq
    intro i hi
    simp only [load16, UInt16.toBitVec_or, UInt16.toBitVec_shiftLeft, UInt16.toBitVec_toUInt8,
      UInt8.toBitVec_toUInt16, h8, BitVec.shiftLeft_eq', BitVec.reduceToNat, BitVec.getLsbD_or,
      BitVec.getLsbD_shiftLeft, BitVec.getLsbD_setWidth]
    grind
  have hhigh : (load16 mem p >>> 8).toUInt8 = mem (p + 1) := by
    apply UInt8.eq_of_toBitVec_eq
    apply BitVec.eq_of_getLsbD_eq
    intro i hi
    simp only [load16, UInt16.toBitVec_or, UInt16.toBitVec_shiftRight, UInt16.toBitVec_shiftLeft,
      UInt16.toBitVec_toUInt8, UInt8.toBitVec_toUInt16, h8, BitVec.shiftLeft_eq',
      BitVec.ushiftRight_eq', BitVec.reduceToNat, BitVec.getLsbD_or, BitVec.getLsbD_shiftLeft,
      BitVec.getLsbD_setWidth, BitVec.getLsbD_ushiftRight]
    grind
  rw [bytes16, hlow, hhigh]

/-- Bit `i` of a loaded word is bit `i % 8` of byte `i / 8`. -/
theorem getLsbD_load32 (mem : ℕ → UInt8) (p : ℕ) {i : ℕ} (hi : i < 32) :
    (load32 mem p).toBitVec.getLsbD i = (mem (p + i / 8)).toBitVec.getLsbD (i % 8) := by
  have h8 : (8 : UInt32).toBitVec % 32 = 8#32 := rfl
  have h16 : (16 : UInt32).toBitVec % 32 = 16#32 := rfl
  have h24 : (24 : UInt32).toBitVec % 32 = 24#32 := rfl
  have hbyte : i / 8 = 0 ∨ i / 8 = 1 ∨ i / 8 = 2 ∨ i / 8 = 3 := by omega
  simp only [load32, UInt32.toBitVec_or, UInt32.toBitVec_shiftLeft, UInt8.toBitVec_toUInt32, h8,
    h16, h24, BitVec.shiftLeft_eq', BitVec.reduceToNat, BitVec.getLsbD_or,
    BitVec.getLsbD_shiftLeft, BitVec.getLsbD_setWidth]
  rcases hbyte with h | h | h | h
  all_goals
    rw [h]
    grind

theorem bytes32_load32 (mem : ℕ → UInt8) (p : ℕ) :
    bytes32 (load32 mem p) = [mem p, mem (p + 1), mem (p + 2), mem (p + 3)] := by
  have h8 : (8 : UInt32).toBitVec % 32 = 8#32 := rfl
  have h16 : (16 : UInt32).toBitVec % 32 = 16#32 := rfl
  have h24 : (24 : UInt32).toBitVec % 32 = 24#32 := rfl
  have hbyte : ∀ {x y : UInt8}, (∀ i < 8, x.toBitVec.getLsbD i = y.toBitVec.getLsbD i) → x = y :=
    fun h => UInt8.eq_of_toBitVec_eq (BitVec.eq_of_getLsbD_eq h)
  have hfirst : (load32 mem p).toUInt8 = mem p := hbyte fun i hi => by
    simp only [UInt32.toBitVec_toUInt8, BitVec.getLsbD_setWidth]
    rw [getLsbD_load32 mem p (by omega)]
    grind
  have hsecond : (load32 mem p >>> 8).toUInt8 = mem (p + 1) := hbyte fun i hi => by
    simp only [UInt32.toBitVec_toUInt8, UInt32.toBitVec_shiftRight, h8, BitVec.ushiftRight_eq',
      BitVec.reduceToNat, BitVec.getLsbD_setWidth, BitVec.getLsbD_ushiftRight]
    rw [getLsbD_load32 mem p (by omega)]
    grind
  have hthird : (load32 mem p >>> 16).toUInt8 = mem (p + 2) := hbyte fun i hi => by
    simp only [UInt32.toBitVec_toUInt8, UInt32.toBitVec_shiftRight, h16, BitVec.ushiftRight_eq',
      BitVec.reduceToNat, BitVec.getLsbD_setWidth, BitVec.getLsbD_ushiftRight]
    rw [getLsbD_load32 mem p (by omega)]
    grind
  have hfourth : (load32 mem p >>> 24).toUInt8 = mem (p + 3) := hbyte fun i hi => by
    simp only [UInt32.toBitVec_toUInt8, UInt32.toBitVec_shiftRight, h24, BitVec.ushiftRight_eq',
      BitVec.reduceToNat, BitVec.getLsbD_setWidth, BitVec.getLsbD_ushiftRight]
    rw [getLsbD_load32 mem p (by omega)]
    grind
  rw [bytes32, hfirst, hsecond, hthird, hfourth]

/-- A load returns a word exactly from where the bytes of the word lie. -/
theorem load16_eq_iff {mem : ℕ → UInt8} {p : ℕ} {v : UInt16} :
    load16 mem p = v ↔ [mem p, mem (p + 1)] = bytes16 v := by
  constructor
  · rintro rfl
    exact (bytes16_load16 mem p).symm
  · intro h
    refine load16_of_reads fun i hi => ?_
    rw [← h]
    interval_cases i <;> rfl

theorem load32_eq_iff {mem : ℕ → UInt8} {p : ℕ} {v : UInt32} :
    load32 mem p = v ↔ [mem p, mem (p + 1), mem (p + 2), mem (p + 3)] = bytes32 v := by
  constructor
  · rintro rfl
    exact (bytes32_load32 mem p).symm
  · intro h
    refine load32_of_reads fun i hi => ?_
    rw [← h]
    interval_cases i <;> rfl

section Store

variable {mem : ℕ → UInt8} {p : ℕ} {v : UInt16}

/-- A store leaves the other bytes alone. -/
theorem store16_of_disjoint {i : ℕ} (h : i < p ∨ p + 2 ≤ i) : store16 mem p v i = mem i := by
  rw [store16, if_neg (by omega), if_neg (by omega)]

theorem store16_reads {i : ℕ} (hi : i < 2) : store16 mem p v (p + i) = (bytes16 v).getD i 0 := by
  interval_cases i
  · simp [store16, bytes16]
  · simp [store16, bytes16]

/-- Storing what was loaded undoes a store. -/
theorem store16_load16 : store16 (store16 mem p v) p (load16 mem p) = mem := by
  have hbytes := bytes16_load16 mem p
  simp only [bytes16, List.cons.injEq, and_true] at hbytes
  funext i
  rw [store16, hbytes.1, hbytes.2]
  split_ifs with hlow hhigh
  · rw [hlow]
  · rw [hhigh]
  · rw [store16, if_neg hlow, if_neg hhigh]

end Store

/-- A load reads the bytes of the word only. -/
theorem load16_congr {mem mem' : ℕ → UInt8} {p p' : ℕ}
    (h : ∀ i < 2, mem (p + i) = mem' (p' + i)) : load16 mem p = load16 mem' p' := by
  have h0 : mem p = mem' p' := h 0 (by decide)
  have h1 : mem (p + 1) = mem' (p' + 1) := h 1 (by decide)
  rw [load16, load16, h0, h1]

theorem load32_congr {mem mem' : ℕ → UInt8} {p p' : ℕ}
    (h : ∀ i < 4, mem (p + i) = mem' (p' + i)) : load32 mem p = load32 mem' p' := by
  have h0 : mem p = mem' p' := h 0 (by decide)
  have h1 : mem (p + 1) = mem' (p' + 1) := h 1 (by decide)
  have h2 : mem (p + 2) = mem' (p' + 2) := h 2 (by decide)
  have h3 : mem (p + 3) = mem' (p' + 3) := h 3 (by decide)
  rw [load32, load32, h0, h1, h2, h3]

/-! ## Arrays of words -/

section Arrays

variable {mem : ℕ → UInt8} {p : ℕ}

theorem store32_of_disjoint {q i : ℕ} {v : UInt32} (h : i < q ∨ q + 4 ≤ i) :
    store32 mem q v i = mem i := by
  rw [store32, if_neg (by omega)]

theorem load32_store32 (v : UInt32) : load32 (store32 mem p v) p = v := by
  refine load32_of_reads fun i hi => ?_
  rw [store32, if_pos (by omega), Nat.add_sub_cancel_left]

/-- A store to a word of an array updates that word. -/
theorem wordsAt_store32 (k : ℕ) (v : UInt32) :
    wordsAt (store32 mem (p + 4 * k) v) p = Function.update (wordsAt mem p) k v := by
  funext w
  by_cases hw : w = k
  · rw [hw, Function.update_self]
    exact load32_store32 v
  · rw [Function.update_of_ne hw]
    exact load32_congr fun i hi => store32_of_disjoint (by omega)

theorem fill_of_disjoint {q i n : ℕ} {v : UInt8} (h : i < q ∨ q + n ≤ i) :
    fill mem q v n i = mem i := by
  rw [fill, if_neg (by omega)]

/-- A load from zeroed bytes. -/
theorem load32_eq_zero (h : ∀ i < 4, mem (p + i) = 0) : load32 mem p = 0 := by
  have h0 : mem p = 0 := h 0 (by decide)
  rw [load32, h0, h 1 (by decide), h 2 (by decide), h 3 (by decide)]
  rfl

/-- Zeroing the bytes of the first words of an array clears these words. -/
theorem wordsAt_fill_zero (k : ℕ) :
    wordsAt (fill mem p 0 (4 * k)) p = fun w => if w < k then 0 else wordsAt mem p w := by
  funext w
  split_ifs with hw
  · refine load32_eq_zero fun i hi => ?_
    rw [fill, if_pos (by omega)]
  · exact load32_congr fun i hi => fill_of_disjoint (by omega)

/-- The words of an array are determined by its bytes. -/
theorem wordsAt_congr {mem' : ℕ → UInt8} {n : ℕ} (h : ∀ i, p ≤ i → i < p + 4 * n → mem i = mem' i)
    {w : ℕ} (hw : w < n) : wordsAt mem p w = wordsAt mem' p w :=
  load32_congr fun i hi => h _ (by omega) (by omega)

end Arrays

end LittleEndian
