import Mathlib.Data.Set.Insert

/-!
# Sliding windows over a growing log

Entries `0, 1, 2, …` are pushed one after the other and may be marked later.  Only the
entries from `base` on are still in the window.  The window slides in two ways: past a
front entry that is marked (`slide`), and, when it holds `size` entries, past its
`flush` oldest ones whether they are marked or not (`drop`).

`Window.Sound` is what every such window satisfies.  Its last field is the reason to
have one: an entry that left the window unmarked was followed by at least
`size - flush` others.
-/

/-- The number of entries pushed, the first one in the window, and the marked ones. -/
structure Window where
  pushed : ℕ
  base : ℕ
  marked : Set ℕ

namespace Window

/-- Nothing pushed. -/
def empty : Window := ⟨0, 0, ∅⟩

/-- One more entry. -/
def push (w : Window) : Window := { w with pushed := w.pushed + 1 }

/-- Mark an entry. -/
def mark (w : Window) (k : ℕ) : Window := { w with marked := insert k w.marked }

/-- Slide past the front entry. -/
def slide (w : Window) : Window := { w with base := w.base + 1 }

/-- Slide past the oldest entries. -/
def drop (w : Window) (flush : ℕ) : Window := { w with base := w.base + flush }

/-- A window of at most `size` entries that drops `flush` of them when it is full. -/
structure Sound (size flush : ℕ) (w : Window) : Prop where
  base_le : w.base ≤ w.pushed
  pushed_le : w.pushed ≤ w.base + size
  marked_lt : ∀ k ∈ w.marked, k < w.pushed
  dropped : ∀ k < w.base, k ∈ w.marked ∨ k + (size - flush) < w.pushed

variable {size flush k : ℕ} {w : Window}

theorem sound_empty : (empty).Sound size flush where
  base_le := le_rfl
  pushed_le := Nat.zero_le _
  marked_lt := fun _ hk => absurd hk (Set.notMem_empty _)
  dropped := fun _ hk => absurd hk (Nat.not_lt_zero _)

theorem Sound.push (h : w.Sound size flush) (hroom : w.pushed < w.base + size) :
    w.push.Sound size flush where
  base_le := Nat.le_succ_of_le h.base_le
  pushed_le := hroom
  marked_lt := fun k hk => Nat.lt_succ_of_lt (h.marked_lt k hk)
  dropped := fun k hk => (h.dropped k hk).imp_right Nat.lt_succ_of_lt

theorem Sound.mark (h : w.Sound size flush) (hk : k < w.pushed) :
    (w.mark k).Sound size flush where
  base_le := h.base_le
  pushed_le := h.pushed_le
  marked_lt := by
    rintro j (rfl | hj)
    · exact hk
    · exact h.marked_lt j hj
  dropped := fun j hj => (h.dropped j hj).imp_left fun hmarked => Or.inr hmarked

/-- Sliding past a marked entry loses nothing. -/
theorem Sound.slide (h : w.Sound size flush) (hfront : w.base ∈ w.marked) :
    w.slide.Sound size flush where
  base_le := h.marked_lt _ hfront
  pushed_le := by
    have hle := h.pushed_le
    show w.pushed ≤ w.base + 1 + size
    omega
  marked_lt := h.marked_lt
  dropped := by
    intro k hk
    obtain hlt | rfl := Nat.lt_succ_iff_lt_or_eq.mp hk
    · exact h.dropped k hlt
    · exact Or.inl hfront

/-- A full window drops entries that `size - flush` others have followed. -/
theorem Sound.drop (h : w.Sound size flush) (hfull : w.base + size ≤ w.pushed)
    (hflush : flush ≤ size) : (w.drop flush).Sound size flush where
  base_le := by
    show w.base + flush ≤ w.pushed
    omega
  pushed_le := by
    have hle := h.pushed_le
    show w.pushed ≤ w.base + flush + size
    omega
  marked_lt := h.marked_lt
  dropped := by
    intro k hk
    have hlt : k < w.base + flush := hk
    right
    show k + (size - flush) < w.pushed
    omega

/-- **A recent entry is in the window**, unless it is marked. -/
theorem Sound.base_le_of_recent (h : w.Sound size flush) (hunmarked : k ∉ w.marked)
    (hrecent : w.pushed ≤ k + (size - flush)) : w.base ≤ k := by
  by_contra hout
  obtain hmarked | hold := h.dropped k (Nat.lt_of_not_le hout)
  · exact hunmarked hmarked
  · omega

end Window
