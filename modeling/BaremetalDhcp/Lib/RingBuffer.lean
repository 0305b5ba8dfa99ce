import Mathlib.Data.List.Range
import Mathlib.Data.Nat.ModEq
import Mathlib.Logic.Function.Basic

/-!
# Lists stored in a circular array

`contents N buf tail len` is the list of the `len` entries that a circular array of `N`
slots holds from slot `tail` on.  The slot behind them can be written without changing them
(`contents_update_behind`) and is then the last entry of a longer list (`contents_concat`);
moving `tail` on removes the first entry (`contents_succ`).

Slots are numbers modulo `N`; two positions less than `N` apart are different slots
(`add_mod_ne`), and a position at most `N` behind a slot wraps at most once
(`add_mod_cases`).
-/

namespace RingBuffer

variable {α : Type*} {N tail len : ℕ}

/-- The entries of `len` slots from `tail` on. -/
def contents (N : ℕ) (buf : ℕ → α) (tail len : ℕ) : List α :=
  (List.range len).map fun i => buf ((tail + i) % N)

@[simp] theorem length_contents (buf : ℕ → α) : (contents N buf tail len).length = len := by
  simp [contents]

/-- Positions less than `N` apart are different slots. -/
theorem add_mod_ne {i j : ℕ} (hij : i < j) (hj : j < i + N) :
    (tail + i) % N ≠ (tail + j) % N := by
  intro heq
  have hdvd : N ∣ tail + j - (tail + i) := (Nat.modEq_iff_dvd' (by omega)).mp heq
  have hle := Nat.le_of_dvd (by omega) hdvd
  omega

/-- The slot behind the entries, without the modulus: it wraps at most once. -/
theorem add_mod_cases (htail : tail < N) (hlen : len ≤ N) :
    (tail + len) % N = tail + len ∨ (tail + len) % N + N = tail + len := by
  by_cases hwrap : tail + len < N
  · exact Or.inl (Nat.mod_eq_of_lt hwrap)
  · right
    have hsub : (tail + len) % N = tail + len - N := by
      rw [Nat.mod_eq_sub_mod (by omega), Nat.mod_eq_of_lt (by omega)]
    omega

/-- The first entry, and the rest from the next slot on. -/
theorem contents_succ (buf : ℕ → α) :
    contents N buf tail (len + 1) =
      buf (tail % N) :: contents N buf ((tail + 1) % N) len := by
  unfold contents
  rw [List.range_succ_eq_map, List.map_cons, List.map_map, Nat.add_zero]
  congr 1
  apply List.map_congr_left
  intro i _
  show buf ((tail + (i + 1)) % N) = buf (((tail + 1) % N + i) % N)
  rw [Nat.mod_add_mod, Nat.add_assoc, Nat.add_comm 1 i]

/-- A write into a slot that holds no entry. -/
theorem contents_update_of_free (buf : ℕ → α) (x : α) {slot : ℕ}
    (hfree : ∀ i < len, (tail + i) % N ≠ slot) :
    contents N (Function.update buf slot x) tail len = contents N buf tail len := by
  unfold contents
  apply List.map_congr_left
  intro i hi
  exact Function.update_of_ne (hfree i (List.mem_range.mp hi)) x buf

/-- All but the last entry, and the last one. -/
theorem contents_concat (buf : ℕ → α) :
    contents N buf tail (len + 1) = contents N buf tail len ++ [buf ((tail + len) % N)] := by
  unfold contents
  rw [List.range_succ, List.map_append, List.map_singleton]

/-- **The slot behind the entries is none of theirs.** -/
theorem contents_update_behind (buf : ℕ → α) (x : α) (hlen : len < N) :
    contents N (Function.update buf ((tail + len) % N) x) tail len = contents N buf tail len :=
  contents_update_of_free buf x fun i hi => add_mod_ne hi (by omega)

theorem mem_contents {buf : ℕ → α} {x : α} :
    x ∈ contents N buf tail len ↔ ∃ i < len, buf ((tail + i) % N) = x := by
  simp [contents]

end RingBuffer
