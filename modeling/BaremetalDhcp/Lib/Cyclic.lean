import Mathlib.Data.ZMod.Defs
import Mathlib.Data.Fin.Basic
import Mathlib.Tactic

/-!
# Arcs on a cycle

The slots of a circular array of size `N` are `Fin N`, and `i + 1` is the slot
after `i`, wrapping around.  `cdist a b` is the number of steps from `a` forward
to `b`, and the arc from `a` to `p` is the set of slots passed on the way, both
ends included (`OnArc`).

Two facts carry all reasoning about arcs.  `cdist_eq_of_base` expresses a
distance in coordinates relative to any base slot, which turns statements about
arcs into linear arithmetic.  `cdist_add_one` says that a step forward adds one,
unless it closes the circle.
-/

namespace Cyclic

variable {N : ℕ}

/-- Steps forward from `a` to `b`. -/
def cdist (a b : Fin N) : ℕ := (b - a).val

theorem cdist_lt (a b : Fin N) : cdist a b < N := (b - a).isLt

variable [NeZero N]

@[simp] theorem cdist_self (a : Fin N) : cdist a a = 0 := by
  simp [cdist]

/-- A distance in coordinates relative to the base slot `h`. -/
theorem cdist_eq_of_base (h a b : Fin N) :
    cdist a b =
      if cdist h a ≤ cdist h b then cdist h b - cdist h a else N + cdist h b - cdist h a := by
  have hshift : b - a = (b - h) - (a - h) := (sub_sub_sub_cancel_right b a h).symm
  have hdist : cdist a b = ((b - h) - (a - h)).val := by rw [cdist, hshift]
  by_cases hle : cdist h a ≤ cdist h b
  · rw [if_pos hle, hdist]
    exact Fin.sub_val_of_le hle
  · rw [if_neg hle, hdist]
    exact Fin.coe_sub_iff_lt.mpr (not_le.mp hle)

theorem cdist_injective (a : Fin N) {b c : Fin N} (h : cdist a b = cdist a c) : b = c := by
  have : b - a = c - a := Fin.ext h
  exact sub_left_injective this

theorem cdist_eq_zero {a b : Fin N} : cdist a b = 0 ↔ a = b := by
  constructor
  · intro h
    exact (cdist_injective a (h.trans (cdist_self a).symm)).symm
  · rintro rfl
    exact cdist_self a

theorem cdist_add_one_mod (a b : Fin N) : cdist a (b + 1) = (cdist a b + 1) % N := by
  simp only [cdist]
  rw [add_sub_right_comm, Fin.val_add, Fin.val_one', Nat.add_mod_mod]

/-- A step forward is one further away, unless it returns to the start. -/
theorem cdist_add_one {a b : Fin N} (h : b + 1 ≠ a) : cdist a (b + 1) = cdist a b + 1 := by
  have hval := cdist_add_one_mod a b
  have hlt := cdist_lt a b
  rcases Nat.lt_or_ge (cdist a b + 1) N with hin | hout
  · rwa [Nat.mod_eq_of_lt hin] at hval
  · have hwrap : cdist a b + 1 = N := by omega
    rw [hwrap, Nat.mod_self] at hval
    exact absurd (cdist_eq_zero.mp hval).symm h

/-- The last slot before the start is `N - 1` steps away. -/
theorem cdist_of_add_one_eq {a b : Fin N} (h : b + 1 = a) : cdist a b + 1 = N := by
  have hzero : (cdist a b + 1) % N = 0 := by
    rw [← cdist_add_one_mod, h, cdist_self]
  have hlt := cdist_lt a b
  have hdvd := Nat.dvd_of_mod_eq_zero hzero
  have hle := Nat.le_of_dvd (by omega) hdvd
  omega

/-- `q` is passed on the way from `a` forward to `p`, ends included. -/
def OnArc (a p q : Fin N) : Prop := cdist a q ≤ cdist a p

theorem onArc_start (a p : Fin N) : OnArc a p a := by
  simp [OnArc]

omit [NeZero N] in
/-- The arc to a slot on the arc is part of the arc. -/
theorem OnArc.trans {a p q r : Fin N} (hq : OnArc a p q) (hr : OnArc a q r) :
    OnArc a p r := Nat.le_trans hr hq

/-- The end of an arc is not on the arc to an earlier slot of it. -/
theorem OnArc.not_onArc {a p q : Fin N} (hq : OnArc a p q) (hne : q ≠ p) :
    ¬ OnArc a q p := by
  intro hp
  exact hne (cdist_injective a (Nat.le_antisymm hq hp))

/-- In coordinates from `h`: an arc that ends behind `s` and avoids `s` avoids
everything before `s`. -/
theorem not_onArc_of_before {h a p q s : Fin N} (hs : ¬ OnArc a p s)
    (hqs : cdist h q < cdist h s) (hsp : cdist h s < cdist h p) : ¬ OnArc a p q := by
  have ha := cdist_lt h a
  have hp := cdist_lt h p
  simp only [OnArc, cdist_eq_of_base h a] at hs ⊢
  split_ifs at hs ⊢ <;> omega

/-- In coordinates from `h`: an arc that ends before `s` and avoids a slot `l`
behind `s` avoids `s`. -/
theorem not_onArc_of_behind {h a p s l : Fin N} (hl : ¬ OnArc a p l)
    (hps : cdist h p < cdist h s) (hsl : cdist h s < cdist h l) : ¬ OnArc a p s := by
  have ha := cdist_lt h a
  have hl' := cdist_lt h l
  simp only [OnArc, cdist_eq_of_base h a] at hl ⊢
  split_ifs at hl ⊢ <;> omega

end Cyclic
