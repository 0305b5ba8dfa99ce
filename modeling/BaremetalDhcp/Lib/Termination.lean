import BaremetalDhcp.Lib.Machine

/-!
# Runs that end

A machine whose steps lower a rank cannot go on for ever, and gets to its end if it is not
stuck before.  The rank is a relation between states and numbers, so that it may rest on an
invariant and on what a state does not show.

* `length_le_of_ranked` — a run of steps that lower the rank is not longer than the rank.
* `exists_run_of_ranked` — if some such step is possible in each state that is not final, a
  final state can be reached.
-/

namespace Machine

variable {S A B : Type*} {step : S → A → S × B} {Ok : S → A → Prop} {Ranked : S → ℕ → Prop}

/-- **A rank bounds the length of a run.** -/
theorem length_le_of_ranked
    (hstep : ∀ s k a, Ranked s k → Ok s a → ∃ k' < k, Ranked (step s a).1 k') :
    ∀ (as : List A) (s : S) (k : ℕ), Ranked s k → Along step Ok s as → as.length ≤ k := by
  intro as
  induction as with
  | nil => intro s k _ _; exact Nat.zero_le k
  | cons a as ih =>
      intro s k hs hok
      obtain ⟨k', hlt, hnext⟩ := hstep s k a hs hok.1
      have hrest := ih (step s a).1 k' hnext hok.2
      rw [List.length_cons]
      omega

/-- **A machine that is never stuck gets to its end.** -/
theorem exists_run_of_ranked {Final : S → Prop}
    (hstep : ∀ s k a, Ranked s k → Ok s a → ∃ k' < k, Ranked (step s a).1 k')
    (hprogress : ∀ s k, Ranked s k → ¬ Final s → ∃ a, Ok s a) :
    ∀ (k : ℕ) (s : S), Ranked s k → ∃ as, Along step Ok s as ∧ Final (exec step s as) := by
  intro k
  induction k using Nat.strongRecOn with
  | ind k ih =>
      intro s hs
      by_cases hfinal : Final s
      · exact ⟨[], trivial, hfinal⟩
      · obtain ⟨a, ha⟩ := hprogress s k hs hfinal
        obtain ⟨k', hlt, hnext⟩ := hstep s k a hs ha
        obtain ⟨as, has, hend⟩ := ih k' hlt (step s a).1 hnext
        exact ⟨a :: as, ⟨ha, has⟩, hend⟩

end Machine
