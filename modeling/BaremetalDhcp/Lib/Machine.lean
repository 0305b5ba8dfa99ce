import Mathlib.Order.Basic
import Mathlib.Data.List.Basic

/-!
# Runs of a deterministic machine with outputs

A machine is a step function `step : S → A → S × B`: it consumes one input,
moves to the next state and emits one output.  A run is a fold of `step` over a
list of inputs, and this module is the small theory of such runs that the
server theorems are proved with:

* `exec` — the state a run ends in, `outputs` — everything it emitted;
* `exec_inv` — a predicate that every admissible step preserves holds at the end
  of every admissible run;
* `exec_timed` — the same for a predicate indexed by a clock, along a run whose
  inputs carry nondecreasing timestamps;
* `exec_outputs_inv` — the same for a predicate that looks at the outputs so far;
* `outputs_once` — events that need an unmarked key and mark it happen once for each key;
* `exec_along` — the same for a condition on the inputs that depends on the state;
* `forall_reached_iff_along` — a property of all states of a run, turned into a condition
  on its steps;
* `along_congr_timed` — the conditions on the steps of two machines that agree in states
  related at the time agree along a run, when the steps that meet them keep the relation;
* `simulation` — two machines that stay related step by step emit the same
  outputs.

Nothing here mentions a particular machine.
-/

namespace Machine

variable {S S' A B T : Type*}

/-- The state reached by feeding the inputs one after the other. -/
def exec (step : S → A → S × B) (s : S) : List A → S
  | [] => s
  | a :: as => exec step (step s a).1 as

/-- The outputs emitted along the way, in order. -/
def outputs (step : S → A → S × B) (s : S) : List A → List B
  | [] => []
  | a :: as => (step s a).2 :: outputs step (step s a).1 as

@[simp] theorem exec_nil (step : S → A → S × B) (s : S) : exec step s [] = s := rfl

@[simp] theorem exec_cons (step : S → A → S × B) (s : S) (a : A) (as : List A) :
    exec step s (a :: as) = exec step (step s a).1 as := rfl

@[simp] theorem outputs_nil (step : S → A → S × B) (s : S) :
    outputs step s [] = [] := rfl

@[simp] theorem outputs_cons (step : S → A → S × B) (s : S) (a : A) (as : List A) :
    outputs step s (a :: as) = (step s a).2 :: outputs step (step s a).1 as := rfl

/-- A run over a concatenation is the second run started where the first ends. -/
theorem exec_append (step : S → A → S × B) (s : S) (as bs : List A) :
    exec step s (as ++ bs) = exec step (exec step s as) bs := by
  induction as generalizing s with
  | nil => rfl
  | cons a as ih => exact ih (step s a).1

/-- **The invariant rule.**  A predicate preserved by every step on an
admissible input holds at the end of every run over admissible inputs. -/
theorem exec_inv {step : S → A → S × B} (Inv : S → Prop) (Ok : A → Prop)
    (hstep : ∀ s a, Inv s → Ok a → Inv (step s a).1) :
    ∀ (as : List A) (s : S), Inv s → (∀ a ∈ as, Ok a) → Inv (exec step s as) := by
  intro as
  induction as with
  | nil => intro s hs _; exact hs
  | cons a as ih =>
      intro s hs hok
      refine ih (step s a).1 (hstep s a hs (hok a (by simp))) fun b hb => ?_
      exact hok b (List.mem_cons_of_mem _ hb)

/-- The outputs of a concatenation are those of the two runs one after the other. -/
theorem outputs_append (step : S → A → S × B) (s : S) (as bs : List A) :
    outputs step s (as ++ bs) = outputs step s as ++ outputs step (exec step s as) bs := by
  induction as generalizing s with
  | nil => rfl
  | cons a as ih => exact congrArg _ (ih (step s a).1)

/-- **The invariant rule with a history.**  The predicate may also look at everything
emitted so far. -/
theorem exec_outputs_inv {step : S → A → S × B} (Inv : S → List B → Prop) (Ok : A → Prop)
    (hstep : ∀ s log a, Inv s log → Ok a → Inv (step s a).1 (log ++ [(step s a).2])) :
    ∀ (as : List A) (s : S) (log : List B), Inv s log → (∀ a ∈ as, Ok a) →
      Inv (exec step s as) (log ++ outputs step s as) := by
  intro as
  induction as with
  | nil =>
      intro s log hs _
      rw [outputs_nil, List.append_nil]
      exact hs
  | cons a as ih =>
      intro s log hs hok
      rw [outputs_cons, List.append_cons]
      refine ih (step s a).1 _ (hstep s log a hs (hok a (by simp))) fun b hb => ?_
      exact hok b (List.mem_cons_of_mem _ hb)

/-- **The rule of marks.**  A step clears no mark, and makes an event only for a key without a
mark, which it marks.  Then no two outputs of a run are events for the same key. -/
theorem outputs_once {K : Type*} {step : S → A → S × B} (Inv : S → Prop) (Ok : A → Prop)
    (Marked : S → K → Prop) (Event : B → K → Prop)
    (hstep : ∀ s a, Inv s → Ok a → Inv (step s a).1 ∧
      (∀ k, Marked s k → Marked (step s a).1 k) ∧
      ∀ k, Event (step s a).2 k → ¬ Marked s k ∧ Marked (step s a).1 k) :
    ∀ (as : List A) (s : S), Inv s → (∀ a ∈ as, Ok a) →
      (∀ k, Marked s k → ∀ b ∈ outputs step s as, ¬ Event b k) ∧
        (outputs step s as).Pairwise fun b b' => ∀ k, Event b k → ¬ Event b' k := by
  intro as
  induction as with
  | nil =>
      intro s _ _
      exact ⟨fun _ _ _ hb => absurd hb List.not_mem_nil, List.Pairwise.nil⟩
  | cons a as ih =>
      intro s hs hok
      obtain ⟨hnext, hkept, hevent⟩ := hstep s a hs (hok a (by simp))
      obtain ⟨hmarked, hrest⟩ := ih (step s a).1 hnext fun b hb =>
        hok b (List.mem_cons_of_mem _ hb)
      rw [outputs_cons]
      constructor
      · intro k hk b hb
        obtain rfl | hb := List.mem_cons.mp hb
        · exact fun h => (hevent k h).1 hk
        · exact hmarked k (hkept k hk) b hb
      · exact List.Pairwise.cons (fun b hb k h => hmarked k (hevent k h).2 b hb) hrest

/-- **The invariant rule with a clock.**  The predicate is indexed by the
current time and survives the passing of time; a step taken at time `time a`
preserves it at that time.  Along inputs with nondecreasing timestamps it then
holds at the end of the run, at any time not before the last input. -/
theorem exec_timed [Preorder T] {step : S → A → S × B} (time : A → T)
    (Inv : T → S → Prop) (Ok : A → Prop)
    (hmono : ∀ {t t' : T} {s : S}, t ≤ t' → Inv t s → Inv t' s)
    (hstep : ∀ s a, Inv (time a) s → Ok a → Inv (time a) (step s a).1) :
    ∀ (as : List A) (s : S) (now later : T), Inv now s → now ≤ later →
      (∀ a ∈ as, Ok a) → (∀ a ∈ as, now ≤ time a ∧ time a ≤ later) →
      as.Pairwise (fun a b => time a ≤ time b) → Inv later (exec step s as) := by
  intro as
  induction as with
  | nil => intro s now later hs hle _ _ _; exact hmono hle hs
  | cons a as ih =>
      intro s now later hs _ hok hbetween hsorted
      rw [List.pairwise_cons] at hsorted
      have ha := hbetween a (by simp)
      refine ih (step s a).1 (time a) later
        (hstep s a (hmono ha.1 hs) (hok a (by simp))) ha.2
        (fun b hb => hok b (List.mem_cons_of_mem _ hb)) (fun b hb => ?_) hsorted.2
      exact ⟨hsorted.1 b hb, (hbetween b (List.mem_cons_of_mem _ hb)).2⟩

/-- The condition `Ok` holds of every input at the state the run is in when it
is consumed. -/
def Along (step : S → A → S × B) (Ok : S → A → Prop) (s : S) : List A → Prop
  | [] => True
  | a :: as => Ok s a ∧ Along step Ok (step s a).1 as

@[simp] theorem along_nil (step : S → A → S × B) (Ok : S → A → Prop) (s : S) :
    Along step Ok s [] := trivial

@[simp] theorem along_cons (step : S → A → S × B) (Ok : S → A → Prop) (s : S)
    (a : A) (as : List A) :
    Along step Ok s (a :: as) ↔ Ok s a ∧ Along step Ok (step s a).1 as := Iff.rfl

/-- A condition that holds everywhere holds along every run. -/
theorem along_of_forall {step : S → A → S × B} {Ok : S → A → Prop} (h : ∀ s a, Ok s a) :
    ∀ (as : List A) (s : S), Along step Ok s as := by
  intro as
  induction as with
  | nil => intro s; trivial
  | cons a as ih => intro s; exact ⟨h s a, ih _⟩

/-- A condition holds along a concatenation if it does along both runs. -/
theorem along_append {step : S → A → S × B} {Ok : S → A → Prop} {as bs : List A} {s : S}
    (h : Along step Ok s as) (h' : Along step Ok (exec step s as) bs) :
    Along step Ok s (as ++ bs) := by
  induction as generalizing s with
  | nil => exact h'
  | cons a as ih => exact ⟨h.1, ih h.2 h'⟩

/-- **The invariant rule along a run**, for a condition on the input that may look
at the state. -/
theorem exec_along {step : S → A → S × B} (Inv : S → Prop) {Ok : S → A → Prop}
    (hstep : ∀ s a, Inv s → Ok s a → Inv (step s a).1) :
    ∀ (as : List A) (s : S), Inv s → Along step Ok s as → Inv (exec step s as) := by
  intro as
  induction as with
  | nil => intro s hs _; exact hs
  | cons a as ih =>
      intro s hs hok
      exact ih (step s a).1 (hstep s a hs hok.1) hok.2

/-- **A property of every state reached, as a condition on the steps.**  If one step keeps
the property exactly when its condition holds, all states of a run have it exactly when the
condition holds along the run. -/
theorem forall_reached_iff_along {step : S → A → S × B} (Inv P : S → Prop)
    (Admits : A → Prop) {Ok : S → A → Prop}
    (hinv : ∀ s a, Inv s → Admits a → Inv (step s a).1)
    (hstep : ∀ s a, Inv s → P s → Admits a → (P (step s a).1 ↔ Ok s a)) :
    ∀ (as : List A) (s : S), Inv s → P s → (∀ a ∈ as, Admits a) →
      ((∀ bs, bs <+: as → P (exec step s bs)) ↔ Along step Ok s as) := by
  intro as
  induction as with
  | nil =>
      intro s _ hp _
      refine iff_of_true (fun bs hbs => ?_) trivial
      obtain rfl := List.prefix_nil.mp hbs
      exact hp
  | cons a as ih =>
      intro s hs hp hadmits
      have hfirst := hadmits a List.mem_cons_self
      have hone := hstep s a hs hp hfirst
      have hrest := ih (step s a).1 (hinv s a hs hfirst)
      constructor
      · intro hall
        have hnext : P (step s a).1 := hall [a] (List.cons_prefix_cons.mpr ⟨rfl, List.nil_prefix⟩)
        refine ⟨hone.mp hnext,
          (hrest hnext fun b hb => hadmits b (List.mem_cons_of_mem a hb)).mp ?_⟩
        intro bs hbs
        exact hall (a :: bs) (List.cons_prefix_cons.mpr ⟨rfl, hbs⟩)
      · rintro ⟨hok, hlater⟩ bs hbs
        cases bs with
        | nil => exact hp
        | cons b bs =>
            obtain ⟨rfl, htail⟩ := List.cons_prefix_cons.mp hbs
            exact (hrest (hone.mpr hok) fun b hb =>
              hadmits b (List.mem_cons_of_mem _ hb)).mpr hlater bs htail

/-- **Two conditions that agree in related states** agree along every run whose timestamps do
not decrease.  The relation may be lost at a step that violates the condition: there the run
is decided for both. -/
theorem along_congr_timed [Preorder T] {B' : Type*} {step : S → A → S × B}
    {step' : S' → A → S' × B'} (time : A → T) (Rel : T → S → S' → Prop) (Admits : A → Prop)
    {Ok : S → A → Prop} {Ok' : S' → A → Prop}
    (hmono : ∀ {t t' : T} {s : S} {s' : S'}, t ≤ t' → Rel t s s' → Rel t' s s')
    (hiff : ∀ s s' a, Rel (time a) s s' → Admits a → (Ok s a ↔ Ok' s' a))
    (hrel : ∀ s s' a, Rel (time a) s s' → Admits a → Ok s a →
      Rel (time a) (step s a).1 (step' s' a).1) :
    ∀ (as : List A) (s : S) (s' : S') (now : T), Rel now s s' → (∀ a ∈ as, Admits a) →
      (∀ a ∈ as, now ≤ time a) → as.Pairwise (fun a b => time a ≤ time b) →
      (Along step Ok s as ↔ Along step' Ok' s' as) := by
  intro as
  induction as with
  | nil => intro s s' now _ _ _ _; exact Iff.rfl
  | cons a as ih =>
      intro s s' now hs hadmits hfrom hsorted
      obtain ⟨hlater, hsorted'⟩ := List.pairwise_cons.mp hsorted
      have hnow := hmono (hfrom a List.mem_cons_self) hs
      have hadmit := hadmits a List.mem_cons_self
      have hone := hiff s s' a hnow hadmit
      have hrest : Ok s a → (Along step Ok (step s a).1 as ↔
          Along step' Ok' (step' s' a).1 as) := by
        intro hok
        exact ih _ _ (time a) (hrel s s' a hnow hadmit hok)
          (fun b hb => hadmits b (List.mem_cons_of_mem a hb)) hlater hsorted'
      constructor
      · rintro ⟨hok, hrun⟩
        exact ⟨hone.mp hok, (hrest hok).mp hrun⟩
      · rintro ⟨hok', hrun⟩
        exact ⟨hone.mpr hok', (hrest (hone.mpr hok')).mpr hrun⟩

/-- **Simulation.**  If related states answer every admissible input alike and
stay related, the two machines emit the same outputs along an admissible run
and end in related states. -/
theorem simulation {step : S → A → S × B} {step' : S' → A → S' × B}
    {Rel : S → S' → Prop} {Ok : S → A → Prop}
    (hstep : ∀ s s' a, Rel s s' → Ok s a →
      (step s a).2 = (step' s' a).2 ∧ Rel (step s a).1 (step' s' a).1) :
    ∀ (as : List A) (s : S) (s' : S'), Rel s s' → Along step Ok s as →
      outputs step s as = outputs step' s' as ∧
        Rel (exec step s as) (exec step' s' as) := by
  intro as
  induction as with
  | nil => intro s s' hrel _; exact ⟨rfl, hrel⟩
  | cons a as ih =>
      intro s s' hrel hok
      obtain ⟨hout, hnext⟩ := hstep s s' a hrel hok.1
      obtain ⟨houts, hend⟩ := ih (step s a).1 (step' s' a).1 hnext hok.2
      exact ⟨by rw [outputs_cons, outputs_cons, hout, houts], hend⟩

end Machine
