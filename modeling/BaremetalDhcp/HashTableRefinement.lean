import BaremetalDhcp.HashTable

/-!
# Deletion, and the table as a finite map

The first half follows the walk of `hash_delete`.  `Closing start l h q n` is its
state when the slots fewer than `n` steps behind `start` have been passed and `q`
is the current hole: no arc has a hole other than `q`, and either no arc runs over
`q` any more, or the walk has not yet come to the spare slot `l`, all passed arcs
avoid `q`, and all arcs but that of `l` itself avoid `l`.  In the second case later
holes lie between the passed slots and `l`, which is why a passed arc cannot meet
one (`Cyclic.not_onArc_of_behind`).

The second half states the refinement: along every sequence of operations the
table answers as a list of elements with distinct keys does, in which insertion
puts the new element in front of what is left after removing its key.
-/

namespace BaremetalDhcp

open Cyclic

section Deletion

variable {N : ℕ} [NeZero N] {E : Type} [Zero E] {K : KeyOps E} {h : HashTab N E}

/-! ## Moving an element into the hole -/

/-- The element of slot `s` copied to `q`, and `s` cleared. -/
def moveElem (h : HashTab N E) (s q : Fin N) : HashTab N E :=
  (h.insertElem q (h.buckets s)).clearElem s

omit [NeZero N] in
theorem occupied_moveElem {s q p : Fin N} :
    (moveElem h s q).occupied p = true ↔ p ≠ s ∧ (p = q ∨ h.occupied p = true) := by
  by_cases hs : p = s
  · simp [moveElem, HashTab.clearElem, hs]
  · by_cases hq : p = q <;>
      simp [moveElem, HashTab.clearElem, HashTab.insertElem, Function.update_apply, hs, hq]

omit [NeZero N] in
theorem buckets_moveElem_self {s q : Fin N} (hne : q ≠ s) :
    (moveElem h s q).buckets q = h.buckets s := by
  simp [moveElem, HashTab.clearElem, HashTab.insertElem, Function.update_of_ne hne]

omit [NeZero N] in
theorem buckets_moveElem_of_ne {s q p : Fin N} (hs : p ≠ s) (hq : p ≠ q) :
    (moveElem h s q).buckets p = h.buckets p := by
  simp [moveElem, HashTab.clearElem, HashTab.insertElem, Function.update_of_ne hs,
    Function.update_of_ne hq]

/-- The same elements under the same keys, in as many slots. -/
structure SameContents (K : KeyOps E) (h h' : HashTab N E) : Prop where
  stored : ∀ x, h'.Stored x ↔ h.Stored x
  card : h'.slots.card = h.slots.card
  cnt : h'.elemCnt = h.elemCnt
  distinct : (∀ p q, h.occupied p = true → h.occupied q = true →
      K.comp (h.buckets p) (h.buckets q) = 0 → p = q) →
    ∀ p q, h'.occupied p = true → h'.occupied q = true →
      K.comp (h'.buckets p) (h'.buckets q) = 0 → p = q

omit [NeZero N] [Zero E] in
theorem SameContents.refl (h : HashTab N E) : SameContents K h h :=
  ⟨fun _ => Iff.rfl, rfl, rfl, id⟩

omit [NeZero N] [Zero E] in
theorem SameContents.trans {h' h'' : HashTab N E} (h₁ : SameContents K h h')
    (h₂ : SameContents K h' h'') : SameContents K h h'' :=
  ⟨fun x => (h₂.stored x).trans (h₁.stored x), h₂.card.trans h₁.card,
    h₂.cnt.trans h₁.cnt, fun hd => h₂.distinct (h₁.distinct hd)⟩

omit [NeZero N] in
/-- Moving an element into a free slot keeps the contents. -/
theorem sameContents_moveElem {s q : Fin N} (hs : h.occupied s = true)
    (hq : h.occupied q = false) : SameContents K h (moveElem h s q) := by
  have hne : q ≠ s := by
    rintro rfl
    rw [hs] at hq
    simp at hq
  -- where the element now in slot `p` was before
  let old : Fin N → Fin N := fun p => if p = q then s else p
  have hold : ∀ p, (moveElem h s q).occupied p = true →
      h.occupied (old p) = true ∧ (moveElem h s q).buckets p = h.buckets (old p) := by
    intro p hp
    obtain ⟨hps, hp⟩ := occupied_moveElem.mp hp
    by_cases hpq : p = q
    · subst hpq
      simp only [old, if_pos]
      exact ⟨hs, buckets_moveElem_self hne⟩
    · simp only [old, if_neg hpq]
      exact ⟨hp.resolve_left hpq, buckets_moveElem_of_ne hps hpq⟩
  refine ⟨fun x => ⟨?_, ?_⟩, ?_, rfl, fun hd p p' hp hp' hcomp => ?_⟩
  · rintro ⟨p, hp, rfl⟩
    obtain ⟨hocc, hbucket⟩ := hold p hp
    exact ⟨old p, hocc, hbucket.symm⟩
  · rintro ⟨p, hp, rfl⟩
    by_cases hps : p = s
    · subst hps
      exact ⟨q, occupied_moveElem.mpr ⟨hne, Or.inl rfl⟩, buckets_moveElem_self hne⟩
    · have hpq : p ≠ q := by
        rintro rfl
        rw [hq] at hp
        simp at hp
      exact ⟨p, occupied_moveElem.mpr ⟨hps, Or.inr hp⟩, buckets_moveElem_of_ne hps hpq⟩
  · have hslots : (moveElem h s q).slots = (insert q h.slots).erase s := by
      ext p
      rw [HashTab.mem_slots, occupied_moveElem, Finset.mem_erase, Finset.mem_insert,
        HashTab.mem_slots]
    rw [hslots, Finset.card_erase_of_mem (by simp [hs]),
      Finset.card_insert_of_notMem (by simp [hq]), Nat.add_sub_cancel]
  · obtain ⟨hocc, hbucket⟩ := hold p hp
    obtain ⟨hocc', hbucket'⟩ := hold p' hp'
    rw [hbucket, hbucket'] at hcomp
    have heq := hd _ _ hocc hocc' hcomp
    have hps := (occupied_moveElem.mp hp).1
    have hps' := (occupied_moveElem.mp hp').1
    by_cases hpq : p = q <;> by_cases hpq' : p' = q <;> simp_all [old]

/-! ## The walk -/

/-- The state of the walk: see the module comment. -/
structure Closing (K : KeyOps E) (start l : Fin N) (h : HashTab N E) (q : Fin N) (n : ℕ) :
    Prop where
  hole : h.occupied q = false
  filled : ∀ p, h.occupied p = true → ∀ r, OnArc (K.home (h.buckets p)) p r → r ≠ q →
    h.occupied r = true
  phase : (∀ p, h.occupied p = true → ¬ OnArc (K.home (h.buckets p)) p q) ∨
    (cdist start q < n ∧ n ≤ cdist start l ∧
      (∀ p, h.occupied p = true → p ≠ l → ¬ OnArc (K.home (h.buckets p)) p l) ∧
      (∀ p, h.occupied p = true → cdist start p < n → ¬ OnArc (K.home (h.buckets p)) p q))

omit [Zero E] in
theorem Closing.hole_ne {start l q s : Fin N} {n : ℕ} (hc : Closing K start l h q n)
    (hs : h.occupied s = true) : q ≠ s := by
  rintro rfl
  rw [hc.hole] at hs
  simp at hs

omit [Zero E] in
/-- The inner loop stops on the arc, at a free slot or at `next`; in the latter
case no slot of the arc before `next` is free. -/
theorem movableLoop_spec {home next : Fin N} : ∀ (fuel : ℕ) (i : Fin N),
    cdist home next < fuel + cdist home i → OnArc home next i →
      (∀ r, cdist home r < cdist home i → h.occupied r = true) →
      OnArc home next (movableLoop h next fuel i) ∧
        (h.occupied (movableLoop h next fuel i) = false ∨
          movableLoop h next fuel i = next ∧
            ∀ r, cdist home r < cdist home next → h.occupied r = true) := by
  intro fuel
  induction fuel with
  | zero =>
      intro i hfuel harc _
      have : cdist home i ≤ cdist home next := harc
      omega
  | succ fuel ih =>
      intro i hfuel harc hbefore
      rw [movableLoop]
      by_cases hnext : i = next
      · subst hnext
        rw [if_neg (by simp)]
        exact ⟨harc, Or.inr ⟨rfl, hbefore⟩⟩
      · rw [if_pos hnext]
        by_cases hocc : h.occupied i = true
        · rw [if_neg (by simpa using hocc)]
          have hlt : cdist home i < cdist home next :=
            Nat.lt_of_le_of_ne harc fun heq => hnext (cdist_injective _ heq)
          have hback : i + 1 ≠ home := by
            intro hback
            have h1 := cdist_of_add_one_eq hback
            have h2 := cdist_lt home next
            omega
          have hstep := cdist_add_one hback
          refine ih (i + 1) (by omega) (by rw [OnArc]; omega) fun r hr => ?_
          rcases Nat.lt_succ_iff_lt_or_eq.mp (hstep ▸ hr) with hr | hr
          · exact hbefore r hr
          · rwa [cdist_injective _ hr]
        · rw [if_pos (by simpa using hocc)]
          exact ⟨harc, Or.inl (by simpa using hocc)⟩

/-- One turn of the walk moves the element exactly when its arc runs over the
hole. -/
theorem closeStep_eq {start l q s : Fin N} {n : ℕ} (hc : Closing K start l h q n)
    (hs : h.occupied s = true) :
    (OnArc (K.home (h.buckets s)) s q ∧ closeStep K h s = moveElem h s q) ∨
      (¬ OnArc (K.home (h.buckets s)) s q ∧ closeStep K h s = h) := by
  have hqs := hc.hole_ne hs
  have hspec := movableLoop_spec (h := h) N (K.home (h.buckets s))
    (by rw [cdist_self]; exact cdist_lt _ s) (onArc_start _ s) (by simp)
  generalize hm : movableLoop h s N (K.home (h.buckets s)) = m at hspec
  obtain ⟨harc, hfree | ⟨hms, hbefore⟩⟩ := hspec
  · -- the only free slot on the arc is the hole
    have hmq : m = q := by
      by_contra hne
      have := hc.filled s hs m harc hne
      rw [hfree] at this
      simp at this
    subst hmq
    refine Or.inl ⟨harc, ?_⟩
    have hhome : K.home (h.buckets s) ≠ s := by
      intro heq
      rw [OnArc, heq, cdist_self, Nat.le_zero] at harc
      exact hqs (cdist_eq_zero.mp harc).symm
    simp only [closeStep, if_pos hhome, hm, if_pos hqs, moveElem]
  · have hnot : ¬ OnArc (K.home (h.buckets s)) s q := by
      intro hq
      have hlt : cdist (K.home (h.buckets s)) q < cdist (K.home (h.buckets s)) s :=
        Nat.lt_of_le_of_ne hq fun heq => hqs (cdist_injective _ heq)
      have := hbefore q hlt
      rw [hc.hole] at this
      simp at this
    refine Or.inr ⟨hnot, ?_⟩
    simp only [closeStep, hm, hms]
    split_ifs <;> simp_all

/-- Moving into the hole leaves arcs without holes other than the vacated slot. -/
theorem filled_moveElem {start l q s : Fin N} {n : ℕ} (hc : Closing K start l h q n)
    (hs : h.occupied s = true) (harc : OnArc (K.home (h.buckets s)) s q) :
    ∀ p, (moveElem h s q).occupied p = true → ∀ r,
      OnArc (K.home ((moveElem h s q).buckets p)) p r → r ≠ s →
      (moveElem h s q).occupied r = true := by
  have hqs := hc.hole_ne hs
  intro p hp r hr hrs
  rw [occupied_moveElem]
  refine ⟨hrs, or_iff_not_imp_left.mpr fun hrq => ?_⟩
  obtain ⟨hps, hp⟩ := occupied_moveElem.mp hp
  by_cases hpq : p = q
  · subst hpq
    rw [buckets_moveElem_self hqs] at hr
    exact hc.filled s hs r (harc.trans hr) hrq
  · rw [buckets_moveElem_of_ne hps hpq] at hr
    exact hc.filled p (hp.resolve_left hpq) r hr hrq

/-- One turn that moves the element at a slot `n` steps behind the start into the
hole: the slot is the new hole. -/
theorem Closing.move {start l q s : Fin N} {n : ℕ} (hc : Closing K start l h q n)
    (hs : h.occupied s = true) (hn : cdist start s = n)
    (harc : OnArc (K.home (h.buckets s)) s q) :
    Closing K start l (moveElem h s q) s (n + 1) := by
  have hqs := hc.hole_ne hs
  have hhole : (moveElem h s q).occupied s = false := by
    rw [← Bool.not_eq_true, occupied_moveElem]
    simp
  refine ⟨hhole, filled_moveElem hc hs harc, ?_⟩
  -- a hole that is still met by an arc means the walk is before the spare slot
  obtain hfree | ⟨hq, hle, hspare, hpassed⟩ := hc.phase
  · exact absurd harc (hfree s hs)
  have hclear : ∀ p, (moveElem h s q).occupied p = true →
      ¬ (p ≠ q ∧ OnArc (K.home (h.buckets p)) p s) →
      ¬ OnArc (K.home ((moveElem h s q).buckets p)) p s := by
    intro p hp hnot hps
    by_cases hpq : p = q
    · subst hpq
      rw [buckets_moveElem_self hqs] at hps
      exact harc.not_onArc hqs hps
    · rw [buckets_moveElem_of_ne (occupied_moveElem.mp hp).1 hpq] at hps
      exact hnot ⟨hpq, hps⟩
  by_cases hsl : s = l
  · subst hsl
    refine Or.inl fun p hp => hclear p hp ?_
    rintro ⟨hpq, hps⟩
    obtain ⟨hps', hp⟩ := occupied_moveElem.mp hp
    exact hspare p (hp.resolve_left hpq) hps' hps
  · have hlt : n < cdist start l :=
      Nat.lt_of_le_of_ne hle fun heq => hsl (cdist_injective start (hn.trans heq))
    refine Or.inr ⟨by omega, hlt, fun p hp hpl hparc => ?_, fun p hp hpn => hclear p hp ?_⟩
    · obtain ⟨hps', hp⟩ := occupied_moveElem.mp hp
      by_cases hpq : p = q
      · subst hpq
        rw [buckets_moveElem_self hqs] at hparc
        exact hspare s hs hsl (harc.trans hparc)
      · rw [buckets_moveElem_of_ne hps' hpq] at hparc
        exact hspare p (hp.resolve_left hpq) hpl hparc
    · rintro ⟨hpq, hps⟩
      obtain ⟨hps', hp⟩ := occupied_moveElem.mp hp
      have hpne : cdist start p ≠ n := fun heq =>
        hps' (cdist_injective start (heq.trans hn.symm))
      have hpl : p ≠ l := by
        rintro rfl
        omega
      exact not_onArc_of_behind (h := start) (hspare p (hp.resolve_left hpq) hpl)
        (by omega) (by omega) hps

omit [Zero E] in
/-- One turn at a slot whose arc avoids the hole leaves everything in place. -/
theorem Closing.stay {start l q s : Fin N} {n : ℕ} (hc : Closing K start l h q n)
    (hn : cdist start s = n) (harc : ¬ OnArc (K.home (h.buckets s)) s q) :
    Closing K start l h q (n + 1) := by
  refine ⟨hc.hole, hc.filled, ?_⟩
  obtain hfree | ⟨hq, hle, hspare, hpassed⟩ := hc.phase
  · exact Or.inl hfree
  have hpassed' : ∀ p, h.occupied p = true → cdist start p < n + 1 →
      ¬ OnArc (K.home (h.buckets p)) p q := by
    intro p hp hpn
    rcases Nat.lt_succ_iff_lt_or_eq.mp hpn with hlt | heq
    · exact hpassed p hp hlt
    · rwa [cdist_injective start (heq.trans hn.symm)]
  by_cases hsl : s = l
  · -- past the spare slot: the remaining arcs avoid it, hence the hole before it
    subst hsl
    refine Or.inl fun p hp => ?_
    rcases Nat.lt_or_ge (cdist start p) (n + 1) with hpn | hpn
    · exact hpassed' p hp hpn
    · have hps : p ≠ s := by
        rintro rfl
        omega
      exact not_onArc_of_before (h := start) (hspare p hp hps) (by omega) (by omega)
  · have hlt : n < cdist start l :=
      Nat.lt_of_le_of_ne hle fun heq => hsl (cdist_injective start (hn.trans heq))
    exact Or.inr ⟨by omega, hlt, hspare, hpassed'⟩

/-- One turn of the walk at a slot `n` steps behind the start. -/
theorem Closing.step {start l q s : Fin N} {n : ℕ} (hc : Closing K start l h q n)
    (hs : h.occupied s = true) (hn : cdist start s = n) :
    ∃ q', Closing K start l (closeStep K h s) q' (n + 1) := by
  rcases closeStep_eq hc hs with ⟨harc, hstep⟩ | ⟨harc, hstep⟩
  · rw [hstep]
    exact ⟨s, hc.move hs hn harc⟩
  · rw [hstep]
    exact ⟨q, hc.stay hn harc⟩

omit [Zero E] in
/-- A walk that ends on a free slot leaves no arc over the hole. -/
theorem Closing.finish {start l q s : Fin N} {n : ℕ} (hc : Closing K start l h q n)
    (hs : h.occupied s = false) (hn : cdist start s = n) (p : Fin N)
    (hp : h.occupied p = true) : ¬ OnArc (K.home (h.buckets p)) p q := by
  obtain hfree | ⟨hq, -, -, hpassed⟩ := hc.phase
  · exact hfree p hp
  · rcases lt_trichotomy (cdist start p) n with hlt | heq | hgt
    · exact hpassed p hp hlt
    · rw [cdist_injective start (heq.trans hn.symm), hs] at hp
      simp at hp
    · have hsq : s ≠ q := by
        rintro rfl
        omega
      have hnot : ¬ OnArc (K.home (h.buckets p)) p s := by
        intro harc
        have := hc.filled p hp s harc hsq
        rw [hs] at this
        simp at this
      exact not_onArc_of_before (h := start) hnot (by omega) (by omega)

/-- After the walk: no arc has a hole, and some slot is free. -/
def Closed (K : KeyOps E) (h : HashTab N E) : Prop :=
  (∀ p, h.occupied p = true → ∀ r, OnArc (K.home (h.buckets p)) p r → h.occupied r = true) ∧
    ∃ q, h.occupied q = false

omit [Zero E] in
theorem Closing.closed {start l q : Fin N} {n : ℕ} (hc : Closing K start l h q n)
    (hfree : ∀ p, h.occupied p = true → ¬ OnArc (K.home (h.buckets p)) p q) :
    Closed K h := by
  refine ⟨fun p hp r hr => hc.filled p hp r hr ?_, q, hc.hole⟩
  rintro rfl
  exact hfree p hp hr

theorem sameContents_closeStep {start l q s : Fin N} {n : ℕ}
    (hc : Closing K start l h q n) (hs : h.occupied s = true) :
    SameContents K h (closeStep K h s) := by
  rcases closeStep_eq hc hs with ⟨-, hstep⟩ | ⟨-, hstep⟩
  · rw [hstep]
    exact sameContents_moveElem hs hc.hole
  · rw [hstep]
    exact SameContents.refl h

/-- **The walk closes the cluster.**  The fuel is the number of slots left. -/
theorem closeLoop_spec {start l : Fin N} : ∀ (fuel : ℕ) (h : HashTab N E) (q s : Fin N),
    N ≤ fuel + cdist start s → Closing K start l h q (cdist start s) →
      Closed K (closeLoop K start fuel h s) ∧
        SameContents K h (closeLoop K start fuel h s) := by
  intro fuel
  induction fuel with
  | zero =>
      intro h q s hfuel _
      have := cdist_lt start s
      omega
  | succ fuel ih =>
      intro h q s hfuel hc
      rw [closeLoop]
      split_ifs with hocc hback
      · obtain ⟨q', hc'⟩ := hc.step hocc rfl
        refine ⟨hc'.closed ?_, sameContents_closeStep hc hocc⟩
        have hlast := cdist_of_add_one_eq hback
        obtain hfree | ⟨-, hle, -, -⟩ := hc'.phase
        · exact hfree
        · have := cdist_lt start l
          omega
      · obtain ⟨q', hc'⟩ := hc.step hocc rfl
        have hstep := cdist_add_one hback
        rw [← hstep] at hc'
        obtain ⟨hclosed, hsame⟩ := ih (closeStep K h s) q' (s + 1) (by omega) hc'
        exact ⟨hclosed, (sameContents_closeStep hc hocc).trans hsame⟩
      · exact ⟨hc.closed (hc.finish (by simpa using hocc) rfl), SameContents.refl h⟩

/-! ## The deleted slot -/

/-- The table with which `hash_delete` starts the walk. -/
def dropElem (h : HashTab N E) (i : Fin N) : HashTab N E :=
  { h.clearElem i with elemCnt := h.elemCnt - 1 }

omit [NeZero N] in
theorem occupied_dropElem {i p : Fin N} :
    (dropElem h i).occupied p = true ↔ p ≠ i ∧ h.occupied p = true := by
  by_cases hp : p = i <;> simp [dropElem, HashTab.clearElem, hp]

omit [NeZero N] in
theorem buckets_dropElem_of_ne {i p : Fin N} (hp : p ≠ i) :
    (dropElem h i).buckets p = h.buckets p := by
  simp [dropElem, HashTab.clearElem, Function.update_of_ne hp]

omit [NeZero N] in
theorem card_dropElem {i : Fin N} (hi : h.occupied i = true) :
    (dropElem h i).slots.card + 1 = h.slots.card := by
  have hmem : i ∈ h.slots := HashTab.mem_slots.mpr hi
  have hslots : (dropElem h i).slots = h.slots.erase i := by
    ext p
    rw [HashTab.mem_slots, occupied_dropElem, Finset.mem_erase, HashTab.mem_slots]
  rw [hslots]
  exact Finset.card_erase_add_one hmem

theorem distinct_dropElem (hwf : WF K h) {i : Fin N} :
    ∀ p q, (dropElem h i).occupied p = true → (dropElem h i).occupied q = true →
      K.comp ((dropElem h i).buckets p) ((dropElem h i).buckets q) = 0 → p = q := by
  intro p q hp hq hpq
  obtain ⟨hpi, hp⟩ := occupied_dropElem.mp hp
  obtain ⟨hqi, hq⟩ := occupied_dropElem.mp hq
  rw [buckets_dropElem_of_ne hpi, buckets_dropElem_of_ne hqi] at hpq
  exact hwf.distinct p q hp hq hpq

/-- The elements with other keys are left. -/
theorem stored_dropElem (hK : K.Lawful) (hwf : WF K h) {i : Fin N} {e : E}
    (hi : h.occupied i = true) (hcomp : K.comp (h.buckets i) e = 0) (x : E) :
    (dropElem h i).Stored x ↔ h.Stored x ∧ K.comp x e ≠ 0 := by
  constructor
  · rintro ⟨p, hp, rfl⟩
    obtain ⟨hpi, hp⟩ := occupied_dropElem.mp hp
    rw [buckets_dropElem_of_ne hpi]
    refine ⟨⟨p, hp, rfl⟩, fun hpe => hpi ?_⟩
    exact hwf.distinct p i hp hi (hK.trans hpe (hK.symm hcomp))
  · rintro ⟨⟨p, hp, rfl⟩, hpe⟩
    have hpi : p ≠ i := by
      rintro rfl
      exact hpe hcomp
    exact ⟨p, occupied_dropElem.mpr ⟨hpi, hp⟩, buckets_dropElem_of_ne hpi⟩

/-- The walk starts in a good state; the spare slot of the table is its spare slot. -/
theorem closing_dropElem (hwf : WF K h) (i : Fin N) :
    ∃ l, Closing K i l (dropElem h i) i (cdist i (i + 1)) := by
  obtain ⟨l, hl⟩ := hwf.spare
  refine ⟨l, by simp [dropElem, HashTab.clearElem], fun p hp r hr hri => ?_, ?_⟩
  · obtain ⟨hpi, hp⟩ := occupied_dropElem.mp hp
    rw [buckets_dropElem_of_ne hpi] at hr
    exact occupied_dropElem.mpr ⟨hri, hwf.filled p hp r hr⟩
  · by_cases hil : i = l
    · refine Or.inl fun p hp => ?_
      obtain ⟨hpi, hp⟩ := occupied_dropElem.mp hp
      rw [buckets_dropElem_of_ne hpi, hil]
      exact hl p hp (hil ▸ hpi)
    · have hdist : 0 < cdist i l := Nat.pos_of_ne_zero fun h0 => hil (cdist_eq_zero.mp h0)
      have hback : i + 1 ≠ i := by
        intro hback
        have h1 := cdist_of_add_one_eq hback
        have h2 := cdist_lt i l
        rw [cdist_self] at h1
        omega
      rw [cdist_add_one hback, cdist_self]
      refine Or.inr ⟨by omega, hdist, fun p hp hpl => ?_, fun p hp hp1 => ?_⟩
      · obtain ⟨hpi, hp⟩ := occupied_dropElem.mp hp
        rw [buckets_dropElem_of_ne hpi]
        exact hl p hp hpl
      · have hpi : i = p := cdist_eq_zero.mp (by omega)
        exact absurd hpi.symm (occupied_dropElem.mp hp).1

/-- **Deletion.**  It succeeds exactly when the key is present, and then removes
that key and nothing else. -/
theorem hashDelete_spec (hK : K.Lawful) (hwf : WF K h) (e : E) :
    ((∀ x, h.Stored x → K.comp x e ≠ 0) ∧ hashDelete K h e = (h, false)) ∨
      ((∃ x, h.Stored x ∧ K.comp x e = 0) ∧ (hashDelete K h e).2 = true ∧
        WF K (hashDelete K h e).1 ∧
        (∀ x, (hashDelete K h e).1.Stored x ↔ h.Stored x ∧ K.comp x e ≠ 0) ∧
        (hashDelete K h e).1.elemCnt + 1 = h.elemCnt) := by
  have hspec := probe_spec K h e
  rw [hashDelete]
  cases hprobe : probe K h e with
  | free i =>
      have hfind : hashFind K h e = none := by rw [hashFind, hprobe]
      exact Or.inl ⟨(hashFind_eq_none_iff hK hwf).mp hfind, rfl⟩
  | wrapped =>
      have hfind : hashFind K h e = none := by rw [hashFind, hprobe]
      exact Or.inl ⟨(hashFind_eq_none_iff hK hwf).mp hfind, rfl⟩
  | hit i =>
      rw [hprobe] at hspec
      obtain ⟨hocc, hcomp⟩ := hspec
      refine Or.inr ⟨⟨_, ⟨i, hocc, rfl⟩, hcomp⟩, rfl, ?_⟩
      show WF K (closeLoop K i N (dropElem h i) (i + 1)) ∧ _
      obtain ⟨l, hc⟩ := closing_dropElem hwf i
      obtain ⟨⟨hfilled, q, hq⟩, hsame⟩ :=
        closeLoop_spec N (dropElem h i) i (i + 1) (by omega) hc
      have hcard := card_dropElem hocc
      have hcnt : (dropElem h i).elemCnt = h.slots.card - 1 := by
        rw [← hwf.cnt]
        rfl
      refine ⟨⟨?_, hsame.distinct (distinct_dropElem hwf), hfilled, q, fun p hp _ hpq => ?_⟩,
        fun x => (hsame.stored x).trans (stored_dropElem hK hwf hocc hcomp x), ?_⟩
      · rw [hsame.cnt, hsame.card, hcnt]
        omega
      · have := hfilled p hp q hpq
        rw [hq] at this
        simp at this
      · show (closeLoop K i N (dropElem h i) (i + 1)).elemCnt + 1 = h.elemCnt
        rw [hsame.cnt, hcnt, hwf.cnt]
        omega

end Deletion

/-! ## The table as a finite map -/

section Refinement

variable {N : ℕ} [NeZero N] {E : Type} [Zero E] {K : KeyOps E}

/-- The calls of the table interface. -/
inductive TableOp (E : Type) where
  | insert (e : E)
  | replace (e : E)
  | delete (e : E)
  | clear
  | find (e : E)

/-- What a call returns: a status, an element or null, or nothing. -/
inductive TableResult (E : Type) where
  | status (success : Bool)
  | element (found : Option E)
  | done

/-- One call on the table. -/
def tableStep (K : KeyOps E) (h : HashTab N E) : TableOp E → HashTab N E × TableResult E
  | .insert e => ((hashInsert K h e).1, .status (hashInsert K h e).2)
  | .replace e => ((hashReplace K h e).1, .status (hashReplace K h e).2)
  | .delete e => ((hashDelete K h e).1, .status (hashDelete K h e).2)
  | .clear => (hashClear h, .done)
  | .find e => (h, .element ((hashFind K h e).map h.buckets))

/-- An element has the key of `e`. -/
def sameKey (K : KeyOps E) (e x : E) : Bool := K.comp x e = 0

/-- The map without the key of `e`. -/
def dropKey (K : KeyOps E) (e : E) (m : List E) : List E := m.filter fun x => ! sameKey K e x

/-- **The abstract finite map of capacity `N`**, as the list of its elements: a
stored element replaces the one with its key, a lookup returns the element with
the key. -/
def mapStep (N : ℕ) (K : KeyOps E) (m : List E) : TableOp E → List E × TableResult E
  | .insert e =>
      if m.length = N then (m, .status false) else (e :: dropKey K e m, .status true)
  | .replace e =>
      if m.any (sameKey K e) then (e :: dropKey K e m, .status true) else (m, .status false)
  | .delete e =>
      if m.any (sameKey K e) then (dropKey K e m, .status true) else (m, .status false)
  | .clear => ([], .done)
  | .find e => (m, .element (m.find? (sameKey K e)))

/-- No two elements of the list have the same key. -/
def DistinctKeys (K : KeyOps E) (m : List E) : Prop := m.Pairwise fun x y => K.comp x y ≠ 0

omit [Zero E] in
theorem mem_dropKey {e x : E} {m : List E} : x ∈ dropKey K e m ↔ x ∈ m ∧ K.comp x e ≠ 0 := by
  simp [dropKey, sameKey]

omit [Zero E] in
theorem DistinctKeys.dropKey {m : List E} (hm : DistinctKeys K m) (e : E) :
    DistinctKeys K (dropKey K e m) :=
  List.Pairwise.filter _ hm

omit [Zero E] in
theorem DistinctKeys.cons_dropKey (hK : K.Lawful) {m : List E} (hm : DistinctKeys K m)
    (e : E) : DistinctKeys K (e :: BaremetalDhcp.dropKey K e m) := by
  refine List.pairwise_cons.mpr ⟨fun x hx hcomp => ?_, hm.dropKey e⟩
  exact (mem_dropKey.mp hx).2 (hK.symm hcomp)

omit [Zero E] in
/-- Dropping a key that is not there drops nothing. -/
theorem dropKey_of_absent {e : E} {m : List E} (h : ∀ x ∈ m, K.comp x e ≠ 0) :
    dropKey K e m = m := by
  rw [dropKey, List.filter_eq_self]
  intro x hx
  simpa [sameKey] using h x hx

omit [Zero E] in
/-- Dropping a key that is there drops one element. -/
theorem length_dropKey_of_mem (hK : K.Lawful) {e x : E} {m : List E} (hm : DistinctKeys K m)
    (hx : x ∈ m) (hcomp : K.comp x e = 0) : (dropKey K e m).length + 1 = m.length := by
  induction m with
  | nil => simp at hx
  | cons y m ih =>
      obtain ⟨hy, hm⟩ := List.pairwise_cons.mp hm
      by_cases hye : K.comp y e = 0
      · have habsent : ∀ z ∈ m, K.comp z e ≠ 0 := fun z hz hze =>
          hy z hz (hK.trans hye (hK.symm hze))
        have hdrop : dropKey K e (y :: m) = dropKey K e m := by
          simp [dropKey, sameKey, hye]
        rw [hdrop, dropKey_of_absent habsent, List.length_cons]
      · have hxm : x ∈ m := by
          rcases List.mem_cons.mp hx with rfl | hxm
          · exact absurd hcomp hye
          · exact hxm
        have hkeep : dropKey K e (y :: m) = y :: dropKey K e m := by
          simp [dropKey, sameKey, hye]
        rw [hkeep, List.length_cons, List.length_cons, ih hm hxm]

omit [Zero E] in
/-- A lookup in a list with distinct keys finds the element with the key. -/
theorem find_sameKey (hK : K.Lawful) {e x : E} {m : List E} (hm : DistinctKeys K m)
    (hx : x ∈ m) (hcomp : K.comp x e = 0) : m.find? (sameKey K e) = some x := by
  induction m with
  | nil => simp at hx
  | cons y m ih =>
      obtain ⟨hy, hm⟩ := List.pairwise_cons.mp hm
      rcases List.mem_cons.mp hx with rfl | hxm
      · exact List.find?_cons_of_pos (by simpa [sameKey] using hcomp)
      · have hye : K.comp y e ≠ 0 := fun hye => hy x hxm (hK.trans hye (hK.symm hcomp))
        rw [List.find?_cons_of_neg (by simpa [sameKey] using hye)]
        exact ih hm hxm

/-- The table `h` represents the map `m`. -/
structure Represents (K : KeyOps E) (h : HashTab N E) (m : List E) : Prop where
  wf : WF K h
  mem_iff : ∀ x, x ∈ m ↔ h.Stored x
  distinct : DistinctKeys K m
  length : m.length = h.elemCnt

omit [Zero E] in
theorem Represents.any_iff {h : HashTab N E} {m : List E} (hr : Represents K h m) (e : E) :
    m.any (sameKey K e) = true ↔ ∃ x, h.Stored x ∧ K.comp x e = 0 := by
  rw [List.any_eq_true]
  exact exists_congr fun x => by rw [hr.mem_iff]; simp [sameKey]

omit [Zero E] in
theorem Represents.any_eq_false {h : HashTab N E} {m : List E} (hr : Represents K h m)
    {e : E} (habsent : ∀ x, h.Stored x → K.comp x e ≠ 0) : m.any (sameKey K e) = false := by
  rw [← Bool.not_eq_true, hr.any_iff]
  rintro ⟨x, hx, hcomp⟩
  exact habsent x hx hcomp

omit [Zero E] in
/-- Lookups agree. -/
theorem Represents.find (hK : K.Lawful) {h : HashTab N E} {m : List E}
    (hr : Represents K h m) (e : E) :
    (hashFind K h e).map h.buckets = m.find? (sameKey K e) := by
  cases hfind : hashFind K h e with
  | none =>
      have habsent := (hashFind_eq_none_iff hK hr.wf).mp hfind
      symm
      rw [Option.map_none, List.find?_eq_none]
      intro x hx
      simpa [sameKey] using habsent x ((hr.mem_iff x).mp hx)
  | some i =>
      obtain ⟨hocc, hcomp⟩ := (hashFind_eq_some_iff hK hr.wf).mp hfind
      exact (find_sameKey hK hr.distinct ((hr.mem_iff _).mpr ⟨i, hocc, rfl⟩) hcomp).symm

/-- One call keeps the representation and returns what the map returns. -/
theorem Represents.step (hK : K.Lawful) {h : HashTab N E} {m : List E}
    (hr : Represents K h m) (op : TableOp E) :
    (tableStep K h op).2 = (mapStep N K m op).2 ∧
      Represents K (tableStep K h op).1 (mapStep N K m op).1 := by
  have hmem : ∀ {h' : HashTab N E} {e : E},
      (∀ x, h'.Stored x ↔ x = e ∨ h.Stored x ∧ K.comp x e ≠ 0) →
      ∀ x, x ∈ e :: dropKey K e m ↔ h'.Stored x := by
    intro h' e hstored x
    rw [List.mem_cons, mem_dropKey, hr.mem_iff, hstored]
  cases op with
  | insert e =>
      simp only [tableStep, mapStep]
      rcases hashInsert_spec hK hr.wf e with ⟨hfull, heq⟩ | ⟨hlt, hok, hwf, hstored, hcnt⟩
      · rw [if_pos (hr.length.trans hfull), heq]
        exact ⟨rfl, hr⟩
      · have hlen := hr.length
        rw [if_neg (by omega), hok]
        refine ⟨rfl, hwf, hmem hstored, hr.distinct.cons_dropKey hK e, ?_⟩
        rcases hcnt with ⟨⟨x, hx, hcomp⟩, hsame⟩ | ⟨habsent, hsucc⟩
        · rw [hsame, ← hlen, List.length_cons]
          exact length_dropKey_of_mem hK hr.distinct ((hr.mem_iff x).mpr hx) hcomp
        · rw [hsucc, List.length_cons, dropKey_of_absent fun x hx =>
            habsent x ((hr.mem_iff x).mp hx), hlen]
  | replace e =>
      simp only [tableStep, mapStep]
      rcases hashReplace_spec hK hr.wf e with
        ⟨habsent, heq⟩ | ⟨⟨x, hx, hcomp⟩, hok, hwf, hstored, hcnt⟩
      · rw [hr.any_eq_false habsent, heq]
        exact ⟨rfl, hr⟩
      · rw [if_pos ((hr.any_iff e).mpr ⟨x, hx, hcomp⟩), hok]
        refine ⟨rfl, hwf, hmem hstored, hr.distinct.cons_dropKey hK e, ?_⟩
        rw [hcnt, ← hr.length, List.length_cons]
        exact length_dropKey_of_mem hK hr.distinct ((hr.mem_iff x).mpr hx) hcomp
  | delete e =>
      simp only [tableStep, mapStep]
      rcases hashDelete_spec hK hr.wf e with
        ⟨habsent, heq⟩ | ⟨⟨x, hx, hcomp⟩, hok, hwf, hstored, hcnt⟩
      · rw [hr.any_eq_false habsent, heq]
        exact ⟨rfl, hr⟩
      · rw [if_pos ((hr.any_iff e).mpr ⟨x, hx, hcomp⟩), hok]
        refine ⟨rfl, hwf, fun y => ?_, hr.distinct.dropKey e, ?_⟩
        · rw [mem_dropKey, hr.mem_iff, hstored]
        · have hdrop := length_dropKey_of_mem hK hr.distinct ((hr.mem_iff x).mpr hx) hcomp
          have hlen := hr.length
          change (dropKey K e m).length = _
          omega
  | clear =>
      exact ⟨rfl, hashClear_wf K h, fun x => by simp [tableStep, mapStep, not_stored_hashClear],
        List.Pairwise.nil, rfl⟩
  | find e => exact ⟨congrArg _ (hr.find hK e), hr⟩

/-- **The table refines a finite map, full tables included.**  After any
sequence of calls from `hash_init`, every call so far returned what the map
returned; a lookup yields the element last stored under the key, if it is still
there; an insertion fails, changing nothing, exactly when `elem_cnt = N`; and
`elem_cnt` is the number of occupied slots and of keys. -/
theorem hashTab_refines_map (hK : K.Lawful) (prior : HashTab N E) (ops : List (TableOp E)) :
    let h := Machine.exec (tableStep K) (hashInit prior) ops
    let m := Machine.exec (mapStep N K) [] ops
    Machine.outputs (tableStep K) (hashInit prior) ops = Machine.outputs (mapStep N K) [] ops ∧
      (∀ e, (hashFind K h e).map h.buckets = m.find? (sameKey K e)) ∧
      (∀ e, ((hashInsert K h e).2 = false ↔ h.elemCnt = N) ∧
        ((hashInsert K h e).2 = false → (hashInsert K h e).1 = h)) ∧
      (∀ e, ((hashReplace K h e).2 = true ↔ m.any (sameKey K e)) ∧
        ((hashDelete K h e).2 = true ↔ m.any (sameKey K e))) ∧
      h.elemCnt = h.slots.card ∧ h.elemCnt = m.length ∧ DistinctKeys K m := by
  intro h m
  have hinit : Represents K (hashInit prior) ([] : List E) :=
    ⟨hashClear_wf K prior, fun x => by simp [hashInit, not_stored_hashClear],
      List.Pairwise.nil, rfl⟩
  have hsim : ∀ (s : HashTab N E) (m : List E) (op : TableOp E), Represents K s m → True →
      (tableStep K s op).2 = (mapStep N K m op).2 ∧
        Represents K (tableStep K s op).1 (mapStep N K m op).1 :=
    fun _ _ op hr _ => hr.step hK op
  obtain ⟨hout, hr⟩ := Machine.simulation hsim ops (hashInit prior) [] hinit
    (Machine.along_of_forall (fun _ _ => trivial) ops _)
  change Represents K h m at hr
  refine ⟨hout, hr.find hK, fun e => ?_, fun e => ⟨?_, ?_⟩, hr.wf.cnt, hr.length.symm, hr.distinct⟩
  · rcases hashInsert_spec hK hr.wf e with ⟨hfull, heq⟩ | ⟨hlt, hok, -⟩
    · exact ⟨iff_of_true (by rw [heq]) hfull, fun _ => by rw [heq]⟩
    · refine ⟨iff_of_false (by simp [hok]) (by omega), fun hfail => ?_⟩
      rw [hok] at hfail
      simp at hfail
  · rw [hr.any_iff]
    rcases hashReplace_spec hK hr.wf e with ⟨habsent, heq⟩ | ⟨hpresent, hok, -⟩
    · refine iff_of_false (by simp [heq]) ?_
      rintro ⟨x, hx, hcomp⟩
      exact habsent x hx hcomp
    · exact iff_of_true hok hpresent
  · rw [hr.any_iff]
    rcases hashDelete_spec hK hr.wf e with ⟨habsent, heq⟩ | ⟨hpresent, hok, -⟩
    · refine iff_of_false (by simp [heq]) ?_
      rintro ⟨x, hx, hcomp⟩
      exact habsent x hx hcomp
    · exact iff_of_true hok hpresent

/-- Numbers as their own keys. -/
def natKeys : KeyOps ℕ where
  hash n := UInt32.ofNat n
  comp a b := a - b

theorem natKeys_lawful : natKeys.Lawful := by
  have heq : ∀ {a b : ℕ}, natKeys.comp a b = 0 → a = b := by
    intro a b hab
    simp only [natKeys] at hab
    omega
  refine ⟨fun a => by simp [natKeys], fun hab => ?_, fun hab hbc => ?_, fun hab => ?_⟩
  · rw [heq hab]
    simp [natKeys]
  · rw [heq hab]
    exact hbc
  · rw [heq hab]

/-- A table of two slots, dirty before `hash_init`, filled to the brim with
colliding keys, refused a third, then relieved of the first: the second is still
found. -/
theorem hashTab_refines_map_two_slots :
    natKeys.Lawful ∧
      Machine.outputs (tableStep natKeys)
          (hashInit (⟨fun _ => 7, fun _ => true, 5⟩ : HashTab 2 ℕ))
          [.insert 1, .insert 3, .insert 5, .delete 1, .find 3, .find 1] =
        [.status true, .status true, .status false, .status true, .element (some 3),
          .element none] :=
  ⟨natKeys_lawful, (hashTab_refines_map natKeys_lawful _ _).1.trans rfl⟩

end Refinement

end BaremetalDhcp
