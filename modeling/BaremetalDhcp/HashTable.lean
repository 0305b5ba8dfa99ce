import BaremetalDhcp.Lib.Cyclic
import BaremetalDhcp.Lib.Machine

/-!
# The open-addressing hash table of `ds-lib`

`ds-lib/hash.c` generates, for a capacity `HASH_N` and an element type, a table
with linear probing: an array of buckets, an array of occupied flags and an
element count.  The model is generic in both, as the macro is: the slots are
`Fin N`, the elements any type with a zero (what `clear_elem` writes), and the
hash and comparison functions are arguments.

## Deletion

`hash_delete` clears the slot and then walks the rest of the cluster; an element
whose probe arc runs over the hole moves into it, and its old slot is the new
hole.  The invariant that makes lookups work is that every slot on the arc from
an element's home to its position is occupied (`WF.filled`).  On a full table
this says nothing, and the walk goes all the way round.  What saves it is where
the last free slot was: `WF.spare` asks for one slot that no *other* element's
arc runs over, and on a full table that is the slot filled last.

The spec lemmas (`hashFind_eq_some_iff`, `hashInsert_spec`, `hashReplace_spec`
here, `hashDelete_spec` in `BaremetalDhcp.HashTableRefinement`) speak only of the
stored elements, and are all the rest of the development uses.
-/

namespace BaremetalDhcp

open Cyclic

/-- `hash_hash_func` and `hash_comp_func`, with their auxiliary argument. -/
structure KeyOps (E : Type) where
  hash : E → UInt32
  comp : E → E → ℤ

/-- `comp a b = 0` says that two elements have the same key: it is an
equivalence, and the hash respects it. -/
structure KeyOps.Lawful {E : Type} (K : KeyOps E) : Prop where
  refl : ∀ a, K.comp a a = 0
  symm : ∀ {a b}, K.comp a b = 0 → K.comp b a = 0
  trans : ∀ {a b c}, K.comp a b = 0 → K.comp b c = 0 → K.comp a c = 0
  hash_eq : ∀ {a b}, K.comp a b = 0 → K.hash a = K.hash b

/-- `hash(e) % capacity`: the slot where the probe for `e` starts. -/
def KeyOps.home {E : Type} (K : KeyOps E) {N : ℕ} [NeZero N] (e : E) : Fin N :=
  Fin.ofNat N (K.hash e).toNat

/-- `struct hash_tab`. -/
structure HashTab (N : ℕ) (E : Type) where
  buckets : Fin N → E
  occupied : Fin N → Bool
  elemCnt : ℕ

namespace HashTab

variable {N : ℕ} {E : Type}

/-- `insert_elem`: mark the slot and copy the element. -/
def insertElem (h : HashTab N E) (i : Fin N) (e : E) : HashTab N E :=
  { h with
    occupied := Function.update h.occupied i true
    buckets := Function.update h.buckets i e }

/-- `replace_elem`: copy the element over an occupied bucket. -/
def replaceElem (h : HashTab N E) (i : Fin N) (e : E) : HashTab N E :=
  { h with buckets := Function.update h.buckets i e }

/-- `clear_elem`: unmark the slot and zero the bucket. -/
def clearElem [Zero E] (h : HashTab N E) (i : Fin N) : HashTab N E :=
  { h with
    occupied := Function.update h.occupied i false
    buckets := Function.update h.buckets i 0 }

end HashTab

section Operations

variable {N : ℕ} [NeZero N] {E : Type}

/-- `hash_clear`. -/
def hashClear [Zero E] (_h : HashTab N E) : HashTab N E where
  buckets := fun _ => 0
  occupied := fun _ => false
  elemCnt := 0

/-- `hash_init`: the prior contents are cleared. -/
def hashInit [Zero E] (h : HashTab N E) : HashTab N E := hashClear h

/-- How a probe ends: on an element with the key, on a free slot, or back at
its start. -/
inductive Probe (N : ℕ) where
  | hit (i : Fin N)
  | free (i : Fin N)
  | wrapped

/-- The probing loop of `hash_find`, `hash_insert` and `hash_delete`. -/
def probeLoop (K : KeyOps E) (h : HashTab N E) (e : E) (start : Fin N) :
    ℕ → Fin N → Probe N
  | 0, _ => .wrapped
  | fuel + 1, i =>
      if h.occupied i then
        if K.comp (h.buckets i) e = 0 then .hit i
        else if i + 1 = start then .wrapped
        else probeLoop K h e start fuel (i + 1)
      else .free i

/-- The probe from the home slot; it visits each slot at most once. -/
def probe (K : KeyOps E) (h : HashTab N E) (e : E) : Probe N :=
  probeLoop K h e (K.home e) N (K.home e)

/-- `hash_find`: the slot of the bucket that the returned pointer points to. -/
def hashFind (K : KeyOps E) (h : HashTab N E) (e : E) : Option (Fin N) :=
  match probe K h e with
  | .hit i => some i
  | _ => none

/-- `hash_insert`: the new table and whether the call succeeded. -/
def hashInsert (K : KeyOps E) (h : HashTab N E) (new : E) : HashTab N E × Bool :=
  if N = h.elemCnt then (h, false)
  else
    match probe K h new with
    | .hit i => (h.replaceElem i new, true)
    | .free i => ({ h.insertElem i new with elemCnt := h.elemCnt + 1 }, true)
    | .wrapped => (h, false)

/-- `hash_replace`. -/
def hashReplace (K : KeyOps E) (h : HashTab N E) (new : E) : HashTab N E × Bool :=
  match hashFind K h new with
  | some i => (h.replaceElem i new, true)
  | none => (h, false)

/-- The inner loop of `hash_delete`: the first free slot from `i` on, stopping
at `next`. -/
def movableLoop (h : HashTab N E) (next : Fin N) : ℕ → Fin N → Fin N
  | 0, i => i
  | fuel + 1, i =>
      if i ≠ next then
        if ¬ h.occupied i then i else movableLoop h next fuel (i + 1)
      else i

/-- One turn of the outer loop of `hash_delete`, at the occupied slot `next`. -/
def closeStep [Zero E] (K : KeyOps E) (h : HashTab N E) (next : Fin N) : HashTab N E :=
  let expected : Fin N := K.home (h.buckets next)
  if expected ≠ next then
    let movable := movableLoop h next N expected
    if movable ≠ next then (h.insertElem movable (h.buckets next)).clearElem next else h
  else h

/-- The outer loop of `hash_delete`. -/
def closeLoop [Zero E] (K : KeyOps E) (start : Fin N) :
    ℕ → HashTab N E → Fin N → HashTab N E
  | 0, h, _ => h
  | fuel + 1, h, next =>
      if h.occupied next then
        if next + 1 = start then closeStep K h next
        else closeLoop K start fuel (closeStep K h next) (next + 1)
      else h

/-- `hash_delete`. -/
def hashDelete [Zero E] (K : KeyOps E) (h : HashTab N E) (e : E) : HashTab N E × Bool :=
  match probe K h e with
  | .hit i =>
      (closeLoop K i N { h.clearElem i with elemCnt := h.elemCnt - 1 } (i + 1), true)
  | _ => (h, false)

/-- `hash_size`. -/
def hashSize (h : HashTab N E) : ℕ := h.elemCnt

end Operations

/-! ## What a table stores -/

section Theory

variable {N : ℕ} [NeZero N] {E : Type} {K : KeyOps E} {h : HashTab N E} {e : E}

/-- `x` is the element of some occupied slot. -/
def HashTab.Stored (h : HashTab N E) (x : E) : Prop :=
  ∃ p, h.occupied p = true ∧ h.buckets p = x

/-- The occupied slots. -/
def HashTab.slots (h : HashTab N E) : Finset (Fin N) :=
  Finset.univ.filter fun p => h.occupied p = true

omit [NeZero N] in
@[simp] theorem HashTab.mem_slots {p : Fin N} : p ∈ h.slots ↔ h.occupied p = true := by
  simp [HashTab.slots]

/-- The table invariant. -/
structure WF (K : KeyOps E) (h : HashTab N E) : Prop where
  /-- The counter counts the occupied slots. -/
  cnt : h.elemCnt = h.slots.card
  /-- No key is stored twice. -/
  distinct : ∀ p q, h.occupied p = true → h.occupied q = true →
    K.comp (h.buckets p) (h.buckets q) = 0 → p = q
  /-- The arc from an element's home to its slot has no hole. -/
  filled : ∀ p, h.occupied p = true → ∀ q, OnArc (K.home (h.buckets p)) p q →
    h.occupied q = true
  /-- Some slot is on no other element's arc: a free one, or on a full table the
  one that was filled last. -/
  spare : ∃ l, ∀ p, h.occupied p = true → p ≠ l → ¬ OnArc (K.home (h.buckets p)) p l

omit [NeZero N] in
theorem HashTab.card_slots_le (h : HashTab N E) : h.slots.card ≤ N := by
  simpa using Finset.card_le_univ h.slots

theorem hashClear_wf [Zero E] (K : KeyOps E) (h : HashTab N E) : WF K (hashClear h) where
  cnt := by simp [hashClear, HashTab.slots]
  distinct := by simp [hashClear]
  filled := by simp [hashClear]
  spare := ⟨0, by simp [hashClear]⟩

theorem not_stored_hashClear [Zero E] (h : HashTab N E) (x : E) :
    ¬ (hashClear h).Stored x := by
  simp [HashTab.Stored, hashClear]

omit [NeZero N] in
/-- Elements with the same key have the same home. -/
theorem KeyOps.Lawful.home_eq [NeZero N] (hK : K.Lawful) {a b : E} (hab : K.comp a b = 0) :
    (K.home a : Fin N) = K.home b := by
  rw [KeyOps.home, KeyOps.home, hK.hash_eq hab]

/-! ## Probing -/

/-- The slots passed before `i` on the way from the home of `e` are occupied by
other keys. -/
def PassedBefore (K : KeyOps E) (h : HashTab N E) (e : E) (n : ℕ) : Prop :=
  ∀ q, cdist (K.home e) q < n → h.occupied q = true ∧ K.comp (h.buckets q) e ≠ 0

/-- What the end of a probe says about the table. -/
def ProbeSpec (K : KeyOps E) (h : HashTab N E) (e : E) : Probe N → Prop
  | .hit i => h.occupied i = true ∧ K.comp (h.buckets i) e = 0
  | .free i => h.occupied i = false ∧ PassedBefore K h e (cdist (K.home e) i)
  | .wrapped => PassedBefore K h e N

/-- One step further, the passed slots are those before and the current one. -/
theorem PassedBefore.succ {n : ℕ} {i : Fin N} (hpass : PassedBefore K h e n)
    (hn : cdist (K.home e) i = n) (hocc : h.occupied i = true)
    (hne : K.comp (h.buckets i) e ≠ 0) : PassedBefore K h e (n + 1) := by
  intro q hq
  rcases Nat.lt_succ_iff_lt_or_eq.mp hq with hlt | heq
  · exact hpass q hlt
  · obtain rfl : q = i := cdist_injective _ (heq.trans hn.symm)
    exact ⟨hocc, hne⟩

theorem probeLoop_spec : ∀ (fuel : ℕ) (i : Fin N),
    fuel + cdist (K.home e) i = N → PassedBefore K h e (cdist (K.home e) i) →
      ProbeSpec K h e (probeLoop K h e (K.home e) fuel i) := by
  intro fuel
  induction fuel with
  | zero =>
      intro i hfuel _
      have := cdist_lt (K.home e) i
      omega
  | succ fuel ih =>
      intro i hfuel hpass
      rw [probeLoop]
      split_ifs with hocc hcomp hback
      · exact ⟨hocc, hcomp⟩
      · have hlast := cdist_of_add_one_eq hback
        have hall := hpass.succ rfl hocc hcomp
        rwa [hlast] at hall
      · have hstep := cdist_add_one hback
        refine ih (i + 1) (by omega) ?_
        rw [hstep]
        exact hpass.succ rfl hocc hcomp
      · exact ⟨by simpa using hocc, hpass⟩

theorem probe_spec (K : KeyOps E) (h : HashTab N E) (e : E) :
    ProbeSpec K h e (probe K h e) := by
  refine probeLoop_spec N (K.home e) (by simp) fun q hq => ?_
  simp at hq

/-- **Lookup.**  On a well-formed table a probe hits exactly the slot that
stores the key. -/
theorem hashFind_eq_some_iff (hK : K.Lawful) (hwf : WF K h) {i : Fin N} :
    hashFind K h e = some i ↔ h.occupied i = true ∧ K.comp (h.buckets i) e = 0 := by
  have hspec := probe_spec K h e
  rw [hashFind]
  constructor
  · intro hfound
    cases hprobe : probe K h e with
    | hit j =>
        rw [hprobe] at hspec hfound
        obtain rfl : j = i := by simpa using hfound
        exact hspec
    | free j => simp [hprobe] at hfound
    | wrapped => simp [hprobe] at hfound
  · rintro ⟨hocc, hcomp⟩
    cases hprobe : probe K h e with
    | hit j =>
        rw [hprobe] at hspec
        have hkeys : K.comp (h.buckets j) (h.buckets i) = 0 :=
          hK.trans hspec.2 (hK.symm hcomp)
        rw [hwf.distinct j i hspec.1 hocc hkeys]
    | free j =>
        rw [hprobe] at hspec
        -- the free slot would be a hole on the arc to `i`
        have hnear : cdist (K.home e) j ≤ cdist (K.home e) i := by
          by_contra hlt
          exact (hspec.2 i (by omega)).2 hcomp
        have hjocc := hwf.filled i hocc j (by rw [hK.home_eq hcomp]; exact hnear)
        rw [hspec.1] at hjocc
        simp at hjocc
    | wrapped =>
        rw [hprobe] at hspec
        exact absurd hcomp (hspec i (cdist_lt _ _)).2

theorem hashFind_eq_none_iff (hK : K.Lawful) (hwf : WF K h) :
    hashFind K h e = none ↔ ∀ x, h.Stored x → K.comp x e ≠ 0 := by
  constructor
  · rintro hnone x ⟨p, hocc, rfl⟩ hcomp
    rw [(hashFind_eq_some_iff hK hwf).mpr ⟨hocc, hcomp⟩] at hnone
    simp at hnone
  · intro hall
    cases hfind : hashFind K h e with
    | none => rfl
    | some i =>
        obtain ⟨hocc, hcomp⟩ := (hashFind_eq_some_iff hK hwf).mp hfind
        exact absurd hcomp (hall _ ⟨i, hocc, rfl⟩)

/-! ## Insertion and replacement -/

omit [NeZero N] in
theorem HashTab.slots_insertElem {i : Fin N} {x : E} :
    (h.insertElem i x).slots = insert i h.slots := by
  ext p
  by_cases hp : p = i <;> simp [HashTab.insertElem, hp]

/-- Overwriting a bucket with an element of the same key changes no arc. -/
theorem WF.replaceElem (hK : K.Lawful) (hwf : WF K h) {i : Fin N} {new : E}
    (hcomp : K.comp (h.buckets i) new = 0) : WF K (h.replaceElem i new) := by
  have hkey : ∀ p x, K.comp ((h.replaceElem i new).buckets p) x = 0 ↔
      K.comp (h.buckets p) x = 0 := by
    intro p x
    by_cases hp : p = i
    · subst hp
      simp only [HashTab.replaceElem, Function.update_self]
      exact ⟨fun hx => hK.trans hcomp hx, fun hx => hK.trans (hK.symm hcomp) hx⟩
    · simp [HashTab.replaceElem, Function.update_of_ne hp]
  have hhome : ∀ p, (K.home ((h.replaceElem i new).buckets p) : Fin N) =
      K.home (h.buckets p) := fun p => hK.home_eq ((hkey p _).mpr (hK.refl _))
  refine ⟨hwf.cnt, fun p q hp hq hpq => ?_, fun p hp q hq => ?_, ?_⟩
  · rw [hkey] at hpq
    have hpq := hK.symm hpq
    rw [hkey] at hpq
    exact (hwf.distinct q p hq hp hpq).symm
  · rw [hhome] at hq
    exact hwf.filled p hp q hq
  · obtain ⟨l, hl⟩ := hwf.spare
    exact ⟨l, fun p hp hne => by rw [hhome]; exact hl p hp hne⟩

/-- After the replacement the old element of the key is gone and the new one is
stored. -/
theorem stored_replaceElem (hK : K.Lawful) (hwf : WF K h) {i : Fin N} {new : E}
    (hocc : h.occupied i = true) (hcomp : K.comp (h.buckets i) new = 0) (x : E) :
    (h.replaceElem i new).Stored x ↔ x = new ∨ h.Stored x ∧ K.comp x new ≠ 0 := by
  constructor
  · rintro ⟨p, hp, rfl⟩
    by_cases hpi : p = i
    · exact Or.inl (by simp [HashTab.replaceElem, hpi])
    · have hbucket : (h.replaceElem i new).buckets p = h.buckets p := by
        simp [HashTab.replaceElem, Function.update_of_ne hpi]
      rw [hbucket]
      refine Or.inr ⟨⟨p, hp, rfl⟩, fun hsame => hpi ?_⟩
      exact hwf.distinct p i hp hocc (hK.trans hsame (hK.symm hcomp))
  · rintro (rfl | ⟨⟨p, hp, rfl⟩, hne⟩)
    · exact ⟨i, hocc, by simp [HashTab.replaceElem]⟩
    · have hpi : p ≠ i := fun hpi => hne (hpi ▸ hcomp)
      exact ⟨p, hp, by simp [HashTab.replaceElem, Function.update_of_ne hpi]⟩

/-- Filling the free slot where the probe ended. -/
theorem WF.insertElem (hwf : WF K h) {i : Fin N} {new : E}
    (hfree : h.occupied i = false) (hnew : ∀ x, h.Stored x → K.comp x new ≠ 0)
    (hnew' : ∀ x, h.Stored x → K.comp new x ≠ 0)
    (hpass : PassedBefore K h new (cdist (K.home new) i)) :
    WF K { h.insertElem i new with elemCnt := h.elemCnt + 1 } := by
  have hslots : i ∉ h.slots := by simp [hfree]
  have hocc : ∀ {p}, p ≠ i → (h.insertElem i new).occupied p = true →
      h.occupied p = true := by
    intro p hp hoc
    simpa [HashTab.insertElem, Function.update_of_ne hp] using hoc
  have hgrow : ∀ {p}, h.occupied p = true → (h.insertElem i new).occupied p = true := by
    intro p hp
    by_cases hpi : p = i <;> simp [HashTab.insertElem, hpi, hp]
  have hself : (h.insertElem i new).buckets i = new := by simp [HashTab.insertElem]
  have hother : ∀ {p}, p ≠ i → (h.insertElem i new).buckets p = h.buckets p := by
    intro p hp
    simp [HashTab.insertElem, Function.update_of_ne hp]
  refine ⟨?_, fun p q hp hq hpq => ?_, fun p hp q hq => ?_, ⟨i, fun p hp hpi => ?_⟩⟩
  · change h.elemCnt + 1 = (h.insertElem i new).slots.card
    rw [HashTab.slots_insertElem, Finset.card_insert_of_notMem hslots, hwf.cnt]
  · change K.comp ((h.insertElem i new).buckets p) ((h.insertElem i new).buckets q) = 0 at hpq
    by_cases hpi : p = i <;> by_cases hqi : q = i
    · rw [hpi, hqi]
    · rw [hpi, hself, hother hqi] at hpq
      exact absurd hpq (hnew' _ ⟨q, hocc hqi hq, rfl⟩)
    · rw [hqi, hself, hother hpi] at hpq
      exact absurd hpq (hnew _ ⟨p, hocc hpi hp, rfl⟩)
    · rw [hother hpi, hother hqi] at hpq
      exact hwf.distinct p q (hocc hpi hp) (hocc hqi hq) hpq
  · change OnArc (K.home ((h.insertElem i new).buckets p)) p q at hq
    by_cases hpi : p = i
    · subst hpi
      rw [hself] at hq
      rcases Nat.lt_or_eq_of_le hq with hlt | heq
      · exact hgrow (hpass q hlt).1
      · rw [cdist_injective _ heq]
        exact hp
    · rw [hother hpi] at hq
      exact hgrow (hwf.filled p (hocc hpi hp) q hq)
  · change ¬ OnArc (K.home ((h.insertElem i new).buckets p)) p i
    rw [hother hpi]
    intro harc
    have := hwf.filled p (hocc hpi hp) i harc
    rw [hfree] at this
    simp at this

omit [NeZero N] in
theorem stored_insertElem {i : Fin N} {new : E} (hfree : h.occupied i = false) (x : E) :
    (h.insertElem i new).Stored x ↔ x = new ∨ h.Stored x := by
  constructor
  · rintro ⟨p, hp, rfl⟩
    by_cases hpi : p = i
    · exact Or.inl (by simp [HashTab.insertElem, hpi])
    · exact Or.inr ⟨p, by simpa [HashTab.insertElem, Function.update_of_ne hpi] using hp,
        by simp [HashTab.insertElem, Function.update_of_ne hpi]⟩
  · rintro (rfl | ⟨p, hp, rfl⟩)
    · exact ⟨i, by simp [HashTab.insertElem], by simp [HashTab.insertElem]⟩
    · have hpi : p ≠ i := by
        rintro rfl
        rw [hfree] at hp
        simp at hp
      exact ⟨p, by simpa [HashTab.insertElem, Function.update_of_ne hpi] using hp,
        by simp [HashTab.insertElem, Function.update_of_ne hpi]⟩

/-- **Insertion.**  It fails, changing nothing, exactly on a full table;
otherwise the element is stored in place of whatever had its key. -/
theorem hashInsert_spec (hK : K.Lawful) (hwf : WF K h) (new : E) :
    (h.elemCnt = N ∧ hashInsert K h new = (h, false)) ∨
      (h.elemCnt < N ∧ (hashInsert K h new).2 = true ∧ WF K (hashInsert K h new).1 ∧
        (∀ x, (hashInsert K h new).1.Stored x ↔ x = new ∨ h.Stored x ∧ K.comp x new ≠ 0) ∧
        (((∃ x, h.Stored x ∧ K.comp x new = 0) ∧
            (hashInsert K h new).1.elemCnt = h.elemCnt) ∨
          ((∀ x, h.Stored x → K.comp x new ≠ 0) ∧
            (hashInsert K h new).1.elemCnt = h.elemCnt + 1))) := by
  by_cases hfull : N = h.elemCnt
  · exact Or.inl ⟨hfull.symm, by rw [hashInsert, if_pos hfull]⟩
  · have hlt : h.elemCnt < N := by
      have := h.card_slots_le
      rw [← hwf.cnt] at this
      omega
    refine Or.inr ⟨hlt, ?_⟩
    have hspec := probe_spec K h new
    have hfind : hashFind K h new = match probe K h new with
      | .hit i => some i
      | _ => none := rfl
    rw [hashInsert, if_neg hfull]
    cases hprobe : probe K h new with
    | hit i =>
        rw [hprobe] at hspec
        exact ⟨rfl, hwf.replaceElem hK hspec.2, stored_replaceElem hK hwf hspec.1 hspec.2,
          Or.inl ⟨⟨_, ⟨i, hspec.1, rfl⟩, hspec.2⟩, rfl⟩⟩
    | free i =>
        rw [hprobe] at hspec hfind
        have hnone := (hashFind_eq_none_iff hK hwf).mp hfind
        refine ⟨rfl, hwf.insertElem hspec.1 hnone
          (fun x hx hcomp => hnone x hx (hK.symm hcomp)) hspec.2, fun x => ?_,
          Or.inr ⟨hnone, rfl⟩⟩
        refine (stored_insertElem hspec.1 x).trans (or_congr_right ?_)
        exact ⟨fun hx => ⟨hx, hnone x hx⟩, fun hx => hx.1⟩
    | wrapped =>
        -- the probe saw every slot occupied, yet the counter says otherwise
        rw [hprobe] at hspec
        have hall : h.slots = Finset.univ := by
          ext p
          simpa using (hspec p (cdist_lt _ _)).1
        have hcard := hwf.cnt
        rw [hall, Finset.card_univ, Fintype.card_fin] at hcard
        omega

/-- **Replacement.**  It succeeds exactly when the key is present. -/
theorem hashReplace_spec (hK : K.Lawful) (hwf : WF K h) (new : E) :
    ((∀ x, h.Stored x → K.comp x new ≠ 0) ∧ hashReplace K h new = (h, false)) ∨
      ((∃ x, h.Stored x ∧ K.comp x new = 0) ∧ (hashReplace K h new).2 = true ∧
        WF K (hashReplace K h new).1 ∧
        (∀ x, (hashReplace K h new).1.Stored x ↔ x = new ∨ h.Stored x ∧ K.comp x new ≠ 0) ∧
        (hashReplace K h new).1.elemCnt = h.elemCnt) := by
  rw [hashReplace]
  cases hfind : hashFind K h new with
  | none => exact Or.inl ⟨(hashFind_eq_none_iff hK hwf).mp hfind, rfl⟩
  | some i =>
      obtain ⟨hocc, hcomp⟩ := (hashFind_eq_some_iff hK hwf).mp hfind
      exact Or.inr ⟨⟨_, ⟨i, hocc, rfl⟩, hcomp⟩, rfl, hwf.replaceElem hK hcomp,
        stored_replaceElem hK hwf hocc hcomp, rfl⟩

end Theory

end BaremetalDhcp
