import Mathlib.Order.Lattice.Nat
import BaremetalDhcp.BitmapVartime
import BaremetalDhcp.BitmapUnitime

/-!
# Bitmap offers scan forward

Both bitmap backends hand out the slots of one range in order, under a counter
that only a recycle or a move to another range sets back.  The loop of `peek`
increments the counter before it tests the slot, uses address 0 for "nothing
found" and tests its candidate once more after the loop.  This module says what
comes out of that.

* `Epoch` — the range that a peek looks at: its first address, its size, the
  counter and the bits.  `Epoch.free` are the uncommitted slots from the counter on.
* `Epoch.Offers` — the answer is the least of them, and the counter ends behind it.
* `BitmapPool` — what the argument uses of a backend; `varPool` and `uniPool` are
  the two backends of the source.
* `ScansForward` — the answers of every run, and their order between two resets.

A slot counts as committed when its bit is set, which is how the two functions see
it.
-/

namespace BaremetalDhcp

open Machine

/-! ## One scan -/

/-- The range a peek looks at. -/
structure Epoch where
  base : UInt32
  size : UInt32
  counter : UInt32
  ips : ℕ → UInt32

namespace Epoch

/-- The uncommitted slots from the counter on. -/
def free (e : Epoch) : Set ℕ :=
  {s | e.counter.toNat ≤ s ∧ s < e.size.toNat ∧ slotUsed e.ips s = false}

/-- The least free slot is answered, with the counter left behind it; 0 is answered only
without one. -/
structure Offers (e : Epoch) (answer counter : UInt32) : Prop where
  least : ∀ s, IsLeast e.free s → answer.toNat = e.base.toNat + s ∧ counter.toNat = s + 1
  none : answer = 0 → e.free = ∅
  zero : e.free = ∅ → answer = 0

/-- The range lies within the address space and does not start at 0. -/
structure Fits (e : Epoch) : Prop where
  pos : 0 < e.base
  le : e.base.toNat + e.size.toNat ≤ 2 ^ 32

/-- The scan of the range. -/
def scan (e : Epoch) : UInt32 × UInt32 := peekScan e.ips e.base e.size e.counter

variable {e : Epoch}

/-- A slot of the range as an address. -/
theorem Fits.toNat_add (h : e.Fits) {slot : UInt32} (hslot : slot < e.size) :
    (e.base + slot).toNat = e.base.toNat + slot.toNat := by
  have hle := h.le
  rw [UInt32.lt_iff_toNat_lt] at hslot
  rw [UInt32.toNat_add]
  exact Nat.mod_eq_of_lt (by omega)

theorem Fits.add_ne_zero (h : e.Fits) {slot : UInt32} (hslot : slot < e.size) :
    e.base + slot ≠ 0 := by
  have hpos := UInt32.lt_iff_toNat_lt.mp h.pos
  intro hzero
  have hsum := h.toNat_add hslot
  rw [hzero] at hsum
  simp only [UInt32.toNat_zero] at hpos hsum
  omega

/-- The counter never moves back in a scan. -/
theorem counter_le_scan (e : Epoch) : e.counter.toNat ≤ e.scan.1.toNat := by
  have hresult := peekScan_spec e.ips e.base e.size e.counter
  rw [scan]
  generalize peekScan e.ips e.base e.size e.counter = result at hresult ⊢
  cases hresult with
  | found slot hfrom hslot _ _ =>
      rw [UInt32.le_iff_toNat_le] at hfrom
      rw [toNat_counter_succ hslot]
      omega
  | exhausted hlt _ => exact (UInt32.lt_iff_toNat_lt.mp hlt).le
  | full hge => exact le_rfl

/-- **What the scan and the test behind it answer.**  The test may be any that reads the bits
of the range. -/
theorem Fits.offers (h : e.Fits) (used : UInt32 → Bool)
    (hused : ∀ slot < e.size, used (e.base + slot) = slotUsed e.ips slot.toNat) :
    e.Offers (if e.scan.2 = 0 ∨ used e.scan.2 = true then 0 else e.scan.2) e.scan.1 := by
  have hresult := peekScan_spec e.ips e.base e.size e.counter
  have hempty : (∀ j : ℕ, e.counter.toNat ≤ j → j < e.size.toNat → slotUsed e.ips j = true) →
      e.free = ∅ := by
    intro hall
    refine Set.eq_empty_of_forall_notMem fun s hs => ?_
    have hsome := hall s hs.1 hs.2.1
    rw [hs.2.2] at hsome
    exact Bool.false_ne_true hsome
  have hnone : e.free = ∅ → ∀ counter, e.Offers 0 counter := by
    intro hfree counter
    refine ⟨fun s hs => ?_, fun _ => hfree, fun _ => rfl⟩
    have hmem := hs.1
    rw [hfree] at hmem
    exact absurd hmem (Set.notMem_empty s)
  rw [scan]
  generalize peekScan e.ips e.base e.size e.counter = result at hresult ⊢
  cases hresult with
  | found slot hfrom hslot hfree hskipped =>
      have hmem : slot.toNat ∈ e.free :=
        ⟨UInt32.le_iff_toNat_le.mp hfrom, UInt32.lt_iff_toNat_lt.mp hslot, hfree⟩
      have hleast : IsLeast e.free slot.toNat := by
        refine ⟨hmem, fun s hs => ?_⟩
        by_contra hlt
        have hsome := hskipped s hs.1 (not_le.mp hlt)
        rw [hs.2.2] at hsome
        exact Bool.false_ne_true hsome
      have hunused : ¬ (e.base + slot = 0 ∨ used (e.base + slot) = true) := by
        rw [hused slot hslot, hfree]
        simpa using h.add_ne_zero hslot
      rw [if_neg hunused]
      refine ⟨fun s hs => ?_, fun hzero => absurd hzero (h.add_ne_zero hslot), fun hnone => ?_⟩
      · rw [hs.unique hleast, h.toNat_add hslot, toNat_counter_succ hslot]
        exact ⟨rfl, rfl⟩
      · rw [hnone] at hmem
        exact absurd hmem (Set.notMem_empty _)
  | exhausted hlt hall =>
      -- the last candidate is in use, so the test behind the loop rejects it
      have hnat := UInt32.lt_iff_toNat_lt.mp hlt
      have hone : (1 : UInt32) ≤ e.size := by
        rw [UInt32.le_iff_toNat_le]
        exact Nat.succ_le_of_lt (Nat.zero_lt_of_lt hnat)
      have hlast : (e.size - 1).toNat = e.size.toNat - 1 := UInt32.toNat_sub_of_le _ _ hone
      have htaken : used (e.base + (e.size - 1)) = true := by
        rw [hused _ (by rw [UInt32.lt_iff_toNat_lt]; omega)]
        exact hall _ (by omega) (by omega)
      rw [if_pos (Or.inr htaken)]
      exact hnone (hempty hall) _
  | full hge =>
      rw [if_pos (Or.inl rfl)]
      refine hnone (hempty fun j hj hj' => ?_) _
      rw [UInt32.le_iff_toNat_le] at hge
      omega

end Epoch

/-! ## Backends with a counter -/

/-- A call of one of the two functions that change a bitmap pool. -/
inductive BmCall where
  | peek (curTime : UInt32)
  | commit (ip : UInt32)

/-- A bitmap backend as its offers see it: the two functions, the range in use, and how they
fit together in the states it can be in. -/
structure BitmapPool (P : Type) where
  peek : P → UInt32 → P × UInt32
  commit : P → UInt32 → P × Bool
  epoch : P → Epoch
  /-- The pool on the range that a peek ends up on. -/
  ready : P → UInt32 → P
  /-- The range is exhausted and the one to use next has not expired. -/
  Refuses : P → UInt32 → Prop
  /-- The peek sets the counter back. -/
  Resets : P → UInt32 → Prop
  Valid : P → Prop
  valid_peek : ∀ {p}, Valid p → ∀ t, Valid (peek p t).1
  valid_commit : ∀ {p}, Valid p → ∀ ip, Valid (commit p ip).1
  refused : ∀ p t, Refuses p t → (peek p t).2 = 0
  offers : ∀ {p} t, Valid p → ¬ Refuses p t →
    (epoch (ready p t)).Offers (peek p t).2 (epoch (peek p t).1).counter
  /-- Without a reset a peek stays on its range and does not lower the counter. -/
  peek_forward : ∀ {p} t, Valid p → ¬ Resets p t →
    (epoch (ready p t)).base = (epoch p).base ∧ (epoch (ready p t)).counter = (epoch p).counter ∧
      (epoch (peek p t).1).base = (epoch p).base ∧
      (epoch p).counter.toNat ≤ (epoch (peek p t).1).counter.toNat
  /-- A peek stays on the range it has found. -/
  peek_base : ∀ {p} t, Valid p → ¬ Refuses p t →
    (epoch (peek p t).1).base = (epoch (ready p t)).base
  commit_forward : ∀ p ip, (epoch (commit p ip).1).base = (epoch p).base ∧
    (epoch (commit p ip).1).counter = (epoch p).counter

namespace BitmapPool

variable {P : Type} (bp : BitmapPool P)

/-- One call; what a peek answers is the output. -/
def step (pool : P) : BmCall → P × Option UInt32
  | .peek curTime => ((bp.peek pool curTime).1, some (bp.peek pool curTime).2)
  | .commit ip => ((bp.commit pool ip).1, none)

/-- The call does not set the counter back. -/
def Keeps (pool : P) : BmCall → Prop
  | .peek curTime => ¬ bp.Resets pool curTime
  | .commit _ => True

end BitmapPool

/-- **Offers scan forward exactly once per epoch**, in every run from the given pool:

* a peek that does not refuse outright answers the least uncommitted slot from the counter on of
  the range it ends up on, and leaves the counter behind it, or answers 0 when there is none;
* an address answered lies in that range and is uncommitted;
* between two resets of the counter the addresses answered increase strictly. -/
structure ScansForward {P : Type} (bp : BitmapPool P) (init : P) : Prop where
  least : ∀ (calls : List BmCall) (t : UInt32),
    let pool := exec bp.step init calls
    ¬ bp.Refuses pool t →
      (bp.epoch (bp.ready pool t)).Offers (bp.peek pool t).2 (bp.epoch (bp.peek pool t).1).counter
  inside : ∀ (calls : List BmCall) (t : UInt32),
    let pool := exec bp.step init calls
    let e := bp.epoch (bp.ready pool t)
    (bp.peek pool t).2 ≠ 0 → ∃ s < e.size.toNat,
      (bp.peek pool t).2.toNat = e.base.toNat + s ∧ slotUsed e.ips s = false
  increasing : ∀ (before between : List BmCall) (t t' : UInt32),
    let pool := exec bp.step init before
    let pool' := exec bp.step init (before ++ .peek t :: between)
    Along bp.step bp.Keeps (bp.peek pool t).1 between → ¬ bp.Resets pool' t' →
    (bp.peek pool t).2 ≠ 0 → (bp.peek pool' t').2 ≠ 0 →
      (bp.peek pool t).2 < (bp.peek pool' t').2

namespace BitmapPool

variable {P : Type} (bp : BitmapPool P) {pool : P} {t : UInt32}

/-- Every call keeps the pool valid, and so does every run. -/
theorem valid_step (h : bp.Valid pool) (call : BmCall) : bp.Valid (bp.step pool call).1 := by
  cases call with
  | peek curTime => exact bp.valid_peek h curTime
  | commit ip => exact bp.valid_commit h ip

theorem valid_exec (h : bp.Valid pool) (calls : List BmCall) :
    bp.Valid (exec bp.step pool calls) :=
  exec_inv bp.Valid (fun _ => True) (fun _ call hp _ => bp.valid_step hp call) calls pool h
    fun _ _ => trivial

/-- An address that was answered is a slot of the range; the counter stands behind it. -/
theorem slot_of_answer (h : bp.Valid pool) (hne : (bp.peek pool t).2 ≠ 0) :
    ¬ bp.Refuses pool t ∧ ∃ s ∈ (bp.epoch (bp.ready pool t)).free,
      (bp.peek pool t).2.toNat = (bp.epoch (bp.ready pool t)).base.toNat + s ∧
        (bp.epoch (bp.peek pool t).1).counter.toNat = s + 1 := by
  have hready : ¬ bp.Refuses pool t := fun hrefuses => hne (bp.refused pool t hrefuses)
  have hoffers := bp.offers t h hready
  have hsome : (bp.epoch (bp.ready pool t)).free.Nonempty := by
    rw [Set.nonempty_iff_ne_empty]
    exact fun hempty => hne (hoffers.zero hempty)
  have hleast : IsLeast (bp.epoch (bp.ready pool t)).free
      (sInf (bp.epoch (bp.ready pool t)).free) :=
    ⟨Nat.sInf_mem hsome, fun _ hs => Nat.sInf_le hs⟩
  exact ⟨hready, _, hleast.1, hoffers.least _ hleast⟩

/-- The cursor, the first address of the range plus the counter, has passed `x`. -/
def Past (x : ℕ) (pool : P) : Prop :=
  x < (bp.epoch pool).base.toNat + (bp.epoch pool).counter.toNat

theorem past_of_answer (h : bp.Valid pool) (hne : (bp.peek pool t).2 ≠ 0) :
    bp.Past (bp.peek pool t).2.toNat (bp.peek pool t).1 := by
  obtain ⟨hready, s, -, hanswer, hcounter⟩ := bp.slot_of_answer h hne
  rw [Past, hanswer, hcounter, bp.peek_base t h hready]
  omega

/-- **One call** that does not reset the counter keeps it past an address. -/
theorem past_step {x : ℕ} (hvalid : bp.Valid pool) (call : BmCall) (h : bp.Past x pool)
    (hkeeps : bp.Keeps pool call) : bp.Past x (bp.step pool call).1 := by
  cases call with
  | peek curTime =>
      obtain ⟨-, -, hbase, hcounter⟩ := bp.peek_forward curTime hvalid hkeeps
      change x < (bp.epoch (bp.peek pool curTime).1).base.toNat +
        (bp.epoch (bp.peek pool curTime).1).counter.toNat
      rw [hbase]
      exact lt_of_lt_of_le h (Nat.add_le_add_left hcounter _)
  | commit ip =>
      obtain ⟨hbase, hcounter⟩ := bp.commit_forward pool ip
      change x < (bp.epoch (bp.commit pool ip).1).base.toNat +
        (bp.epoch (bp.commit pool ip).1).counter.toNat
      rw [hbase, hcounter]
      exact h

/-- An answer without a reset is ahead of everything the cursor has passed. -/
theorem lt_answer_of_past {x : ℕ} (hvalid : bp.Valid pool) (h : bp.Past x pool)
    (hkeeps : ¬ bp.Resets pool t) (hne : (bp.peek pool t).2 ≠ 0) :
    x < (bp.peek pool t).2.toNat := by
  obtain ⟨-, s, hs, hanswer, -⟩ := bp.slot_of_answer hvalid hne
  obtain ⟨hbase, hcounter, -, -⟩ := bp.peek_forward t hvalid hkeeps
  have hfrom := hs.1
  rw [hcounter] at hfrom
  rw [hbase] at hanswer
  rw [Past] at h
  omega

/-- **Offers scan forward**, for every bitmap backend. -/
theorem scansForward {init : P} (h : bp.Valid init) : ScansForward bp init where
  least := by
    intro calls t pool hready
    exact bp.offers t (bp.valid_exec h calls) hready
  inside := by
    intro calls t pool e hne
    obtain ⟨-, s, hs, hanswer, -⟩ := bp.slot_of_answer (bp.valid_exec h calls) hne
    exact ⟨s, hs.2.1, hanswer, hs.2.2⟩
  increasing := by
    intro before between t t' pool pool' hkeeps hkeeps' hne hne'
    have hrun : pool' = exec bp.step (bp.peek pool t).1 between := by
      change exec bp.step init (before ++ .peek t :: between) = _
      rw [exec_append, exec_cons]
      rfl
    have hvalid := bp.valid_exec h before
    have hlater : bp.Valid pool' ∧ bp.Past (bp.peek pool t).2.toNat pool' := by
      rw [hrun]
      refine exec_along (fun p => bp.Valid p ∧ bp.Past (bp.peek pool t).2.toNat p) ?_ between _
        ⟨bp.valid_peek hvalid t, bp.past_of_answer hvalid hne⟩ hkeeps
      rintro p call ⟨hp, hpast⟩ hcall
      exact ⟨bp.valid_step hp call, bp.past_step hp call hpast hcall⟩
    rw [UInt32.lt_iff_toNat_lt]
    exact bp.lt_answer_of_past hlater.1 hlater.2 hkeeps' hne'

end BitmapPool

/-! ## BITMAP_VARTIME -/

section Vartime

variable {pool : BmPoolVar} {t : UInt32}

/-- The range of the pool. -/
def BmPoolVar.epoch (pool : BmPoolVar) : Epoch :=
  ⟨pool.poolStart, pool.rangeSize, pool.counter, pool.range.ips⟩

/-- The counter has reached the end of the range, and its timer is running. -/
def BmPoolVar.Refuses (pool : BmPoolVar) (curTime : UInt32) : Prop :=
  dhcpBmRangeFull pool.counter pool.rangeSize = true ∧ curTime < pool.range.expireTime

/-- The timer of the range has run out. -/
def BmPoolVar.Resets (pool : BmPoolVar) (curTime : UInt32) : Prop :=
  pool.range.expireTime > 0 ∧ pool.range.expireTime ≤ curTime

/-- The pool lies within the address space and does not start at 0. -/
def BmPoolVar.Valid (pool : BmPoolVar) : Prop := pool.epoch.Fits

theorem BmPoolVar.refresh_of_not_resets (h : ¬ pool.Resets t) : pool.refresh t = pool :=
  if_neg h

theorem BmPoolVar.refresh_of_resets (h : pool.Resets t) :
    pool.refresh t = dhcpBmpoolVarRecycle pool :=
  if_pos h

/-- The guard behind the recycle, in terms of the pool before it. -/
theorem BmPoolVar.refuses_iff (pool : BmPoolVar) (t : UInt32) :
    pool.Refuses t ↔ (pool.refresh t).range.expireTime > 0 ∧
      dhcpBmRangeFull (pool.refresh t).counter (pool.refresh t).rangeSize = true := by
  by_cases hresets : pool.Resets t
  · rw [refresh_of_resets hresets]
    refine iff_of_false (fun h => ?_) fun h => ?_
    · exact absurd hresets.2 (UInt32.not_le.mpr h.2)
    · exact absurd h.1 (UInt32.not_lt.mpr (UInt32.le_refl _))
  · rw [refresh_of_not_resets hresets, Refuses, and_comm]
    refine and_congr_left fun _ => ⟨fun hlt => ?_, fun hpos => ?_⟩
    · exact UInt32.lt_of_le_of_lt UInt32.zero_le hlt
    · exact UInt32.not_le.mp fun hle => hresets ⟨hpos, hle⟩

/-- What a peek does on the range it ends up on. -/
theorem dhcpBmpoolVarPeek_of_ready (h : ¬ pool.Refuses t) :
    let e := (pool.refresh t).epoch
    (dhcpBmpoolVarPeek pool t).2 =
        (if e.scan.2 = 0 ∨ dhcpBmUsed e.ips (e.scan.2 - e.base) e.size = true then 0
          else e.scan.2) ∧
      (dhcpBmpoolVarPeek pool t).1.epoch = { e with counter := e.scan.1 } := by
  rw [BmPoolVar.refuses_iff] at h
  rw [dhcpBmpoolVarPeek_eq, BmPoolVar.offer, if_neg h]
  by_cases hzero : (pool.refresh t).range.expireTime = 0
  · simp only [if_pos hzero, Epoch.scan, BmPoolVar.epoch]
    split_ifs with hnone
    · exact ⟨(if_pos hnone).symm, rfl⟩
    · exact ⟨(if_neg hnone).symm, rfl⟩
  · simp only [if_neg hzero, Epoch.scan, BmPoolVar.epoch]
    split_ifs with hnone
    · exact ⟨(if_pos hnone).symm, rfl⟩
    · exact ⟨(if_neg hnone).symm, rfl⟩

/-- A peek that refuses has done nothing. -/
theorem dhcpBmpoolVarPeek_of_refuses (h : pool.Refuses t) :
    dhcpBmpoolVarPeek pool t = (pool, 0) := by
  have hkept : pool.refresh t = pool := by
    refine BmPoolVar.refresh_of_not_resets fun hresets => ?_
    exact absurd hresets.2 (UInt32.not_le.mpr h.2)
  have hguard := (pool.refuses_iff t).mp h
  rw [dhcpBmpoolVarPeek_eq, BmPoolVar.offer, if_pos hguard, hkept]

theorem BmPoolVar.Valid.refresh (h : pool.Valid) (t : UInt32) : (pool.refresh t).Valid := by
  unfold BmPoolVar.refresh
  split_ifs
  · exact ⟨h.pos, h.le⟩
  · exact h

/-- The second test of a peek reads the bit of the slot. -/
theorem dhcpBmUsed_add_base (e : Epoch) :
    ∀ slot < e.size, dhcpBmUsed e.ips (e.base + slot - e.base) e.size =
      slotUsed e.ips slot.toNat := by
  intro slot hslot
  rw [addr_sub_base, dhcpBmUsed_eq_slotUsed hslot]

/-- A commit touches the bits only. -/
theorem dhcpBmpoolVarCommitIp_epoch (pool : BmPoolVar) (ip : UInt32) :
    ∃ ips, (dhcpBmpoolVarCommitIp pool ip).1.epoch = { pool.epoch with ips := ips } := by
  rcases dhcpBmpoolVarCommitIp_cases pool ip with hsame | ⟨-, hmarked⟩
  · exact ⟨_, by rw [hsame]⟩
  · exact ⟨_, by rw [hmarked]; rfl⟩

/-- BITMAP_VARTIME. -/
def varPool : BitmapPool BmPoolVar where
  peek := dhcpBmpoolVarPeek
  commit := dhcpBmpoolVarCommitIp
  epoch := BmPoolVar.epoch
  ready := BmPoolVar.refresh
  Refuses := BmPoolVar.Refuses
  Resets := BmPoolVar.Resets
  Valid := BmPoolVar.Valid
  valid_peek {pool} h t := by
    obtain ⟨hstart, hsize⟩ := (dhcpBmpoolVarPeek_range pool t).1
    refine ⟨?_, ?_⟩
    · rw [BmPoolVar.epoch, hstart]
      exact h.pos
    · rw [BmPoolVar.epoch, hstart, hsize]
      exact h.le
  valid_commit {pool} h ip := by
    obtain ⟨ips, hepoch⟩ := dhcpBmpoolVarCommitIp_epoch pool ip
    rw [BmPoolVar.Valid, hepoch]
    exact ⟨h.pos, h.le⟩
  refused pool t h := by rw [dhcpBmpoolVarPeek_of_refuses h]
  offers {pool} t h hready := by
    obtain ⟨hanswer, hepoch⟩ := dhcpBmpoolVarPeek_of_ready hready
    rw [hanswer, hepoch]
    exact (h.refresh t).offers (fun ip => dhcpBmUsed _ (ip - _) _) (dhcpBmUsed_add_base _)
  peek_forward {pool} t _ hkeeps := by
    have hkept := BmPoolVar.refresh_of_not_resets hkeeps
    refine ⟨by rw [hkept], by rw [hkept], ?_⟩
    by_cases hrefuses : pool.Refuses t
    · rw [dhcpBmpoolVarPeek_of_refuses hrefuses]
      exact ⟨rfl, le_rfl⟩
    · rw [(dhcpBmpoolVarPeek_of_ready hrefuses).2, hkept]
      exact ⟨rfl, pool.epoch.counter_le_scan⟩
  peek_base {pool} t _ hready := by rw [(dhcpBmpoolVarPeek_of_ready hready).2]
  commit_forward pool ip := by
    obtain ⟨ips, hepoch⟩ := dhcpBmpoolVarCommitIp_epoch pool ip
    rw [hepoch]
    exact ⟨rfl, rfl⟩

end Vartime

/-! ## BITMAP_UNITIME -/

section Unitime

variable {pool : BmPoolUni} {t : UInt32}

/-- The current range of the pool. -/
def BmPoolUni.epoch (pool : BmPoolUni) : Epoch :=
  ⟨rangeBase pool, pool.rangeSize, pool.counter, pool.current.ips⟩

/-- The counter has reached the end of the current range, and the next one has not expired. -/
def BmPoolUni.Refuses (pool : BmPoolUni) (curTime : UInt32) : Prop :=
  dhcpBmRangeFull pool.counter pool.rangeSize = true ∧
    curTime < (pool.ranges pool.nextRange.toNat).expireTime

/-- The counter has reached the end of the current range, and the next one can be used. -/
def BmPoolUni.Resets (pool : BmPoolUni) (curTime : UInt32) : Prop :=
  dhcpBmRangeFull pool.counter pool.rangeSize = true ∧
    (pool.ranges pool.nextRange.toNat).expireTime ≤ curTime

/-- The pool lies within the address space, does not start at 0, and its current range is one of
its ranges. -/
def BmPoolUni.Valid (pool : BmPoolUni) : Prop :=
  0 < pool.poolStart ∧
    pool.Placed pool.poolStart pool.leaseTime pool.rangeSize pool.numRanges

theorem BmPoolUni.Valid.of_sameShape {pool' : BmPoolUni} (h : pool.Valid)
    (hshape : pool.SameShape pool')
    (hcur : pool'.curRange = pool.curRange ∨ pool'.curRange = pool.nextRange) :
    pool'.Valid := by
  have hplaced := h.2.of_sameShape hshape hcur
  refine ⟨by rw [hshape.poolStart]; exact h.1, ?_⟩
  rw [hshape.poolStart, hshape.leaseTime, hshape.rangeSize, hshape.numRanges]
  exact hplaced

/-- The current range of a valid pool, below the end of the address space. -/
theorem BmPoolUni.Valid.fits (h : pool.Valid) :
    0 < rangeBase pool ∧ (rangeBase pool).toNat + pool.rangeSize.toNat < 2 ^ 32 := by
  obtain ⟨hpos, hplaced⟩ := h
  have hbase := hplaced.toNat_rangeBase.1
  have hfits := hplaced.fits
  have hnext : (pool.curRange.toNat + 1) * pool.rangeSize.toNat ≤
      pool.numRanges.toNat * pool.rangeSize.toNat := Nat.mul_le_mul_right _ hplaced.cur_lt
  rw [Nat.succ_mul] at hnext
  rw [UInt32.lt_iff_toNat_lt] at hpos ⊢
  omega

/-- Where a peek refuses, nothing is recycled. -/
theorem BmPoolUni.advance_of_refuses (h : pool.Refuses t) : pool.advance t = (pool, false) := by
  have hkept : pool.renew t = pool := by
    refine if_neg fun hrecycles => ?_
    exact absurd hrecycles.2.2 (UInt32.not_le.mpr h.2)
  have hrunning : ¬ (pool.ranges pool.nextRange.toNat).expireTime = 0 := by
    intro hzero
    have hlt := h.2
    rw [hzero] at hlt
    exact absurd hlt (UInt32.not_lt.mpr UInt32.zero_le)
  rw [pool.advance_of_full h.1, hkept, BmPoolUni.enter, if_neg hrunning]

/-- Without a reset the current range stays. -/
theorem BmPoolUni.advance_of_not_resets (h : ¬ pool.Resets t) : (pool.advance t).1 = pool := by
  by_cases hfull : dhcpBmRangeFull pool.counter pool.rangeSize = true
  · have hrefuses : pool.Refuses t := ⟨hfull, UInt32.not_le.mp fun hle => h ⟨hfull, hle⟩⟩
    rw [advance_of_refuses hrefuses]
  · rw [pool.advance_of_not_full hfull]

/-- Where a peek does not refuse, it has a range to scan. -/
theorem BmPoolUni.Valid.advance_of_ready (h : pool.Valid) (hready : ¬ pool.Refuses t) :
    (pool.advance t).2 = true := by
  by_cases hfull : dhcpBmRangeFull pool.counter pool.rangeSize = true
  · have hover : (pool.ranges pool.nextRange.toNat).expireTime ≤ t :=
      UInt32.not_lt.mp fun hlt => hready ⟨hfull, hlt⟩
    have hnum : 0 < pool.numRanges.toNat := Nat.zero_lt_of_lt h.2.cur_lt
    have hnext : pool.nextRange.toNat < pool.numRanges.toNat := by
      rw [pool.toNat_nextRange hnum]
      exact Nat.mod_lt _ hnum
    have hstopped : ((pool.renew t).ranges pool.nextRange.toNat).expireTime = 0 := by
      rw [BmPoolUni.renew]
      split_ifs with hrecycles
      · rw [dhcpBmpoolUniRecycle_of_lt pool hnext]
        simp [BmRange.recycle]
      · by_contra hne
        exact hrecycles ⟨hfull, UInt32.pos_iff_ne_zero.mpr hne, hover⟩
    rw [pool.advance_of_full hfull, BmPoolUni.enter, if_pos hstopped]
  · rw [pool.advance_of_not_full hfull]

/-- The test behind the scan reads the bit of the slot. -/
theorem BmPoolUni.Valid.ipUsed (h : pool.Valid) (counter : UInt32) :
    ∀ slot < pool.rangeSize,
      dhcpBmpoolUniIpUsed { pool with counter := counter } (rangeBase pool + slot) =
        slotUsed pool.current.ips slot.toNat := by
  intro slot hslot
  cases hbit : slotUsed pool.current.ips slot.toNat with
  | true => exact dhcpBmpoolUniIpUsed_of_used { pool with counter := counter } hslot hbit
  | false =>
      have hiff : dhcpBmpoolUniIpUsed { pool with counter := counter }
          (rangeBase { pool with counter := counter } + slot) = false ↔ _ :=
        dhcpBmpoolUniIpUsed_of_free hslot hbit
      exact hiff.mpr h.fits.2

/-- What becomes of a candidate. -/
theorem BmPoolUni.settle_spec (pool : BmPoolUni) (candidate t : UInt32) :
    (pool.settle candidate t).2 =
        (if candidate = 0 ∨ dhcpBmpoolUniIpUsed pool candidate = true then 0 else candidate) ∧
      (pool.settle candidate t).1.epoch = pool.epoch := by
  unfold BmPoolUni.settle
  split_ifs with hnone htimer
  · exact ⟨rfl, rfl⟩
  · refine ⟨rfl, ?_⟩
    simp only [BmPoolUni.epoch, BmPoolUni.current, rangeBase, Function.update_self]
  · exact ⟨rfl, rfl⟩

/-- What a peek does on the range it ends up on. -/
theorem BmPoolUni.Valid.peek_of_ready (h : pool.Valid) (hready : ¬ pool.Refuses t) :
    let e := (pool.advance t).1.epoch
    (dhcpBmpoolUniPeek pool t).2 =
        (if e.scan.2 = 0 ∨ dhcpBmpoolUniIpUsed
            { (pool.advance t).1 with counter := e.scan.1 } e.scan.2 = true then 0
          else e.scan.2) ∧
      (dhcpBmpoolUniPeek pool t).1.epoch = { e with counter := e.scan.1 } := by
  rw [dhcpBmpoolUniPeek, if_pos (h.advance_of_ready hready), BmPoolUni.scan_eq]
  exact BmPoolUni.settle_spec _ _ _

theorem dhcpBmpoolUniPeek_of_refuses (h : pool.Refuses t) :
    dhcpBmpoolUniPeek pool t = (pool, 0) := by
  rw [dhcpBmpoolUniPeek, BmPoolUni.advance_of_refuses h]
  rfl

theorem BmPoolUni.Valid.advance (h : pool.Valid) (t : UInt32) : (pool.advance t).1.Valid := by
  obtain ⟨hshape, hcur⟩ := pool.advance_sameShape t
  exact h.of_sameShape hshape hcur

/-- A commit touches the bits only. -/
theorem dhcpBmpoolUniCommitIp_epoch (pool : BmPoolUni) (ip : UInt32) :
    (∃ ips, (dhcpBmpoolUniCommitIp pool ip).1.epoch = { pool.epoch with ips := ips }) ∧
      pool.SameShape (dhcpBmpoolUniCommitIp pool ip).1 ∧
      (dhcpBmpoolUniCommitIp pool ip).1.curRange = pool.curRange := by
  unfold dhcpBmpoolUniCommitIp
  split_ifs
  · exact ⟨⟨_, rfl⟩, ⟨rfl, rfl, rfl, rfl⟩, rfl⟩
  · exact ⟨⟨_, rfl⟩, ⟨rfl, rfl, rfl, rfl⟩, rfl⟩

/-- BITMAP_UNITIME. -/
def uniPool : BitmapPool BmPoolUni where
  peek := dhcpBmpoolUniPeek
  commit := dhcpBmpoolUniCommitIp
  epoch := BmPoolUni.epoch
  ready pool t := (pool.advance t).1
  Refuses := BmPoolUni.Refuses
  Resets := BmPoolUni.Resets
  Valid := BmPoolUni.Valid
  valid_peek {pool} h t := by
    obtain ⟨hshape, hcur⟩ := (dhcpBmpoolUniPeek_spec pool t).1
    exact h.of_sameShape hshape hcur
  valid_commit {pool} h ip := by
    obtain ⟨-, hshape, hcur⟩ := dhcpBmpoolUniCommitIp_epoch pool ip
    exact h.of_sameShape hshape (Or.inl hcur)
  refused pool t h := by rw [dhcpBmpoolUniPeek_of_refuses h]
  offers {pool} t h hready := by
    obtain ⟨hanswer, hepoch⟩ := h.peek_of_ready hready
    have hvalid := h.advance t
    have hfits : (pool.advance t).1.epoch.Fits := ⟨hvalid.fits.1, hvalid.fits.2.le⟩
    rw [hanswer, hepoch]
    exact hfits.offers (dhcpBmpoolUniIpUsed _) (hvalid.ipUsed _)
  peek_forward {pool} t h hkeeps := by
    have hkept := BmPoolUni.advance_of_not_resets hkeeps
    refine ⟨by rw [hkept], by rw [hkept], ?_⟩
    by_cases hrefuses : pool.Refuses t
    · rw [dhcpBmpoolUniPeek_of_refuses hrefuses]
      exact ⟨rfl, le_rfl⟩
    · rw [(h.peek_of_ready hrefuses).2, hkept]
      exact ⟨rfl, pool.epoch.counter_le_scan⟩
  peek_base {pool} t h hready := by rw [(h.peek_of_ready hready).2]
  commit_forward pool ip := by
    obtain ⟨⟨ips, hepoch⟩, -⟩ := dhcpBmpoolUniCommitIp_epoch pool ip
    rw [hepoch]
    exact ⟨rfl, rfl⟩

end Unitime

/-- **Bitmap offers scan forward exactly once per epoch**, for both bitmap backends, whatever the
calls and their times.  The pool must lie within the address space and not start at 0; for
BITMAP_UNITIME its end has to be a 32-bit number as well. -/
theorem bitmap_offers_scan_forward (poolStart leaseTime rangeSize : UInt32) (hpos : 0 < poolStart)
    (hsize : 0 < rangeSize) :
    (poolStart.toNat + rangeSize.toNat ≤ 2 ^ 32 → ∀ range : BmRange,
      ScansForward varPool (dhcpBmpoolVarInit poolStart leaseTime range rangeSize)) ∧
    ∀ numRanges : UInt8, 2 ≤ numRanges →
      poolStart.toNat + numRanges.toNat * rangeSize.toNat < 2 ^ 32 →
      ∀ (prior : BmPoolUni) (ranges : ℕ → BmRange),
        ScansForward uniPool
          (dhcpBmpoolUniInit prior poolStart leaseTime ranges rangeSize numRanges) := by
  refine ⟨fun hfits range => ?_, fun numRanges hnum hfits prior ranges => ?_⟩
  · exact varPool.scansForward (show BmPoolVar.Valid _ from ⟨hpos, hfits⟩)
  · have hnum' : 0 < numRanges := by
      rw [UInt8.le_iff_toNat_le] at hnum
      rw [UInt8.lt_iff_toNat_lt]
      exact lt_of_lt_of_le (by decide) hnum
    have hplaced : (dhcpBmpoolUniInit prior poolStart leaseTime ranges rangeSize numRanges).Placed
        poolStart leaseTime rangeSize numRanges :=
      dhcpBmpoolUniInit_placed prior ranges hnum' hsize hfits
    refine uniPool.scansForward (show BmPoolUni.Valid _ from ⟨?_, ?_⟩)
    · rw [hplaced.poolStart_eq]
      exact hpos
    · rw [hplaced.poolStart_eq, hplaced.leaseTime_eq, hplaced.rangeSize_eq, hplaced.numRanges_eq]
      exact hplaced

/-- A pool of four addresses, as one range and as two.  In one range a committed slot is skipped,
and when the range is exhausted and has expired the scan starts again; with two ranges it goes on
in the second one. -/
theorem bitmap_offers_scan_forward_recycled :
    let var := dhcpBmpoolVarInit 100 10 ⟨fun _ => 0, 0⟩ 4
    let uni := dhcpBmpoolUniInit ⟨0, 0, 0, fun _ => ⟨fun _ => 0, 0⟩, 0, 0, 0⟩ 100 10
      (fun _ => ⟨fun _ => 0, 0⟩) 2 2
    let used := exec varPool.step var [.commit 101]
    let scanned := exec varPool.step var ([.commit 101] ++ [.peek 0])
    let full := exec varPool.step var [.commit 101, .peek 0, .peek 1, .peek 2]
    let first := exec uniPool.step uni [.commit 100, .peek 0]
    (varPool.peek used 0).2 < (varPool.peek scanned 1).2 ∧
      ((varPool.epoch full).counter = 4 ∧
        (varPool.epoch (varPool.ready full 20)).Offers (varPool.peek full 20).2
          (varPool.epoch (varPool.peek full 20).1).counter) ∧
      (uniPool.epoch first).counter = 2 ∧
        (uniPool.epoch (uniPool.ready first 1)).Offers (uniPool.peek first 1).2
          (uniPool.epoch (uniPool.peek first 1).1).counter := by
  obtain ⟨hvar, -⟩ := bitmap_offers_scan_forward 100 10 4 (by decide) (by decide)
  obtain ⟨-, huni⟩ := bitmap_offers_scan_forward 100 10 2 (by decide) (by decide)
  have hscans := hvar (by decide) ⟨fun _ => 0, 0⟩
  have hscans' := huni 2 (by decide) (by decide) ⟨0, 0, 0, fun _ => ⟨fun _ => 0, 0⟩, 0, 0, 0⟩
    fun _ => ⟨fun _ => 0, 0⟩
  refine ⟨hscans.increasing [.commit 101] [] 0 1 trivial ?_ (by decide +kernel)
      (by decide +kernel),
    ⟨by decide +kernel, hscans.least [.commit 101, .peek 0, .peek 1, .peek 2] 20 ?_⟩,
    by decide +kernel, hscans'.least [.commit 100, .peek 0] 1 ?_⟩
  -- no timer runs against the three calls
  all_goals
    rintro ⟨-, htimer⟩
    revert htimer
    decide +kernel

end BaremetalDhcp
