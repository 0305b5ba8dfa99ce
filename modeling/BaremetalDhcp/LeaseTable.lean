import BaremetalDhcp.Server
import Mathlib.Data.ENat.Basic

/-!
# Lease tables

The abstract side of the two backends that track clients, ARRAY and HASHMAP.

A `LeaseTable` is a finite set of leases in which no client and no address occurs
twice; both facts are fields, so no table without them can be built.  A
`LeasePool` adds the capacity and the round-robin cursor, and `find`, `alloc` and
`decline` say what the three pool calls are for.

The one thing the two backends do differently is the lazy clean-up that `find`
and `alloc` run first when the table is full.  ARRAY drops every expired lease,
HASHMAP the first 32 in slot order.  `Purges` says what they have in common, with
the batch size as a parameter, and `LeaseOps.Refines` is the statement that a
backend's functions do what the abstract ones do after some such clean-up.

`LeaseStep` lists everything a message can do to the abstract pool.  The
ownership and availability theorems are proved from it and from nothing else.
-/

namespace BaremetalDhcp

/-- One lease: who holds which address, and until when. -/
structure Lease where
  macAddress : Mac
  ipAddress : UInt32
  expireTime : UInt32
deriving DecidableEq

/-! ## The round-robin cursor -/

/-- The search loop of the two `find_available_ip` functions, with their test for
a leased address as a parameter: the address found, 0 for none, and the cursor
after the search. -/
def cursorLoop (leased : UInt32 → Bool) (poolStart rangeSize : UInt32) :
    ℕ → UInt32 → UInt32 × UInt32
  | 0, nextIp => (0, nextIp)
  | fuel + 1, nextIp =>
      let next := poolStart + (nextIp - poolStart + 1) % rangeSize
      if leased nextIp then cursorLoop leased poolStart rangeSize fuel next
      else (nextIp, next)

/-- The search over `pool_start ..= pool_end`: `range_size` iterations. -/
def searchPool (leased : UInt32 → Bool) (poolStart poolEnd nextIp : UInt32) :
    UInt32 × UInt32 :=
  let rangeSize := poolEnd - poolStart + 1
  cursorLoop leased poolStart rangeSize rangeSize.toNat nextIp

/-- The search never returns a leased address. -/
theorem cursorLoop_not_leased (leased : UInt32 → Bool) (poolStart rangeSize : UInt32) :
    ∀ (fuel : ℕ) (nextIp : UInt32),
      (cursorLoop leased poolStart rangeSize fuel nextIp).1 = 0 ∨
        leased (cursorLoop leased poolStart rangeSize fuel nextIp).1 = false := by
  intro fuel
  induction fuel with
  | zero => intro nextIp; exact Or.inl rfl
  | succ fuel ih =>
      intro nextIp
      unfold cursorLoop
      cases hleased : leased nextIp with
      | true => exact ih _
      | false => exact Or.inr hleased

section Cursor

variable {leased : UInt32 → Bool} {poolStart poolEnd : UInt32}

theorem InPool.ne_zero {ip : UInt32} (hpos : 0 < poolStart)
    (h : InPool poolStart poolEnd ip) : ip ≠ 0 := by
  rintro rfl
  exact absurd h.1 (UInt32.not_le.mpr hpos)

/-- The number of addresses fits in 32 bits unless the pool is the whole address space. -/
theorem rangeFits_of_pos (hpos : 0 < poolStart) :
    poolEnd.toNat - poolStart.toNat + 1 < 2 ^ 32 := by
  have hlt := poolEnd.toNat_lt
  rw [UInt32.lt_iff_toNat_lt, UInt32.toNat_zero] at hpos
  omega

/-- The number of addresses in the pool, without wrap-around. -/
theorem toNat_rangeSize (hfits : poolEnd.toNat - poolStart.toNat + 1 < 2 ^ 32)
    (hle : poolStart ≤ poolEnd) :
    (poolEnd - poolStart + 1).toNat = poolEnd.toNat - poolStart.toNat + 1 := by
  rw [UInt32.toNat_add, UInt32.toNat_sub_of_le _ _ hle, UInt32.toNat_one]
  exact Nat.mod_eq_of_lt hfits

/-- One advance of the cursor, as an offset from the start of the pool. -/
theorem toNat_advance (hfits : poolEnd.toNat - poolStart.toNat + 1 < 2 ^ 32)
    (hle : poolStart ≤ poolEnd) {ip : UInt32} (hip : InPool poolStart poolEnd ip) :
    (poolStart + (ip - poolStart + 1) % (poolEnd - poolStart + 1)).toNat =
      poolStart.toNat +
        (ip.toNat - poolStart.toNat + 1) % (poolEnd.toNat - poolStart.toNat + 1) := by
  have hip' := UInt32.le_iff_toNat_le.mp hip.2
  have hsize := toNat_rangeSize hfits hle
  have hoffset : (ip - poolStart + 1).toNat = ip.toNat - poolStart.toNat + 1 :=
    toNat_rangeSize (by omega) hip.1
  have hlt := poolEnd.toNat_lt
  have hle' := UInt32.le_iff_toNat_le.mp hle
  have hmod := Nat.mod_lt (ip.toNat - poolStart.toNat + 1)
    (Nat.succ_pos (poolEnd.toNat - poolStart.toNat))
  rw [UInt32.toNat_add, UInt32.toNat_mod, hoffset, hsize, Nat.mod_eq_of_lt]
  simp only [Nat.succ_eq_add_one] at hmod
  omega

theorem inPool_advance (hle : poolStart ≤ poolEnd) {ip : UInt32}
    (hip : InPool poolStart poolEnd ip) :
    InPool poolStart poolEnd
      (poolStart + (ip - poolStart + 1) % (poolEnd - poolStart + 1)) := by
  have hle' := UInt32.le_iff_toNat_le.mp hle
  unfold InPool
  rw [UInt32.le_iff_toNat_le, UInt32.le_iff_toNat_le]
  by_cases hfits : poolEnd.toNat - poolStart.toNat + 1 < 2 ^ 32
  · have hmod := Nat.mod_lt (ip.toNat - poolStart.toNat + 1)
      (Nat.succ_pos (poolEnd.toNat - poolStart.toNat))
    simp only [Nat.succ_eq_add_one] at hmod
    rw [toNat_advance hfits hle hip]
    omega
  · -- every address is in the pool
    have hlt := poolEnd.toNat_lt
    have hnext := (poolStart + (ip - poolStart + 1) % (poolEnd - poolStart + 1)).toNat_lt
    omega

/-- The cursor and the address found stay in the pool. -/
theorem cursorLoop_inPool (hle : poolStart ≤ poolEnd) :
    ∀ (fuel : ℕ) (nextIp : UInt32), InPool poolStart poolEnd nextIp →
      InPool poolStart poolEnd
          (cursorLoop leased poolStart (poolEnd - poolStart + 1) fuel nextIp).2 ∧
        ((cursorLoop leased poolStart (poolEnd - poolStart + 1) fuel nextIp).1 = 0 ∨
          InPool poolStart poolEnd
            (cursorLoop leased poolStart (poolEnd - poolStart + 1) fuel nextIp).1) := by
  intro fuel
  induction fuel with
  | zero => intro nextIp hnext; exact ⟨hnext, Or.inl rfl⟩
  | succ fuel ih =>
      intro nextIp hnext
      unfold cursorLoop
      cases hleased : leased nextIp with
      | true => exact ih _ (inPool_advance hle hnext)
      | false => exact ⟨inPool_advance hle hnext, Or.inr hnext⟩

/-- An unleased address `k` places ahead of the cursor ends the search within
`k + 1` iterations. -/
theorem cursorLoop_finds (hpos : 0 < poolStart) (hle : poolStart ≤ poolEnd) {ip : UInt32}
    (hfree : leased ip = false) :
    ∀ (fuel k : ℕ) (nextIp : UInt32), k < fuel → InPool poolStart poolEnd nextIp →
      ip.toNat = poolStart.toNat +
        (nextIp.toNat - poolStart.toNat + k) % (poolEnd.toNat - poolStart.toNat + 1) →
      (cursorLoop leased poolStart (poolEnd - poolStart + 1) fuel nextIp).1 ≠ 0 := by
  intro fuel
  induction fuel with
  | zero => intro k nextIp hk; omega
  | succ fuel ih =>
      intro k nextIp hk hnext hip
      have hnext' := hnext
      unfold InPool at hnext'
      rw [UInt32.le_iff_toNat_le, UInt32.le_iff_toNat_le] at hnext'
      unfold cursorLoop
      cases hleased : leased nextIp with
      | false => exact hnext.ne_zero hpos
      | true =>
          obtain _ | k := k
          · -- the cursor is on the unleased address itself
            have hhere : ip = nextIp := by
              apply UInt32.toNat_inj.mp
              rw [hip, Nat.add_zero, Nat.mod_eq_of_lt (by omega)]
              omega
            rw [hhere, hleased] at hfree
            simp at hfree
          · refine ih k _ (by omega) (inPool_advance hle hnext) ?_
            rw [toNat_advance (rangeFits_of_pos hpos) hle hnext, Nat.add_sub_cancel_left,
              Nat.mod_add_mod, hip]
            congr 2
            omega

/-- **The search is exhaustive.**  From a cursor in the pool it finds an address
exactly when some address of the pool is not leased. -/
theorem searchPool_ne_zero_iff (hpos : 0 < poolStart) (hle : poolStart ≤ poolEnd)
    {nextIp : UInt32} (hnext : InPool poolStart poolEnd nextIp) :
    (searchPool leased poolStart poolEnd nextIp).1 ≠ 0 ↔
      ∃ ip, InPool poolStart poolEnd ip ∧ leased ip = false := by
  unfold searchPool
  constructor
  · intro hne
    refine ⟨_, ?_, (cursorLoop_not_leased _ _ _ _ _).resolve_left hne⟩
    exact ((cursorLoop_inPool hle _ _ hnext).2).resolve_left hne
  · rintro ⟨ip, hip, hfree⟩
    have hnat : ∀ {x : UInt32}, InPool poolStart poolEnd x →
        poolStart.toNat ≤ x.toNat ∧ x.toNat ≤ poolEnd.toNat := fun h =>
      ⟨UInt32.le_iff_toNat_le.mp h.1, UInt32.le_iff_toNat_le.mp h.2⟩
    have hb := hnat hip
    have hb' := hnat hnext
    show (cursorLoop _ _ _ (poolEnd - poolStart + 1).toNat _).1 ≠ 0
    rw [toNat_rangeSize (rangeFits_of_pos hpos) hle]
    generalize hsize : poolEnd.toNat - poolStart.toNat + 1 = size
    -- the distance from the cursor to the address, going round the pool
    refine cursorLoop_finds hpos hle hfree size
      ((ip.toNat - poolStart.toNat + (size - (nextIp.toNat - poolStart.toNat))) % size) nextIp
      (Nat.mod_lt _ (by omega)) hnext ?_
    have hround : nextIp.toNat - poolStart.toNat +
        (ip.toNat - poolStart.toNat + (size - (nextIp.toNat - poolStart.toNat))) =
          ip.toNat - poolStart.toNat + size := by omega
    rw [hsize, Nat.add_mod_mod, hround, Nat.add_mod_right, Nat.mod_eq_of_lt (by omega)]
    omega

end Cursor

/-! ## Tables -/

/-- A finite set of leases in which no client and no address occurs twice. -/
@[ext]
structure LeaseTable where
  leases : Finset Lease
  mac_inj : ∀ l ∈ leases, ∀ l' ∈ leases, l.macAddress = l'.macAddress → l = l'
  ip_inj : ∀ l ∈ leases, ∀ l' ∈ leases, l.ipAddress = l'.ipAddress → l = l'

namespace LeaseTable

variable {T : LeaseTable} {l : Lease} {mac : Mac} {ip : UInt32}

/-- No leases. -/
def empty : LeaseTable := ⟨∅, by simp, by simp⟩

/-- The leases that satisfy a condition. -/
def keep (T : LeaseTable) (c : Lease → Prop) [DecidablePred c] : LeaseTable where
  leases := T.leases.filter c
  mac_inj l hl l' hl' := T.mac_inj l (Finset.mem_filter.mp hl).1 l' (Finset.mem_filter.mp hl').1
  ip_inj l hl l' hl' := T.ip_inj l (Finset.mem_filter.mp hl).1 l' (Finset.mem_filter.mp hl').1

/-- Store a lease in place of whatever holds its client or its address. -/
def put (T : LeaseTable) (l : Lease) : LeaseTable where
  leases := insert l (T.leases.filter fun x =>
    x.macAddress ≠ l.macAddress ∧ x.ipAddress ≠ l.ipAddress)
  mac_inj x hx y hy hxy := by
    rw [Finset.mem_insert, Finset.mem_filter] at hx hy
    obtain rfl | ⟨hx, hxl, -⟩ := hx <;> obtain rfl | ⟨hy, hyl, -⟩ := hy
    · rfl
    · exact absurd hxy.symm hyl
    · exact absurd hxy hxl
    · exact T.mac_inj x hx y hy hxy
  ip_inj x hx y hy hxy := by
    rw [Finset.mem_insert, Finset.mem_filter] at hx hy
    obtain rfl | ⟨hx, -, hxl⟩ := hx <;> obtain rfl | ⟨hy, -, hyl⟩ := hy
    · rfl
    · exact absurd hxy.symm hyl
    · exact absurd hxy hxl
    · exact T.ip_inj x hx y hy hxy

/-- The client's lease. -/
noncomputable def lookup (T : LeaseTable) (mac : Mac) : Option Lease :=
  T.leases.toList.find? fun l => l.macAddress = mac

/-- Some client holds the address. -/
def Holds (T : LeaseTable) (ip : UInt32) : Prop := ∃ l ∈ T.leases, l.ipAddress = ip

instance (T : LeaseTable) : DecidablePred T.Holds := fun ip =>
  inferInstanceAs (Decidable (∃ l ∈ T.leases, l.ipAddress = ip))

@[simp] theorem mem_keep {c : Lease → Prop} [DecidablePred c] :
    l ∈ (T.keep c).leases ↔ l ∈ T.leases ∧ c l :=
  Finset.mem_filter

theorem leases_put :
    (T.put l).leases = insert l (T.leases.filter fun x =>
      x.macAddress ≠ l.macAddress ∧ x.ipAddress ≠ l.ipAddress) := rfl

@[simp] theorem mem_put {x : Lease} :
    x ∈ (T.put l).leases ↔
      x = l ∨ x ∈ T.leases ∧ x.macAddress ≠ l.macAddress ∧ x.ipAddress ≠ l.ipAddress := by
  simp [put]

theorem lookup_eq_some_iff :
    T.lookup mac = some l ↔ l ∈ T.leases ∧ l.macAddress = mac := by
  unfold lookup
  constructor
  · intro hfind
    exact ⟨Finset.mem_toList.mp (List.mem_of_find?_eq_some hfind),
      by simpa using List.find?_some hfind⟩
  · rintro ⟨hl, hmac⟩
    cases hfind : T.leases.toList.find? fun l => l.macAddress = mac with
    | none =>
        have hnone := List.find?_eq_none.mp hfind l (Finset.mem_toList.mpr hl)
        simp [hmac] at hnone
    | some l' =>
        have hl' := Finset.mem_toList.mp (List.mem_of_find?_eq_some hfind)
        have hmac' : l'.macAddress = mac := by simpa using List.find?_some hfind
        rw [T.mac_inj l' hl' l hl (hmac'.trans hmac.symm)]

theorem lookup_eq_none_iff :
    T.lookup mac = none ↔ ∀ l ∈ T.leases, l.macAddress ≠ mac := by
  constructor
  · intro hnone l hl hmac
    rw [lookup_eq_some_iff.mpr ⟨hl, hmac⟩] at hnone
    simp at hnone
  · intro hall
    cases hfind : T.lookup mac with
    | none => rfl
    | some l =>
        obtain ⟨hl, hmac⟩ := lookup_eq_some_iff.mp hfind
        exact absurd hmac (hall l hl)

/-- A fresh lease adds one. -/
theorem card_put_of_fresh
    (h : ∀ x ∈ T.leases, x.macAddress ≠ l.macAddress ∧ x.ipAddress ≠ l.ipAddress) :
    (T.put l).leases.card = T.leases.card + 1 := by
  have hnew : l ∉ T.leases := fun hl => (h l hl).1 rfl
  rw [leases_put, Finset.filter_true_of_mem h, Finset.card_insert_of_notMem hnew]

/-- A renewed lease takes the place of the old one. -/
theorem card_put_of_mem {x : Lease} (hx : x ∈ T.leases)
    (hmac : x.macAddress = l.macAddress) (hip : x.ipAddress = l.ipAddress) :
    (T.put l).leases.card = T.leases.card := by
  have hothers : (T.leases.filter fun y =>
      y.macAddress ≠ l.macAddress ∧ y.ipAddress ≠ l.ipAddress) = T.leases.erase x := by
    ext y
    rw [Finset.mem_filter, Finset.mem_erase]
    constructor
    · rintro ⟨hy, hne, -⟩
      exact ⟨fun hyx => hne (hyx ▸ hmac), hy⟩
    · rintro ⟨hyx, hy⟩
      exact ⟨hy, fun h => hyx (T.mac_inj y hy x hx (h.trans hmac.symm)),
        fun h => hyx (T.ip_inj y hy x hx (h.trans hip.symm))⟩
  have hnew : l ∉ T.leases.erase x := by
    intro hl
    obtain ⟨hne, hl⟩ := Finset.mem_erase.mp hl
    exact hne (T.mac_inj l hl x hx hmac.symm)
  rw [leases_put, hothers, Finset.card_insert_of_notMem hnew, Finset.card_erase_add_one hx]

end LeaseTable

/-! ## Pools -/

/-- A table with its capacity and the round-robin cursor. -/
@[ext]
structure LeasePool where
  table : LeaseTable
  max : ℕ
  nextIp : UInt32

namespace LeasePool

/-- Every slot is taken; `find` and `alloc` then clean up first. -/
def Full (q : LeasePool) : Prop := q.max ≤ q.table.leases.card

instance (q : LeasePool) : Decidable q.Full :=
  inferInstanceAs (Decidable (q.max ≤ q.table.leases.card))

/-- The leases that have run out. -/
def expired (q : LeasePool) (t : UInt32) : Finset Lease :=
  q.table.leases.filter fun l => l.expireTime ≤ t

/-- What DISCOVER asks for: the client's own address, or a free one. -/
noncomputable def find (q : LeasePool) (poolStart poolEnd : UInt32) (mac : Mac) :
    LeasePool × UInt32 :=
  match q.table.lookup mac with
  | some l => (q, l.ipAddress)
  | none =>
      if q.Full then (q, 0)
      else
        let found := searchPool (fun ip => q.table.Holds ip) poolStart poolEnd q.nextIp
        ({ q with nextIp := found.2 }, found.1)

/-- The client may have the address: it has it already, or both are unbound and
there is room. -/
def Grants (q : LeasePool) (ip : UInt32) (mac : Mac) : Prop :=
  (∃ l ∈ q.table.leases, l.macAddress = mac ∧ l.ipAddress = ip) ∨
    (∀ l ∈ q.table.leases, l.macAddress ≠ mac ∧ l.ipAddress ≠ ip) ∧ ¬ q.Full

instance (q : LeasePool) (ip : UInt32) (mac : Mac) : Decidable (q.Grants ip mac) :=
  inferInstanceAs (Decidable (_ ∨ _ ∧ _))

/-- A client with a lease gets that address and no other. -/
theorem grants_own_iff {q : LeasePool} {l : Lease} (hl : l ∈ q.table.leases) {ip : UInt32} :
    q.Grants ip l.macAddress ↔ l.ipAddress = ip := by
  constructor
  · rintro (⟨x, hx, hmac, hip⟩ | ⟨hfresh, -⟩)
    · rw [← q.table.mac_inj x hx l hl hmac]
      exact hip
    · exact absurd rfl (hfresh l hl).1
  · exact fun hip => Or.inl ⟨l, hl, rfl, hip⟩

/-- Nobody else gets the address of a lease. -/
theorem not_grants_of_held {q : LeasePool} {l : Lease} (hl : l ∈ q.table.leases) {mac : Mac}
    (hmac : l.macAddress ≠ mac) : ¬ q.Grants l.ipAddress mac := by
  rintro (⟨x, hx, hxmac, hxip⟩ | ⟨hfresh, -⟩)
  · exact hmac (by rw [← q.table.ip_inj x hx l hl hxip]; exact hxmac)
  · exact (hfresh l hl).2 rfl

/-- An unbound address goes to an unbound client while there is room. -/
theorem grants_fresh_iff {q : LeasePool} {ip : UInt32} {mac : Mac}
    (hfresh : ∀ l ∈ q.table.leases, l.macAddress ≠ mac ∧ l.ipAddress ≠ ip) :
    q.Grants ip mac ↔ ¬ q.Full := by
  constructor
  · rintro (⟨l, hl, hmac, -⟩ | ⟨-, hroom⟩)
    · exact absurd hmac (hfresh l hl).1
    · exact hroom
  · exact fun hroom => Or.inr ⟨hfresh, hroom⟩

/-- What REQUEST asks for: the address, until the given time. -/
def alloc (q : LeasePool) (ip : UInt32) (mac : Mac) (expireTime : UInt32) : LeasePool × Bool :=
  if q.Grants ip mac then ({ q with table := q.table.put ⟨mac, ip, expireTime⟩ }, true)
  else (q, false)

/-- What DECLINE asks for: the client's lease is dropped. -/
def decline (q : LeasePool) (mac : Mac) : LeasePool :=
  { q with table := q.table.keep fun l => l.macAddress ≠ mac }

/-- **The lazy clean-up**, for a batch size: nothing unless the pool is full;
only expired leases go, at least one of them if there is one, and all of them if
they fit in the batch. -/
structure Purges (batch : ℕ∞) (t : UInt32) (q q' : LeasePool) : Prop where
  max_eq : q'.max = q.max
  nextIp_eq : q'.nextIp = q.nextIp
  idle : ¬ q.Full → q'.table = q.table
  subset : q'.table.leases ⊆ q.table.leases
  expired : ∀ l ∈ q.table.leases, l ∉ q'.table.leases → l.expireTime ≤ t
  progress : q.Full → (q.expired t).Nonempty → q'.table.leases.card < q.table.leases.card
  complete : q.Full → ((q.expired t).card : ℕ∞) ≤ batch →
    ∀ l ∈ q'.table.leases, ¬ l.expireTime ≤ t

/-- Below capacity nothing happens. -/
theorem Purges.of_not_full {batch : ℕ∞} {t : UInt32} {q : LeasePool} (h : ¬ q.Full) :
    Purges batch t q q where
  max_eq := rfl
  nextIp_eq := rfl
  idle _ := rfl
  subset := Finset.Subset.refl _
  expired _ hl hgone := absurd hl hgone
  progress hfull := absurd hfull h
  complete hfull := absurd hfull h

/-- On a full pool, a selection of the leases to keep is a clean-up. -/
theorem Purges.of_keep {batch : ℕ∞} {t : UInt32} {q : LeasePool} {c : Lease → Prop}
    [DecidablePred c] (hfull : q.Full)
    (hexpired : ∀ l ∈ q.table.leases, ¬ c l → l.expireTime ≤ t)
    (hprogress : (q.expired t).Nonempty → ∃ l ∈ q.table.leases, ¬ c l)
    (hcomplete : ((q.expired t).card : ℕ∞) ≤ batch →
      ∀ l ∈ q.table.leases, c l → ¬ l.expireTime ≤ t) :
    Purges batch t q { q with table := q.table.keep c } where
  max_eq := rfl
  nextIp_eq := rfl
  idle hnot := absurd hfull hnot
  subset := Finset.filter_subset _ _
  expired l hl hgone := hexpired l hl fun hc => hgone (LeaseTable.mem_keep.mpr ⟨hl, hc⟩)
  progress _ hsome := by
    obtain ⟨l, hl, hc⟩ := hprogress hsome
    exact Finset.card_lt_card (Finset.filter_ssubset.mpr ⟨l, hl, hc⟩)
  complete _ hfits l hl := by
    obtain ⟨hl, hc⟩ := LeaseTable.mem_keep.mp hl
    exact hcomplete hfits l hl hc

/-- Two clean-ups that both had a large enough batch agree. -/
theorem Purges.eq {batch batch' : ℕ∞} {t : UInt32} {q q₁ q₂ : LeasePool}
    (h₁ : Purges batch t q q₁) (h₂ : Purges batch' t q q₂)
    (hfits : q.Full → ((q.expired t).card : ℕ∞) ≤ batch ∧ ((q.expired t).card : ℕ∞) ≤ batch') :
    q₁ = q₂ := by
  have htable : q₁.table = q₂.table := by
    by_cases hfull : q.Full
    · have hkept : ∀ {b : ℕ∞} {q' : LeasePool}, Purges b t q q' →
          ((q.expired t).card : ℕ∞) ≤ b → ∀ l, l ∈ q'.table.leases ↔
            l ∈ q.table.leases ∧ ¬ l.expireTime ≤ t := by
        intro b q' h hb l
        constructor
        · exact fun hl => ⟨h.subset hl, h.complete hfull hb l hl⟩
        · rintro ⟨hl, halive⟩
          by_contra hgone
          exact halive (h.expired l hl hgone)
      apply LeaseTable.ext
      ext l
      rw [hkept h₁ (hfits hfull).1, hkept h₂ (hfits hfull).2]
    · rw [h₁.idle hfull, h₂.idle hfull]
  exact LeasePool.ext htable (h₁.max_eq.trans h₂.max_eq.symm)
    (h₁.nextIp_eq.trans h₂.nextIp_eq.symm)

end LeasePool

/-! ## Backends -/

/-- The three functions a client-tracking backend exports to the server. -/
structure LeaseOps (P : Type) where
  findAvailableIp : P → (poolStart poolEnd : UInt32) → Mac → (curTime : UInt32) → P × UInt32
  allocLease : P → (ip : UInt32) → Mac → (leaseTime curTime : UInt32) → P × Bool
  declineLease : P → Mac → P

/-- The switch shared by `dhcp_process_message_array` and `_hashmap`. -/
def LeaseOps.calls {P : Type} (ops : LeaseOps P) : PoolCalls P where
  discover server a :=
    let found := ops.findAvailableIp server.pool server.config.poolStart
      server.config.poolEnd a.mac a.curTime
    ({ server with pool := found.1 }, found.2)
  request server ip a :=
    if InPool server.config.poolStart server.config.poolEnd ip then
      let granted := ops.allocLease server.pool ip a.mac server.config.leaseTime a.curTime
      ({ server with pool := granted.1 }, granted.2)
    else (server, false)
  decline server a := { server with pool := ops.declineLease server.pool a.mac }

theorem LeaseOps.calls_request_of_inPool {P : Type} (ops : LeaseOps P) {server : DhcpServer P}
    {ip : UInt32} (h : InPool server.config.poolStart server.config.poolEnd ip) (a : Arrival) :
    ops.calls.request server ip a =
      ({ server with
          pool := (ops.allocLease server.pool ip a.mac server.config.leaseTime a.curTime).1 },
        (ops.allocLease server.pool ip a.mac server.config.leaseTime a.curTime).2) := by
  simp only [LeaseOps.calls]
  rw [if_pos h]

theorem LeaseOps.calls_request_of_not_inPool {P : Type} (ops : LeaseOps P)
    {server : DhcpServer P} {ip : UInt32}
    (h : ¬ InPool server.config.poolStart server.config.poolEnd ip) (a : Arrival) :
    ops.calls.request server ip a = (server, false) := by
  simp only [LeaseOps.calls]
  rw [if_neg h]

/-- **Refinement.**  On related states the backend's functions answer as the
abstract ones do after a clean-up, and keep the states related. -/
structure LeaseOps.Refines {P : Type} (ops : LeaseOps P) (batch : ℕ∞)
    (Rep : P → LeasePool → Prop) : Prop where
  find : ∀ {p : P} {q : LeasePool} (poolStart poolEnd : UInt32) (mac : Mac) (t : UInt32),
    Rep p q → ∃ q₀, LeasePool.Purges batch t q q₀ ∧
      (ops.findAvailableIp p poolStart poolEnd mac t).2 = (q₀.find poolStart poolEnd mac).2 ∧
      Rep (ops.findAvailableIp p poolStart poolEnd mac t).1 (q₀.find poolStart poolEnd mac).1
  alloc : ∀ {p : P} {q : LeasePool} (ip : UInt32) (mac : Mac) (leaseTime t : UInt32),
    Rep p q → ∃ q₀, LeasePool.Purges batch t q q₀ ∧
      (ops.allocLease p ip mac leaseTime t).2 = (q₀.alloc ip mac (t + leaseTime)).2 ∧
      Rep (ops.allocLease p ip mac leaseTime t).1 (q₀.alloc ip mac (t + leaseTime)).1
  decline : ∀ {p : P} {q : LeasePool} (mac : Mac),
    Rep p q → Rep (ops.declineLease p mac) (q.decline mac)

/-- **Everything a message can do** to the abstract pool of a server. -/
inductive LeaseStep (config : DhcpConfig) (batch : ℕ∞) (q : LeasePool) (a : Arrival) :
    LeasePool → Prop
  | discover {q₀ : LeasePool} (htype : a.msgType = dhcpDiscover)
      (hpurge : LeasePool.Purges batch a.curTime q q₀) :
      LeaseStep config batch q a (q₀.find config.poolStart config.poolEnd a.mac).1
  | request {q₀ : LeasePool} {ip : UInt32} (htype : a.msgType = dhcpRequest)
      (hpool : InPool config.poolStart config.poolEnd ip)
      (hpurge : LeasePool.Purges batch a.curTime q q₀) :
      LeaseStep config batch q a (q₀.alloc ip a.mac (a.curTime + config.leaseTime)).1
  | decline (htype : a.msgType = dhcpDecline) : LeaseStep config batch q a (q.decline a.mac)
  | idle : LeaseStep config batch q a q

section Steps

variable {P : Type} {ops : LeaseOps P} {batch : ℕ∞} {Rep : P → LeasePool → Prop}
  {server : DhcpServer P} {q : LeasePool} {a : Arrival}

/-- A message takes the abstract pool through one step and leaves the
configuration alone. -/
theorem LeaseOps.Refines.step (href : ops.Refines batch Rep) (hrep : Rep server.pool q) :
    (processMessage ops.calls server a).1.config = server.config ∧
      ∃ q', LeaseStep server.config batch q a q' ∧
        Rep (processMessage ops.calls server a).1.pool q' := by
  obtain hd | ⟨hr, ip, hip⟩ | hc | hi := a.cases
  · rw [processMessage_discover hd]
    obtain ⟨q₀, hpurge, -, hnext⟩ := href.find server.config.poolStart server.config.poolEnd
      a.mac a.curTime hrep
    exact ⟨rfl, _, LeaseStep.discover hd hpurge, hnext⟩
  · rw [processMessage_request hr hip]
    by_cases hpool : InPool server.config.poolStart server.config.poolEnd ip
    · obtain ⟨q₀, hpurge, -, hnext⟩ := href.alloc ip a.mac server.config.leaseTime a.curTime hrep
      rw [ops.calls_request_of_inPool hpool]
      exact ⟨rfl, _, LeaseStep.request hr hpool hpurge, hnext⟩
    · rw [ops.calls_request_of_not_inPool hpool]
      exact ⟨rfl, q, LeaseStep.idle, hrep⟩
  · rw [processMessage_decline hc]
    exact ⟨rfl, _, LeaseStep.decline hc, href.decline a.mac hrep⟩
  · rw [processMessage_ignored hi]
    exact ⟨rfl, q, LeaseStep.idle, hrep⟩

/-- An OFFER is what the abstract search finds. -/
theorem LeaseOps.Refines.isOffer_iff (href : ops.Refines batch Rep) (hrep : Rep server.pool q)
    (hd : a.msgType = dhcpDiscover) :
    ∃ q₀, LeasePool.Purges batch a.curTime q q₀ ∧ ∀ ip,
      IsOffer ip (processMessage ops.calls server a).2 ↔
        (q₀.find server.config.poolStart server.config.poolEnd a.mac).2 = ip ∧ ip ≠ 0 := by
  obtain ⟨q₀, hpurge, hsame, -⟩ := href.find server.config.poolStart server.config.poolEnd
    a.mac a.curTime hrep
  refine ⟨q₀, hpurge, fun ip => ?_⟩
  rw [isOffer_processMessage_iff, ← hsame]
  exact and_iff_right hd

/-- An ACK is what the abstract pool grants. -/
theorem LeaseOps.Refines.isAck_iff (href : ops.Refines batch Rep) (hrep : Rep server.pool q)
    (hr : a.msgType = dhcpRequest) {ip : UInt32} (hip : a.requestedIp = some ip) :
    ∃ q₀, LeasePool.Purges batch a.curTime q q₀ ∧
      (IsAck ip (processMessage ops.calls server a).2 ↔
        InPool server.config.poolStart server.config.poolEnd ip ∧ q₀.Grants ip a.mac) := by
  obtain ⟨q₀, hpurge, hsame, -⟩ := href.alloc ip a.mac server.config.leaseTime a.curTime hrep
  refine ⟨q₀, hpurge, ?_⟩
  rw [isAck_processMessage_iff]
  have hgrants : (q₀.alloc ip a.mac (a.curTime + server.config.leaseTime)).2 = true ↔
      q₀.Grants ip a.mac := by
    unfold LeasePool.alloc
    by_cases hg : q₀.Grants ip a.mac <;> simp [hg]
  by_cases hpool : InPool server.config.poolStart server.config.poolEnd ip
  · rw [ops.calls_request_of_inPool hpool, hsame, hgrants]
    exact ⟨fun h => ⟨hpool, h.2.2⟩, fun h => ⟨hr, hip, h.2⟩⟩
  · rw [ops.calls_request_of_not_inPool hpool]
    exact iff_of_false (fun h => Bool.false_ne_true h.2.2) fun h => hpool h.1

end Steps

end BaremetalDhcp
