import BaremetalDhcp.HashTableRefinement
import BaremetalDhcp.LeaseTable

/-!
# The HASHMAP backend

`dhcp_hashmap.c`: two open-addressing tables of `HASH_N` slots, one from clients
to leases and one with the leased addresses, kept in step by every operation.

A lookup key in the source is an element of which only the key bytes are filled
in; the comparison and hash functions read nothing else, so the model fills the
rest with zeros.  An address in memory is its four bytes, least significant
first.  A pointer into a bucket is the slot's index, and writing through it is
`HashTab.replaceElem`.

`hashOps_refines` is the result: HASHMAP implements the abstract lease pool, with
clean-ups of at most 32 leases.  The roll-back in `alloc_lease`, for an address
table that is full while the client table is not, is never reached.
-/

namespace BaremetalDhcp

/-- `HASH_N`. -/
def hashN : ℕ := 2048

instance : NeZero hashN := ⟨by decide⟩

/-- `dhcp_hash_elem`. -/
abbrev DhcpHashElem := Lease

/-- The zero bytes that `clear_elem` writes. -/
instance : Zero Lease := ⟨⟨fun _ => 0, 0, 0⟩⟩

/-! ## Keys -/

/-- The loop of `dhcp_mac_hash` and `dhcp_ip_hash`. -/
def hashBytes (bytes : List UInt8) : UInt32 :=
  bytes.foldl (fun h b => (h ^^^ b.toUInt32) * 16777619) 2166136261

/-- The loop of `dhcp_mac_comp` and `dhcp_ip_comp`: the first difference. -/
def compBytes : List UInt8 → List UInt8 → ℤ
  | a :: as, b :: bs => if a ≠ b then (a.toNat : ℤ) - b.toNat else compBytes as bs
  | _, _ => 0

/-- An address as it lies in memory. -/
def ipBytes (ip : UInt32) : List UInt8 := (uint32ToIp ip).reverse

/-- `dhcp_mac_hash` and `dhcp_mac_comp`. -/
def macKeys : KeyOps DhcpHashElem where
  hash e := hashBytes (List.ofFn e.macAddress) % UInt32.ofNat hashN
  comp a b := compBytes (List.ofFn a.macAddress) (List.ofFn b.macAddress)

/-- `dhcp_ip_hash` and `dhcp_ip_comp`. -/
def ipKeys : KeyOps UInt32 where
  hash ip := hashBytes (ipBytes ip) % UInt32.ofNat hashN
  comp a b := compBytes (ipBytes a) (ipBytes b)

theorem compBytes_eq_zero_iff : ∀ {as bs : List UInt8}, as.length = bs.length →
    (compBytes as bs = 0 ↔ as = bs) := by
  intro as
  induction as with
  | nil =>
      intro bs hlen
      obtain rfl : bs = [] := List.eq_nil_of_length_eq_zero hlen.symm
      simp [compBytes]
  | cons a as ih =>
      intro bs hlen
      obtain _ | ⟨b, bs⟩ := bs
      · simp at hlen
      · unfold compBytes
        split_ifs with hne
        · have hnat : a.toNat ≠ b.toNat := fun h => hne (UInt8.toNat_inj.mp h)
          refine iff_of_false (by omega) fun h => hne ?_
          exact (List.cons.inj h).1
        · rw [ih (by simpa using hlen)]
          simp [not_not.mp hne]

theorem macKeys_comp_eq_zero_iff {a b : DhcpHashElem} :
    macKeys.comp a b = 0 ↔ a.macAddress = b.macAddress :=
  (compBytes_eq_zero_iff (by simp)).trans List.ofFn_injective.eq_iff

theorem ipKeys_comp_eq_zero_iff {a b : UInt32} : ipKeys.comp a b = 0 ↔ a = b := by
  refine (compBytes_eq_zero_iff (by simp [ipBytes])).trans ⟨fun h => ?_, fun h => h ▸ rfl⟩
  have hbytes : uint32ToIp a = uint32ToIp b := List.reverse_injective h
  rw [← ipToUint32_uint32ToIp a, ← ipToUint32_uint32ToIp b, hbytes]

theorem macKeys_comp_ne_zero_iff {a b : DhcpHashElem} :
    macKeys.comp a b ≠ 0 ↔ a.macAddress ≠ b.macAddress :=
  not_congr macKeys_comp_eq_zero_iff

theorem ipKeys_comp_ne_zero_iff {a b : UInt32} : ipKeys.comp a b ≠ 0 ↔ a ≠ b :=
  not_congr ipKeys_comp_eq_zero_iff

theorem macKeys_lawful : macKeys.Lawful where
  refl _ := macKeys_comp_eq_zero_iff.mpr rfl
  symm h := macKeys_comp_eq_zero_iff.mpr (macKeys_comp_eq_zero_iff.mp h).symm
  trans h h' := macKeys_comp_eq_zero_iff.mpr
    ((macKeys_comp_eq_zero_iff.mp h).trans (macKeys_comp_eq_zero_iff.mp h'))
  hash_eq h := by simp only [macKeys, macKeys_comp_eq_zero_iff.mp h]

theorem ipKeys_lawful : ipKeys.Lawful where
  refl _ := ipKeys_comp_eq_zero_iff.mpr rfl
  symm h := ipKeys_comp_eq_zero_iff.mpr (ipKeys_comp_eq_zero_iff.mp h).symm
  trans h h' := ipKeys_comp_eq_zero_iff.mpr
    ((ipKeys_comp_eq_zero_iff.mp h).trans (ipKeys_comp_eq_zero_iff.mp h'))
  hash_eq h := by rw [ipKeys_comp_eq_zero_iff.mp h]

/-! ## The pool -/

/-- `dhcp_hashpool_t`. -/
structure HashPool where
  leases : HashTab hashN DhcpHashElem
  ipSet : HashTab hashN UInt32
  nextIp : UInt32
  maxLeases : UInt16

/-- Memory that has never been written. -/
def HashPool.zeroed : HashPool where
  leases := ⟨fun _ => 0, fun _ => false, 0⟩
  ipSet := ⟨fun _ => 0, fun _ => false, 0⟩
  nextIp := 0
  maxLeases := 0

/-- The key under which a client is looked up. -/
def macKey (mac : Mac) : DhcpHashElem := ⟨mac, 0, 0⟩

/-- `dhcp_hashpool_init`, on memory with arbitrary contents. -/
def dhcpHashpoolInit (prior : HashPool) (poolStart : UInt32) (maxLeases : UInt16) : HashPool where
  leases := hashInit prior.leases
  ipSet := hashInit prior.ipSet
  nextIp := poolStart
  maxLeases := if hashN < maxLeases.toNat then UInt16.ofNat hashN else maxLeases

/-- The slots that the first loop of `dhcp_hashpool_cleanup_expire_lease` collects:
the first 32 with an expired lease. -/
def HashPool.expiredSlots (pool : HashPool) (curTime : UInt32) : List (Fin hashN) :=
  ((List.finRange hashN).filter fun i =>
    pool.leases.occupied i ∧ (pool.leases.buckets i).expireTime ≤ curTime).take 32

/-- One iteration of the second loop: delete the client and its address. -/
def HashPool.deleteBoth (pool : HashPool) (mac : Mac) (ip : UInt32) : HashPool :=
  { pool with
    leases := (hashDelete macKeys pool.leases (macKey mac)).1
    ipSet := (hashDelete ipKeys pool.ipSet ip).1 }

/-- `dhcp_hashpool_cleanup_expire_lease`. -/
def dhcpHashpoolCleanupExpireLease (pool : HashPool) (curTime : UInt32) : HashPool :=
  let expired := (pool.expiredSlots curTime).map fun i =>
    ((pool.leases.buckets i).macAddress, (pool.leases.buckets i).ipAddress)
  expired.foldl (fun pool e => pool.deleteBoth e.1 e.2) pool

/-- The check at the head of `find_available_ip` and `alloc_lease`. -/
def HashPool.purge (pool : HashPool) (curTime : UInt32) : HashPool :=
  if hashSize pool.leases ≥ pool.maxLeases.toNat then
    dhcpHashpoolCleanupExpireLease pool curTime
  else pool

/-- `dhcp_hashpool_find_lease`: the slot that the returned pointer points to. -/
def dhcpHashpoolFindLease (pool : HashPool) (mac : Mac) : Option (Fin hashN) :=
  hashFind macKeys pool.leases (macKey mac)

/-- `dhcp_hashpool_find_available_ip`. -/
def dhcpHashpoolFindAvailableIp (pool : HashPool) (poolStart poolEnd : UInt32) (mac : Mac)
    (curTime : UInt32) : HashPool × UInt32 :=
  let pool := pool.purge curTime
  match dhcpHashpoolFindLease pool mac with
  | some existing => (pool, (pool.leases.buckets existing).ipAddress)
  | none =>
      if hashSize pool.leases ≥ pool.maxLeases.toNat then (pool, 0)
      else
        let found := searchPool (fun ip => (hashFind ipKeys pool.ipSet ip).isSome)
          poolStart poolEnd pool.nextIp
        ({ pool with nextIp := found.2 }, found.1)

/-- `dhcp_hashpool_alloc_lease`. -/
def dhcpHashpoolAllocLease (pool : HashPool) (ip : UInt32) (mac : Mac)
    (leaseTime curTime : UInt32) : HashPool × Bool :=
  let pool := pool.purge curTime
  match dhcpHashpoolFindLease pool mac with
  | some i =>
      if (pool.leases.buckets i).ipAddress ≠ ip then (pool, false)
      else
        ({ pool with
            leases := pool.leases.replaceElem i
              { pool.leases.buckets i with expireTime := curTime + leaseTime } }, true)
  | none =>
      if (hashFind ipKeys pool.ipSet ip).isSome then (pool, false)
      else if hashSize pool.leases ≥ pool.maxLeases.toNat then (pool, false)
      else
        let newLease : DhcpHashElem := ⟨mac, ip, curTime + leaseTime⟩
        let inserted := hashInsert macKeys pool.leases newLease
        if inserted.2 = false then ({ pool with leases := inserted.1 }, false)
        else
          let insertedIp := hashInsert ipKeys pool.ipSet ip
          if insertedIp.2 = false then
            ({ pool with
                leases := (hashDelete macKeys inserted.1 newLease).1
                ipSet := insertedIp.1 }, false)
          else ({ pool with leases := inserted.1, ipSet := insertedIp.1 }, true)

/-- `dhcp_hashpool_decline_lease`. -/
def dhcpHashpoolDeclineLease (pool : HashPool) (mac : Mac) : HashPool :=
  match hashFind macKeys pool.leases (macKey mac) with
  | some i => pool.deleteBoth mac (pool.leases.buckets i).ipAddress
  | none => pool

/-- The functions that `dhcp_process_message_hashmap` calls. -/
def hashOps : LeaseOps HashPool where
  findAvailableIp := dhcpHashpoolFindAvailableIp
  allocLease := dhcpHashpoolAllocLease
  declineLease := dhcpHashpoolDeclineLease

/-- `dhcp_init_server_hashmap`. -/
def dhcpInitServerHashmap (config : DhcpConfig) (prior : HashPool) (maxLeases : UInt16) :
    DhcpServer HashPool where
  config := config
  pool := dhcpHashpoolInit prior config.poolStart maxLeases

/-- `dhcp_process_message_hashmap`. -/
def dhcpProcessMessageHashmap (server : DhcpServer HashPool) (a : Arrival) :
    DhcpServer HashPool × Option DhcpMessage :=
  processMessage hashOps.calls server a

/-! ## What the two tables store -/

section Stored

variable {N : ℕ} [NeZero N] {E : Type} [DecidableEq E] {K : KeyOps E} {h : HashTab N E}

/-- Counting slots is counting stored elements. -/
theorem WF.card_filter (hK : K.Lawful) (hwf : WF K h) {S : Finset E}
    (hS : ∀ x, x ∈ S ↔ h.Stored x) (c : E → Prop) [DecidablePred c] :
    (S.filter c).card = (h.slots.filter fun p => c (h.buckets p)).card := by
  have himage : S.filter c = (h.slots.filter fun p => c (h.buckets p)).image h.buckets := by
    ext x
    rw [Finset.mem_filter, hS, Finset.mem_image]
    constructor
    · rintro ⟨⟨p, hp, rfl⟩, hc⟩
      exact ⟨p, Finset.mem_filter.mpr ⟨HashTab.mem_slots.mpr hp, hc⟩, rfl⟩
    · rintro ⟨p, hp, rfl⟩
      obtain ⟨hp, hc⟩ := Finset.mem_filter.mp hp
      exact ⟨⟨p, HashTab.mem_slots.mp hp, rfl⟩, hc⟩
  rw [himage, Finset.card_image_of_injOn]
  intro p hp q hq hpq
  rw [Finset.mem_coe, Finset.mem_filter, HashTab.mem_slots] at hp hq
  exact hwf.distinct p q hp.1 hq.1 (by rw [hpq]; exact hK.refl _)

/-- The counter of a well-formed table counts the stored elements. -/
theorem WF.elemCnt_eq_card (hK : K.Lawful) (hwf : WF K h) {S : Finset E}
    (hS : ∀ x, x ∈ S ↔ h.Stored x) : h.elemCnt = S.card := by
  rw [hwf.cnt]
  simpa using (hwf.card_filter hK hS fun _ => True).symm

end Stored

/-- The number of leases that have not run out. -/
def HashPool.liveCount (pool : HashPool) (t : UInt32) : ℕ :=
  (pool.leases.slots.filter fun i => t < (pool.leases.buckets i).expireTime).card

/-- The hash pool implements the abstract pool. -/
structure HashPool.Represents (pool : HashPool) (q : LeasePool) : Prop where
  wf : WF macKeys pool.leases
  wfIp : WF ipKeys pool.ipSet
  mem_iff : ∀ l, l ∈ q.table.leases ↔ pool.leases.Stored l
  ip_iff : ∀ ip, pool.ipSet.Stored ip ↔ q.table.Holds ip
  max_eq : q.max = pool.maxLeases.toNat
  max_le : q.max ≤ hashN
  nextIp_eq : q.nextIp = pool.nextIp

namespace HashPool.Represents

variable {pool : HashPool} {q : LeasePool}

theorem card_eq (h : pool.Represents q) : hashSize pool.leases = q.table.leases.card :=
  h.wf.elemCnt_eq_card macKeys_lawful h.mem_iff

theorem ipCard_eq (h : pool.Represents q) : pool.ipSet.elemCnt = q.table.leases.card := by
  have himage : ∀ ip, ip ∈ q.table.leases.image Lease.ipAddress ↔ pool.ipSet.Stored ip := by
    intro ip
    rw [h.ip_iff, Finset.mem_image]
    rfl
  rw [h.wfIp.elemCnt_eq_card ipKeys_lawful himage, Finset.card_image_of_injOn]
  intro l hl l' hl' hip
  exact q.table.ip_inj l hl l' hl' hip

theorem full_iff (h : pool.Represents q) :
    q.Full ↔ hashSize pool.leases ≥ pool.maxLeases.toNat := by
  unfold LeasePool.Full
  rw [h.card_eq, h.max_eq]

/-- `find_lease` is the abstract lookup. -/
theorem lookup (h : pool.Represents q) (mac : Mac) :
    (dhcpHashpoolFindLease pool mac).map pool.leases.buckets = q.table.lookup mac := by
  unfold dhcpHashpoolFindLease
  cases hfind : hashFind macKeys pool.leases (macKey mac) with
  | none =>
      have hnone := (hashFind_eq_none_iff macKeys_lawful h.wf).mp hfind
      symm
      rw [Option.map_none, LeaseTable.lookup_eq_none_iff]
      intro l hl hmac
      exact hnone l ((h.mem_iff l).mp hl) (macKeys_comp_eq_zero_iff.mpr hmac)
  | some i =>
      obtain ⟨hocc, hcomp⟩ := (hashFind_eq_some_iff macKeys_lawful h.wf).mp hfind
      symm
      rw [Option.map_some, LeaseTable.lookup_eq_some_iff]
      exact ⟨(h.mem_iff _).mpr ⟨i, hocc, rfl⟩, macKeys_comp_eq_zero_iff.mp hcomp⟩

/-- The address table answers whether an address is held. -/
theorem leased (h : pool.Represents q) :
    (fun ip => (hashFind ipKeys pool.ipSet ip).isSome) =
      fun ip => decide (q.table.Holds ip) := by
  funext ip
  rw [Bool.eq_iff_iff, decide_eq_true_iff, ← h.ip_iff]
  cases hfind : hashFind ipKeys pool.ipSet ip with
  | none =>
      have hnone := (hashFind_eq_none_iff ipKeys_lawful h.wfIp).mp hfind
      exact iff_of_false (by simp) fun hip => hnone ip hip (ipKeys_comp_eq_zero_iff.mpr rfl)
  | some i =>
      obtain ⟨hocc, hcomp⟩ := (hashFind_eq_some_iff ipKeys_lawful h.wfIp).mp hfind
      exact iff_of_true rfl ⟨i, hocc, ipKeys_comp_eq_zero_iff.mp hcomp⟩

/-- Deleting a client and its address from both tables. -/
theorem deleteBoth (h : pool.Represents q) {l : Lease} (hl : l ∈ q.table.leases) :
    (pool.deleteBoth l.macAddress l.ipAddress).Represents
      { q with table := q.table.keep fun x => x.macAddress ≠ l.macAddress } := by
  have hmac := hashDelete_spec macKeys_lawful h.wf (macKey l.macAddress)
  have hip := hashDelete_spec ipKeys_lawful h.wfIp l.ipAddress
  obtain ⟨habsent, -⟩ | ⟨-, -, hwf, hstored, -⟩ := hmac
  · exact absurd (macKeys_comp_eq_zero_iff.mpr rfl) (habsent l ((h.mem_iff l).mp hl))
  obtain ⟨habsent, -⟩ | ⟨-, -, hwfIp, hstoredIp, -⟩ := hip
  · exact absurd (ipKeys_comp_eq_zero_iff.mpr rfl)
      (habsent l.ipAddress ((h.ip_iff _).mpr ⟨l, hl, rfl⟩))
  refine ⟨hwf, hwfIp, fun x => ?_, fun ip => ?_, h.max_eq, h.max_le, h.nextIp_eq⟩
  · rw [LeaseTable.mem_keep, h.mem_iff]
    refine Iff.trans ?_ (hstored x).symm
    rw [macKeys_comp_ne_zero_iff]
    rfl
  · refine (hstoredIp ip).trans ?_
    rw [h.ip_iff, ipKeys_comp_ne_zero_iff]
    constructor
    · rintro ⟨⟨x, hx, rfl⟩, hne⟩
      refine ⟨x, LeaseTable.mem_keep.mpr ⟨hx, fun hmac => hne ?_⟩, rfl⟩
      rw [q.table.mac_inj x hx l hl hmac]
    · rintro ⟨x, hx, rfl⟩
      obtain ⟨hx, hne⟩ := LeaseTable.mem_keep.mp hx
      refine ⟨⟨x, hx, rfl⟩, fun hip => hne ?_⟩
      rw [q.table.ip_inj x hx l hl hip]

/-- The second loop of the clean-up deletes the collected leases. -/
theorem deleteAll : ∀ (ls : List Lease) {pool : HashPool} {q : LeasePool},
    pool.Represents q → (∀ l ∈ ls, l ∈ q.table.leases) → ls.Nodup →
    ((ls.map fun l => (l.macAddress, l.ipAddress)).foldl
        (fun pool e => pool.deleteBoth e.1 e.2) pool).Represents
      { q with table := q.table.keep fun l => l ∉ ls } := by
  intro ls
  induction ls with
  | nil =>
      intro pool q h _ _
      have hall : q.table.keep (fun l => l ∉ ([] : List Lease)) = q.table :=
        LeaseTable.ext (Finset.filter_true_of_mem fun l _ => List.not_mem_nil)
      rw [hall]
      exact h
  | cons l ls ih =>
      intro pool q h hmem hnodup
      obtain ⟨hl, hnodup⟩ := List.nodup_cons.mp hnodup
      have hlmem := hmem l (by simp)
      have hrest : ∀ x ∈ ls, x ∈ (q.table.keep fun x => x.macAddress ≠ l.macAddress).leases := by
        intro x hx
        have hxmem := hmem x (List.mem_cons_of_mem _ hx)
        refine LeaseTable.mem_keep.mpr ⟨hxmem, fun hmac => hl ?_⟩
        rwa [← q.table.mac_inj x hxmem l hlmem hmac]
      have hstep := ih (h.deleteBoth hlmem) hrest hnodup
      have hsame : (q.table.keep fun x => x.macAddress ≠ l.macAddress).keep (fun x => x ∉ ls) =
          q.table.keep fun x => x ∉ l :: ls := by
        apply LeaseTable.ext
        ext x
        rw [LeaseTable.mem_keep, LeaseTable.mem_keep, LeaseTable.mem_keep, List.mem_cons, not_or,
          and_assoc]
        refine and_congr_right fun hx => and_congr_left fun _ => not_congr ?_
        exact ⟨fun hmac => q.table.mac_inj x hx l hlmem hmac, fun hxl => hxl ▸ rfl⟩
      rw [← hsame]
      exact hstep

/-- The occupied buckets that have run out hold the expired leases, each once. -/
theorem expiredBuckets (h : pool.Represents q) (curTime : UInt32) :
    let all := (List.finRange hashN).filter fun i =>
      pool.leases.occupied i ∧ (pool.leases.buckets i).expireTime ≤ curTime
    (all.map pool.leases.buckets).Nodup ∧
      (all.map pool.leases.buckets).toFinset = q.expired curTime := by
  intro all
  have hmem : ∀ i, i ∈ all ↔
      pool.leases.occupied i = true ∧ (pool.leases.buckets i).expireTime ≤ curTime := by
    intro i
    simp [all]
  constructor
  · refine List.Nodup.map_on ?_ ((List.nodup_finRange hashN).filter _)
    intro i hi j hj hij
    exact h.wf.distinct i j ((hmem i).mp hi).1 ((hmem j).mp hj).1
      (macKeys_comp_eq_zero_iff.mpr (by rw [hij]))
  · ext l
    unfold LeasePool.expired
    rw [List.mem_toFinset, List.mem_map, Finset.mem_filter, h.mem_iff]
    constructor
    · rintro ⟨i, hi, rfl⟩
      exact ⟨⟨i, ((hmem i).mp hi).1, rfl⟩, ((hmem i).mp hi).2⟩
    · rintro ⟨⟨i, hocc, rfl⟩, hexp⟩
      exact ⟨i, (hmem i).mpr ⟨hocc, hexp⟩, rfl⟩

/-- The leases that the first loop collects: expired ones, and all of them when
there are at most 32. -/
theorem collected (h : pool.Represents q) (curTime : UInt32) :
    let ls := (pool.expiredSlots curTime).map pool.leases.buckets
    ls.Nodup ∧ (∀ l ∈ ls, l ∈ q.expired curTime) ∧
      ((q.expired curTime).Nonempty → ls ≠ []) ∧
      (((q.expired curTime).card : ℕ∞) ≤ 32 → ∀ l ∈ q.expired curTime, l ∈ ls) := by
  obtain ⟨hnodup, hset⟩ := h.expiredBuckets curTime
  generalize hall : ((List.finRange hashN).filter fun i =>
    pool.leases.occupied i ∧ (pool.leases.buckets i).expireTime ≤ curTime).map
      pool.leases.buckets = all at hnodup hset
  have hlen : all.length = (q.expired curTime).card := by
    rw [← hset, List.toFinset_card_of_nodup hnodup]
  have htake : (pool.expiredSlots curTime).map pool.leases.buckets = all.take 32 := by
    rw [← hall, ← List.map_take]
    rfl
  show List.Nodup _ ∧ _
  rw [htake]
  refine ⟨hnodup.sublist (List.take_sublist _ _), fun l hl => ?_, fun hsome => ?_, fun hfits => ?_⟩
  · rw [← hset, List.mem_toFinset]
    exact List.mem_of_mem_take hl
  · have hpos := Finset.card_pos.mpr hsome
    rw [← hlen] at hpos
    intro hnil
    rw [List.take_eq_nil_iff] at hnil
    obtain h32 | hnil := hnil
    · simp at h32
    · rw [hnil] at hpos
      simp at hpos
  · have hle : all.length ≤ 32 := by
      rw [hlen]
      exact_mod_cast hfits
    intro l hl
    rw [List.take_of_length_le hle, ← List.mem_toFinset, hset]
    exact hl

/-- The clean-up drops the leases it has collected, from both tables. -/
theorem cleanup (h : pool.Represents q) (curTime : UInt32) :
    (dhcpHashpoolCleanupExpireLease pool curTime).Represents
      { q with table := q.table.keep fun l =>
        l ∉ (pool.expiredSlots curTime).map pool.leases.buckets } := by
  obtain ⟨hnodup, hexpired, -, -⟩ := h.collected curTime
  have hdeleted := deleteAll _ h
    (fun l hl => (Finset.mem_filter.mp (hexpired l hl)).1) hnodup
  rw [List.map_map] at hdeleted
  exact hdeleted

/-- The check at the head of the two functions is a clean-up of batch 32. -/
theorem purge (h : pool.Represents q) (curTime : UInt32) :
    ∃ q₀, LeasePool.Purges 32 curTime q q₀ ∧ (pool.purge curTime).Represents q₀ := by
  unfold HashPool.purge
  by_cases hfull : hashSize pool.leases ≥ pool.maxLeases.toNat
  · rw [if_pos hfull]
    obtain ⟨-, hexpired, hsome, hfits⟩ := h.collected curTime
    refine ⟨_, LeasePool.Purges.of_keep (h.full_iff.mpr hfull) ?_ ?_ ?_, h.cleanup curTime⟩
    · intro l _ hls
      exact (Finset.mem_filter.mp (hexpired l (not_not.mp hls))).2
    · intro hne
      obtain ⟨l, hl⟩ := List.exists_mem_of_ne_nil _ (hsome hne)
      exact ⟨l, (Finset.mem_filter.mp (hexpired l hl)).1, not_not_intro hl⟩
    · intro hle l hl hls hexp
      exact hls (hfits hle l (Finset.mem_filter.mpr ⟨hl, hexp⟩))
  · rw [if_neg hfull]
    exact ⟨q, LeasePool.Purges.of_not_full fun hq => hfull (h.full_iff.mp hq), h⟩

theorem find (h : pool.Represents q) (poolStart poolEnd : UInt32) (mac : Mac)
    (curTime : UInt32) :
    ∃ q₀, LeasePool.Purges 32 curTime q q₀ ∧
      (dhcpHashpoolFindAvailableIp pool poolStart poolEnd mac curTime).2 =
        (q₀.find poolStart poolEnd mac).2 ∧
      (dhcpHashpoolFindAvailableIp pool poolStart poolEnd mac curTime).1.Represents
        (q₀.find poolStart poolEnd mac).1 := by
  obtain ⟨q₀, hpurge, h₀⟩ := h.purge curTime
  refine ⟨q₀, hpurge, ?_⟩
  have hlookup := h₀.lookup mac
  unfold dhcpHashpoolFindAvailableIp LeasePool.find
  cases hfind : dhcpHashpoolFindLease (pool.purge curTime) mac with
  | some i =>
      rw [hfind, Option.map_some] at hlookup
      rw [← hlookup]
      simp only [hfind]
      exact ⟨trivial, h₀⟩
  | none =>
      rw [hfind, Option.map_none] at hlookup
      rw [← hlookup]
      simp only [hfind]
      by_cases hfull : q₀.Full
      · rw [if_pos hfull, if_pos (h₀.full_iff.mp hfull)]
        exact ⟨rfl, h₀⟩
      · rw [if_neg hfull, if_neg fun hge => hfull (h₀.full_iff.mpr hge)]
        rw [h₀.leased, ← h₀.nextIp_eq]
        exact ⟨rfl, h₀.wf, h₀.wfIp, h₀.mem_iff, h₀.ip_iff, h₀.max_eq, h₀.max_le, rfl⟩

/-- Renewing the client's bucket in place. -/
theorem renew (h : pool.Represents q) {i : Fin hashN} (hocc : pool.leases.occupied i = true)
    (expireTime : UInt32) :
    HashPool.Represents
      { pool with
        leases := pool.leases.replaceElem i
          { pool.leases.buckets i with expireTime := expireTime } }
      { q with
        table := q.table.put ⟨(pool.leases.buckets i).macAddress,
          (pool.leases.buckets i).ipAddress, expireTime⟩ } := by
  set l := pool.leases.buckets i with hl
  have hcomp : macKeys.comp (pool.leases.buckets i) { l with expireTime := expireTime } = 0 :=
    macKeys_comp_eq_zero_iff.mpr rfl
  have hmem : l ∈ q.table.leases := (h.mem_iff l).mpr ⟨i, hocc, rfl⟩
  refine ⟨h.wf.replaceElem macKeys_lawful hcomp, h.wfIp, fun x => ?_, fun ip => ?_, h.max_eq,
    h.max_le, h.nextIp_eq⟩
  · rw [stored_replaceElem macKeys_lawful h.wf hocc hcomp, LeaseTable.mem_put, ← h.mem_iff,
      macKeys_comp_ne_zero_iff]
    refine or_congr_right (and_congr_right fun hx => ⟨fun hne => hne.1, fun hne => ⟨hne, ?_⟩⟩)
    exact fun hip => hne (by rw [q.table.ip_inj x hx l hmem hip])
  · rw [h.ip_iff]
    constructor
    · rintro ⟨x, hx, rfl⟩
      by_cases hxl : x = l
      · exact ⟨_, LeaseTable.mem_put.mpr (Or.inl rfl), by rw [hxl]⟩
      · refine ⟨x, LeaseTable.mem_put.mpr (Or.inr ⟨hx, fun hmac => hxl ?_, fun hip => hxl ?_⟩), rfl⟩
        · exact q.table.mac_inj x hx l hmem hmac
        · exact q.table.ip_inj x hx l hmem hip
    · rintro ⟨x, hx, rfl⟩
      obtain rfl | ⟨hx, -⟩ := LeaseTable.mem_put.mp hx
      · exact ⟨l, hmem, rfl⟩
      · exact ⟨x, hx, rfl⟩

/-- Inserting a fresh lease succeeds in both tables below capacity. -/
theorem insertBoth (h : pool.Represents q) (hroom : ¬ q.Full) {l : Lease}
    (hfresh : ∀ x ∈ q.table.leases, x.macAddress ≠ l.macAddress ∧ x.ipAddress ≠ l.ipAddress) :
    (hashInsert macKeys pool.leases l).2 = true ∧
      (hashInsert ipKeys pool.ipSet l.ipAddress).2 = true ∧
      HashPool.Represents
        { pool with
          leases := (hashInsert macKeys pool.leases l).1
          ipSet := (hashInsert ipKeys pool.ipSet l.ipAddress).1 }
        { q with table := q.table.put l } := by
  have hlt : q.table.leases.card < hashN := by
    unfold LeasePool.Full at hroom
    exact lt_of_lt_of_le (not_le.mp hroom) h.max_le
  have hcard : pool.leases.elemCnt = q.table.leases.card := h.card_eq
  obtain ⟨hfull, -⟩ | ⟨-, hok, hwf, hstored, -⟩ := hashInsert_spec macKeys_lawful h.wf l
  · omega
  obtain ⟨hfull, -⟩ | ⟨-, hokIp, hwfIp, hstoredIp, -⟩ :=
    hashInsert_spec ipKeys_lawful h.wfIp l.ipAddress
  · have hcardIp := h.ipCard_eq
    omega
  refine ⟨hok, hokIp, hwf, hwfIp, fun x => ?_, fun ip => ?_, h.max_eq, h.max_le, h.nextIp_eq⟩
  · refine Iff.trans ?_ (hstored x).symm
    rw [LeaseTable.mem_put, ← h.mem_iff, macKeys_comp_ne_zero_iff]
    exact or_congr_right (and_congr_right fun hx => ⟨fun hne => hne.1, fun hne => hfresh x hx⟩)
  · refine (hstoredIp ip).trans ?_
    rw [h.ip_iff, ipKeys_comp_ne_zero_iff]
    constructor
    · rintro (rfl | ⟨⟨x, hx, rfl⟩, -⟩)
      · exact ⟨l, LeaseTable.mem_put.mpr (Or.inl rfl), rfl⟩
      · exact ⟨x, LeaseTable.mem_put.mpr (Or.inr ⟨hx, hfresh x hx⟩), rfl⟩
    · rintro ⟨x, hx, rfl⟩
      obtain rfl | ⟨hx, hne⟩ := LeaseTable.mem_put.mp hx
      · exact Or.inl rfl
      · exact Or.inr ⟨⟨x, hx, rfl⟩, hne.2⟩

theorem alloc (h : pool.Represents q) (ip : UInt32) (mac : Mac) (leaseTime curTime : UInt32) :
    ∃ q₀, LeasePool.Purges 32 curTime q q₀ ∧
      (dhcpHashpoolAllocLease pool ip mac leaseTime curTime).2 =
        (q₀.alloc ip mac (curTime + leaseTime)).2 ∧
      (dhcpHashpoolAllocLease pool ip mac leaseTime curTime).1.Represents
        (q₀.alloc ip mac (curTime + leaseTime)).1 := by
  obtain ⟨q₀, hpurge, h₀⟩ := h.purge curTime
  refine ⟨q₀, hpurge, ?_⟩
  have hlookup := h₀.lookup mac
  unfold dhcpHashpoolAllocLease LeasePool.alloc
  generalize pool.purge curTime = pool₀ at h₀ hlookup ⊢
  dsimp only
  cases hfind : dhcpHashpoolFindLease pool₀ mac with
  | some i =>
      have hocc : pool₀.leases.occupied i = true :=
        ((hashFind_eq_some_iff macKeys_lawful h₀.wf).mp hfind).1
      rw [hfind, Option.map_some, eq_comm, LeaseTable.lookup_eq_some_iff] at hlookup
      obtain ⟨hmem, rfl⟩ := hlookup
      by_cases hip : (pool₀.leases.buckets i).ipAddress = ip
      · subst hip
        rw [if_pos ((LeasePool.grants_own_iff hmem).mpr rfl)]
        simp only [ne_eq, not_true_eq_false, if_false]
        exact ⟨trivial, h₀.renew hocc _⟩
      · rw [if_neg fun hgrants => hip ((LeasePool.grants_own_iff hmem).mp hgrants)]
        simp only [ne_eq, hip, not_false_eq_true, if_true]
        exact ⟨trivial, h₀⟩
  | none =>
      rw [hfind, Option.map_none, eq_comm, LeaseTable.lookup_eq_none_iff] at hlookup
      have hheld : (hashFind ipKeys pool₀.ipSet ip).isSome = decide (q₀.table.Holds ip) :=
        congrFun h₀.leased ip
      dsimp only
      rw [hheld]
      by_cases hip : q₀.table.Holds ip
      · rw [if_pos (decide_eq_true hip)]
        obtain ⟨l, hl, rfl⟩ := hip
        rw [if_neg (LeasePool.not_grants_of_held hl (hlookup l hl))]
        exact ⟨rfl, h₀⟩
      · have hfresh : ∀ l ∈ q₀.table.leases, l.macAddress ≠ mac ∧ l.ipAddress ≠ ip :=
          fun l hl => ⟨hlookup l hl, fun hlip => hip ⟨l, hl, hlip⟩⟩
        have hgrants := LeasePool.grants_fresh_iff hfresh
        rw [if_neg (by simpa using hip)]
        by_cases hfull : q₀.Full
        · rw [if_neg fun hg => hgrants.mp hg hfull, if_pos (h₀.full_iff.mp hfull)]
          exact ⟨rfl, h₀⟩
        · obtain ⟨hok, hokIp, hrep⟩ := h₀.insertBoth (l := ⟨mac, ip, curTime + leaseTime⟩) hfull
            hfresh
          rw [if_pos (hgrants.mpr hfull), if_neg fun hge => hfull (h₀.full_iff.mpr hge)]
          simp only [hok, hokIp, Bool.true_eq_false, if_false]
          exact ⟨trivial, hrep⟩

theorem decline (h : pool.Represents q) (mac : Mac) :
    (dhcpHashpoolDeclineLease pool mac).Represents (q.decline mac) := by
  have hlookup := h.lookup mac
  unfold dhcpHashpoolFindLease at hlookup
  unfold dhcpHashpoolDeclineLease LeasePool.decline
  cases hfind : hashFind macKeys pool.leases (macKey mac) with
  | none =>
      rw [hfind, Option.map_none, eq_comm, LeaseTable.lookup_eq_none_iff] at hlookup
      have hall : q.table.keep (fun l => l.macAddress ≠ mac) = q.table :=
        LeaseTable.ext (Finset.filter_true_of_mem hlookup)
      rw [hall]
      exact h
  | some i =>
      rw [hfind, Option.map_some, eq_comm, LeaseTable.lookup_eq_some_iff] at hlookup
      obtain ⟨hmem, rfl⟩ := hlookup
      exact h.deleteBoth hmem

end HashPool.Represents

theorem dhcpHashpoolInit_represents (prior : HashPool) (poolStart : UInt32)
    (maxLeases : UInt16) :
    (dhcpHashpoolInit prior poolStart maxLeases).Represents
      ⟨LeaseTable.empty, min hashN maxLeases.toNat, poolStart⟩ where
  wf := hashClear_wf _ prior.leases
  wfIp := hashClear_wf _ prior.ipSet
  mem_iff l := iff_of_false (by simp [LeaseTable.empty]) (not_stored_hashClear prior.leases l)
  ip_iff ip := iff_of_false (not_stored_hashClear prior.ipSet ip)
    (by simp [LeaseTable.Holds, LeaseTable.empty])
  max_eq := by
    unfold dhcpHashpoolInit
    by_cases h : hashN < maxLeases.toNat
    · simp only [if_pos h, min_eq_left h.le]
      rfl
    · simp only [if_neg h, min_eq_right (not_lt.mp h)]
  max_le := min_le_left _ _
  nextIp_eq := rfl

/-- **HASHMAP implements the abstract lease pool.** -/
theorem hashOps_refines : hashOps.Refines 32 HashPool.Represents where
  find poolStart poolEnd mac t h := h.find poolStart poolEnd mac t
  alloc ip mac leaseTime t h := h.alloc ip mac leaseTime t
  decline mac h := h.decline mac

end BaremetalDhcp
